import SExprReflow.Printer
import SExprReflow.Scanner
import SExprReflow.Settings.Change

/-!
# The formatter

A `Formatter` is a scanner with a printer behind it: it reads characters and prints what
they decide. `reflow` is a whole run of it over a text.
-/

namespace SExprReflow

/-- The state of reading and printing one text. -/
structure Formatter where
  scanner : Scanner := {}
  printer : Printer
deriving DecidableEq

namespace Formatter

/-- A formatter at the start of a text. -/
def ofSettings (s : Settings) : Formatter := { printer := .ofSettings s }

/-- The settings in force. -/
def settings (f : Formatter) : Settings := f.printer.sheet.settings

/-- The formatter with other settings in force. -/
def withSettings (f : Formatter) (s : Settings) : Formatter :=
  { f with printer := f.printer.withSettings s }

/-- The formatter after a change of the settings in force. -/
def change (f : Formatter) (c : Change) : Except SettingsError Formatter := do
  let s ← c.apply f.settings
  return f.withSettings s

/-- Reads one character. -/
def read (f : Formatter) (c : Char) : List Piece × Formatter :=
  let r := f.scanner.read c
  let p := f.printer.printAll r.1
  (p.1, { scanner := r.2, printer := p.2 })

/-- Reads characters in order. -/
def readAll (f : Formatter) (text : List Char) : List Piece × Formatter :=
  runAll read f text

/-- Prints everything that is still kept back. The last line is ended, unless the text
stops inside a string. -/
def finish (f : Formatter) : List Piece × Formatter :=
  let r := f.scanner.endAtom
  let p := f.printer.printAll r.1
  let q := p.2.finish (!r.2.inString)
  (p.1 ++ q.1, { scanner := r.2, printer := q.2 })

end Formatter

/-- The pieces that a whole text is printed as. -/
def reflowPieces (s : Settings) (text : List Char) : List Piece :=
  let r := (Formatter.ofSettings s).readAll text
  r.1 ++ r.2.finish.1

/-- The text printed anew under the given settings. -/
def reflow (s : Settings) (text : List Char) : List Char :=
  Piece.textOf (reflowPieces s text)

end SExprReflow
