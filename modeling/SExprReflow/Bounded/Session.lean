import SExprReflow.Bounded.Printer
import SExprReflow.Formatter

/-!
# Sessions

A `Session` is a formatter at work within bounds. What a character decides is delivered all at
once, when everything it asks for has been printed. If something cannot be printed the session
stops: what had been printed for the character stays undelivered until a later character
succeeds, and the session reads nothing more until it is resumed.

`reflowWithin` is a whole run of a session over a text. Where it does not stop, it delivers
what `reflow` prints.
-/

namespace SExprReflow

/-- The state of formatting a text within bounds. -/
structure Session where
  formatter : Formatter
  /-- What has been printed and not delivered. -/
  undelivered : List Piece := []
  /-- Why the session has stopped, if it has. -/
  error : Option LengthError := none

namespace Session

/-- A session at the start of a text. -/
def ofSettings (s : Settings) : Session := { formatter := .ofSettings s }

/-- A stopped session that goes on. -/
def resume (s : Session) : Session := { s with error := none }

/-- Delivers a printout together with what was left undelivered, or leaves all of it
undelivered if printing stopped. -/
def deliver (s : Session) (scanner : Scanner) (r : Printout) : List Piece × Session :=
  match r.error with
  | some e =>
    ([], { formatter := ⟨scanner, r.printer⟩, undelivered := s.undelivered ++ r.pieces,
           error := some e })
  | none => (s.undelivered ++ r.pieces, { formatter := ⟨scanner, r.printer⟩ })

/-- Reads one character. -/
def read [Memory] (s : Session) (c : Char) : List Piece × Session :=
  match s.error with
  | some _ => ([], s)
  | none =>
    let r := s.formatter.scanner.read c
    s.deliver r.2 (s.formatter.printer.printWithin r.1)

/-- Reads characters in order. -/
def readAll [Memory] (s : Session) (text : List Char) : List Piece × Session := runAll read s text

/-- Prints everything that is still kept back. The last line is ended, unless the text stops
inside a string. -/
def finish [Memory] (s : Session) : List Piece × Session :=
  match s.error with
  | some _ => ([], s)
  | none =>
    let r := s.formatter.scanner.endAtom
    s.deliver r.2 ((s.formatter.printer.printWithin r.1).andThen
      fun p => p.finishWithin (!r.2.inString))

end Session

/-- What is delivered of a printed text, and why it ends before its time. -/
structure Delivery where
  text : List Char
  error : Option LengthError := none
deriving DecidableEq

/-- The text printed anew under the given settings, as far as that is possible. -/
def reflowWithin [Memory] (s : Settings) (text : List Char) : Delivery :=
  let r := (Session.ofSettings s).readAll text
  let q := r.2.finish
  ⟨Piece.textOf (r.1 ++ q.1), q.2.error⟩

/-! ## The unbounded run -/

namespace Session

theorem readAll_of_error [Memory] {s : Session} {e : LengthError} (he : s.error = some e)
    (text : List Char) : s.readAll text = ([], s) := by
  induction text with
  | nil => rfl
  | cons c cs ih =>
    have hr : s.read c = ([], s) := by simp [read, he]
    rw [readAll] at ih ⊢
    simp [hr, ih]

theorem deliver_of_agrees [Memory] {f : Formatter} {scanner : Scanner} {r : Printout}
    {ps : List Piece} {p : Printer} (h : r.Agrees ps p) (hr : r.error = none) :
    deliver { formatter := f } scanner r = (ps, { formatter := ⟨scanner, p⟩ }) := by
  simp [deliver, hr, h.pieces_eq hr, h.printer_eq hr]

theorem error_deliver (s : Session) (scanner : Scanner) (r : Printout) :
    (s.deliver scanner r).2.error = r.error := by
  unfold deliver
  split <;> simp_all

/-- A session that has not stopped has read like its formatter. -/
theorem readAll_eq [Memory] {f : Formatter} {text : List Char}
    (h : (readAll { formatter := f } text).2.error = none) :
    readAll { formatter := f } text =
      ((f.readAll text).1, { formatter := (f.readAll text).2 }) := by
  induction text generalizing f with
  | nil => rfl
  | cons c cs ih =>
    have hp := Printer.printWithin_agrees f.printer (f.scanner.read c).1
    have hread : read { formatter := f } c =
        deliver { formatter := f } (f.scanner.read c).2
          (f.printer.printWithin (f.scanner.read c).1) := rfl
    cases hr : (f.printer.printWithin (f.scanner.read c).1).error with
    | some e =>
      have he : (read { formatter := f } c).2.error = some e := by
        rw [hread, error_deliver, hr]
      simp only [readAll, runAll_cons] at h
      rw [← readAll, readAll_of_error he] at h
      exact absurd (he.symm.trans h) (by simp)
    | none =>
      have hd : read { formatter := f } c = ((f.read c).1, { formatter := (f.read c).2 }) := by
        rw [hread, deliver_of_agrees hp hr]
        rfl
      simp only [readAll, runAll_cons, hd] at h ⊢
      rw [← readAll] at h ⊢
      rw [ih h]
      simp [Formatter.readAll]

/-- A session that has not stopped has finished like its formatter. -/
theorem finish_eq [Memory] {f : Formatter} (h : (finish { formatter := f }).2.error = none) :
    finish { formatter := f } = (f.finish.1, { formatter := f.finish.2 }) := by
  have hp := Printout.Agrees.andThen (k := fun p => p.finishWithin (!f.scanner.endAtom.2.inString))
    (Printer.printWithin_agrees f.printer f.scanner.endAtom.1)
    (Printer.finishWithin_agrees (f.printer.printAll f.scanner.endAtom.1).2 _)
  exact deliver_of_agrees hp ((error_deliver _ _ _).symm.trans h)

end Session

/-- A run that is not stopped prints the whole text anew. -/
theorem text_reflowWithin [Memory] {s : Settings} {text : List Char}
    (h : (reflowWithin s text).error = none) : (reflowWithin s text).text = reflow s text := by
  have hr : ((Session.ofSettings s).readAll text).2.error = none := by
    cases he : ((Session.ofSettings s).readAll text).2.error with
    | none => rfl
    | some e => simp [reflowWithin, Session.finish, he] at h
  have hread := Session.readAll_eq hr
  simp only [reflowWithin, Session.ofSettings] at h ⊢
  rw [hread] at h ⊢
  rw [Session.finish_eq h]
  rfl

end SExprReflow
