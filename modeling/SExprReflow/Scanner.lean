import SExprReflow.Lexeme
import SExprReflow.Stream

/-!
# The scanner

The scanner reads characters one at a time and yields a lexeme as soon as it is
complete. An atom is complete at white space or at a delimiter, so the scanner keeps
the atom that it is reading. Inside a quoted string neither of them counts, which is
why it also keeps whether it is inside one and whether the last character was an
escape.

Strings are part of the atom around them: `a"b c"d` is one atom, read and kept
character for character.
-/

namespace SExprReflow

/-- What one character means to the scanner. -/
inductive CharClass where
  | opener
  | closer
  | blank
  | quote
  | escape
  | content
deriving DecidableEq, Repr

namespace CharClass

/-- The characters that separate atoms. -/
def isBlank (c : Char) : Bool :=
  c = ' ' || c = '\t' || c = '\r' || c = '\n'

/-- The class of a character, given whether it stands inside a string and whether the
character before it escapes it. A backslash escapes only inside a string. -/
def of (inString escaped : Bool) (c : Char) : CharClass :=
  if escaped then .content
  else if c = '"' then .quote
  else if inString then (if c = '\\' then .escape else .content)
  else if c = '(' then .opener
  else if c = ')' then .closer
  else if isBlank c then .blank
  else .content

end CharClass

/-- The state of reading: the atom read so far, newest character first, and where the
next character stands. -/
structure Scanner where
  pending : List Char := []
  inString : Bool := false
  escaped : Bool := false
deriving DecidableEq, Repr

namespace Scanner

/-- The characters of the atom being read. -/
def buffer (s : Scanner) : List Char := s.pending.reverse

/-- The atom being read, if it has any characters. -/
def pendingAtom (s : Scanner) : List Lexeme :=
  if s.pending.isEmpty then [] else [Lexeme.atom s.buffer]

/-- Ends the atom being read. Whether the scanner is inside a string is kept: the
string may go on. -/
def endAtom (s : Scanner) : List Lexeme × Scanner :=
  (s.pendingAtom, { s with pending := [] })

/-- Reads one character. -/
def read (s : Scanner) (c : Char) : List Lexeme × Scanner :=
  match CharClass.of s.inString s.escaped c with
  | .quote => ([], { pending := c :: s.pending, inString := !s.inString, escaped := false })
  | .escape => ([], { s with pending := c :: s.pending, escaped := true })
  | .content => ([], { s with pending := c :: s.pending, escaped := false })
  | .opener => (s.pendingAtom ++ [Lexeme.opener], { s with pending := [], escaped := false })
  | .closer => (s.pendingAtom ++ [Lexeme.closer], { s with pending := [], escaped := false })
  | .blank => (s.pendingAtom, { s with pending := [], escaped := false })

/-- Reads characters in order. -/
def readAll (s : Scanner) (text : List Char) : List Lexeme × Scanner :=
  runAll read s text

end Scanner

/-- The lexemes of a whole text. -/
def lexemes (text : List Char) : List Lexeme :=
  let r := ({} : Scanner).readAll text
  r.1 ++ r.2.pendingAtom

end SExprReflow
