/-!
# Lexemes

An S-expression is read as a sequence of lexemes: opening delimiters, closing
delimiters and atoms. A lexeme keeps the characters it was read from, so printing it
again loses nothing.

Two measures of lexemes decide every line break. `Lexeme.width` is the number of
columns that the first line of a lexeme takes (only an atom with a quoted line break
has a second one), and `oneLineWidth` is the number of columns of a whole sequence written
on one line. `oneLineText` is that one line itself.
-/

namespace SExprReflow

/-- The part a lexeme plays in the nesting of lists. -/
inductive Role where
  | opener
  | closer
  | atom
deriving DecidableEq, Repr

/-- A delimiter or an atom, with the characters it stands for. -/
structure Lexeme where
  role : Role
  text : List Char
deriving DecidableEq, Repr

namespace Lexeme

/-- The opening delimiter. -/
def opener : Lexeme := ⟨.opener, ['(']⟩

/-- The closing delimiter. -/
def closer : Lexeme := ⟨.closer, [')']⟩

/-- An atom with the given characters. -/
def atom (text : List Char) : Lexeme := ⟨.atom, text⟩

/-- The columns taken by the first line of the lexeme. -/
def width (l : Lexeme) : Nat :=
  (l.text.takeWhile (· ≠ '\n')).length

/-- Whether the lexeme goes on over more than one line. -/
def multiline (l : Lexeme) : Bool :=
  l.text.contains '\n'

/-- Whether two lexemes are kept apart by a space when they stand on one line: nothing
follows an opener and nothing comes before a closer. -/
def spaced (before after : Lexeme) : Bool :=
  before.role ≠ .opener && after.role ≠ .closer

@[simp] theorem width_opener : opener.width = 1 := rfl

@[simp] theorem width_closer : closer.width = 1 := rfl

end Lexeme

/-! ## One line -/

/-- The lexemes after `before`, on the same line. -/
def oneLineTextAfter (before : Lexeme) : List Lexeme → List Char
  | [] => []
  | l :: ls => (if before.spaced l then [' '] else []) ++ l.text ++ oneLineTextAfter l ls

/-- The lexemes written without any line break of their own: one space between two of
them, except after an opener and before a closer. -/
def oneLineText : List Lexeme → List Char
  | [] => []
  | l :: ls => l.text ++ oneLineTextAfter l ls

/-- The columns from the end of `before` to the first line break after it. -/
def oneLineWidthAfter (before : Lexeme) : List Lexeme → Nat
  | [] => 0
  | l :: ls =>
    (if before.spaced l then 1 else 0) + l.width + if l.multiline then 0 else oneLineWidthAfter l ls

/-- The columns that the lexemes take on a single line, up to the first line break
inside an atom. -/
def oneLineWidth : List Lexeme → Nat
  | [] => 0
  | l :: ls => l.width + if l.multiline then 0 else oneLineWidthAfter l ls

end SExprReflow
