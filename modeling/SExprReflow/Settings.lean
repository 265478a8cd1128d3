import SExprReflow.Settings.Heads

/-!
# Settings

`Settings` holds everything that can be chosen about the printed form: the indentation,
the number of atoms on a line of a normal list, the column that compact lists stay
within, and the heads of the compact and of the shortform lists. That the numbers are
positive is part of the type, so whatever reads settings can rely on it.

The style of a list follows from its head. A head in both sets is a shortform one.
-/

namespace SExprReflow

/-- The character that lines are indented with. -/
inductive IndentChar where
  | space
  | tab
deriving DecidableEq, Repr

/-- The character itself. -/
def IndentChar.toChar : IndentChar → Char
  | .space => ' '
  | .tab => '\t'

/-- White space at the start of a line: one character, so many times. -/
structure Indent where
  char : IndentChar
  size : Nat
deriving DecidableEq, Repr

/-- The white space itself. -/
def Indent.text (i : Indent) : List Char := List.replicate i.size i.char.toChar

/-- How the children of a list are put on lines. -/
inductive Style where
  /-- Every child list starts a line, and atoms share lines up to a fixed number. -/
  | normal
  /-- All children share lines up to a column. -/
  | compact
  /-- The whole list, with everything nested in it, stands on one line. -/
  | shortform
deriving DecidableEq, Repr

/-- The choices that printing follows. -/
structure Settings where
  indentChar : IndentChar := .tab
  indentSize : Nat := 1
  wrapThreshold : Nat := 72
  columnLimit : Nat := 99
  compact : Heads := ∅
  shortform : Heads := ∅
  indentSize_pos : 0 < indentSize := by decide
  wrapThreshold_pos : 0 < wrapThreshold := by decide
  columnLimit_pos : 0 < columnLimit := by decide
deriving DecidableEq

namespace Settings

instance : Inhabited Settings := ⟨{}⟩

/-- The start of a line below `depth` lists. -/
def indent (s : Settings) (depth : Nat) : Indent := ⟨s.indentChar, s.indentSize * depth⟩

/-- The white space at the start of a line below `depth` lists. -/
def indentation (s : Settings) (depth : Nat) : List Char := (s.indent depth).text

/-- The style of a list with the given head. -/
def styleOf (s : Settings) (head : List Char) : Style :=
  if head ∈ s.shortform then .shortform
  else if head ∈ s.compact then .compact
  else .normal

@[simp] theorem indentation_zero (s : Settings) : s.indentation 0 = [] := by
  simp [indentation, indent, Indent.text]

end Settings

end SExprReflow
