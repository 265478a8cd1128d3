import SExprReflow.Lexeme
import SExprReflow.Settings

/-!
# Pieces of printed text

What is printed is a sequence of pieces: lexemes, single spaces, and line breaks with the
indentation of the line they begin. Keeping them apart until the end shows which printed
characters come from the input and which do not.

A `Cursor` is a place in the printed text.
-/

namespace SExprReflow

/-- A part of the printed text. -/
inductive Piece where
  | lexeme (l : Lexeme)
  | space
  | lineBreak (indent : Indent)
deriving DecidableEq, Repr

namespace Piece

/-- The characters of a piece. -/
def text : Piece → List Char
  | lexeme l => l.text
  | space => [' ']
  | lineBreak indent => '\n' :: indent.text

/-- The characters of pieces, one after the other. -/
def textOf (ps : List Piece) : List Char := ps.flatMap text

@[simp] theorem textOf_nil : textOf [] = [] := rfl

@[simp] theorem textOf_cons (p : Piece) (ps : List Piece) :
    textOf (p :: ps) = p.text ++ textOf ps := by
  simp [textOf]

@[simp] theorem textOf_append (ps qs : List Piece) :
    textOf (ps ++ qs) = textOf ps ++ textOf qs := by
  simp [textOf]

end Piece

/-- A place in the printed text: the line breaks before it, and the characters after the
last of them. -/
structure Cursor where
  line : Nat := 0
  column : Nat := 0
deriving DecidableEq, Repr

namespace Cursor

/-- The place after one more character. -/
def next (k : Cursor) (c : Char) : Cursor :=
  if c = '\n' then ⟨k.line + 1, 0⟩ else ⟨k.line, k.column + 1⟩

/-- The place after more text. -/
def advance (k : Cursor) (text : List Char) : Cursor := text.foldl next k

@[simp] theorem advance_nil (k : Cursor) : k.advance [] = k := rfl

@[simp] theorem advance_cons (k : Cursor) (c : Char) (cs : List Char) :
    k.advance (c :: cs) = (k.next c).advance cs := rfl

@[simp] theorem advance_append (k : Cursor) (cs ds : List Char) :
    k.advance (cs ++ ds) = (k.advance cs).advance ds := by
  simp [advance]

theorem line_advance (k : Cursor) (text : List Char) :
    (k.advance text).line = k.line + text.count '\n' := by
  induction text generalizing k with
  | nil => simp
  | cons c cs ih =>
    rw [advance_cons, ih, next, List.count_cons]
    by_cases hc : c = '\n'
    · simp only [hc, if_true, beq_self_eq_true]
      omega
    · simp [hc]

/-- The place after one more piece. -/
def nextPiece (k : Cursor) : Piece → Cursor
  | .lexeme l => k.advance l.text
  | .space => ⟨k.line, k.column + 1⟩
  | .lineBreak indent => ⟨k.line + 1, indent.size⟩

/-- The place after more pieces. -/
def advancePieces (k : Cursor) (ps : List Piece) : Cursor := ps.foldl nextPiece k

theorem advance_replicate {c : Char} (hc : c ≠ '\n') (k : Cursor) (n : Nat) :
    k.advance (List.replicate n c) = ⟨k.line, k.column + n⟩ := by
  induction n generalizing k with
  | zero => rfl
  | succ n ih =>
    rw [List.replicate_succ, advance_cons, ih, next, if_neg hc]
    simp only [Cursor.mk.injEq, true_and]
    omega

theorem nextPiece_eq (k : Cursor) (p : Piece) : k.nextPiece p = k.advance p.text := by
  cases p with
  | lexeme l => rfl
  | space => rfl
  | lineBreak indent =>
    have hc : indent.char.toChar ≠ '\n' := by cases indent.char <;> decide
    rw [Piece.text, Indent.text, advance_cons, advance_replicate hc]
    simp [nextPiece, next]

/-- Going by pieces is going by their characters. -/
theorem advancePieces_eq (k : Cursor) (ps : List Piece) :
    k.advancePieces ps = k.advance (Piece.textOf ps) := by
  induction ps generalizing k with
  | nil => rfl
  | cons p ps ih =>
    rw [Piece.textOf_cons, advance_append, ← nextPiece_eq, ← ih]
    rfl

end Cursor

end SExprReflow
