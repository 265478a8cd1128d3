import SExprReflow.Proofs.LookAhead
import SExprReflow.Proofs.Put

/-!
# How deep the lists nest

The depth of a place in a text is the number of lists open there, and a closer without a list
leaves it at zero. The sheet keeps one entry for each list whose opener has been printed, and
what is held back counts the rest. Both are the depth of some of the lexemes: the first of those
printed, the second of those held back, counted from wherever the sheet stands
(`Held.Nests`). So their sum is the depth of everything read.
-/

namespace SExprReflow

open Piece

/-- The number of lists open after lexemes, when `depth` are open before. -/
def nesting (depth : Nat) (ls : List Lexeme) : Nat := ls.foldl Lexeme.depthAfter depth

@[simp] theorem nesting_nil (depth : Nat) : nesting depth [] = depth := rfl

@[simp] theorem nesting_cons (depth : Nat) (l : Lexeme) (ls : List Lexeme) :
    nesting depth (l :: ls) = nesting (l.depthAfter depth) ls := rfl

@[simp] theorem nesting_append (depth : Nat) (xs ys : List Lexeme) :
    nesting depth (xs ++ ys) = nesting (nesting depth xs) ys :=
  List.foldl_append

/-- Inside a list, how deep the list itself stands makes no difference. -/
theorem Lexeme.depthAfter_add (l : Lexeme) {n : Nat} (hn : 0 < n) (d : Nat) :
    l.depthAfter (d + n) = d + l.depthAfter n := by
  unfold depthAfter
  split <;> omega

/-! ## Sheets -/

namespace Sheet

theorem length_lists_put (s : Sheet) (g : Gap) (l : Lexeme) :
    (s.put g l).lists.length = l.depthAfter s.lists.length := by
  unfold Lexeme.depthAfter
  cases hl : l.role with
  | opener => simp [lists_put_opener s g hl]
  | atom => simp [lists_put_atom s g hl]
  | closer => simp [lists_put_closer s g hl]

end Sheet

/-! ## What is held back -/

/-- The lists open in what is held back are counted right. -/
structure Held.Nests (h : Held) : Prop where
  depth_pos : 0 < h.depth
  nesting_eq : ∀ d, nesting d h.lexemes = d + h.depth

namespace Held.Nests

theorem start : Held.Nests {} where
  depth_pos := Nat.one_pos
  nesting_eq _ := rfl

theorem nesting_push {h : Held} (hn : h.Nests) (l : Lexeme) (d : Nat) :
    nesting d (h.push l).lexemes = d + (h.push l).depth := by
  have hd : (h.push l).depth = l.depthAfter h.depth := rfl
  rw [Held.lexemes_push, nesting_append, hn.nesting_eq, nesting_cons, nesting_nil, hd]
  exact l.depthAfter_add hn.depth_pos d

theorem push {h : Held} {s : Sheet} {l : Lexeme} (hn : h.Nests)
    (hs : Printer.settled s (h.push l) l = false) : (h.push l).Nests where
  depth_pos := Nat.pos_of_ne_zero (Printer.settled_eq_false_iff.mp hs).1
  nesting_eq := hn.nesting_push l

end Held.Nests

namespace Printer

/-- The number of lists open in what is held back. -/
def heldDepth (p : Printer) : Nat :=
  match p.held with
  | none => 0
  | some h => h.depth

/-- Whatever is held back is counted right. -/
def Nests (p : Printer) : Prop := ∀ h ∈ p.held, h.Nests

theorem nests_of_held_eq_none {p : Printer} (hh : p.held = none) : p.Nests := by
  intro h hm
  rw [hh] at hm
  exact absurd hm (by simp)

theorem Nests.nesting_heldLexemes {p : Printer} (hn : p.Nests) (d : Nat) :
    nesting d p.heldLexemes = d + p.heldDepth := by
  unfold heldLexemes heldDepth
  cases hh : p.held with
  | none => rfl
  | some h => exact (hn h hh).nesting_eq d

theorem Nests.step {p : Printer} (hn : p.Nests) (l : Lexeme) : (p.step l).printer.Nests := by
  have hs := p.steps_step l
  generalize p.step l = o at hs
  cases hs with
  | print hh hg => exact nests_of_held_eq_none rfl
  | hold hh hg =>
    intro h hm
    obtain rfl : ({} : Held) = h := Option.some.inj hm
    exact .start
  | @keep h hh hs =>
    intro h' hm
    obtain rfl : h.push l = h' := Option.some.inj hm
    exact (hn h hh).push hs
  | release hh hs => exact nests_of_held_eq_none rfl

theorem Nests.printAll {p : Printer} (hn : p.Nests) (ls : List Lexeme) :
    (p.printAll ls).2.Nests := by
  fun_induction Printer.printAll p ls with
  | case1 p => exact hn
  | case2 p l queue r ih => exact ih (hn.step l)

/-! ## Printed lexemes -/

/-- The sheet has as many lists open as the lexemes printed on it. -/
theorem length_lists_step (p : Printer) {l : Lexeme} (hl : l.Proper) :
    (p.step l).printer.sheet.lists.length =
      nesting p.sheet.lists.length (lexemesOf (p.step l).pieces) := by
  have hs := p.steps_step l
  generalize p.step l = o at hs
  cases hs with
  | print hh hg => rw [Sheet.lexemesOf_pieces _ _ hl, Sheet.length_lists_put]; rfl
  | hold hh hg => rfl
  | keep hh hs => rfl
  | release hh hs =>
    rw [release, Sheet.lexemesOf_pieces _ _ proper_opener, Sheet.length_lists_put]
    rfl

theorem length_lists_printAll {p : Printer} {ls : List Lexeme}
    (h : ∀ l ∈ p.heldLexemes ++ ls, l.Proper) :
    (p.printAll ls).2.sheet.lists.length =
      nesting p.sheet.lists.length (lexemesOf (p.printAll ls).1) := by
  fun_induction Printer.printAll p ls with
  | case1 p => rfl
  | case2 p l queue r ih =>
    have hl : l.Proper := h l (by simp)
    have hs := p.length_lists_step hl
    rw [lexemesOf_append, nesting_append, ← hs]
    exact ih (proper_step h)

end Printer

end SExprReflow
