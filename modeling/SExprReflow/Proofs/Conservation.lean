import SExprReflow.Printer
import SExprReflow.Proofs.ReadBack

/-!
# Nothing is lost

Lexemes wait in the printer, go back to be read again, and come out in pieces among white
space. Whatever the printer does with them, their order stays: the lexemes printed, then
those held back, then those to be read again are the lexemes that were held back or read
before (`Printer.lexemesOf_step`).

`Printer.Steps` lists the four things that a step can do. Everything that holds along a run
is shown by going through these cases once.
-/

namespace SExprReflow

open Piece

/-! ## Sheets -/

namespace Sheet

/-- The one opener that the sheet cannot place stands inside a compact list, behind its
first child. -/
theorem gap?_eq_none_iff {s : Sheet} {l : Lexeme} :
    s.gap? l = none ↔ l.role = .opener ∧
      ∃ o os, s.lists = o :: os ∧ o.children ≠ 0 ∧ o.onOneLine = false ∧
        o.style = some .compact := by
  unfold gap?
  split <;> grind

@[simp] theorem lexemesOf_gapPieces (s : Sheet) (depth : Nat) (g : Gap) :
    lexemesOf (s.gapPieces depth g) = [] := by
  cases g <;> rfl

theorem lexemesOf_pieces (s : Sheet) (g : Gap) {l : Lexeme} (hl : l.Proper) :
    lexemesOf (s.pieces g l) = [l] := by
  rcases hl with hl | rfl | rfl
  · simp [pieces, hl]
  · simp [pieces, Lexeme.opener]
  · by_cases h : s.lists.length = 1
    · simp [pieces, Lexeme.closer, h, lineBreak]
    · simp [pieces, Lexeme.closer, h]

/-- The end of the last line, if the line has begun and `terminate` says so. -/
def endPieces (s : Sheet) (terminate : Bool) : List Piece :=
  if terminate && 0 < s.cursor.column then [s.lineBreak 0] else []

@[simp] theorem lexemesOf_endPieces (s : Sheet) (terminate : Bool) :
    lexemesOf (s.endPieces terminate) = [] := by
  unfold endPieces
  split <;> rfl

end Sheet

/-! ## What a step can do -/

namespace Printer

/-- The four things that can come of reading a lexeme. -/
inductive Steps (p : Printer) (l : Lexeme) : Outcome → Prop where
  /-- The lexeme is printed. -/
  | print {g : Gap} : p.held = none → p.sheet.gap? l = some g →
      Steps p l ⟨p.sheet.pieces g l, ⟨p.sheet.put g l, none⟩, []⟩
  /-- The lexeme opens a list that has to wait. -/
  | hold : p.held = none → p.sheet.gap? l = none → Steps p l ⟨[], ⟨p.sheet, some {}⟩, []⟩
  /-- The lexeme waits with the list that it belongs to. -/
  | keep {h : Held} : p.held = some h → settled p.sheet (h.push l) l = false →
      Steps p l ⟨[], ⟨p.sheet, some (h.push l)⟩, []⟩
  /-- The lexeme settles the place of the list that it belongs to. -/
  | release {h : Held} : p.held = some h → settled p.sheet (h.push l) l = true →
      Steps p l (release p.sheet (h.push l))

theorem steps_step (p : Printer) (l : Lexeme) : Steps p l (p.step l) := by
  obtain ⟨sheet, held⟩ := p
  unfold step
  cases held with
  | some h =>
    cases hs : settled sheet (h.push l) l with
    | true => simpa [hs] using Steps.release (p := ⟨sheet, some h⟩) rfl hs
    | false => simpa [hs] using Steps.keep (p := ⟨sheet, some h⟩) rfl hs
  | none =>
    cases hg : sheet.gap? l with
    | some g => simpa [hg] using Steps.print (p := ⟨sheet, none⟩) rfl hg
    | none => simpa [hg] using Steps.hold (p := ⟨sheet, none⟩) rfl hg

/-! ## Lexemes along a run -/

theorem proper_opener : Lexeme.opener.Proper := Lexeme.Complete.opener.proper

/-- Placing a list prints its opener and gives back the rest. -/
theorem lexemesOf_release (s : Sheet) (h : Held) :
    lexemesOf (release s h).pieces ++ (release s h).printer.heldLexemes ++ (release s h).again =
      h.lexemes := by
  simp [release, heldLexemes, Held.lexemes, Sheet.lexemesOf_pieces s _ proper_opener]

theorem lexemesOf_step (p : Printer) {l : Lexeme} (hl : l.Proper) :
    lexemesOf (p.step l).pieces ++ (p.step l).printer.heldLexemes ++ (p.step l).again =
      p.heldLexemes ++ [l] := by
  have hs := p.steps_step l
  generalize p.step l = o at hs
  cases hs with
  | print hh hg => simp [heldLexemes, hh, Sheet.lexemesOf_pieces _ _ hl]
  | hold hh hg =>
    -- only an opener can begin to wait, and a proper one is the delimiter itself
    obtain rfl := hl.eq_opener (Sheet.gap?_eq_none_iff.mp hg).1
    simp [heldLexemes, hh, Held.lexemes]
  | keep hh hs => simp [heldLexemes, hh]
  | release hh hs => rw [lexemesOf_release, Held.lexemes_push, heldLexemes, hh]

/-- What a step holds back or leaves to be read again was waiting before. -/
theorem mem_of_mem_step {p : Printer} {l x : Lexeme} {queue : List Lexeme} (hl : l.Proper)
    (hx : x ∈ (p.step l).printer.heldLexemes ++ ((p.step l).again ++ queue)) :
    x ∈ p.heldLexemes ++ l :: queue := by
  have hs := p.lexemesOf_step hl
  have hx' : x ∈ (p.heldLexemes ++ [l]) ++ queue := by
    rw [← hs]
    simp only [List.mem_append] at hx ⊢
    rcases hx with hx | hx | hx
    · exact Or.inl (Or.inl (Or.inr hx))
    · exact Or.inl (Or.inr hx)
    · exact Or.inr hx
  simpa using hx'

theorem proper_step {p : Printer} {l : Lexeme} {queue : List Lexeme}
    (h : ∀ x ∈ p.heldLexemes ++ l :: queue, x.Proper) :
    ∀ x ∈ (p.step l).printer.heldLexemes ++ ((p.step l).again ++ queue), x.Proper :=
  fun x hx => h x (mem_of_mem_step (h l (by simp)) hx)

/-- **Reading loses nothing.** -/
theorem lexemesOf_printAll {p : Printer} {ls : List Lexeme}
    (h : ∀ l ∈ p.heldLexemes ++ ls, l.Proper) :
    lexemesOf (p.printAll ls).1 ++ (p.printAll ls).2.heldLexemes = p.heldLexemes ++ ls := by
  fun_induction printAll p ls with
  | case1 p => simp
  | case2 p l queue r ih =>
    have hs := p.lexemesOf_step (h l (by simp))
    rw [lexemesOf_append, List.append_assoc, ih (proper_step h), ← List.append_assoc,
      ← List.append_assoc, hs]
    simp

theorem proper_printAll {p : Printer} {ls : List Lexeme}
    (h : ∀ l ∈ p.heldLexemes ++ ls, l.Proper) :
    ∀ l ∈ (p.printAll ls).2.heldLexemes, l.Proper := by
  intro l hl
  refine h l ?_
  rw [← lexemesOf_printAll h]
  exact List.mem_append_right _ hl

theorem proper_release {s : Sheet} {held : Held} (h : ∀ l ∈ held.lexemes, l.Proper) :
    ∀ l ∈ (release s held).printer.heldLexemes ++ (release s held).again, l.Proper := by
  intro l hl
  refine h l ?_
  rw [← lexemesOf_release s held, List.append_assoc]
  exact List.mem_append_right _ hl

/-- **Placing everything prints all that was held back**, and leaves nothing behind. -/
theorem lexemesOf_releaseAll {p : Printer} (h : ∀ l ∈ p.heldLexemes, l.Proper) :
    lexemesOf p.releaseAll.1 = p.heldLexemes ∧ p.releaseAll.2.held = none := by
  fun_induction releaseAll p with
  | case1 p hh => simp [heldLexemes, hh]
  | case2 p held hh o r r' ih =>
    have hheld : p.heldLexemes = held.lexemes := by simp [heldLexemes, hh]
    have ho := lexemesOf_release p.sheet held
    have hp := proper_release (s := p.sheet) (hheld ▸ h)
    have hr : lexemesOf r.1 ++ r.2.heldLexemes = o.printer.heldLexemes ++ o.again :=
      lexemesOf_printAll hp
    -- what the rest of the list leaves held back is placed in turn
    obtain ⟨hall, hnone⟩ := ih (proper_printAll hp)
    refine ⟨?_, hnone⟩
    rw [lexemesOf_append, lexemesOf_append, hall, List.append_assoc, hr, hheld, ← ho,
      List.append_assoc]

theorem pieces_finish (p : Printer) (terminate : Bool) :
    (p.finish terminate).1 = p.releaseAll.1 ++ p.releaseAll.2.sheet.endPieces terminate := by
  unfold finish Sheet.endPieces
  by_cases hc : (terminate && 0 < p.releaseAll.2.sheet.cursor.column) = true
  · simp only [hc, if_true]
  · simp only [hc, Bool.false_eq_true, if_false, List.append_nil]

end Printer

end SExprReflow
