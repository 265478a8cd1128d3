import SExprReflow.Bounded.Printer
import SExprReflow.Proofs.Conservation
import SExprReflow.Proofs.OneLine

/-!
# Holding back is invisible

If all lexemes were known from the start, nothing would have to wait: the width of a list
inside a compact list could be read off the lexemes up to its closer. `Sheet.printAhead` is the
printer that does so. It goes through the lexemes once, and prints each of them at once.

The printer that holds lexemes back has less to go by. It places a list when it is complete,
but also as soon as it is too wide, when a string in it breaks the line, and at the end of the
text. In each of these cases what it has seen of the list decides like the whole list
(`Held.Waits.compactGap_eq`), so both print the same pieces.
-/

namespace SExprReflow

open Piece

/-! ## Printing with all lexemes known -/

/-- The number of open lists after a lexeme. A closer without a list changes nothing. -/
def Lexeme.depthAfter (depth : Nat) (l : Lexeme) : Nat :=
  match l.role with
  | .opener => depth + 1
  | .closer => depth - 1
  | .atom => depth

/-- The lexemes until none of `depth` open lists is left; all of them, if that never comes. -/
def throughCloser (depth : Nat) : List Lexeme → List Lexeme
  | [] => []
  | l :: ls =>
    l :: if l.depthAfter depth = 0 then [] else throughCloser (l.depthAfter depth) ls

namespace Sheet

/-- What goes before a lexeme, given the lexemes after it. -/
def gapAhead (s : Sheet) (l : Lexeme) (ls : List Lexeme) : Gap :=
  match s.gap? l with
  | some g => g
  | none => s.compactGap (oneLineWidth (l :: throughCloser 1 ls))

/-- Prints all lexemes, each at once. -/
def printAhead (s : Sheet) : List Lexeme → List Piece × Sheet
  | [] => ([], s)
  | l :: ls =>
    let r := printAhead (s.put (s.gapAhead l ls) l) ls
    (s.pieces (s.gapAhead l ls) l ++ r.1, r.2)

end Sheet

/-- All lexemes of a text printed under the given settings, each at once. -/
def printedAhead (s : Settings) (ls : List Lexeme) (terminate : Bool) : List Piece :=
  let r := Sheet.printAhead { settings := s } ls
  r.1 ++ r.2.endPieces terminate

/-! ## What waits -/

/-- What is known of a list that is held back on a sheet. -/
structure Held.Waits (h : Held) (s : Sheet) : Prop where
  /-- The sheet cannot place the opener. -/
  gap?_eq : s.gap? .opener = none
  /-- The list goes on for as long as it has lists open. -/
  throughCloser_eq : ∀ ls,
    throughCloser 1 (h.rest.reverse ++ ls) = h.rest.reverse ++ throughCloser h.depth ls
  width_eq : h.width = oneLineWidth h.lexemes
  /-- Nothing in it breaks the line. -/
  not_multiline : ∀ l ∈ h.rest, l.multiline = false

/-- Whatever the printer holds back waits on its sheet. -/
def Printer.Waits (p : Printer) : Prop := ∀ h ∈ p.held, h.Waits p.sheet

theorem Sheet.hasRoom_of_le {s : Sheet} {w w' : Nat} (hle : w ≤ w') (h : s.hasRoom w' = true) :
    s.hasRoom w = true := by
  unfold hasRoom hasRoom? at *
  cases hl : s.lists.head? with
  | none => simp [hl] at h
  | some o =>
    simp only [hl, Option.map_some, Option.some.injEq, decide_eq_true_eq] at h ⊢
    omega

/-- Where there is no room for a child there is none for a wider one. -/
theorem Sheet.compactGap_eq_of_le {s : Sheet} {w w' : Nat} (hle : w ≤ w')
    (h : s.hasRoom w = false) : s.compactGap w' = s.compactGap w := by
  have h' : s.hasRoom w' = false := by
    cases hr : s.hasRoom w' with
    | false => rfl
    | true => exact absurd (hasRoom_of_le hle hr) (by simp [h])
  simp only [compactGap, h, h']

theorem Printer.settled_eq_false_iff {s : Sheet} {h : Held} {l : Lexeme} :
    settled s h l = false ↔ h.depth ≠ 0 ∧ l.multiline = false ∧ s.hasRoom h.width = true := by
  simp [settled, and_assoc]

namespace Held.Waits

theorem start {s : Sheet} (hg : s.gap? .opener = none) : Held.Waits {} s where
  gap?_eq := hg
  throughCloser_eq _ := rfl
  width_eq := rfl
  not_multiline := by simp

/-- One more lexeme of the list: the list ends with it or goes on behind it. -/
theorem throughCloser_cons {h : Held} {s : Sheet} (hw : h.Waits s) (l : Lexeme)
    (ls : List Lexeme) :
    .opener :: throughCloser 1 (h.rest.reverse ++ l :: ls) =
      (h.push l).lexemes ++
        if (h.push l).depth = 0 then [] else throughCloser (h.push l).depth ls := by
  have hd : (h.push l).depth = l.depthAfter h.depth := rfl
  rw [hw.throughCloser_eq, throughCloser, ← hd, Held.lexemes_push, Held.lexemes]
  simp

/-- A list that is not yet settled goes on waiting. -/
theorem push {h : Held} {s : Sheet} {l : Lexeme} (hw : h.Waits s)
    (hs : Printer.settled s (h.push l) l = false) : (h.push l).Waits s := by
  obtain ⟨hd, hm, -⟩ := Printer.settled_eq_false_iff.mp hs
  refine ⟨hw.gap?_eq, ?_, Held.width_push hw.width_eq hw.not_multiline, ?_⟩
  · intro ls
    have hc := hw.throughCloser_cons l ls
    rw [if_neg hd, Held.lexemes, List.cons_append] at hc
    have hr : (h.push l).rest.reverse ++ ls = h.rest.reverse ++ l :: ls := by simp [Held.push]
    rw [hr]
    exact (List.cons.inj hc).2
  · intro x hx
    rcases List.mem_cons.mp hx with rfl | hx
    · exact hm
    · exact hw.not_multiline x hx

/-- **What is known of a list when it is placed decides like the whole list.** -/
theorem compactGap_eq {h : Held} {s : Sheet} {l : Lexeme} (hw : h.Waits s)
    (hs : Printer.settled s (h.push l) l = true) (ls : List Lexeme) :
    s.compactGap (oneLineWidth (.opener :: throughCloser 1 (h.rest.reverse ++ l :: ls))) =
      s.compactGap (oneLineWidth (h.push l).lexemes) := by
  rw [hw.throughCloser_cons]
  by_cases hd : (h.push l).depth = 0
  · -- the list is complete
    rw [if_pos hd, List.append_nil]
  · by_cases hm : l.multiline = true
    · -- behind the line break nothing is measured
      rw [oneLineWidth_append_of_multiline ⟨l, by simp, hm⟩]
    · -- the list is too wide already, and can only become wider
      have hroom : s.hasRoom (oneLineWidth (h.push l).lexemes) = false := by
        rw [← Held.width_push hw.width_eq hw.not_multiline]
        simpa [Printer.settled, hd, hm] using hs
      exact Sheet.compactGap_eq_of_le (oneLineWidth_le_append _ _) hroom

end Held.Waits

/-! ## Both printers in step -/

namespace Printer

theorem waits_of_held_eq_none {p : Printer} (hh : p.held = none) : p.Waits := by
  intro h hm
  rw [hh] at hm
  exact absurd hm (by simp)

/-- A step leaves waiting what may wait. -/
theorem Waits.step {p : Printer} {l : Lexeme} (hw : p.Waits) (hl : l.Proper) :
    (p.step l).printer.Waits := by
  have hs := p.steps_step l
  generalize p.step l = o at hs
  cases hs with
  | print hh hg => exact waits_of_held_eq_none rfl
  | hold hh hg =>
    intro h hm
    obtain rfl : ({} : Held) = h := Option.some.inj hm
    obtain rfl := hl.eq_opener (Sheet.gap?_eq_none_iff.mp hg).1
    exact .start hg
  | @keep h hh hs =>
    intro h' hm
    obtain rfl : h.push l = h' := Option.some.inj hm
    exact (hw h hh).push hs
  | release hh hs => exact waits_of_held_eq_none rfl

theorem Waits.printAll {p : Printer} {ls : List Lexeme} (hw : p.Waits)
    (hp : ∀ l ∈ p.heldLexemes ++ ls, l.Proper) : (p.printAll ls).2.Waits := by
  fun_induction Printer.printAll p ls with
  | case1 p => exact hw
  | case2 p l queue r ih => exact ih (hw.step (hp l (by simp))) (proper_step hp)

/-- What is held back, behind an opener that the sheet cannot place. -/
theorem printAhead_release {s : Sheet} (hg : s.gap? .opener = none) {h : Held}
    (ls : List Lexeme)
    (hgap : s.compactGap (oneLineWidth (.opener :: throughCloser 1 (h.rest.reverse ++ ls))) =
      s.compactGap (oneLineWidth h.lexemes)) :
    s.printAhead (h.lexemes ++ ls) =
      ((release s h).pieces ++
          ((release s h).printer.sheet.printAhead ((release s h).again ++ ls)).1,
        ((release s h).printer.sheet.printAhead ((release s h).again ++ ls)).2) := by
  have ha : s.gapAhead .opener (h.rest.reverse ++ ls) = s.compactGap (oneLineWidth h.lexemes) := by
    rw [Sheet.gapAhead, hg, ← hgap]
  rw [Held.lexemes, List.cons_append, Sheet.printAhead, ha]
  rfl

/-- **One step of the printer prints what would be printed ahead.** -/
theorem printAhead_step {p : Printer} {l : Lexeme} (hw : p.Waits) (hl : l.Proper)
    (queue : List Lexeme) :
    p.sheet.printAhead (p.heldLexemes ++ l :: queue) =
      ((p.step l).pieces ++ ((p.step l).printer.sheet.printAhead
          ((p.step l).printer.heldLexemes ++ ((p.step l).again ++ queue))).1,
        ((p.step l).printer.sheet.printAhead
          ((p.step l).printer.heldLexemes ++ ((p.step l).again ++ queue))).2) := by
  have hs := p.steps_step l
  generalize p.step l = o at hs
  cases hs with
  | print hh hg => simp [heldLexemes, hh, Sheet.printAhead, Sheet.gapAhead, hg]
  | hold hh hg =>
    -- nothing is printed, and the same lexemes are still to come
    obtain rfl := hl.eq_opener (Sheet.gap?_eq_none_iff.mp hg).1
    simp [heldLexemes, hh, Held.lexemes]
  | keep hh hs => simp [heldLexemes, hh]
  | @release h hh hs =>
    have hlist : p.heldLexemes ++ l :: queue = (h.push l).lexemes ++ queue := by
      simp [heldLexemes, hh]
    have hrest : (h.push l).rest.reverse ++ queue = h.rest.reverse ++ l :: queue := by
      simp [Held.push]
    rw [hlist, printAhead_release (hw h hh).gap?_eq queue]
    · rfl
    · rw [hrest]
      exact (hw h hh).compactGap_eq hs queue

theorem printAhead_printAll {p : Printer} {ls : List Lexeme} (hw : p.Waits)
    (hp : ∀ l ∈ p.heldLexemes ++ ls, l.Proper) :
    p.sheet.printAhead (p.heldLexemes ++ ls) =
      ((p.printAll ls).1 ++
          ((p.printAll ls).2.sheet.printAhead (p.printAll ls).2.heldLexemes).1,
        ((p.printAll ls).2.sheet.printAhead (p.printAll ls).2.heldLexemes).2) := by
  fun_induction Printer.printAll p ls with
  | case1 p => simp
  | case2 p l queue r ih =>
    have hl : l.Proper := hp l (by simp)
    rw [printAhead_step hw hl, ih (hw.step hl) (proper_step hp)]
    simp [r]

/-- At the end of the text what is held back is all that is left of its list. -/
theorem printAhead_releaseAll {p : Printer} (hw : p.Waits)
    (hp : ∀ l ∈ p.heldLexemes, l.Proper) :
    p.sheet.printAhead p.heldLexemes = (p.releaseAll.1, p.releaseAll.2.sheet) := by
  fun_induction Printer.releaseAll p with
  | case1 p hh => simp [heldLexemes, hh, Sheet.printAhead]
  | case2 p held hh o r r' ih =>
    have hheld : p.heldLexemes = held.lexemes := by simp [heldLexemes, hh]
    have hop : ∀ l ∈ o.printer.heldLexemes ++ o.again, l.Proper :=
      proper_release (s := p.sheet) (hheld ▸ hp)
    have how : o.printer.Waits := waits_of_held_eq_none rfl
    -- the list is never closed, so it goes on to the end
    have hgap : .opener :: throughCloser 1 (held.rest.reverse ++ []) = held.lexemes := by
      rw [(hw held hh).throughCloser_eq, throughCloser, List.append_nil]
      rfl
    have hrel := printAhead_release (hw held hh).gap?_eq [] (by rw [hgap])
    have hall : o.printer.sheet.printAhead o.again =
        (r.1 ++ (r.2.sheet.printAhead r.2.heldLexemes).1,
          (r.2.sheet.printAhead r.2.heldLexemes).2) := printAhead_printAll how hop
    have hrest := ih (how.printAll hop) (proper_printAll hop)
    rw [List.append_nil, List.append_nil] at hrel
    rw [hheld, hrel, hall, hrest]
    simp [o, r, r']

end Printer

theorem Printer.pieces_eq_printedAhead (s : Settings) (ls : List Lexeme)
    (hp : ∀ l ∈ ls, l.Proper) (terminate : Bool) :
    ((ofSettings s).printAll ls).1 ++ (((ofSettings s).printAll ls).2.finish terminate).1 =
      printedAhead s ls terminate := by
  have hw : (ofSettings s).Waits := waits_of_held_eq_none rfl
  have hahead : Sheet.printAhead { settings := s } ls =
      (((ofSettings s).printAll ls).1 ++ ((ofSettings s).printAll ls).2.releaseAll.1,
        ((ofSettings s).printAll ls).2.releaseAll.2.sheet) := by
    have hall := printAhead_printAll (p := ofSettings s) hw hp
    rwa [printAhead_releaseAll (hw.printAll hp) (proper_printAll hp)] at hall
  rw [pieces_finish, printedAhead, hahead, List.append_assoc]

/-- **Holding back is invisible.** Whatever the settings and the text, the printer prints the
pieces that are printed with all lexemes known. Within bounds it stops where the first of them is
too long, and otherwise prints them too. -/
theorem holding_back_invisible [Memory] (s : Settings) (text : List Char) (terminate : Bool) :
    ((Printer.ofSettings s).printAll (lexemes text)).1 ++
        (((Printer.ofSettings s).printAll (lexemes text)).2.finish terminate).1 =
        printedAhead s (lexemes text) terminate ∧
      (((Printer.ofSettings s).printWithin (lexemes text)).andThen
          fun p => p.finishWithin terminate).Agrees
        (printedAhead s (lexemes text) terminate)
        (((Printer.ofSettings s).printAll (lexemes text)).2.finish terminate).2 := by
  have h := Printer.pieces_eq_printedAhead s (lexemes text) proper_of_mem_lexemes terminate
  refine ⟨h, ?_⟩
  rw [← h]
  exact (Printer.printWithin_agrees _ _).andThen (Printer.finishWithin_agrees _ terminate)

end SExprReflow
