import SExprReflow.Proofs.Separation

/-!
# What printing a lexeme does to the sheet

`Sheet.put` moves the cursor behind the pieces printed and changes the innermost list, opens one or
closes it. The lemmas here say so part by part, and nothing later opens `put` itself.

From them it follows where the sheet stands behind a lexeme (`Sheet.Behind`): the innermost list has
no child exactly if the lexeme opened it, and then the opener is on the current line.
-/

namespace SExprReflow

theorem Lexeme.Proper.eq_closer {l : Lexeme} (h : l.Proper) (hr : l.role = .closer) :
    l = .closer := by
  rcases h with h | rfl | rfl
  · exact absurd hr (by simp [h])
  · exact absurd hr (by simp [opener])
  · rfl

/-- The line that a complete lexeme ends on has begun. -/
theorem Lexeme.Complete.column_pos {l : Lexeme} (h : l.Complete) (k : Cursor) :
    0 < (k.advance l.text).column := by
  cases h with
  | opener => exact Cursor.column_advance_pos (c := '(') rfl (by decide)
  | closer => exact Cursor.column_advance_pos (c := ')') rfl (by decide)
  | @atom text hne hr =>
    have hlast : (Lexeme.atom text).text.getLast? = some (text.getLast hne) :=
      List.getLast?_eq_some_getLast hne
    refine Cursor.column_advance_pos hlast fun he => ?_
    rw [he] at hlast
    exact (Lexeme.Complete.atom hne hr).getLast?_ne_newline hlast

namespace OpenList

theorem children_afterList (o : OpenList) : o.afterList.children = o.children + 1 := by
  unfold afterList
  split
  · next h => simp [h]
  · split <;> rfl

@[simp] theorem settings_afterAtom (o : OpenList) (g : Gap) (text : List Char) :
    (o.afterAtom g text).settings = o.settings := by
  unfold afterAtom
  split
  · rfl
  · split <;> rfl

@[simp] theorem settings_afterList (o : OpenList) : o.afterList.settings = o.settings := by
  unfold afterList
  split
  · rfl
  · split <;> rfl

@[simp] theorem openedOn_afterAtom (o : OpenList) (g : Gap) (text : List Char) :
    (o.afterAtom g text).openedOn = o.openedOn := by
  unfold afterAtom
  split
  · rfl
  · split <;> rfl

@[simp] theorem openedOn_afterList (o : OpenList) : o.afterList.openedOn = o.openedOn := by
  unfold afterList
  split
  · rfl
  · split <;> rfl

/-- The first child settles the style, and no other child changes it. -/
theorem style_afterAtom (o : OpenList) (g : Gap) (text : List Char) :
    (o.afterAtom g text).style =
      if o.children = 0 then some (o.settings.styleOf text) else o.style := by
  unfold afterAtom
  split
  · rfl
  · split <;> rfl

theorem style_afterList (o : OpenList) :
    o.afterList.style = if o.children = 0 then some .normal else o.style := by
  unfold afterList
  split
  · rfl
  · split <;> rfl

theorem onOneLine_afterAtom (o : OpenList) (g : Gap) (text : List Char) :
    (o.afterAtom g text).onOneLine =
      (o.onOneLine || (o.children = 0 && o.settings.styleOf text = .shortform)) := by
  unfold afterAtom
  split
  · next h => simp [settleStyle, h]
  · next h => split <;> simp [h]

@[simp] theorem onOneLine_afterList (o : OpenList) : o.afterList.onOneLine = o.onOneLine := by
  unfold afterList
  split
  · simp [settleStyle]
  · split <;> rfl

end OpenList

namespace Sheet

@[simp] theorem lists_advance (s : Sheet) (ps : List Piece) : (s.advance ps).lists = s.lists := rfl

@[simp] theorem settings_advance (s : Sheet) (ps : List Piece) :
    (s.advance ps).settings = s.settings := rfl

@[simp] theorem lists_modifyTop (s : Sheet) (f : OpenList → OpenList) :
    (s.modifyTop f).lists = s.lists.modifyHead f := by
  unfold modifyTop
  split
  · next h => simp [h]
  · next h => simp [h]

@[simp] theorem settings_modifyTop (s : Sheet) (f : OpenList → OpenList) :
    (s.modifyTop f).settings = s.settings := by
  unfold modifyTop
  split <;> rfl

@[simp] theorem cursor_modifyTop (s : Sheet) (f : OpenList → OpenList) :
    (s.modifyTop f).cursor = s.cursor := by
  unfold modifyTop
  split <;> rfl

@[simp] theorem settings_put (s : Sheet) (g : Gap) (l : Lexeme) :
    (s.put g l).settings = s.settings := by
  unfold put
  cases l.role with
  | opener => simp [push]
  | atom => simp
  | closer => rfl

theorem cursor_put (s : Sheet) (g : Gap) (l : Lexeme) :
    (s.put g l).cursor = s.cursor.advancePieces (s.pieces g l) := by
  unfold put
  cases l.role with
  | opener => simp [push, advance]
  | atom => simp [advance]
  | closer => rfl

theorem lists_put_atom (s : Sheet) (g : Gap) {l : Lexeme} (hl : l.role = .atom) :
    (s.put g l).lists = s.lists.modifyHead fun o => o.afterAtom g l.text := by
  simp [put, hl]

theorem lists_put_closer (s : Sheet) (g : Gap) {l : Lexeme} (hl : l.role = .closer) :
    (s.put g l).lists = s.lists.tail := by
  simp [put, hl]

/-- The list that an opener opens has no children yet, and stands where the opener does. -/
theorem lists_put_opener (s : Sheet) (g : Gap) {l : Lexeme} (hl : l.role = .opener) :
    (s.put g l).lists =
      { settings := s.settings
        openedOn := (s.put g l).cursor.line
        onOneLine := s.lists.head?.any OpenList.onOneLine } ::
        s.lists.modifyHead OpenList.afterList := by
  have hc : (s.put g l).cursor = s.cursor.advancePieces (s.pieces g l) := cursor_put s g l
  rw [hc]
  cases hs : s.lists with
  | nil => simp [put, hl, push, advance, hs]
  | cons o os => simp [put, hl, push, advance, hs]

/-! ## Behind a lexeme -/

/-- Every list but the innermost has a child. -/
def OuterBegun (s : Sheet) : Prop := ∀ o ∈ s.lists.tail, o.children ≠ 0

theorem outerBegun_start (s : Settings) : OuterBegun { settings := s } := by
  intro o ho
  exact absurd ho (by simp)

/-- The sheet stands as it does when `before` has just been printed. -/
structure Behind (s : Sheet) (before : Lexeme) : Prop where
  outer : s.OuterBegun
  /-- The innermost list has no child exactly behind its opener. -/
  top : ∀ o ∈ s.lists.head?, o.children = 0 ↔ before.role = .opener
  /-- Behind an opener a list is open, and it began on this line. -/
  opener : before.role = .opener → ∃ o os, s.lists = o :: os ∧ o.openedOn = s.cursor.line

theorem behind_put {s : Sheet} (h : s.OuterBegun) (g : Gap) (l : Lexeme) : (s.put g l).Behind l := by
  cases hl : l.role with
  | opener =>
    have hlists := lists_put_opener s g hl
    refine ⟨?_, ?_, fun _ => ⟨_, _, hlists, rfl⟩⟩
    · intro o ho
      rw [hlists, List.tail_cons] at ho
      cases hs : s.lists with
      | nil => exact absurd ho (by simp [hs])
      | cons p ps =>
        rw [hs, List.modifyHead_cons] at ho
        rcases List.mem_cons.mp ho with rfl | ho
        · rw [OpenList.children_afterList]
          exact Nat.succ_ne_zero _
        · exact h o (by simpa [hs] using ho)
    · intro o ho
      rw [hlists] at ho
      obtain rfl : _ = o := by simpa using ho
      simp [hl]
  | atom =>
    have hlists := lists_put_atom s g hl
    refine ⟨?_, ?_, fun he => absurd he (by simp [hl])⟩
    · intro o ho
      rw [hlists] at ho
      exact h o (by simpa using ho)
    · intro o ho
      rw [hlists] at ho
      cases hs : s.lists with
      | nil => exact absurd ho (by simp [hs])
      | cons p ps =>
        rw [hs, List.modifyHead_cons] at ho
        obtain rfl : p.afterAtom g l.text = o := by simpa using ho
        simp [OpenList.children_afterAtom, hl]
  | closer =>
    have hlists := lists_put_closer s g hl
    refine ⟨?_, ?_, fun he => absurd he (by simp [hl])⟩
    · intro o ho
      rw [hlists] at ho
      exact h o (List.mem_of_mem_tail ho)
    · intro o ho
      rw [hlists] at ho
      have ho' : o.children ≠ 0 := h o (List.mem_of_mem_head? ho)
      simp [ho', hl]

end Sheet

/-! ## Settings -/

namespace Printer

@[simp] theorem settings_step (p : Printer) (l : Lexeme) :
    (p.step l).printer.sheet.settings = p.sheet.settings := by
  have hs := p.steps_step l
  generalize p.step l = o at hs
  cases hs with
  | print hh hg => exact Sheet.settings_put _ _ _
  | hold hh hg => rfl
  | keep hh hs => rfl
  | release hh hs => exact Sheet.settings_put _ _ _

@[simp] theorem settings_printAll (p : Printer) (ls : List Lexeme) :
    (p.printAll ls).2.sheet.settings = p.sheet.settings := by
  fun_induction printAll p ls with
  | case1 p => rfl
  | case2 p l queue r ih => exact ih.trans (p.settings_step l)

end Printer

end SExprReflow
