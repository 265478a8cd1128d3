import SExprReflow.Proofs.Conservation

/-!
# Atoms are kept apart

An atom is printed without anything before it in two places only: as the first child of a
list, and at the start of a line outside all lists. In neither of them can another atom stand
right before it. For the second this hangs on a fact about atoms: one that is complete does
not end with a line break, so it leaves the cursor behind the start of its line
(`Sheet.begun_put`). One that is cut off may end so, but nothing follows it.

`Tidy` is what the printed pieces and the sheet keep between them while lexemes are printed.
Nothing in it depends on which settings are in force, so they may change at any time.
-/

namespace SExprReflow

open Piece

/-! ## The end of a complete atom -/

/-- A line break inside an atom is inside a string, so a complete atom does not end with it. -/
theorem Lexeme.Complete.getLast?_ne_newline {text : List Char} (h : (Lexeme.atom text).Complete) :
    text.getLast? ≠ some '\n' := by
  intro hlast
  obtain ⟨cs, rfl⟩ := List.getLast?_eq_some_iff.mp hlast
  have hr : ({} : Scanner).readAll (cs ++ ['\n']) = ([], .holding (cs ++ ['\n'])) := by
    generalize hl : Lexeme.atom (cs ++ ['\n']) = l at h
    cases h with
    | opener => exact absurd (congrArg Lexeme.role hl) (by simp [Lexeme.atom, Lexeme.opener])
    | closer => exact absurd (congrArg Lexeme.role hl) (by simp [Lexeme.atom, Lexeme.closer])
    | atom _ ht =>
      have htext := congrArg Lexeme.text hl
      simp only [Lexeme.atom] at htext
      rwa [htext]
  rw [Scanner.readAll_append] at hr
  obtain ⟨hcoh, -⟩ := Scanner.coherent_start.readAll cs
  generalize (({} : Scanner).readAll cs).2 = s at hr hcoh
  have hs : (s.read '\n').2 = .holding (cs ++ ['\n']) := by simpa using congrArg Prod.snd hr
  -- outside strings the line break would have ended the atom
  cases hi : s.inString with
  | false =>
    have hb : s.read '\n' = (s.pendingAtom, {}) := by
      rw [hcoh.eq_holding hi]
      exact Scanner.read_blank rfl _
    rw [hb] at hs
    exact absurd (congrArg Scanner.pending hs) (by simp [Scanner.holding])
  | true =>
    have hin : (s.read '\n').2.inString = true := by
      unfold Scanner.read
      cases he : s.escaped <;> simp [CharClass.of, hi]
    rw [hs] at hin
    exact absurd hin (by simp [Scanner.holding])

theorem Cursor.column_advance_pos {k : Cursor} {text : List Char} {c : Char}
    (h : text.getLast? = some c) (hc : c ≠ '\n') : 0 < (k.advance text).column := by
  obtain ⟨cs, rfl⟩ := List.getLast?_eq_some_iff.mp h
  rw [advance_append, advance_cons, advance_nil, next, if_neg hc]
  exact Nat.succ_pos _

/-! ## Where an atom has just been printed -/

theorem OpenList.children_afterAtom (o : OpenList) (g : Gap) (text : List Char) :
    (o.afterAtom g text).children = o.children + 1 := by
  unfold afterAtom
  split
  · next h => simp [h]
  · split <;> rfl

namespace Sheet

/-- The innermost list has a child, or the line outside all lists has begun. -/
def Begun (s : Sheet) : Prop :=
  match s.lists with
  | [] => 0 < s.cursor.column
  | o :: _ => o.children ≠ 0

theorem gap?_ne_hug {s : Sheet} {l : Lexeme} (h : s.Begun) (hl : l.role = .atom) :
    s.gap? l ≠ some .hug := by
  unfold gap? Begun at *
  cases hs : s.lists with
  | nil =>
    rw [hs] at h
    simp [hl, h]
  | cons o os =>
    rw [hs] at h
    simp only [hl, h, if_false]
    split
    · simp
    · split
      · unfold compactGap
        split <;> simp
      · split <;> simp

/-- A complete atom leaves its list, or its line, begun. -/
theorem begun_put {s : Sheet} {l : Lexeme} (g : Gap) (hc : l.Complete) (hl : l.role = .atom) :
    (s.put g l).Begun := by
  cases hc with
  | opener => exact absurd hl (by simp [Lexeme.opener])
  | closer => exact absurd hl (by simp [Lexeme.closer])
  | @atom text hne hr =>
    unfold Begun
    cases hs : s.lists with
    | nil =>
      have hlists : (s.put g (.atom text)).lists = [] := by
        simp [put, Lexeme.atom, advance, modifyTop, hs]
      have hcur : (s.put g (.atom text)).cursor =
          (s.cursor.advancePieces (s.gapPieces s.lists.length g)).advance text := by
        simp [put, Lexeme.atom, advance, modifyTop, hs, pieces, Cursor.advancePieces,
          Cursor.nextPiece]
      rw [hlists, hcur]
      have hlast := List.getLast?_eq_some_getLast hne
      refine Cursor.column_advance_pos hlast fun he => ?_
      rw [he] at hlast
      exact (Lexeme.Complete.atom hne hr).getLast?_ne_newline hlast
    | cons o os =>
      have hlists : (s.put g (.atom text)).lists = o.afterAtom g text :: os := by
        simp [put, Lexeme.atom, advance, modifyTop, hs]
      rw [hlists]
      exact Nat.ne_of_gt (by simp [OpenList.children_afterAtom])

end Sheet

/-! ## Printed pieces and the sheet -/

theorem isAtom_gapPieces {s : Sheet} {depth : Nat} {g : Gap} :
    ∀ p ∈ s.gapPieces depth g, p.isAtom = false := by
  intro p hp
  cases g with
  | hug => exact absurd hp (by simp [Sheet.gapPieces])
  | space => rw [List.mem_singleton.mp hp]; rfl
  | line => rw [List.mem_singleton.mp hp]; rfl

theorem isAtom_pieces {s : Sheet} {g : Gap} {l : Lexeme} (hl : l.role ≠ .atom) :
    ∀ p ∈ s.pieces g l, p.isAtom = false := by
  intro p hp
  unfold Sheet.pieces at hp
  split at hp
  · rcases List.mem_append.mp hp with hp | hp
    · exact isAtom_gapPieces p hp
    · rw [List.mem_singleton.mp hp]
      rfl
  · next hr => exact absurd hr hl
  · rcases List.mem_append.mp hp with hp | hp
    · exact isAtom_gapPieces p hp
    · rcases List.mem_cons.mp hp with rfl | hp
      · rfl
      · split at hp
        · rw [List.mem_singleton.mp hp]
          rfl
        · exact absurd hp (by simp)

theorem isAtom_endPieces {s : Sheet} {terminate : Bool} :
    ∀ p ∈ s.endPieces terminate, p.isAtom = false := by
  intro p hp
  unfold Sheet.endPieces at hp
  split at hp
  · rw [List.mem_singleton.mp hp]
    rfl
  · exact absurd hp (by simp)

theorem Piece.Apart.append_of_not_atom {ps qs : List Piece} (h : Apart ps)
    (hq : ∀ q ∈ qs, q.isAtom = false) : Apart (ps ++ qs) := by
  induction qs generalizing ps with
  | nil => simpa using h
  | cons q qs ih =>
    rw [show ps ++ q :: qs = ps ++ [q] ++ qs by simp]
    exact ih (h.concat_of_not_atom (hq q List.mem_cons_self))
      fun x hx => hq x (List.mem_cons_of_mem q hx)

/-- What printed pieces keep with the sheet that they are printed on. -/
structure Tidy (ps : List Piece) (s : Sheet) : Prop where
  /-- No atom stands directly behind another one. -/
  apart : Apart ps
  /-- Nothing has been printed behind an atom that is the last lexeme. -/
  last : ∀ l ∈ (lexemesOf ps).getLast?, l.role = .atom → ps.getLast? = some (.lexeme l)
  /-- The next atom will not be printed directly behind it. -/
  begun : ∀ l ∈ (lexemesOf ps).getLast?, l.role = .atom → l.Complete → s.Begun

namespace Tidy

theorem nil (s : Sheet) : Tidy [] s where
  apart := apart_nil
  last := by simp
  begun := by simp

/-- Before an atom that hugs there is no other one. -/
theorem not_atom_of_not_begun {ps : List Piece} {s : Sheet} (h : Tidy ps s)
    (hc : ∀ l ∈ lexemesOf ps, l.Complete) (hb : ¬ s.Begun) :
    ∀ p ∈ ps.getLast?, p.isAtom = false := by
  intro p hp
  cases ha : p.isAtom with
  | false => rfl
  | true =>
    exfalso
    obtain ⟨l, rfl, hr⟩ := isAtom_iff.mp ha
    obtain ⟨qs, rfl⟩ := List.getLast?_eq_some_iff.mp hp
    have hl : l ∈ (lexemesOf (qs ++ [lexeme l])).getLast? := by simp
    exact hb (h.begun l hl hr (hc l (by simp)))

/-- One more lexeme leaves the pieces tidy, as long as an atom hugs only what it may. -/
theorem put {ps : List Piece} {s : Sheet} {g : Gap} {l : Lexeme} (h : Tidy ps s)
    (hc : ∀ x ∈ lexemesOf ps, x.Complete) (hl : l.Proper)
    (hg : l.role = .atom → g = .hug → ¬ s.Begun) : Tidy (ps ++ s.pieces g l) (s.put g l) := by
  have hlast : (lexemesOf (ps ++ s.pieces g l)).getLast? = some l := by
    simp [Sheet.lexemesOf_pieces s g hl]
  by_cases hr : l.role = .atom
  · have hp : s.pieces g l = s.gapPieces s.lists.length g ++ [lexeme l] := by
      simp [Sheet.pieces, hr]
    refine ⟨?_, ?_, ?_⟩
    · rw [hp, ← List.append_assoc]
      refine apart_concat.mpr ⟨h.apart.append_of_not_atom isAtom_gapPieces, ?_⟩
      intro p hpl hpa
      -- a gap is itself no atom; where there is none the sheet tells what stands before
      cases hgap : g with
      | hug =>
        rw [hgap] at hpl
        have hn := h.not_atom_of_not_begun hc (hg hr hgap) p (by simpa [Sheet.gapPieces] using hpl)
        exact absurd hpa (by simp [hn])
      | space =>
        obtain rfl : p = .space := by simpa [hgap, Sheet.gapPieces, eq_comm] using hpl
        exact absurd hpa (by simp [isAtom])
      | line =>
        obtain rfl : p = s.lineBreak s.lists.length := by
          simpa [hgap, Sheet.gapPieces, eq_comm] using hpl
        exact absurd hpa (by simp [isAtom, Sheet.lineBreak])
    · intro x hx _
      obtain rfl : l = x := Option.some.inj (hlast.symm.trans hx)
      simp [hp]
    · intro x hx _ hcx
      obtain rfl : l = x := Option.some.inj (hlast.symm.trans hx)
      exact Sheet.begun_put g hcx hr
  · refine ⟨h.apart.append_of_not_atom (isAtom_pieces hr), ?_, ?_⟩
    · intro x hx hrx
      obtain rfl : l = x := Option.some.inj (hlast.symm.trans hx)
      exact absurd hrx hr
    · intro x hx hrx
      obtain rfl : l = x := Option.some.inj (hlast.symm.trans hx)
      exact absurd hrx hr

/-- Nothing but lexemes leaves the printer, so the pieces stay tidy in every step. -/
theorem step {ps : List Piece} {p : Printer} {l : Lexeme} (h : Tidy ps p.sheet)
    (hc : ∀ x ∈ lexemesOf ps, x.Complete) (hl : l.Proper) :
    Tidy (ps ++ (p.step l).pieces) (p.step l).printer.sheet := by
  have hs := p.steps_step l
  generalize p.step l = o at hs
  cases hs with
  | print hh hg =>
    refine h.put hc hl fun hr hhug hb => ?_
    exact Sheet.gap?_ne_hug hb hr (hhug ▸ hg)
  | hold hh hg => simpa using h
  | keep hh hs => simpa using h
  | release hh hs => exact h.put hc Printer.proper_opener fun hr => absurd hr (by simp [Lexeme.opener])

end Tidy

/-! ## Whole runs -/

/-- Lexemes as a text can have them: only the last may be cut off. -/
structure AsScanned (ls : List Lexeme) : Prop where
  proper : ∀ l ∈ ls, l.Proper
  complete : ∀ l ∈ ls.dropLast, l.Complete

namespace AsScanned

theorem of_complete {ls : List Lexeme} (h : ∀ l ∈ ls, l.Complete) : AsScanned ls where
  proper l hl := (h l hl).proper
  complete l hl := h l (List.dropLast_subset ls hl)

theorem complete_left {ls ls' : List Lexeme} (h : AsScanned (ls ++ ls')) (hne : ls' ≠ []) :
    ∀ l ∈ ls, l.Complete := by
  intro l hl
  refine h.complete l ?_
  rw [List.dropLast_append_of_ne_nil hne]
  exact List.mem_append_left _ hl

theorem of_text (text : List Char) : AsScanned (lexemes text) where
  proper := proper_of_mem_lexemes
  complete := by
    intro l hl
    cases hi : (scannerAfter text).inString with
    | false => exact complete_of_mem_lexemes hi l (List.dropLast_subset _ hl)
    | true =>
      obtain ⟨l', hls, -⟩ := lexemes_of_inString hi
      rw [hls, List.dropLast_concat] at hl
      exact complete_of_mem_endedLexemes l hl

end AsScanned

namespace Tidy

/-- The lexemes printed, held back and still to be read are the same before and after. -/
theorem total_step {ps : List Piece} {p : Printer} {l : Lexeme} {queue : List Lexeme}
    (hl : l.Proper) :
    lexemesOf (ps ++ (p.step l).pieces) ++
        ((p.step l).printer.heldLexemes ++ ((p.step l).again ++ queue)) =
      lexemesOf ps ++ (p.heldLexemes ++ l :: queue) := by
  have hs := p.lexemesOf_step hl
  calc _ = lexemesOf ps ++ ((lexemesOf (p.step l).pieces ++ (p.step l).printer.heldLexemes ++
        (p.step l).again) ++ queue) := by simp
    _ = _ := by rw [hs]; simp

theorem printAll (ps : List Piece) {p : Printer} {ls : List Lexeme} (h : Tidy ps p.sheet)
    (ht : AsScanned (lexemesOf ps ++ (p.heldLexemes ++ ls))) :
    Tidy (ps ++ (p.printAll ls).1) (p.printAll ls).2.sheet := by
  fun_induction Printer.printAll p ls generalizing ps with
  | case1 p => simpa using h
  | case2 p l queue r ih =>
    have hl : l.Proper := ht.proper l (by simp)
    -- a lexeme is still to come, so the cut off one is not among those printed
    have hc : ∀ x ∈ lexemesOf ps, x.Complete := ht.complete_left (by simp)
    rw [← List.append_assoc]
    exact ih _ (h.step hc hl) (by rwa [total_step hl])

theorem releaseAll (ps : List Piece) {p : Printer} (h : Tidy ps p.sheet)
    (ht : AsScanned (lexemesOf ps ++ p.heldLexemes)) :
    Tidy (ps ++ p.releaseAll.1) p.releaseAll.2.sheet := by
  fun_induction Printer.releaseAll p generalizing ps with
  | case1 p hh => simpa using h
  | case2 p held hh o r r' ih =>
    have hheld : p.heldLexemes = held.lexemes := by simp [Printer.heldLexemes, hh]
    have hc : ∀ x ∈ lexemesOf ps, x.Complete :=
      ht.complete_left (by simp [hheld, Held.lexemes])
    have ho : Tidy (ps ++ o.pieces) o.printer.sheet :=
      h.put hc Printer.proper_opener fun hr => absurd hr (by simp [Lexeme.opener])
    -- the rest of the list is read with nothing held back
    have hto : lexemesOf (ps ++ o.pieces) ++ (o.printer.heldLexemes ++ o.again) =
        lexemesOf ps ++ p.heldLexemes := by
      rw [hheld, ← Printer.lexemesOf_release p.sheet held]
      simp [o]
    have hr : Tidy (ps ++ o.pieces ++ r.1) r.2.sheet := ho.printAll _ (by rwa [hto])
    have htr : lexemesOf (ps ++ o.pieces ++ r.1) ++ r.2.heldLexemes =
        lexemesOf ps ++ p.heldLexemes := by
      rw [lexemesOf_append, List.append_assoc, ← hto]
      refine congrArg _ (Printer.lexemesOf_printAll fun x hx => ?_)
      refine ht.proper x ?_
      rw [← hto]
      exact List.mem_append_right _ hx
    rw [← List.append_assoc, ← List.append_assoc]
    exact ih _ hr (by rwa [htr])

end Tidy

end SExprReflow
