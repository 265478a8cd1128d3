import SExprReflow.Proofs.HoldBack
import SExprReflow.Proofs.Shortform

/-!
# Lists that fit into a compact list

A list in a compact list is placed by the width that it takes on one line, before any of it is
printed. From there on its own rules decide: the compact lists in it measure their children again,
further along the line and with more closers due. So that the list is measured to fit would say
little, if one of these decisions could still come out otherwise.

They cannot. `Sheet.Roomy` keeps the account: the column reached, the width still to come and the
closers due stay within the limit. The closer of a compact list is part of the width of that list,
so opening the list moves one column from the width to the closers due (`Sheet.KeepsLine.inside`),
and the account is the same as before.
-/

namespace SExprReflow

open Piece

/-! ## The text of one line -/

theorem newline_not_mem_oneLineTextAfter {ls : List Lexeme} (h : ∀ l ∈ ls, l.multiline = false)
    (before : Lexeme) : '\n' ∉ oneLineTextAfter before ls := by
  induction ls generalizing before with
  | nil => simp [oneLineTextAfter]
  | cons l ls ih =>
    have hl : '\n' ∉ l.text := by simpa [Lexeme.multiline] using h l (by simp)
    have hrest := ih (fun x hx => h x (List.mem_cons_of_mem l hx)) l
    rw [oneLineTextAfter]
    cases before.spaced l <;> simp [hl, hrest]

theorem length_oneLineTextAfter {ls : List Lexeme} (h : ∀ l ∈ ls, l.multiline = false)
    (before : Lexeme) : (oneLineTextAfter before ls).length = oneLineWidthAfter before ls := by
  rw [oneLineWidthAfter_eq_length,
    takeWhile_of_not_newline (newline_not_mem_oneLineTextAfter h before)]

/-- A list with a space before it. -/
theorem oneLineWidthAfter_opener {before : Lexeme} (h : before.spaced .opener = true)
    (xs : List Lexeme) :
    oneLineWidthAfter before (.opener :: xs) = 1 + oneLineWidth (.opener :: xs) := by
  rw [oneLineWidthAfter, h, Nat.add_assoc]
  rfl

/-! ## Room on the line -/

/-- The closers due for open lists: one for each of the innermost that are compact. -/
def closersOf (os : List OpenList) : Nat := (os.takeWhile fun o => o.style = some .compact).length

theorem OpenList.Packs.closersOf_cons {c : Settings} {o : OpenList} (h : o.Packs c)
    (os : List OpenList) : closersOf (o :: os) = closersOf os + 1 := by
  simp [closersOf, h.style_eq]

namespace Sheet

variable {c : Settings} {s : Sheet} {os : List OpenList} {before : Lexeme} {room : Nat}

/-- A sheet inside a compact list that stands in the lists `os`, with room for so many columns on
the line besides the closers due. -/
structure Roomy (c : Settings) (os : List OpenList) (room : Nat) (s : Sheet) : Prop where
  settings_eq : s.settings = c
  exists_lists : ∃ o, s.lists = o :: os ∧ o.Packs c
  le : s.cursor.column + room + (closersOf os + 1) ≤ c.columnLimit

/-- A sheet behind the opener of a list that stands in the lists `os`, with room for so many columns
on the line besides the closers due around the list. -/
structure Opened (c : Settings) (os : List OpenList) (room : Nat) (s : Sheet) : Prop where
  behind : s.Behind .opener
  settings_eq : s.settings = c
  exists_lists : ∃ o, s.lists = o :: os ∧ o.settings = c ∧ o.onOneLine = false
  le : s.cursor.column + room + closersOf os ≤ c.columnLimit

namespace Roomy

/-- Something goes on the line if there is room for it and a space. -/
theorem compactGap_eq (h : s.Roomy c os room) {w : Nat} (hw : 1 + w ≤ room) :
    s.compactGap w = .space := by
  obtain ⟨o, hs, ho⟩ := h.exists_lists
  have hle := h.le
  have hdue : s.closersDue = closersOf os + 1 := by
    rw [← ho.closersOf_cons, ← hs]
    rfl
  have hroom : s.hasRoom w = true := by
    rw [hasRoom_iff hs, hdue, ho.settings_eq]
    omega
  rw [compactGap, if_pos hroom]

/-- Inside a compact list there is a space before each child but the first. -/
theorem spaced (h : s.Roomy c os room) (hb : s.Behind before) {l : Lexeme}
    (hl : l.role ≠ .closer) : before.spaced l = true := by
  obtain ⟨o, hs, ho⟩ := h.exists_lists
  have hopener : before.role ≠ .opener := fun hr =>
    ho.children_ne_zero ((hb.top o (by simp [hs])).mpr hr)
  simp [Lexeme.spaced, hopener, hl]

/-- A list goes on the line if there is room for its width and a space. -/
theorem gapAhead_opener (h : s.Roomy c os room) {xs : List Lexeme} (hx : Balanced xs)
    (hw : 1 + oneLineWidth (.opener :: (xs ++ [.closer])) ≤ room) (ys : List Lexeme) :
    s.gapAhead .opener (xs ++ [.closer] ++ ys) = .space := by
  obtain ⟨o, hs, ho⟩ := h.exists_lists
  rw [List.append_assoc, List.singleton_append, gapAhead_list hs ho hx]
  exact h.compactGap_eq hw

/-- What is printed flat takes its width of the room. -/
theorem of_flat {xs ys : List Lexeme} {o : OpenList}
    (h : s.Roomy c os (oneLineWidthAfter before xs + room))
    (hm : ∀ l ∈ xs, l.multiline = false) (hflat : Flat before xs (s.printBefore ys xs))
    (hlists : (s.printBefore ys xs).2.lists = o :: os) (ho : o.Packs c) :
    (s.printBefore ys xs).2.Roomy c os room where
  settings_eq := by rw [settings_printBefore, h.settings_eq]
  exists_lists := ⟨o, hlists, ho⟩
  le := by
    have hle := h.le
    rw [cursor_printBefore, hflat.pieces_eq, Cursor.advancePieces_flatPieces hm]
    simp only
    omega

end Roomy

/-- Lexemes that are printed flat in a compact list with room for them. -/
def KeepsLine (c : Settings) (xs : List Lexeme) : Prop :=
  ∀ (s : Sheet) (os : List OpenList) (before : Lexeme) (room : Nat) (ys : List Lexeme),
    s.Behind before → s.Roomy c os (oneLineWidthAfter before xs + room) →
      Flat before xs (s.printBefore ys xs) ∧ (s.printBefore ys xs).2.Roomy c os room

/-- What stands between the delimiters of a list that is printed flat in a compact list with room
for it, through the closer. -/
def KeepsLineInside (c : Settings) (xs : List Lexeme) : Prop :=
  ∀ (s : Sheet) (p : OpenList) (os : List OpenList) (ys : List Lexeme),
    s.Opened c (p :: os) (oneLineWidthAfter .opener (xs ++ [.closer])) →
      Flat .opener (xs ++ [.closer]) (s.printBefore ys (xs ++ [.closer])) ∧
        (s.printBefore ys (xs ++ [.closer])).2.lists = p :: os

theorem keepsLine_nil : KeepsLine c [] := by
  intro s os before room ys hb h
  exact ⟨⟨rfl, hb⟩, by simpa [oneLineWidthAfter, printBefore] using h⟩

theorem KeepsLine.append {xs ys : List Lexeme} (hx : KeepsLine c xs) (hy : KeepsLine c ys)
    (hm : ∀ l ∈ xs, l.multiline = false) : KeepsLine c (xs ++ ys) := by
  intro s os before room zs hb h
  rw [oneLineWidthAfter_append hm, Nat.add_assoc] at h
  obtain ⟨hflat, hroom⟩ := hx s os before _ (ys ++ zs) hb h
  obtain ⟨hflat', hroom'⟩ := hy _ os _ room zs hflat.behind hroom
  rw [printBefore_append]
  exact ⟨hflat.append hflat', hroom'⟩

theorem keepsLine_atom {text : List Char} (hm : (Lexeme.atom text).multiline = false) :
    KeepsLine c [.atom text] := by
  intro s os before room ys hb h
  obtain ⟨o, hs, ho⟩ := h.exists_lists
  have hsp := h.spaced hb (l := .atom text) (by simp [Lexeme.atom])
  have hw : oneLineWidthAfter before [.atom text] = 1 + (Lexeme.atom text).width := by
    simp [oneLineWidthAfter, hsp]
  have hg : s.gapAhead (.atom text) ys = .space := by
    rw [gapAhead_atom hs ho]
    exact h.compactGap_eq (by omega)
  have hflat : Flat before [.atom text] (s.printBefore ys [.atom text]) := by
    rw [printBefore, List.nil_append, hg]
    have hend : Flat (.atom text) [] ([], s.put .space (.atom text)) :=
      ⟨rfl, behind_put hb.outer .space (.atom text)⟩
    exact hend.cons (by rw [hsp]; rfl)
  have hlists := s.lists_put_atom (s.gapAhead (.atom text) ys) (l := .atom text) rfl
  rw [hs, List.modifyHead_cons] at hlists
  exact ⟨hflat, h.of_flat (by simpa using hm) hflat hlists (ho.afterAtom _ _)⟩

/-- **A list goes on the line**, if it fits there and is printed flat behind its opener. -/
theorem KeepsLineInside.keepsLine {xs : List Lexeme} (h : KeepsLineInside c xs) (hx : Balanced xs)
    (hm : ∀ l ∈ xs, l.multiline = false) : KeepsLine c (.opener :: (xs ++ [.closer])) := by
  intro s os before room ys hb hroom
  obtain ⟨o, hs, ho⟩ := hroom.exists_lists
  have hle := hroom.le
  have hsp := hroom.spaced hb (l := .opener) (by simp [Lexeme.opener])
  have hw := oneLineWidthAfter_opener hsp (xs ++ [.closer])
  have hwidth : oneLineWidth (.opener :: (xs ++ [.closer])) =
      1 + oneLineWidthAfter .opener (xs ++ [.closer]) := rfl
  have hg := hroom.gapAhead_opener hx (by omega) ys
  have hlists := s.lists_put_opener .space (l := .opener) rfl
  rw [hs, List.modifyHead_cons] at hlists
  have hopened : (s.put .space .opener).Opened c (o.afterList :: os)
      (oneLineWidthAfter .opener (xs ++ [.closer])) := by
    refine ⟨behind_put hb.outer .space .opener, by rw [settings_put, hroom.settings_eq],
      ⟨_, hlists, hroom.settings_eq, by simp [ho.onOneLine_eq]⟩, ?_⟩
    have hcol : (s.put .space .opener).cursor.column = s.cursor.column + 2 := by
      rw [cursor_put]
      rfl
    rw [hcol, ho.afterList.closersOf_cons]
    omega
  obtain ⟨hinside, hlists'⟩ := h _ _ _ ys hopened
  have hprint : s.printBefore ys (.opener :: (xs ++ [.closer])) =
      (s.pieces .space .opener ++
          ((s.put .space .opener).printBefore ys (xs ++ [.closer])).1,
        ((s.put .space .opener).printBefore ys (xs ++ [.closer])).2) := by
    rw [printBefore, hg]
  have hflat : Flat before (.opener :: (xs ++ [.closer]))
      (s.printBefore ys (.opener :: (xs ++ [.closer]))) := by
    rw [hprint]
    exact hinside.cons (by rw [hsp]; rfl)
  exact ⟨hflat, hroom.of_flat (not_multiline_list hm) hflat (hprint ▸ hlists') ho.afterList⟩

theorem keepsLineInside_oneLine {xs : List Lexeme} (hx : OneLineBody c xs)
    (hm : ∀ l ∈ xs, l.multiline = false) : KeepsLineInside c xs := by
  intro s p os ys h
  obtain ⟨o, hs, hset, hone⟩ := h.exists_lists
  exact hx.flat hm hs hset hone h.behind ys

/-- **A compact list that fits has room for its children**: its closer is due while they are
printed, but it is part of the width of the list. -/
theorem KeepsLine.inside {head : List Char} {xs : List Lexeme} (h : KeepsLine c xs)
    (hstyle : c.styleOf head = .compact) (hhead : (Lexeme.atom head).multiline = false)
    (hm : ∀ l ∈ xs, l.multiline = false) : KeepsLineInside c (.atom head :: xs) := by
  intro s p os ys hopened
  obtain ⟨o, hs, hset, hone⟩ := hopened.exists_lists
  have hz := (hopened.behind.opened hs).1
  have hle := hopened.le
  have hlists := s.lists_put_atom .hug (l := .atom head) rfl
  rw [hs, List.modifyHead_cons] at hlists
  have hw : oneLineWidthAfter .opener (.atom head :: xs ++ [.closer]) =
      (Lexeme.atom head).width + (oneLineWidthAfter (.atom head) xs + 1) := by
    have hfirst : Lexeme.opener.spaced (.atom head) = false := rfl
    rw [List.cons_append, oneLineWidthAfter, hhead, oneLineWidthAfter_concat _ rfl hm]
    simp [hfirst]
  have hroom : (s.put .hug (.atom head)).Roomy c (p :: os)
      (oneLineWidthAfter (.atom head) xs + 0) := by
    refine ⟨by rw [settings_put, hopened.settings_eq],
      ⟨_, hlists, OpenList.packs_afterAtom hz hset hone hstyle .hug⟩, ?_⟩
    have hp : s.pieces .hug (.atom head) = [.lexeme (.atom head)] := rfl
    have hcol : (s.put .hug (.atom head)).cursor.column =
        s.cursor.column + (Lexeme.atom head).width := by
      simp [cursor_put, hp, Cursor.advancePieces, Cursor.nextPiece, Cursor.advance_text hhead]
    omega
  obtain ⟨hflat, hroom'⟩ := h _ _ (.atom head) 0 (.closer :: ys)
    (behind_put hopened.behind.outer .hug (.atom head)) hroom
  obtain ⟨o', hlists', ho'⟩ := hroom'.exists_lists
  obtain ⟨hflat', hlists''⟩ := hflat.closer hlists' (ho'.closesOnNewLine _)
  rw [List.cons_append, hopened.behind.printBefore_head]
  exact ⟨hflat'.cons rfl, hlists''⟩

end Sheet

open Sheet in
/-- **Children of a compact list go on the line one after another**, as long as there is room for
all of them. -/
theorem Packed.keepsLine {c : Settings} {ps : List Part} (h : Packed c ps) :
    KeepsLine c (lexemesOfParts ps) := by
  induction h with
  | nil => exact keepsLine_nil
  | atom hm _ ih =>
    rw [lexemesOfParts_cons]
    exact (keepsLine_atom hm).append ih (by simpa [Part.lexemes] using hm)
  | oneLine hl _ ih =>
    rw [lexemesOfParts_cons]
    refine KeepsLine.append ?_ ih hl.not_multiline
    cases hl with
    | mk hbody hm => exact (keepsLineInside_oneLine hbody hm).keepsLine hbody.balanced hm
  | @list head ps qs hstyle hm hp _ ihp ihq =>
    have hsplit : lexemesOfParts (.opener :: .item [.atom head] :: (ps ++ .closer :: qs)) =
        .opener :: (.atom head :: lexemesOfParts ps ++ [.closer]) ++ lexemesOfParts qs := by
      simp [Part.lexemes]
    have hbody : ∀ l ∈ .atom head :: lexemesOfParts ps, l.multiline = false :=
      List.forall_mem_cons.mpr ⟨hm, hp.not_multiline⟩
    rw [hsplit]
    exact ((ihp.inside hstyle hm hp.not_multiline).keepsLine (.atom rfl hp.balanced) hbody).append
      ihq (not_multiline_list hbody)

/-! ## Lists in the compact lists of a text -/

/-- A list whose width on one line tells how it is printed in a compact list. It stands on one line
anyway, or it is itself compact, with nothing in it but atoms and lists of these two kinds. -/
inductive MeasuredList (c : Settings) : List Lexeme → Prop where
  | oneLine {ls : List Lexeme} : OneLineList c ls → MeasuredList c ls
  | compact {ps : List Part} : PackedList c ps → MeasuredList c (lexemesOfParts ps)

namespace MeasuredList

variable {c : Settings} {ls : List Lexeme}

theorem exists_packed (h : MeasuredList c ls) : ∃ ps, Packed c ps ∧ lexemesOfParts ps = ls := by
  cases h with
  | oneLine hl => exact ⟨[.item ls], .oneLine hl .nil, by simp [Part.lexemes]⟩
  | compact hp => exact ⟨_, hp.packed, rfl⟩

theorem exists_balanced (h : MeasuredList c ls) :
    ∃ xs, ls = .opener :: (xs ++ [.closer]) ∧ Balanced xs := by
  cases h with
  | oneLine hl =>
    cases hl with
    | mk hbody _ => exact ⟨_, rfl, hbody.balanced⟩
  | compact hp =>
    cases hp with
    | @mk head ps _ _ hp =>
      exact ⟨.atom head :: lexemesOfParts ps, by simp [Part.lexemes], .atom rfl hp.balanced⟩

theorem not_multiline (h : MeasuredList c ls) : ∀ l ∈ ls, l.multiline = false := by
  obtain ⟨ps, hp, rfl⟩ := h.exists_packed
  exact hp.not_multiline

end MeasuredList

/-- The number of lists that are compact, from the innermost to the first that is not. -/
def compactAround (c : Settings) (fs : List FirstChild) : Nat :=
  (fs.takeWhile fun f => f.style c = some .compact).length

theorem Mirrors.closersOf_eq {c : Settings} {os : List OpenList} {fs : List FirstChild}
    (h : Mirrors c os fs) : closersOf os = compactAround c fs := by
  unfold closersOf compactAround
  induction h with
  | nil => rfl
  | @cons o os f fs ho _ ih =>
    rw [List.takeWhile_cons, List.takeWhile_cons, ho.style_eq]
    split
    · rw [List.length_cons, List.length_cons, ih]
    · rfl

/-- The column behind the first `n` lexemes. -/
def columnAt (n : Nat) (ps : List Piece) : Nat := (Cursor.advance {} (textOf (through n ps))).column

theorem Mirrors.length_eq {c : Settings} {os : List OpenList} {fs : List FirstChild}
    (h : Mirrors c os fs) : os.length = fs.length := by
  induction h with
  | nil => rfl
  | cons _ _ ih => rw [List.length_cons, List.length_cons, ih]

section

variable {text : List Char} {before after : List Lexeme} {head : List Char}

theorem columnAt_reflowPieces (s : Settings) {l : Lexeme}
    (h : lexemes text = before ++ l :: after) (hin : nesting 0 before ≠ 0) :
    columnAt before.length (reflowPieces s text) =
      (sheetAt s before (l :: after)).cursor.column := by
  rw [columnAt, cursor_sheetAt s h hin]

/-- The number of lists around a place is that of their first children. -/
theorem length_enclosing (before : List Lexeme) :
    (enclosing before).length = nesting 0 before := by
  rw [← length_lists_sheetAt default before [], (mirrors_sheetAt default before []).length_eq]

theorem nesting_ne_zero_of_head {f : FirstChild} (h : (enclosing before).head? = some f) :
    nesting 0 before ≠ 0 := by
  rw [← length_enclosing]
  intro hlen
  exact absurd h (by simp [List.length_eq_zero_iff.mp hlen])

/-- Where the innermost list is compact, and no list shortform. -/
theorem exists_packs_sheetAt (s : Settings) (hhead : (enclosing before).head? = some (.atom head))
    (hstyle : s.styleOf head = .compact) (hbefore : ¬ AnyShortform s (enclosing before))
    (rest : List Lexeme) :
    ∃ o os, (sheetAt s before rest).lists = o :: os ∧ o.Packs s := by
  have hm := mirrors_sheetAt s before rest
  generalize (sheetAt s before rest).lists = os at hm
  generalize enclosing before = fs at *
  cases hm with
  | nil => exact absurd hhead (by simp)
  | @cons o os f fs ho _ =>
    obtain rfl : f = .atom head := by simpa using hhead
    refine ⟨o, os, rfl, ho.settings_eq, ?_, ?_, fun hz => ?_⟩
    · rw [ho.style_eq, FirstChild.style, hstyle]
    · exact Bool.eq_false_iff.mpr fun hone => hbefore (ho.onOneLine_eq.mp hone)
    · exact absurd (ho.children_eq_zero.mp hz) (by simp)

theorem exists_behind_sheetAt (s : Settings) (hin : nesting 0 before ≠ 0) (rest : List Lexeme) :
    ∃ l, (sheetAt s before rest).Behind l := by
  rcases List.eq_nil_or_concat before with rfl | ⟨ls, l, rfl⟩
  · exact absurd rfl hin
  · rw [List.concat_eq_append]
    exact ⟨l, behind_sheetAt s ls l rest⟩

/-- **A list in a compact list is placed by its width on one line.** -/
theorem gapAt_of_compact (s : Settings) {xs : List Lexeme} (hx : Balanced xs)
    (htext : lexemes text = before ++ .opener :: (xs ++ .closer :: after))
    (hhead : (enclosing before).head? = some (.atom head)) (hstyle : s.styleOf head = .compact)
    (hbefore : ¬ AnyShortform s (enclosing before)) :
    gapAt before.length (reflowPieces s text) =
      if columnAt before.length (reflowPieces s text) + 1 +
          oneLineWidth (.opener :: (xs ++ [.closer])) + compactAround s (enclosing before) ≤
            s.columnLimit then
        [.space]
      else [.lineBreak (s.indent (nesting 0 before))] := by
  have hin := nesting_ne_zero_of_head hhead
  obtain ⟨o, os, hlists, ho⟩ := exists_packs_sheetAt s hhead hstyle hbefore
    (.opener :: (xs ++ .closer :: after))
  have hdepth := length_lists_sheetAt s before (.opener :: (xs ++ .closer :: after))
  have hdue := (mirrors_sheetAt s before (.opener :: (xs ++ .closer :: after))).closersOf_eq
  have hroom := Sheet.hasRoom_iff hlists (oneLineWidth (.opener :: (xs ++ [.closer])))
  rw [← columnAt_reflowPieces s htext hin, ho.settings_eq, Sheet.closersDue, ← closersOf,
    hdue] at hroom
  have hopener : Lexeme.opener.role ≠ .closer := by decide
  rw [gapAt_reflowPieces s htext hin, Sheet.gapBefore, Sheet.gapAhead_list hlists ho hx,
    Sheet.compactGap, Sheet.gapDepth, if_neg hopener, hdepth]
  simp only [hroom]
  split
  · rfl
  · simp [Sheet.gapPieces, Sheet.lineBreak]

/-- **A list that fits into a compact list is printed flat.** -/
theorem segmentAt_of_compact (s : Settings) {ls : List Lexeme} (hlist : MeasuredList s ls)
    (htext : lexemes text = before ++ ls ++ after)
    (hhead : (enclosing before).head? = some (.atom head)) (hstyle : s.styleOf head = .compact)
    (hbefore : ¬ AnyShortform s (enclosing before))
    (hfits : columnAt before.length (reflowPieces s text) + 1 + oneLineWidth ls +
      compactAround s (enclosing before) ≤ s.columnLimit) :
    segmentAt before.length ls.length (reflowPieces s text) = flatPieces .opener ls := by
  obtain ⟨ps, hpacked, hps⟩ := hlist.exists_packed
  obtain ⟨xs, rfl, hx⟩ := hlist.exists_balanced
  have hcut : lexemes text = before ++ .opener :: (xs ++ [.closer] ++ after) := by simp [htext]
  have hin := nesting_ne_zero_of_head hhead
  have hin' : nesting 0 (before ++ .opener :: (xs ++ [.closer])) ≠ 0 := by
    have hlist : Balanced (.opener :: (xs ++ [.closer])) := .list hx .nil
    rwa [nesting_append, hlist.nesting_eq]
  obtain ⟨o, os, hlists, ho⟩ := exists_packs_sheetAt s hhead hstyle hbefore
    (.opener :: (xs ++ [.closer] ++ after))
  obtain ⟨l, hb⟩ := exists_behind_sheetAt s hin (.opener :: (xs ++ [.closer] ++ after))
  have hdue := (mirrors_sheetAt s before (.opener :: (xs ++ [.closer] ++ after))).closersOf_eq
  rw [hlists, ho.closersOf_cons] at hdue
  rw [columnAt_reflowPieces s hcut hin, ← hdue] at hfits
  have hroom : (sheetAt s before (.opener :: (xs ++ [.closer] ++ after))).Roomy s os
      (1 + oneLineWidth (.opener :: (xs ++ [.closer]))) :=
    ⟨settings_sheetAt s before _, ⟨o, hlists, ho⟩, by omega⟩
  rw [List.length_cons, segmentAt_reflowPieces s hcut hin', sheetAt_concat]
  generalize sheetAt s before (.opener :: (xs ++ [.closer] ++ after)) = sheet at *
  -- the whole list is printed flat, and without the space before it the segment is left
  have hsp := hroom.spaced hb (l := .opener) (by simp [Lexeme.opener])
  have hg := hroom.gapAhead_opener hx (Nat.le_refl _) after
  rw [← oneLineWidthAfter_opener hsp] at hroom
  have hflat := (hpacked.keepsLine sheet os l 0 after hb (hps ▸ hroom)).1.pieces_eq
  rw [hps, Sheet.printBefore, hg, flatPieces, hsp] at hflat
  rw [hg]
  have hpieces : sheet.pieces .space .opener = [.space, .lexeme .opener] := rfl
  rw [hpieces] at hflat
  simpa [flatPieces, Lexeme.spaced, Lexeme.opener] using hflat

end

/-- **A list that is measured to fit takes the line, and so much of it.** Let the innermost list
around a place be compact, and no list around it shortform. A list there whose width tells how it
is printed is measured with a space before it and with a closer behind it for each of the innermost
lists around it that are compact. If all of that is within the column limit, the list is printed as
`oneLineText` has it, which is as wide as it was measured and has no line break. Otherwise it
starts a line, indented for the lists around it. -/
theorem compact_child_fits [Memory] (s : Settings) (text : List Char)
    (before ls after : List Lexeme) (head : List Char) (hlist : MeasuredList s ls)
    (htext : lexemes text = before ++ ls ++ after)
    (hhead : (enclosing before).head? = some (.atom head)) (hstyle : s.styleOf head = .compact)
    (hbefore : ¬ AnyShortform s (enclosing before)) :
    (columnAt before.length (reflowPieces s text) + 1 + oneLineWidth ls +
          compactAround s (enclosing before) ≤ s.columnLimit →
        gapAt before.length (reflowPieces s text) = [.space] ∧
        textOf (segmentAt before.length ls.length (reflowPieces s text)) = oneLineText ls ∧
        (oneLineText ls).length = oneLineWidth ls ∧ '\n' ∉ oneLineText ls) ∧
      (s.columnLimit < columnAt before.length (reflowPieces s text) + 1 + oneLineWidth ls +
          compactAround s (enclosing before) →
        gapAt before.length (reflowPieces s text) =
          [.lineBreak (s.indent (nesting 0 before))]) ∧
      lexemesOf (reflowPieces s text) = lexemes text ∧
      (reflowWithin s text).result = text? (reflowPieces s text) := by
  obtain ⟨xs, hls, hx⟩ := hlist.exists_balanced
  have hcut : lexemes text = before ++ .opener :: (xs ++ .closer :: after) := by simp [htext, hls]
  have hgap := gapAt_of_compact s hx hcut hhead hstyle hbefore
  rw [← hls] at hgap
  refine ⟨fun hfits => ⟨?_, ?_, ?_, ?_⟩, fun hwide => ?_, lexemesOf_reflowPieces s text,
    result_reflowWithin s text⟩
  · rw [hgap, if_pos hfits]
  · rw [segmentAt_of_compact s hlist htext hhead hstyle hbefore hfits, textOf_flatPieces_opener]
  · rw [oneLineText_eq, oneLineWidth_eq]
    exact length_oneLineTextAfter hlist.not_multiline _
  · rw [oneLineText_eq]
    exact newline_not_mem_oneLineTextAfter hlist.not_multiline _
  · rw [hgap, if_neg (Nat.not_le_of_lt hwide)]

/-- The list `(p (p x))` in its parts. -/
def pairParts : List Part :=
  [.opener, .item [.atom ['p']], .opener, .item [.atom ['p']], .item [.atom ['x']], .closer,
    .closer]

theorem packedList_pairParts {c : Settings} (h : c.styleOf ['p'] = .compact) :
    PackedList c pairParts := by
  have hx : Packed c [.item [.atom ['x']]] := .atom (by decide) .nil
  exact @PackedList.mk c ['p'] _ h (by decide) (@Packed.list c ['p'] _ _ h (by decide) hx .nil)

/-- Settings that leave thirteen columns to lists headed by `p`. -/
def lessNarrow : Settings :=
  { narrow with
    columnLimit := 13
    columnLimit_pos := Nat.succ_pos 12 }

/-- In `(p (p (p x)))` the list `(p (p x))` takes nine columns. With the two before it, a space and
the last closer these are thirteen, which are left by the one settings and not by the other. -/
theorem compact_child_fits_exactly :
    lexemes "(p (p (p x)))".toList =
        [.opener, .atom ['p']] ++ lexemesOfParts pairParts ++ [.closer] ∧
      gapAt 2 (reflowPieces lessNarrow "(p (p (p x)))".toList) = [.space] ∧
      textOf (segmentAt 2 7 (reflowPieces lessNarrow "(p (p (p x)))".toList)) =
        "(p (p x))".toList ∧
      gapAt 2 (reflowPieces narrow "(p (p (p x)))".toList) = [.lineBreak ⟨.tab, 1⟩] := by
  have htext : lexemes "(p (p (p x)))".toList =
      [.opener, .atom ['p']] ++ lexemesOfParts pairParts ++ [.closer] := by decide
  have hcut : lexemes "(p (p (p x)))".toList = [.opener, .atom ['p']] ++
      .opener :: [.atom ['p'], .opener, .atom ['p'], .atom ['x'], .closer, .closer, .closer] := by
    decide
  have hcolumn : ∀ s : Settings, columnAt 2 (reflowPieces s "(p (p (p x)))".toList) = 2 :=
    fun s => columnAt_reflowPieces s hcut (by decide)
  have hfits := (@compact_child_fits .small lessNarrow _ _ _ _ ['p']
    (.compact (packedList_pairParts (by decide))) htext (by decide) (by decide) (by decide)).1
    (by rw [List.length_cons, List.length_cons, List.length_nil, hcolumn]; decide)
  have hwide := (@compact_child_fits .small narrow _ _ _ _ ['p']
    (.compact (packedList_pairParts (by decide))) htext (by decide) (by decide) (by decide)).2.1
    (by rw [List.length_cons, List.length_cons, List.length_nil, hcolumn]; decide)
  exact ⟨htext, hfits.1, hfits.2.1, hwide⟩

end SExprReflow
