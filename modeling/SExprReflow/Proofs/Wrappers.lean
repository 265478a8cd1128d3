import SExprReflow.Proofs.CompactChild
import SExprReflow.Proofs.LinePieces

/-!
# Wrappers around compact lists

A wrapper is a list with a single child that is again a list. Where it stands on one line with that
child, its closer does too, right behind the closer of the child. A compact list leaves room on the
line for its own closer and for those of the compact lists around it, but a wrapper is a normal list,
and for its closer nothing is left.

So a line with several atoms ends with an atom and closers, and it is within the column limit up to
the closers that have been left room for (`line_within_limit`). Each of the other closers can take it
one column further.
-/

namespace SExprReflow

open Piece

/-! ## A place in balanced lexemes -/

/-- At a place in balanced lexemes both sides are balanced, or the innermost list that is open there
has balanced lexemes on both sides. -/
theorem Balanced.append_cases {ls before rest : List Lexeme} (h : Balanced ls)
    (hls : ls = before ++ rest) :
    Balanced before ∧ Balanced rest ∨
      ∃ b xs ys a, before = b ++ .opener :: xs ∧ rest = ys ++ .closer :: a ∧
        Balanced xs ∧ Balanced ys := by
  induction h generalizing before rest with
  | nil =>
    obtain ⟨rfl, rfl⟩ := List.append_eq_nil_iff.mp hls.symm
    exact .inl ⟨.nil, .nil⟩
  | @atom l ls hr hb ih =>
    rcases List.cons_eq_append_iff.mp hls with ⟨rfl, rfl⟩ | ⟨before, rfl, hrest⟩
    · exact .inl ⟨.nil, .atom hr hb⟩
    · rcases ih hrest with ⟨hx, hy⟩ | ⟨b, xs, ys, a, rfl, rfl, hx, hy⟩
      · exact .inl ⟨.atom hr hx, hy⟩
      · exact .inr ⟨l :: b, xs, ys, a, by simp, rfl, hx, hy⟩
  | @list ms ls hm hb ihm ihl =>
    rw [List.cons_append] at hls
    rcases List.cons_eq_append_iff.mp hls with ⟨rfl, rfl⟩ | ⟨before, rfl, hrest⟩
    · exact .inl ⟨.nil, .list hm hb⟩
    · rcases List.append_eq_append_iff.mp hrest with ⟨u, rfl, hu⟩ | ⟨u, rfl, rfl⟩
      · rcases List.cons_eq_append_iff.mp hu with ⟨rfl, rfl⟩ | ⟨u, rfl, rfl⟩
        · -- at the closer
          exact .inr ⟨[], ms, [], ls, by simp, rfl, hm, .nil⟩
        · rcases ihl rfl with ⟨hx, hy⟩ | ⟨b, xs, ys, a, rfl, rfl, hx, hy⟩
          · exact .inl ⟨.list hm hx, hy⟩
          · exact .inr ⟨.opener :: ms ++ .closer :: b, xs, ys, a, by simp, rfl, hx, hy⟩
      · rcases ihm rfl with ⟨hx, hy⟩ | ⟨b, xs, ys, a, rfl, rfl, hx, hy⟩
        · exact .inr ⟨[], before, u, ls, rfl, rfl, hx, hy⟩
        · exact .inr ⟨.opener :: b, xs, ys, a ++ .closer :: ls, by simp, by simp, hx, hy⟩

/-- A list becomes shortform only by a first child that makes it so. -/
theorem anyShortform_enclosingAfter {c : Settings} {fs : List FirstChild} {l : Lexeme}
    (h : AnyShortform c (enclosingAfter fs l)) :
    AnyShortform c fs ∨
      l.role = .atom ∧ fs.head? = some .missing ∧ c.styleOf l.text = .shortform := by
  cases hl : l.role with
  | opener =>
    simp only [enclosingAfter, hl] at h
    rw [anyShortform_cons, anyShortform_modifyHead] at h
    exact .inl (h.resolve_left (by simp [FirstChild.style]))
  | atom =>
    simp only [enclosingAfter, hl] at h
    cases fs with
    | nil => exact .inl h
    | cons f fs =>
      rw [List.modifyHead_cons, anyShortform_cons] at h
      cases f with
      | missing => simpa [anyShortform_cons, FirstChild.orElse, FirstChild.style, or_comm] using h
      | list => exact .inl (anyShortform_cons.mpr h)
      | atom text => exact .inl (anyShortform_cons.mpr h)
  | closer =>
    simp only [enclosingAfter, hl] at h
    obtain ⟨f, hf, hs⟩ := h
    exact .inl ⟨f, List.mem_of_mem_tail hf, hs⟩

/-! ## Compact lists and wrappers -/

/-- Lexemes without line breaks in which every list is compact or a wrapper. -/
structure CompactOrWrapper (c : Settings) (ls : List Lexeme) : Prop where
  balanced : Balanced ls
  not_multiline : ∀ l ∈ ls, l.multiline = false
  lists : ∀ before cs after, ls = before ++ completeList cs ++ after →
    (∃ head cs', cs = .atom head :: cs' ∧ c.styleOf head = .compact) ∨
      ∃ body hb, cs = [.list body hb]

namespace CompactOrWrapper

variable {c : Settings} {ls before after : List Lexeme} {l : Lexeme} {f : FirstChild}

/-- Inside a list, the children before and behind a place make up a compact list or a wrapper. -/
theorem exists_children (h : CompactOrWrapper c ls) (hls : ls = before ++ after)
    (hf : (enclosing before).head? = some f) :
    ∃ cs ds a, f = firstChild cs ∧ after = lexemesOfChildren ds ++ .closer :: a ∧
      ((∃ head cs', cs ++ ds = .atom head :: cs' ∧ c.styleOf head = .compact) ∨
        ∃ body hb, cs ++ ds = [.list body hb]) := by
  rcases h.balanced.append_cases hls with ⟨hx, -⟩ | ⟨b, xs, ys, a, rfl, rfl, hx, hy⟩
  · exact absurd (hx.nesting_eq 0) (nesting_ne_zero_of_head hf)
  · obtain ⟨cs, rfl⟩ := hx.exists_children
    obtain ⟨ds, rfl⟩ := hy.exists_children
    rw [enclosing_children] at hf
    refine ⟨cs, ds, a, (Option.some.inj hf).symm, rfl, h.lists b (cs ++ ds) a ?_⟩
    simp [hls, completeList]

/-- The first child of a list is the head of a compact list, or again a list. -/
theorem exists_firstChild (h : CompactOrWrapper c ls) (hls : ls = before ++ after)
    (hf : (enclosing before).head? = some .missing) :
    ∃ l after', after = l :: after' ∧ l.role ≠ .closer ∧
      (l.role = .atom → c.styleOf l.text = .compact) := by
  obtain ⟨cs, ds, a, hfirst, rfl, hlist⟩ := h.exists_children hls hf
  obtain rfl : cs = [] := by
    cases cs with
    | nil => rfl
    | cons x cs => cases x <;> exact absurd hfirst (by simp [firstChild])
  rcases hlist with ⟨head, ds', hds, hstyle⟩ | ⟨body, hb, hds⟩
  · obtain rfl : ds = .atom head :: ds' := hds
    exact ⟨.atom head, _, rfl, by simp [Lexeme.atom], fun _ => hstyle⟩
  · obtain rfl : ds = [.list body hb] := hds
    exact ⟨.opener, _, rfl, by simp [Lexeme.opener], by simp [Lexeme.opener]⟩

/-- A list with a child and more to come is compact. -/
theorem exists_compact_head (h : CompactOrWrapper c ls) (hls : ls = before ++ l :: after)
    (hl : l.role ≠ .closer) (hf : (enclosing before).head? = some f) (hne : f ≠ .missing) :
    ∃ head, f = .atom head ∧ c.styleOf head = .compact := by
  obtain ⟨cs, ds, a, rfl, hafter, hlist⟩ := h.exists_children hls hf
  cases cs with
  | nil => exact absurd rfl hne
  | cons x cs =>
    rcases hlist with ⟨head, cs', hcs, hstyle⟩ | ⟨body, hb, hcs⟩
    · obtain ⟨rfl, -⟩ := List.cons.inj hcs
      exact ⟨head, rfl, hstyle⟩
    · -- a wrapper has no second child
      have hds : ds = [] := by
        have hrest := (List.cons.inj hcs).2
        exact (List.append_eq_nil_iff.mp hrest).2
      subst hds
      obtain ⟨rfl, -⟩ := List.cons.inj hafter
      exact absurd rfl hl

theorem openersLead (h : CompactOrWrapper c ls) : OpenersLead ls := by
  intro u v hls
  have hf : (enclosing (u ++ [.opener])).head? = some .missing := by
    simp [enclosing, enclosingAfter, Lexeme.opener]
  have hls' : ls = u ++ [.opener] ++ v := by simp [hls]
  obtain ⟨l, v', rfl, hl, -⟩ := h.exists_firstChild hls' hf
  exact ⟨l, v', rfl, hl⟩

theorem not_anyShortform (h : CompactOrWrapper c ls) (hls : ls = before ++ after) :
    ¬ AnyShortform c (enclosing before) := by
  induction before using List.reverseRecOn generalizing after with
  | nil => simp [AnyShortform, enclosing]
  | append_singleton before l ih =>
    have hls' : ls = before ++ l :: after := by simp [hls]
    intro hany
    rw [enclosing, List.foldl_append] at hany
    rcases anyShortform_enclosingAfter hany with hany | ⟨hr, hf, hstyle⟩
    · exact ih hls' hany
    · obtain ⟨x, v, hv, -, hcompact⟩ := h.exists_firstChild hls' hf
      obtain ⟨rfl, -⟩ := List.cons.inj hv
      exact absurd (hstyle.symm.trans (hcompact hr)) (by simp)

end CompactOrWrapper

/-! ## Room for a child -/

namespace Sheet

variable {s : Sheet} {l : Lexeme} {o : OpenList} {os : List OpenList}

/-- A space goes before a child of a list that has children already. -/
theorem exists_lists_of_space {ls : List Lexeme} (hl : l.role ≠ .closer)
    (hg : s.gapAhead l ls = .space) : ∃ o os, s.lists = o :: os ∧ o.children ≠ 0 := by
  cases hs : s.lists with
  | nil =>
    exfalso
    cases hr : l.role with
    | closer => exact hl hr
    | opener => by_cases hcol : 0 < s.cursor.column <;> simp [gapAhead, gap?, hs, hr, hcol] at hg
    | atom => by_cases hcol : 0 < s.cursor.column <;> simp [gapAhead, gap?, hs, hr, hcol] at hg
  | cons o os =>
    refine ⟨o, os, rfl, fun hz => ?_⟩
    cases hr : l.role with
    | closer => exact hl hr
    | opener => exact absurd hg (by simp [gapAhead, gap?, hs, hr, hz])
    | atom => exact absurd hg (by simp [gapAhead, gap?, hs, hr, hz])

/-- A space goes before a child of a compact list only with room for it and the closers due. -/
theorem le_of_compactGap {c : Settings} (hs : s.lists = o :: os) (ho : o.Packs c) {w : Nat}
    (hg : s.compactGap w = .space) :
    s.cursor.column + 1 + w + closersOf s.lists ≤ c.columnLimit := by
  have hroom : s.hasRoom w = true := by
    cases hr : s.hasRoom w with
    | true => rfl
    | false => exact absurd hg (by simp [compactGap, hr])
  rw [hasRoom_iff hs, ho.settings_eq] at hroom
  exact hroom

end Sheet

namespace CompactOrWrapper

variable {s : Settings} {text : List Char} {u v : List Piece} {l : Lexeme}

/-- A space stands only in compact lists. -/
theorem exists_packs_of_space (h : CompactOrWrapper s (lexemes text))
    (hp : reflowPieces s text = u ++ .space :: .lexeme l :: v) (hl : l.role ≠ .closer) :
    (∃ f fs, enclosing (lexemesOf u) = f :: fs ∧ f ≠ .missing) ∧
      ∃ o os, (sheetAt s (lexemesOf u) (l :: lexemesOf v)).lists = o :: os ∧ o.Packs s := by
  obtain ⟨htext, hg, -⟩ := gapAhead_of_space s hp
  obtain ⟨o, os, hs, hz⟩ := Sheet.exists_lists_of_space hl hg
  have hm := mirrors_sheetAt s (lexemesOf u) (l :: lexemesOf v)
  rw [hs] at hm
  generalize hfs : enclosing (lexemesOf u) = fs at hm
  cases hm with
  | @cons _ _ f fs ho _ =>
    have hne : f ≠ .missing := fun hf => hz (ho.children_eq_zero.mpr hf)
    have hhead : (enclosing (lexemesOf u)).head? = some f := by rw [hfs, List.head?_cons]
    obtain ⟨head, rfl, hstyle⟩ := h.exists_compact_head htext hl hhead hne
    exact ⟨⟨_, fs, rfl, hne⟩,
      exists_packs_sheetAt s hhead hstyle (h.not_anyShortform htext) (l :: lexemesOf v)⟩

theorem le_of_space_atom (h : CompactOrWrapper s (lexemes text))
    (hp : reflowPieces s text = u ++ .space :: .lexeme l :: v) (hl : l.role = .atom) :
    (Cursor.advancePieces {} u).column + 1 + l.width + compactAround s (enclosing (lexemesOf u)) ≤
      s.columnLimit := by
  obtain ⟨-, hg, hcursor⟩ := gapAhead_of_space s hp
  obtain ⟨-, o, os, hs, ho⟩ := h.exists_packs_of_space hp (by simp [hl])
  obtain ⟨t, rfl⟩ : ∃ t, l = .atom t := by
    obtain ⟨role, t⟩ := l
    obtain rfl : role = .atom := hl
    exact ⟨t, rfl⟩
  rw [Sheet.gapAhead_atom hs ho] at hg
  have hle := Sheet.le_of_compactGap hs ho hg
  rwa [hcursor, (mirrors_sheetAt s _ _).closersOf_eq] at hle

/-- The list that an opener behind a space begins has room on the line up to its closer. -/
theorem le_of_space_opener (h : CompactOrWrapper s (lexemes text))
    (hp : reflowPieces s text = u ++ .space :: .lexeme .opener :: v) :
    ∃ ys a, lexemesOf v = ys ++ .closer :: a ∧
      (Cursor.advancePieces {} u).column + 1 + oneLineWidth (.opener :: (ys ++ [.closer])) +
        compactAround s (enclosing (lexemesOf u)) ≤ s.columnLimit := by
  obtain ⟨htext, hg, hcursor⟩ := gapAhead_of_space s hp
  obtain ⟨-, o, os, hs, ho⟩ := h.exists_packs_of_space hp (by simp [Lexeme.opener])
  have hcut : lexemes text = lexemesOf u ++ [.opener] ++ lexemesOf v := by simp [htext]
  rcases h.balanced.append_cases hcut with ⟨hx, -⟩ | ⟨b, xs, ys, a, -, hv, -, hy⟩
  · -- behind the opener a list is open
    have hzero := hx.nesting_eq 0
    rw [nesting_append] at hzero
    exact absurd hzero (by simp [Lexeme.depthAfter, Lexeme.opener])
  · refine ⟨ys, a, hv, ?_⟩
    rw [hv] at hg hs hcursor
    rw [Sheet.gapAhead_list hs ho hy] at hg
    have hle := Sheet.le_of_compactGap hs ho hg
    rwa [hcursor, (mirrors_sheetAt s _ _).closersOf_eq] at hle

end CompactOrWrapper

/-! ## An atom behind openers -/

theorem oneLineWidthAfter_openers (n : Nat) (l : Lexeme) :
    oneLineWidthAfter .opener (List.replicate n .opener ++ [l]) = n + l.width := by
  have hspaced : ∀ x : Lexeme, Lexeme.opener.spaced x = false := fun _ => rfl
  induction n with
  | zero => simp [oneLineWidthAfter, hspaced]
  | succ n ih =>
    have hopener : Lexeme.opener.multiline = false := rfl
    rw [List.replicate_succ, List.cons_append, oneLineWidthAfter, ih, hspaced, hopener,
      Lexeme.width_opener]
    simp only [Bool.false_eq_true, if_false]
    omega

/-- A list that begins with openers and an atom is wider than these, if it is closed. -/
theorem lt_oneLineWidth {n : Nat} {l : Lexeme} {ys a rest : List Lexeme}
    (h : ys ++ .closer :: a = List.replicate n .opener ++ l :: rest) (hl : l.role = .atom)
    (hm : ∀ x ∈ ys, x.multiline = false) :
    n + 1 + l.width < oneLineWidth (.opener :: (ys ++ [.closer])) := by
  obtain ⟨zs, rfl⟩ : ∃ zs, ys = List.replicate n .opener ++ [l] ++ zs := by
    have hsplit : ys ++ .closer :: a = List.replicate n .opener ++ [l] ++ rest := by simp [h]
    rcases List.append_eq_append_iff.mp hsplit with ⟨u, hu, hc⟩ | ⟨zs, hz, -⟩
    · rcases List.cons_eq_append_iff.mp hc with ⟨rfl, -⟩ | ⟨u, rfl, -⟩
      · exact ⟨[], by simpa using hu.symm⟩
      · -- the closer would be among the openers, or the atom
        have hmem : Lexeme.closer ∈ List.replicate n Lexeme.opener ++ [l] := by simp [hu]
        rcases List.mem_append.mp hmem with hmem | hmem
        · exact absurd (List.eq_of_mem_replicate hmem) (by decide)
        · rw [← List.mem_singleton.mp hmem] at hl
          exact absurd hl (by decide)
    · exact ⟨zs, hz⟩
  have hall : ∀ x ∈ .opener :: (List.replicate n .opener ++ [l] ++ zs), x.multiline = false :=
    List.forall_mem_cons.mpr ⟨rfl, hm⟩
  have hclosed := @oneLineWidthAfter_concat .opener _ _ .closer rfl hall
  have hopened := oneLineWidthAfter_openers (n + 1) l
  have hle := oneLineWidthAfter_le_append .opener (List.replicate (n + 1) .opener ++ [l]) zs
  rw [hopened, List.replicate_succ, List.cons_append, List.cons_append] at hle
  rw [Lexeme.spaced_closer, Lexeme.width_closer, List.cons_append] at hclosed
  rw [oneLineWidth_eq, hclosed]
  simp only [Bool.false_eq_true, if_false]
  omega

theorem compactAround_cons_le (c : Settings) (f : FirstChild) (fs : List FirstChild) :
    compactAround c (f :: fs) ≤ compactAround c fs + 1 := by
  unfold compactAround
  rw [List.takeWhile_cons]
  split <;> simp

/-- Openers that follow one another open wrappers, all but the last of them. -/
theorem enclosing_openers {c : Settings} {before : List Lexeme} {f : FirstChild}
    {fs : List FirstChild} (h : enclosing before = f :: fs) (hf : f ≠ .missing) (n : Nat) :
    ∃ gs, enclosing (before ++ List.replicate (n + 1) .opener) = .missing :: gs ∧
      compactAround c gs ≤ compactAround c (f :: fs) := by
  have hopen : ∀ xs, enclosing (xs ++ [.opener]) =
      .missing :: (enclosing xs).modifyHead (·.orElse .list) := by
    intro xs
    rw [enclosing, List.foldl_append]
    rfl
  cases n with
  | zero =>
    refine ⟨f :: fs, ?_, Nat.le_refl _⟩
    rw [List.replicate_one, hopen, h, List.modifyHead_cons, FirstChild.orElse_of_ne_missing hf]
  | succ n =>
    rw [List.replicate_succ', ← List.append_assoc, hopen, List.replicate_succ',
      ← List.append_assoc, hopen]
    exact ⟨_, rfl, by simp [compactAround, FirstChild.orElse, FirstChild.style]⟩

theorem enclosing_concat_atom (before : List Lexeme) {l : Lexeme} (hl : l.role = .atom) :
    enclosing (before ++ [l]) = (enclosing before).modifyHead (·.orElse (.atom l.text)) := by
  rw [enclosing, List.foldl_append, List.foldl_cons, enclosingAfter, hl]
  rfl

/-- **Behind a space there is room for openers and an atom**, and for the closers of the compact
lists that are then around it. -/
theorem CompactOrWrapper.le_columnLimit {s : Settings} {text : List Char} {u v : List Piece}
    {l : Lexeme} {m : Nat} (h : CompactOrWrapper s (lexemes text))
    (hp : reflowPieces s text =
      u ++ .space :: (List.replicate m (.lexeme .opener) ++ .lexeme l :: v)) (hl : l.role = .atom) :
    (Cursor.advancePieces {} u).column + 1 + m + l.width +
        compactAround s (enclosing (lexemesOf u ++ List.replicate m .opener ++ [l])) ≤
      s.columnLimit := by
  cases m with
  | zero =>
    have hle := h.le_of_space_atom hp hl
    obtain ⟨⟨f, fs, hfs, hf⟩, -⟩ := h.exists_packs_of_space hp (by simp [hl])
    rw [List.replicate_zero, List.append_nil, enclosing_concat_atom _ hl, hfs,
      List.modifyHead_cons, FirstChild.orElse_of_ne_missing hf, ← hfs]
    omega
  | succ n =>
    rw [List.replicate_succ, List.cons_append] at hp
    obtain ⟨ys, a, hv, hle⟩ := h.le_of_space_opener hp
    obtain ⟨⟨f, fs, hfs, hf⟩, -⟩ := h.exists_packs_of_space hp (by simp [Lexeme.opener])
    obtain ⟨gs, hgs, hgsle⟩ := enclosing_openers (c := s) hfs hf n
    have hy : ys ++ .closer :: a = List.replicate n .opener ++ l :: lexemesOf v := by
      rw [← hv]
      simp
    have hm : ∀ x ∈ ys, x.multiline = false := by
      intro x hx
      refine h.not_multiline x ?_
      rw [← lexemesOf_reflowPieces s, hp]
      simp [hv, hx]
    have hwidth := lt_oneLineWidth hy hl hm
    have hcons := compactAround_cons_le s (.atom l.text) gs
    rw [enclosing_concat_atom _ hl, hgs, List.modifyHead_cons]
    rw [hfs] at hle
    simp only [FirstChild.orElse]
    omega

/-! ## Lines with several atoms -/

/-- Something else comes before the copies of an element that a list ends with. -/
theorem eq_replicate_or_exists {α : Type} (x : α) (xs : List α) :
    (∃ n, xs = List.replicate n x) ∨ ∃ ys y n, xs = ys ++ y :: List.replicate n x ∧ y ≠ x := by
  classical
  induction xs using List.reverseRecOn with
  | nil => exact .inl ⟨0, rfl⟩
  | append_singleton xs z ih =>
    by_cases hz : z = x
    · subst hz
      rcases ih with ⟨n, rfl⟩ | ⟨ys, y, n, rfl, hy⟩
      · exact .inl ⟨n + 1, List.replicate_succ'.symm⟩
      · exact .inr ⟨ys, y, n + 1, by simp [List.replicate_succ'], hy⟩
    · exact .inr ⟨xs, z, 0, by simp, hz⟩

/-- The number of atoms in a text. -/
def atomCount (text : List Char) : Nat := (lexemes text).countP fun l => l.role = .atom

/-- **A line with several atoms ends with an atom and closers.** The atom stands behind openers and
a space, for something on the line comes before it. -/
theorem CompactOrWrapper.exists_line_end {s : Settings} {text : List Char} {qs mid rs : List Piece}
    (h : CompactOrWrapper s (lexemes text)) (hline : LinePieces (reflowPieces s text) qs mid rs)
    (hatoms : 1 < (lexemesOf mid).countP fun l => l.role = .atom) :
    ∃ ps m l k, mid = ps ++ .space :: (List.replicate m (.lexeme .opener) ++
      .lexeme l :: List.replicate k (.lexeme .closer)) ∧ l.role = .atom := by
  have hset := setOff_reflowPieces s h.openersLead
  have hproper : ∀ l, .lexeme l ∈ mid → l.Proper := by
    intro l hl
    have hmid : l ∈ lexemesOf mid := List.mem_filterMap.mpr ⟨_, hl, rfl⟩
    have hmem : l ∈ lexemes text := by
      rw [← lexemesOf_reflowPieces s, hline.eq]
      simp [hmid]
    exact proper_of_mem_lexemes l hmem
  rw [hline.eq] at hset
  rcases eq_replicate_or_exists (.lexeme .closer) mid with ⟨n, rfl⟩ | ⟨ps, p, k, rfl, hp⟩
  · exact absurd hatoms (by simp [List.countP_replicate, Lexeme.closer])
  obtain ⟨l, rfl, hl⟩ : ∃ l : Lexeme, p = .lexeme l ∧ l.role = .atom := by
    have hset' : SetOff (qs ++ ps ++ p :: (List.replicate k (.lexeme .closer) ++ rs)) := by
      simpa using hset
    exact hset'.exists_atom hline.ends (hline.inner p (by simp)) hp
      fun x hx => hproper x (by simp [hx])
  -- there is another atom on the line, so it does not begin with these openers
  rcases eq_replicate_or_exists (.lexeme .opener) ps with ⟨n, rfl⟩ | ⟨ps, q, m, rfl, hq⟩
  · exact absurd hatoms
      (by simp [List.countP_replicate, Lexeme.opener, Lexeme.closer, hl])
  obtain rfl : q = .space := by
    have hset' : SetOff (qs ++ ps ++ q :: (List.replicate m (.lexeme .opener) ++
        .lexeme l :: (List.replicate k (.lexeme .closer) ++ rs))) := by
      simpa using hset
    exact hset'.eq_space hl (hline.inner q (by simp)) hq fun x hx => hproper x (by simp [hx])
  exact ⟨ps, m, l, k, by simp, hl⟩

/-- A delimiter takes one column, wherever it stands. -/
theorem Cursor.advancePieces_delimiters {l : Lexeme} (hw : l.width = 1)
    (hm : l.multiline = false) (k : Cursor) (n : Nat) :
    k.advancePieces (List.replicate n (.lexeme l)) = ⟨k.line, k.column + n⟩ := by
  induction n generalizing k with
  | zero => rfl
  | succ n ih =>
    have hstep : k.nextPiece (.lexeme l) = ⟨k.line, k.column + 1⟩ := by
      rw [nextPiece, advance_text hm, hw]
    have hcons : k.advancePieces (List.replicate (n + 1) (.lexeme l)) =
        (k.nextPiece (.lexeme l)).advancePieces (List.replicate n (.lexeme l)) := by
      rw [List.replicate_succ]
      rfl
    rw [hcons, hstep, ih]
    simp only [Cursor.mk.injEq, true_and]
    omega

theorem Cursor.column_line_end {l : Lexeme} (hm : l.multiline = false) (c : Cursor) (m k : Nat) :
    (c.advancePieces (.space :: (List.replicate m (.lexeme .opener) ++
      .lexeme l :: List.replicate k (.lexeme .closer)))).column =
        c.column + 1 + m + l.width + k := by
  have hspace : ∀ ps, c.advancePieces (.space :: ps) =
      (Cursor.mk c.line (c.column + 1)).advancePieces ps := fun _ => rfl
  have hlexeme : ∀ (c : Cursor) ps, c.advancePieces (.lexeme l :: ps) =
      (c.advance l.text).advancePieces ps := fun _ _ => rfl
  rw [hspace, advancePieces_append, advancePieces_delimiters rfl rfl, hlexeme, advance_text hm,
    advancePieces_delimiters rfl rfl]

/-- **A line with several atoms exceeds the column limit only by closers that no room was left
for.** Let every list be compact or a wrapper. A line with several atoms ends with an atom and so
many closers; up to the number of compact lists around the atom, innermost first and without a
wrapper between them, these are within the limit. -/
theorem line_within_limit [Memory] (s : Settings) (text : List Char)
    (h : CompactOrWrapper s (lexemes text)) (a line b : List Char)
    (hline : IsLine (reflow s text) a line b) (hatoms : 1 < atomCount line) :
    (∃ before l k, lexemes (a ++ line) = before ++ l :: List.replicate k .closer ∧
      l.role = .atom ∧
      line.length ≤ s.columnLimit + (k - compactAround s (enclosing (before ++ [l])))) ∧
    (reflowWithin s text).result = text? (reflowPieces s text) := by
  refine ⟨?_, result_reflowWithin s text⟩
  have hall := lexemesOf_reflowPieces s text
  have hread := readable_reflowPieces s text
  obtain ⟨qs, mid, rs, hpieces, htext, hlexemes⟩ :=
    IsLine.exists_pieces (by rw [hall]; exact h.not_multiline) hline
  rw [atomCount, hlexemes, (hread.of_infix hpieces.eq).lexemes_textOf] at hatoms
  have hfrom : reflowPieces s text = [] ++ (qs ++ mid) ++ rs := hpieces.eq
  have hprefix := (hread.of_infix hfrom).lexemes_textOf
  obtain ⟨ps, m, l, k, rfl, hl⟩ := h.exists_line_end hpieces hatoms
  have hm : l.multiline = false := by
    refine h.not_multiline l ?_
    rw [← hall, hpieces.eq]
    simp
  have hplace : reflowPieces s text = qs ++ ps ++ .space ::
      (List.replicate m (.lexeme .opener) ++
        .lexeme l :: (List.replicate k (.lexeme .closer) ++ rs)) := by
    simp [hpieces.eq]
  have hle := h.le_columnLimit hplace hl
  have hcolumn := hline.column_eq
  rw [← htext, ← Cursor.advancePieces_eq, ← List.append_assoc, Cursor.advancePieces_append,
    Cursor.column_line_end hm] at hcolumn
  refine ⟨lexemesOf (qs ++ ps) ++ List.replicate m .opener, l, k, ?_, hl, ?_⟩
  · rw [← htext, hprefix]
    simp
  · omega

/-- Settings that leave six columns to lists headed by `p`. -/
def sixColumns : Settings :=
  { narrow with
    columnLimit := 6
    columnLimit_pos := Nat.succ_pos 5 }

/-- A compact list in a wrapper, which takes seven columns. -/
def wrappedPair : List Char := "((p a))".toList

theorem lexemes_wrappedPair :
    lexemes wrappedPair = [.opener, .opener, .atom ['p'], .atom ['a'], .closer, .closer] := by
  decide

theorem compactOrWrapper_wrappedPair : CompactOrWrapper sixColumns (lexemes wrappedPair) := by
  rw [lexemes_wrappedPair]
  refine ⟨?_, by decide, fun before cs after hls => ?_⟩
  · have hpair : Balanced [.atom ['p'], .atom ['a']] := .atom rfl (.atom rfl .nil)
    exact .list (.list hpair .nil) .nil
  rw [append_completeList] at hls
  rcases before with _ | ⟨x, _ | ⟨y, before⟩⟩
  · -- the wrapper
    have hbody := (List.cons.inj hls).2
    rcases cs with _ | ⟨⟨t⟩ | ⟨body, hb⟩, cs⟩
    · exact absurd (List.cons.inj hbody).1 (by decide)
    · have hrole := congrArg Lexeme.role (List.cons.inj hbody).1
      exact absurd hrole (by simp [Lexeme.opener, Lexeme.atom])
    · have hlist : [.atom ['p'], .atom ['a'], .closer, .closer] =
          body ++ .closer :: (lexemesOfChildren cs ++ .closer :: after) := by
        simpa [Child.lexemes] using hbody
      rcases body with _ | ⟨x, _ | ⟨y, _ | ⟨z, body⟩⟩⟩
      · exact absurd (List.cons.inj hlist).1 (by decide)
      · exact absurd (List.cons.inj (List.cons.inj hlist).2).1 (by decide)
      · have hrest := (List.cons.inj (List.cons.inj (List.cons.inj hlist).2).2).2
        rcases cs with _ | ⟨c, cs⟩
        · exact .inr ⟨_, hb, rfl⟩
        · have hlen := congrArg List.length hrest
          cases c <;> simp [Child.lexemes] at hlen
      · have hlen := congrArg List.length hlist
        simp only [List.length_cons, List.length_append, List.length_nil] at hlen
        omega
  · -- the compact list
    have hbody := (List.cons.inj (List.cons.inj hls).2).2
    rcases cs with _ | ⟨⟨t⟩ | ⟨body, hb⟩, cs⟩
    · exact absurd (List.cons.inj hbody).1 (by decide)
    · obtain rfl : ['p'] = t := congrArg Lexeme.text (List.cons.inj hbody).1
      exact .inl ⟨_, _, rfl, by decide⟩
    · exact absurd (List.cons.inj hbody).1 (by decide)
  · have hrest := (List.cons.inj (List.cons.inj hls).2).2
    have hmem : Lexeme.opener ∈ [.atom ['p'], .atom ['a'], .closer, .closer] := by
      rw [hrest]
      simp
    exact absurd hmem (by decide)

theorem isLine_wrappedPair : IsLine (reflow sixColumns wrappedPair) [] wrappedPair ['\n'] := by
  have hreflow : reflow sixColumns wrappedPair = [] ++ wrappedPair ++ ['\n'] := by decide +kernel
  exact ⟨hreflow, by simp, by simp, by decide⟩

/-- The atom `a` ends at the fifth column, and room is left for one closer of two. -/
theorem line_within_limit_wrappedPair :
    atomCount wrappedPair = 2 ∧ wrappedPair.length = sixColumns.columnLimit + 1 ∧
      ∃ before l k, lexemes wrappedPair = before ++ l :: List.replicate k .closer ∧
        l.role = .atom ∧
        wrappedPair.length ≤
          sixColumns.columnLimit + (k - compactAround sixColumns (enclosing (before ++ [l]))) :=
  ⟨by decide, by decide, (@line_within_limit .small sixColumns wrappedPair
    compactOrWrapper_wrappedPair [] wrappedPair ['\n'] isLine_wrappedPair (by decide)).1⟩

/-- **A wrapper takes a line beyond the column limit**, although it has more than one atom. -/
theorem wrapper_exceeds_limit :
    ¬ ∀ (s : Settings) (text : List Char), CompactOrWrapper s (lexemes text) →
      ∀ a line b, IsLine (reflow s text) a line b → s.columnLimit < line.length →
        atomCount line ≤ 1 := by
  intro h
  have hone := h sixColumns wrappedPair compactOrWrapper_wrappedPair [] wrappedPair ['\n']
    isLine_wrappedPair (by decide)
  exact absurd hone (by decide)

end SExprReflow
