import SExprReflow.Proofs.Parts
import SExprReflow.Proofs.Within

/-!
# Compact lists stay within the column limit

A compact list puts as many of its items on a line as the column limit leaves room for, and its
closers count as well, although they are printed much later. So on each line that a compact list has
lexemes on, these end within the limit, or there is only one item of it on the line: an item that is
too wide for any line cannot be split.

While the list is printed, `Fits` says that the column reached leaves room for the closers that are
due, or that there is one item on the line so far. Opening a compact list makes one more closer due,
and the width that its opener was placed by has room for that.
-/

namespace SExprReflow

open Piece

/-! ## Room for the closers -/

/-- Parts end within the limit on a line, or one item of them is on it. -/
def LineFits (limit : Nat) (xs : List (Part × List Cursor)) (line : Nat) : Prop :=
  (∀ x ∈ xs, ∀ e ∈ x.2, e.line = line → e.column ≤ limit) ∨ itemsOn xs line = 1

theorem LineFits.append {limit line : Nat} {xs ys : List (Part × List Cursor)}
    (h : LineFits limit xs line) (hy : ∀ y ∈ ys, ∀ e ∈ y.2, e.line ≠ line) :
    LineFits limit (xs ++ ys) line := by
  rcases h with h | h
  · left
    intro x hx e he heq
    rcases List.mem_append.mp hx with hx | hx
    · exact h x hx e he heq
    · exact absurd heq (hy x hx e he)
  · right
    rw [itemsOn_append, h, itemsOn_eq_zero hy]

/-- The parts `xs` end at `k` and fit on all earlier lines. On the last line there is room for the
closers that are due, or one item of them is on it. -/
structure Fits (limit due : Nat) (k : Cursor) (xs : List (Part × List Cursor)) : Prop where
  upto : ∀ x ∈ xs, ∀ e ∈ x.2, e.line < k.line ∨ e.line = k.line ∧ e.column ≤ k.column
  lines : ∀ line < k.line, LineFits limit xs line
  last : k.column + due ≤ limit ∨ itemsOn xs k.line = 1

/-- Parts of one line, up to `k`. -/
def OnLine (k : Cursor) (xs : List (Part × List Cursor)) : Prop :=
  ∀ x ∈ xs, ∀ e ∈ x.2, e.line = k.line ∧ e.column ≤ k.column

namespace Fits

variable {limit due due' : Nat} {k k' : Cursor} {xs ys : List (Part × List Cursor)}

theorem lineFits (h : Fits limit due k xs) (line : Nat) : LineFits limit xs line := by
  rcases Nat.lt_trichotomy line k.line with hlt | rfl | hgt
  · exact h.lines line hlt
  · rcases h.last with hle | hone
    · left
      intro x hx e he heq
      have := h.upto x hx e he
      omega
    · exact .inr hone
  · left
    intro x hx e he heq
    have := h.upto x hx e he
    omega

/-- A single item takes as much room as it needs. -/
theorem one (h : OnLine k xs) (hone : itemsOn xs k.line = 1) : Fits limit due k xs where
  upto x hx e he := .inr (h x hx e he)
  lines line hline := by
    left
    intro x hx e he heq
    have := (h x hx e he).1
    omega
  last := .inr hone

/-- More parts, all of them on one line. -/
theorem append (h : Fits limit due k xs) (hy : OnLine k' ys)
    (hk : k.line < k'.line ∨ k.line = k'.line ∧ k.column ≤ k'.column)
    (hlast : k'.column + due' ≤ limit ∨ itemsOn (xs ++ ys) k'.line = 1) :
    Fits limit due' k' (xs ++ ys) where
  upto x hx e he := by
    rcases List.mem_append.mp hx with hx | hx
    · have := h.upto x hx e he
      omega
    · exact .inr (hy x hx e he)
  lines line hlt := by
    refine (h.lineFits line).append fun y hy' e he => ?_
    have := (hy y hy' e he).1
    omega
  last := hlast

/-- A single item on a new line. -/
theorem newLine (h : Fits limit due k xs) (hy : OnLine k' ys) (hk : k.line < k'.line)
    (hone : itemsOn ys k'.line = 1) : Fits limit due' k' (xs ++ ys) := by
  have hzero : itemsOn xs k'.line = 0 := by
    refine itemsOn_eq_zero fun x hx e he heq => ?_
    have := h.upto x hx e he
    omega
  refine h.append hy (.inl hk) (.inr ?_)
  rw [itemsOn_append, hzero, hone]

end Fits

/-- Parts that follow one another on a line, with a single item among them. -/
structure Chunk (ps : List Part) : Prop where
  not_multiline : ∀ l ∈ lexemesOfParts ps, l.multiline = false
  ne_nil : ∀ p ∈ ps, p.lexemes ≠ []
  one : ps.countP Part.isItem = 1

namespace Chunk

variable {ps : List Part}

theorem onLine (h : Chunk ps) (k : Cursor) :
    OnLine ⟨k.line, k.column + oneLineWidth (lexemesOfParts ps)⟩
      (placed ps (k.ends (flatPieces .opener (lexemesOfParts ps)))) := by
  intro x hx e he
  rw [oneLineWidth_eq]
  exact Cursor.mem_ends_flatPieces h.not_multiline (mem_of_mem_placed hx he)

theorem itemsOn_eq (h : Chunk ps) (k : Cursor) :
    itemsOn (placed ps (k.ends (flatPieces .opener (lexemesOfParts ps)))) k.line = 1 := by
  rw [itemsOn_placed h.ne_nil, h.one]
  · exact fun e he => (Cursor.mem_ends_flatPieces h.not_multiline he).1
  · rw [Cursor.length_ends, lexemesOf_flatPieces]

theorem advancePieces_eq (h : Chunk ps) (k : Cursor) (s : Sheet) (depth : Nat) (g : Gap) :
    k.advancePieces (s.gapPieces depth g ++ flatPieces .opener (lexemesOfParts ps)) =
      ⟨(k.advancePieces (s.gapPieces depth g)).line,
        (k.advancePieces (s.gapPieces depth g)).column + oneLineWidth (lexemesOfParts ps)⟩ := by
  rw [Cursor.advancePieces_append, Cursor.advancePieces_flatPieces h.not_multiline,
    ← oneLineWidth_eq]

/-- The first chunk may stand anywhere. -/
theorem fits (h : Chunk ps) (limit due : Nat) (k : Cursor) (s : Sheet) (depth : Nat) (g : Gap) :
    Fits limit due
      (k.advancePieces (s.gapPieces depth g ++ flatPieces .opener (lexemesOfParts ps)))
      (placed ps (k.ends (s.gapPieces depth g ++ flatPieces .opener (lexemesOfParts ps)))) := by
  rw [Cursor.ends_gapPieces_append, h.advancePieces_eq]
  exact .one (h.onLine _) (h.itemsOn_eq _)

end Chunk

/-- **A chunk goes on a new line, or where there is room for it and the closers due behind it.** -/
theorem Fits.chunk {limit due due' : Nat} {k : Cursor} {xs : List (Part × List Cursor)}
    {ps : List Part} (h : Fits limit due k xs) (hc : Chunk ps) (s : Sheet) (depth : Nat) {g : Gap}
    (hg : g = .line ∨
      g = .space ∧ k.column + 1 + oneLineWidth (lexemesOfParts ps) + due' ≤ limit) :
    Fits limit due'
      (k.advancePieces (s.gapPieces depth g ++ flatPieces .opener (lexemesOfParts ps)))
      (xs ++ placed ps
        (k.ends (s.gapPieces depth g ++ flatPieces .opener (lexemesOfParts ps)))) := by
  rw [Cursor.ends_gapPieces_append, hc.advancePieces_eq]
  generalize hk : k.advancePieces (s.gapPieces depth g) = k'
  rcases hg with rfl | ⟨rfl, hroom⟩
  · obtain rfl : ⟨k.line + 1, (s.settings.indent depth).size⟩ = k' := hk
    exact h.newLine (hc.onLine _) (Nat.lt_succ_self _) (hc.itemsOn_eq _)
  · obtain rfl : ⟨k.line, k.column + 1⟩ = k' := hk
    exact h.append (hc.onLine _) (.inr ⟨rfl, by simp only; omega⟩) (.inl hroom)

/-! ## Inside a compact list -/

/-- An open list that packs its children. -/
structure OpenList.Packs (c : Settings) (o : OpenList) : Prop where
  settings_eq : o.settings = c
  style_eq : o.style = some .compact
  onOneLine_eq : o.onOneLine = false
  children_ne_zero : o.children ≠ 0

/-- A list packs its children once it has a compact head. -/
theorem OpenList.packs_afterAtom {c : Settings} {o : OpenList} {head : List Char}
    (hz : o.children = 0) (hset : o.settings = c) (hone : o.onOneLine = false)
    (hstyle : c.styleOf head = .compact) (g : Gap) : (o.afterAtom g head).Packs c where
  settings_eq := by simp [hset]
  style_eq := by simp [style_afterAtom, hz, hset, hstyle]
  onOneLine_eq := by simp [onOneLine_afterAtom, hone, hset, hstyle]
  children_ne_zero := by simp [children_afterAtom]

theorem OpenList.Packs.afterAtom {c : Settings} {o : OpenList} (h : o.Packs c) (g : Gap)
    (text : List Char) : (o.afterAtom g text).Packs c := by
  obtain ⟨hset, hstyle, hone, hz⟩ := h
  exact ⟨by simp [hset], by simp [style_afterAtom, hz, hstyle],
    by simp [onOneLine_afterAtom, hone, hz], by simp [children_afterAtom]⟩

theorem OpenList.Packs.afterList {c : Settings} {o : OpenList} (h : o.Packs c) :
    o.afterList.Packs c := by
  obtain ⟨hset, hstyle, hone, hz⟩ := h
  exact ⟨by simp [hset], by simp [style_afterList, hz, hstyle], by simp [hone],
    by simp [children_afterList]⟩

/-- The innermost so many lists pack their children. -/
inductive Packing (c : Settings) : Nat → List OpenList → Prop where
  | outside {os : List OpenList} : Packing c 0 os
  | inside {o : OpenList} {os : List OpenList} {n : Nat} : o.Packs c → Packing c n os →
      Packing c (n + 1) (o :: os)

theorem Packing.exists_cons {c : Settings} {n : Nat} {os : List OpenList}
    (h : Packing c (n + 1) os) : ∃ o os', os = o :: os' ∧ o.Packs c ∧ Packing c n os' := by
  cases h with
  | inside ho hos => exact ⟨_, _, rfl, ho, hos⟩

namespace Sheet

/-- A closer is due for each list that packs its children. -/
theorem le_closersDue {c : Settings} {s : Sheet} {n : Nat} (h : Packing c n s.lists) :
    n ≤ s.closersDue := by
  unfold closersDue
  generalize s.lists = os at h
  induction h with
  | outside => exact Nat.zero_le _
  | inside ho _ ih => simpa [ho.style_eq] using ih

/-- A child goes on the line only with room for the closers due. -/
theorem compactGap_cases {c : Settings} {s : Sheet} {n : Nat} (h : Packing c (n + 1) s.lists)
    (w : Nat) :
    s.compactGap w = .line ∨
      s.compactGap w = .space ∧ s.cursor.column + 1 + w + (n + 1) ≤ c.columnLimit := by
  unfold compactGap
  cases hr : s.hasRoom w with
  | false => exact .inl rfl
  | true =>
    refine .inr ⟨rfl, ?_⟩
    have hdue := le_closersDue h
    generalize hs : s.lists = os at h
    cases h with
    | inside ho _ =>
      simp only [hasRoom, hasRoom?, hs, List.head?_cons, Option.map_some, ho.settings_eq,
        decide_eq_true_eq, Option.some.injEq] at hr
      omega

end Sheet

/-- A sheet inside compact lists, with the parts printed of the outermost of them. -/
structure Filled (c : Settings) (due : Nat) (s : Sheet) (xs : List (Part × List Cursor)) : Prop where
  settings_eq : s.settings = c
  outer : s.OuterBegun
  packing : Packing c due s.lists
  fits : Fits c.columnLimit due s.cursor xs

/-- Where parts come to stand on a sheet, with `rest` to come behind them. -/
def Sheet.places (s : Sheet) (rest : List Lexeme) (ps : List Part) : List (Part × List Cursor) :=
  placed ps (s.cursor.ends (s.printBefore rest (lexemesOfParts ps)).1)

theorem Sheet.places_append (s : Sheet) (rest : List Lexeme) {ps : List Part}
    (hp : ∀ l ∈ lexemesOfParts ps, l.Proper) (qs : List Part) :
    s.places rest (ps ++ qs) =
      s.places (lexemesOfParts qs ++ rest) ps ++
        (s.printBefore (lexemesOfParts qs ++ rest) (lexemesOfParts ps)).2.places rest qs := by
  rw [places, lexemesOfParts_append, printBefore_append, Cursor.ends_append, placed_append,
    ← cursor_printBefore]
  · rfl
  · rw [Cursor.length_ends, lexemesOf_printBefore s hp]

/-- Printing the parts, with `rest` to come behind them, keeps what is printed in its place. -/
def Fills (c : Settings) (rest : List Lexeme) (due due' : Nat) (ps : List Part) : Prop :=
  ∀ s xs, Filled c due s xs →
    Filled c due' (s.printBefore rest (lexemesOfParts ps)).2 (xs ++ s.places rest ps)

theorem Filled.chunk {c : Settings} {rest : List Lexeme} {due due' : Nat} {s : Sheet}
    {xs : List (Part × List Cursor)} {ps : List Part} {g : Gap} (h : Filled c due s xs)
    (hc : Chunk ps)
    (hg : g = .line ∨ g = .space ∧
      s.cursor.column + 1 + oneLineWidth (lexemesOfParts ps) + due' ≤ c.columnLimit)
    (hp : (s.printBefore rest (lexemesOfParts ps)).1 =
      s.gapPieces s.lists.length g ++ flatPieces .opener (lexemesOfParts ps))
    (hpack : Packing c due' (s.printBefore rest (lexemesOfParts ps)).2.lists) :
    Filled c due' (s.printBefore rest (lexemesOfParts ps)).2 (xs ++ s.places rest ps) where
  settings_eq := by rw [Sheet.settings_printBefore, h.settings_eq]
  outer := Sheet.outerBegun_printBefore h.outer _ _
  packing := hpack
  fits := by
    rw [Sheet.cursor_printBefore, Sheet.places, hp]
    exact h.fits.chunk hc s _ hg

/-- An atom in a compact list is placed by its own width. -/
theorem Sheet.gapAhead_atom {c : Settings} {s : Sheet} {o : OpenList} {os : List OpenList}
    (hs : s.lists = o :: os) (ho : o.Packs c) (text : List Char) (ys : List Lexeme) :
    s.gapAhead (.atom text) ys = s.compactGap (Lexeme.atom text).width := by
  have hz := ho.children_ne_zero
  simp [gapAhead, gap?, hs, Lexeme.atom, hz, ho.onOneLine_eq, ho.style_eq]

/-- The opener of a list in a compact list is placed by the width of the whole list. -/
theorem Sheet.gapAhead_list {c : Settings} {s : Sheet} {o : OpenList} {os : List OpenList}
    (hs : s.lists = o :: os) (ho : o.Packs c) {xs : List Lexeme} (hx : Balanced xs)
    (ys : List Lexeme) :
    s.gapAhead .opener (xs ++ .closer :: ys) =
      s.compactGap (oneLineWidth (.opener :: (xs ++ [.closer]))) := by
  have hz := ho.children_ne_zero
  have hg : s.gap? .opener = none := by
    simp [gap?, hs, Lexeme.opener, hz, ho.onOneLine_eq, ho.style_eq]
  rw [gapAhead, hg, hx.throughCloser_list]

variable {c : Settings}

theorem fills_atom {text : List Char} (hm : (Lexeme.atom text).multiline = false)
    (rest : List Lexeme) (due : Nat) : Fills c rest (due + 1) (due + 1) [.item [.atom text]] := by
  intro s xs h
  obtain ⟨o, os, hs, ho, hos⟩ := h.packing.exists_cons
  have hg := Sheet.gapAhead_atom hs ho text rest
  have hw : oneLineWidth [.atom text] = (Lexeme.atom text).width := by
    simp [oneLineWidth, oneLineWidthAfter]
  refine h.chunk ⟨by simpa [lexemesOfParts, Part.lexemes] using hm, by simp [Part.lexemes], rfl⟩
    (g := s.gapAhead (.atom text) rest) ?_ (List.append_nil _) ?_
  · rw [hg, ← hw]
    exact Sheet.compactGap_cases h.packing _
  · have hlists := s.lists_put_atom (s.gapAhead (.atom text) rest) (l := .atom text) rfl
    rw [hs, List.modifyHead_cons] at hlists
    have hput : (s.printBefore rest [.atom text]).2 =
        s.put (s.gapAhead (.atom text) rest) (.atom text) := rfl
    simp only [lexemesOfParts, List.flatMap_singleton, Part.lexemes, hput, hlists]
    exact .inside (ho.afterAtom _ _) hos

theorem fills_oneLine {ls : List Lexeme} (hl : OneLineList c ls) (rest : List Lexeme) (due : Nat) :
    Fills c rest (due + 1) (due + 1) [.item ls] := by
  cases hl with
  | @mk body hbody hm =>
    intro s xs h
    obtain ⟨o, os, hs, ho, hos⟩ := h.packing.exists_cons
    have hparts : lexemesOfParts [.item (.opener :: body ++ [.closer])] =
        .opener :: (body ++ [.closer]) := by
      simp [lexemesOfParts, Part.lexemes]
    have hrest : body ++ [.closer] ++ rest = body ++ .closer :: rest := by simp
    have hg := Sheet.gapAhead_list hs ho hbody.balanced rest
    have hlists := s.lists_put_opener (s.gapAhead .opener (body ++ .closer :: rest))
      (l := .opener) rfl
    rw [hs, List.modifyHead_cons] at hlists
    obtain ⟨hflat, hlists'⟩ := hbody.flat hm hlists h.settings_eq (by simp [ho.onOneLine_eq])
      (Sheet.behind_put h.outer _ .opener) rest
    refine h.chunk (g := s.gapAhead .opener (body ++ .closer :: rest)) ⟨?_, ?_, rfl⟩ ?_ ?_ ?_
    · rw [hparts]
      exact (OneLineList.mk hbody hm).not_multiline
    · simp [Part.lexemes]
    · rw [hparts, hg]
      exact Sheet.compactGap_cases h.packing _
    · rw [hparts, Sheet.printBefore, hrest, hflat.pieces_eq]
      simp [Sheet.pieces, Lexeme.opener, flatPieces, Lexeme.spaced]
    · rw [hparts, Sheet.printBefore, hrest, hlists']
      exact .inside ho.afterList hos

/-- The first two lexemes of a compact list. -/
theorem Sheet.printBefore_head {s : Sheet} (houter : s.OuterBegun) (hset : s.settings = c)
    (hone : s.lists.head?.any OpenList.onOneLine = false) {head : List Char}
    (hstyle : c.styleOf head = .compact) (rest : List Lexeme) :
    (s.printBefore rest [.opener, .atom head]).1 =
        s.gapPieces s.lists.length (s.gapAhead .opener (.atom head :: rest)) ++
          flatPieces .opener [.opener, .atom head] ∧
      ∃ o, (s.printBefore rest [.opener, .atom head]).2.lists =
          o :: s.lists.modifyHead OpenList.afterList ∧ o.Packs c := by
  rw [printBefore, List.singleton_append]
  generalize s.gapAhead .opener (.atom head :: rest) = g
  have hb := behind_put houter g .opener
  have hlists := s.lists_put_opener g (l := .opener) rfl
  have hput := (s.put g .opener).lists_put_atom .hug (l := .atom head) rfl
  rw [hlists, List.modifyHead_cons] at hput
  rw [hb.printBefore_head]
  refine ⟨?_, _, hput, ?_⟩
  · simp [pieces, Lexeme.opener, flatPieces, Lexeme.spaced, printBefore]
  · exact OpenList.packs_afterAtom rfl hset hone hstyle .hug

theorem lexemesOfParts_head (head : List Char) :
    lexemesOfParts [.opener, .item [.atom head]] = [.opener, .atom head] := rfl

theorem proper_head (head : List Char) :
    ∀ l ∈ lexemesOfParts [.opener, .item [.atom head]], l.Proper := by
  rw [lexemesOfParts_head]
  simp [Lexeme.Proper, Lexeme.atom]

theorem chunk_head {head : List Char} (hm : (Lexeme.atom head).multiline = false) :
    Chunk [.opener, .item [.atom head]] where
  not_multiline := by
    intro l hl
    simp only [lexemesOfParts_head, List.mem_cons, List.not_mem_nil, or_false] at hl
    rcases hl with rfl | rfl
    · rfl
    · exact hm
  ne_nil := by simp [Part.lexemes]
  one := rfl

/-- The closer of a list comes behind its head. -/
theorem oneLineWidth_head_lt {head : List Char} {xs : List Lexeme}
    (hm : (Lexeme.atom head).multiline = false) (hx : ∀ l ∈ xs, l.multiline = false) :
    oneLineWidth (lexemesOfParts [.opener, .item [.atom head]]) <
      oneLineWidth (.opener :: (.atom head :: xs ++ [.closer])) := by
  have hall : ∀ l ∈ .opener :: .atom head :: xs, l.multiline = false := by
    intro l hl
    simp only [List.mem_cons] at hl
    rcases hl with rfl | rfl | hl
    · rfl
    · exact hm
    · exact hx l hl
  have hlast : oneLineWidthAfter .opener (.opener :: .atom head :: xs ++ [.closer]) = _ :=
    oneLineWidthAfter_concat .closer rfl hall
  have hle := oneLineWidth_le_append [.opener, .atom head] xs
  simp only [Lexeme.spaced_closer, Bool.false_eq_true, if_false, Lexeme.width_closer] at hlast
  rw [← oneLineWidth_eq, ← oneLineWidth_eq] at hlast
  rw [lexemesOfParts_head]
  simp only [List.cons_append, List.nil_append] at hle hlast ⊢
  omega

/-- **A compact list that goes on the line leaves room for one closer more**, for its whole width is
at least that of its head and its delimiters. -/
theorem fills_head {head : List Char} {xs : List Lexeme} (hstyle : c.styleOf head = .compact)
    (hm : (Lexeme.atom head).multiline = false) (hx : Balanced xs)
    (hxm : ∀ l ∈ xs, l.multiline = false) (rest : List Lexeme) (due : Nat) :
    Fills c (xs ++ .closer :: rest) (due + 1) (due + 2) [.opener, .item [.atom head]] := by
  intro s ys h
  obtain ⟨o, os, hs, ho, hos⟩ := h.packing.exists_cons
  obtain ⟨hp, o', hlists, ho'⟩ := Sheet.printBefore_head h.outer h.settings_eq
    (by simp [hs, ho.onOneLine_eq]) hstyle (xs ++ .closer :: rest)
  have hbody : Balanced (.atom head :: xs) := .atom rfl hx
  have hg := Sheet.gapAhead_list hs ho hbody rest
  rw [List.cons_append] at hg
  refine h.chunk (chunk_head hm) (g := s.gapAhead .opener (.atom head :: (xs ++ .closer :: rest)))
    ?_ hp ?_
  · rw [hg]
    rcases Sheet.compactGap_cases h.packing
      (oneLineWidth (.opener :: (.atom head :: xs ++ [.closer]))) with hline | ⟨hspace, hroom⟩
    · exact .inl hline
    · have hle := oneLineWidth_head_lt hm hxm
      exact .inr ⟨hspace, by omega⟩
  · rw [hs, List.modifyHead_cons] at hlists
    rw [lexemesOfParts_head, hlists]
    exact .inside ho' (.inside ho.afterList hos)

/-- Where the closer of a compact list ends. -/
theorem Fits.closer {limit due : Nat} {k : Cursor} {xs : List (Part × List Cursor)}
    (h : Fits limit (due + 1) k xs) :
    Fits limit due ⟨k.line, k.column + 1⟩ (xs ++ [(.closer, [⟨k.line, k.column + 1⟩])]) := by
  refine h.append ?_ (.inr ⟨rfl, Nat.le_succ _⟩) ?_
  · intro x hx e he
    obtain rfl := List.mem_singleton.mp hx
    obtain rfl := List.mem_singleton.mp he
    exact ⟨rfl, Nat.le_refl _⟩
  · rcases h.last with hle | hone
    · left
      simp only
      omega
    · right
      rw [itemsOn_append, hone]
      rfl

theorem OpenList.Packs.closesOnNewLine {o : OpenList} (h : o.Packs c) (line : Nat) :
    o.closesOnNewLine line = false := by
  simp [OpenList.closesOnNewLine, h.style_eq]

theorem Sheet.places_closer {s : Sheet} {o : OpenList} {os : List OpenList} (hs : s.lists = o :: os)
    (ho : o.Packs c) (rest : List Lexeme) :
    s.places rest [.closer] = [(.closer, [⟨s.cursor.line, s.cursor.column + 1⟩])] := by
  have hg : s.gapAhead .closer rest = .hug := by
    simp [gapAhead, gap?, hs, Lexeme.closer, ho.closesOnNewLine]
  have hk : s.cursor.advance Lexeme.closer.text = ⟨s.cursor.line, s.cursor.column + 1⟩ :=
    Cursor.advance_text rfl s.cursor
  have hends : s.cursor.ends (s.printBefore rest [.closer]).1 =
      [⟨s.cursor.line, s.cursor.column + 1⟩] := by
    rw [printBefore, List.nil_append, hg, ← hk]
    by_cases hlen : s.lists.length = 1
    · simp [pieces, Lexeme.closer, hlen, gapPieces, printBefore, Cursor.ends, lineBreak]
    · simp [pieces, Lexeme.closer, hlen, gapPieces, printBefore, Cursor.ends]
  simp [places, placed, Part.lexemes, hends]

theorem fills_closer (rest : List Lexeme) (due : Nat) :
    Fills c rest (due + 2) (due + 1) [.closer] := by
  intro s xs h
  obtain ⟨o, os, hs, ho, hos⟩ := h.packing.exists_cons
  obtain ⟨p, os', rfl, -, -⟩ := hos.exists_cons
  refine ⟨by rw [Sheet.settings_printBefore, h.settings_eq],
    Sheet.outerBegun_printBefore h.outer _ _, ?_, ?_⟩
  · have hlists := s.lists_put_closer (s.gapAhead .closer rest) (l := .closer) rfl
    rw [hs, List.tail_cons] at hlists
    exact hlists ▸ hos
  · have hp : (s.printBefore rest [.closer]).1 = [.lexeme .closer] := by
      simp [Sheet.printBefore, Sheet.pieces_closer hs (ho.closesOnNewLine _) rest]
    have hcur : (s.printBefore rest [.closer]).2.cursor =
        ⟨s.cursor.line, s.cursor.column + 1⟩ := by
      rw [Sheet.cursor_printBefore, hp]
      exact Cursor.advance_text rfl s.cursor
    rw [Sheet.places_closer hs ho]
    exact hcur ▸ h.fits.closer

namespace Fills

theorem nil (rest : List Lexeme) (due : Nat) : Fills c rest due due [] := by
  intro s xs h
  simpa [Sheet.places, Sheet.printBefore, placed] using h

theorem append {rest : List Lexeme} {n n' n'' : Nat} {ps qs : List Part}
    (hp : Fills c (lexemesOfParts qs ++ rest) n n' ps) (hq : Fills c rest n' n'' qs)
    (hproper : ∀ l ∈ lexemesOfParts ps, l.Proper) : Fills c rest n n'' (ps ++ qs) := by
  intro s xs h
  have hboth := hq _ _ (hp s xs h)
  rw [lexemesOfParts_append, Sheet.printBefore_append, s.places_append rest hproper,
    ← List.append_assoc]
  exact hboth

end Fills

/-- **Printing the children of a compact list leaves them in their place.** -/
theorem Packed.fills {ps : List Part} (h : Packed c ps) (rest : List Lexeme) (due : Nat) :
    Fills c rest (due + 1) (due + 1) ps := by
  induction h generalizing rest due with
  | nil => exact .nil rest _
  | atom hm _ ih =>
    exact (fills_atom hm _ due).append (ih rest due) (Balanced.atom rfl .nil).proper
  | oneLine hl _ ih =>
    refine (fills_oneLine hl _ due).append (ih rest due) ?_
    simpa [Part.lexemes] using hl.balanced.proper
  | @list head ps qs hstyle hm hp _ ihp ihq =>
    have hrest : lexemesOfParts (ps ++ .closer :: qs) ++ rest =
        lexemesOfParts ps ++ .closer :: (lexemesOfParts qs ++ rest) := by
      simp [Part.lexemes]
    -- inside the list one closer more is due, until its own is printed
    have hhead := fills_head hstyle hm hp.balanced hp.not_multiline
      (lexemesOfParts qs ++ rest) due
    rw [← hrest] at hhead
    have hclose := (fills_closer (lexemesOfParts qs ++ rest) due).append (ihq rest due)
      (by simp [Part.lexemes, Lexeme.Complete.closer.proper])
    have hbody := (ihp _ (due + 1)).append hclose hp.balanced.proper
    exact hhead.append hbody (proper_head head)

/-! ## Compact lists in a text -/

/-- **A compact list fits on its lines**, wherever it begins on a sheet that may take several lines. -/
theorem PackedList.lineFits {ps : List Part} (h : PackedList c ps) {s : Sheet}
    (houter : s.OuterBegun) (hset : s.settings = c)
    (hone : s.lists.head?.any OpenList.onOneLine = false) (rest : List Lexeme) (line : Nat) :
    LineFits c.columnLimit (s.places rest ps) line := by
  cases h with
  | @mk head ps hstyle hm hp =>
    obtain ⟨hpieces, o, hlists, ho⟩ := Sheet.printBefore_head houter hset hone hstyle
      (lexemesOfParts (ps ++ [.closer]) ++ rest)
    -- the head is the first item, wherever it stands
    have hhead : Filled c 1
        (s.printBefore (lexemesOfParts (ps ++ [.closer]) ++ rest) [.opener, .atom head]).2
        (s.places (lexemesOfParts (ps ++ [.closer]) ++ rest) [.opener, .item [.atom head]]) := by
      refine ⟨by rw [Sheet.settings_printBefore, hset], Sheet.outerBegun_printBefore houter _ _,
        hlists ▸ .inside ho .outside, ?_⟩
      rw [Sheet.cursor_printBefore, Sheet.places, lexemesOfParts_head, hpieces]
      exact (chunk_head hm).fits _ _ _ _ _ _
    have hbody := hp.fills (.closer :: rest) 0 _ _ hhead
    obtain ⟨o', os, hlists', ho', -⟩ := hbody.packing.exists_cons
    have hall := hbody.fits.closer
    rw [← Sheet.places_closer hlists' ho' rest, List.append_assoc] at hall
    have hplaces := s.places_append rest (proper_head head) (ps ++ [.closer])
    rw [Sheet.places_append _ rest hp.balanced.proper] at hplaces
    have hsplit : Part.opener :: .item [.atom head] :: (ps ++ [.closer]) =
        [.opener, .item [.atom head]] ++ (ps ++ [.closer]) := rfl
    rw [hsplit, hplaces]
    exact hall.lineFits line

/-- **Compact lists stay within the column limit.** A compact list somewhere in a text, not below a
shortform list, is printed so that its lexemes on a line end within the limit, its closers and those
of the compact lists in it included, or so that there is one item of it on the line. The pieces have
the lexemes of the text in order, so the places behind them are told apart by their number. Within
bounds the text is the same, unless a line of it is too long. -/
theorem compact_column_bound [Memory] (s : Settings) (text : List Char) (before after : List Lexeme)
    (ps : List Part) (hlist : PackedList s ps)
    (htext : lexemes text = before ++ lexemesOfParts ps ++ after)
    (hbefore : ¬ AnyShortform s (enclosing before)) :
    (∀ line, LineFits s.columnLimit
        (placed ps ((Cursor.ends {} (reflowPieces s text)).drop before.length)) line) ∧
      lexemesOf (reflowPieces s text) = lexemes text ∧
      (reflowWithin s text).result = text? (reflowPieces s text) := by
  refine ⟨fun line => ?_, lexemesOf_reflowPieces s text, result_reflowWithin s text⟩
  obtain ⟨qs, rs, hpieces, hqs, hcur⟩ := exists_reflowPieces_eq s htext
  have hmirror := mirrors_sheetAt s before (lexemesOfParts ps ++ after)
  have houter := outerBegun_sheetAt s before (lexemesOfParts ps ++ after)
  have hset := settings_sheetAt s before (lexemesOfParts ps ++ after)
  generalize sheetAt s before (lexemesOfParts ps ++ after) = sheet at *
  have hone : sheet.lists.head?.any OpenList.onOneLine = false :=
    Bool.eq_false_iff.mpr fun h => hbefore (hmirror.any_onOneLine.mp h)
  -- of all the ends in the text, those of the list are the next ones behind `before`
  have hdrop : ∃ es, (Cursor.ends {} (reflowPieces s text)).drop before.length =
      sheet.cursor.ends (sheet.printBefore after (lexemesOfParts ps)).1 ++ es := by
    rw [hpieces, Cursor.ends_append, Cursor.ends_append, ← hcur, List.append_assoc]
    exact ⟨_, List.drop_left' (by rw [Cursor.length_ends, hqs])⟩
  obtain ⟨es, hes⟩ := hdrop
  rw [hes, placed_append_right]
  · exact hlist.lineFits houter hset hone after line
  · rw [Cursor.length_ends, Sheet.lexemesOf_printBefore _ hlist.packed.balanced.proper]

/-- Settings that leave nine columns to lists headed by `p`, and one line to those headed by `s`. -/
def narrow : Settings :=
  { (default : Settings) with
    columnLimit := 9
    columnLimit_pos := Nat.succ_pos 8
    compact := .ofList [['p']] (by simp)
    shortform := .ofList [['s']] (by simp) }

/-- The list `(p x (s (y)) (p z w) ())` in its parts. -/
def nestedParts : List Part :=
  [.opener, .item [.atom ['p']], .item [.atom ['x']],
    .item [.opener, .atom ['s'], .opener, .atom ['y'], .closer, .closer],
    .opener, .item [.atom ['p']], .item [.atom ['z']], .item [.atom ['w']], .closer,
    .item [.opener, .closer], .closer]

theorem packedList_nestedParts : PackedList narrow nestedParts := by
  have hs : OneLineList narrow [.opener, .atom ['s'], .opener, .atom ['y'], .closer, .closer] :=
    @OneLineList.mk narrow [.atom ['s'], .opener, .atom ['y'], .closer]
      (.shortform (by decide) (@Balanced.list [.atom ['y']] [] (.atom rfl .nil) .nil)) (by decide)
  have hempty : OneLineList narrow [.opener, .closer] := @OneLineList.mk narrow [] .empty (by simp)
  have hzw : Packed narrow [.item [.atom ['z']], .item [.atom ['w']]] :=
    .atom (by decide) (.atom (by decide) .nil)
  exact @PackedList.mk narrow ['p'] _ (by decide) (by decide) (.atom (by decide) (.oneLine hs
    (@Packed.list narrow ['p'] _ _ (by decide) (by decide) hzw (.oneLine hempty .nil))))

theorem compact_column_bound_nested :
    lexemes "(a (p x (s (y)) (p z w) ()))".toList =
        [.opener, .atom ['a']] ++ lexemesOfParts nestedParts ++ [.closer] ∧
      ∀ line, LineFits 9
        (placed nestedParts
          ((Cursor.ends {} (reflowPieces narrow "(a (p x (s (y)) (p z w) ()))".toList)).drop 2))
        line := by
  have htext : lexemes "(a (p x (s (y)) (p z w) ()))".toList =
      [.opener, .atom ['a']] ++ lexemesOfParts nestedParts ++ [.closer] := by decide
  have hbound :=
    @compact_column_bound .small narrow _ _ _ _ packedList_nestedParts htext (by decide)
  exact ⟨htext, hbound.1⟩

end SExprReflow
