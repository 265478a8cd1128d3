import SExprReflow.Proofs.Lines

/-!
# Texts one after the other

What stands outside all lists is printed as if nothing had been printed before it. Of the sheet only
the number of the line tells how much has been, and line numbers are compared with each other and
never looked at alone. So a sheet further down prints the same pieces (`Sheet.printAhead_down`), and
a sheet without open lists, once its line has ended, is a fresh one further down.

The line is ended by whichever comes first, the end of the text or the next lexeme. A closer is the
one lexeme that stays on the line, which is why the second text must not begin with one.
-/

namespace SExprReflow

open Piece

/-! ## Further down -/

/-- The same place so many lines further down. -/
def Cursor.down (k : Cursor) (n : Nat) : Cursor := ⟨k.line + n, k.column⟩

namespace Cursor

theorem down_next (k : Cursor) (n : Nat) (c : Char) : (k.down n).next c = (k.next c).down n := by
  unfold next down
  split
  · simp only [mk.injEq, and_true]
    omega
  · rfl

theorem down_advance (k : Cursor) (n : Nat) (text : List Char) :
    (k.down n).advance text = (k.advance text).down n := by
  induction text generalizing k with
  | nil => rfl
  | cons c cs ih => rw [advance_cons, down_next, ih, advance_cons]

theorem down_advancePieces (k : Cursor) (n : Nat) (ps : List Piece) :
    (k.down n).advancePieces ps = (k.advancePieces ps).down n := by
  rw [advancePieces_eq, down_advance, advancePieces_eq]

end Cursor

/-- The same list opened so many lines further down. -/
def OpenList.down (n : Nat) (o : OpenList) : OpenList := { o with openedOn := o.openedOn + n }

namespace OpenList

theorem down_counts (n : Nat) (o : OpenList) : (o.down n).counts = o.counts := rfl

theorem down_afterAtom (n : Nat) (o : OpenList) (g : Gap) (text : List Char) :
    (o.down n).afterAtom g text = (o.afterAtom g text).down n := by
  unfold afterAtom
  rw [down_counts]
  by_cases hz : o.children = 0
  · simp [down, hz, settleStyle]
  · cases o.counts <;> simp [down, hz]

theorem down_afterList (n : Nat) (o : OpenList) : (o.down n).afterList = o.afterList.down n := by
  unfold afterList
  rw [down_counts]
  by_cases hz : o.children = 0
  · simp [down, hz, settleStyle]
  · cases o.counts <;> simp [down, hz]

theorem down_closesOnNewLine (n : Nat) (o : OpenList) (line : Nat) :
    (o.down n).closesOnNewLine (line + n) = o.closesOnNewLine line := by
  unfold closesOnNewLine
  congr 1
  exact decide_eq_decide.mpr (by simp [down])

end OpenList

namespace Sheet

/-- The same sheet so many lines further down. -/
def down (s : Sheet) (n : Nat) : Sheet :=
  { s with lists := s.lists.map (OpenList.down n), cursor := s.cursor.down n }

theorem down_closersDue (s : Sheet) (n : Nat) : (s.down n).closersDue = s.closersDue := by
  simp only [closersDue, down, List.takeWhile_map, List.length_map]
  rfl

theorem down_compactGap (s : Sheet) (n width : Nat) :
    (s.down n).compactGap width = s.compactGap width := by
  have hroom : (s.down n).hasRoom width = s.hasRoom width := by
    unfold hasRoom hasRoom?
    rw [down_closersDue]
    cases hs : s.lists with
    | nil => simp [down, hs]
    | cons o os => simp [down, hs, Cursor.down, OpenList.down]
  rw [compactGap, hroom, compactGap]

theorem down_gap? (s : Sheet) (n : Nat) (l : Lexeme) : (s.down n).gap? l = s.gap? l := by
  cases hs : s.lists with
  | nil =>
    have hd : (s.down n).lists = [] := by simp [down, hs]
    cases hl : l.role with
    | opener => simp [gap?, hs, hl, down, Cursor.down]
    | closer => simp [gap?, hs, hd, hl]
    | atom => simp [gap?, hs, hl, down, Cursor.down]
  | cons o os =>
    have hd : (s.down n).lists = o.down n :: os.map (OpenList.down n) := by simp [down, hs]
    have hcl := o.down_closesOnNewLine n s.cursor.line
    cases hl : l.role with
    | opener => simp only [gap?, hs, hd, hl]; rfl
    | closer =>
      have hline : (s.down n).cursor.line = s.cursor.line + n := rfl
      simp only [gap?, hs, hd, hl, hline, hcl]
    | atom => simp only [gap?, hs, hd, hl, down_compactGap]; rfl

theorem down_gapAhead (s : Sheet) (n : Nat) (l : Lexeme) (ls : List Lexeme) :
    (s.down n).gapAhead l ls = s.gapAhead l ls := by
  unfold gapAhead
  rw [down_gap?]
  cases s.gap? l with
  | some g => rfl
  | none => exact down_compactGap s n _

theorem down_pieces (s : Sheet) (n : Nat) (g : Gap) (l : Lexeme) :
    (s.down n).pieces g l = s.pieces g l := by
  have hlen : (s.down n).lists.length = s.lists.length := by simp [down]
  have hgap : ∀ depth, (s.down n).gapPieces depth g = s.gapPieces depth g := by
    intro depth
    cases g <;> rfl
  unfold pieces
  rw [hlen]
  cases l.role with
  | opener => simp only [hgap]
  | atom => simp only [hgap]
  | closer =>
    simp only [hgap]
    rfl

/-- Printing a lexeme further down leads to the same sheet further down. -/
theorem down_put (s : Sheet) (n : Nat) (g : Gap) (l : Lexeme) :
    (s.down n).put g l = (s.put g l).down n := by
  have hcur : ((s.down n).put g l).cursor = (s.put g l).cursor.down n := by
    rw [cursor_put, cursor_put, down_pieces]
    exact Cursor.down_advancePieces _ _ _
  have hset : ((s.down n).put g l).settings = (s.put g l).settings := by
    rw [settings_put, settings_put]
    rfl
  have hlists : ((s.down n).put g l).lists = (s.put g l).lists.map (OpenList.down n) := by
    cases hl : l.role with
    | closer =>
      rw [lists_put_closer _ g hl, lists_put_closer _ g hl]
      simp [down]
    | atom =>
      rw [lists_put_atom _ g hl, lists_put_atom _ g hl]
      cases hs : s.lists with
      | nil => simp [down, hs]
      | cons o os => simp [down, hs, OpenList.down_afterAtom]
    | opener =>
      rw [lists_put_opener _ g hl, lists_put_opener _ g hl, hcur]
      cases hs : s.lists with
      | nil => simp [down, hs, OpenList.down, Cursor.down]
      | cons o os =>
        simp only [down, hs, List.map_cons, List.modifyHead_cons, OpenList.down_afterList]
        rfl
  cases hput : (s.down n).put g l with
  | mk settings lists cursor =>
    rw [hput] at hcur hset hlists
    simp only at hcur hset hlists
    rw [hcur, hset, hlists]
    rfl

/-- **Where a text is printed makes no difference to its pieces.** -/
theorem printAhead_down (s : Sheet) (n : Nat) (ls : List Lexeme) :
    (s.down n).printAhead ls = ((s.printAhead ls).1, (s.printAhead ls).2.down n) := by
  induction ls generalizing s with
  | nil => rfl
  | cons l ls ih => rw [printAhead, printAhead, down_gapAhead, down_pieces, down_put, ih]

/-! ## Ending a line -/

/-- The sheet with its last line ended. -/
def endLine (s : Sheet) : Sheet := s.advance (s.endPieces true)

/-- Without open lists a sheet whose line has ended is a fresh one further down. -/
theorem endLine_eq_down {s : Sheet} (hs : s.lists = []) :
    s.endLine = down { settings := s.settings } s.endLine.cursor.line := by
  have hcol : s.endLine.cursor.column = 0 := by
    unfold endLine endPieces
    by_cases hc : 0 < s.cursor.column
    · simp [hc, advance, Cursor.advancePieces, Cursor.nextPiece, lineBreak, Settings.indent]
    · have hz : s.cursor.column = 0 := by omega
      simp [hz, advance, Cursor.advancePieces]
  have hcur : s.endLine.cursor = Cursor.down {} s.endLine.cursor.line := by
    rw [Cursor.down, Nat.zero_add, ← hcol]
  calc s.endLine = ⟨s.settings, [], s.endLine.cursor⟩ := by rw [← hs]; rfl
    _ = ⟨s.settings, [], Cursor.down {} s.endLine.cursor.line⟩ := by rw [← hcur]
    _ = down { settings := s.settings } s.endLine.cursor.line := rfl

/-- Outside all lists every lexeme but a closer ends the line before it. -/
theorem printAhead_endLine {s : Sheet} (hs : s.lists = []) {l : Lexeme} (hl : l.role ≠ .closer)
    (ls : List Lexeme) :
    s.printAhead (l :: ls) =
      (s.endPieces true ++ (s.endLine.printAhead (l :: ls)).1,
        (s.endLine.printAhead (l :: ls)).2) := by
  by_cases hc : 0 < s.cursor.column
  · have hend : s.endPieces true = [s.lineBreak 0] := by simp [endPieces, hc]
    have hcol : s.endLine.cursor.column = 0 := by
      rw [endLine_eq_down hs]
      rfl
    have hs' : s.endLine.lists = [] := hs
    have hg : s.gapAhead l ls = .line ∧ s.endLine.gapAhead l ls = .hug := by
      cases hr : l.role with
      | closer => exact absurd hr hl
      | opener => simp [gapAhead, gap?, hs, hs', hr, hc, hcol]
      | atom => simp [gapAhead, gap?, hs, hs', hr, hc, hcol]
    have hp : s.pieces .line l = s.lineBreak 0 :: s.endLine.pieces .hug l := by
      cases hr : l.role with
      | closer => exact absurd hr hl
      | opener => simp [pieces, hr, gapPieces, hs]
      | atom => simp [pieces, hr, gapPieces, hs]
    have hput : s.put .line l = s.endLine.put .hug l := by
      have hadv : s.advance (s.pieces .line l) =
          s.endLine.advance (s.endLine.pieces .hug l) := by
        rw [hp, endLine, hend]
        rfl
      cases hr : l.role with
      | closer => exact absurd hr hl
      | opener => simp only [put, hr, hadv]
      | atom => simp [put, hr, hadv, modifyTop, hs']
    rw [printAhead, printAhead, hg.1, hg.2, hp, hput, hend]
    rfl
  · have hend : s.endPieces true = [] := by simp [endPieces, hc]
    rw [endLine, hend]
    rfl

/-- **Outside all lists a text is printed as on a fresh sheet**, behind the end of the last line. -/
theorem printAhead_fresh {s : Sheet} (hs : s.lists = []) {l : Lexeme} (hl : l.role ≠ .closer)
    (ls : List Lexeme) (terminate : Bool) :
    (s.printAhead (l :: ls)).1 ++ (s.printAhead (l :: ls)).2.endPieces terminate =
      s.endPieces true ++ printedAhead s.settings (l :: ls) terminate := by
  rw [printAhead_endLine hs hl, endLine_eq_down hs, printAhead_down, List.append_assoc]
  rfl

end Sheet

/-! ## Two texts -/

/-- Nothing of a text is still open behind it: it stops outside strings and outside lists. -/
structure EndsOutside (text : List Char) : Prop where
  inString_eq : (scannerAfter text).inString = false
  nesting_eq : nesting 0 (lexemes text) = 0

/-- The first lexeme of a text, if there is any, is no closer. -/
def OpensOutside (text : List Char) : Prop := ∀ l ∈ (lexemes text).head?, l.role ≠ .closer

theorem lexemes_append_line {t₁ : List Char} (h : EndsOutside t₁) (t₂ : List Char) :
    lexemes (t₁ ++ '\n' :: t₂) = lexemes t₁ ++ lexemes t₂ := by
  have hr : (scannerAfter t₁).read '\n' = ((scannerAfter t₁).pendingAtom, {}) :=
    (coherent_scannerAfter t₁).read_of_isBlank h.inString_eq rfl
  rw [lexemes_eq, endedLexemes_append, scannerAfter_append, Scanner.readAll_cons, hr,
    lexemes_eq t₁, lexemes_eq t₂]
  simp only [List.append_assoc]
  rfl

/-- Outside all lists nothing is held back. -/
theorem Printer.idle_of_nesting {s : Settings} {ls : List Lexeme} (hp : ∀ l ∈ ls, l.Proper)
    (hn : nesting 0 ls = 0) :
    ((ofSettings s).printAll ls).2.held = none ∧
      ((ofSettings s).printAll ls).2.sheet.lists = [] := by
  have hlen := length_lists_printAll (p := ofSettings s) hp
  have hall := lexemesOf_printAll (p := ofSettings s) hp
  have hnests : ((ofSettings s).printAll ls).2.Nests := (nests_of_held_eq_none rfl).printAll ls
  -- the depth is that of the sheet and of what is held back together
  have hsum : ((ofSettings s).printAll ls).2.sheet.lists.length +
      ((ofSettings s).printAll ls).2.heldDepth = 0 := by
    rw [hlen, ← hnests.nesting_heldLexemes]
    calc _ = nesting 0 (lexemesOf ((ofSettings s).printAll ls).1 ++
          ((ofSettings s).printAll ls).2.heldLexemes) := (nesting_append _ _ _).symm
      _ = nesting 0 ls := congrArg (nesting 0) hall
      _ = 0 := hn
  refine ⟨?_, List.length_eq_zero_iff.mp (by omega)⟩
  cases hh : ((ofSettings s).printAll ls).2.held with
  | none => rfl
  | some h =>
    have hpos := (hnests h hh).depth_pos
    have hd : ((ofSettings s).printAll ls).2.heldDepth = h.depth := by simp [heldDepth, hh]
    omega

/-- With nothing held back a printer goes on as if all lexemes were known. -/
theorem Printer.pieces_of_idle {p : Printer} (hh : p.held = none) {ls : List Lexeme}
    (hp : ∀ l ∈ ls, l.Proper) (terminate : Bool) :
    (p.printAll ls).1 ++ ((p.printAll ls).2.finish terminate).1 =
      (p.sheet.printAhead ls).1 ++ (p.sheet.printAhead ls).2.endPieces terminate := by
  have hheld : p.heldLexemes = [] := by simp [heldLexemes, hh]
  have hp' : ∀ l ∈ p.heldLexemes ++ ls, l.Proper := by rwa [hheld]
  have hw : p.Waits := waits_of_held_eq_none hh
  have hall := printAhead_printAll hw hp'
  rw [printAhead_releaseAll (hw.printAll hp') (proper_printAll hp'), hheld, List.nil_append] at hall
  rw [pieces_finish, hall, List.append_assoc]

theorem reflowPieces_of_lexemes_eq_nil (s : Settings) {text : List Char} (h : lexemes text = []) :
    reflowPieces s text = [] := by
  rw [reflowPieces_eq, Printer.pieces_eq_printedAhead s _ proper_of_mem_lexemes, h]
  rfl

/-- **Two texts on lines of their own print as the one and then the other.** -/
theorem reflowPieces_append_line (s : Settings) {t₁ t₂ : List Char} (h₁ : EndsOutside t₁)
    (h₂ : OpensOutside t₂) :
    reflowPieces s (t₁ ++ '\n' :: t₂) = reflowPieces s t₁ ++ reflowPieces s t₂ := by
  have hlex := lexemes_append_line h₁ t₂
  obtain ⟨hheld, hlists⟩ :=
    Printer.idle_of_nesting (s := s) proper_of_mem_lexemes h₁.nesting_eq
  cases hls : lexemes t₂ with
  | nil =>
    rw [hls, List.append_nil] at hlex
    rw [reflowPieces_congr hlex, reflowPieces_of_lexemes_eq_nil s hls, List.append_nil]
  | cons l ls =>
    have hl : l.role ≠ .closer := h₂ l (by simp [hls])
    have hp : ∀ x ∈ l :: ls, x.Proper := hls ▸ proper_of_mem_lexemes
    have hend : endsInString (lexemes t₁ ++ l :: ls) = endsInString (l :: ls) := by
      simp [endsInString, List.getLast?_append, List.getLast?_cons]
    have hout : endsInString (lexemes t₁) = false := by
      rw [endsInString_lexemes]
      exact h₁.inString_eq
    have hset : ((Printer.ofSettings s).printAll (lexemes t₁)).2.sheet.settings = s := by
      rw [Printer.settings_printAll]
      rfl
    rw [reflowPieces_eq s (t₁ ++ '\n' :: t₂), reflowPieces_eq s t₁, reflowPieces_eq s t₂, hlex,
      hls, hend, hout, Printer.printAll_append, List.append_assoc,
      Printer.pieces_of_idle hheld hp, Sheet.printAhead_fresh hlists hl, hset,
      Printer.pieces_eq_printedAhead s _ hp, Printer.pieces_finish,
      Printer.releaseAll_of_none hheld]
    simp

theorem Piece.text?_append [Memory] (ps qs : List Piece) :
    text? (ps ++ qs) = (text? ps).bind fun a => (text? qs).map fun b => a ++ b := by
  unfold text?
  rw [firstLengthError?_append]
  cases firstLengthError? ps with
  | some e => rfl
  | none =>
    cases firstLengthError? qs with
    | some e => rfl
    | none => simp [Except.bind, Except.map]

/-! ## Any number of texts -/

/-- Texts on lines of their own begin as the first of them that has any lexeme. -/
theorem opensOutside_flatMap {ts : List (List Char)}
    (h : ∀ t ∈ ts, EndsOutside t ∧ OpensOutside t) :
    OpensOutside (ts.flatMap fun t => t ++ ['\n']) := by
  induction ts with
  | nil => simp [OpensOutside, lexemes]
  | cons t ts ih =>
    obtain ⟨hend, hopen⟩ := h t (by simp)
    have hrest := ih fun x hx => h x (by simp [hx])
    have hlex := lexemes_append_line hend (ts.flatMap fun t => t ++ ['\n'])
    intro l hl
    rw [List.flatMap_cons, List.append_assoc, List.singleton_append, hlex, List.head?_append] at hl
    cases ht : (lexemes t).head? with
    | none => exact hrest l (by simpa [ht] using hl)
    | some x =>
      obtain rfl : x = l := by simpa [ht] using hl
      exact hopen x ht

theorem reflow_flatMap_line (s : Settings) {ts : List (List Char)}
    (h : ∀ t ∈ ts, EndsOutside t ∧ OpensOutside t) :
    reflow s (ts.flatMap fun t => t ++ ['\n']) = ts.flatMap (reflow s) := by
  induction ts with
  | nil => exact reflow_of_lexemes_eq_nil s rfl
  | cons t ts ih =>
    have hts : ∀ x ∈ ts, EndsOutside x ∧ OpensOutside x := fun x hx => h x (by simp [hx])
    have hpieces := reflowPieces_append_line s (h t (by simp)).1 (opensOutside_flatMap hts)
    rw [List.flatMap_cons, List.flatMap_cons, List.append_assoc, List.singleton_append, ← ih hts]
    simp only [reflow, hpieces, textOf_append]

/-- **Texts on lines of their own are printed each by itself**, two of them or any number, as long as
each ends outside strings and lists and what comes next is no closer. Within bounds the text is that
of both, or the error is that of the first that has one. -/
theorem reflow_append_line [Memory] (s : Settings) (t₁ t₂ : List Char) (h₁ : EndsOutside t₁)
    (h₂ : OpensOutside t₂) :
    reflow s (t₁ ++ '\n' :: t₂) = reflow s t₁ ++ reflow s t₂ ∧
      (∀ ts : List (List Char), (∀ t ∈ ts, EndsOutside t ∧ OpensOutside t) →
        reflow s (ts.flatMap fun t => t ++ ['\n']) = ts.flatMap (reflow s)) ∧
      (reflowWithin s (t₁ ++ '\n' :: t₂)).result =
        (reflowWithin s t₁).result.bind fun a => (reflowWithin s t₂).result.map fun b => a ++ b := by
  have hpieces := reflowPieces_append_line s h₁ h₂
  refine ⟨?_, fun ts hts => reflow_flatMap_line s hts, ?_⟩
  · simp only [reflow, hpieces, textOf_append]
  · rw [result_reflowWithin, result_reflowWithin, result_reflowWithin, hpieces, text?_append]

/-- A list over two lines, and a closer too many behind it. -/
def brokenList : List Char := "(a \"b\nc\") )".toList

/-- An atom, and a list with a list in it. -/
def atomAndList : List Char := "d (e(f))".toList

/-- The closer leaves its line begun, and the atom starts a new one. -/
theorem reflow_brokenList_atomAndList :
    EndsOutside brokenList ∧ OpensOutside atomAndList ∧
      reflow default (brokenList ++ '\n' :: atomAndList) =
        reflow default brokenList ++ reflow default atomAndList := by
  have h₁ : EndsOutside brokenList := ⟨by decide, by decide⟩
  have h₂ : OpensOutside atomAndList := by
    intro l hl
    obtain rfl : Lexeme.atom ['d'] = l := Option.some.inj ((by decide : _ = _).trans hl)
    decide
  exact ⟨h₁, h₂, (@reflow_append_line .small default brokenList atomAndList h₁ h₂).1⟩

end SExprReflow
