import SExprReflow.Proofs.Content
import SExprReflow.Proofs.Nesting

/-!
# The white space of a printed text

A printed text is its lexemes with white space between them, and which white space there can be
depends on little: the lexemes on both sides and the number of lists open between them. `Separator`
says what may stand there, and `Written` what a text made of lexemes and separators is.

The printer writes the white space from two sides. The line break behind a list that stands outside
all others is printed with its closer, every other gap with the lexeme that comes next. So the proof
carries what has already been written behind the last lexeme (`Sheet.Wrote`).
-/

namespace SExprReflow

open Piece

/-! ## What may be written -/

/-- What may stand between two lexemes, if `depth` lists are open behind the first of them. -/
structure Separator (s : Settings) (depth : Nat) (before after : Lexeme) (gap : List Char) :
    Prop where
  /-- Nothing, a space, or a line break with the indentation of what comes next. -/
  form : gap = [] ∨ gap = [' '] ∨
    gap = '\n' :: s.indentation (if after.role = .closer then depth - 1 else depth)
  /-- Nothing stands behind an opener. -/
  nil_of_opener : before.role = .opener → gap = []
  /-- Lexemes touch only behind an opener or before a closer. -/
  of_nil : gap = [] → before.role = .opener ∨ after.role = .closer
  /-- No space stands before a closer. -/
  ne_space : after.role = .closer → gap ≠ [' ']
  /-- Outside all lists every item starts a line. -/
  line_of_outside : depth = 0 → after.role ≠ .closer → gap = '\n' :: s.indentation 0

/-- `Written s ending depth before ls out`: behind `before`, where `depth` lists are open, the
lexemes `ls` with separators in front of them and `ending` behind them come to `out`. -/
inductive Written (s : Settings) (ending : List Char) :
    Nat → Lexeme → List Lexeme → List Char → Prop where
  | last {depth : Nat} {before : Lexeme} : Written s ending depth before [] ending
  | next {depth : Nat} {before l : Lexeme} {ls : List Lexeme} {gap out : List Char} :
      Separator s depth before l gap → Written s ending (l.depthAfter depth) l ls out →
      Written s ending depth before (l :: ls) (gap ++ l.text ++ out)

/-! ## Gaps -/

/-- The text of a gap before something that stands inside `depth` lists. -/
def Gap.text (s : Settings) (depth : Nat) : Gap → List Char
  | hug => []
  | space => [' ']
  | line => '\n' :: s.indentation depth

namespace Sheet

theorem textOf_gapPieces (s : Sheet) (depth : Nat) (g : Gap) :
    textOf (s.gapPieces depth g) = g.text s.settings depth := by
  cases g with
  | hug => rfl
  | space => rfl
  | line => simp [gapPieces, lineBreak, Piece.text, Gap.text, Settings.indentation]

/-- Behind an opener the next lexeme hugs it. -/
theorem Behind.gapAhead_eq_hug {s : Sheet} {before : Lexeme} (h : s.Behind before)
    (hb : before.role = .opener) (l : Lexeme) (ls : List Lexeme) : s.gapAhead l ls = .hug := by
  obtain ⟨o, os, hs, hline⟩ := h.opener hb
  have hz : o.children = 0 := (h.top o (by simp [hs])).mpr hb
  cases hl : l.role with
  | opener => simp [gapAhead, gap?, hs, hl, hz]
  | atom => simp [gapAhead, gap?, hs, hl, hz]
  | closer => simp [gapAhead, gap?, hs, hl, OpenList.closesOnNewLine, hline]

theorem gapAhead_ne_space {s : Sheet} {l : Lexeme} (hl : l.role = .closer) (ls : List Lexeme) :
    s.gapAhead l ls ≠ .space := by
  cases hs : s.lists with
  | nil => simp [gapAhead, gap?, hs, hl]
  | cons o os =>
    simp only [gapAhead, gap?, hs, hl]
    split <;> simp

/-- Inside a list with a child every other child is set off. -/
theorem Behind.gapAhead_ne_hug {s : Sheet} {before l : Lexeme} (h : s.Behind before)
    (hb : before.role ≠ .opener) (hs : s.lists ≠ []) (hl : l.role ≠ .closer) (ls : List Lexeme) :
    s.gapAhead l ls ≠ .hug := by
  obtain ⟨o, os, hs⟩ := List.exists_cons_of_ne_nil hs
  have hz : o.children ≠ 0 := fun hz => hb ((h.top o (by simp [hs])).mp hz)
  have hcompact : ∀ w, s.compactGap w ≠ .hug := by
    intro w
    unfold compactGap
    split <;> simp
  unfold gapAhead gap?
  cases hr : l.role with
  | closer => exact absurd hr hl
  | atom =>
    simp only [hs, hz, if_false]
    split <;> grind
  | opener =>
    simp only [hs, hz, if_false]
    split <;> grind

/-- What has been written behind the lexeme printed last. -/
inductive Wrote (s : Sheet) (before : Lexeme) : List Char → Prop where
  /-- Nothing, and a complete lexeme leaves the line begun. -/
  | nothing : (before.Complete → 0 < s.cursor.column) → Wrote s before []
  /-- The end of the line, for the lexeme closes the last open list. -/
  | lineBreak : before = .closer → s.lists = [] → s.cursor.column = 0 → Wrote s before ['\n']

/-- The depth at which a gap before the lexeme is indented. -/
def gapDepth (s : Sheet) (l : Lexeme) : Nat :=
  if l.role = .closer then s.lists.length - 1 else s.lists.length

/-- A lexeme is printed with the gap before it and what is written behind it. -/
theorem exists_textOf_pieces (s : Sheet) (g : Gap) {l : Lexeme} (hl : l.Proper) :
    ∃ w, (s.put g l).Wrote l w ∧
      textOf (s.pieces g l) = g.text s.settings (s.gapDepth l) ++ l.text ++ w := by
  by_cases hout : l.role = .closer ∧ s.lists.length = 1
  · obtain ⟨hr, hlen⟩ := hout
    obtain rfl := hl.eq_closer hr
    have hp : s.pieces g .closer =
        s.gapPieces 0 g ++ [.lexeme .closer, s.lineBreak 0] := by
      simp [pieces, Lexeme.closer, hlen]
    refine ⟨['\n'], .lineBreak rfl ?_ ?_, ?_⟩
    · rw [lists_put_closer s g hr]
      exact List.length_eq_zero_iff.mp (by simp [hlen])
    · rw [cursor_put, hp]
      simp [Cursor.advancePieces, Cursor.nextPiece, Sheet.lineBreak, Settings.indent]
    · rw [hp, textOf_append, textOf_gapPieces, gapDepth, if_pos hr, hlen]
      simp [Piece.text, Sheet.lineBreak, Settings.indent, Indent.text]
  · have hp : s.pieces g l = s.gapPieces (s.gapDepth l) g ++ [.lexeme l] := by
      rcases hl with hr | rfl | rfl
      · simp [pieces, gapDepth, hr]
      · simp [pieces, gapDepth, Lexeme.opener]
      · have hlen : s.lists.length ≠ 1 := fun hlen => hout ⟨rfl, hlen⟩
        simp [pieces, gapDepth, Lexeme.closer, hlen]
    refine ⟨[], .nothing fun hc => ?_, ?_⟩
    · have hcur : (s.put g l).cursor =
          (s.cursor.advancePieces (s.gapPieces (s.gapDepth l) g)).advance l.text := by
        rw [cursor_put, hp]
        simp [Cursor.advancePieces, Cursor.nextPiece]
      rw [hcur]
      exact hc.column_pos _
    · rw [hp, textOf_append, textOf_gapPieces]
      simp [Piece.text]

/-- Outside all lists a closer follows at once, and all else on a new line. -/
theorem Wrote.append_gapAhead {s : Sheet} {before : Lexeme} {w : List Char}
    (hw : s.Wrote before w) (hc : before.Complete) (hs : s.lists = []) (l : Lexeme)
    (ls : List Lexeme) :
    w ++ (s.gapAhead l ls).text s.settings (s.gapDepth l) =
      if l.role = .closer then w else ['\n'] := by
  have hd : s.gapDepth l = 0 := by simp [gapDepth, hs]
  by_cases hl : l.role = .closer
  · have hg : s.gapAhead l ls = .hug := by simp [gapAhead, gap?, hs, hl]
    simp [hg, hl, Gap.text]
  · rw [if_neg hl, hd]
    cases hw with
    | nothing hcol =>
      have hg : s.gapAhead l ls = .line := by
        cases hr : l.role with
        | closer => exact absurd hr hl
        | opener => simp [gapAhead, gap?, hs, hr, hcol hc]
        | atom => simp [gapAhead, gap?, hs, hr, hcol hc]
      simp [hg, Gap.text]
    | lineBreak _ _ hcol =>
      have hg : s.gapAhead l ls = .hug := by
        cases hr : l.role with
        | closer => exact absurd hr hl
        | opener => simp [gapAhead, gap?, hs, hr, hcol]
        | atom => simp [gapAhead, gap?, hs, hr, hcol]
      simp [hg, Gap.text]

/-- **The gap before a lexeme, behind what is already written, separates it from the one before.** -/
theorem Behind.separator {s : Sheet} {before : Lexeme} {w : List Char} (hb : s.Behind before)
    (hw : s.Wrote before w) (hc : before.Complete) (l : Lexeme) (ls : List Lexeme) :
    Separator s.settings s.lists.length before l
      (w ++ (s.gapAhead l ls).text s.settings (s.gapDepth l)) := by
  by_cases hs : s.lists = []
  · have hopen : before.role ≠ .opener := by
      intro ho
      obtain ⟨o, os, hos, -⟩ := hb.opener ho
      exact absurd (hs.symm.trans hos) (by simp)
    rw [hw.append_gapAhead hc hs, hs]
    by_cases hl : l.role = .closer
    · rw [if_pos hl]
      cases hw with
      | nothing _ => exact ⟨.inl rfl, fun h => absurd h hopen, fun _ => .inr hl, by simp,
          fun _ h => absurd hl h⟩
      | lineBreak _ _ _ => exact ⟨.inr (.inr (by simp)), fun h => absurd h hopen, by simp,
          by simp, fun _ h => absurd hl h⟩
    · rw [if_neg hl]
      exact ⟨.inr (.inr (by simp)), fun h => absurd h hopen, by simp, by simp, by simp⟩
  · -- inside a list nothing has been written yet, and the sheet chooses the gap
    obtain rfl : w = [] := by
      cases hw with
      | nothing _ => rfl
      | lineBreak _ h _ => exact absurd h hs
    have hlen : s.lists.length ≠ 0 := fun h => hs (List.length_eq_zero_iff.mp h)
    rw [List.nil_append]
    refine ⟨?_, fun ho => ?_, fun hn => ?_, fun hl hsp => ?_, fun h => absurd h hlen⟩
    · cases s.gapAhead l ls with
      | hug => exact .inl rfl
      | space => exact .inr (.inl rfl)
      | line => exact .inr (.inr rfl)
    · rw [hb.gapAhead_eq_hug ho]
      rfl
    · by_contra hno
      rw [not_or] at hno
      cases hg : s.gapAhead l ls with
      | hug => exact hb.gapAhead_ne_hug hno.1 hs hno.2 ls hg
      | space => exact absurd hn (by simp [hg, Gap.text])
      | line => exact absurd hn (by simp [hg, Gap.text])
    · cases hg : s.gapAhead l ls with
      | hug => exact absurd hsp (by simp [hg, Gap.text])
      | space => exact gapAhead_ne_space hl ls hg
      | line => exact absurd hsp (by simp [hg, Gap.text])

end Sheet

/-! ## Whole texts -/

/-- Lexemes that a text can have: complete, but for a last one that may be cut off. -/
structure Scanned (ls : List Lexeme) : Prop where
  complete : ∀ l ∈ ls.dropLast, l.Complete
  last : ∀ l ∈ ls.getLast?, l.Complete ∨ l.CutOff

namespace Scanned

theorem of_text (text : List Char) : Scanned (lexemes text) where
  complete := (AsScanned.of_text text).complete
  last := by
    intro l hl
    cases hi : (scannerAfter text).inString with
    | false => exact .inl (complete_of_mem_lexemes hi l (List.mem_of_getLast? hl))
    | true =>
      obtain ⟨l', hls, hcut⟩ := lexemes_of_inString hi
      obtain rfl : l' = l := by simpa [hls] using hl
      exact .inr hcut

theorem mem_cases {ls : List Lexeme} (h : Scanned ls) {l : Lexeme} (hl : l ∈ ls) :
    l.Complete ∨ l.CutOff := by
  have hne : ls ≠ [] := List.ne_nil_of_mem hl
  rw [← List.dropLast_append_getLast hne] at hl
  rcases List.mem_append.mp hl with hl | hl
  · exact .inl (h.complete l hl)
  · refine h.last l ?_
    rw [List.getLast?_eq_some_getLast hne]
    exact congrArg some (List.mem_singleton.mp hl).symm

theorem proper {ls : List Lexeme} (h : Scanned ls) : ∀ l ∈ ls, l.Proper := by
  intro l hl
  rcases h.mem_cases hl with hc | hc
  · exact hc.proper
  · exact hc.proper

theorem head_complete {before l : Lexeme} {ls : List Lexeme} (h : Scanned (before :: l :: ls)) :
    before.Complete :=
  h.complete before (by simp)

theorem tail {before l : Lexeme} {ls : List Lexeme} (h : Scanned (before :: l :: ls)) :
    Scanned (l :: ls) where
  complete x hx := h.complete x (by simpa using Or.inr hx)
  last x hx := h.last x (by simpa [List.getLast?_cons] using hx)

/-- A lexeme that does not stop inside a string is complete. -/
theorem complete_of_outside {l : Lexeme} (h : Scanned [l]) (hs : endsInString [l] = false) :
    l.Complete := by
  rcases h.last l (by simp) with hc | ⟨sc, hi, hr, rfl⟩
  · exact hc
  · have ht : (Lexeme.atom sc.buffer).text = sc.buffer := rfl
    exact absurd hs (by simp [endsInString, ht, hr, hi])

end Scanned

theorem endsInString_cons_cons (before l : Lexeme) (ls : List Lexeme) :
    endsInString (before :: l :: ls) = endsInString (l :: ls) := by
  simp [endsInString, List.getLast?_cons]

/-- What ends the last line: nothing if the text stops inside a string. -/
def lineEnd (ls : List Lexeme) : List Char := if endsInString ls then [] else ['\n']

theorem Sheet.Wrote.append_endPieces {s : Sheet} {before : Lexeme} {w : List Char}
    (hw : s.Wrote before w) (h : Scanned [before]) :
    w ++ textOf (s.endPieces (!endsInString [before])) = lineEnd [before] := by
  unfold lineEnd endPieces
  cases hw with
  | nothing hcol =>
    cases he : endsInString [before] with
    | true => simp
    | false =>
      have hpos := hcol (h.complete_of_outside he)
      simp [hpos, Sheet.lineBreak, Piece.text, Settings.indent, Indent.text]
  | lineBreak hb _ hcol =>
    have he : endsInString [before] = false := by
      rw [hb]
      rfl
    simp [he, hcol]

/-- **Lexemes printed ahead are separated as they may be.** -/
theorem Sheet.Behind.written {s : Sheet} {before : Lexeme} {w : List Char} {ls : List Lexeme}
    (hb : s.Behind before) (hw : s.Wrote before w) (h : Scanned (before :: ls)) :
    Written s.settings (lineEnd (before :: ls)) s.lists.length before ls
      (w ++ textOf ((s.printAhead ls).1 ++
        (s.printAhead ls).2.endPieces (!endsInString (before :: ls)))) := by
  induction ls generalizing s before w with
  | nil =>
    rw [printAhead, List.nil_append, hw.append_endPieces h]
    exact .last
  | cons l ls ih =>
    obtain ⟨w', hw', htext⟩ := exists_textOf_pieces s (s.gapAhead l ls) (h.tail.proper l (by simp))
    have hb' := behind_put hb.outer (s.gapAhead l ls) l
    have hrest := ih hb' hw' h.tail
    rw [settings_put, length_lists_put] at hrest
    have hsep := hb.separator hw h.head_complete l ls
    have hall := Written.next hsep hrest
    rw [printAhead, lineEnd, endsInString_cons_cons, ← lineEnd]
    simp only [textOf_append, htext, List.append_assoc] at hall ⊢
    exact hall

theorem reflow_eq_textOf_printedAhead (s : Settings) (text : List Char) :
    reflow s text = textOf (printedAhead s (lexemes text) (!endsInString (lexemes text))) := by
  rw [reflow, reflowPieces_eq, Printer.pieces_eq_printedAhead s _ proper_of_mem_lexemes]

theorem Sheet.gapAhead_start (s : Settings) (l : Lexeme) (ls : List Lexeme) :
    Sheet.gapAhead { settings := s } l ls = .hug := by
  cases hr : l.role <;> simp [Sheet.gapAhead, Sheet.gap?, hr]

theorem written_reflow (s : Settings) {text : List Char} {l : Lexeme} {ls : List Lexeme}
    (h : lexemes text = l :: ls) :
    ∃ out, reflow s text = l.text ++ out ∧
      Written s (lineEnd (l :: ls)) (l.depthAfter 0) l ls out := by
  have hscan : Scanned (l :: ls) := h ▸ .of_text text
  generalize hstart : ({ settings := s } : Sheet) = start
  have hg : start.gapAhead l ls = .hug := hstart ▸ Sheet.gapAhead_start s l ls
  have houter : start.OuterBegun := hstart ▸ Sheet.outerBegun_start s
  obtain ⟨w, hw, htext⟩ := start.exists_textOf_pieces .hug (hscan.proper l (by simp))
  have hrest := (Sheet.behind_put houter .hug l).written hw hscan
  rw [Sheet.settings_put, Sheet.length_lists_put] at hrest
  refine ⟨_, ?_, by simpa [← hstart] using hrest⟩
  rw [reflow_eq_textOf_printedAhead, h, printedAhead, hstart, Sheet.printAhead, hg]
  simp only [textOf_append, htext, Gap.text, List.nil_append, List.append_assoc]

end SExprReflow
