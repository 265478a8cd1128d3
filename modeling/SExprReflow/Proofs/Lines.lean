import SExprReflow.Proofs.WhiteSpace

/-!
# The lines of a printed text

From the white space between lexemes to the lines of a text it is one more step, and it goes through
the scanner: a line break inside an atom is inside a string, so every other one belongs to a
separator. Such a line break follows a lexeme directly, and behind it there is the indentation of
the next lexeme and nothing else, or the text ends.
-/

namespace SExprReflow

open Piece

/-! ## Separators inside atoms -/

namespace Scanner

theorem length_pending_read_le (s : Scanner) (c : Char) :
    (s.read c).2.pending.length ≤ s.pending.length + 1 := by
  obtain ⟨_, _, -, hr⟩ | ⟨-, -, ls, -, hr⟩ := s.read_cases c
  · rw [hr]
    simp
  · rw [hr]
    simp

theorem length_pending_readAll_le (s : Scanner) (cs : List Char) :
    (s.readAll cs).2.pending.length ≤ s.pending.length + cs.length := by
  induction cs generalizing s with
  | nil => simp
  | cons c cs ih =>
    have hc := s.length_pending_read_le c
    have hcs := ih (s.read c).2
    simp only [readAll_cons, List.length_cons]
    omega

/-- Whether a character ends an atom outside strings. -/
def isSeparator (c : Char) : Bool := c = '(' || c = ')' || CharClass.isBlank c

theorem ne_quote_of_isSeparator {c : Char} (hc : isSeparator c = true) : c ≠ '"' := by
  rintro rfl
  exact absurd hc (by decide)

theorem pending_read_of_isSeparator {s : Scanner} {c : Char} (hc : isSeparator c = true)
    (hi : s.inString = false) (he : s.escaped = false) : (s.read c).2.pending = [] := by
  have hq := ne_quote_of_isSeparator hc
  simp only [isSeparator, Bool.or_eq_true, decide_eq_true_eq] at hc
  by_cases ho : c = '('
  · simp [read, CharClass.of, hi, he, ho]
  · by_cases hcl : c = ')'
    · simp [read, CharClass.of, hi, he, hcl]
    · have hb : CharClass.isBlank c = true := by
        rcases hc with (h | h) | h
        · exact absurd h ho
        · exact absurd h hcl
        · exact h
      simp [read, CharClass.of, hi, he, hq, ho, hcl, hb]

/-- A string goes on over a separator. -/
theorem inString_read_of_isSeparator {s : Scanner} {c : Char} (hc : isSeparator c = true)
    (hi : s.inString = true) : (s.read c).2.inString = true := by
  have hq := ne_quote_of_isSeparator hc
  unfold read CharClass.of
  rw [hi]
  cases s.escaped with
  | true => rfl
  | false =>
    by_cases hb : c = '\\'
    · simp [hb]
    · simp [hq, hb]

end Scanner

/-- A text that is read as one atom, finished or not. -/
def ReadsAsAtom (text : List Char) : Prop :=
  ∃ sc : Scanner, ({} : Scanner).readAll text = ([], sc) ∧ sc.buffer = text

theorem Lexeme.Complete.readsAsAtom {l : Lexeme} (h : l.Complete) (hr : l.role = .atom) :
    ReadsAsAtom l.text := by
  cases h with
  | opener => exact absurd hr (by simp [Lexeme.opener])
  | closer => exact absurd hr (by simp [Lexeme.closer])
  | @atom text _ ht => exact ⟨_, ht, by simp [Lexeme.atom, Scanner.holding, Scanner.buffer]⟩

theorem Lexeme.CutOff.readsAsAtom {l : Lexeme} (h : l.CutOff) : ReadsAsAtom l.text := by
  obtain ⟨sc, -, hr, rfl⟩ := h
  exact ⟨sc, hr, rfl⟩

/-- **A separator inside an atom is inside a string.** Outside strings it would end the atom, and
the characters before it would be gone. -/
theorem ReadsAsAtom.inString {u v : List Char} {c : Char} (h : ReadsAsAtom (u ++ c :: v))
    (hc : Scanner.isSeparator c = true) : (scannerAfter u).inString = true := by
  obtain ⟨sc, hr, hb⟩ := h
  have hcoh := coherent_scannerAfter u
  cases hi : (scannerAfter u).inString with
  | true => rfl
  | false =>
    exfalso
    have he : (scannerAfter u).escaped = false := by
      cases he : (scannerAfter u).escaped with
      | false => rfl
      | true => exact absurd (hcoh.inString_of_escaped he) (by simp [hi])
    have hz := Scanner.pending_read_of_isSeparator hc hi he
    have hsc : (((scannerAfter u).read c).2.readAll v).2 = sc := by
      have := congrArg Prod.snd hr
      rwa [Scanner.readAll_append, Scanner.readAll_cons] at this
    have hle := Scanner.length_pending_readAll_le ((scannerAfter u).read c).2 v
    rw [hsc, hz] at hle
    have hlen : sc.pending.length = u.length + (v.length + 1) := by
      have := congrArg List.length hb
      simpa [Scanner.buffer] using this
    simp only [List.length_nil] at hle
    omega

theorem not_isSeparator_head {l : Lexeme} (h : ReadsAsAtom l.text) {c : Char} {v : List Char}
    (hl : l.text = c :: v) : Scanner.isSeparator c = false := by
  cases hc : Scanner.isSeparator c with
  | false => rfl
  | true =>
    have hi := ReadsAsAtom.inString (u := []) (hl ▸ h) hc
    exact absurd hi (by decide)

/-- A complete lexeme ends with a character that shows. -/
theorem Lexeme.Complete.getLast?_not_blank {l : Lexeme} (h : l.Complete) :
    ∃ c, l.text.getLast? = some c ∧ CharClass.isBlank c = false := by
  cases h with
  | opener => exact ⟨'(', rfl, rfl⟩
  | closer => exact ⟨')', rfl, rfl⟩
  | @atom text hne hr =>
    obtain ⟨u, c, rfl⟩ : ∃ u c, text = u ++ [c] :=
      ⟨_, _, (List.dropLast_append_getLast hne).symm⟩
    refine ⟨c, by simp [Lexeme.atom], ?_⟩
    cases hb : CharClass.isBlank c with
    | false => rfl
    | true =>
      have hc : Scanner.isSeparator c = true := by simp [Scanner.isSeparator, hb]
      have hi := ((Lexeme.Complete.atom hne hr).readsAsAtom rfl).inString hc
      -- the string would still be open behind the last character
      have hin := Scanner.inString_read_of_isSeparator hc hi
      have hs : ((scannerAfter u).read c).2 = .holding (u ++ [c]) := by
        have := congrArg Prod.snd hr
        rwa [Scanner.readAll_append, Scanner.readAll_cons, Scanner.readAll_nil] at this
      rw [hs] at hin
      exact absurd hin (by simp [Scanner.holding])

/-! ## Written texts -/

/-- The atom that the scanner holds behind a lexeme. -/
def Lexeme.heldText (l : Lexeme) : List Char := if l.role = .atom then l.text else []

/-- A complete lexeme is read in full, if nothing is being read that it would go on with. -/
theorem Lexeme.Complete.readAll_holding {l : Lexeme} (hc : l.Complete) {t : List Char}
    (ht : l.role = .atom → t = []) :
    ∃ ls, (Scanner.holding t).readAll l.text = (ls, .holding l.heldText) ∧
      ls ++ (Scanner.holding l.heldText).pendingAtom = (Scanner.holding t).pendingAtom ++ [l] := by
  by_cases hr : l.role = .atom
  · obtain rfl := ht hr
    rw [heldText, if_pos hr]
    cases hc with
    | opener => exact absurd hr (by simp [Lexeme.opener])
    | closer => exact absurd hr (by simp [Lexeme.closer])
    | @atom a hne hra =>
      have hat : (Lexeme.atom a).text = a := rfl
      rw [Scanner.holding_nil, hat, hra, Scanner.pendingAtom_holding hne]
      exact ⟨[], rfl, rfl⟩
  · have hp : (Piece.lexeme l).isAtom = false := by simp [isAtom, hr]
    have hra := Scanner.readAll_of_not_atom hp (by simpa [lexeme?] using hc) t
    rw [heldText, if_neg hr]
    exact ⟨_, hra, by simp [lexeme?]⟩

/-- The text reads as lexemes of which `before` is the last, and `depth` lists are open behind. -/
structure Upto (text : List Char) (before : Lexeme) (depth : Nat) : Prop where
  scannerAfter_eq : scannerAfter text = .holding before.heldText
  nesting_eq : nesting 0 (lexemes text) = depth
  last : ∃ c, text.getLast? = some c ∧ CharClass.isBlank c = false

theorem endedLexemes_append (a b : List Char) :
    endedLexemes (a ++ b) = endedLexemes a ++ ((scannerAfter a).readAll b).1 := by
  simp [endedLexemes, scannerAfter, Scanner.readAll_append]

theorem scannerAfter_append (a b : List Char) :
    scannerAfter (a ++ b) = ((scannerAfter a).readAll b).2 := by
  simp [scannerAfter, Scanner.readAll_append]

/-- A gap ends the atom before it. -/
theorem Separator.readAll_of_ne_nil {s : Settings} {depth : Nat} {before l : Lexeme}
    {gap : List Char} (h : Separator s depth before l gap) (hne : gap ≠ []) (t : List Char) :
    (Scanner.holding t).readAll gap = ((Scanner.holding t).pendingAtom, {}) := by
  rcases h.form with hg | hg | hg
  · exact absurd hg hne
  · rw [hg, Scanner.readAll_cons, Scanner.read_blank rfl]
    simp
  · rw [hg]
    exact Scanner.readAll_lineBreak t _

namespace Upto

/-- Behind a gap all lexemes of the text are known, and only a closer may find the last of them
still being read. -/
theorem gap {s : Settings} {text gap : List Char} {before l : Lexeme} {depth : Nat}
    (h : Upto text before depth) (hs : Separator s depth before l gap) :
    ∃ t, scannerAfter (text ++ gap) = .holding t ∧
      endedLexemes (text ++ gap) ++ (Scanner.holding t).pendingAtom = lexemes text ∧
      (l.role ≠ .closer → t = []) := by
  have hlex := lexemes_eq text
  rw [h.scannerAfter_eq] at hlex
  by_cases hne : gap = []
  · subst hne
    rw [List.append_nil]
    refine ⟨_, h.scannerAfter_eq, hlex.symm, fun hl => ?_⟩
    rcases hs.of_nil rfl with hb | hc
    · simp [Lexeme.heldText, hb]
    · exact absurd hc hl
  · refine ⟨[], ?_, ?_, fun _ => rfl⟩
    · rw [scannerAfter_append, h.scannerAfter_eq, hs.readAll_of_ne_nil hne]
      rfl
    · rw [endedLexemes_append, h.scannerAfter_eq, hs.readAll_of_ne_nil hne, hlex]
      simp

theorem next {s : Settings} {text gap : List Char} {before l : Lexeme} {depth : Nat}
    (h : Upto text before depth) (hs : Separator s depth before l gap) (hc : l.Complete) :
    Upto (text ++ gap ++ l.text) l (l.depthAfter depth) := by
  obtain ⟨t, hsc, hlex, ht⟩ := h.gap hs
  obtain ⟨ls, hread, hls⟩ := hc.readAll_holding fun hr => ht (by simp [hr])
  have hlexemes : lexemes (text ++ gap ++ l.text) = lexemes text ++ [l] := by
    rw [lexemes_eq, endedLexemes_append (text ++ gap), scannerAfter_append (text ++ gap), hsc,
      hread, List.append_assoc, hls, ← List.append_assoc, hlex]
  obtain ⟨c, hlast, hb⟩ := hc.getLast?_not_blank
  refine ⟨?_, ?_, c, ?_, hb⟩
  · rw [scannerAfter_append (text ++ gap), hsc, hread]
  · rw [hlexemes, nesting_append, h.nesting_eq]
    rfl
  · rw [List.getLast?_append, hlast]
    rfl

theorem first {l : Lexeme} (hc : l.Complete) : Upto l.text l (l.depthAfter 0) := by
  obtain ⟨ls, hread, hls⟩ := hc.readAll_holding (t := []) fun _ => rfl
  rw [Scanner.holding_nil] at hread
  have hlexemes : lexemes l.text = [l] := by
    rw [lexemes_eq, endedLexemes, scannerAfter, hread, hls]
    rfl
  exact ⟨by rw [scannerAfter, hread], by rw [hlexemes]; rfl, hc.getLast?_not_blank⟩

end Upto

/-- A line break with the text on both sides of it. The line before it ends with a character that
shows. The line behind it is indented as deep as the lists that are open there, one less if the
line begins with a closer; or there is no such line. -/
structure CleanBreak (s : Settings) (a b : List Char) : Prop where
  ends : ∃ c, a.getLast? = some c ∧ CharClass.isBlank c = false
  begins : b = [] ∨ ∃ c rest, CharClass.isBlank c = false ∧
    b = s.indentation (nesting 0 (lexemes a) - if c = ')' then 1 else 0) ++ c :: rest

theorem Scanned.text_ne_nil {ls : List Lexeme} (h : Scanned ls) {l : Lexeme} (hl : l ∈ ls) :
    l.text ≠ [] := by
  rcases h.mem_cases hl with hc | ⟨sc, hi, hr, rfl⟩
  · obtain ⟨c, hlast, -⟩ := hc.getLast?_not_blank
    intro hn
    rw [hn] at hlast
    exact absurd hlast (by simp)
  · intro hn
    have hb : sc.buffer = [] := hn
    rw [hb, Scanner.readAll_nil] at hr
    rw [← (Prod.mk.inj hr).2] at hi
    exact absurd hi (by simp)

/-- The first character of a lexeme shows, and it is a closing delimiter if the lexeme is one. -/
theorem Scanned.head_text {ls : List Lexeme} (h : Scanned ls) {l : Lexeme} (hl : l ∈ ls) :
    ∃ c v, l.text = c :: v ∧ CharClass.isBlank c = false ∧ (c = ')' ↔ l.role = .closer) := by
  by_cases hr : l.role = .atom
  · have hread : ReadsAsAtom l.text := by
      rcases h.mem_cases hl with hc | hc
      · exact hc.readsAsAtom hr
      · exact hc.readsAsAtom
    cases ht : l.text with
    | nil => exact absurd ht (h.text_ne_nil hl)
    | cons c v =>
      have hs := not_isSeparator_head hread ht
      simp only [Scanner.isSeparator, Bool.or_eq_false_iff, decide_eq_false_iff_not] at hs
      exact ⟨c, v, rfl, hs.2, by simp [hs.1.2, hr]⟩
  · rcases h.proper l hl with ha | rfl | rfl
    · exact absurd ha hr
    · exact ⟨'(', [], rfl, rfl, by simp [Lexeme.opener]⟩
    · exact ⟨')', [], rfl, rfl, by simp [Lexeme.closer]⟩

theorem Indent.newline_not_mem_text (i : Indent) : '\n' ∉ i.text := by
  intro h
  have hc := List.eq_of_mem_replicate h
  cases hi : i.char with
  | space => exact absurd hc (by simp [hi, IndentChar.toChar])
  | tab => exact absurd hc (by simp [hi, IndentChar.toChar])

theorem newline_not_mem_indentation (s : Settings) (depth : Nat) : '\n' ∉ s.indentation depth :=
  (s.indent depth).newline_not_mem_text

/-- A character of a text in two parts stands in one of them. -/
theorem mem_part {x y a b : List Char} {c : Char} (h : x ++ y = a ++ c :: b) :
    (∃ v, x = a ++ c :: v ∧ b = v ++ y) ∨ ∃ u, y = u ++ c :: b ∧ a = x ++ u := by
  rcases List.append_eq_append_iff.mp h with ⟨u, hu, hy⟩ | ⟨v, hx, hv⟩
  · exact .inr ⟨u, hy, hu⟩
  · cases v with
    | nil => exact .inr ⟨[], by simpa using hv.symm, by simpa using hx.symm⟩
    | cons d v =>
      obtain ⟨rfl, hb⟩ := List.cons.inj hv
      exact .inl ⟨v, hx, hb⟩

/-- A gap that has a line break in it begins with it. -/
theorem Separator.eq_of_newline {s : Settings} {depth : Nat} {before l : Lexeme}
    {a b : List Char} (h : Separator s depth before l (a ++ '\n' :: b)) :
    a = [] ∧ b = s.indentation (if l.role = .closer then depth - 1 else depth) := by
  rcases h.form with hg | hg | hg
  · exact absurd hg (by simp)
  · cases a with
    | nil => exact absurd hg (by simp)
    | cons c a => exact absurd hg (by simp)
  · cases a with
    | nil => exact ⟨rfl, by simpa using hg⟩
    | cons c a =>
      -- the indentation would have a line break in it
      have hmem : '\n' ∈ s.indentation (if l.role = .closer then depth - 1 else depth) := by
        rw [List.cons_append, List.cons.injEq] at hg
        rw [← hg.2]
        simp
      exact absurd hmem (newline_not_mem_indentation s _)

/-- The end of a text has no line break behind a lexeme that is cut off. -/
theorem Written.complete_of_newline {s : Settings} {depth : Nat} {before : Lexeme}
    {ls : List Lexeme} {out : List Char} (hscan : Scanned (before :: ls))
    (h : Written s (lineEnd (before :: ls)) depth before ls out) (hout : '\n' ∈ out) :
    before.Complete := by
  cases ls with
  | cons l ls => exact hscan.head_complete
  | nil =>
    cases h with
    | last =>
      refine hscan.complete_of_outside ?_
      cases he : endsInString [before] with
      | false => rfl
      | true => exact absurd hout (by simp [lineEnd, he])

/-- A line break in a lexeme is inside a string. -/
theorem Scanned.inString_of_newline {ls : List Lexeme} (h : Scanned ls) {l : Lexeme} (hl : l ∈ ls)
    {u v : List Char} (ht : l.text = u ++ '\n' :: v) :
    l.role = .atom ∧ (scannerAfter u).inString = true := by
  have hr : l.role = .atom := by
    rcases h.proper l hl with hr | rfl | rfl
    · exact hr
    · exact absurd ht (by simp [Lexeme.opener, List.cons_eq_append_iff])
    · exact absurd ht (by simp [Lexeme.closer, List.cons_eq_append_iff])
  refine ⟨hr, ?_⟩
  rcases h.mem_cases hl with hc | hc
  · have hatom := hc.readsAsAtom hr
    rw [ht] at hatom
    exact hatom.inString (by decide)
  · have hatom := hc.readsAsAtom
    rw [ht] at hatom
    exact hatom.inString (by decide)

/-- **A line break outside strings is clean**, wherever it stands behind the lexemes of a text. -/
theorem Written.cleanBreak {s : Settings} {depth : Nat} {before : Lexeme} {ls : List Lexeme}
    {out text a b : List Char} (hscan : Scanned (before :: ls))
    (h : Written s (lineEnd (before :: ls)) depth before ls out) (hup : Upto text before depth)
    (hout : out = a ++ '\n' :: b) (hi : (scannerAfter (text ++ a)).inString = false) :
    CleanBreak s (text ++ a) b := by
  generalize he : lineEnd (before :: ls) = e at h
  induction h generalizing text a with
  | @last depth before =>
    have hab : a = [] ∧ b = [] := by
      rw [← he, lineEnd] at hout
      split at hout
      · exact absurd hout (by simp)
      · cases a with
        | nil => exact ⟨rfl, by simpa using hout.symm⟩
        | cons c a => exact absurd hout (by simp)
    obtain ⟨rfl, rfl⟩ := hab
    rw [List.append_nil]
    exact ⟨hup.last, .inl rfl⟩
  | @next depth before l ls gap out hsep hw ih =>
    rw [lineEnd, endsInString_cons_cons, ← lineEnd] at he
    rw [List.append_assoc] at hout
    have hl : l ∈ before :: l :: ls := by simp
    rcases mem_part hout with ⟨v, rfl, hb⟩ | ⟨u, hu, rfl⟩
    · -- in the gap
      obtain ⟨rfl, rfl⟩ := hsep.eq_of_newline
      obtain ⟨c, w, htext, hblank, hclose⟩ := hscan.head_text hl
      rw [List.append_nil]
      refine ⟨hup.last, .inr ⟨c, w ++ out, hblank, ?_⟩⟩
      rw [hb, htext, hup.nesting_eq]
      by_cases hr : l.role = .closer
      · simp [hr, hclose.mpr hr]
      · have hne : c ≠ ')' := fun h => hr (hclose.mp h)
        simp [hr, hne]
    · rcases mem_part hu with ⟨v, htext, hb⟩ | ⟨w, hw', rfl⟩
      · -- in an atom, and so in a string
        exfalso
        obtain ⟨hr, hin⟩ := hscan.inString_of_newline hl htext
        obtain ⟨t, hsc, -, ht⟩ := hup.gap hsep
        obtain rfl := ht (by simp [hr])
        rw [← List.append_assoc, scannerAfter_append, hsc] at hi
        exact absurd (hin.symm.trans hi) (by simp)
      · -- behind the lexeme
        subst he
        have hc := Written.complete_of_newline hscan.tail hw (by simp [hw'])
        have hbreak := ih hscan.tail (hup.next hsep hc) hw' (by simpa using hi) rfl
        simpa using hbreak

theorem reflow_of_lexemes_eq_nil (s : Settings) {text : List Char} (h : lexemes text = []) :
    reflow s text = [] := by
  rw [reflow_eq_textOf_printedAhead, h]
  rfl

theorem cleanBreak_reflow (s : Settings) {text a b : List Char}
    (h : reflow s text = a ++ '\n' :: b) (hi : (scannerAfter a).inString = false) :
    CleanBreak s a b := by
  cases hls : lexemes text with
  | nil => exact absurd (h.symm.trans (reflow_of_lexemes_eq_nil s hls)) (by simp)
  | cons l ls =>
    have hscan : Scanned (l :: ls) := hls ▸ .of_text text
    obtain ⟨out, hout, hw⟩ := written_reflow s hls
    rcases mem_part (hout.symm.trans h) with ⟨v, htext, -⟩ | ⟨u, hu, rfl⟩
    · obtain ⟨-, hin⟩ := hscan.inString_of_newline (by simp) htext
      exact absurd (hin.symm.trans hi) (by simp)
    · have hc := Written.complete_of_newline hscan hw (by simp [hu])
      exact Written.cleanBreak hscan hw (.first hc) hu hi

/-- **The white space of a printed text.** A text without lexemes prints as nothing. Otherwise the
lexemes are separated as `Separator` allows, and the last line is ended unless the text stops inside
a string. It follows that no line is blank, that no line ends with white space, and that every line
is indented by its depth, as long as the line does not begin, or end, inside a string. Within bounds
the same text comes out, or the error of the first line break that is too long. -/
theorem reflow_white_space [Memory] (s : Settings) (text : List Char) :
    (lexemes text = [] → reflow s text = []) ∧
      (∀ l ls, lexemes text = l :: ls → ∃ out, reflow s text = l.text ++ out ∧
        Written s (if endsInString (l :: ls) then [] else ['\n']) (l.depthAfter 0) l ls out) ∧
      (∀ c ∈ (reflow s text).head?, CharClass.isBlank c = false) ∧
      (∀ a b, reflow s text = a ++ '\n' :: b → (scannerAfter a).inString = false →
        CleanBreak s a b) ∧
      (reflowWithin s text).result = text? (reflowPieces s text) := by
  refine ⟨reflow_of_lexemes_eq_nil s, fun l ls h => written_reflow s h, fun c hc => ?_,
    fun a b h hi => cleanBreak_reflow s h hi, result_reflowWithin s text⟩
  cases hls : lexemes text with
  | nil => exact absurd hc (by simp [reflow_of_lexemes_eq_nil s hls])
  | cons l ls =>
    have hscan : Scanned (l :: ls) := hls ▸ .of_text text
    obtain ⟨out, hout, -⟩ := written_reflow s hls
    obtain ⟨d, v, htext, hblank, -⟩ := hscan.head_text (l := l) (by simp)
    obtain rfl : d = c := by simpa [hout, htext] using hc
    exact hblank

end SExprReflow
