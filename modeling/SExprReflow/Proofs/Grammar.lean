import SExprReflow.Proofs.Lines

/-!
# The grammar of texts

The scanner is a machine with two flags. What it reads can be said without it: a text is lexemes
with white space around them, an atom is made of plain characters and strings, and a string goes on
to the first quote that is not behind a backslash. Two atoms need white space between them, and only
the last lexeme can be a string that never ends.

`Dissection` is a text taken apart in this way. Every text has exactly one, and its lexemes are those
of the scanner. For one direction the flags of the scanner say how far the atom that it holds is
spelled (`Scanner.Spelled`); for the other each lexeme of a dissection is read in turn.
-/

namespace SExprReflow

open Piece

/-! ## Atoms -/

/-- The white space between lexemes. -/
def blanks : List Char := [' ', '\t', '\r', '\n']

theorem isBlank_iff {c : Char} : CharClass.isBlank c = true ↔ c ∈ blanks := by
  simp [CharClass.isBlank, blanks, or_assoc]

/-- A character that stands for itself in an atom. A backslash is one. -/
def PlainChar (c : Char) : Prop := c ∉ blanks ∧ c ≠ '(' ∧ c ≠ ')' ∧ c ≠ '"'

/-- What stands between the quotes of a string. -/
inductive StringBody : List Char → Prop where
  | nil : StringBody []
  | char {c : Char} {cs : List Char} : c ≠ '"' → c ≠ '\\' → StringBody cs → StringBody (c :: cs)
  | escape {c : Char} {cs : List Char} : StringBody cs → StringBody ('\\' :: c :: cs)

/-- A part of an atom: a character by itself, or a string. -/
inductive AtomPart : List Char → Prop where
  | plain {c : Char} : PlainChar c → AtomPart [c]
  | quoted {body : List Char} : StringBody body → AtomPart ('"' :: (body ++ ['"']))

/-- Any number of parts, one behind the other. -/
def AtomParts (text : List Char) : Prop :=
  ∃ parts : List (List Char), (∀ p ∈ parts, AtomPart p) ∧ text = parts.flatten

/-- An atom: one part at least. -/
def IsAtom (text : List Char) : Prop := text ≠ [] ∧ AtomParts text

/-- An atom whose last string has no end. It may stop behind a backslash. -/
def IsCutAtom (text : List Char) : Prop :=
  ∃ front body tail, AtomParts front ∧ StringBody body ∧ (tail = [] ∨ tail = ['\\']) ∧
    text = front ++ '"' :: (body ++ tail)

/-- A lexeme with nothing missing, as it is spelled. -/
inductive Lexeme.Spelled : Lexeme → Prop where
  | opener : Spelled .opener
  | closer : Spelled .closer
  | atom {text : List Char} : IsAtom text → Spelled (.atom text)

theorem StringBody.append {a b : List Char} (ha : StringBody a) (hb : StringBody b) :
    StringBody (a ++ b) := by
  induction ha with
  | nil => exact hb
  | char hq he _ ih => exact .char hq he ih
  | escape _ ih => exact .escape ih

theorem AtomParts.nil : AtomParts [] := ⟨[], by simp, rfl⟩

theorem AtomParts.concat {text p : List Char} (h : AtomParts text) (hp : AtomPart p) :
    AtomParts (text ++ p) := by
  obtain ⟨parts, hparts, rfl⟩ := h
  refine ⟨parts ++ [p], fun x hx => ?_, by simp⟩
  rcases List.mem_append.mp hx with hx | hx
  · exact hparts x hx
  · rw [List.mem_singleton.mp hx]
    exact hp

/-! ## From the scanner to the grammar -/

namespace Scanner

/-- How far the atom is spelled that the scanner holds. -/
inductive Spelled : Scanner → Prop where
  | outside {front : List Char} : AtomParts front → Spelled ⟨front.reverse, false, false⟩
  | inside {front body : List Char} : AtomParts front → StringBody body →
      Spelled ⟨(front ++ '"' :: body).reverse, true, false⟩
  | escaped {front body : List Char} : AtomParts front → StringBody body →
      Spelled ⟨(front ++ '"' :: (body ++ ['\\'])).reverse, true, true⟩

/-- Outside strings a character is plain, begins a string or ends the atom. -/
theorem read_outside (pending : List Char) (c : Char) :
    (PlainChar c ∧ read ⟨pending, false, false⟩ c = ([], ⟨c :: pending, false, false⟩)) ∨
    (c = '"' ∧ read ⟨pending, false, false⟩ c = ([], ⟨c :: pending, true, false⟩)) ∨
    (c ∈ blanks ∧
      read ⟨pending, false, false⟩ c = (pendingAtom ⟨pending, false, false⟩, {})) ∨
    ∃ l : Lexeme, (l = .opener ∨ l = .closer) ∧ l.text = [c] ∧
      read ⟨pending, false, false⟩ c = (pendingAtom ⟨pending, false, false⟩ ++ [l], {}) := by
  by_cases hq : c = '"'
  · exact .inr (.inl ⟨hq, by simp [read, CharClass.of, hq]⟩)
  · by_cases ho : c = '('
    · subst ho
      exact .inr (.inr (.inr ⟨.opener, .inl rfl, rfl, by simp [read, CharClass.of]⟩))
    · by_cases hc : c = ')'
      · subst hc
        exact .inr (.inr (.inr ⟨.closer, .inr rfl, rfl, by simp [read, CharClass.of]⟩))
      · by_cases hb : c ∈ blanks
        · have hb' := isBlank_iff.mpr hb
          exact .inr (.inr (.inl ⟨hb, by simp [read, CharClass.of, hq, ho, hc, hb']⟩))
        · have hb' : CharClass.isBlank c = false := by
            rw [← Bool.not_eq_true, isBlank_iff]
            exact hb
          exact .inl ⟨⟨hb, ho, hc, hq⟩, by simp [read, CharClass.of, hq, ho, hc, hb']⟩

/-- One more character, and the flags still say how far the atom is spelled. -/
theorem Spelled.read {s : Scanner} (h : s.Spelled) (c : Char) : (s.read c).2.Spelled := by
  cases h with
  | @outside front hf =>
    obtain ⟨hp, hr⟩ | ⟨rfl, hr⟩ | ⟨-, hr⟩ | ⟨l, -, -, hr⟩ := read_outside front.reverse c
    · rw [hr]
      simpa using Spelled.outside (hf.concat (.plain hp))
    · rw [hr]
      simpa using Spelled.inside hf .nil
    -- a separator leaves nothing of the atom
    · rw [hr]
      exact .outside .nil
    · rw [hr]
      exact .outside .nil
  | @inside front body hf hb =>
    by_cases hq : c = '"'
    · subst hq
      simpa [Scanner.read, CharClass.of] using Spelled.outside (hf.concat (.quoted hb))
    · by_cases he : c = '\\'
      · subst he
        simpa [Scanner.read, CharClass.of] using Spelled.escaped hf hb
      · simpa [Scanner.read, CharClass.of, hq, he] using
          Spelled.inside hf (hb.append (.char hq he .nil))
  | @escaped front body hf hb =>
    simpa [Scanner.read, CharClass.of] using Spelled.inside hf (hb.append (.escape (c := c) .nil))

theorem Spelled.readAll {s : Scanner} (h : s.Spelled) (text : List Char) :
    (s.readAll text).2.Spelled := by
  induction text generalizing s with
  | nil => exact h
  | cons c cs ih =>
    rw [readAll_cons]
    exact ih (h.read c)

/-- What the scanner holds outside strings is made of whole parts. -/
theorem Spelled.atomParts_buffer {s : Scanner} (h : s.Spelled) (hi : s.inString = false) :
    AtomParts s.buffer := by
  cases h with
  | outside hf => simpa [buffer] using hf
  | inside _ _ => exact absurd hi (by simp)
  | escaped _ _ => exact absurd hi (by simp)

/-- What the scanner holds inside a string is an atom that has been cut off. -/
theorem Spelled.isCutAtom_buffer {s : Scanner} (h : s.Spelled) (hi : s.inString = true) :
    IsCutAtom s.buffer := by
  cases h with
  | outside _ => exact absurd hi (by simp)
  | @inside front body hf hb => exact ⟨front, body, [], hf, hb, .inl rfl, by simp [buffer]⟩
  | @escaped front body hf hb =>
    exact ⟨front, body, ['\\'], hf, hb, .inr rfl, by simp [buffer]⟩

end Scanner

theorem spelled_scannerAfter (text : List Char) : (scannerAfter text).Spelled :=
  (Scanner.Spelled.outside .nil).readAll text

/-! ## From the grammar to the scanner -/

namespace Scanner

theorem readAll_stringBody {body : List Char} (h : StringBody body) (pending : List Char) :
    readAll ⟨pending, true, false⟩ body = ([], ⟨body.reverse ++ pending, true, false⟩) := by
  induction h generalizing pending with
  | nil => rfl
  | @char c cs hq he _ ih =>
    have hr : read ⟨pending, true, false⟩ c = ([], ⟨c :: pending, true, false⟩) := by
      simp [read, CharClass.of, hq, he]
    rw [readAll_cons, hr, ih]
    simp
  | @escape c cs _ ih =>
    -- the backslash, and then a character of any kind
    have hr : read ⟨pending, true, false⟩ '\\' = ([], ⟨'\\' :: pending, true, true⟩) := rfl
    have hr' : read ⟨'\\' :: pending, true, true⟩ c =
        ([], ⟨c :: '\\' :: pending, true, false⟩) := by
      simp [read, CharClass.of]
    rw [readAll_cons, hr, readAll_cons, hr', ih]
    simp

theorem readAll_atomPart {p : List Char} (h : AtomPart p) (text : List Char) :
    (holding text).readAll p = ([], holding (text ++ p)) := by
  cases h with
  | @plain c hc =>
    have hb : CharClass.isBlank c = false := by
      rw [← Bool.not_eq_true, isBlank_iff]
      exact hc.1
    have hr : (holding text).read c = ([], holding (text ++ [c])) := by
      simp [read, holding, CharClass.of, hb, hc.2.1, hc.2.2.1, hc.2.2.2]
    rw [readAll_cons, hr]
    rfl
  | @quoted body hb =>
    have hopen : (holding text).read '"' = ([], ⟨'"' :: text.reverse, true, false⟩) := rfl
    rw [readAll_cons, hopen, readAll_append, readAll_stringBody hb]
    simp [read, holding, CharClass.of]

theorem readAll_atomParts {text : List Char} (h : AtomParts text) :
    ({} : Scanner).readAll text = ([], holding text) := by
  obtain ⟨parts, hparts, rfl⟩ := h
  induction parts using List.reverseRecOn with
  | nil => rfl
  | append_singleton parts p ih =>
    have hp := readAll_atomPart (hparts p (by simp)) parts.flatten
    rw [List.flatten_concat, readAll_append, ih fun x hx => hparts x (List.mem_append_left _ hx), hp]
    rfl

theorem readAll_isCutAtom {text : List Char} (h : IsCutAtom text) :
    ∃ s : Scanner, s.inString = true ∧ ({} : Scanner).readAll text = ([], s) ∧
      s.buffer = text := by
  obtain ⟨front, body, tail, hf, hb, ht, rfl⟩ := h
  have hopen : (holding front).read '"' = ([], ⟨'"' :: front.reverse, true, false⟩) := rfl
  rcases ht with rfl | rfl
  · refine ⟨⟨body.reverse ++ '"' :: front.reverse, true, false⟩, rfl, ?_, by simp [buffer]⟩
    rw [List.append_nil, readAll_append, readAll_atomParts hf, readAll_cons, hopen,
      readAll_stringBody hb]
    rfl
  · refine ⟨⟨'\\' :: (body.reverse ++ '"' :: front.reverse), true, true⟩, rfl, ?_,
      by simp [buffer]⟩
    rw [readAll_append, readAll_atomParts hf, readAll_cons, hopen, readAll_append,
      readAll_stringBody hb]
    rfl

end Scanner

/-! ## Lexemes -/

/-- **A lexeme is complete exactly if it is spelled in full.** -/
theorem Lexeme.complete_iff_spelled {l : Lexeme} : l.Complete ↔ l.Spelled := by
  constructor
  · intro h
    cases h with
    | opener => exact .opener
    | closer => exact .closer
    | @atom text hne hr =>
      have hs := spelled_scannerAfter text
      rw [scannerAfter, hr] at hs
      have hparts := hs.atomParts_buffer rfl
      exact .atom ⟨hne, by simpa [Scanner.holding, Scanner.buffer] using hparts⟩
  · intro h
    cases h with
    | opener => exact .opener
    | closer => exact .closer
    | atom ha => exact .atom ha.1 (Scanner.readAll_atomParts ha.2)

/-! ## Dissections -/

/-- A text taken apart: lexemes, each with the white space before it, and the white space behind
all of them. -/
@[ext] structure Dissection where
  items : List (List Char × Lexeme)
  back : List Char

namespace Dissection

/-- The text that was taken apart. -/
def text (d : Dissection) : List Char := (d.items.flatMap fun i => i.1 ++ i.2.text) ++ d.back

/-- The lexemes in it. -/
def lexemes (d : Dissection) : List Lexeme := d.items.map Prod.snd

/-- Two items in a row: atoms are kept apart by white space. -/
def ItemsApart (i j : List Char × Lexeme) : Prop :=
  i.2.role = .atom → j.2.role = .atom → j.1 ≠ []

/-- The parts are as they may be in a text. -/
structure WellFormed (d : Dissection) : Prop where
  blank_gap : ∀ i ∈ d.items, ∀ c ∈ i.1, c ∈ blanks
  blank_back : ∀ c ∈ d.back, c ∈ blanks
  spelled : ∀ i ∈ d.items.dropLast, i.2.Spelled
  /-- The last lexeme may be cut off, and then nothing comes behind it. -/
  last : ∀ i ∈ d.items.getLast?,
    i.2.Spelled ∨ (d.back = [] ∧ ∃ t, IsCutAtom t ∧ i.2 = .atom t)
  apart : d.items.IsChain ItemsApart

end Dissection

/-! ## Reading a dissection -/

/-- White space ends the atom before it, if there is any. -/
theorem Scanner.readAll_gap {gap : List Char} (hb : ∀ c ∈ gap, c ∈ blanks) (t : List Char) :
    ∃ ls t', (holding t).readAll gap = (ls, holding t') ∧
      ls ++ (holding t').pendingAtom = (holding t).pendingAtom ∧ (t = [] ∨ gap ≠ [] → t' = []) := by
  cases gap with
  | nil => exact ⟨[], t, rfl, rfl, by simp⟩
  | cons c cs =>
    have hc : CharClass.isBlank c = true := isBlank_iff.mpr (hb c (by simp))
    have hcs : ({} : Scanner).readAll cs = ([], {}) :=
      readAll_blanks fun d hd => isBlank_iff.mpr (hb d (by simp [hd]))
    refine ⟨(holding t).pendingAtom, [], ?_, by simp, fun _ => rfl⟩
    rw [readAll_cons, read_blank hc, hcs]
    simp

namespace Dissection

/-- Items that are spelled in full are read back one by one. The scanner holds something behind them
only if the last is an atom. -/
theorem readAll_items {items : List (List Char × Lexeme)}
    (hb : ∀ i ∈ items, ∀ c ∈ i.1, c ∈ blanks) (hs : ∀ i ∈ items, i.2.Spelled)
    (ha : items.IsChain ItemsApart) :
    ∃ ls t, ({} : Scanner).readAll (items.flatMap fun i => i.1 ++ i.2.text) = (ls, .holding t) ∧
      ls ++ (Scanner.holding t).pendingAtom = items.map Prod.snd ∧
      (t ≠ [] → ∃ i ∈ items.getLast?, i.2.role = .atom) := by
  induction items using List.reverseRecOn with
  | nil => exact ⟨[], [], rfl, rfl, by simp⟩
  | append_singleton items i ih =>
    rw [List.isChain_append] at ha
    obtain ⟨ls, t, hr, hls, ht⟩ := ih (fun j hj => hb j (List.mem_append_left _ hj))
      (fun j hj => hs j (List.mem_append_left _ hj)) ha.1
    obtain ⟨gs, t', hg, hgs, ht'⟩ := Scanner.readAll_gap (hb i (by simp)) t
    -- an atom finds nothing in the scanner that it would go on with
    have hclear : i.2.role = .atom → t' = [] := by
      intro hatom
      by_cases hn : t = []
      · exact ht' (.inl hn)
      · obtain ⟨j, hj, hrole⟩ := ht hn
        exact ht' (.inr (ha.2.2 j hj i (by simp) hrole hatom))
    have hc : i.2.Complete := Lexeme.complete_iff_spelled.mpr (hs i (by simp))
    obtain ⟨ks, hk, hks⟩ := hc.readAll_holding hclear
    refine ⟨ls ++ (gs ++ ks), i.2.heldText, ?_, ?_, fun hne => ⟨i, by simp, ?_⟩⟩
    · rw [List.flatMap_append, Scanner.readAll_append, hr, List.flatMap_singleton,
        Scanner.readAll_append, hg, hk]
    · rw [List.append_assoc, List.append_assoc, hks, ← List.append_assoc gs, hgs,
        ← List.append_assoc, hls]
      simp
    · by_contra hatom
      exact hne (by rw [Lexeme.heldText, if_neg hatom])

theorem WellFormed.lexemes_text {d : Dissection} (h : d.WellFormed) :
    SExprReflow.lexemes d.text = d.lexemes := by
  obtain ⟨items, back⟩ := d
  induction items using List.reverseRecOn with
  | nil =>
    have hb : ({} : Scanner).readAll back = ([], {}) :=
      Scanner.readAll_blanks fun c hc => isBlank_iff.mpr (h.blank_back c hc)
    simp [SExprReflow.lexemes, text, lexemes, hb]
  | append_singleton items i _ =>
    have hgap : ∀ j ∈ items, ∀ c ∈ j.1, c ∈ blanks := fun j hj =>
      h.blank_gap j (List.mem_append_left _ hj)
    have hspelled : ∀ j ∈ items, j.2.Spelled := fun j hj => h.spelled j (by simpa using hj)
    rcases h.last i (by simp) with hi | ⟨hback, t, hcut, hi⟩
    · -- every item is spelled in full, and white space comes behind them
      have hall : ∀ j ∈ items ++ [i], j.2.Spelled := by
        intro j hj
        rcases List.mem_append.mp hj with hj | hj
        · exact hspelled j hj
        · rw [List.mem_singleton.mp hj]
          exact hi
      obtain ⟨ls, t, hr, hls, -⟩ := readAll_items h.blank_gap hall h.apart
      obtain ⟨gs, t', hg, hgs, -⟩ := Scanner.readAll_gap h.blank_back t
      rw [SExprReflow.lexemes, text, Scanner.readAll_append, hr, hg]
      simp only [List.append_assoc]
      rw [hgs, hls]
      rfl
    · -- the last one swallows the rest of the text
      have hback' : back = [] := hback
      have hchain := List.isChain_append.mp h.apart
      obtain ⟨ls, u, hr, hls, hu⟩ := readAll_items hgap hspelled hchain.1
      obtain ⟨gs, u', hg, hgs, hu'⟩ := Scanner.readAll_gap (h.blank_gap i (by simp)) u
      obtain rfl : u' = [] := by
        by_cases hn : u = []
        · exact hu' (.inl hn)
        · obtain ⟨j, hj, hrole⟩ := hu hn
          exact hu' (.inr (hchain.2.2 j hj i (by simp) hrole (by rw [hi]; rfl)))
      obtain ⟨s, hs, hrs, hbuf⟩ := Scanner.readAll_isCutAtom hcut
      have hpending : s.pendingAtom = [.atom t] := by
        rw [Scanner.pendingAtom_of_inString hs (by rwa [hbuf]), hbuf]
      have hread : ({} : Scanner).readAll (text ⟨items ++ [i], back⟩) = (ls ++ gs, s) := by
        rw [text, hback', List.append_nil, List.flatMap_append, Scanner.readAll_append, hr,
          List.flatMap_singleton, Scanner.readAll_append, hg, hi, Scanner.holding_nil]
        simp [Lexeme.atom, hrs]
      rw [Scanner.holding_nil, Scanner.pendingAtom_start, List.append_nil] at hgs
      rw [SExprReflow.lexemes, hread, hpending, hgs, hls, lexemes, List.map_append, ← hi]
      rfl

/-! ## Taking a text apart -/

/-- One more lexeme behind the white space. -/
def add (d : Dissection) (l : Lexeme) : Dissection := ⟨d.items ++ [(d.back, l)], []⟩

/-- One more blank. -/
def space (d : Dissection) (c : Char) : Dissection := ⟨d.items, d.back ++ [c]⟩

/-- The next lexeme may follow: it is no atom, or none stands right before it. -/
def Takes (d : Dissection) (l : Lexeme) : Prop := ∀ i ∈ d.items.getLast?, ItemsApart i (d.back, l)

@[simp] theorem text_add (d : Dissection) (l : Lexeme) : (d.add l).text = d.text ++ l.text := by
  simp [add, text]

@[simp] theorem text_space (d : Dissection) (c : Char) : (d.space c).text = d.text ++ [c] := by
  simp [space, text]

@[simp] theorem lexemes_add (d : Dissection) (l : Lexeme) :
    (d.add l).lexemes = d.lexemes ++ [l] := by
  simp [add, lexemes]

@[simp] theorem lexemes_space (d : Dissection) (c : Char) : (d.space c).lexemes = d.lexemes := rfl

/-- A dissection without anything cut off. -/
structure Whole (d : Dissection) : Prop where
  wellFormed : d.WellFormed
  spelled : ∀ i ∈ d.items, i.2.Spelled

theorem whole_nil : Whole ⟨[], []⟩ where
  wellFormed := ⟨by simp, by simp, by simp, by simp, .nil⟩
  spelled := by simp

theorem Whole.space {d : Dissection} (h : d.Whole) {c : Char} (hc : c ∈ blanks) :
    (d.space c).Whole := by
  refine ⟨⟨h.wellFormed.blank_gap, ?_, h.wellFormed.spelled, ?_, h.wellFormed.apart⟩, h.spelled⟩
  · intro x hx
    rcases List.mem_append.mp hx with hx | hx
    · exact h.wellFormed.blank_back x hx
    · rw [List.mem_singleton.mp hx]
      exact hc
  · intro i hi
    exact .inl (h.spelled i (List.mem_of_getLast? hi))

/-- A lexeme that may follow leaves the dissection well formed, even if it is cut off. -/
theorem Whole.wellFormed_add {d : Dissection} (h : d.Whole) {l : Lexeme} (ht : d.Takes l)
    (hl : l.Spelled ∨ ∃ t, IsCutAtom t ∧ l = .atom t) : (d.add l).WellFormed where
  blank_gap := by
    intro i hi
    rcases List.mem_append.mp hi with hi | hi
    · exact h.wellFormed.blank_gap i hi
    · rw [List.mem_singleton.mp hi]
      exact h.wellFormed.blank_back
  blank_back := by simp [add]
  spelled := by
    intro i hi
    rw [add, List.dropLast_concat] at hi
    exact h.spelled i hi
  last := by
    intro i hi
    obtain rfl : (d.back, l) = i := by simpa [add] using hi
    rcases hl with hl | hl
    · exact .inl hl
    · exact .inr ⟨rfl, hl⟩
  apart := by
    refine List.isChain_append.mpr ⟨h.wellFormed.apart, List.isChain_singleton _, ?_⟩
    intro i hi j hj
    obtain rfl : (d.back, l) = j := by simpa using hj
    exact ht i hi

theorem Whole.add {d : Dissection} (h : d.Whole) {l : Lexeme} (ht : d.Takes l)
    (hl : l.Spelled) : (d.add l).Whole := by
  refine ⟨h.wellFormed_add ht (.inl hl), fun i hi => ?_⟩
  rcases List.mem_append.mp hi with hi | hi
  · exact h.spelled i hi
  · rw [List.mem_singleton.mp hi]
    exact hl

/-- The scanner has gone through a text: all that has ended is taken apart, and the scanner holds the
rest, which may follow. -/
structure Covers (d : Dissection) (text : List Char) : Prop where
  whole : d.Whole
  eq_append : text = d.text ++ (scannerAfter text).buffer
  ended : d.lexemes = endedLexemes text
  takes : ∀ l, d.Takes l

/-- The atom that the scanner holds outside strings can be taken apart too. -/
theorem Covers.endAtom {d : Dissection} {text : List Char} (h : d.Covers text)
    (hi : (scannerAfter text).inString = false) :
    ∃ d' : Dissection, d'.Whole ∧ d'.text = text ∧ d'.lexemes = SExprReflow.lexemes text := by
  have hlex := SExprReflow.lexemes_eq text
  have hparts := (coherent_scannerAfter text).complete_pendingAtom hi
  have htext := h.eq_append
  have hended := h.ended
  unfold Scanner.pendingAtom at hlex hparts
  by_cases hn : (scannerAfter text).pending.isEmpty = true
  · rw [if_pos hn, List.append_nil] at hlex
    have hb : (scannerAfter text).buffer = [] := by simpa [Scanner.buffer] using hn
    rw [hb, List.append_nil] at htext
    exact ⟨d, h.whole, htext.symm, hended.trans hlex.symm⟩
  · rw [if_neg hn] at hlex hparts
    have hc := Lexeme.complete_iff_spelled.mp (hparts _ List.mem_cons_self)
    exact ⟨_, h.whole.add (h.takes _) hc, by rw [text_add]; exact htext.symm,
      by rw [lexemes_add, hended, hlex]⟩

theorem Covers.start : Covers ⟨[], []⟩ [] where
  whole := whole_nil
  eq_append := rfl
  ended := rfl
  takes := by simp [Takes]

/-- **One more character can be taken apart.** -/
theorem Covers.read {d : Dissection} {text : List Char} (h : d.Covers text) (c : Char) :
    ∃ d' : Dissection, d'.Covers (text ++ [c]) := by
  have hsc : scannerAfter (text ++ [c]) = ((scannerAfter text).read c).2 := by
    rw [scannerAfter_append, Scanner.readAll_cons, Scanner.readAll_nil]
  have hended : endedLexemes (text ++ [c]) =
      endedLexemes text ++ ((scannerAfter text).read c).1 := by
    rw [endedLexemes_append, Scanner.readAll_cons, Scanner.readAll_nil, List.append_nil]
  -- while the atom goes on nothing changes
  have goOn : ∀ inString escaped : Bool, (scannerAfter text).read c =
      ([], ⟨c :: (scannerAfter text).pending, inString, escaped⟩) → d.Covers (text ++ [c]) := by
    intro inString escaped hr
    refine ⟨h.whole, ?_, ?_, h.takes⟩
    · rw [hsc, hr]
      have ht := h.eq_append
      simp only [Scanner.buffer, List.reverse_cons] at ht ⊢
      rw [← List.append_assoc, ← ht]
    · rw [hended, hr, List.append_nil]
      exact h.ended
  have hcases := (scannerAfter text).read_cases c
  cases hi : (scannerAfter text).inString with
  | true =>
    obtain ⟨inString, escaped, -, hr⟩ | ⟨hi', -⟩ := hcases
    · exact ⟨d, goOn inString escaped hr⟩
    · exact absurd (hi.symm.trans hi') (by simp)
  | false =>
    have hs := (coherent_scannerAfter text).eq_holding hi
    have hout := Scanner.read_outside (scannerAfter text).buffer.reverse c
    rw [← Scanner.holding, ← hs] at hout
    obtain ⟨d', hw, ht, hl⟩ := h.endAtom hi
    rw [SExprReflow.lexemes_eq] at hl
    obtain ⟨-, hr⟩ | ⟨rfl, hr⟩ | ⟨hc, hr⟩ | ⟨l, hdelim, hlc, hr⟩ := hout
    · exact ⟨d, goOn false false (by rw [hr, Scanner.buffer, List.reverse_reverse])⟩
    · exact ⟨d, goOn true false (by rw [hr, Scanner.buffer, List.reverse_reverse])⟩
    · -- a blank goes behind the atom
      refine ⟨d'.space c, hw.space hc, ?_, ?_, ?_⟩
      · rw [hsc, hr, text_space, ht]
        exact (List.append_nil _).symm
      · rw [hended, hr, lexemes_space, hl]
      · intro k i hi _ _
        simp [Dissection.space]
    · -- a delimiter does so at once
      have hspelled : l.Spelled := by
        rcases hdelim with rfl | rfl
        · exact .opener
        · exact .closer
      have hrole : l.role ≠ .atom := by
        rcases hdelim with rfl | rfl
        · simp [Lexeme.opener]
        · simp [Lexeme.closer]
      refine ⟨d'.add l, hw.add (fun i _ _ hatom => absurd hatom hrole) hspelled, ?_, ?_, ?_⟩
      · rw [hsc, hr, text_add, ht, hlc]
        exact (List.append_nil _).symm
      · rw [hended, hr, lexemes_add, hl, List.append_assoc]
      · intro k i hi hatom
        obtain rfl : (d'.back, l) = i := by simpa [Dissection.add] using hi
        exact absurd hatom hrole

theorem exists_covers (text : List Char) : ∃ d : Dissection, d.Covers text := by
  induction text using List.reverseRecOn with
  | nil => exact ⟨_, .start⟩
  | append_singleton text c ih =>
    obtain ⟨d, hd⟩ := ih
    exact hd.read c

/-- **Every text can be taken apart**, and its lexemes are those of the scanner. -/
theorem exists_wellFormed (text : List Char) :
    ∃ d : Dissection, d.WellFormed ∧ d.text = text ∧ d.lexemes = SExprReflow.lexemes text := by
  obtain ⟨d, hd⟩ := exists_covers text
  cases hi : (scannerAfter text).inString with
  | false =>
    obtain ⟨d', hw, ht, hl⟩ := hd.endAtom hi
    exact ⟨d', hw.wellFormed, ht, hl⟩
  | true =>
    -- the string that has not ended is the last item
    have hcut := (spelled_scannerAfter text).isCutAtom_buffer hi
    have hlex := SExprReflow.lexemes_eq text
    rw [Scanner.pendingAtom_of_inString hi (coherent_scannerAfter text).readAll_buffer] at hlex
    refine ⟨_, hd.whole.wellFormed_add (hd.takes _) (.inr ⟨_, hcut, rfl⟩), ?_, ?_⟩
    · rw [text_add]
      exact hd.eq_append.symm
    · rw [lexemes_add, hd.ended, hlex]

/-! ## Only one way -/

/-- Where white space ends is decided by the text. -/
theorem takeWhile_gap {gap rest : List Char} {c : Char} (hb : ∀ x ∈ gap, x ∈ blanks)
    (hc : CharClass.isBlank c = false) : (gap ++ c :: rest).takeWhile CharClass.isBlank = gap := by
  rw [List.takeWhile_append_of_pos fun x hx => isBlank_iff.mpr (hb x hx),
    List.takeWhile_cons_of_neg (by simp [hc]), List.append_nil]

theorem eq_of_text_eq {items items' : List (List Char × Lexeme)} {back back' : List Char}
    (hb : ∀ i ∈ items, ∀ c ∈ i.1, c ∈ blanks) (hb' : ∀ i ∈ items', ∀ c ∈ i.1, c ∈ blanks)
    (hl : ∀ i ∈ items, ∃ c v, i.2.text = c :: v ∧ CharClass.isBlank c = false)
    (hs : items.map Prod.snd = items'.map Prod.snd)
    (ht : text ⟨items, back⟩ = text ⟨items', back'⟩) : items = items' ∧ back = back' := by
  induction items generalizing items' with
  | nil =>
    obtain rfl : items' = [] := by simpa using hs.symm
    exact ⟨rfl, by simpa [text] using ht⟩
  | cons i items ih =>
    obtain ⟨gap, l⟩ := i
    cases items' with
    | nil => exact absurd hs (by simp)
    | cons i' items' =>
      obtain ⟨gap', l'⟩ := i'
      obtain ⟨rfl, hsnd⟩ : l = l' ∧ items.map Prod.snd = items'.map Prod.snd := by simpa using hs
      obtain ⟨c, v, hv, hc⟩ := hl (gap, l) (by simp)
      have hv : l.text = c :: v := hv
      have hcut : gap ++ (l.text ++ text ⟨items, back⟩) =
          gap' ++ (l.text ++ text ⟨items', back'⟩) := by
        simpa [text] using ht
      have hgap : gap = gap' := by
        have hw := congrArg (List.takeWhile CharClass.isBlank) hcut
        rw [hv, List.cons_append, List.cons_append] at hw
        rwa [takeWhile_gap (hb (gap, l) (by simp)) hc, takeWhile_gap (hb' (gap', l) (by simp)) hc]
          at hw
      subst hgap
      have hrest := List.append_cancel_left (List.append_cancel_left hcut)
      obtain ⟨rfl, rfl⟩ := ih (fun i hi => hb i (by simp [hi])) (fun i hi => hb' i (by simp [hi]))
        (fun i hi => hl i (by simp [hi])) hsnd hrest
      exact ⟨rfl, rfl⟩

theorem WellFormed.eq_of_text_eq {d d' : Dissection} (h : d.WellFormed) (h' : d'.WellFormed)
    (ht : d.text = d'.text) : d = d' := by
  have hs : d.lexemes = d'.lexemes := by rw [← h.lexemes_text, ht, h'.lexemes_text]
  have hl : ∀ i ∈ d.items, ∃ c v, i.2.text = c :: v ∧ CharClass.isBlank c = false := by
    intro i hi
    have hmem : i.2 ∈ SExprReflow.lexemes d.text := by
      rw [h.lexemes_text]
      exact List.mem_map_of_mem hi
    obtain ⟨c, v, hv, hc, -⟩ := (Scanned.of_text d.text).head_text hmem
    exact ⟨c, v, hv, hc⟩
  obtain ⟨hitems, hback⟩ := Dissection.eq_of_text_eq h.blank_gap h'.blank_gap hl hs ht
  exact Dissection.ext hitems hback

end Dissection

/-- **The lexemes of a text are those that the grammar says.** They are the lexemes of a dissection of
the text, and of no other list of lexemes is there one; the dissection itself, white space included,
is the only one. -/
theorem lexemes_eq_iff_dissected (text : List Char) (ls : List Lexeme) :
    (lexemes text = ls ↔ ∃ d : Dissection, d.WellFormed ∧ d.text = text ∧ d.lexemes = ls) ∧
      ∃! d : Dissection, d.WellFormed ∧ d.text = text := by
  obtain ⟨d, hd, ht, hl⟩ := Dissection.exists_wellFormed text
  refine ⟨⟨fun h => ⟨d, hd, ht, hl.trans h⟩, ?_⟩, d, ⟨hd, ht⟩, ?_⟩
  · rintro ⟨d', hd', rfl, rfl⟩
    exact hd'.lexemes_text
  · rintro d' ⟨hd', ht'⟩
    exact hd'.eq_of_text_eq hd (ht'.trans ht.symm)

end SExprReflow
