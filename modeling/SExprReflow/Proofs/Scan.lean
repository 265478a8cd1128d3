import SExprReflow.Scanner

/-!
# What the scanner yields

The scanner keeps no more of the text than the atom it is reading, and that atom alone
accounts for its state: reading the atom from the start leads to where the scanner is
(`Scanner.Coherent`). So a lexeme that the scanner has finished is one that can be read
back on its own (`Lexeme.Complete`), and the only atom without an end is one that the text
leaves inside a string (`Lexeme.CutOff`).

It follows that whether a text stops inside a string shows in its lexemes
(`endsInString_lexemes`).
-/

namespace SExprReflow

/-- Only outside strings does a character end an atom. -/
theorem CharClass.outside_of_separator {inString escaped : Bool} {c : Char} {k : CharClass}
    (h : of inString escaped c = k) (hk : k = .opener ∨ k = .closer ∨ k = .blank) :
    inString = false ∧ escaped = false := by
  unfold of at h
  cases escaped <;> cases inString <;> grind

/-- Only inside a string does a character escape the next one. -/
theorem CharClass.inString_of_escape {inString escaped : Bool} {c : Char}
    (h : of inString escaped c = .escape) : inString = true := by
  unfold of at h
  cases inString <;> grind

namespace Scanner

@[simp] theorem readAll_nil (s : Scanner) : s.readAll [] = ([], s) := rfl

@[simp] theorem readAll_cons (s : Scanner) (c : Char) (cs : List Char) :
    s.readAll (c :: cs) =
      ((s.read c).1 ++ ((s.read c).2.readAll cs).1, ((s.read c).2.readAll cs).2) :=
  runAll_cons read s c cs

theorem readAll_append (s : Scanner) (cs ds : List Char) :
    s.readAll (cs ++ ds) =
      ((s.readAll cs).1 ++ ((s.readAll cs).2.readAll ds).1, ((s.readAll cs).2.readAll ds).2) :=
  runAll_append read s cs ds

/-- The scanner outside strings, with the given characters of an atom read. -/
def holding (text : List Char) : Scanner := { pending := text.reverse }

@[simp] theorem holding_nil : holding [] = {} := rfl

@[simp] theorem pendingAtom_start : ({} : Scanner).pendingAtom = [] := rfl

theorem pendingAtom_holding {text : List Char} (h : text ≠ []) :
    (holding text).pendingAtom = [.atom text] := by
  simp [holding, pendingAtom, buffer, h]

/-- A character either goes on with the atom or ends it, and then the scanner starts anew. -/
theorem read_cases (s : Scanner) (c : Char) :
    (∃ inString escaped : Bool, (escaped = true → inString = true) ∧
      s.read c = ([], ⟨c :: s.pending, inString, escaped⟩)) ∨
    (s.inString = false ∧ s.escaped = false ∧
      ∃ ls, (ls = [] ∨ ls = [.opener] ∨ ls = [.closer]) ∧
        s.read c = (s.pendingAtom ++ ls, {})) := by
  unfold read
  split
  · exact Or.inl ⟨_, false, by simp, rfl⟩
  · next h => exact Or.inl ⟨s.inString, true, fun _ => CharClass.inString_of_escape h, rfl⟩
  · exact Or.inl ⟨s.inString, false, by simp, rfl⟩
  -- the rest are separators, which there are only outside strings
  · next h =>
    obtain ⟨hi, he⟩ := CharClass.outside_of_separator h (by simp)
    exact Or.inr ⟨hi, he, [.opener], by simp, by rw [hi]⟩
  · next h =>
    obtain ⟨hi, he⟩ := CharClass.outside_of_separator h (by simp)
    exact Or.inr ⟨hi, he, [.closer], by simp, by rw [hi]⟩
  · next h =>
    obtain ⟨hi, he⟩ := CharClass.outside_of_separator h (by simp)
    exact Or.inr ⟨hi, he, [], by simp, by rw [hi, List.append_nil]⟩

end Scanner

/-! ## Complete lexemes -/

/-- A lexeme with nothing missing: a delimiter, or an atom that does not stop inside a
string. -/
inductive Lexeme.Complete : Lexeme → Prop where
  | opener : Complete .opener
  | closer : Complete .closer
  | atom {text : List Char} : text ≠ [] →
      ({} : Scanner).readAll text = ([], .holding text) → Complete (.atom text)

/-- An atom that stops inside a string. -/
def Lexeme.CutOff (l : Lexeme) : Prop :=
  ∃ s : Scanner, s.inString = true ∧ ({} : Scanner).readAll s.buffer = ([], s) ∧
    l = .atom s.buffer

namespace Lexeme

/-- A lexeme that prints as its own text: an atom, or one of the two delimiters. -/
def Proper (l : Lexeme) : Prop := l.role = .atom ∨ l = .opener ∨ l = .closer

theorem Proper.eq_opener {l : Lexeme} (h : l.Proper) (hr : l.role = .opener) : l = .opener := by
  rcases h with h | rfl | rfl
  · exact absurd hr (by simp [h])
  · rfl
  · exact absurd hr (by simp [closer])

theorem Complete.proper {l : Lexeme} (h : l.Complete) : l.Proper := by
  cases h with
  | opener => exact Or.inr (Or.inl rfl)
  | closer => exact Or.inr (Or.inr rfl)
  | atom _ _ => exact Or.inl rfl

theorem CutOff.proper {l : Lexeme} (h : l.CutOff) : l.Proper := by
  obtain ⟨s, -, -, rfl⟩ := h
  exact Or.inl rfl

theorem Complete.inString_readAll {l : Lexeme} (h : l.Complete) :
    (({} : Scanner).readAll l.text).2.inString = false := by
  cases h with
  | opener => rfl
  | closer => rfl
  | @atom text _ hr =>
    have ht : (Lexeme.atom text).text = text := rfl
    rw [ht, hr]
    rfl

end Lexeme

/-! ## The state of the scanner -/

namespace Scanner

/-- The scanner is where the atom that it is reading leads to. -/
structure Coherent (s : Scanner) : Prop where
  /-- Nothing of the atom reads as a lexeme by itself. -/
  readAll_buffer : ({} : Scanner).readAll s.buffer = ([], s)
  /-- There are no escapes outside strings. -/
  inString_of_escaped : s.escaped = true → s.inString = true

theorem coherent_start : Coherent {} where
  readAll_buffer := rfl
  inString_of_escaped h := absurd h (by simp)

/-- Outside strings there is nothing to a coherent state but its atom. -/
theorem Coherent.eq_holding {s : Scanner} (h : s.Coherent) (hi : s.inString = false) :
    s = holding s.buffer := by
  have he : s.escaped = false := by
    cases hs : s.escaped with
    | false => rfl
    | true => exact absurd (h.inString_of_escaped hs) (by simp [hi])
  obtain ⟨pending, inString, escaped⟩ := s
  simp only at hi he
  subst hi he
  simp [holding, buffer]

theorem Coherent.complete_pendingAtom {s : Scanner} (h : s.Coherent) (hi : s.inString = false) :
    ∀ l ∈ s.pendingAtom, l.Complete := by
  intro l hl
  unfold pendingAtom at hl
  split at hl
  · exact absurd hl (by simp)
  · next hne =>
    obtain rfl : l = .atom s.buffer := by simpa using hl
    refine .atom (by simpa [buffer] using hne) ?_
    rw [← h.eq_holding hi]
    exact h.readAll_buffer

theorem pendingAtom_of_inString {s : Scanner} (hi : s.inString = true)
    (hr : ({} : Scanner).readAll s.buffer = ([], s)) : s.pendingAtom = [.atom s.buffer] := by
  -- without an atom the scanner would be at its start, outside strings
  have hne : s.pending ≠ [] := by
    intro hn
    rw [show s.buffer = [] by simp [buffer, hn], readAll_nil] at hr
    rw [← (Prod.mk.inj hr).2] at hi
    exact absurd hi (by simp)
  simp [pendingAtom, hne]

theorem Coherent.cutOff_pendingAtom {s : Scanner} (h : s.Coherent) (hi : s.inString = true) :
    ∃ l : Lexeme, s.pendingAtom = [l] ∧ l.CutOff :=
  ⟨.atom s.buffer, pendingAtom_of_inString hi h.readAll_buffer, s, hi, h.readAll_buffer, rfl⟩

/-- One character keeps the scanner coherent, and the lexemes that it ends are complete. -/
theorem Coherent.read {s : Scanner} (h : s.Coherent) (c : Char) :
    (s.read c).2.Coherent ∧ ∀ l ∈ (s.read c).1, l.Complete := by
  obtain ⟨inString, escaped, hes, hr⟩ | ⟨hi, -, ls, hls, hr⟩ := s.read_cases c
  · -- the atom goes on, and reading it from the start takes the same last step
    refine ⟨⟨?_, ?_⟩, ?_⟩
    · have hb : (s.read c).2.buffer = s.buffer ++ [c] := by simp [hr, buffer]
      rw [hb, readAll_append, h.readAll_buffer]
      simp [hr]
    · rw [hr]
      exact hes
    · rw [hr]
      simp
  · -- the atom ends, and nothing of it is left
    rw [hr]
    refine ⟨coherent_start, fun l hl => ?_⟩
    rcases List.mem_append.mp hl with hl | hl
    · exact h.complete_pendingAtom hi l hl
    · rcases hls with rfl | rfl | rfl
      · exact absurd hl (by simp)
      · obtain rfl : l = .opener := by simpa using hl
        exact .opener
      · obtain rfl : l = .closer := by simpa using hl
        exact .closer

theorem Coherent.readAll {s : Scanner} (h : s.Coherent) (text : List Char) :
    (s.readAll text).2.Coherent ∧ ∀ l ∈ (s.readAll text).1, l.Complete := by
  induction text generalizing s with
  | nil => exact ⟨h, by simp⟩
  | cons c cs ih =>
    obtain ⟨hc, hls⟩ := h.read c
    obtain ⟨hcs, hls'⟩ := ih hc
    rw [readAll_cons]
    refine ⟨hcs, fun l hl => ?_⟩
    rcases List.mem_append.mp hl with hl | hl
    · exact hls l hl
    · exact hls' l hl

end Scanner

/-! ## The lexemes of a text -/

/-- The scanner after a text. -/
def scannerAfter (text : List Char) : Scanner := (({} : Scanner).readAll text).2

/-- The lexemes that have come to an end in a text. -/
def endedLexemes (text : List Char) : List Lexeme := (({} : Scanner).readAll text).1

theorem lexemes_eq (text : List Char) :
    lexemes text = endedLexemes text ++ (scannerAfter text).pendingAtom := rfl

theorem coherent_scannerAfter (text : List Char) : (scannerAfter text).Coherent :=
  (Scanner.coherent_start.readAll text).1

theorem complete_of_mem_endedLexemes {text : List Char} : ∀ l ∈ endedLexemes text, l.Complete :=
  (Scanner.coherent_start.readAll text).2

/-- A text that stops outside strings has complete lexemes only. -/
theorem complete_of_mem_lexemes {text : List Char} (hi : (scannerAfter text).inString = false) :
    ∀ l ∈ lexemes text, l.Complete := by
  intro l hl
  rcases List.mem_append.mp hl with hl | hl
  · exact complete_of_mem_endedLexemes l hl
  · exact (coherent_scannerAfter text).complete_pendingAtom hi l hl

/-- A text that stops inside a string has complete lexemes and then one that is cut off. -/
theorem lexemes_of_inString {text : List Char} (hi : (scannerAfter text).inString = true) :
    ∃ l : Lexeme, lexemes text = endedLexemes text ++ [l] ∧ l.CutOff := by
  obtain ⟨l, hl, hc⟩ := (coherent_scannerAfter text).cutOff_pendingAtom hi
  exact ⟨l, by rw [lexemes_eq, hl], hc⟩

theorem proper_of_mem_lexemes {text : List Char} : ∀ l ∈ lexemes text, l.Proper := by
  intro l hl
  cases hi : (scannerAfter text).inString with
  | false => exact (complete_of_mem_lexemes hi l hl).proper
  | true =>
    obtain ⟨l', hls, hl'⟩ := lexemes_of_inString hi
    rw [hls] at hl
    rcases List.mem_append.mp hl with hl | hl
    · exact (complete_of_mem_endedLexemes l hl).proper
    · obtain rfl : l = l' := by simpa using hl
      exact hl'.proper

/-- Whether the last lexeme stops inside a string. -/
def endsInString (ls : List Lexeme) : Bool :=
  ls.getLast?.any fun l => (({} : Scanner).readAll l.text).2.inString

/-- Where a text stops can be told from its lexemes. -/
theorem endsInString_lexemes (text : List Char) :
    endsInString (lexemes text) = (scannerAfter text).inString := by
  cases hi : (scannerAfter text).inString with
  | false =>
    have hc := complete_of_mem_lexemes hi
    cases hl : (lexemes text).getLast? with
    | none => simp [endsInString, hl]
    | some l =>
      have hr := (hc l (List.mem_of_getLast? hl)).inString_readAll
      simp [endsInString, hl, hr]
  | true =>
    obtain ⟨l, hls, s, hs, hr, rfl⟩ := lexemes_of_inString hi
    have ht : (Lexeme.atom s.buffer).text = s.buffer := rfl
    simp [endsInString, hls, ht, hr, hs]

end SExprReflow
