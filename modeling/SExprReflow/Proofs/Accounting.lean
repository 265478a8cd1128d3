import SExprReflow.Proofs.Nesting
import SExprReflow.Proofs.Within

/-!
# Where everything is while a text is read

At any moment of a run a lexeme that has ended is printed or held back, and the characters read
since are in the buffer of the scanner. Nothing else is left of the text but white space outside
strings. `solid` says what that is without speaking of scanners: a quote begins a string, the next
one that is not escaped ends it.
-/

namespace SExprReflow

open Piece

/-- A text without its white space outside strings. The flags say where the text begins: inside a
string, and behind a backslash there. -/
def solid (inString escaped : Bool) : List Char → List Char
  | [] => []
  | c :: cs =>
    if inString then
      c :: if escaped then solid true false cs
        else if c = '\\' then solid true true cs
        else if c = '"' then solid false false cs
        else solid true false cs
    else if c = '"' then c :: solid true false cs
    else if CharClass.isBlank c then solid false false cs
    else c :: solid false false cs

namespace Scanner

@[simp] theorem buffer_start : ({} : Scanner).buffer = [] := rfl

theorem flatMap_text_pendingAtom (s : Scanner) : s.pendingAtom.flatMap Lexeme.text = s.buffer := by
  unfold pendingAtom
  split
  · next h => simp_all [buffer]
  · simp [Lexeme.atom]

theorem solid_read {s : Scanner} (h : s.escaped = true → s.inString = true) (c : Char)
    (cs : List Char) :
    s.buffer ++ solid s.inString s.escaped (c :: cs) =
      (s.read c).1.flatMap Lexeme.text ++ (s.read c).2.buffer ++
        solid (s.read c).2.inString (s.read c).2.escaped cs := by
  obtain ⟨pending, inString, escaped⟩ := s
  have hp := flatMap_text_pendingAtom ⟨pending, inString, escaped⟩
  cases inString with
  | true =>
    -- inside a string every character goes to the atom
    cases escaped with
    | true => simp [solid, read, CharClass.of, buffer]
    | false =>
      by_cases hq : c = '"'
      · subst hq
        simp [solid, read, CharClass.of, buffer]
      · by_cases he : c = '\\'
        · subst he
          simp [solid, read, CharClass.of, buffer]
        · simp [solid, read, CharClass.of, buffer, hq, he]
  | false =>
    obtain rfl : escaped = false := by simpa using h
    by_cases hq : c = '"'
    · subst hq
      simp [solid, read, CharClass.of, buffer]
    · by_cases ho : c = '('
      · subst ho
        simp [solid, read, CharClass.of, CharClass.isBlank, hp, Lexeme.opener]
      · by_cases hc : c = ')'
        · subst hc
          simp [solid, read, CharClass.of, CharClass.isBlank, hp, Lexeme.closer]
        · cases hb : CharClass.isBlank c with
          | true => simp [solid, read, CharClass.of, hq, ho, hc, hb, hp]
          | false => simp [solid, read, CharClass.of, hq, ho, hc, hb, buffer]

/-- **The lexemes that have ended and the buffer are the text without white space.** -/
theorem Coherent.flatMap_text_readAll {s : Scanner} (h : s.Coherent) (text : List Char) :
    (s.readAll text).1.flatMap Lexeme.text ++ (s.readAll text).2.buffer =
      s.buffer ++ solid s.inString s.escaped text := by
  induction text generalizing s with
  | nil => simp [solid]
  | cons c cs ih =>
    rw [readAll_cons, solid_read h.inString_of_escaped, List.flatMap_append, List.append_assoc,
      ih (h.read c).1, List.append_assoc]

end Scanner

theorem flatMap_text_endedLexemes (text : List Char) :
    (endedLexemes text).flatMap Lexeme.text ++ (scannerAfter text).buffer =
      solid false false text :=
  Scanner.coherent_start.flatMap_text_readAll text

/-! ## Depth along a run -/

namespace Formatter.Tracks

theorem complete_printed {f : Formatter} {text : List Char} {ps : List Piece}
    (h : f.Tracks text ps) : ∀ l ∈ lexemesOf ps ++ f.printer.heldLexemes, l.Complete := by
  rw [h.lexemesOf_eq]
  exact complete_of_mem_endedLexemes

theorem proper_read {f : Formatter} {text : List Char} {ps : List Piece} (h : f.Tracks text ps)
    (c : Char) : ∀ l ∈ f.printer.heldLexemes ++ (f.scanner.read c).1, l.Proper := by
  have hc := (coherent_scannerAfter text).read c
  rw [← h.scanner_eq] at hc
  intro l hl
  rcases List.mem_append.mp hl with hl | hl
  · exact (h.complete_printed l (List.mem_append_right _ hl)).proper
  · exact (hc.2 l hl).proper

end Formatter.Tracks

/-- The formatter counts the lists open in the pieces it has printed, and in what it holds back. -/
structure Formatter.Nests (f : Formatter) (ps : List Piece) : Prop where
  length_lists : f.printer.sheet.lists.length = nesting 0 (lexemesOf ps)
  held : f.printer.Nests

namespace Formatter.Nests

theorem start (s : Settings) : (Formatter.ofSettings s).Nests [] where
  length_lists := rfl
  held := Printer.nests_of_held_eq_none rfl

theorem handle {f : Formatter} {text : List Char} {ps : List Piece} (h : f.Nests ps)
    (ht : f.Tracks text ps) (e : Event) : (f.handle e).2.Nests (ps ++ (f.handle e).1) := by
  cases he : e.char? with
  | none =>
    obtain ⟨s, hs⟩ := f.handle_of_char?_eq_none he
    rw [hs, List.append_nil]
    exact ⟨h.length_lists, h.held⟩
  | some c =>
    obtain rfl := Event.eq_read_of_char? he
    refine ⟨?_, h.held.printAll _⟩
    rw [lexemesOf_append, nesting_append, ← h.length_lists]
    exact Printer.length_lists_printAll (ht.proper_read c)

theorem run {f : Formatter} {text : List Char} {ps : List Piece} (h : f.Nests ps)
    (ht : f.Tracks text ps) (es : List Event) : (f.run es).2.Nests (ps ++ (f.run es).1) := by
  induction es generalizing f text ps with
  | nil => simpa using h
  | cons e es ih =>
    rw [run_cons, ← List.append_assoc]
    exact ih (h.handle ht e) (ht.handle e)

end Formatter.Nests

/-- **At every moment of a run nothing is lost, doubled or out of order.** What has been printed
and what is held back are the lexemes that have ended, these and the buffer of the scanner are the
text without its white space, and the lists open on the sheet and in what is held back are those
open in the text. A session that has not stopped is at the same point. -/
theorem accounted_at_every_moment [Memory] (s : Settings) (es : List Event) :
    let r := (Formatter.ofSettings s).run es
    let ended := endedLexemes (Event.text es)
    lexemes (textOf r.1) ++ r.2.printer.heldLexemes = ended ∧
      ended.flatMap Lexeme.text ++ r.2.scanner.buffer = solid false false (Event.text es) ∧
      r.2.printer.sheet.lists.length + r.2.printer.heldDepth = nesting 0 ended ∧
      (((Session.ofSettings s).run es).2.error = none →
        (Session.ofSettings s).run es = (r.1, { formatter := r.2 })) := by
  intro r ended
  have ht : r.2.Tracks (Event.text es) r.1 := (Formatter.Tracks.start s).run es
  have hn : r.2.Nests r.1 := (Formatter.Nests.start s).run (.start s) es
  refine ⟨?_, ?_, ?_, (Session.run_eq (Formatter.ofSettings s) es).2⟩
  · -- only lexemes that have ended are printed, so they can be read back
    have hc : ∀ l ∈ lexemesOf r.1, l.Complete := fun l hl =>
      ht.complete_printed l (List.mem_append_left _ hl)
    rw [lexemes_textOf hc ht.tidy.apart]
    exact ht.lexemesOf_eq
  · rw [ht.scanner_eq]
    exact flatMap_text_endedLexemes _
  · rw [← hn.held.nesting_heldLexemes, hn.length_lists, ← nesting_append, ht.lexemesOf_eq]

end SExprReflow
