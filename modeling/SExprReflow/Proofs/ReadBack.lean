import Mathlib.Data.List.Chain
import Mathlib.Data.List.Induction
import SExprReflow.Piece
import SExprReflow.Proofs.Scan

/-!
# Reading printed text back

Printed text is a sequence of pieces, and only some of them are lexemes. Reading the text
gives these lexemes back, and no others, on one condition: no atom stands directly behind
another one (`Piece.Apart`). Delimiters need no such care, and the white space between
pieces yields nothing.

An atom that is cut off swallows all that comes after it, so it is read back only where
nothing does.
-/

namespace SExprReflow

namespace Piece

/-- The lexeme that a piece is, if it is one. -/
def lexeme? : Piece → Option Lexeme
  | lexeme l => some l
  | _ => none

/-- The lexemes among pieces. -/
def lexemesOf (ps : List Piece) : List Lexeme := ps.filterMap lexeme?

@[simp] theorem lexemesOf_nil : lexemesOf [] = [] := rfl

@[simp] theorem lexemesOf_append (ps qs : List Piece) :
    lexemesOf (ps ++ qs) = lexemesOf ps ++ lexemesOf qs :=
  List.filterMap_append

@[simp] theorem lexemesOf_lexeme (l : Lexeme) (ps : List Piece) :
    lexemesOf (lexeme l :: ps) = l :: lexemesOf ps := rfl

@[simp] theorem lexemesOf_space (ps : List Piece) : lexemesOf (space :: ps) = lexemesOf ps := rfl

@[simp] theorem lexemesOf_lineBreak (indent : Indent) (ps : List Piece) :
    lexemesOf (lineBreak indent :: ps) = lexemesOf ps := rfl

/-- Whether a piece is an atom. -/
def isAtom : Piece → Bool
  | lexeme l => l.role = .atom
  | _ => false

theorem isAtom_iff {p : Piece} : p.isAtom = true ↔ ∃ l : Lexeme, p = lexeme l ∧ l.role = .atom := by
  cases p with
  | lexeme l => simp [isAtom]
  | space => simp [isAtom]
  | lineBreak indent => simp [isAtom]

/-- No atom stands directly behind another one. -/
def Apart (ps : List Piece) : Prop :=
  ps.IsChain fun p q => p.isAtom = true → q.isAtom = false

theorem apart_nil : Apart [] := List.isChain_nil

/-- One more piece stays apart, unless it is an atom and so is the one before. -/
theorem apart_concat {ps : List Piece} {q : Piece} :
    Apart (ps ++ [q]) ↔ Apart ps ∧ ∀ p ∈ ps.getLast?, p.isAtom = true → q.isAtom = false := by
  simp [Apart, List.isChain_append]

theorem Apart.not_atom_before {ps : List Piece} {q : Piece} (h : Apart (ps ++ [q]))
    (hq : q.isAtom = true) : ∀ p ∈ ps.getLast?, p.isAtom = false := by
  intro p hp
  cases hpa : p.isAtom with
  | false => rfl
  | true => exact absurd ((apart_concat.mp h).2 p hp hpa) (by simp [hq])

theorem Apart.concat_of_not_atom {ps : List Piece} {q : Piece} (h : Apart ps)
    (hq : q.isAtom = false) : Apart (ps ++ [q]) :=
  apart_concat.mpr ⟨h, fun _ _ _ => hq⟩

end Piece

/-! ## One piece -/

theorem Indent.isBlank_of_mem_text (i : Indent) : ∀ c ∈ i.text, CharClass.isBlank c = true := by
  intro c hc
  obtain rfl : c = i.char.toChar := List.eq_of_mem_replicate hc
  cases i.char <;> rfl

namespace Scanner

theorem read_blank {c : Char} (hc : CharClass.isBlank c = true) (text : List Char) :
    (holding text).read c = ((holding text).pendingAtom, {}) := by
  have hk : CharClass.of false false c = .blank := by
    simp only [CharClass.isBlank, Bool.or_eq_true, decide_eq_true_eq] at hc
    rcases hc with ((rfl | rfl) | rfl) | rfl <;> rfl
  simp [read, holding, hk]

/-- Outside strings white space ends the atom. -/
theorem Coherent.read_of_isBlank {s : Scanner} (h : s.Coherent) (hi : s.inString = false) {c : Char}
    (hc : CharClass.isBlank c = true) : s.read c = (s.pendingAtom, {}) := by
  rw [h.eq_holding hi]
  exact read_blank hc s.buffer

/-- White space after white space yields nothing. -/
theorem readAll_blanks {cs : List Char} (hcs : ∀ c ∈ cs, CharClass.isBlank c = true) :
    ({} : Scanner).readAll cs = ([], {}) := by
  induction cs with
  | nil => rfl
  | cons c cs ih =>
    have hc : ({} : Scanner).read c = ([], {}) := read_blank (hcs c List.mem_cons_self) []
    rw [readAll_cons, hc, ih fun d hd => hcs d (List.mem_cons_of_mem c hd)]
    rfl

/-- A line break ends the atom before it, whatever its indentation. -/
theorem readAll_lineBreak (text : List Char) (indent : Indent) :
    (holding text).readAll (Piece.lineBreak indent).text = ((holding text).pendingAtom, {}) := by
  rw [Piece.text, readAll_cons, read_blank rfl, readAll_blanks indent.isBlank_of_mem_text]
  simp

/-- A piece that is no atom ends the one before it. -/
theorem readAll_of_not_atom {p : Piece} (hp : p.isAtom = false)
    (hc : ∀ l ∈ p.lexeme?, l.Complete) (text : List Char) :
    (holding text).readAll p.text = ((holding text).pendingAtom ++ p.lexeme?.toList, {}) := by
  cases p with
  | lexeme l =>
    cases hc l rfl with
    | opener => simp [Piece.text, Lexeme.opener, Piece.lexeme?, holding, read, CharClass.of]
    | closer => simp [Piece.text, Lexeme.closer, Piece.lexeme?, holding, read, CharClass.of]
    | atom _ _ => exact absurd hp (by simp [Piece.isAtom, Lexeme.atom])
  | space =>
    rw [Piece.text, readAll_cons, read_blank rfl]
    simp [Piece.lexeme?]
  | lineBreak indent =>
    rw [readAll_lineBreak]
    simp [Piece.lexeme?]

end Scanner

/-! ## All pieces -/

namespace Piece

/-- Complete lexemes that are kept apart are read back one by one. The scanner then holds
the last piece if that is an atom, and nothing otherwise. -/
theorem readAll_textOf {ps : List Piece} (hc : ∀ l ∈ lexemesOf ps, l.Complete) (ha : Apart ps) :
    ∃ ls text, ({} : Scanner).readAll (textOf ps) = (ls, .holding text) ∧
      ls ++ (Scanner.holding text).pendingAtom = lexemesOf ps ∧
      ((∀ p ∈ ps.getLast?, p.isAtom = false) → text = []) := by
  induction ps using List.reverseRecOn with
  | nil => exact ⟨[], [], rfl, rfl, fun _ => rfl⟩
  | append_singleton ps p ih =>
    rw [lexemesOf_append] at hc
    obtain ⟨ls, text, hr, hls, ht⟩ :=
      ih (fun l hl => hc l (List.mem_append_left _ hl)) (apart_concat.mp ha).1
    rw [textOf_append, textOf_cons, textOf_nil, List.append_nil, Scanner.readAll_append, hr]
    cases hp : p.isAtom with
    | false =>
      have hcp : ∀ l ∈ p.lexeme?, l.Complete := by
        intro l hl
        exact hc l (List.mem_append_right _ (List.mem_filterMap.mpr ⟨p, by simp, hl⟩))
      rw [Scanner.readAll_of_not_atom hp hcp]
      refine ⟨_, [], rfl, ?_, fun _ => rfl⟩
      rw [Scanner.holding_nil, Scanner.pendingAtom_start, List.append_nil, ← List.append_assoc,
        hls, lexemesOf_append]
      cases p <;> rfl
    | true =>
      obtain ⟨l, rfl, hrole⟩ := isAtom_iff.mp hp
      -- the piece before is no atom, so the scanner holds nothing
      obtain rfl : text = [] := ht (ha.not_atom_before hp)
      cases hc l (by simp) with
      | opener => exact absurd hrole (by simp [Lexeme.opener])
      | closer => exact absurd hrole (by simp [Lexeme.closer])
      | @atom t hne hrt =>
        refine ⟨ls ++ [], t, ?_, ?_, ?_⟩
        · rw [Scanner.holding_nil]
          simp only [Piece.text]
          rw [show (Lexeme.atom t).text = t from rfl, hrt]
        · rw [Scanner.pendingAtom_holding hne, lexemesOf_append, ← hls]
          simp
        · intro h
          exact absurd (h (lexeme (.atom t)) (by simp)) (by simp [hp])

/-- **Printed lexemes are read back**, if they are complete and kept apart. -/
theorem lexemes_textOf {ps : List Piece} (hc : ∀ l ∈ lexemesOf ps, l.Complete) (ha : Apart ps) :
    lexemes (textOf ps) = lexemesOf ps := by
  obtain ⟨ls, text, hr, hls, -⟩ := readAll_textOf hc ha
  rw [← hls]
  simp [lexemes, hr]

/-- An atom that is cut off is read back at the end of the text. -/
theorem lexemes_textOf_concat {ps : List Piece} {l : Lexeme} (hc : ∀ x ∈ lexemesOf ps, x.Complete)
    (ha : Apart (ps ++ [lexeme l])) (hl : l.CutOff) :
    lexemes (textOf (ps ++ [lexeme l])) = lexemesOf ps ++ [l] := by
  obtain ⟨ls, text, hr, hls, ht⟩ := readAll_textOf hc (apart_concat.mp ha).1
  obtain ⟨s, hs, hrs, rfl⟩ := hl
  obtain rfl : text = [] := ht (ha.not_atom_before rfl)
  have hra : ({} : Scanner).readAll (textOf (ps ++ [lexeme (.atom s.buffer)])) = (ls, s) := by
    rw [textOf_append, Scanner.readAll_append, hr]
    simp [Piece.text, Lexeme.atom, hrs]
  unfold lexemes
  rw [hra, ← hls]
  simp [Scanner.pendingAtom_of_inString hs hrs]

end Piece

end SExprReflow
