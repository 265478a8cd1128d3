import SExprReflow.Formatter
import SExprReflow.Proofs.Separation

/-!
# Runs of the formatter

While a formatter reads a text its settings can be replaced at any time, as a whole or in
part. An `Event` is one of these things: a character read, or a change of settings.

`Formatter.Tracks` says what a formatter has to do with the text it has read and the pieces
it has printed: the scanner is where the text leads to, the lexemes that have ended are those
printed and then those held back, and the pieces are tidy. Characters keep this, and so do
new settings, for nothing in it mentions them. At the end all lexemes of the text have been
printed, and they can be read back (`Formatter.Tracks.lexemes_finish`).
-/

namespace SExprReflow

open Piece

/-! ## Events -/

/-- What can happen to a formatter before the end of the text. -/
inductive Event where
  /-- A character is read. -/
  | read (c : Char)
  /-- The settings are replaced. -/
  | assign (s : Settings)
  /-- The settings are changed in part. A change that is refused leaves them as they are. -/
  | change (c : Change)

/-- The character read in an event. -/
def Event.char? : Event → Option Char
  | read c => some c
  | _ => none

theorem Event.eq_read_of_char? {e : Event} {c : Char} (h : e.char? = some c) : e = read c := by
  cases e with
  | read c' => simpa [char?] using h
  | assign s => exact absurd h (by simp [char?])
  | change c' => exact absurd h (by simp [char?])

/-- The text read in events. -/
def Event.text (es : List Event) : List Char := es.filterMap char?

namespace Formatter

/-- The formatter after an event. -/
def handle (f : Formatter) : Event → List Piece × Formatter
  | .read c => f.read c
  | .assign s => ([], f.withSettings s)
  | .change c =>
    match f.change c with
    | .ok f' => ([], f')
    | .error _ => ([], f)

/-- The formatter after events. -/
def run (f : Formatter) (es : List Event) : List Piece × Formatter := runAll handle f es

@[simp] theorem run_nil (f : Formatter) : f.run [] = ([], f) := rfl

@[simp] theorem run_cons (f : Formatter) (e : Event) (es : List Event) :
    f.run (e :: es) =
      ((f.handle e).1 ++ ((f.handle e).2.run es).1, ((f.handle e).2.run es).2) :=
  runAll_cons handle f e es

/-- An event that brings no character brings settings, and nothing is printed. -/
theorem handle_of_char?_eq_none (f : Formatter) {e : Event} (he : e.char? = none) :
    ∃ s, f.handle e = ([], f.withSettings s) := by
  cases e with
  | read c => exact absurd he (by simp [Event.char?])
  | assign s => exact ⟨s, rfl⟩
  | change c =>
    cases hc : c.apply f.settings with
    | ok s => exact ⟨s, by simp [handle, change, hc, bind, Except.bind, pure, Except.pure]⟩
    | error e =>
      refine ⟨f.settings, ?_⟩
      have hf : f.withSettings f.settings = f := rfl
      simp [handle, change, hc, bind, Except.bind, hf]

end Formatter

/-- The pieces printed over a whole run that begins with the given settings. -/
def runPieces (s : Settings) (es : List Event) : List Piece :=
  let r := (Formatter.ofSettings s).run es
  r.1 ++ r.2.finish.1

theorem Event.text_map_read (text : List Char) : Event.text (text.map .read) = text := by
  induction text with
  | nil => rfl
  | cons c cs ih =>
    rw [Event.text] at ih ⊢
    simp [char?, ih]

/-- A text read without any change of settings is a run of its own. -/
theorem Formatter.run_map_read (f : Formatter) (text : List Char) :
    f.run (text.map .read) = f.readAll text := by
  induction text generalizing f with
  | nil => rfl
  | cons c cs ih =>
    rw [List.map_cons, run_cons, ih]
    exact (runAll_cons read f c cs).symm

theorem runPieces_map_read (s : Settings) (text : List Char) :
    runPieces s (text.map .read) = reflowPieces s text := by
  simp [runPieces, reflowPieces, Formatter.run_map_read]

/-! ## What a formatter has done -/

/-- The formatter has read a text and has printed the pieces. -/
structure Formatter.Tracks (f : Formatter) (text : List Char) (ps : List Piece) : Prop where
  scanner_eq : f.scanner = scannerAfter text
  lexemesOf_eq : lexemesOf ps ++ f.printer.heldLexemes = endedLexemes text
  tidy : Tidy ps f.printer.sheet

namespace Formatter.Tracks

theorem start (s : Settings) : (Formatter.ofSettings s).Tracks [] [] where
  scanner_eq := rfl
  lexemesOf_eq := rfl
  tidy := .nil _

theorem withSettings {f : Formatter} {text : List Char} {ps : List Piece} (h : f.Tracks text ps)
    (s : Settings) : (f.withSettings s).Tracks text ps where
  scanner_eq := h.scanner_eq
  lexemesOf_eq := h.lexemesOf_eq
  tidy := ⟨h.tidy.apart, h.tidy.last, h.tidy.begun⟩

theorem read {f : Formatter} {text : List Char} {ps : List Piece} (h : f.Tracks text ps)
    (c : Char) : (f.read c).2.Tracks (text ++ [c]) (ps ++ (f.read c).1) := by
  have hended : endedLexemes (text ++ [c]) = endedLexemes text ++ (f.scanner.read c).1 := by
    rw [h.scanner_eq]
    simp [endedLexemes, scannerAfter, Scanner.readAll_append]
  have htotal : lexemesOf ps ++ (f.printer.heldLexemes ++ (f.scanner.read c).1) =
      endedLexemes (text ++ [c]) := by
    rw [← List.append_assoc, h.lexemesOf_eq, hended]
  have hscan : AsScanned (lexemesOf ps ++ (f.printer.heldLexemes ++ (f.scanner.read c).1)) := by
    rw [htotal]
    exact .of_complete complete_of_mem_endedLexemes
  refine ⟨?_, ?_, ?_⟩
  · show (f.scanner.read c).2 = scannerAfter (text ++ [c])
    rw [h.scanner_eq]
    simp [scannerAfter, Scanner.readAll_append]
  · rw [lexemesOf_append, List.append_assoc, ← htotal]
    refine congrArg _ (Printer.lexemesOf_printAll fun l hl => ?_)
    exact hscan.proper l (List.mem_append_right _ hl)
  · exact h.tidy.printAll _ hscan

theorem handle {f : Formatter} {text : List Char} {ps : List Piece} (h : f.Tracks text ps)
    (e : Event) : (f.handle e).2.Tracks (text ++ e.char?.toList) (ps ++ (f.handle e).1) := by
  cases he : e.char? with
  | none =>
    obtain ⟨s, hs⟩ := f.handle_of_char?_eq_none he
    rw [hs]
    simpa using h.withSettings s
  | some c =>
    obtain rfl := Event.eq_read_of_char? he
    exact h.read c

/-- **A formatter tracks its text along every run.** -/
theorem run {f : Formatter} {text : List Char} {ps : List Piece} (h : f.Tracks text ps)
    (es : List Event) : (f.run es).2.Tracks (text ++ Event.text es) (ps ++ (f.run es).1) := by
  induction es generalizing f text ps with
  | nil => simpa [Event.text] using h
  | cons e es ih =>
    have ht : text ++ Event.text (e :: es) = text ++ e.char?.toList ++ Event.text es := by
      cases he : e.char? <;> simp [Event.text, he]
    rw [run_cons, ht, ← List.append_assoc]
    exact ih (h.handle e)

/-- What a formatter prints at the end completes the lexemes of its text, and leaves them
apart. Inside a string the last of them is also the last piece. -/
theorem finish {f : Formatter} {text : List Char} {ps : List Piece} (h : f.Tracks text ps) :
    lexemesOf (ps ++ f.finish.1) = lexemes text ∧ Apart (ps ++ f.finish.1) ∧
      ((scannerAfter text).inString = true →
        ∀ l ∈ (lexemes text).getLast?, l.role = .atom →
          (ps ++ f.finish.1).getLast? = some (.lexeme l)) := by
  have htotal : lexemesOf ps ++ (f.printer.heldLexemes ++ f.scanner.pendingAtom) = lexemes text := by
    rw [← List.append_assoc, h.lexemesOf_eq, h.scanner_eq, ← lexemes_eq]
  have hscan : AsScanned (lexemesOf ps ++ (f.printer.heldLexemes ++ f.scanner.pendingAtom)) := by
    rw [htotal]
    exact .of_text text
  -- the atom being read is printed or held back, then everything is placed
  generalize hr : f.printer.printAll f.scanner.pendingAtom = r
  have hread : lexemesOf (ps ++ r.1) ++ r.2.heldLexemes = lexemes text := by
    rw [lexemesOf_append, List.append_assoc, ← htotal, ← hr]
    refine congrArg _ (Printer.lexemesOf_printAll fun l hl => ?_)
    exact hscan.proper l (List.mem_append_right _ hl)
  have htidy : Tidy (ps ++ r.1) r.2.sheet := hr ▸ h.tidy.printAll _ hscan
  have hplace : Tidy (ps ++ r.1 ++ r.2.releaseAll.1) r.2.releaseAll.2.sheet :=
    htidy.releaseAll _ (hread ▸ .of_text text)
  have hall : lexemesOf (ps ++ r.1 ++ r.2.releaseAll.1) = lexemes text := by
    rw [lexemesOf_append, ← hread]
    refine congrArg _ (Printer.lexemesOf_releaseAll fun l hl => ?_).1
    exact proper_of_mem_lexemes l (hread ▸ List.mem_append_right _ hl)
  have hf : f.finish.1 = r.1 ++ (r.2.finish (!f.scanner.inString)).1 := by
    rw [← hr]
    rfl
  rw [hf, Printer.pieces_finish, ← List.append_assoc, ← List.append_assoc]
  refine ⟨?_, hplace.apart.append_of_not_atom isAtom_endPieces, fun hi l hl hrole => ?_⟩
  · rw [lexemesOf_append, hall, Sheet.lexemesOf_endPieces, List.append_nil]
  · -- inside a string the last line is not ended
    have he : r.2.releaseAll.2.sheet.endPieces (!f.scanner.inString) = [] := by
      rw [h.scanner_eq, hi]
      rfl
    rw [he, List.append_nil]
    exact hplace.last l (hall ▸ hl) hrole

/-- **The printed text has the lexemes of the text that was read.** -/
theorem lexemes_finish {f : Formatter} {text : List Char} {ps : List Piece}
    (h : f.Tracks text ps) : lexemes (textOf (ps ++ f.finish.1)) = lexemes text := by
  obtain ⟨hall, hapart, hlast⟩ := h.finish
  generalize ps ++ f.finish.1 = qs at hall hapart hlast
  cases hi : (scannerAfter text).inString with
  | false =>
    rw [← hall]
    exact lexemes_textOf (hall ▸ complete_of_mem_lexemes hi) hapart
  | true =>
    obtain ⟨l, hls, hcut⟩ := lexemes_of_inString hi
    have hrole : l.role = .atom := by
      obtain ⟨s, -, -, rfl⟩ := hcut
      rfl
    obtain ⟨qs', rfl⟩ := List.getLast?_eq_some_iff.mp (hlast hi l (by simp [hls]) hrole)
    have hqs : lexemesOf qs' = endedLexemes text := by
      rw [hls, lexemesOf_append] at hall
      exact List.append_cancel_right hall
    rw [lexemes_textOf_concat (hqs ▸ complete_of_mem_endedLexemes) hapart hcut, hqs, hls]

end Formatter.Tracks

end SExprReflow
