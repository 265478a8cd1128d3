import SExprReflow.Proofs.Within

/-!
# The content of a text

The content of a text is its lexemes. Printing keeps it, under whatever settings and with
whatever changes of them on the way. And nothing but the content decides what is printed: the
scanner passes lexemes on and keeps the white space to itself, and whether the last line is
ended can be told from the last lexeme (`reflowPieces_eq`).

The printed text is therefore a normal form of the content. Two texts print alike exactly
when they have the same lexemes, and printing an already printed text does not show that it
was printed before.
-/

namespace SExprReflow

open Piece

/-! ## Content is kept -/

theorem lexemes_textOf_runPieces (s : Settings) (es : List Event) :
    lexemes (textOf (runPieces s es)) = lexemes (Event.text es) :=
  ((Formatter.Tracks.start s).run es).lexemes_finish

theorem lexemes_reflow (s : Settings) (text : List Char) :
    lexemes (reflow s text) = lexemes text := by
  have h := lexemes_textOf_runPieces s (text.map .read)
  rwa [runPieces_map_read, Event.text_map_read] at h

/-- **A run keeps the content**, wherever settings are changed in it. Within bounds it comes to
the same text, unless a line of that text is too long. -/
theorem content_preserved [Memory] (s : Settings) (es : List Event) (text : List Char) :
    lexemes (textOf (runPieces s es)) = lexemes (Event.text es) ∧
      (runWithin s es).result = text? (runPieces s es) ∧
      lexemes (reflow s text) = lexemes text :=
  ⟨lexemes_textOf_runPieces s es, result_runWithin s es, lexemes_reflow s text⟩

/-! ## Only content counts -/

/-- A formatter prints what its printer makes of the lexemes that have ended. -/
theorem Formatter.readAll_eq (f : Formatter) (text : List Char) :
    f.readAll text =
      ((f.printer.printAll (f.scanner.readAll text).1).1,
        ⟨(f.scanner.readAll text).2, (f.printer.printAll (f.scanner.readAll text).1).2⟩) := by
  induction text generalizing f with
  | nil => simp [readAll]
  | cons c cs ih =>
    have hr : f.readAll (c :: cs) =
        ((f.read c).1 ++ ((f.read c).2.readAll cs).1, ((f.read c).2.readAll cs).2) :=
      runAll_cons Formatter.read f c cs
    rw [hr, ih, Scanner.readAll_cons, Printer.printAll_append]
    rfl

/-- What a text is printed as depends on its lexemes alone. -/
theorem reflowPieces_eq (s : Settings) (text : List Char) :
    reflowPieces s text =
      ((Printer.ofSettings s).printAll (lexemes text)).1 ++
        (((Printer.ofSettings s).printAll (lexemes text)).2.finish
          (!endsInString (lexemes text))).1 := by
  rw [endsInString_lexemes, lexemes_eq, Printer.printAll_append, List.append_assoc]
  unfold reflowPieces
  rw [Formatter.readAll_eq]
  rfl

theorem reflowPieces_congr {s : Settings} {t₁ t₂ : List Char} (h : lexemes t₁ = lexemes t₂) :
    reflowPieces s t₁ = reflowPieces s t₂ := by
  rw [reflowPieces_eq, reflowPieces_eq, h]

theorem reflow_congr {s : Settings} {t₁ t₂ : List Char} (h : lexemes t₁ = lexemes t₂) :
    reflow s t₁ = reflow s t₂ :=
  congrArg textOf (reflowPieces_congr h)

/-- **Two texts print alike exactly when they have the same content.** Within bounds texts of
the same content come to the same text or to the same error, and texts that come to the same
text have the same content. -/
theorem reflow_eq_reflow_iff [Memory] (s : Settings) (t₁ t₂ : List Char) :
    (reflow s t₁ = reflow s t₂ ↔ lexemes t₁ = lexemes t₂) ∧
      (lexemes t₁ = lexemes t₂ → (reflowWithin s t₁).result = (reflowWithin s t₂).result) ∧
      (∀ out, (reflowWithin s t₁).result = .ok out → (reflowWithin s t₂).result = .ok out →
        lexemes t₁ = lexemes t₂) := by
  -- a printed text can be read back, so it tells which content it has
  have hread : reflow s t₁ = reflow s t₂ → lexemes t₁ = lexemes t₂ := by
    intro h
    rw [← lexemes_reflow s t₁, h, lexemes_reflow]
  refine ⟨⟨hread, reflow_congr⟩, fun h => ?_, fun out h₁ h₂ => ?_⟩
  · rw [result_reflowWithin, result_reflowWithin, reflowPieces_congr h]
  · rw [result_reflowWithin] at h₁ h₂
    exact hread ((textOf_eq_of_text? h₁).symm.trans (textOf_eq_of_text? h₂))

/-! ## Printing anew -/

/-- However often a text is printed anew, its content stays. -/
theorem lexemes_foldl_reflow (as : List Settings) (text : List Char) :
    lexemes (as.foldl (fun t a => reflow a t) text) = lexemes text := by
  induction as generalizing text with
  | nil => rfl
  | cons a as ih => rw [List.foldl_cons, ih, lexemes_reflow]

/-- **Printing anew absorbs what was printed before**, once or any number of times. Within
bounds a text that could be printed before comes to the same text or error. -/
theorem reflow_absorbs [Memory] (a b : Settings) (as : List Settings) (text : List Char) :
    reflow b (reflow a text) = reflow b text ∧
      (as ++ [b]).foldl (fun t c => reflow c t) text = reflow b text ∧
      (∀ out, (reflowWithin a text).result = .ok out →
        (reflowWithin b out).result = (reflowWithin b text).result) := by
  refine ⟨reflow_congr (lexemes_reflow a text), ?_, fun out h => ?_⟩
  · rw [List.foldl_append, List.foldl_cons, List.foldl_nil]
    exact reflow_congr (lexemes_foldl_reflow as text)
  · rw [result_reflowWithin] at h
    obtain rfl := textOf_eq_of_text? h
    rw [result_reflowWithin, result_reflowWithin]
    exact congrArg text? (reflowPieces_congr (lexemes_reflow a text))

end SExprReflow
