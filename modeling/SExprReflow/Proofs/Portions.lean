import SExprReflow.Proofs.Within
import SExprReflow.Transfer

/-!
# Text in portions

A source is handed over in portions, and each is read before the next one comes. How the text is
cut makes no difference: what is printed depends on all that is handed over, and on whether the end
of the text is among it. If it is, the print is that of the whole text. If reading fails instead,
what has been printed is what a formatter prints of the characters that came, without what it keeps
back (`Readout.pieces`), and the failure is reported unless a line was too long before that.
-/

namespace SExprReflow

open Piece

/-- Portions are read like the text that they make up. -/
theorem Session.readPortions_eq [Memory] (x : Session) (portions : List (List Char)) :
    x.readPortions portions = x.readAll portions.flatten := by
  induction portions generalizing x with
  | nil => rfl
  | cons portion portions ih =>
    have hcons : x.readPortions (portion :: portions) =
        ((x.readAll portion).1 ++ ((x.readAll portion).2.readPortions portions).1,
          ((x.readAll portion).2.readPortions portions).2) :=
      runAll_cons readAll x portion portions
    rw [hcons, ih, List.flatten_cons]
    exact (runAll_append read x portion portions.flatten).symm

namespace Readout

variable {s : Settings} {r : Readout}

/-- What is printed of a readout where there are no bounds. -/
def pieces (s : Settings) (r : Readout) : List Piece :=
  let x := (Formatter.ofSettings s).readAll r.text
  if r.fails then x.1 else x.1 ++ x.2.finish.1

theorem pieces_of_fails (h : r.fails = true) :
    r.pieces s = ((Formatter.ofSettings s).readAll r.text).1 := by
  simp [pieces, h]

theorem pieces_of_not_fails (h : r.fails = false) : r.pieces s = reflowPieces s r.text := by
  simp [pieces, reflowPieces, h]

/-- Of a text that does not come to its end, what a session delivers is printed. -/
theorem text_reflow_of_fails [Memory] (h : r.fails = true) :
    (r.reflow s).text = textOf ((Session.ofSettings s).readAll r.text).1 := by
  simp only [reflow, Session.readPortions_eq, h, text]
  cases ((Session.ofSettings s).readAll r.portions.flatten).2.error <;> rfl

/-- A text that comes to its end is printed as a whole. -/
theorem reflow_of_not_fails [Memory] (h : r.fails = false) :
    r.reflow s = ⟨(reflowWithin s r.text).text, (reflowWithin s r.text).error.map .tooLong⟩ := by
  simp only [reflow, Session.readPortions_eq, h, reflowWithin, text]
  cases he : ((Session.ofSettings s).readAll r.portions.flatten).2.error with
  | none => rfl
  | some e => simp [Session.finish, he]

/-- **Printing portions fails at the first piece that is too long**, or else if reading does. -/
theorem error_reflow [Memory] :
    (r.reflow s).error =
      ((firstLengthError? (r.pieces s)).map .tooLong).or
        (if r.fails then some .undecodable else none) := by
  cases h : r.fails with
  | true =>
    have he := Session.error_readAll (.ofSettings s) r.text
    rw [pieces_of_fails h, ← he]
    simp only [reflow, Session.readPortions_eq, h, text, Session.ofSettings]
    cases (Session.readAll { formatter := .ofSettings s } r.portions.flatten).2.error <;> rfl
  | false =>
    have hr := result_reflowWithin s r.text
    rw [reflow_of_not_fails h, pieces_of_not_fails h]
    simp only [Delivery.result, text?] at hr
    cases he : (reflowWithin s r.text).error with
    | none =>
      cases hp : firstLengthError? (reflowPieces s r.text) with
      | none => rfl
      | some e => simp [he, hp] at hr
    | some e =>
      cases hp : firstLengthError? (reflowPieces s r.text) with
      | none => simp [he, hp] at hr
      | some e' =>
        obtain rfl : e = e' := by simpa [he, hp] using hr
        rfl

end Readout

namespace TextReader

variable (reader : TextReader) (ends : LineEnds)

/-- **A text is printed as a whole, in whatever portions it is read.** -/
theorem reflow_read_encodeText [Memory] (s : Settings) (text : List Char) :
    (reader.read ends (encodeText text)).reflow s =
      ⟨(reflowWithin s (ends.apply text)).text,
        (reflowWithin s (ends.apply text)).error.map .tooLong⟩ := by
  obtain ⟨htext, hfails⟩ := reader.read_encodeText ends text
  rw [Readout.reflow_of_not_fails hfails, htext]

end TextReader

end SExprReflow
