import SExprReflow.Bounded.Session
import SExprReflow.Proofs.Run

/-!
# Runs within bounds

A session does what its formatter does, until a line would have to begin with more white
space than a text can hold. So there is nothing to be known about sessions but which pieces
their formatters print: a run comes to the text of these pieces, or to the error of the first
of them that is too long (`result_runWithin`).
-/

namespace SExprReflow

open Piece

/-- The text of pieces, or why there is none: the first piece that is too long says so. -/
def Piece.text? [Memory] (ps : List Piece) : Except LengthError (List Char) :=
  match firstLengthError? ps with
  | none => .ok (textOf ps)
  | some e => .error e

/-- What a delivery comes to: all of the text, or why there is not. -/
def Delivery.result (d : Delivery) : Except LengthError (List Char) :=
  match d.error with
  | none => .ok d.text
  | some e => .error e

/-- A text that is delivered is the whole text. -/
theorem Piece.textOf_eq_of_text? [Memory] {ps : List Piece} {out : List Char}
    (h : text? ps = .ok out) : out = textOf ps := by
  unfold text? at h
  split at h
  · exact (Except.ok.inj h).symm
  · exact absurd h (by simp)

namespace Session

/-- The session after an event. -/
def handle [Memory] (s : Session) : Event → List Piece × Session
  | .read c => s.read c
  | e => ([], { s with formatter := (s.formatter.handle e).2 })

/-- The session after events. -/
def run [Memory] (s : Session) (es : List Event) : List Piece × Session := runAll handle s es

@[simp] theorem run_nil [Memory] (s : Session) : s.run [] = ([], s) := rfl

@[simp] theorem run_cons [Memory] (s : Session) (e : Event) (es : List Event) :
    s.run (e :: es) = ((s.handle e).1 ++ ((s.handle e).2.run es).1, ((s.handle e).2.run es).2) :=
  runAll_cons handle s e es

/-- A session that has stopped stays so. -/
theorem error_run [Memory] {s : Session} {e : LengthError} (h : s.error = some e)
    (es : List Event) : (s.run es).2.error = some e := by
  induction es generalizing s with
  | nil => exact h
  | cons ev es ih =>
    rw [run_cons]
    refine ih ?_
    cases ev with
    | read c => simp [handle, read, h]
    | assign t => exact h
    | change c => exact h

/-- One event does to a session what it does to its formatter, or stops the session. -/
theorem handle_eq [Memory] (f : Formatter) (e : Event) :
    (handle { formatter := f } e).2.error = firstLengthError? (f.handle e).1 ∧
      ((handle { formatter := f } e).2.error = none →
        handle { formatter := f } e = ((f.handle e).1, { formatter := (f.handle e).2 })) := by
  cases he : e.char? with
  | none =>
    obtain ⟨s, hs⟩ := f.handle_of_char?_eq_none he
    have hh : handle { formatter := f } e = ([], { formatter := f.withSettings s }) := by
      cases e with
      | read c => exact absurd he (by simp [Event.char?])
      | assign t => simp [handle, hs]
      | change c => simp [handle, hs]
    rw [hh, hs]
    exact ⟨rfl, fun _ => rfl⟩
  | some c =>
    obtain rfl := Event.eq_read_of_char? he
    have hp := Printer.printWithin_agrees f.printer (f.scanner.read c).1
    have hr : handle { formatter := f } (.read c) =
        deliver { formatter := f } (f.scanner.read c).2
          (f.printer.printWithin (f.scanner.read c).1) := rfl
    rw [hr, error_deliver]
    refine ⟨hp.error_eq, fun hn => ?_⟩
    rw [deliver_of_agrees hp hn]
    rfl

/-- **A session runs like its formatter**, up to the first piece that is too long. -/
theorem run_eq [Memory] (f : Formatter) (es : List Event) :
    (run { formatter := f } es).2.error = firstLengthError? (f.run es).1 ∧
      ((run { formatter := f } es).2.error = none →
        run { formatter := f } es = ((f.run es).1, { formatter := (f.run es).2 })) := by
  induction es generalizing f with
  | nil => exact ⟨rfl, fun _ => rfl⟩
  | cons e es ih =>
    obtain ⟨herr, heq⟩ := handle_eq f e
    rw [run_cons, Formatter.run_cons, firstLengthError?_append, ← herr]
    cases hh : (handle { formatter := f } e).2.error with
    | some x =>
      -- the first error stays, whatever comes after
      refine ⟨error_run hh es, fun hn => ?_⟩
      exact absurd ((error_run hh es).symm.trans hn) (by simp)
    | none =>
      rw [heq hh]
      obtain ⟨herr', heq'⟩ := ih (f.handle e).2
      refine ⟨herr', fun hn => ?_⟩
      rw [heq' hn]

theorem run_map_read [Memory] (x : Session) (text : List Char) :
    x.run (text.map .read) = x.readAll text := by
  induction text generalizing x with
  | nil => rfl
  | cons c cs ih =>
    rw [List.map_cons, run_cons, ih]
    exact (runAll_cons read x c cs).symm

/-- A session that reads a text stops at the first piece that is too long. -/
theorem error_readAll [Memory] (f : Formatter) (text : List Char) :
    (readAll { formatter := f } text).2.error = firstLengthError? (f.readAll text).1 := by
  rw [← run_map_read, ← f.run_map_read, (run_eq f _).1]

theorem error_finish [Memory] (f : Formatter) :
    (finish { formatter := f }).2.error = firstLengthError? f.finish.1 := by
  have hp := Printout.Agrees.andThen (k := fun p => p.finishWithin (!f.scanner.endAtom.2.inString))
    (Printer.printWithin_agrees f.printer f.scanner.endAtom.1)
    (Printer.finishWithin_agrees (f.printer.printAll f.scanner.endAtom.1).2 _)
  exact (error_deliver _ _ _).trans hp.error_eq

end Session

/-- What is delivered over a whole run that begins with the given settings. -/
def runWithin [Memory] (s : Settings) (es : List Event) : Delivery :=
  let r := (Session.ofSettings s).run es
  let q := r.2.finish
  ⟨textOf (r.1 ++ q.1), q.2.error⟩

/-- **A run within bounds comes to the text of the pieces**, or to the error of the first that
is too long. -/
theorem result_runWithin [Memory] (s : Settings) (es : List Event) :
    (runWithin s es).result = text? (runPieces s es) := by
  obtain ⟨herr, heq⟩ := Session.run_eq (Formatter.ofSettings s) es
  unfold runWithin runPieces Session.ofSettings text?
  rw [firstLengthError?_append, ← herr]
  cases hr : (Session.run { formatter := .ofSettings s } es).2.error with
  | some e => simp [Delivery.result, Session.finish, hr]
  | none =>
    rw [heq hr]
    have hf := Session.error_finish ((Formatter.ofSettings s).run es).2
    simp only [Delivery.result, Option.none_or, hf]
    cases hn : firstLengthError? ((Formatter.ofSettings s).run es).2.finish.1 with
    | some e => rfl
    | none =>
      rw [Session.finish_eq (hf.trans hn)]

theorem runWithin_map_read [Memory] (s : Settings) (text : List Char) :
    runWithin s (text.map .read) = reflowWithin s text := by
  simp [runWithin, reflowWithin, Session.run_map_read]

theorem result_reflowWithin [Memory] (s : Settings) (text : List Char) :
    (reflowWithin s text).result = text? (reflowPieces s text) := by
  rw [← runWithin_map_read, result_runWithin, runPieces_map_read]

end SExprReflow
