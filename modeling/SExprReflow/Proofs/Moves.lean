import SExprReflow.Proofs.HoldBack

/-!
# What can happen to a sheet

Calls come in any order, one of them may fail, and the next goes on from what it left. All of them
together do only four things to the sheet (`Sheet.Move`): a lexeme is printed, a list is given up
because its closer could not be printed, the last line is ended, other settings are in force. What
every move keeps is therefore kept by every call.

`Session.call_cases` says the same of calls: one that brings settings does nothing else, and any other
moves the sheet along the pieces that it prints.
-/

namespace SExprReflow

open Piece

/-- What is left of a move in the history of a sheet. -/
inductive Mark where
  | print (p : Piece)
  /-- The innermost list is closed, but its closer is not printed. -/
  | giveUp
  | settings (s : Settings)

namespace Sheet

/-- One thing that can happen to a sheet. -/
inductive Move : Sheet → List Mark → Sheet → Prop where
  /-- A lexeme is printed behind the gap that belongs there; the gap before an opener may have been
  settled by what comes behind it. -/
  | put {s : Sheet} {g : Gap} {l : Lexeme} : l.role = .opener ∨ s.gap? l = some g →
      Move s ((s.pieces g l).map .print) (s.put g l)
  | giveUp (s : Sheet) : Move s [.giveUp] { s with lists := s.lists.tail }
  | endLine (s : Sheet) : Move s [.print (s.lineBreak 0)] (s.advance [s.lineBreak 0])
  | settings (s : Sheet) (t : Settings) : Move s [.settings t] { s with settings := t }

/-- Any number of moves, one after the other. -/
inductive Moves : Sheet → List Mark → Sheet → Prop where
  | refl (s : Sheet) : Moves s [] s
  | tail {s s' s'' : Sheet} {ms ms' : List Mark} : Moves s ms s' → Move s' ms' s'' →
      Moves s (ms ++ ms') s''

namespace Moves

variable {s s' s'' : Sheet} {ms ms' : List Mark}

theorem single (h : Move s ms s') : Moves s ms s' :=
  (refl s).tail h

theorem trans (h : Moves s ms s') (h' : Moves s' ms' s'') : Moves s (ms ++ ms') s'' := by
  induction h' with
  | refl => simpa using h
  | tail _ hm ih =>
    rw [← List.append_assoc]
    exact ih.tail hm

end Moves

end Sheet

/-! ## The printer -/

namespace Printer

theorem moves_release (s : Sheet) (h : Held) :
    s.Moves ((release s h).pieces.map .print) (release s h).printer.sheet := by
  have hput : s.Move ((s.pieces (s.compactGap (oneLineWidth h.lexemes)) .opener).map .print)
      (s.put (s.compactGap (oneLineWidth h.lexemes)) .opener) := .put (.inl rfl)
  exact .single hput

theorem moves_step (p : Printer) (l : Lexeme) :
    p.sheet.Moves ((p.step l).pieces.map .print) (p.step l).printer.sheet := by
  have hs := p.steps_step l
  generalize p.step l = o at hs
  cases hs with
  | print hh hg => exact .single (.put (.inr hg))
  | hold hh hg => exact .refl _
  | keep hh hs => exact .refl _
  | release hh hs => exact moves_release _ _

end Printer

/-- The printout comes of moves of the sheet. If printing has stopped, a list may have been given up
after them. -/
def Printout.Moves (s : Sheet) (r : Printout) : Prop :=
  ∃ s', s.Moves (r.pieces.map .print) s' ∧
    (r.printer.sheet = s' ∨ r.error ≠ none ∧ r.printer.sheet = { s' with lists := s'.lists.tail })

namespace Printout.Moves

variable {s s' : Sheet} {ps : List Piece} {r : Printout}

theorem of_moves (h : s.Moves (r.pieces.map .print) r.printer.sheet) : r.Moves s :=
  ⟨_, h, .inl rfl⟩

theorem of_error_eq_none (h : r.Moves s) (he : r.error = none) :
    s.Moves (r.pieces.map .print) r.printer.sheet := by
  obtain ⟨s', hs, rfl | ⟨hne, -⟩⟩ := h
  · exact hs
  · exact absurd he hne

theorem after (hs : s.Moves (ps.map .print) s') (h : r.Moves s') : (r.after ps).Moves s := by
  obtain ⟨s'', hs', hend⟩ := h
  refine ⟨s'', ?_, hend⟩
  rw [Printout.after, List.map_append]
  exact hs.trans hs'

theorem andThen {k : Printer → Printout} (h : r.Moves s)
    (hk : (k r.printer).Moves r.printer.sheet) : (r.andThen k).Moves s := by
  unfold Printout.andThen
  split
  · exact h
  · next he => exact after (h.of_error_eq_none he) hk

end Printout.Moves

namespace Printer

/-- A lexeme that cannot be printed leaves the sheet alone, unless it is a closer: then the list is
given up. -/
theorem moves_lose (p : Printer) (l : Lexeme) (e : LengthError) :
    Printout.Moves p.sheet ⟨[], p.lose l, some e⟩ := by
  unfold lose
  split
  · exact ⟨p.sheet, .refl _, .inr ⟨by simp, rfl⟩⟩
  · exact .of_moves (.refl _)

theorem moves_printWithin [Memory] (p : Printer) (ls : List Lexeme) :
    (p.printWithin ls).Moves p.sheet := by
  fun_induction Printer.printWithin p ls with
  | case1 p => exact .of_moves (.refl _)
  | case2 p l queue e he => exact p.moves_lose l e
  | case3 p l queue he ih => exact .after (p.moves_step l) ih

theorem moves_releaseAllWithin [Memory] (p : Printer) : p.releaseAllWithin.Moves p.sheet := by
  fun_induction Printer.releaseAllWithin p with
  | case1 p hh => exact .of_moves (.refl _)
  | case2 p h hh o e he => exact .of_moves (.refl _)
  | case3 p h hh o he r e hr => exact .after (moves_release _ _) (o.printer.moves_printWithin o.again)
  | case4 p h hh o he r hr ih =>
    have hprint : r.Moves o.printer.sheet := o.printer.moves_printWithin o.again
    have hall := (moves_release p.sheet h).trans (hprint.of_error_eq_none hr)
    rw [← List.map_append] at hall
    exact .after hall ih

theorem moves_finishWithin [Memory] (p : Printer) (terminate : Bool) :
    (p.finishWithin terminate).Moves p.sheet := by
  unfold finishWithin
  split
  · refine p.moves_releaseAllWithin.andThen ?_
    unfold endLine
    split
    · exact .of_moves (.single (.endLine _))
    · exact .of_moves (.refl _)
  · exact p.moves_releaseAllWithin

end Printer

/-! ## Settings -/

namespace Sheet

theorem Move.settings_eq {s s' : Sheet} {ms : List Mark} (h : s.Move ms s')
    (hms : ∀ t, .settings t ∉ ms) : s'.settings = s.settings := by
  cases h with
  | put hg => exact settings_put _ _ _
  | giveUp => rfl
  | endLine => rfl
  | settings t => exact absurd (List.mem_singleton_self _) (hms t)

theorem Moves.settings_eq {s s' : Sheet} {ms : List Mark} (h : s.Moves ms s')
    (hms : ∀ t, .settings t ∉ ms) : s'.settings = s.settings := by
  induction h with
  | refl => rfl
  | tail _ hm ih =>
    rw [hm.settings_eq fun t ht => hms t (List.mem_append_right _ ht),
      ih fun t ht => hms t (List.mem_append_left _ ht)]

end Sheet

/-- Printing changes no settings. -/
theorem Printout.Moves.settings_eq {s : Sheet} {r : Printout} (h : r.Moves s) :
    r.printer.sheet.settings = s.settings := by
  obtain ⟨s', hs, hend⟩ := h
  have heq : s'.settings = s.settings := hs.settings_eq (by simp)
  rcases hend with hend | ⟨-, hend⟩
  · rw [hend, heq]
  · rw [hend, ← heq]

/-! ## Calls -/

namespace Session

/-- The sheet that a session prints on. -/
def sheet (x : Session) : Sheet := x.formatter.printer.sheet

/-- **A call puts settings into force, or it prints.** -/
theorem call_cases [Memory] (x : Session) (c : Call) :
    (∃ e t, c = .event e ∧ e.char? = none ∧
      x.call c = ([], { x.resume with formatter := x.formatter.withSettings t })) ∨
      ∃ scanner r, Printout.Moves x.sheet r ∧ x.call c = x.resume.deliver scanner r := by
  cases c with
  | event e =>
    cases he : e.char? with
    | none =>
      left
      obtain ⟨t, ht⟩ := x.formatter.handle_of_char?_eq_none he
      refine ⟨e, t, rfl, he, ?_⟩
      cases e with
      | read c => exact absurd he (by simp [Event.char?])
      | assign t' => simp [call, handle, resume, ht]
      | change c => simp [call, handle, resume, ht]
    | some c =>
      obtain rfl := Event.eq_read_of_char? he
      exact .inr ⟨_, _, x.formatter.printer.moves_printWithin _, rfl⟩
  | finish =>
    right
    refine ⟨_, _, ?_, rfl⟩
    exact (x.formatter.printer.moves_printWithin _).andThen (Printer.moves_finishWithin _ _)

/-- Only a call that is meant to brings other settings. -/
theorem settings_call [Memory] (x : Session) {c : Call} (hc : ∀ e, c = .event e → e.char? ≠ none) :
    (x.call c).2.formatter.settings = x.formatter.settings := by
  rcases x.call_cases c with ⟨e, t, rfl, he, -⟩ | ⟨scanner, r, hmoves, heq⟩
  · exact absurd he (hc e rfl)
  · rw [heq, Formatter.settings, printer_deliver]
    exact hmoves.settings_eq

end Session

end SExprReflow
