import SExprReflow.Proofs.OpenLists

/-!
# The end of a text

At the end of a text the formatter reads out the atom that it has begun, places all that is held
back, and ends the last line, unless the text stops inside a string. Placing a list reads it again,
which may hold back lists further inside, so it is not plain that the end is reached in one go. But
what is left is always the same (`Formatter.AtRest`): no atom, nothing held back, and the cursor at
the start of a line or inside a string. A formatter at rest has nothing to do, and so the text can
be ended a second time without anything happening.

None of this depends on what was read before. The way to the end does count for the text that is
printed: it ends with a line break because the cursor, which is now in the first column, stands
where the text ends (`Sheet.Agrees`).
-/

namespace SExprReflow

open Piece

/-! ## Nothing is left over -/

namespace Printer

theorem held_releaseAll (p : Printer) : p.releaseAll.2.held = none := by
  fun_induction releaseAll p with
  | case1 p hh => exact hh
  | case2 p h hh o r r' ih => exact ih

theorem held_finish (p : Printer) (terminate : Bool) : (p.finish terminate).2.held = none := by
  have hr := p.held_releaseAll
  unfold finish
  by_cases hc : (terminate && 0 < p.releaseAll.2.sheet.cursor.column) = true
  · simp only [hc, if_true]
    exact hr
  · simp only [hc, Bool.false_eq_true, if_false]
    exact hr

/-- A line break outside all lists leads to the first column. -/
theorem column_finish (p : Printer) : (p.finish true).2.sheet.cursor.column = 0 := by
  unfold finish
  by_cases hc : 0 < p.releaseAll.2.sheet.cursor.column
  · simp only [hc, decide_true, Bool.and_self, if_true]
    simp [Sheet.advance, Cursor.advancePieces, Cursor.nextPiece, Sheet.lineBreak, Settings.indent]
  · simp only [hc, decide_false, Bool.and_false, Bool.false_eq_true, if_false]
    exact Nat.eq_zero_of_not_pos hc

/-- With nothing held back and no line to end, there is nothing to print. -/
theorem finish_of_held_eq_none {p : Printer} {terminate : Bool} (hh : p.held = none)
    (hc : terminate = true → p.sheet.cursor.column = 0) : p.finish terminate = ([], p) := by
  unfold finish
  rw [releaseAll_of_none hh]
  cases terminate with
  | false => rfl
  | true => simp [hc rfl]

end Printer

namespace Formatter

/-- The formatter has nothing left to print. -/
structure AtRest (f : Formatter) : Prop where
  pending_eq : f.scanner.pending = []
  held_eq : f.printer.held = none
  column_eq : f.scanner.inString = false → f.printer.sheet.cursor.column = 0

/-- **The end of a text brings every formatter to rest**, whatever it has read or held back. -/
theorem atRest_finish (f : Formatter) : f.finish.2.AtRest where
  pending_eq := rfl
  held_eq := Printer.held_finish _ _
  column_eq := by
    intro hi
    have hscan : f.scanner.inString = false := hi
    have hend : f.finish.2.printer =
        ((f.printer.printAll f.scanner.endAtom.1).2.finish (!f.scanner.inString)).2 := rfl
    rw [hend, hscan]
    exact Printer.column_finish _

/-- A formatter at rest stays as it is when its text ends. -/
theorem AtRest.finish_eq {f : Formatter} (h : f.AtRest) : f.finish = ([], f) := by
  obtain ⟨⟨pending, inString, escaped⟩, printer⟩ := f
  obtain rfl : pending = [] := h.pending_eq
  have hp : printer.finish (!inString) = ([], printer) :=
    Printer.finish_of_held_eq_none h.held_eq (by simpa using h.column_eq)
  simp [finish, Scanner.endAtom, Scanner.pendingAtom, hp]

end Formatter

/-! ## Where the printed text ends -/

namespace Printer

theorem moves_printAll (p : Printer) (ls : List Lexeme) :
    p.sheet.Moves ((p.printAll ls).1.map .print) (p.printAll ls).2.sheet := by
  fun_induction printAll p ls with
  | case1 p => exact .refl _
  | case2 p l queue r ih =>
    rw [List.map_append]
    exact (p.moves_step l).trans ih

theorem moves_releaseAll (p : Printer) :
    p.sheet.Moves (p.releaseAll.1.map .print) p.releaseAll.2.sheet := by
  fun_induction releaseAll p with
  | case1 p hh => exact .refl _
  | case2 p h hh o r r' ih =>
    rw [List.map_append, List.map_append]
    exact ((moves_release p.sheet h).trans (o.printer.moves_printAll o.again)).trans ih

theorem moves_finish (p : Printer) (terminate : Bool) :
    p.sheet.Moves ((p.finish terminate).1.map .print) (p.finish terminate).2.sheet := by
  have hr := p.moves_releaseAll
  unfold finish
  by_cases hc : (terminate && 0 < p.releaseAll.2.sheet.cursor.column) = true
  · simp only [hc, if_true, List.map_append]
    exact hr.tail (.endLine _)
  · simp only [hc, Bool.false_eq_true, if_false]
    exact hr

end Printer

theorem Formatter.moves_finish (f : Formatter) :
    f.printer.sheet.Moves (f.finish.1.map .print) f.finish.2.printer.sheet := by
  have hprint := f.printer.moves_printAll f.scanner.endAtom.1
  have hend := (f.printer.printAll f.scanner.endAtom.1).2.moves_finish
    (!f.scanner.endAtom.2.inString)
  have hpieces : f.finish.1 = (f.printer.printAll f.scanner.endAtom.1).1 ++
      ((f.printer.printAll f.scanner.endAtom.1).2.finish (!f.scanner.endAtom.2.inString)).1 := rfl
  rw [hpieces, List.map_append]
  exact hprint.trans hend

/-- The cursor is in the first column at the start of a text and behind a line break. -/
theorem Cursor.column_advance_eq_zero_iff {text : List Char} :
    (Cursor.advance {} text).column = 0 ↔ text = [] ∨ text.getLast? = some '\n' := by
  rw [column_advance_start, ← List.head?_reverse]
  cases hr : text.reverse with
  | nil => simp [List.reverse_eq_nil_iff.mp hr]
  | cons c cs =>
    have hne : text ≠ [] := by
      rintro rfl
      exact absurd hr (by simp)
    by_cases hc : c = '\n'
    · simp [hc]
    · simp [hc, hne]

/-! ## Sessions -/

namespace Session

theorem agrees_start (s : Settings) : (Session.ofSettings s).sheet.Agrees { settings := s } := by
  refine ⟨rfl, rfl, .nil, ?_, by simp, List.Pairwise.nil⟩
  intro o ho
  exact absurd ho (by simp [sheet, ofSettings, Formatter.ofSettings, Printer.ofSettings])

/-- The cursor of a session stands behind all that it has printed, delivered or not. -/
theorem exists_agrees_calls [Memory] (s : Settings) (cs : List Call) :
    ∃ v : Survey, ((Session.ofSettings s).calls cs).2.sheet.Agrees v ∧
      v.text = textOf (((Session.ofSettings s).calls cs).1 ++
        ((Session.ofSettings s).calls cs).2.undelivered) :=
  ⟨_, agrees_calls (agrees_start s) cs, text_after_history [] rfl cs⟩

theorem call_finish_eq_deliver [Memory] (x : Session) :
    x.call .finish = x.resume.deliver x.formatter.scanner.endAtom.2
      ((x.formatter.printer.printWithin x.formatter.scanner.endAtom.1).andThen
        fun p => p.finishWithin (!x.formatter.scanner.endAtom.2.inString)) := rfl

/-- **The end of a text does to a session what it does to its formatter**, unless a line is too
long. -/
theorem call_finish [Memory] (x : Session) :
    (x.call .finish).2.error = firstLengthError? x.formatter.finish.1 ∧
      ((x.call .finish).2.error = none →
        x.call .finish =
          (x.undelivered ++ x.formatter.finish.1, { formatter := x.formatter.finish.2 })) := by
  have hp := Printout.Agrees.andThen
    (k := fun p => p.finishWithin (!x.formatter.scanner.endAtom.2.inString))
    (Printer.printWithin_agrees x.formatter.printer x.formatter.scanner.endAtom.1)
    (Printer.finishWithin_agrees
      (x.formatter.printer.printAll x.formatter.scanner.endAtom.1).2 _)
  rw [call_finish_eq_deliver, error_deliver]
  refine ⟨hp.error_eq, fun hn => ?_⟩
  simp only [deliver, hn, hp.pieces_eq hn, hp.printer_eq hn]
  rfl

/-- Even if a line is too long, no atom is left and nothing held back. -/
theorem nothing_left_call_finish [Memory] (x : Session) :
    (x.call .finish).2.formatter.scanner.pending = [] ∧
      (x.call .finish).2.formatter.printer.held = none := by
  constructor
  · rw [call_finish_eq_deliver, deliver]
    split <;> rfl
  · rw [call_finish_eq_deliver, printer_deliver, Printout.andThen]
    split
    · next e he => exact Printer.held_printWithin_of_error he
    · exact Printer.held_finishWithin _ _

end Session

/-- **The end of a text leaves nothing behind, and a second end does nothing.** Whatever calls there
have been, once the text has ended no atom is being read and nothing is held back; all that has been
printed ends with a line break, if there is any of it, unless the text stops inside a string; and
ending it again prints nothing and changes nothing. A session fails at that exactly if a line is too
long. It then has no atom and nothing held back either; otherwise it delivers all that was printed,
and at a second end it stays as it is. -/
theorem finish_leaves_nothing [Memory] (s : Settings) (cs : List Call) :
    let x := (Session.ofSettings s).calls cs
    let q := x.2.formatter.finish
    let written := textOf (x.1 ++ x.2.undelivered ++ q.1)
    let r := x.2.call .finish
    (q.2.scanner.buffer = [] ∧ q.2.printer.held = none) ∧
      (q.2.scanner.inString = false → written = [] ∨ written.getLast? = some '\n') ∧
      q.2.finish = ([], q.2) ∧
      r.2.error = firstLengthError? q.1 ∧
      (r.2.formatter.scanner.buffer = [] ∧ r.2.formatter.printer.held = none) ∧
      (r.2.error = none →
        r = (x.2.undelivered ++ q.1, { formatter := q.2 }) ∧ r.2.call .finish = ([], r.2)) := by
  intro x q written r
  have hrest : q.2.AtRest := x.2.formatter.atRest_finish
  obtain ⟨herror, hcall⟩ := x.2.call_finish
  obtain ⟨hpending, hheld⟩ := x.2.nothing_left_call_finish
  refine ⟨⟨?_, hrest.held_eq⟩, ?_, hrest.finish_eq, herror, ⟨?_, hheld⟩, ?_⟩
  · rw [Scanner.buffer, hrest.pending_eq]
    rfl
  · intro hi
    obtain ⟨v, hagrees, htext⟩ := Session.exists_agrees_calls s cs
    -- the cursor in the first column stands behind everything that has been printed
    have hcursor := (hagrees.moves x.2.formatter.moves_finish).cursor_eq
    rw [Survey.text_after_print, htext, ← textOf_append] at hcursor
    rw [← Cursor.column_advance_eq_zero_iff, ← hcursor]
    exact hrest.column_eq hi
  · rw [Scanner.buffer, hpending]
    rfl
  · intro hn
    have hr : r = (x.2.undelivered ++ q.1, { formatter := q.2 }) := hcall hn
    refine ⟨hr, ?_⟩
    -- a formatter at rest prints nothing, and so no line is too long
    obtain ⟨herror', hcall'⟩ := r.2.call_finish
    rw [hr] at herror' hcall' ⊢
    rw [hrest.finish_eq] at herror' hcall'
    exact hcall' herror'

end SExprReflow
