import SExprReflow.Printer

/-!
# Printing within bounds

Lengths of text are counted in signed words of 64 bits, and the machine has room for texts
up to some length only, which `Memory` stands for. Only indentation can come near that: it
is as long as the settings say. `checkLength` is the test, and `Piece.lengthError?` applies
it to what is printed.

So printing can fail in one way only: a line would have to begin with more white space than a
text can hold. The line break is then the first thing that the lexeme at hand asks for, so
nothing of the lexeme has been printed, and everything before it has. The lexeme is lost, and
with it all that was waiting to be read; a closer closes its list all the same. The printer is
fit for use afterwards, under other settings say.

`Printer.printWithin`, `releaseAllWithin` and `finishWithin` print like `printAll`,
`releaseAll` and `finish`, and stop where these ask for too much. Each of them agrees with its
unbounded sister (`Printout.Agrees`): what it reports is the first piece of the unbounded print
that is too long, and without a report the two prints are the same.
-/

namespace SExprReflow

/-! ## Lengths of text -/

/-- The memory of a machine. -/
class Memory where
  /-- The length of the longest text that there is room for. -/
  longestText : Nat

/-- A memory with room for a thousand characters, which is enough for a small text. -/
abbrev Memory.small : Memory := ⟨1000⟩

/-- Why a text of a given length cannot be made. -/
inductive LengthError where
  /-- The length is no signed word. -/
  | overflow
  /-- There is no room for the text. -/
  | noMemory
deriving DecidableEq, Repr

/-- The error in words. -/
def LengthError.message : LengthError → String
  | .overflow => "cannot fit 'int' into an index-sized integer"
  | .noMemory => ""

/-- The length of a text that is asked for; below zero it is empty. -/
def checkLength [Memory] (n : Int) : Except LengthError Nat :=
  if n < -9223372036854775808 ∨ 9223372036854775808 ≤ n then .error .overflow
  else if (Memory.longestText : Int) < n then .error .noMemory
  else .ok n.toNat

/-- The white space at the start of a line below `depth` lists, for any number. -/
def Settings.indentation? [Memory] (s : Settings) (depth : Int) :
    Except LengthError (List Char) := do
  let size ← checkLength (s.indentSize * depth)
  return Indent.text ⟨s.indentChar, size⟩

/-- Why a piece cannot be printed, if it cannot. -/
def Piece.lengthError? [Memory] : Piece → Option LengthError
  | .lineBreak indent =>
    match checkLength indent.size with
    | .ok _ => none
    | .error e => some e
  | _ => none

/-- Why pieces cannot be printed: the first of them that cannot says so. -/
def Piece.firstLengthError? [Memory] (ps : List Piece) : Option LengthError :=
  ps.findSome? Piece.lengthError?

theorem Piece.firstLengthError?_append [Memory] (ps qs : List Piece) :
    firstLengthError? (ps ++ qs) = (firstLengthError? ps).or (firstLengthError? qs) := by
  simp [firstLengthError?]

/-! ## Printing until there is no room -/

/-- What comes of printing: the pieces printed, the printer afterwards, and why it stopped, if
it did before its time. -/
structure Printout where
  pieces : List Piece
  printer : Printer
  error : Option LengthError := none

namespace Printout

/-- Pieces put in front. -/
def after (r : Printout) (ps : List Piece) : Printout := { r with pieces := ps ++ r.pieces }

/-- Goes on printing, unless printing has stopped. -/
def andThen (r : Printout) (k : Printer → Printout) : Printout :=
  match r.error with
  | some _ => r
  | none => (k r.printer).after r.pieces

end Printout

namespace Printer

/-- The printer after a lexeme that cannot be printed. A list held back is lost with it, and a
closer closes its list. -/
def lose (p : Printer) (l : Lexeme) : Printer :=
  match p.held, l.role with
  | none, .closer => { p with sheet := { p.sheet with lists := p.sheet.lists.tail } }
  | _, _ => { p with held := none }

theorem heldCount_lose_le (p : Printer) (l : Lexeme) : (p.lose l).heldCount ≤ p.heldCount := by
  unfold lose
  split
  · exact Nat.le_refl _
  · exact Nat.zero_le _

/-- Reads lexemes in order, until one cannot be printed. -/
def printWithin [Memory] (p : Printer) : List Lexeme → Printout
  | [] => ⟨[], p, none⟩
  | l :: queue =>
    match Piece.firstLengthError? (p.step l).pieces with
    | some e => ⟨[], p.lose l, some e⟩
    | none =>
      (printWithin (p.step l).printer ((p.step l).again ++ queue)).after (p.step l).pieces
termination_by queue => p.readsLeft queue
decreasing_by exact step_decreases p l queue

/-- Reading holds back no more lexemes than there were. -/
theorem heldCount_printWithin_le [Memory] (p : Printer) (ls : List Lexeme) :
    (p.printWithin ls).printer.heldCount ≤ p.heldCount + ls.length := by
  fun_induction printWithin p ls with
  | case1 p => simp
  | case2 p l queue e _ => exact Nat.le_trans (heldCount_lose_le p l) (Nat.le_add_right _ _)
  | case3 p l queue _ ih => exact Nat.le_trans ih (heldCount_step_le p l queue)

/-- Places everything that is held back, as far as it can be printed. -/
def releaseAllWithin [Memory] (p : Printer) : Printout :=
  match _hh : p.held with
  | none => ⟨[], p, none⟩
  | some h =>
    let o := release p.sheet h
    match Piece.firstLengthError? o.pieces with
    | some e => ⟨[], { p with held := none }, some e⟩
    | none =>
      let r := o.printer.printWithin o.again
      match r.error with
      | some _ => r.after o.pieces
      | none => (releaseAllWithin r.printer).after (o.pieces ++ r.pieces)
termination_by p.heldCount
decreasing_by
  have hle := heldCount_printWithin_le (release p.sheet h).printer (release p.sheet h).again
  simp only [release, heldCount, _hh, List.length_reverse] at hle ⊢
  omega

/-- Ends the last line, if it has begun. -/
def endLine (p : Printer) : Printout :=
  if 0 < p.sheet.cursor.column then
    let ending := [p.sheet.lineBreak 0]
    ⟨ending, { p with sheet := p.sheet.advance ending }, none⟩
  else ⟨[], p, none⟩

/-- Ends the text: places what is held back and, if `terminate` says so, ends the last line,
which always has room for its end. -/
def finishWithin [Memory] (p : Printer) (terminate : Bool) : Printout :=
  if terminate then p.releaseAllWithin.andThen endLine else p.releaseAllWithin

end Printer

/-! ## The unbounded print -/

/-- A print within bounds is that of the given pieces: it reports the first of them that is too
long, and is the same print if there is none. -/
structure Printout.Agrees [Memory] (r : Printout) (ps : List Piece) (p : Printer) : Prop where
  error_eq : r.error = Piece.firstLengthError? ps
  pieces_eq : r.error = none → r.pieces = ps
  printer_eq : r.error = none → r.printer = p

namespace Printout.Agrees

theorem nil [Memory] (p : Printer) : Agrees ⟨[], p, none⟩ [] p := ⟨rfl, fun _ => rfl, fun _ => rfl⟩

theorem stopped [Memory] {qs ps rest : List Piece} {p p' : Printer} {e : LengthError}
    (he : Piece.firstLengthError? ps = some e) : Agrees ⟨qs, p, some e⟩ (ps ++ rest) p' where
  error_eq := by simp [Piece.firstLengthError?_append, he]
  pieces_eq h := absurd h (by simp)
  printer_eq h := absurd h (by simp)

theorem after [Memory] {r : Printout} {ps qs : List Piece} {p : Printer} (h : r.Agrees qs p)
    (he : Piece.firstLengthError? ps = none) : (r.after ps).Agrees (ps ++ qs) p where
  error_eq := by simpa [Piece.firstLengthError?_append, he, Printout.after] using h.error_eq
  pieces_eq hr := congrArg (ps ++ ·) (h.pieces_eq hr)
  printer_eq hr := h.printer_eq hr

theorem andThen [Memory] {r : Printout} {k : Printer → Printout} {ps qs : List Piece}
    {p q : Printer} (h : r.Agrees ps p) (hk : (k p).Agrees qs q) :
    (r.andThen k).Agrees (ps ++ qs) q := by
  unfold Printout.andThen
  split
  · next e he =>
    obtain ⟨pieces, printer, error⟩ := r
    obtain rfl : error = some e := he
    exact stopped h.error_eq.symm
  · next he =>
    rw [h.pieces_eq he, h.printer_eq he]
    exact hk.after (h.error_eq.symm.trans he)

end Printout.Agrees

namespace Printer

theorem printWithin_agrees [Memory] (p : Printer) (ls : List Lexeme) :
    (p.printWithin ls).Agrees (p.printAll ls).1 (p.printAll ls).2 := by
  fun_induction printWithin p ls with
  | case1 p =>
    rw [printAll_nil]
    exact .nil p
  | case2 p l queue e he =>
    rw [printAll_cons]
    exact .stopped he
  | case3 p l queue he ih =>
    rw [printAll_cons]
    exact ih.after he

theorem releaseAllWithin_agrees [Memory] (p : Printer) :
    p.releaseAllWithin.Agrees p.releaseAll.1 p.releaseAll.2 := by
  fun_induction releaseAllWithin p with
  | case1 p hh =>
    rw [releaseAll_of_none hh]
    exact .nil p
  | case2 p h hh o e he =>
    rw [releaseAll_of_some hh, List.append_assoc]
    exact .stopped he
  | case3 p h hh o he r e hr =>
    rw [releaseAll_of_some hh, List.append_assoc]
    have hp : r.Agrees _ _ := printWithin_agrees o.printer o.again
    refine Printout.Agrees.after ?_ he
    obtain ⟨pieces, printer, error⟩ := r
    obtain rfl : error = some e := hr
    exact .stopped hp.error_eq.symm
  | case4 p h hh o he r hr ih =>
    rw [releaseAll_of_some hh]
    have hp : r.Agrees _ _ := printWithin_agrees o.printer o.again
    rw [hp.printer_eq hr] at ih
    rw [hp.pieces_eq hr, hp.printer_eq hr]
    refine ih.after ?_
    rw [Piece.firstLengthError?_append, show Piece.firstLengthError? o.pieces = none from he]
    exact hp.error_eq.symm.trans hr

/-- A line break outside all lists is never too long. -/
theorem firstLengthError?_lineBreak_zero [Memory] (s : Sheet) :
    Piece.firstLengthError? [s.lineBreak 0] = none := by
  have hroom : ¬ (Memory.longestText : Int) < 0 := by omega
  simp [Piece.firstLengthError?, Piece.lengthError?, Sheet.lineBreak, Settings.indent, checkLength,
    hroom]

theorem finishWithin_agrees [Memory] (p : Printer) (terminate : Bool) :
    (p.finishWithin terminate).Agrees (p.finish terminate).1 (p.finish terminate).2 := by
  have h := releaseAllWithin_agrees p
  unfold finishWithin finish
  cases terminate with
  | false => simpa using h
  | true =>
    rw [if_pos rfl]
    by_cases hc : 0 < p.releaseAll.2.sheet.cursor.column
    · simp only [hc, decide_true, Bool.and_self, if_true]
      refine h.andThen ?_
      rw [endLine, if_pos hc]
      refine ⟨?_, fun _ => rfl, fun _ => rfl⟩
      exact (firstLengthError?_lineBreak_zero _).symm
    · simp only [hc, decide_false, Bool.and_false]
      have he : (endLine p.releaseAll.2).Agrees [] p.releaseAll.2 := by
        rw [endLine, if_neg hc]
        exact .nil _
      simpa using h.andThen he

end Printer

end SExprReflow
