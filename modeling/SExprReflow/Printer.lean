import SExprReflow.Sheet

/-!
# The printer

The printer prints lexemes as soon as their place is known. The only lexemes that have to
wait are those of a list inside a compact list: whether it goes on the current line is
known once it is complete, once it has grown too wide, or once a string in it breaks the
line. Until then they are held back. When the list is placed only its opener is printed
for certain; the rest is read again, and may hold back a list further inside.

`Printer.step` reads one lexeme and gives back the lexemes that have to be read again, and
`Printer.printAll` goes on until there are none left. It ends because every lexeme given
back was held before, and the opener in front of them is printed: the lexemes held or
still to be read become fewer, or one of them moves from the second kind to the first.
-/

namespace SExprReflow

/-- The lexemes of a list that is held back. The opener that it begins with is understood. -/
structure Held where
  /-- The lexemes after the opener, newest first. -/
  rest : List Lexeme := []
  /-- The number of lists open at the end. -/
  depth : Nat := 1
  /-- The columns that all of it takes on one line. -/
  width : Nat := 1
deriving DecidableEq

namespace Held

/-- The lexemes held back, in order. -/
def lexemes (h : Held) : List Lexeme := Lexeme.opener :: h.rest.reverse

/-- The lexeme held back last. -/
def last (h : Held) : Lexeme := h.rest.headD Lexeme.opener

/-- Holds back one more lexeme. -/
def push (h : Held) (l : Lexeme) : Held where
  rest := l :: h.rest
  depth := match l.role with
    | .opener => h.depth + 1
    | .closer => h.depth - 1
    | .atom => h.depth
  width := h.width + (if h.last.spaced l then 1 else 0) + l.width

@[simp] theorem lexemes_push (h : Held) (l : Lexeme) : (h.push l).lexemes = h.lexemes ++ [l] := by
  simp [lexemes, push]

end Held

/-- The state of printing. -/
structure Printer where
  sheet : Sheet
  held : Option Held := none
deriving DecidableEq

namespace Printer

/-- A printer at the start of a text. -/
def ofSettings (s : Settings) : Printer := { sheet := { settings := s } }

/-- The printer with other settings in force. -/
def withSettings (p : Printer) (s : Settings) : Printer :=
  { p with sheet := { p.sheet with settings := s } }

/-- The number of lexemes held back. -/
def heldCount (p : Printer) : Nat :=
  match p.held with
  | none => 0
  | some h => h.rest.length + 1

/-- The lexemes held back, in order. -/
def heldLexemes (p : Printer) : List Lexeme :=
  match p.held with
  | none => []
  | some h => h.lexemes

/-- What comes of reading a lexeme: the pieces printed, the printer afterwards, and the
lexemes to be read again before any other. -/
structure Outcome where
  pieces : List Piece
  printer : Printer
  again : List Lexeme

/-- Prints the opener of a list that was held back, after a space if the list would fit on
the current line as far as it is known, and on a new line otherwise. -/
def release (s : Sheet) (h : Held) : Outcome :=
  let g := s.compactGap (oneLineWidth h.lexemes)
  ⟨s.pieces g .opener, { sheet := s.put g .opener }, h.rest.reverse⟩

/-- Whether the place of a list that is held back is known once `l` is the last of it. -/
def settled (s : Sheet) (h : Held) (l : Lexeme) : Bool :=
  h.depth = 0 || l.multiline || !s.hasRoom h.width

/-- Reads one lexeme. -/
def step (p : Printer) (l : Lexeme) : Outcome :=
  match p.held with
  | some h =>
    if settled p.sheet (h.push l) l then release p.sheet (h.push l)
    else ⟨[], { p with held := some (h.push l) }, []⟩
  | none =>
    match p.sheet.gap? l with
    | some g => ⟨p.sheet.pieces g l, { p with sheet := p.sheet.put g l }, []⟩
    | none => ⟨[], { p with held := some {} }, []⟩

/-- A step prints a lexeme or holds one back, and loses none. -/
theorem step_prints_or_reads (p : Printer) (l : Lexeme) (queue : List Lexeme) :
    (p.step l).printer.heldCount + ((p.step l).again ++ queue).length <
        p.heldCount + (l :: queue).length ∨
      (p.step l).printer.heldCount + ((p.step l).again ++ queue).length =
          p.heldCount + (l :: queue).length ∧
        ((p.step l).again ++ queue).length < (l :: queue).length := by
  unfold step
  split
  · next h hh =>
    split
    · left
      simp [release, heldCount, hh, Held.push]
    · right
      simp only [heldCount, hh, Held.push, List.nil_append, List.length_cons]
      omega
  · next hh =>
    split
    · left
      simp [heldCount, hh]
    · right
      simp only [heldCount, hh, List.nil_append, List.length_cons, List.length_nil]
      omega

theorem heldCount_step_le (p : Printer) (l : Lexeme) (queue : List Lexeme) :
    (p.step l).printer.heldCount + ((p.step l).again ++ queue).length ≤
      p.heldCount + (l :: queue).length := by
  have hs := step_prints_or_reads p l queue
  omega

/-- Bounds the lexemes that are still to be read. Those held back may be read again, and each time
one of them is printed. -/
def readsLeft (p : Printer) (queue : List Lexeme) : Nat :=
  (p.heldCount + queue.length) * (p.heldCount + queue.length) + queue.length

theorem step_decreases (p : Printer) (l : Lexeme) (queue : List Lexeme) :
    (p.step l).printer.readsLeft ((p.step l).again ++ queue) < p.readsLeft (l :: queue) := by
  unfold readsLeft
  rcases step_prints_or_reads p l queue with hlt | ⟨heq, hlt⟩
  · -- one lexeme fewer is left, and a square exceeds the one before it by more than its root
    have hsquare := Nat.mul_le_mul hlt hlt
    simp only [Nat.succ_mul, Nat.mul_succ] at hsquare
    omega
  · rw [heq]
    omega

/-- Reads lexemes in order, each of them until it is printed or held back. -/
def printAll (p : Printer) : List Lexeme → List Piece × Printer
  | [] => ([], p)
  | l :: queue =>
    let r := printAll (p.step l).printer ((p.step l).again ++ queue)
    ((p.step l).pieces ++ r.1, r.2)
termination_by queue => p.readsLeft queue
decreasing_by exact step_decreases p l queue

@[simp] theorem printAll_nil (p : Printer) : p.printAll [] = ([], p) := by
  rw [printAll]

theorem printAll_cons (p : Printer) (l : Lexeme) (ls : List Lexeme) :
    p.printAll (l :: ls) =
      ((p.step l).pieces ++ ((p.step l).printer.printAll ((p.step l).again ++ ls)).1,
        ((p.step l).printer.printAll ((p.step l).again ++ ls)).2) := by
  rw [printAll]

/-- Lexemes may be read a few at a time. -/
theorem printAll_append (p : Printer) (ls ls' : List Lexeme) :
    p.printAll (ls ++ ls') =
      ((p.printAll ls).1 ++ ((p.printAll ls).2.printAll ls').1,
        ((p.printAll ls).2.printAll ls').2) := by
  fun_induction printAll p ls with
  | case1 p => simp
  | case2 p l queue r ih =>
    rw [List.cons_append, printAll_cons, ← List.append_assoc, ih, List.append_assoc]

/-- Reading holds back no more lexemes than there were. -/
theorem heldCount_printAll_le (p : Printer) (ls : List Lexeme) :
    (p.printAll ls).2.heldCount ≤ p.heldCount + ls.length := by
  fun_induction printAll p ls with
  | case1 p => simp
  | case2 p l queue r ih => exact Nat.le_trans ih (heldCount_step_le p l queue)

/-- Places everything that is held back. -/
def releaseAll (p : Printer) : List Piece × Printer :=
  match _hh : p.held with
  | none => ([], p)
  | some h =>
    let o := release p.sheet h
    let r := o.printer.printAll o.again
    let r' := releaseAll r.2
    (o.pieces ++ r.1 ++ r'.1, r'.2)
termination_by p.heldCount
decreasing_by
  have hle := heldCount_printAll_le (release p.sheet h).printer (release p.sheet h).again
  simp only [release, heldCount, _hh, List.length_reverse] at hle ⊢
  omega

theorem releaseAll_of_none {p : Printer} (hh : p.held = none) : p.releaseAll = ([], p) := by
  rw [releaseAll]
  split
  · rfl
  · next h hh' => exact absurd (hh.symm.trans hh') (by simp)

theorem releaseAll_of_some {p : Printer} {h : Held} (hh : p.held = some h) :
    p.releaseAll =
      ((release p.sheet h).pieces ++
          ((release p.sheet h).printer.printAll (release p.sheet h).again).1 ++
          ((release p.sheet h).printer.printAll (release p.sheet h).again).2.releaseAll.1,
        ((release p.sheet h).printer.printAll (release p.sheet h).again).2.releaseAll.2) := by
  rw [releaseAll]
  split
  · next hh' => exact absurd (hh.symm.trans hh') (by simp)
  · next h' hh' =>
    obtain rfl : h = h' := Option.some.inj (hh.symm.trans hh')
    rfl

/-- Ends the text: places what is held back and, if `terminate` says so, ends the last
line. -/
def finish (p : Printer) (terminate : Bool) : List Piece × Printer :=
  let r := p.releaseAll
  if terminate && 0 < r.2.sheet.cursor.column then
    let ending := [r.2.sheet.lineBreak 0]
    (r.1 ++ ending, { r.2 with sheet := r.2.sheet.advance ending })
  else r

end Printer

end SExprReflow
