import SExprReflow.Proofs.HoldBack

/-!
# Placing a list in two steps

`Printer.release` prints the opener of a list that was held back together with what goes before it.
A printer that can only read lexemes takes two steps for it. It decides the place, and begins a new
line if the list needs one. Then it reads the whole list again, opener first, and the opener finds
the decision waiting. That is the `Placer`.

It could go wrong in two ways. A decision could be left over, and be taken for a list that it was
not made for; and the room for what is held back could be asked for where no list is open, which
gives no answer. Neither ever happens, for what is held back is kept on the sheet (`Held.KeptOn`):
its innermost list has a child, so that the opener is separated from it and the decision used up. So
whatever a session is asked to do, the placer prints what the printer prints, always finds an
answer, and has no decision left over.
-/

namespace SExprReflow

/-- Where the next child goes, decided before the child is read. -/
inductive Placement where
  /-- Behind a space. -/
  | pack
  /-- At the cursor, on a line that has been begun for it. -/
  | freshLine
deriving DecidableEq

/-- What is left to print before a child that has been placed. -/
def Placement.gap : Placement → Gap
  | .pack => .space
  | .freshLine => .hug

namespace Sheet

/-- Whether a lexeme is a child with another child of the same list before it. -/
def separates (s : Sheet) (l : Lexeme) : Bool :=
  l.role ≠ .closer && s.lists.head?.any fun o => 0 < o.children

/-- What goes before a lexeme, if the place of the next child may be decided already. -/
def gapPlaced? (s : Sheet) (l : Lexeme) : Option Placement → Option Gap
  | none => s.gap? l
  | some q =>
    if s.separates l then
      some (if s.lists.head?.any OpenList.onOneLine then .space else q.gap)
    else s.gap? l

/-- A child that is placed does not wait. -/
theorem gapPlaced?_ne_none (s : Sheet) (l : Lexeme) (q : Placement) :
    s.gapPlaced? l (some q) ≠ none := by
  intro h
  cases hsep : s.separates l with
  | true => exact absurd h (by simp [gapPlaced?, hsep])
  | false =>
    -- only an opener behind a child waits, and that is separated from the child
    have hg : s.gap? l = none := by simpa [gapPlaced?, hsep] using h
    obtain ⟨hl, o, os, hs, hc, -, -⟩ := gap?_eq_none_iff.mp hg
    exact absurd hsep (by simp [separates, hl, hs, Nat.pos_of_ne_zero hc])

/-- A line that has been begun for a list is part of what goes before its opener. -/
theorem put_advance_lineBreak (s : Sheet) :
    (s.advance [s.lineBreak s.lists.length]).put .hug .opener = s.put .line .opener := rfl

end Sheet

/-! ## The placer -/

/-- A printer that places a list by reading it again. -/
structure Placer where
  printer : Printer
  placement : Option Placement := none

namespace Placer

/-- What comes of reading a lexeme, or of placing a list: the pieces printed, the placer afterwards,
and the lexemes to be read again before any other. -/
structure Outcome where
  pieces : List Piece
  placer : Placer
  again : List Lexeme

/-- Decides the place of a list that was held back, and begins a new line if the list would not fit
on the current one. `none` if no list is open around it. -/
def place? (s : Sheet) (h : Held) : Option Outcome :=
  (s.hasRoom? (oneLineWidth h.lexemes)).map fun room =>
    if room then ⟨[], ⟨{ sheet := s }, some .pack⟩, h.lexemes⟩
    else
      let start := [s.lineBreak s.lists.length]
      ⟨start, ⟨{ sheet := s.advance start }, some .freshLine⟩, h.lexemes⟩

/-- Whether the place of a list that is held back is known once `l` is the last of it. `none` if
that depends on the room in a list, and none is open. -/
def settled? (s : Sheet) (h : Held) (l : Lexeme) : Option Bool :=
  if h.depth = 0 || l.multiline then some true else (s.hasRoom? h.width).map (!·)

/-- The decision that is left once a lexeme has been read. Whatever separates the lexeme from a
child before it uses the decision up. -/
def placementAfter (m : Placer) (l : Lexeme) : Option Placement :=
  if m.printer.held = none && m.printer.sheet.separates l then none else m.placement

/-- Reads one lexeme. -/
def step? (m : Placer) (l : Lexeme) : Option Outcome :=
  match m.printer.held with
  | some h =>
    (settled? m.printer.sheet (h.push l) l).bind fun done =>
      if done then place? m.printer.sheet (h.push l)
      else some ⟨[], ⟨⟨m.printer.sheet, some (h.push l)⟩, m.placement⟩, []⟩
  | none =>
    match m.printer.sheet.gapPlaced? l m.placement with
    | some g =>
      some ⟨m.printer.sheet.pieces g l, ⟨⟨m.printer.sheet.put g l, none⟩, m.placementAfter l⟩, []⟩
    | none => some ⟨[], ⟨⟨m.printer.sheet, some {}⟩, m.placementAfter l⟩, []⟩

/-- How far the placer is from printing the next lexeme: if one has been placed, it is printed at
once. -/
def distance (m : Placer) : Nat := if m.printer.held = none ∧ m.placement ≠ none then 0 else 1

theorem distance_of_held (s : Sheet) (h : Held) (q : Option Placement) :
    distance ⟨⟨s, some h⟩, q⟩ = 1 := by
  simp [distance]

theorem place?_eq_some {s : Sheet} {h : Held} {o : Outcome} (ho : place? s h = some o) :
    o.again = h.lexemes ∧ o.placer.printer.held = none ∧ o.placer.placement ≠ none := by
  obtain ⟨room, -, rfl⟩ := Option.map_eq_some_iff.mp ho
  cases room <;> exact ⟨rfl, rfl, by simp⟩

/-- A step prints a lexeme, or places one that is printed next, or holds one back. -/
theorem step?_decreases {m : Placer} {l : Lexeme} {o : Outcome} (ho : m.step? l = some o)
    (queue : List Lexeme) :
    Prod.Lex (· < ·) (Prod.Lex (· < ·) (· < ·))
      (o.placer.printer.heldCount + (o.again ++ queue).length, o.placer.distance,
        (o.again ++ queue).length)
      (m.printer.heldCount + (l :: queue).length, m.distance, (l :: queue).length) := by
  obtain ⟨⟨sheet, held⟩, placement⟩ := m
  cases held with
  | some h =>
    obtain ⟨done, -, ho⟩ := Option.bind_eq_some_iff.mp ho
    rw [distance_of_held]
    cases done with
    | true =>
      obtain ⟨hagain, hheld, hq⟩ := place?_eq_some ho
      have hnear : o.placer.distance = 0 := by simp [distance, hheld, hq]
      have htotal : o.placer.printer.heldCount + (o.again ++ queue).length =
          Printer.heldCount ⟨sheet, some h⟩ + (l :: queue).length := by
        rw [hagain, Held.lexemes_push]
        simp [Printer.heldCount, hheld, Held.lexemes]
        omega
      rw [htotal, hnear]
      exact Prod.Lex.right _ (Prod.Lex.left _ _ Nat.one_pos)
    | false =>
      obtain rfl := Option.some.inj ho
      have htotal : Printer.heldCount ⟨sheet, some (h.push l)⟩ + ([] ++ queue).length =
          Printer.heldCount ⟨sheet, some h⟩ + (l :: queue).length := by
        simp [Printer.heldCount, Held.push]
        omega
      rw [htotal, distance_of_held]
      exact Prod.Lex.right _ (Prod.Lex.right _ (Nat.lt_succ_self _))
  | none =>
    cases hg : sheet.gapPlaced? l placement with
    | some g =>
      obtain rfl : _ = o := Option.some.inj (by simpa [step?, hg] using ho)
      exact Prod.Lex.left _ _ (by simp [Printer.heldCount])
    | none =>
      obtain rfl : _ = o := Option.some.inj (by simpa [step?, hg] using ho)
      have hq : placement = none := by
        cases placement with
        | none => rfl
        | some q => exact absurd hg (sheet.gapPlaced?_ne_none l q)
      subst hq
      have htotal : Printer.heldCount ⟨sheet, some {}⟩ + ([] ++ queue).length =
          Printer.heldCount ⟨sheet, none⟩ + (l :: queue).length := by
        simp [Printer.heldCount]
        omega
      have hfar : distance ⟨⟨sheet, none⟩, none⟩ = 1 := by simp [distance]
      rw [htotal, hfar, distance_of_held]
      exact Prod.Lex.right _ (Prod.Lex.right _ (Nat.lt_succ_self _))

/-- Reads lexemes in order, until one cannot be printed. -/
def run? [Memory] (m : Placer) : List Lexeme → Option (Printout × Option Placement)
  | [] => some (⟨[], m.printer, none⟩, m.placement)
  | l :: queue =>
    match _ho : m.step? l with
    | none => none
    | some o =>
      match Piece.firstLengthError? o.pieces with
      | some e => some (⟨[], m.printer.lose l, some e⟩, m.placementAfter l)
      | none => (run? o.placer (o.again ++ queue)).map fun r => (r.1.after o.pieces, r.2)
termination_by queue => (m.printer.heldCount + queue.length, m.distance, queue.length)
decreasing_by exact step?_decreases _ho queue

theorem run?_nil [Memory] (m : Placer) : m.run? [] = some (⟨[], m.printer, none⟩, m.placement) := by
  rw [run?]

theorem run?_cons [Memory] {m : Placer} {l : Lexeme} {o : Outcome} (ho : m.step? l = some o)
    (queue : List Lexeme) :
    m.run? (l :: queue) =
      match Piece.firstLengthError? o.pieces with
      | some e => some (⟨[], m.printer.lose l, some e⟩, m.placementAfter l)
      | none =>
        (run? o.placer (o.again ++ queue)).map fun r => (r.1.after o.pieces, r.2) := by
  rw [run?]
  split
  · next ho' => exact absurd (ho.symm.trans ho') (by simp)
  · next o' ho' =>
    obtain rfl : o = o' := Option.some.inj (ho.symm.trans ho')
    rfl

/-- Reading holds back no more lexemes than there were. -/
theorem heldCount_run?_le [Memory] (m : Placer) (ls : List Lexeme) :
    ∀ r ∈ m.run? ls, r.1.printer.heldCount ≤ m.printer.heldCount + ls.length := by
  fun_induction run? m ls with
  | case1 m =>
    rintro r ⟨⟩
    exact Nat.le_refl _
  | case2 m l queue ho => exact fun r hr => absurd hr (by simp)
  | case3 m l queue o ho e he =>
    rintro r ⟨⟩
    exact Nat.le_trans (m.printer.heldCount_lose_le l) (Nat.le_add_right _ _)
  | case4 m l queue o ho he ih =>
    intro r hr
    obtain ⟨r', hr', rfl⟩ := Option.map_eq_some_iff.mp hr
    have hle : o.placer.printer.heldCount + (o.again ++ queue).length ≤
        m.printer.heldCount + (l :: queue).length := by
      rcases Prod.lex_def.mp (step?_decreases ho queue) with h | h <;> omega
    exact Nat.le_trans (ih r' hr') hle

/-- The opener of a list that has been placed is not held back again. -/
theorem heldCount_run?_placed_lt [Memory] {m : Placer} (hh : m.printer.held = none)
    (hq : m.placement ≠ none) {l : Lexeme} {queue : List Lexeme} {r : Printout × Option Placement}
    (hr : m.run? (l :: queue) = some r) : r.1.printer.heldCount < (l :: queue).length := by
  obtain ⟨⟨sheet, held⟩, placement⟩ := m
  obtain rfl : held = none := hh
  obtain ⟨q, rfl⟩ := Option.ne_none_iff_exists'.mp hq
  obtain ⟨g, hg⟩ := Option.ne_none_iff_exists'.mp (sheet.gapPlaced?_ne_none l q)
  have ho : step? ⟨⟨sheet, none⟩, some q⟩ l = some ⟨sheet.pieces g l,
      ⟨⟨sheet.put g l, none⟩, placementAfter ⟨⟨sheet, none⟩, some q⟩ l⟩, []⟩ := by
    simp [step?, hg]
  rw [run?_cons ho] at hr
  split at hr
  · obtain rfl := Option.some.inj hr
    have hle := Printer.heldCount_lose_le ⟨sheet, none⟩ l
    exact Nat.lt_of_le_of_lt hle (Nat.succ_pos _)
  · obtain ⟨r', hr', rfl⟩ := Option.map_eq_some_iff.mp hr
    have hle := heldCount_run?_le _ _ r' hr'
    simp only [Printer.heldCount, List.nil_append, Nat.zero_add] at hle
    exact Nat.lt_succ_of_le hle

/-- Places everything that is held back, as far as it can be printed. -/
def placeAll? [Memory] (m : Placer) : Option (Printout × Option Placement) :=
  match _hh : m.printer.held with
  | none => some (⟨[], m.printer, none⟩, m.placement)
  | some h =>
    match _ho : place? m.printer.sheet h with
    | none => none
    | some o =>
      match Piece.firstLengthError? o.pieces with
      | some e => some (⟨[], { m.printer with held := none }, some e⟩, m.placement)
      | none =>
        match _hr : o.placer.run? o.again with
        | none => none
        | some r =>
          match r.1.error with
          | some _ => some (r.1.after o.pieces, r.2)
          | none =>
            (placeAll? ⟨r.1.printer, r.2⟩).map fun q => (q.1.after (o.pieces ++ r.1.pieces), q.2)
termination_by m.printer.heldCount
decreasing_by
  obtain ⟨hagain, hheld, hq⟩ := place?_eq_some _ho
  rw [hagain] at _hr
  have hlt := heldCount_run?_placed_lt hheld hq _hr
  simp only [Printer.heldCount, _hh, List.length_cons, List.length_reverse] at hlt ⊢
  omega

/-- Reads the last lexemes of a text and ends it. -/
def finish? [Memory] (m : Placer) (ls : List Lexeme) (terminate : Bool) :
    Option (Printout × Option Placement) :=
  (m.run? ls).bind fun r =>
    match r.1.error with
    | some _ => some r
    | none =>
      (placeAll? ⟨r.1.printer, r.2⟩).map fun q =>
        ((if terminate then q.1.andThen Printer.endLine else q.1).after r.1.pieces, q.2)

end Placer

/-! ## Where a list waits -/

/-- What is held back waits because the sheet cannot place its opener. -/
theorem Held.KeptOn.gap?_opener {h : Held} {s : Sheet} (hk : h.KeptOn s) :
    s.gap? .opener = none := by
  obtain ⟨o, os, hs, hstyle, hline, hc, -⟩ := hk.inside
  exact Sheet.gap?_eq_none_iff.mpr ⟨rfl, o, os, hs, Nat.ne_of_gt hc, hline, hstyle⟩

namespace Sheet

/-- Where an opener has to wait, there is a list to ask for room. -/
theorem hasRoom?_eq {s : Sheet} (hs : s.gap? .opener = none) (width : Nat) :
    s.hasRoom? width = some (s.hasRoom width) := by
  obtain ⟨-, o, os, hlists, -, -, -⟩ := gap?_eq_none_iff.mp hs
  simp [hasRoom, hasRoom?, hlists]

theorem separates_opener {s : Sheet} (hs : s.gap? .opener = none) :
    s.separates .opener = true := by
  obtain ⟨-, o, os, hlists, hc, -, -⟩ := gap?_eq_none_iff.mp hs
  simp [separates, hlists, Nat.pos_of_ne_zero hc, Lexeme.opener]

theorem gapPlaced?_opener {s : Sheet} (hs : s.gap? .opener = none) (q : Placement) :
    s.gapPlaced? .opener (some q) = some q.gap := by
  obtain ⟨-, o, os, hlists, -, hline, -⟩ := gap?_eq_none_iff.mp hs
  simp [gapPlaced?, separates_opener hs, hlists, hline]

/-- Moving the cursor changes nothing about that. -/
theorem gap?_opener_advance {s : Sheet} (hs : s.gap? .opener = none) (ps : List Piece) :
    (s.advance ps).gap? .opener = none := by
  rw [gap?_eq_none_iff] at hs ⊢
  exact hs

end Sheet

namespace Placer

theorem settled?_eq {s : Sheet} (hs : s.gap? .opener = none) (h : Held) (l : Lexeme) :
    settled? s h l = some (Printer.settled s h l) := by
  unfold settled? Printer.settled
  rw [Sheet.hasRoom?_eq hs]
  split
  · next hd => simp [hd]
  · next hd => simp [hd]

/-- An opener that has been placed is printed, and the decision is used up. -/
theorem step?_opener {s : Sheet} (hs : s.gap? .opener = none) (q : Placement) :
    step? ⟨⟨s, none⟩, some q⟩ .opener =
      some ⟨s.pieces q.gap .opener, ⟨⟨s.put q.gap .opener, none⟩, none⟩, []⟩ := by
  simp [step?, Sheet.gapPlaced?_opener hs, placementAfter, Sheet.separates_opener hs]

/-- Reading goes on behind an opener that has been placed. -/
theorem run?_opener [Memory] {s : Sheet} (hs : s.gap? .opener = none) (q : Placement)
    (queue : List Lexeme) :
    run? ⟨⟨s, none⟩, some q⟩ (.opener :: queue) =
      (run? ⟨⟨s.put q.gap .opener, none⟩, none⟩ queue).map
        fun r => (r.1.after (s.pieces q.gap .opener), r.2) := by
  have he : Piece.firstLengthError? (s.pieces q.gap .opener) = none := by cases q <;> rfl
  rw [run?_cons (step?_opener hs q)]
  simp only [he, List.nil_append]

/-- **Placing a list and reading its opener again comes to releasing it.** -/
theorem exists_place?_eq [Memory] {s : Sheet} (hs : s.gap? .opener = none) (h : Held) :
    ∃ o, place? s h = some o ∧
      Piece.firstLengthError? o.pieces = Piece.firstLengthError? (Printer.release s h).pieces ∧
      ∀ queue, (o.placer.run? (o.again ++ queue)).map (fun r => (r.1.after o.pieces, r.2)) =
        (run? ⟨(Printer.release s h).printer, none⟩ ((Printer.release s h).again ++ queue)).map
          fun r => (r.1.after (Printer.release s h).pieces, r.2) := by
  unfold place?
  rw [Sheet.hasRoom?_eq hs]
  cases hroom : s.hasRoom (oneLineWidth h.lexemes) with
  | true =>
    have hr : Printer.release s h =
        ⟨s.pieces .space .opener, ⟨s.put .space .opener, none⟩, h.rest.reverse⟩ := by
      simp [Printer.release, Sheet.compactGap, hroom]
    rw [hr]
    refine ⟨_, rfl, rfl, fun queue => ?_⟩
    simp only [if_true, Held.lexemes, List.cons_append]
    rw [run?_opener hs .pack, Option.map_map]
    rfl
  | false =>
    have hr : Printer.release s h =
        ⟨s.pieces .line .opener, ⟨s.put .line .opener, none⟩, h.rest.reverse⟩ := by
      simp [Printer.release, Sheet.compactGap, hroom]
    rw [hr]
    refine ⟨_, rfl, ?_, fun queue => ?_⟩
    · -- the opener itself is never too long
      have ho : Piece.firstLengthError? [.lexeme .opener] = none := rfl
      have hp : s.pieces .line .opener = [s.lineBreak s.lists.length] ++ [.lexeme .opener] := rfl
      rw [hp, Piece.firstLengthError?_append, ho, Option.or_none]
      rfl
    · simp only [Bool.false_eq_true, if_false, Held.lexemes, List.cons_append]
      rw [run?_opener (Sheet.gap?_opener_advance hs _) .freshLine, Placement.gap,
        Sheet.put_advance_lineBreak, Option.map_map]
      rfl

@[simp] theorem placementAfter_none (p : Printer) (l : Lexeme) :
    placementAfter ⟨p, none⟩ l = none := by
  simp [placementAfter]

/-- **With no decision pending, a lexeme does to the placer what it does to the printer.** Where the
printer takes one step to release a list, the placer takes two. -/
theorem run?_step [Memory] {p : Printer} (hk : p.Keeps) (l : Lexeme) (queue : List Lexeme) :
    run? ⟨p, none⟩ (l :: queue) =
      match Piece.firstLengthError? (p.step l).pieces with
      | some e => some (⟨[], p.lose l, some e⟩, none)
      | none =>
        (run? ⟨(p.step l).printer, none⟩ ((p.step l).again ++ queue)).map
          fun r => (r.1.after (p.step l).pieces, r.2) := by
  have hs := p.steps_step l
  generalize p.step l = o at hs
  cases hs with
  | @print g hh hg =>
    have ho : step? ⟨p, none⟩ l =
        some ⟨p.sheet.pieces g l, ⟨⟨p.sheet.put g l, none⟩, none⟩, []⟩ := by
      simp [step?, hh, Sheet.gapPlaced?, hg]
    rw [run?_cons ho, placementAfter_none]
  | hold hh hg =>
    have ho : step? ⟨p, none⟩ l = some ⟨[], ⟨⟨p.sheet, some {}⟩, none⟩, []⟩ := by
      simp [step?, hh, Sheet.gapPlaced?, hg]
    exact run?_cons ho queue
  | @keep h hh hs =>
    have ho : step? ⟨p, none⟩ l = some ⟨[], ⟨⟨p.sheet, some (h.push l)⟩, none⟩, []⟩ := by
      simp [step?, hh, settled?_eq (hk h hh).gap?_opener, hs]
    exact run?_cons ho queue
  | @release h hh hs =>
    have hopen := (hk h hh).gap?_opener
    obtain ⟨o, ho, herr, hrun⟩ := exists_place?_eq hopen (h.push l)
    have ho' : step? ⟨p, none⟩ l = some o := by
      simp [step?, hh, settled?_eq hopen, hs, ho]
    rw [run?_cons ho', placementAfter_none, herr, hrun queue]

/-- **A placer that begins with no decision ends with none, and prints what the printer prints.** -/
theorem run?_eq [Memory] {p : Printer} {ls : List Lexeme} (hk : p.Keeps)
    (h : ∀ x ∈ p.heldLexemes ++ ls, x.Shown) :
    run? ⟨p, none⟩ ls = some (p.printWithin ls, none) := by
  fun_induction Printer.printWithin p ls with
  | case1 p => exact run?_nil _
  | case2 p l queue e he => rw [run?_step hk, he]
  | case3 p l queue he ih =>
    have hrest := ih (hk.step (h l (by simp))) (Printer.shown_step h)
    rw [run?_step hk, he, hrest]
    rfl

theorem placeAll?_of_none [Memory] {m : Placer} (hh : m.printer.held = none) :
    m.placeAll? = some (⟨[], m.printer, none⟩, m.placement) := by
  rw [placeAll?]
  split
  · rfl
  · next h hh' => exact absurd (hh.symm.trans hh') (by simp)

theorem placeAll?_of_some [Memory] {m : Placer} {h : Held} {o : Outcome}
    (hh : m.printer.held = some h) (ho : place? m.printer.sheet h = some o) :
    m.placeAll? =
      match Piece.firstLengthError? o.pieces with
      | some e => some (⟨[], { m.printer with held := none }, some e⟩, m.placement)
      | none =>
        (o.placer.run? o.again).bind fun r =>
          match r.1.error with
          | some _ => some (r.1.after o.pieces, r.2)
          | none =>
            (placeAll? ⟨r.1.printer, r.2⟩).map
              fun q => (q.1.after (o.pieces ++ r.1.pieces), q.2) := by
  rw [placeAll?]
  split
  · next hh' => exact absurd (hh.symm.trans hh') (by simp)
  · next h' hh' =>
    obtain rfl : h = h' := Option.some.inj (hh.symm.trans hh')
    split
    · next ho' => exact absurd (ho.symm.trans ho') (by simp)
    · next o' ho' =>
      obtain rfl : o = o' := Option.some.inj (ho.symm.trans ho')
      split
      · rfl
      · split
        · next hr => simp [hr]
        · next r hr => simp [hr]

/-- What is read again shows. -/
theorem shown_release {h : Held} {s : Sheet} (hk : h.KeptOn s) :
    ∀ x ∈ (Printer.release s h).printer.heldLexemes ++ (Printer.release s h).again, x.Shown := by
  intro x hx
  have hr : x ∈ h.rest.reverse := by simpa [Printer.release, Printer.heldLexemes] using hx
  exact hk.shown x (List.mem_cons_of_mem _ hr)

/-- Reading a list again that has been placed prints what is printed when it is released. -/
theorem exists_run?_again_eq [Memory] {h : Held} {s : Sheet} (hk : h.KeptOn s) :
    ∃ o r, place? s h = some o ∧
      Piece.firstLengthError? o.pieces = Piece.firstLengthError? (Printer.release s h).pieces ∧
      o.placer.run? o.again = some (r, none) ∧
      r.after o.pieces =
        ((Printer.release s h).printer.printWithin (Printer.release s h).again).after
          (Printer.release s h).pieces := by
  obtain ⟨o, ho, herr, hrun⟩ := exists_place?_eq hk.gap?_opener h
  have hr := hrun []
  rw [List.append_nil, List.append_nil,
    run?_eq (Printer.keeps_of_held_eq_none rfl) (shown_release hk)] at hr
  obtain ⟨⟨r, q⟩, hr', heq⟩ := Option.map_eq_some_iff.mp hr
  obtain ⟨hafter, rfl⟩ := Prod.mk.inj heq
  exact ⟨o, r, ho, herr, hr', hafter⟩

/-- **Placing all that is held back leaves no decision behind either.** -/
theorem placeAll?_eq [Memory] {p : Printer} (hk : p.Keeps) :
    placeAll? ⟨p, none⟩ = some (p.releaseAllWithin, none) := by
  fun_induction Printer.releaseAllWithin p with
  | case1 p hh => exact placeAll?_of_none (m := ⟨p, none⟩) hh
  | case2 p h hh o e he =>
    obtain ⟨o', -, ho, herr, -⟩ := exists_run?_again_eq (hk h hh)
    have he' : Piece.firstLengthError? o'.pieces = some e := herr.trans he
    rw [placeAll?_of_some (m := ⟨p, none⟩) hh ho, he']
  | case3 p h hh o he r e hr =>
    obtain ⟨o', r', ho, herr, hrun, hafter⟩ := exists_run?_again_eq (hk h hh)
    have he' : Piece.firstLengthError? o'.pieces = none := herr.trans he
    have hr' : r'.error = some e := (congrArg Printout.error hafter).trans hr
    rw [placeAll?_of_some (m := ⟨p, none⟩) hh ho, he', hrun]
    simp only [Option.bind_some, hr']
    rw [hafter]
  | case4 p h hh o he r hr ih =>
    obtain ⟨o', r', ho, herr, hrun, hafter⟩ := exists_run?_again_eq (hk h hh)
    have he' : Piece.firstLengthError? o'.pieces = none := herr.trans he
    obtain ⟨hps, hp, hr'⟩ := Printout.mk.inj hafter
    have hkr : r.printer.Keeps :=
      Printer.Keeps.printWithin (Printer.keeps_of_held_eq_none rfl) (shown_release (hk h hh))
    rw [placeAll?_of_some (m := ⟨p, none⟩) hh ho, he', hrun]
    simp only [Option.bind_some, hr'.trans hr, hp, hps]
    rw [ih hkr]
    rfl

theorem finish?_eq [Memory] {p : Printer} {ls : List Lexeme} (hk : p.Keeps)
    (h : ∀ x ∈ p.heldLexemes ++ ls, x.Shown) (terminate : Bool) :
    finish? ⟨p, none⟩ ls terminate =
      some ((p.printWithin ls).andThen fun p => p.finishWithin terminate, none) := by
  rw [finish?, run?_eq hk h, Option.bind_some]
  unfold Printout.andThen
  cases (p.printWithin ls).error with
  | some e => rfl
  | none =>
    simp only [placeAll?_eq (hk.printWithin h), Option.map_some]
    rfl

end Placer

/-! ## Sessions -/

/-- A session that prints with a placer. -/
structure PlacerSession where
  session : Session
  placement : Option Placement := none

namespace PlacerSession

/-- The placer of a session. -/
def placer (x : PlacerSession) : Placer := ⟨x.session.formatter.printer, x.placement⟩

/-- Delivers what a placer has printed. -/
def deliver (x : PlacerSession) (scanner : Scanner) (r : Printout × Option Placement) :
    List Piece × PlacerSession :=
  let d := x.session.deliver scanner r.1
  (d.1, ⟨d.2, r.2⟩)

/-- The session after a call, whether or not the call before it has failed. -/
def call? [Memory] (x : PlacerSession) : Call → Option (List Piece × PlacerSession)
  | .event (.read c) =>
    let r := x.session.formatter.scanner.read c
    (x.placer.run? r.1).map (x.deliver r.2)
  | .event e =>
    let d := x.session.resume.handle e
    some (d.1, ⟨d.2, x.placement⟩)
  | .finish =>
    let r := x.session.formatter.scanner.endAtom
    (x.placer.finish? r.1 (!r.2.inString)).map (x.deliver r.2)

/-- The session after calls. -/
def calls? [Memory] (x : PlacerSession) : List Call → Option (List Piece × PlacerSession)
  | [] => some ([], x)
  | c :: cs => (x.call? c).bind fun r => (r.2.calls? cs).map fun r' => (r.1 ++ r'.1, r'.2)

/-- **A call that finds no decision pending leaves none behind**, also if it fails. -/
theorem call?_eq [Memory] {x : Session} (hk : x.formatter.printer.Keeps) (c : Call) :
    call? ⟨x, none⟩ c = some ((x.call c).1, ⟨(x.call c).2, none⟩) := by
  have hshown {ls : List Lexeme} (hls : ∀ l ∈ ls, l.Shown) :
      ∀ l ∈ x.formatter.printer.heldLexemes ++ ls, l.Shown := fun l hl =>
    (List.mem_append.mp hl).elim (hk.shown l) (hls l)
  cases c with
  | event e =>
    cases e with
    | read c =>
      simp only [call?, placer]
      rw [Placer.run?_eq hk (hshown (x.formatter.scanner.shown_read c))]
      rfl
    | assign t => rfl
    | change c => rfl
  | finish =>
    have hatom : ∀ l ∈ x.formatter.scanner.endAtom.1, l.Shown :=
      x.formatter.scanner.shown_pendingAtom
    simp only [call?, placer]
    rw [Placer.finish?_eq hk (hshown hatom)]
    rfl

theorem calls?_eq [Memory] {x : Session} (hk : x.formatter.printer.Keeps) (cs : List Call) :
    calls? ⟨x, none⟩ cs = some ((x.calls cs).1, ⟨(x.calls cs).2, none⟩) := by
  induction cs generalizing x with
  | nil => rfl
  | cons c cs ih =>
    rw [calls?, call?_eq hk, Option.bind_some, ih (x.keeps_call hk c), Session.calls_cons]
    rfl

end PlacerSession

/-- **Whatever a session has been asked to do, what it holds back is kept, and its placer is at
rest.** Printing through a placer always finds the list that it asks for room, comes to the same
pieces and the same state, and leaves no decision behind. What is held back stands inside a compact
list, behind its first child, and is an unfinished list that would still fit on the line, or an
opener alone. So neither the lexemes held back nor the columns that they take are more than the
limit of that list. -/
theorem held_back_kept [Memory] (s : Settings) (cs : List Call) :
    let r := (Session.ofSettings s).calls cs
    PlacerSession.calls? ⟨.ofSettings s, none⟩ cs = some (r.1, ⟨r.2, none⟩) ∧
      ∀ h ∈ r.2.formatter.printer.held,
        h.KeptOn r.2.formatter.printer.sheet ∧
        ∃ o, r.2.formatter.printer.sheet.lists.head? = some o ∧
          h.lexemes.length ≤ totalWidth h.lexemes ∧ totalWidth h.lexemes ≤ h.width ∧
          h.width ≤ o.settings.columnLimit := by
  intro r
  have hstart : (Session.ofSettings s).formatter.printer.Keeps := Printer.keeps_of_held_eq_none rfl
  refine ⟨PlacerSession.calls?_eq hstart cs, fun h hh => ?_⟩
  have hk : h.KeptOn r.2.formatter.printer.sheet := Session.keeps_calls hstart cs h hh
  obtain ⟨o, os, hlists, -⟩ := hk.inside
  have hhead : r.2.formatter.printer.sheet.lists.head? = some o := by rw [hlists, List.head?_cons]
  exact ⟨hk, o, hhead, hk.le_columnLimit hhead⟩

end SExprReflow
