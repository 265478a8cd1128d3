import SExprReflow.Proofs.Placement

/-!
# Placing a list makes progress

`Placer.run?` keeps the lexemes that have to be read again in a queue. Reading can also be told as
calls inside calls: a lexeme that settles the place of its list places the list, and placing it
reads its lexemes one by one, any of which may place a list further inside, before the first call
comes back. `Placer.feed?` is that telling. Its first argument bounds how many lists may be placed
inside one another, and there is no answer where that is not enough; `Placer.flush?` bounds the
rounds of placing what is held back in the same way.

With `n` lexemes waiting, `n` is always enough. A list that is placed has its opener printed, for
the decision on its place is used up by that opener and by nothing else. So whatever is held back
next comes from the lexemes behind the opener, and there is one fewer of these.
-/

namespace SExprReflow

open Piece

namespace Printer

/-! ## Releasing one list -/

theorem printWithin_nil [Memory] (p : Printer) : p.printWithin [] = ⟨[], p, none⟩ := by
  rw [printWithin]

theorem printWithin_cons [Memory] (p : Printer) (l : Lexeme) (ls : List Lexeme) :
    p.printWithin (l :: ls) =
      match firstLengthError? (p.step l).pieces with
      | some e => ⟨[], p.lose l, some e⟩
      | none =>
        ((p.step l).printer.printWithin ((p.step l).again ++ ls)).after (p.step l).pieces := by
  cases he : firstLengthError? (p.step l).pieces with
  | some e => simp only [printWithin, he]
  | none => simp only [printWithin, he]

theorem printWithin_append [Memory] (p : Printer) (ls ls' : List Lexeme) :
    p.printWithin (ls ++ ls') = (p.printWithin ls).andThen fun q => q.printWithin ls' := by
  fun_induction Printer.printWithin p ls with
  | case1 p => simp [Printout.andThen, Printout.after]
  | case2 p l queue e he => simp [printWithin_cons, he, Printout.andThen]
  | case3 p l queue he ih =>
    rw [List.cons_append, printWithin_cons, he]
    simp only [← List.append_assoc, ih]
    unfold Printout.andThen Printout.after
    split <;> simp_all

/-- Places a list, whose opener is printed by that, and reads the rest of it. -/
def releaseWithin [Memory] (p : Printer) (h : Held) : Printout :=
  match firstLengthError? (release p.sheet h).pieces with
  | some e => ⟨[], { p with held := none }, some e⟩
  | none =>
    ((release p.sheet h).printer.printWithin (release p.sheet h).again).after
      (release p.sheet h).pieces

theorem releaseAllWithin_of_none [Memory] {p : Printer} (hh : p.held = none) :
    p.releaseAllWithin = ⟨[], p, none⟩ := by
  rw [releaseAllWithin]
  split
  · rfl
  · next h hh' => exact absurd (hh.symm.trans hh') (by simp)

theorem releaseAllWithin_of_some [Memory] {p : Printer} {h : Held} (hh : p.held = some h) :
    p.releaseAllWithin = (p.releaseWithin h).andThen releaseAllWithin := by
  rw [releaseAllWithin]
  split
  · next hh' => exact absurd (hh.symm.trans hh') (by simp)
  · next h' hh' =>
    obtain rfl : h = h' := Option.some.inj (hh.symm.trans hh')
    unfold releaseWithin
    split
    · next he => simp [he, Printout.andThen]
    · next he =>
      simp only [he]
      unfold Printout.andThen Printout.after
      split <;> simp_all

/-- **A list that is placed holds back fewer lexemes than it had**: its opener is not among them. -/
theorem heldCount_releaseWithin_le [Memory] (p : Printer) (h : Held) :
    (p.releaseWithin h).printer.heldCount ≤ h.rest.length := by
  unfold releaseWithin
  split
  · exact Nat.zero_le _
  · have hle := heldCount_printWithin_le (release p.sheet h).printer (release p.sheet h).again
    rw [show (release p.sheet h).printer.heldCount + (release p.sheet h).again.length =
      h.rest.length by simp [release, heldCount]] at hle
    exact hle

theorem Keeps.releaseWithin [Memory] {p : Printer} {h : Held} (hk : h.KeptOn p.sheet) :
    (p.releaseWithin h).printer.Keeps := by
  unfold Printer.releaseWithin
  split
  · exact keeps_of_held_eq_none rfl
  · exact Keeps.printWithin (keeps_of_held_eq_none rfl) (Placer.shown_release hk)

end Printer

/-! ## Calls inside calls -/

namespace Placer

/-- What has been printed, and the decision that is left. -/
abbrev Result := Printout × Option Placement

/-- Reads lexemes one by one, each by `read`, until one cannot be printed. -/
def readEach? (read : Placer → Lexeme → Option Result) (m : Placer) :
    List Lexeme → Option Result
  | [] => some (⟨[], m.printer, none⟩, m.placement)
  | l :: ls =>
    (read m l).bind fun r =>
      match r.1.error with
      | some _ => some r
      | none => (readEach? read ⟨r.1.printer, r.2⟩ ls).map fun q => (q.1.after r.1.pieces, q.2)

/-- Goes on from an outcome: what has to be read again is read, each lexeme by `read`. -/
def Outcome.goOn? (o : Outcome) (read : Placer → Lexeme → Option Result) : Option Result :=
  (readEach? read o.placer o.again).map fun r => (r.1.after o.pieces, r.2)

/-- Places a list that was held back and reads it again, each lexeme by `read`. -/
def placeBy? [Memory] (read : Placer → Lexeme → Option Result) (m : Placer) (h : Held) :
    Option Result :=
  (place? m.printer.sheet h).bind fun o =>
    match firstLengthError? o.pieces with
    | some e => some (⟨[], { m.printer with held := none }, some e⟩, m.placement)
    | none => o.goOn? read

/-- Reads one lexeme. If it settles the place of its list, the list is read again, each lexeme by
`read`. -/
def feedBy? [Memory] (read : Placer → Lexeme → Option Result) (m : Placer) (l : Lexeme) :
    Option Result :=
  (m.step? l).bind fun o =>
    match firstLengthError? o.pieces with
    | some e => some (⟨[], m.printer.lose l, some e⟩, m.placementAfter l)
    | none => o.goOn? read

/-- Reads one lexeme, with at most `depth` lists placed inside one another on the way. -/
def feed? [Memory] : Nat → Placer → Lexeme → Option Result
  | 0 => feedBy? fun _ _ => none
  | depth + 1 => feedBy? (feed? depth)

/-- Places what is held back, round by round, in at most `rounds` of them. -/
def flush? [Memory] (depth : Nat) : Nat → Placer → Option Result
  | 0, m => if m.printer.held = none then some (⟨[], m.printer, none⟩, m.placement) else none
  | rounds + 1, m =>
    match m.printer.held with
    | none => some (⟨[], m.printer, none⟩, m.placement)
    | some h =>
      (m.placeBy? (feed? depth) h).bind fun r =>
        match r.1.error with
        | some _ => some r
        | none =>
          (flush? depth rounds ⟨r.1.printer, r.2⟩).map fun q => (q.1.after r.1.pieces, q.2)

/-! ## Enough calls -/

/-- A lexeme that is printed or held back needs no call inside the first. -/
theorem feed?_of_step? [Memory] {m : Placer} {l : Lexeme} {ps : List Piece} {m' : Placer}
    (ho : m.step? l = some ⟨ps, m', []⟩) (depth : Nat) :
    feed? depth m l =
      match firstLengthError? ps with
      | some e => some (⟨[], m.printer.lose l, some e⟩, m.placementAfter l)
      | none => some (⟨ps, m'.printer, none⟩, m'.placement) := by
  cases depth <;>
    simp [feed?, feedBy?, ho, Outcome.goOn?, readEach?, Printout.after]

/-- An opener that has been placed is printed, and the decision is used up. -/
theorem feed?_opener [Memory] {s : Sheet} (hs : s.gap? .opener = none) (q : Placement)
    (depth : Nat) :
    feed? depth ⟨⟨s, none⟩, some q⟩ .opener =
      some (⟨s.pieces q.gap .opener, ⟨s.put q.gap .opener, none⟩, none⟩, none) := by
  have he : firstLengthError? (s.pieces q.gap .opener) = none := by cases q <;> rfl
  rw [feed?_of_step? (step?_opener hs q), he]

/-- A list that has been placed is one opener away from being released. -/
theorem exists_place?_eq_some {s : Sheet} (hs : s.gap? .opener = none) (h : Held) :
    ∃ ps s' q, place? s h = some ⟨ps, ⟨⟨s', none⟩, some q⟩, h.lexemes⟩ ∧
      s'.gap? .opener = none ∧
      Printer.release s h =
        ⟨ps ++ s'.pieces q.gap .opener, ⟨s'.put q.gap .opener, none⟩, h.rest.reverse⟩ := by
  cases hroom : s.hasRoom (oneLineWidth h.lexemes) with
  | true =>
    refine ⟨[], s, .pack, ?_, hs, ?_⟩
    · simp [place?, Sheet.hasRoom?_eq hs, hroom]
    · simp [Printer.release, Sheet.compactGap, hroom, Placement.gap]
  | false =>
    refine ⟨[s.lineBreak s.lists.length], s.advance [s.lineBreak s.lists.length], .freshLine, ?_,
      Sheet.gap?_opener_advance hs _, ?_⟩
    · simp [place?, Sheet.hasRoom?_eq hs, hroom]
    · rw [Placement.gap, Sheet.put_advance_lineBreak]
      simp [Printer.release, Sheet.compactGap, hroom]
      rfl

/-- **Placing a list comes to releasing it**, if the rest of it can be read. -/
theorem placeBy?_eq [Memory] {p : Printer} {h : Held} {depth : Nat}
    (hs : p.sheet.gap? .opener = none)
    (hr : readEach? (feed? depth) ⟨(Printer.release p.sheet h).printer, none⟩ h.rest.reverse =
      some ((Printer.release p.sheet h).printer.printWithin h.rest.reverse, none)) :
    placeBy? (feed? depth) ⟨p, none⟩ h = some (p.releaseWithin h, none) := by
  obtain ⟨ps, s', q, hplace, hs', hrelease⟩ := exists_place?_eq_some hs h
  -- the opener itself is never too long
  have hopener : firstLengthError? (s'.pieces q.gap .opener) = none := by cases q <;> rfl
  have herr : firstLengthError? (ps ++ s'.pieces q.gap .opener) = firstLengthError? ps := by
    rw [firstLengthError?_append, hopener, Option.or_none]
  unfold placeBy? Printer.releaseWithin
  rw [hrelease] at hr ⊢
  rw [hplace, Option.bind_some]
  simp only [herr]
  cases firstLengthError? ps with
  | some e => rfl
  | none =>
    simp only [Outcome.goOn?, Held.lexemes, readEach?, feed?_opener hs' q, Option.bind_some, hr,
      Option.map_some]
    simp [Printout.after]

/-- With `depth` calls inside one another, lexemes are read as the printer reads them, as long as no
more than `depth` of them are waiting. -/
def Reads [Memory] (depth : Nat) : Prop :=
  ∀ (p : Printer) (ls : List Lexeme), p.Keeps → (∀ x ∈ p.heldLexemes ++ ls, x.Shown) →
    p.heldCount + ls.length ≤ depth →
    readEach? (feed? depth) ⟨p, none⟩ ls = some (p.printWithin ls, none)

/-- The rest of a list that is placed is read with one call fewer. -/
theorem Reads.placeBy? [Memory] {depth : Nat} (hreads : Reads depth) {p : Printer} {h : Held}
    (hs : p.sheet.gap? .opener = none) (hshown : ∀ x ∈ h.rest.reverse, x.Shown)
    (hle : h.rest.length ≤ depth) :
    placeBy? (feed? depth) ⟨p, none⟩ h = some (p.releaseWithin h, none) := by
  refine placeBy?_eq hs (hreads _ _ (Printer.keeps_of_held_eq_none rfl) ?_ ?_)
  · simpa [Printer.release, Printer.heldLexemes] using hshown
  · simpa [Printer.release, Printer.heldCount] using hle

theorem Reads.feed? [Memory] {depth : Nat} (hreads : Reads depth) {p : Printer} {l : Lexeme}
    (hk : p.Keeps) (hl : l.Shown) (hle : p.heldCount ≤ depth) :
    feed? (depth + 1) ⟨p, none⟩ l = some (p.printWithin [l], none) := by
  rw [Printer.printWithin_cons]
  have hs := p.steps_step l
  generalize p.step l = o at hs
  cases hs with
  | @print g hh hg =>
    have ho : step? ⟨p, none⟩ l =
        some ⟨p.sheet.pieces g l, ⟨⟨p.sheet.put g l, none⟩, none⟩, []⟩ := by
      simp [step?, hh, Sheet.gapPlaced?, hg]
    rw [feed?_of_step? ho]
    cases firstLengthError? (p.sheet.pieces g l) <;> simp [Printer.printWithin_nil, Printout.after]
  | hold hh hg =>
    have ho : step? ⟨p, none⟩ l = some ⟨[], ⟨⟨p.sheet, some {}⟩, none⟩, []⟩ := by
      simp [step?, hh, Sheet.gapPlaced?, hg]
    rw [feed?_of_step? ho]
    simp [firstLengthError?, Printer.printWithin_nil, Printout.after]
  | @keep h hh hs =>
    have ho : step? ⟨p, none⟩ l = some ⟨[], ⟨⟨p.sheet, some (h.push l)⟩, none⟩, []⟩ := by
      simp [step?, hh, settled?_eq (hk h hh).gap?_opener, hs]
    rw [feed?_of_step? ho]
    simp [firstLengthError?, Printer.printWithin_nil, Printout.after]
  | @release h hh hs =>
    -- the lexeme is the last of a list, which is placed by a call inside this one
    have hopen := (hk h hh).gap?_opener
    have hlose : p.lose l = { p with held := none } := by simp [Printer.lose, hh]
    have hfeed : Placer.feed? (depth + 1) ⟨p, none⟩ l =
        Placer.placeBy? (Placer.feed? depth) ⟨p, none⟩ (h.push l) := by
      simp [Placer.feed?, feedBy?, Placer.placeBy?, step?, hh, settled?_eq hopen, hs, hlose]
    rw [hfeed, hreads.placeBy? hopen]
    · simp [Printer.releaseWithin, hlose]
    · intro x hx
      have hx' : x ∈ h.rest ∨ x = l := by simpa [Held.push] using hx
      rcases hx' with hx' | rfl
      · exact (hk h hh).shown x (List.mem_cons_of_mem _ (List.mem_reverse.mpr hx'))
      · exact hl
    · simpa [Printer.heldCount, hh, Held.push] using hle

theorem reads [Memory] (depth : Nat) : Reads depth := by
  induction depth with
  | zero =>
    intro p ls hk hshown hle
    obtain rfl : ls = [] := List.eq_nil_of_length_eq_zero (by omega)
    rw [Printer.printWithin_nil]
    rfl
  | succ depth ih =>
    intro p ls hk hshown hle
    induction ls generalizing p with
    | nil =>
      rw [Printer.printWithin_nil]
      rfl
    | cons l ls ihls =>
      have hl : ∀ x ∈ p.heldLexemes ++ [l], x.Shown := by
        intro x hx
        refine hshown x ?_
        rw [List.append_cons]
        exact List.mem_append_left _ hx
      have hfeed := ih.feed? hk (hl l (by simp)) (by simp at hle; omega)
      have happend : p.printWithin (l :: ls) =
          (p.printWithin [l]).andThen fun q => q.printWithin ls := p.printWithin_append [l] ls
      rw [readEach?, hfeed, Option.bind_some, happend, Printout.andThen]
      cases he : (p.printWithin [l]).error with
      | some e => rfl
      | none =>
        have hkeeps := hk.printWithin hl
        have hcount := p.heldCount_printWithin_le [l]
        simp only
        rw [ihls _ hkeeps ?_ ?_]
        · rfl
        · intro x hx
          rcases List.mem_append.mp hx with hx | hx
          · exact hkeeps.shown x hx
          · exact hshown x (by simp [hx])
        · simp only [List.length_cons, List.length_nil] at hcount hle
          omega

/-- **With `n` lexemes held back, `n` rounds place them all.** -/
theorem flush?_eq [Memory] {p : Printer} {depth rounds : Nat} (hk : p.Keeps)
    (hdepth : p.heldCount ≤ depth + 1) (hrounds : p.heldCount ≤ rounds) :
    flush? depth rounds ⟨p, none⟩ = some (p.releaseAllWithin, none) := by
  induction rounds generalizing p with
  | zero =>
    have hh : p.held = none := by
      cases hh : p.held with
      | none => rfl
      | some h => simp [Printer.heldCount, hh] at hrounds
    rw [Printer.releaseAllWithin_of_none hh, flush?, if_pos hh]
  | succ rounds ih =>
    cases hh : p.held with
    | none =>
      rw [Printer.releaseAllWithin_of_none hh, flush?]
      simp only [hh]
    | some h =>
      have hcount : p.heldCount = h.rest.length + 1 := by simp [Printer.heldCount, hh]
      have hplace : placeBy? (feed? depth) ⟨p, none⟩ h = some (p.releaseWithin h, none) := by
        refine (reads depth).placeBy? (hk h hh).gap?_opener ?_ (by omega)
        exact fun x hx => (hk h hh).shown x (List.mem_cons_of_mem _ hx)
      have hfewer := p.heldCount_releaseWithin_le h
      rw [flush?, Printer.releaseAllWithin_of_some hh, Printout.andThen]
      simp only [hh, hplace, Option.bind_some]
      cases (p.releaseWithin h).error with
      | some e => rfl
      | none =>
        simp only
        rw [ih (.releaseWithin (hk h hh)) (by omega) (by omega)]
        rfl

end Placer

/-! ## What is printed, and what is held back again -/

namespace Printer

theorem heldCount_eq (p : Printer) : p.heldCount = p.heldLexemes.length := by
  unfold heldCount heldLexemes
  cases p.held <;> simp [Held.lexemes]

theorem held_releaseWithin_of_error [Memory] {p : Printer} {h : Held} {e : LengthError}
    (he : (p.releaseWithin h).error = some e) : (p.releaseWithin h).printer.held = none := by
  unfold releaseWithin at he ⊢
  split at he
  · rfl
  · exact held_printWithin_of_error he

/-- **A list that is placed loses nothing**: what is printed of it is followed by what is held back
again. -/
theorem lexemesOf_releaseWithin [Memory] {p : Printer} {h : Held} (hp : ∀ l ∈ h.lexemes, l.Proper)
    (he : (p.releaseWithin h).error = none) :
    lexemesOf (p.releaseWithin h).pieces ++ (p.releaseWithin h).printer.heldLexemes =
      h.lexemes := by
  unfold releaseWithin at he ⊢
  split at he
  · exact absurd he (by simp)
  · have hag := printWithin_agrees (release p.sheet h).printer (release p.sheet h).again
    have hrest := lexemesOf_printAll (proper_release (s := p.sheet) hp)
    simp only [Printout.after] at he ⊢
    rw [hag.pieces_eq he, hag.printer_eq he, lexemesOf_append, List.append_assoc, hrest,
      ← List.append_assoc, lexemesOf_release]

/-- The opener is printed first, unless the line that it would begin is too long. -/
theorem head?_releaseWithin [Memory] (p : Printer) (h : Held)
    (he : (p.sheet.lineBreak p.sheet.lists.length).lengthError? = none) :
    (lexemesOf (p.releaseWithin h).pieces).head? = some .opener := by
  have hpieces : firstLengthError? (release p.sheet h).pieces = none := by
    unfold release
    cases p.sheet.compactGap (oneLineWidth h.lexemes) with
    | hug => rfl
    | space => rfl
    | line =>
      show [p.sheet.lineBreak p.sheet.lists.length, .lexeme .opener].findSome? lengthError? = none
      rw [List.findSome?_cons, he]
      rfl
  have hopener : lexemesOf (release p.sheet h).pieces = [.opener] :=
    Sheet.lexemesOf_pieces _ _ proper_opener
  unfold releaseWithin
  rw [hpieces]
  simp [Printout.after, hopener]

end Printer

/-- **Placing what is held back comes to an end, and prints something each time.** Whatever a
session has been asked to do, reading more lexemes nests no more calls than there are lexemes
waiting, and comes to what the printer prints. If `n` lexemes are held back, they are placed in at
most `n` rounds, after which nothing is held back. Each round prints the opener that they begin
with, unless the line that it would begin is too long, and holds back at most `n - 1` lexemes again,
which are the last of the list that was placed. -/
theorem placement_progresses [Memory] (s : Settings) (cs : List Call) :
    let p := ((Session.ofSettings s).calls cs).2.formatter.printer
    let n := p.heldLexemes.length
    (∀ ls : List Lexeme, (∀ l ∈ ls, l.Shown) →
        Placer.readEach? (Placer.feed? (n + ls.length)) ⟨p, none⟩ ls =
          some (p.printWithin ls, none)) ∧
      Placer.flush? (n - 1) n ⟨p, none⟩ = some (p.releaseAllWithin, none) ∧
      p.releaseAllWithin.printer.held = none ∧
      ∀ h ∈ p.held, ∃ r,
        Placer.placeBy? (Placer.feed? (n - 1)) ⟨p, none⟩ h = some (r, none) ∧
          ((p.sheet.lineBreak p.sheet.lists.length).lengthError? = none →
            (lexemesOf r.pieces).head? = some .opener) ∧
          (r.error = none → lexemesOf r.pieces ++ r.printer.heldLexemes = h.lexemes) ∧
          r.printer.heldLexemes <:+ h.lexemes ∧ r.printer.heldLexemes.length ≤ n - 1 := by
  intro p n
  have hk : p.Keeps :=
    Session.keeps_calls (x := .ofSettings s) (Printer.keeps_of_held_eq_none rfl) cs
  have hn : p.heldCount = n := p.heldCount_eq
  refine ⟨?_, ?_, p.held_releaseAllWithin, ?_⟩
  · intro ls hls
    refine Placer.reads _ p ls hk ?_ (by rw [hn])
    intro x hx
    exact (List.mem_append.mp hx).elim (hk.shown x) (hls x)
  · exact Placer.flush?_eq hk (by omega) (by omega)
  · intro h hh
    have hkept := hk h hh
    have hrest : h.rest.length = n - 1 := by
      rw [← hn, Printer.heldCount, hh]
      rfl
    refine ⟨p.releaseWithin h, ?_, p.head?_releaseWithin h, ?_, ?_, ?_⟩
    · refine (Placer.reads _).placeBy? hkept.gap?_opener ?_ (Nat.le_of_eq hrest)
      exact fun x hx => hkept.shown x (List.mem_cons_of_mem _ hx)
    · exact Printer.lexemesOf_releaseWithin fun l hl => (hkept.shown l hl).1
    · cases he : (p.releaseWithin h).error with
      | some e =>
        rw [Printer.heldLexemes, Printer.held_releaseWithin_of_error he]
        exact List.nil_suffix
      | none =>
        exact ⟨_, Printer.lexemesOf_releaseWithin (fun l hl => (hkept.shown l hl).1) he⟩
    · rw [← Printer.heldCount_eq, ← hrest]
      exact p.heldCount_releaseWithin_le h

section

attribute [local instance] Memory.small

/-- A list of points that has been read up to the head of a list inside the list inside it. -/
def openPoints : List Call := "(pts a (pts b (x ".toList.map fun c => .event (.read c)

/-- The printer that has read them. -/
def pointsPrinter : Printer :=
  ((Session.ofSettings Profile.kicad.settings).calls openPoints).2.formatter.printer

/-- The list inside the points is placed, and the one inside that is held back again. -/
theorem placement_progresses_openPoints :
    pointsPrinter.heldLexemes = [.opener, .atom "pts".toList, .atom ['b'], .opener, .atom ['x']] ∧
      ∃ h r, h ∈ pointsPrinter.held ∧
        Placer.placeBy? (Placer.feed? 4) ⟨pointsPrinter, none⟩ h = some (r, none) ∧
        (lexemesOf r.pieces).head? = some .opener ∧
        r.printer.heldLexemes <:+ h.lexemes ∧ r.printer.heldLexemes.length ≤ 4 := by
  have hheld : pointsPrinter.heldLexemes =
      [.opener, .atom "pts".toList, .atom ['b'], .opener, .atom ['x']] := by decide +kernel
  have hbreak : (pointsPrinter.sheet.lineBreak pointsPrinter.sheet.lists.length).lengthError? =
      none := by decide +kernel
  have hn : pointsPrinter.heldLexemes.length - 1 = 4 := by rw [hheld]; rfl
  obtain ⟨h, hh⟩ : ∃ h, h ∈ pointsPrinter.held := by
    unfold Printer.heldLexemes at hheld
    split at hheld
    · exact absurd hheld (by simp)
    · next h hh => exact ⟨h, hh⟩
  obtain ⟨r, hr, hopener, -, hsuffix, hlength⟩ :=
    (placement_progresses Profile.kicad.settings openPoints).2.2.2 h hh
  exact ⟨hheld, h, r, hh, hn ▸ hr, hopener hbreak, hsuffix, hn ▸ hlength⟩

end

end SExprReflow
