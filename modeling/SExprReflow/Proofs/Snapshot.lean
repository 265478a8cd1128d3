import SExprReflow.Proofs.Ending

/-!
# The settings that a list is printed under

A list keeps the settings in force when it is opened, so later changes leave it alone. It is opened
when its opener is printed. For most lists that is when the opener is read, but a list inside a
compact one waits until its place is known, or until the text ends, and the settings can change in
the meantime. Such a list is measured under the settings before the change and printed under those
after it: it may be put on a line because it fits there, and then be broken over several.

Where the settings change only while nothing is held back (`Formatter.ChangesWhenIdle`), every list
is printed under the settings that its opener was read under.
-/

namespace SExprReflow

open Piece

/-- The number of openers among lexemes. -/
def openers (ls : List Lexeme) : Nat := ls.countP fun l => l.role = .opener

@[simp] theorem openers_nil : openers [] = 0 := rfl

@[simp] theorem openers_append (xs ys : List Lexeme) :
    openers (xs ++ ys) = openers xs + openers ys :=
  List.countP_append

/-! ## Lists as they are opened -/

namespace Printer

/-- The list that is opened when one lexeme is read, if an opener is printed: the innermost one
afterwards. -/
def Outcome.opened (o : Outcome) : List OpenList :=
  if openers (lexemesOf o.pieces) = 0 then [] else o.printer.sheet.lists.take 1

/-- The lists opened while lexemes are read, each as it is when it is opened. -/
def openedAll (p : Printer) : List Lexeme → List OpenList
  | [] => []
  | l :: queue => (p.step l).opened ++ openedAll (p.step l).printer ((p.step l).again ++ queue)
termination_by queue => p.readsLeft queue
decreasing_by exact step_decreases p l queue

/-- The lists opened while everything that is held back is placed. -/
def openedReleasing (p : Printer) : List OpenList :=
  match _hh : p.held with
  | none => []
  | some h =>
    let o := release p.sheet h
    o.opened ++ o.printer.openedAll o.again ++ openedReleasing (o.printer.printAll o.again).2
termination_by p.heldCount
decreasing_by
  have hle := heldCount_printAll_le (release p.sheet h).printer (release p.sheet h).again
  simp only [release, heldCount, _hh, List.length_reverse] at hle ⊢
  omega

end Printer

/-- A list that is opened keeps the settings in force. -/
theorem Sheet.settings_take_put {s : Sheet} {l : Lexeme} (g : Gap) (hl : l.role = .opener) :
    ((s.put g l).lists.take 1).map OpenList.settings = [s.settings] := by
  simp [lists_put_opener s g hl]

namespace Printer

theorem settings_opened_release (s : Sheet) (h : Held) :
    (release s h).opened.map OpenList.settings =
      List.replicate (openers (lexemesOf (release s h).pieces)) s.settings := by
  have ho : Lexeme.opener.role = .opener := rfl
  simp [Outcome.opened, release, Sheet.lexemesOf_pieces _ _ proper_opener, openers, ho,
    Sheet.settings_take_put _ ho]

theorem settings_opened_step (p : Printer) {l : Lexeme} (hl : l.Proper) :
    (p.step l).opened.map OpenList.settings =
      List.replicate (openers (lexemesOf (p.step l).pieces)) p.sheet.settings := by
  have hs := p.steps_step l
  generalize p.step l = o at hs
  cases hs with
  | @print g hh hg =>
    by_cases hr : l.role = .opener
    · simp [Outcome.opened, Sheet.lexemesOf_pieces _ _ hl, openers, hr,
        Sheet.settings_take_put g hr]
    · simp [Outcome.opened, Sheet.lexemesOf_pieces _ _ hl, openers, hr]
  | hold hh hg => rfl
  | keep hh hs => rfl
  | release hh hs => exact settings_opened_release _ _

theorem settings_openedAll {p : Printer} {ls : List Lexeme}
    (h : ∀ l ∈ p.heldLexemes ++ ls, l.Proper) :
    (p.openedAll ls).map OpenList.settings =
      List.replicate (openers (lexemesOf (p.printAll ls).1)) p.sheet.settings := by
  fun_induction printAll p ls with
  | case1 p =>
    rw [openedAll]
    rfl
  | case2 p l queue r ih =>
    have hl : l.Proper := h l (by simp)
    rw [openedAll, List.map_append, settings_opened_step p hl, ih (proper_step h), settings_step,
      lexemesOf_append, openers_append, List.replicate_add]

theorem settings_openedReleasing {p : Printer} (h : ∀ l ∈ p.heldLexemes, l.Proper) :
    p.openedReleasing.map OpenList.settings =
      List.replicate (openers (lexemesOf p.releaseAll.1)) p.sheet.settings := by
  fun_induction openedReleasing p with
  | case1 p hh =>
    rw [releaseAll_of_none hh]
    rfl
  | case2 p held hh o ih =>
    have hheld : p.heldLexemes = held.lexemes := by simp [heldLexemes, hh]
    have hp := proper_release (s := p.sheet) (hheld ▸ h)
    have hsettings : o.printer.sheet.settings = p.sheet.settings := Sheet.settings_put _ _ _
    have hall : (o.printer.openedAll o.again).map OpenList.settings = _ := settings_openedAll hp
    rw [releaseAll_of_some hh, List.map_append, List.map_append, hall, ih (proper_printAll hp),
      settings_printAll, hsettings, show o.opened.map OpenList.settings = _ from
        settings_opened_release p.sheet held]
    simp only [lexemesOf_append, openers_append, List.replicate_add]
    rfl

end Printer

/-! ## Runs -/

namespace Formatter

/-- The formatter after a call. -/
def call (f : Formatter) : Call → List Piece × Formatter
  | .event e => f.handle e
  | .finish => f.finish

/-- The formatter after calls. -/
def calls (f : Formatter) (cs : List Call) : List Piece × Formatter := runAll call f cs

@[simp] theorem calls_nil (f : Formatter) : f.calls [] = ([], f) := rfl

@[simp] theorem calls_cons (f : Formatter) (c : Call) (cs : List Call) :
    f.calls (c :: cs) = ((f.call c).1 ++ ((f.call c).2.calls cs).1, ((f.call c).2.calls cs).2) :=
  runAll_cons call f c cs

/-- The lexemes that end in a call. -/
def ended (f : Formatter) : Call → List Lexeme
  | .event (.read c) => (f.scanner.read c).1
  | .event _ => []
  | .finish => f.scanner.endAtom.1

/-- The lists opened in a call, in order. At the end of the text those that are held back are
opened, too. -/
def openedIn (f : Formatter) : Call → List OpenList
  | .event e => f.printer.openedAll (f.ended (.event e))
  | .finish =>
    f.printer.openedAll (f.ended .finish) ++
      (f.printer.printAll (f.ended .finish)).2.openedReleasing

/-- The lists opened in a run, in order. -/
def opened (f : Formatter) : List Call → List OpenList
  | [] => []
  | c :: cs => f.openedIn c ++ opened (f.call c).2 cs

/-- For each opener printed in a run, the settings in force then. -/
def printedUnder (f : Formatter) : List Call → List Settings
  | [] => []
  | c :: cs =>
    List.replicate (openers (lexemesOf (f.call c).1)) f.settings ++ printedUnder (f.call c).2 cs

/-- For each opener read in a run, the settings in force then. -/
def readUnder (f : Formatter) : List Call → List Settings
  | [] => []
  | c :: cs => List.replicate (openers (f.ended c)) f.settings ++ readUnder (f.call c).2 cs

/-- The settings change only while nothing is held back. -/
def ChangesWhenIdle (f : Formatter) : List Call → Prop
  | [] => True
  | c :: cs =>
    ((f.call c).2.settings ≠ f.settings → f.printer.held = none) ∧
      ChangesWhenIdle (f.call c).2 cs

instance decidableChangesWhenIdle :
    (f : Formatter) → (cs : List Call) → Decidable (f.ChangesWhenIdle cs)
  | _, [] => isTrue trivial
  | f, c :: cs =>
    have := decidableChangesWhenIdle (f.call c).2 cs
    inferInstanceAs (Decidable (((f.call c).2.settings ≠ f.settings → f.printer.held = none) ∧
      ChangesWhenIdle (f.call c).2 cs))

/-! ## One call -/

/-- What waits prints as its own text. -/
def HoldsProper (f : Formatter) : Prop := ∀ l ∈ f.printer.heldLexemes, l.Proper

/-- A call prints lexemes, and may go on to place all that is held back, or it brings settings. -/
theorem call_cases (f : Formatter) (c : Call) :
    (∃ s, f.ended c = [] ∧ f.openedIn c = [] ∧ f.call c = ([], f.withSettings s)) ∨
      f.openedIn c = f.printer.openedAll (f.ended c) ∧
        (f.call c).1 = (f.printer.printAll (f.ended c)).1 ∧
        (f.call c).2.printer = (f.printer.printAll (f.ended c)).2 ∨
      c = .finish := by
  cases c with
  | finish => exact .inr (.inr rfl)
  | event e =>
    cases he : e.char? with
    | some c =>
      obtain rfl := Event.eq_read_of_char? he
      exact .inr (.inl ⟨rfl, rfl, rfl⟩)
    | none =>
      obtain ⟨s, hs⟩ := f.handle_of_char?_eq_none he
      have hended : f.ended (.event e) = [] := by
        cases e with
        | read c => exact absurd he (by simp [Event.char?])
        | assign s => rfl
        | change c => rfl
      refine .inl ⟨s, hended, ?_, hs⟩
      rw [openedIn, hended, Printer.openedAll]

theorem proper_ended {f : Formatter} (h : f.HoldsProper) (c : Call) :
    ∀ l ∈ f.printer.heldLexemes ++ f.ended c, l.Proper := by
  intro l hl
  rcases List.mem_append.mp hl with hl | hl
  · exact h l hl
  · match c with
    | .event (.read c) => exact (f.scanner.shown_read c l hl).1
    | .event (.assign s) => exact absurd hl (by simp [ended])
    | .event (.change c) => exact absurd hl (by simp [ended])
    | .finish => exact (f.scanner.shown_pendingAtom l hl).1

theorem HoldsProper.call {f : Formatter} (h : f.HoldsProper) (c : Call) :
    (f.call c).2.HoldsProper := by
  obtain ⟨s, -, -, hs⟩ | ⟨-, -, hp⟩ | rfl := f.call_cases c
  · rw [hs]
    exact h
  · unfold HoldsProper
    rw [hp]
    exact Printer.proper_printAll (proper_ended h c)
  · have hnone : (f.call .finish).2.printer.held = none := (f.atRest_finish).held_eq
    simp [HoldsProper, Printer.heldLexemes, hnone]

/-- What is printed at the end of a text: the last atom, all that is held back, and a line end. -/
theorem lexemesOf_finish (f : Formatter) :
    lexemesOf f.finish.1 =
      lexemesOf (f.printer.printAll (f.ended .finish)).1 ++
        lexemesOf (f.printer.printAll (f.ended .finish)).2.releaseAll.1 := by
  have hpieces : f.finish.1 = (f.printer.printAll (f.ended .finish)).1 ++
      ((f.printer.printAll (f.ended .finish)).2.finish (!f.scanner.endAtom.2.inString)).1 := rfl
  rw [hpieces, Printer.pieces_finish, lexemesOf_append, lexemesOf_append,
    Sheet.lexemesOf_endPieces, List.append_nil]

/-- What a call opens, it opens under the settings in force. -/
theorem settings_openedIn {f : Formatter} (h : f.HoldsProper) (c : Call) :
    (f.openedIn c).map OpenList.settings =
      List.replicate (openers (lexemesOf (f.call c).1)) f.settings := by
  have hproper := proper_ended h c
  obtain ⟨s, -, hopened, hs⟩ | ⟨hopened, hpieces, -⟩ | rfl := f.call_cases c
  · rw [hopened, hs]
    rfl
  · rw [hopened, hpieces]
    exact Printer.settings_openedAll hproper
  · rw [openedIn, List.map_append, Printer.settings_openedAll hproper,
      Printer.settings_openedReleasing (Printer.proper_printAll hproper), call, lexemesOf_finish,
      openers_append, List.replicate_add, Printer.settings_printAll]
    rfl

/-- The openers printed in a call and those left waiting are those that waited or were read. -/
theorem openers_call {f : Formatter} (h : f.HoldsProper) (c : Call) :
    openers (lexemesOf (f.call c).1) + openers (f.call c).2.printer.heldLexemes =
      openers f.printer.heldLexemes + openers (f.ended c) := by
  have hproper := proper_ended h c
  have hall := Printer.lexemesOf_printAll hproper
  rw [← openers_append, ← openers_append]
  obtain ⟨s, hended, -, hs⟩ | ⟨-, hpieces, hprinter⟩ | rfl := f.call_cases c
  · rw [hended, hs, List.append_nil]
    rfl
  · rw [hpieces, hprinter, hall]
  · have hreleased := (Printer.lexemesOf_releaseAll (Printer.proper_printAll hproper)).1
    have hnone : (f.call .finish).2.printer.heldLexemes = [] := by
      have hheld : (f.call .finish).2.printer.held = none := f.atRest_finish.held_eq
      simp [Printer.heldLexemes, hheld]
    rw [hnone, List.append_nil, call, lexemesOf_finish, hreleased, hall]

/-- What waits over a call waits under settings that do not change. -/
theorem replicate_heldLexemes {f : Formatter} {c : Call}
    (h : (f.call c).2.settings ≠ f.settings → f.printer.held = none) :
    List.replicate (openers (f.call c).2.printer.heldLexemes) (f.call c).2.settings =
      List.replicate (openers (f.call c).2.printer.heldLexemes) f.settings := by
  by_cases hs : (f.call c).2.settings = f.settings
  · rw [hs]
  · have hnone : (f.call c).2.printer.held = none := by
      obtain ⟨s, -, -, hcall⟩ | ⟨-, -, hprinter⟩ | rfl := f.call_cases c
      · rw [hcall]
        exact h hs
      · refine absurd ?_ hs
        rw [settings, hprinter, Printer.settings_printAll]
        rfl
      · exact f.atRest_finish.held_eq
    simp [Printer.heldLexemes, hnone]

/-! ## All calls -/

theorem settings_opened {f : Formatter} (h : f.HoldsProper) (cs : List Call) :
    (f.opened cs).map OpenList.settings = f.printedUnder cs := by
  induction cs generalizing f with
  | nil => rfl
  | cons c cs ih =>
    rw [opened, printedUnder, List.map_append, settings_openedIn h, ih (h.call c)]

/-- **The openers read are those printed and those that wait**, each with the settings of its
reading, as long as the settings do not change under what waits. -/
theorem printedUnder_append_replicate {f : Formatter} (hf : f.HoldsProper) {cs : List Call}
    (h : f.ChangesWhenIdle cs) :
    f.printedUnder cs ++
        List.replicate (openers (f.calls cs).2.printer.heldLexemes) (f.calls cs).2.settings =
      List.replicate (openers f.printer.heldLexemes) f.settings ++ f.readUnder cs := by
  induction cs generalizing f with
  | nil => simp [printedUnder, readUnder]
  | cons c cs ih =>
    obtain ⟨hc, hcs⟩ := h
    calc f.printedUnder (c :: cs) ++ _
        = List.replicate (openers (lexemesOf (f.call c).1)) f.settings ++
            ((f.call c).2.printedUnder cs ++ List.replicate
              (openers ((f.call c).2.calls cs).2.printer.heldLexemes)
              ((f.call c).2.calls cs).2.settings) := by simp [printedUnder]
      _ = List.replicate (openers (lexemesOf (f.call c).1) +
            openers (f.call c).2.printer.heldLexemes) f.settings ++
              (f.call c).2.readUnder cs := by
          rw [ih (hf.call c) hcs, replicate_heldLexemes hc, ← List.append_assoc,
            List.replicate_add]
      _ = _ := by
          rw [openers_call hf, List.replicate_add, List.append_assoc]
          rfl

end Formatter

/-- **A list is printed under the settings in force when its opener is printed**, also at the end of
the text. If the settings change only while nothing is held back, these are the settings that the
opener was read under, for every list that has been opened, and those are all lists once nothing is
held back any more. -/
theorem opened_under_settings (s : Settings) (cs : List Call) :
    let f := Formatter.ofSettings s
    (f.opened cs).map OpenList.settings = f.printedUnder cs ∧
      (f.ChangesWhenIdle cs →
        (f.opened cs).map OpenList.settings <+: f.readUnder cs ∧
          ((f.calls cs).2.printer.held = none →
            (f.opened cs).map OpenList.settings = f.readUnder cs)) := by
  intro f
  have hf : f.HoldsProper := fun l hl => absurd hl List.not_mem_nil
  have hopened := Formatter.settings_opened hf cs
  refine ⟨hopened, fun h => ?_⟩
  have hall : f.printedUnder cs ++ _ = f.readUnder cs :=
    Formatter.printedUnder_append_replicate hf h
  rw [hopened]
  refine ⟨⟨_, hall⟩, fun hnone => ?_⟩
  rw [← hall]
  simp [Printer.heldLexemes, hnone]

/-- Settings under which lists headed by `c` are compact. -/
def packingC : Settings := { (default : Settings) with compact := .ofList [['c']] (by simp) }

/-- The same settings with only one atom on a line of a normal list. -/
def packingCStacked : Settings :=
  { packingC with wrapThreshold := 1, wrapThreshold_pos := Nat.one_pos }

/-- One text is read, then the settings change, and then another text is read. -/
def changeBetween (before after : List Char) : List Event :=
  before.map .read ++ .assign packingCStacked :: after.map .read

/-- The settings change before `(d a b` is read inside `(c x …`, and the text ends there. -/
def changeWhileIdle : List Call :=
  (changeBetween "(c x ".toList "(d a b".toList).map .event ++ [.finish]

/-- The inner list waits until the text ends, and is printed under the settings that its opener was
read under. -/
theorem opened_under_settings_changeWhileIdle :
    (Formatter.ofSettings packingC).ChangesWhenIdle changeWhileIdle ∧
      ((Formatter.ofSettings packingC).opened changeWhileIdle).map OpenList.settings =
        (Formatter.ofSettings packingC).readUnder changeWhileIdle ∧
      (Formatter.ofSettings packingC).readUnder changeWhileIdle = [packingC, packingCStacked] := by
  have hidle : (Formatter.ofSettings packingC).ChangesWhenIdle changeWhileIdle := by
    decide +kernel
  have hnone : ((Formatter.ofSettings packingC).calls changeWhileIdle).2.printer.held = none := by
    decide +kernel
  refine ⟨hidle, ((opened_under_settings packingC changeWhileIdle).2 hidle).2 hnone, ?_⟩
  decide +kernel

/-- While the opener of `(d a b)` waits inside `(c x …`, the settings change. -/
def changeWhileHeld : List Event := changeBetween "(c x (".toList "d a b)".toList

/-- **A list that waits is printed under later settings** than those it was read under. -/
theorem opened_under_later_settings :
    ¬ ∀ (s : Settings) (es : List Event),
      ((Formatter.ofSettings s).opened (es.map .event)).map OpenList.settings <+:
        (Formatter.ofSettings s).readUnder (es.map .event) := by
  intro h
  have hopened : ((Formatter.ofSettings packingC).opened (changeWhileHeld.map .event)).map
      OpenList.settings = [packingC, packingCStacked] := by decide +kernel
  have hread : (Formatter.ofSettings packingC).readUnder (changeWhileHeld.map .event) =
      [packingC, packingC] := by decide +kernel
  have hpre := h packingC changeWhileHeld
  rw [hopened, hread] at hpre
  have heq : packingCStacked = packingC := by simpa using hpre.eq_of_length rfl
  exact absurd (congrArg Settings.wrapThreshold heq) (by decide)

end SExprReflow
