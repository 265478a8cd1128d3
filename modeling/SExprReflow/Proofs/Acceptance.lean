import Mathlib.Data.List.Nodup
import Mathlib.Data.List.Sort
import SExprReflow.Proofs.Moves

/-!
# Which values are accepted as settings

A change of settings gives values of any kind. Each check accepts the values that stand for
something, and gives back what they stand for: `checkPositive` the positive integers,
`checkIndentChar` a space and a tab, `checkNewHeads` a collection of texts (`Value.Offers`). So a
change is accepted exactly if all its values are (`Change.Acceptable`), and what comes of it holds
these values and is as before in everything else (`Change.Gives`).

A `Front` is a session with a second copy of the settings, which changes start from. The two copies
never differ.
-/

namespace SExprReflow

theorem bind_eq_ok_iff {ε α β : Type} {x : Except ε α} {f : α → Except ε β} {b : β} :
    x >>= f = .ok b ↔ ∃ a, x = .ok a ∧ f a = .ok b := by
  cases x with
  | ok a => simp [bind, Except.bind]
  | error e => simp [bind, Except.bind]

/-! ## Heads -/

theorem Precedes.irrefl (s : List Char) : ¬ Precedes s s := by
  induction s with
  | nil => exact id
  | cons c cs ih =>
    rintro (hlt | ⟨-, hcs⟩)
    · exact Nat.lt_irrefl _ hlt
    · exact ih hcs

instance : Std.Irrefl Precedes := ⟨Precedes.irrefl⟩

instance : Std.Antisymm Precedes where
  antisymm s _ hst hts := absurd (hst.trans hts) (Precedes.irrefl s)

/-- Sets with the same members are the same. -/
theorem Heads.ext_mem {s t : Heads} (h : ∀ x, x ∈ s ↔ x ∈ t) : s = t := by
  obtain ⟨xs, hxs, _⟩ := s
  obtain ⟨ys, hys, _⟩ := t
  obtain rfl : xs = ys := hxs.eq_of_mem_iff hys h
  rfl

theorem Heads.toList_eq_nil_iff {s : Heads} : s.toList = [] ↔ ∀ x, x ∉ s :=
  List.eq_nil_iff_forall_not_mem

/-- Texts as values. -/
def valuesOf (hs : List (List Char)) : List Value := hs.map fun h => .text (String.ofList h)

/-- A set of heads as a value. -/
def Heads.value (s : Heads) : Value := .list (valuesOf s.toList)

/-! ## Checks of single values -/

/-- An indentation character as a value. -/
def IndentChar.value (c : IndentChar) : Value := .text (String.singleton c.toChar)

theorem checkIndentChar_eq_ok_iff {v : Value} {c : IndentChar} :
    checkIndentChar v = .ok c ↔ v = c.value := by
  constructor
  · intro h
    unfold checkIndentChar at h
    split at h
    · obtain rfl := Except.ok.inj h
      rfl
    · obtain rfl := Except.ok.inj h
      rfl
    · exact absurd h (by simp)
  · rintro rfl
    cases c <;> rfl

theorem checkPositive_eq_ok_iff {f : NumberField} {v : Value} {n : Positive} :
    checkPositive f v = .ok n ↔ v = .int n.1 := by
  obtain ⟨n, hn⟩ := n
  constructor
  · intro h
    unfold checkPositive at h
    split at h
    · next m =>
      split at h
      · next hm =>
        obtain rfl : m.toNat = n := congrArg Subtype.val (Except.ok.inj h)
        have hcast : (m.toNat : Int) = m := Int.toNat_of_nonneg (by omega)
        rw [hcast]
      · exact absurd h (by simp)
    · exact absurd h (by simp)
  · rintro rfl
    simp [checkPositive, hn]

theorem checkEntries_eq_ok_iff {f : HeadsField} {vs : List Value} {hs : HeadList} :
    checkEntries f vs = .ok hs ↔ vs = valuesOf hs.1 := by
  obtain ⟨hs, hne⟩ := hs
  constructor
  · intro h
    fun_induction checkEntries f vs generalizing hs with
    | case1 =>
      obtain rfl : [] = hs := congrArg Subtype.val (Except.ok.inj h)
      rfl
    | case2 => exact absurd h (by simp)
    | case3 s vs hs' ih =>
      obtain ⟨⟨ts, hts⟩, ht, heq⟩ := bind_eq_ok_iff.mp h
      obtain rfl : s.toList :: ts = hs := congrArg Subtype.val (Except.ok.inj heq)
      rw [ih ts hts ht]
      simp [valuesOf]
    | case4 => exact absurd h (by simp)
  · rintro rfl
    induction hs with
    | nil => rfl
    | cons h hs ih =>
      obtain ⟨hh, hrest⟩ := List.forall_mem_cons.mp hne
      have htl : valuesOf (h :: hs) = .text (String.ofList h) :: valuesOf hs := rfl
      have hr := ih hrest
      simp only at hr
      simp [htl, checkEntries, hh, hr, bind, Except.bind, pure, Except.pure]

/-- A text that is there twice is there more than once. -/
theorem HeadList.duplicates_eq_nil_iff {hs : HeadList} : hs.duplicates = [] ↔ hs.1.Nodup := by
  rw [HeadList.duplicates, Heads.toList_eq_nil_iff, List.nodup_iff_count_le_one]
  constructor
  · intro h x
    have hx := h x
    rw [Heads.mem_ofList, List.mem_filter] at hx
    by_cases hmem : x ∈ hs.1
    · have hle : ¬ 1 < hs.1.count x := fun hlt => hx ⟨hmem, by simpa using hlt⟩
      omega
    · have hzero : hs.1.count x = 0 := List.count_eq_zero.mpr hmem
      omega
  · intro h x hx
    rw [Heads.mem_ofList, List.mem_filter] at hx
    have hlt : 1 < hs.1.count x := by simpa using hx.2
    have hle := h x
    omega

/-- The value is a collection, and not itself a text, with the given texts in it: at least one of
them, none empty and none twice. -/
structure Value.Offers (v : Value) (hs : List (List Char)) : Prop where
  not_text : ∀ s, v ≠ .text s
  items?_eq : v.items? = some (valuesOf hs)
  ne_nil : hs ≠ []
  heads_ne_nil : ∀ h ∈ hs, h ≠ []
  nodup : hs.Nodup

theorem checkNewHeads_eq_ok_iff {f : HeadsField} {v : Value} {heads : Heads} :
    checkNewHeads f v = .ok heads ↔ ∃ hs, v.Offers hs ∧ ∀ h, h ∈ heads ↔ h ∈ hs := by
  constructor
  · intro h
    unfold checkNewHeads at h
    split at h
    · exact absurd h (by simp)
    · next v hv =>
      split at h
      · exact absurd h (by simp)
      · exact absurd h (by simp)
      · next vs hne hvs =>
        obtain ⟨hs, hentries, hrest⟩ := bind_eq_ok_iff.mp h
        rw [checkEntries_eq_ok_iff] at hentries
        split at hrest
        · next hdup =>
          obtain rfl := Except.ok.inj hrest
          refine ⟨hs.1, ⟨hv, by rw [hvs, hentries], ?_, hs.2, ?_⟩, fun h => Heads.mem_ofList⟩
          · intro hnil
            rw [hnil] at hentries
            exact hne hentries
          · exact HeadList.duplicates_eq_nil_iff.mp hdup
        · exact absurd hrest (by simp)
  · rintro ⟨hs, hv, hmem⟩
    obtain rfl : heads = .ofList hs hv.heads_ne_nil :=
      Heads.ext_mem fun h => by rw [hmem, Heads.mem_ofList]
    have hentries : checkEntries f (valuesOf hs) = .ok ⟨hs, hv.heads_ne_nil⟩ :=
      checkEntries_eq_ok_iff.mpr rfl
    have hdup : HeadList.duplicates ⟨hs, hv.heads_ne_nil⟩ = [] :=
      HeadList.duplicates_eq_nil_iff.mpr hv.nodup
    have hitems := hv.items?_eq
    unfold checkNewHeads
    split
    · next s => exact absurd rfl (hv.not_text s)
    · split
      · next hnone => exact absurd (hnone.symm.trans hitems) (by simp)
      · next hnil =>
        have hnil' : valuesOf hs = [] := (Option.some.inj (hnil.symm.trans hitems)).symm
        exact absurd (List.map_eq_nil_iff.mp hnil') hv.ne_nil
      · next vs _ hvs =>
        obtain rfl : vs = valuesOf hs := Option.some.inj (hvs.symm.trans hitems)
        exact bind_eq_ok_iff.mpr ⟨_, hentries, by rw [if_pos hdup]; rfl⟩

/-! ## Settings as values -/

theorem checkHeads_value (f : HeadsField) (s : Heads) : checkHeads f s.value = .ok s := by
  have hentries : checkEntries f (valuesOf s.toList) = .ok ⟨s.toList, s.ne_nil⟩ :=
    checkEntries_eq_ok_iff.mpr rfl
  have hset : Heads.ofList s.toList s.ne_nil = s := Heads.ext_mem fun h => Heads.mem_ofList
  have hitems : s.value.items? = some (valuesOf s.toList) := rfl
  unfold checkHeads
  rw [hitems]
  exact bind_eq_ok_iff.mpr ⟨_, hentries, congrArg Except.ok hset⟩

/-- The values that settings can be built from. -/
def Settings.draft (s : Settings) : Draft where
  indentChar := s.indentChar.value
  indentSize := .int s.indentSize
  wrapThreshold := .int s.wrapThreshold
  columnLimit := .int s.columnLimit
  compact := s.compact.value
  shortform := s.shortform.value

/-- **Settings are valid**: built anew from their own values, they pass every check. -/
theorem Settings.settings_draft (s : Settings) : s.draft.settings = .ok s := by
  have hsize : checkPositive .indentSize s.draft.indentSize = .ok ⟨s.indentSize, s.indentSize_pos⟩ :=
    checkPositive_eq_ok_iff.mpr rfl
  have hwrap : checkPositive .wrapThreshold s.draft.wrapThreshold =
      .ok ⟨s.wrapThreshold, s.wrapThreshold_pos⟩ := checkPositive_eq_ok_iff.mpr rfl
  have hlimit : checkPositive .columnLimit s.draft.columnLimit =
      .ok ⟨s.columnLimit, s.columnLimit_pos⟩ := checkPositive_eq_ok_iff.mpr rfl
  unfold Draft.settings
  rw [checkIndentChar_eq_ok_iff.mpr (rfl : s.draft.indentChar = s.indentChar.value), hsize, hwrap,
    hlimit, show s.draft.compact = s.compact.value from rfl, checkHeads_value,
    show s.draft.shortform = s.shortform.value from rfl, checkHeads_value]
  rfl

/-! ## Changes -/

/-- The value is an integer above zero. -/
def Value.IsPositive (v : Value) : Prop := ∃ n : Int, 0 < n ∧ v = .int n

theorem Value.isPositive_int {n : Nat} (hn : 0 < n) : (Value.int n).IsPositive :=
  ⟨n, by omega, rfl⟩

theorem Value.IsPositive.exists_eq {v : Value} (h : v.IsPositive) : ∃ n : Positive, v = .int n.1 := by
  obtain ⟨n, hn, rfl⟩ := h
  refine ⟨⟨n.toNat, by omega⟩, ?_⟩
  have hcast : (n.toNat : Int) = n := Int.toNat_of_nonneg (by omega)
  rw [hcast]

namespace Change

/-- All values of the change are such as it takes. -/
def Acceptable : Change → Prop
  | lines indentChar indentSize wrapThreshold =>
    (indentChar = .text " " ∨ indentChar = .text "\t") ∧ indentSize.IsPositive ∧
      wrapThreshold.IsPositive
  | compact heads columnLimit => columnLimit.IsPositive ∧ ∃ hs, heads.Offers hs
  | shortform heads => ∃ hs, heads.Offers hs

/-- The second settings hold the values of the change, and are the first ones in everything else. -/
def Gives (s s' : Settings) : Change → Prop
  | lines indentChar indentSize wrapThreshold =>
    indentChar = s'.indentChar.value ∧ indentSize = .int s'.indentSize ∧
      wrapThreshold = .int s'.wrapThreshold ∧
      s'.columnLimit = s.columnLimit ∧ s'.compact = s.compact ∧ s'.shortform = s.shortform
  | compact heads columnLimit =>
    columnLimit = .int s'.columnLimit ∧ (∃ hs, heads.Offers hs ∧ ∀ h, h ∈ s'.compact ↔ h ∈ hs) ∧
      s'.indentChar = s.indentChar ∧ s'.indentSize = s.indentSize ∧
      s'.wrapThreshold = s.wrapThreshold ∧ s'.shortform = s.shortform
  | shortform heads =>
    (∃ hs, heads.Offers hs ∧ ∀ h, h ∈ s'.shortform ↔ h ∈ hs) ∧
      s'.indentChar = s.indentChar ∧ s'.indentSize = s.indentSize ∧
      s'.wrapThreshold = s.wrapThreshold ∧ s'.columnLimit = s.columnLimit ∧ s'.compact = s.compact

/-- A change comes to the settings that it gives, and to no others. -/
theorem apply_eq_ok_iff {c : Change} {s s' : Settings} : c.apply s = .ok s' ↔ c.Gives s s' := by
  cases c with
  | lines indentChar indentSize wrapThreshold =>
    simp only [apply, bind_eq_ok_iff, checkIndentChar_eq_ok_iff, checkPositive_eq_ok_iff]
    constructor
    · rintro ⟨c, rfl, n, rfl, m, rfl, h⟩
      obtain rfl := Except.ok.inj h
      exact ⟨rfl, rfl, rfl, rfl, rfl, rfl⟩
    · obtain ⟨c, n, m, l, co, sh, hn, hm, hl⟩ := s'
      rintro ⟨rfl, rfl, rfl, rfl, rfl, rfl⟩
      exact ⟨c, rfl, ⟨n, hn⟩, rfl, ⟨m, hm⟩, rfl, rfl⟩
  | compact heads columnLimit =>
    simp only [apply, bind_eq_ok_iff, checkPositive_eq_ok_iff, checkNewHeads_eq_ok_iff]
    constructor
    · rintro ⟨n, rfl, hs, hoffers, h⟩
      obtain rfl := Except.ok.inj h
      exact ⟨rfl, hoffers, rfl, rfl, rfl, rfl⟩
    · obtain ⟨c, n, m, l, co, sh, hn, hm, hl⟩ := s'
      rintro ⟨rfl, hoffers, rfl, rfl, rfl, rfl⟩
      exact ⟨⟨l, hl⟩, rfl, co, hoffers, rfl⟩
  | shortform heads =>
    simp only [apply, bind_eq_ok_iff, checkNewHeads_eq_ok_iff]
    constructor
    · rintro ⟨hs, hoffers, h⟩
      obtain rfl := Except.ok.inj h
      exact ⟨hoffers, rfl, rfl, rfl, rfl, rfl⟩
    · obtain ⟨c, n, m, l, co, sh, hn, hm, hl⟩ := s'
      rintro ⟨hoffers, rfl, rfl, rfl, rfl, rfl⟩
      exact ⟨sh, hoffers, rfl⟩

/-- Whether a change is refused does not depend on the settings it is made to. -/
theorem exists_apply_eq_ok_iff {c : Change} {s : Settings} :
    (∃ s', c.apply s = .ok s') ↔ c.Acceptable := by
  simp only [apply_eq_ok_iff]
  cases c with
  | lines indentChar indentSize wrapThreshold =>
    constructor
    · rintro ⟨s', hchar, rfl, rfl, -⟩
      refine ⟨?_, Value.isPositive_int s'.indentSize_pos, Value.isPositive_int s'.wrapThreshold_pos⟩
      cases hc : s'.indentChar with
      | space => exact .inl (by rw [hchar, hc]; rfl)
      | tab => exact .inr (by rw [hchar, hc]; rfl)
    · rintro ⟨hchar, hsize, hwrap⟩
      obtain ⟨c, rfl⟩ : ∃ c : IndentChar, indentChar = c.value := by
        rcases hchar with rfl | rfl
        · exact ⟨.space, rfl⟩
        · exact ⟨.tab, rfl⟩
      obtain ⟨n, rfl⟩ := hsize.exists_eq
      obtain ⟨m, rfl⟩ := hwrap.exists_eq
      exact ⟨{ s with indentChar := c, indentSize := n.1, wrapThreshold := m.1,
                      indentSize_pos := n.2, wrapThreshold_pos := m.2 }, rfl, rfl, rfl, rfl, rfl, rfl⟩
  | compact heads columnLimit =>
    constructor
    · rintro ⟨s', rfl, ⟨hs, hoffers, -⟩, -⟩
      exact ⟨Value.isPositive_int s'.columnLimit_pos, hs, hoffers⟩
    · rintro ⟨hlimit, hs, hoffers⟩
      obtain ⟨n, rfl⟩ := hlimit.exists_eq
      exact ⟨{ s with compact := .ofList hs hoffers.heads_ne_nil, columnLimit := n.1,
                      columnLimit_pos := n.2 },
        rfl, ⟨hs, hoffers, fun h => Heads.mem_ofList⟩, rfl, rfl, rfl, rfl⟩
  | shortform heads =>
    constructor
    · rintro ⟨s', ⟨hs, hoffers, -⟩, -⟩
      exact ⟨hs, hoffers⟩
    · rintro ⟨hs, hoffers⟩
      exact ⟨{ s with shortform := .ofList hs hoffers.heads_ne_nil },
        ⟨hs, hoffers, fun h => Heads.mem_ofList⟩, rfl, rfl, rfl, rfl, rfl⟩

end Change

/-! ## Two copies of the settings -/

/-- A formatter in use. It keeps the settings a second time, for whoever asks for them. -/
structure Front where
  settings : Settings
  formatter : Formatter
  /-- What has been printed and not delivered. -/
  undelivered : List Piece := []

namespace Front

/-- A front at the start of a text. -/
def ofSettings (s : Settings) : Front := { settings := s, formatter := .ofSettings s }

/-- The session of a front. -/
def session (x : Front) : Session := { formatter := x.formatter, undelivered := x.undelivered }

/-- Replaces the settings, in one place after the other. -/
def assign (s : Settings) : ExceptT SettingsError (StateM Front) Unit := do
  modify fun x => { x with settings := s }
  modify fun x => { x with formatter := x.formatter.withSettings s }

/-- Changes the settings. If the change is refused, what has been done before it stays done. -/
def change (c : Change) : ExceptT SettingsError (StateM Front) Unit := do
  let x ← get
  let s ← MonadExcept.ofExcept (c.apply x.settings)
  assign s

/-- The front after a call. -/
def call [Memory] (x : Front) : Call → List Piece × Front
  | .event (.change c) => ([], (change c x).2)
  | .event (.assign s) => ([], (assign s x).2)
  | c =>
    let r := x.session.call c
    (r.1, { x with formatter := r.2.formatter, undelivered := r.2.undelivered })

/-- The front after calls. -/
def calls [Memory] (x : Front) (cs : List Call) : List Piece × Front := runAll call x cs

theorem change_of_ok {x : Front} {c : Change} {s : Settings} (h : c.apply x.settings = .ok s) :
    change c x = (.ok (), { x with settings := s, formatter := x.formatter.withSettings s }) := by
  show (do let s ← MonadExcept.ofExcept (c.apply x.settings); assign s :
    ExceptT SettingsError (StateM Front) Unit) x = _
  rw [h]
  rfl

theorem change_of_error {x : Front} {c : Change} {e : SettingsError}
    (h : c.apply x.settings = .error e) : change c x = (.error e, x) := by
  show (do let s ← MonadExcept.ofExcept (c.apply x.settings); assign s :
    ExceptT SettingsError (StateM Front) Unit) x = _
  rw [h]
  rfl

/-- The front does what the session does, and its two copies of the settings are the same. -/
structure StandsFor (x : Front) (y : Session) : Prop where
  session_eq : x.session = y.resume
  settings_eq : x.settings = x.formatter.settings

namespace StandsFor

variable {x : Front} {y : Session}

theorem call_eq [Memory] (h : x.StandsFor y) (c : Call) : y.call c = x.session.call c := by
  cases c with
  | event e => exact congrArg (·.handle e) h.session_eq.symm
  | finish => exact congrArg Session.finish h.session_eq.symm

/-- Reading and ending the text are left to the session. -/
theorem call_of_prints [Memory] (h : x.StandsFor y) {c : Call}
    (hc : ∀ e, c = .event e → e.char? ≠ none) :
    (x.call c).1 = (y.call c).1 ∧ (x.call c).2.StandsFor (y.call c).2 := by
  have hx : x.call c = ((x.session.call c).1, { x with
      formatter := (x.session.call c).2.formatter
      undelivered := (x.session.call c).2.undelivered }) := by
    cases c with
    | event e =>
      cases e with
      | read c => rfl
      | assign s => exact absurd rfl (hc _ rfl)
      | change c => exact absurd rfl (hc _ rfl)
    | finish => rfl
  rw [hx, h.call_eq]
  refine ⟨rfl, rfl, ?_⟩
  show x.settings = (x.session.call c).2.formatter.settings
  rw [h.settings_eq, x.session.settings_call hc]
  rfl

/-- **A call keeps the two copies the same.** A change starts from one of them, a session from the
other. -/
theorem call [Memory] (h : x.StandsFor y) (c : Call) :
    (x.call c).1 = (y.call c).1 ∧ (x.call c).2.StandsFor (y.call c).2 := by
  cases c with
  | event e =>
    cases e with
    | read c => exact h.call_of_prints (by simp [Event.char?])
    | assign s =>
      rw [h.call_eq]
      exact ⟨rfl, rfl, rfl⟩
    | change c =>
      have hx : x.call (.event (.change c)) = ([], (change c x).2) := rfl
      have hy : x.session.call (.event (.change c)) =
          ([], { x.session with formatter := (x.formatter.handle (.change c)).2 }) := rfl
      rw [h.call_eq, hx, hy, Formatter.handle, Formatter.change, ← h.settings_eq]
      cases hc : c.apply x.settings with
      | ok s =>
        rw [change_of_ok hc]
        exact ⟨rfl, rfl, rfl⟩
      | error e =>
        rw [change_of_error hc]
        exact ⟨rfl, rfl, h.settings_eq⟩
  | finish => exact h.call_of_prints (by simp)

theorem calls [Memory] (h : x.StandsFor y) (cs : List Call) :
    (x.calls cs).1 = (y.calls cs).1 ∧ (x.calls cs).2.StandsFor (y.calls cs).2 := by
  induction cs generalizing x y with
  | nil => exact ⟨rfl, h⟩
  | cons c cs ih =>
    obtain ⟨hpieces, hcall⟩ := h.call c
    obtain ⟨hrest, hcalls⟩ := ih hcall
    rw [Session.calls_cons, Front.calls, runAll_cons, ← Front.calls, hpieces, hrest]
    exact ⟨rfl, hcalls⟩

end StandsFor

end Front

/-- **Changes of settings are exact, and they are made as a whole or not at all.** A change is
accepted exactly if its values are such as it takes. It then comes to valid settings, which hold these
values and are as before in everything else. Whatever calls there have been, the two copies of the
settings are the same, and valid; a change that is accepted replaces both of them and nothing else,
and one that is refused leaves everything as it is. -/
theorem changes_exact_and_atomic [Memory] (s : Settings) (c : Change) :
    ((∃ s', c.apply s = .ok s') ↔ c.Acceptable) ∧
      (∀ s', c.apply s = .ok s' → c.Gives s s' ∧ s'.draft.settings = .ok s') ∧
      ∀ cs : List Call,
        let r := (Front.ofSettings s).calls cs
        let q := (Session.ofSettings s).calls cs
        r.1 = q.1 ∧ r.2.session = q.2.resume ∧
          r.2.settings = r.2.formatter.settings ∧ r.2.settings.draft.settings = .ok r.2.settings ∧
          (c.Acceptable → ∃ s', c.Gives r.2.settings s' ∧
            Front.change c r.2 =
              (.ok (), { r.2 with settings := s', formatter := r.2.formatter.withSettings s' })) ∧
          (¬ c.Acceptable → ∃ e, Front.change c r.2 = (.error e, r.2)) := by
  refine ⟨Change.exists_apply_eq_ok_iff, ?_, ?_⟩
  · intro s' h
    exact ⟨Change.apply_eq_ok_iff.mp h, s'.settings_draft⟩
  · intro cs r q
    have hstart : (Front.ofSettings s).StandsFor (.ofSettings s) := ⟨rfl, rfl⟩
    obtain ⟨hpieces, hstands⟩ := hstart.calls cs
    refine ⟨hpieces, hstands.session_eq, hstands.settings_eq, r.2.settings.settings_draft, ?_, ?_⟩
    · intro hc
      obtain ⟨s', hs'⟩ := (Change.exists_apply_eq_ok_iff (s := r.2.settings)).mpr hc
      exact ⟨s', Change.apply_eq_ok_iff.mp hs', Front.change_of_ok hs'⟩
    · intro hc
      cases happly : c.apply r.2.settings with
      | ok s' => exact absurd (Change.exists_apply_eq_ok_iff.mp ⟨s', happly⟩) hc
      | error e => exact ⟨e, Front.change_of_error happly⟩

end SExprReflow
