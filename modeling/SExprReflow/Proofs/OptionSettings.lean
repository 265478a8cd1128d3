import SExprReflow.Options
import SExprReflow.Proofs.Acceptance

/-!
# Which options are accepted

Options come to settings in steps: the numbers are checked first, then the profile is looked up, or
the heads are replaced one kind after the other, where a kind without any heads is passed over.
`Options.Yields` says what comes of all that for options that are integers and texts, without
speaking of steps. Everything else follows from it: which options are refused, that a profile
replaces the heads given beside it, and when there is a warning.
-/

namespace SExprReflow

/-! ## Texts as heads -/

theorem mem_map_toList_iff {ts : List String} {h : List Char} :
    h ∈ ts.map String.toList ↔ String.ofList h ∈ ts := by
  constructor
  · intro hm
    obtain ⟨t, ht, rfl⟩ := List.mem_map.mp hm
    rwa [String.ofList_toList]
  · intro hm
    exact List.mem_map.mpr ⟨_, hm, String.toList_ofList⟩

/-- The texts can be heads together: none is empty, and none is there twice. -/
def ProperHeads (ts : List String) : Prop := "" ∉ ts ∧ ts.Nodup

theorem properHeads_nil : ProperHeads [] := ⟨by simp, List.nodup_nil⟩

theorem ProperHeads.ne_nil {ts : List String} (h : ProperHeads ts) :
    ∀ x ∈ ts.map String.toList, x ≠ [] := by
  intro x hx hnil
  rw [hnil, mem_map_toList_iff] at hx
  exact h.1 hx

namespace Heads

/-- The set holds the given texts and no others. -/
def Holds (s : Heads) (ts : List String) : Prop := ∀ h, h ∈ s ↔ String.ofList h ∈ ts

theorem holds_ofList {ts : List String} (h : ProperHeads ts) :
    (ofList (ts.map String.toList) h.ne_nil).Holds ts :=
  fun _ => mem_ofList.trans mem_map_toList_iff

theorem holds_nil_iff {s : Heads} : s.Holds [] ↔ s = ∅ := by
  constructor
  · intro h
    exact ext_mem fun x => by simp [h x]
  · rintro rfl x
    simp

theorem holds_texts (s : Heads) : s.Holds s.texts := by
  intro h
  constructor
  · intro hm
    exact List.mem_map_of_mem hm
  · intro hm
    obtain ⟨x, hx, heq⟩ := List.mem_map.mp hm
    rwa [String.ofList_injective heq] at hx

theorem properHeads_texts (s : Heads) : ProperHeads s.texts := by
  constructor
  · intro hm
    obtain ⟨x, hx, heq⟩ := List.mem_map.mp hm
    exact s.ne_nil x hx (String.ofList_injective heq)
  · exact s.sorted.nodup.map fun _ _ => String.ofList_injective

end Heads

theorem valuesOf_map_toList (ts : List String) : valuesOf (ts.map String.toList) = ts.map .text := by
  simp [valuesOf]

theorem valuesOf_injective {hs hs' : List (List Char)} (h : valuesOf hs = valuesOf hs') : hs = hs' := by
  refine List.map_injective_iff.mpr ?_ h
  intro x y hxy
  exact String.ofList_injective (Value.text.inj hxy)

/-- A list of texts offers them as heads if there are any, and they can be heads together. -/
theorem offers_texts_iff {ts : List String} {hs : List (List Char)} :
    (Value.list (ts.map .text)).Offers hs ↔
      ts ≠ [] ∧ ProperHeads ts ∧ hs = ts.map String.toList := by
  have hitems : (Value.list (ts.map .text)).items? = some (valuesOf (ts.map String.toList)) := by
    rw [valuesOf_map_toList]
    rfl
  constructor
  · intro h
    obtain rfl : ts.map String.toList = hs :=
      valuesOf_injective (Option.some.inj (hitems.symm.trans h.items?_eq))
    refine ⟨fun hnil => h.ne_nil (by rw [hnil]; rfl), ⟨?_, h.nodup.of_map _⟩, rfl⟩
    intro hm
    exact h.heads_ne_nil _ (List.mem_map_of_mem hm) rfl
  · rintro ⟨hne, hproper, rfl⟩
    refine ⟨by simp, hitems, by simpa using hne, hproper.ne_nil, ?_⟩
    exact hproper.2.map fun _ _ => String.toList_inj.mp

theorem exists_offers_iff {ts : List String} {heads : Heads} :
    (∃ hs, (Value.list (ts.map .text)).Offers hs ∧ ∀ h, h ∈ heads ↔ h ∈ hs) ↔
      ts ≠ [] ∧ ProperHeads ts ∧ heads.Holds ts := by
  simp only [offers_texts_iff]
  constructor
  · rintro ⟨hs, ⟨hne, hproper, rfl⟩, hheads⟩
    exact ⟨hne, hproper, fun h => (hheads h).trans mem_map_toList_iff⟩
  · rintro ⟨hne, hproper, hholds⟩
    exact ⟨_, ⟨hne, hproper, rfl⟩, fun h => (hholds h).trans mem_map_toList_iff.symm⟩

/-! ## What options come to -/

namespace Options

/-- Options that are integers and texts. -/
def ofTexts (wrapThreshold columnLimit : Int) (compact shortform : List String)
    (profile : Option String) : Options where
  wrapThreshold := .int wrapThreshold
  columnLimit := .int columnLimit
  compact := compact.map .text
  shortform := shortform.map .text
  profile := profile

end Options

namespace Settings

/-- The settings have the given numbers, and the indentation that they have by default. -/
structure HasNumbers (s : Settings) (wrapThreshold columnLimit : Int) : Prop where
  indentChar_eq : s.indentChar = (default : Settings).indentChar
  indentSize_eq : s.indentSize = (default : Settings).indentSize
  wrapThreshold_eq : s.wrapThreshold = wrapThreshold
  columnLimit_eq : s.columnLimit = columnLimit

theorem HasNumbers.pos {s : Settings} {w k : Int} (h : s.HasNumbers w k) : 0 < w ∧ 0 < k := by
  have hw := s.wrapThreshold_pos
  have hk := s.columnLimit_pos
  have hweq := h.wrapThreshold_eq
  have hkeq := h.columnLimit_eq
  omega

theorem exists_hasNumbers {w k : Int} (hw : 0 < w) (hk : 0 < k) (co sh : Heads) :
    ∃ s : Settings, s.HasNumbers w k ∧ s.compact = co ∧ s.shortform = sh := by
  refine ⟨{ wrapThreshold := w.toNat, columnLimit := k.toNat, compact := co, shortform := sh
            wrapThreshold_pos := by omega, columnLimit_pos := by omega }, ⟨rfl, rfl, ?_, ?_⟩, rfl, rfl⟩
  · exact Int.toNat_of_nonneg (by omega)
  · exact Int.toNat_of_nonneg (by omega)

/-- Two settings with the same numbers differ in their heads at most. -/
theorem HasNumbers.ext {s s' : Settings} {w k : Int} (h : s.HasNumbers w k) (h' : s'.HasNumbers w k)
    (hc : s.compact = s'.compact) (hs : s.shortform = s'.shortform) : s = s' := by
  have hw : s.wrapThreshold = s'.wrapThreshold := by
    have heq := h.wrapThreshold_eq.trans h'.wrapThreshold_eq.symm
    omega
  have hk : s.columnLimit = s'.columnLimit := by
    have heq := h.columnLimit_eq.trans h'.columnLimit_eq.symm
    omega
  have hchar := h.indentChar_eq.trans h'.indentChar_eq.symm
  have hsize := h.indentSize_eq.trans h'.indentSize_eq.symm
  cases s
  cases s'
  simp_all

end Settings

theorem Profile.name_injective {q q' : Profile} (h : q.name = q'.name) : q = q' := by
  cases q <;> cases q' <;> first | rfl | exact absurd h (by decide)

theorem Profile.ofName?_eq_some_iff {n : String} {q : Profile} : ofName? n = some q ↔ q.name = n := by
  constructor
  · intro h
    simpa using List.find?_some h
  · rintro rfl
    cases q <;> rfl

namespace Options

variable {w k : Int} {cl sf : List String} {p : Option String} {s s' : Settings} {ws : List Warning}

/-- Numbers alone leave all heads out. -/
theorem numbers_eq_ok_iff :
    (ofTexts w k cl sf p).numbers = .ok s ↔ s.HasNumbers w k ∧ s.compact = ∅ ∧ s.shortform = ∅ := by
  have htab : checkIndentChar (.text "\t") = .ok .tab := rfl
  have hone : checkPositive .indentSize (.int 1) = .ok ⟨1, by decide⟩ := rfl
  have hempty : ∀ f, checkHeads f (.list []) = .ok ∅ := fun f => rfl
  simp only [numbers, ofTexts, Draft.settings, htab, hone, hempty, bind_eq_ok_iff,
    checkPositive_eq_ok_iff, Value.int.injEq, Except.ok.injEq, exists_eq_left']
  constructor
  · rintro ⟨n, rfl, m, rfl, h⟩
    obtain rfl := Except.ok.inj h
    exact ⟨⟨rfl, rfl, rfl, rfl⟩, rfl, rfl⟩
  · obtain ⟨c, z, n, m, co, sh, hz, hn, hm⟩ := s
    rintro ⟨⟨rfl, rfl, rfl, rfl⟩, rfl, rfl⟩
    exact ⟨⟨n, hn⟩, rfl, ⟨m, hm⟩, rfl, rfl⟩

/-- Replacing the heads of compact lists sets the column limit a second time, to the same number. -/
theorem withCompact_eq_ok_iff (hn : s.HasNumbers w k) (hc : s.compact = ∅) :
    (if (cl.map Value.text).isEmpty then .ok s
      else (Change.compact (.list (cl.map .text)) (.int k)).apply s) = .ok s' ↔
      ProperHeads cl ∧ s'.HasNumbers w k ∧ s'.compact.Holds cl ∧ s'.shortform = s.shortform := by
  cases cl with
  | nil =>
    simp only [List.map_nil, List.isEmpty_nil, if_true, Except.ok.injEq, Heads.holds_nil_iff]
    constructor
    · rintro rfl
      exact ⟨properHeads_nil, hn, hc, rfl⟩
    · rintro ⟨-, hn', hc', hs'⟩
      exact hn.ext hn' (hc.trans hc'.symm) hs'.symm
  | cons t ts =>
    rw [if_neg (by simp), Change.apply_eq_ok_iff]
    simp only [Change.Gives, exists_offers_iff]
    constructor
    · rintro ⟨hk, ⟨-, hproper, hholds⟩, hchar, hsize, hwrap, hshort⟩
      refine ⟨hproper, ⟨hchar.trans hn.indentChar_eq, hsize.trans hn.indentSize_eq, ?_, ?_⟩, hholds,
        hshort⟩
      · rw [hwrap]
        exact hn.wrapThreshold_eq
      · exact (Value.int.inj hk).symm
    · rintro ⟨hproper, hn', hholds, hshort⟩
      refine ⟨by rw [hn'.columnLimit_eq], ⟨by simp, hproper, hholds⟩,
        hn'.indentChar_eq.trans hn.indentChar_eq.symm, hn'.indentSize_eq.trans hn.indentSize_eq.symm,
        ?_, hshort⟩
      have heq := hn'.wrapThreshold_eq.trans hn.wrapThreshold_eq.symm
      omega

theorem withShortform_eq_ok_iff (hn : s.HasNumbers w k) (hs : s.shortform = ∅) :
    (if (sf.map Value.text).isEmpty then .ok s
      else (Change.shortform (.list (sf.map .text))).apply s) = .ok s' ↔
      ProperHeads sf ∧ s'.HasNumbers w k ∧ s'.shortform.Holds sf ∧ s'.compact = s.compact := by
  cases sf with
  | nil =>
    simp only [List.map_nil, List.isEmpty_nil, if_true, Except.ok.injEq, Heads.holds_nil_iff]
    constructor
    · rintro rfl
      exact ⟨properHeads_nil, hn, hs, rfl⟩
    · rintro ⟨-, hn', hs', hc'⟩
      exact hn.ext hn' hc'.symm (hs.trans hs'.symm)
  | cons t ts =>
    rw [if_neg (by simp), Change.apply_eq_ok_iff]
    simp only [Change.Gives, exists_offers_iff]
    constructor
    · rintro ⟨⟨-, hproper, hholds⟩, hchar, hsize, hwrap, hlimit, hcompact⟩
      refine ⟨hproper, ⟨hchar.trans hn.indentChar_eq, hsize.trans hn.indentSize_eq, ?_, ?_⟩, hholds,
        hcompact⟩
      · rw [hwrap]
        exact hn.wrapThreshold_eq
      · rw [hlimit]
        exact hn.columnLimit_eq
    · rintro ⟨hproper, hn', hholds, hcompact⟩
      have hw := hn'.wrapThreshold_eq.trans hn.wrapThreshold_eq.symm
      have hk := hn'.columnLimit_eq.trans hn.columnLimit_eq.symm
      exact ⟨⟨by simp, hproper, hholds⟩, hn'.indentChar_eq.trans hn.indentChar_eq.symm,
        hn'.indentSize_eq.trans hn.indentSize_eq.symm, by omega, by omega, hcompact⟩

/-- The heads of compact lists come first, then those of shortform lists. -/
theorem withHeads_eq (o : Options) (s : Settings) :
    o.withHeads s =
      (if o.compact.isEmpty then .ok s
        else (Change.compact (.list o.compact) o.columnLimit).apply s) >>= fun s =>
      if o.shortform.isEmpty then .ok s else (Change.shortform (.list o.shortform)).apply s := by
  unfold withHeads
  cases o.compact.isEmpty <;> rfl

theorem withHeads_eq_ok_iff (hn : s.HasNumbers w k) (hc : s.compact = ∅) (hs : s.shortform = ∅) :
    (ofTexts w k cl sf p).withHeads s = .ok s' ↔
      s'.HasNumbers w k ∧ ProperHeads cl ∧ ProperHeads sf ∧ s'.compact.Holds cl ∧
        s'.shortform.Holds sf := by
  rw [withHeads_eq, bind_eq_ok_iff]
  constructor
  · rintro ⟨s₁, h₁, h₂⟩
    obtain ⟨hcl, hn₁, hcompact, hshort⟩ := (withCompact_eq_ok_iff hn hc).mp h₁
    obtain ⟨hsf, hn', hshort', hsame⟩ := (withShortform_eq_ok_iff hn₁ (hshort.trans hs)).mp h₂
    exact ⟨hn', hcl, hsf, hsame ▸ hcompact, hshort'⟩
  · rintro ⟨hn', hcl, hsf, hcompact, hshort⟩
    -- between the steps, the result is without its shortform heads
    have hn₁ : ({ s' with shortform := ∅ } : Settings).HasNumbers w k := { hn' with }
    refine ⟨{ s' with shortform := ∅ }, ?_, ?_⟩
    · exact (withCompact_eq_ok_iff hn hc).mpr ⟨hcl, hn₁, hcompact, hs.symm⟩
    · exact (withShortform_eq_ok_iff hn₁ rfl).mpr ⟨hsf, hn', hshort, rfl⟩

/-- The heads of a profile can always be set one kind after the other, and what comes of that is the
same as if they were put in their places at once. -/
theorem withHeads_withPreset (hn : s.HasNumbers w k) (hc : s.compact = ∅) (hs : s.shortform = ∅)
    (t : Settings) :
    ((ofTexts w k cl sf p).withPreset t).withHeads s =
      .ok { s with compact := t.compact, shortform := t.shortform } :=
  (withHeads_eq_ok_iff (p := p) hn hc hs).mpr ⟨{ hn with }, t.compact.properHeads_texts,
    t.shortform.properHeads_texts, t.compact.holds_texts, t.shortform.holds_texts⟩

/-- The heads of the settings are the given ones, or those of the profile, and there are warnings if
the profile has replaced any. -/
def Yields (cl sf : List String) (s : Settings) (ws : List Warning) : Option String → Prop
  | none =>
    ProperHeads cl ∧ ProperHeads sf ∧ s.compact.Holds cl ∧ s.shortform.Holds sf ∧ ws = []
  | some n => ∃ q : Profile, q.name = n ∧ s.compact = q.compact ∧ s.shortform = q.shortform ∧
    ws = if cl = [] ∧ sf = [] then [] else [.headsReplaced n]

/-- **Options come to the settings that they yield**, and to no others. -/
theorem settings_eq_ok_iff :
    (ofTexts w k cl sf p).settings = .ok (s, ws) ↔ s.HasNumbers w k ∧ Yields cl sf s ws p := by
  cases p with
  | none =>
    have hsteps : (ofTexts w k cl sf none).settings = (ofTexts w k cl sf none).numbers >>= fun s =>
        (ofTexts w k cl sf none).withHeads s >>= fun s' => .ok (s', []) := rfl
    rw [hsteps]
    simp only [bind_eq_ok_iff, numbers_eq_ok_iff]
    constructor
    · rintro ⟨s₀, ⟨hn, hc, hs⟩, s₁, h₁, heq⟩
      obtain ⟨rfl, rfl⟩ := Prod.mk.inj (Except.ok.inj heq)
      obtain ⟨hn', hcl, hsf, hcompact, hshort⟩ := (withHeads_eq_ok_iff hn hc hs).mp h₁
      exact ⟨hn', hcl, hsf, hcompact, hshort, rfl⟩
    · rintro ⟨hn, hcl, hsf, hcompact, hshort, rfl⟩
      have hn₀ : ({ s with compact := ∅, shortform := ∅ } : Settings).HasNumbers w k := { hn with }
      exact ⟨_, ⟨hn₀, rfl, rfl⟩, s,
        (withHeads_eq_ok_iff hn₀ rfl rfl).mpr ⟨hn, hcl, hsf, hcompact, hshort⟩, rfl⟩
  | some n =>
    have hsteps : (ofTexts w k cl sf (some n)).settings =
        (ofTexts w k cl sf (some n)).numbers >>= fun s => settingsOfProfile (.text n) >>= fun t =>
          ((ofTexts w k cl sf (some n)).withPreset t).withHeads s >>= fun s' =>
            .ok (s', (ofTexts w k cl sf (some n)).warnings n) := rfl
    have hwarnings : (ofTexts w k cl sf (some n)).warnings n =
        if cl = [] ∧ sf = [] then [] else [.headsReplaced n] := by
      simp [warnings, ofTexts]
    have hprofile : ∀ t, settingsOfProfile (.text n) = .ok t ↔
        ∃ q : Profile, q.name = n ∧ t = q.settings := by
      intro t
      simp only [settingsOfProfile, ← Profile.ofName?_eq_some_iff]
      cases hq : Profile.ofName? n with
      | none => simp
      | some q => simp [eq_comm]
    simp only [hsteps, hwarnings, bind_eq_ok_iff, numbers_eq_ok_iff, hprofile]
    constructor
    · rintro ⟨s₀, ⟨hn, hc, hs⟩, t, ⟨q, hq, rfl⟩, s₁, h₁, heq⟩
      rw [withHeads_withPreset hn hc hs] at h₁
      obtain rfl := Except.ok.inj h₁
      obtain ⟨rfl, rfl⟩ := Prod.mk.inj (Except.ok.inj heq)
      exact ⟨{ hn with }, q, hq, rfl, rfl, rfl⟩
    · rintro ⟨hn, q, hq, hcompact, hshort, rfl⟩
      have hn₀ : ({ s with compact := ∅, shortform := ∅ } : Settings).HasNumbers w k := { hn with }
      refine ⟨_, ⟨hn₀, rfl, rfl⟩, q.settings, ⟨q, hq, rfl⟩, s, ?_, rfl⟩
      have hc : q.settings.compact = s.compact := hcompact.symm
      have hs : q.settings.shortform = s.shortform := hshort.symm
      rw [withHeads_withPreset hn₀ rfl rfl, hc, hs]

end Options

/-! ## Errors -/

/-- Whether a value has been looked into before it was refused. -/
def SettingsError.IsInvalid : SettingsError → Prop
  | .notCollection _ | .compoundName _ => False
  | _ => True

/-- Whatever is refused is refused as invalid. -/
def FailsInvalid {α : Type} (x : Except SettingsError α) : Prop := ∀ e, x = .error e → e.IsInvalid

section

variable {α β : Type}

theorem failsInvalid_ok (a : α) : FailsInvalid (.ok a) := by
  intro e h
  exact absurd h (by simp)

theorem failsInvalid_error {e : SettingsError} (h : e.IsInvalid) :
    FailsInvalid (.error e : Except SettingsError α) := by
  intro e' heq
  rwa [← Except.error.inj heq]

theorem FailsInvalid.bind {x : Except SettingsError α} {f : α → Except SettingsError β}
    (hx : FailsInvalid x) (hf : ∀ a, FailsInvalid (f a)) : FailsInvalid (x >>= f) := by
  cases x with
  | ok a => exact hf a
  | error e => exact failsInvalid_error (hx e rfl)

end

theorem failsInvalid_checkPositive (f : NumberField) (v : Value) :
    FailsInvalid (checkPositive f v) := by
  unfold checkPositive
  split
  · split
    · exact failsInvalid_ok _
    · exact failsInvalid_error trivial
  · exact failsInvalid_error trivial

theorem failsInvalid_checkEntries (f : HeadsField) (vs : List Value) :
    FailsInvalid (checkEntries f vs) := by
  fun_induction checkEntries f vs with
  | case1 => exact failsInvalid_ok _
  | case2 => exact failsInvalid_error trivial
  | case3 s vs hs ih => exact ih.bind fun _ => failsInvalid_ok _
  | case4 => exact failsInvalid_error trivial

/-- A list can always be looked into. -/
theorem failsInvalid_checkNewHeads (f : HeadsField) (vs : List Value) :
    FailsInvalid (checkNewHeads f (.list vs)) := by
  cases vs with
  | nil => exact failsInvalid_error trivial
  | cons v vs =>
    refine (failsInvalid_checkEntries f (v :: vs)).bind fun hs => ?_
    split
    · exact failsInvalid_ok _
    · exact failsInvalid_error trivial

namespace Options

theorem failsInvalid_numbers (o : Options) : FailsInvalid o.numbers := by
  refine FailsInvalid.bind (failsInvalid_ok IndentChar.tab) fun _ => ?_
  refine (failsInvalid_checkPositive _ _).bind fun _ => ?_
  refine (failsInvalid_checkPositive _ _).bind fun _ => ?_
  refine (failsInvalid_checkPositive _ _).bind fun _ => ?_
  exact failsInvalid_ok _

theorem failsInvalid_withHeads (o : Options) (s : Settings) : FailsInvalid (o.withHeads s) := by
  have hshort : ∀ s', FailsInvalid (if o.shortform.isEmpty then .ok s'
      else (Change.shortform (.list o.shortform)).apply s') := by
    intro s'
    split
    · exact failsInvalid_ok _
    · exact (failsInvalid_checkNewHeads _ _).bind fun _ => failsInvalid_ok _
  rw [withHeads_eq]
  refine FailsInvalid.bind ?_ hshort
  split
  · exact failsInvalid_ok _
  · refine (failsInvalid_checkPositive _ _).bind fun _ => ?_
    exact (failsInvalid_checkNewHeads _ _).bind fun _ => failsInvalid_ok _

/-- Options that are refused are refused as invalid. -/
theorem failsInvalid_settings (o : Options) : FailsInvalid o.settings := by
  refine o.failsInvalid_numbers.bind fun s => ?_
  split
  · exact (o.failsInvalid_withHeads s).bind fun _ => failsInvalid_ok _
  · next n _ =>
    have hprofile : FailsInvalid (settingsOfProfile (.text n)) := by
      simp only [settingsOfProfile]
      cases Profile.ofName? n with
      | none => exact failsInvalid_error trivial
      | some q => exact failsInvalid_ok _
    refine hprofile.bind fun t => ?_
    exact ((o.withPreset t).failsInvalid_withHeads s).bind fun _ => failsInvalid_ok _

/-- The warnings that there are, none if the options are refused. -/
def issued (o : Options) : List Warning :=
  match o.settings with
  | .ok (_, ws) => ws
  | .error _ => []

variable (w k : Int) (cl sf : List String) (p : Option String)

/-- Options are accepted if the numbers are positive, the profile is one, and without a profile the
heads are proper. -/
theorem exists_settings_eq_ok_iff :
    (∃ s ws, (ofTexts w k cl sf p).settings = .ok (s, ws)) ↔
      0 < w ∧ 0 < k ∧ (∀ n, p = some n → ∃ q : Profile, q.name = n) ∧
        (p = none → ProperHeads cl ∧ ProperHeads sf) := by
  simp only [settings_eq_ok_iff]
  constructor
  · rintro ⟨s, ws, hn, hyields⟩
    refine ⟨hn.pos.1, hn.pos.2, ?_, ?_⟩
    · rintro n rfl
      obtain ⟨q, hq, -⟩ := hyields
      exact ⟨q, hq⟩
    · rintro rfl
      exact ⟨hyields.1, hyields.2.1⟩
  · rintro ⟨hw, hk, hprofile, hheads⟩
    cases p with
    | none =>
      obtain ⟨hcl, hsf⟩ := hheads rfl
      obtain ⟨s, hn, hc, hs⟩ := Settings.exists_hasNumbers hw hk
        (.ofList (cl.map String.toList) hcl.ne_nil) (.ofList (sf.map String.toList) hsf.ne_nil)
      refine ⟨s, [], hn, hcl, hsf, ?_, ?_, rfl⟩
      · rw [hc]
        exact Heads.holds_ofList hcl
      · rw [hs]
        exact Heads.holds_ofList hsf
    | some n =>
      obtain ⟨q, hq⟩ := hprofile n rfl
      obtain ⟨s, hn, hc, hs⟩ := Settings.exists_hasNumbers hw hk q.compact q.shortform
      exact ⟨s, _, hn, q, hq, hc, hs, rfl⟩

/-- With a profile, the settings are those for the numbers alone, with its heads. -/
theorem map_fst_settings_profile (q : Profile) :
    (ofTexts w k cl sf (some q.name)).settings.map Prod.fst =
      (ofTexts w k [] [] none).numbers.map fun s =>
        { s with compact := q.compact, shortform := q.shortform } := by
  have hprofile : settingsOfProfile (.text q.name) = .ok q.settings := by
    simp only [settingsOfProfile, Profile.ofName?_eq_some_iff.mpr rfl]
  have hsteps : (ofTexts w k cl sf (some q.name)).settings =
      (ofTexts w k [] [] none).numbers >>= fun s => settingsOfProfile (.text q.name) >>= fun t =>
        ((ofTexts w k cl sf (some q.name)).withPreset t).withHeads s >>= fun s' =>
          .ok (s', (ofTexts w k cl sf (some q.name)).warnings q.name) := rfl
  rw [hsteps, hprofile]
  cases hs : (ofTexts w k [] [] none).numbers with
  | ok s =>
    obtain ⟨hn, hcompact, hshort⟩ := numbers_eq_ok_iff.mp hs
    have hset : ((ofTexts w k cl sf (some q.name)).withPreset q.settings).withHeads s =
        .ok { s with compact := q.compact, shortform := q.shortform } :=
      withHeads_withPreset hn hcompact hshort q.settings
    simp only [bind, Except.bind, hset]
    rfl
  | error e => rfl

/-- A profile can as well be given by the heads in it. -/
theorem map_fst_settings_heads (q : Profile) :
    (ofTexts w k q.compact.texts q.shortform.texts none).settings.map Prod.fst =
      (ofTexts w k [] [] none).numbers.map fun s =>
        { s with compact := q.compact, shortform := q.shortform } := by
  cases hs : (ofTexts w k [] [] none).numbers with
  | ok s =>
    have hn := (numbers_eq_ok_iff.mp hs).1
    have hok : (ofTexts w k q.compact.texts q.shortform.texts none).settings =
        .ok ({ s with compact := q.compact, shortform := q.shortform }, []) :=
      settings_eq_ok_iff.mpr ⟨{ hn with }, q.compact.properHeads_texts,
        q.shortform.properHeads_texts, q.compact.holds_texts, q.shortform.holds_texts, rfl⟩
    rw [hok]
    rfl
  | error e =>
    have hsteps : (ofTexts w k q.compact.texts q.shortform.texts none).settings =
        (ofTexts w k [] [] none).numbers >>= fun s =>
          (ofTexts w k q.compact.texts q.shortform.texts none).withHeads s >>= fun s' =>
            .ok (s', []) := rfl
    rw [hsteps, hs]
    rfl

/-- The one warning that there can be. -/
theorem issued_cases :
    (0 < w ∧ 0 < k ∧ (∃ q : Profile, p = some q.name) ∧ (cl ≠ [] ∨ sf ≠ [])) ∧
        (∃ n, p = some n ∧ (ofTexts w k cl sf p).issued = [.headsReplaced n]) ∨
      ¬ (0 < w ∧ 0 < k ∧ (∃ q : Profile, p = some q.name) ∧ (cl ≠ [] ∨ sf ≠ [])) ∧
        (ofTexts w k cl sf p).issued = [] := by
  cases h : (ofTexts w k cl sf p).settings with
  | error e =>
    right
    refine ⟨?_, by simp only [issued, h]⟩
    rintro ⟨hw, hk, ⟨q, rfl⟩, -⟩
    obtain ⟨s, ws, hok⟩ := (exists_settings_eq_ok_iff w k cl sf (some q.name)).mpr
      ⟨hw, hk, by simp, by simp⟩
    exact absurd (h.symm.trans hok) (by simp)
  | ok r =>
    obtain ⟨s, ws⟩ := r
    have hws : (ofTexts w k cl sf p).issued = ws := by simp only [issued, h]
    obtain ⟨hn, hyields⟩ := settings_eq_ok_iff.mp h
    rw [hws]
    cases p with
    | none => exact .inr ⟨by simp, hyields.2.2.2.2⟩
    | some n =>
      obtain ⟨q, rfl, -, -, rfl⟩ := hyields
      by_cases hempty : cl = [] ∧ sf = []
      · right
        refine ⟨?_, if_pos hempty⟩
        rintro ⟨-, -, -, hne | hne⟩
        · exact hne hempty.1
        · exact hne hempty.2
      · left
        refine ⟨⟨hn.pos.1, hn.pos.2, ⟨q, rfl⟩, ?_⟩, q.name, rfl, if_neg hempty⟩
        by_contra hnone
        exact hempty ⟨by_contra fun h => hnone (.inl h), by_contra fun h => hnone (.inr h)⟩

end Options

/-- **Options are accepted as they should be, and a profile has the last word on heads.** They are
refused, as invalid, exactly if a number is not positive, the profile is none, or without a profile
there is an empty head or one given twice. Otherwise the settings have the default indentation, the
given numbers, and the heads of the profile or else the given ones. With a profile neither settings
nor errors depend on the heads given beside it, and they are the same as if its own heads were given;
there is one warning exactly if the options are accepted and some heads are given. -/
theorem options_exact (w k : Int) (cl sf : List String) (p : Option String) :
    ((∃ e, (Options.ofTexts w k cl sf p).settings = .error e ∧ e.IsInvalid) ↔
        w ≤ 0 ∨ k ≤ 0 ∨ (∃ n, p = some n ∧ ∀ q : Profile, q.name ≠ n) ∨
          p = none ∧ ("" ∈ cl ∨ ¬ cl.Nodup ∨ "" ∈ sf ∨ ¬ sf.Nodup)) ∧
      (∀ e, (Options.ofTexts w k cl sf p).settings = .error e → e.IsInvalid) ∧
      (∀ s ws, (Options.ofTexts w k cl sf p).settings = .ok (s, ws) →
        s.HasNumbers w k ∧ (p = none → s.compact.Holds cl ∧ s.shortform.Holds sf) ∧
          ∀ q : Profile, p = some q.name → s.compact = q.compact ∧ s.shortform = q.shortform) ∧
      (∀ q : Profile, p = some q.name →
        (∀ cl' sf', (Options.ofTexts w k cl sf p).settings.map Prod.fst =
          (Options.ofTexts w k cl' sf' p).settings.map Prod.fst) ∧
        (Options.ofTexts w k cl sf p).settings.map Prod.fst =
          (Options.ofTexts w k q.compact.texts q.shortform.texts none).settings.map Prod.fst) ∧
      ((Options.ofTexts w k cl sf p).issued.length = 1 ↔
        0 < w ∧ 0 < k ∧ (∃ q : Profile, p = some q.name) ∧ (cl ≠ [] ∨ sf ≠ [])) ∧
      (Options.ofTexts w k cl sf p).issued.length ≤ 1 := by
  set o := Options.ofTexts w k cl sf p
  refine ⟨?_, o.failsInvalid_settings, ?_, ?_, ?_⟩
  · have hok := Options.exists_settings_eq_ok_iff w k cl sf p
    constructor
    · rintro ⟨e, he, -⟩
      by_contra hcond
      obtain ⟨s, ws, hs⟩ := hok.mpr (by grind [ProperHeads])
      exact absurd (he.symm.trans hs) (by simp)
    · intro hcond
      cases h : o.settings with
      | error e => exact ⟨e, rfl, o.failsInvalid_settings e h⟩
      | ok r =>
        obtain ⟨hw, hk, hprofile, hheads⟩ := hok.mp ⟨r.1, r.2, h⟩
        rcases hcond with hw' | hk' | ⟨n, hp, hn⟩ | ⟨hp, hbad⟩
        · omega
        · omega
        · obtain ⟨q, hq⟩ := hprofile n hp
          exact absurd hq (hn q)
        · obtain ⟨⟨hcl, hcl'⟩, hsf, hsf'⟩ := hheads hp
          tauto
  · intro s ws h
    obtain ⟨hn, hyields⟩ := Options.settings_eq_ok_iff.mp h
    refine ⟨hn, ?_, ?_⟩
    · rintro rfl
      exact ⟨hyields.2.2.1, hyields.2.2.2.1⟩
    · rintro q rfl
      obtain ⟨q', hname, hc, hs, -⟩ := hyields
      obtain rfl : q' = q := Profile.name_injective hname
      exact ⟨hc, hs⟩
  · rintro q rfl
    refine ⟨fun cl' sf' => ?_, ?_⟩
    · rw [Options.map_fst_settings_profile, Options.map_fst_settings_profile]
    · rw [Options.map_fst_settings_profile, Options.map_fst_settings_heads]
  · rcases Options.issued_cases w k cl sf p with ⟨hcond, n, -, hone⟩ | ⟨hcond, hnone⟩
    · rw [show o.issued = _ from hone]
      exact ⟨iff_of_true rfl hcond, Nat.le_refl 1⟩
    · rw [show o.issued = _ from hnone]
      exact ⟨iff_of_false (by simp) hcond, Nat.zero_le 1⟩

end SExprReflow
