import SExprReflow.Settings.Error

/-!
# From values to settings

Values become settings in two ways. `Draft.settings` builds settings from nothing; there
a collection of heads may be empty, may repeat itself and may even be a text, which
stands for its characters. A `Change` replaces part of given settings; there the heads
have to be a collection of texts, with at least one of them and none twice.

Both check the values in a fixed order, and the first one that is refused is the error.
Nothing is changed when a check fails: the result is either new settings or an error.
-/

namespace SExprReflow

/-! ## Checks of single values -/

/-- A positive number. -/
abbrev Positive := { n : Nat // 0 < n }

/-- Texts that can be heads. -/
abbrev HeadList := { hs : List (List Char) // ∀ h ∈ hs, h ≠ [] }

/-- Accepts a space or a tab. -/
def checkIndentChar : Value → Except SettingsError IndentChar
  | .text " " => .ok .space
  | .text "\t" => .ok .tab
  | v => .error (.badIndentChar v)

/-- Accepts an integer above zero. -/
def checkPositive (field : NumberField) : Value → Except SettingsError Positive
  | .int n => if h : 0 < n then .ok ⟨n.toNat, by omega⟩ else .error (.notPositive field n)
  | v => .error (.notInteger field v)

/-- Accepts values that are all non-empty texts. -/
def checkEntries (field : HeadsField) : List Value → Except SettingsError HeadList
  | [] => .ok ⟨[], List.forall_mem_nil _⟩
  | .text s :: vs =>
    if h : s.toList = [] then .error (.badEntry field)
    else do
      let hs ← checkEntries field vs
      return ⟨s.toList :: hs.1, List.forall_mem_cons.mpr ⟨h, hs.2⟩⟩
  | _ :: _ => .error (.badEntry field)

/-- Accepts any value that holds non-empty texts only. -/
def checkHeads (field : HeadsField) (v : Value) : Except SettingsError Heads :=
  match v.items? with
  | none => .error (.notCollection v)
  | some vs => do
    let hs ← checkEntries field vs
    return .ofList hs.1 hs.2

/-- The texts that occur more than once, in increasing order. -/
def HeadList.duplicates (hs : HeadList) : List (List Char) :=
  (Heads.ofList (hs.1.filter fun h => 1 < hs.1.count h)
    fun h hm => hs.2 h (List.mem_filter.mp hm).1).toList

/-- Accepts a collection of at least one non-empty text without repetition. -/
def checkNewHeads (field : HeadsField) (v : Value) : Except SettingsError Heads :=
  match v with
  | .text _ => .error (.singleText field)
  | v =>
    match v.items? with
    | none => .error (.notCollection v)
    | some [] => .error (.noEntries field)
    | some vs => do
      let hs ← checkEntries field vs
      if HeadList.duplicates hs = [] then return .ofList hs.1 hs.2
      else .error (.duplicates field (HeadList.duplicates hs))

/-! ## Settings built at once -/

/-- Values for all settings. -/
structure Draft where
  indentChar : Value := .text "\t"
  indentSize : Value := .int 1
  wrapThreshold : Value := .int 72
  columnLimit : Value := .int 99
  compact : Value := .list []
  shortform : Value := .list []

/-- The settings with the given values, if all of them are accepted. -/
def Draft.settings (d : Draft) : Except SettingsError Settings := do
  let indentChar ← checkIndentChar d.indentChar
  let indentSize ← checkPositive .indentSize d.indentSize
  let wrapThreshold ← checkPositive .wrapThreshold d.wrapThreshold
  let columnLimit ← checkPositive .columnLimit d.columnLimit
  let compact ← checkHeads .compact d.compact
  let shortform ← checkHeads .shortform d.shortform
  return ⟨indentChar, indentSize.1, wrapThreshold.1, columnLimit.1, compact, shortform,
    indentSize.2, wrapThreshold.2, columnLimit.2⟩

/-- The settings of the profile with the given name. -/
def settingsOfProfile (name : Value) : Except SettingsError Settings :=
  match name with
  | .text n =>
    match Profile.ofName? n with
    | some p => .ok p.settings
    | none => .error (.unknownProfile name)
  | .list _ | .object _ => .error (.compoundName name)
  | _ => .error (.unknownProfile name)

/-! ## Changes of settings -/

/-- A replacement of some of the settings. -/
inductive Change where
  /-- How lines are indented, and how many atoms a line of a normal list holds. -/
  | lines (indentChar indentSize wrapThreshold : Value)
  /-- Which lists are compact, and up to which column. -/
  | compact (heads columnLimit : Value)
  /-- Which lists are shortform. -/
  | shortform (heads : Value)

namespace Change

/-- The settings after a change. -/
def apply (s : Settings) : Change → Except SettingsError Settings
  | lines indentChar indentSize wrapThreshold => do
    let indentChar ← checkIndentChar indentChar
    let indentSize ← checkPositive .indentSize indentSize
    let wrapThreshold ← checkPositive .wrapThreshold wrapThreshold
    return { s with
      indentChar := indentChar
      indentSize := indentSize.1
      wrapThreshold := wrapThreshold.1
      indentSize_pos := indentSize.2
      wrapThreshold_pos := wrapThreshold.2 }
  | compact heads columnLimit => do
    let columnLimit ← checkPositive .newColumnLimit columnLimit
    let heads ← checkNewHeads .newCompact heads
    return { s with
      compact := heads
      columnLimit := columnLimit.1
      columnLimit_pos := columnLimit.2 }
  | shortform heads => do
    let heads ← checkNewHeads .newShortform heads
    return { s with shortform := heads }

end Change

end SExprReflow
