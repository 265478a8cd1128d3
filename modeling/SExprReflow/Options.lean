import SExprReflow.Settings.Change

/-!
# Options

`Options` is what can be asked for from outside in one go: two numbers, the heads of the
compact and of the shortform lists, and a profile. A profile replaces the heads that are
given beside it, whatever they are, and a warning says so.
-/

namespace SExprReflow

/-- What is asked for. -/
structure Options where
  wrapThreshold : Value := .int 72
  columnLimit : Value := .int 99
  compact : List Value := []
  shortform : List Value := []
  profile : Option String := none

/-- What is accepted, but not quite as asked for. -/
inductive Warning where
  /-- The heads that are given do not count, because a profile is. -/
  | headsReplaced (profile : String)
deriving DecidableEq

/-- The warning in words. -/
def Warning.message : Warning → String
  | .headsReplaced p =>
    "profile " ++ String.ofList (quoted p.toList) ++
      " replaces the given compact list and shortform prefixes"

namespace Options

/-- The settings for the numbers alone. -/
def numbers (o : Options) : Except SettingsError Settings :=
  Draft.settings { wrapThreshold := o.wrapThreshold, columnLimit := o.columnLimit }

/-- Given settings with the heads that are asked for. Where there are none, nothing is
replaced. -/
def withHeads (o : Options) (s : Settings) : Except SettingsError Settings := do
  let s ← if o.compact.isEmpty then .ok s
    else (Change.compact (.list o.compact) o.columnLimit).apply s
  if o.shortform.isEmpty then .ok s
  else (Change.shortform (.list o.shortform)).apply s

/-- The warnings for a profile. -/
def warnings (o : Options) (profile : String) : List Warning :=
  if o.compact.isEmpty && o.shortform.isEmpty then [] else [.headsReplaced profile]

/-- The options with the heads of a profile in the place of those that are given. -/
def withPreset (o : Options) (preset : Settings) : Options :=
  { o with
    compact := preset.compact.texts.map .text
    shortform := preset.shortform.texts.map .text }

/-- The settings that are asked for, with warnings. -/
def settings (o : Options) : Except SettingsError (Settings × List Warning) := do
  let s ← o.numbers
  match o.profile with
  | none => return (← o.withHeads s, [])
  | some name =>
    let preset ← settingsOfProfile (.text name)
    return (← (o.withPreset preset).withHeads s, o.warnings name)

end Options

end SExprReflow
