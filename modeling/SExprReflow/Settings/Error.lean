import SExprReflow.Settings.Profile
import SExprReflow.Value

/-!
# Refused settings

`SettingsError` lists the causes for which values are refused as settings, and
`SettingsError.message` is the one place where they are put into words.
-/

namespace SExprReflow

/-- The numbers that are checked, each by the name that a message gives it. -/
inductive NumberField where
  | indentSize
  | wrapThreshold
  | columnLimit
  /-- The column limit given together with the heads of compact lists. -/
  | newColumnLimit
deriving DecidableEq, Repr

/-- The name of a number in messages. -/
def NumberField.label : NumberField → String
  | .indentSize => "indent_size"
  | .wrapThreshold => "wrap_threshold"
  | .columnLimit => "compact_column_limit"
  | .newColumnLimit => "column_limit"

/-- The collections of heads that are checked: those of settings built at once, and those
that replace the heads of given settings. -/
inductive HeadsField where
  | compact
  | shortform
  | newCompact
  | newShortform
deriving DecidableEq, Repr

/-- The name of a collection of heads in messages. -/
def HeadsField.label : HeadsField → String
  | .compact => "compact_prefixes"
  | .shortform => "shortform_prefixes"
  | .newCompact => "compact list prefixes"
  | .newShortform => "shortform prefixes"

/-- Why values are refused as settings. -/
inductive SettingsError where
  /-- The indentation is by something else than spaces or tabs. -/
  | badIndentChar (given : Value)
  | notInteger (field : NumberField) (given : Value)
  | notPositive (field : NumberField) (given : Int)
  /-- A value that holds no other values is given for a collection. -/
  | notCollection (given : Value)
  /-- A single text is given for a collection of texts. -/
  | singleText (field : HeadsField)
  | noEntries (field : HeadsField)
  | badEntry (field : HeadsField)
  | duplicates (field : HeadsField) (heads : List (List Char))
  | unknownProfile (name : Value)
  /-- The name of a profile is a list or an object. -/
  | compoundName (name : Value)

namespace SettingsError

/-- The error in words. -/
def message : SettingsError → String
  | badIndentChar v => "indent_char must be a space or a tab, got " ++ String.ofList v.shown
  | notInteger f v => f.label ++ " must be an integer, got " ++ String.ofList v.shown
  | notPositive f n => f.label ++ " must be positive, got " ++ String.ofList (Value.shownInt n)
  | notCollection v => "'" ++ v.kindName ++ "' object is not iterable"
  | singleText f => f.label ++ " must be a collection of strings, not a string"
  | noEntries f => f.label ++ " cannot be empty"
  | badEntry f => f.label ++ " contains an empty or non-string entry"
  | duplicates f hs =>
    f.label ++ " contains duplicates: " ++ ", ".intercalate (hs.map String.ofList)
  | unknownProfile v =>
    "Unknown profile " ++ String.ofList v.shown ++ ", must be one of " ++
      ", ".intercalate (Profile.all.map Profile.name)
  | compoundName v => "unhashable type: '" ++ v.kindName ++ "'"

end SettingsError

end SExprReflow
