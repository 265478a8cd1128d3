import SExprReflow.Settings

/-!
# Profiles

A profile is a named choice of heads, with everything else as by default.
-/

namespace SExprReflow

/-- The named choices of settings. -/
inductive Profile where
  | kicad
  | kicadCompact
deriving DecidableEq, Repr

namespace Profile

/-- All profiles, in the order in which messages list them. -/
def all : List Profile := [.kicad, .kicadCompact]

/-- The name that selects a profile. -/
def name : Profile → String
  | .kicad => "kicad"
  | .kicadCompact => "kicad-compact"

/-- The profile with the given name. -/
def ofName? (n : String) : Option Profile :=
  all.find? fun p => p.name = n

/-- The heads of the compact lists of a profile. -/
def compact : Profile → Heads
  | .kicad | .kicadCompact => .ofList ["pts".toList] (by decide)

/-- The heads of the shortform lists of a profile. -/
def shortform : Profile → Heads
  | .kicad => ∅
  | .kicadCompact =>
    .ofList
      ["font".toList, "stroke".toList, "fill".toList, "offset".toList, "rotate".toList,
        "scale".toList]
      (by decide)

/-- The settings of a profile. -/
def settings (p : Profile) : Settings :=
  { (default : Settings) with compact := p.compact, shortform := p.shortform }

end Profile

end SExprReflow
