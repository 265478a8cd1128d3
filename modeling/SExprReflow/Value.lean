import SExprReflow.Decimal.Shortest
import SExprReflow.Text.Quoted

/-!
# Values of any kind

Settings come from outside, as values of any kind. `Value` is what can be given; which
of them are accepted is decided in `SExprReflow.Settings.Change`. `Value.shown` is how a
refused value appears in a message.
-/

namespace SExprReflow

/-- A value as it is given from outside. -/
inductive Value where
  | null
  | bool (b : Bool)
  | int (n : Int)
  | float (x : Float)
  | text (s : String)
  | list (items : List Value)
  | object (entries : List (String × Value))

namespace Value

/-- The name of the kind of a value in messages. -/
def kindName : Value → String
  | null => "NoneType"
  | bool _ => "bool"
  | int _ => "int"
  | float _ => "float"
  | text _ => "str"
  | list _ => "list"
  | object _ => "dict"

/-- The values that a value holds, if it is one that can be gone through: the items of a
list, the characters of a text, the keys of an object. -/
def items? : Value → Option (List Value)
  | list items => some items
  | text s => some (s.toList.map fun c => text (String.singleton c))
  | object entries => some (entries.map fun e => text e.1)
  | _ => none

/-- An integer in decimal. -/
def shownInt (n : Int) : List Char :=
  (if n < 0 then ['-'] else []) ++ Nat.toDigits 10 n.natAbs

mutual

/-- A value as it appears in a message. -/
def shown : Value → List Char
  | null => "None".toList
  | bool b => (if b then "True" else "False").toList
  | int n => shownInt n
  | float x => floatText x
  | text s => quoted s.toList
  | list items => '[' :: (shownItems items ++ [']'])
  | object entries => '\x7b' :: (shownEntries entries ++ ['\x7d'])

/-- Items with a comma and a space between them. -/
def shownItems : List Value → List Char
  | [] => []
  | [v] => shown v
  | v :: vs => shown v ++ ([',', ' '] ++ shownItems vs)

/-- Entries with a comma and a space between them. -/
def shownEntries : List (String × Value) → List Char
  | [] => []
  | [(k, v)] => quoted k.toList ++ ([':', ' '] ++ shown v)
  | (k, v) :: es => quoted k.toList ++ ([':', ' '] ++ (shown v ++ ([',', ' '] ++ shownEntries es)))

end

end Value

end SExprReflow
