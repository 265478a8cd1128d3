/-!
# The shortest decimal of a floating-point number

A finite binary floating-point number is `m * 2 ^ q`. The decimals that read back as it
are those in an interval around it, half-way to its two neighbours; the two ends belong
to the interval when `m` is even. `shortest` looks for a decimal `d * 10 ^ g` in that
interval. It tries the grids of multiples of `10 ^ g` from the coarsest to the finest, and
on each of them the two multiples next to the number. The first grid with a hit gives the
fewest digits. Of two hits the nearer one is taken, and
of two equally near the even one. All of it is exact arithmetic on natural numbers.
-/

namespace SExprReflow

/-- A decimal `digits * 10 ^ exponent`. -/
structure Decimal where
  digits : Nat
  exponent : Int
deriving DecidableEq, Repr

namespace Decimal

/-- The positive number `mantissa * 2 ^ exponent`; `lowest` says that the number below it
is only half as far away as the number above it. -/
structure Binary where
  mantissa : Nat
  exponent : Int
  lowest : Bool
deriving Repr

namespace Binary

/-- Four times the mantissa: the number in quarters of its last place. -/
def quarters (b : Binary) : Nat := 4 * b.mantissa

/-- The lower end of the interval, in quarters of the last place. -/
def lower (b : Binary) : Nat := b.quarters - if b.lowest then 1 else 2

/-- The upper end of the interval, in quarters of the last place. -/
def upper (b : Binary) : Nat := b.quarters + 2

/-- A quarter of the last place divided by `10 ^ g`, as a fraction. -/
def unit (b : Binary) (g : Int) : Nat × Nat :=
  (Nat.pow 2 (b.exponent - 2).toNat * Nat.pow 10 (-g).toNat,
    Nat.pow 2 (2 - b.exponent).toNat * Nat.pow 10 g.toNat)

/-- Whether `d * 10 ^ g` reads back as the number. -/
def reads (b : Binary) (g : Int) (d : Nat) : Bool :=
  let (num, den) := b.unit g
  if b.mantissa % 2 = 0 then b.lower * num ≤ d * den && d * den ≤ b.upper * num
  else b.lower * num < d * den && d * den < b.upper * num

/-- The multiple of `10 ^ g` nearest to the number among the two next to it that read
back as it. -/
def onGrid (b : Binary) (g : Int) : Option Decimal :=
  let (num, den) := b.unit g
  let below := b.quarters * num / den
  let above := below + 1
  let rest := b.quarters * num % den
  let down : Option Decimal := some ⟨below, g⟩
  let up : Option Decimal := some ⟨above, g⟩
  match b.reads g below, b.reads g above with
  | false, false => none
  | true, false => down
  | false, true => up
  | true, true =>
    if 2 * rest < den then down
    else if den < 2 * rest then up
    else if below % 2 = 0 then down else up

/-- The grids that are tried, by their exponents. Every double is below `10 ^ 309`, and
even the least of them has a multiple of `10 ^ -324` in its interval. -/
def grids : List Int := (List.range 640).map fun i : Nat => 310 - (i : Int)

/-- The decimal with the fewest digits that reads back as the number. -/
def shortest (b : Binary) : Decimal :=
  (grids.findSome? b.onGrid).getD ⟨b.mantissa, b.exponent⟩

end Binary

/-! ## Written form -/

/-- Zeros. -/
def zeros (n : Nat) : List Char := List.replicate n '0'

/-- The exponent mark: a sign and at least two digits. -/
def exponentMark (e : Int) : List Char :=
  let ds := Nat.toDigits 10 e.natAbs
  'e' :: (if e < 0 then '-' else '+') :: (zeros (2 - ds.length) ++ ds)

/-- A decimal in positional form with at least one place after the point, if its leading
digit stands for `10 ^ e` with `-4 ≤ e < 16`, and with an exponent otherwise. -/
def text (d : Decimal) : List Char :=
  let ds := Nat.toDigits 10 d.digits
  let point : Int := ds.length + d.exponent
  if -4 < point ∧ point ≤ 16 then
    if point ≤ 0 then ['0', '.'] ++ zeros (-point).toNat ++ ds
    else if ds.length ≤ point then ds ++ zeros (point - ds.length).toNat ++ ['.', '0']
    else ds.take point.toNat ++ ['.'] ++ ds.drop point.toNat
  else
    match ds with
    | [] => []
    | [c] => c :: exponentMark (point - 1)
    | c :: cs => c :: '.' :: (cs ++ exponentMark (point - 1))

end Decimal

/-! ## Doubles -/

/-- A double taken apart: the sign, the exponent as it is stored, and the fraction. -/
structure DoubleParts where
  negative : Bool
  exponent : Nat
  fraction : Nat

/-- The parts of a double: one bit of sign, eleven bits of exponent, and 52 bits of
fraction. -/
def DoubleParts.of (x : Float) : DoubleParts :=
  let bits := x.toBits.toNat
  ⟨bits >>> 63 = 1, (bits >>> 52) % 2048, bits % 4503599627370496⟩

/-- The text of a double without its sign: the fewest digits that read back as it. Below
the least exponent the leading bit is no longer understood. -/
def DoubleParts.text (d : DoubleParts) : List Char :=
  if d.exponent = 2047 then if d.fraction = 0 then ['i', 'n', 'f'] else ['n', 'a', 'n']
  else if d.exponent = 0 then
    if d.fraction = 0 then ['0', '.', '0']
    else (Decimal.Binary.shortest ⟨d.fraction, -1074, false⟩).text
  else
    (Decimal.Binary.shortest
      ⟨4503599627370496 + d.fraction, Int.ofNat d.exponent - 1075,
        d.fraction = 0 && d.exponent ≠ 1⟩).text

/-- The text of a double. What is not a number has no sign. -/
def floatText (x : Float) : List Char :=
  let d := DoubleParts.of x
  if d.negative && (d.exponent ≠ 2047 || d.fraction = 0) then '-' :: d.text else d.text

end SExprReflow
