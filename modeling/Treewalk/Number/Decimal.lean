/-!
# `Treewalk.Number.Decimal`: the plain decimal of a binary fraction

A positive binary fraction is `mantissa * 2 ^ exponent`, the form in
which a double is decoded. Its plain decimal has no exponent and is
chosen by two rules.

A whole number is written out to its last digit, however long that
is. Any other fraction takes the fewest places on which some decimal
still rounds to it, and of the decimals with that many places the
nearest one, the upper one on a tie.

`Decimal.ofFraction` is that choice. The search for the places always
ends, because a fraction with `k` binary places lies itself on the
grid of `k` decimal places.
-/

set_option autoImplicit false

namespace Treewalk.Number

/-- The decimal `units / 10 ^ places`. -/
structure Decimal where
  units : Nat
  places : Nat
deriving DecidableEq, Repr

namespace Decimal

/-- The digits of a decimal, with a point in front of the last
`places` of them when there are any. -/
def render (d : Decimal) : String :=
  let scale := Nat.pow 10 d.places
  let whole := toString (d.units / scale)
  if d.places = 0 then whole
  else
    let rest := toString (d.units % scale)
    whole ++ "." ++ String.ofList (List.replicate (d.places - rest.length) '0') ++ rest

end Decimal

/-- The numbers that round to `mantissa * 2 ^ exponent`, measured in
quarters of the last binary place. The lower half is narrower under a
power of two, where the doubles below lie twice as close. The ends
belong to the interval when the mantissa is even, as halves go to the
even neighbour. -/
structure RoundingInterval where
  low : Nat
  high : Nat
  closed : Bool
deriving DecidableEq, Repr

namespace RoundingInterval

/-- The least mantissa of a double that is not subnormal. -/
def leastNormal : Nat := Nat.pow 2 52

/-- The exponent shared by the subnormal doubles and their first
normal neighbours. -/
def leastExponent : Int := -1074

/-- The interval of a double's mantissa and exponent. -/
def ofFraction (mantissa : Nat) (exponent : Int) : RoundingInterval where
  low :=
    if mantissa = leastNormal ∧ exponent ≠ leastExponent then 4 * mantissa - 1
    else 4 * mantissa - 2
  high := 4 * mantissa + 2
  closed := mantissa % 2 = 0

/-- Whether `numerator / denominator` quarters lie in the interval. -/
def covers (i : RoundingInterval) (numerator denominator : Nat) : Bool :=
  if i.closed then i.low * denominator ≤ numerator && numerator ≤ i.high * denominator
  else i.low * denominator < numerator && numerator < i.high * denominator

end RoundingInterval

namespace Decimal

/-- The decimal with the given places nearest to
`mantissa / 2 ^ binaryPlaces` among its two neighbours on that grid,
if one of them lies in the interval. -/
def onGrid? (i : RoundingInterval) (mantissa binaryPlaces places : Nat) : Option Decimal :=
  let scale := Nat.pow 10 places
  let unit := Nat.pow 2 binaryPlaces
  let below := mantissa * scale / unit
  let covered (units : Nat) : Bool := i.covers (4 * units * unit) scale
  match covered below, covered (below + 1) with
  | true, false => some ⟨below, places⟩
  | false, true => some ⟨below + 1, places⟩
  | true, true =>
    if mantissa * scale - below * unit < (below + 1) * unit - mantissa * scale then
      some ⟨below, places⟩
    else some ⟨below + 1, places⟩
  | false, false => none

/-- The first grid with a decimal in the interval, from `places` on.
The last candidate is the fraction itself. -/
def coarsest (i : RoundingInterval) (mantissa binaryPlaces : Nat) : Nat → Nat → Decimal
  | 0, places => ⟨mantissa * Nat.pow 10 places / Nat.pow 2 binaryPlaces, places⟩
  | more + 1, places =>
    match onGrid? i mantissa binaryPlaces places with
    | some d => d
    | none => coarsest i mantissa binaryPlaces more (places + 1)

/-- The plain decimal of `mantissa * 2 ^ exponent`. -/
def ofFraction (mantissa : Nat) (exponent : Int) : Decimal :=
  match exponent with
  | .ofNat shift => ⟨mantissa * Nat.pow 2 shift, 0⟩
  | .negSucc k =>
    let binaryPlaces := k + 1
    if mantissa % Nat.pow 2 binaryPlaces = 0 then ⟨mantissa / Nat.pow 2 binaryPlaces, 0⟩
    else
      coarsest (RoundingInterval.ofFraction mantissa exponent) mantissa binaryPlaces
        binaryPlaces 0

end Decimal

end Treewalk.Number
