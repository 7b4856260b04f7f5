/-!
# `Treewalk.Number.Remainder`: the remainder of a truncated division

`remainder x y` is `x - n * y`, where `n` is the quotient cut off
toward zero. It takes the sign of `x`, and it is exact: over the finer
of the two binary exponents both operands are whole numbers, and the
remainder of these is again a double.
-/

set_option autoImplicit false

namespace Treewalk.Number

open Float.Model (Format UnpackedFloat)

/-- The remainder of two decoded numbers. -/
def remainderUnpacked : UnpackedFloat → UnpackedFloat → UnpackedFloat
  | .notANumber, _ | _, .notANumber | .infinity _, _ | _, .zero _ => .notANumber
  | .zero sign, _ => .zero sign
  | x, .infinity _ => x
  | .finite sign m e _, .finite _ m' e' _ =>
    let fine := min e e'
    let rest := (m * Nat.pow 2 (e - fine).toNat) % (m' * Nat.pow 2 (e' - fine).toNat)
    UnpackedFloat.round Format.binary64 sign rest fine

/-- The remainder of the division of `x` by `y`, with the sign of
`x`. There is none when `x` is infinite or `y` is zero. -/
def remainder (x y : Float) : Float :=
  .ofModel (.pack (remainderUnpacked x.toModel.unpack y.toModel.unpack))

end Treewalk.Number
