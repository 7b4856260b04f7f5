import Treewalk.Number.Decimal

/-!
# `Treewalk.Number.Rendering`: the text of a number

A finite number is written as its plain decimal after its sign, so
text never holds an exponent. Both zeros are written `0`. The three
values that are no real numbers are written `inf`, `-inf` and `NaN`.

The text depends on the decoded number only, so two numbers that
compare equal are written alike.
-/

set_option autoImplicit false

namespace Treewalk.Number

open Float.Model (UnpackedFloat)
open Float.Model.UnpackedFloat (Sign)

/-- The mark in front of a number with the given sign. -/
def signMark : Sign → String
  | .positive => ""
  | .negative => "-"

/-- The text of a decoded number. -/
def renderUnpacked : UnpackedFloat → String
  | .notANumber => "NaN"
  | .infinity sign => signMark sign ++ "inf"
  | .zero _ => "0"
  | .finite sign mantissa exponent _ =>
    signMark sign ++ (Decimal.ofFraction mantissa exponent).render

/-- The text of a number. -/
def render (x : Float) : String :=
  renderUnpacked x.toModel.unpack

end Treewalk.Number
