import Treewalk.Text.Blank

/-!
# `Treewalk.Number.Numeral`: reading numbers

A numeral is an optional sign, digits with an optional point among or
around them, and an optional exponent: in symbols

    [+-]? ( D+ ( . D* )? | . D+ ) ( [eE] [+-]? D+ )?

`Numeral.scan` takes the longest numeral off the front of a text. An
exponent mark that no digit follows is left behind, and so is a point
with no digit on either side.

`readWhole?` accepts a text only if all of it is a numeral or one of
the words for the values that are no real numbers. `readLeading` reads
what a text begins with, blanks aside. It looks for the end of the
longest numeral among the bytes of the text, cuts the text there and
reads the front as a whole.
-/

set_option autoImplicit false

namespace Treewalk.Number

/-- A numeral, read as `± digits / 10 ^ places * 10 ^ exponent`. -/
structure Numeral where
  negative : Bool
  digits : Nat
  places : Nat
  exponent : Int
deriving DecidableEq, Repr

/-- The longest run of decimal digits at the front, and the rest. -/
def spanDigits (cs : List Char) : List Char × List Char :=
  (cs.takeWhile Char.isDigit, cs.dropWhile Char.isDigit)

/-- The number that a run of digits denotes. -/
def digitsValue (cs : List Char) : Nat :=
  cs.foldl (fun n c => 10 * n + (c.toNat - '0'.toNat)) 0

/-- A sign at the front, if any: whether it is a minus, and the
rest. -/
def takeSign : List Char → Bool × List Char
  | '-' :: rest => (true, rest)
  | '+' :: rest => (false, rest)
  | cs => (false, cs)

namespace Numeral

/-- The digits before and after the point, and the rest. A point
counts only if a digit stands beside it. -/
def takeMantissa? (cs : List Char) : Option (List Char × List Char × List Char) :=
  match spanDigits cs with
  | ([], '.' :: rest) =>
    match spanDigits rest with
    | ([], _) => none
    | (fraction, rest) => some ([], fraction, rest)
  | ([], _) => none
  | (whole, '.' :: rest) =>
    let (fraction, rest) := spanDigits rest
    some (whole, fraction, rest)
  | (whole, rest) => some (whole, [], rest)

/-- The exponent after a mark, and the rest. A mark that no digit
follows is no part of the numeral. -/
def takeExponent (cs : List Char) : Int × List Char :=
  match cs with
  | mark :: rest =>
    if mark = 'e' ∨ mark = 'E' then
      let (negative, rest) := takeSign rest
      match spanDigits rest with
      | ([], _) => (0, cs)
      | (digits, rest) =>
        let size : Int := digitsValue digits
        (if negative then -size else size, rest)
    else (0, cs)
  | [] => (0, [])

/-- The longest numeral at the front of a text, and the rest. -/
def scan? (cs : List Char) : Option (Numeral × List Char) :=
  let (negative, cs) := takeSign cs
  match takeMantissa? cs with
  | none => none
  | some (whole, fraction, cs) =>
    let (exponent, cs) := takeExponent cs
    some (⟨negative, digitsValue (whole ++ fraction), fraction.length, exponent⟩, cs)

/-- The double nearest to a numeral. -/
def value (n : Numeral) : Float :=
  let size :=
    match n.exponent - n.places with
    | .ofNat e => Float.ofScientific n.digits false e
    | .negSucc e => Float.ofScientific n.digits true (e + 1)
  if n.negative then -size else size

end Numeral

/-- The words for the values that are no real numbers. -/
def infinityWords : List String := ["inf", "infinity"]

/-- The word for a value that is no number. -/
def notANumberWord : String := "nan"

/-- The value that a word stands for, its sign and the case of its
letters aside. -/
def ofWord? (cs : List Char) : Option Float :=
  let (negative, word) := takeSign cs
  let word := String.ofList (word.map Char.toLower)
  if word ∈ infinityWords then
    some (if negative then -1 / 0 else 1 / 0)
  else if word = notANumberWord then some (0 / 0)
  else none

/-- The number that a text denotes as a whole. -/
def readWhole? (text : String) : Option Float :=
  match Numeral.scan? text.toList with
  | some (n, []) => some n.value
  | _ => ofWord? text.toList

/-! ### The end of a numeral -/

/-- Whether a byte is a decimal digit. -/
def isDigitByte (b : UInt8) : Bool :=
  '0'.toUInt8 ≤ b && b ≤ '9'.toUInt8

/-- Whether a character of one byte stands at an offset. -/
def hasByte (bytes : List UInt8) (offset : Nat) (c : Char) : Bool :=
  bytes[offset]? = some c.toUInt8

/-- Where the digits that begin at an offset end. -/
def digitsEnd (bytes : List UInt8) (start : Nat) : Nat :=
  start + ((bytes.drop start).takeWhile isDigitByte).length

/-- Where the sign at an offset ends, if there is one. -/
def signEnd (bytes : List UInt8) (start : Nat) : Nat :=
  if hasByte bytes start '+' || hasByte bytes start '-' then start + 1 else start

/-- Where the digits and the point at an offset end. A point counts only
if a digit stands beside it. -/
def mantissaEnd? (bytes : List UInt8) (start : Nat) : Option Nat :=
  let wholeEnd := digitsEnd bytes start
  if hasByte bytes wholeEnd '.' then
    let fractionEnd := digitsEnd bytes (wholeEnd + 1)
    if wholeEnd + 1 < fractionEnd || start < wholeEnd then some fractionEnd else none
  else if start < wholeEnd then some wholeEnd
  else none

/-- Where the exponent at an offset ends. A mark that no digit follows is
no part of the numeral. -/
def exponentEnd (bytes : List UInt8) (start : Nat) : Nat :=
  if hasByte bytes start 'e' || hasByte bytes start 'E' then
    let digitsStart := signEnd bytes (start + 1)
    let stop := digitsEnd bytes digitsStart
    if digitsStart < stop then stop else start
  else start

/-- Where the longest numeral at the front of a text ends. -/
def numeralEnd? (bytes : List UInt8) : Option Nat :=
  (mantissaEnd? bytes (signEnd bytes 0)).map (exponentEnd bytes)

/-- The bytes that encode characters. -/
def bytesOf (cs : List Char) : List UInt8 :=
  cs.flatMap String.utf8EncodeChar

/-- The front of a text that has a number of bytes. There is none if they
end within a character. -/
def front? (bytes : List UInt8) (size : Nat) : Option String :=
  String.fromUTF8? (bytes.take size).toByteArray

/-- The double nearest to the longest numeral after leading blanks,
or zero if there is none. -/
def readLeading (text : String) : Float :=
  let bytes := bytesOf (text.toList.dropWhile Text.isBlank)
  match numeralEnd? bytes with
  | none => 0
  | some size => ((front? bytes size).bind readWhole?).getD 0

end Treewalk.Number
