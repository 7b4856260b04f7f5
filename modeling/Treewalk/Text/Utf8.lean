/-!
# `Treewalk.Text.Utf8`: reading bytes as text

The decoder reads one byte at a time. Between characters it takes a
byte of its own or the first byte of a longer character. Inside a
character it knows how many bytes are owed and which bytes may come
next. A byte that cannot come next ends the unfinished character as
one flaw and is then read as the start of the next one, so a flaw
covers the longest run of bytes that could have begun a character.

`decodeUnits` lists characters and flaws in order. `decode?` accepts
bytes without flaws, and `decodeLossy` puts the replacement character
in the place of each flaw.
-/

set_option autoImplicit false

namespace Treewalk.Text.Utf8

/-- A character whose bytes are not all read: the bits so far, the
number of bytes owed, and the range of the next one. -/
structure Unfinished where
  bits : Nat
  owed : Nat
  low : UInt8
  high : UInt8
deriving DecidableEq, Repr

/-- The first byte of a character. It is complete, opens a longer
character, or is a flaw. -/
def begin (b : UInt8) : List (Option Char) × Option Unfinished :=
  let n := b.toNat
  if b ≤ 0x7f then ([some (Char.ofNat n)], none)
  else if 0xc2 ≤ b ∧ b ≤ 0xdf then ([], some ⟨n - 0xc0, 1, 0x80, 0xbf⟩)
  else if b = 0xe0 then ([], some ⟨0, 2, 0xa0, 0xbf⟩)
  else if b = 0xed then ([], some ⟨0xd, 2, 0x80, 0x9f⟩)
  else if 0xe1 ≤ b ∧ b ≤ 0xef then ([], some ⟨n - 0xe0, 2, 0x80, 0xbf⟩)
  else if b = 0xf0 then ([], some ⟨0, 3, 0x90, 0xbf⟩)
  else if 0xf1 ≤ b ∧ b ≤ 0xf3 then ([], some ⟨n - 0xf0, 3, 0x80, 0xbf⟩)
  else if b = 0xf4 then ([], some ⟨4, 3, 0x80, 0x8f⟩)
  else ([none], none)

/-- One byte inside a character. -/
def resume (u : Unfinished) (b : UInt8) : List (Option Char) × Option Unfinished :=
  if u.low ≤ b ∧ b ≤ u.high then
    let bits := 64 * u.bits + (b.toNat - 0x80)
    if u.owed ≤ 1 then ([some (Char.ofNat bits)], none)
    else ([], some ⟨bits, u.owed - 1, 0x80, 0xbf⟩)
  else
    let (units, next) := begin b
    (none :: units, next)

/-- The characters and flaws of a text whose first character may be
under way. -/
def decodeFrom : Option Unfinished → List UInt8 → List (Option Char)
  | none, [] => []
  | some _, [] => [none]
  | state, b :: rest =>
    let (units, next) :=
      match state with
      | none => begin b
      | some u => resume u b
    units ++ decodeFrom next rest

/-- The characters of a byte sequence, with `none` for each flaw. -/
def decodeUnits (bytes : List UInt8) : List (Option Char) :=
  decodeFrom none bytes

/-- The text that the bytes encode, if they encode one. -/
def decode? (bytes : List UInt8) : Option String :=
  ((decodeUnits bytes).mapM id).map String.ofList

/-- The text that the bytes encode, with the replacement character in
the place of each flaw. -/
def decodeLossy (bytes : List UInt8) : String :=
  String.ofList ((decodeUnits bytes).map fun unit => unit.getD '\ufffd')

/-- The bytes that encode a text. -/
def encode (text : String) : List UInt8 :=
  text.toUTF8.toList

end Treewalk.Text.Utf8
