import Treewalk.Text.Printable

/-!
# `Treewalk.Text.Quoted`: text between quotes

The quoted form of a text shows every character unmistakably. The
quote, the backslash and four control characters have a short escape.
Any other character that cannot be shown as it is becomes the
hexadecimal number of its code point between braces.
-/

set_option autoImplicit false

namespace Treewalk.Text

/-- The escape of a code point by its number. -/
def numberedEscape (c : Char) : List Char :=
  ['\\', 'u', '\x7b'] ++ Nat.toDigits 16 c.toNat ++ ['\x7d']

/-- The quoted form of one character. -/
def quoteChar (c : Char) : List Char :=
  if c = '\x00' then ['\\', '0']
  else if c = '\t' then ['\\', 't']
  else if c = '\n' then ['\\', 'n']
  else if c = '\r' then ['\\', 'r']
  else if c = '"' then ['\\', '"']
  else if c = '\\' then ['\\', '\\']
  else if isPlain c then [c]
  else numberedEscape c

/-- The quoted form of a text. -/
def quoted (text : String) : String :=
  String.ofList ('"' :: text.toList.flatMap quoteChar ++ ['"'])

end Treewalk.Text
