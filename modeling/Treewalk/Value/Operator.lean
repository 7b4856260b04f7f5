import Treewalk.Fault
import Treewalk.Number.Numeral
import Treewalk.Number.Remainder
import Treewalk.Value.Rendering

/-!
# `Treewalk.Value.Operator`: what operators compute

A program writes an operator as a symbol; a symbol without a meaning
is a fault. Operators on numbers refuse operands of other kinds, with
the one exception that two texts can be joined. Equality and the
logical operators take any two values.

Reading and converting text are here too: `convert` gives a value the
text or number form that a program asks for, and `ofInput` types a
line that a user entered.
-/

set_option autoImplicit false

namespace Treewalk

/-- An operator between two numbers that gives a number. -/
inductive Arithmetic where
  | add
  | sub
  | mul
  | div
  | rem
deriving DecidableEq, Repr

namespace Arithmetic

/-- The result of an arithmetic operator. -/
def apply : Arithmetic → Float → Float → Float
  | add, x, y => x + y
  | sub, x, y => x - y
  | mul, x, y => x * y
  | div, x, y => x / y
  | rem, x, y => Number.remainder x y

end Arithmetic

/-- An operator that compares two numbers. -/
inductive Comparison where
  | greater
  | less
  | greaterOrEqual
  | lessOrEqual
deriving DecidableEq, Repr

namespace Comparison

/-- Whether two numbers compare as asked. A number that is none
compares with nothing. -/
def holds : Comparison → Float → Float → Bool
  | greater, x, y => y < x
  | less, x, y => x < y
  | greaterOrEqual, x, y => y ≤ x
  | lessOrEqual, x, y => x ≤ y

end Comparison

/-- An operator between two values. -/
inductive BinaryOp where
  | arithmetic (op : Arithmetic)
  | comparison (op : Comparison)
  | equal
  | different
  | both
  | either
  | range
  | isKind
deriving DecidableEq, Repr

namespace BinaryOp

/-- The operators and their symbols. -/
def symbols : List (String × BinaryOp) :=
  [("+", .arithmetic .add), ("-", .arithmetic .sub), ("*", .arithmetic .mul),
    ("/", .arithmetic .div), ("%", .arithmetic .rem), (">", .comparison .greater),
    ("<", .comparison .less), (">=", .comparison .greaterOrEqual),
    ("<=", .comparison .lessOrEqual), ("==", .equal), ("'=", .different), ("and", .both),
    ("or", .either), ("..", .range), ("is", .isKind)]

/-- The operator with the given symbol. -/
def ofSymbol? (symbol : String) : Option BinaryOp :=
  symbols.lookup symbol

end BinaryOp

/-- An operator on one value. -/
inductive UnaryOp where
  | negate
  | not
deriving DecidableEq, Repr

namespace UnaryOp

/-- The operators and their symbols. -/
def symbols : List (String × UnaryOp) :=
  [("'", .not), ("-", .negate)]

/-- The operator with the given symbol. -/
def ofSymbol? (symbol : String) : Option UnaryOp :=
  symbols.lookup symbol

end UnaryOp

namespace Value

/-- Both values as numbers, or the fault of the operator that needs
them so. -/
def bothNumbers (symbol : String) : Value → Value → Except Fault (Float × Float)
  | number x, number y => .ok (x, y)
  | l, r => .error (.mismatch (.operands symbol l.kind r.kind))

/-- Whether a value is of the kind that the other one names. -/
def testKind (v : Value) : Value → Except Fault Bool
  | text name =>
    match Kind.ofName? name with
    | some k => .ok (v.kind = k)
    | none => .error (.unknownKind name)
  | other => .error (.mismatch (.notKindName other.kind))

/-- The result of a binary operator, whose symbol is named in
faults. -/
def applyOp (symbol : String) : BinaryOp → Value → Value → Except Fault Value
  | .arithmetic .add, text s, text t => .ok (text (s ++ t))
  | .arithmetic op, l, r => do
    let (x, y) ← bothNumbers symbol l r
    .ok (number (op.apply x y))
  | .comparison op, l, r => do
    let (x, y) ← bothNumbers symbol l r
    .ok (bool (op.holds x y))
  | .equal, l, r => .ok (bool (l == r))
  | .different, l, r => .ok (bool (l != r))
  | .both, l, r => .ok (bool (l.truth && r.truth))
  | .either, l, r => .ok (bool (l.truth || r.truth))
  | .range, l, r => do
    let (x, y) ← bothNumbers symbol l r
    .ok (range x y)
  | .isKind, l, r => do
    let b ← testKind l r
    .ok (bool b)

/-- The result of the binary operator with the given symbol. -/
def applyBinary (symbol : String) (l r : Value) : Except Fault Value :=
  match BinaryOp.ofSymbol? symbol with
  | some op => applyOp symbol op l r
  | none => .error (.unknownOperator symbol)

/-- The result of the unary operator with the given symbol. -/
def applyUnary (symbol : String) (v : Value) : Except Fault Value :=
  match UnaryOp.ofSymbol? symbol with
  | some .not => .ok (bool !v.truth)
  | some .negate =>
    match v with
    | number x => .ok (number (-x))
    | _ => .error (.mismatch (.notNegatable v.kind))
  | none => .error (.unknownOperator symbol)

/-- The number form of a value: the number that a text begins with,
and zero for what has none. -/
def toNumber : Value → Float
  | number x => x
  | text s => Number.readLeading s
  | _ => 0

/-- A value converted to the kind with the given name. Only texts and
numbers can be asked for. -/
def convert (target : String) (v : Value) : Except Fault Value :=
  match Kind.ofName? target with
  | some .text => .ok (text v.display)
  | some .number => .ok (number v.toNumber)
  | _ => .error (.unknownKind target)

/-- A text without the spaces and tabs around it. -/
def trimSpaces (s : String) : String :=
  let isSpace (c : Char) : Bool := c == ' ' || c == '\t'
  String.ofList ((s.toList.dropWhile isSpace).reverse.dropWhile isSpace).reverse

/-- The value of a line of input. Three words stand for values, a text
that is a number as a whole becomes one, and any other stays text
without the spaces and tabs around it. -/
def ofInput (line : String) : Value :=
  match trimSpaces line with
  | "On" => bool true
  | "Off" => bool false
  | "Nil" => nil
  | s =>
    match Number.readWhole? s with
    | some x => number x
    | none => text s

end Value

end Treewalk
