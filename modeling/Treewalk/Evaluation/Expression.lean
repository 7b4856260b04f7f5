import Treewalk.Evaluation.Basic
import Treewalk.Value.Operator

/-!
# `Treewalk.Evaluation.Expression`: nodes that compute a value

Operands are evaluated from left to right, all of them in every case:
a logical operator does not skip its second operand.
-/

set_option autoImplicit false

namespace Treewalk.Evaluator

open Eval

/-- The text of the pieces of an interpolated text. -/
def pieces (ev : Evaluator) : List (Piece Node) → Eval String
  | [] => pure ""
  | .literal s :: rest => do
    let t ← pieces ev rest
    pure (s ++ t)
  | .expression x :: rest => do
    let s ← borrow (ev x) fun v => pure v.display
    let t ← pieces ev rest
    pure (s ++ t)

/-- A text with the texts of values in it. -/
def interpolated (ev : Evaluator) (parts : List (Piece Node)) : Eval Value := do
  let s ← pieces ev parts
  pure (.text s)

/-- The text of a list of values. -/
def pack (ev : Evaluator) (items : List Node) : Eval Value := do
  let texts ← evalTexts ev Value.packItem items
  pure (.text ("[" ++ ", ".intercalate texts ++ "]"))

/-- An operator between two values. -/
def binary (ev : Evaluator) (op : String) (left right : Node) : Eval Value :=
  borrow (ev left) fun l =>
    borrow (ev right) fun r =>
      ofExcept (Value.applyBinary op l r)

/-- An operator on one value. -/
def unary (ev : Evaluator) (op : String) (operand : Node) : Eval Value :=
  borrow (ev operand) fun v => ofExcept (Value.applyUnary op v)

/-- The name of the kind of a value. -/
def kindOf (ev : Evaluator) (x : Node) : Eval Value :=
  borrow (ev x) fun v => pure (.text v.kind.name)

/-- A value converted to another kind. -/
def convert (ev : Evaluator) (source : Node) (target : String) : Eval Value :=
  borrow (ev source) fun v => ofExcept (Value.convert target v)

/-- The value of a name, looked up as the subject says. -/
def lookupAs (subject : Subject) (name : String) : Eval Value := do
  match ← lookup? name with
  | some v => pure v
  | none => fault (.undefined subject name)

end Treewalk.Evaluator
