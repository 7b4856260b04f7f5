import Treewalk.Evaluation.Expression

/-!
# `Treewalk.Evaluation.Binding`: nodes that bind a name

An assignment evaluates its value before it looks at its target. A
spec with a name is bound where it is declared, and an exported one
also among the exports of the toolkit around it. A spec without a name
is a value.
-/

set_option autoImplicit false

namespace Treewalk.Evaluator

open Eval

/-- Gives a name or an attribute a value. Any other target is a
mismatch. -/
def writeTo (ev : Evaluator) (v : Value) : Node → Eval Unit
  | .var name => assign name v
  | .attributeOf object name =>
    borrow (ev object) fun o =>
      match o with
      | .object i => declareIn i.fields name (.ofValue v)
      | _ => fault (.mismatch (.noAttributes name o.kind))
  | target => fault (.mismatch (.notAssignable target.kindName))

/-- An assignment. -/
def assignTo (ev : Evaluator) (target value : Node) : Eval Value :=
  borrow (ev value) fun v => do
    writeTo ev v target
    pure .nil

/-- The declaration of a constant. -/
def declareConstant (ev : Evaluator) (name : String) (value : Node) : Eval Value :=
  borrow (ev value) fun v => do
    declare name ⟨v, true⟩
    pure .nil

/-- Adds a value to the exports of the toolkit around the current
scope, if there is one. -/
def exportIfInToolkit (name : String) (v : Value) : Eval Unit := do
  match ← nearestExports? with
  | some exports => declareIn exports name (.ofValue v)
  | none => pure ()

theorem exportIfInToolkit_apply (name : String) (v : Value) (c : Context) (m : Machine) :
    exportIfInToolkit name v c m =
      match m.store.nearestExports? c.scope with
      | some exports => settle (m.store.declare exports name (.ofValue v)) c m
      | none => some (.ok (), m) := by
  unfold exportIfInToolkit
  show Eval.bind nearestExports? _ c m = _
  simp only [Eval.bind, nearestExports?]
  cases m.store.nearestExports? c.scope <;> rfl

/-- The declaration of a spec. -/
def declareSpec (decl : Spec Node) : Eval Value :=
  match decl.name with
  | none => pure (.spec decl)
  | some name => do
    declare name (.ofValue (.spec decl))
    if decl.isExported then exportIfInToolkit name (.spec decl)
    pure .nil

/-- The assignment of an implementation to the name of a greeter. -/
def link (ev : Evaluator) (greeter : String) (implementation : Node) : Eval Value :=
  borrow (ev implementation) fun v => do
    assign greeter v
    pure .nil

end Treewalk.Evaluator
