import Treewalk.Evaluation.Invocation

/-!
# `Treewalk.Evaluation.Object`: blueprints and their instances

The attributes and methods of a blueprint are evaluated in its own
scope, and an instance starts with a copy of that scope. Adopting
copies the bindings of one blueprint into another.
-/

set_option autoImplicit false

namespace Treewalk.Evaluator

open Eval

/-- Declares one attribute in the current scope. A bare name is bound
to `Nil` and an assignment to a name binds it here; any other node
just runs. -/
def declareAttribute (ev : Evaluator) : Node → Eval Unit
  | .var name => declare name (.ofValue .nil)
  | .statement x => declareAttribute ev x
  | .assign (.var name) value => borrow (ev value) fun v => declare name (.ofValue v)
  | x => forget (ev x)

/-- Declares attributes one after the other. -/
def declareAttributes (ev : Evaluator) : List Node → Eval Unit
  | [] => pure ()
  | first :: rest => do
    declareAttribute ev first
    declareAttributes ev rest

/-- The declaration of a blueprint. -/
def declareBlueprint (ev : Evaluator) (decl : BlueprintDecl Node) : Eval Value := do
  let scope ← newChild (← here) .blueprint
  holding [.scope scope] do
    within scope do
      declareAttributes ev decl.attributes
      runBlock ev decl.methods
    declare decl.name (.ofValue (.blueprint ⟨decl.name, scope, decl.constructor⟩))
  pure .nil

/-- A new instance of a blueprint. -/
def newInstance (b : Blueprint) : Eval Instance :=
  fun _ m =>
    let (i, store) := m.store.spawn b
    some (.ok i, { m with store })

/-- Runs the constructor of a new instance, if its blueprint has one.
Arguments of the wrong number are reported and leave the instance as
it is. -/
def initialise (ev : Evaluator) (run : List Node → Eval Unit) (i : Instance) (args : List Node) :
    Eval Unit :=
  let name := i.blueprint.name
  match i.blueprint.constructor with
  | none => pure ()
  | some c =>
    match checkArity name (expectedArgs c.params) args.length with
    | .error f => report (.fault f)
    | .ok () => do
      let vs ← evalAll ev args
      forget (callMethod run i name c.params c.body vs)

/-- The making of an instance. -/
def spawn (ev : Evaluator) (run : List Node → Eval Unit) (source : Node) (args : List Node) :
    Eval Value :=
  borrow (ev source) fun b =>
    match b with
    | .blueprint b => do
      let i ← newInstance b
      note (.spawn b.name (← boundCount i.fields))
      holding [.instance i.id] do
        initialise ev run i args
        pure (.object i)
    | _ => fault (.mismatch (.notSpawnable b.kind))

/-- The blueprint that a name stands for. -/
def lookupBlueprint (name : String) : Eval Blueprint := do
  match ← lookupAs .blueprint name with
  | .blueprint b => pure b
  | v => fault (.mismatch (.notBlueprint name v.kind))

/-- The adoption of one blueprint by another. -/
def adopt (child parent : String) : Eval Value := do
  let c ← lookupBlueprint child
  let p ← lookupBlueprint parent
  note (.adopt c.name p.name)
  holding [.scope c.scope, .scope p.scope] (copyBindings c.scope p.scope)
  pure .nil

/-- What an instance answers to an attribute name: its own field, or
else what its blueprint declares. -/
def attribute? (i : Instance) (name : String) : Eval (Option Value) := do
  match ← getLocal? i.fields name with
  | some v => pure (some v)
  | none => getLocal? i.blueprint.scope name

/-- What a value answers to an attribute name. Only instances and
toolkits answer any. -/
def member? (o : Value) (name : String) : Eval (Option Value) :=
  match o with
  | .object i => attribute? i name
  | .toolkit t => getLocal? t.exports name
  | _ => fault (.mismatch (.notReadable name o.kind))

/-- The value of an attribute of an instance or of an export of a
toolkit. -/
def readAttribute (ev : Evaluator) (object : Node) (name : String) : Eval Value :=
  borrow (ev object) fun o => do
    match ← member? o name with
    | some v => pure v
    | none => fault (.undefined .attr name)

end Treewalk.Evaluator
