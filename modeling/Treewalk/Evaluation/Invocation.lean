import Treewalk.Evaluation.Expression

/-!
# `Treewalk.Evaluation.Invocation`: calls

A spec has no memory of where it was declared: the frame of a call is
made in the scope of the caller. The frame of a method is made in the
fields of the receiver.

A call refuses arguments of the wrong number before it evaluates any.
It is also refused when as many calls are running as the settings
allow. Whatever way the body ends, the call is counted out again. A
`back` gives the call its value; a loop signal that no loop took ends
the body.

A call takes two parameters besides its parts: `ev` evaluates what
stands at the call, and `run` runs the body.
-/

set_option autoImplicit false

namespace Treewalk

/-- The name under which a method sees its receiver, whatever it calls
its first parameter. -/
def receiverName : String := "own"

namespace Evaluator

open Eval

/-- Counts a call in, unless too many are running. -/
def enterCall : Eval Unit := do
  let c ← context
  let m ← machine
  if c.settings.maxDepth ≤ m.depth then fault (.tooDeep m.depth c.settings.maxDepth)
  else modify fun m => { m with depth := m.depth + 1 }

theorem enterCall_apply (c : Context) (m : Machine) :
    enterCall c m =
      if c.settings.maxDepth ≤ m.depth then
        some (.error (.fault (.tooDeep m.depth c.settings.maxDepth)), m)
      else some (.ok (), { m with depth := m.depth + 1 }) := by
  show (if c.settings.maxDepth ≤ m.depth then (fault _ : Eval Unit)
    else modify fun m => { m with depth := m.depth + 1 }) c m = _
  split <;> rfl

/-- The number of calls that are running. -/
def callDepth : Eval Nat :=
  fun _ m => some (.ok m.depth, m)

/-- Counts a call out. -/
def exitCall : Eval Unit :=
  modify fun m => { m with depth := m.depth - 1 }

/-- Binds the names that a body starts with in the current scope. -/
def declareLocals : List (String × Value) → Eval Unit
  | [] => pure ()
  | (name, v) :: rest => do
    declare name (.ofValue v)
    declareLocals rest

/-- The value of a call whose body has ended. -/
def finishCall (name : String) : Except Exit Unit → Eval Value
  | .ok () => pure .nil
  | .error (.flow (.back v)) => pure v
  | .error (.flow f) => do
    note (.strayFlow name f)
    pure .nil
  | .error e => exit e

/-- Binds the names that a body starts with in the current scope, and
notes the call. -/
def prepareCall (name : String) (arity : Nat) (locals : List (String × Value)) :
    Eval (Except Exit Unit) := do
  note (.call name arity (← callDepth))
  outcome (declareLocals locals)

/-- How a body ends, once it is counted in and its names are bound.
From then on the frame alone keeps their values alive. -/
def runCall (name : String) (arity : Nat) (locals : List (String × Value)) (body : Eval Unit) :
    Eval (Except Exit Unit) := do
  let bound ← holding (Owner.refs (locals.map Prod.snd)) do
    enterCall
    prepareCall name arity locals
  outcome do
    ofOutcome bound
    body

/-- Runs a body in the current scope after binding the names it starts
with. A call that was counted in is counted out. -/
def invoke (name : String) (arity : Nat) (locals : List (String × Value)) (body : Eval Unit) :
    Eval Value := do
  let result ← runCall name arity locals body
  exitCall
  finishCall name result

/-- Calls a spec from the current scope. -/
def callSpec (run : List Node → Eval Unit) (name : String) (s : Spec Node) (args : List Value) :
    Eval Value := do
  inChild (← here) .function (invoke name args.length (s.params.zip args) (run s.body))

theorem callSpec_apply (run : List Node → Eval Unit) (name : String) (s : Spec Node)
    (args : List Value) (c : Context) (m : Machine) :
    callSpec run name s args c m =
      inChild c.scope .function (invoke name args.length (s.params.zip args) (run s.body)) c m :=
  rfl

/-- The names that a method starts with: its first parameter and the
name for the receiver, both bound to it, and the other parameters. -/
def methodLocals (receiver : Instance) (params : List String) (args : List Value) :
    List (String × Value) :=
  (params.take 1 ++ [receiverName]).map (·, .object receiver) ++ params.tail.zip args

/-- Calls a method of an instance. Its frame is made in the fields. -/
def callMethod (run : List Node → Eval Unit) (receiver : Instance) (name : String)
    (params : List String) (body : List Node) (args : List Value) : Eval Value :=
  inChild receiver.fields .method
    (invoke name args.length (methodLocals receiver params args) (run body))

/-- The number of arguments that a method or constructor expects
beside its receiver. -/
def expectedArgs (params : List String) : Nat :=
  params.length - 1

/-- What is called. A name that stands for nothing is no spec. -/
def calleeOf (ev : Evaluator) : Node → Eval Value
  | .var name => lookupAs .spec name
  | callee => ev callee

/-- A call. -/
def call (ev : Evaluator) (run : List Node → Eval Unit) (callee : Node) (args : List Node) :
    Eval Value :=
  borrow (calleeOf ev callee) fun f =>
    match f with
    | .spec s => do
      ofExcept (checkArity s.displayName s.params.length args.length)
      let vs ← evalAll ev args
      callSpec run s.displayName s vs
    | _ => fault (.mismatch (.notCallable f.kind))

/-- What an instance answers to a method name: what its blueprint
declares, if that is a spec, and else its own field. -/
def method? (i : Instance) (name : String) : Eval (Option Value) := do
  match ← getLocal? i.blueprint.scope name with
  | some (.spec s) => pure (some (.spec s))
  | _ => getLocal? i.fields name

/-- A call of a method of an instance or of an export of a toolkit. -/
def methodCall (ev : Evaluator) (run : List Node → Eval Unit) (object : Node) (method : String)
    (args : List Node) : Eval Value :=
  borrow (ev object) fun o =>
    match o with
    | .object i => do
      match ← method? i method with
      | some (.spec s) =>
        ofExcept (checkArity method (expectedArgs s.params) args.length)
        let vs ← evalAll ev args
        callMethod run i method s.params s.body vs
      | some v => fault (.mismatch (.notMethod method v.kind))
      | none => fault (.undefined .method method)
    | .toolkit t => do
      match ← getLocal? t.exports method with
      | some (.spec s) =>
        ofExcept (checkArity method s.params.length args.length)
        let vs ← evalAll ev args
        callSpec run method s vs
      | some v => fault (.mismatch (.notExportedSpec t.name method v.kind))
      | none => fault (.undefined .exported method)
    | _ => fault (.mismatch (.noMethods method o.kind))

/-- The end of a call with a value. -/
def back (ev : Evaluator) : Option Node → Eval Value
  | none => exit (.flow (.back .nil))
  | some x => do
    let v ← ev x
    exit (.flow (.back v))

end Evaluator

end Treewalk
