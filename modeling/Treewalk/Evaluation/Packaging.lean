import Treewalk.Evaluation.Expression

/-!
# `Treewalk.Evaluation.Packaging`: toolkits, bridges and modules

A toolkit has a scope for its body and a scope of its own for what it
exports; plugging it in copies the exports. A module is a list of
statements behind a path, and bringing it runs them in the current
scope. A module that is being brought is not brought again inside
itself.
-/

set_option autoImplicit false

namespace Treewalk.Evaluator

open Eval

/-- The declaration of a toolkit. -/
def declareToolkit (ev : Evaluator) (name : String) (body : List Node) : Eval Value := do
  let exports ← newScope .exports
  let scope ← newChild (← here) (.toolkit exports)
  holding [.scope scope, .scope exports] do
    within scope (runBlock ev body)
    declare name (.ofValue (.toolkit ⟨name, scope, exports⟩))
  pure .nil

/-- The declaration of a bridge. -/
def declareBridge (ev : Evaluator) (name : String) (body : List Node) : Eval Value := do
  let scope ← newChild (← here) .bridge
  holding [.scope scope] do
    within scope (runBlock ev body)
    declare name (.ofValue (.bridge ⟨name, scope⟩))
  pure .nil

/-- Adds a name to the exports of the toolkit around it. -/
def expose (name : String) : Eval Value := do
  match ← nearestExports? with
  | none => fault (.mismatch .exposeOutsideToolkit)
  | some exports =>
    let v ← lookupAs .identifier name
    declareIn exports name (.ofValue v)
    pure .nil

/-- The statements of a module, or why they are not to be had. -/
def findModule (source : Option ModuleSource) (path : String) : Except LoadProblem (List Node) :=
  match source with
  | none => .error .noSource
  | some source => (source path).mapError .refused

/-- The statements of a module, which counts as being brought from now
on. -/
def startBring (path : String) : Eval (List Node) := do
  let c ← context
  let m ← machine
  if m.bringing.contains path then fault (.load path .cycle)
  else
    match findModule c.settings.modules path with
    | .error problem => fault (.load path problem)
    | .ok statements =>
      modify fun m => { m with bringing := path :: m.bringing }
      pure statements

theorem startBring_apply (path : String) (c : Context) (m : Machine) :
    startBring path c m =
      if m.bringing.contains path then some (.error (.fault (.load path .cycle)), m)
      else
        match findModule c.settings.modules path with
        | .error problem => some (.error (.fault (.load path problem)), m)
        | .ok statements => some (.ok statements, { m with bringing := path :: m.bringing }) := by
  show (if m.bringing.contains path then (fault _ : Eval (List Node))
    else
      match findModule c.settings.modules path with
      | .error problem => fault (.load path problem)
      | .ok statements => do
        modify fun m => { m with bringing := path :: m.bringing }
        pure statements) c m = _
  split
  · rfl
  · split <;> rename_i hfound <;> rw [hfound] <;> rfl

/-- Ends the bringing of the module that was begun last. -/
def finishBring : Eval Unit :=
  modify fun m => { m with bringing := m.bringing.tail }

/-- Runs the statements of a module in the current scope. -/
def splice (ev : Evaluator) (path : String) : Eval Unit := do
  let statements ← startBring path
  note (.bring path statements.length)
  let result ← outcome (runBlock ev statements)
  finishBring
  ofOutcome result

/-- Whether a name can be seen from the current scope. -/
def isBound (name : String) : Eval Bool := do
  pure (← lookup? name).isSome

/-- Brings the module of a toolkit that is not bound yet, if it has
one. -/
def fetch (ev : Evaluator) (name : String) (path : Option String) : Eval Unit := do
  if ← isBound name then pure ()
  else
    match path with
    | none => pure ()
    | some path => splice ev path

/-- Copies the exports of a toolkit into the current scope. One that
is not bound yet is fetched before. -/
def plug (ev : Evaluator) (name : String) (path : Option String) : Eval Value := do
  fetch ev name path
  match ← lookupAs .toolkit name with
  | .toolkit t =>
    note (.plug t.name (← boundCount t.exports))
    holding (Value.toolkit t).refs (do copyBindings (← here) t.exports)
    pure .nil
  | v => fault (.mismatch (.notPluggable name v.kind))

/-- Checks that a module has bound the names asked of it. -/
def requireNames : List String → Eval Unit
  | [] => pure ()
  | name :: rest => do
    if ← isBound name then requireNames rest
    else fault (.undefined .brought name)

/-- Brings a module and the names asked of it. -/
def bring (ev : Evaluator) (names : List String) (path : String) : Eval Value := do
  splice ev path
  requireNames names
  pure .nil

end Treewalk.Evaluator
