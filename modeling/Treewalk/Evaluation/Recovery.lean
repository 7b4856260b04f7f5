import Treewalk.Evaluation.Basic

/-!
# `Treewalk.Evaluation.Recovery`: errors and what handles them

A fault stops at the node that met it: it is reported, and the node
yields `Nil`. An error that a program raises goes further out, to the
nearest attempt whose body it leaves.

An attempt runs its trap for such an error, and then its conclusion
whatever happened before. An exit of the conclusion takes the place of
an exit that is under way.
-/

set_option autoImplicit false

namespace Treewalk

/-- The name under which a trap sees the message of an error. -/
def peekName : String := "peek"

namespace Evaluator

open Eval

/-- An evaluation whose faults cost it its value and no more. -/
@[always_inline, inline]
def recovering (x : Eval Value) : Eval Value := do
  match ← outcome x with
  | .ok v => pure v
  | .error (.fault f) =>
    report (.fault f)
    pure .nil
  | .error e => exit e

/-- An error that the program raises. -/
def trigger (name : String) (message : Option String) : Eval Value :=
  exit (.raised name (message.getD ""))

/-- Binds what a trap sees of an error, as far as the attempt asks for
it. -/
def declareError (parts : Attempt Node) (name message : String) : Eval Unit := do
  if parts.peek then declare peekName (.ofValue (.text message))
  match parts.errorVar with
  | none => pure ()
  | some var => declare var (.ofValue (.text name))

/-- Runs a trap for an error, in a scope of its own. -/
def runTrap (ev : Evaluator) (parts : Attempt Node) (name message : String) : Eval Unit := do
  inChild (← here) .block do
    declareError parts name message
    runBlock ev parts.trap

theorem runTrap_apply (ev : Evaluator) (parts : Attempt Node) (name message : String) (c : Context)
    (m : Machine) :
    runTrap ev parts name message c m =
      inChild c.scope .block
        (do
          declareError parts name message
          runBlock ev parts.trap)
        c m :=
  rfl

/-- How an attempt stands before its conclusion, given how its body
ended. -/
def settleBody (ev : Evaluator) (parts : Attempt Node) :
    Except Exit Unit → Eval (Except Exit Unit)
  | .ok () => do
    note .attemptCompleted
    pure (.ok ())
  | .error (.raised name message) => do
    note (.attemptCaught name)
    outcome (runTrap ev parts name message)
  | .error e => pure (.error e)

/-- Runs the conclusion of an attempt, if it has one. -/
def conclude (ev : Evaluator) (parts : Attempt Node) : Eval Unit :=
  match parts.conclude with
  | none => pure ()
  | some body => do
    note .attemptConcludes
    runBlock ev body

/-- An attempt. The scope of its body lives until the attempt has
ended. -/
def attempt (ev : Evaluator) (parts : Attempt Node) : Eval Value := do
  note (.attemptStarts parts.body.length)
  let scope ← newChild (← here) .block
  holding [.scope scope] do
    let ended ← outcome (within scope (runBlock ev parts.body))
    borrow (settleBody ev parts ended) fun pending => do
      conclude ev parts
      ofOutcome pending
  pure .nil

end Evaluator

end Treewalk
