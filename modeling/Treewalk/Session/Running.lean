import Treewalk.Session.Basic

/-!
# `Treewalk.Session.Running`: what a host has its interpreter do

Each operation runs in a scope that the host names by its number. The
value of an evaluated node is not yet let go: the host looks at it and
then releases it.
-/

set_option autoImplicit false

namespace Treewalk.Session

/-- A number of steps that no run gets to spend. -/
def patience : Nat := Nat.pow 2 60

/-- Performs an evaluation in a scope. -/
def perform {α : Type} (s : Session) (scope : ScopeId) (x : Eval α) :
    Option (Except Exit α × Session) :=
  match x ⟨s.settings, scope, s.held⟩ s.machine with
  | none => none
  | some (r, machine) => some (r, { s with machine })

/-- Runs a program in a scope. -/
def run (s : Session) (scope : ScopeId) (program : Node) : Option (Except Exit Unit × Session) :=
  s.perform scope (runProgram (evaluate patience) program)

/-- Evaluates a node in a scope. -/
def eval (s : Session) (scope : ScopeId) (node : Node) : Option (Except Exit Value × Session) :=
  s.perform scope (evaluate patience node)

/-- Binds a name in a scope. -/
def declare (s : Session) (scope : ScopeId) (name : String) (b : Binding) :
    Option (Except Exit Unit × Session) :=
  s.perform scope (Eval.declare name b)

/-- Gives a name a value as seen from a scope. -/
def assign (s : Session) (scope : ScopeId) (name : String) (v : Value) :
    Option (Except Exit Unit × Session) :=
  s.perform scope (Eval.assign name v)

/-- Copies the bindings of one scope into another. -/
def copy (s : Session) (target source : ScopeId) : Option (Except Exit Unit × Session) :=
  s.perform target (Eval.copyBindings target source)

/-- The session whose runs are to stop, or may go on again. -/
def setInterrupted (s : Session) (interrupted : Bool) : Session :=
  { s with machine := { s.machine with interrupted } }

end Treewalk.Session
