import Treewalk.Exit

/-!
# `Treewalk.LogEntry`: what an evaluation reports about itself

Entries are written at the points of interest of a run. They have no
effect on it. Each has a level, a message and named fields.
-/

set_option autoImplicit false

namespace Treewalk

/-- An entry of the log. -/
inductive LogEntry where
  /-- A node is about to be evaluated. Only traced runs say so. -/
  | visit (node scope : String)
  | nick (nickname name : String)
  | call (spec : String) (arity depth : Nat)
  | strayFlow (spec : String) (flow : Flow)
  | spawn (blueprint : String) (fields : Nat)
  | adopt (child parent : String)
  | plug (toolkit : String) (exports : Nat)
  | bring (path : String) (statements : Nat)
  | attemptStarts (statements : Nat)
  | attemptCaught (name : String)
  | attemptCompleted
  | attemptConcludes
  | hold (tasks : Nat)
  | signal (event : String) (handlers : Nat)
  | reported (exit : Exit)
  | flowAtTop (flow : Flow)

namespace LogEntry

/-- Whether an entry is about a single visited node. -/
def isVisit : LogEntry → Bool
  | visit .. => true
  | _ => false

/-- The level of an entry. -/
def level : LogEntry → String
  | visit .. | nick .. => "TRACE"
  | _ => "DEBUG"

/-- The message of an entry. -/
def message : LogEntry → String
  | visit .. => "eval"
  | nick .. => "nick"
  | call .. => "call"
  | strayFlow .. => "loop signal left call body"
  | spawn .. => "spawn"
  | adopt .. => "adopt"
  | plug .. => "plug"
  | bring .. => "bring"
  | attemptStarts _ => "attempt: running"
  | attemptCaught _ => "attempt: error detected"
  | attemptCompleted => "attempt: completed"
  | attemptConcludes => "attempt: concluding"
  | hold _ => "hold: draining"
  | signal .. => "signal"
  | reported _ => "runtime fault"
  | flowAtTop _ => "control flow reached top level"

/-- The fields of an entry. -/
def fields : LogEntry → List (String × String)
  | visit node scope => [("node", node), ("scope", scope)]
  | nick nickname name => [("alias", nickname), ("original", name)]
  | call spec arity depth =>
    [("spec", spec), ("arity", toString arity), ("depth", toString depth)]
  | strayFlow spec flow => [("spec", spec), ("flow", flow.debug)]
  | spawn blueprint fields => [("blueprint", blueprint), ("fields", toString fields)]
  | adopt child parent => [("child", child), ("parent", parent)]
  | plug toolkit exports => [("toolkit", toolkit), ("exports", toString exports)]
  | bring path statements => [("path", path), ("statements", toString statements)]
  | attemptStarts statements => [("statements", toString statements)]
  | attemptCaught name => [("name", name)]
  | attemptCompleted | attemptConcludes => []
  | hold tasks => [("tasks", toString tasks)]
  | signal event handlers => [("event", event), ("handlers", toString handlers)]
  | reported exit => [("category", exit.category), ("err", exit.message)]
  | flowAtTop flow => [("flow", flow.debug)]

/-- The line of an entry: level, message and fields. -/
def render (e : LogEntry) : String :=
  " ".intercalate ([e.level, e.message] ++ e.fields.map fun (name, value) => name ++ "=" ++ value)

end LogEntry

end Treewalk
