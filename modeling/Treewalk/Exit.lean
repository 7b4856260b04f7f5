import Treewalk.Fault
import Treewalk.Value.Rendering

/-!
# `Treewalk.Exit`: how an evaluation ends without a value

Besides a fault there are four ways to leave a node early. A raised
error goes to the nearest attempt around it. A flow signal goes to the
loop or call it is meant for. An interruption and a failed stream end
the run.
-/

set_option autoImplicit false

namespace Treewalk

/-- A signal that leaves a loop or a call. -/
inductive Flow where
  | back (value : Value)
  | halt
  | proceed

namespace Flow

/-- The text of a signal for diagnosis. -/
def debug : Flow → String
  | back value => "Return \x7b value: " ++ value.debug ++ " \x7d"
  | halt => "Halt"
  | proceed => "Proceed"

/-- What a signal keeps alive. -/
def refs : Flow → List Ref
  | back value => value.refs
  | _ => []

end Flow

/-- The end of an evaluation without a value. -/
inductive Exit where
  | fault (f : Fault)
  /-- An error that the program raised. -/
  | raised (name message : String)
  | flow (f : Flow)
  | interrupted
  /-- A stream that failed, with its reason. -/
  | stream (reason : String)

namespace Exit

/-- The category of an exit in diagnostics. -/
def category : Exit → String
  | fault f => f.category
  | raised .. => "UncaughtError"
  | flow _ => "ControlFlowError"
  | interrupted => "Interrupted"
  | stream _ => "IoError"

/-- What is said about an exit. -/
def message : Exit → String
  | fault f => f.message
  | raised name message => name ++ ": " ++ message
  | flow f => "control flow outside of its construct: " ++ f.debug
  | interrupted => "evaluation interrupted"
  | stream reason => "I/O error: " ++ reason

/-- Whether the interpreter works around an exit at the node that met
it. -/
def isFault : Exit → Bool
  | fault _ => true
  | _ => false

/-- What an exit keeps alive. -/
def refs : Exit → List Ref
  | flow f => f.refs
  | _ => []

end Exit

end Treewalk
