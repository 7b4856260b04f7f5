import Treewalk.Evaluation.Evaluate

/-!
# `Treewalk.Interpreter`: running programs

A program runs statement by statement. An error that no attempt took
is reported and costs the program that statement only, and a flow
signal that nothing took is dropped. An interruption or a failed
stream ends the run.
-/

set_option autoImplicit false

namespace Treewalk

open Eval

/-- The version of the language. -/
def version : String := "0.1.0"

/-- Goes on after a statement of a program, if its outcome allows. -/
def afterStatement : Except Exit Value → Eval Unit
  | .ok _ => pure ()
  | .error (.raised name message) => report (.raised name message)
  | .error (.flow f) => note (.flowAtTop f)
  | .error e => exit e

/-- Runs the statements of a program one after the other. -/
def runStatements (ev : Evaluator) : List Node → Eval Unit
  | [] => pure ()
  | first :: rest => do
    borrow (outcome (ev first)) afterStatement
    runStatements ev rest

/-- The statements that a node consists of when it is run as a
program. -/
def Node.statements : Node → List Node
  | .program body => body
  | node => [node]

/-- Runs a program in the current scope. -/
def runProgram (ev : Evaluator) (program : Node) : Eval Unit :=
  runStatements ev program.statements

end Treewalk
