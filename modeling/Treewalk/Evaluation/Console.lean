import Treewalk.Evaluation.Expression

/-!
# `Treewalk.Evaluation.Console`: nodes that write and read

Each statement of a prompt runs, and those with a text as their value
have it printed. Then one line is read and typed; at the end of the
input the answer is `Nil`.
-/

set_option autoImplicit false

namespace Treewalk.Evaluator

open Eval

/-- Prints values on one line, a space between them. -/
def printLine (ev : Evaluator) (items : List Node) : Eval Value := do
  let texts ← evalTexts ev Value.display items
  write (" ".intercalate texts ++ "\n")
  pure .nil

/-- Runs the statements of a prompt. -/
def prompt (ev : Evaluator) : List Node → Eval Unit
  | [] => pure ()
  | first :: rest => do
    borrow (ev first) fun v =>
      match v with
      | .text s => write s
      | _ => pure ()
    prompt ev rest

/-- Asks for a line of input. -/
def ask (ev : Evaluator) (statements : List Node) : Eval Value := do
  prompt ev statements
  match ← readLine with
  | some line => pure (.ofInput line)
  | none => pure .nil

end Treewalk.Evaluator
