import Treewalk.Evaluation.Expression

/-!
# `Treewalk.Evaluation.Branching`: conditions and loops

A loop takes a `halt` or a `proceed` that its body exits with; any
other exit goes through it. Loops run in the current scope. Before
each iteration the run can be stopped.

Each loop is given a number of iterations that it may take. A loop
that needs more has no outcome.
-/

set_option autoImplicit false

namespace Treewalk.Evaluator

open Eval

/-- Whether the value of a node counts as true. -/
def test (ev : Evaluator) (condition : Node) : Eval Bool :=
  borrow (ev condition) fun v => pure v.truth

/-- Runs the body of the first branch whose condition holds, or else
the alternative. -/
def branches (ev : Evaluator) (altern : Option (List Node)) : List (Branch Node) → Eval Unit
  | [] => runBlock ev (altern.getD [])
  | first :: rest => do
    if ← test ev first.condition then runBlock ev first.body
    else branches ev altern rest

/-- A choice between branches. -/
def check (ev : Evaluator) (first : Branch Node) (alters : List (Branch Node))
    (altern : Option (List Node)) : Eval Value := do
  branches ev altern (first :: alters)
  pure .nil

/-- Whether a loop goes on after an iteration. -/
def goesOn : Except Exit Unit → Eval Bool
  | .ok () | .error (.flow .proceed) => pure true
  | .error (.flow .halt) => pure false
  | .error e => exit e

/-- Runs one iteration, and says whether the loop goes on. -/
def iteration (ev : Evaluator) (body : List Node) : Eval Bool := do
  goesOn (← outcome (runBlock ev body))

/-- Whether a counted loop has not yet passed its end. -/
def inReach (i stop step : Float) : Bool :=
  (0 < step && i ≤ stop) || (step < 0 && stop ≤ i)

/-- Counts a name from `i` on and runs the body for each number within
reach. -/
def countFrom (ev : Evaluator) (var : String) (stop step : Float) (body : List Node) :
    Nat → Float → Eval Unit
  | 0, _ => exhausted
  | more + 1, i => do
    if inReach i stop step then
      checkInterrupt
      assign var (.number i)
      if ← iteration ev body then countFrom ev var stop step body more (i + step)

/-- A counted loop, unless its step leads nowhere. -/
def count (ev : Evaluator) (bound : Nat) (var : String) (start stop step : Float)
    (body : List Node) : Eval Value := do
  if step == 0 || step.isNaN then fault (.mismatch .loopStep)
  else
    countFrom ev var stop step body bound start
    pure .nil

/-- The value of a node as a bound of a loop. -/
def loopBound (ev : Evaluator) (which : LoopBound) (x : Node) : Eval Float :=
  borrow (ev x) fun v =>
    match v with
    | .number x => pure x
    | _ => fault (.mismatch (.loopBound which v.kind))

/-- A loop that counts from one number to another. -/
def traverse (ev : Evaluator) (bound : Nat) (var : String) (start stop : Node)
    (step : Option Node) (body : List Node) : Eval Value := do
  let a ← loopBound ev .start start
  let b ← loopBound ev .stop stop
  let s ←
    match step with
    | none => pure 1
    | some x => loopBound ev .step x
  count ev bound var a b s body

/-- The step that leads from one end of a range to the other. -/
def rangeStep (start stop : Float) : Float :=
  if start ≤ stop then 1 else -1

/-- A loop over a range. -/
def each (ev : Evaluator) (bound : Nat) (var : String) (range : Node) (body : List Node) :
    Eval Value := do
  let (a, b) ← borrow (ev range) fun v =>
    match v with
    | .range a b => pure (a, b)
    | _ => fault (.mismatch (.notRange v.kind))
  count ev bound var a b (rangeStep a b) body

/-- Runs the body until the condition holds before an iteration. -/
def untilTrue (ev : Evaluator) (condition : Node) (body : List Node) : Nat → Eval Value
  | 0 => exhausted
  | more + 1 => do
    checkInterrupt
    if ← test ev condition then pure .nil
    else if ← iteration ev body then untilTrue ev condition body more
    else pure .nil

end Treewalk.Evaluator
