import Treewalk.Interpreter

/-!
# `Treewalk.Proofs.Variants`: the evaluator with other checks and conclusions

Some properties of a run speak of what goes on inside of it: that one of
its checks for a stop fails, or that the conclusion of an attempt has
the last word. To speak of that, `variant v` is the evaluator with
another check and another way to conclude. With its own it is the
evaluator, as `variant_own` says, so what holds of all variants holds of
the evaluator.

The checks are those before each node and those before each iteration
of a loop. So the loops and the attempt have variants too, and all other
constructs are as they are.
-/

set_option autoImplicit false

namespace Treewalk

open Eval

namespace Evaluator

/-! ### Loops with another check -/

section
variable (check : Eval Unit)

/-- `countFrom` with another check before each iteration. -/
def countFromWith (ev : Evaluator) (var : String) (stop step : Float) (body : List Node) :
    Nat → Float → Eval Unit
  | 0, _ => exhausted
  | more + 1, i => do
    if inReach i stop step then
      check
      assign var (.number i)
      if ← iteration ev body then countFromWith ev var stop step body more (i + step)

/-- `count` with another check before each iteration. -/
def countWith (ev : Evaluator) (bound : Nat) (var : String) (start stop step : Float)
    (body : List Node) : Eval Value := do
  if step == 0 || step.isNaN then fault (.mismatch .loopStep)
  else
    countFromWith check ev var stop step body bound start
    pure .nil

/-- `traverse` with another check before each iteration. -/
def traverseWith (ev : Evaluator) (bound : Nat) (var : String) (start stop : Node)
    (step : Option Node) (body : List Node) : Eval Value := do
  let a ← loopBound ev .start start
  let b ← loopBound ev .stop stop
  let s ←
    match step with
    | none => pure 1
    | some x => loopBound ev .step x
  countWith check ev bound var a b s body

/-- `each` with another check before each iteration. -/
def eachWith (ev : Evaluator) (bound : Nat) (var : String) (range : Node) (body : List Node) :
    Eval Value := do
  let (a, b) ← borrow (ev range) fun v =>
    match v with
    | .range a b => pure (a, b)
    | _ => fault (.mismatch (.notRange v.kind))
  countWith check ev bound var a b (rangeStep a b) body

/-- `untilTrue` with another check before each iteration. -/
def untilTrueWith (ev : Evaluator) (condition : Node) (body : List Node) : Nat → Eval Value
  | 0 => exhausted
  | more + 1 => do
    check
    if ← test ev condition then pure .nil
    else if ← iteration ev body then untilTrueWith ev condition body more
    else pure .nil

end

theorem countFromWith_checkInterrupt (ev : Evaluator) (var : String) (stop step : Float)
    (body : List Node) (bound : Nat) (i : Float) :
    countFromWith checkInterrupt ev var stop step body bound i =
      countFrom ev var stop step body bound i := by
  induction bound generalizing i with
  | zero => rfl
  | succ more ih => rw [countFromWith, countFrom, ih]

theorem untilTrueWith_checkInterrupt (ev : Evaluator) (condition : Node) (body : List Node)
    (bound : Nat) :
    untilTrueWith checkInterrupt ev condition body bound = untilTrue ev condition body bound := by
  induction bound with
  | zero => rfl
  | succ more ih => rw [untilTrueWith, untilTrue, ih]

/-! ### Attempts with another conclusion -/

section
variable (concluding : Except Exit Unit → Eval Unit → Eval Unit)

/-- The end of an attempt while an outcome is pending, given how the
conclusion is run. -/
def concludeWith (ev : Evaluator) (parts : Attempt Node) (pending : Except Exit Unit) :
    Eval Unit :=
  holding (Owner.refs pending) do
    concluding pending (conclude ev parts)
    ofOutcome pending

/-- What an attempt does while it has its frame, with another way to run
its conclusion. -/
def attemptInWith (ev : Evaluator) (parts : Attempt Node) (frame : ScopeId) : Eval Unit := do
  let ended ← outcome (within frame (runBlock ev parts.body))
  let pending ← settleBody ev parts ended
  concludeWith concluding ev parts pending

/-- `attempt` with another way to run its conclusion. -/
def attemptWith (ev : Evaluator) (parts : Attempt Node) : Eval Value := do
  note (.attemptStarts parts.body.length)
  (do
    let frame ← newChild (← here) .block
    holding [.scope frame] (attemptInWith concluding ev parts frame))
  pure .nil

end

theorem attemptWith_self (ev : Evaluator) (parts : Attempt Node) :
    attemptWith (fun _ x => x) ev parts = attempt ev parts := by
  unfold attemptWith
  simp only [bind_assoc]
  rfl

end Evaluator

/-! ### Variants -/

/-- What another behaviour can be given to: the check for a stop, and
the way to run the conclusion of an attempt while an outcome is
pending. -/
structure Variant where
  check : Eval Unit
  concluding : Except Exit Unit → Eval Unit → Eval Unit

namespace Variant

/-- The evaluator itself checks for a stop, and runs every conclusion as
it is. -/
def own : Variant where
  check := checkInterrupt
  concluding _ x := x

/-- What a node does in a variant. -/
def step (v : Variant) (ev : Evaluator) (run : List Node → Eval Unit) (bound : Nat) :
    Node → Eval Value
  | .traverse name start stop step body =>
    Evaluator.traverseWith v.check ev bound name start stop step body
  | .each name range body => Evaluator.eachWith v.check ev bound name range body
  | .untilTrue condition body => Evaluator.untilTrueWith v.check ev condition body bound
  | .attempt parts => Evaluator.attemptWith v.concluding ev parts
  | node => Evaluator.step ev run bound node

theorem step_own (ev : Evaluator) (run : List Node → Eval Unit) (bound : Nat) (node : Node) :
    own.step ev run bound node = Evaluator.step ev run bound node := by
  have hcount : Evaluator.countWith own.check = Evaluator.count := by
    funext ev bound var start stop step body
    show Evaluator.countWith checkInterrupt ev bound var start stop step body = _
    unfold Evaluator.countWith Evaluator.count
    rw [Evaluator.countFromWith_checkInterrupt]
  cases node with
  | traverse name start stop step body =>
    show Evaluator.traverseWith own.check ev bound name start stop step body = _
    unfold Evaluator.traverseWith
    rw [hcount]
    rfl
  | each name range body =>
    show Evaluator.eachWith own.check ev bound name range body = _
    unfold Evaluator.eachWith
    rw [hcount]
    rfl
  | untilTrue condition body =>
    exact Evaluator.untilTrueWith_checkInterrupt ev condition body bound
  | attempt parts => exact Evaluator.attemptWith_self ev parts
  | _ => rfl

end Variant

/-- The evaluator with the check and the conclusions of a variant. -/
def variant (v : Variant) : Nat → Evaluator
  | 0, _ => exhausted
  | steps + 1, node => do
    v.check
    noteVisit node
    Evaluator.recovering
      (v.step (variant v steps) (Evaluator.runBlock (variant v steps)) steps node)

namespace Proofs

/-- With its own check and its own conclusions, the evaluator is as it
is. -/
theorem variant_own (steps : Nat) : variant .own steps = evaluate steps := by
  induction steps with
  | zero => rfl
  | succ steps ih =>
    funext node
    rw [variant, evaluate, ih, Variant.step_own]
    rfl

end Proofs

end Treewalk
