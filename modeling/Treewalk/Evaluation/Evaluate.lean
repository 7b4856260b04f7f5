import Treewalk.Evaluation.Binding
import Treewalk.Evaluation.Branching
import Treewalk.Evaluation.Console
import Treewalk.Evaluation.Object
import Treewalk.Evaluation.Packaging
import Treewalk.Evaluation.Recovery
import Treewalk.Evaluation.Scheduling

/-!
# `Treewalk.Evaluation.Evaluate`: the evaluator

`step` says what each form of node does, given an evaluator for the
nodes inside, a way to run the bodies of the calls it makes, and a
number of iterations that its loops may take.
`evaluate` closes the circle with a number of steps that bounds both
how deep evaluations go and how long loops run.

Before a node does anything the run can be stopped, and after it a
fault is reported and costs the node its value.
-/

set_option autoImplicit false

namespace Treewalk

open Eval

namespace Evaluator

/-- Runs a block for a node that has no value. -/
def block (ev : Evaluator) (body : List Node) : Eval Value := do
  runBlock ev body
  pure .nil

/-- Runs a block in a new scope. -/
def embed (ev : Evaluator) (body : List Node) : Eval Value := do
  inChild (← here) .block (runBlock ev body)
  pure .nil

theorem embed_apply (ev : Evaluator) (body : List Node) (c : Context) (m : Machine) :
    embed ev body c m =
      (inChild c.scope .block (runBlock ev body) >>= fun _ => pure .nil) c m :=
  rfl

/-- What a node does. -/
def step (ev : Evaluator) (run : List Node → Eval Unit) (bound : Nat) : Node → Eval Value
  | .program body | .inlet body => block ev body
  | .number x => pure (.number x)
  | .text s | .typeName s => pure (.text s)
  | .bool b => pure (.bool b)
  | .nil | .docstring _ | .wait _ => pure .nil
  | .interpolated parts => interpolated ev parts
  | .pack items => pack ev items
  | .binary op left right => binary ev op left right
  | .unary op operand => unary ev op operand
  | .kind x => kindOf ev x
  | .convert source target => convert ev source target
  | .var name => lookupAs .var name
  | .assign target value => assignTo ev target value
  | .firm name value => declareConstant ev name value
  | .nick name nickname => do
    note (.nick nickname name)
    pure .nil
  | .print items => printLine ev items
  | .statement x => ev x
  | .embed body => embed ev body
  | .ask statements => ask ev statements
  | .spec decl => declareSpec decl
  | .back value => back ev value
  | .call callee args => call ev run callee args
  | .methodCall object method args => methodCall ev run object method args
  | .check first alters altern => check ev first alters altern
  | .traverse name start stop step body => traverse ev bound name start stop step body
  | .each name range body => each ev bound name range body
  | .untilTrue condition body => untilTrue ev condition body bound
  | .halt => exit (.flow .halt)
  | .proceed => exit (.flow .proceed)
  | .blueprint decl => declareBlueprint ev decl
  | .spawn source args => spawn ev run source args
  | .adopt child parent => adopt child parent
  | .attributeOf object name => readAttribute ev object name
  | .toolkit name body => declareToolkit ev name body
  | .plug name path => plug ev name path
  | .expose name => expose name
  | .bridge name body => declareBridge ev name body
  | .link greeter implementation => link ev greeter implementation
  | .bring names path => bring ev names path
  | .attempt parts => attempt ev parts
  | .trigger name message => trigger name message
  | .paral body => paral body
  | .hold body => hold ev body
  | .signal body => signal ev body
  | .listen body => listen ev body

end Evaluator

/-- Notes in the log of a traced run that a node is visited. -/
def noteVisit (node : Node) : Eval Unit := do
  let c ← context
  if c.settings.trace then
    let kind := ((← machine).store.scope? c.scope).elim "" fun scope => scope.kind.name
    note (.visit node.kindName kind)

/-- An untraced run notes nothing. -/
theorem noteVisit_cases (node : Node) (c : Context) (m : Machine) :
    noteVisit node c m = some (.ok (), m) ∨
      ∃ scope, noteVisit node c m = some (.ok (), m.note (.visit node.kindName scope)) := by
  show (if c.settings.trace then _ else (pure () : Eval Unit)) c m = _ ∨
    ∃ scope, (if c.settings.trace then _ else (pure () : Eval Unit)) c m = _
  split
  · exact .inr ⟨_, rfl⟩
  · exact .inl rfl

theorem noteVisit_apply (node : Node) (c : Context) (m : Machine) :
    ∃ log, noteVisit node c m = some (.ok (), { m with log }) := by
  rcases noteVisit_cases node c m with hnoted | ⟨scope, hnoted⟩
  · exact ⟨_, hnoted⟩
  · exact ⟨_, hnoted⟩

/-- The evaluation of a node with a number of steps to spend. -/
def evaluate : Nat → Evaluator
  | 0, _ => exhausted
  | steps + 1, node => do
    checkInterrupt
    noteVisit node
    Evaluator.recovering
      (Evaluator.step (evaluate steps) (Evaluator.runBlock (evaluate steps)) steps node)

/-- A run that is to stop does nothing at a node. -/
theorem evaluate_of_interrupted {c : Context} {m : Machine} (hflag : m.interrupted = true)
    (steps : Nat) (node : Node) :
    evaluate (steps + 1) node c m = some (.error .interrupted, m) := by
  refine bind_of_error ?_
  rw [checkInterrupt_apply, if_pos hflag]

/-- After the visit a node does what it does. -/
theorem evaluate_of_visit {c : Context} {m m' : Machine} {node : Node}
    (hflag : m.interrupted = false) (hvisit : noteVisit node c m = some (.ok (), m'))
    (steps : Nat) :
    evaluate (steps + 1) node c m =
      Evaluator.recovering
        (Evaluator.step (evaluate steps) (Evaluator.runBlock (evaluate steps)) steps node) c m' := by
  have hcheck : checkInterrupt c m = some (.ok (), m) := by
    rw [checkInterrupt_apply, hflag]
    rfl
  exact (bind_of_ok hcheck).trans (bind_of_ok hvisit)

end Treewalk
