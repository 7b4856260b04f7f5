import Treewalk.Interpreter

/-!
# `Treewalk.Proofs.Unaware`: evaluations that do not know of the queue and the log

The tasks that wait and the log are written for others: most primitives
neither read nor change them, nor do they ask whether the run is traced.
`Unaware` says so of an evaluation. It gives the same result and leaves
the same machine, with whatever tasks and log it is run, and whether
traced or not.

Nor do they know which modules are being brought. `Aloof` says that of
an evaluation too, and the lemmas go through the primitives for it. Left
out are those that write an entry, that deal with the tasks or with
modules, or that look whether the run is traced.
-/

set_option autoImplicit false

namespace Treewalk

/-- The context of a run that is traced, or of one that is not. -/
def Context.traced (c : Context) (on : Bool) : Context :=
  { c with settings := { c.settings with trace := on } }

namespace Proofs

/-- An evaluation that neither reads nor changes the tasks and the log,
and does not see whether it is traced. -/
def Unaware {α : Type} (x : Eval α) : Prop :=
  ∀ (c : Context) (m : Machine) (on : Bool) (tasks : TaskQueue) (log : List LogEntry),
    x (c.traced on) { m with tasks, log } =
      (x c m).map fun (r, m') => (r, { m' with tasks, log })

/-- An evaluation that does not know which modules are being brought
either. -/
def Aloof {α : Type} (x : Eval α) : Prop :=
  ∀ (c : Context) (m : Machine) (on : Bool) (tasks : TaskQueue) (bringing : List String)
    (log : List LogEntry),
    x (c.traced on) { m with tasks, bringing, log } =
      (x c m).map fun (r, m') => (r, { m' with tasks, bringing, log })

namespace Unaware

variable {α β : Type}

/-- It leaves the tasks and the log as they are. -/
theorem leaves {x : Eval α} (hx : Unaware x) {c : Context} {m m' : Machine} {r : Except Exit α}
    (h : x c m = some (r, m')) : m'.tasks = m.tasks ∧ m'.log = m.log := by
  have hsame := hx c m c.settings.trace m.tasks m.log
  have hself : x c m = (x c m).map fun (r, m') => (r, { m' with tasks := m.tasks, log := m.log }) :=
    hsame
  rw [h] at hself
  injection hself with hend
  injection hend with _ hmachine
  rw [hmachine]
  exact ⟨rfl, rfl⟩

theorem startBring (path : String) : Unaware (Evaluator.startBring path) := by
  intro c m on tasks log
  have hmodules : (c.traced on).settings.modules = c.settings.modules := rfl
  rw [Evaluator.startBring_apply, Evaluator.startBring_apply, hmodules]
  show (if m.bringing.contains path then _ else _) = _
  split
  · rfl
  · cases Evaluator.findModule c.settings.modules path <;> rfl

end Unaware

namespace Aloof

variable {α : Type}

/-- It leaves the tasks, the modules that are being brought and the log
as they are. -/
theorem leaves {x : Eval α} (hx : Aloof x) {c : Context} {m m' : Machine} {r : Except Exit α}
    (h : x c m = some (r, m')) :
    m'.tasks = m.tasks ∧ m'.bringing = m.bringing ∧ m'.log = m.log := by
  have hself : x c m = (x c m).map fun (r, m') =>
      (r, { m' with tasks := m.tasks, bringing := m.bringing, log := m.log }) :=
    hx c m c.settings.trace m.tasks m.bringing m.log
  rw [h] at hself
  injection hself with hend
  injection hend with _ hmachine
  rw [hmachine]
  exact ⟨rfl, rfl, rfl⟩

theorem unaware {x : Eval α} (hx : Aloof x) : Unaware x := by
  intro c m on tasks log
  have hsame : x (c.traced on) { m with tasks, log } =
      (x c m).map fun (r, m') => (r, { m' with tasks, bringing := m.bringing, log }) :=
    hx c m on tasks m.bringing log
  rw [hsame]
  rcases hends : x c m with _ | ⟨r, m'⟩
  · rfl
  · have hbringing : m'.bringing = m.bringing := (hx.leaves hends).2.1
    show some (r, { m' with tasks, bringing := m.bringing, log }) = some (r, { m' with tasks, log })
    rw [← hbringing]

theorem settle (w : Except Fault Written) : Aloof (Eval.settle w) := by
  cases w <;> exact fun _ _ _ _ _ _ => rfl

theorem heed (reaction : Reaction) : Aloof (Eval.heed reaction) := by
  cases reaction <;> exact fun _ _ _ _ _ _ => rfl

theorem write (text : String) : Aloof (Eval.write text) :=
  fun c m on => heed (m.out.offer text).1 c { m with out := (m.out.offer text).2 } on

theorem diagnose (line : String) : Aloof (Eval.diagnose line) :=
  fun c m on =>
    heed (m.err.offer (line ++ "\n")).1 c { m with err := (m.err.offer (line ++ "\n")).2 } on

theorem readLine : Aloof Eval.readLine := by
  intro c m on tasks bringing log
  cases hread : m.input.readLine.1 with
  | ok line =>
    rw [Eval.readLine_of_ok hread]
    exact Eval.readLine_of_ok hread
  | error reason =>
    rw [Eval.readLine_of_error hread]
    exact Eval.readLine_of_error hread

theorem declareIn (id : ScopeId) (name : String) (b : Binding) :
    Aloof (Eval.declareIn id name b) :=
  fun c m on => settle (m.store.declare id name b) c m on

theorem assign (name : String) (v : Value) : Aloof (Eval.assign name v) :=
  fun c m on => settle (m.store.assign c.scope name v) c m on

theorem copyBindings (target source : ScopeId) : Aloof (Eval.copyBindings target source) := by
  intro c m on tasks bringing log
  rw [Eval.copyBindings_apply, Eval.copyBindings_apply]
  rfl

theorem checkInterrupt : Aloof Eval.checkInterrupt := by
  intro c m on tasks bringing log
  rw [Eval.checkInterrupt_apply, Eval.checkInterrupt_apply]
  rfl

theorem enterCall : Aloof Evaluator.enterCall := by
  intro c m on tasks bringing log
  rw [Evaluator.enterCall_apply, Evaluator.enterCall_apply]
  show (if c.settings.maxDepth ≤ m.depth then _ else _) = _
  split <;> rfl

end Aloof

end Proofs

end Treewalk
