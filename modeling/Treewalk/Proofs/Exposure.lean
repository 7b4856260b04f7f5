import Treewalk.Proofs.Mirroring
import Treewalk.Proofs.Seclusion
import Treewalk.Proofs.Shape

/-!
# `Treewalk.Proofs.Exposure`: exports hold what was exposed

Names come to the exports of a toolkit in two ways: by `expose`, and by
the declaration of a spec that is exported. Both look for the toolkit
around them, from within blocks, calls, methods and modules, along a
chain that changes while a program runs.

To say what has been exposed so far, `recording e` is the evaluator with
a record in the log for all that is exposed to the exports `e`. A record
is an entry that no construct writes. So `exposures` finds the records
of a run in its log, and `runPrograms_recording` says that a run that
records is the plain run but for them.

`AsExposed` says of a moment that the exports bind what the log says,
each name to the value with which it was exposed last, and that exports
are apart from all other scopes in the sense of
`Treewalk.Proofs.Seclusion`. By `recording_keeps` it holds at every
moment of a run: no sentry ever raises an alarm.

With records and without, names are bound in exports in two ways, and
all else is the same. `ExportRules` says what a relation between two
such evaluators must allow.
-/

set_option autoImplicit false

namespace Treewalk

/-! ### Runs that record what is exposed -/

/-- Whether a node can expose by itself. -/
def Node.exposes : Node → Bool
  | spec _ | expose _ => true
  | _ => false

namespace Evaluator

open Eval

/-- Binds a name in exports. If these are the exports `e`, the log says
so afterwards. -/
def recordTo (e : ScopeId) : Exporter := fun exports name v => do
  declareIn exports name (.ofValue v)
  if exports = e then note (.strayFlow name (.back v)) else pure ()

section
variable (x : Exporter)

/-- What a node does, by a way to bind names in exports. -/
def stepBy (ev : Evaluator) (bound : Nat) : Node → Eval Value
  | .spec decl => declareSpecBy x decl
  | .expose name => exposeBy x name
  | node => step ev (runBlock ev) bound node

end

theorem stepBy_of_not {x : Exporter} {ev : Evaluator} {bound : Nat} {node : Node}
    (h : node.exposes = false) : stepBy x ev bound node = step ev (runBlock ev) bound node := by
  cases node with
  | spec _ | expose _ => cases h
  | _ => rfl

theorem stepBy_exportTo (ev : Evaluator) (bound : Nat) (node : Node) :
    stepBy exportTo ev bound node = step ev (runBlock ev) bound node := by
  cases node <;> rfl

end Evaluator

open Eval Evaluator

/-- The evaluator by a way to bind names in exports, with a look at the
machine whenever a node is entered or left. -/
def evaluateBy (x : Exporter) (look : Eval Unit) : (steps : Nat) → Evaluator
  | 0, _ => exhausted
  | steps + 1, node =>
    guarded look do
      checkInterrupt
      noteVisit node
      recovering (stepBy x (evaluateBy x look steps) steps node)

/-- The evaluator that records in the log what is exposed to the exports
`e`. -/
def recording (e : ScopeId) (look : Eval Unit) : (steps : Nat) → Evaluator :=
  evaluateBy (recordTo e) look

/-- Runs programs one after the other, each with a number of steps and
whatever its outcome. -/
def runPrograms (ev : Nat → Evaluator) : List (Nat × Node) → Eval Unit
  | [] => pure ()
  | first :: rest => do
    let _ ← outcome (runProgram (ev first.1) first.2)
    runPrograms ev rest

/-- What a record says, if it is one. -/
def LogEntry.exposed? : LogEntry → Option (String × Value)
  | strayFlow name (.back v) => some (name, v)
  | _ => none

/-- What has been recorded in a log, the last exposure first. -/
def LogEntry.exposures (log : List LogEntry) : List (String × Value) :=
  log.filterMap exposed?

namespace Proofs

open LogEntry (exposures)

theorem exposures_filter (log : List LogEntry) :
    exposures (log.filter LogEntry.isStrayBack) = exposures log := by
  induction log with
  | nil => rfl
  | cons entry rest ih =>
    unfold exposures at ih ⊢
    by_cases hentry : entry.isStrayBack = true
    · rw [List.filter_cons_of_pos hentry, List.filterMap_cons, List.filterMap_cons, ih]
    · have hnone : entry.exposed? = none := by
        unfold LogEntry.exposed?
        split
        · exact absurd rfl hentry
        · rfl
      rw [List.filter_cons_of_neg hentry, List.filterMap_cons_none hnone, ih]

/-! ### Two ways to bind names in exports -/

/-- Rules that all nodes obey, by each of two ways to bind names in
exports. -/
structure ExportRules (R : Custom) (x y : Exporter) : Prop
    extends Conduct R R, TaskRules R, Exporting R x y where
  code (body : List Node) : Offers R body
  exhausted {α : Type} [Yields α] {kept loose : List Item} :
    R α kept loose Eval.exhausted Eval.exhausted
  trigger {kept loose : List Item} (name : String) (message : Option String) :
    R Value kept loose (Evaluator.trigger name message) (Evaluator.trigger name message)

namespace ExportRules

variable {R : Custom} {x y : Exporter} (h : ExportRules R x y) {kept loose : List Item}
include h

section
variable {ev ev' : Evaluator} (hev : ∀ kept loose node, R Value kept loose (ev node) (ev' node))
include hev

theorem stepBy (bound : Nat) (node : Node) :
    R Value kept loose (Evaluator.stepBy x ev bound node) (Evaluator.stepBy y ev' bound node) := by
  have hhandling : Handling R R .own .own ev ev' := h.handling hev h.exhausted
  have hrun : Supplies R R (Evaluator.runBlock ev) (Evaluator.runBlock ev') :=
    .of_all fun _ _ => h.runBlock hev
  have hstep : ∀ node : Node, node.defers = false → node.exposes = false → R Value kept loose
      (Evaluator.stepBy x ev bound node) (Evaluator.stepBy y ev' bound node) := by
    intro node hdefers hexposes
    have hown : R Value kept loose _ _ := hhandling.stepWith hev hrun bound hdefers
      (fun body _ => h.code body) (fun _ heq => by rw [heq] at hexposes; cases hexposes)
      (fun _ heq => by rw [heq] at hexposes; cases hexposes)
      fun name message _ => h.trigger name message
    rw [Variant.step_own, Variant.step_own] at hown
    rwa [Evaluator.stepBy_of_not hexposes, Evaluator.stepBy_of_not hexposes]
  cases node with
  | spec decl => exact h.declareSpecBy h.toExporting (h.code decl.body)
  | expose name => exact h.exposeBy h.toExporting name
  | paral body => exact h.paral (h.enqueue body)
  | hold body => exact h.hold hev h.takeTasks body
  | listen body => exact h.listen hev h.register body
  | _ => exact hstep _ rfl rfl

end

/-- Evaluations by the two ways are related, if a look makes no
difference. -/
theorem evaluateBy {look : Eval Unit}
    (hlook : ∀ {kept loose : List Item} {a b : Eval Value}, R Value kept loose a b →
      R Value kept loose (Evaluator.guarded look a) b)
    (steps : Nat) (kept loose : List Item) (node : Node) :
    R Value kept loose (Treewalk.evaluateBy x look steps node)
      (Treewalk.evaluateBy y (pure ()) steps node) := by
  induction steps generalizing kept loose node with
  | zero => exact h.exhausted
  | succ steps ih =>
    unfold Treewalk.evaluateBy
    rw [Evaluator.guarded_pure]
    exact hlook (h.visit node (h.stepBy ih steps node))

end ExportRules

theorem evaluateBy_exportTo (steps : Nat) : evaluateBy exportTo (pure ()) steps = evaluate steps := by
  induction steps with
  | zero => rfl
  | succ steps ih =>
    funext node
    rw [evaluateBy, evaluate, Evaluator.guarded_pure, ih, Evaluator.stepBy_exportTo]

/-- Programs are related if the nodes in them are. -/
theorem Rules.runPrograms {R : Custom} (h : Rules R) {ev ev' : Nat → Evaluator}
    (hev : ∀ steps kept loose node, R Value kept loose (ev steps node) (ev' steps node))
    (kept loose : List Item) (programs : List (Nat × Node)) :
    R Unit kept loose (runPrograms ev programs) (runPrograms ev' programs) := by
  induction programs generalizing loose with
  | nil => exact h.done
  | cons first rest ih =>
    exact h.bind (h.outcome (h.runProgram (hev first.1) first.2)) fun _ => ih _

/-! ### Recorded runs are plain runs -/

/-- The two part only where a record is written. -/
theorem mirrors_recordTo {on : Bool} (e exports : ScopeId) (name : String) (v : Value) :
    Mirrors LogEntry.isStrayBack on on (recordTo e exports name v) (exportTo exports name v) := by
  have hrecord : Mirrors LogEntry.isStrayBack on on
      (if exports = e then Eval.note (.strayFlow name (.back v)) else pure ()) (pure ()) := by
    split
    · exact .noteFirst rfl
    · exact Unaware.mirrors fun _ _ _ _ _ => rfl
  have hdeclare : Unaware (Eval.declareIn exports name (.ofValue v)) :=
    (Aloof.declareIn exports name (.ofValue v)).unaware
  have hboth := Mirrors.bind hdeclare.mirrors fun _ => hrecord
  have hpure : (Eval.declareIn exports name (.ofValue v) >>= fun _ => pure ()) =
      exportTo exports name v := bind_pure _
  rwa [hpure] at hboth

theorem mirroring_exportRules {on : Bool} (e : ScopeId) :
    ExportRules (mirroring LogEntry.isStrayBack on on).upward (recordTo e) exportTo where
  toConduct := (mirroring_congruence (fun _ he => (Bool.or_eq_false_iff.mp he).2)
    (.noteVisit fun _ _ => rfl)).discipline.toConduct
  toTaskRules := (mirroring_primitives (fun _ he => (Bool.or_eq_false_iff.mp he).2)
    (.noteVisit fun _ _ => rfl)).taskRules
  nearestExports? := mirroring_nodePrimitives.rules.nearestExports?
  exportIn name _ _ _ _ _ := mirrors_recordTo e _ name _
  code := mirroring_nodePrimitives.rules.code
  exhausted := mirroring_nodePrimitives.rules.exhausted
  trigger := mirroring_nodePrimitives.rules.trigger

/-- A run that records is the plain run, but for the records. -/
theorem runPrograms_recording (e : ScopeId) (programs : List (Nat × Node)) (c : Context)
    (m : Machine) :
    SameBut LogEntry.isStrayBack m.log (runPrograms (recording e (pure ())) programs c m)
      (runPrograms evaluate programs c m) := by
  have hmirrors : ∀ on : Bool, Mirrors LogEntry.isStrayBack on on
      (runPrograms (recording e (pure ())) programs) (runPrograms evaluate programs) := by
    intro on
    have hrules : ExportRules (mirroring LogEntry.isStrayBack on on).upward (recordTo e) exportTo :=
      mirroring_exportRules e
    refine (hrules.toRules.runPrograms (fun steps kept loose node => ?_) [] [] programs).all
    rw [← evaluateBy_exportTo steps]
    refine hrules.evaluateBy (fun hab => ?_) steps kept loose node
    rwa [Evaluator.guarded_pure]
  exact hmirrors c.settings.trace c m [] m.log

/-! ### Exports hold what was exposed -/

/-- Exports that bind just the names that were exposed to them, each to
the value with which it was exposed last. Nothing has been exposed to
them before they were made. -/
structure HoldsExposed (s : Store) (e : ScopeId) (exposed : List (String × Value)) : Prop where
  unborn : s.next ≤ e → exposed = []
  bound {scope : Scope} : s.scope? e = some scope → scope.kind.isExports = true →
    ∀ name, scope.binding? name = (exposed.lookup name).map .ofValue

namespace HoldsExposed

variable {s t : Store} {e : ScopeId} {exposed : List (String × Value)}

/-- What does not expose changes nothing about it. -/
theorem unexposed (h : HoldsExposed s e exposed) (hstep : Unexposed s t) :
    HoldsExposed t e exposed where
  unborn he := h.unborn (Nat.le_trans hstep.old.next he)
  bound {scope} hscope hexports name := by
    by_cases hlt : e < s.next
    · obtain ⟨before, hbefore, hkeeps⟩ := hstep.old.scope hscope hlt
      have hkind : before.kind.isExports = true := by
        rw [← hkeeps.kind]
        exact hexports
      rw [Scope.binding?, hkeeps.bindings hkind]
      exact h.bound hbefore hkind name
    · rw [Scope.binding?, hstep.new (Nat.le_of_not_lt hlt) hscope hexports,
        h.unborn (Nat.le_of_not_lt hlt)]
      rfl

/-- What has been exposed is bound first of all. -/
theorem expose (h : HoldsExposed s e exposed) (he : e < s.next) {name : String} {v : Value}
    {w : Written} (hw : s.declare e name (.ofValue v) = .ok w) :
    HoldsExposed w.store e ((name, v) :: exposed) where
  unborn hnext := by
    rw [Store.next_declare hw] at hnext
    exact absurd he (Nat.not_lt_of_le hnext)
  bound {scope} hscope hexports n := by
    have hkinds : Evolves SameKind s w.store :=
      .declare SameKind.refl hw fun x _ _ => SameKind.refl e x
    obtain ⟨before, hbefore, hkind⟩ := hkinds.scope hscope he
    obtain ⟨-, hset⟩ := Store.declare_eq_ok_of_scope hbefore hw
    rw [hset, Store.scope?_setScope, if_pos rfl, hbefore] at hscope
    cases hscope
    rw [Scope.binding?_bind, List.lookup_cons]
    by_cases hn : n = name
    · rw [if_pos hn, hn, beq_self_eq_true]
      rfl
    · rw [if_neg hn, beq_false_of_ne hn]
      exact h.bound hbefore hexports n

/-- A write to other exports changes nothing about it. -/
theorem other (h : HoldsExposed s e exposed) {id : ScopeId} (hid : id ≠ e) {name : String}
    {b : Binding} {w : Written} (hw : s.declare id name b = .ok w) :
    HoldsExposed w.store e exposed where
  unborn hnext := h.unborn (Store.next_declare hw ▸ hnext)
  bound {scope} hscope := by
    rcases Store.declare_eq_ok hw with hsame | ⟨x, -, -, hset⟩
    · rw [hsame] at hscope
      exact h.bound hscope
    · rw [hset, Store.scope?_setScope, if_neg (Ne.symm hid)] at hscope
      exact h.bound hscope

end HoldsExposed

/-- What has been recorded of the exports `e`, beside what does not
expose. -/
def recorded (e : ScopeId) : unexposed.Extension where
  Also _ m := HoldsExposed m.store e (exposures m.log)
  Step m m' := Evolves SameKind m.store m'.store
  Open := True
  refl m := .refl SameKind.refl m.store
  trans h h' := h.trans (fun _ _ _ _ h h' => Eq.trans h' h) h'
  good_step h hi p hp := (hi p hp).evolves h
  moved {_ m m'} h hmoved _ hlog := by
    have hsame : exposures m'.log = exposures m.log := by
      rw [← exposures_filter m'.log, hlog, exposures_filter]
    exact ⟨hsame ▸ h.unexposed hmoved.step, hmoved.step.kinds⟩

section
variable {e : ScopeId} {ts : List Item}

theorem recorded_laws (e : ScopeId) : (recorded e).regime.Laws :=
  (recorded e).laws unexposed_laws

theorem recorded_uncounted (e : ScopeId) : (recorded e).regime.Uncounted :=
  fun _ m _ _ hinv => ⟨hinv, (recorded e).refl m⟩

/-- The machine after a write to exports and its record. -/
def exported (e id : ScopeId) (name : String) (v : Value) (m : Machine) (w : Written) : Machine :=
  let m' := { m with store := w.store }
  if id = e then m'.note (.strayFlow name (.back v)) else m'

theorem recordTo_apply (e id : ScopeId) (name : String) (v : Value) (c : Context) (m : Machine) :
    recordTo e id name v c m =
      match m.store.declare id name (.ofValue v) with
      | .error f => some (.error (.fault f), m)
      | .ok w => some (.ok (), (exported e id name v m w).release c.held w.freed) := by
  show Eval.bind (Eval.settle (m.store.declare id name (.ofValue v))) _ c m = _
  unfold Eval.bind exported
  rw [Eval.settle_apply]
  cases m.store.declare id name (.ofValue v) with
  | error f => rfl
  | ok w =>
    by_cases hid : id = e
    · simp only [if_pos hid]
      rfl
    · simp only [if_neg hid]
      rfl

/-- A write to exports and its record go together. -/
theorem moved_exported {σ : Settings} {m : Machine} {id : ScopeId} {name : String} {v : Value}
    {w : Written} (hinv : (recorded e).regime.Inv σ m) (hid : Placed m.store (id, true))
    (hv : ∀ p ∈ v.mentions, Placed m.store p) (hw : m.store.declare id name (.ofValue v) = .ok w) :
    (recorded e).regime.Moved σ m (exported e id name v m w) := by
  obtain ⟨hsecluded, hholds⟩ := hinv
  have hinv' : Secluded w.store := hsecluded.declare hv (fun _ _ _ => rfl) hw
  have hkinds : Evolves SameKind m.store w.store :=
    .declare SameKind.refl hw fun scope _ _ => SameKind.refl id scope
  unfold exported
  by_cases he : id = e
  · subst he
    rw [if_pos rfl]
    exact ⟨⟨hinv', hholds.expose hid.lt hw⟩, hkinds⟩
  · rw [if_neg he]
    exact ⟨⟨hinv', hholds.other he hw⟩, hkinds⟩

theorem keeps_recordTo {id : ScopeId} (name : String) {v : Value} (hid : .exports id ∈ ts)
    (hv : Known ts (.value v)) :
    (recorded e).regime.Keeps Unit ts (recordTo e id name v) (recordTo e id name v) := by
  apply Regime.keeps_of_eq
  intro c m hready
  rw [recordTo_apply]
  cases hw : m.store.declare id name (.ofValue v) with
  | error f => exact ⟨_, _, rfl, .self hready.inv, fun i hi => by cases hi⟩
  | ok w =>
    have hplaced : Placed m.store (id, true) := hready.good _ hid _ (List.mem_singleton_self _)
    have hgood : ∀ p ∈ v.mentions, Placed m.store p := (recorded_laws e).known hready.good hv
    have hmoved := moved_exported hready.inv hplaced hgood hw
    have hreleased := (recorded_laws e).release c.held w.freed hmoved.inv
    exact ⟨_, _, rfl, hmoved.trans hreleased, fun i hi => by cases hi⟩

theorem recorded_exportRules (e : ScopeId) :
    ExportRules (recorded e).regime.Keeps.upward (recordTo e) (recordTo e) where
  toConduct := (recorded_uncounted e).conduct (recorded_laws e)
  toTaskRules := (recorded_laws e).primitives.taskRules
  nearestExports? := calm_of_upward fun _ _ _ _ _ _ hf =>
    (recorded_laws e).keeps_nearestExports
      (fun hinv _ hscope hkind => good_of_mem (hinv.1.placed_of_toolkit hscope hkind) rfl) hf
  exportIn name _ hid hv _ hts := keeps_recordTo name (hts hid) (hv.mono hts)
  -- Code names no scope.
  code body _ _ _ _ _ _ hx ts hts c m hready :=
    hx (.code body :: ts) (List.cons_subset_cons _ hts) c m
      ⟨hready.inv, hready.scope,
        List.forall_mem_cons.mpr ⟨(List.forall_mem_nil _), hready.good⟩⟩
  exhausted _ _ _ _ _ := ⟨rfl, .none trivial⟩
  trigger name message _ _ := (recorded_laws e).keeps_trigger name message

end

/-! ### Every moment of a run -/

/-- A moment at which the exports `e` are as they should be: exports are
apart from all other scopes, the current scope is not one of them, and
`e` holds what has been recorded as exposed to it. -/
structure AsExposed (e : ScopeId) (c : Context) (m : Machine) : Prop where
  secluded : Secluded m.store
  holds : HoldsExposed m.store e (exposures m.log)
  scope : Placed m.store (c.scope, false)

theorem AsExposed.ready {e : ScopeId} {c : Context} {m : Machine} (h : AsExposed e c m) :
    (recorded e).regime.Ready [] c m where
  inv := ⟨h.secluded, h.holds⟩
  scope := good_of_mem h.scope rfl
  good i hi := by cases hi

theorem AsExposed.of_ready {e : ScopeId} {c : Context} {m : Machine}
    (h : (recorded e).regime.Ready [] c m) : AsExposed e c m where
  secluded := h.inv.1
  holds := h.inv.2
  scope := h.scope _ (List.mem_singleton_self _)

/-- No sentry is ever alarmed. -/
theorem recording_keeps (e : ScopeId) (alarm : Eval Unit) (steps : Nat) (kept loose : List Item)
    (node : Node) :
    (recorded e).regime.Keeps.upward Value kept loose
      (recording e (sentry (AsExposed e) alarm) steps node)
      (recording e (pure ()) steps node) := by
  refine (recorded_exportRules e).evaluateBy (fun hab ts hts => ?_) steps kept loose node
  exact (hab ts hts).guarded fun c m hready => if_pos (.of_ready hready)

theorem recording_runs (e : ScopeId) (alarm : Eval Unit) (programs : List (Nat × Node)) :
    (recorded e).regime.Keeps Unit [] (runPrograms (recording e (sentry (AsExposed e) alarm)) programs)
      (runPrograms (recording e (pure ())) programs) :=
  ((recorded_exportRules e).toRules.runPrograms
    (fun steps kept loose node => recording_keeps e alarm steps kept loose node) [] []
    programs).all

end Proofs

end Treewalk
