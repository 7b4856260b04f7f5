import Treewalk.Proofs.Enclosure
import Treewalk.Proofs.Mirroring

/-!
# `Treewalk.Proofs.Listening`: handlers are what has listened

A block becomes a handler when it listens for an event, which it may do
anywhere: in a call, in another handler, in a module. Nothing else adds
a handler, and nothing takes one away.

To say what has listened so far, `hearing` is the evaluator with a
record in the log for each block that is to listen for an event. A
record is an entry that no construct writes. So `listened` finds the
records of a run in its log, and `hearing_records` says that a run that
records is the plain run but for them.

`Attended` says of a moment of a run that the log and the registry have
grown together: beside those of the beginning there are just the
handlers that the log tells of. By `hearing_attends` it holds at every
moment: no sentry ever raises an alarm.

With records and without, a block listens in two ways, and all else is
the same. `ListenRules` says what a relation between two such evaluators
must allow.
-/

set_option autoImplicit false

namespace Treewalk

/-! ### Runs that record what listens -/

namespace LogEntry

/-- The record of a block that is to listen for an event. It is the flow
of a spec that nobody declares. -/
def listening (event : String) (body : List Node) : LogEntry :=
  strayFlow event (.back (.spec ⟨0, none, [], body, false, false, none⟩))

/-- What a record says, if it is one. -/
def listened? : LogEntry → Option (String × List Node)
  | strayFlow event (.back (.spec decl)) => some (event, decl.body)
  | _ => none

/-- What has been recorded in a log, in order. The log has its newest
entry first. -/
def listened (log : List LogEntry) : List (String × List Node) :=
  (log.filterMap listened?).reverse

end LogEntry

/-- A handler for an event, as a block becomes one that listens: all but
the statement that names the event. -/
def listener (heard : String × List Node) : String × Handler :=
  (heard.1, ⟨heard.2, 1⟩)

namespace Evaluator

open Eval

/-- What is done about a block before it listens. -/
abbrev Recorder := List Node → Eval Unit

/-- Nothing is done. -/
def silent : Recorder := fun _ => pure ()

/-- The log says so, if the block is to listen for an event. -/
def recordListen : Recorder := fun body =>
  match eventName? body with
  | some event => note (.listening event body)
  | none => pure ()

/-- What a node does, if something is done before a block listens. -/
def stepRecorded (x : Recorder) (ev : Evaluator) (bound : Nat) : Node → Eval Value
  | .listen body => do
    x body
    Evaluator.listen ev body
  | node => step ev (runBlock ev) bound node

theorem stepRecorded_of_now {x : Recorder} {ev : Evaluator} {bound : Nat} {node : Node}
    (h : node.defers = false) :
    stepRecorded x ev bound node = step ev (runBlock ev) bound node := by
  cases node with
  | listen _ => cases h
  | _ => rfl

theorem stepRecorded_silent (ev : Evaluator) (bound : Nat) (node : Node) :
    stepRecorded silent ev bound node = step ev (runBlock ev) bound node := by
  cases node <;> rfl

end Evaluator

open Eval Evaluator

/-- The evaluator that does something before a block listens, with a look
at the machine whenever a node is entered or left. -/
def evaluateRecorded (x : Recorder) (look : Eval Unit) : (steps : Nat) → Evaluator
  | 0, _ => exhausted
  | steps + 1, node =>
    guarded look do
      checkInterrupt
      noteVisit node
      recovering (stepRecorded x (evaluateRecorded x look steps) steps node)

/-- The evaluator that records in the log what is to listen. -/
def hearing (look : Eval Unit) : (steps : Nat) → Evaluator :=
  evaluateRecorded recordListen look

namespace Proofs

open LogEntry (listened listened? listening without)

theorem evaluateRecorded_silent (steps : Nat) :
    evaluateRecorded silent (pure ()) steps = evaluate steps := by
  induction steps with
  | zero => rfl
  | succ steps ih =>
    funext node
    rw [evaluateRecorded, evaluate, guarded_pure, ih, stepRecorded_silent]

/-! ### Two ways to listen -/

/-- Rules that all nodes obey, by each of two ways to listen. -/
structure ListenRules (R : Custom) (x y : Recorder) : Prop
    extends Conduct R R, NodeRules R where
  enqueue {kept loose : List Item} (body : List Node) :
    R Unit kept loose (Evaluator.enqueue body) (Evaluator.enqueue body)
  takeTasks {kept loose : List Item} :
    R (List (List Node)) kept loose Evaluator.takeTasks Evaluator.takeTasks
  listen {kept loose : List Item} {ev ev' : Evaluator} (body : List Node) :
    (∀ kept loose node, R Value kept loose (ev node) (ev' node)) →
      R Value kept loose
        (do
          x body
          Evaluator.listen ev body)
        (do
          y body
          Evaluator.listen ev' body)

namespace ListenRules

variable {R : Custom} {x y : Recorder} (h : ListenRules R x y) {kept loose : List Item}
include h

theorem stepRecorded {ev ev' : Evaluator}
    (hev : ∀ kept loose node, R Value kept loose (ev node) (ev' node)) (bound : Nat) (node : Node) :
    R Value kept loose (Evaluator.stepRecorded x ev bound node)
      (Evaluator.stepRecorded y ev' bound node) := by
  have hhandling : Handling R R .own .own ev ev' := h.handling hev h.exhausted
  have hnow : ∀ node : Node, node.defers = false → R Value kept loose
      (Evaluator.stepRecorded x ev bound node) (Evaluator.stepRecorded y ev' bound node) := by
    intro node hnode
    rw [stepRecorded_of_now hnode, stepRecorded_of_now hnode, ← Variant.step_own ev,
      ← Variant.step_own ev']
    exact hhandling.stepNow hev (fun _ _ body => h.runBlock hev body) h.toNodeRules bound hnode
  cases node with
  | listen body => exact h.listen body hev
  | paral body => exact h.paral (h.enqueue body)
  | hold body => exact h.hold hev h.takeTasks body
  | _ => exact hnow _ rfl

/-- Evaluations by the two ways are related, if a look makes no
difference. -/
theorem evaluateRecorded {look : Eval Unit}
    (hlook : ∀ {kept loose : List Item} {a b : Eval Value}, R Value kept loose a b →
      R Value kept loose (guarded look a) b)
    (steps : Nat) (kept loose : List Item) (node : Node) :
    R Value kept loose (Treewalk.evaluateRecorded x look steps node)
      (Treewalk.evaluateRecorded y (pure ()) steps node) := by
  induction steps generalizing kept loose node with
  | zero => exact h.exhausted
  | succ steps ih =>
    unfold Treewalk.evaluateRecorded
    rw [guarded_pure]
    exact hlook (h.visit node (h.stepRecorded ih steps node))

end ListenRules

/-! ### Recorded runs are plain runs -/

/-- A record is written, or nothing is to be recorded. -/
theorem mirrors_recordListen {on : Bool} (body : List Node) :
    Mirrors LogEntry.isStrayBack on on (recordListen body) (silent body) := by
  unfold recordListen
  split
  · exact .noteFirst rfl
  · exact Unaware.mirrors fun _ _ _ _ _ => rfl

theorem mirroring_listenRules {on : Bool} :
    ListenRules (mirroring LogEntry.isStrayBack on on).upward recordListen silent := by
  have hcongruence : Congruence (mirroring LogEntry.isStrayBack on on)
      (mirroring LogEntry.isStrayBack on on) :=
    mirroring_congruence (fun _ he => (Bool.or_eq_false_iff.mp he).2) (.noteVisit fun _ _ => rfl)
  have htasks := hcongruence.taskRules
  have hrules := hcongruence.discipline
  refine { toConduct := hrules.toConduct, toNodeRules := hrules.toNodeRules,
           enqueue := htasks.enqueue, takeTasks := htasks.takeTasks, listen := ?_ }
  intro kept loose ev ev' body hev
  refine hrules.andThen (fun _ _ => mirrors_recordListen body) ?_
  exact hrules.listen hev htasks.register body

/-- A run that records is the plain run, but for the records. -/
theorem hearing_records (steps : Nat) (node : Node) (c : Context) (m : Machine) :
    SameBut LogEntry.isStrayBack m.log (hearing (pure ()) steps node c m)
      (evaluate steps node c m) := by
  have hmirrors : (mirroring LogEntry.isStrayBack c.settings.trace c.settings.trace).upward Value
      [] [] (hearing (pure ()) steps node) (evaluateRecorded silent (pure ()) steps node) :=
    mirroring_listenRules.evaluateRecorded (fun hab => by rwa [guarded_pure]) steps [] [] node
  rw [evaluateRecorded_silent] at hmirrors
  exact hmirrors.all c m [] m.log

/-! ### The log and the registry grow together -/

theorem listened_append (entries log : List LogEntry) :
    listened (entries ++ log) = listened log ++ listened entries := by
  simp [listened]

/-- Only a stray `back` can be a record. -/
theorem listened?_eq_none {e : LogEntry} (he : e.isStrayBack = false) : listened? e = none := by
  unfold LogEntry.listened?
  split
  · cases he
  · rfl

theorem listened_cons_of_not {e : LogEntry} (he : e.isStrayBack = false) (log : List LogEntry) :
    listened (e :: log) = listened log := by
  simp [listened, listened?_eq_none he]

/-- A machine that has come from another one. Its log and its registry
have grown, and the new entries tell of the new handlers. -/
def Attended (m m' : Machine) : Prop :=
  ∃ entries, m'.log = entries ++ m.log ∧
    m'.registry.entries = m.registry.entries ++ (listened entries).map listener

namespace Attended

variable {m m' m'' : Machine}

/-- Whatever else has changed. -/
theorem of_eq (hlog : m'.log = m.log) (hregistry : m'.registry = m.registry) : Attended m m' :=
  ⟨[], hlog, by rw [hregistry]; exact (List.append_nil _).symm⟩

theorem refl (m : Machine) : Attended m m :=
  .of_eq rfl rfl

theorem trans (h : Attended m m') (h' : Attended m' m'') : Attended m m'' := by
  obtain ⟨entries, hlog, hentries⟩ := h
  obtain ⟨entries', hlog', hentries'⟩ := h'
  refine ⟨entries' ++ entries, ?_, ?_⟩
  · rw [hlog', hlog, List.append_assoc]
  · rw [hentries', hentries, listened_append, List.map_append, List.append_assoc]

theorem note {e : LogEntry} (he : e.isStrayBack = false) : Attended m (m.note e) :=
  ⟨[e], rfl, by rw [listened_cons_of_not he]; exact (List.append_nil _).symm⟩

/-- A record and the handler that it tells of. -/
theorem listen (event : String) (body : List Node) :
    Attended m
      { m.note (listening event body) with registry := m.registry.register event ⟨body, 1⟩ } :=
  ⟨[listening event body], rfl, rfl⟩

end Attended

/-! ### Evaluations that attend -/

section
variable {α β : Type} {m₀ : Machine}

/-- Two evaluations that are the same at the moments that have come from
`m₀`, and lead to such moments. -/
def Attends (m₀ : Machine) (x y : Eval α) : Prop :=
  ∀ c m, Attended m₀ m → x c m = y c m ∧ ∀ r m', y c m = some (r, m') → Attended m₀ m'

/-- What is in hand does not matter. -/
def attending (m₀ : Machine) : Custom :=
  fun _ _ _ _ x y => Attends m₀ x y

/-- An evaluation that writes no record and leaves the handlers alone. -/
def Inert (x : Eval α) : Prop :=
  ∀ c m r m', x c m = some (r, m') → Attended m m'

theorem Inert.attends {x : Eval α} (hx : Inert x) : Attends m₀ x x :=
  fun c m h => ⟨rfl, fun r m' hr => h.trans (hx c m r m' hr)⟩

/-- An evaluation that always ends, with the log and the registry as they
were. -/
theorem Inert.of_eq {x : Eval α}
    (h : ∀ c m, ∃ r m', x c m = some (r, m') ∧ m'.log = m.log ∧ m'.registry = m.registry) :
    Inert x := by
  intro c m r m' hr
  obtain ⟨r', m₁, hx, hlog, hregistry⟩ := h c m
  rw [hx] at hr
  cases hr
  exact .of_eq hlog hregistry

namespace Attends

theorem bind {x y : Eval α} {f g : α → Eval β} (hx : Attends m₀ x y)
    (hf : ∀ a, Attends m₀ (f a) (g a)) : Attends m₀ (x >>= f) (y >>= g) := by
  intro c m h
  obtain ⟨heq, hends⟩ := hx c m h
  rw [Eval.bind_congr_left f heq]
  rcases hy : y c m with _ | ⟨e | a, m₁⟩
  · rw [Eval.bind_of_none hy, Eval.bind_of_none hy]
    exact ⟨rfl, fun r m' hr => by cases hr⟩
  · rw [Eval.bind_of_error hy, Eval.bind_of_error hy]
    refine ⟨rfl, fun r m' hr => ?_⟩
    cases hr
    exact hends _ _ hy
  · rw [Eval.bind_of_ok hy, Eval.bind_of_ok hy]
    exact hf a c m₁ (hends _ _ hy)

theorem outcome {x y : Eval α} (hx : Attends m₀ x y) :
    Attends m₀ (Eval.outcome x) (Eval.outcome y) := by
  intro c m h
  obtain ⟨heq, hends⟩ := hx c m h
  refine ⟨by rw [Eval.outcome, Eval.outcome, heq], fun r m' hr => ?_⟩
  obtain ⟨o, hy, -⟩ := Eval.outcome_inv hr
  exact hends o m' hy

theorem holding [Owner α] {refs : List Ref} {x y : Eval α} (hx : Attends m₀ x y) :
    Attends m₀ (Eval.holding refs x) (Eval.holding refs y) := by
  intro c m h
  obtain ⟨heq, hends⟩ := hx { c with held := refs ++ c.held } m h
  refine ⟨Eval.holding_congr heq, fun r m' hr => ?_⟩
  obtain ⟨m₁, hy, rfl⟩ := Eval.holding_inv hr
  exact (hends r m₁ hy).trans (.of_eq rfl rfl)

end Attends

theorem Inert.calm {kept loose : List Item} {us : α → List Item} {x : Eval α}
    (hx : Inert x) : Calm (attending m₀) kept loose us x x :=
  fun _ _ _ _ hf => hx.attends.bind hf

end

namespace Inert

theorem settle (w : Except Fault Written) : Inert (Eval.settle w) :=
  .of_eq fun c m => by
    rw [Eval.settle_apply]
    split <;> exact ⟨_, _, rfl, rfl, rfl⟩

theorem heed (reaction : Reaction) : Inert (Eval.heed reaction) :=
  .of_eq fun c m => by cases reaction <;> exact ⟨_, _, rfl, rfl, rfl⟩

theorem declareIn (id : ScopeId) (name : String) (b : Binding) : Inert (Eval.declareIn id name b) :=
  fun c m => settle (m.store.declare id name b) c m

theorem assign (name : String) (v : Value) : Inert (Eval.assign name v) :=
  fun c m => settle (m.store.assign c.scope name v) c m

theorem copyBindings (target source : ScopeId) : Inert (Eval.copyBindings target source) :=
  .of_eq fun c m => ⟨_, _, Eval.copyBindings_apply target source c m, rfl, rfl⟩

theorem write (text : String) : Inert (Eval.write text) :=
  fun c m => heed (m.out.offer text).1 c { m with out := (m.out.offer text).2 }

theorem readLine : Inert Eval.readLine := by
  refine .of_eq fun c m => ?_
  cases hread : m.input.readLine.1 with
  | ok line => exact ⟨_, _, Eval.readLine_of_ok hread, rfl, rfl⟩
  | error reason => exact ⟨_, _, Eval.readLine_of_error hread, rfl, rfl⟩

theorem checkInterrupt : Inert Eval.checkInterrupt :=
  .of_eq fun c m => ⟨_, _, Eval.checkInterrupt_apply c m, rfl, rfl⟩

theorem enterCall : Inert enterCall := by
  refine .of_eq fun c m => ?_
  rw [enterCall_apply]
  split <;> exact ⟨_, _, rfl, rfl, rfl⟩

theorem startBring (path : String) : Inert (startBring path) := by
  refine .of_eq fun c m => ?_
  rw [startBring_apply]
  split
  · exact ⟨_, _, rfl, rfl, rfl⟩
  · split <;> exact ⟨_, _, rfl, rfl, rfl⟩

theorem note {e : LogEntry} (he : e.isStrayBack = false) : Inert (Eval.note e) := by
  intro c m r m' hr
  cases hr
  exact .note he

theorem report (e : Exit) : Inert (Eval.report e) := by
  intro c m r m' hr
  have hnote : Attended m (m.note (.reported e)) := .note rfl
  exact hnote.trans (heed (m.err.offer (e.category ++ ": " ++ e.message ++ "\n")).1 c
    { m.note (.reported e) with
      err := (m.err.offer (e.category ++ ": " ++ e.message ++ "\n")).2 } r m' hr)

theorem noteVisit (node : Node) : Inert (Treewalk.noteVisit node) := by
  intro c m r m' hr
  rcases noteVisit_cases node c m with hnoted | ⟨scope, hnoted⟩ <;> rw [hnoted] at hr <;> cases hr
  · exact .refl m
  · exact .note rfl

end Inert

section
variable {m₀ : Machine}

theorem attending_rules : Rules (attending m₀) where
  result _ _ := Inert.attends (.of_eq fun _ _ => ⟨_, _, rfl, rfl, rfl⟩)
  bind hx hf := Attends.bind hx hf
  exit _ _ := Inert.attends (.of_eq fun _ _ => ⟨_, _, rfl, rfl, rfl⟩)
  outcome hx := Attends.outcome hx
  holding _ _ hx := Attends.holding hx
  here hf := Attends.bind (Inert.attends (.of_eq fun _ _ => ⟨_, _, rfl, rfl, rfl⟩)) hf
  within {_ _ _ _ id _ _} _ hx c := hx { c with scope := id }
  newExports := Inert.calm (.of_eq fun _ _ => ⟨_, _, rfl, rfl, rfl⟩)
  newPart _ _ := Inert.calm (.of_eq fun _ _ => ⟨_, _, rfl, rfl, rfl⟩)
  newFrame _ hf := Attends.bind (Inert.attends (.of_eq fun _ _ => ⟨_, _, rfl, rfl, rfl⟩))
    fun id => Attends.holding (hf id)
  newInstance _ := Inert.attends (.of_eq fun _ _ => ⟨_, _, rfl, rfl, rfl⟩)
  lookup? _ := Inert.calm (.of_eq fun _ _ => ⟨_, _, rfl, rfl, rfl⟩)
  getLocal? _ _ := Inert.calm (.of_eq fun _ _ => ⟨_, _, rfl, rfl, rfl⟩)
  boundCount _ := Inert.calm (.of_eq fun _ _ => ⟨_, _, rfl, rfl, rfl⟩)
  declareIn name _ _ _ := (Inert.declareIn _ name _).attends
  assign name _ _ := (Inert.assign name _).attends
  copyBindings _ _ := (Inert.copyBindings _ _).attends
  checkInterrupt := Inert.checkInterrupt.attends
  write text := (Inert.write text).attends
  readLine := Inert.readLine.attends
  report e := (Inert.report e).attends
  note he := (Inert.note (Bool.or_eq_false_iff.mp he).2).calm
  noteVisit node := (Inert.noteVisit node).attends
  handlersOf _ := Inert.attends (.of_eq fun _ _ => ⟨_, _, rfl, rfl, rfl⟩)

theorem attending_nodeRules : NodeRules (attending m₀) where
  nearestExports? := Inert.calm (.of_eq fun _ _ => ⟨_, _, rfl, rfl, rfl⟩)
  exportIn name _ _ _ := (Inert.declareIn _ name _).attends
  code _ _ _ _ _ _ _ hx := hx
  exhausted _ _ _ := ⟨rfl, fun _ _ hr => by cases hr⟩
  trigger _ _ := Inert.attends (.of_eq fun _ _ => ⟨_, _, rfl, rfl, rfl⟩)

theorem attending_conduct : Conduct (attending m₀) (attending m₀) :=
  .of_counters attending_rules (fun _ _ => Inert.enterCall.attends)
    (fun _ _ => Inert.attends (.of_eq fun _ _ => ⟨_, _, rfl, rfl, rfl⟩))
    (fun _ _ => Inert.calm (.of_eq fun _ _ => ⟨_, _, rfl, rfl, rfl⟩))
    (fun _ _ path => (Inert.startBring path).attends)
    fun _ _ => Inert.calm (.of_eq fun _ _ => ⟨_, _, rfl, rfl, rfl⟩)

/-- A block that listens is recorded and becomes a handler. One that
names no event runs. -/
theorem attends_listen {ev ev' : Evaluator} (hev : ∀ node, Attends m₀ (ev node) (ev' node))
    (body : List Node) :
    Attends m₀
      (do
        recordListen body
        Evaluator.listen ev body)
      (do
        recordListen body
        Evaluator.listen ev' body) := by
  cases hevent : eventName? body with
  | some event =>
    have hends : ∀ (ev : Evaluator) (c : Context) (m : Machine),
        (do
          recordListen body
          Evaluator.listen ev body) c m = some (.ok .nil,
            { m.note (listening event body) with
              registry := m.registry.register event ⟨body, 1⟩ }) := by
      intro ev c m
      simp only [recordListen, Evaluator.listen, hevent]
      rfl
    intro c m h
    rw [hends, hends]
    refine ⟨rfl, fun r m' hr => ?_⟩
    cases hr
    exact h.trans (.listen event body)
  | none =>
    simp only [recordListen, Evaluator.listen, hevent]
    have hblock : attending m₀ Unit [] [] (runBlock ev body) (runBlock ev' body) :=
      attending_rules.runBlock (fun _ _ => hev) body
    refine Attends.bind (Inert.attends (.of_eq fun _ _ => ⟨_, _, rfl, rfl, rfl⟩)) fun _ => ?_
    exact Attends.bind hblock fun _ => Inert.attends (.of_eq fun _ _ => ⟨_, _, rfl, rfl, rfl⟩)

theorem attending_listenRules : ListenRules (attending m₀) recordListen recordListen where
  toConduct := attending_conduct
  toNodeRules := attending_nodeRules
  enqueue _ := Inert.attends (.of_eq fun _ _ => ⟨_, _, rfl, rfl, rfl⟩)
  takeTasks := Inert.attends (.of_eq fun _ _ => ⟨_, _, rfl, rfl, rfl⟩)
  listen body hev := attends_listen (hev [] []) body

/-- No sentry is ever alarmed. -/
theorem hearing_attends {P : Context → Machine → Prop} (hP : ∀ c m, Attended m₀ m → P c m)
    (alarm : Eval Unit) (steps : Nat) (node : Node) :
    Attends m₀ (hearing (sentry P alarm) steps node) (hearing (pure ()) steps node) := by
  refine attending_listenRules.evaluateRecorded (fun {_ _ a b} hab c m h => ?_) steps [] [] node
  obtain ⟨heq, hends⟩ : a c m = b c m ∧ _ := hab c m h
  refine ⟨?_, hends⟩
  rw [guarded_apply (if_pos (hP c m h)) fun r m' hr => ?_, heq]
  exact if_pos (hP c m' (hends r m' (heq ▸ hr)))

end

end Proofs

end Treewalk
