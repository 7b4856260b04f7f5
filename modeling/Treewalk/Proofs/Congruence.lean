import Treewalk.Interpreter

/-!
# `Treewalk.Proofs.Congruence`: relations that the primitives respect

The constructs of the language are written over two parameters: what
evaluates the nodes inside, and what runs the bodies of calls. So a
relation between evaluations passes from the parameters to whole
programs, if the primitives of `Treewalk.Evaluation` respect it.
`Primitives R` lists them. `NodePrimitives R` lists those that only a
few nodes use, and `Congruence R S` adds the two constructs that count:
the call and the bringing of a module. `S` relates what runs inside of a
call, and mostly is `R` itself.

A statement about one evaluator is a relation of that evaluator with
itself. Two evaluators that run side by side are the general case.

## What an evaluation has in hand

A construct does not read or write any scope, and it does not put any
value under a name: it uses what its parts have given it. The relation
carries a list of these items. `Known` says which values can be made
from a list of items, `Readable` which scopes can be read, and
`Bindable` in which scopes names can be bound.
-/

set_option autoImplicit false

namespace Treewalk

/-- A `back` as the flow that has left a body. No construct writes such
an entry, since a `back` is the end of a call. -/
def LogEntry.isStrayBack : LogEntry → Bool
  | strayFlow _ (.back _) => true
  | _ => false

/-- Entries that no construct writes for itself. -/
def LogEntry.isReserved (e : LogEntry) : Bool :=
  e.isVisit || e.isStrayBack

namespace Proofs

/-! ### Items -/

/-- Something that an evaluation has come by. -/
inductive Item where
  | value (v : Value)
  /-- An exit that is on its way. -/
  | exit (e : Exit)
  /-- A scope to work in. -/
  | scope (id : ScopeId)
  /-- A scope that was made for a purpose. -/
  | made (id : ScopeId) (kind : ScopeKind)
  /-- The exports of a toolkit around. -/
  | exports (id : ScopeId)
  /-- A body that a declaration makes part of a value. -/
  | code (body : List Node)

/-- What an exit brings. Faults and loop signals bring nothing, since
any construct may begin them. -/
def exitItems : Exit → List Item
  | .flow (.back v) => [.value v]
  | .flow _ => []
  | .fault _ => []
  | e => [.exit e]

/-- Types of results, and the items that a result brings. -/
class Yields (α : Type) where
  items : α → List Item

open Yields (items)

instance : Yields Unit := ⟨fun _ => []⟩

instance : Yields Bool := ⟨fun _ => []⟩

instance : Yields Nat := ⟨fun _ => []⟩

instance : Yields Float := ⟨fun _ => []⟩

instance : Yields (Float × Float) := ⟨fun _ => []⟩

instance : Yields String := ⟨fun _ => []⟩

instance : Yields (List String) := ⟨fun _ => []⟩

instance : Yields (List Node) := ⟨fun _ => []⟩

instance : Yields (List (List Node)) := ⟨fun _ => []⟩

instance : Yields (List Handler) := ⟨fun _ => []⟩

instance : Yields (Option String) := ⟨fun _ => []⟩

instance : Yields Value := ⟨fun v => [.value v]⟩

instance : Yields (Option Value) := ⟨fun v => v.toList.map .value⟩

instance : Yields (List Value) := ⟨fun vs => vs.map .value⟩

instance : Yields Blueprint := ⟨fun b => [.value (.blueprint b)]⟩

instance : Yields Instance := ⟨fun i => [.value (.object i)]⟩

instance {α : Type} [Yields α] : Yields (Except Exit α) where
  items
    | .ok a => items a
    | .error e => exitItems e

/-- A value that an evaluation has given is in hand. -/
theorem value_mem (v : Value) (ts : List Item) : .value v ∈ items v ++ ts :=
  List.mem_append_left _ (List.mem_singleton_self _)

/-- The items that can be had from a list of items: those of the list,
data, and specs and objects of what was come by for them. -/
inductive Known (ts : List Item) : Item → Prop where
  | mem {i : Item} : i ∈ ts → Known ts i
  | data {v : Value} : v.isReference = false → Known ts (.value v)
  | spec {decl : Spec Node} : .code decl.body ∈ ts → Known ts (.value (.spec decl))
  | blueprint (name : String) {id : ScopeId} {c : Option (Constructor Node)} :
      .made id .blueprint ∈ ts → (∀ k, c = some k → .code k.body ∈ ts) →
        Known ts (.value (.blueprint ⟨name, id, c⟩))
  | toolkit (name : String) {id exports : ScopeId} :
      .made exports .exports ∈ ts → .made id (.toolkit exports) ∈ ts →
        Known ts (.value (.toolkit ⟨name, id, exports⟩))
  | bridge (name : String) {id : ScopeId} :
      .made id .bridge ∈ ts → Known ts (.value (.bridge ⟨name, id⟩))

/-- The scopes that can be read: scopes to work in, the fields of
instances and what is declared in their blueprints, blueprints, and the
exports of toolkits. -/
inductive Readable (ts : List Item) : ScopeId → Prop where
  | scope {id : ScopeId} : .scope id ∈ ts → Readable ts id
  | fields {i : Instance} : .value (.object i) ∈ ts → Readable ts i.fields
  | declared {i : Instance} : .value (.object i) ∈ ts → Readable ts i.blueprint.scope
  | blueprint {b : Blueprint} : .value (.blueprint b) ∈ ts → Readable ts b.scope
  | exports {t : Toolkit} : .value (.toolkit t) ∈ ts → Readable ts t.exports

/-- The scopes in which names can be bound, exports apart: scopes to work
in, the fields of instances, and blueprints. -/
inductive Bindable (ts : List Item) : ScopeId → Prop where
  | scope {id : ScopeId} : .scope id ∈ ts → Bindable ts id
  | fields {i : Instance} : .value (.object i) ∈ ts → Bindable ts i.fields
  | blueprint {b : Blueprint} : .value (.blueprint b) ∈ ts → Bindable ts b.scope

/-- The kinds of scopes that a construct can make below another one,
once it has made the exports of a toolkit. -/
def CanMake (ts : List Item) : ScopeKind → Prop
  | .toolkit exports => .made exports .exports ∈ ts
  | .instance _ | .exports => False
  | _ => True

theorem Known.mono {ts us : List Item} {i : Item} (hsub : ts ⊆ us) (h : Known ts i) :
    Known us i := by
  cases h with
  | mem hi => exact .mem (hsub hi)
  | data hv => exact .data hv
  | spec hcode => exact .spec (hsub hcode)
  | blueprint name hm hcode => exact .blueprint name (hsub hm) fun k hk => hsub (hcode k hk)
  | toolkit name he hm => exact .toolkit name (hsub he) (hsub hm)
  | bridge name hm => exact .bridge name (hsub hm)

theorem Readable.mono {ts us : List Item} {id : ScopeId} (hsub : ts ⊆ us) (h : Readable ts id) :
    Readable us id := by
  cases h with
  | scope hm => exact .scope (hsub hm)
  | fields hm => exact .fields (hsub hm)
  | declared hm => exact .declared (hsub hm)
  | blueprint hm => exact .blueprint (hsub hm)
  | exports hm => exact .exports (hsub hm)

/-- Where names can be bound they can be read. -/
theorem Bindable.readable {ts : List Item} {id : ScopeId} (h : Bindable ts id) :
    Readable ts id := by
  cases h with
  | scope hm => exact .scope hm
  | fields hm => exact .fields hm
  | blueprint hm => exact .blueprint hm

theorem Bindable.mono {ts us : List Item} {id : ScopeId} (hsub : ts ⊆ us) (h : Bindable ts id) :
    Bindable us id := by
  cases h with
  | scope hm => exact .scope (hsub hm)
  | fields hm => exact .fields (hsub hm)
  | blueprint hm => exact .blueprint (hsub hm)

/-! ### Congruences -/

/-- Relations between two evaluations, given what both have in hand. -/
abbrev Relation := (α : Type) → [Yields α] → List Item → Eval α → Eval α → Prop

/-- A relation that the primitives respect, those apart that only a few
nodes use, and those that count calls and modules. -/
structure Primitives (R : Relation) : Prop where
  -- How evaluations combine
  result {α : Type} [Yields α] {ts : List Item} (a : α) :
    (∀ i ∈ items a, Known ts i) → R α ts (pure a) (pure a)
  bind {α β : Type} [Yields α] [Yields β] {ts : List Item} {x y : Eval α} {f g : α → Eval β} :
    R α ts x y → (∀ a, R β (items a ++ ts) (f a) (g a)) → R β ts (x >>= f) (y >>= g)
  exit {α : Type} [Yields α] {ts : List Item} (e : Exit) :
    (∀ i ∈ exitItems e, Known ts i) → R α ts (Eval.exit e) (Eval.exit e)
  outcome {α : Type} [Yields α] {ts : List Item} {x y : Eval α} :
    R α ts x y → R (Except Exit α) ts (Eval.outcome x) (Eval.outcome y)
  holding {α : Type} [Yields α] [Owner α] {ts : List Item} (refs : List Ref) {x y : Eval α} :
    R α ts x y → R α ts (Eval.holding refs x) (Eval.holding refs y)
  -- Scopes
  here {β : Type} [Yields β] {ts : List Item} {f g : ScopeId → Eval β} :
    (∀ id, R β (.scope id :: ts) (f id) (g id)) →
      R β ts (Eval.here >>= f) (Eval.here >>= g)
  within {α : Type} [Yields α] {ts : List Item} {id : ScopeId} {x y : Eval α} :
    .scope id ∈ ts → R α ts x y → R α ts (Eval.within id x) (Eval.within id y)
  newExports {β : Type} [Yields β] {ts : List Item} {f g : ScopeId → Eval β} :
    (∀ id, R β (.made id .exports :: ts) (f id) (g id)) →
      R β ts (Eval.newScope .exports >>= f) (Eval.newScope .exports >>= g)
  newChild {β : Type} [Yields β] {ts : List Item} {above : ScopeId} {kind : ScopeKind}
    {f g : ScopeId → Eval β} : Bindable ts above → CanMake ts kind →
    (∀ id, R β (.scope id :: .made id kind :: ts) (f id) (g id)) →
      R β ts (Eval.newChild above kind >>= f) (Eval.newChild above kind >>= g)
  newInstance {ts : List Item} {b : Blueprint} : .value (.blueprint b) ∈ ts →
    R Instance ts (Evaluator.newInstance b) (Evaluator.newInstance b)
  lookup? {ts : List Item} (name : String) :
    R (Option Value) ts (Eval.lookup? name) (Eval.lookup? name)
  getLocal? {ts : List Item} {id : ScopeId} (name : String) : Readable ts id →
    R (Option Value) ts (Eval.getLocal? id name) (Eval.getLocal? id name)
  boundCount {ts : List Item} (id : ScopeId) :
    R Nat ts (Eval.boundCount id) (Eval.boundCount id)
  declareIn {ts : List Item} {id : ScopeId} (name : String) {b : Binding} :
    Bindable ts id → Known ts (.value b.value) →
      R Unit ts (Eval.declareIn id name b) (Eval.declareIn id name b)
  assign {ts : List Item} (name : String) {v : Value} : Known ts (.value v) →
    R Unit ts (Eval.assign name v) (Eval.assign name v)
  copyBindings {ts : List Item} {target source : ScopeId} : Bindable ts target →
    Readable ts source →
    R Unit ts (Eval.copyBindings target source) (Eval.copyBindings target source)
  -- Streams
  checkInterrupt {ts : List Item} : R Unit ts Eval.checkInterrupt Eval.checkInterrupt
  write {ts : List Item} (text : String) : R Unit ts (Eval.write text) (Eval.write text)
  readLine {ts : List Item} : R (Option String) ts Eval.readLine Eval.readLine
  report {ts : List Item} (e : Exit) : R Unit ts (Eval.report e) (Eval.report e)
  -- The log and work for later. Visits are noted by `noteVisit` only.
  note {ts : List Item} {e : LogEntry} : e.isReserved = false →
    R Unit ts (Eval.note e) (Eval.note e)
  noteVisit {ts : List Item} (node : Node) : R Unit ts (noteVisit node) (noteVisit node)
  enqueue {ts : List Item} (body : List Node) :
    R Unit ts (Evaluator.enqueue body) (Evaluator.enqueue body)
  takeTasks {ts : List Item} :
    R (List (List Node)) ts Evaluator.takeTasks Evaluator.takeTasks
  register {ts : List Item} (event : String) (handler : Handler) :
    R Unit ts (Evaluator.register event handler) (Evaluator.register event handler)
  handlersOf {ts : List Item} (event : String) :
    R (List Handler) ts (Evaluator.handlersOf event) (Evaluator.handlersOf event)

/-- A relation that the writing to exports respects too. -/
structure ExportPrimitives (R : Relation) : Prop where
  nearestExports? {β : Type} [Yields β] {ts : List Item} {f g : Option ScopeId → Eval β} :
    (∀ o, R β (o.toList.map .exports ++ ts) (f o) (g o)) →
      R β ts (Eval.nearestExports? >>= f) (Eval.nearestExports? >>= g)
  exportIn {ts : List Item} {id : ScopeId} (name : String) {v : Value} :
    .exports id ∈ ts → Known ts (.value v) →
      R Unit ts (Eval.declareIn id name (.ofValue v)) (Eval.declareIn id name (.ofValue v))

/-- A relation that the primitives respect that only a few nodes use:
writing to exports, making code into values, raising an error, and
taking more steps than there are. -/
structure NodePrimitives (R : Relation) : Prop extends ExportPrimitives R where
  code {α : Type} [Yields α] {ts : List Item} {x y : Eval α} (body : List Node) :
    R α (.code body :: ts) x y → R α ts x y
  exhausted {α : Type} [Yields α] {ts : List Item} :
    R α ts Eval.exhausted Eval.exhausted
  trigger {ts : List Item} (name : String) (message : Option String) :
    R Value ts (Evaluator.trigger name message) (Evaluator.trigger name message)

/-! ### Combinations -/

namespace Primitives

variable {R : Relation} (h : Primitives R) {α β : Type} [Yields α] [Yields β] {ts : List Item}
include h

/-- Plain data is a result that needs nothing. -/
theorem plain {v : Value} (hv : v.isReference = false) : R Value ts (pure v) (pure v) := by
  apply h.result
  intro i hi
  rw [List.mem_singleton.mp hi]
  exact .data hv

/-- A result that brings nothing needs nothing. -/
theorem bare {a : α} (ha : items a = []) : R α ts (pure a) (pure a) := by
  apply h.result
  intro i hi
  rw [ha] at hi
  cases hi

theorem done : R Unit ts (pure ()) (pure ()) :=
  h.bare rfl

/-- Something in hand is a result. -/
theorem given {v : Value} (hv : .value v ∈ ts) : R Value ts (pure v) (pure v) := by
  apply h.result
  intro i hi
  rw [List.mem_singleton.mp hi]
  exact .mem hv

/-- One evaluation after another that has nothing to tell. -/
theorem andThen {x x' : Eval Unit} {y y' : Eval β} (hx : R Unit ts x x') (hy : R β ts y y') :
    R β ts (do x; y) (do x'; y') := by
  apply h.bind hx
  intro _
  exact hy

/-- A last step that only gives a result of plain data. -/
theorem thenPlain {x x' : Eval Unit} {v : Value} (hx : R Unit ts x x')
    (hv : v.isReference = false) :
    R Value ts (do x; pure v) (do x'; pure v) :=
  h.andThen hx (h.plain hv)

/-- What has been an outcome can be one again. -/
theorem ofOutcome {r : Except Exit α} (hr : ∀ i ∈ items r, i ∈ ts) :
    R α ts (Eval.ofOutcome r) (Eval.ofOutcome r) := by
  cases r with
  | ok a => exact h.result a fun i hi => .mem (hr i hi)
  | error e => exact h.exit e fun i hi => .mem (hr i hi)

theorem declare (name : String) {b : Binding} (hb : Known ts (.value b.value)) :
    R Unit ts (Eval.declare name b) (Eval.declare name b) := by
  apply h.here
  intro id
  refine h.declareIn name (.scope (by simp)) (hb.mono ?_)
  exact fun i hi => by simp [hi]

/-- Names are bound to values in hand. -/
theorem declareLocals {locals : List (String × Value)}
    (hlocals : ∀ l ∈ locals, Known ts (.value l.2)) :
    R Unit ts (Evaluator.declareLocals locals) (Evaluator.declareLocals locals) := by
  induction locals with
  | nil => exact h.done
  | cons first rest ih =>
    refine h.andThen (h.declare first.1 (hlocals first (by simp))) (ih fun l hl => ?_)
    exact hlocals l (List.mem_cons_of_mem _ hl)

theorem prepareCall (hdepth : R Nat ts Evaluator.callDepth Evaluator.callDepth) (name : String)
    (arity : Nat) {locals : List (String × Value)}
    (hlocals : ∀ l ∈ locals, Known ts (.value l.2)) :
    R (Except Exit Unit) ts (Evaluator.prepareCall name arity locals)
      (Evaluator.prepareCall name arity locals) := by
  refine h.bind hdepth fun d => ?_
  exact h.andThen (h.note rfl) (h.outcome (h.declareLocals hlocals))

theorem finishCall (name : String) {r : Except Exit Unit} (hr : ∀ i ∈ items r, i ∈ ts) :
    R Value ts (Evaluator.finishCall name r) (Evaluator.finishCall name r) := by
  unfold Evaluator.finishCall
  split
  · exact h.plain rfl
  · exact h.given (hr _ (List.mem_singleton_self _))
  · rename_i flow hflow
    refine h.thenPlain (h.note ?_) rfl
    cases flow with
    | back v => exact (hflow v rfl).elim
    | _ => rfl
  · exact h.exit _ fun i hi => .mem (hr i hi)

end Primitives

/-! ### Calls and modules -/

/-- A relation that the calls and the bringing of modules respect too.
`S` relates what runs inside of a call. -/
structure Congruence (R S : Relation) : Prop extends Primitives R, NodePrimitives R where
  invoke {ts : List Item} (name : String) (arity : Nat) {locals : List (String × Value)}
    {x y : Eval Unit} : (∀ l ∈ locals, Known ts (.value l.2)) → (∀ us, S Unit us x y) →
      R Value ts (Evaluator.invoke name arity locals x) (Evaluator.invoke name arity locals y)
  splice {ts : List Item} (path : String) {ev ev' : Evaluator} :
    (∀ us statements, R Unit us (Evaluator.runBlock ev statements)
      (Evaluator.runBlock ev' statements)) →
      R Unit ts (Evaluator.splice ev path) (Evaluator.splice ev' path)

/-- Where counting calls and modules in and out respects a relation, the
call and the bringing of a module do too. -/
theorem Congruence.of_counters {R : Relation} (h : Primitives R) (hn : NodePrimitives R)
    (enter : ∀ ts, R Unit ts Evaluator.enterCall Evaluator.enterCall)
    (depth : ∀ ts, R Nat ts Evaluator.callDepth Evaluator.callDepth)
    (leave : ∀ ts, R Unit ts Evaluator.exitCall Evaluator.exitCall)
    (start : ∀ ts path, R (List Node) ts (Evaluator.startBring path) (Evaluator.startBring path))
    (finish : ∀ ts, R Unit ts Evaluator.finishBring Evaluator.finishBring) :
    Congruence R R where
  toPrimitives := h
  toNodePrimitives := hn
  invoke := by
    intro ts name arity locals x y hlocals hbody
    -- The outcome of the body is a result here, so counting out comes after it in any case.
    have hcall : R (Except Exit Unit) ts (Evaluator.runCall name arity locals x)
        (Evaluator.runCall name arity locals y) := by
      refine h.bind (h.holding _ (h.andThen (enter ts) ?_)) fun bound => ?_
      · exact h.prepareCall (depth ts) name arity hlocals
      · refine h.outcome (h.andThen (h.ofOutcome ?_) (hbody _))
        exact fun i hi => List.mem_append_left _ hi
    refine h.bind hcall fun result => h.andThen (leave _) (h.finishCall name ?_)
    exact fun i hi => List.mem_append_left _ hi
  splice := by
    intro ts path ev ev' hbody
    -- The same holds for the statements of the module.
    refine h.bind (start ts path) fun statements => h.andThen (h.note rfl) ?_
    refine h.bind (h.outcome (hbody _ statements)) fun result => ?_
    exact h.andThen (finish _) (h.ofOutcome fun i hi => List.mem_append_left _ hi)

end Proofs

end Treewalk
