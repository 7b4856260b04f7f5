import Treewalk.Proofs.Congruence
import Treewalk.Proofs.Variants

/-!
# `Treewalk.Proofs.Discipline`: what is held and what is not

The result of an evaluation is kept alive by nobody, so whoever asked
for it must hold it before anything else runs. A relation between
evaluations that is to speak of what is alive cannot treat all items in
hand alike. It carries two lists: `kept` are the items that the context
holds, and `loose` those that have just been come by.

`Basics R` says how the primitives treat the two. After an evaluation
only what was kept is left, and the result is loose. Holding makes what
is loose kept. A primitive after which nothing loose is lost is `Calm`:
it lets nothing go. What only a few nodes do is left to `NodeRules`, so
that a relation can be particular about such a node.

Most relations say of an evaluation that exits what they say of one that
does not. They obey `Rules R`: an exit may be looked at as an outcome. A
relation that says more about some exits must be told in each place
where exits are handled. `Handling` lists these places.

A congruence in the sense of `Treewalk.Proofs.Congruence` does not tell
the two apart. `Congruence.discipline` makes a discipline of it, so a
construct has to be looked at only once, by its most careful rules.
-/

set_option autoImplicit false

namespace Treewalk

/-- Whether a node puts work off or takes tasks up. -/
def Node.defers : Node → Bool
  | paral _ => true
  | hold _ => true
  | listen _ => true
  | _ => false

/-- Whether a node does nothing but evaluate its parts, go to and fro
between scopes, and call: no loop, no module, no attempt, nothing for
later, nothing that concerns exports or errors, no code that becomes part
of a value. -/
def Node.isPlain : Node → Bool
  | spec _ | blueprint _ | expose _ | trigger .. => false
  | traverse .. | each .. | untilTrue .. | plug .. | bring .. | attempt _ => false
  | paral _ | hold _ | listen _ => false
  | _ => true

/-- The bodies that a node makes parts of values. -/
def Node.code : Node → List (List Node)
  | spec decl => [decl.body]
  | blueprint decl => decl.constructor.toList.map Constructor.body
  | _ => []

/-! ### Ways to bind names in exports -/

namespace Evaluator

open Eval

/-- Ways to bind names in exports. -/
abbrev Exporter := ScopeId → String → Value → Eval Unit

/-- Binds a name in exports, and does nothing else. -/
def exportTo : Exporter := fun exports name v =>
  declareIn exports name (.ofValue v)

variable (x : Exporter)

/-- `expose` by a way to bind names in exports. -/
def exposeBy (name : String) : Eval Value := do
  match ← nearestExports? with
  | none => fault (.mismatch .exposeOutsideToolkit)
  | some exports =>
    let v ← lookupAs .identifier name
    x exports name v
    pure .nil

/-- `exportIfInToolkit` by a way to bind names in exports. -/
def exportBy (name : String) (v : Value) : Eval Unit := do
  match ← nearestExports? with
  | some exports => x exports name v
  | none => pure ()

/-- `declareSpec` by a way to bind names in exports. -/
def declareSpecBy (decl : Spec Node) : Eval Value :=
  match decl.name with
  | none => pure (.spec decl)
  | some name => do
    declare name (.ofValue (.spec decl))
    if decl.isExported then exportBy x name (.spec decl)
    pure .nil

end Evaluator

end Treewalk

namespace Treewalk.Proofs

open Yields (items)

open Evaluator (Exporter exportTo)

/-! ### Holding items -/

/-- What must be alive for an item to be in hand. -/
def Item.refs : Item → List Ref
  | value v => v.refs
  | scope id => [.scope id]
  | made id _ => [.scope id]
  | exit _ => []
  | exports _ => []
  | code _ => []

/-- To hold the references is to hold the items. -/
structure Covers (refs : List Ref) (us : List Item) : Prop where
  held : ∀ i ∈ us, i.refs ⊆ refs
  only : ∀ r ∈ refs, ∃ i ∈ us, r ∈ i.refs

/-- Whether an item is what an evaluation ends with. -/
def Item.IsEnd : Item → Prop
  | value _ => True
  | exit _ => True
  | _ => False

/-- Types of results that are held by what they keep alive. -/
class Owned (α : Type) [Yields α] [Owner α] : Prop where
  isEnd (a : α) : ∀ i ∈ items a, i.IsEnd
  covers (a : α) : Covers (Owner.refs a) (items a)

/-- What brings nothing needs no holding. -/
theorem Covers.nil : Covers [] [] where
  held i hi := by cases hi
  only r hr := by cases hr

theorem Covers.append {rs rs' : List Ref} {us us' : List Item} (h : Covers rs us)
    (h' : Covers rs' us') : Covers (rs ++ rs') (us ++ us') where
  held i hi := by
    rcases List.mem_append.mp hi with hi | hi
    · exact List.subset_append_of_subset_left _ (h.held i hi)
    · exact List.subset_append_of_subset_right _ (h'.held i hi)
  only r hr := by
    rcases List.mem_append.mp hr with hr | hr
    · obtain ⟨i, hi, hmem⟩ := h.only r hr
      exact ⟨i, List.mem_append_left _ hi, hmem⟩
    · obtain ⟨i, hi, hmem⟩ := h'.only r hr
      exact ⟨i, List.mem_append_right _ hi, hmem⟩

theorem Covers.value (v : Value) : Covers v.refs [.value v] where
  held i hi := by
    rw [List.mem_singleton.mp hi]
    exact fun _ hr => hr
  only r hr := ⟨_, List.mem_singleton_self _, hr⟩

/-- The scope that an object is to be made of, to work in and for what
it was made. -/
theorem Covers.part (id : ScopeId) (kind : ScopeKind) :
    Covers [.scope id] [.scope id, .made id kind] where
  held i hi := by
    rcases List.mem_cons.mp hi with rfl | hi
    · exact fun _ hr => hr
    · rw [List.mem_singleton.mp hi]
      exact fun _ hr => hr
  only r hr := ⟨_, List.mem_cons_self .., hr⟩

theorem Covers.toolkit (id exports : ScopeId) :
    Covers [.scope id, .scope exports]
      [.scope id, .made id (.toolkit exports), .made exports .exports] where
  held i hi r hr := by
    simp only [List.mem_cons, List.not_mem_nil, or_false] at hi
    rcases hi with rfl | rfl | rfl <;> simp_all [Item.refs]
  only r hr := by
    simp only [List.mem_cons, List.not_mem_nil, or_false] at hr
    rcases hr with rfl | rfl <;> simp [Item.refs]

theorem Covers.values (vs : List Value) : Covers (Owner.refs vs) (items vs) := by
  induction vs with
  | nil => exact .nil
  | cons v rest ih => exact (Covers.value v).append ih

theorem Covers.exit (e : Exit) : Covers e.refs (exitItems e) := by
  match e with
  | .flow (.back v) => exact .value v
  | .flow .halt | .flow .proceed | .fault _ => exact .nil
  | .raised _ _ | .interrupted | .stream _ =>
    exact ⟨fun i hi => by simp [exitItems] at hi; simp [hi, Item.refs], fun r hr => by cases hr⟩

/-- Data brings nothing and is held by nothing. -/
theorem Owned.data {α : Type} [Yields α] [Owner α] (hitems : ∀ a : α, items a = [])
    (hrefs : ∀ a : α, Owner.refs a = []) : Owned α where
  isEnd a i hi := by
    rw [hitems a] at hi
    cases hi
  covers a := by
    rw [hitems a, hrefs a]
    exact .nil

instance : Owned Unit := .data (fun _ => rfl) (fun _ => rfl)

instance : Owned Bool := .data (fun _ => rfl) (fun _ => rfl)

instance : Owned Float := .data (fun _ => rfl) (fun _ => rfl)

instance : Owned (Float × Float) := .data (fun _ => rfl) (fun _ => rfl)

instance : Owned String := .data (fun _ => rfl) (fun _ => rfl)

instance : Owned Value where
  isEnd v i hi := by
    rw [List.mem_singleton.mp hi]
    trivial
  covers := .value

instance : Owned (List Value) where
  isEnd vs i hi := by
    obtain ⟨v, -, rfl⟩ := List.mem_map.mp hi
    trivial
  covers := .values

instance {α : Type} [Yields α] [Owner α] [Owned α] : Owned (Except Exit α) where
  isEnd r i hi := by
    match r, hi with
    | .ok a, hi => exact Owned.isEnd a i hi
    | .error e, hi =>
      have hexit : i ∈ exitItems e := hi
      unfold exitItems at hexit
      split at hexit <;> simp_all [Item.IsEnd]
  covers r := by
    match r with
    | .ok a => exact Owned.covers a
    | .error e => exact .exit e

/-! ### Rules -/

/-- Relations between two evaluations, given what is held for both and
what both have just come by. -/
abbrev Custom := (α : Type) → [Yields α] → (kept loose : List Item) → Eval α → Eval α → Prop

/-- First steps after which what was loose still is in hand, beside what
they bring. -/
def Calm (R : Custom) (kept loose : List Item) {α : Type} (us : α → List Item)
    (x y : Eval α) : Prop :=
  ∀ (β : Type) [Yields β] (f g : α → Eval β),
    (∀ a, R β kept (us a ++ loose) (f a) (g a)) → R β kept loose (x >>= f) (y >>= g)

/-- One evaluation after a calm one that has nothing to tell. -/
theorem Calm.andThen {R : Custom} {β : Type} [Yields β] {kept loose : List Item}
    {x x' : Eval Unit} {y y' : Eval β} (hx : Calm R kept loose items x x')
    (hy : R β kept loose y y') : R β kept loose (do x; y) (do x'; y') := by
  apply hx
  intro _
  exact hy

/-- What is in hand still is when more is held. -/
theorem subset_of_kept {us kept kept' loose : List Item} (h : us ⊆ loose ++ kept)
    (hkept : kept ⊆ kept') : us ⊆ loose ++ kept' := by
  refine List.Subset.trans h (List.append_subset.mpr ⟨List.subset_append_left .., ?_⟩)
  exact List.subset_append_of_subset_right _ hkept

/-- The scopes in which the frame of a construct is made: for a method
the fields of an instance that is held, and else a scope that is
held. -/
inductive Anchor (kept : List Item) : ScopeKind → ScopeId → Prop where
  | block {id : ScopeId} : .scope id ∈ kept → Anchor kept .block id
  | function {id : ScopeId} : .scope id ∈ kept → Anchor kept .function id
  | method {i : Instance} : .value (.object i) ∈ kept → Anchor kept .method i.fields

/-- The kinds of scopes that an object is made of, instances and exports
apart. -/
inductive PartKind (ts : List Item) : ScopeKind → Prop where
  | blueprint : PartKind ts .blueprint
  | toolkit {exports : ScopeId} : .made exports .exports ∈ ts → PartKind ts (.toolkit exports)
  | bridge : PartKind ts .bridge

theorem PartKind.canMake {ts us : List Item} {kind : ScopeKind} (hsub : ts ⊆ us)
    (h : PartKind ts kind) : CanMake us kind := by
  cases h with
  | toolkit he => exact hsub he
  | _ => trivial

theorem Anchor.canMake {kept ts : List Item} {kind : ScopeKind} {above : ScopeId}
    (h : Anchor kept kind above) : CanMake ts kind := by
  cases h <;> trivial

theorem Anchor.bindable {kept ts : List Item} {kind : ScopeKind} {above : ScopeId}
    (hsub : kept ⊆ ts) (h : Anchor kept kind above) : Bindable ts above := by
  cases h with
  | block hm => exact .scope (hsub hm)
  | function hm => exact .scope (hsub hm)
  | method hm => exact .fields (hsub hm)

/-- A relation that the primitives respect, with what they keep and what
they lose. Left out are those that look at an exit, that can stop a run,
that count calls and modules, that put work off, that deal with the
exports, and that raise an error. -/
structure Basics (R : Custom) : Prop where
  -- How evaluations combine
  result {α : Type} [Yields α] {kept loose : List Item} (a : α) :
    (∀ i ∈ items a, Known (loose ++ kept) i) → R α kept loose (pure a) (pure a)
  bind {α β : Type} [Yields α] [Yields β] {kept loose : List Item} {x y : Eval α}
    {f g : α → Eval β} : R α kept loose x y → (∀ a, R β kept (items a) (f a) (g a)) →
      R β kept loose (x >>= f) (y >>= g)
  exit {α : Type} [Yields α] {kept loose : List Item} (e : Exit) :
    (∀ i ∈ exitItems e, Known (loose ++ kept) i) → R α kept loose (Eval.exit e) (Eval.exit e)
  holding {α : Type} [Yields α] [Owner α] [Owned α] {kept loose us : List Item}
    {refs : List Ref} {x y : Eval α} : us ⊆ loose ++ kept → Covers refs us →
      R α (us ++ kept) loose x y → R α kept loose (Eval.holding refs x) (Eval.holding refs y)
  -- Scopes
  here {β : Type} [Yields β] {kept loose : List Item} {f g : ScopeId → Eval β} :
    (∀ id, R β (.scope id :: kept) loose (f id) (g id)) →
      R β kept loose (Eval.here >>= f) (Eval.here >>= g)
  within {α : Type} [Yields α] {kept loose : List Item} {id : ScopeId} {x y : Eval α} :
    .scope id ∈ kept → R α kept loose x y →
      R α kept loose (Eval.within id x) (Eval.within id y)
  newExports {kept loose : List Item} :
    Calm R kept loose (fun id => [.made id .exports]) (Eval.newScope .exports)
      (Eval.newScope .exports)
  newPart {kept loose : List Item} {above : ScopeId} {kind : ScopeKind} :
    Bindable (loose ++ kept) above → PartKind (loose ++ kept) kind →
      Calm R kept loose (fun id => [.scope id, .made id kind]) (Eval.newChild above kind)
        (Eval.newChild above kind)
  newFrame {α : Type} [Yields α] [Owner α] [Owned α] {kept loose : List Item} {above : ScopeId}
    {kind : ScopeKind} {f g : ScopeId → Eval α} : Anchor kept kind above →
      (∀ id, R α (.scope id :: kept) loose (f id) (g id)) →
        R α kept loose
          (Eval.newChild above kind >>= fun id => Eval.holding [.scope id] (f id))
          (Eval.newChild above kind >>= fun id => Eval.holding [.scope id] (g id))
  newInstance {kept loose : List Item} {b : Blueprint} : .value (.blueprint b) ∈ loose ++ kept →
    R Instance kept loose (Evaluator.newInstance b) (Evaluator.newInstance b)
  lookup? {kept loose : List Item} (name : String) :
    Calm R kept loose items (Eval.lookup? name) (Eval.lookup? name)
  getLocal? {kept loose : List Item} {id : ScopeId} (name : String) :
    Readable (loose ++ kept) id →
    Calm R kept loose items (Eval.getLocal? id name) (Eval.getLocal? id name)
  boundCount {kept loose : List Item} (id : ScopeId) :
    Calm R kept loose items (Eval.boundCount id) (Eval.boundCount id)
  declareIn {kept loose : List Item} {id : ScopeId} (name : String) {b : Binding} :
    Bindable (loose ++ kept) id → Known (loose ++ kept) (.value b.value) →
      R Unit kept loose (Eval.declareIn id name b) (Eval.declareIn id name b)
  assign {kept loose : List Item} (name : String) {v : Value} :
    Known (loose ++ kept) (.value v) →
      R Unit kept loose (Eval.assign name v) (Eval.assign name v)
  copyBindings {kept loose : List Item} {target source : ScopeId} :
    Bindable (loose ++ kept) target → Readable (loose ++ kept) source →
      R Unit kept loose (Eval.copyBindings target source) (Eval.copyBindings target source)
  -- Streams
  write {kept loose : List Item} (text : String) :
    R Unit kept loose (Eval.write text) (Eval.write text)
  readLine {kept loose : List Item} :
    R (Option String) kept loose Eval.readLine Eval.readLine
  report {kept loose : List Item} (e : Exit) :
    R Unit kept loose (Eval.report e) (Eval.report e)
  -- The log and the events
  note {kept loose : List Item} {e : LogEntry} : e.isReserved = false →
    Calm R kept loose items (Eval.note e) (Eval.note e)
  noteVisit {kept loose : List Item} (node : Node) :
    R Unit kept loose (noteVisit node) (noteVisit node)
  handlersOf {kept loose : List Item} (event : String) :
    R (List Handler) kept loose (Evaluator.handlersOf event) (Evaluator.handlersOf event)

/-- A relation that the writing to exports respects too, in each of two
ways. -/
structure Exporting (R : Custom) (x y : Exporter) : Prop where
  nearestExports? {kept loose : List Item} :
    Calm R kept loose (fun o => o.toList.map .exports) Eval.nearestExports? Eval.nearestExports?
  exportIn {kept loose : List Item} {id : ScopeId} (name : String) {v : Value} :
    .exports id ∈ loose ++ kept → Known (loose ++ kept) (.value v) →
      R Unit kept loose (x id name v) (y id name v)

/-- A relation under which a body may always be made part of a value. -/
def Offers (R : Custom) (body : List Node) : Prop :=
  ∀ (α : Type) [Yields α] (kept loose : List Item) (x y : Eval α),
    R α kept (.code body :: loose) x y → R α kept loose x y

/-- Rules for what only a few nodes do: writing to exports, making code
into values, raising an error, and taking more steps than there are. -/
structure NodeRules (R : Custom) : Prop extends Exporting R exportTo exportTo where
  code (body : List Node) : Offers R body
  exhausted {α : Type} [Yields α] {kept loose : List Item} :
    R α kept loose Eval.exhausted Eval.exhausted
  trigger {kept loose : List Item} (name : String) (message : Option String) :
    R Value kept loose (Evaluator.trigger name message) (Evaluator.trigger name message)

/-- A relation that may be told of an exit as of any other outcome. -/
structure Rules (R : Custom) : Prop extends Basics R where
  outcome {α : Type} [Yields α] {kept loose : List Item} {x y : Eval α} :
    R α kept loose x y → R (Except Exit α) kept loose (Eval.outcome x) (Eval.outcome y)
  checkInterrupt {kept loose : List Item} :
    R Unit kept loose Eval.checkInterrupt Eval.checkInterrupt

/-- Rules that the calls obey too. `S` relates what runs inside of a
call. -/
structure Calling (R S : Custom) : Prop extends Basics R where
  invoke {kept loose : List Item} (name : String) (arity : Nat)
    {locals : List (String × Value)} {x y : Eval Unit} :
    (∀ l ∈ locals, .value l.2 ∈ loose ++ kept) → (∀ us vs, S Unit us vs x y) →
      R Value kept loose (Evaluator.invoke name arity locals x)
        (Evaluator.invoke name arity locals y)

/-- The bodies that calls run: those of specs, and those of the
constructors of instances. -/
inductive Brings (ts : List Item) : List Node → Prop where
  | spec {s : Spec Node} : .value (.spec s) ∈ ts → Brings ts s.body
  | constructor {i : Instance} {k : Constructor Node} : .value (.object i) ∈ ts →
      i.blueprint.constructor = some k → Brings ts k.body

/-- Two ways to run the bodies of calls whose runs are related for all
bodies that are in hand. -/
def Supplies (R S : Custom) (run run' : List Node → Eval Unit) : Prop :=
  ∀ (α : Type) [Yields α] (kept loose : List Item) (body : List Node) (x y : Eval α),
    Brings (loose ++ kept) body →
      ((∀ us vs, S Unit us vs (run body) (run' body)) → R α kept loose x y) → R α kept loose x y

/-- Runs that are related for all bodies are so for those in hand. -/
theorem Supplies.of_all {R S : Custom} {run run' : List Node → Eval Unit}
    (h : ∀ kept loose body, S Unit kept loose (run body) (run' body)) : Supplies R S run run' :=
  fun _ _ _ _ body _ _ _ hx => hx fun us vs => h us vs body

/-- Rules that the calls and the bringing of modules obey too. -/
structure Conduct (R S : Custom) : Prop extends Rules R, Calling R S where
  splice {kept loose : List Item} (path : String) {ev ev' : Evaluator} :
    (∀ us vs statements, R Unit us vs (Evaluator.runBlock ev statements)
      (Evaluator.runBlock ev' statements)) →
      R Unit kept loose (Evaluator.splice ev path) (Evaluator.splice ev' path)

/-- Rules that all nodes obey, those that put work off or take tasks up
apart. -/
structure Discipline (R S : Custom) : Prop extends Conduct R S, NodeRules R

/-- The places where two variants of the evaluator handle exits or can
be stopped, for two evaluators of the nodes inside. -/
structure Handling (R S : Custom) (v v' : Variant) (ev ev' : Evaluator) : Prop
    extends Calling R S where
  exhausted {α : Type} [Yields α] {kept loose : List Item} :
    R α kept loose Eval.exhausted Eval.exhausted
  checking {kept loose : List Item} : R Unit kept loose v.check v'.check
  iteration {kept loose : List Item} (body : List Node) :
    R Bool kept loose (Evaluator.iteration ev body) (Evaluator.iteration ev' body)
  attempt {kept loose : List Item} (parts : Attempt Node) :
    R Value kept loose (Evaluator.attemptWith v.concluding ev parts)
      (Evaluator.attemptWith v'.concluding ev' parts)
  splice {kept loose : List Item} (path : String) :
    R Unit kept loose (Evaluator.splice ev path) (Evaluator.splice ev' path)

/-- Rules that putting work off and taking tasks up obey too. -/
structure TaskRules (R : Custom) : Prop where
  enqueue {kept loose : List Item} (body : List Node) :
    R Unit kept loose (Evaluator.enqueue body) (Evaluator.enqueue body)
  takeTasks {kept loose : List Item} :
    R (List (List Node)) kept loose Evaluator.takeTasks Evaluator.takeTasks
  register {kept loose : List Item} (event : String) (handler : Handler) :
    R Unit kept loose (Evaluator.register event handler) (Evaluator.register event handler)

/-! ### Combinations -/

namespace Basics

variable {R : Custom} (h : Basics R) {α β : Type} [Yields α] [Yields β] {kept loose : List Item}
include h

/-- Plain data is a result that needs nothing. -/
theorem plain {v : Value} (hv : v.isReference = false) : R Value kept loose (pure v) (pure v) := by
  apply h.result
  intro i hi
  rw [List.mem_singleton.mp hi]
  exact .data hv

/-- A result that brings nothing needs nothing. -/
theorem bare {a : α} (ha : items a = []) : R α kept loose (pure a) (pure a) := by
  apply h.result
  intro i hi
  rw [ha] at hi
  cases hi

theorem done : R Unit kept loose (pure ()) (pure ()) :=
  h.bare rfl

/-- Something in hand is a result. -/
theorem given {a : α} (ha : items a ⊆ loose ++ kept) : R α kept loose (pure a) (pure a) :=
  h.result a fun _ hi => .mem (ha hi)

theorem fault (f : Fault) : R α kept loose (Eval.fault f) (Eval.fault f) := by
  apply h.exit
  intro i hi
  cases hi

theorem ofExcept {r : Except Fault α}
    (hr : ∀ a, r = .ok a → ∀ i ∈ items a, Known (loose ++ kept) i) :
    R α kept loose (Eval.ofExcept r) (Eval.ofExcept r) := by
  cases r with
  | ok a => exact h.result a (hr a rfl)
  | error f => exact h.fault f

/-- What has been an outcome can be one again. -/
theorem ofOutcome {r : Except Exit α} (hr : items r ⊆ loose ++ kept) :
    R α kept loose (Eval.ofOutcome r) (Eval.ofOutcome r) := by
  cases r with
  | ok a => exact h.result a fun _ hi => .mem (hr hi)
  | error e => exact h.exit e fun _ hi => .mem (hr hi)

/-- One evaluation after another that has nothing to tell. -/
theorem andThen {x x' : Eval Unit} {y y' : Eval β} (hx : R Unit kept loose x x')
    (hy : R β kept [] y y') : R β kept loose (do x; y) (do x'; y') := by
  apply h.bind hx
  intro _
  exact hy

/-- A last step that only gives a result of plain data. -/
theorem thenPlain {x x' : Eval Unit} {v : Value} (hx : R Unit kept loose x x')
    (hv : v.isReference = false) : R Value kept loose (do x; pure v) (do x'; pure v) :=
  h.andThen hx (h.plain hv)

/-- What is calm as a first step can stand alone. -/
theorem calm {x y : Eval α} (hx : Calm R kept loose items x y) : R α kept loose x y := by
  have hpure : R α kept loose (x >>= pure) (y >>= pure) := by
    apply hx
    intro a
    refine h.given fun i hi => ?_
    simp [hi]
  rwa [bind_pure, bind_pure] at hpure

/-- What is asked for is held while it is used. -/
theorem borrow [Owner α] [Owned α] [Owner β] [Owned β] {x y : Eval α} {f g : α → Eval β}
    (hx : R α kept loose x y) (hf : ∀ a, R β (items a ++ kept) (items a) (f a) (g a)) :
    R β kept loose (Eval.borrow x f) (Eval.borrow y g) := by
  apply h.bind hx
  intro a
  exact h.holding (List.subset_append_left ..) (Owned.covers a) (hf a)

theorem forget [Owner α] [Owned α] {x y : Eval α} (hx : R α kept loose x y) :
    R Unit kept loose (Eval.forget x) (Eval.forget y) := by
  apply h.borrow hx
  intro _
  exact h.done

/-- A construct that runs in a frame. -/
theorem inFrame [Owner α] [Owned α] {above : ScopeId} {kind : ScopeKind} {x y : Eval α}
    (habove : Anchor kept kind above) (hx : ∀ id, R α (.scope id :: kept) loose x y) :
    R α kept loose (Eval.inChild above kind x) (Eval.inChild above kind y) := by
  apply h.newFrame habove
  intro id
  exact h.within (List.mem_cons_self ..) (hx id)

theorem declare (name : String) {b : Binding} (hb : Known (loose ++ kept) (.value b.value)) :
    R Unit kept loose (Eval.declare name b) (Eval.declare name b) := by
  apply h.here
  intro id
  refine h.declareIn name (.scope (by simp)) (hb.mono fun i hi => ?_)
  rcases List.mem_append.mp hi with hi | hi <;> simp [hi]

/-- Names are bound to values that are held. -/
theorem declareLocals {locals : List (String × Value)}
    (hlocals : ∀ l ∈ locals, Known kept (.value l.2)) :
    R Unit kept loose (Evaluator.declareLocals locals) (Evaluator.declareLocals locals) := by
  induction locals generalizing loose with
  | nil => exact h.done
  | cons first rest ih =>
    have hfirst : Known kept (.value first.2) := hlocals first (List.mem_cons_self ..)
    refine h.andThen (h.declare first.1 (hfirst.mono (List.subset_append_right ..))) (ih ?_)
    exact fun l hl => hlocals l (List.mem_cons_of_mem _ hl)

theorem finishCall (name : String) {r : Except Exit Unit} (hr : items r ⊆ loose ++ kept) :
    R Value kept loose (Evaluator.finishCall name r) (Evaluator.finishCall name r) := by
  unfold Evaluator.finishCall
  split
  · exact h.plain rfl
  · exact h.given hr
  · rename_i flow hflow
    refine h.thenPlain (h.calm (h.note ?_)) rfl
    cases flow with
    | back v => exact (hflow v rfl).elim
    | _ => rfl
  · exact h.exit _ fun i hi => .mem (hr hi)

end Basics

theorem Rules.prepareCall {R : Custom} (h : Rules R) {kept loose : List Item}
    (hdepth : R Nat kept loose Evaluator.callDepth Evaluator.callDepth)
    (name : String) (arity : Nat) {locals : List (String × Value)}
    (hlocals : ∀ l ∈ locals, Known kept (.value l.2)) :
    R (Except Exit Unit) kept loose (Evaluator.prepareCall name arity locals)
      (Evaluator.prepareCall name arity locals) := by
  refine h.bind hdepth fun d => ?_
  exact h.andThen (h.calm (h.note rfl)) (h.outcome (h.declareLocals hlocals))

/-- A call is counted in and its names are bound. Their values are held
until then, and afterwards the frame keeps them. -/
theorem Rules.beginCall {R : Custom} (h : Rules R) {kept loose : List Item}
    (enter : ∀ kept loose, R Unit kept loose Evaluator.enterCall Evaluator.enterCall)
    (depth : ∀ kept loose, R Nat kept loose Evaluator.callDepth Evaluator.callDepth)
    (name : String) (arity : Nat) {locals : List (String × Value)}
    (hlocals : ∀ l ∈ locals, .value l.2 ∈ loose ++ kept) :
    R (Except Exit Unit) kept loose
      (Eval.holding (Owner.refs (locals.map Prod.snd)) do
        Evaluator.enterCall
        Evaluator.prepareCall name arity locals)
      (Eval.holding (Owner.refs (locals.map Prod.snd)) do
        Evaluator.enterCall
        Evaluator.prepareCall name arity locals) := by
  have hus : items (locals.map Prod.snd) ⊆ loose ++ kept := by
    intro i hi
    obtain ⟨v, hv, rfl⟩ := List.mem_map.mp hi
    obtain ⟨l, hl, rfl⟩ := List.mem_map.mp hv
    exact hlocals l hl
  have hheld : ∀ l ∈ locals, Known (items (locals.map Prod.snd) ++ kept) (.value l.2) := by
    intro l hl
    exact .mem (List.mem_append_left _ (List.mem_map_of_mem (List.mem_map_of_mem hl)))
  refine h.holding hus (Owned.covers _) (h.andThen (enter _ _) ?_)
  exact h.prepareCall (depth _ _) name arity hheld

/-- Where counting calls in and out obeys the rules, a call does too. -/
theorem Calling.of_counters {R : Custom} (h : Rules R)
    (enter : ∀ kept loose, R Unit kept loose Evaluator.enterCall Evaluator.enterCall)
    (depth : ∀ kept loose, R Nat kept loose Evaluator.callDepth Evaluator.callDepth)
    (leave : ∀ kept loose, Calm R kept loose items Evaluator.exitCall Evaluator.exitCall) :
    Calling R R where
  toBasics := h.toBasics
  invoke := by
    intro kept loose name arity locals x y hlocals hbody
    have hcall : R (Except Exit Unit) kept loose (Evaluator.runCall name arity locals x)
        (Evaluator.runCall name arity locals y) := by
      refine h.bind (h.beginCall enter depth name arity hlocals) fun bound => ?_
      refine h.outcome (h.andThen (h.ofOutcome ?_) (hbody _ _))
      exact List.subset_append_left ..
    -- The outcome of the body is a result here, so counting out comes after it in any case.
    refine h.bind hcall fun result => (leave _ _).andThen (h.finishCall name ?_)
    exact List.subset_append_left ..

/-- Where counting calls and modules in and out obeys the rules, the
call and the bringing of a module do too. -/
theorem Conduct.of_counters {R : Custom} (h : Rules R)
    (enter : ∀ kept loose, R Unit kept loose Evaluator.enterCall Evaluator.enterCall)
    (depth : ∀ kept loose, R Nat kept loose Evaluator.callDepth Evaluator.callDepth)
    (leave : ∀ kept loose, Calm R kept loose items Evaluator.exitCall Evaluator.exitCall)
    (start : ∀ kept loose path,
      R (List Node) kept loose (Evaluator.startBring path) (Evaluator.startBring path))
    (finish : ∀ kept loose,
      Calm R kept loose items Evaluator.finishBring Evaluator.finishBring) :
    Conduct R R where
  toRules := h
  invoke := (Calling.of_counters h enter depth leave).invoke
  splice := by
    intro kept loose path ev ev' hbody
    refine h.bind (start _ _ path) fun statements => (h.note rfl).andThen ?_
    -- The outcome of the statements is a result here, so the module is ended in any case.
    refine h.bind (h.outcome (hbody _ _ statements)) fun result => ?_
    exact (finish _ _).andThen (h.ofOutcome (List.subset_append_left ..))

/-! ### Relations that do not tell the two apart -/

/-- A relation between evaluations, given all they have in hand, as one
that also holds with more in hand. -/
def Relation.upward (R : Relation) : Custom :=
  fun _ _ kept loose x y => ∀ ts, loose ++ kept ⊆ ts → R _ ts x y

section
variable {R S : Relation} {kept loose ts us : List Item}

/-- With nothing loose, all that is in hand is what is held. -/
theorem Relation.upward.all {α : Type} [Yields α] {x y : Eval α} (h : R.upward α ts [] x y) :
    R α ts x y :=
  h ts (List.Subset.refl ts)

theorem append_subset_append (hts : loose ++ kept ⊆ ts) : (us ++ loose) ++ kept ⊆ us ++ ts := by
  rw [List.append_assoc]
  exact List.append_subset.mpr ⟨List.subset_append_left .., List.subset_append_of_subset_right _ hts⟩

/-- A first step after which a continuation has more in hand is calm. -/
theorem calm_of_upward {α : Type} {us : α → List Item} {x y : Eval α}
    (h : ∀ (β : Type) [Yields β] (ts : List Item) (f g : α → Eval β), loose ++ kept ⊆ ts →
      (∀ a, R β (us a ++ ts) (f a) (g a)) → R β ts (x >>= f) (y >>= g)) :
    Calm R.upward kept loose us x y := by
  intro β _ f g hf ts hts
  exact h β ts f g hts fun a => hf a _ (append_subset_append hts)

/-- The primitives obey the rules if they respect the relation. -/
theorem Primitives.rules (h : Primitives R) : Rules R.upward where
  result a ha ts hts := h.result a fun i hi => (ha i hi).mono hts
  bind hx hf ts hts := by
    refine h.bind (hx ts hts) fun a => hf a _ (List.append_subset.mpr ⟨?_, ?_⟩)
    · exact List.subset_append_left ..
    · exact List.subset_append_of_subset_right _ (List.append_subset.mp hts).2
  exit e he ts hts := h.exit e fun i hi => (he i hi).mono hts
  outcome hx ts hts := h.outcome (hx ts hts)
  holding hus _ hx ts hts := by
    obtain ⟨hloose, hkept⟩ := List.append_subset.mp hts
    refine h.holding _ (hx ts (List.append_subset.mpr ⟨hloose, ?_⟩))
    exact List.append_subset.mpr ⟨List.Subset.trans hus hts, hkept⟩
  here hf ts hts := by
    obtain ⟨hloose, hkept⟩ := List.append_subset.mp hts
    refine h.here fun id => hf id _ (List.append_subset.mpr ⟨?_, ?_⟩)
    · exact List.subset_cons_of_subset _ hloose
    · exact List.cons_subset_cons _ hkept
  within hid hx ts hts := h.within (hts (List.mem_append_right _ hid)) (hx ts hts)
  newExports := calm_of_upward fun β _ ts f g _ hf => h.newExports hf
  newPart habove hkind := calm_of_upward fun β _ ts f g hts hf =>
    h.newChild (habove.mono hts) (hkind.canMake hts) hf
  newFrame habove hf ts hts := by
    obtain ⟨hloose, hkept⟩ := List.append_subset.mp hts
    refine h.newChild (habove.bindable hkept) habove.canMake fun id => h.holding _ (hf id _ ?_)
    refine List.append_subset.mpr ⟨?_, List.cons_subset_cons _ ?_⟩
    · exact List.subset_cons_of_subset _ (List.subset_cons_of_subset _ hloose)
    · exact List.subset_cons_of_subset _ hkept
  newInstance hb ts hts := h.newInstance (hts hb)
  lookup? name := calm_of_upward fun β _ ts f g _ hf => h.bind (h.lookup? name) hf
  getLocal? name hid := calm_of_upward fun β _ ts f g hts hf =>
    h.bind (h.getLocal? name (hid.mono hts)) hf
  boundCount id := calm_of_upward fun β _ ts f g _ hf => h.bind (h.boundCount id) hf
  declareIn name _ hid hb ts hts := h.declareIn name (hid.mono hts) (hb.mono hts)
  assign name _ hv ts hts := h.assign name (hv.mono hts)
  copyBindings htarget hsource ts hts := h.copyBindings (htarget.mono hts) (hsource.mono hts)
  checkInterrupt _ _ := h.checkInterrupt
  write text _ _ := h.write text
  readLine _ _ := h.readLine
  report e _ _ := h.report e
  note he := calm_of_upward fun β _ ts f g _ hf => h.bind (h.note he) hf
  noteVisit node _ _ := h.noteVisit node
  handlersOf event _ _ := h.handlersOf event

theorem ExportPrimitives.exporting (h : ExportPrimitives R) :
    Exporting R.upward exportTo exportTo where
  nearestExports? := calm_of_upward fun _ _ _ _ _ _ hf => h.nearestExports? hf
  exportIn name _ hid hb _ hts := h.exportIn name (hts hid) (hb.mono hts)

theorem NodePrimitives.rules (h : NodePrimitives R) : NodeRules R.upward where
  toExporting := h.toExportPrimitives.exporting
  code body α _ kept loose x y hx ts hts := by
    -- Nothing tells whether a body is in hand, so it may be added to all that is.
    refine h.code body (hx _ ?_)
    exact List.cons_subset_cons _ hts
  exhausted _ _ := h.exhausted
  trigger name message _ _ := h.trigger name message

theorem Primitives.taskRules (h : Primitives R) : TaskRules R.upward where
  enqueue body _ _ := h.enqueue body
  takeTasks _ _ := h.takeTasks
  register event handler _ _ := h.register event handler

/-- A congruence is a discipline under which nothing is lost. -/
theorem Congruence.discipline (h : Congruence R S) : Discipline R.upward S.upward where
  toRules := h.toPrimitives.rules
  toNodeRules := h.toNodePrimitives.rules
  invoke name arity _ _ _ hlocals hbody _ hts :=
    h.invoke name arity (fun l hl => .mem (hts (hlocals l hl))) fun us =>
      hbody [] [] us (List.nil_subset us)
  splice path _ _ hbody _ _ :=
    h.splice path fun us statements => hbody [] [] statements us (List.nil_subset us)

end

end Treewalk.Proofs
