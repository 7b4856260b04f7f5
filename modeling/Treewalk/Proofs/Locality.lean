import Treewalk.Proofs.StoreRegime
import Treewalk.Session.Basic

/-!
# `Treewalk.Proofs.Locality`: names stay where they are bound

An evaluation works in a scope and makes new ones below it. A name that
nothing binds is bound in the scope where the evaluation works, and any
other scope is reached through an object only: the fields of an
instance, the scope of a blueprint, and the exports of a toolkit.

So the scopes in which code runs keep their names, as long as no object
passes such a scope off as one of its parts. `WellKinded` says that.
It holds of a new interpreter, and evaluations keep it.

The regime `locality` has a set of scopes that are free to work in.
`locals_stay` puts the current scope into that set; `frames_stay` puts
none of the scopes that exist into it, since calls, embedded blocks and
attempts work in frames of their own.
-/

set_option autoImplicit false

namespace Treewalk

/-- Whether scopes of a kind are for code to run in. The scopes of the
other kinds are the parts of objects. -/
def ScopeKind.isLexical : ScopeKind → Bool
  | global | block | function | method | toolkit _ | bridge => true
  | blueprint | .instance _ | exports => false

/-- The scopes that a value makes writable for whoever has it. -/
def Value.parts : Value → List ScopeId
  | object i => [i.fields]
  | blueprint b => [b.scope]
  | _ => []

/-- The scopes that a scope of a kind makes writable for the code that
runs in it. -/
def ScopeKind.parts : ScopeKind → List ScopeId
  | .instance owner => [owner.fields]
  | toolkit id => [id]
  | _ => []

namespace Proofs

open Yields (items)

/-! ### Kinds that fit -/

/-- A number that was given out, and not to a scope for code. -/
structure PartAt (s : Store) (id : ScopeId) : Prop where
  lt : id < s.next
  kind {scope : Scope} : s.scope? id = some scope → scope.kind.isLexical = false

/-- A value whose parts are no scopes for code. -/
def ValueFits (s : Store) (v : Value) : Prop :=
  ∀ p ∈ v.parts, PartAt s p

/-- A scope that gives nobody a scope for code as the part of an
object. -/
structure Fits (s : Store) (scope : Scope) : Prop where
  kind : ∀ p ∈ scope.kind.parts, PartAt s p
  bindings : ∀ entry ∈ scope.bindings, ValueFits s entry.2.value

/-- No object that can be reached passes a scope for code off as one of
its parts. -/
def WellKinded (s : Store) : Prop :=
  ∀ id scope, s.scope? id = some scope → Fits s scope

theorem PartAt.evolves {s t : Store} {id : ScopeId} (hid : PartAt s id)
    (h : Evolves SameKind s t) : PartAt t id where
  lt := Nat.lt_of_lt_of_le hid.lt h.next
  kind {scope} hscope := by
    obtain ⟨before, hbefore, hkind⟩ := h.scope hscope hid.lt
    rw [hkind]
    exact hid.kind hbefore

theorem Fits.evolves {s t : Store} {scope : Scope} (hfits : Fits s scope)
    (h : Evolves SameKind s t) : Fits t scope where
  kind p hp := (hfits.kind p hp).evolves h
  bindings entry hentry p hp := (hfits.bindings entry hentry p hp).evolves h

theorem fits_stable : Stable fun s _ scope => Fits s scope :=
  fun _ _ _ _ h hfits => hfits.evolves h

namespace WellKinded

variable {s : Store}

theorem of_shrinks {t : Store} (h : WellKinded s) (hshrinks : s.Shrinks t) : WellKinded t :=
  Everywhere.of_shrinks fits_stable h hshrinks

/-- A new scope fits if its kind does. -/
theorem add (h : WellKinded s) {kind : ScopeKind} {parent outer root : Option ScopeId}
    (hkind : ∀ p ∈ kind.parts, PartAt (s.add (Scope.fresh kind parent outer root)).2 p) :
    WellKinded (s.add (Scope.fresh kind parent outer root)).2 :=
  Everywhere.add fits_stable h ⟨hkind, fun entry hentry => by cases hentry⟩

theorem child (h : WellKinded s) (above : ScopeId) {kind : ScopeKind}
    (hkind : ∀ p ∈ kind.parts, PartAt (s.child above kind).2 p) :
    WellKinded (s.child above kind).2 := by
  obtain ⟨parent, outer, root, hchild⟩ := s.child_eq_add above kind
  rw [hchild] at hkind ⊢
  exact h.add hkind

theorem addInstance (h : WellKinded s) (i : InstanceId → Instance) :
    WellKinded (s.addInstance i).2 :=
  Everywhere.addInstance fits_stable h i

/-- A new instance has a scope of its own. -/
theorem addObject (h : WellKinded s) (b : Blueprint) :
    WellKinded (s.addObject b).2 ∧ PartAt (s.addObject b).2 (s.addObject b).1.fields := by
  let i : Instance := ⟨s.next, b, s.next + 1⟩
  let t := (s.addInstance fun id => ⟨id, b, id + 1⟩).2
  have hadded : WellKinded t := h.addInstance _
  have hpart : PartAt (t.child b.scope (.instance i)).2 i.fields := by
    obtain ⟨parent, outer, root, hchild⟩ := t.child_eq_add b.scope (.instance i)
    have hfields : i.fields = t.next := rfl
    rw [hchild]
    refine ⟨Nat.lt_succ_self _, fun {scope} hscope => ?_⟩
    rw [Store.scope?_add, if_pos hfields] at hscope
    cases hscope
    rfl
  have hmade : WellKinded (t.child b.scope (.instance i)).2 := by
    apply hadded.child
    intro p hp
    rw [List.mem_singleton.mp hp]
    exact hpart
  exact ⟨hmade, hpart⟩

/-- A bound value has to fit. -/
theorem declare (h : WellKinded s) {id : ScopeId} {name : String} {b : Binding} {w : Written}
    (hb : ValueFits s b.value) (hw : s.declare id name b = .ok w) :
    WellKinded w.store := by
  refine Everywhere.declare fits_stable h hw fun scope _ hfits => ⟨hfits.kind, ?_⟩
  intro entry hentry
  rcases Bindings.mem_put hentry with heq | hold
  · rw [heq]
    exact hb
  · exact hfits.bindings entry hold

end WellKinded

/-! ### The regime -/

/-- A scope with the same names as before, constants and others. -/
structure SameNames (x y : Scope) : Prop where
  names : y.names = x.names
  constants (name : String) : y.isConstant name = x.isConstant name

theorem SameNames.refl (x : Scope) : SameNames x x :=
  ⟨rfl, fun _ => rfl⟩

theorem SameNames.trans {x y z : Scope} (h : SameNames x y) (h' : SameNames y z) :
    SameNames x z :=
  ⟨h'.names.trans h.names, fun name => (h'.constants name).trans (h.constants name)⟩

/-- An assignment to a name that is bound adds none. -/
theorem SameNames.bind {x : Scope} {name : String} {old : Binding} (v : Value)
    (hbound : x.binding? name = some old) (hchange : x.isConstant name = false) :
    SameNames x (x.bind name (.ofValue v)) where
  names := by
    have hmem : name ∈ x.names := List.mem_map_of_mem (Scope.mem_of_binding? hbound)
    rw [Scope.names_bind, if_pos hmem]
  constants n := by
    by_cases hn : n = name
    · rw [hn, hchange, Scope.isConstant, Scope.binding?_bind, if_pos rfl]
      rfl
    · rw [Scope.isConstant, Scope.binding?_bind, if_neg hn, Scope.isConstant]

/-- What may become of a scope when the scopes in `free` are free to
work in. -/
structure LocalStep (free : ScopeId → Prop) (id : ScopeId) (x y : Scope) : Prop where
  kind : SameKind id x y
  names : ¬ free id → x.kind.isLexical = true → SameNames x y

theorem LocalStep.refl (free : ScopeId → Prop) (id : ScopeId) (x : Scope) :
    LocalStep free id x x :=
  ⟨SameKind.refl id x, fun _ _ => .refl x⟩

theorem LocalStep.trans {free : ScopeId → Prop} (id : ScopeId) {x y z : Scope}
    (h : LocalStep free id x y) (h' : LocalStep free id y z) : LocalStep free id x z where
  kind := Eq.trans h'.kind h.kind
  names hid hlexical := by
    have hlexical' : y.kind.isLexical = true := by
      rw [h.kind]
      exact hlexical
    exact (h.names hid hlexical).trans (h'.names hid hlexical')

/-- What is relied on of the items in hand: values have parts that fit,
and scopes to work in are free. -/
def InHand (free : ScopeId → Prop) (s : Store) : Item → Prop
  | .value v => ValueFits s v
  | .exit _ => True
  | .scope id => free id
  | .made id kind => id < s.next ∧ ∀ scope, s.scope? id = some scope → scope.kind = kind
  | .exports id => PartAt s id
  | .code _ => True

/-- A scope that was made to be a part is one. -/
theorem InHand.partAt {free : ScopeId → Prop} {s : Store} {id : ScopeId} {kind : ScopeKind}
    (h : InHand free s (.made id kind)) (hkind : kind.isLexical = false) : PartAt s id where
  lt := h.1
  kind {scope} hscope := by
    rw [h.2 scope hscope]
    exact hkind

theorem InHand.evolves {free : ScopeId → Prop} {s t : Store} {i : Item}
    (h : Evolves SameKind s t) (hi : InHand free s i) : InHand free t i := by
  cases i with
  | value v => exact fun p hp => (hi p hp).evolves h
  | exit e => trivial
  | scope id => exact hi
  | made id kind =>
    refine ⟨Nat.lt_of_lt_of_le hi.1 h.next, fun scope hscope => ?_⟩
    obtain ⟨before, hbefore, hsame⟩ := h.scope hscope hi.1
    exact Eq.trans hsame (hi.2 before hbefore)
  | exports id => exact PartAt.evolves hi h
  | code body => trivial

/-- The regime under which the scopes for code that are not free to work
in keep their names. From the number `first` on all scopes are new. -/
def locality (free : ScopeId → Prop) (first : ScopeId) : StoreRegime where
  Inv s := first ≤ s.next ∧ WellKinded s
  Step := Evolves (LocalStep free)
  Good := InHand free
  refl := Evolves.refl (LocalStep.refl free)
  trans := Evolves.trans LocalStep.trans
  good_step hstep hi := hi.evolves (hstep.mono fun _ _ _ h => h.kind)

section
variable {free : ScopeId → Prop} {first : ScopeId} {s : Store}

/-- Binding a name in a scope in hand is fine: the scope is free, or it
is no scope for code. -/
theorem locality_declare (hinv : (locality free first).Inv s) {id : ScopeId} {name : String}
    {b : Binding} {w : Written} (hid : free id ∨ PartAt s id)
    (hb : ValueFits s b.value) (hw : s.declare id name b = .ok w) :
    (locality free first).Moved s w.store := by
  have hstep : Evolves (LocalStep free) s w.store := by
    refine .declare (LocalStep.refl free) hw fun scope hscope _ => ⟨SameKind.refl id scope, ?_⟩
    intro hfree hlexical
    rcases hid with hid | hid
    · exact absurd hid hfree
    · rw [hid.kind hscope] at hlexical
      cases hlexical
  exact ⟨⟨Nat.le_trans hinv.1 hstep.next, hinv.2.declare hb hw⟩, hstep⟩

/-- An assignment binds a new name only in the scope where it is
made. -/
theorem locality_assign (hinv : (locality free first).Inv s) {id : ScopeId} {name : String}
    {v : Value} {w : Written} (hid : free id) (hv : ValueFits s v)
    (hw : s.assign id name v = .ok w) : (locality free first).Moved s w.store := by
  cases hholder : s.holder? id name with
  | none =>
    rw [Store.assign, hholder] at hw
    exact locality_declare hinv (.inl hid) hv hw
  -- The scope that is written to binds the name already, and not for good.
  | some holder =>
    rw [Store.assign, hholder] at hw
    have hstep : Evolves (LocalStep free) s w.store := by
      refine .declare (LocalStep.refl free) hw fun scope hscope hchange => ?_
      obtain ⟨i, found, hfound, hbound⟩ := Store.exists_of_search hholder
      obtain ⟨old, hold, rfl⟩ := Option.map_eq_some_iff.mp hbound
      have hsame : some scope = some found := hscope.symm.trans hfound
      cases hsame
      exact ⟨SameKind.refl i scope, fun _ _ => .bind v hold hchange⟩
    exact ⟨⟨Nat.le_trans hinv.1 hstep.next, hinv.2.declare hv hw⟩, hstep⟩

/-- A new scope is free, and its kind fits if what it exports to does. -/
theorem locality_child (hfree : ∀ id, first ≤ id → free id) (hinv : (locality free first).Inv s)
    {ts : List Item} (hts : ∀ i ∈ ts, InHand free s i) (above : ScopeId) {kind : ScopeKind}
    (hkind : CanMake ts kind) :
    (locality free first).Moved s (s.child above kind).2 ∧
      InHand free (s.child above kind).2 (.scope s.next) ∧
      InHand free (s.child above kind).2 (.made s.next kind) := by
  have hstep : Evolves (LocalStep free) s (s.child above kind).2 :=
    .child (LocalStep.refl free) s above kind
  have hkinds : Evolves SameKind s (s.child above kind).2 := hstep.mono fun _ _ _ h => h.kind
  have hparts : ∀ p ∈ kind.parts, PartAt (s.child above kind).2 p := by
    intro p hp
    cases kind with
    | «instance» owner => exact hkind.elim
    | toolkit e =>
      rw [List.mem_singleton.mp hp]
      exact (InHand.partAt (hts _ hkind) rfl).evolves hkinds
    | _ => cases hp
  refine ⟨⟨⟨Nat.le_trans hinv.1 hstep.next, hinv.2.child above hparts⟩, hstep⟩,
    hfree _ hinv.1, ?_⟩
  obtain ⟨parent, outer, root, hchild⟩ := s.child_eq_add above kind
  rw [hchild]
  refine ⟨Nat.lt_succ_self _, fun scope hscope => ?_⟩
  rw [Store.scope?_add, if_pos rfl] at hscope
  cases hscope
  rfl

theorem locality_laws (hfree : ∀ id, first ≤ id → free id) : (locality free first).Laws where
  data {s v} hv p hp := by cases v <;> cases hv <;> cases hp
  spec _ p hp := by cases hp
  blueprint _ id _ hmade _ p hp := by
    have hin : InHand free _ (.made id .blueprint) := hmade
    rw [List.mem_singleton.mp hp]
    exact hin.partAt rfl
  toolkit _ _ _ _ _ p hp := by cases hp
  bridge _ _ _ p hp := by cases hp
  exit _ := trivial
  seen _ _ _ := trivial
  above _ _ _ _ := trivial
  bound hinv _ hscope hentry := (hinv.2 _ _ hscope).bindings _ hentry
  owner hinv _ hscope hkind p hp := (hinv.2 _ _ hscope).kind p (hkind ▸ hp)
  release {s} held refs hinv := by
    have hstep := Evolves.release (LocalStep.refl free) s held refs
    have hkinds := hinv.2.of_shrinks (s.shrinks_release held refs)
    exact ⟨⟨Nat.le_trans hinv.1 hstep.next, hkinds⟩, hstep⟩
  declare hinv hts hid hb hw := by
    refine locality_declare hinv ?_ hb hw
    cases hid with
    | scope hmem => exact .inl (hts _ hmem)
    | fields hmem => exact .inr (hts _ hmem _ (List.mem_singleton_self _))
    | blueprint hmem => exact .inr (hts _ hmem _ (List.mem_singleton_self _))
  assign hinv hid hv hw := locality_assign hinv hid hv hw
  newExports {s} hinv := by
    have hstep := Evolves.add (LocalStep.refl free) s (Scope.top .exports)
    refine ⟨⟨⟨Nat.le_trans hinv.1 hstep.next, hinv.2.add fun p hp => by cases hp⟩, hstep⟩,
      Nat.lt_succ_self _, fun scope hscope => ?_⟩
    rw [Store.scope?_add, if_pos rfl] at hscope
    cases hscope
    rfl
  newChild hinv hts _ hkind := locality_child hfree hinv hts _ hkind
  newObject {s b} hinv _ := by
    have hstep := Evolves.addObject (LocalStep.refl free) LocalStep.trans s b
    obtain ⟨hkinds, hpart⟩ := hinv.2.addObject b
    refine ⟨⟨⟨Nat.le_trans hinv.1 hstep.next, hkinds⟩, hstep⟩, fun p hp => ?_⟩
    rw [List.mem_singleton.mp hp]
    exact hpart

theorem locality_nodeLaws : (locality free first).NodeLaws where
  exports hinv _ hscope hkind := (hinv.2 _ _ hscope).kind _ (hkind ▸ List.mem_singleton_self _)
  exportIn {_ _ _ v _} hinv hid hv hw :=
    locality_declare (b := .ofValue v) hinv (.inr hid) hv hw
  code _ := trivial

end

/-! ### Constructs with frames of their own -/

/-- The regime under which no scope below `first` is free to work
in. -/
def frames (first : ScopeId) : StoreRegime :=
  locality (first ≤ ·) first

theorem frames_laws (first : ScopeId) : (frames first).Laws :=
  locality_laws fun _ h => h

theorem frames_congruence (first : ScopeId) :
    Congruence (frames first).toRegime.Keeps (frames first).toRegime.Keeps :=
  (frames_laws first).congruence locality_nodeLaws

/-- An evaluation that works in frames of its own only. Unlike `Keeps`
this does not ask for a current scope that is free to work in. -/
def Framed {α : Type} (first : ScopeId) (ts : List Item) (x : Eval α) : Prop :=
  ∀ c m r m', (frames first).Inv m.store → (∀ i ∈ ts, (frames first).Good m.store i) →
    x c m = some (r, m') → (frames first).Moved m.store m'.store

section
variable {α β : Type} {first : ScopeId} {ts : List Item}

theorem framed_of_store_eq {x : Eval α}
    (hx : ∀ c m r m', x c m = some (r, m') → m'.store = m.store) : Framed first ts x := by
  intro c m r m' hinv _ h
  rw [hx c m r m' h]
  exact .self hinv

theorem framed_bind {x : Eval α} {f : α → Eval β} (hx : Framed first ts x)
    (hf : ∀ a, Framed first ts (f a)) : Framed first ts (x >>= f) := by
  intro c m r m' hinv hts h
  obtain ⟨_, hexit, -⟩ | ⟨a, m₁, hfirst, hrest⟩ := Eval.bind_inv h
  · exact hx c m _ m' hinv hts hexit
  · have hmoved := hx c m _ m₁ hinv hts hfirst
    have hlast := hf a c m₁ r m' hmoved.inv
      (fun i hi => (frames first).good_step hmoved.step (hts i hi)) hrest
    exact ⟨hlast.inv, (frames first).trans hmoved.step hlast.step⟩

theorem framed_here {f : ScopeId → Eval β} (hf : ∀ id, Framed first ts (f id)) :
    Framed first ts (Eval.here >>= f) :=
  framed_bind (framed_of_store_eq fun _ _ _ _ h => by cases h; rfl) hf

theorem framed_outcome {x : Eval α} (hx : Framed first ts x) :
    Framed first ts (Eval.outcome x) := by
  intro c m r m' hinv hts h
  obtain ⟨o, ho, -⟩ := Eval.outcome_inv h
  exact hx c m o m' hinv hts ho

theorem framed_holding [Owner α] (refs : List Ref) {x : Eval α} (hx : Framed first ts x) :
    Framed first ts (Eval.holding refs x) := by
  intro c m r m' hinv hts h
  obtain ⟨m₁, hx₁, rfl⟩ := Eval.holding_inv h
  have hmoved := hx _ m r m₁ hinv hts hx₁
  have hreleased := (frames_laws first).release (Owner.refs r ++ c.held) refs hmoved.inv
  exact ⟨hreleased.inv, (frames first).trans hmoved.step hreleased.step⟩

/-- A new frame is not below `first`. -/
theorem framed_newChild (above : ScopeId) {kind : ScopeKind} {f : ScopeId → Eval β}
    (hkind : CanMake ts kind) (hf : ∀ id, first ≤ id → Framed first ts (f id)) :
    Framed first ts (Eval.newChild above kind >>= f) := by
  intro c m r m' hinv hts h
  have hmoved : (frames first).Moved m.store (m.store.child above kind).2 :=
    (locality_child (fun _ hid => hid) hinv hts above hkind).1
  obtain ⟨_, hnew, -⟩ | ⟨id, m₁, hnew, hrest⟩ := Eval.bind_inv h
  · cases hnew
  · cases hnew
    have hid : first ≤ (m.store.child above kind).1 := by
      rw [Store.child_fst]
      exact hinv.1
    have hlast := hf _ hid c _ r m' hmoved.inv
      (fun i hi => (frames first).good_step hmoved.step (hts i hi)) hrest
    exact ⟨hlast.inv, (frames first).trans hmoved.step hlast.step⟩

/-- In a frame of its own an evaluation may do what it likes. -/
theorem framed_within [Yields α] {id : ScopeId} {x : Eval α} (hid : first ≤ id)
    (hx : (frames first).toRegime.Keeps α ts x x) : Framed first ts (Eval.within id x) := by
  intro c m r m' hinv hts h
  have hended := (hx { c with scope := id } m ⟨hinv, hid, hts⟩).2.ended h
  exact ⟨hended.inv, hended.step⟩

theorem framed_inChild [Yields α] [Owner α] (above : ScopeId) {kind : ScopeKind} {x : Eval α}
    (hkind : CanMake ts kind) (hx : (frames first).toRegime.Keeps α ts x x) :
    Framed first ts (Eval.inChild above kind x) :=
  framed_newChild above hkind fun _ hid => framed_holding _ (framed_within hid hx)

theorem framed_pure (a : α) : Framed first ts (pure a) :=
  framed_of_store_eq fun _ _ _ _ h => by cases h; rfl

theorem framed_exit (e : Exit) : Framed first ts (Eval.exit e : Eval α) :=
  framed_of_store_eq fun _ _ _ _ h => by cases h; rfl

theorem framed_note (e : LogEntry) : Framed first ts (Eval.note e) :=
  framed_of_store_eq fun _ _ _ _ h => by cases h; rfl

theorem framed_ofOutcome (r : Except Exit α) : Framed first ts (Eval.ofOutcome r) := by
  cases r with
  | ok a => exact framed_pure a
  | error e => exact framed_exit e

theorem framed_report (e : Exit) : Framed first ts (Eval.report e) :=
  framed_of_store_eq fun _ _ _ _ h => (Eval.report_inv h).1

/-- The check for a stop, the entry in the log and the report of a fault
bind nothing. -/
theorem framed_evaluate {steps : Nat} {node : Node}
    (hstep : Framed first ts (Evaluator.step (evaluate steps)
      (Evaluator.runBlock (evaluate steps)) steps node)) :
    Framed first ts (evaluate (steps + 1) node) := by
  refine framed_bind (framed_of_store_eq fun c m r m' h => ?_) fun _ =>
    framed_bind (framed_of_store_eq fun c m r m' h => ?_) fun _ =>
      framed_bind (framed_outcome hstep) fun o => ?_
  · rw [Eval.checkInterrupt_apply] at h
    cases h
    rfl
  · obtain ⟨log, hnoted⟩ := noteVisit_apply node c m
    rw [hnoted] at h
    cases h
    rfl
  · match o with
    | .ok v => exact framed_pure v
    | .error (.fault f) => exact framed_bind (framed_report _) fun _ => framed_pure _
    | .error (.raised name message) => exact framed_exit _
    | .error (.flow f) => exact framed_exit _
    | .error .interrupted => exact framed_exit _
    | .error (.stream reason) => exact framed_exit _

theorem keeps_run (first : ScopeId) (steps : Nat) (us : List Item) (body : List Node) :
    (frames first).toRegime.Keeps Unit us (Evaluator.runBlock (evaluate steps) body)
      (Evaluator.runBlock (evaluate steps) body) := by
  have h := frames_congruence first
  exact h.runBlock (h.evaluate steps) body

theorem framed_callSpec (steps : Nat) (name : String) (s : Spec Node) {args : List Value}
    (hargs : ∀ v ∈ args, .value v ∈ ts) :
    Framed first ts (Evaluator.callSpec (Evaluator.runBlock (evaluate steps)) name s args) := by
  have h := frames_congruence first
  have hrun := keeps_run first steps
  exact framed_here fun id => framed_inChild id trivial (h.invokeSpec hrun name s hargs)

theorem framed_callMethod (steps : Nat) {i : Instance} (hi : .value (.object i) ∈ ts)
    (name : String) (params : List String) (body : List Node) {args : List Value}
    (hargs : ∀ v ∈ args, .value v ∈ ts) :
    Framed first ts
      (Evaluator.callMethod (Evaluator.runBlock (evaluate steps)) i name params body args) := by
  have h := frames_congruence first
  have hrun := keeps_run first steps
  exact framed_inChild i.fields trivial (h.invokeMethod hrun hi name params body hargs)

theorem framed_embed (steps : Nat) (body : List Node) :
    Framed first ts (evaluate steps (.embed body)) := by
  cases steps with
  | zero => exact framed_of_store_eq fun _ _ _ _ h => by cases h
  | succ steps =>
    have h := frames_congruence first
    refine framed_evaluate (framed_here fun id => ?_)
    exact framed_bind (framed_inChild id trivial (h.runBlock (h.evaluate steps) body))
      fun _ => framed_pure _

theorem framed_runTrap (steps : Nat) (parts : Attempt Node) (name message : String) :
    Framed first ts (Evaluator.runTrap (evaluate steps) parts name message) := by
  have h := frames_congruence first
  refine framed_here fun id => framed_inChild id trivial ?_
  exact h.andThen (h.declareError parts name message) (h.runBlock (h.evaluate steps) parts.trap)

/-- The body and the trap of an attempt have frames of their own. Its
conclusion has none. -/
theorem framed_attempt (steps : Nat) {parts : Attempt Node} (hparts : parts.conclude = none) :
    Framed first ts (evaluate steps (.attempt parts)) := by
  cases steps with
  | zero => exact framed_of_store_eq fun _ _ _ _ h => by cases h
  | succ steps =>
    have h := frames_congruence first
    refine framed_evaluate (framed_bind (framed_note _) fun _ => framed_here fun above => ?_)
    refine framed_newChild above trivial fun id hid => ?_
    refine framed_bind (framed_holding _ ?_) fun _ => framed_pure _
    refine framed_bind (framed_outcome ?_) fun ended => ?_
    · exact framed_within hid (h.runBlock (h.evaluate steps) parts.body)
    -- The trap makes its frame in the current scope, which is not free here.
    · refine framed_bind ?_ fun pending => framed_holding _ ?_
      · match ended with
        | .ok () => exact framed_bind (framed_note _) fun _ => framed_pure _
        | .error (.raised name message) =>
          exact framed_bind (framed_note _) fun _ =>
            framed_outcome (framed_runTrap steps parts name message)
        | .error (.fault f) => exact framed_pure _
        | .error (.flow f) => exact framed_pure _
        | .error .interrupted => exact framed_pure _
        | .error (.stream reason) => exact framed_pure _
      · refine framed_bind ?_ fun _ => framed_ofOutcome pending
        rw [Evaluator.conclude, hparts]
        exact framed_pure ()

end

/-! ### Names stay -/

/-- The scopes for code that are alive at both ends have kept their
names, those in `free` apart. -/
def NamesStay (free : ScopeId → Prop) (s t : Store) : Prop :=
  ∀ id before after, s.scope? id = some before → t.scope? id = some after → ¬ free id →
    before.kind.isLexical = true → SameNames before after

theorem namesStay_of_evolves {free free' : ScopeId → Prop} {s t : Store}
    (h : Evolves (LocalStep free) s t) (hfree : ∀ id, id < s.next → free id → free' id) :
    NamesStay free' s t := by
  intro id before after hbefore hafter hid hlexical
  refine (h.between hbefore hafter).names (fun hin => hid ?_) hlexical
  exact hfree id (Store.lt_next hbefore) hin

/-- What a construct with frames of its own does to the names that were
there. -/
theorem Framed.namesStay {α : Type} {ts : List Item} {x : Eval α} {c : Context} {m m' : Machine}
    {r : Except Exit α} (hx : Framed m.store.next ts x) (hkinds : WellKinded m.store)
    (hts : ∀ i ∈ ts, InHand (m.store.next ≤ ·) m.store i) (h : x c m = some (r, m')) :
    NamesStay (fun _ => False) m.store m'.store := by
  have hmoved := hx c m r m' ⟨Nat.le_refl _, hkinds⟩ hts h
  exact namesStay_of_evolves hmoved.step fun id hid hnew => Nat.not_le_of_lt hid hnew

/-- What an evaluation does to the names that were there. -/
theorem namesStay_of_keeps {α : Type} [Yields α] {c : Context} {m m' : Machine} {x : Eval α}
    {r : Except Exit α}
    (hx : (locality (fun id => id = c.scope ∨ m.store.next ≤ id) m.store.next).toRegime.Keeps
      α [] x x) (hkinds : WellKinded m.store) (h : x c m = some (r, m')) :
    WellKinded m'.store ∧ NamesStay (· = c.scope) m.store m'.store := by
  have hended := hx.ended ⟨Nat.le_refl _, hkinds⟩ (.inl rfl) h
  refine ⟨hended.inv.2, namesStay_of_evolves hended.step fun id hid hin => ?_⟩
  exact hin.resolve_right (Nat.not_le_of_lt hid)

theorem wellKinded_start (settings : Settings) (out err : Sink) (input : Source)
    (first : ScopeId) :
    WellKinded (Session.start settings out err input first).machine.store := by
  have hempty : WellKinded (Store.empty first) :=
    Everywhere.empty (fun s _ scope => Fits s scope) first
  exact hempty.add fun p hp => by cases hp

/-- Locals do not leak. A new interpreter is well-kinded, and whatever
is evaluated keeps it so.

On a well-kinded store the scopes for code keep their names while a node
or a program is evaluated, the scope of the evaluation apart. While a
spec is called, a method or a constructor, or a trap runs, or a block is
embedded, or an attempt is made that has no conclusion, all of them do,
those of the caller included. -/
theorem locals_stay :
    (∀ settings out err input first,
      WellKinded (Session.start settings out err input first).machine.store) ∧
    ∀ (steps : Nat) (c : Context) (m : Machine), WellKinded m.store →
      (∀ node r m', evaluate steps node c m = some (r, m') →
        WellKinded m'.store ∧ NamesStay (· = c.scope) m.store m'.store) ∧
      (∀ program r m', runProgram (evaluate steps) program c m = some (r, m') →
        WellKinded m'.store ∧ NamesStay (· = c.scope) m.store m'.store) ∧
      (∀ name s args r m', (∀ v ∈ args, ValueFits m.store v) →
        Evaluator.callSpec (Evaluator.runBlock (evaluate steps)) name s args c m =
          some (r, m') → NamesStay (fun _ => False) m.store m'.store) ∧
      (∀ i name params body args r m', ValueFits m.store (.object i) →
        (∀ v ∈ args, ValueFits m.store v) →
        Evaluator.callMethod (Evaluator.runBlock (evaluate steps)) i name params body args c m =
          some (r, m') → NamesStay (fun _ => False) m.store m'.store) ∧
      (∀ body r m', evaluate steps (.embed body) c m = some (r, m') →
        NamesStay (fun _ => False) m.store m'.store) ∧
      (∀ parts name message r m',
        Evaluator.runTrap (evaluate steps) parts name message c m = some (r, m') →
          NamesStay (fun _ => False) m.store m'.store) ∧
      ∀ parts r m', parts.conclude = none →
        evaluate steps (.attempt parts) c m = some (r, m') →
          NamesStay (fun _ => False) m.store m'.store := by
  refine ⟨wellKinded_start, fun steps c m hkinds => ?_⟩
  let g := locality (fun id => id = c.scope ∨ m.store.next ≤ id) m.store.next
  have hlaws : g.Laws := locality_laws fun _ h => .inr h
  have hcong := hlaws.congruence locality_nodeLaws
  have hev := hcong.evaluate steps
  have hnothing : ∀ i ∈ ([] : List Item), InHand (m.store.next ≤ ·) m.store i :=
    fun i hi => by cases hi
  refine ⟨?_, ?_, ?_, ?_, ?_, ?_, ?_⟩
  · intro node r m' h
    exact namesStay_of_keeps (hev [] node) hkinds h
  · intro program r m' h
    exact namesStay_of_keeps (hcong.runProgram hev program) hkinds h
  · intro name s args r m' hargs h
    have hin : ∀ v ∈ args, Item.value v ∈ args.map Item.value := fun v => List.mem_map_of_mem
    refine (framed_callSpec steps name s hin).namesStay hkinds (fun i hi => ?_) h
    obtain ⟨v, hv, rfl⟩ := List.mem_map.mp hi
    exact hargs v hv
  · intro receiver name params body args r m' hreceiver hargs h
    have hin : ∀ v ∈ args, Item.value v ∈ .value (.object receiver) :: args.map Item.value :=
      fun v hv => List.mem_cons_of_mem _ (List.mem_map_of_mem hv)
    refine (framed_callMethod steps (List.mem_cons_self ..) name params body hin).namesStay
      hkinds (fun i hi => ?_) h
    rcases List.mem_cons.mp hi with rfl | hi
    · exact hreceiver
    · obtain ⟨v, hv, rfl⟩ := List.mem_map.mp hi
      exact hargs v hv
  · intro body r m' h
    exact (framed_embed steps body).namesStay hkinds hnothing h
  · intro parts name message r m' h
    exact (framed_runTrap steps parts name message).namesStay hkinds hnothing h
  · intro parts r m' hparts h
    exact (framed_attempt steps hparts).namesStay hkinds hnothing h

/-- An embedded block binds its name in a scope of its own. -/
theorem locals_stay_embed :
    let c : Context := ⟨.standard, 0, []⟩
    let m := (Session.start .standard (.limited none none) (.limited none none) ⟨[]⟩ 0).machine
    ∃ r m', evaluate 3 (.embed [.assign (.var "x") (.text "a")]) c m = some (r, m') ∧
      NamesStay (fun _ => False) m.store m'.store := by
  intro c m
  have heval : ∃ r m',
      evaluate 3 (.embed [.assign (.var "x") (.text "a")]) c m = some (r, m') := ⟨_, _, rfl⟩
  obtain ⟨r, m', heval⟩ := heval
  have hkinds : WellKinded m.store := locals_stay.1 _ _ _ _ _
  exact ⟨r, m', heval, (locals_stay.2 3 c m hkinds).2.2.2.2.1 _ r m' heval⟩

/-- A host can make a toolkit scope that exports to a scope for code.
What is exposed in it leaks there. -/
theorem exposed_name_leaks :
    ¬ ∀ steps node c m r m', evaluate steps node c m = some (r, m') →
      NamesStay (· = c.scope) m.store m'.store := by
  intro hall
  let toolkit : Scope := (Scope.top (.toolkit 0)).bind "x" (.ofValue (.text "a"))
  let m : Machine :=
    .start (((Store.empty 0).add (Scope.top .global)).2.add toolkit).2
      (.limited none none) (.limited none none) ⟨[]⟩
  have hstay := hall 2 (.expose "x") ⟨.standard, 1, []⟩ m _ _ rfl 0 _ _ rfl rfl (by decide) rfl
  exact absurd hstay.names (by decide)

end Proofs

end Treewalk
