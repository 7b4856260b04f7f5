import Treewalk.Proofs.Regime

/-!
# `Treewalk.Proofs.StoreRegime`: regimes of the store

What is said about scopes mostly holds whatever the streams, the log
and the counters are. A store regime speaks of the store alone, and so
its laws ask for the changes of scopes only.

The order in which such a regime moves the store is mostly an
evolution. Numbers are given out upwards, what is gone does not come
back, and a relation `P` says what may become of a scope that stays.
`Evolves P` has a lemma for each operation of the store.
-/

set_option autoImplicit false

namespace Treewalk.Proofs

open Yields (items)

/-! ### Evolutions -/

/-- A store that has come from an earlier one, if `P` holds between
what a scope was and what it is now. -/
structure Evolves (P : ScopeId → Scope → Scope → Prop) (s t : Store) : Prop where
  next : s.next ≤ t.next
  scope {id : ScopeId} {after : Scope} : t.scope? id = some after → id < s.next →
    ∃ before, s.scope? id = some before ∧ P id before after

namespace Evolves

variable {P : ScopeId → Scope → Scope → Prop} {s t u : Store}

theorem trans (hP : ∀ id {x y z}, P id x y → P id y z → P id x z) (h : Evolves P s t)
    (h' : Evolves P t u) : Evolves P s u where
  next := Nat.le_trans h.next h'.next
  scope {id last} hlast hid := by
    obtain ⟨mid, hmid, hstep'⟩ := h'.scope hlast (Nat.lt_of_lt_of_le hid h.next)
    obtain ⟨first, hfirst, hstep⟩ := h.scope hmid hid
    exact ⟨first, hfirst, hP id hstep hstep'⟩

theorem mono {Q : ScopeId → Scope → Scope → Prop} (hPQ : ∀ id x y, P id x y → Q id x y)
    (h : Evolves P s t) : Evolves Q s t where
  next := h.next
  scope {id after} hafter hid := by
    obtain ⟨before, hbefore, hstep⟩ := h.scope hafter hid
    exact ⟨before, hbefore, hPQ id before after hstep⟩

/-- What a scope alive at both ends has become. -/
theorem between (h : Evolves P s t) {id : ScopeId} {before after : Scope}
    (hbefore : s.scope? id = some before) (hafter : t.scope? id = some after) :
    P id before after := by
  obtain ⟨first, hfirst, hstep⟩ := h.scope hafter (Store.lt_next hbefore)
  rw [hbefore] at hfirst
  cases hfirst
  exact hstep

variable (hrefl : ∀ id x, P id x x)
include hrefl

theorem of_shrinks (h : s.Shrinks t) : Evolves P s t where
  next := Nat.le_of_eq h.next.symm
  scope hafter _ := ⟨_, h.scope hafter, hrefl _ _⟩

theorem refl (s : Store) : Evolves P s s :=
  of_shrinks hrefl (.refl s)

theorem release (s : Store) (held refs : List Ref) : Evolves P s (s.release held refs) :=
  of_shrinks hrefl (s.shrinks_release held refs)

theorem add (s : Store) (scope : Scope) : Evolves P s (s.add scope).2 where
  next := Nat.le_succ s.next
  scope {id after} hafter hid := by
    rw [Store.scope?_add, if_neg (Nat.ne_of_lt hid)] at hafter
    exact ⟨after, hafter, hrefl id after⟩

theorem child (s : Store) (above : ScopeId) (kind : ScopeKind) :
    Evolves P s (s.child above kind).2 := by
  obtain ⟨parent, outer, root, hchild⟩ := s.child_eq_add above kind
  rw [hchild]
  exact add hrefl s _

theorem addInstance (s : Store) (i : InstanceId → Instance) : Evolves P s (s.addInstance i).2 where
  next := Nat.le_succ s.next
  scope {id after} hafter _ := ⟨after, hafter, hrefl id after⟩

theorem addObject (hP : ∀ id {x y z}, P id x y → P id y z → P id x z) (s : Store)
    (b : Blueprint) : Evolves P s (s.addObject b).2 := by
  have hadded := addInstance hrefl s fun id => ⟨id, b, id + 1⟩
  exact trans hP hadded (child hrefl _ _ _)

/-- A write evolves the store if `P` allows it of the scope that is
written to. -/
theorem declare {id : ScopeId} {name : String} {b : Binding} {w : Written}
    (hw : s.declare id name b = .ok w)
    (hbind : ∀ scope, s.scope? id = some scope → scope.isConstant name = false →
      P id scope (scope.bind name b)) : Evolves P s w.store := by
  rcases Store.declare_eq_ok hw with hsame | ⟨scope, hscope, hchange, hset⟩
  · rw [hsame]
    exact refl hrefl s
  · rw [hset]
    refine ⟨Nat.le_refl _, fun {i} after hafter _ => ?_⟩
    rw [Store.scope?_setScope] at hafter
    -- Only the scope that is written to is another one.
    split at hafter
    · rename_i hi
      rw [hscope] at hafter
      cases hafter
      exact ⟨scope, hi ▸ hscope, hi ▸ hbind scope hscope hchange⟩
    · exact ⟨after, hafter, hrefl i after⟩

/-- Writes one by one evolve the store if `P` allows each of them. -/
theorem declareAll (hP : ∀ id {x y z}, P id x y → P id y z → P id x z) {id : ScopeId}
    (bs : Bindings) (w : Written) (fault : Option Fault)
    (hbind : ∀ entry ∈ bs, ∀ scope, P id scope (scope.bind entry.1 entry.2)) :
    Evolves P w.store (Store.declareAll id bs w fault).1.store := by
  induction bs generalizing w fault with
  | nil => exact refl hrefl w.store
  | cons first rest ih =>
    obtain ⟨hfirst, hrest⟩ := List.forall_mem_cons.mp hbind
    rw [Store.declareAll]
    cases hw : w.store.declare id first.1 first.2 with
    | error f => exact ih w _ hrest
    | ok w' =>
      exact trans hP (declare hrefl hw fun scope _ _ => hfirst scope)
        (ih ⟨w'.store, w.freed ++ w'.freed⟩ _ hrest)

end Evolves

/-- A scope that has kept its kind. -/
def SameKind (_ : ScopeId) (x y : Scope) : Prop :=
  y.kind = x.kind

theorem SameKind.refl (id : ScopeId) (x : Scope) : SameKind id x x :=
  Eq.refl x.kind

/-! ### What holds of all scopes -/

/-- Something that holds of every scope that is alive. -/
def Everywhere (Q : Store → ScopeId → Scope → Prop) (s : Store) : Prop :=
  ∀ id scope, s.scope? id = some scope → Q s id scope

/-- What holds of a scope however the other scopes change, as long as
they keep their kinds. -/
def Stable (Q : Store → ScopeId → Scope → Prop) : Prop :=
  ∀ (s t : Store) (id : ScopeId) (scope : Scope), Evolves SameKind s t → Q s id scope →
    Q t id scope

namespace Everywhere

theorem empty (Q : Store → ScopeId → Scope → Prop) (next : Nat) :
    Everywhere Q (Store.empty next) := by
  intro id scope hscope
  rw [Store.scope?_empty] at hscope
  cases hscope

variable {Q : Store → ScopeId → Scope → Prop} (hQ : Stable Q) {s : Store} (h : Everywhere Q s)
include hQ h

theorem of_shrinks {t : Store} (hshrinks : s.Shrinks t) : Everywhere Q t :=
  fun id scope hscope =>
    hQ _ _ _ _ (.of_shrinks SameKind.refl hshrinks) (h id scope (hshrinks.scope hscope))

theorem add {scope : Scope} (hscope : Q (s.add scope).2 s.next scope) :
    Everywhere Q (s.add scope).2 := by
  intro id found hfound
  rw [Store.scope?_add] at hfound
  split at hfound
  · rename_i hid
    cases hfound
    rw [hid]
    exact hscope
  · exact hQ _ _ _ _ (.add SameKind.refl s scope) (h id found hfound)

theorem addInstance (i : InstanceId → Instance) : Everywhere Q (s.addInstance i).2 :=
  fun id scope hscope => hQ _ _ _ _ (.addInstance SameKind.refl s i) (h id scope hscope)

/-- A write needs to keep it only of the scope that is written to. -/
theorem declare {id : ScopeId} {name : String} {b : Binding} {w : Written}
    (hw : s.declare id name b = .ok w)
    (hbind : ∀ scope, s.scope? id = some scope → Q s id scope → Q s id (scope.bind name b)) :
    Everywhere Q w.store := by
  have hkinds : Evolves SameKind s w.store :=
    .declare SameKind.refl hw fun scope _ _ => SameKind.refl id scope
  rcases Store.declare_eq_ok hw with hsame | ⟨scope, hscope, -, hset⟩
  · rw [hsame]
    exact h
  · intro i after hafter
    rw [hset, Store.scope?_setScope] at hafter
    split at hafter
    · rename_i hi
      rw [hscope] at hafter
      cases hafter
      rw [hi]
      exact hQ _ _ _ _ hkinds (hbind scope hscope (h id scope hscope))
    · exact hQ _ _ _ _ hkinds (h i after hafter)

end Everywhere

/-! ### Store regimes -/

/-- A regime that speaks of the store alone. -/
structure StoreRegime where
  Inv : Store → Prop
  Step : Store → Store → Prop
  Good : Store → Item → Prop
  /-- The scopes that evaluations may come by. -/
  Seen : ScopeId → Prop := fun _ => True
  refl (s : Store) : Step s s
  trans {s t u : Store} : Step s t → Step t u → Step s u
  good_step {s t : Store} {i : Item} : Step s t → Good s i → Good t i

namespace StoreRegime

variable (g : StoreRegime)

/-- A store regime as a regime. -/
def toRegime : Regime where
  Inv _ m := g.Inv m.store
  Step m m' := g.Step m.store m'.store
  Good m i := g.Good m.store i
  Seen := g.Seen
  refl m := g.refl m.store
  trans h h' := g.trans h h'
  good_step h hi := g.good_step h hi

/-- A store that has moved as the regime allows. -/
structure Moved (s t : Store) : Prop where
  inv : g.Inv t
  step : g.Step s t

variable {g} in
theorem Moved.self {s : Store} (h : g.Inv s) : g.Moved s s :=
  ⟨h, g.refl s⟩

variable {g} in
theorem Moved.toRegime {σ : Settings} {m m' : Machine} (h : g.Moved m.store m'.store) :
    g.toRegime.Moved σ m m' :=
  ⟨h.inv, h.step⟩

variable {g} in
/-- The rest of the machine changes as it likes. -/
theorem moved_of_store_eq {σ : Settings} {m m' : Machine} (hinv : g.toRegime.Inv σ m)
    (hsame : m'.store = m.store) : g.toRegime.Moved σ m m' := by
  apply Moved.toRegime
  rw [hsame]
  exact .self hinv

/-- The changes of scopes that the primitives make, as a store regime
must allow them. -/
structure Laws : Prop where
  data {s : Store} {v : Value} : v.isReference = false → g.Good s (.value v)
  spec {s : Store} {decl : Spec Node} :
    g.Good s (.code decl.body) → g.Good s (.value (.spec decl))
  blueprint {s : Store} (name : String) {id : ScopeId} {c : Option (Constructor Node)} :
    g.Good s (.made id .blueprint) → (∀ k, c = some k → g.Good s (.code k.body)) →
      g.Good s (.value (.blueprint ⟨name, id, c⟩))
  toolkit {s : Store} (name : String) {id exports : ScopeId} :
    g.Good s (.made exports .exports) → g.Good s (.made id (.toolkit exports)) →
      g.Good s (.value (.toolkit ⟨name, id, exports⟩))
  bridge {s : Store} (name : String) {id : ScopeId} :
    g.Good s (.made id .bridge) → g.Good s (.value (.bridge ⟨name, id⟩))
  exit {s : Store} (e : Exit) : g.Good s (.exit e)
  seen {s : Store} {ts : List Item} {id : ScopeId} : g.Inv s → (∀ i ∈ ts, g.Good s i) →
    Readable ts id → g.Seen id
  above {s : Store} {id above : ScopeId} {scope : Scope} : g.Inv s → g.Seen id →
    s.scope? id = some scope → s.enclosing? scope = some above → g.Seen above
  bound {s : Store} {id : ScopeId} {scope : Scope} {entry : String × Binding} : g.Inv s →
    g.Seen id → s.scope? id = some scope → entry ∈ scope.bindings →
      g.Good s (.value entry.2.value)
  owner {s : Store} {id : ScopeId} {scope : Scope} {i : Instance} : g.Inv s → g.Seen id →
    s.scope? id = some scope → scope.kind = .instance i → g.Good s (.value (.object i))
  release {s : Store} (held refs : List Ref) : g.Inv s → g.Moved s (s.release held refs)
  declare {s : Store} {ts : List Item} {id : ScopeId} {name : String} {b : Binding}
    {w : Written} : g.Inv s → (∀ i ∈ ts, g.Good s i) → Bindable ts id →
    g.Good s (.value b.value) → s.declare id name b = .ok w → g.Moved s w.store
  assign {s : Store} {id : ScopeId} {name : String} {v : Value} {w : Written} : g.Inv s →
    g.Good s (.scope id) → g.Good s (.value v) → s.assign id name v = .ok w →
      g.Moved s w.store
  newExports {s : Store} : g.Inv s → g.Moved s (s.add (Scope.top .exports)).2 ∧
    g.Good (s.add (Scope.top .exports)).2 (.made s.next .exports)
  newChild {s : Store} {ts : List Item} {above : ScopeId} {kind : ScopeKind} : g.Inv s →
    (∀ i ∈ ts, g.Good s i) → Bindable ts above → CanMake ts kind →
    g.Moved s (s.child above kind).2 ∧ g.Good (s.child above kind).2 (.scope s.next) ∧
      g.Good (s.child above kind).2 (.made s.next kind)
  newObject {s : Store} {b : Blueprint} : g.Inv s → g.Good s (.value (.blueprint b)) →
    g.Moved s (s.addObject b).2 ∧ g.Good (s.addObject b).2 (.value (.object (s.addObject b).1))

/-- The writing to exports, as a store regime may allow it. -/
structure ExportLaws : Prop where
  exports {s : Store} {id e : ScopeId} {scope : Scope} : g.Inv s → g.Seen id →
    s.scope? id = some scope → scope.kind = .toolkit e → g.Good s (.exports e)
  exportIn {s : Store} {id : ScopeId} {name : String} {v : Value} {w : Written} : g.Inv s →
    g.Good s (.exports id) → g.Good s (.value v) → s.declare id name (.ofValue v) = .ok w →
      g.Moved s w.store

/-- What only a few nodes do, as a store regime may allow it. -/
structure NodeLaws : Prop extends g.ExportLaws where
  code {s : Store} (body : List Node) : g.Good s (.code body)

variable {g} in
theorem ExportLaws.toRegime (he : g.ExportLaws) : g.toRegime.ExportLaws where
  exports := he.exports
  exportIn hinv hid hb hw := (he.exportIn hinv hid hb hw).toRegime

variable {g} in
theorem NodeLaws.toRegime (hn : g.NodeLaws) : g.toRegime.NodeLaws where
  toExportLaws := hn.toExportLaws.toRegime
  code := hn.code
  opened := trivial

namespace Laws

variable {g} (h : g.Laws)
include h

theorem toRegime : g.toRegime.Laws where
  data := h.data
  spec := h.spec
  blueprint := h.blueprint
  toolkit := h.toolkit
  bridge := h.bridge
  raised name message := h.exit (.raised name message)
  seen := h.seen
  above := h.above
  bound := h.bound
  owner := h.owner
  release held refs hinv := (h.release held refs hinv).toRegime
  declare hinv hts hid hb hw := (h.declare hinv hts hid hb hw).toRegime
  assign hinv hid hv hw := (h.assign hinv hid hv hw).toRegime
  newExports hinv := ⟨(h.newExports hinv).1.toRegime, (h.newExports hinv).2⟩
  newChild hinv hts habove hkind :=
    ⟨(h.newChild hinv hts habove hkind).1.toRegime, (h.newChild hinv hts habove hkind).2⟩
  newObject hinv hb := ⟨(h.newObject hinv hb).1.toRegime, (h.newObject hinv hb).2⟩
  stopped _ := h.exit .interrupted
  interrupt hinv := moved_of_store_eq hinv rfl
  out _ hinv := ⟨moved_of_store_eq hinv rfl, fun reason _ => h.exit (.stream reason)⟩
  err _ hinv := ⟨moved_of_store_eq hinv rfl, fun reason _ => h.exit (.stream reason)⟩
  input hinv := ⟨moved_of_store_eq hinv rfl, fun reason _ => h.exit (.stream reason)⟩
  note _ hinv := moved_of_store_eq hinv rfl
  rest _ _ hinv := moved_of_store_eq hinv rfl

omit h in
theorem uncounted : g.toRegime.Uncounted :=
  fun _ _ _ _ hinv => moved_of_store_eq hinv rfl

/-- Every evaluation keeps a store regime that allows the changes of
scopes. -/
theorem congruence (hn : g.NodeLaws) : Congruence g.toRegime.Keeps g.toRegime.Keeps :=
  uncounted.congruence h.toRegime hn.toRegime

end Laws

/-! ### Regimes that remember -/

/-- A regime that remembers the store at which it began. -/
def since (s : Store) : StoreRegime where
  Inv t := g.Moved s t
  Step := g.Step
  Good := g.Good
  Seen := g.Seen
  refl := g.refl
  trans := g.trans
  good_step := g.good_step

section
variable {g} {s t u : Store}

theorem Moved.since (hsince : g.Moved s t) (h : g.Moved t u) : (g.since s).Moved t u :=
  ⟨⟨h.inv, g.trans hsince.step h.step⟩, h.step⟩

/-- A regime that allows the changes of scopes allows them from any store
on. -/
theorem Laws.since (h : g.Laws) (s : Store) : (g.since s).Laws where
  data := h.data
  spec := h.spec
  blueprint := h.blueprint
  toolkit := h.toolkit
  bridge := h.bridge
  exit := h.exit
  seen hinv := h.seen hinv.inv
  above hinv := h.above hinv.inv
  bound hinv := h.bound hinv.inv
  owner hinv := h.owner hinv.inv
  release held refs hinv := hinv.since (h.release held refs hinv.inv)
  declare hinv hts hid hb hw := hinv.since (h.declare hinv.inv hts hid hb hw)
  assign hinv hid hv hw := hinv.since (h.assign hinv.inv hid hv hw)
  newExports hinv := ⟨hinv.since (h.newExports hinv.inv).1, (h.newExports hinv.inv).2⟩
  newChild hinv hts habove hkind :=
    ⟨hinv.since (h.newChild hinv.inv hts habove hkind).1,
      (h.newChild hinv.inv hts habove hkind).2⟩
  newObject hinv hb := ⟨hinv.since (h.newObject hinv.inv hb).1, (h.newObject hinv.inv hb).2⟩

theorem NodeLaws.since (hn : g.NodeLaws) (s : Store) : (g.since s).NodeLaws where
  exports hinv := hn.exports hinv.inv
  exportIn hinv hid hv hw := hinv.since (hn.exportIn hinv.inv hid hv hw)
  code := hn.code

end

/-! ### Regimes of the store and of something else -/

/-- What a regime may ask of the machine beside a store regime, as long
as it is about the running calls, or about the flow that has been
logged as stray. -/
structure Extension where
  Also : Settings → Machine → Prop
  Step : Machine → Machine → Prop
  /-- Whether evaluations may run out of steps. -/
  Open : Prop
  refl (m : Machine) : Step m m
  trans {a b c : Machine} : Step a b → Step b c → Step a c
  good_step {m m' : Machine} {i : Item} : Step m m' → g.Good m.store i → g.Good m'.store i
  moved {σ : Settings} {m m' : Machine} : Also σ m → g.Moved m.store m'.store →
    m'.depth = m.depth → m'.log.filter LogEntry.isStrayBack = m.log.filter LogEntry.isStrayBack →
      Also σ m' ∧ Step m m'

namespace Extension

variable {g} (x : g.Extension)

/-- A store regime with what is asked beside it. -/
def regime : Regime where
  Inv σ m := g.Inv m.store ∧ x.Also σ m
  Step := x.Step
  Good m i := g.Good m.store i
  Seen := g.Seen
  Open := x.Open
  refl := x.refl
  trans := x.trans
  good_step := x.good_step

section
variable {x} {σ : Settings} {m m' : Machine}

theorem moved_regime (hinv : x.regime.Inv σ m) (hmoved : g.Moved m.store m'.store)
    (hdepth : m'.depth = m.depth)
    (hlog : m'.log.filter LogEntry.isStrayBack = m.log.filter LogEntry.isStrayBack) :
    x.regime.Moved σ m m' := by
  obtain ⟨halso, hstep⟩ := x.moved hinv.2 hmoved hdepth hlog
  exact ⟨⟨hmoved.inv, halso⟩, hstep⟩

theorem moved_of_same (hinv : x.regime.Inv σ m) (hstore : m'.store = m.store)
    (hdepth : m'.depth = m.depth)
    (hlog : m'.log.filter LogEntry.isStrayBack = m.log.filter LogEntry.isStrayBack) :
    x.regime.Moved σ m m' := by
  have hmoved : g.Moved m.store m'.store := by
    rw [hstore]
    exact .self hinv.1
  exact moved_regime hinv hmoved hdepth hlog

end

theorem laws (h : g.Laws) : x.regime.Laws where
  data := h.data
  spec := h.spec
  blueprint := h.blueprint
  toolkit := h.toolkit
  bridge := h.bridge
  raised name message := h.exit (.raised name message)
  seen hinv := h.seen hinv.1
  above hinv := h.above hinv.1
  bound hinv := h.bound hinv.1
  owner hinv := h.owner hinv.1
  release held refs hinv := moved_regime hinv (h.release held refs hinv.1) rfl rfl
  declare hinv hts hid hb hw := moved_regime hinv (h.declare hinv.1 hts hid hb hw) rfl rfl
  assign hinv hid hv hw := moved_regime hinv (h.assign hinv.1 hid hv hw) rfl rfl
  newExports hinv :=
    ⟨moved_regime hinv (h.newExports hinv.1).1 rfl rfl, (h.newExports hinv.1).2⟩
  newChild hinv hts habove hkind :=
    ⟨moved_regime hinv (h.newChild hinv.1 hts habove hkind).1 rfl rfl,
      (h.newChild hinv.1 hts habove hkind).2⟩
  newObject hinv hb :=
    ⟨moved_regime hinv (h.newObject hinv.1 hb).1 rfl rfl, (h.newObject hinv.1 hb).2⟩
  stopped _ := h.exit .interrupted
  interrupt hinv := moved_of_same hinv rfl rfl rfl
  out _ hinv := ⟨moved_of_same hinv rfl rfl rfl, fun reason _ => h.exit (.stream reason)⟩
  err _ hinv := ⟨moved_of_same hinv rfl rfl rfl, fun reason _ => h.exit (.stream reason)⟩
  input hinv := ⟨moved_of_same hinv rfl rfl rfl, fun reason _ => h.exit (.stream reason)⟩
  note he hinv := moved_of_same hinv rfl rfl (List.filter_cons_of_neg (by simp [he]))
  rest _ _ hinv := moved_of_same hinv rfl rfl rfl

theorem exportLaws (he : g.ExportLaws) : x.regime.ExportLaws where
  exports hinv := he.exports hinv.1
  exportIn hinv hid hb hw := moved_regime hinv (he.exportIn hinv.1 hid hb hw) rfl rfl

end Extension

end StoreRegime

end Treewalk.Proofs
