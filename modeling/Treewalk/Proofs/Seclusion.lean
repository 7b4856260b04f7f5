import Treewalk.Proofs.StoreRegime

/-!
# `Treewalk.Proofs.Seclusion`: exports apart from all other scopes

Many constructs write to scopes: declarations and assignments, copies of
bindings, the making of instances. None of them writes to the exports of
a toolkit. To see why, it is enough to follow where the exports are
named: by the kind of the toolkit's scope, and by the toolkit itself, for
reading. Nobody works in them, no scope is made below them, and so no
chain leads there.

`Secluded` says that of a store, and that no binding of exports is for
good. `unexposed` is the regime of all that does not expose: it leaves
the exports that there are as they are, and new exports are empty.
-/

set_option autoImplicit false

namespace Treewalk

/-- Whether a scope is for the exports of a toolkit. -/
def ScopeKind.isExports : ScopeKind → Bool
  | exports => true
  | _ => false

theorem ScopeKind.isExports_eq_true_iff {kind : ScopeKind} :
    kind.isExports = true ↔ kind = .exports := by
  cases kind <;> simp [isExports]

/-- The scopes that a value names, and whether it names them as
exports. -/
def Value.mentions : Value → List (ScopeId × Bool)
  | blueprint b => [(b.scope, false)]
  | object i => [(i.fields, false), (i.blueprint.scope, false)]
  | toolkit t => [(t.scope, false), (t.exports, true)]
  | bridge b => [(b.scope, false)]
  | _ => []

/-- The scopes that are named by what a scope was made for. -/
def ScopeKind.mentions : ScopeKind → List (ScopeId × Bool)
  | .instance i => (Value.object i).mentions
  | toolkit e => [(e, true)]
  | _ => []

/-- The scopes that a scope names: those above it, those of its kind,
and those of the values in it. -/
def Scope.mentions (s : Scope) : List (ScopeId × Bool) :=
  s.links.map (·, false) ++ s.kind.mentions ++
    s.bindings.flatMap fun entry => entry.2.value.mentions

namespace Proofs

/-- The scopes that an item in hand names. -/
def Item.mentions : Item → List (ScopeId × Bool)
  | value v => v.mentions
  | scope id => [(id, false)]
  | made id kind => [(id, kind.isExports)]
  | exports id => [(id, true)]
  | exit _ => []
  | code _ => []

/-! ### Secluded exports -/

/-- A number that was given out, and to exports just if it is said
so. -/
structure Placed (s : Store) (p : ScopeId × Bool) : Prop where
  lt : p.1 < s.next
  kind {scope : Scope} : s.scope? p.1 = some scope → scope.kind.isExports = p.2

theorem Placed.evolves {s t : Store} {p : ScopeId × Bool} (hp : Placed s p)
    (h : Evolves SameKind s t) : Placed t p where
  lt := Nat.lt_of_lt_of_le hp.lt h.next
  kind {scope} hscope := by
    obtain ⟨before, hbefore, hkind⟩ := h.scope hscope hp.lt
    rw [hkind]
    exact hp.kind hbefore

/-- A scope that names exports as exports only, and that binds nothing
for good if it is for exports. -/
structure Apart (s : Store) (scope : Scope) : Prop where
  mentions : ∀ p ∈ scope.mentions, Placed s p
  changes : scope.kind.isExports = true → ∀ name, scope.isConstant name = false

/-- Exports are named as exports only, and bind nothing for good. -/
def Secluded (s : Store) : Prop :=
  Everywhere (fun s _ scope => Apart s scope) s

theorem apart_stable : Stable fun s _ scope => Apart s scope :=
  fun _ _ _ _ h hapart => ⟨fun p hp => (hapart.mentions p hp).evolves h, hapart.changes⟩

theorem Apart.links {s : Store} {scope : Scope} (h : Apart s scope) :
    ∀ id ∈ scope.links, Placed s (id, false) := fun _ hid =>
  h.mentions _ (List.mem_append_left _ (List.mem_append_left _ (List.mem_map_of_mem hid)))

theorem Apart.kind {s : Store} {scope : Scope} (h : Apart s scope) :
    ∀ p ∈ scope.kind.mentions, Placed s p := fun p hp =>
  h.mentions p (List.mem_append_left _ (List.mem_append_right _ hp))

theorem Apart.bound {s : Store} {scope : Scope} (h : Apart s scope) {entry : String × Binding}
    (hentry : entry ∈ scope.bindings) : ∀ p ∈ entry.2.value.mentions, Placed s p := fun p hp =>
  h.mentions p (List.mem_append_right _ (List.mem_flatMap.mpr ⟨entry, hentry, hp⟩))

theorem Apart.bind {s : Store} {scope : Scope} (h : Apart s scope) (name : String) {b : Binding}
    (hb : ∀ p ∈ b.value.mentions, Placed s p)
    (hchange : scope.kind.isExports = true → b.constant = false) :
    Apart s (scope.bind name b) where
  mentions p hp := by
    rcases List.mem_append.mp hp with hp | hp
    · exact h.mentions p (List.mem_append_left _ hp)
    · obtain ⟨entry, hentry, hp⟩ := List.mem_flatMap.mp hp
      rcases Bindings.mem_put hentry with rfl | hold
      · exact hb p hp
      · exact h.bound hold p hp
  changes hexports n := by
    rw [Scope.isConstant, Scope.binding?_bind]
    split
    · exact hchange hexports
    · exact h.changes hexports n

namespace Secluded

variable {s : Store}

theorem of_shrinks {t : Store} (h : Secluded s) (hshrinks : s.Shrinks t) : Secluded t :=
  Everywhere.of_shrinks apart_stable h hshrinks

/-- A new scope binds nothing, so it is enough to look at its links and
its kind. -/
theorem add (h : Secluded s) {kind : ScopeKind} {parent outer root : Option ScopeId}
    (hlinks : ∀ id ∈ (Scope.fresh kind parent outer root).links, Placed s (id, false))
    (hkind : ∀ p ∈ kind.mentions, Placed (s.add (Scope.fresh kind parent outer root)).2 p) :
    Secluded (s.add (Scope.fresh kind parent outer root)).2 := by
  refine Everywhere.add apart_stable h ⟨fun p hp => ?_, fun _ _ => rfl⟩
  rcases List.mem_append.mp hp with hp | hp
  · rcases List.mem_append.mp hp with hp | hp
    · obtain ⟨id, hid, rfl⟩ := List.mem_map.mp hp
      exact (hlinks id hid).evolves (.add SameKind.refl s _)
    · exact hkind p hp
  · cases hp

/-- A scope is never made below exports. -/
theorem child (h : Secluded s) {above : ScopeId} {kind : ScopeKind}
    (habove : Placed s (above, false))
    (hkind : ∀ p ∈ kind.mentions, Placed (s.child above kind).2 p) :
    Secluded (s.child above kind).2 := by
  have hlinks : ∀ scope, (s.child above kind).2.scope? s.next = some scope →
      ∀ id ∈ scope.links, Placed s (id, false) := by
    intro scope hscope id hid
    rcases Store.mem_links_child hscope id hid with rfl | ⟨x, hx, hid⟩
    · exact habove
    · exact (h above x hx).links id hid
  obtain ⟨parent, outer, root, hchild⟩ := s.child_eq_add above kind
  rw [hchild] at hlinks hkind ⊢
  have hfound := s.scope?_add (Scope.fresh kind parent outer root) s.next
  rw [if_pos rfl] at hfound
  exact h.add (hlinks _ hfound) hkind

theorem addInstance (h : Secluded s) (i : InstanceId → Instance) :
    Secluded (s.addInstance i).2 :=
  Everywhere.addInstance apart_stable h i

theorem declare (h : Secluded s) {id : ScopeId} {name : String} {b : Binding} {w : Written}
    (hb : ∀ p ∈ b.value.mentions, Placed s p)
    (hchange : ∀ scope, s.scope? id = some scope → scope.kind.isExports = true →
      b.constant = false)
    (hw : s.declare id name b = .ok w) : Secluded w.store :=
  Everywhere.declare apart_stable h hw fun scope hscope hapart =>
    hapart.bind name hb (hchange scope hscope)

/-- No chain leads to exports. -/
theorem exists_of_search (h : Secluded s) {α : Type} {answer : ScopeId → Scope → Option α}
    {bound : Nat} {id : ScopeId} {a : α} (hid : Placed s (id, false))
    (hfound : s.search answer bound id = some a) :
    ∃ i scope, Placed s (i, false) ∧ s.scope? i = some scope ∧ answer i scope = some a :=
  Store.exists_on_chain (P := fun i => Placed s (i, false))
    (fun _ hscope habove => (h _ _ hscope).links _ (List.mem_of_find?_eq_some habove)) hid hfound

/-- The exports of a live toolkit are exports. -/
theorem placed_of_toolkit (h : Secluded s) {id exports : ScopeId} {scope : Scope}
    (hscope : s.scope? id = some scope) (hkind : scope.kind = .toolkit exports) :
    Placed s (exports, true) := by
  apply (h id scope hscope).kind
  rw [hkind]
  exact List.mem_singleton_self _

theorem placed_of_nearest (h : Secluded s) {id exports : ScopeId}
    (hfound : s.nearestExports? id = some exports) : Placed s (exports, true) := by
  obtain ⟨_, _, hscope, hanswer⟩ := Store.exists_of_search hfound
  split at hanswer
  · rename_i hkind
    cases hanswer
    exact h.placed_of_toolkit hscope hkind
  · cases hanswer

/-- A toolkit that is looked up names exports as its exports. -/
theorem placed_of_lookup (h : Secluded s) {id : ScopeId} {name : String} {t : Toolkit}
    (hfound : s.lookup? id name = some (.toolkit t)) : Placed s (t.exports, true) := by
  obtain ⟨_, scope, hscope, hanswer⟩ := Store.exists_of_search hfound
  rcases Store.answer?_eq_some hanswer with ⟨entry, hentry, hv⟩ | ⟨_, -, hv⟩
  · refine (h _ _ hscope).bound hentry _ ?_
    rw [← hv]
    exact List.mem_cons_of_mem _ (List.mem_singleton_self _)
  · cases hv

/-- Exports bind nothing for good, so they refuse no name. -/
theorem declare_exports (h : Secluded s) {id : ScopeId} (hid : Placed s (id, true)) (name : String)
    (b : Binding) : ∃ w, s.declare id name b = .ok w := by
  cases hscope : s.scope? id with
  | none => exact ⟨⟨s, []⟩, by simp only [Store.declare, hscope]⟩
  | some scope =>
    have hfree : scope.isConstant name = false := (h id scope hscope).changes (hid.kind hscope) name
    obtain ⟨freed, hw⟩ := Store.declare_of_free hscope hfree b
    exact ⟨_, hw⟩

end Secluded

/-! ### What does not expose -/

/-- A scope that has kept its kind, and its bindings if it is for
exports. -/
structure KeepsExports (_ : ScopeId) (x y : Scope) : Prop where
  kind : y.kind = x.kind
  bindings : x.kind.isExports = true → y.bindings = x.bindings

theorem KeepsExports.refl (id : ScopeId) (x : Scope) : KeepsExports id x x :=
  ⟨rfl, fun _ => rfl⟩

theorem KeepsExports.trans (id : ScopeId) {x y z : Scope} (h : KeepsExports id x y)
    (h' : KeepsExports id y z) : KeepsExports id x z where
  kind := h'.kind.trans h.kind
  bindings hx := by
    have hy : y.kind.isExports = true := by
      rw [h.kind]
      exact hx
    exact (h'.bindings hy).trans (h.bindings hx)

/-- From one store to another, exports keep their bindings, and new ones
have none. -/
structure Unexposed (s t : Store) : Prop where
  old : Evolves KeepsExports s t
  new {id : ScopeId} {scope : Scope} : s.next ≤ id → t.scope? id = some scope →
    scope.kind.isExports = true → scope.bindings = []

namespace Unexposed

variable {s t u : Store}

theorem kinds (h : Unexposed s t) : Evolves SameKind s t :=
  h.old.mono fun _ _ _ hkeeps => hkeeps.kind

/-- Without new numbers there are no new exports. -/
theorem of_next (h : Evolves KeepsExports s t) (hnext : t.next = s.next) : Unexposed s t where
  old := h
  new hid hscope := absurd (hnext ▸ Store.lt_next hscope) (Nat.not_lt_of_le hid)

theorem refl (s : Store) : Unexposed s s :=
  of_next (.refl KeepsExports.refl s) rfl

theorem trans (h : Unexposed s t) (h' : Unexposed t u) : Unexposed s u where
  old := h.old.trans KeepsExports.trans h'.old
  new {id scope} hid hscope hexports := by
    by_cases hlt : id < t.next
    · obtain ⟨before, hbefore, hkeeps⟩ := h'.old.scope hscope hlt
      have hkind : before.kind.isExports = true := by
        rw [← hkeeps.kind]
        exact hexports
      rw [hkeeps.bindings hkind]
      exact h.new hid hbefore hkind
    · exact h'.new (Nat.le_of_not_lt hlt) hscope hexports

theorem release (s : Store) (held refs : List Ref) : Unexposed s (s.release held refs) :=
  of_next (.release KeepsExports.refl s held refs) (s.shrinks_release held refs).next

/-- A new scope binds nothing. -/
theorem add (s : Store) (kind : ScopeKind) (parent outer root : Option ScopeId) :
    Unexposed s (s.add (Scope.fresh kind parent outer root)).2 where
  old := .add KeepsExports.refl s _
  new {id scope} hid hscope _ := by
    rw [Store.scope?_add] at hscope
    split at hscope
    · cases hscope
      rfl
    · exact absurd (Store.lt_next hscope) (Nat.not_lt_of_le hid)

theorem child (s : Store) (above : ScopeId) (kind : ScopeKind) :
    Unexposed s (s.child above kind).2 := by
  obtain ⟨parent, outer, root, hchild⟩ := s.child_eq_add above kind
  rw [hchild]
  exact add s kind parent outer root

theorem addInstance (s : Store) (i : InstanceId → Instance) : Unexposed s (s.addInstance i).2 where
  old := .addInstance KeepsExports.refl s i
  new {id scope} hid hscope _ := by
    have hfound : s.scope? id = some scope := hscope
    exact absurd (Store.lt_next hfound) (Nat.not_lt_of_le hid)

/-- A write to a scope that is not for exports. -/
theorem declare {id : ScopeId} {name : String} {b : Binding} {w : Written}
    (hid : Placed s (id, false)) (hw : s.declare id name b = .ok w) : Unexposed s w.store := by
  refine of_next (.declare KeepsExports.refl hw fun scope hscope _ => ?_) (Store.next_declare hw)
  refine ⟨rfl, fun hexports => ?_⟩
  rw [hid.kind hscope] at hexports
  cases hexports

end Unexposed

/-- The regime of all that does not expose. -/
def unexposed : StoreRegime where
  Inv := Secluded
  Step := Unexposed
  Good s i := ∀ p ∈ i.mentions, Placed s p
  refl := .refl
  trans := .trans
  good_step hstep hi p hp := (hi p hp).evolves hstep.kinds

section
variable {s : Store} {ts : List Item}

/-- Names are bound in scopes that are not for exports, and frames are
made there. -/
theorem placed_of_bindable (hts : ∀ i ∈ ts, unexposed.Good s i) {id : ScopeId}
    (hid : Bindable ts id) : Placed s (id, false) := by
  cases hid with
  | scope hm => exact hts _ hm _ (List.mem_singleton_self _)
  | fields hm => exact hts _ hm _ (List.mem_cons_self ..)
  | blueprint hm => exact hts _ hm _ (List.mem_singleton_self _)

theorem unexposed_declare (hinv : Secluded s) {id : ScopeId} {name : String} {b : Binding}
    {w : Written} (hid : Placed s (id, false)) (hb : unexposed.Good s (.value b.value))
    (hw : s.declare id name b = .ok w) : unexposed.Moved s w.store where
  inv := by
    refine hinv.declare hb (fun scope hscope hexports => ?_) hw
    rw [hid.kind hscope] at hexports
    cases hexports
  step := .declare hid hw

theorem placed_add (s : Store) (kind : ScopeKind) (parent outer root : Option ScopeId) :
    Placed (s.add (Scope.fresh kind parent outer root)).2 (s.next, kind.isExports) where
  lt := Nat.lt_succ_self _
  kind hscope := by
    rw [Store.scope?_add, if_pos rfl] at hscope
    cases hscope
    rfl

theorem placed_child (s : Store) (above : ScopeId) (kind : ScopeKind) :
    Placed (s.child above kind).2 (s.next, kind.isExports) := by
  obtain ⟨parent, outer, root, hchild⟩ := s.child_eq_add above kind
  rw [hchild]
  exact placed_add s kind parent outer root

theorem good_of_mem {i : Item} {p : ScopeId × Bool} (hp : Placed s p) (hi : i.mentions = [p]) :
    unexposed.Good s i := by
  intro q hq
  rw [hi] at hq
  rw [List.mem_singleton.mp hq]
  exact hp

/-- A new scope that is in hand for what it was made. -/
theorem placed_of_made {id : ScopeId} {kind : ScopeKind}
    (h : unexposed.Good s (.made id kind)) : Placed s (id, kind.isExports) :=
  h _ (List.mem_singleton_self _)

/-- No construct makes exports below another scope. -/
theorem placed_of_canMake (hts : ∀ i ∈ ts, unexposed.Good s i) {kind : ScopeKind}
    (hkind : CanMake ts kind) :
    kind.isExports = false ∧ ∀ p ∈ kind.mentions, Placed s p := by
  cases kind with
  | «instance» i => exact hkind.elim
  | exports => exact hkind.elim
  | toolkit e => exact ⟨rfl, List.forall_mem_singleton.mpr (placed_of_made (hts _ hkind))⟩
  | _ => exact ⟨rfl, fun p hp => by cases hp⟩

theorem unexposed_laws : unexposed.Laws where
  data {_ v} hv p hp := by cases v <;> cases hv <;> cases hp
  spec _ p hp := by cases hp
  blueprint _ _ _ hmade _ := good_of_mem (placed_of_made hmade) rfl
  toolkit _ _ _ hexports hmade := List.forall_mem_cons.mpr
    ⟨placed_of_made hmade, List.forall_mem_singleton.mpr (placed_of_made hexports)⟩
  bridge _ _ hmade := good_of_mem (placed_of_made hmade) rfl
  exit e p hp := by cases hp
  seen _ _ _ := trivial
  above _ _ _ _ := trivial
  bound hinv _ hscope hentry := (hinv _ _ hscope).bound hentry
  owner hinv _ hscope hkind p hp := (hinv _ _ hscope).kind p (by rw [hkind]; exact hp)
  release {s} held refs hinv :=
    ⟨hinv.of_shrinks (s.shrinks_release held refs), .release s held refs⟩
  declare hinv hts hid hb hw := unexposed_declare hinv (placed_of_bindable hts hid) hb hw
  assign {s id name v w} hinv hid hv hw := by
    have hplaced : Placed s (id, false) := hid _ (List.mem_singleton_self _)
    unfold Store.assign at hw
    cases hholder : s.holder? id name with
    | none =>
      rw [hholder] at hw
      exact unexposed_declare (b := .ofValue v) hinv hplaced hv hw
    -- What is bound above is bound on the chain, where there are no exports.
    | some holder =>
      rw [hholder] at hw
      obtain ⟨i, scope, hi, -, hanswer⟩ := hinv.exists_of_search hplaced hholder
      obtain ⟨_, -, rfl⟩ := Option.map_eq_some_iff.mp hanswer
      exact unexposed_declare (b := .ofValue v) hinv hi hv hw
  newExports {s} hinv := by
    refine ⟨⟨hinv.add (fun _ hid => ?_) fun _ hp => ?_, .add s .exports none none none⟩, ?_⟩
    · cases hid
    · cases hp
    · exact good_of_mem (placed_add s .exports none none none) rfl
  newChild {s _ above kind} hinv hts habove hkind := by
    have hstep : Unexposed s (s.child above kind).2 := .child s above kind
    have hmade := placed_child s above kind
    obtain ⟨hlexical, hmentions⟩ := placed_of_canMake hts hkind
    have hmoved : unexposed.Moved s (s.child above kind).2 :=
      ⟨hinv.child (placed_of_bindable hts habove) fun p hp =>
        (hmentions p hp).evolves hstep.kinds, hstep⟩
    exact ⟨hmoved, good_of_mem (hlexical ▸ hmade) rfl, good_of_mem hmade rfl⟩
  newObject {s b} hinv hb := by
    have hscope : Placed s (b.scope, false) := hb _ (List.mem_singleton_self _)
    have hadded : Unexposed s (s.addInstance fun id => ⟨id, b, id + 1⟩).2 := .addInstance s _
    have hchild := Unexposed.child (s.addInstance fun id => ⟨id, b, id + 1⟩).2 b.scope
      (.instance (s.addObject b).1)
    have hstep : Unexposed s (s.addObject b).2 := hadded.trans hchild
    have hfields : Placed (s.addObject b).2 (s.next + 1, false) :=
      placed_child (s.addInstance fun id => ⟨id, b, id + 1⟩).2 b.scope _
    have hobject : unexposed.Good (s.addObject b).2 (.value (.object (s.addObject b).1)) :=
      List.forall_mem_cons.mpr
        ⟨hfields, List.forall_mem_singleton.mpr (hscope.evolves hstep.kinds)⟩
    refine ⟨⟨?_, hstep⟩, hobject⟩
    exact (hinv.addInstance _).child (hscope.evolves hadded.kinds) hobject

end

end Proofs

end Treewalk
