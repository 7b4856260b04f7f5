import Treewalk.Proofs.StoreRegime

/-!
# `Treewalk.Proofs.Ownership`: what is named is alive

Values and scopes name other scopes and instances by their numbers.
Nothing in a number says that there is something behind it: that is the
work of `Store.release`, which takes out only what nothing names.

`Sound` says that it does this well. Whatever a live scope or instance
names is alive, and is what the name takes it for: the scope of a
blueprint is one that was made for a blueprint, and an instance is the
very one that was made under its number. Each operation of the store
keeps `Sound`.

A host can give a scope of any kind to an object, and so nothing is
said about the kinds of scopes that are older than `since`. With 0 for
`since` all of them are as the objects want them.

`Continues` is what always holds between two moments: a scope that is
still alive has the kind and the links that it had, and an instance is
the same. `Grows` adds that nothing has gone.
-/

set_option autoImplicit false

namespace Treewalk

namespace Store

/-- The live instance with a number. -/
def instance? (s : Store) (id : InstanceId) : Option Instance :=
  s.instances[id]?

/-- Whether a reference is to something alive. -/
def Has (s : Store) : Ref → Prop
  | .scope id => ∃ scope, s.scope? id = some scope
  | .instance id => ∃ i, s.instance? id = some i

theorem instance_lt_next {s : Store} {id : InstanceId} {i : Instance}
    (h : s.instance? id = some i) : id < s.next := by
  apply s.instance_lt
  rw [Std.TreeMap.mem_iff_isSome_getElem?]
  exact Option.isSome_of_eq_some h

theorem hasScope_of_eq {s : Store} {id : ScopeId} {scope : Scope} (h : s.scope? id = some scope) :
    s.hasScope id = true := by
  rw [hasScope_eq_isSome, h]
  rfl

theorem hasInstance_of_eq {s : Store} {id : InstanceId} {i : Instance}
    (h : s.instance? id = some i) : s.hasInstance id = true := by
  show s.instances.contains id = true
  rw [Std.TreeMap.contains_eq_isSome_getElem?]
  exact Option.isSome_of_eq_some h

/-- To look for something among the entries one by one. -/
theorem foldr_or {α : Type} (p : α → Bool) (entries : List α) :
    entries.foldr (fun entry found => found || p entry) false = entries.any p := by
  induction entries with
  | nil => rfl
  | cons first rest ih => rw [List.foldr_cons, ih, List.any_cons, Bool.or_comm]

/-- What nothing refers to is named by no live scope and no live
instance. -/
theorem refersTo_eq_false_iff {s : Store} {r : Ref} :
    s.refersTo r = false ↔
      (∀ id scope, s.scope? id = some scope → r ∉ scope.refs) ∧
        ∀ id i, s.instance? id = some i → r ∉ i.refs := by
  unfold refersTo
  rw [Bool.or_eq_false_iff, Std.TreeMap.foldr_eq_foldr_toList,
    Std.TreeMap.foldr_eq_foldr_toList, foldr_or (fun entry : Nat × Scope => entry.2.keeps r),
    foldr_or (fun entry : Nat × Instance => entry.2.refs.contains r)]
  simp [Std.TreeMap.mem_toList_iff_getElem?_eq_some, Scope.keeps_eq_contains_refs, scope?,
    instance?]

/-- What a live scope names, the store refers to. -/
theorem refersTo_of_scope {s : Store} {id : ScopeId} {scope : Scope} {r : Ref}
    (hscope : s.scope? id = some scope) (hr : r ∈ scope.refs) : s.refersTo r = true := by
  cases hfree : s.refersTo r with
  | true => rfl
  | false => exact absurd hr ((refersTo_eq_false_iff.mp hfree).1 id scope hscope)

theorem scope?_erase (s : Store) (r : Ref) (id : ScopeId) :
    (s.erase r).scope? id = if r = .scope id then none else s.scope? id := by
  cases r with
  | scope i =>
    show (s.scopes.erase i)[id]? = _
    rw [Std.TreeMap.getElem?_erase]
    simp [scope?]
  | «instance» i => rfl

theorem instance?_erase (s : Store) (r : Ref) (id : InstanceId) :
    (s.erase r).instance? id = if r = .instance id then none else s.instance? id := by
  cases r with
  | scope i => rfl
  | «instance» i =>
    show (s.instances.erase i)[id]? = _
    rw [Std.TreeMap.getElem?_erase]
    simp [instance?]

/-- Nothing goes but what is taken out. -/
theorem has_erase {s : Store} {r r' : Ref} : (s.erase r).Has r' ↔ s.Has r' ∧ r ≠ r' := by
  cases r' with
  | scope id => by_cases h : r = .scope id <;> simp [Has, scope?_erase, h]
  | «instance» id => by_cases h : r = .instance id <;> simp [Has, instance?_erase, h]

theorem instance?_addInstance (s : Store) (f : InstanceId → Instance) (id : InstanceId) :
    (s.addInstance f).2.instance? id = if id = s.next then some (f s.next) else s.instance? id := by
  show (s.instances.insert s.next (f s.next))[id]? = _
  rw [Std.TreeMap.getElem?_insert]
  simp [instance?, @eq_comm _ s.next id]

/-- A scope made in a live one has that as its parent. -/
theorem child_eq_of_alive {s : Store} {above : ScopeId} {scope : Scope} (kind : ScopeKind)
    (h : s.scope? above = some scope) :
    ∃ outer root, s.child above kind = s.add (Scope.fresh kind (some above) outer root) := by
  unfold child
  rw [h]
  exact ⟨_, _, rfl⟩

/-- What a new instance of a live blueprint adds to the store. -/
theorem addObject_spec {s : Store} {b : Blueprint} {above : Scope}
    (h : s.scope? b.scope = some above) :
    ∃ fields : Scope, fields.kind = .instance ⟨s.next, b, s.next + 1⟩ ∧
      fields.parent = some b.scope ∧ fields.bindings = [] ∧
      (∀ id, (s.addObject b).2.scope? id =
        if id = s.next + 1 then some fields else s.scope? id) ∧
      (∀ id, (s.addObject b).2.instance? id =
        if id = s.next then some ⟨s.next, b, s.next + 1⟩ else s.instance? id) ∧
      (s.addObject b).2.next = s.next + 2 := by
  let i : Instance := ⟨s.next, b, s.next + 1⟩
  let s₁ := (s.addInstance fun id => ⟨id, b, id + 1⟩).2
  have habove : s₁.scope? b.scope = some above := h
  obtain ⟨outer, root, hchild⟩ := child_eq_of_alive (.instance i) habove
  let fields := Scope.fresh (.instance i) (some b.scope) outer root
  have hobject : (s.addObject b).2 = (s₁.add fields).2 := congrArg Prod.snd hchild
  rw [hobject]
  refine ⟨fields, rfl, rfl, rfl, fun id => ?_, fun id => ?_, rfl⟩
  · rw [scope?_add]
    rfl
  · exact instance?_addInstance s (fun id => ⟨id, b, id + 1⟩) id

end Store

namespace Proofs

/-! ### From one moment to another -/

/-- A scope that has kept its kind and its links. -/
structure SameShape (_ : ScopeId) (x y : Scope) : Prop where
  kind : y.kind = x.kind
  parent : y.parent = x.parent
  outer : y.outer = x.outer
  root : y.root = x.root

theorem SameShape.refl (id : ScopeId) (x : Scope) : SameShape id x x :=
  ⟨rfl, rfl, rfl, rfl⟩

theorem SameShape.trans (id : ScopeId) {x y z : Scope} (h : SameShape id x y)
    (h' : SameShape id y z) : SameShape id x z where
  kind := h'.kind.trans h.kind
  parent := h'.parent.trans h.parent
  outer := h'.outer.trans h.outer
  root := h'.root.trans h.root

/-- What is alive now and was there before is what it was. -/
structure Continues (s t : Store) : Prop where
  scopes : Evolves SameShape s t
  instances {id : InstanceId} {i : Instance} : t.instance? id = some i → id < s.next →
    s.instance? id = some i

/-- A store that has gone on and lost nothing. -/
structure Grows (s t : Store) : Prop extends Continues s t where
  has {r : Ref} : s.Has r → t.Has r

namespace Continues

variable {s t u : Store}

theorem refl (s : Store) : Continues s s :=
  ⟨.refl SameShape.refl s, fun hi _ => hi⟩

theorem trans (h : Continues s t) (h' : Continues t u) : Continues s u where
  scopes := h.scopes.trans SameShape.trans h'.scopes
  instances hi hid := h.instances (h'.instances hi (Nat.lt_of_lt_of_le hid h.scopes.next)) hid

/-- A scope that is still alive has the kind and the links it had. -/
theorem shape (h : Continues s t) {id : ScopeId} {before after : Scope}
    (hbefore : s.scope? id = some before) (hafter : t.scope? id = some after) :
    SameShape id before after :=
  h.scopes.between hbefore hafter

/-- An instance that is still alive is the one it was. -/
theorem instance_eq (h : Continues s t) {id : InstanceId} {i j : Instance}
    (hi : s.instance? id = some i) (hj : t.instance? id = some j) : j = i := by
  have hsame := h.instances hj (Store.instance_lt_next hi)
  rw [hi] at hsame
  cases hsame
  rfl

theorem erase (s : Store) (r : Ref) : Continues s (s.erase r) where
  scopes := .of_shrinks SameShape.refl (s.shrinks_erase r)
  instances {id i} hi _ := by
    rw [Store.instance?_erase] at hi
    split at hi
    · cases hi
    · exact hi

theorem release (s : Store) (held refs : List Ref) : Continues s (s.release held refs) := by
  refine Store.release_induction (P := Continues s) (fun hs hreclaimed => ?_) refs (.refl s)
  obtain ⟨-, -, rfl⟩ := Store.reclaim?_eq_some hreclaimed
  exact hs.trans (.erase _ _)

end Continues

namespace Grows

variable {s t u : Store}

theorem refl (s : Store) : Grows s s :=
  ⟨.refl s, fun h => h⟩

theorem trans (h : Grows s t) (h' : Grows t u) : Grows s u :=
  ⟨h.toContinues.trans h'.toContinues, fun hr => h'.has (h.has hr)⟩

theorem add (s : Store) (scope : Scope) : Grows s (s.add scope).2 where
  scopes := .add SameShape.refl s scope
  instances hi _ := hi
  has {r} hr := by
    cases r with
    | scope id =>
      obtain ⟨old, hold⟩ := hr
      exact ⟨old, by rw [Store.scope?_add, if_neg (Nat.ne_of_lt (Store.lt_next hold)), hold]⟩
    | «instance» id => exact hr

theorem child (s : Store) (above : ScopeId) (kind : ScopeKind) : Grows s (s.child above kind).2 := by
  obtain ⟨parent, outer, root, hchild⟩ := s.child_eq_add above kind
  rw [hchild]
  exact add s _

theorem addInstance (s : Store) (f : InstanceId → Instance) : Grows s (s.addInstance f).2 where
  scopes := .addInstance SameShape.refl s f
  instances hi hid := by
    rwa [Store.instance?_addInstance, if_neg (Nat.ne_of_lt hid)] at hi
  has {r} hr := by
    cases r with
    | scope id => exact hr
    | «instance» id =>
      obtain ⟨i, hi⟩ := hr
      have hne := Nat.ne_of_lt (Store.instance_lt_next hi)
      exact ⟨i, by rw [Store.instance?_addInstance, if_neg hne, hi]⟩

theorem addObject (s : Store) (b : Blueprint) : Grows s (s.addObject b).2 :=
  (addInstance s fun id => ⟨id, b, id + 1⟩).trans (child _ _ _)

theorem declare {id : ScopeId} {name : String} {b : Binding} {w : Written}
    (hw : s.declare id name b = .ok w) : Grows s w.store := by
  have hscopes : Evolves SameShape s w.store :=
    .declare SameShape.refl hw fun scope _ _ => ⟨rfl, rfl, rfl, rfl⟩
  rcases Store.declare_eq_ok hw with hsame | ⟨scope, hscope, -, hset⟩
  · rw [hsame]
    exact refl s
  · rw [hset] at hscopes ⊢
    refine ⟨⟨hscopes, fun hi _ => hi⟩, fun {r} hr => ?_⟩
    cases r with
    | scope i =>
      obtain ⟨old, hold⟩ := hr
      by_cases hi : i = id
      · exact ⟨scope.bind name b, by rw [Store.scope?_setScope, if_pos hi, hscope]; rfl⟩
      · exact ⟨old, by rw [Store.scope?_setScope, if_neg hi, hold]⟩
    | «instance» i => exact hr

end Grows

/-! ### Stores in which what is named is alive -/

/-- A scope that is alive and, unless it is older than `since`, of a
kind. -/
def Stands (since : ScopeId) (s : Store) (id : ScopeId) (kind : ScopeKind) : Prop :=
  ∃ scope, s.scope? id = some scope ∧ (since ≤ id → scope.kind = kind)

/-- A value whose parts are alive and what the value takes them for. -/
def Lives (since : ScopeId) (s : Store) : Value → Prop
  | .blueprint b => Stands since s b.scope .blueprint
  | .object i => s.instance? i.id = some i
  | .toolkit t =>
    Stands since s t.scope (.toolkit t.exports) ∧ Stands since s t.exports .exports
  | .bridge b => Stands since s b.scope .bridge
  | _ => True

/-- A scope whose kind is true: the exports of a toolkit are alive, no
other instance goes by the number of the owner, and exports have no
scope above them. -/
def KindStands (since : ScopeId) (s : Store) (id : ScopeId) (scope : Scope) : Prop :=
  match scope.kind with
  | .toolkit exports => Stands since s exports .exports
  | .instance owner => owner.id < s.next ∧ ∀ i, s.instance? owner.id = some i → i = owner
  | .exports => since ≤ id → scope.links = []
  | _ => True

/-- A scope whose kind is true and whose values live. -/
structure ScopeStands (since : ScopeId) (s : Store) (id : ScopeId) (scope : Scope) : Prop where
  kind : KindStands since s id scope
  bindings : ∀ entry ∈ scope.bindings, Lives since s entry.2.value

/-- An instance under its number, with a blueprint that lives and fields
of its own, which were made in the scope of the blueprint. -/
structure InstanceStands (since : ScopeId) (s : Store) (id : InstanceId) (i : Instance) :
    Prop where
  id : i.id = id
  blueprint : Lives since s (.blueprint i.blueprint)
  fields : ∃ scope, s.scope? i.fields = some scope ∧ scope.kind = .instance i ∧
    scope.parent = some i.blueprint.scope

/-- A store in which all that is named is alive and what the name takes
it for. -/
structure Sound (since : ScopeId) (s : Store) : Prop where
  scope {id : ScopeId} {scope : Scope} : s.scope? id = some scope →
    ScopeStands since s id scope
  instances {id : InstanceId} {i : Instance} : s.instance? id = some i →
    InstanceStands since s id i

section
variable {since : ScopeId} {s t : Store}

/-! #### What is named is alive -/

theorem Stands.has {id : ScopeId} {kind : ScopeKind} (h : Stands since s id kind) :
    s.Has (.scope id) := by
  obtain ⟨scope, hscope, -⟩ := h
  exact ⟨scope, hscope⟩

theorem Lives.has {v : Value} (h : Lives since s v) {r : Ref} (hr : r ∈ v.refs) : s.Has r := by
  cases v with
  | blueprint b =>
    rw [List.mem_singleton.mp hr]
    exact Stands.has h
  | object i =>
    rw [List.mem_singleton.mp hr]
    exact ⟨i, h⟩
  | toolkit t =>
    simp only [Value.refs, List.mem_cons, List.not_mem_nil, or_false] at hr
    rcases hr with rfl | rfl
    · exact h.1.has
    · exact h.2.has
  | bridge b =>
    rw [List.mem_singleton.mp hr]
    exact Stands.has h
  | _ => cases hr

theorem ScopeStands.has {id : ScopeId} {scope : Scope} (h : ScopeStands since s id scope)
    {r : Ref} (hr : r ∈ scope.refs) : s.Has r := by
  rcases List.mem_append.mp hr with hkind | hbound
  · have hstands := h.kind
    unfold KindStands at hstands
    unfold ScopeKind.refs at hkind
    split at hkind
    · rename_i exports hscope
      rw [hscope] at hstands
      rw [List.mem_singleton.mp hkind]
      exact Stands.has hstands
    · cases hkind
  · obtain ⟨entry, hentry, hmem⟩ := List.mem_flatMap.mp hbound
    exact (h.bindings entry hentry).has hmem

theorem InstanceStands.has {id : InstanceId} {i : Instance} (h : InstanceStands since s id i)
    {r : Ref} (hr : r ∈ i.refs) : s.Has r := by
  simp only [Instance.refs, List.mem_cons, List.not_mem_nil, or_false] at hr
  rcases hr with rfl | rfl
  · obtain ⟨scope, hscope, -⟩ := h.fields
    exact ⟨scope, hscope⟩
  · exact Stands.has h.blueprint

/-! #### As long as it is alive it stays what it is -/

theorem Stands.continues {id : ScopeId} {kind : ScopeKind} (h : Stands since s id kind)
    (hc : Continues s t) (hhas : t.Has (.scope id)) : Stands since t id kind := by
  obtain ⟨before, hbefore, hkind⟩ := h
  obtain ⟨after, hafter⟩ := hhas
  exact ⟨after, hafter, fun hid => (hc.shape hbefore hafter).kind.trans (hkind hid)⟩

theorem Lives.continues {v : Value} (h : Lives since s v) (hc : Continues s t)
    (hhas : ∀ r ∈ v.refs, t.Has r) : Lives since t v := by
  cases v with
  | blueprint b => exact Stands.continues h hc (hhas _ (List.mem_singleton_self _))
  | object i =>
    obtain ⟨j, hj⟩ := hhas _ (List.mem_singleton_self _)
    have hsame := hc.instance_eq h hj
    rw [hsame] at hj
    exact hj
  | toolkit t =>
    exact ⟨h.1.continues hc (hhas _ (by simp [Value.refs])),
      h.2.continues hc (hhas _ (by simp [Value.refs]))⟩
  | bridge b => exact Stands.continues h hc (hhas _ (List.mem_singleton_self _))
  | _ => trivial

theorem ScopeStands.continues {id : ScopeId} {scope : Scope} (h : ScopeStands since s id scope)
    (hc : Continues s t) (hhas : ∀ r ∈ scope.refs, t.Has r) : ScopeStands since t id scope where
  kind := by
    have hstands := h.kind
    unfold KindStands at hstands ⊢
    split
    · rename_i exports hkind
      rw [hkind] at hstands
      exact Stands.continues hstands hc (hhas _ (by simp [Scope.refs, ScopeKind.refs, hkind]))
    · rename_i owner hkind
      rw [hkind] at hstands
      refine ⟨Nat.lt_of_lt_of_le hstands.1 hc.scopes.next, fun i hi => ?_⟩
      exact hstands.2 i (hc.instances hi hstands.1)
    · rename_i hkind
      rwa [hkind] at hstands
    · trivial
  bindings entry hentry := by
    refine (h.bindings entry hentry).continues hc fun r hr => hhas r ?_
    exact List.mem_append_right _ (List.mem_flatMap.mpr ⟨entry, hentry, hr⟩)

theorem InstanceStands.continues {id : InstanceId} {i : Instance}
    (h : InstanceStands since s id i) (hc : Continues s t) (hhas : ∀ r ∈ i.refs, t.Has r) :
    InstanceStands since t id i where
  id := h.id
  blueprint := by
    refine h.blueprint.continues hc fun r hr => hhas r ?_
    rw [List.mem_singleton.mp hr]
    simp [Instance.refs]
  fields := by
    obtain ⟨before, hbefore, hkind, hparent⟩ := h.fields
    obtain ⟨after, hafter⟩ := hhas (.scope i.fields) (by simp [Instance.refs])
    have hshape := hc.shape hbefore hafter
    exact ⟨after, hafter, hshape.kind.trans hkind, hshape.parent.trans hparent⟩

/-! #### Less is asked for since later moments -/

theorem Stands.mono {since' : ScopeId} {id : ScopeId} {kind : ScopeKind}
    (h : Stands since s id kind) (hle : since ≤ since') : Stands since' s id kind := by
  obtain ⟨scope, hscope, hkind⟩ := h
  exact ⟨scope, hscope, fun hid => hkind (Nat.le_trans hle hid)⟩

theorem Lives.mono {since' : ScopeId} {v : Value} (h : Lives since s v) (hle : since ≤ since') :
    Lives since' s v := by
  cases v with
  | blueprint b => exact Stands.mono h hle
  | toolkit t => exact ⟨h.1.mono hle, h.2.mono hle⟩
  | bridge b => exact Stands.mono h hle
  | _ => exact h

theorem Sound.mono {since' : ScopeId} (h : Sound since s) (hle : since ≤ since') :
    Sound since' s where
  scope {id scope} hscope := by
    have hstands := h.scope hscope
    refine ⟨?_, fun entry hentry => (hstands.bindings entry hentry).mono hle⟩
    have hkind := hstands.kind
    unfold KindStands at hkind ⊢
    split at hkind
    · exact Stands.mono hkind hle
    · exact hkind
    · exact fun hid => hkind (Nat.le_trans hle hid)
    · trivial
  instances hi := by
    have hstands := h.instances hi
    exact ⟨hstands.id, hstands.blueprint.mono hle, hstands.fields⟩

theorem Lives.grows {v : Value} (h : Lives since s v) (hg : Grows s t) : Lives since t v :=
  h.continues hg.toContinues fun _ hr => hg.has (h.has hr)

theorem ScopeStands.grows {id : ScopeId} {scope : Scope} (h : ScopeStands since s id scope)
    (hg : Grows s t) : ScopeStands since t id scope :=
  h.continues hg.toContinues fun _ hr => hg.has (h.has hr)

theorem InstanceStands.grows {id : InstanceId} {i : Instance} (h : InstanceStands since s id i)
    (hg : Grows s t) : InstanceStands since t id i :=
  h.continues hg.toContinues fun _ hr => hg.has (h.has hr)

end

/-! ### Each operation keeps a store sound -/

namespace Sound

variable {since : ScopeId} {s : Store}

/-- What nothing names can go. -/
theorem erase (h : Sound since s) {r : Ref} (hr : s.refersTo r = false) :
    Sound since (s.erase r) := by
  obtain ⟨hscopes, hinstances⟩ := Store.refersTo_eq_false_iff.mp hr
  refine ⟨fun {id scope} hscope => ?_, fun {id i} hi => ?_⟩
  · have hbefore := (s.shrinks_erase r).scope hscope
    refine (h.scope hbefore).continues (.erase s r) fun r' hr' => ?_
    refine Store.has_erase.mpr ⟨(h.scope hbefore).has hr', fun heq => ?_⟩
    exact hscopes id scope hbefore (heq ▸ hr')
  · have hbefore : s.instance? id = some i := by
      rw [Store.instance?_erase] at hi
      split at hi
      · cases hi
      · exact hi
    refine (h.instances hbefore).continues (.erase s r) fun r' hr' => ?_
    refine Store.has_erase.mpr ⟨(h.instances hbefore).has hr', fun heq => ?_⟩
    exact hinstances id i hbefore (heq ▸ hr')

theorem release (h : Sound since s) (held refs : List Ref) : Sound since (s.release held refs) := by
  refine Store.release_induction (P := Sound since) (fun hs hreclaimed => ?_) refs h
  obtain ⟨-, hnamed, rfl⟩ := Store.reclaim?_eq_some hreclaimed
  exact hs.erase hnamed

/-- A new scope stands if its kind is true. -/
theorem add (h : Sound since s) {kind : ScopeKind} {parent outer root : Option ScopeId}
    (hkind : KindStands since (s.add (Scope.fresh kind parent outer root)).2 s.next
      (Scope.fresh kind parent outer root)) :
    Sound since (s.add (Scope.fresh kind parent outer root)).2 := by
  have hgrows := Grows.add s (Scope.fresh kind parent outer root)
  refine ⟨fun {id scope} hscope => ?_, fun {id i} hi => (h.instances hi).grows hgrows⟩
  rw [Store.scope?_add] at hscope
  split at hscope
  · rename_i hid
    cases hscope
    exact ⟨hid ▸ hkind, fun entry hentry => by cases hentry⟩
  · exact (h.scope hscope).grows hgrows

theorem declare (h : Sound since s) {id : ScopeId} {name : String} {b : Binding} {w : Written}
    (hb : Lives since s b.value) (hw : s.declare id name b = .ok w) : Sound since w.store := by
  have hgrows := Grows.declare hw
  rcases Store.declare_eq_ok hw with hsame | ⟨scope, hscope, -, hset⟩
  · rw [hsame]
    exact h
  · rw [hset] at hgrows ⊢
    refine ⟨fun {i after} hafter => ?_, fun {i j} hj => (h.instances hj).grows hgrows⟩
    rw [Store.scope?_setScope] at hafter
    split at hafter
    · rename_i hi
      rw [hscope] at hafter
      cases hafter
      have hstands := (h.scope hscope).grows hgrows
      refine ⟨hi ▸ hstands.kind, fun entry hentry => ?_⟩
      rcases Bindings.mem_put hentry with rfl | hold
      · exact hb.grows hgrows
      · exact hstands.bindings entry hold
    · exact (h.scope hafter).grows hgrows

/-- A scope made in another one stands if its kind is true. -/
theorem child (h : Sound since s) (above : ScopeId) {kind : ScopeKind}
    (hkind : ∀ id scope, scope.kind = kind → KindStands since (s.child above kind).2 id scope) :
    Sound since (s.child above kind).2 := by
  obtain ⟨parent, outer, root, hchild⟩ := s.child_eq_add above kind
  rw [hchild] at hkind ⊢
  exact h.add (hkind _ _ rfl)

/-- A new instance is the one under its number, and its fields are made
in the scope of its blueprint. -/
theorem addObject (h : Sound since s) {b : Blueprint} (hb : Lives since s (.blueprint b)) :
    Sound since (s.addObject b).2 ∧
      Lives since (s.addObject b).2 (.object (s.addObject b).1) := by
  have hgrows := Grows.addObject s b
  obtain ⟨above, habove⟩ := Stands.has hb
  obtain ⟨fields, hkind, hparent, hempty, hscopes, hinstances, hnext⟩ :=
    Store.addObject_spec habove
  have hi : (s.addObject b).2.instance? s.next = some ⟨s.next, b, s.next + 1⟩ := by
    rw [hinstances, if_pos rfl]
  refine ⟨⟨fun {id scope} hscope => ?_, fun {id j} hj => ?_⟩, hi⟩
  · rw [hscopes] at hscope
    split at hscope
    · cases hscope
      refine ⟨?_, fun entry hentry => by rw [hempty] at hentry; cases hentry⟩
      unfold KindStands
      rw [hkind]
      refine ⟨by rw [hnext]; simp, fun j hj => ?_⟩
      rw [hi] at hj
      exact (Option.some.inj hj).symm
    · exact (h.scope hscope).grows hgrows
  · rw [hinstances] at hj
    split at hj
    · rename_i hid
      cases hj
      refine ⟨hid.symm, hb.grows hgrows, fields, ?_, hkind, hparent⟩
      rw [hscopes, if_pos rfl]
    · exact (h.instances hj).grows hgrows

/-- Copied values live, and so does every step of the copying. -/
theorem declareAll {id : ScopeId} {bs : Bindings} {w : Written} (fault : Option Fault)
    (h : Sound since w.store) (hbs : ∀ entry ∈ bs, Lives since w.store entry.2.value) :
    Sound since (Store.declareAll id bs w fault).1.store ∧
      Grows w.store (Store.declareAll id bs w fault).1.store := by
  induction bs generalizing w fault with
  | nil => exact ⟨h, .refl _⟩
  | cons first rest ih =>
    obtain ⟨name, b⟩ := first
    have hrest : ∀ entry ∈ rest, Lives since w.store entry.2.value := fun entry hentry =>
      hbs entry (List.mem_cons_of_mem _ hentry)
    rw [Store.declareAll]
    cases hw : w.store.declare id name b with
    | error f => exact ih _ h hrest
    | ok w' =>
      have hgrows := Grows.declare hw
      have hfirst := h.declare (hbs (name, b) (List.mem_cons_self ..)) hw
      obtain ⟨hsound, hmore⟩ := @ih ⟨w'.store, w.freed ++ w'.freed⟩ fault hfirst
        fun entry hentry => (hrest entry hentry).grows hgrows
      exact ⟨hsound, hgrows.trans hmore⟩

theorem copyBindings (h : Sound since s) (target source : ScopeId) :
    Sound since (s.copyBindings target source).1.store ∧
      Grows s (s.copyBindings target source).1.store := by
  refine declareAll none (w := ⟨s, []⟩) h fun entry hentry => ?_
  cases hscope : s.scope? source with
  | none => simp [hscope] at hentry
  | some scope =>
    rw [hscope] at hentry
    exact (h.scope hscope).bindings entry hentry

theorem spawn (h : Sound since s) {b : Blueprint} (hb : Lives since s (.blueprint b)) :
    Sound since (s.spawn b).2 ∧ Grows s (s.spawn b).2 ∧
      Lives since (s.spawn b).2 (.object (s.spawn b).1) := by
  obtain ⟨hmade, hlives⟩ := h.addObject hb
  obtain ⟨hfilled, hgrows⟩ := hmade.copyBindings (s.addObject b).1.fields b.scope
  exact ⟨hfilled, (Grows.addObject s b).trans hgrows, hlives.grows hgrows⟩

/-! #### What a look at the store gives -/

/-- The value with which a live scope answers a name lives. -/
theorem answer (h : Sound since s) {id : ScopeId} {scope : Scope} {name : String} {v : Value}
    (hscope : s.scope? id = some scope) (hv : s.answer? name scope = some v) :
    Lives since s v := by
  unfold Store.answer? at hv
  split at hv
  · rename_i b hb
    cases hv
    exact (h.scope hscope).bindings (name, b) (Scope.mem_of_binding? hb)
  · split at hv
    · rename_i owner hkind
      split at hv
      · rename_i hself
        cases hv
        have hstands := (h.scope hscope).kind
        unfold KindStands at hstands
        rw [hkind] at hstands
        -- The instance is alive, and no other one goes by its number.
        have halive : s.instances.contains owner.id = true := hself.2
        rw [Std.TreeMap.contains_eq_isSome_getElem?] at halive
        obtain ⟨i, hi⟩ := Option.isSome_iff_exists.mp halive
        have hi' : s.instance? owner.id = some i := hi
        rw [hstands.2 i hi'] at hi'
        exact hi'
      · cases hv
    · cases hv

end Sound

/-- Nothing that lives names a frame that is not older than `since`. -/
theorem Stands.isFrame {since : ScopeId} {s : Store} {id : ScopeId} {scope : Scope}
    {kind : ScopeKind} (h : Stands since s id kind) (hid : since ≤ id)
    (hscope : s.scope? id = some scope) : scope.kind.isFrame = kind.isFrame := by
  obtain ⟨found, hfound, hkind⟩ := h
  rw [hscope] at hfound
  cases hfound
  rw [hkind hid]

theorem Lives.not_frame {since : ScopeId} {s : Store} {v : Value} (h : Lives since s v)
    {id : ScopeId} {scope : Scope} (hmem : .scope id ∈ v.refs) (hid : since ≤ id)
    (hscope : s.scope? id = some scope) : scope.kind.isFrame = false := by
  cases v with
  | blueprint b =>
    cases List.mem_singleton.mp hmem
    exact Stands.isFrame h hid hscope
  | object i => cases List.mem_singleton.mp hmem
  | toolkit t =>
    simp only [Value.refs, List.mem_cons, List.not_mem_nil, or_false] at hmem
    rcases hmem with heq | heq
    · cases heq
      exact h.1.isFrame hid hscope
    · cases heq
      exact h.2.isFrame hid hscope
  | bridge b =>
    cases List.mem_singleton.mp hmem
    exact Stands.isFrame h hid hscope
  | _ => cases hmem

section
variable {since : ScopeId} {s : Store} {id : ScopeId} {frame : Scope}

theorem ScopeStands.not_frame {i : ScopeId} {scope : Scope} (h : ScopeStands since s i scope)
    (hmem : .scope id ∈ scope.refs) (hid : since ≤ id) (hframe : s.scope? id = some frame) :
    frame.kind.isFrame = false := by
  rcases List.mem_append.mp hmem with hexports | hbound
  · have hkind := h.kind
    unfold KindStands at hkind
    unfold ScopeKind.refs at hexports
    split at hexports
    · rename_i exports htoolkit
      rw [htoolkit] at hkind
      cases List.mem_singleton.mp hexports
      exact Stands.isFrame hkind hid hframe
    · cases hexports
  · obtain ⟨entry, hentry, hvalue⟩ := List.mem_flatMap.mp hbound
    exact (h.bindings entry hentry).not_frame hvalue hid hframe

theorem InstanceStands.not_frame {n : InstanceId} {i : Instance} (h : InstanceStands since s n i)
    (hmem : .scope id ∈ i.refs) (hid : since ≤ id) (hframe : s.scope? id = some frame) :
    frame.kind.isFrame = false := by
  simp only [Instance.refs, List.mem_cons, List.not_mem_nil, or_false] at hmem
  rcases hmem with heq | heq
  · cases heq
    obtain ⟨fields, hfields, hkind, -⟩ := h.fields
    rw [hframe] at hfields
    cases hfields
    rw [hkind]
    rfl
  · cases heq
    exact Stands.isFrame h.blueprint hid hframe

/-- So nothing but those who run in it keep a frame. -/
theorem Sound.refersTo_frame (h : Sound since s) (hid : since ≤ id)
    (hframe : s.scope? id = some frame) (hkind : frame.kind.isFrame = true) :
    s.refersTo (.scope id) = false := by
  refine Store.refersTo_eq_false_iff.mpr ⟨fun i scope hscope hmem => ?_, fun n i hi hmem => ?_⟩
  · have hfalse := (h.scope hscope).not_frame hmem hid hframe
    rw [hkind] at hfalse
    cases hfalse
  · have hfalse := (h.instances hi).not_frame hmem hid hframe
    rw [hkind] at hfalse
    cases hfalse

end

/-! ### What is let go and what is not -/

/-- What is held is not let go. -/
theorem has_release {s : Store} {held : List Ref} (refs : List Ref) {r : Ref} (hr : r ∈ held)
    (hhas : s.Has r) : (s.release held refs).Has r := by
  refine Store.release_induction (P := fun t => t.Has r) (fun ht hreclaimed => ?_) refs hhas
  obtain ⟨hheld, -, rfl⟩ := Store.reclaim?_eq_some hreclaimed
  exact Store.has_erase.mpr ⟨ht, fun heq => hheld (heq ▸ hr)⟩

/-- A scope that is held stays as it is. -/
theorem scope?_release_of_held {s : Store} {held : List Ref} (refs : List Ref) {id : ScopeId}
    {scope : Scope} (hheld : .scope id ∈ held) (hscope : s.scope? id = some scope) :
    (s.release held refs).scope? id = some scope := by
  obtain ⟨after, hafter⟩ := has_release refs hheld ⟨scope, hscope⟩
  have hbefore := (s.shrinks_release held refs).scope hafter
  rw [hscope] at hbefore
  cases hbefore
  exact hafter

theorem refsOf?_eq_none {s : Store} {r : Ref} (h : s.refsOf? r = none) : ¬ s.Has r := by
  intro hhas
  cases r with
  | scope id =>
    obtain ⟨scope, hscope⟩ := hhas
    simp [Store.refsOf?, hscope] at h
  | «instance» id =>
    obtain ⟨i, hi⟩ := hhas
    have hi' : s.instances[id]? = some i := hi
    simp [Store.refsOf?, hi'] at h

/-- What is let go and neither held nor named by anything is gone. -/
theorem not_has_release {s : Store} {held : List Ref} {r : Ref} (hheld : r ∉ held)
    (hnamed : s.refersTo r = false) : ¬ (s.release held [r]).Has r := by
  have hgone : ∀ {t u : Store} {inner : List Ref} {r' : Ref}, ¬ t.Has r →
      t.reclaim? held r' = some (inner, u) → ¬ u.Has r := by
    intro t u inner r' ht hreclaimed
    obtain ⟨-, -, rfl⟩ := Store.reclaim?_eq_some hreclaimed
    exact fun hu => ht (Store.has_erase.mp hu).1
  rw [Store.release_singleton]
  cases hreclaimed : s.reclaim? held r with
  | none =>
    -- The only reason left not to take it out is that it is not there.
    obtain hnone | hkept := Store.reclaim?_eq_none hreclaimed
    · exact refsOf?_eq_none hnone
    · simp [hheld, hnamed] at hkept
  | some taken =>
    obtain ⟨-, -, htaken⟩ := Store.reclaim?_eq_some hreclaimed
    refine Store.releaseWithin_induction (P := fun t => ¬ t.Has r) hgone _ _ ?_
    rw [htaken, Store.has_erase]
    exact fun hhas => hhas.2 rfl

/-- A store that has lost only what is neither held nor named by
anything that is left. What is left is as it was. -/
structure Remains (held : List Ref) (s t : Store) : Prop where
  scope {id : ScopeId} {scope : Scope} : t.scope? id = some scope → s.scope? id = some scope
  object {id : InstanceId} {i : Instance} : t.instance? id = some i → s.instance? id = some i
  held {r : Ref} : r ∈ held → s.Has r → t.Has r
  named {r : Ref} : t.refersTo r = true → s.Has r → t.Has r

section
variable {held : List Ref} {s t u : Store}

theorem Remains.refl (s : Store) : Remains held s s :=
  ⟨id, id, fun _ => id, fun _ => id⟩

/-- What a part of a store names, the store names. -/
theorem refersTo_of_part
    (hscope : ∀ {id scope}, t.scope? id = some scope → s.scope? id = some scope)
    (hobject : ∀ {id i}, t.instance? id = some i → s.instance? id = some i) {r : Ref}
    (hnamed : t.refersTo r = true) : s.refersTo r = true := by
  cases hfree : s.refersTo r with
  | true => rfl
  | false =>
    obtain ⟨hscopes, hobjects⟩ := Store.refersTo_eq_false_iff.mp hfree
    have hnone : t.refersTo r = false := Store.refersTo_eq_false_iff.mpr
      ⟨fun id scope h => hscopes id scope (hscope h), fun id i h => hobjects id i (hobject h)⟩
    exact hnone.symm.trans hnamed

theorem Remains.trans (h : Remains held s t) (h' : Remains held t u) : Remains held s u where
  scope hu := h.scope (h'.scope hu)
  object hu := h.object (h'.object hu)
  held hr hs := h'.held hr (h.held hr hs)
  named hu hs := h'.named hu (h.named (refersTo_of_part h'.scope h'.object hu) hs)

theorem remains_erase {r : Ref} (hheld : r ∉ held) (hfree : s.refersTo r = false) :
    Remains held s (s.erase r) := by
  have hscope : ∀ {id scope}, (s.erase r).scope? id = some scope → s.scope? id = some scope := by
    intro id scope h
    rw [Store.scope?_erase] at h
    split at h
    · cases h
    · exact h
  have hobject : ∀ {id i}, (s.erase r).instance? id = some i → s.instance? id = some i := by
    intro id i h
    rw [Store.instance?_erase] at h
    split at h
    · cases h
    · exact h
  refine ⟨hscope, hobject, fun hr hs => ?_, fun hnamed hs => ?_⟩
  · exact Store.has_erase.mpr ⟨hs, fun heq => hheld (heq ▸ hr)⟩
  · refine Store.has_erase.mpr ⟨hs, fun heq => ?_⟩
    subst heq
    rw [refersTo_of_part hscope hobject hnamed] at hfree
    cases hfree

theorem Remains.mono {held' : List Ref} (h : Remains held' s t) (hsub : held ⊆ held') :
    Remains held s t :=
  { h with held := fun hr => h.held (hsub hr) }

theorem Remains.release (s : Store) (held refs : List Ref) :
    Remains held s (s.release held refs) := by
  refine Store.release_induction (P := Remains held s) (fun hremains hreclaimed => ?_) refs
    (.refl s)
  obtain ⟨hheld, hfree, rfl⟩ := Store.reclaim?_eq_some hreclaimed
  exact hremains.trans (remains_erase hheld hfree)

end

end Proofs

end Treewalk
