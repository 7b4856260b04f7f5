import Treewalk.Proofs.StoreRegime

/-!
# `Treewalk.Proofs.Vicinity`: the code that can be reached

An evaluation finds what it runs by names. It starts in a scope, goes up
the chain, and goes on into the scopes of the objects that it finds. So
the bodies that calls can run are those in the scopes that can be
reached from the current one, and the bodies that the program declares
on the way. `Store.Reaches` and `Store.HasCode` say what can be reached.

`vicinity near fits` is the regime under which evaluations stay among
the scopes in `near` and the bodies that they come by are in `fits`.
What is garbage, or held by others for themselves, it leaves out.
-/

set_option autoImplicit false

namespace Treewalk

/-! ### What can be reached -/

/-- The scopes that a value gives access to. -/
def Value.scopes : Value → List ScopeId
  | blueprint b => [b.scope]
  | object i => [i.fields, i.blueprint.scope]
  | toolkit t => [t.scope, t.exports]
  | bridge b => [b.scope]
  | _ => []

/-- The bodies that calls of a value can run. -/
def Value.bodies : Value → List (List Node)
  | spec s => [s.body]
  | blueprint b => b.constructor.toList.map Constructor.body
  | object i => i.blueprint.constructor.toList.map Constructor.body
  | _ => []

/-- The scopes that a scope gives access to by its kind. -/
def ScopeKind.scopes : ScopeKind → List ScopeId
  | .instance i => (Value.object i).scopes
  | toolkit e => [e]
  | _ => []

/-- The bodies that a scope gives access to by its kind. -/
def ScopeKind.bodies : ScopeKind → List (List Node)
  | .instance i => (Value.object i).bodies
  | _ => []

/-- The scopes that a scope gives access to: those above it, those of
its kind, and those of the values in it. -/
def Scope.scopes (s : Scope) : List ScopeId :=
  s.links ++ s.kind.scopes ++ s.bindings.flatMap fun entry => entry.2.value.scopes

/-- The bodies that a scope gives access to. -/
def Scope.bodies (s : Scope) : List (List Node) :=
  s.kind.bodies ++ s.bindings.flatMap fun entry => entry.2.value.bodies

/-- The scopes that can be reached from one, dead ones among them. -/
inductive Store.Reaches (s : Store) (start : ScopeId) : ScopeId → Prop where
  | start : Reaches s start start
  | step {id next : ScopeId} {scope : Scope} : Reaches s start id → s.scope? id = some scope →
      next ∈ scope.scopes → Reaches s start next

/-- The bodies of specs, methods and constructors that can be reached
from a scope. -/
def Store.HasCode (s : Store) (start : ScopeId) (body : List Node) : Prop :=
  ∃ id scope, s.Reaches start id ∧ s.scope? id = some scope ∧ body ∈ scope.bodies

namespace Proofs

/-! ### The regime -/

section
variable (near : ScopeId → Prop) (fits : List Node → Prop)

/-- A value that leads to nothing but what is near and fits. -/
structure ValueIn (v : Value) : Prop where
  scopes : ∀ id ∈ v.scopes, near id
  bodies : ∀ body ∈ v.bodies, fits body

/-- A kind of scope that leads to nothing but what is near and fits. -/
structure KindIn (kind : ScopeKind) : Prop where
  scopes : ∀ id ∈ kind.scopes, near id
  bodies : ∀ body ∈ kind.bodies, fits body

/-- A scope that leads to nothing but what is near and fits. -/
structure ScopeIn (scope : Scope) : Prop where
  links : ∀ id ∈ scope.links, near id
  kind : KindIn near fits scope.kind
  values : ∀ entry ∈ scope.bindings, ValueIn near fits entry.2.value

end

variable {near : ScopeId → Prop} {fits : List Node → Prop}

theorem ValueIn.of_nil {v : Value} (hscopes : v.scopes = []) (hbodies : v.bodies = []) :
    ValueIn near fits v where
  scopes id hid := by
    rw [hscopes] at hid
    cases hid
  bodies body hbody := by
    rw [hbodies] at hbody
    cases hbody

/-- Data leads nowhere. -/
theorem ValueIn.of_data {v : Value} (hv : v.isReference = false) : ValueIn near fits v := by
  cases v <;> first | exact .of_nil rfl rfl | cases hv

theorem KindIn.of_nil {kind : ScopeKind} (hscopes : kind.scopes = []) (hbodies : kind.bodies = []) :
    KindIn near fits kind where
  scopes id hid := by
    rw [hscopes] at hid
    cases hid
  bodies body hbody := by
    rw [hbodies] at hbody
    cases hbody

theorem ScopeIn.of_mem {scope : Scope} (hscopes : ∀ id ∈ scope.scopes, near id)
    (hbodies : ∀ body ∈ scope.bodies, fits body) : ScopeIn near fits scope := by
  simp only [Scope.scopes, Scope.bodies, List.forall_mem_append, List.forall_mem_flatMap]
    at hscopes hbodies
  obtain ⟨⟨hlinks, hkind⟩, hvalues⟩ := hscopes
  exact ⟨hlinks, ⟨hkind, hbodies.1⟩, fun entry hentry =>
    ⟨hvalues entry hentry, hbodies.2 entry hentry⟩⟩

/-- A new scope binds nothing yet. -/
theorem ScopeIn.fresh {kind : ScopeKind} {parent outer root : Option ScopeId}
    (hlinks : ∀ id ∈ parent.toList ++ outer.toList ++ root.toList, near id)
    (hkind : KindIn near fits kind) : ScopeIn near fits (Scope.fresh kind parent outer root) :=
  ⟨hlinks, hkind, fun _ hentry => by cases hentry⟩

theorem ScopeIn.bind {scope : Scope} (h : ScopeIn near fits scope) (name : String) {b : Binding}
    (hb : ValueIn near fits b.value) : ScopeIn near fits (scope.bind name b) := by
  refine ⟨h.links, h.kind, fun entry hentry => ?_⟩
  rcases Bindings.mem_put hentry with rfl | hold
  · exact hb
  · exact h.values entry hold

/-- Every scope that is near leads to nothing but what is near and
fits. -/
def Closed (near : ScopeId → Prop) (fits : List Node → Prop) (s : Store) : Prop :=
  Everywhere (fun _ id scope => near id → ScopeIn near fits scope) s

theorem scopeIn_stable : Stable fun _ id scope => near id → ScopeIn near fits scope :=
  fun _ _ _ _ _ h => h

namespace Closed

variable {s t : Store}

theorem of_shrinks (h : Closed near fits s) (hshrinks : s.Shrinks t) : Closed near fits t :=
  Everywhere.of_shrinks scopeIn_stable h hshrinks

theorem add (h : Closed near fits s) {scope : Scope} (hscope : ScopeIn near fits scope) :
    Closed near fits (s.add scope).2 :=
  Everywhere.add scopeIn_stable h fun _ => hscope

/-- The links of a new scope are the one it is made in, and links of
that one. -/
theorem child (h : Closed near fits s) {above : ScopeId} {kind : ScopeKind} (habove : near above)
    (hkind : KindIn near fits kind) : Closed near fits (s.child above kind).2 := by
  have hlinks : ∀ scope, (s.child above kind).2.scope? s.next = some scope →
      ∀ id ∈ scope.links, near id := by
    intro scope hscope id hid
    rcases Store.mem_links_child hscope id hid with rfl | ⟨x, hx, hid⟩
    · exact habove
    · exact (h above x hx habove).links id hid
  obtain ⟨parent, outer, root, hchild⟩ := s.child_eq_add above kind
  rw [hchild] at hlinks ⊢
  have hfound := s.scope?_add (Scope.fresh kind parent outer root) s.next
  rw [if_pos rfl] at hfound
  exact h.add (.fresh (hlinks _ hfound) hkind)

theorem declare (h : Closed near fits s) {id : ScopeId} {name : String} {b : Binding} {w : Written}
    (hb : ValueIn near fits b.value) (hw : s.declare id name b = .ok w) :
    Closed near fits w.store :=
  Everywhere.declare scopeIn_stable h hw fun _ _ hin hid => (hin hid).bind name hb

end Closed

/-- The regime under which evaluations stay near and come by fitting
code only. From the number `first` on all scopes are new. -/
def vicinity (near : ScopeId → Prop) (fits : List Node → Prop) (first : ScopeId) :
    StoreRegime where
  Inv s := first ≤ s.next ∧ Closed near fits s
  Step s t := s.next ≤ t.next
  Good _ i :=
    match i with
    | .value v => ValueIn near fits v
    | .scope id => near id
    | .made id _ => near id
    | .exports id => near id
    | .code body => fits body
    | .exit _ => True
  Seen := near
  refl _ := Nat.le_refl _
  trans := Nat.le_trans
  good_step _ hi := hi

section
variable {first : ScopeId} {s t : Store}

theorem vicinity_moved (hinv : (vicinity near fits first).Inv s) (hclosed : Closed near fits t)
    (hnext : s.next ≤ t.next) : (vicinity near fits first).Moved s t :=
  ⟨⟨Nat.le_trans hinv.1 hnext, hclosed⟩, hnext⟩

theorem vicinity_declare (hinv : (vicinity near fits first).Inv s) {id : ScopeId} {name : String}
    {b : Binding} {w : Written} (hb : ValueIn near fits b.value)
    (hw : s.declare id name b = .ok w) : (vicinity near fits first).Moved s w.store :=
  vicinity_moved hinv (hinv.2.declare hb hw) (Nat.le_of_eq (Store.next_declare hw).symm)

/-- A new scope is near, and its kind fits if what it exports to is
near. -/
theorem vicinity_child (hnew : ∀ id, first ≤ id → near id)
    (hinv : (vicinity near fits first).Inv s) {above : ScopeId} {kind : ScopeKind}
    (habove : near above) (hkind : KindIn near fits kind) :
    (vicinity near fits first).Moved s (s.child above kind).2 ∧ near s.next := by
  refine ⟨vicinity_moved hinv (hinv.2.child habove hkind) ?_, hnew _ hinv.1⟩
  obtain ⟨parent, outer, root, hchild⟩ := s.child_eq_add above kind
  rw [hchild]
  exact Nat.le_succ _

theorem kindIn_of_canMake {ts : List Item} {kind : ScopeKind}
    (hts : ∀ i ∈ ts, (vicinity near fits first).Good s i) (hkind : CanMake ts kind) :
    KindIn near fits kind := by
  cases kind with
  | «instance» i => exact hkind.elim
  | toolkit e =>
    refine ⟨fun id hid => ?_, fun _ hbody => by cases hbody⟩
    rw [List.mem_singleton.mp hid]
    exact hts _ hkind
  | _ => exact .of_nil rfl rfl

theorem goodValue_scopes {ts : List Item} (hts : ∀ i ∈ ts, (vicinity near fits first).Good s i)
    {v : Value} (hv : .value v ∈ ts) : ∀ id ∈ v.scopes, near id :=
  (show ValueIn near fits v from hts _ hv).scopes

/-- What can be read is near. -/
theorem vicinity_seen {ts : List Item} (hts : ∀ i ∈ ts, (vicinity near fits first).Good s i)
    {id : ScopeId} (hid : Readable ts id) : near id := by
  cases hid with
  | scope hm => exact hts _ hm
  | fields hm => exact goodValue_scopes hts hm _ (by simp [Value.scopes])
  | declared hm => exact goodValue_scopes hts hm _ (by simp [Value.scopes])
  | blueprint hm => exact goodValue_scopes hts hm _ (by simp [Value.scopes])
  | exports hm => exact goodValue_scopes hts hm _ (by simp [Value.scopes])

theorem vicinity_laws (hnew : ∀ id, first ≤ id → near id) :
    (vicinity near fits first).Laws where
  data hv := .of_data hv
  spec hcode := ⟨fun _ hid => (by cases hid), List.forall_mem_singleton.mpr hcode⟩
  blueprint _ _ _ hmade hcode := by
    refine ⟨List.forall_mem_singleton.mpr hmade, fun body hbody => ?_⟩
    obtain ⟨k, hk, rfl⟩ := List.mem_map.mp hbody
    exact hcode k (Option.mem_toList.mp hk)
  toolkit _ _ _ hexports hmade :=
    ⟨List.forall_mem_cons.mpr ⟨hmade, List.forall_mem_singleton.mpr hexports⟩,
      fun _ hbody => by cases hbody⟩
  bridge _ _ hmade := ⟨List.forall_mem_singleton.mpr hmade, fun _ hbody => by cases hbody⟩
  exit _ := trivial
  seen _ hts hid := vicinity_seen hts hid
  above hinv hid hscope habove :=
    (hinv.2 _ _ hscope hid).links _ (List.mem_of_find?_eq_some habove)
  bound hinv hid hscope hentry := (hinv.2 _ _ hscope hid).values _ hentry
  owner {s id scope i} hinv hid hscope hkind := by
    have hin := (hinv.2 _ _ hscope hid).kind
    rw [hkind] at hin
    exact ⟨hin.scopes, hin.bodies⟩
  release {s} held refs hinv := by
    have hshrinks := s.shrinks_release held refs
    exact vicinity_moved hinv (hinv.2.of_shrinks hshrinks) (Nat.le_of_eq hshrinks.next.symm)
  declare hinv _ _ hb hw := vicinity_declare hinv hb hw
  assign {_ _ _ v _} hinv _ hv hw := vicinity_declare (b := .ofValue v) hinv hv hw
  newExports {s} hinv := by
    have hfresh : ScopeIn near fits (Scope.top .exports) :=
      .fresh (fun _ hid => by cases hid) (.of_nil rfl rfl)
    exact ⟨vicinity_moved hinv (hinv.2.add hfresh) (Nat.le_succ _), hnew _ hinv.1⟩
  newChild {_ ts above _} hinv hts habove hkind := by
    have hin : near above := vicinity_seen hts habove.readable
    obtain ⟨hmoved, hnear⟩ := vicinity_child hnew hinv hin (kindIn_of_canMake hts hkind)
    exact ⟨hmoved, hnear, hnear⟩
  newObject {s b} hinv hb := by
    have hin : ValueIn near fits (.blueprint b) := hb
    have hscope : near b.scope := hin.scopes _ (List.mem_singleton_self _)
    have hfields : near (s.next + 1) := hnew _ (Nat.le_succ_of_le hinv.1)
    have hobject : ValueIn near fits (.object (s.addObject b).1) :=
      ⟨List.forall_mem_cons.mpr ⟨hfields, List.forall_mem_singleton.mpr hscope⟩, hin.bodies⟩
    have hadded : (vicinity near fits first).Moved s (s.addInstance fun id => ⟨id, b, id + 1⟩).2 :=
      vicinity_moved hinv hinv.2 (Nat.le_succ _)
    have hkind : KindIn near fits (.instance (s.addObject b).1) :=
      ⟨hobject.scopes, hobject.bodies⟩
    obtain ⟨hmoved, -⟩ := vicinity_child hnew hadded.inv hscope hkind
    exact ⟨⟨hmoved.inv, Nat.le_trans hadded.step hmoved.step⟩, hobject⟩

theorem vicinity_exportLaws : (vicinity near fits first).ExportLaws where
  exports {s id e scope} hinv hid hscope hkind := by
    have hin := (hinv.2 _ _ hscope hid).kind.scopes
    rw [hkind] at hin
    exact hin _ (List.mem_singleton_self _)
  exportIn {_ _ _ v _} hinv _ hv hw := vicinity_declare (b := .ofValue v) hinv hv hw

end

/-- What can be reached is closed, and so it is with all scopes that
there are not yet. -/
theorem closed_reaches (s : Store) (start : ScopeId) :
    Closed (fun id => s.Reaches start id ∨ s.next ≤ id) (s.HasCode start) s := by
  intro id scope hscope hid
  have hreached : s.Reaches start id :=
    hid.resolve_right (Nat.not_le_of_lt (Store.lt_next hscope))
  exact .of_mem (fun next hnext => .inl (.step hreached hscope hnext))
    fun body hbody => ⟨id, scope, hreached, hscope, hbody⟩

end Proofs

end Treewalk
