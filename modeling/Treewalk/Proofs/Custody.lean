import Treewalk.Proofs.Balance
import Treewalk.Proofs.Ownership

/-!
# `Treewalk.Proofs.Custody`: whoever uses something holds it

A construct that works in a scope, or with an object, holds it while it
does. `Charge.Ready` says so of the start of an evaluation, and
`Charge.Ended` of its end: what the context holds is alive, the store is
sound, and all frames that are alive belong to constructs that run.

The last point needs no look at what the bodies do. Nothing that lives
names a frame, so when its construct lets it go it is gone, whatever
has been stored elsewhere meanwhile.

A charge says of which scopes and objects this is to be shown, and since
which moment. `Charge.discipline` is the result: all evaluations keep
their charge. By `Charge.watched_keeps` this holds at every moment.
-/

set_option autoImplicit false

namespace Treewalk.Proofs

open Yields (items)

/-! ### Items that are what they are taken for -/

/-- An item that is alive and what it is taken for. -/
def Genuine (since : ScopeId) (s : Store) : Item → Prop
  | .value v => Lives since s v
  | .scope id => s.Has (.scope id)
  | .made id kind => ∃ scope, s.scope? id = some scope ∧ scope.kind = kind
  | .exit _ => True
  | .exports _ => True
  | .code _ => True

section
variable {since : ScopeId} {s t : Store} {i : Item}

theorem Genuine.has (h : Genuine since s i) {r : Ref} (hr : r ∈ i.refs) : s.Has r := by
  cases i with
  | value v => exact Lives.has h hr
  | scope id =>
    rw [List.mem_singleton.mp hr]
    exact h
  | made id kind =>
    obtain ⟨scope, hscope, -⟩ := h
    rw [List.mem_singleton.mp hr]
    exact ⟨scope, hscope⟩
  | exit e => cases hr
  | exports id => cases hr
  | code body => cases hr

theorem Genuine.continues (h : Genuine since s i) (hc : Continues s t)
    (hhas : ∀ r ∈ i.refs, t.Has r) : Genuine since t i := by
  cases i with
  | value v => exact Lives.continues h hc hhas
  | scope id => exact hhas _ (List.mem_singleton_self _)
  | made id kind =>
    obtain ⟨before, hbefore, hkind⟩ := h
    obtain ⟨after, hafter⟩ := hhas _ (List.mem_singleton_self _)
    exact ⟨after, hafter, (hc.shape hbefore hafter).kind.trans hkind⟩
  | exit e => trivial
  | exports id => trivial
  | code body => trivial

theorem Genuine.grows (h : Genuine since s i) (hg : Grows s t) : Genuine since t i :=
  h.continues hg.toContinues fun _ hr => hg.has (h.has hr)

/-- What can be had from genuine items is genuine. -/
theorem Genuine.known {ts : List Item} (hts : ∀ i ∈ ts, Genuine since s i) (hi : Known ts i) :
    Genuine since s i := by
  have hstands : ∀ {id kind}, .made id kind ∈ ts → Stands since s id kind := by
    intro id kind hmade
    obtain ⟨scope, hscope, hkind⟩ := hts _ hmade
    exact ⟨scope, hscope, fun _ => hkind⟩
  cases hi with
  | mem hmem => exact hts i hmem
  | data hv => rename_i v; cases v <;> trivial
  | spec hcode => trivial
  | blueprint name hmade hcode => exact hstands hmade
  | toolkit name hexports hmade => exact ⟨hstands hmade, hstands hexports⟩
  | bridge name hmade => exact hstands hmade

end

/-! ### Charges -/

/-- What is to be shown: of frames that are not older than `since`,
while `held` is held, and for the time after `origin`. -/
structure Charge where
  since : ScopeId
  held : List Ref
  origin : Store

/-- A frame whose enclosing scope is held: for the frame of a method it
is the fields of an instance, which the instance keeps. -/
def Anchored (held : List Ref) (s : Store) (id : ScopeId) (frame : Scope) : Prop :=
  ∃ above, frame.parent = some above ∧ above < id ∧
    match frame.kind with
    | .method => ∃ i, .instance i.id ∈ held ∧ s.instance? i.id = some i ∧ above = i.fields
    | _ => .scope above ∈ held

theorem Anchored.mono {held held' : List Ref} {s : Store} {id : ScopeId} {frame : Scope}
    (h : Anchored held s id frame) (hsub : held ⊆ held') : Anchored held' s id frame := by
  obtain ⟨above, hparent, hlt, hheld⟩ := h
  refine ⟨above, hparent, hlt, ?_⟩
  split at hheld
  · obtain ⟨i, hi, hfound, hfields⟩ := hheld
    exact ⟨i, hsub hi, hfound, hfields⟩
  · exact hsub hheld

theorem Anchored.continues {held : List Ref} {s t : Store} {id : ScopeId} {frame frame' : Scope}
    (h : Anchored held s id frame) (hc : Continues s t) (hshape : SameShape id frame frame')
    (halive : ∀ r ∈ held, t.Has r) : Anchored held t id frame' := by
  obtain ⟨above, hparent, hlt, hheld⟩ := h
  refine ⟨above, hshape.parent.trans hparent, hlt, ?_⟩
  rw [hshape.kind]
  split at hheld
  · obtain ⟨i, hi, hfound, hfields⟩ := hheld
    obtain ⟨j, hj⟩ := halive _ hi
    have hsame := hc.instance_eq hfound hj
    exact ⟨i, hi, hsame ▸ hj, hfields⟩
  · exact hheld

namespace Charge

/-- A store in which the charge is kept by those who hold `held`. -/
structure Upheld (k : Charge) (held : List Ref) (s : Store) : Prop where
  sound : Sound k.since s
  since : k.since ≤ s.next
  continues : Continues k.origin s
  charged : k.held ⊆ held
  alive : ∀ r ∈ held, s.Has r
  frames {id : ScopeId} {frame : Scope} : s.scope? id = some frame → frame.kind.isFrame = true →
    k.since ≤ id → .scope id ∈ held ∧ Anchored held s id frame

/-- The start of an evaluation. Its scope is held, and so is what it
keeps, and what is loose is alive for now. -/
structure Ready (k : Charge) (kept loose : List Item) (c : Context) (m : Machine) : Prop where
  upheld : k.Upheld c.held m.store
  scope : .scope c.scope ∈ c.held
  kept : ∀ i ∈ kept, Genuine k.since m.store i ∧ i.refs ⊆ c.held
  loose : ∀ i ∈ loose, Genuine k.since m.store i

/-- The end of an evaluation. What it brings is alive for now. -/
structure Ended (k : Charge) {α : Type} [Yields α] (c : Context) (m : Machine) (r : Except Exit α)
    (m' : Machine) : Prop where
  upheld : k.Upheld c.held m'.store
  continues : Continues m.store m'.store
  brings : ∀ i ∈ items r, Genuine k.since m'.store i

/-- Two evaluations that are the same where the charge is kept, and that
keep it. -/
def Keeps (k : Charge) : Custom := fun _ _ kept loose x y =>
  ∀ c m, k.Ready kept loose c m →
    x c m = y c m ∧ ∀ r m', y c m = some (r, m') → k.Ended c m r m'

variable {k : Charge}

/-- The charge is kept in a later store that is sound, in which all that
is held is still alive, and where no frame is new. -/
theorem Upheld.moved {held : List Ref} {s t : Store} (h : k.Upheld held s)
    (hsound : Sound k.since t) (hc : Continues s t) (halive : ∀ r ∈ held, t.Has r)
    (hframes : ∀ id frame, t.scope? id = some frame → frame.kind.isFrame = true →
      k.since ≤ id → s.Has (.scope id)) : k.Upheld held t where
  sound := hsound
  since := Nat.le_trans h.since hc.scopes.next
  continues := h.continues.trans hc
  charged := h.charged
  alive := halive
  frames {id frame} hframe hkind hid := by
    obtain ⟨before, hbefore⟩ := hframes id frame hframe hkind hid
    have hshape := hc.shape hbefore hframe
    obtain ⟨hheld, hanchored⟩ := h.frames hbefore (hshape.kind ▸ hkind) hid
    exact ⟨hheld, hanchored.continues hc hshape halive⟩

/-- As long as no number is given out, no frame is new. -/
theorem Upheld.moved_of_next {held : List Ref} {s t : Store} (h : k.Upheld held s)
    (hsound : Sound k.since t) (hc : Continues s t) (hnext : t.next = s.next)
    (halive : ∀ r ∈ held, t.Has r) : k.Upheld held t := by
  refine h.moved hsound hc halive fun id frame hframe _ _ => ?_
  have hlt := Store.lt_next hframe
  rw [hnext] at hlt
  obtain ⟨before, hbefore, -⟩ := hc.scopes.scope hframe hlt
  exact ⟨before, hbefore⟩

/-- Letting go what is not held keeps the charge. -/
theorem Upheld.release {held : List Ref} {s : Store} (h : k.Upheld held s) {held' : List Ref}
    (hheld : held ⊆ held') (refs : List Ref) : k.Upheld held (s.release held' refs) :=
  h.moved_of_next (h.sound.release held' refs) (.release s held' refs)
    (s.shrinks_release held' refs).next fun r hr => has_release refs (hheld hr) (h.alive r hr)

theorem Ready.genuine {kept loose : List Item} {c : Context} {m : Machine}
    (h : k.Ready kept loose c m) : ∀ i ∈ loose ++ kept, Genuine k.since m.store i := by
  intro i hi
  rcases List.mem_append.mp hi with hi | hi
  · exact h.loose i hi
  · exact (h.kept i hi).1

/-- What was kept still is kept later. -/
theorem Ready.moved {kept loose loose' : List Item} {c : Context} {m m' : Machine}
    (h : k.Ready kept loose c m) (hupheld : k.Upheld c.held m'.store)
    (hc : Continues m.store m'.store) (hloose : ∀ i ∈ loose', Genuine k.since m'.store i) :
    k.Ready kept loose' c m' where
  upheld := hupheld
  scope := h.scope
  kept i hi := by
    obtain ⟨hgenuine, hrefs⟩ := h.kept i hi
    exact ⟨hgenuine.continues hc fun r hr => hupheld.alive r (hrefs hr), hrefs⟩
  loose := hloose

/-- An evaluation that ends as it should keeps its charge. -/
theorem keeps_self {α : Type} [Yields α] {kept loose : List Item} {x : Eval α}
    (h : ∀ c m, k.Ready kept loose c m → ∀ r m', x c m = some (r, m') → k.Ended c m r m') :
    k.Keeps α kept loose x x :=
  fun c m hready => ⟨rfl, h c m hready⟩

/-- The rest of the machine changes as it likes. -/
theorem Ready.ended_of_store_eq {α : Type} [Yields α] {kept loose : List Item} {c : Context}
    {m m' : Machine} {r : Except Exit α} (h : k.Ready kept loose c m)
    (hstore : m'.store = m.store) (hr : ∀ i ∈ items r, Genuine k.since m.store i) :
    k.Ended c m r m' := by
  refine ⟨?_, ?_, ?_⟩
  · rw [hstore]
    exact h.upheld
  · rw [hstore]
    exact .refl _
  · rw [hstore]
    exact hr

/-! ### How evaluations combine -/

section
variable {α β : Type} [Yields α] [Yields β] {kept loose : List Item}

theorem keeps_bind {x y : Eval α} {f g : α → Eval β} (hx : k.Keeps α kept loose x y)
    (hf : ∀ a, k.Keeps β kept (items a) (f a) (g a)) :
    k.Keeps β kept loose (x >>= f) (y >>= g) := by
  intro c m hready
  obtain ⟨heq, hends⟩ := hx c m hready
  show Eval.bind x f c m = Eval.bind y g c m ∧
    ∀ r m', Eval.bind y g c m = some (r, m') → k.Ended c m r m'
  unfold Eval.bind
  rw [heq]
  rcases hy : y c m with _ | ⟨e | a, m₁⟩
  · exact ⟨rfl, fun r m' hr => by cases hr⟩
  -- An exit of the first ends both, with what it brings.
  · have hended := hends _ m₁ hy
    refine ⟨rfl, fun r m' hr => ?_⟩
    cases hr
    exact ⟨hended.upheld, hended.continues, hended.brings⟩
  -- What the first has brought is loose for the second.
  · have hended := hends _ m₁ hy
    obtain ⟨heq', hends'⟩ := hf a c m₁ (hready.moved hended.upheld hended.continues hended.brings)
    refine ⟨heq', fun r m' hr => ?_⟩
    have hlast := hends' r m' hr
    exact ⟨hlast.upheld, hended.continues.trans hlast.continues, hlast.brings⟩

theorem keeps_outcome {x y : Eval α} (hx : k.Keeps α kept loose x y) :
    k.Keeps (Except Exit α) kept loose (Eval.outcome x) (Eval.outcome y) := by
  intro c m hready
  obtain ⟨heq, hends⟩ := hx c m hready
  unfold Eval.outcome
  rw [heq]
  rcases hy : y c m with _ | ⟨r₁, m₁⟩
  · exact ⟨rfl, fun r m' hr => by cases hr⟩
  · have hended := hends r₁ m₁ hy
    refine ⟨rfl, fun r m' hr => ?_⟩
    cases hr
    exact ⟨hended.upheld, hended.continues, hended.brings⟩

theorem keeps_within {id : ScopeId} {x y : Eval α} (hid : .scope id ∈ kept)
    (hx : k.Keeps α kept loose x y) :
    k.Keeps α kept loose (Eval.within id x) (Eval.within id y) := by
  intro c m hready
  have hheld : .scope id ∈ c.held := (hready.kept _ hid).2 (List.mem_singleton_self _)
  obtain ⟨heq, hends⟩ := hx { c with scope := id } m
    ⟨hready.upheld, hheld, hready.kept, hready.loose⟩
  refine ⟨heq, fun r m' hr => ?_⟩
  have hended := hends r m' hr
  exact ⟨hended.upheld, hended.continues, hended.brings⟩

/-- What the outcome of an evaluation keeps alive outlives what was held
for the evaluation. -/
theorem brings_released [Owner α] [Owned α] {r : Except Exit α} {s : Store} {held refs : List Ref}
    (h : ∀ i ∈ items r, Genuine k.since s i) :
    ∀ i ∈ items r, Genuine k.since (s.release (Owner.refs r ++ held) refs) i := by
  intro i hi
  refine (h i hi).continues (.release s _ refs) fun ref href => ?_
  have hheld : ref ∈ Owner.refs r := (Owned.covers r).held i hi href
  exact has_release refs (List.mem_append_left _ hheld) ((h i hi).has href)

/-- With more held, what is kept still is. -/
theorem Ready.holding {us : List Item} {refs : List Ref} {c : Context} {m : Machine}
    (h : k.Ready kept loose c m) (hus : us ⊆ loose ++ kept) (hrefs : Covers refs us) :
    k.Ready (us ++ kept) loose { c with held := refs ++ c.held } m where
  upheld :=
    { h.upheld with
      charged := List.subset_append_of_subset_right _ h.upheld.charged
      alive := fun r hr => by
        rcases List.mem_append.mp hr with hr | hr
        · obtain ⟨i, hi, hmem⟩ := hrefs.only r hr
          exact (h.genuine i (hus hi)).has hmem
        · exact h.upheld.alive r hr
      frames := fun hframe hkind hid => by
        obtain ⟨hheld, hanchored⟩ := h.upheld.frames hframe hkind hid
        exact ⟨List.mem_append_right _ hheld, hanchored.mono (List.subset_append_right ..)⟩ }
  scope := List.mem_append_right _ h.scope
  kept i hi := by
    rcases List.mem_append.mp hi with hi | hi
    · refine ⟨h.genuine i (hus hi), ?_⟩
      exact List.subset_append_of_subset_left _ (hrefs.held i hi)
    · obtain ⟨hgenuine, hheld⟩ := h.kept i hi
      exact ⟨hgenuine, List.subset_append_of_subset_right _ hheld⟩
  loose := h.loose

/-- At the end of a construct what it held is let go. All is well if no
frame is left that was not there at its start. -/
theorem Ready.letGo [Owner α] [Owned α] {c : Context} {m m₁ m₂ : Machine} {refs : List Ref}
    {r : Except Exit α} (h : k.Ready kept loose c m) (hc : Continues m.store m₁.store)
    (hended : k.Ended { c with held := refs ++ c.held } m₁ r m₂)
    (hframes : ∀ id frame, (m₂.store.release (Owner.refs r ++ c.held) refs).scope? id = some frame →
      frame.kind.isFrame = true → k.since ≤ id → m.store.Has (.scope id)) :
    k.Ended c m r (m₂.release (Owner.refs r ++ c.held) refs) := by
  have hlast := (hc.trans hended.continues).trans (.release m₂.store (Owner.refs r ++ c.held) refs)
  refine ⟨h.upheld.moved (hended.upheld.sound.release _ refs) hlast ?_ hframes, hlast,
    brings_released hended.brings⟩
  intro r hr
  refine has_release refs (List.mem_append_right _ hr) ?_
  exact hended.upheld.alive r (List.mem_append_right _ hr)

theorem keeps_holding [Owner α] [Owned α] {us : List Item} {refs : List Ref} {x y : Eval α}
    (hus : us ⊆ loose ++ kept) (hrefs : Covers refs us)
    (hx : k.Keeps α (us ++ kept) loose x y) :
    k.Keeps α kept loose (Eval.holding refs x) (Eval.holding refs y) := by
  intro c m hready
  have hinside := hready.holding hus hrefs
  obtain ⟨heq, hends⟩ := hx _ m hinside
  refine ⟨Eval.holding_congr heq, fun r m' hr => ?_⟩
  obtain ⟨m₂, hy, rfl⟩ := Eval.holding_inv hr
  have hended := hends r m₂ hy
  refine hready.letGo (.refl _) hended fun id frame hframe hkind hid => ?_
  -- A frame that is left was held inside, and so it was there before.
  have hbefore := (m₂.store.shrinks_release (Owner.refs r ++ c.held) refs).scope hframe
  have hheld := (hended.upheld.frames hbefore hkind hid).1
  exact hinside.upheld.alive _ hheld

end

/-! ### What only adds to the store -/

section
variable {kept loose : List Item}

/-- A first step is calm if it only adds to the store, and if what it
gives is genuine. -/
theorem calm_of_grows {α : Type} {us : α → List Item} {x : Eval α}
    (h : ∀ c m, k.Ready kept loose c m → ∃ a m', x c m = some (.ok a, m') ∧
      k.Upheld c.held m'.store ∧ Grows m.store m'.store ∧
        ∀ i ∈ us a, Genuine k.since m'.store i) : Calm k.Keeps kept loose us x x := by
  intro β _ f g hf c m hready
  obtain ⟨a, m₁, hx, hupheld, hgrows, hgives⟩ := h c m hready
  have hloose : ∀ i ∈ us a ++ loose, Genuine k.since m₁.store i := by
    intro i hi
    rcases List.mem_append.mp hi with hi | hi
    · exact hgives i hi
    · exact (hready.loose i hi).grows hgrows
  obtain ⟨heq, hends⟩ := hf a c m₁ (hready.moved hupheld hgrows.toContinues hloose)
  show Eval.bind x f c m = Eval.bind x g c m ∧
    ∀ r m', Eval.bind x g c m = some (r, m') → k.Ended c m r m'
  unfold Eval.bind
  rw [hx]
  refine ⟨heq, fun r m' hr => ?_⟩
  have hlast := hends r m' hr
  exact ⟨hlast.upheld, hgrows.toContinues.trans hlast.continues, hlast.brings⟩

/-- A look at the machine is calm. -/
theorem calm_of_look {α : Type} {us : α → List Item} {x : Eval α}
    (h : ∀ c m, k.Ready kept loose c m → ∃ a m', x c m = some (.ok a, m') ∧
      m'.store = m.store ∧ ∀ i ∈ us a, Genuine k.since m.store i) :
    Calm k.Keeps kept loose us x x := by
  refine calm_of_grows fun c m hready => ?_
  obtain ⟨a, m₁, hx, hstore, hgives⟩ := h c m hready
  refine ⟨a, m₁, hx, ?_⟩
  rw [hstore]
  exact ⟨hready.upheld, .refl _, hgives⟩

theorem keeps_here {β : Type} [Yields β] {f g : ScopeId → Eval β}
    (hf : ∀ id, k.Keeps β (.scope id :: kept) loose (f id) (g id)) :
    k.Keeps β kept loose (Eval.here >>= f) (Eval.here >>= g) := by
  intro c m hready
  refine hf c.scope c m ⟨hready.upheld, hready.scope, fun i hi => ?_, hready.loose⟩
  rcases List.mem_cons.mp hi with rfl | hi
  · exact ⟨hready.upheld.alive _ hready.scope, fun r hr => List.mem_singleton.mp hr ▸ hready.scope⟩
  · exact hready.kept i hi

/-- A new scope that is no frame. -/
theorem Upheld.add {held : List Ref} {s : Store} (h : k.Upheld held s) {scope : Scope}
    (hsound : Sound k.since (s.add scope).2) (hkind : scope.kind.isFrame = false) :
    k.Upheld held (s.add scope).2 := by
  have hgrows := Grows.add s scope
  refine h.moved hsound hgrows.toContinues (fun r hr => hgrows.has (h.alive r hr)) ?_
  intro id frame hframe hisframe _
  rw [Store.scope?_add] at hframe
  split at hframe
  · cases hframe
    rw [hkind] at hisframe
    cases hisframe
  · exact ⟨frame, hframe⟩

theorem calm_newExports : Calm k.Keeps kept loose (fun id => [.made id .exports])
    (Eval.newScope .exports) (Eval.newScope .exports) := by
  refine calm_of_grows fun c m hready => ?_
  have hsound : Sound k.since (m.store.add (Scope.top .exports)).2 :=
    hready.upheld.sound.add fun _ => rfl
  refine ⟨m.store.next, { m with store := (m.store.add (Scope.top .exports)).2 }, rfl,
    hready.upheld.add hsound rfl, .add _ _, fun i hi => ?_⟩
  rw [List.mem_singleton.mp hi]
  exact ⟨Scope.top .exports, by rw [Store.scope?_add, if_pos rfl], rfl⟩

theorem calm_newPart (above : ScopeId) {kind : ScopeKind}
    (hpart : PartKind (loose ++ kept) kind) :
    Calm k.Keeps kept loose (fun id => [.scope id, .made id kind]) (Eval.newChild above kind)
      (Eval.newChild above kind) := by
  refine calm_of_grows fun c m hready => ?_
  have hgrows := Grows.child m.store above kind
  have hsound : Sound k.since (m.store.child above kind).2 := by
    refine hready.upheld.sound.child above fun id scope hkind => ?_
    unfold KindStands
    rw [hkind]
    cases hpart with
    | blueprint => trivial
    | bridge => trivial
    | toolkit hexports =>
      obtain ⟨exports, hfound, hkind⟩ := (hready.genuine _ hexports).grows hgrows
      exact ⟨exports, hfound, fun _ => hkind⟩
  refine ⟨m.store.next, { m with store := (m.store.child above kind).2 }, ?_⟩
  have hfst := m.store.child_fst above kind
  obtain ⟨parent, outer, root, hchild⟩ := m.store.child_eq_add above kind
  have hmade : Genuine k.since (m.store.child above kind).2 (.made m.store.next kind) := by
    rw [hchild]
    exact ⟨_, by rw [Store.scope?_add, if_pos rfl], rfl⟩
  have hupheld : k.Upheld c.held (m.store.child above kind).2 := by
    rw [hchild] at hsound ⊢
    exact hready.upheld.add hsound (by cases hpart <;> rfl)
  refine ⟨congrArg (fun id => some (Except.ok id, _)) hfst, hupheld, hgrows, fun i hi => ?_⟩
  simp only [List.mem_cons, List.not_mem_nil, or_false] at hi
  rcases hi with rfl | rfl
  · exact hmade.has (List.mem_singleton_self _)
  · exact hmade

theorem keeps_newInstance {b : Blueprint} (hb : .value (.blueprint b) ∈ loose ++ kept) :
    k.Keeps Instance kept loose (Evaluator.newInstance b) (Evaluator.newInstance b) := by
  refine keeps_self fun c m hready r m' hr => ?_
  cases hr
  have hlives : Lives k.since m.store (.blueprint b) := hready.genuine _ hb
  obtain ⟨above, habove⟩ := Stands.has hlives
  obtain ⟨fields, hkind, -, -, hscopes, -, -⟩ := Store.addObject_spec habove
  -- The fields are no frame, and copying the bindings makes no scope.
  have hmade : k.Upheld c.held (m.store.addObject b).2 := by
    have hgrows := Grows.addObject m.store b
    refine hready.upheld.moved (hready.upheld.sound.addObject hlives).1 hgrows.toContinues
      (fun r hr => hgrows.has (hready.upheld.alive r hr)) fun id frame hframe hisframe _ => ?_
    rw [hscopes] at hframe
    split at hframe
    · cases hframe
      rw [hkind] at hisframe
      cases hisframe
    · exact ⟨frame, hframe⟩
  obtain ⟨hsound, hgrows⟩ := hmade.sound.copyBindings (m.store.addObject b).1.fields b.scope
  obtain ⟨-, hspawned, hobject⟩ := hready.upheld.sound.spawn hlives
  refine ⟨?_, hspawned.toContinues, fun i hi => ?_⟩
  · exact hmade.moved_of_next hsound hgrows.toContinues (Store.next_copyBindings ..)
      fun r hr => hgrows.has (hmade.alive r hr)
  · rw [List.mem_singleton.mp hi]
    exact hobject

theorem calm_lookup? (name : String) :
    Calm k.Keeps kept loose items (Eval.lookup? name) (Eval.lookup? name) := by
  refine calm_of_look fun c m hready => ⟨_, _, rfl, rfl, fun i hi => ?_⟩
  obtain ⟨v, hv, rfl⟩ := List.mem_map.mp hi
  obtain ⟨id, scope, hscope, hanswer⟩ := Store.exists_of_search (Option.mem_toList.mp hv)
  exact hready.upheld.sound.answer hscope hanswer

theorem calm_getLocal? {id : ScopeId} (name : String) :
    Calm k.Keeps kept loose items (Eval.getLocal? id name) (Eval.getLocal? id name) := by
  refine calm_of_look fun c m hready => ⟨_, _, rfl, rfl, fun i hi => ?_⟩
  obtain ⟨v, hv, rfl⟩ := List.mem_map.mp hi
  obtain ⟨scope, hscope, hanswer⟩ := Option.bind_eq_some_iff.mp (Option.mem_toList.mp hv)
  exact hready.upheld.sound.answer hscope hanswer

/-! ### Writes -/

/-- A write that lets go what it has overwritten, unless it is held. -/
theorem Ready.written {α : Type} [Yields α] {c : Context} {m : Machine} {r : Except Exit α}
    (h : k.Ready kept loose c m) {w : Written} (hsound : Sound k.since w.store)
    (hgrows : Grows m.store w.store) (hnext : w.store.next = m.store.next) (hr : items r = []) :
    k.Ended c m r ({ m with store := w.store }.release c.held w.freed) where
  upheld := by
    have hwritten := h.upheld.moved_of_next hsound hgrows.toContinues hnext
      fun r hr => hgrows.has (h.upheld.alive r hr)
    exact hwritten.release (List.Subset.refl _) w.freed
  continues := hgrows.toContinues.trans (.release w.store c.held w.freed)
  brings i hi := by
    rw [hr] at hi
    cases hi

theorem Ready.settled {c : Context} {m m' : Machine} {r : Except Exit Unit}
    (h : k.Ready kept loose c m) {id : ScopeId} {name : String} {b : Binding}
    (hb : Lives k.since m.store b.value)
    (hr : Eval.settle (m.store.declare id name b) c m = some (r, m')) : k.Ended c m r m' := by
  rw [Eval.settle_apply] at hr
  split at hr
  · cases hr
    exact h.ended_of_store_eq rfl fun i hi => by cases hi
  · rename_i w hw
    cases hr
    exact h.written (h.upheld.sound.declare hb hw) (.declare hw) (Store.next_declare hw) rfl

theorem keeps_declareIn (id : ScopeId) (name : String) {b : Binding}
    (hb : Known (loose ++ kept) (.value b.value)) :
    k.Keeps Unit kept loose (Eval.declareIn id name b) (Eval.declareIn id name b) :=
  keeps_self fun _ _ hready _ _ hr => hready.settled (Genuine.known hready.genuine hb) hr

theorem keeps_assign (name : String) {v : Value} (hv : Known (loose ++ kept) (.value v)) :
    k.Keeps Unit kept loose (Eval.assign name v) (Eval.assign name v) :=
  keeps_self fun _ _ hready _ _ hr => hready.settled (b := .ofValue v) (Genuine.known hready.genuine hv) hr

theorem keeps_copyBindings (target source : ScopeId) :
    k.Keeps Unit kept loose (Eval.copyBindings target source)
      (Eval.copyBindings target source) := by
  refine keeps_self fun c m hready r m' hr => ?_
  rw [Eval.copyBindings_apply] at hr
  cases hr
  obtain ⟨hsound, hgrows⟩ := hready.upheld.sound.copyBindings target source
  refine hready.written hsound hgrows (Store.next_copyBindings ..) ?_
  cases (m.store.copyBindings target source).2 <;> rfl

/-! ### The rest of the machine -/

/-- A sink is heeded without a look at the scopes. -/
theorem Ready.heeded {c : Context} {m m' : Machine} {r : Except Exit Unit}
    (h : k.Ready kept loose c m)
    (hr : m'.store = m.store ∧ ∀ e, r = .error e → ∃ reason, e = .stream reason) :
    k.Ended c m r m' := by
  obtain ⟨hstore, hstream⟩ := hr
  refine h.ended_of_store_eq hstore fun i hi => ?_
  cases r with
  | ok _ => cases hi
  | error e =>
    obtain ⟨reason, rfl⟩ := hstream e rfl
    rw [List.mem_singleton.mp hi]
    trivial

theorem keeps_write (text : String) :
    k.Keeps Unit kept loose (Eval.write text) (Eval.write text) := by
  refine keeps_self fun c m hready r m' hr => ?_
  have hheed : Eval.heed (m.out.offer text).1 c { m with out := (m.out.offer text).2 } =
      some (r, m') := hr
  have hinv := Eval.heed_inv hheed
  exact hready.heeded hinv

theorem keeps_report (e : Exit) : k.Keeps Unit kept loose (Eval.report e) (Eval.report e) :=
  keeps_self fun _ _ hready _ _ hr => hready.heeded (Eval.report_inv hr)

theorem keeps_readLine : k.Keeps (Option String) kept loose Eval.readLine Eval.readLine := by
  refine keeps_self fun c m hready r m' hr => ?_
  cases hline : m.input.readLine.1 with
  | ok line =>
    rw [Eval.readLine_of_ok hline] at hr
    cases hr
    exact hready.ended_of_store_eq rfl fun i hi => by cases hi
  | error reason =>
    rw [Eval.readLine_of_error hline] at hr
    cases hr
    refine hready.ended_of_store_eq rfl fun i hi => ?_
    rw [List.mem_singleton.mp hi]
    trivial

theorem keeps_checkInterrupt :
    k.Keeps Unit kept loose Eval.checkInterrupt Eval.checkInterrupt := by
  refine keeps_self fun c m hready r m' hr => ?_
  rw [Eval.checkInterrupt_apply] at hr
  cases hr
  refine hready.ended_of_store_eq rfl fun i hi => ?_
  split at hi
  · rw [List.mem_singleton.mp hi]
    trivial
  · cases hi

theorem keeps_noteVisit (node : Node) :
    k.Keeps Unit kept loose (noteVisit node) (noteVisit node) := by
  refine keeps_self fun c m hready r m' hr => ?_
  obtain ⟨log, hnoted⟩ := noteVisit_apply node c m
  rw [hnoted] at hr
  cases hr
  exact hready.ended_of_store_eq rfl fun i hi => by cases hi

/-- A change of the machine that leaves the store alone. -/
theorem keeps_modify {f : Machine → Machine} (hf : ∀ m, (f m).store = m.store) :
    k.Keeps Unit kept loose (Eval.modify f) (Eval.modify f) := by
  refine keeps_self fun c m hready r m' hr => ?_
  cases hr
  exact hready.ended_of_store_eq (hf m) fun i hi => by cases hi

theorem calm_modify {f : Machine → Machine} (hf : ∀ m, (f m).store = m.store) :
    Calm k.Keeps kept loose items (Eval.modify f) (Eval.modify f) :=
  calm_of_look fun _ m _ => ⟨(), f m, rfl, hf m, fun i hi => by cases hi⟩

theorem keeps_enterCall : k.Keeps Unit kept loose Evaluator.enterCall Evaluator.enterCall := by
  refine keeps_self fun c m hready r m' hr => ?_
  rw [Evaluator.enterCall_apply] at hr
  split at hr <;> cases hr <;> exact hready.ended_of_store_eq rfl fun i hi => by cases hi

theorem keeps_startBring (path : String) :
    k.Keeps (List Node) kept loose (Evaluator.startBring path) (Evaluator.startBring path) := by
  refine keeps_self fun c m hready r m' hr => ?_
  rw [Evaluator.startBring_apply] at hr
  split at hr
  · cases hr
    exact hready.ended_of_store_eq rfl fun i hi => by cases hi
  · split at hr <;> cases hr <;> exact hready.ended_of_store_eq rfl fun i hi => by cases hi

/-! ### Frames -/

/-- The scope in which a frame is made is alive and is held while the
frame is, or the instance is whose fields it is. -/
theorem Ready.anchored {c : Context} {m : Machine} (h : k.Ready kept loose c m)
    {above : ScopeId} {kind : ScopeKind} (habove : Anchor kept kind above) :
    m.store.Has (.scope above) ∧ ∀ frame : Scope, frame.kind = kind →
      frame.parent = some above → Anchored c.held m.store m.store.next frame := by
  -- What is shown of `above` is the same for blocks and functions.
  have hscope : .scope above ∈ kept → (kind = .block ∨ kind = .function) →
      m.store.Has (.scope above) ∧ ∀ frame : Scope, frame.kind = kind →
        frame.parent = some above → Anchored c.held m.store m.store.next frame := by
    intro hmem hkinds
    obtain ⟨⟨scope, hscope⟩, hheld⟩ := h.kept _ hmem
    refine ⟨⟨scope, hscope⟩, fun frame hkind hparent => ?_⟩
    refine ⟨above, hparent, Store.lt_next hscope, ?_⟩
    rw [hkind]
    rcases hkinds with rfl | rfl <;> exact hheld (List.mem_singleton_self _)
  cases habove with
  | block hmem => exact hscope hmem (.inl rfl)
  | function hmem => exact hscope hmem (.inr rfl)
  | @method i hmem =>
    obtain ⟨hobject, hheld⟩ := h.kept _ hmem
    have halive : m.store.instance? i.id = some i := hobject
    obtain ⟨fields, hfields, -⟩ := (h.upheld.sound.instances halive).fields
    refine ⟨⟨fields, hfields⟩, fun frame hkind hparent => ?_⟩
    refine ⟨i.fields, hparent, Store.lt_next hfields, ?_⟩
    rw [hkind]
    exact ⟨i, hheld (List.mem_singleton_self _), halive, rfl⟩

/-- The scope made for a construct. -/
theorem Ready.newFrame {c : Context} {m : Machine} (h : k.Ready kept loose c m)
    {above : ScopeId} {kind : ScopeKind} (habove : Anchor kept kind above) :
    ∃ frame : Scope, frame.kind = kind ∧ frame.parent = some above ∧
      ∀ id, (m.store.child above kind).2.scope? id =
        if id = m.store.next then some frame else m.store.scope? id := by
  obtain ⟨⟨scope, hscope⟩, -⟩ := h.anchored habove
  obtain ⟨outer, root, hchild⟩ := Store.child_eq_of_alive kind hscope
  refine ⟨Scope.fresh kind (some above) outer root, rfl, rfl, fun id => ?_⟩
  rw [hchild, Store.scope?_add]

section
variable {c : Context} {m : Machine} {above : ScopeId} {kind : ScopeKind}

/-- With a new frame the charge is kept: it is made in a scope that is
held, and nothing changes for the others. -/
theorem Ready.upheld_frame (h : k.Ready kept loose c m) (habove : Anchor kept kind above) :
    k.Upheld (.scope m.store.next :: c.held) (m.store.child above kind).2 := by
  obtain ⟨frame, hkind, hparent, hscopes⟩ := h.newFrame habove
  have hgrows := Grows.child m.store above kind
  have halive : ∀ r ∈ c.held, (m.store.child above kind).2.Has r := fun r hr =>
    hgrows.has (h.upheld.alive r hr)
  have hstays : ∀ {id : ScopeId} {scope : Scope}, Anchored c.held m.store id scope →
      Anchored (.scope m.store.next :: c.held) (m.store.child above kind).2 id scope := by
    intro id scope hanchored
    exact (hanchored.continues hgrows.toContinues (.refl _ _) halive).mono
      (List.subset_cons_self ..)
  constructor
  case sound =>
    refine h.upheld.sound.child above fun id scope hsame => ?_
    unfold KindStands
    rw [hsame]
    cases habove <;> trivial
  case since => exact Nat.le_trans h.upheld.since hgrows.scopes.next
  case continues => exact h.upheld.continues.trans hgrows.toContinues
  case charged => exact List.subset_cons_of_subset _ h.upheld.charged
  case alive =>
    intro r hr
    rcases List.mem_cons.mp hr with rfl | hr
    · exact ⟨frame, by rw [hscopes, if_pos rfl]⟩
    · exact halive r hr
  case frames =>
    intro id after hafter hisframe hid
    rw [hscopes] at hafter
    split at hafter
    · rename_i hnew
      cases hafter
      rw [hnew]
      exact ⟨List.mem_cons_self .., hstays ((h.anchored habove).2 frame hkind hparent)⟩
    · obtain ⟨hheld, hanchored⟩ := h.upheld.frames hafter hisframe hid
      exact ⟨List.mem_cons_of_mem _ hheld, hstays hanchored⟩

/-- A construct holds the frame that it runs in. -/
theorem Ready.inFrame (h : k.Ready kept loose c m) (habove : Anchor kept kind above) :
    k.Ready (.scope m.store.next :: kept) loose
      { c with held := .scope m.store.next :: c.held }
      { m with store := (m.store.child above kind).2 } := by
  have hgrows := Grows.child m.store above kind
  have hupheld := h.upheld_frame habove
  refine ⟨hupheld, List.mem_cons_of_mem _ h.scope, fun i hi => ?_, fun i hi => ?_⟩
  · rcases List.mem_cons.mp hi with rfl | hi
    · refine ⟨hupheld.alive _ (List.mem_cons_self ..), fun r hr => ?_⟩
      rw [List.mem_singleton.mp hr]
      exact List.mem_cons_self ..
    · obtain ⟨hgenuine, hheld⟩ := h.kept i hi
      exact ⟨hgenuine.grows hgrows, List.subset_cons_of_subset _ hheld⟩
  · exact (h.loose i hi).grows hgrows

end

/-- Once nobody runs in it a frame is gone: the outcome does not keep
it, and nothing in the store names it. -/
theorem frame_gone {α : Type} [Yields α] [Owner α] [Owned α] {s : Store} {held : List Ref}
    {id : ScopeId} {r : Except Exit α} (hsound : Sound k.since s) (hid : k.since ≤ id)
    (hframe : ∀ scope, s.scope? id = some scope → scope.kind.isFrame = true)
    (hheld : .scope id ∉ held) (hr : ∀ i ∈ items r, Genuine k.since s i) :
    ¬ (s.release (Owner.refs r ++ held) [.scope id]).Has (.scope id) := by
  intro hhas
  obtain ⟨scope, hscope⟩ := hhas
  have hbefore := (s.shrinks_release (Owner.refs r ++ held) [.scope id]).scope hscope
  have hkind := hframe scope hbefore
  refine not_has_release (fun hmem => ?_) (hsound.refersTo_frame hid hbefore hkind)
    ⟨scope, hscope⟩
  rcases List.mem_append.mp hmem with hmem | hmem
  · obtain ⟨i, hi, hrefs⟩ := (Owned.covers r).only _ hmem
    have hend := Owned.isEnd r i hi
    cases i with
    | value v =>
      have hnot := Lives.not_frame (hr _ hi) hrefs hid hbefore
      rw [hkind] at hnot
      cases hnot
    | exit e => cases hrefs
    | scope id => exact hend
    | made id kind => exact hend
    | exports id => exact hend
    | code body => exact hend
  · exact hheld hmem

/-- When its construct ends the frame is let go, and then it is gone. -/
theorem Ready.frame_released {α : Type} [Yields α] [Owner α] [Owned α] {c : Context}
    {m m₂ : Machine} {r : Except Exit α} (h : k.Ready kept loose c m) {above : ScopeId}
    {kind : ScopeKind} (habove : Anchor kept kind above)
    (hended : k.Ended { c with held := .scope m.store.next :: c.held }
      { m with store := (m.store.child above kind).2 } r m₂) :
    ¬ (m₂.store.release (Owner.refs r ++ c.held) [.scope m.store.next]).Has
      (.scope m.store.next) := by
  obtain ⟨frame, hkind, -, hscopes⟩ := h.newFrame habove
  have hmade : (m.store.child above kind).2.scope? m.store.next = some frame := by
    rw [hscopes, if_pos rfl]
  refine frame_gone hended.upheld.sound h.upheld.since ?_ ?_ hended.brings
  · intro scope hscope
    rw [(hended.continues.shape hmade hscope).kind, hkind]
    cases habove <;> rfl
  · intro hmem
    obtain ⟨scope, hscope⟩ := h.upheld.alive _ hmem
    exact Nat.lt_irrefl _ (Store.lt_next hscope)

theorem keeps_newFrame {α : Type} [Yields α] [Owner α] [Owned α] {above : ScopeId}
    {kind : ScopeKind} {f g : ScopeId → Eval α} (habove : Anchor kept kind above)
    (hf : ∀ id, k.Keeps α (.scope id :: kept) loose (f id) (g id)) :
    k.Keeps α kept loose (Eval.newChild above kind >>= fun id => Eval.holding [.scope id] (f id))
      (Eval.newChild above kind >>= fun id => Eval.holding [.scope id] (g id)) := by
  intro c m hready
  obtain ⟨heq, hends⟩ := hf m.store.next _ _ (hready.inFrame habove)
  rw [Eval.newChild_bind, Eval.newChild_bind]
  refine ⟨Eval.holding_congr heq, fun r m' hr => ?_⟩
  obtain ⟨m₂, hg, rfl⟩ := Eval.holding_inv hr
  have hended := hends r m₂ hg
  have hgrows := Grows.child m.store above kind
  refine hready.letGo hgrows.toContinues hended fun id after hafter hisframe hid => ?_
  have hbefore := (m₂.store.shrinks_release _ _).scope hafter
  have hheld := (hended.upheld.frames hbefore hisframe hid).1
  rcases List.mem_cons.mp hheld with hnew | hheld
  · cases hnew
    exact absurd ⟨after, hafter⟩ (hready.frame_released habove hended)
  · exact hready.upheld.alive _ hheld

end

/-! ### All evaluations -/

/-- The primitives keep the charge. -/
theorem rules (k : Charge) : Rules k.Keeps where
  result a ha := keeps_self fun c m hready r m' hr => by
    cases hr
    exact hready.ended_of_store_eq rfl fun i hi => Genuine.known hready.genuine (ha i hi)
  bind := keeps_bind
  exit e he := keeps_self fun c m hready r m' hr => by
    cases hr
    exact hready.ended_of_store_eq rfl fun i hi => Genuine.known hready.genuine (he i hi)
  outcome := keeps_outcome
  holding := keeps_holding
  here := keeps_here
  within := keeps_within
  newExports := calm_newExports
  newPart _ := calm_newPart _
  newFrame := keeps_newFrame
  newInstance := keeps_newInstance
  lookup? := calm_lookup?
  getLocal? name _ := calm_getLocal? name
  boundCount id := calm_of_look fun c m _ => ⟨_, _, rfl, rfl, fun i hi => by cases hi⟩
  declareIn name _ _ hb := keeps_declareIn _ name hb
  assign := keeps_assign
  copyBindings _ _ := keeps_copyBindings _ _
  checkInterrupt := keeps_checkInterrupt
  write := keeps_write
  readLine := keeps_readLine
  report := keeps_report
  note _ := calm_modify fun _ => rfl
  noteVisit := keeps_noteVisit
  handlersOf event := keeps_self fun c m hready r m' hr => by
    cases hr
    exact hready.ended_of_store_eq rfl fun i hi => by cases hi

theorem nodeRules (k : Charge) : NodeRules k.Keeps where
  nearestExports? := calm_of_look fun c m _ => ⟨_, _, rfl, rfl, fun i hi => by
    obtain ⟨e, -, rfl⟩ := List.mem_map.mp hi
    trivial⟩
  exportIn name _ _ hb := keeps_declareIn _ name hb
  code body _ _ _ _ _ _ hx c m hready :=
    hx c m { hready with loose := List.forall_mem_cons.mpr ⟨trivial, hready.loose⟩ }
  exhausted := fun c m _ => ⟨rfl, fun r m' hr => by cases hr⟩
  trigger name message := keeps_self fun c m hready r m' hr => by
    cases hr
    refine hready.ended_of_store_eq rfl fun i hi => ?_
    rw [List.mem_singleton.mp hi]
    trivial

theorem taskRules (k : Charge) : TaskRules k.Keeps where
  enqueue _ := keeps_modify fun _ => rfl
  register _ _ := keeps_modify fun _ => rfl
  takeTasks := keeps_self fun c m hready r m' hr => by
    cases hr
    exact hready.ended_of_store_eq rfl fun i hi => by cases hi

/-- All evaluations keep their charge. -/
theorem discipline (k : Charge) : Discipline k.Keeps k.Keeps where
  toConduct := .of_counters k.rules
    (fun _ _ => keeps_enterCall)
    (fun _ _ => keeps_self fun c m hready r m' hr => by
      cases hr
      exact hready.ended_of_store_eq rfl fun i hi => by cases hi)
    (fun _ _ => calm_modify fun _ => rfl)
    (fun _ _ path => keeps_startBring path)
    (fun _ _ => calm_modify fun _ => rfl)
  toNodeRules := k.nodeRules

theorem evaluate_keeps (k : Charge) (steps : Nat) (kept loose : List Item) (node : Node) :
    k.Keeps Value kept loose (evaluate steps node) (evaluate steps node) :=
  k.discipline.evaluate k.taskRules steps kept loose node

theorem runProgram_keeps (k : Charge) (steps : Nat) (kept loose : List Item) (program : Node) :
    k.Keeps Unit kept loose (runProgram (evaluate steps) program)
      (runProgram (evaluate steps) program) :=
  k.discipline.runProgram (k.evaluate_keeps steps) program

/-! ### Every moment -/

/-- Looks that see nothing amiss wherever the charge is kept. -/
def Trusts (k : Charge) (look : Eval Unit) : Prop :=
  ∀ c m, .scope c.scope ∈ c.held → k.Upheld c.held m.store → look c m = some (.ok (), m)

section
variable {kept loose : List Item}

theorem keeps_guarded {α : Type} [Yields α] {look : Eval Unit} (hlook : k.Trusts look)
    {x y : Eval α} (hx : k.Keeps α kept loose x y) :
    k.Keeps α kept loose (Evaluator.guarded look x) y := by
  intro c m hready
  obtain ⟨heq, hends⟩ := hx c m hready
  refine ⟨?_, hends⟩
  rw [← heq]
  refine Evaluator.guarded_apply (hlook c m hready.scope hready.upheld) fun r m₁ hr => ?_
  exact hlook c m₁ hready.scope (hends r m₁ (heq.symm.trans hr)).upheld

/-- At every moment the charge is kept: looking out for it changes
nothing. -/
theorem watched_keeps {look : Eval Unit} (hlook : k.Trusts look) (steps calls : Nat)
    (kept loose : List Item) (node : Node) :
    k.Keeps Value kept loose (watched (fun _ => look) steps calls node) (evaluate steps node) := by
  induction steps generalizing calls kept loose node with
  | zero => exact k.discipline.exhausted
  | succ steps ih =>
    refine keeps_guarded hlook (k.discipline.visit node ?_)
    refine k.discipline.step (ih calls) (fun _ _ body => ?_) k.taskRules steps node
    exact keeps_guarded hlook (k.discipline.runBlock (ih (calls + 1)) body)

theorem watched_runProgram_keeps {look : Eval Unit} (hlook : k.Trusts look) (steps calls : Nat)
    (kept loose : List Item) (program : Node) :
    k.Keeps Unit kept loose (runProgram (watched (fun _ => look) steps calls) program)
      (runProgram (evaluate steps) program) :=
  k.discipline.runProgram (watched_keeps hlook steps calls) program

end

end Charge

end Treewalk.Proofs
