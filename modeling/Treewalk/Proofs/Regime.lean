import Treewalk.Proofs.Constructs

/-!
# `Treewalk.Proofs.Regime`: conditions that a run keeps

A regime is a condition on the machine that evaluations keep, an order
in which they move it, and what can be relied on of the items in hand.
What is good once stays good, however the machine moves.

Two evaluations are related by `Keeps` if they are equal wherever the
condition holds, and keep the regime. With the same evaluation on both
sides this is a statement about one evaluation. A regime is open if
evaluations may run out of steps under it; under one that is not, an
evaluation that is kept ends.

`Regime.Laws` says what a regime must allow: that the parts of the
machine it may speak of, the scopes and the streams, change in the way
the primitives change them. `Laws.primitives` draws the conclusion: the
primitives respect `Keeps`. What only a few nodes do is left to
`ExportLaws` and `NodeLaws`.
-/

set_option autoImplicit false

namespace Treewalk.Proofs

open Yields (items)

/-- A condition that evaluations keep, the order in which they move the
machine, and what is relied on of the items in hand. A regime may also
restrict the scopes that are seen, and may ask that evaluations end. -/
structure Regime where
  Inv : Settings → Machine → Prop
  Step : Machine → Machine → Prop
  Good : Machine → Item → Prop
  /-- The scopes that evaluations may come by. -/
  Seen : ScopeId → Prop := fun _ => True
  /-- Whether evaluations may run out of steps. -/
  Open : Prop := True
  refl (m : Machine) : Step m m
  trans {a b c : Machine} : Step a b → Step b c → Step a c
  good_step {m m' : Machine} {i : Item} : Step m m' → Good m i → Good m' i

namespace Regime

variable (g : Regime)

/-- A machine that has moved as the regime allows. -/
structure Moved (σ : Settings) (m m' : Machine) : Prop where
  inv : g.Inv σ m'
  step : g.Step m m'

/-- The start of an evaluation with items in hand. -/
structure Ready (ts : List Item) (c : Context) (m : Machine) : Prop where
  inv : g.Inv c.settings m
  scope : g.Good m (.scope c.scope)
  good : ∀ i ∈ ts, g.Good m i

/-- The end of an evaluation: the machine has moved, and what the
outcome brings is good. -/
structure Ended {α : Type} [Yields α] (σ : Settings) (m : Machine) (r : Except Exit α)
    (m' : Machine) : Prop extends g.Moved σ m m' where
  good : ∀ i ∈ items r, g.Good m' i

/-- How an evaluation may end, if it does. -/
structure Ends {α : Type} [Yields α] (σ : Settings) (m : Machine)
    (o : Option (Except Exit α × Machine)) : Prop where
  ended {r : Except Exit α} {m' : Machine} : o = some (r, m') → g.Ended σ m r m'
  opened : o = none → g.Open

/-- Two evaluations that are the same wherever the regime holds, and
that keep it. -/
def Keeps : Relation := fun _ _ ts x y =>
  ∀ c m, g.Ready ts c m → x c m = y c m ∧ g.Ends c.settings m (y c m)

variable {g}

theorem Moved.trans {σ : Settings} {a b c : Machine} (h : g.Moved σ a b) (h' : g.Moved σ b c) :
    g.Moved σ a c :=
  ⟨h'.inv, g.trans h.step h'.step⟩

theorem Moved.self {σ : Settings} {m : Machine} (h : g.Inv σ m) : g.Moved σ m m :=
  ⟨h, g.refl m⟩

/-- What was in hand before a move is so after it. -/
theorem Ready.moved {ts us : List Item} {c : Context} {m m' : Machine} (h : g.Ready ts c m)
    (hm : g.Moved c.settings m m') (hus : ∀ i ∈ us, g.Good m' i) : g.Ready (us ++ ts) c m' where
  inv := hm.inv
  scope := g.good_step hm.step h.scope
  good i hi := by
    rcases List.mem_append.mp hi with hi | hi
    · exact hus i hi
    · exact g.good_step hm.step (h.good i hi)

theorem Ended.ends {α : Type} [Yields α] {σ : Settings} {m m' : Machine} {r : Except Exit α}
    (h : g.Ended σ m r m') : g.Ends σ m (some (r, m')) where
  ended heq := by
    cases heq
    exact h
  opened heq := by cases heq

theorem Ends.none {α : Type} [Yields α] {σ : Settings} {m : Machine} (h : g.Open) :
    g.Ends (α := α) σ m none where
  ended heq := by cases heq
  opened _ := h

/-- What an evaluation does after a move is done on top of it. -/
theorem Ends.after {α : Type} [Yields α] {σ : Settings} {m m' : Machine}
    {o : Option (Except Exit α × Machine)} (h : g.Ends σ m' o) (hm : g.Moved σ m m') :
    g.Ends σ m o where
  ended heq :=
    have hlast := h.ended heq
    { inv := hlast.inv, step := g.trans hm.step hlast.step, good := hlast.good }
  opened := h.opened

/-- An evaluation that ends as it should is kept. -/
theorem keeps_of_eq {α : Type} [Yields α] {ts : List Item} {x : Eval α}
    (h : ∀ c m, g.Ready ts c m → ∃ r m', x c m = some (r, m') ∧ g.Ended c.settings m r m') :
    g.Keeps α ts x x := by
  intro c m hr
  obtain ⟨r, m', hx, hended⟩ := h c m hr
  refine ⟨rfl, ?_⟩
  rw [hx]
  exact hended.ends

/-- With nothing in hand but the scope to work in, an evaluation that
is kept ends as it should. -/
theorem Keeps.ended {α : Type} [Yields α] {x y : Eval α} (h : g.Keeps α [] x y) {c : Context}
    {m m' : Machine} {r : Except Exit α} (hinv : g.Inv c.settings m)
    (hscope : g.Good m (.scope c.scope)) (hy : y c m = some (r, m')) :
    g.Ended c.settings m r m' :=
  (h c m ⟨hinv, hscope, fun i hi => by cases hi⟩).2.ended hy

/-! ### What a regime must allow -/

variable (g) in
/-- The changes that the primitives make, as a regime must allow
them. -/
structure Laws : Prop where
  -- Items that come from nothing, from code, or from a scope just made
  data {m : Machine} {v : Value} : v.isReference = false → g.Good m (.value v)
  spec {m : Machine} {decl : Spec Node} :
    g.Good m (.code decl.body) → g.Good m (.value (.spec decl))
  blueprint {m : Machine} (name : String) {id : ScopeId} {c : Option (Constructor Node)} :
    g.Good m (.made id .blueprint) → (∀ k, c = some k → g.Good m (.code k.body)) →
      g.Good m (.value (.blueprint ⟨name, id, c⟩))
  toolkit {m : Machine} (name : String) {id exports : ScopeId} :
    g.Good m (.made exports .exports) → g.Good m (.made id (.toolkit exports)) →
      g.Good m (.value (.toolkit ⟨name, id, exports⟩))
  bridge {m : Machine} (name : String) {id : ScopeId} :
    g.Good m (.made id .bridge) → g.Good m (.value (.bridge ⟨name, id⟩))
  raised {m : Machine} (name message : String) : g.Good m (.exit (.raised name message))
  -- What is seen, and what it tells
  seen {σ : Settings} {m : Machine} {ts : List Item} {id : ScopeId} : g.Inv σ m →
    (∀ i ∈ ts, g.Good m i) → Readable ts id → g.Seen id
  above {σ : Settings} {m : Machine} {id above : ScopeId} {scope : Scope} : g.Inv σ m →
    g.Seen id → m.store.scope? id = some scope → m.store.enclosing? scope = some above →
      g.Seen above
  bound {σ : Settings} {m : Machine} {id : ScopeId} {scope : Scope} {entry : String × Binding} :
    g.Inv σ m → g.Seen id → m.store.scope? id = some scope → entry ∈ scope.bindings →
      g.Good m (.value entry.2.value)
  owner {σ : Settings} {m : Machine} {id : ScopeId} {scope : Scope} {i : Instance} :
    g.Inv σ m → g.Seen id → m.store.scope? id = some scope → scope.kind = .instance i →
      g.Good m (.value (.object i))
  -- Changes of the scopes
  release {σ : Settings} {m : Machine} (held refs : List Ref) : g.Inv σ m →
    g.Moved σ m (m.release held refs)
  declare {σ : Settings} {m : Machine} {ts : List Item} {id : ScopeId} {name : String}
    {b : Binding} {w : Written} : g.Inv σ m → (∀ i ∈ ts, g.Good m i) → Bindable ts id →
    g.Good m (.value b.value) → m.store.declare id name b = .ok w →
      g.Moved σ m { m with store := w.store }
  assign {σ : Settings} {m : Machine} {id : ScopeId} {name : String} {v : Value} {w : Written} :
    g.Inv σ m → g.Good m (.scope id) → g.Good m (.value v) →
    m.store.assign id name v = .ok w → g.Moved σ m { m with store := w.store }
  newExports {σ : Settings} {m : Machine} : g.Inv σ m →
    let m' := { m with store := (m.store.add (Scope.top .exports)).2 }
    g.Moved σ m m' ∧ g.Good m' (.made m.store.next .exports)
  newChild {σ : Settings} {m : Machine} {ts : List Item} {above : ScopeId} {kind : ScopeKind} :
    g.Inv σ m → (∀ i ∈ ts, g.Good m i) → Bindable ts above → CanMake ts kind →
    let m' := { m with store := (m.store.child above kind).2 }
    g.Moved σ m m' ∧ g.Good m' (.scope m.store.next) ∧ g.Good m' (.made m.store.next kind)
  newObject {σ : Settings} {m : Machine} {b : Blueprint} : g.Inv σ m →
    g.Good m (.value (.blueprint b)) →
    let m' := { m with store := (m.store.addObject b).2 }
    g.Moved σ m m' ∧ g.Good m' (.value (.object (m.store.addObject b).1))
  -- Changes of the streams
  stopped {m : Machine} : m.interrupted = true → g.Good m (.exit .interrupted)
  interrupt {σ : Settings} {m : Machine} : g.Inv σ m →
    g.Moved σ m { m with interrupted := true }
  out {σ : Settings} {m : Machine} (text : String) : g.Inv σ m →
    let m' := { m with out := (m.out.offer text).2 }
    g.Moved σ m m' ∧ ∀ reason, (m.out.offer text).1 = .refuse reason →
      g.Good m' (.exit (.stream reason))
  err {σ : Settings} {m : Machine} (text : String) : g.Inv σ m →
    let m' := { m with err := (m.err.offer text).2 }
    g.Moved σ m m' ∧ ∀ reason, (m.err.offer text).1 = .refuse reason →
      g.Good m' (.exit (.stream reason))
  input {σ : Settings} {m : Machine} : g.Inv σ m →
    let m' := { m with input := m.input.readLine.2 }
    g.Moved σ m m' ∧ ∀ reason, m.input.readLine.1 = .error reason →
      g.Good m' (.exit (.stream reason))
  -- Changes of the rest
  note {σ : Settings} {m : Machine} {e : LogEntry} : e.isStrayBack = false → g.Inv σ m →
    g.Moved σ m (m.note e)
  rest {σ : Settings} {m : Machine} (tasks : TaskQueue) (registry : Registry) : g.Inv σ m →
    g.Moved σ m { m with tasks, registry }

variable (g) in
/-- The writing to exports, as a regime may allow it. -/
structure ExportLaws : Prop where
  exports {σ : Settings} {m : Machine} {id e : ScopeId} {scope : Scope} :
    g.Inv σ m → g.Seen id → m.store.scope? id = some scope → scope.kind = .toolkit e →
      g.Good m (.exports e)
  exportIn {σ : Settings} {m : Machine} {id : ScopeId} {name : String} {v : Value}
    {w : Written} : g.Inv σ m → g.Good m (.exports id) → g.Good m (.value v) →
      m.store.declare id name (.ofValue v) = .ok w → g.Moved σ m { m with store := w.store }

variable (g) in
/-- What only a few nodes do, as a regime may allow it. -/
structure NodeLaws : Prop extends g.ExportLaws where
  code {m : Machine} (body : List Node) : g.Good m (.code body)
  opened : g.Open

/-! ### How evaluations combine -/

section
variable {α β : Type} [Yields α] [Yields β] {ts : List Item}

theorem keeps_bind {x y : Eval α} {f f' : α → Eval β} (hx : g.Keeps α ts x y)
    (hf : ∀ a, g.Keeps β (items a ++ ts) (f a) (f' a)) : g.Keeps β ts (x >>= f) (y >>= f') := by
  intro c m hready
  obtain ⟨heq, hends⟩ := hx c m hready
  show Eval.bind x f c m = Eval.bind y f' c m ∧ g.Ends c.settings m (Eval.bind y f' c m)
  unfold Eval.bind
  rw [heq]
  cases hy : y c m with
  | none => exact ⟨rfl, .none (hends.opened hy)⟩
  | some first =>
    obtain ⟨r₁, m₁⟩ := first
    have hended := hends.ended hy
    cases r₁ with
    -- An exit of the first ends both, with what it brings.
    | error e => exact ⟨rfl, Ended.ends ⟨hended.toMoved, hended.good⟩⟩
    -- A result is in hand for the second, on the machine where the first has left off.
    | ok a =>
      obtain ⟨heq', hends'⟩ := hf a c m₁ (hready.moved hended.toMoved hended.good)
      exact ⟨heq', hends'.after hended.toMoved⟩

/-- After a first step that always has a result, the second one goes on
with what the first has brought in hand. -/
theorem keeps_after {γ : Type} (us : γ → List Item) {x : Eval γ} {f f' : γ → Eval β}
    (hx : ∀ c m, g.Ready ts c m → ∃ a m', x c m = some (.ok a, m') ∧
      g.Moved c.settings m m' ∧ ∀ i ∈ us a, g.Good m' i)
    (hf : ∀ a, g.Keeps β (us a ++ ts) (f a) (f' a)) : g.Keeps β ts (x >>= f) (x >>= f') := by
  intro c m hready
  obtain ⟨a, m₁, hx, hmoved, hgood⟩ := hx c m hready
  obtain ⟨heq, hends⟩ := hf a c m₁ (hready.moved hmoved hgood)
  show Eval.bind x f c m = Eval.bind x f' c m ∧ g.Ends c.settings m (Eval.bind x f' c m)
  unfold Eval.bind
  rw [hx]
  exact ⟨heq, hends.after hmoved⟩

theorem keeps_outcome {x y : Eval α} (hx : g.Keeps α ts x y) :
    g.Keeps (Except Exit α) ts (Eval.outcome x) (Eval.outcome y) := by
  intro c m hready
  obtain ⟨heq, hends⟩ := hx c m hready
  unfold Eval.outcome
  rw [heq]
  cases hy : y c m with
  | none => exact ⟨rfl, .none (hends.opened hy)⟩
  | some last =>
    have hended := hends.ended hy
    exact ⟨rfl, Ended.ends ⟨hended.toMoved, hended.good⟩⟩

theorem keeps_within {id : ScopeId} {x y : Eval α} (hid : .scope id ∈ ts)
    (hx : g.Keeps α ts x y) : g.Keeps α ts (Eval.within id x) (Eval.within id y) := by
  intro c m hready
  exact hx { c with scope := id } m ⟨hready.inv, hready.good _ hid, hready.good⟩

theorem Laws.keeps_holding (h : g.Laws) [Owner α] (refs : List Ref) {x y : Eval α}
    (hx : g.Keeps α ts x y) : g.Keeps α ts (Eval.holding refs x) (Eval.holding refs y) := by
  intro c m hready
  obtain ⟨heq, hends⟩ := hx { c with held := refs ++ c.held } m
    ⟨hready.inv, hready.scope, hready.good⟩
  unfold Eval.holding
  rw [heq]
  cases hy : y { c with held := refs ++ c.held } m with
  | none => exact ⟨rfl, .none (hends.opened hy)⟩
  | some last =>
    obtain ⟨r₁, m₁⟩ := last
    have hended := hends.ended hy
    -- Letting go is one more move, after which good items still are good.
    have hreleased := h.release (Owner.refs r₁ ++ c.held) refs hended.inv
    exact ⟨rfl, Ended.ends ⟨hended.toMoved.trans hreleased,
      fun i hi => g.good_step hreleased.step (hended.good i hi)⟩⟩

end

/-! ### Single primitives -/

namespace Laws

variable (h : g.Laws) {ts : List Item}
include h

theorem known {m : Machine} {i : Item} (hts : ∀ i ∈ ts, g.Good m i) (hi : Known ts i) :
    g.Good m i := by
  cases hi with
  | mem hmem => exact hts i hmem
  | data hv => exact h.data hv
  | spec hcode => exact h.spec (hts _ hcode)
  | blueprint name hmade hcode => exact h.blueprint name (hts _ hmade) fun k hk => hts _ (hcode k hk)
  | toolkit name hexports hmade => exact h.toolkit name (hts _ hexports) (hts _ hmade)
  | bridge name hmade => exact h.bridge name (hts _ hmade)

theorem answer {σ : Settings} {m : Machine} (hinv : g.Inv σ m) {id : ScopeId} {scope : Scope}
    (hseen : g.Seen id) (hscope : m.store.scope? id = some scope) {name : String} {v : Value}
    (hv : m.store.answer? name scope = some v) : g.Good m (.value v) := by
  rcases Store.answer?_eq_some hv with ⟨entry, hentry, rfl⟩ | ⟨i, hkind, rfl⟩
  · exact h.bound hinv hseen hscope hentry
  · exact h.owner hinv hseen hscope hkind

/-- What is found on the chain of a scope that is seen is the answer of
one. -/
theorem exists_of_search {σ : Settings} {m : Machine} (hinv : g.Inv σ m) {α : Type}
    {answer : ScopeId → Scope → Option α} {bound : Nat} {id : ScopeId} {a : α} (hid : g.Seen id)
    (hfound : m.store.search answer bound id = some a) :
    ∃ i scope, g.Seen i ∧ m.store.scope? i = some scope ∧ answer i scope = some a :=
  Store.exists_on_chain (h.above hinv) hid hfound

/-- A write that succeeds is taken over, and one that fails leaves the
machine as it is. -/
theorem keeps_settle {c : Context} {m : Machine} (hinv : g.Inv c.settings m)
    {w : Except Fault Written}
    (hw : ∀ w', w = .ok w' → g.Moved c.settings m { m with store := w'.store }) :
    ∃ r m', Eval.settle w c m = some (r, m') ∧ g.Ended c.settings m r m' := by
  cases w with
  | error f => exact ⟨_, _, Eval.settle_apply _ c m, .self hinv, fun i hi => by cases hi⟩
  | ok w =>
    have hmoved := hw w rfl
    have hreleased := h.release c.held w.freed hmoved.inv
    exact ⟨_, _, Eval.settle_apply _ c m, hmoved.trans hreleased, fun i hi => by cases hi⟩

theorem keeps_declareIn {id : ScopeId} (name : String) {b : Binding} (hid : Bindable ts id)
    (hb : Known ts (.value b.value)) :
    g.Keeps Unit ts (Eval.declareIn id name b) (Eval.declareIn id name b) := by
  apply keeps_of_eq
  intro c m hready
  apply h.keeps_settle hready.inv (w := m.store.declare id name b)
  intro w hw
  exact h.declare hready.inv hready.good hid (h.known hready.good hb) hw

theorem keeps_assign (name : String) {v : Value} (hv : Known ts (.value v)) :
    g.Keeps Unit ts (Eval.assign name v) (Eval.assign name v) := by
  apply keeps_of_eq
  intro c m hready
  apply h.keeps_settle hready.inv (w := m.store.assign c.scope name v)
  intro w hw
  exact h.assign hready.inv hready.scope (h.known hready.good hv) hw

/-- Copied bindings are good, and so is every step of the copying. -/
theorem moved_declareAll {σ : Settings} {m : Machine} {id : ScopeId} (hid : Bindable ts id)
    (bs : Bindings) (w : Written) (fault : Option Fault)
    (hinv : g.Inv σ { m with store := w.store })
    (hts : ∀ i ∈ ts, g.Good { m with store := w.store } i)
    (hbs : ∀ entry ∈ bs, g.Good { m with store := w.store } (.value entry.2.value)) :
    g.Moved σ { m with store := w.store }
      { m with store := (Store.declareAll id bs w fault).1.store } := by
  induction bs generalizing w fault with
  | nil => exact .self hinv
  | cons first rest ih =>
    obtain ⟨name, b⟩ := first
    have hfirst := hbs (name, b) (List.mem_cons_self ..)
    rw [Store.declareAll]
    cases hw : w.store.declare id name b with
    | error f => exact ih w _ hinv hts fun entry hentry => hbs entry (List.mem_cons_of_mem _ hentry)
    | ok w' =>
      -- The rest is copied on the store that this binding leaves, where all
      -- that was in hand still is good.
      have hmoved : g.Moved σ { m with store := w.store } { m with store := w'.store } :=
        h.declare hinv hts hid hfirst hw
      have hrest := ih ⟨w'.store, w.freed ++ w'.freed⟩ fault hmoved.inv
        (fun i hi => g.good_step hmoved.step (hts i hi))
        (fun entry hentry =>
          g.good_step hmoved.step (hbs entry (List.mem_cons_of_mem _ hentry)))
      exact hmoved.trans hrest

theorem moved_copyBindings {σ : Settings} {m : Machine} {target source : ScopeId}
    (hinv : g.Inv σ m) (hts : ∀ i ∈ ts, g.Good m i) (htarget : Bindable ts target)
    (hsource : g.Seen source) :
    g.Moved σ m { m with store := (m.store.copyBindings target source).1.store } := by
  apply h.moved_declareAll htarget _ ⟨m.store, []⟩ none hinv hts
  intro entry hentry
  cases hscope : m.store.scope? source with
  | none => simp [hscope] at hentry
  | some scope =>
    rw [hscope] at hentry
    exact h.bound hinv hsource hscope hentry

theorem keeps_copyBindings {target source : ScopeId} (htarget : Bindable ts target)
    (hsource : Readable ts source) :
    g.Keeps Unit ts (Eval.copyBindings target source) (Eval.copyBindings target source) := by
  apply keeps_of_eq
  intro c m hready
  have hseen := h.seen hready.inv hready.good hsource
  have hmoved := h.moved_copyBindings hready.inv hready.good htarget hseen
  have hreleased := h.release c.held (m.store.copyBindings target source).1.freed hmoved.inv
  refine ⟨_, _, Eval.copyBindings_apply target source c m, hmoved.trans hreleased, fun i hi => ?_⟩
  cases hclash : (m.store.copyBindings target source).2 <;> rw [hclash] at hi <;> cases hi

/-- A new instance is made, and then its fields are filled. -/
theorem moved_spawn {σ : Settings} {m : Machine} {b : Blueprint} (hinv : g.Inv σ m)
    (hb : g.Good m (.value (.blueprint b))) :
    g.Moved σ m { m with store := (m.store.spawn b).2 } ∧
      g.Good { m with store := (m.store.spawn b).2 } (.value (.object (m.store.spawn b).1)) := by
  obtain ⟨hmade, hgood⟩ := h.newObject hinv hb
  have hseen : g.Seen b.scope :=
    h.seen hinv (List.forall_mem_singleton.mpr hb) (.blueprint (List.mem_singleton_self _))
  have hfilled := h.moved_copyBindings hmade.inv (List.forall_mem_singleton.mpr hgood)
    (.fields (List.mem_singleton_self _)) hseen
  exact ⟨hmade.trans hfilled, g.good_step hfilled.step hgood⟩

/-- The current scope is seen. -/
theorem seen_scope {c : Context} {m : Machine} (hready : g.Ready ts c m) : g.Seen c.scope :=
  h.seen hready.inv (List.forall_mem_singleton.mpr hready.scope)
    (.scope (List.mem_singleton_self _))

theorem keeps_lookup? (name : String) :
    g.Keeps (Option Value) ts (Eval.lookup? name) (Eval.lookup? name) := by
  apply keeps_of_eq
  intro c m hready
  refine ⟨_, _, rfl, .self hready.inv, fun i hi => ?_⟩
  obtain ⟨v, hv, rfl⟩ := List.mem_map.mp hi
  have hhere : g.Seen c.scope := h.seen_scope hready
  obtain ⟨id, scope, hseen, hscope, hanswer⟩ :=
    h.exists_of_search hready.inv hhere (Option.mem_toList.mp hv)
  exact h.answer hready.inv hseen hscope hanswer

theorem keeps_getLocal? {id : ScopeId} (name : String) (hid : Readable ts id) :
    g.Keeps (Option Value) ts (Eval.getLocal? id name) (Eval.getLocal? id name) := by
  apply keeps_of_eq
  intro c m hready
  refine ⟨_, _, rfl, .self hready.inv, fun i hi => ?_⟩
  obtain ⟨v, hv, rfl⟩ := List.mem_map.mp hi
  obtain ⟨scope, hscope, hanswer⟩ := Option.bind_eq_some_iff.mp (Option.mem_toList.mp hv)
  exact h.answer hready.inv (h.seen hready.inv hready.good hid) hscope hanswer

/-! ### Streams -/

/-- A sink is heeded once it has taken or refused a text. -/
theorem ended_heed {c : Context} {m m' : Machine} {reaction : Reaction}
    (hmoved : g.Moved c.settings m m')
    (hrefused : ∀ reason, reaction = .refuse reason → g.Good m' (.exit (.stream reason))) :
    ∃ r m'', Eval.heed reaction c m' = some (r, m'') ∧ g.Ended c.settings m r m'' := by
  cases reaction with
  | accept => exact ⟨.ok (), m', rfl, hmoved, fun i hi => by cases hi⟩
  | acceptAndInterrupt =>
    have hstopped := hmoved.trans (h.interrupt hmoved.inv)
    exact ⟨.ok (), _, rfl, hstopped, fun i hi => by cases hi⟩
  | refuse reason =>
    refine ⟨.error (.stream reason), m', rfl, hmoved, fun i hi => ?_⟩
    rw [List.mem_singleton.mp hi]
    exact hrefused reason rfl

theorem keeps_write (text : String) :
    g.Keeps Unit ts (Eval.write text) (Eval.write text) := by
  apply keeps_of_eq
  intro c m hready
  obtain ⟨hmoved, hrefused⟩ := h.out text hready.inv
  exact h.ended_heed hmoved hrefused

theorem keeps_diagnose (line : String) :
    g.Keeps Unit ts (Eval.diagnose line) (Eval.diagnose line) := by
  apply keeps_of_eq
  intro c m hready
  obtain ⟨hmoved, hrefused⟩ := h.err (line ++ "\n") hready.inv
  exact h.ended_heed hmoved hrefused

theorem keeps_readLine : g.Keeps (Option String) ts Eval.readLine Eval.readLine := by
  apply keeps_of_eq
  intro c m hready
  obtain ⟨hmoved, hfailed⟩ := h.input hready.inv
  cases hline : m.input.readLine.1 with
  | ok line => exact ⟨.ok line, _, Eval.readLine_of_ok hline, hmoved, fun i hi => by cases hi⟩
  | error reason =>
    refine ⟨.error (.stream reason), _, Eval.readLine_of_error hline, hmoved, fun i hi => ?_⟩
    rw [List.mem_singleton.mp hi]
    exact hfailed reason hline

theorem keeps_checkInterrupt : g.Keeps Unit ts Eval.checkInterrupt Eval.checkInterrupt := by
  apply keeps_of_eq
  intro c m hready
  rw [Eval.checkInterrupt_apply]
  split
  · rename_i hstop
    refine ⟨_, _, rfl, .self hready.inv, fun i hi => ?_⟩
    rw [List.mem_singleton.mp hi]
    exact h.stopped hstop
  · exact ⟨_, _, rfl, .self hready.inv, fun i hi => by cases hi⟩

/-! ### All primitives -/

theorem keeps_note {e : LogEntry} (he : e.isStrayBack = false) :
    g.Keeps Unit ts (Eval.note e) (Eval.note e) := by
  apply keeps_of_eq
  intro c m hready
  exact ⟨_, _, rfl, h.note he hready.inv, fun i hi => by cases hi⟩

theorem keeps_noteVisit (node : Node) :
    g.Keeps Unit ts (noteVisit node) (noteVisit node) := by
  apply keeps_of_eq
  intro c m hready
  rcases noteVisit_cases node c m with hnoted | ⟨scope, hnoted⟩
  · exact ⟨_, _, hnoted, .self hready.inv, fun i hi => by cases hi⟩
  · exact ⟨_, _, hnoted, h.note rfl hready.inv, fun i hi => by cases hi⟩

/-- The primitives keep a regime that allows their changes. -/
theorem primitives : Primitives g.Keeps where
  result a ha := keeps_of_eq fun c m hready =>
    ⟨_, _, rfl, .self hready.inv, fun i hi => h.known hready.good (ha i hi)⟩
  bind := keeps_bind
  exit e he := keeps_of_eq fun c m hready =>
    ⟨_, _, rfl, .self hready.inv, fun i hi => h.known hready.good (he i hi)⟩
  outcome := keeps_outcome
  holding := h.keeps_holding
  here := keeps_after (fun id => [.scope id]) fun c m hready =>
    ⟨c.scope, m, rfl, .self hready.inv, fun i hi => by
      rw [List.mem_singleton.mp hi]
      exact hready.scope⟩
  within := keeps_within
  newExports := keeps_after (fun id => [.made id .exports]) fun c m hready => by
    obtain ⟨hmoved, hgood⟩ := h.newExports hready.inv
    refine ⟨_, _, rfl, hmoved, fun i hi => ?_⟩
    rw [List.mem_singleton.mp hi]
    exact hgood
  newChild {_ _ _ above kind _ _} habove hkind := keeps_after (fun id => [.scope id, .made id kind])
    fun c m hready => by
      obtain ⟨hmoved, hscope, hmade⟩ :=
        h.newChild hready.inv hready.good habove hkind
      rw [← m.store.child_fst above kind] at hscope hmade
      refine ⟨_, _, rfl, hmoved, fun i hi => ?_⟩
      rcases List.mem_cons.mp hi with rfl | hi
      · exact hscope
      · rw [List.mem_singleton.mp hi]
        exact hmade
  newInstance hb := keeps_of_eq fun c m hready => by
    obtain ⟨hmoved, hgood⟩ := h.moved_spawn hready.inv (hready.good _ hb)
    refine ⟨_, _, rfl, hmoved, fun i hi => ?_⟩
    rw [List.mem_singleton.mp hi]
    exact hgood
  lookup? := h.keeps_lookup?
  getLocal? := h.keeps_getLocal?
  boundCount id := keeps_of_eq fun c m hready =>
    ⟨_, _, rfl, .self hready.inv, fun i hi => by cases hi⟩
  declareIn := h.keeps_declareIn
  assign := h.keeps_assign
  copyBindings := h.keeps_copyBindings
  checkInterrupt := h.keeps_checkInterrupt
  write := h.keeps_write
  readLine := h.keeps_readLine
  report e := keeps_bind (h.keeps_note rfl) fun _ => h.keeps_diagnose _
  note he := h.keeps_note (Bool.or_eq_false_iff.mp he).2
  noteVisit := h.keeps_noteVisit
  enqueue body := keeps_of_eq fun c m hready =>
    ⟨_, _, rfl, h.rest (m.tasks.enqueue body) m.registry hready.inv,
      fun i hi => by cases hi⟩
  takeTasks := keeps_of_eq fun c m hready =>
    ⟨_, _, rfl, h.rest m.tasks.takeAll.2 m.registry hready.inv, fun i hi => by cases hi⟩
  register event handler := keeps_of_eq fun c m hready =>
    ⟨_, _, rfl, h.rest m.tasks (m.registry.register event handler) hready.inv,
      fun i hi => by cases hi⟩
  handlersOf event := keeps_of_eq fun c m hready =>
    ⟨_, _, rfl, .self hready.inv, fun i hi => by cases hi⟩

theorem keeps_trigger (name : String) (message : Option String) :
    g.Keeps Value ts (Evaluator.trigger name message) (Evaluator.trigger name message) := by
  apply keeps_of_eq
  intro c m hready
  refine ⟨_, _, rfl, .self hready.inv, fun i hi => ?_⟩
  rw [List.mem_singleton.mp hi]
  exact h.raised name _

/-- The exports that are found are those of a live toolkit. -/
theorem keeps_nearestExports {β : Type} [Yields β] {f f' : Option ScopeId → Eval β}
    (hexports : ∀ {σ : Settings} {m : Machine} {id e : ScopeId} {scope : Scope}, g.Inv σ m →
      g.Seen id → m.store.scope? id = some scope → scope.kind = .toolkit e →
        g.Good m (.exports e))
    (hf : ∀ o, g.Keeps β (o.toList.map .exports ++ ts) (f o) (f' o)) :
    g.Keeps β ts (Eval.nearestExports? >>= f) (Eval.nearestExports? >>= f') := by
  refine keeps_after (fun o : Option ScopeId => o.toList.map .exports) (fun c m hready => ?_) hf
  refine ⟨_, _, rfl, .self hready.inv, fun i hi => ?_⟩
  obtain ⟨e, hfound, rfl⟩ := List.mem_map.mp hi
  obtain ⟨i, scope, hseen, hscope, hanswer⟩ :=
    h.exists_of_search hready.inv (h.seen_scope hready) (Option.mem_toList.mp hfound)
  split at hanswer
  · rename_i e' hkind
    cases hanswer
    exact hexports hready.inv hseen hscope hkind
  · cases hanswer

theorem exportPrimitives (he : g.ExportLaws) : ExportPrimitives g.Keeps where
  nearestExports? := h.keeps_nearestExports he.exports
  exportIn {_ id} name {v} hid hv := keeps_of_eq fun c m hready => by
    apply h.keeps_settle hready.inv (w := m.store.declare id name (.ofValue v))
    intro w hw
    exact he.exportIn hready.inv (hready.good _ hid) (h.known hready.good hv) hw

theorem nodePrimitives (hn : g.NodeLaws) : NodePrimitives g.Keeps where
  toExportPrimitives := h.exportPrimitives hn.toExportLaws
  code body hx c m hready := hx c m
    ⟨hready.inv, hready.scope, List.forall_mem_cons.mpr ⟨hn.code body, hready.good⟩⟩
  exhausted _ _ _ := ⟨rfl, .none hn.opened⟩
  trigger := h.keeps_trigger

end Laws

/-! ### Regimes that leave the counters alone -/

variable (g) in
/-- The counting of calls and modules, as a regime must allow it that
does not speak of it. -/
def Uncounted : Prop :=
  ∀ (σ : Settings) (m : Machine) (depth : Nat) (bringing : List String),
    g.Inv σ m → g.Moved σ m { m with depth, bringing }

section
variable (h : g.Uncounted) {ts : List Item}
include h

theorem Uncounted.keeps_enterCall :
    g.Keeps Unit ts Evaluator.enterCall Evaluator.enterCall := by
  apply keeps_of_eq
  intro c m hready
  by_cases hfull : c.settings.maxDepth ≤ m.depth
  · refine ⟨.error (.fault (.tooDeep m.depth c.settings.maxDepth)), m, ?_, .self hready.inv,
      fun i hi => by cases hi⟩
    rw [Evaluator.enterCall_apply, if_pos hfull]
  · have hmoved := h c.settings m (m.depth + 1) m.bringing hready.inv
    refine ⟨.ok (), { m with depth := m.depth + 1 }, ?_, hmoved, fun i hi => by cases hi⟩
    rw [Evaluator.enterCall_apply, if_neg hfull]

theorem Uncounted.keeps_startBring (path : String) :
    g.Keeps (List Node) ts (Evaluator.startBring path) (Evaluator.startBring path) := by
  apply keeps_of_eq
  intro c m hready
  rw [Evaluator.startBring_apply]
  split
  · exact ⟨_, _, rfl, .self hready.inv, fun i hi => by cases hi⟩
  · split
    · exact ⟨_, _, rfl, .self hready.inv, fun i hi => by cases hi⟩
    · have hmoved := h c.settings m m.depth (path :: m.bringing) hready.inv
      exact ⟨_, _, rfl, hmoved, fun i hi => by cases hi⟩

theorem Uncounted.keeps_exitCall : g.Keeps Unit ts Evaluator.exitCall Evaluator.exitCall := by
  apply keeps_of_eq
  intro c m hready
  exact ⟨_, _, rfl, h c.settings m (m.depth - 1) m.bringing hready.inv, fun i hi => by cases hi⟩

theorem Uncounted.keeps_finishBring :
    g.Keeps Unit ts Evaluator.finishBring Evaluator.finishBring := by
  apply keeps_of_eq
  intro c m hready
  exact ⟨_, _, rfl, h c.settings m m.depth m.bringing.tail hready.inv, fun i hi => by cases hi⟩

omit h in
theorem keeps_callDepth : g.Keeps Nat ts Evaluator.callDepth Evaluator.callDepth :=
  keeps_of_eq fun c m hready => ⟨_, _, rfl, .self hready.inv, fun i hi => by cases hi⟩

/-- Calls and modules keep a regime that does not speak of the
counters. -/
theorem Uncounted.conduct (hlaws : g.Laws) : Conduct g.Keeps.upward g.Keeps.upward :=
  .of_counters hlaws.primitives.rules (fun _ _ _ _ => h.keeps_enterCall)
    (fun _ _ _ _ => keeps_callDepth)
    (fun _ _ => calm_of_upward fun _ _ _ _ _ _ hf => keeps_bind h.keeps_exitCall hf)
    (fun _ _ path _ _ => h.keeps_startBring path)
    fun _ _ => calm_of_upward fun _ _ _ _ _ _ hf => keeps_bind h.keeps_finishBring hf

/-- Where a regime allows the changes of the primitives and does not
speak of the counters, every evaluation keeps it. -/
theorem Uncounted.congruence (hlaws : g.Laws) (hn : g.NodeLaws) : Congruence g.Keeps g.Keeps :=
  .of_counters hlaws.primitives (hlaws.nodePrimitives hn)
    (fun _ => h.keeps_enterCall) (fun _ => keeps_callDepth) (fun _ => h.keeps_exitCall)
    (fun _ path => h.keeps_startBring path) fun _ => h.keeps_finishBring

end

end Regime

end Treewalk.Proofs
