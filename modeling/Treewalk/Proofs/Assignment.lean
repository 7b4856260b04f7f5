import Treewalk.Proofs.Chains

/-!
# `Treewalk.Proofs.Assignment`: an assignment writes what a look-up reads

Two walks go up the same chain. A look-up stops at the first scope that
answers the name, an assignment at the first one that binds it. For all
names but `self` these are the same (`lookup?_eq_holder?`): `self` is
answered by the fields of an instance that do not bind it.

An assignment writes one binding and nothing else (`Rebound`). Then the
overwritten value is let go, which can take scopes and instances away.
As long as it takes none, all other names read as before from
everywhere, since the chains are the same and so is what they find.

Main statement: `assignment_writes_nearest`.
-/

set_option autoImplicit false

namespace Treewalk

/-- Whether a name is bound in a scope. -/
def Store.binds (s : Store) (name : String) (id : ScopeId) : Bool :=
  ((s.scope? id).bind fun scope => scope.binding? name).isSome

/-- Bindings of which one has another value, in the same place and as
final as before. -/
def Bindings.revalue (name : String) (v : Value) (bs : Bindings) : Bindings :=
  bs.map fun (n, b) => (n, if n = name then { b with value := v } else b)

namespace Bindings

theorem revalue_of_notMem {name : String} {bs : Bindings} (h : name ∉ bs.map Prod.fst)
    (v : Value) : bs.revalue name v = bs := by
  refine (List.map_congr_left fun entry hentry => ?_).trans (List.map_id bs)
  have hne : entry.1 ≠ name := fun heq => h (heq ▸ List.mem_map_of_mem hentry)
  simp only [if_neg hne, id]

/-- To put what is bound already is to give it another value. -/
theorem put_eq_revalue {name : String} {old : Binding} {bs : Bindings}
    (hnodup : (bs.map Prod.fst).Nodup) (hold : bs.lookup name = some old)
    (hchange : old.constant = false) (v : Value) :
    bs.put name (.ofValue v) = bs.revalue name v := by
  induction bs with
  | nil => cases hold
  | cons entry rest ih =>
    obtain ⟨key, b⟩ := entry
    rw [List.map_cons, List.nodup_cons] at hnodup
    by_cases hkey : key = name
    · -- This is the place, and the name is not bound a second time.
      have hb : b = old := by simpa [List.lookup_cons, hkey] using hold
      have hrest := revalue_of_notMem (hkey ▸ hnodup.1) v
      rw [revalue] at hrest
      simp [put, revalue, hkey, hrest, hb, Binding.ofValue, hchange]
    · have hrest : rest.lookup name = some old := by
        simpa [List.lookup_cons, beq_false_of_ne (Ne.symm hkey)] using hold
      have hput := ih hnodup.2 hrest
      rw [revalue] at hput
      simp [put, revalue, hkey, hput]

/-- What is not bound yet is put at the end. -/
theorem put_eq_append {name : String} {bs : Bindings} (hfree : bs.lookup name = none)
    (b : Binding) : bs.put name b = bs ++ [(name, b)] := by
  induction bs with
  | nil => rfl
  | cons entry rest ih =>
    obtain ⟨key, old⟩ := entry
    by_cases hkey : key = name
    · simp [hkey] at hfree
    · have hrest : rest.lookup name = none := by
        simpa [List.lookup_cons, beq_false_of_ne (Ne.symm hkey)] using hfree
      simp [put, hkey, ih hrest]

end Bindings

namespace Proofs

/-! ### The two walks -/

section
variable {s : Store} {id holder : ScopeId} {name : String}

/-- An assignment goes to the first scope of the chain that binds the
name. -/
theorem Descends.holder?_eq (h : Descends s) {chain : List ScopeId} (hchain : s.Chain id chain)
    (name : String) : s.holder? id name = chain.find? (s.binds name) := by
  rw [Store.holder?, h.findUp?_eq hchain, List.find?_eq_findSome?_guard]
  congr 1
  funext i
  cases hscope : s.scope? i with
  | none => simp [Store.binds, Option.guard, hscope]
  | some scope => cases hbound : scope.binding? name <;>
      simp [Store.binds, Option.guard, hscope, hbound]

/-- The scope at which an assignment stops binds the name. -/
theorem binding?_of_holder (h : s.holder? id name = some holder) :
    ∃ scope b, s.scope? holder = some scope ∧ scope.binding? name = some b := by
  obtain ⟨i, scope, hscope, hanswer⟩ := Store.exists_of_search h
  obtain ⟨b, hb, rfl⟩ := Option.map_eq_some_iff.mp hanswer
  exact ⟨scope, b, hscope, hb⟩

/-- A scope that binds the name is the first on its own chain. -/
theorem holder?_of_binding {scope : Scope} {b : Binding} (hscope : s.scope? id = some scope)
    (hbound : scope.binding? name = some b) : s.holder? id name = some id := by
  simp [Store.holder?, Store.findUp?, Store.search, hscope, hbound]

/-- Scopes answer all names but `self` by their bindings only. -/
theorem answer?_of_ne_self (hname : name ≠ selfName) (scope : Scope) :
    s.answer? name scope = (scope.binding? name).map Binding.value := by
  unfold Store.answer?
  cases hbound : scope.binding? name with
  | some b => rfl
  | none => cases scope.kind <;> simp [hname]

/-- A look-up of such a name ends where an assignment stops. -/
theorem lookup?_eq_holder? (hname : name ≠ selfName) (id : ScopeId) :
    s.lookup? id name =
      (s.holder? id name).bind fun holder =>
        (s.scope? holder).bind fun scope => (scope.binding? name).map Binding.value := by
  unfold Store.lookup? Store.holder? Store.findUp?
  -- The walks go on together until a scope binds the name.
  generalize id + 1 = bound
  induction bound generalizing id with
  | zero => rfl
  | succ bound ih =>
    cases hscope : s.scope? id with
    | none => simp [Store.search, hscope]
    | some scope =>
      cases hbound : scope.binding? name with
      | some b => simp [Store.search, hscope, answer?_of_ne_self hname, hbound]
      | none =>
        have hfree : s.answer? name scope = none := by
          rw [answer?_of_ne_self hname, hbound, Option.map_none]
        cases habove : s.enclosing? scope with
        | none => simp [Store.search, hscope, hfree, hbound, habove]
        | some above =>
          simp only [Store.search, hscope, hfree, hbound, habove, Option.map_none]
          exact ih above

end

/-! ### One scope with other bindings -/

/-- A store that differs from an earlier one in the bindings of one live
scope and in nothing else. -/
structure Rebound (s t : Store) (id : ScopeId) (bs : Bindings) : Prop where
  target : ∃ before after, s.scope? id = some before ∧ t.scope? id = some after ∧
    SameShape id before after ∧ after.bindings = bs
  others {i : ScopeId} : i ≠ id → t.scope? i = s.scope? i
  instances (i : InstanceId) : t.instance? i = s.instance? i

/-- The same scopes and the same instances are alive. -/
structure SameAlive (s t : Store) : Prop where
  scopes (id : ScopeId) : t.hasScope id = s.hasScope id
  instances (id : InstanceId) : t.hasInstance id = s.hasInstance id

theorem hasInstance_eq_isSome (s : Store) (id : InstanceId) :
    s.hasInstance id = (s.instance? id).isSome := by
  simp [Store.hasInstance, Store.instance?]

/-- If something is let go and nothing is gone, nothing has happened. -/
theorem SameAlive.of_release {s : Store} {held refs : List Ref}
    (h : SameAlive s (s.release held refs)) :
    (∀ id, (s.release held refs).scope? id = s.scope? id) ∧
      ∀ id, (s.release held refs).instance? id = s.instance? id := by
  have hremains := Remains.release s held refs
  refine ⟨fun id => ?_, fun id => ?_⟩
  · have halive := h.scopes id
    rw [Store.hasScope_eq_isSome, Store.hasScope_eq_isSome] at halive
    cases hafter : (s.release held refs).scope? id with
    | some scope => exact (hremains.scope hafter).symm
    | none =>
      rw [hafter] at halive
      exact (Option.not_isSome_iff_eq_none.mp (by simp [← halive])).symm
  · have halive := h.instances id
    rw [hasInstance_eq_isSome, hasInstance_eq_isSome] at halive
    cases hafter : (s.release held refs).instance? id with
    | some i => exact (hremains.object hafter).symm
    | none =>
      rw [hafter] at halive
      exact (Option.not_isSome_iff_eq_none.mp (by simp [← halive])).symm

/-- To bind a name in a live scope changes the bindings of that. -/
theorem rebound_bind {s : Store} {id : ScopeId} {scope : Scope} (hscope : s.scope? id = some scope)
    (name : String) (b : Binding) :
    Rebound s (s.setScope id (scope.bind name b)) id (scope.bindings.put name b) where
  target := ⟨scope, scope.bind name b, hscope,
    by rw [Store.scope?_setScope, if_pos rfl, hscope]; rfl, ⟨rfl, rfl, rfl, rfl⟩, rfl⟩
  others hi := by rw [Store.scope?_setScope, if_neg hi]
  instances _ := rfl

namespace Rebound

variable {s t : Store} {id : ScopeId} {bs : Bindings}

theorem alive (h : Rebound s t id bs) : SameAlive s t where
  scopes i := by
    rw [Store.hasScope_eq_isSome, Store.hasScope_eq_isSome]
    by_cases hi : i = id
    · obtain ⟨before, after, hbefore, hafter, -⟩ := h.target
      rw [hi, hbefore, hafter]
      rfl
    · rw [h.others hi]
  instances i := by rw [hasInstance_eq_isSome, hasInstance_eq_isSome, h.instances]

/-- As long as nothing is gone, only the bindings differ. -/
theorem release (h : Rebound s t id bs) {held refs : List Ref}
    (halive : SameAlive s (t.release held refs)) : Rebound s (t.release held refs) id bs := by
  have hkept : SameAlive t (t.release held refs) :=
    ⟨fun i => (halive.scopes i).trans (h.alive.scopes i).symm,
      fun i => (halive.instances i).trans (h.alive.instances i).symm⟩
  obtain ⟨hscopes, hinstances⟩ := hkept.of_release
  obtain ⟨before, after, hbefore, hafter, hshape, hbindings⟩ := h.target
  exact ⟨⟨before, after, hbefore, (hscopes id).trans hafter, hshape, hbindings⟩,
    fun {i} hi => (hscopes i).trans (h.others hi), fun i => (hinstances i).trans (h.instances i)⟩

theorem links (h : Rebound s t id bs) (i : ScopeId) (x y : Scope) (hx : s.scope? i = some x)
    (hy : t.scope? i = some y) : y.links = x.links := by
  by_cases hi : i = id
  · obtain ⟨before, after, hbefore, hafter, hshape, -⟩ := h.target
    rw [hi] at hx hy
    cases hx.symm.trans hbefore
    cases hy.symm.trans hafter
    rw [Scope.links, Scope.links, hshape.parent, hshape.outer, hshape.root]
  · rw [h.others hi, hx] at hy
    cases hy
    rfl

/-- A walk ends as before if the scope in question answers as before. -/
theorem findUp?_eq (h : Rebound s t id bs) {α : Type} {answer answer' : ScopeId → Scope → Option α}
    (hothers : ∀ i scope, answer' i scope = answer i scope)
    (htarget : ∀ before after, s.scope? id = some before → SameShape id before after →
      after.bindings = bs → answer' id after = answer id before) (i : ScopeId) :
    t.findUp? answer' i = s.findUp? answer i := by
  refine search_congr h.alive.scopes h.links (fun j => ?_) _ i
  by_cases hj : j = id
  · obtain ⟨before, after, hbefore, hafter, hshape, hbindings⟩ := h.target
    rw [hj, hbefore, hafter]
    exact htarget before after hbefore hshape hbindings
  · rw [h.others hj, show answer' j = answer j from funext (hothers j)]

/-- A name that the scope binds as before reads as before from
everywhere. -/
theorem lookup?_eq (h : Rebound s t id bs) {n : String}
    (hbinding : ∀ before, s.scope? id = some before → bs.lookup n = before.binding? n)
    (i : ScopeId) : t.lookup? i n = s.lookup? i n := by
  have hanswer : ∀ before after : Scope, after.kind = before.kind →
      after.binding? n = before.binding? n → t.answer? n after = s.answer? n before := by
    intro before after hkind hsame
    simp only [Store.answer?, hkind, hsame, h.alive.instances]
  refine h.findUp?_eq (fun _ scope => hanswer scope scope rfl rfl) ?_ i
  intro before after hbefore hshape hbindings
  refine hanswer before after hshape.kind ?_
  rw [Scope.binding?, hbindings, hbinding before hbefore]

/-- A name is held where it was if the scope bound it before and binds
it now. -/
theorem holder?_eq (h : Rebound s t id bs) {name : String}
    (hbound : ∀ before, s.scope? id = some before →
      (bs.lookup name).isSome = (before.binding? name).isSome) (i : ScopeId) :
    t.holder? i name = s.holder? i name := by
  refine h.findUp?_eq (fun _ _ => rfl) (fun before after hbefore hshape hbindings => ?_) i
  have hsome := hbound before hbefore
  rw [← hbindings] at hsome
  have hafter : (after.binding? name).isSome = (before.binding? name).isSome := hsome
  cases hx : before.binding? name <;> cases hy : after.binding? name <;> simp_all

end Rebound

/-! ### What an assignment does -/

/-- After the name has been bound where it is held, or else at the start
of the chain, it reads as the value from there, and all other names read
as before from everywhere. -/
theorem Rebound.reads {s t : Store} {id start : ScopeId} {scope : Scope} {name : String} {v : Value}
    (h : Rebound s t id (scope.bindings.put name (.ofValue v))) (hscope : s.scope? id = some scope)
    (hid : id = (s.holder? start name).getD start) :
    (∀ i n, n ≠ name → t.lookup? i n = s.lookup? i n) ∧
      (name ≠ selfName → t.lookup? start name = some v) := by
  refine ⟨fun i n hn => h.lookup?_eq (fun before hbefore => ?_) i, fun hname => ?_⟩
  · cases hscope.symm.trans hbefore
    rw [Bindings.lookup_put, if_neg hn]
    rfl
  · obtain ⟨_, after, -, hafter, -, hbindings⟩ := h.target
    have hbound : after.binding? name = some (.ofValue v) := by
      rw [Scope.binding?, hbindings, Bindings.lookup_put, if_pos rfl]
    have hholder : t.holder? start name = some id := by
      cases hbefore : s.holder? start name with
      | none =>
        -- The walk stops at once, at the new binding.
        rw [hbefore, Option.getD_none] at hid
        subst hid
        exact holder?_of_binding hafter hbound
      | some holder =>
        rw [hbefore, Option.getD_some] at hid
        subst hid
        refine (h.holder?_eq (fun before hscope' => ?_) start).trans hbefore
        obtain ⟨_, old, hheld, hold⟩ := binding?_of_holder hbefore
        cases hscope.symm.trans hscope'
        cases hscope.symm.trans hheld
        rw [Bindings.lookup_put, if_pos rfl, hold]
        rfl
    rw [lookup?_eq_holder? hname, hholder, Option.bind_some, hafter, Option.bind_some, hbound]
    rfl

section
variable {c : Context} {m : Machine} {id : ScopeId} {scope : Scope} {name : String}
  (hid : (m.store.holder? c.scope name).getD c.scope = id)
  (hscope : m.store.scope? id = some scope)
include hid hscope

/-- A name that is not bound for good where it is to be written is
written there, and what it was bound to is let go. -/
theorem assign_apply (hchange : scope.isConstant name = false) (v : Value) :
    Eval.assign name v c m =
      some (.ok (), { m with
        store := (m.store.setScope id (scope.bind name (.ofValue v))).release c.held
          ((scope.binding? name).elim [] fun old => old.value.refs) }) := by
  rw [Eval.assign_eq_settle, Store.assign, hid, Eval.settle_apply,
    Store.declare_eq_of_free hscope hchange]
  rfl

theorem assign_constant (hconstant : scope.isConstant name = true) (v : Value) :
    Eval.assign name v c m = some (.error (.fault (.constant name)), m) := by
  rw [Eval.assign_eq_settle, Store.assign, hid, Eval.settle_apply,
    Store.declare_of_constant hscope hconstant]

end

/-- The nearest binding of a name is for good. -/
def FixedNearest (s : Store) (id : ScopeId) (name : String) : Prop :=
  ∃ holder scope, s.holder? id name = some holder ∧ s.scope? holder = some scope ∧
    scope.isConstant name = true

/-- An assignment succeeds unless the nearest binding is for good. -/
theorem assign_cases (name : String) (v : Value) (c : Context) (m : Machine) :
    (∃ m', Eval.assign name v c m = some (.ok (), m')) ∨
      FixedNearest m.store c.scope name ∧
        Eval.assign name v c m = some (.error (.fault (.constant name)), m) := by
  cases hscope : m.store.scope? ((m.store.holder? c.scope name).getD c.scope) with
  | none =>
    left
    refine ⟨m, ?_⟩
    rw [Eval.assign_eq_settle, Store.assign, Store.declare, hscope]
    rfl
  | some scope =>
    cases hconstant : scope.isConstant name with
    | false => exact .inl ⟨_, assign_apply rfl hscope hconstant v⟩
    | true =>
      refine .inr ⟨⟨_, scope, ?_, hscope, hconstant⟩, assign_constant rfl hscope hconstant v⟩
      cases hholder : m.store.holder? c.scope name with
      | some holder => rfl
      | none =>
        -- A scope that binds the name would hold it.
        rw [hholder, Option.getD_none] at hscope
        obtain ⟨b, hbound, -⟩ := (Option.any_eq_true ..).mp hconstant
        cases hholder.symm.trans (holder?_of_binding hscope hbound)

/-- An assignment writes the binding that a look-up reads. Take a live
scope in a state that has come about in any way, a name and a value, and
go up the chain of the scope.

* If a scope on the chain binds the name, take the first one. What it
  binds the name to is what the name reads as, unless that is `self`. If
  it is bound for good, the assignment fails and nothing changes. Else it
  succeeds and has given the binding the value, in its place; then the
  old value is let go.
* If none does, the name is bound last in the scope itself, and nothing
  else changes.
* If the assignment succeeds and what is let go takes no scope and no
  instance away, all other names read as before from everywhere, and the
  name reads as the value, unless it is `self`. -/
theorem assignment_writes_nearest (first : ScopeId) (history : List Change) {c : Context}
    {m : Machine} {here : Scope} (hstore : m.store = (Chronicle.ofHistory first history).store)
    (hhere : m.store.scope? c.scope = some here) (name : String) (v : Value) :
    (∃ chain, m.store.Chain c.scope chain) ∧ ∀ chain, m.store.Chain c.scope chain →
      (∀ t, chain.find? (m.store.binds name) = some t →
        ∃ scope old, m.store.scope? t = some scope ∧ scope.binding? name = some old ∧
          (name ≠ selfName → m.store.lookup? c.scope name = some old.value) ∧
          (old.constant = true →
            Eval.assign name v c m = some (.error (.fault (.constant name)), m)) ∧
          (old.constant = false → ∃ u, Rebound m.store u t (scope.bindings.revalue name v) ∧
            Eval.assign name v c m =
              some (.ok (), { m with store := u.release c.held old.value.refs }))) ∧
      (chain.find? (m.store.binds name) = none →
        ∃ u, Rebound m.store u c.scope (here.bindings ++ [(name, .ofValue v)]) ∧
          Eval.assign name v c m = some (.ok (), { m with store := u })) ∧
      ∀ m', Eval.assign name v c m = some (.ok (), m') → SameAlive m.store m'.store →
        (∀ id n, n ≠ name → m'.store.lookup? id n = m.store.lookup? id n) ∧
          (name ≠ selfName → m'.store.lookup? c.scope name = some v) := by
  have hdown : Descends m.store := hstore ▸ descends_ofHistory first history
  refine ⟨hdown.exists_chain hhere, fun chain hchain => ?_⟩
  rw [← hdown.holder?_eq hchain]
  refine ⟨fun t ht => ?_, fun hnone => ?_, fun m' hm' halive => ?_⟩
  · obtain ⟨scope, old, hscope, hold⟩ := binding?_of_holder ht
    have hid : (m.store.holder? c.scope name).getD c.scope = t := by rw [ht, Option.getD_some]
    have hflag : scope.isConstant name = old.constant := by
      rw [Scope.isConstant, hold, Option.any_some]
    refine ⟨scope, old, hscope, hold, fun hname => ?_, fun hconstant => ?_, fun hchange => ?_⟩
    · rw [lookup?_eq_holder? hname, ht, Option.bind_some, hscope, Option.bind_some, hold]
      rfl
    · exact assign_constant hid hscope (hflag.trans hconstant) v
    · have happly := assign_apply hid hscope (hflag.trans hchange) v
      rw [hold] at happly
      refine ⟨_, ?_, happly⟩
      rw [← Bindings.put_eq_revalue scope.nodup hold hchange v]
      exact rebound_bind hscope name (.ofValue v)
  · have hid : (m.store.holder? c.scope name).getD c.scope = c.scope := by
      rw [hnone, Option.getD_none]
    -- Otherwise the scope itself would hold the name.
    have hfree : here.binding? name = none := by
      cases hbound : here.binding? name with
      | none => rfl
      | some b => cases hnone.symm.trans (holder?_of_binding hhere hbound)
    have happly := assign_apply hid hhere (by rw [Scope.isConstant, hfree]; rfl) v
    rw [hfree] at happly
    refine ⟨_, ?_, happly⟩
    rw [← Bindings.put_eq_append hfree]
    exact rebound_bind hhere name (.ofValue v)
  · obtain ⟨scope, hscope⟩ :
        ∃ scope, m.store.scope? ((m.store.holder? c.scope name).getD c.scope) = some scope := by
      cases hholder : m.store.holder? c.scope name with
      | none => exact ⟨here, hhere⟩
      | some holder =>
        obtain ⟨scope, _, hscope, -⟩ := binding?_of_holder hholder
        exact ⟨scope, hscope⟩
    cases hconstant : scope.isConstant name with
    | true => cases hm'.symm.trans (assign_constant rfl hscope hconstant v)
    | false =>
      cases hm'.symm.trans (assign_apply rfl hscope hconstant v)
      exact ((rebound_bind hscope name (.ofValue v)).release halive).reads hscope rfl

/-- A global name that is assigned to from a block is written among the
globals. -/
theorem assignment_writes_nearest_global :
    let s := (Chronicle.ofHistory 0 [.make .global, .bind 0 "x" (.ofValue (.text "old")),
      .makeIn 0 .block]).store
    let c : Context := ⟨.standard, 1, [.scope 0, .scope 1]⟩
    let m := { Machine.single (Scope.top .global) with store := s }
    s.Chain 1 [1, 0] ∧ ∃ u, Rebound s u 0 [("x", .ofValue (.text "new"))] ∧
      Eval.assign "x" (.text "new") c m = some (.ok (), { m with store := u }) ∧
      u.lookup? 1 "x" = some (.text "new") := by
  intro s c m
  have hchain : s.Chain 1 [1, 0] := .above rfl rfl (.top rfl rfl)
  have hwrites := (assignment_writes_nearest 0 _ (c := c) (m := m) rfl rfl "x" (.text "new")).2
    [1, 0] hchain
  obtain ⟨scope, old, hscope, hold, -, -, hwritten⟩ := hwrites.1 0 rfl
  cases hscope
  cases hold
  obtain ⟨u, hu, hassign⟩ := hwritten rfl
  exact ⟨hchain, u, hu, hassign, (hwrites.2.2 _ hassign hu.alive).2 (by decide)⟩

end Proofs

end Treewalk
