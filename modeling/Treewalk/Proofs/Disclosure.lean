import Treewalk.Proofs.Exposure

/-!
# `Treewalk.Proofs.Disclosure`: what toolkits show of themselves

At all moments of a run the exports of a toolkit are what
`Treewalk.Proofs.Exposure` says: they bind what was exposed to them.
`exports_hold_exposed` draws the conclusions for those who look at them.
A plug brings nothing else into the current scope, and a qualified name
that was not exposed is undefined.

A spec that is exported is bound twice, first in the current scope and
then in the exports of the toolkit around it. Where the first is
refused, nothing changes, and the second is never refused, because
exports bind nothing for good. But the toolkit is looked for between the
two, and the first may release a scope on the way to it, if the last
handle on that scope was under the name that is bound. `exports_miss_spec`
is a run in which the exports miss a spec for that reason. As long as
the way outlives the first binding, both scopes receive the spec.
-/

set_option autoImplicit false

namespace Treewalk.Proofs

open LogEntry (exposures)

/-! ### The way to a toolkit -/

/-- The scopes on the way from a scope to the toolkit around it, whose
scope is the last one. -/
inductive OnWay (s : Store) : ScopeId → ScopeId → Prop where
  | start (id : ScopeId) : OnWay s id id
  | above {id above i : ScopeId} {scope : Scope} : s.scope? id = some scope →
      (∀ exports, scope.kind ≠ .toolkit exports) → s.enclosing? scope = some above →
        OnWay s above i → OnWay s id i

/-- All scopes on the way to the toolkit are still alive later. -/
def Outlives (s t : Store) (id : ScopeId) : Prop :=
  ∀ i, OnWay s id i → t.Has (.scope i)

section
variable {s t : Store} (hscopes : Evolves SameShape s t) (hnext : t.next = s.next)
include hscopes hnext

/-- Where no scope is new, what is alive was so before. -/
theorem alive_before {id : ScopeId} {y : Scope} (hy : t.scope? id = some y) :
    ∃ x, s.scope? id = some x ∧ SameShape id x y :=
  hscopes.scope hy (hnext ▸ Store.lt_next hy)

/-- A scope is enclosed by the same scope as before, if that one is
alive. -/
theorem enclosing?_of_alive {id : ScopeId} {x y : Scope} (hshape : SameShape id x y)
    (halive : ∀ above, s.enclosing? x = some above → t.Has (.scope above)) :
    t.enclosing? y = s.enclosing? x := by
  have hlinks : y.links = x.links := by
    unfold Scope.links
    rw [hshape.parent, hshape.outer, hshape.root]
  have hdead : ∀ i, s.hasScope i = false → t.hasScope i = false := by
    intro i hi
    rw [Store.hasScope_eq_isSome] at hi ⊢
    cases hy : t.scope? i with
    | none => rfl
    | some y =>
      obtain ⟨x, hx, -⟩ := alive_before hscopes hnext hy
      rw [hx] at hi
      cases hi
  unfold Store.enclosing? at halive ⊢
  rw [hlinks]
  cases hfound : x.links.find? s.hasScope with
  | none =>
    rw [List.find?_eq_none] at hfound ⊢
    intro i hi
    simp [hdead i (by simpa using hfound i hi)]
  | some above =>
    obtain ⟨found, habove⟩ := halive above hfound
    rw [List.find?_eq_some_iff_append] at hfound ⊢
    obtain ⟨-, before, after, heq, hbefore⟩ := hfound
    refine ⟨Store.hasScope_of_eq habove, before, after, heq, fun i hi => ?_⟩
    simp [hdead i (by simpa using hbefore i hi)]

/-- As long as the way to the toolkit is there, the toolkit is the same. -/
theorem nearestExports?_of_outlives {id : ScopeId} (hway : Outlives s t id) :
    t.nearestExports? id = s.nearestExports? id := by
  unfold Store.nearestExports? Store.findUp?
  generalize id + 1 = bound
  induction bound generalizing id with
  | zero => rfl
  | succ bound ih =>
    obtain ⟨y, hy⟩ := hway id (.start id)
    obtain ⟨x, hx, hshape⟩ := alive_before hscopes hnext hy
    simp only [Store.search, hx, hy, hshape.kind]
    split
    · rfl
    · rename_i hanswer
      have hkind : ∀ exports, x.kind ≠ .toolkit exports := by
        intro exports hkind
        rw [hkind] at hanswer
        cases hanswer
      rw [enclosing?_of_alive hscopes hnext hshape fun above habove =>
        hway above (.above hx hkind habove (.start above))]
      cases habove : s.enclosing? x with
      | none => rfl
      | some above => exact ih fun i hi => hway i (.above hx hkind habove hi)

end

/-! ### Specs that are exported -/

/-- A scope that is alive and binds a name to a value that may change. -/
def Bound (s : Store) (id : ScopeId) (name : String) (v : Value) : Prop :=
  ∃ scope, s.scope? id = some scope ∧ scope.binding? name = some (.ofValue v)

section
variable {s t : Store} {id : ScopeId} {name : String} {v : Value} {b : Binding} {w : Written}

theorem bound_of_declare {scope : Scope} (hscope : s.scope? id = some scope)
    (hw : s.declare id name (.ofValue v) = .ok w) : Bound w.store id name v := by
  obtain ⟨-, hset⟩ := Store.declare_eq_ok_of_scope hscope hw
  refine ⟨scope.bind name (.ofValue v), ?_, ?_⟩
  · rw [hset, Store.scope?_setScope, if_pos rfl, hscope]
    rfl
  · rw [Scope.binding?_bind, if_pos rfl]

theorem Bound.declare_other {other : ScopeId} {n : String} (h : Bound s id name v)
    (hother : other ≠ id) (hw : s.declare other n b = .ok w) : Bound w.store id name v := by
  obtain ⟨scope, hscope, hbound⟩ := h
  rcases Store.declare_eq_ok hw with hsame | ⟨_, -, -, hset⟩
  · rw [hsame]
    exact ⟨scope, hscope, hbound⟩
  · refine ⟨scope, ?_, hbound⟩
    rw [hset, Store.scope?_setScope, if_neg (Ne.symm hother)]
    exact hscope

theorem Bound.release {held refs : List Ref} (h : Bound s id name v) (hheld : .scope id ∈ held) :
    Bound (s.release held refs) id name v := by
  obtain ⟨scope, hscope, hbound⟩ := h
  exact ⟨scope, scope?_release_of_held refs hheld hscope, hbound⟩

/-- What is bound still is where the scope stays alive. -/
theorem Bound.shrinks (h : Bound s id name v) (hshrinks : s.Shrinks t)
    (hhas : t.Has (.scope id)) : Bound t id name v := by
  obtain ⟨scope, hscope, hbound⟩ := h
  obtain ⟨after, hafter⟩ := hhas
  have hbefore := hshrinks.scope hafter
  rw [hscope] at hbefore
  cases hbefore
  exact ⟨scope, hafter, hbound⟩

end

/-- The export of a value never fails, and leaves all scopes apart from
the exports as they are. -/
theorem exportIfInToolkit_ends {c : Context} {m : Machine} (h : Secluded m.store) (name : String)
    (v : Value) : ∃ m', Evaluator.exportIfInToolkit name v c m = some (.ok (), m') ∧
      (∀ id n u, Placed m.store (id, false) → .scope id ∈ c.held → Bound m.store id n u →
        Bound m'.store id n u) ∧
      ∀ e, m.store.nearestExports? c.scope = some e → m'.store.Has (.scope e) →
        Bound m'.store e name v := by
  rw [Evaluator.exportIfInToolkit_apply]
  cases hfound : m.store.nearestExports? c.scope with
  | none => exact ⟨m, rfl, fun _ _ _ _ _ hbound => hbound, fun e he => by cases he⟩
  | some exports =>
    have hplaced := h.placed_of_nearest hfound
    obtain ⟨w, hw⟩ := h.declare_exports hplaced name (.ofValue v)
    refine ⟨{ m with store := w.store }.release c.held w.freed, ?_, ?_, ?_⟩
    · show Eval.settle (m.store.declare exports name (.ofValue v)) c m = _
      rw [hw, Eval.settle_apply]
    · intro id n u hid hheld hbound
      refine (hbound.declare_other (fun heq => ?_) hw).release hheld
      obtain ⟨scope, hscope, -⟩ := hbound
      have hkind := hplaced.kind (heq ▸ hscope)
      rw [hid.kind hscope] at hkind
      cases hkind
    · intro e he hhas
      cases he
      have hshrinks := w.store.shrinks_release c.held w.freed
      obtain ⟨after, hafter⟩ := hhas
      have hkinds : Evolves SameKind m.store w.store :=
        .declare SameKind.refl hw fun scope _ _ => SameKind.refl exports scope
      obtain ⟨before, hbefore, -⟩ := hkinds.scope (hshrinks.scope hafter) hplaced.lt
      exact (bound_of_declare hbefore hw).shrinks hshrinks ⟨after, hafter⟩

section
variable {c : Context} {m : Machine} {decl : Spec Node} {name : String} {frame : Scope}
  (hname : decl.name = some name) (hexported : decl.isExported = true)
  (hframe : m.store.scope? c.scope = some frame)
include hname hexported hframe

omit hframe in
theorem declareSpec_eq : Evaluator.declareSpec decl = (do
    Eval.declare name (.ofValue (.spec decl))
    Evaluator.exportIfInToolkit name (.spec decl)
    pure .nil) := by
  unfold Evaluator.declareSpec
  rw [hname, hexported]
  rfl

/-- A spec whose name the current scope binds for good is declared
nowhere. -/
theorem declareSpec_refused (hconstant : frame.isConstant name = true) :
    Evaluator.declareSpec decl c m = some (.error (.fault (.constant name)), m) := by
  rw [declareSpec_eq hname hexported,
    Eval.bind_of_error (Eval.declare_of_constant hframe hconstant _)]

/-- Any other spec that is exported is declared in the current scope and
in the exports that are found after that. These are the ones from before
as long as the way to them is still there. -/
theorem declareSpec_both (hfree : frame.isConstant name = false) (hsecluded : Secluded m.store)
    (hscope : Placed m.store (c.scope, false)) (hheld : .scope c.scope ∈ c.held) :
    ∃ m₁ m', Eval.declare name (.ofValue (.spec decl)) c m = some (.ok (), m₁) ∧
      Evaluator.declareSpec decl c m = some (.ok .nil, m') ∧
      Bound m'.store c.scope name (.spec decl) ∧
      (Outlives m.store m₁.store c.scope →
        m₁.store.nearestExports? c.scope = m.store.nearestExports? c.scope) ∧
      ∀ e, m₁.store.nearestExports? c.scope = some e → m'.store.Has (.scope e) →
        Bound m'.store e name (.spec decl) := by
  obtain ⟨freed, hw⟩ := Store.declare_of_free hframe hfree (.ofValue (.spec decl))
  have hdeclare := Eval.declare_eq_settle name (.ofValue (.spec decl)) c m
  rw [hw, Eval.settle_apply] at hdeclare
  let s₁ := m.store.setScope c.scope (frame.bind name (.ofValue (.spec decl)))
  let m₁ := { m with store := s₁ }.release c.held freed
  have hmoved : unexposed.Moved m.store m₁.store := by
    have hbound := unexposed_declare hsecluded hscope (fun p hp => by cases hp) hw
    exact ⟨hbound.inv.of_shrinks (s₁.shrinks_release c.held freed),
      hbound.step.trans (.release s₁ c.held freed)⟩
  obtain ⟨m', hexport, hkeeps, hexports⟩ :=
    exportIfInToolkit_ends (c := c) (m := m₁) hmoved.inv name (.spec decl)
  refine ⟨m₁, m', hdeclare, ?_, ?_, ?_, hexports⟩
  · rw [declareSpec_eq hname hexported, Eval.bind_of_ok hdeclare, Eval.bind_of_ok hexport]
    rfl
  · refine hkeeps _ _ _ (hscope.evolves hmoved.step.kinds) hheld ?_
    exact (bound_of_declare hframe hw).release hheld
  · have hshapes : Evolves SameShape m.store s₁ :=
      .declare SameShape.refl hw fun scope _ _ => ⟨rfl, rfl, rfl, rfl⟩
    exact nearestExports?_of_outlives
      (hshapes.trans SameShape.trans (.release SameShape.refl s₁ c.held freed))
      (s₁.shrinks_release c.held freed).next

end

/-! ### What a plug shows -/

/-- A scope that binds what it did, or what is shown to it. -/
def Shown (shown : List (String × Value)) (here id : ScopeId) (x y : Scope) : Prop :=
  ∀ n, y.binding? n = x.binding? n ∨
    id = here ∧ ∃ v, shown.lookup n = some v ∧ y.binding? n = some (.ofValue v)

section
variable {shown : List (String × Value)} {here : ScopeId}

theorem Shown.refl (id : ScopeId) (x : Scope) : Shown shown here id x x :=
  fun _ => .inl rfl

theorem Shown.trans (id : ScopeId) {x y z : Scope} (h : Shown shown here id x y)
    (h' : Shown shown here id y z) : Shown shown here id x z := by
  intro n
  rcases h' n with hsame | hshown
  · rw [hsame]
    exact h n
  · exact .inr hshown

end

/-- A copy of exports shows what has been exposed to them. -/
theorem HoldsExposed.copyBindings {s : Store} {e : ScopeId} {exposed : List (String × Value)}
    (h : HoldsExposed s e exposed) (he : Placed s (e, true)) (target : ScopeId) :
    Evolves (Shown exposed target) s (s.copyBindings target e).1.store := by
  refine .declareAll Shown.refl Shown.trans _ ⟨s, []⟩ none fun entry hentry scope n => ?_
  cases hfound : s.scope? e with
  | none =>
    rw [hfound] at hentry
    cases hentry
  | some exports =>
    rw [hfound] at hentry
    have hbound := h.bound hfound (he.kind hfound) entry.1
    rw [Scope.binding?_of_mem hentry] at hbound
    obtain ⟨v, hv, hentryv⟩ := Option.map_eq_some_iff.mp hbound.symm
    rw [Scope.binding?_bind]
    split
    · rename_i hn
      exact .inr ⟨rfl, v, hn ▸ hv, by rw [hentryv]⟩
    · exact .inl rfl

/-- Without a module there is nothing to fetch. -/
theorem fetch_none (ev : Evaluator) (name : String) (c : Context) (m : Machine) :
    Evaluator.fetch ev name none c m = some (.ok (), m) := by
  have hbound : Evaluator.isBound name c m =
      some (.ok (m.store.lookup? c.scope name).isSome, m) := rfl
  unfold Evaluator.fetch
  rw [Eval.bind_of_ok hbound]
  split <;> rfl

/-- A plug shows to the current scope what has been exposed to the
exports of the toolkit, and nothing else anywhere. -/
theorem plug_shows {ev : Evaluator} {name : String} {path : Option String} {c : Context}
    {m m₁ m' : Machine} {t : Toolkit} {r : Except Exit Value}
    (hfetch : Evaluator.fetch ev name path c m = some (.ok (), m₁))
    (hfound : m₁.store.lookup? c.scope name = some (.toolkit t)) (hsecluded : Secluded m₁.store)
    (hholds : HoldsExposed m₁.store t.exports (exposures m₁.log))
    (hplug : Evaluator.plug ev name path c m = some (r, m')) :
    Evolves (Shown (exposures m₁.log) c.scope) m₁.store m'.store := by
  have hlookup : Evaluator.lookupAs .toolkit name c m₁ = some (.ok (.toolkit t), m₁) := by
    have hanswer : Eval.lookup? name c m₁ = some (.ok (some (.toolkit t)), m₁) :=
      congrArg (fun found => some (Except.ok found, m₁)) hfound
    unfold Evaluator.lookupAs
    rw [Eval.bind_of_ok hanswer]
    rfl
  unfold Evaluator.plug at hplug
  rw [Eval.bind_of_ok hfetch, Eval.bind_of_ok hlookup] at hplug
  obtain ⟨_, hcount, -⟩ | ⟨_, _, hcount, hnoted⟩ := Eval.bind_inv hplug <;> cases hcount
  obtain ⟨_, hnote, -⟩ | ⟨_, _, hnote, hcopied⟩ := Eval.bind_inv hnoted <;> cases hnote
  -- However the copying ends, it is what leaves the store as it is in the end.
  obtain ⟨o, hcopy⟩ : ∃ o, Eval.holding (Value.toolkit t).refs
      (Eval.copyBindings c.scope t.exports) c (m₁.note _) = some (o, m') := by
    obtain ⟨e, hcopy, -⟩ | ⟨_, _, hcopy, hend⟩ := Eval.bind_inv hcopied
    · exact ⟨.error e, hcopy⟩
    · cases hend
      exact ⟨.ok (), hcopy⟩
  obtain ⟨m₂, hcopies, rfl⟩ := Eval.holding_inv hcopy
  rw [Eval.copyBindings_apply] at hcopies
  cases hcopies
  have hreleased : ∀ (m : Machine) (held refs : List Ref),
      Evolves (Shown (exposures m₁.log) c.scope) m₁.store m.store →
        Evolves (Shown (exposures m₁.log) c.scope) m₁.store (m.release held refs).store :=
    fun m held refs h => h.trans Shown.trans (.release Shown.refl m.store held refs)
  refine hreleased _ _ _ (hreleased _ _ _ ?_)
  exact hholds.copyBindings (hsecluded.placed_of_lookup hfound) c.scope

/-! ### What qualified names show -/

/-- What has not been exposed, exports do not answer. -/
theorem HoldsExposed.getLocal? {s : Store} {e : ScopeId} {exposed : List (String × Value)}
    (h : HoldsExposed s e exposed) (he : Placed s (e, true)) {name : String}
    (hhidden : exposed.lookup name = none) : s.getLocal? e name = none := by
  unfold Store.getLocal?
  cases hscope : s.scope? e with
  | none => rfl
  | some exports =>
    have hkind : exports.kind.isExports = true := he.kind hscope
    have hfree := h.bound hscope hkind name
    rw [hhidden] at hfree
    simp [Store.answer?, hfree, ScopeKind.isExports_eq_true_iff.mp hkind]

/-- A name that has not been exposed to the exports of a toolkit cannot
be reached through the toolkit. -/
theorem qualified_undefined {ev : Evaluator} {object : Node} {name : String} {c : Context}
    {m m₁ : Machine} {t : Toolkit} (hobject : ev object c m = some (.ok (.toolkit t), m₁))
    (he : Placed m₁.store (t.exports, true))
    (hholds : HoldsExposed m₁.store t.exports (exposures m₁.log))
    (hhidden : (exposures m₁.log).lookup name = none) :
    (∃ m', Evaluator.readAttribute ev object name c m =
      some (.error (.fault (.undefined .attr name)), m')) ∧
    ∀ run args, ∃ m', Evaluator.methodCall ev run object name args c m =
      some (.error (.fault (.undefined .exported name)), m') := by
  have hnone : ∀ c', Eval.getLocal? t.exports name c' m₁ = some (.ok none, m₁) := fun _ =>
    congrArg (fun found => some (Except.ok found, m₁)) (hholds.getLocal? he hhidden)
  constructor
  · exact ⟨_, Eval.borrow_of_ok hobject (Eval.bind_of_ok (hnone _))⟩
  · exact fun run args => ⟨_, Eval.borrow_of_ok hobject (Eval.bind_of_ok (hnone _))⟩

/-! ### All toolkits -/

/-- Runs that record keep the regime, whatever they run. -/
theorem recording_self (e : ScopeId) (steps : Nat) (kept loose : List Item) (node : Node) :
    (recorded e).regime.Keeps.upward Value kept loose (recording e (pure ()) steps node)
      (recording e (pure ()) steps node) :=
  (recorded_exportRules e).evaluateBy (fun hab => by rwa [Evaluator.guarded_pure]) steps kept loose node

/-- A new interpreter has no exports. -/
theorem asExposed_start (σ : Settings) (out err : Sink) (input : Source) (first : Nat)
    (e : ScopeId) :
    let s := Session.start σ out err input first
    AsExposed e (hostContext s s.globals) s.machine := by
  intro s
  have hstore : s.machine.store = ((Store.empty first).add (Scope.top .global)).2 := rfl
  have hsecluded : Secluded (Store.empty first) := .empty _ first
  refine ⟨?_, ⟨fun _ => rfl, ?_⟩, ?_⟩
  · exact hsecluded.add (fun id hid => by cases hid) fun p hp => by cases hp
  · intro scope hscope hexports name
    rw [hstore, Store.scope?_add, Store.scope?_empty] at hscope
    split at hscope
    · cases hscope
      cases hexports
    · cases hscope
  · exact placed_add (Store.empty first) .global none none none

section
variable {e : ScopeId} {c : Context} {m : Machine} (h : AsExposed e c m)
include h

/-- What a plug shows of the exports `e`, in the midst of a run. -/
theorem AsExposed.plug {steps : Nat} {name : String} {path : Option String} {m₁ m' : Machine}
    {t : Toolkit} {r : Except Exit Value}
    (hfetch : Evaluator.fetch (recording e (pure ()) steps) name path c m = some (.ok (), m₁))
    (hfound : m₁.store.lookup? c.scope name = some (.toolkit t)) (ht : t.exports = e)
    (hplug : Evaluator.plug (recording e (pure ()) steps) name path c m = some (r, m')) :
    Evolves (Shown (exposures m₁.log) c.scope) m₁.store m'.store := by
  have hfetches := (((recorded_exportRules e).toConduct.handling (recording_self e steps)
    (recorded_exportRules e).exhausted).fetch name path).all c m h.ready
  obtain ⟨hsecluded, hholds⟩ := (hfetches.2.ended hfetch).inv
  exact plug_shows hfetch hfound hsecluded (ht ▸ hholds) hplug

/-- What a qualified name shows of the exports `e`, in the midst of a
run. -/
theorem AsExposed.qualified {steps : Nat} {object : Node} {name : String} {t : Toolkit}
    {m₁ : Machine} (hobject : recording e (pure ()) steps object c m = some (.ok (.toolkit t), m₁))
    (ht : t.exports = e) (hhidden : (exposures m₁.log).lookup name = none) :
    (∃ m', Evaluator.readAttribute (recording e (pure ()) steps) object name c m =
      some (.error (.fault (.undefined .attr name)), m')) ∧
    ∀ run args, ∃ m',
      Evaluator.methodCall (recording e (pure ()) steps) run object name args c m =
        some (.error (.fault (.undefined .exported name)), m') := by
  have hobjects := (recording_self e steps [] [] object).all c m h.ready
  have hended := hobjects.2.ended hobject
  have hplaced : Placed m₁.store (t.exports, true) :=
    hended.good _ (List.mem_singleton_self _) _ (List.mem_cons_of_mem _ (List.mem_singleton_self _))
  exact qualified_undefined hobject hplaced (ht ▸ hended.inv.2) hhidden

end

/-- Toolkits export what was exposed to them. Take a new interpreter in
which programs run in the global scope, and any exports `e`.

* A run that records what is exposed to `e` is the plain run but for the
  records. At every moment, and at the end, `e` is as exposed.
* At such a moment a name is bound in `e` if it has been exposed to `e`,
  and to the value with which it was exposed last. No binding of any
  exports is for good, and no scope is below exports. What a toolkit
  names as its exports are exports.
* An exported spec whose name the current scope binds for good changes
  nothing. Any other one is bound in the current scope, and also in the
  exports `e` around, unless the first binding releases a scope on the
  way to them.
* A plug brings into the current scope what has been exposed to `e`, and
  changes no other binding. A name that has not been exposed to `e` can
  be read or called through the toolkit neither. -/
theorem exports_hold_exposed (σ : Settings) (out err : Sink) (input : Source) (first : Nat)
    (e : ScopeId) (programs : List (Nat × Node)) :
    let s := Session.start σ out err input first
    let start := hostContext s s.globals
    let run := runPrograms (recording e (pure ())) programs start s.machine
    SameBut LogEntry.isStrayBack [] run (runPrograms evaluate programs start s.machine) ∧
    (∀ alarm, runPrograms (recording e (sentry (AsExposed e) alarm)) programs start s.machine =
      run) ∧
    (∀ r m, run = some (r, m) → AsExposed e start m) ∧
    ∀ c m, AsExposed e c m →
      (∀ exports, m.store.scope? e = some exports → exports.kind = .exports → ∀ name,
        exports.binding? name = ((exposures m.log).lookup name).map .ofValue) ∧
      (∀ id scope, m.store.scope? id = some scope →
        (scope.kind = .exports → ∀ name, scope.isConstant name = false) ∧
        (∀ above ∈ scope.links, ∀ x, m.store.scope? above = some x → x.kind ≠ .exports) ∧
        ∀ exports, scope.kind = .toolkit exports →
          ∀ x, m.store.scope? exports = some x → x.kind = .exports) ∧
      (∀ decl name frame, decl.name = some name → decl.isExported = true →
        m.store.scope? c.scope = some frame → .scope c.scope ∈ c.held →
        m.store.nearestExports? c.scope = some e →
          if frame.isConstant name then
            Evaluator.declareSpec decl c m = some (.error (.fault (.constant name)), m)
          else
            ∃ m₁ m', Eval.declare name (.ofValue (.spec decl)) c m = some (.ok (), m₁) ∧
              Evaluator.declareSpec decl c m = some (.ok .nil, m') ∧
              Bound m'.store c.scope name (.spec decl) ∧
              (Outlives m.store m₁.store c.scope →
                m₁.store.nearestExports? c.scope = some e) ∧
              (m₁.store.nearestExports? c.scope = some e → m'.store.Has (.scope e) →
                Bound m'.store e name (.spec decl))) ∧
      (∀ steps name path m₁ t r m',
        Evaluator.fetch (recording e (pure ()) steps) name path c m = some (.ok (), m₁) →
        m₁.store.lookup? c.scope name = some (.toolkit t) → t.exports = e →
        Evaluator.plug (recording e (pure ()) steps) name path c m = some (r, m') →
          Evolves (Shown (exposures m₁.log) c.scope) m₁.store m'.store) ∧
      ∀ steps object name t m₁,
        recording e (pure ()) steps object c m = some (.ok (.toolkit t), m₁) → t.exports = e →
        (exposures m₁.log).lookup name = none →
          (∃ m', Evaluator.readAttribute (recording e (pure ()) steps) object name c m =
            some (.error (.fault (.undefined .attr name)), m')) ∧
          ∀ run args, ∃ m',
            Evaluator.methodCall (recording e (pure ()) steps) run object name args c m =
              some (.error (.fault (.undefined .exported name)), m') := by
  intro s start run
  have hstart : AsExposed e start s.machine := asExposed_start σ out err input first e
  have hkeeps := fun alarm => recording_runs e alarm programs start s.machine hstart.ready
  refine ⟨runPrograms_recording e programs start s.machine, fun alarm => (hkeeps alarm).1, ?_, ?_⟩
  · intro r m hend
    have hended := (hkeeps Eval.exhausted).2.ended hend
    exact .of_ready (hstart.ready.moved hended.toMoved (List.forall_mem_nil _))
  · intro c m h
    refine ⟨?_, ?_, ?_, ?_, ?_⟩
    · intro exports hexports hkind
      exact h.holds.bound hexports (by rw [hkind]; rfl)
    · intro id scope hscope
      have hapart := h.secluded id scope hscope
      refine ⟨fun hkind => hapart.changes (by rw [hkind]; rfl), fun above habove x hx hkind => ?_,
        fun exports hkind x hx => ?_⟩
      · have hplain := (hapart.links above habove).kind hx
        rw [hkind] at hplain
        cases hplain
      · have hexports := (h.secluded.placed_of_toolkit hscope hkind).kind hx
        exact ScopeKind.isExports_eq_true_iff.mp hexports
    · intro decl name frame hname hexported hframe hheld hnearest
      cases hconstant : frame.isConstant name with
      | true => exact declareSpec_refused hname hexported hframe hconstant
      | false =>
        obtain ⟨m₁, m', hdeclare, hspec, hbound, hway, hexports⟩ :=
          declareSpec_both hname hexported hframe hconstant h.secluded h.scope hheld
        refine ⟨m₁, m', hdeclare, hspec, hbound, fun houtlives => ?_, hexports e⟩
        exact (hway houtlives).trans hnearest
    · intro steps name path m₁ t r m' hfetch hfound ht hplug
      exact h.plug hfetch hfound ht hplug
    · intro steps object name t m₁ hobject ht hhidden
      exact h.qualified hobject ht hhidden

/-- A spec without parameters that is exported. -/
def exportedSpec (name : String) : Spec Node :=
  ⟨0, some name, [], [], true, false, none⟩

/-- Whether a scope is that of a toolkit with the exports 1, and may bind
a name. -/
def isToolkit (name : String) (scope : Scope) : Bool :=
  (match scope.kind with
    | .toolkit exports => exports == 1
    | _ => false) && !scope.isConstant name

/-- Whether a value is a toolkit with the exports 1. -/
def namesExports : Value → Bool
  | .toolkit t => t.exports == 1
  | _ => false

theorem kind_of_isToolkit {name : String} {scope : Scope} (h : isToolkit name scope = true) :
    scope.kind = .toolkit 1 ∧ scope.isConstant name = false := by
  simp only [isToolkit, Bool.and_eq_true, Bool.not_eq_true'] at h
  obtain ⟨hkind, hfree⟩ := h
  split at hkind
  · rename_i hexports
    exact ⟨by rw [hexports, eq_of_beq hkind], hfree⟩
  · cases hkind

theorem eq_of_namesExports {v : Value} (h : namesExports v = true) :
    ∃ t, v = .toolkit t ∧ t.exports = 1 := by
  cases v with
  | toolkit t => exact ⟨t, rfl, eq_of_beq h⟩
  | _ => cases h

/-- Whether an evaluation leaves a scope alive. -/
def leaves {α : Type} (id : ScopeId) (o : Option (Except Exit α × Machine)) : Bool :=
  o.any fun last => last.2.store.hasScope id

theorem has_of_leaves {α : Type} {o : Option (Except Exit α × Machine)} {id : ScopeId}
    (h : leaves id o = true) {r : Except Exit α} {m : Machine} (ho : o = some (r, m)) :
    m.store.Has (.scope id) := by
  rw [ho] at h
  have hscope : m.store.hasScope id = true := h
  rw [Store.hasScope_eq_isSome] at hscope
  exact Option.isSome_iff_exists.mp hscope

/-- After a run a toolkit holds what it exposes. Inside of it a spec is
exported, and outside it is plugged in, and asked for a name that it
does not expose. -/
theorem exports_hold_exposed_toolkit :
    let s := Session.start .standard (.limited none none) (.limited none none) ⟨[]⟩ 0
    let start := hostContext s s.globals
    let program := Node.toolkit "T" [.spec (exportedSpec "g")]
    let ev := recording 1 (pure ()) 2
    ∃ r m, runPrograms (recording 1 (pure ())) [(5, program)] start s.machine = some (r, m) ∧
      AsExposed 1 start m ∧
      (∃ m', Evaluator.declareSpec (exportedSpec "h") ⟨.standard, 2, [.scope 2]⟩ m =
          some (.ok .nil, m') ∧
        Bound m'.store 2 "h" (.spec (exportedSpec "h")) ∧
        Bound m'.store 1 "h" (.spec (exportedSpec "h"))) ∧
      (∃ r' m', Evaluator.plug ev "T" none start m = some (r', m') ∧
        Evolves (Shown (exposures m.log) 0) m.store m'.store) ∧
      ∃ m', Evaluator.readAttribute ev (.var "T") "x" start m =
        some (.error (.fault (.undefined .attr "x")), m') := by
  intro s start program ev
  let inside : Context := ⟨.standard, 2, [.scope 2]⟩
  let h := exportedSpec "h"
  let run := runPrograms (recording 1 (pure ())) [(5, program)] start s.machine
  obtain ⟨⟨r, m⟩, hrun⟩ : ∃ last, run = some last :=
    Option.isSome_iff_exists.mp (by decide +kernel)
  have hleft : ∀ p : Machine → Bool, (run.any fun last => p last.2) = true → p m = true := by
    intro p hp
    rw [hrun] at hp
    exact hp
  obtain ⟨-, -, hends, hmoments⟩ :=
    exports_hold_exposed .standard (.limited none none) (.limited none none) ⟨[]⟩ 0 1 [(5, program)]
  have hexposed : AsExposed 1 start m := hends r m hrun
  obtain ⟨-, -, -, hplug, hqualified⟩ := hmoments start m hexposed
  refine ⟨r, m, hrun, hexposed, ?_, ?_, ?_⟩
  -- Inside of the toolkit, whose scope is the whole way to it.
  · obtain ⟨frame, hframe, hfacts⟩ := (Option.any_eq_true ..).mp
      (hleft (fun m => (m.store.scope? 2).any (isToolkit "h")) (by decide +kernel))
    obtain ⟨hkind, hfree⟩ := kind_of_isToolkit hfacts
    have hplaced : Placed m.store (2, false) := by
      refine ⟨Store.lt_next hframe, fun hscope => ?_⟩
      rw [hframe] at hscope
      cases hscope
      rw [hkind]
      rfl
    have hnearest : m.store.nearestExports? 2 = some 1 :=
      eq_of_beq (hleft (fun m => m.store.nearestExports? 2 == some 1) (by decide +kernel))
    obtain ⟨-, -, hspec, -⟩ := hmoments inside m ⟨hexposed.secluded, hexposed.holds, hplaced⟩
    have hboth := hspec h "h" frame rfl rfl hframe (List.mem_singleton_self _) hnearest
    rw [if_neg (by simp [hfree])] at hboth
    obtain ⟨m₁, m', hdeclare, hdeclares, hframebound, hway, hexported⟩ := hboth
    have houtlives : Outlives m.store m₁.store 2 := by
      intro i hi
      cases hi with
      | start =>
        refine has_of_leaves (hleft (fun m => leaves 2 (Eval.declare "h" _ inside m)) ?_) hdeclare
        decide +kernel
      | above hscope hother _ _ =>
        rw [hframe] at hscope
        cases hscope
        exact absurd hkind (hother 1)
    refine ⟨m', hdeclares, hframebound, hexported (hway houtlives) ?_⟩
    refine has_of_leaves (hleft (fun m => leaves 1 (Evaluator.declareSpec h inside m)) ?_) hdeclares
    decide +kernel
  · obtain ⟨⟨r', m'⟩, hplugged⟩ := Option.isSome_iff_exists.mp
      (hleft (fun m => (Evaluator.plug ev "T" none start m).isSome) (by decide +kernel))
    obtain ⟨v, hfound, hv⟩ := (Option.any_eq_true ..).mp
      (hleft (fun m => (m.store.lookup? 0 "T").any namesExports) (by decide +kernel))
    obtain ⟨t, rfl, ht⟩ := eq_of_namesExports hv
    exact ⟨r', m', hplugged,
      hplug 2 "T" none m t r' m' (fetch_none ev "T" start m) hfound ht hplugged⟩
  · obtain ⟨⟨found, m₁⟩, hobject, hfacts⟩ := (Option.any_eq_true ..).mp
      (hleft (fun m => (ev (.var "T") start m).any fun last =>
        last.1.toOption.any namesExports && ((exposures last.2.log).lookup "x").isNone)
        (by decide +kernel))
    simp only [Bool.and_eq_true, Option.isNone_iff_eq_none] at hfacts
    obtain ⟨hvalue, hhidden⟩ := hfacts
    cases found with
    | error e => cases hvalue
    | ok v =>
      obtain ⟨t, rfl, ht⟩ := eq_of_namesExports hvalue
      exact (hqualified 2 (.var "T") "x" t m₁ hobject ht hhidden).1

/-- In a bridge in a toolkit a blueprint has a method `m` that exports a
spec `f`. It may lose the bridge while it binds the name: the last
handle on the bridge is what `f` was before. -/
def exportsFromBridge (losesBridge : Bool) : Node :=
  let loss : List Node := [.assign (.var "f") (.var "R"), .assign (.var "R") .nil]
  let body : List Node :=
    (if losesBridge then loss else []) ++ [.spec (exportedSpec "f"), .back (some (.var "f"))]
  let declaration : Spec Node := ⟨0, some "m", ["own"], body, false, false, none⟩
  .program
    [.assign (.var "b") .nil,
      .toolkit "T" [.bridge "R"
        [.blueprint ⟨"B", [], [.spec declaration], none, none⟩,
          .assign (.var "b") (.spawn (.var "B") [])]],
      .assign (.var "r") (.methodCall (.var "b") "m" [])]

/-- Whether the scope 0 knows a spec as `r`, and what the exports 1
bind. -/
def specAndExports (m : Machine) : Bool × Option (List String) :=
  ((m.store.lookup? 0 "r").any fun v =>
    match v with
    | .spec s => s.displayName == "f"
    | _ => false,
    (m.store.scope? 1).map Scope.names)

/-- The frame of the method receives the spec in both runs, and the
exports of the toolkit in one of them only. In the other one the way
from the method to the toolkit led through the bridge, which the binding
released, and the next scope that is found is the global one. -/
theorem exports_miss_spec :
    let s := Session.start .standard (.limited none none) (.limited none none) ⟨[]⟩ 0
    let run (losesBridge : Bool) := runProgram (evaluate 12) (exportsFromBridge losesBridge)
      (hostContext s s.globals) s.machine
    (run false).map (fun last => specAndExports last.2) = some (true, some ["f"]) ∧
      (run true).map (fun last => specAndExports last.2) = some (true, some []) := by
  decide +kernel

end Treewalk.Proofs
