import Treewalk.Proofs.Copying
import Treewalk.Proofs.Isolation

/-!
# `Treewalk.Proofs.Adoption`: whom an adoption reaches

An adoption copies the bindings of the parent into the scope of the
child. An instance has a copy of what its blueprint bound when it was
made, and shares the scope of its blueprint for what it looks up there:
an attribute is its own field first, a method is first what the blueprint
declares. So an adoption reaches the instances in different ways. New
ones find all of it among their own fields (`ReachesNew`). Old ones have
their own fields as before, call the adopted methods, and answer the
adopted attributes that they have no field for (`ReachesOld`).

All is read off what the store has become (`Adopted`): one scope is
overlaid, and beside it there is only what has gone.

Main statement: `adoption_reaches`.
-/

set_option autoImplicit false

namespace Treewalk

/-- What an instance answers to a method name, as the store is. -/
def Store.method? (s : Store) (i : Instance) (name : String) : Option Value :=
  (s.getLocal? i.blueprint.scope name).filter (fun v => v.kind = .spec) <|>
    s.getLocal? i.fields name

namespace Proofs

/-- This is what a program gets as the method. -/
theorem method?_apply (i : Instance) (name : String) (c : Context) (m : Machine) :
    Evaluator.method? i name c m = some (.ok (m.store.method? i name), m) := by
  have hfirst : Eval.getLocal? i.blueprint.scope name c m =
      some (.ok (m.store.getLocal? i.blueprint.scope name), m) := rfl
  unfold Store.method?
  refine (Eval.bind_of_ok hfirst).trans ?_
  cases m.store.getLocal? i.blueprint.scope name with
  | none => rfl
  | some v => cases v <;> rfl

/-! ### What the store has become -/

/-- A store after an adoption: the scope of the child is overlaid with
what the parent binds, and what else is left is as it was. -/
structure Adopted (s t : Store) (id parent : ScopeId) (x y : Scope) : Prop where
  target {scope : Scope} : t.scope? id = some scope → scope = x.overlay y.bindings
  parent {scope : Scope} : t.scope? parent = some scope → scope = y
  others {i : ScopeId} {scope : Scope} : i ≠ id → t.scope? i = some scope →
    s.scope? i = some scope
  objects {i : InstanceId} {j : Instance} : t.instance? i = some j → s.instance? i = some j

/-- The child has the name from the parent now. -/
def Adopts (x y : Scope) (name : String) (b : Binding) : Prop :=
  x.isConstant name = false ∧ y.binding? name = some b

/-- The name is none of the parent's, or a constant of the child. -/
def Stays (x y : Scope) (name : String) : Prop :=
  x.isConstant name = true ∨ y.binding? name = none

/-- What an instance answers that is made right after an adoption. -/
structure ReachesNew (t : Store) (i : Instance) (x y : Scope) : Prop where
  adopted {n : String} {b : Binding} : Adopts x y n b → t.attribute? i n = some b.value ∧
    t.method? i n = some b.value
  kept {n : String} : n ≠ selfName → Stays x y n →
    t.attribute? i n = (x.binding? n).map Binding.value ∧
      t.method? i n = (x.binding? n).map Binding.value

/-- What an instance answers that was made before an adoption. -/
structure ReachesOld (s t : Store) (i : Instance) (x y : Scope) : Prop where
  field (n : String) : t.getLocal? i.fields n = s.getLocal? i.fields n
  adopted {n : String} {b : Binding} : Adopts x y n b →
    t.attribute? i n = some ((s.getLocal? i.fields n).getD b.value) ∧
      (b.value.kind = .spec → t.method? i n = some b.value)
  kept {n : String} : Stays x y n → t.attribute? i n = s.attribute? i n ∧
    t.method? i n = s.method? i n

theorem Adopts.binding? {x y : Scope} {n : String} {b : Binding} (h : Adopts x y n b) :
    (x.overlay y.bindings).binding? n = some b :=
  (overlaid_overlay x y).copied h.1 h.2

theorem Stays.binding? {x y : Scope} {n : String} (h : Stays x y n) :
    (x.overlay y.bindings).binding? n = x.binding? n :=
  h.elim (overlaid_overlay x y).constant (overlaid_overlay x y).remaining

/-- A scope that is not the fields of an instance answers by its bindings
only. -/
theorem getLocal?_of_kind {s : Store} {id : ScopeId} {scope : Scope}
    (hscope : s.scope? id = some scope) (hkind : scope.kind = .blueprint) (n : String) :
    s.getLocal? id n = (scope.binding? n).map Binding.value := by
  simp only [Store.getLocal?, hscope, Option.bind_some, Store.answer?, hkind]
  cases scope.binding? n <;> rfl

/-- Where fields and blueprint agree on a name, there is nothing to
choose. -/
theorem answers_of_agreed {s : Store} {i : Instance} {n : String} {o : Option Value}
    (hfield : s.getLocal? i.fields n = o) (habove : s.getLocal? i.blueprint.scope n = o) :
    s.attribute? i n = o ∧ s.method? i n = o := by
  rw [Store.attribute?, Store.method?, hfield, habove]
  cases o with
  | none => exact ⟨rfl, rfl⟩
  | some v => by_cases hspec : v.kind = .spec <;> simp [Option.filter, hspec]

section
variable {s t : Store} {id parent : ScopeId} {x y : Scope} (h : Adopted s t id parent x y)
include h

/-- An instance that is made now has all that the child binds as its
fields. -/
theorem Adopted.reachesNew {b : Blueprint} (hb : b.scope = id) (halive : t.hasScope id = true) :
    (t.spawn b).1.blueprint = b ∧ ReachesNew (t.spawn b).2 (t.spawn b).1 x y := by
  rw [Store.hasScope_eq_isSome] at halive
  obtain ⟨scope, hscope⟩ := Option.isSome_iff_exists.mp halive
  cases h.target hscope
  subst hb
  obtain ⟨-, hfst, ⟨fields, hfields, hkind, hbindings⟩, hothers, -⟩ := spawn_spec hscope
  rw [hfst]
  refine ⟨rfl, ?_⟩
  have hblueprint : (t.spawn b).2.scope? b.scope = some (x.overlay y.bindings) := by
    rw [hothers _ (Nat.ne_of_lt (Nat.lt_succ_of_lt (Store.lt_next hscope))), hscope]
  have hsame : ∀ n, fields.binding? n = (x.overlay y.bindings).binding? n := by
    intro n
    rw [Scope.binding?, hbindings]
    rfl
  refine ⟨fun {n bd} hadopts => answers_of_agreed ?_ ?_,
    fun {n} hn hstays => answers_of_agreed ?_ ?_⟩
  · exact getLocal?_of_binding hfields ((hsame n).trans hadopts.binding?)
  · exact getLocal?_of_binding hblueprint hadopts.binding?
  · rw [Store.getLocal?, hfields, Option.bind_some, answer?_of_ne_self hn, hsame,
      hstays.binding?]
  · rw [Store.getLocal?, hblueprint, Option.bind_some, answer?_of_ne_self hn, hstays.binding?]

end

section
variable {s t : Store} {id parent : ScopeId} {x y : Scope} (h : Adopted s t id parent x y)
  (hs : Sound 0 s) (ht : Sound 0 t) (hx : s.scope? id = some x) (hkind : x.kind = .blueprint)
  {i : Instance} (hi : t.instance? i.id = some i)
include h hs ht hx hkind hi

/-- The fields of an instance answer as before. -/
theorem Adopted.fields (n : String) : t.getLocal? i.fields n = s.getLocal? i.fields n := by
  refine getLocal?_fields ht (h.objects hi) hi (fun scope hscope => ?_) n
  refine h.others (fun hself => ?_) hscope
  -- The child's scope was made for a blueprint, and fields are made for an instance.
  obtain ⟨fields, hfields, hfieldskind, -⟩ := (hs.instances (h.objects hi)).fields
  rw [hself, hx] at hfields
  cases hfields
  cases hkind.symm.trans hfieldskind

theorem Adopted.reachesOld (hid : i.blueprint.scope = id) : ReachesOld s t i x y := by
  have hfield := h.fields hs ht hx hkind hi
  obtain ⟨scope, hscope, hkind'⟩ := ht.blueprint_scope hi
  rw [hid] at hscope
  cases h.target hscope
  have hafter : ∀ n, t.getLocal? i.blueprint.scope n =
      ((x.overlay y.bindings).binding? n).map Binding.value :=
    fun n => getLocal?_of_kind (hid ▸ hscope) hkind' n
  have hbefore : ∀ n, s.getLocal? i.blueprint.scope n = (x.binding? n).map Binding.value :=
    fun n => getLocal?_of_kind (hid ▸ hx) hkind n
  refine ⟨hfield, fun {n b} hadopts => ⟨?_, fun hspec => ?_⟩, fun {n} hstays => ⟨?_, ?_⟩⟩
  · rw [Store.attribute?, hfield, hafter, hadopts.binding?]
    cases s.getLocal? i.fields n <;> rfl
  · rw [Store.method?, hafter, hadopts.binding?, Option.map_some, Option.filter_some,
      if_pos (decide_eq_true hspec)]
    rfl
  · rw [Store.attribute?, Store.attribute?, hfield, hafter, hbefore, hstays.binding?]
  · rw [Store.method?, Store.method?, hfield, hafter, hbefore, hstays.binding?]

end

/-! ### The run of an adoption -/

/-- A blueprint that a name stands for is named by a live scope. -/
theorem named_of_lookup {s : Store} {id : ScopeId} {name : String} {b : Blueprint}
    (h : s.lookup? id name = some (.blueprint b)) :
    ∃ i scope, s.scope? i = some scope ∧ .scope b.scope ∈ scope.refs := by
  obtain ⟨i, scope, hscope, hanswer⟩ := Store.exists_of_search h
  obtain ⟨entry, hentry, hvalue⟩ | ⟨_, _, hobject⟩ := Store.answer?_eq_some hanswer
  · refine ⟨i, scope, hscope, List.mem_append_right _ (List.mem_flatMap.mpr ⟨entry, hentry, ?_⟩)⟩
    show Ref.scope b.scope ∈ entry.2.value.refs
    rw [← hvalue]
    exact List.mem_singleton_self _
  · cases hobject

/-- What a name stands for lives. -/
theorem Sound.lookup? {s : Store} (h : Sound 0 s) {id : ScopeId} {name : String} {v : Value}
    (hv : s.lookup? id name = some v) : Lives 0 s v := by
  obtain ⟨_, _, hscope, hanswer⟩ := Store.exists_of_search hv
  exact h.answer hscope hanswer

theorem lookupBlueprint_apply {name : String} {b : Blueprint} {c : Context} {m : Machine}
    (h : m.store.lookup? c.scope name = some (.blueprint b)) :
    Evaluator.lookupBlueprint name c m = some (.ok b, m) := by
  have hlookup : Eval.lookup? name c m = some (.ok (some (.blueprint b)), m) :=
    congrArg (fun v => some (Except.ok v, m)) h
  have hread : Evaluator.lookupAs .blueprint name c m = some (.ok (.blueprint b), m) :=
    Eval.bind_of_ok hlookup
  exact Eval.bind_of_ok hread

theorem refs_copyOutcome (x y : Scope) : Owner.refs (copyOutcome x y) = [] := by
  unfold copyOutcome
  cases y.names.find? x.isConstant <;> rfl

section
variable {c : Context} {m : Machine} {child parent : String} {cb pb : Blueprint} {x y : Scope}
  (hchild : m.store.lookup? c.scope child = some (.blueprint cb))
  (hparent : m.store.lookup? c.scope parent = some (.blueprint pb))
  (hx : m.store.scope? cb.scope = some x) (hy : m.store.scope? pb.scope = some y)
include hchild hparent hx hy

/-- An adoption copies, and lets go what was overwritten and then the two
blueprints. -/
theorem adopt_apply : ∃ r m', Evaluator.adopt child parent c m = some (r, m') ∧
    m'.store = ((m.store.copyBindings cb.scope pb.scope).1.store.release
      ([.scope cb.scope, .scope pb.scope] ++ c.held)
      (y.bindings.flatMap fun entry => x.displaced entry.1)).release c.held
        [.scope cb.scope, .scope pb.scope] := by
  let m₁ := m.note (.adopt cb.name pb.name)
  let inner : Context := { c with held := [.scope cb.scope, .scope pb.scope] ++ c.held }
  obtain ⟨-, -, hcopy⟩ := copyBindings_eq (c := inner) (m := m₁) hx hy
  have hheld := @Eval.holding_of_some _ _ [.scope cb.scope, .scope pb.scope] _ c _ _ _ hcopy
  have hstart : ∀ {r m'}, (Eval.holding [.scope cb.scope, .scope pb.scope]
      (Eval.copyBindings cb.scope pb.scope) >>= fun _ => pure Value.nil) c m₁ = some (r, m') →
      Evaluator.adopt child parent c m = some (r, m') := fun hrest =>
    (Eval.bind_of_ok (lookupBlueprint_apply hchild)).trans
      ((Eval.bind_of_ok (lookupBlueprint_apply hparent)).trans hrest)
  rw [refs_copyOutcome, List.nil_append] at hheld
  cases hr : copyOutcome x y with
  | ok _ =>
    rw [hr] at hheld
    exact ⟨.ok .nil, _, hstart (Eval.bind_of_ok hheld), rfl⟩
  | error e =>
    rw [hr] at hheld
    exact ⟨.error e, _, hstart (Eval.bind_of_error hheld), rfl⟩

/-- What an adoption does to the store. What is held stays alive. -/
theorem adopt_adopted (hsound : Sound 0 m.store) :
    ∃ r m', Evaluator.adopt child parent c m = some (r, m') ∧ Sound 0 m'.store ∧
      Adopted m.store m'.store cb.scope pb.scope x y ∧
      ∀ r ∈ c.held, m.store.Has r → m'.store.Has r := by
  obtain ⟨r, m', hrun, hstore⟩ := adopt_apply hchild hparent hx hy
  obtain ⟨hrebound, htarget, -⟩ := copyBindings_eq (c := c) hx hy
  obtain ⟨hcopied, hgrows⟩ := hsound.copyBindings cb.scope pb.scope
  have hremains : Remains c.held (m.store.copyBindings cb.scope pb.scope).1.store m'.store := by
    rw [hstore]
    exact ((Remains.release ..).mono (List.subset_append_right ..)).trans (.release ..)
  refine ⟨r, m', hrun, ?_, ⟨fun hscope => ?_, fun hscope => ?_, fun hi hscope => ?_, fun hj => ?_⟩,
    fun r hr hhas => hremains.held hr (hgrows.has hhas)⟩
  · rw [hstore]
    exact (hcopied.release _ _).release _ _
  · exact Option.some.inj ((hremains.scope hscope).symm.trans htarget)
  · exact Option.some.inj ((hremains.scope hscope).symm.trans (source_of_copied hx hy hrebound))
  · exact (hrebound.others hi).symm.trans (hremains.scope hscope)
  · exact (hrebound.instances _).symm.trans (hremains.object hj)

/-- An adoption of what is adopted already changes nothing. -/
theorem adopt_again (hsettled : ∀ entry ∈ y.bindings,
      x.isConstant entry.1 = true ∨ x.binding? entry.1 = some entry.2) :
    ∃ r m', Evaluator.adopt child parent c m = some (r, m') ∧
      (∀ id, m'.store.scope? id = m.store.scope? id) ∧
      ∀ id, m'.store.instance? id = m.store.instance? id := by
  obtain ⟨r, m', hrun, hstore⟩ := adopt_apply hchild hparent hx hy
  obtain ⟨hrebound, -, -⟩ := copyBindings_eq (c := c) hx hy
  rw [Scope.overlay_eq_self hsettled] at hrebound
  have hscopes := hrebound.scope?_eq hx
  have hblueprints : ∀ r ∈ [Ref.scope cb.scope, .scope pb.scope],
      ∃ i scope, m.store.scope? i = some scope ∧ r ∈ scope.refs := by
    intro r hr
    rcases List.mem_cons.mp hr with rfl | hr
    · exact named_of_lookup hchild
    · exact List.mem_singleton.mp hr ▸ named_of_lookup hparent
  -- All that is let go is still named: by the child, and by those that name the blueprints.
  have hfirst : ∀ held, (m.store.copyBindings cb.scope pb.scope).1.store.release held
      (y.bindings.flatMap fun entry => x.displaced entry.1) =
        (m.store.copyBindings cb.scope pb.scope).1.store := fun held =>
    Store.release_of_kept fun r hr => by
      obtain ⟨entry, -, hmem⟩ := List.mem_flatMap.mp hr
      exact .inr (Store.refersTo_of_scope ((hscopes _).trans hx) (Scope.mem_refs_of_displaced hmem))
  have hsecond : (m.store.copyBindings cb.scope pb.scope).1.store.release c.held
      [.scope cb.scope, .scope pb.scope] = (m.store.copyBindings cb.scope pb.scope).1.store :=
    Store.release_of_kept fun r hr => by
      obtain ⟨i, scope, hscope, hnames⟩ := hblueprints r hr
      exact .inr (Store.refersTo_of_scope ((hscopes i).trans hscope) hnames)
  rw [hfirst, hsecond] at hstore
  exact ⟨r, m', hrun, fun id => hstore ▸ hscopes id, fun id => hstore ▸ hrebound.instances id⟩

end

/-- A report always comes to an end. -/
theorem exists_report (e : Exit) (c : Context) (m : Machine) :
    ∃ r m', Eval.report e c m = some (r, m') := by
  show ∃ r m', Eval.heed (m.err.offer (e.category ++ ": " ++ e.message ++ "\n")).1 c
    { m.note (.reported e) with
      err := (m.err.offer (e.category ++ ": " ++ e.message ++ "\n")).2 } = some (r, m')
  cases (m.err.offer (e.category ++ ": " ++ e.message ++ "\n")).1 <;> exact ⟨_, _, rfl⟩

/-- What the end of a node makes of an exit touches no scope. -/
theorem recovering_store {x : Eval Value} {c : Context} {m m₁ : Machine} {r : Except Exit Value}
    (h : x c m = some (r, m₁)) :
    ∃ r' m', Evaluator.recovering x c m = some (r', m') ∧ m'.store = m₁.store := by
  have hended : Eval.outcome x c m = some (.ok r, m₁) := Eval.outcome_of_some h
  match r, hended with
  | .error (.fault f), hended =>
    obtain ⟨reported, m₂, hreport⟩ := exists_report (.fault f) c m₁
    have hstore := (Eval.report_inv hreport).1
    cases reported with
    | ok _ => exact ⟨_, m₂, (Eval.bind_of_ok hended).trans (Eval.bind_of_ok hreport), hstore⟩
    | error _ =>
      exact ⟨_, m₂, (Eval.bind_of_ok hended).trans (Eval.bind_of_error hreport), hstore⟩
  | .ok _, hended => exact ⟨_, _, Eval.bind_of_ok hended, rfl⟩
  | .error (.raised _ _), hended => exact ⟨_, _, Eval.bind_of_ok hended, rfl⟩
  | .error (.flow _), hended => exact ⟨_, _, Eval.bind_of_ok hended, rfl⟩
  | .error .interrupted, hended => exact ⟨_, _, Eval.bind_of_ok hended, rfl⟩
  | .error (.stream _), hended => exact ⟨_, _, Eval.bind_of_ok hended, rfl⟩

/-- As a node, an adoption does to the store what it does, unless the run
is to stop. -/
theorem evaluate_adopt {P : Store → Prop} {c : Context} {m : Machine} {child parent : String}
    (hadopt : ∀ log, ∃ r m', Evaluator.adopt child parent c { m with log } = some (r, m') ∧
      P m'.store) (steps : Nat) :
    ∃ r m', evaluate (steps + 1) (.adopt child parent) c m = some (r, m') ∧
      (m.interrupted = true ∧ m' = m ∨ m.interrupted = false ∧ P m'.store) := by
  cases hflag : m.interrupted with
  | true => exact ⟨_, m, evaluate_of_interrupted hflag steps _, .inl ⟨rfl, rfl⟩⟩
  | false =>
    obtain ⟨log, hvisit⟩ := noteVisit_apply (.adopt child parent) c m
    obtain ⟨r, m₁, hrun, hstore⟩ := hadopt log
    obtain ⟨r', m', hnode, hsame⟩ := recovering_store hrun
    exact ⟨r', m', (evaluate_of_visit hflag hvisit steps).trans hnode, .inr ⟨rfl, hsame ▸ hstore⟩⟩

/-- Whom an adoption reaches. Let two names stand for blueprints, in any
state in which all that is named is alive and no stop is asked for, and
let the one adopt the other. Take any name that the parent binds and the
child has not as a constant.

* An instance that is made next answers it with what the parent binds, as
  an attribute and as a method.
* An instance that was there answers it as a method with what the parent
  binds, if that is a spec. Its own field stays as it was; as an
  attribute the instance answers that, if there is one, and else what the
  parent binds.

Names that the parent does not bind, and constants of the child, are in
the child what they were, and the instances answer them as before. So do
the instances of other blueprints with all names. The parent binds what
it did, also if it is the child, and so does every other scope. Nothing
is made, and what the context holds stays alive. The same adoption done
once more changes no scope and no instance, from wherever it is done. -/
theorem adoption_reaches {c : Context} {m : Machine} {child parent : String} {cb pb : Blueprint}
    (hsound : Sound 0 m.store) (hflag : m.interrupted = false)
    (hchild : m.store.lookup? c.scope child = some (.blueprint cb))
    (hparent : m.store.lookup? c.scope parent = some (.blueprint pb)) (steps : Nat) :
    ∃ x y r m', m.store.scope? cb.scope = some x ∧ m.store.scope? pb.scope = some y ∧
      evaluate (steps + 1) (.adopt child parent) c m = some (r, m') ∧
      (m'.store.hasScope cb.scope = true → ∀ c', ∃ i m'',
        Evaluator.newInstance cb c' m' = some (.ok i, m'') ∧ i.blueprint = cb ∧
          ReachesNew m''.store i x y) ∧
      (∀ i, m'.store.instance? i.id = some i → i.blueprint.scope = cb.scope →
        ReachesOld m.store m'.store i x y) ∧
      (∀ i, m'.store.instance? i.id = some i → i.blueprint.scope ≠ cb.scope → ∀ n,
        m'.store.attribute? i n = m.store.attribute? i n ∧
          m'.store.method? i n = m.store.method? i n) ∧
      (∀ x', m'.store.scope? cb.scope = some x' → ∀ n, Stays x y n →
        x'.binding? n = x.binding? n) ∧
      (∀ y', m'.store.scope? pb.scope = some y' → y' = y) ∧
      (∀ id scope, id ≠ cb.scope → m'.store.scope? id = some scope →
        m.store.scope? id = some scope) ∧
      (∀ id i, m'.store.instance? id = some i → m.store.instance? id = some i) ∧
      (∀ ref ∈ c.held, m.store.Has ref → m'.store.Has ref) ∧
      ∀ (c' : Context) (child' parent' : String) (cb' pb' : Blueprint) (steps' : Nat),
        cb'.scope = cb.scope → pb'.scope = pb.scope →
        m'.store.lookup? c'.scope child' = some (.blueprint cb') →
        m'.store.lookup? c'.scope parent' = some (.blueprint pb') →
        ∃ r' m'', evaluate (steps' + 1) (.adopt child' parent') c' m' = some (r', m'') ∧
          (∀ id, m''.store.scope? id = m'.store.scope? id) ∧
          ∀ id, m''.store.instance? id = m'.store.instance? id := by
  obtain ⟨x, hx, hkind⟩ : Stands 0 m.store cb.scope .blueprint := hsound.lookup? hchild
  obtain ⟨y, hy, -⟩ : Stands 0 m.store pb.scope .blueprint := hsound.lookup? hparent
  have hkind := hkind (Nat.zero_le _)
  obtain ⟨r, m', hrun, hstopped | ⟨-, hsound', hadopted, hheld⟩⟩ :=
    evaluate_adopt (P := fun t => Sound 0 t ∧ Adopted m.store t cb.scope pb.scope x y ∧
      ∀ ref ∈ c.held, m.store.Has ref → t.Has ref)
      (fun log => adopt_adopted (m := { m with log }) hchild hparent hx hy hsound) steps
  · rw [hflag] at hstopped
    cases hstopped.1
  refine ⟨x, y, r, m', hx, hy, hrun, ?new, ?old, ?others, ?child, fun _ => hadopted.parent,
    fun _ _ => hadopted.others, fun _ _ => hadopted.objects, hheld, ?again⟩
  case new =>
    intro halive c'
    obtain ⟨hblueprint, hreaches⟩ := hadopted.reachesNew rfl halive
    exact ⟨_, _, rfl, hblueprint, hreaches⟩
  case old =>
    intro i hi hid
    exact hadopted.reachesOld hsound hsound' hx hkind hi hid
  case others =>
    intro i hi hne n
    have hfield := hadopted.fields hsound hsound' hx hkind hi n
    have habove := getLocal?_blueprint hsound' hi (fun _ => hadopted.others hne) n
    exact ⟨by rw [Store.attribute?, Store.attribute?, hfield, habove],
      by rw [Store.method?, Store.method?, hfield, habove]⟩
  case child =>
    intro x' hx' n hstays
    rw [hadopted.target hx', hstays.binding?]
  case again =>
    intro c' child' parent' cb' pb' steps' hcb hpb hchild' hparent'
    obtain ⟨x', hx', -⟩ : Stands 0 m'.store cb'.scope .blueprint := hsound'.lookup? hchild'
    obtain ⟨y', hy', -⟩ : Stands 0 m'.store pb'.scope .blueprint := hsound'.lookup? hparent'
    cases hadopted.target (hcb ▸ hx')
    cases hadopted.parent (hpb ▸ hy')
    obtain ⟨r', m'', hrun', hstopped | ⟨-, hsame⟩⟩ :=
      evaluate_adopt (P := fun t => (∀ id, t.scope? id = m'.store.scope? id) ∧
        ∀ id, t.instance? id = m'.store.instance? id)
        (fun log => adopt_again (m := { m' with log }) hchild' hparent' hx' hy'
          fun entry => (overlaid_overlay x y).settled) steps'
    · exact ⟨r', m'', hrun', by simp [hstopped.2]⟩
    · exact ⟨r', m'', hrun', hsame⟩

/-- Whether an instance is there of a blueprint that can adopt a method,
from another one that has it. -/
def canAdopt (child parent method : String) (id : InstanceId) (m : Machine) : Bool :=
  !m.interrupted &&
    ((m.store.lookup? 0 child).bind Value.blueprint?).any fun cb =>
      ((m.store.lookup? 0 parent).bind Value.blueprint?).any fun pb =>
        (m.store.instance? id).any (fun i => i.blueprint.scope = cb.scope) &&
        (m.store.scope? cb.scope).any (fun x => !x.isConstant method) &&
        (m.store.scope? pb.scope).any fun y =>
          (y.binding? method).any fun b => b.value.kind = .spec

theorem lookup?_of_blueprint? {o : Option Value} {b : Blueprint}
    (h : o.bind Value.blueprint? = some b) : o = some (.blueprint b) := by
  obtain ⟨v, rfl, hv⟩ := Option.bind_eq_some_iff.mp h
  cases v <;> cases hv
  rfl

/-- A program can leave an instance of a blueprint without methods. -/
theorem exists_adopter :
    ∃ (c : Context) (m : Machine), Settled c m ∧ .instance 3 ∈ c.held ∧ c.scope = 0 ∧
      canAdopt "B" "A" "greet" 3 m = true := by
  let s := Session.start .standard (.limited none none) (.limited none none) ⟨[]⟩ 0
  let c := hostContext s 0
  let program := Node.program
    [.blueprint ⟨"A", [], [.spec ⟨0, some "greet", [receiverName], [], false, false, none⟩], none,
        none⟩,
      .blueprint ⟨"B", [], [], none, none⟩, .assign (.var "b") (.spawn (.var "B") [])]
  have hstart : Settled c s.machine :=
    .of_upheld rfl ((Idle.start _ _ _ _ 0).ready (List.mem_cons_self ..)).upheld
      (List.mem_cons_self ..)
  have hmade : (runProgram (evaluate 5) program c s.machine).any
      (fun result => canAdopt "B" "A" "greet" 3 result.2) = true := by decide +kernel
  obtain ⟨⟨r, m⟩, hrun, hcan⟩ := (Option.any_eq_true ..).mp hmade
  have hended := ((Settled.charge c s.machine).runProgram_keeps 5 [] [] program c _
    hstart.ready).2 r m hrun
  have hsettled : Settled c m := .of_upheld rfl hended.upheld hstart.scope
  have hi : m.store.Has (.instance 3) := by
    simp only [canAdopt, Bool.and_eq_true, Option.any_eq_true] at hcan
    obtain ⟨-, _, -, _, -, ⟨⟨i, hi, -⟩, -⟩, -⟩ := hcan
    exact ⟨i, hi⟩
  exact ⟨_, m, hsettled.holding fun r hr => List.mem_singleton.mp hr ▸ hi, List.mem_cons_self ..,
    rfl, hcan⟩

/-- An instance has a method called that its blueprint has adopted after
the instance was made. -/
theorem adoption_reaches_instance :
    ∃ (c : Context) (m m' : Machine) (cb pb : Blueprint) (r : Except Exit Value) (i : Instance)
      (b : Binding), Sound 0 m.store ∧ m.interrupted = false ∧
      m.store.lookup? c.scope "B" = some (.blueprint cb) ∧
      m.store.lookup? c.scope "A" = some (.blueprint pb) ∧
      m.store.instance? i.id = some i ∧ i.blueprint.scope = cb.scope ∧ b.value.kind = .spec ∧
      evaluate 2 (.adopt "B" "A") c m = some (r, m') ∧
      m'.store.instance? i.id = some i ∧ m'.store.method? i "greet" = some b.value := by
  obtain ⟨c, m, hsettled, hheld, hzero, hcan⟩ := exists_adopter
  simp only [canAdopt, Bool.and_eq_true, Bool.not_eq_true', Option.any_eq_true, decide_eq_true_eq]
    at hcan
  obtain ⟨hflag, cb, hchild, pb, hparent, ⟨⟨i, hi, hof⟩, x, hx, hfree⟩, y, hy, b, hb, hspec⟩ := hcan
  have hid : i.id = 3 := (hsettled.sound.instances hi).id
  rw [← hid] at hi hheld
  have hchild' : m.store.lookup? c.scope "B" = some (.blueprint cb) :=
    hzero ▸ lookup?_of_blueprint? hchild
  have hparent' : m.store.lookup? c.scope "A" = some (.blueprint pb) :=
    hzero ▸ lookup?_of_blueprint? hparent
  obtain ⟨x', y', r, m', hx', hy', hrun, -, hold, -, -, -, -, hobjects, hkept, -⟩ :=
    adoption_reaches hsettled.sound hflag hchild' hparent' 1
  cases hx.symm.trans hx'
  cases hy.symm.trans hy'
  obtain ⟨j, hj⟩ := hkept _ hheld ⟨i, hi⟩
  have hi' : m'.store.instance? i.id = some i := by
    rw [hj, ← hi, hobjects _ _ hj]
  exact ⟨c, m, m', cb, pb, r, i, b, hsettled.sound, hflag, hchild', hparent', hi, hof, hspec, hrun,
    hi', ((hold i hi' hof).adopted ⟨hfree, hb⟩).2 hspec⟩

end Proofs

end Treewalk
