import Treewalk.Proofs.MethodFrame

/-!
# `Treewalk.Proofs.Isolation`: what a method writes stays in its instance

A method can write a field of its receiver in two ways: as an attribute
of `own`, and like a variable. Both are meant to touch the fields of the
receiver and nothing else, so that what one instance does to itself no
other one notices. Both are looked at from any place inside of a running
method (`InMethod`).

The first way writes the fields whatever they bind. The second one writes
the nearest scope that binds the name. As long as the fields bind it,
that is the same (`fields_isolated`). But a blueprint can adopt a name
when it has instances already. They answer it, with what the blueprint
binds, and have no field of that name. Then the second way writes the
blueprint, and all instances that have no such field answer the new
value: `field_shared` is such a run.
-/

set_option autoImplicit false

namespace Treewalk

/-- What an instance answers to an attribute name, as the store is. -/
def Store.attribute? (s : Store) (i : Instance) (name : String) : Option Value :=
  s.getLocal? i.fields name <|> s.getLocal? i.blueprint.scope name

namespace Proofs

/-- This is what a program gets as the attribute. -/
theorem attribute?_apply (i : Instance) (name : String) (c : Context) (m : Machine) :
    Evaluator.attribute? i name c m = some (.ok (m.store.attribute? i name), m) := by
  have hfirst : Eval.getLocal? i.fields name c m =
      some (.ok (m.store.getLocal? i.fields name), m) := rfl
  unfold Store.attribute?
  refine (Eval.bind_of_ok hfirst).trans ?_
  cases m.store.getLocal? i.fields name <;> rfl

/-! ### One field of one instance -/

/-- A store that differs from an earlier one in a field of one instance,
and in what has gone. -/
structure FieldWritten (s t : Store) (i : Instance) (name : String) (v : Value) : Prop where
  fields : t.scope? i.fields = (s.scope? i.fields).map fun scope => scope.bind name (.ofValue v)
  answers : t.attribute? i name = some v
  own {n : String} : n ≠ name → t.attribute? i n = s.attribute? i n
  others {j : Instance} : t.instance? j.id = some j → j ≠ i →
    ∀ n, t.attribute? j n = s.attribute? j n
  blueprint : t.scope? i.blueprint.scope = s.scope? i.blueprint.scope
  rest {id : ScopeId} {scope : Scope} : id ≠ i.fields → t.scope? id = some scope →
    s.scope? id = some scope

section
variable {s t : Store} {i : Instance}

/-- A scope that is the same answers the same, unless its owner comes or
goes. -/
theorem getLocal?_congr {id : ScopeId} {scope : Scope} (hs : s.scope? id = some scope)
    (ht : t.scope? id = some scope)
    (howner : ∀ owner, scope.kind = .instance owner →
      t.hasInstance owner.id = s.hasInstance owner.id) (n : String) :
    t.getLocal? id n = s.getLocal? id n := by
  simp only [Store.getLocal?, hs, ht, Option.bind_some, Store.answer?]
  split
  · rfl
  · split
    · rename_i owner hkind
      rw [howner owner hkind]
    · rfl

/-- A scope that binds a name answers it with that. -/
theorem getLocal?_of_binding {id : ScopeId} {scope : Scope} {name : String} {b : Binding}
    (hscope : s.scope? id = some scope) (hbound : scope.binding? name = some b) :
    s.getLocal? id name = some b.value := by
  simp only [Store.getLocal?, hscope, Option.bind_some, Store.answer?, hbound]

/-- The scope of the blueprint of a live instance. -/
theorem Sound.blueprint_scope (h : Sound 0 s) (hi : s.instance? i.id = some i) :
    ∃ scope, s.scope? i.blueprint.scope = some scope ∧ scope.kind = .blueprint := by
  obtain ⟨scope, hscope, hkind⟩ := (h.instances hi).blueprint
  exact ⟨scope, hscope, hkind (Nat.zero_le _)⟩

/-- The fields of an instance are the scope of no blueprint. -/
theorem Sound.fields_ne_blueprint {j : Instance} (h : Sound 0 s) (hi : s.instance? i.id = some i)
    (hj : s.instance? j.id = some j) : j.blueprint.scope ≠ i.fields := by
  intro heq
  obtain ⟨scope, hscope, hkind⟩ := h.blueprint_scope hj
  obtain ⟨fields, hfields, hkind', -⟩ := (h.instances hi).fields
  rw [heq, hfields] at hscope
  cases hscope
  rw [hkind] at hkind'
  cases hkind'

/-- The fields of an instance answer as before if they are as before. -/
theorem getLocal?_fields (ht : Sound 0 t) (hi : s.instance? i.id = some i)
    (hi' : t.instance? i.id = some i)
    (hsame : ∀ scope, t.scope? i.fields = some scope → s.scope? i.fields = some scope)
    (n : String) : t.getLocal? i.fields n = s.getLocal? i.fields n := by
  obtain ⟨scope, hscope, hkind, -⟩ := (ht.instances hi').fields
  refine getLocal?_congr (hsame scope hscope) hscope (fun owner howner => ?_) n
  rw [hkind] at howner
  cases howner
  rw [Store.hasInstance_of_eq hi, Store.hasInstance_of_eq hi']

/-- The blueprint of a live instance answers as before if it is as
before. -/
theorem getLocal?_blueprint (ht : Sound 0 t) (hi' : t.instance? i.id = some i)
    (hsame : ∀ scope, t.scope? i.blueprint.scope = some scope →
      s.scope? i.blueprint.scope = some scope) (n : String) :
    t.getLocal? i.blueprint.scope n = s.getLocal? i.blueprint.scope n := by
  obtain ⟨scope, hscope, hkind⟩ := ht.blueprint_scope hi'
  refine getLocal?_congr (hsame scope hscope) hscope (fun owner howner => ?_) n
  rw [hkind] at howner
  cases howner

variable {held : List Ref} {fields : Scope}

/-- An instance that is left has its fields left, as they were. -/
theorem fields_left (ht : Sound 0 t) (hremains : Remains held s t)
    (hi : s.instance? i.id = some i) (hfields : s.scope? i.fields = some fields)
    (hleft : t.Has (.instance i.id)) :
    t.instance? i.id = some i ∧ t.scope? i.fields = some fields := by
  obtain ⟨j, hj⟩ := hleft
  have hsame := hremains.object hj
  rw [hi] at hsame
  cases hsame
  obtain ⟨after, hafter, -⟩ := (ht.instances hj).fields
  have hbefore := hremains.scope hafter
  rw [hfields] at hbefore
  cases hbefore
  exact ⟨hj, hafter⟩

/-- If the fields of an instance are bound a name, and then something is
let go but not the instance, the field is written and nothing else. -/
theorem fieldWritten_of_remains {name : String} {v : Value} (hs : Sound 0 s) (ht : Sound 0 t)
    (hi : s.instance? i.id = some i) (hfields : s.scope? i.fields = some fields)
    (hremains : Remains held (s.setScope i.fields (fields.bind name (.ofValue v))) t)
    (hleft : t.Has (.instance i.id)) : FieldWritten s t i name v := by
  have hset : (s.setScope i.fields (fields.bind name (.ofValue v))).scope? i.fields =
      some (fields.bind name (.ofValue v)) := by
    rw [Store.scope?_setScope, if_pos rfl, hfields]
    rfl
  obtain ⟨hi', hbound⟩ := fields_left ht hremains hi hset hleft
  -- Beside the fields, what is left is as it was.
  have hrest : ∀ {id scope}, id ≠ i.fields → t.scope? id = some scope →
      s.scope? id = some scope := by
    intro id scope hid hscope
    have hbefore := hremains.scope hscope
    rwa [Store.scope?_setScope, if_neg hid] at hbefore
  have hblueprint : ∀ {j}, t.instance? j.id = some j → ∀ scope,
      t.scope? j.blueprint.scope = some scope → s.scope? j.blueprint.scope = some scope :=
    fun hj _ => hrest (ht.fields_ne_blueprint hi' hj)
  constructor
  case fields => rw [hbound, hfields, Option.map_some]
  case answers =>
    have hanswer : t.getLocal? i.fields name = some v :=
      getLocal?_of_binding hbound (by rw [Scope.binding?_bind, if_pos rfl])
    rw [Store.attribute?, hanswer]
    rfl
  case own =>
    intro n hn
    have hanswer : t.getLocal? i.fields n = s.getLocal? i.fields n := by
      obtain ⟨_, hscope, hkind, -⟩ := (hs.instances hi).fields
      rw [hfields] at hscope
      cases hscope
      -- Any other name is bound as before, or it is `self`, whose owner is alive on both sides.
      have hkind' : (fields.bind name (.ofValue v)).kind = .instance i := hkind
      simp only [Store.getLocal?, hfields, hbound, Option.bind_some, Store.answer?,
        Scope.binding?_bind, if_neg hn, hkind, hkind', Store.hasInstance_of_eq hi,
        Store.hasInstance_of_eq hi']
    rw [Store.attribute?, Store.attribute?, hanswer, getLocal?_blueprint ht hi' (hblueprint hi')]
  case others =>
    intro j hj hne n
    have hfields : ∀ scope, t.scope? j.fields = some scope → s.scope? j.fields = some scope :=
      fun _ => hrest fun heq => hne (ht.eq_of_fields hj hi' heq)
    have hj' : s.instance? j.id = some j := hremains.object hj
    rw [Store.attribute?, Store.attribute?, getLocal?_fields ht hj' hj hfields,
      getLocal?_blueprint ht hj (hblueprint hj)]
  case blueprint =>
    obtain ⟨scope, hscope, -⟩ := ht.blueprint_scope hi'
    rw [hscope, hblueprint hi' scope hscope]
  case rest => exact hrest

end

/-- If the scope of a blueprint is bound a name, and then something is
let go, every instance answers that binding that has no field of the
name. -/
theorem attribute?_of_blueprint {s t : Store} (ht : Sound 0 t) {held : List Ref} {id : ScopeId}
    {above : Scope} {name : String} {v : Value} (habove : s.scope? id = some above)
    (hremains : Remains held (s.setScope id (above.bind name (.ofValue v))) t) {j : Instance}
    (hj : t.instance? j.id = some j) (hid : j.blueprint.scope = id)
    (hfree : s.getLocal? j.fields name = none) : t.attribute? j name = some v := by
  obtain ⟨scope, hscope, -⟩ := ht.blueprint_scope hj
  rw [hid] at hscope
  have hbound : scope = above.bind name (.ofValue v) := by
    have hbefore := hremains.scope hscope
    rw [Store.scope?_setScope, if_pos rfl, habove] at hbefore
    exact (Option.some.inj hbefore).symm
  have hfields : ∀ scope, t.scope? j.fields = some scope → s.scope? j.fields = some scope := by
    intro fields hafter
    have hbefore := hremains.scope hafter
    have hne : j.fields ≠ id := fun heq => ht.fields_ne_blueprint hj hj (hid.trans heq.symm)
    rwa [Store.scope?_setScope, if_neg hne] at hbefore
  have halive : s.instance? j.id = some j := hremains.object hj
  have hanswer : t.getLocal? id name = some v :=
    getLocal?_of_binding hscope (by rw [hbound, Scope.binding?_bind, if_pos rfl])
  rw [Store.attribute?, getLocal?_fields ht halive hj hfields, hfree, hid, hanswer]
  rfl

/-! ### The two ways to write -/

section
variable {ev : Evaluator} {target value : Node} {c : Context} {m m₁ m₂ : Machine} {v : Value}

/-- An assignment evaluates the value, writes it, and lets it go. -/
theorem assignTo_of_written (hvalue : ev value c m = some (.ok v, m₁))
    (hwrite : Evaluator.writeTo ev v target { c with held := v.refs ++ c.held } m₁ =
      some (.ok (), m₂)) :
    Evaluator.assignTo ev target value c m = some (.ok .nil, m₂.release c.held v.refs) := by
  refine (Eval.bind_of_ok hvalue).trans ?_
  exact Eval.holding_of_some (Eval.bind_of_ok hwrite)

/-- Where no stop is asked for, a variable is read. -/
theorem evaluate_var {name : String} (hflag : m.interrupted = false)
    (hv : m.store.lookup? c.scope name = some v) (steps : Nat) :
    ∃ log, evaluate (steps + 1) (.var name) c m = some (.ok v, { m with log }) := by
  obtain ⟨log, hvisit⟩ := noteVisit_apply (.var name) c m
  have hlookup : Eval.lookup? name c { m with log } = some (.ok (some v), { m with log }) := by
    show some (Except.ok (m.store.lookup? c.scope name), _) = _
    rw [hv]
  have hread : Evaluator.lookupAs .var name c { m with log } = some (.ok v, { m with log }) :=
    Eval.bind_of_ok hlookup
  refine ⟨log, (evaluate_of_visit hflag hvisit steps).trans ?_⟩
  exact Eval.bind_of_ok (Eval.outcome_of_some hread)

/-- As a variable, a name is written where it is bound nearest, or else
in the scope itself. -/
theorem assign_plain {x : String} {w : Written} (hvalue : ev value c m = some (.ok v, m₁))
    (hw : m₁.store.assign c.scope x v = .ok w) :
    ∃ m', Evaluator.assignTo ev (.var x) value c m = some (.ok .nil, m') ∧
      m'.store = (w.store.release (v.refs ++ c.held) w.freed).release c.held v.refs := by
  have hwrite : Evaluator.writeTo ev v (.var x) { c with held := v.refs ++ c.held } m₁ =
      some (.ok (), { m₁ with store := w.store }.release (v.refs ++ c.held) w.freed) := by
    show Eval.settle (m₁.store.assign c.scope x v) { c with held := v.refs ++ c.held } m₁ = _
    rw [Eval.settle_apply, hw]
  exact ⟨_, assignTo_of_written hvalue hwrite, rfl⟩

/-- If it is bound there for good, nothing is written. -/
theorem assign_refused {x : String} {f : Fault} (hvalue : ev value c m = some (.ok v, m₁))
    (hw : m₁.store.assign c.scope x v = .error f) :
    ∃ r m', Evaluator.assignTo ev (.var x) value c m = some (r, m') ∧
      m'.store = m₁.store.release c.held v.refs := by
  have hwrite : Evaluator.writeTo ev v (.var x) { c with held := v.refs ++ c.held } m₁ =
      some (.error (.fault f), m₁) := by
    show Eval.settle (m₁.store.assign c.scope x v) { c with held := v.refs ++ c.held } m₁ = _
    rw [Eval.settle_apply, hw]
  exact ⟨.error (.fault f), _, (Eval.bind_of_ok hvalue).trans
    (Eval.holding_of_some (Eval.bind_of_error hwrite)), rfl⟩

/-- As an attribute of its receiver, a name is written to the fields. -/
theorem assign_own {i : Instance} {x : String} {w : Written} {steps : Nat}
    (hvalue : evaluate (steps + 1) value c m = some (.ok v, m₁)) (hflag : m₁.interrupted = false)
    (hheld : .instance i.id ∈ c.held)
    (hown : m₁.store.lookup? c.scope receiverName = some (.object i))
    (hw : m₁.store.declare i.fields x (.ofValue v) = .ok w) :
    ∃ m', Evaluator.assignTo (evaluate (steps + 1)) (.attributeOf (.var receiverName) x) value c m =
        some (.ok .nil, m') ∧
      m'.store = (w.store.release (v.refs ++ c.held) w.freed).release c.held v.refs := by
  let c' : Context := { c with held := v.refs ++ c.held }
  have hheld' : .instance i.id ∈ c'.held := List.mem_append_right _ hheld
  obtain ⟨log, hread⟩ := evaluate_var (c := c') hflag hown steps
  let inner : Context := { c' with held := .instance i.id :: c'.held }
  let read : Machine := { m₁ with log }
  have hwrite : Eval.declareIn i.fields x (.ofValue v) inner read =
      some (.ok (), { read with store := w.store }.release inner.held w.freed) := by
    show Eval.settle (m₁.store.declare i.fields x (.ofValue v)) inner read = _
    rw [Eval.settle_apply, hw]
  have hwriteTo : Evaluator.writeTo (evaluate (steps + 1)) v (.attributeOf (.var receiverName) x)
      c' m₁ = _ := (Eval.bind_of_ok hread).trans (Eval.holding_of_some hwrite)
  refine ⟨_, assignTo_of_written hvalue hwriteTo, ?_⟩
  show (((w.store.release inner.held w.freed).release c'.held [.instance i.id]).release
    c.held v.refs) = _
  rw [Store.release_of_held hheld']
  -- That the receiver is held once more makes no difference.
  refine congrArg (fun t => Store.release t c.held v.refs)
    (Store.release_congr (fun r => ⟨fun hr => ?_, List.mem_cons_of_mem _⟩) _ _)
  rcases List.mem_cons.mp hr with rfl | hr
  · exact hheld'
  · exact hr

end

/-! ### Inside of a method -/

/-- After the evaluation of a node the moment still is one of an
interpreter, and the value lives. -/
theorem Settled.evaluated {c : Context} {m m' : Machine} (h : Settled c m) {steps : Nat}
    {node : Node} {v : Value} (hr : evaluate steps node c m = some (.ok v, m')) :
    Settled c m' ∧ Lives 0 m'.store v := by
  have hended := ((Settled.charge c m).evaluate_keeps steps [] [] node c m h.ready).2 _ _ hr
  exact ⟨.of_upheld rfl hended.upheld h.scope, hended.brings _ (List.mem_singleton_self _)⟩

theorem Settled.assigned {c : Context} {m m' : Machine} (h : Settled c m) {steps : Nat}
    {target value : Node} {r : Except Exit Value}
    (hr : Evaluator.assignTo (evaluate steps) target value c m = some (r, m')) : Settled c m' := by
  let k := Settled.charge c m
  have hkeeps : k.Keeps Value [] [] _ _ := k.discipline.toBasics.assignTo
    (fun kept loose node => k.evaluate_keeps steps kept loose node) target value
  exact .of_upheld rfl ((hkeeps c m h.ready).2 r m' hr).upheld h.scope

/-- What an assignment lets go after it has written is not what its
context holds. -/
theorem remains_of_assigned {s t : Store} {held refs freed : List Ref}
    (h : t = (s.release (refs ++ held) freed).release held refs) : Remains held s t := by
  rw [h]
  exact ((Remains.release ..).mono (List.subset_append_right ..)).trans (.release ..)

/-- Inside of a method, an assignment to a name that the fields of the
receiver do not bind goes somewhere else. -/
theorem InMethod.fields_ne_target {c : Context} {m : Machine} (h : Settled c m) {i : Instance}
    {x : String} {fields : Scope} (hin : InMethod m.store i x c.scope)
    (hi : m.store.instance? i.id = some i) (hfields : m.store.scope? i.fields = some fields)
    (hfree : fields.binding? x = none) :
    i.fields ≠ (m.store.holder? c.scope x).getD c.scope := by
  -- The name is written in the frame if nothing binds it, and else in a scope that does.
  cases hholder : m.store.holder? c.scope x with
  | none => exact fun heq => hin.ne_fields h hi heq.symm
  | some id =>
    rintro rfl
    obtain ⟨_, scope, hscope, hanswer⟩ := Store.exists_of_search hholder
    obtain ⟨b, hbound, rfl⟩ := Option.map_eq_some_iff.mp hanswer
    rw [hfields] at hscope
    cases hscope
    rw [hfree] at hbound
    cases hbound

section
variable {c : Context} {m m₁ : Machine} (h : Settled c m) {steps : Nat} {value : Node} {v : Value}
  (hvalue : evaluate (steps + 1) value c m = some (.ok v, m₁)) {i : Instance} {x : String}
  {fields : Scope} (hi : m₁.store.instance? i.id = some i)
  (hfields : m₁.store.scope? i.fields = some fields) (hin : InMethod m₁.store i x c.scope)
include h hvalue hi hfields hin

/-- An assignment that has bound a name in the fields of the receiver
and let go what it has overwritten has written the field. -/
theorem fieldWritten_of_assigned {target : Node} {r : Except Exit Value} {m' : Machine}
    (hr : Evaluator.assignTo (evaluate (steps + 1)) target value c m = some (r, m'))
    (hremains : Remains c.held
      (m₁.store.setScope i.fields (fields.bind x (.ofValue v))) m'.store) :
    FieldWritten m₁.store m'.store i x v := by
  have hsettled := (h.evaluated hvalue).1
  have hsettled' := h.assigned hr
  exact fieldWritten_of_remains hsettled.sound hsettled'.sound hi hfields hremains
    (hsettled'.alive _ (hin.held hsettled hi))

/-- As a variable, a name that the fields do not bind is not written to
the fields. -/
theorem fields_kept (hfree : fields.binding? x = none) :
    ∃ r m', Evaluator.assignTo (evaluate (steps + 1)) (.var x) value c m = some (r, m') ∧
      m'.store.scope? i.fields = some fields := by
  have hsettled := (h.evaluated hvalue).1
  have hheld := hin.held hsettled hi
  cases hw : m₁.store.assign c.scope x v with
  | error f =>
    obtain ⟨r, m', hr, hstore⟩ := assign_refused hvalue hw
    have hremains : Remains c.held m₁.store m'.store := by
      rw [hstore]
      exact .release ..
    have hsettled' := h.assigned hr
    exact ⟨r, m', hr, (fields_left hsettled'.sound hremains hi hfields
      (hsettled'.alive _ hheld)).2⟩
  | ok w =>
    obtain ⟨m', hr, hstore⟩ := assign_plain hvalue hw
    have hsettled' := h.assigned hr
    obtain ⟨hobject, hscope⟩ : w.store.instance? i.id = some i ∧
        w.store.scope? i.fields = some fields := by
      rcases Store.declare_eq_ok hw with hkept | ⟨_, _, _, hset⟩
      · rw [hkept]
        exact ⟨hi, hfields⟩
      · rw [hset, Store.scope?_setScope, if_neg (hin.fields_ne_target hsettled hi hfields hfree)]
        exact ⟨hi, hfields⟩
    exact ⟨_, m', hr, (fields_left hsettled'.sound (remains_of_assigned hstore) hobject hscope
      (hsettled'.alive _ hheld)).2⟩

/-- What the two ways to write a field do. Take a moment of a method or
a constructor of an instance, its body or what is nested in it, when a
value has been evaluated that is to be written, and a name that is no
local there and that the fields of the instance do not bind for good.

* As an attribute of `own`, the name is always written as a field of the
  instance. The instance answers the value then, and all else that is
  left is as it was: the other attributes of the instance, those of all
  other instances, and the bindings of its blueprint.
* As a variable, the name is written just so if the fields bind it.
* As a variable, a name that the fields do not bind is not written as a
  field. If the blueprint binds it, which can only have adopted it after
  the instance was made, it is the blueprint that is written. Then all
  instances of the blueprint answer the value that have no field of the
  name, the others and this one.

So both ways have the same effect if the fields bind the name, and only
then. -/
theorem fields_isolated (hchange : fields.isConstant x = false) :
    let own :=
      Evaluator.assignTo (evaluate (steps + 1)) (.attributeOf (.var receiverName) x) value c m
    let plain := Evaluator.assignTo (evaluate (steps + 1)) (.var x) value c m
    (m₁.interrupted = false → m₁.store.lookup? c.scope receiverName = some (.object i) →
      ∃ m', own = some (.ok .nil, m') ∧ FieldWritten m₁.store m'.store i x v ∧
        ((∃ m'', plain = some (.ok .nil, m'') ∧ m''.store = m'.store) ↔
          ∃ b, fields.binding? x = some b)) ∧
    (∀ b, fields.binding? x = some b →
      ∃ m', plain = some (.ok .nil, m') ∧ FieldWritten m₁.store m'.store i x v) ∧
    (fields.binding? x = none → ∃ r m', plain = some (r, m') ∧
      m'.store.scope? i.fields = some fields ∧
      ∀ above, m₁.store.holder? c.scope x = some i.blueprint.scope →
        m₁.store.scope? i.blueprint.scope = some above → above.isConstant x = false →
        r = .ok .nil ∧ ∀ j, m'.store.instance? j.id = some j →
          j.blueprint.scope = i.blueprint.scope → m₁.store.getLocal? j.fields x = none →
            m'.store.attribute? j x = some v) := by
  intro own plain
  have hsettled := (h.evaluated hvalue).1
  obtain ⟨freed, hw⟩ := Store.declare_of_free hfields hchange (.ofValue v)
  -- Where the fields bind the name, a variable of that name is the field.
  have hplain : ∀ b, fields.binding? x = some b → ∃ m', plain = some (.ok .nil, m') ∧
      m'.store = ((m₁.store.setScope i.fields (fields.bind x (.ofValue v))).release
        (v.refs ++ c.held) freed).release c.held v.refs := by
    intro b hb
    exact assign_plain hvalue (Store.assign_of_holder (hin.holder? hsettled hfields hb) hw)
  refine ⟨fun hflag hown => ?_, fun b hb => ?_, fun hfree => ?_⟩
  · obtain ⟨m', hr, hstore⟩ := assign_own hvalue hflag (hin.held hsettled hi) hown hw
    have hwritten := fieldWritten_of_assigned h hvalue hi hfields hin hr
      (remains_of_assigned hstore)
    refine ⟨m', hr, hwritten, fun ⟨m'', hr', hsame⟩ => ?_, fun ⟨b, hb⟩ => ?_⟩
    · -- With the same effect, the fields would bind the name afterwards, but they have been kept.
      cases hfree : fields.binding? x with
      | some b => exact ⟨b, rfl⟩
      | none =>
        obtain ⟨r, _, hr₂, hkept⟩ := fields_kept h hvalue hi hfields hin hfree
        cases hr'.symm.trans hr₂
        have hbound := hwritten.fields
        rw [← hsame, hkept, hfields, Option.map_some, Option.some_inj] at hbound
        rw [hbound, Scope.binding?_bind, if_pos rfl] at hfree
        cases hfree
    · obtain ⟨m'', hr', hstore'⟩ := hplain b hb
      exact ⟨m'', hr', hstore'.trans hstore.symm⟩
  · obtain ⟨m', hr, hstore⟩ := hplain b hb
    exact ⟨m', hr, fieldWritten_of_assigned h hvalue hi hfields hin hr
      (remains_of_assigned hstore)⟩
  · obtain ⟨r, m', hr, hscope⟩ := fields_kept h hvalue hi hfields hin hfree
    refine ⟨r, m', hr, hscope, fun above hholder habove hfreeabove => ?_⟩
    obtain ⟨freed', hw'⟩ := Store.declare_of_free habove hfreeabove (.ofValue v)
    obtain ⟨m'', hr', hstore⟩ := assign_plain hvalue (Store.assign_of_holder hholder hw')
    cases hr.symm.trans hr'
    refine ⟨rfl, fun j hj hsame hnone => ?_⟩
    exact attribute?_of_blueprint (h.assigned hr).sound habove (remains_of_assigned hstore) hj
      hsame hnone

end

/-- Whether there is an instance with a field of a name that may change,
at a moment when a method may be called. -/
def hasField (id : InstanceId) (name : String) (m : Machine) : Bool :=
  m.depth = 0 && !m.interrupted && (m.store.instance? id).any fun i =>
    (m.store.scope? i.fields).any fun fields =>
      (fields.binding? name).any fun b => !b.constant

/-- A program can leave an instance with a field. -/
theorem exists_field :
    ∃ (c : Context) (m : Machine) (i : Instance) (fields : Scope) (b : Binding),
      Settled c m ∧ m.depth < c.settings.maxDepth ∧ m.interrupted = false ∧
      .instance i.id ∈ c.held ∧ m.store.instance? i.id = some i ∧
      m.store.scope? i.fields = some fields ∧ fields.binding? "n" = some b ∧
      b.constant = false := by
  let s := Session.start .standard (.limited none none) (.limited none none) ⟨[]⟩ 0
  let c := hostContext s 0
  let program := Node.program
    [.blueprint ⟨"A", [.assign (.var "n") (.text "old")], [], none, none⟩,
      .assign (.var "a") (.spawn (.var "A") [])]
  have hstart : Settled c s.machine :=
    .of_upheld rfl ((Idle.start _ _ _ _ 0).ready (List.mem_cons_self ..)).upheld
      (List.mem_cons_self ..)
  have hmade : (runProgram (evaluate 5) program c s.machine).any
      (fun result => hasField 2 "n" result.2) = true := by decide +kernel
  obtain ⟨⟨r, m⟩, hrun, hfield⟩ := (Option.any_eq_true ..).mp hmade
  have hended := ((Settled.charge c s.machine).runProgram_keeps 5 [] [] program c _
    hstart.ready).2 r m hrun
  have hsettled : Settled c m := .of_upheld rfl hended.upheld hstart.scope
  simp only [hasField, Bool.and_eq_true, decide_eq_true_eq, Bool.not_eq_true',
    Option.any_eq_true] at hfield
  obtain ⟨⟨hdepth, hflag⟩, i, hi, fields, hfields, b, hb, hchange⟩ := hfield
  have hid : i.id = 2 := (hsettled.sound.instances hi).id
  rw [← hid] at hi
  have hheld : Settled { c with held := [.instance i.id] ++ c.held } m :=
    hsettled.holding fun r hr => List.mem_singleton.mp hr ▸ ⟨i, hi⟩
  have hroom : m.depth < c.settings.maxDepth :=
    hdepth ▸ (by decide : 0 < Settings.standard.maxDepth)
  exact ⟨_, m, i, fields, b, hheld, hroom, hflag, List.mem_cons_self .., hi, hfields, hb, hchange⟩

/-- An instance with a field has a method called, which writes the
field. -/
theorem fields_isolated_method :
    ∃ (c : Context) (m m₁ : Machine) (v : Value) (i : Instance) (fields : Scope),
      Settled c m ∧ evaluate 2 (.var receiverName) c m = some (.ok v, m₁) ∧
      m₁.store.instance? i.id = some i ∧ m₁.store.scope? i.fields = some fields ∧
      InMethod m₁.store i "n" c.scope ∧ fields.isConstant "n" = false ∧
      ∃ m' m'', Evaluator.assignTo (evaluate 2) (.attributeOf (.var receiverName) "n")
          (.var receiverName) c m = some (.ok .nil, m') ∧
        Evaluator.assignTo (evaluate 2) (.var "n") (.var receiverName) c m =
          some (.ok .nil, m'') ∧
        m''.store = m'.store ∧ FieldWritten m₁.store m'.store i "n" v := by
  obtain ⟨c₀, m₀, i, fields, b, hsettled₀, hroom, hflag₀, hheld, hi₀, hfields₀, hb, hchange⟩ :=
    exists_field
  have hargs : ∀ v ∈ ([] : List Value), Lives 0 m₀.store v := fun v hv => by cases hv
  obtain ⟨c, m, -, hflag, hsettled, hi, hin, hown, hbefore, -⟩ :=
    callMethod_begins hsettled₀ hi₀ hheld "touch" [receiverName] [] hargs hroom
  have hinside := hin "n" (by decide) (by decide)
  have hfields : m.store.scope? i.fields = some fields := by
    obtain ⟨after, hafter, -⟩ := (hsettled.sound.instances hi).fields
    have hsame := hbefore _ _ (hinside.ne_fields hsettled hi).symm hafter
    rw [hfields₀] at hsame
    cases hsame
    exact hafter
  have hread := hown (by decide)
  rw [hflag₀] at hflag
  obtain ⟨log, hvalue⟩ := evaluate_var hflag hread 1
  have hfree : fields.isConstant "n" = false := by
    rw [Scope.isConstant, hb]
    exact hchange
  obtain ⟨m', hwrite, hwritten, hsame⟩ :=
    (fields_isolated hsettled hvalue hi hfields hinside hfree).1 hflag hread
  obtain ⟨m'', hplain, hstore⟩ := hsame.mpr ⟨b, hb⟩
  exact ⟨c, m, _, _, i, fields, hsettled, hvalue, hi, hfields, hinside, hfree, m', m'', hwrite,
    hplain, hstore, hwritten⟩

/-- Two instances of a blueprint that adopts a field when they have been
made. A method of the blueprint writes to the field in some way. -/
def lateAdoption (target : Node) : Node :=
  .program
    [.blueprint ⟨"A", [.assign (.var "n") (.text "old")], [], none, none⟩,
      .blueprint ⟨"B", [], [.spec ⟨0, some "set", [receiverName], [.assign target (.text "new")],
        false, false, none⟩], none, none⟩,
      .assign (.var "a") (.spawn (.var "B") []), .assign (.var "b") (.spawn (.var "B") []),
      .adopt "B" "A"]

/-- What the instance of a global name answers to an attribute name. -/
def answerOf (m : Machine) (global name : String) : Option String :=
  match m.store.lookup? 0 global with
  | some (.object i) => (m.store.attribute? i name).map Value.display
  | _ => none

/-- As an attribute of `own`, a name that was adopted late is written to
one instance. As a variable, it is written to the other one as well. -/
theorem field_shared :
    let c : Context := ⟨.standard, 0, [.scope 0]⟩
    let m := Machine.single (Scope.top .global)
    let answers (target : Node) : Option (List (Option String)) :=
      match runProgram (evaluate 6) (lateAdoption target) c m with
      | some (.ok (), before) =>
        match evaluate 6 (.methodCall (.var "a") "set" []) c before with
        | some (.ok .nil, after) =>
          some [answerOf before "b" "n", answerOf after "a" "n", answerOf after "b" "n"]
        | _ => none
      | _ => none
    answers (.attributeOf (.var receiverName) "n") = some [some "old", some "new", some "old"] ∧
      answers (.var "n") = some [some "old", some "new", some "new"] := by
  decide +kernel

end Proofs

end Treewalk
