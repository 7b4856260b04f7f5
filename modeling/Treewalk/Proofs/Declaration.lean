import Treewalk.Proofs.Attempts
import Treewalk.Proofs.Growth

/-!
# `Treewalk.Proofs.Declaration`: what becomes of the parts of a blueprint

The attributes and the methods of a blueprint are evaluated one after the
other in its scope. A fault that one of them meets as a node is reported
and costs what this one would have declared. The binding of an attribute
is no node, though. If it is refused, because an earlier part has bound
the name for good, nobody recovers from that before the blueprint itself
does: the other parts are left out, and the blueprint is not declared.

`Runs` and `Declares` say what one part comes to, and `Clashes` when a
binding is refused. `InOrder` puts parts one after the other, and
`Entered` is what names a scope has after that. `blueprint_declared` is
the account of a declaration as a whole.
-/

set_option autoImplicit false

namespace Treewalk

/-- A node without recovery from a fault that it meets itself. -/
def unrecovered : Nat → Evaluator
  | 0, _ => Eval.exhausted
  | steps + 1, node => do
    Eval.checkInterrupt
    noteVisit node
    Evaluator.step (evaluate steps) (Evaluator.runBlock (evaluate steps)) steps node

/-- The name that a node declares in the scope where it is evaluated. -/
def Node.declares? : Node → Option String
  | .spec decl => decl.name
  | .firm name _ | .toolkit name _ | .bridge name _ => some name
  | .blueprint decl => some decl.name
  | _ => none

/-- What a statement is about. -/
def Node.core : Node → Node
  | .statement x => x.core
  | x => x

/-- The name that a node binds as an attribute, and the initial value if
it says one. -/
def Node.attribute? : Node → Option (String × Option Node)
  | .var name => some (name, none)
  | .assign (.var name) value => some (name, some value)
  | _ => none

/-- The initial value of an attribute. -/
def Evaluator.initial (ev : Evaluator) : Option Node → Eval Value
  | none => pure .nil
  | some value => ev value

namespace Proofs

open Yields (items)

/-! ### The order of names -/

/-- The names of a scope after declarations, given those before. Each
declared name is in the place that it had, or comes last. Other names may
be bound in between, always behind the ones that are there. -/
inductive Entered : (declared before after : List String) → Prop where
  | done {before after : List String} : before <+: after → Entered [] before after
  | next {name : String} {declared before names after : List String} : before <+: names →
      Entered declared (if name ∈ names then names else names ++ [name]) after →
      Entered (name :: declared) before after

section
variable {declared more before names after : List String} {name : String}

theorem Entered.of_isPrefix (hpre : before <+: names) (h : Entered declared names after) :
    Entered declared before after := by
  cases h with
  | done hrest => exact .done (hpre.trans hrest)
  | next hrest h => exact .next (hpre.trans hrest) h

theorem Entered.append (h : Entered declared before names) (h' : Entered more names after) :
    Entered (declared ++ more) before after := by
  induction h with
  | done hpre => exact h'.of_isPrefix hpre
  | next hpre _ ih => exact .next hpre (ih h')

/-- Names are never lost. -/
theorem Entered.isPrefix (h : Entered declared before after) : before <+: after := by
  induction h with
  | done hpre => exact hpre
  | @next name _ _ names _ hpre _ ih =>
    have hnext : names <+: if name ∈ names then names else names ++ [name] := by
      split
      · exact List.prefix_rfl
      · exact List.prefix_append ..
    exact hpre.trans (hnext.trans ih)

/-- All declared names are there. -/
theorem Entered.subset (h : Entered declared before after) : declared ⊆ after := by
  induction h with
  | done => exact List.nil_subset _
  | @next name _ _ names _ _ h ih =>
    refine List.cons_subset.mpr ⟨h.isPrefix.subset ?_, ih⟩
    split
    · assumption
    · simp

end

/-- Between two moments a name was bound in a scope. -/
def Enters (id : ScopeId) (name : String) (s t : Store) : Prop :=
  ∃ (s₁ : Store) (b : Binding) (w : Written), Evolves (fun _ => ScopeGrows) s s₁ ∧
    s₁.declare id name b = .ok w ∧ Evolves (fun _ => ScopeGrows) w.store t

section
variable {id : ScopeId} {name : String} {s t u : Store}

theorem grows_trans (h : Evolves (fun _ => ScopeGrows) s t) (h' : Evolves (fun _ => ScopeGrows) t u) :
    Evolves (fun _ => ScopeGrows) s u :=
  h.trans (fun _ _ _ _ => .trans) h'

theorem Enters.after (h : Enters id name s t) (hgrows : Evolves (fun _ => ScopeGrows) t u) :
    Enters id name s u := by
  obtain ⟨s₁, b, w, hbefore, hw, hafter⟩ := h
  exact ⟨s₁, b, w, hbefore, hw, grows_trans hafter hgrows⟩

theorem Enters.before (hgrows : Evolves (fun _ => ScopeGrows) s t) (h : Enters id name t u) :
    Enters id name s u := by
  obtain ⟨s₁, b, w, hbefore, hw, hafter⟩ := h
  exact ⟨s₁, b, w, grows_trans hgrows hbefore, hw, hafter⟩

/-- A scope that is alive at both ends was alive when the name was bound
in it. -/
theorem Enters.entered (h : Enters id name s t) {before after : Scope}
    (hbefore : s.scope? id = some before) (hafter : t.scope? id = some after) :
    Entered [name] before.names after.names := by
  obtain ⟨s₁, b, w, hfirst, hw, hlast⟩ := h
  have hid : id < s₁.next := Nat.lt_of_lt_of_le (Store.lt_next hbefore) hfirst.next
  obtain ⟨bound, hbound, hgrows⟩ := hlast.scope hafter (Store.next_declare hw ▸ hid)
  have hmid : ∃ mid, s₁.scope? id = some mid := by
    rcases Store.declare_eq_ok hw with hsame | ⟨mid, hmid, -, -⟩
    · exact ⟨bound, hsame ▸ hbound⟩
    · exact ⟨mid, hmid⟩
  obtain ⟨mid, hmid⟩ := hmid
  obtain ⟨-, hset⟩ := Store.declare_eq_ok_of_scope hmid hw
  rw [hset, Store.scope?_setScope, if_pos rfl, hmid] at hbound
  cases hbound
  refine .next (hfirst.between hbefore hmid).names (.done ?_)
  rw [← Scope.names_bind mid name b]
  exact hgrows.names

end

/-! ### What declares a name -/

section
variable {c : Context} {m m' : Machine} {name : String}

/-- A declaration that is not refused. -/
theorem enters_declare {b : Binding} (h : Eval.declare name b c m = some (.ok (), m')) :
    Enters c.scope name m.store m'.store := by
  rw [Eval.declare_eq_settle, Eval.settle_apply] at h
  cases hw : m.store.declare c.scope name b with
  | error f =>
    rw [hw] at h
    cases h
  | ok w =>
    rw [hw] at h
    cases h
    exact ⟨m.store, b, w, .refl (fun _ => .refl) _, hw, .release (fun _ => .refl) _ _ _⟩

theorem grows_settle {id : ScopeId} {b : Binding} {r : Except Exit Unit}
    (h : Eval.settle (m.store.declare id name b) c m = some (r, m')) :
    Evolves (fun _ => ScopeGrows) m.store m'.store := by
  rw [Eval.settle_apply] at h
  cases hw : m.store.declare id name b with
  | error f =>
    rw [hw] at h
    cases h
    exact .refl (fun _ => .refl) _
  | ok w =>
    rw [hw] at h
    cases h
    exact grows_trans (growth_declare hw).step (.release (fun _ => .refl) _ _ _)

/-- A part of a program that ends in a declaration of what it has made,
such as a toolkit. -/
theorem enters_holding {refs : List Ref} {x : Eval Unit} {b : Binding}
    (hx : ∀ {c m r m'}, x c m = some (r, m') → Evolves (fun _ => ScopeGrows) m.store m'.store)
    {scope : ScopeId}
    (h : Eval.holding refs (do
      Eval.within scope x
      Eval.declare name b) c m = some (.ok (), m')) : Enters c.scope name m.store m'.store := by
  obtain ⟨m₁, hinside, rfl⟩ := Eval.holding_inv h
  obtain ⟨_, _, hexit⟩ | ⟨_, m₂, hbody, hdeclare⟩ := Eval.bind_inv hinside
  · cases hexit
  · exact ((enters_declare hdeclare).before (hx hbody)).after (.release (fun _ => .refl) _ _ _)

end

section
variable {steps : Nat} {c : Context} {m m' : Machine}

theorem grows_runBlock {body : List Node} {r : Except Exit Unit}
    (h : Evaluator.runBlock (evaluate steps) body c m = some (r, m')) :
    Evolves (fun _ => ScopeGrows) m.store m'.store :=
  evolves_of_keeps (growth_congruence.runBlock (growth_congruence.evaluate steps) body) h

theorem grows_declareAttributes {attributes : List Node} {r : Except Exit Unit}
    (h : Evaluator.declareAttributes (evaluate steps) attributes c m = some (r, m')) :
    Evolves (fun _ => ScopeGrows) m.store m'.store := by
  have hkeeps : growth.toRegime.Keeps.upward Unit [] [] _ _ :=
    growth_congruence.discipline.declareAttributes
      (fun _ _ node us _ => growth_congruence.evaluate steps us node) attributes
  exact evolves_of_keeps hkeeps.all h

theorem grows_evaluate {node : Node} {r : Except Exit Value}
    (h : evaluate steps node c m = some (r, m')) :
    Evolves (fun _ => ScopeGrows) m.store m'.store :=
  evolves_of_keeps (growth_congruence.evaluate steps [] node) h

theorem grows_exportIfInToolkit {name : String} {v : Value} {r : Except Exit Unit}
    (h : Evaluator.exportIfInToolkit name v c m = some (r, m')) :
    Evolves (fun _ => ScopeGrows) m.store m'.store := by
  rw [Evaluator.exportIfInToolkit_apply] at h
  cases hfound : m.store.nearestExports? c.scope with
  | none =>
    rw [hfound] at h
    cases h
    exact .refl (fun _ => .refl) _
  | some exports =>
    rw [hfound] at h
    exact grows_settle h

theorem enters_declareSpec {decl : Spec Node} {name : String} {v : Value}
    (hname : decl.name = some name)
    (h : Evaluator.declareSpec decl c m = some (.ok v, m')) :
    Enters c.scope name m.store m'.store := by
  unfold Evaluator.declareSpec at h
  rw [hname] at h
  obtain ⟨_, _, hexit⟩ | ⟨_, m₁, hdeclare, hrest⟩ := Eval.bind_inv h
  · cases hexit
  · refine (enters_declare hdeclare).after ?_
    dsimp only at hrest
    split at hrest
    · obtain ⟨_, _, hexit⟩ | ⟨_, m₂, hexport, hend⟩ := Eval.bind_inv hrest
      · cases hexit
      · cases hend
        exact grows_exportIfInToolkit hexport
    · cases hrest
      exact .refl (fun _ => .refl) _

/-- What is made for a name is a scope, in which a body runs, and then
the name is bound. -/
theorem enters_newChild (above : ScopeId) {kind : ScopeKind} (refs : ScopeId → List Ref)
    {x : Eval Unit} {name : String} (b : ScopeId → Binding) {v : Value}
    (hx : ∀ {c m r m'}, x c m = some (r, m') → Evolves (fun _ => ScopeGrows) m.store m'.store)
    (h : (do
      let id ← Eval.newChild above kind
      Eval.holding (refs id) do
        Eval.within id x
        Eval.declare name (b id)
      pure .nil : Eval Value) c m = some (.ok v, m')) : Enters c.scope name m.store m'.store := by
  rw [Eval.newChild_bind] at h
  obtain ⟨_, _, hexit⟩ | ⟨_, m₁, hheld, hend⟩ := Eval.bind_inv h
  · cases hexit
  · cases hend
    exact (enters_holding hx hheld).before (.child (fun _ => .refl) m.store above kind)

/-- A name that is declared is bound at some moment. -/
theorem enters_step {node : Node} {name : String} {v : Value} {bound : Nat}
    (hname : node.declares? = some name)
    (h : Evaluator.step (evaluate steps) (Evaluator.runBlock (evaluate steps)) bound node c m =
      some (.ok v, m')) : Enters c.scope name m.store m'.store := by
  cases node with
  | spec decl => exact enters_declareSpec hname h
  | firm n value =>
    cases hname
    obtain ⟨_, _, hexit⟩ | ⟨u, m₁, hvalue, hheld⟩ := Eval.bind_inv (x := evaluate steps value) h
    · cases hexit
    · obtain ⟨m₂, hinside, rfl⟩ := Eval.holding_inv hheld
      obtain ⟨_, _, hexit⟩ | ⟨_, m₃, hdeclare, hend⟩ := Eval.bind_inv hinside
      · cases hexit
      · cases hend
        exact ((enters_declare hdeclare).before (grows_evaluate hvalue)).after
          (.release (fun _ => .refl) _ _ _)
  | toolkit n body =>
    cases hname
    have hmade : Enters c.scope name (m.store.add (Scope.top .exports)).2 m'.store :=
      enters_newChild (m := { m with store := (m.store.add (Scope.top .exports)).2 }) c.scope
        (fun id => [.scope id, .scope m.store.next])
        (fun id => .ofValue (.toolkit ⟨name, id, m.store.next⟩)) grows_runBlock h
    exact hmade.before (.add (fun _ => .refl) _ _)
  | bridge n body =>
    cases hname
    exact enters_newChild c.scope (fun id => [.scope id])
      (fun id => .ofValue (.bridge ⟨name, id⟩)) grows_runBlock h
  | blueprint decl =>
    cases hname
    refine enters_newChild c.scope (fun id => [.scope id])
      (fun id => .ofValue (.blueprint ⟨decl.name, id, decl.constructor⟩)) ?_ h
    intro c m r m' hbody
    obtain ⟨_, hattributes, -⟩ | ⟨_, m₁, hattributes, hmethods⟩ := Eval.bind_inv hbody
    · exact grows_declareAttributes hattributes
    · exact grows_trans (grows_declareAttributes hattributes) (grows_runBlock hmethods)
  | _ => cases hname

end

/-! ### One part -/

/-- A name is bound in the current scope, which does not bind it for
good. -/
structure Binds (c : Context) (name : String) (v : Value) (m m' : Machine) : Prop where
  declared : Eval.declare name (.ofValue v) c m = some (.ok (), m')
  scope : ∃ scope, m.store.scope? c.scope = some scope ∧ scope.isConstant name = false ∧
    m'.store.scope? c.scope = some (scope.bind name (.ofValue v))

/-- The current scope binds a name for good. -/
def Fixed (c : Context) (name : String) (m : Machine) : Prop :=
  ∃ scope, m.store.scope? c.scope = some scope ∧ scope.isConstant name = true

/-- A name that can be bound is not bound for good. -/
theorem Binds.not_fixed {c : Context} {name : String} {v : Value} {m m' : Machine}
    (h : Binds c name v m m') : ¬ Fixed c name m := by
  rintro ⟨scope, hscope, hconstant⟩
  obtain ⟨_, hsame, hfree, -⟩ := h.scope
  rw [hscope] at hsame
  cases hsame
  rw [hconstant] at hfree
  cases hfree

section
variable (steps : Nat) (c : Context)

/-- What a part comes to that is evaluated as a node, with the name that
it has declared. A fault of its own is reported, and costs the name and
nothing else. -/
inductive Runs : Node → Machine → Option String → Machine → Prop where
  | ended {x : Node} {m m₁ : Machine} {v : Value} :
      unrecovered steps x c m = some (.ok v, m₁) →
      Runs x m x.declares? (m₁.release c.held v.refs)
  | faulted {x : Node} {m m₁ m' : Machine} {f : Fault} :
      unrecovered steps x c m = some (.error (.fault f), m₁) →
      Eval.report (.fault f) c m₁ = some (.ok (), m') → Runs x m none m'

/-- What an attribute comes to. One that is a name or an assignment to a
name binds the name, with its initial value. Any other runs. -/
inductive Declares : Node → Machine → Option String → Machine → Prop where
  | own {x : Node} {name : String} {value : Option Node} {m m₁ m₂ : Machine} {v : Value} :
      x.core.attribute? = some (name, value) →
      Evaluator.initial (evaluate steps) value c m = some (.ok v, m₁) →
      Binds { c with held := v.refs ++ c.held } name v m₁ m₂ →
      Declares x m (some name) (m₂.release c.held v.refs)
  | other {x : Node} {m m' : Machine} {declared : Option String} :
      x.core.attribute? = none → Runs steps c x.core m declared m' → Declares x m declared m'

/-- The binding of an attribute that is refused, since the scope of the
blueprint binds the name for good. -/
inductive Clashes (x : Node) (m : Machine) (name : String) : Machine → Prop where
  | intro {value : Option Node} {m₁ : Machine} {v : Value} :
      x.core.attribute? = some (name, value) →
      Evaluator.initial (evaluate steps) value c m = some (.ok v, m₁) → Fixed c name m₁ →
      Clashes x m name (m₁.release c.held v.refs)

end

/-- Parts one after the other, with the names that they have declared. -/
inductive InOrder (part : Node → Machine → Option String → Machine → Prop) :
    List Node → Machine → List String → Machine → Prop where
  | done (m : Machine) : InOrder part [] m [] m
  | next {first : Node} {rest : List Node} {m m₁ m' : Machine} {name : Option String}
      {declared : List String} : part first m name m₁ → InOrder part rest m₁ declared m' →
      InOrder part (first :: rest) m (name.toList ++ declared) m'

section
variable {c : Context} {m m' : Machine} {name : String}

/-- To bind a name in a scope that is held either succeeds or is
refused. -/
theorem declare_cases (hheld : .scope c.scope ∈ c.held) (halive : m.store.Has (.scope c.scope))
    (name : String) (v : Value) :
    (∃ m', Binds c name v m m') ∨
      (Fixed c name m ∧
        Eval.declare name (.ofValue v) c m = some (.error (.fault (.constant name)), m)) := by
  obtain ⟨scope, hscope⟩ := halive
  cases hconstant : scope.isConstant name with
  | true =>
    exact .inr ⟨⟨scope, hscope, hconstant⟩, Eval.declare_of_constant hscope hconstant _⟩
  | false =>
    obtain ⟨freed, hdeclare⟩ := Eval.declare_of_free hscope hconstant (.ofValue v)
    let bound := scope.bind name (.ofValue v)
    have hset : (m.store.setScope c.scope bound).scope? c.scope = some bound := by
      rw [Store.scope?_setScope, if_pos rfl, hscope]
      rfl
    exact .inl ⟨_, hdeclare, scope, hscope, hconstant, scope?_release_of_held freed hheld hset⟩

/-- A place stays one where an evaluation can begin, and what is still
alive keeps its shape. -/
theorem Grounded.moved {α : Type} [Yields α] {x : Eval α} {r : Except Exit α} (h : Grounded c m)
    (hkeeps : (Charge.now c m).Keeps α [] [] x x) (hx : x c m = some (r, m')) :
    Grounded c m' ∧ Continues m.store m'.store := by
  have hready : (Charge.now c m).Ready [] [] c m :=
    h.ready (fun _ hi => by cases hi) fun _ hi => by cases hi
  have hended := (hkeeps c m hready).2 r m' hx
  exact ⟨hended.upheld.grounded h.scope, hended.continues⟩

variable {steps : Nat}

theorem Grounded.evaluated {node : Node} {r : Except Exit Value} (h : Grounded c m)
    (hr : evaluate steps node c m = some (r, m')) : Grounded c m' :=
  (h.moved (Charge.evaluate_keeps _ steps [] [] node) hr).1

theorem Grounded.attributes {xs : List Node} {r : Except Exit Unit} (h : Grounded c m)
    (hr : Evaluator.declareAttributes (evaluate steps) xs c m = some (r, m')) :
    Grounded c m' ∧ Continues m.store m'.store :=
  h.moved ((Charge.discipline _).toBasics.declareAttributes (Charge.evaluate_keeps _ steps) xs) hr

theorem Grounded.attribute {x : Node} {r : Except Exit Unit} (h : Grounded c m)
    (hr : Evaluator.declareAttribute (evaluate steps) x c m = some (r, m')) : Grounded c m' :=
  (h.moved ((Charge.discipline _).toBasics.declareAttribute (Charge.evaluate_keeps _ steps) x) hr).1

theorem Grounded.block {body : List Node} {r : Except Exit Unit} (h : Grounded c m)
    (hr : Evaluator.runBlock (evaluate steps) body c m = some (r, m')) :
    Grounded c m' ∧ Continues m.store m'.store :=
  h.moved ((Charge.discipline _).toBasics.runBlock (Charge.evaluate_keeps _ steps) body) hr

theorem Grounded.forgotten {x : Node} {r : Except Exit Unit} (h : Grounded c m)
    (hr : Eval.forget (evaluate steps x) c m = some (r, m')) : Grounded c m' :=
  (h.moved ((Charge.discipline _).toBasics.forget (Charge.evaluate_keeps _ steps [] [] x)) hr).1

theorem Grounded.initial {value : Option Node} {r : Except Exit Value} (h : Grounded c m)
    (hr : Evaluator.initial (evaluate steps) value c m = some (r, m')) : Grounded c m' := by
  cases value with
  | none =>
    cases hr
    exact h
  | some value => exact h.evaluated hr

end

/-! ### A node and its fault -/

section
variable {steps : Nat} {x : Node} {c : Context} {m m' : Machine}

theorem recovering_congr {x y : Eval Value} (h : x c m = y c m') :
    Evaluator.recovering x c m = Evaluator.recovering y c m' := by
  show Eval.bind (Eval.outcome x) _ c m = Eval.bind (Eval.outcome y) _ c m'
  unfold Eval.bind Eval.outcome
  rw [h]

/-- The evaluation of a node is what it does, with recovery from its own
fault. -/
theorem evaluate_eq_recovering (steps : Nat) (x : Node) (c : Context) (m : Machine) :
    evaluate steps x c m = Evaluator.recovering (unrecovered steps x) c m := by
  cases steps with
  | zero => rfl
  | succ steps =>
    cases hflag : m.interrupted with
    | true =>
      have hcheck : Eval.checkInterrupt c m = some (.error .interrupted, m) := by
        rw [Eval.checkInterrupt_apply, if_pos hflag]
      have hends : unrecovered (steps + 1) x c m = some (.error .interrupted, m) :=
        Eval.bind_of_error hcheck
      rw [evaluate_of_interrupted hflag]
      exact (recovering_of_isFault hends fun e he => by cases he; rfl).symm
    | false =>
      obtain ⟨log, hvisit⟩ := noteVisit_apply x c m
      have hcheck : Eval.checkInterrupt c m = some (.ok (), m) := by
        rw [Eval.checkInterrupt_apply, hflag]
        rfl
      have hends : unrecovered (steps + 1) x c m =
          Evaluator.step (evaluate steps) (Evaluator.runBlock (evaluate steps)) steps x c
            { m with log } :=
        (Eval.bind_of_ok hcheck).trans (Eval.bind_of_ok hvisit)
      rw [evaluate_of_visit hflag hvisit]
      exact recovering_congr hends.symm

/-- A node that ends has ended well by itself, or with a fault that is
reported. -/
theorem recovering_ok_iff {x : Eval Value} {v : Value} :
    Evaluator.recovering x c m = some (.ok v, m') ↔
      x c m = some (.ok v, m') ∨ ∃ f m₁, x c m = some (.error (.fault f), m₁) ∧
        Eval.report (.fault f) c m₁ = some (.ok (), m') ∧ v = .nil := by
  constructor
  · intro h
    obtain ⟨_, hended, -⟩ | ⟨r, m₁, hended, hrest⟩ := Eval.bind_inv h
    · obtain ⟨_, -, hexit⟩ := Eval.outcome_inv hended
      cases hexit
    · obtain ⟨_, hx, hr⟩ := Eval.outcome_inv hended
      cases hr
      match r, hrest with
      | .ok u, hrest =>
        cases hrest
        exact .inl hx
      | .error (.fault f), hrest =>
        obtain ⟨_, _, hexit⟩ | ⟨_, m₂, hreport, hend⟩ := Eval.bind_inv hrest
        · cases hexit
        · cases hend
          exact .inr ⟨f, m₁, hx, hreport, rfl⟩
      | .error (.raised _ _), hrest => cases hrest
      | .error (.flow _), hrest => cases hrest
      | .error .interrupted, hrest => cases hrest
      | .error (.stream _), hrest => cases hrest
  · rintro (hx | ⟨f, m₁, hx, hreport, rfl⟩)
    · exact Eval.bind_of_ok (Eval.outcome_of_some hx)
    · exact (Eval.bind_of_ok (Eval.outcome_of_some hx)).trans (Eval.bind_of_ok hreport)

theorem forget_ok_iff :
    Eval.forget (evaluate steps x) c m = some (.ok (), m') ↔ ∃ name, Runs steps c x m name m' := by
  constructor
  · intro h
    obtain ⟨_, _, hexit⟩ | ⟨v, m₁, hx, hheld⟩ := Eval.bind_inv h
    · cases hexit
    · cases hheld
      rw [evaluate_eq_recovering, recovering_ok_iff] at hx
      rcases hx with hx | ⟨f, m₂, hx, hreport, rfl⟩
      · exact ⟨_, .ended hx⟩
      · exact ⟨none, .faulted hx hreport⟩
  · rintro ⟨name, hruns⟩
    cases hruns with
    | ended hx =>
      have hended := recovering_ok_iff.mpr (.inl hx)
      rw [← evaluate_eq_recovering] at hended
      exact Eval.bind_of_ok hended
    | faulted hx hreport =>
      have hended := recovering_ok_iff.mpr (.inr ⟨_, _, hx, hreport, rfl⟩)
      rw [← evaluate_eq_recovering] at hended
      exact Eval.bind_of_ok hended

end

/-! ### Attributes -/

section
variable (ev : Evaluator) {x : Node} (c : Context) (m : Machine)

theorem declareAttribute_core (x : Node) :
    Evaluator.declareAttribute ev x = Evaluator.declareAttribute ev x.core := by
  fun_induction Node.core x with
  | case1 x ih => exact ih
  | case2 x hx => rfl

/-- An attribute with a name of its own binds it with its initial
value. -/
theorem declareAttribute_own {name : String} {value : Option Node}
    (h : x.core.attribute? = some (name, value)) :
    Evaluator.declareAttribute ev x c m =
      Eval.borrow (Evaluator.initial ev value) (fun v => Eval.declare name (.ofValue v)) c m := by
  rw [declareAttribute_core]
  generalize x.core = y at h
  unfold Node.attribute? at h
  split at h
  · cases h
    exact (Eval.holding_nil ..).symm
  · cases h
    rfl
  · cases h

/-- Any other attribute is a node like others. -/
theorem declareAttribute_other (h : x.core.attribute? = none) :
    Evaluator.declareAttribute ev x = Eval.forget (ev x.core) := by
  rw [declareAttribute_core]
  have hcore : ∀ y, x.core ≠ .statement y := by
    fun_induction Node.core x with
    | case1 x ih => exact ih h
    | case2 x hx => exact hx
  rw [Evaluator.declareAttribute]
  · intro name hvar
    rw [hvar] at h
    cases h
  · exact hcore
  · intro name value hassign
    rw [hassign] at h
    cases h

end

section
variable {steps : Nat} {x : Node} {c : Context} {m m' : Machine}

/-- An attribute with a name of its own: its initial value is exited
from, or the name is bound, or that is refused. -/
theorem declareAttribute_inv {name : String} {value : Option Node} {r : Except Exit Unit}
    (h : Grounded c m) (hown : x.core.attribute? = some (name, value))
    (hr : Evaluator.declareAttribute (evaluate steps) x c m = some (r, m')) :
    (∃ e, Evaluator.initial (evaluate steps) value c m = some (.error e, m') ∧ r = .error e) ∨
      (r = .ok () ∧ Declares steps c x m (some name) m') ∨
        (r = .error (.fault (.constant name)) ∧ Clashes steps c x m name m') := by
  rw [declareAttribute_own _ _ _ hown] at hr
  obtain hexit | ⟨v, m₁, hvalue, hheld⟩ := Eval.bind_inv hr
  · exact .inl hexit
  · obtain ⟨m₂, hdeclare, rfl⟩ := Eval.holding_inv hheld
    have hscope := h.initial hvalue
    rcases declare_cases (c := { c with held := v.refs ++ c.held })
      (List.mem_append_right _ hscope.scope) (hscope.alive _ hscope.scope) name v with
      ⟨m₃, hbinds⟩ | ⟨hfixed, hrefused⟩
    · have hends := hbinds.declared.symm.trans hdeclare
      cases hends
      exact .inr (.inl ⟨rfl, .own hown hvalue hbinds⟩)
    · have hends := hrefused.symm.trans hdeclare
      cases hends
      exact .inr (.inr ⟨rfl, .intro hown hvalue hfixed⟩)

theorem declareAttribute_ok_iff (h : Grounded c m) :
    Evaluator.declareAttribute (evaluate steps) x c m = some (.ok (), m') ↔
      ∃ name, Declares steps c x m name m' := by
  constructor
  · intro hr
    cases hown : x.core.attribute? with
    | none =>
      rw [declareAttribute_other _ hown, forget_ok_iff] at hr
      obtain ⟨name, hruns⟩ := hr
      exact ⟨name, .other hown hruns⟩
    | some own =>
      rcases declareAttribute_inv h hown hr with ⟨_, -, hexit⟩ | ⟨-, hdeclares⟩ | ⟨hexit, -⟩
      · cases hexit
      · exact ⟨_, hdeclares⟩
      · cases hexit
  · rintro ⟨name, hdeclares⟩
    cases hdeclares with
    | own hown hvalue hbinds =>
      rw [declareAttribute_own _ _ _ hown]
      exact (Eval.bind_of_ok hvalue).trans (Eval.holding_of_some hbinds.declared)
    | other hown hruns =>
      rw [declareAttribute_other _ hown, forget_ok_iff]
      exact ⟨_, hruns⟩

theorem initial_isFault {value : Option Node} {e : Exit}
    (h : Evaluator.initial (evaluate steps) value c m = some (.error e, m')) :
    e.isFault = false := by
  cases value with
  | none => cases h
  | some value =>
    cases e with
    | fault f => exact (evaluate_inv h).elim False.elim False.elim
    | _ => rfl

/-- The only fault that leaves an attribute is a binding that is
refused. -/
theorem declareAttribute_fault_iff (h : Grounded c m) {f : Fault} :
    Evaluator.declareAttribute (evaluate steps) x c m = some (.error (.fault f), m') ↔
      ∃ name, f = .constant name ∧ Clashes steps c x m name m' := by
  constructor
  · intro hr
    cases hown : x.core.attribute? with
    | none =>
      rw [declareAttribute_other _ hown] at hr
      obtain ⟨_, hexit, he⟩ | ⟨_, _, -, hheld⟩ := Eval.bind_inv hr
      · cases he
        exact ((evaluate_inv hexit).elim False.elim False.elim)
      · cases hheld
    | some own =>
      rcases declareAttribute_inv h hown hr with ⟨_, hexit, he⟩ | ⟨hok, -⟩ | ⟨he, hclashes⟩
      · cases he
        have hfault := initial_isFault hexit
        cases hfault
      · cases hok
      · cases he
        exact ⟨_, rfl, hclashes⟩
  · rintro ⟨name, rfl, hclashes⟩
    obtain ⟨hown, hvalue, scope, hscope, hconstant⟩ := hclashes
    rename_i value m₁ v
    have hdeclare : Eval.declare name (.ofValue v) { c with held := v.refs ++ c.held } m₁ =
        some (.error (.fault (.constant name)), m₁) :=
      Eval.declare_of_constant (c := { c with held := v.refs ++ c.held }) hscope hconstant _
    rw [declareAttribute_own _ _ _ hown]
    exact (Eval.bind_of_ok hvalue).trans (Eval.holding_of_some hdeclare)

end

/-! ### All parts -/

section
variable {steps : Nat} {c : Context} {m m' : Machine}

/-- Parts that are evaluated one after the other. -/
theorem inOrder_iff {part : Node → Machine → Option String → Machine → Prop}
    {one : Node → Eval Unit} {all : List Node → Eval Unit} (hnil : all [] = pure ())
    (hcons : ∀ first rest, all (first :: rest) = one first >>= fun _ => all rest)
    (hpart : ∀ x m m', Grounded c m →
      (one x c m = some (.ok (), m') ↔ ∃ name, part x m name m'))
    (hafter : ∀ x m m', Grounded c m → one x c m = some (.ok (), m') → Grounded c m')
    (h : Grounded c m) (parts : List Node) :
    all parts c m = some (.ok (), m') ↔ ∃ declared, InOrder part parts m declared m' := by
  induction parts generalizing m with
  | nil =>
    rw [hnil]
    constructor
    · intro hr
      cases hr
      exact ⟨[], .done m'⟩
    · rintro ⟨declared, hparts⟩
      cases hparts
      rfl
  | cons first rest ih =>
    rw [hcons]
    constructor
    · intro hr
      obtain ⟨_, -, hexit⟩ | ⟨_, m₁, hfirst, hrest⟩ := Eval.bind_inv hr
      · cases hexit
      · obtain ⟨name, hname⟩ := (hpart first m m₁ h).mp hfirst
        obtain ⟨declared, hparts⟩ := (ih (hafter first m m₁ h hfirst)).mp hrest
        exact ⟨_, .next hname hparts⟩
    · rintro ⟨declared, hparts⟩
      cases hparts with
      | @next _ _ _ m₁ _ name declared hname hparts =>
        have hfirst := (hpart first m m₁ h).mpr ⟨name, hname⟩
        rw [Eval.bind_of_ok hfirst]
        exact (ih (hafter first m m₁ h hfirst)).mpr ⟨declared, hparts⟩

theorem declareAttributes_ok_iff (h : Grounded c m) (attributes : List Node) :
    Evaluator.declareAttributes (evaluate steps) attributes c m = some (.ok (), m') ↔
      ∃ declared, InOrder (Declares steps c) attributes m declared m' :=
  inOrder_iff rfl (fun _ _ => rfl) (fun _ _ _ h => declareAttribute_ok_iff h)
    (fun _ _ _ h => h.attribute) h attributes

theorem runBlock_ok_iff (h : Grounded c m) (methods : List Node) :
    Evaluator.runBlock (evaluate steps) methods c m = some (.ok (), m') ↔
      ∃ declared, InOrder (Runs steps c) methods m declared m' :=
  inOrder_iff rfl (fun _ _ => rfl) (fun _ _ _ _ => forget_ok_iff) (fun _ _ _ h => h.forgotten) h methods

/-- A fault leaves the attributes at the first binding that is
refused. -/
theorem declareAttributes_fault_iff (h : Grounded c m) {f : Fault} (attributes : List Node) :
    Evaluator.declareAttributes (evaluate steps) attributes c m = some (.error (.fault f), m') ↔
      ∃ before x after declared m₁ name, attributes = before ++ x :: after ∧
        InOrder (Declares steps c) before m declared m₁ ∧ Clashes steps c x m₁ name m' ∧
          f = .constant name := by
  constructor
  · intro hr
    induction attributes generalizing m with
    | nil => cases hr
    | cons first rest ih =>
      obtain ⟨_, hexit, he⟩ | ⟨_, m₁, hfirst, hrest⟩ := Eval.bind_inv hr
      · cases he
        obtain ⟨name, rfl, hclashes⟩ := (declareAttribute_fault_iff h).mp hexit
        exact ⟨[], first, rest, [], m, name, rfl, .done m, hclashes, rfl⟩
      · obtain ⟨declared, hname⟩ := (declareAttribute_ok_iff h).mp hfirst
        obtain ⟨before, x, after, names, m₂, name, rfl, hbefore, hclashes, hf⟩ :=
          ih (h.attribute hfirst) hrest
        exact ⟨first :: before, x, after, _, m₂, name, rfl, .next hname hbefore, hclashes, hf⟩
  · rintro ⟨before, x, after, declared, m₁, name, rfl, hbefore, hclashes, rfl⟩
    induction hbefore with
    | done m =>
      exact Eval.bind_of_error ((declareAttribute_fault_iff h).mpr ⟨name, rfl, hclashes⟩)
    | next hname _ ih =>
      have hfirst := (declareAttribute_ok_iff h).mpr ⟨_, hname⟩
      exact (Eval.bind_of_ok hfirst).trans (ih (h.attribute hfirst) hclashes)

end

/-! ### The names of all parts -/

section
variable {steps : Nat} {x : Node} {c : Context} {m m' : Machine} {name : Option String}

/-- The store is the one from before until the node does something. -/
theorem unrecovered_inv {v : Value} (h : unrecovered (steps + 1) x c m = some (.ok v, m')) :
    ∃ m₁, m₁.store = m.store ∧ Evaluator.step (evaluate steps)
      (Evaluator.runBlock (evaluate steps)) steps x c m₁ = some (.ok v, m') := by
  obtain ⟨_, -, hexit⟩ | ⟨_, m₁, hcheck, hvisit⟩ := Eval.bind_inv h
  · cases hexit
  · have hsame : m₁ = m := by
      rw [Eval.checkInterrupt_apply] at hcheck
      exact (Prod.mk.inj (Option.some.inj hcheck)).2.symm
    obtain ⟨log, hnoted⟩ := noteVisit_apply x c m
    obtain ⟨_, -, hexit⟩ | ⟨_, m₂, hnote, hstep⟩ := Eval.bind_inv hvisit
    · cases hexit
    · rw [hsame, hnoted] at hnote
      cases hnote
      exact ⟨{ m with log }, rfl, hstep⟩

theorem Runs.grows (h : Runs steps c x m name m') :
    Evolves (fun _ => ScopeGrows) m.store m'.store := by
  obtain ⟨_, _, hexit⟩ | ⟨v, m₁, hx, hheld⟩ := Eval.bind_inv (forget_ok_iff.mpr ⟨name, h⟩)
  · cases hexit
  · cases hheld
    exact grows_trans (grows_evaluate hx) (.release (fun _ => .refl) _ _ _)

theorem Runs.entered (h : Runs steps c x m name m') {before after : Scope}
    (hbefore : m.store.scope? c.scope = some before)
    (hafter : m'.store.scope? c.scope = some after) :
    Entered name.toList before.names after.names := by
  have hgrows := h.grows
  cases h with
  | faulted => exact .done (hgrows.between hbefore hafter).names
  | ended hx =>
    cases hname : x.declares? with
    | none => exact .done (hgrows.between hbefore hafter).names
    | some name =>
      cases steps with
      | zero => cases hx
      | succ steps =>
        obtain ⟨m₂, hstore, hstep⟩ := unrecovered_inv hx
        have henters := enters_step hname hstep
        rw [hstore] at henters
        exact (henters.after (.release (fun _ => .refl) _ _ _)).entered hbefore hafter

theorem grows_initial {value : Option Node} {r : Except Exit Value}
    (h : Evaluator.initial (evaluate steps) value c m = some (r, m')) :
    Evolves (fun _ => ScopeGrows) m.store m'.store := by
  cases value with
  | none =>
    cases h
    exact .refl (fun _ => .refl) _
  | some value => exact grows_evaluate h

theorem Declares.entered (h : Declares steps c x m name m') {before after : Scope}
    (hbefore : m.store.scope? c.scope = some before)
    (hafter : m'.store.scope? c.scope = some after) :
    Entered name.toList before.names after.names := by
  cases h with
  | other _ hruns => exact hruns.entered hbefore hafter
  | own _ hvalue hbinds =>
    have henters := (enters_declare hbinds.declared).before (grows_initial hvalue)
    exact (henters.after (.release (fun _ => .refl) _ _ _)).entered hbefore hafter

/-- The names of parts are entered in the order of the parts. -/
theorem InOrder.entered {part : Node → Machine → Option String → Machine → Prop}
    (hafter : ∀ {x m name m'}, Grounded c m → part x m name m' → Grounded c m')
    (hpart : ∀ {x m name m' before after}, part x m name m' →
      m.store.scope? c.scope = some before → m'.store.scope? c.scope = some after →
        Entered name.toList before.names after.names)
    {parts : List Node} {declared : List String} (hparts : InOrder part parts m declared m')
    (h : Grounded c m) {before : Scope} (hbefore : m.store.scope? c.scope = some before) :
    Grounded c m' ∧ ∃ after, m'.store.scope? c.scope = some after ∧
      Entered declared before.names after.names := by
  induction hparts generalizing before with
  | done m => exact ⟨h, before, hbefore, .done List.prefix_rfl⟩
  | next hfirst _ ih =>
    have hnext := hafter h hfirst
    obtain ⟨mid, hmid⟩ := hnext.alive _ hnext.scope
    obtain ⟨hlast, after, hend, hrest⟩ := ih hnext hmid
    exact ⟨hlast, after, hend, (hpart hfirst hbefore hmid).append hrest⟩

theorem Grounded.runs (h : Grounded c m) (hruns : Runs steps c x m name m') : Grounded c m' :=
  h.forgotten (forget_ok_iff.mpr ⟨name, hruns⟩)

theorem Grounded.declares (h : Grounded c m) (hdeclares : Declares steps c x m name m') :
    Grounded c m' :=
  h.attribute ((declareAttribute_ok_iff h).mpr ⟨name, hdeclares⟩)

end

/-! ### Blueprints -/

/-- Where the parts of a blueprint are evaluated. -/
def partsContext (c : Context) (m : Machine) : Context :=
  { c with scope := m.store.next, held := .scope m.store.next :: c.held }

/-- The machine with a new scope for a blueprint. -/
def withParts (c : Context) (m : Machine) : Machine :=
  { m with store := (m.store.child c.scope .blueprint).2 }

/-- The scope of a blueprint binds nothing at first. -/
theorem Grounded.parts {c : Context} {m : Machine} (h : Grounded c m) :
    Grounded (partsContext c m) (withParts c m) ∧
      ∃ scope, (withParts c m).store.scope? m.store.next = some scope ∧
        scope.kind = .blueprint ∧ scope.parent = some c.scope ∧ scope.names = [] := by
  obtain ⟨above, habove⟩ := h.alive _ h.scope
  obtain ⟨outer, root, hchild⟩ := Store.child_eq_of_alive .blueprint habove
  have hgrows := Grows.child m.store c.scope .blueprint
  have hscope : (withParts c m).store.scope? m.store.next =
      some (Scope.fresh .blueprint (some c.scope) outer root) := by
    show (m.store.child c.scope .blueprint).2.scope? _ = _
    rw [hchild, Store.scope?_add, if_pos rfl]
  refine ⟨⟨?_, fun r hr => ?_, List.mem_cons_self ..⟩, _, hscope, rfl, rfl, rfl⟩
  · have hsound : Sound m.store.next (withParts c m).store :=
      h.sound.child c.scope fun id scope hkind => by
        unfold KindStands
        rw [hkind]
        trivial
    exact hsound.mono hgrows.scopes.next
  · rcases List.mem_cons.mp hr with rfl | hr
    · exact ⟨_, hscope⟩
    · exact hgrows.has (h.alive r hr)

/-- How the declaration of a blueprint ends that nothing but faults has
disturbed. -/
inductive Ends (steps : Nat) (decl : BlueprintDecl Node) (c : Context) (m : Machine) :
    Machine → Prop where
  /-- The parts have been declared, apart from those with a fault of
  their own, and the blueprint with them. -/
  | bound {attributes methods : List String} {m₁ m₂ m' : Machine} {scope : Scope} :
      InOrder (Declares steps (partsContext c m)) decl.attributes (withParts c m) attributes m₁ →
      InOrder (Runs steps (partsContext c m)) decl.methods m₁ methods m₂ →
      Binds { c with held := .scope m.store.next :: c.held } decl.name
        (.blueprint ⟨decl.name, m.store.next, decl.constructor⟩) m₂ m' →
      m'.store.scope? m.store.next = some scope → scope.kind = .blueprint →
      scope.parent = some c.scope → Entered (attributes ++ methods) [] scope.names →
      Ends steps decl c m m'
  /-- The name of the blueprint has been bound for good meanwhile. -/
  | late {attributes methods : List String} {m₁ m₂ m' : Machine} :
      InOrder (Declares steps (partsContext c m)) decl.attributes (withParts c m) attributes m₁ →
      InOrder (Runs steps (partsContext c m)) decl.methods m₁ methods m₂ →
      Fixed c decl.name m₂ →
      Eval.report (.fault (.constant decl.name)) c (m₂.release c.held [.scope m.store.next]) =
        some (.ok (), m') →
      m'.store.scope? c.scope = m₂.store.scope? c.scope → Ends steps decl c m m'
  /-- The binding of an attribute has been refused. The parts behind it
  are left out, and so is the blueprint. -/
  | refused {before after : List Node} {x : Node} {attributes : List String} {name : String}
      {m₁ m₂ m' : Machine} :
      decl.attributes = before ++ x :: after →
      InOrder (Declares steps (partsContext c m)) before (withParts c m) attributes m₁ →
      Clashes steps (partsContext c m) x m₁ name m₂ →
      Eval.report (.fault (.constant name)) c (m₂.release c.held [.scope m.store.next]) =
        some (.ok (), m') →
      m'.store.scope? c.scope = m₂.store.scope? c.scope → Ends steps decl c m m'

section
variable {steps : Nat} {decl : BlueprintDecl Node} {c : Context} {m m' : Machine}

/-- What the parts of a blueprint do. -/
def evalParts (steps : Nat) (decl : BlueprintDecl Node) : Eval Unit := do
  Evaluator.declareAttributes (evaluate steps) decl.attributes
  Evaluator.runBlock (evaluate steps) decl.methods

/-- What is done while the scope of a blueprint is held. -/
def bindBlueprint (steps : Nat) (decl : BlueprintDecl Node) (id : ScopeId) : Eval Unit := do
  Eval.within id (evalParts steps decl)
  Eval.declare decl.name (.ofValue (.blueprint ⟨decl.name, id, decl.constructor⟩))

theorem declareBlueprint_apply (steps : Nat) (decl : BlueprintDecl Node) (c : Context)
    (m : Machine) :
    Evaluator.declareBlueprint (evaluate steps) decl c m =
      (Eval.holding [.scope m.store.next] (bindBlueprint steps decl m.store.next) >>= fun _ =>
        pure .nil) c (withParts c m) := by
  show (Eval.newChild c.scope .blueprint >>= fun id =>
    Eval.holding [.scope id] (bindBlueprint steps decl id) >>= fun _ => pure Value.nil) c m = _
  rw [Eval.newChild_bind]
  rfl

/-- All parts end well or leave nothing undone but what they say. -/
theorem evalParts_ok_iff (h : Grounded c m) :
    evalParts steps decl (partsContext c m) (withParts c m) = some (.ok (), m') ↔
      ∃ attributes methods m₁,
        InOrder (Declares steps (partsContext c m)) decl.attributes (withParts c m) attributes m₁ ∧
          InOrder (Runs steps (partsContext c m)) decl.methods m₁ methods m' := by
  have hstart := h.parts.1
  constructor
  · intro hr
    obtain ⟨_, -, hexit⟩ | ⟨_, m₁, hattributes, hmethods⟩ := Eval.bind_inv hr
    · cases hexit
    · obtain ⟨attributes, hdeclared⟩ := (declareAttributes_ok_iff hstart _).mp hattributes
      obtain ⟨methods, hran⟩ := (runBlock_ok_iff (hstart.attributes hattributes).1 _).mp hmethods
      exact ⟨attributes, methods, m₁, hdeclared, hran⟩
  · rintro ⟨attributes, methods, m₁, hdeclared, hran⟩
    have hattributes := (declareAttributes_ok_iff hstart _).mpr ⟨attributes, hdeclared⟩
    have hmethods := (runBlock_ok_iff (hstart.attributes hattributes).1 _).mpr ⟨methods, hran⟩
    exact (Eval.bind_of_ok hattributes).trans hmethods

/-- A fault that leaves the parts is a binding that is refused. -/
theorem evalParts_fault_iff (h : Grounded c m) {f : Fault} :
    evalParts steps decl (partsContext c m) (withParts c m) = some (.error (.fault f), m') ↔
      ∃ before x after attributes m₁ name, decl.attributes = before ++ x :: after ∧
        InOrder (Declares steps (partsContext c m)) before (withParts c m) attributes m₁ ∧
          Clashes steps (partsContext c m) x m₁ name m' ∧ f = .constant name := by
  rw [← declareAttributes_fault_iff h.parts.1]
  constructor
  · intro hr
    obtain ⟨_, hattributes, he⟩ | ⟨_, _, -, hmethods⟩ := Eval.bind_inv hr
    · cases he
      exact hattributes
    · have hfault := runBlock_isFault hmethods
      cases hfault
  · exact fun hattributes => Eval.bind_of_error hattributes

/-- After the parts the place of the declaration still is one where an
evaluation can begin, and the scope of the blueprint has all their names
in order. -/
theorem evalParts_scope (h : Grounded c m) {attributes methods : List String} {m₁ m₂ : Machine}
    (hdeclared : InOrder (Declares steps (partsContext c m)) decl.attributes (withParts c m)
      attributes m₁)
    (hran : InOrder (Runs steps (partsContext c m)) decl.methods m₁ methods m₂) :
    Grounded (partsContext c m) m₂ ∧ ∃ scope, m₂.store.scope? m.store.next = some scope ∧
      scope.kind = .blueprint ∧ scope.parent = some c.scope ∧
        Entered (attributes ++ methods) [] scope.names := by
  obtain ⟨hstart, fresh, hfresh, hkind, hparent, hnames⟩ := h.parts
  obtain ⟨hmid, mid, hmidscope, hfirst⟩ := hdeclared.entered (fun h hd => h.declares hd)
    (fun hd => hd.entered) hstart hfresh
  obtain ⟨hlast, scope, hscope, hrest⟩ := hran.entered (fun h hr => h.runs hr)
    (fun hr => hr.entered) hmid hmidscope
  have hattributes := (declareAttributes_ok_iff hstart _).mpr ⟨_, hdeclared⟩
  have hmethods := (runBlock_ok_iff hmid _).mpr ⟨_, hran⟩
  have hcontinues := (hstart.attributes hattributes).2.trans (hmid.block hmethods).2
  have hshape := hcontinues.shape hfresh hscope
  have hentered := hfirst.append hrest
  rw [hnames] at hentered
  exact ⟨hlast, scope, hscope, hshape.kind.trans hkind, hshape.parent.trans hparent, hentered⟩

/-- The scope of a blueprint that has been bound is kept by the binding,
and it is as it was. -/
theorem Binds.keeps_scope {id : ScopeId} {b : Blueprint} {name : String} {m₂ : Machine}
    {scope : Scope} (h : Binds { c with held := .scope id :: c.held } name (.blueprint b) m₂ m')
    (hid : b.scope = id) (hne : c.scope ≠ id) (hscope : m₂.store.scope? id = some scope) :
    m'.release c.held [.scope id] = m' ∧ m'.store.scope? id = some scope := by
  obtain ⟨env, henv, hfree, hbound⟩ := h.scope
  have hkept : m'.store.refersTo (.scope id) = true := by
    have hmem : (name, Binding.ofValue (.blueprint b)) ∈
        (env.bind name (.ofValue (.blueprint b))).bindings :=
      Scope.mem_of_binding? (by rw [Scope.binding?_bind, if_pos rfl])
    refine Store.refersTo_of_scope hbound (List.mem_append_right _ ?_)
    exact List.mem_flatMap.mpr ⟨_, hmem, hid ▸ List.mem_singleton_self _⟩
  have hreleased : m'.store.release c.held [.scope id] = m'.store :=
    Store.release_of_kept fun r hr => .inr (List.mem_singleton.mp hr ▸ hkept)
  refine ⟨by rw [Machine.release, hreleased], ?_⟩
  obtain ⟨freed, hdeclare⟩ := Eval.declare_of_free henv hfree (.ofValue (.blueprint b))
  cases h.declared.symm.trans hdeclare
  refine scope?_release_of_held freed (List.mem_cons_self ..) ?_
  show (m₂.store.setScope c.scope _).scope? id = _
  rw [Store.scope?_setScope, if_neg hne.symm]
  exact hscope

/-- The declaration of a blueprint whose parts end well or with faults of
their own. -/
theorem declareBlueprint_of_parts (h : Grounded c m) {attributes methods : List String}
    {m₁ m₂ : Machine}
    (hdeclared : InOrder (Declares steps (partsContext c m)) decl.attributes (withParts c m)
      attributes m₁)
    (hran : InOrder (Runs steps (partsContext c m)) decl.methods m₁ methods m₂) :
    (∃ m' scope, Evaluator.declareBlueprint (evaluate steps) decl c m = some (.ok .nil, m') ∧
      Binds { c with held := .scope m.store.next :: c.held } decl.name
        (.blueprint ⟨decl.name, m.store.next, decl.constructor⟩) m₂ m' ∧
      m'.store.scope? m.store.next = some scope ∧ scope.kind = .blueprint ∧
        scope.parent = some c.scope ∧ Entered (attributes ++ methods) [] scope.names) ∨
    (Fixed c decl.name m₂ ∧ Evaluator.declareBlueprint (evaluate steps) decl c m =
      some (.error (.fault (.constant decl.name)), m₂.release c.held [.scope m.store.next])) := by
  obtain ⟨hlast, scope, hscope, hkind, hparent, hentered⟩ := evalParts_scope h hdeclared hran
  have hparts : Eval.within m.store.next (evalParts steps decl)
      { c with held := [.scope m.store.next] ++ c.held } (withParts c m) = some (.ok (), m₂) :=
    (evalParts_ok_iff h).mpr ⟨attributes, methods, m₁, hdeclared, hran⟩
  obtain ⟨above, habove⟩ := h.alive _ h.scope
  have hne : c.scope ≠ m.store.next := Nat.ne_of_lt (Store.lt_next habove)
  have halive : m₂.store.Has (.scope c.scope) := hlast.alive _ (List.mem_cons_of_mem _ h.scope)
  rw [declareBlueprint_apply]
  rcases declare_cases (c := { c with held := .scope m.store.next :: c.held })
    (List.mem_cons_of_mem _ h.scope) halive decl.name
    (.blueprint ⟨decl.name, m.store.next, decl.constructor⟩) with
    ⟨m', hbinds⟩ | ⟨hfixed, hrefused⟩
  · obtain ⟨hreleased, hafter⟩ := hbinds.keeps_scope rfl hne hscope
    have hinside : bindBlueprint steps decl m.store.next
        { c with held := [.scope m.store.next] ++ c.held } (withParts c m) = some (.ok (), m') :=
      (Eval.bind_of_ok hparts).trans hbinds.declared
    have hheld := Eval.holding_of_some hinside
    refine .inl ⟨m', scope, (Eval.bind_of_ok hheld).trans ?_, hbinds, hafter, hkind, hparent,
      hentered⟩
    show some (Except.ok Value.nil, m'.release c.held [.scope m.store.next]) = _
    rw [hreleased]
  · have hinside : bindBlueprint steps decl m.store.next
        { c with held := [.scope m.store.next] ++ c.held } (withParts c m) =
          some (.error (.fault (.constant decl.name)), m₂) :=
      (Eval.bind_of_ok hparts).trans hrefused
    exact .inr ⟨hfixed, Eval.bind_of_error (Eval.holding_of_some hinside)⟩

/-- The declaration of a blueprint with a binding that is refused. -/
theorem declareBlueprint_of_clash (h : Grounded c m) {before after : List Node} {x : Node}
    {attributes : List String} {name : String} {m₁ m₂ : Machine}
    (hsplit : decl.attributes = before ++ x :: after)
    (hdeclared : InOrder (Declares steps (partsContext c m)) before (withParts c m) attributes m₁)
    (hclashes : Clashes steps (partsContext c m) x m₁ name m₂) :
    m₂.store.Has (.scope c.scope) ∧ Evaluator.declareBlueprint (evaluate steps) decl c m =
      some (.error (.fault (.constant name)), m₂.release c.held [.scope m.store.next]) := by
  have hattributes := (declareAttributes_fault_iff h.parts.1 decl.attributes).mpr
    ⟨before, x, after, attributes, m₁, name, hsplit, hdeclared, hclashes, rfl⟩
  have hparts : Eval.within m.store.next (evalParts steps decl)
      { c with held := [.scope m.store.next] ++ c.held } (withParts c m) =
        some (.error (.fault (.constant name)), m₂) := Eval.bind_of_error hattributes
  have hinside : bindBlueprint steps decl m.store.next
      { c with held := [.scope m.store.next] ++ c.held } (withParts c m) =
        some (.error (.fault (.constant name)), m₂) := Eval.bind_of_error hparts
  rw [declareBlueprint_apply]
  exact ⟨(h.parts.1.attributes hattributes).1.alive _ (List.mem_cons_of_mem _ h.scope),
    Eval.bind_of_error (Eval.holding_of_some hinside)⟩

/-- How the parts have ended, given how the declaration has. -/
theorem declareBlueprint_inv {r : Except Exit Value}
    (hr : Evaluator.declareBlueprint (evaluate steps) decl c m = some (r, m')) :
    ∃ o m₂, evalParts steps decl (partsContext c m) (withParts c m) = some (o, m₂) ∧
      ∀ e, o = .error e → r = .error e := by
  rw [declareBlueprint_apply] at hr
  obtain ⟨o, m₁, hheld, hlast⟩ : ∃ o m₁, Eval.holding [.scope m.store.next]
      (bindBlueprint steps decl m.store.next) c (withParts c m) = some (o, m₁) ∧
        ∀ e, o = .error e → r = .error e := by
    obtain ⟨e, hheld, rfl⟩ | ⟨_, m₁, hheld, -⟩ := Eval.bind_inv hr
    · exact ⟨_, _, hheld, fun _ he => by cases he; rfl⟩
    · exact ⟨_, _, hheld, nofun⟩
  obtain ⟨m₂, hinside, -⟩ := Eval.holding_inv hheld
  obtain ⟨e, hparts, rfl⟩ | ⟨_, m₃, hparts, -⟩ := Eval.bind_inv hinside
  · exact ⟨.error e, m₂, hparts, hlast⟩
  · exact ⟨.ok (), m₃, hparts, nofun⟩

/-- A report leaves all scopes as they are, and so does letting go of
what is not held. -/
theorem scope?_of_report {e : Exit} {id : ScopeId} {refs : List Ref} {m₂ : Machine}
    (hreport : Eval.report e c (m₂.release c.held refs) = some (.ok (), m'))
    (hheld : .scope id ∈ c.held) (halive : m₂.store.Has (.scope id)) :
    m'.store.scope? id = m₂.store.scope? id := by
  obtain ⟨scope, hscope⟩ := halive
  rw [(Eval.report_inv hreport).1, hscope]
  exact scope?_release_of_held refs hheld hscope

/-- How a declaration ends that ends well, after recovery. -/
theorem recovering_declareBlueprint_iff (h : Grounded c m) {v : Value} :
    Evaluator.recovering (Evaluator.declareBlueprint (evaluate steps) decl) c m =
        some (.ok v, m') ↔ v = .nil ∧ Ends steps decl c m m' := by
  rw [recovering_ok_iff]
  constructor
  · intro hends
    have hdeclared : ∃ r m₁, Evaluator.declareBlueprint (evaluate steps) decl c m = some (r, m₁) ∧
        ∀ e, r = .error e → e.isFault = true := by
      rcases hends with hok | ⟨f, m₁, hfault, -⟩
      · exact ⟨_, _, hok, nofun⟩
      · exact ⟨_, _, hfault, fun e he => by cases he; rfl⟩
    obtain ⟨r, m₁, hr, hfaults⟩ := hdeclared
    obtain ⟨o, m₂, hparts, ho⟩ := declareBlueprint_inv hr
    cases o with
    | ok u =>
      obtain ⟨attributes, methods, mid, hattributes, hmethods⟩ := (evalParts_ok_iff h).mp hparts
      rcases declareBlueprint_of_parts h hattributes hmethods with
        ⟨last, scope, hok, hbinds, hscope, hkind, hparent, hentered⟩ | ⟨hfixed, hfault⟩
      · rw [hok] at hends
        rcases hends with hend | ⟨_, _, hend, -⟩
        · cases hend
          exact ⟨rfl, .bound hattributes hmethods hbinds hscope hkind hparent hentered⟩
        · cases hend
      · rw [hfault] at hends
        rcases hends with hend | ⟨_, _, hend, hreport, rfl⟩
        · cases hend
        · cases hend
          have halive := (evalParts_scope h hattributes hmethods).1.alive (.scope c.scope)
            (List.mem_cons_of_mem _ h.scope)
          exact ⟨rfl, .late hattributes hmethods hfixed hreport
            (scope?_of_report hreport h.scope halive)⟩
    | error e =>
      have hisfault := hfaults e (ho e rfl)
      cases e with
      | fault f =>
        obtain ⟨before, x, after, attributes, mid, name, hsplit, hbefore, hclashes, rfl⟩ :=
          (evalParts_fault_iff h).mp hparts
        obtain ⟨halive, hfault⟩ := declareBlueprint_of_clash h hsplit hbefore hclashes
        rw [hfault] at hends
        rcases hends with hend | ⟨_, _, hend, hreport, rfl⟩
        · cases hend
        · cases hend
          exact ⟨rfl, .refused hsplit hbefore hclashes hreport
            (scope?_of_report hreport h.scope halive)⟩
      | _ => cases hisfault
  · rintro ⟨rfl, hends⟩
    cases hends with
    | bound hattributes hmethods hbinds hscope hkind hparent hentered =>
      rcases declareBlueprint_of_parts h hattributes hmethods with
        ⟨last, scope, hok, hbinds', -⟩ | ⟨hfixed, -⟩
      · have hsame := hbinds.declared.symm.trans hbinds'.declared
        cases hsame
        exact .inl hok
      · exact absurd hfixed hbinds.not_fixed
    | late hattributes hmethods hfixed hreport =>
      rcases declareBlueprint_of_parts h hattributes hmethods with
        ⟨last, scope, hok, hbinds, -⟩ | ⟨-, hfault⟩
      · exact absurd hfixed hbinds.not_fixed
      · exact .inr ⟨_, _, hfault, hreport, rfl⟩
    | refused hsplit hbefore hclashes hreport =>
      exact .inr ⟨_, _, (declareBlueprint_of_clash h hsplit hbefore hclashes).2, hreport, rfl⟩

/-- What a declaration of a blueprint comes to that ends, from a place
where an evaluation can begin.

* Each attribute and each method is declared in its turn, or meets a
  fault, which is reported and costs what this one declares and nothing
  else. Then the name is bound to a new blueprint with the constructor
  that is declared. The scope of the blueprint has all names that were
  declared, in order.
* The one exception is the binding of an attribute itself. If the scope
  of the blueprint binds the name for good, that is reported too, but no
  further part is evaluated, and the name of the blueprint is not
  bound. -/
theorem blueprint_declared (h : Grounded c m) (v : Value) :
    evaluate (steps + 1) (.blueprint decl) c m = some (.ok v, m') ↔
      m.interrupted = false ∧ v = .nil ∧
        ∃ m₁, noteVisit (.blueprint decl) c m = some (.ok (), m₁) ∧ Ends steps decl c m₁ m' := by
  obtain ⟨log, hvisit⟩ := noteVisit_apply (.blueprint decl) c m
  have hgrounded : Grounded c { m with log } := ⟨h.sound, h.alive, h.scope⟩
  cases hflag : m.interrupted with
  | true =>
    rw [evaluate_of_interrupted hflag]
    simp
  | false =>
    have hends : Evaluator.recovering (Evaluator.declareBlueprint (evaluate steps) decl) c
        { m with log } = some (.ok v, m') ↔ v = .nil ∧ Ends steps decl c { m with log } m' :=
      recovering_declareBlueprint_iff hgrounded
    rw [evaluate_of_visit hflag hvisit]
    constructor
    · intro hr
      obtain ⟨hv, hlast⟩ := hends.mp hr
      exact ⟨rfl, hv, _, hvisit, hlast⟩
    · rintro ⟨-, hv, m₁, hvisit', hlast⟩
      have hsame := hvisit.symm.trans hvisit'
      cases hsame
      exact hends.mpr ⟨hv, hlast⟩

end

/-- The names that a scope binds. -/
def namesIn (m : Machine) (id : ScopeId) : List String :=
  (m.store.scope? id).elim [] Scope.names

/-- A method that does nothing. -/
def emptyMethod (name : String) : Node :=
  .spec ⟨0, some name, [receiverName], [], false, false, none⟩

/-- Faults in a value and in a method, in a new interpreter. The first
attribute is a constant, which the first method cannot declare again. -/
theorem blueprint_declared_with_faults :
    let s := Session.start .standard (.limited none none) (.limited none none) ⟨[]⟩ 0
    let c : Context := ⟨.standard, s.globals, s.held⟩
    let decl : BlueprintDecl Node :=
      ⟨"P", [.firm "k" .nil, .assign (.var "x") (.var "missing")],
        [.firm "k" (.text "a"), emptyMethod "m"], none, none⟩
    Grounded c s.machine ∧ ∃ m', evaluate 4 (.blueprint decl) c s.machine = some (.ok .nil, m') ∧
      (∃ m₁, Ends 3 decl c m₁ m') ∧ namesIn m' s.globals = ["P"] ∧
        namesIn m' 1 = ["k", "x", "m"] := by
  intro s c decl
  have hgrounded : Grounded c s.machine := grounded_start ..
  have hends : ∃ m', evaluate 4 (.blueprint decl) c s.machine = some (.ok .nil, m') ∧
      namesIn m' s.globals = ["P"] ∧ namesIn m' 1 = ["k", "x", "m"] := ⟨_, rfl, rfl, rfl⟩
  obtain ⟨m', hends, hnames⟩ := hends
  obtain ⟨-, -, m₁, -, hlast⟩ := (blueprint_declared hgrounded .nil).mp hends
  exact ⟨hgrounded, m', hends, ⟨m₁, hlast⟩, hnames⟩

/-- With an attribute in the place of the statement that has the fault, a
bridge is declared and has all other names, but a blueprint is not
declared. -/
theorem attribute_clash :
    let c : Context := ⟨.standard, 0, [.scope 0]⟩
    let m := Machine.single (Scope.top .global)
    let k : Node := .firm "x" (.text "a")
    let fault := Exit.fault (.constant "x")
    let line := fault.category ++ ": " ++ fault.message ++ "\n"
    let outcome (node : Node) : Option (List String × List String × String) :=
      match evaluate 4 node c m with
      | some (.ok .nil, m') => some (namesIn m' 0, namesIn m' 1, m'.err.taken)
      | _ => none
    outcome (.bridge "R" [k, k, emptyMethod "m"]) = some (["R"], ["x", "m"], line) ∧
      outcome (.blueprint ⟨"P", [k, .var "x"], [emptyMethod "m"], none, none⟩) =
        some ([], [], line) := by
  decide +kernel

end Proofs

end Treewalk
