import Treewalk.Proofs.StoreRegime

/-!
# `Treewalk.Proofs.Growth`: scopes grow and constants stay

Names are bound from many places: assignments and declarations, the
parameters of calls, the variables of loops, copies of a blueprint or
of exports. All of them go through `Store.declare`, which refuses to
bind a constant anew and leaves every other name in its place.

`ScopeGrows` says what that allows a scope to become, and
`scopes_grow` that nothing else happens to a scope while a node is
evaluated, from any machine and however the evaluation ends.
-/

set_option autoImplicit false

namespace Treewalk.Proofs

/-- A scope with new names after the ones it had, whose constants are
still bound to the same values for good. -/
structure ScopeGrows (before after : Scope) : Prop where
  names : before.names <+: after.names
  constants {name : String} {b : Binding} : before.binding? name = some b → b.constant = true →
    after.binding? name = some b

namespace ScopeGrows

theorem refl (x : Scope) : ScopeGrows x x where
  names := List.prefix_rfl
  constants hb _ := hb

theorem trans {x y z : Scope} (h : ScopeGrows x y) (h' : ScopeGrows y z) : ScopeGrows x z where
  names := h.names.trans h'.names
  constants hb hconstant := h'.constants (h.constants hb hconstant) hconstant

/-- A name that is not bound for good can be bound. -/
theorem bind {x : Scope} {name : String} (hchange : x.isConstant name = false) (b : Binding) :
    ScopeGrows x (x.bind name b) where
  names := by
    rw [Scope.names_bind]
    split
    · exact List.prefix_rfl
    · exact List.prefix_append x.names [name]
  constants {n old} hold hconstant := by
    have hne : n ≠ name := by
      rintro rfl
      have hfirm : x.isConstant n = true := by
        rw [Scope.isConstant, hold]
        exact hconstant
      rw [hchange] at hfirm
      cases hfirm
    rw [Scope.binding?_bind, if_neg hne]
    exact hold

end ScopeGrows

/-- The regime under which every scope grows. It asks nothing of the
store or of the items in hand, since `Store.declare` looks at the scope
itself before it writes. -/
def growth : StoreRegime where
  Inv _ := True
  Step := Evolves fun _ => ScopeGrows
  Good _ _ := True
  refl := Evolves.refl fun _ => ScopeGrows.refl
  trans := Evolves.trans fun _ _ _ _ => ScopeGrows.trans
  good_step _ hi := hi

theorem growth_declare {s : Store} {id : ScopeId} {name : String} {b : Binding} {w : Written}
    (hw : s.declare id name b = .ok w) : growth.Moved s w.store := by
  refine ⟨trivial, .declare (fun _ => .refl) hw ?_⟩
  intro scope _ hchange
  exact .bind hchange b

theorem growth_laws : growth.Laws where
  data _ := trivial
  spec _ := trivial
  blueprint _ _ _ _ _ := trivial
  toolkit _ _ _ _ _ := trivial
  bridge _ _ _ := trivial
  exit _ := trivial
  seen _ _ _ := trivial
  above _ _ _ _ := trivial
  bound _ _ _ _ := trivial
  owner _ _ _ _ := trivial
  release held refs _ := ⟨trivial, .release (fun _ => .refl) _ held refs⟩
  declare _ _ _ _ hw := growth_declare hw
  assign _ _ _ hw := growth_declare hw
  newExports _ := ⟨⟨trivial, .add (fun _ => .refl) _ _⟩, trivial⟩
  newChild _ _ _ _ := ⟨⟨trivial, .child (fun _ => .refl) _ _ _⟩, trivial, trivial⟩
  newObject _ _ :=
    ⟨⟨trivial, .addObject (fun _ => .refl) (fun _ _ _ _ => .trans) _ _⟩, trivial⟩

theorem growth_nodeLaws : growth.NodeLaws where
  exports _ _ _ _ := trivial
  exportIn _ _ _ hw := growth_declare hw
  code _ := trivial

theorem growth_congruence : Congruence growth.toRegime.Keeps growth.toRegime.Keeps :=
  growth_laws.congruence growth_nodeLaws

/-- An evaluation that keeps the regime lets all scopes grow. -/
theorem evolves_of_keeps {α : Type} [Yields α] {x y : Eval α}
    (hkeeps : growth.toRegime.Keeps α [] x y) {c : Context} {m m' : Machine} {r : Except Exit α}
    (hy : y c m = some (r, m')) : Evolves (fun _ => ScopeGrows) m.store m'.store :=
  (hkeeps.ended trivial trivial hy).step

/-- Over the evaluation of any node, and over any way it ends, every
scope that is alive at both ends has kept its names in their places and
its constants as they were, and binds no name twice. -/
theorem scopes_grow {steps : Nat} {node : Node} {c : Context} {m m' : Machine}
    {r : Except Exit Value} (heval : evaluate steps node c m = some (r, m')) :
    ∀ id before after, m.store.scope? id = some before → m'.store.scope? id = some after →
      before.names <+: after.names ∧ after.names.Nodup ∧
        ∀ name b, before.binding? name = some b → b.constant = true →
          after.binding? name = some b := by
  intro id before after hbefore hafter
  have hevolves := evolves_of_keeps (growth_congruence.evaluate steps [] node) heval
  have hgrows := hevolves.between hbefore hafter
  exact ⟨hgrows.names, after.nodup, fun name b hb hconstant => hgrows.constants hb hconstant⟩

/-- A constant withstands an assignment. -/
theorem scopes_grow_assign :
    let m := Machine.single ((Scope.top .global).bind "x" ⟨.text "a", true⟩)
    ∃ r m', evaluate 2 (.assign (.var "x") .nil) ⟨.standard, 0, []⟩ m = some (r, m') ∧
      ∀ id before after, m.store.scope? id = some before → m'.store.scope? id = some after →
        before.names <+: after.names ∧ after.names.Nodup ∧
          ∀ name b, before.binding? name = some b → b.constant = true →
            after.binding? name = some b := by
  intro m
  have heval : ∃ r m',
      evaluate 2 (.assign (.var "x") .nil) ⟨.standard, 0, []⟩ m = some (r, m') := ⟨_, _, rfl⟩
  obtain ⟨r, m', heval⟩ := heval
  exact ⟨r, m', heval, scopes_grow heval⟩

end Treewalk.Proofs
