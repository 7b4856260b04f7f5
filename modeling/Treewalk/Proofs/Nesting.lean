import Treewalk.Proofs.Regime

/-!
# `Treewalk.Proofs.Nesting`: regimes outside and inside of calls

A call counts itself in, runs its body, and counts itself out. A regime
that speaks of the number of running calls is another one for the body
of a call than for what stands around it. `Regime.Nests` says how two
such regimes fit, and `Nests.keeps_invoke` that a call keeps the one
outside if its body keeps the one inside.

A call that is refused is never counted in, so it must not be counted
out either: its outcome is the exit of the whole call.
-/

set_option autoImplicit false

namespace Treewalk.Proofs

open Yields (items)

/-! ### The course of a call -/

/-- How a body ends that was counted in. -/
def enteredCall (name : String) (arity : Nat) (locals : List (String × Value)) (body : Eval Unit) :
    Eval (Except Exit Unit) := do
  let bound ← Eval.holding (Owner.refs (locals.map Prod.snd))
    (Evaluator.prepareCall name arity locals)
  Eval.outcome do
    Eval.ofOutcome bound
    body

theorem runCall_of_full {name : String} {arity : Nat} {locals : List (String × Value)}
    {body : Eval Unit} {c : Context} {m : Machine} (hfull : c.settings.maxDepth ≤ m.depth) :
    Evaluator.runCall name arity locals body c m =
      some (.error (.fault (.tooDeep m.depth c.settings.maxDepth)),
        m.release c.held (Owner.refs (locals.map Prod.snd))) := by
  show Eval.bind (Eval.holding _ (Eval.bind Evaluator.enterCall _)) _ c m = _
  unfold Eval.bind Eval.holding
  simp only [Evaluator.enterCall_apply, if_pos hfull]
  rfl

theorem runCall_of_room {name : String} {arity : Nat} {locals : List (String × Value)}
    {body : Eval Unit} {c : Context} {m : Machine} (hroom : ¬ c.settings.maxDepth ≤ m.depth) :
    Evaluator.runCall name arity locals body c m =
      enteredCall name arity locals body c { m with depth := m.depth + 1 } := by
  show Eval.bind (Eval.holding _ (Eval.bind Evaluator.enterCall _)) _ c m = _
  unfold Eval.bind Eval.holding
  simp only [Evaluator.enterCall_apply, if_neg hroom]
  rfl

/-- Once it is counted in, a call is counted out: no exit comes between
the two. -/
theorem enteredCall_inv {name : String} {arity : Nat} {locals : List (String × Value)}
    {body : Eval Unit} {c : Context} {m m' : Machine} {r : Except Exit (Except Exit Unit)}
    (h : enteredCall name arity locals body c m = some (r, m')) : ∃ o, r = .ok o := by
  obtain ⟨e, hbound, -⟩ | ⟨_, _, -, hbody⟩ := Eval.bind_inv h
  · obtain ⟨_, hprepare, -⟩ := Eval.holding_inv hbound
    obtain ⟨_, hdepth, -⟩ | ⟨_, _, -, hnote⟩ := Eval.bind_inv hprepare
    · cases hdepth
    · obtain ⟨_, hnoted, -⟩ | ⟨_, _, -, hlocals⟩ := Eval.bind_inv hnote
      · cases hnoted
      · obtain ⟨_, -, hok⟩ := Eval.outcome_inv hlocals
        cases hok
  · obtain ⟨o, -, hok⟩ := Eval.outcome_inv hbody
    exact ⟨o, hok⟩

/-! ### Two regimes -/

namespace Regime

/-- A regime for what runs outside of a call, and one for what runs
inside. -/
structure Nests (g g' : Regime) : Prop where
  enter {σ : Settings} {m : Machine} : g.Inv σ m → ¬ σ.maxDepth ≤ m.depth →
    g'.Inv σ { m with depth := m.depth + 1 }
  leave {σ : Settings} {m m' : Machine} : g.Inv σ m →
    g'.Moved σ { m with depth := m.depth + 1 } m' →
      g.Moved σ m { m' with depth := m'.depth - 1 }
  good_enter {m : Machine} {i : Item} : g.Good m i →
    g'.Good { m with depth := m.depth + 1 } i
  good_leave {m : Machine} {i : Item} : g'.Good m i →
    g.Good { m with depth := m.depth - 1 } i
  opened : g'.Open → g.Open

variable {g g' : Regime} {ts : List Item}

/-- The part of a call that is counted in keeps the regime inside. -/
theorem Laws.keeps_enteredCall (h : g.Laws) (name : String) (arity : Nat)
    {locals : List (String × Value)} {x y : Eval Unit}
    (hlocals : ∀ l ∈ locals, Known ts (.value l.2)) (hbody : ∀ us, g.Keeps Unit us x y) :
    g.Keeps (Except Exit Unit) ts (enteredCall name arity locals x)
      (enteredCall name arity locals y) := by
  have hp : Primitives g.Keeps := h.primitives
  refine hp.bind (hp.holding _ (hp.prepareCall keeps_callDepth name arity hlocals)) fun bound => ?_
  refine hp.outcome (hp.andThen (hp.ofOutcome ?_) (hbody _))
  exact fun i hi => List.mem_append_left _ hi

/-- A call keeps the regime outside, whatever way its body ends. -/
theorem Nests.keeps_invoke (hn : Nests g g') (h : g.Laws) (h' : g'.Laws) (name : String)
    (arity : Nat) {locals : List (String × Value)} {x y : Eval Unit}
    (hlocals : ∀ l ∈ locals, Known ts (.value l.2)) (hbody : ∀ us, g'.Keeps Unit us x y) :
    g.Keeps Value ts (Evaluator.invoke name arity locals x)
      (Evaluator.invoke name arity locals y) := by
  intro c m hready
  show Eval.bind (Evaluator.runCall name arity locals x) _ c m =
      Eval.bind (Evaluator.runCall name arity locals y) _ c m ∧
    g.Ends c.settings m (Eval.bind (Evaluator.runCall name arity locals y) _ c m)
  unfold Eval.bind
  by_cases hfull : c.settings.maxDepth ≤ m.depth
  · rw [runCall_of_full hfull, runCall_of_full hfull]
    have hreleased := h.release c.held (Owner.refs (locals.map Prod.snd)) hready.inv
    exact ⟨rfl, Ended.ends ⟨hreleased, fun i hi => by cases hi⟩⟩
  · rw [runCall_of_room hfull, runCall_of_room hfull]
    have hinside : g'.Ready ts c { m with depth := m.depth + 1 } :=
      ⟨hn.enter hready.inv hfull, hn.good_enter hready.scope,
        fun i hi => hn.good_enter (hready.good i hi)⟩
    obtain ⟨heq, hends⟩ := h'.keeps_enteredCall name arity hlocals hbody c _ hinside
    rw [heq]
    rcases hy : enteredCall name arity locals y c { m with depth := m.depth + 1 } with
      _ | ⟨r₁, m₁⟩
    · exact ⟨rfl, .none (hn.opened (hends.opened hy))⟩
    · obtain ⟨result, rfl⟩ := enteredCall_inv hy
      have hended := hends.ended hy
      -- Counting out leaves the machine where what comes after the call goes on.
      have hleft := hn.leave hready.inv hended.toMoved
      have hgood : ∀ i ∈ items result, g.Good { m₁ with depth := m₁.depth - 1 } i :=
        fun i hi => hn.good_leave (hended.good i hi)
      have hfinish : g.Keeps Value (items result) (Evaluator.finishCall name result)
          (Evaluator.finishCall name result) :=
        h.primitives.finishCall name fun i hi => hi
      obtain ⟨-, hlast⟩ := hfinish c { m₁ with depth := m₁.depth - 1 }
        ⟨hleft.inv, g.good_step hleft.step hready.scope, hgood⟩
      exact ⟨rfl, hlast.after hleft⟩

/-- So the two obey the rules for calls. -/
theorem Nests.calling (hn : Nests g g') (h : g.Laws) (h' : g'.Laws) :
    Calling g.Keeps.upward g'.Keeps.upward where
  toBasics := h.primitives.rules.toBasics
  invoke name arity _ _ _ hlocals hbody _ hts :=
    hn.keeps_invoke h h' name arity (fun l hl => .mem (hts (hlocals l hl))) fun us =>
      hbody [] [] us (List.nil_subset us)

end Regime

end Treewalk.Proofs
