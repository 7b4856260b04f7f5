import Treewalk.Proofs.Parting

/-!
# `Treewalk.Proofs.Outbound`: doomed exits reach the end of the run

The exits that end a run are an interruption and a failed stream. No
loop and no call takes one of them for itself, no trap runs for it, and
a node does not report it as a fault. So if two evaluations have parted
company on such an exit, the constructs around let it through, and on
its way out they only clean up.

`Outbound` is a parting that dooms no other exits. `Outbound.variant`
says of two variants of the evaluator that one follows the other, and
`Outbound.runProgram` says it of runs. One construct can stop a doomed
exit: an attempt runs its conclusion while the exit is pending, and an
exit of the conclusion takes its place. `Concludes` is what must be
shown of that.
-/

set_option autoImplicit false

namespace Treewalk.Proofs

theorem Fatal.cases {e : Exit} (h : Fatal e) : e = .interrupted ∨ ∃ reason, e = .stream reason := by
  cases e with
  | interrupted => exact .inl rfl
  | stream reason => exact .inr ⟨reason, rfl⟩
  | _ => cases h

namespace Parting

/-- A parting whose doomed exits are those that end a run, and that stay
doomed while constructs clean up. -/
structure Outbound (p : Parting) : Prop extends p.Laws where
  fatal {a m : Machine} {e : Exit} : p.Doom a e m → Fatal e
  unwinds {a m m' : Machine} {e : Exit} : p.Doom a e m → Unwinds p.held m m' → p.Doom a e m'

/-- What must be shown of two ways to conclude an attempt: a doomed exit
that is pending comes through, or the conclusion ends with a doomed
exit itself. -/
structure Concludes (p : Parting) (v v' : Variant) (ev : Evaluator) : Prop where
  follows (pending : Except Exit Unit) {x y : Eval Unit} : p.Follows x y →
    p.Follows (v.concluding pending x) (v'.concluding pending y)
  doomed {a m m' : Machine} {e : Exit} {c : Context} {r : Except Exit Unit}
    (parts : Attempt Node) : p.held ⊆ c.held → p.Doom a e m →
      v.concluding (.error e) (Evaluator.conclude ev parts) c m = some (r, m') →
        (r = .ok () ∧ p.Doom a e m') ∨ p.Ends a r m' False
  returns {a m : Machine} {e : Exit} {c : Context} (parts : Attempt Node) : p.lockstep →
    p.held ⊆ c.held → p.Doom a e m →
      v.concluding (.error e) (Evaluator.conclude ev parts) c m ≠ none

namespace Outbound

variable {p : Parting} (h : p.Outbound) {α β : Type}
include h

/-- What only cleans up after an exit that ends a run lets it go on its
way. -/
theorem lets {k : Except Exit α → Eval β}
    (hk : ∀ {e : Exit} {c : Context} (m : Machine), Fatal e → p.held ⊆ c.held →
      ∃ m', k (.error e) c m = some (.error e, m') ∧ Unwinds p.held m m') :
    p.Lets p.Doom k where
  ends {_ m _ e _ _} hheld hdoom hrun := by
    obtain ⟨m', hends, hunwinds⟩ := hk m (h.fatal hdoom) hheld
    rw [hrun] at hends
    cases hends
    exact .doomed e rfl (h.unwinds hdoom hunwinds)
  returns {_ m _ _} _ hheld hdoom hnone := by
    obtain ⟨m', hends, -⟩ := hk m (h.fatal hdoom) hheld
    cases hnone.symm.trans hends

/-- A node reports faults only. -/
theorem recovering {x y : Eval Value} (hx : p.Follows x y) :
    p.Follows (Evaluator.recovering x) (Evaluator.recovering y) := by
  rw [recovering_eq, recovering_eq]
  refine h.handle hx h.recovered (h.lets fun _ he _ => ?_)
  rcases he.cases with rfl | ⟨reason, rfl⟩ <;> exact ⟨_, rfl, .refl _⟩

/-- A call takes flow signals only. -/
theorem calling (henter : p.Follows Evaluator.enterCall Evaluator.enterCall) :
    Calling p.custom p.custom where
  toBasics := h.basics
  invoke name arity _ _ _ _ hbody := by
    refine h.invoke name arity _ henter fun bound => ?_
    refine h.handle (h.bind (h.plain_ofOutcome bound).follows fun _ => hbody [] []) (fun r => ?_)
      (h.lets fun _ he _ => ?_)
    · exact h.finishCall name r
    · rcases he.cases with rfl | ⟨reason, rfl⟩ <;> exact ⟨_, rfl, .counters ..⟩

variable {v v' : Variant} {ev ev' : Evaluator} (hev : ∀ node, p.Follows (ev node) (ev' node))
include hev

theorem runBlock (body : List Node) :
    p.Follows (Evaluator.runBlock ev body) (Evaluator.runBlock ev' body) := by
  show p.custom Unit [] [] _ _
  exact h.basics.runBlock (fun _ _ node => hev node) body

/-- A loop takes its own signals only. -/
theorem iteration (body : List Node) :
    p.Follows (Evaluator.iteration ev body) (Evaluator.iteration ev' body) := by
  refine h.handle (h.runBlock hev body) (fun r => ?_) (h.lets fun _ he _ => ?_)
  · unfold Evaluator.goesOn
    split
    · exact (h.plain_pure _).follows
    · exact (h.plain_pure _).follows
    · exact (h.plain_pure _).follows
    · exact (h.plain_exit _).follows
  · rcases he.cases with rfl | ⟨reason, rfl⟩ <;> exact ⟨_, rfl, .refl _⟩

/-- A module is counted out whatever way its statements end. -/
theorem splice (path : String) :
    p.Follows (Evaluator.splice ev path) (Evaluator.splice ev' path) := by
  refine h.bind (h.startBring path).follows fun statements => ?_
  refine h.bind (h.note _).follows fun _ => ?_
  refine h.handle (h.runBlock hev statements) (fun r => ?_) (h.lets fun _ he _ => ?_)
  · exact h.bind h.plain_finishBring.follows fun _ => (h.plain_ofOutcome r).follows
  · rcases he.cases with rfl | ⟨reason, rfl⟩ <;> exact ⟨_, rfl, .counters ..⟩

/-! ### Attempts -/

theorem concludeWith (hconcludes : p.Concludes v v' ev) (parts : Attempt Node)
    (pending : Except Exit Unit) :
    p.Follows (Evaluator.concludeWith v.concluding ev parts pending)
      (Evaluator.concludeWith v'.concluding ev' parts pending) := by
  have hconclude : p.custom Unit [] [] (Evaluator.conclude ev parts)
      (Evaluator.conclude ev' parts) :=
    h.basics.conclude (fun _ _ node => hev node) parts
  exact h.holding _ (h.bind (hconcludes.follows pending hconclude)
    fun _ => (h.plain_ofOutcome pending).follows)

omit hev in
/-- A doomed exit that is pending comes through the conclusion. -/
theorem lets_concludeWith (hconcludes : p.Concludes v v' ev) (parts : Attempt Node) :
    p.Lets p.Doom (Evaluator.concludeWith v.concluding ev parts) where
  ends {a m m' e c r} hheld hdoom hrun := by
    obtain ⟨m₁, hinside, rfl⟩ := Eval.holding_inv hrun
    have hinner : p.held ⊆ Owner.refs (.error e : Except Exit Unit) ++ c.held :=
      List.subset_append_of_subset_right _ hheld
    have hends : p.Ends a r m₁ False := by
      obtain ⟨e', hconclude, rfl⟩ | ⟨_, m₂, hconclude, hrest⟩ := Eval.bind_inv hinside
      · obtain ⟨hok, -⟩ | hends := hconcludes.doomed parts hinner hdoom hconclude
        · cases hok
        · exact hends
      · cases hrest
        obtain ⟨-, hdoom'⟩ | hends := hconcludes.doomed parts hinner hdoom hconclude
        · exact .doomed e rfl hdoom'
        · cases hends with
          | together _ hfalse => exact hfalse.elim
          | doomed _ hok _ => cases hok
          | lost hlost => exact .lost hlost
    exact h.ends_released _ (List.subset_append_of_subset_right _ hheld) hends
  returns hlockstep hheld hdoom hnone := by
    obtain hconclude | ⟨_, _, -, hrest⟩ := Eval.bind_eq_none (Eval.holding_eq_none.mp hnone)
    · exact hconcludes.returns parts hlockstep (List.subset_append_of_subset_right _ hheld) hdoom
        hconclude
    · cases hrest

theorem settleBody (hconcludes : p.Concludes v v' ev) (parts : Attempt Node)
    (ended : Except Exit Unit) :
    p.Follows
      (Evaluator.settleBody ev parts ended >>= Evaluator.concludeWith v.concluding ev parts)
      (Evaluator.settleBody ev' parts ended >>=
        Evaluator.concludeWith v'.concluding ev' parts) := by
  have hconclude := h.concludeWith hev hconcludes parts
  unfold Evaluator.settleBody
  split
  · exact h.bind (h.bind (h.note _).follows fun _ => (h.plain_pure _).follows) hconclude
  · -- The trap can end with an exit like the body, and then the conclusion sees that one.
    rw [bind_assoc, bind_assoc]
    refine h.bind (h.note _).follows fun _ => ?_
    refine h.handle ?_ hconclude (h.lets_concludeWith hconcludes parts)
    show p.custom Unit [] [] _ _
    exact h.basics.runTrap (fun _ _ node => hev node) parts _ _
  · exact h.bind (h.plain_pure _).follows hconclude

theorem attempt (hconcludes : p.Concludes v v' ev) (parts : Attempt Node) :
    p.Follows (Evaluator.attemptWith v.concluding ev parts)
      (Evaluator.attemptWith v'.concluding ev' parts) := by
  show p.custom Value [] [] _ _
  refine h.basics.attemptWith parts fun _ _ id _ => ?_
  have hlets := h.lets_concludeWith hconcludes parts
  -- The trap does not run for an exit that ends a run.
  have hfatal : ∀ {e : Exit} (c : Context) (m : Machine), Fatal e →
      (Evaluator.settleBody ev parts (.error e) >>=
        Evaluator.concludeWith v.concluding ev parts) c m =
        Evaluator.concludeWith v.concluding ev parts (.error e) c m := by
    intro e c m he
    rcases he.cases with rfl | ⟨reason, rfl⟩ <;> rfl
  refine h.handle (h.runBlock hev parts.body).within (h.settleBody hev hconcludes parts) ⟨?_, ?_⟩
  · intro a m m' e c r hheld hdoom hrun
    rw [hfatal c m (h.fatal hdoom)] at hrun
    exact hlets.ends hheld hdoom hrun
  · intro a m e c hlockstep hheld hdoom
    rw [hfatal c m (h.fatal hdoom)]
    exact hlets.returns hlockstep hheld hdoom

omit hev in
/-- Without any steps, the body of an attempt comes to its end only if
it is empty, and then nothing is pending. -/
theorem attempt_exhausted
    (hfollows : ∀ pending {x y : Eval Unit}, p.Follows x y →
      p.Follows (v.concluding pending x) (v'.concluding pending y)) (parts : Attempt Node) :
    p.Follows (Evaluator.attemptWith v.concluding (fun _ => Eval.exhausted) parts)
      (Evaluator.attemptWith v'.concluding (fun _ => Eval.exhausted) parts) := by
  show p.custom Value [] [] _ _
  refine h.basics.attemptWith parts fun _ _ id _ => ?_
  show p.Follows _ _
  unfold Evaluator.attemptInWith
  cases parts.body with
  | nil =>
    have hconclude : p.custom Unit [] [] (Evaluator.conclude (fun _ => Eval.exhausted) parts)
        (Evaluator.conclude (fun _ => Eval.exhausted) parts) :=
      h.basics.conclude (fun _ _ _ => .exhausted) parts
    have hinside : p.Follows
        (do
          Eval.note .attemptCompleted
          Evaluator.concludeWith v.concluding (fun _ => Eval.exhausted) parts (.ok ()))
        (do
          Eval.note .attemptCompleted
          Evaluator.concludeWith v'.concluding (fun _ => Eval.exhausted) parts (.ok ())) :=
      h.bind (h.note _).follows fun _ =>
        h.holding _ (h.bind (hfollows _ hconclude) fun _ => (h.plain_pure ()).follows)
    exact hinside
  | cons first rest => exact .exhausted

/-! ### Nodes and programs -/

theorem handling (hcheck : p.Follows v.check v'.check)
    (henter : p.Follows Evaluator.enterCall Evaluator.enterCall)
    (hattempt : ∀ parts, p.Follows (Evaluator.attemptWith v.concluding ev parts)
      (Evaluator.attemptWith v'.concluding ev' parts)) :
    Handling p.custom p.custom v v' ev ev' where
  toCalling := h.calling henter
  exhausted := .exhausted
  checking := hcheck
  iteration := h.iteration hev
  attempt := hattempt
  splice := h.splice hev

omit hev in
/-- One variant of the evaluator follows another one if its checks do,
and its conclusions let doomed exits through. -/
theorem variant (hcheck : p.Follows v.check v'.check)
    (henter : p.Follows Evaluator.enterCall Evaluator.enterCall)
    (hconcludes : ∀ steps, p.Concludes v v' (Treewalk.variant v (steps + 1)))
    (steps : Nat) (node : Node) :
    p.Follows (Treewalk.variant v steps node) (Treewalk.variant v' steps node) := by
  induction steps generalizing node with
  | zero => exact .exhausted
  | succ steps ih =>
    refine h.bind hcheck fun _ => h.bind (h.noteVisit node).follows fun _ => h.recovering ?_
    have hattempt : ∀ parts, p.Follows
        (Evaluator.attemptWith v.concluding (Treewalk.variant v steps) parts)
        (Evaluator.attemptWith v'.concluding (Treewalk.variant v' steps) parts) := by
      intro parts
      cases steps with
      | zero => exact h.attempt_exhausted (fun pending => (hconcludes 0).follows pending) parts
      | succ steps => exact h.attempt ih (hconcludes steps) parts
    show p.custom Value [] [] _ _
    exact (h.handling ih hcheck henter hattempt).step (fun _ _ node => ih node)
      (fun _ _ body => h.runBlock ih body) h.nodeRules h.taskRules steps node

/-- A program stops at a doomed exit. -/
theorem runStatements (statements : List Node) :
    p.Follows (Treewalk.runStatements ev statements) (Treewalk.runStatements ev' statements) := by
  induction statements with
  | nil => exact (h.plain_pure ()).follows
  | cons first rest ih =>
    refine h.bind (h.handle (hev first) (fun r => h.holding _ ?_)
      (h.lets fun _ he hheld => ?_)) fun _ => ih
    · show p.custom Unit (Yields.items r) [] _ _
      exact h.basics.afterStatement (List.subset_append_right ..)
    · rcases he.cases with rfl | ⟨reason, rfl⟩ <;>
        exact ⟨_, rfl, .release (List.subset_append_of_subset_right _ hheld) _⟩

theorem runProgram (program : Node) :
    p.Follows (Treewalk.runProgram ev program) (Treewalk.runProgram ev' program) :=
  h.runStatements hev program.statements

end Outbound

end Parting

/-! ### Variants that refine each other -/

/-- A parting at which nothing happens: whenever the first evaluation
has an outcome, the second one has the same. -/
def refining : Parting where
  lockstep := False
  held := []
  settings := id
  Step _ _ := True
  Doom _ _ _ := False
  Lost _ _ := False

theorem refining_outbound : refining.Outbound where
  trans _ _ := trivial
  doom_after _ hdoom := hdoom
  lost_after _ hlost := hlost
  lost_before hlost _ := hlost
  lockstep_lost hlockstep := hlockstep.elim
  trace _ := rfl
  modules _ := rfl
  unheard _ := trivial
  doom_release _ _ hdoom := hdoom
  interrupt _ := trivial
  out _ _ := by
    dsimp only
    split
    · exact .inl trivial
    · trivial
  err _ _ := by
    dsimp only
    split
    · exact .inl trivial
    · trivial
  input _ := by
    dsimp only
    split
    · exact .inl trivial
    · trivial
  fatal hdoom := hdoom.elim
  unwinds hdoom _ := hdoom

theorem same_of_refining {α : Type} {x y : Eval α} (h : refining.Follows x y) {c : Context}
    {m m' : Machine} {r : Except Exit α} (hrun : x c m = some (r, m')) : y c m = some (r, m') := by
  cases h.ends (List.nil_subset _) hrun with
  | together _ hsame => exact hsame
  | doomed _ _ hdoom => exact hdoom.elim
  | lost hlost => exact hlost.elim

/-! ### Conclusions on a machine that is to stop -/

/-- Where the check fails, a conclusion comes to its end or is stopped,
and nothing else happens. One step is enough for that. -/
theorem conclude_of_stopped {held : List Ref} {v : Variant} {m : Machine}
    (hstops : ∀ c m₁, Unwinds held m m₁ →
      ∃ m', v.check c m₁ = some (.error .interrupted, m') ∧ Unwinds held m m')
    (steps : Nat) (parts : Attempt Node) (c : Context) :
    ∃ r m', Evaluator.conclude (variant v (steps + 1)) parts c m = some (r, m') ∧
      (r = .ok () ∨ r = .error .interrupted) ∧ Unwinds held m m' := by
  cases hbody : parts.conclude with
  | none =>
    refine ⟨.ok (), m, ?_, .inl rfl, .refl m⟩
    simp only [Evaluator.conclude, hbody]
    rfl
  | some body =>
    simp only [Evaluator.conclude, hbody]
    have hnoted : Unwinds held m (m.note .attemptConcludes) := .note _
    cases body with
    | nil => exact ⟨.ok (), _, rfl, .inl rfl, hnoted⟩
    | cons first rest =>
      -- The first node is stopped, so the block is left with the same exit.
      obtain ⟨m', hcheck, hunwinds⟩ := hstops c _ hnoted
      have hnode : variant v (steps + 1) first c (m.note .attemptConcludes) =
          some (.error .interrupted, m') := Eval.bind_of_error hcheck
      have hblock : Evaluator.runBlock (variant v (steps + 1)) (first :: rest) c
          (m.note .attemptConcludes) = some (.error .interrupted, m') :=
        Eval.bind_of_error (Eval.bind_of_error hnode)
      exact ⟨_, m', hblock, .inr rfl, hunwinds⟩

end Treewalk.Proofs
