import Treewalk.Proofs.Outbound
import Treewalk.Proofs.Ownership

/-!
# `Treewalk.Proofs.Interruption`: a run that is stopped has no further effect

A raised flag asks a run to stop. A sink can raise it when it takes a
text, and so can others while the program runs. The evaluator looks at
the flag before each node and before each iteration of a loop, and at
no other time. So what others do to it between two checks is the same as
if they did it right before the second one, and
`Variant.attentive outside` lets them do it there.

A check that finds the flag up ends the run. On the way out calls and
modules are counted out, scopes are let go, and conclusions are started.
But the first node of a conclusion is checked too, and stopped.

To speak of one such check, `Variant.alarmed outside P alarm` does
something else in its place if the machine is as `P` says. If the run is
then another one, the check was made. `interruption_final` says that in
this case the run does come to its end, interrupted, and that nothing
but unwinding happens between the check and the end.
-/

set_option autoImplicit false

namespace Treewalk

open Eval

/-- The evaluator while others are at work outside of it. -/
def Variant.attentive (outside : Eval Unit) : Variant where
  check := do
    outside
    checkInterrupt
  concluding _ x := x

/-- The evaluator while others are at work outside of it, with an alarm
in place of the checks that find the flag up and the machine as `P`
says. -/
def Variant.alarmed (outside : Eval Unit) (P : Machine → Prop) [DecidablePred P]
    (alarm : Eval Unit) : Variant where
  check := do
    outside
    let m ← machine
    if m.interrupted = true ∧ P m then alarm else checkInterrupt
  concluding _ x := x

end Treewalk

namespace Treewalk.Proofs

/-- Others outside of the evaluator may raise the flag, but they do not
take it down. The log is where they can remember what they have seen. -/
def Onlooking (outside : Eval Unit) : Prop :=
  ∀ c m, ∃ raises log, m.log <:+ log ∧
    outside c m = some (.ok (), { m with interrupted := m.interrupted || raises, log })

/-- If nobody is at work outside, this is the evaluator. -/
theorem attentive_idle (steps : Nat) : variant (.attentive (pure ())) steps = evaluate steps :=
  variant_own steps

/-! ### What unwinding leaves -/

theorem Vacated.remains {held : List Ref} {s t : Store} (h : Vacated held s t) :
    Remains held s t := by
  induction h with
  | same => exact .refl s
  | release hheld _ ih => exact ih.trans ((Remains.release ..).mono hheld)

/-! ### From the check to the end of the run -/

/-- The machine at the end of a run that was stopped by a check on a
machine as `P` says. -/
def Stopped (held : List Ref) (P : Machine → Prop) (m' : Machine) : Prop :=
  ∃ m₁, P m₁ ∧ m₁.interrupted = true ∧ Unwinds held m₁ m'

theorem Stopped.later {held : List Ref} {P : Machine → Prop} {m m' : Machine}
    (h : Stopped held P m) (hunwinds : Unwinds held m m') : Stopped held P m' := by
  obtain ⟨m₁, hP, hflag, hbefore⟩ := h
  exact ⟨m₁, hP, hflag, hbefore.trans hunwinds⟩

theorem Stopped.flag {held : List Ref} {P : Machine → Prop} {m : Machine}
    (h : Stopped held P m) : m.interrupted = true := by
  obtain ⟨m₁, -, hflag, hunwinds⟩ := h
  exact hunwinds.interrupted.trans hflag

/-- The parting of a run that is stopped from any that an alarm makes of
it. -/
def stopping (held : List Ref) (P : Machine → Prop) : Parting where
  lockstep := True
  held := held
  settings := id
  Step _ _ := True
  Doom _ e m' := e = .interrupted ∧ Stopped held P m'
  Lost _ _ := False

section
variable {held : List Ref} {P : Machine → Prop}

theorem stopping_outbound : (stopping held P).Outbound where
  trans _ _ := trivial
  doom_after _ hdoom := hdoom
  lost_after _ hlost := hlost
  lost_before hlost _ := hlost
  lockstep_lost _ hlost := hlost
  trace _ := rfl
  modules _ := rfl
  unheard _ := trivial
  doom_release refs hheld hdoom := ⟨hdoom.1, hdoom.2.later (.release hheld refs)⟩
  interrupt _ := trivial
  out _ _ := by
    dsimp only
    split
    · exact .inl trivial
    · trivial
  err _ _ := by
    dsimp only
    split
    · exact .inl trivial
    · trivial
  input _ := by
    dsimp only
    split
    · exact .inl trivial
    · trivial
  fatal hdoom := hdoom.1 ▸ trivial
  unwinds hdoom h := ⟨hdoom.1, hdoom.2.later h⟩

variable {outside : Eval Unit} (hout : Onlooking outside)
include hout

/-- Until the alarm, both check alike. -/
theorem stopping_check [DecidablePred P] (alarm : Eval Unit) :
    (stopping held P).Follows (Variant.attentive outside).check
      (Variant.alarmed outside P alarm).check where
  ends {c m m' r} _ hrun := by
    obtain ⟨raises, log, -, houtside⟩ := hout c m
    have hcheck : (Variant.attentive outside).check c m = _ := Eval.bind_of_ok houtside
    have halarm : (Variant.alarmed outside P alarm).check c m = _ := Eval.bind_of_ok houtside
    rw [hcheck, Eval.checkInterrupt_apply] at hrun
    generalize ({ m with interrupted := m.interrupted || raises, log } : Machine) = m₁
      at hrun halarm
    by_cases hP : m₁.interrupted = true ∧ P m₁
    · rw [if_pos hP.1] at hrun
      cases hrun
      exact .doomed .interrupted rfl ⟨rfl, m', hP.2, hP.1, .refl m'⟩
    · refine .together trivial (halarm.trans ?_)
      show (if m₁.interrupted = true ∧ P m₁ then alarm else Eval.checkInterrupt) c m₁ = _
      rw [if_neg hP, Eval.checkInterrupt_apply, hrun]
  starves {c m} _ _ hnone := by
    obtain ⟨raises, log, -, houtside⟩ := hout c m
    have hcheck : (Variant.attentive outside).check c m = _ := Eval.bind_of_ok houtside
    rw [hcheck, Eval.checkInterrupt_apply] at hnone
    cases hnone

/-- In a run that is stopped, every check stops it again, and whoever is
at work outside leaves all but the log as it is. -/
theorem attentive_stops {m : Machine} (hstopped : Stopped held P m) (c : Context) (m₁ : Machine)
    (h : Unwinds held m m₁) :
    ∃ m', (Variant.attentive outside).check c m₁ = some (.error .interrupted, m') ∧
      Unwinds held m m' := by
  obtain ⟨raises, log, hlog, houtside⟩ := hout c m₁
  have hflag₁ : m₁.interrupted = true := h.interrupted.trans hstopped.flag
  have hraised : (m₁.interrupted || raises) = m₁.interrupted := by
    rw [hflag₁]
    rfl
  have hcheck : (Variant.attentive outside).check c m₁ = _ := Eval.bind_of_ok houtside
  rw [Eval.checkInterrupt_apply, if_pos (hraised.trans hflag₁)] at hcheck
  exact ⟨_, hcheck, h.trans ⟨.same, rfl, rfl, rfl, rfl, rfl, hraised, hlog⟩⟩

theorem stopping_concludes [DecidablePred P] (alarm : Eval Unit) (steps : Nat) :
    (stopping held P).Concludes (.attentive outside) (.alarmed outside P alarm)
      (variant (.attentive outside) (steps + 1)) where
  follows _ _ _ hxy := hxy
  doomed {a m m' e c r} parts _ hdoom hrun := by
    obtain ⟨rfl, hstopped⟩ := hdoom
    obtain ⟨r', m₁, hends, hr, hunwinds⟩ :=
      conclude_of_stopped (attentive_stops hout hstopped) steps parts c
    have hconclude : Evaluator.conclude (variant (.attentive outside) (steps + 1)) parts c m =
        some (r, m') := hrun
    rw [hconclude] at hends
    cases hends
    have hdoom' : (stopping held P).Doom a .interrupted m' := ⟨rfl, hstopped.later hunwinds⟩
    rcases hr with rfl | rfl
    · exact .inl ⟨rfl, hdoom'⟩
    · exact .inr (.doomed _ rfl hdoom')
  returns {a m e c} parts _ _ hdoom hnone := by
    obtain ⟨_, _, hends, -⟩ := conclude_of_stopped (attentive_stops hout hdoom.2) steps parts c
    cases hends.symm.trans hnone

theorem stopping_variant [DecidablePred P] (alarm : Eval Unit) (steps : Nat) (node : Node) :
    (stopping held P).Follows (variant (.attentive outside) steps node)
      (variant (.alarmed outside P alarm) steps node) :=
  stopping_outbound.variant (stopping_check hout alarm)
    (stopping_outbound.enterCall fun _ => rfl).follows (stopping_concludes hout alarm) steps node

end

/-- An evaluation goes as with the alarm, also in that it comes to no
end, or it is stopped. -/
theorem stopped_of_follows {α : Type} {P : Machine → Prop} {x y : Eval α} {c : Context}
    {m : Machine} (h : (stopping c.held P).Follows x y) :
    y c m = x c m ∨ ∃ m', x c m = some (.error .interrupted, m') ∧ Stopped c.held P m' := by
  rcases hrun : x c m with _ | ⟨r, m'⟩
  · exact .inl (h.starves trivial (List.Subset.refl _) hrun)
  · cases h.ends (List.Subset.refl _) hrun with
    | together _ hsame => exact .inl hsame
    | doomed e he hdoom =>
      obtain ⟨rfl, hstopped⟩ := hdoom
      exact .inr ⟨m', by rw [he], hstopped⟩
    | lost hlost => exact hlost.elim

/-- A run that is stopped has no further effect. Let others raise the
flag whenever they like, besides the sinks, and put an alarm in the place
of those checks that find the flag up on a machine as `P` says, be it
any machine or a certain one.

Either the alarm makes no difference to the run, so that no such check
is made, or the run ends interrupted, and from one of those checks to
its end it only unwinds. The streams, the tasks and the handlers are
then as they were at the check, and so is the flag. So is each scope and
each object that is left, and all are left that are held or that
something names which is left.

The same holds for the evaluation of a node, whatever is under way
around it. -/
theorem interruption_final {outside : Eval Unit} (hout : Onlooking outside)
    (P : Machine → Prop) [DecidablePred P] (alarm : Eval Unit) (steps : Nat) (c : Context)
    (m : Machine) :
    (∀ program,
      runProgram (variant (.alarmed outside P alarm) steps) program c m =
        runProgram (variant (.attentive outside) steps) program c m ∨
      ∃ m₁ m', P m₁ ∧ m₁.interrupted = true ∧
        runProgram (variant (.attentive outside) steps) program c m =
          some (.error .interrupted, m') ∧
        Unwinds c.held m₁ m' ∧ Remains c.held m₁.store m'.store) ∧
    (∀ node,
      variant (.alarmed outside P alarm) steps node c m =
        variant (.attentive outside) steps node c m ∨
      ∃ m₁ m', P m₁ ∧ m₁.interrupted = true ∧
        variant (.attentive outside) steps node c m = some (.error .interrupted, m') ∧
        Unwinds c.held m₁ m' ∧ Remains c.held m₁.store m'.store) := by
  have hnode : ∀ node, (stopping c.held P).Follows _ _ := stopping_variant hout alarm steps
  constructor
  · intro program
    obtain hsame | ⟨m', hrun, m₁, hP, hflag, hunwinds⟩ :=
      stopped_of_follows (stopping_outbound.runProgram hnode program)
    · exact .inl hsame
    · exact .inr ⟨m₁, m', hP, hflag, hrun, hunwinds, hunwinds.store.remains⟩
  · intro node
    obtain hsame | ⟨m', hrun, m₁, hP, hflag, hunwinds⟩ := stopped_of_follows (hnode node)
    · exact .inl hsame
    · exact .inr ⟨m₁, m', hP, hflag, hrun, hunwinds, hunwinds.store.remains⟩

/-- A sink raises the flag when it takes its first text. The conclusion
of the attempt is started, but nothing else is printed. -/
theorem interruption_final_taken :
    let program := Node.program [.attempt ⟨[.print [.text "a"], .print [.text "b"]], [], false,
      none, some [.print [.text "c"]]⟩, .assign (.var "x") (.text "late")]
    let c : Context := ⟨.standard, 0, [.scope 0]⟩
    let m := { Machine.single (Scope.top .global) with out := .limited none (some 1) }
    Onlooking (pure ()) ∧ ∃ m₁ m', m₁.out.offers = 1 ∧ m₁.interrupted = true ∧
      runProgram (evaluate 5) program c m = some (.error .interrupted, m') ∧
      Unwinds c.held m₁ m' ∧ Remains c.held m₁.store m'.store := by
  intro program c m
  have hidle : Onlooking (pure ()) := by
    intro c m
    refine ⟨false, m.log, List.suffix_refl _, ?_⟩
    rw [Bool.or_false]
    rfl
  refine ⟨hidle, ?_⟩
  have hfinal :=
    (interruption_final hidle (fun m => m.out.offers = 1) Eval.exhausted 5 c m).1 program
  rw [attentive_idle] at hfinal
  rcases hfinal with hsame | hstopped
  · have halarm : runProgram (variant (.alarmed (pure ()) (fun m => m.out.offers = 1)
        Eval.exhausted) 5) program c m = none := by decide +kernel
    have hrun : runProgram (evaluate 5) program c m ≠ none := by decide +kernel
    exact absurd (hsame.symm.trans halarm) hrun
  · exact hstopped

end Treewalk.Proofs
