import Treewalk.Proofs.Outbound

/-!
# `Treewalk.Proofs.StreamFailure`: a failed stream ends the run

A sink that refuses a text and a line of input that is no text end the
run. The failure can come anywhere: from what a program prints or asks,
or from the report of a fault or of an error. From there it goes out
through all that is running, and the run ends with it at the statement
during which it came.

There is one construct that does not let every failure through. An
attempt runs its conclusion whatever was pending, and an exit of the
conclusion takes its place, be it a loop signal, a `back` or a raised
error. Then nothing is left of the failure, and the program goes on as
if the stream were well: `failure_overridden` is such a run.
`Evaluator.wary` raises an alarm at that very moment. So the evaluator
with `wary` conclusions is the evaluator as long as its alarm is not
raised, and `failure_ends_run` says that nothing else can come in the
way of a failure.
-/

set_option autoImplicit false

namespace Treewalk

open Eval

namespace Evaluator

/-- Runs a conclusion while an outcome is pending. If that is a failed
stream and an exit of the conclusion takes its place that does not end
the run, there is an alarm. -/
def wary (alarm : Eval Unit) : Except Exit Unit → Eval Unit → Eval Unit
  | .error (.stream _), x => do
    match ← outcome x with
    | .ok () => pure ()
    | .error .interrupted => exit .interrupted
    | .error (.stream reason) => exit (.stream reason)
    | .error e => do
      alarm
      exit e
  | _, x => x

end Evaluator

/-- The evaluator with an alarm where a conclusion does away with a
failed stream. -/
def Variant.wary (alarm : Eval Unit) : Variant where
  check := checkInterrupt
  concluding := Evaluator.wary alarm

end Treewalk

namespace Treewalk.Proofs

/-- An alarm that nobody hears changes nothing. -/
theorem wary_silent : Variant.wary (pure ()) = .own := by
  have hsilent : Evaluator.wary (pure ()) = fun _ x => x := by
    funext pending x c m
    match pending with
    | .error (.stream _) =>
      show Eval.bind (Eval.outcome x) _ c m = x c m
      unfold Eval.bind Eval.outcome
      rcases x c m with _ | ⟨e | a, m₁⟩
      · rfl
      · cases e <;> rfl
      · rfl
    | .ok _ | .error (.fault _) | .error (.raised ..) | .error (.flow _) | .error .interrupted =>
      rfl
  unfold Variant.wary Variant.own
  rw [hsilent]

/-! ### Failures -/

/-- A stream has failed between two moments. -/
def Failed (m m' : Machine) : Prop :=
  Refused m.out m'.out ∨ Refused m.err m'.err ∨ Misread m.input m'.input

section
variable {a b c : Machine}

theorem not_refused_self (s : Sink) : ¬ Refused s s := by
  rintro ⟨n, reason, hfrom, hto, -⟩
  exact absurd hto (Nat.not_lt_of_le hfrom)

theorem not_misread_self (s : Source) : ¬ Misread s s := by
  rintro ⟨n, reason, -, hread⟩
  exact absurd hread (Nat.not_lt_of_le (s.length_skip_le n))

/-- A sink that was not refused anything has not refused the last text
offered. -/
theorem not_refused_offer {s : Sink} {text : String}
    (h : ∀ reason, (s.offer text).1 ≠ .refuse reason) : ¬ Refused s (s.offer text).2 := by
  rintro ⟨n, reason, hfrom, hto, hrefuse⟩
  have hlast : n = s.offers := Nat.le_antisymm (Nat.le_of_lt_succ hto) hfrom
  rw [hlast] at hrefuse
  exact h reason hrefuse

theorem not_misread_readLine {s : Source} {line : Option String} (h : s.readLine.1 = .ok line) :
    ¬ Misread s s.readLine.2 := by
  rintro ⟨n, reason, herror, hread⟩
  cases n with
  | zero =>
    rw [Source.skip, h] at herror
    cases herror
  | succ n => exact absurd hread (Nat.not_lt_of_le (s.readLine.2.length_skip_le n))

/-- A refusal came before some moment or after it. -/
theorem Refused.split {s t u : Sink} (h : Refused s u) (hst : Offered s t) :
    Refused s t ∨ Refused t u := by
  obtain ⟨n, reason, hfrom, hto, hrefuse⟩ := h
  by_cases hn : n < t.offers
  · exact .inl ⟨n, reason, hfrom, hn, hrefuse⟩
  · exact .inr ⟨n, reason, Nat.le_of_not_lt hn, hto, by rw [hst.reaction, hrefuse]⟩

theorem Misread.split {s u : Source} (k : Nat) (h : Misread s u) :
    Misread s (s.skip k) ∨ Misread (s.skip k) u := by
  obtain ⟨n, reason, herror, hread⟩ := h
  by_cases hn : n < k
  · -- The bad line was used up on the way to the moment.
    obtain ⟨j, rfl⟩ : ∃ j, k = n + (1 + j) := ⟨k - n - 1, by omega⟩
    refine .inl ⟨n, reason, herror, ?_⟩
    rw [Source.skip_add, Source.skip_add]
    exact Nat.lt_of_le_of_lt (Source.length_skip_le ..) (Source.length_readLine_lt herror)
  · obtain ⟨j, rfl⟩ : ∃ j, n = k + j := ⟨n - k, by omega⟩
    rw [Source.skip_add] at herror hread
    exact .inr ⟨j, reason, herror, hread⟩

theorem Failed.split (h : Failed a c) (hab : Advances a b) : Failed a b ∨ Failed b c := by
  rcases h with hout | herr | hinput
  · exact (hout.split hab.out).imp .inl .inl
  · exact (herr.split hab.err).imp (fun h => .inr (.inl h)) fun h => .inr (.inl h)
  · obtain ⟨k, hk⟩ := hab.input
    have hsplit := hinput.split k
    rw [← hk] at hsplit
    exact hsplit.imp (fun h => .inr (.inr h)) fun h => .inr (.inr h)

/-- Where the streams are as they were, none has failed. -/
theorem not_failed_of_eq (hout : b.out = a.out) (herr : b.err = a.err)
    (hinput : b.input = a.input) : ¬ Failed a b := by
  unfold Failed
  rw [hout, herr, hinput]
  rintro (h | h | h)
  · exact not_refused_self _ h
  · exact not_refused_self _ h
  · exact not_misread_self _ h

end

/-! ### Runs and the failures of their streams -/

/-- What ends a run on a machine after a stream has failed: the failure,
or an interruption if the flag is up. -/
def Ending (m : Machine) : Exit → Prop
  | .stream _ => True
  | .interrupted => m.interrupted = true
  | _ => False

/-- The parting of a run on which a stream fails from any on which none
does. Such a run is on its way to its end. -/
def failing : Parting where
  lockstep := False
  held := []
  settings := id
  Step m m' := Advances m m' ∧ ¬ Failed m m'
  Doom m e m' := Advances m m' ∧ Ending m' e
  Lost _ _ := False

theorem failing_step_of_eq {m m' : Machine} (hout : m'.out = m.out) (herr : m'.err = m.err)
    (hinput : m'.input = m.input) (hflag : m'.interrupted = m.interrupted) :
    failing.Step m m' :=
  ⟨.of_eq hout herr hinput hflag, not_failed_of_eq hout herr hinput⟩

theorem ending_later {m m' : Machine} {e : Exit} (h : Ending m e) (hstep : Advances m m') :
    Ending m' e := by
  cases e with
  | interrupted => exact hstep.flag h
  | stream reason => trivial
  | _ => exact h

theorem failing_outbound : failing.Outbound where
  trans h h' := by
    refine ⟨h.1.trans h'.1, fun hfailed => ?_⟩
    rcases hfailed.split h.1 with hbefore | hafter
    · exact h.2 hbefore
    · exact h'.2 hafter
  doom_after h hdoom := ⟨h.1.trans hdoom.1, hdoom.2⟩
  lost_after _ hlost := hlost
  lost_before hlost _ := hlost
  lockstep_lost hlockstep := hlockstep.elim
  trace _ := rfl
  modules _ := rfl
  unheard h := failing_step_of_eq h.out h.err h.input h.interrupted
  doom_release _ _ hdoom := ⟨hdoom.1.trans (.of_eq rfl rfl rfl rfl), hdoom.2⟩
  interrupt _ := ⟨⟨.refl _, .refl _, ⟨0, rfl⟩, fun _ => rfl⟩, not_failed_of_eq rfl rfl rfl⟩
  out m text := by
    have hadvances : Advances m { m with out := (m.out.offer text).2 } :=
      ⟨.offer _ _, .refl _, ⟨0, rfl⟩, id⟩
    dsimp only
    split
    · exact .inr ⟨hadvances, trivial⟩
    · rename_i haccepted
      refine ⟨hadvances, ?_⟩
      rintro (h | h | h)
      · exact not_refused_offer haccepted h
      · exact not_refused_self _ h
      · exact not_misread_self _ h
  err m text := by
    have hadvances : Advances m { m with err := (m.err.offer text).2 } :=
      ⟨.refl _, .offer _ _, ⟨0, rfl⟩, id⟩
    dsimp only
    split
    · exact .inr ⟨hadvances, trivial⟩
    · rename_i haccepted
      refine ⟨hadvances, ?_⟩
      rintro (h | h | h)
      · exact not_refused_self _ h
      · exact not_refused_offer haccepted h
      · exact not_misread_self _ h
  input m := by
    have hadvances : Advances m { m with input := m.input.readLine.2 } :=
      ⟨.refl _, .refl _, ⟨1, rfl⟩, id⟩
    dsimp only
    split
    · exact .inr ⟨hadvances, trivial⟩
    · rename_i hline
      refine ⟨hadvances, ?_⟩
      rintro (h | h | h)
      · exact not_refused_self _ h
      · exact not_refused_self _ h
      · exact not_misread_readLine hline h
  fatal {_ m e} hdoom := by
    cases e with
    | interrupted | stream reason => trivial
    | _ => exact hdoom.2
  unwinds hdoom h := by
    have hstep : Advances _ _ := .of_eq h.out h.err h.input h.interrupted
    exact ⟨hdoom.1.trans hstep, ending_later hdoom.2 hstep⟩

/-! ### Conclusions -/

/-- A conclusion during which there was no alarm was run as it is. If a
failed stream was pending, no other exit has taken its place but one
that ends the run. -/
theorem wary_inv {pending : Except Exit Unit} {x : Eval Unit} {c : Context} {m m' : Machine}
    {r : Except Exit Unit}
    (h : Evaluator.wary Eval.exhausted pending x c m = some (r, m')) :
    x c m = some (r, m') ∧
      ∀ reason e, pending = .error (.stream reason) → r = .error e → Fatal e := by
  match pending, h with
  | .error (.stream _), h =>
    obtain ⟨_, hexit, -⟩ | ⟨o, m₁, hconclude, hrest⟩ := Eval.bind_inv h
    · obtain ⟨_, -, hok⟩ := Eval.outcome_inv hexit
      cases hok
    · obtain ⟨_, hx, ho⟩ := Eval.outcome_inv hconclude
      cases ho
      match o, hrest with
      | .ok (), hrest =>
        cases hrest
        exact ⟨hx, fun _ _ _ he => by cases he⟩
      | .error .interrupted, hrest | .error (.stream _), hrest =>
        cases hrest
        refine ⟨hx, fun _ _ _ he => ?_⟩
        cases he
        trivial
      | .error (.fault _), hrest | .error (.raised ..), hrest | .error (.flow _), hrest =>
        cases hrest
  | .ok _, h | .error (.fault _), h | .error (.raised ..), h | .error (.flow _), h
  | .error .interrupted, h =>
    exact ⟨h, fun _ _ he _ => by cases he⟩

/-- As long as there is no alarm, wary evaluations are plain ones. -/
theorem wary_refines (steps : Nat) (node : Node) :
    refining.Follows (variant (.wary Eval.exhausted) steps node) (evaluate steps node) := by
  rw [← variant_own]
  refine refining_outbound.variant refining_outbound.checkInterrupt.follows
    (refining_outbound.enterCall fun _ => rfl).follows (fun steps => ?_) steps node
  exact
    { follows := fun _ _ _ hxy =>
        { ends := fun _ hrun => .together trivial (same_of_refining hxy (wary_inv hrun).1)
          starves := fun hlockstep => hlockstep.elim }
      doomed := fun _ _ hdoom _ => hdoom.elim
      returns := fun _ hlockstep => hlockstep.elim }

/-- Plain conclusions go on with the streams, and are interrupted only
if the flag is up. -/
theorem conclude_cause {steps : Nat} {parts : Attempt Node} {c : Context} {m m' : Machine}
    {r : Except Exit Unit}
    (h : Evaluator.conclude (variant (.wary Eval.exhausted) steps) parts c m = some (r, m')) :
    Advances m m' ∧ ∀ e, r = .error e → Fatal e → Ending m' e := by
  have hrefines : refining.custom Unit [] []
      (Evaluator.conclude (variant (.wary Eval.exhausted) steps) parts)
      (Evaluator.conclude (evaluate steps) parts) :=
    refining_outbound.basics.conclude (fun _ _ node => wary_refines steps node) parts
  have hplain := same_of_refining hrefines h
  have hcong := disturbance_congruence m
  have hkeeps : (disturbance m).Keeps Unit [] (Evaluator.conclude (evaluate steps) parts)
      (Evaluator.conclude (evaluate steps) parts) :=
    (hcong.discipline.conclude (fun _ _ node us _ => hcong.evaluate steps us node) parts).all
  have hended := hkeeps.ended (.refl m) trivial hplain
  refine ⟨hended.step, fun e he hfatal => ?_⟩
  subst he
  cases e with
  | interrupted => exact hended.good _ (List.mem_singleton_self _)
  | stream reason => trivial
  | _ => exact hfatal

theorem failing_concludes (steps : Nat) :
    failing.Concludes (.wary Eval.exhausted) (.wary Eval.exhausted)
      (variant (.wary Eval.exhausted) (steps + 1)) where
  follows pending x y hxy := by
    match pending with
    | .error (.stream _) =>
      refine failing_outbound.handle hxy (fun o => ?_) (failing_outbound.lets fun _ he _ => ?_)
      · match o with
        | .ok () => exact (failing_outbound.plain_pure ()).follows
        | .error .interrupted | .error (.stream _) => exact (failing_outbound.plain_exit _).follows
        | .error (.fault _) | .error (.raised ..) | .error (.flow _) =>
          exact .exhausted
      · rcases he.cases with rfl | ⟨reason, rfl⟩ <;> exact ⟨_, rfl, .refl _⟩
    | .ok _ | .error (.fault _) | .error (.raised ..) | .error (.flow _) | .error .interrupted =>
      exact hxy
  doomed {a m m' e c r} parts _ hdoom hrun := by
    obtain ⟨hconclude, hoverride⟩ := wary_inv hrun
    obtain ⟨hadvances, hending⟩ := conclude_cause hconclude
    cases e with
    | stream reason =>
      cases r with
      | ok _ => exact .inl ⟨rfl, hdoom.1.trans hadvances, trivial⟩
      | error e =>
        have hend : Ending m' e := hending e rfl (hoverride reason e rfl rfl)
        exact .inr (.doomed e rfl ⟨hdoom.1.trans hadvances, hend⟩)
    | interrupted =>
      -- The flag is up, so the first node of the conclusion is stopped too.
      have hflag : m.interrupted = true := hdoom.2
      have hstops : ∀ c m₁, Unwinds [] m m₁ → ∃ m', (Variant.wary Eval.exhausted).check c m₁ =
          some (.error .interrupted, m') ∧ Unwinds [] m m' := by
        intro c m₁ hm₁
        refine ⟨m₁, ?_, hm₁⟩
        show Eval.checkInterrupt c m₁ = _
        rw [Eval.checkInterrupt_apply, hm₁.interrupted, hflag]
        rfl
      obtain ⟨_, _, hends, hr, hunwinds⟩ := conclude_of_stopped hstops steps parts _
      rw [hconclude] at hends
      cases hends
      have hdoom' : failing.Doom a .interrupted m' :=
        ⟨hdoom.1.trans hadvances, hunwinds.interrupted.trans hflag⟩
      rcases hr with rfl | rfl
      · exact .inl ⟨rfl, hdoom'⟩
      · exact .inr (.doomed _ rfl hdoom')
    | _ => exact hdoom.2.elim
  returns _ hlockstep := hlockstep.elim

/-! ### Whole runs -/

theorem wary_failing (steps : Nat) (node : Node) :
    failing.Follows (variant (.wary Eval.exhausted) steps node)
      (variant (.wary Eval.exhausted) steps node) :=
  failing_outbound.variant failing_outbound.checkInterrupt.follows
    (failing_outbound.enterCall fun _ => rfl).follows failing_concludes steps node

/-- What meets a failure is on its way to the end of the run. -/
theorem ending_of_failing {α : Type} {x : Eval α} (h : failing.Follows x x) {c : Context}
    {m m' : Machine} {r : Except Exit α} (hrun : x c m = some (r, m')) (hfailed : Failed m m') :
    ∃ e, r = .error e ∧ Ending m' e := by
  cases h.ends (List.nil_subset _) hrun with
  | together hstep _ => exact absurd hfailed hstep.2
  | doomed e he hdoom => exact ⟨e, he, hdoom.2⟩
  | lost hlost => exact hlost.elim

/-- A failed stream ends the run, unless a conclusion does away with the
failure. Take an evaluation, with or without an alarm for that.

If a stream fails during the run of a program, then there was an alarm,
or the run ends with the failed stream, or with an interruption if the
flag is up. It ends so at the statement during which the first stream
has failed, with what settling the outcome of that statement leaves;
the statements after it are not evaluated.

If a stream fails during the evaluation of a node, then there was an
alarm, or the node ends so. Hence no construct but a conclusion takes
the failure for anything else. -/
theorem failure_ends_run (steps : Nat) (c : Context) (m : Machine) :
    (∀ program r m', runProgram (evaluate steps) program c m = some (r, m') → Failed m m' →
      runProgram (variant (.wary Eval.exhausted) steps) program c m = none ∨
        ∃ e, r = .error e ∧ Ending m' e ∧
          ∃ before last after m₁ o m₂, program.statements = before ++ last :: after ∧
            InTurn (evaluate steps) c before m m₁ ∧ ¬ Failed m m₁ ∧
              evaluate steps last c m₁ = some (o, m₂) ∧
                Eval.holding (Owner.refs o) (afterStatement o) c m₂ = some (.error e, m')) ∧
    (∀ node r m', evaluate steps node c m = some (r, m') → Failed m m' →
      variant (.wary Eval.exhausted) steps node c m = none ∨
        ∃ e, r = .error e ∧ Ending m' e) := by
  have hnode := wary_refines steps
  have hfailing := wary_failing steps
  constructor
  · intro program r m' hrun hfailed
    rcases hwary : runProgram (variant (.wary Eval.exhausted) steps) program c m with
      _ | ⟨r₁, m₁⟩
    · exact .inl rfl
    · refine .inr ?_
      have hsame := same_of_refining (refining_outbound.runProgram hnode program) hwary
      rw [hrun] at hsame
      cases hsame
      obtain ⟨e, rfl, hending⟩ :=
        ending_of_failing (failing_outbound.runProgram hfailing program) hwary hfailed
      obtain ⟨before, last, after, m₁, o, m₂, hstatements, hturn, hlast, hstop⟩ :=
        stopped_of_runStatements hwary
      -- A failure before the last statement would have ended the run there.
      have hbefore : ¬ Failed m m₁ := by
        intro hearly
        obtain ⟨_, hok, -⟩ := ending_of_failing (failing_outbound.runStatements hfailing before)
          (runStatements_of_inTurn hturn) hearly
        cases hok
      have hplain : InTurn (evaluate steps) c before m m₁ :=
        hturn.mono fun node _ _ _ h => same_of_refining (hnode node) h
      exact ⟨e, rfl, hending, before, last, after, m₁, o, m₂, hstatements, hplain, hbefore,
        same_of_refining (hnode last) hlast, hstop⟩
  · intro node r m' hrun hfailed
    rcases hwary : variant (.wary Eval.exhausted) steps node c m with _ | ⟨r₁, m₁⟩
    · exact .inl rfl
    · have hsame := same_of_refining (hnode node) hwary
      rw [hrun] at hsame
      cases hsame
      exact .inr (ending_of_failing (hfailing node) hwary hfailed)

/-- A machine whose output takes no text. -/
def fullMachine : Machine :=
  { Machine.single (Scope.top .global) with out := .limited (some 0) none }

/-- Where the output takes no text, a program ends at its first
statement that prints. -/
theorem failure_ends_run_full :
    let program := Node.program [.attempt ⟨[.print [.text "a"]], [], false, none, some []⟩,
      .assign (.var "x") (.text "late")]
    let c : Context := ⟨.standard, 0, [.scope 0]⟩
    ∃ r m', runProgram (evaluate 5) program c fullMachine = some (r, m') ∧
      Failed fullMachine m' ∧ ∃ e, r = .error e ∧ Ending m' e := by
  intro program c
  have hrun : ∃ r m', runProgram (evaluate 5) program c fullMachine = some (r, m') ∧
      m'.out.offers = 1 := ⟨_, _, rfl, rfl⟩
  obtain ⟨r, m', hrun, hoffers⟩ := hrun
  have hfailed : Failed fullMachine m' :=
    .inl ⟨0, Sink.full, Nat.le_refl 0, hoffers ▸ Nat.zero_lt_one, rfl⟩
  refine ⟨r, m', hrun, hfailed, ?_⟩
  rcases (failure_ends_run 5 c fullMachine).1 program r m' hrun hfailed with
    halarm | ⟨e, hr, hending, -⟩
  · exact absurd halarm (by decide +kernel)
  · exact ⟨e, hr, hending⟩

/-- A conclusion that halts does away with a failed stream. Nothing is
left of it when the program has ended, and the statement after the
attempt was evaluated. -/
theorem failure_overridden :
    let program := Node.program [.attempt ⟨[.print [.text "a"]], [], false, none, some [.halt]⟩,
      .assign (.var "x") (.text "late")]
    let c : Context := ⟨.standard, 0, [.scope 0]⟩
    ∃ m', runProgram (evaluate 5) program c fullMachine = some (.ok (), m') ∧
      Failed fullMachine m' ∧ (m'.store.lookup? 0 "x").map Value.display = some "late" := by
  intro program c
  have hrun : ∃ m', runProgram (evaluate 5) program c fullMachine = some (.ok (), m') ∧
      m'.out.offers = 1 ∧ (m'.store.lookup? 0 "x").map Value.display = some "late" :=
    ⟨_, rfl, rfl, rfl⟩
  obtain ⟨m', hrun, hoffers, hlate⟩ := hrun
  exact ⟨m', hrun, .inl ⟨0, Sink.full, Nat.le_refl 0, hoffers ▸ Nat.zero_lt_one, rfl⟩, hlate⟩

end Treewalk.Proofs
