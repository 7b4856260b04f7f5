import Treewalk.Proofs.Regime

/-!
# `Treewalk.Proofs.Containment`: a fault costs one value

A fault that a construct meets does not leave the node: `recovering`
stands around every node, so what is inside of a node cannot let a
fault out whatever path it takes. That part needs no induction.

The other exits that end a run must come from the outside. An
interruption has the flag of the machine behind it, and a failed stream
an offer that was refused or a line that was no text. The regime
`disturbance` carries this through every construct: an exit on its way
is good if the machine shows its cause. What has shown once still
shows later, because the flag is never cleared and the streams only go
forward.

`run_contained` puts both together. An undisturbed run evaluates all
statements of a program in order, and ends well.
-/

set_option autoImplicit false

namespace Treewalk.Proofs

open Yields (items)

/-! ### Faults stay inside -/

/-- The exits that a program makes on purpose: the errors it raises and
its flow signals. -/
def Deliberate : Exit → Prop
  | .raised .. | .flow _ => True
  | _ => False

/-- The exits that end a run. -/
def Fatal : Exit → Prop
  | .interrupted | .stream _ => True
  | _ => False

theorem fatal_of_report {e e' : Exit} {c : Context} {m m' : Machine}
    (h : Eval.report e c m = some (.error e', m')) : Fatal e' := by
  obtain ⟨reason, rfl⟩ := (Eval.report_inv h).2 e' rfl
  trivial

theorem recovering_inv {x : Eval Value} {c : Context} {m m' : Machine} {e : Exit}
    (h : Evaluator.recovering x c m = some (.error e, m')) : Deliberate e ∨ Fatal e := by
  obtain ⟨_, hexit, -⟩ | ⟨o, m₁, -, hrest⟩ := Eval.bind_inv h
  · obtain ⟨_, -, hok⟩ := Eval.outcome_inv hexit
    cases hok
  · match o, hrest with
    | .ok _, hrest => cases hrest
    | .error (.fault f), hrest =>
      obtain ⟨_, hreport, he⟩ | ⟨_, _, -, hnil⟩ := Eval.bind_inv hrest
      · cases he
        exact .inr (fatal_of_report hreport)
      · cases hnil
    | .error (.raised _ _), hrest => cases hrest; exact .inl trivial
    | .error (.flow _), hrest => cases hrest; exact .inl trivial
    | .error .interrupted, hrest => cases hrest; exact .inr trivial
    | .error (.stream _), hrest => cases hrest; exact .inr trivial

/-- A node is left on purpose or for good, and never by a fault. -/
theorem evaluate_inv {steps : Nat} {node : Node} {c : Context} {m m' : Machine} {e : Exit}
    (h : evaluate steps node c m = some (.error e, m')) : Deliberate e ∨ Fatal e := by
  cases steps with
  | zero => cases h
  | succ steps =>
    -- The check for a stop can exit and the node can. The log takes every entry.
    obtain ⟨e', hstop, he⟩ | ⟨_, m₁, -, hvisit⟩ := Eval.bind_inv h
    · cases he
      rw [Eval.checkInterrupt_apply] at hstop
      split at hstop <;> cases hstop
      exact .inr trivial
    · obtain ⟨log, hnoted⟩ := noteVisit_apply node c m₁
      obtain ⟨_, hnote, -⟩ | ⟨_, _, -, hnode⟩ := Eval.bind_inv hvisit
      · rw [hnoted] at hnote
        cases hnote
      · exact recovering_inv hnode

/-- A block is left as the node is at which it is left. -/
theorem runBlock_inv {steps : Nat} {body : List Node} {c : Context} {m m' : Machine} {e : Exit}
    (h : Evaluator.runBlock (evaluate steps) body c m = some (.error e, m')) :
    Deliberate e ∨ Fatal e := by
  induction body generalizing m with
  | nil => cases h
  | cons first rest ih =>
    obtain ⟨_, hfirst, he⟩ | ⟨_, m₁, -, hrest⟩ := Eval.bind_inv h
    · cases he
      obtain ⟨_, hnode, he⟩ | ⟨_, _, -, hforgot⟩ := Eval.bind_inv hfirst
      · cases he
        exact evaluate_inv hnode
      · obtain ⟨_, hdone, -⟩ := Eval.holding_inv hforgot
        cases hdone
    · exact ih hrest

/-- After a statement a program stops for good or goes on. -/
theorem afterStatement_inv {r : Except Exit Value} {c : Context} {m m' : Machine} {e : Exit}
    (hr : ∀ e, r = .error e → Deliberate e ∨ Fatal e)
    (h : afterStatement r c m = some (.error e, m')) : Fatal e := by
  match r, h with
  | .ok _, h => cases h
  | .error (.raised _ _), h => exact fatal_of_report h
  | .error (.flow _), h => cases h
  | .error .interrupted, h => cases h; trivial
  | .error (.stream _), h => cases h; trivial
  | .error (.fault _), h => exact (hr _ rfl).elim False.elim False.elim

theorem runStatements_inv {steps : Nat} {statements : List Node} {c : Context} {m m' : Machine}
    {e : Exit} (h : runStatements (evaluate steps) statements c m = some (.error e, m')) :
    Fatal e := by
  induction statements generalizing m with
  | nil => cases h
  | cons first rest ih =>
    obtain ⟨_, hfirst, he⟩ | ⟨_, m₁, -, hrest⟩ := Eval.bind_inv h
    · cases he
      obtain ⟨_, hnode, -⟩ | ⟨r, _, hnode, hsettle⟩ := Eval.bind_inv hfirst
      · obtain ⟨_, -, hok⟩ := Eval.outcome_inv hnode
        cases hok
      · obtain ⟨_, hended, ho⟩ := Eval.outcome_inv hnode
        cases ho
        -- The outcome was a result for the program to settle, so only the settling exits.
        obtain ⟨_, hafter, -⟩ := Eval.holding_inv hsettle
        refine afterStatement_inv (fun e he => ?_) hafter
        rw [he] at hended
        exact evaluate_inv hended
    · exact ih hrest

/-! ### Disturbances -/

/-- A sink has refused an offer between two states. -/
def Refused (s s' : Sink) : Prop :=
  ∃ n reason, s.offers ≤ n ∧ n < s'.offers ∧ s.reaction n = .refuse reason

/-- A line that is no text has been read between two states. -/
def Misread (s s' : Source) : Prop :=
  ∃ n reason, (s.skip n).readLine.1 = .error reason ∧
    s'.bytes.length < (s.skip n).bytes.length

/-- A run on which nothing came from the outside: no stream failed, and
the run was not asked to stop. Nothing clears the flag, so it is enough
to see it clear at the end. -/
structure Undisturbed (m m' : Machine) : Prop where
  clear : m'.interrupted = false
  out : ¬ Refused m.out m'.out
  err : ¬ Refused m.err m'.err
  input : ¬ Misread m.input m'.input

/-- A sink that has had some more offers. -/
structure Offered (s s' : Sink) : Prop where
  reaction : s'.reaction = s.reaction
  offers : s.offers ≤ s'.offers

theorem Offered.refl (s : Sink) : Offered s s :=
  ⟨rfl, Nat.le_refl _⟩

theorem Offered.trans {a b c : Sink} (h : Offered a b) (h' : Offered b c) : Offered a c :=
  ⟨h'.reaction.trans h.reaction, Nat.le_trans h.offers h'.offers⟩

theorem Offered.offer (s : Sink) (text : String) : Offered s (s.offer text).2 :=
  ⟨rfl, Nat.le_succ _⟩

/-- Streams that have gone on and a flag that was not cleared. -/
structure Advances (m m' : Machine) : Prop where
  out : Offered m.out m'.out
  err : Offered m.err m'.err
  input : ∃ n, m'.input = m.input.skip n
  flag : m.interrupted = true → m'.interrupted = true

/-- Anything else of the machine may change. -/
theorem Advances.of_eq {m m' : Machine} (hout : m'.out = m.out) (herr : m'.err = m.err)
    (hinput : m'.input = m.input) (hflag : m'.interrupted = m.interrupted) : Advances m m' where
  out := hout ▸ .refl _
  err := herr ▸ .refl _
  input := ⟨0, hinput⟩
  flag hm := hflag.trans hm

theorem Advances.refl (m : Machine) : Advances m m :=
  .of_eq rfl rfl rfl rfl

theorem Advances.trans {a b c : Machine} (h : Advances a b) (h' : Advances b c) :
    Advances a c where
  out := h.out.trans h'.out
  err := h.err.trans h'.err
  input := by
    obtain ⟨n, hn⟩ := h.input
    obtain ⟨k, hk⟩ := h'.input
    exact ⟨n + k, by rw [Source.skip_add, ← hn, hk]⟩
  flag hm := h'.flag (h.flag hm)

theorem Refused.later {s s' s'' : Sink} (h : Refused s s') (hlater : Offered s' s'') :
    Refused s s'' := by
  obtain ⟨n, reason, hfrom, hto, hrefuse⟩ := h
  exact ⟨n, reason, hfrom, Nat.lt_of_lt_of_le hto hlater.offers, hrefuse⟩

theorem Misread.later {s s' : Source} (h : Misread s s') (n : Nat) : Misread s (s'.skip n) := by
  obtain ⟨k, reason, herror, hread⟩ := h
  exact ⟨k, reason, herror, Nat.lt_of_le_of_lt (s'.length_skip_le n) hread⟩

/-- A refusal now is one since any earlier state. -/
theorem Refused.of_offer {s s' : Sink} {text reason : String} (h : Offered s s')
    (hrefuse : (s'.offer text).1 = .refuse reason) : Refused s (s'.offer text).2 := by
  refine ⟨s'.offers, reason, h.offers, Nat.lt_succ_self _, ?_⟩
  rw [← h.reaction]
  exact hrefuse

theorem Misread.of_readLine {s : Source} (n : Nat) {reason : String}
    (herror : (s.skip n).readLine.1 = .error reason) : Misread s (s.skip n).readLine.2 :=
  ⟨n, reason, herror, Source.length_readLine_lt herror⟩

/-- What an exit that ends a run has behind it, seen from the machine
that the run began with. -/
def Cause (m₀ m : Machine) : Exit → Prop
  | .interrupted => m.interrupted = true
  | .stream _ => Refused m₀.out m.out ∨ Refused m₀.err m.err ∨ Misread m₀.input m.input
  | _ => True

theorem Cause.later {m₀ m m' : Machine} {e : Exit} (hstep : Advances m m') (h : Cause m₀ m e) :
    Cause m₀ m' e := by
  cases e with
  | interrupted => exact hstep.flag h
  | stream reason =>
    rcases h with hout | herr | hinput
    · exact .inl (hout.later hstep.out)
    · exact .inr (.inl (herr.later hstep.err))
    · obtain ⟨n, hn⟩ := hstep.input
      rw [Cause, hn]
      exact .inr (.inr (hinput.later n))
  | fault f => trivial
  | raised name message => trivial
  | flow f => trivial

/-- The regime under which exits that end a run have a cause that shows
since the machine `m₀`. -/
def disturbance (m₀ : Machine) : Regime where
  Inv _ m := Advances m₀ m
  Step := Advances
  Good m
    | .exit e => Cause m₀ m e
    | _ => True
  refl := .refl
  trans := .trans
  good_step {m m' i} hstep hi := by
    cases i with
    | exit e => exact Cause.later hstep hi
    | _ => trivial

theorem disturbance_moved {m₀ m m' : Machine} {σ : Settings} (hinv : (disturbance m₀).Inv σ m)
    (hstep : Advances m m') : (disturbance m₀).Moved σ m m' :=
  ⟨hinv.trans hstep, hstep⟩

theorem disturbance_laws (m₀ : Machine) : (disturbance m₀).Laws where
  data _ := trivial
  spec _ := trivial
  blueprint _ _ _ _ _ := trivial
  toolkit _ _ _ _ _ := trivial
  bridge _ _ _ := trivial
  raised _ _ := trivial
  seen _ _ _ := trivial
  above _ _ _ _ := trivial
  bound _ _ _ _ := trivial
  owner _ _ _ _ := trivial
  release _ _ hinv := disturbance_moved hinv (.of_eq rfl rfl rfl rfl)
  declare hinv _ _ _ _ := disturbance_moved hinv (.of_eq rfl rfl rfl rfl)
  assign hinv _ _ _ := disturbance_moved hinv (.of_eq rfl rfl rfl rfl)
  newExports hinv := ⟨disturbance_moved hinv (.of_eq rfl rfl rfl rfl), trivial⟩
  newChild hinv _ _ _ := ⟨disturbance_moved hinv (.of_eq rfl rfl rfl rfl), trivial, trivial⟩
  newObject hinv _ := ⟨disturbance_moved hinv (.of_eq rfl rfl rfl rfl), trivial⟩
  stopped hflag := hflag
  interrupt hinv := disturbance_moved hinv ⟨.refl _, .refl _, ⟨0, rfl⟩, fun _ => rfl⟩
  out := by
    intro σ m text hinv m'
    refine ⟨disturbance_moved hinv ⟨.offer _ _, .refl _, ⟨0, rfl⟩, fun h => h⟩, ?_⟩
    intro reason hrefuse
    exact .inl (.of_offer hinv.out hrefuse)
  err := by
    intro σ m text hinv m'
    refine ⟨disturbance_moved hinv ⟨.refl _, .offer _ _, ⟨0, rfl⟩, fun h => h⟩, ?_⟩
    intro reason hrefuse
    exact .inr (.inl (.of_offer hinv.err hrefuse))
  input := by
    intro σ m hinv m'
    refine ⟨disturbance_moved hinv ⟨.refl _, .refl _, ⟨1, rfl⟩, fun h => h⟩, ?_⟩
    intro reason herror
    -- The line is the next one after those read since the run began.
    obtain ⟨n, hn⟩ := hinv.input
    rw [hn] at herror
    refine .inr (.inr ?_)
    show Misread m₀.input m.input.readLine.2
    rw [hn]
    exact .of_readLine n herror
  note _ hinv := disturbance_moved hinv (.of_eq rfl rfl rfl rfl)
  rest _ _ hinv := disturbance_moved hinv (.of_eq rfl rfl rfl rfl)

theorem disturbance_nodeLaws (m₀ : Machine) : (disturbance m₀).NodeLaws where
  exports _ _ _ _ := trivial
  exportIn hinv _ _ _ := disturbance_moved hinv (.of_eq rfl rfl rfl rfl)
  code _ := trivial
  opened := trivial

theorem disturbance_uncounted (m₀ : Machine) : (disturbance m₀).Uncounted :=
  fun _ _ _ _ hinv => disturbance_moved hinv (.of_eq rfl rfl rfl rfl)

theorem disturbance_congruence (m₀ : Machine) :
    Congruence (disturbance m₀).Keeps (disturbance m₀).Keeps :=
  (disturbance_uncounted m₀).congruence (disturbance_laws m₀) (disturbance_nodeLaws m₀)

/-- An undisturbed evaluation does not end in an exit that ends a
run. -/
theorem not_fatal_of_keeps {α : Type} [Yields α] {m : Machine} {x y : Eval α}
    (hkeeps : (disturbance m).Keeps α [] x y) {c : Context} {m' : Machine} {e : Exit}
    (hy : y c m = some (.error e, m')) (hquiet : Undisturbed m m') : ¬ Fatal e := by
  have hended := hkeeps.ended (.refl m) trivial hy
  cases e with
  | interrupted =>
    intro _
    have hflag : m'.interrupted = true := hended.good _ (List.mem_singleton_self _)
    rw [hquiet.clear] at hflag
    cases hflag
  | stream reason =>
    intro _
    have hcause : Refused m.out m'.out ∨ Refused m.err m'.err ∨ Misread m.input m'.input :=
      hended.good _ (List.mem_singleton_self _)
    rcases hcause with hout | herr | hinput
    · exact hquiet.out hout
    · exact hquiet.err herr
    · exact hquiet.input hinput
  | fault f => exact fun h => h
  | raised name message => exact fun h => h
  | flow f => exact fun h => h

/-! ### Whole runs -/

/-- Statements that were evaluated one after the other: each on the
machine that the one before has left, once its outcome was settled. -/
inductive InTurn (ev : Evaluator) (c : Context) : List Node → Machine → Machine → Prop where
  | done (m : Machine) : InTurn ev c [] m m
  | next {first : Node} {rest : List Node} {r : Except Exit Value} {m m₁ m₂ m' : Machine} :
      ev first c m = some (r, m₁) →
      Eval.holding (Owner.refs r) (afterStatement r) c m₁ = some (.ok (), m₂) →
      InTurn ev c rest m₂ m' → InTurn ev c (first :: rest) m m'

/-- A program that ends well has left out no statement. -/
theorem inTurn_of_runStatements {ev : Evaluator} {statements : List Node} {c : Context}
    {m m' : Machine} (h : runStatements ev statements c m = some (.ok (), m')) :
    InTurn ev c statements m m' := by
  induction statements generalizing m with
  | nil =>
    cases h
    exact .done m'
  | cons first rest ih =>
    obtain ⟨_, -, hok⟩ | ⟨_, m₂, hfirst, hrest⟩ := Eval.bind_inv h
    · cases hok
    · obtain ⟨_, -, hok⟩ | ⟨r, m₁, hnode, hsettled⟩ := Eval.bind_inv hfirst
      · cases hok
      · obtain ⟨_, hended, ho⟩ := Eval.outcome_inv hnode
        cases ho
        exact .next hended hsettled (ih hrest)

theorem runStatements_of_inTurn {ev : Evaluator} {statements : List Node} {c : Context}
    {m m' : Machine} (h : InTurn ev c statements m m') :
    runStatements ev statements c m = some (.ok (), m') := by
  induction h with
  | done m => rfl
  | next hnode hsettled _ ih =>
    have hfirst : Eval.borrow (Eval.outcome (ev _)) afterStatement c _ = some (.ok (), _) :=
      (Eval.bind_of_ok (Eval.outcome_of_some hnode)).trans hsettled
    exact (Eval.bind_of_ok hfirst).trans ih

/-- What one evaluator does in turn, another one does that has the same
outcomes. -/
theorem InTurn.mono {ev ev' : Evaluator} {c : Context} {statements : List Node} {m m' : Machine}
    (hev : ∀ node m r m', ev node c m = some (r, m') → ev' node c m = some (r, m'))
    (h : InTurn ev c statements m m') : InTurn ev' c statements m m' := by
  induction h with
  | done m => exact .done m
  | next hnode hsettled _ ih => exact .next (hev _ _ _ _ hnode) hsettled ih

/-- A program that does not end well ends at one of its statements. Those
before it were evaluated in turn, and those after it were not. -/
theorem stopped_of_runStatements {ev : Evaluator} {statements : List Node} {c : Context}
    {m m' : Machine} {e : Exit} (h : runStatements ev statements c m = some (.error e, m')) :
    ∃ before last after m₁ r m₂, statements = before ++ last :: after ∧
      InTurn ev c before m m₁ ∧ ev last c m₁ = some (r, m₂) ∧
        Eval.holding (Owner.refs r) (afterStatement r) c m₂ = some (.error e, m') := by
  induction statements generalizing m with
  | nil => cases h
  | cons first rest ih =>
    obtain ⟨_, hfirst, he⟩ | ⟨_, m₂, hfirst, hrest⟩ := Eval.bind_inv h
    · cases he
      obtain ⟨_, hnode, -⟩ | ⟨r, m₁, hnode, hsettled⟩ := Eval.bind_inv hfirst
      · obtain ⟨_, -, hok⟩ := Eval.outcome_inv hnode
        cases hok
      · obtain ⟨_, hended, ho⟩ := Eval.outcome_inv hnode
        cases ho
        exact ⟨[], first, rest, m, r, m₁, rfl, .done m, hended, hsettled⟩
    · obtain ⟨_, -, hok⟩ | ⟨r, m₁, hnode, hsettled⟩ := Eval.bind_inv hfirst
      · cases hok
      · obtain ⟨_, hended, ho⟩ := Eval.outcome_inv hnode
        cases ho
        obtain ⟨before, last, after, m₃, r', m₄, rfl, hturn, hlast, hstop⟩ := ih hrest
        exact ⟨first :: before, last, after, m₃, r', m₄, rfl, .next hended hsettled hturn, hlast,
          hstop⟩

/-- Faults are contained. An undisturbed run of a program ends well and
has evaluated every statement in turn. No node ends in a fault, and an
undisturbed one ends in a value, a raised error or a flow signal; a
block stops early for the latter two only. -/
theorem run_contained (steps : Nat) (c : Context) (m : Machine) :
    (∀ program r m', runProgram (evaluate steps) program c m = some (r, m') →
      Undisturbed m m' →
        r = .ok () ∧ InTurn (evaluate steps) c program.statements m m') ∧
    (∀ node r m', evaluate steps node c m = some (r, m') →
      (∀ f, r ≠ .error (.fault f)) ∧
        (Undisturbed m m' → ∀ e, r = .error e → Deliberate e)) ∧
    (∀ body r m', Evaluator.runBlock (evaluate steps) body c m = some (r, m') →
      (∀ f, r ≠ .error (.fault f)) ∧
        (Undisturbed m m' → ∀ e, r = .error e → Deliberate e)) := by
  have hcong := disturbance_congruence m
  have hev := hcong.evaluate steps
  refine ⟨?_, ?_, ?_⟩
  · intro program r m' hrun hquiet
    cases r with
    | ok a => exact ⟨rfl, inTurn_of_runStatements hrun⟩
    | error e =>
      -- A program ends badly only by an exit that needs a disturbance.
      have hfatal := runStatements_inv hrun
      exact absurd hfatal (not_fatal_of_keeps (hcong.runProgram hev program) hrun hquiet)
  · intro node r m' hrun
    refine ⟨?_, ?_⟩
    · rintro f rfl
      exact (evaluate_inv hrun).elim id id
    · rintro hquiet e rfl
      exact (evaluate_inv hrun).resolve_right (not_fatal_of_keeps (hev [] node) hrun hquiet)
  · intro body r m' hrun
    refine ⟨?_, ?_⟩
    · rintro f rfl
      exact (runBlock_inv hrun).elim id id
    · rintro hquiet e rfl
      exact (runBlock_inv hrun).resolve_right
        (not_fatal_of_keeps (hcong.runBlock hev body) hrun hquiet)

/-- Sinks that take all and an input at its end do not fail. -/
theorem undisturbed_single {scope : Scope} {m' : Machine} (hclear : m'.interrupted = false) :
    Undisturbed (.single scope) m' where
  clear := hclear
  out := by
    rintro ⟨n, reason, -, -, hrefuse⟩
    cases hrefuse
  err := by
    rintro ⟨n, reason, -, -, hrefuse⟩
    cases hrefuse
  input := by
    rintro ⟨n, reason, -, hread⟩
    have hlength := Source.length_skip_le n ⟨[]⟩
    exact absurd (Nat.lt_of_lt_of_le hread hlength) (Nat.not_lt_zero _)

/-- A name that nothing binds costs its statement the value, and the
next statement runs. -/
theorem run_contained_unbound :
    let m := Machine.single (Scope.top .global)
    let c : Context := ⟨.standard, 0, []⟩
    ∃ r m', runProgram (evaluate 2) (.program [.var "x", .text "a"]) c m = some (r, m') ∧
      r = .ok () ∧ InTurn (evaluate 2) c [.var "x", .text "a"] m m' := by
  intro m c
  have hrun : ∃ r m', runProgram (evaluate 2) (.program [.var "x", .text "a"]) c m =
      some (r, m') ∧ m'.interrupted = false := ⟨_, _, rfl, rfl⟩
  obtain ⟨r, m', hrun, hclear⟩ := hrun
  have hwhole := (run_contained 2 c m).1 _ r m' hrun (undisturbed_single hclear)
  exact ⟨r, m', hrun, hwhole⟩

end Treewalk.Proofs
