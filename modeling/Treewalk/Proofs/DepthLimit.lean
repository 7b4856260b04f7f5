import Treewalk.Proofs.Parting

/-!
# `Treewalk.Proofs.DepthLimit`: a limit that is not met does not matter

The settings limit the number of calls that run inside each other. A
call that meets the limit is refused with a fault, and the node that
made the call reports the fault like any other. So a run that is
refused no call leaves no report of that in the log, and with a higher
limit it goes in the very same way: `depth_limit_unmet`.

Two runs of the same program under different limits are compared by a
parting. They part company where a call is refused under the lower
limit. Between the call and its node the fault is on its way, and from
then on it is in the log for good. It does not get any further, so the
two sides of the node are compared by two partings: inside of it a
refusal may be on its way (`deeper extra Refusal`), and outside of it
none ever is (`deeper extra fun _ => False`).
-/

set_option autoImplicit false

namespace Treewalk

/-- The context with another limit for running calls. -/
def Context.allowing (c : Context) (depth : Nat) : Context :=
  { c with settings := { c.settings with maxDepth := depth } }

end Treewalk

namespace Treewalk.Proofs

/-- Whether a call is refused by an exit. -/
def Refusal : Exit → Prop
  | .fault (.tooDeep ..) => True
  | _ => False

/-- The log has been written on, and tells of a refused call. -/
def Overflowed (m m' : Machine) : Prop :=
  ∃ entries, m'.log = entries ++ m.log ∧ ∃ e, Refusal e ∧ .reported e ∈ entries

section
variable {a b c : Machine}

theorem Overflowed.of_suffix (h : a.log <:+ b.log) (h' : Overflowed b c) : Overflowed a c := by
  obtain ⟨before, hbefore⟩ := h
  obtain ⟨entries, hentries, e, hrefusal, hmem⟩ := h'
  refine ⟨entries ++ before, ?_, e, hrefusal, List.mem_append_left _ hmem⟩
  rw [hentries, ← hbefore, List.append_assoc]

theorem Overflowed.later (h : Overflowed a b) (h' : b.log <:+ c.log) : Overflowed a c := by
  obtain ⟨entries, hentries, e, hrefusal, hmem⟩ := h
  obtain ⟨after, hafter⟩ := h'
  refine ⟨after ++ entries, ?_, e, hrefusal, List.mem_append_right _ hmem⟩
  rw [← hafter, hentries, List.append_assoc]

theorem Overflowed.suffix (h : Overflowed a b) : a.log <:+ b.log := by
  obtain ⟨entries, hentries, -⟩ := h
  exact ⟨entries, hentries.symm⟩

theorem overflowed_note {e : Exit} (he : Refusal e) : Overflowed a (a.note (.reported e)) :=
  ⟨[.reported e], rfl, e, he, List.mem_singleton_self _⟩

end

/-! ### A run and the same run with a higher limit -/

/-- How a run and a run with a limit that is higher by `extra` part
company. `OnItsWay` says which exits can be on their way. -/
def deeper (extra : Nat) (OnItsWay : Exit → Prop) : Parting where
  lockstep := False
  held := []
  settings σ := { σ with maxDepth := σ.maxDepth + extra }
  Step m m' := m.log <:+ m'.log
  Doom m e m' := OnItsWay e ∧ m.log <:+ m'.log
  Lost := Overflowed

/-- The two runs outside of nodes. -/
abbrev outside (extra : Nat) : Parting :=
  deeper extra fun _ => False

/-- The two runs inside of a node. -/
abbrev inside (extra : Nat) : Parting :=
  deeper extra Refusal

section
variable {extra : Nat} {OnItsWay : Exit → Prop}

/-- Whatever way an evaluation ends, the log has been written on. -/
theorem suffix_of_ends {α : Type} {m m' : Machine} {r : Except Exit α} {same : Prop}
    (h : (deeper extra OnItsWay).Ends m r m' same) : m.log <:+ m'.log := by
  cases h with
  | together hstep _ => exact hstep
  | doomed e _ hdoom => exact hdoom.2
  | lost hlost => exact hlost.suffix

theorem deeper_laws : (deeper extra OnItsWay).Laws where
  trans h h' := List.IsSuffix.trans h h'
  doom_after h hdoom := ⟨hdoom.1, List.IsSuffix.trans h hdoom.2⟩
  lost_after h hlost := .of_suffix h hlost
  lost_before hlost hends := .later hlost (suffix_of_ends hends)
  lockstep_lost hlockstep := hlockstep.elim
  trace _ := rfl
  modules _ := rfl
  unheard h := h.log
  doom_release _ _ hdoom := hdoom
  interrupt _ := List.suffix_refl _
  out _ _ := by
    dsimp only
    split
    · exact .inl (List.suffix_refl _)
    · exact List.suffix_refl _
  err _ _ := by
    dsimp only
    split
    · exact .inl (List.suffix_refl _)
    · exact List.suffix_refl _
  input _ := by
    dsimp only
    split
    · exact .inl (List.suffix_refl _)
    · exact List.suffix_refl _

/-- What holds outside of nodes holds inside. -/
theorem follows_inside {α : Type} {x y : Eval α} (h : (outside extra).Follows x y) :
    (inside extra).Follows x y where
  ends hheld hrun := by
    cases h.ends hheld hrun with
    | together hstep hsame => exact .together hstep hsame
    | doomed e _ hdoom => exact hdoom.1.elim
    | lost hlost => exact .lost hlost
  starves hlockstep := hlockstep.elim

theorem outside_rules : Rules (outside extra).custom :=
  deeper_laws.rules fun _ _ _ hdoom => hdoom.1

/-- A refusal goes no further than to the node that made the call: there
it is reported. -/
theorem follows_recovering {x y : Eval Value} (h : (inside extra).Follows x y) :
    (outside extra).Follows (Evaluator.recovering x) (Evaluator.recovering y) := by
  have hlaws : (outside extra).Laws := deeper_laws
  rw [recovering_eq, recovering_eq]
  refine hlaws.handle h hlaws.recovered ⟨?_, fun hlockstep => hlockstep.elim⟩
  intro a m m' e c r hheld hdoom hrun
  obtain ⟨hrefusal, hlog⟩ := hdoom
  match e, hrefusal with
  | .fault f, hrefusal =>
    have hnoted : Overflowed a (m.note (.reported (.fault f))) :=
      (overflowed_note hrefusal).of_suffix hlog
    -- The line of diagnostics comes after the entry, and may fail.
    have hdiagnose : (outside extra).Follows
        (Eval.diagnose (f.category ++ ": " ++ f.message) >>= fun _ => pure Value.nil)
        (Eval.diagnose (f.category ++ ": " ++ f.message) >>= fun _ => pure Value.nil) :=
      hlaws.bind (hlaws.diagnose _) fun _ => (hlaws.plain_pure _).follows
    have hends := hdiagnose.ends (m := m.note (.reported (.fault f))) hheld hrun
    exact .lost (hnoted.later (suffix_of_ends hends))

/-- Room under the limit is room under the higher one. -/
theorem follows_enterCall :
    (inside extra).Follows Evaluator.enterCall Evaluator.enterCall where
  ends {c m _ _} _ hrun := by
    rw [Evaluator.enterCall_apply] at hrun
    split at hrun
    · cases hrun
      exact .doomed _ rfl ⟨trivial, List.suffix_refl _⟩
    · rename_i hroom
      cases hrun
      refine .together (List.suffix_refl _) ?_
      rw [Evaluator.enterCall_apply, if_neg]
      show ¬ c.settings.maxDepth + extra ≤ m.depth
      omega
  starves hlockstep := hlockstep.elim

/-- The body of a call is made of nodes, so no refusal comes out of
it. -/
theorem inside_calling : Calling (inside extra).custom (outside extra).custom where
  toBasics := deeper_laws.basics
  invoke name arity _ x y _ hbody := by
    have hlaws : (inside extra).Laws := deeper_laws
    refine hlaws.invoke name arity _ follows_enterCall fun bound => ?_
    have hrun : (outside extra).custom (Except Exit Unit) [] []
        (Eval.outcome (do
          Eval.ofOutcome bound
          x))
        (Eval.outcome (do
          Eval.ofOutcome bound
          y)) :=
      outside_rules.outcome (deeper_laws.bind (deeper_laws.plain_ofOutcome bound).follows
        fun _ => hbody [] [])
    exact hlaws.bind (follows_inside hrun) fun result => hlaws.finishCall name result

section
variable {ev ev' : Evaluator} (hev : ∀ node, (outside extra).Follows (ev node) (ev' node))
include hev

theorem outside_splice (path : String) :
    (outside extra).Follows (Evaluator.splice ev path) (Evaluator.splice ev' path) := by
  have hlaws : (outside extra).Laws := deeper_laws
  refine hlaws.bind (hlaws.startBring path).follows fun statements => ?_
  refine hlaws.bind (hlaws.note _).follows fun _ => ?_
  have hblock : (outside extra).custom (Except Exit Unit) [] []
      (Eval.outcome (Evaluator.runBlock ev statements))
      (Eval.outcome (Evaluator.runBlock ev' statements)) :=
    outside_rules.outcome (outside_rules.runBlock (fun _ _ node => hev node) statements)
  refine hlaws.bind hblock fun result => ?_
  exact hlaws.bind hlaws.plain_finishBring.follows fun _ => (hlaws.plain_ofOutcome result).follows

theorem inside_handling :
    Handling (inside extra).custom (outside extra).custom .own .own ev ev' where
  toCalling := inside_calling
  exhausted := .exhausted
  checking := deeper_laws.checkInterrupt.follows
  iteration {kept loose} body := by
    have hiteration : (outside extra).custom Bool kept loose _ _ :=
      outside_rules.iteration (fun _ _ node => hev node) body
    exact follows_inside hiteration
  attempt {kept loose} parts := by
    have hattempt : (outside extra).custom Value kept loose _ _ :=
      outside_rules.attempt (fun _ _ node => hev node) parts
    exact follows_inside hattempt
  splice path := follows_inside (outside_splice hev path)

end

/-- A run and a run with a higher limit go together until a call is
refused, node by node. -/
theorem outside_evaluate (steps : Nat) (node : Node) :
    (outside extra).Follows (evaluate steps node) (evaluate steps node) := by
  rw [← variant_own]
  induction steps generalizing node with
  | zero => exact .exhausted
  | succ steps ih =>
    have hlaws : (outside extra).Laws := deeper_laws
    refine hlaws.bind hlaws.checkInterrupt.follows fun _ =>
      hlaws.bind (hlaws.noteVisit node).follows fun _ => follows_recovering ?_
    show (inside extra).custom Value [] [] _ _
    refine (inside_handling ih).step (fun _ _ node => follows_inside (ih node))
      (fun _ _ body => ?_) deeper_laws.nodeRules deeper_laws.taskRules steps node
    exact outside_rules.runBlock (fun _ _ node => ih node) body

end

/-! ### Runs that fit -/

/-- Where the two stayed together, the second one has ended as the first
one did. -/
theorem ended_of_follows {α : Type} {x : Eval α} {c : Context} {m m' : Machine}
    {r : Except Exit α} {d : Nat} (hd : c.settings.maxDepth ≤ d)
    (h : (outside (d - c.settings.maxDepth)).Follows x x) (hrun : x c m = some (r, m'))
    (hfits : ¬ Overflowed m m') : x (c.allowing d) m = some (r, m') := by
  cases h.ends (List.nil_subset _) hrun with
  | together _ hsame =>
    have hother : (outside (d - c.settings.maxDepth)).other c = c.allowing d := by
      show Context.allowing c (c.settings.maxDepth + (d - c.settings.maxDepth)) = c.allowing d
      rw [Nat.add_sub_cancel' hd]
    rwa [hother] at hsame
  | doomed _ _ hdoom => exact hdoom.1.elim
  | lost hlost => exact absurd hlost hfits

/-- A limit that is not met does not matter. Take a run of a program, or
the evaluation of a node, that ends without a report of a refused call
in its log. With a higher limit and everything else alike it ends with
the same outcome and leaves the same machine: the same output and
diagnostics, the same scopes, instances, tasks and handlers, and the
same log. -/
theorem depth_limit_unmet {c : Context} {d : Nat} (hd : c.settings.maxDepth ≤ d) (m : Machine)
    (steps : Nat) :
    (∀ program r m', runProgram (evaluate steps) program c m = some (r, m') →
      ¬ Overflowed m m' →
        runProgram (evaluate steps) program (c.allowing d) m = some (r, m')) ∧
    (∀ node r m', evaluate steps node c m = some (r, m') → ¬ Overflowed m m' →
      evaluate steps node (c.allowing d) m = some (r, m')) := by
  constructor
  · intro program r m' hrun hfits
    have hprogram : (outside (d - c.settings.maxDepth)).custom Unit [] []
        (runProgram (evaluate steps) program) (runProgram (evaluate steps) program) :=
      outside_rules.runProgram (fun _ _ node => outside_evaluate steps node) program
    exact ended_of_follows hd hprogram hrun hfits
  · intro node r m' hrun hfits
    exact ended_of_follows hd (outside_evaluate steps node) hrun hfits

/-- One call fits where one is allowed, and so it does where more are. -/
theorem depth_limit_unmet_call :
    let program := Node.call (.spec ⟨1, none, [], [.text "a"], false, false, none⟩) []
    let c : Context := ⟨⟨1, false, none⟩, 0, [.scope 0]⟩
    let m := Machine.single (Scope.top .global)
    c.settings.maxDepth ≤ 2 ∧ ∃ m', runProgram (evaluate 3) program c m = some (.ok (), m') ∧
      ¬ Overflowed m m' ∧
        runProgram (evaluate 3) program (c.allowing 2) m = some (.ok (), m') := by
  intro program c m
  have hrun : ∃ m', runProgram (evaluate 3) program c m = some (.ok (), m') ∧
      m'.log = [.call Spec.anonymous 0 1] := ⟨_, rfl, rfl⟩
  obtain ⟨m', hrun, hlog⟩ := hrun
  have hfits : ¬ Overflowed m m' := by
    rintro ⟨entries, hentries, e, -, hmem⟩
    have hempty : m.log = [] := rfl
    rw [hlog, hempty, List.append_nil] at hentries
    rw [← hentries] at hmem
    cases List.mem_singleton.mp hmem
  have hd : c.settings.maxDepth ≤ 2 := Nat.le_succ 1
  exact ⟨hd, m', hrun, hfits, (depth_limit_unmet hd m 3).1 program (.ok ()) m' hrun hfits⟩

end Treewalk.Proofs
