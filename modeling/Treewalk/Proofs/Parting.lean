import Treewalk.Proofs.Containment

/-!
# `Treewalk.Proofs.Parting`: two evaluations that agree until one gives up

Some properties say that a run goes as it would have gone otherwise,
unless something has happened that ends it: a stream has failed, the
run was stopped, a call was one too many. What has happened shows as an
exit that is on its way out, and on its way it must not be taken for
anything else. So such a property does not say of an exit that is
looked at what it says of one that is not, and it is no discipline.

A `Parting` tells what is known of an evaluation that has ended.

* `Step`: it ended as the other one does, and this is how it moved the
  machine.
* `Doom`: it ended with an exit on which the two have parted company.
* `Lost`: they have parted for good, and nothing more is said.

A parting in lockstep also says of an evaluation that runs out of steps
that the other one does.

`Parting.Follows` relates two evaluations accordingly. `Laws` says what
a parting owes to the primitives; they then obey the basic rules. Where
nothing is doomed, `Laws.rules` adds that exits may be looked at. Else
`Laws.handle` asks of the one who looks at an exit that a doomed one
goes on its way.
-/

set_option autoImplicit false

namespace Treewalk

/-- What a node does about the outcome of its part. -/
def Evaluator.recovered : Except Exit Value → Eval Value
  | .ok v => pure v
  | .error (.fault f) => do
    Eval.report (.fault f)
    pure .nil
  | .error e => Eval.exit e

end Treewalk

namespace Treewalk.Proofs

open Yields (items)

theorem recovering_eq (x : Eval Value) :
    Evaluator.recovering x = Eval.outcome x >>= Evaluator.recovered :=
  rfl

/-- A node that has ended has dealt with the outcome of its part. -/
theorem recovering_ended {x : Eval Value} {c : Context} {m m' : Machine} {r : Except Exit Value}
    (h : Evaluator.recovering x c m = some (r, m')) :
    ∃ o m₁, x c m = some (o, m₁) ∧ Evaluator.recovered o c m₁ = some (r, m') := by
  rw [recovering_eq] at h
  obtain ⟨_, hexit, -⟩ | ⟨o, m₁, hended, hrest⟩ := Eval.bind_inv h
  · obtain ⟨_, -, hok⟩ := Eval.outcome_inv hexit
    cases hok
  · obtain ⟨_, hx, ho⟩ := Eval.outcome_inv hended
    cases ho
    exact ⟨o, m₁, hx, hrest⟩

/-! ### What cleaning up changes -/

/-- A store that has let go of what nobody held, again and again. The
references in `held` were held all the time. -/
inductive Vacated (held : List Ref) (s : Store) : Store → Prop where
  | same : Vacated held s s
  | release {t : Store} {others refs : List Ref} : held ⊆ others → Vacated held s t →
      Vacated held s (t.release others refs)

/-- A machine on which no more was done than to clean up: scopes and
instances were let go, calls and modules were counted out, and the log
was written. -/
structure Unwinds (held : List Ref) (m m' : Machine) : Prop where
  store : Vacated held m.store m'.store
  tasks : m'.tasks = m.tasks
  registry : m'.registry = m.registry
  out : m'.out = m.out
  err : m'.err = m.err
  input : m'.input = m.input
  interrupted : m'.interrupted = m.interrupted
  log : m.log <:+ m'.log

/-- A machine from which nothing was heard outside: the streams and the
flag are as they were. -/
structure Unheard (m m' : Machine) : Prop where
  out : m'.out = m.out
  err : m'.err = m.err
  input : m'.input = m.input
  interrupted : m'.interrupted = m.interrupted
  log : m.log <:+ m'.log

section
variable {held : List Ref} {s t u : Store} {m m' m'' : Machine}

theorem Unheard.of_eq (hout : m'.out = m.out) (herr : m'.err = m.err)
    (hinput : m'.input = m.input) (hflag : m'.interrupted = m.interrupted)
    (hlog : m'.log = m.log) : Unheard m m' :=
  ⟨hout, herr, hinput, hflag, hlog ▸ List.suffix_refl _⟩

theorem Unheard.note (e : LogEntry) : Unheard m (m.note e) :=
  ⟨rfl, rfl, rfl, rfl, List.suffix_cons ..⟩

theorem Vacated.trans (h : Vacated held s t) (h' : Vacated held t u) : Vacated held s u := by
  induction h' with
  | same => exact h
  | release hheld _ ih => exact .release hheld ih

theorem Unwinds.refl (m : Machine) : Unwinds held m m :=
  ⟨.same, rfl, rfl, rfl, rfl, rfl, rfl, List.suffix_refl _⟩

theorem Unwinds.trans (h : Unwinds held m m') (h' : Unwinds held m' m'') :
    Unwinds held m m'' where
  store := h.store.trans h'.store
  tasks := h'.tasks.trans h.tasks
  registry := h'.registry.trans h.registry
  out := h'.out.trans h.out
  err := h'.err.trans h.err
  input := h'.input.trans h.input
  interrupted := h'.interrupted.trans h.interrupted
  log := h.log.trans h'.log

theorem Unwinds.release {others : List Ref} (hheld : held ⊆ others) (refs : List Ref) :
    Unwinds held m (m.release others refs) :=
  ⟨.release hheld .same, rfl, rfl, rfl, rfl, rfl, rfl, List.suffix_refl _⟩

theorem Unwinds.note (e : LogEntry) : Unwinds held m (m.note e) :=
  ⟨.same, rfl, rfl, rfl, rfl, rfl, rfl, List.suffix_cons ..⟩

/-- Counting out is cleaning up. -/
theorem Unwinds.counters (depth : Nat) (bringing : List String) :
    Unwinds held m { m with depth, bringing } :=
  ⟨.same, rfl, rfl, rfl, rfl, rfl, rfl, List.suffix_refl _⟩

end

/-! ### Partings -/

/-- How evaluations may part company. `held` is held by whoever asked
for the first one, and the second one runs under other settings. -/
structure Parting where
  lockstep : Prop
  held : List Ref
  settings : Settings → Settings
  Step : Machine → Machine → Prop
  Doom : Machine → Exit → Machine → Prop
  Lost : Machine → Machine → Prop

namespace Parting

variable (p : Parting)

/-- Where the second evaluation runs. -/
def other (c : Context) : Context :=
  { c with settings := p.settings c.settings }

/-- How an evaluation ends, given what it means that the second one ends
in the same way. -/
inductive Ends {α : Type} (m : Machine) (r : Except Exit α) (m' : Machine) (same : Prop) :
    Prop where
  | together : p.Step m m' → same → Ends m r m' same
  | doomed (e : Exit) : r = .error e → p.Doom m e m' → Ends m r m' same
  | lost : p.Lost m m' → Ends m r m' same

/-- The second evaluation ends as the first one does, or they part
company. -/
structure Follows {α : Type} (x y : Eval α) : Prop where
  ends {c : Context} {m m' : Machine} {r : Except Exit α} : p.held ⊆ c.held →
    x c m = some (r, m') → p.Ends m r m' (y (p.other c) m = some (r, m'))
  starves {c : Context} {m : Machine} : p.lockstep → p.held ⊆ c.held → x c m = none →
    y (p.other c) m = none

/-- To follow does not depend on what is in hand. -/
def custom : Custom :=
  fun _ _ _ _ x y => p.Follows x y

/-- An evaluation that stays on the way and goes alike in both places. -/
structure Plain {α : Type} (x : Eval α) : Prop where
  same (c : Context) (m : Machine) : x (p.other c) m = x c m
  step {c : Context} {m m' : Machine} {r : Except Exit α} : x c m = some (r, m') → p.Step m m'

/-- What a parting owes to the primitives. -/
structure Laws : Prop where
  trans {a b c : Machine} : p.Step a b → p.Step b c → p.Step a c
  doom_after {a b c : Machine} {e : Exit} : p.Step a b → p.Doom b e c → p.Doom a e c
  lost_after {a b c : Machine} : p.Step a b → p.Lost b c → p.Lost a c
  lost_before {α : Type} {a b c : Machine} {r : Except Exit α} :
    p.Lost a b → p.Ends b r c True → p.Lost a c
  lockstep_lost {a b : Machine} : p.lockstep → ¬ p.Lost a b
  trace (σ : Settings) : (p.settings σ).trace = σ.trace
  modules (σ : Settings) : (p.settings σ).modules = σ.modules
  unheard {m m' : Machine} : Unheard m m' → p.Step m m'
  doom_release {m m' : Machine} {e : Exit} {others : List Ref} (refs : List Ref) :
    p.held ⊆ others → p.Doom m e m' → p.Doom m e (m'.release others refs)
  interrupt (m : Machine) : p.Step m { m with interrupted := true }
  out (m : Machine) (text : String) :
    let m' := { m with out := (m.out.offer text).2 }
    match (m.out.offer text).1 with
    | .refuse reason => p.Step m m' ∨ p.Doom m (.stream reason) m'
    | _ => p.Step m m'
  err (m : Machine) (text : String) :
    let m' := { m with err := (m.err.offer text).2 }
    match (m.err.offer text).1 with
    | .refuse reason => p.Step m m' ∨ p.Doom m (.stream reason) m'
    | _ => p.Step m m'
  input (m : Machine) :
    let m' := { m with input := m.input.readLine.2 }
    match m.input.readLine.1 with
    | .error reason => p.Step m m' ∨ p.Doom m (.stream reason) m'
    | .ok _ => p.Step m m'

variable {p}

theorem Ends.mono {α : Type} {m m' : Machine} {r : Except Exit α} {same same' : Prop}
    (h : p.Ends m r m' same) (hsame : same → same') : p.Ends m r m' same' := by
  cases h with
  | together hstep hs => exact .together hstep (hsame hs)
  | doomed e he hdoom => exact .doomed e he hdoom
  | lost hlost => exact .lost hlost

theorem Plain.follows {α : Type} {x : Eval α} (hx : p.Plain x) : p.Follows x x where
  ends _ hrun := .together (hx.step hrun) ((hx.same _ _).trans hrun)
  starves _ _ hnone := (hx.same _ _).trans hnone

theorem Follows.exhausted {α : Type} : p.Follows (α := α) Eval.exhausted Eval.exhausted where
  ends _ hrun := by cases hrun
  starves _ _ _ := rfl

theorem Follows.within {α : Type} {id : ScopeId} {x y : Eval α} (hx : p.Follows x y) :
    p.Follows (Eval.within id x) (Eval.within id y) where
  ends {c _ _ _} hheld hrun := hx.ends (c := { c with scope := id }) hheld hrun
  starves {c _} hlockstep hheld hnone :=
    hx.starves (c := { c with scope := id }) hlockstep hheld hnone

theorem Plain.outcome {α : Type} {x : Eval α} (hx : p.Plain x) : p.Plain (Eval.outcome x) where
  same c m := by
    unfold Eval.outcome
    rw [hx.same]
  step hrun := by
    obtain ⟨o, hended, rfl⟩ := Eval.outcome_inv hrun
    exact hx.step hended

/-- The parting under which other exits are doomed. -/
def dooming (p : Parting) (Doom : Machine → Exit → Machine → Prop) : Parting :=
  { p with Doom }

/-- What is done with an outcome lets a doomed exit go on its way. Where
it was looked at, other exits may be doomed than outside of there. -/
structure Lets (p : Parting) (Doom : Machine → Exit → Machine → Prop) {α β : Type}
    (k : Except Exit α → Eval β) : Prop where
  ends {a m m' : Machine} {e : Exit} {c : Context} {r : Except Exit β} : p.held ⊆ c.held →
    Doom a e m → k (.error e) c m = some (r, m') → p.Ends a r m' False
  returns {a m : Machine} {e : Exit} {c : Context} : p.lockstep → p.held ⊆ c.held →
    Doom a e m → k (.error e) c m ≠ none

namespace Laws

variable (h : p.Laws) {α β : Type}
include h

theorem same_unheard (m : Machine) : p.Step m m :=
  h.unheard (.of_eq rfl rfl rfl rfl rfl)

/-- After a first part on which both go together, the end is that of the
second part. -/
theorem ends_after {a b c : Machine} {r : Except Exit β} {same : Prop} (hstep : p.Step a b)
    (hends : p.Ends b r c same) : p.Ends a r c same := by
  cases hends with
  | together hstep' hsame => exact .together (h.trans hstep hstep') hsame
  | doomed e he hdoom => exact .doomed e he (h.doom_after hstep hdoom)
  | lost hlost => exact .lost (h.lost_after hstep hlost)

theorem bind {x y : Eval α} {f g : α → Eval β} (hx : p.Follows x y)
    (hf : ∀ a, p.Follows (f a) (g a)) : p.Follows (x >>= f) (y >>= g) where
  ends hheld hrun := by
    obtain ⟨e, hfirst, rfl⟩ | ⟨a, m₁, hfirst, hrest⟩ := Eval.bind_inv hrun
    · cases hx.ends hheld hfirst with
      | together hstep hsame => exact .together hstep (Eval.bind_of_error hsame)
      | doomed e' he hdoom =>
        cases he
        exact .doomed e rfl hdoom
      | lost hlost => exact .lost hlost
    · have hlast := (hf a).ends hheld hrest
      cases hx.ends hheld hfirst with
      | together hstep hsame =>
        refine h.ends_after hstep (hlast.mono fun hsame' => ?_)
        rw [Eval.bind_of_ok hsame, hsame']
      | doomed e' he _ => cases he
      | lost hlost => exact .lost (h.lost_before hlost (hlast.mono fun _ => trivial))
  starves hlockstep hheld hnone := by
    obtain hfirst | ⟨a, m₁, hfirst, hrest⟩ := Eval.bind_eq_none hnone
    · exact Eval.bind_of_none (hx.starves hlockstep hheld hfirst)
    · cases hx.ends hheld hfirst with
      | together _ hsame =>
        exact (Eval.bind_of_ok hsame).trans ((hf a).starves hlockstep hheld hrest)
      | doomed e' he _ => cases he
      | lost hlost => exact absurd hlost (h.lockstep_lost hlockstep)

/-- Letting go at the end does not bring two evaluations apart. -/
theorem ends_released {m m' : Machine} {r : Except Exit α} {others : List Ref} (refs : List Ref)
    (hothers : p.held ⊆ others) {same : Prop} (hends : p.Ends m r m' same) :
    p.Ends m r (m'.release others refs) same := by
  have hreleased : p.Step m' (m'.release others refs) := h.unheard (.of_eq rfl rfl rfl rfl rfl)
  cases hends with
  | together hstep hsame => exact .together (h.trans hstep hreleased) hsame
  | doomed e he hdoom => exact .doomed e he (h.doom_release refs hothers hdoom)
  | lost hlost => exact .lost (h.lost_before hlost (.together (r := r) hreleased trivial))

theorem holding [Owner α] (refs : List Ref) {x y : Eval α} (hx : p.Follows x y) :
    p.Follows (Eval.holding refs x) (Eval.holding refs y) where
  ends {c m _ r} hheld hrun := by
    obtain ⟨m₁, hinside, rfl⟩ := Eval.holding_inv hrun
    have hends := hx.ends (c := { c with held := refs ++ c.held })
      (List.subset_append_of_subset_right _ hheld) hinside
    exact h.ends_released refs (List.subset_append_of_subset_right _ hheld)
      (hends.mono fun hsame => Eval.holding_of_some (c := p.other c) hsame)
  starves {c m} hlockstep hheld hnone := by
    have hinside := Eval.holding_eq_none.mp hnone
    exact Eval.holding_eq_none.mpr
      (hx.starves hlockstep (List.subset_append_of_subset_right _ hheld) hinside)

omit h in
theorem plain_bind_same {x : Eval α} {f : α → Eval β} (hx : p.Plain x) (hf : ∀ a, p.Plain (f a))
    (c : Context) (m : Machine) : (x >>= f) (p.other c) m = (x >>= f) c m := by
  show Eval.bind x f (p.other c) m = Eval.bind x f c m
  unfold Eval.bind
  rw [hx.same]
  split
  · rfl
  · rfl
  · exact (hf _).same c _

theorem plain_bind {x : Eval α} {f : α → Eval β} (hx : p.Plain x) (hf : ∀ a, p.Plain (f a)) :
    p.Plain (x >>= f) where
  same := plain_bind_same hx hf
  step hrun := by
    obtain ⟨e, hfirst, rfl⟩ | ⟨a, m₁, hfirst, hrest⟩ := Eval.bind_inv hrun
    · exact hx.step hfirst
    · exact h.trans (hx.step hfirst) ((hf a).step hrest)

/-! ### Primitives -/

/-- A look that always has a result is plain. -/
theorem look {x : Eval α} {f : Context → Machine → α}
    (hx : ∀ c m, x c m = some (.ok (f c m), m)) (hf : ∀ c m, f (p.other c) m = f c m) :
    p.Plain x where
  same c m := by rw [hx, hx, hf]
  step {c m _ _} hrun := by
    rw [hx] at hrun
    cases hrun
    exact h.same_unheard m

theorem plain_pure (a : α) : p.Plain (pure a) :=
  h.look (f := fun _ _ => a) (fun _ _ => rfl) fun _ _ => rfl

/-- A change of the machine that is not heard outside is plain. -/
theorem change {x : Eval α} {f : Machine → Except Exit α × Machine}
    (hx : ∀ c m, x c m = some (f m)) (hf : ∀ m, Unheard m (f m).2) : p.Plain x where
  same c m := by rw [hx, hx]
  step {c m _ _} hrun := by
    rw [hx] at hrun
    have hunheard := hf m
    rw [Option.some.inj hrun] at hunheard
    exact h.unheard hunheard

theorem plain_exit (e : Exit) : p.Plain (Eval.exit e : Eval α) :=
  h.change (fun _ _ => rfl) fun _ => .of_eq rfl rfl rfl rfl rfl

theorem plain_ofOutcome (r : Except Exit α) : p.Plain (Eval.ofOutcome r) := by
  cases r with
  | ok a => exact h.plain_pure a
  | error e => exact h.plain_exit e

theorem settle {w : Context → Machine → Except Fault Written}
    (hw : ∀ c m, w (p.other c) m = w c m) :
    p.Plain fun c m => Eval.settle (w c m) c m where
  same c m := by
    rw [hw, Eval.settle_apply, Eval.settle_apply]
    rfl
  step {c m m' r} hrun := by
    have hend : Eval.settle (w c m) c m = some (r, m') := hrun
    rw [Eval.settle_apply] at hend
    split at hend <;> cases hend
    · exact h.same_unheard m
    · exact h.unheard (.of_eq rfl rfl rfl rfl rfl)

theorem copyBindings (target source : ScopeId) : p.Plain (Eval.copyBindings target source) where
  same c m := by
    rw [Eval.copyBindings_apply, Eval.copyBindings_apply]
    rfl
  step hrun := by
    rw [Eval.copyBindings_apply] at hrun
    cases hrun
    exact h.unheard (.of_eq rfl rfl rfl rfl rfl)

theorem noteVisit (node : Node) : p.Plain (Treewalk.noteVisit node) where
  same c m := by
    show (if (p.settings c.settings).trace then _ else (pure () : Eval Unit)) (p.other c) m =
      (if c.settings.trace then _ else (pure () : Eval Unit)) c m
    rw [h.trace]
    split <;> rfl
  step {c m m' r} hrun := by
    have hvisit : (if c.settings.trace then (do
        let kind := ((← Eval.machine).store.scope? c.scope).elim "" fun scope => scope.kind.name
        Eval.note (.visit node.kindName kind)) else (pure () : Eval Unit)) c m = some (r, m') :=
      hrun
    split at hvisit <;> cases hvisit
    · exact h.unheard (.note _)
    · exact h.same_unheard m

theorem startBring (path : String) : p.Plain (Evaluator.startBring path) where
  same c m := by
    have hmodules : (p.other c).settings.modules = c.settings.modules := h.modules c.settings
    rw [Evaluator.startBring_apply, Evaluator.startBring_apply, hmodules]
  step {c m _ _} hrun := by
    rw [Evaluator.startBring_apply] at hrun
    split at hrun
    · cases hrun
      exact h.same_unheard m
    · split at hrun <;> cases hrun
      · exact h.same_unheard m
      · exact h.unheard (.of_eq rfl rfl rfl rfl rfl)

/-- A sink is heeded on the machine that has made the offer. -/
theorem heed {a m : Machine} {reaction : Reaction} {c c' : Context} {m' : Machine}
    {r : Except Exit Unit}
    (hoffer : match reaction with
      | .refuse reason => p.Step a m ∨ p.Doom a (.stream reason) m
      | _ => p.Step a m)
    (hrun : Eval.heed reaction c m = some (r, m')) :
    p.Ends a r m' (Eval.heed reaction c' m = some (r, m')) := by
  cases reaction with
  | accept =>
    cases hrun
    exact .together hoffer rfl
  | acceptAndInterrupt =>
    cases hrun
    exact .together (h.trans hoffer (h.interrupt m)) rfl
  | refuse reason =>
    cases hrun
    rcases hoffer with hstep | hdoom
    · exact .together hstep rfl
    · exact .doomed _ rfl hdoom

omit h in
theorem heed_ne_none (reaction : Reaction) (c : Context) (m : Machine) :
    Eval.heed reaction c m ≠ none := by
  cases reaction <;> exact Option.some_ne_none _

theorem write (text : String) : p.Follows (Eval.write text) (Eval.write text) where
  ends {_ m _ _} _ hrun := h.heed (h.out m text) hrun
  starves _ _ hnone := absurd hnone (heed_ne_none _ _ _)

theorem diagnose (line : String) : p.Follows (Eval.diagnose line) (Eval.diagnose line) where
  ends {_ m _ _} _ hrun := h.heed (h.err m (line ++ "\n")) hrun
  starves _ _ hnone := absurd hnone (heed_ne_none _ _ _)

theorem readLine : p.Follows Eval.readLine Eval.readLine where
  ends {_ m _ _} _ hrun := by
    have hinput := h.input m
    cases hline : m.input.readLine.1 with
    | ok line =>
      rw [hline] at hinput
      rw [Eval.readLine_of_ok hline] at hrun
      cases hrun
      exact .together hinput (Eval.readLine_of_ok hline)
    | error reason =>
      rw [hline] at hinput
      rw [Eval.readLine_of_error hline] at hrun
      cases hrun
      rcases hinput with hstep | hdoom
      · exact .together hstep (Eval.readLine_of_error hline)
      · exact .doomed _ rfl hdoom
  starves {_ m} _ _ hnone := by
    cases hline : m.input.readLine.1 with
    | ok line => cases (Eval.readLine_of_ok hline).symm.trans hnone
    | error reason => cases (Eval.readLine_of_error hline).symm.trans hnone

theorem note (e : LogEntry) : p.Plain (Eval.note e) :=
  h.change (fun _ _ => rfl) fun _ => .note e

theorem report (e : Exit) : p.Follows (Eval.report e) (Eval.report e) :=
  h.bind (h.note _).follows fun _ => h.diagnose _

/-- What is plain is calm: nothing depends on what is in hand. -/
theorem calm {kept loose : List Item} {us : α → List Item} {x : Eval α} (hx : p.Plain x) :
    Calm p.custom kept loose us x x :=
  fun _ _ _ _ hf => h.bind hx.follows hf

theorem here : p.Plain Eval.here :=
  h.look (f := fun c _ => c.scope) (fun _ _ => rfl) fun _ _ => rfl

theorem newChild (above : ScopeId) (kind : ScopeKind) : p.Plain (Eval.newChild above kind) :=
  h.change (fun _ _ => rfl) fun _ => .of_eq rfl rfl rfl rfl rfl

/-- The primitives obey the basic rules. -/
theorem basics : Basics p.custom where
  result a _ := (h.plain_pure a).follows
  bind hx hf := h.bind hx hf
  exit e _ := (h.plain_exit e).follows
  holding _ _ hx := h.holding _ hx
  here hf := h.bind h.here.follows hf
  within _ hx := hx.within
  newExports := h.calm (h.change (fun _ _ => rfl)
    fun _ => .of_eq rfl rfl rfl rfl rfl)
  newPart _ _ := h.calm (h.newChild _ _)
  newFrame _ hf := h.bind (h.newChild _ _).follows fun id => h.holding _ (hf id)
  newInstance _ := (h.change (fun _ _ => rfl)
    fun _ => .of_eq rfl rfl rfl rfl rfl).follows
  lookup? name := h.calm (h.look (f := fun c m => m.store.lookup? c.scope name)
    (fun _ _ => rfl) fun _ _ => rfl)
  getLocal? {_ _ id} name _ := h.calm (h.look (f := fun _ m => m.store.getLocal? id name)
    (fun _ _ => rfl) fun _ _ => rfl)
  boundCount id := h.calm (h.look
    (f := fun _ m => (m.store.scope? id).elim 0 fun scope => scope.bindings.length)
    (fun _ _ => rfl) fun _ _ => rfl)
  declareIn {_ _ id} name {b} _ _ :=
    (h.settle (w := fun _ m => m.store.declare id name b) fun _ _ => rfl).follows
  assign {_ _} name {v} _ :=
    (h.settle (w := fun c m => m.store.assign c.scope name v) fun _ _ => rfl).follows
  copyBindings _ _ := (h.copyBindings _ _).follows
  write := h.write
  readLine := h.readLine
  report := h.report
  note _ := h.calm (h.note _)
  noteVisit node := (h.noteVisit node).follows
  handlersOf event := (h.look (f := fun _ m => m.registry.handlers event)
    (fun _ _ => rfl) fun _ _ => rfl).follows

theorem nodeRules : NodeRules p.custom where
  nearestExports? := h.calm (h.look (f := fun c m => m.store.nearestExports? c.scope)
    (fun _ _ => rfl) fun _ _ => rfl)
  exportIn {_ _ id} name {v} _ _ :=
    (h.settle (w := fun _ m => m.store.declare id name (.ofValue v)) fun _ _ => rfl).follows
  code _ _ _ _ _ _ _ hx := hx
  exhausted := .exhausted
  trigger _ _ := (h.change (fun _ _ => rfl)
    fun _ => .of_eq rfl rfl rfl rfl rfl).follows

theorem checkInterrupt : p.Plain Eval.checkInterrupt :=
  h.change Eval.checkInterrupt_apply fun _ => .of_eq rfl rfl rfl rfl rfl

theorem taskRules : TaskRules p.custom where
  enqueue _ := (h.change (fun _ _ => rfl) fun _ => .of_eq rfl rfl rfl rfl rfl).follows
  takeTasks := (h.change (fun _ _ => rfl) fun _ => .of_eq rfl rfl rfl rfl rfl).follows
  register _ _ := (h.change (fun _ _ => rfl) fun _ => .of_eq rfl rfl rfl rfl rfl).follows

/-! ### Exits that are handled -/

/-- An outcome may be looked at if what is done with it lets a doomed
exit go on its way. -/
theorem handle {Doom : Machine → Exit → Machine → Prop} {x y : Eval α}
    {k l : Except Exit α → Eval β} (hx : (p.dooming Doom).Follows x y)
    (hk : ∀ r, p.Follows (k r) (l r)) (hlets : p.Lets Doom k) :
    p.Follows (Eval.outcome x >>= k) (Eval.outcome y >>= l) where
  ends {c m m' r} hheld hrun := by
    obtain ⟨_, hexit, -⟩ | ⟨o, m₁, hfirst, hrest⟩ := Eval.bind_inv hrun
    · obtain ⟨_, -, hok⟩ := Eval.outcome_inv hexit
      cases hok
    · obtain ⟨_, hended, ho⟩ := Eval.outcome_inv hfirst
      cases ho
      cases hx.ends hheld hended with
      | together hstep hsame =>
        have hended' : y (p.other c) m = some (o, m₁) := hsame
        refine h.ends_after hstep (((hk o).ends hheld hrest).mono fun hsame' => ?_)
        rw [Eval.bind_of_ok (Eval.outcome_of_some hended'), hsame']
      | doomed e he hdoom =>
        cases he
        exact (hlets.ends hheld hdoom hrest).mono False.elim
      | lost hlost =>
        exact .lost (h.lost_before hlost (((hk o).ends hheld hrest).mono fun _ => trivial))
  starves {c m} hlockstep hheld hnone := by
    obtain hfirst | ⟨o, m₁, hfirst, hrest⟩ := Eval.bind_eq_none hnone
    · have hended := hx.starves hlockstep hheld (Eval.outcome_eq_none.mp hfirst)
      exact Eval.bind_of_none (Eval.outcome_eq_none.mpr hended)
    · obtain ⟨_, hended, ho⟩ := Eval.outcome_inv hfirst
      cases ho
      cases hx.ends hheld hended with
      | together _ hsame =>
        have hended' : y (p.other c) m = some (o, m₁) := hsame
        rw [Eval.bind_of_ok (Eval.outcome_of_some hended')]
        exact (hk o).starves hlockstep hheld hrest
      | doomed e he hdoom =>
        cases he
        exact absurd hrest (hlets.returns hlockstep hheld hdoom)
      | lost hlost => exact absurd hlost (h.lockstep_lost hlockstep)

/-- A node deals with all outcomes in both places alike. -/
theorem recovered (r : Except Exit Value) :
    p.Follows (Evaluator.recovered r) (Evaluator.recovered r) := by
  unfold Evaluator.recovered
  split
  · exact (h.plain_pure _).follows
  · exact h.bind (h.report _) fun _ => (h.plain_pure _).follows
  · exact (h.plain_exit _).follows

/-- Where nothing is doomed, every outcome may be looked at. -/
theorem rules (hnone : ∀ a e m, ¬ p.Doom a e m) : Rules p.custom where
  toBasics := h.basics
  outcome {α} _ _ _ {x y} hx := by
    have hpure : p.Follows (Eval.outcome x >>= pure) (Eval.outcome y >>= pure) :=
      h.handle hx (fun r => (h.plain_pure r).follows)
        { ends := fun _ hdoom _ => absurd hdoom (hnone _ _ _)
          returns := fun _ _ hdoom => absurd hdoom (hnone _ _ _) }
    rwa [bind_pure, bind_pure] at hpure
  checkInterrupt := h.checkInterrupt.follows

/-! ### Calls -/

/-- Under the same limit a call is counted in or refused alike. -/
theorem enterCall (hlimit : ∀ σ, (p.settings σ).maxDepth = σ.maxDepth) :
    p.Plain Evaluator.enterCall where
  same c m := by
    have hmax : (p.other c).settings.maxDepth = c.settings.maxDepth := hlimit c.settings
    rw [Evaluator.enterCall_apply, Evaluator.enterCall_apply, hmax]
  step {c m _ _} hrun := by
    rw [Evaluator.enterCall_apply] at hrun
    split at hrun <;> cases hrun
    · exact h.same_unheard m
    · exact h.unheard (.of_eq rfl rfl rfl rfl rfl)

theorem declareLocals (locals : List (String × Value)) :
    p.Plain (Evaluator.declareLocals locals) := by
  induction locals with
  | nil => exact h.plain_pure ()
  | cons first rest ih =>
    refine h.plain_bind (?_ : p.Plain (Eval.declare first.1 (.ofValue first.2))) fun _ => ih
    exact h.settle (w := fun c m => m.store.declare c.scope first.1 (.ofValue first.2))
      fun _ _ => rfl

theorem finishCall (name : String) (r : Except Exit Unit) :
    p.Follows
      (do
        Evaluator.exitCall
        Evaluator.finishCall name r)
      (do
        Evaluator.exitCall
        Evaluator.finishCall name r) := by
  have hleave : p.Plain Evaluator.exitCall :=
    h.change (fun _ _ => rfl) fun _ => .of_eq rfl rfl rfl rfl rfl
  refine h.bind hleave.follows fun _ => ?_
  unfold Evaluator.finishCall
  split
  · exact (h.plain_pure _).follows
  · exact (h.plain_pure _).follows
  · exact h.bind (h.note _).follows fun _ => (h.plain_pure _).follows
  · exact (h.plain_exit _).follows

theorem plain_finishBring : p.Plain Evaluator.finishBring :=
  h.change (fun _ _ => rfl) fun _ => .of_eq rfl rfl rfl rfl rfl

/-- A call goes alike if counting it in does, and what is done with the
outcome of its body. -/
theorem invoke (name : String) (arity : Nat) (locals : List (String × Value)) {x y : Eval Unit}
    (henter : p.Follows Evaluator.enterCall Evaluator.enterCall)
    (hbody : ∀ bound, p.Follows
      (Eval.outcome (do
        Eval.ofOutcome bound
        x) >>= fun result => do
          Evaluator.exitCall
          Evaluator.finishCall name result)
      (Eval.outcome (do
        Eval.ofOutcome bound
        y) >>= fun result => do
          Evaluator.exitCall
          Evaluator.finishCall name result)) :
    p.Follows (Evaluator.invoke name arity locals x) (Evaluator.invoke name arity locals y) := by
  have hprepare : p.Plain (Evaluator.prepareCall name arity locals) := by
    refine h.plain_bind (h.look (f := fun _ m => m.depth) (fun _ _ => rfl) fun _ _ => rfl)
      fun d => ?_
    exact h.plain_bind (h.note _) fun _ => (h.declareLocals locals).outcome
  unfold Evaluator.invoke Evaluator.runCall
  rw [bind_assoc, bind_assoc]
  exact h.bind (h.holding _ (h.bind henter fun _ => hprepare.follows)) hbody

end Laws

end Parting

end Treewalk.Proofs
