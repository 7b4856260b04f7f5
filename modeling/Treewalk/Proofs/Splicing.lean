import Treewalk.Proofs.Attempts
import Treewalk.Proofs.Parting
import Treewalk.Proofs.Unaware

/-!
# `Treewalk.Proofs.Splicing`: a module runs as if it stood where it is brought

A module that is being brought is on a stack until its statements have
run. The stack is there for one question only: whether a module is asked
for that is being brought already. So bringing a module does what its
statements would do in its place, unless they ask for the module again:
`bring_splices`. And where a module is asked for that is being brought,
no source of modules is consulted, and nothing happens but that this is
reported.

Two runs of the same statements are compared. In the first one the
module is on the stack, and in the second one it is not, so the stacks
differ all the way. `Regardless` says that the two end alike or that
the module has been asked for. In the second run this is granted, and
the log tells so. In the first run it is refused, and the fault is on
its way to the node that asked. From there on it is in the log. So
inside of a node a refusal may be on its way (`Cyclic path`), and
outside of it none ever is (`Never`).
-/

set_option autoImplicit false

namespace Treewalk

/-- Whether an entry tells that a module is going to be brought. -/
def LogEntry.Grants (path : String) : LogEntry → Prop
  | .bring p _ => p = path
  | _ => False

/-- Whether an entry tells that a module is not brought again. -/
def LogEntry.Refuses (path : String) (e : LogEntry) : Prop :=
  e = .reported (.fault (.load path .cycle))

/-- The machine after the module begun last is taken off the stack. -/
def Machine.popped (m : Machine) : Machine :=
  { m with bringing := m.bringing.tail }

/-- The context with another source of modules. -/
def Context.loading (c : Context) (modules : Option ModuleSource) : Context :=
  { c with settings := { c.settings with modules } }

end Treewalk

namespace Treewalk.Proofs

/-! ### Logs that are written on -/

/-- A log has been written on, and an entry of a sort is among what was
written. -/
def Logged (p : LogEntry → Prop) (before log : List LogEntry) : Prop :=
  ∃ entries, log = entries ++ before ∧ ∃ e ∈ entries, p e

/-- Whatever way it ends, an evaluation has written on the log. -/
def Writes {α : Type} (x : Eval α) : Prop :=
  ∀ c m r m', x c m = some (r, m') → m.log <:+ m'.log

section
variable {p : LogEntry → Prop} {a b c : List LogEntry}

theorem Logged.exists_mem (h : Logged p a b) : ∃ e ∈ b, p e := by
  obtain ⟨entries, rfl, e, hmem, he⟩ := h
  exact ⟨e, by simp [hmem], he⟩

theorem Logged.later (h : Logged p a b) (h' : b <:+ c) : Logged p a c := by
  obtain ⟨entries, rfl, e, hmem, he⟩ := h
  obtain ⟨after, rfl⟩ := h'
  exact ⟨after ++ entries, by simp, e, by simp [hmem], he⟩

theorem Logged.earlier (h : Logged p b c) (h' : a <:+ b) : Logged p a c := by
  obtain ⟨entries, rfl, e, hmem, he⟩ := h
  obtain ⟨between, rfl⟩ := h'
  exact ⟨entries ++ between, by simp, e, by simp [hmem], he⟩

end

section
variable {α β : Type}

theorem Writes.bind {x : Eval α} {f : α → Eval β} (hx : Writes x) (hf : ∀ a, Writes (f a)) :
    Writes (x >>= f) := by
  intro c m r m' h
  obtain ⟨e, hfirst, -⟩ | ⟨a, m₁, hfirst, hrest⟩ := Eval.bind_inv h
  · exact hx _ _ _ _ hfirst
  · exact (hx _ _ _ _ hfirst).trans (hf a _ _ _ _ hrest)

theorem Writes.outcome {x : Eval α} (hx : Writes x) : Writes (Eval.outcome x) := by
  intro c m r m' h
  obtain ⟨o, hended, -⟩ := Eval.outcome_inv h
  exact hx _ _ _ _ hended

theorem Writes.holding [Owner α] {refs : List Ref} {x : Eval α} (hx : Writes x) :
    Writes (Eval.holding refs x) := by
  intro c m r m' h
  obtain ⟨m₁, hended, rfl⟩ := Eval.holding_inv h
  have hwritten : m.log <:+ m₁.log := hx _ _ _ _ hended
  exact hwritten

theorem Writes.note (e : LogEntry) : Writes (Eval.note e) := by
  intro c m r m' h
  cases h
  exact List.suffix_cons ..

/-- What a visit writes depends neither on the stack of modules nor on
the log. -/
theorem noteVisit_entries (node : Node) (c : Context) (m : Machine) :
    ∃ visits, ∀ bringing log, noteVisit node c { m with bringing, log } =
      some (.ok (), { m with bringing, log := visits ++ log }) := by
  by_cases htrace : c.settings.trace = true
  · let visit : LogEntry :=
      .visit node.kindName ((m.store.scope? c.scope).elim "" fun scope => scope.kind.name)
    refine ⟨[visit], fun bringing log => ?_⟩
    show (if c.settings.trace then _ else (pure () : Eval Unit)) c _ = _
    rw [if_pos htrace]
    rfl
  · refine ⟨[], fun bringing log => ?_⟩
    show (if c.settings.trace then _ else (pure () : Eval Unit)) c _ = _
    rw [if_neg htrace]
    rfl

/-- A visit has nothing to do with where modules come from. -/
theorem noteVisit_of_loading (node : Node) (c : Context) (modules : Option ModuleSource)
    (m : Machine) : noteVisit node (c.loading modules) m = noteVisit node c m := by
  show (if c.settings.trace then _ else (pure () : Eval Unit)) (c.loading modules) m =
    (if c.settings.trace then _ else (pure () : Eval Unit)) c m
  split <;> rfl

end

/-! ### Evaluations aside from the stack and the log -/

/-- An evaluation that neither reads nor changes the stack of modules
and the log. -/
def Aside {α : Type} (x : Eval α) : Prop :=
  ∀ (c : Context) (m : Machine) (bringing : List String) (log : List LogEntry),
    x c { m with bringing, log } =
      (x c m).map fun (r, m') => (r, { m' with bringing, log })

theorem Aside.writes {α : Type} {x : Eval α} (hx : Aside x) : Writes x := by
  intro c m r m' h
  have hself : x c m = (x c m).map fun (r, m') =>
      (r, { m' with bringing := m.bringing, log := m.log }) := hx c m m.bringing m.log
  rw [h] at hself
  injection hself with hend
  injection hend with _ hmachine
  have hlog : m'.log = m.log := by rw [hmachine]
  exact hlog ▸ List.suffix_refl _

theorem Aloof.aside {α : Type} {x : Eval α} (hx : Aloof x) : Aside x := by
  intro c m bringing log
  have hsame : x c { m with bringing, log } =
      (x c m).map fun (r, m') => (r, { m' with tasks := m.tasks, bringing, log }) :=
    hx c m c.settings.trace m.tasks bringing log
  rw [hsame]
  rcases hends : x c m with _ | ⟨r, m'⟩
  · rfl
  · have htasks : m'.tasks = m.tasks := (hx.leaves hends).1
    show some (r, { m' with tasks := m.tasks, bringing, log }) = some (r, { m' with bringing, log })
    rw [← htasks]

/-! ### With and without a module on the stack -/

/-- The exit of a request for a module that is being brought. -/
def Cyclic (path : String) (e : Exit) : Prop :=
  e = .fault (.load path .cycle)

/-- No exit. -/
abbrev Never (_ : Exit) : Prop :=
  False

section
variable {α β : Type} {path : String} {OnItsWay : Exit → Prop} {xs ys : List String}
  {before before' : List LogEntry}

/-- The end of an evaluation that has been refused a module: this is in
the log, or on its way there. -/
def Declined (path : String) (OnItsWay : Exit → Prop) (before : List LogEntry)
    (r : Except Exit α) (log : List LogEntry) : Prop :=
  (∃ e, r = .error e ∧ OnItsWay e ∧ before <:+ log) ∨ Logged (LogEntry.Refuses path) before log

/-- The ends of two evaluations. During the first one a module was on
the stack, below those in `xs`, and during the second one it was not.
Above what the logs had before, they have the same entries. Or the
module has been asked for, and refused to the first one and granted to
the second one. -/
inductive Alike (path : String) (OnItsWay : Exit → Prop) (xs ys : List String)
    (before before' : List LogEntry) :
    Option (Except Exit α × Machine) → Option (Except Exit α × Machine) → Prop where
  | exhausted : Alike path OnItsWay xs ys before before' none none
  | ended (r : Except Exit α) (m : Machine) (entries : List LogEntry) :
      Alike path OnItsWay xs ys before before'
        (some (r, { m with bringing := xs ++ path :: ys, log := entries ++ before }))
        (some (r, { m with bringing := xs ++ ys, log := entries ++ before' }))
  | parted {o o' : Option (Except Exit α × Machine)} :
      (∀ r m, o = some (r, m) → Declined path OnItsWay before r m.log) →
      (∀ r m, o' = some (r, m) → Logged (LogEntry.Grants path) before' m.log) →
      Alike path OnItsWay xs ys before before' o o'

/-- Two evaluations that end alike, the first one with a module on the
stack and the second one without, if the source of modules has it. -/
structure Regardless (path : String) (OnItsWay : Exit → Prop) (x y : Eval α) : Prop where
  alike {c : Context} {xs ys : List String} (m : Machine)
    (entries before before' : List LogEntry) :
    (∃ statements, Evaluator.findModule c.settings.modules path = .ok statements) →
      path ∉ xs → path ∉ ys →
        Alike path OnItsWay xs ys before before'
          (x c { m with bringing := xs ++ path :: ys, log := entries ++ before })
          (y c { m with bringing := xs ++ ys, log := entries ++ before' })
  first : Writes x
  second : Writes y

/-- What is in hand does not matter. -/
def regardless (path : String) (OnItsWay : Exit → Prop) : Custom :=
  fun _ _ _ _ x y => Regardless path OnItsWay x y

theorem Alike.inv {o o' : Option (Except Exit α × Machine)}
    (h : Alike path OnItsWay xs ys before before' o o') :
    (o = none ∧ o' = none) ∨
      (∃ (r : Except Exit α) (m : Machine) (entries : List LogEntry),
        o = some (r, { m with bringing := xs ++ path :: ys, log := entries ++ before }) ∧
          o' = some (r, { m with bringing := xs ++ ys, log := entries ++ before' })) ∨
        (∀ r m, o = some (r, m) → Declined path OnItsWay before r m.log) ∧
          ∀ r m, o' = some (r, m) → Logged (LogEntry.Grants path) before' m.log := by
  cases h with
  | exhausted => exact .inl ⟨rfl, rfl⟩
  | ended r m entries => exact .inr (.inl ⟨r, m, entries, rfl, rfl⟩)
  | parted hfirst hsecond => exact .inr (.inr ⟨hfirst, hsecond⟩)

theorem Declined.logged {r : Except Exit α} {log : List LogEntry}
    (h : Declined path Never before r log) : Logged (LogEntry.Refuses path) before log := by
  obtain ⟨e, -, hnever, -⟩ | hlogged := h
  · exact hnever.elim
  · exact hlogged

/-- An exit is the same exit for whatever would have come after. -/
theorem Declined.exited {e : Exit} {log : List LogEntry}
    (h : Declined path OnItsWay before (.error e : Except Exit α) log) :
    Declined path OnItsWay before (.error e : Except Exit β) log := by
  obtain ⟨_, he, hway⟩ | hlogged := h
  · cases he
    exact .inl ⟨e, rfl, hway⟩
  · exact .inr hlogged

/-- What has gone on after a value finds the refusal in the log. -/
theorem Declined.logged_of_ok {a : α} {log : List LogEntry}
    (h : Declined path OnItsWay before (.ok a) log) :
    Logged (LogEntry.Refuses path) before log := by
  obtain ⟨e, hok, -⟩ | hlogged := h
  · cases hok
  · exact hlogged

theorem Alike.inside {o o' : Option (Except Exit α × Machine)}
    (h : Alike path Never xs ys before before' o o') :
    Alike path OnItsWay xs ys before before' o o' := by
  cases h with
  | exhausted => exact .exhausted
  | ended r m entries => exact .ended r m entries
  | parted hfirst hsecond => exact .parted (fun r m hx => .inr (hfirst r m hx).logged) hsecond

namespace Regardless

/-- What is aside from the stack and the log ends alike. -/
theorem of_aside {x : Eval α} (hx : Aside x) : Regardless path OnItsWay x x where
  alike {c xs ys} m entries before before' _ _ _ := by
    rw [hx c m (xs ++ path :: ys), hx c m (xs ++ ys)]
    rcases x c m with _ | ⟨r, m'⟩
    · exact .exhausted
    · exact .ended r m' entries
  first := hx.writes
  second := hx.writes

theorem bind {x y : Eval α} {f g : α → Eval β} (hx : Regardless path OnItsWay x y)
    (hf : ∀ a, Regardless path OnItsWay (f a) (g a)) :
    Regardless path OnItsWay (x >>= f) (y >>= g) where
  alike m entries before before' hserved hxs hys := by
    obtain ⟨hx, hy⟩ | ⟨r, m₁, entries₁, hx, hy⟩ | ⟨hfirst, hsecond⟩ :=
      (hx.alike m entries before before' hserved hxs hys).inv
    · rw [Eval.bind_of_none hx, Eval.bind_of_none hy]
      exact .exhausted
    · cases r with
      | ok a =>
        rw [Eval.bind_of_ok hx, Eval.bind_of_ok hy]
        exact (hf a).alike m₁ entries₁ before before' hserved hxs hys
      | error e =>
        rw [Eval.bind_of_error hx, Eval.bind_of_error hy]
        exact .ended _ m₁ entries₁
    · -- What comes after only writes on the logs.
      refine .parted (fun r m₂ hrun => ?_) fun r m₂ hrun => ?_
      · obtain ⟨e, hx, rfl⟩ | ⟨a, m₁, hx, hrest⟩ := Eval.bind_inv hrun
        · exact (hfirst _ _ hx).exited
        · exact .inr ((hfirst _ _ hx).logged_of_ok.later ((hf a).first _ _ _ _ hrest))
      · obtain ⟨e, hy, rfl⟩ | ⟨a, m₁, hy, hrest⟩ := Eval.bind_inv hrun
        · exact hsecond _ _ hy
        · exact (hsecond _ _ hy).later ((hf a).second _ _ _ _ hrest)
  first := hx.first.bind fun a => (hf a).first
  second := hx.second.bind fun a => (hf a).second

theorem outcome {x y : Eval α} (hx : Regardless path Never x y) :
    Regardless path Never (Eval.outcome x) (Eval.outcome y) where
  alike m entries before before' hserved hxs hys := by
    obtain ⟨hx, hy⟩ | ⟨r, m₁, entries₁, hx, hy⟩ | ⟨hfirst, hsecond⟩ :=
      (hx.alike m entries before before' hserved hxs hys).inv
    · rw [Eval.outcome_eq_none.mpr hx, Eval.outcome_eq_none.mpr hy]
      exact .exhausted
    · rw [Eval.outcome_of_some hx, Eval.outcome_of_some hy]
      exact .ended (.ok r) m₁ entries₁
    · refine .parted (fun r m₁ hrun => ?_) fun r m₁ hrun => ?_
      · obtain ⟨o, hended, -⟩ := Eval.outcome_inv hrun
        exact .inr (hfirst _ _ hended).logged
      · obtain ⟨o, hended, -⟩ := Eval.outcome_inv hrun
        exact hsecond _ _ hended
  first := hx.first.outcome
  second := hx.second.outcome

theorem holding [Owner α] (refs : List Ref) {x y : Eval α} (hx : Regardless path OnItsWay x y) :
    Regardless path OnItsWay (Eval.holding refs x) (Eval.holding refs y) where
  alike {c _ _} m entries before before' hserved hxs hys := by
    obtain ⟨hx, hy⟩ | ⟨r, m₁, entries₁, hx, hy⟩ | ⟨hfirst, hsecond⟩ :=
      (hx.alike (c := { c with held := refs ++ c.held }) m entries before before' hserved hxs
        hys).inv
    · rw [Eval.holding_eq_none.mpr hx, Eval.holding_eq_none.mpr hy]
      exact .exhausted
    · rw [Eval.holding_of_some hx, Eval.holding_of_some hy]
      exact .ended r (m₁.release (Owner.refs r ++ c.held) refs) entries₁
    · refine .parted (fun r m₁ hrun => ?_) fun r m₁ hrun => ?_
      · obtain ⟨m₂, hended, rfl⟩ := Eval.holding_inv hrun
        have hdeclined : Declined path OnItsWay before r m₂.log := hfirst _ _ hended
        exact hdeclined
      · obtain ⟨m₂, hended, rfl⟩ := Eval.holding_inv hrun
        have hlogged : Logged (LogEntry.Grants path) before' m₂.log := hsecond _ _ hended
        exact hlogged
  first := hx.first.holding
  second := hx.second.holding

theorem within {id : ScopeId} {x y : Eval α} (hx : Regardless path OnItsWay x y) :
    Regardless path OnItsWay (Eval.within id x) (Eval.within id y) where
  alike {c _ _} m := hx.alike (c := { c with scope := id }) m
  first c := hx.first { c with scope := id }
  second c := hx.second { c with scope := id }

/-- What holds outside of nodes holds inside. -/
theorem inside {x y : Eval α} (hx : Regardless path Never x y) :
    Regardless path OnItsWay x y where
  alike m entries before before' hserved hxs hys :=
    (hx.alike m entries before before' hserved hxs hys).inside
  first := hx.first
  second := hx.second

theorem note (e : LogEntry) : Regardless path OnItsWay (Eval.note e) (Eval.note e) where
  alike m entries _ _ _ _ _ := .ended (.ok ()) m (e :: entries)
  first := .note e
  second := .note e

theorem noteVisit (node : Node) :
    Regardless path OnItsWay (Treewalk.noteVisit node) (Treewalk.noteVisit node) := by
  have hwrites : Writes (Treewalk.noteVisit node) := by
    intro c m r m' h
    obtain ⟨visits, hnoted⟩ := noteVisit_entries node c m
    cases (hnoted m.bringing m.log).symm.trans h
    exact List.suffix_append ..
  refine ⟨fun {c xs ys} m entries before before' _ _ _ => ?_, hwrites, hwrites⟩
  obtain ⟨visits, hnoted⟩ := noteVisit_entries node c m
  have hends : Alike path OnItsWay xs ys before before'
      (some (.ok (), { m with bringing := xs ++ path :: ys, log := (visits ++ entries) ++ before }))
      (some (.ok (), { m with bringing := xs ++ ys, log := (visits ++ entries) ++ before' })) :=
    .ended (.ok ()) m (visits ++ entries)
  rw [hnoted, hnoted]
  rwa [List.append_assoc, List.append_assoc] at hends

theorem report (e : Exit) : Regardless path OnItsWay (Eval.report e) (Eval.report e) :=
  .bind (.note _) fun _ => .of_aside (Aloof.diagnose _).aside

/-- Nothing depends on what is in hand. -/
theorem calm {kept loose : List Item} {us : α → List Item} {x : Eval α}
    (hx : Regardless path OnItsWay x x) : Calm (regardless path OnItsWay) kept loose us x x :=
  fun _ _ _ _ hf => .bind hx hf

end Regardless

end

/-! ### Rules -/

section
variable {path : String}

theorem regardless_basics (OnItsWay : Exit → Prop) : Basics (regardless path OnItsWay) where
  result _ _ := .of_aside fun _ _ _ _ => rfl
  bind hx hf := .bind hx hf
  exit _ _ := .of_aside fun _ _ _ _ => rfl
  holding _ _ hx := .holding _ hx
  here hf := .bind (.of_aside fun _ _ _ _ => rfl) hf
  within _ hx := .within hx
  newExports := Regardless.calm (.of_aside fun _ _ _ _ => rfl)
  newPart _ _ := Regardless.calm (.of_aside fun _ _ _ _ => rfl)
  newFrame _ hf := .bind (.of_aside fun _ _ _ _ => rfl) fun id => .holding _ (hf id)
  newInstance _ := .of_aside fun _ _ _ _ => rfl
  lookup? _ := Regardless.calm (.of_aside fun _ _ _ _ => rfl)
  getLocal? _ _ := Regardless.calm (.of_aside fun _ _ _ _ => rfl)
  boundCount _ := Regardless.calm (.of_aside fun _ _ _ _ => rfl)
  declareIn name _ _ _ := .of_aside (Aloof.declareIn _ name _).aside
  assign name _ _ := .of_aside (Aloof.assign name _).aside
  copyBindings _ _ := .of_aside (Aloof.copyBindings _ _).aside
  write text := .of_aside (Aloof.write text).aside
  readLine := .of_aside Aloof.readLine.aside
  report e := .report e
  note _ := Regardless.calm (.note _)
  noteVisit node := .noteVisit node
  handlersOf _ := .of_aside fun _ _ _ _ => rfl

theorem regardless_nodeRules (OnItsWay : Exit → Prop) :
    NodeRules (regardless path OnItsWay) where
  nearestExports? := Regardless.calm (.of_aside fun _ _ _ _ => rfl)
  exportIn name _ _ _ := .of_aside (Aloof.declareIn _ name _).aside
  code _ _ _ _ _ _ _ hx := hx
  exhausted := .of_aside fun _ _ _ _ => rfl
  trigger _ _ := .of_aside fun _ _ _ _ => rfl

theorem regardless_taskRules (OnItsWay : Exit → Prop) :
    TaskRules (regardless path OnItsWay) where
  enqueue _ := .of_aside fun _ _ _ _ => rfl
  takeTasks := .of_aside fun _ _ _ _ => rfl
  register _ _ := .of_aside fun _ _ _ _ => rfl

theorem regardless_rules : Rules (regardless path Never) where
  toBasics := regardless_basics Never
  outcome hx := .outcome hx
  checkInterrupt := .of_aside Aloof.checkInterrupt.aside

/-- No refusal comes out of a call, whose body is made of nodes. -/
theorem regardless_calling :
    Calling (regardless path (Cyclic path)) (regardless path Never) where
  toBasics := regardless_basics _
  invoke name arity _ x y hlocals hbody := by
    have hcalling : Calling (regardless path Never) (regardless path Never) :=
      .of_counters regardless_rules (fun _ _ => .of_aside Aloof.enterCall.aside)
        (fun _ _ => .of_aside fun _ _ _ _ => rfl)
        fun _ _ => Regardless.calm (.of_aside fun _ _ _ _ => rfl)
    exact Regardless.inside (hcalling.invoke name arity hlocals hbody)

end

/-! ### The bringing of a module -/

section
variable {ev : Evaluator} {path : String} {c : Context} {m : Machine}

/-- A module that is being brought is not looked for. -/
theorem splice_of_brought (h : path ∈ m.bringing) :
    Evaluator.splice ev path c m = some (.error (.fault (.load path .cycle)), m) := by
  refine Eval.bind_of_error ?_
  rw [Evaluator.startBring_apply, if_pos (List.contains_iff_mem.mpr h)]

theorem splice_of_missing {problem : LoadProblem} (hnew : path ∉ m.bringing)
    (hfound : Evaluator.findModule c.settings.modules path = .error problem) :
    Evaluator.splice ev path c m = some (.error (.fault (.load path problem)), m) := by
  refine Eval.bind_of_error ?_
  rw [Evaluator.startBring_apply, if_neg (mt List.contains_iff_mem.mp hnew), hfound]

/-- The statements of a module run with the module on the stack, and
whatever way they end it is taken off. -/
theorem splice_of_found {statements : List Node} (hnew : path ∉ m.bringing)
    (hfound : Evaluator.findModule c.settings.modules path = .ok statements) :
    Evaluator.splice ev path c m =
      (Evaluator.runBlock ev statements c
        { m with
          bringing := path :: m.bringing
          log := .bring path statements.length :: m.log }).map
        fun (r, m') => (r, m'.popped) := by
  have hstart : Evaluator.startBring path c m =
      some (.ok statements, { m with bringing := path :: m.bringing }) := by
    rw [Evaluator.startBring_apply, if_neg (mt List.contains_iff_mem.mp hnew), hfound]
  refine (Eval.bind_of_ok hstart).trans ((Eval.bind_of_ok rfl).trans ?_)
  rcases hrun : Evaluator.runBlock ev statements c
    { m with bringing := path :: m.bringing, log := .bring path statements.length :: m.log } with
    _ | ⟨r, m'⟩
  · exact Eval.bind_of_none (Eval.outcome_eq_none.mpr hrun)
  · refine (Eval.bind_of_ok (Eval.outcome_of_some hrun)).trans ?_
    cases r <;> rfl

end

theorem Writes.splice {ev : Evaluator} (hblock : ∀ body, Writes (Evaluator.runBlock ev body))
    (path : String) : Writes (Evaluator.splice ev path) := by
  have hstart : Writes (Evaluator.startBring path) := by
    intro c m r m' h
    rw [Evaluator.startBring_apply] at h
    split at h
    · cases h
      exact List.suffix_refl _
    · split at h <;> cases h <;> exact List.suffix_refl _
  have hfinish : Writes Evaluator.finishBring := by
    intro c m r m' h
    cases h
    exact List.suffix_refl _
  refine hstart.bind fun statements => (Writes.note _).bind fun _ => ?_
  refine (hblock statements).outcome.bind fun result => hfinish.bind fun _ => ?_
  cases result <;> exact Aside.writes fun _ _ _ _ => rfl

section
variable {path : String} {xs ys : List String} {before before' : List LogEntry}

/-- When a module above is done, the one below still is on the stack or
still is not. -/
theorem Alike.popped {α : Type} {OnItsWay : Exit → Prop} {other : String}
    {o o' : Option (Except Exit α × Machine)}
    (h : Alike path OnItsWay (other :: xs) ys before before' o o') :
    Alike path OnItsWay xs ys before before' (o.map fun (r, m) => (r, m.popped))
      (o'.map fun (r, m) => (r, m.popped)) := by
  cases h with
  | exhausted => exact .exhausted
  | ended r m entries => exact .ended r m entries
  | parted hfirst hsecond =>
    refine .parted (fun r m h => ?_) fun r m h => ?_
    · obtain ⟨⟨_, m₁⟩, ho, hpopped⟩ := Option.map_eq_some_iff.mp h
      cases hpopped
      have hdeclined : Declined path OnItsWay before r m₁.log := hfirst _ _ ho
      exact hdeclined
    · obtain ⟨⟨_, m₁⟩, ho, hpopped⟩ := Option.map_eq_some_iff.mp h
      cases hpopped
      have hlogged : Logged (LogEntry.Grants path) before' m₁.log := hsecond _ _ ho
      exact hlogged

variable {ev ev' : Evaluator} (hev : ∀ node, Regardless path Never (ev node) (ev' node))
include hev

theorem Regardless.runBlock (body : List Node) :
    Regardless path Never (Evaluator.runBlock ev body) (Evaluator.runBlock ev' body) := by
  have hblock : regardless path Never Unit [] [] _ _ :=
    regardless_rules.runBlock (fun _ _ node => hev node) body
  exact hblock

/-- The module itself is refused to the first run and granted to the
second one. Any other module is brought alike. -/
theorem Regardless.splice (other : String) :
    Regardless path (Cyclic path) (Evaluator.splice ev other) (Evaluator.splice ev' other) where
  alike {c xs ys} m entries before before' hserved hxs hys := by
    have hnew : path ∉ xs ++ ys := by simp [hxs, hys]
    by_cases hother : other = path
    · -- The one moment at which the stacks are told apart.
      obtain ⟨statements, hfound⟩ := hserved
      subst hother
      rw [splice_of_brought (by simp), splice_of_found hnew hfound]
      refine .parted (fun r m₁ h => ?_) fun r m₁ h => ?_
      · cases h
        exact .inl ⟨_, rfl, rfl, List.suffix_append ..⟩
      · obtain ⟨⟨_, m₂⟩, hrun, hpopped⟩ := Option.map_eq_some_iff.mp h
        cases hpopped
        have hgranted : Logged (LogEntry.Grants other) before'
            (.bring other statements.length :: (entries ++ before')) :=
          ⟨.bring other statements.length :: entries, rfl, _, List.mem_cons_self .., rfl⟩
        exact hgranted.later ((Regardless.runBlock hev statements).second _ _ _ _ hrun)
    · have hsame : other ∈ xs ++ path :: ys ↔ other ∈ xs ++ ys := by simp [hother]
      by_cases hbrought : other ∈ xs ++ ys
      · rw [splice_of_brought (hsame.mpr hbrought), splice_of_brought hbrought]
        exact .ended _ m entries
      · have hbrought' : other ∉ xs ++ path :: ys := mt hsame.mp hbrought
        cases hfound : Evaluator.findModule c.settings.modules other with
        | error problem =>
          rw [splice_of_missing hbrought' hfound, splice_of_missing hbrought hfound]
          exact .ended _ m entries
        | ok statements =>
          rw [splice_of_found hbrought' hfound, splice_of_found hbrought hfound]
          have hxs' : path ∉ other :: xs := by simp [hxs, Ne.symm hother]
          have hruns := (Regardless.runBlock hev statements).alike m
            (.bring other statements.length :: entries) before before' hserved hxs' hys
          exact hruns.popped.inside
  first := .splice (fun body => (Regardless.runBlock hev body).first) other
  second := .splice (fun body => (Regardless.runBlock hev body).second) other

theorem regardless_handling :
    Handling (regardless path (Cyclic path)) (regardless path Never) .own .own ev ev' where
  toCalling := regardless_calling
  exhausted := .of_aside fun _ _ _ _ => rfl
  checking := .of_aside Aloof.checkInterrupt.aside
  iteration {kept loose} body := by
    have hiteration : regardless path Never Bool kept loose _ _ :=
      regardless_rules.iteration (fun _ _ node => hev node) body
    exact Regardless.inside hiteration
  attempt {kept loose} parts := by
    have hattempt : regardless path Never Value kept loose _ _ :=
      regardless_rules.attempt (fun _ _ node => hev node) parts
    exact Regardless.inside hattempt
  splice other := .splice hev other

end

section
variable {path : String}

/-- A node deals with every outcome alike. -/
theorem Regardless.recovered (r : Except Exit Value) :
    Regardless path Never (Evaluator.recovered r) (Evaluator.recovered r) := by
  unfold Evaluator.recovered
  split
  · exact .of_aside fun _ _ _ _ => rfl
  · exact .bind (.report _) fun _ => .of_aside fun _ _ _ _ => rfl
  · exact .of_aside fun _ _ _ _ => rfl

/-- A refusal goes no further than to the node that asked: there it is
reported. -/
theorem logged_of_recovered {before : List LogEntry} {o r : Except Exit Value} {c : Context}
    {m m' : Machine} (h : Declined path (Cyclic path) before o m.log)
    (hrun : Evaluator.recovered o c m = some (r, m')) :
    Logged (LogEntry.Refuses path) before m'.log := by
  obtain ⟨e, rfl, rfl, hlog⟩ | hlogged := h
  · let refusal : LogEntry := .reported (.fault (.load path .cycle))
    have hnoted : Logged (LogEntry.Refuses path) before (refusal :: m.log) :=
      Logged.earlier ⟨[refusal], rfl, refusal, List.mem_singleton_self _, rfl⟩ hlog
    have hrest : Writes (Eval.diagnose (Exit.category (.fault (.load path .cycle)) ++ ": " ++
        Exit.message (.fault (.load path .cycle))) >>= fun _ => pure Value.nil) :=
      (Aloof.diagnose _).aside.writes.bind fun _ => Aside.writes fun _ _ _ _ => rfl
    -- The line of diagnostics comes after the entry, and may fail.
    exact hnoted.later (hrest c (m.note refusal) r m' hrun)
  · exact hlogged.later ((@Regardless.recovered path o).first _ _ _ _ hrun)

theorem Regardless.recovering {x y : Eval Value} (h : Regardless path (Cyclic path) x y) :
    Regardless path Never (Evaluator.recovering x) (Evaluator.recovering y) where
  alike {c _ _} m entries before before' hserved hxs hys := by
    rw [recovering_eq, recovering_eq]
    obtain ⟨hx, hy⟩ | ⟨o, m₁, entries₁, hx, hy⟩ | ⟨hfirst, hsecond⟩ :=
      (h.alike m entries before before' hserved hxs hys).inv
    · rw [Eval.bind_of_none (Eval.outcome_eq_none.mpr hx),
        Eval.bind_of_none (Eval.outcome_eq_none.mpr hy)]
      exact .exhausted
    · rw [Eval.bind_of_ok (Eval.outcome_of_some hx), Eval.bind_of_ok (Eval.outcome_of_some hy)]
      exact (Regardless.recovered o).alike m₁ entries₁ before before' hserved hxs hys
    · refine .parted (fun r m₂ hrun => ?_) fun r m₂ hrun => ?_
      · obtain ⟨o, m₁, hended, hrest⟩ := recovering_ended hrun
        exact .inr (logged_of_recovered (hfirst _ _ hended) hrest)
      · obtain ⟨o, m₁, hended, hrest⟩ := recovering_ended hrun
        exact (hsecond _ _ hended).later
          ((@Regardless.recovered path o).second _ _ _ _ hrest)
  first := h.first.outcome.bind fun o => (@Regardless.recovered path o).first
  second := h.second.outcome.bind fun o => (@Regardless.recovered path o).second

/-- With a module on the stack and without it a node goes alike, unless
it asks for the module. -/
theorem evaluate_regardless (steps : Nat) (node : Node) :
    Regardless path Never (evaluate steps node) (evaluate steps node) := by
  rw [← variant_own]
  induction steps generalizing node with
  | zero => exact .of_aside fun _ _ _ _ => rfl
  | succ steps ih =>
    -- The nodes inside let no refusal out, so one can only come from this node itself.
    refine .bind (.of_aside Aloof.checkInterrupt.aside) fun _ =>
      .bind (.noteVisit node) fun _ => .recovering ?_
    show regardless path (Cyclic path) Value [] [] _ _
    refine (regardless_handling ih).step (fun _ _ node => Regardless.inside (ih node))
      (fun _ _ body => ?_) (regardless_nodeRules _) (regardless_taskRules _) steps node
    exact regardless_rules.runBlock (fun _ _ node => ih node) body

end

/-! ### A module and its statements -/

section
variable {c : Context} {m : Machine}

/-- The outcome of a node that runs something and has no value. -/
def valueless (o : Option (Except Exit Unit × Machine)) : Option (Except Exit Value × Machine) :=
  o.map fun (r, m) => (r.map fun _ => .nil, m)

theorem valueless_ended {o : Option (Except Exit Unit × Machine)} {r : Except Exit Value}
    {m' : Machine} (h : valueless o = some (r, m')) : ∃ r', o = some (r', m') := by
  obtain ⟨⟨r', _⟩, ho, hend⟩ := Option.map_eq_some_iff.mp h
  cases hend
  exact ⟨r', ho⟩

/-- What does not end with a fault is the whole of a node. -/
theorem recovering_valueless {x : Eval Unit}
    (hfault : ∀ e m', x c m = some (.error e, m') → e.isFault = false) :
    Evaluator.recovering (x >>= fun _ => pure .nil) c m = valueless (x c m) := by
  rcases hx : x c m with _ | ⟨e | _, m'⟩
  · exact Eval.bind_of_none (Eval.outcome_eq_none.mpr (Eval.bind_of_none hx))
  · refine recovering_of_isFault (Eval.bind_of_error hx) fun e' he' => ?_
    cases he'
    exact hfault e m' hx
  · exact recovering_of_isFault (Eval.bind_of_ok hx) fun e' he' => by cases he'

theorem evaluate_inlet (hflag : m.interrupted = false) (steps : Nat) (statements : List Node) :
    ∃ visits, evaluate (steps + 1) (.inlet statements) c m =
      valueless (Evaluator.runBlock (evaluate steps) statements c
        { m with log := visits ++ m.log }) := by
  obtain ⟨visits, hnoted⟩ := noteVisit_entries (.inlet statements) c m
  refine ⟨visits, (evaluate_of_visit hflag (hnoted m.bringing m.log) steps).trans ?_⟩
  exact recovering_valueless fun e m' h => runBlock_isFault h

theorem evaluate_bring (hflag : m.interrupted = false) {path : String} {statements : List Node}
    (hnew : path ∉ m.bringing)
    (hfound : Evaluator.findModule c.settings.modules path = .ok statements) (steps : Nat) :
    ∃ visits, evaluate (steps + 1) (.bring [] path) c m =
      valueless ((Evaluator.runBlock (evaluate steps) statements c
        { m with
          bringing := path :: m.bringing
          log := .bring path statements.length :: (visits ++ m.log) }).map
        fun (r, m') => (r, m'.popped)) := by
  obtain ⟨visits, hnoted⟩ := noteVisit_entries (.bring [] path) c m
  refine ⟨visits, (evaluate_of_visit hflag (hnoted m.bringing m.log) steps).trans ?_⟩
  have hsplice : Evaluator.splice (evaluate steps) path c { m with log := visits ++ m.log } = _ :=
    splice_of_found hnew hfound
  rw [← hsplice]
  refine recovering_valueless fun e m' h => ?_
  rw [hsplice] at h
  obtain ⟨⟨_, _⟩, hrun, hend⟩ := Option.map_eq_some_iff.mp h
  cases hend
  exact runBlock_isFault hrun

/-- A module is brought as its statements run in its place, or it is
asked for again. -/
theorem bring_alike {path : String} {statements : List Node} (hnew : path ∉ m.bringing)
    (hfound : Evaluator.findModule c.settings.modules path = .ok statements) (steps : Nat) :
    (evaluate (steps + 1) (.bring [] path) c m = none ∧
        evaluate (steps + 1) (.inlet statements) c m = none) ∨
      (∃ (r : Except Exit Value) (m' : Machine) (log log' : List LogEntry),
        evaluate (steps + 1) (.bring [] path) c m = some (r, { m' with log }) ∧
          evaluate (steps + 1) (.inlet statements) c m = some (r, { m' with log := log' })) ∨
        (∀ r m', evaluate (steps + 1) (.bring [] path) c m = some (r, m') →
          Logged (LogEntry.Refuses path) m.log m'.log) ∧
          ∀ r m', evaluate (steps + 1) (.inlet statements) c m = some (r, m') →
            Logged (LogEntry.Grants path) m.log m'.log := by
  cases hflag : m.interrupted with
  | true =>
    rw [evaluate_of_interrupted hflag, evaluate_of_interrupted hflag]
    exact .inr (.inl ⟨_, m, m.log, m.log, rfl, rfl⟩)
  | false =>
    obtain ⟨visits, hbring⟩ := evaluate_bring hflag hnew hfound steps
    obtain ⟨visits', hinlet⟩ := evaluate_inlet (c := c) hflag steps statements
    rw [hbring, hinlet]
    -- The statements run with nothing above the module, and the first log has its entry already.
    have hruns : Alike path Never [] m.bringing
        (.bring path statements.length :: (visits ++ m.log)) (visits' ++ m.log)
        (Evaluator.runBlock (evaluate steps) statements c
          { m with
            bringing := path :: m.bringing
            log := .bring path statements.length :: (visits ++ m.log) })
        (Evaluator.runBlock (evaluate steps) statements c { m with log := visits' ++ m.log }) :=
      (Regardless.runBlock (evaluate_regardless steps) statements).alike m [] _ _ ⟨_, hfound⟩
        List.not_mem_nil hnew
    obtain ⟨hx, hy⟩ | ⟨r, m₁, entries, hx, hy⟩ | ⟨hfirst, hsecond⟩ := hruns.inv
    · rw [hx, hy]
      exact .inl ⟨rfl, rfl⟩
    · rw [hx, hy]
      exact .inr (.inl ⟨_, { m₁ with bringing := m.bringing }, _, _, rfl, rfl⟩)
    · refine .inr (.inr ⟨fun r m' h => ?_, fun r m' h => ?_⟩)
      · obtain ⟨_, hpopped⟩ := valueless_ended h
        obtain ⟨⟨_, m₁⟩, hrun, hend⟩ := Option.map_eq_some_iff.mp hpopped
        cases hend
        -- A refusal that was on its way would have come out of the block.
        have hlogged := (hfirst _ _ hrun).logged
        exact hlogged.earlier ⟨.bring path statements.length :: visits, by simp⟩
      · obtain ⟨_, hrun⟩ := valueless_ended h
        exact (hsecond _ _ hrun).earlier (List.suffix_append ..)

end

/-! ### A module that is being brought -/

/-- The line of diagnostics about a module that is being brought
already. -/
def cycleLine (path : String) : String :=
  "LoadError: " ++ (Fault.load path .cycle).message

theorem heed_of_context (reaction : Reaction) (c c' : Context) (m : Machine) :
    Eval.heed reaction c m = Eval.heed reaction c' m := by
  cases reaction <;> rfl

section
variable {c : Context} {m : Machine} {path : String}

/-- Wherever modules come from, one that is being brought is not asked
for there. -/
theorem evaluate_bring_brought (hbrought : path ∈ m.bringing) (hflag : m.interrupted = false)
    (steps : Nat) (names : List String) :
    ∃ log, ∀ modules, evaluate (steps + 1) (.bring names path) (c.loading modules) m =
      (Eval.diagnose (cycleLine path) >>= fun _ => pure .nil) c { m with log } := by
  obtain ⟨visits, hnoted⟩ := noteVisit_entries (.bring names path) c m
  let refusal : LogEntry := .reported (.fault (.load path .cycle))
  refine ⟨refusal :: (visits ++ m.log), fun modules => ?_⟩
  have hvisit : noteVisit (.bring names path) (c.loading modules) m =
      some (.ok (), { m with log := visits ++ m.log }) :=
    (noteVisit_of_loading ..).trans (hnoted m.bringing m.log)
  have hbring : Evaluator.bring (evaluate steps) names path (c.loading modules)
      { m with log := visits ++ m.log } =
        some (.error (.fault (.load path .cycle)), { m with log := visits ++ m.log }) :=
    Eval.bind_of_error (splice_of_brought hbrought)
  have hreported : evaluate (steps + 1) (.bring names path) (c.loading modules) m =
      (Eval.diagnose (cycleLine path) >>= fun _ => pure .nil) (c.loading modules)
        { m with log := refusal :: (visits ++ m.log) } :=
    (evaluate_of_visit hflag hvisit steps).trans (Eval.bind_of_ok (Eval.outcome_of_some hbring))
  rw [hreported]
  show Eval.bind (Eval.diagnose (cycleLine path)) _ _ _ = Eval.bind _ _ c _
  unfold Eval.bind
  have hline : ∀ m, Eval.diagnose (cycleLine path) (c.loading modules) m =
      Eval.diagnose (cycleLine path) c m := fun m => heed_of_context _ _ _ _
  rw [hline]
  rfl

/-- A statement that comes to nothing but a line of diagnostics leaves
the rest of its block as it is. -/
theorem runBlock_cons_of_diagnose {ev : Evaluator} {first : Node} {m₁ : Machine} {line : String}
    (h : ev first c m = (Eval.diagnose line >>= fun _ => pure .nil) c m₁) (rest : List Node) :
    Evaluator.runBlock ev (first :: rest) c m =
      (Eval.diagnose line >>= fun _ => Evaluator.runBlock ev rest) c m₁ := by
  rcases hline : Eval.diagnose line c m₁ with _ | ⟨e | ⟨⟩, m₂⟩
  · rw [Eval.bind_of_none hline] at h ⊢
    exact Eval.bind_of_none (Eval.bind_of_none h)
  · rw [Eval.bind_of_error hline] at h ⊢
    exact Eval.bind_of_error (Eval.bind_of_error h)
  · rw [Eval.bind_of_ok hline] at h ⊢
    exact Eval.bind_of_ok (Eval.bind_of_ok h)

end

/-! ### Bringing -/

/-- Bringing a module is running its statements in place. Take any
state and any source of modules.

* Let the module not be on the stack, and let the source have statements
  for it. Where the statements run in place and the module is not asked
  for again, which would be granted, the bringing ends with the same
  outcome and leaves the same machine but for the log. So do the
  statements in place where the module is brought and not asked for
  again, which would be refused.
* Let the module be on the stack, and the run not be stopped. Then the
  source is not consulted: with any other one the same happens. There is
  one line of diagnostics and an entry in the log, and the rest of the
  block runs on. -/
theorem bring_splices (path : String) (c : Context) (m : Machine) (steps : Nat) :
    (∀ statements, path ∉ m.bringing →
      Evaluator.findModule c.settings.modules path = .ok statements →
        (∀ r m', evaluate (steps + 1) (.inlet statements) c m = some (r, m') →
          ¬ Logged (LogEntry.Grants path) m.log m'.log →
            ∃ log, evaluate (steps + 1) (.bring [] path) c m = some (r, { m' with log })) ∧
        (∀ r m', evaluate (steps + 1) (.bring [] path) c m = some (r, m') →
          ¬ Logged (LogEntry.Refuses path) m.log m'.log →
            ∃ log, evaluate (steps + 1) (.inlet statements) c m = some (r, { m' with log }))) ∧
    (path ∈ m.bringing → m.interrupted = false → ∀ names,
      ∃ log, ∀ modules rest,
        evaluate (steps + 1) (.bring names path) (c.loading modules) m =
          (Eval.diagnose (cycleLine path) >>= fun _ => pure .nil) c { m with log } ∧
        Evaluator.runBlock (evaluate (steps + 1)) (.bring names path :: rest) c m =
          (Eval.diagnose (cycleLine path) >>= fun _ =>
            Evaluator.runBlock (evaluate (steps + 1)) rest) c { m with log }) := by
  constructor
  · intro statements hnew hfound
    obtain ⟨hbring, hinlet⟩ | ⟨r, m', log, log', hbring, hinlet⟩ | ⟨hrefused, hgranted⟩ :=
      bring_alike (c := c) hnew hfound steps
    · rw [hbring, hinlet]
      exact ⟨fun r m' h => (Option.some_ne_none _ h.symm).elim,
        fun r m' h => (Option.some_ne_none _ h.symm).elim⟩
    · rw [hbring, hinlet]
      constructor <;> rintro r₁ m₁ ⟨⟩ - <;> exact ⟨_, rfl⟩
    · exact ⟨fun r m' h hnone => absurd (hgranted r m' h) hnone,
        fun r m' h hnone => absurd (hrefused r m' h) hnone⟩
  · intro hbrought hflag names
    obtain ⟨log, hnode⟩ := evaluate_bring_brought (c := c) hbrought hflag steps names
    exact ⟨log, fun modules rest =>
      ⟨hnode modules, runBlock_cons_of_diagnose (hnode c.settings.modules) rest⟩⟩

/-- A module that brings another one and raises an error does so in
place as well. While it is being brought, asking for it comes to
nothing. -/
theorem bring_splices_raised :
    let statements := [Node.bring [] "lib", .trigger "E" none]
    let source : ModuleSource := fun path => .ok (if path = "lib" then [] else statements)
    let c : Context := ⟨⟨1, false, some source⟩, 0, [.scope 0]⟩
    let m := Machine.single (Scope.top .global)
    let raised : Except Exit Value := .error (.raised "E" "")
    ("main" ∉ m.bringing ∧ Evaluator.findModule c.settings.modules "main" = .ok statements) ∧
      (∃ m', evaluate 3 (.inlet statements) c m = some (raised, m') ∧
        ¬ Logged (LogEntry.Grants "main") m.log m'.log ∧
          ∃ log, evaluate 3 (.bring [] "main") c m = some (raised, { m' with log })) ∧
      (∃ m', evaluate 3 (.bring [] "main") c m = some (raised, m') ∧
        ¬ Logged (LogEntry.Refuses "main") m.log m'.log ∧
          ∃ log, evaluate 3 (.inlet statements) c m = some (raised, { m' with log })) ∧
      let m₁ := { m with bringing := ["main"] }
      ("main" ∈ m₁.bringing ∧ m₁.interrupted = false) ∧
        ∃ log, ∀ modules rest,
          evaluate 3 (.bring ["x"] "main") (c.loading modules) m₁ =
            (Eval.diagnose (cycleLine "main") >>= fun _ => pure .nil) c { m₁ with log } ∧
          Evaluator.runBlock (evaluate 3) (.bring ["x"] "main" :: rest) c m₁ =
            (Eval.diagnose (cycleLine "main") >>= fun _ =>
              Evaluator.runBlock (evaluate 3) rest) c { m₁ with log } := by
  intro statements source c m raised
  have hnew : "main" ∉ m.bringing := List.not_mem_nil
  have hfound : Evaluator.findModule c.settings.modules "main" = .ok statements := rfl
  obtain ⟨hinlet, hbring⟩ := (bring_splices "main" c m 2).1 statements hnew hfound
  refine ⟨⟨hnew, hfound⟩, ?inlet, ?bring, ⟨List.mem_singleton_self _, rfl⟩, ?brought⟩
  case inlet =>
    obtain ⟨m', hrun, hlog⟩ : ∃ m', evaluate 3 (.inlet statements) c m = some (raised, m') ∧
        m'.log = [.bring "lib" 0] := ⟨_, rfl, rfl⟩
    have hnone : ¬ Logged (LogEntry.Grants "main") m.log m'.log := fun h => by
      obtain ⟨e, hmem, he⟩ := h.exists_mem
      rw [hlog] at hmem
      cases List.mem_singleton.mp hmem
      have hsame : "lib" = "main" := he
      exact absurd hsame (by decide)
    exact ⟨m', hrun, hnone, hinlet _ _ hrun hnone⟩
  case bring =>
    obtain ⟨m', hrun, hlog⟩ : ∃ m', evaluate 3 (.bring [] "main") c m = some (raised, m') ∧
        m'.log = [.bring "lib" 0, .bring "main" 2] := ⟨_, rfl, rfl⟩
    have hnone : ¬ Logged (LogEntry.Refuses "main") m.log m'.log := fun h => by
      obtain ⟨e, hmem, rfl⟩ := h.exists_mem
      rw [hlog] at hmem
      simp at hmem
    exact ⟨m', hrun, hnone, hbring _ _ hrun hnone⟩
  case brought =>
    exact (bring_splices "main" c { m with bringing := ["main"] } 2).2
      (List.mem_singleton_self _) rfl ["x"]

end Treewalk.Proofs
