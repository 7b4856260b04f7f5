import Treewalk.Proofs.Constructs
import Treewalk.Proofs.Unaware

/-!
# `Treewalk.Proofs.Mirroring`: runs that differ in entries of the log

Two runs can be the same in all but some entries that only one of them
writes. They are never on the same machine, since their logs part with
the first such entry, so the relation is between machines that differ in
their logs only. `Mirrors p` is that relation for the entries of a sort
`p`. One run may also be traced while the other is not.

It is a congruence, if no construct writes such entries for itself. Most
primitives are unaware of the log, and the others write an entry that
both runs write.
-/

set_option autoImplicit false

namespace Treewalk

/-- The entries of a log that are not of a sort. -/
def LogEntry.without (p : LogEntry → Bool) (log : List LogEntry) : List LogEntry :=
  log.filter fun e => !p e

namespace Proofs

open LogEntry (without)

variable {p : LogEntry → Bool}

theorem without_of_not {e : LogEntry} (he : p e = false) (log : List LogEntry) :
    without p (e :: log) = e :: without p log := by
  unfold without
  rw [List.filter_cons_of_pos]
  simp [he]

theorem without_of {e : LogEntry} (he : p e = true) (log : List LogEntry) :
    without p (e :: log) = without p log := by
  unfold without
  rw [List.filter_cons_of_neg]
  simp [he]

/-! ### Two ends -/

section
variable {α β : Type} {before : List LogEntry} {on on' : Bool}

/-- Ends of two evaluations, above what the logs had in common before:
the same outcome and the same machine, and the same new entries but for
those of a sort, which only the first one has. -/
inductive SameBut (p : LogEntry → Bool) (before : List LogEntry) :
    Option (Except Exit α × Machine) → Option (Except Exit α × Machine) → Prop where
  | exhausted : SameBut p before none none
  | ended (r : Except Exit α) (m : Machine) (entries : List LogEntry) :
      SameBut p before (some (r, { m with log := entries ++ before }))
        (some (r, { m with log := without p entries ++ before }))

theorem SameBut.inv {o o' : Option (Except Exit α × Machine)} (h : SameBut p before o o') :
    (o = none ∧ o' = none) ∨
      ∃ (r : Except Exit α) (m : Machine) (entries : List LogEntry),
        o = some (r, { m with log := entries ++ before }) ∧
          o' = some (r, { m with log := without p entries ++ before }) := by
  cases h with
  | exhausted => exact .inl ⟨rfl, rfl⟩
  | ended r m entries => exact .inr ⟨r, m, entries, rfl, rfl⟩

/-- Letting go afterwards makes no difference. -/
theorem SameBut.released [Owner α] (held refs : List Ref)
    {o o' : Option (Except Exit α × Machine)} :
    SameBut p before o o' → SameBut p before
      (match o with
        | none => none
        | some (r, m) => some (r, m.release (Owner.refs r ++ held) refs))
      (match o' with
        | none => none
        | some (r, m) => some (r, m.release (Owner.refs r ++ held) refs)) := by
  intro h
  cases h with
  | exhausted => exact .exhausted
  | ended r m entries => exact .ended r (m.release (Owner.refs r ++ held) refs) entries

/-- Two evaluations, each traced or not, that end alike if they begin on
machines that differ in the entries of a sort. -/
def Mirrors (p : LogEntry → Bool) (on on' : Bool) (x y : Eval α) : Prop :=
  ∀ (c : Context) (m : Machine) (entries before : List LogEntry),
    SameBut p before (x (c.traced on) { m with log := entries ++ before })
      (y (c.traced on') { m with log := without p entries ++ before })

/-- What is in hand does not matter. -/
def mirroring (p : LogEntry → Bool) (on on' : Bool) : Relation :=
  fun _ _ _ x y => Mirrors p on on' x y

/-- What is unaware of the log and the tracing ends alike. -/
theorem Unaware.mirrors {x : Eval α} (hx : Unaware x) : Mirrors p on on' x x := by
  intro c m entries before
  have hfirst := hx c m on m.tasks (entries ++ before)
  have hsecond := hx c m on' m.tasks (without p entries ++ before)
  rcases hends : x c m with _ | ⟨r, m'⟩
  · rw [hends] at hfirst hsecond
    show SameBut p before (x (c.traced on) { m with tasks := m.tasks, log := _ })
      (x (c.traced on') { m with tasks := m.tasks, log := _ })
    rw [hfirst, hsecond]
    exact .exhausted
  · rw [hends] at hfirst hsecond
    show SameBut p before (x (c.traced on) { m with tasks := m.tasks, log := _ })
      (x (c.traced on') { m with tasks := m.tasks, log := _ })
    rw [hfirst, hsecond]
    exact .ended r { m' with tasks := m.tasks } entries

namespace Mirrors

theorem bind {x y : Eval α} {f g : α → Eval β} (hx : Mirrors p on on' x y)
    (hf : ∀ a, Mirrors p on on' (f a) (g a)) : Mirrors p on on' (x >>= f) (y >>= g) := by
  intro c m entries before
  show SameBut p before (Eval.bind x f _ _) (Eval.bind y g _ _)
  unfold Eval.bind
  obtain ⟨hx, hy⟩ | ⟨r, m₁, entries₁, hx, hy⟩ := (hx c m entries before).inv
  · rw [hx, hy]
    exact .exhausted
  · rw [hx, hy]
    cases r with
    | ok a => exact hf a c m₁ entries₁ before
    | error e => exact .ended _ m₁ entries₁

theorem outcome {x y : Eval α} (hx : Mirrors p on on' x y) :
    Mirrors p on on' (Eval.outcome x) (Eval.outcome y) := by
  intro c m entries before
  unfold Eval.outcome
  obtain ⟨hx, hy⟩ | ⟨r, m₁, entries₁, hx, hy⟩ := (hx c m entries before).inv
  · rw [hx, hy]
    exact .exhausted
  · rw [hx, hy]
    exact .ended (.ok r) m₁ entries₁

theorem holding [Owner α] (refs : List Ref) {x y : Eval α} (hx : Mirrors p on on' x y) :
    Mirrors p on on' (Eval.holding refs x) (Eval.holding refs y) :=
  fun c m entries before =>
    .released c.held refs (hx { c with held := refs ++ c.held } m entries before)

/-- An entry that both write. -/
theorem note {e : LogEntry} (he : p e = false) :
    Mirrors p on on' (Eval.note e) (Eval.note e) := by
  intro c m entries before
  have hends : SameBut p before (some (.ok (), { m with log := (e :: entries) ++ before }))
      (some (.ok (), { m with log := without p (e :: entries) ++ before })) :=
    .ended (.ok ()) m (e :: entries)
  rwa [without_of_not he] at hends

/-- An entry that only the first one writes. -/
theorem noteFirst {e : LogEntry} (he : p e = true) :
    Mirrors p on on' (Eval.note e) (pure ()) := by
  intro c m entries before
  have hends : SameBut p before (some (.ok (), { m with log := (e :: entries) ++ before }))
      (some (.ok (), { m with log := without p (e :: entries) ++ before })) :=
    .ended (.ok ()) m (e :: entries)
  rwa [without_of he] at hends

theorem enqueue (body : List Node) :
    Mirrors p on on' (Evaluator.enqueue body) (Evaluator.enqueue body) :=
  fun _ m entries _ => .ended (.ok ()) { m with tasks := m.tasks.enqueue body } entries

theorem takeTasks : Mirrors p on on' Evaluator.takeTasks Evaluator.takeTasks :=
  fun _ m entries _ => .ended (.ok m.tasks.takeAll.1) { m with tasks := m.tasks.takeAll.2 } entries

/-- Both visit a node alike. -/
theorem noteVisit (hvisit : ∀ node scope, p (.visit node scope) = false) (node : Node) :
    Mirrors p on on (Treewalk.noteVisit node) (Treewalk.noteVisit node) := by
  intro c m entries before
  let visit : LogEntry :=
    .visit node.kindName ((m.store.scope? c.scope).elim "" fun scope => scope.kind.name)
  cases on with
  | true =>
    have hnoted : Mirrors p true true (Eval.note visit) (Eval.note visit) := note (hvisit ..)
    exact hnoted c m entries before
  | false => exact .ended (.ok ()) m entries

end Mirrors

end

/-! ### All evaluations -/

section
variable {on on' : Bool} (hnote : ∀ e, e.isReserved = false → p e = false)
  (hvisit : ∀ node, Mirrors p on on' (noteVisit node) (noteVisit node))
include hnote

omit hvisit in
theorem Mirrors.report (e : Exit) : Mirrors p on on' (Eval.report e) (Eval.report e) :=
  .bind (.note (hnote _ rfl)) fun _ => (Aloof.diagnose _).unaware.mirrors

include hvisit

theorem mirroring_primitives : Primitives (mirroring p on on') where
  result _ _ := Unaware.mirrors fun _ _ _ _ _ => rfl
  bind hx hf := .bind hx hf
  exit _ _ := Unaware.mirrors fun _ _ _ _ _ => rfl
  outcome hx := .outcome hx
  holding refs _ _ hx := .holding refs hx
  here hf := .bind (Unaware.mirrors fun _ _ _ _ _ => rfl) hf
  within {_ _ _ id _ _} _ hx c := hx { c with scope := id }
  newExports hf := .bind (Unaware.mirrors fun _ _ _ _ _ => rfl) hf
  newChild _ _ hf := .bind (Unaware.mirrors fun _ _ _ _ _ => rfl) hf
  newInstance _ := Unaware.mirrors fun _ _ _ _ _ => rfl
  lookup? _ := Unaware.mirrors fun _ _ _ _ _ => rfl
  getLocal? _ _ := Unaware.mirrors fun _ _ _ _ _ => rfl
  boundCount _ := Unaware.mirrors fun _ _ _ _ _ => rfl
  declareIn name _ _ _ := (Aloof.declareIn _ name _).unaware.mirrors
  assign name _ _ := (Aloof.assign name _).unaware.mirrors
  copyBindings _ _ := (Aloof.copyBindings _ _).unaware.mirrors
  checkInterrupt := Aloof.checkInterrupt.unaware.mirrors
  write text := (Aloof.write text).unaware.mirrors
  readLine := Aloof.readLine.unaware.mirrors
  report e := .report hnote e
  note he := .note (hnote _ he)
  noteVisit := hvisit
  enqueue body := .enqueue body
  takeTasks := .takeTasks
  register _ _ := Unaware.mirrors fun _ _ _ _ _ => rfl
  handlersOf _ := Unaware.mirrors fun _ _ _ _ _ => rfl

omit hnote hvisit in
theorem mirroring_nodePrimitives : NodePrimitives (mirroring p on on') where
  nearestExports? hf := .bind (Unaware.mirrors fun _ _ _ _ _ => rfl) hf
  exportIn name _ _ _ := (Aloof.declareIn _ name _).unaware.mirrors
  code _ hx := hx
  exhausted := Unaware.mirrors fun _ _ _ _ _ => rfl
  trigger _ _ := Unaware.mirrors fun _ _ _ _ _ => rfl

/-- Evaluations mirror themselves if the sort is of entries that no
construct writes, and visits are alike. -/
theorem mirroring_congruence : Congruence (mirroring p on on') (mirroring p on on') :=
  .of_counters (mirroring_primitives hnote hvisit) mirroring_nodePrimitives
    (fun _ => Aloof.enterCall.unaware.mirrors)
    (fun _ => Unaware.mirrors fun _ _ _ _ _ => rfl) (fun _ => Unaware.mirrors fun _ _ _ _ _ => rfl)
    (fun _ path => (Unaware.startBring path).mirrors)
    fun _ => Unaware.mirrors fun _ _ _ _ _ => rfl

end

end Proofs

end Treewalk
