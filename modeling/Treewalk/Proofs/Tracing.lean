import Treewalk.Proofs.Mirroring
import Treewalk.Proofs.Ownership

/-!
# `Treewalk.Proofs.Tracing`: a traced run is the same run

A traced run says in the log which nodes it visits. It does nothing else
that an untraced run would not do: `tracing_neutral` says that the two
have the same outcome and leave the same machine, and that the untraced
run writes what the traced run writes beside the visits.

The proof runs the two side by side, as runs that differ in the entries
about visits only. One primitive asks whether the run is traced.

To name the kind of the scope in which a node is visited, the kind is
read, and the kind of a toolkit's scope keeps the exports alive. A run
may hold on to them for that moment. `visitHolding_eq` says that this
makes no difference: the scope refers to its exports all the time, so
nothing is released when they are let go.
-/

set_option autoImplicit false

namespace Treewalk

/-- The entries of a log that are not about single nodes. -/
def LogEntry.unvisited (log : List LogEntry) : List LogEntry :=
  log.filter fun e => !e.isVisit

/-- `noteVisit` while the kind of the scope is in hand, with all that it
keeps alive. -/
def visitHolding (node : Node) : Eval Unit := do
  let c ← Eval.context
  if c.settings.trace then
    let kind := ((← Eval.machine).store.scope? c.scope).map Scope.kind
    Eval.holding (kind.elim [] ScopeKind.refs)
      (Eval.note (.visit node.kindName (kind.elim "" ScopeKind.name)))

namespace Proofs

open LogEntry (unvisited)

/-! ### Two ends that differ in the visits -/

/-- Ends of a traced evaluation and an untraced one, above what the logs
had in common before: the same outcome and the same machine, and the
same new entries but for the visits. -/
inductive SameButVisits {α : Type} (before : List LogEntry) :
    Option (Except Exit α × Machine) → Option (Except Exit α × Machine) → Prop where
  | exhausted : SameButVisits before none none
  | ended (r : Except Exit α) (m : Machine) (entries : List LogEntry) :
      SameButVisits before (some (r, { m with log := entries ++ before }))
        (some (r, { m with log := unvisited entries ++ before }))

theorem SameBut.visits {α : Type} {before : List LogEntry}
    {o o' : Option (Except Exit α × Machine)} (h : SameBut LogEntry.isVisit before o o') :
    SameButVisits before o o' := by
  cases h with
  | exhausted => exact .exhausted
  | ended r m entries => exact .ended r m entries

/-- Only here the two part: one writes an entry that the other does
not. -/
theorem mirrors_noteVisit (node : Node) :
    Mirrors LogEntry.isVisit true false (noteVisit node) (noteVisit node) := by
  intro c m entries before
  let visit : LogEntry :=
    .visit node.kindName ((m.store.scope? c.scope).elim "" fun scope => scope.kind.name)
  have hnoted : Mirrors LogEntry.isVisit true false (Eval.note visit) (pure ()) := .noteFirst rfl
  exact hnoted c m entries before

theorem tracing_congruence :
    Congruence (mirroring LogEntry.isVisit true false) (mirroring LogEntry.isVisit true false) :=
  mirroring_congruence (fun _ he => (Bool.or_eq_false_iff.mp he).1) mirrors_noteVisit

/-! ### The kind of a scope in hand -/

/-- A scope refers to all that its kind keeps alive. -/
theorem release_kind {s : Store} {id : ScopeId} {scope : Scope} (hscope : s.scope? id = some scope)
    (held : List Ref) : s.release held scope.kind.refs = s := by
  cases hkind : scope.kind with
  | toolkit e =>
    refine Store.release_of_kept fun r hr => .inr (Store.refersTo_of_scope hscope ?_)
    rw [List.mem_singleton.mp hr]
    simp [Scope.refs, hkind, ScopeKind.refs]
  | _ => rfl

/-- To hold on to the kind of the scope while a visit is noted releases
nothing. -/
theorem visitHolding_eq (node : Node) : visitHolding node = noteVisit node := by
  funext c m
  show (if c.settings.trace then _ else (pure () : Eval Unit)) c m =
    (if c.settings.trace then _ else (pure () : Eval Unit)) c m
  split
  · simp only [bind, Eval.bind, Eval.machine]
    cases hscope : m.store.scope? c.scope with
    | none => rfl
    | some scope =>
      have hkept : m.store.release c.held scope.kind.refs = m.store := release_kind hscope _
      show some (Except.ok (), { m.note _ with store := m.store.release c.held scope.kind.refs }) = _
      rw [hkept]
      rfl
  · rfl

/-! ### Traced runs -/

/-- Tracing has no effect but the entries about visits. Every evaluation
of a node and every run of a program ends with it as without it: with
the same outcome, or with none if the steps are too few, and on the same
machine, that is with the same scopes, instances, tasks, handlers,
streams and counters. The log of the untraced run is that of the traced
run without the visits. Nor does it matter whether the kind of the scope
is held on to while a visit is noted. -/
theorem tracing_neutral :
    (∀ (steps : Nat) (node : Node) (c : Context) (m : Machine),
      SameButVisits m.log (evaluate steps node (c.traced true) m)
        (evaluate steps node (c.traced false) m)) ∧
    (∀ (steps : Nat) (program : Node) (c : Context) (m : Machine),
      SameButVisits m.log (runProgram (evaluate steps) program (c.traced true) m)
        (runProgram (evaluate steps) program (c.traced false) m)) ∧
    ∀ node : Node, visitHolding node = noteVisit node := by
  have hnodes : ∀ steps node,
      Mirrors LogEntry.isVisit true false (evaluate steps node) (evaluate steps node) :=
    fun steps node => tracing_congruence.evaluate steps [] node
  refine ⟨fun steps node c m => (hnodes steps node c m [] m.log).visits,
    fun steps program c m => ?_, visitHolding_eq⟩
  have hrun : mirroring LogEntry.isVisit true false Unit []
      (runProgram (evaluate steps) program) (runProgram (evaluate steps) program) :=
    tracing_congruence.runProgram (fun _ node => hnodes steps node) program
  exact (hrun c m [] m.log).visits

/-- The logs do differ: a statement and the literal in it are visited. -/
example :
    let c : Context := ⟨.standard, 0, []⟩
    let log (on : Bool) : Option (List LogEntry) :=
      (evaluate 2 (.statement .nil) (c.traced on) (.single (.top .global))).map fun (_, m) => m.log
    log true = some [.visit "nil" "global", .visit "expression statement" "global"] ∧ log false = some [] :=
  ⟨rfl, rfl⟩

end Proofs

end Treewalk
