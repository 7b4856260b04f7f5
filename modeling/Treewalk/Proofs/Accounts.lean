import Treewalk.Proofs.Enclosure
import Treewalk.Proofs.Ledger
import Treewalk.Proofs.Unaware

/-!
# `Treewalk.Proofs.Accounts`: what becomes of the tasks

Draining the tasks takes all of them out of the queue before it runs the
first. From then on only the drain knows of them, and when one of them
exits the drain ends and the others are gone. Such a task is neither
started, nor does it wait for the next drain.

The queue cannot tell: a task that is not in it may have been started
once, twice, or never. So `audited` is the evaluator with a ledger in
the place of the queue. It marks tasks as they are taken, started and
abandoned, and is otherwise the plain evaluator: `Tallied` says that both
end in the same way, on machines that differ only in that the one has
the ledger where the other has the tasks that wait by it.

`tasks_accounted` says what the ledger says. Whenever no drain is
running, every task ever put off waits in its place, has been started
exactly once, or has been abandoned; and a task is abandoned only by a
drain that an earlier one of its tasks has ended with an exit.
-/

set_option autoImplicit false

namespace Treewalk

namespace Evaluator

open Eval

/-- A change of the ledger in the place of the queue. -/
def amend (f : Ledger → Ledger) : Eval Unit :=
  modify fun m => m.filed (f (Ledger.read m.tasks))

/-- The tasks that wait by the ledger, which are marked as taken. -/
def takeDue : Eval (List (Nat × List Node)) := do
  let m ← machine
  amend Ledger.takeAll
  pure (Ledger.read m.tasks).due

/-- An evaluation that leaves tasks behind when it exits. -/
def abandoning (tasks : List Nat) (x : Eval Unit) : Eval Unit := do
  match ← outcome x with
  | .ok () => pure ()
  | .error e => do
    amend (Ledger.putAll .abandoned · tasks)
    exit e

/-- Runs tasks that have been taken one after the other. -/
def runDue (ev : Evaluator) : List (Nat × List Node) → Eval Unit
  | [] => pure ()
  | first :: rest => do
    amend (Ledger.put .started · first.1)
    abandoning (rest.map Prod.fst) (runBlock ev first.2)
    runDue ev rest

/-- Puts a block off by the ledger. -/
def auditedParal (body : List Node) : Eval Value := do
  amend (Ledger.enter · body)
  pure .nil

/-- Drains the tasks by the ledger, then runs a block. -/
def auditedHold (ev : Evaluator) (body : List Node) : Eval Value := do
  let due ← takeDue
  note (.hold due.length)
  runDue ev due
  runBlock ev body
  pure .nil

/-- What a node does where a ledger is kept. `inner` evaluates what runs
inside of a drain. -/
def auditedStep (ev inner : Evaluator) (bound : Nat) : Node → Eval Value
  | .paral body => auditedParal body
  | .hold body => auditedHold inner body
  | node => step ev (runBlock ev) bound node

/-- Most nodes have nothing to do with the ledger. -/
theorem auditedStep_of_now {ev inner : Evaluator} {bound : Nat} {node : Node}
    (h : node.defers = false) :
    auditedStep ev inner bound node = step ev (runBlock ev) bound node := by
  cases node with
  | paral _ | hold _ | listen _ => cases h
  | _ => rfl

end Evaluator

open Eval Evaluator

/-- The evaluator with a ledger in the place of the queue, and with a
look at the machine whenever a node is entered or left. What is looked
for may depend on the number of drains that are running. -/
def audited (look : Nat → Eval Unit) : (steps holds : Nat) → Evaluator
  | 0, _, _ => exhausted
  | steps + 1, holds, node =>
    guarded (look holds) do
      checkInterrupt
      noteVisit node
      recovering
        (auditedStep (audited look steps holds) (audited look steps (holds + 1)) steps node)

end Treewalk

namespace Treewalk.Proofs

/-! ### Two ends that tally -/

section
variable {α β : Type}

/-- Ends of two evaluations that are the same, but for a ledger in the
place of the queue of the tasks that wait by it. -/
inductive Tallied (Q : Except Exit α → Ledger → Prop) :
    Option (Except Exit α × Machine) → Option (Except Exit α × Machine) → Prop where
  | exhausted : Tallied Q none none
  | ended (r : Except Exit α) (m : Machine) (l : Ledger) : Q r l →
      Tallied Q (some (r, m.filed l)) (some (r, m.queued l))

namespace Tallied

variable {Q Q' : Except Exit α → Ledger → Prop} {o o' : Option (Except Exit α × Machine)}

theorem mono (h : Tallied Q o o') (hq : ∀ r l, Q r l → Q' r l) : Tallied Q' o o' := by
  cases h with
  | exhausted => exact .exhausted
  | ended r m l hl => exact .ended r m l (hq r l hl)

theorem inv (h : Tallied Q o o') : (o = none ∧ o' = none) ∨
    ∃ (r : Except Exit α) (m : Machine) (l : Ledger),
      o = some (r, m.filed l) ∧ o' = some (r, m.queued l) ∧ Q r l := by
  cases h with
  | exhausted => exact .inl ⟨rfl, rfl⟩
  | ended r m l hl => exact .inr ⟨r, m, l, rfl, rfl, hl⟩

/-- Both are taken further if the first parts end well. -/
theorem bind {P : Except Exit β → Ledger → Prop} {x y : Eval α} {f g : α → Eval β} {c : Context}
    {m m' : Machine} (h : Tallied Q (x c m) (y c m'))
    (hf : ∀ (a : α) (m₁ : Machine) (l : Ledger), y c m' = some (.ok a, m₁.queued l) →
      Q (.ok a) l → Tallied P (f a c (m₁.filed l)) (g a c (m₁.queued l)))
    (he : ∀ (e : Exit) (m₁ : Machine) (l : Ledger), y c m' = some (.error e, m₁.queued l) →
      Q (.error e) l → P (.error e) l) :
    Tallied P ((x >>= f) c m) ((y >>= g) c m') := by
  show Tallied P (Eval.bind x f c m) (Eval.bind y g c m')
  unfold Eval.bind
  obtain ⟨hx, hy⟩ | ⟨r, m₁, l, hx, hy, hl⟩ := h.inv
  · rw [hx, hy]
    exact .exhausted
  · rw [hx, hy]
    cases r with
    | ok a => exact hf a m₁ l hy hl
    | error e => exact .ended _ m₁ l (he e m₁ l hy hl)

end Tallied

/-- Evaluations that tally and settle the ledger. Unless a drain is
running, all is accounted for when they begin. -/
def Tallies (holds : Nat) (x y : Eval α) : Prop :=
  ∀ (c : Context) (m : Machine) (l : Ledger), (holds = 0 → l.Accounted) →
    Tallied (fun _ l' => l.Settles l') (x c (m.filed l)) (y c (m.queued l))

/-- To tally does not depend on what is in hand. -/
def tally (holds : Nat) : Custom :=
  fun _ _ _ _ x y => Tallies holds x y

/-! ### Evaluations that do not know the queue -/

/-- An evaluation that neither reads the queue nor changes it. -/
def Blind (x : Eval α) : Prop :=
  ∀ c m q, x c { m with tasks := q } =
    (x c m).map fun (r, m') => (r, { m' with tasks := q })

theorem Blind.bind {x : Eval α} {f : α → Eval β} (hx : Blind x) (hf : ∀ a, Blind (f a)) :
    Blind (x >>= f) := by
  intro c m q
  show Eval.bind x f c { m with tasks := q } = (Eval.bind x f c m).map _
  unfold Eval.bind
  rw [hx c m q]
  rcases x c m with _ | ⟨e | a, m₁⟩
  · rfl
  · rfl
  · exact hf a c m₁ q

/-- What does not know the queue tallies with itself. -/
theorem Blind.tallies {holds : Nat} {x : Eval α} (hx : Blind x) : Tallies holds x x := by
  intro c m l _
  have hfiled : x c (m.filed l) = (x c m).map fun (r, m') => (r, m'.filed l) := hx c m l.file
  have hqueued : x c (m.queued l) = (x c m).map fun (r, m') => (r, m'.queued l) :=
    hx c m ⟨l.waiting⟩
  rw [hfiled, hqueued]
  rcases x c m with _ | ⟨r, m'⟩
  · exact .exhausted
  · exact .ended r m' l (.refl l)

/-- What knows neither the queue nor the log does not know the queue. -/
theorem Unaware.blind {x : Eval α} (hx : Unaware x) : Blind x := by
  intro c m q
  have hsame : x c { m with tasks := q } =
      (x c m).map fun (r, m') => (r, { m' with tasks := q, log := m.log }) :=
    hx c m c.settings.trace q m.log
  rw [hsame]
  rcases hends : x c m with _ | ⟨r, m'⟩
  · rfl
  · have hlog : m'.log = m.log := (hx.leaves hends).2
    show some (r, { m' with tasks := q, log := m.log }) = some (r, { m' with tasks := q })
    rw [← hlog]

namespace Blind

theorem report (e : Exit) : Blind (Eval.report e) :=
  .bind (fun _ _ _ => rfl) fun _ => (Aloof.diagnose _).unaware.blind

theorem noteVisit (node : Node) : Blind (Treewalk.noteVisit node) := by
  intro c m q
  show (if c.settings.trace then _ else (pure () : Eval Unit)) c _ =
    ((if c.settings.trace then _ else (pure () : Eval Unit)) c m).map _
  split <;> rfl

end Blind

/-! ### Rules -/

theorem Tallies.bind {holds : Nat} {x y : Eval α} {f g : α → Eval β} (hx : Tallies holds x y)
    (hf : ∀ a, Tallies holds (f a) (g a)) : Tallies holds (x >>= f) (y >>= g) := by
  intro c m l hl
  refine (hx c m l hl).bind (fun a m₁ l₁ _ hsettles => ?_) fun _ _ _ _ hsettles => hsettles
  have hl₁ : holds = 0 → l₁.Accounted := fun hzero =>
    hsettles.accounted (hl hzero)
  exact (hf a c m₁ l₁ hl₁).mono fun _ _ hsettles' => hsettles.trans hsettles'

/-- What does not know the queue is calm. -/
theorem Blind.calm {holds : Nat} {kept loose : List Item} {us : α → List Item} {x : Eval α}
    (hx : Blind x) : Calm (tally holds) kept loose us x x :=
  fun _ _ _ _ hf => Tallies.bind hx.tallies hf

theorem Tallies.outcome {holds : Nat} {x y : Eval α} (hx : Tallies holds x y) :
    Tallies holds (Eval.outcome x) (Eval.outcome y) := by
  intro c m l hl
  unfold Eval.outcome
  obtain ⟨hx, hy⟩ | ⟨r, m', l', hx, hy, hsettles⟩ := (hx c m l hl).inv
  · rw [hx, hy]
    exact .exhausted
  · rw [hx, hy]
    exact .ended (.ok r) m' l' hsettles

theorem Tallies.holding [Owner α] {holds : Nat} {refs : List Ref} {x y : Eval α}
    (hx : Tallies holds x y) : Tallies holds (Eval.holding refs x) (Eval.holding refs y) := by
  intro c m l hl
  unfold Eval.holding
  obtain ⟨hx, hy⟩ | ⟨r, m', l', hx, hy, hsettles⟩ := (hx _ m l hl).inv
  · rw [hx, hy]
    exact .exhausted
  · rw [hx, hy]
    exact .ended r (m'.release (Owner.refs r ++ c.held) refs) l' hsettles

end

section
variable {holds : Nat}

/-- No primitive knows the queue, those that deal with the tasks
apart. -/
theorem tally_rules : Rules (tally holds) where
  result _ _ := Blind.tallies fun _ _ _ => rfl
  bind hx hf := Tallies.bind hx hf
  exit _ _ := Blind.tallies fun _ _ _ => rfl
  outcome hx := Tallies.outcome hx
  holding _ _ hx := Tallies.holding hx
  here hf := Tallies.bind (Blind.tallies fun _ _ _ => rfl) hf
  within _ hx _ m l hl := hx _ m l hl
  newExports := Blind.calm fun _ _ _ => rfl
  newPart _ _ := Blind.calm fun _ _ _ => rfl
  newFrame _ hf := Tallies.bind (Blind.tallies fun _ _ _ => rfl) fun id => Tallies.holding (hf id)
  newInstance _ := Blind.tallies fun _ _ _ => rfl
  lookup? _ := Blind.calm fun _ _ _ => rfl
  getLocal? _ _ := Blind.calm fun _ _ _ => rfl
  boundCount _ := Blind.calm fun _ _ _ => rfl
  declareIn name _ _ _ := (Aloof.declareIn _ name _).unaware.blind.tallies
  assign name _ _ := (Aloof.assign name _).unaware.blind.tallies
  copyBindings _ _ := (Aloof.copyBindings _ _).unaware.blind.tallies
  checkInterrupt := Aloof.checkInterrupt.unaware.blind.tallies
  write text := (Aloof.write text).unaware.blind.tallies
  readLine := Aloof.readLine.unaware.blind.tallies
  report e := (Blind.report e).tallies
  note _ := Blind.calm fun _ _ _ => rfl
  noteVisit node := (Blind.noteVisit node).tallies
  handlersOf _ := Blind.tallies fun _ _ _ => rfl

theorem tally_nodeRules : NodeRules (tally holds) where
  nearestExports? := Blind.calm fun _ _ _ => rfl
  exportIn name _ _ _ := (Aloof.declareIn _ name _).unaware.blind.tallies
  code _ _ _ _ _ _ _ hx := hx
  exhausted := Blind.tallies fun _ _ _ => rfl
  trigger _ _ := Blind.tallies fun _ _ _ => rfl

theorem tally_discipline : Discipline (tally holds) (tally holds) where
  toConduct := .of_counters tally_rules (fun _ _ => Aloof.enterCall.unaware.blind.tallies)
    (fun _ _ => Blind.tallies fun _ _ _ => rfl) (fun _ _ => Blind.calm fun _ _ _ => rfl)
    (fun _ _ path => (Unaware.startBring path).blind.tallies)
    fun _ _ => Blind.calm fun _ _ _ => rfl
  toNodeRules := tally_nodeRules

end

/-! ### A drain -/

section
variable {c : Context} {m : Machine} {l : Ledger}

theorem amend_bind {α : Type} (f : Ledger → Ledger) (g : Unit → Eval α) :
    (Evaluator.amend f >>= g) c (m.filed l) = g () c (m.filed (f l)) := by
  show g () c ((m.filed l).filed (f (Ledger.read l.file))) = _
  rw [Ledger.read_file]
  rfl

theorem takeDue_bind {α : Type} (f : List (Nat × List Node) → Eval α) :
    (Evaluator.takeDue >>= f) c (m.filed l) = f l.due c (m.filed l.takeAll) := by
  show f (Ledger.read l.file).due c ((m.filed l).filed (Ledger.read l.file).takeAll) = _
  rw [Ledger.read_file]
  rfl

/-- Putting a block off by the ledger tallies with putting it off. -/
theorem tallied_paral (body : List Node) :
    Tallied (fun _ l' => l' = l.enter body) (Evaluator.auditedParal body c (m.filed l))
      (Evaluator.paral body c (m.queued l)) := by
  have hqueued : Evaluator.paral body c (m.queued l) =
      some (.ok .nil, m.queued (l.enter body)) := by
    show some (_, { m with tasks := ⟨l.waiting ++ [body]⟩ }) = _
    rw [← Ledger.waiting_enter]
    rfl
  rw [hqueued]
  unfold Evaluator.auditedParal
  rw [amend_bind]
  exact .ended _ m _ rfl

theorem queued_eq {l l' : Ledger} (h : l'.waiting = l.waiting) : m.queued l' = m.queued l := by
  rw [Machine.queued, Machine.queued, h]

/-- What has become of the ledger when one task has run: if it has
exited, the tasks after it have been left behind. -/
def Ran (after : List Nat) (l : Ledger) : Except Exit Unit → Ledger → Prop
  | .ok _, l' => l.Settles l'
  | .error _, l' => ∃ l₁, l.Settles l₁ ∧ l' = l₁.putAll .abandoned after

/-- To leave tasks behind that have been taken does not show in the
queue. -/
theorem tallied_abandoning {after : List Nat} {x y : Eval Unit} {m' : Machine}
    (h : Tallied (fun _ l' => l.Settles l') (x c m) (y c m'))
    (htaken : ∀ n ∈ after, ∃ r, l[n]? = some r ∧ r.marks ≠ []) :
    Tallied (Ran after l) (Evaluator.abandoning after x c m) (y c m') := by
  show Tallied (Ran after l) (Eval.bind (Eval.outcome x) _ c m) _
  unfold Eval.bind Eval.outcome
  obtain ⟨hx, hy⟩ | ⟨r, m₁, l₁, hx, hy, hsettles⟩ := h.inv
  · rw [hx, hy]
    exact .exhausted
  · rw [hx, hy]
    cases r with
    | ok _ => exact .ended _ m₁ l₁ hsettles
    | error e =>
      have hwaiting : (l₁.putAll .abandoned after).waiting = l₁.waiting := by
        refine Ledger.waiting_putAll .abandoned fun n hn => ?_
        obtain ⟨r, hr, hmarks⟩ := htaken n hn
        exact ⟨r, hsettles.getElem?_eq hr hmarks, hmarks⟩
      show Tallied (Ran after l) ((Evaluator.amend (Ledger.putAll .abandoned · after) >>= fun _ =>
        Eval.exit e) c (m₁.filed l₁)) _
      rw [amend_bind, ← queued_eq hwaiting]
      exact .ended _ m₁ _ ⟨l₁, hsettles, rfl⟩

/-- An evaluation that has a result and no exit. -/
def EndsWell {α : Type} (x : Eval α) (c : Context) (m : Machine) : Prop :=
  ∃ a m', x c m = some (.ok a, m')

/-- What has become of the ledger when tasks have been drained that `ev`
evaluates, from a machine on. A task has been started if those before it
end well, and if one does not the drain ends with its exit. -/
def Drains {α : Type} (ev : Evaluator) (c : Context) (m : Machine)
    (due : List (Nat × List Node)) (l : Ledger) (r : Except Exit α) (l' : Ledger) : Prop :=
  ∃ k, Ledger.Drained due k l l' ∧ (k < due.length → ∃ e, r = .error e) ∧
    ∀ i < due.length,
      i < k ↔ EndsWell (Evaluator.runBlocks ev ((due.map Prod.snd).take i)) c m

section
variable {α β : Type} {ev : Evaluator} {due : List (Nat × List Node)} {l' l'' : Ledger}

theorem Drains.exited {e : Exit} (h : Drains ev c m due l (.error e : Except Exit α) l') :
    Drains ev c m due l (.error e : Except Exit β) l' := by
  obtain ⟨k, hdrained, -, hturn⟩ := h
  exact ⟨k, hdrained, fun _ => ⟨e, rfl⟩, hturn⟩

/-- After a drain that has ended well all tasks have been started, and
what follows does not change that. -/
theorem Drains.followed {a : α} (h : Drains ev c m due l (.ok a) l') (hsettles : l'.Settles l'')
    (r : Except Exit β) : Drains ev c m due l r l'' := by
  obtain ⟨k, hdrained, hexit, hturn⟩ := h
  refine ⟨k, hdrained.followed hsettles, fun hlt => ?_, hturn⟩
  obtain ⟨_, herror⟩ := hexit hlt
  cases herror

theorem Drains.settles {r : Except Exit α} (h : Drains ev c m l.due l.takeAll r l') :
    l.Settles l' := by
  obtain ⟨k, hdrained, -⟩ := h
  exact hdrained.settles

/-- All tasks have been started if each of them has its turn. -/
theorem Drains.started_iff {r : Except Exit α} (h : Drains ev c m due l r l') :
    (∀ t ∈ due, l'[t.1]? = some ⟨t.2, []⟩ ∨ l'[t.1]? = some ⟨t.2, [.taken, .started]⟩) ↔
      ∀ i < due.length, EndsWell (Evaluator.runBlocks ev ((due.map Prod.snd).take i)) c m := by
  obtain ⟨k, hdrained, -, hturn⟩ := h
  constructor
  · intro hall i hi
    refine (hturn i hi).mp (Nat.lt_of_lt_of_le hi (Nat.le_of_not_lt fun hlt => ?_))
    -- The task after the last one that has been started has been abandoned.
    have hmem : due[k] ∈ due.drop k := by
      rw [List.drop_eq_getElem_cons hlt]
      exact List.mem_cons_self ..
    have habandoned := hdrained.abandoned _ hmem
    rcases hall _ (List.getElem_mem hlt) with hwaits | hstarted
    · rw [hwaits] at habandoned
      cases habandoned
    · rw [hstarted] at habandoned
      cases habandoned
  · intro hall t ht
    have hk : due.length ≤ k := by
      refine Nat.le_of_not_lt fun hlt => Nat.lt_irrefl k ?_
      exact (hturn k hlt).mpr (hall k hlt)
    rw [← List.take_of_length_le hk] at ht
    exact .inr (hdrained.started t ht)

end

/-- The first one of some blocks has ended well, so all of them end as
the others do. -/
theorem endsWell_cons_iff {ev : Evaluator} {first : List Node} {rest : List (List Node)}
    {m' : Machine} (hfirst : Evaluator.runBlock ev first c m = some (.ok (), m')) :
    EndsWell (Evaluator.runBlocks ev (first :: rest)) c m ↔
      EndsWell (Evaluator.runBlocks ev rest) c m' := by
  have hrest : Evaluator.runBlocks ev (first :: rest) c m = Evaluator.runBlocks ev rest c m' := by
    show Eval.bind (Evaluator.runBlock ev first) _ c m = _
    unfold Eval.bind
    rw [hfirst]
  unfold EndsWell
  rw [hrest]

theorem not_endsWell_cons {ev : Evaluator} {first : List Node} {rest : List (List Node)}
    {m' : Machine} {e : Exit} (hfirst : Evaluator.runBlock ev first c m = some (.error e, m')) :
    ¬ EndsWell (Evaluator.runBlocks ev (first :: rest)) c m := by
  rintro ⟨a, m₁, hends⟩
  obtain ⟨_, -, herror⟩ | ⟨_, _, hok, -⟩ := Eval.bind_inv hends
  · cases herror
  · rw [hfirst] at hok
    cases hok

section
variable {first : Nat × List Node} {rest : List (Nat × List Node)} {l' l'' : Ledger}
  (hnodup : ((first :: rest).map Prod.fst).Nodup)
  (htaken : ∀ t ∈ first :: rest, l[t.1]? = some ⟨t.2, [.taken]⟩)
include hnodup htaken

/-- Whatever a task does, those after it stay as they have been taken. -/
theorem taken_of_settles (hfirst : (l.put .started first.1).Settles l') :
    ∀ t ∈ rest, l'[t.1]? = some ⟨t.2, [.taken]⟩ := by
  intro t ht
  obtain ⟨hnew, -⟩ := List.nodup_cons.mp hnodup
  have hne : first.1 ≠ t.1 := fun heq => hnew (heq ▸ List.mem_map_of_mem ht)
  refine hfirst.getElem?_eq ?_ (by simp)
  rw [Ledger.getElem?_put, if_neg hne, htaken t (List.mem_cons_of_mem _ ht)]

variable {ev : Evaluator} {m' : Machine}

/-- A drain goes on with the other tasks when the first one has
ended. -/
theorem Drains.next {r : Except Exit Unit}
    (hends : Evaluator.runBlock ev first.2 c m = some (.ok (), m'))
    (hfirst : (l.put .started first.1).Settles l') (hrest : Drains ev c m' rest l' r l'') :
    Drains ev c m (first :: rest) l r l'' := by
  obtain ⟨k, hdrained, hexit, hturn⟩ := hrest
  refine ⟨k + 1, hdrained.cons hnodup htaken hfirst, fun hlt => ?_, fun i hi => ?_⟩
  · exact hexit (Nat.lt_of_succ_lt_succ hlt)
  · cases i with
    | zero => exact ⟨fun _ => ⟨(), m, rfl⟩, fun _ => Nat.succ_pos k⟩
    | succ i =>
      rw [Nat.succ_lt_succ_iff, hturn i (Nat.lt_of_succ_lt_succ hi)]
      exact (endsWell_cons_iff hends).symm

/-- A drain is over when the first task has exited. -/
theorem Drains.over {e : Exit} (hends : Evaluator.runBlock ev first.2 c m = some (.error e, m'))
    (hfirst : Ran (rest.map Prod.fst) (l.put .started first.1) (.error e) l') :
    Drains ev c m (first :: rest) l (.error e : Except Exit Unit) l' := by
  obtain ⟨l₁, hsettles, rfl⟩ := hfirst
  have hstopped : Ledger.Drained rest 0 l₁ (l₁.putAll .abandoned (rest.map Prod.fst)) :=
    .stopped (List.nodup_cons.mp hnodup).2 (taken_of_settles hnodup htaken hsettles)
  refine ⟨1, hstopped.cons hnodup htaken hsettles, fun _ => ⟨e, rfl⟩, fun i hi => ?_⟩
  cases i with
  | zero => exact ⟨fun _ => ⟨(), m, rfl⟩, fun _ => Nat.one_pos⟩
  | succ i => exact ⟨fun hlt => by omega, fun hturn => absurd hturn (not_endsWell_cons hends)⟩

end

section
variable {holds : Nat} {ev ev' : Evaluator}
  (hev : ∀ node, Tallies (holds + 1) (ev node) (ev' node))
include hev

theorem tallied_runBlock (body : List Node) (c : Context) (m : Machine) (l : Ledger) :
    Tallied (fun _ l' => l.Settles l') (Evaluator.runBlock ev body c (m.filed l))
      (Evaluator.runBlock ev' body c (m.queued l)) := by
  have hblock : tally (holds + 1) Unit [] [] (Evaluator.runBlock ev body)
      (Evaluator.runBlock ev' body) :=
    tally_discipline.runBlock (fun _ _ node => hev node) body
  exact hblock c m l fun hzero => absurd hzero (Nat.succ_ne_zero holds)

/-- Tasks that have been taken are started in order, until one exits. -/
theorem tallied_runDue {due : List (Nat × List Node)} (hnodup : (due.map Prod.fst).Nodup)
    (htaken : ∀ t ∈ due, l[t.1]? = some ⟨t.2, [.taken]⟩) :
    Tallied (Drains ev' c (m.queued l) due l) (Evaluator.runDue ev due c (m.filed l))
      (Evaluator.runBlocks ev' (due.map Prod.snd) c (m.queued l)) := by
  induction due generalizing l m with
  | nil =>
    exact .ended (.ok ()) m l ⟨0, .nil l, fun hlt => absurd hlt (Nat.lt_irrefl 0),
      fun i hi => absurd hi (Nat.not_lt_zero i)⟩
  | cons first rest ih =>
    have hqueued : m.queued (l.put .started first.1) = m.queued l :=
      queued_eq (Ledger.waiting_put .started (htaken first (List.mem_cons_self ..)) (by simp))
    have hstarted : ∀ n ∈ rest.map Prod.fst, ∃ r, (l.put .started first.1)[n]? = some r ∧
        r.marks ≠ [] := by
      intro n hn
      obtain ⟨t, ht, rfl⟩ := List.mem_map.mp hn
      exact ⟨_, taken_of_settles hnodup htaken (.refl _) t ht, by simp⟩
    show Tallied _ ((Evaluator.amend (Ledger.put .started · first.1) >>= fun _ => _) c _)
      ((Evaluator.runBlock ev' first.2 >>= fun _ => _) c _)
    rw [amend_bind, ← hqueued]
    refine (tallied_abandoning (tallied_runBlock hev first.2 c m _) hstarted).bind ?_ ?_
    · intro _ m₁ l₁ hends hfirst
      have htaken₁ := taken_of_settles hnodup htaken hfirst
      exact (ih (List.nodup_cons.mp hnodup).2 htaken₁).mono fun r l' hrest =>
        .next hnodup htaken hends hfirst hrest
    · exact fun e m₁ l₁ hends hfirst => .over hnodup htaken hends hfirst

/-- A drain by the ledger tallies with a drain of the queue. -/
theorem tallied_hold (body : List Node) (c : Context) (m : Machine) (l : Ledger) :
    Tallied (Drains ev' c ((m.note (.hold l.due.length)).queued l.takeAll) l.due l.takeAll)
      (Evaluator.auditedHold ev body c (m.filed l)) (Evaluator.hold ev' body c (m.queued l)) := by
  have htaken : ∀ t ∈ l.due, l.takeAll[t.1]? = some ⟨t.2, [.taken]⟩ := by
    intro t ht
    rw [Ledger.getElem?_takeAll, Ledger.mem_due.mp ht]
    rfl
  have hqueued : m.queued l.takeAll = { m.queued l with tasks := .empty } := by
    rw [Machine.queued, Ledger.waiting_takeAll]
    rfl
  have hlength : l.waiting.length = l.due.length := by
    rw [← Ledger.map_snd_due, List.length_map]
  have hbody := tallied_runBlock hev body c
  show Tallied _ ((Evaluator.takeDue >>= fun _ => _) c _)
    ((Eval.note (.hold l.waiting.length) >>= fun _ => Evaluator.runBlocks ev' l.waiting >>= fun _ =>
      _) c { m.queued l with tasks := .empty })
  rw [takeDue_bind, ← hqueued, hlength, ← Ledger.map_snd_due]
  have hdue := tallied_runDue (c := c) (m := m.note (.hold l.due.length)) hev (Ledger.nodup_due l)
    htaken
  refine hdue.bind (fun _ m₁ l₁ _ hdrains => ?_) fun _ _ _ _ hdrains => hdrains.exited
  refine (hbody m₁ l₁).bind (fun _ m₂ l₂ _ hsettles => ?_) fun _ _ _ _ hsettles => ?_
  · exact .ended _ m₂ l₂ (hdrains.followed hsettles _)
  · exact hdrains.followed hsettles _

end

end

/-! ### Every moment of a run -/

/-- A look that raises an alarm if no drain is running and a task is not
accounted for. -/
noncomputable def auditor (alarm : Eval Unit) (holds : Nat) : Eval Unit :=
  sentry (fun _ m => holds = 0 → (Ledger.read m.tasks).Accounted) alarm

section
variable {holds : Nat}

/-- Where all is accounted for the auditor changes nothing. -/
theorem tallies_guarded {α : Type} (alarm : Eval Unit) {x y : Eval α} (hx : Tallies holds x y) :
    Tallies holds (Evaluator.guarded (auditor alarm holds) x) y := by
  intro c m l hl
  have hquiet : ∀ {m : Machine} {l : Ledger}, (holds = 0 → l.Accounted) →
      auditor alarm holds c (m.filed l) = some (.ok (), m.filed l) := by
    intro m l hl
    refine if_pos ?_
    show holds = 0 → (Ledger.read l.file).Accounted
    rwa [Ledger.read_file]
  show Tallied _ (Eval.bind (auditor alarm holds) (fun _ => Eval.bind (Eval.outcome x) fun r =>
    Eval.bind (auditor alarm holds) fun _ => Eval.ofOutcome r) c _) _
  obtain ⟨hx, hy⟩ | ⟨r, m', l', hx, hy, hsettles⟩ := (hx c m l hl).inv
  · simp only [Eval.bind, Eval.outcome, hquiet hl, hx, hy]
    exact .exhausted
  · have hl' : holds = 0 → l'.Accounted := fun hzero => hsettles.accounted (hl hzero)
    simp only [Eval.bind, Eval.outcome, hquiet hl, hx, hy, hquiet hl']
    cases r <;> exact .ended _ m' l' hsettles

/-- What a node does by the ledger tallies with what it does. -/
theorem tallies_step {ev inner ev' : Evaluator} (hev : ∀ node, Tallies holds (ev node) (ev' node))
    (hinner : ∀ node, Tallies (holds + 1) (inner node) (ev' node)) (bound : Nat) (node : Node) :
    Tallies holds (Evaluator.auditedStep ev inner bound node)
      (Evaluator.step ev' (Evaluator.runBlock ev') bound node) := by
  cases hnode : node.defers with
  | false =>
    rw [Evaluator.auditedStep_of_now hnode]
    have hstep : tally holds Value [] [] (Evaluator.step ev (Evaluator.runBlock ev) bound node)
        (Evaluator.step ev' (Evaluator.runBlock ev') bound node) :=
      tally_discipline.stepNow (fun _ _ node => hev node)
        (fun _ _ body => tally_discipline.runBlock (fun _ _ node => hev node) body) bound hnode
    exact hstep
  | true =>
    intro c m l hl
    cases node with
    | paral body =>
      refine (tallied_paral body).mono fun r l' hl' => ?_
      rw [hl']
      exact l.settles_enter body
    | hold body => exact (tallied_hold hinner body c m l).mono fun r l' h => h.settles
    | listen body =>
      have hlisten : tally holds Value [] [] (Evaluator.listen ev body)
          (Evaluator.listen ev' body) :=
        tally_rules.listen (fun _ _ node => hev node)
          (fun _ _ => Blind.tallies fun _ _ _ => rfl) body
      exact hlisten c m l hl
    | _ => cases hnode

/-- Whatever the alarm, audited evaluations tally with plain ones. The
number of drains goes up exactly where a drain runs tasks. -/
theorem audited_tallies (alarm : Eval Unit) (steps holds : Nat) (node : Node) :
    Tallies holds (audited (auditor alarm) steps holds node) (evaluate steps node) := by
  induction steps generalizing holds node with
  | zero => exact Blind.tallies fun _ _ _ => rfl
  | succ steps ih =>
    have hstep : tally holds Value [] [] _ _ :=
      tallies_step (ih holds) (ih (holds + 1)) steps node
    have hvisit : tally holds Value [] [] _ _ := tally_discipline.visit node hstep
    exact tallies_guarded alarm hvisit

end

/-- Nobody forgets a task but a drain that ends early. A new interpreter
has put no task off, and on any machine, with a ledger of its tasks:

* If all tasks are accounted for, the evaluation of a node and the run
  of a program tally with the plain ones, whatever the alarm: at every
  moment at which no drain is running every task waits in its place, has
  been started exactly once, or has been abandoned. So it is in the end,
  and what has not waited in the beginning is as it was.
* Putting a block off makes it the last one of the tasks that wait.
* A drain takes the tasks that wait, and those that are put off
  meanwhile are not its own. It starts the ones before which all others
  end well and abandons the rest. All of its tasks have been started
  exactly once, or still wait, exactly if none but the last one of them
  exits. -/
theorem tasks_accounted (c : Context) (m : Machine) (l : Ledger) (steps : Nat)
    (alarm : Eval Unit) :
    let ev := audited (auditor alarm) steps
    let draining := (m.note (.hold l.due.length)).queued l.takeAll
    (∀ settings out err input first,
      let start := (Session.start settings out err input first).machine
      start.queued [] = start ∧ Ledger.Accounted []) ∧
    (l.Accounted →
      (∀ node, Tallied (fun _ l' => l.Settles l' ∧ l'.Accounted) (ev 0 node c (m.filed l))
        (evaluate steps node c (m.queued l))) ∧
      ∀ program, Tallied (fun _ l' => l.Settles l' ∧ l'.Accounted)
        (runProgram (ev 0) program c (m.filed l))
        (runProgram (evaluate steps) program c (m.queued l))) ∧
    (∀ body, Tallied (fun _ l' => l' = l.enter body)
      (Evaluator.auditedParal body c (m.filed l)) (Evaluator.paral body c (m.queued l))) ∧
    ∀ holds body, Tallied
      (fun r l' => Drains (evaluate steps) c draining l.due l.takeAll r l' ∧
        ((∀ t ∈ l.due,
            l'[t.1]? = some ⟨t.2, []⟩ ∨ l'[t.1]? = some ⟨t.2, [.taken, .started]⟩) ↔
          ∀ i < l.due.length,
            EndsWell (Evaluator.runBlocks (evaluate steps) (l.waiting.take i)) c draining))
      (Evaluator.auditedHold (ev (holds + 1)) body c (m.filed l))
      (Evaluator.hold (evaluate steps) body c (m.queued l)) := by
  intro ev draining
  refine ⟨fun settings out err input first => ⟨rfl, fun r hr => by cases hr⟩,
    fun hl => ⟨fun node => ?_, fun program => ?_⟩, tallied_paral, fun holds body => ?_⟩
  · refine (audited_tallies alarm steps 0 node c m l fun _ => hl).mono fun _ l' hsettles => ?_
    exact ⟨hsettles, hsettles.accounted hl⟩
  · have hrun : tally 0 Unit [] [] (runProgram (ev 0) program)
        (runProgram (evaluate steps) program) :=
      tally_discipline.runProgram (fun _ _ node => audited_tallies alarm steps 0 node) program
    refine (hrun c m l fun _ => hl).mono fun _ l' hsettles => ?_
    exact ⟨hsettles, hsettles.accounted hl⟩
  · refine (tallied_hold (audited_tallies alarm steps (holds + 1)) body c m l).mono fun r l' h => ?_
    exact ⟨h, Ledger.map_snd_due l ▸ h.started_iff⟩

/-- Two tasks wait, and the first one ends their drain. -/
theorem tasks_accounted_raised :
    let l : Ledger := [⟨[.trigger "E" none], []⟩, ⟨[.print [.text "later"]], []⟩]
    let c : Context := ⟨.standard, 0, [.scope 0]⟩
    let m := Machine.single (Scope.top .global)
    l.Accounted ∧ ∀ alarm, ∃ (r : Except Exit Value) (m' : Machine) (l' : Ledger),
      evaluate 3 (.hold []) c (m.queued l) = some (r, m'.queued l') ∧
        audited (auditor alarm) 3 0 (.hold []) c (m.filed l) = some (r, m'.filed l') ∧
        l'.Accounted := by
  intro l c m
  have hl : l.Accounted := by
    intro r hr
    simp only [l, List.mem_cons, List.not_mem_nil, or_false] at hr
    rcases hr with rfl | rfl <;> exact .waiting rfl
  refine ⟨hl, fun alarm => ?_⟩
  have hends : (evaluate 3 (.hold []) c (m.queued l)).isSome = true := by decide +kernel
  have htallied := ((tasks_accounted c m l 3 alarm).2.1 hl).1 (.hold [])
  obtain ⟨-, hnone⟩ | ⟨r, m', l', haudited, hplain, -, haccounted⟩ := htallied.inv
  · rw [hnone] at hends
    cases hends
  · exact ⟨r, m', l', hplain, haudited, haccounted⟩

/-- A task that nobody has started need not wait: two tasks are put off,
the first one exits, and in the end the second one has been abandoned
and the queue is empty. -/
theorem task_abandoned :
    let program := Node.program
      [.paral [.trigger "E" none], .paral [.print [.text "later"]], .hold []]
    let c : Context := ⟨.standard, 0, [.scope 0]⟩
    let m := Machine.single (Scope.top .global)
    ((runProgram (audited (fun _ => pure ()) 4 0) program c (m.filed [])).map fun (_, m') =>
        (Ledger.read m'.tasks).map Record.marks) =
      some [[.taken, .started], [.taken, .abandoned]] ∧
    ((runProgram (evaluate 4) program c m).map fun (_, m') => m'.tasks.size) = some 0 := by
  decide +kernel

end Treewalk.Proofs
