import Treewalk.Proofs.Attempts
import Treewalk.Proofs.Listening

/-!
# `Treewalk.Proofs.Signalling`: a signal runs what has listened

A signal takes the handlers of its event when it begins. It runs them one
after the other, and then the rest of its own block. A handler may do
anything: make further blocks listen, send the same signal again, or
leave with an exit.

`Relays` is the account of blocks that run one after the other, with the
machine on which each begins and ends. An exit of one of them ends the
whole. `RunsOut` is the account of blocks one of which has run out of
steps.

`AfterHearing` lists the blocks that have listened on the way to a
machine, in the sense of `Treewalk.Proofs.Listening`, and
`signals_run_listeners` says that a signal runs just these, those for its
event, in the order in which they have come.
-/

set_option autoImplicit false

namespace Treewalk.Proofs

open LogEntry (listened)

/-! ### Blocks one after the other -/

section
variable (ev : Evaluator) (c : Context)

/-- Blocks that run one after the other, up to the first one that
exits. -/
inductive Relays : List (List Node) → Machine → Except Exit Unit → Machine → Prop where
  | done (m : Machine) : Relays [] m (.ok ()) m
  | next {block : List Node} {rest : List (List Node)} {m m₁ m' : Machine} {r : Except Exit Unit} :
      Evaluator.runBlock ev block c m = some (.ok (), m₁) → Relays rest m₁ r m' →
        Relays (block :: rest) m r m'
  | stopped {block : List Node} {rest : List (List Node)} {m m' : Machine} {e : Exit} :
      Evaluator.runBlock ev block c m = some (.error e, m') →
        Relays (block :: rest) m (.error e) m'

/-- Blocks that run one after the other, up to one that runs out of
steps. -/
inductive RunsOut : List (List Node) → Machine → Prop where
  | first {block : List Node} {rest : List (List Node)} {m : Machine} :
      Evaluator.runBlock ev block c m = none → RunsOut (block :: rest) m
  | later {block : List Node} {rest : List (List Node)} {m m₁ : Machine} :
      Evaluator.runBlock ev block c m = some (.ok (), m₁) → RunsOut rest m₁ →
        RunsOut (block :: rest) m

end

section
variable {ev : Evaluator} {c : Context} {m m' : Machine} {blocks : List (List Node)}

/-- The blocks run as told, or they run out of steps. -/
theorem runBlocks_cases (ev : Evaluator) (c : Context) (m : Machine) (blocks : List (List Node)) :
    (Evaluator.runBlocks ev blocks c m = none ∧ RunsOut ev c blocks m) ∨
      ∃ r m', Evaluator.runBlocks ev blocks c m = some (r, m') ∧ Relays ev c blocks m r m' := by
  induction blocks generalizing m with
  | nil => exact .inr ⟨.ok (), m, rfl, .done m⟩
  | cons block rest ih =>
    rcases hblock : Evaluator.runBlock ev block c m with _ | ⟨e | u, m₁⟩
    · exact .inl ⟨Eval.bind_of_none hblock, .first hblock⟩
    · exact .inr ⟨_, m₁, Eval.bind_of_error hblock, .stopped hblock⟩
    · have hrest : Evaluator.runBlocks ev (block :: rest) c m =
          Evaluator.runBlocks ev rest c m₁ := Eval.bind_of_ok hblock
      rw [hrest]
      obtain ⟨hnone, hout⟩ | ⟨r, m', hends, hrelays⟩ := ih m₁
      · exact .inl ⟨hnone, .later hblock hout⟩
      · exact .inr ⟨r, m', hends, .next hblock hrelays⟩

/-- One more block runs last. -/
theorem runBlocks_concat (ev : Evaluator) (blocks : List (List Node)) (last : List Node) :
    Evaluator.runBlocks ev (blocks ++ [last]) = (do
      Evaluator.runBlocks ev blocks
      Evaluator.runBlock ev last) := by
  induction blocks with
  | nil => exact bind_pure (Evaluator.runBlock ev last)
  | cons block rest ih =>
    show (Evaluator.runBlock ev block >>= fun _ => Evaluator.runBlocks ev (rest ++ [last])) =
      (Evaluator.runBlock ev block >>= fun _ => Evaluator.runBlocks ev rest) >>= _
    rw [ih, bind_assoc]

/-- No block ends with a fault, so none of them together do. -/
theorem Relays.isFault {steps : Nat} {r : Except Exit Unit} {e : Exit}
    (h : Relays (evaluate steps) c blocks m r m') (hr : r = .error e) : e.isFault = false := by
  induction h with
  | done => cases hr
  | next _ _ ih => exact ih hr
  | stopped hblock =>
    cases hr
    exact runBlock_isFault hblock

end

/-! ### A signal -/

/-- What has listened for an event: the blocks without the statement that
names it, in order. -/
def listenersOf (event : String) (heard : List (String × List Node)) : List (List Node) :=
  (heard.filter fun h => h.1 = event).map fun h => h.2.tail

/-- A machine whose handlers are the blocks that have listened. -/
def Handles (heard : List (String × List Node)) (m : Machine) : Prop :=
  m.registry.entries = heard.map listener

/-- A machine that evaluations lead to, one after the other, from one
that has run nothing, and the blocks that have listened on the way.
Whatever else is done to the machine in between, by the host or by the
reports of a program, leaves the handlers alone. -/
inductive AfterHearing : List (String × List Node) → Machine → Prop where
  | start (store : Store) (out err : Sink) (input : Source) :
      AfterHearing [] (.start store out err input)
  | evaluated {heard : List (String × List Node)} {m m' : Machine} {c : Context} {steps : Nat}
      {node : Node} {r : Except Exit Value} {entries : List LogEntry} : AfterHearing heard m →
      evaluate steps node c m = some (r, m') →
      hearing (pure ()) steps node c m = some (r, { m' with log := entries ++ m.log }) →
        AfterHearing (heard ++ listened entries) m'
  | between {heard : List (String × List Node)} {m m' : Machine} : AfterHearing heard m →
      m'.registry = m.registry → AfterHearing heard m'

section
variable {heard : List (String × List Node)} {m m' : Machine}

theorem Handles.attended (h : Handles heard m) (hattended : Attended m m') :
    ∃ entries, m'.log = entries ++ m.log ∧ Handles (heard ++ listened entries) m' := by
  obtain ⟨entries, hlog, hregistry⟩ := hattended
  refine ⟨entries, hlog, ?_⟩
  unfold Handles
  rw [hregistry, h, List.map_append]

/-- Over a recorded evaluation the handlers grow with the records. -/
theorem Handles.hearing (h : Handles heard m) {c : Context} {steps : Nat} {node : Node}
    {r : Except Exit Value} (hends : hearing (pure ()) steps node c m = some (r, m')) :
    ∃ entries, m'.log = entries ++ m.log ∧ Handles (heard ++ listened entries) m' := by
  have hattends : Attends m (Treewalk.hearing (sentry (fun _ _ => True) (pure ())) steps node)
      (Treewalk.hearing (pure ()) steps node) :=
    hearing_attends (fun _ _ _ => trivial) (pure ()) steps node
  exact h.attended ((hattends c m (.refl m)).2 r m' hends)

/-- An evaluation that ends also does so if it is recorded. -/
theorem exists_hearing {c : Context} {steps : Nat} {node : Node} {r : Except Exit Value}
    (hends : evaluate steps node c m = some (r, m')) :
    ∃ entries, hearing (pure ()) steps node c m =
      some (r, { m' with log := entries ++ m.log }) := by
  obtain ⟨-, hnone⟩ | ⟨r', m₁, entries, hrecorded, hplain⟩ := (hearing_records steps node c m).inv
  · rw [hnone] at hends
    cases hends
  · rw [hplain] at hends
    cases hends
    exact ⟨entries, hrecorded⟩

/-- Over a plain evaluation they grow as over a recorded one. -/
theorem Handles.evaluate (h : Handles heard m) {c : Context} {steps : Nat} {node : Node}
    {r : Except Exit Value} (hends : evaluate steps node c m = some (r, m')) :
    ∃ more, Handles (heard ++ more) m' := by
  obtain ⟨entries, hrecorded⟩ := exists_hearing hends
  obtain ⟨entries', -, hhandles⟩ := h.hearing hrecorded
  exact ⟨listened entries', hhandles⟩

/-- Every evaluation leads on. -/
theorem AfterHearing.evaluate (h : AfterHearing heard m) {c : Context} {steps : Nat} {node : Node}
    {r : Except Exit Value} (hends : evaluate steps node c m = some (r, m')) :
    ∃ more, AfterHearing (heard ++ more) m' := by
  obtain ⟨entries, hrecorded⟩ := exists_hearing hends
  exact ⟨listened entries, .evaluated h hends hrecorded⟩

/-- The handlers are what has listened. -/
theorem AfterHearing.handles (h : AfterHearing heard m) : Handles heard m := by
  induction h with
  | start => rfl
  | evaluated _ _ hrecorded ih =>
    obtain ⟨entries', hlog, hhandles⟩ := ih.hearing hrecorded
    rw [List.append_cancel_right hlog]
    exact hhandles
  | between _ hregistry ih =>
    unfold Handles
    rw [hregistry]
    exact ih

/-- The statements that the handlers of an event run. -/
theorem Handles.statements (h : Handles heard m) (event : String) :
    (m.registry.handlers event).map Handler.statements = listenersOf event heard := by
  unfold Registry.handlers listenersOf
  rw [h, List.filter_map, List.map_map, List.map_map]
  refine List.map_congr_left fun l _ => ?_
  exact List.drop_one

end

section
variable {c : Context} {m : Machine} {body : List Node} {event : String}

theorem signal_eq (ev : Evaluator) (hevent : eventName? body = some event) :
    Evaluator.signal ev body c m =
      (do
        Evaluator.runBlocks ev ((m.registry.handlers event).map Handler.statements ++ [body.tail])
        pure Value.nil) c (m.note (.signal event (m.registry.handlers event).length)) := by
  rw [runBlocks_concat, bind_assoc]
  simp only [Evaluator.signal, hevent]
  rfl

/-- A signal as a node runs the handlers of its event, and then the rest
of its block, after its entries in the log. -/
theorem evaluate_signal (hevent : eventName? body = some event) (hflag : m.interrupted = false)
    (steps : Nat) :
    ∃ log, ∀ blocks, blocks = (m.registry.handlers event).map Handler.statements ++ [body.tail] →
      (evaluate (steps + 1) (.signal body) c m = none ∧
          RunsOut (evaluate steps) c blocks { m with log }) ∨
        ∃ r m', evaluate (steps + 1) (.signal body) c m = some (r.map fun _ => .nil, m') ∧
          Relays (evaluate steps) c blocks { m with log } r m' := by
  obtain ⟨log, hvisit⟩ := noteVisit_apply (.signal body) c m
  refine ⟨.signal event (m.registry.handlers event).length :: log, fun blocks hblocks => ?_⟩
  have hnode : evaluate (steps + 1) (.signal body) c m =
      Evaluator.recovering (Evaluator.signal (evaluate steps) body) c { m with log } :=
    evaluate_of_visit hflag hvisit steps
  have hsignal : Evaluator.signal (evaluate steps) body c { m with log } =
      (Evaluator.runBlocks (evaluate steps) blocks >>= fun _ => pure .nil) c
        { m with log := .signal event (m.registry.handlers event).length :: log } := by
    rw [hblocks]
    exact signal_eq (evaluate steps) hevent
  rw [hnode]
  obtain ⟨hnone, hout⟩ | ⟨r, m', hends, hrelays⟩ := runBlocks_cases (evaluate steps) c
    { m with log := .signal event (m.registry.handlers event).length :: log } blocks
  · have hnone' := hsignal.trans (Eval.bind_of_none hnone)
    exact .inl ⟨Eval.bind_of_none (Eval.outcome_eq_none.mpr hnone'), hout⟩
  · refine .inr ⟨r, m', ?_, hrelays⟩
    cases r with
    | ok u =>
      have hended := hsignal.trans (Eval.bind_of_ok hends)
      exact recovering_of_isFault hended fun e he => by cases he
    | error e =>
      have hended := hsignal.trans (Eval.bind_of_error hends)
      refine recovering_of_isFault hended fun e' he' => ?_
      cases he'
      exact hrelays.isFault rfl

/-- A block that listens becomes the last handler of its event. -/
theorem evaluate_listen (hevent : eventName? body = some event) (hflag : m.interrupted = false)
    (steps : Nat) :
    ∃ log, evaluate (steps + 1) (.listen body) c m =
      some (.ok .nil, { m with log, registry := m.registry.register event ⟨body, 1⟩ }) := by
  obtain ⟨log, hvisit⟩ := noteVisit_apply (.listen body) c m
  refine ⟨log, (evaluate_of_visit hflag hvisit steps).trans ?_⟩
  have hlisten : Evaluator.listen (evaluate steps) body c { m with log } =
      some (.ok .nil, { m with log, registry := m.registry.register event ⟨body, 1⟩ }) := by
    simp only [Evaluator.listen, hevent]
    rfl
  exact recovering_of_isFault hlisten fun e he => by cases he

end

/-- A signal runs what has listened.

* The evaluator that records what listens is the plain one, but for the
  records in the log.
* The handlers of a machine are the blocks that have listened on the way
  to it, in order, and every evaluation leads on from there. They also are
  at every moment of an evaluation, however deep in it: no sentry is ever
  alarmed.
* A signal does nothing if the run is to stop. Otherwise it runs the
  blocks that have listened for its event, each once and in order, and
  then the rest of its own block, all in the scope of the signal, or one
  of them runs out of steps. The first exit of one of them is its own
  exit, and is no fault.
* Over an evaluation, however it ends, blocks that listen come after those
  that have listened. A block that listens for an event becomes its last
  handler, and the handlers of other events stay as they are. -/
theorem signals_run_listeners :
    (∀ (steps : Nat) (node : Node) (c : Context) (m : Machine),
      SameBut LogEntry.isStrayBack m.log (hearing (pure ()) steps node c m)
        (evaluate steps node c m)) ∧
    (∀ (heard : List (String × List Node)) (m : Machine), AfterHearing heard m →
      Handles heard m ∧
      ∀ (steps : Nat) (node : Node) (c : Context) (r : Except Exit Value) (m' : Machine),
        evaluate steps node c m = some (r, m') → ∃ more, AfterHearing (heard ++ more) m') ∧
    ∀ (heard : List (String × List Node)) (m : Machine), Handles heard m → ∀ (c : Context)
      (steps : Nat),
      (∀ (node : Node) (alarm : Eval Unit),
        let look := sentry (fun _ m' => ∃ entries, m'.log = entries ++ m.log ∧
          Handles (heard ++ listened entries) m') alarm
        hearing look steps node c m = hearing (pure ()) steps node c m) ∧
      (∀ (body : List Node) (event : String), eventName? body = some event →
        let blocks := listenersOf event heard ++ [body.tail]
        (m.interrupted = true →
          evaluate (steps + 1) (.signal body) c m = some (.error .interrupted, m)) ∧
        (m.interrupted = false → ∃ log,
          (evaluate (steps + 1) (.signal body) c m = none ∧
            RunsOut (evaluate steps) c blocks { m with log }) ∨
          ∃ r m', evaluate (steps + 1) (.signal body) c m = some (r.map fun _ => .nil, m') ∧
            Relays (evaluate steps) c blocks { m with log } r m' ∧
            ∀ e, r = .error e → e.isFault = false)) ∧
      (∀ (node : Node) (r : Except Exit Value) (m' : Machine),
        evaluate steps node c m = some (r, m') → ∃ more, Handles (heard ++ more) m') ∧
      ∀ (body : List Node) (event : String), eventName? body = some event →
        m.interrupted = false → ∃ m',
          evaluate (steps + 1) (.listen body) c m = some (.ok .nil, m') ∧
          Handles (heard ++ [(event, body)]) m' ∧
          m'.registry.handlers event = m.registry.handlers event ++ [⟨body, 1⟩] ∧
          ∀ other, other ≠ event → m'.registry.handlers other = m.registry.handlers other := by
  refine ⟨hearing_records, fun heard m h => ⟨h.handles, fun steps node c r m' => h.evaluate⟩,
    fun heard m hhandles c steps =>
    ⟨fun node alarm => ?_, fun body event hevent => ⟨fun hflag => ?_, fun hflag => ?_⟩,
      fun node r m' hends => ?_, fun body event hevent hflag => ?_⟩⟩
  · exact (hearing_attends (fun _ _ => hhandles.attended) alarm steps node c m (.refl m)).1
  · exact evaluate_of_interrupted hflag steps _
  · obtain ⟨log, hsignal⟩ := evaluate_signal (c := c) hevent hflag steps
    have hblocks := (congrArg (· ++ [body.tail]) (hhandles.statements event)).symm
    refine ⟨log, (hsignal _ hblocks).imp id ?_⟩
    rintro ⟨r, m', hends, hrelays⟩
    exact ⟨r, m', hends, hrelays, fun e => hrelays.isFault⟩
  · exact hhandles.evaluate hends
  · obtain ⟨log, hlisten⟩ := evaluate_listen (c := c) hevent hflag steps
    refine ⟨_, hlisten, ?_, ?_, fun other hother => ?_⟩
    · show m.registry.entries ++ [(event, ⟨body, 1⟩)] = _
      rw [hhandles, List.map_append]
      rfl
    · exact (Registry.handlers_register ..).trans (by rw [if_pos rfl])
    · refine (Registry.handlers_register ..).trans ?_
      rw [if_neg (Ne.symm hother), List.append_nil]

/-- A handler makes another block listen for the event while the event is
signalled. The signal runs the handler, and then its own rest, with which
it leaves. The other block has not run, but it is a handler now. -/
theorem signals_run_listeners_meanwhile :
    let c : Context := ⟨.standard, 0, []⟩
    let m := Machine.single (.top .global)
    let late : List Node := [.text "go", .assign (.var "late") (.bool true)]
    let early : List Node := [.text "go", .listen late, .assign (.var "early") (.bool true)]
    let body : List Node := [.text "go", .back (some (.text "sent"))]
    let m₁ : Machine := { m with registry := m.registry.register "go" ⟨early, 1⟩ }
    evaluate 2 (.listen early) c m = some (.ok .nil, m₁) ∧ AfterHearing [("go", early)] m₁ ∧
      ∃ log m', evaluate 4 (.signal body) c m₁ = some (.error (.flow (.back (.text "sent"))), m') ∧
        Relays (evaluate 3) c [early.tail, body.tail] { m₁ with log }
          (.error (.flow (.back (.text "sent")))) m' ∧
        Handles [("go", early), ("go", late)] m' ∧ m'.store.lookup? 0 "late" = none := by
  intro c m late early body m₁
  have hlistens : evaluate 2 (.listen early) c m = some (.ok .nil, m₁) := rfl
  have hrecorded : hearing (pure ()) 2 (.listen early) c m =
      some (.ok .nil, { m₁ with log := [.listening "go" early] ++ m.log }) := rfl
  have hafter : AfterHearing [("go", early)] m₁ := .evaluated (.start ..) hlistens hrecorded
  have hsent : ∃ m', evaluate 4 (.signal body) c m₁ =
      some (.error (.flow (.back (.text "sent"))), m') ∧
        m'.registry.entries = [("go", early), ("go", late)].map listener ∧
        m'.store.lookup? 0 "late" = none := ⟨_, rfl, rfl, rfl⟩
  obtain ⟨m', hsent, hhandles, hlate⟩ := hsent
  refine ⟨hlistens, hafter, ?_⟩
  obtain ⟨-, hafterwards, hmoments⟩ := signals_run_listeners
  obtain ⟨-, hsignal, -⟩ := hmoments _ m₁ (hafterwards _ m₁ hafter).1 c 3
  obtain ⟨log, ⟨hnone, -⟩ | ⟨r, m'', hends, hrelays, -⟩⟩ := (hsignal body "go" rfl).2 rfl
  · rw [hsent] at hnone
    cases hnone
  · rw [hsent] at hends
    cases r with
    | ok => cases hends
    | error e =>
      cases hends
      exact ⟨log, m', hsent, hrelays, hhandles, hlate⟩

end Treewalk.Proofs
