import Treewalk.Proofs.Containment
import Treewalk.Proofs.Nesting

/-!
# `Treewalk.Proofs.Balance`: calls and modules are counted out again

A call counts itself in before its body and out after it, and so does
the bringing of a module. Exits of all kinds cross both. What makes the
counters come out even is that the body's end is taken as an outcome,
whatever it is, before anything is counted out.

To speak of the moments in between, `watched` is the evaluator with a
look at the machine whenever a node or the body of a call is entered or
left. It knows how many bodies of calls it is inside of. A lookout
raises an alarm if the counters are not as they should be at that
moment, and `counters_balanced` says that the alarm is never raised:
with any alarm at all, watched evaluations are plain ones.
-/

set_option autoImplicit false

namespace Treewalk

namespace Evaluator

open Eval

/-- An evaluation with a look at the machine before and after it. -/
def guarded {α : Type} (look : Eval Unit) (x : Eval α) : Eval α := do
  look
  let r ← outcome x
  look
  ofOutcome r

/-- A look that sees nothing at both ends changes nothing. -/
theorem guarded_apply {α : Type} {look : Eval Unit} {x : Eval α} {c : Context} {m : Machine}
    (hstart : look c m = some (.ok (), m))
    (hend : ∀ r m', x c m = some (r, m') → look c m' = some (.ok (), m')) :
    guarded look x c m = x c m := by
  show Eval.bind look (fun _ => Eval.bind (Eval.outcome x) fun r =>
    Eval.bind look fun _ => Eval.ofOutcome r) c m = _
  simp only [Eval.bind, Eval.outcome, hstart]
  rcases hx : x c m with _ | ⟨r, m₁⟩
  · rfl
  · simp only [hend r m₁ hx]
    cases r <;> rfl

theorem guarded_pure {α : Type} (x : Eval α) : guarded (pure ()) x = x :=
  funext fun _ => funext fun _ => guarded_apply rfl fun _ _ _ => rfl

end Evaluator

open Eval Evaluator

/-- The evaluator with a look at the machine whenever a node or the body
of a call is entered or left. What is looked for may depend on the
number of bodies that are running. -/
def watched (look : Nat → Eval Unit) : (steps calls : Nat) → Evaluator
  | 0, _, _ => exhausted
  | steps + 1, calls, node =>
    guarded (look calls) do
      checkInterrupt
      noteVisit node
      recovering
        (step (watched look steps calls)
          (fun body =>
            guarded (look (calls + 1)) (runBlock (watched look steps (calls + 1)) body))
          steps node)

end Treewalk

namespace Treewalk.Proofs

open Yields (items)

/-- A look that sees nothing changes nothing: the watched evaluator is
the evaluator with looks added. -/
theorem watched_blind (steps calls : Nat) :
    watched (fun _ => pure ()) steps calls = evaluate steps := by
  induction steps generalizing calls with
  | zero =>
    funext node
    rfl
  | succ steps ih =>
    funext node
    rw [watched, evaluate, Evaluator.guarded_pure, ih calls, ih (calls + 1)]
    simp only [Evaluator.guarded_pure]

/-! ### The counters -/

/-- The counters as they should be when a run that began at `depth` is
inside of a number of bodies. -/
structure Balanced (σ : Settings) (depth calls : Nat) (m : Machine) : Prop where
  depth : m.depth = depth + calls
  limit : m.depth ≤ σ.maxDepth
  bringing : m.bringing.Nodup

instance (σ : Settings) (depth calls : Nat) (m : Machine) : Decidable (Balanced σ depth calls m) :=
  decidable_of_iff (m.depth = depth + calls ∧ m.depth ≤ σ.maxDepth ∧ m.bringing.Nodup)
    ⟨fun ⟨hdepth, hlimit, hbringing⟩ => ⟨hdepth, hlimit, hbringing⟩,
      fun h => ⟨h.depth, h.limit, h.bringing⟩⟩

/-- A look that raises an alarm if the counters are not as they should
be. -/
def lookout (depth : Nat) (alarm : Eval Unit) (calls : Nat) : Eval Unit :=
  fun c m => if Balanced c.settings depth calls m then some (.ok (), m) else alarm c m

/-- The regime inside of a number of bodies. -/
def counting (depth calls : Nat) : Regime where
  Inv σ m := Balanced σ depth calls m
  Step m m' := m'.depth = m.depth ∧ m'.bringing = m.bringing
  Good _ _ := True
  refl _ := ⟨rfl, rfl⟩
  trans h h' := ⟨h'.1.trans h.1, h'.2.trans h.2⟩
  good_step _ hi := hi

section
variable {depth calls : Nat}

theorem counting_moved {σ : Settings} {m m' : Machine} (hinv : (counting depth calls).Inv σ m)
    (hdepth : m'.depth = m.depth) (hbringing : m'.bringing = m.bringing) :
    (counting depth calls).Moved σ m m' where
  inv :=
    { depth := hdepth.trans hinv.depth
      limit := hdepth ▸ hinv.limit
      bringing := hbringing ▸ hinv.bringing }
  step := ⟨hdepth, hbringing⟩

/-- No primitive touches the counters. -/
theorem counting_laws : (counting depth calls).Laws where
  data _ := trivial
  spec _ := trivial
  blueprint _ _ _ _ _ := trivial
  toolkit _ _ _ _ _ := trivial
  bridge _ _ _ := trivial
  raised _ _ := trivial
  seen _ _ _ := trivial
  above _ _ _ _ := trivial
  bound _ _ _ _ := trivial
  owner _ _ _ _ := trivial
  release _ _ hinv := counting_moved hinv rfl rfl
  declare hinv _ _ _ _ := counting_moved hinv rfl rfl
  assign hinv _ _ _ := counting_moved hinv rfl rfl
  newExports hinv := ⟨counting_moved hinv rfl rfl, trivial⟩
  newChild hinv _ _ _ := ⟨counting_moved hinv rfl rfl, trivial, trivial⟩
  newObject hinv _ := ⟨counting_moved hinv rfl rfl, trivial⟩
  stopped _ := trivial
  interrupt hinv := counting_moved hinv rfl rfl
  out _ hinv := ⟨counting_moved hinv rfl rfl, fun _ _ => trivial⟩
  err _ hinv := ⟨counting_moved hinv rfl rfl, fun _ _ => trivial⟩
  input hinv := ⟨counting_moved hinv rfl rfl, fun _ _ => trivial⟩
  note _ hinv := counting_moved hinv rfl rfl
  rest _ _ hinv := counting_moved hinv rfl rfl

theorem counting_nodeLaws : (counting depth calls).NodeLaws where
  exports _ _ _ _ := trivial
  exportIn hinv _ _ _ := counting_moved hinv rfl rfl
  code _ := trivial
  opened := trivial

/-! ### Calls -/

/-- A body that is counted in runs with one call more, and counting out
undoes the counting in, since the body has left the depth as it was. -/
theorem counting_nests : (counting depth calls).Nests (counting depth (calls + 1)) where
  enter hinv hroom := ⟨congrArg (· + 1) hinv.depth, Nat.lt_of_not_le hroom, hinv.bringing⟩
  leave hinv hmoved := by
    obtain ⟨hdepth, hbringing⟩ := hmoved.step
    refine counting_moved hinv ?_ hbringing
    rw [hdepth]
    rfl
  good_enter _ := trivial
  good_leave _ := trivial
  opened _ := trivial

/-! ### Modules -/

/-- The bringing of a module leaves the stack of modules as it finds it,
whatever way the statements end, and no module is on it twice. -/
theorem keeps_splice {ts : List Item} (path : String) {ev ev' : Evaluator}
    (hbody : ∀ us statements, (counting depth calls).Keeps Unit us
      (Evaluator.runBlock ev statements) (Evaluator.runBlock ev' statements)) :
    (counting depth calls).Keeps Unit ts (Evaluator.splice ev path)
      (Evaluator.splice ev' path) := by
  intro c m hready
  show Eval.bind (Evaluator.startBring path) _ c m =
      Eval.bind (Evaluator.startBring path) _ c m ∧
    (counting depth calls).Ends c.settings m (Eval.bind (Evaluator.startBring path) _ c m)
  unfold Eval.bind
  rw [Evaluator.startBring_apply]
  by_cases hcycle : m.bringing.contains path = true
  · rw [if_pos hcycle]
    exact ⟨rfl, Regime.Ended.ends ⟨.self hready.inv, fun _ _ => trivial⟩⟩
  · rw [if_neg hcycle]
    cases hfound : Evaluator.findModule c.settings.modules path with
    | error problem => exact ⟨rfl, Regime.Ended.ends ⟨.self hready.inv, fun _ _ => trivial⟩⟩
    | ok statements =>
      let m₁ := { m with bringing := path :: m.bringing }.note (.bring path statements.length)
      have hnew : path ∉ m.bringing := fun hmem => hcycle (List.contains_iff_mem.mpr hmem)
      have hinside : Balanced c.settings depth calls m₁ :=
        ⟨hready.inv.depth, hready.inv.limit, List.nodup_cons.mpr ⟨hnew, hready.inv.bringing⟩⟩
      -- The statements run in the same regime: it does not fix the stack, only what is on it.
      obtain ⟨heq, hends⟩ := Regime.keeps_outcome (hbody ts statements) c m₁
        ⟨hinside, trivial, fun _ _ => trivial⟩
      show Eval.bind (Eval.outcome (Evaluator.runBlock ev statements)) _ c m₁ =
          Eval.bind (Eval.outcome (Evaluator.runBlock ev' statements)) _ c m₁ ∧
        (counting depth calls).Ends c.settings m
          (Eval.bind (Eval.outcome (Evaluator.runBlock ev' statements)) _ c m₁)
      unfold Eval.bind
      rw [heq]
      rcases hy : Eval.outcome (Evaluator.runBlock ev' statements) c m₁ with _ | ⟨r₁, m₂⟩
      · exact ⟨rfl, .none trivial⟩
      · obtain ⟨result, -, rfl⟩ := Eval.outcome_inv hy
        obtain ⟨hdepth, hbringing⟩ := (hends.ended hy).step
        have hleft : (counting depth calls).Moved c.settings m
            { m₂ with bringing := m₂.bringing.tail } := by
          refine counting_moved hready.inv hdepth ?_
          rw [hbringing]
          rfl
        cases result <;> exact ⟨rfl, Regime.Ended.ends ⟨hleft, fun _ _ => trivial⟩⟩

/-- Calls and modules go through the regime with one body more, and
everything else stays in one. -/
theorem counting_congruence :
    Congruence (counting depth calls).Keeps (counting depth (calls + 1)).Keeps where
  toPrimitives := counting_laws.primitives
  toNodePrimitives := counting_laws.nodePrimitives counting_nodeLaws
  invoke name arity _ _ _ hlocals hbody :=
    counting_nests.keeps_invoke counting_laws counting_laws name arity hlocals hbody
  splice path _ _ hbody := keeps_splice path hbody

/-! ### Every moment of a run -/

/-- Where the regime holds at both ends, a look that sees nothing there
changes nothing. -/
theorem Regime.Keeps.guarded {g : Regime} {α : Type} [Yields α] {ts : List Item} {x y : Eval α}
    (hx : g.Keeps α ts x y) {look : Eval Unit}
    (hlook : ∀ c m, g.Ready [] c m → look c m = some (.ok (), m)) :
    g.Keeps α ts (Evaluator.guarded look x) y := by
  intro c m hready
  obtain ⟨heq, hends⟩ := hx c m hready
  have hbefore : g.Ready [] c m := ⟨hready.inv, hready.scope, fun i hi => by cases hi⟩
  refine ⟨?_, hends⟩
  rw [← heq]
  refine Evaluator.guarded_apply (hlook c m hbefore) fun r m₁ hr => ?_
  have hended := hends.ended (heq.symm.trans hr)
  exact hlook c m₁ (hbefore.moved hended.toMoved (List.forall_mem_nil _))

/-- A look that sees nothing amiss wherever a regime holds changes
nothing at any moment of an evaluation that keeps it. -/
theorem Regime.keeps_watched {g : Regime} (hcong : Congruence g.Keeps g.Keeps)
    {look : Eval Unit} (hlook : ∀ c m, g.Ready [] c m → look c m = some (.ok (), m))
    (steps calls : Nat) (ts : List Item) (node : Node) :
    g.Keeps Value ts (watched (fun _ => look) steps calls node) (evaluate steps node) := by
  induction steps generalizing calls ts node with
  | zero => exact hcong.exhausted
  | succ steps ih =>
    refine (hcong.visit (ih calls) (fun us body => ?_) steps node).guarded hlook
    exact (hcong.runBlock (ih (calls + 1)) body).guarded hlook

/-- Where the counters are as they should be at both ends, looking out
changes nothing. -/
theorem keeps_guarded {α : Type} [Yields α] {ts : List Item} (alarm : Eval Unit) {x y : Eval α}
    (hx : (counting depth calls).Keeps α ts x y) :
    (counting depth calls).Keeps α ts
      (Evaluator.guarded (lookout depth alarm calls) x) y := by
  exact hx.guarded fun c m hready => if_pos hready.inv

/-- Whatever the alarm, watched evaluations are plain ones. The number
of bodies goes up exactly where the evaluator runs the body of a
call. -/
theorem watched_keeps (alarm : Eval Unit) (steps : Nat) (ts : List Item) (node : Node) :
    (counting depth calls).Keeps Value ts (watched (lookout depth alarm) steps calls node)
      (evaluate steps node) := by
  induction steps generalizing calls ts node with
  | zero => exact counting_congruence.exhausted
  | succ steps ih =>
    refine keeps_guarded alarm (counting_congruence.visit ih (fun us body => ?_) steps node)
    -- The body of a call: one more is running.
    exact keeps_guarded alarm (counting_congruence.runBlock ih body)

end

/-! ### Refused calls -/

/-- Binding a name fails only at a constant. -/
theorem declareLocals_inv {locals : List (String × Value)} {c : Context} {m m' : Machine}
    {e : Exit} (h : Evaluator.declareLocals locals c m = some (.error e, m')) :
    ∃ name, e = .fault (.constant name) := by
  induction locals generalizing m with
  | nil => cases h
  | cons first rest ih =>
    obtain ⟨_, hfirst, he⟩ | ⟨_, m₁, -, hrest⟩ := Eval.bind_inv h
    · cases he
      rw [Eval.declare_eq_settle, Eval.settle_apply] at hfirst
      split at hfirst
      · rename_i f hdeclare
        cases hfirst
        exact ⟨first.1, congrArg Exit.fault (Store.declare_eq_error hdeclare)⟩
      · cases hfirst
    · exact ih hrest

theorem finishCall_inv {name : String} {r : Except Exit Unit} {c : Context} {m m' : Machine}
    {e : Exit} (h : Evaluator.finishCall name r c m = some (.error e, m')) : r = .error e := by
  match r, h with
  | .ok (), h => cases h
  | .error (.flow (.back _)), h => cases h
  | .error (.flow .halt), h => cases h
  | .error (.flow .proceed), h => cases h
  | .error (.fault _), h => cases h; rfl
  | .error (.raised _ _), h => cases h; rfl
  | .error .interrupted, h => cases h; rfl
  | .error (.stream _), h => cases h; rfl

/-- A call that is counted in does not end as a refused one: faults of
its body stay inside of the body. -/
theorem enteredCall_ne_tooDeep {name : String} {arity : Nat} {locals : List (String × Value)}
    {steps : Nat} {body : List Node} {c : Context} {m m' : Machine} {d limit : Nat} :
    enteredCall name arity locals (Evaluator.runBlock (evaluate steps) body) c m ≠
      some (.ok (.error (.fault (.tooDeep d limit))), m') := by
  intro h
  obtain ⟨_, -, hok⟩ | ⟨bound, _, hbound, hbody⟩ := Eval.bind_inv h
  · cases hok
  · obtain ⟨_, hrun, ho⟩ := Eval.outcome_inv hbody
    cases ho
    obtain ⟨_, hfailed, he⟩ | ⟨_, _, -, hblock⟩ := Eval.bind_inv hrun
    · cases he
      obtain ⟨_, hprepare, -⟩ := Eval.holding_inv hbound
      obtain ⟨_, -, hok⟩ | ⟨_, _, -, hnote⟩ := Eval.bind_inv hprepare
      · cases hok
      · obtain ⟨_, -, hok⟩ | ⟨_, _, -, hlocals⟩ := Eval.bind_inv hnote
        · cases hok
        · obtain ⟨o, hdeclare, ho⟩ := Eval.outcome_inv hlocals
          cases ho
          cases bound with
          | ok _ => cases hfailed
          | error e =>
            cases hfailed
            obtain ⟨_, he⟩ := declareLocals_inv hdeclare
            cases he
    · exact (runBlock_inv hblock).elim id id

theorem invoke_of_full {name : String} {arity : Nat} {locals : List (String × Value)}
    {body : Eval Unit} {c : Context} {m : Machine} (hfull : c.settings.maxDepth ≤ m.depth) :
    ∃ m', Evaluator.invoke name arity locals body c m =
      some (.error (.fault (.tooDeep m.depth c.settings.maxDepth)), m') := by
  refine ⟨m.release c.held (Owner.refs (locals.map Prod.snd)), ?_⟩
  show Eval.bind (Evaluator.runCall name arity locals body) _ c m = _
  unfold Eval.bind
  rw [runCall_of_full hfull]

theorem full_of_invoke {name : String} {arity : Nat} {locals : List (String × Value)}
    {steps : Nat} {body : List Node} {c : Context} {m m' : Machine} {d limit : Nat}
    (h : Evaluator.invoke name arity locals (Evaluator.runBlock (evaluate steps) body) c m =
      some (.error (.fault (.tooDeep d limit)), m')) : c.settings.maxDepth ≤ m.depth := by
  -- With room left the call is counted in, and then no outcome looks like a refusal.
  refine Decidable.byContradiction fun hroom => ?_
  obtain ⟨_, hcall, -⟩ | ⟨result, m₁, hcall, hrest⟩ := Eval.bind_inv h
  · rw [runCall_of_room hroom] at hcall
    obtain ⟨_, hok⟩ := enteredCall_inv hcall
    cases hok
  · rw [runCall_of_room hroom] at hcall
    obtain ⟨_, hexit, -⟩ | ⟨_, _, -, hfinish⟩ := Eval.bind_inv hrest
    · cases hexit
    · rw [finishCall_inv hfinish] at hcall
      exact enteredCall_ne_tooDeep hcall

/-- The counters are balanced. Take a machine on which no more calls run
than the settings allow and no module is being brought twice.

However the evaluation of a node, or a program, ends, it leaves the
counters as they were. At every moment in between as many calls are
counted as bodies are running beside those from before, they are not
more than allowed, and no module is being brought twice: no lookout
ever raises an alarm. A call is refused for its depth exactly if as
many are running as are allowed. -/
theorem counters_balanced {c : Context} {m : Machine} (hlimit : m.depth ≤ c.settings.maxDepth)
    (hbringing : m.bringing.Nodup) (steps : Nat) :
    (∀ node r m', evaluate steps node c m = some (r, m') →
      m'.depth = m.depth ∧ m'.bringing = m.bringing) ∧
    (∀ program r m', runProgram (evaluate steps) program c m = some (r, m') →
      m'.depth = m.depth ∧ m'.bringing = m.bringing) ∧
    (∀ alarm node, watched (lookout m.depth alarm) steps 0 node c m = evaluate steps node c m) ∧
    (∀ alarm program, runProgram (watched (lookout m.depth alarm) steps 0) program c m =
      runProgram (evaluate steps) program c m) ∧
    ∀ name arity locals body,
      (m.depth = c.settings.maxDepth → ∃ m',
        Evaluator.invoke name arity locals (Evaluator.runBlock (evaluate steps) body) c m =
          some (.error (.fault (.tooDeep m.depth c.settings.maxDepth)), m')) ∧
      ∀ d limit m',
        Evaluator.invoke name arity locals (Evaluator.runBlock (evaluate steps) body) c m =
          some (.error (.fault (.tooDeep d limit)), m') → m.depth = c.settings.maxDepth := by
  have hready : (counting m.depth 0).Ready [] c m :=
    ⟨⟨rfl, hlimit, hbringing⟩, trivial, fun _ _ => trivial⟩
  have hcong : Congruence (counting m.depth 0).Keeps (counting m.depth 1).Keeps :=
    counting_congruence
  refine ⟨?_, ?_, ?_, ?_, ?_⟩
  · intro node r m' heval
    exact ((watched_keeps Eval.exhausted steps [] node c m hready).2.ended heval).step
  · intro program r m' hrun
    have hkeeps := hcong.runProgram (watched_keeps Eval.exhausted steps) program c m hready
    exact (hkeeps.2.ended hrun).step
  · intro alarm node
    exact (watched_keeps alarm steps [] node c m hready).1
  · intro alarm program
    exact (hcong.runProgram (watched_keeps alarm steps) program c m hready).1
  · intro name arity locals body
    refine ⟨fun hfull => invoke_of_full (Nat.le_of_eq hfull.symm), ?_⟩
    intro d limit m' hrefused
    exact Nat.le_antisymm hlimit (full_of_invoke hrefused)

/-- Where no call at all is allowed, the first one is refused. -/
theorem counters_balanced_refused :
    let c : Context := ⟨⟨0, false, none⟩, 0, []⟩
    let m := Machine.single (Scope.top .global)
    m.depth ≤ c.settings.maxDepth ∧ m.bringing.Nodup ∧ ∃ m',
      Evaluator.invoke "f" 0 [] (Evaluator.runBlock (evaluate 1) []) c m =
        some (.error (.fault (.tooDeep 0 0)), m') := by
  intro c m
  have hlimit : m.depth ≤ c.settings.maxDepth := Nat.le_refl 0
  have hbringing : m.bringing.Nodup := List.nodup_nil
  have hrefused := (counters_balanced hlimit hbringing 1).2.2.2.2 "f" 0 [] []
  exact ⟨hlimit, hbringing, hrefused.1 rfl⟩

end Treewalk.Proofs
