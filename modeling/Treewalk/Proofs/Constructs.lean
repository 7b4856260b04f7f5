import Treewalk.Proofs.Discipline

/-!
# `Treewalk.Proofs.Constructs`: the constructs obey every discipline

One lemma for each construct: what relates the two evaluators of the
nodes inside, and the two ways to run the bodies of calls, relates the
two evaluations of the construct. The lemmas stand in four groups, by
what they rest on, and in each group in the order of the modules under
`Treewalk.Evaluation`:

* `Basics`: constructs that let exits through as they are.
* `Calling`: constructs that call.
* `Rules`: constructs that handle exits, for relations that tell of an
  exit as of any other outcome.
* `Handling`: loops, modules and whole nodes, for any relation that the
  places respect where exits are handled.

The main results:

* `Handling.step`: one layer of a variant of the evaluator obeys the
  rules that its parts obey.
* `Discipline.evaluate`: the whole evaluator obeys every discipline, by
  induction on the steps that it may spend.
* `Discipline.runProgram`: so does a run.

A congruence is a discipline that loses nothing, and the lemmas about
congruences at the end are those about disciplines, read that way.
-/

set_option autoImplicit false

namespace Treewalk.Proofs

open Yields (items)

/-! ### Plain results -/

/-- What comes of a computation that may be at fault is plain if its
last step makes it so. -/
theorem data_of_bind {α : Type} {x : Except Fault α} {f : α → Value} {v : Value}
    (hf : ∀ a, (f a).isReference = false) (h : (x >>= fun a => .ok (f a)) = .ok v) : v.isReference = false := by
  cases x with
  | error fault => cases h
  | ok a =>
    cases h
    exact hf a

theorem data_of_applyOp {symbol : String} {op : BinaryOp} {l r v : Value}
    (h : Value.applyOp symbol op l r = .ok v) : v.isReference = false := by
  unfold Value.applyOp at h
  split at h
  · cases h; rfl
  · exact data_of_bind (fun _ => rfl) h
  · exact data_of_bind (fun _ => rfl) h
  · cases h; rfl
  · cases h; rfl
  · cases h; rfl
  · cases h; rfl
  · exact data_of_bind (fun _ => rfl) h
  · exact data_of_bind (fun _ => rfl) h

/-- Binary operators give data. -/
theorem data_of_applyBinary {symbol : String} {l r v : Value}
    (h : Value.applyBinary symbol l r = .ok v) : v.isReference = false := by
  unfold Value.applyBinary at h
  split at h
  · exact data_of_applyOp h
  · cases h

/-- Unary operators give data. -/
theorem data_of_applyUnary {symbol : String} {v w : Value}
    (h : Value.applyUnary symbol v = .ok w) : w.isReference = false := by
  unfold Value.applyUnary at h
  split at h
  · cases h; rfl
  · split at h <;> cases h
    rfl
  · cases h

/-- Conversions give data. -/
theorem data_of_convert {target : String} {v w : Value}
    (h : Value.convert target v = .ok w) : w.isReference = false := by
  unfold Value.convert at h
  split at h <;> cases h <;> rfl

/-- Input is data. -/
theorem data_ofInput (line : String) : (Value.ofInput line).isReference = false := by
  unfold Value.ofInput
  split
  · rfl
  · rfl
  · rfl
  · split <;> rfl

/-- What an attempt does while it has its frame. -/
def attemptIn (ev : Evaluator) (parts : Attempt Node) (frame : ScopeId) : Eval Unit := do
  let ended ← Eval.outcome (Eval.within frame (Evaluator.runBlock ev parts.body))
  Eval.borrow (Evaluator.settleBody ev parts ended) fun pending => do
    Evaluator.conclude ev parts
    Eval.ofOutcome pending

/-- Beside that, an attempt only says that it starts, and has a
result. -/
theorem attempt_eq (ev : Evaluator) (parts : Attempt Node) :
    Evaluator.attempt ev parts =
      (do
        Eval.note (.attemptStarts parts.body.length)
        (do
          let frame ← Eval.newChild (← Eval.here) .block
          Eval.holding [.scope frame] (attemptIn ev parts frame))
        pure .nil) :=
  (Evaluator.attemptWith_self ev parts).symm

/-! ### Constructs that let exits through -/

namespace Basics

variable {R : Custom} (h : Basics R)
include h

/-! #### Blocks and lists of nodes -/

variable {ev ev' : Evaluator} {kept loose : List Item}

section
variable (hev : ∀ kept loose node, R Value kept loose (ev node) (ev' node))
include hev

theorem runBlock (body : List Node) :
    R Unit kept loose (Evaluator.runBlock ev body) (Evaluator.runBlock ev' body) := by
  induction body generalizing kept loose with
  | nil => exact h.done
  | cons first rest ih => exact h.andThen (h.forget (hev _ _ first)) ih

theorem evalAll (nodes : List Node) :
    R (List Value) kept loose (Evaluator.evalAll ev nodes) (Evaluator.evalAll ev' nodes) := by
  induction nodes generalizing kept loose with
  | nil => exact h.bare rfl
  | cons first rest ih =>
    apply h.borrow (hev _ _ first)
    intro v
    apply h.bind ih
    intro vs
    refine h.given fun i hi => ?_
    rcases List.mem_cons.mp hi with hv | hvs
    · exact List.mem_append_right _ (hv ▸ value_mem v kept)
    · exact List.mem_append_left _ hvs

theorem evalTexts (text : Value → String) (nodes : List Node) :
    R (List String) kept loose (Evaluator.evalTexts ev text nodes)
      (Evaluator.evalTexts ev' text nodes) := by
  induction nodes generalizing kept loose with
  | nil => exact h.bare rfl
  | cons first rest ih =>
    refine h.bind (h.borrow (hev _ _ first) fun v => h.bare rfl) fun s => ?_
    exact h.bind ih fun _ => h.bare rfl

theorem runBlocks (bodies : List (List Node)) :
    R Unit kept loose (Evaluator.runBlocks ev bodies) (Evaluator.runBlocks ev' bodies) := by
  induction bodies generalizing kept loose with
  | nil => exact h.done
  | cons first rest ih => exact h.andThen (h.runBlock hev first) ih

/-! #### Expressions -/

theorem pieces (parts : List (Piece Node)) :
    R String kept loose (Evaluator.pieces ev parts) (Evaluator.pieces ev' parts) := by
  induction parts generalizing kept loose with
  | nil => exact h.bare rfl
  | cons first rest ih =>
    cases first with
    | literal s => exact h.bind ih fun t => h.bare rfl
    | expression x =>
      refine h.bind (h.borrow (hev _ _ x) fun v => h.bare rfl) fun s => ?_
      exact h.bind ih fun _ => h.bare rfl

theorem interpolated (parts : List (Piece Node)) :
    R Value kept loose (Evaluator.interpolated ev parts) (Evaluator.interpolated ev' parts) := by
  apply h.bind (h.pieces hev parts)
  intro s
  exact h.plain rfl

theorem pack (nodes : List Node) :
    R Value kept loose (Evaluator.pack ev nodes) (Evaluator.pack ev' nodes) := by
  apply h.bind (h.evalTexts hev Value.packItem nodes)
  intro texts
  exact h.plain rfl

theorem binary (op : String) (left right : Node) :
    R Value kept loose (Evaluator.binary ev op left right) (Evaluator.binary ev' op left right) := by
  refine h.borrow (hev _ _ left) fun l => h.borrow (hev _ _ right) fun r => h.ofExcept ?_
  intro v hv i hi
  rw [List.mem_singleton.mp hi]
  exact .data (data_of_applyBinary hv)

theorem unary (op : String) (operand : Node) :
    R Value kept loose (Evaluator.unary ev op operand) (Evaluator.unary ev' op operand) := by
  refine h.borrow (hev _ _ operand) fun v => h.ofExcept ?_
  intro w hw i hi
  rw [List.mem_singleton.mp hi]
  exact .data (data_of_applyUnary hw)

theorem kindOf (x : Node) :
    R Value kept loose (Evaluator.kindOf ev x) (Evaluator.kindOf ev' x) :=
  h.borrow (hev _ _ x) fun _ => h.plain rfl

theorem convert (source : Node) (target : String) :
    R Value kept loose (Evaluator.convert ev source target) (Evaluator.convert ev' source target) := by
  refine h.borrow (hev _ _ source) fun v => h.ofExcept ?_
  intro w hw i hi
  rw [List.mem_singleton.mp hi]
  exact .data (data_of_convert hw)

end

/-- Looking a name up lets nothing go. -/
theorem calm_lookupAs (subject : Subject) (name : String) :
    Calm R kept loose items (Evaluator.lookupAs subject name)
      (Evaluator.lookupAs subject name) := by
  intro β _ f g hf
  unfold Evaluator.lookupAs
  rw [bind_assoc, bind_assoc]
  apply h.lookup? name
  intro found
  cases found with
  | none => exact h.fault _
  | some v => exact hf v

theorem lookupAs (subject : Subject) (name : String) :
    R Value kept loose (Evaluator.lookupAs subject name) (Evaluator.lookupAs subject name) :=
  h.calm (h.calm_lookupAs subject name)

/-! #### Names -/

section
variable (hev : ∀ kept loose node, R Value kept loose (ev node) (ev' node))
include hev

theorem writeTo {v : Value} (hv : .value v ∈ kept) (target : Node) :
    R Unit kept loose (Evaluator.writeTo ev v target) (Evaluator.writeTo ev' v target) := by
  unfold Evaluator.writeTo
  split
  · exact h.assign _ (.mem (List.mem_append_right _ hv))
  · refine h.borrow (hev _ _ _) fun o => ?_
    split
    · refine h.declareIn _ (.fields (value_mem _ _)) (.mem ?_)
      exact List.mem_append_right _ (List.mem_append_right _ hv)
    · exact h.fault _
  · exact h.fault _

theorem assignTo (target value : Node) :
    R Value kept loose (Evaluator.assignTo ev target value) (Evaluator.assignTo ev' target value) :=
  h.borrow (hev _ _ value) fun _ => h.thenPlain (h.writeTo hev (value_mem _ kept) target) rfl

theorem declareConstant (name : String) (value : Node) :
    R Value kept loose (Evaluator.declareConstant ev name value)
      (Evaluator.declareConstant ev' name value) :=
  h.borrow (hev _ _ value) fun _ => h.thenPlain (h.declare name (.mem (value_mem _ _))) rfl

theorem link (greeter : String) (implementation : Node) :
    R Value kept loose (Evaluator.link ev greeter implementation)
      (Evaluator.link ev' greeter implementation) :=
  h.borrow (hev _ _ implementation) fun _ =>
    h.thenPlain (h.assign greeter (.mem (value_mem _ _))) rfl

end

section
variable {x y : Evaluator.Exporter} (he : Exporting R x y)
include he

theorem exportBy (name : String) {v : Value} (hv : Known (loose ++ kept) (.value v)) :
    R Unit kept loose (Evaluator.exportBy x name v) (Evaluator.exportBy y name v) := by
  apply he.nearestExports?
  intro found
  cases found with
  | none => exact h.done
  | some exports => exact he.exportIn name (by simp) (hv.mono (List.subset_cons_self ..))

/-- A spec is declared if its body may be made part of a value, which it
is for each of the two scopes that receive it. -/
theorem declareSpecBy {decl : Spec Node} (hcode : Offers R decl.body) :
    R Value kept loose (Evaluator.declareSpecBy x decl) (Evaluator.declareSpecBy y decl) := by
  unfold Evaluator.declareSpecBy
  split
  · refine hcode _ _ _ _ _ (h.result _ fun i hi => ?_)
    rw [List.mem_singleton.mp hi]
    exact .spec (List.mem_cons_self ..)
  · refine h.andThen (hcode _ _ _ _ _ (h.declare _ (.spec (List.mem_cons_self ..)))) ?_
    split
    · refine h.thenPlain (hcode _ _ _ _ _ (h.exportBy he _ ?_)) rfl
      exact .spec (List.mem_cons_self ..)
    · exact h.plain rfl

end

/-! #### Input and output -/

section
variable (hev : ∀ kept loose node, R Value kept loose (ev node) (ev' node))
include hev

theorem printLine (nodes : List Node) :
    R Value kept loose (Evaluator.printLine ev nodes) (Evaluator.printLine ev' nodes) :=
  h.bind (h.evalTexts hev Value.display nodes) fun _ => h.thenPlain (h.write _) rfl

theorem prompt (nodes : List Node) :
    R Unit kept loose (Evaluator.prompt ev nodes) (Evaluator.prompt ev' nodes) := by
  induction nodes generalizing kept loose with
  | nil => exact h.done
  | cons first rest ih =>
    refine h.andThen (h.borrow (hev _ _ first) fun v => ?_) ih
    split
    · exact h.write _
    · exact h.done

theorem ask (nodes : List Node) :
    R Value kept loose (Evaluator.ask ev nodes) (Evaluator.ask ev' nodes) := by
  refine h.andThen (h.prompt hev nodes) (h.bind h.readLine fun line => ?_)
  cases line with
  | none => exact h.plain rfl
  | some line => exact h.plain (data_ofInput line)

/-! #### Branches and loops -/

theorem test (condition : Node) :
    R Bool kept loose (Evaluator.test ev condition) (Evaluator.test ev' condition) :=
  h.borrow (hev _ _ condition) fun _ => h.bare rfl

theorem branches (altern : Option (List Node)) (bs : List (Branch Node)) :
    R Unit kept loose (Evaluator.branches ev altern bs) (Evaluator.branches ev' altern bs) := by
  induction bs generalizing kept loose with
  | nil => exact h.runBlock hev _
  | cons first rest ih =>
    refine h.bind (h.test hev first.condition) fun b => ?_
    cases b with
    | true => exact h.runBlock hev first.body
    | false => exact ih

theorem check (first : Branch Node) (alters : List (Branch Node))
    (altern : Option (List Node)) :
    R Value kept loose (Evaluator.check ev first alters altern)
      (Evaluator.check ev' first alters altern) :=
  h.thenPlain (h.branches hev altern (first :: alters)) rfl

omit hev in
theorem goesOn {r : Except Exit Unit} (hr : items r ⊆ loose ++ kept) :
    R Bool kept loose (Evaluator.goesOn r) (Evaluator.goesOn r) := by
  unfold Evaluator.goesOn
  split
  · exact h.bare rfl
  · exact h.bare rfl
  · exact h.bare rfl
  · exact h.exit _ fun i hi => .mem (hr hi)

theorem loopBound (which : LoopBound) (x : Node) :
    R Float kept loose (Evaluator.loopBound ev which x) (Evaluator.loopBound ev' which x) := by
  refine h.borrow (hev _ _ x) fun v => ?_
  split
  · exact h.bare rfl
  · exact h.fault _

/-! #### Calls -/

theorem calleeOf (callee : Node) :
    R Value kept loose (Evaluator.calleeOf ev callee) (Evaluator.calleeOf ev' callee) := by
  unfold Evaluator.calleeOf
  split
  · exact h.lookupAs .spec _
  · exact hev _ _ _

/-- The arguments of a call are evaluated if their number is right. -/
theorem checkedArgs {β : Type} [Yields β] (name : String) (expected : Nat) (args : List Node)
    {f g : List Value → Eval β} (hf : ∀ vs, R β kept (items vs) (f vs) (g vs)) :
    R β kept loose
      (do
        Eval.ofExcept (checkArity name expected args.length)
        let vs ← Evaluator.evalAll ev args
        f vs)
      (do
        Eval.ofExcept (checkArity name expected args.length)
        let vs ← Evaluator.evalAll ev' args
        g vs) := by
  refine h.andThen (h.ofExcept fun _ _ i hi => ?_) (h.bind (h.evalAll hev args) hf)
  cases hi

omit hev in
theorem method? {i : Instance} (hi : .value (.object i) ∈ kept) (name : String) :
    R (Option Value) kept loose (Evaluator.method? i name) (Evaluator.method? i name) := by
  apply h.getLocal? name (.declared (List.mem_append_right _ hi))
  intro found
  split
  · exact h.given (List.subset_append_of_subset_left _ (List.subset_append_left ..))
  · exact h.calm (h.getLocal? name (.fields (List.mem_append_right _ hi)))

theorem back (value : Option Node) :
    R Value kept loose (Evaluator.back ev value) (Evaluator.back ev' value) := by
  cases value with
  | none =>
    refine h.exit _ fun i hi => ?_
    rw [List.mem_singleton.mp hi]
    exact .data rfl
  | some x =>
    exact h.bind (hev _ _ x) fun v => h.exit _ fun i hi => .mem (List.mem_append_left _ hi)

/-! #### Objects -/

theorem declareAttribute (x : Node) :
    R Unit kept loose (Evaluator.declareAttribute ev x) (Evaluator.declareAttribute ev' x) := by
  fun_induction Evaluator.declareAttribute ev x with
  | case1 name => exact h.declare name (.data rfl)
  | case2 x ih => exact ih
  | case3 name value =>
    exact h.borrow (hev _ _ value) fun v => h.declare name (.mem (value_mem v _))
  -- Any other node just runs. Its equation asks that it is none of the forms above.
  | case4 x hvar hstatement hassign =>
    rw [Evaluator.declareAttribute]
    · exact h.forget (hev _ _ x)
    · exact hvar
    · exact hstatement
    · exact hassign

theorem declareAttributes (attributes : List Node) :
    R Unit kept loose (Evaluator.declareAttributes ev attributes)
      (Evaluator.declareAttributes ev' attributes) := by
  induction attributes generalizing kept loose with
  | nil => exact h.done
  | cons first rest ih => exact h.andThen (h.declareAttribute hev first) ih

theorem declareBlueprint {decl : BlueprintDecl Node}
    (hcode : ∀ k, decl.constructor = some k → Offers R k.body) :
    R Value kept loose (Evaluator.declareBlueprint ev decl) (Evaluator.declareBlueprint ev' decl) := by
  refine h.here fun above => h.newPart (.scope (by simp)) .blueprint _ _ _ fun id =>
    h.thenPlain ?_ rfl
  -- The scope is held, both as a scope to work in and as that of the blueprint.
  refine h.holding (List.subset_append_of_subset_left _ (List.subset_append_left ..))
    (.part id .blueprint) ?_
  refine h.andThen (h.within (by simp) ?_) ?_
  · exact h.andThen (h.declareAttributes hev decl.attributes) (h.runBlock hev decl.methods)
  · cases hc : decl.constructor with
    | none => exact h.declare _ (.blueprint _ (by simp) fun k hk => by cases hk)
    | some k =>
      refine hcode k hc _ _ _ _ _ (h.declare _ (.blueprint _ (by simp) fun k' hk => ?_))
      cases hk
      exact List.mem_cons_self ..

end

theorem calm_lookupBlueprint (name : String) :
    Calm R kept loose items (Evaluator.lookupBlueprint name)
      (Evaluator.lookupBlueprint name) := by
  intro β _ f g hf
  unfold Evaluator.lookupBlueprint
  rw [bind_assoc, bind_assoc]
  apply h.calm_lookupAs .blueprint name
  intro v
  cases v with
  | blueprint b => exact hf b
  | _ => exact h.fault _

theorem adopt (child parent : String) :
    R Value kept loose (Evaluator.adopt child parent) (Evaluator.adopt child parent) := by
  apply h.calm_lookupBlueprint child
  intro c
  apply h.calm_lookupBlueprint parent
  intro p
  have hboth : Covers [.scope c.scope, .scope p.scope] (items c ++ items p) :=
    (Covers.value (.blueprint c)).append (.value (.blueprint p))
  refine (h.note rfl).andThen (h.thenPlain (h.holding ?_ hboth ?_) rfl)
  · simp [items]
  · exact h.copyBindings (.blueprint (by simp [items])) (.blueprint (by simp [items]))

theorem member? {o : Value} (ho : .value o ∈ kept) (name : String) :
    R (Option Value) kept loose (Evaluator.member? o name) (Evaluator.member? o name) := by
  cases o with
  | object i =>
    apply h.getLocal? name (.fields (List.mem_append_right _ ho))
    intro found
    cases found with
    | none => exact h.calm (h.getLocal? name (.declared (List.mem_append_right _ ho)))
    | some v =>
      exact h.given (List.subset_append_of_subset_left _ (List.subset_append_left ..))
  | toolkit t => exact h.calm (h.getLocal? name (.exports (List.mem_append_right _ ho)))
  | _ => exact h.fault _

/-! #### Modules -/

theorem isBound (name : String) :
    R Bool kept loose (Evaluator.isBound name) (Evaluator.isBound name) :=
  h.lookup? name _ _ _ fun _ => h.bare rfl

theorem exposeBy {x y : Evaluator.Exporter} (he : Exporting R x y) (name : String) :
    R Value kept loose (Evaluator.exposeBy x name) (Evaluator.exposeBy y name) := by
  apply he.nearestExports?
  intro found
  cases found with
  | none => exact h.fault _
  | some exports =>
    apply h.calm_lookupAs .identifier name
    intro v
    exact h.thenPlain (he.exportIn name (by simp) (.mem (value_mem v _))) rfl

/-- What a plug does once its toolkit is fetched. -/
theorem plug {name : String} {path : Option String}
    (hfetch : R Unit kept loose (Evaluator.fetch ev name path) (Evaluator.fetch ev' name path)) :
    R Value kept loose (Evaluator.plug ev name path) (Evaluator.plug ev' name path) := by
  refine h.andThen hfetch (h.bind (h.lookupAs .toolkit name) fun v => ?_)
  cases v with
  | toolkit t =>
    apply h.boundCount t.exports
    intro n
    refine (h.note rfl).andThen (h.thenPlain (h.holding ?_ (.value (.toolkit t)) ?_) rfl)
    · exact List.subset_append_left ..
    · exact h.here fun id => h.copyBindings (.scope (by simp)) (.exports (by simp [items]))
  | _ => exact h.fault _

theorem requireNames (names : List String) :
    R Unit kept loose (Evaluator.requireNames names) (Evaluator.requireNames names) := by
  induction names generalizing kept loose with
  | nil => exact h.done
  | cons name rest ih =>
    refine h.bind (h.isBound name) fun b => ?_
    cases b with
    | true => exact ih
    | false => exact h.fault _

section
variable (hev : ∀ kept loose node, R Value kept loose (ev node) (ev' node))
include hev

theorem declareToolkit (name : String) (body : List Node) :
    R Value kept loose (Evaluator.declareToolkit ev name body)
      (Evaluator.declareToolkit ev' name body) := by
  apply h.newExports
  intro exports
  refine h.here fun above => h.newPart (.scope (by simp)) (.toolkit (by simp)) _ _ _ fun id => ?_
  refine h.thenPlain (h.holding ?_ (.toolkit id exports) ?_) rfl
  · exact List.subset_append_of_subset_left _ (by simp)
  · refine h.andThen (h.within (by simp) (h.runBlock hev body)) ?_
    exact h.declare name (.toolkit name (by simp) (by simp))

theorem declareBridge (name : String) (body : List Node) :
    R Value kept loose (Evaluator.declareBridge ev name body)
      (Evaluator.declareBridge ev' name body) := by
  refine h.here fun above => h.newPart (.scope (by simp)) .bridge _ _ _ fun id =>
    h.thenPlain ?_ rfl
  refine h.holding (List.subset_append_of_subset_left _ (List.subset_append_left ..))
    (.part id .bridge) ?_
  refine h.andThen (h.within (by simp) (h.runBlock hev body)) ?_
  exact h.declare name (.bridge name (by simp))

end

/-! #### Errors -/

theorem declareError (parts : Attempt Node) (name message : String) :
    R Unit kept loose (Evaluator.declareError parts name message)
      (Evaluator.declareError parts name message) := by
  unfold Evaluator.declareError
  cases parts.errorVar with
  | none =>
    cases parts.peek with
    | true => exact h.andThen (h.declare peekName (.data rfl)) h.done
    | false => exact h.done
  | some var =>
    cases parts.peek with
    | true => exact h.andThen (h.declare peekName (.data rfl)) (h.declare var (.data rfl))
    | false => exact h.declare var (.data rfl)

section
variable (hev : ∀ kept loose node, R Value kept loose (ev node) (ev' node))
include hev

theorem readAttribute (object : Node) (name : String) :
    R Value kept loose (Evaluator.readAttribute ev object name)
      (Evaluator.readAttribute ev' object name) := by
  refine h.borrow (hev _ _ object) fun o => h.bind (h.member? (value_mem o _) name) fun found => ?_
  cases found with
  | none => exact h.fault _
  | some v => exact h.given (List.subset_append_left ..)

theorem runTrap (parts : Attempt Node) (name message : String) :
    R Unit kept loose (Evaluator.runTrap ev parts name message)
      (Evaluator.runTrap ev' parts name message) :=
  h.here fun _ => h.inFrame (.block (List.mem_cons_self ..)) fun _ =>
    h.andThen (h.declareError parts name message) (h.runBlock hev parts.trap)

theorem conclude (parts : Attempt Node) :
    R Unit kept loose (Evaluator.conclude ev parts) (Evaluator.conclude ev' parts) := by
  unfold Evaluator.conclude
  split
  · exact h.done
  · exact (h.note rfl).andThen (h.runBlock hev _)

omit hev in
/-- An attempt makes its frame, whatever it does in there. -/
theorem attemptWith {concluding concluding' : Except Exit Unit → Eval Unit → Eval Unit}
    (parts : Attempt Node)
    (hinside : ∀ kept loose id, .scope id ∈ kept →
      R Unit kept loose (Evaluator.attemptInWith concluding ev parts id)
        (Evaluator.attemptInWith concluding' ev' parts id)) :
    R Value kept loose (Evaluator.attemptWith concluding ev parts)
      (Evaluator.attemptWith concluding' ev' parts) := by
  refine (h.note rfl).andThen (h.thenPlain (h.here fun above => ?_) rfl)
  exact h.newFrame (.block (List.mem_cons_self ..)) fun id =>
    hinside _ _ id (List.mem_cons_self ..)

/-! #### Work for later -/

omit hev in
theorem paral {body : List Node}
    (henqueue : R Unit kept loose (Evaluator.enqueue body) (Evaluator.enqueue body)) :
    R Value kept loose (Evaluator.paral body) (Evaluator.paral body) :=
  h.thenPlain henqueue rfl

theorem hold
    (htake : R (List (List Node)) kept loose Evaluator.takeTasks Evaluator.takeTasks)
    (body : List Node) : R Value kept loose (Evaluator.hold ev body) (Evaluator.hold ev' body) := by
  refine h.bind htake fun tasks => (h.note rfl).andThen ?_
  exact h.andThen (h.runBlocks hev tasks) (h.thenPlain (h.runBlock hev body) rfl)

theorem listen
    (hregister : ∀ event handler,
      R Unit kept loose (Evaluator.register event handler) (Evaluator.register event handler))
    (body : List Node) :
    R Value kept loose (Evaluator.listen ev body) (Evaluator.listen ev' body) := by
  unfold Evaluator.listen
  split
  · exact h.thenPlain (hregister _ _) rfl
  · exact h.thenPlain (h.runBlock hev body) rfl

theorem signal (body : List Node) :
    R Value kept loose (Evaluator.signal ev body) (Evaluator.signal ev' body) := by
  unfold Evaluator.signal
  split
  · exact h.thenPlain (h.runBlock hev body) rfl
  · refine h.bind (h.handlersOf _) fun handlers => (h.note rfl).andThen ?_
    exact h.andThen (h.runBlocks hev _) (h.thenPlain (h.runBlock hev body.tail) rfl)

/-! #### Nodes and programs -/

theorem embed (body : List Node) :
    R Value kept loose (Evaluator.embed ev body) (Evaluator.embed ev' body) :=
  h.here fun _ =>
    h.thenPlain (h.inFrame (.block (List.mem_cons_self ..)) fun _ => h.runBlock hev body) rfl

end

theorem afterStatement {r : Except Exit Value} (hr : items r ⊆ loose ++ kept) :
    R Unit kept loose (Treewalk.afterStatement r) (Treewalk.afterStatement r) := by
  unfold Treewalk.afterStatement
  split
  · exact h.done
  · exact h.report _
  · exact h.calm (h.note rfl)
  · exact h.exit _ fun i hi => .mem (hr hi)

end Basics

/-! ### Constructs that call -/

namespace Calling

variable {R S : Custom} (h : Calling R S) {ev ev' : Evaluator} {kept loose : List Item}
  {run run' : List Node → Eval Unit}
include h

/-- The body of a spec starts with the arguments. -/
theorem invokeSpec (name : String) {s : Spec Node}
    (hbody : ∀ us vs, S Unit us vs (run s.body) (run' s.body)) {args : List Value}
    (hargs : items args ⊆ loose ++ kept) :
    R Value kept loose (Evaluator.invoke name args.length (s.params.zip args) (run s.body))
      (Evaluator.invoke name args.length (s.params.zip args) (run' s.body)) := by
  refine h.invoke name _ (fun l hl => ?_) hbody
  exact hargs (List.mem_map_of_mem (List.of_mem_zip hl).2)

theorem callSpec (name : String) {s : Spec Node}
    (hbody : ∀ us vs, S Unit us vs (run s.body) (run' s.body)) {args : List Value}
    (hargs : items args ⊆ loose ++ kept) :
    R Value kept loose (Evaluator.callSpec run name s args)
      (Evaluator.callSpec run' name s args) := by
  refine h.here fun above => h.inFrame (.function (List.mem_cons_self ..)) fun id => ?_
  refine h.invokeSpec name hbody (subset_of_kept hargs ?_)
  exact List.subset_cons_of_subset _ (List.subset_cons_self ..)

omit h in
/-- A value that was found is in hand. -/
theorem mem_found (v : Value) (ts : List Item) : .value v ∈ items (some v) ++ ts :=
  List.mem_append_left _ (List.mem_singleton_self _)

omit h in
/-- A method starts with its receiver and its arguments. -/
theorem mem_methodLocals {i : Instance} {params : List String} {args : List Value}
    {l : String × Value} (hl : l ∈ Evaluator.methodLocals i params args) :
    l.2 = .object i ∨ l.2 ∈ args := by
  rcases List.mem_append.mp hl with hreceiver | harg
  · obtain ⟨name, -, rfl⟩ := List.mem_map.mp hreceiver
    exact .inl rfl
  · exact .inr (List.of_mem_zip harg).2

theorem invokeMethod {i : Instance} (hi : .value (.object i) ∈ loose ++ kept) (name : String)
    (params : List String) {body : List Node}
    (hbody : ∀ us vs, S Unit us vs (run body) (run' body)) {args : List Value}
    (hargs : items args ⊆ loose ++ kept) :
    R Value kept loose
      (Evaluator.invoke name args.length (Evaluator.methodLocals i params args) (run body))
      (Evaluator.invoke name args.length (Evaluator.methodLocals i params args) (run' body)) := by
  refine h.invoke name _ (fun l hl => ?_) hbody
  rcases mem_methodLocals hl with hreceiver | harg
  · exact hreceiver ▸ hi
  · exact hargs (List.mem_map_of_mem harg)

theorem callMethod {i : Instance} (hi : .value (.object i) ∈ kept) (name : String)
    (params : List String) {body : List Node}
    (hbody : ∀ us vs, S Unit us vs (run body) (run' body)) {args : List Value}
    (hargs : items args ⊆ loose ++ kept) :
    R Value kept loose (Evaluator.callMethod run i name params body args)
      (Evaluator.callMethod run' i name params body args) := by
  refine h.inFrame (.method hi) fun id => h.invokeMethod ?_ name params hbody ?_
  · simp [hi]
  · exact subset_of_kept hargs (List.subset_cons_self ..)

variable (hrun : Supplies R S run run')
  (hev : ∀ kept loose node, R Value kept loose (ev node) (ev' node))
include hrun hev

theorem call (callee : Node) (args : List Node) :
    R Value kept loose (Evaluator.call ev run callee args)
      (Evaluator.call ev' run' callee args) := by
  refine h.borrow (h.calleeOf hev callee) fun f => ?_
  split
  · refine hrun _ _ _ _ _ _ (.spec (List.mem_append_right _ (value_mem _ kept))) fun hbody => ?_
    refine h.checkedArgs hev _ _ args fun vs => h.callSpec _ hbody ?_
    exact List.subset_append_left ..
  · exact h.fault _

theorem methodCall (object : Node) (method : String) (args : List Node) :
    R Value kept loose (Evaluator.methodCall ev run object method args)
      (Evaluator.methodCall ev' run' object method args) := by
  refine h.borrow (hev _ _ object) fun o => ?_
  split
  · refine h.bind (h.method? (value_mem _ _) method) fun found => ?_
    split
    -- The receiver is held since it was asked for, and the arguments are loose.
    · refine hrun _ _ _ _ _ _ (.spec (mem_found _ _)) fun hbody => ?_
      refine h.checkedArgs hev _ _ args fun vs => h.callMethod (value_mem _ kept) _ _ hbody ?_
      exact List.subset_append_left ..
    · exact h.fault _
    · exact h.fault _
  · apply h.getLocal? method (.exports (List.mem_append_right _ (value_mem _ _)))
    intro found
    split
    · refine hrun _ _ _ _ _ _ (.spec (List.mem_append_left _ (mem_found _ _))) fun hbody => ?_
      refine h.checkedArgs hev _ _ args fun vs => h.callSpec _ hbody ?_
      exact List.subset_append_left ..
    · exact h.fault _
    · exact h.fault _
  · exact h.fault _

theorem initialise {i : Instance} (hi : .value (.object i) ∈ kept) (args : List Node) :
    R Unit kept loose (Evaluator.initialise ev run i args) (Evaluator.initialise ev' run' i args) := by
  unfold Evaluator.initialise
  split
  · exact h.done
  · dsimp only
    split
    · exact h.report _
    · have hbrings := Brings.constructor (List.mem_append_right loose hi) ‹_›
      refine hrun _ _ _ _ _ _ hbrings fun hbody => ?_
      refine h.bind (h.evalAll hev args) fun vs => h.forget (h.callMethod hi _ _ hbody ?_)
      exact List.subset_append_left ..

theorem spawn (source : Node) (args : List Node) :
    R Value kept loose (Evaluator.spawn ev run source args)
      (Evaluator.spawn ev' run' source args) := by
  refine h.borrow (hev _ _ source) fun b => ?_
  cases b with
  | blueprint b =>
    refine h.bind (h.newInstance (value_mem _ _)) fun i => ?_
    apply h.boundCount i.fields
    intro n
    refine (h.note rfl).andThen (h.holding (List.subset_append_left ..) (.value (.object i)) ?_)
    exact h.andThen (h.initialise hrun hev (value_mem _ _) args) (h.given (by simp [items]))
  | _ => exact h.fault _

theorem stepPlain {v v' : Variant} (bound : Nat) {node : Node} (hnode : node.isPlain = true) :
    R Value kept loose (v.step ev run bound node) (v'.step ev' run' bound node) := by
  cases node with
  | program body => exact h.thenPlain (h.runBlock hev body) rfl
  | number x => exact h.plain rfl
  | text s => exact h.plain rfl
  | bool b => exact h.plain rfl
  | nil => exact h.plain rfl
  | interpolated parts => exact h.interpolated hev parts
  | pack nodes => exact h.pack hev nodes
  | typeName s => exact h.plain rfl
  | docstring s => exact h.plain rfl
  | binary op left right => exact h.binary hev op left right
  | unary op operand => exact h.unary hev op operand
  | kind x => exact h.kindOf hev x
  | convert source target => exact h.convert hev source target
  | var name => exact h.lookupAs .var name
  | assign target value => exact h.assignTo hev target value
  | firm name value => exact h.declareConstant hev name value
  | nick name nickname => exact (h.note rfl).andThen (h.plain rfl)
  | print nodes => exact h.printLine hev nodes
  | statement x => exact hev _ _ x
  | embed body => exact h.embed hev body
  | ask nodes => exact h.ask hev nodes
  | wait x => exact h.plain rfl
  | back value => exact h.back hev value
  | call callee args => exact h.call hrun hev callee args
  | methodCall object method args => exact h.methodCall hrun hev object method args
  | check first alters altern => exact h.check hev first alters altern
  | halt => exact h.exit _ (by simp [exitItems])
  | proceed => exact h.exit _ (by simp [exitItems])
  | spawn source args => exact h.spawn hrun hev source args
  | adopt child parent => exact h.adopt child parent
  | attributeOf object name => exact h.readAttribute hev object name
  | toolkit name body => exact h.declareToolkit hev name body
  | bridge name body => exact h.declareBridge hev name body
  | inlet body => exact h.thenPlain (h.runBlock hev body) rfl
  | link greeter implementation => exact h.link hev greeter implementation
  | signal body => exact h.signal hev body
  | _ => cases hnode

end Calling

/-! ### Constructs that handle exits -/

namespace Rules

variable {R : Custom} (h : Rules R) {ev ev' : Evaluator} {kept loose : List Item}
include h

/-- A report takes the place of a fault. -/
theorem recovering {x y : Eval Value} (hx : R Value kept loose x y) :
    R Value kept loose (Evaluator.recovering x) (Evaluator.recovering y) := by
  refine h.bind (h.outcome hx) fun r => ?_
  cases r with
  | ok v => exact h.given (List.subset_append_left ..)
  | error e =>
    cases e with
    | fault f => exact h.thenPlain (h.report _) rfl
    -- The other exits go on outwards as they are.
    | _ => exact h.exit _ fun i hi => .mem (List.mem_append_left _ hi)

/-- A visit to a node: the check for a stop, the entry in the log, and
what the node does without its faults. -/
theorem visit (node : Node) {x y : Eval Value} (hx : R Value kept [] x y) :
    R Value kept loose
      (do
        Eval.checkInterrupt
        Treewalk.noteVisit node
        Evaluator.recovering x)
      (do
        Eval.checkInterrupt
        Treewalk.noteVisit node
        Evaluator.recovering y) :=
  h.andThen h.checkInterrupt (h.andThen (h.noteVisit node) (h.recovering hx))

section
variable (hev : ∀ kept loose node, R Value kept loose (ev node) (ev' node))
include hev

theorem iteration (body : List Node) :
    R Bool kept loose (Evaluator.iteration ev body) (Evaluator.iteration ev' body) :=
  h.bind (h.outcome (h.runBlock hev body)) fun _ => h.goesOn (List.subset_append_left ..)

theorem settleBody (parts : Attempt Node) {r : Except Exit Unit} (hr : items r ⊆ loose ++ kept) :
    R (Except Exit Unit) kept loose (Evaluator.settleBody ev parts r)
      (Evaluator.settleBody ev' parts r) := by
  unfold Evaluator.settleBody
  split
  · exact (h.note rfl).andThen (h.bare rfl)
  · exact (h.note rfl).andThen (h.outcome (h.runTrap hev parts _ _))
  · exact h.given hr

theorem attemptIn {id : ScopeId} (hid : .scope id ∈ kept) (parts : Attempt Node) :
    R Unit kept loose (Proofs.attemptIn ev parts id) (Proofs.attemptIn ev' parts id) := by
  -- Each part has the outcome of the one before in hand.
  refine h.bind (h.outcome (h.within hid (h.runBlock hev parts.body))) fun ended => ?_
  refine h.borrow (h.settleBody hev parts (List.subset_append_left ..)) fun pending => ?_
  refine h.andThen (h.conclude hev parts) (h.ofOutcome ?_)
  exact List.subset_append_of_subset_right _ (List.subset_append_left ..)

theorem attempt (parts : Attempt Node) :
    R Value kept loose (Evaluator.attemptWith Variant.own.concluding ev parts)
      (Evaluator.attemptWith Variant.own.concluding ev' parts) :=
  h.attemptWith parts fun _ _ _ hid => h.attemptIn hev hid parts

theorem runStatements (statements : List Node) :
    R Unit kept loose (Treewalk.runStatements ev statements)
      (Treewalk.runStatements ev' statements) := by
  induction statements generalizing kept loose with
  | nil => exact h.done
  | cons first rest ih =>
    refine h.andThen (h.borrow (h.outcome (hev _ _ first)) fun r => ?_) ih
    exact h.afterStatement (List.subset_append_left ..)

theorem runProgram (program : Node) :
    R Unit kept loose (Treewalk.runProgram ev program) (Treewalk.runProgram ev' program) :=
  h.runStatements hev program.statements

end

end Rules

/-! ### Loops, modules and whole nodes -/

namespace Handling

variable {R S : Custom} {v v' : Variant} {ev ev' : Evaluator} (h : Handling R S v v' ev ev')
  {kept loose : List Item}
include h

theorem countFrom (var : String) (stop step : Float) (body : List Node) (bound : Nat)
    (i : Float) :
    R Unit kept loose (Evaluator.countFromWith v.check ev var stop step body bound i)
      (Evaluator.countFromWith v'.check ev' var stop step body bound i) := by
  -- The induction is on the iterations that are allowed: the numbers
  -- that are counted through need not come to an end.
  induction bound generalizing kept loose i with
  | zero => exact h.exhausted
  | succ more ih =>
    unfold Evaluator.countFromWith
    split
    · refine h.andThen h.checking (h.andThen (h.assign var (.data rfl)) ?_)
      refine h.bind (h.iteration body) fun b => ?_
      cases b with
      | true => exact ih (i + step)
      | false => exact h.done
    · exact h.done

theorem count (bound : Nat) (var : String) (start stop step : Float) (body : List Node) :
    R Value kept loose (Evaluator.countWith v.check ev bound var start stop step body)
      (Evaluator.countWith v'.check ev' bound var start stop step body) := by
  unfold Evaluator.countWith
  split
  · exact h.fault _
  · exact h.thenPlain (h.countFrom var stop step body bound start) rfl

section
variable (hev : ∀ kept loose node, R Value kept loose (ev node) (ev' node))
include hev

theorem traverse (bound : Nat) (var : String) (start stop : Node) (step : Option Node)
    (body : List Node) :
    R Value kept loose (Evaluator.traverseWith v.check ev bound var start stop step body)
      (Evaluator.traverseWith v'.check ev' bound var start stop step body) := by
  refine h.bind (h.loopBound hev .start start) fun a => ?_
  refine h.bind (h.loopBound hev .stop stop) fun b => ?_
  cases step with
  | none => exact h.count bound var a b 1 body
  | some x => exact h.bind (h.loopBound hev .step x) fun s => h.count bound var a b s body

theorem each (bound : Nat) (var : String) (range : Node) (body : List Node) :
    R Value kept loose (Evaluator.eachWith v.check ev bound var range body)
      (Evaluator.eachWith v'.check ev' bound var range body) := by
  refine h.bind (α := Float × Float) (h.borrow (hev _ _ range) fun v => ?_) fun ends => ?_
  · split
    · exact h.bare rfl
    · exact h.fault _
  · exact h.count bound var ends.1 ends.2 (Evaluator.rangeStep ends.1 ends.2) body

theorem untilTrue (condition : Node) (body : List Node) (bound : Nat) :
    R Value kept loose (Evaluator.untilTrueWith v.check ev condition body bound)
      (Evaluator.untilTrueWith v'.check ev' condition body bound) := by
  induction bound generalizing kept loose with
  | zero => exact h.exhausted
  | succ more ih =>
    refine h.andThen h.checking (h.bind (h.test hev condition) fun b => ?_)
    cases b with
    | true => exact h.plain rfl
    | false =>
      refine h.bind (h.iteration body) fun b => ?_
      cases b with
      | true => exact ih
      | false => exact h.plain rfl

omit hev in
theorem fetch (name : String) (path : Option String) :
    R Unit kept loose (Evaluator.fetch ev name path) (Evaluator.fetch ev' name path) := by
  refine h.bind (h.isBound name) fun b => ?_
  cases b with
  | true => exact h.done
  | false =>
    cases path with
    | none => exact h.done
    | some path => exact h.splice path

omit hev in
theorem plug (name : String) (path : Option String) :
    R Value kept loose (Evaluator.plug ev name path) (Evaluator.plug ev' name path) :=
  h.toBasics.plug (h.fetch name path)

omit hev in
theorem bring (names : List String) (path : String) :
    R Value kept loose (Evaluator.bring ev names path) (Evaluator.bring ev' names path) :=
  h.andThen (h.splice path) (h.thenPlain (h.requireNames names) rfl)

section
variable {run run' : List Node → Eval Unit}

/-- One layer of a variant obeys the rules that its parts obey, given
what is to be said of the nodes that write to exports, make code into
values or raise an error, and as long as no work is put off and no tasks
are taken up. -/
theorem stepWith (hrun : Supplies R S run run') (bound : Nat) {node : Node}
    (hnode : node.defers = false) (hcode : ∀ body ∈ node.code, Offers R body)
    (hspec : ∀ decl, node = .spec decl →
      R Value kept loose (Evaluator.declareSpec decl) (Evaluator.declareSpec decl))
    (hexpose : ∀ name, node = .expose name →
      R Value kept loose (Evaluator.expose name) (Evaluator.expose name))
    (htrigger : ∀ name message, node = .trigger name message →
      R Value kept loose (Evaluator.trigger name message) (Evaluator.trigger name message)) :
    R Value kept loose (v.step ev run bound node)
      (v'.step ev' run' bound node) := by
  cases node with
  | spec decl => exact hspec decl rfl
  | blueprint decl =>
    refine h.declareBlueprint hev fun k hk => hcode _ ?_
    simp [Node.code, hk]
  | expose name => exact hexpose name rfl
  | trigger name message => exact htrigger name message rfl
  | traverse var start stop step body => exact h.traverse hev bound var start stop step body
  | each var range body => exact h.each hev bound var range body
  | untilTrue condition body => exact h.untilTrue hev condition body bound
  | plug name path => exact h.plug name path
  | bring names path => exact h.bring names path
  | attempt parts => exact h.attempt parts
  | paral body => cases hnode
  | hold body => cases hnode
  | listen body => cases hnode
  | _ => exact h.stepPlain hrun hev bound rfl

variable (hrun : ∀ kept loose body, S Unit kept loose (run body) (run' body))
include hrun

/-- One layer of a variant obeys the rules that its parts obey, as long
as no work is put off and no tasks are taken up. -/
theorem stepNow (hn : NodeRules R) (bound : Nat) {node : Node} (hnode : node.defers = false) :
    R Value kept loose (v.step ev run bound node)
      (v'.step ev' run' bound node) :=
  h.stepWith hev (.of_all hrun) bound hnode (fun body _ => hn.code body)
    (fun decl _ => h.declareSpecBy hn.toExporting (hn.code decl.body))
    (fun name _ => h.exposeBy hn.toExporting name) fun name message _ => hn.trigger name message

/-- One layer of a variant obeys the rules that its parts obey. -/
theorem step (hn : NodeRules R) (ht : TaskRules R) (bound : Nat) (node : Node) :
    R Value kept loose (v.step ev run bound node)
      (v'.step ev' run' bound node) := by
  cases node with
  | paral body => exact h.paral (ht.enqueue body)
  | hold body => exact h.hold hev ht.takeTasks body
  | listen body => exact h.listen hev ht.register body
  | _ => exact h.stepNow hev hrun hn bound rfl

end

end

end Handling

/-! ### Disciplines -/

/-- Where the rules are the same for all exits, exits may be handled
anywhere. -/
theorem Conduct.handling {R S : Custom} (h : Conduct R S) {ev ev' : Evaluator}
    (hev : ∀ kept loose node, R Value kept loose (ev node) (ev' node))
    (hexhausted : ∀ {α : Type} [Yields α] {kept loose : List Item},
      R α kept loose Eval.exhausted Eval.exhausted) : Handling R S .own .own ev ev' where
  toCalling := h.toCalling
  exhausted := hexhausted
  checking := h.checkInterrupt
  iteration := h.iteration hev
  attempt := h.attempt hev
  splice path := h.splice path fun _ _ statements => h.runBlock hev statements

namespace Discipline

variable {R S : Custom} (h : Discipline R S) {ev ev' : Evaluator} {kept loose : List Item}
  (hev : ∀ kept loose node, R Value kept loose (ev node) (ev' node))
include h hev

theorem handling : Handling R S .own .own ev ev' :=
  h.toConduct.handling hev h.exhausted

variable {run run' : List Node → Eval Unit} (hrun : ∀ kept loose body, S Unit kept loose (run body) (run' body))
include hrun

/-- One layer of the evaluator obeys a discipline, as long as no work is
put off and no tasks are taken up. -/
theorem stepNow (bound : Nat) {node : Node} (hnode : node.defers = false) :
    R Value kept loose (Evaluator.step ev run bound node)
      (Evaluator.step ev' run' bound node) := by
  have hstep : R Value kept loose _ _ := (h.handling hev).stepNow hev hrun h.toNodeRules bound hnode
  rwa [Variant.step_own, Variant.step_own] at hstep

/-- One layer of the evaluator obeys a discipline. -/
theorem step (ht : TaskRules R) (bound : Nat) (node : Node) :
    R Value kept loose (Evaluator.step ev run bound node)
      (Evaluator.step ev' run' bound node) := by
  have hstep : R Value kept loose _ _ := (h.handling hev).step hev hrun h.toNodeRules ht bound node
  rwa [Variant.step_own, Variant.step_own] at hstep

end Discipline

/-- The evaluator obeys every discipline. -/
theorem Discipline.evaluate {R : Custom} (h : Discipline R R) (ht : TaskRules R) (steps : Nat)
    (kept loose : List Item) (node : Node) :
    R Value kept loose (Treewalk.evaluate steps node) (Treewalk.evaluate steps node) := by
  induction steps generalizing kept loose node with
  | zero => exact h.exhausted
  | succ steps ih =>
    exact h.visit node (h.step ih (fun _ _ body => h.runBlock ih body) ht steps node)

/-! ### Congruences -/

namespace Congruence

variable {R S : Relation} (h : Congruence R S) {ev ev' : Evaluator} {ts : List Item}
include h

theorem declareError (parts : Attempt Node) (name message : String) :
    R Unit ts (Evaluator.declareError parts name message)
      (Evaluator.declareError parts name message) :=
  (h.discipline.declareError parts name message).all

section
variable {run run' : List Node → Eval Unit} (hrun : ∀ ts body, S Unit ts (run body) (run' body))
include hrun

theorem invokeSpec (name : String) (s : Spec Node) {args : List Value}
    (hargs : ∀ v ∈ args, .value v ∈ ts) :
    R Value ts (Evaluator.invoke name args.length (s.params.zip args) (run s.body))
      (Evaluator.invoke name args.length (s.params.zip args) (run' s.body)) := by
  refine (h.discipline.invokeSpec name (fun _ _ us _ => hrun us s.body) ?_).all
  exact List.forall_mem_map.mpr hargs

theorem invokeMethod {i : Instance} (hi : .value (.object i) ∈ ts) (name : String)
    (params : List String) (body : List Node) {args : List Value}
    (hargs : ∀ v ∈ args, .value v ∈ ts) :
    R Value ts
      (Evaluator.invoke name args.length (Evaluator.methodLocals i params args) (run body))
      (Evaluator.invoke name args.length (Evaluator.methodLocals i params args) (run' body)) := by
  refine (h.discipline.invokeMethod hi name params (fun _ _ us _ => hrun us body) ?_).all
  exact List.forall_mem_map.mpr hargs

end

section
variable (hev : ∀ ts node, R Value ts (ev node) (ev' node))
include hev

theorem runBlock (body : List Node) :
    R Unit ts (Evaluator.runBlock ev body) (Evaluator.runBlock ev' body) :=
  (h.discipline.runBlock (fun _ _ node us _ => hev us node) body).all

theorem visit {run run' : List Node → Eval Unit}
    (hrun : ∀ ts body, S Unit ts (run body) (run' body)) (bound : Nat) (node : Node) :
    R Value ts
      (do
        Eval.checkInterrupt
        Treewalk.noteVisit node
        Evaluator.recovering (Evaluator.step ev run bound node))
      (do
        Eval.checkInterrupt
        Treewalk.noteVisit node
        Evaluator.recovering (Evaluator.step ev' run' bound node)) := by
  refine (h.discipline.visit node (h.discipline.step ?_ ?_ h.taskRules bound node)).all
  · exact fun _ _ node us _ => hev us node
  · exact fun _ _ body us _ => hrun us body

theorem runProgram (program : Node) :
    R Unit ts (Treewalk.runProgram ev program) (Treewalk.runProgram ev' program) :=
  (h.discipline.runProgram (fun _ _ node us _ => hev us node) program).all

end

end Congruence

/-- The evaluator respects every congruence. -/
theorem Congruence.evaluate {R : Relation} (h : Congruence R R) (steps : Nat)
    (ts : List Item) (node : Node) :
    R Value ts (Treewalk.evaluate steps node) (Treewalk.evaluate steps node) :=
  (h.discipline.evaluate h.taskRules steps ts [] node).all

end Treewalk.Proofs
