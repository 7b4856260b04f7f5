import Treewalk.Proofs.Constructs

/-!
# `Treewalk.Proofs.Provenance`: where the errors of a program come from

An error that a program raises has a name and a message. Both come from
a `trigger` that has been evaluated: no construct makes such an error
up, and none changes one that is on its way.

To speak of what has been evaluated in the course of a run, `without`
is the evaluator that never comes to an end once it evaluates a trigger
of a given name and message. `raised_by_trigger` says that no run of it
ends with that error: a run that does end with it has evaluated such a
trigger.

The proof relates the two evaluators. As long as no such trigger is
evaluated they go together, and nothing that is in hand is that error.
-/

set_option autoImplicit false

namespace Treewalk

open Eval

namespace Evaluator

/-- What a node does, if a trigger of an error has no end. -/
def stepWithout (name message : String) (ev : Evaluator) (run : List Node → Eval Unit)
    (bound : Nat) : Node → Eval Value
  | .trigger n text => if n = name ∧ text.getD "" = message then exhausted else trigger n text
  | node => step ev run bound node

end Evaluator

/-- The evaluator that does not come to an end once it evaluates a
trigger of an error. -/
def without (name message : String) : Nat → Evaluator
  | 0, _ => exhausted
  | steps + 1, node => do
    checkInterrupt
    noteVisit node
    Evaluator.recovering
      (Evaluator.stepWithout name message (without name message steps)
        (Evaluator.runBlock (without name message steps)) steps node)

namespace Proofs

open Yields (items)

variable {name message : String}

/-- Whether an item is anything but an error of this name and
message. -/
def Foreign (name message : String) : Item → Prop
  | .exit (.raised n text) => ¬ (n = name ∧ text = message)
  | _ => True

/-- As long as the error is not in hand, the first evaluation has no end
or ends as the second one does, and not with the error. -/
def sparing (name message : String) : Custom :=
  fun _ _ kept loose x y => (∀ i ∈ loose ++ kept, Foreign name message i) →
    ∀ c m, x c m = none ∨
      (x c m = y c m ∧ ∀ r m', y c m = some (r, m') → ∀ i ∈ items r, Foreign name message i)

/-- What can be had from other items is not the error. -/
theorem Foreign.known {ts : List Item} (h : ∀ i ∈ ts, Foreign name message i) {i : Item}
    (hi : Known ts i) : Foreign name message i := by
  cases hi with
  | mem hm => exact h _ hm
  | _ => trivial

/-! ### Evaluations that bring no error -/

section
variable {α β : Type} [Yields α] [Yields β] {kept loose : List Item}

/-- Evaluations that do not end with an error. -/
def Errorless (x : Eval α) : Prop :=
  ∀ c m r m', x c m = some (r, m') → ∀ n text, .exit (.raised n text) ∉ items r

theorem Errorless.spares {x : Eval α} (h : Errorless x) :
    sparing name message α kept loose x x := by
  intro _ c m
  refine .inr ⟨rfl, fun r m' hr i hi => ?_⟩
  unfold Foreign
  split
  · rename_i n text
    exact absurd hi (h c m r m' hr n text)
  · trivial

theorem Errorless.bind {γ : Type} [Yields γ] {x : Eval γ} {f : γ → Eval α} (hx : Errorless x)
    (hf : ∀ a, Errorless (f a)) : Errorless (x >>= f) := by
  intro c m r m' h n text
  obtain ⟨e, hfirst, rfl⟩ | ⟨a, m₁, -, hrest⟩ := Eval.bind_inv h
  · exact hx c m _ m' hfirst n text
  · exact hf a c m₁ r m' hrest n text

namespace Errorless

theorem settle (w : Except Fault Written) : Errorless (Eval.settle w) := by
  intro c m r m' h n text
  rw [Eval.settle_apply] at h
  split at h <;> cases h <;> exact List.not_mem_nil

theorem declareIn (id : ScopeId) (bound : String) (b : Binding) :
    Errorless (Eval.declareIn id bound b) :=
  fun c m => settle (m.store.declare id bound b) c m

theorem assign (target : String) (v : Value) : Errorless (Eval.assign target v) :=
  fun c m => settle (m.store.assign c.scope target v) c m

theorem copyBindings (target source : ScopeId) : Errorless (Eval.copyBindings target source) := by
  intro c m r m' h n text
  rw [Eval.copyBindings_apply] at h
  cases h
  split <;> exact List.not_mem_nil

theorem lookup? (target : String) : Errorless (Eval.lookup? target) := by
  intro c m r m' h n text
  cases h
  cases m.store.lookup? c.scope target <;> simp [items]

theorem getLocal? (id : ScopeId) (target : String) : Errorless (Eval.getLocal? id target) := by
  intro c m r m' h n text
  cases h
  cases m.store.getLocal? id target <;> simp [items]

theorem heed (reaction : Reaction) : Errorless (Eval.heed reaction) := by
  intro c m r m' h n text
  cases reaction <;> cases h <;> simp [items, exitItems]

theorem write (text : String) : Errorless (Eval.write text) :=
  fun c m => heed (m.out.offer text).1 c { m with out := (m.out.offer text).2 }

theorem report (e : Exit) : Errorless (Eval.report e) :=
  fun c m => heed (m.err.offer (e.category ++ ": " ++ e.message ++ "\n")).1 c
    { m.note (.reported e) with err := (m.err.offer (e.category ++ ": " ++ e.message ++ "\n")).2 }

theorem readLine : Errorless Eval.readLine := by
  intro c m r m' h n text
  cases hread : m.input.readLine.1 with
  | ok line =>
    rw [Eval.readLine_of_ok hread] at h
    cases h
    exact List.not_mem_nil
  | error reason =>
    rw [Eval.readLine_of_error hread] at h
    cases h
    simp [items, exitItems]

theorem checkInterrupt : Errorless Eval.checkInterrupt := by
  intro c m r m' h n text
  rw [Eval.checkInterrupt_apply] at h
  cases h
  split <;> simp [items, exitItems]

theorem noteVisit (node : Node) : Errorless (Treewalk.noteVisit node) := by
  intro c m r m' h n text
  obtain ⟨log, hnoted⟩ := noteVisit_apply node c m
  rw [hnoted] at h
  cases h
  exact List.not_mem_nil

theorem enterCall : Errorless Evaluator.enterCall := by
  intro c m r m' h n text
  rw [Evaluator.enterCall_apply] at h
  split at h <;> cases h <;> exact List.not_mem_nil

theorem startBring (path : String) : Errorless (Evaluator.startBring path) := by
  intro c m r m' h n text
  rw [Evaluator.startBring_apply] at h
  split at h
  · cases h
    exact List.not_mem_nil
  · split at h <;> cases h <;> exact List.not_mem_nil

/-- A result that brings no exit is no error. -/
theorem of_ok {x : Eval α} (h : ∀ c m, ∃ a m', x c m = some (.ok a, m') ∧
    ∀ n text, .exit (.raised n text) ∉ items a) : Errorless x := by
  intro c m r m' hr
  obtain ⟨a, m₁, hx, ha⟩ := h c m
  rw [hx] at hr
  cases hr
  exact ha

/-- The same if the results are of a type that brings nothing. -/
theorem of_bare {x : Eval α} (hitems : ∀ a : α, items a = [])
    (h : ∀ c m, ∃ a m', x c m = some (.ok a, m')) : Errorless x := by
  refine of_ok fun c m => ?_
  obtain ⟨a, m', hx⟩ := h c m
  exact ⟨a, m', hx, fun n text hmem => by rw [hitems a] at hmem; cases hmem⟩

end Errorless

/-! ### Rules -/

/-- It matters only whether the error is in hand. -/
theorem sparing_of_subset {kept' loose' : List Item} {x y : Eval α}
    (hsub : ∀ i ∈ loose' ++ kept', i ∈ loose ++ kept ∨ Foreign name message i)
    (hx : sparing name message α kept' loose' x y) : sparing name message α kept loose x y :=
  fun hhand => hx fun i hi => (hsub i hi).elim (hhand i) id

theorem sparing_bind {x y : Eval α} {f g : α → Eval β} (hx : sparing name message α kept loose x y)
    (hf : ∀ a, sparing name message β kept (items a) (f a) (g a)) :
    sparing name message β kept loose (x >>= f) (y >>= g) := by
  intro hhand c m
  obtain hnone | ⟨heq, hends⟩ := hx hhand c m
  · exact .inl (Eval.bind_of_none hnone)
  · show Eval.bind x f c m = none ∨ (Eval.bind x f c m = Eval.bind y g c m ∧
      ∀ r m', Eval.bind y g c m = some (r, m') → _)
    unfold Eval.bind
    rw [heq]
    rcases hy : y c m with _ | ⟨e | a, m₁⟩
    · exact .inl rfl
    · refine .inr ⟨rfl, fun r m' hr => ?_⟩
      cases hr
      exact hends _ _ hy
    -- What the first has brought is in hand for the second.
    · refine hf a (fun i hi => ?_) c m₁
      rcases List.mem_append.mp hi with hi | hi
      · exact hends _ _ hy i hi
      · exact hhand i (List.mem_append_right _ hi)

/-- A first step that brings no error is calm if what it brings in hand
is no error. -/
theorem Errorless.calm {us : α → List Item} {x : Eval α} (hx : Errorless x)
    (hus : ∀ a, ∀ i ∈ us a, Foreign name message i) :
    Calm (sparing name message) kept loose us x x := by
  intro γ _ f g hf hhand
  have hrest : ∀ a, sparing name message γ (loose ++ kept) (items a) (f a) (g a) := by
    intro a
    refine sparing_of_subset (fun i hi => ?_) (hf a)
    simp only [List.mem_append] at hi ⊢
    rcases hi with (hi | hi) | hi
    · exact .inr (hus a i hi)
    · exact .inl (.inr (.inl hi))
    · exact .inl (.inr (.inr hi))
  have hfirst : sparing name message α (loose ++ kept) [] x x := hx.spares
  exact sparing_bind hfirst hrest hhand

theorem sparing_outcome {x y : Eval α} (hx : sparing name message α kept loose x y) :
    sparing name message (Except Exit α) kept loose (Eval.outcome x) (Eval.outcome y) := by
  intro hhand c m
  unfold Eval.outcome
  obtain hnone | ⟨heq, hends⟩ := hx hhand c m
  · rw [hnone]
    exact .inl rfl
  · rw [heq]
    rcases hy : y c m with _ | ⟨r, m₁⟩
    · exact .inl rfl
    · refine .inr ⟨rfl, fun r' m' hr => ?_⟩
      cases hr
      exact hends r m₁ hy

theorem sparing_holding [Owner α] {refs : List Ref} {x y : Eval α}
    (hx : sparing name message α kept loose x y) :
    sparing name message α kept loose (Eval.holding refs x) (Eval.holding refs y) := by
  intro hhand c m
  unfold Eval.holding
  obtain hnone | ⟨heq, hends⟩ := hx hhand { c with held := refs ++ c.held } m
  · rw [hnone]
    exact .inl rfl
  · rw [heq]
    rcases hy : y { c with held := refs ++ c.held } m with _ | ⟨r, m₁⟩
    · exact .inl rfl
    · refine .inr ⟨rfl, fun r' m' hr => ?_⟩
      cases hr
      exact hends r m₁ hy

/-- A scope in hand is no error. -/
theorem sparing_scope {id : ScopeId} {x y : Eval α}
    (hx : sparing name message α (.scope id :: kept) loose x y) :
    sparing name message α kept loose x y := by
  refine sparing_of_subset (fun i hi => ?_) hx
  simp only [List.mem_append, List.mem_cons] at hi ⊢
  rcases hi with hi | rfl | hi
  · exact .inl (.inl hi)
  · exact .inr trivial
  · exact .inl (.inr hi)

/-- The making of a frame brings nothing but the scope. -/
theorem calm_newFrame (above : ScopeId) (kind : ScopeKind) :
    Calm (sparing name message) kept loose (fun _ => []) (Eval.newChild above kind)
      (Eval.newChild above kind) :=
  Errorless.calm (.of_ok fun _ _ => ⟨_, _, rfl, fun _ _ => List.not_mem_nil⟩)
    fun _ _ hi => by cases hi

end

theorem sparing_rules : Rules (sparing name message) where
  result a ha hhand c m := .inr ⟨rfl, fun r m' hr => by
    cases hr
    exact fun i hi => .known hhand (ha i hi)⟩
  bind := sparing_bind
  exit e he hhand c m := .inr ⟨rfl, fun r m' hr => by
    cases hr
    exact fun i hi => .known hhand (he i hi)⟩
  outcome := sparing_outcome
  holding hus _ hx := sparing_holding (sparing_of_subset (fun i hi => by
    simp only [List.mem_append] at hi
    rcases hi with hi | hi | hi
    · exact .inl (List.mem_append_left _ hi)
    · exact .inl (hus hi)
    · exact .inl (List.mem_append_right _ hi)) hx)
  here hf hhand c m := sparing_scope (hf c.scope) hhand c m
  within {_ _ _ _ id _ _} _ hx hhand c := hx hhand { c with scope := id }
  newExports := Errorless.calm (.of_ok fun _ _ => ⟨_, _, rfl, fun _ _ => List.not_mem_nil⟩)
    fun _ i hi => by rw [List.mem_singleton.mp hi]; trivial
  newPart _ _ := Errorless.calm
    (.of_ok fun _ _ => ⟨_, _, rfl, fun _ _ => List.not_mem_nil⟩) fun _ i hi => by
      simp only [List.mem_cons, List.not_mem_nil, or_false] at hi
      rcases hi with rfl | rfl <;> trivial
  newFrame _ hf := calm_newFrame _ _ _ _ _ fun id => sparing_holding (sparing_scope (hf id))
  newInstance _ := Errorless.spares (.of_ok fun _ _ => ⟨_, _, rfl, by simp [items]⟩)
  lookup? target := (Errorless.lookup? target).calm fun o i hi => by
    obtain ⟨v, -, rfl⟩ := List.mem_map.mp hi
    trivial
  getLocal? target _ := (Errorless.getLocal? _ target).calm fun o i hi => by
    obtain ⟨v, -, rfl⟩ := List.mem_map.mp hi
    trivial
  boundCount id := Errorless.calm (.of_bare (fun _ => rfl) fun _ _ => ⟨_, _, rfl⟩)
    fun _ i hi => by cases hi
  declareIn target _ _ _ := (Errorless.declareIn _ target _).spares
  assign target _ _ := (Errorless.assign target _).spares
  copyBindings _ _ := (Errorless.copyBindings _ _).spares
  checkInterrupt := Errorless.checkInterrupt.spares
  write text := (Errorless.write text).spares
  readLine := Errorless.readLine.spares
  report e := (Errorless.report e).spares
  note _ := Errorless.calm (.of_bare (fun _ => rfl) fun _ _ => ⟨_, _, rfl⟩) fun _ i hi => by cases hi
  noteVisit node := (Errorless.noteVisit node).spares
  handlersOf _ := Errorless.spares (.of_bare (fun _ => rfl) fun _ _ => ⟨_, _, rfl⟩)

theorem sparing_conduct : Conduct (sparing name message) (sparing name message) :=
  .of_counters sparing_rules (fun _ _ => Errorless.enterCall.spares)
    (fun _ _ => Errorless.spares (.of_bare (fun _ => rfl) fun _ _ => ⟨_, _, rfl⟩))
    (fun _ _ => Errorless.calm (.of_bare (fun _ => rfl) fun _ _ => ⟨_, _, rfl⟩)
      fun _ _ hi => by cases hi)
    (fun _ _ path => (Errorless.startBring path).spares)
    fun _ _ => Errorless.calm (.of_bare (fun _ => rfl) fun _ _ => ⟨_, _, rfl⟩)
      fun _ _ hi => by cases hi

theorem sparing_exporting :
    Exporting (sparing name message) Evaluator.exportTo Evaluator.exportTo where
  nearestExports? {kept loose} _ _ f g hf hhand c m := by
    refine sparing_of_subset (fun i hi => ?_) (hf (m.store.nearestExports? c.scope)) hhand c m
    simp only [List.mem_append] at hi ⊢
    rcases hi with (hi | hi) | hi
    · obtain ⟨e, -, rfl⟩ := List.mem_map.mp hi
      exact .inr trivial
    · exact .inl (.inl hi)
    · exact .inl (.inr hi)
  exportIn bound _ _ _ := (Errorless.declareIn _ bound _).spares

/-- A body is no error. -/
theorem sparing_code (body : List Node) : Offers (sparing name message) body := by
  intro α _ kept loose x y hx
  refine sparing_of_subset (fun i hi => ?_) hx
  rcases List.mem_cons.mp hi with rfl | hi
  · exact .inr trivial
  · exact .inl hi

theorem sparing_taskRules : TaskRules (sparing name message) where
  enqueue _ := Errorless.spares (.of_bare (fun _ => rfl) fun _ _ => ⟨_, _, rfl⟩)
  takeTasks := Errorless.spares (.of_bare (fun _ => rfl) fun _ _ => ⟨_, _, rfl⟩)
  register _ _ := Errorless.spares (.of_bare (fun _ => rfl) fun _ _ => ⟨_, _, rfl⟩)

/-! ### All evaluations -/

/-- A trigger has no end in the first evaluator if it raises the error,
and otherwise raises another one. -/
theorem sparing_trigger {kept loose : List Item} (n : String) (text : Option String) :
    sparing name message Value kept loose
      (if n = name ∧ text.getD "" = message then Eval.exhausted else Evaluator.trigger n text)
      (Evaluator.trigger n text) := by
  intro _ c m
  split
  · exact .inl rfl
  · rename_i hother
    refine .inr ⟨rfl, fun r m' hr i hi => ?_⟩
    cases hr
    rw [List.mem_singleton.mp hi]
    exact hother

section
variable {ev ev' : Evaluator} {kept loose : List Item}
  (hev : ∀ kept loose node, sparing name message Value kept loose (ev node) (ev' node))
include hev

theorem sparing_step (bound : Nat) (node : Node) :
    sparing name message Value kept loose
      (Evaluator.stepWithout name message ev (Evaluator.runBlock ev) bound node)
      (Evaluator.step ev' (Evaluator.runBlock ev') bound node) := by
  have hhandling : Handling (sparing name message) (sparing name message) .own .own ev ev' :=
    sparing_conduct.handling hev fun _ _ _ => .inl rfl
  have hrun : ∀ kept loose body, sparing name message Unit kept loose
      (Evaluator.runBlock ev body) (Evaluator.runBlock ev' body) :=
    fun _ _ body => sparing_rules.runBlock hev body
  -- The equation of any other node asks that it is no trigger.
  have hother : (∀ n text, node ≠ .trigger n text) →
      Evaluator.stepWithout name message ev (Evaluator.runBlock ev) bound node =
        Evaluator.step ev (Evaluator.runBlock ev) bound node := by
    intro hne
    rw [Evaluator.stepWithout]
    exact fun n text h => hne n text h
  cases hnode : node with
  | trigger n text => exact sparing_trigger n text
  | paral body => exact sparing_rules.paral (sparing_taskRules.enqueue body)
  | hold body => exact sparing_rules.hold hev sparing_taskRules.takeTasks body
  | listen body => exact sparing_rules.listen hev sparing_taskRules.register body
  | _ =>
    rw [← hnode, hother (by simp [hnode]), ← Variant.step_own ev, ← Variant.step_own ev']
    refine hhandling.stepWith hev (.of_all hrun) bound (by rw [hnode]; rfl) (fun body _ => sparing_code body)
      (fun decl _ => sparing_rules.declareSpecBy sparing_exporting (sparing_code decl.body))
      (fun target _ => sparing_rules.exposeBy sparing_exporting target) fun n text h => ?_
    rw [hnode] at h
    cases h

end

theorem sparing_evaluate (steps : Nat) (kept loose : List Item) (node : Node) :
    sparing name message Value kept loose (without name message steps node)
      (evaluate steps node) := by
  induction steps generalizing kept loose node with
  | zero => exact fun _ _ _ => .inl rfl
  | succ steps ih => exact sparing_rules.visit node (sparing_step ih steps node)

/-- An error that a node ends with comes from a trigger of this name and
this message, which has been evaluated: the evaluator for which such a
trigger has no end does not come to an end. -/
theorem raised_by_trigger {steps : Nat} {node : Node} {c : Context} {m m' : Machine}
    (h : evaluate steps node c m = some (.error (.raised name message), m')) :
    without name message steps node c m = none := by
  have hspares : sparing name message Value [] [] _ _ := sparing_evaluate steps [] [] node
  obtain hnone | ⟨-, hends⟩ := hspares (fun i hi => by cases hi) c m
  · exact hnone
  · exact absurd ⟨rfl, rfl⟩ (hends _ _ h _ (List.mem_singleton_self _))

end Proofs

end Treewalk
