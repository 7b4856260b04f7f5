import Treewalk.Machine

/-!
# `Treewalk.Evaluation.Basic`: evaluations and how they combine

An evaluation runs in a context, changes the machine, and ends with a
result or an exit. It may also run out of the steps it was given; then
there is no outcome at all.

## Who keeps a value alive

The result of an evaluation is kept alive by nobody. Whoever asked for
it must hold it while it is in use and let it go afterwards, and
`borrow` does both. A result that is passed on goes to the next one
who asked. The context lists all that is held, and what a running
evaluation lets go leaves the store only if the list does not name it.
-/

set_option autoImplicit false

namespace Treewalk

/-- Where an evaluation runs: the settings, the current scope, and what
the constructs around it hold. -/
structure Context where
  settings : Settings
  scope : ScopeId
  held : List Ref

/-- An evaluation with a result in `α`. -/
def Eval (α : Type) : Type :=
  Context → Machine → Option (Except Exit α × Machine)

/-- A type of results that may keep scopes and instances alive. -/
class Owner (α : Type) where
  refs : α → List Ref

instance : Owner Unit := ⟨fun _ => []⟩

instance : Owner Bool := ⟨fun _ => []⟩

instance : Owner Float := ⟨fun _ => []⟩

instance : Owner String := ⟨fun _ => []⟩

instance : Owner (List String) := ⟨fun _ => []⟩

instance : Owner (Float × Float) := ⟨fun _ => []⟩

instance : Owner Value := ⟨Value.refs⟩

instance : Owner (List Value) := ⟨fun vs => vs.flatMap Value.refs⟩

instance {α : Type} [Owner α] : Owner (Except Exit α) where
  refs
    | .ok a => Owner.refs a
    | .error e => e.refs

namespace Eval

/-- The evaluation that does nothing but have a result. -/
@[always_inline, inline]
protected def pure {α : Type} (a : α) : Eval α :=
  fun _ m => some (.ok a, m)

/-- One evaluation after the other, unless the first one exits. -/
@[always_inline, inline]
protected def bind {α β : Type} (x : Eval α) (f : α → Eval β) : Eval β :=
  fun c m =>
    match x c m with
    | none => none
    | some (.error e, m) => some (.error e, m)
    | some (.ok a, m) => f a c m

@[always_inline]
instance : Monad Eval where
  pure := Eval.pure
  bind := Eval.bind

instance : LawfulMonad Eval :=
  .mk' Eval
    (by
      intro α x
      funext c m
      show Eval.bind x (fun a => Eval.pure (id a)) c m = _
      unfold Eval.bind Eval.pure
      rcases x c m with _ | ⟨e | a, m₁⟩ <;> rfl)
    (fun _ _ => rfl)
    (by
      intro α β γ x f g
      funext c m
      show Eval.bind (Eval.bind x f) g c m = Eval.bind x (fun a => Eval.bind (f a) g) c m
      unfold Eval.bind
      rcases x c m with _ | ⟨e | a, m₁⟩ <;> rfl)

/-- The evaluation that has run out of steps. -/
def exhausted {α : Type} : Eval α :=
  fun _ _ => none

/-- The evaluation that exits. -/
def exit {α : Type} (e : Exit) : Eval α :=
  fun _ m => some (.error e, m)

/-- The evaluation that meets a fault. -/
def fault {α : Type} (f : Fault) : Eval α :=
  exit (.fault f)

/-- The evaluation with a known outcome. -/
def ofOutcome {α : Type} : Except Exit α → Eval α
  | .ok a => pure a
  | .error e => exit e

/-- The evaluation of something that may be at fault. -/
def ofExcept {α : Type} : Except Fault α → Eval α
  | .ok a => pure a
  | .error f => fault f

/-- The outcome of an evaluation as a result. -/
@[always_inline, inline]
def outcome {α : Type} (x : Eval α) : Eval (Except Exit α) :=
  fun c m =>
    match x c m with
    | none => none
    | some (r, m) => some (.ok r, m)

/-- The context. -/
def context : Eval Context :=
  fun c m => some (.ok c, m)

/-- The machine as it is. -/
def machine : Eval Machine :=
  fun _ m => some (.ok m, m)

/-- The current scope. -/
def here : Eval ScopeId :=
  fun c m => some (.ok c.scope, m)

/-- A change of the machine. -/
def modify (f : Machine → Machine) : Eval Unit :=
  fun _ m => some (.ok (), f m)

/-- An entry for the log. -/
def note (e : LogEntry) : Eval Unit :=
  modify fun m => m.note e

/-- An evaluation in another scope. -/
@[always_inline, inline]
def within {α : Type} (scope : ScopeId) (x : Eval α) : Eval α :=
  fun c m => x { c with scope } m

/-- Lets references go that are held by nobody else. -/
def release (refs : List Ref) : Eval Unit :=
  fun c m => some (.ok (), m.release c.held refs)

/-- Holds references during an evaluation and lets them go after it.
What the outcome keeps alive stays. -/
@[always_inline, inline]
def holding {α : Type} [Owner α] (refs : List Ref) (x : Eval α) : Eval α :=
  fun c m =>
    match x { c with held := refs ++ c.held } m with
    | none => none
    | some (r, m) => some (r, m.release (Owner.refs r ++ c.held) refs)

/-- Uses a result while holding it, and lets it go afterwards. -/
@[always_inline, inline]
def borrow {α β : Type} [Owner α] [Owner β] (x : Eval α) (use : α → Eval β) : Eval β :=
  x.bind fun a => holding (Owner.refs a) (use a)

/-- One evaluation after the other ends with the exit of the first, or
as the second does. -/
theorem bind_inv {α β : Type} {x : Eval α} {f : α → Eval β} {c : Context} {m m' : Machine}
    {r : Except Exit β} (h : (x >>= f) c m = some (r, m')) :
    (∃ e, x c m = some (.error e, m') ∧ r = .error e) ∨
      ∃ a m₁, x c m = some (.ok a, m₁) ∧ f a c m₁ = some (r, m') := by
  have hbind : Eval.bind x f c m = some (r, m') := h
  unfold Eval.bind at hbind
  rcases hx : x c m with _ | ⟨e | a, m₁⟩ <;> rw [hx] at hbind
  · cases hbind
  · cases hbind
    exact .inl ⟨e, rfl, rfl⟩
  · exact .inr ⟨a, m₁, rfl, hbind⟩

theorem bind_of_ok {α β : Type} {x : Eval α} {f : α → Eval β} {c : Context} {m m₁ : Machine} {a : α}
    (h : x c m = some (.ok a, m₁)) : (x >>= f) c m = f a c m₁ := by
  show Eval.bind x f c m = _
  unfold Eval.bind
  rw [h]

theorem bind_of_error {α β : Type} {x : Eval α} {f : α → Eval β} {c : Context}
    {m m₁ : Machine} {e : Exit} (h : x c m = some (.error e, m₁)) :
    (x >>= f) c m = some (.error e, m₁) := by
  show Eval.bind x f c m = _
  unfold Eval.bind
  rw [h]

theorem bind_of_none {α β : Type} {x : Eval α} {f : α → Eval β} {c : Context} {m : Machine}
    (h : x c m = none) : (x >>= f) c m = none := by
  show Eval.bind x f c m = _
  unfold Eval.bind
  rw [h]

/-- One evaluation after the other runs out of steps in the first or in
the second. -/
theorem bind_eq_none {α β : Type} {x : Eval α} {f : α → Eval β} {c : Context} {m : Machine}
    (h : (x >>= f) c m = none) :
    x c m = none ∨ ∃ a m₁, x c m = some (.ok a, m₁) ∧ f a c m₁ = none := by
  have hbind : Eval.bind x f c m = none := h
  unfold Eval.bind at hbind
  rcases hx : x c m with _ | ⟨e | a, m₁⟩ <;> rw [hx] at hbind
  · exact .inl rfl
  · cases hbind
  · exact .inr ⟨a, m₁, rfl, hbind⟩

theorem bind_congr_left {α β : Type} {x y : Eval α} (f : α → Eval β) {c : Context} {m : Machine}
    (h : x c m = y c m) : (x >>= f) c m = (y >>= f) c m := by
  show Eval.bind x f c m = Eval.bind y f c m
  unfold Eval.bind
  rw [h]

theorem outcome_inv {α : Type} {x : Eval α} {c : Context} {m m' : Machine}
    {r : Except Exit (Except Exit α)} (h : outcome x c m = some (r, m')) :
    ∃ o, x c m = some (o, m') ∧ r = .ok o := by
  unfold outcome at h
  rcases hx : x c m with _ | ⟨o, m₁⟩ <;> rw [hx] at h
  · cases h
  · cases h
    exact ⟨o, rfl, rfl⟩

theorem outcome_of_some {α : Type} {x : Eval α} {c : Context} {m m₁ : Machine}
    {o : Except Exit α} (h : x c m = some (o, m₁)) : outcome x c m = some (.ok o, m₁) := by
  unfold outcome
  rw [h]

theorem outcome_eq_none {α : Type} {x : Eval α} {c : Context} {m : Machine} :
    outcome x c m = none ↔ x c m = none := by
  unfold outcome
  rcases x c m with _ | ⟨o, m₁⟩ <;> simp

theorem holding_inv {α : Type} [Owner α] {refs : List Ref} {x : Eval α} {c : Context}
    {m m' : Machine} {r : Except Exit α} (h : holding refs x c m = some (r, m')) :
    ∃ m₁, x { c with held := refs ++ c.held } m = some (r, m₁) ∧
      m' = m₁.release (Owner.refs r ++ c.held) refs := by
  unfold holding at h
  rcases hx : x { c with held := refs ++ c.held } m with _ | ⟨o, m₁⟩ <;> rw [hx] at h
  · cases h
  · cases h
    exact ⟨m₁, rfl, rfl⟩

theorem holding_of_some {α : Type} [Owner α] {refs : List Ref} {x : Eval α} {c : Context}
    {m m₁ : Machine} {r : Except Exit α}
    (h : x { c with held := refs ++ c.held } m = some (r, m₁)) :
    holding refs x c m = some (r, m₁.release (Owner.refs r ++ c.held) refs) := by
  unfold holding
  rw [h]

theorem holding_eq_none {α : Type} [Owner α] {refs : List Ref} {x : Eval α} {c : Context}
    {m : Machine} :
    holding refs x c m = none ↔ x { c with held := refs ++ c.held } m = none := by
  unfold holding
  rcases x { c with held := refs ++ c.held } m with _ | ⟨r, m₁⟩ <;> simp

theorem holding_congr {α : Type} [Owner α] {refs : List Ref} {x y : Eval α} {c : Context}
    {m : Machine}
    (h : x { c with held := refs ++ c.held } m = y { c with held := refs ++ c.held } m) :
    holding refs x c m = holding refs y c m := by
  unfold holding
  rw [h]

theorem holding_nil {α : Type} [Owner α] (x : Eval α) (c : Context) (m : Machine) :
    holding [] x c m = x c m := by
  rcases hx : x c m with _ | ⟨r, m'⟩
  · exact holding_eq_none.mpr hx
  · exact holding_of_some hx

theorem borrow_of_ok {α β : Type} [Owner α] [Owner β] {x : Eval α} {f : α → Eval β} {c : Context}
    {m m₁ m₂ : Machine} {a : α} {r : Except Exit β} (hx : x c m = some (.ok a, m₁))
    (hf : f a { c with held := Owner.refs a ++ c.held } m₁ = some (r, m₂)) :
    borrow x f c m = some (r, m₂.release (Owner.refs r ++ c.held) (Owner.refs a)) :=
  (bind_of_ok hx).trans (holding_of_some hf)

/-- What refers to nothing needs not be held. -/
theorem borrow_of_plain {α β : Type} [Owner α] [Owner β] {x : Eval α} {f : α → Eval β}
    {c : Context} {m m₁ : Machine} {a : α} (hx : x c m = some (.ok a, m₁))
    (ha : Owner.refs a = []) : borrow x f c m = f a c m₁ := by
  refine (bind_of_ok hx).trans ?_
  rw [ha]
  exact holding_nil (f a) c m₁

/-- An evaluation without its result. -/
@[always_inline, inline]
def forget {α : Type} [Owner α] (x : Eval α) : Eval Unit :=
  borrow x fun _ => pure ()

/-! ### Scopes -/

/-- A new scope. -/
def newScope (kind : ScopeKind) : Eval ScopeId :=
  fun _ m =>
    let (id, store) := m.store.add (Scope.top kind)
    some (.ok id, { m with store })

/-- A new scope made in another one. -/
def newChild (above : ScopeId) (kind : ScopeKind) : Eval ScopeId :=
  fun _ m =>
    let (id, store) := m.store.child above kind
    some (.ok id, { m with store })

theorem newChild_bind {α : Type} (above : ScopeId) (kind : ScopeKind) (f : ScopeId → Eval α)
    (c : Context) (m : Machine) :
    (newChild above kind >>= f) c m =
      f m.store.next c { m with store := (m.store.child above kind).2 } := by
  rw [← m.store.child_fst above kind]
  rfl

/-- An evaluation in a new scope that lives as long as it runs. -/
@[always_inline, inline]
def inChild {α : Type} [Owner α] (above : ScopeId) (kind : ScopeKind) (x : Eval α) : Eval α := do
  let id ← newChild above kind
  holding [.scope id] (within id x)

/-- The value of a name as seen from the current scope. -/
def lookup? (name : String) : Eval (Option Value) :=
  fun c m => some (.ok (m.store.lookup? c.scope name), m)

/-- The value of a name in one scope. -/
def getLocal? (id : ScopeId) (name : String) : Eval (Option Value) :=
  fun _ m => some (.ok (m.store.getLocal? id name), m)

/-- The number of names bound in a scope. -/
def boundCount (id : ScopeId) : Eval Nat :=
  fun _ m => some (.ok ((m.store.scope? id).elim 0 fun scope => scope.bindings.length), m)

/-- The exports of the toolkit around the current scope. -/
def nearestExports? : Eval (Option ScopeId) :=
  fun c m => some (.ok (m.store.nearestExports? c.scope), m)

/-- Takes over a store after a write, and lets go what was
overwritten. -/
def settle (w : Except Fault Written) : Eval Unit :=
  match w with
  | .error f => fault f
  | .ok w => do
    modify fun m => { m with store := w.store }
    release w.freed

/-- A write that fails leaves the machine as it is. -/
theorem settle_apply (w : Except Fault Written) (c : Context) (m : Machine) :
    settle w c m =
      match w with
      | .error f => some (.error (.fault f), m)
      | .ok w => some (.ok (), { m with store := w.store }.release c.held w.freed) := by
  cases w <;> rfl

/-- Binds a name in a scope. -/
def declareIn (id : ScopeId) (name : String) (b : Binding) : Eval Unit := do
  let m ← machine
  settle (m.store.declare id name b)

/-- Binds a name in the current scope. -/
def declare (name : String) (b : Binding) : Eval Unit := do
  declareIn (← here) name b

/-- Gives a name a value as seen from the current scope. -/
def assign (name : String) (v : Value) : Eval Unit := do
  let c ← context
  let m ← machine
  settle (m.store.assign c.scope name v)

theorem declare_eq_settle (name : String) (b : Binding) (c : Context) (m : Machine) :
    declare name b c m = settle (m.store.declare c.scope name b) c m :=
  rfl

theorem assign_eq_settle (name : String) (v : Value) (c : Context) (m : Machine) :
    assign name v c m = settle (m.store.assign c.scope name v) c m :=
  rfl

section
variable {name : String} {c : Context} {m : Machine} {scope : Scope}
  (hscope : m.store.scope? c.scope = some scope)
include hscope

theorem declare_of_constant (hconstant : scope.isConstant name = true) (b : Binding) :
    declare name b c m = some (.error (.fault (.constant name)), m) := by
  rw [declare_eq_settle, Store.declare_of_constant hscope hconstant, settle_apply]

theorem declare_of_free (hfree : scope.isConstant name = false) (b : Binding) :
    ∃ freed, declare name b c m = some (.ok (),
      { m with store := m.store.setScope c.scope (scope.bind name b) }.release c.held freed) := by
  obtain ⟨freed, hw⟩ := Store.declare_of_free hscope hfree b
  refine ⟨freed, ?_⟩
  rw [declare_eq_settle, hw, settle_apply]

end

/-- Copies the bindings of one scope into another. All of them are
copied before a constant in the way is a fault. -/
def copyBindings (target source : ScopeId) : Eval Unit := do
  let m ← machine
  let (w, clash) := m.store.copyBindings target source
  settle (.ok w)
  match clash with
  | none => pure ()
  | some f => fault f

/-- All that can be copied is, whether or not a constant is in the
way. -/
theorem copyBindings_apply (target source : ScopeId) (c : Context) (m : Machine) :
    copyBindings target source c m =
      some
        (match (m.store.copyBindings target source).2 with
          | none => .ok ()
          | some f => .error (.fault f),
        { m with store := (m.store.copyBindings target source).1.store }.release c.held
          (m.store.copyBindings target source).1.freed) := by
  show (match (m.store.copyBindings target source).2 with
    | none => (pure () : Eval Unit)
    | some f => fault f) c _ = _
  cases (m.store.copyBindings target source).2 <;> rfl

/-! ### Streams -/

/-- Exits if the run is to stop. -/
def checkInterrupt : Eval Unit := do
  if (← machine).interrupted then exit .interrupted

theorem checkInterrupt_apply (c : Context) (m : Machine) :
    checkInterrupt c m = some (if m.interrupted then .error .interrupted else .ok (), m) := by
  show (if m.interrupted then exit .interrupted else (pure () : Eval Unit)) c m = _
  split <;> rfl

/-- Heeds the reaction of a sink. -/
def heed : Reaction → Eval Unit
  | .accept => pure ()
  | .acceptAndInterrupt => modify fun m => { m with interrupted := true }
  | .refuse reason => exit (.stream reason)

/-- Heeding fails only at a refusal, and touches no scope. -/
theorem heed_inv {reaction : Reaction} {c : Context} {m m' : Machine} {r : Except Exit Unit}
    (h : heed reaction c m = some (r, m')) :
    m'.store = m.store ∧ ∀ e, r = .error e → ∃ reason, e = .stream reason := by
  cases reaction with
  | accept =>
    cases h
    exact ⟨rfl, fun e he => by cases he⟩
  | acceptAndInterrupt =>
    cases h
    exact ⟨rfl, fun e he => by cases he⟩
  | refuse reason =>
    cases h
    refine ⟨rfl, fun e he => ⟨reason, ?_⟩⟩
    cases he
    rfl

/-- Writes a text to the output. -/
def write (text : String) : Eval Unit := do
  let m ← machine
  let (reaction, out) := m.out.offer text
  modify fun m => { m with out }
  heed reaction

/-- Writes a line of diagnostics. -/
def diagnose (line : String) : Eval Unit := do
  let m ← machine
  let (reaction, err) := m.err.offer (line ++ "\n")
  modify fun m => { m with err }
  heed reaction

/-- Reads a line of input. -/
def readLine : Eval (Option String) := do
  let m ← machine
  let (result, input) := m.input.readLine
  modify fun m => { m with input }
  match result with
  | .ok line => pure line
  | .error reason => exit (.stream reason)

theorem readLine_of_ok {c : Context} {m : Machine} {line : Option String}
    (h : m.input.readLine.1 = .ok line) :
    readLine c m = some (.ok line, { m with input := m.input.readLine.2 }) := by
  rcases hread : m.input.readLine with ⟨result, input⟩
  rw [hread] at h
  subst h
  simp only [readLine, bind, Eval.bind, machine, modify, hread]
  rfl

theorem readLine_of_error {c : Context} {m : Machine} {reason : String}
    (h : m.input.readLine.1 = .error reason) :
    readLine c m = some (.error (.stream reason), { m with input := m.input.readLine.2 }) := by
  rcases hread : m.input.readLine with ⟨result, input⟩
  rw [hread] at h
  subst h
  simp only [readLine, bind, Eval.bind, machine, modify, hread]
  rfl

/-- Reports an exit that the run goes on after. -/
def report (e : Exit) : Eval Unit := do
  note (.reported e)
  diagnose (e.category ++ ": " ++ e.message)

/-- A report fails only as the stream of diagnostics does, and touches
no scope. -/
theorem report_inv {e : Exit} {c : Context} {m m' : Machine} {r : Except Exit Unit}
    (h : report e c m = some (r, m')) :
    m'.store = m.store ∧ ∀ e', r = .error e' → ∃ reason, e' = .stream reason := by
  obtain ⟨_, hnote, -⟩ | ⟨_, m₁, hnote, hdiagnose⟩ := bind_inv h
  · cases hnote
  · cases hnote
    have hheed : heed (m.err.offer (e.category ++ ": " ++ e.message ++ "\n")).1 c
        { m.note (.reported e) with
          err := (m.err.offer (e.category ++ ": " ++ e.message ++ "\n")).2 } = some (r, m') :=
      hdiagnose
    obtain ⟨hstore, herror⟩ := heed_inv hheed
    exact ⟨hstore, herror⟩

end Eval

/-- What evaluates a node. The constructs take it as a parameter, so
each can be understood without the others. -/
abbrev Evaluator := Node → Eval Value

namespace Evaluator

open Eval

/-- Runs statements one after the other. -/
def runBlock (ev : Evaluator) : List Node → Eval Unit
  | [] => pure ()
  | first :: rest => do
    forget (ev first)
    runBlock ev rest

/-- The values of nodes, in order. Each is held while the next ones
are evaluated. -/
def evalAll (ev : Evaluator) : List Node → Eval (List Value)
  | [] => pure []
  | first :: rest =>
    borrow (ev first) fun v => do
      let vs ← evalAll ev rest
      pure (v :: vs)

/-- The texts that a function makes of the values of nodes. -/
def evalTexts (ev : Evaluator) (text : Value → String) : List Node → Eval (List String)
  | [] => pure []
  | first :: rest => do
    let s ← borrow (ev first) fun v => pure (text v)
    let ss ← evalTexts ev text rest
    pure (s :: ss)

end Evaluator

end Treewalk
