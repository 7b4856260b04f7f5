import Treewalk.Store.Basic

/-!
# `Treewalk.Store.Chain`: names along the scopes

The scope that encloses a scope is the first of its links that is
alive. Following it from scope to scope gives a chain, which ends,
because a link always goes to a smaller number.

A name is read at the first scope of the chain that answers it. The
scope of a live instance answers `self` with the instance unless it
binds the name. A name is written at the first scope of the chain that
binds it, or in the scope where the chain starts.

Writing returns, beside the new store, what the old value kept alive.
It is for the caller to release that, who knows what else is held.
-/

set_option autoImplicit false

namespace Treewalk

/-- The name by which the fields of an instance answer with it. -/
def selfName : String := "self"

/-- A store after a write, and what the overwritten values kept
alive. -/
structure Written where
  store : Store
  freed : List Ref

namespace Store

/-- The scope that encloses a scope. -/
def enclosing? (s : Store) (scope : Scope) : Option ScopeId :=
  scope.links.find? s.hasScope

/-- The first answer of the scopes on a chain of at most `bound`
scopes. -/
def search {α : Type} (s : Store) (answer : ScopeId → Scope → Option α) :
    (bound : Nat) → ScopeId → Option α
  | 0, _ => none
  | bound + 1, id =>
    match s.scope? id with
    | none => none
    | some scope =>
      match answer id scope with
      | some a => some a
      | none =>
        match s.enclosing? scope with
        | none => none
        | some above => s.search answer bound above

/-- An answer on a chain is the answer of a live scope on it. What is
said of the first scope is said of that one, if it passes from each scope
to the enclosing one. -/
theorem exists_on_chain {α : Type} {s : Store} {P : ScopeId → Prop}
    (hP : ∀ {id scope above}, P id → s.scope? id = some scope → s.enclosing? scope = some above →
      P above)
    {answer : ScopeId → Scope → Option α} {bound : Nat} {id : ScopeId} {a : α} (hid : P id)
    (h : s.search answer bound id = some a) :
    ∃ i scope, P i ∧ s.scope? i = some scope ∧ answer i scope = some a := by
  induction bound generalizing id with
  | zero => cases h
  | succ bound ih =>
    rw [search] at h
    split at h
    · cases h
    · rename_i scope hscope
      split at h
      · rename_i b hanswer
        exact ⟨id, scope, hid, hscope, h ▸ hanswer⟩
      · split at h
        · cases h
        · exact ih (hP hid hscope ‹_›) h

theorem exists_of_search {α : Type} {s : Store} {answer : ScopeId → Scope → Option α}
    {bound : Nat} {id : ScopeId} {a : α} (h : s.search answer bound id = some a) :
    ∃ i scope, s.scope? i = some scope ∧ answer i scope = some a := by
  obtain ⟨i, scope, -, hfound⟩ := exists_on_chain (P := fun _ => True) (fun _ _ _ => trivial)
    trivial h
  exact ⟨i, scope, hfound⟩

/-- The first answer on the chain of a scope. No chain is longer than
the number of its first scope allows. -/
def findUp? {α : Type} (s : Store) (answer : ScopeId → Scope → Option α) (id : ScopeId) :
    Option α :=
  s.search answer (id + 1) id

/-- The value with which a scope answers a name by itself. -/
def answer? (s : Store) (name : String) (scope : Scope) : Option Value :=
  match scope.binding? name with
  | some b => some b.value
  | none =>
    match scope.kind with
    | .instance owner =>
      if name = selfName ∧ s.hasInstance owner.id then some (.object owner) else none
    | _ => none

/-- What a scope answers it binds, or it is the owner. -/
theorem answer?_eq_some {s : Store} {name : String} {scope : Scope} {v : Value}
    (h : s.answer? name scope = some v) :
    (∃ entry ∈ scope.bindings, v = entry.2.value) ∨
      ∃ i, scope.kind = .instance i ∧ v = .object i := by
  unfold answer? at h
  split at h
  · rename_i b hb
    cases h
    exact .inl ⟨(name, b), Scope.mem_of_binding? hb, rfl⟩
  · split at h
    · rename_i i hkind
      split at h
      · cases h
        exact .inr ⟨i, hkind, rfl⟩
      · cases h
    · cases h

/-- The value of a name in one scope. -/
def getLocal? (s : Store) (id : ScopeId) (name : String) : Option Value :=
  (s.scope? id).bind (s.answer? name)

/-- The value of a name on the chain of a scope. -/
def lookup? (s : Store) (id : ScopeId) (name : String) : Option Value :=
  s.findUp? (fun _ scope => s.answer? name scope) id

/-- The exports of the nearest toolkit on the chain of a scope. -/
def nearestExports? (s : Store) (id : ScopeId) : Option ScopeId :=
  s.findUp?
    (fun _ scope =>
      match scope.kind with
      | .toolkit exports => some exports
      | _ => none)
    id

/-- Binds a name in one scope, unless it is bound there for good. -/
def declare (s : Store) (id : ScopeId) (name : String) (b : Binding) : Except Fault Written :=
  match s.scope? id with
  | none => .ok ⟨s, []⟩
  | some scope =>
    match scope.binding? name with
    | none => .ok ⟨s.setScope id (scope.bind name b), []⟩
    | some old =>
      if old.constant then .error (.constant name)
      else .ok ⟨s.setScope id (scope.bind name b), old.value.refs⟩

/-- A live scope is bound the name that is declared in it. -/
theorem declare_eq_ok_of_scope {s : Store} {id : ScopeId} {name : String} {b : Binding}
    {w : Written} {scope : Scope} (hscope : s.scope? id = some scope)
    (h : s.declare id name b = .ok w) :
    scope.isConstant name = false ∧ w.store = s.setScope id (scope.bind name b) := by
  simp only [declare, hscope] at h
  split at h
  · rename_i hfree
    cases h
    simp [Scope.isConstant, hfree]
  · rename_i old hold
    split at h
    · cases h
    · rename_i hchange
      cases h
      simp [Scope.isConstant, hold, hchange]

/-- A name is bound where a live scope does not bind it for good, and
nowhere else. -/
theorem declare_eq_ok {s : Store} {id : ScopeId} {name : String} {b : Binding} {w : Written}
    (h : s.declare id name b = .ok w) :
    w.store = s ∨
      ∃ scope, s.scope? id = some scope ∧ scope.isConstant name = false ∧
        w.store = s.setScope id (scope.bind name b) := by
  cases hscope : s.scope? id with
  | none =>
    simp only [declare, hscope] at h
    cases h
    exact .inl rfl
  | some scope => exact .inr ⟨scope, rfl, declare_eq_ok_of_scope hscope h⟩

/-- A live scope is bound a name that it does not bind for good, in
place of what it was bound to. -/
theorem declare_eq_of_free {s : Store} {id : ScopeId} {name : String} {scope : Scope}
    (hscope : s.scope? id = some scope) (hfree : scope.isConstant name = false) (b : Binding) :
    s.declare id name b =
      .ok ⟨s.setScope id (scope.bind name b),
        (scope.binding? name).elim [] fun old => old.value.refs⟩ := by
  unfold Scope.isConstant at hfree
  cases hold : scope.binding? name with
  | none =>
    simp only [declare, hscope, hold]
    rfl
  | some old =>
    rw [hold] at hfree
    have hchange : old.constant = false := hfree
    simp only [declare, hscope, hold, hchange]
    rfl

theorem declare_of_free {s : Store} {id : ScopeId} {name : String} {scope : Scope}
    (hscope : s.scope? id = some scope) (hfree : scope.isConstant name = false) (b : Binding) :
    ∃ freed, s.declare id name b = .ok ⟨s.setScope id (scope.bind name b), freed⟩ :=
  ⟨_, declare_eq_of_free hscope hfree b⟩

/-- A name that is bound for good is not bound anew. -/
theorem declare_of_constant {s : Store} {id : ScopeId} {name : String} {scope : Scope}
    (hscope : s.scope? id = some scope) (hconstant : scope.isConstant name = true) (b : Binding) :
    s.declare id name b = .error (.constant name) := by
  unfold Scope.isConstant at hconstant
  cases hold : scope.binding? name with
  | none =>
    rw [hold] at hconstant
    cases hconstant
  | some old =>
    rw [hold] at hconstant
    have hfirm : old.constant = true := hconstant
    simp only [declare, hscope, hold, hfirm]
    rfl

/-- A write gives out no number. -/
theorem next_declare {s : Store} {id : ScopeId} {name : String} {b : Binding} {w : Written}
    (h : s.declare id name b = .ok w) : w.store.next = s.next := by
  rcases declare_eq_ok h with hsame | ⟨_, _, _, hset⟩
  · rw [hsame]
  · rw [hset]
    rfl

theorem declare_eq_error {s : Store} {id : ScopeId} {name : String} {b : Binding} {f : Fault}
    (h : s.declare id name b = .error f) : f = .constant name := by
  unfold declare at h
  split at h
  · cases h
  · split at h
    · cases h
    · split at h
      · cases h
        rfl
      · cases h

/-- The nearest scope that binds a name. -/
def holder? (s : Store) (id : ScopeId) (name : String) : Option ScopeId :=
  s.findUp? (fun id scope => (scope.binding? name).map fun _ => id) id

/-- Gives a name a value: at the nearest scope that binds it, or anew
in the scope itself. -/
def assign (s : Store) (id : ScopeId) (name : String) (v : Value) : Except Fault Written :=
  s.declare ((s.holder? id name).getD id) name (.ofValue v)

/-- A name that is bound is written where it is bound nearest. -/
theorem assign_of_holder {s : Store} {id holder : ScopeId} {name : String} {v : Value}
    {w : Written} (hholder : s.holder? id name = some holder)
    (hw : s.declare holder name (.ofValue v) = .ok w) : s.assign id name v = .ok w := by
  rw [assign, hholder]
  exact hw

/-- Declares bindings one by one. A constant in the way is left as it
is, and the first one is the fault. -/
def declareAll (id : ScopeId) :
    Bindings → Written → Option Fault → Written × Option Fault
  | [], w, fault => (w, fault)
  | (name, b) :: rest, w, fault =>
    match w.store.declare id name b with
    | .ok w' => declareAll id rest ⟨w'.store, w.freed ++ w'.freed⟩ fault
    | .error f => declareAll id rest w (fault <|> some f)

/-- Copies the bindings of one scope into another. -/
def copyBindings (s : Store) (target source : ScopeId) : Written × Option Fault :=
  declareAll target ((s.scope? source).elim [] Scope.bindings) ⟨s, []⟩ none

theorem next_declareAll (id : ScopeId) (bs : Bindings) (w : Written) (fault : Option Fault) :
    (declareAll id bs w fault).1.store.next = w.store.next := by
  induction bs generalizing w fault with
  | nil => rfl
  | cons first rest ih =>
    obtain ⟨name, b⟩ := first
    rw [declareAll]
    cases hw : w.store.declare id name b with
    | error f => exact ih w _
    | ok w' =>
      have hnext : w'.store.next = w.store.next := next_declare hw
      rw [ih, hnext]

theorem next_copyBindings (s : Store) (target source : ScopeId) :
    (s.copyBindings target source).1.store.next = s.next :=
  next_declareAll ..

/-- A new instance of a blueprint, with fields that bind nothing yet. -/
def addObject (s : Store) (b : Blueprint) : Instance × Store :=
  let (i, s) := s.addInstance fun id => ⟨id, b, id + 1⟩
  (i, (s.child b.scope (.instance i)).2)

/-- A new instance of a blueprint. Its fields start as a copy of what
the blueprint declares. -/
def spawn (s : Store) (b : Blueprint) : Instance × Store :=
  let (i, s) := s.addObject b
  (i, (s.copyBindings i.fields b.scope).1.store)

end Store

end Treewalk
