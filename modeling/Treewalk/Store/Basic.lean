import Std.Data.TreeMap
import Treewalk.Store.Scope

/-!
# `Treewalk.Store.Basic`: the scopes and instances that are alive

The store holds every scope and instance that something keeps alive.
Numbers are given out in order and never twice, so a number that the
store does not hold belongs to something that is gone.
-/

set_option autoImplicit false

namespace Treewalk

/-- The live scopes and instances, and the next free number, which is
above all that were given out. -/
structure Store where
  scopes : Std.TreeMap Nat Scope
  instances : Std.TreeMap Nat Instance
  next : Nat
  scope_lt : ∀ id, id ∈ scopes → id < next
  instance_lt : ∀ id, id ∈ instances → id < next

namespace Store

/-- The store that holds nothing and numbers from `next` on. -/
def empty (next : Nat) : Store where
  scopes := ∅
  instances := ∅
  next
  scope_lt := by simp
  instance_lt := by simp

/-- The live scope with a number. -/
def scope? (s : Store) (id : ScopeId) : Option Scope :=
  s.scopes[id]?

/-- Whether a scope is alive. -/
def hasScope (s : Store) (id : ScopeId) : Bool :=
  s.scopes.contains id

/-- Whether an instance is alive. -/
def hasInstance (s : Store) (id : InstanceId) : Bool :=
  s.instances.contains id

theorem hasScope_eq_isSome (s : Store) (id : ScopeId) : s.hasScope id = (s.scope? id).isSome := by
  simp [hasScope, scope?]

/-- At first no scope is alive. -/
theorem scope?_empty (next : Nat) (id : ScopeId) : (empty next).scope? id = none :=
  Std.TreeMap.getElem?_emptyc

/-- The scopes that are alive have been given a number. -/
theorem lt_next {s : Store} {id : ScopeId} {scope : Scope} (h : s.scope? id = some scope) :
    id < s.next := by
  apply s.scope_lt
  rw [Std.TreeMap.mem_iff_isSome_getElem?]
  exact Option.isSome_of_eq_some h

/-- The number of live scopes and instances. -/
def size (s : Store) : Nat :=
  s.scopes.size + s.instances.size

/-- The store after its next number has been given out. -/
def advance (s : Store) : Store :=
  { s with
    next := s.next + 1
    scope_lt := fun id h => Nat.lt_succ_of_lt (s.scope_lt id h)
    instance_lt := fun id h => Nat.lt_succ_of_lt (s.instance_lt id h) }

/-- A new scope. -/
def add (s : Store) (scope : Scope) : ScopeId × Store :=
  (s.next,
    { s.advance with
      scopes := s.scopes.insert s.next scope
      scope_lt := fun i h => by
        rcases Std.TreeMap.mem_insert.mp h with h | h
        · exact Nat.lt_succ_of_le (Nat.le_of_eq (Nat.compare_eq_eq.mp h).symm)
        · exact s.advance.scope_lt i h })

theorem scope?_add (s : Store) (scope : Scope) (i : ScopeId) :
    (s.add scope).2.scope? i = if i = s.next then some scope else s.scope? i := by
  simp [scope?, add, Std.TreeMap.getElem?_insert, @eq_comm _ s.next i]

/-- A scope made anew under its number, if it is alive. -/
def setScope (s : Store) (id : ScopeId) (scope : Scope) : Store :=
  { s with
    scopes := s.scopes.modify id fun _ => scope
    scope_lt := fun i h => s.scope_lt i (Std.TreeMap.mem_modify.mp h) }

theorem scope?_setScope (s : Store) (id i : ScopeId) (scope : Scope) :
    (s.setScope id scope).scope? i =
      if i = id then (s.scope? id).map fun _ => scope else s.scope? i := by
  simp [scope?, setScope, Std.TreeMap.getElem?_modify, @eq_comm _ id i]

/-- A new instance, given what it is to be under its number. -/
def addInstance (s : Store) (i : InstanceId → Instance) : Instance × Store :=
  (i s.next,
    { s.advance with
      instances := s.instances.insert s.next (i s.next)
      instance_lt := fun j h => by
        rcases Std.TreeMap.mem_insert.mp h with h | h
        · exact Nat.lt_succ_of_le (Nat.le_of_eq (Nat.compare_eq_eq.mp h).symm)
        · exact s.advance.instance_lt j h })

/-- A new scope made in a live one. The chain of a frame's child
resumes where the chain of the frame does. -/
def child (s : Store) (above : ScopeId) (kind : ScopeKind) : ScopeId × Store :=
  match s.scope? above with
  | none => s.add (Scope.top kind)
  | some scope =>
    s.add (Scope.fresh kind (some above) (if scope.kind.isFrame then scope.outer else some above)
      (scope.root <|> some above))

/-- A scope made in another one binds nothing yet. -/
theorem child_eq_add (s : Store) (above : ScopeId) (kind : ScopeKind) :
    ∃ parent outer root, s.child above kind = s.add (Scope.fresh kind parent outer root) := by
  unfold child
  split
  · exact ⟨none, none, none, rfl⟩
  · exact ⟨_, _, _, rfl⟩

/-- The links of a new scope are the scope it is made in and links of
that one. -/
theorem mem_links_child {s : Store} {above : ScopeId} {kind : ScopeKind} {scope : Scope}
    (hscope : (s.child above kind).2.scope? s.next = some scope) :
    ∀ id ∈ scope.links, id = above ∨ ∃ x, s.scope? above = some x ∧ id ∈ x.links := by
  unfold child at hscope
  split at hscope
  · rw [scope?_add, if_pos rfl] at hscope
    cases hscope
    intro id hid
    cases hid
  · rename_i x hx
    rw [scope?_add, if_pos rfl] at hscope
    cases hscope
    intro id hid
    simp only [Scope.links, Scope.fresh, List.mem_append, Option.mem_toList] at hid
    rcases hid with (hid | hid) | hid
    · exact .inl (Option.some.inj hid).symm
    · split at hid
      · exact .inr ⟨x, hx, by simp [Scope.links, Option.mem_def.mp hid]⟩
      · exact .inl (Option.some.inj hid).symm
    · cases hroot : x.root with
      | none =>
        rw [hroot] at hid
        exact .inl (Option.some.inj hid).symm
      | some topmost =>
        rw [hroot] at hid
        exact .inr ⟨x, hx, by simp [Scope.links, hroot, Option.some.inj hid]⟩

theorem child_fst (s : Store) (above : ScopeId) (kind : ScopeKind) :
    (s.child above kind).1 = s.next := by
  obtain ⟨parent, outer, root, h⟩ := s.child_eq_add above kind
  rw [h]
  rfl

end Store

end Treewalk
