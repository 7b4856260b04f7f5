import Treewalk.Store.Basic

/-!
# `Treewalk.Store.Release`: what is no longer kept alive

A scope or an instance is alive as long as something refers to it: a
construct that runs, a handle of the host, or a live scope or
instance. When a reference is let go and was the last one, what it
refers to leaves the store, and with it the references it held.

Things that refer to each other in a ring keep each other alive for
good.
-/

set_option autoImplicit false

namespace Treewalk.Store

/-- Whether a live scope or instance refers to something. -/
def refersTo (s : Store) (r : Ref) : Bool :=
  s.scopes.foldr (fun _ scope found => found || scope.keeps r) false ||
    s.instances.foldr (fun _ i found => found || i.refs.contains r) false

/-- What a live scope or instance refers to. -/
def refsOf? (s : Store) : Ref → Option (List Ref)
  | .scope id => (s.scope? id).map Scope.refs
  | .instance id => s.instances[id]?.map Instance.refs

/-- The store without a scope or an instance. -/
def erase (s : Store) : Ref → Store
  | .scope id =>
    { s with
      scopes := s.scopes.erase id
      scope_lt := fun i h => s.scope_lt i (Std.TreeMap.mem_erase.mp h).2 }
  | .instance id =>
    { s with
      instances := s.instances.erase id
      instance_lt := fun i h => s.instance_lt i (Std.TreeMap.mem_erase.mp h).2 }

/-- Takes something that nothing refers to out of the store. The
result also says what it referred to. -/
def reclaim? (s : Store) (held : List Ref) (r : Ref) : Option (List Ref × Store) :=
  match s.refsOf? r with
  | none => none
  | some inner => if held.contains r || s.refersTo r then none else some (inner, s.erase r)

/-- Lets references go, following them to a depth of `bound`. -/
def releaseWithin (held : List Ref) : (bound : Nat) → Store → List Ref → Store
  | 0, s, _ => s
  | bound + 1, s, refs =>
    refs.foldl
      (fun s r =>
        match s.reclaim? held r with
        | none => s
        | some (inner, s) => releaseWithin held bound s inner)
      s

/-- Lets references go while others are held. Each step down takes
something out of the store, so its size bounds the depth. -/
def release (s : Store) (held refs : List Ref) : Store :=
  match refs with
  | [] => s
  | refs => releaseWithin held (s.size + 1) s refs

/-! ### What is held -/

/-- What matters is what is held, not in which order. -/
theorem release_congr {held held' : List Ref} (h : ∀ r, r ∈ held ↔ r ∈ held') (s : Store)
    (refs : List Ref) : s.release held refs = s.release held' refs := by
  have hreclaim : ∀ (s : Store) r, s.reclaim? held r = s.reclaim? held' r := by
    intro s r
    have hcontains : held.contains r = held'.contains r := by
      rw [Bool.eq_iff_iff, List.contains_iff_mem, List.contains_iff_mem, h]
    unfold reclaim?
    rw [hcontains]
  have hwithin : ∀ (bound : Nat) (s : Store) refs,
      releaseWithin held bound s refs = releaseWithin held' bound s refs := by
    intro bound
    induction bound with
    | zero => exact fun _ _ => rfl
    | succ bound ih =>
      intro s refs
      simp only [releaseWithin, hreclaim, ih]
  unfold release
  split
  · rfl
  · exact hwithin _ s _

theorem release_singleton (s : Store) (held : List Ref) (r : Ref) :
    s.release held [r] =
      match s.reclaim? held r with
      | none => s
      | some (inner, s') => releaseWithin held s.size s' inner := rfl

/-- To let go what is held or what something refers to changes
nothing. -/
theorem release_of_kept {s : Store} {held refs : List Ref}
    (h : ∀ r ∈ refs, r ∈ held ∨ s.refersTo r = true) : s.release held refs = s := by
  have hnone : ∀ r ∈ refs, s.reclaim? held r = none := by
    intro r hr
    have hkept : (held.contains r || s.refersTo r) = true := by simpa using h r hr
    unfold reclaim?
    split
    · rfl
    · rw [if_pos hkept]
  have hwithin : ∀ bound, releaseWithin held bound s refs = s := by
    intro bound
    cases bound with
    | zero => rfl
    | succ bound =>
      rw [releaseWithin]
      clear h
      induction refs with
      | nil => rfl
      | cons first rest ih =>
        rw [List.foldl_cons, hnone first (List.mem_cons_self ..)]
        exact ih fun r hr => hnone r (List.mem_cons_of_mem _ hr)
  unfold release
  split
  · rfl
  · exact hwithin _

theorem release_of_held {held : List Ref} {r : Ref} (h : r ∈ held) (s : Store) :
    s.release held [r] = s :=
  release_of_kept fun _ hr => .inl (List.mem_singleton.mp hr ▸ h)

/-! ### Nothing but removal -/

/-- A store that has lost scopes and instances of another one, and
nothing else. -/
structure Shrinks (s t : Store) : Prop where
  next : t.next = s.next
  scope {id : ScopeId} {scope : Scope} : t.scope? id = some scope → s.scope? id = some scope

theorem Shrinks.refl (s : Store) : Shrinks s s :=
  ⟨rfl, id⟩

theorem Shrinks.trans {s t u : Store} (h : Shrinks s t) (h' : Shrinks t u) : Shrinks s u :=
  ⟨h'.next.trans h.next, fun hu => h.scope (h'.scope hu)⟩

theorem shrinks_erase (s : Store) (r : Ref) : Shrinks s (s.erase r) := by
  match r with
  | .instance _ => exact ⟨rfl, fun hscope => hscope⟩
  | .scope id =>
    refine ⟨rfl, fun {i} scope hscope => ?_⟩
    have herased : (s.scopes.erase id)[i]? = some scope := hscope
    rw [Std.TreeMap.getElem?_erase] at herased
    split at herased
    · cases herased
    · exact herased

/-- Only what is not held and what nothing refers to is taken out. -/
theorem reclaim?_eq_some {s t : Store} {held inner : List Ref} {r : Ref}
    (h : s.reclaim? held r = some (inner, t)) :
    r ∉ held ∧ s.refersTo r = false ∧ t = s.erase r := by
  unfold reclaim? at h
  split at h
  · cases h
  · split at h
    · cases h
    · rename_i hkept
      cases h
      simpa using hkept

/-- What is there stays only if it is held or something refers to it. -/
theorem reclaim?_eq_none {s : Store} {held : List Ref} {r : Ref}
    (h : s.reclaim? held r = none) :
    s.refsOf? r = none ∨ r ∈ held ∨ s.refersTo r = true := by
  unfold reclaim? at h
  split at h
  · exact .inl ‹_›
  · split at h
    · rename_i hkept
      exact .inr (by simpa using hkept)
    · cases h

/-- What no single removal destroys, letting go does not. -/
theorem releaseWithin_induction {P : Store → Prop} {held : List Ref}
    (hreclaim : ∀ {s t : Store} {inner : List Ref} {r : Ref}, P s →
      s.reclaim? held r = some (inner, t) → P t)
    (bound : Nat) {s : Store} (refs : List Ref) (h : P s) :
    P (releaseWithin held bound s refs) := by
  induction bound generalizing s refs with
  | zero => exact h
  | succ bound ih =>
    rw [releaseWithin]
    induction refs generalizing s with
    | nil => exact h
    | cons first rest ihrest =>
      rw [List.foldl_cons]
      apply ihrest
      split
      · exact h
      · rename_i hreclaimed
        exact ih _ (hreclaim h hreclaimed)

theorem release_induction {P : Store → Prop} {held : List Ref}
    (hreclaim : ∀ {s t : Store} {inner : List Ref} {r : Ref}, P s →
      s.reclaim? held r = some (inner, t) → P t)
    {s : Store} (refs : List Ref) (h : P s) : P (s.release held refs) := by
  unfold release
  split
  · exact h
  · exact releaseWithin_induction hreclaim _ _ h

theorem shrinks_release (s : Store) (held refs : List Ref) : Shrinks s (s.release held refs) := by
  refine release_induction (P := Shrinks s) (fun hshrinks hreclaimed => ?_) refs (.refl s)
  obtain ⟨-, -, rfl⟩ := reclaim?_eq_some hreclaimed
  exact hshrinks.trans (shrinks_erase _ _)

end Treewalk.Store
