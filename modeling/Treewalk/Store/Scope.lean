import Treewalk.Fault

/-!
# `Treewalk.Store.Scope`: a scope and its bindings

A scope is an ordered list of bindings, each name once. A name keeps
its place when it is bound anew, and a constant is never bound anew.

A scope knows three scopes above it, by number and without keeping
them alive: the scope it was made in, the nearest scope above that is
not the frame of a running construct, and the topmost one. The latter
two are where a chain resumes when the first is gone.
-/

set_option autoImplicit false

namespace Treewalk

/-- A value under a name, and whether it is final. -/
structure Binding where
  value : Value
  constant : Bool

namespace Binding

/-- The binding of a value that may change. -/
def ofValue (v : Value) : Binding := ⟨v, false⟩

end Binding

/-- What a scope was made for. The scope of an instance knows its
owner without keeping it alive. The scope of a toolkit keeps the scope
of the exports. -/
inductive ScopeKind where
  | global
  | block
  | function
  | method
  | blueprint
  | instance (owner : Instance)
  | toolkit (exports : ScopeId)
  | exports
  | bridge

namespace ScopeKind

/-- The name of a kind of scope. -/
def name : ScopeKind → String
  | global => "global"
  | block => "block"
  | function => "function"
  | method => "method"
  | blueprint => "blueprint"
  | .instance _ => "instance"
  | toolkit _ => "toolkit"
  | exports => "exports"
  | bridge => "bridge"

/-- Whether scopes of this kind are the frames of running
constructs. -/
def isFrame : ScopeKind → Bool
  | block | function | method => true
  | _ => false

/-- What a scope keeps alive by its kind. -/
def refs : ScopeKind → List Ref
  | toolkit id => [.scope id]
  | _ => []

end ScopeKind

/-- Bindings in the order in which their names were first bound. -/
abbrev Bindings := List (String × Binding)

/-- Binds a name: in its place if it is bound already, else at the
end. -/
def Bindings.put (name : String) (b : Binding) : Bindings → Bindings
  | [] => [(name, b)]
  | (n, old) :: rest => if n = name then (n, b) :: rest else (n, old) :: put name b rest

/-- A bound name reads as what it was bound to, and every other name as
before. -/
theorem Bindings.lookup_put (name n : String) (b : Binding) (bs : Bindings) :
    (put name b bs).lookup n = if n = name then some b else bs.lookup n := by
  induction bs with
  | nil => by_cases h : n = name <;> simp [put, List.lookup_cons, h, beq_false_of_ne]
  | cons entry rest ih =>
    obtain ⟨key, old⟩ := entry
    by_cases hk : key = name <;> by_cases h : n = key <;>
      simp_all [put, List.lookup_cons, beq_false_of_ne]

/-- Names keep their places, and a new one comes last. -/
theorem Bindings.map_fst_put (name : String) (b : Binding) (bs : Bindings) :
    (put name b bs).map Prod.fst =
      if name ∈ bs.map Prod.fst then bs.map Prod.fst else bs.map Prod.fst ++ [name] := by
  induction bs with
  | nil => simp [put]
  | cons entry rest ih =>
    obtain ⟨key, old⟩ := entry
    by_cases hk : key = name
    · simp [put, hk]
    · by_cases hm : name ∈ rest.map Prod.fst <;> simp_all [put, Ne.symm hk]

/-- Nothing is bound beside what is put and what was there. -/
theorem Bindings.mem_put {name : String} {b : Binding} {bs : Bindings} {entry : String × Binding}
    (h : entry ∈ put name b bs) : entry = (name, b) ∨ entry ∈ bs := by
  induction bs with
  | nil => exact .inl (List.mem_singleton.mp h)
  | cons first rest ih =>
    obtain ⟨key, old⟩ := first
    unfold put at h
    split at h
    · rename_i hkey
      rcases List.mem_cons.mp h with heq | hrest
      · exact .inl (hkey ▸ heq)
      · exact .inr (List.mem_cons_of_mem _ hrest)
    · rcases List.mem_cons.mp h with heq | hrest
      · exact .inr (heq ▸ List.mem_cons_self ..)
      · exact (ih hrest).imp_right (List.mem_cons_of_mem _)

/-- Names that are each bound once stay so. -/
theorem Bindings.nodup_put (name : String) (b : Binding) {bs : Bindings}
    (h : (bs.map Prod.fst).Nodup) : ((put name b bs).map Prod.fst).Nodup := by
  rw [map_fst_put]
  split
  · exact h
  · rename_i hfree
    refine List.nodup_append.mpr ⟨h, by simp, ?_⟩
    intro n hn n' hn' heq
    rw [List.mem_singleton.mp hn'] at heq
    exact hfree (heq ▸ hn)

/-- A scope. Each of its names is bound once. -/
structure Scope where
  kind : ScopeKind
  bindings : Bindings
  parent : Option ScopeId
  outer : Option ScopeId
  root : Option ScopeId
  nodup : (bindings.map Prod.fst).Nodup

namespace Scope

/-- A scope without bindings, under the scopes that it is given. -/
def fresh (kind : ScopeKind) (parent outer root : Option ScopeId) : Scope :=
  ⟨kind, [], parent, outer, root, List.nodup_nil⟩

/-- A scope without scopes above it. -/
def top (kind : ScopeKind) : Scope := fresh kind none none none

/-- The names bound in a scope, in order. -/
def names (s : Scope) : List String :=
  s.bindings.map Prod.fst

/-- The binding of a name. -/
def binding? (s : Scope) (name : String) : Option Binding :=
  s.bindings.lookup name

theorem mem_of_binding? {s : Scope} {name : String} {b : Binding}
    (h : s.binding? name = some b) : (name, b) ∈ s.bindings := by
  obtain ⟨before, after, heq, -⟩ := List.lookup_eq_some_iff.mp h
  rw [heq]
  exact List.mem_append_right _ (List.mem_cons_self ..)

/-- A binding is found under its name, since each name is bound once. -/
theorem binding?_of_mem {s : Scope} {name : String} {b : Binding} (h : (name, b) ∈ s.bindings) :
    s.binding? name = some b := by
  obtain ⟨before, after, heq⟩ := List.append_of_mem h
  refine List.lookup_eq_some_iff.mpr ⟨before, after, heq, fun entry hentry => ?_⟩
  have hnodup := s.nodup
  rw [heq, List.map_append, List.nodup_append] at hnodup
  have hne := hnodup.2.2 entry.1 (List.mem_map_of_mem hentry) name (by simp)
  simp [Ne.symm hne]

/-- Whether a name is bound for good. -/
def isConstant (s : Scope) (name : String) : Bool :=
  (s.binding? name).any Binding.constant

/-- The scope with a name bound. -/
def bind (s : Scope) (name : String) (b : Binding) : Scope :=
  { s with
    bindings := Bindings.put name b s.bindings
    nodup := Bindings.nodup_put name b s.nodup }

theorem binding?_bind (s : Scope) (name n : String) (b : Binding) :
    (s.bind name b).binding? n = if n = name then some b else s.binding? n :=
  Bindings.lookup_put name n b s.bindings

theorem names_bind (s : Scope) (name : String) (b : Binding) :
    (s.bind name b).names = if name ∈ s.names then s.names else s.names ++ [name] :=
  Bindings.map_fst_put name b s.bindings

/-- What a scope keeps alive. -/
def refs (s : Scope) : List Ref :=
  s.kind.refs ++ s.bindings.flatMap fun (_, b) => b.value.refs

/-- Whether a scope keeps something alive. -/
def keeps (s : Scope) (r : Ref) : Bool :=
  s.kind.refs.contains r || s.bindings.any fun (_, b) => b.value.refs.contains r

theorem keeps_eq_contains_refs (s : Scope) (r : Ref) : s.keeps r = s.refs.contains r := by
  rw [Bool.eq_iff_iff]
  simp [keeps, refs]

/-- The scopes above a scope, in the order in which they are asked. -/
def links (s : Scope) : List ScopeId :=
  s.parent.toList ++ s.outer.toList ++ s.root.toList

end Scope

end Treewalk
