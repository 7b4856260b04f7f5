import Treewalk.Proofs.Ownership
import Treewalk.Proofs.Resumption

/-!
# `Treewalk.Proofs.Chains`: a chain as a list of scopes

Look-ups and assignments walk from a scope to the one that encloses it,
and so on to the top. `Store.Chain` is the list of the scopes on that
way, whatever is looked for. In a store whose links go down there is
exactly one such list for a live scope (`Descends.exists_chain`), and a
walk finds the first answer on it (`Descends.findUp?_eq`).

That links go down holds after any history: a scope is made below scopes
that are there already, and it keeps its links (`descends_ofHistory`).

A chain stays the chain as long as its own scopes are kept, whatever else
is gone (`chain_of_kept`).
-/

set_option autoImplicit false

namespace Treewalk

/-- The scopes from a scope to the top of its chain, innermost first. -/
inductive Store.Chain (s : Store) : ScopeId → List ScopeId → Prop where
  | top {id : ScopeId} {scope : Scope} : s.scope? id = some scope → s.enclosing? scope = none →
      Chain s id [id]
  | above {id above : ScopeId} {scope : Scope} {rest : List ScopeId} :
      s.scope? id = some scope → s.enclosing? scope = some above → Chain s above rest →
        Chain s id (id :: rest)

namespace Proofs

/-! ### Links go down -/

/-- A store in which the links of all live scopes go to smaller
numbers. -/
def Descends : Store → Prop :=
  Everywhere fun _ id scope => ∀ link ∈ scope.links, link < id

/-- Whatever other scopes become, a scope keeps its links. -/
theorem descends_stable : Stable fun _ id scope => ∀ link ∈ scope.links, link < id :=
  fun _ _ _ _ _ h => h

section
variable {s t : Store} (h : Descends s)
include h

/-- The scope that encloses another one is alive and has a smaller
number. -/
theorem Descends.enclosing {id above : ScopeId} {scope : Scope} (hscope : s.scope? id = some scope)
    (habove : s.enclosing? scope = some above) :
    above < id ∧ ∃ x, s.scope? above = some x := by
  have hlink : above ∈ scope.links := List.mem_of_find?_eq_some habove
  have halive : s.hasScope above = true := List.find?_some habove
  rw [Store.hasScope_eq_isSome] at halive
  exact ⟨h id scope hscope above hlink, Option.isSome_iff_exists.mp halive⟩

theorem Descends.add (kind : ScopeKind) : Descends (s.add (Scope.top kind)).2 :=
  Everywhere.add descends_stable h fun link hlink => by cases hlink

/-- The links of a new scope go to the scope it is made in and to links
of that one, and all of these are older. -/
theorem Descends.child (above : ScopeId) (kind : ScopeKind) :
    Descends (s.child above kind).2 := by
  have hnew : ∀ scope, (s.child above kind).2.scope? s.next = some scope →
      ∀ link ∈ scope.links, link < s.next := by
    intro scope hscope link hlink
    cases habove : s.scope? above with
    | none =>
      -- Nothing is made in a scope that is gone, so there are no links.
      have htop : (s.child above kind).2 = (s.add (Scope.top kind)).2 := by
        unfold Store.child
        rw [habove]
      rw [htop, Store.scope?_add, if_pos rfl] at hscope
      cases hscope
      cases hlink
    | some x =>
      have hlt : above < s.next := Store.lt_next habove
      rcases Store.mem_links_child hscope link hlink with rfl | ⟨y, hy, hmem⟩
      · exact hlt
      · exact Nat.lt_trans (h above y hy link hmem) hlt
  obtain ⟨parent, outer, root, hchild⟩ := s.child_eq_add above kind
  rw [hchild] at hnew ⊢
  refine Everywhere.add descends_stable h (hnew _ ?_)
  rw [Store.scope?_add, if_pos rfl]

theorem Descends.declare {id : ScopeId} {name : String} {b : Binding} {w : Written}
    (hw : s.declare id name b = .ok w) : Descends w.store :=
  Everywhere.declare descends_stable h hw fun _ _ hlinks => hlinks

/-- Whatever happens to scopes, links keep going down. -/
theorem Descends.apply (change : Change) : Descends (change.apply s) := by
  cases change with
  | make kind => exact h.add kind
  | makeIn above kind => exact h.child above kind
  | makeInstance i => exact Everywhere.addInstance descends_stable h i
  | bind id name b =>
    cases hw : s.declare id name b with
    | ok w => simpa only [Change.apply, hw] using h.declare hw
    | error f => simpa only [Change.apply, hw] using h
  | letGo held refs =>
    exact Everywhere.of_shrinks descends_stable h (s.shrinks_release held refs)

end

/-- After any history links go down. -/
theorem descends_ofHistory (first : ScopeId) (history : List Change) :
    Descends (Chronicle.ofHistory first history).store := by
  rw [Chronicle.ofHistory, Chronicle.store_foldl]
  have hstart : Descends (Chronicle.start first).store := .empty _ first
  exact List.foldlRecOn history Change.apply hstart fun s h change _ => h.apply change

/-! ### Walks along a chain -/

section
variable {s : Store} {α : Type}

/-- Every live scope has a chain. -/
theorem Descends.exists_chain (h : Descends s) {id : ScopeId} {scope : Scope}
    (hscope : s.scope? id = some scope) : ∃ chain, s.Chain id chain := by
  induction id using Nat.strongRecOn generalizing scope with
  | ind id ih =>
    cases habove : s.enclosing? scope with
    | none => exact ⟨[id], .top hscope habove⟩
    | some above =>
      obtain ⟨hlt, x, hx⟩ := h.enclosing hscope habove
      obtain ⟨rest, hrest⟩ := ih above hlt hx
      exact ⟨id :: rest, .above hscope habove hrest⟩

/-- A chain has no more scopes than the number of its first one
allows. -/
theorem Descends.length_chain (h : Descends s) {id : ScopeId} {chain : List ScopeId}
    (hchain : s.Chain id chain) : chain.length ≤ id + 1 := by
  induction hchain with
  | top => simp
  | above hscope habove _ ih =>
    have hlt := (h.enclosing hscope habove).1
    exact Nat.succ_le_succ (Nat.le_trans ih hlt)

/-- A walk that is long enough ends with the first answer on the
chain. -/
theorem search_eq_findSome? {id : ScopeId} {chain : List ScopeId} (hchain : s.Chain id chain)
    (answer : ScopeId → Scope → Option α) {bound : Nat} (hbound : chain.length ≤ bound) :
    s.search answer bound id = chain.findSome? fun i => (s.scope? i).bind (answer i) := by
  induction hchain generalizing bound with
  | @top id scope hscope habove =>
    obtain ⟨n, rfl⟩ := Nat.exists_eq_add_one_of_ne_zero (Nat.ne_zero_of_lt hbound)
    cases hanswer : answer id scope <;> simp [Store.search, hscope, habove, hanswer]
  | @above id _ scope rest hscope habove _ ih =>
    obtain ⟨n, rfl⟩ := Nat.exists_eq_add_one_of_ne_zero (Nat.ne_zero_of_lt hbound)
    have hrest := ih (Nat.le_of_succ_le_succ hbound)
    cases hanswer : answer id scope <;> simp [Store.search, hscope, habove, hanswer, hrest]

theorem Descends.findUp?_eq (h : Descends s) {id : ScopeId} {chain : List ScopeId}
    (hchain : s.Chain id chain) (answer : ScopeId → Scope → Option α) :
    s.findUp? answer id = chain.findSome? fun i => (s.scope? i).bind (answer i) :=
  search_eq_findSome? hchain answer (h.length_chain hchain)

/-- Two walks end alike in stores with the same live scopes and links,
if all scopes answer alike. -/
theorem search_congr {t : Store} (halive : ∀ id, t.hasScope id = s.hasScope id)
    (hlinks : ∀ id x y, s.scope? id = some x → t.scope? id = some y → y.links = x.links)
    {answer answer' : ScopeId → Scope → Option α}
    (hanswer : ∀ id, (t.scope? id).bind (answer' id) = (s.scope? id).bind (answer id))
    (bound : Nat) (id : ScopeId) : t.search answer' bound id = s.search answer bound id := by
  have hsame : t.hasScope = s.hasScope := funext halive
  induction bound generalizing id with
  | zero => rfl
  | succ bound ih =>
    have hid := halive id
    have hanswers := hanswer id
    rw [Store.hasScope_eq_isSome, Store.hasScope_eq_isSome] at hid
    cases hs : s.scope? id with
    | none =>
      rw [hs] at hid
      have ht : t.scope? id = none := Option.not_isSome_iff_eq_none.mp (by simp [hid])
      simp only [Store.search, hs, ht]
    | some x =>
      rw [hs] at hid
      obtain ⟨y, ht⟩ := Option.isSome_iff_exists.mp hid
      rw [hs, ht] at hanswers
      have hsays : answer' id y = answer id x := hanswers
      have henclosing : t.enclosing? y = s.enclosing? x := by
        rw [Store.enclosing?, Store.enclosing?, hlinks id x y hs ht, hsame]
      simp only [Store.search, hs, ht, hsays, henclosing, ih]

end

/-! ### A chain that stays -/

section
variable {s t : Store} {start : ScopeId} {chain : List ScopeId}

theorem mem_chain_start (h : s.Chain start chain) : start ∈ chain := by
  cases h <;> exact List.mem_cons_self ..

theorem exists_scope_of_mem_chain (h : s.Chain start chain) {id : ScopeId} (hid : id ∈ chain) :
    ∃ scope, s.scope? id = some scope := by
  induction h with
  | top hscope =>
    rw [List.mem_singleton.mp hid]
    exact ⟨_, hscope⟩
  | above hscope _ _ ih =>
    rcases List.mem_cons.mp hid with rfl | hid
    · exact ⟨_, hscope⟩
    · exact ih hid

/-- As long as the scopes of a chain stay and no others come alive, it
stays the chain. -/
theorem chain_of_kept (h : s.Chain start chain)
    (hlinks : ∀ id x y, s.scope? id = some x → t.scope? id = some y → y.links = x.links)
    (halive : ∀ id, t.hasScope id = true → s.hasScope id = true)
    (hkept : ∀ id ∈ chain, t.hasScope id = true) : t.Chain start chain := by
  have hscope : ∀ id x, s.scope? id = some x → t.hasScope id = true →
      ∃ y, t.scope? id = some y ∧ y.links = x.links := fun id x hx hid => by
    rw [Store.hasScope_eq_isSome] at hid
    obtain ⟨y, hy⟩ := Option.isSome_iff_exists.mp hid
    exact ⟨y, hy, hlinks id x y hx hy⟩
  induction h with
  | @top id x hx hnone =>
    obtain ⟨y, hy, hsame⟩ := hscope id x hx (hkept id (List.mem_cons_self ..))
    refine .top hy ?_
    rw [Store.enclosing?, List.find?_eq_none] at hnone ⊢
    intro link hlink hup
    exact hnone link (hsame ▸ hlink) (halive link hup)
  | @above id above x rest hx habove hrest ih =>
    obtain ⟨y, hy, hsame⟩ := hscope id x hx (hkept id (List.mem_cons_self ..))
    refine .above hy ?_ (ih fun i hi => hkept i (List.mem_cons_of_mem _ hi))
    -- The links before the one that is followed are still gone.
    rw [Store.enclosing?, List.find?_eq_some_iff_append] at habove ⊢
    obtain ⟨-, before, after, hsplit, hgone⟩ := habove
    refine ⟨hkept above (List.mem_cons_of_mem _ (mem_chain_start hrest)), before, after,
      hsame.trans hsplit, fun link hlink => ?_⟩
    have hdead := hgone link hlink
    cases hup : t.hasScope link with
    | false => rfl
    | true =>
      rw [halive link hup] at hdead
      cases hdead

end

end Proofs

end Treewalk
