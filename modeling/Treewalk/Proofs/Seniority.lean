import Mathlib.Data.List.Induction
import Treewalk.Proofs.Chains

/-!
# `Treewalk.Proofs.Seniority`: which of two scopes was made first

A history says of every scope when it was made: at the first moment at
which the scope is alive. Of two scopes one was `MadeBefore` the other if
there was a moment by which it had been made and the other had not.

No change makes more than one scope, and numbers are given out in order.
So the scope with the smaller number is the one that was made first
(`madeBefore_iff`).

Where a scope is linked to, now or after others are gone, is among the
scopes in which it was made, at once or through others in between. All of
these were made before it (`links_madeBefore`).
-/

set_option autoImplicit false

namespace Treewalk.Proofs

/-! ### Moments of a history -/

/-- The store after a history. -/
def storeAfter (first : ScopeId) (history : List Change) : Store :=
  (Chronicle.ofHistory first history).store

theorem storeAfter_append (first : ScopeId) (history more : List Change) :
    storeAfter first (history ++ more) = more.foldl Change.apply (storeAfter first history) :=
  Chronicle.ofHistory_append first history more

/-- What is still alive after a change is what it was. -/
theorem Change.continues (s : Store) (change : Change) : Continues s (change.apply s) := by
  cases change with
  | make kind => exact (Grows.add s _).toContinues
  | makeIn above kind => exact (Grows.child s above kind).toContinues
  | makeInstance i => exact (Grows.addInstance s i).toContinues
  | bind id name b =>
    cases hw : s.declare id name b with
    | ok w => simpa only [Change.apply, hw] using (Grows.declare hw).toContinues
    | error f => simpa only [Change.apply, hw] using Continues.refl s
  | letGo held refs => exact Continues.release s held refs

/-- A change gives out one number at most. -/
theorem Change.next_le (s : Store) (change : Change) : (change.apply s).next ≤ s.next + 1 := by
  cases change with
  | make kind => exact Nat.le_refl _
  | makeIn above kind =>
    obtain ⟨parent, outer, root, hchild⟩ := s.child_eq_add above kind
    rw [Change.apply, hchild]
    exact Nat.le_refl _
  | makeInstance i => exact Nat.le_refl _
  | bind id name b =>
    cases hw : s.declare id name b with
    | ok w =>
      rw [Change.apply, hw, Store.next_declare hw]
      exact Nat.le_succ _
    | error f =>
      rw [Change.apply, hw]
      exact Nat.le_succ _
  | letGo held refs =>
    rw [Change.apply, (s.shrinks_release held refs).next]
    exact Nat.le_succ _

section
variable {first : ScopeId} {past history : List Change}

/-- A later moment continues an earlier one. -/
theorem storeAfter_continues (h : past <+: history) :
    Continues (storeAfter first past) (storeAfter first history) := by
  obtain ⟨more, rfl⟩ := h
  rw [storeAfter_append]
  exact List.foldlRecOn more Change.apply (.refl _)
    fun s h change _ => h.trans (Change.continues s change)

end

/-! ### Who was made first -/

/-- A scope that has been made: it was alive at some moment of the
history. -/
def Existed (first : ScopeId) (history : List Change) (id : ScopeId) : Prop :=
  ∃ past, past <+: history ∧ (storeAfter first past).Has (.scope id)

/-- Of two scopes that a history has made, one came first: at some moment
it had been made and the other had not. -/
structure MadeBefore (first : ScopeId) (history : List Change) (a b : ScopeId) : Prop where
  made : Existed first history b
  apart : ∃ past, past <+: history ∧ Existed first past a ∧ ¬ Existed first past b

section
variable {first : ScopeId} {past history : List Change} {id a b : ScopeId}

theorem Existed.now (h : (storeAfter first history).Has (.scope id)) : Existed first history id :=
  ⟨history, List.prefix_refl history, h⟩

/-- What has been made has been made for good, whether or not it is
gone. -/
theorem Existed.later (h : Existed first past id) (hpast : past <+: history) :
    Existed first history id := by
  obtain ⟨moment, hmoment, halive⟩ := h
  exact ⟨moment, hmoment.trans hpast, halive⟩

/-- What has been made has a number that has been given out. -/
theorem Existed.lt_next (h : Existed first history id) : id < (storeAfter first history).next := by
  obtain ⟨moment, hmoment, scope, hscope⟩ := h
  exact Nat.lt_of_lt_of_le (Store.lt_next hscope) (storeAfter_continues hmoment).scopes.next

/-- A scope whose number had been given out by some moment had been made
by then, if it has been made at all. -/
theorem Existed.by_moment (h : Existed first history id) (hpast : past <+: history)
    (hid : id < (storeAfter first past).next) : Existed first past id := by
  obtain ⟨moment, hmoment, scope, hscope⟩ := h
  rcases List.prefix_or_prefix_of_prefix hmoment hpast with hearlier | hlater
  · exact ⟨moment, hearlier, scope, hscope⟩
  · -- The scope was alive later on, and what is gone does not come back.
    obtain ⟨before, hbefore, -⟩ := (storeAfter_continues hlater).scopes.scope hscope hid
    exact .now ⟨before, hbefore⟩

theorem not_existed_nil : ¬ Existed first [] id := by
  rintro ⟨past, hpast, scope, hscope⟩
  rw [List.prefix_nil.mp hpast] at hscope
  cases (Store.scope?_empty first id).symm.trans hscope

theorem MadeBefore.later (h : MadeBefore first past a b) (hpast : past <+: history) :
    MadeBefore first history a b := by
  obtain ⟨moment, hmoment, hapart⟩ := h.apart
  exact ⟨h.made.later hpast, moment, hmoment.trans hpast, hapart⟩

/-- The smaller number was given out first. -/
theorem madeBefore_of_lt (ha : Existed first history a) (hb : Existed first history b)
    (hlt : a < b) : MadeBefore first history a b := by
  induction history using List.reverseRecOn with
  | nil => exact absurd ha not_existed_nil
  | append_singleton history change ih =>
    have hpast : history <+: history ++ [change] := List.prefix_append _ _
    by_cases hold : b < (storeAfter first history).next
    · -- Both had been made before this change.
      have ha' := ha.by_moment hpast (Nat.lt_trans hlt hold)
      exact (ih ha' (hb.by_moment hpast hold)).later hpast
    · -- This change has made `b`, and no other scope.
      have hnext : b < (storeAfter first history).next + 1 := by
        have hstep := Change.next_le (storeAfter first history) change
        have hgiven := hb.lt_next
        rw [storeAfter_append] at hgiven
        exact Nat.lt_of_lt_of_le hgiven hstep
      have ha' := ha.by_moment hpast (Nat.lt_of_lt_of_le hlt (Nat.le_of_lt_succ hnext))
      exact ⟨hb, history, hpast, ha', fun hearly => hold hearly.lt_next⟩

/-- Numbers tell which scope was made first. -/
theorem madeBefore_iff :
    MadeBefore first history a b ↔ Existed first history a ∧ Existed first history b ∧ a < b := by
  refine ⟨fun h => ?_, fun ⟨ha, hb, hlt⟩ => madeBefore_of_lt ha hb hlt⟩
  obtain ⟨past, hpast, hearly, hnotyet⟩ := h.apart
  refine ⟨hearly.later hpast, h.made, Nat.lt_of_lt_of_le hearly.lt_next ?_⟩
  exact Nat.le_of_not_lt fun hgiven => hnotyet (h.made.by_moment hpast hgiven)

end

/-! ### Links go to elders -/

section
variable {first : ScopeId} {history : List Change}

/-- The links of a scope are among its ancestors. -/
theorem Linked.exists_ancestor {scope : Scope} {line : List Ancestor} (h : Linked scope line)
    {link : ScopeId} (hlink : link ∈ scope.links) : ∃ a ∈ line, a.id = link := by
  simp only [Scope.links, List.mem_append, Option.mem_toList, h.parent, h.outer, h.root] at hlink
  rcases hlink with (hparent | houter) | hroot
  · obtain ⟨a, ha, rfl⟩ := Option.map_eq_some_iff.mp hparent
    exact ⟨a, List.mem_of_head? ha, rfl⟩
  · obtain ⟨a, ha, rfl⟩ := Option.map_eq_some_iff.mp houter
    exact ⟨a, List.mem_of_find?_eq_some ha, rfl⟩
  · obtain ⟨a, ha, rfl⟩ := Option.map_eq_some_iff.mp hroot
    exact ⟨a, List.mem_of_getLast? ha, rfl⟩

/-- The ancestors of what a change makes are a live scope and the
ancestors of that one. All others stay as they are. -/
theorem ancestors_after {ch : Chronicle} {change : Change} {id : ScopeId} {a : Ancestor}
    (ha : a ∈ (ch.after change).ancestors id) :
    ch.store.Has (.scope a.id) ∨ ∃ i, a ∈ ch.ancestors i := by
  cases change with
  | make kind =>
    have hline : a ∈ Function.update ch.ancestors ch.store.next [] id := ha
    rw [Function.update_apply] at hline
    split at hline
    · cases hline
    · exact .inr ⟨id, hline⟩
  | makeIn above kind =>
    have hline : a ∈ Function.update ch.ancestors ch.store.next (ch.lineBelow above) id := ha
    rw [Function.update_apply, Chronicle.lineBelow] at hline
    split at hline
    · split at hline
      · cases hline
      · rename_i scope hscope
        rcases List.mem_cons.mp hline with rfl | habove
        · exact .inl ⟨scope, hscope⟩
        · exact .inr ⟨above, habove⟩
    · exact .inr ⟨id, hline⟩
  | makeInstance i => exact .inr ⟨id, ha⟩
  | bind i name b => exact .inr ⟨id, ha⟩
  | letGo held refs => exact .inr ⟨id, ha⟩

/-- Ancestors have been made. -/
theorem existed_of_ancestor {id : ScopeId} {a : Ancestor}
    (ha : a ∈ (Chronicle.ofHistory first history).ancestors id) : Existed first history a.id := by
  induction history using List.reverseRecOn generalizing id with
  | nil => cases ha
  | append_singleton history change ih =>
    have hpast : history <+: history ++ [change] := List.prefix_append _ _
    rw [Chronicle.ofHistory, List.foldl_append] at ha
    rcases ancestors_after ha with halive | ⟨i, hi⟩
    · exact (Existed.now halive).later hpast
    · exact (ih hi).later hpast

/-- All links of a scope go to scopes that were made before it, also
those that are gone. -/
theorem links_madeBefore {id link : ScopeId} {scope : Scope}
    (hscope : (storeAfter first history).scope? id = some scope) (hlink : link ∈ scope.links) :
    MadeBefore first history link id := by
  have hlt : link < id := descends_ofHistory first history id scope hscope link hlink
  obtain ⟨a, ha, rfl⟩ := (faithful_ofHistory first history id scope hscope).exists_ancestor hlink
  exact madeBefore_of_lt (existed_of_ancestor ha) (.now ⟨scope, hscope⟩) hlt

end

end Treewalk.Proofs
