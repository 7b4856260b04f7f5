import Treewalk.Proofs.Assignment

/-!
# `Treewalk.Proofs.SelfBinding`: assignments to `self`

A scope with the fields of a live instance answers `self` with the
instance unless it binds the name. So a look-up of `self` ends at the
first scope that binds it or at the first such owner, whichever comes
first (`lookup?_self`). An assignment knows bindings only and goes past
owners.

The chain on which both walk is the same before and after the assignment
as long as none of its scopes is taken away with the old value
(`chain_of_kept`). `self_assigned` says what is read then.
-/

set_option autoImplicit false

namespace Treewalk

/-- The live instance whose fields a scope holds. -/
def Store.owner? (s : Store) (id : ScopeId) : Option Instance :=
  (s.scope? id).bind fun scope =>
    match scope.kind with
    | .instance owner => if s.hasInstance owner.id then some owner else none
    | _ => none

namespace Proofs

/-! ### What answers `self` -/

section
variable {s : Store}

/-- A scope that does not bind `self` answers it with its owner. -/
theorem answer?_self {id : ScopeId} (hfree : s.binds selfName id = false) :
    (s.scope? id).bind (s.answer? selfName) = (s.owner? id).map .object := by
  cases hscope : s.scope? id with
  | none => simp [Store.owner?, hscope]
  | some scope =>
    have hunbound : scope.binding? selfName = none := by
      simpa [Store.binds, hscope] using hfree
    rw [Option.bind_some, Store.answer?, hunbound, Store.owner?, hscope, Option.bind_some]
    cases scope.kind with
    | «instance» owner => cases halive : s.hasInstance owner.id <;> simp [halive]
    | _ => rfl

/-- Before the first binding nothing but owners answers. -/
theorem findSome?_answer?_self {inner : List ScopeId}
    (hinner : ∀ id ∈ inner, s.binds selfName id = false) :
    inner.findSome? (fun id => (s.scope? id).bind (s.answer? selfName)) =
      (inner.findSome? s.owner?).map .object := by
  induction inner with
  | nil => rfl
  | cons id rest ih =>
    obtain ⟨hid, hrest⟩ := List.forall_mem_cons.mp hinner
    rw [List.findSome?_cons, List.findSome?_cons, answer?_self hid]
    cases s.owner? id with
    | some owner => rfl
    | none => exact ih hrest

/-- The first scope that binds `self` is read, unless the fields of a live
instance come before it. -/
theorem lookup?_self {start target : ScopeId} {inner outer : List ScopeId} {scope : Scope}
    {v : Value} (hchain : s.Chain start (inner ++ target :: outer))
    (hlength : (inner ++ target :: outer).length ≤ start + 1)
    (hinner : ∀ id ∈ inner, s.binds selfName id = false) (hscope : s.scope? target = some scope)
    (hbound : scope.binding? selfName = some (.ofValue v)) :
    s.lookup? start selfName = some ((inner.findSome? s.owner?).elim v .object) := by
  have hanswer : (s.scope? target).bind (s.answer? selfName) = some v := by
    rw [hscope, Option.bind_some, Store.answer?, hbound]
    rfl
  rw [Store.lookup?, Store.findUp?, search_eq_findSome? hchain _ hlength, List.findSome?_append,
    List.findSome?_cons, findSome?_answer?_self hinner, hanswer]
  cases inner.findSome? s.owner? <;> rfl

end

/-! ### What is left to read -/

section
variable {c : Context} {m m' : Machine} {name : String} {v : Value} {target : ScopeId}

/-- An assignment that succeeds binds the name in one scope, and then some
of what is there may be let go. -/
theorem exists_rebound_of_assign {scope : Scope}
    (htarget : (m.store.holder? c.scope name).getD c.scope = target)
    (hscope : m.store.scope? target = some scope)
    (hassign : Eval.assign name v c m = some (.ok (), m')) :
    ∃ u, Rebound m.store u target (scope.bindings.put name (.ofValue v)) ∧
      Remains c.held u m'.store := by
  cases hconstant : scope.isConstant name with
  | true => cases hassign.symm.trans (assign_constant htarget hscope hconstant v)
  | false =>
    cases hassign.symm.trans (assign_apply htarget hscope hconstant v)
    exact ⟨_, rebound_bind hscope name (.ofValue v), Remains.release ..⟩

/-- What is left of a store in which one scope has been bound anew has the
chains of which nothing is gone. -/
theorem chain_of_rebound {s u t : Store} {bs : Bindings} {held : List Ref} {start : ScopeId}
    {chain : List ScopeId} (hwritten : Rebound s u target bs) (hremains : Remains held u t)
    (hchain : s.Chain start chain) (hkept : ∀ id ∈ chain, t.hasScope id = true) :
    t.Chain start chain := by
  refine chain_of_kept hchain
    (fun id x y hx hy => hwritten.links id x y hx (hremains.scope hy)) (fun id hid => ?_) hkept
  rw [Store.hasScope_eq_isSome] at hid
  obtain ⟨y, hy⟩ := Option.isSome_iff_exists.mp hid
  rw [← hwritten.alive.scopes, Store.hasScope_eq_isSome, hremains.scope hy]
  rfl

/-- After an assignment to `self` that has gone to a scope of the chain
and taken none of the chain away, the first live owner before that scope
is read, and the value if there is none. -/
theorem lookup?_self_of_assigned {inner outer : List ScopeId} (hdown : Descends m.store)
    (hchain : m.store.Chain c.scope (inner ++ target :: outer))
    (htarget : (m.store.holder? c.scope selfName).getD c.scope = target)
    (hinner : ∀ id ∈ inner, id ≠ target ∧ m.store.binds selfName id = false)
    (hassign : Eval.assign selfName v c m = some (.ok (), m'))
    (hkept : ∀ id ∈ inner ++ target :: outer, m'.store.hasScope id = true) :
    (∃ scope, m'.store.scope? target = some scope ∧
        scope.binding? selfName = some (.ofValue v)) ∧
      m'.store.lookup? c.scope selfName =
        some ((inner.findSome? m'.store.owner?).elim v .object) := by
  have hmem : target ∈ inner ++ target :: outer :=
    List.mem_append_right _ (List.mem_cons_self ..)
  obtain ⟨scope, hscope⟩ := exists_scope_of_mem_chain hchain hmem
  obtain ⟨u, hwritten, hremains⟩ := exists_rebound_of_assign htarget hscope hassign
  -- What is there now is as it was after the write.
  have hthere : ∀ id ∈ inner ++ target :: outer, m'.store.scope? id = u.scope? id := by
    intro id hid
    have halive := hkept id hid
    rw [Store.hasScope_eq_isSome] at halive
    obtain ⟨x, hx⟩ := Option.isSome_iff_exists.mp halive
    rw [hx, hremains.scope hx]
  obtain ⟨_, after, -, hafter, -, hbindings⟩ := hwritten.target
  have hbound : after.binding? selfName = some (.ofValue v) := by
    rw [Scope.binding?, hbindings, Bindings.lookup_put, if_pos rfl]
  rw [← hthere target hmem] at hafter
  have hfree : ∀ id ∈ inner, m'.store.binds selfName id = false := by
    intro id hid
    obtain ⟨hne, hunbound⟩ := hinner id hid
    rw [Store.binds, hthere id (List.mem_append_left _ hid), hwritten.others hne]
    exact hunbound
  exact ⟨⟨after, hafter, hbound⟩, lookup?_self (chain_of_rebound hwritten hremains hchain hkept)
    (hdown.length_chain hchain) hfree hafter hbound⟩

end

/-- What an assignment to `self` leaves to read. Take a live scope in a
state that has come about in any way, its chain, and an assignment that
succeeds and takes no scope of the chain away.

* If no scope on the chain binds `self`, the value is read.
* If some do, the first one has been given the value. It is read just if
  none of the scopes before that one has the fields of a live instance.
  Else the first such instance is read, whatever the value is. -/
theorem self_assigned (first : ScopeId) (history : List Change) {c : Context} {m : Machine}
    {here : Scope} (hstore : m.store = (Chronicle.ofHistory first history).store)
    (hhere : m.store.scope? c.scope = some here) (v : Value) :
    (∃ chain, m.store.Chain c.scope chain) ∧ ∀ chain m', m.store.Chain c.scope chain →
      Eval.assign selfName v c m = some (.ok (), m') →
      (∀ id ∈ chain, m'.store.hasScope id = true) →
        (chain.find? (m.store.binds selfName) = none →
          m'.store.lookup? c.scope selfName = some v) ∧
        ∀ inner target outer, chain = inner ++ target :: outer →
          (∀ id ∈ inner, m.store.binds selfName id = false) →
          m.store.binds selfName target = true →
            (∃ scope, m'.store.scope? target = some scope ∧
              scope.binding? selfName = some (.ofValue v)) ∧
            m'.store.lookup? c.scope selfName =
              some ((inner.findSome? m'.store.owner?).elim v .object) := by
  have hdown : Descends m.store := hstore ▸ descends_ofHistory first history
  refine ⟨hdown.exists_chain hhere, fun chain m' hchain hassign hkept =>
    ⟨fun hnone => ?_, fun inner target outer hsplit hinner hbinds => ?_⟩⟩
  · have hholder : m.store.holder? c.scope selfName = none := by
      rw [hdown.holder?_eq hchain, hnone]
    obtain ⟨rest, rfl⟩ : ∃ rest, chain = [] ++ c.scope :: rest := by
      cases hchain <;> exact ⟨_, rfl⟩
    exact (lookup?_self_of_assigned hdown hchain (by rw [hholder]; rfl) (by simp) hassign
      hkept).2
  · subst hsplit
    have hholder : m.store.holder? c.scope selfName = some target := by
      rw [hdown.holder?_eq hchain, List.find?_eq_some_iff_append]
      exact ⟨hbinds, inner, outer, rfl, by simpa using hinner⟩
    refine lookup?_self_of_assigned hdown hchain (by rw [hholder]; rfl) (fun id hid => ?_)
      hassign hkept
    refine ⟨?_, hinner id hid⟩
    rintro rfl
    cases (hinner id hid).symm.trans hbinds

/-- A global `self`, a blueprint, an instance of it with its fields, and
the frame of a method that is called on it. -/
def methodBelowSelf : List Change :=
  [.make .global, .bind 0 selfName (.ofValue (.text "old")), .makeIn 0 .blueprint,
    .makeInstance fun id => ⟨id, ⟨"P", 1, none⟩, 3⟩,
    .makeIn 1 (.instance ⟨2, ⟨"P", 1, none⟩, 3⟩), .makeIn 3 .method]

/-- The method assigns to the global `self` and still reads the instance. -/
theorem self_assigned_unread :
    let s := (Chronicle.ofHistory 0 methodBelowSelf).store
    let c : Context := ⟨.standard, 4, [.scope 0, .instance 2, .scope 4]⟩
    let m := { Machine.single (Scope.top .global) with store := s }
    ∃ m', Eval.assign selfName (.text "new") c m = some (.ok (), m') ∧
      (∀ id ∈ [4, 3, 1, 0], m'.store.hasScope id = true) ∧
      m'.store.lookup? 0 selfName = some (.text "new") ∧
      m'.store.lookup? 4 selfName = some (.object ⟨2, ⟨"P", 1, none⟩, 3⟩) := by
  intro s c m
  refine ⟨_, rfl, ?_, rfl, rfl⟩
  decide

/-- A method that binds `self` in its own frame reads what it assigns. -/
theorem self_assigned_method :
    let s := (Chronicle.ofHistory 0
      (methodBelowSelf ++ [.bind 4 selfName (.ofValue (.text "own"))])).store
    let c : Context := ⟨.standard, 4, [.scope 0, .instance 2, .scope 4]⟩
    let m := { Machine.single (Scope.top .global) with store := s }
    s.Chain 4 [4, 3, 1, 0] ∧ ∃ m', Eval.assign selfName (.text "new") c m = some (.ok (), m') ∧
      m'.store.lookup? 4 selfName = some (.text "new") := by
  intro s c m
  have hchain : s.Chain 4 [4, 3, 1, 0] :=
    .above rfl rfl (.above rfl rfl (.above rfl rfl (.top rfl rfl)))
  have hself := (self_assigned 0 _ (c := c) (m := m) rfl rfl (.text "new")).2 [4, 3, 1, 0] _
    hchain rfl (by decide)
  exact ⟨hchain, _, rfl, (hself.2 [] 4 [3, 1, 0] rfl (by simp) rfl).2⟩

end Proofs

end Treewalk
