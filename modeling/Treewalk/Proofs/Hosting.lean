import Mathlib.Logic.Relation
import Treewalk.Proofs.Balance
import Treewalk.Proofs.Seniority
import Treewalk.Proofs.Shape

/-!
# `Treewalk.Proofs.Hosting`: the history of a session

A host makes scopes, declares, assigns and copies, lets go what it holds,
and runs programs. `HostStep` lists what it can do, with any scopes and in
any order. Each step continues the history of the session
(`HostStep.follows`), and so every session has one (`exists_history`).

A program is at work for many moments of that history. `since` is a store
regime that remembers the store from which it is looked at, so that what
holds after all histories can be looked for at every moment of a run
(`history_watched`).
-/

set_option autoImplicit false

namespace Treewalk.Proofs

/-! ### What a host can do -/

/-- What a host can do with a session. It may use scopes that it does not
hold and numbers of scopes that are gone, and bind any values. Specs have
no scopes, and so none need to be made here. -/
inductive HostStep : Session → Session → Prop where
  | new (s : Session) (handle : String) (kind : ScopeKind) : HostStep s (s.addScope handle kind)
  | child (s : Session) (handle : String) (above : ScopeId) (kind : ScopeKind) :
      HostStep s (s.addChild handle above kind)
  | spawn (s : Session) (b : Blueprint) : HostStep s (s.setStore (s.machine.store.spawn b).2)
  | obtain (s : Session) {request : Request} : request.kind ≠ .spec →
      HostStep s (s.obtain request).2
  | declare {s t : Session} {scope : ScopeId} (name : String) (b : Binding)
      {r : Except Exit Unit} : s.declare scope name b = some (r, t) → HostStep s t
  | assign {s t : Session} {scope : ScopeId} (name : String) (v : Value) {r : Except Exit Unit} :
      s.assign scope name v = some (r, t) → HostStep s t
  | copy {s t : Session} (target source : ScopeId) {r : Except Exit Unit} :
      s.copy target source = some (r, t) → HostStep s t
  | release (s : Session) (refs : List Ref) : HostStep s (s.release refs)
  | hold (s : Session) (handle : String) (id : ScopeId) : HostStep s (s.hold handle id)
  | drop (s : Session) (handle : String) : HostStep s (s.drop handle)
  | run {s t : Session} {scope : ScopeId} {program : Node} {r : Except Exit Unit} :
      s.run scope program = some (r, t) → HostStep s t
  | eval {s t : Session} {scope : ScopeId} {node : Node} {r : Except Exit Value} :
      s.eval scope node = some (r, t) → HostStep s t
  | outside {s t : Session} : t.machine.store = s.machine.store → HostStep s t

section
variable {s t : Session}

/-- What is performed in a session continues its history. -/
theorem follows_of_perform {α : Type} [Yields α] (ts : List Item) {x : Eval α} {scope : ScopeId}
    {r : Except Exit α} (hx : byChanges.toRegime.Keeps α ts x x)
    (h : s.perform scope x = some (r, t)) : byChanges.Step s.machine.store t.machine.store := by
  obtain ⟨m, hr, rfl⟩ := perform_inv h
  have hends := (hx (hostContext s scope) s.machine ⟨trivial, trivial, fun _ _ => trivial⟩).2
  exact (hends.ended hr).step

theorem follows_release (s : Session) (refs : List Ref) :
    byChanges.Step s.machine.store (s.release refs).machine.store :=
  (byChanges_moved _ (.letGo s.held refs)).step

theorem follows_hold (s : Session) (handle : String) (id : ScopeId) :
    byChanges.Step s.machine.store (s.hold handle id).machine.store :=
  follows_release { s with handles := _ } _

theorem follows_spawn (s : Store) (b : Blueprint) : byChanges.Step s (s.spawn b).2 := by
  let m : Machine := .start s (.limited none none) (.limited none none) ⟨[]⟩
  have hspawned : byChanges.toRegime.Moved .standard m { m with store := (s.spawn b).2 } :=
    (byChanges_laws.toRegime.moved_spawn trivial trivial).1
  exact hspawned.step

/-- An object is made with the scopes that belong to its kind. -/
theorem follows_build {request : Request} (hkind : request.kind ≠ .spec) (s : Store) :
    byChanges.Step s (Session.build request s).2 := by
  have hmade : ∀ (s : Store) kind, byChanges.Step s (s.add (Scope.top kind)).2 :=
    fun s kind => (byChanges_moved s (.make kind)).step
  unfold Session.build
  cases hrequest : request.kind with
  | spec => exact absurd hrequest hkind
  | blueprint => exact hmade s .blueprint
  | object => exact byChanges.trans (hmade s .blueprint) (follows_spawn _ _)
  | toolkit => exact byChanges.trans (hmade s .exports) (hmade _ _)
  | bridge => exact hmade s .bridge
  | _ => exact byChanges.refl s

/-- Whatever a host does continues the history of the session. -/
theorem HostStep.follows (h : HostStep s t) :
    byChanges.Step s.machine.store t.machine.store := by
  have hlaws := byChanges_laws.toRegime
  have hcong := byChanges_laws.congruence byChanges_nodeLaws
  have hev := hcong.evaluate Session.patience
  cases h with
  -- The handle of a new scope may take the place of one that is let go.
  | new handle kind =>
    exact byChanges.trans (byChanges_moved _ (.make kind)).step (follows_hold (s.setStore _) ..)
  | child handle above kind =>
    exact byChanges.trans (byChanges_moved _ (.makeIn above kind)).step
      (follows_hold (s.setStore _) ..)
  | spawn b => exact follows_spawn s.machine.store b
  | obtain hkind =>
    unfold Session.obtain
    split
    · exact byChanges.refl _
    · exact follows_build hkind s.machine.store
  -- What is bound comes from outside, and so it is in hand from the start.
  | declare name b h =>
    exact follows_of_perform [.value b.value]
      (hlaws.primitives.declare name (.mem (List.mem_singleton_self _))) h
  | assign name v h =>
    exact follows_of_perform [.value v]
      (hlaws.keeps_assign name (.mem (List.mem_singleton_self _))) h
  | copy target source h =>
    exact follows_of_perform [.scope target, .scope source]
      (hlaws.keeps_copyBindings (.scope (by simp)) (.scope (by simp))) h
  | release refs => exact follows_release s refs
  | hold handle id => exact follows_hold s handle id
  | drop handle =>
    unfold Session.drop
    split
    · exact byChanges.refl _
    · exact follows_release { s with handles := _ } _
  | run h => exact follows_of_perform [] (hcong.runProgram hev _) h
  | eval h => exact follows_of_perform [] (hev [] _) h
  | outside h =>
    rw [h]
    exact byChanges.refl _

/-- A session that a host has come to has a history. -/
theorem exists_history {settings : Settings} {out err : Sink} {input : Source} {first : ScopeId}
    (h : Relation.ReflTransGen HostStep (.start settings out err input first) s) :
    ∃ history, s.machine.store = storeAfter first history := by
  induction h with
  | refl => exact ⟨[.make .global], rfl⟩
  | tail _ hstep ih =>
    obtain ⟨history, hhistory⟩ := ih
    obtain ⟨more, hmore⟩ := hstep.follows
    exact ⟨history ++ more, by rw [storeAfter_append, ← hhistory, hmore]⟩

end

/-! ### Every moment of a run -/

/-- At every moment of a run the store is one that continues the history
from before the run: looking out for another one changes nothing. -/
theorem history_watched {first : ScopeId} {history : List Change} {m : Machine}
    (hm : m.store = storeAfter first history) (steps : Nat) (alarm : Eval Unit) (c : Context) :
    let look := sentry (fun _ m' => ∃ more, m'.store = storeAfter first (history ++ more)) alarm
    (∀ node, watched (fun _ => look) steps 0 node c m = evaluate steps node c m) ∧
    ∀ program, runProgram (watched (fun _ => look) steps 0) program c m =
      runProgram (evaluate steps) program c m := by
  intro look
  let g := (byChanges.since m.store).toRegime
  have hcong : Congruence g.Keeps g.Keeps :=
    (byChanges_laws.since m.store).congruence (byChanges_nodeLaws.since m.store)
  have hlook : ∀ c' m', g.Ready [] c' m' → look c' m' = some (.ok (), m') := by
    intro c' m' hready
    obtain ⟨more, hmore⟩ := hready.inv.step
    exact if_pos ⟨more, by rw [storeAfter_append, ← hm, hmore]⟩
  have hready : g.Ready [] c m := ⟨.self trivial, trivial, fun _ _ => trivial⟩
  have hwatched := Regime.keeps_watched hcong hlook steps 0
  exact ⟨fun node => (hwatched [] node c m hready).1,
    fun program => (hcong.runProgram hwatched program c m hready).1⟩

end Treewalk.Proofs
