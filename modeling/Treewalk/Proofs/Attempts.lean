import Treewalk.Proofs.Enclosure
import Treewalk.Proofs.Provenance

/-!
# `Treewalk.Proofs.Attempts`: the course of an attempt

An attempt has up to three blocks. Its body runs in a new scope. The
trap runs in another one, if the body ended with an error that the
program raised, and sees of the error what the attempt asks for. The
conclusion runs in the scope of the attempt itself, whatever happened
before, and an exit of it takes the place of the one that was pending.

`Course` is this account of an attempt that has ended, with the machine
on which each block begins and ends. `Opens` says what the scope of a
block is when it begins: its number has never been given out, it is
enclosed by the scope of the attempt, and it binds what `trapNames` says
and no more. `Starves` is the account of an attempt that has not ended,
because one of its blocks has run out of steps.

`attempts_run_their_course` is the main result. It also says that no
fault is the outcome of a block, so none comes to a trap, and where the
errors come from that do.
-/

set_option autoImplicit false

namespace Treewalk

/-- The message of an error under `peek`, if the attempt asks for it. -/
def peekNames (parts : Attempt Node) (message : String) : Bindings :=
  if parts.peek then [(peekName, .ofValue (.text message))] else []

/-- What a trap sees of an error: the message under `peek` and the name
under the name for the error, each if the attempt asks for it. -/
def trapNames (parts : Attempt Node) (name message : String) : Bindings :=
  match parts.errorVar with
  | none => peekNames parts message
  | some var => Bindings.put var (.ofValue (.text name)) (peekNames parts message)

namespace Proofs

open Yields (items)

/-! ### The scope of a block -/

/-- A machine on which a block is about to run in a scope of its own: the
machine before with a new scope, which is enclosed by `above` and binds
`names`. -/
structure Opens (above : ScopeId) (names : Bindings) (m : Machine) (frame : ScopeId)
    (start : Machine) : Prop where
  unused : frame = m.store.next
  scope : ∃ scope, start.store.scope? frame = some scope ∧ scope.kind = .block ∧
    scope.bindings = names ∧ start.store.enclosing? scope = some above
  others : ∀ id, id ≠ frame → start.store.scope? id = m.store.scope? id
  instances : start.store.instances = m.store.instances
  next : start.store.next = m.store.next + 1
  rest : start = { m with store := start.store }

/-- Bindings of data that may change. -/
def Data (names : Bindings) : Prop :=
  ∀ entry ∈ names, entry.2.constant = false ∧ entry.2.value.refs = []

section
variable {m start : Machine} {above frame : ScopeId} {names : Bindings}

/-- A new scope in a live one. -/
theorem opens_child (h : m.store.Has (.scope above)) :
    Opens above [] m m.store.next { m with store := (m.store.child above .block).2 } := by
  obtain ⟨found, hfound⟩ := h
  obtain ⟨outer, root, hchild⟩ := Store.child_eq_of_alive .block hfound
  let fresh : Scope := .fresh .block (some above) outer root
  have hscopes : ∀ id, (m.store.add fresh).2.scope? id =
      if id = m.store.next then some fresh else m.store.scope? id := m.store.scope?_add fresh
  have habove : (m.store.add fresh).2.hasScope above = true := by
    rw [Store.hasScope_eq_isSome, hscopes, if_neg (Nat.ne_of_lt (Store.lt_next hfound)), hfound]
    rfl
  rw [hchild]
  refine ⟨rfl, ⟨fresh, by rw [hscopes, if_pos rfl], rfl, rfl, ?_⟩, fun id hid => ?_, rfl, rfl, rfl⟩
  · exact List.find?_cons_of_pos habove
  · show (m.store.add fresh).2.scope? id = _
    rw [hscopes, if_neg hid]

/-- One more name for the block. Nothing is overwritten that would have
to be let go. -/
theorem Opens.declare (h : Opens above names m frame start) (hdata : Data names) {c : Context}
    (hframe : c.scope = frame) (name : String) (v : Value) :
    ∃ start', Eval.declare name (.ofValue v) c start = some (.ok (), start') ∧
      Opens above (Bindings.put name (.ofValue v) names) m frame start' := by
  subst hframe
  obtain ⟨scope, hscope, hkind, rfl, henclosing⟩ := h.scope
  let bound := scope.bind name (.ofValue v)
  let store := start.store.setScope c.scope bound
  have hscopes : ∀ id, store.scope? id =
      if id = c.scope then some bound else start.store.scope? id := by
    intro id
    rw [Store.scope?_setScope, hscope]
    rfl
  have hwritten : start.store.declare c.scope name (.ofValue v) = .ok ⟨store, []⟩ := by
    cases hold : scope.binding? name with
    | none => simp only [Store.declare, hscope, hold]; rfl
    | some old =>
      have hchange : old.constant = false := (hdata _ (Scope.mem_of_binding? hold)).1
      have hrefs : old.value.refs = [] := (hdata _ (Scope.mem_of_binding? hold)).2
      simp only [Store.declare, hscope, hold, hchange, hrefs]
      rfl
  refine ⟨{ start with store }, ?_, h.unused, ⟨bound, ?_, hkind, rfl, ?_⟩, fun id hid => ?_,
    h.instances, h.next, ?_⟩
  · show Eval.settle (start.store.declare c.scope name (.ofValue v)) c start = _
    rw [hwritten]
    rfl
  · rw [hscopes, if_pos rfl]
  · have hlive : store.hasScope = start.store.hasScope := by
      funext id
      rw [Store.hasScope_eq_isSome, Store.hasScope_eq_isSome, hscopes]
      split
      · rename_i hid
        rw [hid, hscope]
        rfl
      · rfl
    show bound.links.find? store.hasScope = _
    rw [hlive]
    exact henclosing
  · show store.scope? id = _
    rw [hscopes, if_neg hid, h.others id hid]
  · show { start with store } = { m with store }
    rw [h.rest]

end

/-! ### What a trap sees -/

theorem mem_peekNames {parts : Attempt Node} {message : String} {entry : String × Binding}
    (h : entry ∈ peekNames parts message) :
    parts.peek = true ∧ entry = (peekName, .ofValue (.text message)) := by
  unfold peekNames at h
  split at h
  · exact ⟨‹_›, List.mem_singleton.mp h⟩
  · cases h

theorem data_peekNames (parts : Attempt Node) (message : String) :
    Data (peekNames parts message) := by
  intro entry hentry
  obtain ⟨-, rfl⟩ := mem_peekNames hentry
  exact ⟨rfl, rfl⟩

/-- The message is under `peek`, if it is asked for and the error is not
to go by that name. -/
theorem trapNames_peek {parts : Attempt Node} (hpeek : parts.peek = true)
    (hvar : parts.errorVar ≠ some peekName) (name message : String) :
    (trapNames parts name message).lookup peekName = some (.ofValue (.text message)) := by
  have hpeeked : (peekNames parts message).lookup peekName = some (.ofValue (.text message)) := by
    rw [peekNames, if_pos hpeek]
    exact List.lookup_cons_self
  unfold trapNames
  split
  · exact hpeeked
  · rename_i var herror
    have hne : peekName ≠ var := fun heq => hvar (heq ▸ herror)
    rw [Bindings.lookup_put, if_neg hne, hpeeked]

/-- The name is under the name for the error. -/
theorem trapNames_error {parts : Attempt Node} {var : String} (hvar : parts.errorVar = some var)
    (name message : String) :
    (trapNames parts name message).lookup var = some (.ofValue (.text name)) := by
  unfold trapNames
  rw [hvar]
  exact (Bindings.lookup_put ..).trans (if_pos rfl)

/-- Nothing else is bound. -/
theorem mem_trapNames {parts : Attempt Node} {name message : String} {entry : String × Binding}
    (h : entry ∈ trapNames parts name message) :
    parts.peek = true ∧ entry = (peekName, .ofValue (.text message)) ∨
      parts.errorVar = some entry.1 ∧ entry.2 = .ofValue (.text name) := by
  unfold trapNames at h
  split at h
  · exact .inl (mem_peekNames h)
  · rename_i var hvar
    rcases Bindings.mem_put h with rfl | hrest
    · exact .inr ⟨hvar, rfl⟩
    · exact .inl (mem_peekNames hrest)

theorem declareError_apply (parts : Attempt Node) (name message : String) :
    Evaluator.declareError parts name message =
      ((if parts.peek then Eval.declare peekName (.ofValue (.text message)) else pure ()) >>=
        fun _ =>
          match parts.errorVar with
          | none => pure ()
          | some var => Eval.declare var (.ofValue (.text name))) := by
  unfold Evaluator.declareError
  cases parts.peek <;> rfl

/-- The error is bound in the scope of the trap. -/
theorem Opens.declareError {m start : Machine} {above frame : ScopeId}
    (h : Opens above [] m frame start) {c : Context} (hframe : c.scope = frame)
    (parts : Attempt Node) (name message : String) :
    ∃ start', Evaluator.declareError parts name message c start = some (.ok (), start') ∧
      Opens above (trapNames parts name message) m frame start' := by
  have hpeek : ∃ start₁,
      (if parts.peek then Eval.declare peekName (.ofValue (.text message)) else pure ()) c start =
        some (.ok (), start₁) ∧ Opens above (peekNames parts message) m frame start₁ := by
    unfold peekNames
    split
    · exact h.declare (fun entry hentry => by cases hentry) hframe peekName _
    · exact ⟨start, rfl, h⟩
  obtain ⟨start₁, hpeek, hopens⟩ := hpeek
  unfold trapNames
  rw [declareError_apply]
  cases hvar : parts.errorVar with
  | none => exact ⟨start₁, Eval.bind_of_ok hpeek, hopens⟩
  | some var =>
    obtain ⟨start₂, herror, hopens⟩ :=
      hopens.declare (data_peekNames parts message) hframe var (.text name)
    exact ⟨start₂, (Eval.bind_of_ok hpeek).trans herror, hopens⟩

/-! ### The course of an attempt -/

section
variable (ev : Evaluator) (parts : Attempt Node)

/-- Where a block runs that has a scope of its own. -/
def blockContext (c : Context) (frame : ScopeId) : Context :=
  { c with scope := frame, held := .scope frame :: c.held }

/-- What becomes of the outcome of the body. An error that the program
raised goes to the trap, which has the last word. Any other outcome
stays. -/
inductive Settles (c : Context) : Except Exit Unit → Machine → Except Exit Unit → Machine → Prop
    where
  | completed (m : Machine) : Settles c (.ok ()) m (.ok ()) (m.note .attemptCompleted)
  | trapped {name message : String} {m : Machine} {frame : ScopeId} {start ended : Machine}
      {pending : Except Exit Unit} :
      Opens c.scope (trapNames parts name message) (m.note (.attemptCaught name)) frame start →
      Evaluator.runBlock ev parts.trap (blockContext c frame) start = some (pending, ended) →
      Settles c (.error (.raised name message)) m pending
        (ended.release (Owner.refs pending ++ c.held) [.scope frame])
  | passed {e : Exit} (m : Machine) : (∀ name message, e ≠ .raised name message) →
      Settles c (.error e) m (.error e) m

/-- The conclusion: nothing, or a block that runs in the scope of the
attempt. -/
inductive Concludes (c : Context) (m : Machine) : Except Exit Unit → Machine → Prop where
  | nothing : parts.conclude = none → Concludes c m (.ok ()) m
  | block {body : List Node} {concluded : Except Exit Unit} {m' : Machine} :
      parts.conclude = some body →
      Evaluator.runBlock ev body c (m.note .attemptConcludes) = some (concluded, m') →
      Concludes c m concluded m'

/-- The outcome of an attempt: the exit of its conclusion, or else what
was pending before. -/
def finalOutcome (concluded pending : Except Exit Unit) : Except Exit Unit :=
  match concluded with
  | .error e => .error e
  | .ok () => pending

/-- An attempt from its beginning to its end. The scope of the body and
what is pending are held while the rest runs, and let go in the end. -/
inductive Course (c : Context) (m : Machine) : Except Exit Value → Machine → Prop where
  | intro {frame : ScopeId} {start m₁ m₂ m₃ : Machine} {ended pending concluded : Except Exit Unit} :
      Opens c.scope [] (m.note (.attemptStarts parts.body.length)) frame start →
      Evaluator.runBlock ev parts.body (blockContext c frame) start = some (ended, m₁) →
      Settles ev parts { c with held := .scope frame :: c.held } ended m₁ pending m₂ →
      Concludes ev parts { c with held := Owner.refs pending ++ .scope frame :: c.held } m₂
        concluded m₃ →
      Course c m ((finalOutcome concluded pending).map fun _ => .nil)
        ((m₃.release (Owner.refs (finalOutcome concluded pending) ++ .scope frame :: c.held)
          (Owner.refs pending)).release (Owner.refs (finalOutcome concluded pending) ++ c.held)
            [.scope frame])

/-- An attempt of which a block has run out of steps. -/
inductive Starves (c : Context) (m : Machine) : Prop where
  | body {frame : ScopeId} {start : Machine} :
      Opens c.scope [] (m.note (.attemptStarts parts.body.length)) frame start →
      Evaluator.runBlock ev parts.body (blockContext c frame) start = none → Starves c m
  | trap {frame frame' : ScopeId} {start m₁ start' : Machine} {name message : String} :
      Opens c.scope [] (m.note (.attemptStarts parts.body.length)) frame start →
      Evaluator.runBlock ev parts.body (blockContext c frame) start =
        some (.error (.raised name message), m₁) →
      Opens c.scope (trapNames parts name message) (m₁.note (.attemptCaught name)) frame' start' →
      Evaluator.runBlock ev parts.trap
        (blockContext { c with held := .scope frame :: c.held } frame') start' = none → Starves c m
  | conclusion {frame : ScopeId} {start m₁ m₂ : Machine} {ended pending : Except Exit Unit}
      {body : List Node} :
      Opens c.scope [] (m.note (.attemptStarts parts.body.length)) frame start →
      Evaluator.runBlock ev parts.body (blockContext c frame) start = some (ended, m₁) →
      Settles ev parts { c with held := .scope frame :: c.held } ended m₁ pending m₂ →
      parts.conclude = some body →
      Evaluator.runBlock ev body { c with held := Owner.refs pending ++ .scope frame :: c.held }
        (m₂.note .attemptConcludes) = none → Starves c m

end

section
variable (ev : Evaluator) (parts : Attempt Node) {c : Context} {m : Machine}

/-- A trap runs in a new scope, where the error has been bound. -/
theorem runTrap_eq (halive : m.store.Has (.scope c.scope)) (name message : String) :
    ∃ frame start, Opens c.scope (trapNames parts name message) m frame start ∧
      Evaluator.runTrap ev parts name message c m =
        (Evaluator.runBlock ev parts.trap (blockContext c frame) start).map fun (r, ended) =>
          (r, ended.release (Owner.refs r ++ c.held) [.scope frame]) := by
  obtain ⟨start, hdeclare, hopens⟩ :=
    (opens_child halive).declareError (c := blockContext c m.store.next) rfl parts name message
  refine ⟨_, start, hopens, ?_⟩
  have hblock : Eval.within m.store.next
      (do
        Evaluator.declareError parts name message
        Evaluator.runBlock ev parts.trap)
      { c with held := [.scope m.store.next] ++ c.held }
      { m with store := (m.store.child c.scope .block).2 } =
        Evaluator.runBlock ev parts.trap (blockContext c m.store.next) start :=
    Eval.bind_of_ok hdeclare
  rw [Evaluator.runTrap_apply, Eval.inChild, Eval.newChild_bind]
  rcases hends : Evaluator.runBlock ev parts.trap (blockContext c m.store.next) start with
    _ | ⟨r, ended⟩
  · exact Eval.holding_eq_none.mpr (hblock.trans hends)
  · exact Eval.holding_of_some (hblock.trans hends)

/-- The body is settled, or there is a trap that has run out of steps. -/
theorem settleBody_cases (halive : m.store.Has (.scope c.scope)) (ended : Except Exit Unit) :
    (∃ pending m', Evaluator.settleBody ev parts ended c m = some (.ok pending, m') ∧
      Settles ev parts c ended m pending m') ∨
    (Evaluator.settleBody ev parts ended c m = none ∧
      ∃ name message frame start, ended = .error (.raised name message) ∧
        Opens c.scope (trapNames parts name message) (m.note (.attemptCaught name)) frame start ∧
        Evaluator.runBlock ev parts.trap (blockContext c frame) start = none) := by
  match ended with
  | .ok () => exact .inl ⟨_, _, rfl, .completed m⟩
  | .error (.raised name message) =>
    obtain ⟨frame, start, hopens, htrap⟩ := runTrap_eq ev parts
      (m := m.note (.attemptCaught name)) halive name message
    have hsettle : Evaluator.settleBody ev parts (.error (.raised name message)) c m =
        Eval.outcome (Evaluator.runTrap ev parts name message) c (m.note (.attemptCaught name)) :=
      rfl
    rcases hends : Evaluator.runBlock ev parts.trap (blockContext c frame) start with
      _ | ⟨pending, last⟩ <;> rw [hends] at htrap
    · exact .inr ⟨hsettle.trans (Eval.outcome_eq_none.mpr htrap),
        name, message, frame, start, rfl, hopens, hends⟩
    · exact .inl ⟨_, _, hsettle.trans (Eval.outcome_of_some htrap), .trapped hopens hends⟩
  | .error (.fault _) => exact .inl ⟨_, _, rfl, .passed m nofun⟩
  | .error (.flow _) => exact .inl ⟨_, _, rfl, .passed m nofun⟩
  | .error .interrupted => exact .inl ⟨_, _, rfl, .passed m nofun⟩
  | .error (.stream _) => exact .inl ⟨_, _, rfl, .passed m nofun⟩

/-- The conclusion ends, or it is a block that has run out of steps. -/
theorem conclude_cases :
    (∃ concluded m', Evaluator.conclude ev parts c m = some (concluded, m') ∧
      Concludes ev parts c m concluded m') ∨
    (Evaluator.conclude ev parts c m = none ∧
      ∃ body, parts.conclude = some body ∧
        Evaluator.runBlock ev body c (m.note .attemptConcludes) = none) := by
  unfold Evaluator.conclude
  cases hconclude : parts.conclude with
  | none => exact .inl ⟨_, _, rfl, .nothing hconclude⟩
  | some body =>
    rcases hends : Evaluator.runBlock ev body c (m.note .attemptConcludes) with _ | ⟨r, last⟩
    · exact .inr ⟨hends, body, rfl, hends⟩
    · exact .inl ⟨_, _, hends, .block hconclude hends⟩

/-- After the conclusion the attempt ends with its exit or with what is
pending. -/
theorem conclude_then (pending : Except Exit Unit) {concluded : Except Exit Unit} {m' : Machine}
    (h : Evaluator.conclude ev parts c m = some (concluded, m')) :
    (do
      Evaluator.conclude ev parts
      Eval.ofOutcome pending) c m = some (finalOutcome concluded pending, m') := by
  cases concluded with
  | error e => exact Eval.bind_of_error h
  | ok =>
    rw [Eval.bind_of_ok h]
    cases pending <;> rfl

end

section
variable {c : Context} {m : Machine} (h : Grounded c m) (steps : Nat) (parts : Attempt Node)
include h

/-- The scope of an attempt is alive after the body. -/
theorem Grounded.scope_after_body {m₁ : Machine} {ended : Except Exit Unit}
    (hbody : Evaluator.runBlock (evaluate steps) parts.body (blockContext c m.store.next)
      { m with store := (m.store.child c.scope .block).2 } = some (ended, m₁)) :
    m₁.store.Has (.scope c.scope) := by
  have hready := h.ready_scope.inFrame (.block (List.mem_singleton_self _))
  have hkeeps : (Charge.now c m).Keeps Unit (.scope m.store.next :: [.scope c.scope]) []
      (Eval.within m.store.next (Evaluator.runBlock (evaluate steps) parts.body))
      (Eval.within m.store.next (Evaluator.runBlock (evaluate steps) parts.body)) :=
    Charge.keeps_within (List.mem_cons_self ..)
      (Basics.runBlock (Charge.discipline _).toBasics (Charge.evaluate_keeps _ steps) parts.body)
  have hended := (hkeeps _ _ hready).2 ended m₁ hbody
  exact hended.upheld.alive _ (List.mem_cons_of_mem _ h.scope)

/-- An attempt goes its course to the end, unless one of its blocks runs
out of steps. -/
theorem attempt_course :
    (Evaluator.attempt (evaluate steps) parts c m = none ∧ Starves (evaluate steps) parts c m) ∨
    ∃ r m', Evaluator.attempt (evaluate steps) parts c m = some (r, m') ∧
      Course (evaluate steps) parts c m r m' := by
  let noted := m.note (.attemptStarts parts.body.length)
  have hnoted : Grounded c noted := ⟨h.sound, h.alive, h.scope⟩
  have hopens := opens_child (hnoted.alive _ hnoted.scope)
  let inside : Context := { c with held := [.scope m.store.next] ++ c.held }
  let start : Machine := { noted with store := (m.store.child c.scope .block).2 }
  -- What the attempt does in its frame decides whether it ends, and how.
  have hnone : attemptIn (evaluate steps) parts m.store.next inside start = none →
      Evaluator.attempt (evaluate steps) parts c m = none := by
    intro hin
    rw [attempt_apply]
    exact Eval.bind_of_none ((Eval.newChild_bind ..).trans (Eval.holding_eq_none.mpr hin))
  have hsome : ∀ r m', attemptIn (evaluate steps) parts m.store.next inside start = some (r, m') →
      Evaluator.attempt (evaluate steps) parts c m =
        some (r.map fun _ => .nil, m'.release (Owner.refs r ++ c.held) [.scope m.store.next]) := by
    intro r m' hin
    have hframed := (Eval.newChild_bind c.scope .block (fun frame => Eval.holding [.scope frame]
      (attemptIn (evaluate steps) parts frame)) c noted).trans (Eval.holding_of_some hin)
    rw [attempt_apply]
    cases r with
    | ok => exact Eval.bind_of_ok hframed
    | error e => exact Eval.bind_of_error hframed
  rcases hbody : Evaluator.runBlock (evaluate steps) parts.body (blockContext c m.store.next) start
    with _ | ⟨ended, m₁⟩
  · exact .inl ⟨hnone (Eval.bind_of_none (Eval.outcome_eq_none.mpr hbody)), .body hopens hbody⟩
  · have halive := hnoted.scope_after_body steps parts hbody
    have hended : Eval.outcome (Eval.within m.store.next
        (Evaluator.runBlock (evaluate steps) parts.body)) inside start = some (.ok ended, m₁) :=
      Eval.outcome_of_some hbody
    obtain ⟨pending, m₂, hsettle, hsettles⟩ |
        ⟨hstarved, name, message, frame', start', rfl, hopens', htrap⟩ :=
      settleBody_cases (evaluate steps) parts (c := inside) halive ended
    · obtain ⟨concluded, m₃, hconclude, hconcludes⟩ | ⟨hstarved, body, hconclude, hlast⟩ :=
        conclude_cases (evaluate steps) parts
          (c := { inside with held := Owner.refs pending ++ inside.held }) (m := m₂)
      · have hheld := Eval.holding_of_some (conclude_then _ _ pending hconclude)
        exact .inr ⟨_, _, hsome _ _ ((Eval.bind_of_ok hended).trans
          ((Eval.bind_of_ok hsettle).trans hheld)), .intro hopens hbody hsettles hconcludes⟩
      · have hheld := Eval.holding_eq_none.mpr (Eval.bind_of_none (f := fun _ =>
          Eval.ofOutcome pending) hstarved)
        exact .inl ⟨hnone ((Eval.bind_of_ok hended).trans ((Eval.bind_of_ok hsettle).trans hheld)),
          .conclusion hopens hbody hsettles hconclude hlast⟩
    · exact .inl ⟨hnone ((Eval.bind_of_ok hended).trans (Eval.bind_of_none hstarved)),
        .trap hopens hbody hopens' htrap⟩

end

/-! ### Attempts as nodes -/

/-- A block never ends with a fault: each fault stops at its node. -/
theorem runBlock_isFault {steps : Nat} {body : List Node} {c : Context} {m m' : Machine} {e : Exit}
    (h : Evaluator.runBlock (evaluate steps) body c m = some (.error e, m')) :
    e.isFault = false := by
  cases e with
  | fault f => exact (runBlock_inv h).elim False.elim False.elim
  | _ => rfl

section
variable {steps : Nat} {parts : Attempt Node} {c : Context} {m m' : Machine}

theorem Settles.isFault {ended pending : Except Exit Unit} {e : Exit}
    (h : Settles (evaluate steps) parts c ended m pending m')
    (hended : ∀ e, ended = .error e → e.isFault = false) (hpending : pending = .error e) :
    e.isFault = false := by
  cases h with
  | completed => cases hpending
  | trapped _ htrap => exact runBlock_isFault (hpending ▸ htrap)
  | passed _ hother => exact hended _ hpending

theorem Concludes.isFault {e : Exit} (h : Concludes (evaluate steps) parts c m (.error e) m') :
    e.isFault = false := by
  cases h with
  | block _ hbody => exact runBlock_isFault hbody

/-- So an attempt does not end with a fault either. -/
theorem Course.isFault {e : Exit} (h : Course (evaluate steps) parts c m (.error e) m') :
    e.isFault = false := by
  generalize hr : (.error e : Except Exit Value) = r at h
  cases h with
  | @intro frame start m₁ m₂ m₃ ended pending concluded _ hbody hsettles hconcludes =>
    cases concluded with
    | error e' =>
      cases hr
      exact hconcludes.isFault
    | ok =>
      refine hsettles.isFault (fun e' he' => runBlock_isFault (he' ▸ hbody)) ?_
      cases pending with
      | ok => cases hr
      | error e' =>
        cases hr
        rfl

end

/-- What does not end with a fault is not recovered from. -/
theorem recovering_of_isFault {x : Eval Value} {c : Context} {m m' : Machine} {r : Except Exit Value}
    (h : x c m = some (r, m')) (hfault : ∀ e, r = .error e → e.isFault = false) :
    Evaluator.recovering x c m = some (r, m') := by
  have hended : Eval.outcome x c m = some (.ok r, m') := Eval.outcome_of_some h
  refine (Eval.bind_of_ok hended).trans ?_
  match r, hfault with
  | .ok _, _ => rfl
  | .error (.raised _ _), _ => rfl
  | .error (.flow _), _ => rfl
  | .error .interrupted, _ => rfl
  | .error (.stream _), _ => rfl
  | .error (.fault f), hfault => cases hfault _ rfl

/-- An attempt as a node goes its course, after the entry in the log. -/
theorem evaluate_attempt {c : Context} {m : Machine} (h : Grounded c m)
    (hflag : m.interrupted = false) (steps : Nat) (parts : Attempt Node) :
    ∃ log, (evaluate (steps + 1) (.attempt parts) c m = none ∧
        Starves (evaluate steps) parts c { m with log }) ∨
      ∃ r m', evaluate (steps + 1) (.attempt parts) c m = some (r, m') ∧
        Course (evaluate steps) parts c { m with log } r m' := by
  obtain ⟨log, hvisit⟩ := noteVisit_apply (.attempt parts) c m
  have hnode : evaluate (steps + 1) (.attempt parts) c m =
      Evaluator.recovering (Evaluator.attempt (evaluate steps) parts) c { m with log } :=
    evaluate_of_visit hflag hvisit steps
  have hgrounded : Grounded c { m with log } := ⟨h.sound, h.alive, h.scope⟩
  refine ⟨log, ?_⟩
  rw [hnode]
  obtain ⟨hnone, hstarves⟩ | ⟨r, m', hsome, hcourse⟩ := attempt_course hgrounded steps parts
  · exact .inl ⟨Eval.bind_of_none (Eval.outcome_eq_none.mpr hnone), hstarves⟩
  · exact .inr ⟨r, m', recovering_of_isFault hsome fun e he => (he ▸ hcourse).isFault, hcourse⟩

/-- Attempts go their course to the end.

* At a node that is an attempt nothing happens if the run is to stop.
  Otherwise the attempt goes through its blocks as `Course` tells, with
  the outcome that follows from theirs, or one of them runs out of steps.
* A trap sees the message under `peek` if the attempt asks for it, unless
  the error is to go by that name, and the name of the error under the
  name for it, and nothing else.
* No block ends with a fault. So no fault comes to a trap or is pending.
* Where a node ends with an error that the program raised, a trigger of
  this name and message has been evaluated: the evaluator for which such
  a trigger has no end does not come to an end. -/
theorem attempts_run_their_course :
    (∀ (c : Context) (m : Machine), Grounded c m → ∀ (steps : Nat) (parts : Attempt Node),
      (m.interrupted = true →
        evaluate (steps + 1) (.attempt parts) c m = some (.error .interrupted, m)) ∧
      (m.interrupted = false → ∃ log,
        (evaluate (steps + 1) (.attempt parts) c m = none ∧
          Starves (evaluate steps) parts c { m with log }) ∨
        ∃ r m', evaluate (steps + 1) (.attempt parts) c m = some (r, m') ∧
          Course (evaluate steps) parts c { m with log } r m')) ∧
    (∀ (parts : Attempt Node) (name message : String),
      (parts.peek = true → parts.errorVar ≠ some peekName →
        (trapNames parts name message).lookup peekName = some (.ofValue (.text message))) ∧
      (∀ var, parts.errorVar = some var →
        (trapNames parts name message).lookup var = some (.ofValue (.text name))) ∧
      ∀ entry ∈ trapNames parts name message,
        parts.peek = true ∧ entry = (peekName, .ofValue (.text message)) ∨
          parts.errorVar = some entry.1 ∧ entry.2 = .ofValue (.text name)) ∧
    (∀ (steps : Nat) (body : List Node) (c : Context) (m m' : Machine) (e : Exit),
      Evaluator.runBlock (evaluate steps) body c m = some (.error e, m') → e.isFault = false) ∧
    ∀ (steps : Nat) (node : Node) (c : Context) (m m' : Machine) (name message : String),
      evaluate steps node c m = some (.error (.raised name message), m') →
        without name message steps node c m = none := by
  refine ⟨fun c m h steps parts => ⟨fun hflag => ?_, fun hflag => ?_⟩, fun parts name message =>
    ⟨fun hpeek hvar => trapNames_peek hpeek hvar name message,
      fun var hvar => trapNames_error hvar name message, fun entry => mem_trapNames⟩,
    fun steps body c m m' e => runBlock_isFault, fun steps node c m m' name message =>
      raised_by_trigger⟩
  · exact evaluate_of_interrupted hflag steps _
  · exact evaluate_attempt h hflag steps parts

/-- An attempt that traps an error and leaves with its message, in a new
interpreter: a `back` from the trap is pending while the conclusion runs,
and goes through. The trigger in it is where the error comes from. -/
theorem attempts_run_their_course_back :
    let s := Session.start .standard (.limited none none) (.limited none none) ⟨[]⟩ 0
    let c : Context := ⟨.standard, s.globals, s.held⟩
    let trigger : Node := .trigger "E" (some "lost")
    let parts : Attempt Node :=
      { body := [trigger], trap := [.back (some (.var "peek"))], peek := true,
        errorVar := some "e", conclude := some [.assign (.var "done") (.bool true)] }
    Grounded c s.machine ∧ s.machine.interrupted = false ∧
      (trapNames parts "E" "lost").lookup "peek" = some (.ofValue (.text "lost")) ∧
      (∃ log m', evaluate 3 (.attempt parts) c s.machine =
          some (.error (.flow (.back (.text "lost"))), m') ∧
        Course (evaluate 2) parts c { s.machine with log } (.error (.flow (.back (.text "lost"))))
          m') ∧
      without "E" "lost" 1 trigger c s.machine = none := by
  intro s c trigger parts
  have hgrounded : Grounded c s.machine := grounded_start ..
  have hends : ∃ m', evaluate 3 (.attempt parts) c s.machine =
      some (.error (.flow (.back (.text "lost"))), m') := ⟨_, rfl⟩
  refine ⟨hgrounded, rfl, (attempts_run_their_course.2.1 parts "E" "lost").1 rfl (by decide), ?_,
    attempts_run_their_course.2.2.2 1 trigger c s.machine s.machine "E" "lost" rfl⟩
  obtain ⟨m', hends⟩ := hends
  obtain ⟨log, ⟨hnone, -⟩ | ⟨r, m'', hsome, hcourse⟩⟩ :=
    (attempts_run_their_course.1 c s.machine hgrounded 2 parts).2 rfl
  · rw [hends] at hnone
    cases hnone
  · rw [hends] at hsome
    cases hsome
    exact ⟨log, m', hends, hcourse⟩

end Proofs

end Treewalk
