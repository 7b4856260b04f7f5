import Treewalk.Proofs.Enclosure

/-!
# `Treewalk.Proofs.Shape`: objects keep their scopes, and frames go

The four kinds of objects name scopes by number, and the store does not
check what is behind a number. In all that programs can do from a new
interpreter on, the scopes of an object are alive and are those that
were made for it (`WellShaped`). So there is no object that names the
frame of a construct, wherever objects are stored: nothing owns a frame
but the construct that runs in it.

`objects_keep_shape` says this of all states of an interpreter, and of
all moments of what it runs. Its last part is the consequence: each
construct releases its frame before it ends, whatever it has stored and
however it ends.
-/

set_option autoImplicit false

namespace Treewalk.Proofs

open Yields (items)

/-! ### The shape of objects -/

/-- A scope that is alive and of a kind. -/
def OfKind (s : Store) (id : ScopeId) (kind : ScopeKind) : Prop :=
  ∃ scope, s.scope? id = some scope ∧ scope.kind = kind

/-- A value with the scopes that belong to it. -/
def Shaped (s : Store) : Value → Prop
  | .blueprint b => OfKind s b.scope .blueprint
  | .object i =>
    s.instance? i.id = some i ∧ OfKind s i.fields (.instance i) ∧
      OfKind s i.blueprint.scope .blueprint
  | .toolkit t => OfKind s t.scope (.toolkit t.exports) ∧ OfKind s t.exports .exports
  | .bridge b => OfKind s b.scope .bridge
  | _ => True

/-- A store in which all values have the scopes that belong to them,
exports have no scope above them, and nothing owns a frame. -/
structure WellShaped (s : Store) : Prop where
  bound {id : ScopeId} {scope : Scope} {entry : String × Binding} : s.scope? id = some scope →
    entry ∈ scope.bindings → Shaped s entry.2.value
  instances {id : InstanceId} {i : Instance} : s.instance? id = some i →
    i.id = id ∧ Shaped s (.object i)
  toolkits {id exports : ScopeId} : OfKind s id (.toolkit exports) → OfKind s exports .exports
  exports {id : ScopeId} {scope : Scope} : s.scope? id = some scope → scope.kind = .exports →
    scope.parent = none ∧ s.enclosing? scope = none
  frames {id : ScopeId} {frame : Scope} : s.scope? id = some frame →
    frame.kind.isFrame = true → s.refersTo (.scope id) = false

section
variable {s : Store}

theorem Stands.ofKind {id : ScopeId} {kind : ScopeKind} (h : Stands 0 s id kind) :
    OfKind s id kind := by
  obtain ⟨scope, hscope, hkind⟩ := h
  exact ⟨scope, hscope, hkind (Nat.zero_le id)⟩

/-- In a sound store a value that lives is shaped. -/
theorem Sound.shaped (h : Sound 0 s) {v : Value} (hv : Lives 0 s v) : Shaped s v := by
  cases v with
  | blueprint b => exact Stands.ofKind hv
  | object i =>
    have hstands := h.instances hv
    obtain ⟨fields, hfields, hkind, -⟩ := hstands.fields
    exact ⟨hv, ⟨fields, hfields, hkind⟩, Stands.ofKind hstands.blueprint⟩
  | toolkit t => exact ⟨hv.1.ofKind, hv.2.ofKind⟩
  | bridge b => exact Stands.ofKind hv
  | _ => trivial

/-- A store that is sound from the first number on is well shaped. -/
theorem Sound.wellShaped (h : Sound 0 s) : WellShaped s where
  bound hscope hentry := h.shaped ((h.scope hscope).bindings _ hentry)
  instances {id i} hi := by
    have hid := (h.instances hi).id
    rw [← hid] at hi
    exact ⟨hid, h.shaped hi⟩
  toolkits {id exports} hkind := by
    obtain ⟨scope, hscope, hkind⟩ := hkind
    have hstands := (h.scope hscope).kind
    unfold KindStands at hstands
    rw [hkind] at hstands
    exact Stands.ofKind hstands
  exports {id scope} hscope hkind := by
    have hstands := (h.scope hscope).kind
    unfold KindStands at hstands
    rw [hkind] at hstands
    have hlinks : scope.links = [] := hstands (Nat.zero_le id)
    refine ⟨?_, by rw [Store.enclosing?, hlinks]; rfl⟩
    cases hparent : scope.parent with
    | none => rfl
    | some above => simp [Scope.links, hparent] at hlinks
  frames hframe hisframe := h.refersTo_frame (Nat.zero_le _) hframe hisframe

theorem OfKind.stands {id : ScopeId} {kind : ScopeKind} (h : OfKind s id kind) :
    Stands 0 s id kind := by
  obtain ⟨scope, hscope, hkind⟩ := h
  exact ⟨scope, hscope, fun _ => hkind⟩

theorem Shaped.lives {v : Value} (h : Shaped s v) : Lives 0 s v := by
  cases v with
  | blueprint b => exact h.stands
  | object i => exact h.1
  | toolkit t => exact ⟨h.1.stands, h.2.stands⟩
  | bridge b => exact h.stands
  | _ => trivial

/-- A value that has its scopes owns no frame. -/
theorem Shaped.not_frame {v : Value} (h : Shaped s v) {id : ScopeId} {scope : Scope}
    (hmem : .scope id ∈ v.refs) (hscope : s.scope? id = some scope) :
    scope.kind.isFrame = false :=
  h.lives.not_frame hmem (Nat.zero_le id) hscope

end

/-! ### What can be reached -/

/-- The sessions that can be reached from a new one by running programs
and evaluating nodes in scopes that the host holds. The host lets the
results go, takes and drops handles on live scopes, and does what it
likes with the streams and the flag for a stop. -/
inductive Reached : Session → Prop where
  | start (settings : Settings) (out err : Sink) (input : Source) (first : Nat) :
      Reached (.start settings out err input first)
  | run {s t : Session} {scope : ScopeId} {program : Node} {r : Except Exit Unit} : Reached s →
      .scope scope ∈ s.held → s.run scope program = some (r, t) → Reached t
  | eval {s t : Session} {scope : ScopeId} {node : Node} {r : Except Exit Value} : Reached s →
      .scope scope ∈ s.held → s.eval scope node = some (r, t) →
        Reached (t.release (Owner.refs r))
  | hold {s : Session} (name : String) {id : ScopeId} : Reached s →
      s.machine.store.hasScope id = true → Reached (s.hold name id)
  | drop {s : Session} (name : String) : Reached s → Reached (s.drop name)
  | outside {s : Session} {m : Machine} : Reached s → m.store = s.machine.store →
      Reached { s with machine := m }

/-- Between runs the store is sound, the host holds what is alive, and
no frame is. -/
structure Idle (s : Session) : Prop where
  sound : Sound 0 s.machine.store
  alive : ∀ r ∈ s.held, s.machine.store.Has r
  frames {id : ScopeId} {scope : Scope} : s.machine.store.scope? id = some scope →
    scope.kind.isFrame = false

/-- The charge that all who run in a session have: from the first number
on, beside what the host holds. -/
def hostCharge (s : Session) : Charge where
  since := 0
  held := s.held
  origin := s.machine.store

/-- Where something that a host asks for runs. -/
def hostContext (s : Session) (scope : ScopeId) : Context :=
  ⟨s.settings, scope, s.held⟩

namespace Idle

variable {s t : Session}

theorem ready (h : Idle s) {scope : ScopeId} (hscope : .scope scope ∈ s.held) :
    (hostCharge s).Ready [] [] (hostContext s scope) s.machine where
  upheld :=
    { sound := h.sound
      since := Nat.zero_le _
      continues := .refl _
      charged := List.Subset.refl _
      alive := h.alive
      frames := fun hframe hkind _ => by
        rw [h.frames hframe] at hkind
        cases hkind }
  scope := hscope
  kept i hi := by cases hi
  loose i hi := by cases hi

/-- What keeps its charge leaves the session as it should be between
runs. -/
theorem ended {α : Type} [Yields α] (h : Idle s) {scope : ScopeId} {r : Except Exit α}
    {m : Machine} (hended : (hostCharge s).Ended (hostContext s scope) s.machine r m) :
    Idle { s with machine := m } where
  sound := hended.upheld.sound
  alive := hended.upheld.alive
  frames {id frame} hframe := by
    cases hkind : frame.kind.isFrame with
    | false => rfl
    | true =>
      -- The host would hold it, and so it would have been a frame before.
      have hheld := (hended.upheld.frames hframe hkind (Nat.zero_le id)).1
      obtain ⟨before, hbefore⟩ := h.alive _ hheld
      have hsame := (hended.continues.shape hbefore hframe).kind
      rw [hsame, h.frames hbefore] at hkind
      exact hkind.symm

/-- Letting go what the host does not hold changes nothing of that. -/
theorem released (h : Idle s) (hstore : t.machine.store = s.machine.store)
    (hheld : ∀ r ∈ t.held, s.machine.store.Has r) (refs : List Ref) : Idle (t.release refs) where
  sound := by
    show Sound 0 (t.machine.store.release t.held refs)
    rw [hstore]
    exact h.sound.release _ refs
  alive r hr := by
    show (t.machine.store.release t.held refs).Has r
    rw [hstore]
    exact has_release refs hr (hheld r hr)
  frames {id scope} hscope := by
    have hbefore := (t.machine.store.shrinks_release t.held refs).scope hscope
    rw [hstore] at hbefore
    exact h.frames hbefore

theorem start (settings : Settings) (out err : Sink) (input : Source) (first : Nat) :
    Idle (.start settings out err input first) where
  sound := .single _ first .global trivial
  alive := (grounded_start settings out err input first).alive
  frames {id scope} hscope := by
    have hadded : ((Store.empty first).add (Scope.top .global)).2.scope? id = some scope := hscope
    rw [Store.scope?_add, Store.scope?_empty] at hadded
    split at hadded
    · cases hadded
      rfl
    · cases hadded

/-- A handle on a live scope takes the place of one that is let go. -/
theorem hold (h : Idle s) (name : String) {id : ScopeId}
    (hid : s.machine.store.hasScope id = true) : Idle (s.hold name id) := by
  refine h.released
    (t := { s with handles := (name, id) :: s.handles.filter fun entry => entry.1 ≠ name }) rfl
    (fun r hr => ?_) _
  simp only [Session.held, List.cons_append, List.mem_cons, List.map_cons, List.mem_append,
    List.mem_map] at hr
  rcases hr with rfl | rfl | hr
  · exact h.alive _ (by simp [Session.held])
  · rw [Store.hasScope_eq_isSome] at hid
    exact Option.isSome_iff_exists.mp hid
  · refine h.alive r ?_
    simp only [Session.held, List.cons_append, List.mem_cons, List.mem_append, List.mem_map]
    rcases hr with ⟨entry, hentry, rfl⟩ | hr
    · exact .inr (.inl ⟨entry, (List.mem_filter.mp hentry).1, rfl⟩)
    · exact .inr (.inr hr)

theorem drop (h : Idle s) (name : String) : Idle (s.drop name) := by
  unfold Session.drop
  split
  · exact h
  · refine h.released (t := { s with handles := s.handles.filter fun entry => entry.1 ≠ name }) rfl
      (fun r hr => h.alive r ?_) _
    simp only [Session.held, List.cons_append, List.mem_cons, List.mem_append, List.mem_map] at hr ⊢
    rcases hr with rfl | ⟨entry, hentry, rfl⟩ | hr
    · exact .inl rfl
    · exact .inr (.inl ⟨entry, (List.mem_filter.mp hentry).1, rfl⟩)
    · exact .inr (.inr hr)

end Idle

theorem perform_inv {α : Type} {s t : Session} {scope : ScopeId} {x : Eval α} {r : Except Exit α}
    (h : s.perform scope x = some (r, t)) :
    ∃ m, x (hostContext s scope) s.machine = some (r, m) ∧ t = { s with machine := m } := by
  unfold Session.perform at h
  split at h
  · cases h
  · rename_i r m hx
    cases h
    exact ⟨m, hx, rfl⟩

/-- Every session that can be reached is as it should be between
runs. -/
theorem Reached.idle {s : Session} (h : Reached s) : Idle s := by
  induction h with
  | start settings out err input first => exact .start settings out err input first
  | @run s t scope program r _ hscope hrun ih =>
    obtain ⟨m, hr, rfl⟩ := perform_inv hrun
    have hkeeps := (hostCharge s).runProgram_keeps Session.patience [] [] program
    exact ih.ended ((hkeeps _ _ (ih.ready hscope)).2 r m hr)
  | @eval s t scope node r _ hscope heval ih =>
    obtain ⟨m, hr, rfl⟩ := perform_inv heval
    have hkeeps := (hostCharge s).evaluate_keeps Session.patience [] [] node
    have hidle := ih.ended ((hkeeps _ _ (ih.ready hscope)).2 r m hr)
    exact hidle.released rfl hidle.alive _
  | hold name _ hid ih => exact ih.hold name hid
  | drop name _ ih => exact ih.drop name
  | @outside s m _ hstore ih =>
    have hsound : Sound 0 m.store := by rw [hstore]; exact ih.sound
    exact ⟨hsound, fun r hr => by rw [hstore]; exact ih.alive r hr,
      fun hscope => ih.frames (by rw [← hstore]; exact hscope)⟩

/-! ### Frames go -/

/-- From one moment to another the frames are gone that were made in
between, the first of them among them. -/
structure FrameGone (s t : Store) : Prop where
  own : ¬ t.Has (.scope s.next)
  others {id : ScopeId} {frame : Scope} : t.scope? id = some frame →
    frame.kind.isFrame = true → s.Has (.scope id)

namespace Charge

variable {k : Charge} {kept loose : List Item} {c : Context} {m m' : Machine} {α : Type}
  [Yields α] {r : Except Exit α}

/-- At the end of what keeps its charge there is no frame that was not
there at the start. -/
theorem Ready.frames_before (h : k.Ready kept loose c m) (hended : k.Ended c m r m')
    {id : ScopeId} {frame : Scope} (hframe : m'.store.scope? id = some frame)
    (hkind : frame.kind.isFrame = true) : m.store.Has (.scope id) := by
  by_cases hid : k.since ≤ id
  · exact h.upheld.alive _ (hended.upheld.frames hframe hkind hid).1
  · have hlt : id < m.store.next := Nat.lt_of_lt_of_le (Nat.not_le.mp hid) h.upheld.since
    obtain ⟨before, hbefore, -⟩ := hended.continues.scopes.scope hframe hlt
    exact ⟨before, hbefore⟩

/-- A construct in a frame of its own leaves none behind. -/
theorem Ready.frame_gone [Owner α] [Owned α] {above : ScopeId} {kind : ScopeKind}
    {f : ScopeId → Eval α} (h : k.Ready kept loose c m) (habove : Anchor kept kind above)
    (hf : ∀ id, k.Keeps α (.scope id :: kept) loose (f id) (f id))
    (hr : (Eval.newChild above kind >>= fun id => Eval.holding [.scope id] (f id)) c m =
      some (r, m')) : FrameGone m.store m'.store where
  own := by
    rw [Eval.newChild_bind] at hr
    obtain ⟨m₂, hg, rfl⟩ := Eval.holding_inv hr
    exact h.frame_released habove ((hf _ _ _ (h.inFrame habove)).2 r m₂ hg)
  others hframe hkind :=
    h.frames_before ((keeps_newFrame habove hf c m h).2 r m' hr) hframe hkind

theorem Ready.inChild_gone [Owner α] [Owned α] {above : ScopeId} {kind : ScopeKind} {x : Eval α}
    (h : k.Ready kept loose c m) (habove : Anchor kept kind above)
    (hx : ∀ id, k.Keeps α (.scope id :: kept) loose x x)
    (hr : Eval.inChild above kind x c m = some (r, m')) : FrameGone m.store m'.store :=
  h.frame_gone habove (fun id => keeps_within (List.mem_cons_self ..) (hx id)) hr

end Charge

/-- A construct that has no value of its own ends with what it runs. -/
theorem thenNil_inv {x : Eval Unit} {c : Context} {m m' : Machine} {r : Except Exit Value}
    (h : (x >>= fun _ => pure .nil) c m = some (r, m')) : ∃ o, x c m = some (o, m') := by
  obtain ⟨e, hx, -⟩ | ⟨o, m₁, hx, hpure⟩ := Eval.bind_inv h
  · exact ⟨_, hx⟩
  · cases hpure
    exact ⟨_, hx⟩

section
variable {c : Context} {m m' : Machine} (h : Grounded c m) {steps : Nat}
include h

theorem callSpec_gone {name : String} {s : Spec Node} {args : List Value} {r : Except Exit Value}
    (hargs : ∀ v ∈ args, Lives m.store.next m.store v)
    (hr : Evaluator.callSpec (Evaluator.runBlock (evaluate steps)) name s args c m =
      some (r, m')) : FrameGone m.store m'.store := by
  have hready := h.ready_args h.ready_scope.kept hargs
  have hdiscipline := (Charge.now c m).discipline
  rw [Evaluator.callSpec_apply] at hr
  refine hready.inChild_gone (.function (List.mem_singleton_self _)) (fun id => ?_) hr
  refine hdiscipline.invokeSpec name (fun _ _ => ?_) (List.subset_append_left ..)
  exact hdiscipline.runBlock ((Charge.now c m).evaluate_keeps steps) s.body

theorem callMethod_gone {i : Instance} {name : String} {params : List String} {body : List Node}
    {args : List Value} {r : Except Exit Value} (hi : m.store.instance? i.id = some i)
    (hheld : .instance i.id ∈ c.held) (hargs : ∀ v ∈ args, Lives m.store.next m.store v)
    (hr : Evaluator.callMethod (Evaluator.runBlock (evaluate steps)) i name params body args c m =
      some (r, m')) : FrameGone m.store m'.store := by
  have hready := h.ready_method hi hheld hargs
  have hdiscipline := (Charge.now c m).discipline
  unfold Evaluator.callMethod at hr
  refine hready.inChild_gone (.method (List.mem_singleton_self _)) (fun id => ?_) hr
  refine hdiscipline.invokeMethod ?_ name params (fun _ _ => ?_) (List.subset_append_left ..)
  · simp
  · exact hdiscipline.runBlock ((Charge.now c m).evaluate_keeps steps) body

theorem embed_gone {body : List Node} {r : Except Exit Value}
    (hr : Evaluator.embed (evaluate steps) body c m = some (r, m')) :
    FrameGone m.store m'.store := by
  rw [Evaluator.embed_apply] at hr
  obtain ⟨o, hr⟩ := thenNil_inv hr
  refine h.ready_scope.inChild_gone (.block (List.mem_singleton_self _)) (fun id => ?_) hr
  exact (Charge.now c m).discipline.runBlock ((Charge.now c m).evaluate_keeps steps) body

theorem runTrap_gone {parts : Attempt Node} {name message : String} {r : Except Exit Unit}
    (hr : Evaluator.runTrap (evaluate steps) parts name message c m = some (r, m')) :
    FrameGone m.store m'.store := by
  have hdiscipline := (Charge.now c m).discipline
  rw [Evaluator.runTrap_apply] at hr
  refine h.ready_scope.inChild_gone (.block (List.mem_singleton_self _)) (fun id => ?_) hr
  refine hdiscipline.andThen (hdiscipline.declareError parts name message) ?_
  exact hdiscipline.runBlock ((Charge.now c m).evaluate_keeps steps) parts.trap

theorem attempt_gone {parts : Attempt Node} {r : Except Exit Value}
    (hr : Evaluator.attempt (evaluate steps) parts c m = some (r, m')) :
    FrameGone m.store m'.store := by
  have hnoted : Grounded c (m.note (.attemptStarts parts.body.length)) :=
    ⟨h.sound, h.alive, h.scope⟩
  rw [attempt_apply] at hr
  obtain ⟨o, hr⟩ := thenNil_inv hr
  have hdiscipline := (Charge.now c (m.note (.attemptStarts parts.body.length))).discipline
  refine hnoted.ready_scope.frame_gone (.block (List.mem_singleton_self _)) (fun id => ?_) hr
  exact hdiscipline.attemptIn (Charge.evaluate_keeps _ steps) (List.mem_cons_self ..) parts

end

/-! ### All states and all moments -/

/-- A moment of an interpreter: the store is sound from the first number
on, what the context holds is alive, and all frames are held, with what
encloses them. -/
structure Settled (c : Context) (m : Machine) : Prop where
  sound : Sound 0 m.store
  alive : ∀ r ∈ c.held, m.store.Has r
  scope : .scope c.scope ∈ c.held
  frames {id : ScopeId} {frame : Scope} : m.store.scope? id = some frame →
    frame.kind.isFrame = true → .scope id ∈ c.held ∧ Anchored c.held m.store id frame

namespace Settled

variable {c : Context} {m : Machine}

/-- The charge of what begins at a moment of an interpreter. -/
def charge (c : Context) (m : Machine) : Charge where
  since := 0
  held := c.held
  origin := m.store

theorem ready (h : Settled c m) : (charge c m).Ready [] [] c m where
  upheld :=
    { sound := h.sound
      since := Nat.zero_le _
      continues := .refl _
      charged := List.Subset.refl _
      alive := h.alive
      frames := fun hframe hkind _ => h.frames hframe hkind }
  scope := h.scope
  kept i hi := by cases hi
  loose i hi := by cases hi

theorem of_upheld {k : Charge} (hk : k.since = 0) (h : k.Upheld c.held m.store)
    (hscope : .scope c.scope ∈ c.held) : Settled c m where
  sound := by
    have hsound := h.sound
    rwa [hk] at hsound
  alive := h.alive
  scope := hscope
  frames hframe hkind := h.frames hframe hkind (hk ▸ Nat.zero_le _)

end Settled

/-- In a new interpreter, and whatever it runs, objects keep their shape
and frames go.

* In all sessions that can be reached the store is well shaped, and no
  frame is alive.
* At every moment of an evaluation or a run the store is well shaped,
  and frames are held by the constructs that run in them: a sentry for
  that raises no alarm. The value that an evaluation brings, also as the
  value of a `back`, has its scopes and owns no frame.
* Each construct has released its frame when it ends: calls of specs
  and methods, blocks, attempts and traps. No node and no program leaves
  a frame that was not there before. -/
theorem objects_keep_shape :
    (∀ s, Reached s →
      WellShaped s.machine.store ∧
      (∀ id scope, s.machine.store.scope? id = some scope → scope.kind.isFrame = false) ∧
      ∀ scope, .scope scope ∈ s.held → Settled (hostContext s scope) s.machine) ∧
    (∀ c m, Settled c m → Grounded c m ∧ ∀ (steps : Nat) (alarm : Eval Unit),
      let look := sentry (fun c' m' => Settled c' m' ∧ WellShaped m'.store) alarm
      (∀ node, watched (fun _ => look) steps 0 node c m = evaluate steps node c m) ∧
      (∀ program, runProgram (watched (fun _ => look) steps 0) program c m =
        runProgram (evaluate steps) program c m) ∧
      ∀ node r m', evaluate steps node c m = some (r, m') → WellShaped m'.store ∧
        ∀ v, .value v ∈ items r → Shaped m'.store v ∧ ∀ id scope, .scope id ∈ v.refs →
          m'.store.scope? id = some scope → scope.kind.isFrame = false) ∧
    ∀ c m, Grounded c m → ∀ (steps : Nat),
      (∀ node r m', evaluate steps node c m = some (r, m') → ∀ id frame,
        m'.store.scope? id = some frame → frame.kind.isFrame = true → m.store.Has (.scope id)) ∧
      (∀ program r m', runProgram (evaluate steps) program c m = some (r, m') → ∀ id frame,
        m'.store.scope? id = some frame → frame.kind.isFrame = true → m.store.Has (.scope id)) ∧
      (∀ name s args r m', (∀ v ∈ args, Lives m.store.next m.store v) →
        Evaluator.callSpec (Evaluator.runBlock (evaluate steps)) name s args c m = some (r, m') →
          FrameGone m.store m'.store) ∧
      (∀ i name params body args r m', m.store.instance? i.id = some i →
        .instance i.id ∈ c.held → (∀ v ∈ args, Lives m.store.next m.store v) →
        Evaluator.callMethod (Evaluator.runBlock (evaluate steps)) i name params body args c m =
            some (r, m') →
          FrameGone m.store m'.store) ∧
      (∀ body r m', Evaluator.embed (evaluate steps) body c m = some (r, m') →
        FrameGone m.store m'.store) ∧
      (∀ parts r m', Evaluator.attempt (evaluate steps) parts c m = some (r, m') →
        FrameGone m.store m'.store) ∧
      ∀ parts name message r m',
        Evaluator.runTrap (evaluate steps) parts name message c m = some (r, m') →
          FrameGone m.store m'.store := by
  refine ⟨fun s hs => ?_, fun c m h => ⟨h.ready.upheld.grounded h.scope, fun steps alarm => ?_⟩,
    fun c m h steps => ?_⟩
  · have hidle := hs.idle
    refine ⟨hidle.sound.wellShaped, fun id scope => hidle.frames, fun scope hscope => ?_⟩
    exact .of_upheld rfl (hidle.ready hscope).upheld hscope
  · intro look
    have hlook : (Settled.charge c m).Trusts look :=
      Charge.trusts_sentry alarm fun c' m' hscope hupheld =>
        ⟨.of_upheld rfl hupheld hscope, hupheld.sound.wellShaped⟩
    have heval := Charge.watched_keeps hlook steps 0 [] []
    have hrun := Charge.watched_runProgram_keeps hlook steps 0 [] []
    refine ⟨fun node => (heval node c m h.ready).1, fun program => (hrun program c m h.ready).1, ?_⟩
    intro node r m' hr
    have hended := (heval node c m h.ready).2 r m' hr
    refine ⟨hended.upheld.sound.wellShaped, fun v hv => ?_⟩
    have hshaped := hended.upheld.sound.shaped (hended.brings _ hv)
    exact ⟨hshaped, fun id scope hmem hscope => hshaped.not_frame hmem hscope⟩
  · have hready : (Charge.now c m).Ready [] [] c m :=
      h.ready (fun i hi => by cases hi) fun i hi => by cases hi
    refine ⟨?_, ?_, ?_, ?_, ?_, ?_, ?_⟩
    · intro node r m' hr id frame hframe hkind
      have hended := ((Charge.now c m).evaluate_keeps steps [] [] node c m hready).2 r m' hr
      exact hready.frames_before hended hframe hkind
    · intro program r m' hr id frame hframe hkind
      have hended := ((Charge.now c m).runProgram_keeps steps [] [] program c m hready).2 r m' hr
      exact hready.frames_before hended hframe hkind
    · exact fun _ _ _ _ _ hargs hr => callSpec_gone h hargs hr
    · exact fun _ _ _ _ _ _ _ hi hheld hargs hr => callMethod_gone h hi hheld hargs hr
    · exact fun _ _ _ hr => embed_gone h hr
    · exact fun _ _ _ hr => attempt_gone h hr
    · exact fun _ _ _ _ _ hr => runTrap_gone h hr

/-- A block declares a blueprint and ends with it as the value of a
`back`. The frame in which the blueprint was made goes. -/
theorem objects_keep_shape_embed :
    let s := Session.start .standard (.limited none none) (.limited none none) ⟨[]⟩ 0
    let c := hostContext s 0
    let body : List Node :=
      [.blueprint ⟨"B", [], [], none, none⟩, .back (some (.var "B"))]
    Reached s ∧ .scope 0 ∈ s.held ∧ Grounded c s.machine ∧ ∃ r m',
      Evaluator.embed (evaluate 3) body c s.machine = some (r, m') ∧
        FrameGone s.machine.store m'.store := by
  intro s c body
  have hreached : Reached s := .start _ _ _ _ 0
  have hheld : .scope 0 ∈ s.held := List.mem_cons_self ..
  have hsettled := (objects_keep_shape.1 s hreached).2.2 0 hheld
  have hgrounded := (objects_keep_shape.2.1 c s.machine hsettled).1
  obtain ⟨-, -, -, -, hembed, -⟩ := objects_keep_shape.2.2 c s.machine hgrounded 3
  have hends : (Evaluator.embed (evaluate 3) body c s.machine).isSome = true := by decide +kernel
  obtain ⟨⟨r, m'⟩, hr⟩ := Option.isSome_iff_exists.mp hends
  exact ⟨hreached, hheld, hgrounded, r, m', hr, hembed body r m' hr⟩

end Treewalk.Proofs
