import Treewalk.Proofs.Custody
import Treewalk.Session.Running

/-!
# `Treewalk.Proofs.Enclosure`: running constructs keep their enclosing scopes

A scope does not keep the scopes above it alive. That a running
construct still finds the scope it was made in is owed to others: to
the construct itself, which holds its frame; to the construct around
it, which holds the scope that the frame was made in; and, for a
method, to the instance that is held, which keeps its fields and its
blueprint. A program can overwrite every name it has for these objects
in the middle of a call, and none of them goes.

`enclosing_scopes_stay` says so of every moment of a run. Moments are
looked at in the way of `Treewalk.Proofs.Balance`: a sentry raises an
alarm where something is amiss, and with any alarm watched evaluations
are plain ones.
-/

set_option autoImplicit false

namespace Treewalk.Proofs

open Yields (items)

/-! ### What is looked for -/

/-- A look that raises an alarm where `P` does not hold. -/
noncomputable def sentry (P : Context → Machine → Prop) (alarm : Eval Unit) : Eval Unit :=
  fun c m =>
    open Classical in
    if P c m then some (.ok (), m) else alarm c m

/-- The scope with the number `id` is alive, was made in `above`, and is
enclosed by it: `above` is alive too. -/
structure EnclosedBy (s : Store) (above id : ScopeId) : Prop where
  scope : ∃ scope, s.scope? id = some scope ∧ scope.parent = some above ∧
    s.enclosing? scope = some above
  alive : s.Has (.scope above)

/-- Where `self` is looked up from a frame in the fields of an instance,
it is the instance, unless the frame or the fields bind the name
themselves. -/
def SeesSelf (s : Store) (i : Instance) (id : ScopeId) : Prop :=
  ∀ frame fields, s.scope? id = some frame → s.scope? i.fields = some fields →
    frame.binding? selfName = none → fields.binding? selfName = none →
      s.lookup? id selfName = some (.object i)

/-- A store in which no frame that is not older than `since` has lost
the scope it was made in, and no instance the scope of its
blueprint. -/
structure Enclosed (since : ScopeId) (s : Store) : Prop where
  frames {id : ScopeId} {frame : Scope} : s.scope? id = some frame →
    frame.kind.isFrame = true → since ≤ id → ∃ above, EnclosedBy s above id
  methods {id : ScopeId} {frame : Scope} : s.scope? id = some frame → frame.kind = .method →
    since ≤ id → ∃ i, s.instance? i.id = some i ∧ EnclosedBy s i.fields id ∧ SeesSelf s i id
  instances {id : InstanceId} {i : Instance} : s.instance? id = some i →
    i.id = id ∧ EnclosedBy s i.blueprint.scope i.fields ∧
      ∃ fields, s.scope? i.fields = some fields ∧ fields.kind = .instance i

/-- Where an evaluation can begin: all that the store names is alive,
and all that the context holds, the scope to work in among it. -/
structure Grounded (c : Context) (m : Machine) : Prop where
  sound : Sound m.store.next m.store
  alive : ∀ r ∈ c.held, m.store.Has r
  scope : .scope c.scope ∈ c.held

/-! ### Who encloses whom -/

section
variable {since : ScopeId} {s : Store}

/-- A scope is enclosed by the one it was made in as long as that is
alive. -/
theorem EnclosedBy.of_parent {id above : ScopeId} {scope : Scope} (hscope : s.scope? id = some scope)
    (hparent : scope.parent = some above) (halive : s.Has (.scope above)) :
    EnclosedBy s above id := by
  refine ⟨⟨scope, hscope, hparent, ?_⟩, halive⟩
  obtain ⟨found, hfound⟩ := halive
  unfold Store.enclosing? Scope.links
  rw [hparent]
  exact List.find?_cons_of_pos (Store.hasScope_of_eq hfound)

/-- From a frame in the fields of a live instance, `self` is two steps
away. -/
theorem SeesSelf.of_parent {id : ScopeId} {frame : Scope} {i : Instance} (h : Sound since s)
    (hi : s.instance? i.id = some i) (hframe : s.scope? id = some frame)
    (hkind : frame.kind = .method) (hparent : frame.parent = some i.fields)
    (hlt : i.fields < id) : SeesSelf s i id := by
  intro frame' fields hframe' hfields hfree hfieldsfree
  rw [hframe] at hframe'
  cases hframe'
  have henclosed := EnclosedBy.of_parent hframe hparent ⟨fields, hfields⟩
  obtain ⟨_, hfound, -, henclosing⟩ := henclosed.scope
  rw [hframe] at hfound
  cases hfound
  obtain ⟨_, hsame, hfieldskind, -⟩ := (h.instances hi).fields
  rw [hfields] at hsame
  cases hsame
  have halive : s.hasInstance i.id = true := Store.hasInstance_of_eq hi
  have hframeanswer : s.answer? selfName frame = none := by
    simp [Store.answer?, hfree, hkind]
  have hfieldsanswer : s.answer? selfName fields = some (.object i) := by
    simp [Store.answer?, hfieldsfree, hfieldskind, halive]
  -- The chain may be as long as the number of the frame, which is two scopes at least.
  obtain ⟨n, rfl⟩ : ∃ n, id = n + 1 := Nat.exists_eq_succ_of_ne_zero (Nat.ne_zero_of_lt hlt)
  show s.search (fun _ scope => s.answer? selfName scope) (n + 2) (n + 1) = _
  simp [Store.search, hframe, hframeanswer, henclosing, hfields, hfieldsanswer]

/-- The fields of a live instance are enclosed by its blueprint. -/
theorem Sound.fields_enclosed (h : Sound since s) {id : InstanceId} {i : Instance}
    (hi : s.instance? id = some i) : EnclosedBy s i.blueprint.scope i.fields := by
  have hstands := h.instances hi
  obtain ⟨fields, hfields, -, hparent⟩ := hstands.fields
  exact .of_parent hfields hparent (Stands.has hstands.blueprint)

end

/-! ### Where the charge is kept -/

namespace Charge

variable {k : Charge} {held : List Ref} {s : Store}

/-- Whoever holds a frame holds the scope it was made in, or the
instance whose fields that is. -/
theorem Upheld.enclosed_anchored (h : k.Upheld held s) {id : ScopeId} {frame : Scope}
    (hframe : s.scope? id = some frame) (hanchored : Anchored held s id frame) :
    ∃ above, frame.parent = some above ∧ above < id ∧ EnclosedBy s above id ∧
      (frame.kind = .method → ∃ i, s.instance? i.id = some i ∧ above = i.fields) := by
  obtain ⟨above, hparent, hlt, hheld⟩ := hanchored
  split at hheld
  · obtain ⟨i, hi, hfound, rfl⟩ := hheld
    obtain ⟨fields, hfields, -⟩ := (h.sound.instances hfound).fields
    exact ⟨_, hparent, hlt, .of_parent hframe hparent ⟨fields, hfields⟩, fun _ => ⟨i, hfound, rfl⟩⟩
  · rename_i hkind
    exact ⟨above, hparent, hlt, .of_parent hframe hparent (h.alive _ hheld),
      fun hmethod => absurd hmethod hkind⟩

theorem Upheld.enclosed (h : k.Upheld held s) : Enclosed k.since s where
  frames {id frame} hframe hisframe hid := by
    obtain ⟨-, hanchored⟩ := h.frames hframe hisframe hid
    obtain ⟨above, -, -, henclosed, -⟩ := h.enclosed_anchored hframe hanchored
    exact ⟨above, henclosed⟩
  methods {id frame} hframe hkind hid := by
    obtain ⟨-, hanchored⟩ := h.frames hframe (hkind ▸ rfl) hid
    obtain ⟨_, hparent, hlt, henclosed, hmethod⟩ := h.enclosed_anchored hframe hanchored
    obtain ⟨i, hi, rfl⟩ := hmethod hkind
    exact ⟨i, hi, henclosed, .of_parent h.sound hi hframe hkind hparent hlt⟩
  instances {id i} hi := by
    have hstands := h.sound.instances hi
    obtain ⟨fields, hfields, hkind, -⟩ := hstands.fields
    exact ⟨hstands.id, h.sound.fields_enclosed hi, fields, hfields, hkind⟩

theorem Upheld.grounded {c : Context} {m : Machine} (h : k.Upheld c.held m.store)
    (hscope : .scope c.scope ∈ c.held) : Grounded c m where
  sound := h.sound.mono h.since
  alive := h.alive
  scope := hscope

/-- A sentry is quiet if what it looks for comes with the charge. -/
theorem trusts_sentry {P : Context → Machine → Prop} (alarm : Eval Unit)
    (h : ∀ c m, .scope c.scope ∈ c.held → k.Upheld c.held m.store → P c m) :
    k.Trusts (sentry P alarm) :=
  fun c m hscope hupheld => if_pos (h c m hscope hupheld)

/-! ### Constructs in a frame -/

/-- The charge of what runs in a frame that is made now. -/
def inFrame (k : Charge) (c : Context) (m : Machine) (above : ScopeId) (kind : ScopeKind) :
    Charge where
  since := k.since
  held := .scope m.store.next :: c.held
  origin := (m.store.child above kind).2

section
variable {kept loose : List Item} {c : Context} {m : Machine} {above : ScopeId} {kind : ScopeKind}

/-- As long as the charge of a frame is kept, the frame is in the scope
that it was made in. -/
theorem Ready.frame_parent (h : k.Ready kept loose c m) (habove : Anchor kept kind above)
    (hupheld : (k.inFrame c m above kind).Upheld held s) :
    ∃ frame, s.scope? m.store.next = some frame ∧ frame.kind = kind ∧
      frame.parent = some above ∧ Anchored held s m.store.next frame := by
  obtain ⟨before, hkind, hparent, hscopes⟩ := h.newFrame habove
  have hbefore : (m.store.child above kind).2.scope? m.store.next = some before := by
    rw [hscopes, if_pos rfl]
  obtain ⟨after, hafter⟩ := hupheld.alive _ (hupheld.charged (List.mem_cons_self ..))
  have hshape := hupheld.continues.shape hbefore hafter
  have hisframe : after.kind.isFrame = true := by
    rw [hshape.kind, hkind]
    cases habove <;> rfl
  obtain ⟨-, hanchored⟩ := hupheld.frames hafter hisframe h.upheld.since
  exact ⟨after, hafter, hshape.kind.trans hkind, hshape.parent.trans hparent, hanchored⟩

theorem Ready.frame_enclosed (h : k.Ready kept loose c m) (habove : Anchor kept kind above)
    (hupheld : (k.inFrame c m above kind).Upheld held s) : EnclosedBy s above m.store.next := by
  obtain ⟨frame, hframe, -, hparent, hanchored⟩ := h.frame_parent habove hupheld
  obtain ⟨_, hsame, -, henclosed, -⟩ := hupheld.enclosed_anchored hframe hanchored
  rw [hparent] at hsame
  cases hsame
  exact henclosed

/-- The receiver of a method is held, and so it is alive and still the
same. -/
theorem Ready.frame_seesSelf {i : Instance} (h : k.Ready kept loose c m)
    (hi : .value (.object i) ∈ kept)
    (hupheld : (k.inFrame c m i.fields .method).Upheld held s) :
    SeesSelf s i m.store.next := by
  obtain ⟨frame, hframe, hkind, hparent, hanchored⟩ := h.frame_parent (.method hi) hupheld
  obtain ⟨_, hsame, hlt, -⟩ := hupheld.enclosed_anchored hframe hanchored
  rw [hparent] at hsame
  cases hsame
  obtain ⟨hobject, hrefs⟩ := h.kept _ hi
  have hbefore : m.store.instance? i.id = some i := hobject
  have hheld : .instance i.id ∈ c.held := hrefs (List.mem_singleton_self _)
  obtain ⟨j, hj⟩ := hupheld.alive _ (hupheld.charged (List.mem_cons_of_mem _ hheld))
  have hmade : (m.store.child i.fields .method).2.instance? i.id = some i := by
    obtain ⟨parent, outer, root, hchild⟩ := m.store.child_eq_add i.fields .method
    rw [hchild]
    exact hbefore
  rw [hupheld.continues.instance_eq hmade hj] at hj
  exact .of_parent hupheld.sound hj hframe hkind hparent hlt

/-- Two constructs that do the same in a frame of their own, as long as
its charge is kept, are the same. -/
theorem Ready.frame_eq {α : Type} [Yields α] [Owner α] {f g : ScopeId → Eval α}
    (h : k.Ready kept loose c m) (habove : Anchor kept kind above)
    (hf : (k.inFrame c m above kind).Keeps α (.scope m.store.next :: kept) loose
      (f m.store.next) (g m.store.next)) :
    (Eval.newChild above kind >>= fun id => Eval.holding [.scope id] (f id)) c m =
      (Eval.newChild above kind >>= fun id => Eval.holding [.scope id] (g id)) c m := by
  have hinside := h.inFrame habove
  have hcharged : (k.inFrame c m above kind).Ready (.scope m.store.next :: kept) loose
      { c with held := .scope m.store.next :: c.held }
      { m with store := (m.store.child above kind).2 } :=
    { hinside with
      upheld :=
        { hinside.upheld with
          continues := .refl _
          charged := List.Subset.refl _ } }
  rw [Eval.newChild_bind, Eval.newChild_bind]
  exact Eval.holding_congr (hf _ _ hcharged).1

theorem Ready.inChild_eq {α : Type} [Yields α] [Owner α] {x y : Eval α}
    (h : k.Ready kept loose c m) (habove : Anchor kept kind above)
    (hx : (k.inFrame c m above kind).Keeps α (.scope m.store.next :: kept) loose x y) :
    Eval.inChild above kind x c m = Eval.inChild above kind y c m :=
  h.frame_eq habove (keeps_within (List.mem_cons_self ..) hx)

end

end Charge

/-- The charge of an evaluation that begins now. -/
def Charge.now (c : Context) (m : Machine) : Charge where
  since := m.store.next
  held := c.held
  origin := m.store

namespace Grounded

variable {c : Context} {m : Machine}

/-- Where an evaluation can begin, all of its time is ahead. -/
theorem ready (h : Grounded c m) {kept loose : List Item}
    (hkept : ∀ i ∈ kept, Genuine m.store.next m.store i ∧ i.refs ⊆ c.held)
    (hloose : ∀ i ∈ loose, Genuine m.store.next m.store i) :
    (Charge.now c m).Ready kept loose c m where
  upheld :=
    { sound := h.sound
      since := Nat.le_refl _
      continues := .refl _
      charged := List.Subset.refl _
      alive := h.alive
      -- There is no frame that is not older.
      frames := fun hframe _ hid => absurd (Store.lt_next hframe) (Nat.not_lt.mpr hid) }
  scope := h.scope
  kept := hkept
  loose := hloose

theorem ready_scope (h : Grounded c m) :
    (Charge.now c m).Ready [.scope c.scope] [] c m := by
  refine h.ready (fun i hi => ?_) fun i hi => by cases hi
  rw [List.mem_singleton.mp hi]
  exact ⟨h.alive _ h.scope, fun r hr => List.mem_singleton.mp hr ▸ h.scope⟩

/-- The arguments of a call are alive, and nobody holds them yet. -/
theorem ready_args (h : Grounded c m) {kept : List Item}
    (hkept : ∀ i ∈ kept, Genuine m.store.next m.store i ∧ i.refs ⊆ c.held) {args : List Value}
    (hargs : ∀ v ∈ args, Lives m.store.next m.store v) :
    (Charge.now c m).Ready kept (items args) c m := by
  refine h.ready hkept fun i hi => ?_
  obtain ⟨v, hv, rfl⟩ := List.mem_map.mp hi
  exact hargs v hv

/-- The receiver of a method is held. -/
theorem ready_method (h : Grounded c m) {i : Instance} (hi : m.store.instance? i.id = some i)
    (hheld : .instance i.id ∈ c.held) {args : List Value}
    (hargs : ∀ v ∈ args, Lives m.store.next m.store v) :
    (Charge.now c m).Ready [.value (.object i)] (items args) c m := by
  refine h.ready_args (fun j hj => ?_) hargs
  rw [List.mem_singleton.mp hj]
  exact ⟨hi, fun r hr => List.mem_singleton.mp hr ▸ hheld⟩

end Grounded

/-! ### Each construct -/

/-- The bodies of calls as they run under watch. -/
def runWatched (look : Eval Unit) (steps : Nat) (body : List Node) : Eval Unit :=
  Evaluator.guarded look (Evaluator.runBlock (watched (fun _ => look) steps 0) body)

/-- A look out for a frame that has lost the scope it was made in. -/
noncomputable def frameSentry (above frame : ScopeId) (alarm : Eval Unit) : Eval Unit :=
  sentry (fun _ m => EnclosedBy m.store above frame) alarm

/-- A look out for a frame that has lost its receiver. -/
noncomputable def receiverSentry (i : Instance) (frame : ScopeId) (alarm : Eval Unit) :
    Eval Unit :=
  sentry (fun _ m => EnclosedBy m.store i.fields frame ∧ SeesSelf m.store i frame) alarm

namespace Charge

variable {k : Charge} {look : Eval Unit} {kept loose : List Item}

theorem runWatched_keeps (hlook : k.Trusts look) (steps : Nat) (kept loose : List Item)
    (body : List Node) :
    k.Keeps Unit kept loose (runWatched look steps body)
      (Evaluator.runBlock (evaluate steps) body) :=
  keeps_guarded hlook (k.discipline.runBlock (watched_keeps hlook steps 0) body)

variable {c : Context} {m : Machine} {above : ScopeId} {kind : ScopeKind}

theorem Ready.trusts_frameSentry (h : k.Ready kept loose c m) (habove : Anchor kept kind above)
    (alarm : Eval Unit) :
    (k.inFrame c m above kind).Trusts (frameSentry above m.store.next alarm) :=
  trusts_sentry alarm fun _ _ _ hupheld => h.frame_enclosed habove hupheld

end Charge

section
variable {c : Context} {m : Machine} (h : Grounded c m) (alarm : Eval Unit) (steps : Nat)
include h

/-- The frame of a spec is in the scope of the caller as long as the
call takes. -/
theorem callSpec_enclosed (name : String) (s : Spec Node) {args : List Value}
    (hargs : ∀ v ∈ args, Lives m.store.next m.store v) :
    Evaluator.callSpec (runWatched (frameSentry c.scope m.store.next alarm) steps) name s args c m =
      Evaluator.callSpec (Evaluator.runBlock (evaluate steps)) name s args c m := by
  have hready := h.ready_args h.ready_scope.kept hargs
  have habove : Anchor [.scope c.scope] .function c.scope := .function (List.mem_singleton_self _)
  have hlook := hready.trusts_frameSentry habove alarm
  rw [Evaluator.callSpec_apply, Evaluator.callSpec_apply]
  refine hready.inChild_eq habove ?_
  refine Calling.invokeSpec (Charge.discipline _).toCalling name
    (fun _ _ => Charge.runWatched_keeps hlook steps _ _ s.body) ?_
  exact List.subset_append_left ..

/-- The frame of a method is in the fields of the receiver, and `self`
is the receiver, as long as the call takes. -/
theorem callMethod_enclosed {i : Instance} (hi : m.store.instance? i.id = some i)
    (hheld : .instance i.id ∈ c.held) (name : String) (params : List String) (body : List Node)
    {args : List Value} (hargs : ∀ v ∈ args, Lives m.store.next m.store v) :
    Evaluator.callMethod (runWatched (receiverSentry i m.store.next alarm) steps) i name params
        body args c m =
      Evaluator.callMethod (Evaluator.runBlock (evaluate steps)) i name params body args c m := by
  have hready := h.ready_method hi hheld hargs
  have habove : Anchor [.value (.object i)] .method i.fields := .method (List.mem_singleton_self _)
  have hlook : ((Charge.now c m).inFrame c m i.fields .method).Trusts
      (receiverSentry i m.store.next alarm) :=
    Charge.trusts_sentry alarm fun _ _ _ hupheld =>
      ⟨hready.frame_enclosed habove hupheld,
        hready.frame_seesSelf (List.mem_singleton_self _) hupheld⟩
  unfold Evaluator.callMethod
  refine hready.inChild_eq habove ?_
  refine Calling.invokeMethod (Charge.discipline _).toCalling ?_ name params
    (fun _ _ => Charge.runWatched_keeps hlook steps _ _ body) (List.subset_append_left ..)
  simp

/-- The frame of a block is in the scope around it. -/
theorem embed_enclosed (body : List Node) :
    Evaluator.embed (watched (fun _ => frameSentry c.scope m.store.next alarm) steps 0) body c m =
      Evaluator.embed (evaluate steps) body c m := by
  have habove : Anchor [.scope c.scope] .block c.scope := .block (List.mem_singleton_self _)
  have hlook := h.ready_scope.trusts_frameSentry habove alarm
  rw [Evaluator.embed_apply, Evaluator.embed_apply]
  refine Eval.bind_congr_left _ (h.ready_scope.inChild_eq habove ?_)
  exact Basics.runBlock (Charge.discipline _).toBasics (Charge.watched_keeps hlook steps 0) body

/-- The frame of a trap is in the scope around it. -/
theorem runTrap_enclosed (parts : Attempt Node) (name message : String) :
    Evaluator.runTrap (watched (fun _ => frameSentry c.scope m.store.next alarm) steps 0) parts name
        message c m =
      Evaluator.runTrap (evaluate steps) parts name message c m := by
  have habove : Anchor [.scope c.scope] .block c.scope := .block (List.mem_singleton_self _)
  have hlook := h.ready_scope.trusts_frameSentry habove alarm
  have hdiscipline := Charge.discipline ((Charge.now c m).inFrame c m c.scope .block)
  rw [Evaluator.runTrap_apply, Evaluator.runTrap_apply]
  refine h.ready_scope.inChild_eq habove ?_
  refine hdiscipline.andThen (hdiscipline.declareError parts name message) ?_
  exact hdiscipline.runBlock (Charge.watched_keeps hlook steps 0) parts.trap

omit h in
theorem attempt_apply (ev : Evaluator) (parts : Attempt Node) :
    Evaluator.attempt ev parts c m =
      ((Eval.newChild c.scope .block >>= fun frame =>
        Eval.holding [.scope frame] (attemptIn ev parts frame)) >>= fun _ => pure .nil) c
        (m.note (.attemptStarts parts.body.length)) := by
  have hframe : ∀ f : ScopeId → Eval Unit, ∀ m' : Machine,
      (Eval.here >>= f) c m' = f c.scope c m' := fun _ _ => rfl
  rw [attempt_eq]
  exact Eval.bind_congr_left _ (hframe _ _)

/-- The frame of the body of an attempt is in the scope around it as
long as the attempt takes, its trap and its conclusion included. -/
theorem attempt_enclosed (parts : Attempt Node) :
    Evaluator.attempt (watched (fun _ => frameSentry c.scope m.store.next alarm) steps 0) parts c m =
      Evaluator.attempt (evaluate steps) parts c m := by
  have habove : Anchor [.scope c.scope] .block c.scope := .block (List.mem_singleton_self _)
  have hnoted : Grounded c (m.note (.attemptStarts parts.body.length)) :=
    ⟨h.sound, h.alive, h.scope⟩
  rw [attempt_apply, attempt_apply]
  refine Eval.bind_congr_left _ (hnoted.ready_scope.frame_eq habove ?_)
  have hlook := hnoted.ready_scope.trusts_frameSentry habove alarm
  exact (Charge.discipline _).attemptIn (Charge.watched_keeps hlook steps 0)
    (List.mem_cons_self ..) parts

end

/-! ### All moments -/

/-- A store with one scope names nothing. -/
theorem Sound.single (since next : ScopeId) (kind : ScopeKind)
    (hkind : KindStands since ((Store.empty next).add (Scope.top kind)).2 next (Scope.top kind)) :
    Sound since ((Store.empty next).add (Scope.top kind)).2 := by
  have hempty : Sound since (Store.empty next) := by
    refine ⟨fun {id scope} hscope => ?_, fun {id i} hi => ?_⟩
    · cases (Store.scope?_empty next id).symm.trans hscope
    · simp [Store.instance?, Store.empty] at hi
  exact hempty.add hkind

/-- A new interpreter is a place to begin. -/
theorem grounded_start (settings : Settings) (out err : Sink) (input : Source) (first : Nat) :
    let s := Session.start settings out err input first
    Grounded ⟨settings, s.globals, s.held⟩ s.machine := by
  intro s
  refine ⟨.single _ first .global trivial, fun r hr => ?_, List.mem_cons_self ..⟩
  have hglobals : r = .scope first := by
    simpa [s, Session.held, Session.start, Store.add, Store.empty] using hr
  rw [hglobals]
  exact ⟨Scope.top .global, by
    show ((Store.empty first).add (Scope.top .global)).2.scope? first = _
    rw [Store.scope?_add]
    exact if_pos rfl⟩

/-- Running constructs never lose the scopes around them. A new
interpreter is grounded, and from a grounded place on, with any alarm:

* At every moment of an evaluation and of a run all frames that have
  been made since are enclosed by the scope that they were made in, and
  the fields of all instances by their blueprint. From the frame of a
  method `self` is the receiver, unless the frame or the fields bind the
  name. All these places are grounded, and so are those after the run.
* Each construct has its frame in the scope that is its own: calls of
  specs, blocks, attempts and traps in the current one, and methods in
  the fields of the receiver. It does at every moment until the
  construct has ended, whatever it runs. -/
theorem enclosing_scopes_stay :
    (∀ settings out err input first,
      let s := Session.start settings out err input first
      Grounded ⟨settings, s.globals, s.held⟩ s.machine) ∧
    ∀ (c : Context) (m : Machine), Grounded c m → ∀ (steps : Nat) (alarm : Eval Unit),
      let look := sentry (fun c' m' => Grounded c' m' ∧ Enclosed m.store.next m'.store) alarm
      let frameLook := frameSentry c.scope m.store.next alarm
      (∀ node, watched (fun _ => look) steps 0 node c m = evaluate steps node c m) ∧
      (∀ program, runProgram (watched (fun _ => look) steps 0) program c m =
        runProgram (evaluate steps) program c m) ∧
      (∀ node r m', evaluate steps node c m = some (r, m') → Grounded c m') ∧
      (∀ program r m', runProgram (evaluate steps) program c m = some (r, m') → Grounded c m') ∧
      (∀ name s args, (∀ v ∈ args, Lives m.store.next m.store v) →
        Evaluator.callSpec (runWatched frameLook steps) name s args c m =
          Evaluator.callSpec (Evaluator.runBlock (evaluate steps)) name s args c m) ∧
      (∀ i name params body args, m.store.instance? i.id = some i → .instance i.id ∈ c.held →
        (∀ v ∈ args, Lives m.store.next m.store v) →
          Evaluator.callMethod (runWatched (receiverSentry i m.store.next alarm) steps) i name
              params body args c m =
            Evaluator.callMethod (Evaluator.runBlock (evaluate steps)) i name params body args c
              m) ∧
      (∀ body, Evaluator.embed (watched (fun _ => frameLook) steps 0) body c m =
        Evaluator.embed (evaluate steps) body c m) ∧
      (∀ parts, Evaluator.attempt (watched (fun _ => frameLook) steps 0) parts c m =
        Evaluator.attempt (evaluate steps) parts c m) ∧
      ∀ parts name message,
        Evaluator.runTrap (watched (fun _ => frameLook) steps 0) parts name message c m =
          Evaluator.runTrap (evaluate steps) parts name message c m := by
  refine ⟨grounded_start, fun c m h steps alarm => ?_⟩
  intro look frameLook
  have hready : (Charge.now c m).Ready [] [] c m :=
    h.ready (fun i hi => by cases hi) fun i hi => by cases hi
  have hlook : (Charge.now c m).Trusts look :=
    Charge.trusts_sentry alarm fun c' m' hscope hupheld =>
      ⟨hupheld.grounded hscope, hupheld.enclosed⟩
  have heval := Charge.watched_keeps hlook steps 0 [] []
  have hrun := Charge.watched_runProgram_keeps hlook steps 0 [] []
  refine ⟨?_, ?_, ?_, ?_, ?_, ?_, ?_, ?_, ?_⟩
  · intro node
    exact (heval node c m hready).1
  · intro program
    exact (hrun program c m hready).1
  · intro node r m' hr
    exact ((heval node c m hready).2 r m' hr).upheld.grounded h.scope
  · intro program r m' hr
    exact ((hrun program c m hready).2 r m' hr).upheld.grounded h.scope
  · intro name s args hargs
    exact callSpec_enclosed h alarm steps name s hargs
  · intro i name params body args hi hheld hargs
    exact callMethod_enclosed h alarm steps hi hheld name params body hargs
  · exact embed_enclosed h alarm steps
  · exact attempt_enclosed h alarm steps
  · exact runTrap_enclosed h alarm steps

/-- A method that assigns to `self`, called on an instance that nothing
but the call holds, runs under watch as it does alone. -/
theorem enclosing_scopes_stay_method :
    let b : Blueprint := ⟨"B", 1, none⟩
    let m₀ := Machine.single (Scope.top .global)
    let made := (m₀.store.child 0 .blueprint).2.spawn b
    let m := { m₀ with store := made.2 }
    let c : Context := ⟨.standard, 0, [.scope 0, .instance made.1.id]⟩
    let body : List Node := [.assign (.var "self") .nil]
    Grounded c m ∧ m.store.instance? made.1.id = some made.1 ∧ ∀ alarm, ∃ r m',
      Evaluator.callMethod (Evaluator.runBlock (evaluate 2)) made.1 "f" ["own"] body [] c m =
          some (r, m') ∧
        Evaluator.callMethod (runWatched (receiverSentry made.1 m.store.next alarm) 2) made.1 "f"
          ["own"] body [] c m = some (r, m') := by
  intro b m₀ made m c body
  have hglobal : Sound 0 m₀.store := .single 0 0 .global trivial
  have hblueprint : Sound 0 (m₀.store.child 0 .blueprint).2 :=
    hglobal.child 0 fun id scope hkind => by
      unfold KindStands
      rw [hkind]
      trivial
  have hlives : Lives 0 (m₀.store.child 0 .blueprint).2 (.blueprint b) := ⟨_, rfl, fun _ => rfl⟩
  obtain ⟨hsound, -, hobject⟩ := hblueprint.spawn hlives
  have hi : m.store.instance? made.1.id = some made.1 := hobject
  have hgrounded : Grounded c m := by
    refine ⟨hsound.mono (Nat.zero_le _), fun r hr => ?_, List.mem_cons_self ..⟩
    simp only [c, List.mem_cons, List.not_mem_nil, or_false] at hr
    rcases hr with rfl | rfl
    · exact ⟨_, rfl⟩
    · exact ⟨made.1, hi⟩
  refine ⟨hgrounded, hi, fun alarm => ?_⟩
  obtain ⟨-, -, -, -, -, hmethod, -⟩ := enclosing_scopes_stay.2 c m hgrounded 2 alarm
  have hsame := hmethod made.1 "f" ["own"] body [] hi (by simp [c]) fun v hv => by cases hv
  have hends : (Evaluator.callMethod (Evaluator.runBlock (evaluate 2)) made.1 "f" ["own"] body []
      c m).isSome = true := by decide +kernel
  obtain ⟨⟨r, m'⟩, hr⟩ := Option.isSome_iff_exists.mp hends
  exact ⟨r, m', hr, hsame.trans hr⟩

end Treewalk.Proofs
