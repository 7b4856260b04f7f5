import Treewalk.Proofs.Shape

/-!
# `Treewalk.Proofs.MethodFrame`: where the body of a method runs

The body of a method or of a constructor runs in a frame that was made in
the fields of its receiver, and the blocks and functions that it runs
are in frames that lead up to this one. `InMethod` says so of a scope,
and that a name is no local on the way.

`callMethod_begins` proves that every body begins in such a place, with
the receiver under its name. `InMethod.holder?` is what follows for a
name that the fields bind: seen from there, they are the nearest scope
that binds it.
-/

set_option autoImplicit false

namespace Treewalk

/-- The scope with names bound, one after the other. -/
def Scope.bindAll (scope : Scope) (locals : List (String × Value)) : Scope :=
  locals.foldl (fun scope l => scope.bind l.1 (.ofValue l.2)) scope

namespace Proofs

open Yields (items)

/-! ### Names of a frame -/

section
variable (scope : Scope) (locals : List (String × Value))

theorem bindAll_append (more : List (String × Value)) :
    scope.bindAll (locals ++ more) = (scope.bindAll locals).bindAll more :=
  List.foldl_append

theorem sameShape_bindAll (id : ScopeId) : SameShape id scope (scope.bindAll locals) := by
  induction locals generalizing scope with
  | nil => exact .refl id scope
  | cons first rest ih =>
    have hbound : SameShape id scope (scope.bind first.1 (.ofValue first.2)) := ⟨rfl, rfl, rfl, rfl⟩
    exact hbound.trans id (ih _)

variable {scope locals}

/-- Names that are bound to values that may change are no constants. -/
theorem isConstant_bind {name n : String} {v : Value} (h : scope.isConstant n = false) :
    (scope.bind name (.ofValue v)).isConstant n = false := by
  unfold Scope.isConstant
  rw [Scope.binding?_bind]
  split
  · rfl
  · exact h

theorem binding?_bindAll_of_notMem {n : String} (h : n ∉ locals.map Prod.fst) :
    (scope.bindAll locals).binding? n = scope.binding? n := by
  induction locals generalizing scope with
  | nil => rfl
  | cons first rest ih =>
    have hfirst : n ≠ first.1 := fun heq => h (heq ▸ List.mem_cons_self ..)
    have hrest : n ∉ rest.map Prod.fst := fun hmem => h (List.mem_cons_of_mem _ hmem)
    show ((scope.bind first.1 (.ofValue first.2)).bindAll rest).binding? n = _
    rw [ih hrest, Scope.binding?_bind, if_neg hfirst]

end

/-- Names are bound in a frame that binds none for good. The frame stays,
as it is held, and every other scope that stays is as it was. -/
theorem declareLocals_bindAll (locals : List (String × Value)) {c : Context} {m : Machine}
    {frame : Scope} (hheld : .scope c.scope ∈ c.held)
    (hframe : m.store.scope? c.scope = some frame) (hfree : ∀ n, frame.isConstant n = false) :
    ∃ store, Evaluator.declareLocals locals c m = some (.ok (), { m with store }) ∧
      store.scope? c.scope = some (frame.bindAll locals) ∧
      ∀ id scope, id ≠ c.scope → store.scope? id = some scope → m.store.scope? id = some scope := by
  induction locals generalizing m frame with
  | nil => exact ⟨m.store, rfl, hframe, fun _ _ _ hscope => hscope⟩
  | cons first rest ih =>
    obtain ⟨name, v⟩ := first
    obtain ⟨freed, hdeclare⟩ := Eval.declare_of_free hframe (hfree name) (.ofValue v)
    let bound := frame.bind name (.ofValue v)
    let store := (m.store.setScope c.scope bound).release c.held freed
    have hset : (m.store.setScope c.scope bound).scope? c.scope = some bound := by
      rw [Store.scope?_setScope, if_pos rfl, hframe]
      rfl
    have hstore : store.scope? c.scope = some bound :=
      scope?_release_of_held freed hheld hset
    -- The frame with one name more still binds none for good.
    obtain ⟨last, hrest, hlast, hothers⟩ :=
      ih (m := { m with store }) hstore fun n => isConstant_bind (hfree n)
    refine ⟨last, (Eval.bind_of_ok hdeclare).trans hrest, hlast, fun id scope hid hscope => ?_⟩
    have hbefore := (Store.shrinks_release _ c.held freed).scope (hothers id scope hid hscope)
    rwa [Store.scope?_setScope, if_neg hid] at hbefore

/-- The receiver is what `own` stands for, unless a later parameter takes
the name. -/
theorem binding?_receiverName {frame : Scope} {i : Instance} {params : List String}
    (hfree : receiverName ∉ params.tail) (args : List Value) :
    (frame.bindAll (Evaluator.methodLocals i params args)).binding? receiverName =
      some (.ofValue (.object i)) := by
  have hargs : receiverName ∉ (params.tail.zip args).map Prod.fst := by
    intro hmem
    obtain ⟨l, hl, hname⟩ := List.mem_map.mp hmem
    exact hfree (hname ▸ (List.of_mem_zip hl).1)
  unfold Evaluator.methodLocals
  rw [bindAll_append, binding?_bindAll_of_notMem hargs, List.map_append, bindAll_append]
  show (Scope.bind _ receiverName (.ofValue (.object i))).binding? receiverName = _
  rw [Scope.binding?_bind, if_pos rfl]

/-- A method has its parameters and its receiver as locals. -/
theorem notMem_methodLocals {i : Instance} {params : List String} {args : List Value}
    {name : String} (hparams : name ∉ params) (hown : name ≠ receiverName) :
    name ∉ (Evaluator.methodLocals i params args).map Prod.fst := by
  intro hmem
  obtain ⟨l, hl, rfl⟩ := List.mem_map.mp hmem
  rcases List.mem_append.mp hl with hl | hl
  · obtain ⟨n, hn, rfl⟩ := List.mem_map.mp hl
    rcases List.mem_append.mp hn with hn | hn
    · exact hparams (List.mem_of_mem_take hn)
    · exact hown (List.mem_singleton.mp hn)
  · exact hparams (List.mem_of_mem_tail (List.of_mem_zip hl).1)

/-! ### Inside of a method -/

/-- A scope inside of a running method of an instance. A name is bound
by none of the frames from there to the fields of the instance. -/
inductive InMethod (s : Store) (i : Instance) (name : String) : ScopeId → Prop where
  | method {id : ScopeId} {frame : Scope} : s.scope? id = some frame → frame.kind = .method →
      frame.parent = some i.fields → frame.binding? name = none → InMethod s i name id
  | inside {id above : ScopeId} {frame : Scope} : s.scope? id = some frame →
      frame.kind.isFrame = true → frame.kind ≠ .method → frame.parent = some above →
        frame.binding? name = none → InMethod s i name above → InMethod s i name id

section
variable {s : Store} {i j : Instance}

/-- No two instances share their fields. -/
theorem Sound.eq_of_fields {since : ScopeId} (h : Sound since s) (hi : s.instance? i.id = some i)
    (hj : s.instance? j.id = some j) (hfields : i.fields = j.fields) : i = j := by
  obtain ⟨fields, hscope, hkind, -⟩ := (h.instances hi).fields
  obtain ⟨fields', hscope', hkind', -⟩ := (h.instances hj).fields
  rw [hfields, hscope'] at hscope
  cases hscope
  rw [hkind] at hkind'
  cases hkind'
  rfl

end

section
variable {c : Context} {m : Machine} (h : Settled c m) {i : Instance} {name : String}
  {id : ScopeId}
include h

/-- While a method of an instance is running, the instance is held. -/
theorem InMethod.held (hin : InMethod m.store i name id) (hi : m.store.instance? i.id = some i) :
    .instance i.id ∈ c.held := by
  induction hin with
  | method hframe hkind hparent _ =>
    obtain ⟨above, habove, -, hheld⟩ := (h.frames hframe (hkind ▸ rfl)).2
    rw [hkind] at hheld
    obtain ⟨j, hj, halive, hfields⟩ := hheld
    have hsame : i.fields = j.fields :=
      (Option.some.inj (hparent.symm.trans habove)).trans hfields
    rw [h.sound.eq_of_fields hi halive hsame]
    exact hj
  | inside _ _ _ _ _ _ ih => exact ih

/-- A frame is enclosed by the scope it was made in, which has a smaller
number. -/
theorem Settled.enclosing {frame : Scope} {above : ScopeId}
    (hframe : m.store.scope? id = some frame) (hkind : frame.kind.isFrame = true)
    (hparent : frame.parent = some above) :
    above < id ∧ m.store.enclosing? frame = some above := by
  obtain ⟨found, hfound, hlt, henclosed, -⟩ :=
    h.ready.upheld.enclosed_anchored hframe (h.frames hframe hkind).2
  have habove : found = above := Option.some.inj (hfound.symm.trans hparent)
  subst habove
  obtain ⟨_, hsame, -, henclosing⟩ := henclosed.scope
  rw [hframe] at hsame
  cases hsame
  exact ⟨hlt, henclosing⟩

/-- The search for the scope that binds a name goes past frames that do
not. -/
theorem Settled.search_above {frame : Scope} {above : ScopeId}
    (hframe : m.store.scope? id = some frame) (hkind : frame.kind.isFrame = true)
    (hparent : frame.parent = some above) (hfree : frame.binding? name = none) (n : Nat) :
    m.store.search (fun id scope => (scope.binding? name).map fun _ => id) (n + 1) id =
      m.store.search (fun id scope => (scope.binding? name).map fun _ => id) n above := by
  obtain ⟨-, henclosing⟩ := h.enclosing hframe hkind hparent
  rw [Store.search, hframe]
  simp only [hfree, Option.map_none, henclosing]

/-- Inside of a method, a name that is no local and that the fields of
the receiver bind is bound nearest by the fields. -/
theorem InMethod.holder? (hin : InMethod m.store i name id) {fields : Scope} {b : Binding}
    (hfields : m.store.scope? i.fields = some fields) (hbound : fields.binding? name = some b) :
    m.store.holder? id name = some i.fields := by
  -- A chain is at most as long as the number of its first scope allows, and numbers go down.
  suffices hsearch : ∀ n, id < n →
      m.store.search (fun id scope => (scope.binding? name).map fun _ => id) n id =
        some i.fields from hsearch (id + 1) (Nat.lt_succ_self id)
  induction hin with
  | @method id frame hframe hkind hparent hfree =>
    intro n hn
    obtain ⟨k, rfl⟩ := Nat.exists_eq_add_one_of_ne_zero (Nat.ne_zero_of_lt hn)
    have hisframe : frame.kind.isFrame = true := by
      rw [hkind]
      rfl
    obtain ⟨hlt, -⟩ := h.enclosing hframe hisframe hparent
    rw [h.search_above hframe hisframe hparent hfree]
    obtain ⟨l, rfl⟩ := Nat.exists_eq_add_one_of_ne_zero
      (Nat.ne_zero_of_lt (Nat.lt_of_lt_of_le hlt (Nat.le_of_lt_succ hn)))
    rw [Store.search, hfields]
    simp only [hbound, Option.map_some]
  | inside hframe hisframe _ hparent hfree _ ih =>
    intro n hn
    obtain ⟨k, rfl⟩ := Nat.exists_eq_add_one_of_ne_zero (Nat.ne_zero_of_lt hn)
    obtain ⟨hlt, -⟩ := h.enclosing hframe hisframe hparent
    rw [h.search_above hframe hisframe hparent hfree]
    exact ih k (Nat.lt_of_lt_of_le hlt (Nat.le_of_lt_succ hn))

/-- What is inside of a method is no scope of fields. -/
theorem InMethod.ne_fields (hin : InMethod m.store i name id)
    (hi : m.store.instance? i.id = some i) : id ≠ i.fields := by
  rintro rfl
  obtain ⟨fields, hfields, hkind, -⟩ := (h.sound.instances hi).fields
  cases hin with
  | method hframe hmethod _ _ =>
    rw [hfields] at hframe
    cases hframe
    rw [hkind] at hmethod
    cases hmethod
  | inside hframe hisframe _ _ _ _ =>
    rw [hfields] at hframe
    cases hframe
    rw [hkind] at hisframe
    cases hisframe

end

/-! ### The beginning of a body -/

/-- A moment stays one of an interpreter when more is held that is
alive. -/
theorem Settled.holding {c : Context} {m : Machine} (h : Settled c m) {refs : List Ref}
    (hrefs : ∀ r ∈ refs, m.store.Has r) : Settled { c with held := refs ++ c.held } m where
  sound := h.sound
  alive r hr := by
    rcases List.mem_append.mp hr with hr | hr
    · exact hrefs r hr
    · exact h.alive r hr
  scope := List.mem_append_right _ h.scope
  frames hframe hkind := by
    obtain ⟨hheld, hanchored⟩ := h.frames hframe hkind
    exact ⟨List.mem_append_right _ hheld, hanchored.mono (List.subset_append_right ..)⟩

/-- Where the body of a method runs that is called now. -/
def bodyContext (c : Context) (m : Machine) : Context :=
  { c with scope := m.store.next, held := .scope m.store.next :: c.held }

/-- The machine with the frame of a method that is called now. -/
def withFrame (m : Machine) (i : Instance) : Machine :=
  { m with store := (m.store.child i.fields .method).2 }

/-- How a call is counted in and gets its locals. -/
def beginCall (name : String) (arity : Nat) (locals : List (String × Value)) :
    Eval (Except Exit Unit) :=
  Eval.holding (Owner.refs (locals.map Prod.snd)) do
    Evaluator.enterCall
    Evaluator.prepareCall name arity locals

/-- A call that is not refused gets its locals. -/
theorem beginCall_of_room (name : String) (arity : Nat) (locals : List (String × Value))
    {c : Context} {m : Machine} {frame : Scope} (hheld : .scope c.scope ∈ c.held)
    (hframe : m.store.scope? c.scope = some frame) (hfree : ∀ n, frame.isConstant n = false)
    (hroom : m.depth < c.settings.maxDepth) :
    ∃ m₁, beginCall name arity locals c m = some (.ok (.ok ()), m₁) ∧
      m₁.interrupted = m.interrupted ∧
      m₁.store.scope? c.scope = some (frame.bindAll locals) ∧
      ∀ id scope, id ≠ c.scope → m₁.store.scope? id = some scope →
        m.store.scope? id = some scope := by
  let refs := Owner.refs (locals.map Prod.snd)
  let counted : Machine := { m with depth := m.depth + 1 }
  let noted : Machine := counted.note (.call name arity counted.depth)
  obtain ⟨store, hdeclare, hstore, hothers⟩ := declareLocals_bindAll locals
    (c := { c with held := refs ++ c.held }) (m := noted) (List.mem_append_right _ hheld) hframe
    hfree
  have henter : Evaluator.enterCall { c with held := refs ++ c.held } m =
      some (.ok (), counted) := by
    rw [Evaluator.enterCall_apply, if_neg (Nat.not_le.mpr hroom)]
  exact ⟨_, Eval.holding_of_some ((Eval.bind_of_ok henter).trans (Eval.outcome_of_some hdeclare)),
    rfl, scope?_release_of_held refs hheld hstore, fun id scope hid hscope =>
      hothers id scope hid ((Store.shrinks_release _ c.held refs).scope hscope)⟩

/-- What is called runs its body once it has begun. -/
theorem callMethod_inv {run : List Node → Eval Unit} {i : Instance} {name : String}
    {params : List String} {body : List Node} {args : List Value} {c : Context}
    {m m₁ m' : Machine} {r : Except Exit Value}
    (hbegin : beginCall name args.length (Evaluator.methodLocals i params args) (bodyContext c m)
      (withFrame m i) = some (.ok (.ok ()), m₁))
    (h : Evaluator.callMethod run i name params body args c m = some (r, m')) :
    ∃ o m₂, run body (bodyContext c m) m₁ = some (o, m₂) := by
  let call := Evaluator.runCall name args.length (Evaluator.methodLocals i params args) (run body)
  have hframed : (Eval.newChild i.fields .method >>= fun id => Eval.holding [.scope id]
      (Eval.within id (call >>= fun result => do
        Evaluator.exitCall
        Evaluator.finishCall name result))) c m = some (r, m') := h
  rw [Eval.newChild_bind] at hframed
  obtain ⟨m₂, hinvoke, -⟩ := Eval.holding_inv hframed
  have hcall : ∃ o m₃, call (bodyContext c m) (withFrame m i) = some (o, m₃) := by
    obtain ⟨_, hcalled, -⟩ | ⟨_, _, hcalled, -⟩ := Eval.bind_inv hinvoke
    · exact ⟨_, _, hcalled⟩
    · exact ⟨_, _, hcalled⟩
  obtain ⟨o, m₃, hcall⟩ := hcall
  have hbody : Eval.outcome (run body) (bodyContext c m) m₁ = some (o, m₃) :=
    (Eval.bind_of_ok hbegin).symm.trans hcall
  obtain ⟨_, hended, -⟩ := Eval.outcome_inv hbody
  exact ⟨_, _, hended⟩

section
variable {c : Context} {m : Machine} (h : Settled c m) {i : Instance}
  (hi : m.store.instance? i.id = some i) (hheld : .instance i.id ∈ c.held)
include h hi

/-- The frame of a method binds nothing at first. -/
theorem Settled.frame_made :
    ∃ frame, (withFrame m i).store.scope? m.store.next = some frame ∧ frame.kind = .method ∧
      frame.parent = some i.fields ∧ ∀ n, frame.binding? n = none := by
  obtain ⟨fields, hfields, -⟩ := (h.sound.instances hi).fields
  obtain ⟨outer, root, hchild⟩ := Store.child_eq_of_alive .method hfields
  refine ⟨Scope.fresh .method (some i.fields) outer root, ?_, rfl, rfl, fun _ => rfl⟩
  show (m.store.child i.fields .method).2.scope? m.store.next = _
  rw [hchild, Store.scope?_add, if_pos rfl]

include hheld

/-- With the frame of a method, and once it has its locals, the moment is
one of an interpreter, and the receiver is alive. -/
theorem Settled.began {name : String} {params : List String} {args : List Value}
    (hargs : ∀ v ∈ args, Lives 0 m.store v) {m₁ : Machine}
    (hbegin : beginCall name args.length (Evaluator.methodLocals i params args) (bodyContext c m)
      (withFrame m i) = some (.ok (.ok ()), m₁)) :
    Settled (bodyContext c m) m₁ ∧ m₁.store.instance? i.id = some i := by
  let k := Settled.charge c m
  have hready : k.Ready [.value (.object i)] (items args) c m :=
    { h.ready with
      kept := fun j hj => by
        rw [List.mem_singleton.mp hj]
        exact ⟨hi, fun r hr => List.mem_singleton.mp hr ▸ hheld⟩
      loose := fun j hj => by
        obtain ⟨v, hv, rfl⟩ := List.mem_map.mp hj
        exact hargs v hv }
  have hinside : k.Ready [.scope m.store.next, .value (.object i)] (items args)
      (bodyContext c m) (withFrame m i) :=
    { hready.inFrame (.method (List.mem_singleton_self _)) with
      scope := List.mem_cons_self .. }
  have hdepth : ∀ kept loose, k.Keeps Nat kept loose Evaluator.callDepth Evaluator.callDepth :=
    fun _ _ => k.rules.calm
      (Charge.calm_of_look fun _ _ _ => ⟨_, _, rfl, rfl, fun _ hi => by cases hi⟩)
  have hlocals : ∀ l ∈ Evaluator.methodLocals i params args,
      .value l.2 ∈ items args ++ [.scope m.store.next, .value (.object i)] := by
    intro l hl
    rcases Calling.mem_methodLocals hl with hreceiver | harg
    · simp [hreceiver]
    · exact List.mem_append_left _ (List.mem_map_of_mem harg)
  have hkeeps := k.rules.beginCall (fun _ _ => Charge.keeps_enterCall) hdepth name args.length
    hlocals
  have hended := (hkeeps _ _ hinside).2 _ _ hbegin
  refine ⟨.of_upheld rfl hended.upheld (List.mem_cons_self ..), ?_⟩
  -- The receiver was alive before, and it has been held since.
  obtain ⟨j, hj⟩ := hended.upheld.alive _ (List.mem_cons_of_mem _ hheld)
  have hlives : Lives 0 m.store (.object i) := hi
  have hmade : (withFrame m i).store.instance? i.id = some i :=
    hlives.grows (Grows.child m.store i.fields .method)
  rwa [hended.continues.instance_eq hmade hj] at hj

/-- Every body of a method begins inside of the method. Take a call that
is not refused, at a moment of an interpreter, of a method or a
constructor whose receiver is held. There is a place where the body
begins, if the call comes to an end, and it is the same for all ways to
run the body. No name is a local there but the parameters and the name
for the receiver. That name stands for the receiver, unless a later
parameter is called so too. Beside the frame, what scopes there are were
there before. -/
theorem callMethod_begins (name : String) (params : List String) (body : List Node)
    {args : List Value} (hargs : ∀ v ∈ args, Lives 0 m.store v)
    (hroom : m.depth < c.settings.maxDepth) :
    ∃ c' m₁, c'.settings = c.settings ∧ m₁.interrupted = m.interrupted ∧ Settled c' m₁ ∧
      m₁.store.instance? i.id = some i ∧
      (∀ x, x ∉ params → x ≠ receiverName → InMethod m₁.store i x c'.scope) ∧
      (receiverName ∉ params.tail →
        m₁.store.lookup? c'.scope receiverName = some (.object i)) ∧
      (∀ id scope, id ≠ c'.scope → m₁.store.scope? id = some scope →
        m.store.scope? id = some scope) ∧
      ∀ run r m', Evaluator.callMethod run i name params body args c m = some (r, m') →
        ∃ o m₂, run body c' m₁ = some (o, m₂) := by
  obtain ⟨frame, hframe, hkind, hparent, hempty⟩ := h.frame_made hi
  have hfree : ∀ n, frame.isConstant n = false := fun n => by rw [Scope.isConstant, hempty]; rfl
  obtain ⟨m₁, hbegin, hflag, hlocals, hothers⟩ := beginCall_of_room name args.length
    (Evaluator.methodLocals i params args) (c := bodyContext c m) (m := withFrame m i)
    (List.mem_cons_self ..) hframe hfree hroom
  obtain ⟨hsettled, halive⟩ := h.began hi hheld hargs hbegin
  have hshape := sameShape_bindAll frame (Evaluator.methodLocals i params args) m.store.next
  refine ⟨bodyContext c m, m₁, rfl, hflag, hsettled, halive, fun x hparams hown => ?_,
    fun hfree => ?_, fun id scope hid hscope => ?_,
    fun run r m' hcall => callMethod_inv hbegin hcall⟩
  · refine .method hlocals (hshape.kind.trans hkind) (hshape.parent.trans hparent) ?_
    rw [binding?_bindAll_of_notMem (notMem_methodLocals hparams hown), hempty]
  · show m₁.store.search (fun _ scope => m₁.store.answer? receiverName scope) (m.store.next + 1)
      m.store.next = _
    have hscope : m₁.store.scope? m.store.next = _ := hlocals
    rw [Store.search, hscope]
    simp only [Store.answer?, binding?_receiverName hfree]
    rfl
  · -- The frame is the only scope that the call has made.
    have hmade : (m.store.child i.fields .method).2.scope? id = some scope :=
      hothers id scope hid hscope
    have hnew : id ≠ m.store.next := hid
    obtain ⟨parent, outer, root, hchild⟩ := m.store.child_eq_add i.fields .method
    rwa [hchild, Store.scope?_add, if_neg hnew] at hmade

end

end Proofs

end Treewalk
