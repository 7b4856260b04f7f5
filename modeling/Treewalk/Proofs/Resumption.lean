import Mathlib.Logic.Function.Basic
import Treewalk.Proofs.StoreRegime
import Treewalk.Session.Basic

/-!
# `Treewalk.Proofs.Resumption`: where a chain goes on when a scope is gone

A scope outlives the scopes it was made in, and then its chain goes on
further up. What a scope has to find the way are three links, which it
gets when it is made: the scope it was made in, the nearest one above
that is no frame, and the topmost one.

`Change` lists all that can happen to scopes, and a history is a list of
changes in any order. A chronicle records beside the store where every
scope was made, also of the scopes that are gone, so the ancestors of a
scope can be spoken of whatever has been released. `chain_resumes` says
which of them encloses a scope after any history, and that nothing but
such a history happens while a program runs.

Three links are not enough to find the nearest ancestor that survives
and is no frame. When the nearest one is gone, the chain goes on at the
top, past all that lie between. `chain_skips_ancestor` is the smallest
such history.
-/

set_option autoImplicit false

namespace Treewalk.Proofs

/-! ### Histories -/

/-- What can happen to scopes: one is made on its own or in another one,
an instance is made, a name is bound, and references are let go while
others are held. -/
inductive Change where
  | make (kind : ScopeKind)
  | makeIn (above : ScopeId) (kind : ScopeKind)
  | makeInstance (i : InstanceId → Instance)
  | bind (id : ScopeId) (name : String) (b : Binding)
  | letGo (held refs : List Ref)

/-- The store after a change. A write that is refused changes
nothing. -/
def Change.apply (s : Store) : Change → Store
  | make kind => (s.add (Scope.top kind)).2
  | makeIn above kind => (s.child above kind).2
  | makeInstance i => (s.addInstance i).2
  | bind id name b =>
    match s.declare id name b with
    | .ok w => w.store
    | .error _ => s
  | letGo held refs => s.release held refs

/-- A scope in which another one was made, at once or through others in
between. -/
structure Ancestor where
  id : ScopeId
  isFrame : Bool

/-- A store, and of every scope that was ever made the scopes in which
it was made, nearest first. -/
structure Chronicle where
  store : Store
  ancestors : ScopeId → List Ancestor

namespace Chronicle

/-- The chronicle before anything was made. -/
def start (first : ScopeId) : Chronicle :=
  ⟨.empty first, fun _ => []⟩

/-- The ancestors of what is made in a scope. Nothing is made in a scope
that is gone. -/
def lineBelow (ch : Chronicle) (above : ScopeId) : List Ancestor :=
  match ch.store.scope? above with
  | none => []
  | some scope => ⟨above, scope.kind.isFrame⟩ :: ch.ancestors above

/-- The chronicle after a change. -/
def after (ch : Chronicle) (change : Change) : Chronicle where
  store := change.apply ch.store
  ancestors :=
    match change with
    | .make _ => Function.update ch.ancestors ch.store.next []
    | .makeIn above _ => Function.update ch.ancestors ch.store.next (ch.lineBelow above)
    | _ => ch.ancestors

/-- The chronicle after a history that began with an empty store. -/
def ofHistory (first : ScopeId) (history : List Change) : Chronicle :=
  history.foldl after (start first)

end Chronicle

/-! ### Links -/

/-- The nearest ancestor that is no frame. -/
def nearestHome? (line : List Ancestor) : Option ScopeId :=
  (line.find? fun a => !a.isFrame).map Ancestor.id

/-- The nearest ancestor that is alive and no frame. -/
def nearestLiving? (alive : ScopeId → Bool) (line : List Ancestor) : Option ScopeId :=
  (line.find? fun a => !a.isFrame && alive a.id).map Ancestor.id

/-- The scope that a scope was made in. -/
def nearest? (line : List Ancestor) : Option ScopeId :=
  line.head?.map Ancestor.id

/-- The topmost ancestor. -/
def topmost? (line : List Ancestor) : Option ScopeId :=
  line.getLast?.map Ancestor.id

/-- Where a chain goes on by the three links. -/
def resumption (alive : ScopeId → Bool) (line : List Ancestor) : Option ScopeId :=
  ((nearest? line).filter alive).or
    (((nearestHome? line).filter alive).or ((topmost? line).filter alive))

/-- Where a chain would go on if no surviving ancestor but frames were
passed over. -/
def fullResumption (alive : ScopeId → Bool) (line : List Ancestor) : Option ScopeId :=
  ((nearest? line).filter alive).or ((nearestLiving? alive line).or ((topmost? line).filter alive))

/-- The links of a scope are three of its ancestors. -/
structure Linked (scope : Scope) (line : List Ancestor) : Prop where
  parent : scope.parent = nearest? line
  outer : scope.outer = nearestHome? line
  root : scope.root = topmost? line

/-- A scope with the links of another one is linked as that is. -/
theorem Linked.of_eq {x y : Scope} {line : List Ancestor} (h : Linked x line)
    (hparent : y.parent = x.parent) (houter : y.outer = x.outer) (hroot : y.root = x.root) :
    Linked y line :=
  ⟨hparent.trans h.parent, houter.trans h.outer, hroot.trans h.root⟩

/-- The links of a scope made in another one, from the links of that. -/
theorem Linked.below {above : ScopeId} {scope : Scope} {line : List Ancestor}
    (h : Linked scope line) (kind : ScopeKind) :
    Linked
      (Scope.fresh kind (some above) (if scope.kind.isFrame then scope.outer else some above)
        (scope.root <|> some above))
      (⟨above, scope.kind.isFrame⟩ :: line) where
  parent := rfl
  outer := by
    cases hframe : scope.kind.isFrame with
    | false => simp [Scope.fresh, nearestHome?]
    | true => simp [Scope.fresh, nearestHome?, h.outer]
  root := by
    show (scope.root <|> some above) = _
    rw [h.root, topmost?, topmost?, List.getLast?_cons]
    cases line.getLast? <;> rfl

/-- The scope that encloses a scope is the first link that is alive. -/
theorem enclosing?_eq_resumption {s : Store} {scope : Scope} {line : List Ancestor}
    (h : Linked scope line) : s.enclosing? scope = resumption s.hasScope line := by
  have hfind : ∀ o : Option ScopeId, o.toList.find? s.hasScope = o.filter s.hasScope := by
    intro o
    cases o with
    | none => rfl
    | some id => cases hid : s.hasScope id <;> simp [hid, Option.filter]
  rw [Store.enclosing?, Scope.links, List.find?_append, List.find?_append, hfind, hfind, hfind,
    h.parent, h.outer, h.root, Option.or_assoc]
  rfl

/-! ### The invariant of a history -/

/-- The links of the live scopes are as the chronicle has it. -/
def Faithful (ch : Chronicle) : Prop :=
  ∀ id scope, ch.store.scope? id = some scope → Linked scope (ch.ancestors id)

/-- A scope that has kept its links. -/
def SameLinks (_ : ScopeId) (x y : Scope) : Prop :=
  y.parent = x.parent ∧ y.outer = x.outer ∧ y.root = x.root

theorem SameLinks.refl (id : ScopeId) (x : Scope) : SameLinks id x x :=
  ⟨rfl, rfl, rfl⟩

/-- A change that makes no scope leaves the links as they are. -/
theorem Faithful.of_evolves {ch : Chronicle} {t : Store} (h : Faithful ch)
    (hevolves : Evolves SameLinks ch.store t)
    (hold : ∀ id scope, t.scope? id = some scope → id < ch.store.next) :
    Faithful ⟨t, ch.ancestors⟩ := by
  intro id scope hscope
  obtain ⟨before, hbefore, hparent, houter, hroot⟩ :=
    hevolves.scope hscope (hold id scope hscope)
  exact (h id before hbefore).of_eq hparent houter hroot

/-- A new scope is linked as it is entered. -/
theorem Faithful.add {ch : Chronicle} (h : Faithful ch) {scope : Scope} {line : List Ancestor}
    (hscope : Linked scope line) :
    Faithful ⟨(ch.store.add scope).2, Function.update ch.ancestors ch.store.next line⟩ := by
  intro id found hfound
  have hfound' : (ch.store.add scope).2.scope? id = some found := hfound
  rw [Store.scope?_add] at hfound'
  split at hfound'
  · rename_i hid
    cases hfound'
    simpa [hid] using hscope
  · rename_i hid
    simpa [Function.update_of_ne hid] using h id found hfound'

/-- A scope made on its own has no links. -/
theorem Linked.top (kind : ScopeKind) : Linked (Scope.top kind) [] :=
  ⟨rfl, rfl, rfl⟩

theorem Faithful.makeIn {ch : Chronicle} (h : Faithful ch) (above : ScopeId) (kind : ScopeKind) :
    Faithful (ch.after (.makeIn above kind)) := by
  show Faithful ⟨(ch.store.child above kind).2,
    Function.update ch.ancestors ch.store.next (ch.lineBelow above)⟩
  unfold Chronicle.lineBelow Store.child
  cases hscope : ch.store.scope? above with
  | none => exact h.add (.top kind)
  | some scope => exact h.add ((h above scope hscope).below kind)

/-- A name that is bound or refused leaves the links as they are. -/
theorem Faithful.bind {ch : Chronicle} (h : Faithful ch) (id : ScopeId) (name : String)
    (b : Binding) : Faithful (ch.after (.bind id name b)) := by
  show Faithful ⟨Change.apply ch.store (.bind id name b), ch.ancestors⟩
  cases hw : ch.store.declare id name b with
  | error f =>
    rw [Change.apply, hw]
    exact h
  | ok w =>
    rw [Change.apply, hw]
    have hevolves : Evolves SameLinks ch.store w.store :=
      .declare SameLinks.refl hw fun scope _ _ => SameLinks.refl id scope
    refine h.of_evolves hevolves fun i scope hscope => ?_
    rw [← Store.next_declare hw]
    exact Store.lt_next hscope

/-- One change keeps the links of all scopes that stay, and enters those
of a new one. -/
theorem Faithful.after {ch : Chronicle} (h : Faithful ch) (change : Change) :
    Faithful (ch.after change) := by
  cases change with
  | make kind => exact h.add (.top kind)
  | makeIn above kind => exact h.makeIn above kind
  | makeInstance i => exact fun id scope hscope => h id scope hscope
  | bind id name b => exact h.bind id name b
  | letGo held refs =>
    have hshrinks := ch.store.shrinks_release held refs
    refine h.of_evolves (.release SameLinks.refl _ held refs) fun id scope hscope => ?_
    exact Store.lt_next (hshrinks.scope hscope)

/-- After any history the links are as the chronicle has it. -/
theorem faithful_ofHistory (first : ScopeId) (history : List Change) :
    Faithful (.ofHistory first history) := by
  have hstart : Faithful (.start first) := fun id scope hscope => by
    cases (Store.scope?_empty first id).symm.trans hscope
  exact List.foldlRecOn history Chronicle.after hstart fun ch h change _ => h.after change

/-! ### What the links pass over -/

/-- If the nearest ancestor that is no frame is alive, no other one is
nearer. -/
theorem nearestLiving?_of_home {alive : ScopeId → Bool} {line : List Ancestor} {id : ScopeId}
    (h : (nearestHome? line).filter alive = some id) : nearestLiving? alive line = some id := by
  induction line with
  | nil => cases h
  | cons first rest ih =>
    cases hframe : first.isFrame with
    | true =>
      have hrest := ih (by simpa [nearestHome?, hframe] using h)
      simpa [nearestLiving?, hframe] using hrest
    | false =>
      have hfirst : first.id = id ∧ alive id = true := by
        simpa [nearestHome?, hframe, Option.filter_eq_some_iff] using h
      simp [nearestLiving?, hframe, hfirst]

theorem alive_of_nearestLiving? {alive : ScopeId → Bool} {line : List Ancestor} {id : ScopeId}
    (h : nearestLiving? alive line = some id) : alive id = true := by
  obtain ⟨a, ha, rfl⟩ := Option.map_eq_some_iff.mp h
  have hfound := List.find?_some ha
  simp only [Bool.and_eq_true] at hfound
  exact hfound.2

/-- The three links pass over no surviving ancestor but frames: the
first or the second one is alive, or there is nothing to pass over
below the top. -/
def PassesNone (alive : ScopeId → Bool) (line : List Ancestor) : Prop :=
  ((nearest? line).filter alive).isSome ∨ ((nearestHome? line).filter alive).isSome ∨
    nearestLiving? alive line = none ∨ nearestLiving? alive line = topmost? line

/-- The links go where a search of all ancestors would go exactly if
they pass over none. -/
theorem resumption_eq_full_iff (alive : ScopeId → Bool) (line : List Ancestor) :
    resumption alive line = fullResumption alive line ↔ PassesNone alive line := by
  unfold resumption fullResumption PassesNone
  cases hnearest : (nearest? line).filter alive with
  | some id => simp
  | none =>
    cases hhome : (nearestHome? line).filter alive with
    | some id => simp [nearestLiving?_of_home hhome]
    | none =>
      cases hliving : nearestLiving? alive line with
      | none => simp
      | some id =>
        -- Both links are gone, so the chain goes on at the top, alive or not.
        have halive := alive_of_nearestLiving? hliving
        have htop : (topmost? line).filter alive = some id ↔ some id = topmost? line := by
          rw [Option.filter_eq_some_iff, @eq_comm _ (some id)]
          exact and_iff_left halive
        simpa using htop

/-! ### Programs make histories -/

/-- A program does nothing to scopes but what makes a history. -/
def byChanges : StoreRegime where
  Inv _ := True
  Step s t := ∃ history : List Change, t = history.foldl Change.apply s
  Good _ _ := True
  refl _ := ⟨[], rfl⟩
  trans := by
    rintro s t u ⟨first, rfl⟩ ⟨second, rfl⟩
    exact ⟨first ++ second, (List.foldl_append ..).symm⟩
  good_step _ _ := trivial

theorem byChanges_moved (s : Store) (change : Change) : byChanges.Moved s (change.apply s) :=
  ⟨trivial, [change], rfl⟩

/-- A write that succeeds is a change. -/
theorem byChanges_declare {s : Store} {id : ScopeId} {name : String} {b : Binding} {w : Written}
    (hw : s.declare id name b = .ok w) : byChanges.Moved s w.store := by
  have hmoved := byChanges_moved s (.bind id name b)
  rwa [Change.apply, hw] at hmoved

theorem byChanges_laws : byChanges.Laws where
  data _ := trivial
  spec _ := trivial
  blueprint _ _ _ _ _ := trivial
  toolkit _ _ _ _ _ := trivial
  bridge _ _ _ := trivial
  exit _ := trivial
  seen _ _ _ := trivial
  above _ _ _ _ := trivial
  bound _ _ _ _ := trivial
  owner _ _ _ _ := trivial
  release {s} held refs _ := byChanges_moved s (.letGo held refs)
  declare _ _ _ _ hw := byChanges_declare hw
  assign _ _ _ hw := byChanges_declare hw
  newExports {s} _ := ⟨byChanges_moved s (.make .exports), trivial⟩
  newChild {s _ above kind} _ _ _ _ := ⟨byChanges_moved s (.makeIn above kind), trivial, trivial⟩
  newObject {s b} _ _ := by
    have hmade := byChanges_moved s (.makeInstance fun id => ⟨id, b, id + 1⟩)
    have hfields := byChanges_moved (s.addInstance fun id => ⟨id, b, id + 1⟩).2
      (.makeIn b.scope (.instance (s.addObject b).1))
    exact ⟨⟨trivial, byChanges.trans hmade.step hfields.step⟩, trivial⟩

theorem byChanges_nodeLaws : byChanges.NodeLaws where
  exports _ _ _ _ := trivial
  exportIn _ _ _ hw := byChanges_declare hw
  code _ := trivial

theorem Chronicle.store_foldl (ch : Chronicle) (history : List Change) :
    (history.foldl Chronicle.after ch).store = history.foldl Change.apply ch.store := by
  induction history generalizing ch with
  | nil => rfl
  | cons change rest ih => exact ih (ch.after change)

/-- What continues a history continues its chronicle. -/
theorem Chronicle.ofHistory_append (first : ScopeId) (history more : List Change) :
    (ofHistory first (history ++ more)).store =
      more.foldl Change.apply (ofHistory first history).store := by
  rw [ofHistory, List.foldl_append, store_foldl]
  rfl

theorem history_of_keeps {α : Type} [Yields α] {first : ScopeId} {history : List Change}
    {x : Eval α} (hx : byChanges.toRegime.Keeps α [] x x) {c : Context} {m m' : Machine}
    {r : Except Exit α} (hm : m.store = (Chronicle.ofHistory first history).store)
    (h : x c m = some (r, m')) :
    ∃ more, m'.store = (Chronicle.ofHistory first (history ++ more)).store := by
  obtain ⟨more, hmore⟩ := (hx.ended trivial trivial h).step
  refine ⟨more, ?_⟩
  rw [Chronicle.ofHistory_append, ← hm, hmore]

/-! ### Where chains go on -/

/-- Where a chain goes on. After any history, the scope that encloses a
live scope is the one it was made in, if that is alive; else the nearest
of its ancestors that is no frame, if that is alive; else the topmost
one, if that is alive. This is the nearest surviving ancestor but frames
unless the links pass over one.

The scopes of a new interpreter have such a history, and whatever is
evaluated continues it. -/
theorem chain_resumes (first : ScopeId) (history : List Change) :
    let ch := Chronicle.ofHistory first history
    (∀ id scope, ch.store.scope? id = some scope →
      ch.store.enclosing? scope = resumption ch.store.hasScope (ch.ancestors id) ∧
      (ch.store.enclosing? scope = fullResumption ch.store.hasScope (ch.ancestors id) ↔
        PassesNone ch.store.hasScope (ch.ancestors id))) ∧
    (∀ settings out err input, (Session.start settings out err input first).machine.store =
      (Chronicle.ofHistory first [.make .global]).store) ∧
    ∀ (steps : Nat) (c : Context) (m : Machine), m.store = ch.store →
      (∀ node r m', evaluate steps node c m = some (r, m') →
        ∃ more, m'.store = (Chronicle.ofHistory first (history ++ more)).store) ∧
      ∀ program r m', runProgram (evaluate steps) program c m = some (r, m') →
        ∃ more, m'.store = (Chronicle.ofHistory first (history ++ more)).store := by
  intro ch
  refine ⟨fun id scope hscope => ?_, fun _ _ _ _ => rfl, fun steps c m hm => ?_⟩
  · have hlinks : ch.store.enclosing? scope = resumption ch.store.hasScope (ch.ancestors id) :=
      enclosing?_eq_resumption (faithful_ofHistory first history id scope hscope)
    exact ⟨hlinks, hlinks ▸ resumption_eq_full_iff _ _⟩
  · have hcong := byChanges_laws.congruence byChanges_nodeLaws
    have hev := hcong.evaluate steps
    exact ⟨fun node r m' h => history_of_keeps (hev [] node) hm h,
      fun program r m' h => history_of_keeps (hcong.runProgram hev program) hm h⟩

/-- A blueprint in a bridge in another bridge, once the inner bridge is
gone. -/
def passedOver : List Change :=
  [.make .global, .makeIn 0 .bridge, .makeIn 1 .bridge, .makeIn 2 .blueprint,
    .letGo [.scope 0, .scope 1, .scope 3] [.scope 2]]

theorem chain_resumes_top :
    let ch := Chronicle.ofHistory 0 passedOver
    ∃ scope, ch.store.scope? 3 = some scope ∧ ch.store.enclosing? scope = some 0 := by
  refine ⟨_, rfl, ?_⟩
  rw [((chain_resumes 0 passedOver).1 3 _ rfl).1]
  rfl

/-- The outer bridge is alive and no frame, and the chain of the
blueprint goes past it. -/
theorem chain_skips_ancestor :
    ¬ ∀ (first : ScopeId) (history : List Change) (id : ScopeId) (scope : Scope),
      let ch := Chronicle.ofHistory first history
      ch.store.scope? id = some scope →
        ch.store.enclosing? scope = fullResumption ch.store.hasScope (ch.ancestors id) := by
  intro hall
  have hskipped := hall 0 passedOver 3 _ rfl
  exact absurd hskipped (by decide)

end Treewalk.Proofs
