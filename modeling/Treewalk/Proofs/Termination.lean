import Mathlib.Algebra.Order.BigOperators.Group.List
import Mathlib.Algebra.Order.Group.Nat
import Treewalk.Proofs.Nesting
import Treewalk.Proofs.Parts
import Treewalk.Proofs.Vicinity

/-!
# `Treewalk.Proofs.Termination`: the limit of calls makes recursion end

A body that calls itself is evaluated again and again, and no measure of
the program goes down on the way. What goes down is the number of calls
that may still be made inside of each other, and within a body the size
of the node that is evaluated: `levels * (size + 1)` steps are enough for
all calls, if no body in reach has a node larger than `size`.

`leveled` is the regime with a fixed number of levels left, the current
one included. It is not open, so what keeps it ends, and the regime of a
body is the one with a level less. Where no level is left a call is
refused, and nothing has to be known about its body. That is why the
regime without any level holds nowhere.

`depth_guard_terminates` is the result. It is about the nodes that are
tame, since loops, tasks, handlers and modules run as long as they like.
-/

set_option autoImplicit false

namespace Treewalk.Proofs

open Yields (items)

/-! ### Levels of calls -/

/-- A number of levels that is left, while evaluations end. -/
def StoreRegime.levels (g : StoreRegime) (levels : Nat) : g.Extension where
  Also σ m := σ.maxDepth - m.depth + 1 = levels
  Step m m' := g.Step m.store m'.store ∧ m'.depth = m.depth
  Open := False
  refl m := ⟨g.refl m.store, rfl⟩
  trans h h' := ⟨g.trans h.1 h'.1, h'.2.trans h.2⟩
  good_step h hi := g.good_step h.1 hi
  moved halso hmoved hdepth _ := ⟨by rw [hdepth]; exact halso, hmoved.step, hdepth⟩

/-- A store regime while a number of levels is left, under which
evaluations end. -/
abbrev StoreRegime.leveled (g : StoreRegime) (levels : Nat) : Regime :=
  (g.levels levels).regime

namespace StoreRegime

/-- A call that is not refused takes a level. -/
theorem leveled_nests (g : StoreRegime) (levels : Nat) :
    (g.leveled levels).Nests (g.leveled (levels - 1)) where
  enter {σ m} hinv hroom := by
    have hlevels : σ.maxDepth - m.depth + 1 = levels := hinv.2
    refine ⟨hinv.1, ?_⟩
    show σ.maxDepth - (m.depth + 1) + 1 = levels - 1
    omega
  leave {σ m m'} hinv hmoved := by
    obtain ⟨hstep, hdepth⟩ := hmoved.step
    have hback : m'.depth - 1 = m.depth := by
      rw [hdepth]
      rfl
    exact ⟨⟨hmoved.inv.1, by rw [hback]; exact hinv.2⟩, hstep, hback⟩
  good_enter hi := hi
  good_leave hi := hi
  opened hopen := hopen

end StoreRegime

/-! ### Small code -/

/-- Tame code of nodes up to a size. -/
def Small (size : Nat) (body : List Node) : Prop :=
  ∀ x ∈ body, x.Tame ∧ sizeOf x ≤ size

/-- The regime with a number of levels left in which all code in reach
is small. -/
abbrev steady (near : ScopeId → Prop) (size : Nat) (first : ScopeId) (levels : Nat) : Regime :=
  (vicinity near (Small size) first).leveled levels

/-- An evaluation of nodes that obeys the rules for some of them agrees
there with one that obeys them for all. -/
theorem exists_restrict {R : Custom} (h : Basics R) (ev : Evaluator) (P : Node → Prop)
    (hev : ∀ x, P x → ∀ kept loose, R Value kept loose (ev x) (ev x)) :
    ∃ ev' : Evaluator, (∀ x, P x → ev x = ev' x) ∧
      ∀ kept loose x, R Value kept loose (ev' x) (ev' x) := by
  classical
  refine ⟨fun x => if P x then ev x else pure .nil, fun x hx => (if_pos hx).symm, ?_⟩
  intro kept loose x
  dsimp only
  split
  · rename_i hx
    exact hev x hx kept loose
  · exact h.plain rfl

section
variable {near : ScopeId → Prop} {size : Nat} {first : ScopeId} {levels : Nat}
  (hnew : ∀ id, first ≤ id → near id)
include hnew

theorem steady_laws : (steady near size first levels).Laws :=
  ((vicinity near (Small size) first).levels levels).laws (vicinity_laws hnew)

theorem steady_rules : Rules (steady near size first levels).Keeps.upward :=
  (steady_laws hnew).primitives.rules

theorem steady_exporting :
    Exporting (steady near size first levels).Keeps.upward Evaluator.exportTo Evaluator.exportTo :=
  ((steady_laws hnew).exportPrimitives
    (((vicinity near (Small size) first).levels levels).exportLaws vicinity_exportLaws)).exporting

omit hnew in
/-- Small code may be made part of a value. -/
theorem steady_offers {body : List Node} (hbody : Small size body) :
    Offers (steady near size first levels).Keeps.upward body := by
  intro α _ kept loose x y hx ts hts c m hready
  refine hx (.code body :: ts) (List.cons_subset_cons _ hts) c m ?_
  exact ⟨hready.inv, hready.scope, List.forall_mem_cons.mpr ⟨hbody, hready.good⟩⟩

omit hnew in
/-- The code of what is in hand is small. -/
theorem steady_supplies {run : List Node → Eval Unit} {next : Regime}
    (hrun : ∀ body, Small size body → ∀ us, next.Keeps Unit us (run body) (run body)) :
    Supplies (steady near size first levels).Keeps.upward next.Keeps.upward run run := by
  intro α _ kept loose body x y hbrings hx ts hts c m hready
  have hin : ∀ v, Item.value v ∈ loose ++ kept → ValueIn near (Small size) v :=
    fun v hv => hready.good _ (hts hv)
  have hbody : Small size body := by
    cases hbrings with
    | spec hs => exact (hin _ hs).bodies _ (List.mem_singleton_self _)
    | @constructor i k hi hk => exact (hin _ hi).bodies _ (by simp [Value.bodies, hk])
  exact hx (fun us vs ts' _ => hrun body hbody ts') ts hts c m hready

/-! ### One node -/

variable {ev : Evaluator} {run : List Node → Eval Unit} {kept loose : List Item}

/-- The step of a bounded node whose own code is small keeps the regime,
if the evaluation of nodes does and the bodies of calls keep the one
with a level less. -/
theorem steady_step
    (hev : ∀ kept loose node,
      (steady near size first levels).Keeps.upward Value kept loose (ev node) (ev node))
    (hrun : ∀ body, Small size body → ∀ us,
      (steady near size first (levels - 1)).Keeps Unit us (run body) (run body))
    (bound : Nat) {node : Node} (hnode : node.isUnbounded = false)
    (hcode : ∀ body ∈ node.code, Small size body) :
    (steady near size first levels).Keeps.upward Value kept loose
      (Evaluator.step ev run bound node) (Evaluator.step ev run bound node) := by
  have hrules : Rules (steady near size first levels).Keeps.upward := steady_rules hnew
  have hexports : Exporting (steady near size first levels).Keeps.upward _ _ :=
    steady_exporting hnew
  have hcalling := (StoreRegime.leveled_nests (vicinity near (Small size) first) levels).calling
    (steady_laws hnew) (steady_laws hnew)
  rw [← Variant.step_own]
  cases node with
  | spec decl =>
    exact hrules.declareSpecBy hexports (steady_offers (hcode _ (List.mem_singleton_self _)))
  | blueprint decl =>
    refine hrules.declareBlueprint hev fun k hk => steady_offers (hcode _ ?_)
    simp [Node.code, hk]
  | expose name => exact hrules.exposeBy hexports name
  | trigger name message => exact fun ts _ => (steady_laws hnew).keeps_trigger name message
  | attempt parts => exact hrules.attempt hev parts
  | paral body => exact hrules.paral ((steady_laws hnew).primitives.taskRules.enqueue body)
  | listen body => exact hrules.listen hev (steady_laws hnew).primitives.taskRules.register body
  | plug name path =>
    cases path with
    | some path => cases hnode
    | none =>
      refine hrules.plug (hrules.bind (hrules.isBound name) fun b => ?_)
      cases b <;> exact hrules.done
  | traverse var start stop step body => cases hnode
  | each var range body => cases hnode
  | untilTrue condition body => cases hnode
  | bring names path => cases hnode
  | hold body => cases hnode
  | _ => exact hcalling.stepPlain (steady_supplies hrun) hev bound rfl

/-! ### All steps -/

omit hnew in
/-- Without a level left, or the current one, nothing is evaluated. -/
theorem keeps_of_no_level {α : Type} [Yields α] {ts : List Item} {x y : Eval α} :
    (steady near size first 0).Keeps α ts x y := by
  intro c m hready
  have hlevels : c.settings.maxDepth - m.depth + 1 = 0 := hready.inv.2
  omega

/-- The statements of a small body keep the regime if small nodes do. -/
theorem steady_runBlock {ev : Evaluator} {body : List Node} (hbody : Small size body)
    (hev : ∀ x, x.Tame → sizeOf x ≤ size → ∀ kept loose,
      (steady near size first levels).Keeps.upward Value kept loose (ev x) (ev x))
    (us : List Item) :
    (steady near size first levels).Keeps Unit us (Evaluator.runBlock ev body)
      (Evaluator.runBlock ev body) := by
  have hrules : Rules (steady near size first levels).Keeps.upward := steady_rules hnew
  obtain ⟨ev', hsame, hev'⟩ := exists_restrict hrules.toBasics ev (· ∈ body) fun x hx =>
    hev x (hbody x hx).1 (hbody x hx).2
  rw [Evaluator.runBlock_congr hsame]
  have hrun : (steady near size first levels).Keeps.upward Unit us []
      (Evaluator.runBlock ev' body) (Evaluator.runBlock ev' body) := hrules.runBlock hev' body
  exact hrun.all

/-- The steps that are needed: one for each node on the way down in the
current body, and a whole body more for each level that is left. -/
theorem steady_evaluate (steps levels : Nat) {node : Node} (hnode : node.Tame)
    (hsize : sizeOf node ≤ size)
    (hsteps : levels * (size + 1) + sizeOf node ≤ steps + (size + 1)) (kept loose : List Item) :
    (steady near size first levels).Keeps.upward Value kept loose (evaluate steps node)
      (evaluate steps node) := by
  induction steps generalizing levels node kept loose with
  | zero =>
    have hpos := node.sizeOf_pos
    obtain rfl | hlevels := Nat.eq_zero_or_pos levels
    · exact fun ts _ => keeps_of_no_level
    · have hone : size + 1 ≤ levels * (size + 1) := Nat.le_mul_of_pos_left _ hlevels
      omega
  | succ steps ih =>
    have hrules : Rules (steady near size first levels).Keeps.upward := steady_rules hnew
    refine hrules.visit node ?_
    -- Only the nodes inside of this one are evaluated, which are smaller.
    obtain ⟨ev, hsame, hev⟩ := exists_restrict hrules.toBasics (evaluate steps)
      (Node.Inside · node) fun x hx => by
        have hlt := hx.sizeOf_lt
        exact ih levels (hnode.inside hx) (by omega) (by omega)
    rw [Evaluator.step_congr (hnode node .self) hsame]
    -- And the bodies of calls, on the level below.
    refine steady_step hnew hev (fun body hbody us => ?_) steps (hnode node .self) ?_
    · cases levels with
      | zero => exact keeps_of_no_level
      | succ levels =>
        refine steady_runBlock hnew hbody (fun x hx hle => ih levels hx hle ?_) us
        have hpos := node.sizeOf_pos
        rw [Nat.succ_mul] at hsteps
        omega
    · intro body hbody x hx
      have hinside : Node.Inside x node := Node.inside_of_part (Node.mem_parts_of_code hbody hx)
      have hlt := hinside.sizeOf_lt
      exact ⟨hnode.inside hinside, by omega⟩

end

/-! ### Termination -/

theorem Closed.mono {near : ScopeId → Prop} {fits fits' : List Node → Prop} {s : Store}
    (h : Closed near fits s) (hfits : ∀ body, fits body → fits' body) : Closed near fits' s := by
  have hvalue : ∀ v, ValueIn near fits v → ValueIn near fits' v := fun v hv =>
    ⟨hv.scopes, fun body hbody => hfits body (hv.bodies body hbody)⟩
  intro id scope hscope hid
  have hin := h id scope hscope hid
  exact ⟨hin.links, ⟨hin.kind.scopes, fun body hbody => hfits body (hin.kind.bodies body hbody)⟩,
    fun entry hentry => hvalue _ (hin.values entry hentry)⟩

/-- There is only so much code in a store. -/
theorem exists_size (s : Store) (start : ScopeId) :
    ∃ size, ∀ body, s.HasCode start body → ∀ x ∈ body, sizeOf x ≤ size := by
  refine ⟨(s.scopes.toList.map fun entry => sizeOf entry.2.bodies).sum, ?_⟩
  rintro body ⟨id, scope, -, hscope, hbody⟩ x hx
  have hentry : (id, scope) ∈ s.scopes.toList := by
    rw [Std.TreeMap.mem_toList_iff_getElem?_eq_some]
    exact hscope
  have hscopes : sizeOf scope.bodies ≤
      (s.scopes.toList.map fun entry => sizeOf entry.2.bodies).sum :=
    List.le_sum_of_mem (List.mem_map_of_mem (f := fun entry => sizeOf entry.2.bodies) hentry)
  have hbodies := List.sizeOf_lt_of_mem hbody
  have hnodes := List.sizeOf_lt_of_mem hx
  omega

/-- The limit of calls makes recursion end. If neither a node nor a body
that can be reached has a loop, a task, a handler or a module in it, the
evaluation of the node ends, however its calls call themselves or each
other. The steps it takes grow with the levels of calls that are left,
each of which may need as many as the largest node is high. -/
theorem depth_guard_terminates {node : Node} {c : Context} {m : Machine} (hnode : node.Tame)
    (hcode : ∀ body, m.store.HasCode c.scope body → ∀ x ∈ body, x.Tame) :
    ∃ size, ∀ steps, (c.settings.maxDepth - m.depth) * (size + 1) + sizeOf node ≤ steps →
      ∃ r m', evaluate steps node c m = some (r, m') := by
  obtain ⟨largest, hlargest⟩ := exists_size m.store c.scope
  refine ⟨max (sizeOf node) largest, fun steps hsteps => ?_⟩
  have hsmall : ∀ body, m.store.HasCode c.scope body →
      Small (max (sizeOf node) largest) body := fun body hbody x hx =>
    ⟨hcode body hbody x hx, Nat.le_trans (hlargest body hbody x hx) (Nat.le_max_right ..)⟩
  let near : ScopeId → Prop := fun id => m.store.Reaches c.scope id ∨ m.store.next ≤ id
  let levels := c.settings.maxDepth - m.depth + 1
  let g := steady near (max (sizeOf node) largest) m.store.next levels
  have henough : levels * (max (sizeOf node) largest + 1) + sizeOf node ≤
      steps + (max (sizeOf node) largest + 1) := by
    rw [Nat.succ_mul]
    omega
  have hkeeps : g.Keeps.upward Value [] [] (evaluate steps node) (evaluate steps node) :=
    steady_evaluate (fun id hid => .inr hid) steps levels hnode (Nat.le_max_left ..) henough [] []
  have hready : g.Ready [] c m :=
    ⟨⟨⟨Nat.le_refl _, (closed_reaches m.store c.scope).mono hsmall⟩, rfl⟩, .inl .start,
      fun i hi => by cases hi⟩
  cases hended : evaluate steps node c m with
  | none => exact ((hkeeps.all c m hready).2.opened hended).elim
  | some last => exact ⟨last.1, last.2, rfl⟩

/-- A spec that does nothing but call itself ends. -/
theorem depth_guard_terminates_runaway :
    let again := Node.call (.var "f") []
    let f : Spec Node := ⟨1, some "f", [], [again], false, false, none⟩
    let m := Machine.single ((Scope.top .global).bind "f" ⟨.spec f, false⟩)
    let c : Context := ⟨⟨2, false, none⟩, 0, [.scope 0]⟩
    again.Tame ∧ (∀ body, m.store.HasCode c.scope body → ∀ x ∈ body, x.Tame) ∧
      ∃ size, ∀ steps, (c.settings.maxDepth - m.depth) * (size + 1) + sizeOf again ≤ steps →
        ∃ r m', evaluate steps again c m = some (r, m') := by
  intro again f m c
  have hname : (Node.var "f").Tame := Node.tame_of_parts rfl fun x hx => by cases hx
  have hnode : again.Tame := Node.tame_of_parts rfl (List.forall_mem_singleton.mpr hname)
  have hcode : ∀ body, m.store.HasCode c.scope body → ∀ x ∈ body, x.Tame := by
    rintro body ⟨id, scope, -, hscope, hbody⟩
    -- There is but one scope, and one spec in it.
    have hfound : m.store.scope? id = if id = 0 then some _ else none :=
      Store.scope?_add (Store.empty 0) _ id
    rw [hfound] at hscope
    split at hscope
    · cases hscope
      cases List.mem_singleton.mp hbody
      exact List.forall_mem_singleton.mpr hnode
    · cases hscope
  exact ⟨hnode, hcode, depth_guard_terminates hnode hcode⟩

end Treewalk.Proofs
