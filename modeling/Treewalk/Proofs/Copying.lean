import Mathlib.Data.List.Basic
import Mathlib.Data.List.Find
import Treewalk.Proofs.Assignment

/-!
# `Treewalk.Proofs.Copying`: the bindings of one scope in another

Copying declares the bindings of a scope in another one, one by one, and
goes on when a constant is in the way. The flags of the target change
meanwhile, and source and target can be the same scope. Still the state
before the copy decides all: since a source has each name once, no
binding meets another name's trace (`declareAll_spec`).

`Scope.overlay` is what the target becomes, by the recursion of the copy;
`Overlaid` says the same name by name. A second copy finds every name
either constant or bound as the source binds it, and so does nothing.

Main statement: `copying_overlays`. It also has the copy with which an
instance is made: the target is new, nothing is in the way, and it gets
the bindings just as they are.
-/

set_option autoImplicit false

namespace Treewalk

theorem Bindings.put_self {name : String} {b : Binding} {bs : Bindings}
    (h : bs.lookup name = some b) : bs.put name b = bs := by
  induction bs with
  | nil => cases h
  | cons entry rest ih =>
    obtain ⟨key, old⟩ := entry
    by_cases hkey : key = name
    · have hb : old = b := by simpa [List.lookup_cons, hkey] using h
      simp [put, hkey, hb]
    · have hrest : rest.lookup name = some b := by
        simpa [List.lookup_cons, beq_false_of_ne (Ne.symm hkey)] using h
      simp [put, hkey, ih hrest]

namespace Scope

/-- A scope after bindings have been copied into it. -/
def overlay (x : Scope) : Bindings → Scope
  | [] => x
  | (name, b) :: rest => (if x.isConstant name then x else x.bind name b).overlay rest

/-- What a name that may change is bound to keeps alive. -/
def displaced (x : Scope) (name : String) : List Ref :=
  if x.isConstant name then [] else (x.binding? name).elim [] fun b => b.value.refs

variable {x : Scope}

theorem bind_self {name : String} {b : Binding} (h : x.binding? name = some b) :
    x.bind name b = x := by
  have hput : x.bindings.put name b = x.bindings := Bindings.put_self h
  simp only [bind, hput]

theorem overlay_of_constant {name : String} (h : x.isConstant name = true) (b : Binding)
    (rest : Bindings) : x.overlay ((name, b) :: rest) = x.overlay rest := by
  rw [overlay, if_pos h]

theorem overlay_of_free {name : String} (h : x.isConstant name = false) (b : Binding)
    (rest : Bindings) : x.overlay ((name, b) :: rest) = (x.bind name b).overlay rest := by
  simp [overlay, h]

theorem displaced_of_constant {name : String} (h : x.isConstant name = true) :
    x.displaced name = [] :=
  if_pos h

theorem displaced_of_free {name : String} (h : x.isConstant name = false) :
    x.displaced name = (x.binding? name).elim [] fun b => b.value.refs := by
  simp [displaced, h]

theorem isConstant_bind_of_ne {name n : String} (h : n ≠ name) (b : Binding) :
    (x.bind name b).isConstant n = x.isConstant n := by
  rw [isConstant, isConstant, binding?_bind, if_neg h]

theorem displaced_bind_of_ne {name n : String} (h : n ≠ name) (b : Binding) :
    (x.bind name b).displaced n = x.displaced n := by
  rw [displaced, displaced, isConstant_bind_of_ne h, binding?_bind, if_neg h]

theorem mem_names_iff {n : String} : n ∈ x.names ↔ ∃ b, x.binding? n = some b := by
  constructor
  · intro h
    obtain ⟨⟨key, b⟩, hentry, rfl⟩ := List.mem_map.mp h
    exact ⟨b, binding?_of_mem hentry⟩
  · rintro ⟨b, hb⟩
    exact List.mem_map_of_mem (mem_of_binding? hb)

theorem mem_names_of_constant {n : String} (h : x.isConstant n = true) : n ∈ x.names := by
  obtain ⟨b, hb, -⟩ := Option.any_eq_true .. |>.mp h
  exact mem_names_iff.mpr ⟨b, hb⟩

/-- A scope names all that it displaces. -/
theorem mem_refs_of_displaced {n : String} {r : Ref} (h : r ∈ x.displaced n) : r ∈ x.refs := by
  unfold displaced at h
  split at h
  · cases h
  · cases hb : x.binding? n with
    | none =>
      rw [hb] at h
      cases h
    | some b =>
      rw [hb] at h
      exact List.mem_append_right _ (List.mem_flatMap.mpr ⟨(n, b), mem_of_binding? hb, h⟩)

/-! ### What an overlay binds -/

/-- A name is bound as before if it is constant or not among those that
are copied, and else as they say. -/
theorem binding?_overlay {bs : Bindings} (hnodup : (bs.map Prod.fst).Nodup) (n : String) :
    (x.overlay bs).binding? n =
      if x.isConstant n then x.binding? n else bs.lookup n <|> x.binding? n := by
  induction bs generalizing x with
  | nil => simp [overlay]
  | cons entry rest ih =>
    obtain ⟨name, b⟩ := entry
    rw [List.map_cons, List.nodup_cons] at hnodup
    rw [overlay, ih hnodup.2]
    by_cases hn : n = name
    · -- The name does not come a second time.
      subst hn
      have hrest : rest.lookup n = none := by
        refine List.lookup_eq_none_iff.mpr fun entry hentry => bne_iff_ne.mpr ?_
        intro heq
        exact hnodup.1 (List.mem_map.mpr ⟨entry, hentry, heq.symm⟩)
      cases hconstant : x.isConstant n with
      | true => simp [hconstant]
      | false => cases hb : b.constant <;>
          simp [hrest, binding?_bind, isConstant, hb]
    · rw [List.lookup_cons, beq_false_of_ne hn]
      cases hconstant : x.isConstant name with
      | true => rfl
      | false =>
        simp only [Bool.false_eq_true, if_false, isConstant_bind_of_ne hn, binding?_bind, if_neg hn]

/-- The names keep their places, and the new ones follow in their own
order. -/
theorem names_overlay {bs : Bindings} (hnodup : (bs.map Prod.fst).Nodup) :
    (x.overlay bs).names = x.names ++ (bs.map Prod.fst).filter fun n => n ∉ x.names := by
  induction bs generalizing x with
  | nil => simp [overlay]
  | cons entry rest ih =>
    obtain ⟨name, b⟩ := entry
    rw [List.map_cons, List.nodup_cons] at hnodup
    rw [overlay, ih hnodup.2, List.map_cons, List.filter_cons]
    by_cases hmem : name ∈ x.names
    · have hnames : (if x.isConstant name then x else x.bind name b).names = x.names := by
        split
        · rfl
        · rw [names_bind, if_pos hmem]
      simp [hnames, hmem]
    · have hfree : x.isConstant name = false := by
        cases hconstant : x.isConstant name with
        | false => rfl
        | true => exact absurd (mem_names_of_constant hconstant) hmem
      have hnames : (if x.isConstant name then x else x.bind name b).names =
          x.names ++ [name] := by
        simp [hfree, names_bind, hmem]
      have hfilter : (rest.map Prod.fst).filter (fun n => n ∉ x.names ++ [name]) =
          (rest.map Prod.fst).filter fun n => n ∉ x.names := by
        refine List.filter_congr fun n hn => ?_
        have hne : n ≠ name := fun heq => hnodup.1 (heq ▸ hn)
        simp [hne]
      rw [hnames, hfilter, if_pos (decide_eq_true hmem), List.append_assoc]
      rfl

/-- Where nothing is in the way, all bindings are added as they are. -/
theorem bindings_overlay_of_disjoint {bs : Bindings} (hnodup : (bs.map Prod.fst).Nodup)
    (hfree : ∀ n ∈ bs.map Prod.fst, n ∉ x.names) :
    (x.overlay bs).bindings = x.bindings ++ bs := by
  induction bs generalizing x with
  | nil => simp [overlay]
  | cons entry rest ih =>
    obtain ⟨name, b⟩ := entry
    rw [List.map_cons, List.nodup_cons] at hnodup
    have hname : name ∉ x.names := hfree name (List.mem_cons_self ..)
    have hchange : ¬ x.isConstant name = true := fun h => hname (mem_names_of_constant h)
    have hnone : x.bindings.lookup name = none := by
      cases hb : x.bindings.lookup name with
      | none => rfl
      | some old => exact absurd (mem_names_iff.mpr ⟨old, hb⟩) hname
    have hbind : (x.bind name b).bindings = x.bindings ++ [(name, b)] :=
      Bindings.put_eq_append hnone b
    rw [overlay, if_neg hchange, ih hnodup.2, hbind, List.append_assoc]
    · rfl
    · intro n hn
      have hne : n ≠ name := fun heq => hnodup.1 (heq ▸ hn)
      rw [names_bind, if_neg hname]
      simpa [hne] using hfree n (List.mem_cons_of_mem _ hn)

/-! ### Scopes that bind nothing -/

section
variable (h : x.bindings = [])
include h

theorem isConstant_of_empty (n : String) : x.isConstant n = false := by
  simp [isConstant, binding?, h]

theorem displaced_of_empty (n : String) : x.displaced n = [] := by
  simp [displaced_of_free (isConstant_of_empty h n), binding?, h]

theorem bindings_overlay_of_empty {bs : Bindings} (hnodup : (bs.map Prod.fst).Nodup) :
    (x.overlay bs).bindings = bs := by
  have hnames : x.names = [] := by simp [names, h]
  rw [bindings_overlay_of_disjoint hnodup (by simp [hnames]), h, List.nil_append]

end

/-! ### Overlays that change nothing -/

/-- An overlay with what is constant or there already changes nothing. -/
theorem overlay_eq_self {bs : Bindings}
    (h : ∀ entry ∈ bs, x.isConstant entry.1 = true ∨ x.binding? entry.1 = some entry.2) :
    x.overlay bs = x := by
  induction bs with
  | nil => rfl
  | cons entry rest ih =>
    obtain ⟨name, b⟩ := entry
    have hrest := ih fun entry hentry => h entry (List.mem_cons_of_mem _ hentry)
    rw [overlay]
    split
    · exact hrest
    · rename_i hfree
      rw [bind_self ((h _ (List.mem_cons_self ..)).resolve_left hfree)]
      exact hrest

end Scope

namespace Proofs

/-- A scope after the bindings of a source have been copied into it. -/
structure Overlaid (before source after : Scope) : Prop where
  constant {n : String} : before.isConstant n = true → after.binding? n = before.binding? n
  copied {n : String} {b : Binding} : before.isConstant n = false → source.binding? n = some b →
    after.binding? n = some b
  remaining {n : String} : source.binding? n = none → after.binding? n = before.binding? n
  names : after.names = before.names ++ source.names.filter fun n => n ∉ before.names

theorem overlaid_overlay (x source : Scope) : Overlaid x source (x.overlay source.bindings) where
  constant h := by rw [Scope.binding?_overlay source.nodup, if_pos h]
  copied {n b} h hb := by
    have hlookup : source.bindings.lookup n = some b := hb
    rw [Scope.binding?_overlay source.nodup, h, hlookup]
    rfl
  remaining {n} h := by
    have hlookup : source.bindings.lookup n = none := h
    rw [Scope.binding?_overlay source.nodup, hlookup]
    split <;> rfl
  names := Scope.names_overlay source.nodup

/-- Every name that was copied is constant now or bound as in the
source. -/
theorem Overlaid.settled {before source after : Scope} (h : Overlaid before source after)
    {entry : String × Binding} (hentry : entry ∈ source.bindings) :
    after.isConstant entry.1 = true ∨ after.binding? entry.1 = some entry.2 := by
  cases hconstant : before.isConstant entry.1 with
  | true =>
    rw [Scope.isConstant, h.constant hconstant]
    exact .inl hconstant
  | false => exact .inr (h.copied hconstant (Scope.binding?_of_mem hentry))

/-! ### The copy, binding by binding -/

section
variable {s t u : Store} {id : ScopeId} {x : Scope}

theorem Rebound.refl (hscope : s.scope? id = some x) : Rebound s s id x.bindings :=
  ⟨⟨x, x, hscope, hscope, .refl id x, rfl⟩, fun _ => rfl, fun _ => rfl⟩

theorem Rebound.trans {bs bs' : Bindings} (h : Rebound s t id bs) (h' : Rebound t u id bs') :
    Rebound s u id bs' := by
  obtain ⟨before, between, hbefore, hbetween, hshape, -⟩ := h.target
  obtain ⟨between', after, hbetween', hafter, hshape', hbindings⟩ := h'.target
  cases hbetween.symm.trans hbetween'
  exact ⟨⟨before, after, hbefore, hafter, hshape.trans id hshape', hbindings⟩,
    fun hi => (h'.others hi).trans (h.others hi),
    fun i => (h'.instances i).trans (h.instances i)⟩

/-- A scope is its shape and its bindings. -/
theorem scope_eq_of_shape {x y : Scope} (hshape : SameShape id x y)
    (hbindings : y.bindings = x.bindings) : y = x := by
  obtain ⟨hkind, hparent, houter, hroot⟩ := hshape
  cases x
  cases y
  simp_all

/-- What the scope has become is known by its bindings. -/
theorem Rebound.scope?_target {y : Scope} (h : Rebound s t id y.bindings)
    (hscope : s.scope? id = some x) (hshape : SameShape id x y) : t.scope? id = some y := by
  obtain ⟨before, after, hbefore, hafter, hsame, hbindings⟩ := h.target
  cases hscope.symm.trans hbefore
  have hboth : SameShape id y after :=
    ⟨hsame.kind.trans hshape.kind.symm, hsame.parent.trans hshape.parent.symm,
      hsame.outer.trans hshape.outer.symm, hsame.root.trans hshape.root.symm⟩
  rw [hafter, scope_eq_of_shape hboth hbindings]

/-- A store in which a scope has the bindings that it had has the same
scopes. -/
theorem Rebound.scope?_eq (h : Rebound s t id x.bindings) (hscope : s.scope? id = some x)
    (i : ScopeId) : t.scope? i = s.scope? i := by
  by_cases hi : i = id
  · rw [hi, h.scope?_target hscope (.refl id x), hscope]
  · exact h.others hi

theorem sameShape_overlay (id : ScopeId) (x : Scope) (bs : Bindings) :
    SameShape id x (x.overlay bs) := by
  induction bs generalizing x with
  | nil => exact .refl id x
  | cons entry rest ih =>
    obtain ⟨name, b⟩ := entry
    rw [Scope.overlay]
    split
    · exact ih x
    · exact SameShape.trans id (y := x.bind name b) ⟨rfl, rfl, rfl, rfl⟩ (ih _)

/-- What a run through the bindings of a source does to a live target. It
is all decided by the target as it was: what it becomes, which fault is
left, and what is let go. -/
theorem declareAll_spec {bs : Bindings} (hnodup : (bs.map Prod.fst).Nodup) {w : Written}
    (hscope : w.store.scope? id = some x) (fault : Option Fault) :
    Rebound w.store (Store.declareAll id bs w fault).1.store id (x.overlay bs).bindings ∧
      (Store.declareAll id bs w fault).2 =
        (fault <|> ((bs.map Prod.fst).find? x.isConstant).map .constant) ∧
      (Store.declareAll id bs w fault).1.freed =
        w.freed ++ bs.flatMap fun entry => x.displaced entry.1 := by
  induction bs generalizing w x fault with
  | nil => exact ⟨.refl hscope, by simp [Store.declareAll], by simp [Store.declareAll]⟩
  | cons entry rest ih =>
    obtain ⟨name, b⟩ := entry
    rw [List.map_cons, List.nodup_cons] at hnodup
    rw [List.map_cons, List.find?_cons, List.flatMap_cons]
    cases hconstant : x.isConstant name with
    | true =>
      obtain ⟨hrebound, hfault, hfreed⟩ := ih hnodup.2 hscope (fault <|> some (.constant name))
      rw [Store.declareAll, Store.declare_of_constant hscope hconstant,
        Scope.overlay_of_constant hconstant, Scope.displaced_of_constant hconstant]
      refine ⟨hrebound, hfault.trans ?_, hfreed⟩
      cases fault <;> rfl
    | false =>
      have hbound := rebound_bind hscope name b
      have hscope' : (w.store.setScope id (x.bind name b)).scope? id = some (x.bind name b) := by
        rw [Store.scope?_setScope, if_pos rfl, hscope]
        rfl
      have hne : ∀ n ∈ rest.map Prod.fst, n ≠ name := fun n hn heq => hnodup.1 (heq ▸ hn)
      have hflags : (rest.map Prod.fst).find? (x.bind name b).isConstant =
          (rest.map Prod.fst).find? x.isConstant :=
        List.find?_congr fun n hn => Scope.isConstant_bind_of_ne (hne n hn) b
      have hrest : (rest.flatMap fun entry => (x.bind name b).displaced entry.1) =
          rest.flatMap fun entry => x.displaced entry.1 :=
        List.flatMap_congr fun entry hentry =>
          Scope.displaced_bind_of_ne (hne _ (List.mem_map_of_mem hentry)) b
      rw [Store.declareAll, Store.declare_eq_of_free hscope hconstant,
        Scope.overlay_of_free hconstant, Scope.displaced_of_free hconstant, ← hflags, ← hrest,
        ← List.append_assoc]
      obtain ⟨hrebound, hfault, hfreed⟩ := ih (w := ⟨_, w.freed ++ _⟩) hnodup.2 hscope' fault
      exact ⟨hbound.trans hrebound, hfault, hfreed⟩

end

/-! ### The copy as a whole -/

section
variable {c : Context} {m : Machine} {target source : ScopeId} {x y : Scope}

/-- How a copy ends that meets the constants of a target. -/
def copyOutcome (x source : Scope) : Except Exit Unit :=
  (source.names.find? x.isConstant).elim (.ok ()) fun name => .error (.fault (.constant name))

/-- A copy from one live scope to another, or to itself. -/
theorem copyBindings_eq (hx : m.store.scope? target = some x)
    (hy : m.store.scope? source = some y) :
    let u := (m.store.copyBindings target source).1.store
    Rebound m.store u target (x.overlay y.bindings).bindings ∧
      u.scope? target = some (x.overlay y.bindings) ∧
      Eval.copyBindings target source c m = some (copyOutcome x y, { m with
        store := u.release c.held (y.bindings.flatMap fun entry => x.displaced entry.1) }) := by
  obtain ⟨hrebound, hfault, hfreed⟩ :=
    declareAll_spec y.nodup (w := ⟨m.store, []⟩) hx none
  have hcopy : m.store.copyBindings target source =
      Store.declareAll target y.bindings ⟨m.store, []⟩ none := by
    rw [Store.copyBindings, hy]
    rfl
  rw [← hcopy] at hrebound hfault hfreed
  refine ⟨hrebound, hrebound.scope?_target hx (sameShape_overlay target x y.bindings), ?_⟩
  rw [Eval.copyBindings_apply, hfault, hfreed]
  refine congrArg some (Prod.ext ?_ rfl)
  show _ = (y.names.find? x.isConstant).elim _ _
  have hnames : (y.bindings.map Prod.fst).find? x.isConstant = y.names.find? x.isConstant := rfl
  rw [hnames]
  cases y.names.find? x.isConstant <;> rfl

/-- The source stays as it is, even if it is the target. -/
theorem source_of_copied {s u : Store} (hx : s.scope? target = some x)
    (hy : s.scope? source = some y)
    (hrebound : Rebound s u target (x.overlay y.bindings).bindings) :
    u.scope? source = some y := by
  by_cases hself : source = target
  · subst hself
    cases hx.symm.trans hy
    rw [Scope.overlay_eq_self fun entry hentry => .inr (Scope.binding?_of_mem hentry)] at hrebound
    rw [hrebound.scope?_eq hx, hx]
  · rw [hrebound.others hself, hy]

/-- A copy of what is constant or there already changes nothing. -/
theorem copyBindings_of_settled (hx : m.store.scope? target = some x)
    (hy : m.store.scope? source = some y)
    (hsettled : ∀ entry ∈ y.bindings,
      x.isConstant entry.1 = true ∨ x.binding? entry.1 = some entry.2) :
    ∃ m', Eval.copyBindings target source c m = some (copyOutcome x y, m') ∧
      (∀ id, m'.store.scope? id = m.store.scope? id) ∧
      ∀ id, m'.store.instance? id = m.store.instance? id := by
  obtain ⟨hrebound, -, hcopy⟩ := copyBindings_eq (c := c) hx hy
  rw [Scope.overlay_eq_self hsettled] at hrebound
  have hscopes := hrebound.scope?_eq hx
  -- What is let go is still bound in the target.
  rw [Store.release_of_kept fun r hr => .inr ?_] at hcopy
  · exact ⟨_, hcopy, hscopes, hrebound.instances⟩
  · obtain ⟨entry, -, hmem⟩ := List.mem_flatMap.mp hr
    exact Store.refersTo_of_scope ((hscopes target).trans hx) (Scope.mem_refs_of_displaced hmem)

end

/-- When an instance of a live blueprint is made, the copy into its
fields does not fail and overwrites nothing. The fields get the bindings
of the blueprint as they are, and all other scopes stay. -/
theorem spawn_spec {s : Store} {b : Blueprint} {z : Scope} (hz : s.scope? b.scope = some z) :
    let i : Instance := ⟨s.next, b, s.next + 1⟩
    (s.addObject b).2.copyBindings i.fields b.scope = (⟨(s.spawn b).2, []⟩, none) ∧
      (s.spawn b).1 = i ∧
      (∃ fields, (s.spawn b).2.scope? i.fields = some fields ∧ fields.kind = .instance i ∧
        fields.bindings = z.bindings) ∧
      (∀ id, id ≠ i.fields → (s.spawn b).2.scope? id = s.scope? id) ∧
      ∀ id, (s.spawn b).2.instance? id = if id = s.next then some i else s.instance? id := by
  intro i
  obtain ⟨empty, hkind, -, hempty, hscopes, hinstances, -⟩ := Store.addObject_spec hz
  have hfields : (s.addObject b).2.scope? i.fields = some empty := by
    rw [hscopes, if_pos rfl]
  have hsource : (s.addObject b).2.scope? b.scope = some z := by
    rw [hscopes, if_neg (Nat.ne_of_lt (Nat.lt_succ_of_lt (Store.lt_next hz))), hz]
  have hcopy : (s.addObject b).2.copyBindings i.fields b.scope =
      Store.declareAll i.fields z.bindings ⟨(s.addObject b).2, []⟩ none := by
    rw [Store.copyBindings, hsource]
    rfl
  obtain ⟨hrebound, hfault, hfreed⟩ :=
    declareAll_spec z.nodup (w := ⟨(s.addObject b).2, []⟩) hfields none
  -- Fields that bind nothing have nothing in the way and nothing to lose.
  have hall : (s.addObject b).2.copyBindings i.fields b.scope = (⟨(s.spawn b).2, []⟩, none) := by
    refine Prod.ext ?_ ?_
    · show (_ : Written) = ⟨((s.addObject b).2.copyBindings i.fields b.scope).1.store, []⟩
      have hnil : ((s.addObject b).2.copyBindings i.fields b.scope).1.freed = [] := by
        rw [hcopy, hfreed]
        simp [Scope.displaced_of_empty hempty]
      rw [← hnil]
    · rw [hcopy, hfault]
      simp [Scope.isConstant_of_empty hempty]
  have hstore : (s.spawn b).2 = (Store.declareAll i.fields z.bindings
      ⟨(s.addObject b).2, []⟩ none).1.store := by
    rw [← hcopy, hall]
  rw [← hstore, Scope.bindings_overlay_of_empty hempty z.nodup] at hrebound
  obtain ⟨before, after, hbefore, hafter, hshape, hbound⟩ := hrebound.target
  cases hfields.symm.trans hbefore
  refine ⟨hall, rfl, ⟨after, hafter, hshape.kind.trans hkind, hbound⟩, fun id hid => ?_,
    fun id => (hrebound.instances id).trans (hinstances id)⟩
  exact (hrebound.others hid).trans ((hscopes id).trans (if_neg hid))

/-- What it is to copy the bindings of a live scope into another one, or
into itself, in any state.

* Every name that was constant in the target stays as it was. Every other
  name of the source is bound as the source binds it, with its flag, and
  the remaining names stay. The names keep their order, and the new ones
  follow in the order of the source. No other scope is changed. Then what
  was overwritten is let go, which touches nothing that is held.
* The copy fails just if a name of the source was constant in the target,
  with the first one.
* To repeat it changes nothing, if both scopes are still alive.
* When an instance of a blueprint is made, the copy into its fields does
  not fail, overwrites nothing, and gives the instance the bindings of
  the blueprint as they are. -/
theorem copying_overlays {c : Context} {m : Machine} {target source : ScopeId} {x y : Scope}
    (hx : m.store.scope? target = some x) (hy : m.store.scope? source = some y) :
    (∃ u after m', Rebound m.store u target after.bindings ∧ u.scope? target = some after ∧
      Overlaid x y after ∧ Eval.copyBindings target source c m = some (copyOutcome x y, m') ∧
      m' = { m with
        store := u.release c.held (y.bindings.flatMap fun entry => x.displaced entry.1) } ∧
      (∀ id, .scope id ∈ c.held → m'.store.scope? id = u.scope? id) ∧
      (m'.store.hasScope target = true → m'.store.hasScope source = true →
        ∃ r m'', Eval.copyBindings target source c m' = some (r, m'') ∧
          (∀ id, m''.store.scope? id = m'.store.scope? id) ∧
          ∀ id, m''.store.instance? id = m'.store.instance? id)) ∧
    ∀ b : Blueprint, b.scope = source →
      ((m.store.addObject b).2.copyBindings (m.store.addObject b).1.fields b.scope).2 = none ∧
      ∃ i m' fields, Evaluator.newInstance b c m = some (.ok i, m') ∧ i.blueprint = b ∧
        m'.store.scope? i.fields = some fields ∧ fields.kind = .instance i ∧
        fields.bindings = y.bindings ∧
        ∀ id, id ≠ i.fields → m'.store.scope? id = m.store.scope? id := by
  refine ⟨?_, fun b hb => ?_⟩
  · obtain ⟨hrebound, htarget, hcopy⟩ := copyBindings_eq (c := c) hx hy
    have hleft := (m.store.copyBindings target source).1.store.shrinks_release c.held
      (y.bindings.flatMap fun entry => x.displaced entry.1)
    refine ⟨_, _, _, hrebound, htarget, overlaid_overlay x y, hcopy, rfl, fun id hid => ?_,
      fun halive halive' => ?_⟩
    · cases hscope : (m.store.copyBindings target source).1.store.scope? id with
      | some scope => exact scope?_release_of_held _ hid hscope
      | none =>
        refine Option.eq_none_iff_forall_ne_some.mpr fun scope hafter => ?_
        cases hscope.symm.trans (hleft.scope hafter)
    · rw [Store.hasScope_eq_isSome] at halive halive'
      obtain ⟨x', hx'⟩ := Option.isSome_iff_exists.mp halive
      obtain ⟨y', hy'⟩ := Option.isSome_iff_exists.mp halive'
      -- What is left is what the copy has made and the source as it was.
      cases htarget.symm.trans (hleft.scope hx')
      cases (source_of_copied hx hy hrebound).symm.trans (hleft.scope hy')
      obtain ⟨m'', hagain, hsame⟩ := copyBindings_of_settled (c := c) hx' hy'
        fun entry => (overlaid_overlay x y).settled
      exact ⟨_, m'', hagain, hsame⟩
  · subst hb
    obtain ⟨hcopy, hfst, ⟨fields, hfields, hkind, hbindings⟩, hothers, -⟩ := spawn_spec hy
    have hnew : Evaluator.newInstance b c m =
        some (.ok ⟨m.store.next, b, m.store.next + 1⟩, { m with store := (m.store.spawn b).2 }) := by
      rw [← hfst]
      rfl
    exact ⟨congrArg Prod.snd hcopy, _, _, fields, hnew, rfl, hfields, hkind, hbindings, hothers⟩

/-- A constant is in the way of a copy, and the name after it is copied
all the same. -/
theorem copying_overlays_constant :
    let theirs : Binding := ⟨.text "theirs", true⟩
    let s := (Chronicle.ofHistory 0 [.make .global, .make .global,
      .bind 0 "k" ⟨.text "ours", true⟩, .bind 1 "k" (.ofValue .nil), .bind 1 "x" theirs]).store
    let c : Context := ⟨.standard, 0, [.scope 0, .scope 1]⟩
    let m := { Machine.single (Scope.top .global) with store := s }
    ∃ x y, s.scope? 0 = some x ∧ s.scope? 1 = some y ∧ ∃ after m',
      Eval.copyBindings 0 1 c m = some (.error (.fault (.constant "k")), m') ∧
      m'.store.scope? 0 = some after ∧ after.binding? "k" = some ⟨.text "ours", true⟩ ∧
      after.binding? "x" = some theirs ∧ after.names = ["k", "x"] := by
  intro theirs s c m
  refine ⟨_, _, rfl, rfl, ?_⟩
  obtain ⟨⟨u, after, m', -, htarget, hoverlaid, hcopy, -, hheld, -⟩, -⟩ :=
    @copying_overlays c m 0 1 _ _ rfl rfl
  refine ⟨after, m', hcopy, (hheld 0 (List.mem_cons_self ..)).trans htarget, ?_, ?_, ?_⟩
  · exact hoverlaid.constant rfl
  · exact hoverlaid.copied rfl rfl
  · exact hoverlaid.names

end Proofs

end Treewalk
