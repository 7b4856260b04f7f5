import Treewalk.Value.Operator

/-!
# `Treewalk.Proofs.TypedEquality`: equal values cannot be told apart

Two numbers are equal if they are the same but for the sign of zero, and
what is no number is equal to nothing (`SameNumber`). `Same` says of each
kind what its values agree in when they are equal, so the laws of equality
are read off it kind by kind.

Nothing that looks at a value sees more than that. The sign of zero is
all that equal numbers differ in, and neither texts nor conditions show
it. So equal values are `Indistinct`.

Main statement: `equality_observed`.
-/

set_option autoImplicit false

namespace Treewalk

open Float.Model (UnpackedFloat)
open Float.Model.UnpackedFloat (Sign)

namespace Proofs

/-! ### Equal numbers -/

/-- Two decoded numbers that are the same, the sign of zero apart. -/
inductive SameNumber : UnpackedFloat → UnpackedFloat → Prop
  | infinity (s : Sign) : SameNumber (.infinity s) (.infinity s)
  | zero (s t : Sign) : SameNumber (.zero s) (.zero t)
  | finite (s : Sign) (m : Nat) (e : Int) (hm : 0 < m) :
    SameNumber (.finite s m e hm) (.finite s m e hm)

theorem compare_magnitude_eq {m m' : Nat} {e e' : Int}
    (h : (compare e e').then (compare m m') = .eq) : e = e' ∧ m = m' := by
  obtain ⟨he, hm⟩ := Ordering.then_eq_eq.mp h
  exact ⟨Std.LawfulEqOrd.compare_eq_iff_eq.mp he, Std.LawfulEqOrd.compare_eq_iff_eq.mp hm⟩

/-- What compares as equal is the same number. -/
theorem sameNumber_of_compare {u v : UnpackedFloat} (h : u.compare v = some .eq) :
    SameNumber u v := by
  cases u with
  | notANumber => cases h
  | infinity s =>
    cases v with
    | infinity t => cases s <;> cases t <;> first | exact .infinity _ | cases h
    | _ => cases s <;> cases h
  | zero s =>
    cases v with
    | zero t => exact .zero s t
    | infinity t => cases t <;> cases h
    | finite t m e hm => cases t <;> cases h
    | notANumber => cases h
  | finite s m e hm =>
    cases v with
    | finite t m' e' hm' =>
      -- The magnitudes are compared only under one sign.
      cases s <;> cases t
      · have hswap : ((compare e e').then (compare m m')).swap = .eq := Option.some.inj h
        obtain ⟨rfl, rfl⟩ := compare_magnitude_eq (Ordering.swap_eq_eq.mp hswap)
        exact .finite ..
      · cases h
      · cases h
      · obtain ⟨rfl, rfl⟩ := compare_magnitude_eq (Option.some.inj h)
        exact .finite ..
    | infinity t => cases s <;> cases t <;> cases h
    | zero t => cases s <;> cases h
    | notANumber => cases s <;> cases h

namespace SameNumber

variable {u v w : UnpackedFloat}

theorem compare_eq (h : SameNumber u v) : u.compare v = some .eq := by
  cases h with
  | infinity s => cases s <;> rfl
  | zero s t => rfl
  | finite s m e hm =>
    have hsame : (compare e e).then (compare m m) = .eq := by simp
    cases s with
    | positive => exact congrArg some hsame
    | negative => exact congrArg (fun o => some o.swap) hsame

theorem symm (h : SameNumber u v) : SameNumber v u := by
  cases h with
  | infinity s => exact .infinity s
  | zero s t => exact .zero t s
  | finite s m e hm => exact .finite s m e hm

theorem trans (h : SameNumber u v) (h' : SameNumber v w) : SameNumber u w := by
  cases h with
  | infinity s => exact h'
  | zero s t =>
    cases h'
    exact .zero ..
  | finite s m e hm => exact h'

/-- Only what is no number is not the same as itself. -/
theorem self_iff : SameNumber u u ↔ u.isNaN = false := by
  cases u with
  | notANumber => exact iff_of_false (fun h => by cases h) (by decide)
  | infinity s => exact iff_of_true (.infinity s) rfl
  | zero s => exact iff_of_true (.zero s s) rfl
  | finite s m e hm => exact iff_of_true (.finite s m e hm) rfl

/-- The sign of zero is not written. -/
theorem renderUnpacked_eq (h : SameNumber u v) :
    Number.renderUnpacked u = Number.renderUnpacked v := by
  cases h <;> rfl

end SameNumber

/-- Doubles are equal if what they decode to is the same number. -/
theorem beq_iff_sameNumber {x y : Float} :
    (x == y) = true ↔ SameNumber x.toModel.unpack y.toModel.unpack := by
  show (x.toModel.compare y.toModel == some .eq) = true ↔ _
  rw [beq_iff_eq]
  exact ⟨sameNumber_of_compare, SameNumber.compare_eq⟩

section
variable {x y z : Float}

theorem number_symm (h : (x == y) = true) : (y == x) = true :=
  beq_iff_sameNumber.mpr (beq_iff_sameNumber.mp h).symm

theorem number_trans (h : (x == y) = true) (h' : (y == z) = true) : (x == z) = true :=
  beq_iff_sameNumber.mpr ((beq_iff_sameNumber.mp h).trans (beq_iff_sameNumber.mp h'))

theorem number_self_iff : (x == x) = true ↔ x.isNaN = false :=
  beq_iff_sameNumber.trans SameNumber.self_iff

theorem render_eq (h : (x == y) = true) : Number.render x = Number.render y :=
  (beq_iff_sameNumber.mp h).renderUnpacked_eq

/-- Equal numbers are equal to the same numbers. -/
theorem beq_congr (h : (x == y) = true) (z : Float) : (x == z) = (y == z) :=
  Bool.eq_iff_iff.mpr ⟨number_trans (number_symm h), number_trans h⟩

end

/-! ### Equal values -/

/-- What two values agree in if they are equal. -/
inductive Same : Value → Value → Prop
  | nil : Same .nil .nil
  | bool (b : Bool) : Same (.bool b) (.bool b)
  | number {x y : Float} (same : (x == y) = true) : Same (.number x) (.number y)
  | text (s : String) : Same (.text s) (.text s)
  | range {start stop start' stop' : Float} (first : (start == start') = true)
    (last : (stop == stop') = true) : Same (.range start stop) (.range start' stop')
  | spec {s t : Spec Node} (number : s.number = t.number) (name : s.name = t.name) :
    Same (.spec s) (.spec t)
  | blueprint {a b : Blueprint} (scope : a.scope = b.scope) (name : a.name = b.name) :
    Same (.blueprint a) (.blueprint b)
  | object {a b : Instance} (id : a.id = b.id) (name : a.blueprint.name = b.blueprint.name) :
    Same (.object a) (.object b)
  | toolkit {a b : Toolkit} (scope : a.scope = b.scope) (name : a.name = b.name) :
    Same (.toolkit a) (.toolkit b)
  | bridge {a b : Bridge} (scope : a.scope = b.scope) (name : a.name = b.name) :
    Same (.bridge a) (.bridge b)

/-- Equality compares just that. -/
theorem beq_iff_same {a b : Value} : (a == b) = true ↔ Same a b := by
  show a.same b = true ↔ _
  constructor
  · intro h
    unfold Value.same at h
    split at h
    · exact .nil
    · cases eq_of_beq h
      exact .bool _
    · exact .number h
    · cases eq_of_beq h
      exact .text _
    · obtain ⟨hfirst, hlast⟩ := Bool.and_eq_true_iff.mp h
      exact .range hfirst hlast
    · obtain ⟨hnumber, hname⟩ := Bool.and_eq_true_iff.mp h
      exact .spec (eq_of_beq hnumber) (eq_of_beq hname)
    · obtain ⟨hscope, hname⟩ := Bool.and_eq_true_iff.mp h
      exact .blueprint (eq_of_beq hscope) (eq_of_beq hname)
    · obtain ⟨hid, hname⟩ := Bool.and_eq_true_iff.mp h
      exact .object (eq_of_beq hid) (eq_of_beq hname)
    · obtain ⟨hscope, hname⟩ := Bool.and_eq_true_iff.mp h
      exact .toolkit (eq_of_beq hscope) (eq_of_beq hname)
    · obtain ⟨hscope, hname⟩ := Bool.and_eq_true_iff.mp h
      exact .bridge (eq_of_beq hscope) (eq_of_beq hname)
    · cases h
  · intro h
    cases h <;> simp_all [Value.same]

namespace Same

variable {a b c : Value}

theorem symm (h : Same a b) : Same b a := by
  cases h with
  | nil => exact .nil
  | bool => exact .bool _
  | number same => exact .number (number_symm same)
  | text => exact .text _
  | range first last => exact .range (number_symm first) (number_symm last)
  | spec number name => exact .spec number.symm name.symm
  | blueprint scope name => exact .blueprint scope.symm name.symm
  | object id name => exact .object id.symm name.symm
  | toolkit scope name => exact .toolkit scope.symm name.symm
  | bridge scope name => exact .bridge scope.symm name.symm

theorem trans (h : Same a b) (h' : Same b c) : Same a c := by
  cases h with
  | nil => exact h'
  | bool => exact h'
  | number same =>
    cases h' with
    | number same' => exact .number (number_trans same same')
  | text => exact h'
  | range first last =>
    cases h' with
    | range first' last' => exact .range (number_trans first first') (number_trans last last')
  | spec number name =>
    cases h' with
    | spec number' name' => exact .spec (number.trans number') (name.trans name')
  | blueprint scope name =>
    cases h' with
    | blueprint scope' name' => exact .blueprint (scope.trans scope') (name.trans name')
  | object id name =>
    cases h' with
    | object id' name' => exact .object (id.trans id') (name.trans name')
  | toolkit scope name =>
    cases h' with
    | toolkit scope' name' => exact .toolkit (scope.trans scope') (name.trans name')
  | bridge scope name =>
    cases h' with
    | bridge scope' name' => exact .bridge (scope.trans scope') (name.trans name')

end Same

/-- Whether a value is no number, or a range that ends at none. -/
def hasNaN : Value → Bool
  | .number x => x.isNaN
  | .range start stop => start.isNaN || stop.isNaN
  | _ => false

theorem same_self_iff {a : Value} : Same a a ↔ hasNaN a = false := by
  cases a with
  | nil => exact iff_of_true .nil rfl
  | bool b => exact iff_of_true (.bool b) rfl
  | number x =>
    refine Iff.trans ⟨fun h => ?_, .number⟩ number_self_iff
    cases h with
    | number same => exact same
  | text s => exact iff_of_true (.text s) rfl
  | range start stop =>
    rw [hasNaN, Bool.or_eq_false_iff, ← number_self_iff, ← number_self_iff]
    refine ⟨fun h => ?_, fun h => .range h.1 h.2⟩
    cases h with
    | range first last => exact ⟨first, last⟩
  | spec s => exact iff_of_true (.spec rfl rfl) rfl
  | blueprint b => exact iff_of_true (.blueprint rfl rfl) rfl
  | object i => exact iff_of_true (.object rfl rfl) rfl
  | toolkit t => exact iff_of_true (.toolkit rfl rfl) rfl
  | bridge b => exact iff_of_true (.bridge rfl rfl) rfl

/-! ### What can be seen of a value -/

/-- Two values that look alike: the name of their kind, their truth, their
texts, and all tests of their kind. -/
structure Indistinct (a b : Value) : Prop where
  kindName : a.kind.name = b.kind.name
  truth : a.truth = b.truth
  display : a.display = b.display
  packItem : a.packItem = b.packItem
  debug : a.debug = b.debug
  isKind (r : Value) : a.applyBinary "is" r = b.applyBinary "is" r

/-- A test of the kind sees the kind only, and so do the faults of tests. -/
theorem isKind_congr {a b : Value} (h : a.kind = b.kind) (r : Value) :
    a.applyBinary "is" r = b.applyBinary "is" r := by
  have htest : a.testKind r = b.testKind r := by
    unfold Value.testKind
    rw [h]
  show (do let t ← a.testKind r; .ok (Value.bool t)) = (do let t ← b.testKind r; .ok (Value.bool t))
  rw [htest]

namespace Same

variable {a b : Value} (h : Same a b)
include h

theorem kind_eq : a.kind = b.kind := by
  cases h <;> rfl

theorem truth_eq : a.truth = b.truth := by
  cases h with
  | number same =>
    -- A number counts as true if it is not equal to zero.
    show (!(_ == _)) = !(_ == _)
    rw [beq_congr same]
  | _ => rfl

theorem display_eq : a.display = b.display := by
  cases h with
  | number same => exact render_eq same
  | range first last => simp only [Value.display, render_eq first, render_eq last]
  | spec _ name => simp only [Value.display, Spec.displayName, name]
  | blueprint _ name | toolkit _ name | bridge _ name => simp only [Value.display, name]
  | object _ name => simp only [Value.display, name]
  | _ => rfl

/-- The other texts are those that are displayed, but for texts, which are
equal only to themselves. -/
theorem packItem_eq : a.packItem = b.packItem := by
  have hdisplay := h.display_eq
  cases h <;> first | rfl | exact hdisplay

theorem debug_eq : a.debug = b.debug := by
  have hdisplay := h.display_eq
  cases h <;> first | rfl | exact hdisplay

theorem indistinct : Indistinct a b where
  kindName := congrArg Kind.name h.kind_eq
  truth := h.truth_eq
  display := h.display_eq
  packItem := h.packItem_eq
  debug := h.debug_eq
  isKind := isKind_congr h.kind_eq

end Same

/-- Equality is symmetric and transitive, and reflexive on all values but
those that are no numbers or ranges that end at none. Values that are
equal cannot be told apart. -/
theorem equality_observed :
    (∀ a b : Value, (a == b) = true → (b == a) = true) ∧
      (∀ a b c : Value, (a == b) = true → (b == c) = true → (a == c) = true) ∧
      (∀ a : Value, (a == a) = true ↔ hasNaN a = false) ∧
      ∀ a b : Value, (a == b) = true → Indistinct a b := by
  simp only [beq_iff_same]
  exact ⟨fun _ _ h => h.symm, fun _ _ _ h h' => h.trans h', fun _ => same_self_iff,
    fun _ _ h => h.indistinct⟩

/-- Ranges that end at the two zeros are equal and look alike. -/
theorem equality_observed_zeros :
    ((Value.range 0 1 == Value.range (-0) 1) = true ∧
      (Value.range (-0) 1 == Value.range 0 1) = true) ∧
      Indistinct (.range 0 1) (.range (-0) 1) := by
  have hsame : (Value.range 0 1 == Value.range (-0) 1) = true := rfl
  obtain ⟨hsymm, -, -, hlook⟩ := equality_observed
  exact ⟨⟨hsame, hsymm _ _ hsame⟩, hlook _ _ hsame⟩

end Proofs

end Treewalk
