import Mathlib.Algebra.Order.Field.Power
import Mathlib.Algebra.Order.Field.Rat
import Mathlib.Tactic.FieldSimp
import Mathlib.Tactic.GCongr
import Mathlib.Tactic.Linarith
import Mathlib.Tactic.NormNum
import Mathlib.Tactic.Positivity
import Mathlib.Tactic.Ring

/-!
# `Treewalk.Proofs.Doubles`: the numbers that doubles stand for

A decoded double is `± mantissa * 2 ^ exponent`, with a mantissa of up to
53 bits (`IsDouble`). The exponent is as low as the mantissa allows, so
doubles of one sign are in the order of their exponents first.

`value?` is the rational number that a double stands for, if it stands
for one: infinities and NaN do not. Comparisons of doubles compare these
numbers (`lt_iff_value`, `le_iff_value`, `beq_iff_value`). A sum is the
sum of these numbers as long as a double stands for it (`value?_add`).
Rounding has nothing to do then: it scales the mantissa until it has the
form of a double, and no bit of it is lost on the way.

The whole numbers up to `2 ^ 53` are among the numbers that doubles stand
for, so with them doubles count exactly (`Denotes.add`).
-/

set_option autoImplicit false

namespace Treewalk.Number

open Float.Model (Format UnpackedFloat totalExponent)
open Float.Model.UnpackedFloat

/-! ### Mantissas and exponents -/

/-- A mantissa and an exponent of a decoded double. Only below the least
exponent is the mantissa shorter than it could be. -/
structure IsDouble (m : Nat) (e : Int) : Prop where
  pos : 0 < m
  mantissa_lt : m < 2 ^ 53
  exponent_ge : -1074 ≤ e
  exponent_le : e ≤ 971
  full_or_least : 2 ^ 52 ≤ m ∨ e = -1074

theorem toNat_implicit_append (f : BitVec 52) : (1#1 ++ f).toNat = 2 ^ 52 + f.toNat := by
  rw [BitVec.toNat_append, ← Nat.shiftLeft_add_eq_or_of_lt f.isLt]
  rfl

theorem IsDouble.of_unpack {x : Float.Model} {s : Sign} {m : Nat} {e : Int} {hm : 0 < m}
    (h : x.unpack = .finite s m e hm) : IsDouble m e := by
  unfold Float.Model.unpack UnpackedFloat.unpack at h
  dsimp only at h
  have hbias : ((Format.binary64.exponentBias : Nat) : Int) +
      (Format.binary64.mantissaBitsWithoutImplicit : Nat) = 1075 := rfl
  rw [hbias] at h
  have hexponent : (@unpackExponent .binary64 x.toBits.toBitVec).toNat < 2 ^ 11 := BitVec.isLt _
  have hmantissa : (@unpackMantissa .binary64 x.toBits.toBitVec).toNat < 2 ^ 52 := BitVec.isLt _
  by_cases htop : @unpackExponent .binary64 x.toBits.toBitVec = -1#11
  · rw [if_pos htop] at h
    by_cases hinfinity : @unpackMantissa .binary64 x.toBits.toBitVec = 0#52
    · rw [if_pos hinfinity] at h
      cases h
    · rw [if_neg hinfinity] at h
      cases h
  rw [if_neg htop] at h
  have hfinite : (@unpackExponent .binary64 x.toBits.toBitVec).toNat ≠ 2047 :=
    fun heq => htop (BitVec.eq_of_toNat_eq heq)
  by_cases hleast : @unpackExponent .binary64 x.toBits.toBitVec = 0#11
  · rw [if_pos hleast] at h
    have hzero : (@unpackExponent .binary64 x.toBits.toBitVec).toNat = 0 :=
      congrArg BitVec.toNat hleast
    by_cases hnull : @unpackMantissa .binary64 x.toBits.toBitVec = 0#52
    · rw [dif_pos hnull] at h
      cases h
    · rw [dif_neg hnull] at h
      cases h
      exact ⟨hm, by omega, by omega, by omega, .inr (by omega)⟩
  · rw [if_neg hleast] at h
    have hpositive : (@unpackExponent .binary64 x.toBits.toBitVec).toNat ≠ 0 :=
      fun heq => hleast (BitVec.eq_of_toNat_eq heq)
    have himplicit := toNat_implicit_append (@unpackMantissa .binary64 x.toBits.toBitVec)
    cases h
    exact ⟨hm, by omega, by omega, by omega, .inl (by omega)⟩

/-! ### Encoding and decoding -/

theorem unpackSign_packComponents (s : Sign) (g : BitVec 11) (f : BitVec 52) :
    @unpackSign .binary64 (packComponents .binary64 s g f) = s.toBitVec := by
  show (s.toBitVec ++ g ++ f).extractLsb' 63 1 = s.toBitVec
  rw [BitVec.extractLsb'_append_eq_of_le (by decide),
    BitVec.extractLsb'_append_eq_of_le (by decide)]
  cases s <;> rfl

theorem ofBitVec_toBitVec (s : Sign) : Sign.ofBitVec s.toBitVec = s := by
  cases s <;> rfl

theorem finite_congr {s s' : Sign} {m m' : Nat} {e e' : Int} {hm : 0 < m} {hm' : 0 < m'}
    (hs : s = s') (hmantissa : m = m') (he : e = e') :
    UnpackedFloat.finite s m e hm = .finite s' m' e' hm' := by
  subst hs hmantissa he
  rfl

theorem unpack_normal (s : Sign) {g : BitVec 11} (hzero : g.toNat ≠ 0) (htop : g.toNat ≠ 2047)
    (f : BitVec 52) :
    UnpackedFloat.unpack .binary64 (packComponents .binary64 s g f) =
      .finite s (2 ^ 52 + f.toNat) (g.toNat - 1075) (by omega) := by
  have hg := @unpackExponent_packComponents .binary64 s g f
  have hf := @unpackMantissa_packComponents .binary64 s g f
  have hs : Sign.ofBitVec (@unpackSign .binary64 (packComponents .binary64 s g f)) = s := by
    rw [unpackSign_packComponents, ofBitVec_toBitVec]
  have hne_top : g ≠ -1#11 := fun h => htop (congrArg BitVec.toNat h)
  have hne_zero : g ≠ 0#11 := fun h => hzero (congrArg BitVec.toNat h)
  unfold UnpackedFloat.unpack
  dsimp only
  rw [if_neg (hg.symm ▸ hne_top), if_neg (hg.symm ▸ hne_zero)]
  refine finite_congr hs ?_ ?_
  · rw [hf]
    exact toNat_implicit_append f
  · rw [hg]
    rfl

theorem unpack_subnormal (s : Sign) {f : BitVec 52} (hpos : 0 < f.toNat) :
    UnpackedFloat.unpack .binary64 (packComponents .binary64 s 0#11 f) =
      .finite s f.toNat (-1074) hpos := by
  have hg := @unpackExponent_packComponents .binary64 s 0#11 f
  have hf := @unpackMantissa_packComponents .binary64 s 0#11 f
  have hs : Sign.ofBitVec (@unpackSign .binary64 (packComponents .binary64 s 0#11 f)) = s := by
    rw [unpackSign_packComponents, ofBitVec_toBitVec]
  have hne : f ≠ 0#52 := fun h => hpos.ne' (congrArg BitVec.toNat h)
  have hne_top : (0#11 : BitVec 11) ≠ -1#11 := by decide
  unfold UnpackedFloat.unpack
  dsimp only
  rw [if_neg (hg.symm ▸ hne_top), if_pos hg, dif_neg (hf.symm ▸ hne)]
  refine finite_congr hs ?_ ?_
  · rw [hf]
  · rw [hg]
    rfl

theorem unpack_pack_zero (s : Sign) : (Float.Model.pack (.zero s)).unpack = .zero s := by
  cases s <;> rfl

/-- A magnitude is encoded with its exponent moved up, and without the
first bit of a full mantissa. -/
theorem pack_finite (s : Sign) (m : Nat) (e : Int) (hm : 0 < m) :
    UnpackedFloat.pack .binary64 (.finite s m e hm) =
      if 2048 ≤ (e + 1023 + 52).toNat + 1 then packedInfinity .binary64 s
      else if m.log2 + 1 = 53 then
        packComponents .binary64 s (BitVec.ofNat 11 (e + 1023 + 52).toNat) (BitVec.ofNat 52 m)
      else packComponents .binary64 s 0#11 (BitVec.ofNat 52 m) :=
  rfl

/-- A double is decoded as what was encoded. -/
theorem IsDouble.unpack_pack {m : Nat} {e : Int} (h : IsDouble m e) (s : Sign) :
    (Float.Model.pack (.finite s m e h.pos)).unpack = .finite s m e h.pos := by
  have hge := h.exponent_ge
  have hle := h.exponent_le
  have hlt := h.mantissa_lt
  show UnpackedFloat.unpack .binary64 (UnpackedFloat.pack .binary64 (.finite s m e h.pos)) = _
  rw [pack_finite, if_neg (by omega)]
  by_cases hfull : 2 ^ 52 ≤ m
  · have hlog : m.log2 = 52 := (Nat.log2_eq_iff h.pos.ne').mpr ⟨hfull, hlt⟩
    have hg : (BitVec.ofNat 11 (e + 1023 + 52).toNat).toNat = (e + 1023 + 52).toNat := by
      rw [BitVec.toNat_ofNat]
      omega
    rw [if_pos (by omega), unpack_normal s (by omega) (by omega)]
    refine finite_congr rfl ?_ ?_
    · rw [BitVec.toNat_ofNat]
      omega
    · rw [hg]
      omega
  · have hleast : e = -1074 := h.full_or_least.resolve_left hfull
    have hlog : m.log2 < 52 := (Nat.log2_lt h.pos.ne').mpr (Nat.lt_of_not_le hfull)
    have hm : (BitVec.ofNat 52 m).toNat = m := by
      rw [BitVec.toNat_ofNat]
      omega
    rw [if_neg (by omega), unpack_subnormal s (hm.symm ▸ h.pos)]
    exact finite_congr rfl hm hleast.symm

/-! ### Rounding -/

theorem log2_mul_two_pow {m : Nat} (hm : 0 < m) (k : Nat) : (m * 2 ^ k).log2 = m.log2 + k := by
  induction k with
  | zero => rw [Nat.pow_zero, Nat.mul_one, Nat.add_zero]
  | succ k ih =>
    have hpos : 0 < m * 2 ^ k := Nat.mul_pos hm (Nat.two_pow_pos k)
    rw [Nat.pow_succ, ← Nat.mul_assoc, Nat.mul_comm _ 2, Nat.log2_two_mul hpos.ne', ih]
    rfl

theorem totalExponent_mul_two_pow {m : Nat} (hm : 0 < m) (k : Nat) (e : Int) :
    totalExponent (m * 2 ^ k) e = totalExponent m (e + k) := by
  unfold totalExponent
  rw [log2_mul_two_pow hm]
  omega

/-- To shift zeros out loses nothing. -/
theorem shiftRight_exact (m k : Nat) :
    ExtendedMantissa.ofMantissaAndAccuracy (m * 2 ^ k) .exact >>> k =
      ExtendedMantissa.ofMantissaAndAccuracy m .exact := by
  induction k generalizing m with
  | zero =>
    rw [Nat.pow_zero, Nat.mul_one]
    rfl
  | succ k ih =>
    show ExtendedMantissa.shiftRightOne
      (ExtendedMantissa.ofMantissaAndAccuracy (m * 2 ^ (k + 1)) .exact >>> k) = _
    rw [Nat.pow_succ', ← Nat.mul_assoc, ih]
    simp [ExtendedMantissa.shiftRightOne, ExtendedMantissa.ofMantissaAndAccuracy]

theorem eq_mul_two_pow {a b k : Nat} {e : Int} (h : (a : ℚ) * 2 ^ e = b * 2 ^ (e + k)) :
    a = b * 2 ^ k := by
  have htwo : (2 : ℚ) ≠ 0 := by norm_num
  rw [zpow_add₀ htwo, mul_comm (2 ^ e : ℚ), ← mul_assoc] at h
  have hscaled := mul_right_cancel₀ (zpow_ne_zero e htwo) h
  rw [zpow_natCast] at hscaled
  exact_mod_cast hscaled

namespace IsDouble

variable {m : Nat} {e : Int} (h : IsDouble m e)
include h

/-- The exponent is the one that rounding aims at. -/
theorem targetExponent : Format.binary64.targetExponent (totalExponent m e) = e := by
  have hge := h.exponent_ge
  have hbits : m.log2 < 53 := (Nat.log2_lt h.pos.ne').mpr h.mantissa_lt
  show max ((m.log2 : Int) + 1 + e - 53) (-1074) = e
  obtain hfull | hleast := h.full_or_least
  · have : 52 ≤ m.log2 := (Nat.le_log2 h.pos.ne').mpr hfull
    omega
  · omega

theorem shiftToTargetExponent (k : Nat) :
    shiftToTargetExponent .binary64 (m * 2 ^ k) (e - k) .exact =
      (.ofMantissaAndAccuracy m .exact, e) := by
  unfold UnpackedFloat.shiftToTargetExponent shiftToExponent
  dsimp only
  rw [totalExponent_mul_two_pow h.pos, Int.sub_add_cancel, h.targetExponent, Int.sub_sub_self,
    Int.toNat_natCast, shiftRight_exact, Int.sub_add_cancel]

theorem roundWithAccuracy (s : Sign) (k : Nat) :
    roundWithAccuracy .binary64 s (m * 2 ^ k) (e - k) .exact = .finite s m e h.pos := by
  have hagain := h.shiftToTargetExponent 0
  rw [Nat.pow_zero, Nat.mul_one, Int.natCast_zero, Int.sub_zero] at hagain
  have hrounded : (ExtendedMantissa.ofMantissaAndAccuracy m .exact).roundedMantissa = m := rfl
  unfold UnpackedFloat.roundWithAccuracy
  rw [h.shiftToTargetExponent k]
  dsimp only
  rw [hrounded, hagain]
  exact dif_neg h.pos.ne'

/-- Rounding only finds the form of a double, for a number that has one. -/
theorem round {m' : Nat} {e' : Int} (s : Sign) (heq : (m' : ℚ) * 2 ^ e' = m * 2 ^ e) :
    round .binary64 s m' e' = .finite s m e h.pos := by
  unfold UnpackedFloat.round decreaseExponent
  dsimp only
  obtain hle | hgt := le_or_gt e' e
  · -- The mantissa ends in zeros, which are shifted out.
    obtain ⟨k, rfl⟩ : ∃ k : Nat, e = e' + k := ⟨(e - e').toNat, by omega⟩
    obtain rfl := eq_mul_two_pow heq
    have hk : (e' - (e' + k)).toNat = 0 := by omega
    have hround := h.roundWithAccuracy s k
    rw [Int.add_sub_cancel] at hround
    rw [totalExponent_mul_two_pow h.pos, h.targetExponent, hk, Nat.shiftLeft_zero,
      Int.natCast_zero, Int.sub_zero, hround]
  · -- The mantissa lacks zeros.
    obtain ⟨k, rfl⟩ : ∃ k : Nat, e' = e + k := ⟨(e' - e).toNat, by omega⟩
    obtain rfl := eq_mul_two_pow heq.symm
    have hpos : 0 < m' := Nat.pos_of_mul_pos_right h.pos
    have hk : (e + k - e).toNat = k := by omega
    have hround := h.roundWithAccuracy s 0
    rw [Nat.pow_zero, Nat.mul_one, Int.natCast_zero, Int.sub_zero] at hround
    rw [← totalExponent_mul_two_pow hpos, h.targetExponent, hk, Nat.shiftLeft_eq,
      Int.add_sub_cancel, hround]

theorem value_pos : (0 : ℚ) < m * 2 ^ e := by
  have := h.pos
  positivity

/-- A double with a greater exponent is greater: its mantissa is full, as
the exponent is not the least. -/
theorem lt_of_exponent_lt {m' : Nat} {e' : Int} (h' : IsDouble m' e') (hlt : e < e') :
    (m : ℚ) * 2 ^ e < m' * 2 ^ e' := by
  have hfull : 2 ^ 52 ≤ m' := h'.full_or_least.resolve_right (by have := h.exponent_ge; omega)
  have hm : (m : ℚ) < 2 ^ 53 := by exact_mod_cast h.mantissa_lt
  have hm' : (2 : ℚ) ^ 52 ≤ m' := by exact_mod_cast hfull
  calc (m : ℚ) * 2 ^ e < 2 ^ 53 * 2 ^ e := by gcongr
    _ = 2 ^ 52 * 2 ^ (e + 1) := by rw [zpow_add₀ (by norm_num)]; ring
    _ ≤ 2 ^ 52 * 2 ^ e' := by gcongr; norm_num; omega
    _ ≤ m' * 2 ^ e' := by gcongr

theorem compare_eq {m' : Nat} {e' : Int} (h' : IsDouble m' e') :
    (compare e e').then (compare m m') = compare ((m : ℚ) * 2 ^ e) (m' * 2 ^ e') := by
  obtain hlt | rfl | hgt := lt_trichotomy e e'
  · rw [compare_lt_iff_lt.mpr hlt, compare_lt_iff_lt.mpr (h.lt_of_exponent_lt h' hlt)]
    rfl
  · have hpos : (0 : ℚ) < 2 ^ e := by positivity
    rw [compare_eq_iff_eq.mpr (rfl : e = e), Ordering.eq_then]
    obtain hlt | rfl | hgt := lt_trichotomy m m'
    · rw [compare_lt_iff_lt.mpr hlt, compare_lt_iff_lt.mpr (by gcongr)]
    · rw [compare_eq_iff_eq.mpr rfl, compare_eq_iff_eq.mpr rfl]
    · rw [compare_gt_iff_gt.mpr hgt, compare_gt_iff_gt.mpr (by gcongr)]
  · rw [compare_gt_iff_gt.mpr hgt, compare_gt_iff_gt.mpr (h'.lt_of_exponent_lt h hgt)]
    rfl

end IsDouble

/-! ### What a double stands for -/

/-- The number that a decoded double stands for, if it is one. -/
def fraction? : UnpackedFloat → Option ℚ
  | .zero _ => some 0
  | .finite sign mantissa exponent _ => some (sign.apply mantissa * 2 ^ exponent)
  | .infinity _ | .notANumber => none

/-- The number that a double stands for, if it is one. -/
def value? (x : Float) : Option ℚ :=
  fraction? x.toModel.unpack

/-- What stands for a number is a zero or has the form of a double. -/
theorem value?_cases {x : Float} {q : ℚ} (h : value? x = some q) :
    (∃ s, x.toModel.unpack = .zero s ∧ q = 0) ∨
      ∃ s m e, ∃ hdouble : IsDouble m e, x.toModel.unpack = .finite s m e hdouble.pos ∧
        q = s.apply m * 2 ^ e := by
  unfold value? at h
  cases hx : x.toModel.unpack with
  | infinity s =>
    rw [hx] at h
    cases h
  | notANumber =>
    rw [hx] at h
    cases h
  | zero s =>
    rw [hx] at h
    cases h
    exact .inl ⟨s, rfl, rfl⟩
  | finite s m e hm =>
    rw [hx] at h
    cases h
    exact .inr ⟨s, m, e, .of_unpack hx, rfl, rfl⟩

theorem isNaN_of_value {x : Float} {q : ℚ} (h : value? x = some q) : x.isNaN = false := by
  show x.toModel.unpack.isNaN = false
  obtain ⟨s, hx, -⟩ | ⟨s, m, e, hm, hx, -⟩ := value?_cases h
  · rw [hx]
    rfl
  · rw [hx]
    rfl

/-! ### Order -/

theorem swap_compare (p q : ℚ) : (compare p q).swap = compare (-p) (-q) := by
  obtain hlt | rfl | hgt := lt_trichotomy p q
  · rw [compare_lt_iff_lt.mpr hlt, compare_gt_iff_gt.mpr (neg_lt_neg hlt)]
    rfl
  · rw [compare_eq_iff_eq.mpr rfl, compare_eq_iff_eq.mpr rfl]
    rfl
  · rw [compare_gt_iff_gt.mpr hgt, compare_lt_iff_lt.mpr (neg_lt_neg hgt)]
    rfl

section
variable {x y : Float} {p q : ℚ} (hx : value? x = some p) (hy : value? y = some q)
include hx hy

/-- Doubles compare as the numbers that they stand for. -/
theorem compare_eq_value : x.toModel.compare y.toModel = some (compare p q) := by
  unfold Float.Model.compare
  -- The signs decide, and the magnitudes if they are the same.
  obtain ⟨s, hux, rfl⟩ | ⟨s, m, e, hm, hux, rfl⟩ := value?_cases hx <;>
    obtain ⟨s', huy, rfl⟩ | ⟨s', m', e', hm', huy, rfl⟩ := value?_cases hy <;>
    rw [hux, huy]
  · rw [compare_eq_iff_eq.mpr rfl]
    rfl
  · have hpos := hm'.value_pos
    cases s' with
    | positive => exact congrArg some (compare_lt_iff_lt.mpr hpos).symm
    | negative =>
      exact congrArg some (compare_gt_iff_gt.mpr (by simpa [Sign.apply] using hpos)).symm
  · have hpos := hm.value_pos
    cases s with
    | positive => exact congrArg some (compare_gt_iff_gt.mpr hpos).symm
    | negative =>
      exact congrArg some (compare_lt_iff_lt.mpr (by simpa [Sign.apply] using hpos)).symm
  · have hpos := hm.value_pos
    have hpos' := hm'.value_pos
    cases s <;> cases s'
    · show some ((compare e e').then (compare m m')).swap = _
      rw [hm.compare_eq hm', swap_compare]
      simp [Sign.apply]
    · refine congrArg some (compare_lt_iff_lt.mpr ?_).symm
      simp only [Sign.apply, Int.cast_neg, Int.cast_natCast, neg_mul]
      linarith
    · refine congrArg some (compare_gt_iff_gt.mpr ?_).symm
      simp only [Sign.apply, Int.cast_neg, Int.cast_natCast, neg_mul]
      linarith
    · exact congrArg some (hm.compare_eq hm')

theorem lt_iff_value : x < y ↔ p < q := by
  show decide (x.toModel < y.toModel) = true ↔ _
  rw [decide_eq_true_iff]
  show (x.toModel.compare y.toModel == some .lt) = true ↔ _
  rw [compare_eq_value hx hy, beq_iff_eq, Option.some_inj, compare_lt_iff_lt]

theorem le_iff_value : x ≤ y ↔ p ≤ q := by
  show decide (x.toModel ≤ y.toModel) = true ↔ _
  rw [decide_eq_true_iff]
  show (x.toModel.compare y.toModel).any (·.isLE) = true ↔ _
  rw [compare_eq_value hx hy, Option.any_some, ← compare_le_iff_le]
  cases compare p q <;> simp

theorem beq_iff_value : (x == y) = true ↔ p = q := by
  show (x.toModel.compare y.toModel == some .eq) = true ↔ _
  rw [compare_eq_value hx hy, beq_iff_eq, Option.some_inj, compare_eq_iff_eq]

end

/-! ### Sums -/

/-- The numbers that doubles stand for. -/
def Representable (q : ℚ) : Prop :=
  q = 0 ∨ ∃ m e, IsDouble m e ∧ |q| = m * 2 ^ e

theorem value?_round {m : Nat} {e : Int} (hm : 0 < m) (h : Representable (m * 2 ^ e)) (s : Sign) :
    value? (.ofModel (.pack (round .binary64 s m e))) = some ((s.apply m : ℚ) * 2 ^ e) := by
  have hpos : (0 : ℚ) < m * 2 ^ e := by positivity
  obtain hzero | ⟨m', e', hdouble, habs⟩ := h
  · exact absurd hzero hpos.ne'
  · rw [abs_of_pos hpos] at habs
    rw [hdouble.round s habs]
    show fraction? (Float.Model.pack (.finite s m' e' _)).unpack = _
    rw [hdouble.unpack_pack]
    show some ((s.apply m' : ℚ) * 2 ^ e') = _
    cases s <;> simp [Sign.apply, habs]

theorem value?_normalize {m : Int} {e : Int} (h : Representable (m * 2 ^ e)) :
    value? (.ofModel (.pack (normalize .binary64 m e .positive))) = some ((m : ℚ) * 2 ^ e) := by
  unfold UnpackedFloat.normalize
  obtain hneg | rfl | hpos := lt_trichotomy m 0
  · rw [compare_lt_iff_lt.mpr hneg]
    obtain ⟨n, rfl⟩ : ∃ n : Nat, m = -n := ⟨m.natAbs, by omega⟩
    have hmagnitude : Representable (n * 2 ^ e) := by simpa [Representable] using h
    simpa [Sign.apply] using value?_round (by omega) hmagnitude .negative
  · rw [compare_eq_iff_eq.mpr rfl, Int.cast_zero, zero_mul]
    show fraction? (Float.Model.pack (.zero .positive)).unpack = _
    rw [unpack_pack_zero]
    rfl
  · rw [compare_gt_iff_gt.mpr hpos]
    obtain ⟨n, rfl⟩ : ∃ n : Nat, m = n := ⟨m.natAbs, by omega⟩
    simpa [Sign.apply] using value?_round (by omega) h .positive

theorem decreaseExponent_value (s : Sign) (m : Nat) {e t : Int} (h : t ≤ e) :
    (s.apply (decreaseExponent m e t).1 : ℚ) * 2 ^ t = (s.apply m : ℚ) * 2 ^ e := by
  obtain ⟨k, rfl⟩ : ∃ k : Nat, e = t + k := ⟨(e - t).toNat, by omega⟩
  have hk : (t + k - t).toNat = k := by omega
  unfold decreaseExponent
  dsimp only
  rw [hk, Nat.shiftLeft_eq, zpow_add₀ (by norm_num), zpow_natCast]
  cases s <;> simp [Sign.apply] <;> ring

/-- A sum that a double stands for is exact. -/
theorem value?_add {x y : Float} {p q : ℚ} (hx : value? x = some p) (hy : value? y = some q)
    (h : Representable (p + q)) : value? (x + y) = some (p + q) := by
  show fraction? (Float.Model.pack
    (UnpackedFloat.add .binary64 x.toModel.unpack y.toModel.unpack)).unpack = _
  obtain ⟨s, hux, rfl⟩ | ⟨s, m, e, hm, hux, rfl⟩ := value?_cases hx <;>
    obtain ⟨s', huy, rfl⟩ | ⟨s', m', e', hm', huy, rfl⟩ := value?_cases hy <;>
    rw [hux, huy]
  · rw [add_zero]
    cases s <;> cases s' <;> rfl
  · rw [zero_add]
    show fraction? (Float.Model.pack (.finite s' m' e' _)).unpack = _
    rw [hm'.unpack_pack]
    rfl
  · rw [add_zero]
    show fraction? (Float.Model.pack (.finite s m e _)).unpack = _
    rw [hm.unpack_pack]
    rfl
  · rw [← decreaseExponent_value s m (min_le_left e e'),
      ← decreaseExponent_value s' m' (min_le_right e e'), ← add_mul, ← Int.cast_add] at h ⊢
    exact value?_normalize h

/-! ### Whole numbers -/

theorem representable_intCast {n : Int} (h : |n| ≤ 2 ^ 53) : Representable n := by
  obtain rfl | hne := eq_or_ne n 0
  · exact .inl Int.cast_zero
  right
  have habs : |(n : ℚ)| = n.natAbs := by rw [Nat.cast_natAbs, Int.cast_abs]
  have hpos : 0 < n.natAbs := Int.natAbs_pos.mpr hne
  have hle : n.natAbs ≤ 2 ^ 53 := by
    rw [abs_le] at h
    omega
  rw [habs]
  generalize n.natAbs = k at hpos hle
  obtain rfl | hlt := eq_or_lt_of_le hle
  · exact ⟨2 ^ 52, 1, ⟨by decide, by decide, by decide, by decide, .inl le_rfl⟩, by norm_num⟩
  · -- The mantissa is filled up with zeros.
    have hlow : 2 ^ k.log2 ≤ k := Nat.log2_self_le hpos.ne'
    have hhigh : k < 2 ^ (k.log2 + 1) := Nat.lt_log2_self
    have hlog : k.log2 ≤ 52 := Nat.le_of_lt_succ ((Nat.log2_lt hpos.ne').mpr hlt)
    have hmantissa : k * 2 ^ (52 - k.log2) < 2 ^ 53 :=
      calc k * 2 ^ (52 - k.log2) < 2 ^ (k.log2 + 1) * 2 ^ (52 - k.log2) := by gcongr
        _ = 2 ^ 53 := by rw [← pow_add]; congr 1; omega
    have hfull : 2 ^ 52 ≤ k * 2 ^ (52 - k.log2) :=
      calc 2 ^ 52 = 2 ^ k.log2 * 2 ^ (52 - k.log2) := by rw [← pow_add]; congr 1; omega
        _ ≤ k * 2 ^ (52 - k.log2) := by gcongr
    refine ⟨k * 2 ^ (52 - k.log2), k.log2 - 52,
      ⟨by positivity, hmantissa, by omega, by omega, .inl hfull⟩, ?_⟩
    have hexponent : ((k.log2 : Int) - 52) = -((52 - k.log2 : Nat) : Int) := by omega
    rw [hexponent, zpow_neg, zpow_natCast]
    push_cast
    field_simp

/-- A double stands for a whole number. Two doubles stand for zero. -/
def Denotes (x : Float) (n : Int) : Prop :=
  value? x = some (n : ℚ)

namespace Denotes

variable {x y : Float} {m n : Int}

theorem zero : Denotes 0 0 := rfl

theorem one : Denotes 1 1 := by
  show some ((2 ^ 52 : Nat) * 2 ^ (-52 : Int) : ℚ) = some ((1 : Int) : ℚ)
  norm_num

theorem neg_one : Denotes (-1) (-1) := by
  show some ((-(2 ^ 52 : Nat) : Int) * 2 ^ (-52 : Int) : ℚ) = some ((-1 : Int) : ℚ)
  norm_num

theorem lt_iff (hx : Denotes x m) (hy : Denotes y n) : x < y ↔ m < n :=
  (lt_iff_value hx hy).trans Int.cast_lt

theorem le_iff (hx : Denotes x m) (hy : Denotes y n) : x ≤ y ↔ m ≤ n :=
  (le_iff_value hx hy).trans Int.cast_le

theorem beq_iff (hx : Denotes x m) (hy : Denotes y n) : (x == y) = true ↔ m = n :=
  (beq_iff_value hx hy).trans Int.cast_inj

theorem isNaN (hx : Denotes x m) : x.isNaN = false :=
  isNaN_of_value hx

/-- Whole numbers up to `2 ^ 53` are added exactly. -/
theorem add (hx : Denotes x m) (hy : Denotes y n) (h : |m + n| ≤ 2 ^ 53) :
    Denotes (x + y) (m + n) := by
  have hsum := representable_intCast h
  rw [Int.cast_add] at hsum
  exact (value?_add hx hy hsum).trans (by rw [Int.cast_add])

end Denotes

end Treewalk.Number
