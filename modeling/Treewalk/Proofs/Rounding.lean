import Treewalk.Number.Decimal
import Treewalk.Proofs.Doubles

/-!
# `Treewalk.Proofs.Rounding`: the numbers that round to a double

Rounding takes a number down to halves of the last binary place. An
extended mantissa counts the halves and remembers whether anything is left
over (`Counts`), and that is enough to round it to the nearest whole
mantissa, ties to the even one (`Counts.roundedMantissa`).

`Rounds q m e` says that a number lies in the rounding interval of the
double `m * 2 ^ e`, as `RoundingInterval` has it. The main fact is
`IsDouble.roundWithAccuracy_of_rounds`: rounding such a number gives the
double. The interval of a power of two reaches less far down, and there
the rounding goes through a binary place more: the mantissa is rounded up
to `2 ^ 53` and then takes the form of a double again.

Products and quotients are rounded this way, and so are decimals: a
decimal in the rounding interval of a double is read as that double
(`IsDouble.unpack_ofScientific`).
-/

set_option autoImplicit false

namespace Treewalk.Number

open Float.Model (Format UnpackedFloat totalExponent)
open Float.Model.UnpackedFloat

/-! ### Halves -/

/-- The halves that an extended mantissa counts. -/
def halves (em : ExtendedMantissa) : Nat :=
  2 * em.mantissa + em.roundBit.toNat

/-- An extended mantissa counts the halves of a number. The last bit says
whether anything is left over. -/
structure Counts (em : ExtendedMantissa) (x : ℚ) : Prop where
  halves_le : (halves em : ℚ) ≤ 2 * x
  lt_halves : 2 * x < halves em + 1
  sticky : em.stickyBit = false ↔ 2 * x = halves em

/-- A whole number to which a number is rounded, which is the even one if
there are two. -/
structure Near (x : ℚ) (n : Nat) : Prop where
  below : 2 * (n : ℚ) ≤ 2 * x + 1
  above : 2 * x ≤ 2 * n + 1
  between : n % 2 = 1 → 2 * (n : ℚ) < 2 * x + 1 ∧ 2 * x < 2 * n + 1

theorem halves_shiftRightOne (em : ExtendedMantissa) :
    halves em.shiftRightOne = em.mantissa := by
  show 2 * (em.mantissa / 2) + (em.mantissa % 2 != 0).toNat = em.mantissa
  rcases Nat.mod_two_eq_zero_or_one em.mantissa with h | h
  · simp [h]
    omega
  · simp [h]
    omega

namespace Counts

variable {em : ExtendedMantissa} {x : ℚ}

theorem exact (m : Nat) : Counts (.ofMantissaAndAccuracy m .exact) m where
  halves_le := by simp [halves, ExtendedMantissa.ofMantissaAndAccuracy]
  lt_halves := by simp [halves, ExtendedMantissa.ofMantissaAndAccuracy]
  sticky := by simp [halves, ExtendedMantissa.ofMantissaAndAccuracy]

/-- A bit that is shifted out counts as the half, and the half before it is
left over. -/
theorem shiftRightOne (h : Counts em x) : Counts em.shiftRightOne (x / 2) := by
  obtain ⟨hle, hlt, hsticky⟩ := h
  rw [halves] at hle hlt hsticky
  push_cast at hle hlt hsticky
  have hdouble : 2 * (x / 2) = x := by ring
  constructor
  · rw [halves_shiftRightOne, hdouble]
    have hround : (0 : ℚ) ≤ em.roundBit.toNat := by positivity
    linarith
  · rw [halves_shiftRightOne, hdouble]
    have hround : (em.roundBit.toNat : ℚ) ≤ 1 := by exact_mod_cast em.roundBit.toNat_le
    linarith
  · rw [halves_shiftRightOne, hdouble]
    show (em.roundBit || em.stickyBit) = false ↔ _
    cases hbit : em.roundBit with
    | false =>
      rw [hbit] at hsticky
      simp only [Bool.false_or, hsticky, Bool.toNat_false, Nat.cast_zero, add_zero]
      constructor <;> intro h <;> linarith
    | true =>
      rw [hbit] at hle
      have hne : x ≠ em.mantissa := by
        rintro rfl
        rw [Bool.toNat_true, Nat.cast_one] at hle
        linarith
      simp [hne]

theorem shiftRight (h : Counts em x) (k : Nat) : Counts (em >>> k) (x / 2 ^ k) := by
  induction k with
  | zero =>
    rw [pow_zero, div_one]
    exact h
  | succ k ih =>
    rw [pow_succ, ← div_div]
    exact ih.shiftRightOne

/-- The mantissa is the whole part. -/
theorem mantissa_le (h : Counts em x) : (em.mantissa : ℚ) ≤ x := by
  have hle := h.halves_le
  rw [halves] at hle
  push_cast at hle
  have hround : (0 : ℚ) ≤ em.roundBit.toNat := by positivity
  linarith

theorem lt_mantissa (h : Counts em x) : x < em.mantissa + 1 := by
  have hlt := h.lt_halves
  rw [halves] at hlt
  push_cast at hlt
  have hround : (em.roundBit.toNat : ℚ) ≤ 1 := by exact_mod_cast em.roundBit.toNat_le
  linarith

/-- Counted halves tell which whole number is nearest. -/
theorem roundedMantissa (h : Counts em x) {n : Nat} (hn : Near x n) : em.roundedMantissa = n := by
  obtain ⟨hle, hlt, hsticky⟩ := h
  obtain ⟨hbelow, habove, hbetween⟩ := hn
  obtain ⟨m, half, more⟩ := em
  cases more with
  | false =>
    -- Nothing is left over, so a half is a tie.
    have hx : 2 * x = halves ⟨m, half, false⟩ := hsticky.mp rfl
    rw [hx] at hbelow habove hbetween
    norm_cast at hbelow habove hbetween
    cases half with
    | false =>
      show m = n
      simp only [halves, Bool.toNat_false] at hbelow habove
      omega
    | true =>
      show m + m % 2 = n
      simp only [halves, Bool.toNat_true] at hbelow habove hbetween
      omega
  | true =>
    have hne : 2 * x ≠ halves ⟨m, half, true⟩ := fun heq => by cases hsticky.mpr heq
    have hlt' : (halves ⟨m, half, true⟩ : ℚ) < 2 * x := lt_of_le_of_ne hle hne.symm
    have hlow : 2 * (n : ℚ) < halves ⟨m, half, true⟩ + 2 := by linarith
    have hhigh : (halves ⟨m, half, true⟩ : ℚ) < 2 * n + 1 := by linarith
    norm_cast at hlow hhigh
    cases half with
    | false =>
      show m = n
      simp only [halves, Bool.toNat_false] at hlow hhigh
      omega
    | true =>
      show m + 1 = n
      simp only [halves, Bool.toNat_true] at hlow hhigh
      omega

end Counts

/-- A quotient of whole numbers is counted by its whole part and what is
left of it. -/
theorem counts_quotient (a : Nat) {b : Nat} (hb : 0 < b) :
    Counts (.ofMantissaAndAccuracy (a / b) (accuracyOfFraction (a % b) b)) (a / b) := by
  have hb' : (0 : ℚ) < b := by exact_mod_cast hb
  have hsplit : a = b * (a / b) + a % b := (Nat.div_add_mod a b).symm
  have hrest : a % b < b := Nat.mod_lt a hb
  generalize a / b = whole at hsplit ⊢
  generalize a % b = rest at hsplit hrest ⊢
  subst hsplit
  have hx : 2 * (((b * whole + rest : Nat) : ℚ) / b) = 2 * whole + 2 * rest / b := by
    push_cast
    field_simp
  unfold accuracyOfFraction
  split
  · rename_i hzero
    subst hzero
    have hexact := Counts.exact whole
    rw [Nat.add_zero, Nat.cast_mul, mul_div_cancel_left₀ _ hb'.ne']
    exact hexact
  · rename_i hpos
    have hpos' : (0 : ℚ) < rest := by exact_mod_cast Nat.pos_of_ne_zero hpos
    have hrest' : (rest : ℚ) < b := by exact_mod_cast hrest
    have hone : 2 * (rest : ℚ) / b < 2 := by rw [div_lt_iff₀ hb']; linarith
    have hnone : 0 < 2 * (rest : ℚ) / b := by positivity
    -- What is left of the quotient is less than a half, a half or more.
    obtain hlt | heq | hgt := lt_trichotomy (2 * rest) b
    · rw [compare_lt_iff_lt.mpr hlt]
      have hlt' : 2 * (rest : ℚ) / b < 1 := by rw [div_lt_one hb']; exact_mod_cast hlt
      refine ⟨?_, ?_, ?_⟩ <;> rw [hx] <;> simp [halves, ExtendedMantissa.ofMantissaAndAccuracy]
      · linarith
      · linarith
      · exact ⟨hpos, hb.ne'⟩
    · rw [compare_eq_iff_eq.mpr heq]
      have heq' : 2 * (rest : ℚ) / b = 1 := by rw [div_eq_one_iff_eq hb'.ne']; exact_mod_cast heq
      refine ⟨?_, ?_, ?_⟩ <;> rw [hx, heq'] <;> simp [halves, ExtendedMantissa.ofMantissaAndAccuracy]
    · rw [compare_gt_iff_gt.mpr hgt]
      have hgt' : 1 < 2 * (rest : ℚ) / b := by rw [one_lt_div hb']; exact_mod_cast hgt
      refine ⟨?_, ?_, ?_⟩ <;> rw [hx] <;> simp [halves, ExtendedMantissa.ofMantissaAndAccuracy]
      · linarith
      · linarith
      · linarith

/-! ### Rounding to a double -/

/-- Whether a number of quarters lies in a rounding interval. -/
def RoundingInterval.Contains (i : RoundingInterval) (x : ℚ) : Prop :=
  if i.closed then (i.low : ℚ) ≤ x ∧ x ≤ i.high else (i.low : ℚ) < x ∧ x < i.high

theorem RoundingInterval.covers_iff (i : RoundingInterval) (n : Nat) {d : Nat} (hd : 0 < d) :
    i.covers n d = true ↔ i.Contains (n / d) := by
  have hd' : (0 : ℚ) < d := by exact_mod_cast hd
  unfold RoundingInterval.covers RoundingInterval.Contains
  split
  · rw [le_div_iff₀ hd', div_le_iff₀ hd', Bool.and_eq_true, decide_eq_true_eq, decide_eq_true_eq]
    norm_cast
  · rw [lt_div_iff₀ hd', div_lt_iff₀ hd', Bool.and_eq_true, decide_eq_true_eq, decide_eq_true_eq]
    norm_cast

/-- A number lies in the rounding interval of a double. -/
def Rounds (q : ℚ) (m : Nat) (e : Int) : Prop :=
  (RoundingInterval.ofFraction m e).Contains (4 * (q / 2 ^ e))

section
variable {q : ℚ} {m : Nat} {e : Int}

/-- A number in the interval is near the mantissa. -/
theorem Rounds.near (hq : Rounds q m e) (hm : 0 < m) : Near (q / 2 ^ e) m := by
  have hlow : 4 * m ≤ (RoundingInterval.ofFraction m e).low + 2 := by
    unfold RoundingInterval.ofFraction
    dsimp only
    split <;> omega
  have hlow' : 4 * (m : ℚ) ≤ (RoundingInterval.ofFraction m e).low + 2 := by exact_mod_cast hlow
  have hhigh : ((RoundingInterval.ofFraction m e).high : ℚ) = 4 * m + 2 := by
    exact_mod_cast (rfl : (RoundingInterval.ofFraction m e).high = 4 * m + 2)
  unfold Rounds RoundingInterval.Contains at hq
  rw [hhigh] at hq
  split at hq
  · -- The ends belong to the interval of an even mantissa.
    rename_i heven
    have heven : m % 2 = 0 := of_decide_eq_true heven
    exact ⟨by linarith [hq.1], by linarith [hq.2], fun hodd => by omega⟩
  · have hbelow : 2 * (m : ℚ) < 2 * (q / 2 ^ e) + 1 := by linarith [hq.1]
    have habove : 2 * (q / 2 ^ e) < 2 * (m : ℚ) + 1 := by linarith [hq.2]
    exact ⟨hbelow.le, habove.le, fun _ => ⟨hbelow, habove⟩⟩

/-- The interval of a power of two reaches a quarter down only. -/
theorem Rounds.quarter_le (hq : Rounds q (2 ^ 52) e) (he : e ≠ -1074) :
    4 * 2 ^ 52 - 1 ≤ 4 * (q / 2 ^ e) := by
  have hlow : (RoundingInterval.ofFraction (2 ^ 52) e).low = 4 * 2 ^ 52 - 1 := if_pos ⟨rfl, he⟩
  have hclosed : (RoundingInterval.ofFraction (2 ^ 52) e).closed = true := rfl
  unfold Rounds RoundingInterval.Contains at hq
  rw [if_pos hclosed, hlow] at hq
  norm_num at hq ⊢
  exact hq.1

/-- The mantissa that a number leaves at its exponent is full, unless the
exponent is the least one. -/
theorem target_bounds {m : Nat} {e : Int} (hle : (m : ℚ) ≤ q / 2 ^ e) (hlt : q / 2 ^ e < m + 1)
    (he : e ≤ Format.binary64.targetExponent (totalExponent m e)) :
    -1074 ≤ Format.binary64.targetExponent (totalExponent m e) ∧
      q < 2 ^ 53 * 2 ^ Format.binary64.targetExponent (totalExponent m e) ∧
      (2 ^ 52 * 2 ^ Format.binary64.targetExponent (totalExponent m e) ≤ q ∨
        Format.binary64.targetExponent (totalExponent m e) = -1074) := by
  have htarget : Format.binary64.targetExponent (totalExponent m e) =
      max ((m.log2 : Int) + 1 + e - 53) (-1074) := rfl
  generalize Format.binary64.targetExponent (totalExponent m e) = t at htarget he ⊢
  have hscale : (0 : ℚ) < 2 ^ e := by positivity
  have htwo : (2 : ℚ) ≠ 0 := by norm_num
  rw [le_div_iff₀ hscale] at hle
  rw [div_lt_iff₀ hscale] at hlt
  refine ⟨by omega, ?_, ?_⟩
  · have hbits : (m : ℚ) + 1 ≤ 2 ^ (m.log2 + 1) := by
      exact_mod_cast Nat.succ_le_of_lt (Nat.lt_log2_self (n := m))
    calc q < (m + 1) * 2 ^ e := hlt
      _ ≤ 2 ^ (m.log2 + 1) * 2 ^ e := by gcongr
      _ = 2 ^ ((m.log2 : Int) + 1 + e) := by rw [zpow_add₀ htwo, zpow_add_one₀ htwo]; norm_cast
      _ ≤ 2 ^ ((53 : Int) + t) := zpow_le_zpow_right₀ (by norm_num) (by omega)
      _ = 2 ^ 53 * 2 ^ t := by rw [zpow_add₀ htwo]; norm_cast
  · by_cases hleast : t = -1074
    · exact .inr hleast
    · have hm : m ≠ 0 := by
        rintro rfl
        simp at htarget
        omega
      have hbits : (2 : ℚ) ^ m.log2 ≤ m := by exact_mod_cast Nat.log2_self_le hm
      left
      calc (2 : ℚ) ^ 52 * 2 ^ t = 2 ^ ((52 : Int) + t) := by rw [zpow_add₀ htwo]; norm_cast
        _ = 2 ^ ((m.log2 : Int) + e) := by congr 1; omega
        _ = 2 ^ m.log2 * 2 ^ e := by rw [zpow_add₀ htwo]; norm_cast
        _ ≤ m * 2 ^ e := by gcongr
        _ ≤ q := hle

/-- A number that is too small for a full mantissa at the exponent of its
double is just under a power of two, so one exponent down it is near the
next power. -/
theorem IsDouble.just_below (h : IsDouble m e) (hq : Rounds q m e) {t : Int} (ht : -1074 ≤ t)
    (hless : t < e) (hlt : q < 2 ^ 53 * 2 ^ t) :
    t = e - 1 ∧ m = 2 ^ 52 ∧ Near (q / 2 ^ t) (2 ^ 53) := by
  have htwo : (2 : ℚ) ≠ 0 := by norm_num
  have hscale : (0 : ℚ) < 2 ^ e := by positivity
  obtain ⟨hbelow, -, -⟩ := hq.near h.pos
  have hm : 2 ^ 52 ≤ m := h.full_or_least.resolve_right (by omega)
  have hx : q / 2 ^ e < 2 ^ 52 := by
    have hstep : (2 : ℚ) ^ t ≤ 2 ^ (e - 1) := zpow_le_zpow_right₀ (by norm_num) (by omega)
    rw [zpow_sub_one₀ htwo] at hstep
    rw [div_lt_iff₀ hscale]
    linarith
  have hpower : m = 2 ^ 52 := by
    have hle : 2 * (m : ℚ) < 2 * 2 ^ 52 + 1 := by linarith
    norm_cast at hle
    omega
  subst hpower
  -- Here the interval reaches down a quarter only, so the number is close.
  have hquarter := hq.quarter_le (by omega)
  obtain rfl : t = e - 1 := by
    by_contra hne
    have hstep : (2 : ℚ) ^ t ≤ 2 ^ (e - 2) := zpow_le_zpow_right₀ (by norm_num) (by omega)
    rw [zpow_sub₀ htwo] at hstep
    have hfar : q / 2 ^ e < 2 ^ 51 := by
      rw [div_lt_iff₀ hscale]
      norm_num at hstep hlt ⊢
      linarith
    linarith
  have hdouble : q / 2 ^ (e - 1) = 2 * (q / 2 ^ e) := by
    rw [zpow_sub_one₀ htwo]
    field_simp
  refine ⟨rfl, rfl, ?_, ?_, fun hodd => by omega⟩
  · rw [hdouble]
    push_cast
    linarith
  · rw [hdouble]
    push_cast
    linarith

/-- A number that is large enough for a full mantissa at some exponent does
not round to a double with a smaller one. -/
theorem IsDouble.le_of_full (h : IsDouble m e) (hq : Rounds q m e) {t : Int}
    (hfull : 2 ^ 52 * 2 ^ t ≤ q ∨ t = -1074) : t ≤ e := by
  by_contra hmore
  have hge := h.exponent_ge
  have hscale : (0 : ℚ) < 2 ^ e := by positivity
  obtain ⟨-, habove, -⟩ := hq.near h.pos
  have hlarge : (2 : ℚ) ^ 53 ≤ q / 2 ^ e := by
    have hstep : (2 : ℚ) ^ (e + 1) ≤ 2 ^ t := zpow_le_zpow_right₀ (by norm_num) (by omega)
    rw [zpow_add_one₀ (by norm_num)] at hstep
    have hmantissa := hfull.resolve_right (by omega)
    rw [le_div_iff₀ hscale]
    linarith
  have hm : (m : ℚ) + 1 ≤ 2 ^ 53 := by exact_mod_cast h.mantissa_lt
  linarith

/-- The exponent at which a number has a full mantissa is the one of the
double to which it rounds. Just under a power of two it is one less, and
the number rounds up to the power. -/
theorem IsDouble.exponent_cases (h : IsDouble m e) (hq : Rounds q m e) {t : Int} (ht : -1074 ≤ t)
    (hlt : q < 2 ^ 53 * 2 ^ t) (hfull : 2 ^ 52 * 2 ^ t ≤ q ∨ t = -1074) :
    t = e ∨ t = e - 1 ∧ m = 2 ^ 52 ∧ Near (q / 2 ^ t) (2 ^ 53) := by
  obtain hless | heq := lt_or_eq_of_le (h.le_of_full hq hfull)
  · exact .inr (h.just_below hq ht hless hlt)
  · exact .inl heq

/-- A number in the rounding interval of a double is rounded to that
double. -/
theorem IsDouble.roundWithAccuracy_of_rounds (h : IsDouble m e) (hq : Rounds q m e) (s : Sign)
    {m' : Nat} {e' : Int} {accuracy : Accuracy}
    (hcounts : Counts (.ofMantissaAndAccuracy m' accuracy) (q / 2 ^ e'))
    (he : e' ≤ Format.binary64.targetExponent (totalExponent m' e')) :
    UnpackedFloat.roundWithAccuracy .binary64 s m' e' accuracy = .finite s m e h.pos := by
  have hmantissa : (ExtendedMantissa.ofMantissaAndAccuracy m' accuracy).mantissa = m' := by
    cases accuracy with
    | exact => rfl
    | inexact o => cases o <;> rfl
  have hle := hcounts.mantissa_le
  have hlt := hcounts.lt_mantissa
  rw [hmantissa] at hle hlt
  obtain ⟨hleast, hbound, hfull⟩ := target_bounds hle hlt he
  have hfirst : UnpackedFloat.shiftToTargetExponent .binary64 m' e' accuracy =
      (ExtendedMantissa.ofMantissaAndAccuracy m' accuracy >>>
          (Format.binary64.targetExponent (totalExponent m' e') - e').toNat,
        e' + (Format.binary64.targetExponent (totalExponent m' e') - e').toNat) := rfl
  generalize Format.binary64.targetExponent (totalExponent m' e') = t at *
  obtain ⟨k, rfl⟩ : ∃ k : Nat, t = e' + k := ⟨(t - e').toNat, by omega⟩
  have hk : (e' + k - e').toNat = k := by omega
  rw [hk] at hfirst
  have hshifted := hcounts.shiftRight k
  rw [div_div, ← zpow_natCast (2 : ℚ) k, ← zpow_add₀ (by norm_num)] at hshifted
  unfold UnpackedFloat.roundWithAccuracy
  rw [hfirst]
  dsimp only
  obtain rfl | ⟨hless, rfl, hnear⟩ := h.exponent_cases hq hleast hbound hfull
  · have hagain := h.shiftToTargetExponent 0
    rw [pow_zero, Nat.mul_one, Int.natCast_zero, Int.sub_zero] at hagain
    rw [hshifted.roundedMantissa (hq.near h.pos), hagain]
    exact dif_neg h.pos.ne'
  · -- The mantissa has been rounded up and is a binary place too long.
    have hagain := h.shiftToTargetExponent 1
    rw [hshifted.roundedMantissa hnear, hless]
    have hpower : (2 : Nat) ^ 52 * 2 ^ 1 = 2 ^ 53 := rfl
    rw [hpower, Nat.cast_one] at hagain
    rw [hagain]
    exact dif_neg h.pos.ne'

/-- A numerator with enough bits leaves a full mantissa. -/
theorem le_quotient {a b k : Nat} (ha : 0 < a) (hb : 0 < b) (hbits : b.log2 + 53 ≤ a.log2 + k) :
    2 ^ 52 ≤ a * 2 ^ k / b := by
  rw [Nat.le_div_iff_mul_le hb]
  calc 2 ^ 52 * b ≤ 2 ^ 52 * 2 ^ (b.log2 + 1) := by gcongr; exact Nat.lt_log2_self.le
    _ = 2 ^ (b.log2 + 53) := by rw [← pow_add]; congr 1; omega
    _ ≤ 2 ^ (a.log2 + k) := Nat.pow_le_pow_right (by decide) hbits
    _ = 2 ^ a.log2 * 2 ^ k := pow_add ..
    _ ≤ a * 2 ^ k := by gcongr; exact Nat.log2_self_le ha.ne'

/-- A quotient in the rounding interval of a double is that double. -/
theorem IsDouble.div_of_rounds (h : IsDouble m e) {a b : Nat} {c d : Int} (ha : 0 < a) (hb : 0 < b)
    (hq : Rounds (a * 2 ^ c / (b * 2 ^ d)) m e) (s s' : Sign) :
    UnpackedFloat.div .binary64 (.finite s a c ha) (.finite s' b d hb) =
      .finite (s / s') m e h.pos := by
  show UnpackedFloat.roundWithAccuracy .binary64 (s / s')
    (a <<< _ / b) _ (accuracyOfFraction (a <<< _ % b) b) = _
  have htarget : ∀ n x, Format.binary64.targetExponent (totalExponent n x) =
      max ((n.log2 : Int) + 1 + x - 53) (-1074) := fun _ _ => rfl
  have hstart : min (c - d) (Format.binary64.targetExponent (totalExponent a c - totalExponent b d)) =
      min (c - d) (max ((a.log2 : Int) + 1 + c - (b.log2 + 1 + d) - 53) (-1074)) := rfl
  generalize min (c - d) (Format.binary64.targetExponent (totalExponent a c - totalExponent b d)) = t
    at hstart ⊢
  obtain ⟨k, hk⟩ : ∃ k : Nat, c - d = t + k := ⟨(c - d - t).toNat, by omega⟩
  have hshift : (c - d - t).toNat = k := by omega
  rw [hshift, Nat.shiftLeft_eq]
  refine h.roundWithAccuracy_of_rounds hq _ ?_ ?_
  · have hvalue : (a : ℚ) * 2 ^ c / (b * 2 ^ d) / 2 ^ t = ((a * 2 ^ k : Nat) : ℚ) / b := by
      have hc : c = t + k + d := by omega
      have hb' : (b : ℚ) ≠ 0 := by exact_mod_cast hb.ne'
      rw [hc, zpow_add₀ (by norm_num), zpow_add₀ (by norm_num), zpow_natCast]
      push_cast
      field_simp
    rw [hvalue]
    exact counts_quotient _ hb
  · rw [htarget]
    by_cases hleast : t ≤ -1074
    · omega
    · -- The quotient has as many bits as a double.
      have hbits : b.log2 + 53 ≤ a.log2 + k := by omega
      have hfull := le_quotient ha hb hbits
      have hlog : 52 ≤ (a * 2 ^ k / b).log2 := (Nat.le_log2 (by omega)).mpr hfull
      omega

/-- A product in the rounding interval of a double is that double, if the
mantissas are long enough together. -/
theorem IsDouble.mul_of_rounds (h : IsDouble m e) {a b : Nat} {c d : Int} (ha : 0 < a) (hb : 0 < b)
    (hfull : 2 ^ 52 ≤ a * b) (hq : Rounds (a * 2 ^ c * (b * 2 ^ d)) m e) (s s' : Sign) :
    UnpackedFloat.mul .binary64 (.finite s a c ha) (.finite s' b d hb) =
      .finite (s * s') m e h.pos := by
  show UnpackedFloat.roundWithAccuracy .binary64 (s * s') (a * b) (c + d) .exact = _
  refine h.roundWithAccuracy_of_rounds hq _ ?_ ?_
  · have hvalue : (a : ℚ) * 2 ^ c * (b * 2 ^ d) / 2 ^ (c + d) = ((a * b : Nat) : ℚ) := by
      rw [zpow_add₀ (by norm_num)]
      push_cast
      field_simp
    rw [hvalue]
    exact .exact _
  · have hlog : 52 ≤ (a * b).log2 := (Nat.le_log2 (by omega)).mpr hfull
    show c + d ≤ max (((a * b).log2 : Int) + 1 + (c + d) - 53) (-1074)
    omega

end

/-! ### Decimals -/

/-- The number that a decimal stands for. -/
def Decimal.value (d : Decimal) : ℚ :=
  d.units / 10 ^ d.places

/-- A positive number that a double stands for is in the form of one. -/
theorem unpack_of_value {x : Float} {q : ℚ} (h : value? x = some q) (hq : 0 < q) :
    ∃ m e, ∃ hdouble : IsDouble m e,
      x.toModel.unpack = .finite .positive m e hdouble.pos ∧ q = m * 2 ^ e := by
  obtain ⟨s, -, rfl⟩ | ⟨s, m, e, hdouble, hx, rfl⟩ := value?_cases h
  · exact absurd hq (lt_irrefl 0)
  · cases s with
    | positive => exact ⟨m, e, hdouble, hx, rfl⟩
    | negative =>
      have hpos := hdouble.value_pos
      simp only [Sign.apply, Int.cast_neg, Int.cast_natCast, neg_mul] at hq
      linarith

/-- A whole number of at most 53 bits is a double. -/
theorem value?_toFloat {n : Nat} (h : n < 2 ^ 53) : value? n.toUInt64.toFloat = some (n : ℚ) := by
  have hword : n.toUInt64.toNat = n := Nat.mod_eq_of_lt (by omega)
  have hrepresentable : Representable ((n : Int) * 2 ^ (0 : Int)) := by
    rw [zpow_zero, mul_one]
    exact representable_intCast (by rw [abs_le]; omega)
  have hvalue := value?_normalize hrepresentable
  rw [zpow_zero, mul_one, Int.cast_natCast] at hvalue
  show value? (.ofModel (.pack (normalize .binary64 (n.toUInt64.toNat : Int) 0 .positive))) = _
  rw [hword]
  exact hvalue

/-- The powers of ten that are doubles are at hand. -/
theorem value?_powersOfTen : ∀ i : Fin 23,
    value? (Float.exactlyRepresentablePowersOfTen[i]) = some (10 ^ i.val) := by
  decide +kernel

section
variable {m : Nat} {e : Int} (h : IsDouble m e) {units places : Nat}
include h

theorem IsDouble.pos_of_rounds {q : ℚ} (hq : Rounds q m e) : 1 / 2 * 2 ^ e ≤ q := by
  have hm : (1 : ℚ) ≤ m := by exact_mod_cast h.pos
  have hbelow := (hq.near h.pos).below
  rw [← le_div_iff₀ (by positivity)]
  linarith

/-- A decimal that rounds to a double has not too many places for its
digits. -/
theorem IsDouble.places_lt (hq : Rounds (units / 10 ^ places) m e) :
    places < units.log2 + 1076 := by
  have htwo : (2 : ℚ) ≠ 0 := by norm_num
  have hunits : (units : ℚ) < 2 ^ (units.log2 + 1) := by exact_mod_cast Nat.lt_log2_self
  have hlow : (2 : ℚ) ^ (-1075 : Int) < 2 ^ ((units.log2 : Int) + 1 - places) :=
    calc (2 : ℚ) ^ (-1075 : Int) ≤ 2 ^ (e - 1) :=
          zpow_le_zpow_right₀ (by norm_num) (by have := h.exponent_ge; omega)
      _ = 1 / 2 * 2 ^ e := by rw [zpow_sub_one₀ htwo]; ring
      _ ≤ units / 10 ^ places := h.pos_of_rounds hq
      _ < 2 ^ (units.log2 + 1) / 10 ^ places := by gcongr
      _ ≤ 2 ^ (units.log2 + 1) / 2 ^ places := by gcongr; norm_num
      _ = 2 ^ ((units.log2 : Int) + 1 - places) := by rw [zpow_sub₀ htwo]; norm_cast
  have hexponent := (zpow_lt_zpow_iff_right₀ (by norm_num)).mp hlow
  omega

theorem IsDouble.units_pos (hq : Rounds (units / 10 ^ places) m e) : 0 < units := by
  by_contra hzero
  obtain rfl : units = 0 := by omega
  have hlow := h.pos_of_rounds hq
  have hscale : (0 : ℚ) < 1 / 2 * 2 ^ e := by positivity
  rw [Nat.cast_zero, zero_div] at hlow
  linarith

/-- A short decimal is the quotient of two doubles. -/
theorem IsDouble.unpack_short (hunits : units < 2 ^ 53) (hplaces : places < 23)
    (hindex : places < Float.exactlyRepresentablePowersOfTen.size)
    (hq : Rounds (units / 10 ^ places) m e) :
    (units.toUInt64.toFloat / Float.exactlyRepresentablePowersOfTen[places]).toModel.unpack =
      .finite .positive m e h.pos := by
  have hten : value? Float.exactlyRepresentablePowersOfTen[places] = some (10 ^ places) :=
    value?_powersOfTen ⟨places, hplaces⟩
  obtain ⟨a, c, ha, hleft, hvalue⟩ :=
    unpack_of_value (value?_toFloat hunits) (by exact_mod_cast h.units_pos hq)
  obtain ⟨b, d, hb, hright, hpower⟩ := unpack_of_value hten (by positivity)
  show (Float.Model.pack (UnpackedFloat.div .binary64 units.toUInt64.toFloat.toModel.unpack
    Float.exactlyRepresentablePowersOfTen[places].toModel.unpack)).unpack = _
  rw [hvalue, hpower] at hq
  rw [hleft, hright, h.div_of_rounds ha.pos hb.pos hq]
  exact h.unpack_pack .positive

/-- A long decimal is divided in one go. -/
theorem IsDouble.unpack_long (hplaces : 0 < places) (hq : Rounds (units / 10 ^ places) m e) :
    (Float.Model.ofScientific units (-places)).unpack = .finite .positive m e h.pos := by
  have hpos := h.units_pos hq
  have hbound := h.places_lt hq
  have hbits : (2 : Int) ^ Format.binary64.exponentBits = 2048 := rfl
  have hten : 0 < 10 ^ (-(-(places : Int))).toNat := Nat.pow_pos (by decide)
  have hquotient : Rounds (units * 2 ^ (0 : Int) /
      ((10 ^ (-(-(places : Int))).toNat : Nat) * 2 ^ (0 : Int))) m e := by
    simpa using hq
  unfold Float.Model.ofScientific UnpackedFloat.ofScientific
  rw [dif_neg hpos.ne', if_neg (by omega), if_neg (by omega), if_neg (by omega),
    h.div_of_rounds hpos hten hquotient]
  exact h.unpack_pack .positive

/-- A decimal in the rounding interval of a double is read as that
double. -/
theorem IsDouble.unpack_ofScientific (hplaces : 0 < places)
    (hq : Rounds (units / 10 ^ places) m e) :
    (Float.ofScientific units true places).toModel.unpack = .finite .positive m e h.pos := by
  by_cases hshort : units < 2 ^ 53 ∧ places ≤ 22
  · have hindex : places < Float.exactlyRepresentablePowersOfTen.size := Nat.lt_succ_of_le hshort.2
    have hquotient : Float.ofScientific units true places =
        units.toUInt64.toFloat / Float.exactlyRepresentablePowersOfTen[places] := dif_pos hshort
    rw [hquotient]
    exact h.unpack_short hshort.1 (by omega) hindex hq
  · have hlong : Float.ofScientific units true places =
        .ofModel (.ofScientific units (Int.negOfNat places)) := dif_neg hshort
    rw [hlong, Int.negOfNat_eq]
    exact h.unpack_long hplaces hq

/-- A short whole number is multiplied by one. -/
theorem IsDouble.unpack_short_whole (hunits : units < 2 ^ 53) (hpos : 0 < units)
    (hq : Rounds units m e) :
    (units.toUInt64.toFloat * Float.exactlyRepresentablePowersOfTen[0]).toModel.unpack =
      .finite .positive m e h.pos := by
  obtain ⟨a, c, ha, hleft, hvalue⟩ :=
    unpack_of_value (value?_toFloat hunits) (by exact_mod_cast hpos)
  have hright : (Float.exactlyRepresentablePowersOfTen[0]).toModel.unpack =
      .finite .positive (2 ^ 52) (-52) (by decide) := rfl
  have hproduct : Rounds (a * 2 ^ c * ((2 ^ 52 : Nat) * 2 ^ (-52 : Int))) m e := by
    rw [← hvalue]
    norm_num
    exact hq
  show (Float.Model.pack (UnpackedFloat.mul .binary64 units.toUInt64.toFloat.toModel.unpack
    Float.exactlyRepresentablePowersOfTen[0].toModel.unpack)).unpack = _
  rw [hleft, hright, h.mul_of_rounds ha.pos _ (Nat.le_mul_of_pos_left _ ha.pos) hproduct]
  exact h.unpack_pack .positive

/-- A long one is too, with zeros behind it. -/
theorem IsDouble.unpack_long_whole (hpos : 0 < units) (hq : Rounds units m e) :
    (Float.Model.ofScientific units 0).unpack = .finite .positive m e h.pos := by
  have hbits : (2 : Int) ^ Format.binary64.exponentBits = 2048 := rfl
  have hproduct : Rounds ((units <<< 53 : Nat) * 2 ^ (-53 : Int) *
      ((10 ^ 0 : Nat) * 2 ^ (0 : Int))) m e := by
    rw [Nat.shiftLeft_eq, Nat.cast_mul, mul_assoc, mul_assoc]
    norm_num
    exact hq
  have hshifted : 0 < units <<< 53 := by
    rw [Nat.shiftLeft_eq]
    omega
  have hfull : 2 ^ 52 ≤ units <<< 53 * 10 ^ 0 := by
    rw [Nat.shiftLeft_eq]
    omega
  unfold Float.Model.ofScientific UnpackedFloat.ofScientific
  rw [dif_neg hpos.ne', if_neg (by decide), if_neg (by omega), if_pos (le_refl _)]
  show (Float.Model.pack (UnpackedFloat.mul .binary64 (.finite .positive (units <<< 53) (-53) hshifted)
    (.finite .positive (10 ^ 0) 0 (by decide)))).unpack = _
  rw [h.mul_of_rounds hshifted _ hfull hproduct]
  exact h.unpack_pack .positive

/-- So is a whole number. -/
theorem IsDouble.unpack_ofScientific_zero (hq : Rounds units m e) :
    (Float.ofScientific units false 0).toModel.unpack = .finite .positive m e h.pos := by
  have hwhole : Rounds (units / 10 ^ 0) m e := by rwa [pow_zero, div_one]
  have hpos : 0 < units := h.units_pos hwhole
  by_cases hshort : units < 2 ^ 53 ∧ 0 ≤ 22
  · have hproduct : Float.ofScientific units false 0 =
        units.toUInt64.toFloat * Float.exactlyRepresentablePowersOfTen[0] := dif_pos hshort
    rw [hproduct]
    exact h.unpack_short_whole hshort.1 hpos hq
  · have hlong : Float.ofScientific units false 0 = .ofModel (.ofScientific units 0) :=
      dif_neg hshort
    rw [hlong]
    exact h.unpack_long_whole hpos hq

end

end Treewalk.Number
