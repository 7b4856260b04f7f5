import Treewalk.Number.Rendering
import Treewalk.Proofs.LeadingNumber
import Treewalk.Proofs.Rounding
import Treewalk.Value.Operator

/-!
# `Treewalk.Proofs.NumberText`: numbers as text and back

The decimal of a double lies in its rounding interval
(`rounds_ofFraction`). Either it was found on a grid, where only decimals
in the interval count, or it is the fraction itself. So it is read as the
double again, as `Treewalk.Proofs.Rounding` has it.

The text of the decimal is its digits with a point among them
(`toList_render`), and the scanner takes all of it, as the units and
places that it was made from (`scan?_render`).

`round_trip` puts this together for all numbers. A finite one comes back
from its text. The words for the others are no numerals, so what is read
from the front of them is zero, although as a whole they are numbers.
-/

set_option autoImplicit false

namespace Treewalk.Number

open Float.Model (Format UnpackedFloat)
open Float.Model.UnpackedFloat

namespace Proofs

/-! ### The decimal of a double -/

section
variable {m : Nat} {e : Int}

/-- A double lies in its own rounding interval. -/
theorem rounds_self (hm : 0 < m) : Rounds (m * 2 ^ e) m e := by
  have hlow : (RoundingInterval.ofFraction m e).low < 4 * m := by
    unfold RoundingInterval.ofFraction
    dsimp only
    split <;> omega
  have hlow' : ((RoundingInterval.ofFraction m e).low : ℚ) < 4 * m := by exact_mod_cast hlow
  have hhigh : ((RoundingInterval.ofFraction m e).high : ℚ) = 4 * m + 2 := by
    exact_mod_cast (rfl : (RoundingInterval.ofFraction m e).high = 4 * m + 2)
  have hvalue : (m : ℚ) * 2 ^ e / 2 ^ e = m := mul_div_cancel_right₀ _ (by positivity)
  unfold Rounds RoundingInterval.Contains
  rw [hvalue, hhigh]
  split
  · exact ⟨hlow'.le, by linarith⟩
  · exact ⟨hlow', by linarith⟩

end

section
variable {i : RoundingInterval} {m k : Nat}

/-- What is found on a grid lies in the interval. -/
theorem contains_of_onGrid? {places : Nat} {d : Decimal}
    (h : Decimal.onGrid? i m k places = some d) : i.Contains (4 * (d.value * 2 ^ k)) := by
  have hcovered : ∀ units : Nat, i.covers (4 * units * 2 ^ k) (10 ^ places) = true →
      i.Contains (4 * ((⟨units, places⟩ : Decimal).value * 2 ^ k)) := by
    intro units hunits
    have hcontains := (i.covers_iff _ (Nat.pow_pos (by decide))).mp hunits
    have hvalue : ((4 * units * 2 ^ k : Nat) : ℚ) / (10 ^ places : Nat) =
        4 * ((⟨units, places⟩ : Decimal).value * 2 ^ k) := by
      rw [Decimal.value]
      push_cast
      ring
    rwa [hvalue] at hcontains
  unfold Decimal.onGrid? at h
  dsimp only at h
  split at h
  · rename_i hbelow _
    cases h
    exact hcovered _ hbelow
  · rename_i _ habove
    cases h
    exact hcovered _ habove
  · rename_i hbelow habove
    split at h
    · cases h
      exact hcovered _ hbelow
    · cases h
      exact hcovered _ habove
  · cases h

/-- A fraction with some binary places has as many decimal places. -/
theorem value_exact (m k : Nat) :
    (⟨m * 10 ^ k / 2 ^ k, k⟩ : Decimal).value * 2 ^ k = m := by
  have hten : 10 ^ k = 5 ^ k * 2 ^ k := by rw [← Nat.mul_pow]
  rw [Decimal.value, hten, ← Nat.mul_assoc, Nat.mul_div_cancel _ (Nat.two_pow_pos k)]
  have hten' : (10 : ℚ) ^ k = 5 ^ k * 2 ^ k := by rw [← mul_pow]; norm_num
  rw [hten']
  push_cast
  field_simp

/-- The search ends with a decimal in the interval, if only with the
fraction itself. -/
theorem contains_coarsest (hself : i.Contains (4 * m)) (more places : Nat)
    (hplaces : places + more = k) :
    i.Contains (4 * ((Decimal.coarsest i m k more places).value * 2 ^ k)) := by
  induction more generalizing places with
  | zero =>
    -- On this grid the fraction lies itself.
    obtain rfl : places = k := hplaces
    have hexact := value_exact m places
    show i.Contains (4 * ((⟨m * 10 ^ places / 2 ^ places, places⟩ : Decimal).value * 2 ^ places))
    rwa [hexact]
  | succ more ih =>
    rw [Decimal.coarsest]
    split
    · rename_i hfound
      exact contains_of_onGrid? hfound
    · exact ih (places + 1) (by omega)

end

/-- The decimal of a double rounds to the double. -/
theorem rounds_ofFraction {m : Nat} (hm : 0 < m) (e : Int) :
    Rounds (Decimal.ofFraction m e).value m e := by
  have hself := rounds_self (e := e) hm
  unfold Decimal.ofFraction
  split
  · rename_i shift
    have hvalue : (⟨m * Nat.pow 2 shift, 0⟩ : Decimal).value = m * 2 ^ (shift : Int) := by
      simp [Decimal.value]
    rw [Int.ofNat_eq_natCast, hvalue]
    exact hself
  · rename_i k
    have hscale : (2 : ℚ) ^ Int.negSucc k = (2 ^ (k + 1))⁻¹ := zpow_negSucc ..
    dsimp only
    split
    · rename_i hwhole
      obtain ⟨n, rfl⟩ : 2 ^ (k + 1) ∣ m := Nat.dvd_of_mod_eq_zero hwhole
      have hvalue : (⟨2 ^ (k + 1) * n / 2 ^ (k + 1), 0⟩ : Decimal).value =
          (2 ^ (k + 1) * n : Nat) * 2 ^ Int.negSucc k := by
        rw [hscale, Decimal.value, Nat.mul_div_cancel_left _ (Nat.two_pow_pos _)]
        push_cast
        field_simp
      exact hvalue ▸ hself
    · unfold Rounds at hself ⊢
      rw [hscale, div_inv_eq_mul] at hself ⊢
      rw [inv_mul_cancel_right₀ (by positivity)] at hself
      exact contains_coarsest hself _ _ (Nat.zero_add _)

/-! ### The text of a decimal -/

theorem digitsValue_append (cs ds : List Char) :
    digitsValue (cs ++ ds) = 10 ^ ds.length * digitsValue cs + digitsValue ds := by
  show Nat.ofDigitChars 10 (cs ++ ds) 0 = _
  rw [Nat.ofDigitChars_append, Nat.ofDigitChars_eq_ofDigitChars_zero]
  rfl

/-- Zeros in front do not count. -/
theorem digitsValue_pad (n : Nat) (cs : List Char) :
    digitsValue (List.replicate n '0' ++ cs) = digitsValue cs := by
  have hzeros : digitsValue (List.replicate n '0') = 0 :=
    Nat.ofDigitChars_replicate_zero.trans (Nat.mul_zero _)
  rw [digitsValue_append, hzeros, Nat.mul_zero, Nat.zero_add]

/-- A whole number is written in digits, which read as the number. -/
theorem digits_toString (n : Nat) :
    (toString n).toList ≠ [] ∧ Digits (toString n).toList ∧ digitsValue (toString n).toList = n := by
  rw [Nat.toString_eq_ofList_toDigits, String.toList_ofList]
  exact ⟨Nat.toDigits_ne_nil, fun c hc => Nat.isDigit_of_mem_toDigits (by decide) le_rfl hc,
    Nat.ofDigitChars_ten_toDigits⟩

/-- The digits of a decimal: those before the point, and as many after it
as it has places. Together they read as its units. -/
theorem toList_render (d : Decimal) :
    ∃ whole fraction, d.render.toList = whole ++ (if d.places = 0 then [] else '.' :: fraction) ∧
      whole ≠ [] ∧ Digits whole ∧ Digits fraction ∧ fraction.length = d.places ∧
      digitsValue (whole ++ fraction) = d.units := by
  obtain ⟨units, places⟩ := d
  obtain ⟨hne, hdigits, hvalue⟩ := digits_toString (units / 10 ^ places)
  by_cases hplaces : places = 0
  · subst hplaces
    refine ⟨_, [], ?_, hne, hdigits, List.forall_mem_nil _, rfl, ?_⟩
    · simp [Decimal.render]
    · simpa using hvalue
  · -- The rest of the units is filled up with zeros in front.
    obtain ⟨-, hdigits', hvalue'⟩ := digits_toString (units % 10 ^ places)
    have hshort : (toString (units % 10 ^ places)).length ≤ places := by
      rw [Nat.toString_eq_ofList_toDigits, String.length_ofList]
      exact (Nat.length_toDigits_le_iff (by decide) (Nat.pos_of_ne_zero hplaces)).mpr
        (Nat.mod_lt _ (Nat.pow_pos (by decide)))
    have hlength : (List.replicate (places - (toString (units % 10 ^ places)).length) '0' ++
        (toString (units % 10 ^ places)).toList).length = places := by
      rw [List.length_append, List.length_replicate, String.length_toList]
      omega
    refine ⟨_, _, ?_, hne, hdigits, ?_, hlength, ?_⟩
    · simp [Decimal.render, hplaces]
    · intro c hc
      rcases List.mem_append.mp hc with hc | hc
      · rw [List.eq_of_mem_replicate hc]
        rfl
      · exact hdigits' c hc
    · rw [digitsValue_append, hlength, hvalue, digitsValue_pad, hvalue']
      exact Nat.div_add_mod units (10 ^ places)

/-! ### Reading a decimal -/

theorem spanDigits_append {w rest : List Char} (hw : Digits w)
    (hrest : ∀ c ∈ rest.head?, c.isDigit = false) : spanDigits (w ++ rest) = (w, rest) :=
  Prod.ext (digitsFront_append hw hrest) (dropWhile_append hw hrest)

theorem spanDigits_self {w : List Char} (hw : Digits w) : spanDigits w = (w, []) := by
  have hnone : ∀ c ∈ ([] : List Char).head?, c.isDigit = false := by simp
  simpa using spanDigits_append hw hnone

theorem takeSign_of_isDigit {c : Char} (hc : c.isDigit = true) (cs : List Char) :
    takeSign (c :: cs) = (false, c :: cs) := by
  obtain ⟨hplus, hminus, -⟩ := ne_of_isDigit hc
  unfold takeSign
  split <;> simp_all

/-- The mantissa of a decimal is taken as a whole. -/
theorem takeMantissa?_digits {whole fraction : List Char} (hne : whole ≠ []) (hwhole : Digits whole)
    (hfraction : Digits fraction) :
    Numeral.takeMantissa? whole = some (whole, [], []) ∧
      Numeral.takeMantissa? (whole ++ '.' :: fraction) = some (whole, fraction, []) := by
  have hpoint : spanDigits (whole ++ '.' :: fraction) = (whole, '.' :: fraction) :=
    spanDigits_append hwhole (by simp)
  obtain ⟨c, more, rfl⟩ := List.exists_cons_of_ne_nil hne
  unfold Numeral.takeMantissa?
  rw [spanDigits_self hwhole, hpoint]
  refine ⟨rfl, ?_⟩
  show some (c :: more, (spanDigits fraction).1, (spanDigits fraction).2) = _
  rw [spanDigits_self hfraction]

/-- A decimal is scanned to its end, as its units and places. -/
theorem scan?_render (s : Sign) (d : Decimal) :
    Numeral.scan? (signMark s ++ d.render).toList =
      some (⟨s == .negative, d.units, d.places, 0⟩, []) := by
  obtain ⟨whole, fraction, hrender, hne, hwhole, hfraction, hplaces, hunits⟩ := toList_render d
  obtain ⟨hshort, hlong⟩ := takeMantissa?_digits hne hwhole hfraction
  obtain ⟨c, more, rfl⟩ := List.exists_cons_of_ne_nil hne
  have hsign : takeSign (signMark s ++ d.render).toList = (s == .negative, d.render.toList) := by
    rw [String.toList_append, hrender]
    cases s with
    | negative => rfl
    | positive => exact takeSign_of_isDigit (hwhole c (List.mem_cons_self ..)) _
  have hmantissa : Numeral.takeMantissa? d.render.toList = some (c :: more, fraction, []) := by
    rw [hrender]
    split
    · rename_i hzero
      obtain rfl : fraction = [] := List.eq_nil_of_length_eq_zero (hplaces.trans hzero)
      rw [List.append_nil]
      exact hshort
    · exact hlong
  unfold Numeral.scan?
  rw [hsign]
  dsimp only
  rw [hmantissa]
  simp only [hunits, hplaces]
  rfl

/-- What the scanner takes as a whole is a numeral. -/
theorem mem_numeral_of_scan? {cs : List Char} {n : Numeral} (h : Numeral.scan? cs = some (n, [])) :
    cs ∈ numeral.matches' := by
  obtain ⟨-, hnone⟩ | ⟨hfront, n', hsome⟩ := scan?_cases cs
  · cases hnone.symm.trans h
  · have hrest : cs.drop (numeralFront cs).length = [] :=
      congrArg Prod.snd (Option.some.inj (hsome.symm.trans h))
    have hself : numeralFront cs = cs :=
      (numeralFront_isPrefix cs).eq_of_length_le (List.drop_eq_nil_iff.mp hrest)
    rw [← hself]
    exact numeralFront_mem hfront

/-- A digit, a sign and a point are no blanks. -/
theorem isBlank_of_digit_or {c : Char}
    (h : c.isDigit = true ∨ c = '.' ∨ c = '+' ∨ c = '-') : Text.isBlank c = false := by
  have hall : (['0', '1', '2', '3', '4', '5', '6', '7', '8', '9'] ++ ['.', '+', '-']).all
      (fun c => Text.isBlank c == false) = true := rfl
  refine eq_of_beq (List.all_eq_true.mp hall c (List.mem_append.mpr ?_))
  rwa [← isDigit_iff, List.mem_cons, List.mem_cons, List.mem_singleton]

/-- A numeral begins with no blank. -/
theorem dropWhile_isBlank_of_numeral {cs : List Char} (h : cs ∈ numeral.matches') :
    cs.dropWhile Text.isBlank = cs := by
  obtain ⟨signs, digits, rest, hsigns, hdigits, -, rfl⟩ := mem_numeral.mp h
  obtain ⟨hne, hchars⟩ := mantissa_chars hdigits
  obtain ⟨d, ds, rfl⟩ := List.exists_cons_of_ne_nil hne
  rcases mem_sign.mp hsigns with rfl | ⟨c, hc, rfl⟩
  · have hfirst := hchars d (List.mem_cons_self ..)
    exact List.dropWhile_cons_of_neg (by simp [isBlank_of_digit_or (hfirst.imp_right .inl)])
  · exact List.dropWhile_cons_of_neg (by simp [isBlank_of_digit_or (.inr (.inr hc))])

/-- Reading what a numeral begins with is reading all of it. -/
theorem readLeading_of_numeral {text : String} (h : text.toList ∈ numeral.matches') :
    readWhole? text = some (readLeading text) := by
  have hstop := numeralEnd?_bytesOf text.toList
  rw [numeralFront_self h, if_neg (ne_nil_of_mem_numeral h)] at hstop
  have hfront := front?_bytesOf text.toList []
  rw [List.append_nil, String.ofList_toList] at hfront
  rw [← dropWhile_isBlank_of_numeral h] at hstop hfront
  obtain ⟨n, -, hread⟩ := readWhole?_of_numeral h
  rw [readLeading_of_end hstop hfront, hread]
  rfl

/-! ### There and back -/

/-- A decimal that rounds to a double is read as that double, the sign
apart. -/
theorem unpack_value {m : Nat} {e : Int} (h : IsDouble m e) {d : Decimal} (hd : Rounds d.value m e)
    (s : Sign) :
    (Numeral.value ⟨s == .negative, d.units, d.places, 0⟩).toModel.unpack = .finite s m e h.pos := by
  obtain ⟨size, hvalue, hsize⟩ : ∃ size : Float,
      Numeral.value ⟨s == .negative, d.units, d.places, 0⟩ =
        (if (s == .negative) = true then -size else size) ∧
      size.toModel.unpack = .finite .positive m e h.pos := by
    obtain ⟨units, places⟩ := d
    -- With places the exponent is negative, and the units are divided.
    cases places with
    | zero =>
      rw [Decimal.value, pow_zero, div_one] at hd
      exact ⟨_, rfl, h.unpack_ofScientific_zero hd⟩
    | succ p =>
      have hneg : (0 : Int) - (p + 1 : Nat) = Int.negSucc p := by omega
      refine ⟨Float.ofScientific units true (p + 1), ?_, h.unpack_ofScientific (Nat.succ_pos p) hd⟩
      unfold Numeral.value
      dsimp only
      rw [hneg]
  rw [hvalue]
  cases s with
  | positive => exact hsize
  | negative =>
    show (Float.Model.pack (UnpackedFloat.neg size.toModel.unpack)).unpack = _
    rw [hsize]
    exact h.unpack_pack .negative

/-- What becomes of a number that is converted to text and back. -/
structure RoundTrip (x : Float) : Prop where
  text : Value.convert "Text" (.number x) = .ok (.text (render x))
  number : Value.convert "Num" (.text (render x)) = .ok (.number (readLeading (render x)))
  /-- The text of a finite number is a numeral from end to end. -/
  numeral : x.isFinite = true → (render x).toList ∈ numeral.matches'
  /-- So a number comes back if it is finite, and only then. -/
  finite : (readLeading (render x) == x) = true ↔ x.isFinite = true
  /-- Any other comes back as zero. -/
  infinite : x.isFinite = false → readLeading (render x) = 0
  /-- Read as a whole, the text of an infinity is the infinity. -/
  whole : ∃ y, readWhole? (render x) = some y ∧ ((y == x) = true ↔ x.isNaN = false)

/-- A number whose text is a numeral that reads as the number comes back. -/
theorem RoundTrip.of_numeral {x : Float} {q : ℚ} (hmem : (render x).toList ∈ Number.numeral.matches')
    (hread : value? (readLeading (render x)) = some q) (hx : value? x = some q)
    (hfinite : x.isFinite = true) : RoundTrip x := by
  have hsame : (readLeading (render x) == x) = true := (beq_iff_value hread hx).mpr rfl
  exact
    { text := rfl
      number := rfl
      numeral := fun _ => hmem
      finite := ⟨fun _ => hfinite, fun _ => hsame⟩
      infinite := fun h => absurd (hfinite.symm.trans h) (by decide)
      whole := ⟨_, readLeading_of_numeral hmem, fun _ => isNaN_of_value hx, fun _ => hsame⟩ }

/-- A number that is written as a word does not come back. -/
theorem RoundTrip.of_word {x y : Float} {word : String} (hrender : render x = word)
    (hfinite : x.isFinite = false) (hzero : readLeading word = 0) (hx : (0 == x) = false)
    (hword : readWhole? word = some y) (hy : (y == x) = true ↔ x.isNaN = false) :
    RoundTrip x := by
  subst hrender
  exact
    { text := rfl
      number := rfl
      numeral := fun h => absurd (h.symm.trans hfinite) (by decide)
      finite := by simp [hzero, hx, hfinite]
      infinite := fun _ => hzero
      whole := ⟨y, hword, hy⟩ }

/-- What is said of a number is said of what it decodes to. -/
theorem decoded {x : Float} {u : UnpackedFloat} (hx : x.toModel.unpack = u) :
    render x = renderUnpacked u ∧ x.isFinite = u.isFinite ∧ x.isNaN = u.isNaN ∧
      value? x = fraction? u ∧ ∀ y : Float, (y == x) = (y.toModel.unpack.compare u == some .eq) := by
  subst hx
  exact ⟨rfl, rfl, rfl, rfl, fun _ => rfl⟩

/-- A finite number is written as a numeral that reads as the number. -/
theorem RoundTrip.of_finite {x : Float} {s : Sign} {m : Nat} {e : Int} {hm : 0 < m}
    (hx : x.toModel.unpack = .finite s m e hm) : RoundTrip x := by
  have hdouble : IsDouble m e := .of_unpack hx
  obtain ⟨hrender, hfinite, -, hvalue, -⟩ := decoded hx
  have hscan := scan?_render s (Decimal.ofFraction m e)
  rw [show signMark s ++ (Decimal.ofFraction m e).render = render x from hrender.symm] at hscan
  have hmem := mem_numeral_of_scan? hscan
  have hread : readLeading (render x) = Numeral.value
      ⟨s == .negative, (Decimal.ofFraction m e).units, (Decimal.ofFraction m e).places, 0⟩ := by
    have hwhole := readLeading_of_numeral hmem
    simp only [readWhole?, hscan, Option.some.injEq] at hwhole
    exact hwhole.symm
  refine .of_numeral hmem ?_ hvalue hfinite
  rw [hread, value?, unpack_value hdouble (rounds_ofFraction hm e)]
  rfl

/-- Both zeros are written as the numeral of zero. -/
theorem RoundTrip.of_zero {x : Float} {s : Sign} (hx : x.toModel.unpack = .zero s) :
    RoundTrip x := by
  obtain ⟨hrender, hfinite, -, hvalue, -⟩ := decoded hx
  have htext : render x = "0" := hrender
  refine .of_numeral ?_ ?_ hvalue hfinite
  · rw [htext]
    exact mem_numeral_of_scan? (n := ⟨false, 0, 0, 0⟩) rfl
  · rw [htext]
    rfl

/-- A number comes back from its text if it is finite. -/
theorem round_trip (x : Float) : RoundTrip x := by
  cases hx : x.toModel.unpack with
  | finite s m e hm => exact .of_finite hx
  | zero s => exact .of_zero hx
  | notANumber =>
    obtain ⟨hrender, hfinite, hnan, -, hbeq⟩ := decoded hx
    exact .of_word (y := 0 / 0) hrender hfinite rfl (hbeq 0) rfl (by rw [hbeq, hnan]; decide)
  | infinity s =>
    obtain ⟨hrender, hfinite, hnan, -, hbeq⟩ := decoded hx
    -- The words are closed texts, so what is read of them is computed.
    cases s with
    | positive =>
      exact .of_word (y := 1 / 0) hrender hfinite rfl (hbeq 0) rfl (by rw [hbeq, hnan]; decide)
    | negative =>
      exact .of_word (y := -1 / 0) hrender hfinite rfl (hbeq 0) rfl (by rw [hbeq, hnan]; decide)

/-- An infinity is lost on the way through its text. -/
theorem infinity_lost :
    (1 / 0 : Float).isNaN = false ∧
      Value.convert "Text" (.number (1 / 0)) = .ok (.text "inf") ∧
      Value.convert "Num" (.text "inf") = .ok (.number 0) ∧
      (0 == (1 / 0 : Float)) = false :=
  ⟨rfl, rfl, rfl, rfl⟩

end Proofs

end Treewalk.Number
