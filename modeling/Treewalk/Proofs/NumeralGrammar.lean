import Mathlib.Computability.RegularExpressions
import Treewalk.Number.Numeral

/-!
# `Treewalk.Proofs.NumeralGrammar`: the longest numeral at the front

`numeral` is the grammar of numerals as a regular expression:

    [+-]? ( D+ ( . D* )? | . D+ ) ( [eE] [+-]? D+ )?

`numeralFront` says what of a text a numeral takes, piece by piece: the
sign, the mantissa and the exponent, each as much as there is. It is
empty if there is no numeral. The main fact is `prefix_numeralFront`: it
goes as far as any numeral at the front does. What makes it hold is that
the pieces never compete. A mantissa ends where no digit and no point
can follow, so a shorter mantissa leaves no room for an exponent.

`scan?_cases` says that `Numeral.scan?` takes just this front, and so
`readWhole?_of_numeral` that every numeral can be read as a whole.
-/

set_option autoImplicit false

namespace Treewalk.Number

open RegularExpression (char star)

/-! ### The grammar -/

/-- One of some characters. -/
def oneOf (cs : List Char) : RegularExpression Char :=
  cs.foldr (fun c r => char c + r) 0

/-- Something that may be left out. -/
def optional (r : RegularExpression Char) : RegularExpression Char :=
  1 + r

/-- Something that may come again and again. -/
def repeated (r : RegularExpression Char) : RegularExpression Char :=
  r * star r

/-- A decimal digit. -/
def digit : RegularExpression Char :=
  oneOf ['0', '1', '2', '3', '4', '5', '6', '7', '8', '9']

/-- A sign that may be left out. -/
def sign : RegularExpression Char :=
  optional (oneOf ['+', '-'])

/-- Digits with a point among or around them. -/
def mantissa : RegularExpression Char :=
  repeated digit * optional (char '.' * star digit) + char '.' * repeated digit

/-- An exponent. -/
def exponent : RegularExpression Char :=
  oneOf ['e', 'E'] * sign * repeated digit

/-- A numeral. -/
def numeral : RegularExpression Char :=
  sign * mantissa * optional exponent

/-! ### What a numeral takes -/

/-- The sign at the front of a text. -/
def signFront : List Char → List Char
  | [] => []
  | c :: _ => if c = '+' ∨ c = '-' then [c] else []

/-- The digits at the front of a text. -/
def digitsFront (cs : List Char) : List Char :=
  cs.takeWhile Char.isDigit

/-- The mantissa at the front of a text. -/
def mantissaFront (cs : List Char) : List Char :=
  match cs.dropWhile Char.isDigit with
  | '.' :: rest =>
    if digitsFront cs = [] ∧ digitsFront rest = [] then []
    else digitsFront cs ++ '.' :: digitsFront rest
  | _ => digitsFront cs

/-- The exponent at the front of a text. -/
def exponentFront : List Char → List Char
  | [] => []
  | mark :: rest =>
    let digits := digitsFront (rest.drop (signFront rest).length)
    if (mark = 'e' ∨ mark = 'E') ∧ digits ≠ [] then mark :: (signFront rest ++ digits) else []

/-- The numeral at the front of a text. -/
def numeralFront (cs : List Char) : List Char :=
  let front := mantissaFront (cs.drop (signFront cs).length)
  if front = [] then []
  else signFront cs ++ front ++ exponentFront (cs.drop (signFront cs ++ front).length)

namespace Proofs

/-! ### Words of the grammar -/

theorem mem_oneOf {cs w : List Char} : w ∈ (oneOf cs).matches' ↔ ∃ c ∈ cs, w = [c] := by
  induction cs with
  | nil => simp [oneOf]
  | cons c rest ih =>
    have hor : w ∈ (oneOf (c :: rest)).matches' ↔ w = [c] ∨ w ∈ (oneOf rest).matches' := Iff.rfl
    rw [hor, ih]
    simp

theorem mem_optional {r : RegularExpression Char} {w : List Char} :
    w ∈ (optional r).matches' ↔ w = [] ∨ w ∈ r.matches' :=
  Iff.rfl

theorem isDigit_iff {c : Char} :
    c.isDigit = true ↔ c ∈ ['0', '1', '2', '3', '4', '5', '6', '7', '8', '9'] := by
  simp [Char.isDigit, Char.ext_iff, UInt32.le_iff_toNat_le, ← UInt32.toNat_inj]
  omega

theorem mem_digit {w : List Char} : w ∈ digit.matches' ↔ ∃ c, c.isDigit = true ∧ w = [c] := by
  simp only [digit, mem_oneOf, isDigit_iff]

/-- Digits, and nothing else. -/
def Digits (w : List Char) : Prop :=
  ∀ c ∈ w, c.isDigit = true

theorem mem_star_digit {w : List Char} : w ∈ (star digit).matches' ↔ Digits w := by
  rw [RegularExpression.matches'_star, Language.mem_kstar]
  constructor
  · rintro ⟨pieces, rfl, hpieces⟩ c hc
    obtain ⟨piece, hpiece, hmem⟩ := List.mem_flatten.mp hc
    obtain ⟨d, hd, rfl⟩ := mem_digit.mp (hpieces piece hpiece)
    rw [List.mem_singleton.mp hmem]
    exact hd
  · intro h
    refine ⟨w.map fun c => [c], ?_, fun piece hpiece => ?_⟩
    · rw [← List.flatMap_def, List.flatMap_singleton']
    obtain ⟨c, hc, rfl⟩ := List.mem_map.mp hpiece
    exact mem_digit.mpr ⟨c, h c hc, rfl⟩

theorem mem_repeated_digit {w : List Char} :
    w ∈ (repeated digit).matches' ↔ w ≠ [] ∧ Digits w := by
  rw [repeated, RegularExpression.matches'_mul, Language.mem_mul]
  constructor
  · rintro ⟨first, hfirst, rest, hrest, rfl⟩
    obtain ⟨c, hc, rfl⟩ := mem_digit.mp hfirst
    exact ⟨by simp, List.forall_mem_cons.mpr ⟨hc, mem_star_digit.mp hrest⟩⟩
  · rintro ⟨hne, h⟩
    obtain ⟨c, rest, rfl⟩ := List.exists_cons_of_ne_nil hne
    obtain ⟨hc, hrest⟩ := List.forall_mem_cons.mp h
    exact ⟨[c], mem_digit.mpr ⟨c, hc, rfl⟩, rest, mem_star_digit.mpr hrest, rfl⟩

theorem mem_sign {w : List Char} : w ∈ sign.matches' ↔ w = [] ∨ ∃ c, (c = '+' ∨ c = '-') ∧ w = [c] := by
  rw [sign, mem_optional, mem_oneOf]
  simp

/-- A mantissa is digits, or a point with digits on one side or both. -/
theorem mem_mantissa {w : List Char} :
    w ∈ mantissa.matches' ↔
      (w ≠ [] ∧ Digits w) ∨
        ∃ whole fraction, Digits whole ∧ Digits fraction ∧ (whole ≠ [] ∨ fraction ≠ []) ∧
          w = whole ++ '.' :: fraction := by
  have hor : w ∈ mantissa.matches' ↔
      (∃ whole ∈ (repeated digit).matches',
        ∃ rest ∈ (optional (char '.' * star digit)).matches', whole ++ rest = w) ∨
      ∃ point ∈ (char '.').matches', ∃ fraction ∈ (repeated digit).matches',
        point ++ fraction = w := Iff.rfl
  have hpoint : ∀ {r : RegularExpression Char} {v : List Char},
      v ∈ (char '.' * r).matches' ↔ ∃ u ∈ r.matches', v = '.' :: u := by
    intro r v
    rw [RegularExpression.matches'_mul, Language.mem_mul, RegularExpression.matches'_char]
    constructor
    · rintro ⟨_, rfl, u, hu, rfl⟩
      exact ⟨u, hu, rfl⟩
    · rintro ⟨u, hu, rfl⟩
      exact ⟨_, rfl, u, hu, rfl⟩
  rw [hor]
  constructor
  · rintro (⟨whole, hwhole, rest, hrest, rfl⟩ | ⟨_, rfl, fraction, hfraction, rfl⟩)
    · obtain ⟨hne, hdigits⟩ := mem_repeated_digit.mp hwhole
      rcases mem_optional.mp hrest with rfl | hrest
      · rw [List.append_nil]
        exact .inl ⟨hne, hdigits⟩
      · obtain ⟨fraction, hfraction, rfl⟩ := hpoint.mp hrest
        exact .inr ⟨whole, fraction, hdigits, mem_star_digit.mp hfraction, .inl hne, rfl⟩
    · obtain ⟨hne, hdigits⟩ := mem_repeated_digit.mp hfraction
      exact .inr ⟨[], fraction, List.forall_mem_nil _, hdigits, .inr hne, rfl⟩
  · rintro (⟨hne, hdigits⟩ | ⟨whole, fraction, hwhole, hfraction, hne, rfl⟩)
    · exact .inl ⟨w, mem_repeated_digit.mpr ⟨hne, hdigits⟩, [], .inl rfl, List.append_nil w⟩
    · by_cases hempty : whole = []
      · subst hempty
        have hne : fraction ≠ [] := hne.resolve_left (by simp)
        exact .inr ⟨['.'], rfl, fraction, mem_repeated_digit.mpr ⟨hne, hfraction⟩, rfl⟩
      · refine .inl ⟨whole, mem_repeated_digit.mpr ⟨hempty, hwhole⟩, _, ?_, rfl⟩
        exact mem_optional.mpr (.inr (hpoint.mpr ⟨fraction, mem_star_digit.mpr hfraction, rfl⟩))

/-- An exponent is a mark, perhaps a sign, and digits. -/
theorem mem_exponent {w : List Char} :
    w ∈ exponent.matches' ↔ ∃ mark signs digits, (mark = 'e' ∨ mark = 'E') ∧
      signs ∈ sign.matches' ∧ digits ≠ [] ∧ Digits digits ∧ w = mark :: (signs ++ digits) := by
  have hall : w ∈ exponent.matches' ↔ ∃ front, (∃ marks ∈ (oneOf ['e', 'E']).matches',
      ∃ signs ∈ sign.matches', marks ++ signs = front) ∧
        ∃ digits ∈ (repeated digit).matches', front ++ digits = w := Iff.rfl
  rw [hall]
  constructor
  · rintro ⟨_, ⟨marks, hmarks, signs, hsigns, rfl⟩, digits, hdigits, rfl⟩
    obtain ⟨mark, hmark, rfl⟩ := mem_oneOf.mp hmarks
    obtain ⟨hne, hdigits⟩ := mem_repeated_digit.mp hdigits
    exact ⟨mark, signs, digits, by simpa using hmark, hsigns, hne, hdigits, rfl⟩
  · rintro ⟨mark, signs, digits, hmark, hsigns, hne, hdigits, rfl⟩
    have hmarks : [mark] ∈ (oneOf ['e', 'E']).matches' := mem_oneOf.mpr ⟨mark, by simpa using hmark, rfl⟩
    exact ⟨_, ⟨[mark], hmarks, signs, hsigns, rfl⟩, digits, mem_repeated_digit.mpr ⟨hne, hdigits⟩, rfl⟩

/-- A numeral is a sign, a mantissa and an exponent, the first and the
last of which may be empty. -/
theorem mem_numeral {w : List Char} :
    w ∈ numeral.matches' ↔ ∃ signs digits rest, signs ∈ sign.matches' ∧ digits ∈ mantissa.matches' ∧
      (rest = [] ∨ rest ∈ exponent.matches') ∧ w = signs ++ digits ++ rest := by
  have hall : w ∈ numeral.matches' ↔ ∃ front, (∃ signs ∈ sign.matches',
      ∃ digits ∈ mantissa.matches', signs ++ digits = front) ∧
        ∃ rest ∈ (optional exponent).matches', front ++ rest = w := Iff.rfl
  rw [hall]
  constructor
  · rintro ⟨_, ⟨signs, hsigns, digits, hdigits, rfl⟩, rest, hrest, rfl⟩
    exact ⟨signs, digits, rest, hsigns, hdigits, mem_optional.mp hrest, rfl⟩
  · rintro ⟨signs, digits, rest, hsigns, hdigits, hrest, rfl⟩
    exact ⟨_, ⟨signs, hsigns, digits, hdigits, rfl⟩, rest, mem_optional.mpr hrest, rfl⟩

/-! ### Each piece takes what it can -/

section
variable {cs rest w : List Char}

/-- Digits end where no digit follows. -/
theorem digitsFront_append (hw : Digits w) (hrest : ∀ c ∈ rest.head?, c.isDigit = false) :
    digitsFront (w ++ rest) = w := by
  unfold digitsFront
  rw [List.takeWhile_append_of_pos hw]
  cases rest with
  | nil => simp
  | cons c rest => simp [hrest c rfl]

theorem dropWhile_append (hw : Digits w) (hrest : ∀ c ∈ rest.head?, c.isDigit = false) :
    (w ++ rest).dropWhile Char.isDigit = rest := by
  rw [List.dropWhile_append_of_pos hw]
  cases rest with
  | nil => rfl
  | cons c rest => simp [hrest c rfl]

theorem digits_digitsFront (cs : List Char) : Digits (digitsFront cs) :=
  List.all_eq_true.mp List.all_takeWhile

/-- All digits at the front are taken. -/
theorem prefix_digitsFront (hw : Digits w) (h : w <+: cs) : w <+: digitsFront cs := by
  obtain ⟨rest, rfl⟩ := h
  unfold digitsFront
  rw [List.takeWhile_append_of_pos hw]
  exact List.prefix_append ..

/-- One piece after another. -/
theorem append_isPrefix {v : List Char} (hw : w <+: cs) (hv : v <+: cs.drop w.length) :
    w ++ v <+: cs := by
  obtain ⟨tail, rfl⟩ := hw
  rw [List.drop_left] at hv
  rw [List.prefix_append_right_inj]
  exact hv

theorem signFront_isPrefix (cs : List Char) : signFront cs <+: cs := by
  unfold signFront
  split
  · exact List.prefix_rfl
  · split
    · exact ⟨_, rfl⟩
    · exact List.nil_prefix

theorem signFront_mem (cs : List Char) : signFront cs ∈ sign.matches' := by
  rw [mem_sign]
  unfold signFront
  split
  · exact .inl rfl
  · split
    · exact .inr ⟨_, ‹_›, rfl⟩
    · exact .inl rfl

/-- A sign that is not followed by another one is taken. -/
theorem signFront_append (hw : w ∈ sign.matches') (hrest : ∀ c ∈ rest.head?, c ≠ '+' ∧ c ≠ '-') :
    signFront (w ++ rest) = w := by
  rcases mem_sign.mp hw with rfl | ⟨c, hc, rfl⟩
  · cases rest with
    | nil => rfl
    | cons c rest =>
      obtain ⟨hplus, hminus⟩ := hrest c rfl
      exact if_neg (by simp [hplus, hminus])
  · exact if_pos hc

/-- A digit is no sign, no point and no mark of an exponent. -/
theorem ne_of_isDigit {c : Char} (h : c.isDigit = true) :
    c ≠ '+' ∧ c ≠ '-' ∧ c ≠ '.' ∧ c ≠ 'e' ∧ c ≠ 'E' := by
  refine ⟨?_, ?_, ?_, ?_, ?_⟩ <;> (rintro rfl; cases h)

/-- What a mantissa is made of. -/
theorem mantissa_chars (h : w ∈ mantissa.matches') :
    w ≠ [] ∧ ∀ c ∈ w, c.isDigit = true ∨ c = '.' := by
  rcases mem_mantissa.mp h with ⟨hne, hdigits⟩ | ⟨whole, fraction, hwhole, hfraction, -, rfl⟩
  · exact ⟨hne, fun c hc => .inl (hdigits c hc)⟩
  · refine ⟨by simp, fun c hc => ?_⟩
    simp only [List.mem_append, List.mem_cons] at hc
    rcases hc with hc | rfl | hc
    · exact .inl (hwhole c hc)
    · exact .inr rfl
    · exact .inl (hfraction c hc)

theorem mantissaFront_isPrefix (cs : List Char) : mantissaFront cs <+: cs := by
  have hsplit : digitsFront cs ++ cs.dropWhile Char.isDigit = cs := List.takeWhile_append_dropWhile
  unfold mantissaFront
  split
  · rename_i rest hrest
    split
    · exact List.nil_prefix
    · conv => rhs; rw [← hsplit, hrest]
      rw [List.prefix_append_right_inj, List.prefix_cons_inj]
      exact List.takeWhile_prefix _
  · exact List.takeWhile_prefix _

theorem mantissaFront_mem (h : mantissaFront cs ≠ []) : mantissaFront cs ∈ mantissa.matches' := by
  rw [mem_mantissa]
  unfold mantissaFront at h ⊢
  split
  · split
    · simp_all
    · rename_i hne
      refine .inr ⟨_, _, digits_digitsFront _, digits_digitsFront _, ?_, rfl⟩
      exact Classical.not_and_iff_not_or_not.mp hne
  · refine .inl ⟨?_, digits_digitsFront cs⟩
    simp_all

/-- No mantissa at the front goes further. -/
theorem prefix_mantissaFront (hw : w ∈ mantissa.matches') (h : w <+: cs) :
    w <+: mantissaFront cs := by
  rcases mem_mantissa.mp hw with ⟨hne, hdigits⟩ | ⟨whole, fraction, hwhole, hfraction, hne, rfl⟩
  · have hpre : w <+: digitsFront cs := prefix_digitsFront hdigits h
    have hfront : digitsFront cs ≠ [] := fun hnil => hne (List.prefix_nil.mp (hnil ▸ hpre))
    unfold mantissaFront
    split
    · rw [if_neg fun hboth => hfront hboth.1]
      exact hpre.trans (List.prefix_append ..)
    · exact hpre
  · obtain ⟨rest, rfl⟩ := h
    have hpoint : ∀ c ∈ ('.' :: (fraction ++ rest)).head?, c.isDigit = false := by simp
    have htaken : fraction <+: digitsFront (fraction ++ rest) :=
      prefix_digitsFront hfraction (List.prefix_append ..)
    have hnot : ¬ (whole = [] ∧ digitsFront (fraction ++ rest) = []) := by
      rintro ⟨hnil, hnone⟩
      rw [hnone, List.prefix_nil] at htaken
      exact hne.elim (· hnil) (· htaken)
    have hfront : mantissaFront (whole ++ '.' :: (fraction ++ rest)) =
        whole ++ '.' :: digitsFront (fraction ++ rest) := by
      unfold mantissaFront
      rw [dropWhile_append hwhole hpoint, digitsFront_append hwhole hpoint]
      exact if_neg hnot
    rw [List.append_assoc, List.cons_append, hfront, List.prefix_append_right_inj,
      List.prefix_cons_inj]
    exact htaken

theorem exponentFront_isPrefix (cs : List Char) : exponentFront cs <+: cs := by
  unfold exponentFront
  split
  · exact List.prefix_rfl
  · rename_i mark rest
    dsimp only
    split
    · rw [List.prefix_cons_inj]
      exact append_isPrefix (signFront_isPrefix rest) (List.takeWhile_prefix _)
    · exact List.nil_prefix

theorem exponentFront_mem (cs : List Char) :
    exponentFront cs = [] ∨ exponentFront cs ∈ exponent.matches' := by
  rw [mem_exponent]
  unfold exponentFront
  split
  · exact .inl rfl
  · rename_i mark rest
    dsimp only
    split
    · rename_i hmark
      exact .inr ⟨mark, _, _, hmark.1, signFront_mem rest, hmark.2, digits_digitsFront _, rfl⟩
    · exact .inl rfl

/-- No exponent at the front goes further. -/
theorem prefix_exponentFront (hw : w = [] ∨ w ∈ exponent.matches') (h : w <+: cs) :
    w <+: exponentFront cs := by
  rcases hw with rfl | hw
  · exact List.nil_prefix
  · obtain ⟨mark, signs, digits, hmark, hsigns, hne, hdigits, rfl⟩ := mem_exponent.mp hw
    obtain ⟨rest, rfl⟩ := h
    obtain ⟨d, tail, rfl⟩ := List.exists_cons_of_ne_nil hne
    have hd : d.isDigit = true := hdigits d (List.mem_cons_self ..)
    have hsign : signFront (signs ++ (d :: tail ++ rest)) = signs := by
      refine signFront_append hsigns fun c hc => ?_
      obtain rfl : d = c := by simpa using hc
      exact ⟨(ne_of_isDigit hd).1, (ne_of_isDigit hd).2.1⟩
    have htaken : d :: tail <+: digitsFront (d :: tail ++ rest) :=
      prefix_digitsFront hdigits (List.prefix_append ..)
    have hsome : digitsFront (d :: tail ++ rest) ≠ [] := fun hnil => by
      rw [hnil, List.prefix_nil] at htaken
      cases htaken
    have hfront : exponentFront (mark :: (signs ++ (d :: tail ++ rest))) =
        mark :: (signs ++ digitsFront (d :: tail ++ rest)) := by
      simp only [exponentFront, hsign, List.drop_left]
      exact if_pos ⟨hmark, hsome⟩
    rw [List.cons_append, List.append_assoc, hfront, List.prefix_cons_inj,
      List.prefix_append_right_inj]
    exact htaken

end

/-! ### The longest numeral -/

section
variable {cs w : List Char}

theorem numeralFront_isPrefix (cs : List Char) : numeralFront cs <+: cs := by
  unfold numeralFront
  dsimp only
  split
  · exact List.nil_prefix
  · refine append_isPrefix (append_isPrefix (signFront_isPrefix cs) (mantissaFront_isPrefix _)) ?_
    exact exponentFront_isPrefix _

/-- The numeral at the front is one. -/
theorem numeralFront_mem (h : numeralFront cs ≠ []) : numeralFront cs ∈ numeral.matches' := by
  unfold numeralFront at h ⊢
  dsimp only at h ⊢
  split at h
  · exact absurd rfl h
  · rename_i hfront
    rw [if_neg hfront, mem_numeral]
    exact ⟨_, _, _, signFront_mem cs, mantissaFront_mem hfront, exponentFront_mem _, rfl⟩

/-- No numeral at the front goes further. -/
theorem prefix_numeralFront (hw : w ∈ numeral.matches') (h : w <+: cs) : w <+: numeralFront cs := by
  obtain ⟨signs, digits, rest, hsigns, hdigits, hrest, rfl⟩ := mem_numeral.mp hw
  obtain ⟨tail, rfl⟩ := h
  obtain ⟨hne, hchars⟩ := mantissa_chars hdigits
  have hsign : signFront (signs ++ (digits ++ (rest ++ tail))) = signs := by
    refine signFront_append hsigns fun c hc => ?_
    have hmem : c ∈ digits := by
      obtain ⟨d, ds, rfl⟩ := List.exists_cons_of_ne_nil hne
      obtain rfl : d = c := by simpa using hc
      exact List.mem_cons_self ..
    rcases hchars c hmem with hdigit | rfl
    · exact ⟨(ne_of_isDigit hdigit).1, (ne_of_isDigit hdigit).2.1⟩
    · decide
  obtain ⟨more, hmore⟩ : digits <+: mantissaFront (digits ++ (rest ++ tail)) :=
    prefix_mantissaFront hdigits (List.prefix_append ..)
  have hfront : numeralFront (signs ++ (digits ++ (rest ++ tail))) =
      signs ++ (digits ++ (more ++ exponentFront ((rest ++ tail).drop more.length))) := by
    unfold numeralFront
    rw [hsign, List.drop_left, ← hmore]
    simp [hne]
  rw [List.append_assoc, List.append_assoc, List.append_assoc, hfront,
    List.prefix_append_right_inj, List.prefix_append_right_inj]
  cases more with
  | nil => exact prefix_exponentFront hrest (List.prefix_append ..)
  | cons c more =>
    -- The mantissa goes on here, so no mark of an exponent can stand here.
    have hlonger : mantissaFront (digits ++ (rest ++ tail)) ∈ mantissa.matches' :=
      mantissaFront_mem (by simp [← hmore])
    have hc : c.isDigit = true ∨ c = '.' :=
      (mantissa_chars hlonger).2 c (by simp [← hmore])
    have hnext : c :: more <+: rest ++ tail := by
      have hpre := mantissaFront_isPrefix (digits ++ (rest ++ tail))
      rwa [← hmore, List.prefix_append_right_inj] at hpre
    rcases hrest with rfl | hrest
    · exact List.nil_prefix
    · obtain ⟨mark, _, _, hmark, -, -, -, rfl⟩ := mem_exponent.mp hrest
      obtain rfl : c = mark := (List.cons_prefix_cons.mp hnext).1
      rcases hc with hdigit | rfl
      · obtain ⟨-, -, -, he, hE⟩ := ne_of_isDigit hdigit
        exact absurd hmark (by simp [he, hE])
      · exact absurd hmark (by decide)

/-- The longest prefix of a text that belongs to a language. -/
structure Longest (l : Language Char) (cs w : List Char) : Prop where
  isPrefix : w <+: cs
  mem : w ∈ l
  longest : ∀ v, v <+: cs → v ∈ l → v.length ≤ w.length

/-- What a numeral takes is the longest one there is, if there is one. -/
theorem longest_numeralFront (h : numeralFront cs ≠ []) :
    Longest numeral.matches' cs (numeralFront cs) where
  isPrefix := numeralFront_isPrefix cs
  mem := numeralFront_mem h
  longest _ hpre hv := (prefix_numeralFront hv hpre).length_le

example : ["5.e3x", "1e+", "-.5."].map (fun text => String.ofList (numeralFront text.toList)) =
    ["5.e3", "1", "-.5"] := by decide

/-- A numeral takes itself. -/
theorem numeralFront_self (hw : w ∈ numeral.matches') : numeralFront w = w :=
  (numeralFront_isPrefix w).eq_of_length_le (prefix_numeralFront hw List.prefix_rfl).length_le

theorem ne_nil_of_mem_numeral (hw : w ∈ numeral.matches') : w ≠ [] := by
  obtain ⟨signs, digits, rest, -, hdigits, -, rfl⟩ := mem_numeral.mp hw
  simp [(mantissa_chars hdigits).1]

end

/-! ### The scanner -/

section
variable (cs : List Char)

theorem takeSign_snd : (takeSign cs).2 = cs.drop (signFront cs).length := by
  unfold takeSign
  split
  · rfl
  · rfl
  · rename_i hminus hplus
    cases cs with
    | nil => rfl
    | cons c rest =>
      have hnone : ¬ (c = '+' ∨ c = '-') := by
        rintro (rfl | rfl)
        · exact hplus rest rfl
        · exact hminus rest rfl
      rw [signFront, if_neg hnone]
      rfl

/-- The digits that are split off, and the rest. -/
theorem exists_spanDigits :
    ∃ digits rest, spanDigits cs = (digits, rest) ∧ digitsFront cs = digits ∧
      cs.dropWhile Char.isDigit = rest ∧ cs.drop digits.length = rest := by
  refine ⟨_, _, rfl, rfl, rfl, ?_⟩
  conv => lhs; arg 2; rw [← List.takeWhile_append_dropWhile (p := Char.isDigit) (l := cs)]
  exact List.drop_left

/-- What is left behind two pieces. -/
theorem drop_append_length (w v : List Char) :
    cs.drop (w ++ v).length = (cs.drop w.length).drop v.length := by
  rw [List.drop_drop, List.length_append]

/-- The scanner has a mantissa where there is one, and goes on behind
it. -/
theorem takeMantissa?_cases :
    (mantissaFront cs = [] ∧ Numeral.takeMantissa? cs = none) ∨
      (mantissaFront cs ≠ [] ∧ ∃ whole fraction, Numeral.takeMantissa? cs =
        some (whole, fraction, cs.drop (mantissaFront cs).length)) := by
  obtain ⟨whole, rest, hspan, hfront, hdrop, hrest⟩ := exists_spanDigits cs
  unfold Numeral.takeMantissa? mantissaFront
  rw [hspan, hdrop, hfront]
  by_cases hpoint : ∃ after, rest = '.' :: after
  · obtain ⟨after, rfl⟩ := hpoint
    obtain ⟨fraction, tail, hspan', hfront', -, htail⟩ := exists_spanDigits after
    have hboth : cs.drop (whole ++ '.' :: fraction).length = tail := by
      rw [drop_append_length, hrest]
      exact htail
    cases whole <;> cases fraction <;> simp_all
  · cases whole <;> simp_all

/-- So it does with an exponent. -/
theorem takeExponent_snd : (Numeral.takeExponent cs).2 = cs.drop (exponentFront cs).length := by
  unfold Numeral.takeExponent exponentFront
  cases cs with
  | nil => rfl
  | cons mark rest =>
    have hsign := takeSign_snd rest
    obtain ⟨digits, tail, hspan, hfront, -, htail⟩ :=
      exists_spanDigits (rest.drop (signFront rest).length)
    have hboth : (mark :: rest).drop (mark :: (signFront rest ++ digits)).length = tail := by
      show rest.drop (signFront rest ++ digits).length = tail
      rw [drop_append_length, htail]
    rcases takeSign rest with ⟨negative, after⟩
    by_cases hmark : mark = 'e' ∨ mark = 'E'
    · cases digits <;> simp_all
    · simp [hmark]

/-- The scanner takes the numeral at the front. -/
theorem scan?_cases :
    (numeralFront cs = [] ∧ Numeral.scan? cs = none) ∨
      (numeralFront cs ≠ [] ∧
        ∃ n, Numeral.scan? cs = some (n, cs.drop (numeralFront cs).length)) := by
  obtain ⟨negative, hsign⟩ : ∃ negative,
      takeSign cs = (negative, cs.drop (signFront cs).length) :=
    ⟨_, Prod.ext rfl (takeSign_snd cs)⟩
  unfold Numeral.scan? numeralFront
  rw [hsign]
  obtain ⟨hfront, hnone⟩ | ⟨hfront, whole, fraction, hsome⟩ :=
    takeMantissa?_cases (cs.drop (signFront cs).length)
  · exact .inl ⟨if_pos hfront, by simp only [hnone]⟩
  · refine .inr ⟨by simp [hfront], ?_⟩
    have hexponent := takeExponent_snd ((cs.drop (signFront cs).length).drop
      (mantissaFront (cs.drop (signFront cs).length)).length)
    simp only [hsome, hexponent, if_neg hfront, drop_append_length]
    exact ⟨_, rfl⟩

end

/-- A numeral can be read as a whole. -/
theorem readWhole?_of_numeral {text : String} (h : text.toList ∈ numeral.matches') :
    ∃ n, Numeral.scan? text.toList = some (n, []) ∧ readWhole? text = some n.value := by
  obtain ⟨hnone, -⟩ | ⟨-, n, hscan⟩ := scan?_cases text.toList
  · rw [numeralFront_self h] at hnone
    exact absurd hnone (ne_nil_of_mem_numeral h)
  · rw [numeralFront_self h, List.drop_length] at hscan
    exact ⟨n, hscan, by simp only [readWhole?, hscan]⟩

end Proofs

end Treewalk.Number
