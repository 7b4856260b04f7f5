import Treewalk.Proofs.NumeralGrammar

/-!
# `Treewalk.Proofs.LeadingNumber`: the number that a text begins with

`readLeading` looks for the end of a numeral among the bytes of a text
and cuts the text there. A byte of a digit, a sign, a point or a mark
never is part of a longer character, so what is found among the bytes is
what stands among the characters. Each lemma `…End_bytesOf` says this of
one piece: from the end of some characters on, the bytes lead to the end
of what the piece takes.

`readLeading_longest` puts this together with
`Treewalk.Proofs.NumeralGrammar`: the cut is at the end of the longest
numeral, between two characters, and what is cut off can be read.
-/

set_option autoImplicit false

namespace Treewalk.Number.Proofs

/-! ### Bytes of characters -/

theorem bytesOf_append (w v : List Char) : bytesOf (w ++ v) = bytesOf w ++ bytesOf v :=
  List.flatMap_append

theorem bytesOf_cons (c : Char) (cs : List Char) :
    bytesOf (c :: cs) = String.utf8EncodeChar c ++ bytesOf cs :=
  List.flatMap_cons

/-- A character below 128 is its own byte. -/
theorem utf8EncodeChar_of_lt {c : Char} (h : c.toNat < 128) :
    String.utf8EncodeChar c = [c.toUInt8] := by
  refine String.utf8EncodeChar_eq_singleton (Char.utf8Size_eq_one_iff.mpr ?_)
  rw [UInt32.le_iff_toNat_le]
  exact Nat.lt_succ_iff.mp h

/-- All other characters begin with a byte that is no character. -/
theorem exists_utf8EncodeChar {c : Char} (h : 128 ≤ c.toNat) :
    ∃ b rest, String.utf8EncodeChar c = b :: rest ∧ 128 ≤ b.toNat := by
  have hbig : ¬ c.val.toNat ≤ 0x7f := by
    show ¬ c.toNat ≤ 0x7f
    omega
  unfold String.utf8EncodeChar
  simp only [if_neg hbig]
  split
  · refine ⟨_, _, rfl, ?_⟩
    simp
    omega
  · split
    · refine ⟨_, _, rfl, ?_⟩
      simp
      omega
    · refine ⟨_, _, rfl, ?_⟩
      simp
      omega

/-- There are bytes where there are characters. -/
theorem length_lt_append {w v : List Char} :
    (bytesOf w).length < (bytesOf (w ++ v)).length ↔ v ≠ [] := by
  rw [bytesOf_append, List.length_append]
  cases v with
  | nil => simp [bytesOf]
  | cons c v =>
    have hpos : 0 < (String.utf8EncodeChar c).length :=
      List.length_pos_of_ne_nil String.utf8EncodeChar_ne_nil
    rw [bytesOf_cons, List.length_append]
    exact ⟨fun _ => List.cons_ne_nil c v, fun _ => by omega⟩

theorem toNat_toUInt8 {c : Char} (h : c.toNat < 128) : c.toUInt8.toNat = c.toNat := by
  show c.val.toUInt8.toNat = c.toNat
  rw [UInt32.toNat_toUInt8]
  exact Nat.mod_eq_of_lt (by exact Nat.lt_trans h (by decide))

theorem toUInt8_inj {c a : Char} (hc : c.toNat < 128) (ha : a.toNat < 128)
    (h : c.toUInt8 = a.toUInt8) : c = a := by
  have hnat : c.toNat = a.toNat := by rw [← toNat_toUInt8 hc, h, toNat_toUInt8 ha]
  exact Char.ext (UInt32.toNat_inj.mp hnat)

/-- A byte below 128 stands at the end of some characters just if the
next character does. -/
theorem hasByte_bytesOf {a : Char} (ha : a.toNat < 128) (w cs : List Char) :
    hasByte (bytesOf (w ++ cs)) (bytesOf w).length a = true ↔ cs.head? = some a := by
  unfold hasByte
  rw [decide_eq_true_iff, bytesOf_append, List.getElem?_append_right (Nat.le_refl _), Nat.sub_self]
  cases cs with
  | nil => simp [bytesOf]
  | cons c cs =>
    rw [bytesOf_cons]
    by_cases hc : c.toNat < 128
    · rw [utf8EncodeChar_of_lt hc]
      simp only [List.cons_append, List.getElem?_cons_zero, List.head?_cons, Option.some.injEq]
      exact ⟨toUInt8_inj hc ha, fun h => by rw [h]⟩
    · obtain ⟨b, rest, hbytes, hb⟩ := exists_utf8EncodeChar (Nat.le_of_not_lt hc)
      rw [hbytes]
      simp only [List.cons_append, List.getElem?_cons_zero, List.head?_cons, Option.some.injEq]
      constructor
      · intro h
        rw [h, toNat_toUInt8 ha] at hb
        omega
      · intro h
        rw [h] at hc
        exact absurd ha hc

/-- The byte of a digit is the byte of a character that is one. -/
theorem isDigitByte_toUInt8 {c : Char} (h : c.toNat < 128) : isDigitByte c.toUInt8 = c.isDigit := by
  have hbyte := toNat_toUInt8 h
  rw [Bool.eq_iff_iff]
  simp only [isDigitByte, Char.isDigit, Bool.and_eq_true, decide_eq_true_eq, UInt8.le_iff_toNat_le,
    UInt32.le_iff_toNat_le, hbyte]
  rfl

theorem takeWhile_bytesOf (cs : List Char) :
    (bytesOf cs).takeWhile isDigitByte = bytesOf (digitsFront cs) := by
  induction cs with
  | nil => rfl
  | cons c cs ih =>
    unfold digitsFront at ih ⊢
    rw [bytesOf_cons, List.takeWhile_cons]
    by_cases hc : c.toNat < 128
    · rw [utf8EncodeChar_of_lt hc, List.cons_append, List.nil_append, List.takeWhile_cons,
        isDigitByte_toUInt8 hc, ih]
      split
      · rw [bytesOf_cons, utf8EncodeChar_of_lt hc]
        rfl
      · rfl
    · obtain ⟨b, rest, hbytes, hb⟩ := exists_utf8EncodeChar (Nat.le_of_not_lt hc)
      have hbyte : isDigitByte b = false := by
        have hnine : ¬ b ≤ '9'.toUInt8 := fun hle => by
          have hle : b.toNat ≤ 57 := UInt8.le_iff_toNat_le.mp hle
          omega
        simp [isDigitByte, hnine]
      have hchar : c.isDigit = false := by
        have hnine : ¬ c.val.toNat ≤ '9'.val.toNat := fun hle => by
          have hle : c.toNat ≤ 57 := hle
          omega
        simp only [Char.isDigit, UInt32.le_iff_toNat_le, hnine, decide_false, Bool.and_false]
      rw [hbytes, List.cons_append, List.takeWhile_cons, hbyte, hchar]
      rfl

/-! ### Ends of pieces -/

section
variable (w cs : List Char)

theorem digitsEnd_bytesOf :
    digitsEnd (bytesOf (w ++ cs)) (bytesOf w).length = (bytesOf (w ++ digitsFront cs)).length := by
  unfold digitsEnd
  rw [bytesOf_append, List.drop_left, takeWhile_bytesOf, bytesOf_append, List.length_append]

theorem signEnd_bytesOf :
    signEnd (bytesOf (w ++ cs)) (bytesOf w).length = (bytesOf (w ++ signFront cs)).length := by
  have hplus := hasByte_bytesOf (a := '+') (by decide) w cs
  have hminus := hasByte_bytesOf (a := '-') (by decide) w cs
  unfold signEnd
  simp only [Bool.or_eq_true, hplus, hminus]
  unfold signFront
  cases cs with
  | nil => simp
  | cons c cs =>
    simp only [List.head?_cons, Option.some.injEq]
    split
    · rename_i hc
      rw [bytesOf_append, List.length_append]
      rcases hc with rfl | rfl <;> rfl
    · rw [List.append_nil]

/-- A character below 128 takes one byte. -/
theorem length_bytesOf_concat {c : Char} (h : c.toNat < 128) :
    (bytesOf w).length + 1 = (bytesOf (w ++ [c])).length := by
  rw [bytesOf_append, bytesOf_cons, utf8EncodeChar_of_lt h, List.length_append]
  rfl

theorem mantissaEnd?_bytesOf :
    mantissaEnd? (bytesOf (w ++ cs)) (bytesOf w).length =
      if mantissaFront cs = [] then none else some (bytesOf (w ++ mantissaFront cs)).length := by
  have hcs : digitsFront cs ++ cs.dropWhile Char.isDigit = cs := List.takeWhile_append_dropWhile
  have hpoint := hasByte_bytesOf (a := '.') (by decide) (w ++ digitsFront cs)
    (cs.dropWhile Char.isDigit)
  rw [List.append_assoc, hcs] at hpoint
  unfold mantissaEnd?
  simp only [digitsEnd_bytesOf, hpoint]
  by_cases hrest : ∃ rest, cs.dropWhile Char.isDigit = '.' :: rest
  · obtain ⟨rest, hrest⟩ := hrest
    have hbytes : bytesOf (w ++ cs) = bytesOf (w ++ digitsFront cs ++ ['.'] ++ rest) := by
      conv => lhs; rw [← hcs, hrest]
      simp
    have hfront : mantissaFront cs = if digitsFront cs = [] ∧ digitsFront rest = [] then []
        else digitsFront cs ++ '.' :: digitsFront rest := by
      simp only [mantissaFront, hrest]
    have hsize := length_bytesOf_concat (c := '.') (w ++ digitsFront cs) (by decide)
    rw [hrest, if_pos (List.head?_cons ..), hbytes, hsize, digitsEnd_bytesOf, hfront]
    simp only [Bool.or_eq_true, decide_eq_true_eq, length_lt_append]
    by_cases hnone : digitsFront cs = [] ∧ digitsFront rest = []
    · simp [hnone]
    · have hsome : digitsFront rest ≠ [] ∨ digitsFront cs ≠ [] := by
        rcases Classical.not_and_iff_not_or_not.mp hnone with h | h
        · exact .inr h
        · exact .inl h
      simp [hnone, hsome]
  · have hhead : (cs.dropWhile Char.isDigit).head? ≠ some '.' := fun hhead =>
      hrest (List.head?_eq_some_iff.mp hhead)
    have hfront : mantissaFront cs = digitsFront cs := by
      unfold mantissaFront
      split
      · exact absurd ⟨_, ‹_›⟩ hrest
      · rfl
    rw [if_neg hhead, hfront]
    by_cases hnone : digitsFront cs = []
    · simp [hnone]
    · rw [if_pos (length_lt_append.mpr hnone), if_neg hnone]

theorem exponentEnd_bytesOf :
    exponentEnd (bytesOf (w ++ cs)) (bytesOf w).length =
      (bytesOf (w ++ exponentFront cs)).length := by
  have he := hasByte_bytesOf (a := 'e') (by decide) w cs
  have hE := hasByte_bytesOf (a := 'E') (by decide) w cs
  unfold exponentEnd
  simp only [Bool.or_eq_true, he, hE]
  cases cs with
  | nil => simp [exponentFront]
  | cons mark rest =>
    simp only [List.head?_cons, Option.some.injEq]
    by_cases hmark : mark = 'e' ∨ mark = 'E'
    · have hbelow : mark.toNat < 128 := by rcases hmark with rfl | rfl <;> decide
      have hsplit : signFront rest ++ rest.drop (signFront rest).length = rest :=
        List.prefix_iff_eq_append.mp (signFront_isPrefix rest)
      have hbytes : bytesOf (w ++ mark :: rest) = bytesOf (w ++ [mark] ++ rest) := by simp
      have hsigned : bytesOf (w ++ [mark] ++ rest) =
          bytesOf (w ++ [mark] ++ signFront rest ++ rest.drop (signFront rest).length) := by
        rw [List.append_assoc _ (signFront rest), hsplit]
      rw [if_pos hmark, hbytes, length_bytesOf_concat w hbelow, signEnd_bytesOf, hsigned,
        digitsEnd_bytesOf]
      simp only [length_lt_append, exponentFront, hmark, true_and]
      split <;> simp
    · simp [exponentFront, hmark]

end

/-! ### The cut -/

/-- The end of a numeral among the bytes is the end of the one among the
characters. -/
theorem numeralEnd?_bytesOf (cs : List Char) :
    numeralEnd? (bytesOf cs) =
      if numeralFront cs = [] then none else some (bytesOf (numeralFront cs)).length := by
  have hsign : signEnd (bytesOf cs) 0 = (bytesOf (signFront cs)).length := signEnd_bytesOf [] cs
  have hsigned : signFront cs ++ cs.drop (signFront cs).length = cs :=
    List.prefix_iff_eq_append.mp (signFront_isPrefix cs)
  have hmantissa := mantissaEnd?_bytesOf (signFront cs) (cs.drop (signFront cs).length)
  rw [hsigned] at hmantissa
  unfold numeralEnd? numeralFront
  rw [hsign, hmantissa]
  by_cases hnone : mantissaFront (cs.drop (signFront cs).length) = []
  · simp [hnone]
  · have hfront : signFront cs ++ mantissaFront (cs.drop (signFront cs).length) <+: cs :=
      append_isPrefix (signFront_isPrefix cs) (mantissaFront_isPrefix _)
    have hexponent := exponentEnd_bytesOf
      (signFront cs ++ mantissaFront (cs.drop (signFront cs).length))
      (cs.drop (signFront cs ++ mantissaFront (cs.drop (signFront cs).length)).length)
    rw [List.prefix_iff_eq_append.mp hfront] at hexponent
    simp [hnone, hexponent]

/-- A text can be cut where some of its characters end. -/
theorem front?_bytesOf (w rest : List Char) :
    front? (bytesOf (w ++ rest)) (bytesOf w).length = some (String.ofList w) := by
  unfold front?
  rw [bytesOf_append, List.take_left]
  have hvalid : (bytesOf w).toByteArray.IsValidUTF8 := ByteArray.isValidUTF8_utf8Encode
  exact dif_pos hvalid

/-- A text is read up to the end of the numeral at the front. -/
theorem readLeading_of_end {text : String} {size : Nat} {front : String}
    (hstop : numeralEnd? (bytesOf (text.toList.dropWhile Text.isBlank)) = some size)
    (hfront : front? (bytesOf (text.toList.dropWhile Text.isBlank)) size = some front) :
    readLeading text = (readWhole? front).getD 0 := by
  simp only [readLeading, hstop, hfront, Option.bind_some]

/-- How the number at the front of some characters comes about. -/
inductive ReadAs (cs : List Char) : Float → Prop
  /-- No numeral is there. -/
  | none (absent : ∀ w, w <+: cs → w ∉ numeral.matches') (stop : numeralEnd? (bytesOf cs) = none) :
      ReadAs cs 0
  /-- The cut is behind the longest numeral and between two characters,
  and what is cut off is read as a whole. -/
  | numeral {w : List Char} {n : Numeral} (longest : Longest numeral.matches' cs w)
      (stop : numeralEnd? (bytesOf cs) = some (bytesOf w).length)
      (front : front? (bytesOf cs) (bytesOf w).length = some (String.ofList w))
      (scanned : Numeral.scan? w = some (n, []))
      (read : readWhole? (String.ofList w) = some n.value) : ReadAs cs n.value

/-- The number that a text begins with, blanks aside, is zero if there
is no numeral, and otherwise what the longest numeral says. -/
theorem readLeading_longest (text : String) :
    ReadAs (text.toList.dropWhile Text.isBlank) (readLeading text) := by
  generalize hcs : text.toList.dropWhile Text.isBlank = cs
  have hstop := numeralEnd?_bytesOf cs
  by_cases hnone : numeralFront cs = []
  · rw [if_pos hnone] at hstop
    have hzero : readLeading text = 0 := by simp only [readLeading, hcs, hstop]
    rw [hzero]
    refine .none (fun w hpre hw => ?_) hstop
    have hempty : w <+: [] := hnone ▸ prefix_numeralFront hw hpre
    exact ne_nil_of_mem_numeral hw (List.prefix_nil.mp hempty)
  · rw [if_neg hnone] at hstop
    have hlongest := longest_numeralFront hnone
    have hfront : front? (bytesOf cs) (bytesOf (numeralFront cs)).length =
        some (String.ofList (numeralFront cs)) := by
      have hcut := front?_bytesOf (numeralFront cs) (cs.drop (numeralFront cs).length)
      rwa [List.prefix_iff_eq_append.mp hlongest.isPrefix] at hcut
    have hmem : (String.ofList (numeralFront cs)).toList ∈ numeral.matches' := by
      rw [String.toList_ofList]
      exact hlongest.mem
    obtain ⟨n, hscan, hread⟩ := readWhole?_of_numeral hmem
    rw [String.toList_ofList] at hscan
    subst hcs
    have hvalue : readLeading text = n.value := by
      rw [readLeading_of_end hstop hfront, hread, Option.getD_some]
    rw [hvalue]
    exact .numeral hlongest hstop hfront hscan hread

end Treewalk.Number.Proofs
