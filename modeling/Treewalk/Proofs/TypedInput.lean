import Mathlib.Data.List.DropRight
import Treewalk.Proofs.NumberText

/-!
# `Treewalk.Proofs.TypedInput`: what a line of input is taken for

A line is stripped of the spaces and tabs around it, and what is left is
read as a whole. Conversion reads the front of a text instead. On a
numeral the two agree (`readLeading_of_numeral`). But a text as a whole
can also be one of the words for the infinities and for what is no number,
with a sign and in any case: `infinityName` and `notANumberName` are their
grammars, and `mem_spelling` is what brings the case of letters into one.
No numeral begins with a letter, so conversion reads nothing from them
(`readLeading_of_name`).

`Typed` says for every text what it is taken for, and `input_typed` that
lines are typed so.
-/

set_option autoImplicit false

namespace Treewalk.Number

open RegularExpression (char star)

/-! ### Words for numbers -/

/-- A word, each of its letters in either case. -/
def spelling (word : String) : RegularExpression Char :=
  word.toList.foldr (fun c r => oneOf [c, c.toUpper] * r) 1

/-- A word for an infinity. -/
def infinityName : RegularExpression Char :=
  sign * (spelling "inf" + spelling "infinity")

/-- A word for what is no number. -/
def notANumberName : RegularExpression Char :=
  sign * spelling "nan"

namespace Proofs

/-- Only capitals have another lower case. -/
theorem toNat_toLower (d : Char) :
    d.toLower.toNat = if 65 ≤ d.toNat ∧ d.toNat ≤ 90 then d.toNat + 32 else d.toNat := by
  have hcapital : (d.val ≥ 'A'.val ∧ d.val ≤ 'Z'.val) ↔ 65 ≤ d.toNat ∧ d.toNat ≤ 90 := by
    simp only [ge_iff_le, UInt32.le_iff_toNat_le]
    rfl
  unfold Char.toLower
  simp only [hcapital]
  split
  · show (d.val + ('a'.val - 'A'.val)).toNat = _
    rw [UInt32.toNat_add]
    show (d.toNat + 32) % 2 ^ 32 = d.toNat + 32
    omega
  · rfl

/-- A small letter has a capital. -/
theorem toNat_toUpper {c : Char} (hc : c.isLower = true) :
    97 ≤ c.toNat ∧ c.toNat ≤ 122 ∧ c.toUpper.toNat = c.toNat - 32 := by
  have hboth : (decide ('a'.val ≤ c.val) && decide (c.val ≤ 'z'.val)) = true := hc
  have hlower : 'a'.val ≤ c.val ∧ c.val ≤ 'z'.val := by
    simpa only [Bool.and_eq_true, decide_eq_true_eq] using hboth
  have hlow : 97 ≤ c.toNat := UInt32.le_iff_toNat_le.mp hlower.1
  have hhigh : c.toNat ≤ 122 := UInt32.le_iff_toNat_le.mp hlower.2
  refine ⟨hlow, hhigh, ?_⟩
  unfold Char.toUpper
  rw [dif_pos hlower]
  -- The difference is negative, so the sum goes once around.
  show (c.val + ('A'.val - 'a'.val)).toNat = _
  rw [UInt32.toNat_add]
  show (c.toNat + 4294967264) % 2 ^ 32 = c.toNat - 32
  omega

theorem toLower_eq_iff {c d : Char} (hc : c.isLower = true) :
    d.toLower = c ↔ d = c ∨ d = c.toUpper := by
  obtain ⟨hlow, hhigh, hupper⟩ := toNat_toUpper hc
  have hlower := toNat_toLower d
  rw [← Char.toNat_inj, ← Char.toNat_inj, ← Char.toNat_inj]
  split at hlower <;> omega

/-- A text spells a word if it is the word but for the case of letters. -/
theorem mem_spelling {word : String} (hword : word.toList.all Char.isLower = true) {w : List Char} :
    w ∈ (spelling word).matches' ↔ String.ofList (w.map Char.toLower) = word := by
  obtain ⟨letters, rfl⟩ : ∃ letters, word = String.ofList letters := ⟨_, String.ofList_toList.symm⟩
  rw [String.toList_ofList] at hword
  rw [spelling, String.toList_ofList, String.ofList_inj]
  induction letters generalizing w with
  | nil =>
    have hnil : w ∈ (1 : RegularExpression Char).matches' ↔ w = [] := Iff.rfl
    rw [List.foldr_nil, hnil, List.map_eq_nil_iff]
  | cons c letters ih =>
    obtain ⟨hc, hletters⟩ := Bool.and_eq_true_iff.mp hword
    rw [List.foldr_cons, RegularExpression.matches'_mul, Language.mem_mul, List.map_eq_cons_iff]
    constructor
    · rintro ⟨first, hfirst, rest, hrest, rfl⟩
      obtain ⟨d, hd, rfl⟩ := mem_oneOf.mp hfirst
      exact ⟨d, rest, rfl, (toLower_eq_iff hc).mpr (by simpa using hd), (ih hletters).mp hrest⟩
    · rintro ⟨d, rest, rfl, hd, hrest⟩
      have hfirst : [d] ∈ (oneOf [c, c.toUpper]).matches' :=
        mem_oneOf.mpr ⟨d, by simpa using (toLower_eq_iff hc).mp hd, rfl⟩
      exact ⟨[d], hfirst, rest, (ih hletters).mpr hrest, rfl⟩

section
variable {cs w : List Char}

/-- A sign is taken off what follows it, if that begins with another
character. -/
theorem takeSign_append (hw : w ∈ sign.matches') {c : Char} (hplus : c ≠ '+') (hminus : c ≠ '-') :
    (takeSign (w ++ c :: cs)).2 = c :: cs := by
  have hfront : signFront (w ++ c :: cs) = w :=
    signFront_append hw fun d hd => by
      obtain rfl : c = d := by simpa using hd
      exact ⟨hplus, hminus⟩
  rw [takeSign_snd, hfront, List.drop_left]

/-- What is spelled of some words, behind a sign, is what is left when
the sign is taken off. -/
theorem mem_sign_mul {r : RegularExpression Char} {words : List String}
    (hr : ∀ v, v ∈ r.matches' ↔ String.ofList (v.map Char.toLower) ∈ words)
    (hwords : ∀ word ∈ words, ∃ c rest, word.toList = c :: rest ∧ c.isLower = true) :
    cs ∈ (sign * r).matches' ↔ String.ofList ((takeSign cs).2.map Char.toLower) ∈ words := by
  rw [RegularExpression.matches'_mul, Language.mem_mul]
  constructor
  · rintro ⟨signs, hsigns, v, hv, rfl⟩
    obtain ⟨c, rest, hword, hc⟩ := hwords _ ((hr v).mp hv)
    rw [String.toList_ofList] at hword
    obtain ⟨d, ds, rfl, hd, -⟩ := List.map_eq_cons_iff.mp hword
    -- A sign has no lower case, so the word does not begin with one.
    have hnot : ∀ b : Char, b.toLower.isLower = false → d ≠ b := by
      rintro b hb rfl
      rw [hd, hc] at hb
      cases hb
    rw [takeSign_append hsigns (hnot '+' rfl) (hnot '-' rfl)]
    exact (hr _).mp hv
  · intro h
    refine ⟨signFront cs, signFront_mem cs, (takeSign cs).2, (hr _).mpr h, ?_⟩
    rw [takeSign_snd]
    exact List.prefix_iff_eq_append.mp (signFront_isPrefix cs)

theorem mem_infinityName :
    cs ∈ infinityName.matches' ↔
      String.ofList ((takeSign cs).2.map Char.toLower) ∈ infinityWords := by
  refine mem_sign_mul (fun v => ?_) fun word hword => ?_
  · rw [RegularExpression.matches'_add, Language.mem_add, mem_spelling rfl, mem_spelling rfl]
    simp [infinityWords]
  · simp only [infinityWords, List.mem_cons, List.not_mem_nil, or_false] at hword
    rcases hword with rfl | rfl
    · exact ⟨'i', _, rfl, rfl⟩
    · exact ⟨'i', _, rfl, rfl⟩

theorem mem_notANumberName :
    cs ∈ notANumberName.matches' ↔
      String.ofList ((takeSign cs).2.map Char.toLower) = notANumberWord := by
  rw [← List.mem_singleton]
  refine mem_sign_mul (fun v => ?_) fun word hword => ?_
  · rw [mem_spelling rfl, List.mem_singleton]
    rfl
  · rw [List.mem_singleton.mp hword]
    exact ⟨'n', _, rfl, rfl⟩

/-- The first letters of the words. -/
def initials : List Char :=
  ['i', 'I', 'n', 'N']

/-- What spells a word begins with its first letter, small or capital. -/
theorem exists_initial_of_word {d : Char} {ds : List Char} (hd : d.isLower = true)
    (hsmall : d ∈ initials) (hcapital : d.toUpper ∈ initials)
    (h : String.ofList (w.map Char.toLower) = String.ofList (d :: ds)) :
    ∃ c rest, w = c :: rest ∧ c ∈ initials := by
  rw [String.ofList_inj, List.map_eq_cons_iff] at h
  obtain ⟨c, rest, hw, hc, -⟩ := h
  refine ⟨c, rest, hw, ?_⟩
  rcases (toLower_eq_iff hd).mp hc with rfl | rfl
  · exact hsmall
  · exact hcapital

/-- The letter that a word for a number begins with. -/
theorem exists_initial (h : cs ∈ infinityName.matches' ∨ cs ∈ notANumberName.matches') :
    ∃ c rest, (takeSign cs).2 = c :: rest ∧ c ∈ initials := by
  rw [mem_infinityName, mem_notANumberName] at h
  simp only [infinityWords, List.mem_cons, List.not_mem_nil, or_false] at h
  rcases h with (h | h) | h
  · exact exists_initial_of_word (d := 'i') rfl (by decide) (by decide) h
  · exact exists_initial_of_word (d := 'i') rfl (by decide) (by decide) h
  · exact exists_initial_of_word (d := 'n') rfl (by decide) (by decide) h

/-- A numeral begins with no letter. -/
theorem numeralFront_of_initial {c : Char} {rest : List Char} (hsign : (takeSign cs).2 = c :: rest)
    (hc : c ∈ initials) : numeralFront cs = [] := by
  have hmantissa : mantissaFront (c :: rest) = [] := by
    simp only [initials, List.mem_cons, List.not_mem_nil, or_false] at hc
    rcases hc with rfl | rfl | rfl | rfl <;> rfl
  rw [takeSign_snd] at hsign
  unfold numeralFront
  rw [hsign]
  exact if_pos hmantissa

theorem dropWhile_isBlank_of_initial {c : Char} {rest : List Char}
    (hsign : (takeSign cs).2 = c :: rest) (hc : c ∈ initials) :
    cs.dropWhile Text.isBlank = cs := by
  have hletter : Text.isBlank c = false := by
    have hall : initials.all (fun c => Text.isBlank c == false) = true := rfl
    exact eq_of_beq (List.all_eq_true.mp hall c hc)
  have hcs : cs = signFront cs ++ c :: rest := by
    rw [← hsign, takeSign_snd]
    exact (List.prefix_iff_eq_append.mp (signFront_isPrefix cs)).symm
  rw [hcs]
  rcases mem_sign.mp (signFront_mem cs) with hnone | ⟨d, hd, hsome⟩
  · rw [hnone]
    exact List.dropWhile_cons_of_neg (by simp [hletter])
  · rw [hsome]
    exact List.dropWhile_cons_of_neg (by simp [isBlank_of_digit_or (.inr (.inr hd))])

end

section
variable {text : String}

/-- Nothing is read from the front of a word. -/
theorem readLeading_of_name
    (h : text.toList ∈ infinityName.matches' ∨ text.toList ∈ notANumberName.matches') :
    readLeading text = 0 := by
  obtain ⟨c, rest, hsign, hc⟩ := exists_initial h
  have hstop := numeralEnd?_bytesOf text.toList
  rw [if_pos (numeralFront_of_initial hsign hc)] at hstop
  simp only [readLeading, dropWhile_isBlank_of_initial hsign hc, hstop]

/-- What is no numeral may be a word. -/
theorem readWhole?_of_not_numeral (h : text.toList ∉ numeral.matches') :
    readWhole? text = ofWord? text.toList := by
  unfold readWhole?
  split
  · exact absurd (mem_numeral_of_scan? ‹_›) h
  · rfl

theorem takeSign_fst (cs : List Char) : (takeSign cs).1 = decide (cs.head? = some '-') := by
  unfold takeSign
  split
  · rfl
  · rfl
  · rename_i hminus _
    have hhead : cs.head? ≠ some '-' := fun h => by
      obtain ⟨rest, rfl⟩ := List.head?_eq_some_iff.mp h
      exact hminus rest rfl
    exact (decide_eq_false hhead).symm

theorem not_numeral_of_name
    (h : text.toList ∈ infinityName.matches' ∨ text.toList ∈ notANumberName.matches') :
    text.toList ∉ numeral.matches' := by
  obtain ⟨c, rest, hsign, hc⟩ := exists_initial h
  intro hmem
  have hself := numeralFront_self hmem
  rw [numeralFront_of_initial hsign hc] at hself
  exact ne_nil_of_mem_numeral hmem hself.symm

theorem readWhole?_of_infinity (h : text.toList ∈ infinityName.matches') :
    readWhole? text = some (if text.toList.head? = some '-' then -1 / 0 else 1 / 0) := by
  have hword := mem_infinityName.mp h
  rw [readWhole?_of_not_numeral (not_numeral_of_name (.inl h)), ofWord?]
  simp only [takeSign_fst, hword, if_true, decide_eq_true_eq]

theorem readWhole?_of_notANumber (h : text.toList ∈ notANumberName.matches') :
    readWhole? text = some (0 / 0) := by
  have hword := mem_notANumberName.mp h
  have hother : notANumberWord ∉ infinityWords := by decide
  rw [readWhole?_of_not_numeral (not_numeral_of_name (.inr h)), ofWord?]
  simp only [hword, hother, if_false, if_true]

theorem readWhole?_of_neither (hnumeral : text.toList ∉ numeral.matches')
    (hinfinity : text.toList ∉ infinityName.matches')
    (hnan : text.toList ∉ notANumberName.matches') : readWhole? text = none := by
  rw [mem_infinityName] at hinfinity
  rw [mem_notANumberName] at hnan
  rw [readWhole?_of_not_numeral hnumeral, ofWord?]
  simp only [hinfinity, hnan, if_false]

end

/-! ### Lines -/

/-- A text without the spaces and tabs around it. -/
structure Stripped (line t : List Char) : Prop where
  around : ∃ before after, line = before ++ t ++ after ∧ ∀ c ∈ before ++ after, c = ' ' ∨ c = '\t'
  first : ∀ c ∈ t.head?, c ≠ ' ' ∧ c ≠ '\t'
  last : ∀ c ∈ t.getLast?, c ≠ ' ' ∧ c ≠ '\t'

theorem stripped_trimSpaces (line : String) :
    Stripped line.toList (Value.trimSpaces line).toList := by
  obtain ⟨isSpace, hspace, htrim⟩ : ∃ isSpace : Char → Bool,
      (∀ c, isSpace c = true ↔ c = ' ' ∨ c = '\t') ∧
        Value.trimSpaces line = String.ofList ((line.toList.dropWhile isSpace).rdropWhile isSpace) :=
    ⟨fun c => c == ' ' || c == '\t', fun c => by simp, rfl⟩
  have hother : ∀ c, isSpace c = false → c ≠ ' ' ∧ c ≠ '\t' := fun c hc =>
    not_or.mp fun h => by cases hc.symm.trans ((hspace c).mpr h)
  rw [htrim, String.toList_ofList]
  generalize line.toList = cs
  constructor
  · refine ⟨cs.takeWhile isSpace, (cs.dropWhile isSpace).rtakeWhile isSpace, ?_, fun c hc => ?_⟩
    · rw [List.append_assoc, List.rdropWhile_append_rtakeWhile, List.takeWhile_append_dropWhile]
    · rw [← hspace]
      rcases List.mem_append.mp hc with hc | hc
      · exact List.mem_takeWhile_imp hc
      · exact List.mem_takeWhile_imp (List.mem_reverse.mp hc)
  · intro c hc
    -- What is left at the end begins as what is left at the front.
    obtain ⟨rest, hrest⟩ := List.rdropWhile_prefix isSpace (cs.dropWhile isSpace)
    have hhead : c ∈ (cs.dropWhile isSpace).head? := by
      rw [← hrest, List.head?_append, hc]
      rfl
    have hnot := List.head?_dropWhile_not isSpace cs
    rw [hhead] at hnot
    exact hother c hnot
  · intro c hc
    obtain ⟨hne, rfl⟩ := List.mem_getLast?_eq_getLast hc
    exact hother _ (Bool.eq_false_iff.mpr (List.rdropWhile_last_not isSpace _ hne))

/-- The words that stand for values other than numbers. -/
def keywords : List String :=
  ["On", "Off", "Nil"]

/-- What a text that was entered is taken for. -/
inductive Typed (t : String) : Value → Prop
  | on (h : t = "On") : Typed t (.bool true)
  | off (h : t = "Off") : Typed t (.bool false)
  | nil (h : t = "Nil") : Typed t .nil
  /-- A numeral is the number that conversion reads. -/
  | numeral (h : t.toList ∈ numeral.matches') : Typed t (.number (readLeading t))
  /-- So are two kinds of words, from which conversion reads nothing. -/
  | infinity (h : t.toList ∈ infinityName.matches') (unread : readLeading t = 0) :
    Typed t (.number (if t.toList.head? = some '-' then -1 / 0 else 1 / 0))
  | notANumber (h : t.toList ∈ notANumberName.matches') (unread : readLeading t = 0) :
    Typed t (.number (0 / 0))
  | text (keyword : t ∉ keywords) (numeral : t.toList ∉ numeral.matches')
    (infinity : t.toList ∉ infinityName.matches')
    (notANumber : t.toList ∉ notANumberName.matches') : Typed t (.text t)

/-- The keywords are no numbers. -/
theorem not_number_of_keyword {t : String} (h : t ∈ keywords) :
    t.toList ∉ numeral.matches' ∧ t.toList ∉ infinityName.matches' ∧
      t.toList ∉ notANumberName.matches' := by
  rw [mem_infinityName, mem_notANumberName]
  have hwords : ∀ t ∈ keywords, numeralFront t.toList = [] ∧
      String.ofList ((takeSign t.toList).2.map Char.toLower) ∉ infinityWords ∧
      String.ofList ((takeSign t.toList).2.map Char.toLower) ≠ notANumberWord := by decide
  obtain ⟨hfront, hinfinity, hnan⟩ := hwords t h
  -- A numeral would be all that a numeral takes of the word, and that is nothing.
  refine ⟨fun hmem => ne_nil_of_mem_numeral hmem ?_, hinfinity, hnan⟩
  rw [← numeralFront_self hmem, hfront]

/-- A text is taken for a number just if it is a numeral or a word for
one. -/
theorem number_iff_of_typed {t : String} {v : Value} (h : Typed t v) :
    (∃ x, v = .number x) ↔ t.toList ∈ numeral.matches' ∨
      t.toList ∈ infinityName.matches' ∨ t.toList ∈ notANumberName.matches' := by
  have hkeyword : t ∈ keywords → ¬ (t.toList ∈ numeral.matches' ∨
      t.toList ∈ infinityName.matches' ∨ t.toList ∈ notANumberName.matches') := fun ht => by
    obtain ⟨hnumeral, hinfinity, hnan⟩ := not_number_of_keyword ht
    exact not_or.mpr ⟨hnumeral, not_or.mpr ⟨hinfinity, hnan⟩⟩
  cases h with
  | on h => exact iff_of_false (fun ⟨_, hx⟩ => by cases hx) (hkeyword (by rw [h]; decide))
  | off h => exact iff_of_false (fun ⟨_, hx⟩ => by cases hx) (hkeyword (by rw [h]; decide))
  | nil h => exact iff_of_false (fun ⟨_, hx⟩ => by cases hx) (hkeyword (by rw [h]; decide))
  | numeral h => exact iff_of_true ⟨_, rfl⟩ (.inl h)
  | infinity h => exact iff_of_true ⟨_, rfl⟩ (.inr (.inl h))
  | notANumber h => exact iff_of_true ⟨_, rfl⟩ (.inr (.inr h))
  | text _ hnumeral hinfinity hnan =>
    exact iff_of_false (fun ⟨_, hx⟩ => by cases hx)
      (not_or.mpr ⟨hnumeral, not_or.mpr ⟨hinfinity, hnan⟩⟩)

/-- What is no keyword is read as a whole, if it can be. -/
theorem typed_of_readWhole? {t : String} (hkeyword : t ∉ keywords) :
    Typed t ((readWhole? t).elim (.text t) .number) := by
  by_cases hnumeral : t.toList ∈ numeral.matches'
  · rw [readLeading_of_numeral hnumeral]
    exact .numeral hnumeral
  by_cases hinfinity : t.toList ∈ infinityName.matches'
  · rw [readWhole?_of_infinity hinfinity]
    exact .infinity hinfinity (readLeading_of_name (.inl hinfinity))
  by_cases hnan : t.toList ∈ notANumberName.matches'
  · rw [readWhole?_of_notANumber hnan]
    exact .notANumber hnan (readLeading_of_name (.inr hnan))
  · rw [readWhole?_of_neither hnumeral hinfinity hnan]
    exact .text hkeyword hnumeral hinfinity hnan

theorem typed_ofInput (line : String) : Typed (Value.trimSpaces line) (Value.ofInput line) := by
  unfold Value.ofInput
  generalize Value.trimSpaces line = t
  split
  · exact .on rfl
  · exact .off rfl
  · exact .nil rfl
  · rename_i hon hoff hnil
    have hkeyword : t ∉ keywords := by simpa [keywords] using ⟨hon, hoff, hnil⟩
    have htyped := typed_of_readWhole? hkeyword
    split
    · rename_i hread
      rwa [hread] at htyped
    · rename_i hread
      rwa [hread] at htyped

/-- A line is typed by what it is without the spaces around it. It is a
number just if that is a numeral or a word for a number, and only in the
former case conversion reads the same number. -/
theorem input_typed (line : String) :
    Stripped line.toList (Value.trimSpaces line).toList ∧
      Typed (Value.trimSpaces line) (Value.ofInput line) ∧
      ((∃ x, Value.ofInput line = .number x) ↔
        (Value.trimSpaces line).toList ∈ numeral.matches' ∨
          (Value.trimSpaces line).toList ∈ infinityName.matches' ∨
            (Value.trimSpaces line).toList ∈ notANumberName.matches') :=
  ⟨stripped_trimSpaces line, typed_ofInput line, number_iff_of_typed (typed_ofInput line)⟩

example : Value.ofInput "\t-INF " = .number (-1 / 0) := rfl

/-- A word that is no numeral is entered as a number. -/
theorem word_entered_as_number :
    Value.ofInput "nan" = .number (0 / 0) ∧ "nan".toList ∉ numeral.matches' ∧
      readLeading "nan" = 0 := by
  have hname : "nan".toList ∈ notANumberName.matches' := mem_notANumberName.mpr rfl
  exact ⟨rfl, not_numeral_of_name (.inr hname), rfl⟩

end Proofs

end Treewalk.Number
