import EventScript.Name

/-!
# Numerals and numbered names read back

The digits of a number are read as that number, and a name that ends with a number gives the number
back. The lemmas on character classes say which characters names and numerals are made of.
-/

namespace EventScript

namespace Text

theorem isDigit_iff (c : Char) : isDigit c = true ↔ 48 ≤ c.toNat ∧ c.toNat ≤ 57 := by
  simp only [isDigit, Bool.and_eq_true, decide_eq_true_eq, Char.le_def, UInt32.le_iff_toNat_le]
  rfl

theorem isLetter_iff (c : Char) :
    isLetter c = true ↔ 97 ≤ c.toNat ∧ c.toNat ≤ 122 ∨ 65 ≤ c.toNat ∧ c.toNat ≤ 90 := by
  simp only [isLetter, Bool.or_eq_true, Bool.and_eq_true, decide_eq_true_eq, Char.le_def,
    UInt32.le_iff_toNat_le]
  rfl

@[simp] theorem toList_decimal (n : Nat) : (decimal n).toList = Nat.toDigits 10 n := by
  rw [decimal, String.toList_ofList]

theorem isDigit_of_mem_toDigits {c : Char} {n : Nat} (h : c ∈ Nat.toDigits 10 n) :
    isDigit c = true := by
  rw [isDigit_iff]
  exact Char.isDigit_iff_toNat.mp (Nat.isDigit_of_mem_toDigits (by decide) (by decide) h)

theorem all_isDigit_toDigits (n : Nat) : (Nat.toDigits 10 n).all isDigit = true := by
  rw [List.all_eq_true]
  exact fun c h => isDigit_of_mem_toDigits h

/-- A number is read from its digits. -/
theorem numeral?_toDigits (n : Nat) : numeral? (Nat.toDigits 10 n) = some n := by
  have nonempty : (Nat.toDigits 10 n).isEmpty = false := by
    rw [List.isEmpty_eq_false_iff]
    exact Nat.toDigits_ne_nil
  rw [numeral?, nonempty, all_isDigit_toDigits]
  simp only [Bool.not_true, Bool.or_false, Bool.false_eq_true, if_false,
    Nat.ofDigitChars_ten_toDigits]

theorem boundedNumeral?_toDigits {most n : Nat} (h : n ≤ most) :
    boundedNumeral? most (Nat.toDigits 10 n) = some n := by
  rw [boundedNumeral?, numeral?_toDigits, Option.filter_some, if_pos (decide_eq_true h)]

@[simp] theorem after?_append (start rest : List Char) : after? start (start ++ rest) = some rest := by
  induction start with
  | nil => rfl
  | cons c start ih => rw [List.cons_append, after?, if_pos rfl, ih]

theorem eq_append_of_after? {start cs rest : List Char} (h : after? start cs = some rest) :
    cs = start ++ rest := by
  induction start generalizing cs with
  | nil => exact Option.some.inj h
  | cons c start ih =>
    cases cs with
    | nil => cases h
    | cons d cs =>
      rw [after?] at h
      split at h
      · next same => rw [same, List.cons_append, ← ih h]
      · cases h

/-- Where the end of a text is dropped, a character goes if all that follows it goes. -/
theorem dropEnd_cons (p : Char → Bool) (c : Char) (cs : List Char) : ((c :: cs).reverse.dropWhile p).reverse =
    if (cs.reverse.dropWhile p).reverse = [] ∧ p c = true then [] else c :: (cs.reverse.dropWhile p).reverse := by
  rw [List.reverse_cons, List.dropWhile_append]
  by_cases none : cs.reverse.dropWhile p = []
  · by_cases goes : p c = true
    · simp [none, goes]
    · simp [none, goes]
  · simp [none]

end Text

namespace Name

theorem isPart_of_isDigit {c : Char} (h : Text.isDigit c = true) : isPart c = true := by
  simp [isPart, h]

theorem isPart_of_isStart {c : Char} (h : isStart c = true) : isPart c = true := by
  simp only [isStart, Bool.or_eq_true] at h
  rcases h with h | h <;> simp [isPart, h]

theorem isStart_of_isLetter {c : Char} (h : Text.isLetter c = true) : isStart c = true := by
  simp [isStart, h]

/-- The characters of names, told by their numbers. -/
theorem isPart_iff (c : Char) : isPart c = true ↔
    (97 ≤ c.toNat ∧ c.toNat ≤ 122) ∨ (65 ≤ c.toNat ∧ c.toNat ≤ 90) ∨
      (48 ≤ c.toNat ∧ c.toNat ≤ 57) ∨ c.toNat = 95 := by
  have underscore : c = '_' ↔ c.toNat = 95 := by
    rw [Char.ext_iff, ← UInt32.toNat_inj]
    rfl
  simp only [isPart, Bool.or_eq_true, Text.isLetter_iff, Text.isDigit_iff, beq_iff_eq, underscore]
  omega

@[simp] theorem toList_withNumber (stem : String) (n : Nat) :
    (withNumber stem n).toList = stem.toList ++ Nat.toDigits 10 n := by
  rw [withNumber, String.toList_append, Text.toList_decimal]

/-- A numbered name gives its number back. -/
theorem number?_withNumber (stem : String) (n : Nat) : number? stem (withNumber stem n) = some n := by
  simp only [number?, toList_withNumber, Text.after?_append]
  exact Text.numeral?_toDigits n

/-- A variable slot is written as `var` with its number and read back. -/
theorem slot?_withNumber (slot : UInt8) : slot? (withNumber "var" slot.toNat) = some slot := by
  have bound : slot.toNat ≤ 255 := by
    have := slot.toNat_lt
    omega
  rw [slot?, number?_withNumber, Option.filter_some, if_pos (decide_eq_true bound)]
  simp

/-- Letters followed by digits make an identifier. -/
theorem isIdentifier_append_digits {stem digits : List Char} (letters : stem.all Text.isLetter = true)
    (nonempty : stem ≠ []) (ok : digits.all Text.isDigit = true) :
    isIdentifier (stem ++ digits) = true := by
  cases stem with
  | nil => exact absurd rfl nonempty
  | cons c stem =>
    rw [List.all_cons, Bool.and_eq_true] at letters
    rw [List.cons_append, isIdentifier, isStart_of_isLetter letters.1, Bool.true_and,
      List.all_append, Bool.and_eq_true]
    refine ⟨?_, ?_⟩
    · rw [List.all_eq_true]
      intro d hd
      exact isPart_of_isStart (isStart_of_isLetter (List.all_eq_true.mp letters.2 d hd))
    · rw [List.all_eq_true]
      intro d hd
      exact isPart_of_isDigit (List.all_eq_true.mp ok d hd)

/-- An identifier is made of characters of names. -/
theorem isPart_of_mem_identifier {cs : List Char} (h : isIdentifier cs = true) :
    ∀ c ∈ cs, isPart c = true := by
  cases cs with
  | nil => cases h
  | cons c cs =>
    rw [isIdentifier, Bool.and_eq_true] at h
    intro d hd
    rcases List.mem_cons.mp hd with rfl | hd
    · exact isPart_of_isStart h.1
    · exact List.all_eq_true.mp h.2 d hd

end Name

end EventScript
