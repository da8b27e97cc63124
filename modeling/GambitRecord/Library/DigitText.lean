import Mathlib.Data.Nat.Digits.Defs

/-! # Decimal digits in text

Scanning of literals and digit runs, as an anchored regular expression of the
form `literal (\d+) literal …` does it, and the round trip with the decimal
text of a natural number.
-/

namespace Library.DigitText

abbrev Text := List Char

/-- The characters of a string constant, kept folded in proofs. -/
@[irreducible] def text (constant : String) : Text := constant.toList

def decimal (n : ℕ) : Text := Nat.toDigits 10 n

/-- The decimal text, filled with leading zeros up to a width. -/
def padded (width n : ℕ) : Text :=
  List.replicate (width - (decimal n).length) '0' ++ decimal n

/-- The value of a run of digits. -/
def value (digits : Text) : ℕ := Nat.ofDigitChars 10 digits 0

/-- What is left after a literal, when the text starts with it. -/
def literal : Text → Text → Option Text
  | [], text => some text
  | _ :: _, [] => none
  | c :: word, d :: text => if c = d then literal word text else none

/-- The longest non-empty run of digits at the start, and what follows it. -/
def digits (text : Text) : Option (Text × Text) :=
  if (text.takeWhile Char.isDigit).isEmpty then none
  else some (text.takeWhile Char.isDigit, text.dropWhile Char.isDigit)

theorem isDigit_of_mem_decimal {n : ℕ} {c : Char} (h : c ∈ decimal n) : c.isDigit :=
  Nat.isDigit_of_mem_toDigits (by omega) (by omega) h

theorem decimal_ne_nil (n : ℕ) : decimal n ≠ [] := Nat.toDigits_ne_nil

@[simp] theorem value_decimal (n : ℕ) : value (decimal n) = n := Nat.ofDigitChars_ten_toDigits

@[simp] theorem value_padded (width n : ℕ) : value (padded width n) = n := by
  rw [value, padded, Nat.ofDigitChars_append, Nat.ofDigitChars_replicate_zero, Nat.mul_zero]
  exact value_decimal n

theorem padded_injective {width m n : ℕ} (h : padded width m = padded width n) : m = n := by
  rw [← value_padded width m, h, value_padded]

theorem length_decimal_le {width n : ℕ} (hwidth : 0 < width) (h : n < 10 ^ width) :
    (decimal n).length ≤ width := Nat.toDigits_length 10 n width hwidth h

theorem isDigit_of_mem_padded {width n : ℕ} {c : Char} (h : c ∈ padded width n) : c.isDigit := by
  rcases List.mem_append.mp h with h | h
  · rw [List.eq_of_mem_replicate h]
    decide
  · exact isDigit_of_mem_decimal h

theorem le_length_padded (width n : ℕ) : width ≤ (padded width n).length := by
  rw [padded, List.length_append, List.length_replicate]
  omega

theorem length_padded {width n : ℕ} (hwidth : 0 < width) (h : n < 10 ^ width) :
    (padded width n).length = width := by
  have := length_decimal_le hwidth h
  rw [padded, List.length_append, List.length_replicate]
  omega

@[simp] theorem literal_nil (text : Text) : literal [] text = some text := by
  cases text <;> rfl

@[simp] theorem literal_cons_self (c : Char) (word text : Text) :
    literal (c :: word) (c :: text) = literal word text := by
  simp [literal]

theorem literal_append (word text : Text) : literal word (word ++ text) = some text := by
  induction word with
  | nil => simp
  | cons c word ih => simpa using ih

theorem takeWhile_decimal_append (n : ℕ) {rest : Text} (h : ∀ c ∈ rest.head?, c.isDigit = false) :
    (decimal n ++ rest).takeWhile Char.isDigit = decimal n := by
  rw [List.takeWhile_append_of_pos fun c hc => isDigit_of_mem_decimal hc]
  cases rest with
  | nil => simp
  | cons c rest => simp [h c (by simp)]

theorem dropWhile_decimal_append (n : ℕ) {rest : Text} (h : ∀ c ∈ rest.head?, c.isDigit = false) :
    (decimal n ++ rest).dropWhile Char.isDigit = rest := by
  rw [List.dropWhile_append_of_pos fun c hc => isDigit_of_mem_decimal hc]
  cases rest with
  | nil => simp
  | cons c rest => simp [h c (by simp)]

/-- A decimal text followed by a character that is no digit is scanned back exactly. -/
theorem digits_decimal_append (n : ℕ) {rest : Text} (h : ∀ c ∈ rest.head?, c.isDigit = false) :
    digits (decimal n ++ rest) = some (decimal n, rest) := by
  have hne : (decimal n).isEmpty = false := by simp [decimal_ne_nil]
  simp [digits, takeWhile_decimal_append n h, dropWhile_decimal_append n h, hne]

@[simp] theorem digits_decimal_cons (n : ℕ) {c : Char} (h : c.isDigit = false) (rest : Text) :
    digits (decimal n ++ c :: rest) = some (decimal n, c :: rest) :=
  digits_decimal_append n (by simpa using h)

@[simp] theorem digits_decimal (n : ℕ) : digits (decimal n) = some (decimal n, []) := by
  simpa using @digits_decimal_append n [] (by simp)

theorem literal_eq_some_iff {word text rest : Text} :
    literal word text = some rest ↔ text = word ++ rest := by
  constructor
  · induction word generalizing text with
    | nil => simp
    | cons c word ih =>
      cases text with
      | nil => simp [literal]
      | cons d text =>
        intro h
        rw [literal] at h
        split_ifs at h with hcd
        rw [hcd, ih h, List.cons_append]
  · rintro rfl
    exact literal_append word rest

/-- A run of digits ends where the digits end. -/
theorem digits_eq_some_iff {text run rest : Text} :
    digits text = some (run, rest) ↔ run ≠ [] ∧ (∀ c ∈ run, c.isDigit) ∧ text = run ++ rest ∧
      ∀ c ∈ rest.head?, c.isDigit = false := by
  constructor
  · intro h
    rw [digits] at h
    split_ifs at h with hempty
    cases h
    refine ⟨by simpa using hempty, List.all_eq_true.mp List.all_takeWhile,
      List.takeWhile_append_dropWhile.symm, ?_⟩
    intro c hc
    have hnot := List.head?_dropWhile_not Char.isDigit text
    rw [Option.mem_def.mp hc] at hnot
    simpa using hnot
  · rintro ⟨hne, hrun, rfl, hrest⟩
    have htake : rest.takeWhile Char.isDigit = [] := by
      cases rest with
      | nil => rfl
      | cons c rest => simp [hrest c rfl]
    have hdrop : rest.dropWhile Char.isDigit = rest := by
      cases rest with
      | nil => rfl
      | cons c rest => simp [hrest c rfl]
    rw [digits, List.takeWhile_append_of_pos hrun, htake, List.append_nil,
      if_neg (by simpa using hne), List.dropWhile_append_of_pos hrun, hdrop]

end Library.DigitText
