import Mathlib.Data.Int.Order.Basic
import Mathlib.Tactic.SplitIfs
import GambitRecord.Library.DigitText

/-! # The scalars of JSON

Literals and numbers with their texts. Integers are those of 64 bits, signed or
unsigned; every other number is a double, which is named by its text, so that two
texts of one double are kept apart.
-/

namespace Library.Json
open Library.DigitText

structure Number where
  val : ℤ
  lower : -2 ^ 63 ≤ val
  upper : val < 2 ^ 64
  deriving DecidableEq

/-- The characters of literals and numbers. -/
def wordChar (c : Char) : Bool := c.isAlphanum ∨ c = '+' ∨ c = '-' ∨ c = '.'

/-- Digits without superfluous zeros. -/
def readNat (digits : Text) : Option ℕ :=
  if decimal (value digits) = digits then some (value digits) else none

def readInt (word : Text) : Option Number :=
  match word with
  | [] => none
  | c :: digits =>
    if c = '-' then
      (readNat digits).bind fun n =>
        if h : n ≤ 2 ^ 63 then some ⟨-n, by omega, by omega⟩ else none
    else
      (readNat word).bind fun n => if h : n < 2 ^ 64 then some ⟨n, by omega, by omega⟩ else none

def intText (n : Number) : Text :=
  if n.val < 0 then '-' :: decimal n.val.natAbs else decimal n.val.natAbs

/-- An exponent, or nothing. -/
def isExponent : Text → Bool
  | [] => true
  | e :: rest =>
    let digits := if rest.head? = some '+' ∨ rest.head? = some '-' then rest.tail else rest
    (e = 'e' ∨ e = 'E') ∧ digits ≠ [] ∧ digits.all Char.isDigit

/-- A fraction and an exponent, either of them optional. -/
def isFraction : Text → Bool
  | [] => true
  | c :: rest =>
    if c = '.' then
      rest.takeWhile Char.isDigit ≠ [] ∧ isExponent (rest.dropWhile Char.isDigit)
    else isExponent (c :: rest)

/-- A number without its sign. -/
def magnitude (word : Text) : Text := if word.head? = some '-' then word.tail else word

/-- The power of ten of an exponent. -/
def exponent : Text → ℤ
  | [] => 0
  | _ :: rest =>
    if rest.head? = some '-' then -(value rest.tail)
    else if rest.head? = some '+' then value rest.tail
    else value rest

/-- A number is the first component times ten to the power of the second. -/
def decimalParts (word : Text) : ℕ × ℤ :=
  let whole := (magnitude word).takeWhile Char.isDigit
  let rest := (magnitude word).dropWhile Char.isDigit
  let fraction := if rest.head? = some '.' then rest.tail.takeWhile Char.isDigit else []
  let power := if rest.head? = some '.' then rest.tail.dropWhile Char.isDigit else rest
  (value (whole ++ fraction), exponent power - fraction.length)

/-- The number is nearer to a finite double than to the next power of two behind all of them. -/
def isFinite (word : Text) : Bool :=
  let (digits, power) := decimalParts word
  digits = 0 ∨ (decimal digits).length + power ≤ 310 ∧
    digits * 10 ^ power.toNat < (2 ^ 1024 - 2 ^ 970) * 10 ^ (-power).toNat

def isNumber (word : Text) : Bool :=
  word.all wordChar ∧ (readNat ((magnitude word).takeWhile Char.isDigit)).isSome ∧
    isFraction ((magnitude word).dropWhile Char.isDigit) ∧ isFinite word

/-- A number that is no integer of 64 bits. -/
structure FloatText where
  word : Text
  number : isNumber word = true
  float : readInt word = none
  deriving DecidableEq

inductive Scalar where
  | null
  | bool (b : Bool)
  | int (n : Number)
  | float (x : FloatText)
  deriving DecidableEq

def Scalar.text : Scalar → Text
  | .null => DigitText.text "null"
  | .bool true => DigitText.text "true"
  | .bool false => DigitText.text "false"
  | .int n => intText n
  | .float x => x.word

def readScalar (word : Text) : Option Scalar :=
  if word = text "null" then some .null
  else if word = text "true" then some (.bool true)
  else if word = text "false" then some (.bool false)
  else match hint : readInt word with
  | some n => some (.int n)
  | none => if hnum : isNumber word then some (.float ⟨word, hnum, hint⟩) else none

@[simp] theorem readNat_decimal (n : ℕ) : readNat (decimal n) = some n := by
  simp [readNat]

theorem wordChar_of_isDigit {c : Char} (h : c.isDigit = true) : wordChar c = true := by
  simp [wordChar, Char.isAlphanum, h]

theorem readInt_intText (n : Number) : readInt (intText n) = some n := by
  rcases n with ⟨val, lower, upper⟩
  by_cases hneg : val < 0
  · have hle : val.natAbs ≤ 2 ^ 63 := by omega
    have hval : -(val.natAbs : ℤ) = val := by omega
    rw [intText, if_pos hneg, readInt, if_pos rfl, readNat_decimal, Option.bind_some, dif_pos hle]
    simp only [hval]
  · have hlt : val.natAbs < 2 ^ 64 := by omega
    have hval : (val.natAbs : ℤ) = val := by omega
    rw [intText, if_neg hneg]
    cases hd : decimal val.natAbs with
    | nil => exact absurd hd (decimal_ne_nil _)
    | cons c digits =>
      have hminus : c ≠ '-' := by
        rintro rfl
        have hmem : '-' ∈ decimal val.natAbs := by simp [hd]
        exact absurd (isDigit_of_mem_decimal hmem) (by decide)
      rw [readInt, if_neg hminus, ← hd, readNat_decimal, Option.bind_some, dif_pos hlt]
      simp only [hval]

theorem wordChar_of_mem_text {s : Scalar} {c : Char} (h : c ∈ s.text) : wordChar c = true := by
  cases s with
  | null =>
    have hall : (DigitText.text "null").all wordChar = true := by decide +kernel
    exact List.all_eq_true.mp hall c h
  | bool b =>
    have hall : (Scalar.bool b).text.all wordChar = true := by
      cases b <;> decide +kernel
    exact List.all_eq_true.mp hall c h
  | int n =>
    have hdigit : ∀ d ∈ decimal n.val.natAbs, wordChar d = true := fun d hd =>
      wordChar_of_isDigit (isDigit_of_mem_decimal hd)
    simp only [Scalar.text, intText] at h
    split_ifs at h
    · rcases List.mem_cons.mp h with rfl | h
      · decide
      · exact hdigit c h
    · exact hdigit c h
  | float x =>
    have hnum := x.number
    simp only [isNumber, Bool.decide_and, Bool.and_eq_true, decide_eq_true_eq] at hnum
    exact List.all_eq_true.mp hnum.1 c h

theorem readScalar_text (s : Scalar) : readScalar s.text = some s := by
  have hwords : readInt (text "null") = none ∧ readInt (text "true") = none ∧
      readInt (text "false") = none := by decide +kernel
  have hfloats : isNumber (text "null") = false ∧ isNumber (text "true") = false ∧
      isNumber (text "false") = false := by decide +kernel
  cases s with
  | null => simp [readScalar, Scalar.text]
  | bool b =>
    have htrue : text "true" ≠ text "null" := by decide +kernel
    have hfalse : text "false" ≠ text "null" ∧ text "false" ≠ text "true" := by decide +kernel
    cases b <;> simp [readScalar, Scalar.text, htrue, hfalse]
  | int n =>
    have hread := readInt_intText n
    have hne : ∀ w, readInt w = none → intText n ≠ w := by
      rintro w hw rfl
      rw [hread] at hw
      cases hw
    rw [Scalar.text, readScalar, if_neg (hne _ hwords.1), if_neg (hne _ hwords.2.1),
      if_neg (hne _ hwords.2.2)]
    split
    · rename_i m hm
      rw [hread, Option.some_inj] at hm
      rw [hm]
    · rename_i hnone
      rw [hread] at hnone
      cases hnone
  | float x =>
    have hne : ∀ w, isNumber w = false → x.word ≠ w := by
      rintro w hw rfl
      rw [x.number] at hw
      cases hw
    rw [Scalar.text, readScalar, if_neg (hne _ hfloats.1), if_neg (hne _ hfloats.2.1),
      if_neg (hne _ hfloats.2.2)]
    split
    · rename_i m hm
      rw [x.float] at hm
      cases hm
    · rw [dif_pos x.number]

theorem Scalar.text_ne_nil (s : Scalar) : s.text ≠ [] := by
  intro h
  have hread := readScalar_text s
  rw [h] at hread
  have hnil : readScalar [] = none := by decide +kernel
  rw [hnil] at hread
  cases hread

end Library.Json
