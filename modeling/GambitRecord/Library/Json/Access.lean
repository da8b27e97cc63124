import GambitRecord.Library.Json.Document

/-! # Reading JSON values

Members, defaults and the conversions of numbers. A conversion that throws is
`none`. A double is truncated after rounding to binary64; where the language
leaves the cast undefined, the value is that of the usual machine instruction.
-/

namespace Library.Json
open Library.DigitText

/-- The member with a key; the last one, should there be several. -/
def find? (key : Bytes) : Json → Option Json
  | .object members => (members.reverse.find? fun m => m.1 = key).map Prod.snd
  | _ => none

def isObject : Json → Bool
  | .object _ => true
  | _ => false

/-- `value` with a default: it throws outside an object and when the conversion throws. -/
def value? {α : Type*} (j : Json) (key : Bytes) (default : α) (get : Json → Option α) : Option α :=
  if ¬ j.isObject then none
  else match j.find? key with
  | none => some default
  | some v => get v

def insertMember (key : Bytes) (j : Json) : List (Bytes × Json) → List (Bytes × Json)
  | [] => [(key, j)]
  | (k, v) :: ms =>
    if key = k then (k, j) :: ms
    else if key < k then (key, j) :: (k, v) :: ms
    else (k, v) :: insertMember key j ms

/-- What a range-based loop visits: the values of an object in the order of their keys, and a
scalar other than null as itself. -/
def items : Json → List Json
  | .array elements => elements
  | .object members =>
    (members.foldl (fun sorted m => insertMember m.1 m.2 sorted) []).map Prod.snd
  | .scalar .null => []
  | j => [j]

def getString : Json → Option Bytes
  | .string s => some s
  | _ => none

def getBool : Json → Option Bool
  | .scalar (.bool b) => some b
  | _ => none

/-- The quotient `num / den`, rounded to 53 binary digits, ties to even, and then down. -/
def truncRatio (num den : ℕ) : ℕ :=
  if num = 0 then 0
  else
    let e : ℤ := (Nat.log2 num : ℤ) - Nat.log2 den - 52
    let e := if num * 2 ^ (-(e + 52)).toNat < den * 2 ^ (e + 52).toNat then e - 1 else e
    let n := num * 2 ^ (-e).toNat
    let d := den * 2 ^ e.toNat
    let q := n / d
    let q := if d < 2 * (n % d) ∨ d = 2 * (n % d) ∧ q % 2 = 1 then q + 1 else q
    q * 2 ^ e.toNat / 2 ^ (-e).toNat

def FloatText.magnitude (x : FloatText) : ℕ :=
  let (digits, power) := decimalParts x.word
  truncRatio (digits * 10 ^ power.toNat) (10 ^ (-power).toNat)

def FloatText.trunc (x : FloatText) : ℤ :=
  if 2 ^ 63 ≤ x.magnitude then -2 ^ 63
  else if x.word.head? = some '-' then -x.magnitude
  else x.magnitude

/-- The cast to an unsigned type of 64 bits, which takes a second step from 2^63 on. -/
def FloatText.truncUnsigned (x : FloatText) : ℤ :=
  if x.magnitude < 2 ^ 63 ∨ x.word.head? = some '-' then x.trunc
  else if x.magnitude < 2 ^ 64 then x.magnitude
  else 0

/-- A number or a boolean before the cast to an integer type. -/
def getArithmetic : Json → Option ℤ
  | .scalar (.bool b) => some (if b then 1 else 0)
  | .scalar (.int n) => some n.val
  | .scalar (.float x) => some x.trunc
  | _ => none

def getUInt32 (j : Json) : Option UInt32 := j.getArithmetic.map fun n => UInt32.ofInt n

def getInt32 (j : Json) : Option Int32 := j.getArithmetic.map fun n => Int32.ofInt n

/-- For the types of the library's own numbers a boolean is none. -/
def getUInt64 : Json → Option UInt64
  | .scalar (.int n) => some (UInt64.ofInt n.val)
  | .scalar (.float x) => some (UInt64.ofInt x.truncUnsigned)
  | _ => none

def getInt64 : Json → Option Int64
  | .scalar (.int n) => some (Int64.ofInt n.val)
  | .scalar (.float x) => some (Int64.ofInt x.trunc)
  | _ => none

def ofUInt32 (n : UInt32) : Json :=
  .scalar (.int ⟨n.toNat, by omega, by have := n.toNat_lt; omega⟩)

def ofUInt64 (n : UInt64) : Json :=
  .scalar (.int ⟨n.toNat, by omega, by have := n.toNat_lt; omega⟩)

def ofBool (b : Bool) : Json := .scalar (.bool b)

def ofInt32 (n : Int32) : Json :=
  .scalar (.int ⟨n.toInt, by have := n.le_toInt; omega, by have := n.toInt_lt; omega⟩)

def ofInt64 (n : Int64) : Json :=
  .scalar (.int ⟨n.toInt, by have := n.le_toInt; omega, by have := n.toInt_lt; omega⟩)

theorem find?_object_cons (key : Bytes) (m : Bytes × Json) (ms : List (Bytes × Json)) :
    find? key (.object (m :: ms)) =
      (find? key (.object ms)).or (if m.1 = key then some m.2 else none) := by
  simp only [find?, List.reverse_cons, List.find?_append, Option.map_or, List.find?_singleton]
  split_ifs <;> simp_all

theorem find?_eq_none {key : Bytes} {ms : List (Bytes × Json)} (h : ∀ m ∈ ms, key < m.1) :
    find? key (.object ms) = none := by
  induction ms with
  | nil => rfl
  | cons m ms ih =>
    rw [List.forall_mem_cons] at h
    have hne : m.1 ≠ key := by
      rintro heq
      rw [heq] at h
      exact List.lt_irrefl key h.1
    rw [find?_object_cons, ih h.2, if_neg hne]
    rfl

theorem find?_insertMember (key : Bytes) (j : Json) {ms : List (Bytes × Json)}
    (h : ms.Pairwise fun m n => m.1 < n.1) :
    find? key (.object (insertMember key j ms)) = some j := by
  induction ms with
  | nil => simp [insertMember, find?]
  | cons m ms ih =>
    rcases m with ⟨k, v⟩
    rw [List.pairwise_cons] at h
    rw [insertMember]
    split_ifs with hkey hlt
    · subst hkey
      rw [find?_object_cons, find?_eq_none h.1, if_pos rfl]
      rfl
    · have hnone : find? key (.object ((k, v) :: ms)) = none := by
        apply find?_eq_none
        rw [List.forall_mem_cons]
        exact ⟨hlt, fun m hm => List.lt_trans hlt (h.1 m hm)⟩
      rw [find?_object_cons, hnone, if_pos rfl]
      rfl
    · rw [find?_object_cons, ih h.2]
      rfl

theorem mem_insertMember {key : Bytes} {j : Json} {ms : List (Bytes × Json)} {m : Bytes × Json}
    (h : m ∈ insertMember key j ms) : m.1 = key ∨ m ∈ ms := by
  induction ms with
  | nil =>
    rw [insertMember, List.mem_singleton] at h
    exact .inl (congrArg Prod.fst h)
  | cons n ms ih =>
    rcases n with ⟨k, v⟩
    rw [insertMember] at h
    split_ifs at h with hkey hlt
    · rcases List.mem_cons.mp h with rfl | hrest
      · exact .inl hkey.symm
      · exact .inr (List.mem_cons_of_mem _ hrest)
    · rcases List.mem_cons.mp h with rfl | hrest
      · exact .inl rfl
      · exact .inr hrest
    · rcases List.mem_cons.mp h with rfl | hrest
      · exact .inr (List.mem_cons_self ..)
      · exact (ih hrest).imp_right (List.mem_cons_of_mem _)

theorem pairwise_insertMember (key : Bytes) (j : Json) {ms : List (Bytes × Json)}
    (h : ms.Pairwise fun m n => m.1 < n.1) :
    (insertMember key j ms).Pairwise fun m n => m.1 < n.1 := by
  induction ms with
  | nil => exact List.pairwise_singleton _ _
  | cons m ms ih =>
    rcases m with ⟨k, v⟩
    obtain ⟨hfirst, hrest⟩ := List.pairwise_cons.mp h
    rw [insertMember]
    split_ifs with hkey hlt
    · exact List.pairwise_cons.mpr ⟨hfirst, hrest⟩
    · refine List.pairwise_cons.mpr ⟨?_, h⟩
      rw [List.forall_mem_cons]
      exact ⟨hlt, fun m hm => List.lt_trans hlt (hfirst m hm)⟩
    · refine List.pairwise_cons.mpr ⟨fun m hm => ?_, ih hrest⟩
      rcases mem_insertMember hm with hnew | hold
      · rw [hnew]
        exact (List.le_iff_lt_or_eq.mp hlt).resolve_right fun heq => hkey heq.symm
      · exact hfirst m hold

theorem find?_insertMember_of_ne {key other : Bytes} (hne : key ≠ other) (j : Json)
    (ms : List (Bytes × Json)) :
    find? other (.object (insertMember key j ms)) = find? other (.object ms) := by
  induction ms with
  | nil => rw [insertMember, find?_object_cons, if_neg hne, Option.or_none]
  | cons m ms ih =>
    rcases m with ⟨k, v⟩
    rw [insertMember]
    split_ifs with hkey hlt
    · have hother : k ≠ other := hkey ▸ hne
      rw [find?_object_cons, find?_object_cons, if_neg hother, if_neg hother]
    · rw [find?_object_cons, if_neg hne, Option.or_none]
    · rw [find?_object_cons, find?_object_cons, ih]

def insertMembers (members : List (Bytes × Json)) (ms : List (Bytes × Json)) :
    List (Bytes × Json) :=
  members.foldl (fun ms m => insertMember m.1 m.2 ms) ms

theorem pairwise_insertMembers (members : List (Bytes × Json)) {ms : List (Bytes × Json)}
    (h : ms.Pairwise fun m n => m.1 < n.1) :
    (insertMembers members ms).Pairwise fun m n => m.1 < n.1 := by
  induction members generalizing ms with
  | nil => exact h
  | cons m members ih => exact ih (pairwise_insertMember m.1 m.2 h)

theorem find?_insertMembers_of_notMem {key : Bytes} {members : List (Bytes × Json)}
    (hkey : key ∉ members.map Prod.fst) (ms : List (Bytes × Json)) :
    find? key (.object (insertMembers members ms)) = find? key (.object ms) := by
  induction members generalizing ms with
  | nil => rfl
  | cons m members ih =>
    rw [List.map_cons, List.mem_cons, not_or] at hkey
    exact (ih hkey.2 _).trans (find?_insertMember_of_ne (Ne.symm hkey.1) m.2 ms)

theorem find?_insertMembers {members : List (Bytes × Json)}
    (hkeys : (members.map Prod.fst).Nodup) {ms : List (Bytes × Json)}
    (h : ms.Pairwise fun m n => m.1 < n.1) {m : Bytes × Json} (hm : m ∈ members) :
    find? m.1 (.object (insertMembers members ms)) = some m.2 := by
  induction members generalizing ms with
  | nil => cases hm
  | cons first members ih =>
    obtain ⟨hfirst, hrest⟩ := List.nodup_cons.mp hkeys
    rcases List.mem_cons.mp hm with rfl | hmem
    · exact (find?_insertMembers_of_notMem hfirst _).trans (find?_insertMember m.1 m.2 h)
    · exact ih hrest (pairwise_insertMember first.1 first.2 h) hmem

theorem find?_of_mem {ms : List (Bytes × Json)} (h : ms.Pairwise fun m n => m.1 < n.1)
    {m : Bytes × Json} (hm : m ∈ ms) : find? m.1 (.object ms) = some m.2 := by
  induction ms with
  | nil => cases hm
  | cons first ms ih =>
    obtain ⟨hfirst, hrest⟩ := List.pairwise_cons.mp h
    rw [find?_object_cons]
    rcases List.mem_cons.mp hm with rfl | hmem
    · rw [find?_eq_none hfirst, if_pos rfl]
      rfl
    · rw [ih hrest hmem]
      rfl

theorem find?_eq_none_of_notMem {key : Bytes} {ms : List (Bytes × Json)}
    (h : key ∉ ms.map Prod.fst) : find? key (.object ms) = none := by
  rw [find?, Option.map_eq_none_iff, List.find?_eq_none]
  intro m hm hkey
  rw [List.mem_reverse] at hm
  exact h (List.mem_map.mpr ⟨m, hm, of_decide_eq_true hkey⟩)

@[simp] theorem isObject_object (members : List (Bytes × Json)) : isObject (.object members) :=
  rfl

@[simp] theorem getString_string (s : Bytes) : getString (.string s) = some s := rfl

@[simp] theorem getUInt32_ofUInt32 (n : UInt32) : getUInt32 (ofUInt32 n) = some n := by
  have hcast : UInt32.ofInt n.toNat = n := by
    have hlt := n.toNat_lt
    rw [UInt32.ofInt, Int.emod_eq_of_lt (by omega) (by omega), Int.toNat_natCast,
      UInt32.ofNat_toNat]
  simp [getUInt32, ofUInt32, getArithmetic, hcast]

@[simp] theorem getUInt64_ofUInt64 (n : UInt64) : getUInt64 (ofUInt64 n) = some n := by
  have hcast : UInt64.ofInt n.toNat = n := by
    have hlt := n.toNat_lt
    rw [UInt64.ofInt, Int.emod_eq_of_lt (by omega) (by omega), Int.toNat_natCast,
      UInt64.ofNat_toNat]
  simp [getUInt64, ofUInt64, hcast]

@[simp] theorem getBool_ofBool (b : Bool) : getBool (ofBool b) = some b := rfl

@[simp] theorem getInt32_ofInt32 (n : Int32) : getInt32 (ofInt32 n) = some n := by
  simp [getInt32, ofInt32, getArithmetic]

@[simp] theorem getInt64_ofInt64 (n : Int64) : getInt64 (ofInt64 n) = some n := by
  simp [getInt64, ofInt64]

@[simp] theorem valid_ofBool (b : Bool) : (ofBool b).Valid := valid_scalar _

@[simp] theorem valid_ofUInt32 (n : UInt32) : (ofUInt32 n).Valid := valid_scalar _

@[simp] theorem valid_ofUInt64 (n : UInt64) : (ofUInt64 n).Valid := valid_scalar _

@[simp] theorem valid_ofInt32 (n : Int32) : (ofInt32 n).Valid := valid_scalar _

@[simp] theorem valid_ofInt64 (n : Int64) : (ofInt64 n).Valid := valid_scalar _

end Library.Json
