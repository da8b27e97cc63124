import GambitRecord.Library.Utf8

/-! # Text files on Windows

A stream in text mode writes a line feed as two bytes and reads the two bytes as
one. Bytes without a carriage return and without the end-of-file byte are read
back, and of a file cut short a beginning is read, with at most one carriage
return behind it.
-/

namespace Library.TextMode

def write (bytes : Bytes) : Bytes := bytes.flatMap fun b => if b = 10 then [13, 10] else [b]

/-- The byte 26 ends a file. -/
def read : Bytes → Bytes
  | [] => []
  | b :: bs =>
    if b = 26 then []
    else if b = 13 ∧ bs.head? = some 10 then read bs
    else b :: read bs

/-- Bytes that text mode does not change. -/
def Plain (bytes : Bytes) : Prop := ∀ b ∈ bytes, b ≠ 13 ∧ b ≠ 26

theorem write_cons (b : UInt8) (bytes : Bytes) :
    write (b :: bytes) = (if b = 10 then [13, 10] else [b]) ++ write bytes := rfl

theorem write_append (a b : Bytes) : write (a ++ b) = write a ++ write b := List.flatMap_append

theorem read_newline (bytes : Bytes) : read (13 :: 10 :: bytes) = 10 :: read bytes := by
  simp [read]

theorem read_cons {b : UInt8} {bytes : Bytes} (h : b ≠ 13 ∧ b ≠ 26) :
    read (b :: bytes) = b :: read bytes := by
  simp [read, h]

theorem read_write_append {bytes : Bytes} (h : Plain bytes) (more : Bytes) :
    read (write bytes ++ more) = bytes ++ read more := by
  induction bytes with
  | nil => rfl
  | cons b bytes ih =>
    rw [Plain, List.forall_mem_cons] at h
    rw [write_cons, List.append_assoc]
    by_cases hb : b = 10
    · rw [if_pos hb, hb]
      change read (13 :: 10 :: (write bytes ++ more)) = _
      rw [read_newline, ih h.2]
      rfl
    · rw [if_neg hb, List.singleton_append, read_cons h.1, ih h.2]
      rfl

/-- A file cut short gives back a proper beginning; cut inside a new line, it shows its carriage
return. -/
theorem read_take_write {bytes : Bytes} (h : Plain bytes) {k : ℕ}
    (hk : k < (write bytes).length) :
    ∃ front b back, bytes = front ++ b :: back ∧
      (read ((write bytes).take k) = front ∨
        b = 10 ∧ read ((write bytes).take k) = front ++ [13]) := by
  induction bytes generalizing k with
  | nil => simp [write] at hk
  | cons b bytes ih =>
    rw [Plain, List.forall_mem_cons] at h
    cases k with
    | zero => exact ⟨[], b, bytes, rfl, Or.inl rfl⟩
    | succ k =>
      rw [write_cons, List.length_append] at hk
      rw [write_cons]
      by_cases hb : b = 10
      · rw [if_pos hb] at hk ⊢
        cases k with
        | zero => exact ⟨[], b, bytes, rfl, Or.inr ⟨hb, by simp [read]⟩⟩
        | succ k =>
          simp only [List.length_cons, List.length_nil] at hk
          rcases ih h.2 (k := k) (by omega) with ⟨front, c, back, rfl, hread⟩
          have htake : ([13, 10] ++ write (front ++ c :: back)).take (k + 1 + 1) =
              13 :: 10 :: (write (front ++ c :: back)).take k := rfl
          rw [htake, read_newline]
          refine ⟨b :: front, c, back, rfl, ?_⟩
          rcases hread with hread | ⟨hc, hread⟩
          · exact Or.inl (by rw [hread, hb])
          · exact Or.inr ⟨hc, by rw [hread, hb]; rfl⟩
      · rw [if_neg hb] at hk ⊢
        simp only [List.length_cons, List.length_nil] at hk
        rcases ih h.2 (k := k) (by omega) with ⟨front, c, back, rfl, hread⟩
        rw [List.singleton_append, List.take_succ_cons, read_cons h.1]
        refine ⟨b :: front, c, back, rfl, ?_⟩
        rcases hread with hread | ⟨hc, hread⟩
        · exact Or.inl (by rw [hread])
        · exact Or.inr ⟨hc, by rw [hread]; rfl⟩

/-- The lines of a file that ends with a line feed, and what is behind it. -/
theorem splitOn_read_write {lines : List Bytes} (h : ∀ line ∈ lines, Plain line ∧ 10 ∉ line) :
    (read (write (lines.flatMap fun line => line ++ [10]))).splitOn 10 = lines ++ [[]] := by
  induction lines with
  | nil => rfl
  | cons line lines ih =>
    rw [List.forall_mem_cons] at h
    rw [List.flatMap_cons, List.append_assoc, write_append, read_write_append h.1.1]
    change (line ++ read (13 :: 10 :: write (lines.flatMap fun line => line ++ [10]))).splitOn 10 = _
    rw [read_newline, List.splitOn_append_cons_self_of_not_mem h.1.2, ih h.2]
    rfl

end Library.TextMode
