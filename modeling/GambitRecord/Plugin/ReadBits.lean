import GambitRecord.Plugin.BitReader

/-! # Bits written in place

`read_bits` on the memory behind `raw_output`, which is cleared and then written a byte
at a time. The bytes are those of the reader that gives them as a list, and nothing else
changes.
-/

namespace GambitRecord.Plugin
open Library Library.Bits

/-- The bytes from `raw_output` on. -/
abbrev Memory := ℕ → UInt8

def memset (output : Memory) (n : ℕ) : Memory := fun i => if i < n then 0 else output i

def store (output : Memory) (k : ℕ) (bytes : List UInt8) : Memory :=
  fun i => if k ≤ i then bytes[i - k]?.getD (output i) else output i

namespace BitReader

/-- `output[k] |= ...` from the one or two bytes that hold the next bits. -/
def fill_at (data : List UInt8) (initial_mod left offset k : ℕ) (output : Memory) :
    Except Failure Memory := do
  let high ← byte data (offset / 8)
  let output := Function.update output k (output k ||| shiftLeft high initial_mod)
  if initial_mod ≠ 0 ∧ left > 8 - initial_mod then
    let low ← byte data (offset / 8 + 1)
    .ok (Function.update output k (output k ||| shiftRight low (8 - initial_mod)))
  else .ok output

def write_loop (data : List UInt8) (initial_mod : ℕ) (align_right : Bool) :
    ℕ → ℕ → ℕ → Memory → Except Failure Memory
  | 0, _, _, output => .ok output
  | left + 8, offset, k, output => do
    let output ← fill_at data initial_mod (left + 8) offset k output
    write_loop data initial_mod align_right left (offset + 8) (k + 1) output
  | left, offset, k, output => do
    let output ← fill_at data initial_mod left offset k output
    .ok (if align_right then Function.update output k (shiftRight (output k) (8 - left))
      else output)

/-- `read_bits` with its result, the reader and the memory after it. -/
def read_bits_into (r : BitReader) (output : Memory) (count : ℕ) (align_right : Bool) :
    Except Failure (Bool × BitReader × Memory) :=
  if count = 0 ∨ count > r.remaining then .ok (false, r, output)
  else do
    let output ← write_loop r.data (r.offset % 8) align_right count r.offset 0
      (memset output ((count + 7) / 8))
    .ok (true, { r with offset := r.offset + count }, output)

/-- A reader on data, after any of the calls that move it; the other reads are made of these. -/
inductive Reached (data : List UInt8) : BitReader → Prop where
  | start : Reached data (ofData data)
  | skip {r r' : BitReader} {count : ℕ} (hr : Reached data r) (h : r.skip count = .ok ((), r')) :
    Reached data r'
  | read_bits {r r' : BitReader} {output output' : Memory} {count : ℕ} {align_right done : Bool}
    (hr : Reached data r) (h : r.read_bits_into output count align_right = .ok (done, r', output')) :
    Reached data r'
  | read_bool {r r' : BitReader} {value : Bool} (hr : Reached data r)
    (h : r.read_bool = .ok (value, r')) : Reached data r'

/-- What the next byte shows of the bits that are left: eight of them, or the last few, which stand
at its right end under zeros or at its top. -/
def Shows (align_right : Bool) (left : ℕ) (bits : List Bool) (b : UInt8) : Prop :=
  if 8 ≤ left then ofByte b = bits.take 8
  else if align_right then ofByte b = List.replicate (8 - left) false ++ bits.take left
  else (ofByte b).take left = bits.take left

theorem store_nil (output : Memory) (k : ℕ) : store output k [] = output := by
  funext i
  simp [store]

theorem store_cons (output : Memory) (k : ℕ) (b : UInt8) (bytes : List UInt8) :
    store output k (b :: bytes) = store (Function.update output k b) (k + 1) bytes := by
  funext i
  rcases Nat.lt_trichotomy i k with hlt | rfl | hgt
  · have hnot : ¬ k ≤ i := Nat.not_le.mpr hlt
    have hnext : ¬ k + 1 ≤ i := by omega
    simp [store, hnot, hnext, hlt.ne]
  · simp [store]
  · have hnext : k + 1 ≤ i := hgt
    have hindex : i - k = i - (k + 1) + 1 := by omega
    simp [store, hgt.le, hnext, hgt.ne', hindex]

variable {data : List UInt8} {m left offset k : ℕ} {output : Memory} {align_right : Bool}

/-- A cleared byte takes the bits as they are. -/
theorem fill_at_eq (hclear : output k = 0) :
    fill_at data m left offset k output =
      (fill data m left offset).map (Function.update output k) := by
  rw [fill_at, fill]
  cases byte data (offset / 8) with
  | error e => rfl
  | ok high =>
    simp only [ok_bind, hclear, UInt8.zero_or, Function.update_self, Function.update_idem]
    split_ifs
    · cases byte data (offset / 8 + 1) with
      | error e => rfl
      | ok low => rfl
    · rfl

theorem write_loop_small (hpos : 0 < left) (hsmall : left < 8) :
    write_loop data m align_right left offset k output =
      fill_at data m left offset k output >>= fun output =>
        .ok (if align_right then Function.update output k (shiftRight (output k) (8 - left))
          else output) := by
  interval_cases left <;> rfl

/-- In cleared memory the loop stores the bytes that the reader gives as a list. -/
theorem write_loop_eq (hclear : ∀ i, k ≤ i → i < k + (left + 7) / 8 → output i = 0) :
    write_loop data m align_right left offset k output =
      (read_loop data m align_right left offset).map (store output k) := by
  induction left using Nat.strong_induction_on generalizing offset k output with
  | _ left ih =>
    rcases Nat.eq_zero_or_pos left with rfl | hpos
    · rw [write_loop, read_loop]
      exact congrArg Except.ok (store_nil output k).symm
    have hfirst : output k = 0 := hclear k le_rfl (by omega)
    rcases Nat.lt_or_ge left 8 with hsmall | hlarge
    · rw [write_loop_small hpos hsmall, read_loop_small hpos hsmall, fill_at_eq hfirst]
      cases fill data m left offset with
      | error e => rfl
      | ok b =>
        apply congrArg Except.ok
        rw [store_cons, store_nil, Function.update_self]
        cases align_right with
        | true => exact Function.update_idem _ _ _
        | false => rfl
    · obtain ⟨n, rfl⟩ := Nat.exists_eq_add_of_le' hlarge
      rw [write_loop, read_loop, fill_at_eq hfirst]
      cases fill data m (n + 8) offset with
      | error e => rfl
      | ok b =>
        have hrest : ∀ i, k + 1 ≤ i → i < k + 1 + (n + 7) / 8 →
            Function.update output k b i = 0 := by
          intro i hi hlt
          rw [Function.update_of_ne (by omega)]
          exact hclear i (by omega) (by omega)
        change write_loop data m align_right n (offset + 8) (k + 1) (Function.update output k b) = _
        rw [ih n (by omega) hrest, ok_bind]
        cases read_loop data m align_right n (offset + 8) with
        | error e => rfl
        | ok out => exact congrArg Except.ok (store_cons output k b out).symm

theorem shows_of_lt {bits : List Bool} {b : UInt8} (hsmall : left < 8)
    (h : (ofByte b).take left = bits.take left) :
    Shows align_right left bits (if align_right then shiftRight b (8 - left) else b) := by
  rw [Shows, if_neg (Nat.not_le.mpr hsmall)]
  cases align_right with
  | true =>
    have hback : 8 - (8 - left) = left := by omega
    rw [if_pos rfl, if_pos rfl, ofByte_shiftRight _ (Nat.sub_le 8 left), hback, h]
  | false => exact h

/-- Every byte of the loop shows the bits at its place. -/
theorem read_loop_shows (hm : m < 8) (left q : ℕ)
    (hleft : left ≤ ((ofBytes data).drop (8 * q + m)).length) :
    ∃ out, read_loop data m align_right left (8 * q + m) = .ok out ∧
      out.length = (left + 7) / 8 ∧ ∀ k b, out[k]? = some b →
        Shows align_right (left - 8 * k) ((ofBytes data).drop (8 * q + m + 8 * k)) b := by
  induction left using Nat.strong_induction_on generalizing q with
  | _ left ih =>
    rcases Nat.eq_zero_or_pos left with rfl | hpos
    · exact ⟨[], rfl, rfl, by simp⟩
    obtain ⟨b, hb, hbits⟩ := fill_spec hm hpos hleft
    rcases Nat.lt_or_ge left 8 with hsmall | hlarge
    · rw [min_eq_left hsmall.le] at hbits
      refine ⟨[if align_right then shiftRight b (8 - left) else b], ?_, ?_, ?_⟩
      · rw [read_loop_small hpos hsmall, hb, ok_bind]
      · rw [List.length_singleton]
        omega
      · intro k c hc
        obtain ⟨hk, hvalue⟩ := List.getElem?_eq_some_iff.mp hc
        rw [List.length_singleton, Nat.lt_one_iff] at hk
        subst hk
        rw [← hvalue]
        exact shows_of_lt hsmall hbits
    · obtain ⟨n, rfl⟩ := Nat.exists_eq_add_of_le' hlarge
      have hnext : 8 * q + m + 8 = 8 * (q + 1) + m := by omega
      have hrest : n ≤ ((ofBytes data).drop (8 * (q + 1) + m)).length := by
        rw [List.length_drop] at hleft ⊢
        omega
      obtain ⟨out, hout, hlength, hshows⟩ := ih n (by omega) (q + 1) hrest
      refine ⟨b :: out, ?_, ?_, ?_⟩
      · rw [read_loop, hb, ok_bind, hnext, hout]
        rfl
      · rw [List.length_cons]
        omega
      · intro k c hc
        cases k with
        | zero =>
          cases hc
          rw [min_eq_right hlarge, List.take_of_length_le (by rw [length_ofByte]; omega)] at hbits
          simp only [Nat.mul_zero, Nat.sub_zero, Nat.add_zero]
          rw [Shows, if_pos hlarge, hbits]
        | succ k =>
          rw [List.getElem?_cons_succ] at hc
          have hplace : 8 * q + m + 8 * (k + 1) = 8 * (q + 1) + m + 8 * k := by omega
          have hcount : n + 8 - 8 * (k + 1) = n - 8 * k := by omega
          rw [hplace, hcount]
          exact hshows k c hc

theorem Holds.drop {r : BitReader} {xs : List Bool} {count : ℕ} (h : Holds r xs)
    (hle : count ≤ xs.length) : Holds { r with offset := r.offset + count } (xs.drop count) := by
  rw [← List.take_append_drop count xs] at h
  have hadvanced := h.advance
  rwa [List.length_take, min_eq_left hle] at hadvanced

/-- What a read does to the memory, in one step. -/
theorem read_bits_into_spec {r : BitReader} {xs : List Bool} (h : Holds r xs) {count : ℕ}
    (hpos : 0 < count) (hle : count ≤ xs.length) (output : Memory) (align_right : Bool) :
    ∃ out, r.read_bits_into output count align_right =
        .ok (true, { r with offset := r.offset + count },
          store (memset output ((count + 7) / 8)) 0 out) ∧
      out.length = (count + 7) / 8 ∧ ∀ k b, out[k]? = some b →
        Shows align_right (count - 8 * k) ((ofBytes r.data).drop (r.offset + 8 * k)) b := by
  have hoffset : 8 * (r.offset / 8) + r.offset % 8 = r.offset := by omega
  have hleft : count ≤ ((ofBytes r.data).drop (8 * (r.offset / 8) + r.offset % 8)).length := by
    rw [hoffset, h.left]
    exact hle
  obtain ⟨out, hout, hlength, hshows⟩ :=
    @read_loop_shows r.data _ align_right (Nat.mod_lt r.offset (by decide)) count (r.offset / 8) hleft
  rw [hoffset] at hout hshows
  refine ⟨out, ?_, hlength, hshows⟩
  have hclear : ∀ i, 0 ≤ i → i < 0 + (count + 7) / 8 →
      memset output ((count + 7) / 8) i = 0 := by
    intro i _ hi
    rw [Nat.zero_add] at hi
    exact if_pos hi
  have hloop := @write_loop_eq r.data (r.offset % 8) count r.offset 0 _ align_right hclear
  rw [read_bits_into, if_neg (by rw [h.remaining]; omega), hloop, hout]
  rfl

theorem read_bits_into_refused {r : BitReader} {count : ℕ} (h : ¬ (0 < count ∧ count ≤ r.remaining))
    (output : Memory) (align_right : Bool) :
    r.read_bits_into output count align_right = .ok (false, r, output) := by
  rw [read_bits_into, if_pos (by omega)]

theorem Reached.holds {r : BitReader} (h : Reached data r) (hsize : data.length < 2 ^ 29) :
    r.data = data ∧ Holds r ((ofBytes data).drop r.offset) := by
  induction h with
  | start => exact ⟨rfl, by simpa [ofData] using holds_ofData hsize⟩
  | @skip r r' count hr hskip ih =>
    obtain ⟨hdata, hholds⟩ := ih
    rw [BitReader.skip, hholds.remaining] at hskip
    split_ifs at hskip with hmore
    cases hskip
    refine ⟨hdata, ?_⟩
    rw [← List.drop_drop]
    exact hholds.drop (not_lt.mp hmore)
  | @read_bits r r' output output' count align_right done hr hread ih =>
    obtain ⟨hdata, hholds⟩ := ih
    by_cases hcount : 0 < count ∧ count ≤ r.remaining
    · have hle := hcount.2
      rw [hholds.remaining] at hle
      obtain ⟨out, hinto, -⟩ := read_bits_into_spec hholds hcount.1 hle output align_right
      rw [hread] at hinto
      cases hinto
      refine ⟨hdata, ?_⟩
      rw [← List.drop_drop]
      exact hholds.drop hle
    · rw [read_bits_into_refused hcount] at hread
      cases hread
      exact ⟨hdata, hholds⟩
  | @read_bool r r' value hr hread ih =>
    obtain ⟨hdata, hholds⟩ := ih
    rw [BitReader.read_bool] at hread
    split_ifs at hread with hnone
    cases hbyte : byte r.data (r.offset / 8) with
    | error e =>
      rw [hbyte] at hread
      cases hread
    | ok b =>
      rw [hbyte] at hread
      cases hread
      refine ⟨hdata, ?_⟩
      rw [← List.drop_drop]
      apply hholds.drop
      rw [← hholds.remaining]
      omega

/-- A read succeeds exactly on as many bits as there are; then it moves on by them and writes them,
and otherwise it does nothing. It touches no byte outside the data. -/
theorem reads_bits {data : List UInt8} (hsize : data.length < 2 ^ 29) {r : BitReader}
    (hr : Reached data r) (output : Memory) (count : ℕ) (align_right : Bool) :
    ∃ done r' output', r.read_bits_into output count align_right = .ok (done, r', output') ∧
      (done = true ↔ 0 < count ∧ count ≤ r.remaining) ∧
      (done = true → r' = { r with offset := r.offset + count } ∧
        (∀ k, 8 * k < count → Shows align_right (count - 8 * k)
          ((ofBytes data).drop (r.offset + 8 * k)) (output' k)) ∧
        ∀ k, count ≤ 8 * k → output' k = output k) ∧
      (done = false → r' = r ∧ output' = output) := by
  obtain ⟨hdata, hholds⟩ := hr.holds hsize
  by_cases hcount : 0 < count ∧ count ≤ r.remaining
  · have hle := hcount.2
    rw [hholds.remaining] at hle
    obtain ⟨out, hinto, hlength, hshows⟩ :=
      read_bits_into_spec hholds hcount.1 hle output align_right
    rw [hdata] at hshows
    refine ⟨_, _, _, hinto, iff_of_true rfl hcount, fun _ => ⟨rfl, ?_, ?_⟩, fun h => by cases h⟩
    · intro k hk
      have hlt : k < out.length := by omega
      have hget := List.getElem?_eq_getElem hlt
      simpa [store, hget] using hshows k _ hget
    · intro k hk
      have hge : out.length ≤ k := by omega
      have hbehind : ¬ k < (count + 7) / 8 := by omega
      simp [store, memset, List.getElem?_eq_none hge, hbehind]
  · refine ⟨_, _, _, read_bits_into_refused hcount output align_right, ?_, ?_, ?_⟩
    · exact iff_of_false (by decide) hcount
    · intro h
      cases h
    · exact fun _ => ⟨rfl, rfl⟩

theorem reads_bits_five :
    ∃ done r' output', BitReader.read_bits_into ⟨[0x12, 0x34], 16, 4⟩ (fun _ => 7) 5 true =
        .ok (done, r', output') ∧
      (done = true ↔ 0 < 5 ∧ 5 ≤ (⟨[0x12, 0x34], 16, 4⟩ : BitReader).remaining) ∧
      (done = true → r' = ⟨[0x12, 0x34], 16, 9⟩ ∧
        (∀ k, 8 * k < 5 → Shows true (5 - 8 * k)
          ((ofBytes [0x12, 0x34]).drop (4 + 8 * k)) (output' k)) ∧
        ∀ k, 5 ≤ 8 * k → output' k = 7) ∧
      (done = false → r' = ⟨[0x12, 0x34], 16, 4⟩ ∧ output' = fun _ => 7) :=
  reads_bits (by decide) (@Reached.skip [0x12, 0x34] (ofData [0x12, 0x34]) _ 4 .start rfl) _ 5 true

end BitReader

end GambitRecord.Plugin
