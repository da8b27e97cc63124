import GambitRecord.Library.Bits
import GambitRecord.Library.LittleEndian
import GambitRecord.Library.Post
import GambitRecord.Library.Utf8
import Mathlib.Tactic.IntervalCases

/-! # The plugin's bit reader

`grecord::BitReader` and `extract_rpc_payload`. A read returns false, or it
would touch a byte outside its data; the two are kept apart. `size_t` has 32
bits. The output of a read is the list of the bytes it writes, least significant
first where they are taken for a number.
-/

namespace GambitRecord.Plugin
open Library Library.Bits

inductive Failure where
  | refused
  | outside
  deriving DecidableEq

structure BitReader where
  data : List UInt8
  bits : ℕ
  offset : ℕ
  deriving DecidableEq

namespace BitReader

def ofData (data : List UInt8) : BitReader := ⟨data, data.length * 8 % 2 ^ 32, 0⟩

def remaining (r : BitReader) : ℕ := if r.bits > r.offset then r.bits - r.offset else 0

def byte (data : List UInt8) (i : ℕ) : Except Failure UInt8 :=
  match data[i]? with
  | some b => .ok b
  | none => .error .outside

def skip (r : BitReader) (count : ℕ) : Except Failure (Unit × BitReader) :=
  if count > r.remaining then .error .refused else .ok ((), { r with offset := r.offset + count })

/-- The next byte of the output, from the one or two bytes that hold its bits. -/
def fill (data : List UInt8) (initial_mod left offset : ℕ) : Except Failure UInt8 := do
  let high ← byte data (offset / 8)
  if initial_mod ≠ 0 ∧ left > 8 - initial_mod then
    let low ← byte data (offset / 8 + 1)
    .ok (shiftLeft high initial_mod ||| shiftRight low (8 - initial_mod))
  else .ok (shiftLeft high initial_mod)

/-- The loop of `read_bits`; its last byte may hold fewer than eight bits. -/
def read_loop (data : List UInt8) (initial_mod : ℕ) (align_right : Bool) :
    ℕ → ℕ → Except Failure (List UInt8)
  | 0, _ => .ok []
  | left + 8, offset => do
    let b ← fill data initial_mod (left + 8) offset
    let bs ← read_loop data initial_mod align_right left (offset + 8)
    .ok (b :: bs)
  | left, offset => do
    let b ← fill data initial_mod left offset
    .ok [if align_right then shiftRight b (8 - left) else b]

def read_bits (r : BitReader) (count : ℕ) (align_right : Bool) :
    Except Failure (List UInt8 × BitReader) :=
  if count = 0 ∨ count > r.remaining then .error .refused
  else do
    let out ← read_loop r.data (r.offset % 8) align_right count r.offset
    .ok (out, { r with offset := r.offset + count })

def read_bool (r : BitReader) : Except Failure (Bool × BitReader) :=
  if r.remaining = 0 then .error .refused
  else do
    let b ← byte r.data (r.offset / 8)
    .ok (b &&& shiftRight 0x80 (r.offset % 8) ≠ 0, { r with offset := r.offset + 1 })

/-- `read` into an unsigned integer of some bytes. -/
def read (r : BitReader) (size : ℕ) : Except Failure (ℕ × BitReader) := do
  let (out, r) ← r.read_bits (size * 8) true
  .ok (LittleEndian.decode out, r)

/-- `read_compressed_u32` from a byte of the value on; the bytes above it are zero. -/
def read_compressed (r : BitReader) : ℕ → Except Failure (ℕ × BitReader)
  | 0 => do
    let (half, r) ← r.read_bool
    let (out, r) ← r.read_bits (if half then 4 else 8) true
    .ok (LittleEndian.decode out, r)
  | current + 1 => do
    let (matched, r) ← r.read_bool
    if matched then r.read_compressed current
    else r.read (current + 2)

def read_compressed_u32 (r : BitReader) : Except Failure (ℕ × BitReader) := r.read_compressed 3

/-- A string that does not fit reads as the empty one. -/
def read_string (r : BitReader) (length : ℕ) : Except Failure (Bytes × BitReader) :=
  if length > r.remaining / 8 ∨ length = 0 then .ok ([], r)
  else
    match r.read_bits (length * 8) true with
    | .error .refused => .ok ([], r)
    | result => result

end BitReader

structure RpcPayload where
  id : UInt8
  bytes : List UInt8
  bit_count : ℕ
  deriving DecidableEq

/-- The part of `extract_rpc_payload` before the payload; packet id 40 wraps the packet after a
time stamp. -/
def rpc_header (stream : BitReader) : Except Failure ((UInt8 × ℕ) × BitReader) := do
  let (packet_id, stream) ← stream.read 1
  let (_, stream) ← (if packet_id = 40 then stream.skip (8 * (4 + 1)) else .ok ((), stream))
  let (id, stream) ← stream.read 1
  let (bits, stream) ← stream.read_compressed_u32
  .ok ((UInt8.ofNat id, bits), stream)

/-- The payload's bytes are written to a buffer whose size is counted in 32 bits. -/
def extract_rpc_payload (packet : List UInt8) : Except Failure RpcPayload :=
  if packet.isEmpty then .error .refused
  else do
    let ((id, bits), stream) ← rpc_header (BitReader.ofData packet)
    if bits > stream.remaining then .error .refused
    else if bits = 0 then .ok ⟨id, [], 0⟩
    else
      let (bytes, _) ← stream.read_bits bits false
      if bytes.length ≤ (bits + 7) % 2 ^ 32 / 8 then .ok ⟨id, bytes, bits⟩
      else .error .outside

namespace BitReader

/-- The bits a reader has left; its data are short enough to be counted in bits. -/
structure Holds (r : BitReader) (xs : List Bool) : Prop where
  size : r.data.length < 2 ^ 29
  bits : r.bits = 8 * r.data.length
  offset : r.offset ≤ r.bits
  left : (ofBytes r.data).drop r.offset = xs

theorem Holds.remaining {r : BitReader} {xs : List Bool} (h : Holds r xs) :
    r.remaining = xs.length := by
  rw [← h.left, List.length_drop, length_ofBytes, BitReader.remaining, h.bits]
  have := h.offset
  split_ifs <;> omega

theorem Holds.length_lt {r : BitReader} {xs : List Bool} (h : Holds r xs) :
    xs.length + 7 < 2 ^ 32 := by
  have hsize := h.size
  rw [← h.left, List.length_drop, length_ofBytes]
  omega

theorem Holds.advance {r : BitReader} {xs ys : List Bool} (h : Holds r (xs ++ ys)) :
    Holds { r with offset := r.offset + xs.length } ys where
  size := h.size
  bits := h.bits
  offset := by
    have hlength := congrArg List.length h.left
    rw [List.length_drop, length_ofBytes, List.length_append] at hlength
    have hbits := h.bits
    have hoffset := h.offset
    change r.offset + xs.length ≤ r.bits
    omega
  left := by
    change (ofBytes r.data).drop (r.offset + xs.length) = ys
    rw [← List.drop_drop, h.left, List.drop_left]

theorem holds_ofData {data : List UInt8} (h : data.length < 2 ^ 29) :
    Holds (ofData data) (ofBytes data) where
  size := h
  bits := by
    change data.length * 8 % 2 ^ 32 = 8 * data.length
    omega
  offset := Nat.zero_le _
  left := rfl

/-- The byte that the loop writes holds the next bits, as far as they go. -/
theorem fill_spec {data : List UInt8} {q m left : ℕ} (hm : m < 8) (hpos : 0 < left)
    (hleft : left ≤ ((ofBytes data).drop (8 * q + m)).length) :
    ∃ b, fill data m left (8 * q + m) = .ok b ∧
      (ofByte b).take left = ((ofBytes data).drop (8 * q + m)).take (min left 8) := by
  have hdrop : (ofBytes data).drop (8 * q + m) = (ofBytes (data.drop q)).drop m := by
    rw [← List.drop_drop, drop_ofBytes]
  have hq : (8 * q + m) / 8 = q := by omega
  have hlength : left + m ≤ 8 * (data.length - q) := by
    rw [hdrop, List.length_drop, length_ofBytes, List.length_drop] at hleft
    omega
  have hlt : q < data.length := by omega
  have hhigh : byte data q = .ok data[q] := by simp [byte, hlt]
  have hdropped : ((ofByte data[q]).drop m).length = 8 - m := by
    rw [List.length_drop, length_ofByte]
  rw [hdrop, List.drop_eq_getElem_cons hlt, ofBytes_cons,
    List.drop_append_of_le_length (by rw [length_ofByte]; omega), List.take_append, hdropped,
    fill, hq, hhigh]
  by_cases hsecond : m ≠ 0 ∧ left > 8 - m
  · have hnext : q + 1 < data.length := by omega
    have hlow : byte data (q + 1) = .ok data[q + 1] := by simp [byte, hnext]
    refine ⟨shiftLeft data[q] m ||| shiftRight data[q + 1] (8 - m), ?_, ?_⟩
    · simp only [ok_bind, if_pos hsecond, hlow]
    have hwhole : ∀ n, 8 - m ≤ n →
        ((ofByte data[q]).drop m).take n = (ofByte data[q]).drop m := by
      intro n hn
      exact List.take_of_length_le (by omega)
    have hcount : min (left - (8 - m)) m = min left 8 - (8 - m) := by omega
    rw [ofByte_or_shift _ _ hm, List.take_append, hdropped, List.drop_eq_getElem_cons hnext,
      ofBytes_cons, List.take_take, hwhole left (by omega), hwhole (min left 8) (by omega), hcount]
    rw [List.take_append_of_le_length (by rw [length_ofByte]; omega)]
  · refine ⟨shiftLeft data[q] m, by simp only [ok_bind, if_neg hsecond], ?_⟩
    have hfew : min left 8 ≤ 8 - m := by omega
    rw [ofByte_shiftLeft _ hm.le, List.take_append, hdropped, Nat.sub_eq_zero_of_le hfew,
      List.take_zero, List.append_nil, List.take_replicate]
    have hnone : min (left - (8 - m)) m = 0 := by omega
    rw [hnone, List.replicate_zero, List.append_nil]
    by_cases hle : left ≤ 8
    · rw [min_eq_left hle]
    · rw [List.take_of_length_le (by omega), List.take_of_length_le (by omega)]

theorem read_loop_small {data : List UInt8} {m left offset : ℕ} {align_right : Bool}
    (hpos : 0 < left) (hsmall : left < 8) :
    read_loop data m align_right left offset = fill data m left offset >>= fun b =>
      .ok [if align_right then shiftRight b (8 - left) else b] := by
  interval_cases left <;> rfl

/-- The loop writes the bits from its offset on, and no byte more than they need. -/
theorem read_loop_spec {data : List UInt8} {m : ℕ} (hm : m < 8) {align_right : Bool} (left : ℕ)
    (halign : align_right = false ∨ left % 8 = 0) (q : ℕ)
    (hleft : left ≤ ((ofBytes data).drop (8 * q + m)).length) :
    ∃ out, read_loop data m align_right left (8 * q + m) = .ok out ∧
      out.length = (left + 7) / 8 ∧
      (ofBytes out).take left = ((ofBytes data).drop (8 * q + m)).take left := by
  induction left using Nat.strong_induction_on generalizing q with
  | _ left ih =>
    rcases Nat.eq_zero_or_pos left with rfl | hpos
    · exact ⟨[], rfl, rfl, rfl⟩
    obtain ⟨b, hb, hbits⟩ := fill_spec hm hpos hleft
    rcases Nat.lt_or_ge left 8 with hsmall | hlarge
    · have hnot : align_right = false := halign.resolve_right (by omega)
      refine ⟨[b], ?_, by rw [List.length_singleton]; omega, ?_⟩
      · rw [read_loop_small hpos hsmall, hb, ok_bind, hnot]
        rfl
      · rw [min_eq_left hsmall.le] at hbits
        rw [ofBytes_cons, ofBytes_nil, List.append_nil, hbits]
    · obtain ⟨k, rfl⟩ := Nat.exists_eq_add_of_le' hlarge
      have hnext : 8 * q + m + 8 = 8 * (q + 1) + m := by omega
      have hrest : (ofBytes data).drop (8 * (q + 1) + m) =
          ((ofBytes data).drop (8 * q + m)).drop 8 := by
        rw [List.drop_drop, hnext]
      obtain ⟨out, hout, hlength, htake⟩ := ih k (by omega) (halign.imp_right (by omega)) (q + 1)
        (by rw [hrest, List.length_drop]; omega)
      refine ⟨b :: out, ?_, by rw [List.length_cons]; omega, ?_⟩
      · rw [read_loop, hb, ok_bind, hnext, hout]
        rfl
      · rw [min_eq_right hlarge, List.take_of_length_le (by rw [length_ofByte]; omega)] at hbits
        rw [ofBytes_cons, List.take_append, List.take_of_length_le (by rw [length_ofByte]; omega),
          length_ofByte, Nat.add_sub_cancel, htake, hrest, hbits, Nat.add_comm k 8, List.take_add]

/-- Fewer than eight bits, moved to the right end of their byte. -/
theorem read_loop_right {data : List UInt8} {m left : ℕ} (hm : m < 8) (hpos : 0 < left)
    (hsmall : left < 8) (q : ℕ) (hleft : left ≤ ((ofBytes data).drop (8 * q + m)).length) :
    ∃ b, read_loop data m true left (8 * q + m) = .ok [b] ∧
      ofByte b = List.replicate (8 - left) false ++
        ((ofBytes data).drop (8 * q + m)).take left := by
  obtain ⟨b, hb, hbits⟩ := fill_spec hm hpos hleft
  rw [min_eq_left hsmall.le] at hbits
  refine ⟨shiftRight b (8 - left), ?_, ?_⟩
  · rw [read_loop_small hpos hsmall, hb, ok_bind]
    rfl
  · have hback : 8 - (8 - left) = left := by omega
    rw [ofByte_shiftRight _ (by omega), hback, hbits]

theorem read_bits_spec {r : BitReader} {xs ys : List Bool} (h : Holds r (xs ++ ys))
    (hpos : 0 < xs.length) {align_right : Bool}
    (halign : align_right = false ∨ xs.length % 8 = 0) :
    ∃ out, r.read_bits xs.length align_right =
        .ok (out, { r with offset := r.offset + xs.length }) ∧
      out.length = (xs.length + 7) / 8 ∧ (ofBytes out).take xs.length = xs := by
  have hremaining := h.remaining
  rw [List.length_append] at hremaining
  have hoffset : 8 * (r.offset / 8) + r.offset % 8 = r.offset := by omega
  have hleft := h.left
  rw [← hoffset] at hleft
  obtain ⟨out, hout, hlength, htake⟩ := @read_loop_spec r.data _ (Nat.mod_lt r.offset (by decide))
    align_right xs.length halign (r.offset / 8) (by rw [hleft, List.length_append]; omega)
  rw [hleft, List.take_left] at htake
  rw [hoffset] at hout
  refine ⟨out, ?_, hlength, htake⟩
  rw [read_bits, if_neg (by omega), hout]
  rfl

theorem read_bits_right {r : BitReader} {xs ys : List Bool} (h : Holds r (xs ++ ys))
    (hpos : 0 < xs.length) (hsmall : xs.length < 8) :
    ∃ b, r.read_bits xs.length true =
        .ok ([b], { r with offset := r.offset + xs.length }) ∧
      ofByte b = List.replicate (8 - xs.length) false ++ xs := by
  have hremaining := h.remaining
  rw [List.length_append] at hremaining
  have hoffset : 8 * (r.offset / 8) + r.offset % 8 = r.offset := by omega
  have hleft := h.left
  rw [← hoffset] at hleft
  obtain ⟨b, hb, hbits⟩ := @read_loop_right r.data _ xs.length (Nat.mod_lt r.offset (by decide))
    hpos hsmall (r.offset / 8) (by rw [hleft, List.length_append]; omega)
  rw [hleft, List.take_left] at hbits
  rw [hoffset] at hb
  refine ⟨b, ?_, hbits⟩
  rw [read_bits, if_neg (by omega), hb]
  rfl

theorem read_bits_refused {r : BitReader} {xs : List Bool} (h : Holds r xs) {count : ℕ}
    (hshort : xs.length < count) (align_right : Bool) :
    r.read_bits count align_right = .error .refused := by
  rw [read_bits, if_pos (by rw [h.remaining]; omega)]

/-- A step that reads certain bits as a value, and refuses when only a part of them is left. -/
structure Decodes {α : Type} (step : BitReader → Except Failure (α × BitReader)) (code : List Bool)
    (value : α) : Prop where
  reads : ∀ r ys, Holds r (code ++ ys) → ∃ r', step r = .ok (value, r') ∧ Holds r' ys
  refuses : ∀ r xs, Holds r xs → xs <+: code → xs.length < code.length →
    step r = .error .refused

theorem Decodes.bind {α β : Type} {step : BitReader → Except Failure (α × BitReader)}
    {g : α → BitReader → Except Failure (β × BitReader)} {code code' : List Bool} {value : α}
    {value' : β} (h : Decodes step code value) (h' : Decodes (g value) code' value') :
    Decodes (fun r => step r >>= fun p => g p.1 p.2) (code ++ code') value' where
  reads := by
    intro r ys hr
    rw [List.append_assoc] at hr
    obtain ⟨r', hstep, hr'⟩ := h.reads r _ hr
    obtain ⟨r'', hnext, hr''⟩ := h'.reads r' ys hr'
    exact ⟨r'', by simp only [hstep, ok_bind, hnext], hr''⟩
  refuses := by
    intro r xs hr hxs hshort
    rcases Nat.lt_or_ge xs.length code.length with hlt | hge
    · have hpart : xs <+: code :=
        List.prefix_of_prefix_length_le hxs (List.prefix_append ..) hlt.le
      simp only [h.refuses r xs hr hpart hlt, error_bind]
    · obtain ⟨zs, rfl⟩ : code <+: xs :=
        List.prefix_of_prefix_length_le (List.prefix_append ..) hxs hge
      rw [List.length_append, List.length_append] at hshort
      obtain ⟨r', hstep, hr'⟩ := h.reads r _ hr
      simp only [hstep, ok_bind]
      exact h'.refuses r' zs hr' ((List.prefix_append_right_inj _).mp hxs) (by omega)

theorem decodes_pure {α : Type} (value : α) : Decodes (fun r => .ok (value, r)) [] value where
  reads := fun r ys hr => ⟨r, rfl, hr⟩
  refuses := by
    intro r xs _ _ hshort
    exact absurd hshort (Nat.not_lt_zero _)

theorem Decodes.map {α β : Type} {step : BitReader → Except Failure (α × BitReader)}
    {code : List Bool} {value : α} (h : Decodes step code value) (f : α → β) :
    Decodes (fun r => step r >>= fun p => .ok (f p.1, p.2)) code (f value) := by
  have hmap := @Decodes.bind _ _ step (fun a r => .ok (f a, r)) code [] value (f value) h
    (decodes_pure (f value))
  rwa [List.append_nil] at hmap

/-- Whole bytes come out as they are, wherever in the data they start. -/
theorem decodes_bytes {bytes : List UInt8} (hne : bytes ≠ []) (align_right : Bool) :
    Decodes (fun r => r.read_bits (bytes.length * 8) align_right) (ofBytes bytes) bytes where
  reads := by
    intro r ys hr
    have hlength : (ofBytes bytes).length = bytes.length * 8 := by
      rw [length_ofBytes, Nat.mul_comm]
    have hpos := List.length_pos_iff.mpr hne
    obtain ⟨out, hout, hcount, hbits⟩ :=
      @read_bits_spec r _ ys hr (by omega) align_right (.inr (by omega))
    rw [List.take_of_length_le (by rw [length_ofBytes]; omega)] at hbits
    rw [ofBytes_injective hbits, hlength] at hout
    exact ⟨_, hout, hlength ▸ hr.advance⟩
  refuses := by
    intro r xs hr _ hshort
    rw [length_ofBytes] at hshort
    exact read_bits_refused hr (by omega) align_right

theorem decodes_read {bytes : List UInt8} (hne : bytes ≠ []) :
    Decodes (fun r => r.read bytes.length) (ofBytes bytes) (LittleEndian.decode bytes) :=
  (decodes_bytes hne true).map LittleEndian.decode

theorem decodes_skip (xs : List Bool) : Decodes (fun r => r.skip xs.length) xs () where
  reads := by
    intro r ys hr
    have hremaining := hr.remaining
    rw [List.length_append] at hremaining
    exact ⟨_, if_neg (by omega), hr.advance⟩
  refuses := by
    intro r zs hr _ hshort
    exact if_pos (by rw [hr.remaining]; omega)

theorem decodes_bool (b : Bool) : Decodes read_bool [b] b where
  reads := by
    intro r ys hr
    have hremaining := hr.remaining
    rw [List.length_append, List.length_singleton] at hremaining
    have hbits := hr.bits
    have hoffset := hr.offset
    have hlt : r.offset < 8 * r.data.length := by
      rw [BitReader.remaining] at hremaining
      split_ifs at hremaining <;> omega
    have hbyte : r.offset / 8 < r.data.length := by omega
    have hmod : r.offset % 8 < 8 := Nat.mod_lt _ (by decide)
    have hdata : byte r.data (r.offset / 8) = .ok r.data[r.offset / 8] := by simp [byte, hbyte]
    have hbit : r.data[r.offset / 8].toBitVec.getMsbD (r.offset % 8) = b := by
      have hhead := congrArg List.head? hr.left
      have hsplit : 8 * (r.offset / 8) + r.offset % 8 = r.offset := by omega
      rw [← hsplit, ← List.drop_drop, drop_ofBytes, List.drop_eq_getElem_cons hbyte, ofBytes_cons,
        List.drop_append_of_le_length (by rw [length_ofByte]; omega),
        List.drop_eq_getElem_cons (by rw [length_ofByte]; exact hmod)] at hhead
      simpa [getElem_ofByte] using hhead
    refine ⟨{ r with offset := r.offset + 1 }, ?_, hr.advance⟩
    rw [read_bool, if_neg (by omega), hdata, ok_bind]
    have hmask := and_mask_ne_zero r.data[r.offset / 8] hmod
    rw [hbit] at hmask
    cases b <;> simpa using hmask
  refuses := by
    intro r xs hr _ hshort
    rw [List.length_singleton] at hshort
    exact if_pos (by rw [hr.remaining]; omega)

/-- RakNet's compressed form of a number below `256 ^ (current + 1)`: a set bit for each zero byte
from the top, then a clear bit and the bytes that are left; the last byte may be a half one. -/
def compress (n : ℕ) : ℕ → List Bool
  | 0 =>
    if n % 256 / 16 = 0 then true :: (ofByte (UInt8.ofNat n)).drop 4
    else false :: ofByte (UInt8.ofNat n)
  | current + 1 =>
    if n / 256 ^ (current + 1) % 256 = 0 then true :: compress n current
    else false :: ofBytes (LittleEndian.encode (current + 2) n)

theorem decodes_half {n : ℕ} (h : n < 16) :
    Decodes (fun r => r.read_bits 4 true) ((ofByte (UInt8.ofNat n)).drop 4) [UInt8.ofNat n] where
  reads := by
    intro r ys hr
    have hlength : ((ofByte (UInt8.ofNat n)).drop 4).length = 4 := by
      rw [List.length_drop, length_ofByte]
    obtain ⟨b, hb, hbits⟩ := read_bits_right hr (by omega) (by omega)
    rw [hlength] at hb hbits
    have hsame : b = UInt8.ofNat n := by
      apply ofByte_injective
      rw [hbits, ofByte_of_lt h]
      rfl
    rw [hsame] at hb
    exact ⟨_, hb, hlength ▸ hr.advance⟩
  refuses := by
    intro r xs hr _ hshort
    rw [List.length_drop, length_ofByte] at hshort
    exact read_bits_refused hr hshort true

theorem decodes_low {n : ℕ} (h : n < 256) :
    Decodes (fun r => r.read_compressed 0) (compress n 0) n := by
  have hvalue : LittleEndian.decode [UInt8.ofNat n] = n := by
    rw [LittleEndian.decode, LittleEndian.decode, UInt8.toNat_ofNat']
    omega
  by_cases hhalf : n < 16
  · have hstep := (decodes_bool true).bind
      (g := fun half r => r.read_bits (if half then 4 else 8) true >>= fun p =>
        .ok (LittleEndian.decode p.1, p.2)) ((decodes_half hhalf).map LittleEndian.decode)
    rw [hvalue] at hstep
    rw [compress, if_pos (by omega)]
    exact hstep
  · have hbyte : Decodes (fun r => r.read_bits 8 true) (ofByte (UInt8.ofNat n)) [UInt8.ofNat n] := by
      have := @decodes_bytes [UInt8.ofNat n] (by simp) true
      rwa [ofBytes_cons, ofBytes_nil, List.append_nil] at this
    have hstep := (decodes_bool false).bind
      (g := fun half r => r.read_bits (if half then 4 else 8) true >>= fun p =>
        .ok (LittleEndian.decode p.1, p.2)) (hbyte.map LittleEndian.decode)
    rw [hvalue] at hstep
    rw [compress, if_neg (by omega)]
    exact hstep

/-- By induction on the byte the code starts with: a zero byte takes one bit, the first other one
the rest. -/
theorem decodes_compressed (current : ℕ) {n : ℕ} (h : n < 256 ^ (current + 1)) :
    Decodes (fun r => r.read_compressed current) (compress n current) n := by
  induction current with
  | zero => exact decodes_low (by simpa using h)
  | succ current ih =>
    have hlt : n / 256 ^ (current + 1) < 256 := by
      rw [pow_succ] at h
      exact Nat.div_lt_of_lt_mul h
    by_cases hzero : n / 256 ^ (current + 1) % 256 = 0
    · rw [Nat.mod_eq_of_lt hlt] at hzero
      have hsmall : n < 256 ^ (current + 1) := by
        rcases Nat.div_eq_zero_iff.mp hzero with hpow | hsmall
        · exact absurd hpow (by positivity)
        · exact hsmall
      have hstep := (decodes_bool true).bind
        (g := fun matched r => if matched then r.read_compressed current else r.read (current + 2))
        (ih hsmall)
      rw [compress, if_pos (by rw [Nat.mod_eq_of_lt hlt, hzero])]
      exact hstep
    · have hread : Decodes (fun r => r.read (current + 2))
          (ofBytes (LittleEndian.encode (current + 2) n)) n := by
        have := @decodes_read (LittleEndian.encode (current + 2) n) (by simp [LittleEndian.encode])
        rwa [LittleEndian.length_encode, LittleEndian.decode_encode h] at this
      have hstep := (decodes_bool false).bind
        (g := fun matched r => if matched then r.read_compressed current else r.read (current + 2))
        hread
      rw [compress, if_neg hzero]
      exact hstep

end BitReader
end GambitRecord.Plugin
