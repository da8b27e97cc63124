import GambitRecord.Plugin.BitReader

/-! # Packets that carry a remote call

RakNet's encoding of a call, bit by bit, and what `extract_rpc_payload` makes
of a packet that is encoded so, of one that is cut short, and of any other.
-/

namespace GambitRecord.Plugin
open Library Library.Bits

/-- The first bytes of a packet: one other than 40, or 40 with a time stamp and an inner id. -/
inductive Wrap where
  | plain (first : UInt8) (ne : first ≠ 40)
  | stamped (t₀ t₁ t₂ t₃ inner : UInt8)

def Wrap.bytes : Wrap → List UInt8
  | .plain first _ => [first]
  | .stamped t₀ t₁ t₂ t₃ inner => [40, t₀, t₁, t₂, t₃, inner]

def headerBits (wrap : Wrap) (id : UInt8) (n : ℕ) : List Bool :=
  ofBytes wrap.bytes ++ (ofByte id ++ BitReader.compress n 3)

open BitReader

theorem decodes_byte (b : UInt8) : Decodes (fun r => r.read 1) (ofByte b) b.toNat := by
  have h := @decodes_read [b] (by simp)
  rw [ofBytes_cons, ofBytes_nil, List.append_nil] at h
  exact h

theorem decodes_id (id : UInt8) {n : ℕ} (h : n < 2 ^ 32) :
    Decodes (fun r => r.read 1 >>= fun p => p.2.read_compressed_u32 >>= fun q =>
      .ok ((UInt8.ofNat p.1, q.1), q.2)) (ofByte id ++ compress n 3) (id, n) := by
  have hstep := (decodes_byte id).bind
    (g := fun i r => r.read_compressed_u32 >>= fun q => .ok ((UInt8.ofNat i, q.1), q.2))
    ((decodes_compressed 3 h).map fun bits => (UInt8.ofNat id.toNat, bits))
  rw [UInt8.ofNat_toNat] at hstep
  exact hstep

theorem decodes_header (wrap : Wrap) (id : UInt8) {n : ℕ} (h : n < 2 ^ 32) :
    Decodes rpc_header (headerBits wrap id n) (id, n) := by
  cases wrap with
  | plain first ne =>
    have hne : first.toNat ≠ 40 := fun heq => ne (UInt8.toNat_inj.mp heq)
    have hskip : Decodes (fun r => if first.toNat = 40 then r.skip (8 * (4 + 1)) else .ok ((), r))
        [] () := by
      simp only [if_neg hne]
      exact decodes_pure ()
    have hrest := hskip.bind (g := fun _ r => r.read 1 >>= fun p =>
      p.2.read_compressed_u32 >>= fun q => .ok ((UInt8.ofNat p.1, q.1), q.2)) (decodes_id id h)
    have hall := (decodes_byte first).bind
      (g := fun i r => (if i = 40 then r.skip (8 * (4 + 1)) else .ok ((), r)) >>= fun s =>
        s.2.read 1 >>= fun p => p.2.read_compressed_u32 >>= fun q =>
          .ok ((UInt8.ofNat p.1, q.1), q.2)) hrest
    rw [List.nil_append] at hall
    rw [headerBits, Wrap.bytes, ofBytes_cons, ofBytes_nil, List.append_nil]
    exact hall
  | stamped t₀ t₁ t₂ t₃ inner =>
    have hskip := decodes_skip (ofBytes [t₀, t₁, t₂, t₃, inner])
    have hrest := hskip.bind (g := fun _ r => r.read 1 >>= fun p =>
      p.2.read_compressed_u32 >>= fun q => .ok ((UInt8.ofNat p.1, q.1), q.2)) (decodes_id id h)
    rw [length_ofBytes] at hrest
    have hall := (decodes_byte 40).bind
      (g := fun i r => (if i = 40 then r.skip (8 * (4 + 1)) else .ok ((), r)) >>= fun s =>
        s.2.read 1 >>= fun p => p.2.read_compressed_u32 >>= fun q =>
          .ok ((UInt8.ofNat p.1, q.1), q.2)) hrest
    rw [headerBits, Wrap.bytes, ofBytes_cons, List.append_assoc]
    exact hall

theorem read_payload {r : BitReader} {payload trailing : List Bool}
    (hr : Holds r (payload ++ trailing)) (hpos : 0 < payload.length) :
    ∃ bytes r', r.read_bits payload.length false = .ok (bytes, r') ∧
      bytes.length ≤ (payload.length + 7) % 2 ^ 32 / 8 ∧
      bytes.length = (payload.length + 7) / 8 ∧ (ofBytes bytes).take payload.length = payload := by
  have hlt := hr.length_lt
  rw [List.length_append] at hlt
  obtain ⟨bytes, hbytes, hcount, hbits⟩ := @read_bits_spec r _ _ hr hpos false (.inl rfl)
  exact ⟨bytes, _, hbytes, by omega, hcount, hbits⟩

/-- After a header, a payload that is there is taken bit for bit. -/
theorem extract_of_header {packet : List UInt8} {id : UInt8} {r : BitReader}
    {payload trailing : List Bool} (hne : packet ≠ [])
    (hheader : rpc_header (ofData packet) = .ok ((id, payload.length), r))
    (hr : Holds r (payload ++ trailing)) :
    ∃ bytes, extract_rpc_payload packet = .ok ⟨id, bytes, payload.length⟩ ∧
      bytes.length = (payload.length + 7) / 8 ∧ (ofBytes bytes).take payload.length = payload := by
  have hremaining := hr.remaining
  rw [List.length_append] at hremaining
  rw [extract_rpc_payload, if_neg (by simpa using hne), hheader, ok_bind]
  simp only [if_neg (show ¬ payload.length > r.remaining by omega)]
  rcases Nat.eq_zero_or_pos payload.length with hzero | hpos
  · refine ⟨[], by rw [if_pos hzero, hzero], by rw [hzero]; rfl, ?_⟩
    rw [List.length_eq_zero_iff.mp hzero]
    rfl
  · obtain ⟨bytes, r', hbytes, hsize, hcount, hbits⟩ := read_payload hr hpos
    refine ⟨bytes, ?_, hcount, hbits⟩
    rw [if_neg (by omega), hbytes, ok_bind]
    exact if_pos hsize

theorem extract_refused {packet : List UInt8} {wrap : Wrap} {id : UInt8} {n : ℕ}
    {xs : List Bool} (hn : n < 2 ^ 32) (hlength : packet.length < 2 ^ 29)
    (hbits : ofBytes packet <+: headerBits wrap id n ++ xs)
    (hshort : 8 * packet.length < (headerBits wrap id n).length + n) :
    extract_rpc_payload packet = .error .refused := by
  rw [extract_rpc_payload]
  by_cases hempty : packet.isEmpty
  · exact if_pos hempty
  rw [if_neg hempty]
  have hholds := holds_ofData hlength
  rcases Nat.lt_or_ge (ofBytes packet).length (headerBits wrap id n).length with hlt | hge
  · have hpart : ofBytes packet <+: headerBits wrap id n :=
      List.prefix_of_prefix_length_le hbits (List.prefix_append ..) hlt.le
    rw [(decodes_header wrap id hn).refuses _ _ hholds hpart hlt, error_bind]
  · obtain ⟨ys, hys⟩ : headerBits wrap id n <+: ofBytes packet :=
      List.prefix_of_prefix_length_le (List.prefix_append ..) hbits hge
    have hsum := congrArg List.length hys
    rw [List.length_append, length_ofBytes] at hsum
    rw [← hys] at hholds
    obtain ⟨r, hheader, hr⟩ := (decodes_header wrap id hn).reads _ _ hholds
    rw [hheader, ok_bind]
    exact if_pos (by rw [hr.remaining]; omega)

/-- A step that touches no byte outside the data, from a reader that holds its bits to one that
does. -/
def Safe {α : Type} (step : BitReader → Except Failure (α × BitReader)) : Prop :=
  ∀ r xs, Holds r xs → Post (· ≠ .outside) (step r) fun p => ∃ ys, Holds p.2 ys

theorem Safe.bind {α β : Type} {step : BitReader → Except Failure (α × BitReader)}
    {g : α → BitReader → Except Failure (β × BitReader)} (h : Safe step) (h' : ∀ a, Safe (g a)) :
    Safe fun r => step r >>= fun p => g p.1 p.2 := by
  intro r xs hr
  rw [post_bind]
  exact (h r xs hr).mono fun p hp => by
    obtain ⟨ys, hys⟩ := hp
    exact h' p.1 p.2 ys hys

theorem safe_ok {α : Type} (a : α) : Safe fun r => .ok (a, r) := fun _ xs hr => ⟨xs, hr⟩

theorem Safe.map {α β : Type} {step : BitReader → Except Failure (α × BitReader)} (h : Safe step)
    (f : α → β) : Safe fun r => step r >>= fun p => .ok (f p.1, p.2) :=
  h.bind (g := fun a r => .ok (f a, r)) fun a => safe_ok (f a)

theorem safe_read_bits {count : ℕ} {align_right : Bool}
    (hcount : align_right = false ∨ count % 8 = 0 ∨ count < 8) :
    Safe fun r => r.read_bits count align_right := by
  intro r xs hr
  change Post _ (r.read_bits count align_right) _
  by_cases hrefused : count = 0 ∨ count > r.remaining
  · rw [BitReader.read_bits, if_pos hrefused]
    simp
  · rw [hr.remaining] at hrefused
    have hlength : (xs.take count).length = count := by
      rw [List.length_take]
      omega
    rw [← List.take_append_drop count xs] at hr
    by_cases halign : align_right = false ∨ count % 8 = 0
    · obtain ⟨out, hout, -⟩ := @read_bits_spec r _ _ hr (by omega) align_right (by rwa [hlength])
      rw [hlength] at hout
      rw [hout]
      exact ⟨_, hlength ▸ hr.advance⟩
    · obtain ⟨hright, hmod⟩ := not_or.mp halign
      have hsmall : count < 8 := (hcount.resolve_left hright).resolve_left hmod
      rw [Bool.not_eq_false] at hright
      subst hright
      obtain ⟨b, hb, -⟩ := read_bits_right hr (by omega) (by omega)
      rw [hlength] at hb
      rw [hb]
      exact ⟨_, hlength ▸ hr.advance⟩

theorem safe_read (size : ℕ) : Safe fun r => r.read size :=
  (safe_read_bits (.inr (.inl (Nat.mul_mod_left size 8)))).map LittleEndian.decode

theorem safe_read_bool : Safe read_bool := by
  intro r xs hr
  cases xs with
  | nil =>
    rw [(decodes_bool true).refuses r [] hr List.nil_prefix (by simp)]
    simp
  | cons b xs =>
    obtain ⟨r', hstep, hr'⟩ := (decodes_bool b).reads r xs hr
    rw [hstep]
    exact ⟨xs, hr'⟩

theorem safe_skip (count : ℕ) : Safe fun r => r.skip count := by
  intro r xs hr
  change Post _ (r.skip count) _
  by_cases hrefused : count > r.remaining
  · rw [BitReader.skip, if_pos hrefused]
    simp
  · rw [BitReader.skip, if_neg hrefused]
    rw [hr.remaining] at hrefused
    have hlength : (xs.take count).length = count := by
      rw [List.length_take]
      omega
    rw [← List.take_append_drop count xs] at hr
    exact ⟨_, hlength ▸ hr.advance⟩

theorem safe_read_compressed (current : ℕ) : Safe fun r => r.read_compressed current := by
  induction current with
  | zero =>
    apply safe_read_bool.bind (g := fun half r => r.read_bits (if half then 4 else 8) true >>=
      fun p => .ok (LittleEndian.decode p.1, p.2))
    intro half
    apply Safe.map _ LittleEndian.decode
    apply safe_read_bits
    cases half <;> simp
  | succ current ih =>
    apply safe_read_bool.bind (g := fun matched r =>
      if matched then r.read_compressed current else r.read (current + 2))
    intro matched
    cases matched with
    | true => exact ih
    | false => exact safe_read (current + 2)

theorem safe_header : Safe rpc_header := by
  apply (safe_read 1).bind (g := fun i r =>
    (if i = 40 then r.skip (8 * (4 + 1)) else .ok ((), r)) >>= fun s =>
      s.2.read 1 >>= fun p => p.2.read_compressed_u32 >>= fun q => .ok ((UInt8.ofNat p.1, q.1), q.2))
  intro i
  have hskip : Safe fun r => if i = 40 then r.skip (8 * (4 + 1)) else .ok ((), r) := by
    by_cases hi : i = 40
    · simp only [if_pos hi]
      exact safe_skip _
    · simp only [if_neg hi]
      exact safe_ok ()
  apply hskip.bind (g := fun _ r =>
    r.read 1 >>= fun p => p.2.read_compressed_u32 >>= fun q => .ok ((UInt8.ofNat p.1, q.1), q.2))
  intro _
  apply (safe_read 1).bind (g := fun id r =>
    r.read_compressed_u32 >>= fun q => .ok ((UInt8.ofNat id, q.1), q.2))
  intro id
  exact (safe_read_compressed 3).map fun bits => (UInt8.ofNat id, bits)

/-- No packet makes a read touch a byte outside it, or the payload outgrow its buffer. -/
theorem extract_safe {packet : List UInt8} (h : packet.length < 2 ^ 29) :
    extract_rpc_payload packet ≠ .error .outside := by
  rw [extract_rpc_payload]
  by_cases hempty : packet.isEmpty
  · rw [if_pos hempty]
    simp
  rw [if_neg hempty]
  have hheader := safe_header _ _ (holds_ofData h)
  cases hresult : rpc_header (ofData packet) with
  | error e =>
    rw [hresult] at hheader
    rw [error_bind]
    simpa using hheader
  | ok p =>
    obtain ⟨⟨id, bits⟩, stream⟩ := p
    rw [hresult] at hheader
    obtain ⟨xs, hxs⟩ := hheader
    simp only [ok_bind]
    by_cases hmore : bits > stream.remaining
    · rw [if_pos hmore]
      simp
    rw [if_neg hmore]
    by_cases hzero : bits = 0
    · rw [if_pos hzero]
      simp
    rw [hxs.remaining] at hmore
    have hlength : (xs.take bits).length = bits := by
      rw [List.length_take]
      omega
    rw [← List.take_append_drop bits xs] at hxs
    obtain ⟨bytes, r', hbytes, hsize, -⟩ := read_payload hxs (by omega)
    rw [hlength] at hbytes hsize
    rw [if_neg hzero, hbytes, ok_bind, if_pos hsize]
    simp

/-- A packet that carries a payload of any number of bits gives back its id and its payload; cut to
fewer bytes than header and payload need it is refused; and no packet makes a read touch a byte
outside it. -/
theorem extract_rpc_payload_encoded (wrap : Wrap) (id : UInt8) (payload trailing : List Bool)
    (packet : List UInt8) (hlength : packet.length < 2 ^ 29)
    (hpacket : ofBytes packet = headerBits wrap id payload.length ++ payload ++ trailing) :
    (∃ bytes, extract_rpc_payload packet = .ok ⟨id, bytes, payload.length⟩ ∧
      bytes.length = (payload.length + 7) / 8 ∧
      (ofBytes bytes).take payload.length = payload) ∧
    (∀ k, 8 * k < (headerBits wrap id payload.length).length + payload.length →
      extract_rpc_payload (packet.take k) = .error .refused) ∧
    ∀ other : List UInt8, other.length < 2 ^ 29 → extract_rpc_payload other ≠ .error .outside := by
  have hsum := congrArg List.length hpacket
  rw [length_ofBytes, List.length_append, List.length_append] at hsum
  have hn : payload.length < 2 ^ 32 := by omega
  refine ⟨?_, fun k hk => ?_, fun other => extract_safe⟩
  · have hholds := holds_ofData hlength
    rw [hpacket, List.append_assoc] at hholds
    obtain ⟨r, hheader, hr⟩ := (decodes_header wrap id hn).reads _ _ hholds
    apply extract_of_header _ hheader hr
    rintro rfl
    rw [headerBits, List.length_append, List.length_append, length_ofByte, List.length_nil] at hsum
    omega
  · have htake : (packet.take k).length = k := by
      rw [List.length_take]
      omega
    apply @extract_refused _ wrap id _ (payload ++ trailing) hn (by omega) _ (by rwa [htake])
    rw [← take_ofBytes, hpacket, List.append_assoc]
    exact List.take_prefix _ _

/-- Three payload bits behind a time stamp, and the five bits that fill the byte. -/
theorem extract_rpc_payload_threeBits :
    (∃ bytes, extract_rpc_payload [40, 0, 0, 0, 0, 7, 93, 243, 224] = .ok ⟨93, bytes, 3⟩ ∧
      bytes.length = 1 ∧ (ofBytes bytes).take 3 = [true, true, true]) ∧
    (∀ k, 8 * k < (headerBits (.stamped 0 0 0 0 7) 93 3).length + 3 →
      extract_rpc_payload ([40, 0, 0, 0, 0, 7, 93, 243, 224].take k) = .error .refused) ∧
    ∀ other : List UInt8, other.length < 2 ^ 29 → extract_rpc_payload other ≠ .error .outside :=
  extract_rpc_payload_encoded (.stamped 0 0 0 0 7) 93 [true, true, true]
    [false, false, false, false, false]
    [40, 0, 0, 0, 0, 7, 93, 243, 224] (by decide) (by decide +kernel)

end GambitRecord.Plugin
