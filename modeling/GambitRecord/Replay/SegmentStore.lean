import GambitRecord.Library.LittleEndian
import GambitRecord.Recorder.Media

/-! # The replay store

`SegmentStore` with memory and disk segments. The bytes of a disk segment are
kept with the segment; no file operation fails here.
-/

namespace GambitRecord.Replay
open Library Recorder

/-- `ESV1`. -/
def Magic : ℕ := 0x31565345

/-- The size of a packed `DiskHeader`. -/
def headerSize : ℕ := 28

def maxRecord : ℕ := 128 * 1024 * 1024

def trackByte : TrackKind → UInt8
  | .video => 1
  | .audio => 2

/-- Only the value 1 ever compares equal to `Video`. -/
def trackOfByte (byte : UInt8) : TrackKind := if byte = 1 then .video else .audio

/-- What `append` writes: the header and the payload. -/
def record (sample : EncodedSample) : List UInt8 :=
  LittleEndian.encode 4 Magic ++
    (trackByte sample.track :: (if sample.keyframe then 1 else 0) ::
      (LittleEndian.encode 2 0 ++
        (LittleEndian.encode 8 (LittleEndian.ofInt64 sample.pts) ++
          (LittleEndian.encode 8 (LittleEndian.ofInt64 sample.duration) ++
            (LittleEndian.encode 4 sample.bytes.length ++ sample.bytes)))))

/-- One round of the read loop, on a file that still holds a header. -/
def readRecord (bytes : List UInt8) : Option (EncodedSample × List UInt8) :=
  let magic := LittleEndian.decode (bytes.take 4)
  let size := LittleEndian.decode ((bytes.drop 24).take 4)
  if magic ≠ Magic ∨ size > maxRecord then none
  else if (bytes.drop headerSize).length < size then none
  else
    some
      ({ track := trackOfByte ((bytes.drop 4).headD 0)
         pts := LittleEndian.toInt64 (LittleEndian.decode ((bytes.drop 8).take 8))
         duration := LittleEndian.toInt64 (LittleEndian.decode ((bytes.drop 16).take 8))
         keyframe := (bytes.drop 5).headD 0 &&& 1 ≠ 0
         bytes := (bytes.drop headerSize).take size },
        (bytes.drop headerSize).drop size)

/-- The read loop ends without an error where less than a header is left. -/
def readRecords : ℕ → List UInt8 → Option (List EncodedSample)
  | 0, _ => some []
  | n + 1, bytes =>
    if bytes.length < headerSize then some []
    else
      (readRecord bytes).bind fun read =>
        (readRecords n read.2).map fun samples => read.1 :: samples

/-- The samples of a segment, in memory or as the bytes of its numbered file. -/
inductive Body where
  | memory (samples : List EncodedSample)
  | disk (file : ℕ) (bytes : List UInt8)
  deriving DecidableEq

structure Segment where
  first_pts : ℤ
  last_pts : ℤ
  body : Body
  deriving DecidableEq

/-- `none` is a thrown exception. -/
def Segment.read (segment : Segment) : Option (List EncodedSample) :=
  match segment.body with
  | .memory samples => some samples
  | .disk _ bytes => readRecords bytes.length bytes

def Segment.write (segment : Segment) (sample : EncodedSample) : Segment :=
  { segment with
    last_pts := max segment.last_pts sample.end
    body := match segment.body with
      | .memory samples => .memory (samples ++ [sample])
      | .disk file bytes => .disk file (bytes ++ record sample) }

structure SegmentStore where
  retention_hns : ℤ
  segment_hns : ℤ
  disk : Bool
  sealed : List Segment := []
  active : Option Segment := none
  sequence : ℕ := 0
  deriving DecidableEq

structure Snapshot where
  segments : List Segment
  available_hns : ℤ
  deriving DecidableEq

namespace SegmentStore

def start_segment (store : SegmentStore) (sample : EncodedSample) : SegmentStore :=
  { store with
    active := some
      ⟨sample.pts, sample.pts, if store.disk then .disk store.sequence [] else .memory []⟩
    sequence := if store.disk then store.sequence + 1 else store.sequence }

def «seal» (store : SegmentStore) : SegmentStore :=
  { store with sealed := store.sealed ++ store.active.toList, active := none }

def evict (store : SegmentStore) (newest_pts : ℤ) : SegmentStore :=
  { store with
    sealed := store.sealed.dropWhile fun segment =>
      segment.last_pts < newest_pts - store.retention_hns }

/-- The segment that a sample goes to: a video keyframe past the segment length starts a new one,
also right behind a segment just started when that length is not positive. -/
def roll (store : SegmentStore) (sample : EncodedSample) : SegmentStore :=
  let started := if store.active.isSome then store else store.start_segment sample
  match started.active with
  | none => started
  | some active =>
    if sample.isVideoKeyframe ∧ sample.pts - active.first_pts ≥ store.segment_hns then
      started.seal.start_segment sample
    else started

def append (store : SegmentStore) (sample : EncodedSample) : SegmentStore :=
  if sample.bytes.isEmpty then store
  else
    match (store.roll sample).active with
    | none => store
    | some active =>
      { store.roll sample with active := some (active.write sample) }.evict
        (active.write sample).last_pts

def segments (store : SegmentStore) : List Segment := store.sealed ++ store.active.toList

def snapshot (store : SegmentStore) : Snapshot × SegmentStore :=
  (⟨store.segments,
    match store.segments.head?, store.segments.getLast? with
    | some front, some back => max 0 (back.last_pts - front.first_pts)
    | _, _ => 0⟩,
    store.seal)

def clear (store : SegmentStore) : SegmentStore := { store.seal with sealed := [] }

def available_hns (store : SegmentStore) : ℤ :=
  let first := match store.sealed.head?, store.active with
    | some front, _ => front.first_pts
    | none, some active => active.first_pts
    | none, none => 0
  let last := match store.active, store.sealed.getLast? with
    | some active, _ => active.last_pts
    | none, some back => back.last_pts
    | none, none => 0
  max 0 (last - first)

def segment_count (store : SegmentStore) : ℕ :=
  store.sealed.length + if store.active.isSome then 1 else 0

end SegmentStore

/-- What the fixed widths of a disk record can hold. -/
structure Storable (sample : EncodedSample) : Prop where
  pts : -2 ^ 63 ≤ sample.pts ∧ sample.pts < 2 ^ 63
  duration : -2 ^ 63 ≤ sample.duration ∧ sample.duration < 2 ^ 63
  size : sample.bytes.length ≤ maxRecord

instance : DecidablePred Storable := fun sample =>
  decidable_of_iff ((-2 ^ 63 ≤ sample.pts ∧ sample.pts < 2 ^ 63) ∧
      (-2 ^ 63 ≤ sample.duration ∧ sample.duration < 2 ^ 63) ∧ sample.bytes.length ≤ maxRecord)
    ⟨fun h => ⟨h.1, h.2.1, h.2.2⟩, fun h => ⟨h.pts, h.duration, h.size⟩⟩

@[simp] theorem trackOfByte_trackByte (track : TrackKind) : trackOfByte (trackByte track) = track := by
  cases track <;> rfl

theorem length_record (sample : EncodedSample) :
    (record sample).length = headerSize + sample.bytes.length := by
  simp only [record, List.length_append, List.length_cons, LittleEndian.length_encode, headerSize]
  omega

theorem header_fields {magic reserved pts duration size : List UInt8} {track flags : UInt8}
    {rest bytes : List UInt8} (hm : magic.length = 4) (hr : reserved.length = 2)
    (hp : pts.length = 8) (hd : duration.length = 8) (hs : size.length = 4)
    (hb : bytes = magic ++ (track :: flags :: (reserved ++ (pts ++ (duration ++ (size ++ rest)))))) :
    bytes.take 4 = magic ∧ (bytes.drop 4).headD 0 = track ∧ (bytes.drop 5).headD 0 = flags ∧
      (bytes.drop 8).take 8 = pts ∧ (bytes.drop 16).take 8 = duration ∧
      (bytes.drop 24).take 4 = size ∧ bytes.drop headerSize = rest := by
  have h4 : bytes.drop 4 = track :: flags :: (reserved ++ (pts ++ (duration ++ (size ++ rest)))) := by
    rw [hb, List.drop_left' hm]
  have h5 : bytes.drop 5 = flags :: (reserved ++ (pts ++ (duration ++ (size ++ rest)))) := by
    rw [show 5 = 4 + 1 from rfl, ← List.drop_drop, h4]
    rfl
  have h8 : bytes.drop 8 = pts ++ (duration ++ (size ++ rest)) := by
    rw [show 8 = 5 + 1 + 2 from rfl, ← List.drop_drop, ← List.drop_drop, h5, List.drop_one,
      List.tail_cons, List.drop_left' hr]
  have h16 : bytes.drop 16 = duration ++ (size ++ rest) := by
    rw [show 16 = 8 + 8 from rfl, ← List.drop_drop, h8, List.drop_left' hp]
  have h24 : bytes.drop 24 = size ++ rest := by
    rw [show 24 = 16 + 8 from rfl, ← List.drop_drop, h16, List.drop_left' hd]
  have h28 : bytes.drop headerSize = rest := by
    rw [show headerSize = 24 + 4 from rfl, ← List.drop_drop, h24, List.drop_left' hs]
  refine ⟨?_, by rw [h4]; rfl, by rw [h5]; rfl, ?_, ?_, ?_, h28⟩
  · rw [hb, List.take_left' hm]
  · rw [h8, List.take_left' hp]
  · rw [h16, List.take_left' hd]
  · rw [h24, List.take_left' hs]

def header (sample : EncodedSample) : List UInt8 :=
  LittleEndian.encode 4 Magic ++
    (trackByte sample.track :: (if sample.keyframe then 1 else 0) ::
      (LittleEndian.encode 2 0 ++
        (LittleEndian.encode 8 (LittleEndian.ofInt64 sample.pts) ++
          (LittleEndian.encode 8 (LittleEndian.ofInt64 sample.duration) ++
            LittleEndian.encode 4 sample.bytes.length))))

theorem record_eq (sample : EncodedSample) : record sample = header sample ++ sample.bytes := by
  simp only [record, header, List.append_assoc, List.cons_append]

structure Sized (sample : EncodedSample) : Prop where
  pts : -2 ^ 63 ≤ sample.pts ∧ sample.pts < 2 ^ 63
  duration : -2 ^ 63 ≤ sample.duration ∧ sample.duration < 2 ^ 63
  size : sample.bytes.length < 2 ^ 32

theorem Storable.sized {sample : EncodedSample} (h : Storable sample) : Sized sample where
  pts := h.pts
  duration := h.duration
  size := h.size.trans_lt (by decide)

/-- A header is followed by its sample, unless that is too large or not all there. -/
theorem readRecord_header {sample : EncodedSample} (h : Sized sample) (rest : List UInt8) :
    readRecord (header sample ++ rest) =
      if maxRecord < sample.bytes.length ∨ rest.length < sample.bytes.length then none
      else some ({ sample with bytes := rest.take sample.bytes.length },
        rest.drop sample.bytes.length) := by
  have hmagic : LittleEndian.decode (LittleEndian.encode 4 Magic) = Magic :=
    LittleEndian.decode_encode (by decide)
  have hsize : LittleEndian.decode (LittleEndian.encode 4 sample.bytes.length) =
      sample.bytes.length := LittleEndian.decode_encode h.size
  have hint (v : ℤ) : LittleEndian.decode (LittleEndian.encode 8 (LittleEndian.ofInt64 v)) =
      LittleEndian.ofInt64 v := LittleEndian.decode_encode (LittleEndian.ofInt64_lt v)
  have hflag : ((if sample.keyframe = true then 1 else 0 : UInt8) &&& 1 ≠ 0) ↔
      sample.keyframe = true := by
    cases sample.keyframe <;> decide
  have hb : header sample ++ rest = LittleEndian.encode 4 Magic ++
      (trackByte sample.track :: (if sample.keyframe then 1 else 0) ::
        (LittleEndian.encode 2 0 ++
          (LittleEndian.encode 8 (LittleEndian.ofInt64 sample.pts) ++
            (LittleEndian.encode 8 (LittleEndian.ofInt64 sample.duration) ++
              (LittleEndian.encode 4 sample.bytes.length ++ rest))))) := by
    simp only [header, List.append_assoc, List.cons_append]
  rcases header_fields (LittleEndian.length_encode 4 _) (LittleEndian.length_encode 2 _)
      (LittleEndian.length_encode 8 _) (LittleEndian.length_encode 8 _)
      (LittleEndian.length_encode 4 _) hb with
    ⟨hm, ht, hf, hp, hd, hs, hrest⟩
  have hmagicless : (Magic ≠ Magic ∨ sample.bytes.length > maxRecord) ↔
      maxRecord < sample.bytes.length := by
    simp
  simp only [readRecord, hm, hs, hp, hd, ht, hf, hrest, hmagic, hsize, hint, hmagicless,
    trackOfByte_trackByte, LittleEndian.toInt64_ofInt64 h.pts.1 h.pts.2,
    LittleEndian.toInt64_ofInt64 h.duration.1 h.duration.2, hflag]
  by_cases hlarge : maxRecord < sample.bytes.length
  · rw [if_pos hlarge, if_pos (.inl hlarge)]
  · by_cases hshort : rest.length < sample.bytes.length
    · rw [if_neg hlarge, if_pos hshort, if_pos (.inr hshort)]
    · rw [if_neg hlarge, if_neg hshort, if_neg (not_or.mpr ⟨hlarge, hshort⟩)]
      simp

/-- A record reads back as its sample, whatever follows it. -/
theorem readRecord_record {sample : EncodedSample} (h : Storable sample) (rest : List UInt8) :
    readRecord (record sample ++ rest) = some (sample, rest) := by
  have hfits : ¬ (maxRecord < sample.bytes.length ∨
      (sample.bytes ++ rest).length < sample.bytes.length) := by
    have hsize := h.size
    rw [List.length_append]
    omega
  rw [record_eq, List.append_assoc, readRecord_header h.sized, if_neg hfits, List.take_left,
    List.drop_left]

theorem readRecords_flatMap {samples : List EncodedSample} (h : ∀ s ∈ samples, Storable s) {n : ℕ}
    (hn : (samples.flatMap record).length ≤ n) :
    readRecords n (samples.flatMap record) = some samples := by
  induction samples generalizing n with
  | nil => cases n <;> rfl
  | cons s samples ih =>
    rw [List.flatMap_cons] at hn ⊢
    have hlen := length_record s
    have hpos : 0 < headerSize := by decide
    rw [List.length_append] at hn
    cases n with
    | zero => omega
    | succ n =>
      have hge : ¬ (record s ++ samples.flatMap record).length < headerSize := by
        rw [List.length_append]
        omega
      have hrest : readRecords n (samples.flatMap record) = some samples :=
        ih (fun x hx => h x (List.mem_cons_of_mem s hx)) (by omega)
      rw [readRecords, if_neg hge, readRecord_record (h s (List.mem_cons_self ..)), Option.bind_some,
        hrest, Option.map_some]

def Segment.Holds (segment : Segment) (samples : List EncodedSample) : Prop :=
  match segment.body with
  | .memory stored => stored = samples
  | .disk _ bytes => bytes = samples.flatMap record

def Body.onDisk : Body → Bool
  | .memory _ => false
  | .disk _ _ => true

/-- A segment with its samples: its times are the first start and the largest end. -/
structure SegmentOk (disk : Bool) (segment : Segment) (samples : List EncodedSample) : Prop where
  mode : segment.body.onDisk = disk
  holds : segment.Holds samples
  first : ∀ sample ∈ samples.head?, segment.first_pts = sample.pts
  last : ∀ sample ∈ samples, sample.end ≤ segment.last_pts
  reached : segment.last_pts = segment.first_pts ∨ ∃ sample ∈ samples, sample.end = segment.last_pts

theorem Segment.Holds.read {segment : Segment} {samples : List EncodedSample}
    (h : segment.Holds samples) (hs : segment.body.onDisk = true → ∀ s ∈ samples, Storable s) :
    segment.read = some samples := by
  unfold Segment.Holds at h
  unfold Segment.read
  cases hb : segment.body with
  | memory stored =>
    rw [hb] at h
    exact congrArg some h
  | disk file bytes =>
    rw [hb] at h
    change bytes = _ at h
    change readRecords bytes.length bytes = _
    rw [h]
    exact readRecords_flatMap (hs (by rw [hb]; rfl)) le_rfl

theorem Segment.Holds.write {segment : Segment} {samples : List EncodedSample}
    (h : segment.Holds samples) (sample : EncodedSample) :
    (segment.write sample).Holds (samples ++ [sample]) := by
  unfold Segment.Holds at h ⊢
  cases hb : segment.body with
  | memory stored =>
    rw [hb] at h
    simp only [Segment.write, hb]
    rw [show stored = samples from h]
  | disk file bytes =>
    rw [hb] at h
    simp only [Segment.write, hb]
    rw [show bytes = samples.flatMap record from h, List.flatMap_append, List.flatMap_singleton]

@[simp] theorem Segment.onDisk_write (segment : Segment) (sample : EncodedSample) :
    (segment.write sample).body.onDisk = segment.body.onDisk := by
  cases hb : segment.body <;> simp [Segment.write, hb, Body.onDisk]

theorem SegmentOk.write {disk : Bool} {segment : Segment} {samples : List EncodedSample}
    (h : SegmentOk disk segment samples) (hne : samples ≠ []) (sample : EncodedSample) :
    SegmentOk disk (segment.write sample) (samples ++ [sample]) := by
  refine ⟨(segment.onDisk_write sample).trans h.mode, h.holds.write sample, fun f hf => ?_,
    fun s hs => ?_, ?_⟩
  · cases samples with
    | nil => exact absurd rfl hne
    | cons a samples => exact h.first f hf
  · rcases List.mem_append.mp hs with hs | hs
    · exact (h.last s hs).trans (le_max_left _ _)
    · rw [List.mem_singleton.mp hs]
      exact le_max_right _ _
  · change max segment.last_pts sample.end = segment.first_pts ∨ _
    rcases max_choice segment.last_pts sample.end with hmax | hmax
    · rcases h.reached with hfirst | ⟨s, hs, hend⟩
      · exact .inl (hmax.trans hfirst)
      · exact .inr ⟨s, List.mem_append_left _ hs, hend.trans hmax.symm⟩
    · exact .inr ⟨sample, by simp, hmax.symm⟩

theorem SegmentOk.empty {body : Body} {pts : ℤ} (h : (⟨pts, pts, body⟩ : Segment).Holds []) :
    SegmentOk body.onDisk ⟨pts, pts, body⟩ [] where
  mode := rfl
  holds := h
  first := by simp
  last := by simp
  reached := .inl rfl

theorem SegmentOk.start {body : Body} {sample : EncodedSample}
    (h : (⟨sample.pts, sample.pts, body⟩ : Segment).Holds []) :
    SegmentOk body.onDisk ((⟨sample.pts, sample.pts, body⟩ : Segment).write sample) [sample] := by
  refine ⟨Segment.onDisk_write _ sample, h.write sample, fun f hf => ?_, fun s hs => ?_, ?_⟩
  · cases hf
    rfl
  · rw [List.mem_singleton.mp hs]
    exact le_max_right _ _
  · change max sample.pts sample.end = sample.pts ∨ _
    rcases max_choice sample.pts sample.end with hmax | hmax
    · exact .inl hmax
    · exact .inr ⟨sample, List.mem_singleton_self _, hmax.symm⟩

theorem SegmentOk.exists_last {disk : Bool} {segment : Segment} {samples : List EncodedSample}
    (h : SegmentOk disk segment samples) (hne : samples ≠ [])
    (hd : ∀ s ∈ samples, 0 ≤ s.duration) : ∃ s ∈ samples, segment.last_pts ≤ s.end := by
  rcases h.reached with hfirst | ⟨s, hs, hend⟩
  · have hf := List.head?_eq_some_head hne
    have hpts := h.first _ hf
    have hmem := List.mem_of_mem_head? hf
    refine ⟨samples.head hne, hmem, ?_⟩
    have := hd _ hmem
    rw [hfirst, hpts, EncodedSample.end]
    omega
  · exact ⟨s, hs, hend.ge⟩

namespace SegmentStore

@[simp] theorem segments_seal (store : SegmentStore) : store.seal.segments = store.segments := by
  simp [«seal», segments]

theorem append_empty {store : SegmentStore} {sample : EncodedSample} (h : sample.bytes = []) :
    store.append sample = store := by
  simp [append, h]

theorem start_segment_spec (store : SegmentStore) (sample : EncodedSample) :
    ∃ fresh, (store.start_segment sample).active = some fresh ∧ fresh.first_pts = sample.pts ∧
      SegmentOk store.disk fresh [] ∧ SegmentOk store.disk (fresh.write sample) [sample] := by
  have hmode : (if store.disk then Body.disk store.sequence [] else Body.memory []).onDisk =
      store.disk := by
    cases store.disk <;> rfl
  have hholds : (⟨sample.pts, sample.pts,
      if store.disk then Body.disk store.sequence [] else Body.memory []⟩ : Segment).Holds [] := by
    cases store.disk <;> rfl
  have hempty := SegmentOk.empty hholds
  have hstart := SegmentOk.start hholds
  rw [hmode] at hempty hstart
  exact ⟨_, rfl, rfl, hempty, hstart⟩

/-- Where a sample goes: to the active segment, or to a new one behind all others. An empty segment
is left in front of the new one when none was active and the segment length is not positive. -/
inductive Placed (store : SegmentStore) (sample : EncodedSample) : List Segment → Segment → Prop
  | joined {old : Segment} (hold : store.active = some old)
      (hshort : sample.isVideoKeyframe = true → sample.pts - old.first_pts < store.segment_hns) :
      Placed store sample store.sealed (old.write sample)
  | opened {empties : List Segment} {active : Segment}
      (hempties : ∀ e ∈ empties, SegmentOk store.disk e [] ∧ store.segment_hns ≤ 0)
      (hok : SegmentOk store.disk active [sample])
      (hnew : store.active = none ∨ sample.isVideoKeyframe = true) :
      Placed store sample (store.segments ++ empties) active

/-- Everything an append can do: the sample is placed, then the oldest segments that end too early
are dropped. -/
theorem append_cases (store : SegmentStore) {sample : EncodedSample} (h : sample.bytes ≠ []) :
    ∃ sealed active, store.Placed sample sealed active ∧ (store.append sample).sealed =
        sealed.dropWhile (fun s => decide (s.last_pts < active.last_pts - store.retention_hns)) ∧
      (store.append sample).active = some active ∧
      (store.append sample).retention_hns = store.retention_hns ∧
      (store.append sample).segment_hns = store.segment_hns ∧
      (store.append sample).disk = store.disk := by
  have hne : ¬ sample.bytes.isEmpty := by simpa using h
  unfold append roll
  rw [if_neg hne]
  cases ha : store.active with
  | none =>
    rcases store.start_segment_spec sample with ⟨fresh, hfresh, hfirst, hempty, hok⟩
    simp only [Option.isSome_none, Bool.false_eq_true, if_false, hfresh]
    split_ifs with hroll
    · rcases (store.start_segment sample).seal.start_segment_spec sample with
        ⟨active, hactive, -, -, hok'⟩
      simp only [hactive]
      have hplaced : store.Placed sample (store.segments ++ [fresh]) (active.write sample) := by
        refine .opened (fun e he => ?_) hok' (.inl ha)
        rw [List.mem_singleton.mp he]
        exact ⟨hempty, by have := hroll.2; omega⟩
      have hsealed : (store.start_segment sample).seal.sealed = store.segments ++ [fresh] := by
        simp only [«seal», hfresh, segments, ha, Option.toList, List.append_nil]
        rfl
      refine ⟨_, _, hplaced, ?_, rfl, rfl, rfl, rfl⟩
      rw [← hsealed]
      rfl
    · simp only [hfresh]
      have hplaced : store.Placed sample (store.segments ++ []) (fresh.write sample) :=
        .opened (by simp) hok (.inl ha)
      have hsealed : (store.start_segment sample).sealed = store.segments ++ [] := by
        simp only [segments, ha, Option.toList, List.append_nil]
        rfl
      refine ⟨_, _, hplaced, ?_, rfl, rfl, rfl, rfl⟩
      rw [← hsealed]
      rfl
  | some old =>
    simp only [Option.isSome_some, if_true, ha]
    split_ifs with hroll
    · rcases store.seal.start_segment_spec sample with ⟨active, hactive, -, -, hok⟩
      simp only [hactive]
      have hplaced : store.Placed sample (store.segments ++ []) (active.write sample) :=
        .opened (by simp) hok (.inr hroll.1)
      refine ⟨_, _, hplaced, ?_, rfl, rfl, rfl, rfl⟩
      rw [List.append_nil]
      rfl
    · simp only [ha]
      refine ⟨_, _, .joined ha fun hkey => ?_, rfl, rfl, rfl, rfl, rfl⟩
      by_contra hlong
      exact hroll ⟨hkey, by omega⟩

end SegmentStore
end GambitRecord.Replay
