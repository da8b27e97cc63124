import GambitRecord.Replay.SegmentStore

/-! # Segment files cut short

A disk segment of which only a front part was written. The read loop takes the end
of the file inside a header for the end of the records, and the one inside a
payload for an error.
-/

namespace GambitRecord.Replay
open Library Recorder

/-- What is left of a segment whose file ends after `k` bytes. -/
def Segment.cut (segment : Segment) (k : ℕ) : Segment :=
  { segment with
    body := match segment.body with
      | .memory samples => .memory samples
      | .disk file bytes => .disk file (bytes.take k) }

/-- The read of a file with `k` bytes throws, or the file ends behind a record and the samples up to
there are read. -/
def Honest (samples : List EncodedSample) (k : ℕ) (read : Option (List EncodedSample)) : Prop :=
  read = none ∨ ∃ complete rest, samples = complete ++ rest ∧
    (complete.flatMap record).length = k ∧ read = some complete

/-- The file ends inside a header, behind records that are not too large to be read. -/
def CutInHeader (samples : List EncodedSample) (k : ℕ) : Prop :=
  ∃ before s after, samples = before ++ s :: after ∧
    (∀ b ∈ before, b.bytes.length ≤ maxRecord) ∧
    (before.flatMap record).length < k ∧ k < (before.flatMap record).length + headerSize

/-- A sample that `append` stores: it is not empty, and a buffer has a size of 32 bits. -/
def Written (sample : EncodedSample) : Prop := Sized sample ∧ sample.bytes ≠ []

instance : DecidablePred Sized := fun sample =>
  decidable_of_iff ((-2 ^ 63 ≤ sample.pts ∧ sample.pts < 2 ^ 63) ∧
      (-2 ^ 63 ≤ sample.duration ∧ sample.duration < 2 ^ 63) ∧ sample.bytes.length < 2 ^ 32)
    ⟨fun h => ⟨h.1, h.2.1, h.2.2⟩, fun h => ⟨h.pts, h.duration, h.size⟩⟩

instance : DecidablePred Written := fun _ => instDecidableAnd

section Cut
variable {samples : List EncodedSample} {s : EncodedSample} {k n : ℕ}

theorem length_header (sample : EncodedSample) : (header sample).length = headerSize := by
  have hlength := length_record sample
  rw [record_eq, List.length_append] at hlength
  omega

theorem length_flatMap_cons (s : EncodedSample) (samples : List EncodedSample) :
    ((s :: samples).flatMap record).length =
      headerSize + s.bytes.length + (samples.flatMap record).length := by
  rw [List.flatMap_cons, List.length_append, length_record]

theorem honest_cons (hk : headerSize + s.bytes.length ≤ k) {read : Option (List EncodedSample)} :
    Honest (s :: samples) k (read.map (s :: ·)) ↔
      Honest samples (k - (headerSize + s.bytes.length)) read := by
  constructor
  · rintro (hnone | ⟨complete, rest, hsplit, hlength, hread⟩)
    · exact .inl (Option.map_eq_none_iff.mp hnone)
    · obtain ⟨more, hmore, rfl⟩ := Option.map_eq_some_iff.mp hread
      rw [length_flatMap_cons] at hlength
      exact .inr ⟨more, rest, (List.cons.inj hsplit).2, by omega, hmore⟩
  · rintro (hnone | ⟨complete, rest, rfl, hlength, hread⟩)
    · exact .inl (Option.map_eq_none_iff.mpr hnone)
    · refine .inr ⟨s :: complete, rest, rfl, ?_, by rw [hread]; rfl⟩
      rw [length_flatMap_cons]
      omega

theorem cutInHeader_cons (hk : headerSize + s.bytes.length ≤ k)
    (hsize : s.bytes.length ≤ maxRecord) :
    CutInHeader (s :: samples) k ↔ CutInHeader samples (k - (headerSize + s.bytes.length)) := by
  constructor
  · rintro ⟨before, t, after, hsplit, hbefore, hlow, hhigh⟩
    cases before with
    | nil =>
      simp only [List.flatMap_nil, List.length_nil] at hhigh
      omega
    | cons b before =>
      obtain ⟨rfl, hrest⟩ := List.cons.inj hsplit
      rw [length_flatMap_cons] at hlow hhigh
      exact ⟨before, t, after, hrest, (List.forall_mem_cons.mp hbefore).2, by omega, by omega⟩
  · rintro ⟨before, t, after, rfl, hbefore, hlow, hhigh⟩
    refine ⟨s :: before, t, after, rfl, List.forall_mem_cons.mpr ⟨hsize, hbefore⟩, ?_, ?_⟩
    · rw [length_flatMap_cons]
      omega
    · rw [length_flatMap_cons]
      omega

/-- A cut in front of the end of the first record is in its header, or in its payload. -/
theorem cutInHeader_first (hk : k < headerSize + s.bytes.length ∨ maxRecord < s.bytes.length) :
    CutInHeader (s :: samples) k ↔ 0 < k ∧ k < headerSize := by
  constructor
  · rintro ⟨before, t, after, hsplit, hbefore, hlow, hhigh⟩
    cases before with
    | nil =>
      simp only [List.flatMap_nil, List.length_nil] at hlow hhigh
      omega
    | cons b before =>
      obtain ⟨rfl, hsplit⟩ := List.cons.inj hsplit
      have hsize := (List.forall_mem_cons.mp hbefore).1
      rw [length_flatMap_cons] at hlow
      omega
  · rintro ⟨hpos, hlt⟩
    exact ⟨[], s, samples, rfl, by simp, by simpa using hpos, by simpa using hlt⟩

theorem readRecords_short {bytes : List UInt8} (h : bytes.length < headerSize) :
    readRecords n bytes = some [] := by
  cases n with
  | zero => rfl
  | succ n => rw [readRecords, if_pos h]

theorem honest_nil : Honest samples k (some []) ↔ k = 0 := by
  constructor
  · rintro (hnone | ⟨complete, rest, -, hlength, hread⟩)
    · cases hnone
    · cases hread
      exact hlength.symm
  · rintro rfl
    exact .inr ⟨[], samples, rfl, rfl, rfl⟩

theorem take_flatMap_cons (h : headerSize ≤ k) :
    ((s :: samples).flatMap record).take k =
      header s ++ (s.bytes ++ samples.flatMap record).take (k - headerSize) := by
  rw [List.flatMap_cons, record_eq, List.append_assoc, List.take_append, length_header,
    List.take_of_length_le (by rw [length_header]; exact h)]

/-- One record is read off a cut file, unless it is too large or its payload is cut. -/
theorem readRecord_take (hsized : Sized s) (hk : headerSize ≤ k)
    (hlt : k < ((s :: samples).flatMap record).length) :
    readRecord (((s :: samples).flatMap record).take k) =
      if maxRecord < s.bytes.length ∨ k - headerSize < s.bytes.length then none
      else some (s, (samples.flatMap record).take (k - (headerSize + s.bytes.length))) := by
  rw [length_flatMap_cons] at hlt
  have hrest : ((s.bytes ++ samples.flatMap record).take (k - headerSize)).length =
      k - headerSize := by
    rw [List.length_take, List.length_append]
    omega
  rw [take_flatMap_cons hk, readRecord_header hsized, hrest]
  by_cases hbad : maxRecord < s.bytes.length ∨ k - headerSize < s.bytes.length
  · rw [if_pos hbad, if_pos hbad]
  · have htake : ((s.bytes ++ samples.flatMap record).take (k - headerSize)).take
        s.bytes.length = s.bytes := by
      rw [List.take_take, Nat.min_eq_left (by omega), List.take_left]
    have hdrop : ((s.bytes ++ samples.flatMap record).take (k - headerSize)).drop
        s.bytes.length = (samples.flatMap record).take (k - (headerSize + s.bytes.length)) := by
      rw [List.drop_take, List.drop_left, Nat.sub_sub]
    rw [if_neg hbad, if_neg hbad, htake, hdrop]

/-- The read of a cut file is honest exactly when the cut is not in a header that is reached. -/
theorem honest_readRecords (hsamples : ∀ s ∈ samples, Written s)
    (hk : k < (samples.flatMap record).length) (hn : k ≤ n) :
    Honest samples k (readRecords n ((samples.flatMap record).take k)) ↔
      ¬ CutInHeader samples k := by
  induction samples generalizing k n with
  | nil => exact absurd hk (Nat.not_lt_zero k)
  | cons s samples ih =>
    rw [List.forall_mem_cons] at hsamples
    obtain ⟨⟨hsized, -⟩, hrest⟩ := hsamples
    have hlength : (((s :: samples).flatMap record).take k).length = k := by
      rw [List.length_take]
      omega
    have hpos : 0 < headerSize := by
      decide
    by_cases hshort : k < headerSize
    · rw [readRecords_short (hlength.trans_lt hshort), cutInHeader_first (by omega), honest_nil]
      omega
    · cases n with
      | zero => omega
      | succ n =>
        rw [readRecords, if_neg (by rw [hlength]; exact hshort),
          readRecord_take hsized (by omega) hk]
        by_cases hbad : maxRecord < s.bytes.length ∨ k - headerSize < s.bytes.length
        · rw [if_pos hbad, cutInHeader_first (by omega)]
          exact iff_of_true (.inl rfl) (by omega)
        · have hfits : headerSize + s.bytes.length ≤ k := by omega
          rw [length_flatMap_cons] at hk
          rw [if_neg hbad, Option.bind_some, honest_cons hfits, cutInHeader_cons hfits (by omega)]
          exact ih hrest (by omega) (by omega)

end Cut

/-- Of a disk segment's file, cut short anywhere, the read is honest exactly when the cut is not inside
a header that is reached. -/
theorem read_cut_iff {segment : Segment} {samples : List EncodedSample} (hdisk : segment.body.onDisk)
    (hholds : segment.Holds samples) (hsamples : ∀ s ∈ samples, Written s) {k : ℕ}
    (hk : k < (samples.flatMap record).length) :
    Honest samples k (segment.cut k).read ↔ ¬ CutInHeader samples k := by
  cases hbody : segment.body with
  | memory stored =>
    rw [hbody] at hdisk
    cases hdisk
  | disk file bytes =>
    unfold Segment.Holds at hholds
    rw [hbody] at hholds
    have hbytes : bytes = samples.flatMap record := hholds
    have hread : (segment.cut k).read =
        readRecords ((samples.flatMap record).take k).length ((samples.flatMap record).take k) := by
      simp only [Segment.read, Segment.cut, hbody, hbytes]
    rw [hread]
    apply honest_readRecords hsamples hk
    rw [List.length_take]
    omega

def twoRecords : List EncodedSample := [⟨.video, 0, 1, true, [1, 2, 3]⟩, ⟨.video, 1, 1, false, [4]⟩]

def twoRecordsSegment : Segment := ⟨0, 2, .disk 0 (twoRecords.flatMap record)⟩

theorem holds_twoRecords : twoRecordsSegment.Holds twoRecords := rfl

theorem read_cut_twoRecords :
    Honest twoRecords 31 (twoRecordsSegment.cut 31).read ↔ ¬ CutInHeader twoRecords 31 :=
  read_cut_iff rfl holds_twoRecords (by decide) (by decide)

/-- A cut five bytes into the second header looks like the end of a file with one record. -/
theorem not_alwaysReadsCut :
    ¬ ∀ (segment : Segment) (samples : List EncodedSample), segment.body.onDisk →
      segment.Holds samples → (∀ s ∈ samples, Written s) →
      ∀ k < (samples.flatMap record).length, Honest samples k (segment.cut k).read := by
  intro hall
  rcases hall twoRecordsSegment twoRecords rfl holds_twoRecords (by decide) 36 (by decide) with
    hnone | ⟨complete, rest, -, hlength, hread⟩
  · revert hnone
    decide +kernel
  · have hone : (twoRecordsSegment.cut 36).read = some [⟨.video, 0, 1, true, [1, 2, 3]⟩] := by
      decide +kernel
    rw [hone] at hread
    cases hread
    revert hlength
    decide

end GambitRecord.Replay
