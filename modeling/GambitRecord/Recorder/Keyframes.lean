import GambitRecord.Library.Algorithms
import GambitRecord.Library.NalUnits
import GambitRecord.Recorder.Media

/-! # Which samples are keyframes

`contains_idr` of the encoder looks through an access unit twice: for start codes
at every byte, and along length fields from the first byte on. It does not know
which framing it has, so each scan also reads the bytes of the other one.
-/

namespace GambitRecord.Recorder
open Library Library.NalUnits

def idr : UInt8 := 5

/-- One round of the first loop, which needs five bytes. -/
def idrStartCode : List UInt8 → Bool
  | a :: b :: c :: d :: e :: _ =>
    a = 0 ∧ b = 0 ∧ ((c = 1 ∧ d &&& 0x1f = idr) ∨ (c = 0 ∧ d = 1 ∧ e &&& 0x1f = idr))
  | _ => false

/-- The second loop; each round takes at least five bytes. -/
def scanLengths : ℕ → List UInt8 → Bool
  | n + 1, a :: b :: c :: d :: header :: rest =>
    let length := LittleEndian.decode [d, c, b, a]
    if length = 0 ∨ rest.length + 1 < length then false
    else if header &&& 0x1f = idr then true
    else scanLengths n ((header :: rest).drop length)
  | _, _ => false

def contains_idr (bytes : List UInt8) : Bool :=
  bytes.tails.any idrStartCode || scanLengths bytes.length bytes

/-- The sample that `drain_output` makes of the encoder's output. -/
def drained (clean : Bool) (pts duration : ℤ) (bytes : List UInt8) : EncodedSample :=
  ⟨.video, pts, duration, clean || contains_idr bytes, bytes⟩

/-- An encoded access unit: one or more units that are not empty, in either framing. -/
inductive AccessUnit where
  | annexB (units : List (StartCode × Nal)) (ne_nil : units ≠ [])
    (escaped : ∀ u ∈ units, u.2 ≠ [] ∧ Escaped u.2)
  | lengthPrefixed (units : List Nal) (ne_nil : units ≠ [])
    (short : ∀ u ∈ units, u ≠ [] ∧ u.length < 2 ^ 32)

namespace AccessUnit

def units : AccessUnit → List Nal
  | annexB units _ _ => units.map Prod.snd
  | lengthPrefixed units _ _ => units

def bytes : AccessUnit → List UInt8
  | annexB units _ _ => NalUnits.annexB units
  | lengthPrefixed units _ _ => NalUnits.lengthPrefixed units

/-- One of the units is an IDR slice. -/
def HasIdr (au : AccessUnit) : Prop := ∃ nal ∈ au.units, unitType nal = idr

/-- The access unit is told apart by its units, and so is a sample made of it that the encoder does
not mark wrongly itself. -/
structure Recognised (au : AccessUnit) : Prop where
  scanned : contains_idr au.bytes = true ↔ au.HasIdr
  marked : ∀ clean pts duration, (clean = true → au.HasIdr) →
    ((drained clean pts duration au.bytes).keyframe = true ↔ au.HasIdr)

end AccessUnit

/-- Somewhere in the bytes stands a start code with the header of an IDR slice behind it; a short
one only with a byte more. -/
def ShowsStartCode (bytes : List UInt8) : Prop :=
  ∃ before header rest, header &&& 0x1f = idr ∧
    (bytes = before ++ (0 :: 0 :: 1 :: header :: rest) ∧ rest ≠ [] ∨
      bytes = before ++ (0 :: 0 :: 0 :: 1 :: header :: rest))

/-- The bytes begin with length-prefixed units up to an IDR slice. -/
def ShowsLengths (bytes : List UInt8) : Prop :=
  ∃ units nal rest, (∀ u ∈ units ++ [nal], u ≠ [] ∧ u.length < 2 ^ 32) ∧ unitType nal = idr ∧
    bytes = lengthPrefixed (units ++ [nal]) ++ rest

/-- The only IDR slice is a single byte at the end, behind a short start code. -/
def Clipped (units : List (StartCode × Nal)) : Prop :=
  ∃ init nal, units = init ++ [(.short, nal)] ∧ nal.length = 1 ∧ unitType nal = idr ∧
    ∀ u ∈ init, unitType u.2 ≠ idr

/-- The bytes are misread: without an IDR slice the bytes show one in the other framing, or in
Annex B the only one is clipped and none shows up instead. -/
def AccessUnit.Misread : AccessUnit → Prop
  | annexB units _ _ =>
    (∀ u ∈ units, unitType u.2 ≠ idr) ∧ ShowsLengths (NalUnits.annexB units) ∨
      Clipped units ∧ ¬ ShowsLengths (NalUnits.annexB units)
  | lengthPrefixed units _ _ =>
    (∀ u ∈ units, unitType u ≠ idr) ∧ ShowsStartCode (NalUnits.lengthPrefixed units)

theorem idrStartCode_eq_true {bytes : List UInt8} :
    idrStartCode bytes = true ↔ ∃ header rest, header &&& 0x1f = idr ∧
      (bytes = 0 :: 0 :: 1 :: header :: rest ∧ rest ≠ [] ∨
        bytes = 0 :: 0 :: 0 :: 1 :: header :: rest) := by
  unfold idrStartCode
  split
  · rename_i a b c d e rest
    rw [decide_eq_true_eq]
    constructor
    · rintro ⟨rfl, rfl, ⟨rfl, hd⟩ | ⟨rfl, rfl, he⟩⟩
      · exact ⟨d, e :: rest, hd, .inl ⟨rfl, by simp⟩⟩
      · exact ⟨e, rest, he, .inr rfl⟩
    · rintro ⟨header, more, hheader, ⟨hbytes, -⟩ | hbytes⟩ <;> cases hbytes
      · exact ⟨rfl, rfl, .inl ⟨rfl, hheader⟩⟩
      · exact ⟨rfl, rfl, .inr ⟨rfl, rfl, hheader⟩⟩
  · rename_i hfew
    simp only [Bool.false_eq_true, false_iff]
    rintro ⟨header, rest, -, ⟨hbytes, hrest⟩ | hbytes⟩
    · cases rest with
      | nil => exact hrest rfl
      | cons e rest => exact hfew _ _ _ _ _ _ hbytes
    · exact hfew _ _ _ _ _ _ hbytes

/-- The first scan finds what stands somewhere in the bytes. -/
theorem any_tails_idrStartCode {bytes : List UInt8} :
    bytes.tails.any idrStartCode = true ↔ ShowsStartCode bytes := by
  simp only [List.any_eq_true, List.mem_tails, idrStartCode_eq_true]
  constructor
  · rintro ⟨suffix, ⟨before, rfl⟩, header, rest, hheader, ⟨rfl, hrest⟩ | rfl⟩
    · exact ⟨before, header, rest, hheader, .inl ⟨rfl, hrest⟩⟩
    · exact ⟨before, header, rest, hheader, .inr rfl⟩
  · rintro ⟨before, header, rest, hheader, ⟨rfl, hrest⟩ | rfl⟩
    · exact ⟨_, List.suffix_append .., header, rest, hheader, .inl ⟨rfl, hrest⟩⟩
    · exact ⟨_, List.suffix_append .., header, rest, hheader, .inr rfl⟩

section Lengths
variable {n : ℕ} {units : List Nal}

theorem scanLengths_unit {nal : Nal} (hne : nal ≠ []) (hlength : nal.length < 2 ^ 32) (n : ℕ)
    (rest : List UInt8) :
    scanLengths (n + 1) (lengthField nal.length ++ (nal ++ rest)) =
      (decide (unitType nal = idr) || scanLengths n rest) := by
  obtain ⟨a, b, c, d, hfield, hdecode⟩ := lengthField_eq hlength
  cases nal with
  | nil => exact absurd rfl hne
  | cons header nal =>
    have hfits : ¬ ((header :: nal).length = 0 ∨
        (nal ++ rest).length + 1 < (header :: nal).length) := by
      simp only [List.length_cons, List.length_append]
      omega
    have hdrop : (header :: nal ++ rest).drop (header :: nal).length = rest := List.drop_left
    rw [List.cons_append] at hdrop
    rw [hfield]
    simp only [List.cons_append, List.nil_append, scanLengths, hdecode, if_neg hfits, hdrop, unitType,
      List.headD_cons]
    by_cases hidr : header &&& 0x1f = idr
    · simp [hidr]
    · simp [hidr]

/-- The second scan goes through the units that it is meant for. -/
theorem scanLengths_lengthPrefixed (hunits : ∀ u ∈ units, u ≠ [] ∧ u.length < 2 ^ 32)
    (hn : (lengthPrefixed units).length ≤ n) :
    scanLengths n (lengthPrefixed units) = true ↔ ∃ u ∈ units, unitType u = idr := by
  induction units generalizing n with
  | nil => cases n <;> simp [scanLengths]
  | cons nal units ih =>
    rw [List.forall_mem_cons] at hunits
    have hpos := List.length_pos_iff.mpr hunits.1.1
    rw [lengthPrefixed_cons, List.length_append, List.length_append] at hn
    cases n with
    | zero => omega
    | succ n =>
      rw [lengthPrefixed_cons, scanLengths_unit hunits.1.1 hunits.1.2, Bool.or_eq_true,
        decide_eq_true_eq, ih hunits.2 (by omega), List.exists_mem_cons_iff]

theorem ShowsLengths.cons {nal : Nal} {rest : List UInt8} (hne : nal ≠ [])
    (hlength : nal.length < 2 ^ 32) (h : ShowsLengths rest) :
    ShowsLengths (lengthField nal.length ++ (nal ++ rest)) := by
  obtain ⟨units, last, rest, hunits, hidr, rfl⟩ := h
  refine ⟨nal :: units, last, rest, ?_, hidr, ?_⟩
  · rw [List.cons_append, List.forall_mem_cons]
    exact ⟨⟨hne, hlength⟩, hunits⟩
  · simp only [List.cons_append, lengthPrefixed_cons, List.append_assoc]

theorem showsLengths_of_scanLengths {bytes : List UInt8} (h : scanLengths n bytes = true) :
    ShowsLengths bytes := by
  induction n generalizing bytes with
  | zero => simp [scanLengths] at h
  | succ n ih =>
    rcases bytes with _ | ⟨a, _ | ⟨b, _ | ⟨c, _ | ⟨d, _ | ⟨header, rest⟩⟩⟩⟩⟩ <;> try cases h
    have hfield := lengthField_decode a b c d
    have hlt := decode_lt a b c d
    simp only [scanLengths] at h
    generalize LittleEndian.decode [d, c, b, a] = length at *
    split_ifs at h with hends hidr
    all_goals
      have hnal : ((header :: rest).take length).length = length := by
        rw [List.length_take, List.length_cons]
        omega
      have hne : (header :: rest).take length ≠ [] := by
        rw [← List.length_pos_iff]
        omega
      have hbytes : a :: b :: c :: d :: header :: rest =
          lengthField ((header :: rest).take length).length ++
            ((header :: rest).take length ++ (header :: rest).drop length) := by
        rw [hnal, hfield, List.take_append_drop]
        rfl
      rw [hbytes]
    · refine ⟨[], (header :: rest).take length, (header :: rest).drop length, ?_, ?_, ?_⟩
      · simp only [List.nil_append, List.forall_mem_singleton]
        exact ⟨hne, by omega⟩
      · cases length with
        | zero => exact absurd (.inl rfl) hends
        | succ length => exact hidr
      · simp
    · exact (ih h).cons hne (by omega)

theorem scanLengths_of_showsLengths {bytes : List UInt8} (hn : bytes.length ≤ n)
    (h : ShowsLengths bytes) : scanLengths n bytes = true := by
  obtain ⟨units, nal, rest, hunits, hidr, rfl⟩ := h
  induction units generalizing n with
  | nil =>
    rw [List.nil_append, List.forall_mem_singleton] at hunits
    have hpos := List.length_pos_iff.mpr hunits.1
    simp only [List.nil_append, lengthPrefixed_cons, lengthPrefixed_nil, List.append_nil,
      List.append_assoc] at hn ⊢
    cases n with
    | zero =>
      simp only [List.length_append] at hn
      omega
    | succ n => rw [scanLengths_unit hunits.1 hunits.2, hidr, decide_eq_true rfl, Bool.true_or]
  | cons u units ih =>
    rw [List.cons_append, List.forall_mem_cons] at hunits
    have hpos := List.length_pos_iff.mpr hunits.1.1
    simp only [List.cons_append, lengthPrefixed_cons, List.append_assoc] at hn ⊢
    cases n with
    | zero =>
      simp only [List.length_append] at hn
      omega
    | succ n =>
      rw [scanLengths_unit hunits.1.1 hunits.1.2, ih hunits.2, Bool.or_true]
      simp only [List.length_append] at hn ⊢
      omega

end Lengths

/-- What the two scans find. -/
theorem contains_idr_iff {bytes : List UInt8} :
    contains_idr bytes = true ↔ ShowsStartCode bytes ∨ ShowsLengths bytes := by
  rw [contains_idr, Bool.or_eq_true, any_tails_idrStartCode]
  exact or_congr_right ⟨showsLengths_of_scanLengths, scanLengths_of_showsLengths le_rfl⟩

section AnnexB
variable {units : List (StartCode × Nal)}

/-- No start code begins inside a unit: its zeros are guarded, and its last byte is none. -/
theorem idrStartCode_escaped {nal : Nal} (hne : nal ≠ []) (h : Escaped nal) (rest : List UInt8) :
    idrStartCode (nal ++ rest) = false := by
  rw [Bool.eq_false_iff]
  intro hfound
  obtain ⟨header, more, -, hbytes⟩ := idrStartCode_eq_true.mp hfound
  have hstart : ∃ c tail, nal ++ rest = 0 :: 0 :: c :: tail ∧ c < 3 := by
    rcases hbytes with ⟨hbytes, -⟩ | hbytes
    · exact ⟨1, _, hbytes, by decide⟩
    · exact ⟨0, _, hbytes, by decide⟩
  obtain ⟨c, tail, hsplit, hc⟩ := hstart
  rcases nal with _ | ⟨x, _ | ⟨y, _ | ⟨z, nal⟩⟩⟩
  · exact hne rfl
  · cases hsplit
    exact h.last rfl
  · cases hsplit
    exact h.last rfl
  · cases hsplit
    exact absurd (h.guarded [] c nal rfl).1 (by simpa using hc)

theorem any_tails_cons (p : List UInt8 → Bool) (b : UInt8) (bytes : List UInt8) :
    (b :: bytes).tails.any p = (p (b :: bytes) || bytes.tails.any p) := by
  rw [List.tails_cons, List.any_cons]

theorem tails_escaped {nal : Nal} (h : Escaped nal) (rest : List UInt8) :
    (nal ++ rest).tails.any idrStartCode = rest.tails.any idrStartCode := by
  induction nal with
  | nil => rfl
  | cons b nal ih =>
    have hhead : idrStartCode (b :: (nal ++ rest)) = false :=
      idrStartCode_escaped (List.cons_ne_nil b nal) h rest
    rw [List.cons_append, any_tails_cons, hhead, Bool.false_or]
    exact ih (h.of_suffix (List.suffix_cons b nal))

theorem idrStartCode_short {header : UInt8} {rest : List UInt8} :
    idrStartCode (0 :: 0 :: 1 :: header :: rest) = true ↔ header &&& 0x1f = idr ∧ rest ≠ [] := by
  cases rest <;> simp [idrStartCode]

theorem idrStartCode_long {header : UInt8} {rest : List UInt8} :
    idrStartCode (0 :: 0 :: 0 :: 1 :: header :: rest) = true ↔ header &&& 0x1f = idr := by
  simp [idrStartCode]

/-- The last byte of a start code, with at most one zero before it, begins none. -/
theorem idrStartCode_one {rest : List UInt8} (zeros : List UInt8) (h : zeros = [] ∨ zeros = [0]) :
    idrStartCode (zeros ++ 1 :: rest) = false := by
  rw [Bool.eq_false_iff]
  intro hfound
  obtain ⟨header, more, -, ⟨hbytes, -⟩ | hbytes⟩ := idrStartCode_eq_true.mp hfound
  all_goals rcases h with rfl | rfl <;> cases hbytes

/-- A start code is found with the header of an IDR slice; a short one at the end is not. -/
theorem tails_startCode (code : StartCode) {nal : Nal} (hne : nal ≠ []) (rest : List UInt8) :
    (code.bytes ++ (nal ++ rest)).tails.any idrStartCode = true ↔
      unitType nal = idr ∧ (code = .long ∨ 2 ≤ nal.length ∨ rest ≠ []) ∨
        (nal ++ rest).tails.any idrStartCode = true := by
  cases nal with
  | nil => exact absurd rfl hne
  | cons header nal =>
    have hmore : nal ++ rest ≠ [] ↔ 2 ≤ (header :: nal).length ∨ rest ≠ [] := by
      cases nal with
      | nil => simp
      | cons b nal => simp
    have hone : idrStartCode (1 :: header :: (nal ++ rest)) = false :=
      idrStartCode_one [] (.inl rfl)
    have hzero : idrStartCode (0 :: 1 :: header :: (nal ++ rest)) = false :=
      idrStartCode_one [0] (.inr rfl)
    cases code with
    | short =>
      change (0 :: 0 :: 1 :: header :: (nal ++ rest)).tails.any idrStartCode = true ↔ _
      rw [any_tails_cons, any_tails_cons, any_tails_cons, hzero, hone, Bool.false_or, Bool.false_or,
        Bool.or_eq_true, idrStartCode_short, hmore]
      simp [unitType]
    | long =>
      change (0 :: 0 :: 0 :: 1 :: header :: (nal ++ rest)).tails.any idrStartCode = true ↔ _
      rw [any_tails_cons, any_tails_cons, any_tails_cons, any_tails_cons, hzero, hone,
        Bool.false_or, Bool.false_or, Bool.or_eq_true, Bool.or_eq_true, idrStartCode_long,
        idrStartCode_short, ← or_assoc, or_iff_left_of_imp And.left]
      simp [unitType]

/-- A unit whose header the first scan gets to see. -/
def Plain (u : StartCode × Nal) (after : List (StartCode × Nal)) : Prop :=
  unitType u.2 = idr ∧ (u.1 = .long ∨ 2 ≤ u.2.length ∨ after ≠ [])

/-- In Annex B the first scan finds the IDR slices that are not clipped, and nothing else. -/
theorem showsStartCode_annexB (hunits : ∀ u ∈ units, u.2 ≠ [] ∧ Escaped u.2) :
    ShowsStartCode (annexB units) ↔ ∃ before u after, units = before ++ u :: after ∧ Plain u after := by
  rw [← any_tails_idrStartCode]
  induction units with
  | nil => simp [idrStartCode]
  | cons u units ih =>
    obtain ⟨code, nal⟩ := u
    rw [List.forall_mem_cons] at hunits
    have hrest : annexB units ≠ [] ↔ units ≠ [] :=
      ⟨fun h hnil => h (by rw [hnil]; rfl), annexB_ne_nil⟩
    rw [annexB_cons, tails_startCode code hunits.1.1, tails_escaped hunits.1.2, ih hunits.2, hrest]
    constructor
    · rintro (hplain | ⟨before, u, after, rfl, hplain⟩)
      · exact ⟨[], (code, nal), units, rfl, hplain⟩
      · exact ⟨(code, nal) :: before, u, after, rfl, hplain⟩
    · rintro ⟨before, u, after, hsplit, hplain⟩
      cases before with
      | nil =>
        cases hsplit
        exact .inl hplain
      | cons first before =>
        cases hsplit
        exact .inr ⟨before, u, after, rfl, hplain⟩

/-- An access unit whose IDR slices all stay unseen has a single one, which is clipped. -/
theorem clipped_iff (hunits : ∀ u ∈ units, u.2 ≠ [] ∧ Escaped u.2) :
    Clipped units ↔ (∃ u ∈ units, unitType u.2 = idr) ∧
      ¬ ∃ before u after, units = before ++ u :: after ∧ Plain u after := by
  constructor
  · rintro ⟨init, nal, rfl, hlength, hidr, hinit⟩
    refine ⟨⟨(.short, nal), by simp, hidr⟩, ?_⟩
    rintro ⟨before, u, after, hsplit, hplain⟩
    rcases Algorithms.append_singleton_eq hsplit with ⟨rfl, -, rfl⟩ | ⟨middle, -, rfl⟩
    · rcases hplain.2 with hlong | hmore | hafter
      · cases hlong
      · simp only at hmore
        omega
      · exact hafter rfl
    · exact hinit u (by simp) hplain.1
  · rintro ⟨⟨u, hu, hidr⟩, hunseen⟩
    obtain ⟨before, after, rfl⟩ := List.append_of_mem hu
    have hu' : ¬ (u.1 = .long ∨ 2 ≤ u.2.length ∨ after ≠ []) :=
      fun h => hunseen ⟨before, u, after, rfl, hidr, h⟩
    simp only [ne_eq, not_or, not_not, not_le] at hu'
    obtain ⟨hcode, hlength, rfl⟩ := hu'
    have hpos := List.length_pos_iff.mpr (hunits u hu).1
    obtain ⟨code, nal⟩ := u
    cases code with
    | long => exact absurd rfl hcode
    | short =>
      refine ⟨before, nal, rfl, by simp only at *; omega, hidr, ?_⟩
      intro w hw hwidr
      obtain ⟨front, back, rfl⟩ := List.append_of_mem hw
      exact hunseen ⟨front, w, back ++ [(.short, nal)], by simp, hwidr, .inr (.inr (by simp))⟩

end AnnexB

namespace AccessUnit

/-- What the scans find in an access unit is its IDR slices, except where it is misread. -/
theorem contains_idr_bytes (au : AccessUnit) :
    (contains_idr au.bytes = true ↔ au.HasIdr) ↔ ¬ au.Misread := by
  cases au with
  | annexB units ne_nil escaped =>
    have hhas : (annexB units ne_nil escaped).HasIdr ↔ ∃ u ∈ units, unitType u.2 = idr := by
      constructor
      · rintro ⟨nal, hnal, hidr⟩
        obtain ⟨u, hu, rfl⟩ := List.mem_map.mp hnal
        exact ⟨u, hu, hidr⟩
      · rintro ⟨u, hu, hidr⟩
        exact ⟨u.2, List.mem_map_of_mem hu, hidr⟩
    have hnone : (∀ u ∈ units, unitType u.2 ≠ idr) ↔ ¬ ∃ u ∈ units, unitType u.2 = idr := by
      simp
    have hseen : (∃ before u after, units = before ++ u :: after ∧ Plain u after) →
        ∃ u ∈ units, unitType u.2 = idr := by
      rintro ⟨before, u, after, rfl, hplain⟩
      exact ⟨u, by simp, hplain.1⟩
    rw [hhas, contains_idr_iff, AccessUnit.bytes, showsStartCode_annexB escaped, Misread, hnone,
      clipped_iff escaped]
    generalize (∃ before u after, units = before ++ u :: after ∧ Plain u after) = seen at *
    generalize (∃ u ∈ units, unitType u.2 = idr) = has at *
    tauto
  | lengthPrefixed units ne_nil short =>
    have hhas : (lengthPrefixed units ne_nil short).HasIdr ↔ ∃ u ∈ units, unitType u = idr := Iff.rfl
    have hnone : (∀ u ∈ units, unitType u ≠ idr) ↔ ¬ ∃ u ∈ units, unitType u = idr := by
      simp
    rw [hhas, contains_idr, Bool.or_eq_true, AccessUnit.bytes, any_tails_idrStartCode,
      scanLengths_lengthPrefixed short le_rfl, Misread, hnone]
    tauto

/-- An access unit is told apart by its IDR slices exactly when it is not misread. -/
theorem recognised_iff (au : AccessUnit) : au.Recognised ↔ ¬ au.Misread := by
  rw [← contains_idr_bytes]
  constructor
  · exact Recognised.scanned
  · intro hscanned
    refine ⟨hscanned, ?_⟩
    intro clean pts duration hclean
    rw [← hscanned] at hclean ⊢
    cases clean with
    | false => exact Iff.rfl
    | true => exact iff_of_true rfl (hclean rfl)

def deltaFrame : AccessUnit :=
  .lengthPrefixed [0x41 :: List.replicate 260 0xff] (by decide) (by decide +kernel)

/-- Its length field `00 00 01 05` reads as the start code of an IDR slice. -/
theorem not_alwaysRecognised : ¬ ∀ au : AccessUnit, au.Recognised := by
  intro hall
  have hscanned : contains_idr deltaFrame.bytes = true := by decide +kernel
  obtain ⟨nal, hnal, hidr⟩ := (hall deltaFrame).scanned.mp hscanned
  rw [List.mem_singleton.mp hnal] at hidr
  revert hidr
  decide

end AccessUnit
end GambitRecord.Recorder
