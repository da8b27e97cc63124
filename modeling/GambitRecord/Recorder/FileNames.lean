import GambitRecord.Recorder.EvidenceFiles

/-! # What `sanitize_filename` leaves

A name is trimmed before it is cut to 80 bytes, so the cut can uncover a space or a dot again.
Nothing else goes wrong, and a name that is well formed is kept as it is.
-/

namespace GambitRecord.Recorder
open Library

def forbidden (c : UInt8) : Bool := c < 32 ∨ c ∈ invalid

def trailing (c : UInt8) : Bool := c = 32 ∨ c = 46

structure WellFormed (name : Bytes) : Prop where
  nonempty : name ≠ []
  size : name.length ≤ 80
  allowed : ∀ c ∈ name, forbidden c = false
  ends : ∀ c ∈ name.getLast?, trailing c = false

/-- The name is well formed, and sanitizing it again changes nothing. -/
def Sanitizes (value : Bytes) : Prop :=
  WellFormed (sanitize_filename value) ∧
    sanitize_filename (sanitize_filename value) = sanitize_filename value

/-- If more than trailing bytes stand behind the first 80, the last of these is no trailing one. -/
def CutsWell (value : Bytes) : Prop :=
  (∃ c ∈ value.drop 80, trailing c = false) → ∀ c ∈ value[79]?, trailing c = false

def replaced (c : UInt8) : UInt8 := if forbidden c then 95 else c

/-- The value before it is cut. -/
def trimmed (value : Bytes) : Bytes := (value.map replaced).rdropWhile trailing

theorem sanitize_filename_eq (value : Bytes) :
    sanitize_filename value =
      (if (trimmed value).isEmpty then Utf8.bytes "unknown" else trimmed value).take 80 := by
  have hmap : (fun c : UInt8 => if c < 32 ∨ c ∈ invalid then (95 : UInt8) else c) = replaced := by
    ext c
    simp [replaced, forbidden]
  rw [sanitize_filename, hmap]
  rfl

theorem forbidden_replaced (c : UInt8) : forbidden (replaced c) = false := by
  rw [replaced]
  by_cases h : forbidden c = true
  · rw [if_pos h]
    decide
  · rw [if_neg h]
    simpa using h

theorem trailing_replaced (c : UInt8) : trailing (replaced c) = trailing c := by
  rw [replaced]
  by_cases h : forbidden c = true
  · have hnot : trailing c = false := by
      rw [trailing, decide_eq_false_iff_not]
      rintro (rfl | rfl) <;> exact absurd h (by decide)
    rw [if_pos h, hnot]
    decide
  · rw [if_neg h]

theorem replaced_of_allowed {c : UInt8} (h : forbidden c = false) : replaced c = c := by
  rw [replaced, if_neg (by simpa using h)]

theorem rdropWhile_append {α : Type*} (p : α → Bool) (a b : List α) :
    (a ++ b).rdropWhile p = if b.rdropWhile p = [] then a.rdropWhile p else a ++ b.rdropWhile p := by
  rw [List.rdropWhile, List.reverse_append, List.dropWhile_append]
  by_cases h : b.reverse.dropWhile p = []
  · simp [List.rdropWhile, h]
  · simp [List.rdropWhile, h]

theorem wellFormed_unknown : WellFormed (Utf8.bytes "unknown") where
  nonempty := by decide +kernel
  size := by decide +kernel
  allowed := by decide +kernel
  ends := by decide +kernel

theorem forbidden_of_mem_trimmed {value : Bytes} {c : UInt8} (h : c ∈ trimmed value) :
    forbidden c = false := by
  have hmap := (List.rdropWhile_prefix _ _).subset h
  obtain ⟨b, -, rfl⟩ := List.mem_map.mp hmap
  exact forbidden_replaced b

theorem WellFormed.sanitized {name : Bytes} (h : WellFormed name) :
    sanitize_filename name = name := by
  have hmap : name.map replaced = name := by
    calc
      name.map replaced = name.map id :=
        List.map_congr_left fun c hc => replaced_of_allowed (h.allowed c hc)
      _ = name := List.map_id name
  have htrimmed : trimmed name = name := by
    rw [trimmed, hmap, List.rdropWhile_eq_self_iff]
    intro hne
    rw [h.ends _ (List.getLast?_eq_some_getLast hne)]
    decide
  have hempty : ¬ name.isEmpty = true := by simpa using h.nonempty
  rw [sanitize_filename_eq, htrimmed, if_neg hempty, List.take_of_length_le h.size]

theorem wellFormed_of_ends {value : Bytes}
    (h : trimmed value ≠ [] → ∀ c ∈ ((trimmed value).take 80).getLast?, trailing c = false) :
    WellFormed (sanitize_filename value) := by
  rw [sanitize_filename_eq]
  by_cases hempty : trimmed value = []
  · rw [hempty, List.isEmpty_nil, if_pos rfl, List.take_of_length_le wellFormed_unknown.size]
    exact wellFormed_unknown
  · rw [if_neg (by simpa using hempty)]
    constructor
    · simpa using hempty
    · exact List.length_take_le _ _
    · exact fun c hc => forbidden_of_mem_trimmed (List.mem_of_mem_take hc)
    · exact h hempty

theorem ends_trimmed {value : Bytes} (hne : trimmed value ≠ []) :
    ∀ c ∈ (trimmed value).getLast?, trailing c = false := by
  intro c hc
  rw [List.getLast?_eq_some_getLast hne] at hc
  cases hc
  exact Bool.eq_false_of_not_eq_true (List.rdropWhile_last_not trailing _ hne)

theorem trimmed_eq_nil_iff {value : Bytes} :
    trimmed value = [] ↔ ∀ c ∈ value, trailing c = true := by
  simp [trimmed, List.rdropWhile_eq_nil_iff, trailing_replaced]

/-- The first 80 bytes are trimmed only when nothing is left of the others. -/
theorem trimmed_eq (value : Bytes) :
    trimmed value = if trimmed (value.drop 80) = [] then trimmed (value.take 80)
      else (value.take 80).map replaced ++ trimmed (value.drop 80) := by
  have hsplit : value.map replaced = (value.take 80).map replaced ++ (value.drop 80).map replaced := by
    rw [← List.map_append, List.take_append_drop]
  rw [trimmed, hsplit, rdropWhile_append]
  rfl

theorem length_trimmed_le {value : Bytes} (h : ∀ c ∈ value.drop 80, trailing c = true) :
    (trimmed value).length ≤ 80 := by
  rw [trimmed_eq, if_pos (trimmed_eq_nil_iff.mpr h)]
  calc
    (trimmed (value.take 80)).length
      ≤ ((value.take 80).map replaced).length := (List.rdropWhile_prefix _ _).length_le
    _ ≤ 80 := by
      rw [List.length_map]
      exact List.length_take_le _ _

theorem take_trimmed {value : Bytes} (h : ∃ c ∈ value.drop 80, trailing c = false) :
    (trimmed value).take 80 = (value.take 80).map replaced ∧ 80 < value.length := by
  obtain ⟨c, hc, hnot⟩ := h
  have hlength : 80 < value.length := by
    by_contra hle
    rw [List.drop_eq_nil_of_le (Nat.not_lt.mp hle)] at hc
    cases hc
  have htail : trimmed (value.drop 80) ≠ [] := by
    intro hnil
    have hall := trimmed_eq_nil_iff.mp hnil c hc
    rw [hnot] at hall
    cases hall
  refine ⟨?_, hlength⟩
  rw [trimmed_eq, if_neg htail]
  apply List.take_left'
  rw [List.length_map, List.length_take]
  exact min_eq_left hlength.le

theorem getLast?_take_map {value : Bytes} (h : 80 < value.length) :
    ((value.take 80).map replaced).getLast? = value[79]?.map replaced := by
  rw [List.getLast?_eq_getElem?, List.length_map, List.length_take, min_eq_left h.le,
    List.getElem?_map, List.getElem?_take_of_lt (by decide)]

theorem wellFormed_iff (value : Bytes) :
    WellFormed (sanitize_filename value) ↔ CutsWell value := by
  by_cases hlong : ∃ c ∈ value.drop 80, trailing c = false
  · obtain ⟨htake, hlength⟩ := take_trimmed hlong
    have hlast := getLast?_take_map hlength
    have hne : trimmed value ≠ [] := by
      intro hnil
      have hcount := congrArg List.length htake
      rw [hnil, List.take_nil, List.length_nil, List.length_map, List.length_take,
        min_eq_left hlength.le] at hcount
      cases hcount
    constructor
    · intro hwell _ c hc
      have hends := hwell.ends (replaced c)
      rw [sanitize_filename_eq, if_neg (by simpa using hne), htake, hlast, hc] at hends
      rw [← trailing_replaced]
      exact hends rfl
    · intro hcuts
      apply wellFormed_of_ends
      intro _ c hc
      rw [htake, hlast] at hc
      obtain ⟨b, hb, rfl⟩ := Option.map_eq_some_iff.mp hc
      rw [trailing_replaced]
      exact hcuts hlong b hb
  · have hshort : (trimmed value).length ≤ 80 := by
      apply length_trimmed_le
      intro c hc
      by_contra hnot
      exact hlong ⟨c, hc, by simpa using hnot⟩
    refine iff_of_true ?_ fun h => absurd h hlong
    apply wellFormed_of_ends
    intro hne
    rw [List.take_of_length_le hshort]
    exact ends_trimmed hne

/-- A name comes out well formed, and for good, exactly when the cut does not uncover a space or a
dot. -/
theorem sanitizes_iff (value : Bytes) : Sanitizes value ↔ CutsWell value := by
  rw [← wellFormed_iff]
  constructor
  · exact fun h => h.1
  · exact fun h => ⟨h, h.sanitized⟩

def dotted : Bytes := List.replicate 79 97 ++ [46, 97]

theorem not_alwaysSanitizes : ¬ ∀ value : Bytes, Sanitizes value := by
  intro hall
  have hends := (hall dotted).1.ends 46 (by decide +kernel)
  cases hends

end GambitRecord.Recorder
