import GambitRecord.Recorder.BrokerUploader

/-! # `Content-Range`, written and read

`parseContentRange` against the form of the header, and against every header that
`BrokerUploader::upload` writes, whatever the broker answers it.
-/

namespace GambitRecord.ContentRange
open Library Library.DigitText Broker Recorder

def IsNumeral (digits : Text) : Prop := digits ≠ [] ∧ ∀ c ∈ digits, c.isDigit

def form (start «end» total : Text) : Text :=
  text "bytes " ++ (start ++ '-' :: («end» ++ '/' :: total))

/-- A header of this form, whose numerals are a range inside its total. -/
def Names (header : Text) (range : ByteRange) : Prop :=
  ∃ start «end» total, IsNumeral start ∧ IsNumeral «end» ∧ IsNumeral total ∧
    header = form start «end» total ∧
    range = ⟨value start, value «end», value total⟩ ∧
    range.start ≤ range.end ∧ range.end < range.total ∧ range.total ≤ 2 ^ 53 - 1

theorem not_isDigit_dash : '-'.isDigit = false := by decide

theorem not_isDigit_slash : '/'.isDigit = false := by decide

theorem digits_cons {digits rest : Text} {c : Char} (h : IsNumeral digits)
    (hc : c.isDigit = false) :
    DigitText.digits (digits ++ c :: rest) = some (digits, c :: rest) := by
  apply digits_eq_some_iff.mpr
  exact ⟨h.1, h.2, rfl, by simpa using hc⟩

theorem matchContentRange_iff {header start «end» total : Text} :
    matchContentRange header = some (start, «end», total) ↔
      IsNumeral start ∧ IsNumeral «end» ∧ IsNumeral total ∧ header = form start «end» total := by
  constructor
  · intro h
    simp only [matchContentRange, Option.bind_eq_bind, Option.bind_eq_some_iff, Prod.exists] at h
    obtain ⟨tail, hbytes, s, afterStart, hstart, tail', hdash, e, afterEnd, hend, tail'', hslash,
      t, rest, htotal, h⟩ := h
    split_ifs at h with hrest
    cases h
    rw [literal_eq_some_iff] at hbytes hdash hslash
    rw [digits_eq_some_iff] at hstart hend htotal
    have hnil : rest = [] := by simpa using hrest
    refine ⟨⟨hstart.1, hstart.2.1⟩, ⟨hend.1, hend.2.1⟩, ⟨htotal.1, htotal.2.1⟩, ?_⟩
    rw [hbytes, hstart.2.2.1, hdash, hend.2.2.1, hslash, htotal.2.2.1, hnil, List.append_nil]
    rfl
  · rintro ⟨hstart, hend, htotal, rfl⟩
    have hlast : DigitText.digits total = some (total, []) := by
      apply digits_eq_some_iff.mpr
      exact ⟨htotal.1, htotal.2, by simp, by simp⟩
    simp [matchContentRange, form, literal_append, digits_cons hstart not_isDigit_dash,
      digits_cons hend not_isDigit_slash, hlast]

/-- A safe integer is its own double, and no other numeral rounds to one. -/
theorem parseContentRange_iff {header : Text} {range : ByteRange} :
    parseContentRange (some header) = some range ↔ Names header range := by
  simp only [parseContentRange, Option.bind_eq_bind, Option.bind_some, Option.bind_eq_some_iff,
    Prod.exists]
  constructor
  · rintro ⟨start, last, total, hmatch, h⟩
    obtain ⟨hstart, hend, htotal, hform⟩ := matchContentRange_iff.mp hmatch
    split_ifs at h with hsafe
    cases h
    obtain ⟨hs, he, ht, hle, hlt⟩ := hsafe
    simp only [number, Binary64.round_le_maxSafe_iff] at hs he ht
    simp only [number, Binary64.round_of_le hs, Binary64.round_of_le he,
      Binary64.round_of_le ht] at hle hlt ⊢
    exact ⟨start, last, total, hstart, hend, htotal, hform, rfl, hle, hlt, ht⟩
  · rintro ⟨start, last, total, hstart, hend, htotal, hform, rfl, hle, hlt, ht⟩
    refine ⟨start, last, total, matchContentRange_iff.mpr ⟨hstart, hend, htotal, hform⟩, ?_⟩
    have hsafe : value total ≤ Binary64.maxSafe := ht
    have he : value last ≤ Binary64.maxSafe := hlt.le.trans hsafe
    have hs : value start ≤ Binary64.maxSafe := le_trans hle he
    simp only [number, Binary64.round_of_le hs, Binary64.round_of_le he, Binary64.round_of_le hsafe]
    exact if_pos ⟨hs, he, hsafe, hle, hlt⟩

/-- Where a call of `upload` on a file can be, with any setup, answers, failures and stop
requests. -/
inductive Reaches (file : List UInt8) : Client → Prop where
  | upload (setup : Setup) (resume_id : Text) :
    Reaches file (BrokerUploader.upload setup (some file) resume_id)
  | poll {u : Upload} (stop readable : Bool) (h : Reaches file (.looping u)) :
    Reaches file (BrokerUploader.poll file u stop readable)
  | answer {u : Upload} {exchange : Exchange} {attempt : ℕ} (response : Broker.Response)
    (h : Reaches file (.requesting u exchange attempt)) :
    Reaches file (BrokerUploader.answer file u response exchange)
  | retry {u : Upload} {exchange : Exchange} {attempt : ℕ}
    (h : Reaches file (.requesting u exchange attempt)) :
    Reaches file (BrokerUploader.retry file u exchange attempt)

/-- A chunk that is asked for lies in the file. -/
def Within (file : List UInt8) : Client → Prop
  | .requesting u (.chunk count) _ =>
    file.length ≤ maxFileSize ∧ 0 < count ∧ u.offset + count ≤ file.length
  | .requesting _ _ _ => file.length ≤ maxFileSize
  | .looping _ => file.length ≤ maxFileSize
  | .returned _ => True

variable {file : List UInt8}

theorem Within.length_le {u : Upload} {exchange : Exchange} {attempt : ℕ}
    (h : Within file (.requesting u exchange attempt)) : file.length ≤ maxFileSize := by
  cases exchange with
  | resume => exact h
  | create => exact h
  | chunk count => exact h.1

theorem within_upload (setup : Setup) (resume_id : Text) :
    Within file (BrokerUploader.upload setup (some file) resume_id) := by
  rcases BrokerUploader.upload_cases setup (some file) resume_id with
    ⟨bytes, hbytes, -, hlimit, -, hupload⟩ | ⟨retryable, error, hupload, -, -⟩
  · cases hbytes
    rw [hupload]
    by_cases hempty : resume_id.isEmpty = true
    · rw [if_pos hempty]
      exact hlimit
    · rw [if_neg hempty]
      exact hlimit
  · rw [hupload]
    trivial

theorem within_poll {u : Upload} (stop readable : Bool) (h : file.length ≤ maxFileSize) :
    Within file (BrokerUploader.poll file u stop readable) := by
  rw [BrokerUploader.poll]
  split_ifs with hlt hstop hread
  · trivial
  · refine ⟨h, lt_min (by decide) (Nat.sub_pos_of_lt hlt), ?_⟩
    exact Nat.add_le_of_le_sub' hlt.le (min_le_right _ _)
  · trivial
  · trivial

theorem within_answer {u : Upload} {exchange : Exchange} (response : Broker.Response)
    (h : file.length ≤ maxFileSize) :
    Within file (BrokerUploader.answer file u response exchange) := by
  rcases BrokerUploader.answer_cases file u response exchange with
    ⟨result, hanswer, -⟩ | ⟨-, -, hanswer⟩ | ⟨-, -, hanswer⟩ | ⟨-, _, hanswer⟩
  · rw [hanswer]
    trivial
  · rw [hanswer]
    exact h
  · rw [hanswer]
    exact h
  · rw [hanswer]
    exact h

theorem within_retry {u : Upload} {exchange : Exchange} {attempt : ℕ}
    (h : Within file (.requesting u exchange attempt)) :
    Within file (BrokerUploader.retry file u exchange attempt) := by
  rw [BrokerUploader.retry]
  split_ifs
  · cases exchange with
    | resume => exact h
    | create => exact h
    | chunk count => exact h
  · exact within_answer _ h.length_le

theorem Reaches.within {client : Client} (h : Reaches file client) : Within file client := by
  induction h with
  | upload setup resume_id => exact within_upload setup resume_id
  | poll stop readable _ ih => exact within_poll stop readable ih
  | answer response _ ih => exact within_answer response ih.length_le
  | retry _ ih => exact within_retry ih

/-- A range is read exactly from the headers that name it, and from every header that an upload
writes the chunk is read back. -/
theorem reads_exactly :
    (∀ (header : Option Text) (range : ByteRange), parseContentRange header = some range ↔
      ∃ h ∈ header, Names h range) ∧
    ∀ (file : List UInt8) (u : Upload) (count attempt : ℕ),
      Reaches file (.requesting u (.chunk count) attempt) →
        ∃ id header body, BrokerUploader.wireRequest file u (.chunk count) = .put id header body ∧
          parseContentRange (some header) =
            some ⟨u.offset, u.offset + count - 1, file.length⟩ := by
  constructor
  · intro header range
    cases header with
    | none => simp [parseContentRange]
    | some header => simp [parseContentRange_iff]
  · intro file u count attempt hreaches
    obtain ⟨hlimit, hpos, hend⟩ := hreaches.within
    have hsafe : maxFileSize ≤ Binary64.maxSafe := by decide
    refine ⟨_, _, _, rfl, ?_⟩
    exact parseContentRange_contentRange (by omega) (by omega) (hlimit.trans hsafe)

theorem reaches_oneByte : Reaches [7] (.requesting ⟨['a'], 0, 0⟩ (.chunk 1) 0) := by
  have hcreate := @Reaches.upload [7] ⟨true, true, true, true, true⟩ []
  exact (hcreate.answer ⟨201, { id := some ['a'] }⟩).poll false true

theorem reads_exactly_oneByte :
    ∃ id header body,
      BrokerUploader.wireRequest [7] ⟨['a'], 0, 0⟩ (.chunk 1) = .put id header body ∧
        parseContentRange (some header) = some ⟨0, 0, 1⟩ :=
  reads_exactly.2 [7] ⟨['a'], 0, 0⟩ 1 0 reaches_oneByte

end GambitRecord.ContentRange
