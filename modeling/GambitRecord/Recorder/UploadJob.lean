import GambitRecord.Library.Utf8
import GambitRecord.Recorder.BrokerUploader

/-! # Upload jobs

The queue's record of one recording and the verdict of `UploadQueue::run` on the
result of an upload call.
-/

namespace GambitRecord.Recorder
open Library

/-- The UTF-16 units of a Windows path. -/
abbrev WidePath := List UInt16

structure EvidenceMetadata where
  admin : Bytes := []
  target_id : Int32 := -1
  target_name : Bytes := []
  server : Bytes := []
  timestamp : Bytes := []
  punishment_command : Bytes := []
  punishment_reason : Bytes := []
  recording_period : Bytes := []
  deriving DecidableEq

structure Job where
  id : Bytes
  path : WidePath
  metadata : EvidenceMetadata
  attempts : UInt32 := 0
  next_attempt : Int64 := 0
  upload_id : Bytes := []
  deriving DecidableEq

/-- How `run` logs the end of an upload call. -/
inductive Verdict where
  | completed | rejected | gaveUp | retry
  deriving DecidableEq

def verdict (attempts : UInt32) (result : UploadResult) : Verdict :=
  if result.success then .completed
  else if ¬ result.retryable then .rejected
  else if 7 ≤ attempts then .gaveUp
  else .retry

/-- The seconds until the next attempt, from the attempts made so far. -/
def backoff (retry_seconds attempts : UInt32) : ℤ :=
  min 3600 (retry_seconds.toNat * 2 ^ min attempts.toNat 6 : ℕ)

def settle (retry_seconds : UInt32) (now : ℤ) (job : Job) (result : UploadResult) : Option Job :=
  match verdict job.attempts result with
  | .retry =>
    some { job with
      upload_id := Utf8.encode result.upload_id
      attempts := job.attempts + 1
      next_attempt := Int64.ofInt (now + backoff retry_seconds (job.attempts + 1)) }
  | _ => none

theorem verdict_completed_iff {attempts : UInt32} {result : UploadResult} :
    verdict attempts result = .completed ↔ result.success = true := by
  unfold verdict
  split_ifs <;> simp_all

theorem verdict_rejected_iff {attempts : UInt32} {result : UploadResult} :
    verdict attempts result = .rejected ↔ result.success = false ∧ result.retryable = false := by
  unfold verdict
  split_ifs <;> simp_all

theorem verdict_retry_iff {attempts : UInt32} {result : UploadResult} :
    verdict attempts result = .retry ↔
      result.success = false ∧ result.retryable = true ∧ attempts < 7 := by
  unfold verdict
  split_ifs with hs hr ha
  · simp [hs]
  · simp [hr, UInt32.not_lt.mpr ha]
  · simp [hs, hr, UInt32.not_le.mp ha]
  · simp [hr]

theorem settle_eq_none {retry_seconds : UInt32} {now : ℤ} {job : Job} {result : UploadResult} :
    settle retry_seconds now job result = none ↔
      ¬ (result.success = false ∧ result.retryable = true ∧ job.attempts < 7) := by
  rw [← verdict_retry_iff, settle]
  cases verdict job.attempts result <;> simp

theorem settle_eq_some {retry_seconds : UInt32} {now : ℤ} {job j : Job} {result : UploadResult} :
    settle retry_seconds now job result = some j ↔
      (result.success = false ∧ result.retryable = true ∧ job.attempts < 7) ∧
        { job with
          upload_id := Utf8.encode result.upload_id
          attempts := job.attempts + 1
          next_attempt := Int64.ofInt (now + backoff retry_seconds (job.attempts + 1)) } = j := by
  rw [← verdict_retry_iff, settle]
  cases verdict job.attempts result <;> simp

theorem of_settle {retry_seconds : UInt32} {now : ℤ} {job j : Job} {result : UploadResult}
    (h : settle retry_seconds now job result = some j) :
    j.id = job.id ∧ j.path = job.path ∧ j.metadata = job.metadata ∧
      j.upload_id = Utf8.encode result.upload_id ∧ j.attempts.toNat = job.attempts.toNat + 1 := by
  rcases settle_eq_some.mp h with ⟨⟨-, -, hlt⟩, rfl⟩
  refine ⟨rfl, rfl, rfl, rfl, ?_⟩
  rw [UInt32.lt_iff_toNat_lt] at hlt
  change (job.attempts + 1).toNat = _
  rw [UInt32.toNat_add]
  change (job.attempts.toNat + 1) % 2 ^ 32 = _
  have : job.attempts.toNat < 7 := hlt
  omega

end GambitRecord.Recorder
