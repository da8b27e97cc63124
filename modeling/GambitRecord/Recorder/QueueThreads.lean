import GambitRecord.Recorder.Config
import GambitRecord.Recorder.UploadQueue

/-! # The queue between its threads

The worker of `UploadQueue` holds the lock while it picks a job and while it
settles the result; for the upload in between it has a copy of the job and of the
settings. Other threads enqueue, configure and read the status whenever the lock
is free. The history keeps the retries that were scheduled.
-/

namespace GambitRecord.Recorder
open Library Library.Runs Library.DigitText

/-- `system_clock` counts in units of 100 ns. -/
def unix_now (clock : Int64) : Int64 := clock / 10000000

/-- A retry as `run` schedules it. -/
structure Retry where
  id : Bytes
  retry_seconds : UInt32
  completed : Int64
  next_attempt : Int64
  deriving DecidableEq

def Retry.delay (retry : Retry) : ℤ := retry.next_attempt.toInt - retry.completed.toInt

/-- `copied` is the worker's copy of the settings, and `queue.active` that of the job. -/
structure QueueThreads where
  queue : UploadQueue
  settings : Config.Broker
  copied : Config.Broker
  active_id : Bytes := []
  active_phase : Bytes := []
  sent : UInt64 := 0
  total : UInt64 := 0
  last : Option UploadResult := none
  last_metadata : Option EvidenceMetadata := none
  retries : List Retry := []
  deriving DecidableEq

namespace QueueThreads

/-- What `status` returns; the members of the last upload are there after the first. -/
structure Status where
  in_progress : Bool
  active_id : Bytes
  phase : Bytes
  pending : UInt64
  sent_bytes : UInt64
  total_bytes : UInt64
  percent : UInt32
  last : Option (Bool × Text × Option UploadError)
  last_target : Option (Int32 × Bytes)

def status (s : QueueThreads) : Status where
  in_progress := s.active_id ≠ []
  active_id := s.active_id
  phase := s.active_phase
  pending := UInt64.ofNat s.queue.jobs.length - if s.active_id ≠ [] then 1 else 0
  sent_bytes := s.sent
  total_bytes := s.total
  percent := if s.total ≠ 0 then (s.sent * 100 / s.total).toUInt32 else 0
  last := s.last.map fun result => (result.success, result.url, result.error)
  last_target := s.last_metadata.map fun metadata => (metadata.target_id, metadata.target_name)

/-- The worker picks, fails on the log line or reports its progress, in any order of the fields, and
settles a result; the others enqueue, configure and request the stop. -/
inductive Event where
  | enqueue (pid : UInt32) (ticks : ℕ) (path : WidePath) (metadata : EvidenceMetadata)
      (clock : Int64)
  | configure (settings : Config.Broker)
  | pick (clock : Int64) (file_size : Option UInt64)
  | log
  | sent (bytes : UInt64)
  | total (bytes : UInt64)
  | uploading
  | complete (clock : Int64) (result : UploadResult)
  | stop
  deriving DecidableEq

def retry (s : QueueThreads) (job : Job) (clock : Int64) (result : UploadResult) : List Retry :=
  ((s.queue.jobs.find? fun found => found.id = job.id).bind fun found =>
    (settle s.copied.retry_seconds (unix_now clock).toInt found result).map fun kept =>
      ⟨kept.id, s.copied.retry_seconds, unix_now clock, kept.next_attempt⟩).toList

variable (page : CodePage)

/-- The job the worker is at, when the upload has begun: its path has a narrow form for the log. -/
def uploaded (s : QueueThreads) : Option Job :=
  if s.queue.phase = .down then none
  else s.queue.active.filter fun job => (page.encode job.path).isSome

def step (s : QueueThreads) : Event → Option QueueThreads
  | .enqueue pid ticks path metadata clock =>
    if s.queue.phase ≠ .down ∧ UploadQueue.job_id pid ticks ∉ s.queue.enqueued then
      some { s with
        queue := s.queue.enqueue page
          (UploadQueue.new_job pid ticks path metadata (unix_now clock)) }
    else none
  | .configure settings => if s.queue.phase ≠ .down then some { s with settings } else none
  | .pick clock file_size =>
    -- a stop after the loop's test does not prevent the pick
    if s.queue.phase ≠ .down ∧ s.queue.active = none then
      some <|
        match s.queue.jobs.find? fun job => job.next_attempt ≤ unix_now clock with
        | none => { s with copied := s.settings }
        | some job =>
          { s with
            queue := { s.queue with active := some job }
            copied := s.settings
            active_id := job.id
            active_phase := Utf8.bytes "preparing"
            sent := 0
            total := file_size.getD 0 }
    else none
  | .log =>
    if s.queue.phase ≠ .down ∧ ∃ job ∈ s.queue.active, page.encode job.path = none then
      some { s with queue := { s.queue with phase := .down } }
    else none
  | .sent bytes => (s.uploaded page).map fun _ => { s with sent := bytes }
  | .total bytes => (s.uploaded page).map fun _ => { s with total := bytes }
  | .uploading =>
    (s.uploaded page).map fun _ => { s with active_phase := Utf8.bytes "uploading" }
  | .complete clock result =>
    (s.uploaded page).map fun job =>
      { s with
        queue := s.queue.complete page job s.copied.retry_seconds (unix_now clock).toInt result
        last := some result
        last_metadata := some job.metadata
        active_id := []
        active_phase := []
        retries := s.retries ++ s.retry job clock result }
  | .stop =>
    if s.queue.phase = .running then some { s with queue := { s.queue with phase := .stopping } }
    else none

def machine (file : Option Bytes) (settings : Config.Broker) : Machine QueueThreads Event where
  init :=
    { queue :=
        { jobs := UploadQueue.load page file
          file
          enqueued := (UploadQueue.load page file).map Job.id }
      settings
      copied := settings }
  step := step page

def Other (s : QueueThreads) (job : Job) : Prop := job.id ≠ s.active_id

instance (s : QueueThreads) : DecidablePred s.Other := fun _ => instDecidableNot

/-- How a step may change the list: a new job goes to the end, a completion removes or updates the
active job where it stands, and nothing else changes it. -/
def ListChange (s t : QueueThreads) : Event → Prop
  | .enqueue pid ticks path metadata clock =>
    t.queue.jobs =
      s.queue.jobs ++ [UploadQueue.new_job pid ticks path metadata (unix_now clock)]
  | .complete _ _ =>
    ∃ before job after, s.queue.jobs = before ++ job :: after ∧ job.id = s.active_id ∧
      (t.queue.jobs = before ++ after ∨
        ∃ updated, t.queue.jobs = before ++ updated :: after ∧ updated.id = job.id ∧
          updated.path = job.path ∧ updated.metadata = job.metadata)
  | _ => t.queue.jobs = s.queue.jobs

/-- What every thread may rely on between two steps. -/
structure Orderly (s : QueueThreads) : Prop where
  active : s.active_id ≠ [] → s.queue.jobs.countP (fun job => job.id = s.active_id) = 1
  no_underflow : (if s.active_id ≠ [] then 1 else 0) ≤ s.queue.jobs.length
  pending : s.status.pending = UInt64.ofNat (s.queue.jobs.countP fun job => s.Other job)
  list : ∀ event t, s.step page event = some t → s.ListChange t event
  attempts : ∀ job ∈ s.queue.jobs, job.attempts ≤ 7
  retries : ∀ retry ∈ s.retries,
    retry.completed ≤ retry.next_attempt ∧ retry.delay ≤ 3600
  delays : s.retries.Pairwise fun earlier later =>
    earlier.id = later.id → earlier.retry_seconds = later.retry_seconds →
      earlier.delay ≤ later.delay

section Lists
variable {retry_seconds : UInt32} {now : ℤ} {id : Bytes} {result : UploadResult} {jobs : List Job}

theorem settle_job_of_absent (h : ∀ job ∈ jobs, job.id ≠ id) :
    UploadQueue.settle_job retry_seconds now id result jobs = jobs := by
  induction jobs with
  | nil => rfl
  | cons job jobs ih =>
    rw [List.forall_mem_cons] at h
    rw [UploadQueue.settle_job, if_neg h.1, ih h.2]

/-- Settling concerns the first job with the id, where it stands. -/
theorem settle_job_split (h : ∃ job ∈ jobs, job.id = id) :
    ∃ before job after, jobs = before ++ job :: after ∧ job.id = id ∧
      jobs.find? (fun found => found.id = id) = some job ∧
      UploadQueue.settle_job retry_seconds now id result jobs =
        before ++ (settle retry_seconds now job result).toList ++ after := by
  induction jobs with
  | nil => simp at h
  | cons job jobs ih =>
    rw [UploadQueue.settle_job]
    by_cases hid : job.id = id
    · exact ⟨[], job, jobs, rfl, hid, by simp [hid], by simp [hid]⟩
    · obtain ⟨found, hfound, hfoundid⟩ := h
      have hrest : found ∈ jobs := by
        rcases List.mem_cons.mp hfound with rfl | hmem
        · exact absurd hfoundid hid
        · exact hmem
      obtain ⟨before, old, after, hjobs, hold, hfind, hsettle⟩ := ih ⟨found, hrest, hfoundid⟩
      refine ⟨job :: before, old, after, by rw [hjobs, List.cons_append], hold, ?_, ?_⟩
      · rw [List.find?_cons_of_neg (by simpa using hid), hfind]
      · rw [if_neg hid, hsettle, List.cons_append, List.cons_append]

theorem countP_id (h : (jobs.map Job.id).Nodup) (hid : ∃ job ∈ jobs, job.id = id) :
    jobs.countP (fun job => job.id = id) = 1 := by
  obtain ⟨job, hjob, hjobid⟩ := hid
  have hmem : id ∈ jobs.map Job.id := List.mem_map.mpr ⟨job, hjob, hjobid⟩
  have hcount := List.count_eq_one_of_mem h hmem
  rw [List.count, List.countP_map] at hcount
  rw [← hcount]
  apply List.countP_congr
  intro job _
  simp

end Lists

section Delays

/-- A clock reading in seconds leaves room for every delay. -/
theorem unix_now_bounds (clock : Int64) :
    -2 ^ 62 ≤ (unix_now clock).toInt ∧ (unix_now clock).toInt ≤ 2 ^ 62 := by
  have hlow := Int64.le_toInt clock
  have hhigh := Int64.toInt_lt clock
  have hdiv : (unix_now clock).toInt = clock.toInt.tdiv 10000000 := by
    rw [unix_now, Int64.toInt_div_of_ne_right _ _ (by decide)]
    rfl
  rw [hdiv, Int.tdiv_eq_ediv, Int.sign_eq_one_of_pos (by decide)]
  split <;> omega

theorem backoff_nonneg (retry_seconds attempts : UInt32) : 0 ≤ backoff retry_seconds attempts := by
  unfold backoff
  omega

theorem backoff_le (retry_seconds attempts : UInt32) : backoff retry_seconds attempts ≤ 3600 :=
  min_le_left _ _

theorem backoff_mono (retry_seconds : UInt32) {a b : UInt32} (h : a ≤ b) :
    backoff retry_seconds a ≤ backoff retry_seconds b := by
  rw [UInt32.le_iff_toNat_le] at h
  unfold backoff
  gcongr
  omega

theorem settle_next_attempt {retry_seconds : UInt32} {clock : Int64} {job kept : Job}
    {result : UploadResult}
    (h : settle retry_seconds (unix_now clock).toInt job result = some kept) :
    kept.next_attempt.toInt =
      (unix_now clock).toInt + backoff retry_seconds kept.attempts := by
  obtain ⟨-, rfl⟩ := settle_eq_some.mp h
  have hnow := unix_now_bounds clock
  have hnonneg := backoff_nonneg retry_seconds (job.attempts + 1)
  have hle := backoff_le retry_seconds (job.attempts + 1)
  exact Int64.toInt_ofInt_of_le (by omega) (by omega)

/-- A job that stays has had more attempts, and never more than seven. -/
theorem attempts_of_settle {retry_seconds : UInt32} {now : ℤ} {job kept : Job}
    {result : UploadResult} (h : settle retry_seconds now job result = some kept) :
    kept.id = job.id ∧ job.attempts ≤ kept.attempts ∧ kept.attempts ≤ 7 := by
  obtain ⟨hid, -, -, -, hattempts⟩ := of_settle h
  obtain ⟨⟨-, -, hlt⟩, -⟩ := settle_eq_some.mp h
  have hseven : job.attempts.toNat < 7 := UInt32.lt_iff_toNat_lt.mp hlt
  refine ⟨hid, UInt32.le_iff_toNat_le.mpr ?_, UInt32.le_iff_toNat_le.mpr ?_⟩
  · omega
  · change kept.attempts.toNat ≤ 7
    omega

end Delays

section Invariant

/-- What holds between two steps: the worker's job is in the list, and every retry is a back-off of
at most the attempts its job has had. -/
structure Inv (s : QueueThreads) : Prop where
  nodup : (s.queue.jobs.map Job.id).Nodup
  known : ∀ job ∈ s.queue.jobs, job.id ∈ s.queue.enqueued
  named : ∀ job ∈ s.queue.jobs, job.id ≠ []
  active : s.active_id = s.queue.active.elim [] Job.id
  listed : ∀ job ∈ s.queue.active, ∃ found ∈ s.queue.jobs, found.id = job.id
  attempts : ∀ job ∈ s.queue.jobs, job.attempts ≤ 7
  retries : ∀ retry ∈ s.retries, retry.id ∈ s.queue.enqueued ∧
    ∃ attempts, retry.delay = backoff retry.retry_seconds attempts ∧
      ∀ job ∈ s.queue.jobs, job.id = retry.id → attempts ≤ job.attempts
  delays : s.retries.Pairwise fun earlier later =>
    earlier.id = later.id → earlier.retry_seconds = later.retry_seconds →
      earlier.delay ≤ later.delay

variable {page : CodePage} {s t : QueueThreads}

/-- Whatever becomes of the file, a completion settles the job and frees the worker. -/
theorem complete_eq (page : CodePage) (queue : UploadQueue) (job : Job) (retry_seconds : UInt32)
    (now : ℤ) (result : UploadResult) :
    ∃ file phase, queue.complete page job retry_seconds now result =
      { queue with
        jobs := UploadQueue.settle_job retry_seconds now job.id result queue.jobs
        active := none
        file
        phase
        outcomes := queue.outcomes ++ [(job.id, result)] } := by
  unfold UploadQueue.complete
  split
  · rename_i habsent
    rw [settle_job_of_absent habsent]
    exact ⟨_, _, rfl⟩
  · cases hsave : UploadQueue.save_locked page
      (UploadQueue.settle_job retry_seconds now job.id result queue.jobs) with
    | some text =>
      simp only [hsave]
      exact ⟨_, _, rfl⟩
    | none =>
      simp only [hsave]
      exact ⟨_, _, rfl⟩

theorem mem_uploaded {job : Job} (h : s.uploaded page = some job) : job ∈ s.queue.active := by
  unfold uploaded at h
  split at h
  · cases h
  · exact (Option.filter_eq_some_iff.mp h).1

/-- A completion finds the worker's job where it stands, and leaves it out or counts the attempt
and schedules the retry. -/
theorem complete_split (hI : Inv s) {job : Job} (hjob : s.uploaded page = some job)
    (clock : Int64) (result : UploadResult) :
    ∃ before found after, s.queue.jobs = before ++ found :: after ∧ found.id = job.id ∧
      UploadQueue.settle_job s.copied.retry_seconds (unix_now clock).toInt job.id result
          s.queue.jobs =
        before ++
          (settle s.copied.retry_seconds (unix_now clock).toInt found result).toList ++ after ∧
      s.retry job clock result =
        ((settle s.copied.retry_seconds (unix_now clock).toInt found result).map fun kept =>
          ⟨kept.id, s.copied.retry_seconds, unix_now clock, kept.next_attempt⟩).toList := by
  obtain ⟨before, found, after, hjobs, hid, hfind, hsettle⟩ :=
    @settle_job_split s.copied.retry_seconds (unix_now clock).toInt _ result _
      (hI.listed job (mem_uploaded hjob))
  refine ⟨before, found, after, hjobs, hid, hsettle, ?_⟩
  rw [retry, hfind, Option.bind_some]

theorem Inv.frame (h : Inv s) (hjobs : t.queue.jobs = s.queue.jobs)
    (henqueued : t.queue.enqueued = s.queue.enqueued) (hactive : t.queue.active = s.queue.active)
    (hid : t.active_id = s.active_id) (hretries : t.retries = s.retries) : Inv t := by
  constructor
  case nodup => rw [hjobs]; exact h.nodup
  case known => rw [hjobs, henqueued]; exact h.known
  case named => rw [hjobs]; exact h.named
  case active => rw [hid, hactive]; exact h.active
  case listed => rw [hjobs, hactive]; exact h.listed
  case attempts => rw [hjobs]; exact h.attempts
  case retries => rw [hjobs, hretries, henqueued]; exact h.retries
  case delays => rw [hretries]; exact h.delays

theorem inv_enqueue (h : Inv s) {job : Job} (hfresh : job.id ∉ s.queue.enqueued)
    (hnamed : job.id ≠ []) (hattempts : job.attempts = 0) :
    Inv { s with queue := s.queue.enqueue page job } := by
  constructor
  case nodup =>
    change ((s.queue.jobs ++ [job]).map Job.id).Nodup
    rw [List.map_append, List.nodup_append]
    refine ⟨h.nodup, by simp, ?_⟩
    rintro a ha b hb rfl
    obtain ⟨old, hold, rfl⟩ := List.mem_map.mp ha
    rw [List.map_singleton, List.mem_singleton] at hb
    exact hfresh (hb ▸ h.known old hold)
  case known =>
    intro j hj
    rcases List.mem_append.mp hj with hj | hj
    · exact List.mem_append_left _ (h.known j hj)
    · rw [List.mem_singleton.mp hj]
      exact List.mem_append_right _ (List.mem_singleton_self _)
  case named =>
    intro j hj
    rcases List.mem_append.mp hj with hj | hj
    · exact h.named j hj
    · rw [List.mem_singleton.mp hj]
      exact hnamed
  case active => exact h.active
  case listed =>
    intro j hj
    obtain ⟨found, hfound, hid⟩ := h.listed j hj
    exact ⟨found, List.mem_append_left _ hfound, hid⟩
  case attempts =>
    intro j hj
    rcases List.mem_append.mp hj with hj | hj
    · exact h.attempts j hj
    · rw [List.mem_singleton.mp hj, hattempts]
      decide
  case retries =>
    intro retry hretry
    obtain ⟨hid, attempts, hdelay, hjobs⟩ := h.retries retry hretry
    refine ⟨List.mem_append_left _ hid, attempts, hdelay, ?_⟩
    intro j hj hjid
    rcases List.mem_append.mp hj with hj | hj
    · exact hjobs j hj hjid
    · rw [List.mem_singleton.mp hj] at hjid
      exact absurd (hjid ▸ hid) hfresh
  case delays => exact h.delays

/-- What a completion makes of the list and which retries it schedules, when it finds a job and some
of it is kept. -/
structure Settled (s : QueueThreads) (jobs : List Job) (scheduled : List Retry) (found : Job)
    (kept : Option Job) : Prop where
  found_mem : found ∈ s.queue.jobs
  nodup : (jobs.map Job.id).Nodup
  of_kept : ∀ job, kept = some job →
    job.id = found.id ∧ found.attempts ≤ job.attempts ∧ job.attempts ≤ 7
  of_mem : ∀ job ∈ jobs, job ∈ s.queue.jobs ∨ kept = some job
  of_scheduled : ∀ retry ∈ scheduled, ∃ job ∈ jobs, kept = some job ∧ retry.id = job.id ∧
    retry.delay = backoff retry.retry_seconds job.attempts
  one : scheduled.length ≤ 1

theorem exists_settled (h : Inv s) {job : Job} (hjob : s.uploaded page = some job) (clock : Int64)
    (result : UploadResult) :
    ∃ found kept, s.Settled
      (UploadQueue.settle_job s.copied.retry_seconds (unix_now clock).toInt job.id result
        s.queue.jobs) (s.retry job clock result) found kept := by
  obtain ⟨before, found, after, hsplit, hid, hsettle, hretry⟩ := complete_split h hjob clock result
  refine ⟨found, settle s.copied.retry_seconds (unix_now clock).toInt found result, ?_⟩
  constructor
  case found_mem => simp [hsplit]
  case nodup => exact UploadQueue.nodup_settle_job h.nodup
  case of_kept => exact fun kept hkept => attempts_of_settle hkept
  case of_mem =>
    intro j hj
    rw [hsettle, List.mem_append, List.mem_append, Option.mem_toList] at hj
    rw [hsplit]
    rcases hj with (hj | hj) | hj
    · exact .inl (List.mem_append_left _ hj)
    · exact .inr hj
    · exact .inl (List.mem_append_right _ (List.mem_cons_of_mem _ hj))
  case of_scheduled =>
    intro retry hmem
    rw [hretry, Option.mem_toList, Option.map_eq_some_iff] at hmem
    obtain ⟨kept, hsome, rfl⟩ := hmem
    refine ⟨kept, by simp [hsettle, hsome], hsome, rfl, ?_⟩
    rw [Retry.delay, settle_next_attempt hsome]
    ring
  case one =>
    rw [hretry]
    cases settle s.copied.retry_seconds (unix_now clock).toInt found result <;> simp

section Settled
variable {jobs : List Job} {scheduled : List Retry} {found : Job} {kept : Option Job}

theorem Settled.exists_old (hs : s.Settled jobs scheduled found kept) {job : Job}
    (hjob : job ∈ jobs) : ∃ old ∈ s.queue.jobs, old.id = job.id ∧ old.attempts ≤ job.attempts := by
  rcases hs.of_mem job hjob with hold | hkept
  · exact ⟨job, hold, rfl, UInt32.le_refl _⟩
  · obtain ⟨hid, hle, -⟩ := hs.of_kept job hkept
    exact ⟨found, hs.found_mem, hid.symm, hle⟩

theorem Settled.retries (hs : s.Settled jobs scheduled found kept) (h : Inv s) {retry : Retry}
    (hretry : retry ∈ s.retries ++ scheduled) :
    retry.id ∈ s.queue.enqueued ∧ ∃ attempts, retry.delay = backoff retry.retry_seconds attempts ∧
      ∀ job ∈ jobs, job.id = retry.id → attempts ≤ job.attempts := by
  rcases List.mem_append.mp hretry with hold | hscheduled
  · obtain ⟨hknown, attempts, hdelay, hbound⟩ := h.retries retry hold
    refine ⟨hknown, attempts, hdelay, fun job hjob hid => ?_⟩
    obtain ⟨old, hmem, holdid, hle⟩ := hs.exists_old hjob
    exact UInt32.le_trans (hbound old hmem (holdid.trans hid)) hle
  · obtain ⟨job, hjob, hkept, hid, hdelay⟩ := hs.of_scheduled retry hscheduled
    refine ⟨?_, job.attempts, hdelay, fun other hother hotherid => ?_⟩
    · rw [hid, (hs.of_kept job hkept).1]
      exact h.known found hs.found_mem
    · rw [List.inj_on_of_nodup_map hs.nodup hother hjob (hotherid.trans hid)]
      exact UInt32.le_refl _

/-- The new retry comes no sooner than those before. -/
theorem Settled.delays (hs : s.Settled jobs scheduled found kept) (h : Inv s) :
    (s.retries ++ scheduled).Pairwise fun earlier later =>
      earlier.id = later.id → earlier.retry_seconds = later.retry_seconds →
        earlier.delay ≤ later.delay := by
  apply List.pairwise_append.mpr
  refine ⟨h.delays, ?_, fun earlier hearlier later hlater hids hseconds => ?_⟩
  · match scheduled, hs.one with
    | [], _ => exact List.Pairwise.nil
    | [retry], _ => exact List.pairwise_singleton _ retry
  · obtain ⟨-, attempts, hdelay, hbound⟩ := h.retries earlier hearlier
    obtain ⟨job, -, hkept, hid, hlaterdelay⟩ := hs.of_scheduled later hlater
    obtain ⟨hfoundid, hle, -⟩ := hs.of_kept job hkept
    have hearlierid : found.id = earlier.id := by rw [hids, hid, hfoundid]
    rw [hdelay, hlaterdelay, hseconds]
    exact backoff_mono _ (UInt32.le_trans (hbound found hs.found_mem hearlierid) hle)

end Settled

/-- A completion keeps the invariant: a job that stays has had one attempt more, and its retry comes
no sooner than those before. -/
theorem inv_complete (h : Inv s) {job : Job} (hjob : s.uploaded page = some job) (clock : Int64)
    (result : UploadResult) {queue : UploadQueue} {last : Option UploadResult}
    {last_metadata : Option EvidenceMetadata}
    (hjobs : queue.jobs = UploadQueue.settle_job s.copied.retry_seconds (unix_now clock).toInt
      job.id result s.queue.jobs)
    (hactive : queue.active = none) (henqueued : queue.enqueued = s.queue.enqueued) :
    Inv
      { s with
        queue
        last
        last_metadata
        active_id := []
        active_phase := []
        retries := s.retries ++ s.retry job clock result } := by
  obtain ⟨found, kept, hs⟩ := exists_settled h hjob clock result
  rw [← hjobs] at hs
  constructor
  case nodup => exact hs.nodup
  case known =>
    intro j hj
    obtain ⟨old, hold, hid, -⟩ := hs.exists_old hj
    change j.id ∈ queue.enqueued
    rw [henqueued, ← hid]
    exact h.known old hold
  case named =>
    intro j hj
    obtain ⟨old, hold, hid, -⟩ := hs.exists_old hj
    rw [← hid]
    exact h.named old hold
  case active =>
    change [] = queue.active.elim [] Job.id
    rw [hactive]
    rfl
  case listed =>
    intro j hj
    change j ∈ queue.active at hj
    simp [hactive] at hj
  case attempts =>
    intro j hj
    rcases hs.of_mem j hj with hold | hkept
    · exact h.attempts j hold
    · exact (hs.of_kept j hkept).2.2
  case retries =>
    intro retry hretry
    change retry.id ∈ queue.enqueued ∧ _
    rw [henqueued]
    exact hs.retries h hretry
  case delays => exact hs.delays h

theorem inv_step (h : Inv s) {event : Event} (hstep : s.step page event = some t) : Inv t := by
  cases event with
  | enqueue pid ticks path metadata clock =>
    simp only [step, Option.ite_none_right_eq_some, Option.some_inj] at hstep
    obtain ⟨⟨-, hfresh⟩, rfl⟩ := hstep
    exact inv_enqueue h hfresh (UploadQueue.job_id_ne_nil pid ticks) rfl
  | configure settings =>
    simp only [step, Option.ite_none_right_eq_some, Option.some_inj] at hstep
    obtain ⟨-, rfl⟩ := hstep
    exact h.frame rfl rfl rfl rfl rfl
  | pick clock file_size =>
    simp only [step, Option.ite_none_right_eq_some, Option.some_inj] at hstep
    obtain ⟨-, rfl⟩ := hstep
    cases hfind : s.queue.jobs.find? fun job => job.next_attempt ≤ unix_now clock with
    | none => exact h.frame rfl rfl rfl rfl rfl
    | some job =>
      refine ⟨h.nodup, h.known, h.named, rfl, ?_, h.attempts, h.retries, h.delays⟩
      rintro picked ⟨⟩
      exact ⟨job, List.mem_of_find?_eq_some hfind, rfl⟩
  | log =>
    simp only [step, Option.ite_none_right_eq_some, Option.some_inj] at hstep
    obtain ⟨-, rfl⟩ := hstep
    exact h.frame rfl rfl rfl rfl rfl
  | sent bytes =>
    obtain ⟨job, -, rfl⟩ := Option.map_eq_some_iff.mp hstep
    exact h.frame rfl rfl rfl rfl rfl
  | total bytes =>
    obtain ⟨job, -, rfl⟩ := Option.map_eq_some_iff.mp hstep
    exact h.frame rfl rfl rfl rfl rfl
  | uploading =>
    obtain ⟨job, -, rfl⟩ := Option.map_eq_some_iff.mp hstep
    exact h.frame rfl rfl rfl rfl rfl
  | complete clock result =>
    obtain ⟨job, hjob, rfl⟩ := Option.map_eq_some_iff.mp hstep
    obtain ⟨file, phase, hqueue⟩ := complete_eq page s.queue job
      s.copied.retry_seconds (unix_now clock).toInt result
    rw [hqueue]
    exact inv_complete h hjob clock result rfl rfl rfl
  | stop =>
    simp only [step, Option.ite_none_right_eq_some, Option.some_inj] at hstep
    obtain ⟨-, rfl⟩ := hstep
    exact h.frame rfl rfl rfl rfl rfl

end Invariant

section Runs
variable {page : CodePage} {s t : QueueThreads}

theorem read_jobs_named (entries : List Json) :
    ∀ job ∈ UploadQueue.read_jobs page entries, job.id ≠ [] := by
  induction entries with
  | nil => simp [UploadQueue.read_jobs]
  | cons entry entries ih =>
    rw [UploadQueue.read_jobs]
    cases UploadQueue.read_job page entry with
    | none => simp
    | some job =>
      simp only
      split_ifs with hnamed
      · rw [List.forall_mem_cons]
        exact ⟨hnamed.1, ih⟩
      · exact ih

theorem load_named (file : Option Bytes) : ∀ job ∈ UploadQueue.load page file, job.id ≠ [] := by
  intro job hjob
  unfold UploadQueue.load at hjob
  split at hjob
  · simp at hjob
  · split at hjob
    · simp at hjob
    · exact read_jobs_named _ job hjob

theorem inv_init {file : Option Bytes} {settings : Config.Broker}
    (hdistinct : ((UploadQueue.load page file).map Job.id).Nodup)
    (hattempts : ∀ job ∈ UploadQueue.load page file, job.attempts ≤ 7) :
    Inv (machine page file settings).init := by
  constructor
  case nodup => exact hdistinct
  case known => exact fun job hjob => List.mem_map_of_mem hjob
  case named => exact load_named file
  case active => rfl
  case listed => simp [machine]
  case attempts => exact hattempts
  case retries => simp [machine]
  case delays => exact List.Pairwise.nil

theorem Inv.active_listed (h : Inv s) (hactive : s.active_id ≠ []) :
    ∃ job ∈ s.queue.jobs, job.id = s.active_id := by
  cases hjob : s.queue.active with
  | none =>
    have hid := h.active
    rw [hjob] at hid
    exact absurd hid hactive
  | some job =>
    obtain ⟨found, hfound, hid⟩ := h.listed job hjob
    refine ⟨found, hfound, ?_⟩
    rw [hid, h.active, hjob]
    rfl

/-- The jobs are the active one, if any, and the others. -/
theorem Inv.length_jobs (h : Inv s) :
    s.queue.jobs.length =
      (if s.active_id ≠ [] then 1 else 0) + s.queue.jobs.countP fun job => s.Other job := by
  rw [List.length_eq_countP_add_countP (fun job : Job => decide (job.id = s.active_id))]
  congr 1
  · split_ifs with hactive
    · exact countP_id h.nodup (h.active_listed hactive)
    · rw [List.countP_eq_zero]
      intro job hjob hid
      rw [not_not] at hactive
      exact h.named job hjob ((of_decide_eq_true hid).trans hactive)
  · apply List.countP_congr
    intro job _
    rw [decide_eq_true_iff, decide_eq_true_iff, decide_eq_true_iff]
    exact Iff.rfl

theorem Inv.pending (h : Inv s) :
    s.status.pending = UInt64.ofNat (s.queue.jobs.countP fun job => s.Other job) := by
  change UInt64.ofNat s.queue.jobs.length - (if s.active_id ≠ [] then 1 else 0) = _
  rw [h.length_jobs, UInt64.ofNat_add]
  split_ifs
  · rw [UInt64.add_comm]
    exact UInt64.add_sub_cancel ..
  · simp

theorem Inv.listChange (h : Inv s) {event : Event} (hstep : s.step page event = some t) :
    s.ListChange t event := by
  cases event with
  | enqueue pid ticks path metadata clock =>
    simp only [step, Option.ite_none_right_eq_some, Option.some_inj] at hstep
    obtain ⟨-, rfl⟩ := hstep
    rfl
  | configure settings =>
    simp only [step, Option.ite_none_right_eq_some, Option.some_inj] at hstep
    obtain ⟨-, rfl⟩ := hstep
    rfl
  | pick clock file_size =>
    simp only [step, Option.ite_none_right_eq_some, Option.some_inj] at hstep
    obtain ⟨-, rfl⟩ := hstep
    change (QueueThreads.queue _).jobs = _
    cases s.queue.jobs.find? fun job => job.next_attempt ≤ unix_now clock <;> rfl
  | log =>
    simp only [step, Option.ite_none_right_eq_some, Option.some_inj] at hstep
    obtain ⟨-, rfl⟩ := hstep
    rfl
  | sent bytes =>
    obtain ⟨job, -, rfl⟩ := Option.map_eq_some_iff.mp hstep
    rfl
  | total bytes =>
    obtain ⟨job, -, rfl⟩ := Option.map_eq_some_iff.mp hstep
    rfl
  | uploading =>
    obtain ⟨job, -, rfl⟩ := Option.map_eq_some_iff.mp hstep
    rfl
  | complete clock result =>
    obtain ⟨job, hjob, rfl⟩ := Option.map_eq_some_iff.mp hstep
    obtain ⟨before, found, after, hjobs, hid, hsettle, -⟩ := complete_split h hjob clock result
    obtain ⟨file, phase, hqueue⟩ := complete_eq page s.queue job
      s.copied.retry_seconds (unix_now clock).toInt result
    refine ⟨before, found, after, hjobs, ?_, ?_⟩
    · rw [h.active, mem_uploaded hjob, hid]
      rfl
    · change (QueueThreads.queue _).jobs = _ ∨ ∃ _, (QueueThreads.queue _).jobs = _ ∧ _
      rw [hqueue]
      simp only
      rw [hsettle]
      cases hkept : settle s.copied.retry_seconds (unix_now clock).toInt found result with
      | none =>
        left
        simp
      | some kept =>
        obtain ⟨hkeptid, hpath, hmetadata, -⟩ := of_settle hkept
        exact .inr ⟨kept, by simp, hkeptid, hpath, hmetadata⟩
  | stop =>
    simp only [step, Option.ite_none_right_eq_some, Option.some_inj] at hstep
    obtain ⟨-, rfl⟩ := hstep
    rfl

theorem Inv.orderly (h : Inv s) : s.Orderly page := by
  constructor
  case active => exact fun hactive => countP_id h.nodup (h.active_listed hactive)
  case no_underflow =>
    rw [h.length_jobs]
    exact Nat.le_add_right ..
  case pending => exact h.pending
  case list => exact fun _ _ hstep => h.listChange hstep
  case attempts => exact h.attempts
  case retries =>
    intro retry hretry
    obtain ⟨-, attempts, hdelay, -⟩ := h.retries retry hretry
    have hnonneg := backoff_nonneg retry.retry_seconds attempts
    have hle := backoff_le retry.retry_seconds attempts
    rw [← hdelay] at hnonneg hle
    exact ⟨Int64.le_iff_toInt_le.mpr (sub_nonneg.mp hnonneg), hle⟩
  case delays => exact h.delays

/-- In every interleaving, from any loaded list of distinct ids and at most seven attempts, the
active id names one job, the count of the others is right, and retries come within the hour. -/
theorem orderly_of_run {file : Option Bytes} {settings : Config.Broker} {es : List Event}
    (hdistinct : ((UploadQueue.load page file).map Job.id).Nodup)
    (hattempts : ∀ job ∈ UploadQueue.load page file, job.attempts ≤ 7)
    (hrun : (machine page file settings).run es = some s) : s.Orderly page :=
  Machine.invariant (M := machine page file settings) (I := Inv)
    (fun _ _ _ hI hstep => inv_step hI hstep) hrun (inv_init hdistinct hattempts) |>.orderly

/-- A job enqueued while another one is uploaded, and a failure whose job is tried again. -/
def sharedRun : List Event :=
  [.enqueue 1 1 [97] {} 0, .pick 0 (some 8), .enqueue 1 2 [98] {} 0, .uploading, .sent 4,
    .configure {}, .complete 10000000 UploadQueue.unavailable, .pick 20000000 (some 8)]

theorem sharedRun_accepted : ((machine .windows1251 none {}).run sharedRun).isSome := by
  decide +kernel

theorem orderly_sharedRun :
    (((machine .windows1251 none {}).run sharedRun).get sharedRun_accepted).Orderly
      .windows1251 :=
  @orderly_of_run .windows1251 _ none {} _ (by decide) (by decide)
    (Option.some_get sharedRun_accepted).symm

end Runs

end QueueThreads
end GambitRecord.Recorder
