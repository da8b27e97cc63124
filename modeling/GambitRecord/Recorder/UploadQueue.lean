import GambitRecord.Library.Runs
import GambitRecord.Recorder.StateFile

/-! # The upload queue

Runs of `UploadQueue` over the lives of the worker: jobs are enqueued, picked,
uploaded and settled, every change is written to the state file, and a new worker
begins with what the file holds. The history keeps the ids of all jobs and the
results of all calls.
-/

namespace GambitRecord.Recorder
open Library Library.Runs Library.DigitText

/-- `stopping` once the stop token is set, `down` once the process has ended. -/
inductive Phase where
  | running | stopping | down
  deriving DecidableEq

structure UploadQueue where
  jobs : List Job := []
  active : Option Job := none
  file : Option Bytes := none
  phase : Phase := .running
  enqueued : List Bytes := []
  outcomes : List (Bytes × UploadResult) := []
  deriving DecidableEq

namespace UploadQueue

/-- The id of a job: the process id and a steady clock count. -/
def job_id (pid : UInt32) (ticks : ℕ) : Bytes :=
  Utf8.encode (decimal pid.toNat ++ '-' :: decimal ticks)

/-- The job with an id after its call; only the first one with it is looked at. -/
def settle_job (retry_seconds : UInt32) (now : ℤ) (id : Bytes) (result : UploadResult) :
    List Job → List Job
  | [] => []
  | job :: jobs =>
    if job.id = id then (settle retry_seconds now job result).toList ++ jobs
    else job :: settle_job retry_seconds now id result jobs

/-- What `upload` returns when it finds the stop token set. -/
def cancelled (upload_id : Text) : UploadResult :=
  { retryable := true, upload_id, error := some .cancelled }

inductive Event where
  | enqueue (pid : UInt32) (ticks : ℕ) (path : WidePath) (metadata : EvidenceMetadata)
      (now : Int64)
  | pick (now : Int64)
  | complete (retry_seconds : UInt32) (now : ℤ) (result : UploadResult)
  | cancel (retry_seconds : UInt32) (now : ℤ) (upload_id : Text)
  | stop
  | restart
  deriving DecidableEq

def new_job (pid : UInt32) (ticks : ℕ) (path : WidePath) (metadata : EvidenceMetadata)
    (now : Int64) : Job :=
  { id := job_id pid ticks, path, metadata, next_attempt := now }

variable (page : CodePage)

/-- An exception in `save_locked` leaves `enqueue`; the job is in the list all the same. -/
def enqueue (queue : UploadQueue) (job : Job) : UploadQueue :=
  { queue with
    jobs := queue.jobs ++ [job]
    file :=
      match save_locked page (queue.jobs ++ [job]) with
      | some text => some (Utf8.encode text)
      | none => queue.file
    enqueued := queue.enqueued ++ [job.id] }

/-- The end of a call: the thread has no handler, so that an exception ends the process. -/
def complete (queue : UploadQueue) (job : Job) (retry_seconds : UInt32) (now : ℤ)
    (result : UploadResult) : UploadQueue :=
  let outcomes := queue.outcomes ++ [(job.id, result)]
  if ∀ j ∈ queue.jobs, j.id ≠ job.id then { queue with active := none, outcomes }
  else
    let jobs := settle_job retry_seconds now job.id result queue.jobs
    match save_locked page jobs with
    | some text => { queue with jobs, active := none, file := some (Utf8.encode text), outcomes }
    | none => { queue with jobs, active := none, phase := .down, outcomes }

/-- New ids are taken to be fresh, and a call is cancelled only during a shutdown. -/
def step (queue : UploadQueue) : Event → Option UploadQueue
  | .enqueue pid ticks path metadata now =>
    if queue.phase = .running ∧ job_id pid ticks ∉ queue.enqueued then
      some (queue.enqueue page (new_job pid ticks path metadata now))
    else none
  | .pick now =>
    if queue.phase = .running ∧ queue.active = none then
      (queue.jobs.find? fun job => job.next_attempt ≤ now).map fun job =>
        -- the log line converts the path
        if (page.encode job.path).isSome then { queue with active := some job }
        else { queue with phase := .down }
    else none
  | .complete retry_seconds now result =>
    if queue.phase ≠ .down ∧ result.error ≠ some .cancelled then
      queue.active.map fun job => queue.complete page job retry_seconds now result
    else none
  | .cancel retry_seconds now upload_id =>
    if queue.phase = .stopping then
      queue.active.map fun job => queue.complete page job retry_seconds now (cancelled upload_id)
    else none
  | .stop => if queue.phase = .running then some { queue with phase := .stopping } else none
  | .restart =>
    some { queue with jobs := load page queue.file, active := none, phase := .running }

def machine : Machine UploadQueue Event where
  init := {}
  step := step page

/-- The failures of a job that its attempts should count. -/
def failures (outcomes : List (Bytes × UploadResult)) (id : Bytes) : ℕ :=
  outcomes.countP fun o =>
    o.1 = id ∧ o.2.success = false ∧ o.2.retryable = true ∧ o.2.error ≠ some .cancelled

/-- A job may have left: it succeeded, it was rejected, or it failed eight times. -/
def MayLeave (outcomes : List (Bytes × UploadResult)) (id : Bytes) : Prop :=
  (∃ o ∈ outcomes, o.1 = id ∧ (o.2.success = true ∨ o.2.retryable = false)) ∨
    8 ≤ failures outcomes id

instance (outcomes : List (Bytes × UploadResult)) : DecidablePred (MayLeave outcomes) :=
  fun _ => inferInstanceAs (Decidable (_ ∨ _))

/-- No job is lost without a reason, and attempts are failures. -/
structure Accounted (queue : UploadQueue) : Prop where
  kept : ∀ id ∈ queue.enqueued, (∃ job ∈ queue.jobs, job.id = id) ∨ MayLeave queue.outcomes id
  counted : ∀ job ∈ queue.jobs, job.attempts.toNat = failures queue.outcomes job.id

/-- No call ends by a shutdown, and the state file can hold every new job. -/
def Undisturbed (_ : UploadQueue) : Event → Prop
  | .enqueue pid ticks path metadata now => Storable page (new_job pid ticks path metadata now)
  | .cancel _ _ _ => False
  | _ => True

instance (queue : UploadQueue) : DecidablePred (Undisturbed page queue)
  | .enqueue pid ticks path metadata now =>
    inferInstanceAs (Decidable (Storable page (new_job pid ticks path metadata now)))
  | .cancel _ _ _ => instDecidableFalse
  | .pick _ | .complete _ _ _ | .stop | .restart => instDecidableTrue

theorem job_id_ne_nil (pid : UInt32) (ticks : ℕ) : job_id pid ticks ≠ [] := by
  intro h
  have hdecode := congrArg Utf8.decode h
  rw [job_id, Utf8.decode_encode, ← Utf8.encode_nil, Utf8.decode_encode] at hdecode
  simp at hdecode

/-- `cancelled` is the result of the upload loop that finds the stop token set. -/
theorem poll_stop {file : List UInt8} {u : Upload} (readable : Bool)
    (h : u.offset < file.length) :
    BrokerUploader.poll file u true readable = .returned (cancelled u.upload_id) := by
  rw [BrokerUploader.poll, if_pos h]
  rfl

section SettleJob
variable {retry_seconds : UInt32} {now : ℤ} {id : Bytes} {result : UploadResult} {jobs : List Job}

/-- With distinct ids, settling a call concerns exactly the job with its id. -/
theorem settle_job_eq (h : (jobs.map Job.id).Nodup) :
    settle_job retry_seconds now id result jobs =
      jobs.filterMap fun job =>
        if job.id = id then settle retry_seconds now job result else some job := by
  induction jobs with
  | nil => rfl
  | cons job jobs ih =>
    rw [List.map_cons, List.nodup_cons] at h
    rw [settle_job, List.filterMap_cons]
    by_cases hid : job.id = id
    · have hrest : (jobs.filterMap fun job =>
          if job.id = id then settle retry_seconds now job result else some job) = jobs := by
        have hother : ∀ j ∈ jobs, j.id ≠ id := by
          rintro j hj rfl
          exact h.1 (List.mem_map.mpr ⟨j, hj, hid.symm⟩)
        rw [List.filterMap_congr (g := some) fun j hj => if_neg (hother j hj), List.filterMap_some]
      rw [if_pos hid, if_pos hid, hrest]
      cases settle retry_seconds now job result <;> rfl
    · rw [if_neg hid, if_neg hid, ih h.2]

theorem mem_settle_job (h : (jobs.map Job.id).Nodup) {j : Job} :
    j ∈ settle_job retry_seconds now id result jobs ↔
      ∃ job ∈ jobs, (if job.id = id then settle retry_seconds now job result else some job) =
        some j := by
  rw [settle_job_eq h, List.mem_filterMap]

theorem nodup_settle_job (h : (jobs.map Job.id).Nodup) :
    ((settle_job retry_seconds now id result jobs).map Job.id).Nodup := by
  apply List.Nodup.sublist _ h
  induction jobs with
  | nil => exact List.Sublist.refl _
  | cons job jobs ih =>
    rw [List.map_cons, List.nodup_cons] at h
    rw [settle_job]
    split
    · cases hsettle : settle retry_seconds now job result with
      | none => simp
      | some j =>
        rw [Option.toList_some, List.singleton_append, List.map_cons, List.map_cons,
          (of_settle hsettle).1]
    · rw [List.map_cons, List.map_cons]
      exact (ih h.2).cons_cons _

end SettleJob

section History
variable {outcomes : List (Bytes × UploadResult)} {o : Bytes × UploadResult} {id : Bytes}

theorem failures_concat :
    failures (outcomes ++ [o]) id = failures outcomes id +
      if o.1 = id ∧ o.2.success = false ∧ o.2.retryable = true ∧ o.2.error ≠ some .cancelled
      then 1 else 0 := by
  rw [failures, failures, List.countP_append, List.countP_singleton]
  simp only [decide_eq_true_eq]

theorem failures_concat_of_ne (h : o.1 ≠ id) :
    failures (outcomes ++ [o]) id = failures outcomes id := by
  rw [failures_concat, if_neg (fun hc => h hc.1), Nat.add_zero]

theorem MayLeave.concat (h : MayLeave outcomes id) : MayLeave (outcomes ++ [o]) id := by
  rcases h with ⟨p, hp, hreason⟩ | hfailed
  · exact .inl ⟨p, List.mem_append_left _ hp, hreason⟩
  · apply Or.inr
    rw [failures_concat]
    omega

theorem failures_of_fresh {enqueued : List Bytes} (h : ∀ o ∈ outcomes, o.1 ∈ enqueued)
    (hid : id ∉ enqueued) : failures outcomes id = 0 := by
  rw [failures, List.countP_eq_zero]
  intro o ho hcounted
  rw [decide_eq_true_eq] at hcounted
  exact hid (hcounted.1 ▸ h o ho)

end History

/-- What holds between two steps of an undisturbed run. -/
structure Inv (queue : UploadQueue) : Prop where
  storable : ∀ job ∈ queue.jobs, Storable page job
  file : load page queue.file = queue.jobs
  up : queue.phase ≠ .down
  nodup : (queue.jobs.map Job.id).Nodup
  known : ∀ job ∈ queue.jobs, job.id ∈ queue.enqueued
  active : ∀ job ∈ queue.active, job.id ∈ queue.enqueued
  outcomes : ∀ o ∈ queue.outcomes, o.1 ∈ queue.enqueued
  accounted : queue.Accounted

variable {page} {queue : UploadQueue}

theorem storable_settle {retry_seconds : UInt32} {now : ℤ} {job j : Job} {result : UploadResult}
    (h : Storable page job) (hsettle : settle retry_seconds now job result = some j) :
    Storable page j := by
  rcases of_settle hsettle with ⟨hid, hpath, hmetadata, hupload, -⟩
  refine ⟨by rw [hid]; exact h.id, by rw [hpath]; exact h.path, ?_, by rw [hpath]; exact h.narrow⟩
  intro s hs
  rw [hid, hmetadata, hupload, List.cons_append, List.cons_append, List.mem_cons,
    List.mem_cons] at hs
  rcases hs with rfl | rfl | hs
  · exact h.strings _ (by simp)
  · exact Utf8.valid_encode _
  · exact h.strings _ (by simp [List.nil_append] at hs ⊢; tauto)

theorem inv_enqueue {job : Job} (h : Inv page queue) (hjob : Storable page job)
    (hfresh : job.id ∉ queue.enqueued) (hattempts : job.attempts = 0) :
    Inv page (queue.enqueue page job) := by
  have hstorable : ∀ j ∈ queue.jobs ++ [job], Storable page j := by
    intro j hj
    rcases List.mem_append.mp hj with hj | hj
    · exact h.storable j hj
    · rw [List.mem_singleton.mp hj]
      exact hjob
  rcases restores_of_storable hstorable with ⟨text, hsave, hload⟩
  constructor
  case storable => exact hstorable
  case file => simpa [enqueue, hsave] using hload
  case up => exact h.up
  case nodup =>
    rw [enqueue, List.map_append, List.nodup_append]
    refine ⟨h.nodup, by simp, ?_⟩
    rintro a ha b hb rfl
    rcases List.mem_map.mp ha with ⟨j, hj, rfl⟩
    rw [List.map_singleton, List.mem_singleton] at hb
    exact hfresh (hb ▸ h.known j hj)
  case known =>
    intro j hj
    rcases List.mem_append.mp hj with hj | hj
    · exact List.mem_append_left _ (h.known j hj)
    · rw [List.mem_singleton.mp hj]
      exact List.mem_append_right _ (List.mem_singleton_self _)
  case active => exact fun j hj => List.mem_append_left _ (h.active j hj)
  case outcomes => exact fun o ho => List.mem_append_left _ (h.outcomes o ho)
  case accounted =>
    constructor
    · intro id hid
      rcases List.mem_append.mp hid with hid | hid
      · rcases h.accounted.kept id hid with ⟨j, hj, hjid⟩ | hleft
        · exact .inl ⟨j, List.mem_append_left _ hj, hjid⟩
        · exact .inr hleft
      · refine .inl ⟨job, List.mem_append_right _ (List.mem_singleton_self _), ?_⟩
        exact (List.mem_singleton.mp hid).symm
    · intro j hj
      rcases List.mem_append.mp hj with hj | hj
      · exact h.accounted.counted j hj
      · rw [List.mem_singleton.mp hj, hattempts]
        exact (failures_of_fresh h.outcomes hfresh).symm

/-- A call that ends for another reason than a shutdown is accounted for. -/
theorem accounted_settle (retry_seconds : UInt32) (now : ℤ) (id : Bytes) {result : UploadResult}
    (h : Inv page queue) (hresult : result.error ≠ some .cancelled) :
    Accounted
      { queue with
        jobs := settle_job retry_seconds now id result queue.jobs
        outcomes := queue.outcomes ++ [(id, result)] } := by
  constructor
  · intro k hk
    rcases h.accounted.kept k hk with ⟨job, hjob, rfl⟩ | hleft
    · by_cases hid : job.id = id
      · cases hsettle : settle retry_seconds now job result with
        | some j =>
          refine .inl ⟨j, (mem_settle_job h.nodup).mpr ⟨job, hjob, ?_⟩, (of_settle hsettle).1⟩
          rw [if_pos hid, hsettle]
        | none =>
          right
          by_cases hsuccess : result.success = true
          · exact .inl ⟨(id, result), by simp, hid.symm, .inl hsuccess⟩
          · by_cases hretryable : result.retryable = true
            · right
              have hcount := h.accounted.counted job hjob
              have hseven : ¬ job.attempts < 7 := fun hlt =>
                settle_eq_none.mp hsettle ⟨by simpa using hsuccess, hretryable, hlt⟩
              rw [UInt32.lt_iff_toNat_lt] at hseven
              have hattempts : 7 ≤ job.attempts.toNat := Nat.le_of_not_lt hseven
              rw [failures_concat, if_pos ⟨hid.symm, by simpa using hsuccess, hretryable, hresult⟩]
              omega
            · exact .inl ⟨(id, result), by simp, hid.symm, .inr (by simpa using hretryable)⟩
      · refine .inl ⟨job, (mem_settle_job h.nodup).mpr ⟨job, hjob, ?_⟩, rfl⟩
        rw [if_neg hid]
    · exact .inr hleft.concat
  · intro j hj
    rcases (mem_settle_job h.nodup).mp hj with ⟨job, hjob, hj⟩
    have hcount := h.accounted.counted job hjob
    by_cases hid : job.id = id
    · rw [if_pos hid] at hj
      rcases settle_eq_some.mp hj with ⟨⟨hsuccess, hretryable, -⟩, -⟩
      rcases of_settle hj with ⟨hjid, -, -, -, hattempts⟩
      rw [hattempts, hcount, hjid, failures_concat,
        if_pos ⟨hid.symm, hsuccess, hretryable, hresult⟩]
    · rw [if_neg hid, Option.some_inj] at hj
      rw [← hj, hcount, failures_concat_of_ne (Ne.symm hid)]

theorem inv_complete {job : Job} {retry_seconds : UInt32} {now : ℤ} {result : UploadResult}
    (h : Inv page queue) (hactive : job ∈ queue.active)
    (hresult : result.error ≠ some .cancelled) :
    Inv page (queue.complete page job retry_seconds now result) := by
  have hknown := h.active job hactive
  have houtcomes : ∀ o ∈ queue.outcomes ++ [(job.id, result)], o.1 ∈ queue.enqueued := by
    intro o ho
    rcases List.mem_append.mp ho with ho | ho
    · exact h.outcomes o ho
    · rw [List.mem_singleton.mp ho]
      exact hknown
  have haccounted := accounted_settle retry_seconds now job.id h hresult
  have hmem : ∀ j ∈ settle_job retry_seconds now job.id result queue.jobs,
      ∃ old ∈ queue.jobs, j.id = old.id ∧ Storable page j := by
    intro j hj
    rcases (mem_settle_job h.nodup).mp hj with ⟨old, hold, hj⟩
    by_cases hid : old.id = job.id
    · rw [if_pos hid] at hj
      exact ⟨old, hold, (of_settle hj).1, storable_settle (h.storable old hold) hj⟩
    · rw [if_neg hid, Option.some_inj] at hj
      rw [← hj]
      exact ⟨old, hold, rfl, h.storable old hold⟩
  unfold complete
  by_cases habsent : ∀ j ∈ queue.jobs, j.id ≠ job.id
  · have hsame : settle_job retry_seconds now job.id result queue.jobs = queue.jobs := by
      rw [settle_job_eq h.nodup,
        List.filterMap_congr (g := some) fun j hj => if_neg (habsent j hj), List.filterMap_some]
    rw [hsame] at haccounted
    rw [if_pos habsent]
    exact ⟨h.storable, h.file, h.up, h.nodup, h.known, by simp, houtcomes,
      ⟨haccounted.kept, haccounted.counted⟩⟩
  · have hstorable : ∀ j ∈ settle_job retry_seconds now job.id result queue.jobs,
        Storable page j := by
      intro j hj
      rcases hmem j hj with ⟨-, -, -, hj⟩
      exact hj
    rcases restores_of_storable hstorable with ⟨text, hsave, hload⟩
    rw [if_neg habsent]
    simp only [hsave]
    refine ⟨hstorable, hload, h.up, nodup_settle_job h.nodup, ?_, by simp, houtcomes,
      ⟨haccounted.kept, haccounted.counted⟩⟩
    intro j hj
    rcases hmem j hj with ⟨old, hold, hid, -⟩
    rw [hid]
    exact h.known old hold

inductive Stepped (page : CodePage) (queue : UploadQueue) : Event → UploadQueue → Prop
  | enqueue {pid ticks path metadata now} (hphase : queue.phase = .running)
      (hfresh : job_id pid ticks ∉ queue.enqueued) :
      Stepped page queue (.enqueue pid ticks path metadata now)
        (queue.enqueue page (new_job pid ticks path metadata now))
  | pick {now job} (hphase : queue.phase = .running) (hidle : queue.active = none)
      (hjob : queue.jobs.find? (fun job => job.next_attempt ≤ now) = some job)
      (hnarrow : (page.encode job.path).isSome) :
      Stepped page queue (.pick now) { queue with active := some job }
  | threw {now job} (hphase : queue.phase = .running) (hidle : queue.active = none)
      (hjob : queue.jobs.find? (fun job => job.next_attempt ≤ now) = some job)
      (hnarrow : ¬ (page.encode job.path).isSome) :
      Stepped page queue (.pick now) { queue with phase := .down }
  | complete {retry_seconds now result job} (hphase : queue.phase ≠ .down)
      (hresult : result.error ≠ some .cancelled) (hactive : queue.active = some job) :
      Stepped page queue (.complete retry_seconds now result)
        (queue.complete page job retry_seconds now result)
  | cancel {retry_seconds now upload_id job} (hphase : queue.phase = .stopping)
      (hactive : queue.active = some job) :
      Stepped page queue (.cancel retry_seconds now upload_id)
        (queue.complete page job retry_seconds now (cancelled upload_id))
  | stop (hphase : queue.phase = .running) :
      Stepped page queue .stop { queue with phase := .stopping }
  | restart :
      Stepped page queue .restart
        { queue with jobs := load page queue.file, active := none, phase := .running }

theorem step_cases {t : UploadQueue} {event : Event} (h : queue.step page event = some t) :
    Stepped page queue event t := by
  cases event with
  | enqueue pid ticks path metadata now =>
    simp only [step] at h
    split_ifs at h with hguard
    cases h
    exact .enqueue hguard.1 hguard.2
  | pick now =>
    simp only [step] at h
    split_ifs at h with hguard
    rcases Option.map_eq_some_iff.mp h with ⟨job, hjob, rfl⟩
    split_ifs with hnarrow
    · exact .pick hguard.1 hguard.2 hjob hnarrow
    · exact .threw hguard.1 hguard.2 hjob hnarrow
  | complete retry_seconds now result =>
    simp only [step] at h
    split_ifs at h with hguard
    rcases Option.map_eq_some_iff.mp h with ⟨job, hjob, rfl⟩
    exact .complete hguard.1 hguard.2 hjob
  | cancel retry_seconds now upload_id =>
    simp only [step] at h
    split_ifs at h with hguard
    rcases Option.map_eq_some_iff.mp h with ⟨job, hjob, rfl⟩
    exact .cancel hguard hjob
  | stop =>
    simp only [step] at h
    split_ifs at h with hguard
    cases h
    exact .stop hguard
  | restart =>
    cases h
    exact .restart

theorem inv_restart (h : Inv page queue) :
    Inv page { queue with jobs := load page queue.file, active := none, phase := .running } := by
  rw [h.file]
  exact ⟨h.storable, h.file, by simp, h.nodup, h.known, by simp, h.outcomes,
    ⟨h.accounted.kept, h.accounted.counted⟩⟩

theorem inv_step {t : UploadQueue} {event : Event} (h : Inv page queue)
    (hC : Undisturbed page queue event) (hstep : queue.step page event = some t) : Inv page t := by
  cases step_cases hstep with
  | enqueue _ hfresh => exact inv_enqueue h hC hfresh rfl
  | @pick _ job _ _ hjob =>
    refine ⟨h.storable, h.file, h.up, h.nodup, h.known, ?_, h.outcomes,
      ⟨h.accounted.kept, h.accounted.counted⟩⟩
    rintro j ⟨⟩
    exact h.known job (List.mem_of_find?_eq_some hjob)
  | @threw _ job _ _ hjob hnarrow =>
    rcases (h.storable job (List.mem_of_find?_eq_some hjob)).narrow with ⟨bytes, hbytes, -⟩
    exact absurd (Option.isSome_of_mem hbytes) hnarrow
  | complete _ hresult hactive => exact inv_complete h hactive hresult
  | cancel _ _ => exact absurd hC id
  | stop _ =>
    exact ⟨h.storable, h.file, by simp, h.nodup, h.known, h.active, h.outcomes,
      ⟨h.accounted.kept, h.accounted.counted⟩⟩
  | restart => exact inv_restart h

theorem inv_run {es : List Event} (hrun : (machine page).run es = some queue)
    (hC : (machine page).Along (Undisturbed page) (machine page).init es) : Inv page queue := by
  have hinit : Inv page (machine page).init := by
    constructor <;> first | rfl | simp [machine]
    constructor <;> simp
  exact Machine.invariant_along (I := Inv page)
    (fun _ _ _ hI hC hstep => inv_step hI hC hstep) hC hrun hinit

/-- In every run without a call that ends by a shutdown, whose jobs the state file can hold, every
job that has left the queue had a reason and every attempt is a failure. -/
theorem accounted_of_undisturbed {es : List Event} {queue : UploadQueue}
    (hrun : (machine page).run es = some queue)
    (hC : (machine page).Along (Undisturbed page) (machine page).init es) : queue.Accounted :=
  (inv_run hrun hC).accounted

theorem along_undisturbed {es : List Event} (h : ∀ e ∈ es, Undisturbed page {} e) :
    (machine page).Along (Undisturbed page) queue es :=
  Machine.along_of_forall h

theorem step_restart (h : Inv page queue) :
    (machine page).step queue .restart =
      some { queue with active := none, phase := .running } := by
  change some { queue with jobs := load page queue.file, active := none, phase := .running } = _
  rw [h.file]

def enqueueA : Event := .enqueue 1 1 [97] {} 0

def unavailable : UploadResult := { retryable := true, error := some .brokerUnavailable }

def published : UploadResult := { success := true, url := ['u'] }

def restartRun : List Event :=
  [enqueueA, .pick 0, .complete 30 0 unavailable, .stop, .restart, .pick 60,
    .complete 30 60 published]

def shutdownRun : List Event :=
  enqueueA :: ([0, 10000, 20000, 30000, 40000, 50000, 60000].flatMap fun now =>
    [.pick (Int64.ofInt now), .complete 30 now unavailable]) ++
    [.pick 70000, .stop, .cancel 30 70000 []]

theorem failure_accepted : ((machine .windows1251).run (restartRun.take 4)).isSome := by
  decide +kernel

theorem restartRun_undisturbed : ∀ e ∈ restartRun, Undisturbed .windows1251 {} e := by
  decide +kernel

theorem restartRun_accepted : ((machine .windows1251).run restartRun).isSome := by
  have hfirst := (Option.some_get failure_accepted).symm
  have hinv := inv_run hfirst (along_undisturbed fun e he =>
    restartRun_undisturbed e (List.mem_of_mem_take he))
  have hsplit : restartRun = restartRun.take 4 ++ .restart :: restartRun.drop 5 := rfl
  rw [Machine.run, hsplit, Machine.runFrom_append, ← Machine.run, hfirst, Option.bind_some,
    Machine.runFrom, step_restart hinv, Option.bind_some]
  decide +kernel

theorem shutdownRun_accepted : ((machine .windows1251).run shutdownRun).isSome := by decide +kernel

theorem accounted_restartRun :
    (((machine .windows1251).run restartRun).get restartRun_accepted).Accounted :=
  accounted_of_undisturbed (Option.some_get restartRun_accepted).symm
    (along_undisturbed restartRun_undisturbed)

/-- The shutdown discards the job after seven failures. -/
theorem not_alwaysAccounted :
    ¬ ∀ (page : CodePage) (es : List Event) (queue : UploadQueue),
      (machine page).run es = some queue → queue.Accounted := by
  intro hall
  have hrun := (Option.some_get shutdownRun_accepted).symm
  have hkept := (hall _ _ _ hrun).kept (job_id 1 1) (by decide +kernel)
  revert hkept
  decide +kernel

end UploadQueue
end GambitRecord.Recorder
