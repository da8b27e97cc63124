import GambitRecord.Recorder.IpcServer
import GambitRecord.Recorder.StateSave
import GambitRecord.Recorder.UploadQueue

/-! # The answer to `record_stop` and its effect

The command queues the upload of the recording before it answers: `enqueue` puts
the job in the list and saves the list, and what is thrown there or in the
archive clean-up behind it becomes `BAD_REQUEST`. A save that fails without an
exception goes unnoticed.
-/

namespace GambitRecord.Recorder
open Library Library.DigitText

/-- The queue's list in memory and its files. -/
structure QueueState where
  jobs : List Job
  files : StateFiles
  deriving DecidableEq

/-- A `record_stop` with all that it finds: what the other components answer, the queue, the parts
of a new id and the time, what the file system does when the queue is saved, and the text of an
exception there. -/
structure StopCall where
  components : Components
  request : Json
  queue : QueueState
  pid : UInt32
  ticks : ℕ
  now : Int64
  answers : SaveAnswers
  what : Bytes

namespace StopCall
open Responses
variable (page : CodePage) (exceptions : Exceptions) (call : StopCall)

/-- `enqueue` throws when the directory cannot be made, a path has no narrow form or a string is
not UTF-8. -/
def Throws (job : Job) : Prop :=
  call.answers.directory = false ∨ UploadQueue.save_locked page (call.queue.jobs ++ [job]) = none

instance (job : Job) : Decidable (call.Throws page job) :=
  inferInstanceAs (Decidable (_ ∨ _))

/-- The job is in the list before the list is saved. -/
def enqueue (job : Job) : Except Bytes Bytes × QueueState :=
  (if call.Throws page job then .error call.what else .ok job.id,
    ⟨call.queue.jobs ++ [job],
      UploadQueue.save_locked_files page (call.queue.jobs ++ [job]) call.queue.files call.answers⟩)

/-- The recording and its metadata, when `record_stop` gets as far as `enqueue`. -/
def queued_upload (c : Components) (request : Json) : Option (WidePath × EvidenceMetadata) :=
  if c.recording_state = .Stopped then none
  else do
    let path ← c.recording_stop.toOption
    let _ ← (narrow page exceptions path).toOption
    let upload ← (member exceptions request "upload" "boolean" true Json.getBool).toOption
    if queues c path upload then
      let metadata ← (parse_metadata exceptions request).toOption
      some (path, metadata)
    else none

def enqueued : Option Job :=
  (queued_upload page exceptions call.components call.request).map fun upload =>
    UploadQueue.new_job call.pid call.ticks upload.1 upload.2 call.now

/-- The components, with the queue's answer for the job. -/
def answered : Components :=
  match call.enqueued page exceptions with
  | some job => { call.components with enqueue := (call.enqueue page job).1 }
  | none => call.components

def response : Json :=
  IpcServer.response
    (record_stop page exceptions (call.answered page exceptions) call.request)

def after : QueueState :=
  match call.enqueued page exceptions with
  | some job => (call.enqueue page job).2
  | none => call.queue

def ReportsFailure (response : Json) : Prop :=
  response.find? (Utf8.bytes "success") = some (.ofBool false)

def ReportsQueued (response : Json) (id : Bytes) : Prop :=
  response.find? (Utf8.bytes "upload_queued") = some (.ofBool true) ∧
    response.find? (Utf8.bytes "upload_id") = some (.string id)

def Holds (file : Option Bytes) (id : Bytes) : Prop :=
  ∃ job ∈ UploadQueue.load_file page file, job.id = id

/-- A reported failure has added no job, a reported job is in the list and in the file, and an
`enqueue` that throws leaves the list as it was. -/
structure Agrees : Prop where
  failure : ReportsFailure (call.response page exceptions) →
    (call.after page exceptions).jobs = call.queue.jobs ∧
      UploadQueue.load_file page (call.after page exceptions).files.state =
        UploadQueue.load_file page call.queue.files.state
  queued : ∀ id, ReportsQueued (call.response page exceptions) id →
    (∃ job ∈ (call.after page exceptions).jobs, job.id = id) ∧
      Holds page (call.after page exceptions).files.state id
  unchanged : ∀ job ∈ call.enqueued page exceptions, call.Throws page job →
    (call.after page exceptions).jobs = call.queue.jobs

/-- The file that a save leaves holds the id: the new file is renamed and lacks the last new line
at most, or what is in its place has the id already. -/
def Kept (job : Job) : Prop :=
  if call.answers.renames then
    if call.answers.opens then
      UploadQueue.disk_size page (call.queue.jobs ++ [job]) ≤ call.answers.written + 2
    else Holds page (call.queue.files.temporary.or call.queue.files.state) job.id
  else Holds page call.queue.files.state job.id

/-- The command gets as far as `enqueue` only if nothing fails from there on. -/
def Undisturbed : Prop :=
  ∀ job ∈ call.enqueued page exceptions, ¬ call.Throws page job ∧
    call.components.enforce_archive_limit = .ok () ∧ call.Kept page job

variable {page exceptions call}

def queued_response (bytes id : Bytes) : Json :=
  .object
    [(Utf8.bytes "message", .string (Utf8.bytes "Recording stopped")),
      (Utf8.bytes "path", .string bytes),
      (Utf8.bytes "success", .ofBool true),
      (Utf8.bytes "upload_id", .string id),
      (Utf8.bytes "upload_queued", .ofBool true)]

theorem reportsQueued_queued_response {bytes id id' : Bytes} :
    ReportsQueued (queued_response bytes id) id' ↔ id = id' := by
  simp [ReportsQueued, queued_response, Json.find?, Utf8.bytes_inj]

theorem not_reportsFailure_queued_response {bytes id : Bytes} :
    ¬ ReportsFailure (queued_response bytes id) := by
  simp [ReportsFailure, queued_response, Json.find?, Utf8.bytes_inj, Json.ofBool]

theorem not_reportsQueued_bad_request {what id : Bytes} :
    ¬ ReportsQueued (IpcServer.bad_request what) id := by
  simp [ReportsQueued, IpcServer.bad_request, Json.find?, Utf8.bytes_inj]

theorem reportsFailure_bad_request {what : Bytes} :
    ReportsFailure (IpcServer.bad_request what) := by
  simp [ReportsFailure, IpcServer.bad_request, Json.find?]

theorem not_reportsQueued_upload_members {c : Components} {path : WidePath} {bytes id : Bytes}
    {upload : Bool} :
    ¬ ReportsQueued
      (.object
        ([(Utf8.bytes "message", .string
            (if path = [] then Utf8.bytes "Recording stop failed"
              else Utf8.bytes "Recording stopped")),
          (Utf8.bytes "path", .string bytes),
          (Utf8.bytes "success", .ofBool (path ≠ []))] ++ upload_members c upload none)) id := by
  cases upload <;> simp [ReportsQueued, upload_members, Json.find?, Json.ofBool]

/-- Without an upload no response reports one; with one, the response is what the queue and the
archive clean-up leave of it. -/
theorem record_stop_cases (page : CodePage) (exceptions : Exceptions) (c : Components)
    (request : Json) :
    (queued_upload page exceptions c request = none ∧
      ∀ id, ¬ ReportsQueued (IpcServer.response (record_stop page exceptions c request)) id) ∨
    ∃ path metadata bytes, queued_upload page exceptions c request = some (path, metadata) ∧
      path ≠ [] ∧ record_stop page exceptions c request =
        (c.enqueue >>= fun id => c.enforce_archive_limit >>= fun _ =>
          .ok (queued_response bytes id)) := by
  unfold queued_upload record_stop
  by_cases hstate : c.recording_state = .Stopped
  · left
    simp [hstate, IpcServer.response, failure, ReportsQueued, Json.find?, Utf8.bytes_inj]
  · rw [if_neg hstate, if_neg hstate]
    cases c.recording_stop with
    | error what => exact .inl ⟨rfl, fun _ => not_reportsQueued_bad_request⟩
    | ok path =>
      simp only [ok_bind, Except.toOption, Option.bind_eq_bind, Option.bind_some]
      cases narrow page exceptions path with
      | error what => exact .inl ⟨rfl, fun _ => not_reportsQueued_bad_request⟩
      | ok bytes =>
        simp only [ok_bind, Option.bind_some]
        cases member exceptions request "upload" "boolean" true Json.getBool with
        | error what => exact .inl ⟨rfl, fun _ => not_reportsQueued_bad_request⟩
        | ok upload =>
          simp only [ok_bind, Option.bind_some]
          by_cases hqueues : queues c path upload = true
          · have hpath : path ≠ [] := by
              simp only [queues, decide_eq_true_eq] at hqueues
              exact hqueues.1
            simp only [hqueues, if_true, queue_upload, hpath, limit_archive, if_false]
            cases parse_metadata exceptions request with
            | error what => exact .inl ⟨rfl, fun _ => not_reportsQueued_bad_request⟩
            | ok metadata =>
              refine .inr ⟨path, metadata, bytes, rfl, hpath, ?_⟩
              cases c.enqueue with
              | error what => rfl
              | ok id =>
                cases c.enforce_archive_limit with
                | error what => rfl
                | ok _ => simp only [ok_bind, decide_true, ne_eq, hpath, not_false_eq_true]; rfl
          · left
            simp only [hqueues, queue_upload]
            refine ⟨rfl, fun id => ?_⟩
            cases limit_archive c path with
            | error what => exact not_reportsQueued_bad_request
            | ok _ => exact not_reportsQueued_upload_members

/-- What a save that does not throw leaves in the state file has the job exactly when it is kept. -/
theorem holds_saved_iff {job : Job} (hid : job.id ≠ []) (hpath : job.path ≠ [])
    (h : ¬ call.Throws page job) :
    Holds page (call.enqueue page job).2.files.state job.id ↔ call.Kept page job := by
  simp only [Throws, not_or, Bool.not_eq_false] at h
  obtain ⟨hdir, hsave⟩ := h
  obtain ⟨text, htext⟩ := Option.ne_none_iff_exists'.mp hsave
  change Holds page (UploadQueue.save_locked_files page (call.queue.jobs ++ [job])
    call.queue.files call.answers).state job.id ↔ _
  unfold Kept
  by_cases hrenames : call.answers.renames = true
  · rw [if_pos hrenames, UploadQueue.save_locked_files_state hdir htext hrenames]
    by_cases hopens : call.answers.opens = true
    · rw [if_pos hopens, if_pos hopens, UploadQueue.disk_size, htext]
      by_cases hwhole : (UploadQueue.raw text).length ≤ call.answers.written + 2
      · apply iff_of_true _ hwhole
        obtain ⟨hload, -⟩ := UploadQueue.load_file_of_le htext hwhole
        refine ⟨job, ?_, rfl⟩
        rw [hload, List.mem_filter]
        exact ⟨by simp, decide_eq_true ⟨hid, hpath⟩⟩
      · apply iff_of_false _ hwhole
        rintro ⟨found, hfound, -⟩
        have hnone := UploadQueue.parse_of_lt htext (Nat.lt_of_not_le hwhole)
        rw [UploadQueue.load_file, Option.map_some, UploadQueue.load, Option.bind_some,
          hnone] at hfound
        cases hfound
    · rw [if_neg hopens, if_neg hopens]
  · rw [if_neg hrenames, UploadQueue.save_locked_files_state_of_none]
    exact fun _ hmove => absurd hmove hrenames

theorem queued_upload_answered :
    queued_upload page exceptions (call.answered page exceptions) call.request =
      queued_upload page exceptions call.components call.request := by
  unfold answered
  cases call.enqueued page exceptions <;> rfl

theorem answered_of_enqueued {job : Job} (h : call.enqueued page exceptions = some job) :
    (call.answered page exceptions).enqueue = (call.enqueue page job).1 ∧
      (call.answered page exceptions).enforce_archive_limit =
        call.components.enforce_archive_limit := by
  rw [answered, h]
  exact ⟨rfl, rfl⟩

theorem not_reportsQueued_of_none (h : call.enqueued page exceptions = none) (id : Bytes) :
    ¬ ReportsQueued (call.response page exceptions) id := by
  rcases record_stop_cases page exceptions (call.answered page exceptions) call.request with
    ⟨-, hnot⟩ | ⟨path, metadata, bytes, hupload, -, -⟩
  · exact hnot id
  · rw [queued_upload_answered] at hupload
    simp [enqueued, hupload] at h

/-- A job to enqueue has a name and a path, and the response is what the queue and the archive
clean-up leave of it. -/
theorem response_of_enqueued {job : Job} (h : call.enqueued page exceptions = some job) :
    job.id ≠ [] ∧ job.path ≠ [] ∧ ∃ bytes, call.response page exceptions = IpcServer.response
      ((call.enqueue page job).1 >>= fun id =>
        call.components.enforce_archive_limit >>= fun _ => .ok (queued_response bytes id)) := by
  rcases record_stop_cases page exceptions (call.answered page exceptions) call.request with
    ⟨hnone, -⟩ | ⟨path, metadata, bytes, hupload, hpath, hresponse⟩
  · rw [queued_upload_answered] at hnone
    simp [enqueued, hnone] at h
  · obtain ⟨hid, hlimit⟩ := answered_of_enqueued h
    rw [hid, hlimit] at hresponse
    rw [queued_upload_answered] at hupload
    rw [enqueued, hupload] at h
    cases h
    exact ⟨UploadQueue.job_id_ne_nil _ _, hpath, bytes, congrArg IpcServer.response hresponse⟩

theorem jobs_after {job : Job} (h : call.enqueued page exceptions = some job) :
    (call.after page exceptions).jobs = call.queue.jobs ++ [job] := by
  rw [after, h]
  rfl

theorem not_agrees_of_reportsFailure {job : Job} (h : call.enqueued page exceptions = some job)
    (hreports : ReportsFailure (call.response page exceptions)) :
    ¬ call.Agrees page exceptions := by
  intro hagrees
  have hsame := (hagrees.failure hreports).1
  rw [jobs_after h] at hsame
  simp at hsame

/-- When nothing fails, the answer agrees with the effect exactly when the file has the job. -/
theorem agrees_iff_holds {job : Job} {bytes : Bytes}
    (henqueued : call.enqueued page exceptions = some job) (hthrows : ¬ call.Throws page job)
    (hresponse : call.response page exceptions = queued_response bytes job.id) :
    call.Agrees page exceptions ↔
      Holds page (call.after page exceptions).files.state job.id := by
  constructor
  · intro hagrees
    have hreports : ReportsQueued (call.response page exceptions) job.id := by
      rw [hresponse]
      exact reportsQueued_queued_response.mpr rfl
    exact (hagrees.queued job.id hreports).2
  · intro hholds
    constructor
    · intro hreports
      rw [hresponse] at hreports
      exact absurd hreports not_reportsFailure_queued_response
    · intro id hreports
      rw [hresponse] at hreports
      rw [← reportsQueued_queued_response.mp hreports]
      refine ⟨⟨job, ?_, rfl⟩, hholds⟩
      rw [jobs_after henqueued]
      exact List.mem_append_right _ (List.mem_singleton_self _)
    · intro found hfound hthrew
      rw [henqueued] at hfound
      cases hfound
      exact absurd hthrew hthrows

/-- Behind `enqueue` the answer agrees with the effect when nothing fails and the job is kept. -/
theorem agrees_iff_of_enqueued {job : Job} {bytes : Bytes}
    (henqueued : call.enqueued page exceptions = some job) (hid : job.id ≠ [])
    (hpath : job.path ≠ [])
    (hresponse : call.response page exceptions = IpcServer.response
      ((call.enqueue page job).1 >>= fun id =>
        call.components.enforce_archive_limit >>= fun _ => .ok (queued_response bytes id))) :
    call.Agrees page exceptions ↔ ¬ call.Throws page job ∧
      call.components.enforce_archive_limit = .ok () ∧ call.Kept page job := by
  by_cases hthrows : call.Throws page job
  · have herror : (call.enqueue page job).1 = .error call.what := if_pos hthrows
    apply iff_of_false
    · apply not_agrees_of_reportsFailure henqueued
      rw [hresponse, herror]
      exact reportsFailure_bad_request
    · exact fun h => h.1 hthrows
  · have hok : (call.enqueue page job).1 = .ok job.id := if_neg hthrows
    rw [hok, ok_bind] at hresponse
    cases hlimit : call.components.enforce_archive_limit with
    | error what =>
      rw [hlimit] at hresponse
      apply iff_of_false
      · apply not_agrees_of_reportsFailure henqueued
        rw [hresponse]
        exact reportsFailure_bad_request
      · simp
    | ok _ =>
      rw [hlimit, ok_bind] at hresponse
      have hafter : call.after page exceptions = (call.enqueue page job).2 := by
        rw [after, henqueued]
      rw [agrees_iff_holds henqueued hthrows hresponse, hafter, holds_saved_iff hid hpath hthrows]
      simp [hthrows]

/-- The answer to a `record_stop` agrees with its effect exactly when the command does not get as
far as `enqueue`, or nothing fails from there on and the new file has the job. -/
theorem agrees_iff (page : CodePage) (exceptions : Exceptions) (call : StopCall) :
    call.Agrees page exceptions ↔ call.Undisturbed page exceptions := by
  cases henqueued : call.enqueued page exceptions with
  | none =>
    apply iff_of_true
    · constructor
      · intro _
        rw [after, henqueued]
        exact ⟨rfl, rfl⟩
      · exact fun id hqueued => absurd hqueued (not_reportsQueued_of_none henqueued id)
      · simp [henqueued]
    · simp [Undisturbed, henqueued]
  | some job =>
    obtain ⟨hid, hpath, bytes, hresponse⟩ := response_of_enqueued henqueued
    rw [agrees_iff_of_enqueued henqueued hid hpath hresponse]
    simp [Undisturbed, henqueued]

/-- A recording has stopped while the broker is set up, and the directory of the state file cannot
be made. -/
def throwingStop : StopCall where
  components :=
    { settings := { config := { broker := { enabled := true, endpoint := [104] } }, file := none }
      recording_stop := .ok [65]
      recording_state := .Recording }
  request := .object [(Utf8.bytes "command", .string (Utf8.bytes "record_stop"))]
  queue := { jobs := [], files := { state := none, temporary := none } }
  pid := 7
  ticks := 100
  now := 0
  answers := { directory := false, opens := true, written := 0, renames := true }
  what := []

/-- The answer does not always agree with the effect. -/
theorem not_alwaysAgrees :
    ¬ ∀ (page : CodePage) (exceptions : Exceptions) (call : StopCall),
      call.Agrees page exceptions := by
  intro hall
  have hsome : (throwingStop.enqueued .windows1251 .unnamed).isSome = true := by
    decide +kernel
  obtain ⟨job, hjob⟩ := Option.isSome_iff_exists.mp hsome
  obtain ⟨-, -, bytes, hresponse⟩ := response_of_enqueued hjob
  have hthrows : throwingStop.Throws .windows1251 job := .inl rfl
  have herror : (throwingStop.enqueue .windows1251 job).1 = .error [] := by
    rw [enqueue, if_pos hthrows]
    rfl
  have hreports : ReportsFailure (throwingStop.response .windows1251 .unnamed) := by
    rw [hresponse, herror]
    exact reportsFailure_bad_request
  exact not_agrees_of_reportsFailure hjob hreports (hall .windows1251 .unnamed throwingStop)

end StopCall
end GambitRecord.Recorder
