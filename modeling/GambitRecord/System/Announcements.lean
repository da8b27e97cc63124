import GambitRecord.Plugin.Logic
import GambitRecord.Recorder.Responses
import GambitRecord.Recorder.UploadQueue

/-! # Announcing uploads

The queue keeps the result of its last call, the plugin's status loop polls it and
announces a link that it has not announced just before. The history keeps the
links of all successful calls and those that were announced.
-/

namespace GambitRecord
open Library Library.Runs Library.DigitText Recorder

namespace Plugin

/-- The members of a `SYSTEMTIME` that are used. -/
structure LocalTime where
  wDay : UInt16 := 1
  wMonth : UInt16 := 1
  wYear : UInt16 := 1970
  wHour : UInt16 := 0
  wMinute : UInt16 := 0
  deriving DecidableEq

def Logic.upload_announcement (target : Bytes) (day month year hour minute : ℕ) : Bytes :=
  Utf8.bytes "/a Отправил запись слежки за " ++
    (if target.isEmpty then Utf8.bytes "неизвестным игроком" else target) ++
    Utf8.encode (text " | " ++ padded 2 day ++ ['.'] ++ padded 2 month ++ ['.'] ++
      padded 4 year ++ text " | " ++ padded 2 hour ++ [':'] ++ padded 2 minute ++ ['.'])

/-- The command that is queued for the server, before its conversion to the code page. -/
def queue_upload_announcement (state : UploadStatus) (now : LocalTime) : Bytes :=
  let target := state.last_target_name
  let target :=
    if target.isEmpty ∧ 0 ≤ state.last_target_id then
      Utf8.bytes "ID " ++ to_string state.last_target_id
    else target
  Logic.upload_announcement target now.wDay.toNat now.wMonth.toNat now.wYear.toNat now.wHour.toNat
    now.wMinute.toNat

/-- What `status_loop` keeps between two polls. `announced` is history: the link behind each queued
command. -/
structure StatusLoop where
  announced_upload_url : Bytes := []
  g_server_commands : List Bytes := []
  announced : List Bytes := []
  deriving DecidableEq

def uploaded_url (state : UploadStatus) : Bytes := if state.last_success then state.last_url else []

/-- The part of a turn that announces; `utf8_to_cp1251` is the conversion of the system. -/
def StatusLoop.polled (utf8_to_cp1251 : Bytes → Bytes) (loop : StatusLoop) (now : LocalTime)
    (state : UploadStatus) : StatusLoop :=
  if uploaded_url state ≠ [] ∧ uploaded_url state ≠ loop.announced_upload_url then
    { announced_upload_url := uploaded_url state
      g_server_commands :=
        loop.g_server_commands ++ [utf8_to_cp1251 (queue_upload_announcement state now)]
      announced := loop.announced ++ [uploaded_url state] }
  else loop

end Plugin

namespace Recorder

/-- The members that the call in progress sets. -/
structure Progress where
  active_phase_ : Bytes := []
  sent_ : UInt64 := 0
  total_ : UInt64 := 0
  deriving DecidableEq

/-- `UploadQueue::status`, under the names of the worker's response. Of an error its fixed part is
given. -/
def UploadQueue.status (queue : UploadQueue) (last_ : Option (UploadResult × EvidenceMetadata))
    (progress : Progress) : UploadStatus :=
  let status : UploadStatus :=
    { in_progress := queue.active.isSome
      phase := progress.active_phase_
      sent_bytes := progress.sent_
      total_bytes := progress.total_
      percent :=
        if progress.total_ ≠ 0 then (progress.sent_ * 100 / progress.total_).toUInt32 else 0
      pending :=
        (UInt64.ofNat queue.jobs.length - if queue.active.isSome then 1 else 0).toUInt32 }
  match last_ with
  | none => status
  | some (result, metadata) =>
    { status with
      last_success := result.success
      last_url := Utf8.encode result.url
      last_error := Utf8.encode ((result.error.map UploadError.message).getD [])
      last_target_id := metadata.target_id
      last_target_name := metadata.target_name }

end Recorder

open Plugin

/-- The queue with its last result, the response that is under way and the plugin's loop. -/
structure Announcements where
  queue : UploadQueue := {}
  last_ : Option (UploadResult × EvidenceMetadata) := none
  reply : Option UploadStatus := none
  loop : StatusLoop := {}
  successes : List Bytes := []

namespace Announcements

/-- A step of the queue, a status response made by the worker, and its end at the plugin. -/
inductive Event where
  | queue (event : UploadQueue.Event)
  | status (progress : Progress)
  | received (now : LocalTime)
  | lost

/-- The result that a step of the queue stores, with the metadata of its job. -/
def stored (queue : UploadQueue) : UploadQueue.Event → Option (UploadResult × EvidenceMetadata)
  | .complete _ _ result => queue.active.map fun job => (result, job.metadata)
  | .cancel _ _ upload_id => queue.active.map fun job =>
      (UploadQueue.cancelled upload_id, job.metadata)
  | _ => none

/-- The last result after a step of the queue; it does not outlive the process. -/
def next_last (s : Announcements) (queue : UploadQueue) (event : UploadQueue.Event) :
    Option (UploadResult × EvidenceMetadata) :=
  if queue.phase = .down ∨ event = .restart then none else (stored s.queue event).or s.last_

/-- The links of the calls that succeed in a step. -/
def succeeded (queue : UploadQueue) (event : UploadQueue.Event) : List Bytes :=
  ((stored queue event).toList.filter fun r => r.1.success).map fun r => Utf8.encode r.1.url

variable (page : CodePage) (utf8_to_cp1251 : Bytes → Bytes)

/-- One poll is under way at a time, and only a living worker answers it. -/
def step (s : Announcements) : Event → Option Announcements
  | .queue event =>
    (s.queue.step page event).map fun queue =>
      { s with
        queue
        last_ := s.next_last queue event
        successes := s.successes ++ succeeded s.queue event }
  | .status progress =>
    if s.reply = none ∧ s.queue.phase ≠ .down then
      some { s with reply := some (s.queue.status s.last_ progress) }
    else none
  | .received now =>
    s.reply.map fun state =>
      { s with reply := none, loop := s.loop.polled utf8_to_cp1251 now state }
  | .lost => s.reply.map fun _ => { s with reply := none }

def machine : Machine Announcements Event where
  init := {}
  step := step page utf8_to_cp1251

/-- The link that a last result offers to a poll. -/
def offered : Option (UploadResult × EvidenceMetadata) → Bytes
  | none => []
  | some (result, _) => if result.success then Utf8.encode result.url else []

def answered (s : Announcements) (now : LocalTime) : StatusLoop :=
  match s.reply with
  | none => s.loop
  | some state => s.loop.polled utf8_to_cp1251 now state

def caught_up (s : Announcements) (now later : LocalTime) (progress : Progress) : StatusLoop :=
  (s.answered utf8_to_cp1251 now).polled utf8_to_cp1251 later (s.queue.status s.last_ progress)

/-- The next answered poll has announced every successful upload, each once and in order. -/
structure Delivered (s : Announcements) : Prop where
  once : ∀ now later progress,
    (s.caught_up utf8_to_cp1251 now later progress).announced = s.successes
  queued : s.loop.g_server_commands.length = s.loop.announced.length

/-- The link that will have been announced last when the response under way has come. -/
def coming (s : Announcements) : Bytes :=
  match s.reply with
  | none => s.loop.announced_upload_url
  | some state => if uploaded_url state = [] then s.loop.announced_upload_url else uploaded_url state

/-- The last result has no link to announce, or a poll has seen it. -/
def Seen (s : Announcements) : Prop := offered s.last_ = [] ∨ offered s.last_ = s.coming

instance (s : Announcements) : Decidable s.Seen := inferInstanceAs (Decidable (_ ∨ _))

/-- A poll sees a result before the next one or the end of the worker replaces it; a link differs
from the one announced before it, and its queue can be saved; a lost response leaves its link
behind. -/
def Attended (s : Announcements) : Event → Prop
  | .queue (.pick now) =>
    s.Seen ∨ ∀ job ∈ s.queue.jobs.find? fun job => job.next_attempt ≤ now,
      (page.encode job.path).isSome
  | .queue (.complete _ _ result) =>
    s.Seen ∧ (result.success = true → Utf8.encode result.url ≠ [] ∧
      Utf8.encode result.url ≠ s.coming ∧ ∀ job ∈ s.queue.jobs, UploadQueue.Storable page job)
  | .queue (.cancel _ _ _) => s.Seen
  | .queue .restart => s.Seen
  | .lost => ∀ state ∈ s.reply, uploaded_url state = [] ∨
      uploaded_url state = s.loop.announced_upload_url ∨ uploaded_url state = offered s.last_
  | _ => True

instance (s : Announcements) : DecidablePred (s.Attended page)
  | .queue (.pick _) => inferInstanceAs (Decidable (_ ∨ ∀ job ∈ _, _))
  | .queue (.complete _ _ _) => inferInstanceAs (Decidable (_ ∧ (_ → _)))
  | .queue (.cancel _ _ _) => inferInstanceAs (Decidable s.Seen)
  | .queue .restart => inferInstanceAs (Decidable s.Seen)
  | .lost => inferInstanceAs (Decidable (∀ state ∈ s.reply, _))
  | .queue (.enqueue _ _ _ _ _) | .queue .stop | .status _ | .received _ => instDecidableTrue

variable {page} {utf8_to_cp1251} {s : Announcements}

theorem uploaded_url_status (queue : UploadQueue)
    (last_ : Option (UploadResult × EvidenceMetadata)) (progress : Progress) :
    uploaded_url (queue.status last_ progress) = offered last_ := by
  cases last_ with
  | none => rfl
  | some r => rfl

theorem polled_announced (loop : StatusLoop) (now : LocalTime) (state : UploadStatus) :
    (loop.polled utf8_to_cp1251 now state).announced = loop.announced ++
      if uploaded_url state = [] ∨ uploaded_url state = loop.announced_upload_url then []
      else [uploaded_url state] := by
  unfold StatusLoop.polled
  by_cases h : uploaded_url state = [] ∨ uploaded_url state = loop.announced_upload_url
  · rw [if_neg (by tauto), if_pos h, List.append_nil]
  · rw [if_pos (by tauto), if_neg h]

theorem polled_url (loop : StatusLoop) (now : LocalTime) (state : UploadStatus) :
    (loop.polled utf8_to_cp1251 now state).announced_upload_url =
      if uploaded_url state = [] then loop.announced_upload_url else uploaded_url state := by
  unfold StatusLoop.polled
  split_ifs with h hnil hnil
  · exact absurd hnil h.1
  · rfl
  · rfl
  · exact (not_not.mp fun hne => h ⟨hnil, hne⟩).symm

theorem answered_url (now : LocalTime) :
    (s.answered utf8_to_cp1251 now).announced_upload_url = s.coming := by
  unfold answered coming
  cases s.reply with
  | none => rfl
  | some state => exact polled_url _ _ _

/-- What the next answered poll will announce. -/
def unannounced (s : Announcements) : List Bytes := if s.Seen then [] else [offered s.last_]

theorem caught_up_announced (now later : LocalTime) (progress : Progress) :
    (s.caught_up utf8_to_cp1251 now later progress).announced =
      (s.answered utf8_to_cp1251 now).announced ++ s.unannounced := by
  rw [caught_up, polled_announced, uploaded_url_status, answered_url]
  rfl

theorem polled_queued {loop : StatusLoop} (now : LocalTime) (state : UploadStatus)
    (h : loop.g_server_commands.length = loop.announced.length) :
    (loop.polled utf8_to_cp1251 now state).g_server_commands.length =
      (loop.polled utf8_to_cp1251 now state).announced.length := by
  unfold StatusLoop.polled
  split_ifs
  · simp [h]
  · exact h

theorem delivered_queue {t : Announcements} (h : s.Delivered utf8_to_cp1251)
    (hloop : t.loop = s.loop) (hreply : t.reply = s.reply)
    (hopen : ∃ links, t.successes = s.successes ++ links ∧
      t.unannounced = s.unannounced ++ links) : t.Delivered utf8_to_cp1251 := by
  rcases hopen with ⟨links, hsuccesses, hopen⟩
  constructor
  · intro now later progress
    have hanswered : t.answered utf8_to_cp1251 now = s.answered utf8_to_cp1251 now := by
      rw [answered, answered, hloop, hreply]
    have honce := h.once now later progress
    rw [caught_up_announced] at honce ⊢
    rw [hanswered, hopen, ← List.append_assoc, honce, hsuccesses]
  · rw [hloop]
    exact h.queued

theorem unannounced_of_seen (h : s.Seen) : s.unannounced = [] := if_pos h

theorem unannounced_of_offered_nil (h : offered s.last_ = []) : s.unannounced = [] :=
  unannounced_of_seen (Or.inl h)

theorem storable_settle_job {retry_seconds : UInt32} {now : ℤ} {id : Bytes}
    {result : UploadResult} {jobs : List Job} (h : ∀ job ∈ jobs, UploadQueue.Storable page job) :
    ∀ job ∈ UploadQueue.settle_job retry_seconds now id result jobs,
      UploadQueue.Storable page job := by
  induction jobs with
  | nil => exact h
  | cons job jobs ih =>
    rw [List.forall_mem_cons] at h
    intro j hj
    rw [UploadQueue.settle_job] at hj
    by_cases hid : job.id = id
    · rw [if_pos hid, List.mem_append, Option.mem_toList] at hj
      rcases hj with hj | hj
      · exact UploadQueue.storable_settle h.1 hj
      · exact h.2 j hj
    · rw [if_neg hid, List.mem_cons] at hj
      rcases hj with rfl | hj
      · exact h.1
      · exact ih h.2 j hj

theorem complete_phase {queue : UploadQueue} {job : Job} {retry_seconds : UInt32} {now : ℤ}
    {result : UploadResult} (h : ∀ job ∈ queue.jobs, UploadQueue.Storable page job) :
    (queue.complete page job retry_seconds now result).phase = queue.phase := by
  unfold UploadQueue.complete
  by_cases habsent : ∀ j ∈ queue.jobs, j.id ≠ job.id
  · rw [if_pos habsent]
  · have hstorable := @storable_settle_job page retry_seconds now job.id result _ h
    rcases UploadQueue.restores_of_storable hstorable with ⟨text, hsave, -⟩
    rw [if_neg habsent]
    simp only [hsave]

/-- A result that succeeds is still there for the next poll, after the one before it was seen. -/
theorem delivered_result (queue : UploadQueue) (metadata : EvidenceMetadata) (result : UploadResult)
    (h : s.Delivered utf8_to_cp1251) (hseen : s.Seen)
    (hsuccess : result.success = true → Utf8.encode result.url ≠ [] ∧
      Utf8.encode result.url ≠ s.coming ∧ queue.phase ≠ .down) :
    Delivered utf8_to_cp1251
      { s with
        queue
        last_ := if queue.phase = .down then none else some (result, metadata)
        successes := s.successes ++
          if result.success then [Utf8.encode result.url] else [] } := by
  refine delivered_queue h rfl rfl ⟨_, rfl, ?_⟩
  rw [unannounced_of_seen hseen, List.nil_append]
  by_cases hresult : result.success = true
  · rcases hsuccess hresult with ⟨hne, hcoming, hup⟩
    rw [if_pos hresult, unannounced, if_neg]
    · simp only [hup, if_false, offered, hresult, if_true]
    · simp only [Seen, hup, if_false, offered, hresult, if_true, not_or]
      exact ⟨hne, hcoming⟩
  · rw [if_neg hresult]
    apply unannounced_of_offered_nil
    by_cases hdown : queue.phase = .down
    · simp only [hdown, if_true, offered]
    · simp only [hdown, if_false, offered, hresult, Bool.false_eq_true]

/-- A step that stores no result keeps the last one, or ends a worker whose result was seen. -/
theorem delivered_kept {queue : UploadQueue} {event : UploadQueue.Event}
    (h : s.Delivered utf8_to_cp1251) (hstored : stored s.queue event = none)
    (hseen : queue.phase = .down ∨ event = .restart → s.Seen) :
    Delivered utf8_to_cp1251
      { s with
        queue
        last_ := s.next_last queue event
        successes := s.successes ++ succeeded s.queue event } := by
  refine delivered_queue h rfl rfl ⟨_, rfl, ?_⟩
  have hnone : succeeded s.queue event = [] := by
    rw [succeeded, hstored]
    rfl
  rw [hnone, List.append_nil]
  by_cases hend : queue.phase = .down ∨ event = .restart
  · rw [unannounced_of_seen (hseen hend)]
    apply unannounced_of_offered_nil
    simp only [next_last, hend, if_true, offered]
  · rw [List.append_nil]
    simp only [next_last, hend, if_false, hstored, Option.none_or]
    rfl

theorem delivered_status (progress : Progress) (h : s.Delivered utf8_to_cp1251)
    (hreply : s.reply = none) :
    Delivered utf8_to_cp1251 { s with reply := some (s.queue.status s.last_ progress) } := by
  constructor
  · intro now later progress'
    have honce := h.once now later progress'
    have hseen : Seen { s with reply := some (s.queue.status s.last_ progress) } := by
      simp only [Seen, coming, uploaded_url_status]
      by_cases hnil : offered s.last_ = []
      · exact Or.inl hnil
      · exact Or.inr (if_neg hnil).symm
    rw [caught_up_announced] at honce ⊢
    rw [unannounced_of_seen hseen, List.append_nil, ← honce]
    simp only [answered, hreply, polled_announced, uploaded_url_status, unannounced, Seen, coming]
  · exact h.queued

theorem delivered_received {state : UploadStatus} (now : LocalTime)
    (h : s.Delivered utf8_to_cp1251) (hreply : s.reply = some state) :
    Delivered utf8_to_cp1251
      { s with reply := none, loop := s.loop.polled utf8_to_cp1251 now state } := by
  constructor
  · intro _ later progress
    have honce := h.once now later progress
    simpa only [caught_up, answered, hreply] using honce
  · exact polled_queued now state h.queued

theorem delivered_lost {state : UploadStatus} (h : s.Delivered utf8_to_cp1251)
    (hreply : s.reply = some state)
    (hkept : uploaded_url state = [] ∨ uploaded_url state = s.loop.announced_upload_url ∨
      uploaded_url state = offered s.last_) :
    Delivered utf8_to_cp1251 { s with reply := none } := by
  constructor
  · intro now later progress
    have honce := h.once now later progress
    rw [caught_up_announced] at honce ⊢
    rw [← honce]
    simp only [answered, hreply, polled_announced, unannounced, Seen, coming]
    by_cases hnil : uploaded_url state = []
    · simp only [hnil, true_or, if_true, List.append_nil]
      rfl
    · by_cases hsame : uploaded_url state = s.loop.announced_upload_url
      · simp only [hsame, or_true, if_true, List.append_nil, ite_self]
        rfl
      · have hlast : offered s.last_ = uploaded_url state :=
          ((hkept.resolve_left hnil).resolve_left hsame).symm
        simp only [hlast, hnil, hsame, or_self, if_false, or_true, if_true, List.append_nil]
  · exact h.queued

theorem succeeded_eq {queue : UploadQueue} {event : UploadQueue.Event} {result : UploadResult}
    {metadata : EvidenceMetadata} (h : stored queue event = some (result, metadata)) :
    succeeded queue event = if result.success then [Utf8.encode result.url] else [] := by
  rw [succeeded, h]
  cases hsuccess : result.success <;> simp [hsuccess]

theorem delivered_up {queue : UploadQueue} {event : UploadQueue.Event}
    (h : s.Delivered utf8_to_cp1251) (hstored : stored s.queue event = none)
    (hup : queue.phase ≠ .down) (hevent : event ≠ .restart) :
    Delivered utf8_to_cp1251
      { s with
        queue
        last_ := s.next_last queue event
        successes := s.successes ++ succeeded s.queue event } := by
  apply delivered_kept h hstored
  rintro (hdown | hrestart)
  · exact absurd hdown hup
  · exact absurd hrestart hevent

theorem delivered_end {queue : UploadQueue} {event : UploadQueue.Event} {result : UploadResult}
    {metadata : EvidenceMetadata} (h : s.Delivered utf8_to_cp1251) (hseen : s.Seen)
    (hstored : stored s.queue event = some (result, metadata)) (hevent : event ≠ .restart)
    (hsuccess : result.success = true → Utf8.encode result.url ≠ [] ∧
      Utf8.encode result.url ≠ s.coming ∧ queue.phase ≠ .down) :
    Delivered utf8_to_cp1251
      { s with
        queue
        last_ := s.next_last queue event
        successes := s.successes ++ succeeded s.queue event } := by
  have hnext := delivered_result queue metadata result h hseen hsuccess
  simpa only [next_last, hstored, succeeded_eq hstored, Option.some_or, hevent, or_false]
    using hnext

theorem delivered_queue_step {queue : UploadQueue} {event : UploadQueue.Event}
    (h : s.Delivered utf8_to_cp1251) (hC : s.Attended page (.queue event))
    (hstep : s.queue.step page event = some queue) :
    Delivered utf8_to_cp1251
      { s with
        queue
        last_ := s.next_last queue event
        successes := s.successes ++ succeeded s.queue event } := by
  cases UploadQueue.step_cases hstep with
  | enqueue hphase _ => exact delivered_up h rfl (by simp [UploadQueue.enqueue, hphase]) (by simp)
  | pick hphase _ _ _ => exact delivered_up h rfl (by simp [hphase]) (by simp)
  | @threw now job _ _ hjob hnarrow =>
    apply delivered_kept h rfl
    intro _
    rcases hC with hseen | hall
    · exact hseen
    · exact absurd (hall job hjob) hnarrow
  | @complete retry_seconds now result job hphase _ hactive =>
    have hstored : stored s.queue (.complete retry_seconds now result) =
        some (result, job.metadata) := by
      rw [stored, hactive]
      rfl
    apply delivered_end h hC.1 hstored (by simp)
    intro hsuccess
    rcases hC.2 hsuccess with ⟨hne, hcoming, hstorable⟩
    refine ⟨hne, hcoming, ?_⟩
    rw [complete_phase hstorable]
    exact hphase
  | @cancel retry_seconds now upload_id job _ hactive =>
    have hstored : stored s.queue (.cancel retry_seconds now upload_id) =
        some (UploadQueue.cancelled upload_id, job.metadata) := by
      rw [stored, hactive]
      rfl
    apply delivered_end h hC hstored (by simp)
    intro hsuccess
    cases hsuccess
  | stop _ => exact delivered_up h rfl (by simp) (by simp)
  | restart => exact delivered_kept h rfl fun _ => hC

theorem delivered_step {t : Announcements} {event : Event} (h : s.Delivered utf8_to_cp1251)
    (hC : s.Attended page event) (hstep : s.step page utf8_to_cp1251 event = some t) :
    t.Delivered utf8_to_cp1251 := by
  cases event with
  | queue event =>
    rcases Option.map_eq_some_iff.mp hstep with ⟨queue, hqueue, rfl⟩
    exact delivered_queue_step h hC hqueue
  | status progress =>
    simp only [step] at hstep
    split at hstep
    · rename_i hguard
      cases hstep
      exact delivered_status progress h hguard.1
    · cases hstep
  | received now =>
    rcases Option.map_eq_some_iff.mp hstep with ⟨state, hstate, rfl⟩
    exact delivered_received now h hstate
  | lost =>
    rcases Option.map_eq_some_iff.mp hstep with ⟨state, hstate, rfl⟩
    exact delivered_lost h hstate (hC state hstate)

/-- In a run in which a poll sees every result in time, every successful upload is announced exactly
once by the next answered poll. -/
theorem delivered_of_attended {es : List Event}
    (hrun : (machine page utf8_to_cp1251).run es = some s)
    (hC : (machine page utf8_to_cp1251).Along (Attended page)
      (machine page utf8_to_cp1251).init es) : s.Delivered utf8_to_cp1251 := by
  have hinit : Delivered utf8_to_cp1251 (machine page utf8_to_cp1251).init :=
    ⟨fun _ _ _ => rfl, rfl⟩
  exact Machine.invariant_along (I := Delivered utf8_to_cp1251)
    (fun _ _ _ hI hC hstep => delivered_step hI hC hstep) hC hrun hinit

def enqueue (ticks : ℕ) : Event := .queue (.enqueue 1 ticks [97] { target_name := [98] } 0)

def publish (c : Char) : List Event :=
  [.queue (.pick 0), .queue (.complete 30 0 { success := true, url := [c] })]

def poll : List Event := [.status {}, .received {}]

def watchedRun : List Event :=
  [enqueue 1, enqueue 2] ++ publish 'u' ++ [.status {}, .lost] ++ poll ++ publish 'v' ++ poll

def hastyRun : List Event := [enqueue 1, enqueue 2] ++ publish 'u' ++ publish 'v'

theorem watchedRun_accepted : ((machine .windows1251 id).run watchedRun).isSome := by
  decide +kernel

theorem hastyRun_accepted : ((machine .windows1251 id).run hastyRun).isSome := by decide +kernel

theorem delivered_watchedRun :
    Delivered id (((machine .windows1251 id).run watchedRun).get watchedRun_accepted) :=
  delivered_of_attended (Option.some_get watchedRun_accepted).symm (by decide +kernel)

/-- The first link is overwritten before a poll sees it. -/
theorem not_alwaysDelivered :
    ¬ ∀ (page : CodePage) (utf8_to_cp1251 : Bytes → Bytes) (es : List Event) (s : Announcements),
      (machine page utf8_to_cp1251).run es = some s → s.Delivered utf8_to_cp1251 := by
  intro hall
  have hrun := (Option.some_get hastyRun_accepted).symm
  have honce := (hall _ _ _ _ hrun).once {} {} {}
  revert honce
  decide +kernel

end Announcements
end GambitRecord
