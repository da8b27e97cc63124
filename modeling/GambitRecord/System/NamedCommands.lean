import GambitRecord.Plugin.GameText
import GambitRecord.System.Announcements

/-! # The players that the commands name

What the plugin queues for the game server names the player of an upload in the
game's own bytes, whatever became of the job in between: it may have been kept by
the state file, tried again and reported by several polls.
-/

namespace GambitRecord
open Library Library.Runs Library.DigitText Recorder Plugin

namespace Plugin

/-- The part of a command before the name, in the code page. -/
def opening : Bytes :=
  (CodePage.windows1251.encode (Utf16.units "/a Отправил запись слежки за ")).getD []

/-- What stands in place of a name that is not known, in the code page. -/
def unknown_player : Bytes :=
  (CodePage.windows1251.encode (Utf16.units "неизвестным игроком")).getD []

/-- The part behind the name. -/
def ending (now : LocalTime) : Text :=
  text " | " ++ padded 2 now.wDay.toNat ++ ['.'] ++ padded 2 now.wMonth.toNat ++ ['.'] ++
    padded 4 now.wYear.toNat ++ text " | " ++ padded 2 now.wHour.toNat ++ [':'] ++
    padded 2 now.wMinute.toNat ++ ['.']

/-- What a command shows of a player with this name in the game. -/
def shown (target_id : Int32) (raw : Bytes) : Bytes :=
  if raw ≠ [] then raw
  else if 0 ≤ target_id then Utf8.bytes "ID " ++ to_string target_id
  else unknown_player

/-- The command names the target of the metadata in the bytes of the game. -/
def Names (metadata : EvidenceMetadata) (command : Bytes) : Prop :=
  ∃ raw now, cp1251_to_utf8 raw = metadata.target_name ∧
    command = opening ++ shown metadata.target_id raw ++ Utf8.encode (ending now)

theorem inPage_ending (now : LocalTime) : InPage (ending now) (Utf8.encode (ending now)) := by
  apply inPage_ascii
  have hbar : ∀ c ∈ text " | ", c.toNat < 128 := List.all_iff_forall_prop.mp (by decide +kernel)
  have hdot : ∀ c ∈ ['.'], c.toNat < 128 := List.all_iff_forall_prop.mp rfl
  have hcolon : ∀ c ∈ [':'], c.toNat < 128 := List.all_iff_forall_prop.mp rfl
  intro c hc
  simp only [ending, List.mem_append] at hc
  rcases hc with (((((((((hc | hc) | hc) | hc) | hc) | hc) | hc) | hc) | hc) | hc) | hc
  · exact hbar c hc
  · exact ascii_padded _ _ c hc
  · exact hdot c hc
  · exact ascii_padded _ _ c hc
  · exact hdot c hc
  · exact ascii_padded _ _ c hc
  · exact hbar c hc
  · exact ascii_padded _ _ c hc
  · exact hcolon c hc
  · exact ascii_padded _ _ c hc
  · exact hdot c hc

theorem inPage_opening : InPage (text "/a Отправил запись слежки за ") opening := by
  decide +kernel

theorem inPage_unknown_player : InPage (text "неизвестным игроком") unknown_player := by
  decide +kernel

theorem cp1251_to_utf8_eq_nil {raw : Bytes} : cp1251_to_utf8 raw = [] ↔ raw = [] := by
  constructor
  · intro h
    rw [← utf8_to_cp1251_cp1251_to_utf8 (fun _ => []) raw, h]
    rfl
  · rintro rfl
    rfl

/-- What a command shows in UTF-8, once an empty name has been replaced by the number. -/
def shown_utf8 (target_id : Int32) (name : Bytes) : Bytes :=
  let target :=
    if name.isEmpty ∧ 0 ≤ target_id then Utf8.bytes "ID " ++ to_string target_id else name
  if target.isEmpty then Utf8.bytes "неизвестным игроком" else target

/-- The text that is shown, which the page has. -/
theorem exists_shown (target_id : Int32) (raw : Bytes) :
    ∃ name, shown_utf8 target_id (cp1251_to_utf8 raw) = Utf8.encode name ∧
      InPage name (shown target_id raw) := by
  by_cases hraw : raw = []
  · have hnil : cp1251_to_utf8 raw = [] := cp1251_to_utf8_eq_nil.mpr hraw
    by_cases hid : 0 ≤ target_id
    · refine ⟨numbered target_id, ?_, ?_⟩
      · have htarget : Utf8.bytes "ID " ++ to_string target_id ≠ [] := by
          have hfront : Utf8.bytes "ID " ≠ [] := by decide +kernel
          simp [hfront]
        simp only [shown_utf8, hnil, hid, List.isEmpty_nil, and_self, if_true, List.isEmpty_iff,
          htarget, if_false]
        exact (encode_numbered target_id).symm
      · rw [shown, if_neg (not_not.mpr hraw), if_pos hid]
        rw [← encode_numbered]
        exact inPage_ascii (ascii_numbered target_id)
    · refine ⟨text "неизвестным игроком", ?_, ?_⟩
      · simp only [shown_utf8, hnil, hid, and_false, if_false, List.isEmpty_nil, if_true]
        decide +kernel
      · rw [shown, if_neg (not_not.mpr hraw), if_neg hid]
        exact inPage_unknown_player
  · obtain ⟨name, htext, hpage⟩ := exists_inPage raw
    have hne : cp1251_to_utf8 raw ≠ [] := fun h => hraw (cp1251_to_utf8_eq_nil.mp h)
    refine ⟨name, ?_, ?_⟩
    · simp only [shown_utf8, List.isEmpty_iff, hne, false_and, if_false]
      exact htext
    · rw [shown, if_pos hraw]
      exact hpage

theorem utf8_to_cp1251_announcement (best_fit : List UInt16 → Bytes) {state : UploadStatus}
    {raw : Bytes} (hname : cp1251_to_utf8 raw = state.last_target_name) (now : LocalTime) :
    utf8_to_cp1251 best_fit (queue_upload_announcement state now) =
      opening ++ shown state.last_target_id raw ++ Utf8.encode (ending now) := by
  have hopening : Utf8.bytes "/a Отправил запись слежки за " =
      Utf8.encode (text "/a Отправил запись слежки за ") := by decide +kernel
  have hcommand : queue_upload_announcement state now =
      Utf8.bytes "/a Отправил запись слежки за " ++
        shown_utf8 state.last_target_id state.last_target_name ++ Utf8.encode (ending now) := rfl
  obtain ⟨name, hshown, hpage⟩ := exists_shown state.last_target_id raw
  rw [hname] at hshown
  rw [hcommand, hshown, hopening, ← Utf8.encode_append, ← Utf8.encode_append]
  exact ((inPage_opening.append hpage).append (inPage_ending now)).utf8_to_cp1251 best_fit

end Plugin
namespace Recorder.UploadQueue
variable {page : CodePage} {P : EvidenceMetadata → Prop} {queue t : UploadQueue}

theorem mem_of_mem_load {jobs : List Job} {saved : Text} (h : save_locked page jobs = some saved)
    {job : Job} (hjob : job ∈ load page (some (Utf8.encode saved))) : job ∈ jobs := by
  obtain ⟨entries, body, hentries, hbody, rfl⟩ := exists_of_save_locked h
  rw [save_entries rfl hbody (by decide), read_jobs_entries hentries] at hjob
  exact List.mem_of_mem_filter hjob

theorem metadata_settle_job {retry_seconds : UInt32} {now : ℤ} {id : Bytes}
    {result : UploadResult} {jobs : List Job} (h : ∀ job ∈ jobs, P job.metadata) :
    ∀ job ∈ settle_job retry_seconds now id result jobs, P job.metadata := by
  induction jobs with
  | nil => exact h
  | cons job jobs ih =>
    rw [List.forall_mem_cons] at h
    intro j hj
    rw [settle_job] at hj
    by_cases hid : job.id = id
    · rw [if_pos hid, List.mem_append, Option.mem_toList] at hj
      rcases hj with hj | hj
      · obtain ⟨-, -, hmetadata, -⟩ := of_settle hj
        rw [hmetadata]
        exact h.1
      · exact h.2 j hj
    · rw [if_neg hid, List.mem_cons] at hj
      rcases hj with rfl | hj
      · exact h.1
      · exact ih h.2 j hj

/-- Every job of the list, the call and the state file has metadata with the property. -/
structure Holds (page : CodePage) (P : EvidenceMetadata → Prop) (queue : UploadQueue) : Prop where
  jobs : ∀ job ∈ queue.jobs, P job.metadata
  active : ∀ job ∈ queue.active, P job.metadata
  file : ∀ job ∈ load page queue.file, P job.metadata

theorem Holds.enqueue (h : Holds page P queue) {job : Job} (hjob : P job.metadata) :
    Holds page P (queue.enqueue page job) := by
  have hjobs : ∀ j ∈ queue.jobs ++ [job], P j.metadata := by
    intro j hj
    rcases List.mem_append.mp hj with hj | hj
    · exact h.jobs j hj
    · rw [List.mem_singleton.mp hj]
      exact hjob
  refine ⟨hjobs, h.active, ?_⟩
  intro j hj
  simp only [UploadQueue.enqueue] at hj
  cases hsave : save_locked page (queue.jobs ++ [job]) with
  | none =>
    rw [hsave] at hj
    exact h.file j hj
  | some saved =>
    rw [hsave] at hj
    exact hjobs j (mem_of_mem_load hsave hj)

theorem Holds.complete (h : Holds page P queue) (job : Job) (retry_seconds : UInt32) (now : ℤ)
    (result : UploadResult) : Holds page P (queue.complete page job retry_seconds now result) := by
  have hjobs : ∀ j ∈ settle_job retry_seconds now job.id result queue.jobs, P j.metadata :=
    metadata_settle_job h.jobs
  unfold UploadQueue.complete
  by_cases habsent : ∀ j ∈ queue.jobs, j.id ≠ job.id
  · rw [if_pos habsent]
    exact ⟨h.jobs, by simp, h.file⟩
  · rw [if_neg habsent]
    cases hsave : save_locked page (settle_job retry_seconds now job.id result queue.jobs) with
    | none =>
      simp only [hsave]
      exact ⟨hjobs, by simp, h.file⟩
    | some saved =>
      simp only [hsave]
      exact ⟨hjobs, by simp, fun j hj => hjobs j (mem_of_mem_load hsave hj)⟩

/-- A step keeps what holds of the metadata that it puts in the queue. -/
theorem Holds.step {event : Event} (h : Holds page P queue)
    (hnew : ∀ pid ticks path metadata now,
      event = .enqueue pid ticks path metadata now → P metadata)
    (hstep : queue.step page event = some t) : Holds page P t := by
  cases step_cases hstep with
  | enqueue _ _ => exact h.enqueue (hnew _ _ _ _ _ rfl)
  | pick _ _ hjob _ =>
    refine ⟨h.jobs, ?_, h.file⟩
    rintro j ⟨⟩
    exact h.jobs _ (List.mem_of_find?_eq_some hjob)
  | threw _ _ _ _ => exact ⟨h.jobs, h.active, h.file⟩
  | complete _ _ _ => exact h.complete _ _ _ _
  | cancel _ _ => exact h.complete _ _ _ _
  | stop _ => exact ⟨h.jobs, h.active, h.file⟩
  | restart => exact ⟨h.file, by simp, h.file⟩

end Recorder.UploadQueue

namespace Announcements
variable {page : CodePage} {best_fit : List UInt16 → Bytes} {P : EvidenceMetadata → Prop}
  {s t : Announcements}

def enqueued : Event → Option EvidenceMetadata
  | .queue (.enqueue _ _ _ metadata _) => some metadata
  | _ => none

/-- A link is reported with the target of metadata that have the property. -/
def Reports (P : EvidenceMetadata → Prop) (state : UploadStatus) : Prop :=
  uploaded_url state ≠ [] → ∃ metadata, P metadata ∧
    state.last_target_id = metadata.target_id ∧ state.last_target_name = metadata.target_name

structure Known (page : CodePage) (P : EvidenceMetadata → Prop) (s : Announcements) : Prop where
  queue : UploadQueue.Holds page P s.queue
  last_ : ∀ r ∈ s.last_, P r.2
  reply : ∀ state ∈ s.reply, Reports P state
  commands : ∀ command ∈ s.loop.g_server_commands, ∃ metadata, P metadata ∧ Names metadata command

theorem reports_status (queue : UploadQueue) {last_ : Option (UploadResult × EvidenceMetadata)}
    (progress : Progress) (h : ∀ r ∈ last_, P r.2) : Reports P (queue.status last_ progress) := by
  intro hurl
  cases last_ with
  | none => exact absurd rfl hurl
  | some r => exact ⟨r.2, h r rfl, rfl, rfl⟩

theorem commands_polled {loop : StatusLoop} {state : UploadStatus} (now : LocalTime)
    (htext : ∀ metadata, P metadata → IsGameText metadata.target_name)
    (h : ∀ command ∈ loop.g_server_commands, ∃ metadata, P metadata ∧ Names metadata command)
    (hstate : Reports P state) :
    ∀ command ∈ (loop.polled (utf8_to_cp1251 best_fit) now state).g_server_commands,
      ∃ metadata, P metadata ∧ Names metadata command := by
  unfold StatusLoop.polled
  split_ifs with hnew
  · intro command hcommand
    rcases List.mem_append.mp hcommand with hold | hcommand
    · exact h command hold
    · obtain ⟨metadata, hmetadata, hid, hname⟩ := hstate hnew.1
      obtain ⟨raw, hraw⟩ := htext metadata hmetadata
      refine ⟨metadata, hmetadata, raw, now, hraw, ?_⟩
      rw [List.mem_singleton.mp hcommand, utf8_to_cp1251_announcement best_fit
        (hraw.trans hname.symm), hid]
  · exact h

theorem last_step {queue : UploadQueue} {event : UploadQueue.Event} (h : Known page P s) :
    ∀ r ∈ s.next_last queue event, P r.2 := by
  intro r hr
  unfold next_last at hr
  split_ifs at hr with hend
  · simp at hr
  · cases hstored : stored s.queue event with
    | none =>
      rw [hstored, Option.none_or] at hr
      exact h.last_ r hr
    | some latest =>
      rw [hstored, Option.some_or, Option.mem_some_iff] at hr
      subst hr
      cases event with
      | complete retry_seconds now result =>
        obtain ⟨job, hjob, rfl⟩ := Option.map_eq_some_iff.mp hstored
        exact h.queue.active job hjob
      | cancel retry_seconds now upload_id =>
        obtain ⟨job, hjob, rfl⟩ := Option.map_eq_some_iff.mp hstored
        exact h.queue.active job hjob
      | enqueue => cases hstored
      | pick => cases hstored
      | stop => cases hstored
      | restart => cases hstored

theorem known_step {event : Event}
    (htext : ∀ metadata, P metadata → IsGameText metadata.target_name)
    (h : Known page P s) (hnew : ∀ metadata, enqueued event = some metadata → P metadata)
    (hstep : s.step page (utf8_to_cp1251 best_fit) event = some t) : Known page P t := by
  cases event with
  | queue event =>
    obtain ⟨queue, hqueue, rfl⟩ := Option.map_eq_some_iff.mp hstep
    refine ⟨h.queue.step ?_ hqueue, last_step h, h.reply, h.commands⟩
    rintro pid ticks path metadata now rfl
    exact hnew metadata rfl
  | status progress =>
    simp only [step] at hstep
    split_ifs at hstep
    cases hstep
    refine ⟨h.queue, h.last_, ?_, h.commands⟩
    rintro state ⟨⟩
    exact reports_status s.queue progress h.last_
  | received now =>
    obtain ⟨state, hstate, rfl⟩ := Option.map_eq_some_iff.mp hstep
    exact ⟨h.queue, h.last_, by simp, commands_polled now htext h.commands (h.reply state hstate)⟩
  | lost =>
    obtain ⟨state, hstate, rfl⟩ := Option.map_eq_some_iff.mp hstep
    exact ⟨h.queue, h.last_, by simp, h.commands⟩

/-- In every run whose jobs name players of the game, every command that is queued for the server
names the player of one of them, in the bytes that the game has for the name. -/
theorem commands_name_players {es : List Event}
    (hrun : (machine page (utf8_to_cp1251 best_fit)).run es = some s)
    (htext : ∀ event ∈ es, ∀ metadata, enqueued event = some metadata →
      IsGameText metadata.target_name) :
    ∀ command ∈ s.loop.g_server_commands,
      ∃ metadata ∈ es.filterMap enqueued, Names metadata command := by
  have hinit : Known page (· ∈ es.filterMap enqueued)
      (machine page (utf8_to_cp1251 best_fit)).init := by
    constructor
    · exact ⟨by simp [machine], by simp [machine], by simp [machine, UploadQueue.load]⟩
    · simp [machine]
    · simp [machine]
    · simp [machine]
  have hnew : ∀ event ∈ es, ∀ metadata, enqueued event = some metadata →
      metadata ∈ es.filterMap enqueued := fun event hevent metadata hmetadata =>
    List.mem_filterMap.mpr ⟨event, hevent, hmetadata⟩
  have hgame : ∀ metadata ∈ es.filterMap enqueued, IsGameText metadata.target_name := by
    intro metadata hmetadata
    obtain ⟨event, hevent, hsome⟩ := List.mem_filterMap.mp hmetadata
    exact htext event hevent metadata hsome
  have hknown : Known page (· ∈ es.filterMap enqueued) s :=
    Machine.invariant_along (I := Known page (· ∈ es.filterMap enqueued))
      (fun _ _ _ hI hC hstep => known_step hgame hI hC hstep)
      (Machine.along_of_forall (C := fun event => ∀ metadata, enqueued event = some metadata →
        metadata ∈ es.filterMap enqueued) hnew) hrun hinit
  intro command hcommand
  obtain ⟨metadata, hmetadata, hnames⟩ := hknown.commands command hcommand
  exact ⟨metadata, hmetadata, hnames⟩

def nickname : Bytes := [0xC8, 0xE3, 0xF0, 0xEE, 0xEA]

/-- An upload of a recording of the player that fails at first. -/
def namedRun : List Event :=
  [.queue (.enqueue 1 1 [97] { target_id := 7, target_name := cp1251_to_utf8 nickname } 0),
    .queue (.pick 0), .queue (.complete 30 0 { retryable := true, error := some .brokerUnavailable }),
    .status {}, .received {}, .queue (.pick 60), .queue (.complete 30 60 { success := true, url := ['u'] }),
    .status {}, .received { wYear := 2026 }]

theorem namedRun_accepted :
    ((machine .windows1251 (utf8_to_cp1251 fun _ => [])).run namedRun).isSome := by decide +kernel

theorem commands_name_players_namedRun :
    let s := ((machine .windows1251 (utf8_to_cp1251 fun _ => [])).run namedRun).get
      namedRun_accepted
    s.loop.g_server_commands.length = 1 ∧ ∀ command ∈ s.loop.g_server_commands,
      ∃ metadata ∈ namedRun.filterMap enqueued, Names metadata command := by
  refine ⟨by decide +kernel, commands_name_players (Option.some_get namedRun_accepted).symm ?_⟩
  intro event hevent metadata hmetadata
  have hmem : metadata ∈ namedRun.filterMap enqueued :=
    List.mem_filterMap.mpr ⟨event, hevent, hmetadata⟩
  exact ⟨nickname, congrArg EvidenceMetadata.target_name (List.mem_singleton.mp hmem).symm⟩

end Announcements
end GambitRecord
