import GambitRecord.Library.CodePage
import GambitRecord.Library.Json.Access
import GambitRecord.Recorder.UploadJob

/-! # The queue's state file

`UploadQueue::save_locked` and `load`. A path is written as the bytes of the
process's code page, and a JSON text exists only for UTF-8 strings, so the file
keeps exactly the jobs whose strings and converted paths are UTF-8. The file is
the text of its stream: writing and reading in text mode cancel out.
-/

namespace GambitRecord.Recorder
open Library Library.DigitText

def EvidenceMetadata.strings (m : EvidenceMetadata) : List Bytes :=
  [m.admin, m.punishment_command, m.punishment_reason, m.recording_period, m.server,
    m.target_name, m.timestamp]

/-- The members in the order of their keys, as a JSON object keeps them. -/
def metadata_json (m : EvidenceMetadata) : Json :=
  .object
    [(Utf8.bytes "admin", .string m.admin),
      (Utf8.bytes "punishment_command", .string m.punishment_command),
      (Utf8.bytes "punishment_reason", .string m.punishment_reason),
      (Utf8.bytes "recording_period", .string m.recording_period),
      (Utf8.bytes "server", .string m.server),
      (Utf8.bytes "target_id", .ofInt32 m.target_id),
      (Utf8.bytes "target_name", .string m.target_name),
      (Utf8.bytes "timestamp", .string m.timestamp)]

/-- A string member, empty when it is missing. -/
def stringAt (j : Json) (key : String) : Option Bytes :=
  j.value? (Utf8.bytes key) [] Json.getString

/-- Throws when a member has another type. -/
def metadata_from (j : Json) : Option EvidenceMetadata := do
  let admin ← stringAt j "admin"
  let target_id ← j.value? (Utf8.bytes "target_id") (-1) Json.getInt32
  let target_name ← stringAt j "target_name"
  let server ← stringAt j "server"
  let timestamp ← stringAt j "timestamp"
  let punishment_command ← stringAt j "punishment_command"
  let punishment_reason ← stringAt j "punishment_reason"
  let recording_period ← stringAt j "recording_period"
  some
    { admin, target_id, target_name, server, timestamp, punishment_command, punishment_reason
      recording_period }

namespace UploadQueue
variable (page : CodePage)

/-- The entry of a job; converting the path may throw. -/
def job_json (job : Job) : Option Json :=
  (page.encode job.path).map fun path =>
    .object
      [(Utf8.bytes "attempts", .ofUInt32 job.attempts),
        (Utf8.bytes "id", .string job.id),
        (Utf8.bytes "metadata", metadata_json job.metadata),
        (Utf8.bytes "next_attempt", .ofInt64 job.next_attempt),
        (Utf8.bytes "path", .string path),
        (Utf8.bytes "upload_id", .string job.upload_id)]

/-- The text that is written and renamed over the state file; `none` is an exception. -/
def save_locked (jobs : List Job) : Option Text :=
  (jobs.mapM (job_json page)).bind fun entries =>
    ((Json.object
      [(Utf8.bytes "jobs", .array entries),
        (Utf8.bytes "version", .ofInt32 1)]).dump (some 2)).map fun text => text ++ ['\n']

def read_job (j : Json) : Option Job := do
  let id ← stringAt j "id"
  let narrow ← stringAt j "path"
  let path ← page.decode narrow
  let metadata ← metadata_from (← j.value? (Utf8.bytes "metadata") (.object []) some)
  let attempts ← j.value? (Utf8.bytes "attempts") 0 Json.getUInt32
  let next_attempt ← j.value? (Utf8.bytes "next_attempt") 0 Json.getInt64
  let upload_id ← stringAt j "upload_id"
  some { id, path, metadata, attempts, next_attempt, upload_id }

/-- An entry that throws ends the loading; those read before it stay. -/
def read_jobs : List Json → List Job
  | [] => []
  | j :: js =>
    match read_job page j with
    | none => []
    | some job => if job.id ≠ [] ∧ job.path ≠ [] then job :: read_jobs js else read_jobs js

def load (file : Option Bytes) : List Job :=
  match file.bind Json.parseBytes with
  | none => []
  | some root =>
    match root.value? (Utf8.bytes "jobs") (.array []) some with
    | none => []
    | some entries => read_jobs page entries.items

structure Storable (job : Job) : Prop where
  id : job.id ≠ []
  path : job.path ≠ []
  strings : ∀ s ∈ [job.id, job.upload_id] ++ job.metadata.strings, Utf8.Valid s
  narrow : ∃ bytes ∈ page.encode job.path, Utf8.Valid bytes

instance (job : Job) : Decidable (Storable page job) :=
  decidable_of_iff (job.id ≠ [] ∧ job.path ≠ [] ∧
      (∀ s ∈ [job.id, job.upload_id] ++ job.metadata.strings, Utf8.Valid s) ∧
      ((page.encode job.path).any fun bytes => Utf8.Valid bytes) = true)
    ⟨fun h => ⟨h.1, h.2.1, h.2.2.1, by simpa [Option.any_eq_true] using h.2.2.2⟩,
      fun h => ⟨h.id, h.path, h.strings, by simpa [Option.any_eq_true] using h.narrow⟩⟩

/-- Saving does not throw, and loading the file gives the same jobs. -/
def Restores (jobs : List Job) : Prop :=
  ∃ text, save_locked page jobs = some text ∧ load page (some (Utf8.encode text)) = jobs

theorem metadata_from_metadata_json (m : EvidenceMetadata) :
    metadata_from (metadata_json m) = some m := by
  simp [metadata_from, metadata_json, stringAt, Json.value?, Json.isObject, Json.find?,
    Utf8.bytes_inj]

variable {page} {jobs : List Job} {entries : List Json}

theorem read_job_job_json {job : Job} {j : Json} (h : job_json page job = some j) :
    read_job page j = some job := by
  rcases Option.map_eq_some_iff.mp h with ⟨bytes, hbytes, rfl⟩
  simp [read_job, stringAt, Json.value?, Json.isObject, Json.find?, Utf8.bytes_inj,
    page.decode_encode _ _ hbytes, metadata_from_metadata_json]

theorem read_jobs_entries (h : jobs.mapM (job_json page) = some entries) :
    read_jobs page entries = jobs.filter fun job => job.id ≠ [] ∧ job.path ≠ [] := by
  induction jobs generalizing entries with
  | nil =>
    cases h
    rfl
  | cons job jobs ih =>
    simp only [List.mapM_cons, Option.bind_eq_bind, Option.bind_eq_some_iff] at h
    rcases h with ⟨j, hj, js, hjs, hentries⟩
    cases hentries
    rw [read_jobs, read_job_job_json hj, ih hjs]
    by_cases hkeep : job.id ≠ [] ∧ job.path ≠ []
    · simp [hkeep]
    · rw [List.filter_cons_of_neg (by simpa using hkeep)]
      simp only [hkeep, if_false]

theorem valid_job_json {job : Job} {j : Json} (h : job_json page job = some j) :
    j.Valid ↔ (∀ s ∈ [job.id, job.upload_id] ++ job.metadata.strings, Utf8.Valid s) ∧
      ∃ bytes ∈ page.encode job.path, Utf8.Valid bytes := by
  rcases Option.map_eq_some_iff.mp h with ⟨bytes, hbytes, rfl⟩
  simp only [Json.Valid, Json.strings, Json.memberStrings, metadata_json, Json.ofUInt32,
    Json.ofInt32, Json.ofInt64, EvidenceMetadata.strings, hbytes]
  simp
  tauto

theorem valid_entries (h : jobs.mapM (job_json page) = some entries) :
    (∀ s ∈ Json.elementStrings entries, Utf8.Valid s) ↔
      ∀ job ∈ jobs, (∀ s ∈ [job.id, job.upload_id] ++ job.metadata.strings, Utf8.Valid s) ∧
        ∃ bytes ∈ page.encode job.path, Utf8.Valid bytes := by
  induction jobs generalizing entries with
  | nil =>
    cases h
    simp [Json.elementStrings]
  | cons job jobs ih =>
    simp only [List.mapM_cons, Option.bind_eq_bind, Option.bind_eq_some_iff] at h
    rcases h with ⟨j, hj, js, hjs, hentries⟩
    cases hentries
    rw [List.forall_mem_cons, ← valid_job_json hj, ← ih hjs]
    simp only [Json.elementStrings, Json.Valid, List.mem_append, or_imp, forall_and]

theorem mapM_job_json (h : ∀ job ∈ jobs, ∃ bytes ∈ page.encode job.path, Utf8.Valid bytes) :
    ∃ entries, jobs.mapM (job_json page) = some entries := by
  induction jobs with
  | nil => exact ⟨[], rfl⟩
  | cons job jobs ih =>
    rw [List.forall_mem_cons] at h
    rcases h with ⟨⟨bytes, hbytes, -⟩, hjobs⟩
    rcases ih hjobs with ⟨entries, hentries⟩
    rw [Option.mem_def] at hbytes
    rw [List.mapM_cons, job_json, hbytes, hentries]
    exact ⟨_, rfl⟩

/-- The text of the queue, with white space behind it, gives back its entries. -/
theorem save_entries {root : Json} {indent : Option ℕ} {text white : Text}
    (hroot : root = .object [(Utf8.bytes "jobs", .array entries),
      (Utf8.bytes "version", .ofInt32 1)])
    (h : root.dump indent = some text) (hwhite : white.all Json.blank = true) :
    load page (some (Utf8.encode (text ++ white))) = read_jobs page entries := by
  rw [load, Option.bind_some, Json.parseBytes_dump h hwhite, hroot]
  simp [Json.value?, Json.isObject, Json.find?, Utf8.bytes_inj, Json.items]

theorem restores_of_storable (h : ∀ job ∈ jobs, Storable page job) : Restores page jobs := by
  rcases mapM_job_json fun job hjob => (h job hjob).narrow with ⟨entries, hentries⟩
  have hstrings := (valid_entries hentries).mpr fun job hjob =>
    ⟨(h job hjob).strings, (h job hjob).narrow⟩
  have hvalid : (Json.object [(Utf8.bytes "jobs", .array entries),
      (Utf8.bytes "version", .ofInt32 1)]).Valid := by
    intro s hs
    simp only [Json.strings, Json.memberStrings, Json.ofInt32, List.append_nil,
      List.mem_cons, List.mem_append, List.not_mem_nil, or_false] at hs
    rcases hs with (rfl | hs) | rfl
    · exact Utf8.valid_bytes _
    · exact hstrings s hs
    · exact Utf8.valid_bytes _
  rcases Option.isSome_iff_exists.mp ((Json.dump_isSome (some 2)).mpr hvalid) with
    ⟨body, hbody⟩
  refine ⟨body ++ ['\n'], ?_, ?_⟩
  · rw [save_locked, hentries, Option.bind_some, hbody, Option.map_some]
  · rw [save_entries rfl hbody (by decide), read_jobs_entries hentries, List.filter_eq_self]
    intro job hjob
    exact decide_eq_true ⟨(h job hjob).id, (h job hjob).path⟩

theorem exists_of_save_locked {text : Text} (h : save_locked page jobs = some text) :
    ∃ entries body, jobs.mapM (job_json page) = some entries ∧
      (Json.object [(Utf8.bytes "jobs", .array entries),
        (Utf8.bytes "version", .ofInt32 1)]).dump (some 2) = some body ∧ text = body ++ ['\n'] := by
  simp only [save_locked, Option.bind_eq_some_iff, Option.map_eq_some_iff] at h
  rcases h with ⟨entries, hentries, body, hbody, rfl⟩
  exact ⟨entries, body, hentries, hbody, rfl⟩

theorem storable_of_save_locked {text : Text}
    (hnamed : ∀ job ∈ jobs, job.id ≠ [] ∧ job.path ≠ [])
    (h : save_locked page jobs = some text) : ∀ job ∈ jobs, Storable page job := by
  rcases exists_of_save_locked h with ⟨entries, body, hentries, hbody, -⟩
  have hvalid := (Json.dump_isSome _).mp (Option.isSome_of_mem hbody)
  have hstrings := (valid_entries hentries).mp fun s hs =>
    hvalid s (by simp [Json.strings, Json.memberStrings, hs])
  intro job hjob
  exact ⟨(hnamed job hjob).1, (hnamed job hjob).2, (hstrings job hjob).1, (hstrings job hjob).2⟩

/-- Saving and loading gives the same jobs exactly when each of them can be stored. -/
theorem restores_iff (page : CodePage) (jobs : List Job) :
    Restores page jobs ↔ ∀ job ∈ jobs, Storable page job := by
  apply Iff.intro _ restores_of_storable
  rintro ⟨text, hsave, hload⟩
  apply storable_of_save_locked _ hsave
  rcases exists_of_save_locked hsave with ⟨entries, body, hentries, hbody, rfl⟩
  rw [save_entries rfl hbody (by decide), read_jobs_entries hentries, List.filter_eq_self] at hload
  exact fun job hjob => of_decide_eq_true (hload job hjob)

def cyrillicJob : Job where
  id := Utf8.bytes "1-1"
  path := "C:/игра/a.mp4".toList.map fun c => UInt16.ofNat c.toNat
  metadata := {}

/-- Under code page 1251 its path is no UTF-8, and saving throws. -/
theorem not_alwaysRestores :
    ¬ ∀ (page : CodePage) (jobs : List Job), (∀ job ∈ jobs, job.id ≠ [] ∧ job.path ≠ []) →
      Restores page jobs := by
  intro hall
  have hnamed : ∀ job ∈ [cyrillicJob], job.id ≠ [] ∧ job.path ≠ [] := by decide +kernel
  rcases hall .windows1251 [cyrillicJob] hnamed with ⟨text, hsave, -⟩
  have hthrows : save_locked .windows1251 [cyrillicJob] = none := by decide +kernel
  rw [hthrows] at hsave
  cases hsave

end UploadQueue
end GambitRecord.Recorder
