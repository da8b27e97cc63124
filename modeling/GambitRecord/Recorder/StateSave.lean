import GambitRecord.Library.Json.Truncated
import GambitRecord.Recorder.StateFile

/-! # Replacing the state file

`UploadQueue::save_locked` on the disk. The temporary file is written without a
look at its stream and renamed over the state file, so whatever reached the disk
becomes the state. The state is still the old list or the new one exactly when
what is renamed holds one of them whole.
-/

namespace GambitRecord.Recorder
open Library Library.DigitText

/-- The queue's files, as bytes on the disk. -/
structure StateFiles where
  state : Option Bytes
  temporary : Option Bytes
  deriving DecidableEq

/-- What the file system does in one save: the directory is there, the temporary file is opened,
so many of its bytes reach the disk, the file is renamed. -/
structure SaveAnswers where
  directory : Bool
  opens : Bool
  written : ℕ
  renames : Bool
  deriving DecidableEq

/-- `MoveFileExW` with a replaced target; without a temporary file it fails. -/
def StateFiles.move (files : StateFiles) : StateFiles :=
  match files.temporary with
  | none => files
  | some raw => { state := some raw, temporary := none }

namespace UploadQueue
variable (page : CodePage)

def raw (text : Text) : Bytes := TextMode.write (Utf8.encode text)

/-- `save_locked` with its effect on the disk, also when it throws. -/
def save_locked_files (jobs : List Job) (files : StateFiles) (answers : SaveAnswers) :
    StateFiles :=
  if answers.directory = false then files
  -- converting a path throws before the temporary file is opened
  else if jobs.mapM (job_json page) = none then files
  else
    let opened := if answers.opens then { files with temporary := some [] } else files
    match save_locked page jobs with
    -- `dump` throws while the file is open
    | none => opened
    | some text =>
      let written :=
        if answers.opens then { opened with temporary := some ((raw text).take answers.written) }
        else opened
      if answers.renames then written.move else written

def load_file (file : Option Bytes) : List Job := load page (file.map TextMode.read)

/-- A state file, or none, that is parsed and gives a list of jobs. -/
def Means (file : Option Bytes) (jobs : List Job) : Prop :=
  load_file page file = jobs ∧ ∀ bytes ∈ file, (Json.parseBytes (TextMode.read bytes)).isSome

/-- After a save the state file gives the old list or the new one. -/
def Survives (files : StateFiles) (old jobs : List Job) (answers : SaveAnswers) : Prop :=
  Means page (save_locked_files page jobs files answers).state old ∨
    Means page (save_locked_files page jobs files answers).state jobs

/-- How many bytes a list takes on the disk. -/
def disk_size (jobs : List Job) : ℕ :=
  match save_locked page jobs with
  | none => 0
  | some text => (raw text).length

/-- A save that renames a file renames a whole one: its own, but for the last new line, or one that
was left over and could not be opened. -/
def RenamesWhole (files : StateFiles) (old jobs : List Job) (answers : SaveAnswers) : Prop :=
  answers.directory = true → (∀ job ∈ jobs, Storable page job) → answers.renames = true →
    if answers.opens then disk_size page jobs ≤ answers.written + 2
    else ∀ bytes ∈ files.temporary, Means page (some bytes) old ∨ Means page (some bytes) jobs

variable {page} {jobs old : List Job} {files : StateFiles} {answers : SaveAnswers}

theorem raw_concat (body : Text) : raw (body ++ ['\n']) = raw body ++ [13, 10] := by
  rw [raw, Utf8.encode_append, TextMode.write_append]
  rfl

/-- A file that holds the text up to its last brace is parsed, and gives the jobs that have an id
and a path. -/
theorem load_file_of_le {text : Text} {k : ℕ} (h : save_locked page jobs = some text)
    (hk : (raw text).length ≤ k + 2) :
    load_file page (some ((raw text).take k)) =
        (jobs.filter fun job => job.id ≠ [] ∧ job.path ≠ []) ∧
      (Json.parseBytes (TextMode.read ((raw text).take k))).isSome := by
  rcases exists_of_save_locked h with ⟨entries, body, hentries, hbody, rfl⟩
  rw [raw_concat] at hk ⊢
  rw [List.length_append] at hk
  have hread : ∃ tail : Text, tail.all Json.blank = true ∧
      TextMode.read ((raw body ++ [13, 10]).take k) = Utf8.encode (body ++ tail) := by
    simp only [List.length_cons, List.length_nil] at hk
    rw [List.take_append, List.take_of_length_le (by omega), raw,
      TextMode.read_write_append (Json.plain_dump hbody), ← raw]
    match k - (raw body).length with
    | 0 => exact ⟨[], rfl, by simp [TextMode.read]⟩
    | 1 => exact ⟨['\r'], by decide, by rw [Utf8.encode_append]; rfl⟩
    | n + 2 =>
      rw [List.take_of_length_le (by simp), TextMode.read_newline]
      exact ⟨['\n'], by decide, by rw [Utf8.encode_append]; rfl⟩
  rcases hread with ⟨tail, htail, hread⟩
  constructor
  · rw [load_file, Option.map_some, hread, save_entries rfl hbody htail,
      read_jobs_entries hentries]
  · rw [hread, Json.parseBytes_dump hbody htail]
    rfl

theorem means_of_le {text : Text} {k : ℕ} (hnamed : ∀ job ∈ jobs, job.id ≠ [] ∧ job.path ≠ [])
    (h : save_locked page jobs = some text) (hk : (raw text).length ≤ k + 2) :
    Means page (some ((raw text).take k)) jobs := by
  obtain ⟨hload, hparsed⟩ := load_file_of_le h hk
  constructor
  · rw [hload, List.filter_eq_self]
    exact fun job hjob => decide_eq_true (hnamed job hjob)
  · rintro bytes ⟨⟩
    exact hparsed

theorem parse_of_lt {text : Text} {k : ℕ} (h : save_locked page jobs = some text)
    (hk : k + 2 < (raw text).length) :
    Json.parseBytes (TextMode.read ((raw text).take k)) = none := by
  rcases exists_of_save_locked h with ⟨entries, body, -, hbody, rfl⟩
  rw [raw_concat, List.length_append] at hk
  simp only [List.length_cons, List.length_nil] at hk
  have hlt : k < (raw body).length := by omega
  rw [raw_concat, List.take_append_of_le_length (Nat.le_of_lt hlt), raw,
    Json.parseBytes_cut hbody hlt]

/-- A shorter file gives no list. -/
theorem not_means_of_lt {text : Text} {k : ℕ} {any : List Job}
    (h : save_locked page jobs = some text) (hk : k + 2 < (raw text).length) :
    ¬ Means page (some ((raw text).take k)) any := by
  rintro ⟨-, hparsed⟩
  have hsome := hparsed _ rfl
  rw [parse_of_lt h hk] at hsome
  cases hsome

theorem save_locked_files_state (hdir : answers.directory = true)
    {text : Text} (h : save_locked page jobs = some text) (hmove : answers.renames = true) :
    (save_locked_files page jobs files answers).state =
      if answers.opens then some ((raw text).take answers.written)
      else files.temporary.or files.state := by
  rcases exists_of_save_locked h with ⟨entries, body, hentries, -, -⟩
  cases hopen : answers.opens with
  | true =>
    simp [save_locked_files, hdir, hentries, h, hmove, hopen, StateFiles.move]
  | false =>
    cases htemp : files.temporary <;>
      simp [save_locked_files, hdir, hentries, h, hmove, hopen, StateFiles.move, htemp]

theorem save_locked_files_state_of_none (h : answers.directory = true →
      answers.renames = true → save_locked page jobs = none) :
    (save_locked_files page jobs files answers).state = files.state := by
  unfold save_locked_files
  by_cases hdir : answers.directory = true
  · by_cases hpaths : jobs.mapM (job_json page) = none
    · simp only [hpaths, if_true, ite_self]
    · cases hsave : save_locked page jobs with
      | none =>
        simp only [hdir, hpaths, Bool.true_eq_false, if_false]
        split_ifs
        · rfl
        · rfl
      | some text =>
        have hmove : ¬ answers.renames = true := by
          intro hmove
          rw [h hdir hmove] at hsave
          cases hsave
        rw [Bool.not_eq_true] at hmove
        simp only [hdir, hpaths, hmove, Bool.true_eq_false, Bool.false_eq_true, if_false]
        split_ifs <;> rfl
  · rw [if_pos (by simpa using hdir)]

/-- A save leaves the old list or the new one in the state file exactly when a file that it
renames is whole. -/
theorem survives_iff (page : CodePage) (files : StateFiles) (old jobs : List Job)
    (answers : SaveAnswers) (hold : Means page files.state old)
    (hnamed : ∀ job ∈ jobs, job.id ≠ [] ∧ job.path ≠ []) :
    Survives page files old jobs answers ↔ RenamesWhole page files old jobs answers := by
  by_cases hrenamed : answers.directory = true ∧ answers.renames = true ∧
      ∀ job ∈ jobs, Storable page job
  rotate_left
  · have hkept : (save_locked_files page jobs files answers).state = files.state := by
      apply save_locked_files_state_of_none
      intro hdir hmove
      by_contra hsave
      rcases Option.ne_none_iff_exists'.mp hsave with ⟨text, htext⟩
      exact hrenamed ⟨hdir, hmove, storable_of_save_locked hnamed htext⟩
    rw [Survives, hkept]
    constructor
    · intro _ hdir hjobs hmove
      exact absurd ⟨hdir, hmove, hjobs⟩ hrenamed
    · exact fun _ => Or.inl hold
  · rcases hrenamed with ⟨hdir, hmove, hjobs⟩
    rcases restores_of_storable hjobs with ⟨text, htext, -⟩
    have hstate := @save_locked_files_state _ _ files _ hdir _ htext hmove
    have hwhole : RenamesWhole page files old jobs answers ↔
        if answers.opens then disk_size page jobs ≤ answers.written + 2
        else ∀ bytes ∈ files.temporary, Means page (some bytes) old ∨ Means page (some bytes) jobs :=
      ⟨fun h => h hdir hjobs hmove, fun h _ _ _ => h⟩
    rw [Survives, hwhole, hstate]
    cases hopen : answers.opens with
    | true =>
      simp only [if_true, disk_size, htext]
      constructor
      · intro hmeans
        by_contra hlt
        have hnone := fun any => @not_means_of_lt _ _ _ _ any htext (Nat.not_le.mp hlt)
        exact hmeans.elim (hnone old) (hnone jobs)
      · exact fun hle => Or.inr (means_of_le hnamed htext hle)
    | false =>
      simp only [Bool.false_eq_true, if_false]
      cases htemp : files.temporary with
      | none => simp [hold]
      | some bytes => simp

def fullDiskFiles : StateFiles where
  state := some (Utf8.bytes "\x7b\"jobs\":[\x7b\"id\":\"1-1\",\"path\":\"a\"\x7d]\x7d")
  temporary := none

def fullDiskJob : Job where
  id := Utf8.bytes "1-1"
  path := [97]
  metadata := {}

/-- The disk is full: the temporary file is made, but none of its bytes is kept. -/
def fullDisk : SaveAnswers where
  directory := true
  opens := true
  written := 0
  renames := true

theorem means_fullDiskFiles : Means .windows1251 fullDiskFiles.state [fullDiskJob] := by
  refine ⟨by decide +kernel, ?_⟩
  rintro bytes ⟨⟩
  decide +kernel

theorem survives_fullDisk :
    Survives .windows1251 fullDiskFiles [fullDiskJob] [fullDiskJob] fullDisk ↔
      RenamesWhole .windows1251 fullDiskFiles [fullDiskJob] [fullDiskJob] fullDisk :=
  survives_iff .windows1251 fullDiskFiles [fullDiskJob] [fullDiskJob] fullDisk
    means_fullDiskFiles (by decide +kernel)

/-- The good file is replaced by an empty one. -/
theorem not_alwaysSurvives :
    ¬ ∀ (page : CodePage) (files : StateFiles) (old jobs : List Job) (answers : SaveAnswers),
      Means page files.state old → (∀ job ∈ jobs, job.id ≠ [] ∧ job.path ≠ []) →
        Survives page files old jobs answers := by
  intro hall
  have hnamed : ∀ job ∈ [fullDiskJob], job.id ≠ [] ∧ job.path ≠ [] := by decide +kernel
  have hempty : (save_locked_files .windows1251 [fullDiskJob] fullDiskFiles fullDisk).state =
      some [] := by decide +kernel
  have hunread : Json.parseBytes (TextMode.read []) = none := by decide +kernel
  have hsurvives := hall _ _ _ _ fullDisk means_fullDiskFiles hnamed
  rw [Survives, hempty] at hsurvives
  rcases hsurvives with ⟨-, hparsed⟩ | ⟨-, hparsed⟩
  · have hsome := hparsed [] rfl
    rw [hunread] at hsome
    cases hsome
  · have hsome := hparsed [] rfl
    rw [hunread] at hsome
    cases hsome

end UploadQueue
end GambitRecord.Recorder
