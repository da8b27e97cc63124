import Mathlib.Data.List.Nodup
import GambitRecord.Library.Post
import GambitRecord.Recorder.RecordingSession
import GambitRecord.Recorder.Settings
import GambitRecord.Recorder.StateFile

/-! # What the worker answers

`Application::handle_command`: the response to each command, made of the request
and of what the other components say while it is handled. A response may be built
from any bytes, but only UTF-8 can be written out; the postcondition of a command
leads to the strings that decide it.
-/

namespace GambitRecord.Recorder
open Library Library.DigitText

inductive CaptureState where
  | WaitingForGame | Starting | Running | Restarting | Error
  deriving DecidableEq

def CaptureState.to_string : CaptureState → Bytes
  | .WaitingForGame => Utf8.bytes "waiting_for_game"
  | .Starting => Utf8.bytes "starting"
  | .Running => Utf8.bytes "running"
  | .Restarting => Utf8.bytes "restarting"
  | .Error => Utf8.bytes "error"

def RecordingState.to_string : RecordingState → Bytes
  | .Stopped => Utf8.bytes "stopped"
  | .WaitingForKeyframe => Utf8.bytes "waiting_for_keyframe"
  | .Recording => Utf8.bytes "recording"
  | .Stopping => Utf8.bytes "stopping"
  | .Error => Utf8.bytes "error"

def ReplayState.to_string : ReplayState → Bytes
  | .Stopped => Utf8.bytes "stopped"
  | .Starting => Utf8.bytes "starting"
  | .Running => Utf8.bytes "running"
  | .Saving => Utf8.bytes "saving"
  | .Error => Utf8.bytes "error"

/-- The duration in seconds is a double. -/
structure SaveResult where
  success : Bool
  path : WidePath
  duration_seconds : Json.Scalar
  error : Bytes

structure ChannelResult where
  success : Bool
  channel_id : Bytes
  title : Bytes
  error : Bytes

/-- The members of the queue's status, with the defaults of those it may leave out. -/
structure UploadStatus where
  in_progress : Bool := false
  phase : Bytes := []
  sent_bytes : UInt64 := 0
  total_bytes : UInt64 := 0
  percent : UInt32 := 0
  pending : UInt32 := 0
  last_success : Bool := false
  last_url : Bytes := []
  last_error : Bytes := []
  last_target_id : Int32 := -1
  last_target_name : Bytes := []

/-- What the components answer while one command is handled. A state that a command reads twice
may differ between the two reads; a call that throws gives the text of its exception. -/
structure Components where
  settings : Settings
  disk : Config.Disk := .complete
  save_what : Bytes := []
  build_configured : Bool := true
  capture_ready : Bool := false
  capture_state : CaptureState := .WaitingForGame
  game_found : Bool := false
  recording_start : Bool := true
  recording_stop : Except Bytes WidePath := .ok []
  recording_state : RecordingState := .Stopped
  recording_state_again : RecordingState := .Stopped
  recording_state_named : RecordingState := .Stopped
  recording_seconds : Int64 := 0
  enqueue : Except Bytes Bytes := .ok []
  enforce_archive_limit : Except Bytes Unit := .ok ()
  upload_status : UploadStatus := {}
  channel : ChannelResult := ⟨false, [], [], []⟩
  marker_opens : Bool := true
  replay_start : Bool := true
  replay_stop : Except Bytes Bool := .ok true
  replay_save : Except Bytes Unit := .ok ()
  replay_state : ReplayState := .Stopped
  replay_state_again : ReplayState := .Stopped
  replay_state_named : ReplayState := .Stopped
  replay_available_seconds : Int64 := 0
  save_pending : Bool := false
  save_generation : UInt64 := 0
  last_save : Option SaveResult := none
  encoder_name : Text := []
  dropped_frames : UInt64 := 0
  width : UInt32 := 0
  height : UInt32 := 0
  audio_running : Bool := false

namespace Responses
variable (page : CodePage) (exceptions : Exceptions)

def member {α : Type} (j : Json) (key expected : String) (default : α) (get : Json → Option α) :
    Except Bytes α :=
  match j.value? (Utf8.bytes key) default get with
  | some x => .ok x
  | none => .error (exceptions.type expected ((j.find? (Utf8.bytes key)).getD j))

/-- `path::string`. -/
def narrow (path : WidePath) : Except Bytes Bytes :=
  match page.encode path with
  | some bytes => .ok bytes
  | none => .error (exceptions.convert path)

/-- `path::u8string`. -/
def u8string (path : WidePath) : Except Bytes Bytes :=
  match Config.path_utf8 path with
  | some bytes => .ok bytes
  | none => .error (exceptions.convert path)

/-- Without an object the metadata are empty. -/
def parse_metadata (request : Json) : Except Bytes EvidenceMetadata :=
  match request.find? (Utf8.bytes "metadata") with
  | none => .ok {}
  | some j =>
    if ¬ j.isObject then .ok {}
    else match metadata_from j with
    | some metadata => .ok metadata
    | none => .error (exceptions.type "metadata" j)

def message (success : Bool) (text : String) : Json :=
  .object
    [(Utf8.bytes "message", .string (Utf8.bytes text)), (Utf8.bytes "success", .ofBool success)]

variable (c : Components) (request : Json)

def youtube_configured : Bool := c.settings.config.broker.endpoint ≠ [] ∧ c.build_configured

def record_start : Response :=
  if ¬ c.capture_ready then .ok (failure "CAPTURE_NOT_READY" "Game capture is still starting")
  else do
    let _ ← parse_metadata exceptions request
    return message c.recording_start
      (if c.recording_start then "Recording start requested" else "Recording already active")

/-- The recording's upload is queued when it is asked for and possible. -/
def queues (path : WidePath) (upload : Bool) : Bool :=
  path ≠ [] ∧ upload ∧ c.settings.config.broker.enabled ∧ youtube_configured c

def queue_upload (path : WidePath) (upload : Bool) : Except Bytes (Option Bytes) :=
  if queues c path upload then do
    let _ ← parse_metadata exceptions request
    let id ← c.enqueue
    return some id
  else return none

def upload_members (upload : Bool) : Option Bytes → List (Bytes × Json)
  | some id =>
    [(Utf8.bytes "upload_id", .string id), (Utf8.bytes "upload_queued", .ofBool true)]
  | none =>
    (if upload then
      [(Utf8.bytes "upload_error", .string
        (if c.settings.config.broker.enabled then Utf8.bytes "YOUTUBE_NOT_CONFIGURED"
          else Utf8.bytes "YOUTUBE_DISABLED"))]
      else []) ++ [(Utf8.bytes "upload_queued", .ofBool false)]

/-- The archive limit is enforced before the answer, when there is a file to keep. -/
def limit_archive (path : WidePath) : Except Bytes Unit :=
  if path = [] then .ok () else c.enforce_archive_limit

def record_stop : Response :=
  if c.recording_state = .Stopped then .ok (failure "NOT_RECORDING" "Recording is not active")
  else do
    let path ← c.recording_stop
    let bytes ← narrow page exceptions path
    let upload ← member exceptions request "upload" "boolean" true Json.getBool
    let id ← queue_upload exceptions c request path upload
    let _ ← limit_archive c path
    return .object
      ([(Utf8.bytes "message", .string
          (if path = [] then Utf8.bytes "Recording stop failed"
            else Utf8.bytes "Recording stopped")),
        (Utf8.bytes "path", .string bytes),
        (Utf8.bytes "success", .ofBool (path ≠ []))] ++ upload_members c upload id)

def settings : Response :=
  .ok (.object
    [(Utf8.bytes "archive_limit_gb", .ofUInt32 c.settings.config.recording.archive_limit_gb),
      (Utf8.bytes "audio_enabled", .ofBool c.settings.config.audio.enabled),
      (Utf8.bytes "microphone_enabled", .ofBool c.settings.config.audio.microphone),
      (Utf8.bytes "microphone_supported", .ofBool true),
      (Utf8.bytes "success", .ofBool true),
      (Utf8.bytes "youtube_channel", .string c.settings.config.broker.channel_title),
      (Utf8.bytes "youtube_configured", .ofBool (youtube_configured c)),
      (Utf8.bytes "youtube_enabled", .ofBool c.settings.config.broker.enabled)])

def youtube_channel : Response :=
  .ok (.object
    [(Utf8.bytes "channel_id", .string c.channel.channel_id),
      (Utf8.bytes "channel_title", .string c.channel.title),
      (Utf8.bytes "error", .string c.channel.error),
      (Utf8.bytes "message", .string
        (if c.channel.success then Utf8.bytes "YouTube channel found" else c.channel.error)),
      (Utf8.bytes "success", .ofBool c.channel.success)])

def settings_set : Response :=
  (Settings.settings_set exceptions c.settings
    { request, disk := c.disk, what := c.save_what, build_configured := c.build_configured }).2

def replay_start : Response :=
  .ok (message c.replay_start
    (if c.replay_start then "Replay buffer started" else "Replay buffer already active"))

def marker_failure (error : String) : Json :=
  .object [(Utf8.bytes "error", .string (Utf8.bytes error)), (Utf8.bytes "success", .ofBool false)]

/-- The marker's line is written out before the answer. -/
def marker : Response :=
  if c.recording_state = .Stopped then .ok (marker_failure "NOT_RECORDING")
  else if ¬ c.marker_opens then .ok (marker_failure "MARKER_WRITE_FAILED")
  else do
    let label ←
      member exceptions request "label" "string" (Utf8.bytes "important") Json.getString
    let line := Json.object
      [(Utf8.bytes "label", .string label),
        (Utf8.bytes "recording_seconds", .ofInt64 c.recording_seconds)]
    match line.dump none with
    | none => .error (exceptions.dump line)
    | some _ => .ok (.object [(Utf8.bytes "success", .ofBool true)])

def replay_stop : Response := do
  let stopped ← c.replay_stop
  return message stopped
    (if stopped then "Replay buffer stopped" else "Replay buffer is stopped or saving")

def replay_save : Response :=
  if c.replay_state ≠ .Running then
    .ok (failure "REPLAY_NOT_RUNNING" "Replay buffer is not running")
  else if ¬ c.capture_ready then
    .ok (failure "CAPTURE_NOT_READY" "No recent encoded video is available")
  else if c.save_pending then
    .ok (failure "SAVE_IN_PROGRESS" "Replay save is already in progress")
  else do
    let _ ← parse_metadata exceptions request
    let _ ← c.replay_save
    return .object
      [(Utf8.bytes "message", .string (Utf8.bytes "Replay save started")),
        (Utf8.bytes "save_id", .ofUInt64 (c.save_generation + 1)),
        (Utf8.bytes "saving", .ofBool true),
        (Utf8.bytes "success", .ofBool true)]

def last_saved : Except Bytes (Option (SaveResult × Bytes)) :=
  match c.last_save with
  | none => .ok none
  | some save => do
    let path ← narrow page exceptions save.path
    return some (save, path)

def last_save_members : Option (SaveResult × Bytes) → List (Bytes × Json)
  | none => []
  | some (save, path) =>
    [(Utf8.bytes "last_save_duration_seconds", .scalar save.duration_seconds),
      (Utf8.bytes "last_save_error", .string save.error),
      (Utf8.bytes "last_save_path", .string path),
      (Utf8.bytes "last_save_success", .ofBool save.success)]

def status : Response := do
  let recording_directory ← u8string exceptions c.settings.config.recording.directory
  let saved ← last_saved page exceptions c
  return .object
    ([(Utf8.bytes "audio", .ofBool c.audio_running),
      (Utf8.bytes "audio_enabled", .ofBool c.settings.config.audio.enabled),
      (Utf8.bytes "capture", .ofBool c.capture_ready),
      (Utf8.bytes "capture_state", .string c.capture_state.to_string),
      (Utf8.bytes "dropped_frames", .ofUInt64 c.dropped_frames),
      (Utf8.bytes "encoder", .string (Utf8.encode c.encoder_name)),
      (Utf8.bytes "fps", .ofUInt32 c.settings.config.video.fps),
      (Utf8.bytes "game_found", .ofBool c.game_found),
      (Utf8.bytes "height", .ofUInt32 c.height)] ++ last_save_members saved ++
    [(Utf8.bytes "microphone_enabled", .ofBool c.settings.config.audio.microphone),
      (Utf8.bytes "microphone_supported", .ofBool true),
      (Utf8.bytes "recording", .ofBool (c.recording_state = .Recording ∨
        c.recording_state_again = .WaitingForKeyframe)),
      (Utf8.bytes "recording_directory", .string recording_directory),
      (Utf8.bytes "recording_seconds", .ofInt64 c.recording_seconds),
      (Utf8.bytes "recording_state", .string c.recording_state_named.to_string),
      (Utf8.bytes "replay_available_seconds", .ofInt64 c.replay_available_seconds),
      (Utf8.bytes "replay_buffer", .ofBool (c.replay_state ≠ .Stopped ∧
        c.replay_state_again ≠ .Error)),
      (Utf8.bytes "replay_seconds", .ofUInt32 c.settings.config.replay.seconds),
      (Utf8.bytes "replay_state", .string c.replay_state_named.to_string),
      (Utf8.bytes "save_id", .ofUInt64 c.save_generation),
      (Utf8.bytes "save_in_progress", .ofBool c.save_pending),
      (Utf8.bytes "success", .ofBool true),
      (Utf8.bytes "width", .ofUInt32 c.width),
      (Utf8.bytes "youtube_channel", .string c.settings.config.broker.channel_title),
      (Utf8.bytes "youtube_configured", .ofBool (youtube_configured c)),
      (Utf8.bytes "youtube_enabled", .ofBool c.settings.config.broker.enabled),
      (Utf8.bytes "youtube_last_upload_error", .string c.upload_status.last_error),
      (Utf8.bytes "youtube_last_upload_success", .ofBool c.upload_status.last_success),
      (Utf8.bytes "youtube_last_upload_target_id", .ofInt32 c.upload_status.last_target_id),
      (Utf8.bytes "youtube_last_upload_target_name", .string c.upload_status.last_target_name),
      (Utf8.bytes "youtube_last_upload_url", .string c.upload_status.last_url),
      (Utf8.bytes "youtube_upload_in_progress", .ofBool c.upload_status.in_progress),
      (Utf8.bytes "youtube_upload_pending", .ofUInt32 c.upload_status.pending),
      (Utf8.bytes "youtube_upload_percent", .ofUInt32 c.upload_status.percent),
      (Utf8.bytes "youtube_upload_phase", .string c.upload_status.phase),
      (Utf8.bytes "youtube_upload_sent_bytes", .ofUInt64 c.upload_status.sent_bytes),
      (Utf8.bytes "youtube_upload_total_bytes", .ofUInt64 c.upload_status.total_bytes)])

/-- The commands in the order in which they are compared. -/
def commands : List (String × Response) :=
  [("record_start", record_start exceptions c request),
    ("record_stop", record_stop page exceptions c request),
    ("settings", settings c),
    ("youtube_channel", youtube_channel c),
    ("settings_set", settings_set exceptions c request),
    ("replay_start", replay_start c),
    ("marker", marker exceptions c request),
    ("replay_stop", replay_stop c),
    ("replay_save", replay_save exceptions c request),
    ("status", status page exceptions c)]

def handle_command : Response := do
  let command ← member exceptions request "command" "string" [] Json.getString
  match (commands page exceptions c request).find? fun entry => Utf8.bytes entry.1 = command with
  | some entry => entry.2
  | none => .ok (failure "UNKNOWN_COMMAND" "Unknown command")

variable {page exceptions c request}

theorem post_member {α : Type} {j : Json} {key expected : String} {default : α}
    {get : Json → Option α} {P : α → Prop} :
    Post Utf8.Valid (member exceptions j key expected default get) P ↔
      ∀ x ∈ j.value? (Utf8.bytes key) default get, P x := by
  unfold member
  cases hx : j.value? (Utf8.bytes key) default get with
  | none => simp [exceptions.valid_type]
  | some x => simp

theorem post_parse_metadata {P : EvidenceMetadata → Prop} :
    Post Utf8.Valid (parse_metadata exceptions request) P ↔
      ∀ metadata, parse_metadata exceptions request = .ok metadata → P metadata := by
  have hvalid : ∀ what, parse_metadata exceptions request = .error what → Utf8.Valid what := by
    intro what h
    unfold parse_metadata at h
    cases hfind : request.find? (Utf8.bytes "metadata") with
    | none => simp [hfind] at h
    | some j =>
      by_cases hobject : j.isObject
      · cases hread : metadata_from j with
        | none =>
          simp only [hfind, hobject, hread] at h
          cases h
          exact exceptions.valid_type _ _
        | some metadata => simp [hfind, hobject, hread] at h
      · simp [hfind, hobject] at h
  cases hparse : parse_metadata exceptions request with
  | ok metadata => simp
  | error what => simp [hvalid what hparse]

theorem valid_failure {error text : String} : (failure error text).Valid := by simp [failure]

theorem valid_message {success : Bool} {text : String} : (message success text).Valid := by
  simp [message]

theorem post_queue_upload {path : WidePath} {upload : Bool} {P : Option Bytes → Prop} :
    Post Utf8.Valid (queue_upload exceptions c request path upload) P ↔
      if queues c path upload then
        ∀ metadata, parse_metadata exceptions request = .ok metadata →
          Post Utf8.Valid c.enqueue fun id => P (some id)
      else P none := by
  unfold queue_upload
  by_cases hqueues : queues c path upload
  · simp [hqueues, post_parse_metadata]
  · simp [hqueues]

theorem valid_upload_members {upload : Bool} {id : Option Bytes} :
    (Json.object (upload_members c upload id)).Valid ↔ ∀ s ∈ id, Utf8.Valid s := by
  cases id with
  | some id => simp [upload_members]
  | none =>
    by_cases henabled : c.settings.config.broker.enabled
    · cases upload <;> simp [upload_members, henabled]
    · cases upload <;> simp [upload_members, henabled]

section
variable (page exceptions c request)

/-- The path and the job's identifier are UTF-8, unless an exception replaces the response. -/
def WritableStop : Prop :=
  Post Utf8.Valid c.recording_stop fun path => Post Utf8.Valid (narrow page exceptions path) fun bytes =>
    ∀ upload ∈ request.value? (Utf8.bytes "upload") true Json.getBool,
      if queues c path upload then
        ∀ metadata, parse_metadata exceptions request = .ok metadata →
          Post Utf8.Valid c.enqueue fun id => Post Utf8.Valid (limit_archive c path) fun _ =>
            Utf8.Valid bytes ∧ Utf8.Valid id
      else Post Utf8.Valid (limit_archive c path) fun _ => Utf8.Valid bytes

def WritableStatus : Prop :=
  Post Utf8.Valid (u8string exceptions c.settings.config.recording.directory) fun _ =>
    Post Utf8.Valid (last_saved page exceptions c) fun saved =>
      (∀ s ∈ saved, Utf8.Valid s.1.error ∧ Utf8.Valid s.2) ∧
        Utf8.Valid c.settings.config.broker.channel_title ∧
        Utf8.Valid c.upload_status.last_error ∧ Utf8.Valid c.upload_status.last_target_name ∧
        Utf8.Valid c.upload_status.last_url ∧ Utf8.Valid c.upload_status.phase

/-- The text of the exception, when saving the changed settings throws. -/
def WritableSettings : Prop :=
  ∀ values ∈ request.find? (Utf8.bytes "settings"), values.isObject → ∀ config,
    Settings.update (Settings.updates exceptions values) c.settings.config = (config, none) →
    (config.save c.settings.file c.disk).2 → Utf8.Valid c.save_what

/-- What the answer to a command takes from outside must be UTF-8: the recording's and the
replay's path in the code page, texts of exceptions, and the texts of the broker. -/
structure Writable (command : Bytes) : Prop where
  record_stop : command = Utf8.bytes "record_stop" → c.recording_state ≠ .Stopped →
    WritableStop page exceptions c request
  settings : command = Utf8.bytes "settings" → Utf8.Valid c.settings.config.broker.channel_title
  youtube_channel : command = Utf8.bytes "youtube_channel" →
    Utf8.Valid c.channel.channel_id ∧ Utf8.Valid c.channel.title ∧ Utf8.Valid c.channel.error
  settings_set : command = Utf8.bytes "settings_set" → WritableSettings exceptions c request
  replay_stop : command = Utf8.bytes "replay_stop" → Post Utf8.Valid c.replay_stop fun _ => True
  replay_save : command = Utf8.bytes "replay_save" → c.replay_state = .Running →
    c.capture_ready → ¬ c.save_pending →
    ∀ metadata, parse_metadata exceptions request = .ok metadata →
      Post Utf8.Valid c.replay_save fun _ => True
  status : command = Utf8.bytes "status" → WritableStatus page exceptions c

end

theorem post_record_start : Post Utf8.Valid (record_start exceptions c request) Json.Valid := by
  unfold record_start
  by_cases hready : c.capture_ready
  · simp [hready, post_parse_metadata, valid_message]
  · simp [hready, valid_failure]

theorem post_record_stop (hstate : c.recording_state ≠ .Stopped) :
    Post Utf8.Valid (record_stop page exceptions c request) Json.Valid ↔
      WritableStop page exceptions c request := by
  rw [record_stop, if_neg hstate, post_bind]
  apply post_congr
  intro path
  rw [post_bind]
  apply post_congr
  intro bytes
  rw [post_bind, post_member]
  simp only [post_bind, post_queue_upload, post_pure, Json.valid_object_append,
    Json.valid_object_cons, valid_upload_members]
  by_cases hpath : path = []
  · simp [hpath]
  · simp [hpath]

theorem post_settings :
    Post Utf8.Valid (settings c) Json.Valid ↔ Utf8.Valid c.settings.config.broker.channel_title := by
  simp [settings]

theorem post_youtube_channel :
    Post Utf8.Valid (youtube_channel c) Json.Valid ↔
      Utf8.Valid c.channel.channel_id ∧ Utf8.Valid c.channel.title ∧
        Utf8.Valid c.channel.error := by
  by_cases hsuccess : c.channel.success <;> simp [youtube_channel, hsuccess]

theorem valid_update {fs : List (Config → Except Bytes Config)}
    (hfs : ∀ f ∈ fs, ∀ config what, f config = .error what → Utf8.Valid what)
    {config d : Config} {what : Bytes} (h : Settings.update fs config = (d, some what)) :
    Utf8.Valid what := by
  induction fs generalizing config with
  | nil => cases h
  | cons f fs ih =>
    rw [List.forall_mem_cons] at hfs
    cases hf : f config with
    | error text =>
      simp only [Settings.update, hf] at h
      cases h
      exact hfs.1 _ _ hf
    | ok e =>
      simp only [Settings.update, hf] at h
      exact ih hfs.2 h

theorem valid_assign {α : Type} {values : Json} {key expected : String} {get : Json → Option α}
    {set : α → Config → Config} {config : Config} {what : Bytes}
    (h : Settings.assign exceptions values key expected get set config = .error what) :
    Utf8.Valid what := by
  unfold Settings.assign at h
  cases hv : values.find? (Utf8.bytes key) with
  | none => simp [hv] at h
  | some v =>
    cases hx : get v with
    | none =>
      simp only [hv, hx] at h
      cases h
      exact exceptions.valid_type _ _
    | some x => simp [hv, hx] at h

theorem valid_updates (values : Json) :
    ∀ f ∈ Settings.updates exceptions values, ∀ config what, f config = .error what →
      Utf8.Valid what := by
  simp only [Settings.updates, List.forall_mem_cons, List.not_mem_nil, false_imp_iff,
    implies_true, and_true]
  have hone : ∀ config what, Settings.one_source config = .error what → Utf8.Valid what := by
    intro config what h
    unfold Settings.one_source at h
    split_ifs at h
  exact ⟨fun _ _ => valid_assign, fun _ _ => valid_assign, fun _ _ => valid_assign, hone,
    fun _ _ => valid_assign⟩

theorem post_settings_set :
    Post Utf8.Valid (settings_set exceptions c request) Json.Valid ↔
      WritableSettings exceptions c request := by
  unfold settings_set Settings.settings_set WritableSettings
  cases hvalues : request.find? (Utf8.bytes "settings") with
  | none => simp [valid_failure]
  | some values =>
    by_cases hobject : values.isObject
    · rcases hupdate : Settings.update (Settings.updates exceptions values) c.settings.config with
        ⟨config, _ | what⟩
      · by_cases hthrew : (config.save c.settings.file c.disk).2
        · simp [hobject, hupdate, hthrew]
        · simp [hobject, hupdate, hthrew, Settings.settings_saved]
      · simp [hobject, hupdate, valid_update (valid_updates values) hupdate]
    · simp [hobject, valid_failure]

theorem post_marker : Post Utf8.Valid (marker exceptions c request) Json.Valid := by
  unfold marker
  by_cases hstate : c.recording_state = .Stopped
  · simp [hstate, marker_failure]
  · by_cases hopens : c.marker_opens
    · rw [if_neg hstate, if_neg (not_not.mpr hopens), post_bind, post_member]
      intro label _
      dsimp only
      split
      · exact exceptions.valid_dump _
      · simp
    · simp [hstate, hopens, marker_failure]

theorem post_replay_stop :
    Post Utf8.Valid (replay_stop c) Json.Valid ↔ Post Utf8.Valid c.replay_stop fun _ => True := by
  unfold replay_stop
  simp [valid_message]

theorem post_replay_save :
    Post Utf8.Valid (replay_save exceptions c request) Json.Valid ↔
      (c.replay_state = .Running → c.capture_ready → ¬ c.save_pending →
        ∀ metadata, parse_metadata exceptions request = .ok metadata →
          Post Utf8.Valid c.replay_save fun _ => True) := by
  unfold replay_save
  by_cases hstate : c.replay_state = .Running
  · by_cases hready : c.capture_ready
    · by_cases hpending : c.save_pending
      · simp [hstate, hready, hpending, valid_failure]
      · simp [hstate, hready, hpending, post_parse_metadata]
    · simp [hstate, hready, valid_failure]
  · simp [hstate, valid_failure]

theorem valid_u8string {path : WidePath} {bytes : Bytes}
    (h : u8string exceptions path = .ok bytes) : Utf8.Valid bytes := by
  unfold u8string at h
  cases hutf8 : Config.path_utf8 path with
  | none => simp [hutf8] at h
  | some narrow =>
    simp only [hutf8] at h
    cases h
    rcases Option.map_eq_some_iff.mp hutf8 with ⟨text, -, rfl⟩
    exact Utf8.valid_encode text

theorem valid_last_save_members {saved : Option (SaveResult × Bytes)} :
    (Json.object (last_save_members saved)).Valid ↔
      ∀ s ∈ saved, Utf8.Valid s.1.error ∧ Utf8.Valid s.2 := by
  cases saved <;> simp [last_save_members]

theorem valid_to_string (capture : CaptureState) (recording : RecordingState)
    (replay : ReplayState) :
    Utf8.Valid capture.to_string ∧ Utf8.Valid recording.to_string ∧
      Utf8.Valid replay.to_string := by
  refine ⟨?_, ?_, ?_⟩
  · cases capture <;> exact Utf8.valid_bytes _
  · cases recording <;> exact Utf8.valid_bytes _
  · cases replay <;> exact Utf8.valid_bytes _

theorem post_status :
    Post Utf8.Valid (status page exceptions c) Json.Valid ↔ WritableStatus page exceptions c := by
  have hnames := valid_to_string c.capture_state c.recording_state_named c.replay_state_named
  unfold status WritableStatus
  cases hdirectory : u8string exceptions c.settings.config.recording.directory with
  | error what => simp
  | ok directory =>
    have hvalid := valid_u8string hdirectory
    rw [post_bind, post_ok, post_bind, post_ok]
    apply post_congr
    intro saved
    simp only [post_pure, Json.valid_object_append, Json.valid_object_cons,
      valid_last_save_members, Utf8.valid_bytes, Json.valid_string, Json.valid_ofBool,
      Json.valid_ofUInt32, Json.valid_ofUInt64, Json.valid_ofInt32, Json.valid_ofInt64,
      Json.valid_object_nil, Utf8.valid_encode, hnames, hvalid, true_and, and_true]

/-- Dispatching over distinct names does what the entry with the name does. -/
theorem post_dispatch {entries : List (String × Response)} {command : Bytes} {default : Response}
    (hnames : (entries.map Prod.fst).Nodup) (hdefault : Post Utf8.Valid default Json.Valid) :
    Post Utf8.Valid (match entries.find? fun entry => Utf8.bytes entry.1 = command with
        | some entry => entry.2
        | none => default) Json.Valid ↔
      ∀ entry ∈ entries, command = Utf8.bytes entry.1 → Post Utf8.Valid entry.2 Json.Valid := by
  cases hfind : entries.find? fun entry => Utf8.bytes entry.1 = command with
  | none =>
    apply iff_of_true hdefault
    intro entry hentry hcommand
    have hne := List.find?_eq_none.mp hfind entry hentry
    exact absurd (decide_eq_true hcommand.symm) hne
  | some entry =>
    have hname : Utf8.bytes entry.1 = command := by simpa using List.find?_some hfind
    have hmem := List.mem_of_find?_eq_some hfind
    constructor
    · intro hpost other hother hcommand
      have hsame : entry.1 = other.1 := Utf8.bytes_inj.mp (hname.trans hcommand)
      rw [← List.inj_on_of_nodup_map hnames hmem hother hsame]
      exact hpost
    · intro hall
      exact hall entry hmem hname.symm

/-- The answer can be written out exactly when what it takes from outside is UTF-8. -/
theorem post_handle_command :
    Post Utf8.Valid (handle_command page exceptions c request) Json.Valid ↔
      ∀ command ∈ request.value? (Utf8.bytes "command") [] Json.getString,
        Writable page exceptions c request command := by
  have hnames : ((commands page exceptions c request).map Prod.fst).Nodup := by
    simp [commands]
  rw [handle_command, post_bind, post_member]
  apply forall₂_congr
  intro command _
  rw [post_dispatch hnames (post_ok.mpr valid_failure)]
  simp only [commands, List.forall_mem_cons, List.not_mem_nil, false_imp_iff, implies_true,
    and_true, post_settings, post_youtube_channel, post_settings_set, post_replay_stop,
    post_replay_save, post_status]
  constructor
  · rintro ⟨-, hstop, hsettings, hchannel, hset, -, -, hreplay, hsave, hstatus⟩
    exact ⟨fun hcommand hstate => (post_record_stop hstate).mp (hstop hcommand), hsettings,
      hchannel, hset, hreplay, hsave, hstatus⟩
  · intro h
    refine ⟨fun _ => post_record_start, fun hcommand => ?_, h.settings, h.youtube_channel,
      h.settings_set, fun _ => valid_message, fun _ => post_marker, h.replay_stop, h.replay_save,
      h.status⟩
    by_cases hstate : c.recording_state = .Stopped
    · rw [record_stop, if_pos hstate]
      exact valid_failure
    · exact (post_record_stop hstate).mpr (h.record_stop hcommand hstate)

abbrev Object (r : Response) : Prop := Post (fun _ => True) r fun j => j.isObject

theorem object_record_stop : Object (record_stop page exceptions c request) := by
  unfold record_stop
  split_ifs
  · rfl
  · exact Post.bind fun _ => Post.bind fun _ => Post.bind fun _ => Post.bind fun _ =>
      Post.bind fun _ => rfl

theorem object_settings_set : Object (settings_set exceptions c request) := by
  unfold settings_set Settings.settings_set
  cases request.find? (Utf8.bytes "settings") with
  | none => rfl
  | some values =>
    by_cases hobject : values.isObject
    · rcases hupdate : Settings.update (Settings.updates exceptions values) c.settings.config with
        ⟨config, _ | what⟩
      · by_cases hthrew : (config.save c.settings.file c.disk).2
        · simp [hobject, hupdate, hthrew]
        · simp [hobject, hupdate, hthrew, Settings.settings_saved]
      · simp [hobject, hupdate]
    · simp [hobject, failure]

theorem object_marker : Object (marker exceptions c request) := by
  unfold marker
  by_cases hstate : c.recording_state = .Stopped
  · rw [if_pos hstate]
    rfl
  · by_cases hopens : c.marker_opens
    · rw [if_neg hstate, if_neg (not_not.mpr hopens)]
      apply Post.bind
      intro label
      dsimp only
      split
      · trivial
      · rfl
    · rw [if_neg hstate, if_pos hopens]
      rfl

theorem object_replay_save : Object (replay_save exceptions c request) := by
  unfold replay_save
  by_cases hstate : c.replay_state = .Running
  · by_cases hready : c.capture_ready
    · by_cases hpending : c.save_pending
      · simp [hstate, hready, hpending, failure]
      · rw [if_neg (not_not.mpr hstate), if_neg (not_not.mpr hready), if_neg hpending]
        exact Post.bind fun _ => Post.bind fun _ => rfl
    · simp [hstate, hready, failure]
  · simp [hstate, failure]

theorem object_record_start : Object (record_start exceptions c request) := by
  unfold record_start
  by_cases hready : c.capture_ready
  · rw [if_neg (not_not.mpr hready)]
    exact Post.bind fun _ => rfl
  · rw [if_pos hready]
    rfl

theorem object_handle_command : Object (handle_command page exceptions c request) := by
  have hstop : Object (replay_stop c) := Post.bind fun _ => rfl
  have hstatus : Object (status page exceptions c) := Post.bind fun _ => Post.bind fun _ => rfl
  have hall : ∀ entry ∈ commands page exceptions c request, Object entry.2 := by
    simp only [commands, List.forall_mem_cons, List.not_mem_nil, false_imp_iff, implies_true,
      and_true]
    exact ⟨object_record_start, object_record_stop, rfl, rfl, object_settings_set, rfl, object_marker, hstop,
      object_replay_save, hstatus⟩
  apply Post.bind
  intro command
  cases hfind : (commands page exceptions c request).find? fun entry =>
      Utf8.bytes entry.1 = command with
  | none => rfl
  | some entry => exact hall entry (List.mem_of_find?_eq_some hfind)

end Responses
end GambitRecord.Recorder
