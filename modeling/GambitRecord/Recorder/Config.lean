import GambitRecord.Library.Json.Access
import GambitRecord.Library.Utf16
import GambitRecord.Recorder.UploadJob

/-! # The configuration

`Config` with its file: `load_or_create`, `save`, `resolve_paths` and `validate`.
What the file system decides about paths is a parameter.
-/

namespace GambitRecord.Recorder
open Library Library.DigitText

namespace Config

structure Capture where
  process : WidePath := Utf16.units "gta_sa.exe"
  backend : Bytes := Utf8.bytes "windows_graphics_capture"
  deriving DecidableEq

structure Video where
  fps : UInt32 := 60
  bitrate : UInt32 := 16000000
  codec : Bytes := Utf8.bytes "h264"
  prefer_hardware_encoder : Bool := true
  keyframe_interval_seconds : UInt32 := 2
  queue_frames : UInt64 := 6
  deriving DecidableEq

structure Audio where
  enabled : Bool := true
  mode : Bytes := Utf8.bytes "process"
  microphone : Bool := false
  deriving DecidableEq

structure Broker where
  enabled : Bool := true
  endpoint : Bytes := Utf8.bytes "https://gambit-record-broker.whatdroyidclo.workers.dev"
  channel_title : Bytes := Utf8.bytes "Gambit Record"
  retry_seconds : UInt32 := 30
  deriving DecidableEq

structure Recording where
  directory : WidePath := Utf16.units "grecord/records"
  archive_limit_gb : UInt32 := 20
  deriving DecidableEq

structure Replay where
  enabled : Bool := true
  auto_start : Bool := true
  seconds : UInt32 := 600
  storage : Bytes := Utf8.bytes "disk"
  cache_directory : WidePath := Utf16.units "grecord/cache"
  segment_seconds : UInt32 := 10
  deriving DecidableEq

structure Logging where
  directory : WidePath := Utf16.units "grecord/logs"
  level : Bytes := Utf8.bytes "info"
  deriving DecidableEq

end Config

structure Config where
  capture : Config.Capture := {}
  video : Config.Video := {}
  audio : Config.Audio := {}
  broker : Config.Broker := {}
  recording : Config.Recording := {}
  replay : Config.Replay := {}
  logging : Config.Logging := {}
  deriving DecidableEq

/-- Paths as the file system sees them from the executable's directory: which are relative, where
a relative one leads, and which lie within `grecord`. -/
structure Paths where
  is_relative : WidePath → Bool
  join : WidePath → WidePath
  absolute : ∀ path, is_relative (join path) = false
  within : WidePath → Bool

namespace Config

def path_utf8 (path : WidePath) : Option Bytes := (Utf16.decode path).map Utf8.encode

/-- Of a string from a JSON text, which is UTF-8. -/
def widen (value : Bytes) : WidePath := Utf16.encode ((Utf8.decode value).getD [])

/-- A member of a group, or the fallback; it throws when the member has another type. -/
def value_at {α : Type} (j : Json) (group key : String) (fallback : α) (get : Json → Option α) :
    Option α :=
  match j.find? (Utf8.bytes group) with
  | none => some fallback
  | some g =>
    if ¬ g.isObject then some fallback
    else match g.find? (Utf8.bytes key) with
    | none => some fallback
    | some v => get v

def getPath (j : Json) : Option WidePath := j.getString.map widen

def read (j : Json) : Option Config := do
  let c : Config := {}
  let process ← value_at j "capture" "process" c.capture.process getPath
  let backend ← value_at j "capture" "backend" c.capture.backend Json.getString
  let fps ← value_at j "video" "fps" c.video.fps Json.getUInt32
  let bitrate ← value_at j "video" "bitrate" c.video.bitrate Json.getUInt32
  let codec ← value_at j "video" "codec" c.video.codec Json.getString
  let prefer_hardware_encoder ←
    value_at j "video" "prefer_hardware_encoder" c.video.prefer_hardware_encoder Json.getBool
  let keyframe_interval_seconds ←
    value_at j "video" "keyframe_interval_seconds" c.video.keyframe_interval_seconds Json.getUInt32
  let queue_frames ← value_at j "video" "queue_frames" c.video.queue_frames Json.getUInt64
  let audio_enabled ← value_at j "audio" "enabled" c.audio.enabled Json.getBool
  let mode ← value_at j "audio" "mode" c.audio.mode Json.getString
  let microphone ← value_at j "audio" "microphone" c.audio.microphone Json.getBool
  let broker_enabled ← value_at j "broker" "enabled" c.broker.enabled Json.getBool
  let endpoint ← value_at j "broker" "endpoint" c.broker.endpoint Json.getString
  let channel_title ← value_at j "broker" "channel_title" c.broker.channel_title Json.getString
  let retry_seconds ← value_at j "broker" "retry_seconds" c.broker.retry_seconds Json.getUInt32
  let records ← value_at j "recording" "directory" c.recording.directory getPath
  let archive_limit_gb ←
    value_at j "recording" "archive_limit_gb" c.recording.archive_limit_gb Json.getUInt32
  let replay_enabled ← value_at j "replay" "enabled" c.replay.enabled Json.getBool
  let auto_start ← value_at j "replay" "auto_start" c.replay.auto_start Json.getBool
  let seconds ← value_at j "replay" "seconds" c.replay.seconds Json.getUInt32
  let storage ← value_at j "replay" "storage" c.replay.storage Json.getString
  let cache_directory ← value_at j "replay" "cache_directory" c.replay.cache_directory getPath
  let segment_seconds ←
    value_at j "replay" "segment_seconds" c.replay.segment_seconds Json.getUInt32
  let logs ← value_at j "logging" "directory" c.logging.directory getPath
  let level ← value_at j "logging" "level" c.logging.level Json.getString
  some
    { capture := { process, backend }
      video :=
        { fps, bitrate, codec, prefer_hardware_encoder, keyframe_interval_seconds, queue_frames }
      audio := { enabled := audio_enabled, mode, microphone }
      broker := { enabled := broker_enabled, endpoint, channel_title, retry_seconds }
      recording := { directory := records, archive_limit_gb }
      replay :=
        { enabled := replay_enabled, auto_start, seconds, storage, cache_directory
          segment_seconds }
      logging := { directory := logs, level } }

/-- Without a file the defaults hold (and are written). -/
def load_or_create (file : Option Bytes) : Option Config :=
  match file with
  | none => some {}
  | some bytes => (Json.readBytes bytes).bind read

/-- The value that `save` writes; the process is always the game's. -/
def json (c : Config) : Option Json := do
  let records ← path_utf8 c.recording.directory
  let cache_directory ← path_utf8 c.replay.cache_directory
  let logs ← path_utf8 c.logging.directory
  some (.object
    [(Utf8.bytes "audio", .object
      [(Utf8.bytes "enabled", .ofBool c.audio.enabled),
        (Utf8.bytes "microphone", .ofBool c.audio.microphone),
        (Utf8.bytes "mode", .string c.audio.mode)]),
    (Utf8.bytes "broker", .object
      [(Utf8.bytes "channel_title", .string c.broker.channel_title),
        (Utf8.bytes "enabled", .ofBool c.broker.enabled),
        (Utf8.bytes "endpoint", .string c.broker.endpoint),
        (Utf8.bytes "retry_seconds", .ofUInt32 c.broker.retry_seconds)]),
    (Utf8.bytes "capture", .object
      [(Utf8.bytes "backend", .string c.capture.backend),
        (Utf8.bytes "process", .string (Utf8.bytes "gta_sa.exe"))]),
    (Utf8.bytes "logging", .object
      [(Utf8.bytes "directory", .string logs),
        (Utf8.bytes "level", .string c.logging.level)]),
    (Utf8.bytes "recording", .object
      [(Utf8.bytes "archive_limit_gb", .ofUInt32 c.recording.archive_limit_gb),
        (Utf8.bytes "directory", .string records)]),
    (Utf8.bytes "replay", .object
      [(Utf8.bytes "auto_start", .ofBool c.replay.auto_start),
        (Utf8.bytes "cache_directory", .string cache_directory),
        (Utf8.bytes "enabled", .ofBool c.replay.enabled),
        (Utf8.bytes "seconds", .ofUInt32 c.replay.seconds),
        (Utf8.bytes "segment_seconds", .ofUInt32 c.replay.segment_seconds),
        (Utf8.bytes "storage", .string c.replay.storage)]),
    (Utf8.bytes "video", .object
      [(Utf8.bytes "bitrate", .ofUInt32 c.video.bitrate),
        (Utf8.bytes "codec", .string c.video.codec),
        (Utf8.bytes "fps", .ofUInt32 c.video.fps),
        (Utf8.bytes "keyframe_interval_seconds", .ofUInt32 c.video.keyframe_interval_seconds),
        (Utf8.bytes "prefer_hardware_encoder", .ofBool c.video.prefer_hardware_encoder),
        (Utf8.bytes "queue_frames", .ofUInt64 c.video.queue_frames)])])

/-- What the disk does to the file of `save`: it does not open, its end is lost, or all is well. -/
inductive Disk where
  | refused
  | cut (missing : ℕ)
  | complete
  deriving DecidableEq

def Disk.kept (disk : Disk) (bytes : Bytes) : Bytes :=
  match disk with
  | .cut missing => bytes.take (bytes.length - missing)
  | _ => bytes

/-- At most the newline at the end is lost. -/
def Disk.Whole (disk : Disk) : Prop := ∀ missing, disk = .cut missing → missing ≤ 1

instance : DecidablePred Disk.Whole
  | .refused => isTrue (by rintro _ ⟨⟩)
  | .complete => isTrue (by rintro _ ⟨⟩)
  | .cut missing => decidable_of_iff (missing ≤ 1) ⟨by rintro h _ ⟨⟩; exact h, fun h => h _ rfl⟩

/-- The file after `save`, and whether it threw; the stream is not looked at after it was
opened. -/
def save (c : Config) (file : Option Bytes) (disk : Disk) : Option Bytes × Bool :=
  match c.json with
  | none => (file, true)
  | some j =>
    if disk = .refused then (file, true)
    else match j.dump (some 2) with
    | none => (some [], true)
    | some text => (some (disk.kept (Utf8.encode (text ++ ['\n']))), false)

def written (c : Config) : Config :=
  { c with capture := { c.capture with process := Utf16.units "gta_sa.exe" } }

def resolve (paths : Paths) (path : WidePath) : WidePath :=
  if paths.is_relative path then paths.join path else path

def resolve_paths (paths : Paths) (c : Config) : Config :=
  { c with
    recording := { c.recording with directory := resolve paths c.recording.directory }
    replay := { c.replay with cache_directory := resolve paths c.replay.cache_directory }
    logging := { c.logging with directory := resolve paths c.logging.directory } }

/-- The text of the exception, if there is one. -/
def validate (paths : Paths) (c : Config) : Option Text :=
  if c.video.codec ≠ Utf8.bytes "h264" ∨ c.video.fps < 10 ∨ c.video.fps > 240 ∨
      c.video.bitrate < 500000 ∨ c.video.bitrate > 200000000 then
    some (text "invalid video configuration")
  else if c.video.queue_frames < 2 ∨ c.video.queue_frames > 120 then
    some (text "video.queue_frames out of range")
  else if c.replay.seconds < 10 ∨ c.replay.seconds > 3600 ∨ c.replay.segment_seconds < 1 ∨
      c.replay.segment_seconds > 60 then
    some (text "invalid replay configuration")
  else if c.replay.storage ≠ Utf8.bytes "disk" ∧ c.replay.storage ≠ Utf8.bytes "memory" then
    some (text "replay.storage must be disk or memory")
  else if c.audio.mode ≠ Utf8.bytes "process" ∧ c.audio.mode ≠ Utf8.bytes "system" ∧
      c.audio.mode ≠ Utf8.bytes "disabled" then
    some (text "audio.mode must be process, system, or disabled")
  else if c.capture.backend ≠ Utf8.bytes "windows_graphics_capture" ∧
      c.capture.backend ≠ Utf8.bytes "desktop_duplication" then
    some (text "capture.backend is invalid")
  else if ¬ paths.within c.replay.cache_directory then
    some (text "cache_directory must remain inside the executable grecord directory")
  else if ¬ paths.within c.recording.directory then
    some (text "recording.directory must remain inside the executable grecord directory")
  else if c.recording.archive_limit_gb < 1 ∨ c.recording.archive_limit_gb > 1024 then
    some (text "recording.archive_limit_gb out of range")
  else if c.broker.retry_seconds < 5 ∨ c.broker.retry_seconds > 3600 then
    some (text "broker.retry_seconds out of range")
  else if c.broker.enabled ∧ ¬ (Utf8.bytes "https://").isPrefixOf c.broker.endpoint then
    some (text "broker.endpoint must use HTTPS")
  else none

/-- What a worker makes of its file when it starts. -/
def start_up (paths : Paths) (file : Option Bytes) : Option Config :=
  ((load_or_create file).map (resolve_paths paths)).filter fun c => c.validate paths = none

structure Acceptable (paths : Paths) (c : Config) : Prop where
  video : c.video.codec = Utf8.bytes "h264" ∧ 10 ≤ c.video.fps ∧ c.video.fps ≤ 240 ∧
    500000 ≤ c.video.bitrate ∧ c.video.bitrate ≤ 200000000
  queue_frames : 2 ≤ c.video.queue_frames ∧ c.video.queue_frames ≤ 120
  replay : 10 ≤ c.replay.seconds ∧ c.replay.seconds ≤ 3600 ∧ 1 ≤ c.replay.segment_seconds ∧
    c.replay.segment_seconds ≤ 60
  storage : c.replay.storage = Utf8.bytes "disk" ∨ c.replay.storage = Utf8.bytes "memory"
  mode : c.audio.mode = Utf8.bytes "process" ∨ c.audio.mode = Utf8.bytes "system" ∨
    c.audio.mode = Utf8.bytes "disabled"
  backend : c.capture.backend = Utf8.bytes "windows_graphics_capture" ∨
    c.capture.backend = Utf8.bytes "desktop_duplication"
  cache_directory : paths.within c.replay.cache_directory
  directory : paths.within c.recording.directory
  archive_limit_gb : 1 ≤ c.recording.archive_limit_gb ∧ c.recording.archive_limit_gb ≤ 1024
  retry_seconds : 5 ≤ c.broker.retry_seconds ∧ c.broker.retry_seconds ≤ 3600
  endpoint : c.broker.enabled → (Utf8.bytes "https://").isPrefixOf c.broker.endpoint

theorem validate_eq_none_iff {paths : Paths} {c : Config} :
    c.validate paths = none ↔ c.Acceptable paths := by
  have hcheck : ∀ (p : Prop) [Decidable p] (what : Text) (rest : Option Text),
      (if p then some what else rest) = none ↔ ¬ p ∧ rest = none := by
    intro p _ what rest
    by_cases hp : p <;> simp [hp]
  simp only [validate, hcheck, not_or, not_and, not_not, UInt32.not_lt, UInt64.not_lt, gt_iff_lt,
    ← or_iff_not_imp_left, and_true]
  constructor
  · rintro ⟨h1, h2, h3, h4, h5, h6, h7, h8, h9, h10, h11⟩
    exact ⟨h1, h2, h3, h4, h5, h6, h7, h8, h9, h10, h11⟩
  · rintro ⟨h1, h2, h3, h4, h5, h6, h7, h8, h9, h10, h11⟩
    exact ⟨h1, h2, h3, h4, h5, h6, h7, h8, h9, h10, h11⟩

def Resolved (paths : Paths) (c : Config) : Prop :=
  ∀ path ∈ [c.recording.directory, c.replay.cache_directory, c.logging.directory],
    paths.is_relative path = false

theorem is_relative_resolve (paths : Paths) (path : WidePath) :
    paths.is_relative (resolve paths path) = false := by
  unfold resolve
  by_cases h : paths.is_relative path
  · rw [if_pos h]
    exact paths.absolute path
  · rw [if_neg h]
    exact Bool.eq_false_iff.mpr h

theorem resolved_resolve_paths (paths : Paths) (c : Config) :
    (c.resolve_paths paths).Resolved paths := by
  simp [Resolved, resolve_paths, is_relative_resolve]

theorem resolve_paths_of_resolved {paths : Paths} {c : Config} (h : c.Resolved paths) :
    c.resolve_paths paths = c := by
  simp only [Resolved, List.forall_mem_cons, List.not_mem_nil, false_imp_iff, implies_true,
    and_true] at h
  rcases h with ⟨hrecords, hcache, hlogs⟩
  simp [resolve_paths, resolve, hrecords, hcache, hlogs]

theorem start_up_eq_some {paths : Paths} {file : Option Bytes} {c : Config}
    (h : start_up paths file = some c) : c.Acceptable paths ∧ c.Resolved paths := by
  rw [start_up, Option.filter_eq_some_iff, decide_eq_true_eq] at h
  rcases Option.map_eq_some_iff.mp h.1 with ⟨read, -, rfl⟩
  exact ⟨validate_eq_none_iff.mp h.2, resolved_resolve_paths paths read⟩

theorem widen_path_utf8 {path : WidePath} {bytes : Bytes} (h : path_utf8 path = some bytes) :
    widen bytes = path := by
  rcases Option.map_eq_some_iff.mp h with ⟨cs, hcs, rfl⟩
  rw [widen, Utf8.decode_encode, Option.getD_some, Utf16.encode_of_decode hcs]

theorem widen_process : widen (Utf8.bytes "gta_sa.exe") = Utf16.units "gta_sa.exe" := by
  decide +kernel

/-- Reading the written value gives the configuration back, but for the process. -/
theorem read_json {c : Config} {j : Json} (h : c.json = some j) :
    read j = some c.written := by
  simp only [json, Option.bind_eq_bind, Option.bind_eq_some_iff, Option.some_inj] at h
  rcases h with ⟨records, hrecords, cache, hcache, logs, hlogs, rfl⟩
  simp [written, read, value_at, Json.find?, Json.isObject, Utf8.bytes_inj, getPath, widen_process,
    widen_path_utf8 hrecords, widen_path_utf8 hcache, widen_path_utf8 hlogs]

theorem parseBytes_kept {indent : Option ℕ} {j : Json} {body : Text} {disk : Disk}
    (h : j.dump indent = some body) (hdisk : disk.Whole) :
    Json.parseBytes (disk.kept (Utf8.encode (body ++ ['\n']))) = some j := by
  have hwhole : Json.parseBytes (Utf8.encode (body ++ ['\n'])) = some j :=
    Json.parseBytes_dump h rfl
  cases disk with
  | cut missing =>
    have hnewline : Utf8.encode ['\n'] = [10] := rfl
    rcases Nat.le_one_iff_eq_zero_or_eq_one.mp (hdisk missing rfl) with rfl | rfl
    · rw [Disk.kept, Nat.sub_zero, List.take_length]
      exact hwhole
    · have hbare : Json.parseBytes (Utf8.encode (body ++ [])) = some j :=
        Json.parseBytes_dump h rfl
      simpa [Disk.kept, hnewline] using hbare
  | _ => exact hwhole

theorem load_save {c : Config} {file : Option Bytes} {disk : Disk}
    (h : (c.save file disk).2 = false) (hdisk : disk.Whole) :
    load_or_create (c.save file disk).1 = some c.written := by
  cases hjson : c.json with
  | none => simp [save, hjson] at h
  | some j =>
    by_cases hrefused : disk = .refused
    · simp [save, hjson, hrefused] at h
    · cases hdump : j.dump (some 2) with
      | none => simp [save, hjson, hrefused, hdump] at h
      | some body =>
        have hread := Json.readBytes_of_parseBytes (parseBytes_kept hdump hdisk)
        simp only [save, hjson, hrefused, hdump, if_false, load_or_create, hread,
          Option.bind_some, read_json hjson]

/-- A worker starts from what an acceptable configuration with absolute directories saved. -/
theorem start_up_save {paths : Paths} {c : Config} {file : Option Bytes} {disk : Disk}
    (hc : c.Acceptable paths) (hresolved : c.Resolved paths)
    (h : (c.save file disk).2 = false) (hdisk : disk.Whole) :
    start_up paths (c.save file disk).1 = some c.written := by
  have hwritten : c.written.Resolved paths := hresolved
  have hvalid : c.written.Acceptable paths :=
    { video := hc.video, queue_frames := hc.queue_frames, replay := hc.replay
      storage := hc.storage, mode := hc.mode, backend := hc.backend
      cache_directory := hc.cache_directory, directory := hc.directory
      archive_limit_gb := hc.archive_limit_gb, retry_seconds := hc.retry_seconds
      endpoint := hc.endpoint }
  rw [start_up, load_save h hdisk, Option.map_some, resolve_paths_of_resolved hwritten,
    Option.filter_eq_some_iff]
  exact ⟨rfl, decide_eq_true (validate_eq_none_iff.mpr hvalid)⟩

end Config
end GambitRecord.Recorder
