import GambitRecord.Library.Json.Truncated
import GambitRecord.Recorder.Settings

/-! # What the file of the configuration holds

`save` against `load_or_create`, and what `settings_set` leaves in the
configuration, the file, the uploader and the upload queue.
-/

namespace GambitRecord.Recorder
open Library

namespace Config

def Convertible (c : Config) : Prop :=
  ∀ path ∈ [c.recording.directory, c.replay.cache_directory, c.logging.directory],
    (path_utf8 path).isSome

def Textual (c : Config) : Prop :=
  ∀ s ∈ [c.capture.backend, c.video.codec, c.audio.mode, c.broker.endpoint,
    c.broker.channel_title, c.replay.storage, c.logging.level], Utf8.Valid s

instance (c : Config) : Decidable c.Convertible := List.decidableBAll _ _

instance (c : Config) : Decidable c.Textual := List.decidableBAll _ _

theorem json_isSome {c : Config} : c.json.isSome ↔ c.Convertible := by
  simp only [Convertible, List.forall_mem_cons, List.not_mem_nil, false_imp_iff, implies_true,
    and_true]
  rw [json]
  cases path_utf8 c.recording.directory with
  | none => simp
  | some records =>
    cases path_utf8 c.replay.cache_directory with
    | none => simp
    | some cache =>
      cases path_utf8 c.logging.directory with
      | none => simp
      | some logs => simp

theorem json_spec {c : Config} {j : Json} (h : c.json = some j) :
    (∃ ms, j = .object ms) ∧ (j.Valid ↔ c.Textual) := by
  have hpath : ∀ {path bytes}, path_utf8 path = some bytes → Utf8.Valid bytes := by
    intro path bytes h
    rcases Option.map_eq_some_iff.mp h with ⟨cs, -, rfl⟩
    exact Utf8.valid_encode cs
  simp only [json, Option.bind_eq_bind, Option.bind_eq_some_iff, Option.some_inj] at h
  rcases h with ⟨records, hrecords, cache, hcache, logs, hlogs, rfl⟩
  refine ⟨⟨_, rfl⟩, ?_⟩
  simp only [Json.valid_object_cons, Json.valid_object_nil, Json.valid_string, Json.valid_ofBool,
    Json.valid_ofUInt32, Json.valid_ofUInt64, Utf8.valid_bytes, hpath hrecords, hpath hcache,
    hpath hlogs, Textual, List.forall_mem_cons, List.not_mem_nil, false_imp_iff, implies_true,
    true_and, and_true]
  tauto

theorem save_refused {c : Config} {file : Option Bytes} {disk : Disk}
    (h : ¬ c.Convertible ∨ disk = .refused) : c.save file disk = (file, true) := by
  rw [save]
  cases hjson : c.json with
  | none => rfl
  | some j =>
    have hconvertible : c.Convertible := json_isSome.mp (by rw [hjson]; rfl)
    exact if_pos (h.resolve_left (not_not_intro hconvertible))

/-- A string that is not UTF-8 throws when the file is open already, and empty. -/
theorem save_untextual {c : Config} {file : Option Bytes} {disk : Disk} (hc : c.Convertible)
    (hdisk : disk ≠ .refused) (h : ¬ c.Textual) : c.save file disk = (some [], true) := by
  obtain ⟨j, hjson⟩ := Option.isSome_iff_exists.mp (json_isSome.mpr hc)
  have hdump : j.dump (some 2) = none := by
    rw [← Option.not_isSome_iff_eq_none, Json.dump_isSome, (json_spec hjson).2]
    exact h
  simp only [save, hjson, if_neg hdisk, hdump]

theorem save_textual {c : Config} {disk : Disk} (hc : c.Convertible) (hdisk : disk ≠ .refused)
    (h : c.Textual) : ∃ ms body, Json.dump (some 2) (.object ms) = some body ∧
      ∀ file, c.save file disk = (some (disk.kept (Utf8.encode (body ++ ['\n']))), false) := by
  obtain ⟨j, hjson⟩ := Option.isSome_iff_exists.mp (json_isSome.mpr hc)
  obtain ⟨⟨ms, rfl⟩, hvalid⟩ := json_spec hjson
  obtain ⟨body, hbody⟩ := Option.isSome_iff_exists.mp ((Json.dump_isSome (some 2)).mpr (hvalid.mpr h))
  exact ⟨ms, body, hbody, fun file => by simp only [save, hjson, if_neg hdisk, hbody]⟩

/-- A file that lost more than its newline is not loaded. -/
theorem load_save_cut {c : Config} {file : Option Bytes} {disk : Disk} (hc : c.Convertible)
    (hdisk : disk ≠ .refused) (h : c.Textual) (hcut : ¬ disk.Whole) :
    load_or_create (c.save file disk).1 = none := by
  obtain ⟨ms, body, hbody, hsave⟩ := save_textual hc hdisk h
  rw [hsave, load_or_create]
  cases disk with
  | refused => exact absurd rfl hdisk
  | complete => exact absurd (by rintro _ ⟨⟩) hcut
  | cut missing =>
    have hmissing : 1 < missing := by
      by_contra hle
      apply hcut
      rintro _ ⟨⟩
      exact Nat.le_of_not_lt hle
    have hnewline : Utf8.encode ['\n'] = [10] := rfl
    have hpos : 0 < (Utf8.encode body).length := by
      obtain ⟨middle, rfl⟩ := Json.dump_object hbody
      rw [Utf8.encode_cons, List.length_append]
      exact Nat.add_pos_left (List.length_pos_iff.mpr (Utf8.utf8EncodeChar_ne_nil _)) _
    rw [Disk.kept, Utf8.encode_append, hnewline, List.length_append, List.length_singleton,
      List.take_append_of_le_length (by omega), Json.readBytes_cut hbody (by omega)]
    rfl

/-- The file gives the settings back exactly when the disk takes it as a whole. -/
theorem load_save_iff {c : Config} {file : Option Bytes} {disk : Disk} (hc : c.Convertible)
    (hdisk : disk ≠ .refused) (h : c.Textual) :
    (∃ d, load_or_create (c.save file disk).1 = some d ∧ d.broker = c.broker ∧ d.audio = c.audio ∧
      d.recording = c.recording) ↔ disk.Whole := by
  constructor
  · rintro ⟨d, hd, -⟩
    by_contra hcut
    rw [load_save_cut hc hdisk h hcut] at hd
    cases hd
  · intro hwhole
    obtain ⟨ms, body, hbody, hsave⟩ := save_textual hc hdisk h
    exact ⟨_, load_save (congrArg Prod.snd (hsave file)) hwhole, rfl, rfl, rfl⟩

/-- With other values of the four settings that a request can name. -/
def withSettings (c : Config) (youtube audio microphone : Bool) (limit : UInt32) : Config :=
  { c with
    broker := { c.broker with enabled := youtube }
    audio := { c.audio with enabled := audio, microphone }
    recording := { c.recording with archive_limit_gb := limit } }

theorem withSettings_eq_self_iff {c : Config} {youtube audio microphone : Bool} {limit : UInt32} :
    c.withSettings youtube audio microphone limit = c ↔
      youtube = c.broker.enabled ∧ (audio, microphone) = (c.audio.enabled, c.audio.microphone) ∧
        limit = c.recording.archive_limit_gb := by
  constructor
  · intro h
    exact ⟨congrArg (fun d => d.broker.enabled) h,
      congrArg (fun d => (d.audio.enabled, d.audio.microphone)) h,
      congrArg (fun d => d.recording.archive_limit_gb) h⟩
  · rintro ⟨rfl, haudio, rfl⟩
    cases haudio
    rfl

end Config

namespace Settings

inductive Member (α : Type) where
  | absent
  | wrong
  | given (value : α)
  deriving DecidableEq

def member {α : Type} (values : Json) (key : String) (get : Json → Option α) : Member α :=
  match values.find? (Utf8.bytes key) with
  | none => .absent
  | some v =>
    match get v with
    | none => .wrong
    | some x => .given x

def Member.getD {α : Type} (m : Member α) (current : α) : α :=
  match m with
  | .given x => x
  | _ => current

def youtubeOf (values : Json) : Member Bool := member values "youtube_enabled" Json.getBool

def audioOf (values : Json) : Member Bool := member values "audio_enabled" Json.getBool

def microphoneOf (values : Json) : Member Bool := member values "microphone_enabled" Json.getBool

def limitOf (values : Json) : Member UInt32 := member values "archive_limit_gb" Json.getUInt32

variable {exceptions : Exceptions}

theorem assign_wrong {α : Type} {values : Json} {key expected : String} {get : Json → Option α}
    {set : α → Config → Config} (h : member values key get = .wrong) :
    ∃ what, ∀ c, assign exceptions values key expected get set c = .error what := by
  rw [member] at h
  cases hv : values.find? (Utf8.bytes key) with
  | none =>
    rw [hv] at h
    cases h
  | some v =>
    cases hx : get v with
    | none => exact ⟨exceptions.type expected v, fun c => by simp only [assign, hv, hx]⟩
    | some x =>
      simp only [hv, hx] at h
      cases h

theorem assign_right {α : Type} {values : Json} {key expected : String} {get : Json → Option α}
    {set : α → Config → Config} {current : α} {c : Config} (hset : set current c = c)
    (h : member values key get ≠ .wrong) :
    assign exceptions values key expected get set c =
      .ok (set ((member values key get).getD current) c) := by
  rw [member] at h ⊢
  cases hv : values.find? (Utf8.bytes key) with
  | none => simp only [assign, hv, Member.getD, hset]
  | some v =>
    cases hx : get v with
    | none =>
      simp only [hv, hx] at h
      exact absurd rfl h
    | some x => simp only [assign, hv, hx, Member.getD]

theorem one_source_withSettings (c : Config) (youtube audio microphone : Bool) (limit : UInt32) :
    one_source (c.withSettings youtube audio microphone limit) =
      .ok (c.withSettings youtube (audio && !microphone) microphone limit) := by
  cases microphone with
  | true =>
    rw [Bool.not_true, Bool.and_false]
    rfl
  | false =>
    rw [Bool.not_false, Bool.and_true]
    cases audio <;> rfl

theorem update_ok {f : Config → Except Bytes Config} {fs : List (Config → Except Bytes Config)}
    {c d : Config} (h : f c = .ok d) : update (f :: fs) c = update fs d := by
  rw [update, h]

/-- One assignment among the updates: a setting of a wrong type stops them, and any other leaves the
rest to come. -/
theorem update_assign {α : Type} [DecidableEq α] {values : Json} {key expected : String}
    {get : Json → Option α} {set : α → Config → Config} (current : α)
    {fs : List (Config → Except Bytes Config)} {c d : Config} {rest : Bytes → Config × Option Bytes}
    (hset : set current c = c) (hnext : set ((member values key get).getD current) c = d)
    (hrest : ∃ what, update fs d = rest what) :
    ∃ what, update (assign exceptions values key expected get set :: fs) c =
      if member values key get = .wrong then (c, some what) else rest what := by
  by_cases hwrong : member values key get = .wrong
  · obtain ⟨what, hwhat⟩ := @assign_wrong exceptions _ _ _ expected _ set hwrong
    exact ⟨what, by rw [if_pos hwrong, update, hwhat]⟩
  · obtain ⟨what, hwhat⟩ := hrest
    have hassign := @assign_right exceptions _ _ _ expected _ set _ c hset hwrong
    exact ⟨what, by rw [if_neg hwrong, update_ok hassign, hnext, hwhat]⟩

/-- What the updates leave: the settings before the first of a wrong type, and all of them if there
is none. -/
theorem update_updates (values : Json) (c : Config) :
    ∃ what, update (updates exceptions values) c =
      if youtubeOf values = .wrong then (c, some what)
      else
        let youtube := (youtubeOf values).getD c.broker.enabled
        let audio := (audioOf values).getD c.audio.enabled
        let microphone := (microphoneOf values).getD c.audio.microphone
        let limit := c.recording.archive_limit_gb
        if audioOf values = .wrong then
          (c.withSettings youtube c.audio.enabled c.audio.microphone limit, some what)
        else if microphoneOf values = .wrong then
          (c.withSettings youtube audio c.audio.microphone limit, some what)
        else if limitOf values = .wrong then
          (c.withSettings youtube (audio && !microphone) microphone limit, some what)
        else
          (c.withSettings youtube (audio && !microphone) microphone ((limitOf values).getD limit),
            none) := by
  apply update_assign c.broker.enabled rfl rfl
  apply update_assign c.audio.enabled rfl rfl
  apply update_assign c.audio.microphone rfl rfl
  change ∃ what, update [one_source, archive_limit_gb exceptions values]
    (c.withSettings ((youtubeOf values).getD c.broker.enabled)
      ((audioOf values).getD c.audio.enabled) ((microphoneOf values).getD c.audio.microphone)
      c.recording.archive_limit_gb) = _
  rw [update_ok (one_source_withSettings ..)]
  apply update_assign c.recording.archive_limit_gb rfl rfl
  exact ⟨[], rfl⟩

/-- No setting of the request has a wrong type. -/
def WellTyped (values : Json) : Prop :=
  youtubeOf values ≠ .wrong ∧ audioOf values ≠ .wrong ∧ microphoneOf values ≠ .wrong ∧
    limitOf values ≠ .wrong

instance (values : Json) : Decidable (WellTyped values) := inferInstanceAs (Decidable (_ ∧ _))

def requested (values : Json) (c : Config) : Config :=
  let microphone := (microphoneOf values).getD c.audio.microphone
  c.withSettings ((youtubeOf values).getD c.broker.enabled)
    ((audioOf values).getD c.audio.enabled && !microphone) microphone
    ((limitOf values).getD c.recording.archive_limit_gb)

/-- The settings of a request before the first of a wrong type are those in force; the sources of
sound are, when both are given. -/
def Unassigned (values : Json) (c : Config) : Prop :=
  youtubeOf values = .wrong ∨
    (youtubeOf values).getD c.broker.enabled = c.broker.enabled ∧
      (audioOf values = .wrong ∨
        if microphoneOf values = .wrong then
          (audioOf values).getD c.audio.enabled = c.audio.enabled
        else
          ((audioOf values).getD c.audio.enabled &&
              !(microphoneOf values).getD c.audio.microphone,
            (microphoneOf values).getD c.audio.microphone) =
              (c.audio.enabled, c.audio.microphone) ∧
            (limitOf values).getD c.recording.archive_limit_gb = c.recording.archive_limit_gb)

theorem update_of_wellTyped {values : Json} {c : Config} (h : WellTyped values) :
    update (updates exceptions values) c = (requested values c, none) := by
  obtain ⟨what, hupdate⟩ := @update_updates exceptions values c
  rw [hupdate, if_neg h.1]
  simp only [if_neg h.2.1, if_neg h.2.2.1, if_neg h.2.2.2]
  rfl

theorem update_of_not_wellTyped {values : Json} {c : Config} (h : ¬ WellTyped values) :
    ∃ d what, update (updates exceptions values) c = (d, some what) ∧
      (d = c ↔ Unassigned values c) := by
  obtain ⟨what, hupdate⟩ := @update_updates exceptions values c
  rw [hupdate, Unassigned]
  by_cases hyoutube : youtubeOf values = .wrong
  · exact ⟨c, what, if_pos hyoutube, iff_of_true rfl (.inl hyoutube)⟩
  rw [if_neg hyoutube, or_iff_right hyoutube]
  by_cases haudio : audioOf values = .wrong
  · simp only [if_pos haudio]
    refine ⟨_, what, rfl, ?_⟩
    rw [Config.withSettings_eq_self_iff]
    simp [haudio]
  simp only [if_neg haudio, or_iff_right haudio]
  by_cases hmicrophone : microphoneOf values = .wrong
  · simp only [if_pos hmicrophone]
    refine ⟨_, what, rfl, ?_⟩
    rw [Config.withSettings_eq_self_iff]
    simp
  have hlimit : limitOf values = .wrong := by
    by_contra hlimit
    exact h ⟨hyoutube, haudio, hmicrophone, hlimit⟩
  simp only [if_neg hmicrophone, if_pos hlimit]
  refine ⟨_, what, rfl, ?_⟩
  rw [Config.withSettings_eq_self_iff, hlimit]
  exact Iff.rfl

theorem requested_eq_self_iff {values : Json} {c : Config} (h : WellTyped values) :
    requested values c = c ↔ Unassigned values c := by
  rw [requested, Config.withSettings_eq_self_iff, Unassigned, or_iff_right h.1,
    or_iff_right h.2.1, if_neg h.2.2.1]

theorem settings_set_of_not_object {s : Settings} {call : SettingsCall}
    (h : ∀ values, call.request.find? (Utf8.bytes "settings") = some values → ¬ values.isObject) :
    settings_set exceptions s call =
      (s, .ok (failure "INVALID_SETTINGS" "settings object is required")) := by
  rw [settings_set]
  cases hvalues : call.request.find? (Utf8.bytes "settings") with
  | none => rfl
  | some values => exact if_pos (h values hvalues)

theorem settings_set_of_not_wellTyped {s : Settings} {call : SettingsCall} {values : Json}
    (hvalues : call.request.find? (Utf8.bytes "settings") = some values) (hobject : values.isObject)
    (h : ¬ WellTyped values) :
    ∃ c what, settings_set exceptions s call = ({ s with config := c }, .error what) ∧
      (c = s.config ↔ Unassigned values s.config) := by
  obtain ⟨c, what, hupdate, hc⟩ := @update_of_not_wellTyped exceptions values s.config h
  exact ⟨c, what, by simp only [settings_set, hvalues, hobject, not_true_eq_false, if_false, hupdate],
    hc⟩

def saved_response (c : Config) (call : SettingsCall) (threw : Bool) : Response :=
  if threw then
    .ok (.object
      [(Utf8.bytes "error", .string (Utf8.bytes "CONFIG_WRITE_FAILED")),
        (Utf8.bytes "message", .string call.what),
        (Utf8.bytes "success", .ofBool false)])
  else .ok (settings_saved c call.build_configured)

theorem settings_set_of_wellTyped {s : Settings} {call : SettingsCall} {values : Json}
    (hvalues : call.request.find? (Utf8.bytes "settings") = some values) (hobject : values.isObject)
    (h : WellTyped values) {file : Option Bytes} {threw : Bool}
    (hsave : (requested values s.config).save s.file call.disk = (file, threw)) :
    settings_set exceptions s call =
      (⟨requested values s.config, file⟩,
        saved_response (requested values s.config) call threw) := by
  simp only [settings_set, hvalues, hobject, not_true_eq_false, if_false, update_of_wellTyped h,
    hsave, saved_response]
  cases threw <;> rfl

def succeeded : Response → Bool
  | .ok j => (j.find? (Utf8.bytes "success")).bind Json.getBool = some true
  | .error _ => false

theorem not_succeeded_failure (error message : String) :
    succeeded (.ok (failure error message)) = false := by
  simp [succeeded, failure, Json.find?]

theorem succeeded_saved_response (c : Config) (call : SettingsCall) (threw : Bool) :
    succeeded (saved_response c call threw) = !threw := by
  cases threw <;> simp [succeeded, saved_response, settings_saved, Json.find?, Utf8.bytes_inj]

/-- The settings with the two that are configured anew after a change. -/
structure Services where
  settings : Settings
  broker : Config.Broker
  upload_queue : Config.Broker

variable (exceptions) in
def Services.settings_set (s : Services) (call : SettingsCall) : Services × Response :=
  let (settings, response) := Settings.settings_set exceptions s.settings call
  if succeeded response then
    (⟨settings, settings.config.broker, settings.config.broker⟩, response)
  else ({ s with settings }, response)

/-- All four carry the settings of a configuration. -/
structure Services.Carries (s : Services) (c : Config) : Prop where
  config : s.settings.config = c
  file : ∃ d, Config.load_or_create s.settings.file = some d ∧ d.broker = c.broker ∧
    d.audio = c.audio ∧ d.recording = c.recording
  broker : s.broker = c.broker
  upload_queue : s.upload_queue = c.broker

variable (exceptions) in
/-- After a success all carry what was requested, after an error nothing has changed. -/
def AllOrNothing (s : Services) (call : SettingsCall) : Prop :=
  if succeeded (s.settings_set exceptions call).2 then
    ∃ values, call.request.find? (Utf8.bytes "settings") = some values ∧
      (s.settings_set exceptions call).1.Carries (requested values s.settings.config)
  else (s.settings_set exceptions call).1 = s

/-- A request that fails asks for nothing new before it does; the file that a string that is not
UTF-8 empties was empty; and what is written is not cut. -/
def Tenable (s : Settings) (call : SettingsCall) : Prop :=
  ∀ values, call.request.find? (Utf8.bytes "settings") = some values → values.isObject →
    if WellTyped values ∧ s.config.Convertible ∧ call.disk ≠ .refused then
      if s.config.Textual then call.disk.Whole
      else Unassigned values s.config ∧ s.file = some []
    else Unassigned values s.config

theorem tenable_iff {s : Settings} {call : SettingsCall} {values : Json}
    (hvalues : call.request.find? (Utf8.bytes "settings") = some values)
    (hobject : values.isObject) :
    Tenable s call ↔
      if WellTyped values ∧ s.config.Convertible ∧ call.disk ≠ .refused then
        if s.config.Textual then call.disk.Whole
        else Unassigned values s.config ∧ s.file = some []
      else Unassigned values s.config := by
  constructor
  · intro h
    exact h values hvalues hobject
  · intro h values' hvalues'
    cases hvalues.symm.trans hvalues'
    exact fun _ => h

theorem allOrNothing_of_failed {s : Services} {call : SettingsCall} {t : Settings} {r : Response}
    (h : Settings.settings_set exceptions s.settings call = (t, r)) (hr : succeeded r = false) :
    AllOrNothing exceptions s call ↔ t = s.settings := by
  have hset : s.settings_set exceptions call = ({ s with settings := t }, r) := by
    rw [Services.settings_set, h]
    exact if_neg (by rw [hr]; decide)
  rw [AllOrNothing, hset, if_neg (by rw [hr]; decide)]
  constructor
  · exact congrArg Services.settings
  · rintro rfl
    rfl

theorem allOrNothing_of_succeeded {s : Services} {call : SettingsCall} {t : Settings}
    {r : Response} (h : Settings.settings_set exceptions s.settings call = (t, r))
    (hr : succeeded r = true) :
    AllOrNothing exceptions s call ↔
      ∃ values, call.request.find? (Utf8.bytes "settings") = some values ∧
        Services.Carries ⟨t, t.config.broker, t.config.broker⟩
          (requested values s.settings.config) := by
  have hset : s.settings_set exceptions call = (⟨t, t.config.broker, t.config.broker⟩, r) := by
    rw [Services.settings_set, h]
    exact if_pos hr
  rw [AllOrNothing, hset, if_pos hr]

/-- What `save` makes of a request whose settings have the right types. -/
theorem allOrNothing_of_wellTyped {s : Services} {call : SettingsCall} {values : Json}
    (hvalues : call.request.find? (Utf8.bytes "settings") = some values) (hobject : values.isObject)
    (h : WellTyped values) {file : Option Bytes} {threw : Bool}
    (hsave : (requested values s.settings.config).save s.settings.file call.disk = (file, threw)) :
    AllOrNothing exceptions s call ↔
      if threw then Unassigned values s.settings.config ∧ file = s.settings.file
      else ∃ d, Config.load_or_create file = some d ∧
        d.broker = (requested values s.settings.config).broker ∧
        d.audio = (requested values s.settings.config).audio ∧
        d.recording = (requested values s.settings.config).recording := by
  have hset := @settings_set_of_wellTyped exceptions s.settings _ _ hvalues hobject h _ _ hsave
  have hsucceeded := succeeded_saved_response (requested values s.settings.config) call threw
  cases threw with
  | true =>
    rw [allOrNothing_of_failed hset hsucceeded, if_pos rfl, ← requested_eq_self_iff h]
    constructor
    · intro heq
      exact ⟨congrArg Settings.config heq, congrArg Settings.file heq⟩
    · rintro ⟨hconfig, hfile⟩
      rw [hconfig, hfile]
  | false =>
    rw [allOrNothing_of_succeeded hset hsucceeded, if_neg Bool.false_ne_true]
    constructor
    · rintro ⟨values', hvalues', hcarries⟩
      cases hvalues.symm.trans hvalues'
      exact hcarries.file
    · intro hfile
      exact ⟨values, hvalues, rfl, hfile, rfl, rfl⟩

/-- A request is carried out as a whole or not at all exactly where it is tenable. -/
theorem allOrNothing_iff (exceptions : Exceptions) (s : Services) (call : SettingsCall) :
    AllOrNothing exceptions s call ↔ Tenable s.settings call := by
  by_cases hobject : ∃ values, call.request.find? (Utf8.bytes "settings") = some values ∧
      values.isObject
  swap
  · have hnone : ∀ values, call.request.find? (Utf8.bytes "settings") = some values →
        ¬ values.isObject := fun values hvalues h => hobject ⟨values, hvalues, h⟩
    rw [allOrNothing_of_failed (settings_set_of_not_object hnone) (not_succeeded_failure _ _)]
    exact iff_of_true rfl fun values hvalues h => absurd h (hnone values hvalues)
  obtain ⟨values, hvalues, hobject⟩ := hobject
  rw [tenable_iff hvalues hobject]
  by_cases htyped : WellTyped values
  swap
  · obtain ⟨c, what, hset, hc⟩ :=
      @settings_set_of_not_wellTyped exceptions s.settings _ _ hvalues hobject htyped
    rw [allOrNothing_of_failed hset rfl, if_neg fun h => htyped h.1, ← hc]
    constructor
    · exact congrArg Settings.config
    · rintro rfl
      rfl
  by_cases hopens : s.settings.config.Convertible ∧ call.disk ≠ .refused
  swap
  · have hrefused : ¬ (requested values s.settings.config).Convertible ∨ call.disk = .refused := by
      by_contra hboth
      rw [not_or, not_not] at hboth
      exact hopens hboth
    rw [allOrNothing_of_wellTyped hvalues hobject htyped (Config.save_refused hrefused), if_pos rfl,
      if_neg fun h => hopens h.2]
    exact and_iff_left rfl
  rw [if_pos ⟨htyped, hopens⟩]
  by_cases htextual : s.settings.config.Textual
  swap
  · rw [allOrNothing_of_wellTyped hvalues hobject htyped
      (Config.save_untextual hopens.1 hopens.2 htextual), if_pos rfl, if_neg htextual, eq_comm]
  obtain ⟨ms, body, -, hbody⟩ :=
    @Config.save_textual (requested values s.settings.config) _ hopens.1 hopens.2 htextual
  have hwrote : (requested values s.settings.config).save s.settings.file call.disk =
      (((requested values s.settings.config).save s.settings.file call.disk).1, false) := by
    rw [hbody]
  rw [allOrNothing_of_wellTyped hvalues hobject htyped hwrote, if_neg Bool.false_ne_true,
    if_pos htextual]
  exact Config.load_save_iff hopens.1 hopens.2 htextual

/-- What a configuration loses on the way through its file, and through a request that changes some
of its settings: nothing. -/
structure RoundTrips (exceptions : Exceptions) (c : Config) : Prop where
  saved : ∀ file disk, disk ≠ .refused → disk.Whole →
    Config.load_or_create (c.save file disk).1 = some c
  set : ∀ file call, succeeded (settings_set exceptions ⟨c, file⟩ call).2 → call.disk.Whole →
    Config.load_or_create (settings_set exceptions ⟨c, file⟩ call).1.file =
      some (settings_set exceptions ⟨c, file⟩ call).1.config

theorem written_eq_self_iff {c : Config} :
    c.written = c ↔ c.capture.process = Utf16.units "gta_sa.exe" := by
  constructor
  · intro h
    exact (congrArg (fun d => d.capture.process) h).symm
  · intro h
    rw [Config.written, ← h]

theorem load_settings_set {s : Settings} {call : SettingsCall}
    (h : succeeded (settings_set exceptions s call).2) (hwhole : call.disk.Whole) :
    ∃ values, (settings_set exceptions s call).1.config = requested values s.config ∧
      Config.load_or_create (settings_set exceptions s call).1.file =
        some (requested values s.config).written := by
  by_cases hobject : ∃ values, call.request.find? (Utf8.bytes "settings") = some values ∧
      values.isObject
  swap
  · rw [settings_set_of_not_object fun values hvalues h => hobject ⟨values, hvalues, h⟩,
      not_succeeded_failure] at h
    cases h
  obtain ⟨values, hvalues, hobject⟩ := hobject
  by_cases htyped : WellTyped values
  swap
  · obtain ⟨c, what, hset, -⟩ :=
      @settings_set_of_not_wellTyped exceptions s _ _ hvalues hobject htyped
    rw [hset] at h
    cases h
  rcases hsave : (requested values s.config).save s.file call.disk with ⟨file, threw⟩
  have hset := @settings_set_of_wellTyped exceptions s _ _ hvalues hobject htyped _ _ hsave
  rw [hset, succeeded_saved_response, Bool.not_eq_true'] at h
  have hload := Config.load_save ((congrArg Prod.snd hsave).trans h) hwhole
  rw [hsave] at hload
  exact ⟨values, by rw [hset], by rw [hset]; exact hload⟩

theorem load_save_of_textual {c : Config} (hpaths : c.Convertible) (hstrings : c.Textual)
    {file : Option Bytes} {disk : Config.Disk} (hdisk : disk ≠ .refused) (hwhole : disk.Whole) :
    Config.load_or_create (c.save file disk).1 = some c.written := by
  obtain ⟨ms, body, hbody, hsave⟩ := Config.save_textual hpaths hdisk hstrings
  exact Config.load_save (congrArg Prod.snd (hsave file)) hwhole

theorem written_of_roundTrips {c : Config} (hpaths : c.Convertible) (hstrings : c.Textual)
    (h : RoundTrips exceptions c) : c.written = c := by
  have hwhole : Config.Disk.complete.Whole := by rintro _ ⟨⟩
  have hboth := h.saved none .complete (by decide) hwhole
  rw [load_save_of_textual hpaths hstrings (by decide) hwhole] at hboth
  exact Option.some.inj hboth

/-- The configuration and every change of it come through the file whole exactly when the process
is the game's. -/
theorem roundTrips_iff (exceptions : Exceptions) (c : Config) (hpaths : c.Convertible)
    (hstrings : c.Textual) :
    RoundTrips exceptions c ↔ c.capture.process = Utf16.units "gta_sa.exe" := by
  rw [← written_eq_self_iff]
  constructor
  · exact written_of_roundTrips hpaths hstrings
  · intro h
    refine ⟨fun file disk hdisk hwhole => ?_, ?_⟩
    · rw [load_save_of_textual hpaths hstrings hdisk hwhole, h]
    intro file call hsucceeded hwhole
    obtain ⟨values, hconfig, hload⟩ := load_settings_set hsucceeded hwhole
    have hgame := written_eq_self_iff.mp h
    have hprocess : (requested values c).written = requested values c :=
      written_eq_self_iff.mpr hgame
    rw [hload, hconfig, hprocess]

theorem roundTrips_firstConfig :
    RoundTrips .unnamed firstConfig ↔ firstConfig.capture.process = Utf16.units "gta_sa.exe" :=
  roundTrips_iff .unnamed firstConfig (by decide +kernel) (by decide +kernel)

def otherProcess : Config := { capture := { process := Utf16.units "samp.exe" } }

/-- Another process is lost. -/
theorem not_alwaysRoundTrips :
    ¬ ∀ (exceptions : Exceptions) (c : Config), c.Convertible → c.Textual →
      RoundTrips exceptions c := by
  intro h
  have hpaths : otherProcess.Convertible := by decide +kernel
  have hstrings : otherProcess.Textual := by decide +kernel
  have hprocess := congrArg (fun d => d.capture.process)
    (written_of_roundTrips hpaths hstrings (h .unnamed otherProcess hpaths hstrings))
  revert hprocess
  decide +kernel

def firstServices : Services := ⟨⟨firstConfig, none⟩, firstConfig.broker, firstConfig.broker⟩

def halfTyped : SettingsCall where
  request := .object [(Utf8.bytes "settings", .object
    [(Utf8.bytes "archive_limit_gb", .string (Utf8.bytes "50")),
      (Utf8.bytes "audio_enabled", .ofBool false)])]

/-- The sound is off after the error. -/
theorem not_alwaysAllOrNothing :
    ¬ ∀ (exceptions : Exceptions) (s : Services) (call : SettingsCall),
      AllOrNothing exceptions s call := by
  intro h
  have hhalf := h .unnamed firstServices halfTyped
  have hfailed : succeeded (firstServices.settings_set .unnamed halfTyped).2 = false := by
    decide +kernel
  rw [AllOrNothing, if_neg (by rw [hfailed]; decide)] at hhalf
  have haudio := congrArg (fun s => s.settings.config.audio.enabled) hhalf
  revert haudio
  decide +kernel

end Settings
end GambitRecord.Recorder
