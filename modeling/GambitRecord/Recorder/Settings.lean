import GambitRecord.Library.Runs
import GambitRecord.Recorder.Config

/-! # Changing the settings

The command `settings_set`: members of the request go into the configuration one
after another, and the result is saved without `validate`. A member of a wrong
type throws, and what was assigned before it stays.
-/

namespace GambitRecord.Recorder
open Library Library.Runs

/-- What a command answers, or the text of the exception that it throws. -/
abbrev Response := Except Bytes Json

/-- The texts of the exceptions of the libraries: of a text that is no JSON, which may be quoted,
of a value of another type than the expected one, of a value with a string that is not UTF-8, and
of a path without a form in the code page. -/
structure Exceptions where
  parse : Bytes → Bytes
  type : String → Json → Bytes
  dump : Json → Bytes
  convert : WidePath → Bytes
  valid_type : ∀ expected j, Utf8.Valid (type expected j)
  valid_dump : ∀ j, Utf8.Valid (dump j)

def Exceptions.unnamed : Exceptions where
  parse _ := []
  type _ _ := []
  dump _ := []
  convert _ := []
  valid_type _ _ := Utf8.valid_nil
  valid_dump _ := Utf8.valid_nil

def failure (error message : String) : Json :=
  .object
    [(Utf8.bytes "error", .string (Utf8.bytes error)),
      (Utf8.bytes "message", .string (Utf8.bytes message)),
      (Utf8.bytes "success", .ofBool false)]

/-- The parts of `Application` that the command works on. -/
structure Settings where
  config : Config
  file : Option Bytes

/-- A request, with what its surroundings decide. -/
structure SettingsCall where
  request : Json
  disk : Config.Disk := .complete
  /-- the text of an exception of `save` -/
  what : Bytes := []
  build_configured : Bool := true

namespace Settings

variable (exceptions : Exceptions)

def assign {α : Type} (values : Json) (key expected : String) (get : Json → Option α)
    (set : α → Config → Config) (c : Config) : Except Bytes Config :=
  match values.find? (Utf8.bytes key) with
  | none => .ok c
  | some v =>
    match get v with
    | none => .error (exceptions.type expected v)
    | some x => .ok (set x c)

def youtube_enabled (values : Json) : Config → Except Bytes Config :=
  assign exceptions values "youtube_enabled" "boolean" Json.getBool fun enabled c =>
    { c with broker := { c.broker with enabled } }

def audio_enabled (values : Json) : Config → Except Bytes Config :=
  assign exceptions values "audio_enabled" "boolean" Json.getBool fun enabled c =>
    { c with audio := { c.audio with enabled } }

def microphone_enabled (values : Json) : Config → Except Bytes Config :=
  assign exceptions values "microphone_enabled" "boolean" Json.getBool fun microphone c =>
    { c with audio := { c.audio with microphone } }

/-- The game's sound and the microphone exclude each other. -/
def one_source (c : Config) : Except Bytes Config :=
  if c.audio.microphone then .ok { c with audio := { c.audio with enabled := false } }
  else if c.audio.enabled then .ok { c with audio := { c.audio with microphone := false } }
  else .ok c

def archive_limit_gb (values : Json) : Config → Except Bytes Config :=
  assign exceptions values "archive_limit_gb" "number" Json.getUInt32 fun archive_limit_gb c =>
    { c with recording := { c.recording with archive_limit_gb } }

def updates (values : Json) : List (Config → Except Bytes Config) :=
  [youtube_enabled exceptions values, audio_enabled exceptions values,
    microphone_enabled exceptions values, one_source, archive_limit_gb exceptions values]

/-- The configuration after the updates before the first exception, and the exception. -/
def update : List (Config → Except Bytes Config) → Config → Config × Option Bytes
  | [], c => (c, none)
  | f :: fs, c =>
    match f c with
    | .error what => (c, some what)
    | .ok d => update fs d

def settings_saved (c : Config) (build_configured : Bool) : Json :=
  .object
    [(Utf8.bytes "audio_enabled", .ofBool c.audio.enabled),
      (Utf8.bytes "message", .string (Utf8.bytes "Settings saved")),
      (Utf8.bytes "microphone_enabled", .ofBool c.audio.microphone),
      (Utf8.bytes "microphone_supported", .ofBool true),
      (Utf8.bytes "success", .ofBool true),
      (Utf8.bytes "youtube_configured", .ofBool (c.broker.endpoint ≠ [] ∧ build_configured)),
      (Utf8.bytes "youtube_enabled", .ofBool c.broker.enabled)]

def settings_set (s : Settings) (call : SettingsCall) : Settings × Response :=
  match call.request.find? (Utf8.bytes "settings") with
  | none => (s, .ok (failure "INVALID_SETTINGS" "settings object is required"))
  | some values =>
    if ¬ values.isObject then
      (s, .ok (failure "INVALID_SETTINGS" "settings object is required"))
    else
      match update (updates exceptions values) s.config with
      | (c, some what) => ({ s with config := c }, .error what)
      | (c, none) =>
        let saved := c.save s.file call.disk
        if saved.2 then
          (⟨c, saved.1⟩, .ok (.object
            [(Utf8.bytes "error", .string (Utf8.bytes "CONFIG_WRITE_FAILED")),
              (Utf8.bytes "message", .string call.what),
              (Utf8.bytes "success", .ofBool false)]))
        else (⟨c, saved.1⟩, .ok (settings_saved c call.build_configured))

structure Answered where
  settings : Settings
  answer : Option Response

def Answered.success (s : Answered) : Bool :=
  match s.answer with
  | some (.ok j) => (j.find? (Utf8.bytes "success")).bind Json.getBool = some true
  | _ => false

/-- A worker that started with `c`, under any sequence of requests. -/
def machine (c : Config) (file : Option Bytes) : Machine Answered SettingsCall where
  init := ⟨⟨c, file⟩, none⟩
  step s call :=
    some ⟨(settings_set exceptions s.settings call).1,
      some (settings_set exceptions s.settings call).2⟩

/-- No switch throws, so that the limit is assigned. -/
def Reaches (values : Json) : Prop :=
  ∀ key ∈ ["youtube_enabled", "audio_enabled", "microphone_enabled"],
    ∀ v ∈ values.find? (Utf8.bytes key), v.getBool.isSome

instance : DecidablePred Reaches := fun values =>
  inferInstanceAs (Decidable (∀ key ∈ ["youtube_enabled", "audio_enabled", "microphone_enabled"],
    ∀ v ∈ values.find? (Utf8.bytes key), v.getBool.isSome = true))

/-- What a request must be: a limit that it sets is in the range, it enables the upload to an
HTTPS endpoint only, and the file is written whole. -/
structure Sound (s : Answered) (call : SettingsCall) : Prop where
  archive_limit_gb : ∀ values ∈ call.request.find? (Utf8.bytes "settings"), Reaches values →
    ∀ v ∈ values.find? (Utf8.bytes "archive_limit_gb"),
      ∀ n ∈ v.getUInt32, 1 ≤ n ∧ n ≤ 1024
  youtube_enabled : ∀ values ∈ call.request.find? (Utf8.bytes "settings"),
    ∀ v ∈ values.find? (Utf8.bytes "youtube_enabled"), v.getBool = some true →
      (Utf8.bytes "https://").isPrefixOf s.settings.config.broker.endpoint
  whole : call.disk.Whole

instance (s : Answered) (call : SettingsCall) : Decidable (Sound s call) :=
  decidable_of_iff
    ((∀ values ∈ call.request.find? (Utf8.bytes "settings"),
      (Reaches values → ∀ v ∈ values.find? (Utf8.bytes "archive_limit_gb"),
        (v.getUInt32.all fun n => 1 ≤ n ∧ n ≤ 1024) = true) ∧
      ∀ v ∈ values.find? (Utf8.bytes "youtube_enabled"), v.getBool = some true →
        (Utf8.bytes "https://").isPrefixOf s.settings.config.broker.endpoint) ∧ call.disk.Whole)
    (by
      simp only [Option.all_eq_true, decide_eq_true_eq]
      exact ⟨fun h => ⟨fun values hv => (h.1 values hv).1, fun values hv => (h.1 values hv).2, h.2⟩,
        fun h => ⟨fun values hv => ⟨h.archive_limit_gb values hv, h.youtube_enabled values hv⟩,
          h.whole⟩⟩)

variable {exceptions} {paths : Paths}

theorem assign_ok {α : Type} {values : Json} {key expected : String} {get : Json → Option α}
    {set : α → Config → Config} {c d : Config}
    (h : assign exceptions values key expected get set c = .ok d) :
    d = c ∨ ∃ v ∈ values.find? (Utf8.bytes key), ∃ x ∈ get v, d = set x c := by
  unfold assign at h
  cases hv : values.find? (Utf8.bytes key) with
  | none =>
    rw [hv] at h
    cases h
    exact .inl rfl
  | some v =>
    cases hx : get v with
    | none => simp [hv, hx] at h
    | some x =>
      simp only [hv, hx] at h
      cases h
      exact .inr ⟨v, rfl, x, hx, rfl⟩

theorem isSome_of_assign {α : Type} {values : Json} {key expected : String} {get : Json → Option α}
    {set : α → Config → Config} {c d : Config}
    (h : assign exceptions values key expected get set c = .ok d) :
    ∀ v ∈ values.find? (Utf8.bytes key), (get v).isSome := by
  intro v hv
  rw [assign, Option.mem_def.mp hv] at h
  cases hx : get v with
  | none => simp [hx] at h
  | some x => rfl

theorem update_append_of_throws {fs : List (Config → Except Bytes Config)} {c : Config}
    (h : (update fs c).2 ≠ none) (gs : List (Config → Except Bytes Config)) :
    update (fs ++ gs) c = update fs c := by
  induction fs generalizing c with
  | nil => exact absurd rfl h
  | cons f fs ih =>
    simp only [List.cons_append, update] at h ⊢
    cases hf : f c with
    | error what => rfl
    | ok d =>
      rw [hf] at h
      exact ih h

theorem exists_ok_of_update {fs : List (Config → Except Bytes Config)} {c : Config}
    (h : (update fs c).2 = none) : ∀ f ∈ fs, ∃ c d, f c = .ok d := by
  induction fs generalizing c with
  | nil => simp
  | cons f fs ih =>
    simp only [update] at h
    cases hf : f c with
    | error what =>
      rw [hf] at h
      cases h
    | ok d =>
      rw [hf] at h
      exact List.forall_mem_cons.mpr ⟨⟨c, d, hf⟩, ih h⟩

theorem update_induction {P : Config → Prop} {fs : List (Config → Except Bytes Config)}
    (hfs : ∀ f ∈ fs, ∀ c d, P c → f c = .ok d → P d) {c : Config} (hc : P c) :
    P (update fs c).1 := by
  induction fs generalizing c with
  | nil => exact hc
  | cons f fs ih =>
    rw [List.forall_mem_cons] at hfs
    cases hf : f c with
    | error what => simpa [update, hf] using hc
    | ok d => simpa [update, hf] using ih hfs.2 (hfs.1 c d hc hf)

/-- What the updates keep: the checks of `validate`, absolute directories, and the endpoint. -/
structure Kept (paths : Paths) (endpoint : Bytes) (c : Config) : Prop where
  acceptable : c.Acceptable paths
  resolved : c.Resolved paths
  endpoint : c.broker.endpoint = endpoint

theorem kept_assign {α : Type} {endpoint : Bytes} {values : Json} {key expected : String}
    {get : Json → Option α} {set : α → Config → Config}
    (hset : ∀ v ∈ values.find? (Utf8.bytes key), ∀ x ∈ get v, ∀ c, Kept paths endpoint c →
      Kept paths endpoint (set x c)) (c d : Config) (hc : Kept paths endpoint c)
    (h : assign exceptions values key expected get set c = .ok d) : Kept paths endpoint d := by
  rcases assign_ok h with rfl | ⟨v, hv, x, hx, rfl⟩
  · exact hc
  · exact hset v hv x hx c hc

theorem kept_one_source {endpoint : Bytes} (c d : Config) (hc : Kept paths endpoint c)
    (h : one_source c = .ok d) : Kept paths endpoint d := by
  unfold one_source at h
  split_ifs at h
  · cases h
    exact ⟨{ hc.acceptable with }, hc.resolved, hc.endpoint⟩
  · cases h
    exact ⟨{ hc.acceptable with }, hc.resolved, hc.endpoint⟩
  · cases h
    exact hc

def switches (exceptions : Exceptions) (values : Json) : List (Config → Except Bytes Config) :=
  [youtube_enabled exceptions values, audio_enabled exceptions values,
    microphone_enabled exceptions values]

theorem reaches_of_switches {values : Json} {c : Config}
    (h : (update (switches exceptions values) c).2 = none) : Reaches values := by
  have hok := exists_ok_of_update h
  simp only [switches, List.forall_mem_cons, List.not_mem_nil, false_imp_iff, implies_true,
    and_true] at hok
  obtain ⟨⟨_, _, hyoutube⟩, ⟨_, _, haudio⟩, ⟨_, _, hmicrophone⟩⟩ := hok
  simp only [Reaches, List.forall_mem_cons, List.not_mem_nil, false_imp_iff, implies_true, and_true]
  exact ⟨isSome_of_assign hyoutube, isSome_of_assign haudio, isSome_of_assign hmicrophone⟩

theorem kept_switches {values : Json} {endpoint : Bytes}
    (henabled : ∀ v ∈ values.find? (Utf8.bytes "youtube_enabled"), v.getBool = some true →
      (Utf8.bytes "https://").isPrefixOf endpoint) :
    ∀ f ∈ switches exceptions values, ∀ c d, Kept paths endpoint c → f c = .ok d →
      Kept paths endpoint d := by
  simp only [switches, List.forall_mem_cons, List.not_mem_nil, false_imp_iff, implies_true,
    and_true]
  refine ⟨?youtube, ?audio, ?microphone⟩
  case youtube =>
    apply kept_assign
    intro v hv enabled hget c hc
    refine ⟨{ hc.acceptable with endpoint := ?_ }, hc.resolved, hc.endpoint⟩
    rintro rfl
    rw [← hc.endpoint] at henabled
    exact henabled v hv hget
  case audio =>
    apply kept_assign
    intro _ _ _ _ c hc
    exact ⟨{ hc.acceptable with }, hc.resolved, hc.endpoint⟩
  case microphone =>
    apply kept_assign
    intro _ _ _ _ c hc
    exact ⟨{ hc.acceptable with }, hc.resolved, hc.endpoint⟩

theorem kept_limit {values : Json} {endpoint : Bytes}
    (hlimit : ∀ v ∈ values.find? (Utf8.bytes "archive_limit_gb"),
      ∀ n ∈ v.getUInt32, 1 ≤ n ∧ n ≤ 1024) :
    ∀ c d, Kept paths endpoint c → archive_limit_gb exceptions values c = .ok d →
      Kept paths endpoint d := by
  apply kept_assign
  intro v hv n hget c hc
  exact ⟨{ hc.acceptable with archive_limit_gb := hlimit v hv n hget }, hc.resolved, hc.endpoint⟩

/-- The limit counts only when the switches before it do not throw. -/
theorem kept_update {values : Json} {endpoint : Bytes} {c : Config}
    (hlimit : Reaches values → ∀ v ∈ values.find? (Utf8.bytes "archive_limit_gb"),
      ∀ n ∈ v.getUInt32, 1 ≤ n ∧ n ≤ 1024)
    (henabled : ∀ v ∈ values.find? (Utf8.bytes "youtube_enabled"), v.getBool = some true →
      (Utf8.bytes "https://").isPrefixOf endpoint) (hc : Kept paths endpoint c) :
    Kept paths endpoint (update (updates exceptions values) c).1 := by
  have hupdates : updates exceptions values =
      switches exceptions values ++ [one_source, archive_limit_gb exceptions values] := rfl
  rw [hupdates]
  by_cases hthrows : (update (switches exceptions values) c).2 = none
  · refine update_induction ?_ hc
    simp only [List.forall_mem_append, List.forall_mem_cons, List.not_mem_nil, false_imp_iff,
      implies_true, and_true]
    exact ⟨kept_switches henabled, kept_one_source,
      kept_limit (hlimit (reaches_of_switches hthrows))⟩
  · rw [update_append_of_throws hthrows]
    exact update_induction (kept_switches henabled) hc

/-- Between requests: the configuration passes, and after a success a worker starts with it. -/
structure Inv (paths : Paths) (s : Answered) : Prop where
  acceptable : s.settings.config.Acceptable paths
  resolved : s.settings.config.Resolved paths
  written : s.success → Config.start_up paths s.settings.file = some s.settings.config.written

theorem not_success_failure {settings : Settings} {error message : String} :
    ¬ Answered.success ⟨settings, some (.ok (failure error message))⟩ := by
  simp [Answered.success, failure, Json.find?]

theorem inv_step {s t : Answered} {call : SettingsCall} {c : Config} {file : Option Bytes}
    (hI : Inv paths s) (hsound : Sound s call)
    (hstep : (machine exceptions c file).step s call = some t) : Inv paths t := by
  cases hstep
  cases hvalues : call.request.find? (Utf8.bytes "settings") with
  | none =>
    simp only [settings_set, hvalues]
    exact ⟨hI.acceptable, hI.resolved, fun h => absurd h not_success_failure⟩
  | some values =>
    by_cases hobject : values.isObject
    · have hkept : Kept paths s.settings.config.broker.endpoint
          (update (updates exceptions values) s.settings.config).1 :=
        kept_update (hsound.archive_limit_gb values hvalues)
          (hsound.youtube_enabled values hvalues) ⟨hI.acceptable, hI.resolved, rfl⟩
      rcases hupdate : update (updates exceptions values) s.settings.config with ⟨d, _ | what⟩
      · rw [hupdate] at hkept
        simp only [settings_set, hvalues, hobject, hupdate]
        by_cases hthrew : (d.save s.settings.file call.disk).2
        · simp only [hthrew]
          refine ⟨hkept.acceptable, hkept.resolved, fun h => ?_⟩
          simp [Answered.success, Json.find?] at h
        · rw [Bool.not_eq_true] at hthrew
          simp only [hthrew]
          exact ⟨hkept.acceptable, hkept.resolved, fun _ =>
            Config.start_up_save hkept.acceptable hkept.resolved hthrew hsound.whole⟩
      · rw [hupdate] at hkept
        simp only [settings_set, hvalues, hobject, hupdate]
        exact ⟨hkept.acceptable, hkept.resolved, fun h => Bool.noConfusion h⟩
    · simp only [settings_set, hvalues, hobject]
      exact ⟨hI.acceptable, hI.resolved, fun h => absurd h not_success_failure⟩

/-- After a start and any sound requests, a configuration that a successful request leaves
passes `validate`, and a worker starts with the file that it wrote. -/
theorem startable_of_sound {file : Option Bytes} {c : Config} {calls : List SettingsCall}
    {s : Answered} (hstart : Config.start_up paths file = some c)
    (hrun : (machine exceptions c file).run calls = some s)
    (hsound : (machine exceptions c file).Along Sound (machine exceptions c file).init calls)
    (hsuccess : s.success) :
    s.settings.config.validate paths = none ∧
      Config.start_up paths s.settings.file = some s.settings.config.written := by
  have hc := Config.start_up_eq_some hstart
  have hinit : Inv paths (machine exceptions c file).init :=
    ⟨hc.1, hc.2, fun h => Bool.noConfusion h⟩
  have hI := Machine.invariant_along (fun _ _ _ => inv_step) hsound hrun hinit
  exact ⟨Config.validate_eq_none_iff.mpr hI.acceptable, hI.written hsuccess⟩

def gamePaths : Paths where
  is_relative path := ¬ (Utf16.units "C:").isPrefixOf path
  join path := Utf16.units "C:/game/" ++ path
  absolute path := by
    have hdrive : Utf16.units "C:/game/" = Utf16.units "C:" ++ Utf16.units "/game/" := by
      decide +kernel
    simp [hdrive]
  within path := (Utf16.units "C:/game/grecord/").isPrefixOf path

def setting (key : String) (value : Json) : SettingsCall where
  request := .object [(Utf8.bytes "settings", .object [(Utf8.bytes key, value)])]

def firstConfig : Config := Config.resolve_paths gamePaths {}

theorem start_up_firstConfig : Config.start_up gamePaths none = some firstConfig := by
  decide +kernel

def limitRun : List SettingsCall :=
  [setting "microphone_enabled" (.ofUInt32 1), setting "archive_limit_gb" (.ofUInt32 50)]

theorem limitRun_accepted :
    ((machine .unnamed firstConfig none).run limitRun).isSome := by decide +kernel

def limited : Answered :=
  ((machine .unnamed firstConfig none).run limitRun).get limitRun_accepted

theorem startable_limited :
    limited.settings.config.validate gamePaths = none ∧
      Config.start_up gamePaths limited.settings.file = some limited.settings.config.written :=
  startable_of_sound start_up_firstConfig (Option.some_get limitRun_accepted).symm
    (by decide +kernel) (by decide +kernel)

theorem zeroRun_accepted :
    ((machine .unnamed firstConfig none).run
      [setting "archive_limit_gb" (.ofUInt32 0)]).isSome := by decide +kernel

/-- A limit of zero is accepted and saved. -/
theorem not_alwaysValid :
    ¬ ∀ (exceptions : Exceptions) (paths : Paths) (file : Option Bytes) (c : Config)
        (calls : List SettingsCall) (s : Answered),
      Config.start_up paths file = some c → (machine exceptions c file).run calls = some s →
      s.success → s.settings.config.validate paths = none ∧
        (Config.start_up paths s.settings.file).isSome := by
  intro hall
  have hvalid := (hall _ gamePaths none firstConfig _ _ start_up_firstConfig
    (Option.some_get zeroRun_accepted).symm (by decide +kernel)).1
  revert hvalid
  decide +kernel

end Settings
end GambitRecord.Recorder
