import GambitRecord.Recorder.Responses
import GambitRecord.Recorder.StoredConfig

/-! # The settings page

The page of the menu that shows the worker's settings and saves them. It is loaded from
the last status that the status loop has stored, which a save changes beforehand, and
which may be older than that save. The history keeps whose settings the page was loaded
from, what the user has changed since, and the saves that reached the worker.
-/

namespace GambitRecord
open Library Library.Runs Recorder

/-- What the page shows; `audio_source` is silence, the game or the microphone. -/
structure SettingsForm where
  youtube : Bool := false
  audio_source : Fin 3 := 0
  archive : Int32 := 0
  deriving DecidableEq

/-- What a page is loaded from: the settings behind the stored status, and what a save has put into
it since. -/
structure Reported where
  config : Config
  saved : Option SettingsForm := none
  deriving DecidableEq

structure SettingsEdits where
  toggled : Bool := false
  audio_source : Option (Fin 3) := none
  archive : Option Int32 := none
  deriving DecidableEq

/-- A save that reached the worker, with the settings before and after it. -/
structure SavedSettings where
  before : Config
  after : Config
  reported : Option Reported
  edits : SettingsEdits
  deriving DecidableEq

/-- `reply` and `answer` are responses that the plugin has not used yet, the first with the settings
that it was made from. `thrown` says that a frame ended in an exception. -/
structure SettingsPage where
  worker : Settings
  g_status : Json := .scalar .null
  g_reload_settings : Bool := true
  form : SettingsForm := {}
  dirty : Bool := false
  reply : Option (Json × Config) := none
  answer : Option Bool := none
  thrown : Bool := false
  reported : Option Reported := none
  loaded : Option Reported := none
  edits : SettingsEdits := {}
  saves : List SavedSettings := []

namespace SettingsForm

/-- The loading of the page; it throws without an object. -/
def load (status : Json) : Option SettingsForm := do
  let youtube ← status.value? (Utf8.bytes "youtube_enabled") true Json.getBool
  let microphone ← status.value? (Utf8.bytes "microphone_enabled") false Json.getBool
  let audio_source ←
    if microphone then some (2 : Fin 3)
    else (status.value? (Utf8.bytes "audio_enabled") true Json.getBool).map fun audio =>
      if audio then 1 else 0
  let archive ← status.value? (Utf8.bytes "archive_limit_gb") 20 Json.getInt32
  return { youtube, audio_source, archive }

def edit (form : SettingsForm) (edits : SettingsEdits) : SettingsForm where
  youtube := form.youtube ^^ edits.toggled
  audio_source := edits.audio_source.getD form.audio_source
  archive := edits.archive.getD form.archive

variable (form : SettingsForm)

/-- The members of the request, which are also those that a save puts into the status. -/
def members : List (Bytes × Json) :=
  [(Utf8.bytes "archive_limit_gb", .ofInt32 form.archive),
    (Utf8.bytes "audio_enabled", .ofBool (form.audio_source = 1)),
    (Utf8.bytes "microphone_enabled", .ofBool (form.audio_source = 2)),
    (Utf8.bytes "youtube_enabled", .ofBool form.youtube)]

def request : Json :=
  .object
    [(Utf8.bytes "command", .string (Utf8.bytes "settings_set")),
      (Utf8.bytes "settings", .object form.members)]

/-- `operator[]` for each of the members. -/
def note : Json → Json
  | .object status => .object (Json.insertMembers form.members status)
  | .scalar .null => .object form.members
  | status => status

end SettingsForm

namespace SettingsEdits

def any (edits : SettingsEdits) : Bool :=
  edits.toggled ∨ edits.audio_source ≠ none ∨ edits.archive ≠ none

def append (edits more : SettingsEdits) : SettingsEdits where
  toggled := edits.toggled ^^ more.toggled
  audio_source := more.audio_source.or edits.audio_source
  archive := more.archive.or edits.archive

end SettingsEdits

namespace SettingsPage
variable (page : CodePage) (exceptions : Exceptions)

/-- A status is made, stored or lost; the menu is opened; a frame shows the page, with what the user
changes in it; the changes are saved; the answer is used. A save may not reach the worker, and its
answer may not come back. A worker that starts anew may have any settings. -/
inductive Event where
  | status (components : Components)
  | stored
  | lost
  | open_settings
  | frame (edits : SettingsEdits)
  | settings_set (call : SettingsCall) (arrives answered : Bool)
  | answered
  | restart (worker : Settings)

def frame (s : SettingsPage) (edits : SettingsEdits) : SettingsPage :=
  if s.g_reload_settings then
    match SettingsForm.load s.g_status with
    | none => { s with g_reload_settings := false, thrown := true }
    | some form =>
      { s with
        g_reload_settings := false
        form := form.edit edits
        dirty := edits.any
        loaded := s.reported
        edits := edits }
  else
    { s with
      form := s.form.edit edits, dirty := s.dirty || edits.any, edits := s.edits.append edits }

def save (s : SettingsPage) (call : SettingsCall) (arrives answered : Bool) : SettingsPage :=
  if arrives then
    let (worker, response) :=
      s.worker.settings_set exceptions { call with request := s.form.request }
    { s with
      worker
      answer := some (answered && Settings.succeeded response)
      saves := s.saves ++ [⟨s.worker.config, worker.config, s.loaded, s.edits⟩] }
  else { s with answer := some false }

def step (s : SettingsPage) (event : Event) : Option SettingsPage :=
  if s.thrown then none
  else
    match event with
    | .status components =>
      if s.reply = none then
        match Responses.status page exceptions { components with settings := s.worker } with
        | .ok status => some { s with reply := some (status, s.worker.config) }
        | .error _ => some s
      else none
    | .stored =>
      s.reply.map fun (status, config) =>
        { s with g_status := status, reply := none, reported := some { config } }
    | .lost => s.reply.map fun _ => { s with reply := none }
    | .open_settings => some { s with g_reload_settings := true }
    | .frame edits => if s.answer = none then some (s.frame edits) else none
    | .settings_set call arrives answered =>
      if s.dirty ∧ ¬ s.g_reload_settings ∧ s.answer = none then
        some (s.save exceptions call arrives answered)
      else none
    | .answered =>
      s.answer.map fun success =>
        if success then
          { s with
            g_status := s.form.note s.g_status
            dirty := false
            answer := none
            reported := s.reported.map fun reported => { reported with saved := some s.form } }
        else { s with answer := none }
    | .restart worker => some { s with worker }

def machine (worker : Settings) : Machine SettingsPage Event where
  init := { worker }
  step s event := s.step page exceptions event

/-! ## What the page should do -/

end SettingsPage

/-- What a page shows that is loaded from a report; a status does not name the limit. -/
def Reported.form (reported : Reported) : SettingsForm :=
  reported.saved.getD
    { youtube := reported.config.broker.enabled
      audio_source :=
        if reported.config.audio.microphone then 2
        else if reported.config.audio.enabled then 1
        else 0
      archive := 20 }

/-- A save sets what the user has changed and otherwise what the page was loaded from; where that was
a status, a limit that the user has not changed becomes 20 GB. -/
structure SavedSettings.Sound (save : SavedSettings) (reported : Reported) : Prop where
  after : save.after =
    save.before.withSettings (reported.form.edit save.edits).youtube
      ((reported.form.edit save.edits).audio_source = 1)
      ((reported.form.edit save.edits).audio_source = 2)
      (UInt32.ofInt (reported.form.edit save.edits).archive.toInt)
  limit : reported.saved = none → save.edits.archive = none →
    save.after.recording.archive_limit_gb = 20

namespace SettingsPage

/-- The page shows what it was loaded from with the user's changes, every save is sound, and a frame
throws only while no status has been stored. -/
structure Truthful (s : SettingsPage) : Prop where
  shown : ∀ reported ∈ s.loaded, s.form = reported.form.edit s.edits
  saves : ∀ save ∈ s.saves, ∃ reported ∈ save.reported, save.Sound reported
  thrown : s.thrown = true → s.reported = none

/-- A status from which the page can be loaded. -/
def Loads (status : Json) (form : SettingsForm) : Prop :=
  ∃ ms : List (Bytes × Json), status = .object ms ∧ (ms.Pairwise fun m n => m.1 < n.1) ∧
    SettingsForm.load status = some form

def Holds (status : Json) : Option Reported → Prop
  | none => status = .scalar .null
  | some reported => Loads status reported.form

structure Inv (s : SettingsPage) : Prop extends Truthful s where
  g_status : Holds s.g_status s.reported
  reply : ∀ reply ∈ s.reply, Loads reply.1 (Reported.form { config := reply.2 })
  loaded : s.loaded = none → s.g_reload_settings = true ∨ s.thrown = true
  known : s.loaded ≠ none → s.reported ≠ none
  waits : s.answer ≠ none → s.reported ≠ none

variable {page} {exceptions}

/-! ## The status -/

theorem load_object {ms : List (Bytes × Json)} {youtube microphone audio : Bool} {archive : Int32}
    (hyoutube : Json.find? (Utf8.bytes "youtube_enabled") (.object ms) = some (.ofBool youtube))
    (hmicrophone : Json.find? (Utf8.bytes "microphone_enabled") (.object ms) =
      some (.ofBool microphone))
    (haudio : Json.find? (Utf8.bytes "audio_enabled") (.object ms) = some (.ofBool audio))
    (harchive : Json.value? (.object ms) (Utf8.bytes "archive_limit_gb") 20 Json.getInt32 =
      some archive) :
    SettingsForm.load (.object ms) =
      some ⟨youtube, if microphone then 2 else if audio then 1 else 0, archive⟩ := by
  rw [SettingsForm.load, harchive]
  simp only [Json.value?, Json.isObject_object, not_true_eq_false, if_false, hyoutube,
    hmicrophone, haudio, Json.getBool_ofBool]
  cases microphone <;> rfl

/-- The keys of the status, with those of the last save where there is one. -/
def status_keys (saved : Bool) : List String :=
  ["audio", "audio_enabled", "capture", "capture_state", "dropped_frames", "encoder", "fps",
    "game_found", "height"] ++
  (if saved then
    ["last_save_duration_seconds", "last_save_error", "last_save_path", "last_save_success"]
  else []) ++
  ["microphone_enabled", "microphone_supported", "recording", "recording_directory",
    "recording_seconds", "recording_state", "replay_available_seconds", "replay_buffer",
    "replay_seconds", "replay_state", "save_id", "save_in_progress", "success", "width",
    "youtube_channel", "youtube_configured", "youtube_enabled", "youtube_last_upload_error",
    "youtube_last_upload_success", "youtube_last_upload_target_id",
    "youtube_last_upload_target_name", "youtube_last_upload_url", "youtube_upload_in_progress",
    "youtube_upload_pending", "youtube_upload_percent", "youtube_upload_phase",
    "youtube_upload_sent_bytes", "youtube_upload_total_bytes"]

theorem status_keys_spec (saved : Bool) :
    ((status_keys saved).map Utf8.bytes).Pairwise (· < ·) ∧
      Utf8.bytes "archive_limit_gb" ∉ (status_keys saved).map Utf8.bytes := by
  cases saved <;> decide +kernel

theorem loads_members {ms : List (Bytes × Json)} {saved : Bool} {config : Config}
    (hkeys : ms.map Prod.fst = (status_keys saved).map Utf8.bytes)
    (hyoutube : (Utf8.bytes "youtube_enabled", .ofBool config.broker.enabled) ∈ ms)
    (hmicrophone : (Utf8.bytes "microphone_enabled", .ofBool config.audio.microphone) ∈ ms)
    (haudio : (Utf8.bytes "audio_enabled", .ofBool config.audio.enabled) ∈ ms) :
    Loads (.object ms) (Reported.form { config }) := by
  obtain ⟨hsorted, hlimit⟩ := status_keys_spec saved
  rw [← hkeys] at hsorted hlimit
  rw [List.pairwise_map] at hsorted
  refine ⟨ms, rfl, hsorted, load_object (Json.find?_of_mem hsorted hyoutube)
    (Json.find?_of_mem hsorted hmicrophone) (Json.find?_of_mem hsorted haudio) ?_⟩
  rw [Json.value?, if_neg (by simp), Json.find?_eq_none_of_notMem hlimit]

/-- The worker's status names the switch and the source of the sound, but no limit. -/
theorem loads_status {c : Components} {status : Json}
    (h : Responses.status page exceptions c = .ok status) :
    Loads status (Reported.form { config := c.settings.config }) := by
  unfold Responses.status at h
  cases hdirectory : Responses.u8string exceptions c.settings.config.recording.directory with
  | error what =>
    rw [hdirectory] at h
    cases h
  | ok directory =>
    rw [hdirectory] at h
    cases hsaved : Responses.last_saved page exceptions c with
    | error what =>
      rw [hsaved] at h
      cases h
    | ok saved =>
      rw [hsaved] at h
      cases h
      refine @loads_members _ saved.isSome _ ?_ ?_ ?_ ?_
      · cases saved <;> rfl
      · exact List.mem_append_right _ (by simp)
      · exact List.mem_append_right _ (by simp)
      · exact List.mem_append_left _ (List.mem_append_left _ (by simp))

theorem getInt32_archive (form : SettingsForm) {ms : List (Bytes × Json)}
    (h : Json.find? (Utf8.bytes "archive_limit_gb") (.object ms) = some (.ofInt32 form.archive)) :
    Json.value? (.object ms) (Utf8.bytes "archive_limit_gb") 20 Json.getInt32 =
      some form.archive := by
  rw [Json.value?, if_neg (by simp), h]
  exact Json.getInt32_ofInt32 form.archive

theorem loads_note {form before : SettingsForm} {status : Json} (h : Loads status before) :
    Loads (form.note status) form := by
  obtain ⟨ms, rfl, hms, -⟩ := h
  have hkeys : (form.members.map Prod.fst).Nodup := by
    change (["archive_limit_gb", "audio_enabled", "microphone_enabled",
      "youtube_enabled"].map Utf8.bytes).Nodup
    decide +kernel
  have hfind : ∀ m ∈ form.members, Json.find? m.1 (form.note (.object ms)) = some m.2 :=
    fun m hm => Json.find?_insertMembers hkeys hms hm
  simp only [SettingsForm.members, List.forall_mem_cons, List.not_mem_nil, false_imp_iff,
    implies_true, and_true] at hfind
  obtain ⟨harchive, haudio, hmicrophone, hyoutube⟩ := hfind
  refine ⟨_, rfl, Json.pairwise_insertMembers _ hms, ?_⟩
  have hsource : ∀ source : Fin 3,
      (if decide (source = 2) = true then 2 else if decide (source = 1) = true then 1 else 0) =
        source := by decide
  rw [SettingsForm.note, load_object hyoutube hmicrophone haudio (getInt32_archive form harchive),
    hsource]

/-! ## A save -/

theorem request_settings (form : SettingsForm) :
    form.request.find? (Utf8.bytes "settings") = some (.object form.members) := by
  simp [SettingsForm.request, Json.find?]

theorem members_given (form : SettingsForm) :
    Settings.youtubeOf (.object form.members) = .given form.youtube ∧
      Settings.audioOf (.object form.members) = .given (form.audio_source = 1) ∧
      Settings.microphoneOf (.object form.members) = .given (form.audio_source = 2) ∧
      Settings.limitOf (.object form.members) = .given (UInt32.ofInt form.archive.toInt) := by
  simp only [Settings.youtubeOf, Settings.audioOf, Settings.microphoneOf, Settings.limitOf,
    Settings.member, SettingsForm.members]
  simp [Json.find?, Utf8.bytes_inj]
  rfl

/-- The worker takes on what the page shows, whatever becomes of its file. -/
theorem config_settings_set (form : SettingsForm) {s : Settings} {call : SettingsCall}
    (hcall : call.request.find? (Utf8.bytes "settings") = some (.object form.members)) :
    (s.settings_set exceptions call).1.config =
      s.config.withSettings form.youtube (form.audio_source = 1) (form.audio_source = 2)
        (UInt32.ofInt form.archive.toInt) := by
  obtain ⟨hyoutube, haudio, hmicrophone, hlimit⟩ := members_given form
  have htyped : Settings.WellTyped (.object form.members) := by
    rw [Settings.WellTyped, hyoutube, haudio, hmicrophone, hlimit]
    simp
  have hset := @Settings.settings_set_of_wellTyped exceptions s call (.object form.members)
    hcall rfl htyped _ _ rfl
  rw [hset, Settings.requested, hyoutube, haudio, hmicrophone, hlimit]
  have hone : ∀ source : Fin 3,
      (decide (source = 1) && !decide (source = 2)) = decide (source = 1) := by decide
  simp only [Settings.Member.getD, hone]

variable {s t : SettingsPage}

theorem edit_append (form : SettingsForm) (edits more : SettingsEdits) :
    (form.edit edits).edit more = form.edit (edits.append more) := by
  simp [SettingsForm.edit, SettingsEdits.append, Option.getD_or]

/-! ## What a step keeps -/

/-- The page cannot be loaded before a status is stored, and then shows what was reported. -/
theorem load_of_holds {status : Json} {reported : Option Reported} (h : Holds status reported) :
    SettingsForm.load status = reported.map Reported.form := by
  cases reported with
  | none =>
    rw [show status = .scalar .null from h]
    rfl
  | some reported =>
    obtain ⟨ms, -, -, hload⟩ := h
    exact hload

theorem inv_frame (h : s.Inv) (edits : SettingsEdits) : (s.frame edits).Inv := by
  have hload := load_of_holds h.g_status
  rw [frame]
  by_cases hreload : s.g_reload_settings = true
  · rw [if_pos hreload]
    cases hform : SettingsForm.load s.g_status with
    | none =>
      have hnone : s.reported = none := Option.map_eq_none_iff.mp (hload.symm.trans hform)
      exact ⟨⟨h.shown, h.saves, fun _ => hnone⟩, h.g_status, h.reply, fun _ => .inr rfl, h.known,
        h.waits⟩
    | some form =>
      obtain ⟨reported, hreported, rfl⟩ := Option.map_eq_some_iff.mp (hload.symm.trans hform)
      refine ⟨⟨?_, h.saves, h.thrown⟩, h.g_status, h.reply, ?_, fun hsome => hsome, h.waits⟩
      · intro other hother
        have hsame : reported = other := Option.some.inj (hreported.symm.trans hother)
        rw [hsame]
      · intro hnone
        exact absurd (hreported.symm.trans hnone) (by simp)
  · rw [if_neg hreload]
    refine ⟨⟨?_, h.saves, h.thrown⟩, h.g_status, h.reply, h.loaded, h.known, h.waits⟩
    intro reported hloaded
    rw [h.shown reported hloaded, edit_append]

theorem sound_save {save : SavedSettings} {reported : Reported}
    (hafter : save.after =
      save.before.withSettings (reported.form.edit save.edits).youtube
        ((reported.form.edit save.edits).audio_source = 1)
        ((reported.form.edit save.edits).audio_source = 2)
        (UInt32.ofInt (reported.form.edit save.edits).archive.toInt)) :
    save.Sound reported := by
  refine ⟨hafter, ?_⟩
  intro hsaved harchive
  rw [hafter]
  simp only [Config.withSettings, SettingsForm.edit, harchive, Option.getD_none, Reported.form,
    hsaved]
  rfl

theorem inv_save (h : s.Inv) (hlive : s.thrown = false) {call : SettingsCall}
    {arrives answered : Bool} (hreload : ¬ s.g_reload_settings = true) :
    (s.save exceptions call arrives answered).Inv := by
  have hloaded : s.loaded ≠ none := by
    intro hnone
    rcases h.loaded hnone with hagain | hthrown
    · exact hreload hagain
    · simp [hlive] at hthrown
  have hknown := h.known hloaded
  rw [save]
  by_cases harrives : arrives = true
  · rw [if_pos harrives]
    refine ⟨⟨h.shown, ?_, h.thrown⟩, h.g_status, h.reply, h.loaded, h.known, fun _ => hknown⟩
    intro save hsave
    rcases List.mem_append.mp hsave with hold | hnew
    · exact h.saves save hold
    · obtain rfl := List.mem_singleton.mp hnew
      obtain ⟨reported, hreported⟩ := Option.ne_none_iff_exists'.mp hloaded
      refine ⟨reported, hreported, sound_save ?_⟩
      rw [← h.shown reported hreported]
      exact config_settings_set s.form (request_settings s.form)
  · rw [if_neg harrives]
    exact ⟨⟨h.shown, h.saves, h.thrown⟩, h.g_status, h.reply, h.loaded, h.known, fun _ => hknown⟩

theorem inv_answered (h : s.Inv) (hanswer : s.answer ≠ none) :
    Inv { s with
      g_status := s.form.note s.g_status
      dirty := false
      answer := none
      reported := s.reported.map fun reported => { reported with saved := some s.form } } := by
  obtain ⟨reported, hreported⟩ := Option.ne_none_iff_exists'.mp (h.waits hanswer)
  have hstatus : Loads s.g_status reported.form := by
    have hholds := h.g_status
    rwa [hreported] at hholds
  have hsome : (s.reported.map fun reported => { reported with saved := some s.form }) ≠ none := by
    rw [hreported]
    simp
  refine ⟨⟨h.shown, h.saves, ?_⟩, ?_, h.reply, h.loaded, fun _ => hsome, fun _ => hsome⟩
  · intro hthrown
    rw [h.thrown hthrown]
    rfl
  · rw [hreported]
    exact loads_note hstatus

theorem inv_step {event : Event} (h : s.Inv) (hstep : s.step page exceptions event = some t) :
    t.Inv := by
  simp only [step] at hstep
  by_cases hthrown : s.thrown = true
  · rw [if_pos hthrown] at hstep
    cases hstep
  · rw [if_neg hthrown] at hstep
    have hlive : s.thrown = false := by simpa using hthrown
    cases event with
    | status components =>
      by_cases hfree : s.reply = none
      · simp only [if_pos hfree] at hstep
        cases hstatus : Responses.status page exceptions { components with settings := s.worker } with
        | error what =>
          rw [hstatus] at hstep
          cases hstep
          exact h
        | ok status =>
          rw [hstatus] at hstep
          cases hstep
          refine ⟨⟨h.shown, h.saves, h.thrown⟩, h.g_status, ?_, h.loaded, h.known, h.waits⟩
          rintro _ ⟨⟩
          exact loads_status hstatus
      · simp only [if_neg hfree] at hstep
        cases hstep
    | stored =>
      obtain ⟨⟨status, config⟩, hreply, rfl⟩ := Option.map_eq_some_iff.mp hstep
      refine ⟨⟨h.shown, h.saves, ?_⟩, h.reply _ hreply, ?_, h.loaded, fun _ => ?_, fun _ => ?_⟩
      · intro hnow
        exact absurd hnow hthrown
      · rintro _ ⟨⟩
      · simp
      · simp
    | lost =>
      obtain ⟨reply, -, rfl⟩ := Option.map_eq_some_iff.mp hstep
      refine ⟨⟨h.shown, h.saves, h.thrown⟩, h.g_status, ?_, h.loaded, h.known, h.waits⟩
      rintro _ ⟨⟩
    | open_settings =>
      cases hstep
      exact ⟨⟨h.shown, h.saves, h.thrown⟩, h.g_status, h.reply, fun _ => .inl rfl, h.known, h.waits⟩
    | frame edits =>
      by_cases hfree : s.answer = none
      · simp only [if_pos hfree] at hstep
        cases hstep
        exact inv_frame h edits
      · simp only [if_neg hfree] at hstep
        cases hstep
    | settings_set call arrives answered =>
      by_cases hready : s.dirty = true ∧ ¬ s.g_reload_settings = true ∧ s.answer = none
      · simp only [if_pos hready] at hstep
        cases hstep
        exact inv_save h hlive hready.2.1
      · simp only [if_neg hready] at hstep
        cases hstep
    | answered =>
      obtain ⟨success, hanswer, rfl⟩ := Option.map_eq_some_iff.mp hstep
      by_cases hsuccess : success = true
      · rw [if_pos hsuccess]
        exact inv_answered h (by simp [hanswer])
      · rw [if_neg hsuccess]
        exact ⟨⟨h.shown, h.saves, h.thrown⟩, h.g_status, h.reply, h.loaded, h.known,
          fun hsome => absurd rfl hsome⟩
    | restart worker =>
      cases hstep
      exact ⟨⟨h.shown, h.saves, h.thrown⟩, h.g_status, h.reply, h.loaded, h.known, h.waits⟩

theorem inv_init (worker : Settings) : Inv (machine page exceptions worker).init := by
  refine ⟨⟨?_, ?_, ?_⟩, rfl, ?_, fun _ => .inl rfl, ?_, ?_⟩
  · rintro _ ⟨⟩
  · rintro _ ⟨⟩
  · rintro ⟨⟩
  · rintro _ ⟨⟩
  · exact fun hsome => absurd rfl hsome
  · exact fun hsome => absurd rfl hsome

/-- The page is truthful in every run. -/
theorem truthful_run {worker : Settings} {events : List Event}
    (hrun : (machine page exceptions worker).run events = some s) : s.Truthful :=
  (Machine.invariant (I := Inv) (fun _ _ _ h hstep => inv_step h hstep) hrun
    (inv_init worker)).toTruthful

def roomy : Settings where
  config := Config.withSettings Settings.firstConfig true true false 100
  file := none

def microphoneRun : List Event :=
  [.status { settings := roomy }, .stored, .open_settings, .frame {},
    .frame { audio_source := some 2 }, .settings_set { request := .scalar .null } true true, .answered]

theorem microphoneRun_accepted :
    ((machine .windows1251 .unnamed roomy).run microphoneRun).isSome := by decide +kernel

theorem truthful_microphoneRun :
    Truthful (((machine .windows1251 .unnamed roomy).run microphoneRun).get
      microphoneRun_accepted) :=
  truthful_run (Option.some_get microphoneRun_accepted).symm

end SettingsPage
end GambitRecord
