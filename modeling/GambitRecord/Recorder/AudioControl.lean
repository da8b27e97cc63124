import Mathlib.Data.Bool.AllAny
import GambitRecord.Library.Runs
import GambitRecord.Recorder.Config

/-! # Control of the audio capture

The end of a turn of `encoder_loop`, which stops and starts the audio capture as
the game's process and the settings ask for. The capture loses its device and the
settings change between any two steps of a turn. A start that throws behind its
`running_ = true`, for want of a thread, is left out. The history keeps what the
running capture was started with, and all calls of `start`.
-/

namespace GambitRecord.Recorder
open Library Library.Runs

/-- The arguments of `WasapiCapture::start`. -/
structure AudioSource where
  process_id : UInt32
  mode : Bytes
  deriving DecidableEq

/-- Where a turn is: before its frame is encoded, or before one of its looks at the capture. -/
inductive AudioPoint where
  | idle
  | process (pid : UInt32)
  | settings (pid : UInt32)
  | mode (pid : UInt32) (wanted : Bool) (audio_mode : Bytes)
  | off (pid : UInt32) (wanted : Bool) (audio_mode : Bytes)
  | start (pid : UInt32) (wanted : Bool) (audio_mode : Bytes)
  deriving DecidableEq

/-- `running` is `running_` with what it was started with, `has_audio` that of `stream_`. -/
structure AudioControl where
  config : Config.Audio
  point : AudioPoint := .idle
  running : Option AudioSource := none
  audio_failed_ : Bool := false
  audio_pid_ : UInt32 := 0
  active_audio_mode_ : Bytes := []
  has_audio : Bool := false
  starts : List AudioSource := []
  deriving DecidableEq

namespace AudioControl

def audio_mode (config : Config.Audio) : Bytes :=
  if config.microphone then Utf8.bytes "microphone" else config.mode

def wanted (config : Config.Audio) : Bool :=
  (config.enabled ∨ config.microphone) ∧ audio_mode config ≠ Utf8.bytes "disabled"

/-- How a start ends; a device may be lost before its capture is described. -/
inductive Outcome where
  | failed | started | lost
  deriving DecidableEq

/-- A frame is encoded, with the game's process behind it; the next step of the turn, with the
outcome of a start that is due; a device that is lost; new settings; a recovery that may fail after
it has stopped the capture. -/
inductive Event where
  | encoded (pid : UInt32)
  | next (outcome : Outcome)
  | lost
  | settings (config : Config.Audio)
  | recover_pipeline (recovers : Bool)
  deriving DecidableEq

def stop (s : AudioControl) : AudioControl := { s with running := none, audio_failed_ := false }

/-- A start announces its capture, or counts as failed. -/
def start (s : AudioControl) (source : AudioSource) (outcome : Outcome) : AudioControl :=
  let s := { s with starts := s.starts ++ [source] }
  if outcome = .failed then { s with audio_failed_ := true }
  else
    { s with
      running := if outcome = .started then some source else none
      audio_pid_ := source.process_id
      active_audio_mode_ := source.mode
      has_audio := outcome = .started }

def advance (s : AudioControl) (outcome : Outcome) : Option AudioControl :=
  match s.point with
  | .idle => none
  | .process pid =>
    let s := { s with point := .settings pid }
    if s.running ≠ none ∧ pid ≠ 0 ∧ s.audio_pid_ ≠ pid then some s.stop else some s
  | .settings pid => some { s with point := .mode pid (wanted s.config) (audio_mode s.config) }
  | .mode pid wanted audio_mode =>
    let s := { s with point := .off pid wanted audio_mode }
    if s.running ≠ none ∧ s.active_audio_mode_ ≠ audio_mode then some s.stop else some s
  | .off pid wanted audio_mode =>
    let s := { s with point := .start pid wanted audio_mode }
    if wanted then some s else some { s with running := none }
  | .start pid wanted audio_mode =>
    let s := { s with point := .idle }
    if wanted ∧ s.running = none ∧ ¬ s.audio_failed_ ∧ pid ≠ 0 then
      some (s.start ⟨pid, audio_mode⟩ outcome)
    else some s

def step (s : AudioControl) : Event → Option AudioControl
  | .encoded pid =>
    if s.point = .idle then some { s with point := .process pid, has_audio := s.running.isSome }
    else none
  | .next outcome => s.advance outcome
  | .lost => some { s with running := none }
  | .settings config => some { s with config }
  | .recover_pipeline recovers =>
    if s.point = .idle then
      let s := { s with running := none }
      if recovers then
        some { s with
          audio_failed_ := false, audio_pid_ := 0, active_audio_mode_ := [], has_audio := false }
      else some s
    else none

def machine (config : Config.Audio) : Machine AudioControl Event where
  init := { config }
  step := step

/-- The capture does what a turn has read: it runs only where it is wanted, with the mode of the turn,
and from its process where there is one; it is announced; and it runs, where there is a process,
unless a start has failed. -/
structure Follows (s : AudioControl) (pid : UInt32) (wanted : Bool) (audio_mode : Bytes)
    (outcome : Outcome) : Prop where
  source : ∀ source ∈ s.running,
    wanted = true ∧ source.mode = audio_mode ∧ (pid ≠ 0 → source.process_id = pid)
  announced : s.running ≠ none → s.has_audio = true
  runs : wanted = true → pid ≠ 0 → s.audio_failed_ = false → outcome ≠ .lost → s.running ≠ none

/-- What a turn has established before each of its steps. -/
def Reached (source : AudioSource) : AudioPoint → Prop
  | .idle | .process _ => True
  | .settings pid => pid ≠ 0 → source.process_id = pid
  | .mode pid _ _ => pid ≠ 0 → source.process_id = pid
  | .off pid _ audio_mode => (pid ≠ 0 → source.process_id = pid) ∧ source.mode = audio_mode
  | .start pid wanted audio_mode =>
    (pid ≠ 0 → source.process_id = pid) ∧ source.mode = audio_mode ∧ wanted = true

structure Inv (s : AudioControl) : Prop where
  failed : s.audio_failed_ = true → s.running = none
  started : ∀ source ∈ s.running,
    s.audio_pid_ = source.process_id ∧ s.active_audio_mode_ = source.mode
  announced : s.running ≠ none → s.has_audio = true
  reached : ∀ source ∈ s.running, Reached source s.point

variable {s t : AudioControl}

theorem Inv.of_stopped (hrunning : s.running = none) : Inv s where
  failed _ := hrunning
  started := by simp [hrunning]
  announced h := absurd hrunning h
  reached := by simp [hrunning]

/-- A step that leaves the capture alone keeps the invariant when the turn has reached its next
point. -/
theorem Inv.moved (h : Inv s) {point : AudioPoint}
    (hreached : ∀ source ∈ s.running, Reached source s.point → Reached source point) :
    Inv { s with point } where
  failed := h.failed
  started := h.started
  announced := h.announced
  reached source hsource := hreached source hsource (h.reached source hsource)

theorem Inv.start {source : AudioSource} (hidle : s.point = .idle)
    (hrunning : s.running = none) (hfailed : s.audio_failed_ = false) (outcome : Outcome) :
    Inv (s.start source outcome) := by
  cases outcome with
  | failed => exact Inv.of_stopped hrunning
  | lost => exact Inv.of_stopped rfl
  | started =>
    refine ⟨?_, ?_, fun _ => rfl, ?_⟩
    · intro hcontra
      change s.audio_failed_ = true at hcontra
      rw [hfailed] at hcontra
      cases hcontra
    · rintro _ ⟨⟩
      exact ⟨rfl, rfl⟩
    · intro other _
      change Reached other s.point
      rw [hidle]
      trivial

theorem inv_advance (h : Inv s) {outcome : Outcome} (hstep : s.advance outcome = some t) :
    Inv t := by
  unfold advance at hstep
  cases hpoint : s.point with
  | idle => simp [hpoint] at hstep
  | process pid =>
    simp only [hpoint] at hstep
    split_ifs at hstep with hother
    · cases hstep
      exact Inv.of_stopped rfl
    · cases hstep
      refine h.moved fun source hsource _ hpid => ?_
      by_contra hne
      apply hother
      refine ⟨by simp [Option.mem_def.mp hsource], hpid, ?_⟩
      rw [(h.started source hsource).1]
      exact hne
  | settings pid =>
    simp only [hpoint] at hstep
    cases hstep
    exact h.moved fun source _ hreached => by rw [hpoint] at hreached; exact hreached
  | mode pid wanted audio_mode =>
    simp only [hpoint] at hstep
    split_ifs at hstep with hother
    · cases hstep
      exact Inv.of_stopped rfl
    · cases hstep
      refine h.moved fun source hsource hreached => ?_
      rw [hpoint] at hreached
      refine ⟨hreached, ?_⟩
      by_contra hne
      apply hother
      refine ⟨by simp [Option.mem_def.mp hsource], ?_⟩
      rw [(h.started source hsource).2]
      exact hne
  | off pid wanted audio_mode =>
    simp only [hpoint] at hstep
    split_ifs at hstep with hwanted
    · cases hstep
      refine h.moved fun source _ hreached => ?_
      rw [hpoint] at hreached
      exact ⟨hreached.1, hreached.2, hwanted⟩
    · cases hstep
      exact Inv.of_stopped rfl
  | start pid wanted audio_mode =>
    simp only [hpoint] at hstep
    split_ifs at hstep with hdue
    · cases hstep
      exact Inv.start (s := { s with point := .idle }) rfl hdue.2.1 (by simpa using hdue.2.2.1)
        outcome
    · cases hstep
      exact h.moved fun _ _ _ => trivial

theorem inv_step (h : Inv s) {event : Event} (hstep : s.step event = some t) : Inv t := by
  cases event with
  | encoded pid =>
    simp only [step, Option.ite_none_right_eq_some, Option.some_inj] at hstep
    obtain ⟨-, rfl⟩ := hstep
    refine ⟨h.failed, h.started, ?_, fun _ _ => trivial⟩
    exact fun hrunning => Option.isSome_iff_ne_none.mpr hrunning
  | next outcome => exact inv_advance h hstep
  | lost =>
    cases hstep
    exact Inv.of_stopped rfl
  | settings config =>
    cases hstep
    exact ⟨h.failed, h.started, h.announced, h.reached⟩
  | recover_pipeline recovers =>
    simp only [step] at hstep
    split_ifs at hstep
    · cases hstep
      exact Inv.of_stopped rfl
    · cases hstep
      exact Inv.of_stopped rfl

theorem inv_run {config : Config.Audio} {es : List Event} (hrun : (machine config).run es = some s) :
    Inv s :=
  Machine.invariant (I := Inv) (fun _ _ _ hI hstep => inv_step hI hstep) hrun
    (Inv.of_stopped rfl)

/-- Whatever happens between the steps of a turn, the capture follows at its end what the turn has
read of the game and of the settings. -/
theorem follows_of_turn {config : Config.Audio} {es : List Event} {pid : UInt32} {wanted : Bool}
    {audio_mode : Bytes} {outcome : Outcome} (hrun : (machine config).run es = some s)
    (hpoint : s.point = .start pid wanted audio_mode) (hstep : s.step (.next outcome) = some t) :
    Follows t pid wanted audio_mode outcome := by
  have hinv := inv_run hrun
  have hnext := inv_step hinv hstep
  simp only [step, advance, hpoint] at hstep
  split_ifs at hstep with hdue
  · cases hstep
    cases outcome with
    | failed =>
      refine ⟨?_, hnext.announced, ?_⟩
      · intro source hsource
        change source ∈ s.running at hsource
        rw [hdue.2.1] at hsource
        cases hsource
      · intro _ _ hfailed
        cases hfailed
    | started =>
      refine ⟨?_, hnext.announced, fun _ _ _ _ => by simp [start]⟩
      rintro source ⟨⟩
      exact ⟨hdue.1, rfl, fun _ => rfl⟩
    | lost =>
      refine ⟨?_, hnext.announced, fun _ _ _ hlost => absurd rfl hlost⟩
      rintro source ⟨⟩
  · cases hstep
    refine ⟨?_, hnext.announced, ?_⟩
    · intro source hsource
      have hreached := hinv.reached source hsource
      rw [hpoint] at hreached
      exact ⟨hreached.2.2, hreached.2.1, hreached.1⟩
    · intro hwanted hpid hfailed _ hnone
      exact hdue ⟨hwanted, hnone, by simpa using hfailed, hpid⟩

def Unrecovered (event : Event) : Prop := event ≠ .recover_pipeline true

instance (event : Event) : Decidable (Unrecovered event) := inferInstanceAs (Decidable (_ ≠ _))

/-- The failure lasts, and nothing has been started since. -/
structure Silent (before s : AudioControl) : Prop where
  failed : s.audio_failed_ = true
  running : s.running = none
  starts : s.starts = before.starts

theorem silent_advance {before : AudioControl} (h : Silent before s) {outcome : Outcome}
    (hstep : s.advance outcome = some t) : Silent before t := by
  unfold advance at hstep
  cases hpoint : s.point with
  | idle => simp [hpoint] at hstep
  | settings pid =>
    simp only [hpoint] at hstep
    cases hstep
    exact ⟨h.failed, h.running, h.starts⟩
  | off pid wanted audio_mode =>
    simp only [hpoint] at hstep
    split_ifs at hstep
    · cases hstep
      exact ⟨h.failed, h.running, h.starts⟩
    · cases hstep
      exact ⟨h.failed, rfl, h.starts⟩
  | process pid =>
    simp only [hpoint, h.running, ne_eq, not_true_eq_false, false_and, if_false] at hstep
    cases hstep
    exact ⟨h.failed, rfl, h.starts⟩
  | mode pid wanted audio_mode =>
    simp only [hpoint, h.running, ne_eq, not_true_eq_false, false_and, if_false] at hstep
    cases hstep
    exact ⟨h.failed, rfl, h.starts⟩
  | start pid wanted audio_mode =>
    simp only [hpoint, h.failed, not_true_eq_false, false_and, and_false, if_false] at hstep
    cases hstep
    exact ⟨rfl, h.running, h.starts⟩

theorem silent_step {before : AudioControl} {event : Event} (h : Silent before s)
    (hC : Unrecovered event) (hstep : s.step event = some t) : Silent before t := by
  cases event with
  | encoded pid =>
    simp only [step, Option.ite_none_right_eq_some, Option.some_inj] at hstep
    obtain ⟨-, rfl⟩ := hstep
    exact ⟨h.failed, h.running, h.starts⟩
  | next outcome => exact silent_advance h hstep
  | lost =>
    cases hstep
    exact ⟨h.failed, rfl, h.starts⟩
  | settings config =>
    cases hstep
    exact ⟨h.failed, h.running, h.starts⟩
  | recover_pipeline recovers =>
    cases recovers with
    | true => exact absurd rfl hC
    | false =>
      simp only [step, Bool.false_eq_true, if_false, Option.ite_none_right_eq_some,
        Option.some_inj] at hstep
      obtain ⟨-, rfl⟩ := hstep
      exact ⟨h.failed, rfl, h.starts⟩

/-- Once a start has failed nothing is started until a recovery completes, whatever the settings and
the game are. -/
theorem silent_until_recovered {config : Config.Audio} {es more : List Event}
    (hrun : (machine config).run es = some s) (hfailed : s.audio_failed_ = true)
    (hmore : (machine config).runFrom s more = some t) (hC : ∀ event ∈ more, Unrecovered event) :
    Silent s t :=
  Machine.invariant_along (I := Silent s) (fun _ _ _ hI hC hstep => silent_step hI hC hstep)
    (Machine.along_of_forall (C := Unrecovered) hC) hmore ⟨hfailed, (inv_run hrun).failed hfailed, rfl⟩

/-- A turn of the loop in which a due start ends so. -/
def turn (pid : UInt32) (outcome : Outcome) : List Event :=
  .encoded pid :: List.replicate 5 (.next outcome)

def followedRun : List Event :=
  turn 7 .started ++ [.encoded 7, .next .started, .settings { enabled := false, microphone := true },
    .next .started, .next .started, .next .started]

def followed : AudioControl := ((machine {}).run followedRun).getD { config := {} }

theorem run_followedRun : (machine {}).run followedRun = some followed := by decide +kernel

theorem follows_of_turn_followedRun :
    Follows ((followed.step (.next .started)).getD followed) 7 true (Utf8.bytes "microphone")
      .started :=
  follows_of_turn run_followedRun (by decide +kernel) (by decide +kernel)

def failedRun : List Event := turn 7 .failed

def quietRun : List Event := .settings { mode := Utf8.bytes "system" } :: turn 8 .started

def failed : AudioControl := ((machine {}).run failedRun).getD { config := {} }

theorem run_failedRun : (machine {}).run failedRun = some failed := by decide +kernel

def quiet : AudioControl := ((machine {}).runFrom failed quietRun).getD { config := {} }

theorem runFrom_quietRun : (machine {}).runFrom failed quietRun = some quiet := by decide +kernel

theorem unrecovered_quietRun : ∀ event ∈ quietRun, Unrecovered event :=
  List.all_iff_forall_prop.mp (by decide +kernel)

theorem silent_quietRun : Silent failed quiet :=
  silent_until_recovered run_failedRun (by decide +kernel) runFrom_quietRun unrecovered_quietRun

end AudioControl
end GambitRecord.Recorder
