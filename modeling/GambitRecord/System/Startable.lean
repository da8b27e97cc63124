import GambitRecord.System.Composite

/-! # When a recording can be started

`start` accepts only a stopped session, while `status` reports `recording` for
two of its five states. The states in between are those of a stop under way and
of an error, which lasts until the session is stopped once more; the plugin sends
no stop while it reads `recording` as false.
-/

namespace GambitRecord
open Library Library.Runs Recorder Plugin

namespace Recorder.RecordingSession
variable {page : CodePage} {session : RecordingSession}

theorem begin_recording_state {sample : EncodedSample} {sink : Sink}
    (h : (session.begin_recording page sample sink).2 = false) :
    (session.begin_recording page sample sink).1.state = .Recording := by
  revert h
  unfold begin_recording
  cases sink.filename with
  | none => simp
  | some filename =>
    dsimp only
    split
    · simp
    · simp

theorem write_sample_state (sample : EncodedSample) (sink : Sink) :
    (session.write_sample sample sink).1.state = session.state := by
  unfold write_sample
  dsimp only
  split
  · split <;> rfl
  · rfl

theorem take_sample_state {sample : EncodedSample} {sink : Sink}
    (h : (session.take_sample page sample sink).2 = false) :
    (session.take_sample page sample sink).1.state = session.state ∨
      (session.take_sample page sample sink).1.state = .Recording := by
  revert h
  unfold take_sample
  cases hstate : session.state with
  | WaitingForKeyframe =>
    dsimp only
    split
    · simp [hstate]
    · split
      · intro h
        exact .inr (begin_recording_state h)
      · rename_i hopened
        rw [write_sample_state]
        intro _
        exact .inr (begin_recording_state (by simpa using hopened))
  | Recording =>
    dsimp only
    rw [write_sample_state, hstate]
    simp
  | Stopped | Stopping | Error => simp [hstate]

theorem on_sample_error_iff (sample : EncodedSample) (sink : Sink) :
    (session.on_sample page sample sink).state = .Error ↔
      session.state = .Error ∨ (session.take_sample page sample sink).2 = true := by
  unfold on_sample
  dsimp only
  cases hthrew : (session.take_sample page sample sink).2 with
  | true => simp
  | false =>
    simp only [Bool.false_eq_true, if_false, or_false]
    rcases take_sample_state hthrew with hsame | hrec
    · rw [hsame]
    · rw [hrec]
      constructor
      · nofun
      · intro herror
        have : (session.take_sample page sample sink).1.state = session.state := by
          simp [take_sample, herror]
        rw [hrec, herror] at this
        exact absurd this (by decide)

theorem end_stop_state (finalizes : Bool) :
    (session.end_stop page finalizes).1.state =
      if (session.finalize finalizes).2 then .Error else .Stopped := by
  unfold end_stop
  split <;> rfl

theorem finalize_begin_stop (finalizes : Bool) :
    session.begin_stop.finalize finalizes = session.finalize finalizes := by
  unfold begin_stop
  split <;> rfl

end Recorder.RecordingSession

namespace Recorder.Worker
variable {page : CodePage} {worker w : Worker}

/-- Outside a stop, the session is in the error state exactly after a failure. -/
def Tracked (worker : Worker) : Prop :=
  worker.session.state ≠ .Stopping → (worker.session.state = .Error ↔ worker.failed = true)

variable (page worker) in
theorem tracked_end_stop (finalizes : Bool) :
    Tracked
      { worker with
        session := (worker.session.end_stop page finalizes).1
        failed := (worker.session.finalize finalizes).2 } := by
  intro _
  rw [RecordingSession.end_stop_state]
  cases (worker.session.finalize finalizes).2 <;> simp

theorem threadStep_tracked {step : ThreadStep} (h : worker.Tracked)
    (hstep : worker.threadStep page step = some w) : w.Tracked := by
  cases step with
  | on_sample sample sink =>
    simp only [threadStep] at hstep
    split at hstep
    · cases hstep
    · rename_i hstopping
      cases hstep
      intro _
      simp only [RecordingSession.on_sample_error_iff, Bool.decide_or, Bool.decide_eq_true,
        Bool.or_eq_true]
      rw [h hstopping]
  | begin_stop =>
    simp only [threadStep] at hstep
    split at hstep
    · cases hstep
    · rename_i hstopped
      cases hstep
      rw [not_or] at hstopped
      intro hne
      simp [RecordingSession.begin_stop, hstopped.2] at hne
  | end_stop finalizes =>
    simp only [threadStep] at hstep
    split at hstep
    · cases hstep
      exact tracked_end_stop page worker finalizes
    · cases hstep
  | capture recent_frame description =>
    cases hstep
    exact h

theorem threads_tracked {steps : List ThreadStep} (h : worker.Tracked)
    (hrun : (threads page).runFrom worker steps = some w) : w.Tracked :=
  Machine.invariant (I := Tracked) (fun _ _ _ => threadStep_tracked) hrun h

theorem stop_tracked (h : worker.Tracked) (finalizes : Bool) :
    (worker.stop page finalizes).1.Tracked := by
  by_cases hstopped : worker.session.state = .Stopped
  · simpa [stop, RecordingSession.stop, hstopped] using h
  · have hended :=
      tracked_end_stop page { worker with session := worker.session.begin_stop } finalizes
    simpa [stop, RecordingSession.stop, hstopped, RecordingSession.finalize_begin_stop] using hended

theorem record_start_tracked {metadata : EvidenceMetadata} {during : List ThreadStep}
    {reply : Reply} (h : worker.Tracked)
    (hstart : worker.record_start page metadata during = some (w, reply)) : w.Tracked := by
  unfold record_start at hstart
  split at hstart
  · cases hstart
    exact h
  · split at hstart
    · cases hstart
      exact h
    · rename_i claimed hclaim
      rcases Option.bind_eq_some_iff.mp hstart with ⟨m, hm, hstart⟩
      split at hstart
      · cases hstart
      · cases hstart
        have hclaimed : ({ worker with session := claimed } : Worker).Tracked := by
          unfold RecordingSession.claim at hclaim
          split at hclaim
          · rename_i hstopped
            cases hclaim
            intro _
            have hfailed := h (by simp [hstopped])
            simpa [hstopped] using hfailed
          · cases hclaim
        have htracked := threads_tracked hclaimed hm
        exact htracked

theorem record_stop_tracked {during : List ThreadStep} {finalizes completes : Bool}
    {reply : Reply} (h : worker.Tracked)
    (hstop : worker.record_stop page during finalizes completes = some (w, reply)) : w.Tracked := by
  unfold record_stop at hstop
  split at hstop
  · cases hstop
    exact h
  · rcases Option.bind_eq_some_iff.mp hstop with ⟨m, hm, hstop⟩
    have hstopped : (m.stop page finalizes).1.Tracked :=
      stop_tracked (threads_tracked h hm) finalizes
    split at hstop
    · cases hstop
    · split at hstop
      · cases hstop
        exact hstopped
      · split at hstop
        · cases hstop
          exact hstopped
        · cases hstop
          exact hstopped

theorem handle_command_tracked {request : Request} {call : PipeCall} {reply : Reply}
    (h : worker.Tracked) (hcmd : worker.handle_command page request call = some (w, reply)) :
    w.Tracked := by
  cases request with
  | record_start metadata => exact record_start_tracked h hcmd
  | record_stop upload metadata => exact record_stop_tracked h hcmd
  | status =>
    rcases Option.map_eq_some_iff.mp hcmd with ⟨m, hm, heq⟩
    cases heq
    exact threads_tracked h hm

theorem request_worker_tracked {request : Request} {call : PipeCall} {answer : Worker × Reply}
    (h : worker.Tracked) (hsent : worker.request_worker page request call = some answer) :
    answer.1.Tracked := by
  unfold request_worker at hsent
  cases hlink : call.link with
  | answered =>
    rw [hlink] at hsent
    exact handle_command_tracked h hsent
  | offline | unsent =>
    rw [hlink] at hsent
    cases hsent
    exact h
  | unread =>
    rw [hlink] at hsent
    rcases Option.map_eq_some_iff.mp hsent with ⟨answer, hanswer, rfl⟩
    exact handle_command_tracked h hanswer

end Recorder.Worker

namespace System
variable {page : CodePage}

theorem send_tracked {s : System} {clock : Clock} {request : Request} {call : PipeCall}
    {sent : System × Option Request} (h : s.worker.Tracked)
    (hsend : s.send page clock request call = some sent) : sent.1.worker.Tracked := by
  simp only [send, Option.map_eq_some_iff] at hsend
  rcases hsend with ⟨answer, hanswer, rfl⟩
  have htracked := Worker.request_worker_tracked h hanswer
  split <;> exact htracked

theorem dispatch_tracked {s t : System} {clock : Clock} {call second : PipeCall}
    {request : Option Request} (h : s.worker.Tracked)
    (hdispatch : s.dispatch page clock call second request = some t) : t.worker.Tracked := by
  cases request with
  | none =>
    cases hdispatch
    exact h
  | some request =>
    simp only [dispatch, Option.bind_eq_some_iff] at hdispatch
    rcases hdispatch with ⟨sent, hsent, hdispatch⟩
    have hfirst := send_tracked h hsent
    split at hdispatch
    · cases hdispatch
      exact hfirst
    · rcases Option.map_eq_some_iff.mp hdispatch with ⟨last, hlast, rfl⟩
      exact send_tracked hfirst hlast

theorem tracked_of_run {admin : Bytes} {es : List Event} {s : System}
    (h : (machine page admin).run es = some s) : s.worker.Tracked := by
  apply Machine.invariant (I := fun s : System => s.worker.Tracked) (fun s e t hs hstep => ?_) h
  · simp [machine, Worker.Tracked]
  · cases e with
    | plugin event clock call second =>
      rcases Option.bind_eq_some_iff.mp hstep with ⟨reaction, -, hdispatch⟩
      apply dispatch_tracked _ hdispatch
      exact hs
    | thread step =>
      rcases Option.map_eq_some_iff.mp hstep with ⟨worker, hworker, rfl⟩
      exact Worker.threadStep_tracked hs hworker
    | worker_restarted =>
      cases hstep
      simp [Worker.Tracked]

/-- A request that reaches the worker and is answered, with no step of the other threads. -/
def undisturbed : PipeCall := {}

/-- The worker's answer to a status request at this moment. -/
def reports_recording (worker : Worker) : Bool :=
  worker.session.state = .Recording ∨ worker.session.state = .WaitingForKeyframe

/-- `/estart`, and the plugin's next poll. -/
def estart_then_poll (clock later : Clock) : List Event :=
  [.plugin (.typed (Utf8.bytes "/estart")) clock undisturbed undisturbed,
    .plugin .poll later undisturbed undisturbed]

/-- The user's `/estart` leads to a start that the worker accepts. -/
def Startable (page : CodePage) (s : System) : Prop :=
  ∀ (admin : Bytes) (clock later : Clock), ∃ t,
    (machine page admin).runFrom s (estart_then_poll clock later) = some t ∧ s.starts < t.starts

section Undisturbed
variable (page) {s : System} (clock : Clock)

theorem send_status :
    s.send page clock .status undisturbed =
      some
        ({ s with
            plugin := (s.plugin.polled clock
              ⟨true, none, s.worker.capture_ready, reports_recording s.worker⟩).1 },
          (s.plugin.polled clock
            ⟨true, none, s.worker.capture_ready, reports_recording s.worker⟩).2) := rfl

theorem send_start_accepted (hready : s.worker.capture_ready = true)
    (hstopped : s.worker.session.state = .Stopped) (metadata : EvidenceMetadata) :
    ∃ t, s.send page clock (.record_start metadata) undisturbed = some (t, none) ∧
      t.starts = s.starts + 1 ∧ t.worker.capture_ready = true ∧
      t.worker.session.state = .WaitingForKeyframe := by
  have haccepted : accepted s.worker (.record_start metadata) undisturbed = true := by
    simp [accepted, undisturbed, hready, hstopped]
  have hanswer : s.worker.request_worker page (.record_start metadata) undisturbed =
      some ({ s.worker with
        session := { s.worker.session with state := .WaitingForKeyframe }.prepare metadata
          s.worker.description }, ⟨true, none, false, false⟩) := by
    simp [Worker.request_worker, undisturbed, Worker.handle_command, Worker.record_start, hready,
      RecordingSession.claim, hstopped, RecordingSession.prepare]
  simp only [send, hanswer, Option.map_some, haccepted, if_true]
  exact ⟨_, rfl, rfl, hready, rfl⟩

theorem send_start_refused (hready : s.worker.capture_ready = true)
    (hstopped : s.worker.session.state ≠ .Stopped) (metadata : EvidenceMetadata) :
    ∃ t, s.send page clock (.record_start metadata) undisturbed = some (t, none) ∧
      t.starts = s.starts ∧ t.worker = s.worker := by
  have haccepted : accepted s.worker (.record_start metadata) undisturbed = false := by
    simp [accepted, hstopped]
  have hanswer : s.worker.request_worker page (.record_start metadata) undisturbed =
      some (s.worker, ⟨false, none, false, false⟩) := by
    simp [Worker.request_worker, undisturbed, Worker.handle_command, Worker.record_start, hready,
      RecordingSession.claim, hstopped]
  refine ⟨{ s with plugin := s.plugin.started clock ⟨false, none, false, false⟩ }, ?_, rfl, rfl⟩
  simp only [send, hanswer, Option.map_some, haccepted, Bool.false_eq_true, if_false]
  rfl

/-- The starts that a request for a recording adds. -/
def room (worker : Worker) : ℕ := if worker.session.state = .Stopped then 1 else 0

theorem send_start (hready : s.worker.capture_ready = true) (metadata : EvidenceMetadata) :
    ∃ t, s.send page clock (.record_start metadata) undisturbed = some (t, none) ∧
      t.starts = s.starts + room s.worker ∧ t.worker.capture_ready = true ∧
      t.worker.session.state ≠ .Stopped := by
  by_cases hstopped : s.worker.session.state = .Stopped
  · rcases send_start_accepted page clock hready hstopped metadata with
      ⟨t, ht, hstarts, hcapture, hstate⟩
    exact ⟨t, ht, by rw [hstarts, room, if_pos hstopped], hcapture, by simp [hstate]⟩
  · rcases send_start_refused page clock hready hstopped metadata with
      ⟨t, ht, hstarts, hworker⟩
    refine ⟨t, ht, by rw [hstarts, room, if_neg hstopped]; rfl, ?_, ?_⟩
    · rw [hworker]
      exact hready
    · rw [hworker]
      exact hstopped

theorem step_poll (hready : s.worker.capture_ready = true) :
    ∃ t, s.step page (.plugin .poll clock undisturbed undisturbed) = some t ∧
      t.starts = s.starts + if s.plugin.start_pending then room s.worker else 0 := by
  have hstep : s.step page (.plugin .poll clock undisturbed undisturbed) =
      { s with since := s.since ++ [] }.dispatch page clock undisturbed undisturbed (some .status) :=
    rfl
  rw [hstep, List.append_nil, dispatch, send_status, Option.bind_some]
  unfold Globals.polled
  dsimp only
  by_cases hpending : s.plugin.start_pending = true
  · by_cases hreports : reports_recording s.worker = true
    · have hroom : room s.worker = 0 := by
        rw [room, if_neg]
        intro hstopped
        simp [reports_recording, hstopped] at hreports
      simp [hpending, hreports, hroom]
    · rcases send_start page (s := { s with
          plugin := { s.plugin with
            worker_online := true
            capture_ready := s.worker.capture_ready
            recording := reports_recording s.worker } }) clock hready
          (Globals.metadata { s.plugin with
            worker_online := true
            capture_ready := s.worker.capture_ready
            recording := reports_recording s.worker } clock) with ⟨t, ht, hstarts, -, -⟩
      refine ⟨t, ?_, ?_⟩
      · simp only [if_true, hpending, hready, hreports, Globals.start_recording_now] at ht ⊢
        simp [ht]
      · rw [hstarts, hpending, if_pos rfl]
  · simp [hpending]

theorem lower_estart : lower_ascii (first_word (Utf8.bytes "/estart")) = Utf8.bytes "/estart" := by
  decide +kernel

theorem on_command_estart (logic : Logic) (recording : Bool) (now : ℤ) :
    logic.on_command (Utf8.bytes "/estart") recording now = (logic, .start_recording) := by
  have hopen : ¬ (Utf8.bytes "/estart" = Utf8.bytes "/grecord" ∨
      Utf8.bytes "/estart" = Utf8.bytes "/esettings") := by decide +kernel
  simp only [Logic.on_command, lower_estart, hopen, if_false, if_true]

/-- `/estart` sends a start, or leaves one pending. -/
theorem step_estart (hready : s.worker.capture_ready = true) :
    ∃ t, s.step page (.plugin (.typed (Utf8.bytes "/estart")) clock undisturbed undisturbed) =
        some t ∧ t.worker.capture_ready = true ∧
      (t.starts = s.starts + room s.worker ∧ t.worker.session.state ≠ .Stopped ∨
        t.starts = s.starts ∧ t.plugin.start_pending = true ∧ t.worker = s.worker) := by
  have hstep : s.step page (.plugin (.typed (Utf8.bytes "/estart")) clock undisturbed undisturbed) =
      { s with plugin := (s.plugin.start_recording clock).1, since := s.since ++ [] }.dispatch
        page clock undisturbed undisturbed (s.plugin.start_recording clock).2 := by
    simp only [step, Globals.react, Globals.on_typed, on_command_estart, Globals.apply_action,
      Option.bind_some]
    rfl
  rw [hstep, List.append_nil]
  by_cases hdeferred : ¬ s.plugin.worker_online = true ∨ ¬ s.plugin.capture_ready = true
  · rw [Globals.start_recording, if_pos hdeferred]
    exact ⟨_, rfl, hready, .inr ⟨rfl, rfl, rfl⟩⟩
  · rw [Globals.start_recording, if_neg hdeferred]
    rcases send_start page clock hready (s.plugin.metadata clock) with
      ⟨t, ht, hstarts, hcapture, hstate⟩
    refine ⟨t, ?_, hcapture, .inl ⟨hstarts, hstate⟩⟩
    simp only [dispatch, Globals.start_recording_now]
    rw [ht]
    rfl

/-- Typing `/estart` with the capture ready starts exactly a stopped session. -/
theorem startable_iff_stopped (hready : s.worker.capture_ready = true) :
    s.Startable page ↔ s.worker.session.state = .Stopped := by
  have hall : ∀ (admin : Bytes) (clock later : Clock), ∃ t,
      (machine page admin).runFrom s (estart_then_poll clock later) = some t ∧
        t.starts = s.starts + room s.worker := by
    intro admin clock later
    rcases step_estart page clock hready with ⟨m, hm, hcapture, hcase⟩
    rcases step_poll page later hcapture with ⟨t, ht, hstarts⟩
    refine ⟨t, ?_, ?_⟩
    · rw [estart_then_poll, Machine.runFrom_cons]
      refine ⟨m, hm, ?_⟩
      rw [Machine.runFrom_cons]
      exact ⟨t, ht, rfl⟩
    · rcases hcase with ⟨hsent, hstate⟩ | ⟨hsame, hpending, hworker⟩
      · rw [hstarts, hsent]
        simp [room, hstate]
      · rw [hstarts, hsame, hpending, if_pos rfl, hworker]
  constructor
  · intro h
    rcases h [] ⟨0, 0, []⟩ ⟨0, 0, []⟩ with ⟨t, ht, hlt⟩
    rcases hall [] ⟨0, 0, []⟩ ⟨0, 0, []⟩ with ⟨t', ht', hstarts⟩
    by_contra hstate
    rw [ht, Option.some_inj] at ht'
    rw [← ht', room, if_neg hstate] at hstarts
    omega
  · intro hstopped admin clock later
    rcases hall admin clock later with ⟨t, ht, hstarts⟩
    refine ⟨t, ht, ?_⟩
    rw [hstarts, room, if_pos hstopped]
    omega

end Undisturbed

/-- While the worker reports no recording, with the capture ready, a recording can be started
exactly when no failure is left behind and no stop is under way. -/
theorem startable_iff {admin : Bytes} {es : List Event} {s : System}
    (hrun : (machine page admin).run es = some s) (hready : s.worker.capture_ready = true)
    (hreports : reports_recording s.worker = false) :
    s.Startable page ↔ s.worker.failed = false ∧ s.worker.session.state ≠ .Stopping := by
  have htracked := tracked_of_run hrun
  rw [startable_iff_stopped page hready]
  cases hstate : s.worker.session.state with
  | WaitingForKeyframe | Recording => simp [reports_recording, hstate] at hreports
  | Stopping => simp
  | Stopped =>
    have hfailed := htracked (by simp [hstate])
    simpa [hstate] using hfailed
  | Error =>
    have hfailed := htracked (by simp [hstate])
    simpa [hstate] using hfailed

/-- `/estop` does nothing while the plugin reads no recording. -/
theorem step_estop {s : System} (clock : Clock) (call second : PipeCall)
    (h : s.plugin.recording = false) :
    s.step page (.plugin (.typed (Utf8.bytes "/estop")) clock call second) = some s := by
  have hword : lower_ascii (first_word (Utf8.bytes "/estop")) = Utf8.bytes "/estop" := by
    decide +kernel
  have hopen : ¬ (Utf8.bytes "/estop" = Utf8.bytes "/grecord" ∨
      Utf8.bytes "/estop" = Utf8.bytes "/esettings") := by decide +kernel
  have hstart : ¬ Utf8.bytes "/estop" = Utf8.bytes "/estart" := by decide +kernel
  have hcommand : s.plugin.logic.on_command (Utf8.bytes "/estop") s.plugin.recording clock.steady =
      (s.plugin.logic, .none) := by
    simp [Logic.on_command, hword, hopen, hstart, h]
  simp [step, Globals.react, Globals.on_typed, hcommand, Globals.apply_action, dispatch,
    confirmation]

def errorRun : List Event :=
  [.thread (.capture true ⟨1280, 720, false⟩), .plugin .poll ⟨1, 1, []⟩ undisturbed undisturbed,
    .plugin (.typed (Utf8.bytes "/estart")) ⟨2, 2, []⟩ undisturbed undisturbed,
    .thread (.on_sample ⟨.video, 0, 1, true, [0]⟩ ⟨some ⟨[97], List.cons_ne_nil _ _⟩, false, true⟩),
    .plugin .poll ⟨3, 3, []⟩ undisturbed undisturbed]

/-- The encoder thread stops the session after its failure. -/
def recoveredRun : List Event := errorRun ++ [.thread .begin_stop, .thread (.end_stop true)]

theorem errorRun_accepted : ((machine .windows1251 []).run errorRun).isSome := by decide +kernel

theorem recoveredRun_accepted : ((machine .windows1251 []).run recoveredRun).isSome := by
  decide +kernel

theorem startable_recoveredRun :
    ∃ s, (machine .windows1251 []).run recoveredRun = some s ∧ s.Startable .windows1251 := by
  refine ⟨_, (Option.some_get recoveredRun_accepted).symm, ?_⟩
  exact (startable_iff (Option.some_get recoveredRun_accepted).symm (by decide +kernel)
    (by decide +kernel)).mpr (by decide +kernel)

/-- After a failed recording the worker reports none and yet refuses to start one. -/
theorem not_alwaysStartable :
    ¬ ∀ (page : CodePage) (admin : Bytes) (es : List Event) (s : System),
      (machine page admin).run es = some s → s.worker.capture_ready = true →
      reports_recording s.worker = false → s.Startable page := by
  intro hall
  let s := ((machine .windows1251 []).run errorRun).get errorRun_accepted
  have hrun : (machine .windows1251 []).run errorRun = some s :=
    (Option.some_get errorRun_accepted).symm
  rcases hall _ _ _ s hrun (by decide +kernel) (by decide +kernel) [] ⟨4, 4, []⟩ ⟨5, 5, []⟩ with
    ⟨t, ht, hlt⟩
  have hstarts : ((machine .windows1251 []).runFrom s
      (estart_then_poll ⟨4, 4, []⟩ ⟨5, 5, []⟩)).map starts = some s.starts := by decide +kernel
  rw [ht, Option.map_some, Option.some_inj] at hstarts
  omega

end System
end GambitRecord
