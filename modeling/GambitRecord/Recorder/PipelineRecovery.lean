import GambitRecord.Recorder.BoundedQueue
import GambitRecord.Recorder.EncoderTransforms

/-! # Recoveries of the video pipeline

The capture, the encoder thread, the queue between them and the Direct3D device that
they share, in any order. `recover_pipeline` stops the capture and the encoder, clears
the queue, makes the device anew and starts the capture again; an exception of the
encoder or of the device leaves the capture stopped. Frames and transforms carry the
number of the device that they are of.
-/

namespace GambitRecord.Recorder
open Library.Runs

structure DeviceFrame extends VideoFrame where
  device : ℕ
  deriving DecidableEq

/-- Whether the encoder stops, and how far `D3DDevice::create` comes. -/
structure RecoveryAnswers where
  events : List MediaEvent := []
  drains : Bool := true
  device : Bool := true
  manager : Bool := true
  deriving DecidableEq

/-- `monitoring` says that the capture manager runs, `caught` that a turn is in its handler. The
history has what was captured, the frames taken and the recoveries that succeeded. -/
structure VideoPipeline where
  device_ : Option ℕ := some 0
  devices : ℕ := 1
  monitoring : Bool := true
  backend_ : Option ℕ := none
  frames_ : BoundedQueue DeviceFrame
  frame : Option DeviceFrame := none
  caught : Bool := false
  thread : EncoderThread := {}
  last_capture_pts : ℤ := 0
  consecutive_failures : UInt32 := 0
  stream_ : StreamDescription := {}
  captured : List DeviceFrame := []
  turns : ℕ := 0
  recoveries : ℕ := 0
  deriving DecidableEq

namespace VideoPipeline
variable (config : Config) (s : VideoPipeline)

def encode (frame : DeviceFrame) (pts : ℤ) (device : ℕ) (answers : EncodeAnswers) :
    Option VideoPipeline :=
  (s.thread.act config.video.prefer_hardware_encoder
    (.encode { frame.toVideoFrame with pts } frame.device device answers)).map
      fun (thread, progress) => { s with thread, caught := progress = .threw }

def turn (frame : DeviceFrame) (device : ℕ) (events : List MediaEvent) (drains : Bool)
    (answers : EncodeAnswers) : Option VideoPipeline :=
  if EncoderLoop.TooSoon config s.last_capture_pts frame.pts then some { s with frame := none }
  else
    let pts := EncoderLoop.restamped config s.last_capture_pts frame.pts
    let s := { s with last_capture_pts := pts }
    if ({ stream_ := s.stream_ } : EncoderLoop).SizeChanged frame.toVideoFrame then
      (s.thread.act config.video.prefer_hardware_encoder (.stop events drains)).bind
        fun (thread, progress) =>
          if progress = .threw then some { s with thread, caught := true }
          else { s with thread, last_capture_pts := 0 }.encode config frame pts device answers
    else s.encode config frame pts device answers

/-- A turn behind `encode`; the audio is not modelled. -/
def encoded (needs_keyframe : Bool) : Option VideoPipeline :=
  let done := { s with
    frame := none
    stream_ := ⟨s.thread.encoder.width, s.thread.encoder.height, false⟩
    consecutive_failures := 0 }
  if needs_keyframe then
    (s.thread.act config.video.prefer_hardware_encoder .request_keyframe).map
      fun (thread, _) => { done with thread }
  else some done

def recover_pipeline (answers : RecoveryAnswers) : Option VideoPipeline :=
  let stopped := { s with monitoring := false, backend_ := none }
  (s.thread.act config.video.prefer_hardware_encoder (.stop answers.events answers.drains)).map
    fun (thread, progress) =>
      if progress = .threw then { stopped with thread }
      else
        let cleared := { stopped with thread, frames_ := s.frames_.clear }
        if answers.device then
          let created := { cleared with device_ := some s.devices, devices := s.devices + 1 }
          if answers.manager then
            { created with
              monitoring := true
              last_capture_pts := 0
              consecutive_failures := 0
              stream_ := {}
              recoveries := s.recoveries + 1 }
          else created
        else { cleared with device_ := none }

/-- A keyframe is requested by a recording that starts, beside the encoder thread. -/
inductive Event where
  | connect (starts : Bool)
  | disconnect
  | capture (frame : VideoFrame)
  | pop
  | turn (events : List MediaEvent) (drains : Bool) (answers : EncodeAnswers)
  | get_event (event : Option MediaEvent)
  | process_input (answers : InputAnswers) (needs_keyframe : Bool)
  | request_keyframe
  | handle (answers : RecoveryAnswers)
  deriving DecidableEq

def step : Event → Option VideoPipeline
  | .connect starts =>
    if s.monitoring then some { s with backend_ := if starts then s.device_ else none } else none
  | .disconnect => if s.monitoring then some { s with backend_ := none } else none
  | .capture frame =>
    s.backend_.map fun device =>
      { s with
        frames_ := (s.frames_.push_drop_oldest { frame with device }).2
        captured := s.captured ++ [{ frame with device }] }
  | .pop =>
    match s.frame, s.frames_.queue with
    | none, frame :: queue =>
      some { s with
        frames_ := { s.frames_ with queue }, frame := some frame, turns := s.turns + 1 }
    | _, _ => none
  | .turn events drains answers =>
    if s.caught ∨ s.thread.nv12.isSome then none
    else
      s.frame.bind fun frame => s.device_.bind fun device =>
        s.turn config frame device events drains answers
  | .get_event event =>
    (s.thread.act config.video.prefer_hardware_encoder (.get_event event)).map
      fun (thread, progress) => { s with thread, caught := progress = .threw }
  | .process_input answers needs_keyframe =>
    (s.thread.act config.video.prefer_hardware_encoder (.process_input answers)).bind
      fun (thread, progress) =>
        if progress = .threw then some { s with thread, caught := true }
        else { s with thread }.encoded config needs_keyframe
  | .request_keyframe =>
    (s.thread.act config.video.prefer_hardware_encoder .request_keyframe).map
      fun (thread, _) => { s with thread }
  | .handle answers =>
    if s.caught then
      let s := { s with
        caught := false, frame := none, consecutive_failures := s.consecutive_failures + 1 }
      if 3 ≤ s.consecutive_failures then s.recover_pipeline config answers else some s
    else none

def machine : Machine VideoPipeline Event where
  init := { frames_ := { capacity := config.video.queue_frames.toNat } }
  step s e := s.step config e

end VideoPipeline

theorem BoundedQueue.mem_push_drop_oldest {α : Type} {q : BoundedQueue α} {value v : α}
    (h : v ∈ (q.push_drop_oldest value).2.queue) : v ∈ q.queue ∨ v = value := by
  unfold push_drop_oldest at h
  split_ifs at h
  · exact .inl h
  · rcases List.mem_append.mp h with hold | hnew
    · exact .inl (List.mem_of_mem_tail hold)
    · exact .inr (List.mem_singleton.mp hnew)
  · rcases List.mem_append.mp h with hold | hnew
    · exact .inl hold
    · exact .inr (List.mem_singleton.mp hnew)

namespace VideoEncoder
variable {device_ : Option ℕ} {encoder : VideoEncoder} {prefer_hardware_ : Bool}

/-- What the encoder has is of the device, and no transform has been given anything of another one
than its own. -/
structure OnDevice (device_ : Option ℕ) (encoder : VideoEncoder) : Prop where
  transform : ∀ transform ∈ encoder.transform_, some transform.device = device_
  converter : ∀ device ∈ encoder.converter_.processor_, some device = device_
  bare : encoder.transform_ = none → encoder.converter_.processor_ = none
  pictures : ∀ transform ∈ encoder.transforms, ∀ picture ∈ transform.pictures,
    picture.source = transform.device ∧ picture.device = transform.device

theorem onDevice_init (device_ : Option ℕ) : OnDevice device_ {} where
  transform := by simp
  converter := by simp
  bare _ := rfl
  pictures := by simp [transforms]

theorem OnDevice.of_none (h : encoder.OnDevice device_) (hnone : encoder.transform_ = none)
    (other : Option ℕ) : encoder.OnDevice other where
  transform := by simp [hnone]
  converter := by simp [h.bare hnone]
  bare := h.bare
  pictures := h.pictures

theorem onDevice_teardown (h : encoder.OnDevice device_) (other : Option ℕ) :
    encoder.teardown.OnDevice other where
  transform := by simp [teardown]
  converter := by simp [teardown]
  bare _ := rfl
  pictures transform hmem := h.pictures transform (by simpa [transforms, teardown] using hmem)

theorem onDevice_caught (h : encoder.OnDevice device_) : encoder.caught.OnDevice device_ := by
  unfold caught
  split_ifs
  · have hmarked : OnDevice device_
        { encoder with force_software_ := true, failures := encoder.failures + 1 } :=
      ⟨h.transform, h.converter, h.bare, h.pictures⟩
    exact onDevice_teardown hmarked device_
  · exact h

theorem OnDevice.of_map {next : VideoEncoder} {f : Transform → Transform}
    (h : encoder.OnDevice device_) (htransform : next.transform_ = encoder.transform_.map f)
    (hconverter : next.converter_ = encoder.converter_) (htorn : next.torn_down = encoder.torn_down)
    (hdevice : ∀ transform, (f transform).device = transform.device)
    (hpictures : ∀ transform ∈ encoder.transform_, ∀ picture ∈ (f transform).pictures,
      picture ∈ transform.pictures ∨
        some picture.source = device_ ∧ some picture.device = device_) :
    next.OnDevice device_ where
  transform fed hfed := by
    rw [htransform] at hfed
    obtain ⟨transform, hmem, rfl⟩ := Option.mem_map.mp hfed
    rw [hdevice]
    exact h.transform transform hmem
  converter := hconverter ▸ h.converter
  bare hnone := by
    rw [htransform, Option.map_eq_none_iff] at hnone
    rw [hconverter]
    exact h.bare hnone
  pictures fed hfed picture hpicture := by
    rw [transforms, htorn, htransform] at hfed
    rcases List.mem_append.mp hfed with hfed | hfed
    · exact h.pictures fed (List.mem_append_left _ hfed) picture hpicture
    · obtain ⟨transform, hmem, rfl⟩ := Option.mem_map.mp (Option.mem_toList.mp hfed)
      rw [hdevice]
      rcases hpictures transform hmem picture hpicture with hold | ⟨hsource, hnew⟩
      · have hlast := List.mem_append_right encoder.torn_down (Option.mem_toList.mpr hmem)
        exact h.pictures transform hlast picture hold
      · rw [← h.transform transform hmem] at hsource hnew
        exact ⟨Option.some_inj.mp hsource, Option.some_inj.mp hnew⟩

theorem onDevice_read_event (h : encoder.OnDevice device_) (event : MediaEvent) :
    (encoder.read_event event).OnDevice device_ := by
  cases event with
  | have_output => exact h
  | need_input =>
    exact h.of_map rfl rfl rfl (fun _ => rfl) fun _ _ _ hpicture => .inl hpicture

theorem onDevice_drain_events (h : encoder.OnDevice device_) (events : List MediaEvent) :
    (encoder.drain_events events).OnDevice device_ :=
  drain_events_induction events (fun _ event h => onDevice_read_event h event) h

theorem onDevice_apply_keyframe (h : encoder.OnDevice device_) :
    encoder.apply_keyframe.OnDevice device_ := by
  unfold apply_keyframe
  split_ifs
  · exact h.of_map rfl rfl rfl (fun _ => rfl) fun _ _ _ hpicture => .inl hpicture
  · exact h

theorem onDevice_take (h : encoder.OnDevice device_) {nv12 : Nv12}
    (hnv12 : some nv12.source = device_ ∧ some nv12.device = device_) (requested : Bool) :
    (encoder.take nv12 requested).OnDevice device_ := by
  refine h.of_map rfl rfl rfl (fun _ => rfl) fun transform _ picture hpicture => ?_
  rcases List.mem_append.mp hpicture with hold | hnew
  · exact .inl hold
  · rw [List.mem_singleton.mp hnew]
    exact .inr hnv12

theorem onDevice_configure {device : ℕ} (h : encoder.OnDevice (some device)) (width height : UInt32)
    (answers : CreateAnswers) :
    (encoder.configure prefer_hardware_ device width height answers).1.OnDevice (some device) := by
  obtain ⟨hardware, -, hcreated⟩ :=
    create_transform_cases encoder.teardown prefer_hardware_ device answers
  have hold : ∀ transform ∈ encoder.teardown.torn_down, ∀ picture ∈ transform.pictures,
      picture.source = transform.device ∧ picture.device = transform.device := h.pictures
  unfold configure
  rcases hcreated with hcreated | hcreated
  · rw [hcreated]
    dsimp only
    split_ifs
    all_goals
      refine ⟨by simp, by simp [teardown], by simp, fun transform hmem => ?_⟩
      rcases List.mem_append.mp hmem with hmem | hmem
      · exact hold transform hmem
      · simp [List.mem_singleton.mp hmem]
  · rw [hcreated]
    exact ⟨by simp [teardown], by simp [teardown], fun _ => rfl,
      (onDevice_teardown h (some device)).pictures⟩

/-- The converter is of the device at hand, or is made on it. -/
theorem onDevice_convert {device : ℕ} (h : encoder.OnDevice (some device))
    (hready : encoder.transform_ ≠ none) (frame : VideoFrame) (source : ℕ)
    (answers : EncodeAnswers) :
    (encoder.convert frame source device answers).1.OnDevice (some device) ∧
      ∀ nv12 ∈ (encoder.convert frame source device answers).2,
        nv12.source = source ∧ nv12.device = device := by
  have hconverter : ∀ processor ∈ (encoder.converter_.ensure device frame.width frame.height
      answers.processor).processor_, processor = device := by
    intro processor hprocessor
    unfold VideoProcessor.ensure at hprocessor
    split_ifs at hprocessor
    · exact Option.some_inj.mp (h.converter processor hprocessor)
    · exact (Option.some_inj.mp hprocessor).symm
    · cases hprocessor
  refine ⟨⟨h.transform, fun processor hprocessor => ?_, fun hnone => absurd hnone hready,
    h.pictures⟩, fun nv12 hnv12 => ?_⟩
  · rw [hconverter processor hprocessor]
  · simp only [convert, Option.mem_def, Option.ite_none_right_eq_some, Option.map_eq_some_iff]
      at hnv12
    obtain ⟨-, processor, hprocessor, rfl⟩ := hnv12
    exact ⟨rfl, hconverter processor hprocessor⟩

/-- A call that comes to the wait has a picture of the frame's device, made on the one at hand. -/
theorem onDevice_begin_encode {device : ℕ} (hsound : encoder.Sound)
    (h : encoder.OnDevice (some device)) (frame : VideoFrame) (source : ℕ)
    (answers : EncodeAnswers) :
    let begun := encoder.begin_encode prefer_hardware_ frame source device answers
    begun.1.OnDevice (some device) ∧ ∀ nv12 ∈ begun.2,
      nv12.source = source ∧ nv12.device = device := by
  have hready : (encoder.prepare prefer_hardware_ frame device answers.create).1.OnDevice
      (some device) := by
    unfold prepare
    split_ifs
    · exact onDevice_configure h _ _ _
    · exact h
  have hsized := (prepare_spec prefer_hardware_ hsound (keyed_false encoder) frame device
    answers.create).2.2
  unfold begin_encode
  dsimp only
  by_cases hreturned : (encoder.prepare prefer_hardware_ frame device answers.create).2 = true
  · rw [if_pos hreturned]
    obtain ⟨transform, htransform, -⟩ := hsized hreturned
    obtain ⟨hconverted, hpicture⟩ := onDevice_convert hready
      (Option.ne_none_iff_exists'.mpr ⟨transform, htransform⟩) frame source answers
    have hdrained :=
      onDevice_drain_events (onDevice_apply_keyframe hconverted) answers.events
    cases hnv12 : ((encoder.prepare prefer_hardware_ frame device answers.create).1.convert frame
        source device answers).2 with
    | none => exact ⟨onDevice_caught hconverted, by simp⟩
    | some nv12 =>
      dsimp only
      split_ifs
      · exact ⟨hdrained, fun picture hmem => hpicture picture (hnv12 ▸ hmem)⟩
      · exact ⟨onDevice_caught hdrained, by simp⟩
  · rw [if_neg hreturned]
    exact ⟨onDevice_caught hready, by simp⟩

end VideoEncoder

namespace EncoderThread
open VideoEncoder
variable {device_ : Option ℕ} {prefer_hardware_ : Bool} {s t : EncoderThread}

structure OnDevice (device_ : Option ℕ) (s : EncoderThread) : Prop where
  encoder : s.encoder.OnDevice device_
  picture : ∀ nv12 ∈ s.nv12, some nv12.source = device_ ∧ some nv12.device = device_

/-- The frame and the device of a call are those of the thread. -/
def Event.OnDevice (device_ : Option ℕ) : Event → Prop
  | .encode _ source device _ => some source = device_ ∧ some device = device_
  | _ => True

theorem onDevice_throws {encoder : VideoEncoder} (h : encoder.OnDevice device_) :
    (s.throws encoder).1.OnDevice device_ :=
  ⟨onDevice_caught h, by simp [throws]⟩

theorem onDevice_accepted {encoder : VideoEncoder} (h : encoder.OnDevice device_) {nv12 : Nv12}
    (hnv12 : some nv12.source = device_ ∧ some nv12.device = device_) (answers : InputAnswers) :
    (s.accepted encoder nv12 answers).1.OnDevice device_ := by
  have hdrained := onDevice_drain_events (onDevice_take h hnv12 s.requested) answers.events
  unfold accepted
  dsimp only
  split_ifs
  · exact ⟨hdrained, by simp⟩
  · exact onDevice_throws hdrained

theorem onDevice_act {e : Event} {progress : CallProgress} (hinv : s.Inv) (h : s.OnDevice device_)
    (hact : s.act prefer_hardware_ e = some (t, progress)) (he : e.OnDevice device_) :
    t.OnDevice device_ := by
  cases e with
  | request_keyframe =>
    simp only [act, Option.ite_none_left_eq_some, Option.some_inj, Prod.mk.injEq] at hact
    obtain ⟨-, rfl, -⟩ := hact
    exact ⟨⟨h.encoder.transform, h.encoder.converter, h.encoder.bare, h.encoder.pictures⟩,
      h.picture⟩
  | encode frame source device answers =>
    obtain ⟨hsource, rfl⟩ := he
    simp only [act, Option.ite_none_left_eq_some, Option.some_inj, Prod.mk.injEq] at hact
    obtain ⟨-, rfl, -⟩ := hact
    obtain ⟨hbegun, hpicture⟩ := onDevice_begin_encode hinv.encoder h.encoder frame source answers
    refine ⟨hbegun, fun nv12 hnv12 => ?_⟩
    obtain ⟨hnv12_source, hnv12_device⟩ := hpicture nv12 hnv12
    rw [hnv12_source, hnv12_device]
    exact ⟨hsource, rfl⟩
  | get_event event =>
    simp only [act, Option.ite_none_right_eq_some] at hact
    cases event with
    | none =>
      obtain ⟨-, hact⟩ := hact
      cases hact
      exact onDevice_throws h.encoder
    | some event =>
      obtain ⟨-, hact⟩ := hact
      cases hact
      exact ⟨onDevice_read_event h.encoder event, h.picture⟩
  | process_input answers =>
    obtain ⟨nv12, events, hnv12, -, hnext⟩ := process_input_cases hact
    have hdrained := onDevice_drain_events h.encoder events
    rcases hnext with hnext | hnext
    · obtain rfl : t = (s.accepted (s.encoder.drain_events events) nv12 answers).1 :=
        congrArg Prod.fst hnext
      exact onDevice_accepted hdrained (h.picture nv12 hnv12) answers
    · cases hnext
      exact onDevice_throws hdrained
  | stop events drains =>
    have hdrained := onDevice_drain_events h.encoder events
    obtain ⟨-, hnext | hnext | ⟨-, hnext⟩⟩ := stop_cases hact
    · cases hnext
      exact ⟨onDevice_teardown hdrained device_, h.picture⟩
    · cases hnext
      exact ⟨hdrained, h.picture⟩
    · cases hnext
      exact h

theorem onDevice_stopped {events : List MediaEvent} {drains : Bool} {progress : CallProgress}
    (h : s.OnDevice device_)
    (hact : s.act prefer_hardware_ (.stop events drains) = some (t, progress))
    (hreturned : progress ≠ .threw) (other : Option ℕ) : t.OnDevice other := by
  obtain ⟨hnone, hnext | hnext | ⟨htransform, hnext⟩⟩ := stop_cases hact
  · cases hnext
    exact ⟨onDevice_teardown (onDevice_drain_events h.encoder events) other, by simp [hnone]⟩
  · cases hnext
    exact absurd rfl hreturned
  · -- `stop` returns early, and the converter was reset with the last transform.
    cases hnext
    exact ⟨h.encoder.of_none htransform other, by simp [hnone]⟩

/-- Behind `ProcessInput` the call has ended. -/
theorem process_input_idle {answers : InputAnswers} {progress : CallProgress}
    (hact : s.act prefer_hardware_ (.process_input answers) = some (t, progress)) :
    t.nv12 = none ∧ progress ≠ .running := by
  have haccepted (encoder : VideoEncoder) (nv12 : Nv12) :
      (s.accepted encoder nv12 answers).1.nv12 = none ∧
        (s.accepted encoder nv12 answers).2 ≠ .running := by
    unfold accepted
    dsimp only
    split_ifs <;> simp [throws]
  obtain ⟨nv12, events, -, -, hnext⟩ := process_input_cases hact
  rcases hnext with hnext | hnext
  · have hended := haccepted (s.encoder.drain_events events) nv12
    rw [← hnext] at hended
    exact hended
  · cases hnext
    simp

theorem stop_idle {events : List MediaEvent} {drains : Bool} {progress : CallProgress}
    (hact : s.act prefer_hardware_ (.stop events drains) = some (t, progress)) :
    t.nv12 = none ∧ progress ≠ .running := by
  obtain ⟨hnone, hnext | hnext | ⟨-, hnext⟩⟩ := stop_cases hact
  all_goals
    cases hnext
    exact ⟨hnone, by decide⟩

theorem request_keyframe_idle {progress : CallProgress}
    (hact : s.act prefer_hardware_ .request_keyframe = some (t, progress)) :
    t.nv12 = none ∧ progress ≠ .running := by
  simp only [act, Option.ite_none_left_eq_some, Option.some_inj, Prod.mk.injEq] at hact
  obtain ⟨hidle, rfl, rfl⟩ := hact
  exact ⟨by simpa using hidle, by decide⟩

theorem act_idle {e : Event} {progress : CallProgress}
    (hact : s.act prefer_hardware_ e = some (t, progress)) (h : progress ≠ .running) :
    t.nv12 = none := by
  cases e with
  | request_keyframe => exact (request_keyframe_idle hact).1
  | encode frame source device answers =>
    simp only [act, Option.ite_none_left_eq_some, Option.some_inj, Prod.mk.injEq] at hact
    obtain ⟨-, rfl, rfl⟩ := hact
    simpa using h
  | get_event event =>
    simp only [act, Option.ite_none_right_eq_some] at hact
    obtain ⟨-, hact⟩ := hact
    cases event with
    | none =>
      cases hact
      rfl
    | some event =>
      cases hact
      exact absurd rfl h
  | process_input answers => exact (process_input_idle hact).1
  | stop events drains => exact (stop_idle hact).1

end EncoderThread

namespace VideoPipeline
open EncoderThread
variable {config : Config} {s t : VideoPipeline}

/-- What the pipeline has is of the device at hand, and nothing is left where there is none. -/
structure Inv (s : VideoPipeline) : Prop where
  thread : s.thread.Inv
  device : s.thread.OnDevice s.device_
  queue : ∀ frame ∈ s.frames_.queue, some frame.device = s.device_
  frame : ∀ frame ∈ s.frame, some frame.device = s.device_
  backend : ∀ device ∈ s.backend_, some device = s.device_
  caught : s.caught = true → s.thread.nv12 = none
  idle : s.frame = none → s.thread.nv12 = none ∧ s.caught = false
  silent : s.monitoring = false → s.backend_ = none
  lost : s.device_ = none → s.monitoring = false ∧ s.frames_.queue = [] ∧ s.frame = none

theorem inv_init : (machine config).init.Inv where
  thread := EncoderThread.inv_init
  device := ⟨VideoEncoder.onDevice_init _, by simp [machine]⟩
  queue := by simp [machine]
  frame := by simp [machine]
  backend := by simp [machine]
  caught _ := rfl
  idle _ := ⟨rfl, rfl⟩
  silent _ := rfl
  lost h := by cases h

theorem Inv.act (h : s.Inv) {e : EncoderThread.Event} {thread : EncoderThread}
    {progress : CallProgress}
    (hact : s.thread.act config.video.prefer_hardware_encoder e = some (thread, progress))
    (he : e.OnDevice s.device_) (caught : Bool) (last_capture_pts : ℤ)
    (hcaught : caught = true → progress ≠ .running)
    (hidle : s.frame = none → progress ≠ .running ∧ caught = false) :
    { s with thread, caught, last_capture_pts }.Inv where
  thread := inv_act h.thread hact
  device := onDevice_act h.thread h.device hact he
  queue := h.queue
  frame := h.frame
  backend := h.backend
  caught hcaught' := act_idle hact (hcaught hcaught')
  idle hframe := ⟨act_idle hact (hidle hframe).1, (hidle hframe).2⟩
  silent := h.silent
  lost := h.lost

theorem inv_encode (h : s.Inv) {frame : DeviceFrame} (hframe : s.frame = some frame) {pts : ℤ}
    {device : ℕ} (hdevice : s.device_ = some device) {answers : EncodeAnswers}
    (hstep : s.encode config frame pts device answers = some t) : t.Inv := by
  obtain ⟨⟨thread, progress⟩, hact, rfl⟩ := Option.map_eq_some_iff.mp hstep
  refine h.act hact ⟨h.frame frame hframe, hdevice.symm⟩ _ s.last_capture_pts ?_ ?_
  · intro hthrew hrunning
    simp [hrunning] at hthrew
  · simp [hframe]

theorem inv_turn (h : s.Inv) (hcaught : s.caught = false) {frame : DeviceFrame}
    (hframe : s.frame = some frame) {device : ℕ} (hdevice : s.device_ = some device)
    (hidle : s.thread.nv12 = none) {events : List MediaEvent} {drains : Bool}
    {answers : EncodeAnswers}
    (hstep : s.turn config frame device events drains answers = some t) : t.Inv := by
  have hlast (last_capture_pts : ℤ) : { s with last_capture_pts }.Inv :=
    ⟨h.thread, h.device, h.queue, h.frame, h.backend, h.caught, h.idle, h.silent, h.lost⟩
  unfold turn at hstep
  dsimp only at hstep
  split_ifs at hstep
  · cases hstep
    exact ⟨h.thread, h.device, h.queue, by simp, h.backend, h.caught, fun _ => ⟨hidle, hcaught⟩,
      h.silent, fun hnone => by simp [hdevice] at hnone⟩
  · obtain ⟨⟨thread, progress⟩, hact, hstep⟩ := Option.bind_eq_some_iff.mp hstep
    have hrunning := (stop_idle hact).2
    dsimp only at hstep
    split_ifs at hstep
    · cases hstep
      exact h.act hact trivial true _ (fun _ => hrunning) (by simp [hframe])
    · have hstopped := h.act hact trivial s.caught 0 (fun _ => hrunning) (by simp [hframe])
      exact inv_encode hstopped hframe hdevice hstep
  · exact inv_encode (hlast (EncoderLoop.restamped config s.last_capture_pts frame.pts)) hframe
      hdevice hstep

theorem inv_encoded (h : s.Inv) (hcaught : s.caught = false) (hidle : s.thread.nv12 = none)
    {needs_keyframe : Bool} (hstep : s.encoded config needs_keyframe = some t) : t.Inv := by
  have hlost (hnone : s.device_ = none) :
      s.monitoring = false ∧ s.frames_.queue = [] ∧ (none : Option DeviceFrame) = none :=
    ⟨(h.lost hnone).1, (h.lost hnone).2.1, rfl⟩
  unfold encoded at hstep
  dsimp only at hstep
  split_ifs at hstep
  · obtain ⟨⟨thread, progress⟩, hact, rfl⟩ := Option.map_eq_some_iff.mp hstep
    have hnext := (request_keyframe_idle hact).1
    exact ⟨inv_act h.thread hact, onDevice_act h.thread h.device hact trivial, h.queue, by simp,
      h.backend, fun _ => hnext, fun _ => ⟨hnext, hcaught⟩, h.silent, hlost⟩
  · cases hstep
    exact ⟨h.thread, h.device, h.queue, by simp, h.backend, h.caught, fun _ => ⟨hidle, hcaught⟩,
      h.silent, hlost⟩

theorem inv_recover_pipeline (h : s.Inv) (hframe : s.frame = none) {answers : RecoveryAnswers}
    (hstep : s.recover_pipeline config answers = some t) : t.Inv := by
  obtain ⟨⟨thread, progress⟩, hact, rfl⟩ := Option.map_eq_some_iff.mp hstep
  have hthread := inv_act h.thread hact
  have hidle := (stop_idle hact).1
  have hcaught := (h.idle hframe).2
  dsimp only
  split_ifs with hthrew
  · exact ⟨hthread, onDevice_act h.thread h.device hact trivial, h.queue, h.frame, by simp,
      fun _ => hidle, fun _ => ⟨hidle, hcaught⟩, fun _ => rfl,
      fun hnone => ⟨rfl, (h.lost hnone).2⟩⟩
  -- What is left behind the encoder's stop is of no device, and may be of any.
  all_goals
    exact ⟨hthread, onDevice_stopped h.device hact hthrew _, by simp [BoundedQueue.clear],
      by simp [hframe], by simp, fun _ => hidle, fun _ => ⟨hidle, hcaught⟩, fun _ => rfl,
      by simp [BoundedQueue.clear, hframe]⟩

theorem inv_step {e : Event} (h : s.Inv) (hstep : s.step config e = some t) : t.Inv := by
  -- A call under way has its frame.
  have hcalled (hcall : s.thread.nv12.isSome = true) : s.frame ≠ none := by
    intro hframe
    rw [(h.idle hframe).1] at hcall
    cases hcall
  cases e with
  | connect starts =>
    simp only [step, Option.ite_none_right_eq_some, Option.some_inj] at hstep
    obtain ⟨hmonitoring, rfl⟩ := hstep
    refine ⟨h.thread, h.device, h.queue, h.frame, ?_, h.caught, h.idle, ?_, h.lost⟩
    · intro device hdevice
      rw [Option.mem_def, Option.ite_none_right_eq_some] at hdevice
      exact hdevice.2.symm
    · simp [hmonitoring]
  | disconnect =>
    simp only [step, Option.ite_none_right_eq_some, Option.some_inj] at hstep
    obtain ⟨-, rfl⟩ := hstep
    exact ⟨h.thread, h.device, h.queue, h.frame, by simp, h.caught, h.idle, fun _ => rfl, h.lost⟩
  | capture frame =>
    obtain ⟨device, hbackend, rfl⟩ := Option.map_eq_some_iff.mp hstep
    have hdevice := h.backend device hbackend
    refine ⟨h.thread, h.device, fun queued hqueued => ?_, h.frame, h.backend, h.caught, h.idle,
      h.silent, fun hnone => ?_⟩
    · rcases BoundedQueue.mem_push_drop_oldest hqueued with hold | rfl
      · exact h.queue queued hold
      · exact hdevice
    · rw [hnone] at hdevice
      cases hdevice
  | pop =>
    simp only [step] at hstep
    split at hstep
    · next frame queue hframe hqueue =>
      obtain ⟨hidle, hcaught⟩ := h.idle hframe
      cases hstep
      refine ⟨h.thread, h.device, fun queued hqueued => ?_, ?_, h.backend, h.caught,
        by simp, h.silent, fun hnone => ?_⟩
      · exact h.queue queued (hqueue ▸ List.mem_cons_of_mem _ hqueued)
      · rintro _ ⟨⟩
        exact h.queue frame (hqueue ▸ List.mem_cons_self ..)
      · rw [(h.lost hnone).2.1] at hqueue
        cases hqueue
    · cases hstep
  | turn events drains answers =>
    simp only [step, Option.ite_none_left_eq_some] at hstep
    obtain ⟨hready, hstep⟩ := hstep
    obtain ⟨frame, hframe, hstep⟩ := Option.bind_eq_some_iff.mp hstep
    obtain ⟨device, hdevice, hstep⟩ := Option.bind_eq_some_iff.mp hstep
    rw [not_or] at hready
    exact inv_turn h (by simpa using hready.1) hframe hdevice (by simpa using hready.2) hstep
  | get_event event =>
    obtain ⟨⟨thread, progress⟩, hact, rfl⟩ := Option.map_eq_some_iff.mp hstep
    have hcall : s.thread.nv12.isSome = true := by
      simp only [EncoderThread.act, Option.ite_none_right_eq_some] at hact
      exact hact.1.1
    refine h.act hact trivial _ s.last_capture_pts (fun hthrew hrunning => ?_)
      fun hnone => absurd hnone (hcalled hcall)
    simp [hrunning] at hthrew
  | process_input answers needs_keyframe =>
    obtain ⟨⟨thread, progress⟩, hact, hstep⟩ := Option.bind_eq_some_iff.mp hstep
    have hcall : s.thread.nv12.isSome = true := by
      by_contra hcall
      simp [EncoderThread.act, Option.not_isSome_iff_eq_none.mp hcall] at hact
    have hframe := hcalled hcall
    have hrunning := (process_input_idle hact).2
    have hcaught : s.caught = false := by
      by_contra hcaught
      rw [h.caught (by simpa using hcaught)] at hcall
      cases hcall
    dsimp only at hstep
    split_ifs at hstep
    · cases hstep
      exact h.act hact trivial true s.last_capture_pts (fun _ => hrunning)
        fun hnone => absurd hnone hframe
    · have hnext := h.act hact trivial s.caught s.last_capture_pts (fun _ => hrunning)
        fun hnone => absurd hnone hframe
      exact inv_encoded hnext hcaught (act_idle hact hrunning) hstep
  | request_keyframe =>
    obtain ⟨⟨thread, progress⟩, hact, rfl⟩ := Option.map_eq_some_iff.mp hstep
    have hrunning := (request_keyframe_idle hact).2
    exact h.act hact trivial s.caught s.last_capture_pts (fun _ => hrunning)
      fun hnone => ⟨hrunning, (h.idle hnone).2⟩
  | handle answers =>
    simp only [step, Option.ite_none_right_eq_some] at hstep
    obtain ⟨hcaught, hstep⟩ := hstep
    have hhandled : Inv { s with
        caught := false, frame := none, consecutive_failures := s.consecutive_failures + 1 } :=
      ⟨h.thread, h.device, h.queue, by simp, h.backend, fun _ => h.caught hcaught,
        fun _ => ⟨h.caught hcaught, rfl⟩, h.silent,
        fun hnone => ⟨(h.lost hnone).1, (h.lost hnone).2.1, rfl⟩⟩
    split_ifs at hstep
    · exact inv_recover_pipeline hhandled rfl hstep
    · cases hstep
      exact hhandled

theorem inv_run {es : List Event} (hrun : (machine config).run es = some s) : s.Inv := by
  refine Machine.invariant (fun s e t h hstep => ?_) hrun inv_init
  exact inv_step h hstep

/-! ## Whole runs -/

/-- Nothing of a device that was replaced is left, and every picture that a transform took was made
on the transform's device from a frame of it. -/
structure OneDevice (s : VideoPipeline) : Prop where
  queue : ∀ frame ∈ s.frames_.queue, some frame.device = s.device_
  frame : ∀ frame ∈ s.frame, some frame.device = s.device_
  transform : ∀ transform ∈ s.thread.encoder.transform_, some transform.device = s.device_
  converter : ∀ device ∈ s.thread.encoder.converter_.processor_, some device = s.device_
  pictures : ∀ transform ∈ s.thread.encoder.transforms, ∀ picture ∈ transform.pictures,
    picture.source = transform.device ∧ picture.device = transform.device

theorem one_device {es : List Event} (hrun : (machine config).run es = some s) : s.OneDevice := by
  have h := inv_run hrun
  exact ⟨h.queue, h.frame, h.device.encoder.transform, h.device.encoder.converter,
    h.device.encoder.pictures⟩

def frameAt (ms : ℤ) : VideoFrame := ⟨1920, 1080, ms * 10000, ms * 10000⟩

/-- One picture is encoded, then a conversion fails, and twice no new encoder can be configured. -/
def failingRun : List Event :=
  [.connect true, .capture (frameAt 100), .pop,
    .turn [] true { events := [.need_input] }, .process_input {} true,
    .capture (frameAt 200), .capture (frameAt 300), .capture (frameAt 400),
    .pop, .turn [] true { converts := false }, .handle {},
    .pop, .turn [] true { create := { types := false } }, .handle {},
    .pop, .turn [] true { create := { types := false } }]

/-- The recovery clears a frame of the old device, and the next picture is made on the new one. -/
def recoveredRun : List Event :=
  failingRun ++ [.capture (frameAt 500), .handle {}, .connect true, .capture (frameAt 600), .pop,
    .turn [] true { create := { in_hardware := false, async := false } }, .process_input {} false]

theorem recoveredRun_accepted : ((machine {}).run recoveredRun).isSome := by decide +kernel

theorem one_device_recoveredRun :
    let s := ((machine {}).run recoveredRun).get recoveredRun_accepted
    s.device_ = some 1 ∧ (s.thread.encoder.transforms.map fun transform =>
      (transform.device, transform.pictures.length)) = [(0, 1), (0, 0), (0, 0), (1, 1)] ∧
        s.OneDevice :=
  ⟨by decide +kernel, by decide +kernel, one_device (Option.some_get recoveredRun_accepted).symm⟩

structure Kept (s t : VideoPipeline) : Prop where
  monitoring : t.monitoring = s.monitoring
  frames_ : t.frames_ = s.frames_
  captured : t.captured = s.captured
  turns : t.turns = s.turns
  recoveries : t.recoveries = s.recoveries

theorem kept_encode {frame : DeviceFrame} {pts : ℤ} {device : ℕ} {answers : EncodeAnswers}
    (hstep : s.encode config frame pts device answers = some t) : s.Kept t := by
  obtain ⟨⟨thread, progress⟩, -, rfl⟩ := Option.map_eq_some_iff.mp hstep
  exact ⟨rfl, rfl, rfl, rfl, rfl⟩

theorem kept_turn {frame : DeviceFrame} {device : ℕ} {events : List MediaEvent} {drains : Bool}
    {answers : EncodeAnswers}
    (hstep : s.turn config frame device events drains answers = some t) : s.Kept t := by
  unfold turn at hstep
  dsimp only at hstep
  split_ifs at hstep
  · cases hstep
    exact ⟨rfl, rfl, rfl, rfl, rfl⟩
  · obtain ⟨⟨thread, progress⟩, -, hstep⟩ := Option.bind_eq_some_iff.mp hstep
    dsimp only at hstep
    split_ifs at hstep
    · cases hstep
      exact ⟨rfl, rfl, rfl, rfl, rfl⟩
    · have h := kept_encode hstep
      exact ⟨h.monitoring, h.frames_, h.captured, h.turns, h.recoveries⟩
  · have h := kept_encode hstep
    exact ⟨h.monitoring, h.frames_, h.captured, h.turns, h.recoveries⟩

theorem kept_encoded {needs_keyframe : Bool}
    (hstep : s.encoded config needs_keyframe = some t) : s.Kept t := by
  unfold encoded at hstep
  dsimp only at hstep
  split_ifs at hstep
  · obtain ⟨⟨thread, progress⟩, -, rfl⟩ := Option.map_eq_some_iff.mp hstep
    exact ⟨rfl, rfl, rfl, rfl, rfl⟩
  · cases hstep
    exact ⟨rfl, rfl, rfl, rfl, rfl⟩

/-- What a run does to a pipeline whose capture is stopped, until a recovery succeeds. -/
structure Follows (s t : VideoPipeline) : Prop where
  recoveries : s.recoveries ≤ t.recoveries
  silent : s.monitoring = false → t.recoveries = s.recoveries → t.monitoring = false ∧
    t.captured = s.captured ∧
      t.turns + t.frames_.queue.length ≤ s.turns + s.frames_.queue.length
  ended : s.monitoring = false → s.frames_.queue = [] → s.frame = none →
    t.frames_.queue = [] ∧ t.frame = none ∧ t.turns = s.turns ∧ t.recoveries = s.recoveries

theorem Follows.refl (s : VideoPipeline) : s.Follows s :=
  ⟨le_refl _, fun h _ => ⟨h, rfl, le_refl _⟩, fun _ hqueue hframe => ⟨hqueue, hframe, rfl, rfl⟩⟩

theorem Follows.trans {s t u : VideoPipeline} (hst : s.Follows t) (htu : t.Follows u) :
    s.Follows u where
  recoveries := hst.recoveries.trans htu.recoveries
  silent hsilent hsame := by
    have ht : t.recoveries = s.recoveries :=
      le_antisymm (htu.recoveries.trans hsame.le) hst.recoveries
    obtain ⟨hmiddle, hcaptured, hturns⟩ := hst.silent hsilent ht
    obtain ⟨hend, hcaptured', hturns'⟩ := htu.silent hmiddle (hsame.trans ht.symm)
    exact ⟨hend, hcaptured'.trans hcaptured, hturns'.trans hturns⟩
  ended hsilent hqueue hframe := by
    obtain ⟨hqueue', hframe', hturns, hrecoveries⟩ := hst.ended hsilent hqueue hframe
    have hmiddle := (hst.silent hsilent hrecoveries).1
    obtain ⟨hqueue'', hframe'', hturns', hrecoveries'⟩ := htu.ended hmiddle hqueue' hframe'
    exact ⟨hqueue'', hframe'', hturns'.trans hturns, hrecoveries'.trans hrecoveries⟩

theorem Kept.follows (h : s.Kept t) (hframe : s.frame = none → t.frame = none) : s.Follows t where
  recoveries := h.recoveries.ge
  silent hsilent _ := by
    rw [h.monitoring, h.turns, h.frames_]
    exact ⟨hsilent, h.captured, le_refl _⟩
  ended _ hqueue hnone := by
    rw [h.frames_]
    exact ⟨hqueue, hframe hnone, h.turns, h.recoveries⟩

/-- A recovery succeeds, or leaves the capture stopped. -/
theorem recover_pipeline_cases {answers : RecoveryAnswers}
    (hstep : s.recover_pipeline config answers = some t) :
    t.recoveries = s.recoveries + 1 ∨
      t.recoveries = s.recoveries ∧ t.monitoring = false ∧ t.captured = s.captured ∧
        t.turns = s.turns ∧ t.frames_.queue.length ≤ s.frames_.queue.length := by
  obtain ⟨⟨thread, progress⟩, -, rfl⟩ := Option.map_eq_some_iff.mp hstep
  dsimp only
  split_ifs
  · exact .inr ⟨rfl, rfl, rfl, rfl, le_refl _⟩
  · exact .inl rfl
  · exact .inr ⟨rfl, rfl, rfl, rfl, Nat.zero_le _⟩
  · exact .inr ⟨rfl, rfl, rfl, rfl, Nat.zero_le _⟩

theorem follows_step {e : Event} (h : s.Inv) (hstep : s.step config e = some t) : s.Follows t := by
  cases e with
  | connect starts =>
    simp only [step, Option.ite_none_right_eq_some, Option.some_inj] at hstep
    obtain ⟨-, rfl⟩ := hstep
    exact Kept.follows ⟨rfl, rfl, rfl, rfl, rfl⟩ id
  | disconnect =>
    simp only [step, Option.ite_none_right_eq_some, Option.some_inj] at hstep
    obtain ⟨-, rfl⟩ := hstep
    exact Kept.follows ⟨rfl, rfl, rfl, rfl, rfl⟩ id
  | capture frame =>
    obtain ⟨device, hbackend, rfl⟩ := Option.map_eq_some_iff.mp hstep
    have hruns : s.monitoring ≠ false := by
      intro hsilent
      rw [h.silent hsilent] at hbackend
      cases hbackend
    exact ⟨le_refl _, fun hsilent => absurd hsilent hruns, fun hsilent => absurd hsilent hruns⟩
  | pop =>
    simp only [step] at hstep
    split at hstep
    · next frame queue _ hqueue =>
      cases hstep
      refine ⟨le_refl _, fun hsilent _ => ⟨hsilent, rfl, ?_⟩, fun _ hnone => ?_⟩
      · rw [hqueue, List.length_cons]
        exact (Nat.add_right_comm ..).le
      · rw [hqueue] at hnone
        cases hnone
    · cases hstep
  | turn events drains answers =>
    simp only [step, Option.ite_none_left_eq_some] at hstep
    obtain ⟨-, hstep⟩ := hstep
    obtain ⟨frame, hframe, hstep⟩ := Option.bind_eq_some_iff.mp hstep
    obtain ⟨device, -, hstep⟩ := Option.bind_eq_some_iff.mp hstep
    exact (kept_turn hstep).follows fun hnone => by simp [hframe] at hnone
  | get_event event =>
    obtain ⟨⟨thread, progress⟩, -, rfl⟩ := Option.map_eq_some_iff.mp hstep
    exact Kept.follows ⟨rfl, rfl, rfl, rfl, rfl⟩ id
  | process_input answers needs_keyframe =>
    obtain ⟨⟨thread, progress⟩, hact, hstep⟩ := Option.bind_eq_some_iff.mp hstep
    have hframe : s.frame ≠ none := by
      intro hnone
      simp [EncoderThread.act, (h.idle hnone).1] at hact
    dsimp only at hstep
    split_ifs at hstep
    · cases hstep
      exact Kept.follows ⟨rfl, rfl, rfl, rfl, rfl⟩ id
    · have hkept := kept_encoded hstep
      exact Kept.follows ⟨hkept.monitoring, hkept.frames_, hkept.captured, hkept.turns,
        hkept.recoveries⟩ fun hnone => absurd hnone hframe
  | request_keyframe =>
    obtain ⟨⟨thread, progress⟩, -, rfl⟩ := Option.map_eq_some_iff.mp hstep
    exact Kept.follows ⟨rfl, rfl, rfl, rfl, rfl⟩ id
  | handle answers =>
    simp only [step, Option.ite_none_right_eq_some] at hstep
    obtain ⟨hcaught, hstep⟩ := hstep
    have hframe : s.frame ≠ none := by
      intro hnone
      rw [(h.idle hnone).2] at hcaught
      cases hcaught
    split_ifs at hstep
    · rcases recover_pipeline_cases hstep with
        hrecovered | ⟨hrecoveries, hmonitoring, hcaptured, hturns, hqueue⟩
      · refine ⟨by rw [hrecovered]; exact Nat.le_succ _, fun _ hsame => ?_,
          fun _ _ hnone => absurd hnone hframe⟩
        rw [hrecovered] at hsame
        exact absurd hsame (Nat.succ_ne_self _)
      · refine ⟨hrecoveries.ge, fun _ _ => ⟨hmonitoring, hcaptured, ?_⟩,
          fun _ _ hnone => absurd hnone hframe⟩
        rw [hturns]
        exact Nat.add_le_add_left hqueue _
    · cases hstep
      exact Kept.follows ⟨rfl, rfl, rfl, rfl, rfl⟩ fun hnone => absurd hnone hframe

/-- Behind a recovery that fails nothing is captured before one that succeeds, and what turns there
are left are on the frames that wait. That is never where the device is lost or no frame is left. -/
theorem silent_after_failure {es more : List Event} (hrun : (machine config).run es = some s)
    (hsilent : s.monitoring = false) (hmore : (machine config).runFrom s more = some t) :
    (t.recoveries = s.recoveries → t.captured = s.captured ∧
      t.turns + t.frames_.queue.length ≤ s.turns + s.frames_.queue.length) ∧
    (s.device_ = none ∨ s.frames_.queue = [] ∧ s.frame = none →
      t.recoveries = s.recoveries ∧ t.captured = s.captured ∧ t.turns = s.turns) := by
  have hinv := inv_run hrun
  have hfollows : s.Follows t := by
    refine Machine.relation_along (C := fun _ _ => True) (I := Inv) Follows.refl
      (fun _ _ _ => Follows.trans) (fun s e t h _ hstep => ?_) (fun s e t h _ hstep => ?_)
      (Machine.along_of_forall (C := fun _ => True) fun _ _ => trivial) hmore hinv
    · exact inv_step h hstep
    · exact follows_step h hstep
  refine ⟨fun hsame => (hfollows.silent hsilent hsame).2, fun hlost => ?_⟩
  have hempty : s.frames_.queue = [] ∧ s.frame = none :=
    hlost.elim (fun hnone => (hinv.lost hnone).2) id
  obtain ⟨-, -, hturns, hrecoveries⟩ := hfollows.ended hsilent hempty.1 hempty.2
  exact ⟨hrecoveries, (hfollows.silent hsilent hrecoveries).2.1, hturns⟩

/-- The device cannot be made anew, and a recording asks for a keyframe. -/
def deviceLostRun : List Event := failingRun ++ [.handle { device := false }]

theorem deviceLostRun_accepted : ((machine {}).run deviceLostRun).isSome := by decide +kernel

theorem requested_accepted : ((machine {}).runFrom
    (((machine {}).run deviceLostRun).get deviceLostRun_accepted) [.request_keyframe]).isSome := by
  decide +kernel

theorem silent_after_failure_deviceLostRun :
    let s := ((machine {}).run deviceLostRun).get deviceLostRun_accepted
    let t := ((machine {}).runFrom s [.request_keyframe]).get requested_accepted
    s.monitoring = false ∧ s.device_ = none ∧
      t.recoveries = s.recoveries ∧ t.captured = s.captured ∧ t.turns = s.turns := by
  refine ⟨by decide +kernel, by decide +kernel, ?_⟩
  exact (silent_after_failure (Option.some_get deviceLostRun_accepted).symm (by decide +kernel)
    (Option.some_get requested_accepted).symm).2 (.inl (by decide +kernel))

end VideoPipeline
end GambitRecord.Recorder
