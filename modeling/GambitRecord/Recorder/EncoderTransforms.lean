import GambitRecord.Recorder.EncoderStretches

/-! # The video encoder and its transforms

`MediaFoundationEncoder` with the transforms that it makes, a step for each answer it
waits for. An asynchronous transform asks for every picture by an event, and the encoder
notes in one flag that it was asked. The history keeps the transforms that were torn
down, and with each transform what it asked for and what it was given.
-/

namespace GambitRecord.Recorder
open Library.Runs

inductive MediaEvent where
  | need_input
  | have_output
  deriving DecidableEq

/-- The converted picture, with the device of the frame's texture and that of the processor. -/
structure Nv12 where
  width : UInt32
  height : UInt32
  source : ℕ
  device : ℕ
  deriving DecidableEq

/-- A picture that a transform has taken: whether it was the first, whether a keyframe had been
requested since the picture before, and whether the transform had been told to make one. -/
structure Picture extends Nv12 where
  first : Bool
  requested : Bool
  forced : Bool
  deriving DecidableEq

/-- `failures` are those of encoders in hardware before it was made; `merged` are the requests for
input that were read while the one before had not been answered. -/
structure Transform where
  hardware : Bool
  async : Bool
  codec : Bool
  device : ℕ
  failures : ℕ
  size : Option (UInt32 × UInt32) := none
  force : Bool := false
  asked : ℕ := 0
  merged : ℕ := 0
  pictures : List Picture := []
  deriving DecidableEq

/-- `processor_` is the device that the processor was made on. -/
structure VideoProcessor where
  processor_ : Option ℕ := none
  width_ : UInt32 := 0
  height_ : UInt32 := 0
  deriving DecidableEq

/-- The size of the processor is even, that of the frame need not be. -/
def VideoProcessor.ensure (converter : VideoProcessor) (device : ℕ) (width height : UInt32)
    (creates : Bool) : VideoProcessor :=
  if converter.processor_.isSome ∧ width = converter.width_ ∧ height = converter.height_ then
    converter
  else ⟨if creates then some device else none, width &&& ~~~1, height &&& ~~~1⟩

structure VideoEncoder extends MediaFoundationEncoder where
  converter_ : VideoProcessor := {}
  transform_ : Option Transform := none
  async_ : Bool := false
  hardware_ : Bool := false
  need_input_ : Bool := false
  force_keyframe_ : Bool := false
  force_software_ : Bool := false
  torn_down : List Transform := []
  failures : ℕ := 0
  deriving DecidableEq

/-- Which encoders are installed, and how far a new one comes. -/
structure CreateAnswers where
  in_hardware : Bool := true
  in_software : Bool := true
  activates : Bool := true
  async : Bool := true
  codec : Bool := true
  types : Bool := true
  starts : Bool := true
  deriving DecidableEq

/-- The answers before the wait for input; `drains` is false where `drain_output` throws, which it
does for no asynchronous transform. -/
structure EncodeAnswers where
  create : CreateAnswers := {}
  processor : Bool := true
  converts : Bool := true
  events : List MediaEvent := []
  drains : Bool := true
  deriving DecidableEq

inductive InputAnswer where
  | accepted
  | not_accepting
  | failed
  deriving DecidableEq

/-- The answers of one or two calls of `ProcessInput`, and of the draining between and behind. -/
structure InputAnswers where
  first : InputAnswer := .accepted
  between : List MediaEvent := []
  between_drains : Bool := true
  second : InputAnswer := .accepted
  events : List MediaEvent := []
  drains : Bool := true
  deriving DecidableEq

namespace VideoEncoder
variable (prefer_hardware_ : Bool) (encoder : VideoEncoder)

def transforms : List Transform := encoder.torn_down ++ encoder.transform_.toList

def teardown : VideoEncoder :=
  { encoder with
    toMediaFoundationEncoder := encoder.toMediaFoundationEncoder.teardown
    converter_ := {}
    transform_ := none
    async_ := false
    hardware_ := false
    need_input_ := false
    torn_down := encoder.transforms }

def create_transform (device : ℕ) (answers : CreateAnswers) : VideoEncoder × Bool :=
  let hardware := prefer_hardware_ && !encoder.force_software_ && answers.in_hardware
  if (hardware || answers.in_software) && answers.activates then
    ({ encoder with
      hardware_ := hardware
      transform_ := some
        { hardware, async := answers.async, codec := answers.codec, device,
          failures := encoder.failures }
      async_ := answers.async }, true)
  else ({ encoder with hardware_ := hardware }, false)

/-- Whether it returns, or throws. -/
def configure (device : ℕ) (width height : UInt32) (answers : CreateAnswers) :
    VideoEncoder × Bool :=
  let created := encoder.teardown.create_transform prefer_hardware_ device answers
  if created.2 && answers.types then
    let typed := { created.1 with
      transform_ := created.1.transform_.map fun transform =>
        { transform with size := some (width, height) } }
    if answers.starts then
      ({ typed with configured_ := true, width, height, need_input_ := !typed.async_ }, true)
    else (typed, false)
  else (created.1, false)

def caught : VideoEncoder :=
  if encoder.hardware_ then
    { encoder with force_software_ := true, failures := encoder.failures + 1 }.teardown
  else encoder

def read_event : MediaEvent → VideoEncoder
  | .need_input =>
    { encoder with
      need_input_ := true
      transform_ := encoder.transform_.map fun transform =>
        { transform with
          asked := transform.asked + 1
          merged := transform.merged + encoder.need_input_.toNat } }
  | .have_output => encoder

def drain_events (events : List MediaEvent) : VideoEncoder :=
  if encoder.async_ then events.foldl read_event encoder else encoder

/-- A transform without `ICodecAPI` is not told. -/
def apply_keyframe : VideoEncoder :=
  if encoder.force_keyframe_ then
    { encoder with
      force_keyframe_ := false
      transform_ := encoder.transform_.map fun transform =>
        { transform with force := transform.force || transform.codec } }
  else encoder

def prepare (frame : VideoFrame) (device : ℕ) (answers : CreateAnswers) : VideoEncoder × Bool :=
  if encoder.reconfigures frame then
    encoder.configure prefer_hardware_ device (frame.width &&& ~~~1) (frame.height &&& ~~~1) answers
  else (encoder, true)

/-- `convert_bgra_to_nv12` on the frame's texture, which is of the device `source`. -/
def convert (frame : VideoFrame) (source device : ℕ) (answers : EncodeAnswers) :
    VideoEncoder × Option Nv12 :=
  let converter := encoder.converter_.ensure device frame.width frame.height answers.processor
  ({ encoder with converter_ := converter },
    if answers.converts then
      converter.processor_.map fun processor =>
        ⟨converter.width_, converter.height_, source, processor⟩
    else none)

/-- `encode` up to the wait for input; without a picture it has thrown. -/
def begin_encode (frame : VideoFrame) (source device : ℕ) (answers : EncodeAnswers) :
    VideoEncoder × Option Nv12 :=
  let ready := encoder.prepare prefer_hardware_ frame device answers.create
  if ready.2 then
    let converted := ready.1.convert frame source device answers
    match converted.2 with
    | some nv12 =>
      let encoder := converted.1.apply_keyframe.drain_events answers.events
      if encoder.async_ || answers.drains then (encoder, some nv12) else (encoder.caught, none)
    | none => (converted.1.caught, none)
  else (ready.1.caught, none)

def take (nv12 : Nv12) (requested : Bool) : VideoEncoder :=
  { encoder with
    need_input_ := false
    transform_ := encoder.transform_.map fun transform =>
      { transform with
        force := false
        pictures := transform.pictures ++
          [{ nv12 with
            first := transform.pictures.isEmpty
            requested
            forced := transform.force }] } }

end VideoEncoder

inductive CallProgress where
  | running
  | returned
  | threw
  deriving DecidableEq

/-- `nv12` is the picture of the call under way; `requested` says that a keyframe has been requested
since the last picture. -/
structure EncoderThread where
  encoder : VideoEncoder := {}
  nv12 : Option Nv12 := none
  requested : Bool := false
  deriving DecidableEq

namespace EncoderThread
variable (prefer_hardware_ : Bool) (s : EncoderThread)

/-- The steps of the thread. `source` is the device of the frame's texture, `device` the one at
hand. An event of the wait is `none` where `GetEvent` fails, `drains` false where `stop` throws. -/
inductive Event where
  | request_keyframe
  | encode (frame : VideoFrame) (source device : ℕ) (answers : EncodeAnswers)
  | get_event (event : Option MediaEvent)
  | process_input (answers : InputAnswers)
  | stop (events : List MediaEvent) (drains : Bool)
  deriving DecidableEq

def Waiting : Prop :=
  s.nv12.isSome ∧ s.encoder.async_ = true ∧ s.encoder.need_input_ = false

instance : Decidable s.Waiting := inferInstanceAs (Decidable (_ ∧ _ ∧ _))

def throws (encoder : VideoEncoder) : EncoderThread × CallProgress :=
  ({ s with encoder := encoder.caught, nv12 := none }, .threw)

/-- The rest of the call behind an accepted picture. -/
def accepted (encoder : VideoEncoder) (nv12 : Nv12) (answers : InputAnswers) :
    EncoderThread × CallProgress :=
  let done := { s with requested := false }
  let encoder := (encoder.take nv12 s.requested).drain_events answers.events
  if encoder.async_ || answers.drains then ({ done with encoder, nv12 := none }, .returned)
  else done.throws encoder

def act : Event → Option (EncoderThread × CallProgress)
  | .request_keyframe =>
    if s.nv12.isSome then none
    else
      some ({ s with
        encoder := { s.encoder with force_keyframe_ := true }, requested := true }, .returned)
  | .encode frame source device answers =>
    if s.nv12.isSome then none
    else
      let begun := s.encoder.begin_encode prefer_hardware_ frame source device answers
      some ({ s with encoder := begun.1, nv12 := begun.2 },
        if begun.2.isSome then .running else .threw)
  | .get_event event =>
    if s.Waiting then
      match event with
      | some event => some ({ s with encoder := s.encoder.read_event event }, .running)
      | none => some (s.throws s.encoder)
    else none
  | .process_input answers =>
    match s.nv12 with
    | some nv12 =>
      if s.Waiting then none
      else
        match answers.first with
        | .accepted => some (s.accepted s.encoder nv12 answers)
        | .failed => some (s.throws s.encoder)
        | .not_accepting =>
          let encoder := s.encoder.drain_events answers.between
          if (encoder.async_ || answers.between_drains) && answers.second = .accepted then
            some (s.accepted encoder nv12 answers)
          else some (s.throws encoder)
    | none => none
  | .stop events drains =>
    if s.nv12.isSome then none
    else if s.encoder.transform_.isSome then
      let encoder := s.encoder.drain_events events
      if encoder.async_ || drains then
        some ({ s with encoder := encoder.teardown }, .returned)
      else some ({ s with encoder }, .threw)
    else some (s, .returned)

def machine : Machine EncoderThread Event where
  init := {}
  step s e := (s.act prefer_hardware_ e).map Prod.fst

end EncoderThread

/-- A transform takes pictures of its size only, a keyframe that was requested comes with the next
one, and an asynchronous one has asked for each. One in hardware was made before any failed. -/
structure Transform.Sound (transform : Transform) : Prop where
  fits : ∀ picture ∈ transform.pictures, transform.size = some (picture.width, picture.height)
  keyframe : ∀ picture ∈ transform.pictures, picture.requested = true →
    picture.forced = true ∨ picture.first = true ∨ transform.codec = false
  asked : transform.async = true →
    transform.pictures.length + transform.merged ≤ transform.asked
  fallback : transform.hardware = true → transform.failures = 0

namespace VideoEncoder

/-- The members are about the transform at hand, and the flag stands for what it has asked and not
been given, but for what was merged. -/
structure Uses (encoder : VideoEncoder) (transform : Transform) : Prop where
  sound : transform.Sound
  async : transform.async = encoder.async_
  hardware : transform.hardware = encoder.hardware_
  asked : transform.async = true →
    transform.pictures.length + transform.merged + encoder.need_input_.toNat = transform.asked

structure Sound (encoder : VideoEncoder) : Prop where
  torn_down : ∀ transform ∈ encoder.torn_down, transform.Sound
  current : ∀ transform ∈ encoder.transform_, encoder.Uses transform
  configured : encoder.configured_ = true →
    ∃ transform ∈ encoder.transform_, transform.size = some (encoder.width, encoder.height)
  converter : encoder.converter_.processor_.isSome →
    encoder.converter_.width_ &&& ~~~1 = encoder.converter_.width_ ∧
      encoder.converter_.height_ &&& ~~~1 = encoder.converter_.height_
  hardware : encoder.hardware_ = true → encoder.force_software_ = false
  failures : encoder.failures ≤ encoder.force_software_.toNat

/-- A keyframe that was requested will come with the next picture. -/
def Keyed (encoder : VideoEncoder) (requested : Bool) : Prop :=
  requested = true → encoder.force_keyframe_ = true ∨ ∀ transform ∈ encoder.transform_,
    transform.force = true ∨ transform.pictures = [] ∨ transform.codec = false

variable {encoder : VideoEncoder}

theorem Sound.transforms (h : encoder.Sound) :
    ∀ transform ∈ encoder.transforms, transform.Sound := by
  intro transform hmem
  rcases List.mem_append.mp hmem with hmem | hmem
  · exact h.torn_down transform hmem
  · exact (h.current transform (Option.mem_toList.mp hmem)).sound

theorem sound_init : ({} : VideoEncoder).Sound where
  torn_down := by simp
  current := by simp
  configured := by simp
  converter := by simp
  hardware := by simp
  failures := le_refl 0

theorem sound_teardown (h : encoder.Sound) : encoder.teardown.Sound where
  torn_down := h.transforms
  current := by simp [teardown]
  configured := by simp [teardown, MediaFoundationEncoder.teardown]
  converter := by simp [teardown]
  hardware := by simp [teardown]
  failures := h.failures

theorem sound_caught (h : encoder.Sound) : encoder.caught.Sound := by
  unfold caught
  split_ifs with hhardware
  · have hfailures := h.failures
    rw [h.hardware hhardware] at hfailures
    refine ⟨h.transforms, by simp [teardown], by simp [teardown, MediaFoundationEncoder.teardown],
      by simp [teardown], by simp [teardown], ?_⟩
    change encoder.failures + 1 ≤ 1
    exact Nat.succ_le_succ hfailures
  · exact h

/-- A transform that has asked for nothing yet. -/
theorem Uses.of_new {transform : Transform} (hpictures : transform.pictures = [])
    (hasked : transform.asked = 0) (hmerged : transform.merged = 0)
    (hasync : transform.async = encoder.async_) (hhardware : transform.hardware = encoder.hardware_)
    (hneed : transform.async = true → encoder.need_input_ = false)
    (hfallback : transform.hardware = true → transform.failures = 0) : encoder.Uses transform where
  sound := ⟨by simp [hpictures], by simp [hpictures], by simp [hpictures, hmerged], hfallback⟩
  async := hasync
  hardware := hhardware
  asked h := by simp [hpictures, hmerged, hasked, hneed h]

/-- What an encoder may be that has been torn down and made anew. -/
theorem Sound.of_torn_down {made : VideoEncoder} (h : encoder.Sound)
    (htorn : made.torn_down = encoder.transforms)
    (hcurrent : ∀ transform ∈ made.transform_, made.Uses transform)
    (hconfigured : made.configured_ = true →
      ∃ transform ∈ made.transform_, transform.size = some (made.width, made.height))
    (hconverter : made.converter_ = {}) (hhardware : made.hardware_ = true →
      encoder.force_software_ = false) (hsoftware : made.force_software_ = encoder.force_software_)
    (hfailures : made.failures = encoder.failures) : made.Sound where
  torn_down := htorn ▸ h.transforms
  current := hcurrent
  configured := hconfigured
  converter := by simp [hconverter]
  hardware := hsoftware ▸ hhardware
  failures := by rw [hfailures, hsoftware]; exact h.failures

theorem create_transform_cases (encoder : VideoEncoder) (prefer_hardware_ : Bool) (device : ℕ)
    (answers : CreateAnswers) :
    ∃ hardware, hardware = (prefer_hardware_ && !encoder.force_software_ && answers.in_hardware) ∧
      (encoder.create_transform prefer_hardware_ device answers =
          ({ encoder with
            hardware_ := hardware
            transform_ := some
              { hardware, async := answers.async, codec := answers.codec, device,
                failures := encoder.failures }
            async_ := answers.async }, true) ∨
        encoder.create_transform prefer_hardware_ device answers =
          ({ encoder with hardware_ := hardware }, false)) := by
  refine ⟨_, rfl, ?_⟩
  unfold create_transform
  dsimp only
  split_ifs
  · exact .inl rfl
  · exact .inr rfl

theorem sound_configure (h : encoder.Sound) (prefer_hardware_ : Bool) (device : ℕ)
    (width height : UInt32) (answers : CreateAnswers) :
    (encoder.configure prefer_hardware_ device width height answers).1.Sound := by
  obtain ⟨hardware, hhardware, hcreated⟩ :=
    create_transform_cases encoder.teardown prefer_hardware_ device answers
  have hsoftware (h : hardware = true) : encoder.force_software_ = false := by
    rw [hhardware, Bool.and_eq_true, Bool.and_eq_true, Bool.not_eq_true'] at h
    exact h.1.2
  have hfallback (hmade : hardware = true) : encoder.failures = 0 := by
    have hfailures := h.failures
    rw [hsoftware hmade] at hfailures
    exact Nat.le_zero.mp hfailures
  unfold configure
  rcases hcreated with hcreated | hcreated
  · rw [hcreated]
    dsimp only
    split_ifs
    · refine h.of_torn_down rfl ?_ (fun _ => ⟨_, rfl, rfl⟩) rfl hsoftware rfl rfl
      rintro transform ⟨⟩
      exact .of_new rfl rfl rfl rfl rfl (fun hasync => by simpa using hasync) hfallback
    · refine h.of_torn_down rfl ?_ (fun hconfigured => by cases hconfigured) rfl hsoftware rfl rfl
      rintro transform ⟨⟩
      exact .of_new rfl rfl rfl rfl rfl (fun _ => rfl) hfallback
    · refine h.of_torn_down rfl ?_ (fun hconfigured => by cases hconfigured) rfl hsoftware rfl rfl
      rintro transform ⟨⟩
      exact .of_new rfl rfl rfl rfl rfl (fun _ => rfl) hfallback
  · rw [hcreated]
    exact h.of_torn_down rfl (by simp [teardown]) (fun hconfigured => by cases hconfigured) rfl
      hsoftware rfl rfl

theorem configured_of_configure {prefer_hardware_ : Bool} {device : ℕ} {width height : UInt32}
    {answers : CreateAnswers}
    (h : (encoder.configure prefer_hardware_ device width height answers).2 = true) :
    (encoder.configure prefer_hardware_ device width height answers).1.toMediaFoundationEncoder =
      ⟨true, width, height⟩ := by
  unfold configure at h ⊢
  dsimp only at h ⊢
  split_ifs at h ⊢ with hcreated hstarts
  rfl

theorem keyed_configure (prefer_hardware_ : Bool) (device : ℕ) (width height : UInt32)
    (answers : CreateAnswers) (requested : Bool) :
    (encoder.configure prefer_hardware_ device width height answers).1.Keyed requested := by
  obtain ⟨hardware, -, hcreated⟩ :=
    create_transform_cases encoder.teardown prefer_hardware_ device answers
  intro _
  refine .inr ?_
  unfold configure
  rcases hcreated with hcreated | hcreated
  · rw [hcreated]
    dsimp only
    split_ifs <;> simp
  · rw [hcreated]
    simp [teardown]

/-! ## The steps of a call -/

/-- The transform at hand is for pictures of this size. -/
def Sized (encoder : VideoEncoder) (width height : UInt32) : Prop :=
  ∃ transform ∈ encoder.transform_, transform.size = some (width, height)

theorem sound_read_event (h : encoder.Sound) (event : MediaEvent) :
    (encoder.read_event event).Sound := by
  cases event with
  | have_output => exact h
  | need_input =>
    refine ⟨h.torn_down, ?_, ?_, h.converter, h.hardware, h.failures⟩
    · intro read hread
      obtain ⟨transform, htransform, rfl⟩ := Option.mem_map.mp hread
      have huses := h.current transform htransform
      have hasked (hasync : transform.async = true) :
          transform.pictures.length + (transform.merged + encoder.need_input_.toNat) =
            transform.asked := by
        rw [← huses.asked hasync, add_assoc]
      refine ⟨⟨huses.sound.fits, huses.sound.keyframe, fun hasync => ?_, huses.sound.fallback⟩,
        huses.async, huses.hardware, fun hasync => ?_⟩
      · exact (hasked hasync).le.trans (Nat.le_succ _)
      · exact congrArg (· + 1) (hasked hasync)
    · intro hconfigured
      obtain ⟨transform, htransform, hsize⟩ := h.configured hconfigured
      exact ⟨_, Option.mem_map_of_mem _ htransform, hsize⟩

theorem keyed_read_event {requested : Bool} (h : encoder.Keyed requested) (event : MediaEvent) :
    (encoder.read_event event).Keyed requested := by
  cases event with
  | have_output => exact h
  | need_input =>
    intro hrequested
    refine (h hrequested).imp_right fun hall read hread => ?_
    obtain ⟨transform, htransform, rfl⟩ := Option.mem_map.mp hread
    exact hall transform htransform

theorem sized_read_event {width height : UInt32} (h : encoder.Sized width height)
    (event : MediaEvent) : (encoder.read_event event).Sized width height := by
  cases event with
  | have_output => exact h
  | need_input =>
    obtain ⟨transform, htransform, hsize⟩ := h
    exact ⟨_, Option.mem_map_of_mem _ htransform, hsize⟩

/-- What every event keeps is kept when the events are drained. -/
theorem drain_events_induction {P : VideoEncoder → Prop} (events : List MediaEvent)
    (hread : ∀ encoder event, P encoder → P (encoder.read_event event)) (h : P encoder) :
    P (encoder.drain_events events) := by
  have hfold (encoder : VideoEncoder) (h : P encoder) : P (events.foldl read_event encoder) := by
    induction events generalizing encoder with
    | nil => exact h
    | cons event events ih => exact ih (encoder.read_event event) (hread encoder event h)
  unfold drain_events
  split_ifs
  · exact hfold encoder h
  · exact h

theorem sound_drain_events (h : encoder.Sound) (events : List MediaEvent) :
    (encoder.drain_events events).Sound :=
  drain_events_induction events (fun _ event h => sound_read_event h event) h

theorem keyed_drain_events {requested : Bool} (h : encoder.Keyed requested)
    (events : List MediaEvent) : (encoder.drain_events events).Keyed requested :=
  drain_events_induction (P := fun read => read.Keyed requested) events
    (fun _ event h => keyed_read_event h event) h

theorem sized_drain_events {width height : UInt32} (h : encoder.Sized width height)
    (events : List MediaEvent) : (encoder.drain_events events).Sized width height :=
  drain_events_induction (P := fun read => read.Sized width height) events
    (fun _ event h => sized_read_event h event) h

theorem drain_events_nil (encoder : VideoEncoder) : encoder.drain_events [] = encoder := by
  unfold drain_events
  split_ifs <;> rfl

theorem async_drain_events (events : List MediaEvent) :
    (encoder.drain_events events).async_ = encoder.async_ :=
  drain_events_induction (P := fun read => read.async_ = encoder.async_) events
    (fun _ event h => by cases event <;> exact h) rfl

theorem need_drain_events (events : List MediaEvent) (h : encoder.need_input_ = true) :
    (encoder.drain_events events).need_input_ = true :=
  drain_events_induction events (P := fun read => read.need_input_ = true)
    (fun _ event h => by cases event with | need_input => rfl | have_output => exact h) h

theorem force_keyframe_drain_events (events : List MediaEvent) :
    (encoder.drain_events events).force_keyframe_ = encoder.force_keyframe_ :=
  drain_events_induction (P := fun read => read.force_keyframe_ = encoder.force_keyframe_) events
    (fun _ event h => by cases event <;> exact h) rfl

theorem sound_apply_keyframe (h : encoder.Sound) : encoder.apply_keyframe.Sound := by
  unfold apply_keyframe
  split_ifs
  · refine ⟨h.torn_down, ?_, ?_, h.converter, h.hardware, h.failures⟩
    · intro told htold
      obtain ⟨transform, htransform, rfl⟩ := Option.mem_map.mp htold
      have huses := h.current transform htransform
      exact ⟨⟨huses.sound.fits, huses.sound.keyframe, huses.sound.asked, huses.sound.fallback⟩,
        huses.async, huses.hardware, huses.asked⟩
    · intro hconfigured
      obtain ⟨transform, htransform, hsize⟩ := h.configured hconfigured
      exact ⟨_, Option.mem_map_of_mem _ htransform, hsize⟩
  · exact h

theorem keyed_apply_keyframe {requested : Bool} (h : encoder.Keyed requested) :
    encoder.apply_keyframe.Keyed requested ∧ encoder.apply_keyframe.force_keyframe_ = false := by
  unfold apply_keyframe
  split_ifs with hforce
  · refine ⟨fun _ => .inr ?_, rfl⟩
    intro told htold
    obtain ⟨transform, -, rfl⟩ := Option.mem_map.mp htold
    cases hcodec : transform.codec with
    | true => exact .inl (Bool.or_true _)
    | false => exact .inr (.inr rfl)
  · exact ⟨h, by simpa using hforce⟩

theorem sized_apply_keyframe {width height : UInt32} (h : encoder.Sized width height) :
    encoder.apply_keyframe.Sized width height := by
  unfold apply_keyframe
  split_ifs
  · obtain ⟨transform, htransform, hsize⟩ := h
    exact ⟨_, Option.mem_map_of_mem _ htransform, hsize⟩
  · exact h

/-- The picture is of the size, was asked for, and comes as a keyframe if one was requested. -/
theorem sound_take (h : encoder.Sound) {nv12 : Nv12} {requested : Bool}
    (hsized : encoder.Sized nv12.width nv12.height)
    (hneed : encoder.async_ = true → encoder.need_input_ = true)
    (hforce : encoder.force_keyframe_ = false) (hkeyed : encoder.Keyed requested) :
    (encoder.take nv12 requested).Sound := by
  refine ⟨h.torn_down, ?_, ?_, h.converter, h.hardware, h.failures⟩
  · intro fed hfed
    obtain ⟨transform, htransform, rfl⟩ := Option.mem_map.mp hfed
    have huses := h.current transform htransform
    have hsize : transform.size = some (nv12.width, nv12.height) := by
      obtain ⟨found, hfound, hsize⟩ := hsized
      rwa [Option.mem_unique htransform hfound]
    have hasked (hasync : transform.async = true) :
        transform.pictures.length + 1 + transform.merged = transform.asked := by
      have hall := huses.asked hasync
      rw [hneed (huses.async ▸ hasync)] at hall
      rw [← hall, Bool.toNat_true, add_right_comm]
    refine ⟨⟨?_, ?_, ?_, huses.sound.fallback⟩, huses.async, huses.hardware, ?_⟩
    · intro picture hpicture
      rcases List.mem_append.mp hpicture with hpicture | hpicture
      · exact huses.sound.fits picture hpicture
      · rw [List.mem_singleton.mp hpicture]
        exact hsize
    · intro picture hpicture
      rcases List.mem_append.mp hpicture with hpicture | hpicture
      · exact huses.sound.keyframe picture hpicture
      · rw [List.mem_singleton.mp hpicture]
        intro hrequested
        rcases hkeyed hrequested with hforced | hall
        · rw [hforce] at hforced
          cases hforced
        · rcases hall transform htransform with hforced | hempty | hcodec
          · exact .inl hforced
          · exact .inr (.inl (List.isEmpty_iff.mpr hempty))
          · exact .inr (.inr hcodec)
    · intro hasync
      simp only [List.length_append, List.length_singleton]
      exact (hasked hasync).le
    · intro hasync
      simp only [List.length_append, List.length_singleton]
      exact hasked hasync
  · intro hconfigured
    obtain ⟨transform, htransform, hsize⟩ := h.configured hconfigured
    exact ⟨_, Option.mem_map_of_mem _ htransform, hsize⟩

theorem keyed_false (encoder : VideoEncoder) : encoder.Keyed false := fun h => by cases h

theorem keyed_teardown (requested : Bool) : encoder.teardown.Keyed requested :=
  fun _ => .inr (by simp [teardown])

theorem keyed_caught {requested : Bool} (h : encoder.Keyed requested) :
    encoder.caught.Keyed requested := by
  unfold caught
  split_ifs
  · exact keyed_teardown requested
  · exact h

end VideoEncoder

theorem VideoProcessor.ensure_size {converter : VideoProcessor}
    (h : converter.processor_.isSome → converter.width_ &&& ~~~1 = converter.width_ ∧
      converter.height_ &&& ~~~1 = converter.height_)
    (device : ℕ) (width height : UInt32) (creates : Bool) :
    (converter.ensure device width height creates).width_ = width &&& ~~~1 ∧
      (converter.ensure device width height creates).height_ = height &&& ~~~1 := by
  by_cases hsame : converter.processor_.isSome ∧ width = converter.width_ ∧
      height = converter.height_
  · obtain ⟨hprocessor, rfl, rfl⟩ := hsame
    rw [ensure, if_pos ⟨hprocessor, rfl, rfl⟩]
    exact ⟨(h hprocessor).1.symm, (h hprocessor).2.symm⟩
  · rw [ensure, if_neg hsame]
    exact ⟨rfl, rfl⟩

theorem and_not_one_idem (n : UInt32) : n &&& ~~~1 &&& ~~~1 = n &&& ~~~1 := by
  rw [UInt32.and_assoc, UInt32.and_self]

namespace VideoEncoder
variable {encoder : VideoEncoder} (prefer_hardware_ : Bool)

/-- An encoder that is ready for the frame is configured for its size. -/
theorem prepare_spec (h : encoder.Sound) {requested : Bool} (hkeyed : encoder.Keyed requested)
    (frame : VideoFrame) (device : ℕ) (answers : CreateAnswers) :
    (encoder.prepare prefer_hardware_ frame device answers).1.Sound ∧
      (encoder.prepare prefer_hardware_ frame device answers).1.Keyed requested ∧
      ((encoder.prepare prefer_hardware_ frame device answers).2 = true →
        (encoder.prepare prefer_hardware_ frame device answers).1.Sized
          (frame.width &&& ~~~1) (frame.height &&& ~~~1)) := by
  by_cases hreconfigures : encoder.reconfigures frame = true
  · rw [prepare, if_pos hreconfigures]
    have hsound := sound_configure h prefer_hardware_ device (frame.width &&& ~~~1)
      (frame.height &&& ~~~1) answers
    refine ⟨hsound, keyed_configure _ _ _ _ _ _, fun hready => ?_⟩
    have hmembers := configured_of_configure hready
    have hsized := hsound.configured (congrArg MediaFoundationEncoder.configured_ hmembers)
    rw [hmembers] at hsized
    exact hsized
  · rw [prepare, if_neg hreconfigures]
    refine ⟨h, hkeyed, fun _ => ?_⟩
    simp only [MediaFoundationEncoder.reconfigures, decide_eq_true_eq, not_or, not_not]
      at hreconfigures
    obtain ⟨hconfigured, hwidth, hheight⟩ := hreconfigures
    rw [hwidth, hheight]
    exact h.configured hconfigured

theorem sound_convert (h : encoder.Sound) (frame : VideoFrame) (source device : ℕ)
    (answers : EncodeAnswers) : (encoder.convert frame source device answers).1.Sound := by
  have hsize := VideoProcessor.ensure_size h.converter device frame.width frame.height
    answers.processor
  refine ⟨h.torn_down, fun transform htransform => ?_, h.configured, fun _ => ?_, h.hardware,
    h.failures⟩
  · have huses := h.current transform htransform
    exact ⟨huses.sound, huses.async, huses.hardware, huses.asked⟩
  · change (encoder.converter_.ensure _ _ _ _).width_ &&& ~~~1 =
      (encoder.converter_.ensure _ _ _ _).width_ ∧ _
    rw [hsize.1]
    refine ⟨and_not_one_idem _, ?_⟩
    change (encoder.converter_.ensure _ _ _ _).height_ &&& ~~~1 =
      (encoder.converter_.ensure _ _ _ _).height_
    rw [hsize.2, and_not_one_idem]

theorem size_convert (h : encoder.Sound) {frame : VideoFrame} {source device : ℕ}
    {answers : EncodeAnswers} {nv12 : Nv12}
    (hnv12 : (encoder.convert frame source device answers).2 = some nv12) :
    nv12.width = frame.width &&& ~~~1 ∧ nv12.height = frame.height &&& ~~~1 := by
  have hsize := VideoProcessor.ensure_size h.converter device frame.width frame.height
    answers.processor
  simp only [convert, Option.ite_none_right_eq_some, Option.map_eq_some_iff] at hnv12
  obtain ⟨-, processor, -, rfl⟩ := hnv12
  exact hsize

/-- A call that comes to the wait has a picture of the transform's size and has passed on every
request for a keyframe. -/
theorem begin_encode_spec (h : encoder.Sound) {requested : Bool} (hkeyed : encoder.Keyed requested)
    (frame : VideoFrame) (source device : ℕ) (answers : EncodeAnswers) :
    let begun := encoder.begin_encode prefer_hardware_ frame source device answers
    begun.1.Sound ∧ begun.1.Keyed requested ∧ ∀ nv12 ∈ begun.2,
      begun.1.Sized nv12.width nv12.height ∧ begun.1.force_keyframe_ = false := by
  obtain ⟨hready, hkeyed, hsized⟩ :=
    prepare_spec prefer_hardware_ h hkeyed frame device answers.create
  unfold begin_encode
  dsimp only
  by_cases hreturned : (encoder.prepare prefer_hardware_ frame device answers.create).2 = true
  · rw [if_pos hreturned]
    have hconverted := sound_convert hready frame source device answers
    cases hnv12 : ((encoder.prepare prefer_hardware_ frame device answers.create).1.convert frame
        source device answers).2 with
    | none => exact ⟨sound_caught hconverted, keyed_caught hkeyed, by simp⟩
    | some nv12 =>
      obtain ⟨hwidth, hheight⟩ := size_convert hready hnv12
      have hsized : ((encoder.prepare prefer_hardware_ frame device answers.create).1.convert frame
          source device answers).1.Sized (frame.width &&& ~~~1) (frame.height &&& ~~~1) :=
        hsized hreturned
      have hkept : ((encoder.prepare prefer_hardware_ frame device answers.create).1.convert frame
          source device answers).1.Keyed requested := hkeyed
      have htold := keyed_apply_keyframe hkept
      have hsound := sound_drain_events (sound_apply_keyframe hconverted) answers.events
      have hdrained := keyed_drain_events htold.1 answers.events
      dsimp only
      split_ifs
      · refine ⟨hsound, hdrained, ?_⟩
        rintro _ ⟨⟩
        rw [hwidth, hheight, force_keyframe_drain_events]
        exact ⟨sized_drain_events (sized_apply_keyframe hsized) answers.events, htold.2⟩
      · exact ⟨sound_caught hsound, keyed_caught hdrained, by simp⟩
  · rw [if_neg hreturned]
    exact ⟨sound_caught hready, keyed_caught hkeyed, by simp⟩

end VideoEncoder

namespace EncoderThread
open VideoEncoder
variable {prefer_hardware_ : Bool} {s t : EncoderThread}

structure Inv (s : EncoderThread) : Prop where
  encoder : s.encoder.Sound
  picture : ∀ nv12 ∈ s.nv12, s.encoder.Sized nv12.width nv12.height ∧
    s.encoder.force_keyframe_ = false
  keyed : s.encoder.Keyed s.requested

theorem inv_init : Inv {} where
  encoder := sound_init
  picture := by simp
  keyed := keyed_false _

theorem inv_throws {encoder : VideoEncoder} (h : encoder.Sound)
    (hkeyed : encoder.Keyed s.requested) : (s.throws encoder).1.Inv where
  encoder := sound_caught h
  picture := by simp [throws]
  keyed := keyed_caught hkeyed

/-- A picture is accepted that was asked for. -/
theorem inv_accepted {encoder : VideoEncoder} (h : encoder.Sound) {nv12 : Nv12}
    (hpicture : encoder.Sized nv12.width nv12.height ∧ encoder.force_keyframe_ = false)
    (hkeyed : encoder.Keyed s.requested)
    (hneed : encoder.async_ = true → encoder.need_input_ = true) (answers : InputAnswers) :
    (s.accepted encoder nv12 answers).1.Inv := by
  have htaken := sound_take h hpicture.1 hneed hpicture.2 hkeyed
  have hsound := sound_drain_events htaken answers.events
  unfold accepted
  dsimp only
  split_ifs
  · exact ⟨hsound, by simp, keyed_false _⟩
  · exact inv_throws hsound (keyed_false _)

/-- The picture of the call is taken, or an exception ends the call. -/
theorem process_input_cases {answers : InputAnswers} {progress : CallProgress}
    (hact : s.act prefer_hardware_ (.process_input answers) = some (t, progress)) :
    ∃ nv12 events, s.nv12 = some nv12 ∧ ¬ s.Waiting ∧
      ((t, progress) = s.accepted (s.encoder.drain_events events) nv12 answers ∨
        (t, progress) = s.throws (s.encoder.drain_events events)) := by
  cases hnv12 : s.nv12 with
  | none => simp [act, hnv12] at hact
  | some nv12 =>
    simp only [act, hnv12, Option.ite_none_left_eq_some] at hact
    obtain ⟨hready, hact⟩ := hact
    cases hfirst : answers.first with
    | accepted =>
      rw [hfirst, ← drain_events_nil s.encoder] at hact
      exact ⟨nv12, [], rfl, hready, .inl (Option.some_inj.mp hact).symm⟩
    | failed =>
      rw [hfirst, ← drain_events_nil s.encoder] at hact
      exact ⟨nv12, [], rfl, hready, .inr (Option.some_inj.mp hact).symm⟩
    | not_accepting =>
      rw [hfirst] at hact
      dsimp only at hact
      split_ifs at hact
      · exact ⟨nv12, answers.between, rfl, hready, .inl (Option.some_inj.mp hact).symm⟩
      · exact ⟨nv12, answers.between, rfl, hready, .inr (Option.some_inj.mp hact).symm⟩

theorem stop_cases {events : List MediaEvent} {drains : Bool} {progress : CallProgress}
    (hact : s.act prefer_hardware_ (.stop events drains) = some (t, progress)) :
    s.nv12 = none ∧
      ((t, progress) =
          ({ s with encoder := (s.encoder.drain_events events).teardown }, .returned) ∨
        (t, progress) = ({ s with encoder := s.encoder.drain_events events }, .threw) ∨
        s.encoder.transform_ = none ∧ (t, progress) = (s, .returned)) := by
  simp only [act, Option.ite_none_left_eq_some] at hact
  obtain ⟨hidle, hact⟩ := hact
  refine ⟨by simpa using hidle, ?_⟩
  split_ifs at hact with htransform
  · exact .inl (Option.some_inj.mp hact).symm
  · exact .inr (.inl (Option.some_inj.mp hact).symm)
  · exact .inr (.inr ⟨by simpa using htransform, (Option.some_inj.mp hact).symm⟩)

theorem inv_act {e : Event} {progress : CallProgress} (h : s.Inv)
    (hact : s.act prefer_hardware_ e = some (t, progress)) : t.Inv := by
  cases e with
  | request_keyframe =>
    simp only [act, Option.ite_none_left_eq_some, Option.some_inj, Prod.mk.injEq] at hact
    obtain ⟨hidle, rfl, -⟩ := hact
    have hnone : s.nv12 = none := by simpa using hidle
    exact ⟨⟨h.encoder.torn_down, fun t ht => ⟨(h.encoder.current t ht).sound,
      (h.encoder.current t ht).async, (h.encoder.current t ht).hardware,
      (h.encoder.current t ht).asked⟩, h.encoder.configured, h.encoder.converter,
      h.encoder.hardware, h.encoder.failures⟩, by simp [hnone], fun _ => .inl rfl⟩
  | encode frame source device answers =>
    simp only [act, Option.ite_none_left_eq_some, Option.some_inj, Prod.mk.injEq] at hact
    obtain ⟨-, rfl, -⟩ := hact
    obtain ⟨hsound, hkeyed, hpicture⟩ :=
      begin_encode_spec prefer_hardware_ h.encoder h.keyed frame source device answers
    exact ⟨hsound, hpicture, hkeyed⟩
  | get_event event =>
    simp only [act, Option.ite_none_right_eq_some] at hact
    cases event with
    | none =>
      obtain ⟨-, hact⟩ := hact
      cases hact
      exact inv_throws h.encoder h.keyed
    | some event =>
      obtain ⟨-, hact⟩ := hact
      cases hact
      refine ⟨sound_read_event h.encoder event, fun nv12 hnv12 => ?_,
        keyed_read_event h.keyed event⟩
      obtain ⟨hsized, hforce⟩ := h.picture nv12 hnv12
      refine ⟨sized_read_event hsized event, ?_⟩
      cases event <;> exact hforce
  | process_input answers =>
    obtain ⟨nv12, events, hnv12, hready, hnext⟩ := process_input_cases hact
    obtain ⟨hsized, hforce⟩ := h.picture nv12 hnv12
    have hsound := sound_drain_events h.encoder events
    have hkeyed := keyed_drain_events h.keyed events
    rcases hnext with hnext | hnext
    · obtain rfl : t = (s.accepted (s.encoder.drain_events events) nv12 answers).1 :=
        congrArg Prod.fst hnext
      refine inv_accepted hsound ⟨sized_drain_events hsized events, ?_⟩ hkeyed
        (fun hasync => need_drain_events events ?_) answers
      · rw [force_keyframe_drain_events]
        exact hforce
      · rw [async_drain_events] at hasync
        by_contra hneed
        exact hready ⟨by simp [hnv12], hasync, by simpa using hneed⟩
    · cases hnext
      exact inv_throws hsound hkeyed
  | stop events drains =>
    have hsound := sound_drain_events h.encoder events
    have hkeyed := keyed_drain_events h.keyed events
    obtain ⟨hnone, hnext | hnext | ⟨-, hnext⟩⟩ := stop_cases hact
    · cases hnext
      exact ⟨sound_teardown hsound, by simp [hnone], keyed_teardown _⟩
    · cases hnext
      exact ⟨hsound, by simp [hnone], hkeyed⟩
    · cases hnext
      exact h

theorem inv_run {es : List Event} (hrun : (machine prefer_hardware_).run es = some s) : s.Inv := by
  refine Machine.invariant (fun s e t h hstep => ?_) hrun inv_init
  obtain ⟨⟨next, progress⟩, hact, rfl⟩ := Option.map_eq_some_iff.mp hstep
  exact inv_act h hact

/-! ## Whole runs -/

/-- Every picture is of its transform's size, an asynchronous transform has asked for each of them,
and a call waits only where all that was asked is given or was merged with another request. -/
structure Served (s : EncoderThread) : Prop where
  fits : ∀ transform ∈ s.encoder.transforms, ∀ picture ∈ transform.pictures,
    transform.size = some (picture.width, picture.height)
  asked : ∀ transform ∈ s.encoder.transforms, transform.async = true →
    transform.pictures.length + transform.merged ≤ transform.asked
  waits : s.Waiting → ∃ transform ∈ s.encoder.transform_,
    transform.pictures.length + transform.merged = transform.asked

theorem fed_as_asked {es : List Event} (hrun : (machine prefer_hardware_).run es = some s) :
    s.Served := by
  have h := inv_run hrun
  refine ⟨fun transform hmem => (h.encoder.transforms transform hmem).fits,
    fun transform hmem => (h.encoder.transforms transform hmem).asked, ?_⟩
  rintro ⟨hcall, hasync, hneed⟩
  obtain ⟨nv12, hnv12⟩ := Option.isSome_iff_exists.mp hcall
  obtain ⟨⟨transform, htransform, -⟩, -⟩ := h.picture nv12 hnv12
  have huses := h.encoder.current transform htransform
  have hall := huses.asked (huses.async.trans hasync)
  rw [hneed] at hall
  exact ⟨transform, htransform, hall⟩

/-- A keyframe that is requested comes with the next picture any transform takes, whatever fails
in between, unless the transform does not listen. -/
theorem keyframe_comes {es : List Event} (hrun : (machine prefer_hardware_).run es = some s) :
    ∀ transform ∈ s.encoder.transforms, ∀ picture ∈ transform.pictures,
      picture.requested = true →
        picture.forced = true ∨ picture.first = true ∨ transform.codec = false :=
  fun transform hmem => ((inv_run hrun).encoder.transforms transform hmem).keyframe

/-- Encoders in hardware fail at most once, and none is made or at hand after that. -/
theorem hardware_fails_once {es : List Event} (hrun : (machine prefer_hardware_).run es = some s) :
    s.encoder.failures ≤ 1 ∧
      (∀ transform ∈ s.encoder.transforms, transform.hardware = true → transform.failures = 0) ∧
      ∀ transform ∈ s.encoder.transform_, transform.hardware = true → s.encoder.failures = 0 := by
  have h := inv_run hrun
  refine ⟨h.encoder.failures.trans (Bool.toNat_le _),
    fun transform hmem => (h.encoder.transforms transform hmem).fallback, ?_⟩
  intro transform htransform hhardware
  have hfailures := h.encoder.failures
  rw [h.encoder.hardware ((h.encoder.current transform htransform).hardware ▸ hhardware)]
    at hfailures
  exact Nat.le_zero.mp hfailures

def oddFrame : VideoFrame := ⟨641, 480, 1, 1⟩

/-- An encoder in hardware asks twice at once and fails on the second picture, for which a keyframe
was requested; one in software takes the third. -/
def fallbackRun : List Event :=
  [.encode oddFrame 0 0 { events := [.need_input, .need_input] },
    .process_input { events := [.have_output] },
    .request_keyframe,
    .encode oddFrame 0 0 {},
    .get_event (some .have_output),
    .get_event (some .need_input),
    .process_input { first := .failed },
    .encode oddFrame 0 0 { create := { async := false } },
    .process_input {},
    .request_keyframe,
    .encode oddFrame 0 0 {},
    .process_input {},
    .encode ⟨800, 600, 2, 2⟩ 0 0 {}]

theorem fallbackRun_accepted : ((machine true).run fallbackRun).isSome := by decide +kernel

theorem fed_as_asked_fallbackRun :
    (((machine true).run fallbackRun).get fallbackRun_accepted).Served :=
  fed_as_asked (Option.some_get fallbackRun_accepted).symm

theorem keyframe_comes_fallbackRun :
    let s := ((machine true).run fallbackRun).get fallbackRun_accepted
    s.encoder.transforms.length = 3 ∧ ∀ transform ∈ s.encoder.transforms,
      ∀ picture ∈ transform.pictures, picture.requested = true →
        picture.forced = true ∨ picture.first = true ∨ transform.codec = false :=
  ⟨by decide +kernel, keyframe_comes (Option.some_get fallbackRun_accepted).symm⟩

theorem hardware_fails_once_fallbackRun :
    let s := ((machine true).run fallbackRun).get fallbackRun_accepted
    s.encoder.failures ≤ 1 ∧
      (∀ transform ∈ s.encoder.transforms, transform.hardware = true → transform.failures = 0) ∧
      ∀ transform ∈ s.encoder.transform_, transform.hardware = true → s.encoder.failures = 0 :=
  hardware_fails_once (Option.some_get fallbackRun_accepted).symm

end EncoderThread
end GambitRecord.Recorder
