import GambitRecord.Library.Runs
import GambitRecord.Recorder.Config
import GambitRecord.Recorder.Media
import Mathlib.Algebra.Order.Group.Abs
import Mathlib.Algebra.Order.Ring.Int

/-! # Stamps of picture and sound

`encoder_loop` with the capture backends that feed it and the audio capture beside it.
A backend stamps its frames by its own clock, the loop restamps what goes back, and the
audio capture keeps the time of its packets. The history keeps what the two encoders
accept, each with the instant of its capture on the performance counter in units of
100 ns.
-/

namespace GambitRecord.Recorder
open Library Library.Runs

/-- A frame on its way to the encoder; `instant` is history. -/
structure VideoFrame where
  width : UInt32
  height : UInt32
  pts : ℤ
  instant : ℤ
  deriving DecidableEq

/-- A backend with the member its time stamps depend on. -/
inductive Backend where
  | WindowsGraphicsCapture (fallback_pts_ : ℤ)
  | DesktopDuplication (start : ℤ)
  deriving DecidableEq

/-- The conversion of the performance counter to units of 100 ns. -/
def counter_instant (freq now : ℤ) : ℤ := now * HnsPerSecond / freq

/-- The time of a frame and the next fallback. -/
def WindowsGraphicsCapture.pts (fallback_pts_ relative : ℤ) : ℤ × ℤ :=
  if relative ≠ 0 then (relative, fallback_pts_)
  else (fallback_pts_ * (HnsPerSecond / 60), fallback_pts_ + 1)

/-- The product is one of 64 bits. -/
def DesktopDuplication.pts (freq start now : ℤ) : ℤ :=
  (Int64.ofInt ((now - start) * HnsPerSecond)).toInt.tdiv freq

def WasapiCapture.pts (next_pts_ qpc : ℤ) : ℤ := if qpc = 0 then next_pts_ else qpc

def WasapiCapture.duration (frames : UInt32) : ℤ := (frames.toNat : ℤ) * HnsPerSecond / 48000

def push_drop_oldest (capacity : UInt64) (queue : List VideoFrame) (value : VideoFrame) :
    List VideoFrame :=
  (if capacity.toNat ≤ queue.length then queue.tail else queue) ++ [value]

/-- What an encoder is given, with the instant of its capture. -/
structure Stamped where
  instant : ℤ
  pts : ℤ
  deriving DecidableEq

/-- How a call of `encode` ends: it returns, it throws after the transform has taken the frame, or it
throws before that. -/
inductive Encoding where
  | returned | taken | thrown
  deriving DecidableEq

/-- How far `recover_pipeline` comes: the encoder's stop throws, a later step does, or none. -/
inductive Recovery where
  | stuck | cleared | completed
  deriving DecidableEq

/-- `monitoring` says that the capture manager runs. -/
structure EncoderLoop where
  monitoring : Bool := true
  backend_ : Option Backend := none
  frames_ : List VideoFrame := []
  last_capture_pts : ℤ := 0
  consecutive_failures : UInt32 := 0
  stream_ : StreamDescription := {}
  running_ : Bool := false
  next_pts_ : ℤ := 0
  pictures : List Stamped := []
  sounds : List Stamped := []
  deriving DecidableEq

namespace EncoderLoop
variable (config : Config) (freq : ℤ)

def frame_interval : ℤ := HnsPerSecond / config.video.fps.toNat

def minimum_interval : ℤ := HnsPerSecond / config.video.fps.toNat * 3 / 4

def TooSoon (last pts : ℤ) : Prop :=
  last ≠ 0 ∧ last < pts ∧ pts - last < minimum_interval config

instance (last pts : ℤ) : Decidable (TooSoon config last pts) :=
  inferInstanceAs (Decidable (_ ∧ _ ∧ _))

def restamped (last pts : ℤ) : ℤ := if pts ≤ last then last + frame_interval config else pts

/-- `CaptureManager::connect` with what the system answers: whether Windows Graphics Capture is
supported and starts, and whether desktop duplication does. -/
def connect (supported started duplicated : Bool) (start : ℤ) : Option Backend :=
  if config.capture.backend = Utf8.bytes "windows_graphics_capture" ∧ supported ∧ started then
    some (.WindowsGraphicsCapture 0)
  else if duplicated then some (.DesktopDuplication start)
  else none

variable (s : EncoderLoop)

/-- The audio is stopped too. On an error the capture stays stopped. -/
def recover_pipeline (recovery : Recovery) : EncoderLoop :=
  let stopped := { s with monitoring := false, backend_ := none, running_ := false, next_pts_ := 0 }
  match recovery with
  | .stuck => stopped
  | .cleared => { stopped with frames_ := [] }
  | .completed =>
    { stopped with
      frames_ := []
      monitoring := true
      stream_ := {}
      consecutive_failures := 0
      last_capture_pts := 0 }

def failed (recovery : Recovery) : EncoderLoop :=
  let counted := { s with consecutive_failures := s.consecutive_failures + 1 }
  if 3 ≤ counted.consecutive_failures then counted.recover_pipeline recovery else counted

def SizeChanged (frame : VideoFrame) : Prop :=
  s.stream_.width ≠ 0 ∧
    (s.stream_.width ≠ frame.width &&& ~~~1 ∨ s.stream_.height ≠ frame.height &&& ~~~1)

instance (frame : VideoFrame) : Decidable (s.SizeChanged frame) :=
  inferInstanceAs (Decidable (_ ∧ _))

/-- A call of `encode` with what follows it. -/
def encode (frame : VideoFrame) (pts : ℤ) (encoding : Encoding) (recovery : Recovery) :
    EncoderLoop :=
  match encoding with
  | .returned =>
    { s with
      stream_ := ⟨frame.width &&& ~~~1, frame.height &&& ~~~1, s.running_⟩
      consecutive_failures := 0
      pictures := s.pictures ++ [⟨frame.instant, pts⟩] }
  | .taken => failed { s with pictures := s.pictures ++ [⟨frame.instant, pts⟩] } recovery
  | .thrown => s.failed recovery

/-- A turn of `encoder_loop` on the popped frame. `stops` says that the encoder stops without an
error when the size changes, `recovery` is for a recovery that is due. -/
def encoder_loop (frame : VideoFrame) (stops : Bool) (encoding : Encoding) (recovery : Recovery) :
    EncoderLoop :=
  if TooSoon config s.last_capture_pts frame.pts then s
  else
    let pts := restamped config s.last_capture_pts frame.pts
    let s := { s with last_capture_pts := pts }
    if s.SizeChanged frame then
      if stops then { s with last_capture_pts := 0 }.encode frame pts encoding recovery
      else s.failed recovery
    else s.encode frame pts encoding recovery

/-- `WasapiCapture::encode_pcm`; the packet's samples are not modelled. -/
def encode_pcm (instant qpc : ℤ) (frames : UInt32) (accepted : Bool) : EncoderLoop :=
  let pts := WasapiCapture.pts s.next_pts_ qpc
  { s with
    next_pts_ := pts + WasapiCapture.duration frames
    sounds := if accepted then s.sounds ++ [⟨instant, pts⟩] else s.sounds }

def stop_audio : EncoderLoop := { s with running_ := false, next_pts_ := 0 }

/-- What the capture manager, the backend's thread, the encoder thread and the audio thread do in
any order. The instant of a frame or a packet is that of its capture. -/
inductive Event where
  | connect (supported started duplicated : Bool) (start : ℤ)
  | disconnect
  | graphics_frame (width height : UInt32) (instant relative : ℤ)
  | duplication_frame (width height : UInt32) (now : ℤ)
  | pop (stops : Bool) (encoding : Encoding) (recovery : Recovery)
  | start_audio (started : Bool)
  | stop_audio
  | lose_audio
  | packet (instant qpc : ℤ) (frames : UInt32) (accepted : Bool)
  deriving DecidableEq

def push (frame : VideoFrame) : EncoderLoop :=
  { s with frames_ := push_drop_oldest config.video.queue_frames s.frames_ frame }

def step : Event → Option EncoderLoop
  | .connect supported started duplicated start =>
    if s.monitoring then
      some { s with backend_ := EncoderLoop.connect config supported started duplicated start }
    else none
  | .disconnect => some { s with backend_ := none }
  | .graphics_frame width height instant relative =>
    match s.backend_ with
    | some (.WindowsGraphicsCapture fallback_pts_) =>
      let stamp := WindowsGraphicsCapture.pts fallback_pts_ relative
      some ({ s with backend_ := some (.WindowsGraphicsCapture stamp.2) }.push config
        ⟨width, height, stamp.1, instant⟩)
    | _ => none
  | .duplication_frame width height now =>
    match s.backend_ with
    | some (.DesktopDuplication start) =>
      some (s.push config
        ⟨width, height, DesktopDuplication.pts freq start now, counter_instant freq now⟩)
    | _ => none
  | .pop stops encoding recovery =>
    match s.frames_ with
    | frame :: rest =>
      some ({ s with frames_ := rest }.encoder_loop config frame stops encoding recovery)
    | [] => none
  | .start_audio started => some { s.stop_audio with running_ := started }
  | .stop_audio => some s.stop_audio
  | .lose_audio => some { s with running_ := false }
  | .packet instant qpc frames accepted =>
    if s.running_ then some (s.encode_pcm instant qpc frames accepted) else none

def machine : Machine EncoderLoop Event := ⟨{}, fun s e => s.step config freq e⟩

/-- The system's times are those of the performance counter, and none is zero. -/
def Clocked : Event → Prop
  | .graphics_frame _ _ instant relative => relative = instant ∧ relative ≠ 0
  | .packet instant qpc _ _ => qpc = instant ∧ qpc ≠ 0
  | _ => True

instance : DecidablePred Clocked
  | .graphics_frame .. => inferInstanceAs (Decidable (_ ∧ _))
  | .packet .. => inferInstanceAs (Decidable (_ ∧ _))
  | .connect .. | .disconnect | .duplication_frame .. | .pop .. | .start_audio _ | .stop_audio
  | .lose_audio => instDecidableTrue

/-- The stamps of every picture and every sound differ by as much as their instants do, up to one
frame interval. -/
def InStep : Prop :=
  ∀ picture ∈ s.pictures, ∀ sound ∈ s.sounds,
    |(picture.pts - sound.pts) - (picture.instant - sound.instant)| ≤ frame_interval config

instance : Decidable (s.InStep config) :=
  inferInstanceAs (Decidable (∀ picture ∈ _, ∀ sound ∈ _, _ ≤ _))

/-- The transform takes the frame unless it is dropped. -/
def Encoded (frame : VideoFrame) (stops : Bool) (encoding : Encoding) : Prop :=
  encoding ≠ .thrown ∧ (s.SizeChanged frame → stops = true)

instance (frame : VideoFrame) (stops : Bool) (encoding : Encoding) :
    Decidable (s.Encoded frame stops encoding) :=
  inferInstanceAs (Decidable (_ ∧ (_ → _)))

/-- What a frame needs that the transform takes: a stamp past the last one is near the
instant of its capture, and a frame that goes back was captured no sooner than the last stamp and
at most two frame intervals after it. -/
def Paced : Event → Prop
  | .pop stops encoding _ =>
    ∀ frame ∈ s.frames_.head?, s.Encoded frame stops encoding →
      TooSoon config s.last_capture_pts frame.pts ∨
      (s.last_capture_pts < frame.pts ∧ |frame.pts - frame.instant| ≤ frame_interval config) ∨
      (frame.pts ≤ s.last_capture_pts ∧ s.last_capture_pts ≤ frame.instant ∧
        frame.instant ≤ s.last_capture_pts + 2 * frame_interval config)
  | _ => True

instance : DecidablePred (s.Paced config)
  | .pop .. => inferInstanceAs (Decidable (∀ _ ∈ s.frames_.head?, _ → _ ∨ (_ ∧ _) ∨ (_ ∧ _ ∧ _)))
  | .connect .. | .disconnect | .graphics_frame .. | .duplication_frame .. | .start_audio _
  | .stop_audio | .lose_audio | .packet .. => instDecidableTrue

/-- The stamp that the encoder is given is near the instant of the capture exactly for a paced
frame. -/
theorem near_restamped_iff {last pts instant : ℤ} :
    |restamped config last pts - instant| ≤ frame_interval config ↔
      (last < pts ∧ |pts - instant| ≤ frame_interval config) ∨
      (pts ≤ last ∧ last ≤ instant ∧ instant ≤ last + 2 * frame_interval config) := by
  by_cases hback : pts ≤ last
  · have hpast : ¬ last < pts := not_lt.mpr hback
    simp only [restamped, hback, if_true, hpast, false_and, true_and, false_or]
    rw [abs_le]
    omega
  · have hpast : last < pts := not_le.mp hback
    simp only [restamped, hback, if_false, hpast, false_and, true_and, or_false]

variable {config} {freq} {s}

/-! ## What an event does to the history -/

theorem pictures_failed (recovery : Recovery) : (s.failed recovery).pictures = s.pictures := by
  simp only [failed, recover_pipeline]
  split
  · cases recovery <;> rfl
  · rfl

theorem sounds_failed (recovery : Recovery) : (s.failed recovery).sounds = s.sounds := by
  simp only [failed, recover_pipeline]
  split
  · cases recovery <;> rfl
  · rfl

theorem sounds_encode (frame : VideoFrame) (pts : ℤ) (encoding : Encoding) (recovery : Recovery) :
    (s.encode frame pts encoding recovery).sounds = s.sounds := by
  cases encoding with
  | returned => rfl
  | taken => exact sounds_failed recovery
  | thrown => exact sounds_failed recovery

theorem sounds_encoder_loop (frame : VideoFrame) (stops : Bool) (encoding : Encoding)
    (recovery : Recovery) :
    (s.encoder_loop config frame stops encoding recovery).sounds = s.sounds := by
  simp only [encoder_loop]
  split
  · rfl
  · split
    · split
      · rw [sounds_encode]
      · rw [sounds_failed]
    · rw [sounds_encode]

/-- A call adds its picture unless it throws before the transform has taken the frame. -/
theorem pictures_encode {frame : VideoFrame} {pts : ℤ} {encoding : Encoding}
    {recovery : Recovery} :
    (s.encode frame pts encoding recovery).pictures =
      s.pictures ++ if encoding = .thrown then [] else [⟨frame.instant, pts⟩] := by
  cases encoding with
  | returned => rfl
  | taken => exact pictures_failed recovery
  | thrown => exact (pictures_failed recovery).trans (List.append_nil _).symm

theorem mem_pictures_encode {frame : VideoFrame} {pts : ℤ} {encoding : Encoding}
    {recovery : Recovery} {picture : Stamped}
    (h : picture ∈ (s.encode frame pts encoding recovery).pictures) :
    picture ∈ s.pictures ∨ (encoding ≠ .thrown ∧ picture = ⟨frame.instant, pts⟩) := by
  rw [pictures_encode] at h
  rcases List.mem_append.mp h with hold | hnew
  · exact .inl hold
  · split_ifs at hnew with hthrown
    · cases hnew
    · exact .inr ⟨hthrown, List.mem_singleton.mp hnew⟩

/-- A turn gives the encoder at most its own frame, restamped. -/
theorem mem_pictures_encoder_loop {frame : VideoFrame} {stops : Bool} {encoding : Encoding}
    {recovery : Recovery} {picture : Stamped}
    (h : picture ∈ (s.encoder_loop config frame stops encoding recovery).pictures) :
    picture ∈ s.pictures ∨
      (Encoded s frame stops encoding ∧ ¬ TooSoon config s.last_capture_pts frame.pts ∧
        picture = ⟨frame.instant, restamped config s.last_capture_pts frame.pts⟩) := by
  simp only [encoder_loop] at h
  split at h
  · exact .inl h
  · rename_i hsoon
    split at h
    · split at h
      · rename_i hstops
        apply (mem_pictures_encode h).imp_right
        rintro ⟨hencoding, hpicture⟩
        exact ⟨⟨hencoding, fun _ => hstops⟩, hsoon, hpicture⟩
      · rw [pictures_failed] at h
        exact .inl h
    · rename_i hsame
      apply (mem_pictures_encode h).imp_right
      rintro ⟨hencoding, hpicture⟩
      exact ⟨⟨hencoding, fun hchanged => absurd hchanged hsame⟩, hsoon, hpicture⟩

inductive Stepped (config : Config) (freq : ℤ) (s : EncoderLoop) : Event → EncoderLoop → Prop
  | connect {supported started duplicated start} (hmonitoring : s.monitoring = true) :
      Stepped config freq s (.connect supported started duplicated start)
        { s with backend_ := EncoderLoop.connect config supported started duplicated start }
  | disconnect : Stepped config freq s .disconnect { s with backend_ := none }
  | graphics_frame {width height instant relative fallback_pts_}
      (hbackend : s.backend_ = some (.WindowsGraphicsCapture fallback_pts_)) :
      Stepped config freq s (.graphics_frame width height instant relative)
        ({ s with
            backend_ := some (.WindowsGraphicsCapture
              (WindowsGraphicsCapture.pts fallback_pts_ relative).2) }.push config
          ⟨width, height, (WindowsGraphicsCapture.pts fallback_pts_ relative).1, instant⟩)
  | duplication_frame {width height now start}
      (hbackend : s.backend_ = some (.DesktopDuplication start)) :
      Stepped config freq s (.duplication_frame width height now)
        (s.push config
          ⟨width, height, DesktopDuplication.pts freq start now, counter_instant freq now⟩)
  | pop {stops encoding recovery frame rest} (hframes : s.frames_ = frame :: rest) :
      Stepped config freq s (.pop stops encoding recovery)
        ({ s with frames_ := rest }.encoder_loop config frame stops encoding recovery)
  | start_audio {started} :
      Stepped config freq s (.start_audio started) { s.stop_audio with running_ := started }
  | stop_audio : Stepped config freq s .stop_audio s.stop_audio
  | lose_audio : Stepped config freq s .lose_audio { s with running_ := false }
  | packet {instant qpc frames accepted} (hrunning : s.running_ = true) :
      Stepped config freq s (.packet instant qpc frames accepted)
        (s.encode_pcm instant qpc frames accepted)

theorem step_cases {e : Event} {t : EncoderLoop} (h : s.step config freq e = some t) :
    Stepped config freq s e t := by
  cases e with
  | connect supported started duplicated start =>
    simp only [step] at h
    split_ifs at h with hmonitoring
    cases h
    exact .connect hmonitoring
  | disconnect =>
    cases h
    exact .disconnect
  | graphics_frame width height instant relative =>
    simp only [step] at h
    split at h
    · next fallback_pts_ hbackend =>
      cases h
      exact .graphics_frame hbackend
    · cases h
  | duplication_frame width height now =>
    simp only [step] at h
    split at h
    · next start hbackend =>
      cases h
      exact .duplication_frame hbackend
    · cases h
  | pop stops encoding recovery =>
    simp only [step] at h
    split at h
    · next frame rest hframes =>
      cases h
      exact .pop hframes
    · cases h
  | start_audio started =>
    cases h
    exact .start_audio
  | stop_audio =>
    cases h
    exact .stop_audio
  | lose_audio =>
    cases h
    exact .lose_audio
  | packet instant qpc frames accepted =>
    simp only [step] at h
    split_ifs at h with hrunning
    cases h
    exact .packet hrunning

/-! ## Runs that stay in step -/

/-- Pictures are near the instants of their capture, sounds at them. -/
structure Kept (config : Config) (s : EncoderLoop) : Prop where
  near : ∀ picture ∈ s.pictures, |picture.pts - picture.instant| ≤ frame_interval config
  exact : ∀ sound ∈ s.sounds, sound.pts = sound.instant

theorem Kept.inStep (h : s.Kept config) : s.InStep config := by
  intro picture hpicture sound hsound
  have hnear := h.near picture hpicture
  rw [h.exact sound hsound]
  have hsame : picture.pts - sound.instant - (picture.instant - sound.instant) =
      picture.pts - picture.instant := by omega
  rwa [hsame]

theorem kept_pop {frame : VideoFrame} {rest : List VideoFrame} {stops : Bool}
    {encoding : Encoding} {recovery : Recovery}
    (h : s.Kept config) (hframes : s.frames_ = frame :: rest)
    (hpaced : s.Paced config (.pop stops encoding recovery)) :
    Kept config ({ s with frames_ := rest }.encoder_loop config frame stops encoding recovery) where
  near picture hpicture := by
    rcases mem_pictures_encoder_loop hpicture with hold | ⟨hencoded, hsoon, rfl⟩
    · exact h.near picture hold
    · have hframe : frame ∈ s.frames_.head? := by simp [hframes]
      exact (near_restamped_iff config).mpr ((hpaced frame hframe hencoded).resolve_left hsoon)
  exact := by
    rw [sounds_encoder_loop]
    exact h.exact

theorem kept_packet {instant qpc : ℤ} {frames : UInt32} {accepted : Bool} (h : s.Kept config)
    (hclock : Clocked (.packet instant qpc frames accepted)) :
    Kept config (s.encode_pcm instant qpc frames accepted) where
  near := h.near
  exact sound hsound := by
    simp only [encode_pcm] at hsound
    split at hsound
    · rcases List.mem_append.mp hsound with hold | hnew
      · exact h.exact sound hold
      · rw [List.mem_singleton.mp hnew]
        change WasapiCapture.pts s.next_pts_ qpc = instant
        rw [WasapiCapture.pts, if_neg hclock.2, hclock.1]
    · exact h.exact sound hsound

theorem kept_step {e : Event} {t : EncoderLoop} (h : s.Kept config)
    (hC : Clocked e ∧ s.Paced config e) (hstep : s.step config freq e = some t) :
    t.Kept config := by
  cases step_cases hstep with
  | connect _ => exact ⟨h.near, h.exact⟩
  | disconnect => exact ⟨h.near, h.exact⟩
  | graphics_frame _ => exact ⟨h.near, h.exact⟩
  | duplication_frame _ => exact ⟨h.near, h.exact⟩
  | pop hframes => exact kept_pop h hframes hC.2
  | start_audio => exact ⟨h.near, h.exact⟩
  | stop_audio => exact ⟨h.near, h.exact⟩
  | lose_audio => exact ⟨h.near, h.exact⟩
  | packet _ => exact kept_packet h hC.1

/-- With times of the performance counter, a run whose frames are paced stays in step. -/
theorem inStep_of_paced {es : List Event} (hclock : ∀ e ∈ es, Clocked e)
    (hpaced : (machine config freq).Along (Paced config) (machine config freq).init es)
    (hrun : (machine config freq).run es = some s) : s.InStep config := by
  have hinit : Kept config (machine config freq).init :=
    ⟨fun _ h => absurd h List.not_mem_nil, fun _ h => absurd h List.not_mem_nil⟩
  have hC := (Machine.along_of_forall hclock).and hpaced
  exact (Machine.invariant_along (I := Kept config)
    (fun _ _ _ hI hC hstep => kept_step hI hC hstep) hC hrun hinit).inStep

/-! ## Runs on Windows Graphics Capture alone -/

variable (config) (s)

/-- Only Windows Graphics Capture connects, and frames come in the order of their capture. -/
def InOrder : Event → Prop
  | .connect supported started _ _ =>
    config.capture.backend = Utf8.bytes "windows_graphics_capture" ∧ supported ∧ started
  | .graphics_frame _ _ instant _ =>
    s.last_capture_pts < instant ∧ ∀ frame ∈ s.frames_, frame.instant < instant
  | _ => True

/-- The waiting frames are stamped with the instants of their capture and go forward. -/
structure Aligned : Prop where
  backend : ∀ start, s.backend_ ≠ some (.DesktopDuplication start)
  last : 0 ≤ s.last_capture_pts
  stamped : ∀ frame ∈ s.frames_, frame.pts = frame.instant
  later : ∀ frame ∈ s.frames_, s.last_capture_pts < frame.instant
  order : s.frames_.Pairwise fun frame next => frame.instant < next.instant

variable {config} {s}

/-- With a frame at the head of the queue taken, its stamp can be the last one. -/
theorem Aligned.popped {frame : VideoFrame} {rest : List VideoFrame} {last : ℤ} (h : s.Aligned)
    (hframes : s.frames_ = frame :: rest) (hlast : 0 ≤ last) (hle : last ≤ frame.instant) :
    Aligned { s with frames_ := rest, last_capture_pts := last } where
  backend := h.backend
  last := hlast
  stamped next hnext := h.stamped next (by rw [hframes]; exact List.mem_cons_of_mem _ hnext)
  later next hnext := by
    have horder := h.order
    rw [hframes, List.pairwise_cons] at horder
    exact lt_of_le_of_lt hle (horder.1 next hnext)
  order := by
    have horder := h.order
    rw [hframes, List.pairwise_cons] at horder
    exact horder.2

theorem Aligned.failed {recovery : Recovery} (h : s.Aligned) : (s.failed recovery).Aligned := by
  have hempty : ∀ t : EncoderLoop, t.backend_ = none → t.frames_ = [] → 0 ≤ t.last_capture_pts →
      t.Aligned := by
    intro t hbackend hframes hlast
    refine ⟨?_, hlast, ?_, ?_, ?_⟩ <;> simp [hbackend, hframes]
  simp only [EncoderLoop.failed, recover_pipeline]
  split
  · cases recovery with
    | stuck => exact ⟨by simp, h.last, h.stamped, h.later, h.order⟩
    | cleared => exact hempty _ rfl rfl h.last
    | completed => exact hempty _ rfl rfl le_rfl
  · exact ⟨h.backend, h.last, h.stamped, h.later, h.order⟩

theorem Aligned.encode {frame : VideoFrame} {pts : ℤ} {encoding : Encoding} {recovery : Recovery}
    (h : s.Aligned) : (s.encode frame pts encoding recovery).Aligned := by
  cases encoding with
  | returned => exact ⟨h.backend, h.last, h.stamped, h.later, h.order⟩
  | taken => exact Aligned.failed ⟨h.backend, h.last, h.stamped, h.later, h.order⟩
  | thrown => exact h.failed

theorem restamped_of_lt {last pts : ℤ} (h : last < pts) : restamped config last pts = pts :=
  if_neg (not_le.mpr h)

theorem aligned_pop {frame : VideoFrame} {rest : List VideoFrame} {stops : Bool}
    {encoding : Encoding} {recovery : Recovery}
    (h : s.Aligned) (hframes : s.frames_ = frame :: rest) :
    Aligned ({ s with frames_ := rest }.encoder_loop config frame stops encoding recovery) := by
  have hmem : frame ∈ s.frames_ := by simp [hframes]
  have hpts : frame.pts = frame.instant := h.stamped frame hmem
  have hlater : s.last_capture_pts < frame.instant := h.later frame hmem
  have hkept := h.popped hframes h.last hlater.le
  have hnext := h.popped hframes (h.last.trans hlater.le) le_rfl
  have hreset := h.popped hframes le_rfl (h.last.trans hlater.le)
  simp only [encoder_loop, hpts, restamped_of_lt hlater]
  split
  · exact hkept
  · split
    · split
      · exact hreset.encode
      · exact hnext.failed
    · exact hnext.encode

theorem mem_push_drop_oldest {capacity : UInt64} {queue : List VideoFrame}
    {value frame : VideoFrame} (h : frame ∈ push_drop_oldest capacity queue value) :
    frame ∈ queue ∨ frame = value := by
  rw [push_drop_oldest, List.mem_append, List.mem_singleton] at h
  apply h.imp_left
  intro hold
  split at hold
  · exact List.mem_of_mem_tail hold
  · exact hold

theorem pairwise_push_drop_oldest {R : VideoFrame → VideoFrame → Prop} {capacity : UInt64}
    {queue : List VideoFrame} {value : VideoFrame} (h : queue.Pairwise R)
    (hvalue : ∀ frame ∈ queue, R frame value) :
    (push_drop_oldest capacity queue value).Pairwise R := by
  rw [push_drop_oldest]
  split
  · rw [List.pairwise_append]
    refine ⟨h.sublist (List.tail_sublist queue), List.pairwise_singleton _ _, ?_⟩
    intro frame hframe next hnext
    rw [List.mem_singleton.mp hnext]
    exact hvalue frame (List.mem_of_mem_tail hframe)
  · rw [List.pairwise_append]
    refine ⟨h, List.pairwise_singleton _ _, ?_⟩
    intro frame hframe next hnext
    rw [List.mem_singleton.mp hnext]
    exact hvalue frame hframe

theorem aligned_push {width height : UInt32} {fallback_pts_ instant : ℤ} (h : s.Aligned)
    (hlast : s.last_capture_pts < instant) (horder : ∀ frame ∈ s.frames_, frame.instant < instant) :
    Aligned ({ s with backend_ := some (.WindowsGraphicsCapture fallback_pts_) }.push config
      ⟨width, height, instant, instant⟩) where
  backend := by simp [push]
  last := h.last
  stamped frame hframe := by
    rcases mem_push_drop_oldest hframe with hold | rfl
    · exact h.stamped frame hold
    · rfl
  later frame hframe := by
    rcases mem_push_drop_oldest hframe with hold | rfl
    · exact h.later frame hold
    · exact hlast
  order := pairwise_push_drop_oldest h.order horder

theorem aligned_step {e : Event} {t : EncoderLoop} (h : s.Aligned)
    (hC : Clocked e ∧ s.InOrder config e) (hstep : s.step config freq e = some t) :
    t.Aligned := by
  cases step_cases hstep with
  | @connect supported started duplicated start _ =>
    have hbackend : EncoderLoop.connect config supported started duplicated start =
        some (.WindowsGraphicsCapture 0) := if_pos hC.2
    exact ⟨by simp [hbackend], h.last, h.stamped, h.later, h.order⟩
  | disconnect => exact ⟨by simp, h.last, h.stamped, h.later, h.order⟩
  | graphics_frame _ =>
    rw [WindowsGraphicsCapture.pts, if_pos hC.1.2, hC.1.1]
    exact aligned_push h hC.2.1 hC.2.2
  | duplication_frame hbackend => exact absurd hbackend (h.backend _)
  | pop hframes => exact aligned_pop h hframes
  | start_audio => exact ⟨h.backend, h.last, h.stamped, h.later, h.order⟩
  | stop_audio => exact ⟨h.backend, h.last, h.stamped, h.later, h.order⟩
  | lose_audio => exact ⟨h.backend, h.last, h.stamped, h.later, h.order⟩
  | packet _ => exact ⟨h.backend, h.last, h.stamped, h.later, h.order⟩

theorem Aligned.paced (h : s.Aligned) (hI : 0 ≤ frame_interval config) (e : Event) :
    s.Paced config e := by
  cases e with
  | pop stops encoding recovery =>
    intro frame hframe _
    have hmem : frame ∈ s.frames_ := List.mem_of_mem_head? hframe
    have hpts : frame.pts = frame.instant := h.stamped frame hmem
    have hlater : s.last_capture_pts < frame.instant := h.later frame hmem
    refine .inr (.inl ⟨hpts ▸ hlater, ?_⟩)
    rwa [hpts, sub_self, abs_zero]
  | _ => trivial

theorem frame_interval_nonneg : 0 ≤ frame_interval config :=
  Int.ediv_nonneg (by decide) (Int.natCast_nonneg _)

/-- A run on Windows Graphics Capture alone is paced, through every interruption and restart. -/
theorem paced_of_inOrder {es : List Event} (hclock : ∀ e ∈ es, Clocked e)
    (horder : (machine config freq).Along (InOrder config) (machine config freq).init es) :
    (machine config freq).Along (Paced config) (machine config freq).init es := by
  have hinit : Aligned (machine config freq).init := by
    refine ⟨?_, le_rfl, ?_, ?_, ?_⟩ <;> simp [machine]
  exact Machine.Along.of_invariant (I := Aligned)
    (fun _ _ _ hI hC hstep => aligned_step hI hC hstep)
    (fun _ e hI _ => hI.paced frame_interval_nonneg e)
    ((Machine.along_of_forall hclock).and horder) hinit

/-! ## The clock of desktop duplication -/

theorem duplication_pts_eq {start now : ℤ} (hnow : start ≤ now)
    (hsmall : (now - start) * HnsPerSecond < 2 ^ 63) :
    DesktopDuplication.pts freq start now = ((now - start) * HnsPerSecond).tdiv freq := by
  have hnonneg : 0 ≤ (now - start) * HnsPerSecond :=
    mul_nonneg (sub_nonneg.mpr hnow) (by decide)
  rw [DesktopDuplication.pts, Int64.toInt_ofInt_of_le]
  · exact le_trans (by decide) hnonneg
  · exact hsmall

/-- Frames of desktop duplication are stamped too early by the instant at which it started. -/
theorem duplication_behind {start now : ℤ} (hfreq : 0 < freq) (hnow : start ≤ now)
    (hsmall : (now - start) * HnsPerSecond < 2 ^ 63) :
    counter_instant freq start ≤
      counter_instant freq now - DesktopDuplication.pts freq start now := by
  have hnonneg : 0 ≤ (now - start) * HnsPerSecond :=
    mul_nonneg (sub_nonneg.mpr hnow) (by decide)
  rw [duplication_pts_eq hnow hsmall, Int.tdiv_eq_ediv_of_nonneg hnonneg]
  have hsum : counter_instant freq start + (now - start) * HnsPerSecond / freq ≤
      counter_instant freq now := by
    rw [counter_instant, counter_instant, Int.le_ediv_iff_mul_le hfreq, add_mul]
    have hstart := Int.ediv_mul_le (start * HnsPerSecond) hfreq.ne'
    have helapsed := Int.ediv_mul_le ((now - start) * HnsPerSecond) hfreq.ne'
    have hnow : start * HnsPerSecond + (now - start) * HnsPerSecond = now * HnsPerSecond := by
      ring
    omega
  omega

/-- Past the first frame interval of the counter no frame of desktop duplication is near the instant
of its capture by the backend's own stamp. -/
theorem duplication_not_near {start now : ℤ} (hfreq : 0 < freq) (hnow : start ≤ now)
    (hsmall : (now - start) * HnsPerSecond < 2 ^ 63)
    (hstart : frame_interval config < counter_instant freq start) :
    ¬ |DesktopDuplication.pts freq start now - counter_instant freq now| ≤
      frame_interval config := by
  have hbehind := duplication_behind hfreq hnow hsmall
  rw [abs_le]
  omega

/-- Windows Graphics Capture alone, then one fallback to it after a loss of its window. -/
def captureRun : List Event :=
  [.connect true true true 0,
    .graphics_frame 1920 1080 1000000000 1000000000, .pop true .returned .completed,
    .start_audio true, .packet 1000050000 1000050000 480 true,
    .graphics_frame 1920 1080 1000166667 1000166667, .pop true .returned .completed,
    .disconnect, .connect true true true 0,
    .graphics_frame 1280 720 1900000000 1900000000, .pop true .returned .completed,
    .packet 1900100000 1900100000 480 true]

/-- Desktop duplication from the start, 100 s after the counter began. -/
def desktopRun : List Event :=
  [.connect false false true 1000000000, .duplication_frame 1920 1080 1000000010,
    .pop true .returned .completed, .start_audio true, .packet 1000050000 1000050000 480 true]

theorem captureRun_accepted : ((machine {} 10000000).run captureRun).isSome := by decide +kernel

theorem desktopRun_accepted : ((machine {} 10000000).run desktopRun).isSome := by decide +kernel

theorem inStep_captureRun :
    InStep {} (((machine {} 10000000).run captureRun).get captureRun_accepted) :=
  inStep_of_paced (by decide) (by decide +kernel) (Option.some_get captureRun_accepted).symm

/-- Desktop duplication counts from its own start. -/
theorem not_alwaysInStep :
    ¬ ∀ (config : Config) (freq : ℤ) (es : List Event) (s : EncoderLoop), 0 < freq →
      (∀ e ∈ es, Clocked e) → (machine config freq).run es = some s → s.InStep config := by
  intro hall
  have hstep := hall {} 10000000 desktopRun _ (by decide) (by decide)
    (Option.some_get desktopRun_accepted).symm
  revert hstep
  decide +kernel

end EncoderLoop
end GambitRecord.Recorder
