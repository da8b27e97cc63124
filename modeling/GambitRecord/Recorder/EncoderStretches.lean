import Mathlib.Data.List.Chain
import GambitRecord.Recorder.EncoderLoop

/-! # What the video encoder is fed

`encoder_loop` with `MediaFoundationEncoder` at its end: which calls of `encode`
configure the encoder anew, and the time stamps of those calls. Between two
configurations the stamps should rise by at least three quarters of a frame
interval. A change of size resets the last stamp after the frame behind it has
got its own.
-/

namespace GambitRecord.Recorder
open Library Library.Runs

/-- The members that decide whether a frame needs a new configuration; the size is that of
`description_`. -/
structure MediaFoundationEncoder where
  configured_ : Bool := false
  width : UInt32 := 0
  height : UInt32 := 0
  deriving DecidableEq

/-- What the system answers during one turn of the loop: whether the encoder stops, configures
itself and takes the frame, whether it is one in hardware, and, should a recovery be due, whether
that succeeds or at least stops the encoder. -/
structure TurnAnswers where
  stops : Bool := true
  configures : Bool := true
  accepts : Bool := true
  hardware : Bool := true
  recovers : Bool := true
  recovery_stops : Bool := true
  deriving DecidableEq

def TurnAnswers.recovery (answers : TurnAnswers) : Recovery :=
  if answers.recovers then .completed else if answers.recovery_stops then .cleared else .stuck

structure EncodeCall where
  pts : ℤ
  reconfigured : Bool
  deriving DecidableEq

namespace MediaFoundationEncoder

def reconfigures (encoder : MediaFoundationEncoder) (frame : VideoFrame) : Bool :=
  ¬ encoder.configured_ ∨ frame.width &&& ~~~1 ≠ encoder.width ∨
    frame.height &&& ~~~1 ≠ encoder.height

def teardown (encoder : MediaFoundationEncoder) : MediaFoundationEncoder :=
  { encoder with configured_ := false }

/-- Whether the call returns, or throws; an encoder in hardware is torn down when it fails. -/
def encode (encoder : MediaFoundationEncoder) (frame : VideoFrame) (answers : TurnAnswers) :
    MediaFoundationEncoder × Bool :=
  if encoder.reconfigures frame ∧ ¬ answers.configures then (encoder.teardown, false)
  else
    let ready : MediaFoundationEncoder := ⟨true, frame.width &&& ~~~1, frame.height &&& ~~~1⟩
    if answers.accepts then (ready, true)
    else (if answers.hardware then ready.teardown else ready, false)

end MediaFoundationEncoder

structure EncoderStretches where
  loop : EncoderLoop := {}
  encoder : MediaFoundationEncoder := {}
  calls : List EncodeCall := []
  deriving DecidableEq

namespace EncoderStretches
open EncoderLoop
variable (config : Config)

/-- The encoder behind a failed turn, which may be the third in a row. -/
def recovered (loop : EncoderLoop) (encoder : MediaFoundationEncoder) (answers : TurnAnswers) :
    MediaFoundationEncoder :=
  if 3 ≤ loop.consecutive_failures + 1 ∧ answers.recovery ≠ .stuck then
    encoder.teardown
  else encoder

def fed (s : EncoderStretches) (encoder : MediaFoundationEncoder) (frame : VideoFrame)
    (answers : TurnAnswers) : EncoderStretches :=
  let pts := restamped config s.loop.last_capture_pts frame.pts
  let encoded := encoder.encode frame answers
  let encoding := if encoded.2 then .returned else .thrown
  { loop := s.loop.encoder_loop config frame answers.stops encoding answers.recovery
    encoder := if encoded.2 then encoded.1 else recovered s.loop encoded.1 answers
    calls := s.calls ++ [⟨pts, encoder.reconfigures frame⟩] }

def turn (s : EncoderStretches) (frame : VideoFrame) (answers : TurnAnswers) : EncoderStretches :=
  if TooSoon config s.loop.last_capture_pts frame.pts then s
  else if s.loop.SizeChanged frame then
    if answers.stops then s.fed config s.encoder.teardown frame answers
    else
      { s with
        loop := s.loop.encoder_loop config frame false .thrown answers.recovery
        encoder := recovered s.loop s.encoder answers }
  else s.fed config s.encoder frame answers

def machine : Machine EncoderStretches (VideoFrame × TurnAnswers) where
  init := {}
  step s e := some (s.turn config e.1 e.2)

/-- A call that goes on with the configuration of the call before. -/
def Follows (call next : EncodeCall) : Prop :=
  next.reconfigured = true ∨
    (call.pts < next.pts ∧ call.pts + minimum_interval config ≤ next.pts)

instance (call next : EncodeCall) : Decidable (Follows config call next) := instDecidableOr

/-- Within every stretch without a configuration the stamps rise by three quarters of a frame
interval at least. -/
def Spaced (s : EncoderStretches) : Prop := s.calls.IsChain (Follows config)

/-- The configuration that the frame finds when the turn gets to the encoder. -/
def found (s : EncoderStretches) (frame : VideoFrame) : MediaFoundationEncoder :=
  if s.loop.SizeChanged frame then s.encoder.teardown else s.encoder

/-- A frame comes far enough behind a stamp, with its own time or, when that is not behind `last`,
with an interval behind `last`. -/
def FarBehind (stamp last pts : ℤ) : Prop :=
  if pts ≤ last then stamp + minimum_interval config ≤ last + frame_interval config
  else stamp + minimum_interval config ≤ pts

instance (stamp last pts : ℤ) : Decidable (FarBehind config stamp last pts) :=
  inferInstanceAs (Decidable (if pts ≤ last then
    stamp + minimum_interval config ≤ last + frame_interval config
    else stamp + minimum_interval config ≤ pts))

/-- The loop has forgotten the stamp of the last call, and the frame goes on with its
configuration: then it comes far enough behind that stamp. -/
def KeepsApart (s : EncoderStretches) (e : VideoFrame × TurnAnswers) : Prop :=
  ∀ call ∈ s.calls.getLast?, s.loop.last_capture_pts < call.pts →
    ¬ TooSoon config s.loop.last_capture_pts e.1.pts →
      (s.found e.1).reconfigures e.1 = true ∨
        FarBehind config call.pts s.loop.last_capture_pts e.1.pts

instance (s : EncoderStretches) : DecidablePred (KeepsApart config s) :=
  fun _ => inferInstanceAs (Decidable (∀ call ∈ s.calls.getLast?, _ → _ → _ ∨ _))

/-- Stamps are positive, and so is the last one unless it was reset. -/
structure Inv (s : EncoderStretches) : Prop where
  last : 0 ≤ s.loop.last_capture_pts
  calls : ∀ call ∈ s.calls, 0 < call.pts

variable {config}

section Stamps
variable {last pts : ℤ}

theorem intervals (hfps : 10 ≤ config.video.fps ∧ config.video.fps ≤ 240) :
    0 < minimum_interval config ∧ minimum_interval config ≤ frame_interval config := by
  have hlow : 10 ≤ config.video.fps.toNat := UInt32.le_iff_toNat_le.mp hfps.1
  have hhigh : config.video.fps.toNat ≤ 240 := UInt32.le_iff_toNat_le.mp hfps.2
  have hlong : 41666 ≤ frame_interval config := by
    rw [frame_interval, HnsPerSecond, Int.le_ediv_iff_mul_le (by omega)]
    omega
  have hmin : minimum_interval config = frame_interval config * 3 / 4 := rfl
  omega

theorem restamped_pos (hfps : 10 ≤ config.video.fps ∧ config.video.fps ≤ 240) (h : 0 ≤ last) :
    0 < restamped config last pts := by
  have hintervals := intervals hfps
  unfold restamped
  split <;> omega

/-- A frame that is not dropped is stamped far enough behind the last stamp, if there is one. -/
theorem le_restamped (hfps : 10 ≤ config.video.fps ∧ config.video.fps ≤ 240) (hlast : 0 < last)
    (hsoon : ¬ TooSoon config last pts) :
    last + minimum_interval config ≤ restamped config last pts := by
  have hintervals := intervals hfps
  unfold TooSoon at hsoon
  unfold restamped
  split <;> omega

theorem farBehind_iff {stamp : ℤ} :
    FarBehind config stamp last pts ↔
      stamp + minimum_interval config ≤ restamped config last pts := by
  unfold FarBehind restamped
  split <;> exact Iff.rfl

end Stamps

section Turns
variable {s t : EncoderStretches} {frame : VideoFrame} {answers : TurnAnswers}

theorem last_failed {loop : EncoderLoop} (recovery : Recovery) (h : 0 ≤ loop.last_capture_pts) :
    0 ≤ (loop.failed recovery).last_capture_pts := by
  simp only [failed, recover_pipeline]
  split
  · cases recovery with
    | completed => exact le_rfl
    | stuck | cleared => exact h
  · exact h

theorem last_encode {loop : EncoderLoop} (pts : ℤ) (encoding : Encoding) (recovery : Recovery)
    (h : 0 ≤ loop.last_capture_pts) :
    0 ≤ (loop.encode frame pts encoding recovery).last_capture_pts := by
  cases encoding with
  | returned => exact h
  | taken => exact last_failed recovery h
  | thrown => exact last_failed recovery h

theorem last_encoder_loop (hfps : 10 ≤ config.video.fps ∧ config.video.fps ≤ 240)
    {loop : EncoderLoop} (stops : Bool) (encoding : Encoding) (recovery : Recovery)
    (h : 0 ≤ loop.last_capture_pts) :
    0 ≤ (loop.encoder_loop config frame stops encoding recovery).last_capture_pts := by
  have hpos : 0 < restamped config loop.last_capture_pts frame.pts := restamped_pos hfps h
  simp only [encoder_loop]
  split
  · exact h
  · split
    · split
      · exact last_encode _ _ _ le_rfl
      · exact last_failed _ hpos.le
    · exact last_encode _ _ _ hpos.le

theorem Inv.fed (hfps : 10 ≤ config.video.fps ∧ config.video.fps ≤ 240) (h : Inv s)
    (encoder : MediaFoundationEncoder) : Inv (s.fed config encoder frame answers) := by
  constructor
  · exact last_encoder_loop hfps _ _ _ h.last
  · intro call hcall
    rcases List.mem_append.mp hcall with hold | hnew
    · exact h.calls call hold
    · rw [List.mem_singleton.mp hnew]
      exact restamped_pos hfps h.last

theorem inv_turn (hfps : 10 ≤ config.video.fps ∧ config.video.fps ≤ 240) (h : Inv s) :
    Inv (s.turn config frame answers) := by
  unfold turn
  split_ifs
  · exact h
  · exact h.fed hfps _
  · exact ⟨last_encoder_loop hfps _ _ _ h.last, h.calls⟩
  · exact h.fed hfps _

/-- A further call keeps the stretches spaced when it follows the last one. -/
theorem spaced_concat (calls : List EncodeCall) (next : EncodeCall) :
    (calls ++ [next]).IsChain (Follows config) ↔
      calls.IsChain (Follows config) ∧ ∀ call ∈ calls.getLast?, Follows config call next := by
  rw [List.isChain_append]
  simp

@[simp] theorem reconfigures_teardown (encoder : MediaFoundationEncoder) :
    encoder.teardown.reconfigures frame = true := by
  simp [MediaFoundationEncoder.reconfigures, MediaFoundationEncoder.teardown]

/-- Behind the stamp of the last call a frame is far enough; a forgotten stamp leaves it to the
frame. -/
theorem follows_iff (hfps : 10 ≤ config.video.fps ∧ config.video.fps ≤ 240) {call : EncodeCall}
    {last pts : ℤ} {reconfigured : Bool} (hcall : 0 < call.pts)
    (hsoon : ¬ TooSoon config last pts) :
    Follows config call ⟨restamped config last pts, reconfigured⟩ ↔
      (last < call.pts → reconfigured = true ∨ FarBehind config call.pts last pts) := by
  rw [farBehind_iff]
  have hintervals := intervals hfps
  constructor
  · intro h _
    exact h.imp id And.right
  · intro h
    by_cases hforgotten : last < call.pts
    · exact (h hforgotten).imp id fun hle => ⟨by omega, hle⟩
    · have hle := le_restamped hfps (by omega) hsoon
      have hlater : call.pts < restamped config last pts := by omega
      have hfar : call.pts + minimum_interval config ≤ restamped config last pts := by omega
      exact .inr ⟨hlater, hfar⟩

/-- A turn keeps the stretches spaced exactly when its frame keeps apart. -/
theorem spaced_turn (hfps : 10 ≤ config.video.fps ∧ config.video.fps ≤ 240) (h : Inv s) :
    (s.turn config frame answers).Spaced config ↔
      s.Spaced config ∧ s.KeepsApart config (frame, answers) := by
  unfold turn KeepsApart found
  by_cases hsoon : TooSoon config s.loop.last_capture_pts frame.pts
  · simp [hsoon]
  · rw [if_neg hsoon]
    by_cases hchanged : s.loop.SizeChanged frame
    · simp only [hchanged, if_true, reconfigures_teardown, true_or, implies_true, and_true]
      split
      · change List.IsChain _ (s.calls ++ [_]) ↔ _
        rw [spaced_concat, reconfigures_teardown]
        exact and_iff_left fun call _ => .inl rfl
      · exact Iff.rfl
    · simp only [hchanged, if_false]
      change List.IsChain _ (s.calls ++ [_]) ↔ _
      rw [spaced_concat]
      apply and_congr_right
      intro _
      apply forall₂_congr
      intro call hcall
      rw [follows_iff hfps (h.calls call (List.mem_of_getLast? hcall)) hsoon]
      exact imp_congr_right fun _ => (imp_iff_right hsoon).symm

/-- For every sequence of frames, the stretches are spaced exactly when each frame that meets a
forgotten stamp keeps apart from it. -/
theorem spaced_iff (hfps : 10 ≤ config.video.fps ∧ config.video.fps ≤ 240)
    {es : List (VideoFrame × TurnAnswers)} (hrun : (machine config).run es = some s) :
    s.Spaced config ↔
      (machine config).Along (KeepsApart config) (machine config).init es := by
  have hinv : ∀ s e t, Inv s → (machine config).step s e = some t → Inv t := by
    intro s e t hs hstep
    cases hstep
    exact inv_turn hfps hs
  have hstep : ∀ s e t, Inv s → (machine config).step s e = some t →
      (t.Spaced config ↔ s.Spaced config ∧ s.KeepsApart config e) := by
    intro s e t hs hstep
    cases hstep
    exact spaced_turn hfps hs
  have hinit : Inv (machine config).init := ⟨le_rfl, by simp [machine]⟩
  rw [Machine.along_iff hinv hstep hrun hinit]
  exact and_iff_right List.isChain_nil

end Turns

def picture (width : UInt32) (pts : ℤ) : VideoFrame := ⟨width, 480, pts, pts⟩

def calmRun : List (VideoFrame × TurnAnswers) :=
  [(picture 640 1000000, {}), (picture 800 1200000, {}), (picture 800 1400000, {})]

def hastyRun : List (VideoFrame × TurnAnswers) :=
  [(picture 640 1000000, {}), (picture 800 1200000, {}), (picture 800 1250000, {})]

theorem spaced_calmRun :
    (((machine {}).run calmRun).get (by decide)).Spaced {} ↔
      (machine {}).Along (KeepsApart {}) (machine {}).init calmRun :=
  spaced_iff (by decide) (Option.some_get (by decide)).symm

/-- The frame behind a change of size goes to the encoder too soon. -/
theorem not_alwaysSpaced :
    ¬ ∀ (config : Config) (es : List (VideoFrame × TurnAnswers)) (s : EncoderStretches),
      10 ≤ config.video.fps ∧ config.video.fps ≤ 240 →
        (machine config).run es = some s → s.Spaced config := by
  intro hall
  have hspaced := hall {} hastyRun _ (by decide) rfl
  revert hspaced
  unfold Spaced
  decide +kernel

end EncoderStretches
end GambitRecord.Recorder
