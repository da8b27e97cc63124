import GambitRecord.Library.Algorithms
import GambitRecord.Recorder.BoundedQueue
import GambitRecord.Recorder.EncoderLoop

/-! # The account of the frames

The capture's callbacks and the encoder thread around their queue, in any order. A
callback counts a frame that found no room or a closed queue after it has pushed it,
a turn of `encoder_loop` counts a frame that came too soon, and a recovery clears the
queue. The history keeps what was captured and what became of the frames that turns took.
-/

namespace GambitRecord.Recorder
open Library.Algorithms Library.Runs BoundedQueue

/-- What becomes of the frame of a turn: it comes too soon, the turn ends before `encode`, or `encode`
throws before the transform has taken it, or it has. -/
inductive Taken where
  | too_soon | given_up | failed | encoded
  deriving DecidableEq

/-- `frame` is the encoder thread's; `uncounted` callbacks have yet to count their frame. -/
structure FrameAccounts where
  frames_ : History VideoFrame
  dropped_frames_ : UInt64 := 0
  loop : EncoderLoop := {}
  frame : Option VideoFrame := none
  captured : List VideoFrame := []
  uncounted : ℕ := 0
  turns : List (Taken × VideoFrame) := []
  deriving DecidableEq

namespace FrameAccounts
variable (config : Config)

def taken (loop : EncoderLoop) (frame : VideoFrame) (stops : Bool) (encoding : Encoding) : Taken :=
  if EncoderLoop.TooSoon config loop.last_capture_pts frame.pts then .too_soon
  else if loop.SizeChanged frame ∧ stops = false then .given_up
  else if encoding = .thrown then .failed
  else .encoded

/-- The turn fails, as the two before it did. -/
def Recovers (loop : EncoderLoop) (frame : VideoFrame) (stops : Bool) (encoding : Encoding) : Prop :=
  ¬ (encoding = .returned ∧ (loop.SizeChanged frame → stops = true)) ∧
    3 ≤ loop.consecutive_failures + 1

instance (loop : EncoderLoop) (frame : VideoFrame) (stops : Bool) (encoding : Encoding) :
    Decidable (Recovers loop frame stops encoding) := inferInstanceAs (Decidable (_ ∧ _))

variable (s : FrameAccounts)

def turn (frame : VideoFrame) (stops : Bool) (encoding : Encoding) (recovery : Recovery) :
    Option FrameAccounts :=
  let done := { s with
    loop := s.loop.encoder_loop config frame stops encoding recovery
    frame := none
    turns := s.turns ++ [(taken config s.loop frame stops encoding, frame)] }
  if taken config s.loop frame stops encoding = .too_soon then
    some { done with dropped_frames_ := s.dropped_frames_ + 1 }
  else if Recovers s.loop frame stops encoding ∧ recovery ≠ .stuck then
    (BoundedQueue.step s.frames_ .clear).map fun frames_ => { done with frames_ }
  else some done

inductive Event where
  | capture (frame : VideoFrame)
  | count
  | pop (stop_requested : Bool)
  | turn (stops : Bool) (encoding : Encoding) (recovery : Recovery)
  | close
  deriving DecidableEq

def step : Event → Option FrameAccounts
  | .capture frame =>
    let kept := (s.frames_.queue.push_drop_oldest frame).1
    (BoundedQueue.step s.frames_ (.push_drop_oldest frame)).map fun frames_ =>
      { s with
        frames_
        captured := s.captured ++ [frame]
        uncounted := if kept then s.uncounted else s.uncounted + 1 }
  | .count =>
    if s.uncounted = 0 then none
    else some { s with
      uncounted := s.uncounted - 1, dropped_frames_ := s.dropped_frames_ + 1 }
  | .pop stop_requested =>
    if s.frame = none then
      (s.frames_.queue.pop stop_requested).bind fun (frame, _) =>
        (BoundedQueue.step s.frames_ (.pop stop_requested)).map fun frames_ =>
          { s with frames_, frame }
    else none
  | .turn stops encoding recovery =>
    s.frame.bind fun frame => s.turn config frame stops encoding recovery
  | .close => (BoundedQueue.step s.frames_ .close).map fun frames_ => { s with frames_ }

def machine : Machine FrameAccounts Event where
  init := { frames_ := (@BoundedQueue.machine VideoFrame config.video.queue_frames.toNat).init }
  step s e := s.step config e

/-- The frames that came after the queue was closed. -/
def refused : List VideoFrame := s.captured.drop s.frames_.accepted.length

/-- The frames that turns took and did one thing with. -/
def ended (what : Taken) : List VideoFrame := valuesAt what s.turns

/-- The frames that the count is about. -/
def lost : ℕ :=
  (gone .displaced s.frames_.left).length + s.refused.length + (s.ended .too_soon).length

/-- Every captured frame is in one place, turns take the frames in the order of their capture, the
pictures are what the transform has taken in that order, and the count of dropped frames lacks only
what callbacks have yet to count. -/
structure Accounted : Prop where
  places : s.captured.Perm
    (s.ended .encoded ++ s.ended .failed ++ s.ended .given_up ++ s.ended .too_soon ++
      s.frame.toList ++ gone .displaced s.frames_.left ++ gone .cleared s.frames_.left ++
      s.frames_.queue.queue ++ s.refused)
  order : (s.turns.map Prod.snd).Sublist s.captured
  pictures : s.loop.pictures.map Stamped.instant = (s.ended .encoded).map VideoFrame.instant
  uncounted : s.uncounted ≤ s.lost
  dropped : s.dropped_frames_ = UInt64.ofNat (s.lost - s.uncounted)

structure Inv : Prop where
  queue : BoundedQueue.Inv config.video.queue_frames.toNat s.frames_
  accepted : s.frames_.accepted <+: s.captured
  opened : s.frames_.queue.closed = false → s.frames_.accepted = s.captured
  popped : s.frames_.popped = s.turns.map Prod.snd ++ s.frame.toList
  pictures : s.loop.pictures.map Stamped.instant = (s.ended .encoded).map VideoFrame.instant
  uncounted : s.uncounted ≤ s.lost
  dropped : s.dropped_frames_ = UInt64.ofNat (s.lost - s.uncounted)

variable {config} {s t : FrameAccounts}

/-! ## Pushing a frame -/

/-- An open queue displaces a frame for each that it has no room for. -/
theorem displaced_push {capacity : ℕ} {h h' : History VideoFrame} {frame : VideoFrame}
    (hcapacity : 1 ≤ capacity) (hh : BoundedQueue.Inv capacity h)
    (hopen : h.queue.closed = false)
    (hstep : BoundedQueue.step h (.push_drop_oldest frame) = some h') :
    h'.popped = h.popped ∧ (gone .displaced h'.left).length =
      (gone .displaced h.left).length + if (h.queue.push_drop_oldest frame).1 then 0 else 1 := by
  simp only [BoundedQueue.step, BoundedQueue.push_drop_oldest, hopen, Bool.false_eq_true, if_false] at hstep ⊢
  by_cases hfull : h.queue.queue.length ≥ h.queue.capacity
  · rw [if_pos hfull] at hstep ⊢
    cases hstep
    have hsome : 1 ≤ h.queue.queue.length := hcapacity.trans (hh.room ▸ hfull)
    refine ⟨rfl, ?_⟩
    simp only [gone_append, gone_map, Bool.false_eq_true, if_false, if_true, List.length_append,
      List.length_take, Nat.min_eq_left hsome]
  · rw [if_neg hfull] at hstep ⊢
    cases hstep
    exact ⟨rfl, by simp⟩

theorem length_refused : s.refused.length = s.captured.length - s.frames_.accepted.length :=
  List.length_drop

theorem lost_capture (hcapacity : 1 ≤ config.video.queue_frames.toNat) (h : s.Inv config)
    {frame : VideoFrame} {frames_ : History VideoFrame} {uncounted : ℕ}
    (hpush : BoundedQueue.step s.frames_ (.push_drop_oldest frame) = some frames_) :
    frames_.popped = s.frames_.popped ∧
      lost { s with frames_, captured := s.captured ++ [frame], uncounted } =
        s.lost + if (s.frames_.queue.push_drop_oldest frame).1 then 0 else 1 := by
  obtain ⟨haccepted, hclosed⟩ := step_accepted hpush
  have hlength := h.accepted.length_le
  have hcaptured : (s.captured ++ [frame]).length = s.captured.length + 1 := List.length_append
  simp only [lost, length_refused, ended, hcaptured]
  by_cases hopen : s.frames_.queue.closed = false
  · obtain ⟨hpopped, hdisplaced⟩ := displaced_push hcapacity h.queue hopen hpush
    have hgrown : frames_.accepted.length = s.frames_.accepted.length + 1 := by
      rw [haccepted, hopen]
      exact List.length_append
    rw [hdisplaced, hgrown]
    refine ⟨hpopped, ?_⟩
    omega
  · have hshut : s.frames_.queue.closed = true := by simpa using hopen
    have hkept : (s.frames_.queue.push_drop_oldest frame).1 = false := by
      rw [BoundedQueue.push_drop_oldest, if_pos hshut]
    have hsame : frames_ = s.frames_ := by
      simp only [BoundedQueue.step, BoundedQueue.push_drop_oldest, if_pos hshut] at hpush
      exact (Option.some.inj hpush).symm
    rw [hkept, hsame]
    refine ⟨rfl, ?_⟩
    simp only [Bool.false_eq_true, if_false]
    omega

theorem inv_capture (hcapacity : 1 ≤ config.video.queue_frames.toNat) (h : s.Inv config)
    {frame : VideoFrame} (hstep : s.step config (.capture frame) = some t) : t.Inv config := by
  obtain ⟨frames_, hpush, rfl⟩ := Option.map_eq_some_iff.mp hstep
  obtain ⟨haccepted, hclosed⟩ := step_accepted hpush
  have hlost := fun uncounted => (@lost_capture _ _ hcapacity h _ _ uncounted hpush).2
  have hcounted := h.uncounted
  constructor
  · exact inv_step hcapacity h.queue hpush
  · rw [haccepted]
    by_cases hopen : s.frames_.queue.closed = false
    · rw [hopen, h.opened hopen]
      exact List.prefix_rfl
    · rw [if_pos (by simpa using hopen), List.append_nil]
      exact h.accepted.trans (List.prefix_append _ _)
  · intro hopen
    have hold : s.frames_.queue.closed = false := by simpa [hclosed, BoundedQueue.Call.closes] using hopen
    rw [haccepted, hold, h.opened hold]
    rfl
  · exact (@lost_capture _ _ hcapacity h _ _ 0 hpush).1.trans h.popped
  · exact h.pictures
  · rw [hlost]
    cases (s.frames_.queue.push_drop_oldest frame).1 with
    | true => exact hcounted
    | false => exact Nat.add_le_add_right hcounted 1
  · rw [hlost]
    cases (s.frames_.queue.push_drop_oldest frame).1 with
    | true => exact h.dropped
    | false => simpa using h.dropped

/-! ## What the encoder thread does -/

theorem displaced_step {h h' : History VideoFrame} {call : BoundedQueue.Call VideoFrame}
    (hcall : call.pushed = []) (hstep : BoundedQueue.step h call = some h') :
    gone .displaced h'.left = gone .displaced h.left := by
  cases call with
  | push_drop_oldest frame => cases hcall
  | pop stop_requested =>
    obtain ⟨⟨answer, q⟩, -, rfl⟩ := Option.map_eq_some_iff.mp hstep
    rw [gone_append, gone_map, if_neg (by decide), List.append_nil]
  | clear =>
    cases hstep
    rw [gone_append, gone_map, if_neg (by decide), List.append_nil]
  | close =>
    cases hstep
    rfl

/-- A call on the queue that is no push. -/
theorem Inv.call (hcapacity : 1 ≤ config.video.queue_frames.toNat) (h : s.Inv config)
    {call : BoundedQueue.Call VideoFrame} (hcall : call.pushed = []) {frames_ : History VideoFrame}
    {frame : Option VideoFrame} (hstep : BoundedQueue.step s.frames_ call = some frames_)
    (hpopped : frames_.popped = s.turns.map Prod.snd ++ frame.toList) :
    Inv config { s with frames_, frame } := by
  obtain ⟨haccepted, hclosed⟩ := step_accepted hstep
  have hsame : frames_.accepted = s.frames_.accepted := by
    rw [haccepted, hcall, ite_self, List.append_nil]
  have hlost : lost { s with frames_, frame } = s.lost := by
    simp only [lost, length_refused, displaced_step hcall hstep, hsame]
    rfl
  constructor
  · exact inv_step hcapacity h.queue hstep
  · rw [hsame]
    exact h.accepted
  · intro hopen
    rw [hsame]
    rw [hclosed, Bool.or_eq_false_iff] at hopen
    exact h.opened hopen.1
  · exact hpopped
  · exact h.pictures
  · rw [hlost]
    exact h.uncounted
  · rw [hlost]
    exact h.dropped

/-- A turn adds the picture of its frame when the transform takes it. -/
theorem pictures_encoder_loop {loop : EncoderLoop} {frame : VideoFrame} {stops : Bool}
    {encoding : Encoding} {recovery : Recovery} :
    ((loop.encoder_loop config frame stops encoding recovery).pictures).map Stamped.instant =
      loop.pictures.map Stamped.instant ++
        (valuesAt .encoded [(taken config loop frame stops encoding, frame)]).map
          VideoFrame.instant := by
  have hencode (pts : ℤ) :
      (loop.pictures ++ if encoding = .thrown then [] else [⟨frame.instant, pts⟩] : List Stamped).map
          Stamped.instant =
        loop.pictures.map Stamped.instant ++
          (valuesAt .encoded [(if encoding = .thrown then Taken.failed else .encoded, frame)]).map
            VideoFrame.instant := by
    rw [List.map_append, valuesAt_singleton]
    by_cases hthrown : encoding = .thrown
    · simp [hthrown]
    · simp [hthrown]
  have hnone : loop.pictures.map Stamped.instant = loop.pictures.map Stamped.instant ++ [] :=
    (List.append_nil _).symm
  simp only [EncoderLoop.encoder_loop, taken]
  by_cases hsoon : EncoderLoop.TooSoon config loop.last_capture_pts frame.pts
  · rw [if_pos hsoon, if_pos hsoon]
    exact hnone
  · rw [if_neg hsoon, if_neg hsoon]
    by_cases hsize : loop.SizeChanged frame
    · cases stops with
      | true =>
        rw [if_pos (by exact hsize), if_pos rfl, if_neg (by simp), EncoderLoop.pictures_encode]
        exact hencode _
      | false =>
        rw [if_pos (by exact hsize), if_neg (by decide), if_pos ⟨hsize, rfl⟩,
          EncoderLoop.pictures_failed]
        exact hnone
    · rw [if_neg (by exact hsize), if_neg (by simp [hsize]), EncoderLoop.pictures_encode]
      exact hencode _

/-- Nothing is lost by a turn itself but a frame that comes too soon. -/
theorem Inv.turned (h : s.Inv config) {frame : VideoFrame} {stops : Bool} {encoding : Encoding}
    {recovery : Recovery} {dropped_frames_ : UInt64} (hframe : s.frame = some frame)
    (hdropped : dropped_frames_ = s.dropped_frames_ +
      if taken config s.loop frame stops encoding = .too_soon then 1 else 0) :
    Inv config { s with
      loop := s.loop.encoder_loop config frame stops encoding recovery
      frame := none
      turns := s.turns ++ [(taken config s.loop frame stops encoding, frame)]
      dropped_frames_ } := by
  have hcounted := h.uncounted
  have hended : (valuesAt .too_soon
      (s.turns ++ [(taken config s.loop frame stops encoding, frame)])).length =
      (s.ended .too_soon).length +
        if taken config s.loop frame stops encoding = .too_soon then 1 else 0 := by
    rw [valuesAt_append, valuesAt_singleton, List.length_append, apply_ite List.length]
    rfl
  have hlost : lost { s with
      loop := s.loop.encoder_loop config frame stops encoding recovery
      frame := none
      turns := s.turns ++ [(taken config s.loop frame stops encoding, frame)]
      dropped_frames_ } =
      s.lost + if taken config s.loop frame stops encoding = .too_soon then 1 else 0 := by
    rw [lost, ended, hended, ← Nat.add_assoc]
    rfl
  refine ⟨h.queue, h.accepted, h.opened, ?_, ?_, ?_, ?_⟩
  · rw [h.popped, hframe, List.map_append]
    exact (List.append_nil _).symm
  · rw [pictures_encoder_loop, h.pictures, ended, ended, valuesAt_append, List.map_append]
  · rw [hlost]
    exact Nat.le_add_right_of_le hcounted
  · rw [hlost, hdropped, h.dropped, Nat.sub_add_comm hcounted, UInt64.ofNat_add]
    split <;> rfl

theorem inv_turn (hcapacity : 1 ≤ config.video.queue_frames.toNat) (h : s.Inv config)
    {frame : VideoFrame} {stops : Bool} {encoding : Encoding} {recovery : Recovery}
    (hframe : s.frame = some frame)
    (hturn : s.turn config frame stops encoding recovery = some t) : t.Inv config := by
  simp only [turn] at hturn
  by_cases hsoon : taken config s.loop frame stops encoding = .too_soon
  · rw [if_pos hsoon] at hturn
    cases hturn
    exact h.turned hframe (by rw [if_pos hsoon])
  · rw [if_neg hsoon] at hturn
    have hdone := @Inv.turned config s h frame stops encoding recovery
      s.dropped_frames_ hframe (by rw [if_neg hsoon, UInt64.add_zero])
    by_cases hclear : Recovers s.loop frame stops encoding ∧ recovery ≠ .stuck
    · rw [if_pos hclear] at hturn
      cases hturn
      exact @Inv.call _ _ hcapacity hdone .clear rfl _ none rfl hdone.popped
    · rw [if_neg hclear] at hturn
      cases hturn
      exact hdone

theorem inv_step (hcapacity : 1 ≤ config.video.queue_frames.toNat) (h : s.Inv config)
    {e : Event} (hstep : s.step config e = some t) : t.Inv config := by
  cases e with
  | capture frame => exact inv_capture hcapacity h hstep
  | count =>
    simp only [step] at hstep
    by_cases hnone : s.uncounted = 0
    · rw [if_pos hnone] at hstep
      cases hstep
    · rw [if_neg hnone] at hstep
      cases hstep
      have hcounted := h.uncounted
      refine ⟨h.queue, h.accepted, h.opened, h.popped, h.pictures, ?_, ?_⟩
      · exact (Nat.sub_le _ _).trans hcounted
      · change s.dropped_frames_ + 1 = UInt64.ofNat (s.lost - (s.uncounted - 1))
        have hnext : s.lost - (s.uncounted - 1) = s.lost - s.uncounted + 1 := by omega
        rw [hnext, h.dropped, UInt64.ofNat_add]
        rfl
  | pop stop_requested =>
    simp only [step] at hstep
    by_cases hfree : s.frame = none
    · rw [if_pos hfree] at hstep
      obtain ⟨⟨frame, q⟩, hpop, hmap⟩ := Option.bind_eq_some_iff.mp hstep
      obtain ⟨frames_, hcall, rfl⟩ := Option.map_eq_some_iff.mp hmap
      refine h.call hcapacity rfl hcall ?_
      simp only [BoundedQueue.step, hpop, Option.map_some] at hcall
      cases hcall
      rw [h.popped, hfree]
      simp
    · rw [if_neg hfree] at hstep
      cases hstep
  | turn stops encoding recovery =>
    obtain ⟨frame, hframe, hturn⟩ := Option.bind_eq_some_iff.mp hstep
    exact inv_turn hcapacity h hframe hturn
  | close =>
    cases hstep
    exact @Inv.call _ _ hcapacity h .close rfl _ s.frame rfl h.popped

theorem inv_init : Inv config (machine config).init where
  queue := BoundedQueue.inv_init _
  accepted := List.prefix_rfl
  opened _ := rfl
  popped := rfl
  pictures := rfl
  uncounted := Nat.zero_le _
  dropped := rfl

/-! ## The account -/

theorem Inv.captured (h : s.Inv config) :
    s.captured = s.frames_.left.map Prod.snd ++ s.frames_.queue.queue ++ s.refused := by
  rw [← h.queue.recent]
  exact (List.prefix_iff_eq_append.mp h.accepted).symm

theorem Inv.places (h : s.Inv config) : s.captured.Perm
    (s.ended .encoded ++ s.ended .failed ++ s.ended .given_up ++ s.ended .too_soon ++
      s.frame.toList ++ gone .displaced s.frames_.left ++ gone .cleared s.frames_.left ++
      s.frames_.queue.queue ++ s.refused) := by
  have hturns : (s.turns.map Prod.snd).Perm
      (s.ended .encoded ++ s.ended .failed ++ s.ended .given_up ++ s.ended .too_soon) :=
    perm_valuesAt (by decide : [Taken.encoded, .failed, .given_up, .too_soon].Nodup)
      fun entry _ => by cases entry.1 <;> decide
  have hleft : (s.frames_.left.map Prod.snd).Perm (gone .popped s.frames_.left ++
      gone .displaced s.frames_.left ++ gone .cleared s.frames_.left) :=
    perm_valuesAt (by decide : [Fate.popped, .displaced, .cleared].Nodup)
      fun entry _ => by cases entry.1 <;> decide
  rw [← h.queue.popped, h.popped] at hleft
  have hplaces := hleft.trans (((hturns.append_right _).append_right _).append_right _)
  rw [h.captured]
  exact (hplaces.append_right _).append_right _

theorem Inv.accounted (h : s.Inv config) : s.Accounted where
  places := h.places
  order := by
    have htaken : (s.turns.map Prod.snd).Sublist s.frames_.popped :=
      h.popped ▸ List.sublist_append_left _ _
    have hleft : s.frames_.popped.Sublist (s.frames_.left.map Prod.snd) :=
      h.queue.popped ▸ gone_sublist _ _
    rw [h.captured, List.append_assoc]
    exact (htaken.trans hleft).trans (List.sublist_append_left _ _)
  pictures := h.pictures
  uncounted := h.uncounted
  dropped := h.dropped

/-- Every run is accounted for. -/
theorem accounted_run (hcapacity : 1 ≤ config.video.queue_frames.toNat) {es : List Event}
    (hrun : (machine config).run es = some s) : s.Accounted :=
  (Machine.invariant (I := Inv config) (fun _ _ _ h hstep => inv_step hcapacity h hstep)
    hrun inv_init).accounted

def twoFrames : Config :=
  { ({} : Config) with video := { ({} : Config).video with queue_frames := 2 } }

def picture (pts : ℤ) : VideoFrame := ⟨1920, 1080, pts, pts⟩

/-- A frame comes too soon, one is displaced, three turns fail, the recovery clears a frame, and one
comes after the queue is closed. -/
def lostRun : List Event :=
  [.capture (picture 1000000), .capture (picture 1000100), .pop false, .turn true .returned .stuck,
    .pop false, .turn true .returned .stuck,
    .capture (picture 2000000), .capture (picture 2200000), .capture (picture 2400000), .count,
    .pop false, .turn true .thrown .stuck, .pop false, .turn true .taken .stuck,
    .capture (picture 2600000), .pop false, .capture (picture 2800000),
    .turn true .thrown .completed, .close, .capture (picture 3000000)]

theorem lostRun_accepted : ((machine twoFrames).run lostRun).isSome := by decide +kernel

theorem accounted_run_lostRun :
    (((machine twoFrames).run lostRun).get lostRun_accepted).Accounted :=
  accounted_run (by decide) (Option.some_get lostRun_accepted).symm

end FrameAccounts
end GambitRecord.Recorder
