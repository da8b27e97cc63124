import Mathlib.Data.Int.Order.Basic

/-! # Media samples

The shared records of `common/Media.hpp` and a state of `common/States.hpp`. Time
stamps are in units of 100 ns; a sample without a byte buffer is one with an empty
buffer.
-/

namespace GambitRecord.Recorder

def HnsPerSecond : ℤ := 10000000

inductive TrackKind where
  | video | audio
  deriving DecidableEq

structure EncodedSample where
  track : TrackKind
  pts : ℤ
  duration : ℤ
  keyframe : Bool
  bytes : List UInt8
  deriving DecidableEq

inductive ReplayState where
  | Stopped | Starting | Running | Saving | Error
  deriving DecidableEq

/-- The fields that decide whether a capture is ready and which streams a file has. -/
structure StreamDescription where
  width : UInt32 := 0
  height : UInt32 := 0
  has_audio : Bool := false
  deriving DecidableEq

namespace EncodedSample

def «end» (sample : EncodedSample) : ℤ := sample.pts + sample.duration

def isVideoKeyframe (sample : EncodedSample) : Bool := sample.track = .video ∧ sample.keyframe

end EncodedSample
end GambitRecord.Recorder
