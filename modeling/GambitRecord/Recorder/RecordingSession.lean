import GambitRecord.Library.CodePage
import GambitRecord.Recorder.Media
import GambitRecord.Recorder.UploadJob

/-! # The recording session

`RecordingSession` with its `Mp4Muxer`. What Media Foundation and the file system
answer is an input of each operation, so that every call may fail; a call that
throws says so and leaves the state its handlers leave. `start` is its
compare-exchange, `claim`, and the part under the mutex, `prepare`; a `stop` is
`Stopping` while it finalizes.
-/

namespace GambitRecord.Recorder
open Library

inductive RecordingState where
  | Stopped | WaitingForKeyframe | Recording | Stopping | Error
  deriving DecidableEq

/-- The sink writer, whether its streams are finished, and the samples written to it. -/
structure Mp4Muxer where
  writer : Bool := false
  has_audio : Bool := false
  finalized : Bool := true
  written : List EncodedSample := []
  deriving DecidableEq

namespace Mp4Muxer

def «open» (muxer : Mp4Muxer) (description : StreamDescription) (opens : Bool) :
    Option Mp4Muxer :=
  if muxer.writer then none
  else if ¬ opens then none
  else some { muxer with writer := true, has_audio := description.has_audio, finalized := false }

/-- Audio without an audio stream is dropped. -/
def write (muxer : Mp4Muxer) (sample : EncodedSample) (writes : Bool) : Option Mp4Muxer :=
  if ¬ muxer.writer ∨ muxer.finalized then none
  else if ¬ writes then none
  else if sample.track = .video ∨ muxer.has_audio then
    some { muxer with written := muxer.written ++ [sample] }
  else some muxer

/-- The muxer, and whether `Finalize` failed; after a failure it counts as finalized. -/
def finalize (muxer : Mp4Muxer) (finalizes : Bool) : Mp4Muxer × Bool :=
  if ¬ muxer.writer ∨ muxer.finalized then (muxer, false)
  else if finalizes then ({ muxer with finalized := true, writer := false }, false)
  else ({ muxer with finalized := true }, true)

end Mp4Muxer

/-- The path `evidence_filename` makes; it always names a file. -/
structure Filename where
  path : WidePath
  ne_nil : path ≠ []
  deriving DecidableEq

/-- What the file system and the sink writer answer to a sample; no file name when
`evidence_filename` throws. -/
structure Sink where
  filename : Option Filename
  opens : Bool
  writes : Bool
  deriving DecidableEq

structure RecordingSession where
  state : RecordingState := .Stopped
  muxer : Option Mp4Muxer := none
  pending_metadata : EvidenceMetadata := {}
  pending_description : StreamDescription := {}
  path : WidePath := []
  base_pts : ℤ := 0
  duration_hns : ℤ := 0
  deriving DecidableEq

namespace RecordingSession

def claim (session : RecordingSession) : Option RecordingSession :=
  if session.state = .Stopped then some { session with state := .WaitingForKeyframe } else none

def prepare (session : RecordingSession) (metadata : EvidenceMetadata)
    (description : StreamDescription) : RecordingSession :=
  { session with
    pending_metadata := metadata
    pending_description := description
    path := []
    duration_hns := 0 }

/-- The file of a recording is opened at its first video keyframe. The second component says
that the body of the `try` threw; the log line converts the path. -/
def begin_recording (page : CodePage) (session : RecordingSession) (sample : EncodedSample)
    (sink : Sink) : RecordingSession × Bool :=
  match sink.filename with
  | none => (session, true)
  | some filename =>
    let session :=
      { session with path := filename.path, base_pts := sample.pts, muxer := some {} }
    match Mp4Muxer.open {} session.pending_description sink.opens with
    | none => (session, true)
    | some muxer =>
      ({ session with muxer := some muxer, state := .Recording },
        (page.encode filename.path).isNone)

def write_sample (session : RecordingSession) (sample : EncodedSample) (sink : Sink) :
    RecordingSession × Bool :=
  if session.base_pts ≤ sample.pts then
    let rebased := { sample with pts := sample.pts - session.base_pts }
    match (session.muxer.getD {}).write rebased sink.writes with
    | none => (session, true)
    | some muxer =>
      ({ session with
          muxer := some muxer
          duration_hns := max session.duration_hns rebased.end }, false)
  else (session, false)

/-- The body of the `try` of `on_sample`. -/
def take_sample (page : CodePage) (session : RecordingSession) (sample : EncodedSample)
    (sink : Sink) : RecordingSession × Bool :=
  match session.state with
  | .WaitingForKeyframe =>
    if ¬ sample.isVideoKeyframe then (session, false)
    else
      let opened := begin_recording page session sample sink
      if opened.2 then opened else write_sample opened.1 sample sink
  | .Recording => write_sample session sample sink
  | _ => (session, false)

def on_sample (page : CodePage) (session : RecordingSession) (sample : EncodedSample)
    (sink : Sink) : RecordingSession :=
  let taken := take_sample page session sample sink
  if taken.2 then { taken.1 with state := .Error, muxer := none } else taken.1

/-- `stop` up to `finalize`; nothing to do when the session is stopped. -/
def begin_stop (session : RecordingSession) : RecordingSession :=
  if session.state = .Stopped then session else { session with state := .Stopping }

/-- The muxer's `finalize` in `stop`, and whether it threw. -/
def finalize (session : RecordingSession) (finalizes : Bool) : Option Mp4Muxer × Bool :=
  match session.muxer with
  | none => (none, false)
  | some muxer => (some (muxer.finalize finalizes).1, (muxer.finalize finalizes).2)

/-- The rest of `stop`: the path it returns, or nothing when the log line cannot convert it. -/
def end_stop (page : CodePage) (session : RecordingSession) (finalizes : Bool) :
    RecordingSession × Option WidePath :=
  if (session.finalize finalizes).2 then
    ({ session with state := .Error, muxer := (session.finalize finalizes).1 }, some [])
  else
    ({ session with state := .Stopped, muxer := none },
      (page.encode session.path).map fun _ => session.path)

def stop (page : CodePage) (session : RecordingSession) (finalizes : Bool) :
    RecordingSession × Option WidePath :=
  if session.state = .Stopped then (session, some [])
  else end_stop page session.begin_stop finalizes

end RecordingSession
end GambitRecord.Recorder
