import GambitRecord.Library.Runs
import GambitRecord.Recorder.RecordingSession

/-! # The worker's recording commands

The parts of `Application` that touch the recording session: the commands
`record_start`, `record_stop` and `status` on the pipe thread, and the encoder
thread, which feeds samples and stops the session when the capture changes. A
command reads the atomic state and takes the mutex at separate moments; the
steps the encoder thread takes in between are its `during` argument.
-/

namespace GambitRecord.Recorder
open Library Library.Runs

/-- The `error` fields of a response that the plugin can receive. -/
inductive ErrorCode where
  | CAPTURE_NOT_READY | NOT_RECORDING | BAD_REQUEST
  | WORKER_OFFLINE | IPC_WRITE_FAILED | INVALID_WORKER_RESPONSE
  deriving DecidableEq

/-- The fields of a response that decide what the plugin does next. -/
structure Reply where
  success : Bool
  error : Option ErrorCode := none
  capture : Bool := false
  recording : Bool := false
  deriving DecidableEq

inductive Request where
  | record_start (metadata : EvidenceMetadata)
  | record_stop (upload : Bool) (metadata : EvidenceMetadata)
  | status
  deriving DecidableEq

/-- `recent_frame` stands for a running capture with a frame encoded in the last three seconds.
`failed` is history: the session's work on a file has failed and no stop has completed since. -/
structure Worker where
  session : RecordingSession := {}
  recent_frame : Bool := false
  description : StreamDescription := {}
  failed : Bool := false
  deriving DecidableEq

inductive ThreadStep where
  | on_sample (sample : EncodedSample) (sink : Sink)
  | begin_stop
  | end_stop (finalizes : Bool)
  | capture (recent_frame : Bool) (description : StreamDescription)
  deriving DecidableEq

namespace Worker

def capture_ready (worker : Worker) : Bool := worker.recent_frame ∧ worker.description.width ≠ 0

/-- The session's mutex is held while it is `Stopping`. -/
def threadStep (page : CodePage) (worker : Worker) : ThreadStep → Option Worker
  | .on_sample sample sink =>
    if worker.session.state = .Stopping then none
    else some
      { worker with
        session := worker.session.on_sample page sample sink
        failed := worker.failed ∨ (worker.session.take_sample page sample sink).2 }
  | .begin_stop =>
    if worker.session.state = .Stopping ∨ worker.session.state = .Stopped then none
    else some { worker with session := worker.session.begin_stop }
  | .end_stop finalizes =>
    if worker.session.state = .Stopping then
      some
        { worker with
          session := (worker.session.end_stop page finalizes).1
          failed := (worker.session.finalize finalizes).2 }
    else none
  | .capture recent_frame description => some { worker with recent_frame, description }

def threads (page : CodePage) : Machine Worker ThreadStep where
  init := {}
  step := threadStep page

def record_start (page : CodePage) (worker : Worker) (metadata : EvidenceMetadata)
    (during : List ThreadStep) : Option (Worker × Reply) :=
  if ¬ worker.capture_ready then some (worker, ⟨false, some .CAPTURE_NOT_READY, false, false⟩)
  else match worker.session.claim with
  | none => some (worker, ⟨false, none, false, false⟩)
  | some claimed =>
    ((threads page).runFrom { worker with session := claimed } during).bind fun w =>
      if w.session.state = .Stopping then none
      else
        some ({ w with session := w.session.prepare metadata worker.description },
          ⟨true, none, false, false⟩)

def stop (page : CodePage) (worker : Worker) (finalizes : Bool) : Worker × Option WidePath :=
  ({ worker with
      session := (worker.session.stop page finalizes).1
      failed :=
        if worker.session.state = .Stopped then worker.failed
        else (worker.session.finalize finalizes).2 }, (worker.session.stop page finalizes).2)

/-- `completes` says that queueing the upload and the archive limit do not throw. -/
def record_stop (page : CodePage) (worker : Worker) (during : List ThreadStep)
    (finalizes completes : Bool) : Option (Worker × Reply) :=
  if worker.session.state = .Stopped then
    some (worker, ⟨false, some .NOT_RECORDING, false, false⟩)
  else
    ((threads page).runFrom worker during).bind fun w =>
      if w.session.state = .Stopping then none
      else
        match (w.stop page finalizes).2 with
        | none => some ((w.stop page finalizes).1, ⟨false, some .BAD_REQUEST, false, false⟩)
        | some path =>
          if path ≠ [] ∧ ¬ completes then
            some ((w.stop page finalizes).1, ⟨false, some .BAD_REQUEST, false, false⟩)
          else some ((w.stop page finalizes).1, ⟨path ≠ [], none, false, false⟩)

/-- The two reads of the state for the `recording` field. -/
def status (page : CodePage) (worker : Worker) (during : List ThreadStep) :
    Option (Worker × Reply) :=
  ((threads page).runFrom worker during).map fun w =>
    (w, ⟨true, none, worker.capture_ready,
      worker.session.state = .Recording ∨ w.session.state = .WaitingForKeyframe⟩)

end Worker

/-- How a request of the plugin fares on the pipe. -/
inductive Link where
  | answered
  /-- no pipe to connect to -/
  | offline
  /-- the request did not get through -/
  | unsent
  /-- the request was handled, its response was not read -/
  | unread
  deriving DecidableEq

/-- What the environment decides about one request. -/
structure PipeCall where
  link : Link := .answered
  during : List ThreadStep := []
  finalizes : Bool := true
  completes : Bool := true
  deriving DecidableEq

namespace Worker

def handle_command (page : CodePage) (worker : Worker) (request : Request) (call : PipeCall) :
    Option (Worker × Reply) :=
  match request with
  | .record_start metadata => worker.record_start page metadata call.during
  | .record_stop _ _ => worker.record_stop page call.during call.finalizes call.completes
  | .status => worker.status page call.during

/-- `IpcClient::request`, with the worker at the other end of the pipe. -/
def request_worker (page : CodePage) (worker : Worker) (request : Request) (call : PipeCall) :
    Option (Worker × Reply) :=
  match call.link with
  | .answered => worker.handle_command page request call
  | .offline => some (worker, ⟨false, some .WORKER_OFFLINE, false, false⟩)
  | .unsent => some (worker, ⟨false, some .IPC_WRITE_FAILED, false, false⟩)
  | .unread =>
    (worker.handle_command page request call).map fun answer =>
      (answer.1, ⟨false, some .INVALID_WORKER_RESPONSE, false, false⟩)

end Worker
end GambitRecord.Recorder
