import GambitRecord.Library.Lines
import GambitRecord.Recorder.IpcServer

/-! # The plugin's end of the pipe

`IpcClient::request`: a message is sent as one line of JSON under the protocol's
number, and a line is read back by a loop like the server's.
-/

namespace GambitRecord.Plugin.IpcClient
open Library Recorder

/-- `message["protocol"] = 1`; it throws unless the message is an object or null. -/
def with_protocol : Json → Option Json
  | .object members =>
    some (.object (Json.insertMember (Utf8.bytes "protocol") (.ofInt32 1) members))
  | .scalar .null => some (.object [(Utf8.bytes "protocol", .ofInt32 1)])
  | _ => none

/-- `dump() + "\n"`. -/
def wire (json : Json) : Option Bytes :=
  (json.dump none).map fun body => Utf8.encode (body ++ ['\n'])

def failed (error : String) : Json :=
  .object
    [(Utf8.bytes "error", .string (Utf8.bytes error)), (Utf8.bytes "success", .ofBool false)]

/-- What the pipe does: it cannot be opened, does not take the message, or takes it and brings
these bytes. -/
inductive Pipe where
  | offline
  | unwritable
  | served (chunks : List IpcServer.Chunk)

def max_response : ℕ := 64 * 1024

def receive (chunks : List IpcServer.Chunk) : Bytes :=
  Lines.gather max_response 10 [] (chunks.map IpcServer.Chunk.bytes)

def read_response (response : Bytes) : Json :=
  (Json.parseBytes (IpcServer.line response)).getD (failed "INVALID_WORKER_RESPONSE")

/-- The message is not sent when setting its protocol or `dump` throws. -/
def request (pipe : Pipe) (message : Json) : Option Json :=
  match pipe with
  | .offline => some (failed "WORKER_OFFLINE")
  | .unwritable => ((with_protocol message).bind wire).map fun _ => failed "IPC_WRITE_FAILED"
  | .served chunks => ((with_protocol message).bind wire).map fun _ =>
    read_response (receive chunks)

end GambitRecord.Plugin.IpcClient
