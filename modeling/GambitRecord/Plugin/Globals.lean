import GambitRecord.Plugin.Logic
import GambitRecord.Recorder.Application

/-! # The plugin's globals

The globals of `Plugin.cpp` that decide its requests, and what each hook, button
and poll makes of them: the next globals and the request that is sent to the
worker. `receive` is what follows a response. Requests are serialized by the
plugin, so `g_start_requesting` is clear whenever one begins.
-/

namespace GambitRecord.Plugin
open Library Library.DigitText Recorder

/-- The steady clock in nanoseconds, the system clock in 100 ns and the local time stamp. -/
structure Clock where
  steady : ℤ
  system : ℤ
  stamp : Bytes
  deriving DecidableEq

inductive Prompt where
  | none | start | finish | missing
  deriving DecidableEq

structure Globals where
  logic : Logic := {}
  admin : Bytes := []
  recording : Bool := false
  worker_online : Bool := false
  capture_ready : Bool := false
  start_pending : Bool := false
  menu_open : Bool := false
  prompt : Prompt := .none
  record_started : ℤ := 0

namespace Globals

/-- The thread that starts the hooks names the player. -/
def start (admin : Bytes) : Globals := { admin, logic := { admin } }

def elapsed_period (plugin : Globals) (clock : Clock) : Bytes :=
  if plugin.record_started = 0 then []
  else
    Utf8.encode (decimal ((clock.system - plugin.record_started).tdiv 10000000).toNat) ++
      Utf8.bytes " seconds"

def metadata (plugin : Globals) (clock : Clock) : EvidenceMetadata where
  admin := plugin.admin
  target_id := plugin.logic.target_id
  target_name := plugin.logic.target_name
  server := Utf8.bytes "Gambit Role Play"
  timestamp := clock.stamp
  punishment_command := plugin.logic.confirmed_command
  punishment_reason := plugin.logic.confirmed_reason
  recording_period := plugin.elapsed_period clock

def start_recording_now (plugin : Globals) (clock : Clock) : Globals × Option Request :=
  (plugin, some (.record_start (plugin.metadata clock)))

def start_recording (plugin : Globals) (clock : Clock) : Globals × Option Request :=
  if ¬ plugin.worker_online ∨ ¬ plugin.capture_ready then
    ({ plugin with start_pending := true }, none)
  else plugin.start_recording_now clock

def stop_recording (plugin : Globals) (upload : Bool) (clock : Clock) : Globals × Option Request :=
  (plugin, some (.record_stop upload (plugin.metadata clock)))

def apply_action (plugin : Globals) (clock : Clock) : Action → Globals × Option Request
  | .open_settings => ({ plugin with menu_open := ¬ plugin.menu_open }, none)
  | .start_recording => plugin.start_recording clock
  | .stop_local => plugin.stop_recording false clock
  | .show_start_prompt => ({ plugin with prompt := .start }, none)
  | .show_finish_prompt => ({ plugin with prompt := .finish }, none)
  | .show_missing_evidence => ({ plugin with prompt := .missing }, none)
  | .none => (plugin, none)
  | .stop_and_upload => (plugin, none)

/-- What reaches the plugin: a line typed in the chat, the messages of the game server, the
buttons it shows, and the wake-up of its status loop. -/
inductive Event where
  | typed (line : Bytes)
  | player_joined (id : UInt16) (nickname : Bytes)
  | server_message (message : Bytes)
  | spectating (id : UInt16) (nickname : Bytes)
  | spectating_ended
  | menu_start
  | menu_stop (upload : Bool)
  | menu_close
  | prompt_start
  | prompt_stop (upload : Bool)
  | prompt_close
  | poll
  deriving DecidableEq

def on_typed (plugin : Globals) (line : Bytes) (clock : Clock) : Globals × Option Request :=
  let (logic, action) := plugin.logic.on_command line plugin.recording clock.steady
  apply_action { plugin with logic } clock action

def on_server_message (plugin : Globals) (message : Bytes) (clock : Clock) : Globals :=
  let (logic, action) := plugin.logic.on_server_message message plugin.recording clock.steady
  { plugin with
    logic
    prompt :=
      if action = .show_finish_prompt then .finish
      else if action = .show_missing_evidence then .missing
      else plugin.prompt }

def on_spectating (plugin : Globals) (id : UInt16) (nickname : Bytes) : Globals :=
  let id := Int32.ofNat id.toNat
  let named := if nickname.isEmpty then plugin.logic else plugin.logic.on_player_name id nickname
  let (logic, action) := named.on_spectating_player id plugin.recording
  { plugin with logic, prompt := if action = .show_start_prompt then .start else plugin.prompt }

/-- The plugin's part of an event; nothing happens to a button that is not shown. -/
def react (plugin : Globals) (clock : Clock) : Event → Option (Globals × Option Request)
  | .typed line => some (plugin.on_typed line clock)
  | .player_joined id nickname =>
    some ({ plugin with
      logic := plugin.logic.on_player_name (Int32.ofNat id.toNat) nickname }, none)
  | .server_message message => some (plugin.on_server_message message clock, none)
  | .spectating id nickname => some (plugin.on_spectating id nickname, none)
  | .spectating_ended => some ({ plugin with logic := plugin.logic.clear_spectating }, none)
  | .menu_start =>
    if plugin.menu_open ∧ ¬ plugin.recording then some (plugin.start_recording clock) else none
  | .menu_stop upload =>
    if plugin.menu_open ∧ plugin.recording then some (plugin.stop_recording upload clock) else none
  | .menu_close => some ({ plugin with menu_open := false }, none)
  | .prompt_start =>
    if plugin.prompt = .start then some ({ plugin with prompt := .none }.start_recording clock)
    else none
  | .prompt_stop upload =>
    if plugin.prompt = .finish then
      some ({ plugin with prompt := .none }.stop_recording upload clock)
    else none
  | .prompt_close => some ({ plugin with prompt := .none }, none)
  | .poll => some (plugin, some .status)

/-- The end of `start_recording_now`; a missing error reads as `"unknown"`. -/
def started (plugin : Globals) (clock : Clock) (reply : Reply) : Globals :=
  if reply.success then
    { plugin with start_pending := false, record_started := clock.system, recording := true }
  else if reply.error = some .WORKER_OFFLINE then
    { plugin with worker_online := false, start_pending := true }
  else { plugin with start_pending := reply.error = some .CAPTURE_NOT_READY }

def stopped (plugin : Globals) (reply : Reply) : Globals :=
  if reply.success then { plugin with recording := false } else plugin

/-- One turn of `status_loop` after its response; a pending start is sent as soon as the capture
is ready. -/
def polled (plugin : Globals) (clock : Clock) (reply : Reply) : Globals × Option Request :=
  if reply.success then
    let plugin :=
      { plugin with
        worker_online := true
        capture_ready := reply.capture
        recording := reply.recording }
    if plugin.start_pending ∧ plugin.capture_ready ∧ ¬ plugin.recording then
      plugin.start_recording_now clock
    else (plugin, none)
  else ({ plugin with worker_online := false, capture_ready := false }, none)

def receive (plugin : Globals) (clock : Clock) (reply : Reply) :
    Request → Globals × Option Request
  | .record_start _ => (plugin.started clock reply, none)
  | .record_stop _ _ => (plugin.stopped reply, none)
  | .status => plugin.polled clock reply

end Globals
end GambitRecord.Plugin
