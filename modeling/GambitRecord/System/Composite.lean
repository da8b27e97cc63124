import GambitRecord.Library.Runs
import GambitRecord.Plugin.Globals

/-! # The plugin and its worker

One machine of both programs: an event at the plugin with the requests it sends,
a step of the worker's threads, and a new worker in place of one that died. The
history keeps the punishments that were confirmed before and since the last
recording was started, and counts the accepted starts.
-/

namespace GambitRecord
open Library Library.Runs Recorder Plugin

structure System where
  plugin : Globals
  worker : Worker := {}
  earlier : List Punishment := []
  since : List Punishment := []
  starts : ℕ := 0

namespace System

inductive Event where
  | plugin (event : Globals.Event) (clock : Clock) (call second : PipeCall)
  | thread (step : ThreadStep)
  | worker_restarted
  deriving DecidableEq

/-- The request reaches the worker, which starts a recording. -/
def accepted (worker : Worker) (request : Request) (call : PipeCall) : Bool :=
  match request with
  | .record_start _ =>
    (call.link = .answered ∨ call.link = .unread) ∧ worker.capture_ready ∧
      worker.session.state = .Stopped
  | _ => false

def send (page : CodePage) (s : System) (clock : Clock) (request : Request) (call : PipeCall) :
    Option (System × Option Request) :=
  (s.worker.request_worker page request call).map fun answer =>
    let received := s.plugin.receive clock answer.2 request
    if accepted s.worker request call then
      ({ plugin := received.1, worker := answer.1, earlier := s.earlier ++ s.since, since := []
         starts := s.starts + 1 }, received.2)
    else ({ s with plugin := received.1, worker := answer.1 }, received.2)

/-- A status response may be followed by one more request. -/
def dispatch (page : CodePage) (s : System) (clock : Clock) (call second : PipeCall) :
    Option Request → Option System
  | none => some s
  | some request =>
    (s.send page clock request call).bind fun sent =>
      match sent.2 with
      | none => some sent.1
      | some next => (sent.1.send page clock next second).map Prod.fst

def confirmation (logic : Logic) (clock : Clock) : Globals.Event → List Punishment
  | .server_message message =>
    (logic.pending.filter fun pending =>
      clock.steady - pending.sent_at ≤ Logic.window ∧
        Logic.confirms_punishment message logic.admin).toList
  | _ => []

def step (page : CodePage) (s : System) : Event → Option System
  | .plugin event clock call second =>
    (s.plugin.react clock event).bind fun reaction =>
      { s with
        plugin := reaction.1
        since := s.since ++ confirmation s.plugin.logic clock event }.dispatch
          page clock call second reaction.2
  | .thread step => (s.worker.threadStep page step).map fun worker => { s with worker }
  | .worker_restarted => some { s with worker := {} }

def machine (page : CodePage) (admin : Bytes) : Machine System Event where
  init := { plugin := .start admin }
  step := step page

/-- `accepted` is what the worker answers to a start that reaches it. -/
theorem accepted_iff {page : CodePage} {worker w : Worker} {metadata : EvidenceMetadata}
    {during : List ThreadStep} {reply : Reply}
    (h : worker.record_start page metadata during = some (w, reply)) :
    reply.success = true ↔ accepted worker (.record_start metadata) {} = true := by
  unfold Worker.record_start at h
  by_cases hready : worker.capture_ready = true
  · by_cases hstate : worker.session.state = .Stopped
    · simp only [hready, RecordingSession.claim, hstate, if_true, not_true_eq_false, if_false,
        Option.bind_eq_some_iff] at h
      rcases h with ⟨m, -, hm⟩
      split at hm
      · cases hm
      · cases hm
        simp [accepted, hready, hstate]
    · simp only [hready, RecordingSession.claim, hstate, if_false, not_true_eq_false] at h
      cases h
      simp [accepted, hstate]
  · simp only [hready] at h
    cases h
    simp [accepted, hready]

end System
end GambitRecord
