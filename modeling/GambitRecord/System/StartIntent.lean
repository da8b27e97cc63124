import GambitRecord.System.Composite

/-! # Starts and the user's last request

The plugin against a worker that may answer anything, beside what the user asked
for last. The history keeps, for every `record_start` that is sent, the user's
last request at that time.
-/

namespace GambitRecord
open Library Library.Runs Recorder Plugin

/-- What the user may ask for. -/
inductive Wish where
  | start | stop
  deriving DecidableEq

structure StartIntent where
  plugin : Globals
  last : Option Wish := none
  sent : List (Option Wish) := []

namespace StartIntent

/-- An event at the plugin, with the answers to the requests that follow. -/
structure Turn where
  event : Globals.Event
  clock : Clock
  reply : Reply
  second : Reply
  deriving DecidableEq

/-- The commands and the buttons that ask for a start or a stop. -/
def wish : Globals.Event → Option Wish
  | .typed line =>
    if lower_ascii (first_word line) = Utf8.bytes "/estart" then some .start
    else if lower_ascii (first_word line) = Utf8.bytes "/estop" then some .stop
    else none
  | .menu_start | .prompt_start => some .start
  | .menu_stop _ | .prompt_stop _ => some .stop
  | _ => none

def starts : Request → Bool
  | .record_start _ => true
  | _ => false

def send (s : StartIntent) (clock : Clock) (request : Request) (reply : Reply) :
    StartIntent × Option Request :=
  let received := s.plugin.receive clock reply request
  ({ s with
      plugin := received.1
      sent := s.sent ++ if starts request then [s.last] else [] }, received.2)

def dispatch (s : StartIntent) (clock : Clock) (reply second : Reply) :
    Option Request → StartIntent
  | none => s
  | some request =>
    match (s.send clock request reply).2 with
    | none => (s.send clock request reply).1
    | some next => ((s.send clock request reply).1.send clock next second).1

def step (s : StartIntent) (turn : Turn) : Option StartIntent :=
  (s.plugin.react turn.clock turn.event).map fun reaction =>
    { s with plugin := reaction.1, last := (wish turn.event).or s.last }.dispatch
      turn.clock turn.reply turn.second reaction.2

def machine (admin : Bytes) : Machine StartIntent Turn where
  init := { plugin := .start admin }
  step := step

/-- A start is sent only when the user's last request was one. -/
def FollowsUser (s : StartIntent) : Prop := ∀ last ∈ s.sent, last = some .start

instance : DecidablePred FollowsUser :=
  fun s => inferInstanceAs (Decidable (∀ last ∈ s.sent, last = some .start))

/-- No stop is asked for while a start is pending. -/
def NotWaiting (s : StartIntent) (turn : Turn) : Prop :=
  wish turn.event = some .stop → s.plugin.start_pending = false

instance (s : StartIntent) : DecidablePred s.NotWaiting :=
  fun turn => inferInstanceAs (Decidable (wish turn.event = some .stop → _))

structure Inv (s : StartIntent) : Prop where
  sent : s.FollowsUser
  pending : s.plugin.start_pending = true → s.last = some .start

section React
variable {plugin after : Globals} {clock : Clock} {request : Option Request}

theorem on_command_start {logic : Logic} {line : Bytes} {recording : Bool} {now : ℤ}
    (h : (logic.on_command line recording now).2 = .start_recording) :
    wish (.typed line) = some .start := by
  apply if_pos
  by_contra hstart
  unfold Logic.on_command at h
  simp only [hstart, if_false] at h
  split_ifs at h

theorem apply_action_cases (plugin : Globals) (clock : Clock) {action : Action}
    (h : action ≠ .start_recording) :
    (plugin.apply_action clock action).1.start_pending = plugin.start_pending ∧
      ∀ metadata, (plugin.apply_action clock action).2 ≠ some (.record_start metadata) := by
  cases action <;> first | exact absurd rfl h | exact ⟨rfl, by simp [Globals.apply_action,
    Globals.stop_recording]⟩

/-- A typed line leaves the pending start as it is or asks for one. -/
theorem on_typed_cases (plugin : Globals) (line : Bytes) (clock : Clock) :
    wish (.typed line) = some .start ∨
      (plugin.on_typed line clock).1.start_pending = plugin.start_pending ∧
        ∀ metadata, (plugin.on_typed line clock).2 ≠ some (.record_start metadata) := by
  by_cases haction :
      (plugin.logic.on_command line plugin.recording clock.steady).2 = .start_recording
  · exact .inl (on_command_start haction)
  · exact .inr (apply_action_cases _ clock haction)

/-- Only a wish for a start begins one or leaves one pending. -/
theorem react_cases {event : Globals.Event}
    (h : plugin.react clock event = some (after, request)) :
    wish event = some .start ∨
      after.start_pending = plugin.start_pending ∧
        ∀ metadata, request ≠ some (.record_start metadata) := by
  cases event with
  | typed line =>
    rw [Globals.react, Option.some_inj] at h
    have hcases := on_typed_cases plugin line clock
    rw [h] at hcases
    exact hcases
  | menu_start => exact .inl rfl
  | prompt_start => exact .inl rfl
  | player_joined id nickname =>
    cases h
    exact .inr ⟨rfl, by simp⟩
  | server_message message =>
    cases h
    exact .inr ⟨rfl, by simp⟩
  | spectating id nickname =>
    cases h
    exact .inr ⟨rfl, by simp⟩
  | spectating_ended =>
    cases h
    exact .inr ⟨rfl, by simp⟩
  | menu_stop upload =>
    simp only [Globals.react, Option.ite_none_right_eq_some, Option.some_inj] at h
    obtain ⟨-, h⟩ := h
    cases h
    exact .inr ⟨rfl, by simp⟩
  | menu_close =>
    cases h
    exact .inr ⟨rfl, by simp⟩
  | prompt_stop upload =>
    simp only [Globals.react, Option.ite_none_right_eq_some, Option.some_inj] at h
    obtain ⟨-, h⟩ := h
    cases h
    exact .inr ⟨rfl, by simp⟩
  | prompt_close =>
    cases h
    exact .inr ⟨rfl, by simp⟩
  | poll =>
    cases h
    exact .inr ⟨rfl, by simp⟩

end React

section Invariant
variable {s t : StartIntent} {clock : Clock}

/-- The answer to a start decides whether it stays pending; it is what the user asked for. -/
theorem inv_send_start (h : Inv s) (hlast : s.last = some .start) (metadata : EvidenceMetadata)
    (reply : Reply) : Inv (s.send clock (.record_start metadata) reply).1 := by
  constructor
  · intro last hmem
    rcases List.mem_append.mp hmem with hold | hnew
    · exact h.sent last hold
    · rw [List.mem_singleton.mp hnew, hlast]
  · exact fun _ => hlast

theorem inv_send_other (h : Inv s) {plugin : Globals}
    (hpending : plugin.start_pending = s.plugin.start_pending) :
    Inv { s with plugin, sent := s.sent ++ [] } := by
  rw [List.append_nil]
  exact ⟨h.sent, fun hwaiting => h.pending (hpending ▸ hwaiting)⟩

theorem polled_start_pending (plugin : Globals) (clock : Clock) (reply : Reply) :
    (plugin.polled clock reply).1.start_pending = plugin.start_pending ∧
      ∀ request, (plugin.polled clock reply).2 = some request →
        plugin.start_pending = true ∧ ∃ metadata, request = .record_start metadata := by
  unfold Globals.polled
  dsimp only
  split
  · split
    · rename_i hstart
      refine ⟨rfl, ?_⟩
      rintro request ⟨⟩
      exact ⟨hstart.1, _, rfl⟩
    · exact ⟨rfl, by simp⟩
  · exact ⟨rfl, by simp⟩

theorem stopped_start_pending (plugin : Globals) (reply : Reply) :
    (plugin.stopped reply).start_pending = plugin.start_pending := by
  unfold Globals.stopped
  split <;> rfl

theorem inv_dispatch (h : Inv s) {request : Option Request} (reply second : Reply)
    (hstart : ∀ metadata, request = some (.record_start metadata) → s.last = some .start) :
    Inv (s.dispatch clock reply second request) := by
  cases request with
  | none => exact h
  | some request =>
    cases request with
    | record_start metadata => exact inv_send_start h (hstart metadata rfl) metadata reply
    | record_stop upload metadata =>
      exact inv_send_other h (stopped_start_pending s.plugin reply)
    | status =>
      obtain ⟨hpending, hnext⟩ := polled_start_pending s.plugin clock reply
      have hsent : Inv (s.send clock .status reply).1 := inv_send_other h hpending
      rw [dispatch]
      cases hrequest : (s.send clock .status reply).2 with
      | none => exact hsent
      | some next =>
        obtain ⟨hwaiting, metadata, rfl⟩ := hnext next hrequest
        exact inv_send_start hsent (h.pending hwaiting) metadata second

theorem inv_step (h : Inv s) {turn : Turn} (hC : s.NotWaiting turn) (hstep : s.step turn = some t) :
    Inv t := by
  obtain ⟨⟨plugin, request⟩, hreact, rfl⟩ := Option.map_eq_some_iff.mp hstep
  have hcases := react_cases hreact
  apply inv_dispatch
  · constructor
    · exact h.sent
    · intro hpending
      change plugin.start_pending = true at hpending
      change (wish turn.event).or s.last = some .start
      cases hwish : wish turn.event with
      | none =>
        rcases hcases with hstart | ⟨hsame, -⟩
        · rw [hstart] at hwish
          cases hwish
        · exact h.pending (hsame ▸ hpending)
      | some asked =>
        cases asked with
        | start => rfl
        | stop =>
          rcases hcases with hstart | ⟨hsame, -⟩
          · rw [hstart] at hwish
            cases hwish
          · rw [hsame, hC hwish] at hpending
            cases hpending
  · intro metadata hrequest
    rcases hcases with hstart | ⟨-, hno⟩
    · change (wish turn.event).or s.last = some .start
      rw [hstart]
      rfl
    · exact absurd hrequest (hno metadata)

/-- In every run that asks for no stop while a start is pending, a start is sent only when the
user's last request was one. -/
theorem followsUser_of_run {admin : Bytes} {es : List Turn}
    (hrun : (machine admin).run es = some s)
    (hC : (machine admin).Along NotWaiting (machine admin).init es) : s.FollowsUser := by
  have hinit : Inv (machine admin).init := by
    constructor
    · simp [machine, FollowsUser]
    · simp [machine, Globals.start]
  have hinv : Inv s := Machine.invariant_along (I := Inv)
    (fun _ _ _ hI hC hstep => inv_step hI hC hstep) hC hrun hinit
  exact hinv.sent

end Invariant

section System
variable {page : CodePage} {s t : System} {i : StartIntent} {clock : Clock}

/-- The starts that the worker accepted are among those that were sent. -/
def Counts (s t : System) (i j : StartIntent) : Prop :=
  t.starts + i.sent.length ≤ s.starts + j.sent.length

theorem Counts.trans {m : System} {j k : StartIntent} (h : Counts s m i k) (h' : Counts m t k j) :
    Counts s t i j := by
  unfold Counts at h h' ⊢
  omega

theorem exists_send {request : Request} {call : PipeCall} {next : Option Request}
    (hi : i.plugin = s.plugin) (h : s.send page clock request call = some (t, next)) :
    ∃ reply, (i.send clock request reply).1.plugin = t.plugin ∧
      (i.send clock request reply).2 = next ∧ Counts s t i (i.send clock request reply).1 := by
  obtain ⟨answer, -, hsent⟩ := Option.map_eq_some_iff.mp h
  refine ⟨answer.2, ?_⟩
  rw [send, hi]
  dsimp only at hsent
  split at hsent
  · rename_i haccepted
    cases hsent
    cases request with
    | record_start metadata => exact ⟨rfl, rfl, by simp [Counts, starts]; omega⟩
    | record_stop upload metadata => cases haccepted
    | status => cases haccepted
  · cases hsent
    exact ⟨rfl, rfl, by simp [Counts]⟩

theorem exists_dispatch {request : Option Request} {call second : PipeCall}
    (hi : i.plugin = s.plugin) (h : s.dispatch page clock call second request = some t) :
    ∃ reply next, (i.dispatch clock reply next request).plugin = t.plugin ∧
      Counts s t i (i.dispatch clock reply next request) := by
  have anyReply : Reply := ⟨true, none, false, false⟩
  cases request with
  | none =>
    cases h
    exact ⟨anyReply, anyReply, hi, le_rfl⟩
  | some request =>
    obtain ⟨⟨m, following⟩, hsend, hrest⟩ := Option.bind_eq_some_iff.mp h
    obtain ⟨reply, hplugin, hnext, hfirst⟩ := exists_send hi hsend
    cases following with
    | none =>
      cases hrest
      refine ⟨reply, anyReply, ?_⟩
      rw [dispatch, hnext]
      exact ⟨hplugin, hfirst⟩
    | some following =>
      obtain ⟨⟨last, rest⟩, hlast, rfl⟩ := Option.map_eq_some_iff.mp hrest
      obtain ⟨next, hlastplugin, -, hsecond⟩ := exists_send hplugin hlast
      refine ⟨reply, next, ?_⟩
      rw [dispatch, hnext]
      exact ⟨hlastplugin, hfirst.trans hsecond⟩

/-- Every run of both programs is, at the plugin, a run of turns that sends every start which the
worker accepts. -/
theorem exists_run_of_system {admin : Bytes} {es : List System.Event}
    (h : (System.machine page admin).runFrom s es = some t) (hi : i.plugin = s.plugin) :
    ∃ turns j, (machine admin).runFrom i turns = some j ∧ j.plugin = t.plugin ∧
      Counts s t i j := by
  induction es generalizing s i with
  | nil =>
    cases h
    exact ⟨[], i, rfl, hi, le_rfl⟩
  | cons e es ih =>
    obtain ⟨m, hstep, hrest⟩ := (Machine.runFrom_cons _).mp h
    cases e with
    | plugin event clock call second =>
      obtain ⟨⟨plugin, request⟩, hreact, hdispatch⟩ := Option.bind_eq_some_iff.mp hstep
      obtain ⟨reply, next, hplugin, hfirst⟩ := exists_dispatch
        (i := { i with plugin, last := (wish event).or i.last }) rfl hdispatch
      obtain ⟨turns, j, hrun, hj, hcounts⟩ := ih hrest hplugin
      refine ⟨⟨event, clock, reply, next⟩ :: turns, j, ?_, hj, ?_⟩
      · rw [Machine.runFrom_cons]
        refine ⟨_, ?_, hrun⟩
        change (i.plugin.react clock event).map _ = _
        rw [hi, hreact]
        rfl
      · exact Counts.trans hfirst hcounts
    | thread step =>
      obtain ⟨worker, -, rfl⟩ := Option.map_eq_some_iff.mp hstep
      obtain ⟨turns, j, hrun, hj, hcounts⟩ := ih hrest hi
      exact ⟨turns, j, hrun, hj, hcounts⟩
    | worker_restarted =>
      cases hstep
      obtain ⟨turns, j, hrun, hj, hcounts⟩ := ih hrest hi
      exact ⟨turns, j, hrun, hj, hcounts⟩

end System

def waitingStart : Turn := ⟨.typed (Utf8.bytes "/estart"), ⟨1, 1, []⟩, ⟨true, none, false, false⟩,
  ⟨true, none, false, false⟩⟩

def typedStop : Turn := { waitingStart with event := .typed (Utf8.bytes "/estop") }

/-- A status response with the capture ready; the start that may follow succeeds. -/
def readyPoll : Turn :=
  ⟨.poll, ⟨2, 2, []⟩, ⟨true, none, true, false⟩, ⟨true, none, false, false⟩⟩

def patientRun : List Turn := [waitingStart, readyPoll, typedStop, readyPoll]

def impatientRun : List Turn := [waitingStart, typedStop, readyPoll]

theorem patientRun_accepted : ((machine []).run patientRun).isSome := by decide +kernel

theorem impatientRun_accepted : ((machine []).run impatientRun).isSome := by decide +kernel

theorem followsUser_patientRun :
    (((machine []).run patientRun).get patientRun_accepted).FollowsUser :=
  followsUser_of_run (Option.some_get patientRun_accepted).symm (by decide +kernel)

/-- The start that was called off is sent by the next poll. -/
theorem not_alwaysFollowsUser :
    ¬ ∀ (admin : Bytes) (es : List Turn) (s : StartIntent),
      (machine admin).run es = some s → s.FollowsUser := by
  intro hall
  have hfollows := hall _ _ _ (Option.some_get impatientRun_accepted).symm
  revert hfollows
  decide +kernel

end StartIntent
end GambitRecord
