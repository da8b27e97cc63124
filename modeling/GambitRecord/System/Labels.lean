import GambitRecord.System.Composite

/-! # Which punishment labels a recording

The confirmed fields of `Logic` are the last punishment of the whole session.
A stop therefore carries a punishment of its own recording unless there is only
an older one.
-/

namespace GambitRecord
open Library Library.Runs Recorder Plugin

namespace Plugin.Logic

/-- The command and the reason that `metadata` attaches. -/
def label (logic : Logic) : Bytes × Bytes := (logic.confirmed_command, logic.confirmed_reason)

/-- The confirmed fields are those of the last confirmed punishment, or empty; every punishment
was typed as a command. -/
structure Records (logic : Logic) (history : List Punishment) : Prop where
  label : logic.label = (history.getLast?.map fun p => (p.command, p.reason)).getD ([], [])
  history : ∀ p ∈ history, p.command ≠ []
  pending : ∀ p ∈ logic.pending, p.command ≠ []

theorem ne_nil_of_is_punishment_command {command : Bytes}
    (h : is_punishment_command command = true) : command ≠ [] := by
  rintro rfl
  revert h
  decide +kernel

variable {logic : Logic} {history : List Punishment}

/-- A typed line changes the logic only as a punishment command, which becomes pending. -/
theorem on_command_cases (logic : Logic) (line : Bytes) (recording : Bool) (now : ℤ) :
    (logic.on_command line recording now).1 = logic ∨
      is_punishment_command line = true ∧ (logic.on_command line recording now).1 =
        { logic with pending := some ⟨line, punishment_reason line, now⟩ } := by
  by_cases hpunish : is_punishment_command line = true
  · unfold on_command
    dsimp only
    split_ifs <;> simp [hpunish]
  · left
    unfold on_command
    dsimp only
    split_ifs <;> rfl

theorem records_on_command (h : logic.Records history) (line : Bytes) (recording : Bool) (now : ℤ) :
    (logic.on_command line recording now).1.Records history := by
  rcases on_command_cases logic line recording now with heq | ⟨hpunish, heq⟩
  · rw [heq]
    exact h
  · rw [heq]
    refine ⟨h.label, h.history, ?_⟩
    intro p hp
    cases hp
    exact ne_nil_of_is_punishment_command hpunish

theorem records_on_player_name (h : logic.Records history) (id : Int32) (nickname : Bytes) :
    (logic.on_player_name id nickname).Records history := by
  unfold on_player_name
  dsimp only
  split_ifs
  · exact ⟨h.label, h.history, h.pending⟩
  · exact ⟨h.label, h.history, h.pending⟩

theorem records_on_spectating_player (h : logic.Records history) (id : Int32) (recording : Bool) :
    (logic.on_spectating_player id recording).1.Records history := by
  unfold on_spectating_player
  dsimp only
  split_ifs
  · exact ⟨h.label, h.history, h.pending⟩
  · exact ⟨h.label, h.history, h.pending⟩

theorem records_on_server_message (h : logic.Records history) (message : Bytes) (recording : Bool)
    (clock : Clock) :
    (logic.on_server_message message recording clock.steady).1.Records
      (history ++ System.confirmation logic clock (.server_message message)) := by
  unfold on_server_message System.confirmation
  cases hp : logic.pending with
  | none => simpa using h
  | some pending =>
    have hcommand := h.pending pending (by rw [hp]; rfl)
    have hkeep : ∀ p ∈ (Option.none : Option Punishment), p.command ≠ [] := by simp
    by_cases hlate : clock.steady - pending.sent_at > window
    · have hfilter : ¬ clock.steady - pending.sent_at ≤ window := by omega
      simp only [hlate, if_true, Option.filter, hfilter, false_and, decide_false,
        Bool.false_eq_true, if_false, Option.toList_none, List.append_nil]
      exact ⟨h.label, h.history, hkeep⟩
    · have hfilter : clock.steady - pending.sent_at ≤ window := by omega
      by_cases hconfirms : confirms_punishment message logic.admin = true
      · simp only [hlate, hconfirms, hfilter, Option.filter, and_self, decide_true, if_true,
          if_false, not_true_eq_false]
        refine ⟨?_, ?_, hkeep⟩
        · rw [Option.toList_some, List.getLast?_concat]
          rfl
        · intro p hmem
          rcases List.mem_append.mp hmem with hmem | hmem
          · exact h.history p hmem
          · rw [Option.toList_some, List.mem_singleton] at hmem
            rw [hmem]
            exact hcommand
      · simpa [hlate, hconfirms, Option.filter] using h

end Plugin.Logic

namespace Plugin.Globals
variable {plugin : Globals} {clock : Clock}

@[simp] theorem start_recording_logic :
    (plugin.start_recording clock).1.logic = plugin.logic := by
  unfold start_recording
  split_ifs <;> rfl

@[simp] theorem apply_action_logic (action : Action) :
    (plugin.apply_action clock action).1.logic = plugin.logic := by
  cases action <;> simp [apply_action, stop_recording]

@[simp] theorem receive_logic (reply : Reply) (request : Request) :
    (plugin.receive clock reply request).1.logic = plugin.logic := by
  cases request with
  | record_start metadata =>
    simp only [receive, started]
    split_ifs <;> rfl
  | record_stop upload metadata =>
    simp only [receive, stopped]
    split_ifs <;> rfl
  | status =>
    simp only [receive, polled]
    split_ifs <;> rfl

/-- Every event keeps the record of what was confirmed, with what it confirms itself. -/
theorem records_react {event : Event} {history : List Punishment}
    {reaction : Globals × Option Request} (h : plugin.logic.Records history)
    (hreact : plugin.react clock event = some reaction) :
    reaction.1.logic.Records (history ++ System.confirmation plugin.logic clock event) := by
  cases event with
  | typed line =>
    cases hreact
    simp only [on_typed, apply_action_logic, System.confirmation, List.append_nil]
    exact Logic.records_on_command h line _ _
  | player_joined id nickname =>
    cases hreact
    simp only [System.confirmation, List.append_nil]
    exact Logic.records_on_player_name h _ _
  | server_message message =>
    cases hreact
    exact Logic.records_on_server_message h message _ clock
  | spectating id nickname =>
    cases hreact
    simp only [on_spectating, System.confirmation, List.append_nil]
    split
    · exact Logic.records_on_spectating_player h _ _
    · exact Logic.records_on_spectating_player (Logic.records_on_player_name h _ _) _ _
  | spectating_ended =>
    cases hreact
    simp only [System.confirmation, List.append_nil]
    exact ⟨h.label, h.history, h.pending⟩
  | menu_close | prompt_close | poll =>
    cases hreact
    simpa [System.confirmation] using h
  | menu_start | menu_stop | prompt_start | prompt_stop =>
    simp only [react] at hreact
    split at hreact
    · cases hreact
      simpa [System.confirmation, stop_recording] using h
    · cases hreact

end Plugin.Globals

namespace System
variable {page : CodePage}

/-- The punishments confirmed in the whole session. -/
def history (s : System) : List Punishment := s.earlier ++ s.since

theorem send_keeps {s : System} {clock : Clock} {request : Request} {call : PipeCall}
    {sent : System × Option Request} (h : s.send page clock request call = some sent) :
    sent.1.plugin.logic = s.plugin.logic ∧ sent.1.history = s.history := by
  simp only [send, Option.map_eq_some_iff] at h
  rcases h with ⟨answer, -, rfl⟩
  split
  · exact ⟨Globals.receive_logic _ _, List.append_nil _⟩
  · exact ⟨Globals.receive_logic _ _, rfl⟩

theorem dispatch_keeps {s t : System} {clock : Clock} {call second : PipeCall}
    {request : Option Request} (h : s.dispatch page clock call second request = some t) :
    t.plugin.logic = s.plugin.logic ∧ t.history = s.history := by
  cases request with
  | none =>
    cases h
    exact ⟨rfl, rfl⟩
  | some request =>
    simp only [dispatch, Option.bind_eq_some_iff] at h
    rcases h with ⟨sent, hsent, h⟩
    have hfirst := send_keeps hsent
    split at h
    · cases h
      exact hfirst
    · rcases Option.map_eq_some_iff.mp h with ⟨last, hlast, rfl⟩
      have hsecond := send_keeps hlast
      exact ⟨hsecond.1.trans hfirst.1, hsecond.2.trans hfirst.2⟩

/-- The logic records the session's confirmed punishments. -/
def Recorded (s : System) : Prop := s.plugin.logic.Records s.history

theorem step_recorded {s t : System} {event : Event} (h : s.Recorded)
    (hstep : s.step page event = some t) : t.Recorded := by
  cases event with
  | plugin event clock call second =>
    simp only [step, Option.bind_eq_some_iff] at hstep
    rcases hstep with ⟨reaction, hreact, hdispatch⟩
    rcases dispatch_keeps hdispatch with ⟨hlogic, hhistory⟩
    have hrecords := Globals.records_react h hreact
    rw [Recorded, hlogic, hhistory]
    simpa only [history, List.append_assoc] using hrecords
  | thread step =>
    rcases Option.map_eq_some_iff.mp hstep with ⟨worker, -, rfl⟩
    exact h
  | worker_restarted =>
    cases hstep
    exact h

theorem recorded_of_run {admin : Bytes} {es : List Event} {s : System}
    (h : (machine page admin).run es = some s) : s.Recorded := by
  apply Machine.invariant (I := Recorded) (fun s e t => step_recorded) h
  exact ⟨rfl, by simp [machine, history], by simp [machine, Globals.start]⟩

/-- The punishment fields are empty, or those of a punishment confirmed since the last recording
was started. -/
def OfThisRecording (s : System) (metadata : EvidenceMetadata) : Prop :=
  (metadata.punishment_command = [] ∧ metadata.punishment_reason = []) ∨
    ∃ p ∈ s.since, metadata.punishment_command = p.command ∧
      metadata.punishment_reason = p.reason

/-- Whatever sends a stop attaches the label of its moment. -/
theorem label_of_record_stop {plugin : Globals} {clock : Clock} {event : Globals.Event}
    {reaction : Globals × Option Request} {upload : Bool} {metadata : EvidenceMetadata}
    (h : plugin.react clock event = some reaction)
    (hsent : reaction.2 = some (.record_stop upload metadata)) :
    (metadata.punishment_command, metadata.punishment_reason) = plugin.logic.label := by
  have hstart : ∀ p : Globals, (p.start_recording clock).2 ≠ some (.record_stop upload metadata) := by
    intro p
    unfold Globals.start_recording
    split_ifs <;> simp [Globals.start_recording_now]
  cases event with
  | typed line =>
    cases h
    have hlabel : (plugin.logic.on_command line plugin.recording clock.steady).1.label =
        plugin.logic.label := by
      rcases Logic.on_command_cases plugin.logic line plugin.recording clock.steady with
        heq | ⟨-, heq⟩
      · rw [heq]
      · rw [heq]
        rfl
    rw [← hlabel]
    simp only [Globals.on_typed] at hsent ⊢
    cases haction : (plugin.logic.on_command line plugin.recording clock.steady).2 with
    | start_recording =>
      rw [haction] at hsent
      exact absurd hsent (hstart _)
    | stop_local =>
      rw [haction] at hsent
      cases hsent
      rfl
    | _ =>
      rw [haction] at hsent
      cases hsent
  | menu_stop | prompt_stop =>
    simp only [Globals.react] at h
    split at h
    · cases h
      cases hsent
      rfl
    · cases h
  | menu_start | prompt_start =>
    simp only [Globals.react] at h
    split at h
    · cases h
      exact absurd hsent (hstart _)
    · cases h
  | _ =>
    cases h
    cases hsent

/-- A stop is labelled with a punishment of its own recording, or with none, exactly when nothing
was confirmed before the recording was started or something has been confirmed since. -/
theorem ofThisRecording_iff {admin : Bytes} {es : List Event} {s : System} {clock : Clock}
    {event : Globals.Event} {reaction : Globals × Option Request} {upload : Bool}
    {metadata : EvidenceMetadata} (hrun : (machine page admin).run es = some s)
    (hreact : s.plugin.react clock event = some reaction)
    (hsent : reaction.2 = some (.record_stop upload metadata)) :
    s.OfThisRecording metadata ↔ s.earlier = [] ∨ s.since ≠ [] := by
  have hrecorded := recorded_of_run hrun
  have hlabel := (label_of_record_stop hreact hsent).trans hrecorded.label
  cases hsince : s.since with
  | nil =>
    rw [history, hsince, List.append_nil] at hlabel
    cases hlast : s.earlier.getLast? with
    | none =>
      rw [List.getLast?_eq_none_iff] at hlast
      rw [hlast] at hlabel
      simp only [hlast, true_or, iff_true]
      exact .inl ⟨congrArg Prod.fst hlabel, congrArg Prod.snd hlabel⟩
    | some p =>
      have hmem : p ∈ s.earlier := List.mem_of_getLast? hlast
      have hne : p.command ≠ [] := hrecorded.history p (List.mem_append_left _ hmem)
      rw [hlast] at hlabel
      have hcommand : metadata.punishment_command = p.command := congrArg Prod.fst hlabel
      simp [OfThisRecording, hsince, hcommand, hne, List.ne_nil_of_mem hmem]
  | cons q qs =>
    have hne : q :: qs ≠ [] := by simp
    have hlast : s.history.getLast? = some ((q :: qs).getLast hne) := by
      rw [history, hsince, List.getLast?_append_of_ne_nil _ hne, List.getLast?_eq_some_getLast hne]
    rw [hlast] at hlabel
    simp only [ne_eq, hne, not_false_eq_true, or_true, iff_true]
    right
    refine ⟨(q :: qs).getLast hne, ?_, congrArg Prod.fst hlabel, congrArg Prod.snd hlabel⟩
    rw [hsince]
    exact List.getLast_mem hne

instance (s : System) (metadata : EvidenceMetadata) : Decidable (s.OfThisRecording metadata) :=
  inferInstanceAs (Decidable (_ ∨ _))

def at_second (n : ℤ) : Clock := ⟨n * 1000000000, n * 10000000, Utf8.bytes "2026-09-07 08-05-00"⟩

def keyframe : EncodedSample := ⟨.video, 0, 333333, true, [0]⟩

def workingSink : Sink := ⟨some ⟨[97], by simp⟩, true, true⟩

def typed (line : String) (n : ℤ) : Event := .plugin (.typed (Utf8.bytes line)) (at_second n) {} {}

def banRun : List Event :=
  [.thread (.capture true ⟨1280, 720, false⟩), .plugin .poll (at_second 1) {} {},
    typed "/estart" 2, .thread (.on_sample keyframe workingSink), typed "/ban 52 3 5pp" 3,
    .plugin (.server_message (Utf8.bytes "Администратор omsky заблокировал игрока Test"))
      (at_second 4) {} {}]

/-- It is stopped, and a second one is made in which nothing is confirmed. -/
def staleRun : List Event :=
  banRun ++ [typed "/estop" 5, typed "/estart" 60, .thread (.on_sample keyframe workingSink)]

abbrev chatMachine : Machine System Event := machine .windows1251 (Utf8.bytes "omsky")

theorem banRun_accepted : (chatMachine.run banRun).isSome := by decide +kernel

theorem staleRun_accepted : (chatMachine.run staleRun).isSome := by decide +kernel

abbrev estop : Globals.Event := .typed (Utf8.bytes "/estop")

theorem ofThisRecording_banRun :
    ∃ s reaction metadata, chatMachine.run banRun = some s ∧
      s.plugin.react (at_second 5) estop = some reaction ∧
      reaction.2 = some (.record_stop false metadata) ∧ s.OfThisRecording metadata := by
  let s := (chatMachine.run banRun).get banRun_accepted
  have hrun : chatMachine.run banRun = some s := (Option.some_get banRun_accepted).symm
  have hsent : (s.plugin.react (at_second 5) estop).map Prod.snd =
      some (some (.record_stop false (s.plugin.metadata (at_second 5)))) := by decide +kernel
  rcases Option.map_eq_some_iff.mp hsent with ⟨reaction, hreact, hstop⟩
  have hfresh : s.earlier = [] ∨ s.since ≠ [] := by decide +kernel
  exact ⟨s, reaction, _, hrun, hreact, hstop, (ofThisRecording_iff hrun hreact hstop).mpr hfresh⟩

/-- The second recording is labelled with the ban of the first. -/
theorem not_alwaysOfThisRecording :
    ¬ ∀ (page : CodePage) (admin : Bytes) (es : List Event) (s : System) (clock : Clock)
      (event : Globals.Event) (reaction : Globals × Option Request) (upload : Bool)
      (metadata : EvidenceMetadata), (machine page admin).run es = some s →
      s.plugin.react clock event = some reaction →
      reaction.2 = some (.record_stop upload metadata) → s.OfThisRecording metadata := by
  intro hall
  let s := (chatMachine.run staleRun).get staleRun_accepted
  have hrun : chatMachine.run staleRun = some s := (Option.some_get staleRun_accepted).symm
  have hsent : (s.plugin.react (at_second 70) estop).map Prod.snd =
      some (some (.record_stop false (s.plugin.metadata (at_second 70)))) := by decide +kernel
  rcases Option.map_eq_some_iff.mp hsent with ⟨reaction, hreact, hstop⟩
  have hstale : ¬ s.OfThisRecording (s.plugin.metadata (at_second 70)) := by decide +kernel
  exact hstale (hall _ _ _ s _ _ reaction false _ hrun hreact hstop)

end System
end GambitRecord
