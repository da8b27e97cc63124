import GambitRecord.Plugin.CommandHook
import GambitRecord.Plugin.GameText
import GambitRecord.Plugin.IncomingRpc
import GambitRecord.System.PipeRoundTrip
import GambitRecord.System.Announcements
import GambitRecord.System.SettingsPage

/-! # The plugin's requests

The plugin fed with the packets of the game server and the lines of the player,
as they are in memory, and the JSON of the requests that it makes of them. All
texts have been read in the game's code page, so that every request has a line on
the pipe, and the worker's handler finds in it what the plugin meant.
-/

namespace GambitRecord
open Library Library.Runs Library.DigitText Recorder Plugin

namespace Plugin

def local_stamp (now : LocalTime) (wSecond : UInt16) : Bytes :=
  Utf8.encode (padded 4 now.wYear.toNat ++ ['-'] ++ padded 2 now.wMonth.toNat ++ ['-'] ++
    padded 2 now.wDay.toNat ++ [' '] ++ padded 2 now.wHour.toNat ++ ['-'] ++
    padded 2 now.wMinute.toNat ++ ['-'] ++ padded 2 wSecond.toNat)

/-- The message of a request, with its members in the order of their keys. -/
def request_json : Request → Json
  | .record_start metadata =>
    .object
      [(Utf8.bytes "command", .string (Utf8.bytes "record_start")),
        (Utf8.bytes "metadata", metadata_json metadata)]
  | .record_stop upload metadata =>
    .object
      [(Utf8.bytes "command", .string (Utf8.bytes "record_stop")),
        (Utf8.bytes "metadata", metadata_json metadata), (Utf8.bytes "upload", .ofBool upload)]
  | .status => .object [(Utf8.bytes "command", .string (Utf8.bytes "status"))]

/-- The buttons of the menu and of the prompts; `menu_save` saves what the settings page shows. -/
inductive Button where
  | menu_start
  | menu_stop (upload : Bool)
  | menu_close
  | menu_marker
  | menu_save (form : SettingsForm)
  | prompt_start
  | prompt_stop (upload : Bool)
  | prompt_close

/-- What the plugin sends. A marker and a save change none of its globals, nor do their answers. -/
inductive Sent where
  | request (request : Request)
  | marker
  | settings_set (form : SettingsForm)

def Sent.json : Sent → Json
  | .request asked => request_json asked
  | .marker =>
    .object
      [(Utf8.bytes "command", .string (Utf8.bytes "marker")),
        (Utf8.bytes "label", .string (Utf8.bytes "important"))]
  | .settings_set form => form.request

/-- What an event makes of the plugin, with what it sends. -/
def after_event (plugin : Globals) (clock : Clock) (event : Globals.Event) :
    Option (Globals × Option Sent) :=
  (plugin.react clock event).map fun reaction => (reaction.1, reaction.2.map .request)

/-- The menu takes no input while it is closed. -/
def press (plugin : Globals) (clock : Clock) : Button → Option (Globals × Option Sent)
  | .menu_start => after_event plugin clock .menu_start
  | .menu_stop upload => after_event plugin clock (.menu_stop upload)
  | .menu_close => after_event plugin clock .menu_close
  | .menu_marker => if plugin.menu_open then some (plugin, some .marker) else none
  | .menu_save form => if plugin.menu_open then some (plugin, some (.settings_set form)) else none
  | .prompt_start => after_event plugin clock .prompt_start
  | .prompt_stop upload => after_event plugin clock (.prompt_stop upload)
  | .prompt_close => after_event plugin clock .prompt_close

end Plugin

/-- The plugin, and what it has sent. -/
structure Requests where
  plugin : Globals
  sent : List Sent := []

namespace Requests

/-- What comes from outside: a packet, with the game's list of players, a typed line, a button, and
the wake-up of the status loop. -/
inductive Input where
  | packet (pool : UInt16 → Option Bytes) (bytes : List UInt8)
  | typed (raw : Option Bytes)
  | button (button : Button)
  | poll

/-- An input with the clocks, and the answers to the requests that follow. -/
structure Turn where
  input : Input
  steady : ℤ := 0
  system : ℤ := 0
  now : LocalTime := {}
  wSecond : UInt16 := 0
  reply : Reply := ⟨false, none, false, false⟩
  second : Reply := ⟨false, none, false, false⟩

def Turn.clock (turn : Turn) : Clock :=
  ⟨turn.steady, turn.system, local_stamp turn.now turn.wSecond⟩

/-- The plugin's part of an input. Reading outside of a packet has no meaning. -/
def react (plugin : Globals) (clock : Clock) : Input → Option (Globals × Option Sent)
  | .packet pool bytes =>
    match incoming_rpc_hook plugin pool clock bytes with
    | .ok plugin => some (plugin, none)
    | .error _ => none
  | .typed raw =>
    let hook := CommandHook.send_command_hook plugin clock raw
    some (hook.plugin, hook.request.map .request)
  | .button button => press plugin clock button
  | .poll => after_event plugin clock .poll

def send (s : Requests) (clock : Clock) (request : Request) (reply : Reply) :
    Requests × Option Request :=
  ({ plugin := (s.plugin.receive clock reply request).1, sent := s.sent ++ [.request request] },
    (s.plugin.receive clock reply request).2)

/-- An answer may be followed by one more request. -/
def dispatch (s : Requests) (turn : Turn) : Option Sent → Requests
  | none => s
  | some (.request request) =>
    match (s.send turn.clock request turn.reply).2 with
    | none => (s.send turn.clock request turn.reply).1
    | some next => ((s.send turn.clock request turn.reply).1.send turn.clock next turn.second).1
  | some sent => { s with sent := s.sent ++ [sent] }

def step (s : Requests) (turn : Turn) : Option Requests :=
  (react s.plugin turn.clock turn.input).map fun reaction =>
    { s with plugin := reaction.1 }.dispatch turn reaction.2

/-- The name of the player is the game's. -/
def machine (own_name : Bytes) : Machine Requests Turn where
  init := { plugin := .start (cp1251_to_utf8 own_name) }
  step := step

/-- The texts that the chat logic keeps are the game's, or parts of them. -/
structure ReadableLogic (logic : Logic) : Prop where
  names : ∀ id, ∀ name ∈ logic.player_names id, IsGameText name
  target : IsGameText logic.target_name
  pending : ∀ pending ∈ logic.pending, Utf8.Valid pending.command ∧ Utf8.Valid pending.reason
  command : Utf8.Valid logic.confirmed_command
  reason : Utf8.Valid logic.confirmed_reason

structure Readable (plugin : Globals) : Prop where
  admin : IsGameText plugin.admin
  logic : ReadableLogic plugin.logic

def IsStamp (stamp : Bytes) : Prop := ∃ now wSecond, stamp = local_stamp now wSecond

/-- The metadata of a request can be written; they name players of the game. -/
structure FromGame (metadata : EvidenceMetadata) : Prop where
  strings : ∀ s ∈ metadata.strings, Utf8.Valid s
  admin : IsGameText metadata.admin
  target : IsGameText metadata.target_name
  stamp : IsStamp metadata.timestamp

def Sendable : Request → Prop
  | .record_start metadata | .record_stop _ metadata => FromGame metadata
  | .status => True

section Inputs
variable {plugin after : Globals} {clock : Clock} {sent : Option Sent}

def OfGame : Globals.Event → Prop
  | .typed line => IsGameText line
  | .player_joined _ nickname => IsGameText nickname
  | .spectating _ nickname => IsGameText nickname
  | _ => True

theorem isGameText_player_name (pool : UInt16 → Option Bytes) (id : UInt16) :
    IsGameText (player_name pool id) := by
  unfold player_name
  cases pool id with
  | none => exact isGameText_nil
  | some raw => exact ⟨raw, rfl⟩

theorem when_read_cases {α : Type} {fields : Except Failure α} {act : α → Globals}
    (h : when_read plugin fields act = .ok after) :
    after = plugin ∨ ∃ a, after = act a := by
  rcases fields with (_ | _) | a
  · cases h
    exact .inl rfl
  · cases h
  · cases h
    exact .inr ⟨a, rfl⟩

/-- A call from the server does nothing or is an event of the game. -/
theorem process_rpc_cases {pool : UInt16 → Option Bytes} {id : UInt8} {bytes : List UInt8}
    (h : process_rpc plugin pool clock id bytes = .ok after) :
    after = plugin ∨ ∃ event, OfGame event ∧ plugin.react clock event = some (after, none) := by
  rw [process_rpc] at h
  by_cases hname : id = 11
  · rw [if_pos hname] at h
    apply (when_read_cases h).imp_right
    rintro ⟨fields, rfl⟩
    exact ⟨.player_joined fields.1 (cp1251_to_utf8 fields.2), ⟨fields.2, rfl⟩, rfl⟩
  rw [if_neg hname] at h
  by_cases hmessage : id = 93
  · rw [if_pos hmessage] at h
    apply (when_read_cases h).imp_right
    rintro ⟨message, rfl⟩
    exact ⟨.server_message (cp1251_to_utf8 message), trivial, rfl⟩
  rw [if_neg hmessage] at h
  by_cases hspectate : id = 126
  · rw [if_pos hspectate] at h
    apply (when_read_cases h).imp_right
    rintro ⟨player, rfl⟩
    exact ⟨.spectating player (player_name pool player), isGameText_player_name pool player, rfl⟩
  rw [if_neg hspectate] at h
  by_cases hended : id = 78
  · rw [if_pos hended] at h
    cases h
    exact .inr ⟨.spectating_ended, trivial, rfl⟩
  · rw [if_neg hended] at h
    cases h
    exact .inl rfl

theorem after_event_cases (event : Globals.Event) (hgame : OfGame event)
    (h : after_event plugin clock event = some (after, sent)) :
    ∃ event request, OfGame event ∧ plugin.react clock event = some (after, request) ∧
      sent = request.map .request := by
  obtain ⟨⟨next, request⟩, hreact, heq⟩ := Option.map_eq_some_iff.mp h
  cases heq
  exact ⟨event, request, hgame, hreact, rfl⟩

/-- What the plugin makes of an input is what it makes of an event of the game; or it stays as it
is, and sends no request of its own. -/
theorem react_cases {input : Input} (h : react plugin clock input = some (after, sent)) :
    (after = plugin ∧ ∀ request, sent ≠ some (.request request)) ∨
      ∃ event request, OfGame event ∧ plugin.react clock event = some (after, request) ∧
        sent = request.map .request := by
  cases input with
  | packet pool bytes =>
    simp only [react] at h
    cases hhook : incoming_rpc_hook plugin pool clock bytes with
    | error failure =>
      rw [hhook] at h
      cases h
    | ok next =>
      rw [hhook] at h
      cases h
      unfold incoming_rpc_hook at hhook
      split at hhook
      · rcases process_rpc_cases hhook with rfl | ⟨event, hgame, hevent⟩
        · exact .inl ⟨rfl, by simp⟩
        · exact .inr ⟨event, none, hgame, hevent, rfl⟩
      · cases hhook
        exact .inl ⟨rfl, by simp⟩
      · cases hhook
  | typed raw =>
    cases h
    refine .inr ⟨.typed (CommandHook.command raw), _, ?_, rfl, rfl⟩
    cases raw with
    | none => exact isGameText_nil
    | some raw => exact ⟨raw, rfl⟩
  | button button =>
    cases button with
    | menu_marker =>
      simp only [react, press, Option.ite_none_right_eq_some, Option.some_inj] at h
      cases h.2
      exact .inl ⟨rfl, by simp⟩
    | menu_save form =>
      simp only [react, press, Option.ite_none_right_eq_some, Option.some_inj] at h
      cases h.2
      exact .inl ⟨rfl, by simp⟩
    | menu_start => exact .inr (after_event_cases .menu_start trivial h)
    | menu_stop upload => exact .inr (after_event_cases (.menu_stop upload) trivial h)
    | menu_close => exact .inr (after_event_cases .menu_close trivial h)
    | prompt_start => exact .inr (after_event_cases .prompt_start trivial h)
    | prompt_stop upload => exact .inr (after_event_cases (.prompt_stop upload) trivial h)
    | prompt_close => exact .inr (after_event_cases .prompt_close trivial h)
  | poll => exact .inr (after_event_cases .poll trivial h)

end Inputs

section Invariant
variable {plugin after : Globals} {clock : Clock} {request : Option Request}

theorem valid_next_token {tail : Bytes} (h : Utf8.Valid tail) :
    Utf8.Valid (Logic.next_token tail) := by
  obtain ⟨cs, rfl⟩ := Utf8.valid_iff.mp h
  have hspace : space = UInt8.ofNat ' '.toNat := rfl
  rw [Logic.next_token, hspace, Utf8.dropWhile_ne_encode (by decide),
    Utf8.dropWhile_eq_encode (by decide)]
  exact Utf8.valid_encode _

theorem valid_punishment_reason {command : Bytes} (h : Utf8.Valid command) :
    Utf8.Valid (Logic.punishment_reason command) :=
  valid_next_token (valid_next_token (valid_next_token h))

theorem valid_elapsed_period (plugin : Globals) (clock : Clock) :
    Utf8.Valid (plugin.elapsed_period clock) := by
  unfold Globals.elapsed_period
  split_ifs
  · exact Utf8.valid_nil
  · exact (Utf8.valid_encode _).append (Utf8.valid_bytes _)

theorem IsStamp.valid {stamp : Bytes} (h : IsStamp stamp) : Utf8.Valid stamp := by
  obtain ⟨now, wSecond, rfl⟩ := h
  exact Utf8.valid_encode _

theorem Readable.metadata (h : Readable plugin) (hstamp : IsStamp clock.stamp) :
    FromGame (plugin.metadata clock) := by
  refine ⟨?_, h.admin, h.logic.target, hstamp⟩
  simp only [EvidenceMetadata.strings, Globals.metadata, List.forall_mem_cons]
  exact ⟨h.admin.valid, h.logic.command, h.logic.reason, valid_elapsed_period plugin clock,
    Utf8.valid_bytes _, h.logic.target.valid, hstamp.valid, by simp⟩

theorem ReadableLogic.on_command {logic : Logic} (h : ReadableLogic logic) {line : Bytes}
    (hline : IsGameText line) (recording : Bool) (now : ℤ) :
    ReadableLogic (logic.on_command line recording now).1 := by
  rw [Logic.on_command]
  by_cases hopen : lower_ascii (first_word line) = Utf8.bytes "/grecord" ∨
      lower_ascii (first_word line) = Utf8.bytes "/esettings"
  · rw [if_pos hopen]
    exact h
  rw [if_neg hopen]
  by_cases hstart : lower_ascii (first_word line) = Utf8.bytes "/estart"
  · rw [if_pos hstart]
    exact h
  rw [if_neg hstart]
  by_cases hstop : lower_ascii (first_word line) = Utf8.bytes "/estop"
  · rw [if_pos hstop]
    exact h
  rw [if_neg hstop]
  by_cases hpunishment : Logic.is_punishment_command line = true
  · rw [if_pos hpunishment]
    refine ⟨h.names, h.target, ?_, h.command, h.reason⟩
    rintro pending ⟨⟩
    exact ⟨hline.valid, valid_punishment_reason hline.valid⟩
  · rw [if_neg hpunishment]
    exact h

theorem ReadableLogic.on_server_message {logic : Logic} (h : ReadableLogic logic)
    (message : Bytes) (recording : Bool) (now : ℤ) :
    ReadableLogic (logic.on_server_message message recording now).1 := by
  rw [Logic.on_server_message]
  cases hpending : logic.pending with
  | none => exact h
  | some pending =>
    dsimp only
    by_cases hlate : now - pending.sent_at > Logic.window
    · rw [if_pos hlate]
      exact ⟨h.names, h.target, by simp, h.command, h.reason⟩
    rw [if_neg hlate]
    by_cases hconfirms : Logic.confirms_punishment message logic.admin = true
    · rw [if_neg (not_not.mpr hconfirms)]
      obtain ⟨hcommand, hreason⟩ := h.pending pending hpending
      exact ⟨h.names, h.target, by simp, hcommand, hreason⟩
    · rw [if_pos hconfirms]
      exact h

theorem ReadableLogic.on_player_name {logic : Logic} (h : ReadableLogic logic) (id : Int32)
    {nickname : Bytes} (hname : IsGameText nickname) :
    ReadableLogic (logic.on_player_name id nickname) := by
  have hnames : ∀ other, ∀ name ∈ Function.update logic.player_names id (some nickname) other,
      IsGameText name := by
    intro other name hmem
    by_cases hsame : other = id
    · rw [hsame, Function.update_self] at hmem
      cases hmem
      exact hname
    · rw [Function.update_of_ne hsame] at hmem
      exact h.names other name hmem
  rw [Logic.on_player_name]
  split_ifs
  · exact ⟨hnames, hname, h.pending, h.command, h.reason⟩
  · exact ⟨hnames, h.target, h.pending, h.command, h.reason⟩

theorem ReadableLogic.on_spectating_player {logic : Logic} (h : ReadableLogic logic) (id : Int32)
    (recording : Bool) : ReadableLogic (logic.on_spectating_player id recording).1 := by
  have htarget : IsGameText ((logic.player_names id).getD (Utf8.bytes "ID " ++ to_string id)) := by
    cases hfound : logic.player_names id with
    | none => exact isGameText_numbered id
    | some name => exact h.names id name hfound
  rw [Logic.on_spectating_player]
  dsimp only
  split_ifs
  · exact ⟨h.names, htarget, h.pending, h.command, h.reason⟩
  · exact ⟨h.names, htarget, h.pending, h.command, h.reason⟩

theorem Readable.start_recording (h : Readable plugin) (hstamp : IsStamp clock.stamp) :
    Readable (plugin.start_recording clock).1 ∧
      ∀ request ∈ (plugin.start_recording clock).2, Sendable request := by
  rw [Globals.start_recording]
  split_ifs
  · exact ⟨⟨h.admin, h.logic⟩, by simp⟩
  · refine ⟨h, ?_⟩
    rintro request ⟨⟩
    exact h.metadata hstamp

theorem Readable.stop_recording (h : Readable plugin) (hstamp : IsStamp clock.stamp)
    (upload : Bool) : Readable (plugin.stop_recording upload clock).1 ∧
      ∀ request ∈ (plugin.stop_recording upload clock).2, Sendable request := by
  refine ⟨h, ?_⟩
  rintro request ⟨⟩
  exact h.metadata hstamp

theorem Readable.apply_action (h : Readable plugin) (hstamp : IsStamp clock.stamp)
    (action : Action) : Readable (plugin.apply_action clock action).1 ∧
      ∀ request ∈ (plugin.apply_action clock action).2, Sendable request := by
  cases action with
  | start_recording => exact h.start_recording hstamp
  | stop_local => exact h.stop_recording hstamp false
  | _ => exact ⟨⟨h.admin, h.logic⟩, by simp [Globals.apply_action]⟩

/-- An event of the game leaves readable texts, and makes of them what can be sent. -/
theorem Readable.react (h : Readable plugin) (hstamp : IsStamp clock.stamp)
    {event : Globals.Event} (hgame : OfGame event)
    (hreact : plugin.react clock event = some (after, request)) :
    Readable after ∧ ∀ r ∈ request, Sendable r := by
  cases event with
  | typed line =>
    have hline : Readable { plugin with
        logic := (plugin.logic.on_command line plugin.recording clock.steady).1 } :=
      ⟨h.admin, h.logic.on_command hgame plugin.recording clock.steady⟩
    have hacted := hline.apply_action hstamp
      (plugin.logic.on_command line plugin.recording clock.steady).2
    have htyped : Globals.apply_action
        { plugin with
          logic := (plugin.logic.on_command line plugin.recording clock.steady).1 } clock
        (plugin.logic.on_command line plugin.recording clock.steady).2 = (after, request) :=
      Option.some.inj hreact
    rwa [htyped] at hacted
  | player_joined id nickname =>
    cases hreact
    exact ⟨⟨h.admin, h.logic.on_player_name _ hgame⟩, by simp⟩
  | server_message message =>
    cases hreact
    exact ⟨⟨h.admin, h.logic.on_server_message message _ _⟩, by simp⟩
  | spectating id nickname =>
    cases hreact
    refine ⟨⟨h.admin, ?_⟩, by simp⟩
    apply ReadableLogic.on_spectating_player
    split_ifs
    · exact h.logic
    · exact h.logic.on_player_name _ hgame
  | spectating_ended =>
    cases hreact
    exact ⟨⟨h.admin, h.logic.names, isGameText_nil, h.logic.pending, h.logic.command,
      h.logic.reason⟩, by simp⟩
  | menu_start =>
    simp only [Globals.react, Option.ite_none_right_eq_some, Option.some_inj] at hreact
    have hstart := h.start_recording hstamp
    rwa [hreact.2] at hstart
  | menu_stop upload =>
    simp only [Globals.react, Option.ite_none_right_eq_some, Option.some_inj] at hreact
    have hstop := h.stop_recording hstamp upload
    rwa [hreact.2] at hstop
  | menu_close =>
    cases hreact
    exact ⟨⟨h.admin, h.logic⟩, by simp⟩
  | prompt_start =>
    simp only [Globals.react, Option.ite_none_right_eq_some, Option.some_inj] at hreact
    have hclosed : Readable { plugin with prompt := .none } := ⟨h.admin, h.logic⟩
    have hstart := hclosed.start_recording hstamp
    rwa [hreact.2] at hstart
  | prompt_stop upload =>
    simp only [Globals.react, Option.ite_none_right_eq_some, Option.some_inj] at hreact
    have hclosed : Readable { plugin with prompt := .none } := ⟨h.admin, h.logic⟩
    have hstop := hclosed.stop_recording hstamp upload
    rwa [hreact.2] at hstop
  | prompt_close =>
    cases hreact
    exact ⟨⟨h.admin, h.logic⟩, by simp⟩
  | poll =>
    cases hreact
    refine ⟨h, ?_⟩
    rintro r ⟨⟩
    trivial

/-- An answer keeps the texts; the start that may follow it can be sent. -/
theorem Readable.receive (h : Readable plugin) (hstamp : IsStamp clock.stamp) (reply : Reply)
    (request : Request) : Readable (plugin.receive clock reply request).1 ∧
      ∀ r ∈ (plugin.receive clock reply request).2, Sendable r := by
  cases request with
  | record_start metadata =>
    refine ⟨?_, by simp [Globals.receive]⟩
    simp only [Globals.receive, Globals.started]
    split_ifs
    all_goals exact ⟨h.admin, h.logic⟩
  | record_stop upload metadata =>
    refine ⟨?_, by simp [Globals.receive]⟩
    simp only [Globals.receive, Globals.stopped]
    split_ifs
    all_goals exact ⟨h.admin, h.logic⟩
  | status =>
    simp only [Globals.receive, Globals.polled]
    split_ifs
    · refine ⟨⟨h.admin, h.logic⟩, ?_⟩
      rintro r ⟨⟩
      exact Readable.metadata ⟨h.admin, h.logic⟩ hstamp
    · exact ⟨⟨h.admin, h.logic⟩, by simp⟩
    · exact ⟨⟨h.admin, h.logic⟩, by simp⟩

structure Inv (s : Requests) : Prop where
  plugin : Readable s.plugin
  sent : ∀ request, .request request ∈ s.sent → Sendable request

variable {s t : Requests}

theorem Inv.send (h : Inv s) (hstamp : IsStamp clock.stamp) {request : Request}
    (hrequest : Sendable request) (reply : Reply) : Inv (s.send clock request reply).1 ∧
      ∀ r ∈ (s.send clock request reply).2, Sendable r := by
  obtain ⟨hplugin, hnext⟩ := h.plugin.receive hstamp reply request
  refine ⟨⟨hplugin, ?_⟩, hnext⟩
  intro r hr
  rcases List.mem_append.mp hr with hr | hr
  · exact h.sent r hr
  · cases List.mem_singleton.mp hr
    exact hrequest

theorem isStamp_clock (turn : Turn) : IsStamp turn.clock.stamp := by
  refine ⟨turn.now, turn.wSecond, ?_⟩
  rw [Turn.clock]

theorem Inv.dispatch_other (h : Inv s) (turn : Turn) {sent : Option Sent}
    (hsent : ∀ request, sent ≠ some (.request request)) : Inv (s.dispatch turn sent) := by
  have happend (other : Sent) (hother : ∀ request, other ≠ .request request) :
      Inv { s with sent := s.sent ++ [other] } := by
    refine ⟨h.plugin, fun r hr => ?_⟩
    rcases List.mem_append.mp hr with hr | hr
    · exact h.sent r hr
    · exact absurd (List.mem_singleton.mp hr).symm (hother r)
  match sent with
  | none => exact h
  | some (.request request) => exact absurd rfl (hsent request)
  | some .marker => exact happend .marker (by simp)
  | some (.settings_set form) => exact happend (.settings_set form) (by simp)

theorem Inv.dispatch (h : Inv s) (turn : Turn) (hrequest : ∀ r ∈ request, Sendable r) :
    Inv (s.dispatch turn (request.map .request)) := by
  cases request with
  | none => exact h
  | some request =>
    obtain ⟨hfirst, hnext⟩ := h.send (isStamp_clock turn) (hrequest request rfl) turn.reply
    simp only [Option.map_some, Requests.dispatch]
    cases hfollows : (s.send turn.clock request turn.reply).2 with
    | none => exact hfirst
    | some next => exact (hfirst.send (isStamp_clock turn) (hnext next hfollows) turn.second).1

theorem inv_step {turn : Turn} (h : Inv s) (hstep : s.step turn = some t) : Inv t := by
  obtain ⟨⟨plugin, sent⟩, hreact, rfl⟩ := Option.map_eq_some_iff.mp hstep
  rcases react_cases hreact with ⟨rfl, hsent⟩ | ⟨event, request, hgame, hevent, rfl⟩
  · exact Inv.dispatch_other ⟨h.plugin, h.sent⟩ turn hsent
  · obtain ⟨hplugin, hrequest⟩ := h.plugin.react (isStamp_clock turn) hgame hevent
    have hnext : Inv { s with plugin } := ⟨hplugin, h.sent⟩
    exact hnext.dispatch turn hrequest

theorem inv_run {own_name : Bytes} {es : List Turn} (hrun : (machine own_name).run es = some s) :
    Inv s := by
  have hinit : Inv (machine own_name).init := by
    refine ⟨⟨⟨own_name, rfl⟩, ?_⟩, by simp [machine]⟩
    exact ⟨by simp [machine, Globals.start], isGameText_nil, by simp [machine, Globals.start],
      Utf8.valid_nil, Utf8.valid_nil⟩
  exact Machine.invariant (I := Inv) (fun _ _ _ hI hstep => inv_step hI hstep) hrun hinit

end Invariant
section Wire
variable {page : CodePage} {exceptions : Exceptions} {sent : Sent}

def sent_json : Sent → Json
  | .request (.record_start metadata) =>
    .object
      [(Utf8.bytes "command", .string (Utf8.bytes "record_start")),
        (Utf8.bytes "metadata", metadata_json metadata), (Utf8.bytes "protocol", .ofInt32 1)]
  | .request (.record_stop upload metadata) =>
    .object
      [(Utf8.bytes "command", .string (Utf8.bytes "record_stop")),
        (Utf8.bytes "metadata", metadata_json metadata), (Utf8.bytes "protocol", .ofInt32 1),
        (Utf8.bytes "upload", .ofBool upload)]
  | .request .status =>
    .object
      [(Utf8.bytes "command", .string (Utf8.bytes "status")),
        (Utf8.bytes "protocol", .ofInt32 1)]
  | .marker =>
    .object
      [(Utf8.bytes "command", .string (Utf8.bytes "marker")),
        (Utf8.bytes "label", .string (Utf8.bytes "important")),
        (Utf8.bytes "protocol", .ofInt32 1)]
  | .settings_set form =>
    .object
      [(Utf8.bytes "command", .string (Utf8.bytes "settings_set")),
        (Utf8.bytes "protocol", .ofInt32 1), (Utf8.bytes "settings", .object form.members)]

theorem with_protocol_json (sent : Sent) :
    IpcClient.with_protocol sent.json = some (sent_json sent) := by
  have hcommand : ¬ Utf8.bytes "protocol" < Utf8.bytes "command" := by decide +kernel
  have hmetadata : ¬ Utf8.bytes "protocol" < Utf8.bytes "metadata" := by decide +kernel
  have hlabel : ¬ Utf8.bytes "protocol" < Utf8.bytes "label" := by decide +kernel
  have hupload : Utf8.bytes "protocol" < Utf8.bytes "upload" := by decide +kernel
  have hsettings : Utf8.bytes "protocol" < Utf8.bytes "settings" := by decide +kernel
  match sent with
  | .request request =>
    cases request <;> simp [IpcClient.with_protocol, Sent.json, request_json, sent_json,
      Json.insertMember, Utf8.bytes_inj, hcommand, hmetadata, hupload]
  | .marker =>
    simp [IpcClient.with_protocol, Sent.json, sent_json, Json.insertMember, Utf8.bytes_inj,
      hcommand, hlabel]
  | .settings_set form =>
    simp [IpcClient.with_protocol, Sent.json, SettingsForm.request, sent_json, Json.insertMember,
      Utf8.bytes_inj, hcommand, hsettings]

/-- The library keeps the members in the order of their keys. -/
def message (sent : Sent) : Pipe.Message where
  json := sent.json
  ordered := by
    have hcommand : Utf8.bytes "command" < Utf8.bytes "metadata" := by decide +kernel
    have hupload : Utf8.bytes "metadata" < Utf8.bytes "upload" := by decide +kernel
    have hboth : Utf8.bytes "command" < Utf8.bytes "upload" := by decide +kernel
    have hlabel : Utf8.bytes "command" < Utf8.bytes "label" := by decide +kernel
    have hsettings : Utf8.bytes "command" < Utf8.bytes "settings" := by decide +kernel
    intro members hmembers
    match sent with
    | .request request => cases request <;> cases hmembers <;> simp [hcommand, hupload, hboth]
    | .marker =>
      cases hmembers
      simp [hlabel]
    | .settings_set form =>
      cases hmembers
      simp [hsettings]

theorem valid_metadata_json {metadata : EvidenceMetadata}
    (h : ∀ s ∈ metadata.strings, Utf8.Valid s) : (metadata_json metadata).Valid := by
  simp only [EvidenceMetadata.strings, List.forall_mem_cons] at h
  obtain ⟨hadmin, hcommand, hreason, hperiod, hserver, htarget, hstamp, -⟩ := h
  simp [metadata_json, hadmin, hcommand, hreason, hperiod, hserver, htarget, hstamp]

theorem valid_sent_json (h : ∀ request, sent = .request request → Sendable request) :
    (sent_json sent).Valid := by
  match sent with
  | .request (.record_start metadata) =>
    simp [sent_json, valid_metadata_json (h _ rfl).strings]
  | .request (.record_stop upload metadata) =>
    simp [sent_json, valid_metadata_json (h _ rfl).strings]
  | .request .status => simp [sent_json]
  | .marker => simp [sent_json]
  | .settings_set form => simp [sent_json, SettingsForm.members]

/-- What the worker's handler finds: the command, and what goes with it. -/
structure Understood (page : CodePage) (exceptions : Exceptions) (sent : Sent)
    (json : Json) : Prop where
  command : ∀ c, Responses.handle_command page exceptions c json =
    match sent with
    | .request (.record_start _) => Responses.record_start exceptions c json
    | .request (.record_stop _ _) => Responses.record_stop page exceptions c json
    | .request .status => Responses.status page exceptions c
    | .marker => Responses.marker exceptions c json
    | .settings_set _ => Responses.settings_set exceptions c json
  metadata : ∀ upload metadata, sent = .request (.record_start metadata) ∨
    sent = .request (.record_stop upload metadata) →
      Responses.parse_metadata exceptions json = .ok metadata
  upload : ∀ upload metadata, sent = .request (.record_stop upload metadata) →
    Responses.member exceptions json "upload" "boolean" true Json.getBool = .ok upload
  label : sent = .marker → json.find? (Utf8.bytes "label") = some (.string (Utf8.bytes "important"))
  settings : ∀ form, sent = .settings_set form → ∀ (s : Settings) (call : SettingsCall),
    call.request = json → (Settings.settings_set exceptions s call).1.config =
      s.config.withSettings form.youtube (form.audio_source = 1) (form.audio_source = 2)
        (UInt32.ofInt form.archive.toInt)

theorem parse_metadata_object {members : List (Bytes × Json)} {metadata : EvidenceMetadata}
    (h : Json.find? (Utf8.bytes "metadata") (.object members) = some (metadata_json metadata)) :
    Responses.parse_metadata exceptions (.object members) = .ok metadata := by
  have hobject : (metadata_json metadata).isObject = true := rfl
  rw [Responses.parse_metadata, h]
  simp only [hobject, not_true_eq_false, if_false, UploadQueue.metadata_from_metadata_json]

theorem handle_command_eq {members : List (Bytes × Json)} (name : String)
    (h : Json.find? (Utf8.bytes "command") (.object members) = some (.string (Utf8.bytes name)))
    (c : Components) :
    Responses.handle_command page exceptions c (.object members) =
      match (Responses.commands page exceptions c (.object members)).find?
        fun entry => entry.1 = name with
      | some entry => entry.2
      | none => .ok (failure "UNKNOWN_COMMAND" "Unknown command") := by
  have hmember : Responses.member exceptions (.object members) "command" "string" []
      Json.getString = .ok (Utf8.bytes name) := by
    simp [Responses.member, Json.value?, h]
  rw [Responses.handle_command, hmember]
  simp only [← Utf8.bytes_inj]
  rfl

/-- The worker's handler finds the command, whatever else is asked of it. -/
theorem handle_command_sent_json (sent : Sent) (c : Components) :
    Responses.handle_command page exceptions c (sent_json sent) =
      match sent with
      | .request (.record_start _) => Responses.record_start exceptions c (sent_json sent)
      | .request (.record_stop _ _) => Responses.record_stop page exceptions c (sent_json sent)
      | .request .status => Responses.status page exceptions c
      | .marker => Responses.marker exceptions c (sent_json sent)
      | .settings_set _ => Responses.settings_set exceptions c (sent_json sent) := by
  match sent with
  | .request (.record_start metadata) =>
    rw [sent_json, handle_command_eq "record_start" (by simp [Json.find?, Utf8.bytes_inj])]
    simp [Responses.commands]
  | .request (.record_stop upload metadata) =>
    rw [sent_json, handle_command_eq "record_stop" (by simp [Json.find?, Utf8.bytes_inj])]
    simp [Responses.commands]
  | .request .status =>
    rw [sent_json, handle_command_eq "status" (by simp [Json.find?, Utf8.bytes_inj])]
    simp [Responses.commands]
  | .marker =>
    rw [sent_json, handle_command_eq "marker" (by simp [Json.find?, Utf8.bytes_inj])]
    simp [Responses.commands]
  | .settings_set form =>
    rw [sent_json, handle_command_eq "settings_set" (by simp [Json.find?, Utf8.bytes_inj])]
    simp [Responses.commands]

theorem understood_sent_json (sent : Sent) :
    Understood page exceptions sent (sent_json sent) := by
  refine ⟨handle_command_sent_json sent, ?_, ?_, ?_, ?_⟩
  · rintro upload metadata (rfl | rfl)
    · exact parse_metadata_object (by simp [Json.find?, Utf8.bytes_inj])
    · exact parse_metadata_object (by simp [Json.find?, Utf8.bytes_inj])
  · rintro upload metadata rfl
    simp [sent_json, Responses.member, Json.value?, Json.find?]
  · rintro rfl
    simp [sent_json, Json.find?, Utf8.bytes_inj]
  · rintro form rfl s call hcall
    refine SettingsPage.config_settings_set form ?_
    rw [hcall]
    simp [sent_json, Json.find?]

/-- What is sent has a line on the pipe, which brings the worker's handler what was meant, however
the pipe splits it; a target is named as in the game. -/
structure Arrives (page : CodePage) (exceptions : Exceptions) (sent : Sent) : Prop where
  line : ∃ json line, IpcClient.with_protocol sent.json = some json ∧
    IpcClient.wire json = some line ∧
    ∀ chunks more, Pipe.Brings chunks line → line.length < 65536 →
      ∃ found, IpcServer.handed exceptions (IpcServer.receive [] (chunks ++ more)) = some found ∧
        Understood page exceptions sent found
  target : ∀ upload metadata, sent = .request (.record_start metadata) ∨
    sent = .request (.record_stop upload metadata) → IsGameText metadata.target_name

theorem arrives_of_sendable (h : ∀ request, sent = .request request → Sendable request) :
    Arrives page exceptions sent := by
  constructor
  · obtain ⟨text, htext⟩ := Option.isSome_iff_exists.mp
      ((Json.dump_isSome none).mpr (valid_sent_json h))
    have hwire : IpcClient.wire (sent_json sent) = some (Utf8.encode (text ++ ['\n'])) :=
      Option.map_eq_some_iff.mpr ⟨text, htext, rfl⟩
    refine ⟨_, _, with_protocol_json sent, hwire, ?_⟩
    intro chunks more hchunks hlength
    have hround := Pipe.roundTrip exceptions (message sent) _ _ chunks more
      (with_protocol_json sent) hwire hchunks
    exact ⟨_, hround.handed hlength, understood_sent_json sent⟩
  · rintro upload metadata (rfl | rfl)
    · exact (h _ rfl).target
    · exact (h _ rfl).target

/-- Whatever the game server and the player send, every request of the plugin reaches the worker's
handler with what goes with it, within the limit of a message. -/
theorem requests_arrive {own_name : Bytes} {es : List Turn} {s : Requests}
    (hrun : (machine own_name).run es = some s) :
    ∀ sent ∈ s.sent, Arrives page exceptions sent := by
  intro sent hsent
  refine arrives_of_sendable fun request heq => (inv_run hrun).sent request ?_
  rwa [heq] at hsent

def samplePool (id : UInt16) : Option Bytes :=
  if id = 7 then some [0xC8, 0xE3, 0xF0, 0xEE, 0xEA] else none

/-- The player starts to watch number 7, records, opens the menu, sets a marker, saves the settings,
and stops. -/
def sampleRun : List Turn :=
  [{ input := .poll, reply := ⟨true, none, true, false⟩ },
    { input := .packet samplePool [20, 126, 0xE1, 0x80, 0x70, 0x00, 0x00] },
    { input := .button .prompt_start, system := 5, reply := ⟨true, none, false, false⟩ },
    { input := .typed (some (Utf8.bytes "/grecord")) },
    { input := .button .menu_marker },
    { input := .button (.menu_save ⟨true, ⟨1, by decide⟩, 20⟩) },
    { input := .typed (some [47, 69, 83, 84, 79, 80, 9, 0xDA]), system := 90000005 }]

theorem sampleRun_accepted : ((machine [0xDF]).run sampleRun).isSome := by decide +kernel

theorem requests_arrive_sample :
    let s := ((machine [0xDF]).run sampleRun).get sampleRun_accepted
    s.sent.length = 5 ∧ ∀ sent ∈ s.sent, Arrives .windows1251 .unnamed sent :=
  ⟨by decide +kernel, requests_arrive (Option.some_get sampleRun_accepted).symm⟩

end Wire
end Requests
end GambitRecord
