import GambitRecord.Plugin.Logic
import GambitRecord.Library.Algorithms
import Mathlib.Data.List.Induction

/-! # Which messages confirm which command

The events that reach `grecord::Logic`, in any order and at any times. The
punishment that awaits its confirmation is described by the history alone: the
last one that was typed, while no later message came too late or confirmed it.
-/

namespace GambitRecord.Plugin.Confirmation
open Library Logic

inductive Event where
  | command (command : Bytes) (recording : Bool) (now : ℤ)
  | message (message : Bytes) (recording : Bool) (now : ℤ)
  | spectating (id : Int32) (recording : Bool)
  | spectating_ended
  | player_name (id : Int32) (nickname : Bytes)
  | admin (nickname : Bytes)
  deriving DecidableEq

def react (logic : Logic) : Event → Logic × Action
  | .command command recording now => logic.on_command command recording now
  | .message message recording now => logic.on_server_message message recording now
  | .spectating id recording => logic.on_spectating_player id recording
  | .spectating_ended => (logic.clear_spectating, .none)
  | .player_name id nickname => (logic.on_player_name id nickname, .none)
  | .admin nickname => ({ logic with admin := nickname }, .none)

def after (admin : Bytes) (history : List Event) : Logic :=
  history.foldl (fun logic e => (react logic e).1) { admin }

def named (admin : Bytes) : Event → Bytes
  | .admin nickname => nickname
  | _ => admin

/-- The admin that was named last. -/
def admin_after (admin : Bytes) (history : List Event) : Bytes := history.foldl named admin

/-- An event that leaves a punishment waiting: no other one is typed, and a message comes within
the window and does not confirm it. -/
def Passes (admin : Bytes) (sent_at : ℤ) : Event → Prop
  | .command command _ _ => is_punishment_command command = false
  | .message message _ now =>
    now - sent_at ≤ window ∧ confirms_punishment message admin = false
  | _ => True

/-- The command typed after `before` is the latest punishment of the history, and every later
message came within its window without confirming it. -/
def Awaiting (admin : Bytes) (history before : List Event) (command : Bytes) (sent_at : ℤ) : Prop :=
  ∃ recording later, history = before ++ .command command recording sent_at :: later ∧
    is_punishment_command command = true ∧
    ∀ earlier e rest, later = earlier ++ e :: rest →
      Passes (admin_after admin (before ++ .command command recording sent_at :: earlier)) sent_at e

/-- A message that confirms the command typed after `before`. -/
def Confirming (admin : Bytes) (history : List Event) (message : Bytes) (now : ℤ)
    (before : List Event) (command : Bytes) : Prop :=
  ∃ sent_at, Awaiting admin history before command sent_at ∧ now - sent_at ≤ window ∧
    confirms_punishment message (admin_after admin history) = true

def confirmed (logic : Logic) : Bytes × Bytes := (logic.confirmed_command, logic.confirmed_reason)

/-- After a history, a message is answered with a prompt exactly when it confirms a command, which
it then records; nothing else prompts for the evidence or changes what is recorded. -/
structure ConfirmsExactly (admin : Bytes) (history : List Event) : Prop where
  finish : ∀ message recording now,
    ((after admin history).on_server_message message recording now).2 = .show_finish_prompt ↔
      recording = true ∧ ∃ before command, Confirming admin history message now before command
  missing : ∀ message recording now,
    ((after admin history).on_server_message message recording now).2 = .show_missing_evidence ↔
      recording = false ∧ ∃ before command, Confirming admin history message now before command
  records : ∀ message recording now before command,
    Confirming admin history message now before command →
      confirmed ((after admin history).on_server_message message recording now).1 =
        (command, punishment_reason command)
  otherwise : ∀ message recording now,
    (∀ before command, ¬ Confirming admin history message now before command) →
      ((after admin history).on_server_message message recording now).2 = .none ∧
        confirmed ((after admin history).on_server_message message recording now).1 =
          confirmed (after admin history)
  others : ∀ e, (∀ message recording now, e ≠ .message message recording now) →
    (react (after admin history) e).2 ≠ .show_finish_prompt ∧
      (react (after admin history) e).2 ≠ .show_missing_evidence ∧
      confirmed (react (after admin history) e).1 = confirmed (after admin history)
  once : ∀ earlier message recording now later, history = earlier ++ .message message recording now :: later →
    ∀ before command, Confirming admin earlier message now before command →
      ∀ next time before' command', Confirming admin history next time before' command' →
        earlier.length < before'.length

theorem after_append (admin : Bytes) (history : List Event) (e : Event) :
    after admin (history ++ [e]) = (react (after admin history) e).1 := by
  rw [after, List.foldl_append]
  rfl

theorem admin_after_append (admin : Bytes) (history : List Event) (e : Event) :
    admin_after admin (history ++ [e]) = named (admin_after admin history) e := by
  rw [admin_after, List.foldl_append]
  rfl

theorem on_command_punishment {command : Bytes} (h : is_punishment_command command = true)
    (logic : Logic) (recording : Bool) (now : ℤ) :
    logic.on_command command recording now =
      ({ logic with pending := some ⟨command, punishment_reason command, now⟩ }, .none) := by
  have hmem : lower_ascii (first_word command) ∈ punishment_names := by
    simpa [is_punishment_command] using h
  have hne : ∀ word ∉ punishment_names, lower_ascii (first_word command) ≠ word := by
    rintro word hword rfl
    exact hword hmem
  have hgrecord := hne (Utf8.bytes "/grecord") (by decide +kernel)
  have hesettings := hne (Utf8.bytes "/esettings") (by decide +kernel)
  have hestart := hne (Utf8.bytes "/estart") (by decide +kernel)
  have hestop := hne (Utf8.bytes "/estop") (by decide +kernel)
  simp [on_command, hgrecord, hesettings, hestart, hestop, h]

theorem on_command_other {command : Bytes} (h : is_punishment_command command = false)
    (logic : Logic) (recording : Bool) (now : ℤ) :
    (logic.on_command command recording now).1 = logic := by
  simp only [on_command, h, Bool.false_eq_true, if_false]
  split_ifs <;> rfl

theorem on_server_message_pending {logic : Logic} {punishment : Punishment}
    (hpending : logic.pending = some punishment) {message : Bytes} {now : ℤ}
    (hwindow : now - punishment.sent_at ≤ window)
    (h : confirms_punishment message logic.admin = true) (recording : Bool) :
    logic.on_server_message message recording now =
      ({ logic with
          confirmed_command := punishment.command
          confirmed_reason := punishment.reason
          pending := none },
        if recording then .show_finish_prompt else .show_missing_evidence) := by
  simp [on_server_message, hpending, not_lt.mpr hwindow, h]

theorem on_server_message_none {logic : Logic} (hpending : logic.pending = none) (message : Bytes)
    (recording : Bool) (now : ℤ) :
    logic.on_server_message message recording now = (logic, .none) := by
  simp [on_server_message, hpending]

theorem on_server_message_late {logic : Logic} {punishment : Punishment}
    (hpending : logic.pending = some punishment) {now : ℤ}
    (hwindow : ¬ now - punishment.sent_at ≤ window) (message : Bytes) (recording : Bool) :
    logic.on_server_message message recording now = ({ logic with pending := none }, .none) := by
  simp [on_server_message, hpending, not_le.mp hwindow]

theorem on_server_message_passes {logic : Logic} {punishment : Punishment}
    (hpending : logic.pending = some punishment) {message : Bytes} {now : ℤ}
    (hwindow : now - punishment.sent_at ≤ window)
    (h : confirms_punishment message logic.admin = false) (recording : Bool) :
    logic.on_server_message message recording now = (logic, .none) := by
  simp [on_server_message, hpending, not_lt.mpr hwindow, h]

theorem admin_react (logic : Logic) (e : Event) :
    (react logic e).1.admin = named logic.admin e := by
  cases e with
  | command command recording now =>
    cases h : is_punishment_command command with
    | false => simp [react, on_command_other h, named]
    | true => simp [react, on_command_punishment h, named]
  | message message recording now =>
    simp only [react, on_server_message, named]
    split
    · rfl
    · split_ifs <;> rfl
  | spectating id recording =>
    simp only [react, on_spectating_player, named]
    split_ifs <;> rfl
  | spectating_ended => rfl
  | player_name id nickname =>
    simp only [react, on_player_name, named]
    split_ifs <;> rfl
  | admin nickname => rfl

theorem admin_of_after (admin : Bytes) (history : List Event) :
    (after admin history).admin = admin_after admin history := by
  induction history using List.reverseRecOn with
  | nil => rfl
  | append_singleton history e ih => rw [after_append, admin_react, ih, admin_after_append]

/-- What a command leaves pending: itself, or the punishment before it. -/
theorem pending_on_command (logic : Logic) (command : Bytes) (recording : Bool) (now : ℤ)
    (punishment : Punishment) :
    (logic.on_command command recording now).1.pending = some punishment ↔
      is_punishment_command command = true ∧
          ⟨command, punishment_reason command, now⟩ = punishment ∨
        is_punishment_command command = false ∧ logic.pending = some punishment := by
  cases h : is_punishment_command command with
  | false => simp [on_command_other h]
  | true => simp [on_command_punishment h]

/-- What a message leaves pending: a punishment in its window that it does not confirm. -/
theorem pending_on_server_message (logic : Logic) (message : Bytes) (recording : Bool) (now : ℤ)
    (punishment : Punishment) :
    (logic.on_server_message message recording now).1.pending = some punishment ↔
      logic.pending = some punishment ∧ now - punishment.sent_at ≤ window ∧
        confirms_punishment message logic.admin = false := by
  cases hpending : logic.pending with
  | none => simp [on_server_message_none hpending, hpending]
  | some waiting =>
    by_cases hwindow : now - waiting.sent_at ≤ window
    · cases hconfirms : confirms_punishment message logic.admin with
      | false =>
        rw [on_server_message_passes hpending hwindow hconfirms, hpending]
        constructor
        · intro h
          cases h
          exact ⟨rfl, hwindow, rfl⟩
        · exact And.left
      | true =>
        rw [on_server_message_pending hpending hwindow hconfirms]
        simp
    · rw [on_server_message_late hpending hwindow]
      constructor
      · intro h
        cases h
      · rintro ⟨h, hle, -⟩
        cases h
        exact absurd hle hwindow

/-- What a step leaves pending: the punishment it types, or the one before that it passes. -/
theorem pending_react (logic : Logic) (e : Event) (punishment : Punishment) :
    (react logic e).1.pending = some punishment ↔
      ((∃ recording, e = .command punishment.command recording punishment.sent_at) ∧
        is_punishment_command punishment.command = true ∧
        punishment.reason = punishment_reason punishment.command) ∨
      logic.pending = some punishment ∧ Passes logic.admin punishment.sent_at e := by
  cases e with
  | command command recording now =>
    rw [react, pending_on_command, Passes, and_comm (a := is_punishment_command command = false)]
    apply or_congr_left
    constructor
    · rintro ⟨h, rfl⟩
      exact ⟨⟨recording, rfl⟩, h, rfl⟩
    · rintro ⟨⟨_, heq⟩, h, hreason⟩
      cases heq
      exact ⟨h, by rw [← hreason]⟩
  | message message recording now =>
    rw [react, pending_on_server_message]
    simp [Passes]
  | spectating id recording =>
    have hpending : (react logic (.spectating id recording)).1.pending = logic.pending := by
      simp only [react, on_spectating_player]
      split_ifs <;> rfl
    simp [hpending, Passes]
  | spectating_ended => simp [react, clear_spectating, Passes]
  | player_name id nickname =>
    have hpending : (react logic (.player_name id nickname)).1.pending = logic.pending := by
      simp only [react, on_player_name]
      split_ifs <;> rfl
    simp [hpending, Passes]
  | admin nickname => simp [react, Passes]

variable {admin : Bytes}

/-- One event later, what awaits is the punishment that the event types, or the one before that it
passes. -/
theorem awaiting_append {history before : List Event} {command : Bytes} {sent_at : ℤ} {e : Event} :
    Awaiting admin (history ++ [e]) before command sent_at ↔
      (before = history ∧ (∃ recording, e = .command command recording sent_at) ∧
        is_punishment_command command = true) ∨
      Awaiting admin history before command sent_at ∧
        Passes (admin_after admin history) sent_at e := by
  constructor
  · rintro ⟨recording, later, hsplit, hpunish, hpasses⟩
    rcases Algorithms.append_singleton_eq hsplit with ⟨-, rfl, rfl⟩ | ⟨init, rfl, rfl⟩
    · exact .inl ⟨rfl, ⟨recording, rfl⟩, hpunish⟩
    · refine .inr ⟨⟨recording, init, rfl, hpunish, fun earlier f rest hinit => ?_⟩,
        hpasses init e [] rfl⟩
      apply hpasses earlier f (rest ++ [e])
      rw [hinit, List.append_assoc, List.cons_append]
  · rintro (⟨rfl, ⟨recording, rfl⟩, hpunish⟩ | ⟨⟨recording, later, rfl, hpunish, hpasses⟩, he⟩)
    · refine ⟨recording, [], rfl, hpunish, fun earlier f rest h => ?_⟩
      exact absurd h.symm (by simp)
    · refine ⟨recording, later ++ [e], by rw [List.append_assoc, List.cons_append], hpunish, ?_⟩
      intro earlier f rest hsplit
      rcases Algorithms.append_singleton_eq hsplit with ⟨-, rfl, rfl⟩ | ⟨init, rfl, rfl⟩
      · exact he
      · exact hpasses earlier f init rfl

/-- What is pending after a history is what awaits its confirmation there. -/
theorem pending_iff {history : List Event} {punishment : Punishment} :
    (after admin history).pending = some punishment ↔
      (∃ before, Awaiting admin history before punishment.command punishment.sent_at) ∧
        punishment.reason = punishment_reason punishment.command := by
  induction history using List.reverseRecOn with
  | nil =>
    constructor
    · intro h
      cases h
    · rintro ⟨⟨before, recording, later, hsplit, -⟩, -⟩
      exact absurd hsplit.symm (by simp)
  | append_singleton history e ih =>
    rw [after_append, pending_react, ih, admin_of_after]
    constructor
    · rintro (⟨hsent, hpunish, hreason⟩ | ⟨⟨⟨before, hawaiting⟩, hreason⟩, hpasses⟩)
      · exact ⟨⟨history, awaiting_append.mpr (.inl ⟨rfl, hsent, hpunish⟩)⟩, hreason⟩
      · exact ⟨⟨before, awaiting_append.mpr (.inr ⟨hawaiting, hpasses⟩)⟩, hreason⟩
    · rintro ⟨⟨before, hawaiting⟩, hreason⟩
      rcases awaiting_append.mp hawaiting with ⟨-, hsent, hpunish⟩ | ⟨hbefore, hpasses⟩
      · exact .inl ⟨hsent, hpunish, hreason⟩
      · exact .inr ⟨⟨⟨before, hbefore⟩, hreason⟩, hpasses⟩

/-- A message confirms a command exactly when it confirms what is pending. -/
theorem confirming_iff {history : List Event} {message command : Bytes} {now : ℤ} :
    (∃ before, Confirming admin history message now before command) ↔
      ∃ punishment, (after admin history).pending = some punishment ∧
        punishment.command = command ∧ now - punishment.sent_at ≤ window ∧
        confirms_punishment message (after admin history).admin = true := by
  rw [admin_of_after]
  constructor
  · rintro ⟨before, sent_at, hawaiting, hwindow, hconfirms⟩
    exact ⟨⟨command, punishment_reason command, sent_at⟩,
      pending_iff.mpr ⟨⟨before, hawaiting⟩, rfl⟩, rfl, hwindow, hconfirms⟩
  · rintro ⟨punishment, hpending, rfl, hwindow, hconfirms⟩
    obtain ⟨⟨before, hawaiting⟩, -⟩ := pending_iff.mp hpending
    exact ⟨before, punishment.sent_at, hawaiting, hwindow, hconfirms⟩

theorem answer_confirming {history before : List Event} {message command : Bytes} {now : ℤ}
    (h : Confirming admin history message now before command) (recording : Bool) :
    ((after admin history).on_server_message message recording now).2 =
        (if recording then .show_finish_prompt else .show_missing_evidence) ∧
      confirmed ((after admin history).on_server_message message recording now).1 =
        (command, punishment_reason command) := by
  obtain ⟨punishment, hpending, rfl, hwindow, hconfirms⟩ := confirming_iff.mp ⟨before, h⟩
  rw [on_server_message_pending hpending hwindow hconfirms, ← (pending_iff.mp hpending).2]
  exact ⟨rfl, rfl⟩

theorem answer_otherwise {history : List Event} {message : Bytes} {now : ℤ}
    (h : ∀ before command, ¬ Confirming admin history message now before command)
    (recording : Bool) :
    ((after admin history).on_server_message message recording now).2 = .none ∧
      confirmed ((after admin history).on_server_message message recording now).1 =
        confirmed (after admin history) := by
  cases hpending : (after admin history).pending with
  | none =>
    rw [on_server_message_none hpending]
    exact ⟨rfl, rfl⟩
  | some punishment =>
    by_cases hwindow : now - punishment.sent_at ≤ window
    · cases hconfirms : confirms_punishment message (after admin history).admin with
      | false =>
        rw [on_server_message_passes hpending hwindow hconfirms]
        exact ⟨rfl, rfl⟩
      | true =>
        obtain ⟨before, hbefore⟩ :=
          confirming_iff.mpr ⟨punishment, hpending, rfl, hwindow, hconfirms⟩
        exact absurd hbefore (h before punishment.command)
    · rw [on_server_message_late hpending hwindow]
      exact ⟨rfl, rfl⟩

/-- No other event prompts for the evidence or touches what is recorded. -/
theorem confirmed_react (logic : Logic) {e : Event}
    (h : ∀ message recording now, e ≠ .message message recording now) :
    (react logic e).2 ≠ .show_finish_prompt ∧ (react logic e).2 ≠ .show_missing_evidence ∧
      confirmed (react logic e).1 = confirmed logic := by
  cases e with
  | command command recording now =>
    simp only [react, on_command]
    split_ifs <;> simp [confirmed]
  | message message recording now => exact absurd rfl (h message recording now)
  | spectating id recording =>
    simp only [react, on_spectating_player]
    split_ifs <;> simp [confirmed]
  | spectating_ended => simp [react, clear_spectating, confirmed]
  | player_name id nickname =>
    simp only [react, on_player_name]
    split_ifs <;> simp [confirmed]
  | admin nickname => simp [react, confirmed]

/-- A command that awaits was typed after every message that confirmed one: it would not have
passed that message. -/
theorem awaiting_after_confirming {earlier later before before' : List Event}
    {message command command' : Bytes} {recording : Bool} {now sent_at : ℤ}
    (hconfirming : Confirming admin earlier message now before command)
    (h : Awaiting admin (earlier ++ .message message recording now :: later) before' command'
      sent_at) : earlier.length < before'.length := by
  obtain ⟨recording', rest, hsplit, -, hpasses⟩ := h
  by_contra hle
  rcases List.append_eq_append_iff.mp hsplit with ⟨between, rfl, hbetween⟩ | ⟨between, rfl, hrest⟩
  · cases between with
    | nil => cases hbetween
    | cons e between => simp at hle
  · cases between with
    | nil => cases hrest
    | cons e between =>
      obtain ⟨rfl, rfl⟩ := List.cons.inj hrest
      obtain ⟨_, _, _, hconfirms⟩ := hconfirming
      have hpass := (hpasses between _ later rfl).2
      rw [hconfirms] at hpass
      cases hpass

/-- Over every history of events, `on_server_message` prompts exactly for the message that confirms
the latest punishment in time, records that command, and does so once for each command. -/
theorem confirms_exactly (admin : Bytes) (history : List Event) :
    ConfirmsExactly admin history := by
  have hiff : ∀ message recording now, ∀ action : Action, action ≠ .none →
      (((after admin history).on_server_message message recording now).2 = action ↔
        (if recording then .show_finish_prompt else .show_missing_evidence) = action ∧
          ∃ before command, Confirming admin history message now before command) := by
    intro message recording now action haction
    by_cases h : ∃ before command, Confirming admin history message now before command
    · obtain ⟨before, command, hconfirming⟩ := h
      rw [(answer_confirming hconfirming recording).1]
      exact ⟨fun heq => ⟨heq, before, command, hconfirming⟩, And.left⟩
    · rw [(answer_otherwise (fun before command hc => h ⟨before, command, hc⟩) recording).1]
      exact ⟨fun heq => absurd heq.symm haction, fun heq => absurd heq.2 h⟩
  constructor
  · intro message recording now
    rw [hiff message recording now _ (by simp)]
    cases recording <;> simp
  · intro message recording now
    rw [hiff message recording now _ (by simp)]
    cases recording <;> simp
  · intro message recording now before command h
    exact (answer_confirming h recording).2
  · intro message recording now h
    exact answer_otherwise h recording
  · intro e h
    exact confirmed_react _ h
  · rintro earlier message recording now later rfl before command h next time before' command'
      ⟨sent_at, hawaiting, -⟩
    exact awaiting_after_confirming h hawaiting

end GambitRecord.Plugin.Confirmation
