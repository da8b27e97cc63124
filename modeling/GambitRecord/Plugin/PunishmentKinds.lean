import GambitRecord.Plugin.Confirmation

/-! # Kinds of punishments

The commands that the plugin tracks and the phrases that confirm them, sorted by
what they do to a player. Only one command is pending at a time, and a message
confirms it whichever phrase it has.
-/

namespace GambitRecord.Plugin.Confirmation
open Library Logic

inductive Kind where
  | block
  | mute
  | jail
  deriving DecidableEq

def Kind.commands : Kind → List Bytes
  | .block => [Utf8.bytes "/ban", Utf8.bytes "/accban"]
  | .mute => [Utf8.bytes "/mute", Utf8.bytes "/bmute"]
  | .jail => [Utf8.bytes "/jail"]

/-- The last two phrases of a block begin with its first one. -/
def Kind.phrases : Kind → List Bytes
  | .block =>
    [Utf8.bytes "заблокировал", Utf8.bytes "заблокировала", Utf8.bytes "заблокировал OOC",
      Utf8.bytes "заблокировал IC"]
  | .mute =>
    [Utf8.bytes "выдал мут", Utf8.bytes "выдала мут", Utf8.bytes "заглушил",
      Utf8.bytes "заглушила"]
  | .jail => [Utf8.bytes "посадил", Utf8.bytes "посадила"]

def Kind.Commands (kind : Kind) (command : Bytes) : Prop :=
  lower_ascii (first_word command) ∈ kind.commands

def Kind.Names (kind : Kind) (message : Bytes) : Prop := kind.phrases.any (contains message) = true

def Kind.Only (kind : Kind) (message : Bytes) : Prop :=
  kind.Names message ∧ ∀ other : Kind, other.Names message → other = kind

/-- If the message is taken for a confirmation, the command that is recorded has the property. -/
def Records (admin : Bytes) (history : List Event) (message : Bytes) (recording : Bool) (now : ℤ)
    (p : Bytes → Prop) : Prop :=
  ((after admin history).on_server_message message recording now).2 ≠ .none →
    p ((after admin history).on_server_message message recording now).1.confirmed_command

/-- A message of one kind is recorded with a command of that kind. -/
def Labels (admin : Bytes) (history : List Event) (message : Bytes) (recording : Bool) (now : ℤ) :
    Prop :=
  ∀ kind : Kind, kind.Only message → Records admin history message recording now kind.Commands

/-- The confirmation of the command `answered` is recorded with no other command. -/
def KeepsApart (admin : Bytes) (history : List Event) (message : Bytes) (recording : Bool) (now : ℤ)
    (answered : Bytes) : Prop :=
  Records admin history message recording now (· = answered)

/-- The command that awaits its confirmation when the message comes has the property. -/
def Awaits (admin : Bytes) (history : List Event) (message : Bytes) (now : ℤ) (p : Bytes → Prop) :
    Prop :=
  ∀ before command, Confirming admin history message now before command → p command

instance (kind : Kind) (command : Bytes) : Decidable (kind.Commands command) :=
  inferInstanceAs (Decidable (_ ∈ _))

instance (kind : Kind) (message : Bytes) : Decidable (kind.Names message) :=
  inferInstanceAs (Decidable (_ = true))

/-- The plugin tracks the commands of the three kinds. -/
theorem is_punishment_command_iff {command : Bytes} :
    is_punishment_command command = true ↔ ∃ kind : Kind, kind.Commands command := by
  have hnames : ∀ word, word ∈ punishment_names ↔ ∃ kind : Kind, word ∈ kind.commands := by
    intro word
    constructor
    · intro hword
      simp only [punishment_names, List.mem_cons, List.not_mem_nil, or_false] at hword
      rcases hword with rfl | rfl | rfl | rfl | rfl
      · exact ⟨.block, by simp [Kind.commands]⟩
      · exact ⟨.mute, by simp [Kind.commands]⟩
      · exact ⟨.jail, by simp [Kind.commands]⟩
      · exact ⟨.mute, by simp [Kind.commands]⟩
      · exact ⟨.block, by simp [Kind.commands]⟩
    · rintro ⟨kind, hword⟩
      cases kind <;>
      · simp only [Kind.commands, punishment_names, List.mem_cons, List.not_mem_nil, or_false]
          at hword ⊢
        tauto
  rw [is_punishment_command, decide_eq_true_eq]
  exact hnames _

/-- A message that confirms a punishment names one of the kinds. -/
theorem exists_names {message admin : Bytes} (h : confirms_punishment message admin = true) :
    ∃ kind : Kind, kind.Names message := by
  have hphrase : phrases.any (contains message) = true := by
    by_contra hnone
    simp [confirms_punishment, hnone] at h
  obtain ⟨phrase, hmem, hcontains⟩ := List.any_eq_true.mp hphrase
  have hkind : ∀ phrase ∈ phrases, ∃ kind ∈ [Kind.block, .mute, .jail], phrase ∈ kind.phrases := by
    decide +kernel
  obtain ⟨kind, -, hin⟩ := hkind phrase hmem
  exact ⟨kind, List.any_eq_true.mpr ⟨phrase, hin, hcontains⟩⟩

/-- What is recorded is the command that awaits its confirmation. -/
theorem records_iff (admin : Bytes) (history : List Event) (message : Bytes) (recording : Bool)
    (now : ℤ) (p : Bytes → Prop) :
    Records admin history message recording now p ↔ Awaits admin history message now p := by
  constructor
  · intro h before command hconfirming
    obtain ⟨haction, hrecorded⟩ := answer_confirming hconfirming recording
    have hp := h (by rw [haction]; cases recording <;> decide)
    have hcommand := congrArg Prod.fst hrecorded
    simp only [confirmed] at hcommand
    rw [hcommand] at hp
    exact hp
  · intro h haction
    by_cases hsome : ∃ before command, Confirming admin history message now before command
    · obtain ⟨before, command, hconfirming⟩ := hsome
      have hcommand := congrArg Prod.fst (answer_confirming hconfirming recording).2
      simp only [confirmed] at hcommand
      rw [hcommand]
      exact h before command hconfirming
    · have hnone := answer_otherwise (fun before command hc => hsome ⟨before, command, hc⟩) recording
      exact absurd hnone.1 haction

/-- A confirmation is recorded under its kind exactly when the command that awaits one is of that
kind, and with the command it answers exactly when that is the one that awaits it. -/
theorem labels_iff (admin : Bytes) (history : List Event) (message : Bytes) (recording : Bool)
    (now : ℤ) :
    (Labels admin history message recording now ↔
      ∀ kind : Kind, kind.Only message → Awaits admin history message now kind.Commands) ∧
    ∀ answered, KeepsApart admin history message recording now answered ↔
      Awaits admin history message now (· = answered) := by
  constructor
  · apply forall_congr'
    intro kind
    apply imp_congr_right
    intro _
    exact records_iff admin history message recording now kind.Commands
  · intro answered
    exact records_iff admin history message recording now (· = answered)

def muteThenBan : List Event :=
  [.command (Utf8.bytes "/mute 3 30 spam") true 0, .command (Utf8.bytes "/ban 5 3 cheat") true 1]

def muteMessage : Bytes := Utf8.bytes "Администратор omsky заглушил игрока Test"

/-- The confirmation of the mute is recorded as that of the ban. -/
theorem not_alwaysLabels :
    ¬ ∀ (admin : Bytes) (history : List Event) (message : Bytes) (recording : Bool) (now : ℤ),
      Labels admin history message recording now := by
  intro hall
  have honly : Kind.mute.Only muteMessage := by
    refine ⟨by decide +kernel, ?_⟩
    intro other
    cases other <;> decide +kernel
  have hcommand := hall (Utf8.bytes "omsky") muteThenBan muteMessage true 2 .mute honly
    (by decide +kernel)
  revert hcommand
  decide +kernel

end GambitRecord.Plugin.Confirmation
