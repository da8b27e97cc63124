import Mathlib.Data.Int.Order.Basic
import Mathlib.Logic.Function.Basic
import GambitRecord.Library.CodePage
import GambitRecord.Library.DigitText
import GambitRecord.Library.Utf16
import GambitRecord.Library.Utf8

/-! # The plugin's chat logic

`grecord::Logic`: which typed commands start or stop a recording, and when a
server message confirms the punishment that was typed last. Strings are bytes;
steady-clock times are in nanoseconds.
-/

namespace GambitRecord.Plugin
open Library Library.DigitText

inductive Action where
  | none
  | open_settings
  | start_recording
  | stop_and_upload
  | stop_local
  | show_start_prompt
  | show_finish_prompt
  | show_missing_evidence
  deriving DecidableEq

structure Punishment where
  command : Bytes
  reason : Bytes
  sent_at : ℤ
  deriving DecidableEq

/-- The private members of the class. -/
structure Logic where
  admin : Bytes := []
  player_names : Int32 → Option Bytes := fun _ => Option.none
  pending : Option Punishment := Option.none
  target_id : Int32 := -1
  target_name : Bytes := []
  confirmed_command : Bytes := []
  confirmed_reason : Bytes := []
  spectate_prompt_shown : Bool := false

def space : UInt8 := 32

def cp1251_to_utf8 (input : Bytes) : Bytes :=
  match (CodePage.windows1251.decode input).bind Utf16.decode with
  | some text => Utf8.encode text
  | Option.none => input

def lower_ascii (value : Bytes) : Bytes :=
  value.map fun c => if 65 ≤ c ∧ c ≤ 90 then c + 32 else c

/-- The part before the first of `" \t\r\n"`. -/
def first_word (input : Bytes) : Bytes :=
  input.takeWhile fun c => ¬ (c = space ∨ c = 9 ∨ c = 13 ∨ c = 10)

/-- The characters that end a first word. -/
def Separator (c : UInt8) : Prop := c = space ∨ c = 9 ∨ c = 13 ∨ c = 10

instance : DecidablePred Separator := fun _ => instDecidableOr

def contains (message phrase : Bytes) : Bool := message.tails.any phrase.isPrefixOf

def ends_with_admin (message admin : Bytes) : Bool :=
  ¬ admin.isEmpty ∧ (Utf8.bytes "// " ++ admin).isSuffixOf message

def to_string (n : Int32) : Bytes :=
  Utf8.encode (if n.toInt < 0 then '-' :: decimal n.toInt.natAbs else decimal n.toInt.natAbs)

namespace Logic

def punishment_names : List Bytes :=
  [Utf8.bytes "/ban", Utf8.bytes "/mute", Utf8.bytes "/jail", Utf8.bytes "/bmute",
    Utf8.bytes "/accban"]

def is_punishment_command (command : Bytes) : Bool :=
  lower_ascii (first_word command) ∈ punishment_names

/-- From the next space on, then from the first character that is none; empty stands for
`npos`, which every later search keeps. -/
def next_token (tail : Bytes) : Bytes := (tail.dropWhile (· ≠ space)).dropWhile (· = space)

def punishment_reason (command : Bytes) : Bytes := next_token (next_token (next_token command))

def phrases : List Bytes :=
  [Utf8.bytes "заблокировал", Utf8.bytes "заблокировала", Utf8.bytes "выдал мут",
    Utf8.bytes "выдала мут", Utf8.bytes "заглушил", Utf8.bytes "заглушила", Utf8.bytes "посадил",
    Utf8.bytes "посадила", Utf8.bytes "заблокировал OOC", Utf8.bytes "заблокировал IC"]

def confirms_punishment (message admin : Bytes) : Bool :=
  if ¬ (Utf8.bytes "Администратор ").isPrefixOf message then false
  else if ¬ phrases.any (contains message) then false
  else
    (¬ admin.isEmpty ∧ (Utf8.bytes "Администратор " ++ admin ++ [space]).isPrefixOf message) ∨
      ends_with_admin message admin

def on_command (logic : Logic) (command : Bytes) (recording : Bool) (now : ℤ) : Logic × Action :=
  let word := lower_ascii (first_word command)
  if word = Utf8.bytes "/grecord" ∨ word = Utf8.bytes "/esettings" then (logic, .open_settings)
  else if word = Utf8.bytes "/estart" then (logic, .start_recording)
  else if word = Utf8.bytes "/estop" then (logic, if recording then .stop_local else .none)
  else if is_punishment_command command then
    ({ logic with pending := some ⟨command, punishment_reason command, now⟩ }, .none)
  else (logic, .none)

def window : ℤ := 30 * 1000000000

/-- The punishment a message confirms, with what stays pending. -/
def on_server_message (logic : Logic) (message : Bytes) (recording : Bool) (now : ℤ) :
    Logic × Action :=
  match logic.pending with
  | Option.none => (logic, .none)
  | some pending =>
    if now - pending.sent_at > window then ({ logic with pending := Option.none }, .none)
    else if ¬ confirms_punishment message logic.admin then (logic, .none)
    else
      ({ logic with
          confirmed_command := pending.command
          confirmed_reason := pending.reason
          pending := Option.none },
        if recording then .show_finish_prompt else .show_missing_evidence)

def on_spectating_player (logic : Logic) (id : Int32) (recording : Bool) : Logic × Action :=
  let logic :=
    { logic with
      target_id := id
      target_name := (logic.player_names id).getD (Utf8.bytes "ID " ++ to_string id) }
  if ¬ recording ∧ ¬ logic.spectate_prompt_shown then
    ({ logic with spectate_prompt_shown := true }, .show_start_prompt)
  else (logic, .none)

def on_player_name (logic : Logic) (id : Int32) (nickname : Bytes) : Logic :=
  let logic := { logic with player_names := Function.update logic.player_names id (some nickname) }
  if id = logic.target_id then { logic with target_name := nickname } else logic

def clear_spectating (logic : Logic) : Logic := { logic with target_id := -1, target_name := [] }

/-- Nothing in the plugin calls it. -/
def reset_session (logic : Logic) : Logic :=
  { logic with
    pending := Option.none
    target_id := -1
    target_name := []
    confirmed_command := []
    confirmed_reason := []
    spectate_prompt_shown := false }

end Logic
end GambitRecord.Plugin
