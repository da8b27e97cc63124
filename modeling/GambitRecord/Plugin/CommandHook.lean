import Mathlib.Data.List.TakeWhile
import GambitRecord.Plugin.Globals

/-! # The hook of the typed lines

`send_command_hook` gives a line to the chat logic and withholds it from the
server by a comparison of its own. The logic ends a word at any white space and
lowers its letters; the comparison does neither.
-/

namespace GambitRecord.Plugin
open Library Logic

namespace CommandHook

/-- What the hook does besides the globals' part: the page it shows, its own answer, and what
reaches the server. -/
structure Sent where
  plugin : Globals
  request : Option Recorder.Request
  settings_page : Bool
  notice : Option Bytes
  forwarded : Option (Option Bytes)

def command (raw : Option Bytes) : Bytes := (raw.map cp1251_to_utf8).getD []

def word (command : Bytes) : Bytes := command.takeWhile (· ≠ space)

def locals : List Bytes :=
  [Utf8.bytes "/grecord", Utf8.bytes "/estart", Utf8.bytes "/estop", Utf8.bytes "/estatus",
    Utf8.bytes "/esettings"]

def send_command_hook (plugin : Globals) (clock : Clock) (raw : Option Bytes) : Sent :=
  let command := command raw
  let word := word command
  let (plugin, request) := plugin.on_typed command clock
  { plugin
    request
    settings_page := word = Utf8.bytes "/esettings"
    notice :=
      if word = Utf8.bytes "/estatus" then
        some (Utf8.bytes (if plugin.recording then "REC: включена" else "REC: выключена"))
      else none
    forwarded := if word ∈ locals then none else some raw }

/-- The words that the chat logic acts on. -/
def acted : List Bytes :=
  [Utf8.bytes "/grecord", Utf8.bytes "/esettings", Utf8.bytes "/estart", Utf8.bytes "/estop"]

/-- The logic answers with an action, or the hook answers itself. -/
def Acts (plugin : Globals) (clock : Clock) (raw : Option Bytes) : Prop :=
  (plugin.logic.on_command (command raw) plugin.recording clock.steady).2 ≠ .none ∨
    (send_command_hook plugin clock raw).settings_page = true ∨
    (send_command_hook plugin clock raw).notice ≠ none

/-- One of the two takes the line for a command of the plugin. -/
def Recognised (command : Bytes) : Prop :=
  lower_ascii (first_word command) ∈ acted ∨ word command ∈ locals

/-- What the plugin acts on is withheld from the server, and the rest is sent unchanged. -/
structure Separates (plugin : Globals) (clock : Clock) (raw : Option Bytes) : Prop where
  once : Acts plugin clock raw → (send_command_hook plugin clock raw).forwarded = none
  withheld : Recognised (command raw) → (send_command_hook plugin clock raw).forwarded = none
  unchanged : ¬ Recognised (command raw) →
    (send_command_hook plugin clock raw).forwarded = some raw

/-- What stands behind the first word. -/
def behind (command : Bytes) : Bytes := command.dropWhile fun c => ¬ Separator c

/-- The first word stands at the end or before a space. -/
def Ended (command : Bytes) : Prop := ∀ c ∈ (behind command).head?, c = space

/-- A word of the plugin is typed in lower case, with a space or nothing behind it. -/
def Exact (command : Bytes) : Prop :=
  lower_ascii (first_word command) ∈ acted →
    lower_ascii (first_word command) = first_word command ∧ Ended command

theorem first_word_append (command : Bytes) : first_word command ++ behind command = command :=
  List.takeWhile_append_dropWhile

theorem space_notMem_first_word (command : Bytes) : space ∉ first_word command := by
  intro hspace
  have h := List.mem_takeWhile_imp hspace
  simp at h

theorem separator_of_behind {command : Bytes} : ∀ c ∈ (behind command).head?, Separator c := by
  intro c hc
  have h := List.head?_dropWhile_not (fun c => decide (¬ Separator c)) command
  rw [← behind, Option.mem_def.mp hc] at h
  simpa using h

theorem word_eq (command : Bytes) :
    word command = first_word command ++ (behind command).takeWhile (· ≠ space) := by
  have hfirst : ∀ c ∈ first_word command, decide (c ≠ space) = true := by
    intro c hc
    apply decide_eq_true
    rintro rfl
    exact space_notMem_first_word command hc
  rw [← List.takeWhile_append_of_pos hfirst, first_word_append, word]

/-- The comparison finds a word of the plugin exactly where it ends at a space or the end. -/
theorem word_mem_locals_iff (command : Bytes) :
    word command ∈ locals ↔ first_word command ∈ locals ∧ Ended command := by
  have hplain : ∀ name ∈ locals, ∀ c ∈ name, ¬ Separator c := by decide +kernel
  rw [word_eq]
  cases hbehind : behind command with
  | nil => simp [Ended, hbehind]
  | cons c rest =>
    by_cases hc : c = space
    · simp [Ended, hbehind, hc]
    · constructor
      · intro hword
        have hmem : c ∈ first_word command ++ (c :: rest).takeWhile (· ≠ space) := by
          rw [List.takeWhile_cons_of_pos (by simpa using hc)]
          simp
        have hseparator : Separator c := separator_of_behind c (by rw [hbehind]; rfl)
        exact absurd hseparator (hplain _ hword c hmem)
      · rintro ⟨-, hended⟩
        exact absurd (hended c (by rw [hbehind]; rfl)) hc

/-- The names are in lower case. -/
theorem lower_ascii_of_mem_locals {name : Bytes} (h : name ∈ locals) : lower_ascii name = name := by
  revert name
  decide +kernel

theorem mem_locals_of_mem_acted {name : Bytes} (h : name ∈ acted) : name ∈ locals := by
  revert name
  decide +kernel

/-- The logic has an action only for its own words. -/
theorem mem_acted_of_action {logic : Logic} {line : Bytes} {recording : Bool} {now : ℤ}
    (h : (logic.on_command line recording now).2 ≠ .none) :
    lower_ascii (first_word line) ∈ acted := by
  by_contra hword
  simp only [acted, List.mem_cons, List.not_mem_nil, or_false, not_or] at hword
  obtain ⟨hgrecord, hesettings, hestart, hestop⟩ := hword
  apply h
  rw [Logic.on_command, if_neg (not_or.mpr ⟨hgrecord, hesettings⟩), if_neg hestart, if_neg hestop]
  split_ifs <;> rfl

theorem forwarded_eq_none_iff (plugin : Globals) (clock : Clock) (raw : Option Bytes) :
    (send_command_hook plugin clock raw).forwarded = none ↔ word (command raw) ∈ locals := by
  simp only [send_command_hook]
  split_ifs with hlocal <;> simp [hlocal]

/-- What is acted on is recognised. -/
theorem recognised_of_acts {plugin : Globals} {clock : Clock} {raw : Option Bytes}
    (h : Acts plugin clock raw) : Recognised (command raw) := by
  rcases h with haction | hpage | hnotice
  · exact .inl (mem_acted_of_action haction)
  · have hword : word (command raw) = Utf8.bytes "/esettings" := of_decide_eq_true hpage
    exact .inr (by rw [hword]; simp [locals])
  · have hword : word (command raw) = Utf8.bytes "/estatus" := by
      by_contra hother
      exact hnotice (if_neg hother)
    exact .inr (by rw [hword]; simp [locals])

/-- The hook keeps the plugin's lines from the server exactly when their words are typed as its
comparison has them. -/
theorem separates_iff (plugin : Globals) (clock : Clock) (raw : Option Bytes) :
    Separates plugin clock raw ↔ Exact (command raw) := by
  constructor
  · intro h hacted
    have hlocal := (forwarded_eq_none_iff plugin clock raw).mp (h.withheld (.inl hacted))
    obtain ⟨hname, hended⟩ := (word_mem_locals_iff _).mp hlocal
    exact ⟨lower_ascii_of_mem_locals hname, hended⟩
  · intro hexact
    have hwithheld : Recognised (command raw) →
        (send_command_hook plugin clock raw).forwarded = none := by
      rintro (hacted | hlocal)
      · obtain ⟨hlower, hended⟩ := hexact hacted
        rw [hlower] at hacted
        have hname := mem_locals_of_mem_acted hacted
        exact (forwarded_eq_none_iff _ _ _).mpr ((word_mem_locals_iff _).mpr ⟨hname, hended⟩)
      · exact (forwarded_eq_none_iff _ _ _).mpr hlocal
    refine ⟨fun hacts => hwithheld (recognised_of_acts hacts), hwithheld, ?_⟩
    intro hother
    have hword : word (command raw) ∉ locals := fun hlocal => hother (.inr hlocal)
    simp only [send_command_hook]
    rw [if_neg hword]

/-- `/ESTART` starts a recording and reaches the server. -/
theorem not_alwaysSeparates :
    ¬ ∀ (plugin : Globals) (clock : Clock) (raw : Option Bytes), Separates plugin clock raw := by
  intro hall
  have h := (hall {} ⟨0, 0, []⟩ (some (Utf8.bytes "/ESTART"))).withheld (.inl (by decide +kernel))
  revert h
  decide +kernel

end CommandHook
end GambitRecord.Plugin
