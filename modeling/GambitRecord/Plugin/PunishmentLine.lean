import GambitRecord.Plugin.Confirmation

/-! # The reason of a typed punishment

Punishment lines in the grammar that the source gives for them, `/command id
[duration] reason`, and what `punishment_reason` finds in them: it always skips
three words.
-/

namespace GambitRecord.Plugin
open Library Logic Confirmation

structure Token where
  text : Bytes
  ne_nil : text ≠ []
  unspaced : space ∉ text

def isDigit (c : UInt8) : Bool := 48 ≤ c ∧ c ≤ 57

/-- The parts of a line, with the number of spaces more than one behind each. -/
structure PunishmentLine where
  word : Bytes
  tracked : lower_ascii word ∈ punishment_names
  behind_word : ℕ
  id : Token
  behind_id : ℕ
  duration : Option Token
  digits : ∀ d ∈ duration, d.text.all isDigit
  behind_duration : ℕ
  reason : Bytes
  reason_head : ∀ c ∈ reason.head?, c ≠ space
  reason_ne_nil : reason ≠ []
  undigited : duration = none → (reason.takeWhile (· ≠ space)).all isDigit = false

def spaces (n : ℕ) : Bytes := List.replicate (n + 1) space

namespace PunishmentLine

def text (line : PunishmentLine) : Bytes :=
  line.word ++ (spaces line.behind_word ++ (line.id.text ++ (spaces line.behind_id ++
    match line.duration with
    | some duration => duration.text ++ (spaces line.behind_duration ++ line.reason)
    | none => line.reason)))

/-- The reason is found in the line, and goes with the punishment that awaits its confirmation. -/
structure KeepsReason (line : PunishmentLine) : Prop where
  found : punishment_reason line.text = line.reason
  pending : ∀ (logic : Logic) recording now,
    (logic.on_command line.text recording now).1.pending.map Punishment.reason = some line.reason

end PunishmentLine

/-- A word and the spaces behind it are skipped. -/
theorem next_token_append {word rest : Bytes} (hword : space ∉ word)
    (hrest : ∀ c ∈ rest.head?, c ≠ space) (n : ℕ) :
    next_token (word ++ (spaces n ++ rest)) = rest := by
  have hskip : (word ++ (spaces n ++ rest)).dropWhile (· ≠ space) = spaces n ++ rest := by
    rw [List.dropWhile_append_of_pos]
    · rw [spaces, List.replicate_succ, List.cons_append]
      rfl
    · intro c hc
      simp only [ne_eq, decide_not, Bool.not_eq_true', decide_eq_false_iff_not]
      rintro rfl
      exact hword hc
  have hspaces : ∀ c ∈ spaces n, decide (c = space) = true := by
    intro c hc
    exact decide_eq_true (List.eq_of_mem_replicate hc)
  rw [next_token, hskip, List.dropWhile_append_of_pos hspaces]
  cases rest with
  | nil => rfl
  | cons c rest => rw [List.dropWhile_cons_of_neg (by simpa using hrest c rfl)]

theorem next_token_ne_self {text : Bytes} (hne : text ≠ []) (htext : ∀ c ∈ text.head?, c ≠ space) :
    next_token text ≠ text := by
  cases text with
  | nil => exact absurd rfl hne
  | cons c text =>
    intro hsame
    have hlength := congrArg List.length hsame
    have hspace : (List.dropWhile (· = space) (text.dropWhile (· ≠ space))).length ≤
        (text.dropWhile (· ≠ space)).length := (List.dropWhile_sublist _).length_le
    have hword : (text.dropWhile (· ≠ space)).length ≤ text.length :=
      (List.dropWhile_sublist _).length_le
    rw [next_token, List.dropWhile_cons_of_pos (by simpa using htext c rfl), List.length_cons]
      at hlength
    omega

/-- A tracked word has no separator in it, in any letter case. -/
theorem not_separator_of_tracked {word : Bytes} (h : lower_ascii word ∈ punishment_names) :
    ∀ c ∈ word, ¬ Separator c := by
  have hnames : ∀ name ∈ punishment_names, ∀ c ∈ name, ¬ Separator c := by
    decide +kernel
  intro c hc hseparator
  have hlower : c ∈ lower_ascii word := by
    refine List.mem_map.mpr ⟨c, hc, ?_⟩
    rcases hseparator with rfl | rfl | rfl | rfl <;> rfl
  exact hnames _ h c hlower hseparator

namespace PunishmentLine

theorem first_word_text (line : PunishmentLine) : first_word line.text = line.word := by
  have hword : ∀ c ∈ line.word, decide (¬ (c = space ∨ c = 9 ∨ c = 13 ∨ c = 10)) = true :=
    fun c hc => decide_eq_true (not_separator_of_tracked line.tracked c hc)
  rw [first_word, text, List.takeWhile_append_of_pos hword, spaces, List.replicate_succ,
    List.cons_append]
  simp

theorem space_notMem_word (line : PunishmentLine) : space ∉ line.word :=
  fun hspace => not_separator_of_tracked line.tracked space hspace (.inl rfl)

theorem head_token (token : Token) (rest : Bytes) : ∀ c ∈ (token.text ++ rest).head?, c ≠ space := by
  intro c hc
  rw [List.head?_append_of_ne_nil _ token.ne_nil] at hc
  rintro rfl
  exact token.unspaced (List.mem_of_mem_head? hc)

/-- The three words that are skipped are those before the reason only when a duration is given. -/
theorem punishment_reason_text (line : PunishmentLine) :
    punishment_reason line.text =
      if line.duration.isSome then line.reason else next_token line.reason := by
  have hid (rest : Bytes) := head_token line.id rest
  rw [punishment_reason, text, next_token_append line.space_notMem_word (hid _)]
  cases line.duration with
  | none =>
    rw [next_token_append line.id.unspaced line.reason_head]
    rfl
  | some duration =>
    rw [next_token_append line.id.unspaced (head_token duration _),
      next_token_append duration.unspaced line.reason_head]
    rfl

theorem tracked_text (line : PunishmentLine) : is_punishment_command line.text = true := by
  rw [is_punishment_command, first_word_text]
  exact decide_eq_true line.tracked

/-- The reason of a punishment is kept exactly when a duration is given. -/
theorem keepsReason_iff (line : PunishmentLine) :
    line.KeepsReason ↔ line.duration.isSome = true := by
  constructor
  · intro h
    have hfound := h.found
    rw [punishment_reason_text] at hfound
    by_contra hnone
    rw [if_neg hnone] at hfound
    exact next_token_ne_self line.reason_ne_nil line.reason_head hfound
  · intro hsome
    have hfound : punishment_reason line.text = line.reason := by
      rw [punishment_reason_text, if_pos hsome]
    refine ⟨hfound, ?_⟩
    intro logic recording now
    rw [on_command_punishment line.tracked_text, Option.map_some, hfound]

def jailLine : PunishmentLine where
  word := Utf8.bytes "/jail"
  tracked := by decide +kernel
  behind_word := 0
  id := ⟨Utf8.bytes "3", by decide +kernel, by decide +kernel⟩
  behind_id := 0
  duration := none
  digits := by simp
  behind_duration := 0
  reason := Utf8.bytes "dm zone"
  reason_head := by decide +kernel
  reason_ne_nil := by decide +kernel
  undigited := fun _ => by decide +kernel

/-- Without a duration the first word of the reason is taken for one. -/
theorem not_alwaysKeepsReason : ¬ ∀ line : PunishmentLine, line.KeepsReason := by
  intro hall
  have hfound := (hall jailLine).found
  revert hfound
  decide +kernel

end PunishmentLine
end GambitRecord.Plugin
