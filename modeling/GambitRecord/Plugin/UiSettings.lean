import GambitRecord.Library.Json.Access
import GambitRecord.Library.Post
import GambitRecord.Plugin.UiConfig

/-! # Saving the interface settings

`save_settings` on the disk, with a failure at any point. What is thrown carries
the drive as it was then; the stream is closed on the way to the handler, which
removes the temporary file.
-/

namespace GambitRecord.Plugin.Ui
open Library Library.DigitText

/-- The text of an exception of the standard library, which always says something. -/
abbrev Thrown := { what : Text // what ≠ [] }

inductive SaveError where
  /-- What `create_directories` throws. -/
  | directory (what : Thrown)
  | cannotWrite
  | cannotReplace (code : ℕ)
  deriving DecidableEq

def SaveError.what : SaveError → Text
  | .directory what => what.val
  | .cannotWrite => text "Cannot write UI settings"
  | .cannotReplace code => text "Cannot replace UI settings: " ++ decimal code

theorem what_ne_nil (e : SaveError) : e.what ≠ [] := by
  cases e with
  | directory what => exact what.property
  | cannotWrite =>
    rw [SaveError.what, text]
    decide
  | cannotReplace code =>
    rw [SaveError.what]
    exact List.append_ne_nil_of_right_ne_nil _ (decimal_ne_nil code)

/-- The two files, and the stream on the temporary one. -/
structure Drive where
  ui : Option Bytes
  temporary : Option Bytes
  opened : Bool
  failed : Bool
  deriving DecidableEq

/-- What the file system does in one save: the text of an exception for the directory, whether the
temporary file is opened, after how many bytes the write is cut short, the error of the rename. -/
structure Answers where
  directory : Option Thrown
  opens : Bool
  cut : Option ℕ
  rename : Option ℕ
  deriving DecidableEq

abbrev Step := Except (SaveError × Drive) Drive

namespace Drive

def create_directories (answers : Answers) (d : Drive) : Step :=
  match answers.directory with
  | none => .ok d
  | some what => .error (.directory what, d)

/-- `std::ofstream file(temp, binary | trunc)`. -/
def openTemporary (answers : Answers) (d : Drive) : Drive :=
  if answers.opens then { d with temporary := some [], opened := true, failed := false }
  else { d with opened := false, failed := true }

/-- `file << ...; file.flush()`: a failed stream takes no bytes, one that is cut short fails. -/
def write (answers : Answers) (bytes : Bytes) (d : Drive) : Drive :=
  if d.failed then d
  else match answers.cut with
  | none => { d with temporary := some bytes }
  | some n => { d with temporary := some (bytes.take n), failed := true }

def close (d : Drive) : Drive := { d with opened := false }

/-- `MoveFileExW` with a replaced target; a file that is open cannot be moved. -/
def move (answers : Answers) (d : Drive) : Step :=
  match d.opened, d.temporary, answers.rename with
  | false, some bytes, none => .ok { d with ui := some bytes, temporary := none }
  | true, _, _ => .error (.cannotReplace 32, d)
  | false, none, _ => .error (.cannotReplace 2, d)
  | false, some _, some code => .error (.cannotReplace code, d)

/-- `std::filesystem::remove`; a file that is open stays. -/
def remove (d : Drive) : Drive := if d.opened then d else { d with temporary := none }

end Drive

/-- What a save returns, its error text and the two files after it. -/
structure Saved where
  returned : Bool
  error : Text
  ui : Option Bytes
  temporary : Option Bytes
  deriving DecidableEq

/-- The members in the order of their keys, as a JSON object keeps them. -/
def settings_json (format : ℚ → Json.FloatText) (value : Settings ℚ) : Json :=
  .object
    [(Utf8.bytes "anchor_x", .scalar (.float (format value.anchor.x))),
      (Utf8.bytes "anchor_y", .scalar (.float (format value.anchor.y))),
      (Utf8.bytes "custom_position", .ofBool value.custom_position),
      (Utf8.bytes "follow_gadmin", .ofBool value.follow_gadmin),
      (Utf8.bytes "opacity", .scalar (.float (format value.opacity))),
      (Utf8.bytes "scale", .scalar (.float (format value.scale))),
      (Utf8.bytes "version", .ofUInt32 1)]

theorem valid_settings_json (format : ℚ → Json.FloatText) (value : Settings ℚ) :
    (settings_json format value).Valid := by
  simp [settings_json]

/-- What is written; all strings are constants, so `dump` does not throw. -/
def document (format : ℚ → Json.FloatText) (settings : Settings Float) : Text :=
  ((settings_json format (validated settings)).dump (some 2)).get
    ((Json.dump_isSome (some 2)).mpr (valid_settings_json format _)) ++ ['\n']

def replace (bytes : Bytes) (answers : Answers) (d : Drive) : Step := do
  let d ← d.create_directories answers
  let d := (d.openTemporary answers).write answers bytes
  if d.failed then .error (.cannotWrite, d)
  else d.close.move answers

/-- `save_settings` on the two files; `format` writes a number. -/
def save_settings (format : ℚ → Json.FloatText) (settings : Settings Float)
    (ui temporary : Option Bytes) (answers : Answers) : Saved :=
  match replace (Utf8.encode (document format settings)) answers ⟨ui, temporary, false, false⟩ with
  | .ok d => ⟨true, [], d.ui, d.temporary⟩
  -- the stream is destroyed before the handler runs
  | .error (e, d) => ⟨false, e.what, d.close.remove.ui, d.close.remove.temporary⟩

variable {answers : Answers} {bytes : Bytes} {d : Drive}

namespace Drive

@[simp] theorem ui_openTemporary : (d.openTemporary answers).ui = d.ui := by
  rw [openTemporary]
  split_ifs <;> rfl

@[simp] theorem ui_write : (d.write answers bytes).ui = d.ui := by
  rw [write]
  by_cases hfailed : d.failed = true
  · rw [if_pos hfailed]
  · rw [if_neg hfailed]
    cases answers.cut <;> rfl

@[simp] theorem ui_close : d.close.ui = d.ui := rfl

@[simp] theorem ui_remove : d.remove.ui = d.ui := by
  rw [remove]
  split_ifs <;> rfl

/-- The stream is closed by then, so the file is removed. -/
@[simp] theorem temporary_remove_close : d.close.remove.temporary = none := rfl

theorem temporary_write (h : (d.write answers bytes).failed = false) :
    (d.write answers bytes).temporary = some bytes := by
  rw [write] at h ⊢
  by_cases hfailed : d.failed = true
  · rw [if_pos hfailed, hfailed] at h
    cases h
  · rw [if_neg hfailed] at h ⊢
    cases hcut : answers.cut with
    | none => rfl
    | some n =>
      rw [hcut] at h
      cases h

theorem post_create_directories :
    Post (fun thrown => thrown.2 = d) (d.create_directories answers) fun d' => d' = d := by
  rw [create_directories]
  cases answers.directory <;> exact rfl

theorem post_move (htemporary : d.temporary = some bytes) :
    Post (fun thrown => thrown.2.ui = d.ui) (d.close.move answers)
      fun d' => d'.ui = some bytes ∧ d'.temporary = none := by
  have hclosed : d.close.opened = false := rfl
  have hkept : d.close.temporary = some bytes := htemporary
  rw [move, hclosed, hkept]
  cases answers.rename with
  | none => exact ⟨rfl, rfl⟩
  | some code => exact rfl

end Drive

/-- Up to the rename the settings file is the old one. -/
theorem post_replace :
    Post (fun thrown => thrown.2.ui = d.ui) (replace bytes answers d)
      fun d' => d'.ui = some bytes ∧ d'.temporary = none := by
  rw [replace, post_bind]
  have hdirectory := @Drive.post_create_directories answers d
  cases hstep : d.create_directories answers with
  | error thrown =>
    rw [hstep] at hdirectory
    exact congrArg Drive.ui hdirectory
  | ok d' =>
    rw [hstep] at hdirectory
    have hd : d' = d := hdirectory
    subst hd
    rw [post_ok]
    by_cases hfailed : ((d'.openTemporary answers).write answers bytes).failed = true
    · simp [hfailed]
    · rw [if_neg hfailed]
      have hwritten := Drive.temporary_write (Bool.eq_false_of_not_eq_true hfailed)
      simpa using @Drive.post_move answers _ _ hwritten

/-- The document is whole: it is read back as the settings that were to be saved. -/
theorem parseBytes_document (format : ℚ → Json.FloatText) (settings : Settings Float) :
    Json.parseBytes (Utf8.encode (document format settings)) =
      some (settings_json format (validated settings)) := by
  rw [document]
  apply Json.parseBytes_dump
  · exact (Option.some_get _).symm
  · decide

/-- A save replaces the settings by the new document, which is whole, or it reports an error and
leaves them as they were; either way no temporary file stays behind. -/
theorem saves_or_keeps (format : ℚ → Json.FloatText) (settings : Settings Float)
    (ui temporary : Option Bytes) (answers : Answers) :
    let saved := save_settings format settings ui temporary answers
    saved.temporary = none ∧
      ((saved.returned = true ∧ saved.error = [] ∧
          saved.ui = some (Utf8.encode (document format settings))) ∨
        (saved.returned = false ∧ saved.error ≠ [] ∧ saved.ui = ui)) ∧
      Json.parseBytes (Utf8.encode (document format settings)) =
        some (settings_json format (validated settings)) := by
  have hpost := @post_replace answers (Utf8.encode (document format settings))
    ⟨ui, temporary, false, false⟩
  simp only [save_settings]
  cases hreplace : replace (Utf8.encode (document format settings)) answers
      ⟨ui, temporary, false, false⟩ with
  | ok d =>
    rw [hreplace] at hpost
    exact ⟨hpost.2, .inl ⟨rfl, rfl, hpost.1⟩, parseBytes_document format settings⟩
  | error thrown =>
    rw [hreplace] at hpost
    refine ⟨rfl, .inr ⟨rfl, what_ne_nil thrown.1, ?_⟩, parseBytes_document format settings⟩
    simpa using hpost

/-- When nothing fails, the settings are saved. -/
theorem save_settings_whole (format : ℚ → Json.FloatText) (settings : Settings Float)
    (ui temporary : Option Bytes) :
    save_settings format settings ui temporary ⟨none, true, none, none⟩ =
      ⟨true, [], some (Utf8.encode (document format settings)), none⟩ := rfl

end GambitRecord.Plugin.Ui
