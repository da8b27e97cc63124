import GambitRecord.Library.Json.Access

/-! # The theme of the other plugin

`parse_theme` and `ThemeReader::poll`. A poll asks the file for several things, one
after the other, and the file may be any other at each of them; an answer that throws is
`none`. MessagePack is decoded by a library.
-/

namespace GambitRecord.Plugin.Ui
open Library

structure Theme where
  surface : Vector UInt32 2 := #v[0xFF2E1E1E, 0xFF251818]
  text : Vector UInt32 2 := #v[0xFFF4D6CD, 0xFFDEC2BA]
  overlay : Vector UInt32 3 := #v[0xFF443231, 0xFF5A4745, 0xFF705B58]
  red : UInt32 := 0xFFA88BF3
  green : UInt32 := 0xFFA1E3A6
  yellow : UInt32 := 0xFFAFE2F9
  deriving DecidableEq

def hex_digit (b : UInt8) : Option ℕ :=
  if 48 ≤ b ∧ b ≤ 57 then some (b.toNat - 48)
  else if 65 ≤ b ∧ b ≤ 70 then some (b.toNat - 55)
  else if 97 ≤ b ∧ b ≤ 102 then some (b.toNat - 87)
  else none

/-- `std::from_chars` of an unsigned number in base 16, and what is left behind it. -/
def from_chars (str : Bytes) : Option (UInt32 × Bytes) :=
  let run := str.takeWhile fun b => (hex_digit b).isSome
  let value := (run.filterMap hex_digit).foldl (fun n digit => 16 * n + digit) 0
  if run.isEmpty ∨ 2 ^ 32 ≤ value then none
  else some (UInt32.ofNat value, str.dropWhile fun b => (hex_digit b).isSome)

def color (value : Json) : Option UInt32 := do
  let str ← value.getString
  let (result, rest) ← from_chars str
  if str.length ≠ 8 ∨ ¬ rest.isEmpty then none else some result

def colors (N : ℕ) : Json → Option (Vector UInt32 N)
  | .array elements =>
    (elements.mapM color).bind fun target =>
      if h : target.length = N then some ⟨target.toArray, by simpa using h⟩ else none
  | _ => none

/-- `parse_theme`; any exception gives no theme. -/
def parse_theme (from_msgpack : Bytes → Option Json) (bytes : Bytes) : Option Theme := do
  let root ← from_msgpack bytes
  let theme ← (← root.find? (Utf8.bytes "internal")).find? (Utf8.bytes "theme")
  let base ← theme.find? (Utf8.bytes "interface_colors")
  let accent ← theme.find? (Utf8.bytes "accent_colors")
  let surface ← colors 2 (← base.find? (Utf8.bytes "surface"))
  let text ← colors 2 (← base.find? (Utf8.bytes "text"))
  let overlay ← colors 3 (← base.find? (Utf8.bytes "overlay"))
  let red ← color (← accent.find? (Utf8.bytes "red"))
  let green ← color (← accent.find? (Utf8.bytes "green"))
  let yellow ← color (← accent.find? (Utf8.bytes "yellow"))
  some { surface, text, overlay, red, green, yellow }

inductive ThemeState where
  | missing | loaded | invalid
  deriving DecidableEq

abbrev FileTime := Int64

structure ThemeReader where
  theme : Theme := {}
  state : ThemeState := .missing
  modified : Option FileTime := none
  deriving DecidableEq

/-- What the file answers to one poll; `content` is what an opened file has up to its end. -/
structure Look where
  present : Option Bool
  last_write_time : Option FileTime
  file_size : Option ℕ
  content : Option Bytes
  last_write_time_after : Option FileTime
  deriving DecidableEq

def max_size : ℕ := 16 * 1024 * 1024

namespace Look

/-- `file.read` of so many bytes. -/
def read (look : Look) (size : ℕ) : Option Bytes :=
  match look.content with
  | none => none
  | some bytes => if bytes.length < size then none else some (bytes.take size)

/-- Every byte of the size that the file had was read, and the time stamp was the same before and
after. -/
structure CompleteRead (look : Look) (stamp : FileTime) (bytes : Bytes) : Prop where
  present : look.present = some true
  before : look.last_write_time = some stamp
  size : look.file_size = some bytes.length
  bounds : 0 < bytes.length ∧ bytes.length ≤ max_size
  read : look.read bytes.length = some bytes
  after : look.last_write_time_after = some stamp

theorem length_read {look : Look} {size : ℕ} {bytes : Bytes} (h : look.read size = some bytes) :
    bytes.length = size := by
  rw [read] at h
  cases hcontent : look.content with
  | none =>
    rw [hcontent] at h
    cases h
  | some all =>
    rw [hcontent] at h
    simp only at h
    split_ifs at h with hshort
    cases h
    rw [List.length_take, min_eq_left (not_lt.mp hshort)]

end Look

/-- How far a poll comes before the file is opened. -/
inductive Stage where
  | missing
  | unchanged
  | reads (stamp : FileTime) (size : ℕ)
  deriving DecidableEq

namespace ThemeReader
variable (from_msgpack : Bytes → Option Json)

def stage (r : ThemeReader) (look : Look) : Option Stage := do
  if ¬ (← look.present) then return .missing
  let stamp ← look.last_write_time
  if r.state = .loaded ∧ r.modified = some stamp then return .unchanged
  let size ← look.file_size
  if size = 0 ∨ size > max_size then none
  else some (.reads stamp size)

/-- From the opened file to the theme. -/
def read_theme (look : Look) (stamp : FileTime) (size : ℕ) : Option Theme := do
  let bytes ← look.read size
  let parsed ← parse_theme from_msgpack bytes
  if (← look.last_write_time_after) ≠ stamp then none else some parsed

def poll (r : ThemeReader) (look : Look) : ThemeReader :=
  match r.stage look with
  | some .missing => { theme := {}, state := .missing, modified := none }
  | some .unchanged => r
  | some (.reads stamp size) =>
    match read_theme from_msgpack look stamp size with
    | some theme => { theme, state := .loaded, modified := some stamp }
    | none => { r with state := .invalid }
  | none => { r with state := .invalid }

def polls (looks : List Look) : ThemeReader := looks.foldl (poll from_msgpack) {}

variable {from_msgpack} {r : ThemeReader} {look : Look} {stamp : FileTime}

/-- A file whose time stamp is not the remembered one, or whose reader is not in order, is opened. -/
theorem stage_reads {size : ℕ} (hpresent : look.present = some true)
    (hstamp : look.last_write_time = some stamp)
    (hnew : ¬ (r.state = .loaded ∧ r.modified = some stamp))
    (hsize : look.file_size = some size) (hbounds : 0 < size ∧ size ≤ max_size) :
    r.stage look = some (.reads stamp size) := by
  have hgood : ¬ (size = 0 ∨ size > max_size) := by omega
  simp [stage, hpresent, hstamp, hnew, hsize, hgood]

theorem stage_cases (r : ThemeReader) (look : Look) :
    (look.present = some false ∧ r.stage look = some .missing) ∨
    (∃ stamp, look.last_write_time = some stamp ∧ r.state = .loaded ∧ r.modified = some stamp ∧
      r.stage look = some .unchanged) ∨
    (∃ stamp size, look.present = some true ∧ look.last_write_time = some stamp ∧
      look.file_size = some size ∧ (0 < size ∧ size ≤ max_size) ∧
      r.stage look = some (.reads stamp size)) ∨
    r.stage look = none := by
  cases hpresent : look.present with
  | none => exact .inr (.inr (.inr (by simp [stage, hpresent])))
  | some present =>
    cases present with
    | false => exact .inl ⟨rfl, by simp [stage, hpresent]⟩
    | true =>
      cases hstamp : look.last_write_time with
      | none => exact .inr (.inr (.inr (by simp [stage, hpresent, hstamp])))
      | some stamp =>
        by_cases hsame : r.state = .loaded ∧ r.modified = some stamp
        · refine .inr (.inl ⟨stamp, rfl, hsame.1, hsame.2, ?_⟩)
          simp [stage, hpresent, hstamp, hsame]
        · cases hsize : look.file_size with
          | none => exact .inr (.inr (.inr (by simp [stage, hpresent, hstamp, hsame, hsize])))
          | some size =>
            by_cases hbounds : 0 < size ∧ size ≤ max_size
            · refine .inr (.inr (.inl ⟨stamp, size, rfl, rfl, rfl, hbounds, ?_⟩))
              exact stage_reads hpresent hstamp hsame hsize hbounds
            · have hbad : size = 0 ∨ size > max_size := by omega
              exact .inr (.inr (.inr (by simp [stage, hpresent, hstamp, hsame, hsize, hbad])))

theorem read_theme_eq_some_iff {size : ℕ} {theme : Theme} :
    read_theme from_msgpack look stamp size = some theme ↔
      ∃ bytes, look.read size = some bytes ∧ parse_theme from_msgpack bytes = some theme ∧
        look.last_write_time_after = some stamp := by
  rw [read_theme]
  cases hread : look.read size with
  | none => simp
  | some bytes =>
    cases hparse : parse_theme from_msgpack bytes with
    | none => simp [hparse]
    | some parsed =>
      cases hafter : look.last_write_time_after with
      | none => simp
      | some seen =>
        by_cases hseen : seen = stamp
        · simp [hparse, hseen]
        · simp [hseen]

/-- What a poll can do: it finds no file, keeps what it has at the remembered time stamp, loads a
complete read, or becomes invalid with the theme that it had. -/
theorem poll_cases (from_msgpack : Bytes → Option Json) (r : ThemeReader) (look : Look) :
    (look.present = some false ∧ r.poll from_msgpack look = {}) ∨
    (∃ stamp, look.last_write_time = some stamp ∧ r.state = .loaded ∧ r.modified = some stamp ∧
      r.poll from_msgpack look = r) ∨
    (∃ stamp bytes theme, look.CompleteRead stamp bytes ∧
      parse_theme from_msgpack bytes = some theme ∧
      r.poll from_msgpack look = ⟨theme, .loaded, some stamp⟩) ∨
    r.poll from_msgpack look = { r with state := .invalid } := by
  rcases r.stage_cases look with ⟨hpresent, hstage⟩ | ⟨stamp, hstamp, hstate, hmodified, hstage⟩ |
    ⟨stamp, size, hpresent, hstamp, hsize, hbounds, hstage⟩ | hstage
  · exact .inl ⟨hpresent, by rw [poll, hstage]⟩
  · exact .inr (.inl ⟨stamp, hstamp, hstate, hmodified, by rw [poll, hstage]⟩)
  · cases htheme : read_theme from_msgpack look stamp size with
    | none => exact .inr (.inr (.inr (by rw [poll, hstage]; simp only [htheme])))
    | some theme =>
      obtain ⟨bytes, hread, hparse, hafter⟩ := read_theme_eq_some_iff.mp htheme
      have hlength := Look.length_read hread
      subst hlength
      refine .inr (.inr (.inl ⟨stamp, bytes, theme, ?_, hparse, ?_⟩))
      · exact ⟨hpresent, hstamp, hsize, hbounds, hread, hafter⟩
      · rw [poll, hstage]
        simp only [htheme]
  · exact .inr (.inr (.inr (by rw [poll, hstage])))

/-- A complete read that parses is loaded, unless its time stamp is the one of the theme in use. -/
theorem poll_of_completeRead {bytes : Bytes} {theme : Theme} (h : look.CompleteRead stamp bytes)
    (hparse : parse_theme from_msgpack bytes = some theme)
    (hnew : ¬ (r.state = .loaded ∧ r.modified = some stamp)) :
    r.poll from_msgpack look = ⟨theme, .loaded, some stamp⟩ := by
  have hstage := stage_reads h.present h.before hnew h.size h.bounds
  have htheme : read_theme from_msgpack look stamp bytes.length = some theme :=
    read_theme_eq_some_iff.mpr ⟨bytes, h.read, hparse, h.after⟩
  rw [poll, hstage]
  simp only [htheme]

variable (from_msgpack) in
/-- A loaded theme is the parse of a complete read of the history, made at the remembered time
stamp. -/
def Remembers (looks : List Look) (r : ThemeReader) : Prop :=
  ∃ look ∈ looks, ∃ stamp bytes, look.CompleteRead stamp bytes ∧ r.modified = some stamp ∧
    parse_theme from_msgpack bytes = some r.theme

theorem Remembers.append {looks : List Look} (h : Remembers from_msgpack looks r) (look : Look) :
    Remembers from_msgpack (looks ++ [look]) r := by
  obtain ⟨earlier, hmem, hread⟩ := h
  exact ⟨earlier, List.mem_append_left _ hmem, hread⟩

theorem polls_append (looks : List Look) (look : Look) :
    polls from_msgpack (looks ++ [look]) = (polls from_msgpack looks).poll from_msgpack look := by
  rw [polls, List.foldl_append]
  rfl

theorem remembers_poll {looks : List Look}
    (h : r.state = .loaded → Remembers from_msgpack looks r) (look : Look)
    (hloaded : (r.poll from_msgpack look).state = .loaded) :
    Remembers from_msgpack (looks ++ [look]) (r.poll from_msgpack look) := by
  rcases poll_cases from_msgpack r look with ⟨-, hpoll⟩ | ⟨stamp, -, hstate, -, hpoll⟩ |
    ⟨stamp, bytes, theme, hread, hparse, hpoll⟩ | hpoll
  · rw [hpoll] at hloaded
    cases hloaded
  · rw [hpoll]
    exact (h hstate).append look
  · rw [hpoll]
    exact ⟨look, List.mem_append_right _ (List.mem_singleton_self look), stamp, bytes, hread, rfl,
      hparse⟩
  · rw [hpoll] at hloaded
    cases hloaded

theorem remembers_polls (looks : List Look) (h : (polls from_msgpack looks).state = .loaded) :
    Remembers from_msgpack looks (polls from_msgpack looks) := by
  induction looks using List.reverseRecOn with
  | nil => cases h
  | append_singleton looks look ih =>
    rw [polls_append] at h ⊢
    exact remembers_poll ih look h

variable (from_msgpack) in
/-- The three ways to stand after a poll. -/
def Settled (looks : List Look) (before after : ThemeReader) : Prop :=
  (after.state = .missing ∧ after.theme = {}) ∨
  (after.state = .loaded ∧ Remembers from_msgpack looks after) ∨
  (after.state = .invalid ∧ after.theme = before.theme)

variable (from_msgpack) in
/-- A reader that opens the file again whatever its time stamp, and loads what it can. -/
structure Retries (r : ThemeReader) (look : Look) (after : ThemeReader) : Prop where
  proceeds : r.stage look ≠ some .unchanged
  reads : ∀ stamp size, look.present = some true → look.last_write_time = some stamp →
    look.file_size = some size → 0 < size ∧ size ≤ max_size →
      r.stage look = some (.reads stamp size)
  loads : ∀ stamp bytes theme, look.CompleteRead stamp bytes →
    parse_theme from_msgpack bytes = some theme → after = ⟨theme, .loaded, some stamp⟩

theorem settled_poll {looks : List Look} (h : r.state = .loaded → Remembers from_msgpack looks r)
    (look : Look) : Settled from_msgpack (looks ++ [look]) r (r.poll from_msgpack look) := by
  have hremembers := remembers_poll h look
  rcases poll_cases from_msgpack r look with ⟨-, hpoll⟩ | ⟨stamp, -, hstate, -, hpoll⟩ |
    ⟨stamp, bytes, theme, hread, hparse, hpoll⟩ | hpoll
  · rw [hpoll]
    exact .inl ⟨rfl, rfl⟩
  · have hloaded : (r.poll from_msgpack look).state = .loaded := by rw [hpoll, hstate]
    exact .inr (.inl ⟨hloaded, hremembers hloaded⟩)
  · have hloaded : (r.poll from_msgpack look).state = .loaded := by rw [hpoll]
    exact .inr (.inl ⟨hloaded, hremembers hloaded⟩)
  · rw [hpoll]
    exact .inr (.inr ⟨rfl, rfl⟩)

theorem retries_of_invalid (h : r.state = .invalid) (look : Look) :
    Retries from_msgpack r look (r.poll from_msgpack look) := by
  have hnew : ∀ stamp, ¬ (r.state = .loaded ∧ r.modified = some stamp) := by
    rintro stamp ⟨hloaded, -⟩
    rw [h] at hloaded
    cases hloaded
  constructor
  · intro hstage
    rcases r.stage_cases look with ⟨-, hother⟩ | ⟨stamp, -, hloaded, hmodified, -⟩ |
      ⟨_, _, -, -, -, -, hother⟩ | hother
    · rw [hstage] at hother
      cases hother
    · exact hnew stamp ⟨hloaded, hmodified⟩
    · rw [hstage] at hother
      cases hother
    · rw [hstage] at hother
      cases hother
  · intro stamp size hpresent hstamp hsize hbounds
    exact stage_reads hpresent hstamp (hnew stamp) hsize hbounds
  · intro stamp bytes theme hread hparse
    exact poll_of_completeRead hread hparse (hnew stamp)

/-- A loaded reader that sees another time stamp is loaded again only by a read of this poll. -/
theorem completeRead_of_changed (hstamp : look.last_write_time = some stamp)
    (hchanged : r.modified ≠ some stamp) (hloaded : (r.poll from_msgpack look).state = .loaded) :
    ∃ bytes, look.CompleteRead stamp bytes ∧
      parse_theme from_msgpack bytes = some (r.poll from_msgpack look).theme := by
  rcases poll_cases from_msgpack r look with ⟨-, hpoll⟩ | ⟨seen, hseen, -, hmodified, -⟩ |
    ⟨seen, bytes, theme, hread, hparse, hpoll⟩ | hpoll
  · rw [hpoll] at hloaded
    cases hloaded
  · rw [hseen, Option.some_inj] at hstamp
    exact absurd (hstamp ▸ hmodified) hchanged
  · have hsame := hread.before
    rw [hstamp, Option.some_inj] at hsame
    subst hsame
    exact ⟨bytes, hread, by rw [hpoll, hparse]⟩
  · rw [hpoll] at hloaded
    cases hloaded

/-- After every poll of every history the reader stands as it should, an invalid one tries again,
and a loaded one does not take a changed file for the old one. -/
theorem polls_settle (from_msgpack : Bytes → Option Json) (looks : List Look) (look : Look) :
    let before := polls from_msgpack looks
    let after := before.poll from_msgpack look
    Settled from_msgpack (looks ++ [look]) before after ∧
      (before.state = .invalid → Retries from_msgpack before look after) ∧
      (before.state = .loaded → ∀ stamp, look.last_write_time = some stamp →
        before.modified ≠ some stamp → after.state = .loaded →
          ∃ bytes, look.CompleteRead stamp bytes ∧
            parse_theme from_msgpack bytes = some after.theme) := by
  refine ⟨settled_poll (remembers_polls looks) look, ?_, ?_⟩
  · exact fun h => retries_of_invalid h look
  · exact fun _ stamp hstamp hchanged hloaded => completeRead_of_changed hstamp hchanged hloaded

/-- The built-in theme as the other plugin stores it. -/
def fixture : Json :=
  .object [(Utf8.bytes "internal", .object [(Utf8.bytes "theme", .object
    [(Utf8.bytes "accent_colors", .object
      [(Utf8.bytes "green", .string (Utf8.bytes "FFA1E3A6")),
        (Utf8.bytes "red", .string (Utf8.bytes "FFA88BF3")),
        (Utf8.bytes "yellow", .string (Utf8.bytes "FFAFE2F9"))]),
    (Utf8.bytes "interface_colors", .object
      [(Utf8.bytes "overlay", .array [.string (Utf8.bytes "FF443231"),
          .string (Utf8.bytes "FF5A4745"), .string (Utf8.bytes "FF705B58")]),
        (Utf8.bytes "surface", .array [.string (Utf8.bytes "FF2E1E1E"),
          .string (Utf8.bytes "FF251818")]),
        (Utf8.bytes "text", .array [.string (Utf8.bytes "FFF4D6CD"),
          .string (Utf8.bytes "FFDEC2BA")])])])])]

def fixstr (s : String) : Bytes := UInt8.ofNat (160 + s.length) :: Utf8.bytes s

def packed : Bytes :=
  [129] ++ fixstr "internal" ++ [129] ++ fixstr "theme" ++ [130] ++
    fixstr "accent_colors" ++ [131] ++ fixstr "green" ++ fixstr "FFA1E3A6" ++
    fixstr "red" ++ fixstr "FFA88BF3" ++ fixstr "yellow" ++ fixstr "FFAFE2F9" ++
    fixstr "interface_colors" ++ [131] ++
    fixstr "overlay" ++ [147] ++ fixstr "FF443231" ++ fixstr "FF5A4745" ++ fixstr "FF705B58" ++
    fixstr "surface" ++ [146] ++ fixstr "FF2E1E1E" ++ fixstr "FF251818" ++
    fixstr "text" ++ [146] ++ fixstr "FFF4D6CD" ++ fixstr "FFDEC2BA"

/-- The decoder on the stored theme and on less than a value. -/
def unpack (bytes : Bytes) : Option Json := if bytes = packed then some fixture else none

example : parse_theme unpack packed = some {} := by decide +kernel

def still (bytes : Bytes) (stamp : FileTime) : Look where
  present := some true
  last_write_time := some stamp
  file_size := some bytes.length
  content := some bytes
  last_write_time_after := some stamp

theorem polls_settle_packed :
    (∃ bytes, (still packed 2).CompleteRead 2 bytes ∧ parse_theme unpack bytes =
      some ((polls unpack [still packed 1]).poll unpack (still packed 2)).theme) ∧
    Retries unpack (polls unpack [still (packed.take 9) 1]) (still packed 1)
      ((polls unpack [still (packed.take 9) 1]).poll unpack (still packed 1)) :=
  ⟨(polls_settle unpack [still packed 1] (still packed 2)).2.2 (by decide +kernel) 2 rfl
      (by decide +kernel) (by decide +kernel),
    (polls_settle unpack [still (packed.take 9) 1] (still packed 1)).2.1 (by decide +kernel)⟩

end ThemeReader

end GambitRecord.Plugin.Ui
