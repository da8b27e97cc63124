import GambitRecord.Broker.Creations
import GambitRecord.System.Requests

/-! # The request that creates an upload

The body that the recorder writes from the metadata of the plugin, and what the
broker reads in it: a size that it takes, the one privacy that it takes, and the
title and the description that it hands to YouTube.
-/

namespace GambitRecord
open Library Library.DigitText Recorder Plugin

namespace Recorder.BrokerUploader

/-- The time of day is written with dashes from the twelfth byte of the stamp on. -/
def video_title (metadata : EvidenceMetadata) : Bytes :=
  let admin := if metadata.admin.isEmpty then Utf8.bytes "Unknown_Admin" else metadata.admin
  let stamp := metadata.timestamp.map fun c => if c = 95 then 32 else c
  if 19 ≤ stamp.length then
    let stamp := stamp.take 11 ++ (stamp.drop 11).map fun c => if c = 58 then 45 else c
    admin ++ Utf8.bytes " | " ++ stamp.take 10 ++ Utf8.bytes " | " ++ (stamp.drop 11).take 8
  else admin ++ Utf8.bytes " | " ++ stamp

def hex : Text := text "0123456789abcdef"

/-- The digest in lower case, or nothing when the system has none. -/
def sha256 (digest : Option (List UInt8)) : Bytes :=
  Utf8.encode ((digest.getD []).flatMap fun value : UInt8 =>
    [hex.getD (value >>> 4).toNat '0', hex.getD (value &&& 15).toNat '0'])

def description (metadata : EvidenceMetadata) (hash : Bytes) : Bytes :=
  Utf8.bytes "Server: " ++ metadata.server ++ Utf8.bytes "\nObserved player: " ++
    metadata.target_name ++
    (if 0 ≤ metadata.target_id then
      Utf8.bytes " [" ++ to_string metadata.target_id ++ Utf8.bytes "]"
    else []) ++
    Utf8.bytes "\nCommand: " ++ metadata.punishment_command ++ Utf8.bytes "\nReason: " ++
    metadata.punishment_reason ++ Utf8.bytes "\nRecording period: " ++
    metadata.recording_period ++ Utf8.bytes "\nGambit Record 0.1.4\nSHA-256: " ++ hash

/-- The members in the order of their keys. -/
def create_body (total : UInt64) (metadata : EvidenceMetadata) (hash : Bytes) : Json :=
  .object
    [(Utf8.bytes "contentType", .string (Utf8.bytes "video/mp4")),
      (Utf8.bytes "description", .string (description metadata hash)),
      (Utf8.bytes "privacyStatus", .string (Utf8.bytes "unlisted")),
      (Utf8.bytes "sha256", .string hash),
      (Utf8.bytes "size", .ofUInt64 total),
      (Utf8.bytes "title", .string (video_title metadata))]

theorem valid_create_body {total : UInt64} {metadata : EvidenceMetadata} {hash : Bytes} :
    (create_body total metadata hash).Valid ↔
      Utf8.Valid (description metadata hash) ∧ Utf8.Valid hash ∧
        Utf8.Valid (video_title metadata) := by
  simp [create_body]

end Recorder.BrokerUploader

namespace Plugin
open Recorder.BrokerUploader

/-- The members of the clock are in their ranges, and the year has four digits. -/
structure OfCalendar (now : LocalTime) (wSecond : UInt16) : Prop where
  year : now.wYear.toNat < 10000
  month : now.wMonth.toNat < 100
  day : now.wDay.toNat < 100
  hour : now.wHour.toNat < 100
  minute : now.wMinute.toNat < 100
  second : wSecond.toNat < 100

def dashed (width a b c : ℕ) : Text :=
  padded width a ++ ['-'] ++ padded 2 b ++ ['-'] ++ padded 2 c

def dateText (now : LocalTime) : Text := dashed 4 now.wYear.toNat now.wMonth.toNat now.wDay.toNat

def timeText (now : LocalTime) (wSecond : UInt16) : Text :=
  dashed 2 now.wHour.toNat now.wMinute.toNat wSecond.toNat

theorem local_stamp_eq (now : LocalTime) (wSecond : UInt16) :
    local_stamp now wSecond = Utf8.encode (dateText now ++ [' '] ++ timeText now wSecond) := by
  simp only [local_stamp, dateText, timeText, dashed, List.append_assoc]

theorem mem_dashed {width a b c : ℕ} {x : Char} (h : x ∈ dashed width a b c) :
    x = '-' ∨ x.isDigit := by
  simp only [dashed, List.mem_append, List.mem_singleton] at h
  rcases h with (((h | h) | h) | h) | h
  · exact .inr (isDigit_of_mem_padded h)
  · exact .inl h
  · exact .inr (isDigit_of_mem_padded h)
  · exact .inl h
  · exact .inr (isDigit_of_mem_padded h)

theorem length_dashed {width a b c : ℕ} (hwidth : 0 < width) (ha : a < 10 ^ width)
    (hb : b < 100) (hc : c < 100) : (dashed width a b c).length = width + 6 := by
  simp only [dashed, List.length_append, List.length_singleton, length_padded hwidth ha,
    @length_padded 2 _ (by decide) hb, @length_padded 2 _ (by decide) hc]

theorem plain_stamp {now : LocalTime} {wSecond : UInt16} :
    ∀ c ∈ dateText now ++ [' '] ++ timeText now wSecond, c.toNat < 128 ∧ c ≠ '_' ∧ c ≠ ':' := by
  have hplain : ∀ c : Char, c = '-' ∨ c.isDigit → c.toNat < 128 ∧ c ≠ '_' ∧ c ≠ ':' := by
    rintro c (rfl | hdigit)
    · decide
    · refine ⟨ascii_of_isDigit hdigit, ?_, ?_⟩
      · rintro rfl
        revert hdigit
        decide
      · rintro rfl
        revert hdigit
        decide
  intro c hc
  rcases List.mem_append.mp hc with hc | hc
  · rcases List.mem_append.mp hc with hc | hc
    · exact hplain c (mem_dashed hc)
    · rw [List.mem_singleton.mp hc]
      decide
  · exact hplain c (mem_dashed hc)

theorem map_replace {bytes : Bytes} {b d : UInt8} (h : b ∉ bytes) :
    (bytes.map fun c => if c = b then d else c) = bytes := by
  have hsame : ∀ c ∈ bytes, (if c = b then d else c) = c := by
    intro c hc
    rw [if_neg]
    rintro rfl
    exact h hc
  rw [List.map_congr_left hsame, List.map_id']

theorem video_title_eq {metadata : EvidenceMetadata} (hlow : 95 ∉ metadata.timestamp)
    (hcolon : 58 ∉ metadata.timestamp) :
    video_title metadata =
      (if metadata.admin.isEmpty then Utf8.bytes "Unknown_Admin" else metadata.admin) ++
        if 19 ≤ metadata.timestamp.length then
          Utf8.bytes " | " ++ metadata.timestamp.take 10 ++ Utf8.bytes " | " ++
            (metadata.timestamp.drop 11).take 8
        else Utf8.bytes " | " ++ metadata.timestamp := by
  have hrest : 58 ∉ metadata.timestamp.drop 11 := fun h => hcolon (List.mem_of_mem_drop h)
  simp only [video_title, map_replace hlow, map_replace hrest, List.take_append_drop]
  split_ifs
  all_goals simp only [List.append_assoc]

/-- A stamp of the clock makes a title that is a text. -/
theorem exists_title {metadata : EvidenceMetadata} (hadmin : Utf8.Valid metadata.admin)
    {now : LocalTime} {wSecond : UInt16} (hstamp : metadata.timestamp = local_stamp now wSecond) :
    Utf8.Valid (video_title metadata) ∧
      (OfCalendar now wSecond → video_title metadata =
        (if metadata.admin.isEmpty then Utf8.bytes "Unknown_Admin" else metadata.admin) ++
          Utf8.encode (text " | " ++ dateText now ++ text " | " ++ timeText now wSecond)) := by
  have hbar : Utf8.bytes " | " = Utf8.encode (text " | ") := by decide +kernel
  have hname : Utf8.Valid
      (if metadata.admin.isEmpty then Utf8.bytes "Unknown_Admin" else metadata.admin) := by
    split_ifs
    · exact Utf8.valid_bytes _
    · exact hadmin
  have hplain := @plain_stamp now wSecond
  have hascii : ∀ c ∈ dateText now ++ [' '] ++ timeText now wSecond, c.toNat < 128 :=
    fun c hc => (hplain c hc).1
  rw [local_stamp_eq] at hstamp
  have hlow : 95 ∉ metadata.timestamp := by
    rw [hstamp]
    intro h
    exact (hplain _ (Utf8.ascii_mem_encode (c := '_') (by decide) h)).2.1 rfl
  have hcolon : 58 ∉ metadata.timestamp := by
    rw [hstamp]
    intro h
    exact (hplain _ (Utf8.ascii_mem_encode (c := ':') (by decide) h)).2.2 rfl
  rw [video_title_eq hlow hcolon, hstamp, Utf8.take_encode_ascii hascii,
    Utf8.drop_encode_ascii hascii,
    Utf8.take_encode_ascii fun c hc => hascii c (List.mem_of_mem_drop hc)]
  constructor
  · apply hname.append
    split_ifs
    · exact (((Utf8.valid_bytes _).append (Utf8.valid_encode _)).append
        (Utf8.valid_bytes _)).append (Utf8.valid_encode _)
    · exact (Utf8.valid_bytes _).append (Utf8.valid_encode _)
  · intro hcalendar
    have hdate : (dateText now).length = 10 :=
      length_dashed (by decide) hcalendar.year hcalendar.month hcalendar.day
    have htime : (timeText now wSecond).length = 8 :=
      length_dashed (by decide) hcalendar.hour hcalendar.minute hcalendar.second
    have hlength :
        19 ≤ (Utf8.encode (dateText now ++ [' '] ++ timeText now wSecond)).length := by
      rw [Utf8.encode_ascii hascii, List.length_map, List.length_append, List.length_append, hdate,
        htime]
      exact le_rfl
    have htake : (dateText now ++ [' '] ++ timeText now wSecond).take 10 = dateText now := by
      rw [List.append_assoc, ← hdate, List.take_left]
    have hdrop : (dateText now ++ [' '] ++ timeText now wSecond).drop 11 = timeText now wSecond := by
      have hfront : (dateText now ++ [' ']).length = 11 := by
        rw [List.length_append, hdate]
        rfl
      rw [← hfront, List.drop_left]
    rw [if_pos hlength, htake, hdrop, ← htime, List.take_length, hbar]
    simp only [Utf8.encode_append]

theorem valid_description {metadata : EvidenceMetadata} {hash : Bytes}
    (h : ∀ s ∈ metadata.strings, Utf8.Valid s) (hhash : Utf8.Valid hash) :
    Utf8.Valid (description metadata hash) := by
  simp only [EvidenceMetadata.strings, List.forall_mem_cons] at h
  obtain ⟨-, hcommand, hreason, hperiod, hserver, htarget, -⟩ := h
  have hnumber : Utf8.Valid (if 0 ≤ metadata.target_id then
      Utf8.bytes " [" ++ to_string metadata.target_id ++ Utf8.bytes "]" else []) := by
    split_ifs
    · exact ((Utf8.valid_bytes _).append (Utf8.valid_encode _)).append (Utf8.valid_bytes _)
    · exact Utf8.valid_nil
  unfold description
  repeat' apply Utf8.Valid.append
  all_goals first | exact Utf8.valid_bytes _ | assumption

end Plugin

namespace Requests
open Broker Recorder.BrokerUploader

/-- `Number` and `String` as JavaScript has them, for a size and for a text. -/
structure Standard (services : Services) : Prop where
  number : ∀ n : UInt64, n.toNat ≤ Binary64.maxSafe →
    services.number (some (.ofUInt64 n)) = .ok (some n.toNat)
  string : ∀ text, services.string (some (.string (Utf8.encode text))) = .ok (Utf16.encode text)

def Carries (sent : Sent) (metadata : EvidenceMetadata) : Prop :=
  sent = .request (.record_start metadata) ∨
    ∃ upload, sent = .request (.record_stop upload metadata)

/-- The recorder can write the request that creates the upload of a file of this size, and the
broker takes it: it asks the limiter, and hands the title and the description to YouTube. -/
structure Opens (services : Services) (config : Deployment) (metadata : EvidenceMetadata)
    (total : UInt64) (hash : Bytes) : Prop where
  written : ∃ written, (create_body total metadata hash).dump none = some written ∧
    Json.parseBytes (Utf8.encode written) = some (create_body total metadata hash)
  limiting : ∀ request, request.json = .ok (create_body total metadata hash) →
    (CreateCall.begin services config request).phase = .limiting ∧
      (CreateCall.begin services config request).size = total.toNat
  insert : ∃ title about, Utf8.encode title = video_title metadata ∧
    Utf8.encode about = description metadata hash ∧
    ∀ token given, services.string token = .ok given →
      Handler.videoInsert services (create_body total metadata hash) total.toNat token =
        .ok ⟨given, total.toNat, (Utf16.encode title).take 100, (Utf16.encode about).take 5000⟩

/-- The title names the admin and the time of the request. -/
def Titled (metadata : EvidenceMetadata) : Prop :=
  ∃ now wSecond, metadata.timestamp = local_stamp now wSecond ∧
    (OfCalendar now wSecond → video_title metadata =
      (if metadata.admin.isEmpty then Utf8.bytes "Unknown_Admin" else metadata.admin) ++
        Utf8.encode (text " | " ++ dateText now ++ text " | " ++ timeText now wSecond))

theorem find?_create_body {total : UInt64} {metadata : EvidenceMetadata} {hash : Bytes} :
    (create_body total metadata hash).find? (Utf8.bytes "size") = some (.ofUInt64 total) ∧
      (create_body total metadata hash).find? (Utf8.bytes "privacyStatus") =
        some (.string (Utf8.bytes "unlisted")) ∧
      (create_body total metadata hash).find? (Utf8.bytes "title") =
        some (.string (video_title metadata)) ∧
      (create_body total metadata hash).find? (Utf8.bytes "description") =
        some (.string (description metadata hash)) := by
  simp [create_body, Json.find?, Utf8.bytes_inj]

variable {services : Services} {config : Deployment} {metadata : EvidenceMetadata}
  {total : UInt64} {hash : Bytes}

theorem opens_of_valid (hstandard : Standard services) (hpos : 0 < total.toNat)
    (hvideo : total.toNat ≤ config.limits.video) (hmax : total.toNat ≤ maxFileSize)
    (hvalid : (create_body total metadata hash).Valid) :
    Opens services config metadata total hash := by
  obtain ⟨hsize, hprivacy, htitle, hdescription⟩ := @find?_create_body total metadata hash
  have hsafe : total.toNat ≤ Binary64.maxSafe := hmax.trans (by decide)
  constructor
  · obtain ⟨written, hwritten⟩ := Option.isSome_iff_exists.mp ((Json.dump_isSome none).mpr hvalid)
    have hparse : Json.parseBytes (Utf8.encode (written ++ [])) =
        some (create_body total metadata hash) := Json.parseBytes_dump hwritten rfl
    rw [List.append_nil] at hparse
    exact ⟨written, hwritten, hparse⟩
  · intro request hjson
    have hread : Handler.readSize services (create_body total metadata hash) =
        .ok (some (total.toNat : ℚ)) := by
      have hproperty : Handler.property (some (create_body total metadata hash)) "size" =
          .ok (some (.ofUInt64 total)) := congrArg Except.ok hsize
      rw [Handler.readSize, hproperty]
      exact hstandard.number total hsafe
    have hunlisted : Handler.unlisted (create_body total metadata hash) = true := by
      simp [Handler.unlisted, hprivacy]
    have hvalidSize : Handler.validSize config.limits (some (total.toNat : ℚ)) =
        some total.toNat := by
      simp only [Handler.validSize, Rat.num_natCast, Int.toNat_natCast]
      exact if_pos ⟨rfl, by omega⟩
    rw [CreateCall.begin, hjson]
    simp only [hread, hvalidSize, hunlisted, if_true, and_self]
  · obtain ⟨habout, -, hname⟩ := valid_create_body.mp hvalid
    obtain ⟨title, heqtitle⟩ := Utf8.valid_iff.mp hname
    obtain ⟨about, heqabout⟩ := Utf8.valid_iff.mp habout
    refine ⟨title, about, heqtitle, heqabout, ?_⟩
    intro token given hgiven
    rw [Handler.videoInsert, htitle, hdescription, ← heqtitle, ← heqabout]
    simp only [Handler.orElse, hstandard.string, hgiven]
    rfl

theorem FromGame.opens (h : FromGame metadata) (hstandard : Standard services)
    (hpos : 0 < total.toNat) (hvideo : total.toNat ≤ config.limits.video)
    (hmax : total.toNat ≤ maxFileSize) (digest : Option (List UInt8)) :
    Opens services config metadata total (sha256 digest) ∧ Titled metadata := by
  obtain ⟨now, wSecond, hstamp⟩ := h.stamp
  obtain ⟨hname, htitle⟩ := exists_title h.admin.valid hstamp
  have hhash : Utf8.Valid (sha256 digest) := Utf8.valid_encode _
  refine ⟨opens_of_valid hstandard hpos hvideo hmax ?_, now, wSecond, hstamp, htitle⟩
  exact valid_create_body.mpr ⟨valid_description h.strings hhash, hhash, hname⟩

/-- Whatever the game server and the player send, the metadata of every request of the plugin make an
upload that the broker begins, with the admin and the time as its title. -/
theorem uploads_open {own_name : Bytes} {es : List Turn} {s : Requests}
    (hrun : (machine own_name).run es = some s) (hstandard : Standard services)
    (hpos : 0 < total.toNat) (hvideo : total.toNat ≤ config.limits.video)
    (hmax : total.toNat ≤ maxFileSize) (digest : Option (List UInt8)) :
    ∀ request ∈ s.sent, ∀ metadata, Carries request metadata →
      Opens services config metadata total (sha256 digest) ∧ Titled metadata := by
  intro request hrequest metadata hcarries
  rcases hcarries with rfl | ⟨upload, rfl⟩
  · exact FromGame.opens ((inv_run hrun).sent _ hrequest) hstandard hpos hvideo hmax digest
  · exact FromGame.opens ((inv_run hrun).sent _ hrequest) hstandard hpos hvideo hmax digest

theorem standard_sample : Standard Isolate.sample_services where
  number _ _ := rfl
  string text := by simp [Isolate.sample_services]

theorem uploads_open_sample :
    let s := ((machine [0xDF]).run sampleRun).get sampleRun_accepted
    ∀ request ∈ s.sent, ∀ metadata, Carries request metadata →
      Opens Isolate.sample_services Isolate.sample_deployment metadata 3000000
        (sha256 (some [0xAB])) ∧ Titled metadata :=
  uploads_open (Option.some_get sampleRun_accepted).symm standard_sample (by decide) (by decide)
    (by decide) (some [0xAB])

end Requests
end GambitRecord
