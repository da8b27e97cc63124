import GambitRecord.Broker.UploadSession

/-! # The recorder's upload client

`BrokerUploader::upload` as a machine that stops at every network exchange and
at the head of its chunk loop. The continuations between two stops are the
straight pieces of the source; `request` with its network retries is the
`attempt` counter of an outstanding exchange.
-/

namespace GambitRecord.Recorder
open Library.DigitText Broker

/-- What the error texts of an upload are made from. -/
inductive UploadError where
  | disabled
  | noBrokerKey
  | fileMissing
  | fileTooLarge
  | invalidEndpoint
  | winHttpFailed
  | brokerUnavailable
  | resumeFailed (response : Response)
  | sessionFailed (response : Response)
  | noUploadId
  | cancelled
  | readFailed
  | uploadFailed (response : Response)
  | noVideoUrl
  deriving DecidableEq

def UploadError.message : UploadError → Text
  | .disabled => text "Broker upload is disabled"
  | .noBrokerKey => text "This build has no broker key"
  | .fileMissing => text "recording file is missing"
  | .fileTooLarge => text "recording exceeds the 4 GiB broker limit"
  | .invalidEndpoint => text "invalid HTTPS broker endpoint"
  | .winHttpFailed => text "WinHTTP initialization failed"
  | .brokerUnavailable => text "broker unavailable"
  | .resumeFailed r => text "broker resume failed (HTTP " ++ decimal r.status ++ [')']
  | .sessionFailed r => text "broker session failed (HTTP " ++ decimal r.status ++ text "): "
  | .noUploadId => text "broker returned no upload id"
  | .cancelled => text "upload cancelled during shutdown"
  | .readFailed => text "recording read failed"
  | .uploadFailed r => text "broker upload failed (HTTP " ++ decimal r.status ++ [')']
  | .noVideoUrl => text "broker returned no video URL"

structure UploadResult where
  success : Bool := false
  retryable : Bool := false
  upload_id : Text := []
  video_id : Text := []
  url : Text := []
  error : Option UploadError := none
  deriving DecidableEq

/-- `request` answers status 0 when the network fails. -/
def networkFailure : Response := ⟨0, {}⟩

def retryable_status (status : ℕ) : Bool :=
  status = 0 ∨ status = 408 ∨ status = 425 ∨ status = 429 ∨ status ≥ 500

/-- `json_string`: a missing field reads as the empty string. -/
def json_string (field : Option Text) : Text := field.getD []

/-- `std::isspace` in the "C" locale: the space and the five characters from the tab on. -/
def isspace (c : Char) : Bool := c = ' ' ∨ ('\t' ≤ c ∧ c ≤ '\r')

/-- `std::stoull` in base ten: blanks, a sign, digits, and anything after them. -/
def stoull (s : Text) : Option ℕ :=
  let s := s.dropWhile isspace
  let negative := s.head? = some '-'
  let s := if s.head? = some '-' ∨ s.head? = some '+' then s.tail else s
  match digits s with
  | none => none
  | some (ds, _) =>
    if value ds < 2 ^ 64 then some (if negative then (2 ^ 64 - value ds) % 2 ^ 64 else value ds)
    else none

def chunk_size : ℕ := 1024 * 1024

def maxFileSize : ℕ := 4 * 1024 * 1024 * 1024

/-- What `upload` finds before its first request. -/
structure Setup where
  enabled : Bool
  build_configured : Bool
  endpoint_valid : Bool
  session_opened : Bool
  connected : Bool
  deriving DecidableEq

/-- The locals of the chunk loop; `position` is that of the input stream. -/
structure Upload where
  upload_id : Text
  offset : ℕ
  position : ℕ
  deriving DecidableEq

inductive Exchange where
  | resume
  | create
  | chunk (count : ℕ)
  deriving DecidableEq

inductive Client where
  | requesting (u : Upload) (exchange : Exchange) (attempt : ℕ)
  | looping (u : Upload)
  | returned (result : UploadResult)
  deriving DecidableEq

inductive WireRequest where
  | resume (id : Text)
  | create (size : ℕ)
  | put (id contentRange : Text) (body : List UInt8)
  deriving DecidableEq

namespace BrokerUploader

def network_retries : Exchange → ℕ
  | .resume => 2
  | .create => 0
  | .chunk _ => 2

def failed (upload_id : Text) (retryable : Bool) (error : UploadError) : Client :=
  .returned { retryable, upload_id, error := some error }

/-- The end of `upload`: without a link it has failed for good. -/
def finish (upload_id video_id url : Text) : Client :=
  let url := if url.isEmpty ∧ ¬ video_id.isEmpty then text "https://youtu.be/" ++ video_id else url
  .returned
    { success := ¬ url.isEmpty, upload_id, video_id, url
      error := if url.isEmpty then some .noVideoUrl else none }

/-- The input stream is opened and set to the offset. -/
def openInput (u : Upload) : Client := .looping { u with position := u.offset }

/-- From the entry of `upload` to its first request. -/
def upload (setup : Setup) (file : Option (List UInt8)) (resume_id : Text) : Client :=
  if ¬ setup.enabled then failed [] false .disabled
  else if ¬ setup.build_configured then failed [] false .noBrokerKey
  else match file with
  | none => failed [] false .fileMissing
  | some bytes =>
    if bytes.isEmpty then failed [] false .fileMissing
    else if bytes.length > maxFileSize then failed [] false .fileTooLarge
    else if ¬ setup.endpoint_valid then failed [] false .invalidEndpoint
    else if ¬ setup.session_opened then failed [] true .winHttpFailed
    else if ¬ setup.connected then failed [] true .brokerUnavailable
    else .requesting ⟨resume_id, 0, 0⟩ (if resume_id.isEmpty then .create else .resume) 0

/-- The offset a resumed session reports; one that cannot be right restarts the file. -/
def resumeOffset (total : ℕ) (body : Body) : ℕ :=
  match stoull (json_string body.nextOffset) with
  | some offset => if offset > total then 0 else offset
  | none => 0

def afterResume (file : List UInt8) (u : Upload) (resumed : Response) : Client :=
  if resumed.status = 200 then
    if ¬ (json_string resumed.body.url).isEmpty then
      .returned
        { success := true, upload_id := u.upload_id, url := json_string resumed.body.url
          video_id := json_string resumed.body.videoId }
    else openInput { u with offset := resumeOffset file.length resumed.body }
  else if resumed.status = 404 ∨ resumed.status = 410 then
    .requesting { u with upload_id := [] } .create 0
  else failed u.upload_id (retryable_status resumed.status) (.resumeFailed resumed)

def afterCreate (u : Upload) (created : Response) : Client :=
  if created.status ≠ 201 then
    failed u.upload_id (retryable_status created.status) (.sessionFailed created)
  else if (json_string created.body.id).isEmpty then failed [] false .noUploadId
  else openInput { u with upload_id := json_string created.body.id }

/-- The offset after a 308; a missing or unreadable one counts the chunk as taken. -/
def nextOffset (u : Upload) (count : ℕ) (body : Body) : ℕ :=
  (stoull (json_string body.nextOffset)).getD (u.offset + count)

def afterChunk (u : Upload) (count : ℕ) (uploaded : Response) : Client :=
  if uploaded.status = 200 ∨ uploaded.status = 201 then
    finish u.upload_id (json_string uploaded.body.videoId) (json_string uploaded.body.url)
  else if uploaded.status ≠ 308 then
    failed u.upload_id (retryable_status uploaded.status) (.uploadFailed uploaded)
  else
    .looping { u with
      offset := nextOffset u count uploaded.body
      position := nextOffset u count uploaded.body }

/-- What follows an exchange, status 0 included. -/
def answer (file : List UInt8) (u : Upload) (response : Response) : Exchange → Client
  | .resume => afterResume file u response
  | .create => afterCreate u response
  | .chunk count => afterChunk u count response

/-- The head of the loop: the stop check, the read of the next chunk and its request. -/
def poll (file : List UInt8) (u : Upload) (stop readable : Bool) : Client :=
  if u.offset < file.length then
    if stop then failed u.upload_id true .cancelled
    else if readable ∧ ((file.drop u.position).take (min chunk_size (file.length - u.offset))).length
        = min chunk_size (file.length - u.offset) then
      .requesting u (.chunk (min chunk_size (file.length - u.offset))) 0
    else failed u.upload_id false .readFailed
  else finish u.upload_id [] []

/-- A send or a receive failed: the request is sent again or ends with status 0. -/
def retry (file : List UInt8) (u : Upload) (exchange : Exchange) (attempt : ℕ) : Client :=
  if attempt < network_retries exchange then .requesting u exchange (attempt + 1)
  else answer file u networkFailure exchange

def wireRequest (file : List UInt8) (u : Upload) : Exchange → WireRequest
  | .resume => .resume u.upload_id
  | .create => .create file.length
  | .chunk count =>
    .put u.upload_id (contentRange u.offset (u.offset + count - 1) file.length)
      ((file.drop u.position).take count)

theorem isspace_of_isDigit {c : Char} (h : c.isDigit) : isspace c = false := by
  rw [Char.isDigit, Bool.and_eq_true, decide_eq_true_eq, decide_eq_true_eq] at h
  have hlow : 48 ≤ c.toNat := h.1
  rw [isspace, decide_eq_false_iff_not]
  rintro (rfl | ⟨-, hle⟩)
  · exact absurd hlow (by decide)
  · have hhigh : c.toNat ≤ 13 := hle
    omega

@[simp] theorem stoull_decimal {n : ℕ} (h : n < 2 ^ 64) : stoull (decimal n) = some n := by
  have hd : ∀ c ∈ (decimal n).head?, isspace c = false ∧ c ≠ '-' ∧ c ≠ '+' := by
    intro c hc
    have hdig : c.isDigit := isDigit_of_mem_decimal (List.mem_of_mem_head? hc)
    refine ⟨isspace_of_isDigit hdig, ?_, ?_⟩
    · rintro rfl
      revert hdig
      decide
    · rintro rfl
      revert hdig
      decide
  cases hn : decimal n with
  | nil => exact absurd hn (decimal_ne_nil n)
  | cons c cs =>
    rw [hn] at hd
    rcases hd c rfl with ⟨hw, hminus, hplus⟩
    have hs : digits (c :: cs) = some (c :: cs, []) := by
      rw [← hn, digits_decimal]
    have hv : value (c :: cs) = n := by
      rw [← hn, value_decimal]
    simpa [stoull, hw, hminus, hplus, hs, hv] using h

theorem finish_eq (upload_id video_id url : Text) :
    ∃ r, finish upload_id video_id url = .returned r ∧ r.upload_id = upload_id ∧
      r.retryable = false ∧ (r.success = true ↔ r.url ≠ []) ∧
      (r.url ≠ [] ↔ url ≠ [] ∨ video_id ≠ []) ∧ (url ≠ [] → r.url = url) := by
  refine ⟨_, rfl, rfl, rfl, ?_, ?_, ?_⟩
  · simp
  · by_cases hu : url = [] <;> by_cases hv : video_id = [] <;> simp [hu, hv]
  · intro hu
    simp [hu]

theorem upload_ready {bytes : List UInt8} (hpos : bytes ≠ []) (hmax : bytes.length ≤ maxFileSize)
    (resume_id : Text) :
    upload ⟨true, true, true, true, true⟩ (some bytes) resume_id =
      .requesting ⟨resume_id, 0, 0⟩ (if resume_id.isEmpty then .create else .resume) 0 := by
  have hle : ¬ bytes.length > maxFileSize := Nat.not_lt.mpr hmax
  simp [upload, hpos, hle]

/-- Without a first request the call has failed, and only a connection makes that temporary. -/
theorem upload_cases (setup : Setup) (file : Option (List UInt8)) (resume_id : Text) :
    (∃ bytes, file = some bytes ∧ bytes ≠ [] ∧ bytes.length ≤ maxFileSize ∧
      setup = ⟨true, true, true, true, true⟩ ∧
      upload setup file resume_id =
        .requesting ⟨resume_id, 0, 0⟩ (if resume_id.isEmpty then .create else .resume) 0) ∨
    ∃ retryable error, upload setup file resume_id = failed [] retryable error ∧
      (∀ response, error ≠ .uploadFailed response) ∧
      (retryable = true → setup.enabled = true ∧ setup.build_configured = true ∧
        setup.endpoint_valid = true ∧ ¬ (setup.session_opened = true ∧ setup.connected = true)) := by
  rcases setup with ⟨enabled, build_configured, endpoint_valid, session_opened, connected⟩
  cases enabled with
  | false => exact .inr ⟨_, _, rfl, by simp, by simp⟩
  | true =>
  cases build_configured with
  | false => exact .inr ⟨_, _, rfl, by simp, by simp⟩
  | true =>
  cases file with
  | none => exact .inr ⟨_, _, rfl, by simp, by simp⟩
  | some bytes =>
  by_cases hempty : bytes = []
  · subst hempty
    exact .inr ⟨_, _, rfl, by simp, by simp⟩
  have hnonempty : ¬ bytes.isEmpty = true := by simpa using hempty
  by_cases hlarge : bytes.length > maxFileSize
  · refine .inr ⟨false, .fileTooLarge, ?_, by simp, by simp⟩
    simp only [upload, not_true_eq_false, if_false, if_neg hnonempty, if_pos hlarge]
  simp only [upload, not_true_eq_false, if_false, if_neg hnonempty, if_neg hlarge]
  cases endpoint_valid with
  | false => exact .inr ⟨_, _, rfl, by simp, by simp⟩
  | true =>
  cases session_opened with
  | false => exact .inr ⟨_, _, rfl, by simp, by simp⟩
  | true =>
  cases connected with
  | false => exact .inr ⟨_, _, rfl, by simp, by simp⟩
  | true => exact .inl ⟨bytes, rfl, hempty, Nat.not_lt.mp hlarge, rfl, rfl⟩

/-- What an answer leads to: a result, which has the session unless it is final, a new session, or
more of the loop. -/
theorem answer_cases (file : List UInt8) (u : Upload) (response : Response) (exchange : Exchange) :
    (∃ result, answer file u response exchange = .returned result ∧
      (result.success = true ∨ result.retryable = true → result.upload_id = u.upload_id) ∧
      (result.success = true →
        (exchange = .resume ∧ response.status = 200 ∧ json_string response.body.url ≠ []) ∨
        ∃ count, exchange = .chunk count ∧ (response.status = 200 ∨ response.status = 201))) ∨
    (exchange = .resume ∧ (response.status = 404 ∨ response.status = 410) ∧
      answer file u response exchange = .requesting { u with upload_id := [] } .create 0) ∨
    (exchange = .create ∧ json_string response.body.id ≠ [] ∧
      answer file u response exchange =
        openInput { u with upload_id := json_string response.body.id }) ∨
    exchange ≠ .create ∧ ∃ offset,
      answer file u response exchange = .looping { u with offset, position := offset } := by
  cases exchange with
  | resume =>
    rw [answer, afterResume]
    split_ifs with hstatus hurl hgone
    · exact .inr (.inr (.inr ⟨by simp, _, rfl⟩))
    · exact .inl ⟨_, rfl, by simp, fun _ => .inl ⟨rfl, hstatus, by simpa using hurl⟩⟩
    · exact .inr (.inl ⟨rfl, hgone, rfl⟩)
    · exact .inl ⟨_, rfl, by simp, by simp⟩
  | create =>
    rw [answer, afterCreate]
    split_ifs with hstatus hid
    · exact .inl ⟨_, rfl, by simp, by simp⟩
    · exact .inl ⟨_, rfl, by simp, by simp⟩
    · exact .inr (.inr (.inl ⟨rfl, by simpa using hid, rfl⟩))
  | chunk count =>
    rw [answer, afterChunk]
    split_ifs with hstatus hnext
    · obtain ⟨result, hresult, hid, -⟩ := finish_eq u.upload_id
        (json_string response.body.videoId) (json_string response.body.url)
      exact .inl ⟨result, hresult, fun _ => hid, fun _ => .inr ⟨count, rfl, hstatus⟩⟩
    · exact .inl ⟨_, rfl, by simp, by simp⟩
    · exact .inr (.inr (.inr ⟨by simp, _, rfl⟩))

end BrokerUploader
end GambitRecord.Recorder
