import GambitRecord.Broker.Protocol

/-! # The durable upload session

`UploadSession.fetch` of `broker/src/index.ts`, cut at its only await on the
network. `fetch` runs from the request to the response or to the forwarded
chunk; `resume` runs from YouTube's answer to the response. The handler keeps
its own copy of the stored state in between and writes that copy back.
-/

namespace GambitRecord.Broker
open Library Library.DigitText

structure Body where
  id : Option Text := none
  nextOffset : Option Text := none
  complete : Option Bool := none
  replayed : Option Bool := none
  cancelled : Option Bool := none
  videoId : Option Text := none
  url : Option Text := none
  error : Option Text := none
  upstreamStatus : Option ℕ := none
  deriving DecidableEq

structure Response where
  status : ℕ
  body : Body
  deriving DecidableEq

inductive Method where
  | get | post | put
  deriving DecidableEq

/-- What follows `https://session` in a request to the object. -/
inductive SessionPath where
  | status | cancel | chunk
  deriving DecidableEq

structure SessionRequest where
  path : SessionPath
  method : Method
  contentRange : Option Text
  contentLength : ℕ
  maxChunk : ℕ
  body : List UInt8
  deriving DecidableEq

structure UploadState where
  uploadUrl : Text
  total : ℕ
  nextOffset : ℕ
  expiresAt : ℕ
  videoId : Option Text := none
  url : Option Text := none
  deriving DecidableEq

/-- What YouTube's answer to a chunk carries: `id` is read from its JSON body, which may not
parse. -/
inductive AnswerBody where
  | unreadable
  | json (id : Option Text)
  deriving DecidableEq

structure Answer where
  status : ℕ
  range : Option Text
  body : AnswerBody
  deriving DecidableEq

/-- A handler that awaits YouTube: its copy of the state and the chunk it forwarded. -/
structure Pending where
  state : UploadState
  range : ByteRange
  contentRange : Option Text
  body : List UInt8
  deriving DecidableEq

inductive Handling where
  | respond (response : Response)
  | forward (pending : Pending)
  deriving DecidableEq

namespace UploadSession

/-- Twenty-four hours in milliseconds. -/
def lifetime : ℕ := 86400000

def init (now : ℕ) (uploadUrl : Text) (total : ℕ) : UploadState :=
  { uploadUrl, total, nextOffset := 0, expiresAt := now + lifetime }

def statusBody (state : UploadState) : Body :=
  { nextOffset := some (decimal state.nextOffset), complete := some state.url.isSome,
    videoId := state.videoId, url := state.url }

/-- The decision on a chunk request, from the headers that `routeUpload` passes on. -/
def decision (state : UploadState) (request : SessionRequest) : ChunkDecision :=
  classifyChunk (parseContentRange request.contentRange) state.nextOffset state.total
    request.contentLength request.maxChunk

/-- A request up to its response or up to the await on YouTube. -/
def fetch (now : ℕ) (storage : Option UploadState) (request : SessionRequest) :
    Option UploadState × Handling :=
  match storage with
  | none => (storage, .respond ⟨410, { error := some (text "upload_expired") }⟩)
  | some state =>
    if isExpired state.expiresAt now then
      (storage, .respond ⟨410, { error := some (text "upload_expired") }⟩)
    else if request.path = .status ∧ request.method = .get then
      (storage, .respond ⟨200, statusBody state⟩)
    else if request.path = .cancel ∧ request.method = .post then
      (none, .respond ⟨200, { cancelled := some true }⟩)
    else if request.path ≠ .chunk ∨ request.method ≠ .put then
      (storage, .respond ⟨404, { error := some (text "not_found") }⟩)
    else
      match parseContentRange request.contentRange, decision state request with
      | none, _ | _, .invalid =>
        (storage, .respond ⟨400, { error := some (text "invalid_chunk") }⟩)
      | some _, .replay =>
        (storage, .respond ⟨308,
          { nextOffset := some (decimal state.nextOffset), replayed := some true }⟩)
      | some _, .gap =>
        (storage, .respond ⟨409,
          { error := some (text "non_sequential_chunk"),
            nextOffset := some (decimal state.nextOffset) }⟩)
      | some range, .accept =>
        (storage, .forward ⟨state, range, request.contentRange, request.body⟩)

/-- The link of a video id; JavaScript takes the empty string for a missing one. -/
def videoUrl (id : Option Text) : Option Text :=
  match id with
  | none | some [] => none
  | some (c :: id) => some (text "https://youtu.be/" ++ c :: id)

/-- The copy of the state that an answer writes back. -/
def afterAnswer (pending : Pending) (answer : Answer) : Option UploadState :=
  if answer.status = 308 then
    some { pending.state with
      nextOffset := nextOffsetFromRange answer.range (pending.range.end + 1) }
  else if answer.status = 200 ∨ answer.status = 201 then
    match answer.body with
    | .unreadable => none
    | .json id =>
      some { pending.state with
        nextOffset := pending.state.total
        videoId := id
        url := videoUrl id }
  else none

/-- The response to a chunk after YouTube's answer. An answer body that does not parse throws out
of the object and reaches the client as a server error. -/
def answerResponse (pending : Pending) (answer : Answer) : Response :=
  if answer.status = 308 then
    ⟨308,
      { nextOffset :=
          some (decimal (nextOffsetFromRange answer.range (pending.range.end + 1))) }⟩
  else if answer.status = 200 ∨ answer.status = 201 then
    match answer.body with
    | .unreadable => ⟨500, {}⟩
    | .json id => ⟨answer.status, { videoId := id, url := videoUrl id }⟩
  else
    ⟨if answer.status ≥ 500 then 503 else 502,
      { error := some (text "youtube_chunk_failed"), upstreamStatus := some answer.status }⟩

/-- The rest of a chunk handler: the whole copy replaces whatever is stored by then. -/
def resume (storage : Option UploadState) (pending : Pending) (answer : Answer) :
    Option UploadState × Response :=
  ((afterAnswer pending answer).or storage, answerResponse pending answer)

def alarm : Option UploadState := none

theorem videoUrl_ne_nil {id : Option Text} {url : Text} (h : videoUrl id = some url) : url ≠ [] := by
  match id, h with
  | some (c :: id), h =>
    cases h
    simp

/-- Everything the first part of a handler can do: it answers and leaves the storage (a success
only to a status request, with what is stored), it cancels, or it forwards a chunk that starts
where the stored state ends. -/
theorem fetch_cases (now : ℕ) (storage : Option UploadState) (request : SessionRequest) :
    (∃ r, fetch now storage request = (storage, .respond r) ∧
      (r.status = 200 ∨ r.status = 201 →
        request.path = .status ∧ ∃ state, storage = some state ∧ r.body = statusBody state)) ∨
    (∃ r, fetch now storage request = (none, .respond r) ∧
      request.path = .cancel ∧ request.method = .post) ∨
    ∃ state range, storage = some state ∧ parseContentRange request.contentRange = some range ∧
      range.start = state.nextOffset ∧ range.total = state.total ∧ request.path = .chunk ∧
      request.contentLength = range.end - range.start + 1 ∧
      fetch now storage request =
        (storage, .forward ⟨state, range, request.contentRange, request.body⟩) := by
  unfold fetch
  cases storage with
  | none => exact .inl ⟨_, rfl, by simp⟩
  | some state =>
    simp only
    split_ifs with hexp hstatus hcancel hchunk
    · exact .inl ⟨_, rfl, by simp⟩
    · exact .inl ⟨_, rfl, fun _ => ⟨hstatus.1, state, rfl, rfl⟩⟩
    · exact .inr (.inl ⟨_, rfl, hcancel⟩)
    · exact .inl ⟨_, rfl, by simp⟩
    · cases hp : parseContentRange request.contentRange with
      | none => exact .inl ⟨_, rfl, by simp⟩
      | some range =>
        cases hd : decision state request with
        | invalid => exact .inl ⟨_, rfl, by simp⟩
        | replay => exact .inl ⟨_, rfl, by simp⟩
        | gap => exact .inl ⟨_, rfl, by simp⟩
        | accept =>
          obtain ⟨r, hr, htotal, hlen, -, hstart⟩ := classifyChunk_accept hd
          cases hp.symm.trans hr
          have hpath : request.path = .chunk := by
            by_contra hne
            exact hchunk (.inl hne)
          exact .inr (.inr ⟨state, range, rfl, rfl, hstart, htotal, hpath, hlen, rfl⟩)

theorem fetch_forward_storage {now : ℕ} {storage storage' : Option UploadState}
    {request : SessionRequest} {pending : Pending}
    (h : fetch now storage request = (storage', .forward pending)) : storage' = storage := by
  rcases fetch_cases now storage request with
    ⟨r, h', -⟩ | ⟨r, h', -⟩ | ⟨_, _, -, -, -, -, -, -, h'⟩ <;> rw [h'] at h <;> cases h
  rfl

theorem mem_of_fetch_respond {now : ℕ} {storage storage' : Option UploadState}
    {request : SessionRequest} {r : Response}
    (h : fetch now storage request = (storage', .respond r)) {state : UploadState}
    (hstate : state ∈ storage') : state ∈ storage := by
  rcases fetch_cases now storage request with
    ⟨r', h', -⟩ | ⟨r', h', -⟩ | ⟨_, _, -, -, -, -, -, -, h'⟩ <;> rw [h'] at h <;> cases h
  · exact hstate
  · cases hstate

/-- From its expiry on, a session answers every request that it is gone. -/
theorem fetch_expired {now : ℕ} {state : UploadState} (hexpired : state.expiresAt ≤ now)
    (request : SessionRequest) :
    fetch now (some state) request =
      (some state, .respond ⟨410, { error := some (text "upload_expired") }⟩) := by
  simp [fetch, isExpired, hexpired]

/-- A request is answered 308 only with the offset that is stored. -/
theorem fetch_respond_308 {now : ℕ} {storage storage' : Option UploadState}
    {request : SessionRequest} {r : Response}
    (h : fetch now storage request = (storage', .respond r)) (hstatus : r.status = 308) :
    ∃ state, storage' = some state ∧ r.body.nextOffset = some (decimal state.nextOffset) := by
  unfold fetch at h
  cases storage with
  | none =>
    cases h
    cases hstatus
  | some state =>
    simp only at h
    split_ifs at h <;> try (cases h; cases hstatus)
    split at h <;> cases h
    · cases hstatus
    · cases hstatus
    · exact ⟨state, rfl, rfl⟩
    · cases hstatus

/-- A chunk that the state is past is answered with the offset to go on from. -/
theorem fetch_replay {now : ℕ} {state : UploadState} {request : SessionRequest} {range : ByteRange}
    (hlive : isExpired state.expiresAt now = false) (hpath : request.path = .chunk)
    (hmethod : request.method = .put) (hparse : parseContentRange request.contentRange = some range)
    (h : decision state request = .replay) :
    fetch now (some state) request = (some state, .respond
      ⟨308, { nextOffset := some (decimal state.nextOffset), replayed := some true }⟩) := by
  simp [fetch, hlive, hpath, hmethod, hparse, h]

/-- A chunk that continues the state is forwarded. -/
theorem fetch_accept {now : ℕ} {state : UploadState} {request : SessionRequest} {range : ByteRange}
    (hlive : isExpired state.expiresAt now = false) (hpath : request.path = .chunk)
    (hmethod : request.method = .put) (hparse : parseContentRange request.contentRange = some range)
    (h : decision state request = .accept) :
    fetch now (some state) request =
      (some state, .forward ⟨state, range, request.contentRange, request.body⟩) := by
  simp [fetch, hlive, hpath, hmethod, hparse, h]

/-- A write-back keeps what the copy says about the upload itself. -/
theorem afterAnswer_total {pending : Pending} {answer : Answer} {state : UploadState}
    (h : afterAnswer pending answer = some state) :
    state.total = pending.state.total ∧ state.expiresAt = pending.state.expiresAt := by
  unfold afterAnswer at h
  split_ifs at h
  · cases h; exact ⟨rfl, rfl⟩
  · split at h
    · cases h
    · cases h; exact ⟨rfl, rfl⟩

theorem answerResponse_status {pending : Pending} {answer : Answer}
    (h : (answerResponse pending answer).status = 200 ∨
      (answerResponse pending answer).status = 201) :
    answer.status = 200 ∨ answer.status = 201 := by
  by_contra hne
  unfold answerResponse at h
  split_ifs at h <;> simp at h

theorem answerResponse_308 {pending : Pending} {answer : Answer}
    (h : (answerResponse pending answer).status = 308) : answer.status = 308 := by
  by_contra hne
  unfold answerResponse at h
  split_ifs at h with hdone
  · cases hbody : answer.body with
    | unreadable => simp [hbody] at h
    | json id => exact hne (by simpa [hbody] using h)
  · simp at h
  · simp at h

/-- A link is written only for an answer of YouTube that says the upload is complete. -/
theorem afterAnswer_url {pending : Pending} {answer : Answer} {state : UploadState}
    (h : afterAnswer pending answer = some state) (hurl : state.url ≠ pending.state.url) :
    (answer.status = 200 ∨ answer.status = 201) ∧ state.nextOffset = state.total := by
  unfold afterAnswer at h
  split_ifs at h with h308 h200
  · cases h; exact absurd rfl hurl
  · split at h
    · cases h
    · cases h; exact ⟨h200, rfl⟩

/-- A handler that is alone leaves the link as it was, or stores one and answers with it. -/
theorem resume_link (pending : Pending) (answer : Answer) :
    ∃ state, (resume (some pending.state) pending answer).1 = some state ∧
      (state.url = pending.state.url ∨
        state.url ≠ some [] ∧
          ((resume (some pending.state) pending answer).2.status = 200 ∨
            (resume (some pending.state) pending answer).2.status = 201) ∧
          (resume (some pending.state) pending answer).2.body.url = state.url) := by
  unfold resume afterAnswer answerResponse
  split_ifs with h308 hdone
  · exact ⟨_, rfl, .inl rfl⟩
  · cases answer.body with
    | unreadable => exact ⟨_, rfl, .inl rfl⟩
    | json id => exact ⟨_, rfl, .inr ⟨fun h => videoUrl_ne_nil h rfl, hdone, rfl⟩⟩
  all_goals exact ⟨_, rfl, .inl rfl⟩

end UploadSession
end GambitRecord.Broker
