import GambitRecord.Recorder.Dialogue
import GambitRecord.Broker.SessionRace

/-! # The client's offset and the broker's

Upload calls of one file, one after another and each on any session opened for
the file. The worker handles one request at a time; a request may be lost, and
a response arrives whole or not at all: one whose body is cut behind its headers,
which the client takes for whole, is not modelled. YouTube keeps at least one byte
of a chunk that it answers with 308, and never loses any.
-/

namespace GambitRecord.Recorder.Offsets
open Library Library.DigitText Library.Runs Broker

/-- The running call, the sessions, and what YouTube has persisted for each. -/
structure Line where
  client : Option Client
  sessions : Text → Option UploadState
  persisted : Text → ℕ

/-- What becomes of a request that is sent. A chunk that is forwarded leaves YouTube with a number
of bytes; without progress, YouTube's answer does not reach the broker. -/
inductive Fate where
  | lost
  | refused (status : ℕ) (delivered : Bool)
  | created (now : ℕ) (id uploadUrl : Text) (delivered : Bool)
  | handled (now persisted : ℕ) (progress : Option Progress) (delivered : Bool)

inductive Event where
  | call (setup : Setup) (id : Text)
  | poll (stop readable : Bool)
  | exchange (fate : Fate)
  | kill

variable (file : List UInt8) (maxChunk : ℕ)

/-- What YouTube may do with an accepted chunk when it holds `before` bytes. -/
def Permitted (pending : Pending) (before after : ℕ) : Option Progress → Prop
  | some .incomplete => before ≤ after ∧ pending.range.start < after ∧ after ≤ file.length
  | some (.completed _ _) => after = file.length
  | some (.failed status) =>
    before ≤ after ∧ after ≤ file.length ∧ status ≠ 308 ∧ status ≠ 200 ∧ status ≠ 201
  | none => before ≤ after ∧ after ≤ file.length

instance (pending : Pending) (before after : ℕ) (progress : Option Progress) :
    Decidable (Permitted file pending before after progress) :=
  match progress with
  | some .incomplete => instDecidableAnd
  | some (.completed _ _) => instDecidableEqNat ..
  | some (.failed _) => instDecidableAnd
  | none => instDecidableAnd

/-- The statuses with which the worker itself answers: any error to a creation, and to the other
requests the wrong key, an id it cannot read, or that it is unavailable. -/
def Refusal (exchange : Exchange) (status : ℕ) : Prop :=
  exchange = .create ∧ 400 ≤ status ∨ status = 401 ∨ status = 404 ∨ 500 ≤ status

instance (exchange : Exchange) (status : ℕ) : Decidable (Refusal exchange status) :=
  inferInstanceAs (Decidable (_ ∨ _))

/-- A chunk or a status request at its session. -/
def handled (d : Line) (u : Upload) (exchange : Exchange) (attempt now persisted : ℕ)
    (progress : Option Progress) (delivered : Bool) (id : Text) (request : SessionRequest) :
    Option Line :=
  let served := Dialogue.serve now (d.sessions id) request
    (progress.map fun p => p.answer persisted)
  let next : Line :=
    { d with
      client := some (Dialogue.received file u exchange attempt served.2 delivered)
      sessions := Function.update d.sessions id served.1 }
  match UploadSession.fetch now (d.sessions id) request with
  | (_, .respond _) => some next
  | (_, .forward pending) =>
    if Permitted file pending (d.persisted id) persisted progress then
      some { next with persisted := Function.update d.persisted id persisted }
    else none

def exchanged (d : Line) (u : Upload) (exchange : Exchange) (attempt : ℕ) : Fate → Option Line
  | .lost => some { d with client := some (BrokerUploader.retry file u exchange attempt) }
  | .refused status delivered =>
    if Refusal exchange status then
      some { d with
        client := some (Dialogue.received file u exchange attempt ⟨status, {}⟩ delivered) }
    else none
  | .created now id uploadUrl delivered =>
    if exchange = .create ∧ id ≠ [] ∧ d.sessions id = none then
      some { d with
        client := some (Dialogue.received file u exchange attempt ⟨201, { id := some id }⟩ delivered)
        sessions := Function.update d.sessions id
          (some (UploadSession.init now uploadUrl file.length)) }
    else none
  | .handled now persisted progress delivered =>
    match sessionRequest maxChunk (BrokerUploader.wireRequest file u exchange) with
    | some (id, request) =>
      handled file d u exchange attempt now persisted progress delivered id request
    | none => none

def step (d : Line) : Event → Option Line
  | .call setup id =>
    match d.client with
    | none | some (.returned _) =>
      if id = [] ∨ (d.sessions id).isSome then
        some { d with client := some (BrokerUploader.upload setup (some file) id) }
      else none
    | _ => none
  | .poll stop readable =>
    match d.client with
    | some (.looping u) => some { d with client := some (BrokerUploader.poll file u stop readable) }
    | _ => none
  | .exchange fate =>
    match d.client with
    | some (.requesting u exchange attempt) => exchanged file maxChunk d u exchange attempt fate
    | _ => none
  | .kill => some { d with client := none }

def machine : Machine Line Event where
  init := ⟨none, fun _ => none, fun _ => 0⟩
  step := step file maxChunk

abbrev Sessions := Text → Option UploadState

/-- The offset of a call is not past that of its session, and its stream stands there. -/
def Behind (sessions : Sessions) (u : Upload) : Prop :=
  ∃ state, sessions u.upload_id = some state ∧ u.offset ≤ state.nextOffset ∧
    u.position = u.offset

def Ready (sessions : Sessions) : Client → Prop
  | .requesting u .create _ => u.offset = 0
  | .requesting u .resume _ => u.offset = 0 ∧ (sessions u.upload_id).isSome
  | .requesting u (.chunk count) _ =>
    Behind sessions u ∧ u.offset < file.length ∧ count = min chunk_size (file.length - u.offset)
  | .looping u => Behind sessions u
  | .returned result => ∀ response, result.error = some (.uploadFailed response) →
    response.status ≠ 400 ∧ response.status ≠ 409

/-- Every session is one for the file, and not past its end. -/
def Sound (sessions : Sessions) : Prop :=
  ∀ id state, sessions id = some state →
    state.total = file.length ∧ state.nextOffset ≤ file.length

structure Inv (d : Line) : Prop where
  fresh : d.sessions [] = none
  sound : Sound file d.sessions
  client : ∀ client ∈ d.client, Ready file d.sessions client

/-- A chunk that is sent reaches a session whose decision is to accept or to replay it, and a
call does not end with a chunk refused as invalid or out of order. -/
def Agrees (d : Line) : Prop :=
  (∀ u count attempt, d.client = some (.requesting u (.chunk count) attempt) →
    ∃ state request, d.sessions u.upload_id = some state ∧
      sessionRequest maxChunk (BrokerUploader.wireRequest file u (.chunk count)) =
        some (u.upload_id, request) ∧
      (UploadSession.decision state request = .accept ∨
        UploadSession.decision state request = .replay)) ∧
  ∀ result response, d.client = some (.returned result) →
    result.error = some (.uploadFailed response) → response.status ≠ 400 ∧ response.status ≠ 409

variable {file maxChunk}

/-- Sessions stay, and their offsets do not decrease. -/
def Grows (sessions later : Sessions) : Prop :=
  ∀ id state, sessions id = some state →
    ∃ stored, later id = some stored ∧ state.nextOffset ≤ stored.nextOffset

theorem Behind.grow {sessions later : Sessions} {u : Upload} (h : Behind sessions u)
    (hgrow : Grows sessions later) : Behind later u := by
  obtain ⟨state, hstate, hle, hposition⟩ := h
  obtain ⟨stored, hstored, hmore⟩ := hgrow _ state hstate
  exact ⟨stored, hstored, hle.trans hmore, hposition⟩

theorem Ready.grow {sessions later : Sessions} {client : Client} (h : Ready file sessions client)
    (hgrow : Grows sessions later) : Ready file later client := by
  cases client with
  | requesting u exchange attempt =>
    cases exchange with
    | create => exact h
    | resume =>
      obtain ⟨state, hstate⟩ := Option.isSome_iff_exists.mp h.2
      obtain ⟨stored, hstored, -⟩ := hgrow _ state hstate
      exact ⟨h.1, by rw [hstored]; rfl⟩
    | chunk count => exact ⟨h.1.grow hgrow, h.2⟩
  | looping u => exact Behind.grow h hgrow
  | returned result => exact h

theorem ready_failed (sessions : Sessions) (id : Text) (retryable : Bool) {error : UploadError}
    (h : ∀ response, error = .uploadFailed response →
      response.status ≠ 400 ∧ response.status ≠ 409) :
    Ready file sessions (BrokerUploader.failed id retryable error) := by
  intro response hresponse
  cases hresponse
  exact h response rfl

theorem ready_finish (sessions : Sessions) (id video_id url : Text) :
    Ready file sessions (BrokerUploader.finish id video_id url) := by
  intro response hresponse
  simp only at hresponse
  split_ifs at hresponse
  all_goals cases hresponse

theorem ready_upload {sessions : Sessions} (setup : Setup) {id : Text}
    (hid : id = [] ∨ (sessions id).isSome) :
    Ready file sessions (BrokerUploader.upload setup (some file) id) := by
  rcases BrokerUploader.upload_cases setup (some file) id with
    ⟨_, -, -, -, -, hupload⟩ | ⟨retryable, error, hupload, herror, -⟩
  · rw [hupload]
    by_cases hempty : id = []
    · subst hempty
      rfl
    · rw [if_neg (by simpa using hempty)]
      exact ⟨rfl, hid.resolve_left hempty⟩
  · rw [hupload]
    exact ready_failed _ _ _ fun response h => absurd h (herror response)

theorem ready_poll {sessions : Sessions} {u : Upload} (h : Behind sessions u) (stop readable : Bool) :
    Ready file sessions (BrokerUploader.poll file u stop readable) := by
  unfold BrokerUploader.poll
  split_ifs with hlt
  · exact ready_failed _ _ _ (by simp)
  · exact ⟨h, hlt, rfl⟩
  · exact ready_failed _ _ _ (by simp)
  · exact ready_finish sessions _ _ _

theorem ready_error {sessions : Sessions} {u : Upload} {exchange : Exchange} {response : Response}
    (h : response.status ≠ 200 ∧ response.status ≠ 201 ∧ response.status ≠ 308)
    (hchunk : exchange ≠ .create → response.status ≠ 400 ∧ response.status ≠ 409)
    (hresume : exchange = .resume → u.offset = 0) :
    Ready file sessions (BrokerUploader.answer file u response exchange) := by
  obtain ⟨h200, h201, h308⟩ := h
  cases exchange with
  | create =>
    rw [BrokerUploader.answer, BrokerUploader.afterCreate, if_pos h201]
    exact ready_failed _ _ _ (by simp)
  | resume =>
    rw [BrokerUploader.answer, BrokerUploader.afterResume, if_neg h200]
    split_ifs
    · exact hresume rfl
    · exact ready_failed _ _ _ (by simp)
  | chunk count =>
    rw [BrokerUploader.answer, BrokerUploader.afterChunk, if_neg (not_or.mpr ⟨h200, h201⟩),
      if_pos h308]
    apply ready_failed
    intro failed hfailed
    cases hfailed
    exact hchunk (by simp)

theorem ready_server_error {sessions : Sessions} {u : Upload} {response : Response}
    (h : 500 ≤ response.status) (count : ℕ) :
    Ready file sessions (BrokerUploader.answer file u response (.chunk count)) := by
  apply ready_error
  · omega
  · omega
  · intro hresume
    cases hresume

/-- Sending a request again, or giving it up, asks nothing new of the sessions. -/
theorem ready_retry {sessions : Sessions} {u : Upload} {exchange : Exchange} {attempt : ℕ}
    (h : Ready file sessions (.requesting u exchange attempt)) :
    Ready file sessions (BrokerUploader.retry file u exchange attempt) := by
  rw [BrokerUploader.retry]
  split_ifs
  · cases exchange <;> exact h
  · apply ready_error
    · simp [networkFailure]
    · simp [networkFailure]
    · rintro rfl
      exact h.1

theorem ready_received {sessions : Sessions} {u : Upload} {exchange : Exchange} {attempt : ℕ}
    {response : Response} (h : Ready file sessions (.requesting u exchange attempt))
    (hanswer : Ready file sessions (BrokerUploader.answer file u response exchange)) (delivered : Bool) :
    Ready file sessions (Dialogue.received file u exchange attempt response delivered) := by
  cases delivered with
  | false => exact ready_retry h
  | true => exact hanswer

def chunkRequest (file : List UInt8) (maxChunk : ℕ) (u : Upload) (count : ℕ) : SessionRequest :=
  ⟨.chunk, .put, some (contentRange u.offset (u.offset + count - 1) file.length),
    ((file.drop u.position).take count).length, maxChunk, (file.drop u.position).take count⟩

theorem parse_chunk (hmax : file.length ≤ maxFileSize) {u : Upload} {count : ℕ}
    (hlt : u.offset < file.length) (hcount : count = min chunk_size (file.length - u.offset)) :
    parseContentRange (some (contentRange u.offset (u.offset + count - 1) file.length)) =
      some ⟨u.offset, u.offset + count - 1, file.length⟩ := by
  have hsize : 0 < chunk_size := by decide
  have hsafe : maxFileSize ≤ Binary64.maxSafe := by decide
  apply parseContentRange_contentRange <;> omega

/-- Replay or accept is what the broker decides on a chunk of a call that is not ahead of it. -/
theorem decision_chunk (hmax : file.length ≤ maxFileSize) (hchunk : chunk_size ≤ maxChunk)
    {u : Upload} {count : ℕ} {state : UploadState} (hlt : u.offset < file.length)
    (hcount : count = min chunk_size (file.length - u.offset))
    (hposition : u.position = u.offset) (htotal : state.total = file.length)
    (hle : u.offset ≤ state.nextOffset) :
    UploadSession.decision state (chunkRequest file maxChunk u count) =
      if u.offset < state.nextOffset then .replay else .accept := by
  have hsize : 0 < chunk_size := by decide
  have hlength : ((file.drop u.position).take count).length = count := by
    rw [List.length_take, List.length_drop, hposition]
    omega
  rw [UploadSession.decision, chunkRequest, parse_chunk hmax hlt hcount, hlength]
  simp only [classifyChunk, htotal]
  rw [if_neg (by omega)]
  split_ifs
  · rfl
  · omega
  · rfl

theorem fetch_chunk (hmax : file.length ≤ maxFileSize) (hchunk : chunk_size ≤ maxChunk)
    {u : Upload} {count : ℕ} {state : UploadState} (hlt : u.offset < file.length)
    (hcount : count = min chunk_size (file.length - u.offset))
    (hposition : u.position = u.offset) (htotal : state.total = file.length)
    (hle : u.offset ≤ state.nextOffset) (now : ℕ) :
    UploadSession.fetch now (some state) (chunkRequest file maxChunk u count) =
        (some state, .respond ⟨410, { error := some (text "upload_expired") }⟩) ∨
      UploadSession.fetch now (some state) (chunkRequest file maxChunk u count) =
        (some state, .respond
          ⟨308, { nextOffset := some (decimal state.nextOffset), replayed := some true }⟩) ∨
      u.offset = state.nextOffset ∧
        ∃ header body,
          UploadSession.fetch now (some state) (chunkRequest file maxChunk u count) =
            (some state, .forward
              ⟨state, ⟨u.offset, u.offset + count - 1, file.length⟩, header, body⟩) := by
  have hdecision := @decision_chunk _ _ hmax hchunk _ _ state hlt hcount hposition htotal hle
  have hparse := parse_chunk hmax hlt hcount
  by_cases hexp : isExpired state.expiresAt now = true
  · left
    exact if_pos hexp
  · rw [Bool.not_eq_true] at hexp
    right
    by_cases hbehind : u.offset < state.nextOffset
    · rw [if_pos hbehind] at hdecision
      exact .inl (UploadSession.fetch_replay hexp rfl rfl hparse hdecision)
    · rw [if_neg hbehind] at hdecision
      exact .inr ⟨by omega, _, _, UploadSession.fetch_accept hexp rfl rfl hparse hdecision⟩

theorem grows_update {sessions : Sessions} {id : Text}
    {stored : UploadState} (h : ∀ state, sessions id = some state →
      state.nextOffset ≤ stored.nextOffset) :
    Grows sessions (Function.update sessions id (some stored)) := by
  intro k state hstate
  by_cases hk : k = id
  · subst hk
    exact ⟨stored, Function.update_self .., h state hstate⟩
  · exact ⟨state, by rw [Function.update_of_ne hk, hstate], le_rfl⟩

theorem sound_update {sessions : Sessions} {id : Text} {stored : UploadState}
    (h : Sound file sessions) (htotal : stored.total = file.length)
    (hbound : stored.nextOffset ≤ file.length) :
    Sound file (Function.update sessions id (some stored)) := by
  intro k state hstate
  by_cases hk : k = id
  · subst hk
    rw [Function.update_self] at hstate
    cases hstate
    exact ⟨htotal, hbound⟩
  · rw [Function.update_of_ne hk] at hstate
    exact h k state hstate

theorem answer_offset (u : Upload) (count : ℕ) {n : ℕ} (hn : n < 2 ^ 64) (replayed : Option Bool) :
    BrokerUploader.answer file u ⟨308, { nextOffset := some (decimal n), replayed }⟩
      (.chunk count) = .looping { u with offset := n, position := n } := by
  simp [BrokerUploader.answer, BrokerUploader.afterChunk, BrokerUploader.nextOffset, json_string,
    BrokerUploader.stoull_decimal hn]

theorem ready_offset {sessions : Sessions} {u : Upload} {stored : UploadState} (count : ℕ)
    (hmax : file.length ≤ maxFileSize) (hbound : stored.nextOffset ≤ file.length)
    (hstored : sessions u.upload_id = some stored) (replayed : Option Bool) :
    Ready file sessions (BrokerUploader.answer file u
      ⟨308, { nextOffset := some (decimal stored.nextOffset), replayed }⟩ (.chunk count)) := by
  have hsize : maxFileSize < 2 ^ 64 := by decide
  rw [answer_offset u count (by omega) replayed]
  exact ⟨stored, hstored, le_rfl, rfl⟩

theorem inv_next {d : Line} {u : Upload} {exchange : Exchange} {attempt : ℕ}
    {state stored : UploadState} {response : Response} {persisted : Text → ℕ} (hd : Inv file d)
    (hclient : d.client = some (.requesting u exchange attempt))
    (hstate : d.sessions u.upload_id = some state) (hgrow : state.nextOffset ≤ stored.nextOffset)
    (htotal : stored.total = file.length) (hbound : stored.nextOffset ≤ file.length)
    (hanswer : Ready file (Function.update d.sessions u.upload_id (some stored))
      (BrokerUploader.answer file u response exchange)) (delivered : Bool) :
    Inv file ⟨some (Dialogue.received file u exchange attempt response delivered),
      Function.update d.sessions u.upload_id (some stored), persisted⟩ := by
  have hgrows : Grows d.sessions (Function.update d.sessions u.upload_id (some stored)) := by
    apply grows_update
    intro s hs
    cases hstate.symm.trans hs
    exact hgrow
  have hid : [] ≠ u.upload_id := fun h => by
    rw [← h, hd.fresh] at hstate
    cases hstate
  constructor
  · exact (Function.update_of_ne hid ..).trans hd.fresh
  · exact sound_update hd.sound htotal hbound
  · intro client hc
    cases hc
    exact ready_received ((hd.client _ hclient).grow hgrows) hanswer delivered

theorem serve_respond {now : ℕ} {storage left : Option UploadState} {request : SessionRequest}
    {response : Response}
    (h : UploadSession.fetch now storage request = (left, .respond response))
    (upstream : Option Answer) :
    Dialogue.serve now storage request upstream = (left, response) := by
  simp only [Dialogue.serve, h]

theorem serve_forward {now : ℕ} {storage left : Option UploadState} {request : SessionRequest}
    {pending : Pending}
    (h : UploadSession.fetch now storage request = (left, .forward pending)) :
    Dialogue.serve now storage request none = (left, ⟨500, {}⟩) ∧
      ∀ answer, Dialogue.serve now storage request (some answer) =
        UploadSession.resume left pending answer := by
  constructor
  · simp only [Dialogue.serve, h]
  · intro answer
    simp only [Dialogue.serve, h]

/-- A 308 with the held range stores the count of bytes held and answers with it. -/
theorem resume_incomplete {persisted : ℕ} (hpos : 0 < persisted)
    (hsafe : persisted ≤ Binary64.maxSafe) (storage : Option UploadState) (pending : Pending) :
    UploadSession.resume storage pending (Progress.answer persisted .incomplete) =
      (some { pending.state with nextOffset := persisted },
        ⟨308, { nextOffset := some (decimal persisted) }⟩) := by
  have hnext : ∀ fallback,
      nextOffsetFromRange (some (heldRange (persisted - 1))) fallback = persisted := by
    intro fallback
    rw [nextOffsetFromRange_heldRange (by omega)]
    omega
  have hne : persisted ≠ 0 := by omega
  simp [UploadSession.resume, UploadSession.afterAnswer, UploadSession.answerResponse,
    Progress.answer, hne, hnext]

/-- A success of YouTube stores the end of the file and is handed on, unless its body cannot be
read. -/
theorem resume_completed (persisted : ℕ) (created : Bool) (body : AnswerBody)
    (storage : Option UploadState) (pending : Pending) :
    (∃ status, (status = 200 ∨ status = 201) ∧ ∃ id,
      UploadSession.resume storage pending (Progress.answer persisted (.completed created body)) =
        (some { pending.state with
            nextOffset := pending.state.total, videoId := id, url := UploadSession.videoUrl id },
          ⟨status, { videoId := id, url := UploadSession.videoUrl id }⟩)) ∨
      UploadSession.resume storage pending (Progress.answer persisted (.completed created body)) =
        (storage, ⟨500, {}⟩) := by
  cases body with
  | unreadable =>
    right
    cases created <;>
      simp [UploadSession.resume, UploadSession.afterAnswer, UploadSession.answerResponse,
        Progress.answer]
  | json id =>
    left
    cases created
    · exact ⟨200, .inl rfl, id, rfl⟩
    · exact ⟨201, .inr rfl, id, rfl⟩

/-- An error of YouTube stores nothing and is answered as one of the gateway. -/
theorem resume_failed {status : ℕ} (h : status ≠ 308 ∧ status ≠ 200 ∧ status ≠ 201)
    (persisted : ℕ) (storage : Option UploadState) (pending : Pending) :
    UploadSession.resume storage pending (Progress.answer persisted (.failed status)) =
      (storage, ⟨if status ≥ 500 then 503 else 502,
        { error := some (text "youtube_chunk_failed"), upstreamStatus := some status }⟩) := by
  obtain ⟨h308, h200, h201⟩ := h
  simp [UploadSession.resume, UploadSession.afterAnswer, UploadSession.answerResponse,
    Progress.answer, h308, h200, h201]

theorem handled_respond {d t : Line} {u : Upload} {exchange : Exchange}
    {attempt now persisted : ℕ} {progress : Option Progress} {delivered : Bool} {id : Text}
    {request : SessionRequest} {left : Option UploadState} {response : Response}
    (hfetch : UploadSession.fetch now (d.sessions id) request = (left, .respond response))
    (h : handled file d u exchange attempt now persisted progress delivered id request = some t) :
    t = ⟨some (Dialogue.received file u exchange attempt response delivered),
      Function.update d.sessions id left, d.persisted⟩ := by
  rw [handled, hfetch, serve_respond hfetch] at h
  exact (Option.some.inj h).symm

theorem handled_forward {d t : Line} {u : Upload} {exchange : Exchange}
    {attempt now persisted : ℕ} {progress : Option Progress} {delivered : Bool} {id : Text}
    {request : SessionRequest} {left : Option UploadState} {pending : Pending}
    (hfetch : UploadSession.fetch now (d.sessions id) request = (left, .forward pending))
    (h : handled file d u exchange attempt now persisted progress delivered id request = some t) :
    Permitted file pending (d.persisted id) persisted progress ∧
      t = ⟨some (Dialogue.received file u exchange attempt
          (Dialogue.serve now (d.sessions id) request
            (progress.map fun p => p.answer persisted)).2 delivered),
        Function.update d.sessions id (Dialogue.serve now (d.sessions id) request
          (progress.map fun p => p.answer persisted)).1,
        Function.update d.persisted id persisted⟩ := by
  rw [handled, hfetch] at h
  simp only at h
  split_ifs at h with hpermitted
  exact ⟨hpermitted, (Option.some.inj h).symm⟩

/-- What an accepted chunk leaves behind: the session is not set back, and a call that hears the
response is not ahead of it. -/
theorem served_forward (hmax : file.length ≤ maxFileSize) {now persisted before : ℕ}
    {state : UploadState} {request : SessionRequest} {pending : Pending}
    {progress : Option Progress} {u : Upload} {count : ℕ}
    (hfetch : UploadSession.fetch now (some state) request = (some state, .forward pending))
    (hpending : pending.state = state) (hstart : pending.range.start = state.nextOffset)
    (htotal : state.total = file.length) (hbound : state.nextOffset ≤ file.length)
    (hpermitted : Permitted file pending before persisted progress) :
    ∃ stored, (Dialogue.serve now (some state) request
        (progress.map fun p => p.answer persisted)).1 = some stored ∧
      state.nextOffset ≤ stored.nextOffset ∧ stored.total = file.length ∧
      stored.nextOffset ≤ file.length ∧
      ∀ sessions : Sessions, sessions u.upload_id = some stored → Ready file sessions
        (BrokerUploader.answer file u (Dialogue.serve now (some state) request
          (progress.map fun p => p.answer persisted)).2 (.chunk count)) := by
  subst hpending
  cases progress with
  | none =>
    rw [Option.map_none, (serve_forward hfetch).1]
    exact ⟨pending.state, rfl, le_rfl, htotal, hbound, fun sessions _ =>
      ready_server_error le_rfl count⟩
  | some progress =>
    rw [Option.map_some, (serve_forward hfetch).2]
    cases progress with
    | incomplete =>
      obtain ⟨-, hmore, hle⟩ := hpermitted
      have hsafe : maxFileSize ≤ Binary64.maxSafe := by decide
      rw [resume_incomplete (by omega) (by omega)]
      refine ⟨_, rfl, (hstart ▸ hmore).le, htotal, hle, fun sessions hstored => ?_⟩
      exact @ready_offset file sessions u _ count hmax hle hstored none
    | completed created body =>
      rcases resume_completed persisted created body (some pending.state) pending with
        ⟨status, hstatus, id, hresume⟩ | hresume
      · rw [hresume]
        refine ⟨_, rfl, htotal ▸ hbound, htotal, htotal.le, fun sessions _ => ?_⟩
        rw [BrokerUploader.answer, BrokerUploader.afterChunk, if_pos hstatus]
        exact ready_finish sessions _ _ _
      · rw [hresume]
        exact ⟨pending.state, rfl, le_rfl, htotal, hbound, fun sessions _ =>
          ready_server_error le_rfl count⟩
    | failed status =>
      obtain ⟨-, -, hstatus⟩ := hpermitted
      have hcode : 500 ≤ if status ≥ 500 then 503 else 502 := by
        split_ifs <;> omega
      rw [resume_failed hstatus]
      exact ⟨pending.state, rfl, le_rfl, htotal, hbound, fun sessions _ =>
        ready_server_error hcode count⟩

theorem inv_client {d : Line} {client : Client} (hd : Inv file d)
    (h : Ready file d.sessions client) : Inv file { d with client := some client } where
  fresh := hd.fresh
  sound := hd.sound
  client := by
    intro c hc
    cases hc
    exact h

theorem inv_chunk (hmax : file.length ≤ maxFileSize) (hchunk : chunk_size ≤ maxChunk) {d t : Line}
    {u : Upload} {count attempt now persisted : ℕ} {progress : Option Progress} {delivered : Bool}
    (hd : Inv file d) (hclient : d.client = some (.requesting u (.chunk count) attempt))
    (h : handled file d u (.chunk count) attempt now persisted progress delivered u.upload_id
      (chunkRequest file maxChunk u count) = some t) : Inv file t := by
  obtain ⟨⟨state, hstate, hle, hposition⟩, hlt, hcount⟩ := hd.client _ hclient
  obtain ⟨htotal, hbound⟩ := hd.sound _ state hstate
  rcases @fetch_chunk _ _ hmax hchunk _ _ _ hlt hcount hposition htotal hle now with
    hgone | hreplay | ⟨heq, header, body, hforward⟩
  · rw [handled_respond (by rw [hstate]; exact hgone) h]
    apply inv_next hd hclient hstate le_rfl htotal hbound
    apply ready_error
    · simp
    · simp
    · simp
  · rw [handled_respond (by rw [hstate]; exact hreplay) h]
    apply inv_next hd hclient hstate le_rfl htotal hbound
    exact ready_offset count hmax hbound (Function.update_self ..) (some true)
  · obtain ⟨hpermitted, rfl⟩ := handled_forward (by rw [hstate]; exact hforward) h
    obtain ⟨stored, hstored, hgrow, htotal', hbound', hready⟩ :=
      @served_forward file hmax now persisted _ state _ _ progress u count
        hforward rfl heq htotal hbound hpermitted
    rw [hstate, hstored]
    exact inv_next hd hclient hstate hgrow htotal' hbound'
      (hready _ (Function.update_self ..)) delivered

def statusRequest (maxChunk : ℕ) : SessionRequest := ⟨.status, .get, none, 0, maxChunk, []⟩

theorem fetch_status (now : ℕ) (state : UploadState) (maxChunk : ℕ) :
    UploadSession.fetch now (some state) (statusRequest maxChunk) =
        (some state, .respond ⟨410, { error := some (text "upload_expired") }⟩) ∨
      UploadSession.fetch now (some state) (statusRequest maxChunk) =
        (some state, .respond ⟨200, UploadSession.statusBody state⟩) := by
  by_cases hexp : isExpired state.expiresAt now = true
  · left
    exact if_pos hexp
  · right
    rw [Bool.not_eq_true] at hexp
    simp [UploadSession.fetch, hexp, statusRequest]

theorem ready_status {sessions : Sessions} {u : Upload} {state : UploadState}
    (hmax : file.length ≤ maxFileSize) (hbound : state.nextOffset ≤ file.length)
    (hstate : sessions u.upload_id = some state) :
    Ready file sessions (BrokerUploader.answer file u ⟨200, UploadSession.statusBody state⟩
      .resume) := by
  have hsize : maxFileSize < 2 ^ 64 := by decide
  have hoffset : BrokerUploader.resumeOffset file.length (UploadSession.statusBody state) =
      state.nextOffset := by
    rw [BrokerUploader.resumeOffset, UploadSession.statusBody, json_string, Option.getD_some,
      BrokerUploader.stoull_decimal (by omega)]
    exact if_neg (by omega)
  rw [BrokerUploader.answer, BrokerUploader.afterResume, if_pos rfl]
  split_ifs
  · exact ⟨state, hstate, hoffset.le, rfl⟩
  · intro response hresponse
    cases hresponse

theorem inv_resume (hmax : file.length ≤ maxFileSize) {d t : Line} {u : Upload}
    {attempt now persisted : ℕ} {progress : Option Progress} {delivered : Bool} (hd : Inv file d)
    (hclient : d.client = some (.requesting u .resume attempt))
    (h : handled file d u .resume attempt now persisted progress delivered u.upload_id
      (statusRequest maxChunk) = some t) : Inv file t := by
  obtain ⟨hoffset, hsome⟩ := hd.client _ hclient
  obtain ⟨state, hstate⟩ := Option.isSome_iff_exists.mp hsome
  obtain ⟨htotal, hbound⟩ := hd.sound _ state hstate
  rcases fetch_status now state maxChunk with hgone | hlive
  · rw [handled_respond (by rw [hstate]; exact hgone) h]
    apply inv_next hd hclient hstate le_rfl htotal hbound
    exact hoffset
  · rw [handled_respond (by rw [hstate]; exact hlive) h]
    apply inv_next hd hclient hstate le_rfl htotal hbound
    exact ready_status hmax hbound (Function.update_self ..)

theorem inv_created {d : Line} {u : Upload} {attempt : ℕ} {id : Text} (now : ℕ) (uploadUrl : Text)
    (hd : Inv file d) (hclient : d.client = some (.requesting u .create attempt)) (hid : id ≠ [])
    (delivered : Bool) :
    Inv file
      { d with
        client := some (Dialogue.received file u .create attempt ⟨201, { id := some id }⟩ delivered)
        sessions := Function.update d.sessions id
          (some (UploadSession.init now uploadUrl file.length)) } := by
  have hoffset : u.offset = 0 := hd.client _ hclient
  constructor
  · exact (Function.update_of_ne hid.symm ..).trans hd.fresh
  · exact sound_update hd.sound rfl (Nat.zero_le _)
  · intro client hc
    cases hc
    apply ready_received
    · exact hoffset
    · have hanswer : BrokerUploader.answer file u ⟨201, { id := some id }⟩ .create =
          .looping { u with upload_id := id, position := u.offset } := by
        simp [BrokerUploader.answer, BrokerUploader.afterCreate, json_string, hid,
          BrokerUploader.openInput]
      rw [hanswer]
      exact ⟨_, Function.update_self .., hoffset.le, rfl⟩

theorem inv_exchanged (hmax : file.length ≤ maxFileSize) (hchunk : chunk_size ≤ maxChunk)
    {d t : Line} {u : Upload} {exchange : Exchange} {attempt : ℕ} {fate : Fate} (hd : Inv file d)
    (hclient : d.client = some (.requesting u exchange attempt))
    (h : exchanged file maxChunk d u exchange attempt fate = some t) : Inv file t := by
  have hready := hd.client _ hclient
  cases fate with
  | lost =>
    cases h
    exact inv_client hd (ready_retry hready)
  | refused status delivered =>
    simp only [exchanged] at h
    split_ifs at h with hrefusal
    cases h
    apply inv_client hd
    apply ready_received hready
    apply ready_error
    · change status ≠ 200 ∧ status ≠ 201 ∧ status ≠ 308
      unfold Refusal at hrefusal
      omega
    · intro hne
      change status ≠ 400 ∧ status ≠ 409
      rcases hrefusal with hcreate | hother
      · exact absurd hcreate.1 hne
      · omega
    · rintro rfl
      exact hready.1
  | created now id uploadUrl delivered =>
    simp only [exchanged] at h
    split_ifs at h with hguard
    obtain ⟨rfl, hid, -⟩ := hguard
    cases h
    exact inv_created now uploadUrl hd hclient hid delivered
  | handled now persisted progress delivered =>
    cases exchange with
    | create => cases h
    | resume => exact inv_resume hmax hd hclient h
    | chunk count => exact inv_chunk hmax hchunk hd hclient h

theorem inv_step (hmax : file.length ≤ maxFileSize) (hchunk : chunk_size ≤ maxChunk) {s t : Line}
    {e : Event} (hs : Inv file s) (h : step file maxChunk s e = some t) : Inv file t := by
  cases e with
  | call setup id =>
    simp only [step] at h
    split at h
    · split_ifs at h with hid
      cases h
      exact inv_client hs (ready_upload setup hid)
    · split_ifs at h with hid
      cases h
      exact inv_client hs (ready_upload setup hid)
    · cases h
  | poll stop readable =>
    simp only [step] at h
    split at h
    · rename_i u hclient
      cases h
      exact inv_client hs (ready_poll (hs.client _ hclient) stop readable)
    · cases h
  | exchange fate =>
    simp only [step] at h
    split at h
    · rename_i u exchange attempt hclient
      exact inv_exchanged hmax hchunk hs hclient h
    · cases h
  | kill =>
    cases h
    exact ⟨hs.fresh, hs.sound, fun client hc => by cases hc⟩

theorem inv_init : Inv file (machine file maxChunk).init where
  fresh := rfl
  sound := by
    intro id state h
    cases h
  client := by
    intro client h
    cases h

theorem agrees_of_inv (hmax : file.length ≤ maxFileSize) (hchunk : chunk_size ≤ maxChunk)
    {d : Line} (hd : Inv file d) : Agrees file maxChunk d := by
  constructor
  · intro u count attempt hclient
    obtain ⟨⟨state, hstate, hle, hposition⟩, hlt, hcount⟩ := hd.client _ hclient
    refine ⟨state, chunkRequest file maxChunk u count, hstate, rfl, ?_⟩
    rw [decision_chunk hmax hchunk hlt hcount hposition (hd.sound _ state hstate).1 hle]
    split_ifs
    · exact .inr rfl
    · exact .inl rfl
  · intro result response hclient
    exact hd.client _ hclient response

/-- In every run of upload calls of one file, whatever is lost and however the calls are resumed,
every chunk that is sent is accepted or replayed, and none ends its call as invalid or out of
order. -/
theorem agrees_of_run (file : List UInt8) (maxChunk : ℕ) (es : List Event) (d : Line)
    (hmax : file.length ≤ maxFileSize) (hchunk : chunk_size ≤ maxChunk)
    (hrun : (machine file maxChunk).run es = some d) : Agrees file maxChunk d :=
  Machine.invariant (I := Inv file) (fun _ _ _ hs h => inv_step hmax hchunk hs h) hrun inv_init
    |> agrees_of_inv hmax hchunk

/-- YouTube keeps one of two bytes and the answer is lost; the chunk goes out again, is replayed,
and the rest of it follows. -/
def partlyKeptRun : List Event :=
  [.call ⟨true, true, true, true, true⟩ [], .exchange (.created 0 ['a'] [] true),
    .poll false true, .exchange (.handled 1 1 (some .incomplete) false),
    .exchange (.handled 2 1 none true), .poll false true]

theorem partlyKeptRun_accepted :
    ((machine [7, 8] chunk_size).run partlyKeptRun).isSome := by
  decide +kernel

theorem agrees_partlyKeptRun :
    Agrees [7, 8] chunk_size
      (((machine [7, 8] chunk_size).run partlyKeptRun).get partlyKeptRun_accepted) :=
  agrees_of_run [7, 8] chunk_size partlyKeptRun _ (by decide) le_rfl (Option.some_get _).symm

end GambitRecord.Recorder.Offsets
