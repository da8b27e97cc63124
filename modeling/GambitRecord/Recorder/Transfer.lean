import GambitRecord.Recorder.BrokerUploader
import GambitRecord.Library.Runs

/-! # One file on its way to YouTube

Upload calls on one file, the broker's sessions, and YouTube behind them. Every
request is a call of its own, so that a request or a response may be lost, a
timed-out request may still arrive, and handlers interleave while they await
YouTube. YouTube appends a chunk only where its bytes end, persists as much of
it as it likes, and completes an upload only when it holds every byte.
-/

namespace GambitRecord.Recorder
open Library Library.DigitText Library.Runs Broker

/-- How far a request has come. -/
inductive Stage where
  | sent
  | forwarded (pending : Pending)
  | answered (pending : Pending) (answer : Answer)
  | responded (response : Response)

structure Call where
  request : WireRequest
  stage : Stage

/-- A session of the broker with the upload that YouTube keeps for it. -/
structure Session where
  storage : Option UploadState
  total : ℕ
  held : List UInt8

/-- The client waits on the last call, if it waits on any. -/
structure Transfer where
  client : Option Client
  calls : List Call
  sessions : Text → Option Session

/-- The session that a request names. -/
def WireRequest.id : WireRequest → Text
  | .resume id => id
  | .create _ => []
  | .put id _ _ => id

/-- `routeUpload`: what a request becomes in its session. -/
def sessionRequest (maxChunk : ℕ) : WireRequest → Option (Text × SessionRequest)
  | .resume id => some (id, ⟨.status, .get, none, 0, maxChunk, []⟩)
  | .create _ => none
  | .put id contentRange body =>
    some (id, ⟨.chunk, .put, some contentRange, body.length, maxChunk, body⟩)

namespace Transfer

inductive Event where
  | upload (setup : Setup) (resume_id : Text)
  | poll (stop readable : Bool)
  | fail
  | deliver
  | create (call now : ℕ) (id uploadUrl : Text)
  | reach (call now maxChunk : ℕ)
  | persist (call count : ℕ) (answer : Answer)
  | resume (call : ℕ)
  | refuse (call status : ℕ)
  | alarm (id : Text)

variable (file : List UInt8)

/-- The client goes on; a request it now waits for leaves as a call of its own. -/
def proceed (t : Transfer) (client : Client) : Transfer :=
  match client with
  | .requesting u exchange _ =>
    { t with client, calls := t.calls ++ [⟨BrokerUploader.wireRequest file u exchange, .sent⟩] }
  | _ => { t with client }

def setStage (t : Transfer) (i : ℕ) (request : WireRequest) (stage : Stage) : Transfer :=
  { t with calls := t.calls.set i ⟨request, stage⟩ }

def setSession (t : Transfer) (id : Text) (session : Session) : Transfer :=
  { t with sessions := Function.update t.sessions id (some session) }

/-- `createUpload` once YouTube has opened an upload; the new object's id is fresh. -/
def created (t : Transfer) (i now : ℕ) (id uploadUrl : Text) (size : ℕ) : Transfer :=
  (t.setStage i (.create size) (.responded ⟨201, { id := some id }⟩)).setSession id
    ⟨some (UploadSession.init now uploadUrl size), size, []⟩

/-- A request runs in its session up to the response or the await. -/
def reached (t : Transfer) (i now : ℕ) (request : WireRequest) (id : Text) (session : Session)
    (inner : SessionRequest) : Transfer :=
  match UploadSession.fetch now session.storage inner with
  | (storage, .respond response) =>
    (t.setStage i request (.responded response)).setSession id { session with storage }
  | (storage, .forward pending) =>
    (t.setStage i request (.forwarded pending)).setSession id { session with storage }

/-- The bytes YouTube holds after it persisted `count` bytes of a chunk. -/
def appended (session : Session) (pending : Pending) (count : ℕ) : List UInt8 :=
  if pending.range.start = session.held.length then session.held ++ pending.body.take count
  else session.held

/-- YouTube says that an upload is complete only when it holds the whole of it. -/
def Truthful (session : Session) (pending : Pending) (count : ℕ) (answer : Answer) : Prop :=
  answer.status = 200 ∨ answer.status = 201 → (appended session pending count).length = session.total

instance (session : Session) (pending : Pending) (count : ℕ) (answer : Answer) :
    Decidable (Truthful session pending count answer) :=
  inferInstanceAs (Decidable (_ → _))

def persisted (t : Transfer) (i : ℕ) (request : WireRequest) (session : Session)
    (pending : Pending) (count : ℕ) (answer : Answer) : Transfer :=
  (t.setStage i request (.answered pending answer)).setSession request.id
    { session with held := appended session pending count }

def resumed (t : Transfer) (i : ℕ) (request : WireRequest) (session : Session)
    (pending : Pending) (answer : Answer) : Transfer :=
  (t.setStage i request
    (.responded (UploadSession.resume session.storage pending answer).2)).setSession
      request.id
      { session with storage := (UploadSession.resume session.storage pending answer).1 }

def step (t : Transfer) : Event → Option Transfer
  | .upload setup resume_id =>
    if resume_id = [] ∨ (t.sessions resume_id).isSome then
      some (t.proceed file (BrokerUploader.upload setup (some file) resume_id))
    else none
  | .poll stop readable =>
    match t.client with
    | some (.looping u) => some (t.proceed file (BrokerUploader.poll file u stop readable))
    | _ => none
  | .fail =>
    match t.client with
    | some (.requesting u exchange attempt) =>
      some (t.proceed file (BrokerUploader.retry file u exchange attempt))
    | _ => none
  | .deliver =>
    match t.client, t.calls.getLast? with
    | some (.requesting u exchange _), some ⟨_, .responded response⟩ =>
      some (t.proceed file (BrokerUploader.answer file u response exchange))
    | _, _ => none
  | .create i now id uploadUrl =>
    match t.calls[i]?, t.sessions id with
    | some ⟨.create size, .sent⟩, none => some (t.created i now id uploadUrl size)
    | _, _ => none
  | .reach i now maxChunk =>
    match t.calls[i]? with
    | some ⟨request, .sent⟩ =>
      match sessionRequest maxChunk request with
      | some (id, inner) =>
        match t.sessions id with
        | some session => some (t.reached i now request id session inner)
        | none => none
      | none => none
    | _ => none
  | .persist i count answer =>
    match t.calls[i]? with
    | some ⟨request, .forwarded pending⟩ =>
      match t.sessions request.id with
      | some session =>
        if Truthful session pending count answer then
          some (t.persisted i request session pending count answer)
        else none
      | none => none
    | _ => none
  | .resume i =>
    match t.calls[i]? with
    | some ⟨request, .answered pending answer⟩ =>
      match t.sessions request.id with
      | some session => some (t.resumed i request session pending answer)
      | none => none
    | _ => none
  | .refuse i status =>
    match t.calls[i]? with
    | some ⟨request, _⟩ =>
      if 400 ≤ status then some (t.setStage i request (.responded ⟨status, {}⟩)) else none
    | none => none
  | .alarm id =>
    match t.sessions id with
    | some session => some (t.setSession id { session with storage := UploadSession.alarm })
    | none => none

def machine : Machine Transfer Event where
  init := ⟨none, [], fun _ => none⟩
  step := step file

/-- YouTube holds exactly the file for a session. -/
def Whole (t : Transfer) (id : Text) : Prop :=
  ∃ session, t.sessions id = some session ∧ session.held = file

/-- A chunk that goes out is the part of the file that its range names. -/
def Chunk (header : Text) (body : List UInt8) : Prop :=
  ∃ offset count, 0 < count ∧ offset + count ≤ file.length ∧ file.length ≤ maxFileSize ∧
    header = contentRange offset (offset + count - 1) file.length ∧
    body = (file.drop offset).take count

def RequestOk : WireRequest → Prop
  | .resume _ => True
  | .create size => size = file.length
  | .put _ header body => Chunk file header body

/-- A forwarded chunk is still a part of the file at its range, and a link in the copy of the
state means what it says. -/
structure PendingOk (t : Transfer) (id : Text) (pending : Pending) : Prop where
  inside : pending.range.start < file.length
  body : ∃ count, pending.body = (file.drop pending.range.start).take count
  link : pending.state.url ≠ none → t.Whole file id

/-- A response that the client may take for success is true. -/
def Reply (t : Transfer) (request : WireRequest) (response : Response) : Prop :=
  match request with
  | .resume id => response.status = 200 → json_string response.body.url ≠ [] → t.Whole file id
  | .create _ => True
  | .put id _ _ => response.status = 200 ∨ response.status = 201 → t.Whole file id

def CallOk (t : Transfer) : Call → Prop
  | ⟨request, .sent⟩ => RequestOk file request
  | ⟨request, .forwarded pending⟩ => PendingOk file t request.id pending
  | ⟨request, .answered pending answer⟩ =>
    PendingOk file t request.id pending ∧
      (answer.status = 200 ∨ answer.status = 201 → t.Whole file request.id)
  | ⟨request, .responded response⟩ => Reply file t request response

/-- YouTube holds the first bytes of the file, and all of them once the link is stored. -/
structure SessionOk (session : Session) : Prop where
  total : session.total = file.length
  held : session.held <+: file
  link : ∀ state ∈ session.storage, state.url ≠ none → session.held = file

def Ready (t : Transfer) : Client → Prop
  | .requesting u exchange _ =>
    file.length ≤ maxFileSize ∧ RequestOk file (BrokerUploader.wireRequest file u exchange)
  | .looping u => file.length ≤ maxFileSize ∧ u.position = u.offset
  | .returned result => result.success = true → t.Whole file result.upload_id

/-- The call that a client waits on carries its request. -/
def Waits (t : Transfer) : Client → Prop
  | .requesting u exchange _ =>
    (t.calls.map Call.request).getLast? = some (BrokerUploader.wireRequest file u exchange)
  | _ => True

structure Inv (t : Transfer) : Prop where
  sessions : ∀ id session, t.sessions id = some session → SessionOk file session
  calls : ∀ call ∈ t.calls, CallOk file t call
  client : ∀ client ∈ t.client, Ready file t client ∧ Waits file t client

variable {file}

theorem append_slice {held file : List UInt8} (h : held <+: file) (n : ℕ) :
    held ++ (file.drop held.length).take n <+: file := by
  rcases h with ⟨rest, rfl⟩
  rw [List.drop_left, List.prefix_append_right_inj]
  exact List.take_prefix n rest

theorem appended_prefix {t : Transfer} {id : Text} {session : Session} {pending : Pending}
    (hs : SessionOk file session) (hp : PendingOk file t id pending) (count : ℕ) :
    appended session pending count <+: file := by
  unfold appended
  by_cases hstart : pending.range.start = session.held.length
  · rcases hp.body with ⟨n, hbody⟩
    rw [if_pos hstart, hbody, hstart, List.take_take]
    exact append_slice hs.held _
  · rw [if_neg hstart]
    exact hs.held

/-- What is whole stays as it is: no chunk starts at its end. -/
theorem appended_whole {t : Transfer} {id : Text} {session : Session} {pending : Pending}
    (hp : PendingOk file t id pending) (hw : session.held = file) (count : ℕ) :
    appended session pending count = file := by
  have hne : pending.range.start ≠ session.held.length := by
    rw [hw]
    exact Nat.ne_of_lt hp.inside
  rw [appended, if_neg hne, hw]

theorem CallOk.mono {s t : Transfer} (hkeep : ∀ id, s.Whole file id → t.Whole file id)
    {call : Call} (h : CallOk file s call) : CallOk file t call := by
  rcases call with ⟨request, stage⟩
  have hpending {pending : Pending} (hp : PendingOk file s request.id pending) :
      PendingOk file t request.id pending :=
    ⟨hp.inside, hp.body, fun hurl => hkeep _ (hp.link hurl)⟩
  cases stage with
  | sent => exact h
  | forwarded pending => exact hpending h
  | answered pending answer => exact ⟨hpending h.1, fun hstatus => hkeep _ (h.2 hstatus)⟩
  | responded response =>
    cases request with
    | resume id => exact fun hstatus hurl => hkeep _ (h hstatus hurl)
    | create size => trivial
    | put id header body => exact fun hstatus => hkeep _ (h hstatus)

theorem Ready.mono {s t : Transfer} (hkeep : ∀ id, s.Whole file id → t.Whole file id)
    {client : Client} (h : Ready file s client) : Ready file t client := by
  cases client with
  | requesting u exchange attempt => exact h
  | looping u => exact h
  | returned result => exact fun hsuccess => hkeep _ (h hsuccess)

theorem inv_proceed {t : Transfer} {client : Client} (ht : Inv file t)
    (hc : Ready file t client) : Inv file (t.proceed file client) := by
  have hkeep : ∀ id, t.Whole file id → (t.proceed file client).Whole file id := by
    intro id h
    cases client <;> exact h
  have hcalls : ∀ call ∈ t.calls, CallOk file (t.proceed file client) call :=
    fun call hcall => (ht.calls call hcall).mono hkeep
  cases client with
  | requesting u exchange attempt =>
    refine ⟨ht.sessions, fun call hcall => ?_, fun c hcl => ?_⟩
    · rcases List.mem_append.mp hcall with hcall | hcall
      · exact hcalls call hcall
      · rw [List.mem_singleton.mp hcall]
        exact hc.2
    · cases hcl
      refine ⟨hc, ?_⟩
      simp [Waits, proceed]
  | looping u =>
    refine ⟨ht.sessions, hcalls, fun c hcl => ?_⟩
    cases hcl
    exact ⟨hc, trivial⟩
  | returned result =>
    refine ⟨ht.sessions, hcalls, fun c hcl => ?_⟩
    cases hcl
    exact ⟨hc, trivial⟩

@[simp] theorem setSession_self (t : Transfer) (id : Text) (session : Session) :
    (t.setSession id session).sessions id = some session := Function.update_self ..

theorem setSession_of_ne (t : Transfer) {id k : Text} (h : k ≠ id) (session : Session) :
    (t.setSession id session).sessions k = t.sessions k := Function.update_of_ne h ..

theorem map_request_set {calls : List Call} {i : ℕ} {request : WireRequest} {old : Stage}
    (hi : calls[i]? = some ⟨request, old⟩) (new : Stage) :
    (calls.set i ⟨request, new⟩).map Call.request = calls.map Call.request := by
  ext j : 1
  rw [List.getElem?_map, List.getElem?_map, List.getElem?_set]
  by_cases hij : i = j
  · subst hij
    rcases List.getElem?_eq_some_iff.mp hi with ⟨hlt, hget⟩
    simp [hlt, hget]
  · rw [if_neg hij]

/-- A session changes without losing what it holds whole. -/
theorem inv_setSession {t : Transfer} {id : Text} {session : Session} (ht : Inv file t)
    (hs : SessionOk file session)
    (hwhole : ∀ s, t.sessions id = some s → s.held = file → session.held = file) :
    (∀ k, t.Whole file k → (t.setSession id session).Whole file k) ∧
      Inv file (t.setSession id session) := by
  have hkeep : ∀ k, t.Whole file k → (t.setSession id session).Whole file k := by
    rintro k ⟨s, hk, hheld⟩
    by_cases hid : k = id
    · subst hid
      exact ⟨session, setSession_self .., hwhole s hk hheld⟩
    · exact ⟨s, (setSession_of_ne _ hid _).trans hk, hheld⟩
  refine ⟨hkeep, fun k s hk => ?_, fun call hcall => (ht.calls call hcall).mono hkeep,
    fun client hclient => ?_⟩
  · by_cases hid : k = id
    · subst hid
      rw [setSession_self] at hk
      cases hk
      exact hs
    · rw [setSession_of_ne _ hid] at hk
      exact ht.sessions k s hk
  · rcases ht.client client hclient with ⟨hready, hwaits⟩
    exact ⟨hready.mono hkeep, hwaits⟩

/-- A call moves to its next stage. -/
theorem inv_setStage {t : Transfer} {i : ℕ} {request : WireRequest} {old new : Stage}
    (ht : Inv file t) (hi : t.calls[i]? = some ⟨request, old⟩)
    (hcall : CallOk file t ⟨request, new⟩) : Inv file (t.setStage i request new) := by
  have hkeep : ∀ k, t.Whole file k → (t.setStage i request new).Whole file k := fun _ h => h
  refine ⟨ht.sessions, fun call hcalls => ?_, fun client hclient => ?_⟩
  · rcases List.mem_or_eq_of_mem_set hcalls with hcalls | rfl
    · exact (ht.calls call hcalls).mono hkeep
    · exact hcall.mono hkeep
  · rcases ht.client client hclient with ⟨hready, hwaits⟩
    refine ⟨hready.mono hkeep, ?_⟩
    cases client with
    | requesting u exchange attempt =>
      change ((t.calls.set i ⟨request, new⟩).map Call.request).getLast? = _
      rw [map_request_set hi]
      exact hwaits
    | looping u => trivial
    | returned result => trivial

theorem inv_update {t : Transfer} {i : ℕ} {request : WireRequest} {old new : Stage} {id : Text}
    {session : Session} (ht : Inv file t) (hi : t.calls[i]? = some ⟨request, old⟩)
    (hs : SessionOk file session)
    (hwhole : ∀ s, t.sessions id = some s → s.held = file → session.held = file)
    (hcall : (∀ k, t.Whole file k → (t.setSession id session).Whole file k) →
      CallOk file (t.setSession id session) ⟨request, new⟩) :
    Inv file ((t.setStage i request new).setSession id session) := by
  rcases inv_setSession ht hs hwhole with ⟨hkeep, ht'⟩
  exact inv_setStage ht' hi (hcall hkeep)

theorem ready_failed (t : Transfer) (upload_id : Text) (retryable : Bool) (error : UploadError) :
    Ready file t (BrokerUploader.failed upload_id retryable error) := by
  intro h
  cases h

theorem ready_finish {t : Transfer} {upload_id video_id url : Text}
    (h : url ≠ [] ∨ video_id ≠ [] → t.Whole file upload_id) :
    Ready file t (BrokerUploader.finish upload_id video_id url) := by
  rcases BrokerUploader.finish_eq upload_id video_id url with
    ⟨r, hr, hid, -, hsuccess, hurl, -⟩
  rw [hr]
  intro hs
  rw [hid]
  exact h (hurl.mp (hsuccess.mp hs))

theorem ready_upload (t : Transfer) (setup : Setup) (resume_id : Text) :
    Ready file t (BrokerUploader.upload setup (some file) resume_id) := by
  rcases BrokerUploader.upload_cases setup (some file) resume_id with
    ⟨bytes, hbytes, -, hlimit, -, hupload⟩ | ⟨retryable, error, hupload, -, -⟩
  · cases hbytes
    rw [hupload]
    refine ⟨hlimit, ?_⟩
    by_cases hresume : resume_id.isEmpty = true
    · rw [if_pos hresume]
      rfl
    · rw [if_neg hresume]
      trivial
  · rw [hupload]
    exact ready_failed _ _ _ _

theorem ready_poll (t : Transfer) {u : Upload} (stop readable : Bool)
    (hu : Ready file t (.looping u)) : Ready file t (BrokerUploader.poll file u stop readable) := by
  rcases hu with ⟨hlimit, hposition⟩
  simp only [BrokerUploader.poll]
  split_ifs with hlt hstop hread
  · exact ready_failed _ _ _ _
  · refine ⟨hlimit, u.offset, min chunk_size (file.length - u.offset), ?_, ?_, hlimit, rfl, ?_⟩
    · exact lt_min (by decide) (Nat.sub_pos_of_lt hlt)
    · exact Nat.add_le_of_le_sub' hlt.le (min_le_right _ _)
    · rw [hposition]
  · exact ready_failed _ _ _ _
  · exact ready_finish (by simp)

/-- What follows a reply to the call that the client waits on. -/
theorem ready_answer {t : Transfer} {u : Upload} {exchange : Exchange} {attempt : ℕ}
    {response : Response} (hu : Ready file t (.requesting u exchange attempt))
    (hr : Reply file t (BrokerUploader.wireRequest file u exchange) response) :
    Ready file t (BrokerUploader.answer file u response exchange) := by
  rcases hu with ⟨hlimit, -⟩
  rcases BrokerUploader.answer_cases file u response exchange with
    ⟨result, hanswer, hid, hacknowledged⟩ | ⟨-, -, hanswer⟩ | ⟨-, -, hanswer⟩ | ⟨-, _, hanswer⟩
  · rw [hanswer]
    intro hsuccess
    rw [hid (.inl hsuccess)]
    rcases hacknowledged hsuccess with ⟨rfl, hstatus, hurl⟩ | ⟨_, rfl, hstatus⟩
    · exact hr hstatus hurl
    · exact hr hstatus
  · rw [hanswer]
    exact ⟨hlimit, rfl⟩
  · rw [hanswer]
    exact ⟨hlimit, rfl⟩
  · rw [hanswer]
    exact ⟨hlimit, rfl⟩

theorem reply_refused (t : Transfer) (request : WireRequest) {status : ℕ} (h : 400 ≤ status) :
    Reply file t request ⟨status, {}⟩ := by
  cases request with
  | resume id =>
    intro hstatus
    change status = 200 at hstatus
    omega
  | create size => trivial
  | put id header body =>
    intro hstatus
    change status = 200 ∨ status = 201 at hstatus
    omega

/-- A request that goes out again is as good as before; status 0 is no success. -/
theorem ready_retry {t : Transfer} {u : Upload} {exchange : Exchange} {attempt : ℕ}
    (hu : Ready file t (.requesting u exchange attempt)) :
    Ready file t (BrokerUploader.retry file u exchange attempt) := by
  unfold BrokerUploader.retry
  split_ifs with hlt
  · exact hu
  · refine ready_answer hu ?_
    cases exchange with
    | resume => exact fun h => absurd h (by decide)
    | create => trivial
    | chunk count => exact fun h => absurd h (by decide)

theorem inv_created {t : Transfer} {i now size : ℕ} {id uploadUrl : Text} (ht : Inv file t)
    (hi : t.calls[i]? = some ⟨.create size, .sent⟩) (hfresh : t.sessions id = none) :
    Inv file (t.created i now id uploadUrl size) := by
  have hsize : size = file.length := ht.calls _ (List.mem_of_getElem? hi)
  refine inv_update ht hi ⟨hsize, List.nil_prefix, ?_⟩ ?_ fun _ => trivial
  · rintro state hstate hurl
    cases hstate
    exact absurd rfl hurl
  · intro s hs
    cases hfresh.symm.trans hs

/-- The chunk that a session forwards is the part of the file that the session expects next. -/
theorem pendingOk_forward {t : Transfer} {request : WireRequest} {maxChunk : ℕ} {id : Text}
    {inner : SessionRequest} {session : Session} {state : UploadState} {range : ByteRange}
    (hrequest : RequestOk file request) (hinner : sessionRequest maxChunk request = some (id, inner))
    (hsession : t.sessions id = some session) (hs : SessionOk file session)
    (hstate : session.storage = some state) (hpath : inner.path = .chunk)
    (hparse : parseContentRange inner.contentRange = some range) :
    PendingOk file t id ⟨state, range, inner.contentRange, inner.body⟩ := by
  have hlink : state.url ≠ none → t.Whole file id :=
    fun hurl => ⟨session, hsession, hs.link state hstate hurl⟩
  cases request with
  | resume _ =>
    cases hinner
    cases hpath
  | create _ => cases hinner
  | put _ header body =>
    cases hinner
    rcases hrequest with ⟨offset, count, hpos, hle, hlimit, rfl, rfl⟩
    have hsafe : file.length ≤ Binary64.maxSafe := hlimit.trans (by decide)
    rw [parseContentRange_contentRange (by omega) (by omega) hsafe] at hparse
    cases hparse
    refine ⟨?_, ⟨count, rfl⟩, hlink⟩
    change offset < file.length
    omega

theorem inv_reached {t : Transfer} {i now maxChunk : ℕ} {request : WireRequest} {id : Text}
    {session : Session} {inner : SessionRequest} (ht : Inv file t)
    (hi : t.calls[i]? = some ⟨request, .sent⟩)
    (hinner : sessionRequest maxChunk request = some (id, inner))
    (hsession : t.sessions id = some session) :
    Inv file (t.reached i now request id session inner) := by
  have hs := ht.sessions id session hsession
  have hrequest : RequestOk file request := ht.calls _ (List.mem_of_getElem? hi)
  have hid : request.id = id := by
    cases request <;> cases hinner <;> rfl
  have hwhole : ∀ s, t.sessions id = some s → s.held = file → session.held = file := by
    intro s hk hheld
    cases hsession.symm.trans hk
    exact hheld
  unfold reached
  rcases UploadSession.fetch_cases now session.storage inner with
    ⟨r, h, hsuccess⟩ | ⟨r, h, hpath, -⟩ | ⟨state, range, hstate, hparse, -, -, hpath, -, h⟩
  · rw [h]
    refine inv_update ht hi hs hwhole fun hkeep => ?_
    cases request with
    | resume k =>
      intro hstatus hurl
      cases hinner
      rcases hsuccess (.inl hstatus) with ⟨-, state, hstate, hbody⟩
      rw [hbody] at hurl
      have hne : state.url ≠ none := by
        intro hnone
        simp [json_string, UploadSession.statusBody, hnone] at hurl
      exact hkeep _ ⟨session, hsession, hs.link state hstate hne⟩
    | create size => trivial
    | put k header body =>
      intro hstatus
      cases hinner
      cases (hsuccess hstatus).1
  · cases request <;> cases hinner <;> cases hpath
  · rw [h]
    refine inv_update ht hi hs hwhole fun hkeep => ?_
    have hp := pendingOk_forward hrequest hinner hsession hs hstate hpath hparse
    rw [← hid] at hp hkeep ⊢
    exact ⟨hp.inside, hp.body, fun hurl => hkeep _ (hp.link hurl)⟩

theorem inv_persisted {t : Transfer} {i count : ℕ} {request : WireRequest} {session : Session}
    {pending : Pending} {answer : Answer} (ht : Inv file t)
    (hi : t.calls[i]? = some ⟨request, .forwarded pending⟩)
    (hsession : t.sessions request.id = some session)
    (htruth : Truthful session pending count answer) :
    Inv file (t.persisted i request session pending count answer) := by
  have hs := ht.sessions _ session hsession
  have hp : PendingOk file t request.id pending := ht.calls _ (List.mem_of_getElem? hi)
  have hheld := appended_prefix hs hp count
  refine inv_update ht hi ⟨hs.total, hheld, fun state hstate hurl => ?_⟩ ?_ fun hkeep => ?_
  · exact appended_whole hp (hs.link state hstate hurl) count
  · intro s hk hw
    cases hsession.symm.trans hk
    exact appended_whole hp hw count
  · refine ⟨⟨hp.inside, hp.body, fun hurl => hkeep _ (hp.link hurl)⟩, fun hstatus => ?_⟩
    exact ⟨_, setSession_self .., hheld.eq_of_length ((htruth hstatus).trans hs.total)⟩

theorem inv_resumed {t : Transfer} {i : ℕ} {request : WireRequest} {session : Session}
    {pending : Pending} {answer : Answer} (ht : Inv file t)
    (hi : t.calls[i]? = some ⟨request, .answered pending answer⟩)
    (hsession : t.sessions request.id = some session) :
    Inv file (t.resumed i request session pending answer) := by
  have hs := ht.sessions _ session hsession
  have hcall : PendingOk file t request.id pending ∧
      (answer.status = 200 ∨ answer.status = 201 → t.Whole file request.id) :=
    ht.calls _ (List.mem_of_getElem? hi)
  have hheld : t.Whole file request.id → session.held = file := by
    rintro ⟨s, hk, hw⟩
    cases hsession.symm.trans hk
    exact hw
  refine inv_update ht hi ⟨hs.total, hs.held, fun state hstate hurl => ?_⟩ ?_ fun hkeep => ?_
  · cases hafter : UploadSession.afterAnswer pending answer with
    | none =>
      simp only [UploadSession.resume, hafter, Option.none_or] at hstate
      exact hs.link state hstate hurl
    | some written =>
      simp only [UploadSession.resume, hafter, Option.some_or, Option.mem_some_iff] at hstate
      subst hstate
      by_cases hsame : written.url = pending.state.url
      · exact hheld (hcall.1.link (hsame ▸ hurl))
      · exact hheld (hcall.2 (UploadSession.afterAnswer_url hafter hsame).1)
  · intro s hk hw
    cases hsession.symm.trans hk
    exact hw
  · have hstatus : (UploadSession.resume session.storage pending answer).2.status = 200 ∨
        (UploadSession.resume session.storage pending answer).2.status = 201 →
        t.Whole file request.id := fun h => hcall.2 (UploadSession.answerResponse_status h)
    cases request with
    | resume id => exact fun h _ => hkeep _ (hstatus (.inl h))
    | create size => trivial
    | put id header body => exact fun h => hkeep _ (hstatus h)

theorem inv_init : Inv file (machine file).init where
  sessions := by simp [machine]
  calls := by simp [machine]
  client := by simp [machine]

inductive Stepped (file : List UInt8) (s : Transfer) : Event → Transfer → Prop
  | upload {setup resume_id} (hresume : resume_id = [] ∨ (s.sessions resume_id).isSome) :
      Stepped file s (.upload setup resume_id)
        (s.proceed file (BrokerUploader.upload setup (some file) resume_id))
  | poll {stop readable u} (hu : s.client = some (.looping u)) :
      Stepped file s (.poll stop readable)
        (s.proceed file (BrokerUploader.poll file u stop readable))
  | fail {u exchange attempt} (hu : s.client = some (.requesting u exchange attempt)) :
      Stepped file s .fail (s.proceed file (BrokerUploader.retry file u exchange attempt))
  | deliver {u exchange attempt request response}
      (hu : s.client = some (.requesting u exchange attempt))
      (hlast : s.calls.getLast? = some ⟨request, .responded response⟩) :
      Stepped file s .deliver (s.proceed file (BrokerUploader.answer file u response exchange))
  | create {i now id uploadUrl size} (hi : s.calls[i]? = some ⟨.create size, .sent⟩)
      (hfresh : s.sessions id = none) :
      Stepped file s (.create i now id uploadUrl) (s.created i now id uploadUrl size)
  | reach {i now maxChunk request id inner session} (hi : s.calls[i]? = some ⟨request, .sent⟩)
      (hinner : sessionRequest maxChunk request = some (id, inner))
      (hsession : s.sessions id = some session) :
      Stepped file s (.reach i now maxChunk) (s.reached i now request id session inner)
  | persist {i count answer request pending session}
      (hi : s.calls[i]? = some ⟨request, .forwarded pending⟩)
      (hsession : s.sessions request.id = some session)
      (htruth : Truthful session pending count answer) :
      Stepped file s (.persist i count answer) (s.persisted i request session pending count answer)
  | resume {i request pending answer session}
      (hi : s.calls[i]? = some ⟨request, .answered pending answer⟩)
      (hsession : s.sessions request.id = some session) :
      Stepped file s (.resume i) (s.resumed i request session pending answer)
  | refuse {i status request stage} (hi : s.calls[i]? = some ⟨request, stage⟩)
      (hstatus : 400 ≤ status) :
      Stepped file s (.refuse i status) (s.setStage i request (.responded ⟨status, {}⟩))
  | alarm {id session} (hsession : s.sessions id = some session) :
      Stepped file s (.alarm id) (s.setSession id { session with storage := UploadSession.alarm })

theorem step_cases {s t : Transfer} {e : Event} (h : step file s e = some t) :
    Stepped file s e t := by
  cases e with
  | upload setup resume_id =>
    simp only [step] at h
    split_ifs at h with hresume
    cases h
    exact .upload hresume
  | poll stop readable =>
    simp only [step] at h
    split at h
    · next u hu =>
      cases h
      exact .poll hu
    · cases h
  | fail =>
    simp only [step] at h
    split at h
    · next u exchange attempt hu =>
      cases h
      exact .fail hu
    · cases h
  | deliver =>
    simp only [step] at h
    split at h
    · next u exchange attempt request response hu hlast =>
      cases h
      exact .deliver hu hlast
    · cases h
  | create i now id uploadUrl =>
    simp only [step] at h
    split at h
    · next size hi hfresh =>
      cases h
      exact .create hi hfresh
    · cases h
  | reach i now maxChunk =>
    simp only [step] at h
    split at h
    · next request hi =>
      split at h
      · next id inner hinner =>
        split at h
        · next session hsession =>
          cases h
          exact .reach hi hinner hsession
        · cases h
      · cases h
    · cases h
  | persist i count answer =>
    simp only [step] at h
    split at h
    · next request pending hi =>
      split at h
      · next session hsession =>
        split_ifs at h with htruth
        cases h
        exact .persist hi hsession htruth
      · cases h
    · cases h
  | resume i =>
    simp only [step] at h
    split at h
    · next request pending answer hi =>
      split at h
      · next session hsession =>
        cases h
        exact .resume hi hsession
      · cases h
    · cases h
  | refuse i status =>
    simp only [step] at h
    split at h
    · next request stage hi =>
      split_ifs at h with hstatus
      cases h
      exact .refuse hi hstatus
    · cases h
  | alarm id =>
    simp only [step] at h
    split at h
    · next session hsession =>
      cases h
      exact .alarm hsession
    · cases h

theorem inv_delivered {s : Transfer} {u : Upload} {exchange : Exchange} {attempt : ℕ}
    {request : WireRequest} {response : Response} (hs : Inv file s)
    (hu : s.client = some (.requesting u exchange attempt))
    (hlast : s.calls.getLast? = some ⟨request, .responded response⟩) :
    Inv file (s.proceed file (BrokerUploader.answer file u response exchange)) := by
  rcases hs.client _ hu with ⟨hready, hwaits⟩
  have hrequest : request = BrokerUploader.wireRequest file u exchange := by
    rw [Waits, List.getLast?_map, hlast] at hwaits
    exact Option.some.inj hwaits
  have hcall : CallOk file s ⟨request, .responded response⟩ :=
    hs.calls _ (List.mem_of_getLast? hlast)
  rw [hrequest] at hcall
  exact inv_proceed hs (ready_answer hready hcall)

theorem inv_alarm {s : Transfer} {id : Text} {session : Session} (hs : Inv file s)
    (hsession : s.sessions id = some session) :
    Inv file (s.setSession id { session with storage := UploadSession.alarm }) := by
  have hok := hs.sessions id session hsession
  have halarm : SessionOk file { session with storage := UploadSession.alarm } :=
    ⟨hok.total, hok.held, fun state hstate => by cases hstate⟩
  refine (inv_setSession hs halarm fun s' hk hw => ?_).2
  cases hsession.symm.trans hk
  exact hw

/-- Every step keeps the invariant. -/
theorem inv_step {s t : Transfer} {e : Event} (hs : Inv file s)
    (h : step file s e = some t) : Inv file t := by
  cases step_cases h with
  | upload _ => exact inv_proceed hs (ready_upload s _ _)
  | poll hu => exact inv_proceed hs (ready_poll s _ _ (hs.client _ hu).1)
  | fail hu => exact inv_proceed hs (ready_retry (hs.client _ hu).1)
  | deliver hu hlast => exact inv_delivered hs hu hlast
  | create hi hfresh => exact inv_created hs hi hfresh
  | reach hi hinner hsession => exact inv_reached hs hi hinner hsession
  | persist hi hsession htruth => exact inv_persisted hs hi hsession htruth
  | resume hi hsession => exact inv_resumed hs hi hsession
  | refuse hi hstatus => exact inv_setStage hs hi (reply_refused s _ hstatus)
  | alarm hsession => exact inv_alarm hs hsession

/-- Whenever a call on the file has returned success, YouTube holds exactly the file for the
session that the call names. -/
theorem whole_of_success (file : List UInt8) (es : List Event) (t : Transfer)
    (result : UploadResult) (hrun : (machine file).run es = some t)
    (hclient : t.client = some (.returned result)) (hsuccess : result.success = true) :
    t.Whole file result.upload_id :=
  ((Machine.invariant (I := Inv file) (fun _ _ _ => inv_step) hrun inv_init).client _
    hclient).1 hsuccess

/-- Two bytes: the session is opened, YouTube persists one byte of the chunk and its 308 is lost
with the broker's answer; the chunk sent again is a replay, the second byte completes. -/
def lossyRun : List Event :=
  [.upload ⟨true, true, true, true, true⟩ [], .create 0 0 ['s'] [], .deliver, .poll false true,
    .reach 1 1 8, .persist 1 1 ⟨308, some (heldRange 0), .unreadable⟩, .resume 1, .fail,
    .reach 2 2 8, .deliver, .poll false true, .reach 3 3 8,
    .persist 3 1 ⟨200, none, .json (some ['v'])⟩, .resume 3, .deliver]

theorem lossyRun_accepted : ((machine [7, 8]).run lossyRun).isSome := by
  decide +kernel

theorem whole_lossyRun :
    (((machine [7, 8]).run lossyRun).get lossyRun_accepted).Whole [7, 8] ['s'] :=
  whole_of_success [7, 8] lossyRun _
    ⟨true, false, ['s'], ['v'], text "https://youtu.be/" ++ ['v'], none⟩
    (Option.some_get _).symm (by decide +kernel) rfl

end Transfer
end GambitRecord.Recorder
