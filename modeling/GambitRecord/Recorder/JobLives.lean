import GambitRecord.Recorder.Transfer
import GambitRecord.Recorder.UploadJob

/-! # One job over the lives of the worker

The upload calls of one queued recording, the entry that the state file keeps of
it, and workers that are killed anywhere and start again from the entry. What a
killed worker has sent is still on its way. A video is published when YouTube
holds the whole file for a session.
-/

namespace GambitRecord.Recorder
open Library Library.DigitText Library.Runs Broker

/-- The attempts and the session id of a job, in memory and in the state file. -/
structure JobLives where
  transfer : Transfer
  attempts : UInt32
  upload_id : Text
  entry : Option (UInt32 × Text)
  outcome : Option (Verdict × UploadResult)

/-- The request carries the last byte of its file. -/
def WireRequest.closing : WireRequest → Bool
  | .put _ header _ =>
    (parseContentRange (some header)).any fun range => range.end + 1 = range.total
  | _ => false

namespace JobLives

/-- A call starts, goes on, or has its result settled, in the state file too unless the worker dies
before; the list is saved with a change of another job; a worker starts again. -/
inductive Event where
  | start (setup : Setup)
  | transfer (event : Transfer.Event)
  | settle (saved : Bool)
  | save
  | restart

variable (file : List UInt8)

def settled (s : JobLives) (result : UploadResult) (saved : Bool) : JobLives :=
  let transfer := { s.transfer with client := none }
  match verdict s.attempts result with
  | .retry =>
    { s with
      transfer
      attempts := s.attempts + 1
      upload_id := result.upload_id
      entry := if saved then some (s.attempts + 1, result.upload_id) else s.entry }
  | v =>
    { s with transfer, outcome := some (v, result), entry := if saved then none else s.entry }

/-- The list as it is in memory. -/
def in_memory (s : JobLives) : Option (UInt32 × Text) :=
  match s.outcome with
  | none => some (s.attempts, s.upload_id)
  | some _ => none

/-- A new worker reads the state file; without an entry the job is gone. -/
def restarted (s : JobLives) : JobLives :=
  let transfer := { s.transfer with client := none }
  match s.entry with
  | none => { s with transfer }
  | some (attempts, upload_id) => { s with transfer, attempts, upload_id, outcome := none }

def step (s : JobLives) : Event → Option JobLives
  | .start setup =>
    match s.transfer.client, s.outcome with
    | none, none =>
      (Transfer.step file s.transfer (.upload setup s.upload_id)).map fun transfer =>
        { s with transfer }
    | _, _ => none
  | .transfer (.upload _ _) => none
  | .transfer event =>
    (Transfer.step file s.transfer event).map fun transfer => { s with transfer }
  | .settle saved =>
    match s.transfer.client with
    | some (.returned result) => some (s.settled result saved)
    | _ => none
  | .save => some { s with entry := s.in_memory }
  | .restart => some s.restarted

def machine : Machine JobLives Event where
  init := ⟨(Transfer.machine file).init, 0, [], some (0, []), none⟩
  step := step file

/-- YouTube has at most one whole video of the job. -/
def AtMostOne (s : JobLives) : Prop :=
  ∀ a b, s.transfer.Whole file a → s.transfer.Whole file b → a = b

/-- No session expires or is cancelled, and none is denied. -/
def Lasting (s : JobLives) : Event → Prop
  | .transfer (.alarm _) => False
  | .transfer (.reach i now _) =>
    ∀ call ∈ s.transfer.calls[i]?, ∀ session ∈ s.transfer.sessions call.request.id,
      ∀ state ∈ session.storage, now < state.expiresAt
  | .transfer (.refuse i status) =>
    ∀ call ∈ s.transfer.calls[i]?, call.request = .resume call.request.id →
      status ≠ 404 ∧ status ≠ 410
  | _ => True

/-- A chunk with the last byte of the file has gone out to a session. -/
def Closed (t : Transfer) (id : Text) : Prop :=
  ∃ call ∈ t.calls, call.request.closing = true ∧ call.request.id = id

/-- Once the last byte has gone out to a session, a new worker finds the session in the state file,
and a call that may be tried again gets as far as naming it. -/
def Kept (s : JobLives) : Event → Prop
  | .start setup =>
    (∃ call ∈ s.transfer.calls, call.request.closing = true) →
      setup.enabled = true → setup.build_configured = true → setup.endpoint_valid = true →
        setup.session_opened = true ∧ setup.connected = true
  | .restart =>
    ∀ call ∈ s.transfer.calls, call.request.closing = true →
      ∀ entry ∈ s.entry, entry.2 = call.request.id
  | _ => True

/-- A client that names a session has opened one, and there is something to send. -/
def Opened : Client → Prop
  | .requesting u .create _ => file ≠ [] ∧ u.upload_id = []
  | .requesting u _ _ => file ≠ [] ∧ u.upload_id ≠ []
  | .looping u => file ≠ [] ∧ u.upload_id ≠ []
  | .returned _ => True

/-- A client works for a session, or will have no other. -/
def Keeps (id : Text) : Client → Prop
  | .requesting u _ _ => u.upload_id = id
  | .looping u => u.upload_id = id
  | .returned result =>
    result.success = false → result.retryable = true → result.upload_id = id

/-- Only chunks are forwarded, each as its request has it. -/
def Forwarded : Call → Prop
  | ⟨request, .forwarded pending⟩ =>
    ∃ id header body, request = .put id header body ∧
      parseContentRange (some header) = some pending.range ∧
      pending.body.length = pending.range.end - pending.range.start + 1 ∧
      pending.range.total = file.length
  | ⟨request, .answered _ _⟩ => ∃ id header body, request = .put id header body
  | _ => True

/-- A session is not denied to a client that resumes it. -/
def Admitted : Call → Prop
  | ⟨.resume _, .responded response⟩ => response.status ≠ 404 ∧ response.status ≠ 410
  | _ => True

structure TransferInv (t : Transfer) : Prop where
  base : Transfer.Inv file t
  calls : t.calls ≠ [] → file ≠ []
  forwarded : ∀ call ∈ t.calls, Forwarded file call
  admitted : ∀ call ∈ t.calls, Admitted call
  live : ∀ id session, t.sessions id = some session → session.storage ≠ none
  whole : ∀ id, t.Whole file id → Closed t id
  one : ∀ a b, Closed t a → Closed t b → a = b
  named : ∀ id, Closed t id → id ≠ []
  client : ∀ client ∈ t.client, Opened file client ∧ ∀ id, Closed t id → Keeps id client

structure Inv (s : JobLives) : Prop where
  transfer : TransferInv file s.transfer
  job : s.transfer.client = none → s.outcome = none → ∀ id, Closed s.transfer id → s.upload_id = id
  gone : s.entry = none → s.outcome ≠ none

instance (s : JobLives) : DecidablePred s.Lasting
  | .transfer (.alarm _) => instDecidableFalse
  | .transfer (.reach i now _) =>
    inferInstanceAs (Decidable (∀ call ∈ s.transfer.calls[i]?,
      ∀ session ∈ s.transfer.sessions call.request.id,
        ∀ state ∈ session.storage, now < state.expiresAt))
  | .transfer (.refuse i status) =>
    inferInstanceAs (Decidable (∀ call ∈ s.transfer.calls[i]?,
      call.request = .resume call.request.id → status ≠ 404 ∧ status ≠ 410))
  | .transfer (.upload _ _) | .transfer (.poll _ _) | .transfer .fail | .transfer .deliver
  | .transfer (.create _ _ _ _) | .transfer (.persist _ _ _) | .transfer (.resume _)
  | .start _ | .settle _ | .save | .restart => instDecidableTrue

instance (s : JobLives) : DecidablePred s.Kept
  | .start _ =>
    inferInstanceAs (Decidable ((∃ call ∈ s.transfer.calls, call.request.closing = true) → _))
  | .restart => inferInstanceAs (Decidable (∀ call ∈ s.transfer.calls, _))
  | .transfer _ | .settle _ | .save => instDecidableTrue

variable {file}

/-- Whether the last byte has gone out depends on the requests alone. -/
theorem closed_iff {s t : Transfer}
    (h : t.calls.map Call.request = s.calls.map Call.request) (id : Text) :
    Closed t id ↔ Closed s id := by
  have hrequest : ∀ r : Transfer, Closed r id ↔
      ∃ request ∈ r.calls.map Call.request, request.closing = true ∧ request.id = id := by
    intro r
    simp [Closed]
  rw [hrequest t, hrequest s, h]

theorem transferInv_of_calls {s t : Transfer} (hs : TransferInv file s)
    (base : Transfer.Inv file t)
    (hrequests : t.calls.map Call.request = s.calls.map Call.request)
    (hcalls : ∀ call ∈ t.calls, call ∈ s.calls ∨ Forwarded file call ∧ Admitted call)
    (hlive : ∀ id session, t.sessions id = some session → session.storage ≠ none)
    (hwhole : ∀ id, t.Whole file id → Closed s id) (hclient : t.client = s.client) :
    TransferInv file t := by
  have hclosed := fun id => closed_iff hrequests id
  constructor
  case base => exact base
  case calls =>
    intro hne
    apply hs.calls
    intro hnil
    rw [hnil, List.map_nil, List.map_eq_nil_iff] at hrequests
    exact hne hrequests
  case forwarded =>
    intro call hcall
    rcases hcalls call hcall with hold | hnew
    · exact hs.forwarded call hold
    · exact hnew.1
  case admitted =>
    intro call hcall
    rcases hcalls call hcall with hold | hnew
    · exact hs.admitted call hold
    · exact hnew.2
  case live => exact hlive
  case whole => exact fun id hid => (hclosed id).mpr (hwhole id hid)
  case one => exact fun a b ha hb => hs.one a b ((hclosed a).mp ha) ((hclosed b).mp hb)
  case named => exact fun id hid => hs.named id ((hclosed id).mp hid)
  case client =>
    intro client hc
    rw [hclient] at hc
    rcases hs.client client hc with ⟨hopened, hkeeps⟩
    exact ⟨hopened, fun id hid => hkeeps id ((hclosed id).mp hid)⟩

/-- A new request closes at most the session of its upload. -/
theorem closed_proceed {t : Transfer} {u : Upload} {exchange : Exchange} {attempt : ℕ}
    (hopened : Opened file (.requesting u exchange attempt)) {id : Text}
    (h : Closed (t.proceed file (.requesting u exchange attempt)) id) :
    Closed t id ∨ u.upload_id ≠ [] ∧ u.upload_id = id := by
  rcases h with ⟨call, hcall, hclosing, hid⟩
  rcases List.mem_append.mp hcall with hcall | hcall
  · exact .inl ⟨call, hcall, hclosing, hid⟩
  · rw [List.mem_singleton.mp hcall] at hclosing hid
    cases exchange with
    | resume => cases hclosing
    | create => cases hclosing
    | chunk count => exact .inr ⟨hopened.2, hid⟩

theorem transferInv_request {t : Transfer} {u : Upload} {exchange : Exchange} {attempt : ℕ}
    (ht : TransferInv file t)
    (base : Transfer.Inv file (t.proceed file (.requesting u exchange attempt)))
    (hopened : Opened file (.requesting u exchange attempt))
    (hkeeps : ∀ id, Closed t id → Keeps id (.requesting u exchange attempt)) :
    TransferInv file (t.proceed file (.requesting u exchange attempt)) := by
  have hnew : ∀ id, Closed (t.proceed file (.requesting u exchange attempt)) id →
      u.upload_id = id := by
    intro id hid
    rcases closed_proceed hopened hid with hold | hown
    · exact hkeeps id hold
    · exact hown.2
  constructor
  case base => exact base
  case calls =>
    intro _
    cases exchange <;> exact hopened.1
  case forwarded =>
    intro call hcall
    rcases List.mem_append.mp hcall with hcall | hcall
    · exact ht.forwarded call hcall
    · rw [List.mem_singleton.mp hcall]
      trivial
  case admitted =>
    intro call hcall
    rcases List.mem_append.mp hcall with hcall | hcall
    · exact ht.admitted call hcall
    · rw [List.mem_singleton.mp hcall]
      cases exchange <;> trivial
  case live => exact ht.live
  case whole =>
    intro id hid
    rcases ht.whole id hid with ⟨call, hcall, hclosing⟩
    exact ⟨call, List.mem_append_left _ hcall, hclosing⟩
  case one => exact fun a b ha hb => (hnew a ha).symm.trans (hnew b hb)
  case named =>
    intro id hid
    rcases closed_proceed hopened hid with hold | hown
    · exact ht.named id hold
    · exact hown.2 ▸ hown.1
  case client =>
    rintro c ⟨⟩
    exact ⟨hopened, hnew⟩

/-- The client goes on with the session that got the last byte. -/
theorem transferInv_proceed {t : Transfer} {client : Client} (ht : TransferInv file t)
    (base : Transfer.Inv file (t.proceed file client)) (hopened : Opened file client)
    (hkeeps : ∀ id, Closed t id → Keeps id client) :
    TransferInv file (t.proceed file client) := by
  cases client with
  | requesting u exchange attempt => exact transferInv_request ht base hopened hkeeps
  | looping u =>
    exact ⟨base, ht.calls, ht.forwarded, ht.admitted, ht.live, ht.whole, ht.one, ht.named,
      by rintro c ⟨⟩; exact ⟨hopened, hkeeps⟩⟩
  | returned result =>
    exact ⟨base, ht.calls, ht.forwarded, ht.admitted, ht.live, ht.whole, ht.one, ht.named,
      by rintro c ⟨⟩; exact ⟨hopened, hkeeps⟩⟩

theorem keeps_failed (id upload_id : Text) (retryable : Bool) (error : UploadError)
    (h : retryable = true → upload_id = id) :
    Keeps id (BrokerUploader.failed upload_id retryable error) := fun _ => h

theorem keeps_finish (id upload_id video_id url : Text) :
    Keeps id (BrokerUploader.finish upload_id video_id url) := by
  rcases BrokerUploader.finish_eq upload_id video_id url with ⟨r, hr, -, hretryable, -⟩
  rw [hr]
  intro _ hretry
  rw [hretryable] at hretry
  cases hretry

theorem opened_finish (upload_id video_id url : Text) :
    Opened file (BrokerUploader.finish upload_id video_id url) := by
  rcases BrokerUploader.finish_eq upload_id video_id url with ⟨r, hr, -⟩
  rw [hr]
  trivial

theorem opened_poll {u : Upload} (stop readable : Bool) (h : Opened file (.looping u)) :
    Opened file (BrokerUploader.poll file u stop readable) := by
  simp only [BrokerUploader.poll]
  split_ifs
  · trivial
  · exact h
  · trivial
  · exact opened_finish _ _ _

theorem keeps_poll {u : Upload} {id : Text} (stop readable : Bool) (h : Keeps id (.looping u)) :
    Keeps id (BrokerUploader.poll file u stop readable) := by
  simp only [BrokerUploader.poll]
  split_ifs
  · exact keeps_failed _ _ _ _ fun _ => h
  · exact h
  · exact keeps_failed _ _ _ _ fun _ => h
  · exact keeps_finish _ _ _ _

theorem opened_answer {u : Upload} {exchange : Exchange} {attempt : ℕ} {response : Response}
    (h : Opened file (.requesting u exchange attempt))
    (hadmitted : exchange = .resume → response.status ≠ 404 ∧ response.status ≠ 410) :
    Opened file (BrokerUploader.answer file u response exchange) := by
  rcases BrokerUploader.answer_cases file u response exchange with
    ⟨result, hanswer, -⟩ | ⟨hresume, hgone, -⟩ | ⟨rfl, hid, hanswer⟩ | ⟨hexchange, _, hanswer⟩
  · rw [hanswer]
    trivial
  · exact absurd hgone (not_or.mpr (hadmitted hresume))
  · rw [hanswer]
    exact ⟨h.1, hid⟩
  · rw [hanswer]
    cases exchange with
    | create => exact absurd rfl hexchange
    | resume => exact h
    | chunk count => exact h

theorem keeps_answer {u : Upload} {exchange : Exchange} {attempt : ℕ} {response : Response}
    {id : Text} (hopened : Opened file (.requesting u exchange attempt)) (hid : id ≠ [])
    (h : Keeps id (.requesting u exchange attempt))
    (hadmitted : exchange = .resume → response.status ≠ 404 ∧ response.status ≠ 410) :
    Keeps id (BrokerUploader.answer file u response exchange) := by
  rcases BrokerUploader.answer_cases file u response exchange with
    ⟨result, hanswer, hsame, -⟩ | ⟨hresume, hgone, -⟩ | ⟨rfl, -, -⟩ | ⟨-, _, hanswer⟩
  · rw [hanswer]
    intro _ hretryable
    exact (hsame (.inr hretryable)).trans h
  · exact absurd hgone (not_or.mpr (hadmitted hresume))
  · -- a call that has no session yet works for none
    exact absurd (hopened.2.symm.trans h) hid.symm
  · rw [hanswer]
    exact h

theorem opened_retry {u : Upload} {exchange : Exchange} {attempt : ℕ}
    (h : Opened file (.requesting u exchange attempt)) :
    Opened file (BrokerUploader.retry file u exchange attempt) := by
  unfold BrokerUploader.retry
  split_ifs
  · cases exchange <;> exact h
  · exact opened_answer h fun _ => ⟨by decide, by decide⟩

theorem keeps_retry {u : Upload} {exchange : Exchange} {attempt : ℕ} {id : Text}
    (hopened : Opened file (.requesting u exchange attempt)) (hid : id ≠ [])
    (h : Keeps id (.requesting u exchange attempt)) :
    Keeps id (BrokerUploader.retry file u exchange attempt) := by
  unfold BrokerUploader.retry
  split_ifs
  · exact h
  · exact keeps_answer hopened hid h fun _ => ⟨by decide, by decide⟩

theorem transferInv_update {t : Transfer} {i : ℕ} {request : WireRequest} {old new : Stage}
    {id : Text} {session : Session} (ht : TransferInv file t)
    (base : Transfer.Inv file ((t.setStage i request new).setSession id session))
    (hi : t.calls[i]? = some ⟨request, old⟩)
    (hcall : Forwarded file ⟨request, new⟩ ∧ Admitted ⟨request, new⟩)
    (hlive : session.storage ≠ none) (hwhole : session.held = file → Closed t id) :
    TransferInv file ((t.setStage i request new).setSession id session) := by
  have hsessions : ∀ k s, ((t.setStage i request new).setSession id session).sessions k = some s →
      k = id ∧ s = session ∨ t.sessions k = some s := by
    intro k s hk
    by_cases hid : k = id
    · subst hid
      rw [Transfer.setSession_self] at hk
      exact Or.inl ⟨rfl, (Option.some.inj hk).symm⟩
    · rw [Transfer.setSession_of_ne _ hid] at hk
      exact Or.inr hk
  apply transferInv_of_calls ht base (Transfer.map_request_set hi new)
  · intro call hcalls
    rcases List.mem_or_eq_of_mem_set hcalls with hcalls | rfl
    · exact Or.inl hcalls
    · exact Or.inr hcall
  · intro k s hk
    rcases hsessions k s hk with ⟨-, rfl⟩ | hold
    · exact hlive
    · exact ht.live k s hold
  · rintro k ⟨s, hk, hheld⟩
    rcases hsessions k s hk with ⟨rfl, rfl⟩ | hold
    · exact hwhole hheld
    · exact ht.whole k ⟨s, hold, hheld⟩
  · rfl

theorem transferInv_created {t : Transfer} {i now size : ℕ} {id uploadUrl : Text}
    (ht : TransferInv file t) (hi : t.calls[i]? = some ⟨.create size, .sent⟩)
    (base : Transfer.Inv file (t.created i now id uploadUrl size)) :
    TransferInv file (t.created i now id uploadUrl size) := by
  apply transferInv_update ht base hi ⟨trivial, trivial⟩
  · simp
  · intro hnil
    refine absurd hnil.symm (ht.calls ?_)
    intro hcalls
    rw [hcalls] at hi
    cases hi

/-- A session that lives answers a resuming client with its state, and forwards a chunk as it is. -/
theorem transferInv_reached {t : Transfer} {i now maxChunk : ℕ} {request : WireRequest} {id : Text}
    {session : Session} {inner : SessionRequest} (ht : TransferInv file t)
    (hi : t.calls[i]? = some ⟨request, .sent⟩)
    (hinner : sessionRequest maxChunk request = some (id, inner))
    (hsession : t.sessions id = some session)
    (hlive : ∀ state ∈ session.storage, now < state.expiresAt)
    (base : Transfer.Inv file (t.reached i now request id session inner)) :
    TransferInv file (t.reached i now request id session inner) := by
  have hstorage := ht.live id session hsession
  have hwhole : session.held = file → Closed t id := by
    intro hheld
    exact ht.whole id ⟨session, hsession, hheld⟩
  unfold Transfer.reached at base ⊢
  cases request with
  | create size => cases hinner
  | resume k =>
    cases hinner
    rcases Option.ne_none_iff_exists'.mp hstorage with ⟨state, hstate⟩
    have hexp : isExpired state.expiresAt now = false := by
      simpa [isExpired] using hlive state hstate
    have hfetch : UploadSession.fetch now session.storage ⟨.status, .get, none, 0, maxChunk, []⟩ =
        (session.storage, .respond ⟨200, UploadSession.statusBody state⟩) := by
      simp [UploadSession.fetch, hstate, hexp]
    rw [hfetch] at base ⊢
    refine transferInv_update ht base hi ⟨trivial, ?_⟩ hstorage hwhole
    constructor
    · exact (by decide : (200 : ℕ) ≠ 404)
    · exact (by decide : (200 : ℕ) ≠ 410)
  | put k header body =>
    cases hinner
    have hrequest : Transfer.RequestOk file (.put id header body) :=
      ht.base.calls _ (List.mem_of_getElem? hi)
    rcases UploadSession.fetch_cases now session.storage
        ⟨.chunk, .put, some header, body.length, maxChunk, body⟩ with
      ⟨r, h, -⟩ | ⟨r, -, hpath, -⟩ | ⟨state, range, -, hparse, -, -, -, hlength, h⟩
    · rw [h] at base ⊢
      exact transferInv_update ht base hi ⟨trivial, trivial⟩ hstorage hwhole
    · cases hpath
    · rw [h] at base ⊢
      refine transferInv_update ht base hi ⟨⟨id, header, body, rfl, hparse, hlength, ?_⟩, trivial⟩
        hstorage hwhole
      rcases hrequest with ⟨offset, count, hpos, hle, hlimit, rfl, -⟩
      have hsafe : file.length ≤ Binary64.maxSafe := hlimit.trans (by decide)
      rw [parseContentRange_contentRange (by omega) (by omega) hsafe] at hparse
      cases hparse
      rfl

/-- YouTube gets the last byte of the file only with a chunk that carries it. -/
theorem closed_of_appended {t : Transfer} {i count : ℕ} {request : WireRequest} {session : Session}
    {pending : Pending} (ht : TransferInv file t)
    (hi : t.calls[i]? = some ⟨request, .forwarded pending⟩)
    (hsession : t.sessions request.id = some session)
    (hheld : Transfer.appended session pending count = file) : Closed t request.id := by
  unfold Transfer.appended at hheld
  by_cases hstart : pending.range.start = session.held.length
  · rw [if_pos hstart] at hheld
    have hcall := List.mem_of_getElem? hi
    rcases ht.forwarded _ hcall with ⟨id, header, body, rfl, hparse, hlength, htotal⟩
    have hbounds := parseContentRange_bounds hparse
    have hlen := congrArg List.length hheld
    rw [List.length_append, List.length_take, hlength] at hlen
    have hend : pending.range.end + 1 = pending.range.total := by
      have hmin := Nat.min_le_right count (pending.range.end - pending.range.start + 1)
      omega
    exact ⟨_, hcall, by simp [WireRequest.closing, hparse, hend], rfl⟩
  · rw [if_neg hstart] at hheld
    exact ht.whole _ ⟨session, hsession, hheld⟩

theorem transferInv_persisted {t : Transfer} {i count : ℕ} {request : WireRequest}
    {session : Session} {pending : Pending} {answer : Answer} (ht : TransferInv file t)
    (hi : t.calls[i]? = some ⟨request, .forwarded pending⟩)
    (hsession : t.sessions request.id = some session)
    (base : Transfer.Inv file (t.persisted i request session pending count answer)) :
    TransferInv file (t.persisted i request session pending count answer) := by
  rcases ht.forwarded _ (List.mem_of_getElem? hi) with ⟨id, header, body, rfl, -⟩
  exact transferInv_update ht base hi ⟨⟨id, header, body, rfl⟩, trivial⟩
    (ht.live _ session hsession) (closed_of_appended ht hi hsession)

theorem transferInv_resumed {t : Transfer} {i : ℕ} {request : WireRequest} {session : Session}
    {pending : Pending} {answer : Answer} (ht : TransferInv file t)
    (hi : t.calls[i]? = some ⟨request, .answered pending answer⟩)
    (hsession : t.sessions request.id = some session)
    (base : Transfer.Inv file (t.resumed i request session pending answer)) :
    TransferInv file (t.resumed i request session pending answer) := by
  have hstorage := ht.live _ session hsession
  rcases ht.forwarded _ (List.mem_of_getElem? hi) with ⟨id, header, body, rfl⟩
  apply transferInv_update ht base hi ⟨trivial, trivial⟩
  · cases hafter : UploadSession.afterAnswer pending answer with
    | none => simpa [UploadSession.resume, hafter] using hstorage
    | some state => simp [UploadSession.resume, hafter]
  · exact fun hheld => ht.whole _ ⟨session, hsession, hheld⟩

theorem transferInv_delivered {t : Transfer} {u : Upload} {exchange : Exchange} {attempt : ℕ}
    {request : WireRequest} {response : Response} (ht : TransferInv file t)
    (hu : t.client = some (.requesting u exchange attempt))
    (hlast : t.calls.getLast? = some ⟨request, .responded response⟩)
    (base : Transfer.Inv file (t.proceed file (BrokerUploader.answer file u response exchange))) :
    TransferInv file (t.proceed file (BrokerUploader.answer file u response exchange)) := by
  rcases ht.client _ hu with ⟨hopened, hkeeps⟩
  have hadmitted : exchange = .resume → response.status ≠ 404 ∧ response.status ≠ 410 := by
    rintro rfl
    have hwaits := (ht.base.client _ hu).2
    rw [Transfer.Waits, List.getLast?_map, hlast] at hwaits
    have hrequest : request = .resume u.upload_id := Option.some.inj hwaits
    have hcall := ht.admitted _ (List.mem_of_getLast? hlast)
    rw [hrequest] at hcall
    exact hcall
  exact transferInv_proceed ht base (opened_answer hopened hadmitted)
    fun id hid => keeps_answer hopened (ht.named id hid) (hkeeps id hid) hadmitted

theorem transferInv_refused {t : Transfer} {i status : ℕ} {request : WireRequest} {stage : Stage}
    (ht : TransferInv file t) (hi : t.calls[i]? = some ⟨request, stage⟩)
    (hadmitted : request = .resume request.id → status ≠ 404 ∧ status ≠ 410)
    (base : Transfer.Inv file (t.setStage i request (.responded ⟨status, {}⟩))) :
    TransferInv file (t.setStage i request (.responded ⟨status, {}⟩)) := by
  apply transferInv_of_calls ht base (Transfer.map_request_set hi _)
  · intro call hcalls
    rcases List.mem_or_eq_of_mem_set hcalls with hcalls | rfl
    · exact Or.inl hcalls
    · refine Or.inr ⟨trivial, ?_⟩
      cases request with
      | resume id => exact hadmitted rfl
      | create size => trivial
      | put id header body => trivial
  · exact ht.live
  · exact ht.whole
  · rfl

theorem transferInv_step {s : JobLives} {t : Transfer} {event : Transfer.Event}
    (hs : TransferInv file s.transfer) (hlasting : s.Lasting (.transfer event))
    (hupload : ∀ setup resume_id, event ≠ .upload setup resume_id)
    (h : Transfer.step file s.transfer event = some t) : TransferInv file t := by
  have base := Transfer.inv_step hs.base h
  cases Transfer.step_cases h with
  | upload _ => exact absurd rfl (hupload _ _)
  | poll hu =>
    rcases hs.client _ hu with ⟨hopened, hkeeps⟩
    exact transferInv_proceed hs base (opened_poll _ _ hopened)
      fun id hid => keeps_poll _ _ (hkeeps id hid)
  | fail hu =>
    rcases hs.client _ hu with ⟨hopened, hkeeps⟩
    exact transferInv_proceed hs base (opened_retry hopened)
      fun id hid => keeps_retry hopened (hs.named id hid) (hkeeps id hid)
  | deliver hu hlast => exact transferInv_delivered hs hu hlast base
  | create hi hfresh => exact transferInv_created hs hi base
  | @reach i now maxChunk request id inner session hi hinner hsession =>
    apply transferInv_reached hs hi hinner hsession _ base
    have hid : request.id = id := by
      cases request <;> cases hinner <;> rfl
    exact hlasting _ hi session (by rw [hid]; exact hsession)
  | persist hi hsession htruth => exact transferInv_persisted hs hi hsession base
  | resume hi hsession => exact transferInv_resumed hs hi hsession base
  | refuse hi hstatus => exact transferInv_refused hs hi (hlasting _ hi) base
  | alarm hsession => exact hlasting.elim

theorem opened_upload (setup : Setup) (resume_id : Text) :
    Opened file (BrokerUploader.upload setup (some file) resume_id) := by
  rcases BrokerUploader.upload_cases setup (some file) resume_id with
    ⟨bytes, hbytes, hpos, -, -, hupload⟩ | ⟨retryable, error, hupload, -, -⟩
  · cases hbytes
    rw [hupload]
    by_cases hresume : resume_id = []
    · subst hresume
      exact ⟨hpos, rfl⟩
    · rw [if_neg (by simpa using hresume)]
      exact ⟨hpos, hresume⟩
  · rw [hupload]
    trivial

theorem keeps_upload {setup : Setup} {resume_id id : Text} (hid : resume_id = id)
    (hsetup : setup.enabled = true → setup.build_configured = true →
      setup.endpoint_valid = true → setup.session_opened = true ∧ setup.connected = true) :
    Keeps id (BrokerUploader.upload setup (some file) resume_id) := by
  rcases BrokerUploader.upload_cases setup (some file) resume_id with
    ⟨_, -, -, -, -, hupload⟩ | ⟨retryable, error, hupload, -, htemporary⟩
  · rw [hupload]
    exact hid
  · rw [hupload]
    refine keeps_failed _ _ _ _ fun hretryable => ?_
    rcases htemporary hretryable with ⟨henabled, hkey, hendpoint, hconnected⟩
    exact absurd (hsetup henabled hkey hendpoint) hconnected

theorem transferInv_idle {t : Transfer} (ht : TransferInv file t) :
    TransferInv file { t with client := none } := by
  have hkeep : ∀ id, t.Whole file id → Transfer.Whole file { t with client := none } id :=
    fun _ h => h
  have base : Transfer.Inv file { t with client := none } :=
    ⟨ht.base.sessions, fun call hcall => (ht.base.calls call hcall).mono hkeep,
      fun _ h => by cases h⟩
  exact ⟨base, ht.calls, ht.forwarded, ht.admitted, ht.live, ht.whole, ht.one, ht.named,
    fun _ h => by cases h⟩

theorem inv_settled {s : JobLives} {result : UploadResult} (saved : Bool) (hs : Inv file s)
    (hclient : s.transfer.client = some (.returned result)) :
    Inv file (s.settled result saved) := by
  have hkeeps := (hs.transfer.client _ hclient).2
  have hidle := transferInv_idle hs.transfer
  have hdone : ∀ v, Inv file { s with
      transfer := { s.transfer with client := none }, outcome := some (v, result),
      entry := if saved then none else s.entry } := by
    intro v
    refine ⟨hidle, fun _ hnone => ?_, fun _ hnone => ?_⟩
    · cases hnone
    · cases hnone
  unfold settled
  cases hv : verdict s.attempts result with
  | completed => exact hdone _
  | rejected => exact hdone _
  | gaveUp => exact hdone _
  | retry =>
    rcases verdict_retry_iff.mp hv with ⟨hsuccess, hretryable, -⟩
    refine ⟨hidle, fun _ _ id hid => hkeeps id hid hsuccess hretryable, ?_⟩
    cases saved with
    | true => exact fun hnone => by cases hnone
    | false => exact hs.gone

theorem inv_restarted {s : JobLives} (hs : Inv file s)
    (hkept : ∀ id, Closed s.transfer id → ∀ entry ∈ s.entry, entry.2 = id) :
    Inv file s.restarted := by
  have hidle := transferInv_idle hs.transfer
  unfold restarted
  cases hentry : s.entry with
  | none =>
    have hgone := hs.gone hentry
    exact ⟨hidle, fun _ hnone => absurd hnone hgone, fun _ => hgone⟩
  | some entry =>
    refine ⟨hidle, fun _ _ id hid => hkept id hid entry hentry, fun hnone => ?_⟩
    cases hnone

theorem inv_init : Inv file (machine file).init where
  transfer :=
    { base := Transfer.inv_init
      calls := fun h => absurd rfl h
      forwarded := by simp [machine, Transfer.machine]
      admitted := by simp [machine, Transfer.machine]
      live := by simp [machine, Transfer.machine]
      whole := by simp [machine, Transfer.machine, Transfer.Whole]
      one := by simp [machine, Transfer.machine, Closed]
      named := by simp [machine, Transfer.machine, Closed]
      client := by simp [machine, Transfer.machine] }
  job := by simp [machine, Transfer.machine, Closed]
  gone := by simp [machine]

theorem proceed_client (t : Transfer) (client : Client) :
    (t.proceed file client).client = some client := by
  cases client <;> rfl

theorem reached_client (t : Transfer) (i now : ℕ) (request : WireRequest) (id : Text)
    (session : Session) (inner : SessionRequest) :
    (t.reached i now request id session inner).client = t.client := by
  unfold Transfer.reached
  split <;> rfl

theorem reached_requests {t : Transfer} {i : ℕ} (now : ℕ) {request : WireRequest} {stage : Stage}
    (hi : t.calls[i]? = some ⟨request, stage⟩) (id : Text) (session : Session)
    (inner : SessionRequest) :
    (t.reached i now request id session inner).calls.map Call.request =
      t.calls.map Call.request := by
  unfold Transfer.reached
  split <;> exact Transfer.map_request_set hi _

theorem step_idle {s t : Transfer} {event : Transfer.Event}
    (h : Transfer.step file s event = some t) (hnone : t.client = none) :
    s.client = none ∧ t.calls.map Call.request = s.calls.map Call.request := by
  cases Transfer.step_cases h with
  | upload _ => cases (proceed_client _ _).symm.trans hnone
  | poll _ => cases (proceed_client _ _).symm.trans hnone
  | fail _ => cases (proceed_client _ _).symm.trans hnone
  | deliver _ _ => cases (proceed_client _ _).symm.trans hnone
  | create hi _ => exact ⟨hnone, Transfer.map_request_set hi _⟩
  | reach hi _ _ =>
    exact ⟨(reached_client s _ _ _ _ _ _).symm.trans hnone, reached_requests _ hi _ _ _⟩
  | persist hi _ _ => exact ⟨hnone, Transfer.map_request_set hi _⟩
  | resume hi _ => exact ⟨hnone, Transfer.map_request_set hi _⟩
  | refuse hi _ => exact ⟨hnone, Transfer.map_request_set hi _⟩
  | alarm _ => exact ⟨hnone, rfl⟩

/-- The job stays with the session that got the last byte. -/
theorem inv_step {s t : JobLives} {event : Event} (hs : Inv file s) (hlasting : s.Lasting event)
    (hkept : s.Kept event) (h : s.step file event = some t) : Inv file t := by
  cases event with
  | start setup =>
    simp only [step] at h
    split at h
    · rename_i hclient hout
      rcases Option.map_eq_some_iff.mp h with ⟨transfer, hstep, rfl⟩
      have base := Transfer.inv_step hs.transfer.base hstep
      simp only [Transfer.step] at hstep
      split_ifs at hstep
      cases hstep
      have hnext := transferInv_proceed hs.transfer base (opened_upload setup s.upload_id) (by
        intro id hid
        apply keeps_upload (hs.job hclient hout id hid)
        rcases hid with ⟨call, hcall, hclosing, -⟩
        exact hkept ⟨call, hcall, hclosing⟩)
      refine ⟨hnext, fun hnone => ?_, hs.gone⟩
      cases (proceed_client _ _).symm.trans hnone
    · cases h
  | transfer event =>
    cases event with
    | upload setup resume_id => cases h
    | _ =>
      rcases Option.map_eq_some_iff.mp h with ⟨transfer, hstep, rfl⟩
      refine ⟨transferInv_step hs.transfer hlasting (by simp) hstep, fun hnone hout id hid => ?_,
        hs.gone⟩
      rcases step_idle hstep hnone with ⟨hidle, hrequests⟩
      exact hs.job hidle hout id ((closed_iff hrequests id).mp hid)
  | settle saved =>
    simp only [step] at h
    split at h
    · rename_i result hclient
      cases h
      exact inv_settled saved hs hclient
    · cases h
  | save =>
    cases h
    refine ⟨hs.transfer, hs.job, fun hnone hout => ?_⟩
    rw [in_memory, hout] at hnone
    cases hnone
  | restart =>
    cases h
    apply inv_restarted hs
    rintro id ⟨call, hcall, hclosing, rfl⟩
    exact hkept call hcall hclosing

/-- In a run in which the session that got the last byte stays named, by the state file of every
new worker and by every call that may be tried again, YouTube gets at most one whole video. -/
theorem atMostOne_of_kept {es : List Event} {s : JobLives}
    (hrun : (machine file).run es = some s)
    (hlasting : (machine file).Along Lasting (machine file).init es)
    (hkept : (machine file).Along Kept (machine file).init es) : s.AtMostOne file := by
  have hs : Inv file s := Machine.invariant_along (I := Inv file)
    (fun _ _ _ hI hC hstep => inv_step hI hC.1 hC.2 hstep) (hlasting.and hkept) hrun inv_init
  exact fun a b ha hb => hs.transfer.one a b (hs.transfer.whole a ha) (hs.transfer.whole b hb)

def upload (call : ℕ) (id : Text) : List Event :=
  [.start ⟨true, true, true, true, true⟩, .transfer (.create call 0 id []), .transfer .deliver,
    .transfer (.poll false true), .transfer (.reach (call + 1) 1 8),
    .transfer (.persist (call + 1) 1 ⟨200, none, .json (some ['v'])⟩)]

/-- The responses to the chunk are lost, the failure is saved, a new worker resumes the session. -/
def resumedRun : List Event :=
  upload 0 ['s'] ++ [.transfer (.resume 1), .transfer .fail, .transfer .fail, .transfer .fail,
    .settle true, .restart, .start ⟨true, true, true, true, true⟩, .transfer (.reach 4 2 8),
    .transfer .deliver, .settle true]

/-- The worker is killed when YouTube has the file. -/
def killedRun : List Event := upload 0 ['s'] ++ [.restart] ++ upload 2 ['t']

theorem resumedRun_accepted : ((machine [7]).run resumedRun).isSome := by decide +kernel

theorem killedRun_accepted : ((machine [7]).run killedRun).isSome := by decide +kernel

theorem atMostOne_resumedRun :
    (((machine [7]).run resumedRun).get resumedRun_accepted).AtMostOne [7] :=
  atMostOne_of_kept (Option.some_get resumedRun_accepted).symm (by decide +kernel)
    (by decide +kernel)

theorem whole_of_held {t : Transfer} {id : Text}
    (h : (t.sessions id).map Session.held = some file) : t.Whole file id := by
  rcases Option.map_eq_some_iff.mp h with ⟨session, hsession, hheld⟩
  exact ⟨session, hsession, hheld⟩

/-- The state file does not name the session yet, so the next worker publishes a second video. -/
theorem not_alwaysAtMostOne :
    ¬ ∀ (file : List UInt8) (es : List Event) (s : JobLives),
      (machine file).Along Lasting (machine file).init es → (machine file).run es = some s →
        s.AtMostOne file := by
  intro hall
  have hone := hall [7] killedRun _ (by decide +kernel) (Option.some_get killedRun_accepted).symm
  have hfirst : (((machine [7]).run killedRun).get killedRun_accepted).transfer.Whole [7] ['s'] :=
    whole_of_held (by decide +kernel)
  have hsecond : (((machine [7]).run killedRun).get killedRun_accepted).transfer.Whole [7] ['t'] :=
    whole_of_held (by decide +kernel)
  exact absurd (hone _ _ hfirst hsecond) (by decide)

end JobLives
end GambitRecord.Recorder
