import GambitRecord.Recorder.UploadJob
import GambitRecord.Recorder.Transfer

/-! # The life of one job

One queued recording, the upload calls that `UploadQueue::run` makes for it, and
the broker's sessions. The broker handles one request at a time; a request may
be lost, and so may its response after the broker has handled it. A response whose
body is cut behind its headers, which the client takes for whole, is not modelled.
-/

namespace GambitRecord.Recorder
open Library Library.DigitText Library.Runs Broker

structure Dialogue where
  attempts : UInt32
  upload_id : Text
  client : Option Client
  sessions : Text → Option UploadState
  outcome : Option (Verdict × UploadResult)

/-- What becomes of a request that is sent. -/
inductive Fate where
  | lost
  | refused (status : ℕ) (delivered : Bool)
  | created (now : ℕ) (id uploadUrl : Text) (delivered : Bool)
  | handled (now maxChunk : ℕ) (upstream : Option Answer) (delivered : Bool)

namespace Fate

/-- Some response reaches the client. -/
def delivered : Fate → Bool
  | .lost => false
  | .refused _ delivered => delivered
  | .created _ _ _ delivered => delivered
  | .handled _ _ _ delivered => delivered

/-- The session's own response reaches the client. -/
def heard : Fate → Bool
  | .handled _ _ _ delivered => delivered
  | _ => false

/-- YouTube would answer the chunk with a finished video. -/
def completes : Fate → Bool
  | .handled _ _ (some ⟨status, _, .json (some (_ :: _))⟩) _ => status = 200 ∨ status = 201
  | _ => false

end Fate

namespace Dialogue

inductive Event where
  | start (setup : Setup)
  | poll (stop readable : Bool)
  | exchange (fate : Fate)
  | settle

/-- A session handles one request to its end; a failed fetch to YouTube throws out of it. -/
def serve (now : ℕ) (storage : Option UploadState) (request : SessionRequest)
    (upstream : Option Answer) : Option UploadState × Response :=
  match UploadSession.fetch now storage request, upstream with
  | (storage, .respond response), _ => (storage, response)
  | (storage, .forward _), none => (storage, ⟨500, {}⟩)
  | (storage, .forward pending), some answer => UploadSession.resume storage pending answer

variable (file : List UInt8)

/-- The response reaches the client or is lost on the way. -/
def received (u : Upload) (exchange : Exchange) (attempt : ℕ) (response : Response) :
    Bool → Client
  | true => BrokerUploader.answer file u response exchange
  | false => BrokerUploader.retry file u exchange attempt

/-- One request of a client. The worker answers by itself when it cannot reach the session, and
may refuse to open one. -/
def exchanged (d : Dialogue) (u : Upload) (exchange : Exchange) (attempt : ℕ) :
    Fate → Option Dialogue
  | .lost => some { d with client := BrokerUploader.retry file u exchange attempt }
  | .refused status delivered =>
    if 500 ≤ status ∨ exchange = .create ∧ 400 ≤ status then
      some { d with client := received file u exchange attempt ⟨status, {}⟩ delivered }
    else none
  | .created now id uploadUrl delivered =>
    if exchange = .create ∧ id ≠ [] ∧ d.sessions id = none then
      some { d with
        client := received file u exchange attempt ⟨201, { id := some id }⟩ delivered
        sessions := Function.update d.sessions id
          (some (UploadSession.init now uploadUrl file.length)) }
    else none
  | .handled now maxChunk upstream delivered =>
    match sessionRequest maxChunk (BrokerUploader.wireRequest file u exchange) with
    | some (id, request) =>
      some { d with
        client := received file u exchange attempt
          (serve now (d.sessions id) request upstream).2 delivered
        sessions := Function.update d.sessions id
          (serve now (d.sessions id) request upstream).1 }
    | none => none

def settled (d : Dialogue) (result : UploadResult) : Dialogue :=
  match verdict d.attempts result with
  | .retry =>
    { d with attempts := d.attempts + 1, upload_id := result.upload_id, client := none }
  | v => { d with client := none, outcome := some (v, result) }

def step (d : Dialogue) : Event → Option Dialogue
  | .start setup =>
    match d.client, d.outcome with
    | none, none =>
      some { d with client := BrokerUploader.upload setup (some file) d.upload_id }
    | _, _ => none
  | .poll stop readable =>
    match d.client with
    | some (.looping u) =>
      some { d with client := BrokerUploader.poll file u stop readable }
    | _ => none
  | .exchange fate =>
    match d.client with
    | some (.requesting u exchange attempt) => exchanged file d u exchange attempt fate
    | _ => none
  | .settle =>
    match d.client with
    | some (.returned result) => some (settled d result)
    | _ => none

def machine : Machine Dialogue Event where
  init := ⟨0, [], none, fun _ => none, none⟩
  step := step file

/-- A session of the job has this link. -/
def Published (d : Dialogue) (url : Text) : Prop :=
  ∃ id state, d.sessions id = some state ∧ state.url = some url

def PublishedAt (d : Dialogue) (id : Text) : Prop := ∃ state ∈ d.sessions id, state.url ≠ none

instance (d : Dialogue) (id : Text) : Decidable (d.PublishedAt id) :=
  decidable_of_iff ((d.sessions id).any fun state => state.url.isSome) (by
    unfold PublishedAt
    cases d.sessions id <;> simp [Option.isSome_iff_ne_none])

/-- A call on a published video does not fail for good, and a job with a published video leaves
the queue with its link. -/
def EndsWithUrl (d : Dialogue) : Prop :=
  ∀ url, d.Published url →
    (∀ result, d.client = some (.returned result) →
      ¬ (result.success = false ∧ result.retryable = false)) ∧
    ∀ v result, d.outcome = some (v, result) → v = .completed ∧ result.url = url

def Unexpired (d : Dialogue) : Event → Prop
  | .exchange (.handled now _ _ _) =>
    match d.client with
    | some (.requesting u _ _) => ∀ state ∈ d.sessions u.upload_id, now < state.expiresAt
    | _ => True
  | _ => True

instance (d : Dialogue) : DecidablePred (Unexpired d) := fun e => by
  unfold Unexpired
  split
  · split <;> infer_instance
  · infer_instance

def AlwaysEndsWithUrl : Prop :=
  ∀ file es d, file ≠ [] → file.length ≤ maxFileSize →
    (machine file).Along Unexpired (machine file).init es →
    (∀ setup, .start setup ∈ es → setup = ⟨true, true, true, true, true⟩) →
    (machine file).run es = some d → EndsWithUrl d

/-- What a published session asks of a request. No chunk that the session handles is answered; on
the job's last attempt the answer is heard or the request is sent again, also for the chunk that
completes the video. -/
def Heard (d : Dialogue) (u : Upload) (exchange : Exchange) (attempt : ℕ) (fate : Fate) : Prop :=
  (d.PublishedAt u.upload_id → exchange ≠ .resume → fate.heard = false) ∧
    (7 ≤ d.attempts → d.PublishedAt u.upload_id ∨ exchange ≠ .resume ∧ fate.completes = true →
      fate.heard = true ∨
        fate.delivered = false ∧ attempt < BrokerUploader.network_retries exchange)

instance (d : Dialogue) (u : Upload) (exchange : Exchange) (attempt : ℕ) (fate : Fate) :
    Decidable (Heard d u exchange attempt fate) :=
  inferInstanceAs (Decidable (_ ∧ _))

/-- The condition on a step of the job: its requests are heard, and a call on a published session
finds the uploader configured. -/
def Answered (d : Dialogue) : Event → Prop
  | .start setup => d.PublishedAt d.upload_id → setup = ⟨true, true, true, true, true⟩
  | .exchange fate =>
    match d.client with
    | some (.requesting u exchange attempt) => Heard d u exchange attempt fate
    | _ => True
  | _ => True

instance (d : Dialogue) : DecidablePred (Answered d) := fun e => by
  unfold Answered
  split
  · infer_instance
  · split <;> infer_instance
  · infer_instance

def named : Client → Text
  | .requesting u _ _ => u.upload_id
  | .looping u => u.upload_id
  | .returned result => result.upload_id

def current (d : Dialogue) : Text :=
  match d.client with
  | none => d.upload_id
  | some client => named client

def Known (d : Dialogue) (id : Text) : Prop := (d.sessions id).isSome

def ClientOk (d : Dialogue) : Client → Prop
  | .requesting u .create _ => u.upload_id = []
  | .requesting u _ _ => d.Known u.upload_id
  | .looping u => d.Known u.upload_id ∧ ¬ d.PublishedAt u.upload_id
  | .returned result =>
    (result.upload_id = [] ∨ d.Known result.upload_id) ∧
      ∀ url, d.Published url → (result.success = true ∧ result.url = url) ∨
        (result.success = false ∧ result.retryable = true ∧ d.attempts < 7)

structure Inv (d : Dialogue) : Prop where
  fresh : d.sessions [] = none
  job : d.upload_id = [] ∨ d.Known d.upload_id
  links : ∀ id state, d.sessions id = some state → state.url ≠ some []
  own : d.outcome = none → ∀ id, d.PublishedAt id → id = d.current
  client : ∀ client ∈ d.client, ClientOk d client
  outcome : ∀ v result, d.outcome = some (v, result) →
    d.client = none ∧ ∀ url, d.Published url → v = .completed ∧ result.url = url

theorem Published.at {d : Dialogue} {url : Text} (h : d.Published url) :
    ∃ id, d.PublishedAt id ∧ ∃ state, d.sessions id = some state ∧ state.url = some url := by
  rcases h with ⟨id, state, hid, hurl⟩
  exact ⟨id, ⟨state, hid, by simp [hurl]⟩, state, hid, hurl⟩

theorem Inv.published {d : Dialogue} (hd : Inv d) (hout : d.outcome = none) {url : Text}
    (h : d.Published url) :
    ∃ state, d.sessions d.current = some state ∧ state.url = some url := by
  rcases h.at with ⟨id, hat, hstate⟩
  rw [← hd.own hout id hat]
  exact hstate

theorem Inv.not_published {d : Dialogue} (hd : Inv d) (hout : d.outcome = none)
    (h : ¬ d.PublishedAt d.current) :
    (∀ id, ¬ d.PublishedAt id) ∧ ∀ url, ¬ d.Published url := by
  have hown : ∀ id, ¬ d.PublishedAt id := fun id hid => h (hd.own hout id hid ▸ hid)
  refine ⟨hown, fun url hp => ?_⟩
  rcases hp.at with ⟨id, hat, -⟩
  exact hown id hat

/-- A chunk leaves the link of its session as it was, or stores one and answers with it. -/
theorem serve_chunk (now : ℕ) (state : UploadState) {request : SessionRequest}
    (upstream : Option Answer) (hpath : request.path = .chunk) :
    ∃ stored, (serve now (some state) request upstream).1 = some stored ∧
      (stored.url = state.url ∨
        stored.url ≠ some [] ∧
          ((serve now (some state) request upstream).2.status = 200 ∨
            (serve now (some state) request upstream).2.status = 201) ∧
          (serve now (some state) request upstream).2.body.url = stored.url) := by
  unfold serve
  rcases UploadSession.fetch_cases now (some state) request with
    ⟨r, h, -⟩ | ⟨r, h, hcancel, -⟩ | ⟨st, range, hst, -, -, -, -, -, h⟩
  · rw [h]
    exact ⟨state, rfl, .inl rfl⟩
  · cases hpath.symm.trans hcancel
  · cases hst
    rw [h]
    cases upstream with
    | none => exact ⟨state, rfl, .inl rfl⟩
    | some answer => exact UploadSession.resume_link _ answer

/-- A link appears only for an answer of YouTube that carries a video id. -/
theorem completes_of_stored {now maxChunk : ℕ} {state stored : UploadState}
    {request : SessionRequest} {upstream : Option Answer} {delivered : Bool}
    (hpath : request.path = .chunk) (hurl : state.url = none)
    (hs : (serve now (some state) request upstream).1 = some stored) (hne : stored.url ≠ none) :
    (Fate.handled now maxChunk upstream delivered).completes = true := by
  unfold serve at hs
  rcases UploadSession.fetch_cases now (some state) request with
    ⟨r, h, -⟩ | ⟨r, h, hcancel, -⟩ | ⟨st, range, hst, -, -, -, -, -, h⟩
  · rw [h] at hs
    cases hs
    exact absurd hurl hne
  · cases hpath.symm.trans hcancel
  · cases hst
    rw [h] at hs
    cases upstream with
    | none =>
      cases hs
      exact absurd hurl hne
    | some answer =>
      rcases answer with ⟨status, range, body⟩
      simp only [UploadSession.resume, UploadSession.afterAnswer] at hs
      split_ifs at hs with h308 hdone
      · cases hs
        exact absurd hurl hne
      · rcases body with _ | _ | _ | ⟨c, id⟩
        · cases hs
          exact absurd hurl hne
        · cases hs
          exact absurd rfl hne
        · cases hs
          exact absurd rfl hne
        · simpa [Fate.completes] using hdone
      · cases hs
        exact absurd hurl hne

theorem serve_resume {now : ℕ} {state : UploadState} {request : SessionRequest}
    (upstream : Option Answer) (hlive : now < state.expiresAt) (hpath : request.path = .status)
    (hmethod : request.method = .get) :
    serve now (some state) request upstream =
      (some state, ⟨200, UploadSession.statusBody state⟩) := by
  have hexp : isExpired state.expiresAt now = false := by
    simpa [isExpired] using hlive
  simp [serve, UploadSession.fetch, hexp, hpath, hmethod]

variable {file}

variable (file) in
theorem answer_failure (u : Upload) (exchange : Exchange) {status : ℕ}
    (h : status = 0 ∨ 500 ≤ status) :
    ∃ error, BrokerUploader.answer file u ⟨status, {}⟩ exchange =
      BrokerUploader.failed u.upload_id true error := by
  have hretry : retryable_status status = true := by
    simp only [retryable_status, decide_eq_true_eq]
    omega
  have h200 : status ≠ 200 := by omega
  have h201 : status ≠ 201 := by omega
  have h308 : status ≠ 308 := by omega
  have hgone : ¬ (status = 404 ∨ status = 410) := by omega
  cases exchange with
  | resume => exact ⟨_, by simp [BrokerUploader.answer, BrokerUploader.afterResume, h200, hgone, hretry]; rfl⟩
  | create => exact ⟨_, by simp [BrokerUploader.answer, BrokerUploader.afterCreate, h201, hretry]; rfl⟩
  | chunk count =>
    exact ⟨_, by simp [BrokerUploader.answer, BrokerUploader.afterChunk, h200, h201, h308, hretry]; rfl⟩

theorem clientOk_failed {d : Dialogue} {id : Text} {error : UploadError}
    (hid : id = [] ∨ d.Known id) (hlast : (∃ url, d.Published url) → d.attempts < 7) :
    ClientOk d (BrokerUploader.failed id true error) :=
  ⟨hid, fun url hurl => .inr ⟨rfl, rfl, hlast ⟨url, hurl⟩⟩⟩

/-- Whatever ends a call is right while nothing is published. -/
theorem clientOk_returned {d : Dialogue} {result : UploadResult}
    (hid : result.upload_id = [] ∨ d.Known result.upload_id) (hnone : ∀ url, ¬ d.Published url) :
    ClientOk d (.returned result) := ⟨hid, fun url hurl => absurd hurl (hnone url)⟩

theorem ClientOk.known {d : Dialogue} {u : Upload} {exchange : Exchange} {attempt : ℕ}
    (h : ClientOk d (.requesting u exchange attempt)) : u.upload_id = [] ∨ d.Known u.upload_id := by
  cases exchange with
  | create => exact .inl h
  | resume => exact .inr h
  | chunk count => exact .inr h

variable (file) in
theorem clientOk_retry {d : Dialogue} {u : Upload} {exchange : Exchange} {attempt : ℕ}
    (h : ClientOk d (.requesting u exchange attempt))
    (hlast : (∃ url, d.Published url) → 7 ≤ d.attempts →
      attempt < BrokerUploader.network_retries exchange) :
    ClientOk d (BrokerUploader.retry file u exchange attempt) := by
  unfold BrokerUploader.retry
  split_ifs with hlt
  · cases exchange with
    | create => exact h
    | resume => exact h
    | chunk count => exact h
  · rcases answer_failure file u exchange (.inl rfl) with ⟨error, he⟩
    rw [networkFailure, he]
    refine clientOk_failed h.known fun hp => ?_
    by_contra hge
    exact hlt (hlast hp (UInt32.not_lt.mp hge))

theorem named_retry (u : Upload) (exchange : Exchange) (attempt : ℕ) :
    named (BrokerUploader.retry file u exchange attempt) = u.upload_id := by
  unfold BrokerUploader.retry
  split_ifs
  · rfl
  · rcases answer_failure file u exchange (.inl rfl) with ⟨error, he⟩
    rw [networkFailure, he]
    rfl

theorem inv_client {d : Dialogue} {client : Client} (hd : Inv d) (hout : d.outcome = none)
    (hown : ∀ id, d.PublishedAt id → id = named client) (hok : ClientOk d client) :
    Inv { d with client := some client } where
  fresh := hd.fresh
  job := hd.job
  links := hd.links
  own := fun _ => hown
  client := fun c hc => by
    cases hc
    cases client with
    | requesting u exchange attempt => cases exchange <;> exact hok
    | looping u => exact hok
    | returned result => exact hok
  outcome := fun v result h => by cases hout.symm.trans h

theorem Inv.outcome_none {d : Dialogue} (hd : Inv d) {client : Client}
    (hc : d.client = some client) : d.outcome = none := by
  cases ho : d.outcome with
  | none => rfl
  | some o =>
    have hnone := (hd.outcome o.1 o.2 ho).1
    cases hc.symm.trans hnone

theorem Inv.own_requesting {d : Dialogue} (hd : Inv d) {u : Upload} {exchange : Exchange}
    {attempt : ℕ} (hc : d.client = some (.requesting u exchange attempt)) {id : Text}
    (hid : d.PublishedAt id) : id = u.upload_id := by
  rw [hd.own (hd.outcome_none hc) id hid, current, hc]
  rfl

/-- A call that has yet to open its session works for an unpublished job. -/
theorem Inv.create_unpublished {d : Dialogue} (hd : Inv d) {u : Upload} {attempt : ℕ}
    (hc : d.client = some (.requesting u .create attempt)) (id : Text) : ¬ d.PublishedAt id := by
  intro hid
  have hempty : u.upload_id = [] := hd.client _ hc
  rw [hd.own_requesting hc hid, hempty] at hid
  rcases hid with ⟨state, hstate, -⟩
  cases hd.fresh.symm.trans hstate

variable (file) in
theorem inv_retry {d : Dialogue} {u : Upload} {exchange : Exchange} {attempt : ℕ} (hd : Inv d)
    (hc : d.client = some (.requesting u exchange attempt))
    (hlast : d.PublishedAt u.upload_id → 7 ≤ d.attempts →
      attempt < BrokerUploader.network_retries exchange) :
    Inv { d with client := some (BrokerUploader.retry file u exchange attempt) } := by
  refine inv_client hd (hd.outcome_none hc) (fun id hid => ?_) (clientOk_retry file (hd.client _ hc) ?_)
  · rw [named_retry]
    exact hd.own_requesting hc hid
  · rintro ⟨url, hp⟩
    rcases hp.at with ⟨id, hid, -⟩
    exact hlast (hd.own_requesting hc hid ▸ hid)

theorem inv_failure {d : Dialogue} {u : Upload} {exchange : Exchange} {attempt status : ℕ}
    (hd : Inv d) (hc : d.client = some (.requesting u exchange attempt)) (hstatus : 500 ≤ status)
    (hlast : d.PublishedAt u.upload_id → d.attempts < 7) :
    Inv { d with client := some (BrokerUploader.answer file u ⟨status, {}⟩ exchange) } := by
  rcases answer_failure file u exchange (.inr hstatus) with ⟨error, he⟩
  rw [he]
  refine inv_client hd (hd.outcome_none hc) (fun id hid => hd.own_requesting hc hid) ?_
  refine clientOk_failed (hd.client _ hc).known ?_
  rintro ⟨url, hp⟩
  rcases hp.at with ⟨id, hid, -⟩
  exact hlast (hd.own_requesting hc hid ▸ hid)

theorem inv_stored {d : Dialogue} {u : Upload} {exchange : Exchange} {attempt : ℕ}
    {state stored : UploadState} (hd : Inv d)
    (hc : d.client = some (.requesting u exchange attempt))
    (hstate : d.sessions u.upload_id = some state)
    (hlink : stored.url = state.url ∨ stored.url ≠ some []) :
    Inv { d with sessions := Function.update d.sessions u.upload_id (some stored) } := by
  have hne : u.upload_id ≠ [] := by
    intro hempty
    rw [hempty] at hstate
    cases hd.fresh.symm.trans hstate
  have hknown : ∀ id, d.Known id →
      (Function.update d.sessions u.upload_id (some stored) id).isSome := by
    intro id hid
    by_cases hsame : id = u.upload_id
    · rw [hsame, Function.update_self]
      rfl
    · rw [Function.update_of_ne hsame]
      exact hid
  have hout := hd.outcome_none hc
  refine ⟨?_, hd.job.imp_right (hknown _), fun id s hs => ?_, fun _ id hid => ?_, fun c hcl => ?_, ?_⟩
  · exact (Function.update_of_ne hne.symm _ _).trans hd.fresh
  · by_cases hsame : id = u.upload_id
    · subst hsame
      simp only [Function.update_self, Option.some.injEq] at hs
      subst hs
      rcases hlink with hlink | hlink
      · rw [hlink]
        exact hd.links _ state hstate
      · exact hlink
    · simp only [Function.update_of_ne hsame] at hs
      exact hd.links id s hs
  · simp only [current, hc, named]
    by_contra hsame
    rcases hid with ⟨s, hs, hurl⟩
    simp only [Function.update_of_ne hsame] at hs
    exact hsame (hd.own_requesting hc ⟨s, hs, hurl⟩)
  · cases hc.symm.trans hcl
    have hok := hd.client _ hc
    cases exchange with
    | create => exact hok
    | resume => exact hknown _ hok
    | chunk count => exact hknown _ hok
  · intro v result h
    cases hout.symm.trans h

theorem inv_resumed {d : Dialogue} {u : Upload} {attempt : ℕ} {state : UploadState} (hd : Inv d)
    (hc : d.client = some (.requesting u .resume attempt))
    (hstate : d.sessions u.upload_id = some state) :
    Inv { d with
      client := some (BrokerUploader.answer file u ⟨200, UploadSession.statusBody state⟩ .resume) } := by
  have hout := hd.outcome_none hc
  have hknown : d.Known u.upload_id := hd.client _ hc
  cases hurl : state.url with
  | none =>
    have hlooping : ∃ offset, BrokerUploader.answer file u ⟨200, UploadSession.statusBody state⟩ .resume
        = .looping ⟨u.upload_id, offset, offset⟩ := by
      simp [BrokerUploader.answer, BrokerUploader.afterResume, UploadSession.statusBody, json_string,
        hurl, BrokerUploader.openInput]
    rcases hlooping with ⟨offset, he⟩
    rw [he]
    refine inv_client hd hout (fun id hid => hd.own_requesting hc hid) ⟨hknown, ?_⟩
    rintro ⟨s, hs, hne⟩
    cases hstate.symm.trans hs
    exact hne hurl
  | some url =>
    have hne : url ≠ [] := by
      rintro rfl
      exact hd.links _ state hstate hurl
    have hreturned : ∃ r : UploadResult, r.success = true ∧ r.upload_id = u.upload_id ∧ r.url = url ∧
        BrokerUploader.answer file u ⟨200, UploadSession.statusBody state⟩ .resume = .returned r := by
      simp [BrokerUploader.answer, BrokerUploader.afterResume, UploadSession.statusBody, json_string,
        hurl, hne]
    rcases hreturned with ⟨r, hsuccess, hid, hlink, he⟩
    rw [he]
    refine inv_client hd hout (fun id h => ?_) ⟨.inr (hid ▸ hknown), fun url' hp => ?_⟩
    · rw [named, hid]
      exact hd.own_requesting hc h
    · rcases hd.published hout hp with ⟨s, hs, hs'⟩
      rw [current, hc] at hs
      cases hstate.symm.trans hs
      exact .inl ⟨hsuccess, hlink.trans (Option.some.inj (hurl.symm.trans hs'))⟩

variable (file) in
theorem inv_heard {d : Dialogue} {u : Upload} {count attempt : ℕ} {state : UploadState}
    {response : Response} (hd : Inv d) (hc : d.client = some (.requesting u (.chunk count) attempt))
    (hstate : d.sessions u.upload_id = some state)
    (hlink : state.url = none ∨
      (response.status = 200 ∨ response.status = 201) ∧ response.body.url = state.url) :
    Inv { d with client := some (BrokerUploader.answer file u response (.chunk count)) } := by
  have hout := hd.outcome_none hc
  have hknown : d.Known u.upload_id := hd.client _ hc
  cases hurl : state.url with
  | none =>
    have hat : ¬ d.PublishedAt u.upload_id := by
      rintro ⟨s, hs, hne⟩
      cases hstate.symm.trans hs
      exact hne hurl
    have hcurrent : d.current = u.upload_id := by
      rw [current, hc]
      rfl
    rcases hd.not_published hout (hcurrent ▸ hat) with ⟨hown, hnone⟩
    refine inv_client hd hout (fun id hid => absurd hid (hown id)) ?_
    simp only [BrokerUploader.answer, BrokerUploader.afterChunk]
    split_ifs with hdone h308
    · rcases BrokerUploader.finish_eq u.upload_id (json_string response.body.videoId)
        (json_string response.body.url) with ⟨r, hr, hid, -⟩
      rw [hr]
      exact clientOk_returned (.inr (hid ▸ hknown)) hnone
    · exact clientOk_returned (.inr hknown) hnone
    · exact ⟨hknown, hat⟩
  | some url =>
    rw [hurl] at hlink
    rcases hlink with hlink | ⟨hdone, hbody⟩
    · cases hlink
    · have hne : url ≠ [] := by
        rintro rfl
        exact hd.links _ state hstate hurl
      rcases BrokerUploader.finish_eq u.upload_id (json_string response.body.videoId)
        url with ⟨r, hr, hid, -, hsuccess, hr', hrurl⟩
      have he : BrokerUploader.answer file u response (.chunk count) = .returned r := by
        rw [← hr]
        simp [BrokerUploader.answer, BrokerUploader.afterChunk, hdone, hbody, json_string]
      rw [he]
      refine inv_client hd hout (fun id h => ?_) ⟨.inr (hid ▸ hknown), fun url' hp => .inl ?_⟩
      · rw [named, hid]
        exact hd.own_requesting hc h
      · rcases hd.published hout hp with ⟨s, hs, hs'⟩
        rw [current, hc] at hs
        cases hstate.symm.trans hs
        exact ⟨hsuccess.mpr (hr'.mpr (.inl hne)),
          (hrurl hne).trans (Option.some.inj (hurl.symm.trans hs'))⟩

theorem inv_created {d : Dialogue} {u : Upload} {attempt now : ℕ} {id uploadUrl : Text}
    {delivered : Bool} (hd : Inv d) (hc : d.client = some (.requesting u .create attempt))
    (hid : id ≠ []) (hfresh : d.sessions id = none) :
    Inv { d with
      client := received file u .create attempt ⟨201, { id := some id }⟩ delivered
      sessions := Function.update d.sessions id
        (some (UploadSession.init now uploadUrl file.length)) } := by
  have hout := hd.outcome_none hc
  have hempty : u.upload_id = [] := hd.client _ hc
  have hknown : ∀ k, d.Known k →
      (Function.update d.sessions id (some (UploadSession.init now uploadUrl file.length)) k).isSome := by
    intro k hk
    have hne : k ≠ id := by
      rintro rfl
      rw [Known, hfresh] at hk
      cases hk
    rw [Function.update_of_ne hne]
    exact hk
  have hat : ∀ k s, Function.update d.sessions id
      (some (UploadSession.init now uploadUrl file.length)) k = some s → s.url = none := by
    intro k s hs
    by_cases hsame : k = id
    · subst hsame
      simp only [Function.update_self, Option.some.injEq] at hs
      rw [← hs]
      rfl
    · rw [Function.update_of_ne hsame] at hs
      by_contra hne
      exact hd.create_unpublished hc k ⟨s, hs, hne⟩
  refine ⟨?_, hd.job.imp_right (hknown _), fun k s hs => ?_, fun _ k hk => ?_, fun c hcl => ?_, ?_⟩
  · exact (Function.update_of_ne hid.symm _ _).trans hd.fresh
  · rw [hat k s hs]
    exact fun h => by cases h
  · rcases hk with ⟨s, hs, hne⟩
    exact absurd (hat k s hs) hne
  · cases hcl
    cases delivered with
    | true =>
      simp only [received, BrokerUploader.answer, BrokerUploader.afterCreate, json_string]
      simp only [ne_eq, not_true_eq_false, if_false, Option.getD_some, List.isEmpty_iff, hid]
      refine ⟨?_, ?_⟩
      · simp [Known]
      · rintro ⟨s, hs, hne⟩
        exact hne (hat _ s hs)
    | false =>
      refine clientOk_retry file (show ClientOk _ (.requesting u .create attempt) from hempty) ?_
      rintro ⟨url, hp⟩
      rcases hp.at with ⟨k, ⟨s, hs, hne⟩, -⟩
      exact absurd (hat k s hs) hne
  · intro v result h
    cases hout.symm.trans h

variable (file) in
theorem inv_refused_create {d : Dialogue} {u : Upload} {attempt status : ℕ} (hd : Inv d)
    (hc : d.client = some (.requesting u .create attempt)) (hstatus : 400 ≤ status) :
    Inv { d with client := some (BrokerUploader.answer file u ⟨status, {}⟩ .create) } := by
  have hne : status ≠ 201 := by omega
  have hempty : u.upload_id = [] := hd.client _ hc
  simp only [BrokerUploader.answer, BrokerUploader.afterCreate, if_pos hne]
  refine inv_client hd (hd.outcome_none hc)
    (fun id hid => absurd hid (hd.create_unpublished hc id)) (clientOk_returned (.inl hempty) ?_)
  intro url hp
  rcases hp.at with ⟨id, hid, -⟩
  exact hd.create_unpublished hc id hid

/-- A session handles a chunk, and its answer is heard or lost. -/
theorem inv_chunk {d : Dialogue} {u : Upload} {count attempt now maxChunk : ℕ} {id : Text}
    {request : SessionRequest} {upstream : Option Answer} {delivered : Bool} (hd : Inv d)
    (hc : d.client = some (.requesting u (.chunk count) attempt))
    (hrequest : sessionRequest maxChunk (BrokerUploader.wireRequest file u (.chunk count)) =
      some (id, request))
    (hheard : Heard d u (.chunk count) attempt (.handled now maxChunk upstream delivered)) :
    Inv { d with
      client := received file u (.chunk count) attempt
        (serve now (d.sessions id) request upstream).2 delivered
      sessions := Function.update d.sessions id (serve now (d.sessions id) request upstream).1 } := by
  cases hrequest
  have hknown : d.Known u.upload_id := hd.client _ hc
  rcases Option.isSome_iff_exists.mp hknown with ⟨state, hstate⟩
  rw [hstate]
  have hpath : (⟨.chunk, .put, some (contentRange u.offset (u.offset + count - 1) file.length),
      ((file.drop u.position).take count).length, maxChunk,
      (file.drop u.position).take count⟩ : SessionRequest).path = .chunk := rfl
  rcases serve_chunk now state upstream hpath with ⟨stored, hs, hlink⟩
  rw [hs]
  have hd' := inv_stored hd hc hstate (hlink.imp_right And.left)
  have hstored : Function.update d.sessions u.upload_id (some stored) u.upload_id = some stored :=
    Function.update_self ..
  cases delivered with
  | true =>
    have hunpublished : state.url = none := by
      by_contra hne
      exact absurd (hheard.1 ⟨state, hstate, hne⟩ (by simp)) (by simp [Fate.heard])
    refine inv_heard file hd' hc hstored ?_
    rcases hlink with hsame | ⟨-, hanswer⟩
    · exact .inl (hsame.trans hunpublished)
    · exact .inr hanswer
  | false =>
    refine inv_retry file hd' hc ?_
    rintro ⟨s, hs', hne⟩ hlast
    cases hstored.symm.trans hs'
    have hreason : d.PublishedAt u.upload_id ∨
        Exchange.chunk count ≠ .resume ∧ (Fate.handled now maxChunk upstream false).completes = true := by
      by_cases hurl : state.url = none
      · refine .inr ⟨by simp, ?_⟩
        exact completes_of_stored rfl hurl hs hne
      · exact .inl ⟨state, hstate, hurl⟩
    rcases hheard.2 hlast hreason with h | h
    · cases h
    · exact h.2

/-- A session tells its state, and its answer is heard or lost. -/
theorem inv_resume {d : Dialogue} {u : Upload} {attempt now maxChunk : ℕ} {id : Text}
    {request : SessionRequest} {upstream : Option Answer} {delivered : Bool} (hd : Inv d)
    (hc : d.client = some (.requesting u .resume attempt))
    (hrequest : sessionRequest maxChunk (BrokerUploader.wireRequest file u .resume) =
      some (id, request))
    (hlive : Unexpired d (.exchange (.handled now maxChunk upstream delivered)))
    (hheard : Heard d u .resume attempt (.handled now maxChunk upstream delivered)) :
    Inv { d with
      client := received file u .resume attempt (serve now (d.sessions id) request upstream).2
        delivered
      sessions := Function.update d.sessions id (serve now (d.sessions id) request upstream).1 } := by
  cases hrequest
  have hknown : d.Known u.upload_id := hd.client _ hc
  rcases Option.isSome_iff_exists.mp hknown with ⟨state, hstate⟩
  have hnow : now < state.expiresAt := by
    rw [Unexpired, hc] at hlive
    exact hlive state hstate
  have hsame : Function.update d.sessions u.upload_id (some state) = d.sessions := by
    rw [← hstate, Function.update_eq_self]
  rw [hstate, serve_resume upstream hnow rfl rfl, hsame]
  cases delivered with
  | true => exact inv_resumed hd hc hstate
  | false =>
    refine inv_retry file hd hc fun hp ha => ?_
    rcases hheard.2 ha (.inl hp) with h | h
    · cases h
    · exact h.2

theorem inv_exchanged {d t : Dialogue} {u : Upload} {exchange : Exchange} {attempt : ℕ}
    {fate : Fate} (hd : Inv d) (hc : d.client = some (.requesting u exchange attempt))
    (hlive : Unexpired d (.exchange fate)) (hheard : Heard d u exchange attempt fate)
    (h : exchanged file d u exchange attempt fate = some t) : Inv t := by
  have hlast : d.PublishedAt u.upload_id → fate.heard = false → 7 ≤ d.attempts →
      fate.delivered = false ∧ attempt < BrokerUploader.network_retries exchange := by
    intro hp hf ha
    rcases hheard.2 ha (.inl hp) with h | h
    · cases hf.symm.trans h
    · exact h
  cases fate with
  | lost =>
    cases h
    exact inv_retry file hd hc fun hp ha => (hlast hp rfl ha).2
  | refused status delivered =>
    simp only [exchanged] at h
    split_ifs at h with hstatus
    cases h
    cases delivered with
    | false => exact inv_retry file hd hc fun hp ha => (hlast hp rfl ha).2
    | true =>
      by_cases hserver : 500 ≤ status
      · refine inv_failure hd hc hserver fun hp => ?_
        by_contra hge
        cases (hlast hp rfl (UInt32.not_lt.mp hge)).1
      · rcases hstatus.resolve_left hserver with ⟨rfl, h400⟩
        exact inv_refused_create file hd hc h400
  | created now id uploadUrl delivered =>
    simp only [exchanged] at h
    split_ifs at h with hnew
    cases h
    rcases hnew with ⟨rfl, hid, hfresh⟩
    exact inv_created hd hc hid hfresh
  | handled now maxChunk upstream delivered =>
    simp only [exchanged] at h
    cases exchange with
    | create => cases h
    | chunk count =>
      cases h
      exact inv_chunk hd hc rfl hheard
    | resume =>
      cases h
      exact inv_resume hd hc rfl hlive hheard

theorem inv_start {d : Dialogue} {setup : Setup} (hpos : file ≠ [])
    (hmax : file.length ≤ maxFileSize) (hd : Inv d) (hc : d.client = none) (hout : d.outcome = none)
    (hsetup : d.PublishedAt d.upload_id → setup = ⟨true, true, true, true, true⟩) :
    Inv { d with client := some (BrokerUploader.upload setup (some file) d.upload_id) } := by
  have hcurrent : d.current = d.upload_id := by rw [current, hc]
  have hrequest : ClientOk d
      (.requesting ⟨d.upload_id, 0, 0⟩ (if d.upload_id.isEmpty then .create else .resume) 0) := by
    by_cases hempty : d.upload_id = []
    · simp only [hempty, List.isEmpty_nil, if_true]
      rfl
    · rw [if_neg (by simpa using hempty)]
      exact hd.job.resolve_left hempty
  by_cases hat : d.PublishedAt d.upload_id
  · rw [hsetup hat, BrokerUploader.upload_ready hpos hmax]
    exact inv_client hd hout (fun id hid => (hd.own hout id hid).trans hcurrent) hrequest
  · rcases hd.not_published hout (hcurrent ▸ hat) with ⟨hown, hnone⟩
    refine inv_client hd hout (fun id hid => absurd hid (hown id)) ?_
    rcases BrokerUploader.upload_cases setup (some file) d.upload_id with
      ⟨_, -, -, -, -, hupload⟩ | ⟨_, _, hupload, -, -⟩
    · rw [hupload]
      exact hrequest
    · rw [hupload]
      exact clientOk_returned (.inl rfl) hnone

theorem inv_poll {d : Dialogue} {u : Upload} (stop readable : Bool) (hd : Inv d)
    (hc : d.client = some (.looping u)) :
    Inv { d with client := some (BrokerUploader.poll file u stop readable) } := by
  rcases hd.client _ hc with ⟨hknown, hat⟩
  have hcurrent : d.current = u.upload_id := by
    rw [current, hc]
    rfl
  rcases hd.not_published (hd.outcome_none hc) (hcurrent ▸ hat) with ⟨hown, hnone⟩
  refine inv_client hd (hd.outcome_none hc) (fun id hid => absurd hid (hown id)) ?_
  simp only [BrokerUploader.poll]
  split_ifs with hlt hstop hread
  · exact clientOk_returned (.inr hknown) hnone
  · exact hknown
  · exact clientOk_returned (.inr hknown) hnone
  · exact clientOk_returned (.inr hknown) hnone

theorem inv_settled {d : Dialogue} {result : UploadResult} (hd : Inv d)
    (hc : d.client = some (.returned result)) : Inv (settled d result) := by
  rcases hd.client _ hc with ⟨hknown, hend⟩
  have hcurrent : d.current = result.upload_id := by
    rw [current, hc]
    rfl
  have hgone : ∀ v, v = verdict d.attempts result → v ≠ .retry →
      Inv { d with client := none, outcome := some (v, result) } := by
    intro v hv hne
    refine ⟨hd.fresh, hd.job, hd.links, (by simp), (by simp), ?_⟩
    intro w r h
    cases h
    refine ⟨rfl, fun url hp => ?_⟩
    rcases hend url hp with ⟨hsuccess, hurl⟩ | ⟨hfail, hretry, hlt⟩
    · exact ⟨hv.trans (verdict_completed_iff.mpr hsuccess), hurl⟩
    · exact absurd (hv.trans (verdict_retry_iff.mpr ⟨hfail, hretry, hlt⟩)) hne
  unfold settled
  cases hv : verdict d.attempts result with
  | completed => exact hgone _ hv.symm (by simp)
  | rejected => exact hgone _ hv.symm (by simp)
  | gaveUp => exact hgone _ hv.symm (by simp)
  | retry =>
    have hout := hd.outcome_none hc
    refine ⟨hd.fresh, hknown, hd.links, fun _ id hid => (hd.own hout id hid).trans hcurrent,
      (by simp), fun v r h => ?_⟩
    cases hout.symm.trans h

theorem inv_init : Inv (machine file).init where
  fresh := rfl
  job := .inl rfl
  links := by simp [machine]
  own := by simp [machine, PublishedAt]
  client := by simp [machine]
  outcome := by simp [machine]

theorem inv_step {s t : Dialogue} {e : Event} (hpos : file ≠ []) (hmax : file.length ≤ maxFileSize)
    (hs : Inv s) (hlive : Unexpired s e) (hanswered : Answered s e)
    (h : step file s e = some t) : Inv t := by
  cases e with
  | start setup =>
    simp only [step] at h
    split at h
    · next hc hout =>
      cases h
      exact inv_start hpos hmax hs hc hout hanswered
    · cases h
  | poll stop readable =>
    simp only [step] at h
    split at h
    · next u hc =>
      cases h
      exact inv_poll stop readable hs hc
    · cases h
  | exchange fate =>
    simp only [step] at h
    split at h
    · next u exchange attempt hc =>
      rw [Answered, hc] at hanswered
      exact inv_exchanged hs hc hlive hanswered h
    · cases h
  | settle =>
    simp only [step] at h
    split at h
    · next result hc =>
      cases h
      exact inv_settled hs hc
    · cases h

/-- In every run whose steps are all answered, a published job ends with its link. -/
theorem endsWithUrl_of_answered (file : List UInt8) (es : List Event) (d : Dialogue)
    (hpos : file ≠ []) (hmax : file.length ≤ maxFileSize)
    (hlive : (machine file).Along Unexpired (machine file).init es)
    (hanswered : (machine file).Along Answered (machine file).init es)
    (hrun : (machine file).run es = some d) : EndsWithUrl d := by
  have hd : Inv d := Machine.invariant_along (I := Inv)
    (fun s e t hs hc h => inv_step hpos hmax hs hc.1 hc.2 h) (hlive.and hanswered) hrun inv_init
  intro url hp
  refine ⟨fun result hc hfail => ?_, fun v result ho => (hd.outcome v result ho).2 url hp⟩
  rcases (hd.client _ hc).2 url hp with h | h
  · cases hfail.1.symm.trans h.1
  · cases hfail.2.symm.trans h.2.1

/-- A file of one byte up to the chunk that completes it, whose response is lost. -/
def lostCompletion : List Event :=
  [.start ⟨true, true, true, true, true⟩, .exchange (.created 0 ['s'] [] true), .poll false true,
    .exchange (.handled 1 8 (some ⟨200, none, .json (some ['v'])⟩) false)]

/-- The chunk is lost twice more, and the next attempt resumes the session. -/
def resumedRun : List Event :=
  lostCompletion ++ [.exchange .lost, .exchange .lost, .settle,
    .start ⟨true, true, true, true, true⟩, .exchange (.handled 2 8 none true), .settle]

/-- The chunk is sent again and the session answers that it has it. -/
def replayedRun : List Event :=
  lostCompletion ++ [.exchange (.handled 2 8 none true), .poll false true, .settle]

theorem resumedRun_accepted : ((machine [7]).run resumedRun).isSome := by
  decide +kernel

theorem replayedRun_accepted : ((machine [7]).run replayedRun).isSome := by
  decide +kernel

theorem endsWithUrl_resumedRun :
    EndsWithUrl (((machine [7]).run resumedRun).get resumedRun_accepted) :=
  endsWithUrl_of_answered [7] resumedRun _ (by decide) (by decide) (by decide +kernel)
    (by decide +kernel) (Option.some_get _).symm

/-- The job of a published video is rejected when the completing chunk is sent again. -/
theorem not_alwaysEndsWithUrl : ¬ AlwaysEndsWithUrl := by
  intro h
  have hends := h [7] replayedRun (((machine [7]).run replayedRun).get replayedRun_accepted) (by decide)
    (by decide) (by decide +kernel) (by simp [replayedRun, lostCompletion])
    (Option.some_get _).symm
  have hpublished : (((machine [7]).run replayedRun).get replayedRun_accepted).Published
      (text "https://youtu.be/" ++ ['v']) :=
    ⟨['s'], ⟨[], 1, 1, 86400000, some ['v'], some (text "https://youtu.be/" ++ ['v'])⟩,
      by decide +kernel, rfl⟩
  have houtcome : (((machine [7]).run replayedRun).get replayedRun_accepted).outcome =
      some (.rejected, ⟨false, false, ['s'], [], [], some .noVideoUrl⟩) := by
    decide +kernel
  cases ((hends _ hpublished).2 _ _ houtcome).1

end Dialogue
end GambitRecord.Recorder
