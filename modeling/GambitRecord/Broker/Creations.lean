import GambitRecord.Broker.DailyLimiter
import GambitRecord.Broker.Handler
import GambitRecord.Library.Runs

/-! # Upload creations side by side

The calls of `createUpload` that an isolate serves at once. Between two steps of a
call the others go on: they ask the one limiter, read or write `cachedToken`, and
open sessions. The history keeps the answers of the token endpoint and the tokens
that were handed out.
-/

namespace GambitRecord.Broker
open Library Library.DigitText Library.Runs

/-- An answer of the token endpoint, with the time it was read at. -/
structure Issue where
  value : Option Json
  now : ℕ
  seconds : Option ℚ

/-- Where a call is: it waits for the limiter, goes on after it, or waits for the token endpoint,
for YouTube or for the session object. -/
inductive CallPhase where
  | limiting
  | allowed
  | refreshing
  | inserting
  | initialising (id : Text)
  | replied (outcome : Except Thrown Reply)

/-- `allowance` is the request that the limiter allowed, `insert` the one sent to YouTube, and
`init` the one sent to the session object. -/
structure CreateCall where
  request : IncomingRequest
  body : Json
  size : ℕ
  phase : CallPhase
  allowance : Option ConsumeRequest := none
  insert : Option VideoInsert := none
  init : Option SessionInit := none

/-- A configuration whose limits JavaScript counts exactly. -/
structure Deployment extends Configuration where
  perIp_safe : limits.perIp ≤ Binary64.maxSafe
  global_safe : limits.global ≤ Binary64.maxSafe

def Deployment.daily (d : Deployment) : Limits :=
  ⟨d.limits.perIp, d.limits.global, d.perIp_safe, d.global_safe⟩

namespace CreateCall
open Handler
variable (services : Services) (config : Deployment)

/-- The call from its beginning to the limiter; without a body and a size it has replied. -/
def begin (request : IncomingRequest) : CreateCall :=
  match request.json with
  | .error e => ⟨request, .scalar .null, 0, .replied (.error e), none, none, none⟩
  | .ok body =>
    match readSize services body with
    | .error e => ⟨request, body, 0, .replied (.error e), none, none, none⟩
    | .ok read =>
      match validSize config.limits read with
      | none => ⟨request, body, 0, .replied (.ok (.json 413 (.error "invalid_size" none))),
          none, none, none⟩
      | some size =>
        if unlisted body then ⟨request, body, size, .limiting, none, none, none⟩
        else ⟨request, body, size,
          .replied (.ok (.json 400 (.error "privacy_must_be_unlisted" none))), none, none, none⟩

/-- The request to the limiter, which reads the clock itself. -/
def consumeRequest (call : CreateCall) (now : ℕ) : ConsumeRequest :=
  ⟨.post, now, some (consume config.toConfiguration call.request).ip⟩

def replies (call : CreateCall) (outcome : Except Thrown Reply) : CreateCall :=
  { call with phase := .replied outcome }

def withToken (call : CreateCall) (token : Option Json) : CreateCall :=
  match videoInsert services call.body call.size token with
  | .error e => call.replies (.error e)
  | .ok insert => { call with phase := .inserting, insert := some insert }

end CreateCall

structure Isolate where
  limiter : DailyLimiter.Limiter := ⟨fun _ => none, []⟩
  cachedToken : Option CachedToken := none
  calls : List CreateCall := []
  issued : List Issue := []
  handed : List (Option Json × ℕ) := []

namespace Isolate
open Handler

/-- The steps of the calls. `lost` is a call to the limiter that throws, before or after it was
served; `other_cached` and `other_refreshed` are the token of another route. -/
inductive Event where
  | create (request : IncomingRequest)
  | limited (n now : ℕ)
  | lost (n : ℕ) (served : Option ℕ) (error : Thrown)
  | go_on (n now : ℕ)
  | refreshed (n now : ℕ) (answer : Except Thrown JsonAnswer)
  | inserted (n : ℕ) (id : Text) (answer : Except Thrown InsertAnswer)
  | initialised (n : ℕ) (outcome : Except Thrown Unit)
  | other_cached (now : ℕ)
  | other_refreshed (now : ℕ) (answer : Except Thrown JsonAnswer)

variable (services : Services) (config : Deployment)

def readIssue (now : ℕ) (answer : Except Thrown JsonAnswer) : Except Thrown Issue := do
  let response ← answer
  if isOk response.status then
    let body ← response.json
    let value ← property (some body) "access_token"
    let expires_in ← property (some body) "expires_in"
    let seconds ← services.number expires_in
    return ⟨value, now, seconds⟩
  else .error (oauthError response.status)

/-- What is cached of it; `NaN` is never in the future. -/
def Issue.cached (issue : Issue) : Option CachedToken :=
  issue.seconds.map fun seconds => ⟨issue.value, issue.now + seconds * 1000⟩

def cachedAt (s : Isolate) (now : ℕ) : Option CachedToken :=
  Handler.cached { services with now := (now : ℤ), cachedToken := s.cachedToken }

def setCall (s : Isolate) (n : ℕ) (call : CreateCall) : Isolate :=
  { s with calls := s.calls.set n call }

def serve (s : Isolate) (request : ConsumeRequest) : Isolate :=
  { s with limiter := DailyLimiter.serve config.daily s.limiter request }

def hand (s : Isolate) (token : Option Json) (now : ℕ) : Isolate :=
  { s with handed := s.handed ++ [(token, now)] }

def keep (s : Isolate) (issue : Issue) : Isolate :=
  { s with cachedToken := Issue.cached issue, issued := s.issued ++ [issue] }

def step (s : Isolate) : Event → Option Isolate
  | .create request => some { s with calls := s.calls ++ [CreateCall.begin services config request] }
  | .limited n now => do
    let call ← s.calls[n]?
    match call.phase with
    | .limiting =>
      let request := call.consumeRequest config now
      let s' := s.serve config request
      if isOk (DailyLimiter.fetch config.daily s.limiter.storage request).2.status then
        some (s'.setCall n { call with phase := .allowed, allowance := some request })
      else some (s'.setCall n (call.replies (.ok (.json 429 (.error "daily_upload_limit" none)))))
    | _ => none
  | .lost n served error => do
    let call ← s.calls[n]?
    match call.phase with
    | .limiting =>
      let s' :=
        match served with
        | some now => s.serve config (call.consumeRequest config now)
        | none => s
      some (s'.setCall n (call.replies (.error error)))
    | _ => none
  | .go_on n now => do
    let call ← s.calls[n]?
    match call.phase with
    | .allowed =>
      match s.cachedAt services now with
      | some token => some ((s.hand token.value now).setCall n (call.withToken services token.value))
      | none => some (s.setCall n { call with phase := .refreshing })
    | _ => none
  | .refreshed n now answer => do
    let call ← s.calls[n]?
    match call.phase with
    | .refreshing =>
      match readIssue services now answer with
      | .error e => some (s.setCall n (call.replies (.error e)))
      | .ok issue =>
        some (((s.keep issue).hand issue.value now).setCall n (call.withToken services issue.value))
    | _ => none
  | .inserted n id answer => do
    let call ← s.calls[n]?
    match call.phase with
    | .inserting =>
      match answer with
      | .error e => some (s.setCall n (call.replies (.error e)))
      | .ok youtube =>
        match uploadUrl youtube with
        | none => some (s.setCall n (call.replies
            (.ok (.json 502 (.error "youtube_session_failed" (some youtube.status))))))
        | some url => some (s.setCall n
            { call with phase := .initialising id, init := some ⟨url, call.size⟩ })
    | _ => none
  | .initialised n outcome => do
    let call ← s.calls[n]?
    match call.phase with
    | .initialising id =>
      some (s.setCall n (call.replies
        (outcome.map fun _ => .json 201 (.created id config.limits.chunk 86400))))
    | _ => none
  | .other_cached now => do
    let token ← s.cachedAt services now
    some (s.hand token.value now)
  | .other_refreshed now answer =>
    match readIssue services now answer with
    | .error _ => some s
    | .ok issue => some ((s.keep issue).hand issue.value now)

def machine : Machine Isolate Event := ⟨{}, step services config⟩

variable {services} {config}

/-- The steps of the token are those of `accessToken`, with the cache that the isolate has then. -/
theorem accessToken_eq (s : Isolate) (now : ℕ) :
    accessToken { services with now := (now : ℤ), cachedToken := s.cachedToken }
        config.toConfiguration =
      match s.cachedAt services now with
      | some token => .ok token.value
      | none => Issue.value <$> readIssue services now (services.oauth (form config.toConfiguration)) := by
  simp only [accessToken, cachedAt]
  cases cached { services with now := (now : ℤ), cachedToken := s.cachedToken } with
  | some token => rfl
  | none =>
    simp only [readIssue]
    cases services.oauth (form config.toConfiguration) with
    | error e => rfl
    | ok response =>
      simp only [ok_bind]
      split
      · cases response.json with
        | error e => rfl
        | ok body =>
          simp only [ok_bind, readToken]
          cases property (some body) "access_token" with
          | error e => rfl
          | ok value =>
            simp only [ok_bind]
            cases property (some body) "expires_in" with
            | error e => rfl
            | ok expires_in =>
              simp only [ok_bind]
              cases services.number expires_in <;> rfl
      · rfl

/-- A call begins as `createUpload` does. -/
theorem createUpload_eq (request : IncomingRequest) :
    createUpload services config.toConfiguration request =
      match (CreateCall.begin services config request).phase with
      | .replied outcome => outcome
      | _ => createSized services config.toConfiguration request
          (CreateCall.begin services config request).body
          (CreateCall.begin services config request).size := by
  simp only [createUpload, CreateCall.begin]
  cases request.json with
  | error e => rfl
  | ok body =>
    simp only [ok_bind]
    cases readSize services body with
    | error e => rfl
    | ok read =>
      simp only [ok_bind]
      cases validSize config.limits read with
      | none => rfl
      | some size =>
        by_cases hunlisted : unlisted body = true
        · simp only [hunlisted, if_true]
        · simp only [hunlisted, createSized]
          rfl

inductive Stepped (services : Services) (config : Deployment) (s : Isolate) : Event → Isolate → Prop
  | create {request : IncomingRequest} :
      Stepped services config s (.create request)
        { s with calls := s.calls ++ [CreateCall.begin services config request] }
  | allowed {n now : ℕ} {call : CreateCall} (hn : s.calls[n]? = some call)
      (hphase : call.phase = .limiting)
      (hok : isOk (DailyLimiter.fetch config.daily s.limiter.storage
        (call.consumeRequest config now)).2.status = true) :
      Stepped services config s (.limited n now)
        ((s.serve config (call.consumeRequest config now)).setCall n
          { call with
            phase := .allowed, allowance := some (call.consumeRequest config now) })
  | denied {e : Event} {n now : ℕ} {call : CreateCall} {outcome : Except Thrown Reply}
      (hn : s.calls[n]? = some call) :
      Stepped services config s e
        ((s.serve config (call.consumeRequest config now)).setCall n (call.replies outcome))
  | replied {e : Event} {n : ℕ} {call : CreateCall} {outcome : Except Thrown Reply}
      (hn : s.calls[n]? = some call) :
      Stepped services config s e (s.setCall n (call.replies outcome))
  | cached {n now : ℕ} {call : CreateCall} {token : CachedToken} (hn : s.calls[n]? = some call)
      (hphase : call.phase = .allowed) (hcached : s.cachedAt services now = some token) :
      Stepped services config s (.go_on n now)
        ((s.hand token.value now).setCall n (call.withToken services token.value))
  | waits {n now : ℕ} {call : CreateCall} (hn : s.calls[n]? = some call)
      (hphase : call.phase = .allowed) :
      Stepped services config s (.go_on n now) (s.setCall n { call with phase := .refreshing })
  | refreshed {n now : ℕ} {answer : Except Thrown JsonAnswer} {call : CreateCall} {issue : Issue}
      (hn : s.calls[n]? = some call) (hphase : call.phase = .refreshing)
      (hissue : readIssue services now answer = .ok issue) :
      Stepped services config s (.refreshed n now answer)
        (((s.keep issue).hand issue.value now).setCall n (call.withToken services issue.value))
  | initialising {n : ℕ} {id url : Text} {answer : Except Thrown InsertAnswer} {call : CreateCall}
      (hn : s.calls[n]? = some call) (hphase : call.phase = .inserting) :
      Stepped services config s (.inserted n id answer)
        (s.setCall n { call with phase := .initialising id, init := some ⟨url, call.size⟩ })
  | other_cached {now : ℕ} {token : CachedToken} (hcached : s.cachedAt services now = some token) :
      Stepped services config s (.other_cached now) (s.hand token.value now)
  | other_refreshed {now : ℕ} {answer : Except Thrown JsonAnswer} {issue : Issue}
      (hissue : readIssue services now answer = .ok issue) :
      Stepped services config s (.other_refreshed now answer)
        ((s.keep issue).hand issue.value now)
  | other_failed {now : ℕ} {answer : Except Thrown JsonAnswer} :
      Stepped services config s (.other_refreshed now answer) s

theorem step_cases {s t : Isolate} {e : Event} (h : s.step services config e = some t) :
    Stepped services config s e t := by
  cases e with
  | create request =>
    cases h
    exact .create
  | limited n now =>
    obtain ⟨call, hn, h⟩ := Option.bind_eq_some_iff.mp h
    split at h
    · next hphase =>
      dsimp only at h
      split_ifs at h with hok <;> cases h
      · exact .allowed hn hphase hok
      · exact .denied hn
    · cases h
  | lost n served error =>
    obtain ⟨call, hn, h⟩ := Option.bind_eq_some_iff.mp h
    split at h
    · cases served <;> cases h
      · exact .replied hn
      · exact .denied hn
    · cases h
  | go_on n now =>
    obtain ⟨call, hn, h⟩ := Option.bind_eq_some_iff.mp h
    split at h
    · next hphase =>
      split at h <;> cases h
      · next token hcached => exact .cached hn hphase hcached
      · exact .waits hn hphase
    · cases h
  | refreshed n now answer =>
    obtain ⟨call, hn, h⟩ := Option.bind_eq_some_iff.mp h
    split at h
    · next hphase =>
      split at h <;> cases h
      · exact .replied hn
      · next issue hissue => exact .refreshed hn hphase hissue
    · cases h
  | inserted n id answer =>
    obtain ⟨call, hn, h⟩ := Option.bind_eq_some_iff.mp h
    split at h
    · next hphase =>
      split at h
      · cases h
        exact .replied hn
      · split at h <;> cases h
        · exact .replied hn
        · exact .initialising hn hphase
    · cases h
  | initialised n outcome =>
    obtain ⟨call, hn, h⟩ := Option.bind_eq_some_iff.mp h
    split at h
    · cases h
      exact .replied hn
    · cases h
  | other_cached now =>
    obtain ⟨token, hcached, h⟩ := Option.bind_eq_some_iff.mp h
    cases h
    exact .other_cached hcached
  | other_refreshed now answer =>
    simp only [step] at h
    split at h <;> cases h
    · exact .other_failed
    · next issue hissue => exact .other_refreshed hissue

/-! ## Two calls, of which the second finds the token of the first -/

def sample_services : Services where
  now := 0
  cachedToken := none
  number := fun
    | some (.scalar (.int n)) => .ok (some n.val)
    | _ => .ok none
  string := fun
    | some (.string s) => .ok (Utf16.encode ((Utf8.decode s).getD []))
    | _ => .ok (Utf16.units "undefined")
  oauth := fun _ => .error []
  channels := fun _ => .error []
  limiter := fun _ => .error []
  insert := fun _ => .error []
  newUniqueId := []
  init := fun _ _ => .ok ()
  idFromString := .ok
  setHeader := fun _ => .ok ()
  session := fun _ _ _ => .error []

def sample_deployment : Deployment where
  toConfiguration := ⟨⟨some (Utf16.units "key")⟩, [], [], [], ⟨8388608, 4294967296, 10, 90⟩⟩
  perIp_safe := by decide
  global_safe := by decide

def sample_request : IncomingRequest where
  method := text "POST"
  pathname := text "/v1/uploads"
  x_grecord_key := some (Utf16.units "key")
  cf_connecting_ip := some (text "10.0.0.1")
  content_range := none
  content_length := 44
  json := .ok (.object [(Utf8.bytes "size", Json.ofUInt32 3),
    (Utf8.bytes "privacyStatus", .string (Utf8.bytes "unlisted"))])
  body := []

def sample_token : JsonAnswer :=
  ⟨200, .ok (.object [(Utf8.bytes "access_token", .string (Utf8.bytes "token")),
    (Utf8.bytes "expires_in", Json.ofUInt32 3600)])⟩

def sample_run : List Event :=
  [.create sample_request, .create sample_request, .limited 1 1000, .limited 0 1001, .go_on 0 1002,
    .refreshed 0 2000 (.ok sample_token), .inserted 0 (text "id") (.ok ⟨200, some (text "url")⟩),
    .go_on 1 2001, .initialised 0 (.ok ())]

def sampled : Isolate := ((machine sample_services sample_deployment).run sample_run).getD {}

theorem run_sample : (machine sample_services sample_deployment).run sample_run = some sampled := by
  have haccepted : ((machine sample_services sample_deployment).run sample_run).isSome = true := by
    decide +kernel
  obtain ⟨s, hs⟩ := Option.isSome_iff_exists.mp haccepted
  rw [sampled, hs]
  rfl

/-! ## Tokens -/

theorem post_videoInsert (body : Json) (size : ℕ) (token : Option Json) :
    Post (fun _ => True) (videoInsert services body size token) fun insert =>
      services.string token = .ok insert.token ∧ insert.size = size := by
  refine Post.bind fun title => Post.bind fun description => ?_
  cases services.string token with
  | error e => trivial
  | ok token => exact ⟨rfl, rfl⟩

theorem post_readIssue (now : ℕ) (answer : Except Thrown JsonAnswer) :
    Post (fun _ => True) (readIssue services now answer) fun issue => issue.now = now := by
  refine Post.bind fun response => ?_
  split
  · exact Post.bind fun body => Post.bind fun value => Post.bind fun expires_in =>
      Post.bind fun seconds => rfl
  · trivial

/-- A token is handed out when it was issued, or with more than a minute left. -/
def Lasts (issue : Issue) (now : ℕ) : Prop :=
  issue.now = now ∨
    ∃ seconds, issue.seconds = some seconds ∧ (now : ℚ) + 60000 < issue.now + seconds * 1000

structure Tokens (services : Services) (s : Isolate) : Prop where
  cached : ∀ token ∈ s.cachedToken, ∃ issue ∈ s.issued, Issue.cached issue = some token
  handed : ∀ h ∈ s.handed, ∃ issue ∈ s.issued, issue.value = h.1 ∧ Lasts issue h.2
  sent : ∀ call ∈ s.calls, ∀ insert ∈ call.insert,
    ∃ h ∈ s.handed, services.string h.1 = .ok insert.token

namespace Tokens
variable {s : Isolate}

theorem setCall (h : Tokens services s) {n : ℕ} {call new : CreateCall}
    (hn : s.calls[n]? = some call) (hinsert : new.insert = call.insert) :
    Tokens services (s.setCall n new) := by
  refine ⟨h.cached, h.handed, ?_⟩
  intro other hother insert hmem
  rcases List.mem_or_eq_of_mem_set hother with hold | rfl
  · exact h.sent other hold insert hmem
  · rw [hinsert] at hmem
    exact h.sent call (List.mem_of_getElem? hn) insert hmem

theorem hand (h : Tokens services s) {issue : Issue} (hissue : issue ∈ s.issued) {now : ℕ}
    (hlasts : Lasts issue now) : Tokens services (s.hand issue.value now) := by
  refine ⟨h.cached, ?_, ?_⟩
  · intro handed hmem
    rcases List.mem_append.mp hmem with hold | hnew
    · exact h.handed handed hold
    · rw [List.mem_singleton.mp hnew]
      exact ⟨issue, hissue, rfl, hlasts⟩
  · intro call hcall insert hmem
    obtain ⟨handed, hhanded, hstring⟩ := h.sent call hcall insert hmem
    exact ⟨handed, List.mem_append_left _ hhanded, hstring⟩

theorem withToken (h : Tokens services s) {n now : ℕ} {call : CreateCall} {token : Option Json}
    (hn : s.calls[n]? = some call) (hhanded : (token, now) ∈ s.handed) :
    Tokens services (s.setCall n (call.withToken services token)) := by
  rw [CreateCall.withToken]
  cases hinsert : videoInsert services call.body call.size token with
  | error e => exact h.setCall hn rfl
  | ok insert =>
    refine ⟨h.cached, h.handed, ?_⟩
    intro other hother sent hsent
    rcases List.mem_or_eq_of_mem_set hother with hold | rfl
    · exact h.sent other hold sent hsent
    · cases hsent
      exact ⟨(token, now), hhanded, ((post_videoInsert _ _ _).of_ok hinsert).1⟩

theorem keep (h : Tokens services s) (issue : Issue) : Tokens services (s.keep issue) := by
  refine ⟨?_, ?_, h.sent⟩
  · exact fun token htoken => ⟨issue, List.mem_append_right _ (List.mem_singleton_self _), htoken⟩
  · intro handed hmem
    obtain ⟨old, hold, hlasts⟩ := h.handed handed hmem
    exact ⟨old, List.mem_append_left _ hold, hlasts⟩

/-- What the cache still gives was issued for longer. -/
theorem exists_issue (h : Tokens services s) {now : ℕ} {token : CachedToken}
    (hcached : s.cachedAt services now = some token) :
    ∃ issue ∈ s.issued, issue.value = token.value ∧ Lasts issue now := by
  obtain ⟨htoken, hleft⟩ := Option.filter_eq_some_iff.mp hcached
  obtain ⟨issue, hissue, hexpiry⟩ := h.cached token htoken
  obtain ⟨seconds, hseconds, rfl⟩ := Option.map_eq_some_iff.mp hexpiry
  exact ⟨issue, hissue, rfl, .inr ⟨seconds, hseconds, of_decide_eq_true hleft⟩⟩

theorem step (h : Tokens services s) {e : Event} {t : Isolate}
    (hstep : Stepped services config s e t) : Tokens services t := by
  have hserved (request : ConsumeRequest) : Tokens services (s.serve config request) :=
    ⟨h.cached, h.handed, h.sent⟩
  have hfresh {issue : Issue} {now : ℕ} {answer : Except Thrown JsonAnswer}
      (hissue : readIssue services now answer = .ok issue) :
      Tokens services ((s.keep issue).hand issue.value now) :=
    (h.keep issue).hand (List.mem_append_right _ (List.mem_singleton_self _))
      (.inl ((post_readIssue _ _).of_ok hissue))
  cases hstep with
  | create =>
    refine ⟨h.cached, h.handed, ?_⟩
    intro call hcall insert hmem
    rcases List.mem_append.mp hcall with hold | hnew
    · exact h.sent call hold insert hmem
    · have hnone (request : IncomingRequest) : (CreateCall.begin services config request).insert = none := by
        simp only [CreateCall.begin]
        split
        · rfl
        · split
          · rfl
          · split
            · rfl
            · split <;> rfl
      rw [List.mem_singleton.mp hnew, hnone] at hmem
      cases hmem
  | allowed hn hphase hok => exact (hserved _).setCall hn rfl
  | denied hn => exact (hserved _).setCall hn rfl
  | replied hn => exact h.setCall hn rfl
  | cached hn hphase hcached =>
    obtain ⟨issue, hissue, hvalue, hlasts⟩ := h.exists_issue hcached
    rw [← hvalue]
    exact (h.hand hissue hlasts).withToken hn (List.mem_append_right _ (List.mem_singleton_self _))
  | waits hn hphase => exact h.setCall hn rfl
  | refreshed hn hphase hissue =>
    exact (hfresh hissue).withToken hn (List.mem_append_right _ (List.mem_singleton_self _))
  | initialising hn hphase => exact h.setCall hn rfl
  | other_cached hcached =>
    obtain ⟨issue, hissue, hvalue, hlasts⟩ := h.exists_issue hcached
    rw [← hvalue]
    exact h.hand hissue hlasts
  | other_refreshed hissue => exact hfresh hissue
  | other_failed => exact h

end Tokens

theorem tokens_run {s : Isolate} {es : List Event}
    (hrun : (machine services config).run es = some s) : Tokens services s :=
  Machine.invariant (fun s e t h hstep => h.step (step_cases hstep)) hrun
    ⟨by simp [machine], by simp [machine], by simp [machine]⟩

/-- However the calls are interleaved, a request to YouTube carries a token that was handed out to
its call, and a token is handed out in the moment it was issued, or with more than a minute left. -/
theorem sends_lasting {s : Isolate} {es : List Event}
    (hrun : (machine services config).run es = some s) :
    (∀ call ∈ s.calls, ∀ insert ∈ call.insert, ∃ issue ∈ s.issued, ∃ now,
      (issue.value, now) ∈ s.handed ∧ Lasts issue now ∧
        services.string issue.value = .ok insert.token) ∧
    ∀ h ∈ s.handed, ∃ issue ∈ s.issued, issue.value = h.1 ∧ Lasts issue h.2 := by
  have htokens := tokens_run hrun
  refine ⟨fun call hcall insert hinsert => ?_, htokens.handed⟩
  obtain ⟨h, hhanded, hstring⟩ := htokens.sent call hcall insert hinsert
  obtain ⟨issue, hissue, hvalue, hlasts⟩ := htokens.handed h hhanded
  rw [← hvalue] at hstring
  exact ⟨issue, hissue, h.2, by rw [hvalue]; exact hhanded, hlasts, hstring⟩

theorem sends_lasting_sample :
    (∀ call ∈ sampled.calls, ∀ insert ∈ call.insert, ∃ issue ∈ sampled.issued, ∃ now,
      (issue.value, now) ∈ sampled.handed ∧ Lasts issue now ∧
        sample_services.string issue.value = .ok insert.token) ∧
    ∀ h ∈ sampled.handed, ∃ issue ∈ sampled.issued, issue.value = h.1 ∧ Lasts issue h.2 :=
  sends_lasting run_sample

end Isolate

/-! ## Allowances -/

namespace CreateCall
open Handler
variable {services : Services} {config : Deployment}

/-- The size of the call is the one its request asks for, within the limit, and the request asks for
an unlisted video. -/
def Admitted (services : Services) (config : Deployment) (call : CreateCall) : Prop :=
  call.request.json = .ok call.body ∧ readSize services call.body = .ok (some (call.size : ℚ)) ∧
    0 < call.size ∧ call.size ≤ config.limits.video ∧ unlisted call.body = true

def InPhase (call : CreateCall) : CallPhase → Prop
  | .limiting => call.allowance = none ∧ call.insert = none ∧ call.init = none
  | .allowed | .refreshing => call.allowance.isSome = true ∧ call.insert = none ∧ call.init = none
  | .inserting => call.insert.isSome = true ∧ call.init = none
  | .initialising _ => call.init.isSome = true
  | .replied _ => True

structure Sound (services : Services) (config : Deployment) (call : CreateCall) : Prop where
  inPhase : call.InPhase call.phase
  admitted : call.phase = .limiting ∨ call.allowance.isSome = true → call.Admitted services config
  allowance : ∀ allowance ∈ call.allowance,
    ∃ now, allowance = call.consumeRequest config now
  insert : ∀ insert ∈ call.insert, call.allowance.isSome = true ∧ insert.size = call.size
  init : ∀ init ∈ call.init, call.insert.isSome = true ∧ init.total = call.size

theorem mem_validSize {limits : UploadLimits} {read : Option ℚ} {size : ℕ}
    (h : validSize limits read = some size) :
    read = some (size : ℚ) ∧ 0 < size ∧ size ≤ limits.video := by
  cases read with
  | none => cases h
  | some n =>
    simp only [validSize] at h
    split_ifs at h with hwithin
    obtain ⟨hint, -, hpos, hle⟩ := hwithin
    cases h
    have hnat : ((n.num.toNat : ℤ) : ℚ) = n := by
      rw [Int.toNat_of_nonneg hpos.le]
      exact (Rat.eq_num_of_isInt hint).symm
    exact ⟨congrArg some hnat.symm, by omega⟩

theorem sound_begin (request : IncomingRequest) :
    (begin services config request).Sound services config := by
  have hreplied (body : Json) (size : ℕ) (outcome : Except Thrown Reply) :
      (⟨request, body, size, .replied outcome, none, none, none⟩ : CreateCall).Sound services config :=
    ⟨trivial, (by rintro (h | h) <;> cases h), nofun, nofun, nofun⟩
  simp only [begin]
  split
  · exact hreplied _ _ _
  · next body hbody =>
    split
    · exact hreplied _ _ _
    · next read hread =>
      split
      · exact hreplied _ _ _
      · next size hsize =>
        split
        · next hunlisted =>
          obtain ⟨rfl, hpos, hle⟩ := mem_validSize hsize
          exact ⟨⟨rfl, rfl, rfl⟩, fun _ => ⟨hbody, hread, hpos, hle, hunlisted⟩, nofun, nofun, nofun⟩
        · exact hreplied _ _ _

namespace Sound
variable {call : CreateCall}

theorem replies (h : call.Sound services config) (outcome : Except Thrown Reply) :
    (call.replies outcome).Sound services config := by
  refine ⟨trivial, ?_, h.allowance, h.insert, h.init⟩
  rintro (hphase | hallowance)
  · cases hphase
  · exact h.admitted (.inr hallowance)

theorem withToken (h : call.Sound services config) (hallowance : call.allowance.isSome = true)
    (hinit : call.init = none) (token : Option Json) :
    (call.withToken services token).Sound services config := by
  rw [CreateCall.withToken]
  cases hinsert : videoInsert services call.body call.size token with
  | error e => exact h.replies _
  | ok insert =>
    refine ⟨⟨rfl, hinit⟩, fun _ => h.admitted (.inr hallowance), h.allowance, ?_, ?_⟩
    · rintro sent hsent
      cases hsent
      exact ⟨hallowance, ((Isolate.post_videoInsert _ _ _).of_ok hinsert).2⟩
    · intro init hmem
      rw [hinit] at hmem
      cases hmem

end Sound

theorem allowance_withToken (call : CreateCall) (token : Option Json) :
    (call.withToken services token).allowance = call.allowance := by
  rw [withToken]
  split <;> rfl

/-- A call whose request to YouTube was sent on an allowance that meets a condition. -/
def sentOn (p : ConsumeRequest → Bool) (call : CreateCall) : Bool :=
  call.insert.isSome && call.allowance.any p

end CreateCall

namespace Isolate
open Handler
variable {services : Services} {config : Deployment}

/-- The limiter has allowed as many requests as calls go on it. -/
structure Charged (services : Services) (config : Deployment) (s : Isolate) : Prop where
  limiter : ∃ requests, s.limiter = DailyLimiter.after config.daily requests
  sound : ∀ call ∈ s.calls, call.Sound services config
  charged : ∀ p, s.calls.countP (fun call => call.allowance.any p) ≤
    DailyLimiter.allowed s.limiter.answered p

theorem fetch_of_isOk {limits : Limits} {storage : DailyLimiter.Storage} {request : ConsumeRequest}
    (h : isOk (DailyLimiter.fetch limits storage request).2.status = true) :
    (DailyLimiter.fetch limits storage request).2 = ⟨200, none, some true⟩ := by
  revert h
  simp only [DailyLimiter.fetch]
  split
  · rintro ⟨⟩
  · split
    · exact fun _ => rfl
    · rintro ⟨⟩

/-- A refusal changes no count of allowed requests, and no request lowers one. -/
theorem allowed_le_serve (limits : Limits) (limiter : DailyLimiter.Limiter)
    (request : ConsumeRequest) (p : ConsumeRequest → Bool) :
    DailyLimiter.allowed limiter.answered p ≤
      DailyLimiter.allowed (DailyLimiter.serve limits limiter request).answered p := by
  simp only [DailyLimiter.allowed, DailyLimiter.serve, List.countP_append]
  exact Nat.le_add_right ..

theorem allowed_serve {limits : Limits} {limiter : DailyLimiter.Limiter} {request : ConsumeRequest}
    (h : isOk (DailyLimiter.fetch limits limiter.storage request).2.status = true)
    (p : ConsumeRequest → Bool) :
    DailyLimiter.allowed (DailyLimiter.serve limits limiter request).answered p =
      DailyLimiter.allowed limiter.answered p + if p request then 1 else 0 := by
  simp only [DailyLimiter.serve]
  rw [fetch_of_isOk h, DailyLimiter.allowed_append_allowed]

namespace Charged
variable {s : Isolate}

theorem serve (h : Charged services config s) (request : ConsumeRequest) :
    Charged services config (s.serve config request) := by
  obtain ⟨requests, hrequests⟩ := h.limiter
  refine ⟨⟨requests ++ [request], ?_⟩, h.sound, fun p => (h.charged p).trans ?_⟩
  · rw [DailyLimiter.after, List.foldl_append, ← DailyLimiter.after, ← hrequests]
    rfl
  · exact allowed_le_serve _ _ _ p

theorem setCall (h : Charged services config s) {n : ℕ} {call new : CreateCall}
    (hn : s.calls[n]? = some call) (hsound : new.Sound services config)
    (hallowance : new.allowance = call.allowance) : Charged services config (s.setCall n new) := by
  refine ⟨h.limiter, ?_, fun p => ?_⟩
  · intro other hother
    rcases List.mem_or_eq_of_mem_set hother with hold | rfl
    · exact h.sound other hold
    · exact hsound
  · have hcount := Algorithms.countP_set_add hn new fun call => call.allowance.any p
    rw [hallowance, Nat.add_right_cancel_iff] at hcount
    exact hcount.le.trans (h.charged p)

theorem hand (h : Charged services config s) (token : Option Json) (now : ℕ) :
    Charged services config (s.hand token now) := ⟨h.limiter, h.sound, h.charged⟩

theorem keep (h : Charged services config s) (issue : Issue) : Charged services config (s.keep issue) :=
  ⟨h.limiter, h.sound, h.charged⟩

theorem step (h : Charged services config s) {e : Event} {t : Isolate}
    (hstep : Stepped services config s e t) : Charged services config t := by
  have hcall {n : ℕ} {call : CreateCall} (hn : s.calls[n]? = some call) : call.Sound services config :=
    h.sound call (List.mem_of_getElem? hn)
  cases hstep with
  | create =>
    refine ⟨h.limiter, ?_, fun p => ?_⟩
    · intro call hmem
      rcases List.mem_append.mp hmem with hold | hnew
      · exact h.sound call hold
      · rw [List.mem_singleton.mp hnew]
        exact CreateCall.sound_begin _
    · have hnone (request : IncomingRequest) :
          (CreateCall.begin services config request).allowance = none := by
        simp only [CreateCall.begin]
        split
        · rfl
        · split
          · rfl
          · split
            · rfl
            · split <;> rfl
      rw [List.countP_append, List.countP_singleton, hnone]
      exact h.charged p
  | @allowed n now call hn hphase hok =>
    have hserved := h.serve (call.consumeRequest config now)
    have hsound := hcall hn
    have hin := hsound.inPhase
    rw [hphase] at hin
    refine ⟨hserved.limiter, ?_, fun p => ?_⟩
    · intro other hother
      rcases List.mem_or_eq_of_mem_set hother with hold | rfl
      · exact h.sound other hold
      · refine ⟨⟨rfl, hin.2⟩, fun _ => hsound.admitted (.inl hphase), ?_, ?_, ?_⟩
        · rintro allowance hmem
          cases hmem
          exact ⟨now, rfl⟩
        · intro insert hmem
          rw [hin.2.1] at hmem
          cases hmem
        · intro init hmem
          rw [hin.2.2] at hmem
          cases hmem
    · have hcount := Algorithms.countP_set_add hn { call with
        phase := .allowed, allowance := some (call.consumeRequest config now) }
        fun call => call.allowance.any p
      rw [hin.1] at hcount
      have hallowed := allowed_serve hok p
      have hcharged := h.charged p
      exact (hcount.trans_le (Nat.add_le_add_right hcharged _)).trans hallowed.ge
  | denied hn => exact (h.serve _).setCall hn ((hcall hn).replies _) rfl
  | replied hn => exact h.setCall hn ((hcall hn).replies _) rfl
  | cached hn hphase hcached =>
    have hin := (hcall hn).inPhase
    rw [hphase] at hin
    exact (h.hand _ _).setCall hn ((hcall hn).withToken hin.1 hin.2.2 _)
      (CreateCall.allowance_withToken _ _)
  | waits hn hphase =>
    have hin := (hcall hn).inPhase
    rw [hphase] at hin
    refine h.setCall hn ⟨hin, ?_, (hcall hn).allowance, (hcall hn).insert, (hcall hn).init⟩ rfl
    exact fun _ => (hcall hn).admitted (.inr hin.1)
  | refreshed hn hphase hissue =>
    have hin := (hcall hn).inPhase
    rw [hphase] at hin
    exact ((h.keep _).hand _ _).setCall hn ((hcall hn).withToken hin.1 hin.2.2 _)
      (CreateCall.allowance_withToken _ _)
  | initialising hn hphase =>
    have hin := (hcall hn).inPhase
    rw [hphase] at hin
    obtain ⟨insert, hinsert⟩ := Option.isSome_iff_exists.mp hin.1
    have hallowance := ((hcall hn).insert insert hinsert).1
    refine h.setCall hn ⟨rfl, fun _ => (hcall hn).admitted (.inr hallowance),
      (hcall hn).allowance, (hcall hn).insert, ?_⟩ rfl
    rintro init hmem
    cases hmem
    exact ⟨hin.1, rfl⟩
  | other_cached hcached => exact h.hand _ _
  | other_refreshed hissue => exact (h.keep _).hand _ _
  | other_failed => exact h

end Charged

theorem charged_run {s : Isolate} {es : List Event}
    (hrun : (machine services config).run es = some s) : Charged services config s := by
  refine Machine.invariant (fun s e t h hstep => h.step (step_cases hstep)) hrun ?_
  exact ⟨⟨[], rfl⟩, by simp [machine], fun p => Nat.zero_le _⟩

end Isolate
end GambitRecord.Broker
