import GambitRecord.Broker.Handler

/-! # Failing steps

At which steps a route of the broker can fail, and what becomes of the failure.
Only `/v1/channel` awaits its steps within the `try`.
-/

namespace GambitRecord.Broker
open Library Library.DigitText

namespace Handler
variable (services : Services) (config : Configuration) (request : IncomingRequest)

/-- Without a token that lasts: the refresh is out of reach or refused, or its answer is no JSON or
none with a token. -/
inductive TokenFails : Thrown → Prop where
  | unreachable {e : Thrown} (hcached : cached services = none)
      (hoauth : services.oauth (form config) = .error e) : TokenFails e
  | refused {response : JsonAnswer} (hcached : cached services = none)
      (hoauth : services.oauth (form config) = .ok response)
      (hstatus : isOk response.status = false) : TokenFails (oauthError response.status)
  | unparsable {response : JsonAnswer} {e : Thrown} (hcached : cached services = none)
      (hoauth : services.oauth (form config) = .ok response)
      (hstatus : isOk response.status = true) (hjson : response.json = .error e) : TokenFails e
  | unreadable {response : JsonAnswer} {body : Json} {e : Thrown} (hcached : cached services = none)
      (hoauth : services.oauth (form config) = .ok response)
      (hstatus : isOk response.status = true) (hjson : response.json = .ok body)
      (hread : readToken services body = .error e) : TokenFails e

def Admitted : Prop :=
  ∃ status, services.limiter (consume config request) = .ok status ∧ isOk status = true

inductive SizedFails (body : Json) (size : ℕ) : Thrown → Prop where
  | limiter {e : Thrown} (hlimiter : services.limiter (consume config request) = .error e) :
      SizedFails body size e
  | token {e : Thrown} (hadmitted : Admitted services config request)
      (htoken : TokenFails services config e) : SizedFails body size e
  | strings {token : Option Json} {e : Thrown} (hadmitted : Admitted services config request)
      (htoken : accessToken services config = .ok token)
      (hinsert : videoInsert services body size token = .error e) : SizedFails body size e
  | youtube {token : Option Json} {insert : VideoInsert} {e : Thrown}
      (hadmitted : Admitted services config request)
      (htoken : accessToken services config = .ok token)
      (hinsert : videoInsert services body size token = .ok insert)
      (hyoutube : services.insert insert = .error e) : SizedFails body size e
  | session {token : Option Json} {insert : VideoInsert} {youtube : InsertAnswer} {url : Text}
      {e : Thrown} (hadmitted : Admitted services config request)
      (htoken : accessToken services config = .ok token)
      (hinsert : videoInsert services body size token = .ok insert)
      (hyoutube : services.insert insert = .ok youtube) (hurl : uploadUrl youtube = some url)
      (hsession : services.init services.newUniqueId ⟨url, size⟩ = .error e) :
      SizedFails body size e

inductive CreateFails : Thrown → Prop where
  | unparsable {e : Thrown} (hjson : request.json = .error e) : CreateFails e
  | size {body : Json} {e : Thrown} (hjson : request.json = .ok body)
      (hsize : readSize services body = .error e) : CreateFails e
  | sized {body : Json} {sent : Option ℚ} {size : ℕ} {e : Thrown} (hjson : request.json = .ok body)
      (hsent : readSize services body = .ok sent)
      (hvalid : validSize config.limits sent = some size) (hunlisted : unlisted body = true)
      (hsized : SizedFails services config request body size e) : CreateFails e

/-- An id that is none is caught in `routeUpload` itself. -/
inductive RouteFails (idText : Text) (cancel : Bool) : Thrown → Prop where
  | token {id : Text} {e : Thrown} (hid : services.idFromString idText = .ok id)
      (htoken : TokenFails services config e) : RouteFails idText cancel e
  | string {id : Text} {token : Option Json} {e : Thrown}
      (hid : services.idFromString idText = .ok id)
      (htoken : accessToken services config = .ok token)
      (hstring : services.string token = .error e) : RouteFails idText cancel e
  | header {id : Text} {token : Option Json} {header : JsString} {e : Thrown}
      (hid : services.idFromString idText = .ok id)
      (htoken : accessToken services config = .ok token)
      (hstring : services.string token = .ok header)
      (hset : services.setHeader header = .error e) : RouteFails idText cancel e
  | session {id : Text} {token : Option Json} {header : JsString} {e : Thrown}
      (hid : services.idFromString idText = .ok id)
      (htoken : accessToken services config = .ok token)
      (hstring : services.string token = .ok header) (hset : services.setHeader header = .ok ())
      (hsession : services.session id header (sessionRequest config request cancel) = .error e) :
      RouteFails idText cancel e

inductive ChannelFails : Thrown → Prop where
  | token {e : Thrown} (htoken : TokenFails services config e) : ChannelFails e
  | string {token : Option Json} {e : Thrown} (htoken : accessToken services config = .ok token)
      (hstring : services.string token = .error e) : ChannelFails e
  | youtube {token : Option Json} {bearer : JsString} {e : Thrown}
      (htoken : accessToken services config = .ok token)
      (hstring : services.string token = .ok bearer)
      (hyoutube : services.channels bearer = .error e) : ChannelFails e
  | unparsable {token : Option Json} {bearer : JsString} {response : JsonAnswer} {e : Thrown}
      (htoken : accessToken services config = .ok token)
      (hstring : services.string token = .ok bearer)
      (hyoutube : services.channels bearer = .ok response)
      (hstatus : isOk response.status = true) (hjson : response.json = .error e) : ChannelFails e
  | unreadable {token : Option Json} {bearer : JsString} {response : JsonAnswer} {body : Json}
      {e : Thrown} (htoken : accessToken services config = .ok token)
      (hstring : services.string token = .ok bearer)
      (hyoutube : services.channels bearer = .ok response)
      (hstatus : isOk response.status = true) (hjson : response.json = .ok body)
      (hchannel : firstChannel body = .error e) : ChannelFails e

/-- A step of the route fails that the request gets to. -/
inductive Fails : Route → Thrown → Prop where
  | channel {e : Thrown} (h : ChannelFails services config e) : Fails .channel e
  | createUpload {e : Thrown} (h : CreateFails services config request e) : Fails .createUpload e
  | routeUpload {id : Text} {cancel : Bool} {e : Thrown}
      (h : RouteFails services config request id cancel e) : Fails (.routeUpload id cancel) e

/-- The promise is not rejected, and a failing step is answered with 503. -/
structure Resolves : Prop where
  resolved : ∃ reply, fetch services config request = .ok reply
  answered : ∀ e,
    Fails services config request (Authentication.fetch request.toHttpRequest config.env) e →
      fetch services config request = .ok (unavailable e)

variable {services config request}

theorem accessToken_eq_error {e : Thrown} :
    accessToken services config = .error e ↔ TokenFails services config e := by
  constructor
  · intro h
    unfold accessToken at h
    cases hcached : cached services with
    | some token => simp [hcached] at h
    | none =>
      rw [hcached, bind_eq_error] at h
      rcases h with hoauth | ⟨response, hoauth, h⟩
      · exact .unreachable hcached hoauth
      · split_ifs at h with hok
        · rcases bind_eq_error.mp h with hjson | ⟨body, hjson, hread⟩
          · exact .unparsable hcached hoauth hok hjson
          · exact .unreadable hcached hoauth hok hjson hread
        · cases h
          exact .refused hcached hoauth (Bool.eq_false_iff.mpr hok)
  · intro h
    cases h with
    | unreachable hcached hoauth => simp [accessToken, hcached, hoauth, error_bind]
    | refused hcached hoauth hok => simp [accessToken, hcached, hoauth, hok, ok_bind]
    | unparsable hcached hoauth hok hjson =>
      simp [accessToken, hcached, hoauth, hok, hjson, ok_bind, error_bind]
    | unreadable hcached hoauth hok hjson hread =>
      simp [accessToken, hcached, hoauth, hok, hjson, hread, ok_bind]

theorem createSized_eq_error {body : Json} {size : ℕ} {e : Thrown} :
    createSized services config request body size = .error e ↔
      unlisted body = true ∧ SizedFails services config request body size e := by
  unfold createSized
  by_cases hunlisted : unlisted body = true
  · rw [if_pos hunlisted, and_iff_right hunlisted]
    constructor
    · intro h
      rcases bind_eq_error.mp h with hlimiter | ⟨status, hstatus, h⟩
      · exact .limiter hlimiter
      split_ifs at h with hok
      · have hadmitted : Admitted services config request := ⟨status, hstatus, hok⟩
        rcases bind_eq_error.mp h with htoken | ⟨token, htoken, h⟩
        · exact .token hadmitted (accessToken_eq_error.mp htoken)
        rcases bind_eq_error.mp h with hinsert | ⟨insert, hinsert, h⟩
        · exact .strings hadmitted htoken hinsert
        rcases bind_eq_error.mp h with hyoutube | ⟨youtube, hyoutube, h⟩
        · exact .youtube hadmitted htoken hinsert hyoutube
        cases hurl : uploadUrl youtube with
        | none =>
          rw [hurl] at h
          cases h
        | some url =>
          rw [hurl] at h
          rcases bind_eq_error.mp h with hsession | ⟨-, -, h⟩
          · exact .session hadmitted htoken hinsert hyoutube hurl hsession
          · cases h
      · cases h
    · intro h
      cases h with
      | limiter hlimiter => rw [hlimiter, error_bind]
      | token hadmitted htoken =>
        obtain ⟨status, hstatus, hok⟩ := hadmitted
        rw [hstatus, ok_bind, if_pos hok, accessToken_eq_error.mpr htoken, error_bind]
      | strings hadmitted htoken hinsert =>
        obtain ⟨status, hstatus, hok⟩ := hadmitted
        rw [hstatus, ok_bind, if_pos hok, htoken, ok_bind, hinsert, error_bind]
      | youtube hadmitted htoken hinsert hyoutube =>
        obtain ⟨status, hstatus, hok⟩ := hadmitted
        rw [hstatus, ok_bind, if_pos hok, htoken, ok_bind, hinsert, ok_bind, hyoutube, error_bind]
      | session hadmitted htoken hinsert hyoutube hurl hsession =>
        obtain ⟨status, hstatus, hok⟩ := hadmitted
        rw [hstatus, ok_bind, if_pos hok, htoken, ok_bind, hinsert, ok_bind, hyoutube, ok_bind,
          hurl]
        simp only [hsession, error_bind]
  · simp [hunlisted]

theorem createUpload_eq_error {e : Thrown} :
    createUpload services config request = .error e ↔ CreateFails services config request e := by
  unfold createUpload
  constructor
  · intro h
    rcases bind_eq_error.mp h with hjson | ⟨body, hjson, h⟩
    · exact .unparsable hjson
    rcases bind_eq_error.mp h with hsize | ⟨sent, hsent, h⟩
    · exact .size hjson hsize
    cases hvalid : validSize config.limits sent with
    | none =>
      rw [hvalid] at h
      cases h
    | some size =>
      rw [hvalid] at h
      obtain ⟨hunlisted, hsized⟩ := createSized_eq_error.mp h
      exact .sized hjson hsent hvalid hunlisted hsized
  · intro h
    cases h with
    | unparsable hjson => rw [hjson, error_bind]
    | size hjson hsize => rw [hjson, ok_bind, hsize, error_bind]
    | sized hjson hsent hvalid hunlisted hsized =>
      rw [hjson, ok_bind, hsent, ok_bind, hvalid]
      exact createSized_eq_error.mpr ⟨hunlisted, hsized⟩

theorem routeUpload_eq_error {idText : Text} {cancel : Bool} {e : Thrown} :
    routeUpload services config request idText cancel = .error e ↔
      RouteFails services config request idText cancel e := by
  unfold routeUpload
  constructor
  · intro h
    cases hid : services.idFromString idText with
    | error e' =>
      rw [hid] at h
      cases h
    | ok id =>
      rw [hid] at h
      rcases bind_eq_error.mp h with htoken | ⟨token, htoken, h⟩
      · exact .token hid (accessToken_eq_error.mp htoken)
      rcases bind_eq_error.mp h with hstring | ⟨header, hstring, h⟩
      · exact .string hid htoken hstring
      rcases bind_eq_error.mp h with hset | ⟨⟨⟩, hset, h⟩
      · exact .header hid htoken hstring hset
      rcases bind_eq_error.mp h with hsession | ⟨response, -, h⟩
      · exact .session hid htoken hstring hset hsession
      · cases h
  · intro h
    cases h with
    | token hid htoken =>
      rw [hid]
      simp only [accessToken_eq_error.mpr htoken, error_bind]
    | string hid htoken hstring =>
      rw [hid]
      simp only [htoken, ok_bind, hstring, error_bind]
    | header hid htoken hstring hset =>
      rw [hid]
      simp only [htoken, ok_bind, hstring, hset, error_bind]
    | session hid htoken hstring hset hsession =>
      rw [hid]
      simp only [htoken, ok_bind, hstring, hset, hsession, error_bind]

theorem channel_eq_error {e : Thrown} :
    channel services config = .error e ↔ ChannelFails services config e := by
  unfold channel
  constructor
  · intro h
    rcases bind_eq_error.mp h with htoken | ⟨token, htoken, h⟩
    · exact .token (accessToken_eq_error.mp htoken)
    rcases bind_eq_error.mp h with hstring | ⟨bearer, hstring, h⟩
    · exact .string htoken hstring
    rcases bind_eq_error.mp h with hyoutube | ⟨response, hyoutube, h⟩
    · exact .youtube htoken hstring hyoutube
    split_ifs at h with hstatus
    · rcases bind_eq_error.mp h with hjson | ⟨body, hjson, hchannel⟩
      · exact .unparsable htoken hstring hyoutube hstatus hjson
      · exact .unreadable htoken hstring hyoutube hstatus hjson hchannel
    · cases h
  · intro h
    cases h with
    | token htoken => rw [accessToken_eq_error.mpr htoken, error_bind]
    | string htoken hstring => rw [htoken, ok_bind, hstring, error_bind]
    | youtube htoken hstring hyoutube =>
      rw [htoken, ok_bind, hstring, ok_bind, hyoutube, error_bind]
    | unparsable htoken hstring hyoutube hstatus hjson =>
      rw [htoken, ok_bind, hstring, ok_bind, hyoutube, ok_bind, if_pos hstatus, hjson, error_bind]
    | unreadable htoken hstring hyoutube hstatus hjson hchannel =>
      rw [htoken, ok_bind, hstring, ok_bind, hyoutube, ok_bind, if_pos hstatus, hjson, ok_bind,
        hchannel]

section
variable {route : Route} (hroute : Authentication.fetch request.toHttpRequest config.env = route)
include hroute

/-- What is awaited in the block is answered, be it by the handler of the `try`. -/
theorem fetch_channel (h : route = .channel) :
    fetch services config request =
      match channel services config with
      | .ok reply => .ok reply
      | .error e => .ok (unavailable e) := by
  rw [fetch, hroute, h, routed, Promise.settle_tryCatch_returnAwait]
  cases channel services config <;> rfl

theorem fetch_createUpload (h : route = .createUpload) :
    fetch services config request = createUpload services config request := by
  rw [fetch, hroute, h, routed, Promise.settle_tryCatch_returnPromise]

theorem fetch_routeUpload {id : Text} {cancel : Bool} (h : route = .routeUpload id cancel) :
    fetch services config request = routeUpload services config request id cancel := by
  rw [fetch, hroute, h, routed, Promise.settle_tryCatch_returnPromise]

theorem fetch_resolved (h : ∀ e, Fails services config request route e → route = .channel) :
    ∃ reply, fetch services config request = .ok reply := by
  cases route with
  | unauthorized => exact ⟨_, by rw [fetch, hroute]; rfl⟩
  | not_found => exact ⟨_, by rw [fetch, hroute]; rfl⟩
  | channel =>
    rw [fetch_channel hroute rfl]
    cases channel services config <;> exact ⟨_, rfl⟩
  | createUpload =>
    rw [fetch_createUpload hroute rfl]
    cases hcreate : createUpload services config request with
    | ok reply => exact ⟨reply, rfl⟩
    | error e => cases h e (.createUpload (createUpload_eq_error.mp hcreate))
  | routeUpload id cancel =>
    rw [fetch_routeUpload hroute rfl]
    cases hupload : routeUpload services config request id cancel with
    | ok reply => exact ⟨reply, rfl⟩
    | error e => cases h e (.routeUpload (routeUpload_eq_error.mp hupload))

/-- A step that fails on a route other than the channel's rejects the promise. -/
theorem fetch_rejected {e : Thrown} (h : Fails services config request route e)
    (hne : route ≠ .channel) : fetch services config request = .error e := by
  cases h with
  | channel h => exact absurd rfl hne
  | createUpload h =>
    rw [fetch_createUpload hroute rfl]
    exact createUpload_eq_error.mpr h
  | routeUpload h =>
    rw [fetch_routeUpload hroute rfl]
    exact routeUpload_eq_error.mpr h

end

/-- The handler answers whatever fails exactly when no step fails on a route other than the
channel's. -/
theorem resolves_iff (services : Services) (config : Configuration) (request : IncomingRequest) :
    Resolves services config request ↔
      ∀ e, Fails services config request
        (Authentication.fetch request.toHttpRequest config.env) e →
        Authentication.fetch request.toHttpRequest config.env = .channel := by
  constructor
  · intro h e hfails
    by_contra hne
    have hrejected := fetch_rejected rfl hfails hne
    rw [h.answered e hfails] at hrejected
    cases hrejected
  · intro h
    refine ⟨fetch_resolved rfl h, ?_⟩
    intro e hfails
    have hroute := h e hfails
    rw [hroute] at hfails
    cases hfails with
    | channel hchannel => rw [fetch_channel hroute rfl, channel_eq_error.mpr hchannel]

def unreachable : Services where
  now := 0
  cachedToken := none
  number := fun _ => .ok none
  string := fun _ => .ok []
  oauth := fun _ => .error (text "Error: Network connection lost.")
  channels := fun _ => .error (text "Error: Network connection lost.")
  limiter := fun _ => .error (text "Error: Network connection lost.")
  insert := fun _ => .error (text "Error: Network connection lost.")
  newUniqueId := []
  init := fun _ _ => .error (text "Error: Network connection lost.")
  idFromString := .ok
  setHeader := fun _ => .ok ()
  session := fun _ _ _ => .error (text "Error: Network connection lost.")

def configured : Configuration where
  env := ⟨some (Utf16.units "key")⟩
  YOUTUBE_CLIENT_ID := []
  YOUTUBE_CLIENT_SECRET := []
  YOUTUBE_REFRESH_TOKEN := []
  limits := ⟨8388608, 4294967296, 10, 90⟩

def garbled : IncomingRequest where
  method := text "POST"
  pathname := text "/v1/uploads"
  x_grecord_key := some (Utf16.units "key")
  cf_connecting_ip := none
  content_range := none
  content_length := 1
  json := .error (text "SyntaxError: Unexpected end of JSON input")
  body := [123]

/-- It rejects the handler's promise. -/
theorem not_alwaysResolves :
    ¬ ∀ (services : Services) (config : Configuration) (request : IncomingRequest),
      Resolves services config request := by
  intro hall
  have hroute : Authentication.fetch garbled.toHttpRequest configured.env = .createUpload := by
    decide +kernel
  obtain ⟨reply, hreply⟩ := (hall unreachable configured garbled).resolved
  rw [fetch, hroute] at hreply
  cases hreply

end Handler
end GambitRecord.Broker
