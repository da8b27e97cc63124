import GambitRecord.Broker.Authentication
import GambitRecord.Broker.UploadSession
import GambitRecord.Library.Json.Access
import GambitRecord.Library.Promise

/-! # The broker's handler

The default handler of `broker/src/index.ts` with its three routes. What a step
of a route comes to is asked of `Services`, a function of what the step sends.
`undefined` is a missing JSON value.
-/

namespace GambitRecord.Broker
open Library Library.DigitText

/-- What is thrown, by its `String(error)`. -/
abbrev Thrown := Text

structure UploadLimits where
  chunk : ℕ
  video : ℕ
  perIp : ℕ
  global : ℕ

structure Configuration where
  env : Env
  YOUTUBE_CLIENT_ID : JsString
  YOUTUBE_CLIENT_SECRET : JsString
  YOUTUBE_REFRESH_TOKEN : JsString
  limits : UploadLimits

/-- A request with what the routes read of it; `json` is what `request.json()` comes to. -/
structure IncomingRequest extends HttpRequest where
  cf_connecting_ip : Option Text
  content_range : Option Text
  content_length : ℕ
  json : Except Thrown Json
  body : List UInt8

structure CachedToken where
  value : Option Json
  expiresAt : ℚ

structure TokenForm where
  client_id : JsString
  client_secret : JsString
  refresh_token : JsString

structure JsonAnswer where
  status : ℕ
  json : Except Thrown Json

structure Consume where
  ip : Text
  perIp : ℕ
  global : ℕ

structure VideoInsert where
  token : JsString
  size : ℕ
  title : JsString
  description : JsString

structure InsertAnswer where
  status : ℕ
  location : Option Text

structure SessionInit where
  uploadUrl : Text
  total : ℕ

/-- What the handler's steps come to. `number` is `Number`, with nothing for what is not finite, and
`string` is `String`: either throws for an object that has no primitive value. -/
structure Services where
  now : ℤ
  cachedToken : Option CachedToken
  number : Option Json → Except Thrown (Option ℚ)
  string : Option Json → Except Thrown JsString
  oauth : TokenForm → Except Thrown JsonAnswer
  channels : JsString → Except Thrown JsonAnswer
  limiter : Consume → Except Thrown ℕ
  insert : VideoInsert → Except Thrown InsertAnswer
  newUniqueId : Text
  init : Text → SessionInit → Except Thrown Unit
  idFromString : Text → Except Thrown Text
  setHeader : JsString → Except Thrown Unit
  session : Text → JsString → SessionRequest → Except Thrown Response

inductive ReplyBody where
  | error (error : String) (upstreamStatus : Option ℕ)
  | unavailable (error : String) (detail : Thrown)
  | channel (id title : Option Json)
  | created (id : Text) (chunkSize expiresIn : ℕ)

/-- A response of the handler's own, or the session object's passed on. -/
inductive Reply where
  | json (status : ℕ) (body : ReplyBody)
  | session (response : Response)

namespace Handler

def isOk (status : ℕ) : Bool := 200 ≤ status ∧ status ≤ 299

def cannotRead (value key : String) : Thrown :=
  text "TypeError: Cannot read properties of " ++ text value ++ text " (reading " ++ text key ++
    text ")"

def property (value : Option Json) (key : String) : Except Thrown (Option Json) :=
  match value with
  | none => .error (cannotRead "undefined" key)
  | some (.scalar .null) => .error (cannotRead "null" key)
  | some json => .ok (json.find? (Utf8.bytes key))

/-- `value?.[0]`; of a string it is the first character. -/
def first : Option Json → Option Json
  | some (.array elements) => elements.head?
  | some (.object members) => Json.find? (Utf8.bytes "0") (.object members)
  | some (.string s) => ((Utf8.decode s).bind List.head?).map fun c => .string (Utf8.encode [c])
  | _ => none

/-- A number that reads as zero, be it for its smallness. -/
def isZero (x : Json.FloatText) : Bool :=
  let (digits, power) := Json.decimalParts x.word
  digits * 10 ^ power.toNat * 2 ^ 1075 ≤ 10 ^ (-power).toNat

def truthy : Json → Bool
  | .scalar .null => false
  | .scalar (.bool b) => b
  | .scalar (.int n) => n.val ≠ 0
  | .scalar (.float x) => ¬ isZero x
  | .string s => s ≠ []
  | .array _ | .object _ => true

/-- `value ?? constant`. -/
def orElse (value : Option Json) (constant : String) : Json :=
  match value with
  | none | some (.scalar .null) => .string (Utf8.bytes constant)
  | some json => json

def form (config : Configuration) : TokenForm :=
  ⟨config.YOUTUBE_CLIENT_ID, config.YOUTUBE_CLIENT_SECRET, config.YOUTUBE_REFRESH_TOKEN⟩

def oauthError (status : ℕ) : Thrown := text "Error: oauth_" ++ decimal status

section
variable (services : Services) (config : Configuration) (request : IncomingRequest)

/-- The token of an answer, whose expiry is computed for the cache. -/
def readToken (body : Json) : Except Thrown (Option Json) := do
  let token ← property (some body) "access_token"
  let expires_in ← property (some body) "expires_in"
  let _ ← services.number expires_in
  return token

def cached : Option CachedToken :=
  services.cachedToken.filter fun token => (services.now : ℚ) + 60000 < token.expiresAt

/-- What a refresh leaves in the cache is for later requests. -/
def accessToken : Except Thrown (Option Json) :=
  match cached services with
  | some token => .ok token.value
  | none => do
    let response ← services.oauth (form config)
    if isOk response.status then
      let body ← response.json
      readToken services body
    else .error (oauthError response.status)

/-- A safe integer within the limit. -/
def validSize (limits : UploadLimits) (size : Option ℚ) : Option ℕ :=
  match size with
  | none => none
  | some n =>
    if n.isInt ∧ n.num ≤ Binary64.maxSafe ∧ 0 < n.num ∧ n.num ≤ limits.video then some n.num.toNat
    else none

def readSize (body : Json) : Except Thrown (Option ℚ) := do
  let size ← property (some body) "size"
  services.number size

def unlisted (body : Json) : Bool :=
  (body.find? (Utf8.bytes "privacyStatus")).bind Json.getString = some (Utf8.bytes "unlisted")

def consume : Consume :=
  ⟨request.cf_connecting_ip.getD (text "unknown"), config.limits.perIp, config.limits.global⟩

/-- The request to YouTube: the title, the description and then the token are made strings. -/
def videoInsert (body : Json) (size : ℕ) (token : Option Json) : Except Thrown VideoInsert := do
  let title ← services.string (orElse (body.find? (Utf8.bytes "title")) "Gambit Record")
  let description ← services.string (orElse (body.find? (Utf8.bytes "description")) "")
  let token ← services.string token
  return ⟨token, size, title.take 100, description.take 5000⟩

def uploadUrl (youtube : InsertAnswer) : Option Text :=
  if isOk youtube.status then youtube.location.filter (· ≠ []) else none

def createSized (body : Json) (size : ℕ) : Except Thrown Reply :=
  if unlisted body then do
    let allowed ← services.limiter (consume config request)
    if isOk allowed then
      let token ← accessToken services config
      let insert ← videoInsert services body size token
      let youtube ← services.insert insert
      match uploadUrl youtube with
      | none => return .json 502 (.error "youtube_session_failed" (some youtube.status))
      | some url =>
        services.init services.newUniqueId ⟨url, size⟩
        return .json 201 (.created services.newUniqueId config.limits.chunk 86400)
    else return .json 429 (.error "daily_upload_limit" none)
  else .ok (.json 400 (.error "privacy_must_be_unlisted" none))

def createUpload : Except Thrown Reply := do
  let body ← request.json
  let size ← readSize services body
  match validSize config.limits size with
  | none => return .json 413 (.error "invalid_size" none)
  | some size => createSized services config request body size

def sessionRequest (cancel : Bool) : SessionRequest where
  path := if cancel then .cancel else if request.method = text "GET" then .status else .chunk
  method :=
    if request.method = text "GET" then .get
    else if request.method = text "POST" then .post
    else .put
  contentRange := request.content_range
  contentLength := request.content_length
  maxChunk := config.limits.chunk
  body := if request.method = text "PUT" then request.body else []

def routeUpload (idText : Text) (cancel : Bool) : Except Thrown Reply :=
  match services.idFromString idText with
  | .error _ => .ok (.json 404 (.error "invalid_upload_id" none))
  | .ok id => do
    let token ← accessToken services config
    let header ← services.string token
    services.setHeader header
    let response ← services.session id header (sessionRequest config request cancel)
    return .session response

def channelReply (channel : Json) : Except Thrown Reply := do
  let id ← property (some channel) "id"
  let snippet ← property (some channel) "snippet"
  let title ← property snippet "title"
  return .json 200 (.channel id title)

def firstChannel (body : Json) : Except Thrown Reply := do
  let items ← property (some body) "items"
  match (first items).filter truthy with
  | none => return .json 404 (.error "channel_not_found" none)
  | some channel => channelReply channel

/-- The block of `/v1/channel`, which awaits its steps itself. -/
def channel : Except Thrown Reply := do
  let token ← accessToken services config
  let bearer ← services.string token
  let response ← services.channels bearer
  if isOk response.status then
    let body ← response.json
    firstChannel body
  else return .json 502 (.error "youtube_channel_failed" none)

def unavailable (error : Thrown) : Reply := .json 503 (.unavailable "broker_unavailable" error)

/-- The block of the `try`: the two upload routes are returned as promises. -/
def routed : Route → Promise.Body Thrown Reply
  | .unauthorized => .ok (.value (.json 401 (.error "unauthorized" none)))
  | .channel => Promise.returnAwait (channel services config)
  | .createUpload => Promise.returnPromise (createUpload services config request)
  | .routeUpload id cancel => Promise.returnPromise (routeUpload services config request id cancel)
  | .not_found => .ok (.value (.json 404 (.error "not_found" none)))

/-- What the promise of the exported handler comes to. -/
def fetch : Except Thrown Reply :=
  Promise.settle <| Promise.tryCatch
    (routed services config request (Authentication.fetch request.toHttpRequest config.env))
    fun error => .ok (.value (unavailable error))

end
end Handler
end GambitRecord.Broker
