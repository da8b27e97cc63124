import GambitRecord.Library.Runs
import GambitRecord.Recorder.Responses

/-! # The pipe server

`IpcServer::handle_client` and the loop of `run` over clients. A request is one
line of JSON; what parsing it or handling it throws becomes a response, but the
response is written out behind the `try`.
-/

namespace GambitRecord.Recorder
open Library Library.DigitText Library.Runs

namespace IpcServer

def max_message : ℕ := 64 * 1024

/-- What one `ReadFile` brings; nothing at the end or when it fails. -/
structure Chunk where
  bytes : Bytes
  length_le : bytes.length ≤ 2048

/-- The bytes read until there is a newline among them, or no more than the limit. -/
def receive : Bytes → List Chunk → Bytes
  | request, [] => request
  | request, chunk :: chunks =>
    if max_message ≤ request.length ∨ chunk.bytes = [] then request
    else if 10 ∈ request ++ chunk.bytes then request ++ chunk.bytes
    else receive (request ++ chunk.bytes) chunks

def line (request : Bytes) : Bytes := request.takeWhile fun b => b ≠ 10

def protocol_mismatch : Json :=
  .object
    [(Utf8.bytes "error", .string (Utf8.bytes "PROTOCOL_MISMATCH")),
      (Utf8.bytes "protocol", .ofInt32 1),
      (Utf8.bytes "success", .ofBool false)]

def bad_request (what : Bytes) : Json :=
  .object
    [(Utf8.bytes "error", .string (Utf8.bytes "BAD_REQUEST")),
      (Utf8.bytes "message", .string what),
      (Utf8.bytes "success", .ofBool false)]

section
variable (exceptions : Exceptions) (handler : Json → Response)

/-- The body of the `try`. -/
def answer (request : Bytes) : Response :=
  if max_message ≤ request.length then .error (Utf8.bytes "request too large")
  else match Json.parseBytes (line request) with
  | none => .error (exceptions.parse (line request))
  | some json => do
    let protocol ← Responses.member exceptions json "protocol" "number" 0 Json.getInt32
    if protocol ≠ 1 then return protocol_mismatch else handler json

def response : Response → Json
  | .ok json => json
  | .error what => bad_request what

/-- The client may go away before it has all of the response. -/
inductive Client where
  | reads
  | leaves (taken : ℕ)
  deriving DecidableEq

/-- What `write_all` gets through. -/
def Client.write_all (client : Client) (wire : Bytes) : Bytes :=
  match client with
  | .reads => wire
  | .leaves taken => wire.dropLast.take taken

inductive Outcome where
  | returned (written : Bytes)
  | threw
  deriving DecidableEq

def handle_client (chunks : List Chunk) (client : Client) : Outcome :=
  match (response (answer exceptions handler (receive [] chunks))).dump none with
  | none => .threw
  | some body => .returned (client.write_all (Utf8.encode (body ++ ['\n'])))

end

def IsObjectLine (written : Bytes) : Prop :=
  ∃ body members, written = Utf8.encode body ++ [10] ∧ 10 ∉ Utf8.encode body ∧
    Json.parse body = some (.object members)

/-- The client gets exactly one response, and no exception leaves `handle_client`. -/
def Answers (outcome : Outcome) : Prop :=
  ∃ written, outcome = .returned written ∧ IsObjectLine written

variable {page : CodePage} {exceptions : Exceptions} {c : Components}
  {handler : Json → Response} {chunks : List Chunk} {client : Client} {request : Bytes}

theorem valid_response {r : Response} :
    (response r).Valid ↔ Post Utf8.Valid r Json.Valid := by
  cases r with
  | ok json => rfl
  | error what => simp [response, bad_request]

theorem isObject_response (hobject : ∀ json, Responses.Object (handler json)) :
    (response (answer exceptions handler request)).isObject := by
  have hanswer : Responses.Object (answer exceptions handler request) := by
    unfold answer
    split_ifs
    · trivial
    · cases Json.parseBytes (line request) with
      | none => trivial
      | some json =>
        apply Post.bind
        intro protocol
        split_ifs
        · rfl
        · exact hobject json
  cases hr : answer exceptions handler request with
  | ok json => exact hanswer.of_ok hr
  | error what => rfl

theorem not_isObjectLine {written : Bytes} (h : 10 ∉ written) : ¬ IsObjectLine written := by
  rintro ⟨body, members, rfl, -, -⟩
  exact h (by simp)

/-- The server answers exactly when what it has to write is UTF-8 and the client waits for it. -/
theorem answers_handle_client (hobject : ∀ json, Responses.Object (handler json)) :
    Answers (handle_client exceptions handler chunks client) ↔
      client = .reads ∧
        Post Utf8.Valid (answer exceptions handler (receive [] chunks)) Json.Valid := by
  have hisObject : (response (answer exceptions handler (receive [] chunks))).isObject :=
    isObject_response hobject
  rw [← valid_response, ← Json.dump_isSome none, handle_client]
  generalize hr : response (answer exceptions handler (receive [] chunks)) = r at hisObject
  cases hdump : r.dump none with
  | none => simp [Answers]
  | some body =>
    have hline : 10 ∉ Utf8.encode body := fun h =>
      Json.newline_notMem_dump hdump (Utf8.newline_mem_encode h)
    have hwire : Utf8.encode (body ++ ['\n']) = Utf8.encode body ++ [10] :=
      Utf8.encode_append body ['\n']
    simp only [hwire, Option.isSome_some, and_true]
    cases client with
    | reads =>
      have hparse : Json.parse (body ++ []) = some r := Json.parse_dump hdump rfl
      rw [List.append_nil] at hparse
      cases r with
      | object members =>
        exact iff_of_true ⟨_, rfl, body, members, rfl, hline, hparse⟩ rfl
      | _ => cases hisObject
    | leaves taken =>
      apply iff_of_false
      · rintro ⟨written, hwritten, hobjectLine⟩
        cases hwritten
        apply not_isObjectLine _ hobjectLine
        intro hmem
        apply hline
        simpa [Client.write_all] using List.mem_of_mem_take hmem
      · rintro ⟨⟩

/-- What the answer to a request takes from outside is UTF-8: the text of the parser's exception,
and what the command makes of its surroundings. -/
structure Servable (page : CodePage) (exceptions : Exceptions) (c : Components)
    (request : Bytes) : Prop where
  parse : request.length < max_message → Json.parseBytes (line request) = none →
    Utf8.Valid (exceptions.parse (line request))
  command : request.length < max_message → ∀ json ∈ Json.parseBytes (line request),
    json.value? (Utf8.bytes "protocol") 0 Json.getInt32 = some 1 →
    ∀ command ∈ json.value? (Utf8.bytes "command") [] Json.getString,
      Responses.Writable page exceptions c json command

theorem post_answer :
    Post Utf8.Valid (answer exceptions (Responses.handle_command page exceptions c) request)
        Json.Valid ↔ Servable page exceptions c request := by
  unfold answer
  by_cases hlarge : max_message ≤ request.length
  · have hnot : ¬ request.length < max_message := Nat.not_lt.mpr hlarge
    rw [if_pos hlarge]
    exact iff_of_true (Utf8.valid_bytes _) ⟨fun h => absurd h hnot, fun h => absurd h hnot⟩
  · have hlt : request.length < max_message := Nat.lt_of_not_le hlarge
    rw [if_neg hlarge]
    cases hparse : Json.parseBytes (line request) with
    | none =>
      constructor
      · exact fun h => ⟨fun _ _ => h, by simp [hparse]⟩
      · exact fun h => h.parse hlt hparse
    | some json =>
      simp only [post_bind, Responses.post_member]
      constructor
      · intro h
        refine ⟨by simp [hparse], ?_⟩
        rintro - j hj hprotocol
        rw [hparse, Option.mem_some_iff] at hj
        subst hj
        have hpost := h 1 hprotocol
        rw [if_neg (not_not.mpr rfl), Responses.post_handle_command] at hpost
        exact hpost
      · intro h protocol hprotocol
        by_cases hone : protocol = 1
        · subst hone
          rw [if_neg (not_not.mpr rfl), Responses.post_handle_command]
          exact h.command hlt json hparse hprotocol
        · rw [if_pos hone]
          simp [protocol_mismatch]

/-- A client, and what the components say while it is served. -/
structure Connection where
  chunks : List Chunk
  client : Client
  components : Components

/-- The loop of `run`; its state is what each client got. An exception leaves the thread's
function and ends the process. -/
def run (page : CodePage) (exceptions : Exceptions) : Machine (List Bytes) Connection where
  init := []
  step written connection :=
    match handle_client exceptions
        (Responses.handle_command page exceptions connection.components) connection.chunks
        connection.client with
    | .returned bytes => some (written ++ [bytes])
    | .threw => none

theorem handle_client_eq_threw :
    handle_client exceptions (Responses.handle_command page exceptions c) chunks client = .threw ↔
      ¬ Servable page exceptions c (receive [] chunks) := by
  rw [← post_answer, ← valid_response, ← Json.dump_isSome none, handle_client]
  cases (response (answer exceptions (Responses.handle_command page exceptions c)
    (receive [] chunks))).dump none <;> simp

theorem run_isSome_iff (written : List Bytes) (connections : List Connection) :
    ((run page exceptions).runFrom written connections).isSome ↔
      ∀ connection ∈ connections,
        Servable page exceptions connection.components (receive [] connection.chunks) := by
  induction connections generalizing written with
  | nil => simp
  | cons connection connections ih =>
    rw [List.forall_mem_cons]
    cases houtcome : handle_client exceptions
        (Responses.handle_command page exceptions connection.components) connection.chunks
        connection.client with
    | threw =>
      have hnot := handle_client_eq_threw.mp houtcome
      simp [Machine.runFrom, run, houtcome, hnot]
    | returned bytes =>
      have hserved : Servable page exceptions connection.components
          (receive [] connection.chunks) := by
        by_contra hnot
        rw [handle_client_eq_threw.mpr hnot] at houtcome
        cases houtcome
      rw [← ih (written ++ [bytes])]
      simp [Machine.runFrom, run, houtcome, hserved]

/-- A recording under a directory with a Cyrillic name is stopped without an upload. -/
def cyrillicStop : Components where
  settings := ⟨{}, none⟩
  recording_state := .Recording
  recording_stop := .ok UploadQueue.cyrillicJob.path

def stopRequest : Chunk where
  bytes := Utf8.bytes
    "\x7b\"command\":\"record_stop\",\"protocol\":1,\"upload\":false\x7d\n"
  length_le := by decide +kernel

end IpcServer
end GambitRecord.Recorder
