import GambitRecord.Plugin.IpcClient

/-! # A request and its response on the pipe

The client's message in the server's handler and the handler's JSON in the
client, however the pipe splits the two lines.
-/

namespace GambitRecord
open Library Library.DigitText Recorder Plugin

namespace Recorder.IpcServer
variable (exceptions : Exceptions)

/-- The argument with which the handler is called for a request, if it is called. -/
def handed (request : Bytes) : Option Json :=
  if max_message ≤ request.length then none
  else match Json.parseBytes (line request) with
  | none => none
  | some json =>
    match Responses.member exceptions json "protocol" "number" 0 Json.getInt32 with
    | .error _ => none
    | .ok protocol => if protocol ≠ 1 then none else some json

variable {exceptions} {handler : Json → Response} {request : Bytes} {json : Json}

theorem answer_of_handed (h : handed exceptions request = some json) :
    answer exceptions handler request = handler json := by
  unfold handed at h
  unfold answer
  split_ifs at h ⊢ with hlarge
  cases hparse : Json.parseBytes (line request) with
  | none => simp [hparse] at h
  | some parsed =>
    simp only [hparse] at h ⊢
    cases hmember : Responses.member exceptions parsed "protocol" "number" 0 Json.getInt32 with
    | error what => simp [hmember] at h
    | ok protocol =>
      simp only [hmember] at h
      split_ifs at h with hone
      cases h
      change (if protocol ≠ 1 then _ else _) = _
      rw [if_neg hone]

theorem receive_eq_gather (request : Bytes) (chunks : List Chunk) :
    receive request chunks = Lines.gather max_message 10 request (chunks.map Chunk.bytes) := by
  induction chunks generalizing request with
  | nil => rfl
  | cons chunk chunks ih => rw [receive, List.map_cons, Lines.gather, ih]

theorem line_concat {body : Bytes} (h : 10 ∉ body) : line (body ++ [10]) = body := by
  have hbody : ∀ b ∈ body, decide (b ≠ 10) = true := by
    intro b hb
    apply decide_eq_true
    rintro rfl
    exact h hb
  rw [line, List.takeWhile_append_of_pos hbody]
  simp

theorem handle_client_eq_returned {chunks : List Chunk} {reply : Json} {sent : Bytes}
    (h : response (answer exceptions handler (receive [] chunks)) = reply)
    (hsent : IpcClient.wire reply = some sent) :
    handle_client exceptions handler chunks .reads = .returned sent := by
  obtain ⟨body, hdump, rfl⟩ := Option.map_eq_some_iff.mp hsent
  simp only [handle_client, h, hdump]
  rfl

end Recorder.IpcServer

namespace Pipe
open IpcServer IpcClient

/-- A message as the library holds it: an object has its members in the order of their keys. -/
structure Message where
  json : Json
  ordered : ∀ members, json = .object members → members.Pairwise fun m n => m.1 < n.1

/-- The reads that bring bytes, none of them empty. -/
structure Brings (chunks : List Chunk) (bytes : Bytes) : Prop where
  all : (chunks.map Chunk.bytes).flatten = bytes
  some : ∀ piece ∈ chunks.map Chunk.bytes, piece ≠ []

variable {exceptions : Exceptions} {message : Message} {json : Json} {sent : Bytes}
  {chunks : List Chunk}

theorem isObject_with_protocol {message json : Json} (h : with_protocol message = some json) :
    json.isObject = true := by
  unfold with_protocol at h
  split at h
  · cases h
    rfl
  · cases h
    rfl
  · cases h

theorem find?_protocol (h : with_protocol message.json = some json) :
    json.find? (Utf8.bytes "protocol") = some (.ofInt32 1) := by
  unfold with_protocol at h
  split at h
  · rename_i members hobject
    cases h
    exact Json.find?_insertMember _ _ (message.ordered members hobject)
  · cases h
    rw [Json.find?_object_cons, if_pos rfl]
    rfl
  · cases h

theorem member_protocol (h : with_protocol message.json = some json) :
    Responses.member exceptions json "protocol" "number" 0 Json.getInt32 = .ok 1 := by
  have hvalue : json.value? (Utf8.bytes "protocol") 0 Json.getInt32 = some 1 := by
    rw [Json.value?, if_neg (not_not.mpr (isObject_with_protocol h)), find?_protocol h]
    exact Json.getInt32_ofInt32 1
  rw [Responses.member, hvalue]

theorem wire_cases (h : wire json = some sent) :
    ∃ body, sent = body ++ [10] ∧ 10 ∉ body ∧ Json.parseBytes body = some json := by
  obtain ⟨text, hdump, rfl⟩ := Option.map_eq_some_iff.mp h
  refine ⟨Utf8.encode text, Utf8.encode_append text ['\n'], ?_, ?_⟩
  · intro hmem
    exact Json.newline_notMem_dump hdump (Utf8.newline_mem_encode hmem)
  · have hparse : Json.parseBytes (Utf8.encode (text ++ [])) = some json :=
      Json.parseBytes_dump hdump rfl
    rwa [List.append_nil] at hparse

/-- A line within the limit arrives as it was sent, whatever is behind it. -/
theorem gather_chunks (hchunks : Brings chunks sent) (h : wire json = some sent) {limit : ℕ}
    (hlimit : sent.length ≤ limit) (more : List Chunk) :
    Lines.gather limit 10 [] ((chunks ++ more).map Chunk.bytes) = sent := by
  obtain ⟨body, rfl, hbody, -⟩ := wire_cases h
  rw [List.map_append]
  exact Lines.gather_line hchunks.some (hchunks.all) hbody List.not_mem_nil hlimit

/-- What becomes of a request whose line comes in the given chunks. -/
structure RoundTrip (exceptions : Exceptions) (message json : Json) (sent : Bytes)
    (chunks : List Chunk) : Prop where
  handed : sent.length < 65536 → handed exceptions (IpcServer.receive [] chunks) = some json
  returned : sent.length < 65536 → ∀ (handler : Json → Response) (reply : Json) (line : Bytes),
    handler json = .ok reply → wire reply = some line →
    handle_client exceptions handler chunks .reads = .returned line ∧
      (line.length ≤ 65536 → ∀ back later, Brings back line →
        request (.served (back ++ later)) message = some reply)
  refused : 65536 ≤ sent.length → IpcServer.handed exceptions (IpcServer.receive [] chunks) = none ∧
    ∃ line, wire (bad_request (Utf8.bytes "request too large")) = some line ∧
      ∀ handler, handle_client exceptions handler chunks .reads = .returned line

theorem request_served {back later : List Chunk} {reply : Json} {line : Bytes}
    (hjson : with_protocol message.json = some json) (hsent : wire json = some sent)
    (hline : wire reply = some line) (hlimit : line.length ≤ 65536) (hback : Brings back line) :
    request (.served (back ++ later)) message.json = some reply := by
  have hreceive : IpcClient.receive (back ++ later) = line := gather_chunks hback hline hlimit later
  obtain ⟨body, rfl, hbody, hparse⟩ := wire_cases hline
  simp only [request, hjson, hsent, Option.bind_some, Option.map_some, read_response, hreceive,
    line_concat hbody, hparse, Option.getD_some]

/-- However the pipe splits the two lines, the handler gets the message that was sent and the client
the handler's JSON; a line of 64 KiB or more is refused. -/
theorem roundTrip (exceptions : Exceptions) (message : Message) (json : Json) (sent : Bytes)
    (chunks more : List Chunk) (hjson : with_protocol message.json = some json)
    (hsent : wire json = some sent) (hchunks : Brings chunks sent) :
    RoundTrip exceptions message.json json sent (chunks ++ more) := by
  have hhanded : sent.length < 65536 →
      IpcServer.handed exceptions (IpcServer.receive [] (chunks ++ more)) = some json := by
    intro hlt
    obtain ⟨body, hbody, hnewline, hparse⟩ := wire_cases hsent
    have hreceive : IpcServer.receive [] (chunks ++ more) = sent := by
      rw [receive_eq_gather]
      exact gather_chunks hchunks hsent hlt.le more
    have hsmall : ¬ max_message ≤ sent.length := Nat.not_le.mpr hlt
    rw [hreceive, IpcServer.handed, if_neg hsmall, hbody, line_concat hnewline, hparse]
    simp only [member_protocol hjson]
    rfl
  refine ⟨hhanded, ?_, ?_⟩
  · intro hlt handler reply line hreply hline
    have hanswer : answer exceptions handler (IpcServer.receive [] (chunks ++ more)) =
        handler json := answer_of_handed (hhanded hlt)
    refine ⟨?_, fun hlimit back later hback => request_served hjson hsent hline hlimit hback⟩
    apply handle_client_eq_returned _ hline
    rw [hanswer, hreply]
    rfl
  · intro hle
    obtain ⟨body, rfl, hbody, -⟩ := wire_cases hsent
    have hlarge : max_message ≤ (IpcServer.receive [] (chunks ++ more)).length := by
      rw [receive_eq_gather, List.map_append]
      exact Lines.le_length_gather hchunks.some hchunks.all hbody hle
    refine ⟨by rw [IpcServer.handed, if_pos hlarge], ?_⟩
    have hsome : (wire (bad_request (Utf8.bytes "request too large"))).isSome := by
      rw [wire, Option.isSome_map, Json.dump_isSome]
      simp [bad_request]
    obtain ⟨line, hline⟩ := Option.isSome_iff_exists.mp hsome
    refine ⟨line, hline, fun handler => ?_⟩
    apply handle_client_eq_returned _ hline
    rw [answer, if_pos hlarge]
    rfl

def statusMessage : Message where
  json := .object [(Utf8.bytes "command", .string (Utf8.bytes "status"))]
  ordered := by
    rintro members hmembers
    cases hmembers
    exact List.pairwise_singleton _ _

def statusRequest : Json :=
  .object
    [(Utf8.bytes "command", .string (Utf8.bytes "status")), (Utf8.bytes "protocol", .ofInt32 1)]

def statusLine : Bytes := Utf8.bytes "\x7b\"command\":\"status\",\"protocol\":1\x7d\n"

def statusChunks : List Chunk :=
  [⟨statusLine.take 15, by decide +kernel⟩, ⟨statusLine.drop 15, by decide +kernel⟩]

theorem with_protocol_statusMessage : with_protocol statusMessage.json = some statusRequest := by
  have hne : Utf8.bytes "protocol" ≠ Utf8.bytes "command" := by decide +kernel
  have hnlt : ¬ Utf8.bytes "protocol" < Utf8.bytes "command" := by decide +kernel
  simp [with_protocol, statusMessage, statusRequest, Json.insertMember, hne, hnlt]

theorem roundTrip_status :
    RoundTrip .unnamed statusMessage.json statusRequest statusLine (statusChunks ++ []) :=
  roundTrip .unnamed statusMessage statusRequest statusLine statusChunks []
    with_protocol_statusMessage (by decide +kernel) ⟨by decide +kernel, by decide +kernel⟩

end Pipe
end GambitRecord
