import GambitRecord.Library.Json.Truncated
import GambitRecord.Recorder.Application
import GambitRecord.Recorder.Responses
import GambitRecord.Recorder.StoredConfig

/-! # The file of markers

The command `marker` adds a line of JSON to a file, with the time in the recording at
which it comes. The pipe thread serves one command after another, and the encoder thread
goes on between a command's look at the session and its reading of the duration. The
command does not look at the stream after it has opened it, so that a full disk cuts a
line and the answer is a success all the same. The history keeps the markers that were
handed to the stream and the answers.
-/

namespace GambitRecord.Recorder
open Library Library.DigitText Library.Runs

structure Marker where
  label : Bytes
  recording_seconds : ℤ
  deriving DecidableEq

namespace Marker
variable (marker : Marker)

def json : Json :=
  .object
    [(Utf8.bytes "label", .string marker.label),
      (Utf8.bytes "recording_seconds", .ofInt64 (Int64.ofInt marker.recording_seconds))]

/-- The text of a line; nothing when the dump throws. -/
def line : Option Text := marker.json.dump none

def bytes : Bytes := Utf8.encode (marker.line.getD [])

end Marker

/-- `whole` says that no line was cut; `current` has the times of the markers since the last
recording was started. -/
structure MarkerFile where
  worker : Worker := {}
  file : Bytes := []
  whole : Bool := true
  markers : List Marker := []
  current : List ℤ := []
  answers : List Response := []

namespace MarkerFile
variable (page : CodePage) (exceptions : Exceptions)

/-- A line in a stream in text mode, of which the disk takes the bytes that it has room for. -/
def append (s : MarkerFile) (marker : Marker) (room : ℕ) : MarkerFile :=
  match marker.line with
  | none => s
  | some body =>
    let written := TextMode.write (Utf8.encode (body ++ ['\n']))
    { s with
      file := s.file ++ written.take room
      whole := s.whole && written.length ≤ room
      markers := s.markers ++ [marker]
      current := s.current ++ [marker.recording_seconds] }

/-- The answer to a marker, with the state and the duration that the command has read. -/
def answer (state : RecordingState) (recording_seconds : ℤ) (request : Json) (opens : Bool) :
    Response :=
  Responses.marker exceptions
    { settings := ⟨{}, none⟩
      recording_state := state
      recording_seconds := Int64.ofInt recording_seconds
      marker_opens := opens }
    request

/-- The encoder thread's steps, the commands that start and stop a recording, a marker, and a worker
that starts anew; `opens` says that the file can be opened, and `room` what the disk still takes. -/
inductive Event where
  | thread (step : ThreadStep)
  | record_start (metadata : EvidenceMetadata) (during : List ThreadStep)
  | record_stop (during : List ThreadStep) (finalizes completes : Bool)
  | marker (request : Json) (during : List ThreadStep) (opens : Bool) (room : ℕ)
  | restart

def mark (s : MarkerFile) (request : Json) (during : List ThreadStep) (opens : Bool) (room : ℕ) :
    Option MarkerFile :=
  let state := s.worker.session.state
  if state = .Stopped ∨ opens = false then
    some { s with answers := s.answers ++ [answer exceptions state 0 request opens] }
  else
    ((Worker.threads page).runFrom s.worker during).map fun worker =>
      let recording_seconds := worker.session.duration_hns.tdiv HnsPerSecond
      let s := { s with
        worker, answers := s.answers ++ [answer exceptions state recording_seconds request opens] }
      match request.value? (Utf8.bytes "label") (Utf8.bytes "important") Json.getString with
      | none => s
      | some label => s.append ⟨label, recording_seconds⟩ room

def step (s : MarkerFile) : Event → Option MarkerFile
  | .thread step => (s.worker.threadStep page step).map fun worker => { s with worker }
  | .record_start metadata during =>
    (s.worker.record_start page metadata during).map fun (worker, reply) =>
      { s with worker, current := if reply.success then [] else s.current }
  | .record_stop during finalizes completes =>
    (s.worker.record_stop page during finalizes completes).map fun (worker, _) =>
      { s with worker }
  | .marker request during opens room => s.mark page exceptions request during opens room
  | .restart => some { s with worker := {}, current := [] }

def machine : Machine MarkerFile Event where
  init := {}
  step s event := s.step page exceptions event

def read_marker (line : Bytes) : Option (Bytes × Int64) := do
  let j ← Json.parseBytes line
  let label ← (j.find? (Utf8.bytes "label")).bind Json.getString
  let seconds ← (j.find? (Utf8.bytes "recording_seconds")).bind Json.getInt64
  return (label, seconds)

/-- The lines of the file, of which the last is empty. -/
def read_markers (file : Bytes) : List (Option (Bytes × Int64)) :=
  (((TextMode.read file).splitOn 10).dropLast).map read_marker

/-- While no line is cut the file reads back as the markers; each answer of success stands for one of
them, and those of the last recording are in order and not past its end. -/
structure Kept (s : MarkerFile) : Prop where
  read : s.whole = true → read_markers s.file =
    s.markers.map fun marker => some (marker.label, Int64.ofInt marker.recording_seconds)
  answered : (s.answers.filter Settings.succeeded).length = s.markers.length
  last : s.current <:+ s.markers.map Marker.recording_seconds
  order : s.current.Pairwise (· ≤ ·)
  within : ∀ seconds ∈ s.current,
    seconds ≤ s.worker.session.duration_hns.tdiv HnsPerSecond

structure Inv (s : MarkerFile) : Prop where
  file : s.whole = true →
    s.file = TextMode.write ((s.markers.map Marker.bytes).flatMap fun line => line ++ [10])
  lines : ∀ marker ∈ s.markers, marker.line.isSome
  answered : (s.answers.filter Settings.succeeded).length = s.markers.length
  last : s.current <:+ s.markers.map Marker.recording_seconds
  order : s.current.Pairwise (· ≤ ·)
  within : ∀ seconds ∈ s.current,
    seconds ≤ s.worker.session.duration_hns.tdiv HnsPerSecond

variable {page} {exceptions} {s t : MarkerFile}

/-! ## Reading the lines -/

theorem read_marker_bytes {marker : Marker} (h : marker.line.isSome) :
    read_marker marker.bytes = some (marker.label, Int64.ofInt marker.recording_seconds) := by
  obtain ⟨body, hbody⟩ := Option.isSome_iff_exists.mp h
  have hparse := @Json.parseBytes_dump _ _ _ hbody [] rfl
  rw [List.append_nil] at hparse
  simp [read_marker, Marker.bytes, hbody, hparse, Marker.json, Json.find?, Utf8.bytes_inj]

theorem plain_bytes {marker : Marker} (h : marker.line.isSome) :
    TextMode.Plain marker.bytes ∧ 10 ∉ marker.bytes := by
  obtain ⟨body, hbody⟩ := Option.isSome_iff_exists.mp h
  rw [Marker.bytes, hbody, Option.getD_some]
  refine ⟨Json.plain_dump hbody, fun hmem => ?_⟩
  exact Json.newline_notMem_dump hbody (Utf8.ascii_mem_encode (c := '\n') (by decide) hmem)

theorem Inv.read (h : s.Inv) (hwhole : s.whole = true) : read_markers s.file =
    s.markers.map fun marker => some (marker.label, Int64.ofInt marker.recording_seconds) := by
  have hplain : ∀ line ∈ s.markers.map Marker.bytes, TextMode.Plain line ∧ 10 ∉ line :=
    List.forall_mem_map.mpr fun marker hmarker => plain_bytes (h.lines marker hmarker)
  rw [read_markers, h.file hwhole, TextMode.splitOn_read_write hplain, List.dropLast_concat,
    List.map_map]
  apply List.map_congr_left
  intro marker hmarker
  exact read_marker_bytes (h.lines marker hmarker)

/-! ## The duration -/

theorem duration_begin_recording (session : RecordingSession) (sample : EncodedSample)
    (sink : Sink) :
    (session.begin_recording page sample sink).1.duration_hns = session.duration_hns := by
  unfold RecordingSession.begin_recording
  split
  · rfl
  · dsimp only
    split <;> rfl

theorem le_duration_write_sample (session : RecordingSession) (sample : EncodedSample)
    (sink : Sink) :
    session.duration_hns ≤ (session.write_sample sample sink).1.duration_hns := by
  unfold RecordingSession.write_sample
  split
  · dsimp only
    split
    · exact le_rfl
    · exact le_max_left _ _
  · exact le_rfl

theorem le_duration_take_sample (session : RecordingSession) (sample : EncodedSample)
    (sink : Sink) :
    session.duration_hns ≤ (session.take_sample page sample sink).1.duration_hns := by
  have hbegin := @duration_begin_recording page session sample sink
  simp only [RecordingSession.take_sample]
  cases session.state with
  | WaitingForKeyframe =>
    dsimp only
    by_cases hkey : sample.isVideoKeyframe = true
    · rw [if_neg (not_not.mpr hkey)]
      split
      · exact hbegin.ge
      · exact hbegin.ge.trans (le_duration_write_sample _ sample sink)
    · rw [if_pos hkey]
  | Recording => exact le_duration_write_sample session sample sink
  | Stopped | Stopping | Error => exact le_rfl

/-- The encoder thread makes a recording no shorter. -/
theorem le_duration_threadStep {worker next : Worker} {step : ThreadStep}
    (hstep : worker.threadStep page step = some next) :
    worker.session.duration_hns ≤ next.session.duration_hns := by
  cases step with
  | on_sample sample sink =>
    simp only [Worker.threadStep] at hstep
    split_ifs at hstep
    cases hstep
    have htake := @le_duration_take_sample page worker.session sample sink
    simp only [RecordingSession.on_sample]
    split_ifs
    · exact htake
    · exact htake
  | begin_stop =>
    simp only [Worker.threadStep] at hstep
    split_ifs at hstep
    cases hstep
    simp only [RecordingSession.begin_stop]
    split_ifs <;> exact le_rfl
  | end_stop finalizes =>
    simp only [Worker.threadStep] at hstep
    split_ifs at hstep
    cases hstep
    simp only [RecordingSession.end_stop]
    split_ifs <;> exact le_rfl
  | capture recent_frame description =>
    cases hstep
    exact le_rfl

theorem le_duration_threads {worker next : Worker} {during : List ThreadStep}
    (hrun : (Worker.threads page).runFrom worker during = some next) :
    worker.session.duration_hns ≤ next.session.duration_hns :=
  Machine.invariant (M := Worker.threads page)
    (I := fun w => worker.session.duration_hns ≤ w.session.duration_hns)
    (fun _ _ _ h hstep => h.trans (le_duration_threadStep hstep)) hrun le_rfl

theorem record_start_spec {worker next : Worker} {metadata : EvidenceMetadata}
    {during : List ThreadStep} {reply : Reply}
    (h : worker.record_start page metadata during = some (next, reply)) :
    reply.success = true ∨ reply.success = false ∧ next = worker := by
  simp only [Worker.record_start] at h
  by_cases hready : worker.capture_ready = true
  · rw [if_neg (not_not.mpr hready)] at h
    cases hclaim : worker.session.claim with
    | none =>
      rw [hclaim] at h
      cases h
      exact .inr ⟨rfl, rfl⟩
    | some claimed =>
      rw [hclaim] at h
      obtain ⟨w, -, hw⟩ := Option.bind_eq_some_iff.mp h
      split_ifs at hw
      cases hw
      exact .inl rfl
  · rw [if_pos hready] at h
    cases h
    exact .inr ⟨rfl, rfl⟩

theorem duration_stop (session : RecordingSession) (finalizes : Bool) :
    (session.stop page finalizes).1.duration_hns = session.duration_hns := by
  simp only [RecordingSession.stop, RecordingSession.end_stop, RecordingSession.begin_stop]
  split_ifs <;> rfl

theorem le_duration_record_stop {worker next : Worker} {during : List ThreadStep}
    {finalizes completes : Bool} {reply : Reply}
    (h : worker.record_stop page during finalizes completes = some (next, reply)) :
    worker.session.duration_hns ≤ next.session.duration_hns := by
  simp only [Worker.record_stop] at h
  by_cases hstopped : worker.session.state = .Stopped
  · rw [if_pos hstopped] at h
    cases h
    exact le_rfl
  · rw [if_neg hstopped] at h
    obtain ⟨w, hduring, hw⟩ := Option.bind_eq_some_iff.mp h
    have hstop : next = (w.stop page finalizes).1 := by
      split_ifs at hw
      split at hw
      · exact congrArg Prod.fst (Option.some.inj hw).symm
      · split_ifs at hw
        · exact congrArg Prod.fst (Option.some.inj hw).symm
        · exact congrArg Prod.fst (Option.some.inj hw).symm
    rw [hstop]
    exact (le_duration_threads hduring).trans (duration_stop w.session finalizes).ge

/-! ## The answer -/

theorem not_succeeded_refused {state : RecordingState} {request : Json} {opens : Bool}
    (h : state = .Stopped ∨ opens = false) (recording_seconds : ℤ) :
    Settings.succeeded (answer exceptions state recording_seconds request opens) = false := by
  simp only [answer, Responses.marker]
  by_cases hstopped : state = .Stopped
  · rw [if_pos hstopped]
    simp [Settings.succeeded, Responses.marker_failure, Json.find?]
  · have hopens : opens = false := h.resolve_left hstopped
    rw [if_neg hstopped, if_pos (by simp [hopens])]
    simp [Settings.succeeded, Responses.marker_failure, Json.find?]

theorem succeeded_answer {state : RecordingState} {request : Json} {opens : Bool}
    (h : ¬ (state = .Stopped ∨ opens = false)) (recording_seconds : ℤ) :
    Settings.succeeded (answer exceptions state recording_seconds request opens) =
      match request.value? (Utf8.bytes "label") (Utf8.bytes "important") Json.getString with
      | none => false
      | some label => (Marker.line ⟨label, recording_seconds⟩).isSome := by
  obtain ⟨hstate, hopens⟩ := not_or.mp h
  simp only [answer, Responses.marker, Responses.member]
  rw [if_neg hstate, if_neg (by simpa using hopens)]
  cases request.value? (Utf8.bytes "label") (Utf8.bytes "important") Json.getString with
  | none => rfl
  | some label =>
    change Settings.succeeded (match Marker.line ⟨label, recording_seconds⟩ with
      | none => _
      | some _ => _) = _
    cases hline : Marker.line ⟨label, recording_seconds⟩ with
    | none =>
      dsimp only
      rw [hline]
      rfl
    | some body =>
      dsimp only
      rw [hline]
      simp [Settings.succeeded, Json.find?]

/-! ## What a step keeps -/

/-- A longer recording, and an answer that says no more than there is. -/
theorem Inv.later (h : s.Inv) {worker : Worker}
    (hlonger : s.worker.session.duration_hns ≤ worker.session.duration_hns) {answers : List Response}
    (hanswers : (answers.filter Settings.succeeded).length = s.markers.length) :
    Inv { s with worker, answers } :=
  ⟨h.file, h.lines, hanswers, h.last, h.order, fun seconds hseconds =>
    (h.within seconds hseconds).trans (Int.tdiv_le_tdiv (by decide) hlonger)⟩

theorem Inv.append (h : s.Inv) {label : Bytes} {answer : Response} (room : ℕ)
    (hanswer : Settings.succeeded answer =
      (Marker.line ⟨label, s.worker.session.duration_hns.tdiv HnsPerSecond⟩).isSome) :
    Inv (MarkerFile.append { s with answers := s.answers ++ [answer] }
      ⟨label, s.worker.session.duration_hns.tdiv HnsPerSecond⟩ room) := by
  simp only [MarkerFile.append]
  cases hline : Marker.line ⟨label, s.worker.session.duration_hns.tdiv HnsPerSecond⟩ with
  | none =>
    rw [hline] at hanswer
    refine h.later le_rfl ?_
    rw [List.filter_append, List.length_append, h.answered]
    simp [hanswer]
  | some body =>
    rw [hline] at hanswer
    refine ⟨?_, ?_, ?_, ?_, ?_, ?_⟩
    · have hnewline : Utf8.encode ['\n'] = [10] := by decide +kernel
      dsimp only
      intro hwhole
      obtain ⟨hbefore, hroom⟩ := Bool.and_eq_true_iff.mp hwhole
      rw [List.take_of_length_le (of_decide_eq_true hroom), h.file hbefore,
        List.map_append, List.flatMap_append, TextMode.write_append, Utf8.encode_append, hnewline]
      simp [Marker.bytes, hline]
    · rw [List.forall_mem_append, List.forall_mem_singleton, hline]
      exact ⟨h.lines, rfl⟩
    · rw [List.filter_append, List.length_append, List.length_append, h.answered]
      simp [hanswer]
    · obtain ⟨earlier, hearlier⟩ := h.last
      refine ⟨earlier, ?_⟩
      rw [← List.append_assoc, hearlier, List.map_append]
      rfl
    · rw [List.pairwise_append]
      refine ⟨h.order, List.pairwise_singleton _ _, fun seconds hseconds next hnext => ?_⟩
      rw [List.mem_singleton.mp hnext]
      exact h.within seconds hseconds
    · rw [List.forall_mem_append, List.forall_mem_singleton]
      exact ⟨h.within, le_rfl⟩

theorem inv_mark (h : s.Inv) {request : Json} {during : List ThreadStep} {opens : Bool} {room : ℕ}
    (hmark : s.mark page exceptions request during opens room = some t) : t.Inv := by
  simp only [mark] at hmark
  by_cases hrefused : s.worker.session.state = .Stopped ∨ opens = false
  · rw [if_pos hrefused] at hmark
    cases hmark
    refine h.later le_rfl ?_
    rw [List.filter_append, List.length_append, h.answered]
    simp [not_succeeded_refused hrefused]
  · rw [if_neg hrefused] at hmark
    obtain ⟨worker, hduring, rfl⟩ := Option.map_eq_some_iff.mp hmark
    have hanswer := @succeeded_answer exceptions _ request _ hrefused
      (worker.session.duration_hns.tdiv HnsPerSecond)
    have hlater := h.later (le_duration_threads hduring) h.answered
    cases hlabel : request.value? (Utf8.bytes "label") (Utf8.bytes "important") Json.getString with
    | none =>
      rw [hlabel] at hanswer
      refine hlater.later le_rfl ?_
      rw [List.filter_append, List.length_append, h.answered]
      simp [hanswer]
    | some label =>
      rw [hlabel] at hanswer
      exact hlater.append room hanswer

theorem inv_step {event : Event} (h : s.Inv) (hstep : s.step page exceptions event = some t) :
    t.Inv := by
  cases event with
  | thread step =>
    obtain ⟨worker, hthread, rfl⟩ := Option.map_eq_some_iff.mp hstep
    exact h.later (le_duration_threadStep hthread) h.answered
  | record_start metadata during =>
    obtain ⟨⟨worker, reply⟩, hstart, rfl⟩ := Option.map_eq_some_iff.mp hstep
    rcases record_start_spec hstart with hsuccess | ⟨hsuccess, rfl⟩
    · refine ⟨h.file, h.lines, h.answered, ?_, ?_, ?_⟩ <;> simp [hsuccess]
    · simpa [hsuccess] using h
  | record_stop during finalizes completes =>
    obtain ⟨⟨worker, reply⟩, hstop, rfl⟩ := Option.map_eq_some_iff.mp hstep
    exact h.later (le_duration_record_stop hstop) h.answered
  | marker request during opens room => exact inv_mark h hstep
  | restart =>
    cases hstep
    refine ⟨h.file, h.lines, h.answered, List.nil_suffix, List.Pairwise.nil, ?_⟩
    rintro _ ⟨⟩

theorem inv_init : Inv (machine page exceptions).init := by
  refine ⟨fun _ => rfl, ?_, rfl, List.suffix_rfl, List.Pairwise.nil, ?_⟩
  · rintro _ ⟨⟩
  · rintro _ ⟨⟩

theorem video_ne_nil : ([118] : WidePath) ≠ [] := List.cons_ne_nil _ _

def second (number : ℤ) (keyframe : Bool) : ThreadStep :=
  .on_sample ⟨.video, number * HnsPerSecond, HnsPerSecond, keyframe, [0]⟩
    ⟨some ⟨[118], video_ne_nil⟩, true, true⟩

def marked (label : String) : Json :=
  .object [(Utf8.bytes "label", .string (Utf8.bytes label))]

/-- A marker without a recording, two in the first recording, of which one spans two lines and one has
no label, and one in the second, before the file cannot be opened. -/
def markedRun : List Event :=
  [.thread (.capture true ⟨1280, 720, false⟩), .marker (marked "early") [] true 4096,
    .record_start {} [], .thread (second 5 true),
    .marker (marked "first\nsecond") [second 6 false] true 4096,
    .marker (.object []) [] true 4000, .record_stop [] true true,
    .record_start {} [second 7 true],
    .marker (marked "again") [second 8 false, second 9 true] true 3900,
    .marker (marked "lost") [] false 3800]

theorem markedRun_accepted : ((machine .windows1251 .unnamed).run markedRun).isSome := by
  decide +kernel

end MarkerFile
end GambitRecord.Recorder
