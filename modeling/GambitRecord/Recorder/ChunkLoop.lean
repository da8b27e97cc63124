import GambitRecord.Recorder.BrokerUploader

/-! # The chunk loop against any broker

A whole call of `upload` against an unending sequence of answers, without a stop
request. The loop goes where the answers say; nothing counts its rounds.
-/

namespace GambitRecord.Recorder
open Library.DigitText Broker

namespace BrokerUploader

/-- `request`: the first answer of its attempts. -/
def request : ℕ → (ℕ → Option Response) → Response
  | 0, attempts => (attempts 0).getD networkFailure
  | retries + 1, attempts =>
    match attempts 0 with
    | some response => response
    | none => request retries fun n => attempts (n + 1)

/-- One request of `upload`, up to the next one. -/
def exchanged (file : List UInt8) (attempts : ℕ → Option Response) (readable : Bool) :
    Client → Client
  | .requesting u exchange _ =>
    match answer file u (request (network_retries exchange) attempts) exchange with
    | .looping u => poll file u false readable
    | client => client
  | client => client

/-- A call of `upload`, and what its surroundings answer: the attempts of its n-th request, and
whether the file can be read for it. -/
structure Run where
  setup : Setup
  file : Option (List UInt8)
  resume_id : Text
  attempts : ℕ → ℕ → Option Response
  readable : ℕ → Bool

namespace Run
variable (run : Run)

def bytes : List UInt8 := run.file.getD []

def after : ℕ → Client
  | 0 => upload run.setup run.file run.resume_id
  | n + 1 => exchanged run.bytes (run.attempts n) (run.readable (n + 1)) (after n)

/-- `upload` returns after finitely many requests. -/
def Returns : Prop := ∃ n result, run.after n = .returned result

def response (exchange : Exchange) (n : ℕ) : Response :=
  request (network_retries exchange) (run.attempts n)

structure Ready : Prop where
  enabled : run.setup.enabled = true
  configured : run.setup.build_configured = true
  endpoint : run.setup.endpoint_valid = true
  opened : run.setup.session_opened = true
  connected : run.setup.connected = true
  file : run.file = some run.bytes
  nonempty : run.bytes ≠ []
  size : run.bytes.length ≤ maxFileSize

def Opens (n : ℕ) : Prop :=
  (run.response .create n).status = 201 ∧ json_string (run.response .create n).body.id ≠ []

/-- The session goes on from the offset that it answers. -/
def Resumes : Prop :=
  (run.response .resume 0).status = 200 ∧ json_string (run.response .resume 0).body.url = []

def Gone : Prop :=
  (run.response .resume 0).status = 404 ∨ (run.response .resume 0).status = 410

def resumeStart : ℕ := resumeOffset run.bytes.length (run.response .resume 0).body

/-- The loop begins after so many requests at an offset: in a new session, a resumed one, or a new
one in place of one that is gone. -/
inductive Enters : ℕ → ℕ → Prop where
  | created (hid : run.resume_id = []) (hopens : run.Opens 0) : Enters 1 0
  | resumed (hid : run.resume_id ≠ []) (hresumes : run.Resumes) : Enters 1 run.resumeStart
  | replaced (hid : run.resume_id ≠ []) (hgone : run.Gone) (hopens : run.Opens 1) : Enters 2 0

/-- What the n-th request answers as a chunk; the retries are those of any chunk. -/
def chunkAnswer (n : ℕ) : Response := run.response (.chunk 0) n

def named (n : ℕ) : Option ℕ := stoull (json_string (run.chunkAnswer n).body.nextOffset)

/-- Where the answers lead: to the offset named last, and a whole chunk further for each answer
since that named none. -/
def place (k start : ℕ) : ℕ → ℕ
  | 0 => start
  | n + 1 => (run.named (k + n)).getD (place k start n + chunk_size)

/-- The loop is entered, every answer in it is a 308, and none leads to the end of the file. -/
structure Stalls : Prop where
  ready : run.Ready
  endless : ∃ k start, run.Enters k start ∧ ∀ n, (run.chunkAnswer (k + n)).status = 308 ∧
    run.place k start n < run.bytes.length ∧ run.readable (k + n) = true

variable {run}

theorem upload_of_ready (h : run.Ready) :
    upload run.setup run.file run.resume_id =
      .requesting ⟨run.resume_id, 0, 0⟩ (if run.resume_id.isEmpty then .create else .resume) 0 := by
  have hsetup : run.setup = ⟨true, true, true, true, true⟩ := by
    calc
      run.setup = ⟨run.setup.enabled, run.setup.build_configured, run.setup.endpoint_valid,
          run.setup.session_opened, run.setup.connected⟩ := rfl
      _ = _ := by rw [h.enabled, h.configured, h.endpoint, h.opened, h.connected]
  rw [h.file, hsetup, upload_ready h.nonempty h.size]

theorem ready_or_returned (run : Run) :
    run.Ready ∨ ∃ result, upload run.setup run.file run.resume_id = .returned result := by
  rcases upload_cases run.setup run.file run.resume_id with
    ⟨bytes, hfile, hpos, hlimit, hsetup, -⟩ | ⟨retryable, error, hupload, -, -⟩
  · have hbytes : run.bytes = bytes := by rw [Run.bytes, hfile, Option.getD_some]
    refine .inl ⟨by rw [hsetup], by rw [hsetup], by rw [hsetup], by rw [hsetup], by rw [hsetup],
      ?_, ?_, ?_⟩
    · rw [hbytes, hfile]
    · rwa [hbytes]
    · rwa [hbytes]
  · exact .inr ⟨_, hupload⟩

theorem returned_mono {n : ℕ} {result : UploadResult} (h : run.after n = .returned result) (m : ℕ) :
    run.after (n + m) = .returned result := by
  induction m with
  | zero => exact h
  | succ m ih =>
    change exchanged run.bytes _ _ (run.after (n + m)) = _
    rw [ih]
    rfl

theorem after_requesting {u : Upload} {exchange : Exchange} {attempt n : ℕ}
    (h : run.after n = .requesting u exchange attempt) :
    run.after (n + 1) =
      match answer run.bytes u (run.response exchange n) exchange with
      | .looping u => poll run.bytes u false (run.readable (n + 1))
      | client => client := by
  rw [after, h]
  rfl

def chunkRequest (run : Run) (id : Text) (offset : ℕ) : Client :=
  .requesting ⟨id, offset, offset⟩ (.chunk (min chunk_size (run.bytes.length - offset))) 0

/-- At its head the loop goes on when there is more of the file and it can be read. -/
theorem poll_cases (run : Run) (id : Text) (offset : ℕ) (readable : Bool) :
    (offset < run.bytes.length ∧ readable = true) ∧
        poll run.bytes ⟨id, offset, offset⟩ false readable = run.chunkRequest id offset ∨
      ¬ (offset < run.bytes.length ∧ readable = true) ∧
        ∃ result, poll run.bytes ⟨id, offset, offset⟩ false readable = .returned result := by
  unfold poll
  by_cases hoffset : offset < run.bytes.length
  · have hlength : ((run.bytes.drop offset).take
        (min chunk_size (run.bytes.length - offset))).length =
        min chunk_size (run.bytes.length - offset) := by
      rw [List.length_take, List.length_drop]
      omega
    by_cases hreadable : readable = true
    · left
      refine ⟨⟨hoffset, hreadable⟩, ?_⟩
      simp [hoffset, hreadable, hlength, chunkRequest]
    · right
      refine ⟨fun h => hreadable h.2, ?_⟩
      simp [hoffset, hreadable, failed]
  · right
    refine ⟨fun h => hoffset h.1, ?_⟩
    simp [hoffset, finish]

/-- Where a 308 leads and where the loop goes are the same before the end of the file. -/
theorem nextOffset_eq (id : Text) {offset total : ℕ} (h : offset < total) (body : Body) :
    let next := nextOffset ⟨id, offset, offset⟩ (min chunk_size (total - offset)) body
    let place := (stoull (json_string body.nextOffset)).getD (offset + chunk_size)
    (next < total ↔ place < total) ∧ (place < total → next = place) := by
  intro next place
  simp only [next, place, nextOffset]
  cases stoull (json_string body.nextOffset) with
  | none =>
    simp only [Option.getD_none]
    omega
  | some named => simp

def nextPlace (run : Run) (n offset : ℕ) : ℕ := (run.named n).getD (offset + chunk_size)

/-- What the loop needs to go on behind its n-th request. -/
def GoesOn (run : Run) (n offset : ℕ) : Prop :=
  (run.chunkAnswer n).status = 308 ∧ run.nextPlace n offset < run.bytes.length ∧
    run.readable (n + 1) = true

theorem after_chunkRequest {id : Text} {n offset : ℕ} (h : run.after n = run.chunkRequest id offset)
    (hoffset : offset < run.bytes.length) :
    run.GoesOn n offset ∧ run.after (n + 1) = run.chunkRequest id (run.nextPlace n offset) ∨
      ¬ run.GoesOn n offset ∧ ∃ result, run.after (n + 1) = .returned result := by
  have hanswer : run.response (.chunk (min chunk_size (run.bytes.length - offset))) n =
      run.chunkAnswer n := rfl
  rw [after_requesting h, hanswer, answer, afterChunk]
  by_cases hdone : (run.chunkAnswer n).status = 200 ∨ (run.chunkAnswer n).status = 201
  · right
    refine ⟨fun hgoes => ?_, ?_⟩
    · rw [hgoes.1] at hdone
      rcases hdone with hdone | hdone <;> cases hdone
    · rw [if_pos hdone]
      exact ⟨_, rfl⟩
  · rw [if_neg hdone]
    by_cases hstatus : (run.chunkAnswer n).status = 308
    · rw [if_neg (not_not.mpr hstatus)]
      obtain ⟨hlt, heq⟩ := nextOffset_eq id hoffset (run.chunkAnswer n).body
      generalize nextOffset _ _ _ = next at hlt heq
      rcases run.poll_cases id next (run.readable (n + 1)) with
        ⟨⟨hnext, hreadable⟩, hpoll⟩ | ⟨hstop, result, hpoll⟩
      · left
        have hplace : run.nextPlace n offset < run.bytes.length := hlt.mp hnext
        have hsame : next = run.nextPlace n offset := heq hplace
        refine ⟨⟨hstatus, hplace, hreadable⟩, ?_⟩
        rw [← hsame]
        exact hpoll
      · right
        refine ⟨fun hgoes => hstop ⟨hlt.mpr hgoes.2.1, hgoes.2.2⟩, result, hpoll⟩
    · right
      refine ⟨fun hgoes => hstatus hgoes.1, ?_⟩
      rw [if_pos hstatus]
      exact ⟨_, rfl⟩

theorem after_zero (h : run.Ready) :
    run.after 0 =
      .requesting ⟨run.resume_id, 0, 0⟩ (if run.resume_id.isEmpty then .create else .resume) 0 :=
  upload_of_ready h

theorem after_create {u : Upload} {n : ℕ} (h : run.after n = .requesting u .create 0)
    (hoffset : u.offset = 0) :
    run.Opens n ∧ (∃ id, run.after (n + 1) =
        poll run.bytes ⟨id, 0, 0⟩ false (run.readable (n + 1))) ∨
      ¬ run.Opens n ∧ ∃ result, run.after (n + 1) = .returned result := by
  rw [after_requesting h, answer, afterCreate]
  by_cases hstatus : (run.response .create n).status = 201
  · rw [if_neg (not_not.mpr hstatus)]
    by_cases hid : json_string (run.response .create n).body.id = []
    · right
      refine ⟨fun hopens => hopens.2 hid, ?_⟩
      rw [hid]
      exact ⟨_, rfl⟩
    · left
      refine ⟨⟨hstatus, hid⟩, json_string (run.response .create n).body.id, ?_⟩
      rw [if_neg (by simpa using hid), openInput, hoffset]
  · right
    refine ⟨fun hopens => hstatus hopens.1, ?_⟩
    rw [if_pos hstatus]
    exact ⟨_, rfl⟩

theorem Resumes.not_gone (h : run.Resumes) : ¬ run.Gone := by
  have hstatus := h.1
  unfold Gone
  omega

/-- The answer to a resume leads to the loop or to a new session, or the call returns. -/
theorem after_resume (h : run.Ready) (hid : run.resume_id ≠ []) :
    run.Resumes ∧ (∃ id, run.after 1 =
        poll run.bytes ⟨id, run.resumeStart, run.resumeStart⟩ false (run.readable 1)) ∨
      run.Gone ∧ run.after 1 = .requesting ⟨[], 0, 0⟩ .create 0 ∨
      ¬ run.Resumes ∧ ¬ run.Gone ∧ ∃ result, run.after 1 = .returned result := by
  have hzero := after_zero h
  rw [if_neg (by simpa using hid)] at hzero
  rw [after_requesting hzero, answer, afterResume]
  by_cases hstatus : (run.response .resume 0).status = 200
  · have hthere : ¬ run.Gone := by
      unfold Gone
      omega
    rw [if_pos hstatus]
    by_cases hurl : json_string (run.response .resume 0).body.url = []
    · left
      rw [hurl]
      exact ⟨⟨hstatus, hurl⟩, run.resume_id, rfl⟩
    · right; right
      rw [if_pos (by simpa using hurl)]
      exact ⟨fun hresumes => hurl hresumes.2, hthere, _, rfl⟩
  · right
    have hnot : ¬ run.Resumes := fun hresumes => hstatus hresumes.1
    rw [if_neg hstatus]
    by_cases hgone : (run.response .resume 0).status = 404 ∨ (run.response .resume 0).status = 410
    · left
      rw [if_pos hgone]
      exact ⟨hgone, rfl⟩
    · right
      rw [if_neg hgone]
      exact ⟨hnot, hgone, _, rfl⟩

/-- Before the loop is at most the answer to a resume and the creation of a session. -/
theorem enters_or_returned (h : run.Ready) :
    (∃ k start, run.Enters k start) ∨ ∃ n result, run.after n = .returned result := by
  by_cases hid : run.resume_id = []
  · have hzero := after_zero h
    rw [hid] at hzero
    rcases after_create hzero rfl with ⟨hopens, -⟩ | ⟨-, hreturned⟩
    · exact .inl ⟨1, 0, .created hid hopens⟩
    · exact .inr ⟨1, hreturned⟩
  · rcases after_resume h hid with ⟨hresumes, -⟩ | ⟨hgone, hafter⟩ | ⟨-, -, hreturned⟩
    · exact .inl ⟨1, _, .resumed hid hresumes⟩
    · rcases after_create hafter rfl with ⟨hopens, -⟩ | ⟨-, hreturned⟩
      · exact .inl ⟨2, 0, .replaced hid hgone hopens⟩
      · exact .inr ⟨2, hreturned⟩
    · exact .inr ⟨1, hreturned⟩

theorem after_enters (h : run.Ready) {k start : ℕ} (henters : run.Enters k start) :
    ∃ id, run.after k = poll run.bytes ⟨id, start, start⟩ false (run.readable k) := by
  cases henters with
  | created hid hopens =>
    have hzero := after_zero h
    rw [hid] at hzero
    rcases after_create hzero rfl with ⟨-, hafter⟩ | ⟨hnot, -⟩
    · exact hafter
    · exact absurd hopens hnot
  | resumed hid hresumes =>
    rcases after_resume h hid with ⟨-, hafter⟩ | ⟨hgone, -⟩ | ⟨hnot, -⟩
    · exact hafter
    · exact absurd hgone hresumes.not_gone
    · exact absurd hresumes hnot
  | replaced hid hgone hopens =>
    rcases after_resume h hid with ⟨hresumes, -⟩ | ⟨-, hafter⟩ | ⟨-, hnot, -⟩
    · exact absurd hgone hresumes.not_gone
    · rcases after_create hafter rfl with ⟨-, hafter⟩ | ⟨hnot, -⟩
      · exact hafter
      · exact absurd hopens hnot
    · exact absurd hgone hnot

/-- In a loop that stalls every request is followed by the next one. -/
theorem after_of_endless (h : run.Ready) {k start : ℕ} (henters : run.Enters k start)
    (hendless : ∀ n, (run.chunkAnswer (k + n)).status = 308 ∧
      run.place k start n < run.bytes.length ∧ run.readable (k + n) = true) (n : ℕ) :
    ∃ id, run.after (k + n) = run.chunkRequest id (run.place k start n) := by
  induction n with
  | zero =>
    obtain ⟨id, hafter⟩ := after_enters h henters
    obtain ⟨-, hplace, hreadable⟩ := hendless 0
    rcases run.poll_cases id start (run.readable k) with ⟨-, hpoll⟩ | ⟨hnot, -⟩
    · exact ⟨id, hafter.trans hpoll⟩
    · exact absurd ⟨hplace, hreadable⟩ hnot
  | succ n ih =>
    obtain ⟨id, hafter⟩ := ih
    have hgoes : run.GoesOn (k + n) (run.place k start n) :=
      ⟨(hendless n).1, (hendless (n + 1)).2.1, (hendless (n + 1)).2.2⟩
    rcases after_chunkRequest hafter (hendless n).2.1 with ⟨-, hnext⟩ | ⟨hnot, -⟩
    · exact ⟨id, hnext⟩
    · exact absurd hgoes hnot

/-- A loop that never returns goes where the answers lead. -/
theorem after_of_not_returns (h : run.Ready) (hnot : ¬ run.Returns) {k start : ℕ}
    (henters : run.Enters k start) (n : ℕ) :
    (∃ id, run.after (k + n) = run.chunkRequest id (run.place k start n)) ∧
      run.place k start n < run.bytes.length ∧ run.readable (k + n) = true := by
  induction n with
  | zero =>
    obtain ⟨id, hafter⟩ := after_enters h henters
    rcases run.poll_cases id start (run.readable k) with ⟨hgoes, hpoll⟩ | ⟨-, result, hpoll⟩
    · exact ⟨⟨id, hafter.trans hpoll⟩, hgoes⟩
    · exact absurd ⟨k, result, hafter.trans hpoll⟩ hnot
  | succ n ih =>
    obtain ⟨⟨id, hafter⟩, hplace, -⟩ := ih
    rcases after_chunkRequest hafter hplace with ⟨hgoes, hnext⟩ | ⟨-, result, hnext⟩
    · exact ⟨⟨id, hnext⟩, hgoes.2⟩
    · exact absurd ⟨k + n + 1, result, hnext⟩ hnot

/-- `upload` returns exactly when the loop does not stall. -/
theorem returns_iff (run : Run) : run.Returns ↔ ¬ run.Stalls := by
  constructor
  · rintro ⟨n, result, hreturned⟩ ⟨hready, k, start, henters, hendless⟩
    obtain ⟨id, hafter⟩ := after_of_endless hready henters hendless n
    have hlater := returned_mono hreturned k
    rw [Nat.add_comm, hafter] at hlater
    cases hlater
  · intro hstalls
    by_contra hnot
    rcases run.ready_or_returned with hready | ⟨result, hreturned⟩
    · rcases enters_or_returned hready with ⟨k, start, henters⟩ | ⟨n, hreturned⟩
      · refine hstalls ⟨hready, k, start, henters, fun n => ?_⟩
        obtain ⟨⟨id, hafter⟩, hplace, hreadable⟩ := after_of_not_returns hready hnot henters n
        refine ⟨?_, hplace, hreadable⟩
        rcases after_chunkRequest hafter hplace with ⟨hgoes, -⟩ | ⟨-, result, hnext⟩
        · exact hgoes.1
        · exact absurd ⟨k + n + 1, result, hnext⟩ hnot
      · exact hnot ⟨n, hreturned⟩
    · exact hnot ⟨0, result, hreturned⟩

def repeating (n : ℕ) (_ : ℕ) : Option Response :=
  if n = 0 then some ⟨201, { id := some (text "a") }⟩
  else some ⟨308, { nextOffset := some (text "0") }⟩

def oneByte : Run where
  setup := ⟨true, true, true, true, true⟩
  file := some [0]
  resume_id := []
  attempts := repeating
  readable := fun _ => true

/-- The byte is sent again and again. -/
theorem not_alwaysReturns : ¬ ∀ run : Run, run.Returns := by
  intro hall
  have hsending : ∀ n, oneByte.after (n + 1) = oneByte.chunkRequest (text "a") 0 := by
    intro n
    induction n with
    | zero => decide +kernel
    | succ n ih =>
      have hnext : exchanged oneByte.bytes (repeating 1) true (oneByte.chunkRequest (text "a") 0) =
          oneByte.chunkRequest (text "a") 0 := by
        decide +kernel
      rw [Run.after, ih]
      exact hnext
  obtain ⟨n, result, hreturned⟩ := hall oneByte
  have hlater := returned_mono hreturned 1
  rw [hsending n] at hlater
  cases hlater

end Run
end BrokerUploader
end GambitRecord.Recorder
