import GambitRecord.Broker.UploadSession
import GambitRecord.Library.Runs

/-! # A session that is cancelled or expires

`/cancel` and `alarm` delete everything the session stores, while handlers may
still await YouTube with a copy of the state of their own. YouTube's answers are
arbitrary here, and they reach the handlers in any order.
-/

namespace GambitRecord.Broker.SessionEnd
open Library Library.DigitText Library.Runs

/-- What the object stores, and the handlers that await YouTube. -/
structure Session where
  storage : Option UploadState
  handlers : List Pending
  deriving DecidableEq

inductive Event where
  | request (now : ℕ) (request : SessionRequest)
  | answer (handler : ℕ) (answer : Answer)
  | abort (handler : ℕ)
  | alarm
  deriving DecidableEq

/-- A handler up to its response or its await. -/
def start (session : Session) (now : ℕ) (request : SessionRequest) : Session :=
  match UploadSession.fetch now session.storage request with
  | (storage, .respond _) => { session with storage }
  | (storage, .forward pending) => ⟨storage, session.handlers ++ [pending]⟩

def step (session : Session) : Event → Option Session
  | .request now request => some (start session now request)
  | .answer i answer =>
    session.handlers[i]?.map fun pending =>
      ⟨(UploadSession.resume session.storage pending answer).1, session.handlers.eraseIdx i⟩
  | .abort i => some { session with handlers := session.handlers.eraseIdx i }
  | .alarm => some { session with storage := UploadSession.alarm }

def machine (now : ℕ) (uploadUrl : Text) (total : ℕ) : Machine Session Event where
  init := ⟨some (UploadSession.init now uploadUrl total), []⟩
  step := step

/-- A cancellation that is carried out, or the alarm. -/
def Ends (session : Session) : Event → Prop
  | .request now request =>
    request.path = .cancel ∧ request.method = .post ∧
      ∃ state ∈ session.storage, isExpired state.expiresAt now = false
  | .alarm => True
  | .answer _ _ | .abort _ => False

/-- Nothing is stored, and whatever is asked next is answered 410. -/
def Gone (session : Session) : Prop :=
  session.storage = none ∧ ∀ now request,
    UploadSession.fetch now session.storage request =
      (none, .respond ⟨410, { error := some (text "upload_expired") }⟩)

def StaysGone (now : ℕ) (uploadUrl : Text) (total : ℕ) (session : Session)
    (events : List Event) : Prop :=
  ∀ es fs t, events = es ++ fs → (machine now uploadUrl total).runFrom session es = some t →
    Gone t

def AlwaysStaysGone : Prop :=
  ∀ now uploadUrl total es e fs s t,
    (machine now uploadUrl total).run es = some s → Ends s e → step s e = some t →
      StaysGone now uploadUrl total t fs

def chunkRequest : SessionRequest :=
  { path := .chunk, method := .put, contentRange := some (contentRange 0 0 2), contentLength := 1,
    maxChunk := 1, body := [0] }

def cancelRequest : SessionRequest :=
  { path := .cancel, method := .post, contentRange := none, contentLength := 0, maxChunk := 1,
    body := [] }

def awaiting : Session :=
  ⟨some (UploadSession.init 0 [] 2),
    [⟨UploadSession.init 0 [] 2, ⟨0, 0, 2⟩, some (contentRange 0 0 2), [0]⟩]⟩

theorem run_awaiting : (machine 0 [] 2).run [.request 0 chunkRequest] = some awaiting := by
  decide +kernel

def lateAnswer : Answer := ⟨308, some (heldRange 0), .unreadable⟩

/-- A chunk is at YouTube while its session is cancelled; its 308 stores the state again. -/
theorem not_alwaysStaysGone : ¬AlwaysStaysGone := by
  intro h
  have hgone := h 0 [] 2 [.request 0 chunkRequest] (.request 1 cancelRequest) [.answer 0 lateAnswer]
    awaiting ⟨none, awaiting.handlers⟩ run_awaiting ⟨rfl, rfl, _, rfl, rfl⟩ rfl
    [.answer 0 lateAnswer] [] ⟨some { UploadSession.init 0 [] 2 with nextOffset := 1 }, []⟩ rfl
    (by decide +kernel)
  cases hgone.1

/-- A late answer of YouTube that no handler writes back: neither 308 nor a success whose body
can be read. -/
def Discards (session : Session) : Event → Prop
  | .answer i answer =>
    i < session.handlers.length →
      answer.status ≠ 308 ∧
        (answer.status = 200 ∨ answer.status = 201 → answer.body = .unreadable)
  | .request _ _ | .abort _ | .alarm => True

instance (session : Session) : DecidablePred (Discards session)
  | .answer i answer =>
    inferInstanceAs (Decidable (i < session.handlers.length →
      answer.status ≠ 308 ∧
        (answer.status = 200 ∨ answer.status = 201 → answer.body = .unreadable)))
  | .request _ _ => instDecidableTrue
  | .abort _ => instDecidableTrue
  | .alarm => instDecidableTrue

theorem gone_iff {session : Session} : Gone session ↔ session.storage = none := by
  constructor
  · intro h
    exact h.1
  · intro h
    refine ⟨h, fun now request => ?_⟩
    rw [h]
    rfl

theorem start_gone {session : Session} (h : session.storage = none) (now : ℕ)
    (request : SessionRequest) : (start session now request).storage = none := by
  simp [start, h, UploadSession.fetch]

theorem start_ends {session : Session} {now : ℕ} {request : SessionRequest}
    (h : Ends session (.request now request)) : (start session now request).storage = none := by
  obtain ⟨hpath, hmethod, state, hstate, hlive⟩ := h
  simp [start, Option.mem_def.mp hstate, UploadSession.fetch, hlive, hpath, hmethod]

theorem step_ends {s t : Session} {e : Event} (h : Ends s e) (hstep : step s e = some t) :
    t.storage = none := by
  cases e with
  | request now request =>
    cases hstep
    exact start_ends h
  | answer i answer => exact h.elim
  | abort i => exact h.elim
  | alarm =>
    cases hstep
    rfl

/-- An answer leaves nothing to write back exactly when it is neither 308 nor a readable
success. -/
theorem afterAnswer_eq_none (pending : Pending) (answer : Answer) :
    UploadSession.afterAnswer pending answer = none ↔
      answer.status ≠ 308 ∧
        (answer.status = 200 ∨ answer.status = 201 → answer.body = .unreadable) := by
  unfold UploadSession.afterAnswer
  by_cases h308 : answer.status = 308
  · simp [h308]
  · rw [if_neg h308]
    by_cases hdone : answer.status = 200 ∨ answer.status = 201
    · rw [if_pos hdone]
      cases hb : answer.body <;> simp [h308, hdone]
    · simp [h308, hdone]

/-- From a session that is gone, a step keeps it so exactly when it discards a late answer. -/
theorem step_gone {s t : Session} {e : Event} (hs : s.storage = none) (hstep : step s e = some t) :
    t.storage = none ↔ Discards s e := by
  cases e with
  | request now request =>
    cases hstep
    exact iff_of_true (start_gone hs now request) trivial
  | answer i answer =>
    simp only [step, Option.map_eq_some_iff] at hstep
    obtain ⟨pending, hget, rfl⟩ := hstep
    have hlt : i < s.handlers.length := (List.getElem?_eq_some_iff.mp hget).1
    change (UploadSession.afterAnswer pending answer).or s.storage = none ↔ _
    rw [hs, Option.or_none, afterAnswer_eq_none]
    exact ⟨fun h _ => h, fun h => h hlt⟩
  | abort i =>
    cases hstep
    exact iff_of_true hs trivial
  | alarm =>
    cases hstep
    exact iff_of_true rfl trivial

theorem discards_of_refused {s : Session} {e : Event} (h : step s e = none) : Discards s e := by
  cases e with
  | answer i answer =>
    intro hlt
    simp [step, List.getElem?_eq_getElem hlt] at h
  | request now request => trivial
  | abort i => trivial
  | alarm => trivial

variable {now total : ℕ} {uploadUrl : Text}

theorem staysGone_cons {s : Session} {e : Event} {es : List Event} :
    StaysGone now uploadUrl total s (e :: es) ↔
      Gone s ∧ ∀ t, step s e = some t → StaysGone now uploadUrl total t es := by
  constructor
  · intro h
    refine ⟨h [] (e :: es) s rfl rfl, fun t ht fs gs u hes hrun => ?_⟩
    exact h (e :: fs) gs u (by rw [hes]; rfl)
      ((machine now uploadUrl total).runFrom_cons.mpr ⟨t, ht, hrun⟩)
  · intro h fs gs u hes hrun
    cases fs with
    | nil =>
      cases hrun
      exact h.1
    | cons f fs =>
      cases hes
      obtain ⟨t, ht, hrun⟩ := (machine now uploadUrl total).runFrom_cons.mp hrun
      exact h.2 t ht fs gs u rfl hrun

/-- By induction on what follows the end: the first late answer that is not discarded brings the
state back. -/
theorem staysGone_iff_along {s : Session} (hs : s.storage = none) (es : List Event) :
    StaysGone now uploadUrl total s es ↔
      (machine now uploadUrl total).Along Discards s es := by
  induction es generalizing s with
  | nil =>
    refine iff_of_true (fun fs gs t hes hrun => ?_) trivial
    cases fs with
    | nil =>
      cases hrun
      exact gone_iff.mpr hs
    | cons f fs => cases hes
  | cons e es ih =>
    rw [staysGone_cons, Machine.along_cons]
    constructor
    · intro h
      have hgone : ∀ t, step s e = some t → t.storage = none := fun t ht =>
        (h.2 t ht [] es t rfl rfl).1
      refine ⟨?_, fun t ht => (ih (hgone t ht)).mp (h.2 t ht)⟩
      cases ht : step s e with
      | none => exact discards_of_refused ht
      | some t => exact (step_gone hs ht).mp (hgone t ht)
    · intro h
      refine ⟨gone_iff.mpr hs, fun t ht => ?_⟩
      exact (ih ((step_gone hs ht).mpr h.1)).mpr (h.2 t ht)

/-- After a cancellation or the alarm, the session stays gone exactly when every late answer is
one that its handler does not write back. -/
theorem staysGone_iff {s t : Session} {e : Event} (hends : Ends s e) (hstep : step s e = some t)
    (fs : List Event) :
    StaysGone now uploadUrl total t fs ↔
      (machine now uploadUrl total).Along Discards t fs :=
  staysGone_iff_along (step_ends hends hstep) fs

/-- A late server error is discarded, and so is what is asked after it. -/
theorem staysGone_cancelledSession :
    StaysGone 0 [] 2 ⟨none, awaiting.handlers⟩
      [.answer 0 ⟨503, none, .unreadable⟩, .request 2 chunkRequest] :=
  (staysGone_iff (s := awaiting) (e := .request 1 cancelRequest) ⟨rfl, rfl, _, rfl, rfl⟩ rfl _).mpr
    (by decide +kernel)

end GambitRecord.Broker.SessionEnd
