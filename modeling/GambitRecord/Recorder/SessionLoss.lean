import GambitRecord.Library.Runs
import GambitRecord.Recorder.UploadJob

/-! # A session that no longer exists

One job of the queue over its upload calls, with any answer of the broker to any
request. A 404 or 410 says that the session is gone. The status request then
opens another one; a chunk ends the call, and the job is rejected.
-/

namespace GambitRecord.Recorder
open Library Library.DigitText Library.Runs Broker

structure JobEntry where
  attempts : UInt32
  upload_id : Text
  deriving DecidableEq

/-- A job in the queue, one whose upload call runs, with the file that the call has found and
whether the last answer to it was that the session is gone, and one that the queue has dropped,
with the last of these. -/
inductive JobRun where
  | queued (entry : JobEntry)
  | calling (entry : JobEntry) (file : List UInt8) (client : Client) (lost : Bool)
  | erased (lost : Bool)
  deriving DecidableEq

namespace JobRun

/-- A call starts; its request is answered or fails; its loop goes on; its result is settled; the
recorder starts again with an entry of the state file. -/
inductive Event where
  | start (setup : Setup) (file : Option (List UInt8))
  | answer (exchange : Exchange) (response : Response)
  | fail
  | poll (stop readable : Bool)
  | settle
  | restart (entry : JobEntry)
  deriving DecidableEq

/-- The broker answers a status request or a chunk that its session does not exist. -/
def ReportsLoss (exchange : Exchange) (response : Response) : Prop :=
  exchange ≠ .create ∧ (response.status = 404 ∨ response.status = 410)

instance (exchange : Exchange) (response : Response) : Decidable (ReportsLoss exchange response) :=
  instDecidableAnd

def settled (entry : JobEntry) (result : UploadResult) (lost : Bool) : JobRun :=
  match verdict entry.attempts result with
  | .retry => .queued ⟨entry.attempts + 1, result.upload_id⟩
  | _ => .erased lost

def step : JobRun → Event → Option JobRun
  | .queued entry, .start setup file =>
    some (.calling entry (file.getD []) (BrokerUploader.upload setup file entry.upload_id) false)
  | .calling entry file (.requesting u exchange _) _, .answer answered response =>
    if answered = exchange then
      some (.calling entry file (BrokerUploader.answer file u response exchange)
        (ReportsLoss exchange response))
    else none
  | .calling entry file (.requesting u exchange attempt) _, .fail =>
    some (.calling entry file (BrokerUploader.retry file u exchange attempt) false)
  | .calling entry file (.looping u) _, .poll stop readable =>
    some (.calling entry file (BrokerUploader.poll file u stop readable) false)
  | .calling entry _ (.returned result) lost, .settle => some (settled entry result lost)
  | _, .restart entry => some (.queued entry)
  | _, _ => none

def machine : Machine JobRun Event where
  init := .queued ⟨0, []⟩
  step := step

/-- The call asks for a fresh session, or it has ended to be made again without the dead one. -/
def Recovers (entry : JobEntry) : Client → Prop
  | .requesting u exchange _ => exchange = .create ∧ u.upload_id = []
  | .looping _ => False
  | .returned result => verdict entry.attempts result = .retry ∧ result.upload_id = []

/-- After the loss of a session the call recovers, and no job is dropped for one. -/
def Recovered : JobRun → Prop
  | .queued _ => True
  | .calling entry _ client lost => lost = true → Recovers entry client
  | .erased lost => lost = false

/-- No chunk is answered that its session is gone. -/
def Spared : Event → Prop
  | .answer (.chunk _) response => response.status ≠ 404 ∧ response.status ≠ 410
  | _ => True

instance : DecidablePred Spared
  | .answer (.chunk _) _ => instDecidableAnd
  | .answer .resume _ => instDecidableTrue
  | .answer .create _ => instDecidableTrue
  | .start _ _ => instDecidableTrue
  | .fail => instDecidableTrue
  | .poll _ _ => instDecidableTrue
  | .settle => instDecidableTrue
  | .restart _ => instDecidableTrue

/-- As every session does from its expiry on, in the middle of an upload too. -/
theorem reportsLoss_of_expired {now : ℕ} {state : UploadState} {request : SessionRequest}
    {exchange : Exchange} (hexpired : state.expiresAt ≤ now) (hcreate : exchange ≠ .create) :
    ∃ response, UploadSession.fetch now (some state) request = (some state, .respond response) ∧
      ReportsLoss exchange response := by
  rw [UploadSession.fetch_expired hexpired]
  exact ⟨_, rfl, hcreate, .inr rfl⟩

theorem afterChunk_of_lost {u : Upload} {count : ℕ} {response : Response}
    (h : response.status = 404 ∨ response.status = 410) :
    BrokerUploader.afterChunk u count response =
      BrokerUploader.failed u.upload_id false (.uploadFailed response) := by
  rcases h with h | h <;> simp [BrokerUploader.afterChunk, retryable_status, h]

/-- The job whose call ends so is rejected. -/
theorem not_recovers_afterChunk {entry : JobEntry} {u : Upload} {count : ℕ} {response : Response}
    (h : response.status = 404 ∨ response.status = 410) :
    ¬ Recovers entry (BrokerUploader.afterChunk u count response) := by
  rw [afterChunk_of_lost h]
  rintro ⟨hretry, -⟩
  have hrejected : verdict entry.attempts
      { upload_id := u.upload_id, error := some (.uploadFailed response) } = .rejected :=
    verdict_rejected_iff.mpr ⟨rfl, rfl⟩
  rw [hrejected] at hretry
  cases hretry

theorem recovers_afterResume {entry : JobEntry} {file : List UInt8} {u : Upload}
    {response : Response} (h : response.status = 404 ∨ response.status = 410) :
    Recovers entry (BrokerUploader.afterResume file u response) := by
  have hne : response.status ≠ 200 := by omega
  rw [BrokerUploader.afterResume, if_neg hne, if_pos h]
  exact ⟨rfl, rfl⟩

/-- A call recovers from an answer exactly when it is not the loss of the session at a chunk. -/
theorem recovered_answer_iff {entry : JobEntry} {file : List UInt8} {u : Upload}
    {exchange : Exchange} {response : Response} :
    Recovered (.calling entry file (BrokerUploader.answer file u response exchange)
      (ReportsLoss exchange response)) ↔ Spared (.answer exchange response) := by
  cases exchange with
  | resume =>
    refine iff_of_true (fun hlost => ?_) trivial
    exact recovers_afterResume (of_decide_eq_true hlost).2
  | create =>
    refine iff_of_true (fun hlost => ?_) trivial
    exact absurd rfl (of_decide_eq_true hlost).1
  | chunk count =>
    constructor
    · intro hrecovered
      by_contra hspared
      have hlost : response.status = 404 ∨ response.status = 410 := by
        simp only [Spared] at hspared
        omega
      exact not_recovers_afterChunk hlost (hrecovered (decide_eq_true ⟨by simp, hlost⟩))
    · rintro ⟨h404, h410⟩ hlost
      rcases (of_decide_eq_true hlost).2 with h | h
      · exact absurd h h404
      · exact absurd h h410

theorem recovered_settled {entry : JobEntry} {result : UploadResult} {lost : Bool}
    (h : lost = true → Recovers entry (.returned result)) :
    Recovered (settled entry result lost) := by
  unfold settled
  cases lost with
  | false => cases verdict entry.attempts result <;> trivial
  | true =>
    rw [(h rfl).1]
    trivial

/-- From a job that has recovered, a step leads to one exactly when it spares the running chunk. -/
theorem recovered_step_iff {s t : JobRun} {e : Event} (hs : Recovered s)
    (h : step s e = some t) : Recovered t ↔ Spared e := by
  unfold step at h
  split at h
  -- a call starts
  · cases h
    exact iff_of_true (fun hlost => absurd hlost Bool.false_ne_true) trivial
  -- its request is answered
  · split_ifs at h with hsame
    cases h
    rw [hsame]
    exact recovered_answer_iff
  -- its request fails
  · cases h
    exact iff_of_true (fun hlost => absurd hlost Bool.false_ne_true) trivial
  -- its loop goes on
  · cases h
    exact iff_of_true (fun hlost => absurd hlost Bool.false_ne_true) trivial
  -- its result is settled
  · cases h
    exact iff_of_true (recovered_settled hs) trivial
  -- the recorder starts again
  · cases h
    exact iff_of_true trivial trivial
  · cases h

/-- A run recovers from every loss of a session exactly when no chunk is answered that its session is
gone. -/
theorem recovered_iff (es : List Event) (t : JobRun) (hrun : machine.run es = some t) :
    (∀ fs s, fs <+: es → machine.run fs = some s → Recovered s) ↔ ∀ e ∈ es, Spared e :=
  Machine.reached_iff (fun _ _ _ hs h => recovered_step_iff hs h) hrun trivial

def ready : Setup := ⟨true, true, true, true, true⟩

def expired : Response := ⟨410, { error := some (text "upload_expired") }⟩

/-- A file of one byte, started on a session that is gone and sent in a fresh one. -/
def resumedRun : List Event :=
  [.restart ⟨1, text "a"⟩, .start ready (some [7]), .answer .resume expired,
    .answer .create ⟨201, { id := some (text "b") }⟩, .poll false true,
    .answer (.chunk 1) ⟨201, { videoId := some (text "v") }⟩, .settle]

theorem resumedRun_accepted : (machine.run resumedRun).isSome := by
  decide +kernel

theorem recovered_resumedRun :
    (∀ fs s, fs <+: resumedRun → machine.run fs = some s → Recovered s) ↔
      ∀ e ∈ resumedRun, Spared e :=
  recovered_iff resumedRun _ (Option.some_get resumedRun_accepted).symm

/-- The session expires before its chunk arrives. -/
def expiredRun : List Event :=
  [.start ready (some [7]), .answer .create ⟨201, { id := some (text "a") }⟩, .poll false true,
    .answer (.chunk 1) expired, .settle]

/-- The job is then dropped at its first attempt. -/
theorem not_alwaysRecovered : ¬ ∀ es s, machine.run es = some s → Recovered s := by
  intro hall
  have hrun : machine.run expiredRun = some (.erased true) := by
    decide +kernel
  exact absurd (hall expiredRun _ hrun) Bool.false_ne_true.symm

end JobRun
end GambitRecord.Recorder
