import GambitRecord.Library.Runs
import Mathlib.Data.List.Perm.Basic
import Mathlib.Data.List.Range

/-! # The instances of the command pipe

`IpcServer::run` and `IpcServer::stop` on two threads, a step for each call to the system
and each access to `active_pipe_`, with clients that open the pipe at any time. An
instance is known by the number of those made before it; the history keeps every handle
that was closed.
-/

namespace GambitRecord.Recorder
open Library.Runs

/-- Where `run` stands: before the call or the access of this name. -/
inductive Serving where
  | check
  | create
  | publish (pipe : ℕ)
  | connect (pipe : ℕ)
  | check_again (pipe : ℕ) (connected : Bool)
  | handle_client (pipe : ℕ)
  | disconnect (pipe : ℕ)
  | exchange (pipe : ℕ)
  | close (pipe : ℕ)
  | ended
  deriving DecidableEq

inductive Stopping where
  | request_stop
  | exchange
  | close (pipe : ℕ)
  | wake
  | join
  | returned
  deriving DecidableEq

/-- `client` says that the last of the `pipes` instances has been opened by a client. -/
structure PipeServer where
  stop_requested : Bool := false
  active_pipe_ : Option ℕ := none
  thread : Serving := .check
  stopping : Stopping := .request_stop
  client : Bool := false
  opened : List ℕ := []
  closed : List ℕ := []
  pipes : ℕ := 0
  deriving DecidableEq

/-- The instance a client can open. -/
def Serving.listens : Serving → Option ℕ
  | .publish pipe | .connect pipe => some pipe
  | _ => none

namespace PipeServer
variable (s : PipeServer)

def Listening : Prop := s.client = false ∧ ∃ pipe ∈ s.thread.listens, pipe ∈ s.opened

instance : Decidable s.Listening := inferInstanceAs (Decidable (_ ∧ _))

def close (pipe : ℕ) : PipeServer :=
  { s with opened := s.opened.erase pipe, closed := s.closed ++ [pipe] }

/-- `ConnectNamedPipe` returns for a client, which may have left again, or where `stop` has taken
the pipe. -/
def connect (pipe : ℕ) (connected : Bool) : Option PipeServer :=
  if (s.client = true ∧ pipe ∈ s.opened) ∨
      (connected = false ∧ (pipe ∉ s.opened ∨ s.stopping = .close pipe)) then
    some { s with thread := .check_again pipe connected }
  else none

def run (answer : Bool) : Option PipeServer :=
  match s.thread with
  | .check => some { s with thread := if s.stop_requested then .ended else .create }
  | .create =>
    if answer then
      some { s with
        thread := .publish s.pipes
        client := false
        opened := s.pipes :: s.opened
        pipes := s.pipes + 1 }
    else some { s with thread := .ended }
  | .publish pipe => some { s with thread := .connect pipe, active_pipe_ := some pipe }
  | .connect pipe => s.connect pipe answer
  | .check_again pipe connected =>
    some { s with
      thread := if connected ∧ s.stop_requested = false then .handle_client pipe
        else .disconnect pipe }
  | .handle_client pipe => some { s with thread := .disconnect pipe }
  | .disconnect pipe => some { s with thread := .exchange pipe }
  | .exchange pipe =>
    some { s with
      thread := if s.active_pipe_ = some pipe then .close pipe else .check
      active_pipe_ := none }
  | .close pipe => some { s.close pipe with thread := .check }
  | .ended => none

def stop : Option PipeServer :=
  match s.stopping with
  | .request_stop => some { s with stopping := .exchange, stop_requested := true }
  | .exchange =>
    some { s with
      stopping := s.active_pipe_.elim .wake .close
      active_pipe_ := none }
  | .close pipe => some { s.close pipe with stopping := .wake }
  | .wake => some { s with stopping := .join, client := s.client || decide s.Listening }
  | .join => if s.thread = .ended then some { s with stopping := .returned } else none
  | .returned => none

inductive Event where
  | run (answer : Bool)
  | stop
  | client
  deriving DecidableEq

def step : Event → Option PipeServer
  | .run answer => s.run answer
  | .stop => s.stop
  | .client => if s.Listening then some { s with client := true } else none

def machine : Machine PipeServer Event where
  init := {}
  step := step

end PipeServer

/-- The instance whose handle the thread is to close. -/
def Serving.handle (active_pipe_ : Option ℕ) : Serving → Option ℕ
  | .publish pipe | .close pipe => some pipe
  | .connect pipe | .check_again pipe _ | .handle_client pipe | .disconnect pipe
  | .exchange pipe => if active_pipe_ = some pipe then some pipe else none
  | .check | .create | .ended => none

/-- The instance that the thread has published and not yet exchanged. -/
def Serving.published : Serving → Option ℕ
  | .connect pipe | .check_again pipe _ | .handle_client pipe | .disconnect pipe
  | .exchange pipe => some pipe
  | _ => none

/-- The thread makes no instance before it looks at the token, and has none of its own. -/
def Serving.leaves : Serving → Bool
  | .create | .publish _ | .close _ => false
  | _ => true

def Stopping.handle : Stopping → Option ℕ
  | .close pipe => some pipe
  | _ => none

theorem Serving.of_published {thread : Serving} {pipe : ℕ} (h : thread.published = some pipe) :
    thread.handle (some pipe) = some pipe ∧ thread.handle none = none ∧ thread.leaves = true := by
  cases thread <;> simp_all [Serving.published, Serving.handle, Serving.leaves]

namespace PipeServer
variable {s t : PipeServer}

structure Inv (s : PipeServer) : Prop where
  opened : s.opened = (s.thread.handle s.active_pipe_).toList ++ s.stopping.handle.toList
  active : ∀ pipe ∈ s.active_pipe_, s.thread.published = some pipe
  requested : s.stopping ≠ .request_stop → s.stop_requested = true
  taken : ∀ pipe ∈ s.stopping.handle, s.active_pipe_ = none ∧ s.thread.leaves = true
  account : (s.opened ++ s.closed).Perm (List.range s.pipes)

theorem inv_init : machine.init.Inv where
  opened := rfl
  active := by simp [machine]
  requested h := absurd rfl h
  taken := by simp [machine, Stopping.handle]
  account := List.Perm.refl _

theorem Inv.opened_taken (h : s.Inv) (pipe : ℕ) (hpipe : s.stopping.handle = some pipe) :
    s.thread.handle s.active_pipe_ = none ∧ s.opened = [pipe] := by
  obtain ⟨hactive, hleaves⟩ := h.taken pipe hpipe
  have hthread : s.thread.handle s.active_pipe_ = none := by
    rw [hactive]
    cases hthread : s.thread <;> simp_all [Serving.handle, Serving.leaves]
  refine ⟨hthread, ?_⟩
  rw [h.opened, hthread, hpipe]
  rfl

theorem Inv.opened_thread (h : s.Inv) (pipe : ℕ)
    (hpipe : s.thread.handle s.active_pipe_ = some pipe) :
    s.stopping.handle = none ∧ s.opened = [pipe] := by
  have hstopping : s.stopping.handle = none := by
    rw [Option.eq_none_iff_forall_ne_some]
    intro other hother
    rw [(h.opened_taken other hother).1] at hpipe
    cases hpipe
  refine ⟨hstopping, ?_⟩
  rw [h.opened, hpipe, hstopping]
  rfl

theorem Inv.of_moved (h : s.Inv) (thread : Serving)
    (hhandle : thread.handle s.active_pipe_ = s.thread.handle s.active_pipe_)
    (hpublished : thread.published = s.thread.published)
    (hleaves : ∀ pipe ∈ s.stopping.handle, s.thread.leaves = true → thread.leaves = true) :
    { s with thread }.Inv where
  opened := h.opened.trans (by rw [hhandle])
  active := hpublished ▸ h.active
  requested := h.requested
  taken pipe hpipe := ⟨(h.taken pipe hpipe).1, hleaves pipe hpipe (h.taken pipe hpipe).2⟩
  account := h.account

theorem Inv.closes (h : s.Inv) {pipe : ℕ} (hopened : s.opened = [pipe]) :
    (s.close pipe).opened = [] ∧
      ((s.close pipe).opened ++ (s.close pipe).closed).Perm (List.range s.pipes) := by
  have hempty : (s.close pipe).opened = [] := by simp [close, hopened]
  refine ⟨hempty, ?_⟩
  have haccount := h.account
  rw [hopened] at haccount
  rw [hempty]
  exact (List.perm_append_singleton pipe s.closed).trans haccount

/-- A thread that is about to make an instance, or has one that `stop` does not know of. -/
theorem Inv.not_taken (h : s.Inv) (hleaves : s.thread.leaves = false) :
    s.stopping.handle = none := by
  rw [Option.eq_none_iff_forall_ne_some]
  intro pipe hpipe
  rw [(h.taken pipe hpipe).2] at hleaves
  cases hleaves

theorem inv_connect (h : s.Inv) {pipe : ℕ} (hthread : s.thread = .connect pipe) {connected : Bool}
    (hstep : s.connect pipe connected = some t) : t.Inv := by
  simp only [connect, Option.ite_none_right_eq_some, Option.some_inj] at hstep
  obtain ⟨-, rfl⟩ := hstep
  exact h.of_moved _ (by simp [hthread, Serving.handle]) (by simp [hthread, Serving.published])
    fun _ _ _ => rfl

theorem inv_create (h : s.Inv) (hthread : s.thread = .create) : Inv { s with
    thread := .publish s.pipes, client := false, opened := s.pipes :: s.opened,
    pipes := s.pipes + 1 } := by
  have hstopping := h.not_taken (by rw [hthread]; rfl)
  have hopened : s.opened = [] := by simp [h.opened, hthread, hstopping, Serving.handle]
  refine ⟨?_, ?_, h.requested, by simp [hstopping], ?_⟩
  · simp [hopened, hstopping, Serving.handle]
  · intro pipe hpipe
    have hpublished := h.active pipe hpipe
    rw [hthread] at hpublished
    cases hpublished
  · change (s.pipes :: (s.opened ++ s.closed)).Perm (List.range (s.pipes + 1))
    rw [List.range_succ]
    exact (h.account.cons s.pipes).trans (List.perm_append_singleton _ _).symm

theorem inv_publish (h : s.Inv) {pipe : ℕ} (hthread : s.thread = .publish pipe) :
    Inv { s with thread := .connect pipe, active_pipe_ := some pipe } := by
  obtain ⟨hstopping, hopened⟩ := h.opened_thread pipe (by rw [hthread]; rfl)
  refine ⟨?_, ?_, h.requested, by simp [hstopping], h.account⟩
  · simp [hopened, hstopping, Serving.handle]
  · rintro _ ⟨⟩
    rfl

theorem inv_exchange (h : s.Inv) {pipe : ℕ} (hthread : s.thread = .exchange pipe) : Inv { s with
    thread := if s.active_pipe_ = some pipe then .close pipe else .check
    active_pipe_ := none } := by
  split_ifs with hactive
  · obtain ⟨hstopping, hopened⟩ := h.opened_thread pipe
      (by rw [hthread, hactive]; exact if_pos rfl)
    refine ⟨?_, by simp, h.requested, by simp [hstopping], h.account⟩
    simp [hopened, hstopping, Serving.handle]
  · -- `stop` has taken the instance, and the thread leaves it alone.
    refine ⟨?_, by simp, h.requested, fun _ _ => ⟨rfl, rfl⟩, h.account⟩
    simp [h.opened, hthread, hactive, Serving.handle]

theorem inv_close (h : s.Inv) {pipe : ℕ} (hthread : s.thread = .close pipe) :
    Inv { s.close pipe with thread := .check } := by
  obtain ⟨hstopping, hopened⟩ := h.opened_thread pipe (by rw [hthread]; rfl)
  obtain ⟨hempty, haccount⟩ := h.closes hopened
  have hactive (other : ℕ) (hother : other ∈ s.active_pipe_) :
      Serving.check.published = some other := by
    have hpublished := h.active other hother
    rw [hthread] at hpublished
    cases hpublished
  refine ⟨?_, hactive, h.requested, ?_, haccount⟩
  · change (s.close pipe).opened = _ ++ s.stopping.handle.toList
    rw [hempty, hstopping]
    rfl
  · change ∀ other ∈ s.stopping.handle, _
    simp [hstopping]

theorem inv_serving (h : s.Inv) {answer : Bool} (hstep : s.run answer = some t) : t.Inv := by
  unfold run at hstep
  cases hthread : s.thread with
  | check =>
    rw [hthread] at hstep
    cases hstep
    -- Where `stop` has an instance the token is set, so that no other one is made.
    have hleaves (pipe : ℕ) (hpipe : pipe ∈ s.stopping.handle) : s.stop_requested = true := by
      refine h.requested fun hstopping => ?_
      rw [hstopping] at hpipe
      cases hpipe
    refine h.of_moved _ ?_ ?_ fun pipe hpipe _ => ?_
    · rw [hthread]
      split_ifs <;> rfl
    · rw [hthread]
      split_ifs <;> rfl
    · rw [if_pos (hleaves pipe hpipe)]
      rfl
  | create =>
    rw [hthread] at hstep
    dsimp only at hstep
    split_ifs at hstep
    · cases hstep
      exact inv_create h hthread
    · cases hstep
      exact h.of_moved _ (by rw [hthread]; rfl) (by rw [hthread]; rfl) fun _ _ _ => rfl
  | publish pipe =>
    rw [hthread] at hstep
    cases hstep
    exact inv_publish h hthread
  | connect pipe =>
    rw [hthread] at hstep
    exact inv_connect h hthread hstep
  | check_again pipe connected =>
    rw [hthread] at hstep
    cases hstep
    refine h.of_moved _ ?_ ?_ fun _ _ _ => ?_
    · rw [hthread]
      split_ifs <;> rfl
    · rw [hthread]
      split_ifs <;> rfl
    · split_ifs <;> rfl
  | handle_client pipe =>
    rw [hthread] at hstep
    cases hstep
    exact h.of_moved _ (by rw [hthread]; rfl) (by rw [hthread]; rfl) fun _ _ _ => rfl
  | disconnect pipe =>
    rw [hthread] at hstep
    cases hstep
    exact h.of_moved _ (by rw [hthread]; rfl) (by rw [hthread]; rfl) fun _ _ _ => rfl
  | exchange pipe =>
    rw [hthread] at hstep
    cases hstep
    exact inv_exchange h hthread
  | close pipe =>
    rw [hthread] at hstep
    cases hstep
    exact inv_close h hthread
  | ended =>
    rw [hthread] at hstep
    cases hstep

theorem inv_stopping (h : s.Inv) (hstep : s.stop = some t) : t.Inv := by
  unfold stop at hstep
  cases hstopping : s.stopping with
  | request_stop =>
    rw [hstopping] at hstep
    cases hstep
    refine ⟨?_, h.active, fun _ => rfl, by simp [Stopping.handle], h.account⟩
    rw [h.opened, hstopping]
    rfl
  | exchange =>
    rw [hstopping] at hstep
    have hrequested := h.requested (by simp [hstopping])
    have hopened : s.opened = (s.thread.handle s.active_pipe_).toList := by
      rw [h.opened, hstopping]
      exact List.append_nil _
    cases hactive : s.active_pipe_ with
    | none =>
      rw [hactive] at hstep hopened
      cases hstep
      exact ⟨by simp [hopened, Stopping.handle], by simp, fun _ => hrequested,
        by simp [Stopping.handle], h.account⟩
    | some pipe =>
      obtain ⟨hheld, hnone, hleaves⟩ := Serving.of_published (h.active pipe hactive)
      rw [hactive] at hstep hopened
      cases hstep
      refine ⟨?_, by simp, fun _ => hrequested, fun _ _ => ⟨rfl, hleaves⟩, h.account⟩
      simp [hopened, hheld, hnone, Stopping.handle]
  | close pipe =>
    rw [hstopping] at hstep
    cases hstep
    obtain ⟨hthread, hopened⟩ := h.opened_taken pipe (by rw [hstopping]; rfl)
    obtain ⟨hempty, haccount⟩ := h.closes hopened
    refine ⟨?_, h.active, fun _ => h.requested (by simp [hstopping]), by simp [Stopping.handle],
      haccount⟩
    change (s.close pipe).opened = (s.thread.handle s.active_pipe_).toList ++ _
    rw [hempty, hthread]
    rfl
  | wake =>
    rw [hstopping] at hstep
    cases hstep
    refine ⟨?_, h.active, fun _ => h.requested (by simp [hstopping]), by simp [Stopping.handle],
      h.account⟩
    rw [h.opened, hstopping]
    rfl
  | join =>
    rw [hstopping] at hstep
    simp only [Option.ite_none_right_eq_some, Option.some_inj] at hstep
    obtain ⟨-, rfl⟩ := hstep
    refine ⟨?_, h.active, fun _ => h.requested (by simp [hstopping]), by simp [Stopping.handle],
      h.account⟩
    rw [h.opened, hstopping]
    rfl
  | returned =>
    rw [hstopping] at hstep
    cases hstep

theorem inv_step {e : Event} (h : s.Inv) (hstep : s.step e = some t) : t.Inv := by
  cases e with
  | run answer => exact inv_serving h hstep
  | stop => exact inv_stopping h hstep
  | client =>
    simp only [step, Option.ite_none_right_eq_some, Option.some_inj] at hstep
    obtain ⟨-, rfl⟩ := hstep
    exact ⟨h.opened, h.active, h.requested, h.taken, h.account⟩

theorem inv_run {es : List Event} (hrun : machine.run es = some s) : s.Inv :=
  Machine.invariant (M := machine) (fun _ _ _ h hstep => inv_step h hstep) hrun inv_init

/-! ## Whole runs -/

/-- Every instance that was made is open or was closed once, no two are open, the last one is closed
before the next is made, and none is left by a thread that has ended. -/
structure Accounted (s : PipeServer) : Prop where
  once : s.closed.Nodup
  apart : ∀ pipe ∈ s.closed, pipe ∉ s.opened
  made : ∀ pipe, pipe ∈ s.opened ∨ pipe ∈ s.closed ↔ pipe < s.pipes
  single : s.opened.length ≤ 1
  free : s.thread = .create → s.opened = []
  left : s.thread = .ended → s.stopping.handle = none → s.opened = []

theorem closed_once {es : List Event} (hrun : machine.run es = some s) : s.Accounted := by
  have h := inv_run hrun
  have hnodup := h.account.nodup_iff.mpr List.nodup_range
  rw [List.nodup_append] at hnodup
  refine ⟨hnodup.2.1, fun pipe hclosed hopened => ?_, fun pipe => ?_, ?_, fun hthread => ?_,
    fun hthread hstopping => ?_⟩
  · exact hnodup.2.2 pipe hopened pipe hclosed rfl
  · rw [← List.mem_append, h.account.mem_iff, List.mem_range]
  · cases hstopping : s.stopping.handle with
    | some pipe => rw [(h.opened_taken pipe hstopping).2, List.length_singleton]
    | none =>
      rw [h.opened, hstopping, Option.toList_none, List.append_nil]
      exact Option.length_toList_le
  · have hstopping := h.not_taken (by rw [hthread]; rfl)
    simp [h.opened, hthread, hstopping, Serving.handle]
  · simp [h.opened, hthread, hstopping, Serving.handle]

/-- A client is served, and `stop` takes the second instance while the thread waits on it. -/
def takenRun : List Event :=
  [.run true, .run true, .run true, .client, .run true, .run true, .run true, .run true, .run true,
    .run true, .run true, .run true, .run true, .stop, .stop, .run false, .run true, .stop,
    .run true, .run true, .run true, .stop, .stop]

theorem takenRun_accepted : (machine.run takenRun).isSome := by decide

theorem closed_once_takenRun :
    let s := (machine.run takenRun).get takenRun_accepted
    s.stopping = .returned ∧ s.closed = [0, 1] ∧ s.Accounted :=
  ⟨by decide, by decide, closed_once (Option.some_get takenRun_accepted).symm⟩

end PipeServer
end GambitRecord.Recorder
