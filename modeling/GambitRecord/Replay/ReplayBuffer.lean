import GambitRecord.Library.Runs
import GambitRecord.Replay.SegmentStore

/-! # The replay buffer

`ReplayBuffer` at the accesses to its atomic state: any number of calls and of save
tasks run side by side, each from one access to the next. `stop` gives way to a
save by the state alone, and a failed append takes the buffer out of that state
while the save goes on.
-/

namespace GambitRecord.Replay
open Library.Runs Recorder

/-- A call between two accesses. -/
inductive ReplayCall where
  /-- `start` after its exchange. -/
  | starting
  /-- `stop` after its load. -/
  | stopping
  /-- `stop` with the store cleared. -/
  | cleared
  /-- `on_sample` after a first load that was not `Running`. -/
  | rechecking (sample : EncodedSample)
  /-- `on_sample` past its check. -/
  | appending (sample : EncodedSample)
  /-- `save` past its check, with the mutex. -/
  | saving
  /-- `save` in the state `Saving`, with the mutex. -/
  | snapshotting
  | returned
  deriving DecidableEq

/-- A thrown append leaves some store behind. -/
inductive Appended where
  | stored
  | threw (store : SegmentStore)
  deriving DecidableEq

structure ReplayBuffer where
  state : ReplayState := .Stopped
  store : SegmentStore
  save_active : Bool := false
  save_mutex : Bool := false
  calls : List ReplayCall := []
  /-- The snapshots of the save tasks that have not ended. -/
  tasks : List Snapshot := []
  /-- A task is past the load at its end, with the mutex. -/
  ending : Bool := false
  deriving DecidableEq

namespace ReplayBuffer

/-- A call begins with its first access, or goes on to its next. -/
inductive Event where
  | start
  | stop
  | on_sample (sample : EncodedSample)
  | save
  | reset
  | go_on (call : ℕ) (appended : Appended)
  | end_task (task : ℕ)
  | task_runs_on
  deriving DecidableEq

def start (buffer : ReplayBuffer) : ReplayBuffer :=
  if buffer.state = .Stopped then
    { buffer with state := .Starting, calls := buffer.calls ++ [.starting] }
  else buffer

def stop (buffer : ReplayBuffer) : ReplayBuffer :=
  match buffer.state with
  | .Stopped | .Saving => buffer
  | _ => { buffer with calls := buffer.calls ++ [.stopping] }

def on_sample (buffer : ReplayBuffer) (sample : EncodedSample) : ReplayBuffer :=
  if buffer.state = .Running then
    { buffer with calls := buffer.calls ++ [.appending sample] }
  else { buffer with calls := buffer.calls ++ [.rechecking sample] }

/-- A `save` that is refused answers at once. -/
def save (buffer : ReplayBuffer) : Option ReplayBuffer :=
  if buffer.save_mutex then none
  else if buffer.state ≠ .Running ∨ buffer.save_active then some buffer
  else some { buffer with save_mutex := true, calls := buffer.calls ++ [.saving] }

def reset (buffer : ReplayBuffer) : ReplayBuffer := { buffer with store := buffer.store.clear }

def go_on (buffer : ReplayBuffer) (call : ℕ) (appended : Appended) : Option ReplayBuffer :=
  let returns := { buffer with calls := buffer.calls.set call .returned }
  match buffer.calls[call]? with
  | some .starting => some { returns with state := .Running }
  | some .stopping =>
    some { buffer with store := buffer.store.clear, calls := buffer.calls.set call .cleared }
  | some .cleared => some { returns with state := .Stopped }
  | some (.rechecking sample) =>
    if buffer.state = .Saving then
      some { buffer with calls := buffer.calls.set call (.appending sample) }
    else some returns
  | some (.appending sample) =>
    match appended with
    | .stored => some { returns with store := buffer.store.append sample }
    | .threw store => some { returns with store, state := .Error }
  | some .saving =>
    some
      { buffer with
        save_active := true, state := .Saving, calls := buffer.calls.set call .snapshotting }
  | some .snapshotting =>
    some
      { returns with
        store := buffer.store.snapshot.2
        tasks := buffer.tasks ++ [buffer.store.snapshot.1]
        save_mutex := false }
  | some .returned | none => none

/-- The end of a save task, up to the load of the state. -/
def end_task (buffer : ReplayBuffer) (task : ℕ) : Option ReplayBuffer :=
  if buffer.save_mutex ∨ buffer.tasks.length ≤ task then none
  else
    let ended := { buffer with tasks := buffer.tasks.eraseIdx task, save_active := false }
    if buffer.state = .Error then some ended
    else some { ended with save_mutex := true, ending := true }

def task_runs_on (buffer : ReplayBuffer) : Option ReplayBuffer :=
  if buffer.ending then
    some { buffer with state := .Running, save_mutex := false, ending := false }
  else none

def step (buffer : ReplayBuffer) : Event → Option ReplayBuffer
  | .start => some buffer.start
  | .stop => some buffer.stop
  | .on_sample sample => some (buffer.on_sample sample)
  | .save => buffer.save
  | .reset => some buffer.reset
  | .go_on call appended => buffer.go_on call appended
  | .end_task task => buffer.end_task task
  | .task_runs_on => buffer.task_runs_on

end ReplayBuffer

/-- A buffer, whether a `stop` has returned true with no successful `start` since, and the samples
that an append was called for since then. -/
structure WatchedBuffer where
  buffer : ReplayBuffer
  stopped : Bool := false
  taken : List EncodedSample := []
  deriving DecidableEq

namespace WatchedBuffer
open ReplayBuffer

/-- What a step tells: a `start` succeeds, a `stop` returns true, or a sample is appended. -/
def watch (w : WatchedBuffer) (event : Event) (next : ReplayBuffer) : WatchedBuffer :=
  match event with
  | .start =>
    { w with buffer := next, stopped := w.stopped && w.buffer.state ≠ .Stopped }
  | .go_on call _ =>
    match w.buffer.calls[call]? with
    | some .starting => { w with buffer := next, stopped := false }
    | some .cleared => { buffer := next, stopped := true }
    | some (.appending sample) => { w with buffer := next, taken := w.taken ++ [sample] }
    | _ => { w with buffer := next }
  | _ => { w with buffer := next }

def step (w : WatchedBuffer) (event : Event) : Option WatchedBuffer :=
  (w.buffer.step event).map (w.watch event)

def machine (store : SegmentStore) : Machine WatchedBuffer Event where
  init := { buffer := { store } }
  step := step

/-- After a `stop` that returned true the buffer is stopped and takes no sample. -/
def StaysStopped (w : WatchedBuffer) : Prop :=
  w.stopped = true → w.buffer.state = .Stopped ∧ w.taken = []

instance (w : WatchedBuffer) : Decidable w.StaysStopped :=
  inferInstanceAs (Decidable (_ → _))

/-- A call that is past the check of the state it depends on. -/
def committed : ReplayCall → Bool
  | .appending _ | .saving | .snapshotting => true
  | _ => false

/-- No save is unfinished, and no sample or save is past its check. -/
def Quiet (buffer : ReplayBuffer) : Prop :=
  buffer.tasks = [] ∧ buffer.ending = false ∧ ∀ call ∈ buffer.calls, committed call = false

instance (buffer : ReplayBuffer) : Decidable (Quiet buffer) :=
  inferInstanceAs (Decidable (_ ∧ _ ∧ _))

/-- A `stop` that is about to return true finds the buffer quiet. -/
def StopsQuiet (w : WatchedBuffer) : Event → Prop
  | .go_on call _ => w.buffer.calls[call]? = some .cleared → Quiet w.buffer
  | _ => True

instance (w : WatchedBuffer) : DecidablePred (StopsQuiet w)
  | .go_on call _ =>
    inferInstanceAs (Decidable (w.buffer.calls[call]? = some .cleared → Quiet w.buffer))
  | .start | .stop | .on_sample _ | .save | .reset | .end_task _ | .task_runs_on =>
    instDecidableTrue

/-- A stopped buffer is also quiet. -/
def Inv (w : WatchedBuffer) : Prop :=
  w.stopped = true → w.buffer.state = .Stopped ∧ w.taken = [] ∧ Quiet w.buffer

theorem quiet_append {buffer : ReplayBuffer} {call : ReplayCall} {state : ReplayState}
    (h : Quiet buffer) (hcall : committed call = false) :
    Quiet { buffer with state, calls := buffer.calls ++ [call] } := by
  refine ⟨h.1, h.2.1, fun c hc => ?_⟩
  rcases List.mem_append.mp hc with hc | hc
  · exact h.2.2 c hc
  · rw [List.mem_singleton.mp hc]
    exact hcall

theorem quiet_set {buffer : ReplayBuffer} {i : ℕ} {call : ReplayCall} {state : ReplayState}
    {store : SegmentStore} (h : Quiet buffer) (hcall : committed call = false) :
    Quiet { buffer with state, store, calls := buffer.calls.set i call } := by
  refine ⟨h.1, h.2.1, fun c hc => ?_⟩
  rcases List.mem_or_eq_of_mem_set hc with hc | hc
  · exact h.2.2 c hc
  · rw [hc]
    exact hcall

theorem inv_go_on {w t : WatchedBuffer} {call : ℕ} {appended : Appended} (h : Inv w)
    (hquiet : StopsQuiet w (.go_on call appended)) (hstep : step w (.go_on call appended) = some t) :
    Inv t := by
  rcases Option.map_eq_some_iff.mp hstep with ⟨next, hnext, rfl⟩
  change w.buffer.go_on call appended = some next at hnext
  unfold Inv watch
  unfold go_on at hnext
  cases hcall : w.buffer.calls[call]? with
  | none =>
    rw [hcall] at hnext
    cases hnext
  | some c =>
    have hmem := List.mem_of_getElem? hcall
    rw [hcall] at hnext
    simp only [hcall]
    cases c with
    | starting =>
      intro hstopped
      cases hstopped
    | cleared =>
      cases hnext
      intro _
      exact ⟨rfl, rfl, quiet_set (hquiet hcall) rfl⟩
    | stopping =>
      cases hnext
      intro hstopped
      rcases h hstopped with ⟨hstate, htaken, hq⟩
      exact ⟨hstate, htaken, quiet_set hq rfl⟩
    | rechecking sample =>
      intro hstopped
      rcases h hstopped with ⟨hstate, htaken, hq⟩
      rw [hstate] at hnext
      cases hnext
      exact ⟨rfl, htaken, quiet_set hq rfl⟩
    | appending sample =>
      intro hstopped
      exact absurd ((h hstopped).2.2.2.2 _ hmem) (by simp [committed])
    | saving =>
      intro hstopped
      exact absurd ((h hstopped).2.2.2.2 _ hmem) (by simp [committed])
    | snapshotting =>
      intro hstopped
      exact absurd ((h hstopped).2.2.2.2 _ hmem) (by simp [committed])
    | returned => cases hnext

theorem inv_step {w t : WatchedBuffer} {event : Event} (h : Inv w) (hquiet : StopsQuiet w event)
    (hstep : step w event = some t) : Inv t := by
  cases event with
  | go_on call appended => exact inv_go_on h hquiet hstep
  | start =>
    cases hstep
    intro hstopped
    have hboth := Bool.and_eq_true_iff.mp hstopped
    have hne : w.buffer.state ≠ .Stopped := of_decide_eq_true hboth.2
    exact absurd (h hboth.1).1 hne
  | stop =>
    cases hstep
    intro hstopped
    rcases h hstopped with ⟨hstate, htaken, hq⟩
    change w.buffer.stop.state = .Stopped ∧ w.taken = [] ∧ Quiet w.buffer.stop
    have hstop : w.buffer.stop = w.buffer := by simp only [ReplayBuffer.stop, hstate]
    rw [hstop]
    exact ⟨hstate, htaken, hq⟩
  | on_sample sample =>
    cases hstep
    intro hstopped
    rcases h hstopped with ⟨hstate, htaken, hq⟩
    change (w.buffer.on_sample sample).state = .Stopped ∧ w.taken = [] ∧
      Quiet (w.buffer.on_sample sample)
    have hcheck : w.buffer.on_sample sample =
        { w.buffer with calls := w.buffer.calls ++ [.rechecking sample] } := by
      simp [ReplayBuffer.on_sample, hstate]
    rw [hcheck]
    exact ⟨hstate, htaken, quiet_append hq rfl⟩
  | save =>
    rcases Option.map_eq_some_iff.mp hstep with ⟨next, hnext, rfl⟩
    intro hstopped
    rcases h hstopped with ⟨hstate, htaken, hq⟩
    change w.buffer.save = some next at hnext
    unfold ReplayBuffer.save at hnext
    split_ifs at hnext with _ hrefused
    · cases hnext
      exact ⟨hstate, htaken, hq⟩
    · simp [hstate] at hrefused
  | reset =>
    cases hstep
    exact h
  | end_task task =>
    rcases Option.map_eq_some_iff.mp hstep with ⟨next, hnext, rfl⟩
    intro hstopped
    rcases h hstopped with ⟨-, -, hq⟩
    change w.buffer.end_task task = some next at hnext
    simp [ReplayBuffer.end_task, hq.1] at hnext
  | task_runs_on =>
    rcases Option.map_eq_some_iff.mp hstep with ⟨next, hnext, rfl⟩
    intro hstopped
    rcases h hstopped with ⟨-, -, hq⟩
    change w.buffer.task_runs_on = some next at hnext
    simp [ReplayBuffer.task_runs_on, hq.2.1] at hnext

/-- In every run in which each `stop` that returns true finds the buffer quiet, the buffer stays
stopped until it is started. -/
theorem staysStopped_of_quiet (store : SegmentStore) (es : List Event) (w : WatchedBuffer)
    (hquiet : (machine store).Along StopsQuiet (machine store).init es)
    (hrun : (machine store).run es = some w) : w.StaysStopped := by
  have hinv : Inv w := Machine.invariant_along (I := Inv)
    (fun s e t hs hc h => inv_step hs hc h) hquiet hrun (by simp [Inv, machine])
  intro hstopped
  rcases hinv hstopped with ⟨hstate, htaken, -⟩
  exact ⟨hstate, htaken⟩

def frame (pts : ℤ) : EncodedSample := ⟨.video, pts, 1, true, [0]⟩

def memoryStore : SegmentStore := { retention_hns := 10, segment_hns := 2, disk := false }

/-- A save that ends before the buffer is stopped. -/
def savedRun : List Event :=
  [.start, .go_on 0 .stored, .on_sample (frame 0), .go_on 1 .stored, .save, .go_on 2 .stored,
    .go_on 2 .stored, .on_sample (frame 1), .go_on 3 .stored, .go_on 3 .stored, .end_task 0,
    .task_runs_on, .stop, .go_on 4 .stored, .go_on 4 .stored, .on_sample (frame 2), .go_on 5 .stored]

/-- An append fails during a save, the buffer in error is stopped, and the save ends. -/
def failedAppendRun : List Event :=
  [.start, .go_on 0 .stored, .on_sample (frame 0), .go_on 1 .stored, .save, .go_on 2 .stored,
    .go_on 2 .stored, .on_sample (frame 1), .go_on 3 .stored, .go_on 3 (.threw memoryStore),
    .stop, .go_on 4 .stored, .go_on 4 .stored, .end_task 0, .task_runs_on]

theorem savedRun_accepted : ((machine memoryStore).run savedRun).isSome := by decide +kernel

theorem staysStopped_savedRun :
    StaysStopped (((machine memoryStore).run savedRun).get savedRun_accepted) :=
  staysStopped_of_quiet memoryStore savedRun _ (by decide +kernel) (Option.some_get _).symm

theorem failedAppendRun_accepted : ((machine memoryStore).run failedAppendRun).isSome := by
  decide +kernel

/-- The end of the save restarts the stopped buffer. -/
theorem not_alwaysStaysStopped :
    ¬ ∀ (store : SegmentStore) (es : List Event) (w : WatchedBuffer),
      (machine store).run es = some w → w.StaysStopped := by
  intro hall
  have hstays := hall memoryStore failedAppendRun _ (Option.some_get failedAppendRun_accepted).symm
  exact absurd hstays (by decide +kernel)

end WatchedBuffer
end GambitRecord.Replay
