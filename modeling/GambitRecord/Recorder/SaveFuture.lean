import GambitRecord.Replay.ReplayBuffer

/-! # The future of a replay save

`Application` keeps the future of the last `replay_save` and collects its result
when it is ready. A `replay_save` checks the buffer's state, calls
`ReplayBuffer::save` under `save_mutex_` and stores the future it gets; the
buffer's own calls and save tasks run on in between. A refused save answers with
a deferred future, whose `wait_for` never reports it ready.
-/

namespace GambitRecord.Recorder
open Library Library.Runs Replay

/-- What `ReplayBuffer::save` returns; tasks are numbered as they are launched. -/
inductive Future where
  | deferred
  | async (task : ℕ)
  deriving DecidableEq

/-- Who has `save_mutex_`: a `replay_save` before its call, in it, or with its future. -/
inductive Holder where
  | free
  | calling
  | saving
  | returned (future : Future)
  deriving DecidableEq

/-- `ids` numbers the buffer's tasks and `ending` the one at its end; `checked` counts the
`replay_save` commands that are past their check of the state. -/
structure SaveFuture where
  buffer : ReplayBuffer
  ids : List ℕ := []
  ending : Option ℕ := none
  launched : ℕ := 0
  checked : ℕ := 0
  holder : Holder := .free
  save_future : Option Future := none
  last_save : Option ℕ := none
  save_generation : UInt64 := 0
  deriving DecidableEq

namespace SaveFuture

/-- `throw` stands for metadata of a wrong type. -/
inductive Event where
  | check (capture_ready : Bool)
  | enter
  | throw
  | save
  | store
  | collect
  | buffer (event : ReplayBuffer.Event)
  deriving DecidableEq

def ready (s : SaveFuture) (task : ℕ) : Prop := task ∉ s.ids ∧ s.ending ≠ some task

instance (s : SaveFuture) : DecidablePred s.ready := fun _ => instDecidableAnd

def collect_save_result (s : SaveFuture) : SaveFuture :=
  match s.save_future with
  | some (.async task) =>
    if s.ready task then { s with save_future := none, last_save := some task } else s
  | some .deferred | none => s

def refused (buffer : ReplayBuffer) : Bool := buffer.state ≠ .Running ∨ buffer.save_active

def follow (s : SaveFuture) (next : ReplayBuffer) : ReplayBuffer.Event → SaveFuture
  | .go_on call _ =>
    if s.buffer.calls[call]? = some .snapshotting then
      { s with
        buffer := next
        ids := s.ids ++ [s.launched]
        launched := s.launched + 1
        holder := .returned (.async s.launched) }
    else { s with buffer := next }
  | .end_task task =>
    { s with
      buffer := next
      ids := s.ids.eraseIdx task
      ending := if s.buffer.state = .Error then s.ending else s.ids[task]? }
  | .task_runs_on => { s with buffer := next, ending := none }
  | _ => { s with buffer := next }

def step (s : SaveFuture) : Event → Option SaveFuture
  | .check capture_ready =>
    some <|
      if s.buffer.state = .Running ∧ capture_ready then { s with checked := s.checked + 1 } else s
  | .enter =>
    if s.holder = .free ∧ 0 < s.checked then
      some <|
        if s.save_future.isSome then { s with checked := s.checked - 1 }
        else { s with checked := s.checked - 1, holder := .calling, last_save := none }
    else none
  | .throw => if s.holder = .calling then some { s with holder := .free } else none
  | .save =>
    if s.holder = .calling then
      s.buffer.save.map fun next =>
        if refused s.buffer then { s with holder := .returned .deferred }
        else { s with buffer := next, holder := .saving }
    else none
  | .store =>
    match s.holder with
    | .returned future =>
      some { s with
        save_future := some future
        save_generation := s.save_generation + 1
        holder := .free }
    | _ => none
  | .collect => if s.holder = .free then some s.collect_save_result else none
  -- only `replay_save` calls `save`
  | .buffer .save => none
  | .buffer event => (s.buffer.step event).map fun next => s.follow next event

def machine (store : SegmentStore) : Machine SaveFuture Event where
  init := { buffer := { store } }
  step := step

def TaskRuns (s : SaveFuture) : Prop := s.buffer.tasks ≠ [] ∨ s.buffer.ending = true

/-- Without a running task the next command leaves no future behind when it collects. -/
def Collects (s : SaveFuture) : Prop :=
  ¬ s.TaskRuns → s.holder = .free → s.collect_save_result.save_future = none

instance (s : SaveFuture) : Decidable s.TaskRuns := instDecidableOr

instance (s : SaveFuture) : Decidable s.Collects := inferInstanceAs (Decidable (_ → _ → _))

/-- A call of `ReplayBuffer::save` finds the buffer running, and no save active. -/
def NotRefused (s : SaveFuture) : Event → Prop
  | .save => refused s.buffer = false
  | _ => True

instance (s : SaveFuture) : DecidablePred s.NotRefused
  | .save => inferInstanceAs (Decidable (_ = _))
  | .check _ | .enter | .throw | .store | .collect | .buffer _ => instDecidableTrue

/-- The numbers keep up with the tasks, and no future is deferred. -/
structure Inv (s : SaveFuture) : Prop where
  tasks : s.ids.length = s.buffer.tasks.length
  ending : s.ending.isSome = s.buffer.ending
  stored : s.save_future ≠ some .deferred
  held : s.holder ≠ .returned .deferred

section Buffer
variable {buffer next : ReplayBuffer}

theorem go_on_tasks {call : ℕ} {appended : Appended}
    (h : buffer.go_on call appended = some next) :
    next.ending = buffer.ending ∧ next.tasks.length = buffer.tasks.length +
      if buffer.calls[call]? = some .snapshotting then 1 else 0 := by
  unfold ReplayBuffer.go_on at h
  cases hcall : buffer.calls[call]? with
  | none =>
    rw [hcall] at h
    cases h
  | some found =>
    rw [hcall] at h
    cases found with
    | starting | stopping | cleared | saving =>
      cases h
      simp
    | snapshotting =>
      cases h
      simp
    | rechecking sample =>
      dsimp only at h
      split at h <;> cases h <;> simp
    | appending sample =>
      cases appended <;> cases h <;> simp
    | returned => cases h

theorem start_tasks : buffer.start.tasks = buffer.tasks ∧ buffer.start.ending = buffer.ending := by
  unfold ReplayBuffer.start
  split <;> exact ⟨rfl, rfl⟩

theorem stop_tasks : buffer.stop.tasks = buffer.tasks ∧ buffer.stop.ending = buffer.ending := by
  unfold ReplayBuffer.stop
  split <;> exact ⟨rfl, rfl⟩

theorem on_sample_tasks (sample : EncodedSample) :
    (buffer.on_sample sample).tasks = buffer.tasks ∧
      (buffer.on_sample sample).ending = buffer.ending := by
  unfold ReplayBuffer.on_sample
  split <;> exact ⟨rfl, rfl⟩

theorem save_tasks (h : buffer.save = some next) :
    next.tasks = buffer.tasks ∧ next.ending = buffer.ending := by
  unfold ReplayBuffer.save at h
  split_ifs at h <;> cases h <;> exact ⟨rfl, rfl⟩

end Buffer

section Invariant
variable {s t : SaveFuture}

theorem Inv.frame (h : Inv s) (hids : t.ids = s.ids) (htasks : t.buffer.tasks = s.buffer.tasks)
    (hending : t.ending = s.ending) (hbuffer : t.buffer.ending = s.buffer.ending)
    (hstored : t.save_future ≠ some .deferred) (hheld : t.holder ≠ .returned .deferred) :
    Inv t := by
  constructor
  · rw [hids, htasks]
    exact h.tasks
  · rw [hending, hbuffer]
    exact h.ending
  · exact hstored
  · exact hheld

theorem inv_go_on (h : Inv s) {call : ℕ} {appended : Appended} {next : ReplayBuffer}
    (hstep : s.buffer.go_on call appended = some next) :
    Inv (s.follow next (.go_on call appended)) := by
  obtain ⟨hending, htasks⟩ := go_on_tasks hstep
  unfold follow
  dsimp only
  split
  · rename_i hsnapshot
    rw [if_pos hsnapshot] at htasks
    refine ⟨?_, ?_, h.stored, by simp⟩
    · rw [List.length_append, h.tasks, htasks]
      rfl
    · rw [h.ending, hending]
  · rename_i hsnapshot
    rw [if_neg hsnapshot] at htasks
    exact ⟨h.tasks.trans htasks.symm, h.ending.trans hending.symm, h.stored, h.held⟩

/-- A task that ends takes its number along; behind an error it is not the ending one. -/
theorem inv_end_task (h : Inv s) {task : ℕ} {next : ReplayBuffer}
    (hstep : s.buffer.end_task task = some next) : Inv (s.follow next (.end_task task)) := by
  have hids : (s.ids.eraseIdx task).length = (s.buffer.tasks.eraseIdx task).length := by
    rw [List.length_eraseIdx, List.length_eraseIdx, h.tasks]
  unfold ReplayBuffer.end_task at hstep
  split_ifs at hstep with hblocked herror
  · cases hstep
    refine ⟨hids, ?_, h.stored, h.held⟩
    change (if s.buffer.state = .Error then s.ending else s.ids[task]?).isSome = _
    rw [if_pos herror]
    exact h.ending
  · cases hstep
    refine ⟨hids, ?_, h.stored, h.held⟩
    change (if s.buffer.state = .Error then s.ending else s.ids[task]?).isSome = true
    have htask : task < s.ids.length := by
      rw [h.tasks]
      exact Nat.lt_of_not_le fun hle => hblocked (.inr hle)
    rw [if_neg herror, List.getElem?_eq_getElem htask]
    rfl

theorem inv_follow (h : Inv s) {event : ReplayBuffer.Event} {next : ReplayBuffer}
    (hsave : event ≠ .save) (hstep : s.buffer.step event = some next) :
    Inv (s.follow next event) := by
  cases event with
  | save => exact absurd rfl hsave
  | start =>
    cases hstep
    exact h.frame rfl start_tasks.1 rfl start_tasks.2 h.stored h.held
  | stop =>
    cases hstep
    exact h.frame rfl stop_tasks.1 rfl stop_tasks.2 h.stored h.held
  | on_sample sample =>
    cases hstep
    exact h.frame rfl (on_sample_tasks sample).1 rfl (on_sample_tasks sample).2 h.stored h.held
  | reset =>
    cases hstep
    exact h.frame rfl rfl rfl rfl h.stored h.held
  | go_on call appended => exact inv_go_on h hstep
  | end_task task => exact inv_end_task h hstep
  | task_runs_on =>
    change s.buffer.task_runs_on = some next at hstep
    unfold ReplayBuffer.task_runs_on at hstep
    split_ifs at hstep
    cases hstep
    exact ⟨h.tasks, rfl, h.stored, h.held⟩

theorem collect_frame (s : SaveFuture) :
    s.collect_save_result.ids = s.ids ∧ s.collect_save_result.buffer = s.buffer ∧
      s.collect_save_result.ending = s.ending ∧ s.collect_save_result.holder = s.holder ∧
      (s.collect_save_result.save_future = s.save_future ∨
        s.collect_save_result.save_future = none) := by
  unfold collect_save_result
  split
  · split <;> simp
  · simp
  · simp

theorem inv_step (h : Inv s) {event : Event} (hC : s.NotRefused event)
    (hstep : s.step event = some t) : Inv t := by
  cases event with
  | check capture_ready =>
    cases hstep
    split
    · exact h.frame rfl rfl rfl rfl h.stored h.held
    · exact h
  | enter =>
    simp only [step, Option.ite_none_right_eq_some, Option.some_inj] at hstep
    obtain ⟨-, rfl⟩ := hstep
    split
    · exact h.frame rfl rfl rfl rfl h.stored h.held
    · exact h.frame rfl rfl rfl rfl h.stored (by simp)
  | throw =>
    simp only [step, Option.ite_none_right_eq_some, Option.some_inj] at hstep
    obtain ⟨-, rfl⟩ := hstep
    exact h.frame rfl rfl rfl rfl h.stored (by simp)
  | save =>
    simp only [step, Option.ite_none_right_eq_some] at hstep
    obtain ⟨-, hstep⟩ := hstep
    obtain ⟨next, hnext, rfl⟩ := Option.map_eq_some_iff.mp hstep
    have hrunning : refused s.buffer = false := hC
    rw [hrunning]
    exact h.frame rfl (save_tasks hnext).1 rfl (save_tasks hnext).2 h.stored (by simp)
  | store =>
    unfold step at hstep
    cases hholder : s.holder with
    | free | calling | saving => simp [hholder] at hstep
    | returned future =>
      simp only [hholder, Option.some_inj] at hstep
      subst hstep
      refine h.frame rfl rfl rfl rfl ?_ (by simp)
      intro hdeferred
      exact h.held (by rw [hholder, Option.some_inj.mp hdeferred])
  | collect =>
    simp only [step, Option.ite_none_right_eq_some, Option.some_inj] at hstep
    obtain ⟨-, rfl⟩ := hstep
    obtain ⟨hids, hbuffer, hending, hholder, hfuture⟩ := collect_frame s
    refine h.frame hids (by rw [hbuffer]) hending (by rw [hbuffer]) ?_
      (by rw [hholder]; exact h.held)
    rcases hfuture with hsame | hnone
    · rw [hsame]
      exact h.stored
    · simp [hnone]
  | buffer event =>
    have hsave : event ≠ .save := by
      rintro rfl
      cases hstep
    have hmap : (s.buffer.step event).map (fun next => s.follow next event) = some t := by
      cases event <;> first | exact absurd rfl hsave | exact hstep
    obtain ⟨next, hnext, rfl⟩ := Option.map_eq_some_iff.mp hmap
    exact inv_follow h hsave hnext

/-- Without a running task every future of a task is ready. -/
theorem Inv.collects (h : Inv s) : s.Collects := by
  intro hruns _
  have hidle : s.buffer.tasks = [] ∧ s.buffer.ending = false := by
    simpa [TaskRuns] using hruns
  have hids : s.ids = [] := List.length_eq_zero_iff.mp (by rw [h.tasks, hidle.1]; rfl)
  have hending : s.ending = none := Option.isSome_eq_false_iff.mp (h.ending.trans hidle.2) |>
    Option.isNone_iff_eq_none.mp
  unfold collect_save_result
  cases hfuture : s.save_future with
  | none => exact hfuture
  | some future =>
    cases future with
    | deferred => exact absurd hfuture h.stored
    | async task =>
      have hready : s.ready task := by simp [ready, hids, hending]
      simp only
      rw [if_pos hready]

/-- In every run in which no save is refused, the future of a finished save is collected. -/
theorem collects_of_run {store : SegmentStore} {es : List Event}
    (hrun : (machine store).run es = some s)
    (hC : (machine store).Along NotRefused (machine store).init es) : s.Collects := by
  have hinit : Inv (machine store).init := by constructor <;> simp [machine]
  have hinv : Inv s := Machine.invariant_along (I := Inv)
    (fun _ _ _ hI hC hstep => inv_step hI hC hstep) hC hrun hinit
  exact hinv.collects

end Invariant

def savedRun : List Event :=
  [.buffer .start, .buffer (.go_on 0 .stored),
    .buffer (.on_sample (WatchedBuffer.frame 0)), .buffer (.go_on 1 .stored),
    .check true, .collect, .enter, .save, .buffer (.go_on 2 .stored), .buffer (.go_on 2 .stored),
    .buffer (.end_task 0), .buffer .task_runs_on, .store]

/-- An append fails between the check of a `replay_save` and its call. -/
def refusedRun : List Event :=
  [.buffer .start, .buffer (.go_on 0 .stored), .collect, .check true,
    .buffer (.on_sample (WatchedBuffer.frame 0)),
    .buffer (.go_on 1 (.threw WatchedBuffer.memoryStore)),
    .enter, .save, .store, .collect]

theorem savedRun_accepted : ((machine WatchedBuffer.memoryStore).run savedRun).isSome := by
  decide +kernel

theorem refusedRun_accepted : ((machine WatchedBuffer.memoryStore).run refusedRun).isSome := by
  decide +kernel

theorem collects_savedRun :
    (((machine WatchedBuffer.memoryStore).run savedRun).get savedRun_accepted).Collects :=
  collects_of_run (Option.some_get savedRun_accepted).symm (by decide +kernel)

/-- The deferred future is never collected. -/
theorem not_alwaysCollects :
    ¬ ∀ (store : SegmentStore) (es : List Event) (s : SaveFuture),
      (machine store).run es = some s → s.Collects := by
  intro hall
  have hcollects := hall _ _ _ (Option.some_get refusedRun_accepted).symm
  revert hcollects
  decide +kernel

end SaveFuture
end GambitRecord.Recorder
