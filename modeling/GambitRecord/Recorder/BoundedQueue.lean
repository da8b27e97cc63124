import GambitRecord.Library.Runs
import Mathlib.Algebra.Order.Group.Nat
import Mathlib.Data.List.Basic

/-! # The queue between capture and encoder

`BoundedQueue` under any sequence of completed calls, in the order of its lock. Beside it
runs the account of what was accepted and of how it left; values leave at the front alone,
so what is queued is always the end of what was accepted.
-/

namespace GambitRecord.Recorder
open Library.Runs

structure BoundedQueue (α : Type) where
  capacity : ℕ
  queue : List α := []
  closed : Bool := false
  dropped : UInt64 := 0
  deriving DecidableEq

namespace BoundedQueue
variable {α : Type}

def push_drop_oldest (q : BoundedQueue α) (value : α) : Bool × BoundedQueue α :=
  if q.closed then (false, q)
  else if q.queue.length ≥ q.capacity then
    (false, { q with queue := q.queue.tail ++ [value], dropped := q.dropped + 1 })
  else (true, { q with queue := q.queue ++ [value] })

/-- `pop`; while there is nothing to return it waits. -/
def pop (q : BoundedQueue α) (stop_requested : Bool) : Option (Option α × BoundedQueue α) :=
  match q.queue with
  | [] => if q.closed ∨ stop_requested then some (none, q) else none
  | value :: rest => some (some value, { q with queue := rest })

def close (q : BoundedQueue α) : BoundedQueue α := { q with closed := true }

def clear (q : BoundedQueue α) : BoundedQueue α := { q with queue := [] }

inductive Call (α : Type) where
  | push_drop_oldest (value : α)
  | pop (stop_requested : Bool)
  | clear
  | close
  deriving DecidableEq

inductive Fate where
  | popped | displaced | cleared
  deriving DecidableEq

/-- A queue, the values that it accepted, those that left it, and what `pop` returned. -/
structure History (α : Type) where
  queue : BoundedQueue α
  accepted : List α := []
  left : List (Fate × α) := []
  popped : List α := []
  deriving DecidableEq

def step (h : History α) : Call α → Option (History α)
  | .push_drop_oldest value =>
    let (kept, q) := h.queue.push_drop_oldest value
    if h.queue.closed then some { h with queue := q }
    else
      let front := if kept then [] else h.queue.queue.take 1
      some { h with
        queue := q
        accepted := h.accepted ++ [value]
        left := h.left ++ front.map fun v => (.displaced, v) }
  | .pop stop_requested =>
    (h.queue.pop stop_requested).map fun (answer, q) =>
      { h with
        queue := q
        left := h.left ++ answer.toList.map fun v => (.popped, v)
        popped := h.popped ++ answer.toList }
  | .clear =>
    some { h with
      queue := h.queue.clear
      left := h.left ++ h.queue.queue.map fun v => (.cleared, v) }
  | .close => some { h with queue := h.queue.close }

def machine (capacity : ℕ) : Machine (History α) (Call α) where
  init := { queue := { capacity } }
  step := step

def Call.closes : Call α → Bool
  | .close => true
  | _ => false

def Call.pushed : Call α → List α
  | .push_drop_oldest value => [value]
  | _ => []

def pushed_open (calls : List (Call α)) : List α :=
  (calls.takeWhile fun call => !call.closes).flatMap Call.pushed

def gone (fate : Fate) (left : List (Fate × α)) : List α :=
  (left.filter fun entry => entry.1 = fate).map Prod.snd

structure Inv (capacity : ℕ) (h : History α) : Prop where
  room : h.queue.capacity = capacity
  recent : h.accepted = h.left.map Prod.snd ++ h.queue.queue
  size : h.queue.queue.length ≤ capacity
  late : ∀ i v, h.left[i]? = some (.displaced, v) → i + capacity < h.accepted.length
  popped : h.popped = gone .popped h.left
  dropped : h.queue.dropped = UInt64.ofNat (gone .displaced h.left).length

theorem gone_append (fate : Fate) (left more : List (Fate × α)) :
    gone fate (left ++ more) = gone fate left ++ gone fate more := by
  rw [gone, List.filter_append, List.map_append]
  rfl

theorem gone_map (fate other : Fate) (values : List α) :
    gone fate (values.map fun v => (other, v)) = if other = fate then values else [] := by
  rw [gone, List.filter_map, List.map_map]
  by_cases h : other = fate
  · simp [Function.comp_def, h]
  · simp [Function.comp_def, h]

theorem gone_sublist (fate : Fate) (left : List (Fate × α)) :
    (gone fate left).Sublist (left.map Prod.snd) := List.filter_sublist.map _

/-- Every value left in exactly one way. -/
theorem length_gone (left : List (Fate × α)) :
    (gone .popped left).length + (gone .displaced left).length + (gone .cleared left).length =
      left.length := by
  induction left with
  | nil => rfl
  | cons entry left ih =>
    obtain ⟨fate, v⟩ := entry
    cases fate <;> simp [gone] at ih ⊢ <;> omega

variable {capacity : ℕ} {h : History α}

theorem inv_init (capacity : ℕ) : Inv capacity (@machine α capacity).init where
  room := rfl
  recent := rfl
  size := Nat.zero_le _
  late := by
    intro i v hi
    cases hi
  popped := rfl
  dropped := rfl

/-- A full queue loses its front value to the new one. -/
theorem inv_displaced (hcapacity : 1 ≤ capacity) (hh : Inv capacity h) (value : α)
    (hfull : capacity ≤ h.queue.queue.length) :
    Inv capacity
      { h with
        queue := { h.queue with
          queue := h.queue.queue.tail ++ [value], dropped := h.queue.dropped + 1 }
        accepted := h.accepted ++ [value]
        left := h.left ++ (h.queue.queue.take 1).map fun v => (.displaced, v) } := by
  have hlength : h.queue.queue.length = capacity := le_antisymm hh.size hfull
  have hrecent := hh.recent
  cases hqueue : h.queue.queue with
  | nil =>
    rw [hqueue] at hlength
    rw [← hlength] at hcapacity
    cases hcapacity
  | cons front rest =>
    rw [hqueue] at hlength hrecent
    constructor
    · exact hh.room
    · simp [hrecent]
    · simpa using hlength.le
    · intro i v hi
      have hcount : h.accepted.length = h.left.length + capacity := by
        rw [hrecent, List.length_append, List.length_map, hlength]
      rw [List.length_append, List.length_singleton]
      rcases Nat.lt_or_ge i h.left.length with hold | hnew
      · rw [List.getElem?_append_left hold] at hi
        exact (hh.late i v hi).trans (Nat.lt_succ_self _)
      · rw [List.getElem?_append_right hnew] at hi
        have hbound := (List.getElem?_eq_some_iff.mp hi).1
        simp only [List.length_map, List.length_take, List.length_cons] at hbound
        omega
    · simp [hh.popped, gone]
    · simp [hh.dropped, gone]

theorem inv_kept (hh : Inv capacity h) (value : α) (hroom : h.queue.queue.length < capacity) :
    Inv capacity
      { h with
        queue := { h.queue with queue := h.queue.queue ++ [value] }
        accepted := h.accepted ++ [value] } where
  room := hh.room
  recent := by
    rw [hh.recent]
    exact List.append_assoc ..
  size := by
    rw [List.length_append]
    exact hroom
  late := by
    intro i v hi
    rw [List.length_append]
    exact (hh.late i v hi).trans (Nat.lt_succ_self _)
  popped := hh.popped
  dropped := hh.dropped

theorem inv_taken (hh : Inv capacity h) {fate : Fate} (hfate : fate ≠ .displaced)
    {values rest : List α} (hqueue : h.queue.queue = values ++ rest) :
    Inv capacity
      { h with
        queue := { h.queue with queue := rest }
        left := h.left ++ values.map fun v => (fate, v)
        popped := h.popped ++ if fate = .popped then values else [] } := by
  have hsize := hh.size
  rw [hqueue, List.length_append] at hsize
  constructor
  · exact hh.room
  · simp [hh.recent, hqueue, Function.comp_def]
  · exact (Nat.le_add_left _ _).trans hsize
  · intro i v hi
    rcases Nat.lt_or_ge i h.left.length with hold | hnew
    · rw [List.getElem?_append_left hold] at hi
      exact hh.late i v hi
    · rw [List.getElem?_append_right hnew, List.getElem?_map] at hi
      obtain ⟨w, -, hw⟩ := Option.map_eq_some_iff.mp hi
      exact absurd (congrArg Prod.fst hw) hfate
  · rw [hh.popped, gone_append, gone_map]
  · rw [hh.dropped, gone_append, gone_map, if_neg hfate, List.append_nil]

theorem inv_step (hcapacity : 1 ≤ capacity) (hh : Inv capacity h) {call : Call α} {h' : History α}
    (hstep : step h call = some h') : Inv capacity h' := by
  cases call with
  | push_drop_oldest value =>
    simp only [step, push_drop_oldest] at hstep
    by_cases hclosed : h.queue.closed = true
    · simp only [if_pos hclosed] at hstep
      cases hstep
      exact hh
    · by_cases hfull : h.queue.queue.length ≥ h.queue.capacity
      · simp only [if_neg hclosed, if_pos hfull, Bool.false_eq_true, if_false] at hstep
        cases hstep
        exact inv_displaced hcapacity hh value (hh.room ▸ hfull)
      · simp only [if_neg hclosed, if_neg hfull, if_true, List.map_nil, List.append_nil] at hstep
        cases hstep
        exact inv_kept hh value (hh.room ▸ not_le.mp hfull)
  | pop stop_requested =>
    simp only [step, pop] at hstep
    cases hqueue : h.queue.queue with
    | nil =>
      rw [hqueue] at hstep
      simp only at hstep
      split_ifs at hstep with hends
      · cases hstep
        simpa using hh
      · cases hstep
    | cons front rest =>
      rw [hqueue] at hstep
      cases hstep
      exact @inv_taken _ _ _ hh .popped (by decide) [front] rest hqueue
  | clear =>
    cases hstep
    have hall : h.queue.queue = h.queue.queue ++ [] := (List.append_nil _).symm
    simpa [clear] using @inv_taken _ _ _ hh .cleared (by decide) _ [] hall
  | close =>
    cases hstep
    exact ⟨hh.room, hh.recent, hh.size, hh.late, hh.popped, hh.dropped⟩

theorem closed_pop {q q' : BoundedQueue α} {stop_requested : Bool} {answer : Option α}
    (hpop : q.pop stop_requested = some (answer, q')) : q'.closed = q.closed := by
  rw [pop] at hpop
  cases hqueue : q.queue with
  | nil =>
    rw [hqueue] at hpop
    simp only at hpop
    split_ifs at hpop
    cases hpop
    rfl
  | cons front rest =>
    rw [hqueue] at hpop
    cases hpop
    rfl

theorem closed_push_drop_oldest (q : BoundedQueue α) (value : α) :
    (q.push_drop_oldest value).2.closed = q.closed := by
  rw [push_drop_oldest]
  split_ifs <;> rfl

/-- A queue that is open accepts what is pushed, and nothing opens one that is closed. -/
theorem step_accepted {call : Call α} {h' : History α} (hstep : step h call = some h') :
    h'.accepted = h.accepted ++ (if h.queue.closed then [] else call.pushed) ∧
      h'.queue.closed = (h.queue.closed || call.closes) := by
  cases call with
  | push_drop_oldest value =>
    have hsame := closed_push_drop_oldest h.queue value
    simp only [step] at hstep
    by_cases hclosed : h.queue.closed = true
    · simp only [if_pos hclosed] at hstep
      cases hstep
      simp [hclosed, hsame]
    · simp only [if_neg hclosed] at hstep
      cases hstep
      simp [hclosed, hsame, Call.pushed, Call.closes]
  | pop stop_requested =>
    obtain ⟨⟨answer, q⟩, hpop, rfl⟩ := Option.map_eq_some_iff.mp hstep
    simp [Call.pushed, Call.closes, closed_pop hpop]
  | clear =>
    cases hstep
    simp [Call.pushed, Call.closes, clear]
  | close =>
    cases hstep
    simp [Call.pushed, Call.closes, close]

theorem accepted_runFrom {calls : List (Call α)} {h' : History α}
    (hrun : (@machine α capacity).runFrom h calls = some h') :
    h'.accepted = h.accepted ++ if h.queue.closed then [] else pushed_open calls := by
  induction calls generalizing h with
  | nil =>
    cases hrun
    simp [pushed_open]
  | cons call calls ih =>
    obtain ⟨m, hstep, hrest⟩ := ((machine capacity).runFrom_cons).mp hrun
    obtain ⟨haccepted, hclosed⟩ := step_accepted hstep
    rw [ih hrest, haccepted, hclosed, List.append_assoc]
    cases h.queue.closed with
    | true => rfl
    | false =>
      cases hcloses : call.closes with
      | true =>
        have hnone : call.pushed = [] := by
          cases call with
          | close => rfl
          | _ => cases hcloses
        simp [pushed_open, hcloses, hnone]
      | false => simp [pushed_open, hcloses]

variable (capacity) in
/-- What a history shows: the queue is the end of what was accepted, a value is displaced only when
as many newer ones have come as there is room for, and every value is accounted for once. -/
structure Accounted (calls : List (Call α)) (h : History α) : Prop where
  accepted : h.accepted = pushed_open calls
  recent : h.accepted = h.left.map Prod.snd ++ h.queue.queue
  late : ∀ i v, h.left[i]? = some (.displaced, v) → i + capacity < h.accepted.length
  size : h.queue.queue.length ≤ capacity
  answers : h.popped = gone .popped h.left
  order : h.popped.Sublist h.accepted
  dropped : h.queue.dropped.toNat = (gone .displaced h.left).length % 2 ^ 64
  total : h.accepted.length = h.popped.length + (gone .displaced h.left).length +
    (gone .cleared h.left).length + h.queue.queue.length

/-- Every sequence of calls on a queue with room for a value is accounted for. -/
theorem accounted_of_run {capacity : ℕ} (hcapacity : 1 ≤ capacity) {calls : List (Call α)}
    {h : History α} (hrun : (machine capacity).run calls = some h) :
    Accounted capacity calls h := by
  have hinv : Inv capacity h :=
    Machine.invariant (I := Inv capacity) (fun _ _ _ hh hstep => inv_step hcapacity hh hstep)
      hrun (inv_init capacity)
  have haccepted := accepted_runFrom hrun
  constructor
  · simpa [machine] using haccepted
  · exact hinv.recent
  · exact hinv.late
  · exact hinv.size
  · exact hinv.popped
  · rw [hinv.popped, hinv.recent]
    exact (gone_sublist _ _).trans (List.sublist_append_left _ _)
  · rw [hinv.dropped, UInt64.toNat_ofNat']
  · rw [hinv.recent, List.length_append, List.length_map, hinv.popped, length_gone]

theorem accounted_displaced :
    Accounted 2 [.push_drop_oldest 1, .push_drop_oldest 2, .push_drop_oldest 3, .pop false, .close,
        .push_drop_oldest 4]
      (History.mk ⟨2, [3], true, 1⟩ [1, 2, 3] [(.displaced, 1), (.popped, 2)] [2]) :=
  accounted_of_run (by decide) rfl

/-- Pushes on an open queue are all accepted, and values leave it by them in one way only. -/
theorem exists_pushes (n : ℕ) (h : History Unit) (hopen : h.queue.closed = false)
    (hleft : ∀ entry ∈ h.left, entry.1 = .displaced) :
    ∃ h', (@machine Unit capacity).runFrom h (List.replicate n (.push_drop_oldest ())) = some h' ∧
      h'.accepted.length = h.accepted.length + n ∧ ∀ entry ∈ h'.left, entry.1 = .displaced := by
  induction n generalizing h with
  | zero => exact ⟨h, rfl, rfl, hleft⟩
  | succ n ih =>
    have hsome : ∃ m, step h (.push_drop_oldest ()) = some m ∧
        ∀ entry ∈ m.left, entry.1 = .displaced := by
      refine ⟨_, by simp only [step, hopen]; rfl, ?_⟩
      intro entry hentry
      rcases List.mem_append.mp hentry with hold | hnew
      · exact hleft entry hold
      · obtain ⟨v, -, rfl⟩ := List.mem_map.mp hnew
        rfl
    obtain ⟨m, hstep, hm⟩ := hsome
    obtain ⟨haccepted, hclosed⟩ := step_accepted hstep
    rw [hopen] at haccepted hclosed
    obtain ⟨h', hrun, hlength, hgone⟩ := ih m hclosed hm
    refine ⟨h', ((machine capacity).runFrom_cons).mpr ⟨m, hstep, hrun⟩, ?_, hgone⟩
    rw [hlength, haccepted, List.length_append]
    simp [Call.pushed]
    omega

/-- The counter of displaced values is a 64-bit one: after 2^64 + 1 pushes on a queue with room for
one value it does not show how many there were. -/
theorem not_alwaysExact :
    ¬ ∀ (capacity : ℕ), 1 ≤ capacity → ∀ (calls : List (Call Unit)) (h : History Unit),
      (machine capacity).run calls = some h →
        Accounted capacity calls h ∧
          h.queue.dropped.toNat = (gone .displaced h.left).length := by
  intro hall
  obtain ⟨h, hrun, hlength, hgone⟩ :=
    @exists_pushes 1 (2 ^ 64 + 1) (machine 1).init rfl (by intro entry hentry; cases hentry)
  obtain ⟨haccounted, hexact⟩ := hall 1 le_rfl _ h hrun
  have hevery : gone .displaced h.left = h.left.map Prod.snd := by
    rw [gone, List.filter_eq_self.mpr fun entry hentry => decide_eq_true (hgone entry hentry)]
  have htotal := congrArg List.length haccounted.recent
  have hsize := haccounted.size
  have hbound := h.queue.dropped.toNat_lt
  rw [List.length_append, ← hevery] at htotal
  change h.accepted.length = 0 + _ at hlength
  omega

end BoundedQueue
end GambitRecord.Recorder
