import Mathlib.Data.Bool.AllAny
import GambitRecord.Library.CommandLine
import GambitRecord.Library.DigitText
import GambitRecord.Library.Runs
import GambitRecord.Library.Utf16

/-! # Worker processes of a game

The plugin starts `GambitRecord.exe` with a command line; `wmain` reads its
arguments from it, and a named mutex lets one worker of a game go on. A process
may be killed at any moment, which closes its handles.
-/

namespace GambitRecord
open Library Library.CommandLine Library.DigitText Library.Runs

def to_wstring (n : ℕ) : List UInt16 := Utf16.encode (decimal n)

namespace Plugin

def pipe_name (pid : UInt32) : List UInt16 :=
  Utf16.units "\\\\.\\pipe\\GambitRecord-" ++ to_wstring pid.toNat

/-- The command line of `launch_worker` for the path of the executable. -/
def launch_worker (worker : List UInt16) (pid : UInt32) : List UInt16 :=
  Utf16.units "\"" ++ worker ++ Utf16.units "\" --parent-pid " ++ to_wstring pid.toNat ++
    Utf16.units " --pipe \"" ++ pipe_name pid ++ Utf16.units "\""

end Plugin

namespace Recorder

structure Arguments where
  parent_pid : UInt32 := 0
  pipe : List UInt16 := []
  deriving DecidableEq

/-- `wcstoul` in base ten: blanks, a sign, digits, and anything after them. -/
def wcstoul (s : List UInt16) : UInt32 :=
  let s := s.dropWhile fun c => c = 32 ∨ (9 ≤ c ∧ c ≤ 13)
  let negative := s.head? = some 45
  let s := if s.head? = some 45 ∨ s.head? = some 43 then s.tail else s
  let v := value ((s.map fun c => Char.ofNat c.toNat).takeWhile Char.isDigit)
  if 2 ^ 32 ≤ v then 0xFFFFFFFF else if negative then -UInt32.ofNat v else UInt32.ofNat v

/-- The loop of `parse_arguments` over what follows the program's name. -/
def parse_arguments (result : Arguments) : List (List UInt16) → Arguments
  | argument :: next :: rest =>
    if argument = Utf16.units "--parent-pid" then
      parse_arguments { result with parent_pid := wcstoul next } rest
    else if argument = Utf16.units "--pipe" then
      parse_arguments { result with pipe := next } rest
    else parse_arguments result (next :: rest)
  | _ => result

def mutex_name (pid : UInt32) : List UInt16 :=
  Utf16.units "Local\\GambitRecordWorker-" ++ to_wstring pid.toNat

end Recorder

open Recorder Plugin

/-! ## The arguments of a launched worker -/

theorem toNat_of_isDigit {c : Char} (h : c.isDigit = true) : 48 ≤ c.toNat ∧ c.toNat ≤ 57 :=
  Char.isDigit_iff_toNat.mp h

theorem to_wstring_eq (n : ℕ) :
    to_wstring n = (decimal n).map fun c => UInt16.ofNat c.toNat := by
  have hunit (c : Char) (hc : c ∈ decimal n) : Utf16.encodeChar c = [UInt16.ofNat c.toNat] := by
    have hdigit := toNat_of_isDigit (isDigit_of_mem_decimal hc)
    rw [Utf16.encodeChar, if_pos (by omega)]
  rw [to_wstring, Utf16.encode, List.flatMap_congr hunit, List.map_eq_flatMap]

theorem mem_to_wstring {n : ℕ} {u : UInt16} (h : u ∈ to_wstring n) :
    48 ≤ u.toNat ∧ u.toNat ≤ 57 := by
  rw [to_wstring_eq, List.mem_map] at h
  obtain ⟨c, hc, rfl⟩ := h
  have hdigit := toNat_of_isDigit (isDigit_of_mem_decimal hc)
  rw [UInt16.toNat_ofNat_of_lt' (by change c.toNat < 65536; omega)]
  exact hdigit

theorem to_wstring_ne_nil (n : ℕ) : to_wstring n ≠ [] := by
  rw [to_wstring_eq]
  simp [decimal_ne_nil]

theorem map_to_wstring (n : ℕ) :
    (to_wstring n).map (fun u => Char.ofNat u.toNat) = decimal n := by
  rw [to_wstring_eq, List.map_map]
  have hsame (c : Char) (hc : c ∈ decimal n) :
      ((fun u : UInt16 => Char.ofNat u.toNat) ∘ fun c => UInt16.ofNat c.toNat) c = c := by
    have hdigit := toNat_of_isDigit (isDigit_of_mem_decimal hc)
    simp only [Function.comp_apply]
    rw [UInt16.toNat_ofNat_of_lt' (by change c.toNat < 65536; omega)]
    exact Char.ofNat_toNat c
  rw [List.map_congr_left hsame, List.map_id']

theorem wcstoul_to_wstring (pid : UInt32) : wcstoul (to_wstring pid.toNat) = pid := by
  have hmem (u : UInt16) (hu : u ∈ to_wstring pid.toNat) := mem_to_wstring hu
  have htext := map_to_wstring pid.toNat
  cases hunits : to_wstring pid.toNat with
  | nil => exact absurd hunits (to_wstring_ne_nil _)
  | cons u units =>
    rw [hunits] at htext
    have hu := hmem u (by rw [hunits]; exact List.mem_cons_self)
    have hlt : ∀ k : UInt16, k.toNat < 48 → u ≠ k := by
      rintro k hk rfl
      omega
    have hspace : ¬ (u = 32 ∨ (9 ≤ u ∧ u ≤ 13)) := by
      rintro (h | ⟨-, h⟩)
      · exact hlt 32 (by decide) h
      · have hle : u.toNat ≤ 13 := UInt16.le_iff_toNat_le.mp h
        omega
    have hminus := hlt 45 (by decide)
    have hplus := hlt 43 (by decide)
    have hrun : (decimal pid.toNat).takeWhile Char.isDigit = decimal pid.toNat :=
      List.takeWhile_eq_self_iff.mpr fun c hc => isDigit_of_mem_decimal hc
    have hsmall : ¬ 2 ^ 32 ≤ pid.toNat := not_le.mpr pid.toNat_lt
    simp only [wcstoul, List.dropWhile_cons, hspace, decide_false, Bool.false_eq_true, if_false,
      List.head?_cons, Option.some.injEq, hminus, hplus, or_false, htext, hrun, value_decimal,
      hsmall]
    exact UInt32.ofNat_toNat

/-- A path has no terminator and no quote. -/
def PathOk (worker : List UInt16) : Prop := ∀ u ∈ worker, u ≠ 0 ∧ u ≠ wide.quote

instance : DecidablePred PathOk := fun worker =>
  List.decidableBAll (fun u => u ≠ 0 ∧ u ≠ wide.quote) worker

def launched (pid : UInt32) : List (Piece UInt16) :=
  [⟨false, Utf16.units "--parent-pid"⟩, ⟨false, to_wstring pid.toNat⟩,
    ⟨false, Utf16.units "--pipe"⟩, ⟨true, pipe_name pid⟩]

theorem launch_worker_eq (worker : List UInt16) (pid : UInt32) :
    launch_worker worker pid = commandLine wide worker 32 (launched pid) := by
  have hopen : Utf16.units "\"" = [34] := by decide +kernel
  have hpid : Utf16.units "\" --parent-pid " = 34 :: 32 :: Utf16.units "--parent-pid" ++ [32] := by
    decide +kernel
  have hpipe : Utf16.units " --pipe \"" = 32 :: Utf16.units "--pipe" ++ [32, 34] := by
    decide +kernel
  simp only [launch_worker, hopen, hpid, hpipe, commandLine, launched, List.flatMap_cons,
    Piece.line, List.flatMap_nil, if_true, Bool.false_eq_true, if_false]
  simp [wide]

theorem mem_pipe_name {pid : UInt32} {u : UInt16} (h : u ∈ pipe_name pid) :
    u ≠ 0 ∧ u ≠ wide.quote := by
  have hprefix : PathOk (Utf16.units "\\\\.\\pipe\\GambitRecord-") := by decide +kernel
  rcases List.mem_append.mp h with h | h
  · exact hprefix u h
  · have hdigit := mem_to_wstring h
    constructor
    · rintro rfl
      exact absurd hdigit.1 (by decide)
    · rintro rfl
      exact absurd hdigit.1 (by decide)

theorem plain_unquoted {text : List UInt16} (hne : text ≠ [])
    (h : ∀ u ∈ text, u ≠ 34 ∧ wide.blank u = false) :
    (⟨false, text⟩ : Piece UInt16).Plain wide where
  quote hmem := (h _ hmem).1 rfl
  backslash hquoted := by cases hquoted
  blank _ := ⟨hne, fun u hu => (h u hu).2⟩

theorem plain_launched (pid : UInt32) : ∀ p ∈ launched pid, p.Plain wide := by
  have hdigit {u : UInt16} (hu : u ∈ to_wstring pid.toNat) : u ≠ 34 ∧ wide.blank u = false := by
    have hbounds := mem_to_wstring hu
    have hne (k : UInt16) (hk : k.toNat < 48) : u ≠ k := by
      rintro rfl
      omega
    exact ⟨hne 34 (by decide), decide_eq_false (not_or.mpr ⟨hne 32 (by decide), hne 9 (by decide)⟩)⟩
  simp only [launched, List.forall_mem_cons]
  refine ⟨?_, ?_, ?_, ?_, by simp⟩
  · exact plain_unquoted (by decide +kernel) (List.all_iff_forall_prop.mp (by decide +kernel))
  · exact plain_unquoted (to_wstring_ne_nil _) fun u hu => hdigit hu
  · exact plain_unquoted (by decide +kernel) (List.all_iff_forall_prop.mp (by decide +kernel))
  · refine ⟨fun hmem => (mem_pipe_name hmem).2 rfl, fun _ => ?_, fun hopen => by cases hopen⟩
    rw [pipe_name, List.getLast?_append_of_ne_nil _ (to_wstring_ne_nil _)]
    intro hlast
    have hbounds := mem_to_wstring (List.mem_of_getLast? hlast)
    exact absurd hbounds.2 (by decide)

/-- `CreateProcessW` takes the line up to its terminator. -/
def c_str (text : List UInt16) : List UInt16 := text.takeWhile (· ≠ 0)

theorem c_str_of_ne {text : List UInt16} (h : ∀ u ∈ text, u ≠ 0) : c_str text = text :=
  List.takeWhile_eq_self_iff.mpr fun u hu => decide_eq_true (h u hu)

theorem c_str_launch_worker {worker : List UInt16} (hworker : PathOk worker) (pid : UInt32) :
    c_str (launch_worker worker pid) = launch_worker worker pid := by
  have hdigits (u : UInt16) (hu : u ∈ to_wstring pid.toNat) : u ≠ 0 := by
    rintro rfl
    exact absurd (mem_to_wstring hu).1 (by decide)
  have hopen : ∀ u ∈ Utf16.units "\"", u ≠ 0 := List.all_iff_forall_prop.mp (by decide +kernel)
  have hpid : ∀ u ∈ Utf16.units "\" --parent-pid ", u ≠ 0 := List.all_iff_forall_prop.mp (by decide +kernel)
  have hpipe : ∀ u ∈ Utf16.units " --pipe \"", u ≠ 0 := List.all_iff_forall_prop.mp (by decide +kernel)
  refine c_str_of_ne ?_
  simp only [launch_worker, List.forall_mem_append]
  exact ⟨⟨⟨⟨⟨⟨hopen, fun u hu => (hworker u hu).1⟩, hpid⟩, hdigits⟩, hpipe⟩,
    fun u hu => (mem_pipe_name hu).1⟩, hopen⟩

/-- The arguments of a process from its command line. -/
def arguments_of (line : List UInt16) : Arguments :=
  parse_arguments {} (argv wide (c_str line)).tail

theorem parse_launched (pid : UInt32) :
    parse_arguments {} ((launched pid).map Piece.text) = ⟨pid, pipe_name pid⟩ := by
  have hother : Utf16.units "--pipe" ≠ Utf16.units "--parent-pid" := by decide +kernel
  simp only [launched, List.map_cons, List.map_nil, parse_arguments, hother, if_true, if_false,
    wcstoul_to_wstring]

/-- A launched worker is given the process of its game and the pipe that the plugin connects to,
whatever the folder of the game is called. -/
theorem arguments_of_launch_worker {worker : List UInt16} (hworker : PathOk worker)
    (pid : UInt32) :
    (argv wide (c_str (launch_worker worker pid))).head? = some worker ∧
      arguments_of (launch_worker worker pid) = ⟨pid, pipe_name pid⟩ := by
  have hargv : argv wide (c_str (launch_worker worker pid)) =
      worker :: (launched pid).map Piece.text := by
    rw [c_str_launch_worker hworker, launch_worker_eq]
    exact argv_commandLine (fun hmem => (hworker _ hmem).2 rfl) (by decide) (plain_launched pid)
  rw [arguments_of, hargv, List.tail_cons]
  exact ⟨rfl, parse_launched pid⟩

theorem arguments_of_launch_worker_sample :
    (argv wide (c_str (launch_worker (Utf16.units "D:\\GTA San Andreas\\GambitRecord.exe") 8))).head? =
        some (Utf16.units "D:\\GTA San Andreas\\GambitRecord.exe") ∧
      arguments_of (launch_worker (Utf16.units "D:\\GTA San Andreas\\GambitRecord.exe") 8) =
        ⟨8, pipe_name 8⟩ :=
  arguments_of_launch_worker (by decide +kernel) 8

/-! ## One worker for a game -/

/-- How far `wmain` has come; the last but one have a handle of the mutex. -/
inductive WorkerPhase where
  | starting
  | duplicate
  | running
  | exited (code : Option UInt32)
  deriving DecidableEq

/-- A process of the executable. -/
structure WorkerProcess where
  arguments : Arguments
  phase : WorkerPhase
  deriving DecidableEq

namespace WorkerProcess

/-- The kernel keeps the mutex of a name while a process has a handle of it. -/
def Holds (p : WorkerProcess) (name : List UInt16) : Prop :=
  (p.phase = .duplicate ∨ p.phase = .running) ∧ mutex_name p.arguments.parent_pid = name

instance (p : WorkerProcess) (name : List UInt16) : Decidable (p.Holds name) :=
  inferInstanceAs (Decidable (_ ∧ _))

/-- Processes are started, and each goes on by itself. `found` is what `find_process` gives,
`alive` whether the game's process runs, `created` whether there is a mutex at all; `fail` is an
exception that `wmain` catches, `kill` the end of the process at any point. -/
inductive Event where
  | launch (line : List UInt16)
  | begin_work (n : ℕ) (found : Option UInt32) (alive created : Bool)
  | close (n : ℕ)
  | finish (n : ℕ)
  | fail (n : ℕ)
  | kill (n : ℕ)
  deriving DecidableEq

/-- What `wmain` takes for the arguments that are left out. -/
def resolve (arguments : Arguments) (found : Option UInt32) : Arguments :=
  let parent_pid := if arguments.parent_pid = 0 then found.getD 0 else arguments.parent_pid
  ⟨parent_pid, if arguments.pipe = [] then pipe_name parent_pid else arguments.pipe⟩

/-- `wmain` from its arguments to the `Application`. -/
def begin_work (processes : List WorkerProcess) (arguments : Arguments) (found : Option UInt32)
    (alive created : Bool) : WorkerProcess :=
  let resolved := resolve arguments found
  if resolved.parent_pid = 0 ∨ ¬ alive then ⟨arguments, .exited (some 0)⟩
  else if ¬ created then ⟨arguments, .exited (some 2)⟩
  else if ∃ p ∈ processes, p.Holds (mutex_name resolved.parent_pid) then ⟨resolved, .duplicate⟩
  else ⟨resolved, .running⟩

def exit (p : WorkerProcess) (code : Option UInt32) : WorkerProcess := { p with phase := .exited code }

def step (processes : List WorkerProcess) : Event → Option (List WorkerProcess)
  | .launch line => some (processes ++ [⟨arguments_of line, .starting⟩])
  | .begin_work n found alive created =>
    match processes[n]? with
    | some ⟨arguments, .starting⟩ =>
      some (processes.set n (begin_work processes arguments found alive created))
    | _ => none
  | .close n =>
    match processes[n]? with
    | some ⟨arguments, .duplicate⟩ => some (processes.set n ⟨arguments, .exited (some 2)⟩)
    | _ => none
  | .finish n =>
    match processes[n]? with
    | some ⟨arguments, .running⟩ => some (processes.set n ⟨arguments, .exited (some 0)⟩)
    | _ => none
  | .fail n =>
    match processes[n]? with
    | some ⟨arguments, .starting⟩ => some (processes.set n ⟨arguments, .exited (some 1)⟩)
    | some ⟨arguments, .running⟩ => some (processes.set n ⟨arguments, .exited (some 1)⟩)
    | _ => none
  | .kill n =>
    match processes[n]? with
    | some p => some (processes.set n (p.exit none))
    | none => none

def machine : Machine (List WorkerProcess) Event := ⟨[], step⟩

inductive Stepped (processes : List WorkerProcess) : Event → List WorkerProcess → Prop
  | launch {line : List UInt16} :
      Stepped processes (.launch line) (processes ++ [⟨arguments_of line, .starting⟩])
  | begin_work {n : ℕ} {arguments : Arguments} {found : Option UInt32} {alive created : Bool}
      (hn : processes[n]? = some ⟨arguments, .starting⟩) :
      Stepped processes (.begin_work n found alive created)
        (processes.set n (begin_work processes arguments found alive created))
  | ends {e : Event} {n : ℕ} {p : WorkerProcess} {code : Option UInt32}
      (hn : processes[n]? = some p) : Stepped processes e (processes.set n (p.exit code))

theorem step_cases {processes after : List WorkerProcess} {e : Event}
    (h : step processes e = some after) : Stepped processes e after := by
  cases e with
  | launch line =>
    cases h
    exact .launch
  | begin_work n found alive created =>
    simp only [step] at h
    split at h
    · next arguments hn =>
      cases h
      exact .begin_work hn
    · cases h
  | close n =>
    simp only [step] at h
    split at h
    · next hn =>
      cases h
      exact .ends hn
    · cases h
  | finish n =>
    simp only [step] at h
    split at h
    · next hn =>
      cases h
      exact .ends hn
    · cases h
  | fail n =>
    simp only [step] at h
    split at h
    · next hn =>
      cases h
      exact .ends hn
    · next hn =>
      cases h
      exact .ends hn
    · cases h
  | kill n =>
    simp only [step] at h
    split at h
    · next p hn =>
      cases h
      exact .ends hn
    · cases h

/-- A worker goes on only when no process has the mutex of its game. -/
theorem not_holds_of_running {processes : List WorkerProcess} {arguments : Arguments}
    {found : Option UInt32} {alive created : Bool}
    (h : (begin_work processes arguments found alive created).phase = .running) :
    ∀ p ∈ processes, ¬ p.Holds (mutex_name
      (begin_work processes arguments found alive created).arguments.parent_pid) := by
  revert h
  simp only [begin_work]
  split_ifs with hnot hcreated hexists
  · exact False.elim
  · exact False.elim
  · exact fun _ p hp hholds => hexists ⟨p, hp, hholds⟩
  · exact False.elim

/-- No two running workers are of one game. -/
def Alone (processes : List WorkerProcess) : Prop :=
  ∀ (i j : ℕ) (p q : WorkerProcess), processes[i]? = some p → processes[j]? = some q →
    p.phase = .running → q.phase = .running → p.arguments.parent_pid = q.arguments.parent_pid → i = j

theorem Alone.set {processes : List WorkerProcess} (h : Alone processes) (n : ℕ)
    {new : WorkerProcess} (hnew : new.phase = .running → ∀ p ∈ processes, p.phase = .running →
      p.arguments.parent_pid ≠ new.arguments.parent_pid) : Alone (processes.set n new) := by
  intro i j p q hi hj hp hq hpid
  rw [List.getElem?_set] at hi hj
  split_ifs at hi hj with hni hlength hnj hlength'
  · rw [← hni, ← hnj]
  · cases hi
    exact absurd hpid.symm (hnew hp q (List.mem_of_getElem? hj) hq)
  · cases hj
    exact absurd hpid (hnew hq p (List.mem_of_getElem? hi) hp)
  · exact h i j p q hi hj hp hq hpid

theorem Alone.step {processes after : List WorkerProcess} (h : Alone processes) {e : Event}
    (hstep : Stepped processes e after) : Alone after := by
  cases hstep with
  | launch =>
    intro i j p q hi hj hp hq hpid
    have hold {k : ℕ} {r new : WorkerProcess} (hnew : new.phase = .starting)
        (hk : (processes ++ [new])[k]? = some r)
        (hr : r.phase = .running) : processes[k]? = some r := by
      rcases lt_or_ge k processes.length with hlt | hge
      · rwa [List.getElem?_append_left hlt] at hk
      · rw [List.getElem?_append_right hge, List.getElem?_singleton] at hk
        split_ifs at hk
        cases hk
        rw [hnew] at hr
        cases hr
    exact h i j p q (hold rfl hi hp) (hold rfl hj hq) hp hq hpid
  | begin_work hn =>
    refine h.set _ fun hrunning p hp hother hpid => ?_
    exact not_holds_of_running hrunning p hp ⟨.inr hother, congrArg mutex_name hpid⟩
  | ends hn => exact h.set _ fun hrunning => by cases hrunning

/-- Each process has the game and the pipe that the plugin gave it. -/
def Served (processes : List WorkerProcess) : Prop :=
  ∀ p ∈ processes, p.arguments.parent_pid ≠ 0 ∧ p.arguments.pipe = pipe_name p.arguments.parent_pid

theorem pipe_name_ne_nil (pid : UInt32) : pipe_name pid ≠ [] := by
  simp [pipe_name, to_wstring_ne_nil]

theorem resolve_eq {arguments : Arguments} (hpid : arguments.parent_pid ≠ 0)
    (hpipe : arguments.pipe = pipe_name arguments.parent_pid) (found : Option UInt32) :
    resolve arguments found = arguments := by
  have hne : arguments.pipe ≠ [] := by
    rw [hpipe]
    exact pipe_name_ne_nil _
  rw [resolve, if_neg hpid, if_neg hne]

theorem arguments_begin_work {processes : List WorkerProcess} {arguments : Arguments}
    (hpid : arguments.parent_pid ≠ 0) (hpipe : arguments.pipe = pipe_name arguments.parent_pid)
    (found : Option UInt32) (alive created : Bool) :
    (begin_work processes arguments found alive created).arguments = arguments := by
  simp only [begin_work, resolve_eq hpid hpipe]
  split_ifs <;> rfl

/-- A process that the plugin starts: the game has a number, and its folder a name without quotes. -/
def Launched : Event → Prop
  | .launch line => ∃ worker pid, PathOk worker ∧ pid ≠ 0 ∧ line = launch_worker worker pid
  | _ => True

theorem Served.step {processes after : List WorkerProcess} (h : Served processes) {e : Event}
    (he : Launched e) (hstep : Stepped processes e after) : Served after := by
  have hset (n : ℕ) {old new : WorkerProcess} (hn : processes[n]? = some old)
      (hnew : new.arguments = old.arguments) : Served (processes.set n new) := by
    intro p hp
    rcases List.mem_or_eq_of_mem_set hp with hmem | rfl
    · exact h p hmem
    · rw [hnew]
      exact h old (List.mem_of_getElem? hn)
  cases hstep with
  | launch =>
    obtain ⟨worker, pid, hworker, hpid, rfl⟩ := he
    intro p hp
    rcases List.mem_append.mp hp with hold | hnew
    · exact h p hold
    · rw [List.mem_singleton.mp hnew, (arguments_of_launch_worker hworker pid).2]
      exact ⟨hpid, rfl⟩
  | begin_work hn =>
    obtain ⟨hpid, hpipe⟩ := h _ (List.mem_of_getElem? hn)
    exact hset _ hn (arguments_begin_work hpid hpipe _ _ _)
  | ends hn => exact hset _ hn rfl

theorem to_wstring_injective {p q : UInt32} (h : to_wstring p.toNat = to_wstring q.toNat) :
    p = q := by
  rw [← wcstoul_to_wstring p, h, wcstoul_to_wstring]

theorem pipe_name_injective {p q : UInt32} (h : pipe_name p = pipe_name q) : p = q :=
  to_wstring_injective (List.append_cancel_left h)

theorem mutex_name_injective {p q : UInt32} (h : mutex_name p = mutex_name q) : p = q :=
  to_wstring_injective (List.append_cancel_left h)

/-- However often the plugins of any games start a worker, and wherever processes end, no two
running workers serve one pipe; and a process whose game has no other one at hand goes on, with the
pipe of its game. -/
theorem serves_alone {processes : List WorkerProcess} {es : List Event}
    (hrun : machine.run es = some processes) (hlaunched : ∀ e ∈ es, Launched e) :
    (∀ (i j : ℕ) (p q : WorkerProcess), processes[i]? = some p → processes[j]? = some q →
      p.phase = .running → q.phase = .running → p.arguments.pipe = q.arguments.pipe → i = j) ∧
    ∀ p ∈ processes, (∀ q ∈ processes, q.phase = .duplicate ∨ q.phase = .running →
        q.arguments.parent_pid ≠ p.arguments.parent_pid) →
      ∀ found, begin_work processes p.arguments found true true =
        ⟨p.arguments, .running⟩ ∧ p.arguments.pipe = pipe_name p.arguments.parent_pid := by
  have halone : Alone processes :=
    Machine.invariant (fun s e t h hstep => h.step (step_cases hstep)) hrun
      (by intro i j p q hi; simp [machine] at hi)
  have hserved : Served processes :=
    Machine.invariant_along (fun s e t h he hstep => h.step he (step_cases hstep))
      (Machine.along_of_forall hlaunched) hrun (by intro p hp; simp [machine] at hp)
  constructor
  · intro i j p q hi hj hp hq hpipe
    rw [(hserved p (List.mem_of_getElem? hi)).2, (hserved q (List.mem_of_getElem? hj)).2] at hpipe
    exact halone i j p q hi hj hp hq (pipe_name_injective hpipe)
  · intro p hp hfree found
    obtain ⟨hpid, hpipe⟩ := hserved p hp
    have hnone : ¬ ∃ q ∈ processes, q.Holds (mutex_name p.arguments.parent_pid) := by
      rintro ⟨q, hq, hphase, hname⟩
      exact hfree q hq hphase (mutex_name_injective hname)
    refine ⟨?_, hpipe⟩
    simp only [begin_work, resolve_eq hpid hpipe, hpid, hnone, if_false, not_true_eq_false, or_self]

def relaunches : List Event :=
  [.launch (launch_worker [65] 8), .launch (launch_worker [66] 8), .launch (launch_worker [67] 9),
    .begin_work 1 none true true, .begin_work 0 none true true, .begin_work 2 none true true,
    .close 0, .kill 1, .launch (launch_worker [65] 8), .begin_work 3 none true true]

def relaunched : List WorkerProcess :=
  [⟨⟨8, pipe_name 8⟩, .exited (some 2)⟩, ⟨⟨8, pipe_name 8⟩, .exited none⟩,
    ⟨⟨9, pipe_name 9⟩, .running⟩, ⟨⟨8, pipe_name 8⟩, .running⟩]

theorem run_relaunches : machine.run relaunches = some relaunched := by
  have hone (worker : List UInt16) (hworker : PathOk worker) (pid : UInt32) :
      arguments_of (launch_worker worker pid) = ⟨pid, pipe_name pid⟩ :=
    (arguments_of_launch_worker hworker pid).2
  simp only [relaunches, machine, Machine.run, Machine.runFrom, step, hone [65] (by decide),
    hone [66] (by decide), hone [67] (by decide), Option.bind_some]
  decide +kernel

theorem serves_alone_relaunched :
    (∀ (i j : ℕ) (p q : WorkerProcess), relaunched[i]? = some p → relaunched[j]? = some q →
      p.phase = .running → q.phase = .running → p.arguments.pipe = q.arguments.pipe → i = j) ∧
    ∀ p ∈ relaunched, (∀ q ∈ relaunched, q.phase = .duplicate ∨ q.phase = .running →
        q.arguments.parent_pid ≠ p.arguments.parent_pid) →
      ∀ found, begin_work relaunched p.arguments found true true = ⟨p.arguments, .running⟩ ∧
        p.arguments.pipe = pipe_name p.arguments.parent_pid := by
  refine serves_alone run_relaunches ?_
  simp only [relaunches, List.forall_mem_cons, Launched]
  exact ⟨⟨[65], 8, by decide, by decide, rfl⟩, ⟨[66], 8, by decide, by decide, rfl⟩,
    ⟨[67], 9, by decide, by decide, rfl⟩, trivial, trivial, trivial, trivial, trivial,
    ⟨[65], 8, by decide, by decide, rfl⟩, trivial, by simp⟩

end WorkerProcess
end GambitRecord
