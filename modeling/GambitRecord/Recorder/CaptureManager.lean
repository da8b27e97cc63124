import GambitRecord.Library.Algorithms
import GambitRecord.Recorder.Responses

/-! # The capture manager and its backends

`CaptureManager`: the window it looks for, the monitor thread that connects a
backend to it, and the handler that a backend calls from a thread of its own when
it is interrupted. The handler's two stores fall between any two steps of the
monitor. The history numbers the backends and keeps the turn of each interruption.
-/

namespace GambitRecord.Recorder
open Library Library.Runs

structure Rect where
  left : Int32
  top : Int32
  right : Int32
  bottom : Int32
  deriving DecidableEq

/-- A top-level window; `client` is `none` where `GetClientRect` fails. -/
structure Window where
  hwnd : UInt64
  pid : UInt32
  owner : UInt64
  visible : Bool
  iconic : Bool
  toolwindow : Bool
  client : Option Rect
  deriving DecidableEq

structure Process where
  szExeFile : List UInt16
  th32ProcessID : UInt32
  deriving DecidableEq

/-- What one look at the system finds; there may be no snapshot of the processes. -/
structure Desktop where
  snapshot : Option (List Process) := none
  windows : List Window := []
  deriving DecidableEq

/-- The folding of `_wcsicmp` in the C locale. -/
def towlower (c : UInt16) : UInt16 := if 65 ≤ c ∧ c ≤ 90 then c + 32 else c

namespace Window
variable (w : Window)

/-- The sides are compared with zero as signed numbers. -/
def area : ℕ :=
  match w.client with
  | some client =>
    (max 0 (client.right - client.left)).toInt.toNat *
      (max 0 (client.bottom - client.top)).toInt.toNat
  | none => 0

def Eligible (pid : UInt32) : Prop :=
  w.pid = pid ∧ w.owner = 0 ∧ w.visible = true ∧ w.iconic = false ∧ w.toolwindow = false ∧
    w.client.isSome = true

instance (pid : UInt32) : Decidable (w.Eligible pid) :=
  inferInstanceAs (Decidable (_ ∧ _ ∧ _ ∧ _ ∧ _ ∧ _))

/-- The product fits its 64 bits. -/
theorem area_lt : w.area < 2 ^ 64 := by
  have hside (side : Int32) : side.toInt.toNat < 2 ^ 31 := by
    have := side.toInt_lt
    omega
  simp only [area]
  split
  · exact (Nat.mul_lt_mul'' (hside _) (hside _)).trans_le (by norm_num)
  · norm_num

end Window

namespace Desktop

/-- The first process of that name, whatever windows it has. -/
def wanted_pid (process_ : List UInt16) (d : Desktop) : UInt32 :=
  match (d.snapshot.getD []).find? fun pe =>
      pe.szExeFile.map towlower = (process_.takeWhile (· ≠ 0)).map towlower with
  | some pe => pe.th32ProcessID
  | none => 0

structure Context where
  found : UInt64 := 0
  area : ℕ := 0
  deriving DecidableEq

/-- The callback of `EnumWindows`. -/
def consider (pid : UInt32) (c : Context) (w : Window) : Context :=
  if w.Eligible pid ∧ c.area < w.area then ⟨w.hwnd, w.area⟩ else c

def find_window (process_ : List UInt16) (d : Desktop) : UInt64 :=
  let pid := d.wanted_pid process_
  if pid = 0 then 0 else (d.windows.foldl (consider pid) {}).found

def Candidate (process_ : List UInt16) (d : Desktop) (w : Window) : Prop :=
  d.wanted_pid process_ ≠ 0 ∧ w ∈ d.windows ∧ w.Eligible (d.wanted_pid process_) ∧ 0 < w.area

instance (process_ : List UInt16) (d : Desktop) (w : Window) :
    Decidable (d.Candidate process_ w) := inferInstanceAs (Decidable (_ ∧ _ ∧ _ ∧ _))

variable {pid : UInt32}

/-- From a window on, the fold is that of the maximum. -/
theorem foldl_consider_window (w : Window) (l : List Window) :
    l.foldl (consider pid) ⟨w.hwnd, w.area⟩ =
      (fun m : Window => (⟨m.hwnd, m.area⟩ : Context))
        ((l.filter fun v => v.Eligible pid ∧ 0 < v.area).foldl
          (fun m v => if decide (m.area < v.area) then v else m) w) := by
  induction l generalizing w with
  | nil => rfl
  | cons v l ih =>
    rw [List.foldl_cons, consider]
    by_cases hv : v.Eligible pid ∧ 0 < v.area
    · rw [List.filter_cons_of_pos (by simpa using hv), List.foldl_cons]
      by_cases hlt : w.area < v.area
      · rw [if_pos ⟨hv.1, hlt⟩, ih, if_pos (decide_eq_true hlt)]
      · rw [if_neg fun h => hlt h.2, ih, if_neg (by simpa using hlt)]
    · have hnot : ¬ (v.Eligible pid ∧ w.area < v.area) := fun h =>
        hv ⟨h.1, (Nat.zero_le _).trans_lt h.2⟩
      rw [if_neg hnot, List.filter_cons_of_neg (by simpa using hv), ih]

theorem foldl_consider (l : List Window) :
    l.foldl (consider pid) {} =
      match Algorithms.maxElement (fun v w : Window => decide (v.area < w.area))
          (l.filter fun v => v.Eligible pid ∧ 0 < v.area) with
      | some w => ⟨w.hwnd, w.area⟩
      | none => {} := by
  induction l with
  | nil => rfl
  | cons v l ih =>
    rw [List.foldl_cons, consider]
    by_cases hv : v.Eligible pid ∧ 0 < v.area
    · rw [if_pos hv, List.filter_cons_of_pos (by simpa using hv), foldl_consider_window]
      rfl
    · rw [if_neg hv, List.filter_cons_of_neg (by simpa using hv), ih]

/-- The window found is a candidate of the greatest area; with none there is no candidate. -/
theorem find_window_spec {process_ : List UInt16} {d : Desktop}
    (hwindows : ∀ w ∈ d.windows, w.hwnd ≠ 0) :
    (d.find_window process_ = 0 ∧ ∀ w, ¬ d.Candidate process_ w) ∨
      ∃ w, d.find_window process_ = w.hwnd ∧ w.hwnd ≠ 0 ∧ d.Candidate process_ w ∧
        ∀ v, d.Candidate process_ v → v.area ≤ w.area := by
  by_cases hpid : d.wanted_pid process_ = 0
  · exact .inl ⟨by simp [find_window, hpid], fun w h => h.1 hpid⟩
  · have hmem (w : Window) : d.Candidate process_ w ↔ w ∈ d.windows.filter fun v =>
        v.Eligible (d.wanted_pid process_) ∧ 0 < v.area := by
      rw [List.mem_filter, decide_eq_true_iff]
      exact and_iff_right hpid
    simp only [find_window, hpid, if_false, foldl_consider]
    cases hmax : Algorithms.maxElement (fun v w : Window => decide (v.area < w.area))
        (d.windows.filter fun v => v.Eligible (d.wanted_pid process_) ∧ 0 < v.area) with
    | none =>
      refine .inl ⟨rfl, fun w h => ?_⟩
      obtain ⟨m, hm⟩ := Algorithms.maxElement_isSome
        (fun v w : Window => decide (v.area < w.area))
        (List.ne_nil_of_mem ((hmem w).mp h))
      rw [hmax] at hm
      cases hm
    | some w =>
      obtain ⟨hw, hle⟩ := Algorithms.maxElement_spec Window.area
        (fun v w => decide_eq_true_iff) hmax
      have hcandidate := (hmem w).mpr hw
      exact .inr ⟨w, rfl, hwindows w hcandidate.2.1, hcandidate,
        fun v hv => hle v ((hmem v).mp hv)⟩

end Desktop

inductive BackendKind where
  | WindowsGraphicsCapture
  | DesktopDuplication
  deriving DecidableEq

/-- A backend, numbered by its making, and the window it was started for. -/
structure CaptureBackend where
  number : ℕ
  kind : BackendKind
  hwnd : UInt64
  deriving DecidableEq

/-- Where the monitor thread is: not joinable, before the test of its loop, before the condition
for a found window, in `connect` before the old backend is stopped, within the call of the new
one's `start`, behind it, or out of the loop. -/
inductive Place where
  | off
  | top
  | found (hwnd : UInt64)
  | connecting (hwnd : UInt64)
  | starting (hwnd : UInt64)
  | started (hwnd : UInt64)
  | returned
  deriving DecidableEq

/-- A handler that has run to its end, with the turns begun until then. -/
structure Interruption where
  number : ℕ
  turn : ℕ
  deriving DecidableEq

/-- `late` are the handlers between their two stores. -/
structure CaptureManager where
  hwnd_ : UInt64 := 0
  state_ : CaptureState := .WaitingForGame
  backend_failed_ : Bool := false
  backend_ : Option CaptureBackend := none
  monitor_thread_ : Place := .off
  stopping : Bool := false
  late : List ℕ := []
  made : ℕ := 0
  begun : ℕ := 0
  ended : ℕ := 0
  looked : Desktop := {}
  interruptions : List Interruption := []
  deriving DecidableEq

namespace CaptureManager

/-- The owner starts and stops the manager, one after the other. `supported` and `is_window` are the
system's answers; `throws` is an exception of the backend's `start`. -/
inductive Event where
  | start
  | stop
  | joined
  | look (desktop : Desktop)
  | test (is_window : Bool)
  | begin_start (supported : Bool)
  | returns
  | throws
  | publish
  | leave
  | interrupt
  | interrupted (number : ℕ)
  deriving DecidableEq

variable (process_ : List UInt16) (preferred_ : Bytes)

/-- `make_unique` and the beginning of `start`. -/
def make (s : CaptureManager) (kind : BackendKind) (hwnd : UInt64) : CaptureManager :=
  { s with
    backend_ := some ⟨s.made, kind, hwnd⟩
    made := s.made + 1
    monitor_thread_ := .starting hwnd }

def end_turn (s : CaptureManager) : CaptureManager :=
  { s with monitor_thread_ := .top, ended := s.ended + 1 }

def disconnect (s : CaptureManager) (state : CaptureState) : CaptureManager :=
  { s with backend_ := none, hwnd_ := 0, state_ := state }

def step (s : CaptureManager) : Event → Option CaptureManager
  | .start =>
    if s.stopping then none
    else if s.monitor_thread_ = .off then some { s with monitor_thread_ := .top } else some s
  | .stop => if s.stopping then none else some { s with stopping := true }
  | .joined =>
    if s.stopping ∧ (s.monitor_thread_ = .off ∨ s.monitor_thread_ = .returned) then
      some { s.disconnect .WaitingForGame with monitor_thread_ := .off, stopping := false }
    else none
  | .look desktop =>
    if s.monitor_thread_ = .top ∧ ¬ s.stopping then
      let s := { s with begun := s.begun + 1, looked := desktop }
      let found := desktop.find_window process_
      if found = 0 then some (s.disconnect .WaitingForGame).end_turn
      else some { s with monitor_thread_ := .found found }
    else none
  | .test is_window =>
    match s.monitor_thread_ with
    | .found found =>
      -- the flag is exchanged only if the window is the old one
      if found ≠ s.hwnd_ ∨ s.backend_failed_ ∨ ¬ is_window then
        some { s with
          backend_failed_ := s.backend_failed_ && decide (found ≠ s.hwnd_)
          state_ := if s.hwnd_ ≠ 0 then .Restarting else .Starting
          monitor_thread_ := .connecting found }
      else some s.end_turn
    | _ => none
  | .begin_start supported =>
    match s.monitor_thread_ with
    | .connecting hwnd =>
      some ({ s with hwnd_ := 0, backend_failed_ := false }.make
        (if preferred_ = Utf8.bytes "windows_graphics_capture" ∧ supported then
          .WindowsGraphicsCapture else .DesktopDuplication) hwnd)
    | _ => none
  | .returns =>
    match s.monitor_thread_ with
    | .starting hwnd => some { s with monitor_thread_ := .started hwnd }
    | _ => none
  | .throws =>
    match s.monitor_thread_, s.backend_ with
    | .starting hwnd, some backend =>
      if backend.kind = .WindowsGraphicsCapture then some (s.make .DesktopDuplication hwnd)
      else some (s.disconnect .Error).end_turn
    | _, _ => none
  | .publish =>
    match s.monitor_thread_ with
    | .started hwnd => some { s with hwnd_ := hwnd, state_ := .Running }.end_turn
    | _ => none
  | .leave =>
    if s.monitor_thread_ = .top ∧ s.stopping then some { s with monitor_thread_ := .returned }
    else none
  | .interrupt =>
    match s.backend_ with
    | some backend => some { s with state_ := .Restarting, late := backend.number :: s.late }
    | none => none
  | .interrupted number =>
    if number ∈ s.late then
      some { s with
        late := s.late.erase number
        backend_failed_ := true
        interruptions := ⟨number, s.begun⟩ :: s.interruptions }
    else none

def machine : Machine CaptureManager Event := ⟨{}, step process_ preferred_⟩

variable {process_} {preferred_}

inductive Stepped (process_ : List UInt16) (s : CaptureManager) : Event → CaptureManager → Prop
  | started (hplace : s.monitor_thread_ = .off) :
      Stepped process_ s .start { s with monitor_thread_ := .top }
  | start : Stepped process_ s .start s
  | stop : Stepped process_ s .stop { s with stopping := true }
  | joined (hplace : s.monitor_thread_ = .off ∨ s.monitor_thread_ = .returned) :
      Stepped process_ s .joined
        { s.disconnect .WaitingForGame with monitor_thread_ := .off, stopping := false }
  | absent {desktop : Desktop} (hplace : s.monitor_thread_ = .top)
      (hfound : desktop.find_window process_ = 0) :
      Stepped process_ s (.look desktop)
        ({ s with begun := s.begun + 1, looked := desktop }.disconnect .WaitingForGame).end_turn
  | found {desktop : Desktop} (hplace : s.monitor_thread_ = .top)
      (hfound : desktop.find_window process_ ≠ 0) :
      Stepped process_ s (.look desktop)
        { s with
          begun := s.begun + 1
          looked := desktop
          monitor_thread_ := .found (desktop.find_window process_) }
  | reconnect {is_window : Bool} {found : UInt64} {failed : Bool} {state : CaptureState}
      (hplace : s.monitor_thread_ = .found found) (hstate : state ≠ .Running) :
      Stepped process_ s (.test is_window)
        { s with
          backend_failed_ := failed, state_ := state, monitor_thread_ := .connecting found }
  | kept {is_window : Bool} (hplace : s.monitor_thread_ = .found s.hwnd_)
      (hflag : s.backend_failed_ = false) : Stepped process_ s (.test is_window) s.end_turn
  | begin_start {supported : Bool} {hwnd : UInt64} {kind : BackendKind}
      (hplace : s.monitor_thread_ = .connecting hwnd) :
      Stepped process_ s (.begin_start supported)
        ({ s with hwnd_ := 0, backend_failed_ := false }.make kind hwnd)
  | returns {hwnd : UInt64} (hplace : s.monitor_thread_ = .starting hwnd) :
      Stepped process_ s .returns { s with monitor_thread_ := .started hwnd }
  | fallback {hwnd : UInt64} (hplace : s.monitor_thread_ = .starting hwnd) :
      Stepped process_ s .throws (s.make .DesktopDuplication hwnd)
  | failed {hwnd : UInt64} (hplace : s.monitor_thread_ = .starting hwnd) :
      Stepped process_ s .throws (s.disconnect .Error).end_turn
  | publish {hwnd : UInt64} (hplace : s.monitor_thread_ = .started hwnd) :
      Stepped process_ s .publish { s with hwnd_ := hwnd, state_ := .Running }.end_turn
  | leave (hplace : s.monitor_thread_ = .top) :
      Stepped process_ s .leave { s with monitor_thread_ := .returned }
  | interrupt {backend : CaptureBackend} (hbackend : s.backend_ = some backend) :
      Stepped process_ s .interrupt
        { s with state_ := .Restarting, late := backend.number :: s.late }
  | interrupted {number : ℕ} (hlate : number ∈ s.late) :
      Stepped process_ s (.interrupted number)
        { s with
          late := s.late.erase number
          backend_failed_ := true
          interruptions := ⟨number, s.begun⟩ :: s.interruptions }

theorem step_cases {s t : CaptureManager} {e : Event}
    (h : s.step process_ preferred_ e = some t) : Stepped process_ s e t := by
  cases e with
  | start =>
    simp only [step] at h
    split_ifs at h with hstopping hplace <;> cases h
    · exact .started hplace
    · exact .start
  | stop =>
    simp only [step] at h
    split_ifs at h
    cases h
    exact .stop
  | joined =>
    simp only [step] at h
    split_ifs at h with hjoined
    cases h
    exact .joined hjoined.2
  | look desktop =>
    simp only [step] at h
    split_ifs at h with hplace hfound <;> cases h
    · exact .absent hplace.1 hfound
    · exact .found hplace.1 hfound
  | test is_window =>
    simp only [step] at h
    split at h
    · next found hplace =>
      split_ifs at h with hcondition hold <;> cases h
      · exact .reconnect hplace (by decide)
      · exact .reconnect hplace (by decide)
      · simp only [ne_eq, not_or, not_not, Bool.not_eq_true] at hcondition
        obtain ⟨rfl, hflag, -⟩ := hcondition
        exact .kept hplace hflag
    · cases h
  | begin_start supported =>
    simp only [step] at h
    split at h
    · next hwnd hplace =>
      cases h
      exact .begin_start hplace
    · cases h
  | returns =>
    simp only [step] at h
    split at h
    · next hwnd hplace =>
      cases h
      exact .returns hplace
    · cases h
  | throws =>
    simp only [step] at h
    split at h
    · next hwnd backend hplace hbackend =>
      split_ifs at h <;> cases h
      · exact .fallback hplace
      · exact .failed hplace
    · cases h
  | publish =>
    simp only [step] at h
    split at h
    · next hwnd hplace =>
      cases h
      exact .publish hplace
    · cases h
  | leave =>
    simp only [step] at h
    split_ifs at h with hplace
    cases h
    exact .leave hplace.1
  | interrupt =>
    simp only [step] at h
    split at h
    · next backend hbackend =>
      cases h
      exact .interrupt hbackend
    · cases h
  | interrupted number =>
    simp only [step] at h
    split_ifs at h with hlate
    cases h
    exact .interrupted hlate

/-! ## Interruptions -/

def Place.open : Place → ℕ
  | .off | .top | .returned => 0
  | .found _ | .connecting _ | .starting _ | .started _ => 1

def Reported (s : CaptureManager) (i : Interruption) : Prop :=
  i ∈ s.interruptions ∧ ∃ backend ∈ s.backend_, backend.number = i.number

def IsNew : Place → Prop
  | .starting _ | .started _ => True
  | _ => False

/-- The flag stands for the interruptions of the backend at hand until the monitor has read it, and
a turn that has read it does not end with the same backend. -/
structure Answered (s : CaptureManager) : Prop where
  turns : s.begun = s.ended + Place.open s.monitor_thread_
  made : ∀ backend ∈ s.backend_, backend.number < s.made
  late : ∀ number ∈ s.late, number < s.made
  numbers : ∀ i ∈ s.interruptions, i.number < s.made
  flag : ∀ i, s.Reported i → s.backend_failed_ = true ∨ ∃ hwnd, s.monitor_thread_ = .connecting hwnd
  time : ∀ i, s.Reported i → s.ended ≤ i.turn
  now : ∀ i, s.Reported i → IsNew s.monitor_thread_ → s.ended < i.turn

namespace Answered
variable {s t : CaptureManager}

theorem frame (h : Answered s) (hbackend : t.backend_ = s.backend_) (hmade : t.made = s.made)
    (hlate : t.late = s.late) (hinterruptions : t.interruptions = s.interruptions)
    (hflag : s.backend_failed_ = true → t.backend_failed_ = true) (hended : t.ended = s.ended)
    (hturns : t.begun = t.ended + Place.open t.monitor_thread_)
    (hplace : ∀ hwnd, s.monitor_thread_ ≠ .connecting hwnd)
    (hnew : IsNew t.monitor_thread_ → IsNew s.monitor_thread_) : Answered t := by
  have hreported (i : Interruption) (hi : t.Reported i) : s.Reported i := by
    rw [Reported, hbackend, hinterruptions] at hi
    exact hi
  constructor
  · exact hturns
  · rw [hbackend, hmade]
    exact h.made
  · rw [hlate, hmade]
    exact h.late
  · rw [hinterruptions, hmade]
    exact h.numbers
  · intro i hi
    rcases h.flag i (hreported i hi) with hset | ⟨hwnd, hconnecting⟩
    · exact .inl (hflag hset)
    · exact absurd hconnecting (hplace hwnd)
  · intro i hi
    rw [hended]
    exact h.time i (hreported i hi)
  · intro i hi ht
    rw [hended]
    exact h.now i (hreported i hi) (hnew ht)

theorem idle (h : Answered s) (hbackend : t.backend_ = none) (hmade : t.made = s.made)
    (hlate : t.late = s.late) (hinterruptions : t.interruptions = s.interruptions)
    (hturns : t.begun = t.ended + Place.open t.monitor_thread_) : Answered t := by
  have hnone (i : Interruption) : ¬ t.Reported i := by
    rintro ⟨-, backend, hmem, -⟩
    rw [hbackend] at hmem
    cases hmem
  constructor
  · exact hturns
  · simp [hbackend]
  · rw [hlate, hmade]
    exact h.late
  · rw [hinterruptions, hmade]
    exact h.numbers
  · exact fun i hi => absurd hi (hnone i)
  · exact fun i hi => absurd hi (hnone i)
  · exact fun i hi => absurd hi (hnone i)

theorem make (h : Answered s) (kind : BackendKind) (hwnd : UInt64)
    (hturn : Place.open s.monitor_thread_ = 1) : Answered (s.make kind hwnd) := by
  have hnone (i : Interruption) : ¬ (s.make kind hwnd).Reported i := by
    rintro ⟨hi, backend, hmem, hnumber⟩
    cases hmem
    exact (h.numbers i hi).ne hnumber.symm
  have hturns := h.turns
  rw [hturn] at hturns
  constructor
  · exact hturns
  · rintro backend hmem
    cases hmem
    exact Nat.lt_succ_self _
  · exact fun number hnumber => (h.late number hnumber).trans (Nat.lt_succ_self _)
  · exact fun i hi => (h.numbers i hi).trans (Nat.lt_succ_self _)
  · exact fun i hi => absurd hi (hnone i)
  · exact fun i hi => absurd hi (hnone i)
  · exact fun i hi => absurd hi (hnone i)

theorem end_turn (h : Answered s) (hturn : Place.open s.monitor_thread_ = 1)
    (hplace : ∀ hwnd, s.monitor_thread_ ≠ .connecting hwnd)
    (hnow : ∀ i, s.Reported i → s.ended < i.turn) : Answered s.end_turn := by
  have hturns := h.turns
  rw [hturn] at hturns
  constructor
  · exact hturns
  · exact h.made
  · exact h.late
  · exact h.numbers
  · intro i hi
    rcases h.flag i hi with hset | ⟨hwnd, hconnecting⟩
    · exact .inl hset
    · exact absurd hconnecting (hplace hwnd)
  · exact fun i hi => hnow i hi
  · exact fun i hi hnew => absurd hnew id

theorem step (h : Answered s) {e : Event} (hstep : Stepped process_ s e t) : Answered t := by
  have hturns := h.turns
  cases hstep with
  | started hplace =>
    rw [hplace] at hturns
    exact h.frame rfl rfl rfl rfl id rfl hturns (by simp [hplace]) False.elim
  | start => exact h
  | stop => exact ⟨h.turns, h.made, h.late, h.numbers, h.flag, h.time, h.now⟩
  | joined hplace =>
    refine h.idle rfl rfl rfl rfl ?_
    rcases hplace with hplace | hplace <;> rw [hplace] at hturns <;> exact hturns
  | absent hplace =>
    rw [hplace] at hturns
    refine h.idle rfl rfl rfl rfl ?_
    change s.begun + 1 = s.ended + 1
    rw [hturns]
    rfl
  | found hplace =>
    rw [hplace] at hturns
    refine h.frame rfl rfl rfl rfl id rfl ?_ (by simp [hplace]) False.elim
    change s.begun + 1 = s.ended + 1
    rw [hturns]
    rfl
  | reconnect hplace hstate =>
    rw [hplace] at hturns
    exact ⟨hturns, h.made, h.late, h.numbers, fun i hi => .inr ⟨_, rfl⟩, h.time,
      fun i hi hnew => absurd hnew id⟩
  | kept hplace hflag =>
    refine h.end_turn (by rw [hplace]; rfl) (by simp [hplace]) fun i hi => ?_
    -- the condition read the flag of this backend
    rcases h.flag i hi with hset | ⟨hwnd, hconnecting⟩
    · rw [hflag] at hset
      cases hset
    · rw [hplace] at hconnecting
      cases hconnecting
  | begin_start hplace =>
    rw [hplace] at hturns
    have hidle : Answered { s with hwnd_ := 0, backend_failed_ := false, backend_ := none } :=
      h.idle rfl rfl rfl rfl (by rw [hplace]; exact hturns)
    exact hidle.make _ _ (by rw [hplace]; rfl)
  | returns hplace =>
    rw [hplace] at hturns
    exact h.frame rfl rfl rfl rfl id rfl hturns (by simp [hplace])
      (fun _ => by rw [hplace]; trivial)
  | fallback hplace => exact h.make _ _ (by rw [hplace]; rfl)
  | failed hplace =>
    rw [hplace] at hturns
    exact h.idle rfl rfl rfl rfl hturns
  | publish hplace =>
    have hnow (i : Interruption) (hi : s.Reported i) : s.ended < i.turn :=
      h.now i hi (by rw [hplace]; trivial)
    rw [hplace] at hturns
    exact end_turn (s := { s with hwnd_ := _, state_ := .Running })
      ⟨h.turns, h.made, h.late, h.numbers, h.flag, h.time, h.now⟩ (by rw [hplace]; rfl)
      (by simp [hplace]) hnow
  | leave hplace =>
    rw [hplace] at hturns
    exact h.frame rfl rfl rfl rfl id rfl hturns (by simp [hplace]) False.elim
  | interrupt hbackend =>
    refine ⟨h.turns, h.made, ?_, h.numbers, h.flag, h.time, h.now⟩
    intro number hnumber
    rcases List.mem_cons.mp hnumber with rfl | hold
    · exact h.made _ hbackend
    · exact h.late number hold
  | @interrupted number hlate =>
    have hnumbers (i : Interruption) (hi : i ∈ ⟨number, s.begun⟩ :: s.interruptions) :
        i.number < s.made := by
      rcases List.mem_cons.mp hi with rfl | hold
      · exact h.late number hlate
      · exact h.numbers i hold
    refine ⟨h.turns, h.made, fun n hn => h.late n (List.mem_of_mem_erase hn), hnumbers,
      fun i hi => .inl rfl, ?_, ?_⟩
    · rintro i ⟨hi, hbackend⟩
      rcases List.mem_cons.mp hi with rfl | hold
      · exact hturns ▸ Nat.le_add_right ..
      · exact h.time i ⟨hold, hbackend⟩
    · rintro i ⟨hi, hbackend⟩ hnew
      rcases List.mem_cons.mp hi with rfl | hold
      · have hopen : Place.open s.monitor_thread_ = 1 := by
          revert hnew
          cases s.monitor_thread_ <;> simp [IsNew, Place.open]
        change s.ended < s.begun
        omega
      · exact h.now i ⟨hold, hbackend⟩ hnew

end Answered

theorem answered_run {s : CaptureManager} {es : List Event}
    (hrun : (machine process_ preferred_).run es = some s) : Answered s := by
  refine Machine.invariant (fun s e t h hstep => h.step (step_cases hstep)) hrun ?_
  exact ⟨rfl, by simp [machine], by simp [machine], by simp [machine],
    fun i hi => absurd hi.1 (List.not_mem_nil), fun i hi => absurd hi.1 (List.not_mem_nil),
    fun i hi => absurd hi.1 (List.not_mem_nil)⟩

/-- No interruption is lost: when a turn begun after it has ended, the backend at hand is another
one or there is none. -/
theorem interrupted_replaced {s : CaptureManager} {es : List Event}
    (hrun : (machine process_ preferred_).run es = some s) {i : Interruption}
    (hi : i ∈ s.interruptions) (hended : i.turn < s.ended) :
    ∀ backend ∈ s.backend_, backend.number ≠ i.number := by
  intro backend hbackend hnumber
  exact absurd ((answered_run hrun).time i ⟨hi, backend, hbackend, hnumber⟩) (not_le.mpr hended)

def sample : Desktop where
  snapshot := some [⟨[71, 84, 65], 8⟩]
  windows := [⟨1, 8, 0, true, false, false, some ⟨0, 0, 1, 1⟩⟩,
    ⟨2, 8, 0, true, false, false, some ⟨0, 0, 800, 600⟩⟩]

/-- The handler runs between the start of the backend and the stores of `connect`; the next turn
makes another backend. -/
def sample_run : List Event :=
  [.start, .look sample, .test true, .begin_start true, .returns, .interrupt, .interrupted 0,
    .publish, .look sample, .test true, .begin_start false, .returns, .publish]

def sampled : CaptureManager where
  hwnd_ := 2
  state_ := .Running
  backend_ := some ⟨1, .DesktopDuplication, 2⟩
  monitor_thread_ := .top
  made := 2
  begun := 2
  ended := 2
  looked := sample
  interruptions := [⟨0, 1⟩]

theorem run_sample : (machine [103, 116, 97] []).run sample_run = some sampled := by decide +kernel

theorem interrupted_replaced_sample :
    sampled.backend_.isSome ∧
      ∀ backend ∈ sampled.backend_, backend.number ≠ (⟨0, 1⟩ : Interruption).number :=
  ⟨rfl, interrupted_replaced run_sample (by decide) (by decide)⟩

/-! ## The window at hand -/

/-- The backend at hand captures the window that the manager names, or there are none. -/
def Matching (s : CaptureManager) : Prop :=
  (s.backend_ = none ∧ s.hwnd_ = 0) ∨
    ∃ backend ∈ s.backend_, backend.hwnd = s.hwnd_ ∧ s.hwnd_ ≠ 0

/-- What holds of the window between the steps of a turn and between turns. -/
def Held (process_ : List UInt16) (s : CaptureManager) : Place → Prop
  | .off | .top | .returned =>
    s.Matching ∧ (s.hwnd_ ≠ 0 → s.hwnd_ = s.looked.find_window process_)
  | .found hwnd => s.Matching ∧ hwnd = s.looked.find_window process_ ∧ hwnd ≠ 0
  | .connecting hwnd => hwnd = s.looked.find_window process_ ∧ hwnd ≠ 0
  | .starting hwnd | .started hwnd =>
    (hwnd = s.looked.find_window process_ ∧ hwnd ≠ 0) ∧
      ∃ backend ∈ s.backend_, backend.hwnd = hwnd

structure Tracking (process_ : List UInt16) (s : CaptureManager) : Prop where
  held : Held process_ s s.monitor_thread_
  running : s.state_ = .Running → s.backend_.isSome = true

theorem held_disconnected {s : CaptureManager} {place : Place} (hbackend : s.backend_ = none)
    (hhwnd : s.hwnd_ = 0) (hplace : Place.open place = 0) : Held process_ s place := by
  have hheld : s.Matching ∧ (s.hwnd_ ≠ 0 → s.hwnd_ = s.looked.find_window process_) :=
    ⟨.inl ⟨hbackend, hhwnd⟩, fun hnot => absurd hhwnd hnot⟩
  cases place with
  | off => exact hheld
  | top => exact hheld
  | returned => exact hheld
  | found | connecting | starting | started => cases hplace

theorem Tracking.step {s t : CaptureManager} (h : Tracking process_ s) {e : Event}
    (hstep : Stepped process_ s e t) : Tracking process_ t := by
  have hheld := h.held
  cases hstep with
  | started hplace =>
    rw [hplace] at hheld
    exact ⟨hheld, h.running⟩
  | start => exact h
  | stop => exact ⟨h.held, h.running⟩
  | joined hplace => exact ⟨held_disconnected rfl rfl rfl, fun hrunning => by cases hrunning⟩
  | absent hplace hfound =>
    exact ⟨held_disconnected rfl rfl rfl, fun hrunning => by cases hrunning⟩
  | found hplace hfound =>
    rw [hplace] at hheld
    exact ⟨⟨hheld.1, rfl, hfound⟩, h.running⟩
  | reconnect hplace hstate =>
    rw [hplace] at hheld
    exact ⟨hheld.2, fun hrunning => absurd hrunning hstate⟩
  | kept hplace hflag =>
    rw [hplace] at hheld
    exact ⟨⟨hheld.1, fun _ => hheld.2.1⟩, h.running⟩
  | begin_start hplace =>
    rw [hplace] at hheld
    exact ⟨⟨hheld, _, rfl, rfl⟩, fun _ => rfl⟩
  | returns hplace =>
    rw [hplace] at hheld
    exact ⟨hheld, h.running⟩
  | fallback hplace =>
    rw [hplace] at hheld
    exact ⟨⟨hheld.1, _, rfl, rfl⟩, fun _ => rfl⟩
  | failed hplace => exact ⟨held_disconnected rfl rfl rfl, fun hrunning => by cases hrunning⟩
  | publish hplace =>
    rw [hplace] at hheld
    obtain ⟨hhwnd, backend, hbackend, hsame⟩ := hheld
    exact ⟨⟨.inr ⟨backend, hbackend, hsame, hhwnd.2⟩, fun _ => hhwnd.1⟩,
      fun _ => Option.isSome_of_mem hbackend⟩
  | leave hplace =>
    rw [hplace] at hheld
    exact ⟨hheld, h.running⟩
  | interrupt hbackend => exact ⟨h.held, fun hrunning => by cases hrunning⟩
  | interrupted hlate => exact ⟨h.held, h.running⟩

theorem tracking_run {s : CaptureManager} {es : List Event}
    (hrun : (machine process_ preferred_).run es = some s) : Tracking process_ s := by
  refine Machine.invariant (fun s e t h hstep => h.step (step_cases hstep)) hrun ?_
  exact ⟨⟨.inl ⟨rfl, rfl⟩, fun hnot => absurd rfl hnot⟩, fun hrunning => by cases hrunning⟩

theorem held_between {s : CaptureManager} {place : Place} (h : Held process_ s place)
    (hplace : Place.open place = 0) :
    s.Matching ∧ (s.hwnd_ ≠ 0 → s.hwnd_ = s.looked.find_window process_) := by
  cases place with
  | off => exact h
  | top => exact h
  | returned => exact h
  | found | connecting | starting | started => cases hplace

/-- Between turns a backend is at hand exactly when a window is, and it captures that window: one
of the greatest area among the candidates of the last look. Without them the state is not
`Running`. -/
theorem captures_largest {s : CaptureManager} {es : List Event}
    (hrun : (machine process_ preferred_).run es = some s)
    (hplace : Place.open s.monitor_thread_ = 0)
    (hwindows : ∀ w ∈ s.looked.windows, w.hwnd ≠ 0) :
    (s.state_ = .Running → s.hwnd_ ≠ 0) ∧ (s.hwnd_ = 0 ↔ s.backend_ = none) ∧
      ∀ backend ∈ s.backend_, ∃ w, backend.hwnd = w.hwnd ∧ s.hwnd_ = w.hwnd ∧
        s.looked.Candidate process_ w ∧
        ∀ v, s.looked.Candidate process_ v → v.area ≤ w.area := by
  have htracking := tracking_run hrun
  obtain ⟨⟨hnone, hzero⟩ | ⟨backend, hbackend, hsame, hhwnd⟩, hlooked⟩ :=
    held_between htracking.held hplace
  · refine ⟨fun hrunning => ?_, iff_of_true hzero hnone, by simp [hnone]⟩
    have hsome := htracking.running hrunning
    rw [hnone] at hsome
    cases hsome
  · have hsome : s.backend_ ≠ none := by
      rw [Option.mem_def.mp hbackend]
      exact Option.some_ne_none backend
    refine ⟨fun _ => hhwnd, iff_of_false hhwnd hsome, ?_⟩
    intro other hother
    rw [Option.mem_unique hother hbackend]
    rcases Desktop.find_window_spec hwindows with ⟨hnull, -⟩ | hfound
    · rw [hlooked hhwnd] at hhwnd
      exact absurd hnull hhwnd
    · obtain ⟨w, hw, -, hcandidate, hlargest⟩ := hfound
      exact ⟨w, by rw [hsame, hlooked hhwnd, hw], by rw [hlooked hhwnd, hw], hcandidate, hlargest⟩

theorem captures_largest_sample :
    (sampled.state_ = .Running → sampled.hwnd_ ≠ 0) ∧
      (sampled.hwnd_ = 0 ↔ sampled.backend_ = none) ∧
      ∀ backend ∈ sampled.backend_, ∃ w, backend.hwnd = w.hwnd ∧ sampled.hwnd_ = w.hwnd ∧
        sample.Candidate [103, 116, 97] w ∧
        ∀ v, sample.Candidate [103, 116, 97] v → v.area ≤ w.area :=
  captures_largest run_sample rfl (by decide)

end CaptureManager
end GambitRecord.Recorder
