import GambitRecord.Broker.UploadSession
import GambitRecord.Library.Algorithms
import GambitRecord.Library.Calendar
import Mathlib.Data.List.Induction

/-! # The daily upload limit

`DailyLimiter.fetch` of `broker/src/index.ts`. The storage maps composed keys to
counters; a request reads two of them and writes both or neither. What the
counters stand for is stated over the answers given so far, which the object
itself does not keep.
-/

namespace GambitRecord.Broker
open Library Library.DigitText Library.Calendar

/-- The limits of an environment: numbers of requests, as JavaScript counts exactly. -/
structure Limits where
  perIp : ℕ
  global : ℕ
  perIp_safe : perIp ≤ Binary64.maxSafe
  global_safe : global ≤ Binary64.maxSafe

/-- A request to the limiter at a time in milliseconds from 1970 on. -/
structure ConsumeRequest where
  method : Method
  now : ℕ
  xIp : Option Text
  deriving DecidableEq

structure ConsumeResponse where
  status : ℕ
  error : Option Text := none
  allowed : Option Bool := none
  deriving DecidableEq

namespace DailyLimiter

abbrev Storage := Text → Option ℕ

def day (now : ℕ) : Text := (toISOString now).take 10

def ip (request : ConsumeRequest) : Text := request.xIp.getD (text "unknown")

def globalKey (day : Text) : Text := text "global:" ++ day

def ipKey (day ip : Text) : Text := text "ip:" ++ (day ++ ':' :: ip)

def count (storage : Storage) (key : Text) : ℕ := (storage key).getD 0

def put (storage : Storage) (key : Text) (value : ℕ) : Storage :=
  Function.update storage key (some value)

def fetch (limits : Limits) (storage : Storage) (request : ConsumeRequest) :
    Storage × ConsumeResponse :=
  if request.method ≠ .post then (storage, ⟨405, some (text "method"), none⟩)
  else
    let day := day request.now
    let globalKey := globalKey day
    let ipKey := ipKey day (ip request)
    let globalCount := count storage globalKey
    let ipCount := count storage ipKey
    if canConsume ipCount globalCount limits.perIp limits.global then
      (put (put storage globalKey (Binary64.round (globalCount + 1))) ipKey
        (Binary64.round (ipCount + 1)), ⟨200, none, some true⟩)
    else (storage, ⟨429, none, some false⟩)

/-- The storage, and every request with its answer. -/
structure Limiter where
  storage : Storage
  answered : List (ConsumeRequest × ConsumeResponse)

def serve (limits : Limits) (limiter : Limiter) (request : ConsumeRequest) : Limiter :=
  ⟨(fetch limits limiter.storage request).1,
    limiter.answered ++ [(request, (fetch limits limiter.storage request).2)]⟩

def after (limits : Limits) (requests : List ConsumeRequest) : Limiter :=
  requests.foldl (serve limits) ⟨fun _ => none, []⟩

/-- The UTC day of a time, counted from 1970-01-01. -/
def utcDay (now : ℕ) : ℕ := now / 86400000

/-- How many of the answers allow a request that meets a condition. -/
def allowed (answered : List (ConsumeRequest × ConsumeResponse)) (p : ConsumeRequest → Bool) : ℕ :=
  answered.countP fun entry => entry.2.allowed = some true ∧ p entry.1

/-- The requests of a day, and those of a day from one address. -/
def onDay (d : ℕ) (request : ConsumeRequest) : Bool := utcDay request.now = d

def onDayFrom (d : ℕ) (address : Text) (request : ConsumeRequest) : Bool :=
  utcDay request.now = d ∧ ip request = address

/-- On no day are more requests allowed than the limits say. -/
def WithinLimits (limits : Limits) (limiter : Limiter) : Prop :=
  ∀ d, allowed limiter.answered (onDay d) ≤ limits.global ∧
    ∀ address, allowed limiter.answered (onDayFrom d address) ≤ limits.perIp

def dayText (d : ℕ) : Text := (isoDate (dateOf d)).take 10

/-- The counters of the days that meet a condition are the numbers of requests allowed on them,
and no two of these days or addresses share one. -/
def Counted (limiter : Limiter) (days : ℕ → Prop) : Prop :=
  (∀ d, days d → count limiter.storage (globalKey (dayText d)) =
      allowed limiter.answered (onDay d) ∧
    ∀ address, count limiter.storage (ipKey (dayText d) address) =
      allowed limiter.answered (onDayFrom d address)) ∧
  ∀ d e, days d → days e →
    (globalKey (dayText d) = globalKey (dayText e) → d = e) ∧
    ∀ address other,
      globalKey (dayText d) ≠ ipKey (dayText e) address ∧
      (ipKey (dayText d) address = ipKey (dayText e) other → d = e ∧ address = other)

/-- On the days that meet a condition, a refusal follows as many allowed requests of its day as
one of the limits permits. -/
def RefusedAtLimit (limits : Limits) (limiter : Limiter) (days : ℕ → Prop) : Prop :=
  ∀ earlier request response later,
    limiter.answered = earlier ++ (request, response) :: later → response.status = 429 →
      days (utcDay request.now) →
        limits.perIp ≤ allowed earlier (onDayFrom (utcDay request.now) (ip request)) ∨
          limits.global ≤ allowed earlier (onDay (utcDay request.now))

def AlwaysCounts : Prop :=
  ∀ limits requests, WithinLimits limits (after limits requests) ∧
    Counted (after limits requests) (fun _ => True) ∧
    RefusedAtLimit limits (after limits requests) (fun _ => True)

def lateRequests : List ConsumeRequest :=
  [⟨.post, 253402300800000, none⟩, ⟨.post, 253402387200000, none⟩]

def usualLimits : Limits := ⟨10, 90, by decide, by decide⟩

theorem count_lateRequests :
    count (after usualLimits lateRequests).storage (globalKey (dayText 2932897)) = 2 ∧
      allowed (after usualLimits lateRequests).answered (onDay 2932897) = 1 := by
  decide +kernel

/-- From the year 10000 on, the ten characters of a key no longer hold the day, and the days of a
month share their counters. -/
theorem not_alwaysCounts : ¬AlwaysCounts := by
  intro h
  have hcount := ((h usualLimits lateRequests).2.1.1 2932897 trivial).1
  rw [count_lateRequests.1, count_lateRequests.2] at hcount
  cases hcount

theorem day_eq (now : ℕ) : day now = dayText (utcDay now) := take_toISOString now

theorem length_dayText (d : ℕ) : (dayText d).length = 10 :=
  List.length_take_of_le (le_length_isoDate _)

theorem globalKey_injective {d e : Text} (h : globalKey d = globalKey e) : d = e :=
  List.append_cancel_left h

theorem globalKey_ne_ipKey (d e address : Text) : globalKey d ≠ ipKey e address := by
  intro h
  simp [globalKey, ipKey, text] at h

theorem ipKey_injective {d e address other : Text} (hlength : d.length = e.length)
    (h : ipKey d address = ipKey e other) : d = e ∧ address = other := by
  obtain ⟨hday, hrest⟩ := List.append_inj (List.append_cancel_left h) hlength
  exact ⟨hday, (List.cons.inj hrest).2⟩

theorem length_day (now : ℕ) : (day now).length = 10 := by
  rw [day_eq, length_dayText]

theorem count_put (storage : Storage) (key other : Text) (value : ℕ) :
    count (put storage key value) other = if other = key then value else count storage other := by
  by_cases h : other = key
  · simp [count, put, h]
  · simp [count, put, h]

/-- What a request does: nothing to the counters unless it is allowed, which it is below both
limits; it then adds one to each of its two counters. -/
theorem fetch_cases (limits : Limits) (storage : Storage) (request : ConsumeRequest) :
    (∃ response, fetch limits storage request = (storage, response) ∧
      response.allowed ≠ some true ∧
      (response.status = 429 →
        limits.perIp ≤ count storage (ipKey (day request.now) (ip request)) ∨
          limits.global ≤ count storage (globalKey (day request.now)))) ∨
    ∃ globalCount ipCount, count storage (globalKey (day request.now)) = globalCount ∧
      count storage (ipKey (day request.now) (ip request)) = ipCount ∧
      globalCount < limits.global ∧ ipCount < limits.perIp ∧
      fetch limits storage request =
        (put (put storage (globalKey (day request.now)) (globalCount + 1))
          (ipKey (day request.now) (ip request)) (ipCount + 1), ⟨200, none, some true⟩) := by
  by_cases hmethod : request.method ≠ .post
  · exact .inl ⟨_, if_pos hmethod, by simp, by simp⟩
  · rw [fetch, if_neg hmethod]
    have hperIp := limits.perIp_safe
    have hglobal := limits.global_safe
    by_cases hcan : canConsume (count storage (ipKey (day request.now) (ip request)))
        (count storage (globalKey (day request.now))) limits.perIp limits.global
    · have hlt := hcan
      simp only [canConsume, decide_eq_true_eq] at hlt
      refine .inr ⟨_, _, rfl, rfl, hlt.2, hlt.1, ?_⟩
      simp only [if_pos hcan]
      rw [Binary64.round_of_le (by omega), Binary64.round_of_le (by omega)]
    · refine .inl ⟨_, by simp only [if_neg hcan]; rfl, by simp, fun _ => ?_⟩
      simp only [canConsume, decide_eq_true_eq] at hcan
      omega

theorem allowed_append_denied {request : ConsumeRequest} {response : ConsumeResponse}
    (h : response.allowed ≠ some true) (answered : List (ConsumeRequest × ConsumeResponse))
    (p : ConsumeRequest → Bool) :
    allowed (answered ++ [(request, response)]) p = allowed answered p := by
  simp [allowed, List.countP_append, h]

theorem allowed_append_allowed (answered : List (ConsumeRequest × ConsumeResponse))
    (request : ConsumeRequest) (p : ConsumeRequest → Bool) :
    allowed (answered ++ [(request, ⟨200, none, some true⟩)]) p =
      allowed answered p + if p request then 1 else 0 := by
  simp [allowed, List.countP_append, List.countP_singleton]

theorem allowed_append_le {answered : List (ConsumeRequest × ConsumeResponse)}
    {request : ConsumeRequest} {p : ConsumeRequest → Bool} {n : ℕ} (h : allowed answered p ≤ n)
    (hlt : p request = true → allowed answered p < n) :
    allowed (answered ++ [(request, ⟨200, none, some true⟩)]) p ≤ n := by
  rw [allowed_append_allowed]
  split_ifs with hp
  · exact hlt hp
  · exact h

/-- The requests whose keys carry a day text, and those that also carry an address. -/
def onText (d : Text) (request : ConsumeRequest) : Bool := day request.now = d

def onTextFrom (d address : Text) (request : ConsumeRequest) : Bool :=
  day request.now = d ∧ ip request = address

/-- A refusal came at the limit, day text by day text. -/
def RefusedAtCount (limits : Limits) (answered : List (ConsumeRequest × ConsumeResponse)) : Prop :=
  ∀ earlier request response later,
    answered = earlier ++ (request, response) :: later → response.status = 429 →
      limits.perIp ≤ allowed earlier (onTextFrom (day request.now) (ip request)) ∨
        limits.global ≤ allowed earlier (onText (day request.now))

/-- What the counters and the answers have to do with each other, day text by day text. -/
structure Tallied (limits : Limits) (limiter : Limiter) : Prop where
  global : ∀ d, count limiter.storage (globalKey d) = allowed limiter.answered (onText d)
  perIp : ∀ d address, d.length = 10 →
    count limiter.storage (ipKey d address) = allowed limiter.answered (onTextFrom d address)
  global_le : ∀ d, allowed limiter.answered (onText d) ≤ limits.global
  perIp_le : ∀ d address, allowed limiter.answered (onTextFrom d address) ≤ limits.perIp
  refused : RefusedAtCount limits limiter.answered

theorem refusedAtCount_append {limits : Limits}
    {answered : List (ConsumeRequest × ConsumeResponse)} {request : ConsumeRequest}
    {response : ConsumeResponse} (h : RefusedAtCount limits answered)
    (hlimit : response.status = 429 →
      limits.perIp ≤ allowed answered (onTextFrom (day request.now) (ip request)) ∨
        limits.global ≤ allowed answered (onText (day request.now))) :
    RefusedAtCount limits (answered ++ [(request, response)]) := by
  intro earlier r s later hsplit hstatus
  rcases Algorithms.append_singleton_eq hsplit with ⟨-, rfl, hlast⟩ | ⟨rest, -, hrest⟩
  · cases hlast
    exact hlimit hstatus
  · exact h earlier r s rest hrest hstatus

theorem tallied_denied {limits : Limits} {storage : Storage}
    {answered : List (ConsumeRequest × ConsumeResponse)} {request : ConsumeRequest}
    {response : ConsumeResponse} (h : Tallied limits ⟨storage, answered⟩)
    (hdenied : response.allowed ≠ some true)
    (hlimit : response.status = 429 →
      limits.perIp ≤ count storage (ipKey (day request.now) (ip request)) ∨
        limits.global ≤ count storage (globalKey (day request.now))) :
    Tallied limits ⟨storage, answered ++ [(request, response)]⟩ where
  global d := by
    rw [allowed_append_denied hdenied]
    exact h.global d
  perIp d address hlength := by
    rw [allowed_append_denied hdenied]
    exact h.perIp d address hlength
  global_le d := by
    rw [allowed_append_denied hdenied]
    exact h.global_le d
  perIp_le d address := by
    rw [allowed_append_denied hdenied]
    exact h.perIp_le d address
  refused := by
    apply refusedAtCount_append h.refused
    intro hstatus
    have hcounts := hlimit hstatus
    rwa [h.perIp _ _ (length_day _), h.global] at hcounts

theorem tallied_allowed {limits : Limits} {storage : Storage}
    {answered : List (ConsumeRequest × ConsumeResponse)} {request : ConsumeRequest}
    (h : Tallied limits ⟨storage, answered⟩)
    (hglobal : count storage (globalKey (day request.now)) < limits.global)
    (hperIp : count storage (ipKey (day request.now) (ip request)) < limits.perIp) :
    Tallied limits
      ⟨put (put storage (globalKey (day request.now))
          (count storage (globalKey (day request.now)) + 1))
        (ipKey (day request.now) (ip request))
        (count storage (ipKey (day request.now) (ip request)) + 1),
      answered ++ [(request, ⟨200, none, some true⟩)]⟩ := by
  rw [h.global] at hglobal ⊢
  rw [h.perIp _ _ (length_day _)] at hperIp ⊢
  constructor
  · intro d
    rw [allowed_append_allowed, count_put, if_neg (globalKey_ne_ipKey _ _ _), count_put]
    by_cases hd : day request.now = d
    · subst hd
      simp [onText]
    · have hkey : globalKey d ≠ globalKey (day request.now) := fun hk =>
        hd (globalKey_injective hk).symm
      rw [if_neg hkey, h.global, if_neg (by simpa [onText] using hd), Nat.add_zero]
  · intro d address hlength
    rw [allowed_append_allowed, count_put]
    by_cases hd : day request.now = d ∧ ip request = address
    · obtain ⟨rfl, rfl⟩ := hd
      simp [onTextFrom]
    · have hkey : ipKey d address ≠ ipKey (day request.now) (ip request) := by
        intro hk
        obtain ⟨hday, hip⟩ := ipKey_injective (hlength.trans (length_day _).symm) hk
        exact hd ⟨hday.symm, hip.symm⟩
      rw [if_neg hkey, count_put, if_neg (globalKey_ne_ipKey _ _ _).symm, h.perIp _ _ hlength,
        if_neg (by simpa [onTextFrom] using hd), Nat.add_zero]
  · intro d
    apply allowed_append_le (h.global_le d)
    intro hd
    obtain rfl : day request.now = d := by simpa [onText] using hd
    exact hglobal
  · intro d address
    apply allowed_append_le (h.perIp_le d address)
    intro hd
    obtain ⟨rfl, rfl⟩ : day request.now = d ∧ ip request = address := by
      simpa [onTextFrom] using hd
    exact hperIp
  · exact refusedAtCount_append h.refused (by simp)

theorem tallied_serve {limits : Limits} {limiter : Limiter} (h : Tallied limits limiter)
    (request : ConsumeRequest) : Tallied limits (serve limits limiter request) := by
  rcases fetch_cases limits limiter.storage request with
    ⟨response, hfetch, hdenied, hlimit⟩ | ⟨_, _, rfl, rfl, hglobal, hperIp, hfetch⟩
  · rw [serve, hfetch]
    exact tallied_denied h hdenied hlimit
  · rw [serve, hfetch]
    exact tallied_allowed h hglobal hperIp

theorem tallied_after (limits : Limits) (requests : List ConsumeRequest) :
    Tallied limits (after limits requests) := by
  induction requests using List.reverseRecOn with
  | nil =>
    refine ⟨fun d => rfl, fun d address _ => rfl, fun d => Nat.zero_le _,
      fun d address => Nat.zero_le _, ?_⟩
    intro earlier request response later h
    exact absurd h.symm (by simp [after])
  | append_singleton requests request ih =>
    rw [after, List.foldl_append]
    exact tallied_serve ih request

/-- A day of a year that is written with four digits. -/
def FourDigitYear (d : ℕ) : Prop := (dateOf d).year ≤ 9999

theorem dayText_eq_iff {d e : ℕ} (h : FourDigitYear d) : dayText e = dayText d ↔ e = d := by
  constructor
  · intro heq
    exact (eq_of_take_isoDate h heq.symm).symm
  · rintro rfl
    rfl

theorem onText_dayText {d : ℕ} (h : FourDigitYear d) : onText (dayText d) = onDay d := by
  funext request
  simp [onText, onDay, day_eq, dayText_eq_iff h]

theorem onTextFrom_dayText {d : ℕ} (h : FourDigitYear d) (address : Text) :
    onTextFrom (dayText d) address = onDayFrom d address := by
  funext request
  simp [onTextFrom, onDayFrom, day_eq, dayText_eq_iff h]

theorem allowed_le {p q : ConsumeRequest → Bool} (h : ∀ request, p request → q request)
    (answered : List (ConsumeRequest × ConsumeResponse)) : allowed answered p ≤ allowed answered q := by
  apply List.countP_mono_left
  intro entry _ hentry
  simp only [decide_eq_true_eq] at hentry ⊢
  exact ⟨hentry.1, h entry.1 hentry.2⟩

theorem withinLimits_of_tallied {limits : Limits} {limiter : Limiter}
    (h : Tallied limits limiter) : WithinLimits limits limiter := by
  intro d
  constructor
  · refine (allowed_le (fun request hday => ?_) _).trans (h.global_le (dayText d))
    simp only [onDay, decide_eq_true_eq] at hday
    simp [onText, day_eq, hday]
  · intro address
    refine (allowed_le (fun request hday => ?_) _).trans (h.perIp_le (dayText d) address)
    simp only [onDayFrom, decide_eq_true_eq] at hday
    simp [onTextFrom, day_eq, hday.1, hday.2]

theorem counted_of_tallied {limits : Limits} {limiter : Limiter} (h : Tallied limits limiter) :
    Counted limiter FourDigitYear := by
  constructor
  · intro d hd
    constructor
    · rw [h.global, onText_dayText hd]
    · intro address
      rw [h.perIp _ _ (length_dayText d), onTextFrom_dayText hd]
  · intro d e _ he
    constructor
    · intro hkey
      exact (dayText_eq_iff he).mp (globalKey_injective hkey)
    · intro address other
      refine ⟨globalKey_ne_ipKey _ _ _, fun hkey => ?_⟩
      obtain ⟨hday, hip⟩ :=
        ipKey_injective ((length_dayText d).trans (length_dayText e).symm) hkey
      exact ⟨(dayText_eq_iff he).mp hday, hip⟩

theorem refusedAtLimit_of_tallied {limits : Limits} {limiter : Limiter}
    (h : Tallied limits limiter) : RefusedAtLimit limits limiter FourDigitYear := by
  intro earlier request response later hsplit hstatus hday
  have hcount := h.refused earlier request response later hsplit hstatus
  rwa [day_eq, onText_dayText hday, onTextFrom_dayText hday] at hcount

/-- After any requests at any times, no day has more allowed requests than the limits say; for
the days of the years up to 9999, the counters are the numbers of allowed requests, no two days or
addresses share one, and a refusal came at a limit. -/
theorem counts_after (limits : Limits) (requests : List ConsumeRequest) :
    WithinLimits limits (after limits requests) ∧
      Counted (after limits requests) FourDigitYear ∧
      RefusedAtLimit limits (after limits requests) FourDigitYear :=
  ⟨withinLimits_of_tallied (tallied_after limits requests),
    counted_of_tallied (tallied_after limits requests),
    refusedAtLimit_of_tallied (tallied_after limits requests)⟩

end DailyLimiter
end GambitRecord.Broker
