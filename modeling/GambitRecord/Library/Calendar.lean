import GambitRecord.Library.DigitText
import Mathlib.Algebra.Order.Group.Nat
import Mathlib.Tactic.SplitIfs

/-! # Civil dates

The Gregorian date of a day counted from 1970-01-01, found as the language
standard of JavaScript finds it: the year from the day number of its first day,
the month by walking the month lengths. A day is recovered from its date, so no
two days have the same one.
-/

namespace Library.Calendar
open DigitText

/-- The day on which the year `1970 + k` starts. -/
def dayFromYear (k : ℕ) : ℕ := 365 * k + (k + 1) / 4 - (k + 69) / 100 + (k + 369) / 400

/-- The years from 1970 to the one a day lies in: the mean year is off by at most one. -/
def yearFromDay (day : ℕ) : ℕ :=
  if dayFromYear (400 * day / 146097 + 1) ≤ day then 400 * day / 146097 + 1
  else if dayFromYear (400 * day / 146097) ≤ day then 400 * day / 146097
  else 400 * day / 146097 - 1

def isLeap (year : ℕ) : Bool := year % 4 = 0 ∧ (year % 100 ≠ 0 ∨ year % 400 = 0)

def monthLengths (year : ℕ) : List ℕ :=
  [31, if isLeap year then 29 else 28, 31, 30, 31, 30, 31, 31, 30, 31, 30, 31]

/-- The spans passed before a day, and the days left in the span it lies in. -/
def splitSpans : List ℕ → ℕ → ℕ × ℕ
  | [], day => (0, day)
  | n :: ns, day =>
    if day < n then (0, day) else ((splitSpans ns (day - n)).1 + 1, (splitSpans ns (day - n)).2)

structure Date where
  year : ℕ
  month : ℕ
  day : ℕ
  deriving DecidableEq

def dateOf (day : ℕ) : Date :=
  let k := yearFromDay day
  let spans := splitSpans (monthLengths (1970 + k)) (day - dayFromYear k)
  ⟨1970 + k, spans.1 + 1, spans.2 + 1⟩

def dayOf (date : Date) : ℕ :=
  dayFromYear (date.year - 1970) +
    ((monthLengths date.year).take (date.month - 1)).sum + (date.day - 1)

theorem dayFromYear_yearFromDay_le (day : ℕ) : dayFromYear (yearFromDay day) ≤ day := by
  unfold yearFromDay
  split_ifs with hnext hsame
  · exact hnext
  · exact hsame
  · unfold dayFromYear at *
    omega

theorem lt_dayFromYear_succ (day : ℕ) : day < dayFromYear (yearFromDay day + 1) := by
  unfold yearFromDay
  split_ifs with hnext hsame
  · unfold dayFromYear at *
    omega
  · omega
  · have hpos : 0 < 400 * day / 146097 := by
      rcases Nat.eq_zero_or_pos (400 * day / 146097) with h | h
      · rw [h] at hsame
        simp [dayFromYear] at hsame
      · exact h
    rw [Nat.sub_add_cancel hpos]
    omega

theorem sum_monthLengths (year : ℕ) :
    (monthLengths year).sum = if isLeap year then 366 else 365 := by
  cases h : isLeap year <;> simp [monthLengths, h]

theorem dayFromYear_succ (k : ℕ) :
    dayFromYear (k + 1) = dayFromYear k + (monthLengths (1970 + k)).sum := by
  have hfour : (k + 1 + 1) / 4 = (k + 1) / 4 + if (1970 + k) % 4 = 0 then 1 else 0 := by
    split_ifs <;> omega
  have hcentury : (k + 1 + 69) / 100 = (k + 69) / 100 + if (1970 + k) % 100 = 0 then 1 else 0 := by
    split_ifs <;> omega
  have hfourth : (k + 1 + 369) / 400 = (k + 369) / 400 + if (1970 + k) % 400 = 0 then 1 else 0 := by
    split_ifs <;> omega
  have hle : (k + 69) / 100 ≤ 365 * k := by
    rcases Nat.eq_zero_or_pos k with rfl | hk
    · decide
    · omega
  rw [sum_monthLengths, dayFromYear, dayFromYear, hfour, hcentury, hfourth]
  by_cases h4 : (1970 + k) % 4 = 0 <;> by_cases h100 : (1970 + k) % 100 = 0 <;>
    by_cases h400 : (1970 + k) % 400 = 0 <;> simp [isLeap, h4, h100, h400] <;> omega

theorem sum_take_splitSpans (ns : List ℕ) (day : ℕ) :
    (ns.take (splitSpans ns day).1).sum + (splitSpans ns day).2 = day := by
  induction ns generalizing day with
  | nil => simp [splitSpans]
  | cons n ns ih =>
    by_cases h : day < n
    · simp [splitSpans, h]
    · have := ih (day - n)
      simp only [splitSpans, if_neg h, List.take_succ_cons, List.sum_cons]
      omega

/-- A day inside the spans falls into one of them, and into none past its length. -/
theorem splitSpans_lt {ns : List ℕ} {day bound : ℕ} (h : day < ns.sum)
    (hbound : ∀ n ∈ ns, n ≤ bound) :
    (splitSpans ns day).1 < ns.length ∧ (splitSpans ns day).2 < bound := by
  induction ns generalizing day with
  | nil => simp at h
  | cons n ns ih =>
    have hn := hbound n (List.mem_cons_self ..)
    by_cases hday : day < n
    · simp only [splitSpans, if_pos hday, List.length_cons]
      omega
    · rw [List.sum_cons] at h
      obtain ⟨hindex, hleft⟩ := @ih (day - n) (by omega) fun m hm =>
        hbound m (List.mem_cons_of_mem _ hm)
      simp only [splitSpans, if_neg hday, List.length_cons]
      omega

theorem dayOf_dateOf (day : ℕ) : dayOf (dateOf day) = day := by
  have hsum := sum_take_splitSpans (monthLengths (1970 + yearFromDay day))
    (day - dayFromYear (yearFromDay day))
  have hle := dayFromYear_yearFromDay_le day
  simp only [dayOf, dateOf, Nat.add_sub_cancel, Nat.add_sub_cancel_left]
  omega

theorem dateOf_injective {a b : ℕ} (h : dateOf a = dateOf b) : a = b := by
  rw [← dayOf_dateOf a, h, dayOf_dateOf]

theorem dateOf_bounds (day : ℕ) : (dateOf day).month ≤ 12 ∧ (dateOf day).day ≤ 31 := by
  have hlt := lt_dayFromYear_succ day
  have hle := dayFromYear_yearFromDay_le day
  rw [dayFromYear_succ] at hlt
  have hmonths : ∀ n ∈ monthLengths (1970 + yearFromDay day), n ≤ 31 := by
    cases h : isLeap (1970 + yearFromDay day) <;> simp [monthLengths, h]
  have hspans := @splitSpans_lt _ (day - dayFromYear (yearFromDay day)) 31 (by omega) hmonths
  exact hspans

/-- `YYYY-MM-DD`, with a sign and two more digits for a year past 9999. -/
def isoDate (date : Date) : Text :=
  (if date.year ≤ 9999 then padded 4 date.year else '+' :: padded 6 date.year) ++
    '-' :: (padded 2 date.month ++ '-' :: padded 2 date.day)

/-- `Date.prototype.toISOString` of a time in milliseconds from 1970 on. -/
def toISOString (time : ℕ) : Text :=
  isoDate (dateOf (time / 86400000)) ++
    'T' :: (padded 2 (time / 3600000 % 24) ++ ':' :: (padded 2 (time / 60000 % 60) ++
      ':' :: (padded 2 (time / 1000 % 60) ++ '.' :: (padded 3 (time % 1000) ++ ['Z']))))

theorem le_length_isoDate (date : Date) : 10 ≤ (isoDate date).length := by
  have hmonth := le_length_padded 2 date.month
  have hday := le_length_padded 2 date.day
  rw [isoDate, List.length_append, List.length_cons, List.length_append, List.length_cons]
  split_ifs
  · have hyear := le_length_padded 4 date.year
    omega
  · have hyear := le_length_padded 6 date.year
    rw [List.length_cons]
    omega

theorem length_isoDate {date : Date} (h : date.year ≤ 9999 ∧ date.month ≤ 12 ∧ date.day ≤ 31) :
    (isoDate date).length = 10 := by
  rw [isoDate, if_pos h.1, List.length_append, List.length_cons, List.length_append,
    List.length_cons, length_padded (by omega) (by omega), length_padded (by omega) (by omega),
    length_padded (by omega) (by omega)]

theorem take_toISOString (time : ℕ) :
    (toISOString time).take 10 = (isoDate (dateOf (time / 86400000))).take 10 := by
  rw [toISOString, List.take_append_of_le_length (le_length_isoDate _)]

/-- Up to the year 9999, a date is recovered from its text. -/
theorem isoDate_injective {a b : Date} (ha : a.year ≤ 9999 ∧ a.month ≤ 12 ∧ a.day ≤ 31)
    (hb : b.year ≤ 9999 ∧ b.month ≤ 12 ∧ b.day ≤ 31) (h : isoDate a = isoDate b) : a = b := by
  simp only [isoDate, if_pos ha.1, if_pos hb.1] at h
  have hyear : (padded 4 a.year).length = (padded 4 b.year).length := by
    rw [length_padded (by omega) (by omega), length_padded (by omega) (by omega)]
  have hmonth : (padded 2 a.month).length = (padded 2 b.month).length := by
    rw [length_padded (by omega) (by omega), length_padded (by omega) (by omega)]
  obtain ⟨hy, h⟩ := List.append_inj h hyear
  obtain ⟨hm, h⟩ := List.append_inj (List.cons.inj h).2 hmonth
  have hd := (List.cons.inj h).2
  cases a
  cases b
  simpa using ⟨padded_injective hy, padded_injective hm, padded_injective hd⟩

/-- A year past 9999 has a sign where the others have a digit. -/
theorem head_isoDate_of_le {date : Date} (h : date.year ≤ 9999) :
    ∀ c ∈ (isoDate date).head?, c.isDigit := by
  intro c hc
  cases hyear : padded 4 date.year with
  | nil =>
    have := le_length_padded 4 date.year
    simp [hyear] at this
  | cons digit digits =>
    rw [isoDate, if_pos h, hyear, List.cons_append, List.head?_cons] at hc
    cases hc
    have hmem : c ∈ padded 4 date.year := by rw [hyear]; exact List.mem_cons_self ..
    exact isDigit_of_mem_padded hmem

/-- No other day has the first ten characters of a day up to the year 9999. -/
theorem eq_of_take_isoDate {d e : ℕ} (hd : (dateOf d).year ≤ 9999)
    (h : (isoDate (dateOf d)).take 10 = (isoDate (dateOf e)).take 10) : d = e := by
  by_cases he : (dateOf e).year ≤ 9999
  · have hbounds := dateOf_bounds d
    have hbounds' := dateOf_bounds e
    have hlength := length_isoDate ⟨hd, hbounds⟩
    have hlength' := length_isoDate ⟨he, hbounds'⟩
    rw [List.take_of_length_le hlength.le, List.take_of_length_le hlength'.le] at h
    exact dateOf_injective (isoDate_injective ⟨hd, hbounds⟩ ⟨he, hbounds'⟩ h)
  · have hhead := congrArg List.head? h
    rw [List.head?_take, List.head?_take, if_neg (by decide), if_neg (by decide)] at hhead
    have hsign : (isoDate (dateOf e)).head? = some '+' := by
      rw [isoDate, if_neg he]
      rfl
    have hdigit := head_isoDate_of_le hd '+' (by rw [hhead, hsign]; rfl)
    simp at hdigit

end Library.Calendar
