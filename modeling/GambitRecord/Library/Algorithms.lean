import Mathlib.Data.List.GetD
import Mathlib.Data.List.Sort
import Mathlib.Data.List.TakeWhile
import Mathlib.Order.Interval.Set.Basic

/-! # Sorting, extrema and bounds by a comparison

`std::stable_sort`, `std::max_element` and `std::min_element` on lists, and
`std::clamp`. The results about a key ask of the comparison only what they need,
so that they also hold for a comparison that breaks ties inconsistently. At the end
are lists whose entries carry a key.
-/

namespace Library.Algorithms
variable {α κ : Type*}

/-- The stable sort by `before`: an element stays ahead of those it is not after. -/
def stableSort (before : α → α → Bool) (l : List α) : List α :=
  l.insertionSort fun a b => before b a = false

/-- The first of the elements that `less` puts last. -/
def maxElement (less : α → α → Bool) : List α → Option α
  | [] => none
  | a :: l => some (l.foldl (fun m b => if less m b then b else m) a)

def minElement (less : α → α → Bool) (l : List α) : Option α :=
  maxElement (fun a b => less b a) l

theorem perm_stableSort (before : α → α → Bool) (l : List α) :
    (stableSort before l).Perm l := List.perm_insertionSort _ _

@[simp] theorem mem_stableSort {before : α → α → Bool} {l : List α} {a : α} :
    a ∈ stableSort before l ↔ a ∈ l := (perm_stableSort before l).mem_iff

/-- What `std::stable_sort` asks of its comparison, on the elements that it sorts: none is before
itself, and those that neither of which is before the other are equivalent. -/
structure StrictWeak (before : α → α → Bool) (l : List α) : Prop where
  irrefl : ∀ a ∈ l, before a a = false
  asymm : ∀ a ∈ l, ∀ b ∈ l, before a b = true → before b a = false
  trans : ∀ a ∈ l, ∀ b ∈ l, ∀ c ∈ l, before a b = true → before b c = true → before a c = true
  incomparable : ∀ a ∈ l, ∀ b ∈ l, ∀ c ∈ l, before a b = false → before b a = false →
    before b c = false → before c b = false → before a c = false ∧ before c a = false

theorem stableSort_cons (before : α → α → Bool) (a : α) (l : List α) :
    stableSort before (a :: l) = ((stableSort before l).takeWhile fun b => before b a) ++
      a :: (stableSort before l).dropWhile fun b => before b a := by
  rw [stableSort, List.insertionSort_cons, List.orderedInsert_eq_take_drop]
  simp [stableSort]

/-- Elements of which none is before another keep their order. -/
theorem filter_stableSort {before : α → α → Bool} {p : α → Bool} {l : List α}
    (h : ∀ a ∈ l, ∀ b ∈ l, p a = true → p b = true → before a b = false) :
    (stableSort before l).filter p = l.filter p := by
  induction l with
  | nil => rfl
  | cons a l ih =>
    have hrest := ih fun x hx y hy =>
      h x (List.mem_cons_of_mem a hx) y (List.mem_cons_of_mem a hy)
    have hwhole := List.takeWhile_append_dropWhile (p := fun b => before b a)
      (l := stableSort before l)
    rw [stableSort_cons, List.filter_append]
    cases ha : p a with
    | false => rw [List.filter_cons_of_neg (by simp [ha]), List.filter_cons_of_neg (by simp [ha]),
        ← List.filter_append, hwhole, hrest]
    | true =>
      -- what is put ahead of `a` is before it, so nothing that `p` picks
      have hahead : ((stableSort before l).takeWhile fun b => before b a).filter p = [] := by
        rw [List.filter_eq_nil_iff]
        intro b hb hpb
        have hbefore := List.mem_takeWhile_imp hb
        have hmem : b ∈ l := mem_stableSort.mp ((List.takeWhile_sublist _).subset hb)
        have hnot := h b (List.mem_cons_of_mem a hmem) a (List.mem_cons_self ..) hpb ha
        rw [hbefore] at hnot
        cases hnot
      have hbehind : ((stableSort before l).dropWhile fun b => before b a).filter p =
          (stableSort before l).filter p := by
        rw [← hwhole, List.filter_append, hahead, hwhole, List.nil_append]
      rw [hahead, List.nil_append, List.filter_cons_of_pos ha, List.filter_cons_of_pos ha, hbehind,
        hrest]

/-- Lists that agree once the shorter one is filled up differ by the filling. -/
theorem getD_eq_iff {a b : List α} {z : α} (hle : a.length ≤ b.length) :
    (∀ i < b.length, a.getD i z = b.getD i z) ↔
      b = a ++ List.replicate (b.length - a.length) z := by
  constructor
  · intro hall
    apply List.ext_getElem
    · rw [List.length_append, List.length_replicate]
      omega
    · intro i hb _
      rw [List.getElem_append]
      have hi := hall i hb
      split_ifs with ha
      · rw [List.getD_eq_getElem _ _ ha, List.getD_eq_getElem _ _ hb] at hi
        exact hi.symm
      · rw [List.getD_eq_default _ _ (Nat.le_of_not_lt ha), List.getD_eq_getElem _ _ hb] at hi
        rw [List.getElem_replicate, hi]
  · intro h i hi
    rw [h]
    by_cases ha : i < a.length
    · rw [List.getD_append _ _ _ _ ha]
    · have hpast := Nat.le_of_not_lt ha
      have hfilled : i - a.length < b.length - a.length := by omega
      rw [List.getD_eq_default _ _ hpast, List.getD_append_right _ _ _ _ hpast,
        List.getD_replicate _ hfilled]

/-- An appended element is the one at a split, or lies in what follows it. -/
theorem append_singleton_eq {l before rest : List α} {a b : α} (h : l ++ [a] = before ++ b :: rest) :
    (rest = [] ∧ l = before ∧ a = b) ∨ ∃ init, rest = init ++ [a] ∧ l = before ++ b :: init := by
  rcases List.eq_nil_or_concat rest with rfl | ⟨init, c, rfl⟩
  · obtain ⟨hl, hab⟩ := List.append_inj' h rfl
    exact .inl ⟨rfl, hl, (List.cons.inj hab).1⟩
  · rw [List.concat_eq_append, ← List.cons_append, ← List.append_assoc] at h
    obtain ⟨hl, hac⟩ := List.append_inj' h rfl
    exact .inr ⟨init, by rw [List.concat_eq_append, hac], hl⟩

theorem countP_set_add {l : List α} {n : ℕ} {old : α} (hn : l[n]? = some old) (new : α)
    (p : α → Bool) :
    (l.set n new).countP p + (if p old then 1 else 0) = l.countP p + if p new then 1 else 0 := by
  obtain ⟨hlt, rfl⟩ := List.getElem?_eq_some_iff.mp hn
  have hpos : p l[n] = true → 0 < l.countP p := fun h =>
    List.countP_pos_iff.mpr ⟨l[n], List.getElem_mem hlt, h⟩
  rw [List.countP_set hlt]
  by_cases hold : p l[n] = true
  · have := hpos hold
    rw [if_pos hold]
    omega
  · rw [if_neg hold]
    omega

section Key
variable [LinearOrder κ] (key : α → κ)

variable {key} in
theorem pairwise_key_orderedInsert {r : α → α → Prop} [DecidableRel r]
    (hle : ∀ a b, r a b → key a ≤ key b) (hge : ∀ a b, ¬ r a b → key b ≤ key a)
    (a : α) {l : List α} (hl : l.Pairwise fun x y => key x ≤ key y) :
    (l.orderedInsert r a).Pairwise fun x y => key x ≤ key y := by
  induction l with
  | nil => simp
  | cons b l ih =>
    rw [List.pairwise_cons] at hl
    rw [List.orderedInsert_cons]
    by_cases hab : r a b
    · rw [if_pos hab]
      refine List.pairwise_cons.mpr ⟨fun x hx => ?_, List.pairwise_cons.mpr hl⟩
      rcases List.mem_cons.mp hx with rfl | hx
      · exact hle a x hab
      · exact (hle a b hab).trans (hl.1 x hx)
    · rw [if_neg hab]
      refine List.pairwise_cons.mpr ⟨fun x hx => ?_, ih hl.2⟩
      rcases List.mem_cons.mp ((List.perm_orderedInsert r a l).mem_iff.mp hx) with rfl | hx
      · exact hge x b hab
      · exact hl.1 x hx

variable {key} in
/-- A comparison that decides unequal keys sorts by the key, however it treats equal ones. -/
theorem pairwise_key_stableSort {before : α → α → Bool}
    (hlt : ∀ a b, key a < key b → before a b = true)
    (hle : ∀ a b, before a b = true → key a ≤ key b) (l : List α) :
    (stableSort before l).Pairwise fun x y => key x ≤ key y := by
  induction l with
  | nil => exact List.Pairwise.nil
  | cons a l ih =>
    refine pairwise_key_orderedInsert (fun x y hxy => ?_) (fun x y hxy => ?_) a ih
    · by_contra hne
      rw [hlt y x (not_le.mp hne)] at hxy
      cases hxy
    · exact hle y x (by simpa using hxy)

theorem foldl_max_split {less : α → α → Bool} (hless : ∀ a b, less a b = true ↔ key a < key b)
    (a : α) (l : List α) :
    ∃ pre post, a :: l = pre ++ l.foldl (fun m b => if less m b then b else m) a :: post ∧
      (∀ b ∈ pre, key b < key (l.foldl (fun m b => if less m b then b else m) a)) ∧
      ∀ b ∈ post, key b ≤ key (l.foldl (fun m b => if less m b then b else m) a) := by
  induction l generalizing a with
  | nil => exact ⟨[], [], rfl, by simp, by simp⟩
  | cons b l ih =>
    rw [List.foldl_cons]
    by_cases hab : less a b = true
    · rw [if_pos hab]
      obtain ⟨pre, post, hsplit, hpre, hpost⟩ := ih b
      generalize l.foldl (fun m b => if less m b then b else m) b = m at *
      refine ⟨a :: pre, post, by rw [hsplit, List.cons_append], ?_, hpost⟩
      rw [List.forall_mem_cons]
      refine ⟨((hless a b).mp hab).trans_le ?_, hpre⟩
      -- the next one is ahead of the maximum or the maximum itself
      cases pre with
      | nil => rw [(List.cons.inj hsplit).1]
      | cons c pre =>
        rw [(List.cons.inj hsplit).1]
        exact (hpre c (List.mem_cons_self ..)).le
    · rw [if_neg hab]
      have hba : key b ≤ key a := not_lt.mp fun hlt => hab ((hless a b).mpr hlt)
      obtain ⟨pre, post, hsplit, hpre, hpost⟩ := ih a
      generalize l.foldl (fun m b => if less m b then b else m) a = m at *
      cases pre with
      | nil =>
        obtain ⟨ha, hl⟩ := List.cons.inj hsplit
        refine ⟨[], b :: post, by rw [List.nil_append, ha, hl], by simp, ?_⟩
        rw [List.forall_mem_cons]
        exact ⟨by rw [← ha]; exact hba, hpost⟩
      | cons c pre =>
        obtain ⟨rfl, hl⟩ := List.cons.inj hsplit
        rw [List.forall_mem_cons] at hpre
        refine ⟨a :: b :: pre, post, by rw [hl]; rfl, ?_, hpost⟩
        rw [List.forall_mem_cons, List.forall_mem_cons]
        exact ⟨hpre.1, hba.trans_lt hpre.1, hpre.2⟩

/-- The maximum is the first of those with the greatest key. -/
theorem maxElement_split {less : α → α → Bool} (hless : ∀ a b, less a b = true ↔ key a < key b)
    {l : List α} {m : α} (h : maxElement less l = some m) :
    ∃ pre post, l = pre ++ m :: post ∧ (∀ b ∈ pre, key b < key m) ∧
      ∀ b ∈ post, key b ≤ key m := by
  cases l with
  | nil => cases h
  | cons a l =>
    simp only [maxElement, Option.some.injEq] at h
    rw [← h]
    exact foldl_max_split key hless a l

theorem maxElement_spec {less : α → α → Bool} (hless : ∀ a b, less a b = true ↔ key a < key b)
    {l : List α} {m : α} (h : maxElement less l = some m) :
    m ∈ l ∧ ∀ b ∈ l, key b ≤ key m := by
  obtain ⟨pre, post, rfl, hpre, hpost⟩ := maxElement_split key hless h
  refine ⟨by simp, ?_⟩
  intro b hb
  rw [List.mem_append, List.mem_cons] at hb
  rcases hb with hb | rfl | hb
  · exact (hpre b hb).le
  · exact le_rfl
  · exact hpost b hb

theorem minElement_spec {less : α → α → Bool} (hless : ∀ a b, less a b = true ↔ key a < key b)
    {l : List α} {m : α} (h : minElement less l = some m) :
    m ∈ l ∧ ∀ b ∈ l, key m ≤ key b :=
  @maxElement_spec α κᵒᵈ _ key _ (fun a b => hless b a) l m h

end Key

theorem maxElement_isSome (less : α → α → Bool) {l : List α} (h : l ≠ []) :
    ∃ m, maxElement less l = some m := by
  cases l with
  | nil => exact absurd rfl h
  | cons a l => exact ⟨_, rfl⟩

section Clamp
variable {K : Type*} [LinearOrder K] {v lo hi : K}

/-- `std::clamp`. -/
def clamp (v lo hi : K) : K := if v < lo then lo else if hi < v then hi else v

theorem clamp_mem (h : lo ≤ hi) : clamp v lo hi ∈ Set.Icc lo hi := by
  rw [clamp]
  split_ifs with hlow hhigh
  · exact ⟨le_rfl, h⟩
  · exact ⟨h, le_rfl⟩
  · exact ⟨not_lt.mp hlow, not_lt.mp hhigh⟩

theorem clamp_of_mem (h : v ∈ Set.Icc lo hi) : clamp v lo hi = v := by
  rw [clamp, if_neg (not_lt.mpr h.1), if_neg (not_lt.mpr h.2)]

theorem clamp_self (v lo : K) : clamp v lo lo = lo := by
  obtain ⟨hlow, hhigh⟩ := @clamp_mem _ _ v _ _ (le_refl lo)
  exact le_antisymm hhigh hlow

end Clamp

section Entries
variable [DecidableEq κ]

def valuesAt (key : κ) (entries : List (κ × α)) : List α :=
  (entries.filter fun entry => entry.1 = key).map Prod.snd

theorem valuesAt_append (key : κ) (entries more : List (κ × α)) :
    valuesAt key (entries ++ more) = valuesAt key entries ++ valuesAt key more := by
  rw [valuesAt, List.filter_append, List.map_append]
  rfl

theorem valuesAt_singleton (key other : κ) (value : α) :
    valuesAt key [(other, value)] = if other = key then [value] else [] := by
  by_cases h : other = key
  · simp [valuesAt, h]
  · simp [valuesAt, h]

/-- The values by their keys are all values. -/
theorem perm_flatMap_valuesAt {keys : List κ} (hkeys : keys.Nodup) {entries : List (κ × α)}
    (h : ∀ entry ∈ entries, entry.1 ∈ keys) :
    (keys.flatMap fun key => valuesAt key entries).Perm (entries.map Prod.snd) := by
  induction keys generalizing entries with
  | nil =>
    have hnone : entries = [] := List.eq_nil_iff_forall_not_mem.mpr fun entry hentry =>
      List.not_mem_nil (h entry hentry)
    simp [hnone]
  | cons key keys ih =>
    obtain ⟨hkey, hkeys⟩ := List.nodup_cons.mp hkeys
    let others := entries.filter fun entry => !decide (entry.1 = key)
    have hothers : ∀ entry ∈ others, entry.1 ∈ keys := by
      intro entry hentry
      obtain ⟨hmem, hother⟩ := List.mem_filter.mp hentry
      exact (List.mem_cons.mp (h entry hmem)).resolve_left (by simpa using hother)
    have hsame : (keys.flatMap fun other => valuesAt other entries) =
        keys.flatMap fun other => valuesAt other others := by
      apply List.flatMap_congr
      intro other hother
      have hne : other ≠ key := ne_of_mem_of_not_mem hother hkey
      rw [valuesAt, valuesAt, List.filter_filter]
      congr 2
      funext entry
      by_cases hentry : entry.1 = other
      · simp [hentry, hne]
      · simp [hentry]
    have hparts : (valuesAt key entries ++ others.map Prod.snd).Perm (entries.map Prod.snd) := by
      rw [valuesAt, ← List.map_append]
      exact (List.filter_append_perm _ entries).map Prod.snd
    rw [List.flatMap_cons, hsame]
    exact ((ih hkeys hothers).append_left _).trans hparts

theorem perm_valuesAt {keys : List κ} (hkeys : keys.Nodup) {entries : List (κ × α)}
    (h : ∀ entry ∈ entries, entry.1 ∈ keys) :
    (entries.map Prod.snd).Perm
      (keys.foldl (fun values key => values ++ valuesAt key entries) []) := by
  rw [← List.flatMap_eq_foldl]
  exact (perm_flatMap_valuesAt hkeys h).symm

end Entries

end Library.Algorithms
