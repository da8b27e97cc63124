import Mathlib.Data.Option.Basic
import Mathlib.Order.Basic

/-! # Finite runs of a machine that takes inputs

A machine refuses an input by returning `none`. Invariants, monotone relations
and conditions on every step of a run are carried from one step to whole runs
here, once.
-/

namespace Library.Runs

/-- An initial state and a step that may refuse its input. -/
structure Machine (σ ε : Type*) where
  init : σ
  step : σ → ε → Option σ

namespace Machine
variable {σ ε : Type*} (M : Machine σ ε)

/-- The state after a list of inputs, when none of them is refused. -/
def runFrom : σ → List ε → Option σ
  | s, [] => some s
  | s, e :: es => (M.step s e).bind fun t => runFrom t es

abbrev run (es : List ε) : Option σ := M.runFrom M.init es

/-- Every step of the run from `s` starts in a state that meets `C` with its input. -/
def Along (C : σ → ε → Prop) : σ → List ε → Prop
  | _, [] => True
  | s, e :: es => C s e ∧ ∀ t ∈ M.step s e, Along C t es

instance decidableAlong (C : σ → ε → Prop) [∀ s e, Decidable (C s e)] :
    ∀ s es, Decidable (M.Along C s es)
  | _, [] => instDecidableTrue
  | s, e :: es =>
    have : DecidablePred fun t => M.Along C t es := fun t => decidableAlong C t es
    inferInstanceAs (Decidable (C s e ∧ ∀ t ∈ M.step s e, M.Along C t es))

@[simp] theorem runFrom_nil (s : σ) : M.runFrom s [] = some s := rfl

theorem runFrom_cons {s t : σ} {e : ε} {es : List ε} :
    M.runFrom s (e :: es) = some t ↔ ∃ m, M.step s e = some m ∧ M.runFrom m es = some t := by
  simp [runFrom, Option.bind_eq_some_iff]

theorem runFrom_append (s : σ) (es fs : List ε) :
    M.runFrom s (es ++ fs) = (M.runFrom s es).bind fun t => M.runFrom t fs := by
  induction es generalizing s with
  | nil => rfl
  | cons e es ih =>
    cases h : M.step s e with
    | none => simp [runFrom, h]
    | some m => simp [runFrom, h, ih]

theorem along_cons {C : σ → ε → Prop} {s : σ} {e : ε} {es : List ε} :
    M.Along C s (e :: es) ↔ C s e ∧ ∀ t, M.step s e = some t → M.Along C t es := Iff.rfl

variable {M}

theorem Along.and {C D : σ → ε → Prop} {s : σ} {es : List ε}
    (hC : M.Along C s es) (hD : M.Along D s es) : M.Along (fun s e => C s e ∧ D s e) s es := by
  induction es generalizing s with
  | nil => trivial
  | cons e es ih =>
    rw [along_cons] at hC hD ⊢
    exact ⟨⟨hC.1, hD.1⟩, fun t ht => ih (hC.2 t ht) (hD.2 t ht)⟩

/-- A condition on inputs alone holds along a run when it holds of each input. -/
theorem along_of_forall {C : ε → Prop} {s : σ} {es : List ε} (h : ∀ e ∈ es, C e) :
    M.Along (fun _ e => C e) s es := by
  induction es generalizing s with
  | nil => trivial
  | cons e es ih =>
    rw [along_cons]
    exact ⟨h e (List.mem_cons_self ..), fun t _ => ih fun f hf => h f (List.mem_cons_of_mem _ hf)⟩

/-- Splitting a conditioned run: the condition holds along its first part and, from the
state reached there, along its second. -/
theorem along_append {C : σ → ε → Prop} {s : σ} {es fs : List ε} (h : M.Along C s (es ++ fs)) :
    M.Along C s es ∧ ∀ m, M.runFrom s es = some m → M.Along C m fs := by
  induction es generalizing s with
  | nil => exact ⟨trivial, fun m hm => by cases hm; exact h⟩
  | cons e es ih =>
    rw [List.cons_append, along_cons] at h
    rw [along_cons]
    refine ⟨⟨h.1, fun t ht => (ih (h.2 t ht)).1⟩, fun m hm => ?_⟩
    rcases M.runFrom_cons.mp hm with ⟨t, ht, hm⟩
    exact (ih (h.2 t ht)).2 m hm

/-- The invariant rule for a run whose steps all meet a condition. -/
theorem invariant_along {C : σ → ε → Prop} {I : σ → Prop}
    (hstep : ∀ s e t, I s → C s e → M.step s e = some t → I t)
    {s t : σ} {es : List ε} (hC : M.Along C s es) (hrun : M.runFrom s es = some t) (hs : I s) :
    I t := by
  induction es generalizing s with
  | nil => cases hrun; exact hs
  | cons e es ih =>
    rw [along_cons] at hC
    rcases M.runFrom_cons.mp hrun with ⟨m, hm, hrest⟩
    exact ih (hC.2 m hm) hrest (hstep s e m hs hC.1 hm)

/-- A condition that an invariant makes of another one holds along the run. -/
theorem Along.of_invariant {C D : σ → ε → Prop} {I : σ → Prop}
    (hstep : ∀ s e t, I s → C s e → M.step s e = some t → I t)
    (hD : ∀ s e, I s → C s e → D s e) {s : σ} {es : List ε} (hC : M.Along C s es) (hs : I s) :
    M.Along D s es := by
  induction es generalizing s with
  | nil => trivial
  | cons e es ih =>
    rw [along_cons] at hC ⊢
    exact ⟨hD s e hs hC.1, fun t ht => ih (hC.2 t ht) (hstep s e t hs hC.1 ht)⟩

/-- The invariant rule for every run. -/
theorem invariant {I : σ → Prop} (hstep : ∀ s e t, I s → M.step s e = some t → I t)
    {s t : σ} {es : List ε} (hrun : M.runFrom s es = some t) (hs : I s) : I t :=
  invariant_along (fun s e t hI _ => hstep s e t hI)
    (along_of_forall (C := fun _ => True) fun _ _ => trivial) hrun hs

/-- A preorder that every step respects is respected by every run: the invariant carries what
a step needs, the condition what the run promises. -/
theorem relation_along {C : σ → ε → Prop} {I : σ → Prop} {R : σ → σ → Prop}
    (hrefl : ∀ s, R s s) (htrans : ∀ s t u, R s t → R t u → R s u)
    (hinv : ∀ s e t, I s → C s e → M.step s e = some t → I t)
    (hstep : ∀ s e t, I s → C s e → M.step s e = some t → R s t)
    {s t : σ} {es : List ε} (hC : M.Along C s es) (hrun : M.runFrom s es = some t) (hs : I s) :
    R s t := by
  induction es generalizing s with
  | nil => cases hrun; exact hrefl _
  | cons e es ih =>
    rw [along_cons] at hC
    rcases M.runFrom_cons.mp hrun with ⟨m, hm, hrest⟩
    exact htrans s m t (hstep s e m hs hC.1 hm)
      (ih (hC.2 m hm) hrest (hinv s e m hs hC.1 hm))

/-- A property that each step keeps exactly under a condition holds at the end of a run exactly
when it held at its beginning and every step met the condition. -/
theorem along_iff {C : σ → ε → Prop} {I P : σ → Prop}
    (hinv : ∀ s e t, I s → M.step s e = some t → I t)
    (hstep : ∀ s e t, I s → M.step s e = some t → (P t ↔ P s ∧ C s e))
    {s t : σ} {es : List ε} (hrun : M.runFrom s es = some t) (hs : I s) :
    P t ↔ P s ∧ M.Along C s es := by
  induction es generalizing s with
  | nil =>
    cases hrun
    exact (and_iff_left trivial).symm
  | cons e es ih =>
    obtain ⟨m, hm, hrest⟩ := M.runFrom_cons.mp hrun
    have hnext : M.Along C s (e :: es) ↔ C s e ∧ M.Along C m es := by
      rw [along_cons]
      constructor
      · exact fun h => ⟨h.1, h.2 m hm⟩
      · intro h
        refine ⟨h.1, fun n hn => ?_⟩
        rw [hm, Option.some_inj] at hn
        rw [← hn]
        exact h.2
    rw [ih hrest (hinv s e m hs hm), hstep s e m hs hm, hnext, and_assoc]

/-- A property that a step from a state with it keeps exactly on some inputs holds in every state
that a run reaches exactly when all its inputs are of these. -/
theorem reached_iff {D : ε → Prop} {P : σ → Prop}
    (hstep : ∀ s e t, P s → M.step s e = some t → (P t ↔ D e))
    {s t : σ} {es : List ε} (hrun : M.runFrom s es = some t) (hs : P s) :
    (∀ fs m, fs <+: es → M.runFrom s fs = some m → P m) ↔ ∀ e ∈ es, D e := by
  induction es generalizing s with
  | nil =>
    refine iff_of_true (fun fs m hfs hm => ?_) (by simp)
    rw [List.prefix_nil.mp hfs] at hm
    cases hm
    exact hs
  | cons e es ih =>
    obtain ⟨n, hn, hrest⟩ := M.runFrom_cons.mp hrun
    rw [List.forall_mem_cons]
    constructor
    · intro hall
      have hone : P n := hall [e] n (by simp) (by simp [runFrom, hn])
      refine ⟨(hstep s e n hs hn).mp hone, (ih hrest hone).mp fun fs m hfs hm => ?_⟩
      exact hall (e :: fs) m (by simpa using hfs) (M.runFrom_cons.mpr ⟨n, hn, hm⟩)
    · rintro ⟨he, hes⟩ fs m hfs hm
      have hone : P n := (hstep s e n hs hn).mpr he
      cases fs with
      | nil =>
        cases hm
        exact hs
      | cons f fs =>
        obtain ⟨rfl, hfs'⟩ := List.cons_prefix_cons.mp hfs
        obtain ⟨k, hk, hm'⟩ := M.runFrom_cons.mp hm
        cases hn.symm.trans hk
        exact (ih hrest hone).mpr hes fs m hfs' hm'

end Machine
end Library.Runs
