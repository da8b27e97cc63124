import GambitRecord.Replay.Clip

/-! # The order of stored samples

The comparison that `select_replay_samples` gives to `std::stable_sort`, against
what the sort asks of it. A video sample is before every sample of its time, itself
included.
-/

namespace GambitRecord.Replay
open Library Library.Algorithms Recorder

/-- The comparison is an order on the samples, and samples of one time and track keep the order in
which they were stored. -/
structure Orders (all : List EncodedSample) : Prop where
  weak : StrictWeak before all
  decode : ∀ pts track, (stableSort before all).filter (fun s => s.pts = pts ∧ s.track = track) =
    all.filter fun s => s.pts = pts ∧ s.track = track

theorem before_self (s : EncodedSample) : before s s = true ↔ s.track = .video := by
  simp [before]

theorem before_audio {a : EncodedSample} (h : a.track = .audio) (b : EncodedSample) :
    before a b = true ↔ a.pts < b.pts := by
  simp [before, h]

theorem strictWeak_audio {all : List EncodedSample} (h : ∀ s ∈ all, s.track = .audio) :
    StrictWeak before all := by
  have hlt : ∀ a ∈ all, ∀ b, before a b = true ↔ a.pts < b.pts :=
    fun a ha b => before_audio (h a ha) b
  have hle : ∀ a ∈ all, ∀ b, before a b = false ↔ b.pts ≤ a.pts := by
    intro a ha b
    rw [← Bool.not_eq_true, hlt a ha, not_lt]
  constructor
  · intro a ha
    exact (hle a ha a).mpr le_rfl
  · intro a ha b hb hab
    exact (hle b hb a).mpr ((hlt a ha b).mp hab).le
  · intro a ha b hb c _ hab hbc
    exact (hlt a ha c).mpr (((hlt a ha b).mp hab).trans ((hlt b hb c).mp hbc))
  · intro a ha b hb c hc hab hba hbc hcb
    rw [hle a ha] at hab ⊢
    rw [hle b hb] at hba hbc
    rw [hle c hc] at hcb ⊢
    exact ⟨hbc.trans hab, hba.trans hcb⟩

/-- The comparison orders exactly the samples without a video sample among them. -/
theorem orders_iff_audio {all : List EncodedSample} :
    Orders all ↔ ∀ s ∈ all, s.track = .audio := by
  constructor
  · intro h s hs
    have hself := h.weak.irrefl s hs
    cases htrack : s.track with
    | audio => rfl
    | video =>
      rw [(before_self s).mpr htrack] at hself
      cases hself
  · intro haudio
    refine ⟨strictWeak_audio haudio, ?_⟩
    intro pts track
    apply filter_stableSort
    intro a ha b _ hpa hpb
    have hsame : a.pts = b.pts := (of_decide_eq_true hpa).1.trans (of_decide_eq_true hpb).1.symm
    rw [← Bool.not_eq_true, before_audio (haudio a ha)]
    exact hsame.not_lt

/-- The samples of a snapshot are ordered exactly when none of them is a video sample. -/
theorem orders_iff (snapshot : Snapshot) :
    (∀ all ∈ snapshot.read, Orders all) ↔
      ∀ all ∈ snapshot.read, ∀ s ∈ all, s.track = .audio := by
  simp only [orders_iff_audio]

theorem before_eq_true {a b : EncodedSample} :
    before a b = true ↔ a.pts < b.pts ∨ (a.pts = b.pts ∧ a.track = .video) := by
  simp [before]

/-- Where the sort puts a sample, nothing behind it is before it. -/
theorem not_before_of_mem_dropWhile {all : List EncodedSample} {a b : EncodedSample}
    (h : b ∈ (stableSort before all).dropWhile fun s => before s a) : before b a = false := by
  have hsorted := (pairwise_order all).sublist
    (List.dropWhile_sublist fun s => before s a)
  have hhead := List.head?_dropWhile_not (fun s => before s a) (stableSort before all)
  cases hdrop : (stableSort before all).dropWhile fun s => before s a with
  | nil =>
    rw [hdrop] at h
    cases h
  | cons first rest =>
    rw [hdrop] at h hsorted hhead
    have hfirst : before first a = false := by simpa using hhead
    rcases List.mem_cons.mp h with rfl | hrest
    · exact hfirst
    · have hle := order_le_iff.mp ((List.pairwise_cons.mp hsorted).1 b hrest)
      rw [← Bool.not_eq_true, before_eq_true] at hfirst ⊢
      rintro (hlt | ⟨hpts, hvideo⟩)
      · apply hfirst
        rcases hle with hfirstlt | ⟨hsame, -⟩
        · exact .inl (hfirstlt.trans hlt)
        · exact .inl (hsame.trans_lt hlt)
      · apply hfirst
        rcases hle with hfirstlt | ⟨hsame, haudio⟩
        · exact .inl (hfirstlt.trans_eq hpts)
        · refine .inr ⟨hsame.trans hpts, ?_⟩
          cases htrack : first.track with
          | video => rfl
          | audio =>
            rw [haudio htrack] at hvideo
            cases hvideo

/-- Video samples of one time come out of the sort in reverse. -/
theorem reverse_video (all : List EncodedSample) (pts : ℤ) :
    (stableSort before all).filter (fun s => s.pts = pts ∧ s.track = .video) =
      (all.filter fun s => s.pts = pts ∧ s.track = .video).reverse := by
  induction all with
  | nil => rfl
  | cons a all ih =>
    have hwhole := List.takeWhile_append_dropWhile (p := fun b => before b a)
      (l := stableSort before all)
    rw [stableSort_cons, List.filter_append]
    by_cases ha : a.pts = pts ∧ a.track = .video
    · have hbehind : ((stableSort before all).dropWhile fun b => before b a).filter
          (fun s => s.pts = pts ∧ s.track = .video) = [] := by
        rw [List.filter_eq_nil_iff]
        intro b hb hpicked
        obtain ⟨hpts, hvideo⟩ := of_decide_eq_true hpicked
        have hnot := not_before_of_mem_dropWhile hb
        rw [before_eq_true.mpr (.inr ⟨hpts.trans ha.1.symm, hvideo⟩)] at hnot
        cases hnot
      have hahead : ((stableSort before all).takeWhile fun b => before b a).filter
          (fun s => s.pts = pts ∧ s.track = .video) = (stableSort before all).filter
            fun s => s.pts = pts ∧ s.track = .video := by
        rw [← hwhole, List.filter_append, hwhole, hbehind, List.append_nil]
      rw [List.filter_cons_of_pos (by simpa using ha), List.filter_cons_of_pos (by simpa using ha),
        hahead, hbehind, ih, List.reverse_cons]
    · rw [List.filter_cons_of_neg (by simpa using ha), List.filter_cons_of_neg (by simpa using ha),
        ← List.filter_append, hwhole, ih]

def twoFrames : Snapshot :=
  ⟨[⟨0, 1, .memory [⟨.video, 0, 1, true, [0]⟩, ⟨.video, 0, 1, false, [1]⟩]⟩], 1⟩

/-- A video sample is before itself. -/
theorem not_alwaysOrders : ¬ ∀ snapshot : Snapshot, ∀ all ∈ snapshot.read, Orders all := by
  intro hall
  have horders := hall twoFrames [⟨.video, 0, 1, true, [0]⟩, ⟨.video, 0, 1, false, [1]⟩] rfl
  have hself := horders.weak.irrefl ⟨.video, 0, 1, true, [0]⟩ (List.mem_cons_self ..)
  revert hself
  decide

end GambitRecord.Replay
