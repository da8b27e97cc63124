import GambitRecord.Library.Algorithms
import GambitRecord.Replay.SegmentStore

/-! # The samples of a replay

`select_replay_samples` and `rebase_timestamps`. The comparison of the sort puts
a video sample before every other one with its time, itself included, so the
order among equal times is left open and no result here depends on it.
-/

namespace GambitRecord.Replay
open Library Library.Algorithms Recorder

def before (a b : EncodedSample) : Bool := a.pts < b.pts ∨ (a.pts = b.pts ∧ a.track = .video)

def endsBefore (a b : EncodedSample) : Bool := a.end < b.end

def startsBefore (a b : EncodedSample) : Bool := a.pts < b.pts

def rebase_timestamps (samples : List EncodedSample) : List EncodedSample :=
  match minElement startsBefore samples with
  | none => samples
  | some base => samples.map fun sample => { sample with pts := max 0 (sample.pts - base.pts) }

/-- The sample that the replay starts with: the last video keyframe up to `desired`, otherwise the
first sample if it is a video keyframe, otherwise the first video keyframe. -/
def start (all : List EncodedSample) (desired : ℤ) : Option EncodedSample :=
  match (all.filter fun s => s.isVideoKeyframe ∧ s.pts ≤ desired).getLast? with
  | some keyframe => some keyframe
  | none =>
    match all.head? with
    | some first => if first.isVideoKeyframe then some first else all.find? EncodedSample.isVideoKeyframe
    | none => none

def select (all : List EncodedSample) (requested_hns : ℤ) : List EncodedSample :=
  let all := stableSort before all
  match maxElement endsBefore all with
  | none => []
  | some last =>
    match start all (last.pts - requested_hns) with
    | none => []
    | some first => rebase_timestamps (all.filter fun s => s.pts ≥ first.pts)

/-- `none` when a segment cannot be read. -/
def select_replay_samples (snapshot : Snapshot) (requested_hns : ℤ) :
    Option (List EncodedSample) :=
  (snapshot.segments.mapM Segment.read).map fun parts => select parts.flatten requested_hns

theorem pairwise_pts (all : List EncodedSample) :
    (stableSort before all).Pairwise fun a b => a.pts ≤ b.pts := by
  apply pairwise_key_stableSort
  · intro a b hlt
    simp [before, hlt]
  · intro a b h
    simp only [before, decide_eq_true_eq] at h
    omega

/-- The video keyframe that a replay starts with: the latest one up to `desired`, or without one
the earliest. -/
structure Chosen (all : List EncodedSample) (desired : ℤ) (first : EncodedSample) : Prop where
  mem : first ∈ all
  keyframe : first.isVideoKeyframe = true
  choice : (first.pts ≤ desired ∧
      ∀ s ∈ all, s.isVideoKeyframe = true → s.pts ≤ desired → s.pts ≤ first.pts) ∨
    ((∀ s ∈ all, s.isVideoKeyframe = true → desired < s.pts) ∧
      ∀ s ∈ all, s.isVideoKeyframe = true → first.pts ≤ s.pts)

/-- Among samples in order, the first video keyframe is the earliest. -/
theorem find_keyframe {all : List EncodedSample} (hsorted : all.Pairwise fun a b => a.pts ≤ b.pts)
    {first : EncodedSample} (h : all.find? EncodedSample.isVideoKeyframe = some first) :
    ∀ s ∈ all, s.isVideoKeyframe = true → first.pts ≤ s.pts := by
  obtain ⟨-, pre, post, rfl, hpre⟩ := List.find?_eq_some_iff_append.mp h
  intro s hs hkey
  rw [List.mem_append, List.mem_cons] at hs
  rcases hs with hs | rfl | hs
  · exact absurd hkey (by simpa using hpre s hs)
  · exact le_rfl
  · exact (List.pairwise_cons.mp (List.pairwise_append.mp hsorted).2.1).1 s hs

theorem start_cases {all : List EncodedSample} (desired : ℤ)
    (hsorted : all.Pairwise fun a b => a.pts ≤ b.pts) :
    (start all desired = none ∧ ∀ s ∈ all, s.isVideoKeyframe = false) ∨
      ∃ first, start all desired = some first ∧ Chosen all desired first := by
  unfold start
  cases hlast : (all.filter fun s => decide (s.isVideoKeyframe ∧ s.pts ≤ desired)).getLast? with
  | some first =>
    right
    obtain ⟨init, hinit⟩ := List.getLast?_eq_some_iff.mp hlast
    have hfirst := List.mem_filter.mp (List.mem_of_getLast? hlast)
    obtain ⟨hkey, hle⟩ := of_decide_eq_true hfirst.2
    refine ⟨first, rfl, hfirst.1, hkey, .inl ⟨hle, ?_⟩⟩
    intro s hs hskey hsle
    have hmem : s ∈ init ++ [first] := by
      rw [← hinit]
      exact List.mem_filter.mpr ⟨hs, decide_eq_true ⟨hskey, hsle⟩⟩
    have hpair := hsorted.filter fun s => decide (s.isVideoKeyframe = true ∧ s.pts ≤ desired)
    rw [hinit] at hpair
    rcases List.mem_append.mp hmem with hs | hs
    · exact (List.pairwise_append.mp hpair).2.2 s hs first (List.mem_singleton_self _)
    · rw [List.mem_singleton.mp hs]
  | none =>
    have hlate : ∀ s ∈ all, s.isVideoKeyframe = true → desired < s.pts := by
      intro s hs hkey
      by_contra hle
      have hnil := List.getLast?_eq_none_iff.mp hlast
      rw [List.filter_eq_nil_iff] at hnil
      exact hnil s hs (decide_eq_true ⟨hkey, not_lt.mp hle⟩)
    -- both of the remaining branches take the first video keyframe
    have hbranch : (match all.head? with
        | some first =>
          if first.isVideoKeyframe then some first else all.find? EncodedSample.isVideoKeyframe
        | none => none) = all.find? EncodedSample.isVideoKeyframe := by
      cases all with
      | nil => rfl
      | cons a all =>
        simp only [List.head?_cons]
        split_ifs with ha
        · rw [List.find?_cons_of_pos ha]
        · rfl
    dsimp only
    rw [hbranch]
    cases hfind : all.find? EncodedSample.isVideoKeyframe with
    | none =>
      refine .inl ⟨rfl, ?_⟩
      intro s hs
      simpa using List.find?_eq_none.mp hfind s hs
    | some first =>
      refine .inr ⟨first, rfl, List.mem_of_find?_eq_some hfind, List.find?_some hfind, ?_⟩
      exact .inr ⟨hlate, find_keyframe hsorted hfind⟩

theorem rebase_eq {samples : List EncodedSample} {first : EncodedSample} (hmem : first ∈ samples)
    (hfirst : ∀ s ∈ samples, first.pts ≤ s.pts) :
    rebase_timestamps samples =
      samples.map fun sample => { sample with pts := sample.pts - first.pts } := by
  rcases maxElement_isSome (fun a b => startsBefore b a) (List.ne_nil_of_mem hmem) with
    ⟨base, hbase⟩
  have hspec := minElement_spec EncodedSample.pts (by simp [startsBefore]) hbase
  have hpts : base.pts = first.pts := le_antisymm (hspec.2 first hmem) (hfirst base hspec.1)
  change minElement startsBefore samples = some base at hbase
  rw [rebase_timestamps, hbase]
  apply List.map_congr_left
  intro sample hs
  have hle := hfirst sample hs
  rw [hpts, max_eq_right (by omega)]

theorem rebase_spec {samples : List EncodedSample} {first : EncodedSample} (hmem : first ∈ samples)
    (hfirst : ∀ s ∈ samples, first.pts ≤ s.pts) {sample : EncodedSample} (hs : sample ∈ samples) :
    { sample with pts := sample.pts - first.pts } ∈ rebase_timestamps samples := by
  rw [rebase_eq hmem hfirst]
  exact List.mem_map_of_mem hs

/-- When the earliest sample is a video keyframe and begins at least the requested time before the
newest end, the replay is at least as long as requested. -/
theorem le_select {all : List EncodedSample} {requested : ℤ} {keyframe newest : EncodedSample}
    (hmem : keyframe ∈ all) (hkey : keyframe.isVideoKeyframe = true)
    (hfront : ∀ s ∈ all, keyframe.pts ≤ s.pts) (hdur : ∀ s ∈ all, 0 ≤ s.duration)
    (hreq : 0 < requested) (hnewest : newest ∈ all)
    (hlong : keyframe.pts + requested ≤ newest.end) :
    ∃ sample ∈ select all requested, requested ≤ sample.end := by
  have hk : keyframe ∈ stableSort before all := mem_stableSort.mpr hmem
  rcases maxElement_isSome endsBefore (List.ne_nil_of_mem hk) with ⟨last, hlast⟩
  have hmax := maxElement_spec EncodedSample.end (by simp [endsBefore]) hlast
  have hnew : newest.end ≤ last.end := hmax.2 newest (mem_stableSort.mpr hnewest)
  have hlastmem : last ∈ all := mem_stableSort.mp hmax.1
  have hlastdur := hdur last hlastmem
  have hlastpts := hfront last hlastmem
  obtain ⟨-, hnone⟩ | ⟨first, hfirst, hin, -, hchoice⟩ :=
    start_cases (last.pts - requested) (pairwise_pts all)
  · exact absurd (hnone keyframe hk) (by simp [hkey])
  have hle : first.pts ≤ last.pts - requested ∨ first.pts ≤ keyframe.pts :=
    hchoice.imp And.left fun h => h.2 keyframe hk hkey
  have hfirstlast : first.pts ≤ last.pts := by omega
  have hend : last.end = last.pts + last.duration := rfl
  have hfirstlong : first.pts + requested ≤ last.end := by omega
  have hselect : select all requested =
      rebase_timestamps ((stableSort before all).filter fun s => s.pts ≥ first.pts) := by
    simp only [select, hlast, hfirst]
  refine ⟨{ last with pts := last.pts - first.pts }, ?_, ?_⟩
  · rw [hselect]
    apply rebase_spec
    · exact List.mem_filter.mpr ⟨hin, by simp⟩
    · intro s hs
      simpa using (List.mem_filter.mp hs).2
    · exact List.mem_filter.mpr ⟨hmax.1, by simpa using hfirstlast⟩
  · change requested ≤ last.pts - first.pts + last.duration
    omega

end GambitRecord.Replay
