import Mathlib.Data.Prod.Lex
import GambitRecord.Replay.Selection

/-! # What a replay contains

The selection against its purpose: the samples from a video keyframe on, in the
order of their times, counted from that keyframe, and enough of them. A keyframe
is looked for before the time of the sample with the last end, not before that
end itself.
-/

namespace GambitRecord.Replay
open Library Library.Algorithms Recorder

/-- By pts, and a video sample ahead of an audio sample of its time. -/
def order (sample : EncodedSample) : ℤ ×ₗ Bool := toLex (sample.pts, sample.track = .audio)

/-- The samples of a snapshot whose segments can be read. -/
def Snapshot.read (snapshot : Snapshot) : Option (List EncodedSample) :=
  (snapshot.segments.mapM Segment.read).map List.flatten

/-- No two video samples share a pts. -/
def VideoApart (all : List EncodedSample) : Prop :=
  all.Pairwise fun a b => a.track = .video → b.track = .video → a.pts ≠ b.pts

/-- The first in order of the samples that end last. -/
structure Newest (all : List EncodedSample) (last : EncodedSample) : Prop where
  mem : last ∈ all
  latest : ∀ s ∈ all, s.end ≤ last.end
  first : ∀ s ∈ all, s.end = last.end → order last ≤ order s

/-- A replay of the samples, made from the keyframe `first` on. -/
structure Clip (all : List EncodedSample) (requested : ℤ) (last first : EncodedSample)
    (result : List EncodedSample) : Prop where
  newest : Newest all last
  chosen : Chosen all (last.pts - requested) first
  samples : ∃ kept : List EncodedSample, kept.Perm (all.filter fun s => s.pts ≥ first.pts) ∧
    (kept.Pairwise fun a b => order a ≤ order b) ∧
      result = kept.map fun s => { s with pts := s.pts - first.pts }
  head : result.head? = some { first with pts := 0 }
  long : (∃ s ∈ all, s.isVideoKeyframe = true ∧ s.pts + requested ≤ last.end ∧
      s.pts ≤ last.pts) → ∃ s ∈ result, requested ≤ s.end

theorem order_le_iff {a b : EncodedSample} :
    order a ≤ order b ↔
      a.pts < b.pts ∨ (a.pts = b.pts ∧ (a.track = .audio → b.track = .audio)) := by
  rw [order, order, Prod.Lex.toLex_le_toLex]
  simp [Bool.le_iff_imp]

theorem pairwise_order (all : List EncodedSample) :
    (stableSort before all).Pairwise fun a b => order a ≤ order b := by
  apply pairwise_key_stableSort
  · intro a b hlt
    have hnot := not_le.mpr hlt
    rw [order_le_iff] at hnot
    have hle := order_le_iff.mp hlt.le
    cases htrack : a.track with
    | video => simpa [before, htrack] using hle.imp id And.left
    | audio =>
      rcases hle with hpts | ⟨hpts, haudio⟩
      · simp [before, hpts]
      · exact absurd (.inr ⟨hpts.symm, fun _ => htrack⟩) hnot
  · intro a b h
    rw [order_le_iff]
    simp only [before, decide_eq_true_eq] at h
    rcases h with hpts | ⟨hpts, hvideo⟩
    · exact .inl hpts
    · exact .inr ⟨hpts, fun haudio => by rw [hvideo] at haudio; cases haudio⟩

theorem newest_of_maxElement {all : List EncodedSample} {last : EncodedSample}
    (h : maxElement endsBefore (stableSort before all) = some last) : Newest all last := by
  obtain ⟨pre, post, hsplit, hpre, hpost⟩ :=
    maxElement_split EncodedSample.end (by simp [endsBefore]) h
  have hsorted := pairwise_order all
  rw [hsplit] at hsorted
  have hmem : ∀ s, s ∈ all ↔ s ∈ pre ∨ s = last ∨ s ∈ post := by
    intro s
    have hstable : s ∈ stableSort before all ↔ s ∈ all := mem_stableSort
    rw [← hstable, hsplit, List.mem_append, List.mem_cons]
  constructor
  · exact (hmem last).mpr (.inr (.inl rfl))
  · intro s hs
    rcases (hmem s).mp hs with hs | rfl | hs
    · exact (hpre s hs).le
    · exact le_rfl
    · exact hpost s hs
  · intro s hs hend
    rcases (hmem s).mp hs with hs | rfl | hs
    · exact absurd hend (hpre s hs).ne
    · exact le_rfl
    · exact (List.pairwise_cons.mp (List.pairwise_append.mp hsorted).2.1).1 s hs

theorem VideoApart.eq {all : List EncodedSample} (h : VideoApart all) {a b : EncodedSample}
    (ha : a ∈ all) (hb : b ∈ all) (hav : a.track = .video) (hbv : b.track = .video)
    (hpts : a.pts = b.pts) : a = b := by
  have hone : all.Pairwise fun a b =>
      a.track = .video → b.track = .video → a.pts = b.pts → a = b :=
    h.imp fun hne ha hb hpts => absurd hpts (hne ha hb)
  have hflip : all.Pairwise fun a b =>
      b.track = .video → a.track = .video → b.pts = a.pts → b = a :=
    hone.imp fun hab hb ha hpts => (hab ha hb hpts.symm).symm
  exact hone.forall_of_forall_of_flip (fun _ _ _ _ _ => rfl) hflip ha hb hav hbv hpts

section Clip
variable {all : List EncodedSample} {requested : ℤ} {last first : EncodedSample}

theorem head_filter (hvideo : VideoApart all) (hmem : first ∈ all)
    (hkey : first.isVideoKeyframe = true) :
    ((stableSort before all).filter fun s => s.pts ≥ first.pts).head? = some first := by
  have hin : first ∈ (stableSort before all).filter fun s => s.pts ≥ first.pts :=
    List.mem_filter.mpr ⟨mem_stableSort.mpr hmem, by simp⟩
  have hsorted := (pairwise_order all).filter fun s => decide (s.pts ≥ first.pts)
  have htrack : first.track = .video := by
    simp only [EncodedSample.isVideoKeyframe, decide_eq_true_eq] at hkey
    exact hkey.1
  cases hkept : (stableSort before all).filter fun s => decide (s.pts ≥ first.pts) with
  | nil =>
    rw [hkept] at hin
    cases hin
  | cons a kept =>
    have ha : a ∈ (stableSort before all).filter fun s => decide (s.pts ≥ first.pts) := by
      rw [hkept]
      exact List.mem_cons_self ..
    rw [List.mem_filter, mem_stableSort, decide_eq_true_eq] at ha
    rw [hkept] at hin hsorted
    rcases List.mem_cons.mp hin with heq | hrest
    · rw [heq]
      rfl
    · -- the head is a video sample of the same time, and there is only one
      have hle := order_le_iff.mp ((List.pairwise_cons.mp hsorted).1 first hrest)
      rcases hle with hlt | ⟨hpts, haudio⟩
      · exact absurd hlt (not_lt.mpr ha.2)
      · have hav : a.track = .video := by
          cases hatrack : a.track with
          | video => rfl
          | audio =>
            rw [haudio hatrack] at htrack
            cases htrack
        rw [hvideo.eq ha.1 hmem hav htrack hpts]
        rfl

/-- A keyframe before the last sample leaves enough behind it. -/
theorem long_of_chosen (hlast : Newest all last) (hfirst : Chosen all (last.pts - requested) first)
    (hduration : ∀ s ∈ all, 0 ≤ s.duration) (hrequested : 0 ≤ requested)
    (h : ∃ s ∈ all, s.isVideoKeyframe = true ∧ s.pts + requested ≤ last.end ∧ s.pts ≤ last.pts) :
    first.pts ≤ last.pts ∧ requested ≤ last.end - first.pts := by
  obtain ⟨s, hs, hkey, hend, hpts⟩ := h
  have hdur := hduration last hlast.mem
  have hlastend : last.end = last.pts + last.duration := rfl
  rcases hfirst.choice with ⟨hle, -⟩ | ⟨-, hearliest⟩
  · omega
  · have hle := hearliest s hs hkey
    omega

theorem clip_select (hvideo : VideoApart all) (hduration : ∀ s ∈ all, 0 ≤ s.duration)
    (hrequested : 0 ≤ requested) (hlast : Newest all last)
    (hfirst : Chosen all (last.pts - requested) first) :
    Clip all requested last first
      (rebase_timestamps ((stableSort before all).filter fun s => s.pts ≥ first.pts)) := by
  have hin : first ∈ (stableSort before all).filter fun s => s.pts ≥ first.pts :=
    List.mem_filter.mpr ⟨mem_stableSort.mpr hfirst.mem, by simp⟩
  rw [rebase_eq hin fun s hs => of_decide_eq_true (List.mem_filter.mp hs).2]
  refine ⟨hlast, hfirst, ⟨_, (perm_stableSort before all).filter _, ?_, rfl⟩, ?_, ?_⟩
  · exact (pairwise_order all).filter _
  · rw [List.head?_map, head_filter hvideo hfirst.mem hfirst.keyframe, Option.map_some, sub_self]
  · intro hearly
    obtain ⟨hpts, hlong⟩ := long_of_chosen hlast hfirst hduration hrequested hearly
    refine ⟨{ last with pts := last.pts - first.pts }, ?_, ?_⟩
    · apply List.mem_map_of_mem
      exact List.mem_filter.mpr ⟨mem_stableSort.mpr hlast.mem, decide_eq_true hpts⟩
    · have hend : last.end = last.pts + last.duration := rfl
      change requested ≤ last.pts - first.pts + last.duration
      omega

/-- A selection is empty for want of a keyframe, or holds the samples from the chosen one on. -/
theorem select_cases (all : List EncodedSample) (requested : ℤ) :
    (select all requested = [] ∧ ∀ s ∈ all, s.isVideoKeyframe = false) ∨
      ∃ last first, Newest all last ∧ Chosen all (last.pts - requested) first ∧
        select all requested =
          rebase_timestamps ((stableSort before all).filter fun s => s.pts ≥ first.pts) := by
  unfold select
  dsimp only
  cases hlast : maxElement endsBefore (stableSort before all) with
  | none =>
    have hnil : all = [] := by
      by_contra hne
      have hsorted : stableSort before all ≠ [] := fun h =>
        hne (List.perm_nil.mp (h ▸ (perm_stableSort before all).symm))
      obtain ⟨m, hm⟩ := maxElement_isSome endsBefore hsorted
      rw [hlast] at hm
      cases hm
    exact .inl ⟨rfl, by simp [hnil]⟩
  | some last =>
    simp only
    rcases start_cases (last.pts - requested) (pairwise_pts all) with
      ⟨hnone, hno⟩ | ⟨first, hfirst, hchosen⟩
    · rw [hnone]
      exact .inl ⟨rfl, fun s hs => hno s (mem_stableSort.mpr hs)⟩
    · have hchosen' : Chosen all (last.pts - requested) first :=
        ⟨mem_stableSort.mp hchosen.mem, hchosen.keyframe, by
          simpa only [mem_stableSort] using hchosen.choice⟩
      rw [hfirst]
      exact .inr ⟨last, first, newest_of_maxElement hlast, hchosen', rfl⟩

/-- The replay of a snapshot is empty exactly without a video keyframe, and otherwise it is a clip
that is long enough if some keyframe is early enough and not behind the newest sample. -/
theorem clip_of_snapshot {snapshot : Snapshot} (hread : snapshot.read = some all)
    (hvideo : VideoApart all) (hduration : ∀ s ∈ all, 0 ≤ s.duration)
    (hrequested : 0 ≤ requested) :
    ∃ result, select_replay_samples snapshot requested = some result ∧
      (result = [] ↔ ∀ s ∈ all, s.isVideoKeyframe = false) ∧
      (result ≠ [] → ∃ last first, Clip all requested last first result) := by
  obtain ⟨parts, hparts, rfl⟩ := Option.map_eq_some_iff.mp hread
  refine ⟨select parts.flatten requested, by rw [select_replay_samples, hparts]; rfl, ?_⟩
  rcases select_cases parts.flatten requested with
    ⟨hempty, hno⟩ | ⟨last, first, hnewest, hchosen, hselect⟩
  · exact ⟨iff_of_true hempty hno, fun hne => absurd hempty hne⟩
  · have hclip := clip_select hvideo hduration hrequested hnewest hchosen
    rw [← hselect] at hclip
    constructor
    · apply iff_of_false
      · intro hempty
        have hhead := hclip.head
        rw [hempty] at hhead
        cases hhead
      · intro hno
        exact absurd hchosen.keyframe (by simp [hno first hchosen.mem])
    · exact fun _ => ⟨last, first, hclip⟩

end Clip

/-- An audio sample that ends long after a keyframe behind it. -/
def longAudio : Snapshot :=
  ⟨[⟨0, 100, .memory [⟨.audio, 0, 100, false, [0]⟩, ⟨.video, 50, 1, true, [1]⟩]⟩], 100⟩

theorem longAudio_read :
    longAudio.read = some [⟨.audio, 0, 100, false, [0]⟩, ⟨.video, 50, 1, true, [1]⟩] := rfl

theorem clip_longAudio :
    ∃ result, select_replay_samples longAudio 10 = some result ∧
      (result = [] ↔ ∀ s ∈ [(⟨.audio, 0, 100, false, [0]⟩ : EncodedSample),
        ⟨.video, 50, 1, true, [1]⟩], s.isVideoKeyframe = false) ∧
      (result ≠ [] → ∃ last first, Clip [⟨.audio, 0, 100, false, [0]⟩, ⟨.video, 50, 1, true, [1]⟩]
        10 last first result) :=
  clip_of_snapshot longAudio_read (by simp [VideoApart]) (by decide) (by decide)

/-- A keyframe that lies early enough before the last end is not always enough. -/
theorem not_alwaysLong :
    ¬ ∀ (snapshot : Snapshot) (all result : List EncodedSample) (requested : ℤ)
      (keyframe last : EncodedSample), snapshot.read = some all → VideoApart all →
      (∀ s ∈ all, 0 ≤ s.duration) → 0 ≤ requested →
      select_replay_samples snapshot requested = some result →
      keyframe ∈ all → keyframe.isVideoKeyframe = true → last ∈ all →
      keyframe.pts + requested ≤ last.end → ∃ s ∈ result, requested ≤ s.end := by
  intro hall
  have hlong := hall longAudio _ [⟨.video, 0, 1, true, [1]⟩] 10 ⟨.video, 50, 1, true, [1]⟩
    ⟨.audio, 0, 100, false, [0]⟩ longAudio_read (by simp [VideoApart]) (by decide) (by decide)
    (by decide) (by decide) (by decide) (by decide) (by decide)
  revert hlong
  decide

end GambitRecord.Replay
