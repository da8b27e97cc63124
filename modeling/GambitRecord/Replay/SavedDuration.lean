import Mathlib.Order.Bounds.Basic
import GambitRecord.Recorder.RecordingSession
import GambitRecord.Replay.SampleOrder

/-! # The duration of a saved replay

The task that `ReplayBuffer::save` launches. It reports the end of the last sample
it wrote, in the order of their starts; a longer sample before that one ends the
file later.
-/

namespace GambitRecord.Replay
open Library Library.Algorithms Recorder

/-- `SaveResult`. -/
structure SavedReplay where
  success : Bool := false
  path : WidePath := []
  duration_hns : ℤ := 0
  error : Bytes := []
  deriving DecidableEq

/-- What the file system and the sink writer answer to a save, and the text of the exception if one
is thrown. -/
structure SaveAnswers where
  filename : Option Filename
  opens : Bool
  writes : ℕ → Bool
  finalizes : Bool
  what : Bytes

/-- The loop over the samples; the writes are numbered. -/
def write_samples (writes : ℕ → Bool) : ℕ → List EncodedSample → Mp4Muxer → Option Mp4Muxer
  | _, [], muxer => some muxer
  | n, sample :: samples, muxer =>
    (muxer.write sample (writes n)).bind (write_samples writes (n + 1) samples)

def requested_hns (seconds : UInt32) : ℤ := seconds.toNat * HnsPerSecond

/-- The log line converts the path, behind the result's success. -/
def save_task (page : CodePage) (seconds : UInt32) (snapshot : Snapshot)
    (description : StreamDescription) (answers : SaveAnswers) : SavedReplay :=
  match select_replay_samples snapshot (requested_hns seconds) with
  | none => { error := answers.what }
  | some samples =>
    match samples.getLast? with
    | none => { error := Utf8.bytes "no keyframe is available yet" }
    | some back =>
      match answers.filename with
      | none => { error := answers.what }
      | some filename =>
        let failed : SavedReplay := { path := filename.path, error := answers.what }
        match Mp4Muxer.open {} description answers.opens with
        | none => failed
        | some opened =>
          match write_samples answers.writes 0 samples opened with
          | none => failed
          | some muxer =>
            if (muxer.finalize answers.finalizes).2 then failed
            else
              { success := true
                path := filename.path
                duration_hns := back.pts + back.duration
                error := if (page.encode filename.path).isSome then [] else answers.what }

def ends (samples : List EncodedSample) : Set ℤ := {e | ∃ s ∈ samples, s.end = e}

/-- The last of the samples in order. Of the video samples of its time it is the one that was stored
first, of the audio samples the one that was stored last. -/
def Back (all : List EncodedSample) (back : EncodedSample) : Prop :=
  ∃ earlier later, all = earlier ++ back :: later ∧
    (∀ s ∈ earlier, order s ≤ order back ∧ (back.track = .video → order s ≠ order back)) ∧
    ∀ s ∈ later, order s ≤ order back ∧ (back.track = .audio → order s ≠ order back)

/-- From the keyframe that the replay starts with on, no sample ends after the last one in order. -/
def BackEndsLast (all : List EncodedSample) (requested : ℤ) : Prop :=
  ∀ last first back, Newest all last → Chosen all (last.pts - requested) first → Back all back →
    ∀ s ∈ all, first.pts ≤ s.pts → s.end ≤ back.end

section Unique
variable {all : List EncodedSample}

theorem order_eq_iff {a b : EncodedSample} :
    order a = order b ↔ a.pts = b.pts ∧ a.track = b.track := by
  rw [order, order, toLex_inj, Prod.mk.injEq]
  cases a.track <;> cases b.track <;> simp

theorem Newest.pts_eq {a b : EncodedSample} (ha : Newest all a) (hb : Newest all b) :
    a.pts = b.pts := by
  have hend : a.end = b.end := le_antisymm (hb.latest a ha.mem) (ha.latest b hb.mem)
  have horder : order a = order b := le_antisymm (ha.first b hb.mem hend.symm) (hb.first a ha.mem hend)
  exact (order_eq_iff.mp horder).1

theorem Chosen.pts_eq {desired : ℤ} {a b : EncodedSample} (ha : Chosen all desired a)
    (hb : Chosen all desired b) : a.pts = b.pts := by
  rcases ha.choice with ⟨hale, halatest⟩ | ⟨halate, haearliest⟩
  · rcases hb.choice with ⟨hble, hblatest⟩ | ⟨hblate, -⟩
    · exact le_antisymm (hblatest a ha.mem ha.keyframe hale) (halatest b hb.mem hb.keyframe hble)
    · exact absurd hale (not_le.mpr (hblate a ha.mem ha.keyframe))
  · rcases hb.choice with ⟨hble, -⟩ | ⟨-, hbearliest⟩
    · exact absurd hble (not_le.mpr (halate b hb.mem hb.keyframe))
    · exact le_antisymm (haearliest b hb.mem hb.keyframe) (hbearliest a ha.mem ha.keyframe)

/-- Of two last samples the one stored later would have to be audio, the other one video. -/
theorem back_eq_of_before {a b : EncodedSample} {earlier later middle : List EncodedSample}
    (hlater : ∀ s ∈ middle ++ b :: later, order s ≤ order a ∧ (a.track = .audio → order s ≠ order a))
    (hearlier : ∀ s ∈ earlier ++ a :: middle, order s ≤ order b ∧
      (b.track = .video → order s ≠ order b)) : False := by
  have hb := hlater b (by simp)
  have ha := hearlier a (by simp)
  have hsame : order a = order b := le_antisymm ha.1 hb.1
  have htrack := (order_eq_iff.mp hsame).2
  cases hatrack : a.track with
  | audio => exact hb.2 hatrack hsame.symm
  | video => exact ha.2 (htrack ▸ hatrack) hsame

theorem Back.eq {a b : EncodedSample} (ha : Back all a) (hb : Back all b) : a = b := by
  obtain ⟨earlier, later, rfl, hearlier, hlater⟩ := ha
  obtain ⟨earlier', later', hsplit, hearlier', hlater'⟩ := hb
  rcases List.append_eq_append_iff.mp hsplit with ⟨middle, rfl, hmiddle⟩ | ⟨middle, rfl, hmiddle⟩
  · cases middle with
    | nil => exact (List.cons.inj hmiddle).1
    | cons c middle =>
      obtain ⟨rfl, rfl⟩ := List.cons.inj hmiddle
      exact (back_eq_of_before hlater hearlier').elim
  · cases middle with
    | nil => exact (List.cons.inj hmiddle).1.symm
    | cons c middle =>
      obtain ⟨rfl, rfl⟩ := List.cons.inj hmiddle
      exact (back_eq_of_before hlater' hearlier).elim

theorem Back.le {back : EncodedSample} (h : Back all back) : ∀ s ∈ all, order s ≤ order back := by
  obtain ⟨earlier, later, rfl, hearlier, hlater⟩ := h
  intro s hs
  rw [List.mem_append, List.mem_cons] at hs
  rcases hs with hs | rfl | hs
  · exact (hearlier s hs).1
  · exact le_rfl
  · exact (hlater s hs).1

end Unique

theorem order_le_of_not_before {a b : EncodedSample} (h : before b a = false) :
    order a ≤ order b := by
  rw [← Bool.not_eq_true, before_eq_true] at h
  rw [order_le_iff]
  rcases lt_trichotomy a.pts b.pts with hlt | heq | hgt
  · exact .inl hlt
  · refine .inr ⟨heq, fun _ => ?_⟩
    cases htrack : b.track with
    | audio => rfl
    | video => exact absurd (.inr ⟨heq.symm, htrack⟩) h
  · exact absurd (.inl hgt) h

/-- A sample that all others are before is the last one, though stored first. -/
theorem back_of_all_before {all : List EncodedSample} {a : EncodedSample}
    (h : ∀ s ∈ all, before s a = true) : Back (a :: all) a := by
  refine ⟨[], all, rfl, by simp, ?_⟩
  intro s hs
  have hbefore := before_eq_true.mp (h s hs)
  constructor
  · rw [order_le_iff]
    refine hbefore.imp id fun heq => ⟨heq.1, fun haudio => ?_⟩
    rw [heq.2] at haudio
    cases haudio
  · intro haudio hsame
    obtain ⟨hpts, htrack⟩ := order_eq_iff.mp hsame
    rcases hbefore with hlt | ⟨-, hvideo⟩
    · exact hlt.ne hpts
    · rw [htrack, haudio] at hvideo
      cases hvideo

theorem Back.cons {all : List EncodedSample} {a first back : EncodedSample} (hback : Back all back)
    (hin : first ∈ all) (hfirst : before first a = false) : Back (a :: all) back := by
  have hle := order_le_of_not_before hfirst
  have hfirstle := hback.le first hin
  obtain ⟨earlier, later, hall, hearlier, hlater⟩ := hback
  refine ⟨a :: earlier, later, by rw [hall, List.cons_append], ?_, hlater⟩
  rw [List.forall_mem_cons]
  refine ⟨⟨hle.trans hfirstle, ?_⟩, hearlier⟩
  intro hvideo hsame
  have hfirstsame : order first = order back := le_antisymm hfirstle (hsame ▸ hle)
  obtain ⟨hpts, htrack⟩ := order_eq_iff.mp hfirstsame
  have hbefore : before first a = true :=
    before_eq_true.mpr (.inr ⟨hpts.trans (order_eq_iff.mp hsame).1.symm, htrack.trans hvideo⟩)
  rw [hbefore] at hfirst
  cases hfirst

/-- The sort leaves the last sample in order at its end. -/
theorem back_of_getLast? {all : List EncodedSample} {back : EncodedSample}
    (h : (stableSort before all).getLast? = some back) : Back all back := by
  induction all with
  | nil => cases h
  | cons a all ih =>
    have hwhole := List.takeWhile_append_dropWhile (p := fun b => before b a)
      (l := stableSort before all)
    rw [stableSort_cons, List.getLast?_append] at h
    cases hbehind : (stableSort before all).dropWhile fun b => before b a with
    | nil =>
      -- every other sample is before the new one
      rw [hbehind] at h hwhole
      cases h
      apply back_of_all_before
      intro s hs
      have hmem : s ∈ stableSort before all := mem_stableSort.mpr hs
      rw [← hwhole, List.append_nil] at hmem
      have hahead := List.mem_takeWhile_imp hmem
      exact hahead
    | cons first rest =>
      -- the last one stays where it was, behind one that the new sample is not after
      have hmem : first ∈ (stableSort before all).dropWhile fun b => before b a := by
        rw [hbehind]
        exact List.mem_cons_self ..
      have hin : first ∈ all := mem_stableSort.mp ((List.dropWhile_sublist _).subset hmem)
      have hlast : (stableSort before all).getLast? = some back := by
        rw [hbehind, List.getLast?_cons_cons] at h
        rw [← hwhole, List.getLast?_append, hbehind]
        exact h
      exact (ih hlast).cons hin (not_before_of_mem_dropWhile hmem)

section Rebased
variable {all : List EncodedSample} {requested : ℤ} {first last : EncodedSample}

theorem end_rebased (s : EncodedSample) (start : ℤ) :
    ({ s with pts := s.pts - start } : EncodedSample).end = s.end - start := by
  change s.pts - start + s.duration = s.pts + s.duration - start
  omega

variable (hselect : select all requested =
  ((stableSort before all).filter fun s => s.pts ≥ first.pts).map
    fun s => { s with pts := s.pts - first.pts })
include hselect

/-- The file ends where the stored samples from the keyframe on end. -/
theorem mem_ends_select (e : ℤ) :
    e ∈ ends (select all requested) ↔ ∃ s ∈ all, first.pts ≤ s.pts ∧ s.end - first.pts = e := by
  change (∃ s ∈ select all requested, s.end = e) ↔ _
  rw [hselect]
  constructor
  · rintro ⟨moved, hmoved, rfl⟩
    obtain ⟨s, hs, rfl⟩ := List.mem_map.mp hmoved
    obtain ⟨hmem, hle⟩ := List.mem_filter.mp hs
    exact ⟨s, mem_stableSort.mp hmem, of_decide_eq_true hle, (end_rebased s _).symm⟩
  · rintro ⟨s, hs, hle, rfl⟩
    refine ⟨_, List.mem_map_of_mem (List.mem_filter.mpr ⟨mem_stableSort.mpr hs, ?_⟩),
      end_rebased s _⟩
    exact decide_eq_true hle

theorem back_of_select (hfirst : first ∈ all) (h : (select all requested).getLast? = some last) :
    ∃ back ∈ all, Back all back ∧ first.pts ≤ back.pts ∧ last.end = back.end - first.pts := by
  have hin : first ∈ stableSort before all := mem_stableSort.mpr hfirst
  obtain ⟨back, hsorted⟩ := Option.ne_none_iff_exists'.mp
    (mt List.getLast?_eq_none_iff.mp (List.ne_nil_of_mem hin))
  have hback := back_of_getLast? hsorted
  have hlate : first.pts ≤ back.pts := by
    rcases order_le_iff.mp (hback.le first hfirst) with hlt | ⟨hpts, -⟩
    · exact hlt.le
    · exact hpts.le
  have hlast : last = { back with pts := back.pts - first.pts } := by
    obtain ⟨init, hinit⟩ := List.getLast?_eq_some_iff.mp hsorted
    rw [hselect, List.getLast?_map, hinit, List.filter_append,
      List.filter_cons_of_pos (by simpa using hlate), List.filter_nil, List.getLast?_concat] at h
    exact (Option.some_inj.mp h).symm
  refine ⟨back, mem_stableSort.mp (List.mem_of_getLast? hsorted), hback, hlate, ?_⟩
  rw [hlast, end_rebased]

end Rebased

/-- The samples of a replay end last with its last one exactly when no stored sample from its keyframe
on ends after the last one in order. -/
theorem isGreatest_ends {all : List EncodedSample} {requested : ℤ} {last : EncodedSample}
    (h : (select all requested).getLast? = some last) :
    IsGreatest (ends (select all requested)) last.end ↔ BackEndsLast all requested := by
  rcases select_cases all requested with ⟨hempty, -⟩ | ⟨newest, first, hnewest, hchosen, hselect⟩
  · rw [hempty] at h
    cases h
  have hkept : first ∈ (stableSort before all).filter fun s => s.pts ≥ first.pts :=
    List.mem_filter.mpr ⟨mem_stableSort.mpr hchosen.mem, by simp⟩
  rw [rebase_eq hkept fun s hs => of_decide_eq_true (List.mem_filter.mp hs).2] at hselect
  obtain ⟨back, hin, hback, hlate, hend⟩ := back_of_select hselect hchosen.mem h
  have hends := mem_ends_select hselect
  constructor
  · rintro ⟨-, hgreatest⟩ newest' first' back' hnewest' hchosen' hback' s hs hle
    rw [← hnewest.pts_eq hnewest'] at hchosen'
    rw [← hchosen.pts_eq hchosen'] at hle
    rw [← hback.eq hback']
    have hsend := hgreatest ((hends _).mpr ⟨s, hs, hle, rfl⟩)
    omega
  · intro hcondition
    constructor
    · rw [hends]
      exact ⟨back, hin, hlate, hend.symm⟩
    · rintro e he
      obtain ⟨s, hs, hle, rfl⟩ := (hends e).mp he
      have hsend := hcondition newest first back hnewest hchosen hback s hs hle
      omega

section Save
variable {page : CodePage} {seconds : UInt32} {snapshot : Snapshot}
  {description : StreamDescription} {answers : SaveAnswers}

/-- What a save that succeeds has written, and the duration that it reports. -/
theorem save_task_success
    (h : (save_task page seconds snapshot description answers).success = true) :
    ∃ samples last, select_replay_samples snapshot (requested_hns seconds) = some samples ∧
      samples.getLast? = some last ∧
      (save_task page seconds snapshot description answers).duration_hns = last.end := by
  unfold save_task at h ⊢
  cases hselect : select_replay_samples snapshot (requested_hns seconds) with
  | none => simp [hselect] at h
  | some samples =>
    cases hlast : samples.getLast? with
    | none => simp [hselect, hlast] at h
    | some last =>
      refine ⟨samples, last, rfl, hlast, ?_⟩
      simp only [hselect, hlast] at h ⊢
      cases hname : answers.filename with
      | none => simp [hname] at h
      | some filename =>
        simp only [hname] at h ⊢
        cases hopen : Mp4Muxer.open {} description answers.opens with
        | none => simp [hopen] at h
        | some opened =>
          simp only [hopen] at h ⊢
          cases hwrite : write_samples answers.writes 0 samples opened with
          | none => simp [hwrite] at h
          | some muxer =>
            simp only [hwrite] at h ⊢
            split_ifs at h ⊢ <;> rfl

/-- The duration of a save that succeeds is the end of its file exactly when, from the keyframe of the
replay on, no stored sample ends after the last one in order. -/
theorem duration_iff (h : (save_task page seconds snapshot description answers).success = true) :
    (∀ samples ∈ select_replay_samples snapshot (requested_hns seconds),
      IsGreatest (ends samples) (save_task page seconds snapshot description answers).duration_hns) ↔
      ∀ all ∈ snapshot.read, BackEndsLast all (requested_hns seconds) := by
  obtain ⟨samples, last, hsamples, hlast, hduration⟩ := save_task_success h
  rw [hduration, hsamples]
  obtain ⟨parts, hparts, rfl⟩ := Option.map_eq_some_iff.mp hsamples
  have hread : snapshot.read = some parts.flatten := by
    rw [Snapshot.read, hparts, Option.map_some]
  simp only [hread, Option.mem_some_iff, forall_eq']
  exact isGreatest_ends hlast

end Save

theorem replayName_ne_nil : ([97] : WidePath) ≠ [] := List.cons_ne_nil _ _

def goodAnswers : SaveAnswers := ⟨some ⟨[97], replayName_ne_nil⟩, true, fun _ => true, true, []⟩

def withAudio : StreamDescription := { has_audio := true }

def overlapping (length : ℤ) : Snapshot :=
  ⟨[⟨0, 51, .memory [⟨.video, 0, 1, true, [0]⟩, ⟨.audio, 0, length, false, [1]⟩,
    ⟨.video, 50, 1, false, [2]⟩]⟩], 51⟩

theorem duration_overlapping :
    (∀ samples ∈ select_replay_samples (overlapping 20) (requested_hns 60),
      IsGreatest (ends samples)
        (save_task .windows1251 60 (overlapping 20) withAudio goodAnswers).duration_hns) ↔
      ∀ all ∈ (overlapping 20).read, BackEndsLast all (requested_hns 60) :=
  duration_iff (by decide +kernel)

/-- An audio sample that sounds on behind the last frame is not counted. -/
theorem not_alwaysGreatest :
    ¬ ∀ (page : CodePage) (seconds : UInt32) (snapshot : Snapshot)
      (description : StreamDescription) (answers : SaveAnswers),
      (save_task page seconds snapshot description answers).success = true →
      ∀ samples ∈ select_replay_samples snapshot (requested_hns seconds),
        IsGreatest (ends samples)
          (save_task page seconds snapshot description answers).duration_hns := by
  intro hall
  have hsamples : select_replay_samples (overlapping 100) (requested_hns 60) =
      some [⟨.video, 0, 1, true, [0]⟩, ⟨.audio, 0, 100, false, [1]⟩, ⟨.video, 50, 1, false, [2]⟩] := by
    decide +kernel
  have hgreatest := hall .windows1251 60 (overlapping 100) withAudio goodAnswers (by decide +kernel) _
    hsamples
  have hle := hgreatest.2 ⟨⟨.audio, 0, 100, false, [1]⟩, by simp, rfl⟩
  revert hle
  decide +kernel

end GambitRecord.Replay
