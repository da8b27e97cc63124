import Mathlib.Data.List.TakeWhile
import GambitRecord.Library.Runs
import GambitRecord.Recorder.RecordingSession

/-! # What a recording gets

Runs of `start`, `on_sample` and `stop` on one session, with the samples passed
to a recording and those that its muxer took. Any call of the muxer may fail.
Stamps are integers, as those of the code are while none leaves its 64 bits.
-/

namespace GambitRecord.Recorder
open Library Library.Runs

namespace RecordingSession

def start (session : RecordingSession) (metadata : EvidenceMetadata)
    (description : StreamDescription) : RecordingSession × Bool :=
  match session.claim with
  | none => (session, false)
  | some claimed => (claimed.prepare metadata description, true)

def rebased (session : RecordingSession) (sample : EncodedSample) : EncodedSample :=
  { sample with pts := sample.pts - session.base_pts }

/-- The session that gets to the `write` of `on_sample`, when one does. -/
def writer_session (page : CodePage) (session : RecordingSession) (sample : EncodedSample)
    (sink : Sink) : Option RecordingSession :=
  match session.state with
  | .WaitingForKeyframe =>
    if ¬ sample.isVideoKeyframe then none
    else if (begin_recording page session sample sink).2 then none
    else some (begin_recording page session sample sink).1
  | .Recording => some session
  | _ => none

/-- The call of `Mp4Muxer::write` that `on_sample` makes: the muxer and the sample given to it. -/
def write_call (page : CodePage) (session : RecordingSession) (sample : EncodedSample)
    (sink : Sink) : Option (Mp4Muxer × EncodedSample) :=
  match writer_session page session sample sink with
  | none => none
  | some opened =>
    if opened.base_pts ≤ sample.pts then some (opened.muxer.getD {}, opened.rebased sample) else none

/-- A session that can write: it recorded already, or it has just opened its file. -/
def Ready (session : RecordingSession) (sample : EncodedSample) (opened : RecordingSession) :
    Prop :=
  (session.state = .Recording ∧ opened = session) ∨
    (session.state = .WaitingForKeyframe ∧ sample.isVideoKeyframe = true ∧
      opened.state = .Recording ∧ opened.base_pts = sample.pts ∧
      opened.duration_hns = session.duration_hns ∧
      ∃ has_audio, opened.muxer = some { writer := true, has_audio, finalized := false })

/-- Everything `on_sample` can do: the call of the muxer, whether it threw, and the new session. -/
inductive Sampled (session : RecordingSession) (sample : EncodedSample) (sink : Sink) :
    Option (Mp4Muxer × EncodedSample) → Bool → RecordingSession → Prop
  | passed_over
      (h : (session.state = .WaitingForKeyframe ∧ ¬ sample.isVideoKeyframe = true) ∨
        (session.state = .Recording ∧ sample.pts < session.base_pts) ∨
        (session.state ≠ .WaitingForKeyframe ∧ session.state ≠ .Recording)) :
      Sampled session sample sink none false session
  | not_opened {next : RecordingSession} (hwaiting : session.state = .WaitingForKeyframe)
      (herror : next.state = .Error) (hduration : next.duration_hns = session.duration_hns) :
      Sampled session sample sink none true next
  | written {opened : RecordingSession} {after : Mp4Muxer} (hready : Ready session sample opened)
      (hle : opened.base_pts ≤ sample.pts)
      (hwrite : (opened.muxer.getD {}).write (opened.rebased sample) sink.writes = some after) :
      Sampled session sample sink (some (opened.muxer.getD {}, opened.rebased sample)) false
        { opened with
          muxer := some after
          duration_hns := max opened.duration_hns (opened.rebased sample).end }
  | refused {opened next : RecordingSession} (hready : Ready session sample opened)
      (hwrite : (opened.muxer.getD {}).write (opened.rebased sample) sink.writes = none)
      (herror : next.state = .Error) (hduration : next.duration_hns = session.duration_hns) :
      Sampled session sample sink (some (opened.muxer.getD {}, opened.rebased sample)) true next

theorem begin_recording_ready {page : CodePage} {session : RecordingSession}
    {sample : EncodedSample} {sink : Sink} (hstate : session.state = .WaitingForKeyframe)
    (hkey : sample.isVideoKeyframe = true)
    (h : (begin_recording page session sample sink).2 = false) :
    Ready session sample (begin_recording page session sample sink).1 := by
  revert h
  unfold begin_recording
  cases sink.filename with
  | none => simp
  | some filename =>
    dsimp only
    cases hopen : Mp4Muxer.open {} session.pending_description sink.opens with
    | none => simp
    | some muxer =>
      intro _
      have hmuxer : muxer =
          { writer := true, has_audio := session.pending_description.has_audio, finalized := false } := by
        unfold Mp4Muxer.open at hopen
        cases hopens : sink.opens with
        | false => simp [hopens] at hopen
        | true =>
          rw [hopens] at hopen
          exact (Option.some.inj hopen).symm
      exact .inr ⟨hstate, hkey, rfl, rfl, rfl, _, congrArg some hmuxer⟩

theorem begin_recording_duration {page : CodePage} {session : RecordingSession}
    {sample : EncodedSample} {sink : Sink} :
    (begin_recording page session sample sink).1.duration_hns = session.duration_hns := by
  unfold begin_recording
  cases sink.filename with
  | none => rfl
  | some filename =>
    dsimp only
    split <;> rfl

theorem sampled_write {session opened : RecordingSession} {sample : EncodedSample} {sink : Sink}
    (hready : Ready session sample opened) (hle : opened.base_pts ≤ sample.pts) :
    Sampled session sample sink (some (opened.muxer.getD {}, opened.rebased sample))
      (opened.write_sample sample sink).2
      (if (opened.write_sample sample sink).2 then
        { (opened.write_sample sample sink).1 with state := .Error, muxer := none }
      else (opened.write_sample sample sink).1) := by
  have hduration : opened.duration_hns = session.duration_hns := by
    rcases hready with ⟨-, rfl⟩ | ⟨-, -, -, -, hduration, -⟩
    · rfl
    · exact hduration
  unfold write_sample
  rw [if_pos hle]
  cases hwrite : (opened.muxer.getD {}).write (opened.rebased sample) sink.writes with
  | none =>
    have hwrite' : (opened.muxer.getD {}).write
        { sample with pts := sample.pts - opened.base_pts } sink.writes = none := hwrite
    simp only [hwrite', if_true]
    exact .refused hready hwrite rfl hduration
  | some after =>
    have hwrite' : (opened.muxer.getD {}).write
        { sample with pts := sample.pts - opened.base_pts } sink.writes = some after := hwrite
    simp only [hwrite', Bool.false_eq_true, if_false]
    exact .written hready hle hwrite

theorem on_sample_cases (page : CodePage) (session : RecordingSession) (sample : EncodedSample)
    (sink : Sink) :
    Sampled session sample sink (write_call page session sample sink)
      (take_sample page session sample sink).2 (on_sample page session sample sink) := by
  unfold on_sample take_sample write_call writer_session
  cases hstate : session.state with
  | WaitingForKeyframe =>
    by_cases hkey : sample.isVideoKeyframe = true
    · cases hopened : (begin_recording page session sample sink).2 with
      | true =>
        simp only [hkey, hopened, not_true_eq_false, if_true, if_false]
        exact .not_opened hstate rfl begin_recording_duration
      | false =>
        have hready := begin_recording_ready hstate hkey hopened
        have hbase : (begin_recording page session sample sink).1.base_pts ≤ sample.pts := by
          rcases hready with ⟨hrec, -⟩ | ⟨-, -, -, hbase, -⟩
          · rw [hstate] at hrec
            cases hrec
          · exact hbase.le
        simp only [hkey, hopened, not_true_eq_false, Bool.false_eq_true, if_false, if_pos hbase]
        exact sampled_write hready hbase
    · simp only [hkey, not_false_eq_true, if_true, Bool.false_eq_true, if_false]
      exact .passed_over (.inl ⟨hstate, hkey⟩)
  | Recording =>
    by_cases hle : session.base_pts ≤ sample.pts
    · simp only [if_pos hle]
      exact sampled_write (.inl ⟨hstate, rfl⟩) hle
    · simp only [if_neg hle, write_sample, Bool.false_eq_true, if_false]
      exact .passed_over (.inr (.inl ⟨hstate, by omega⟩))
  | Stopped | Stopping | Error =>
    simp only [Bool.false_eq_true, if_false]
    exact .passed_over (.inr (.inr (by simp [hstate])))

end RecordingSession

/-- What a recording is to get of the samples passed to it: from the first video keyframe on, those
that begin no earlier, in time from that keyframe. -/
def due (passed : List EncodedSample) : List EncodedSample :=
  match passed.dropWhile fun sample => ¬ sample.isVideoKeyframe with
  | [] => []
  | key :: rest =>
    ((key :: rest).filter fun sample => key.pts ≤ sample.pts).map
      fun sample => { sample with pts := sample.pts - key.pts }

def longest (samples : List EncodedSample) : ℤ := ((samples.map EncodedSample.end).max?).getD 0

/-- A session with the samples passed to its last recording until that was stopped or failed, and
those that the calls of `Mp4Muxer::write` took. -/
structure Take where
  session : RecordingSession := {}
  ongoing : Bool := false
  passed : List EncodedSample := []
  handed : List EncodedSample := []
  deriving DecidableEq

namespace Take

inductive Call where
  | start (metadata : EvidenceMetadata) (description : StreamDescription)
  | on_sample (sample : EncodedSample) (sink : Sink)
  | stop (finalizes : Bool)

/-- A recording fails with the first sample that throws. -/
def step (page : CodePage) (take : Take) : Call → Option Take
  | .start metadata description =>
    if (take.session.start metadata description).2 then
      some { session := (take.session.start metadata description).1, ongoing := true }
    else some { take with session := (take.session.start metadata description).1 }
  | .on_sample sample sink =>
    let failed := (take.session.take_sample page sample sink).2
    some
      { session := take.session.on_sample page sample sink
        ongoing := take.ongoing && !failed
        passed := if take.ongoing && !failed then take.passed ++ [sample] else take.passed
        handed := match take.session.write_call page sample sink with
          | none => take.handed
          | some (muxer, given) =>
            if (muxer.write given sink.writes).isSome then take.handed ++ [given] else take.handed }
  | .stop finalizes =>
    some { take with session := (take.session.stop page finalizes).1, ongoing := false }

def machine (page : CodePage) : Machine Take Call where
  init := {}
  step := step page

def Call.Forward : Call → Prop
  | .on_sample sample _ => 0 ≤ sample.duration
  | _ => True

instance : DecidablePred Call.Forward
  | .on_sample sample _ => inferInstanceAs (Decidable (0 ≤ sample.duration))
  | .start _ _ => instDecidableTrue
  | .stop _ => instDecidableTrue

theorem due_of_waiting {passed : List EncodedSample}
    (h : ∀ s ∈ passed, ¬ s.isVideoKeyframe = true) : due passed = [] := by
  unfold due
  rw [List.dropWhile_eq_nil_iff.mpr]
  intro s hs
  simpa using h s hs

theorem due_split {skipped rest : List EncodedSample} {key : EncodedSample}
    (hskipped : ∀ s ∈ skipped, ¬ s.isVideoKeyframe = true) (hkey : key.isVideoKeyframe = true) :
    due (skipped ++ key :: rest) =
      ((key :: rest).filter fun sample => key.pts ≤ sample.pts).map
        fun sample => { sample with pts := sample.pts - key.pts } := by
  have hdrop : (skipped ++ key :: rest).dropWhile (fun sample => ¬ sample.isVideoKeyframe) =
      key :: rest := by
    rw [List.dropWhile_append_of_pos (by simpa using hskipped), List.dropWhile_cons_of_neg]
    simp [hkey]
  unfold due
  simp only [hdrop]

theorem longest_concat {samples : List EncodedSample} {sample : EncodedSample}
    (h : 0 ≤ sample.end) :
    longest (samples ++ [sample]) = max (longest samples) sample.end := by
  unfold longest
  rw [List.map_append]
  cases hmap : samples.map EncodedSample.end with
  | nil => simpa using h
  | cons e es =>
    change ((e :: (es ++ [sample.end])).max?).getD 0 = _
    rw [List.max?_cons', List.max?_cons', List.foldl_append]
    rfl

/-- A recording waits for a keyframe, or it records into an open muxer, or it has ended. -/
inductive Phase (take : Take) : Prop
  | waiting (hstate : take.session.state = .WaitingForKeyframe) (hongoing : take.ongoing = true)
      (hpassed : ∀ s ∈ take.passed, ¬ s.isVideoKeyframe = true)
  | recording {muxer : Mp4Muxer} {skipped rest : List EncodedSample} {key : EncodedSample}
      (hstate : take.session.state = .Recording) (hongoing : take.ongoing = true)
      (hmuxer : take.session.muxer = some muxer) (hwriter : muxer.writer = true)
      (hopen : muxer.finalized = false)
      (hwritten : muxer.written =
        take.handed.filter fun s => s.track = .video ∨ muxer.has_audio = true)
      (hpassed : take.passed = skipped ++ key :: rest)
      (hskipped : ∀ s ∈ skipped, ¬ s.isVideoKeyframe = true)
      (hkey : key.isVideoKeyframe = true) (hbase : take.session.base_pts = key.pts)
  | ended (hstate : take.session.state ≠ .WaitingForKeyframe ∧ take.session.state ≠ .Recording)
      (hongoing : take.ongoing = false)

structure Inv (take : Take) : Prop where
  handed : take.handed = due take.passed
  duration : take.session.duration_hns = longest take.handed
  phase : Phase take

theorem inv_init (page : CodePage) : Inv (machine page).init where
  handed := rfl
  duration := rfl
  phase := .ended (by simp [machine]) rfl

theorem write_some {muxer after : Mp4Muxer} {given : EncodedSample} {writes : Bool}
    (h : muxer.write given writes = some after) :
    after.writer = muxer.writer ∧ after.finalized = muxer.finalized ∧
      after.has_audio = muxer.has_audio ∧
      after.written = muxer.written ++
        [given].filter fun s => s.track = .video ∨ muxer.has_audio = true := by
  unfold Mp4Muxer.write at h
  split_ifs at h with _ _ hstream
  · cases h
    refine ⟨rfl, rfl, rfl, ?_⟩
    rw [List.filter_cons_of_pos (by simpa using hstream), List.filter_nil]
  · cases h
    refine ⟨rfl, rfl, rfl, ?_⟩
    rw [List.filter_cons_of_neg (by simpa using hstream), List.filter_nil, List.append_nil]

theorem phase_written {take : Take} {sample : EncodedSample} {sink : Sink}
    {opened : RecordingSession} {after : Mp4Muxer} (h : Inv take)
    (hready : RecordingSession.Ready take.session sample opened)
    (hle : opened.base_pts ≤ sample.pts)
    (hwrite : (opened.muxer.getD {}).write (opened.rebased sample) sink.writes = some after) :
    take.ongoing = true ∧
      due (take.passed ++ [sample]) = take.handed ++ [opened.rebased sample] ∧
      opened.duration_hns = take.session.duration_hns ∧
      Phase
        { session :=
            { opened with
              muxer := some after
              duration_hns := max opened.duration_hns (opened.rebased sample).end }
          ongoing := true
          passed := take.passed ++ [sample]
          handed := take.handed ++ [opened.rebased sample] } := by
  rcases write_some hwrite with ⟨hwriter, hopen, haudio, hwritten⟩
  rcases hready with ⟨hstate, rfl⟩ | ⟨hstate, hkey, hstate', hbase, hduration, has_audio, hmuxer⟩
  · cases h.phase with
    | waiting hwaiting => rw [hwaiting] at hstate; cases hstate
    | ended hended => exact absurd hstate hended.2
    | recording hrecording hongoing hmuxer hwriter' hopen' hwritten' hpassed hskipped hkey hbase =>
      rename_i muxer skipped rest key
      rw [hmuxer, Option.getD_some] at hwriter hopen haudio hwritten
      have hpassed' : take.passed ++ [sample] = skipped ++ key :: (rest ++ [sample]) := by
        rw [hpassed, List.append_assoc, List.cons_append]
      refine ⟨hongoing, ?_, rfl, .recording hstate rfl rfl (hwriter.trans hwriter')
        (hopen.trans hopen') ?_ hpassed' hskipped hkey hbase⟩
      · rw [h.handed, hpassed', hpassed, due_split hskipped hkey, due_split hskipped hkey,
          ← List.cons_append, List.filter_append, List.map_append]
        have hlate : key.pts ≤ sample.pts := hbase ▸ hle
        have hfilter : [sample].filter (fun s => key.pts ≤ s.pts) = [sample] := by simp [hlate]
        rw [hfilter, List.map_singleton, RecordingSession.rebased, hbase]
      · rw [hwritten, hwritten', List.filter_append, haudio]
  · cases h.phase with
    | recording hrecording => rw [hrecording] at hstate; cases hstate
    | ended hended => exact absurd hstate hended.1
    | waiting _ hongoing hpassed =>
      have hnone : take.handed = [] := by rw [h.handed, due_of_waiting hpassed]
      rw [hmuxer, Option.getD_some] at hwriter hopen haudio hwritten
      have hsplit : take.passed ++ [sample] = take.passed ++ sample :: [] := rfl
      refine ⟨hongoing, ?_, hduration, .recording hstate' rfl rfl hwriter hopen ?_ hsplit hpassed
        hkey hbase⟩
      · rw [due_split hpassed hkey, hnone, RecordingSession.rebased, hbase]
        simp
      · rw [hwritten, hnone, haudio]
        rfl

/-- A sample that is passed over is not due. -/
theorem inv_passed_over {take : Take} {sample : EncodedSample} (h : Inv take)
    (hover : (take.session.state = .WaitingForKeyframe ∧ ¬ sample.isVideoKeyframe = true) ∨
      (take.session.state = .Recording ∧ sample.pts < take.session.base_pts) ∨
      (take.session.state ≠ .WaitingForKeyframe ∧ take.session.state ≠ .Recording)) :
    Inv { take with passed := if take.ongoing then take.passed ++ [sample] else take.passed } := by
  cases h.phase with
  | waiting hstate hongoing hpassed =>
    have hkey : ¬ sample.isVideoKeyframe = true := by
      rcases hover with ⟨-, hkey⟩ | ⟨hrec, -⟩ | ⟨hne, -⟩
      · exact hkey
      · rw [hstate] at hrec
        cases hrec
      · exact absurd hstate hne
    have hpassed' : ∀ s ∈ take.passed ++ [sample], ¬ s.isVideoKeyframe = true := by
      intro s hs
      rcases List.mem_append.mp hs with hs | hs
      · exact hpassed s hs
      · rw [List.mem_singleton.mp hs]
        exact hkey
    rw [hongoing, if_pos rfl]
    refine ⟨?_, h.duration, .waiting hstate rfl hpassed'⟩
    change take.handed = due (take.passed ++ [sample])
    rw [h.handed, due_of_waiting hpassed, due_of_waiting hpassed']
  | recording hstate hongoing hmuxer hwriter hopen hwritten hpassed hskipped hkey hbase =>
    rename_i muxer skipped rest key
    have hearly : ¬ key.pts ≤ sample.pts := by
      rcases hover with ⟨hwait, -⟩ | ⟨-, hlt⟩ | ⟨-, hne⟩
      · rw [hstate] at hwait
        cases hwait
      · omega
      · exact absurd hstate hne
    have hpassed' : take.passed ++ [sample] = skipped ++ key :: (rest ++ [sample]) := by
      rw [hpassed, List.append_assoc, List.cons_append]
    rw [hongoing, if_pos rfl]
    refine ⟨?_, h.duration,
      .recording hstate rfl hmuxer hwriter hopen hwritten hpassed' hskipped hkey hbase⟩
    change take.handed = due (take.passed ++ [sample])
    have hfilter : [sample].filter (fun s => key.pts ≤ s.pts) = [] := by simp [hearly]
    rw [h.handed, hpassed', hpassed, due_split hskipped hkey, due_split hskipped hkey,
      ← List.cons_append, List.filter_append, hfilter, List.append_nil]
  | ended hstate hongoing =>
    rw [hongoing]
    exact ⟨h.handed, h.duration, .ended hstate rfl⟩

/-- A sample that throws ends the recording and hands nothing to the muxer. -/
theorem inv_failed {take : Take} {next : RecordingSession} (h : Inv take)
    (herror : next.state = .Error) (hduration : next.duration_hns = take.session.duration_hns) :
    Inv { take with session := next, ongoing := false } :=
  ⟨h.handed, hduration.trans h.duration, .ended (by simp [herror]) rfl⟩

theorem inv_sample {page : CodePage} {take : Take} {sample : EncodedSample} {sink : Sink}
    (h : Inv take) (hdur : 0 ≤ sample.duration) {t : Take}
    (hstep : step page take (.on_sample sample sink) = some t) : Inv t := by
  have hcases := RecordingSession.on_sample_cases page take.session sample sink
  cases hstep
  generalize take.session.write_call page sample sink = call at hcases
  generalize (take.session.take_sample page sample sink).2 = threw at hcases
  generalize take.session.on_sample page sample sink = next at hcases
  cases hcases with
  | passed_over hover =>
    simp only [Bool.not_false, Bool.and_true]
    exact inv_passed_over h hover
  | not_opened hwaiting herror hduration =>
    simp only [Bool.not_true, Bool.and_false, Bool.false_eq_true, if_false]
    exact inv_failed h herror hduration
  | refused hready hwrite herror hduration =>
    simp only [Bool.not_true, Bool.and_false, Bool.false_eq_true, if_false, hwrite,
      Option.isSome_none]
    exact inv_failed h herror hduration
  | written hready hle hwrite =>
    rename_i opened after
    rcases phase_written h hready hle hwrite with ⟨hongoing, hdue, hduration, hphase⟩
    have hend : 0 ≤ (opened.rebased sample).end := by
      change 0 ≤ sample.pts - opened.base_pts + sample.duration
      omega
    simp only [hongoing, Bool.not_false, Bool.and_true, if_true, hwrite, Option.isSome_some]
    refine ⟨hdue.symm, ?_, hphase⟩
    rw [longest_concat hend, hduration, h.duration]

theorem inv_step {page : CodePage} {take t : Take} {call : Call} (h : Inv take)
    (hforward : call.Forward) (hstep : step page take call = some t) : Inv t := by
  cases call with
  | on_sample sample sink => exact inv_sample h hforward hstep
  | start metadata description =>
    unfold step RecordingSession.start RecordingSession.claim at hstep
    by_cases hstopped : take.session.state = .Stopped
    · rw [if_pos hstopped] at hstep
      cases hstep
      exact ⟨rfl, rfl, .waiting rfl rfl (by simp)⟩
    · rw [if_neg hstopped] at hstep
      cases hstep
      exact h
  | stop finalizes =>
    cases hstep
    unfold RecordingSession.stop RecordingSession.end_stop RecordingSession.begin_stop
    by_cases hstopped : take.session.state = .Stopped
    · rw [if_pos hstopped]
      exact ⟨h.handed, h.duration, .ended (by simp [hstopped]) rfl⟩
    · rw [if_neg hstopped, if_neg hstopped]
      split_ifs
      · exact ⟨h.handed, h.duration, .ended (by simp) rfl⟩
      · exact ⟨h.handed, h.duration, .ended (by simp) rfl⟩

/-- What a recording has got: the samples due, from 0 on; its length is the largest end; and its
sink writer has those of them that it has a stream for. -/
structure Gets (take : Take) : Prop where
  handed : take.handed = due take.passed
  first : ∀ first ∈ take.handed.head?, first.pts = 0 ∧ first.isVideoKeyframe = true
  nonneg : ∀ s ∈ take.handed, 0 ≤ s.pts
  duration : take.session.duration_hns = longest take.handed
  written : take.session.state = .Recording → ∃ muxer, take.session.muxer = some muxer ∧
    muxer.written = take.handed.filter fun s => s.track = .video ∨ muxer.has_audio = true

theorem due_nonneg (passed : List EncodedSample) : ∀ s ∈ due passed, 0 ≤ s.pts := by
  intro s hs
  unfold due at hs
  cases hdrop : passed.dropWhile fun sample => ¬ sample.isVideoKeyframe with
  | nil =>
    rw [hdrop] at hs
    cases hs
  | cons key rest =>
    rw [hdrop] at hs
    rcases List.mem_map.mp hs with ⟨sample, hsample, rfl⟩
    have hle := of_decide_eq_true (List.mem_filter.mp hsample).2
    change 0 ≤ sample.pts - key.pts
    omega

theorem due_head (passed : List EncodedSample) :
    ∀ first ∈ (due passed).head?, first.pts = 0 ∧ first.isVideoKeyframe = true := by
  intro first hfirst
  unfold due at hfirst
  cases hdrop : passed.dropWhile fun sample => ¬ sample.isVideoKeyframe with
  | nil =>
    rw [hdrop] at hfirst
    cases hfirst
  | cons key rest =>
    have hhead := List.head?_dropWhile_not
      (fun sample : EncodedSample => decide ¬ sample.isVideoKeyframe = true) passed
    rw [hdrop] at hfirst hhead
    have hfilter : (key :: rest).filter (fun s => key.pts ≤ s.pts) =
        key :: rest.filter fun s => key.pts ≤ s.pts := List.filter_cons_of_pos (by simp)
    simp only [hfilter] at hfirst
    cases hfirst
    have hkey : key.isVideoKeyframe = true := by simpa using hhead
    exact ⟨Int.sub_self _, hkey⟩

/-- After every run of calls, whatever the muxer refuses: `start` returns true exactly when the
session is stopped, `write` finds an open and unfinalized muxer, and the recording has got what it
is due. -/
theorem gets_of_run (page : CodePage) (calls : List Call) (take : Take)
    (hforward : ∀ call ∈ calls, call.Forward) (hrun : (machine page).run calls = some take) :
    (∀ metadata description, (take.session.start metadata description).2 = true ↔
      take.session.state = .Stopped) ∧
    (∀ sample sink, ∀ call ∈ take.session.write_call page sample sink,
      call.1.writer = true ∧ call.1.finalized = false) ∧
    take.Gets := by
  have hinv : Inv take := Machine.invariant_along (I := Inv) (C := fun _ call => call.Forward)
    (fun s e t hs hc h => inv_step hs hc h) (Machine.along_of_forall hforward) hrun (inv_init page)
  have hopened : ∀ {sample : EncodedSample} {opened : RecordingSession},
      RecordingSession.Ready take.session sample opened →
      (opened.muxer.getD {}).writer = true ∧ (opened.muxer.getD {}).finalized = false := by
    rintro sample opened (⟨hstate, rfl⟩ | ⟨-, -, -, -, -, has_audio, hmuxer⟩)
    · cases hinv.phase with
      | waiting hwaiting => rw [hwaiting] at hstate; cases hstate
      | ended hended => exact absurd hstate hended.2
      | recording _ _ hmuxer hwriter hopen =>
        rw [hmuxer]
        exact ⟨hwriter, hopen⟩
    · rw [hmuxer]
      exact ⟨rfl, rfl⟩
  refine ⟨fun metadata description => ?_, fun sample sink call hcall => ?_, hinv.handed, ?_, ?_,
    hinv.duration, fun hstate => ?_⟩
  · unfold RecordingSession.start RecordingSession.claim
    by_cases hstopped : take.session.state = .Stopped
    · simp [hstopped]
    · simp [hstopped]
  · have hcases := RecordingSession.on_sample_cases page take.session sample sink
    rw [Option.mem_def.mp hcall] at hcases
    generalize (take.session.take_sample page sample sink).2 = threw at hcases
    generalize take.session.on_sample page sample sink = next at hcases
    cases hcases with
    | written hready => exact hopened hready
    | refused hready => exact hopened hready
  · rw [hinv.handed]
    exact due_head _
  · rw [hinv.handed]
    exact due_nonneg _
  · cases hinv.phase with
    | waiting hwaiting => rw [hwaiting] at hstate; cases hstate
    | ended hended => exact absurd hstate hended.2
    | recording _ _ hmuxer _ _ hwritten => exact ⟨_, hmuxer, hwritten⟩

theorem filename_ne_nil : ([97] : WidePath) ≠ [] := List.cons_ne_nil _ _

def workingSink (writes : Bool) : Sink := ⟨some ⟨[97], filename_ne_nil⟩, true, writes⟩

/-- Audio before and after the keyframe, a write that fails, a stop, and a second recording whose
file cannot be finalized. -/
def failedWriteRun : List Call :=
  [.start {} ⟨1280, 720, true⟩, .on_sample ⟨.audio, 4, 1, false, [0]⟩ (workingSink true),
    .on_sample ⟨.video, 5, 1, true, [0]⟩ (workingSink true),
    .on_sample ⟨.audio, 4, 1, false, [0]⟩ (workingSink true),
    .on_sample ⟨.audio, 7, 3, false, [0]⟩ (workingSink true),
    .on_sample ⟨.video, 6, 1, false, [0]⟩ (workingSink false), .stop true,
    .start {} ⟨1280, 720, false⟩, .on_sample ⟨.video, 9, 1, true, [0]⟩ (workingSink true),
    .on_sample ⟨.audio, 9, 2, false, [0]⟩ (workingSink true), .stop false]

theorem failedWriteRun_accepted : ((machine .windows1251).run failedWriteRun).isSome := by
  decide +kernel

theorem gets_failedWriteRun :
    (∀ metadata description,
      ((((machine .windows1251).run failedWriteRun).get failedWriteRun_accepted).session.start
        metadata description).2 = true ↔
      (((machine .windows1251).run failedWriteRun).get failedWriteRun_accepted).session.state =
        .Stopped) ∧
    (∀ sample sink, ∀ call ∈
        (((machine .windows1251).run failedWriteRun).get
          failedWriteRun_accepted).session.write_call .windows1251 sample sink,
      call.1.writer = true ∧ call.1.finalized = false) ∧
    (((machine .windows1251).run failedWriteRun).get failedWriteRun_accepted).Gets :=
  gets_of_run .windows1251 failedWriteRun _ (by decide +kernel) (Option.some_get _).symm

end Take
end GambitRecord.Recorder
