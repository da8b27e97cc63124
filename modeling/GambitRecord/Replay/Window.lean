import GambitRecord.Replay.Retention

/-! # The retained window

Runs that may also clear the store. What the segments hold is a suffix of the
samples since the last clear, whatever their time stamps. With samples close to
the last video keyframe its length in time stays bounded. Stamps and ends are
integers, as those of the code are while no sum or difference leaves its 64 bits.
-/

namespace GambitRecord.Replay
open Library Library.Runs Recorder

inductive Operation where
  | append (sample : EncodedSample)
  | snapshot
  | clear
  deriving DecidableEq

/-- An appended sample does not end before it begins. -/
def Operation.Forward : Operation → Prop
  | .append sample => 0 ≤ sample.duration
  | _ => True

instance : DecidablePred Operation.Forward
  | .append sample => inferInstanceAs (Decidable (0 ≤ sample.duration))
  | .snapshot => instDecidableTrue
  | .clear => instDecidableTrue

/-- An appended sample fits the fields of its record. -/
def Operation.Fits : Operation → Prop
  | .append sample => Storable sample
  | _ => True

instance : DecidablePred Operation.Fits
  | .append sample => inferInstanceAs (Decidable (Storable sample))
  | .snapshot => instDecidableTrue
  | .clear => instDecidableTrue

namespace SegmentStore

def perform (store : SegmentStore) : Operation → SegmentStore
  | .append sample => store.append sample
  | .snapshot => store.snapshot.2
  | .clear => store.clear

def Holds (store : SegmentStore) (samples : List EncodedSample) : Prop :=
  ∃ parts, List.Forall₂ Segment.Holds store.segments parts ∧ parts.flatten = samples

/-- What reading every segment gives; `none` when one cannot be read. -/
def contents (store : SegmentStore) : Option (List EncodedSample) :=
  (store.segments.mapM Segment.read).map List.flatten

@[simp] theorem segments_clear (store : SegmentStore) : store.clear.segments = [] := rfl

theorem available_hns_snapshot (store : SegmentStore) :
    store.snapshot.1.available_hns = store.available_hns := by
  unfold snapshot available_hns segments
  cases store.active with
  | none => cases hs : store.sealed <;> cases hl : store.sealed.getLast? <;> simp_all
  | some active =>
    simp only [Option.toList_some, List.getLast?_concat]
    cases store.sealed <;> simp

theorem available_hns_le {store : SegmentStore} {bound : ℤ} (hb : 0 ≤ bound)
    (h : ∀ front ∈ store.segments.head?, ∀ back ∈ store.segments.getLast?,
      back.last_pts - front.first_pts ≤ bound) : store.available_hns ≤ bound := by
  rw [← available_hns_snapshot, snapshot]
  cases hfront : store.segments.head? with
  | none => exact hb
  | some front =>
    cases hback : store.segments.getLast? with
    | none => exact hb
    | some back => exact max_le hb (h front hfront back hback)

end SegmentStore

/-- A segment whose samples fit their records. -/
def Readable (segment : Segment) : Prop :=
  ∃ samples, segment.Holds samples ∧ ∀ s ∈ samples, Storable s

theorem readable_perform {store : SegmentStore} {op : Operation} (hfits : op.Fits)
    (h : ∀ segment ∈ store.segments, Readable segment) :
    ∀ segment ∈ (store.perform op).segments, Readable segment := by
  cases op with
  | clear => exact fun segment hs => absurd hs (by simp [SegmentStore.perform])
  | snapshot =>
    change ∀ segment ∈ store.seal.segments, _
    rw [SegmentStore.segments_seal]
    exact h
  | append sample =>
    change ∀ segment ∈ (store.append sample).segments, _
    by_cases hne : sample.bytes = []
    · rw [SegmentStore.append_empty hne]
      exact h
    · rcases store.append_cases hne with ⟨sealed, active, hplaced, hsealed, hactive, -⟩
      have hsample : ∀ s ∈ [sample], Storable s := fun s hs => List.mem_singleton.mp hs ▸ hfits
      have hall : (∀ segment ∈ sealed, Readable segment) ∧ Readable active := by
        cases hplaced with
        | joined hold hshort =>
          rename_i old
          refine ⟨fun segment hs => h segment (List.mem_append_left _ hs), ?_⟩
          rcases h old (by simp [SegmentStore.segments, hold]) with ⟨samples, hholds, hstorable⟩
          refine ⟨samples ++ [sample], hholds.write sample, fun s hs => ?_⟩
          exact (List.mem_append.mp hs).elim (hstorable s) (hsample s)
        | opened hempties hok _ =>
          refine ⟨fun segment hs => ?_, [sample], hok.holds, hsample⟩
          rcases List.mem_append.mp hs with hs | hs
          · exact h segment hs
          · exact ⟨[], (hempties segment hs).1.holds, by simp⟩
      intro segment hs
      rw [SegmentStore.segments, hsealed, hactive] at hs
      rcases List.mem_append.mp hs with hs | hs
      · exact hall.1 segment (List.dropWhile_sublist _ |>.subset hs)
      · rw [Option.toList_some, List.mem_singleton] at hs
        rw [hs]
        exact hall.2

namespace StoreRun

def perform (run : StoreRun) : Operation → Option StoreRun
  | .append sample => some ⟨run.store.append sample, run.appended ++ stored sample⟩
  | .snapshot => some ⟨run.store.snapshot.2, run.appended⟩
  | .clear => some ⟨run.store.clear, []⟩

/-- A fresh store, with the samples stored since the last clear. -/
def operations (retention_hns segment_hns : ℤ) (disk : Bool) : Machine StoreRun Operation where
  init := ⟨{ retention_hns, segment_hns, disk }, []⟩
  step := perform

def largestEnd (samples : List EncodedSample) : Option ℤ := (samples.map EncodedSample.end).max?

structure Kept (retention_hns : ℤ) (disk : Bool) (run : StoreRun) : Prop where
  retention : run.store.retention_hns = retention_hns
  mode : run.store.disk = disk
  durations : ∀ s ∈ run.appended, 0 ≤ s.duration
  retains : ∃ evicted held, run.Retains evicted held

theorem kept_perform {retention_hns : ℤ} {disk : Bool} {s t : StoreRun} {op : Operation}
    (hs : Kept retention_hns disk s) (hdur : op.Forward)
    (h : s.perform op = some t) : Kept retention_hns disk t := by
  rcases hs.retains with ⟨evicted, held, hretains⟩
  cases op with
  | clear =>
    cases h
    exact ⟨hs.retention, hs.mode, by simp, [], [], rfl, by simp, rfl, by simp, by simp⟩
  | snapshot =>
    cases h
    exact ⟨hs.retention, hs.mode, hs.durations, evicted, held, retains_snapshot hretains⟩
  | append sample =>
    rcases step_append h with rfl | ⟨hne, rfl⟩
    · exact hs
    · have hdurs : ∀ x ∈ s.appended ++ [sample], 0 ≤ x.duration := by
        intro x hx
        rcases List.mem_append.mp hx with hx | hx
        · exact hs.durations x hx
        · rw [List.mem_singleton.mp hx]
          exact hdur
      rcases retains_append hretains hne hdurs with ⟨evicted', held', hretains', -⟩
      rcases s.store.append_cases hne with ⟨_, _, -, -, -, hret, -, hdisk⟩
      exact ⟨hret.trans hs.retention, hdisk.trans hs.mode, hdurs, evicted', held', hretains'⟩

theorem kept_run {retention_hns segment_hns : ℤ} {disk : Bool} {ops : List Operation}
    {run : StoreRun} (hdur : ∀ op ∈ ops, op.Forward)
    (hrun : (operations retention_hns segment_hns disk).run ops = some run) :
    Kept retention_hns disk run := by
  apply Machine.invariant_along (I := Kept retention_hns disk) (C := fun _ op => op.Forward)
    (fun s e t hs hc h => kept_perform hs hc h) (Machine.along_of_forall hdur) hrun
  exact ⟨rfl, rfl, by simp [operations], [], [], rfl, by simp, rfl, by simp, by simp⟩

theorem Retains.holds {run : StoreRun} {evicted : List EncodedSample}
    {held : List (Segment × List EncodedSample)} (h : run.Retains evicted held) :
    run.store.Holds (held.map Prod.snd).flatten := by
  refine ⟨held.map Prod.snd, ?_, rfl⟩
  rw [h.segments, List.forall₂_map_left_iff, List.forall₂_map_right_iff, List.forall₂_same]
  intro p hp
  exact (h.ok p hp).holds

theorem Retains.contents {run : StoreRun} {evicted : List EncodedSample}
    {held : List (Segment × List EncodedSample)} (h : run.Retains evicted held)
    (hfits : run.store.disk = true → ∀ s ∈ (held.map Prod.snd).flatten, Storable s) :
    run.store.contents = some (held.map Prod.snd).flatten := by
  have hread : ∀ p ∈ held, p.1.read = some p.2 := by
    intro p hp
    apply (h.ok p hp).holds.read
    intro hdisk s hs
    apply hfits ((h.ok p hp).mode.symm.trans hdisk)
    exact List.mem_flatten.mpr ⟨p.2, List.mem_map.mpr ⟨p, hp, rfl⟩, hs⟩
  rw [SegmentStore.contents, h.segments, mapM_read hread]
  rfl

theorem Retains.early {run : StoreRun} {evicted : List EncodedSample}
    {held : List (Segment × List EncodedSample)} (h : run.Retains evicted held) :
    ∀ largest ∈ largestEnd run.appended, ∀ s ∈ evicted,
      s.end < largest - run.store.retention_hns := by
  intro largest hlargest s hs
  rcases h.evicted s hs with ⟨newest, hnewest, hlt⟩
  have hle := (List.max?_eq_some_iff.mp hlargest).2 newest.end
    (List.mem_map.mpr ⟨newest, hnewest, rfl⟩)
  omega

/-- In every run the segments hold a suffix of the samples since the last clear, and every sample
in front of it has ended more than the retention before the largest end. -/
theorem suffix_of_run (retention_hns segment_hns : ℤ) (disk : Bool) (ops : List Operation)
    (run : StoreRun) (hdur : ∀ op ∈ ops, op.Forward)
    (hrun : (operations retention_hns segment_hns disk).run ops = some run) :
    ∃ evicted retained, run.appended = evicted ++ retained ∧ run.store.Holds retained ∧
      ((disk = true → ∀ s ∈ retained, Storable s) → run.store.contents = some retained) ∧
      ∀ largest ∈ largestEnd run.appended, ∀ s ∈ evicted, s.end < largest - retention_hns := by
  have hkept := kept_run hdur hrun
  rcases hkept.retains with ⟨evicted, held, h⟩
  refine ⟨evicted, (held.map Prod.snd).flatten, h.appended, h.holds, fun hfits => ?_, ?_⟩
  · apply h.contents
    rw [hkept.mode]
    exact hfits
  · have hearly := h.early
    rw [hkept.retention] at hearly
    exact hearly

def clearedRun : List Operation :=
  [.append ⟨.video, 9, 1, true, [0]⟩, .clear, .append ⟨.video, 2, 1, true, [0]⟩,
    .append ⟨.audio, 0, 1, false, [0]⟩, .snapshot, .append ⟨.audio, 1, 1, false, [0]⟩,
    .append ⟨.video, 4, 1, true, [0]⟩, .append ⟨.video, 8, 1, true, [0]⟩,
    .append ⟨.audio, 3, 1, false, [0]⟩]

theorem clearedRun_accepted : ((operations 4 2 true).run clearedRun).isSome := by
  decide +kernel

theorem suffix_clearedRun :
    ∃ evicted retained,
      (((operations 4 2 true).run clearedRun).get clearedRun_accepted).appended =
        evicted ++ retained ∧
      (((operations 4 2 true).run clearedRun).get clearedRun_accepted).store.Holds retained ∧
      ((true = true → ∀ s ∈ retained, Storable s) →
        (((operations 4 2 true).run clearedRun).get clearedRun_accepted).store.contents =
          some retained) ∧
      ∀ largest ∈
          largestEnd (((operations 4 2 true).run clearedRun).get clearedRun_accepted).appended,
        ∀ s ∈ evicted, s.end < largest - 4 :=
  suffix_of_run 4 2 true clearedRun _ (by decide +kernel) (Option.some_get _).symm

def lastKeyframe (samples : List EncodedSample) : Option ℤ :=
  ((samples.filter EncodedSample.isVideoKeyframe).getLast?).map EncodedSample.pts

/-- A sample begins at most `lead` before the last video keyframe, which may be itself, and ends at
most `reach` after it. -/
def Near (lead reach : ℤ) (run : StoreRun) : Event → Prop
  | .append sample => sample.bytes ≠ [] → 0 ≤ sample.duration ∧
      ∃ key ∈ lastKeyframe (run.appended ++ [sample]),
        key - lead ≤ sample.pts ∧ sample.end ≤ key + reach
  | .snapshot => True

instance (lead reach : ℤ) (run : StoreRun) : DecidablePred (Near lead reach run)
  | .append sample =>
    decidable_of_iff (sample.bytes ≠ [] → 0 ≤ sample.duration ∧
        (lastKeyframe (run.appended ++ [sample])).any
          (fun key => key - lead ≤ sample.pts ∧ sample.end ≤ key + reach) = true)
      (by simp [Near, Option.any_eq_true])
  | .snapshot => instDecidableTrue

/-- Every segment is at most `width` longer than its first sample can be from the last keyframe,
and the oldest one has not ended a whole retention before the newest. -/
structure Narrow (width reach : ℤ) (run : StoreRun) : Prop where
  spans : ∀ segment ∈ run.store.segments,
    segment.last_pts ≤ segment.first_pts + width + reach
  keyframe : ∀ active, run.store.active = some active →
    ∃ key ∈ lastKeyframe run.appended, key ≤ active.first_pts + width
  window : ∀ front ∈ run.store.segments.head?, ∀ back ∈ run.store.segments.getLast?,
    back.last_pts ≤ front.last_pts + run.store.retention_hns

theorem lastKeyframe_concat (samples : List EncodedSample) (sample : EncodedSample) :
    lastKeyframe (samples ++ [sample]) =
      if sample.isVideoKeyframe then some sample.pts else lastKeyframe samples := by
  unfold lastKeyframe
  rw [List.filter_append]
  by_cases hkey : sample.isVideoKeyframe = true
  · simp [hkey]
  · simp [hkey]

theorem narrow_placed {run : StoreRun} {sample : EncodedSample} {sealed : List Segment}
    {active : Segment} {lead reach width : ℤ} (h : Narrow width reach run)
    (hlength : 0 < run.store.segment_hns) (hwidth : run.store.segment_hns ≤ width)
    (hlead : lead ≤ width) (hreach : 0 ≤ reach)
    (hnear : Near lead reach run (.append sample)) (hne : sample.bytes ≠ [])
    (hplaced : run.store.Placed sample sealed active) :
    (∀ segment ∈ sealed, segment ∈ run.store.segments) ∧
      active.last_pts ≤ active.first_pts + width + reach ∧
      ∃ key ∈ lastKeyframe (run.appended ++ [sample]), key ≤ active.first_pts + width := by
  rcases hnear hne with ⟨-, key, hkey, hle, hend⟩
  cases hplaced with
  | joined hold hshort =>
    rename_i old
    have hmem : old ∈ run.store.segments := by simp [SegmentStore.segments, hold]
    have hspan := h.spans old hmem
    have hfirst : key ≤ old.first_pts + width := by
      rw [lastKeyframe_concat] at hkey
      split_ifs at hkey with hframe
      · cases hkey
        have := hshort hframe
        omega
      · rcases h.keyframe old hold with ⟨k, hk, hle'⟩
        rw [hk] at hkey
        cases hkey
        exact hle'
    refine ⟨fun segment hs => List.mem_append_left _ hs, ?_, key, hkey, hfirst⟩
    change max old.last_pts sample.end ≤ old.first_pts + width + reach
    exact max_le hspan (by omega)
  | opened hempties hok hnew =>
    rename_i empties
    have hnone : empties = [] := by
      cases empties with
      | nil => rfl
      | cons e rest =>
        have := (hempties e (List.mem_cons_self ..)).2
        omega
    have hfirst : active.first_pts = sample.pts := hok.first sample rfl
    have hstart : key ≤ active.first_pts + width := by omega
    refine ⟨fun segment hs => ?_, ?_, key, hkey, hstart⟩
    · rw [hnone, List.append_nil] at hs
      exact hs
    · rcases hok.reached with hlast | ⟨s, hs, hlast⟩
      · omega
      · rw [List.mem_singleton.mp hs] at hlast
        omega

theorem narrow_append {run : StoreRun} {sample : EncodedSample} {lead reach width : ℤ}
    (h : Narrow width reach run) (hret : 0 ≤ run.store.retention_hns)
    (hlength : 0 < run.store.segment_hns) (hwidth : run.store.segment_hns ≤ width)
    (hlead : lead ≤ width) (hreach : 0 ≤ reach)
    (hnear : Near lead reach run (.append sample)) (hne : sample.bytes ≠ []) :
    Narrow width reach ⟨run.store.append sample, run.appended ++ [sample]⟩ := by
  rcases run.store.append_cases hne with
    ⟨sealed, active, hplaced, hsealed, hactive, hret', -, -⟩
  rcases narrow_placed h hlength hwidth hlead hreach hnear hne hplaced with
    ⟨hold, hspan, hkey⟩
  have hsegments : (run.store.append sample).segments = (run.store.append sample).sealed ++
      [active] := by
    rw [SegmentStore.segments, hactive, Option.toList_some]
  refine ⟨fun segment hs => ?_, fun a ha => ?_, fun front hfront back hback => ?_⟩
  · change segment ∈ (run.store.append sample).segments at hs
    rw [hsegments, hsealed] at hs
    rcases List.mem_append.mp hs with hs | hs
    · exact h.spans segment (hold segment (List.dropWhile_sublist _ |>.subset hs))
    · rw [List.mem_singleton.mp hs]
      exact hspan
  · change (run.store.append sample).active = some a at ha
    rw [hactive] at ha
    cases ha
    exact hkey
  · change front ∈ (run.store.append sample).segments.head? at hfront
    change back ∈ (run.store.append sample).segments.getLast? at hback
    change back.last_pts ≤ front.last_pts + (run.store.append sample).retention_hns
    rw [hsegments, List.getLast?_concat] at hback
    cases hback
    rw [hsegments, hsealed, List.head?_append] at hfront
    rw [hret']
    cases hhead : (sealed.dropWhile fun s =>
        decide (s.last_pts < active.last_pts - run.store.retention_hns)).head? with
    | none =>
      rw [hhead, Option.none_or] at hfront
      cases hfront
      omega
    | some first =>
      have hlate := List.head?_dropWhile_not
        (fun s => decide (s.last_pts < active.last_pts - run.store.retention_hns)) sealed
      rw [hhead] at hlate hfront
      rw [Option.some_or] at hfront
      cases hfront
      have := of_decide_eq_false hlate
      omega

structure Bounded (retention_hns segment_hns width reach : ℤ) (run : StoreRun) : Prop where
  retention : run.store.retention_hns = retention_hns
  length : run.store.segment_hns = segment_hns
  narrow : Narrow width reach run

theorem bounded_step {retention_hns segment_hns lead reach width : ℤ} {s t : StoreRun} {e : Event}
    (hret : 0 ≤ retention_hns) (hlength : 0 < segment_hns) (hwidth : segment_hns ≤ width)
    (hlead : lead ≤ width) (hreach : 0 ≤ reach)
    (hs : Bounded retention_hns segment_hns width reach s) (hnear : Near lead reach s e)
    (h : step s e = some t) : Bounded retention_hns segment_hns width reach t := by
  refine ⟨?_, (step_settings h).2.trans hs.length, ?_⟩
  · exact (step_settings h).1.trans hs.retention
  · cases e with
    | snapshot =>
      cases h
      refine ⟨?_, fun a ha => ?_, ?_⟩
      · change ∀ segment ∈ s.store.seal.segments, _
        rw [SegmentStore.segments_seal]
        exact hs.narrow.spans
      · cases ha
      · change ∀ front ∈ s.store.seal.segments.head?, ∀ back ∈ s.store.seal.segments.getLast?, _
        rw [SegmentStore.segments_seal]
        exact hs.narrow.window
    | append sample =>
      rcases step_append h with rfl | ⟨hne, rfl⟩
      · exact hs.narrow
      · apply narrow_append hs.narrow _ _ _ hlead hreach hnear hne
        · rw [hs.retention]
          exact hret
        · rw [hs.length]
          exact hlength
        · rw [hs.length]
          exact hwidth

/-- On samples near the last keyframe, the length that the store tells never passes the retention by
more than a segment and what a sample can stand apart from its keyframe. -/
theorem available_hns_le_of_near (retention_hns segment_hns lead reach : ℤ) (disk : Bool)
    (es : List Event) (run : StoreRun) (hret : 0 ≤ retention_hns) (hlength : 0 < segment_hns)
    (hreach : 0 ≤ reach)
    (hnear : (machine retention_hns segment_hns disk).Along (Near lead reach)
      (machine retention_hns segment_hns disk).init es)
    (hrun : (machine retention_hns segment_hns disk).run es = some run) :
    run.store.available_hns ≤ retention_hns + max segment_hns lead + reach ∧
      run.store.snapshot.1.available_hns ≤ retention_hns + max segment_hns lead + reach := by
  have hbounded : Bounded retention_hns segment_hns (max segment_hns lead) reach run := by
    apply Machine.invariant_along
      (I := Bounded retention_hns segment_hns (max segment_hns lead) reach)
      (fun s e t hs hc h => bounded_step hret hlength (le_max_left _ _) (le_max_right _ _) hreach
        hs hc h) hnear hrun
    exact ⟨rfl, rfl, by simp [machine, SegmentStore.segments], by simp [machine],
      by simp [machine, SegmentStore.segments]⟩
  have hwidth := le_max_left segment_hns lead
  have hle : run.store.available_hns ≤ retention_hns + max segment_hns lead + reach := by
    apply SegmentStore.available_hns_le (by omega)
    intro front hfront back hback
    have hspan := hbounded.narrow.spans front (List.mem_of_mem_head? hfront)
    have hwindow := hbounded.narrow.window front hfront back hback
    rw [hbounded.retention] at hwindow
    omega
  exact ⟨hle, by rw [SegmentStore.available_hns_snapshot]; exact hle⟩

theorem alignedRun_accepted' : ((machine 8 2 true).run alignedRun).isSome := by
  decide +kernel

theorem available_hns_le_alignedRun :
    (((machine 8 2 true).run alignedRun).get alignedRun_accepted').store.available_hns ≤
        8 + max 2 0 + 4 ∧
      (((machine 8 2 true).run alignedRun).get
        alignedRun_accepted').store.snapshot.1.available_hns ≤ 8 + max 2 0 + 4 :=
  available_hns_le_of_near 8 2 0 4 true alignedRun _ (by decide) (by decide) (by decide)
    (by decide +kernel) (Option.some_get _).symm

end StoreRun
end GambitRecord.Replay
