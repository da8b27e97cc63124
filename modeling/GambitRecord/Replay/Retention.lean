import Mathlib.Data.List.TakeWhile
import GambitRecord.Library.Runs
import GambitRecord.Replay.Selection

/-! # What the store retains

Runs of appends and snapshots on a fresh store, with the list of all samples
that were stored. The store holds a suffix of them, cut at the oldest segment;
everything before it ended more than the retention before some later sample. Stamps
and ends are integers, as those of the code are while none leaves its 64 bits.
-/

namespace GambitRecord.Replay
open Library Library.Runs Recorder

structure StoreRun where
  store : SegmentStore
  appended : List EncodedSample
  deriving DecidableEq

namespace StoreRun

inductive Event where
  | append (sample : EncodedSample)
  | snapshot
  deriving DecidableEq

/-- `append` ignores a sample without bytes. -/
def stored (sample : EncodedSample) : List EncodedSample :=
  if sample.bytes.isEmpty then [] else [sample]

def step (run : StoreRun) : Event → Option StoreRun
  | .append sample => some ⟨run.store.append sample, run.appended ++ stored sample⟩
  | .snapshot => some ⟨run.store.snapshot.2, run.appended⟩

def machine (retention_hns segment_hns : ℤ) (disk : Bool) : Machine StoreRun Event where
  init := ⟨{ retention_hns, segment_hns, disk }, []⟩
  step := step

theorem step_append {run t : StoreRun} {sample : EncodedSample}
    (h : step run (.append sample) = some t) :
    t = run ∨ (sample.bytes ≠ [] ∧
      t = ⟨run.store.append sample, run.appended ++ [sample]⟩) := by
  cases h
  by_cases hne : sample.bytes = []
  · left
    rw [SegmentStore.append_empty hne, stored, hne, List.isEmpty_nil, if_pos rfl, List.append_nil]
  · right
    have hfilled : ¬ sample.bytes.isEmpty = true := by simpa using hne
    exact ⟨hne, by rw [stored, if_neg hfilled]⟩

/-- The replay that a save would write. -/
def replay (run : StoreRun) : Option (List EncodedSample) :=
  select_replay_samples run.store.snapshot.1 run.store.retention_hns

/-- The first sample is a video keyframe; every later one begins no earlier than the one before
it and no later than the largest end so far. -/
def Next (appended : List EncodedSample) (sample : EncodedSample) : Prop :=
  0 < sample.duration ∧
    match appended.getLast? with
    | none => sample.isVideoKeyframe = true
    | some previous => previous.pts ≤ sample.pts ∧ ∃ s ∈ appended, sample.pts ≤ s.end

instance (appended : List EncodedSample) (sample : EncodedSample) :
    Decidable (Next appended sample) := by
  unfold Next
  cases appended.getLast? <;> infer_instance

def Timely (run : StoreRun) : Event → Prop
  | .append sample => sample.bytes ≠ [] → Next run.appended sample
  | .snapshot => True

instance (run : StoreRun) : DecidablePred (Timely run)
  | .append sample => inferInstanceAs (Decidable (sample.bytes ≠ [] → Next run.appended sample))
  | .snapshot => instDecidableTrue

/-- On disk, a sample fits the fields of its record. -/
def Fits (run : StoreRun) : Event → Prop
  | .append sample => run.store.disk = true → Storable sample
  | .snapshot => True

instance (run : StoreRun) : DecidablePred (Fits run)
  | .append sample => inferInstanceAs (Decidable (run.store.disk = true → Storable sample))
  | .snapshot => instDecidableTrue

/-- The replay is as long as the retention as soon as the appended samples are. -/
def LongEnough (run : StoreRun) : Prop :=
  ∀ first newest, run.appended.head? = some first → newest ∈ run.appended →
    run.store.retention_hns ≤ newest.end - first.pts →
    ∃ samples, run.replay = some samples ∧ ∃ s ∈ samples, run.store.retention_hns ≤ s.end

/-- The oldest segment begins with a video keyframe. -/
def FrontKeyframe (run : StoreRun) : Prop :=
  ∀ front ∈ run.store.segments.head?,
    ((front.read.bind List.head?).any EncodedSample.isVideoKeyframe) = true

instance (run : StoreRun) : Decidable run.FrontKeyframe :=
  inferInstanceAs (Decidable (∀ front ∈ run.store.segments.head?, _ = true))

/-- The segments hold a suffix of what was appended; what came before them has ended more than the
retention before another sample. -/
structure Retains (run : StoreRun) (evicted : List EncodedSample)
    (held : List (Segment × List EncodedSample)) : Prop where
  segments : run.store.segments = held.map Prod.fst
  ok : ∀ p ∈ held, SegmentOk run.store.disk p.1 p.2
  appended : run.appended = evicted ++ (held.map Prod.snd).flatten
  evicted : ∀ s ∈ evicted, ∃ newest ∈ run.appended,
    s.end < newest.end - run.store.retention_hns
  filled : run.store.active ≠ none → ∀ p ∈ held.getLast?, p.2 ≠ []

theorem retains_snapshot {run : StoreRun} {evicted : List EncodedSample}
    {held : List (Segment × List EncodedSample)} (h : run.Retains evicted held) :
    (⟨run.store.snapshot.2, run.appended⟩ : StoreRun).Retains evicted held := by
  refine ⟨?_, h.ok, h.appended, h.evicted, fun hactive => absurd rfl hactive⟩
  change run.store.seal.segments = _
  rw [SegmentStore.segments_seal]
  exact h.segments

/-- The segments with a new sample, before the eviction: those in front, and the active one. -/
theorem exists_placed {run : StoreRun} {evicted : List EncodedSample}
    {held : List (Segment × List EncodedSample)} {sample : EncodedSample}
    {sealed : List Segment} {active : Segment} (h : run.Retains evicted held)
    (hplaced : run.store.Placed sample sealed active) :
    ∃ (front : List (Segment × List EncodedSample)) (back : List EncodedSample),
      sealed = front.map Prod.fst ∧ (∀ p ∈ front, SegmentOk run.store.disk p.1 p.2) ∧
      SegmentOk run.store.disk active back ∧ back ≠ [] ∧
      (front.map Prod.snd).flatten ++ back = (held.map Prod.snd).flatten ++ [sample] ∧
      (∀ p ∈ front, p ∈ held ∨ run.store.segment_hns ≤ 0) ∧
      ((∃ q ∈ held, q.2.head? = back.head?) ∨ back.head? = some sample ∧
        (run.store.active = none ∨ sample.isVideoKeyframe = true)) := by
  cases hplaced with
  | opened hempties hok hnew =>
    rename_i empties
    have hflat : ((empties.map fun e => (e, ([] : List EncodedSample))).map Prod.snd).flatten =
        [] := by
      simp
    refine ⟨held ++ empties.map fun e => (e, []), [sample], ?_, fun p hp => ?_, hok,
      List.cons_ne_nil _ _, ?_, fun p hp => ?_, .inr ⟨rfl, hnew⟩⟩
    · rw [h.segments, List.map_append, List.map_map]
      simp [Function.comp_def]
    · rcases List.mem_append.mp hp with hp | hp
      · exact h.ok p hp
      · rcases List.mem_map.mp hp with ⟨e, he, rfl⟩
        exact (hempties e he).1
    · rw [List.map_append, List.flatten_append, hflat, List.append_nil]
    · rcases List.mem_append.mp hp with hp | hp
      · exact .inl hp
      · rcases List.mem_map.mp hp with ⟨e, he, -⟩
        exact .inr (hempties e he).2
  | joined hold _ =>
    have hsegs := h.segments.symm
    rw [SegmentStore.segments, hold, List.map_eq_append_iff] at hsegs
    rcases hsegs with ⟨front, last, rfl, hfront, hlast⟩
    rcases List.map_eq_singleton_iff.mp hlast with ⟨p, rfl, hp⟩
    have hok := h.ok p (by simp)
    have hfilled : p.2 ≠ [] := h.filled (by simp [hold]) p (by simp)
    refine ⟨front, p.2 ++ [sample], hfront.symm, fun q hq => h.ok q (List.mem_append_left _ hq),
      ?_, by simp, ?_, fun q hq => .inl (List.mem_append_left _ hq), .inl ⟨p, by simp, ?_⟩⟩
    · rw [← hp]
      exact hok.write hfilled sample
    · simp
    · rw [List.head?_append, List.head?_eq_some_head hfilled, Option.some_or]

/-- The samples of the segments that fall off the front ended before the horizon. -/
theorem end_lt_of_mem_takeWhile {disk : Bool} {front : List (Segment × List EncodedSample)}
    {horizon : ℤ} (hfront : ∀ p ∈ front, SegmentOk disk p.1 p.2) {s : EncodedSample}
    (hs : s ∈ ((front.takeWhile fun p => decide (p.1.last_pts < horizon)).map Prod.snd).flatten) :
    s.end < horizon := by
  rcases List.mem_flatten.mp hs with ⟨samples, hsamples, hs⟩
  rcases List.mem_map.mp hsamples with ⟨p, hp, rfl⟩
  have hend := (hfront p (List.takeWhile_sublist _ |>.subset hp)).last s hs
  have hearly := List.mem_takeWhile_imp hp
  exact hend.trans_lt (of_decide_eq_true hearly)

theorem flatten_takeWhile_append (early : Segment × List EncodedSample → Bool)
    (held : List (Segment × List EncodedSample)) :
    ((held.takeWhile early).map Prod.snd).flatten ++ ((held.dropWhile early).map Prod.snd).flatten =
      (held.map Prod.snd).flatten := by
  rw [← List.flatten_append, ← List.map_append, List.takeWhile_append_dropWhile]

/-- An append puts its sample behind all others and drops some of the oldest segments; a segment
keeps its first sample, and a new one begins with a video keyframe unless none was active. -/
theorem retains_append {run : StoreRun} {evicted : List EncodedSample}
    {held : List (Segment × List EncodedSample)} {sample : EncodedSample}
    (h : run.Retains evicted held) (hne : sample.bytes ≠ [])
    (hdur : ∀ s ∈ run.appended ++ [sample], 0 ≤ s.duration) :
    ∃ evicted' held', (⟨run.store.append sample, run.appended ++ [sample]⟩ : StoreRun).Retains
      evicted' held' ∧ ∀ p ∈ held', (∃ q ∈ held, q.2.head? = p.2.head?) ∨
        (p.2.head? = some sample ∧
          (run.store.active = none ∨ sample.isVideoKeyframe = true)) ∨
        run.store.segment_hns ≤ 0 := by
  rcases run.store.append_cases hne with
    ⟨sealed, active, hplaced, hsealed, hactive, hret, -, hdisk⟩
  rcases exists_placed h hplaced with
    ⟨front, back, rfl, hfront, hback, hfilled, hflat, hfronts, hbacks⟩
  have happended : run.appended ++ [sample] =
      evicted ++ ((front.map Prod.snd).flatten ++ back) := by
    rw [hflat, h.appended, List.append_assoc]
  have hmem : ∀ s ∈ back, s ∈ run.appended ++ [sample] := by
    intro s hs
    rw [happended]
    simp [hs]
  rcases hback.exists_last hfilled (fun s hs => hdur s (hmem s hs)) with ⟨newest, hnewest, hlast⟩
  let early : Segment × List EncodedSample → Bool :=
    fun p => decide (p.1.last_pts < active.last_pts - run.store.retention_hns)
  refine ⟨evicted ++ ((front.takeWhile early).map Prod.snd).flatten,
    front.dropWhile early ++ [(active, back)], ⟨?_, ?_, ?_, ?_, ?_⟩, ?_⟩
  · change (run.store.append sample).segments = _
    rw [SegmentStore.segments, hsealed, hactive, List.dropWhile_map, List.map_append]
    rfl
  · intro p hp
    change SegmentOk (run.store.append sample).disk p.1 p.2
    rw [hdisk]
    rcases List.mem_append.mp hp with hp | hp
    · exact hfront p (List.dropWhile_sublist _ |>.subset hp)
    · rw [List.mem_singleton.mp hp]
      exact hback
  · change run.appended ++ [sample] = _
    rw [happended, ← flatten_takeWhile_append early front]
    simp
  · intro s hs
    change ∃ newest ∈ run.appended ++ [sample],
      s.end < newest.end - (run.store.append sample).retention_hns
    rw [hret]
    rcases List.mem_append.mp hs with hs | hs
    · rcases h.evicted s hs with ⟨n, hn, hlt⟩
      exact ⟨n, List.mem_append_left _ hn, hlt⟩
    · have hend := end_lt_of_mem_takeWhile hfront hs
      exact ⟨newest, hmem newest hnewest, by omega⟩
  · intro _ p hp
    rw [List.getLast?_concat] at hp
    cases hp
    exact hfilled
  · intro p hp
    rcases List.mem_append.mp hp with hp | hp
    · rcases hfronts p (List.dropWhile_sublist _ |>.subset hp) with hheld | hlength
      · exact .inl ⟨p, hheld, rfl⟩
      · exact .inr (.inr hlength)
    · rw [List.mem_singleton.mp hp]
      rcases hbacks with hsame | hnew
      · exact .inl hsame
      · exact .inr (.inl hnew)

structure Ordered (samples : List EncodedSample) : Prop where
  positive : ∀ s ∈ samples, 0 < s.duration
  sorted : samples.Pairwise fun a b => a.pts ≤ b.pts
  connected : ∀ pre s post, samples = pre ++ s :: post → pre ≠ [] → ∃ e ∈ pre, s.pts ≤ e.end

theorem Ordered.concat {samples : List EncodedSample} {sample : EncodedSample}
    (h : Ordered samples) (hpos : 0 < sample.duration)
    (hnext : ∀ previous, samples.getLast? = some previous →
      previous.pts ≤ sample.pts ∧ ∃ e ∈ samples, sample.pts ≤ e.end) :
    Ordered (samples ++ [sample]) := by
  refine ⟨fun s hs => ?_, ?_, fun pre s post hsplit hpre => ?_⟩
  · rcases List.mem_append.mp hs with hs | hs
    · exact h.positive s hs
    · rw [List.mem_singleton.mp hs]
      exact hpos
  · rw [List.pairwise_append]
    refine ⟨h.sorted, List.pairwise_singleton _ _, fun a ha b hb => ?_⟩
    rw [List.mem_singleton.mp hb]
    rcases List.eq_nil_or_concat samples with rfl | ⟨front, previous, rfl⟩
    · cases ha
    · rw [List.concat_eq_append] at *
      have hlast := (hnext previous List.getLast?_concat).1
      rcases List.mem_append.mp ha with ha | ha
      · exact ((List.pairwise_append.mp h.sorted).2.2 a ha previous (by simp)).trans hlast
      · rw [List.mem_singleton.mp ha]
        exact hlast
  · rcases List.eq_nil_or_concat post with rfl | ⟨post', last, rfl⟩
    · rcases List.append_inj' hsplit rfl with ⟨rfl, hs⟩
      cases hs
      cases hlast : samples.getLast? with
      | none => exact absurd (List.getLast?_eq_none_iff.mp hlast) hpre
      | some previous => exact (hnext previous hlast).2
    · rw [List.concat_eq_append, ← List.cons_append, ← List.append_assoc] at hsplit
      rcases List.append_inj' hsplit rfl with ⟨hsplit', -⟩
      exact h.connected pre s post' hsplit' hpre

structure Inv (retention_hns : ℤ) (disk : Bool) (run : StoreRun) : Prop where
  retention : run.store.retention_hns = retention_hns
  mode : run.store.disk = disk
  ordered : Ordered run.appended
  storable : disk = true → ∀ s ∈ run.appended, Storable s
  retains : ∃ evicted held, run.Retains evicted held

theorem inv_init (retention_hns segment_hns : ℤ) (disk : Bool) :
    Inv retention_hns disk (machine retention_hns segment_hns disk).init where
  retention := rfl
  mode := rfl
  ordered := ⟨by simp [machine], by simp [machine], by simp [machine]⟩
  storable := by simp [machine]
  retains := ⟨[], [], rfl, by simp, rfl, by simp, by simp⟩

theorem inv_step {retention_hns : ℤ} {disk : Bool} {s t : StoreRun} {e : Event}
    (hs : Inv retention_hns disk s) (htimely : Timely s e) (hfits : Fits s e)
    (h : step s e = some t) : Inv retention_hns disk t := by
  rcases hs.retains with ⟨evicted, held, hretains⟩
  cases e with
  | snapshot =>
    cases h
    exact ⟨hs.retention, hs.mode, hs.ordered, hs.storable, evicted, held, retains_snapshot hretains⟩
  | append sample =>
    rcases step_append h with rfl | ⟨hne, rfl⟩
    · exact hs
    · rcases htimely hne with ⟨hpos, hnext⟩
      have hordered : Ordered (s.appended ++ [sample]) := by
        apply hs.ordered.concat hpos
        intro previous hprevious
        rw [hprevious] at hnext
        exact hnext
      rcases retains_append hretains hne (fun x hx => (hordered.positive x hx).le) with
        ⟨evicted', held', hretains', -⟩
      rcases s.store.append_cases hne with ⟨_, _, -, -, -, hret, -, hdisk⟩
      refine ⟨hret.trans hs.retention, hdisk.trans hs.mode, hordered, fun hd x hx => ?_,
        evicted', held', hretains'⟩
      rcases List.mem_append.mp hx with hx | hx
      · exact hs.storable hd x hx
      · rw [List.mem_singleton.mp hx]
        exact hfits (hs.mode.trans hd)

theorem mapM_read {held : List (Segment × List EncodedSample)}
    (h : ∀ p ∈ held, p.1.read = some p.2) :
    (held.map Prod.fst).mapM Segment.read = some (held.map Prod.snd) := by
  induction held with
  | nil => rfl
  | cons p held ih =>
    rw [List.map_cons, List.mapM_cons, h p (List.mem_cons_self ..),
      ih fun q hq => h q (List.mem_cons_of_mem p hq)]
    rfl

/-- A sample that ends last is still held: eviction stops a whole retention before it. -/
theorem Retains.exists_newest {run : StoreRun} {evicted : List EncodedSample}
    {held : List (Segment × List EncodedSample)} (h : run.Retains evicted held)
    (hpos : 0 < run.store.retention_hns) (hne : run.appended ≠ []) :
    ∃ newest ∈ (held.map Prod.snd).flatten, ∀ s ∈ run.appended, s.end ≤ newest.end := by
  rcases Library.Algorithms.maxElement_isSome endsBefore hne with ⟨newest, hnewest⟩
  rcases Library.Algorithms.maxElement_spec EncodedSample.end (by simp [endsBefore]) hnewest with
    ⟨hmem, hmax⟩
  refine ⟨newest, ?_, hmax⟩
  rw [h.appended] at hmem
  rcases List.mem_append.mp hmem with hevicted | hheld
  · rcases h.evicted newest hevicted with ⟨later, hlater, hlt⟩
    have := hmax later hlater
    omega
  · exact hheld

theorem Retains.read {retention_hns : ℤ} {disk : Bool} {run : StoreRun}
    {evicted : List EncodedSample} {held : List (Segment × List EncodedSample)}
    (h : run.Retains evicted held) (hinv : Inv retention_hns disk run) :
    ∀ p ∈ held, p.1.read = some p.2 := by
  intro p hp
  have hmem : ∀ s ∈ p.2, s ∈ run.appended := by
    intro s hs
    rw [h.appended]
    exact List.mem_append_right _ (List.mem_flatten.mpr ⟨p.2, List.mem_map.mpr ⟨p, hp, rfl⟩, hs⟩)
  have hok := h.ok p hp
  rw [hinv.mode] at hok
  exact hok.holds.read fun hdisk s hs => hinv.storable (hok.mode.symm.trans hdisk) s (hmem s hs)

/-- A store whose oldest segment begins with a video keyframe gives a replay as long as the
retention. -/
theorem longEnough_of_inv {retention_hns : ℤ} {disk : Bool} {run : StoreRun}
    (hpos : 0 < retention_hns) (hinv : Inv retention_hns disk run) (hfront : run.FrontKeyframe) :
    run.LongEnough := by
  intro first newest hfirst hnewest hlong
  rcases hinv.retains with ⟨evicted, held, h⟩
  rw [hinv.retention] at hlong ⊢
  have hret : 0 < run.store.retention_hns := by rw [hinv.retention]; exact hpos
  rcases h.exists_newest hret (List.ne_nil_of_mem hnewest) with ⟨last, hlast, hmax⟩
  have hread := h.read hinv
  have hheld : held ≠ [] := by
    rintro rfl
    cases hlast
  rcases List.exists_cons_of_ne_nil hheld with ⟨p, rest, rfl⟩
  have hbegins : (p.2.head?.any EncodedSample.isVideoKeyframe) = true := by
    have := hfront p.1 (by rw [h.segments]; rfl)
    rw [hread p (List.mem_cons_self ..), Option.bind_some] at this
    exact this
  rcases Option.any_eq_true_iff_get _ _ |>.mp hbegins with ⟨hsome, hkey⟩
  have hk : p.2.head? = some (p.2.head?.get hsome) := (Option.some_get hsome).symm
  generalize p.2.head?.get hsome = keyframe at hkey hk
  rcases List.head?_eq_some_iff.mp hk with ⟨group, hgroup⟩
  have hflat : ((p :: rest).map Prod.snd).flatten =
      keyframe :: (group ++ (rest.map Prod.snd).flatten) := by
    rw [List.map_cons, List.flatten_cons, hgroup, List.cons_append]
  have hsplit := h.appended
  rw [hflat] at hsplit
  have hdur : ∀ s ∈ keyframe :: (group ++ (rest.map Prod.snd).flatten), 0 ≤ s.duration := by
    intro s hs
    exact (hinv.ordered.positive s (by rw [hsplit]; exact List.mem_append_right _ hs)).le
  have hsorted := hinv.ordered.sorted
  rw [hsplit] at hsorted
  have hmin : ∀ s ∈ keyframe :: (group ++ (rest.map Prod.snd).flatten), keyframe.pts ≤ s.pts := by
    intro s hs
    rcases List.mem_cons.mp hs with rfl | hs
    · exact le_rfl
    · exact (List.pairwise_cons.mp (List.pairwise_append.mp hsorted).2.1).1 s hs
  have hstart : keyframe.pts + retention_hns ≤ last.end := by
    by_cases hevicted : evicted = []
    · rw [hsplit, hevicted] at hfirst
      cases hfirst
      have := hmax newest hnewest
      omega
    · rcases hinv.ordered.connected evicted keyframe _ hsplit hevicted with ⟨e, he, hle⟩
      rcases h.evicted e he with ⟨later, hlater, hlt⟩
      have := hmax later hlater
      rw [hinv.retention] at hlt
      omega
  refine ⟨select ((p :: rest).map Prod.snd).flatten retention_hns, ?_, ?_⟩
  · change (run.store.segments.mapM Segment.read).map _ = _
    rw [h.segments, mapM_read hread, Option.map_some, hinv.retention]
  · rw [hflat] at hlast ⊢
    exact le_select (List.mem_cons_self ..) hkey hmin hdur hpos hlast hstart

/-- In every state of a run whose oldest segment begins with a video keyframe, a save gives a
replay as long as the retention. -/
theorem longEnough_of_frontKeyframe (retention_hns segment_hns : ℤ) (disk : Bool)
    (es : List Event) (run : StoreRun) (hret : 0 < retention_hns)
    (htimely : (machine retention_hns segment_hns disk).Along Timely
      (machine retention_hns segment_hns disk).init es)
    (hfits : (machine retention_hns segment_hns disk).Along Fits
      (machine retention_hns segment_hns disk).init es)
    (hrun : (machine retention_hns segment_hns disk).run es = some run)
    (hfront : run.FrontKeyframe) : run.LongEnough := by
  have hinv : Inv retention_hns disk run := Machine.invariant_along (I := Inv retention_hns disk)
    (fun s e t hs hc h => inv_step hs hc.1 hc.2 h) (htimely.and hfits) hrun
    (inv_init retention_hns segment_hns disk)
  exact longEnough_of_inv hret hinv hfront

/-- A sample that finds no active segment, as after a snapshot, is a video keyframe. -/
def Aligned (run : StoreRun) : Event → Prop
  | .append sample =>
    sample.bytes ≠ [] → run.store.active = none → sample.isVideoKeyframe = true
  | .snapshot => True

/-- Every segment begins with a video keyframe. -/
def AllKeyframes (run : StoreRun) : Prop :=
  ∃ evicted held, run.Retains evicted held ∧
    ∀ p ∈ held, ∃ keyframe, p.2.head? = some keyframe ∧ keyframe.isVideoKeyframe = true

theorem allKeyframes_step {retention_hns : ℤ} {disk : Bool} {s t : StoreRun} {e : Event}
    (hall : s.AllKeyframes) (hpos : 0 < s.store.segment_hns) (hs : Inv retention_hns disk s)
    (htimely : Timely s e) (haligned : Aligned s e) (h : step s e = some t) : t.AllKeyframes := by
  rcases hall with ⟨evicted, held, hretains, hkeys⟩
  cases e with
  | snapshot =>
    cases h
    exact ⟨evicted, held, retains_snapshot hretains, hkeys⟩
  | append sample =>
    rcases step_append h with rfl | ⟨hne, rfl⟩
    · exact ⟨evicted, held, hretains, hkeys⟩
    · have hdur : ∀ x ∈ s.appended ++ [sample], 0 ≤ x.duration := by
        intro x hx
        rcases List.mem_append.mp hx with hx | hx
        · exact (hs.ordered.positive x hx).le
        · rw [List.mem_singleton.mp hx]
          exact (htimely hne).1.le
      rcases retains_append hretains hne hdur with ⟨evicted', held', hretains', hheads⟩
      refine ⟨evicted', held', hretains', fun p hp => ?_⟩
      rcases hheads p hp with ⟨q, hq, hsame⟩ | ⟨hnew, hkey⟩ | hlength
      · rcases hkeys q hq with ⟨keyframe, hk, hkey⟩
        exact ⟨keyframe, hsame ▸ hk, hkey⟩
      · exact ⟨sample, hnew, hkey.elim (haligned hne) id⟩
      · omega

theorem step_settings {s t : StoreRun} {e : Event} (h : step s e = some t) :
    t.store.retention_hns = s.store.retention_hns ∧ t.store.segment_hns = s.store.segment_hns := by
  cases e with
  | snapshot =>
    cases h
    exact ⟨rfl, rfl⟩
  | append sample =>
    rcases step_append h with rfl | ⟨hne, rfl⟩
    · exact ⟨rfl, rfl⟩
    · rcases s.store.append_cases hne with ⟨_, _, -, -, -, hret, hlength, -⟩
      exact ⟨hret, hlength⟩

/-- When every snapshot is followed by a keyframe, the oldest segment begins with one. -/
theorem frontKeyframe_of_aligned (retention_hns segment_hns : ℤ) (disk : Bool) (es : List Event)
    (run : StoreRun) (hpos : 0 < segment_hns)
    (htimely : (machine retention_hns segment_hns disk).Along Timely
      (machine retention_hns segment_hns disk).init es)
    (hfits : (machine retention_hns segment_hns disk).Along Fits
      (machine retention_hns segment_hns disk).init es)
    (haligned : (machine retention_hns segment_hns disk).Along Aligned
      (machine retention_hns segment_hns disk).init es)
    (hrun : (machine retention_hns segment_hns disk).run es = some run) : run.FrontKeyframe := by
  have hinit : Inv retention_hns disk (machine retention_hns segment_hns disk).init ∧
      (machine retention_hns segment_hns disk).init.AllKeyframes ∧
      (machine retention_hns segment_hns disk).init.store.segment_hns = segment_hns :=
    ⟨inv_init retention_hns segment_hns disk, ⟨[], [], ⟨rfl, by simp, rfl, by simp, by simp⟩,
      by simp⟩, rfl⟩
  have hall := Machine.invariant_along
    (I := fun s => Inv retention_hns disk s ∧ s.AllKeyframes ∧ s.store.segment_hns = segment_hns)
    (fun s e t hs hc h => ⟨inv_step hs.1 hc.1.1 hc.1.2 h,
      allKeyframes_step hs.2.1 (hs.2.2 ▸ hpos) hs.1 hc.1.1 hc.2 h,
      (step_settings h).2.trans hs.2.2⟩) ((htimely.and hfits).and haligned) hrun hinit
  rcases hall with ⟨hinv, ⟨evicted, held, h, hkeys⟩, -⟩
  intro front hmem
  rw [h.segments] at hmem
  rcases List.mem_map.mp (List.mem_of_mem_head? hmem) with ⟨p, hp, rfl⟩
  rcases hkeys p hp with ⟨keyframe, hk, hkey⟩
  rw [h.read hinv p hp, Option.bind_some, hk]
  exact hkey

def AlwaysLongEnough : Prop :=
  ∀ retention_hns segment_hns disk es run, 0 < retention_hns → 0 < segment_hns →
    (machine retention_hns segment_hns disk).Along Timely
      (machine retention_hns segment_hns disk).init es →
    (machine retention_hns segment_hns disk).Along Fits
      (machine retention_hns segment_hns disk).init es →
    (machine retention_hns segment_hns disk).run es = some run → run.LongEnough

def frame (pts : ℤ) (keyframe : Bool) : Event := .append ⟨.video, pts, 1, keyframe, [0]⟩

/-- Keyframes at the times divisible by four, a snapshot in front of one, and an eviction. -/
def alignedRun : List Event :=
  [frame 0 true, frame 1 false, frame 2 false, frame 3 false, .snapshot, frame 4 true,
    frame 5 false, frame 6 false, frame 7 false, frame 8 true, frame 9 false, frame 10 false,
    frame 11 false, frame 12 true]

/-- A snapshot in the middle of the first group of pictures. -/
def cutRun : List Event :=
  [frame 0 true, frame 1 false, frame 2 false, frame 3 false, frame 4 false, .snapshot,
    frame 5 false, frame 6 false, frame 7 false, frame 8 true, frame 9 false, frame 10 false,
    frame 11 false, frame 12 false, frame 13 false, frame 14 false, frame 15 false]

theorem alignedRun_accepted : ((machine 8 4 true).run alignedRun).isSome := by
  decide +kernel

theorem longEnough_alignedRun :
    LongEnough (((machine 8 4 true).run alignedRun).get alignedRun_accepted) :=
  longEnough_of_frontKeyframe 8 4 true alignedRun _ (by decide) (by decide +kernel)
    (by decide +kernel) (Option.some_get _).symm (by decide +kernel)

theorem cutRun_accepted : ((machine 10 10 false).run cutRun).isSome := by
  decide +kernel

/-- Sixteen frames after the start, the replay of ten has only eight. -/
theorem not_alwaysLongEnough : ¬ AlwaysLongEnough := by
  intro h
  have hlong := h 10 10 false cutRun (((machine 10 10 false).run cutRun).get cutRun_accepted)
    (by decide) (by decide) (by decide +kernel) (by decide +kernel) (Option.some_get _).symm
  have hshort : ∀ samples ∈
      (((machine 10 10 false).run cutRun).get cutRun_accepted).replay, ∀ s ∈ samples, s.end < 10 := by
    decide +kernel
  rcases hlong ⟨.video, 0, 1, true, [0]⟩ ⟨.video, 15, 1, false, [0]⟩ (by decide +kernel)
    (by decide +kernel) (by decide +kernel) with ⟨samples, hsamples, s, hs, hle⟩
  have hlt := hshort samples hsamples s hs
  have hret : (((machine 10 10 false).run cutRun).get cutRun_accepted).store.retention_hns = 10 := by
    decide +kernel
  omega

end StoreRun
end GambitRecord.Replay
