import GambitRecord.Replay.Sharing
import GambitRecord.Replay.Window

/-! # What snapshots keep

The store of shared segments behaves as the store of values, and a snapshot reads
the same for as long as it is held.
-/

namespace GambitRecord.Replay
open Library Library.DigitText Library.Runs Recorder

namespace World
variable {w w' : World} {live : List ℕ} {id : ℕ}

def segment (w : World) (id : ℕ) : Segment where
  first_pts := (w.object id).first_pts
  last_pts := (w.object id).last_pts
  body :=
    if (w.object id).disk then .disk id ((w.files (w.object id).path).getD [])
    else .memory (w.object id).memory_samples

def view (w : World) : SegmentStore where
  retention_hns := w.retention_hns
  segment_hns := w.segment_hns
  disk := w.disk
  sealed := w.sealed.map w.segment
  active := w.active.map w.segment
  sequence := w.sequence

theorem segment_same (h : Sound w live) (hid : id < w.objects.length) (hsame : Same w w' id) :
    w'.segment id = w.segment id := by
  unfold segment
  rw [hsame.object]
  split_ifs with hdisk
  · rw [h.mode id hid] at hdisk
    rw [h.path hdisk id hid, hsame.file]
  · rfl

theorem view_same (h : Sound w live) (hretention : w'.retention_hns = w.retention_hns)
    (hlength : w'.segment_hns = w.segment_hns) (hmode : w'.disk = w.disk)
    (hsealed : w'.sealed = w.sealed) (hactive : w'.active = w.active)
    (hsequence : w'.sequence = w.sequence)
    (hsame : ∀ id ∈ w'.references, id < w.objects.length ∧ Same w w' id) : w'.view = w.view := by
  have hsegment : ∀ id ∈ w'.references, w'.segment id = w.segment id := fun id hid =>
    segment_same h (hsame id hid).1 (hsame id hid).2
  have hmap : w'.sealed.map w'.segment = w'.sealed.map w.segment :=
    List.map_congr_left fun id hid => hsegment id (mem_references.mpr (.inl hid))
  have hopen : w'.active.map w'.segment = w'.active.map w.segment := by
    cases hid : w'.active with
    | none => rfl
    | some id => exact congrArg some (hsegment id (mem_references.mpr (.inr (.inl hid))))
  unfold view
  rw [hmap, hopen, hretention, hlength, hmode, hsealed, hactive, hsequence]

theorem view_start (h : Sound w w.references) (sample : EncodedSample) :
    (w.start_segment sample).view = w.view.start_segment sample := by
  have hsealed : w.sealed.map (w.start_segment sample).segment = w.sealed.map w.segment := by
    refine List.map_congr_left fun id hid => ?_
    have hid' := h.bounded id (mem_references.mpr (.inl hid))
    exact segment_same h hid' (same_start h hid' sample)
  have hnew := @object_append_new (w.start_segment sample) _ _ rfl
  have hopen : (w.start_segment sample).segment w.objects.length =
      ⟨sample.pts, sample.pts, if w.disk then .disk w.sequence [] else .memory []⟩ := by
    unfold segment
    rw [hnew]
    cases hdisk : w.disk with
    | false => rfl
    | true =>
      have hfile : (w.start_segment sample).files (segment_name w.sequence) = some [] := by
        change (if w.disk then Function.update w.files (segment_name w.sequence) (some [])
          else w.files) (segment_name w.sequence) = _
        rw [if_pos hdisk, Function.update_self]
      rw [h.numbered hdisk] at hfile ⊢
      simp only [if_true, hfile, Option.getD_some]
  unfold view
  change SegmentStore.mk _ _ _ (w.sealed.map _) (some _) _ = _
  rw [hsealed, hopen]
  rfl

theorem view_seal (w : World) : w.seal.view = w.view.seal := by
  have hsealed : (w.sealed ++ w.active.toList).map w.segment =
      w.sealed.map w.segment ++ (w.active.map w.segment).toList := by
    rw [List.map_append]
    cases w.active <;> rfl
  change SegmentStore.mk _ _ _ ((w.sealed ++ w.active.toList).map w.segment) none _ = _
  rw [hsealed]
  rfl

theorem segment_write (h : Sound w w.references) (hactive : w.active = some id)
    (sample : EncodedSample) :
    (w.write id sample).segment id = (w.segment id).write sample := by
  have hmem : id ∈ w.references := mem_references.mpr (.inr (.inl hactive))
  have hid := h.bounded id hmem
  unfold segment Segment.write
  rw [object_write hid, h.mode id hid]
  cases hdisk : w.disk with
  | false => simp
  | true =>
    rcases Option.isSome_iff_exists.mp ((h.files hdisk id).mpr hmem) with ⟨bytes, hbytes⟩
    have hfile : (w.write id sample).files (segment_name id) = some (bytes ++ record sample) := by
      change (if w.disk then Function.update w.files (w.object id).path _ else w.files)
        (segment_name id) = _
      rw [if_pos hdisk, h.path hdisk id hid, Function.update_self, hbytes]
      rfl
    simp only [if_true, h.path hdisk id hid, hfile, hbytes, Option.getD_some]

theorem view_write (h : Sound w w.references) (hactive : w.active = some id)
    (sample : EncodedSample) :
    (w.write id sample).view =
      { w.view with active := some ((w.segment id).write sample) } := by
  have hid := h.bounded id (mem_references.mpr (.inr (.inl hactive)))
  have hsealed : w.sealed.map (w.write id sample).segment = w.sealed.map w.segment := by
    refine List.map_congr_left fun other hother => ?_
    have hne : other ≠ id := fun heq => (h.active id hactive).1 (heq ▸ hother)
    exact segment_same h (h.bounded other (mem_references.mpr (.inl hother)))
      (same_write h hid hne sample)
  unfold view
  change SegmentStore.mk _ _ _ (w.sealed.map _) (w.active.map _) _ = _
  rw [hsealed, hactive, Option.map_some, segment_write h hactive]
  rfl

theorem view_evict (w : World) (newest : ℤ) : (w.evict newest).view = w.view.evict newest := by
  unfold view SegmentStore.evict
  rw [List.dropWhile_map]
  rfl

theorem view_collect (h : Sound w live) : (w.collect live).view = w.view :=
  view_same h rfl rfl rfl rfl rfl rfl fun id hid =>
    ⟨h.bounded id (h.referenced id hid), same_collect h hid⟩

theorem view_roll (h : Sound w w.references) (sample : EncodedSample) :
    (w.roll sample).view = w.view.roll sample := by
  have hstarted : ∀ started, started = (if w.active.isSome then w else w.start_segment sample) →
      Sound started started.references ∧ started.view =
        if w.view.active.isSome then w.view else w.view.start_segment sample := by
    intro started hs
    cases hactive : w.active with
    | some id =>
      rw [hactive] at hs
      subst hs
      exact ⟨h, by simp [view, hactive]⟩
    | none =>
      rw [hactive] at hs
      subst hs
      refine ⟨sound_start h hactive sample, ?_⟩
      simp only [Option.isSome_none, Bool.false_eq_true, if_false]
      rw [view_start h]
      simp [view, hactive]
  unfold roll SegmentStore.roll
  simp only
  generalize hs : (if w.active.isSome then w else w.start_segment sample) = started
  rcases hstarted started hs.symm with ⟨hsound, hview⟩
  rw [← hview]
  have hmap : started.view.active = started.active.map started.segment := rfl
  rw [hmap]
  cases hactive : started.active with
  | none => rfl
  | some id =>
    by_cases hroll : sample.isVideoKeyframe = true ∧
        sample.pts - (started.object id).first_pts ≥ w.segment_hns
    · have hvalue : (started.seal.start_segment sample).view =
          started.view.seal.start_segment sample := by
        rw [view_start (sound_seal hsound), view_seal]
      exact ((congrArg view (if_pos hroll)).trans hvalue).trans (if_pos hroll).symm
    · exact (congrArg view (if_neg hroll)).trans (if_neg hroll).symm

theorem view_append (h : Sound w w.references) (sample : EncodedSample) :
    (w.append sample).view = w.view.append sample := by
  unfold append SegmentStore.append
  by_cases hempty : sample.bytes.isEmpty = true
  · rw [if_pos hempty, if_pos hempty]
  · rw [if_neg hempty, if_neg hempty]
    rcases roll_spec h sample with ⟨hroll, -, hsome, -⟩
    rcases Option.isSome_iff_exists.mp hsome with ⟨id, hactive⟩
    have hid := hroll.bounded id (mem_references.mpr (.inr (.inl hactive)))
    have hvalue : (w.view.roll sample).active = some ((w.roll sample).segment id) := by
      rw [← view_roll h, view, hactive]
      rfl
    have hlast : (((w.roll sample).write id sample).object id).last_pts =
        (((w.roll sample).segment id).write sample).last_pts := by
      rw [object_write hid]
      rfl
    simp only [hactive, hvalue]
    rw [view_collect (sound_evict (sound_write hroll hactive sample) _), view_evict, hlast,
      view_write hroll hactive, view_roll h]

/-- Every operation on the shared store is that operation on its value; releasing a snapshot does
not touch the value. -/
theorem view_step {e : Event} (h : Sound w w.references) (hstep : step w e = some w') :
    match e with
    | .append sample => w'.view = w.view.append sample
    | .snapshot => w'.view = w.view.snapshot.2
    | .clear => w'.view = w.view.clear
    | .release _ => w'.view = w.view
    | .destroy => w'.view = { w.view with sealed := [], active := none } := by
  cases e with
  | append sample =>
    rw [step] at hstep
    split_ifs at hstep
    cases hstep
    exact view_append h sample
  | snapshot =>
    rw [step] at hstep
    split_ifs at hstep
    cases hstep
    exact view_seal w
  | clear =>
    rw [step] at hstep
    split_ifs at hstep
    cases hstep
    exact view_collect (emptied_sound h w.alive)
  | destroy =>
    rw [step] at hstep
    split_ifs at hstep
    cases hstep
    exact view_collect (emptied_sound h false)
  | release handle =>
    rw [step] at hstep
    split at hstep
    · cases hstep
      exact view_collect (released_sound h handle)
    · cases hstep

def Event.operation : Event → Option Operation
  | .append sample => some (.append sample)
  | .snapshot => some .snapshot
  | .clear => some .clear
  | _ => none

/-- As long as the store is not destroyed, it behaves as the store of values. -/
theorem view_run {files : Files} {retention_hns segment_hns : ℤ} {disk : Bool} {es : List Event}
    (hrun : (machine files retention_hns segment_hns disk).run es = some w)
    (halive : .destroy ∉ es) :
    w.view = (es.filterMap Event.operation).foldl SegmentStore.perform
      { retention_hns, segment_hns, disk } := by
  have hinit : ({ retention_hns, segment_hns, disk } : SegmentStore) =
      (machine files retention_hns segment_hns disk).init.view := rfl
  rw [hinit]
  have hsound := sound_init files retention_hns segment_hns disk
  change (machine files retention_hns segment_hns disk).runFrom _ es = some w at hrun
  generalize (machine files retention_hns segment_hns disk).init = v at hrun hsound
  induction es generalizing v with
  | nil =>
    cases hrun
    rfl
  | cons e es ih =>
    rw [Machine.runFrom_cons] at hrun
    rcases hrun with ⟨m, hm, hrest⟩
    rw [List.mem_cons, not_or] at halive
    rw [ih halive.2 m hrest (step_spec hsound hm).1]
    have hview := view_step hsound hm
    cases e with
    | append sample => rw [hview]; rfl
    | snapshot => rw [hview]; rfl
    | clear => rw [hview]; rfl
    | release handle => rw [hview]; rfl
    | destroy => exact absurd rfl halive.1

theorem segments_view (w : World) :
    w.view.segments = (w.sealed ++ w.active.toList).map w.segment := by
  rw [List.map_append]
  cases hactive : w.active <;> simp [SegmentStore.segments, view, hactive]

/-- Everything referred to can be read. -/
def AllReadable (w : World) : Prop := ∀ id ∈ w.references, Readable (w.segment id)

/-- An event whose sample fits its record. -/
def Event.Fits : Event → Prop
  | .append sample => Storable sample
  | _ => True

instance : DecidablePred Event.Fits
  | .append sample => inferInstanceAs (Decidable (Storable sample))
  | .snapshot | .clear | .release _ | .destroy => instDecidableTrue

theorem exists_held (hid : id ∈ w.lent) :
    ∃ (handle : ℕ) (held : HeldSnapshot), w.snapshots[handle]? = some (some held) ∧
      id ∈ held.segments := by
  rcases List.mem_flatMap.mp hid with ⟨held, hheld, hid⟩
  rcases List.mem_filterMap.mp hheld with ⟨slot, hslot, hsome⟩
  cases hsome
  rcases List.getElem?_of_mem hslot with ⟨handle, hhandle⟩
  exact ⟨handle, held, hhandle, hid⟩

theorem snapshots_append (w : World) (sample : EncodedSample) :
    (w.append sample).snapshots = w.snapshots := by
  have hroll := (roll_fields w sample).2.1
  unfold append
  split_ifs
  · rfl
  · cases hactive : (w.roll sample).active with
    | none => rfl
    | some id => exact hroll

theorem held_step {e : Event} {handle : ℕ} {held : HeldSnapshot} (hstep : step w e = some w')
    (hheld : w'.snapshots[handle]? = some (some held)) :
    w.snapshots[handle]? = some (some held) ∨
      w' = w.snapshot ∧ held.segments = w.sealed ++ w.active.toList := by
  cases e with
  | append sample =>
    rw [step] at hstep
    split_ifs at hstep
    cases hstep
    rw [snapshots_append] at hheld
    exact .inl hheld
  | snapshot =>
    rw [step] at hstep
    split_ifs at hstep
    cases hstep
    change (w.snapshots ++ [_])[handle]? = _ at hheld
    rw [List.getElem?_append] at hheld
    split_ifs at hheld with hlt
    · exact .inl hheld
    · have hmem := List.mem_of_getElem? hheld
      rw [List.mem_singleton, Option.some.injEq] at hmem
      exact .inr ⟨rfl, congrArg HeldSnapshot.segments hmem⟩
  | clear =>
    rw [step] at hstep
    split_ifs at hstep
    cases hstep
    exact .inl hheld
  | destroy =>
    rw [step] at hstep
    split_ifs at hstep
    cases hstep
    exact .inl hheld
  | release other =>
    rw [step] at hstep
    split at hstep
    · cases hstep
      change (w.snapshots.set other none)[handle]? = _ at hheld
      by_cases heq : other = handle
      · subst heq
        rw [List.getElem?_set_self'] at hheld
        cases hslot : w.snapshots[other]? with
        | none => rw [hslot] at hheld; cases hheld
        | some slot => rw [hslot] at hheld; cases hheld
      · rw [List.getElem?_set_ne heq] at hheld
        exact .inl hheld
    · cases hstep

theorem allReadable_step {e : Event} (h : Sound w w.references) (hall : AllReadable w)
    (hfits : e.Fits) (hstep : step w e = some w') : AllReadable w' := by
  have hspec := step_spec h hstep
  -- the segments of the store, as values
  have hvalue : ∀ segment ∈ w.view.segments, Readable segment := by
    intro segment hs
    rw [segments_view] at hs
    rcases List.mem_map.mp hs with ⟨id, hid, rfl⟩
    exact hall id (List.mem_append_left _ hid)
  have hview : ∀ segment ∈ w'.view.segments, Readable segment := by
    have heq := view_step h hstep
    cases e with
    | append sample =>
      rw [heq]
      exact @readable_perform _ (.append sample) hfits hvalue
    | snapshot =>
      rw [heq]
      exact @readable_perform _ .snapshot hfits hvalue
    | clear =>
      rw [heq]
      exact @readable_perform _ .clear hfits hvalue
    | release handle =>
      rw [heq]
      exact hvalue
    | destroy =>
      rw [heq]
      exact fun segment hs => absurd hs (by simp [SegmentStore.segments])
  intro id hid
  rcases List.mem_append.mp hid with hstore | hlent
  · apply hview
    rw [segments_view]
    exact List.mem_map_of_mem hstore
  · rcases exists_held hlent with ⟨handle, held, hheld, hmem⟩
    rcases held_step hstep hheld with hbefore | ⟨rfl, hsegments⟩
    · rcases hspec.2.held handle held hbefore with hnone | ⟨-, hsame⟩
      · rw [hnone] at hheld
        cases hheld
      · have hlent' := mem_lent hbefore hmem
        rw [segment_same h (lent_bounded h hlent') (hsame id hmem)]
        exact hall id (mem_references.mpr (.inr (.inr hlent')))
    · rw [hsegments] at hmem
      exact hall id (List.mem_append_left _ hmem)

theorem allReadable_run {files : Files} {retention_hns segment_hns : ℤ} {disk : Bool}
    {es : List Event} (hfits : ∀ e ∈ es, e.Fits)
    (hrun : (machine files retention_hns segment_hns disk).run es = some w) : AllReadable w := by
  have hinv := Machine.invariant_along (I := fun w => Sound w w.references ∧ AllReadable w)
    (C := fun _ e => e.Fits)
    (fun _ _ _ hs hc h => ⟨(step_spec hs.1 h).1, allReadable_step hs.1 hs.2 hc h⟩)
    (Machine.along_of_forall hfits) hrun
    ⟨sound_init files retention_hns segment_hns disk,
      fun id hid => absurd hid (by simp [machine, references, lent])⟩
  exact hinv.2

theorem read_segment (h : Sound w w.references) (hid : id ∈ w.references) :
    w.read id = (w.segment id).read := by
  have hbound := h.bounded id hid
  unfold read segment Segment.read
  rw [h.mode id hbound]
  cases hdisk : w.disk with
  | false => rfl
  | true =>
    rcases Option.isSome_iff_exists.mp ((h.files hdisk id).mpr hid) with ⟨bytes, hbytes⟩
    rw [if_pos rfl, if_pos rfl, h.path hdisk id hbound, hbytes]
    rfl

theorem isSome_read (h : Sound w w.references) (hall : AllReadable w) (hid : id ∈ w.references) :
    (w.read id).isSome := by
  rcases hall id hid with ⟨samples, hholds, hfits⟩
  rw [read_segment h hid, hholds.read fun _ => hfits]
  rfl

/-- A snapshot that is still held has the segments it had, and each reads as it did. -/
def ReadsSame (w w' : World) : Prop :=
  ∀ (handle : ℕ) (held held' : HeldSnapshot), w.snapshots[handle]? = some (some held) →
    w'.snapshots[handle]? = some (some held') →
    held' = held ∧ ∀ id ∈ held.segments, w'.read id = w.read id

/-- Every segment that a snapshot holds can be read. -/
def Reads (w : World) : Prop := ∀ id ∈ w.lent, (w.read id).isSome

/-- The file of a segment exists exactly while the segment is referred to, and every segment ever
made has a file name of its own that it keeps. -/
structure FilesFollow (w w' : World) : Prop where
  exist : ∀ id < w'.objects.length, (w'.files (w'.object id).path).isSome ↔ id ∈ w'.references
  stay : ∀ id < w.objects.length,
    id < w'.objects.length ∧ (w'.object id).path = (w.object id).path
  differ : ∀ i < w'.objects.length, ∀ j < w'.objects.length,
    (w'.object i).path = (w'.object j).path → i = j

/-- Whatever a run goes on to do, the snapshots still held read the same, they can be read when the
appended samples fit their records, and on disk the files follow the references. -/
theorem held_reads_same (files : Files) (retention_hns segment_hns : ℤ) (disk : Bool)
    (es fs : List Event) (w w' : World)
    (hrun : (machine files retention_hns segment_hns disk).run es = some w)
    (hon : (machine files retention_hns segment_hns disk).runFrom w fs = some w') :
    ReadsSame w w' ∧ ((∀ e ∈ es, e.Fits) → Reads w) ∧ (disk = true → FilesFollow w w') := by
  have hsound := sound_run hrun
  have hlends := lends_run hsound hon
  have hsound' : Sound w' w'.references :=
    Machine.invariant (I := fun w => Sound w w.references) (fun _ _ _ hs h => (step_spec hs h).1)
      hon hsound
  refine ⟨fun handle held held' hheld hheld' => ?_, fun hfits id hid => ?_, fun hdisk => ?_⟩
  · rcases hlends.held handle held hheld with hnone | ⟨hkept, hsame⟩
    · rw [hnone] at hheld'
      cases hheld'
    · rw [hkept] at hheld'
      cases hheld'
      exact ⟨rfl, fun id hid =>
        read_same hsound (lent_bounded hsound (mem_lent hheld hid)) (hsame id hid)⟩
  · exact isSome_read hsound (allReadable_run hfits hrun) (mem_references.mpr (.inr (.inr hid)))
  · have hmode : w.disk = true :=
      (Machine.invariant (I := fun w => w.disk = disk ∧ Sound w w.references)
        (fun _ _ _ hs h => ⟨(step_spec hs.2 h).2.mode.trans hs.1, (step_spec hs.2 h).1⟩) hrun
        ⟨rfl, sound_init files retention_hns segment_hns disk⟩).1.trans hdisk
    have hmode' : w'.disk = true := hlends.mode.trans hmode
    refine ⟨fun id hid => ?_, fun id hid => ?_, fun i hi j hj hpath => ?_⟩
    · rw [hsound'.path hmode' id hid]
      exact hsound'.files hmode' id
    · have hid' := hid.trans_le hlends.length
      exact ⟨hid', (hsound'.path hmode' id hid').trans (hsound.path hmode id hid).symm⟩
    · rw [hsound'.path hmode' i hi, hsound'.path hmode' j hj] at hpath
      exact segment_name_injective hpath

def sharedRun : List Event :=
  [.append ⟨.video, 0, 1, true, [0]⟩, .append ⟨.audio, 1, 1, false, [1]⟩,
    .append ⟨.video, 4, 1, true, [2]⟩, .snapshot]

/-- The snapshot outlives an eviction, a clear and the store. -/
def outlivedRun : List Event :=
  [.append ⟨.video, 20, 1, true, [3]⟩, .snapshot, .clear, .release 1, .destroy]

theorem sharedRun_accepted : ((machine (fun _ => none) 8 2 true).run sharedRun).isSome := by
  decide +kernel

theorem outlivedRun_accepted : ((machine (fun _ => none) 8 2 true).runFrom
    (((machine (fun _ => none) 8 2 true).run sharedRun).get sharedRun_accepted)
    outlivedRun).isSome := by
  decide +kernel

theorem held_reads_sharedRun :
    ReadsSame (((machine (fun _ => none) 8 2 true).run sharedRun).get sharedRun_accepted)
        (((machine (fun _ => none) 8 2 true).runFrom
          (((machine (fun _ => none) 8 2 true).run sharedRun).get sharedRun_accepted)
          outlivedRun).get outlivedRun_accepted) ∧
      ((∀ e ∈ sharedRun, e.Fits) →
        Reads (((machine (fun _ => none) 8 2 true).run sharedRun).get sharedRun_accepted)) ∧
      (true = true →
        FilesFollow (((machine (fun _ => none) 8 2 true).run sharedRun).get sharedRun_accepted)
          (((machine (fun _ => none) 8 2 true).runFrom
            (((machine (fun _ => none) 8 2 true).run sharedRun).get sharedRun_accepted)
            outlivedRun).get outlivedRun_accepted)) :=
  held_reads_same (fun _ => none) 8 2 true sharedRun outlivedRun _ _ (Option.some_get _).symm
    (Option.some_get _).symm

end World
end GambitRecord.Replay
