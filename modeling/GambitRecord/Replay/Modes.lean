import Mathlib.Data.List.Forall2
import GambitRecord.Replay.Window

/-! # The two storage modes

A store in memory and one on disk, given the same operations, tell the same and
read back the same.
-/

namespace GambitRecord.Replay
open Recorder

/-- What can be seen of a store after an operation. -/
structure Observation where
  segment_count : ℕ
  available_hns : ℤ
  /-- Of a snapshot: its length, and the samples of each of its segments. -/
  snapshot : Option (ℤ × Option (List (List EncodedSample)))
  deriving DecidableEq

namespace SegmentStore

def observe (store : SegmentStore) (op : Operation) : Observation where
  segment_count := (store.perform op).segment_count
  available_hns := (store.perform op).available_hns
  snapshot := match op with
    | .snapshot =>
      some (store.snapshot.1.available_hns, store.snapshot.1.segments.mapM Segment.read)
    | _ => none

def observations : SegmentStore → List Operation → List Observation
  | _, [] => []
  | store, op :: ops => store.observe op :: (store.perform op).observations ops

end SegmentStore

/-- Two segments with the same times and samples, each in its own form. -/
structure Twin (memory disk : Segment) : Prop where
  first : memory.first_pts = disk.first_pts
  last : memory.last_pts = disk.last_pts
  samples : ∃ samples, memory.Holds samples ∧ disk.Holds samples ∧ ∀ s ∈ samples, Storable s

theorem Twin.read {memory disk : Segment} (h : Twin memory disk) :
    memory.read = disk.read ∧ memory.read.isSome := by
  rcases h.samples with ⟨samples, hmemory, hdisk, hfits⟩
  have hm := hmemory.read fun _ => hfits
  have hd := hdisk.read fun _ => hfits
  exact ⟨hm.trans hd.symm, by rw [hm]; rfl⟩

theorem Twin.write {memory disk : Segment} (h : Twin memory disk) {sample : EncodedSample}
    (hfits : Storable sample) : Twin (memory.write sample) (disk.write sample) := by
  refine ⟨h.first, ?_, ?_⟩
  · change max memory.last_pts sample.end = max disk.last_pts sample.end
    rw [h.last]
  · rcases h.samples with ⟨samples, hmemory, hdisk, hall⟩
    refine ⟨samples ++ [sample], hmemory.write sample, hdisk.write sample, fun s hs => ?_⟩
    rcases List.mem_append.mp hs with hs | hs
    · exact hall s hs
    · rw [List.mem_singleton.mp hs]
      exact hfits

/-- Two stores with the same limits and the same segments. -/
structure Twins (memory disk : SegmentStore) : Prop where
  retention : memory.retention_hns = disk.retention_hns
  length : memory.segment_hns = disk.segment_hns
  sealed : List.Forall₂ Twin memory.sealed disk.sealed
  active : Option.Rel Twin memory.active disk.active

theorem forall₂_dropWhile {α β : Type*} {R : α → β → Prop} {p : α → Bool} {q : β → Bool}
    (hpq : ∀ a b, R a b → p a = q b) {l : List α} {m : List β} (h : List.Forall₂ R l m) :
    List.Forall₂ R (l.dropWhile p) (m.dropWhile q) := by
  induction h with
  | nil => exact .nil
  | cons hab hrest ih =>
    rename_i a b l m
    rw [List.dropWhile_cons, List.dropWhile_cons, hpq a b hab]
    cases q b with
    | true => exact ih
    | false => exact .cons hab hrest

namespace Twins
variable {memory disk : SegmentStore}

theorem start_segment (h : Twins memory disk) (sample : EncodedSample) :
    Twins (memory.start_segment sample) (disk.start_segment sample) := by
  rcases memory.start_segment_spec sample with ⟨fresh, hfresh, hfirst, hok, -⟩
  rcases disk.start_segment_spec sample with ⟨fresh', hfresh', hfirst', hok', -⟩
  refine ⟨h.retention, h.length, h.sealed, ?_⟩
  rw [hfresh, hfresh']
  refine .some ⟨hfirst.trans hfirst'.symm, ?_, [], hok.holds, hok'.holds, by simp⟩
  have hlast := hok.reached.resolve_right (by simp)
  have hlast' := hok'.reached.resolve_right (by simp)
  rw [hlast, hlast', hfirst, hfirst']

theorem active_cases (h : Twins memory disk) :
    (memory.active = none ∧ disk.active = none) ∨
      ∃ m d, memory.active = some m ∧ disk.active = some d ∧ Twin m d := by
  have hrel := h.active
  cases hm : memory.active with
  | none =>
    cases hd : disk.active with
    | none => exact .inl ⟨rfl, rfl⟩
    | some d =>
      rw [hm, hd] at hrel
      cases hrel
  | some m =>
    cases hd : disk.active with
    | none =>
      rw [hm, hd] at hrel
      cases hrel
    | some d =>
      rw [hm, hd] at hrel
      cases hrel with
      | some hmd => exact .inr ⟨m, d, rfl, rfl, hmd⟩

theorem segments (h : Twins memory disk) :
    List.Forall₂ Twin memory.segments disk.segments := by
  have hactive : List.Forall₂ Twin memory.active.toList disk.active.toList := by
    rcases h.active_cases with ⟨hm, hd⟩ | ⟨m, d, hm, hd, hmd⟩
    · rw [hm, hd]
      exact .nil
    · rw [hm, hd]
      exact .cons hmd .nil
  exact List.rel_append h.sealed hactive

theorem «seal» (h : Twins memory disk) : Twins memory.seal disk.seal :=
  ⟨h.retention, h.length, h.segments, .none⟩

theorem evict (h : Twins memory disk) {newest newest' : ℤ} (hnewest : newest = newest') :
    Twins (memory.evict newest) (disk.evict newest') := by
  refine ⟨h.retention, h.length, forall₂_dropWhile (fun a b hab => ?_) h.sealed, h.active⟩
  rw [hab.last, hnewest, h.retention]

theorem roll (h : Twins memory disk) (sample : EncodedSample) :
    Twins (memory.roll sample) (disk.roll sample) := by
  have hstarted : Twins
      (if memory.active.isSome then memory else memory.start_segment sample)
      (if disk.active.isSome then disk else disk.start_segment sample) := by
    rcases h.active_cases with ⟨hm, hd⟩ | ⟨m, d, hm, hd, -⟩
    · rw [hm, hd]
      exact h.start_segment sample
    · rw [hm, hd]
      exact h
  unfold SegmentStore.roll
  simp only
  generalize (if memory.active.isSome then memory else memory.start_segment sample) = m at hstarted
  generalize (if disk.active.isSome then disk else disk.start_segment sample) = d at hstarted
  rcases hstarted.active_cases with ⟨hm, hd⟩ | ⟨a, b, hm, hd, hab⟩
  · simp only [hm, hd]
    exact hstarted
  · simp only [hm, hd, hab.first, h.length]
    split_ifs
    · exact hstarted.seal.start_segment sample
    · exact hstarted

theorem append (h : Twins memory disk) {sample : EncodedSample} (hfits : Storable sample) :
    Twins (memory.append sample) (disk.append sample) := by
  unfold SegmentStore.append
  by_cases hne : sample.bytes.isEmpty = true
  · rw [if_pos hne, if_pos hne]
    exact h
  · rw [if_neg hne, if_neg hne]
    have hroll := h.roll sample
    rcases hroll.active_cases with ⟨hm, hd⟩ | ⟨m, d, hm, hd, hmd⟩
    · simp only [hm, hd]
      exact h
    · simp only [hm, hd]
      have hwrite := hmd.write hfits
      have hwritten : Twins { memory.roll sample with active := some (m.write sample) }
          { disk.roll sample with active := some (d.write sample) } :=
        ⟨hroll.retention, hroll.length, hroll.sealed, .some hwrite⟩
      exact hwritten.evict hwrite.last

theorem perform (h : Twins memory disk) {op : Operation} (hfits : op.Fits) :
    Twins (memory.perform op) (disk.perform op) := by
  cases op with
  | append sample => exact h.append hfits
  | snapshot => exact h.seal
  | clear => exact ⟨h.retention, h.length, .nil, .none⟩

theorem read (h : Twins memory disk) :
    memory.segments.mapM Segment.read = disk.segments.mapM Segment.read ∧
      (memory.segments.mapM Segment.read).isSome := by
  have hsegments := h.segments
  generalize memory.segments = ms at hsegments
  generalize disk.segments = ds at hsegments
  induction hsegments with
  | nil => exact ⟨rfl, rfl⟩
  | cons hmd _ ih =>
    rename_i m d ms ds
    rcases hmd.read with ⟨hread, hsome⟩
    rcases Option.isSome_iff_exists.mp hsome with ⟨samples, hsamples⟩
    rcases Option.isSome_iff_exists.mp ih.2 with ⟨rest, hrest⟩
    rw [List.mapM_cons, List.mapM_cons, ← hread, ← ih.1, hsamples, hrest]
    exact ⟨rfl, rfl⟩

theorem segment_count (h : Twins memory disk) : memory.segment_count = disk.segment_count := by
  unfold SegmentStore.segment_count
  rw [h.sealed.length_eq]
  rcases h.active_cases with ⟨hm, hd⟩ | ⟨m, d, hm, hd, -⟩
  · rw [hm, hd]
  · rw [hm, hd]
    rfl

theorem times (h : Twins memory disk) :
    (memory.segments.map fun segment => (segment.first_pts, segment.last_pts)) =
      disk.segments.map fun segment => (segment.first_pts, segment.last_pts) := by
  have hsegments := h.segments
  generalize memory.segments = ms at hsegments
  generalize disk.segments = ds at hsegments
  induction hsegments with
  | nil => rfl
  | cons hmd _ ih => rw [List.map_cons, List.map_cons, ih, hmd.first, hmd.last]

theorem available_hns (h : Twins memory disk) : memory.available_hns = disk.available_hns := by
  have hspan (store : SegmentStore) : store.available_hns =
      (((store.segments.map fun segment => (segment.first_pts, segment.last_pts)).head?.bind
        fun front =>
          (store.segments.map fun segment => (segment.first_pts, segment.last_pts)).getLast?.map
            fun back => max 0 (back.2 - front.1)).getD 0) := by
    rw [← SegmentStore.available_hns_snapshot, List.head?_map, List.getLast?_map]
    unfold SegmentStore.snapshot
    cases store.segments.head? <;> cases store.segments.getLast? <;> rfl
  rw [hspan memory, hspan disk, h.times]

theorem observe (h : Twins memory disk) {op : Operation} (hfits : op.Fits) :
    memory.observe op = disk.observe op := by
  have hnext := h.perform hfits
  unfold SegmentStore.observe
  rw [hnext.segment_count, hnext.available_hns]
  cases op with
  | snapshot =>
    rw [SegmentStore.available_hns_snapshot, SegmentStore.available_hns_snapshot, h.available_hns]
    change Observation.mk _ _ (some (_, memory.segments.mapM Segment.read)) =
      Observation.mk _ _ (some (_, disk.segments.mapM Segment.read))
    rw [h.read.1]
  | append sample => rfl
  | clear => rfl

end Twins

/-- Two stores that differ in their mode cannot be told apart by any operations, and the records of
any samples read back as the samples. -/
theorem observations_eq (retention_hns segment_hns : ℤ) (ops : List Operation)
    (hops : ∀ op ∈ ops, op.Fits) :
    SegmentStore.observations { retention_hns, segment_hns, disk := false } ops =
        SegmentStore.observations { retention_hns, segment_hns, disk := true } ops ∧
      ∀ first last file samples, (∀ s ∈ samples, Storable s) →
        Segment.read ⟨first, last, .disk file (samples.flatMap record)⟩ = some samples := by
  refine ⟨?_, fun first last file samples hfits => readRecords_flatMap hfits le_rfl⟩
  have htwins : Twins { retention_hns, segment_hns, disk := false }
      { retention_hns, segment_hns, disk := true } := ⟨rfl, rfl, .nil, .none⟩
  generalize ({ retention_hns, segment_hns, disk := false } : SegmentStore) = memory at htwins
  generalize ({ retention_hns, segment_hns, disk := true } : SegmentStore) = disk at htwins
  induction ops generalizing memory disk with
  | nil => rfl
  | cons op ops ih =>
    have hfits := hops op (List.mem_cons_self ..)
    rw [SegmentStore.observations, SegmentStore.observations, htwins.observe hfits,
      ih (fun o ho => hops o (List.mem_cons_of_mem op ho)) _ _ (htwins.perform hfits)]

theorem observations_eq_clearedRun :
    SegmentStore.observations { retention_hns := 4, segment_hns := 2, disk := false }
        StoreRun.clearedRun =
      SegmentStore.observations { retention_hns := 4, segment_hns := 2, disk := true }
        StoreRun.clearedRun ∧
      ∀ first last file samples, (∀ s ∈ samples, Storable s) →
        Segment.read ⟨first, last, .disk file (samples.flatMap record)⟩ = some samples :=
  observations_eq 4 2 StoreRun.clearedRun (by decide +kernel)

end GambitRecord.Replay
