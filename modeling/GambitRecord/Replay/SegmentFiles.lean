import Mathlib.Data.List.Basic
import GambitRecord.Library.DigitText
import GambitRecord.Library.Runs
import GambitRecord.Replay.SegmentStore

/-! # Segments shared with snapshots

`SegmentStore` with its segments as objects that the store and the snapshots
refer to, and with the files of the cache directory. An object is destroyed
with the last reference to it, and in disk mode its file goes with it. The
bytes of an open file stand in it at once; no file operation fails.
-/

namespace GambitRecord.Replay
open Library Library.DigitText Library.Runs Recorder

/-- `segment_{:08}.eseg`. -/
def segment_name (sequence : ℕ) : Text := text "segment_" ++ (padded 8 sequence ++ text ".eseg")

theorem segment_name_injective : Function.Injective segment_name := by
  intro i j h
  have hpadded := List.append_cancel_right (List.append_cancel_left h)
  have hvalue := congrArg value hpadded
  rwa [value_padded, value_padded] at hvalue

/-- The file names that `initialize` clears. -/
def stale (name : Text) : Bool :=
  (text "segment_").isPrefixOf name && (text ".eseg").isSuffixOf name

abbrev Files : Type := Text → Option (List UInt8)

/-- A segment; it has a file on disk or samples in memory. -/
structure SegmentObject where
  path : Text
  memory_samples : List EncodedSample
  first_pts : ℤ
  last_pts : ℤ
  disk : Bool
  deriving DecidableEq, Inhabited

structure HeldSnapshot where
  segments : List ℕ
  available_hns : ℤ
  deriving DecidableEq

/-- A store, every segment it has made, and the snapshots taken; a released snapshot is `none`. -/
structure World where
  objects : List SegmentObject := []
  files : Files
  retention_hns : ℤ
  segment_hns : ℤ
  disk : Bool
  sealed : List ℕ := []
  active : Option ℕ := none
  sequence : ℕ := 0
  alive : Bool := true
  snapshots : List (Option HeldSnapshot) := []

namespace World

def object (w : World) (id : ℕ) : SegmentObject := (w.objects[id]?).getD default

/-- What the snapshots still held refer to. -/
def lent (w : World) : List ℕ := (w.snapshots.filterMap id).flatMap HeldSnapshot.segments

/-- What the store and the snapshots refer to. -/
def references (w : World) : List ℕ := w.sealed ++ w.active.toList ++ w.lent

/-- `~Segment`. -/
def destroy_segment (w : World) (files : Files) (id : ℕ) : Files :=
  if (w.object id).disk ∧ (w.object id).path ≠ [] then
    Function.update files (w.object id).path none
  else files

/-- The segments that were referred to and no longer are go. -/
def collect (w : World) (before : List ℕ) : World :=
  { w with
    files := (before.filter fun id => id ∉ w.references).foldl w.destroy_segment w.files }

/-- `Segment::read`; `none` is a thrown exception. -/
def read (w : World) (id : ℕ) : Option (List EncodedSample) :=
  if (w.object id).disk then
    (w.files (w.object id).path).bind fun bytes => readRecords bytes.length bytes
  else some (w.object id).memory_samples

def initialize_files (disk : Bool) (files : Files) : Files :=
  fun name => if disk ∧ stale name then none else files name

def start_segment (w : World) (sample : EncodedSample) : World :=
  { w with
    objects := w.objects ++
      [⟨if w.disk then segment_name w.sequence else [], [], sample.pts, sample.pts, w.disk⟩]
    files := if w.disk then Function.update w.files (segment_name w.sequence) (some []) else w.files
    active := some w.objects.length
    sequence := if w.disk then w.sequence + 1 else w.sequence }

def «seal» (w : World) : World :=
  { w with sealed := w.sealed ++ w.active.toList, active := none }

def evict (w : World) (newest_pts : ℤ) : World :=
  { w with
    sealed := w.sealed.dropWhile fun id => (w.object id).last_pts < newest_pts - w.retention_hns }

def write (w : World) (id : ℕ) (sample : EncodedSample) : World :=
  { w with
    objects := w.objects.set id
      { w.object id with
        last_pts := max (w.object id).last_pts sample.end
        memory_samples :=
          if w.disk then (w.object id).memory_samples
          else (w.object id).memory_samples ++ [sample] }
    files :=
      if w.disk then
        Function.update w.files (w.object id).path
          ((w.files (w.object id).path).map fun bytes => bytes ++ record sample)
      else w.files }

def roll (w : World) (sample : EncodedSample) : World :=
  let started := if w.active.isSome then w else w.start_segment sample
  match started.active with
  | none => started
  | some id =>
    if sample.isVideoKeyframe ∧ sample.pts - (started.object id).first_pts ≥ w.segment_hns then
      started.seal.start_segment sample
    else started

def append (w : World) (sample : EncodedSample) : World :=
  if sample.bytes.isEmpty then w
  else
    match (w.roll sample).active with
    | none => w
    | some id =>
      let written := (w.roll sample).write id sample
      (written.evict (written.object id).last_pts).collect written.references

def snapshot (w : World) : World :=
  { w.seal with
    snapshots := w.snapshots ++
      [some ⟨w.seal.sealed,
        match w.seal.sealed.head?, w.seal.sealed.getLast? with
        | some front, some back => max 0 ((w.object back).last_pts - (w.object front).first_pts)
        | _, _ => 0⟩] }

def clear (w : World) : World := { w.seal with sealed := [] }.collect w.references

inductive Event where
  | append (sample : EncodedSample)
  | snapshot
  | clear
  /-- A snapshot is no longer needed. -/
  | release (handle : ℕ)
  /-- The store is destroyed; snapshots may outlive it. -/
  | destroy
  deriving DecidableEq

def step (w : World) : Event → Option World
  | .append sample => if w.alive then some (w.append sample) else none
  | .snapshot => if w.alive then some w.snapshot else none
  | .clear => if w.alive then some w.clear else none
  | .release handle =>
    match w.snapshots[handle]? with
    | some (some _) =>
      some ({ w with snapshots := w.snapshots.set handle none }.collect w.references)
    | _ => none
  | .destroy =>
    if w.alive then
      some ({ w with sealed := [], active := none, alive := false }.collect w.references)
    else none

def machine (files : Files) (retention_hns segment_hns : ℤ) (disk : Bool) :
    Machine World Event where
  init := { files := initialize_files disk files, retention_hns, segment_hns, disk }
  step := step

end World
end GambitRecord.Replay
