import GambitRecord.Replay.SegmentFiles

/-! # What steps do to shared segments

The files of a store are those of the segments referred to, no file name is used
twice, and a segment that a snapshot refers to stays as it is.
-/

namespace GambitRecord.Replay
open Library Library.DigitText Library.Runs Recorder

theorem segment_name_ne_nil (id : ℕ) : segment_name id ≠ [] := by
  simp [segment_name, padded, decimal_ne_nil]

namespace World
variable {w w' : World} {live : List ℕ} {id : ℕ}

/-- The files are those of the live segments, which are all that is referred to and perhaps more;
only the store refers to the active segment. -/
structure Sound (w : World) (live : List ℕ) : Prop where
  referenced : ∀ id ∈ w.references, id ∈ live
  bounded : ∀ id ∈ live, id < w.objects.length
  mode : ∀ id < w.objects.length, (w.object id).disk = w.disk
  path : w.disk = true → ∀ id < w.objects.length, (w.object id).path = segment_name id
  numbered : w.disk = true → w.sequence = w.objects.length
  files : w.disk = true → ∀ id, (w.files (segment_name id)).isSome ↔ id ∈ live
  active : ∀ id, w.active = some id → id ∉ w.sealed ∧ id ∉ w.lent

/-- A segment and its file are as they were. -/
structure Same (w w' : World) (id : ℕ) : Prop where
  object : w'.object id = w.object id
  file : w'.files (segment_name id) = w.files (segment_name id)

theorem Same.trans {u : World} (h : Same w w' id) (h' : Same w' u id) : Same w u id :=
  ⟨h'.object.trans h.object, h'.file.trans h.file⟩

theorem mem_references : id ∈ w.references ↔ id ∈ w.sealed ∨ w.active = some id ∨ id ∈ w.lent := by
  simp [references]

theorem object_append_old {o : SegmentObject} {objects : List SegmentObject}
    (h : w'.objects = objects ++ [o]) (hid : id < objects.length) :
    w'.object id = (objects[id]?).getD default := by
  rw [object, h, List.getElem?_append_left hid]

theorem object_append_new {o : SegmentObject} {objects : List SegmentObject}
    (h : w'.objects = objects ++ [o]) : w'.object objects.length = o := by
  rw [object, h, List.getElem?_concat_length, Option.getD_some]

theorem Sound.congr {live' : List ℕ} (h : Sound w live) (hiff : ∀ id, id ∈ live ↔ id ∈ live') :
    Sound w live' where
  referenced id hid := (hiff id).mp (h.referenced id hid)
  bounded id hid := h.bounded id ((hiff id).mpr hid)
  mode := h.mode
  path := h.path
  numbered := h.numbered
  files hdisk id := (h.files hdisk id).trans (hiff id)
  active := h.active

theorem same_start (h : Sound w live) (hid : id < w.objects.length) (sample : EncodedSample) :
    Same w (w.start_segment sample) id := by
  refine ⟨object_append_old rfl hid, ?_⟩
  change (if w.disk then Function.update w.files (segment_name w.sequence) (some [])
    else w.files) (segment_name id) = _
  split_ifs with hdisk
  · rw [Function.update_of_ne]
    intro heq
    have := segment_name_injective heq
    have := h.numbered hdisk
    omega
  · rfl

theorem sound_start (h : Sound w w.references) (hactive : w.active = none)
    (sample : EncodedSample) :
    Sound (w.start_segment sample) (w.start_segment sample).references := by
  have hrefs : ∀ id, id ∈ (w.start_segment sample).references ↔
      id ∈ w.references ∨ id = w.objects.length := by
    intro id
    rw [mem_references, mem_references, hactive]
    change id ∈ w.sealed ∨ some w.objects.length = some id ∨ id ∈ w.lent ↔ _
    simp only [Option.some.injEq, reduceCtorEq, false_or, eq_comm (a := w.objects.length)]
    tauto
  have hlength : (w.start_segment sample).objects.length = w.objects.length + 1 := by
    simp [start_segment]
  have hnew := @object_append_new (w.start_segment sample) _ _ rfl
  have hold (id : ℕ) (hid : id < w.objects.length) := (same_start h hid sample).object
  refine ⟨fun id hid => hid, fun id hid => ?_, fun id hid => ?_, fun hdisk id hid => ?_,
    fun hdisk => ?_, fun hdisk id => ?_, fun id hid => ?_⟩
  · rw [hlength]
    rcases (hrefs id).mp hid with hid | hid
    · have := h.bounded id hid
      omega
    · omega
  · change ((w.start_segment sample).object id).disk = w.disk
    rw [hlength] at hid
    rcases Nat.lt_succ_iff_lt_or_eq.mp hid with hid | rfl
    · rw [hold id hid, h.mode id hid]
    · rw [hnew]
  · rw [hlength] at hid
    rcases Nat.lt_succ_iff_lt_or_eq.mp hid with hid | rfl
    · rw [hold id hid, h.path hdisk id hid]
    · have hdisk' : w.disk = true := hdisk
      rw [hnew, ← h.numbered hdisk', if_pos hdisk']
  · have hdisk' : w.disk = true := hdisk
    rw [hlength]
    change (if w.disk then w.sequence + 1 else w.sequence) = _
    rw [if_pos hdisk', h.numbered hdisk']
  · have hdisk' : w.disk = true := hdisk
    rw [hrefs]
    change ((if w.disk then Function.update w.files (segment_name w.sequence) (some [])
      else w.files) (segment_name id)).isSome ↔ _
    rw [if_pos hdisk', h.numbered hdisk']
    by_cases heq : id = w.objects.length
    · rw [heq, Function.update_self]
      simp
    · rw [Function.update_of_ne fun hname => heq (segment_name_injective hname), h.files hdisk']
      simp [heq]
  · cases hid
    refine ⟨fun hmem => ?_, fun hmem => ?_⟩
    · exact absurd (h.bounded _ (mem_references.mpr (.inl hmem))) (lt_irrefl _)
    · exact absurd (h.bounded _ (mem_references.mpr (.inr (.inr hmem)))) (lt_irrefl _)

theorem sound_seal (h : Sound w w.references) : Sound w.seal w.seal.references := by
  have hrefs : ∀ id, id ∈ w.references ↔ id ∈ w.seal.references := by
    intro id
    simp only [mem_references, «seal», List.mem_append, Option.mem_toList]
    change _ ↔ (_ ∨ _) ∨ none = some id ∨ id ∈ w.lent
    simp [or_assoc]
  have hsound := h.congr hrefs
  exact ⟨fun id hid => hid, hsound.bounded, h.mode, h.path, h.numbered, hsound.files,
    fun id hid => by cases hid⟩

theorem object_write {sample : EncodedSample} (hid : id < w.objects.length) :
    (w.write id sample).object id =
      { w.object id with
        last_pts := max (w.object id).last_pts sample.end
        memory_samples :=
          if w.disk then (w.object id).memory_samples
          else (w.object id).memory_samples ++ [sample] } := by
  change ((w.objects.set id _)[id]?).getD default = _
  rw [List.getElem?_set_self hid, Option.getD_some]

theorem same_write (h : Sound w live) {other : ℕ} (hid : id < w.objects.length)
    (hne : other ≠ id) (sample : EncodedSample) : Same w (w.write id sample) other := by
  refine ⟨?_, ?_⟩
  · change ((w.objects.set id _)[other]?).getD default = _
    rw [List.getElem?_set_ne hne.symm]
    rfl
  · change (if w.disk then Function.update w.files (w.object id).path _ else w.files)
      (segment_name other) = _
    split_ifs with hdisk
    · rw [h.path hdisk id hid, Function.update_of_ne]
      exact fun hname => hne (segment_name_injective hname)
    · rfl

theorem sound_write (h : Sound w w.references) (hactive : w.active = some id)
    (sample : EncodedSample) : Sound (w.write id sample) (w.write id sample).references := by
  have hid : id < w.objects.length := h.bounded id (mem_references.mpr (.inr (.inl hactive)))
  have hlength : (w.write id sample).objects.length = w.objects.length := by simp [write]
  have hobject (other : ℕ) : ((w.write id sample).object other).disk = (w.object other).disk ∧
      ((w.write id sample).object other).path = (w.object other).path := by
    by_cases hne : other = id
    · rw [hne, object_write hid]
      exact ⟨rfl, rfl⟩
    · rw [(same_write h hid hne sample).object]
      exact ⟨rfl, rfl⟩
  refine ⟨fun other hother => hother, fun other hother => ?_, fun other hother => ?_,
    fun hdisk other hother => ?_, fun hdisk => ?_, fun hdisk other => ?_, h.active⟩
  · rw [hlength]
    exact h.bounded other hother
  · rw [hlength] at hother
    rw [(hobject other).1]
    exact h.mode other hother
  · rw [hlength] at hother
    rw [(hobject other).2]
    exact h.path hdisk other hother
  · rw [hlength]
    exact h.numbered hdisk
  · have hdisk' : w.disk = true := hdisk
    change ((w.write id sample).files (segment_name other)).isSome ↔ other ∈ w.references
    by_cases hne : other = id
    · rw [hne, ← h.files hdisk']
      change ((if w.disk then Function.update w.files (w.object id).path _ else w.files)
        (segment_name id)).isSome ↔ _
      rw [if_pos hdisk', h.path hdisk' id hid, Function.update_self, Option.isSome_map]
    · rw [(same_write h hid hne sample).file]
      exact h.files hdisk' other

/-- After the destructors, a file is gone when it was that of a segment that went. -/
theorem files_destroy (ids : List ℕ) (files : Files) (name : Text) :
    ids.foldl w.destroy_segment files name =
      if ∃ id ∈ ids, ((w.object id).disk = true ∧ (w.object id).path ≠ []) ∧
        (w.object id).path = name then none else files name := by
  induction ids generalizing files with
  | nil => simp
  | cons id ids ih =>
    rw [List.foldl_cons, ih]
    simp only [List.exists_mem_cons_iff]
    by_cases hrest : ∃ id ∈ ids, ((w.object id).disk = true ∧ (w.object id).path ≠ []) ∧
        (w.object id).path = name
    · rw [if_pos hrest, if_pos (.inr hrest)]
    · rw [if_neg hrest]
      simp only [hrest, or_false]
      unfold destroy_segment
      by_cases hdestroy : (w.object id).disk = true ∧ (w.object id).path ≠ []
      · rw [if_pos hdestroy]
        by_cases hname : (w.object id).path = name
        · rw [if_pos ⟨hdestroy, hname⟩, hname, Function.update_self]
        · rw [if_neg fun h => hname h.2, Function.update_of_ne fun h => hname h.symm]
      · rw [if_neg hdestroy, if_neg fun h => hdestroy h.1]

theorem files_collect (h : Sound w live) (hdisk : w.disk = true) (id : ℕ) :
    (w.collect live).files (segment_name id) =
      if id ∈ live ∧ id ∉ w.references then none else w.files (segment_name id) := by
  change (live.filter fun id => id ∉ w.references).foldl w.destroy_segment w.files
    (segment_name id) = _
  rw [files_destroy]
  congr 1
  refine propext ⟨?_, fun hid => ?_⟩
  · rintro ⟨other, hother, -, hname⟩
    have hmem := List.mem_filter.mp hother
    rw [h.path hdisk other (h.bounded other hmem.1)] at hname
    rw [← segment_name_injective hname]
    exact ⟨hmem.1, of_decide_eq_true hmem.2⟩
  · have hbound := h.bounded id hid.1
    refine ⟨id, List.mem_filter.mpr ⟨hid.1, decide_eq_true hid.2⟩, ⟨?_, ?_⟩, h.path hdisk id hbound⟩
    · rw [h.mode id hbound, hdisk]
    · rw [h.path hdisk id hbound]
      exact segment_name_ne_nil id

theorem files_collect_memory (h : Sound w live) (hdisk : w.disk = false) :
    (w.collect live).files = w.files := by
  funext name
  change (live.filter fun id => id ∉ w.references).foldl w.destroy_segment w.files name = _
  rw [files_destroy, if_neg]
  rintro ⟨id, hid, ⟨hobject, -⟩, -⟩
  rw [h.mode id (h.bounded id (List.mem_filter.mp hid).1), hdisk] at hobject
  exact absurd hobject (by simp)

theorem same_collect (h : Sound w live) (hid : id ∈ w.references) :
    Same w (w.collect live) id := by
  refine ⟨rfl, ?_⟩
  cases hdisk : w.disk with
  | true => rw [files_collect h hdisk, if_neg fun hgone => hgone.2 hid]
  | false => rw [files_collect_memory h hdisk]

theorem sound_collect (h : Sound w live) :
    Sound (w.collect live) (w.collect live).references := by
  refine ⟨fun id hid => hid, fun id hid => h.bounded id (h.referenced id hid), h.mode, h.path,
    h.numbered, fun hdisk id => ?_, h.active⟩
  have hdisk' : w.disk = true := hdisk
  change _ ↔ id ∈ w.references
  rw [files_collect h hdisk']
  by_cases hid : id ∈ w.references
  · rw [if_neg fun hgone => hgone.2 hid, h.files hdisk']
    exact ⟨fun _ => hid, fun _ => h.referenced id hid⟩
  · split_ifs with hgone
    · simp [hid]
    · rw [h.files hdisk']
      exact ⟨fun hlive => absurd ⟨hlive, hid⟩ hgone, fun hmem => absurd hmem hid⟩

theorem Sound.drop (h : Sound w live) (hobjects : w'.objects = w.objects)
    (hfiles : w'.files = w.files) (hmode : w'.disk = w.disk) (hnumber : w'.sequence = w.sequence)
    (hrefs : ∀ id ∈ w'.references, id ∈ live)
    (hactive : ∀ id, w'.active = some id → id ∉ w'.sealed ∧ id ∉ w'.lent) : Sound w' live := by
  have hobject : w'.object = w.object := by
    funext id
    unfold object
    rw [hobjects]
  refine ⟨hrefs, ?_, ?_, ?_, ?_, ?_, hactive⟩
  · rw [hobjects]
    exact h.bounded
  · rw [hobjects, hobject, hmode]
    exact h.mode
  · rw [hobjects, hobject, hmode]
    exact h.path
  · rw [hobjects, hmode, hnumber]
    exact h.numbered
  · rw [hmode, hfiles]
    exact h.files

theorem sound_evict (h : Sound w live) (newest : ℤ) : Sound (w.evict newest) live := by
  have hsealed : ∀ id ∈ (w.evict newest).sealed, id ∈ w.sealed := fun id hid =>
    List.dropWhile_sublist _ |>.subset hid
  refine h.drop rfl rfl rfl rfl (fun id hid => h.referenced id ?_) fun id hid => ?_
  · rw [mem_references] at hid ⊢
    exact hid.imp_left (hsealed id)
  · exact ⟨fun hmem => (h.active id hid).1 (hsealed id hmem), (h.active id hid).2⟩

/-- What `roll` and `append` keep of every segment made before. -/
theorem roll_spec (h : Sound w w.references) (sample : EncodedSample) :
    Sound (w.roll sample) (w.roll sample).references ∧
      (w.roll sample).lent = w.lent ∧ (w.roll sample).active.isSome ∧
      ∀ id < w.objects.length, Same w (w.roll sample) id := by
  have hstarted : ∀ started, started = (if w.active.isSome then w else w.start_segment sample) →
      Sound started started.references ∧ started.lent = w.lent ∧ started.active.isSome ∧
        w.objects.length ≤ started.objects.length ∧
        ∀ id < w.objects.length, Same w started id := by
    intro started hs
    cases hactive : w.active with
    | some id =>
      rw [hactive] at hs
      subst hs
      exact ⟨h, rfl, by rw [hactive]; rfl, le_rfl, fun id _ => ⟨rfl, rfl⟩⟩
    | none =>
      rw [hactive] at hs
      subst hs
      exact ⟨sound_start h hactive sample, rfl, rfl, by simp [start_segment],
        fun id hid => same_start h hid sample⟩
  unfold roll
  simp only
  generalize hs : (if w.active.isSome then w else w.start_segment sample) = started
  rcases hstarted started hs.symm with ⟨hsound, hlent, hsome, hlength, hsame⟩
  rcases Option.isSome_iff_exists.mp hsome with ⟨id, hactive⟩
  simp only [hactive]
  split_ifs
  · refine ⟨sound_start (sound_seal hsound) rfl sample, hlent, rfl, fun id hid => ?_⟩
    have hsealed : Same started started.seal id := ⟨rfl, rfl⟩
    have hid' : id < started.seal.objects.length := hid.trans_le hlength
    exact (hsame id hid).trans (hsealed.trans (same_start (sound_seal hsound) hid' sample))
  · exact ⟨hsound, hlent, by rw [hactive]; rfl, hsame⟩

theorem lent_bounded (h : Sound w w.references) (hid : id ∈ w.lent) : id < w.objects.length :=
  h.bounded id (mem_references.mpr (.inr (.inr hid)))

/-- What a step does to the segments, seen from the snapshots: a snapshot is kept with its segments
as they were, or it is released for good. -/
structure Lends (w w' : World) : Prop where
  mode : w'.disk = w.disk
  length : w.objects.length ≤ w'.objects.length
  released : ∀ handle : ℕ, w.snapshots[handle]? = some none → w'.snapshots[handle]? = some none
  held : ∀ (handle : ℕ) (held : HeldSnapshot), w.snapshots[handle]? = some (some held) →
    w'.snapshots[handle]? = some none ∨
      w'.snapshots[handle]? = some (some held) ∧ ∀ id ∈ held.segments, Same w w' id

theorem Lends.refl (w : World) : Lends w w :=
  ⟨rfl, le_rfl, fun _ h => h, fun _ _ h => .inr ⟨h, fun _ _ => ⟨rfl, rfl⟩⟩⟩

theorem Lends.trans {u : World} (h : Lends w w') (h' : Lends w' u) : Lends w u := by
  refine ⟨h'.mode.trans h.mode, h.length.trans h'.length,
    fun handle hnone => h'.released handle (h.released handle hnone), fun handle held hheld => ?_⟩
  rcases h.held handle held hheld with hnone | ⟨hkept, hsame⟩
  · exact .inl (h'.released handle hnone)
  · rcases h'.held handle held hkept with hnone | ⟨hkept', hsame'⟩
    · exact .inl hnone
    · exact .inr ⟨hkept', fun id hid => (hsame id hid).trans (hsame' id hid)⟩

theorem mem_lent {held : HeldSnapshot} {handle : ℕ}
    (h : w.snapshots[handle]? = some (some held)) (hid : id ∈ held.segments) : id ∈ w.lent :=
  List.mem_flatMap.mpr ⟨held, List.mem_filterMap.mpr ⟨some held, List.mem_of_getElem? h, rfl⟩, hid⟩

/-- A step that leaves the snapshots alone lends what it leaves as it was. -/
theorem Lends.of_same (hmode : w'.disk = w.disk) (hlength : w.objects.length ≤ w'.objects.length)
    (hsnapshots : w'.snapshots = w.snapshots) (hsame : ∀ id ∈ w.lent, Same w w' id) :
    Lends w w' := by
  refine ⟨hmode, hlength, fun handle h => ?_, fun handle held h => .inr ⟨?_, fun id hid => ?_⟩⟩
  · rw [hsnapshots]
    exact h
  · rw [hsnapshots]
    exact h
  · exact hsame id (mem_lent h hid)

theorem roll_fields (w : World) (sample : EncodedSample) :
    (w.roll sample).disk = w.disk ∧ (w.roll sample).snapshots = w.snapshots ∧
      w.objects.length ≤ (w.roll sample).objects.length := by
  have hstart (v : World) : (v.start_segment sample).objects.length = v.objects.length + 1 := by
    simp [start_segment]
  unfold roll
  cases hactive : w.active with
  | some id =>
    simp only [Option.isSome_some, if_true, hactive]
    split_ifs
    · exact ⟨rfl, rfl, by rw [hstart]; exact Nat.le_succ _⟩
    · exact ⟨rfl, rfl, le_rfl⟩
  | none =>
    have hfresh : (w.start_segment sample).active = some w.objects.length := rfl
    simp only [Option.isSome_none, Bool.false_eq_true, if_false, hfresh]
    split_ifs
    · refine ⟨rfl, rfl, ?_⟩
      rw [hstart]
      change _ ≤ (w.start_segment sample).objects.length + 1
      rw [hstart]
      omega
    · exact ⟨rfl, rfl, by rw [hstart]; exact Nat.le_succ _⟩

theorem append_spec (h : Sound w w.references) (sample : EncodedSample) :
    Sound (w.append sample) (w.append sample).references ∧ Lends w (w.append sample) := by
  unfold append
  split_ifs with hempty
  · exact ⟨h, Lends.refl w⟩
  · rcases roll_spec h sample with ⟨hroll, hlent, hsome, hsame⟩
    rcases roll_fields w sample with ⟨hmode, hsnapshots, hlength⟩
    rcases Option.isSome_iff_exists.mp hsome with ⟨active, hactive⟩
    simp only [hactive]
    have hwritten := sound_write hroll hactive sample
    have hevicted := sound_evict hwritten
      (((w.roll sample).write active sample).object active).last_pts
    refine ⟨sound_collect hevicted, ?_⟩
    have hbound : active < (w.roll sample).objects.length :=
      hroll.bounded active (mem_references.mpr (.inr (.inl hactive)))
    have hcount : ((w.roll sample).write active sample).objects.length =
        (w.roll sample).objects.length := by
      simp [write]
    refine Lends.of_same hmode (hlength.trans hcount.ge) hsnapshots fun id hid => ?_
    have hne : id ≠ active := by
      rintro rfl
      apply (hroll.active id hactive).2
      rw [hlent]
      exact hid
    have hrefs : id ∈ (((w.roll sample).write active sample).evict
        (((w.roll sample).write active sample).object active).last_pts).references := by
      refine mem_references.mpr (.inr (.inr ?_))
      change id ∈ (w.roll sample).lent
      rw [hlent]
      exact hid
    have hevict : Same ((w.roll sample).write active sample)
        (((w.roll sample).write active sample).evict
          (((w.roll sample).write active sample).object active).last_pts) id := ⟨rfl, rfl⟩
    exact (hsame id (lent_bounded h hid)).trans
      ((same_write hroll hbound hne sample).trans (hevict.trans (same_collect hevicted hrefs)))

theorem snapshot_spec (h : Sound w w.references) :
    Sound w.snapshot w.snapshot.references ∧ Lends w w.snapshot := by
  have hseal := sound_seal h
  have hlent : ∀ id, id ∈ w.snapshot.lent ↔ id ∈ w.lent ∨ id ∈ w.seal.sealed := by
    intro id
    simp [lent, snapshot, List.filterMap_append]
  have hrefs : ∀ id, id ∈ w.seal.references ↔ id ∈ w.snapshot.references := by
    intro id
    rw [mem_references, mem_references, hlent]
    change _ ↔ id ∈ w.seal.sealed ∨ none = some id ∨ _
    change id ∈ w.seal.sealed ∨ none = some id ∨ id ∈ w.lent ↔ _
    tauto
  have hsound := hseal.congr hrefs
  refine ⟨⟨fun id hid => hid, hsound.bounded, h.mode, h.path, h.numbered, hsound.files,
    fun id hid => by cases hid⟩, rfl, le_rfl, fun handle hnone => ?_, fun handle held hheld => ?_⟩
  · change (w.snapshots ++ _)[handle]? = _
    rw [List.getElem?_append_left (List.getElem?_eq_some_iff.mp hnone).1]
    exact hnone
  · refine .inr ⟨?_, fun id _ => ⟨rfl, rfl⟩⟩
    change (w.snapshots ++ _)[handle]? = _
    rw [List.getElem?_append_left (List.getElem?_eq_some_iff.mp hheld).1]
    exact hheld

theorem emptied_sound (h : Sound w w.references) (alive : Bool) :
    Sound { w with sealed := [], active := none, alive } w.references :=
  h.drop rfl rfl rfl rfl (fun _ hid => mem_references.mpr
    (.inr (.inr (by simpa [mem_references, lent] using hid)))) (fun _ hid => by cases hid)

theorem emptied_spec (h : Sound w w.references) (alive : Bool) :
    Sound (({ w with sealed := [], active := none, alive } : World).collect w.references)
        (({ w with sealed := [], active := none, alive } : World).collect w.references).references ∧
      Lends w (({ w with sealed := [], active := none, alive } : World).collect w.references) := by
  have hdropped := emptied_sound h alive
  refine ⟨sound_collect hdropped, Lends.of_same rfl le_rfl rfl fun id hid => ?_⟩
  have hsame : Same w { w with sealed := [], active := none, alive } id := ⟨rfl, rfl⟩
  exact hsame.trans (same_collect hdropped (mem_references.mpr (.inr (.inr hid))))

theorem released_sound (h : Sound w w.references) (handle : ℕ) :
    Sound { w with snapshots := w.snapshots.set handle none } w.references := by
  have hlent : ∀ id ∈ ({ w with snapshots := w.snapshots.set handle none } : World).lent,
      id ∈ w.lent := by
    intro id hid
    rcases List.mem_flatMap.mp hid with ⟨held, hheld, hid⟩
    rcases List.mem_filterMap.mp hheld with ⟨slot, hslot, hsome⟩
    cases hsome
    rcases List.mem_or_eq_of_mem_set hslot with hmem | hnone
    · exact List.mem_flatMap.mpr ⟨held, List.mem_filterMap.mpr ⟨some held, hmem, rfl⟩, hid⟩
    · cases hnone
  refine h.drop rfl rfl rfl rfl (fun id hid => ?_) fun id hid => ?_
  · rw [mem_references] at hid ⊢
    exact hid.imp_right fun hid => hid.imp_right (hlent id)
  · exact ⟨(h.active id hid).1, fun hmem => (h.active id hid).2 (hlent id hmem)⟩

theorem release_spec (h : Sound w w.references) (handle : ℕ) :
    Sound (({ w with snapshots := w.snapshots.set handle none } : World).collect w.references)
        (({ w with snapshots := w.snapshots.set handle none } : World).collect
          w.references).references ∧
      Lends w (({ w with snapshots := w.snapshots.set handle none } : World).collect
        w.references) := by
  have hdropped := released_sound h handle
  refine ⟨sound_collect hdropped, rfl, le_rfl, fun other hnone => ?_, fun other held hheld => ?_⟩
  · change (w.snapshots.set handle none)[other]? = _
    by_cases heq : handle = other
    · subst heq
      exact List.getElem?_set_self (List.getElem?_eq_some_iff.mp hnone).1
    · rw [List.getElem?_set_ne heq]
      exact hnone
  · change (w.snapshots.set handle none)[other]? = _ ∨ (w.snapshots.set handle none)[other]? = _ ∧ _
    have hlt := (List.getElem?_eq_some_iff.mp hheld).1
    by_cases heq : handle = other
    · subst heq
      exact .inl (List.getElem?_set_self hlt)
    · have hkept : (w.snapshots.set handle none)[other]? = some (some held) := by
        rw [List.getElem?_set_ne heq]
        exact hheld
      refine .inr ⟨hkept, fun id hid => ?_⟩
      have hsame : Same w { w with snapshots := w.snapshots.set handle none } id := ⟨rfl, rfl⟩
      apply hsame.trans (same_collect hdropped (mem_references.mpr (.inr (.inr _))))
      exact mem_lent hkept hid

/-- Every step keeps the files those of the segments referred to, and lends what was lent. -/
theorem step_spec {e : Event} (h : Sound w w.references) (hstep : step w e = some w') :
    Sound w' w'.references ∧ Lends w w' := by
  cases e with
  | append sample =>
    rw [step] at hstep
    split_ifs at hstep
    cases hstep
    exact append_spec h sample
  | snapshot =>
    rw [step] at hstep
    split_ifs at hstep
    cases hstep
    exact snapshot_spec h
  | clear =>
    rw [step] at hstep
    split_ifs at hstep
    cases hstep
    exact emptied_spec h w.alive
  | destroy =>
    rw [step] at hstep
    split_ifs at hstep
    cases hstep
    exact emptied_spec h false
  | release handle =>
    rw [step] at hstep
    split at hstep
    · cases hstep
      exact release_spec h handle
    · cases hstep

theorem sound_init (files : Files) (retention_hns segment_hns : ℤ) (disk : Bool) :
    Sound (machine files retention_hns segment_hns disk).init
      (machine files retention_hns segment_hns disk).init.references := by
  have hstale (id : ℕ) : stale (segment_name id) = true := by
    rw [stale, Bool.and_eq_true]
    refine ⟨List.isPrefixOf_iff_prefix.mpr ⟨_, rfl⟩, List.isSuffixOf_iff_suffix.mpr ?_⟩
    exact ⟨text "segment_" ++ padded 8 id, by rw [List.append_assoc]; rfl⟩
  refine ⟨fun id hid => hid, fun id hid => absurd hid (by simp [machine, references, lent]),
    fun id hid => absurd hid (Nat.not_lt_zero id), fun _ id hid => absurd hid (Nat.not_lt_zero id),
    fun _ => rfl, fun hdisk id => ?_, fun id hid => by cases hid⟩
  have hdisk' : disk = true := hdisk
  change (initialize_files disk files (segment_name id)).isSome ↔ _
  rw [initialize_files, if_pos ⟨hdisk', hstale id⟩]
  simp [machine, references, lent]

/-- In every run the files are those of the segments referred to. -/
theorem sound_run {files : Files} {retention_hns segment_hns : ℤ} {disk : Bool} {es : List Event}
    (hrun : (machine files retention_hns segment_hns disk).run es = some w) :
    Sound w w.references :=
  Machine.invariant (I := fun w => Sound w w.references) (fun _ _ _ hs h => (step_spec hs h).1) hrun
    (sound_init files retention_hns segment_hns disk)

/-- Whatever a run goes on to do, it lends what was lent. -/
theorem lends_run {files : Files} {retention_hns segment_hns : ℤ} {disk : Bool} {es : List Event}
    (h : Sound w w.references)
    (hrun : (machine files retention_hns segment_hns disk).runFrom w es = some w') :
    Lends w w' :=
  Machine.relation_along (C := fun _ _ => True) (I := fun w => Sound w w.references) Lends.refl
    (fun _ _ _ => Lends.trans) (fun _ _ _ hs _ h => (step_spec hs h).1)
    (fun _ _ _ hs _ h => (step_spec hs h).2) (Machine.along_of_forall fun _ _ => trivial) hrun h

theorem read_same (h : Sound w w.references) (hid : id < w.objects.length)
    (hsame : Same w w' id) : w'.read id = w.read id := by
  unfold read
  rw [hsame.object]
  split_ifs with hdisk
  · rw [h.mode id hid] at hdisk
    rw [h.path hdisk id hid, hsame.file]
  · rfl

end World
end GambitRecord.Replay
