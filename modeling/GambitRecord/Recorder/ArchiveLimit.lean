import GambitRecord.Library.CodePage
import GambitRecord.Recorder.Settings
import GambitRecord.Recorder.UploadJob

/-! # The archive limit

`enforce_archive_limit` deletes the oldest recordings until the rest fits, and
leaves alone the recording just made and those that wait for their upload. A
deletion is logged with the path in the code page of the process; a path that
has no such form throws behind the deletion, and the loop is left.
-/

namespace GambitRecord.Recorder
open Library

/-- What the iteration over the directory finds of an entry; a call that fails gives nothing. -/
structure ArchiveEntry where
  regular : Bool
  mp4 : Bool
  canonical : Option WidePath
  size : Option UInt64
  time : Int64
  deriving DecidableEq

structure ArchivedFile where
  path : WidePath
  size : UInt64
  time : Int64
  deriving DecidableEq

/-- The running total, the files deleted so far and those that could not be, and the path whose
conversion has left the loop. -/
structure Sweep where
  total : UInt64
  deleted : List ArchivedFile := []
  failed : List ArchivedFile := []
  thrown : Option WidePath := none
  deriving DecidableEq

def Sweep.delete (s : Sweep) (file : ArchivedFile) : Sweep :=
  { s with total := s.total - file.size, deleted := s.deleted ++ [file] }

def sizes (files : List ArchivedFile) : ℕ := (files.map fun file => file.size.toNat).sum

/-- The arguments and the queue of a call, the file that a path leads to, and what `remove` does. -/
structure Cleanup where
  page : CodePage
  identity : WidePath → Option ℕ
  removes : ArchivedFile → Bool
  keep : WidePath
  jobs : List Job
  limit_bytes : UInt64

namespace Cleanup

/-- The files of the archive; the entries are none where the directory cannot be resolved. -/
def scan (entries : List ArchiveEntry) : List ArchivedFile :=
  entries.filterMap fun entry =>
    if entry.regular ∧ entry.mp4 then do
      let path ← entry.canonical
      let size ← entry.size
      return { path, size, time := entry.time }
    else none

def total_size (files : List ArchivedFile) : UInt64 :=
  files.foldl (fun total file => total + file.size) 0

/-- Distinct files whose sizes do not overflow together. -/
structure Archive where
  entries : List ArchiveEntry
  distinct : (scan entries).Nodup
  bounded : sizes (scan entries) < 2 ^ 64

def Archive.files (archive : Archive) : List ArchivedFile := scan archive.entries

/-- An order that `std::sort` by the times may leave; files of one time are in any. -/
structure Sorted (archive : Archive) where
  files : List ArchivedFile
  perm : files.Perm archive.files
  ordered : files.Pairwise fun a b => a.time ≤ b.time

variable (c : Cleanup)

/-- `std::filesystem::equivalent`: without a file behind one of the paths it is false. -/
def equivalent (a b : WidePath) : Bool := (c.identity a).isSome && c.identity a = c.identity b

def is_protected (file : ArchivedFile) : Bool :=
  (c.keep ≠ [] && c.equivalent file.path c.keep) ||
    c.jobs.any fun job => c.equivalent file.path job.path

def sweep : List ArchivedFile → Sweep → Sweep
  | [], s => s
  | file :: files, s =>
    if s.total ≤ c.limit_bytes then s
    else if c.is_protected file then sweep files s
    else if c.removes file then
      -- `path::string` in the argument of `log_info`
      if (c.page.encode file.path).isSome then sweep files (s.delete file)
      else { s.delete file with thrown := some file.path }
    else sweep files { s with failed := s.failed ++ [file] }

def start (archive : Archive) : Sweep := { total := total_size archive.files }

def after (archive : Archive) (order : Sorted archive) (n : ℕ) : Sweep :=
  c.sweep (order.files.take n) (start archive)

def enforce_archive_limit (archive : Archive) (order : Sorted archive) : Sweep :=
  c.sweep order.files (start archive)

def outcome (exceptions : Exceptions) (s : Sweep) : Except Bytes Unit :=
  match s.thrown with
  | none => .ok ()
  | some path => .error (exceptions.convert path)

def LeadsTo (path : WidePath) (file : ArchivedFile) : Prop :=
  ∃ id, c.identity file.path = some id ∧ c.identity path = some id

/-- The recording just made, or one that waits for its upload. -/
def Protected (file : ArchivedFile) : Prop :=
  (c.keep ≠ [] ∧ c.LeadsTo c.keep file) ∨ ∃ job ∈ c.jobs, c.LeadsTo job.path file

/-- What the clean-up is for: it spares the protected files, deletes while the total is over the
limit and the oldest first, counts what is still there, and ends with a total in the limit or with
nothing more to delete. -/
structure Enforces (archive : Archive) (order : Sorted archive) : Prop where
  spared : ∀ file ∈ (c.enforce_archive_limit archive order).deleted, ¬ c.Protected file
  exceeding : ∀ n, (c.after archive order (n + 1)).deleted ≠ (c.after archive order n).deleted →
    c.limit_bytes < (c.after archive order n).total
  oldest : ∀ file ∈ (c.enforce_archive_limit archive order).deleted, ∀ other ∈ archive.files,
    other ∉ (c.enforce_archive_limit archive order).deleted → ¬ c.Protected other →
      other ∉ (c.enforce_archive_limit archive order).failed → file.time ≤ other.time
  accounts : ∀ n, (c.after archive order n).total.toNat =
    sizes (archive.files.filter fun file => file ∉ (c.after archive order n).deleted)
  finished : (c.enforce_archive_limit archive order).total ≤ c.limit_bytes ∨
    ∀ file ∈ archive.files, file ∉ (c.enforce_archive_limit archive order).deleted →
      c.Protected file ∨ c.removes file = false

def deletable (file : ArchivedFile) : Bool := !c.is_protected file && c.removes file

def fails (file : ArchivedFile) : Bool := !c.is_protected file && !c.removes file

def named (file : ArchivedFile) : Bool := (c.page.encode file.path).isSome

/-- A file whose deletion throws is the last to delete: with it the total comes within the limit, or
no deletable file follows. -/
def ThrowsLast (order : List ArchivedFile) : Prop :=
  ∀ before file rest, order = before ++ file :: rest → c.deletable file = true →
    c.named file = false →
      sizes order ≤ c.limit_bytes.toNat + sizes ((before ++ [file]).filter c.deletable) ∨
        ∀ other ∈ rest, c.deletable other = false

theorem equivalent_iff {path : WidePath} {file : ArchivedFile} :
    c.equivalent file.path path = true ↔ c.LeadsTo path file := by
  simp only [equivalent, LeadsTo, Bool.and_eq_true, decide_eq_true_eq, Option.isSome_iff_exists]
  constructor
  · rintro ⟨⟨id, hid⟩, hsame⟩
    exact ⟨id, hid, hsame ▸ hid⟩
  · rintro ⟨id, hid, hpath⟩
    exact ⟨⟨id, hid⟩, hid.trans hpath.symm⟩

theorem is_protected_iff {file : ArchivedFile} : c.is_protected file = true ↔ c.Protected file := by
  simp [is_protected, Protected, equivalent_iff]

theorem is_protected_eq_false {file : ArchivedFile} :
    c.is_protected file = false ↔ ¬ c.Protected file := by
  rw [← is_protected_iff, Bool.not_eq_true]

@[simp] theorem sizes_nil : sizes [] = 0 := rfl

@[simp] theorem sizes_cons (file : ArchivedFile) (files : List ArchivedFile) :
    sizes (file :: files) = file.size.toNat + sizes files := List.sum_cons

@[simp] theorem sizes_append (a b : List ArchivedFile) : sizes (a ++ b) = sizes a + sizes b := by
  rw [sizes, List.map_append, List.sum_append]
  rfl

theorem sizes_perm {a b : List ArchivedFile} (h : a.Perm b) : sizes a = sizes b :=
  (h.map _).sum_nat

theorem sizes_sublist {a b : List ArchivedFile} (h : a.Sublist b) : sizes a ≤ sizes b := by
  induction h with
  | slnil => exact le_rfl
  | cons file _ ih =>
    rw [sizes_cons]
    omega
  | cons_cons file _ ih =>
    rw [sizes_cons, sizes_cons]
    omega

theorem toNat_foldl_size {files : List ArchivedFile} {start : UInt64}
    (h : start.toNat + sizes files < 2 ^ 64) :
    (files.foldl (fun total file => total + file.size) start).toNat =
      start.toNat + sizes files := by
  induction files generalizing start with
  | nil => rfl
  | cons file files ih =>
    rw [sizes_cons] at h
    have hsum : (start + file.size).toNat = start.toNat + file.size.toNat := by
      rw [UInt64.toNat_add]
      omega
    rw [List.foldl_cons, ih (by omega), hsum, sizes_cons, Nat.add_assoc]

theorem toNat_total_size (archive : Archive) :
    (total_size archive.files).toNat = sizes archive.files := by
  have hbounded : (0 : UInt64).toNat + sizes archive.files < 2 ^ 64 := by
    rw [UInt64.toNat_zero, Nat.zero_add]
    exact archive.bounded
  rw [total_size, toNat_foldl_size hbounded, UInt64.toNat_zero, Nat.zero_add]

/-- What the loop over an order does: it visits the files up to its exit, deletes those that can be
deleted, and leaves with the order at its end, with a total in the limit, or behind a deletion
that throws. -/
structure Visited (order : List ArchivedFile) (s t : Sweep) (seen rest : List ArchivedFile) :
    Prop where
  split : order = seen ++ rest
  deleted : t.deleted = s.deleted ++ seen.filter c.deletable
  failed : t.failed = s.failed ++ seen.filter c.fails
  total : t.total.toNat + sizes (seen.filter c.deletable) = s.total.toNat
  thrown : ∀ before file others, seen = before ++ file :: others → c.deletable file = true →
    c.named file = false → others = []
  ended : rest = [] ∨ t.total ≤ c.limit_bytes ∨
    ∃ before file, seen = before ++ [file] ∧ c.deletable file = true ∧ c.named file = false

variable {c}

theorem Visited.cons {file : ArchivedFile} {order seen rest : List ArchivedFile} {s s' t : Sweep}
    (h : c.Visited order s' t seen rest)
    (hdeleted : s'.deleted = s.deleted ++ [file].filter c.deletable)
    (hfailed : s'.failed = s.failed ++ [file].filter c.fails)
    (htotal : s'.total.toNat + sizes ([file].filter c.deletable) = s.total.toNat)
    (hnamed : c.deletable file = true → c.named file = true) :
    c.Visited (file :: order) s t (file :: seen) rest where
  split := by rw [h.split, List.cons_append]
  deleted := by
    rw [h.deleted, hdeleted, List.append_assoc, ← List.filter_append, List.singleton_append]
  failed := by
    rw [h.failed, hfailed, List.append_assoc, ← List.filter_append, List.singleton_append]
  total := by
    rw [← List.singleton_append, List.filter_append, sizes_append]
    have := h.total
    omega
  thrown := by
    intro before found others hseen hdeletable hunnamed
    cases before with
    | nil =>
      cases hseen
      rw [hnamed hdeletable] at hunnamed
      cases hunnamed
    | cons first before =>
      exact h.thrown before found others (List.cons.inj hseen).2 hdeletable hunnamed
  ended := by
    rcases h.ended with hrest | htotal | ⟨before, found, hseen, hfound⟩
    · exact .inl hrest
    · exact .inr (.inl htotal)
    · exact .inr (.inr ⟨file :: before, found, by rw [hseen, List.cons_append], hfound⟩)

theorem sweep_cons {file : ArchivedFile} {files : List ArchivedFile} {s : Sweep}
    (h : ¬ s.total ≤ c.limit_bytes) :
    c.sweep (file :: files) s =
      if c.deletable file then
        if c.named file then c.sweep files (s.delete file)
        else { s.delete file with thrown := some file.path }
      else c.sweep files { s with failed := s.failed ++ [file].filter c.fails } := by
  rw [sweep, if_neg h, named]
  cases hprotected : c.is_protected file <;> cases hremoves : c.removes file <;>
    simp [deletable, fails, hprotected, hremoves]

theorem fails_of_deletable {file : ArchivedFile} (h : c.deletable file = true) :
    c.fails file = false := by
  simp only [deletable, Bool.and_eq_true] at h
  simp [fails, h.2]

theorem toNat_total_delete {s : Sweep} {file : ArchivedFile} (h : file.size.toNat ≤ s.total.toNat) :
    (s.delete file).total.toNat + file.size.toNat = s.total.toNat := by
  change (s.total - file.size).toNat + _ = _
  rw [UInt64.toNat_sub_of_le _ _ (UInt64.le_iff_toNat_le.mpr h)]
  omega

theorem exists_visited {order : List ArchivedFile} {s : Sweep}
    (h : sizes (order.filter c.deletable) ≤ s.total.toNat) :
    ∃ seen rest, c.Visited order s (c.sweep order s) seen rest := by
  induction order generalizing s with
  | nil => exact ⟨[], [], ⟨rfl, by simp [sweep], by simp [sweep], rfl, by simp, .inl rfl⟩⟩
  | cons file order ih =>
    by_cases hlimit : s.total ≤ c.limit_bytes
    · rw [sweep, if_pos hlimit]
      exact ⟨[], file :: order, ⟨rfl, by simp, by simp, rfl, by simp, .inr (.inl hlimit)⟩⟩
    · rw [sweep_cons hlimit]
      cases hdeletable : c.deletable file with
      | false =>
        rw [List.filter_cons_of_neg (by simp [hdeletable])] at h
        obtain ⟨seen, rest, hvisited⟩ :=
          ih (s := { s with failed := s.failed ++ [file].filter c.fails }) h
        refine ⟨file :: seen, rest, hvisited.cons ?_ rfl ?_ ?_⟩ <;> simp [hdeletable]
      | true =>
        have hfails := fails_of_deletable hdeletable
        rw [List.filter_cons_of_pos hdeletable, sizes_cons] at h
        have htotal := toNat_total_delete (Nat.le_of_add_right_le h)
        cases hnamed : c.named file with
        | true =>
          obtain ⟨seen, rest, hvisited⟩ := ih (s := s.delete file) (by omega)
          refine ⟨file :: seen, rest, hvisited.cons ?_ ?_ ?_ fun _ => hnamed⟩
          · simp [hdeletable, Sweep.delete]
          · simp [hfails, Sweep.delete]
          · simpa [hdeletable] using htotal
        | false =>
          -- behind the exception the files of `order` are not visited
          refine ⟨[file], order, rfl, ?_, ?_, ?_, ?_, ?_⟩
          · simp [hdeletable, Sweep.delete]
          · simp [hfails, Sweep.delete]
          · simpa [hdeletable] using htotal
          · intro before found others hseen _ _
            rcases List.singleton_eq_append_iff.mp hseen with ⟨_, hothers⟩ | ⟨_, hothers⟩
            · exact (List.cons.inj hothers).2
            · cases hothers
          · exact .inr (.inr ⟨[], file, rfl, hdeletable, hnamed⟩)

theorem thrown_sweep {order : List ArchivedFile} {s : Sweep} (hthrown : s.thrown = none)
    (hnamed : ∀ file ∈ s.deleted, c.named file = true) :
    (c.sweep order s).thrown = none ↔
      ∀ file ∈ (c.sweep order s).deleted, c.named file = true := by
  induction order generalizing s with
  | nil => exact iff_of_true hthrown hnamed
  | cons file order ih =>
    by_cases hlimit : s.total ≤ c.limit_bytes
    · rw [sweep, if_pos hlimit]
      exact iff_of_true hthrown hnamed
    · rw [sweep_cons hlimit]
      cases hdeletable : c.deletable file with
      | false => exact ih (s := { s with failed := s.failed ++ _ }) hthrown hnamed
      | true =>
        cases hfile : c.named file with
        | true =>
          apply ih (s := s.delete file) hthrown
          intro deleted hdeleted
          rcases List.mem_append.mp hdeleted with hold | hnew
          · exact hnamed deleted hold
          · rw [List.mem_singleton.mp hnew, hfile]
        | false =>
          apply iff_of_false
          · simp
          · intro hall
            have hlast := hall file (List.mem_append_right _ (List.mem_singleton_self _))
            rw [hfile] at hlast
            cases hlast

/-- The clean-up throws exactly when it deletes a file whose path has no form in the page. -/
theorem outcome_eq_ok_iff (exceptions : Exceptions) (archive : Archive) (order : Sorted archive) :
    outcome exceptions (c.enforce_archive_limit archive order) = .ok () ↔
      ∀ file ∈ (c.enforce_archive_limit archive order).deleted, c.named file = true := by
  rw [enforce_archive_limit, ← thrown_sweep rfl (by simp [start]), outcome]
  cases (c.sweep order.files (start archive)).thrown <;> simp

/-- Only a total over the limit lets a file be deleted. -/
theorem lt_of_sweep_concat {files : List ArchivedFile} {file : ArchivedFile} {s : Sweep}
    (h : (c.sweep (files ++ [file]) s).deleted ≠ (c.sweep files s).deleted) :
    c.limit_bytes < (c.sweep files s).total := by
  induction files generalizing s with
  | nil =>
    by_contra hle
    rw [sweep] at hle
    apply h
    rw [List.nil_append, sweep, sweep, if_pos (UInt64.not_lt.mp hle)]
  | cons first files ih =>
    rw [List.cons_append] at h
    rw [sweep] at h ⊢
    rw [sweep] at h
    split_ifs at h ⊢
    · exact absurd rfl h
    · exact ih h
    · exact ih h
    · exact absurd rfl h
    · exact ih h

theorem lt_of_deleted_after {archive : Archive} {order : Sorted archive} {n : ℕ}
    (h : (c.after archive order (n + 1)).deleted ≠ (c.after archive order n).deleted) :
    c.limit_bytes < (c.after archive order n).total := by
  rw [after, List.take_add_one] at h
  cases hfile : order.files[n]? with
  | none =>
    rw [hfile, Option.toList_none, List.append_nil] at h
    exact absurd rfl h
  | some file =>
    rw [hfile, Option.toList_some] at h
    exact lt_of_sweep_concat h

theorem deletable_eq_false {file : ArchivedFile} :
    c.deletable file = false ↔ c.Protected file ∨ c.removes file = false := by
  rw [← is_protected_iff]
  simp [deletable, or_iff_not_imp_left]

theorem sizes_order {archive : Archive} (order : Sorted archive) :
    sizes order.files = (start archive).total.toNat := by
  rw [sizes_perm order.perm]
  exact (toNat_total_size archive).symm

theorem exists_visited_after (archive : Archive) (order : Sorted archive) (n : ℕ) :
    ∃ seen rest,
      c.Visited (order.files.take n) (start archive) (c.after archive order n) seen rest := by
  apply exists_visited
  rw [← sizes_order order]
  exact sizes_sublist (List.filter_sublist.trans (List.take_sublist _ _))

theorem exists_visited_enforce (archive : Archive) (order : Sorted archive) :
    ∃ seen rest,
      c.Visited order.files (start archive) (c.enforce_archive_limit archive order) seen rest := by
  apply exists_visited
  rw [← sizes_order order]
  exact sizes_sublist List.filter_sublist

theorem sizes_present {files deleted : List ArchivedFile} (hfiles : files.Nodup)
    (hdeleted : deleted.Nodup) (hsub : deleted ⊆ files) :
    sizes (files.filter fun file => file ∉ deleted) + sizes deleted = sizes files := by
  rw [← sizes_append]
  apply sizes_perm
  have hdisjoint : (files.filter fun file => file ∉ deleted).Disjoint deleted := by
    intro file hfile hmem
    have hkept : file ∉ deleted := of_decide_eq_true (List.mem_filter.mp hfile).2
    exact hkept hmem
  rw [List.perm_ext_iff_of_nodup ((hfiles.filter _).append hdeleted hdisjoint) hfiles]
  intro file
  rw [List.mem_append, List.mem_filter]
  constructor
  · rintro (h | h)
    · exact h.1
    · exact hsub h
  · intro h
    by_cases hmem : file ∈ deleted
    · exact .inr hmem
    · exact .inl ⟨h, decide_eq_true hmem⟩

theorem accounts_after (archive : Archive) (order : Sorted archive) (n : ℕ) :
    (c.after archive order n).total.toNat =
      sizes (archive.files.filter fun file => file ∉ (c.after archive order n).deleted) := by
  obtain ⟨seen, rest, h⟩ := c.exists_visited_after archive order n
  have hdeleted : (c.after archive order n).deleted = seen.filter c.deletable := by
    rw [h.deleted]
    rfl
  have hsublist : (seen.filter c.deletable).Sublist order.files := by
    have hseen : seen.Sublist (order.files.take n) := by
      rw [h.split]
      exact List.sublist_append_left _ _
    exact List.filter_sublist.trans (hseen.trans (List.take_sublist _ _))
  have hfiles : archive.files.Nodup := archive.distinct
  have hnodup := (order.perm.nodup_iff.mpr hfiles).sublist hsublist
  have hpresent := sizes_present hfiles hnodup fun _ h => order.perm.subset (hsublist.subset h)
  have htotal := h.total
  rw [← sizes_order order, sizes_perm order.perm] at htotal
  rw [hdeleted]
  omega

section Runs
variable {order seen rest : List ArchivedFile} {s t : Sweep}

/-- Behind a deleted file no older one is left that could have been deleted. -/
theorem Visited.oldest (h : c.Visited order s t seen rest) (hdeleted : s.deleted = [])
    (hfailed : s.failed = []) (hordered : order.Pairwise fun a b => a.time ≤ b.time)
    {file other : ArchivedFile} (hfile : file ∈ t.deleted) (hother : other ∈ order)
    (hleft : other ∉ t.deleted) (hprotected : c.is_protected other = false)
    (hattempted : other ∉ t.failed) : file.time ≤ other.time := by
  rw [h.deleted, hdeleted, List.nil_append] at hfile hleft
  rw [h.failed, hfailed, List.nil_append] at hattempted
  rw [h.split] at hother hordered
  have hunseen : other ∉ seen := by
    intro hseen
    cases hremoves : c.removes other with
    | true => exact hleft (List.mem_filter.mpr ⟨hseen, by simp [deletable, hprotected, hremoves]⟩)
    | false => exact hattempted (List.mem_filter.mpr ⟨hseen, by simp [fails, hprotected, hremoves]⟩)
  have hrest : other ∈ rest := (List.mem_append.mp hother).resolve_left hunseen
  exact (List.pairwise_append.mp hordered).2.2 file (List.mem_of_mem_filter hfile) other hrest

/-- The loop does not get past a deletion that throws. -/
theorem Visited.exists_unseen (h : c.Visited order s t seen rest)
    {before others : List ArchivedFile} {file : ArchivedFile}
    (hsplit : order = before ++ file :: others) (hdeletable : c.deletable file = true)
    (hunnamed : c.named file = false) :
    ∃ unseen, before ++ [file] = seen ++ unseen ∧ rest = unseen ++ others := by
  have hsame : seen ++ rest = (before ++ [file]) ++ others := by
    rw [← h.split, hsplit, List.append_assoc, List.singleton_append]
  rcases List.append_eq_append_iff.mp hsame with ⟨unseen, hbefore, hrest⟩ | ⟨more, hmore, hothers⟩
  · exact ⟨unseen, hbefore, hrest⟩
  · rw [List.append_assoc, List.singleton_append] at hmore
    have hnil := h.thrown before file more hmore hdeletable hunnamed
    rw [hnil] at hmore hothers
    exact ⟨[], by rw [hmore, List.append_nil], hothers.symm⟩

/-- A visited file that is left could not be deleted. -/
theorem deletable_of_seen {file : ArchivedFile} (hfile : file ∈ seen)
    (hkept : file ∉ seen.filter c.deletable) : c.deletable file = false := by
  by_contra hdeletable
  exact hkept (List.mem_filter.mpr ⟨hfile, by simpa using hdeletable⟩)

/-- The loop ends with a total in the limit or nothing more to delete, exactly when a deletion that
throws is the last one. -/
theorem Visited.finished_iff (h : c.Visited order s t seen rest) (hdeleted : s.deleted = [])
    (htotal : sizes order = s.total.toNat) (hnodup : order.Nodup) :
    (t.total ≤ c.limit_bytes ∨ ∀ file ∈ order, file ∉ t.deleted → c.deletable file = false) ↔
      c.ThrowsLast order := by
  rw [h.deleted, hdeleted, List.nil_append]
  have hsum := h.total
  constructor
  · intro hfinished before file others hsplit hdeletable hunnamed
    obtain ⟨unseen, hbefore, hrest⟩ := h.exists_unseen hsplit hdeletable hunnamed
    rcases hfinished with hlimit | hall
    · left
      rw [UInt64.le_iff_toNat_le] at hlimit
      rw [hbefore, List.filter_append, sizes_append]
      omega
    · right
      intro other hother
      have hmem : other ∈ rest := by
        rw [hrest]
        exact List.mem_append_right _ hother
      have hdisjoint := (List.nodup_append.mp (h.split ▸ hnodup)).2.2
      apply hall other
      · rw [h.split]
        exact List.mem_append_right _ hmem
      · exact fun hseen => hdisjoint other (List.mem_of_mem_filter hseen) other hmem rfl
  · intro hlast
    rcases h.ended with hrest | hlimit | ⟨before, file, hbefore, hdeletable, hunnamed⟩
    · right
      intro file hfile hkept
      rw [h.split, hrest, List.append_nil] at hfile
      exact deletable_of_seen hfile hkept
    · exact .inl hlimit
    · have hsplit : order = before ++ file :: rest := by
        rw [h.split, hbefore, List.append_assoc, List.singleton_append]
      rcases hlast before file rest hsplit hdeletable hunnamed with hlimit | hall
      · left
        rw [← hbefore] at hlimit
        rw [UInt64.le_iff_toNat_le]
        omega
      · right
        intro other hother hkept
        rw [h.split] at hother
        rcases List.mem_append.mp hother with hmem | hmem
        · exact deletable_of_seen hmem hkept
        · exact hall other hmem

end Runs

/-- The clean-up does what it is for exactly when a deletion that throws is the last one. -/
theorem enforces_iff (c : Cleanup) (archive : Archive) (order : Sorted archive) :
    c.Enforces archive order ↔ c.ThrowsLast order.files := by
  obtain ⟨seen, rest, h⟩ := exists_visited_enforce (c := c) archive order
  have hnodup : order.files.Nodup := order.perm.nodup_iff.mpr archive.distinct
  have hmem : ∀ file, file ∈ archive.files ↔ file ∈ order.files := fun _ => order.perm.mem_iff.symm
  rw [← h.finished_iff rfl (sizes_order order) hnodup]
  simp only [deletable_eq_false, ← hmem]
  constructor
  · exact fun henforces => henforces.finished
  · intro hfinished
    constructor
    · intro file hfile
      rw [h.deleted] at hfile
      have hdeletable := List.of_mem_filter hfile
      simp only [deletable, Bool.and_eq_true, Bool.not_eq_true'] at hdeletable
      exact (is_protected_eq_false c).mp hdeletable.1
    · exact fun n => lt_of_deleted_after
    · intro file hfile other hother hleft hunprotected
      exact h.oldest rfl rfl order.ordered hfile ((hmem other).mp hother) hleft
        ((is_protected_eq_false c).mpr hunprotected)
    · exact accounts_after archive order
    · exact hfinished

/-- Three recordings of one gibibyte; the page of the process has no form for the first name. -/
def threeRecordings : Archive where
  entries :=
    [⟨true, true, some [0x65E5], some 0x40000000, 0⟩, ⟨true, true, some [97], some 0x40000000, 1⟩,
      ⟨true, true, some [98], some 0x40000000, 2⟩]
  distinct := by decide +kernel
  bounded := by decide +kernel

def inTheirOrder : Sorted threeRecordings where
  files := threeRecordings.files
  perm := List.Perm.refl _
  ordered := by decide +kernel

def oneGibibyte : Cleanup where
  page := .windows1251
  identity := fun _ => none
  removes := fun _ => true
  keep := []
  jobs := []
  limit_bytes := 0x40000000

/-- The first deletion throws, and two of the recordings stay. -/
theorem not_alwaysEnforces :
    ¬ ∀ (c : Cleanup) (archive : Archive) (order : Sorted archive), c.Enforces archive order := by
  intro hall
  have hfinished := (hall oneGibibyte threeRecordings inTheirOrder).finished
  revert hfinished
  rw [imp_false, not_or, not_forall]
  constructor
  · decide +kernel
  · refine ⟨⟨[97], 0x40000000, 1⟩, ?_⟩
    have hleft : (⟨[97], 0x40000000, 1⟩ : ArchivedFile) ∈ threeRecordings.files ∧
        ⟨[97], 0x40000000, 1⟩ ∉
          (oneGibibyte.enforce_archive_limit threeRecordings inTheirOrder).deleted := by
      decide +kernel
    intro h
    rcases h hleft.1 hleft.2 with hprotected | hremoves
    · rw [← is_protected_iff] at hprotected
      cases hprotected
    · cases hremoves

end Cleanup
end GambitRecord.Recorder
