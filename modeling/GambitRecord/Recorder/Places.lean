import GambitRecord.Recorder.Settings

/-! # Where the worker writes

The places that the directories of the configuration give, against the directory
`grecord` beside the executable. A path is the list of its components in
canonical form, where the parent of a directory lacks the last one.
-/

namespace GambitRecord.Recorder
open Library

/-- The components of a path in canonical form. -/
abbrev CanonicalPath := List WidePath

def is_path_within : CanonicalPath → CanonicalPath → Bool
  | _, [] => true
  | [], _ :: _ => false
  | c :: child, p :: parent => c = p ∧ is_path_within child parent

theorem is_path_within_iff {child parent : CanonicalPath} :
    is_path_within child parent ↔ parent <+: child := by
  induction parent generalizing child with
  | nil =>
    rw [is_path_within]
    exact iff_of_true rfl List.nil_prefix
  | cons p parent ih =>
    cases child with
    | nil =>
      rw [is_path_within, List.prefix_nil]
      simp
    | cons c child =>
      rw [is_path_within, decide_eq_true_iff, ih, List.cons_prefix_cons, eq_comm]

structure FileTree where
  base : CanonicalPath
  is_relative : WidePath → Bool
  join : WidePath → WidePath
  absolute : ∀ path, is_relative (join path) = false
  components : WidePath → CanonicalPath

namespace FileTree

variable (tree : FileTree)

def grecord : CanonicalPath := tree.base ++ [Utf16.units "grecord"]

def paths : Paths where
  is_relative := tree.is_relative
  join := tree.join
  absolute := tree.absolute
  within path := is_path_within (tree.components path) tree.grecord

def beside (directory : WidePath) (name : String) : CanonicalPath :=
  (tree.components directory).dropLast ++ [Utf16.units name]

/-- The replay cache, the replays, the records, the files of the upload queue, the markers and the
log. -/
def places (c : Config) : List CanonicalPath :=
  [tree.components c.replay.cache_directory, tree.beside c.replay.cache_directory "replays",
    tree.components c.recording.directory, tree.beside c.recording.directory "upload-queue.json",
    tree.beside c.recording.directory "upload-queue.json.tmp",
    tree.beside c.recording.directory "markers.jsonl", tree.components c.logging.directory]

variable {tree}

theorem grecord_prefix_beside {directory : WidePath} {name : String}
    (hname : Utf16.units "grecord" ≠ Utf16.units name)
    (h : tree.grecord <+: tree.components directory) :
    tree.grecord <+: tree.beside directory name ↔ tree.components directory ≠ tree.grecord := by
  rw [beside]
  constructor
  · intro hbeside heq
    rw [heq, grecord, List.dropLast_concat, List.prefix_append_right_inj,
      List.cons_prefix_cons] at hbeside
    exact hname hbeside.1
  · intro hne
    obtain ⟨rest, hrest⟩ := h
    have hrest' : rest ≠ [] := by
      rintro rfl
      rw [List.append_nil] at hrest
      exact hne hrest.symm
    rw [← hrest, List.dropLast_append_of_ne_nil hrest', List.append_assoc]
    exact List.prefix_append _ _

/-- What a validated configuration makes the worker write lies within `grecord` exactly when the
cache and the records are not `grecord` itself and the log is within it. -/
theorem within_grecord_iff (tree : FileTree) (c : Config)
    (h : (c.resolve_paths tree.paths).validate tree.paths = none) :
    (∀ place ∈ tree.places (c.resolve_paths tree.paths), is_path_within place tree.grecord) ↔
      tree.components (c.resolve_paths tree.paths).replay.cache_directory ≠ tree.grecord ∧
        tree.components (c.resolve_paths tree.paths).recording.directory ≠ tree.grecord ∧
        is_path_within (tree.components (c.resolve_paths tree.paths).logging.directory)
          tree.grecord := by
  generalize c.resolve_paths tree.paths = resolved at h
  have hvalid := Config.validate_eq_none_iff.mp h
  have hcache := is_path_within_iff.mp hvalid.cache_directory
  have hrecords := is_path_within_iff.mp hvalid.directory
  have hreplays : Utf16.units "grecord" ≠ Utf16.units "replays" := by decide +kernel
  have hqueue : Utf16.units "grecord" ≠ Utf16.units "upload-queue.json" := by decide +kernel
  have htemporary : Utf16.units "grecord" ≠ Utf16.units "upload-queue.json.tmp" := by
    decide +kernel
  have hmarkers : Utf16.units "grecord" ≠ Utf16.units "markers.jsonl" := by decide +kernel
  simp only [places, List.forall_mem_cons, List.not_mem_nil, false_imp_iff, implies_true, and_true,
    is_path_within_iff, grecord_prefix_beside hreplays hcache,
    grecord_prefix_beside hqueue hrecords, grecord_prefix_beside htemporary hrecords,
    grecord_prefix_beside hmarkers hrecords, hcache, hrecords, true_and]
  tauto

def gameTree : FileTree where
  base := [Utf16.units "C:", Utf16.units "game"]
  is_relative := Settings.gamePaths.is_relative
  join := Settings.gamePaths.join
  absolute := Settings.gamePaths.absolute
  components path := path.splitOn 47

theorem within_grecord_gameTree :
    (∀ place ∈ gameTree.places (Config.resolve_paths gameTree.paths {}),
      is_path_within place gameTree.grecord) ↔
      gameTree.components (Config.resolve_paths gameTree.paths {}).replay.cache_directory ≠
          gameTree.grecord ∧
        gameTree.components (Config.resolve_paths gameTree.paths {}).recording.directory ≠
          gameTree.grecord ∧
        is_path_within
          (gameTree.components (Config.resolve_paths gameTree.paths {}).logging.directory)
          gameTree.grecord :=
  within_grecord_iff gameTree {} (by decide +kernel)

/-- With the cache in `grecord` itself the replays are beside `grecord`. -/
theorem not_alwaysWithin :
    ¬ ∀ (tree : FileTree) (c : Config),
      (c.resolve_paths tree.paths).validate tree.paths = none →
        ∀ place ∈ tree.places (c.resolve_paths tree.paths), is_path_within place tree.grecord := by
  intro h
  have hplace := h gameTree { replay := { cache_directory := Utf16.units "grecord" } }
    (by decide +kernel)
  revert hplace
  decide +kernel

end FileTree
end GambitRecord.Recorder
