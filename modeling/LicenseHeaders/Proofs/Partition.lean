import LicenseHeaders.Proofs.EntryOrder
import LicenseHeaders.Proofs.PatternReach
import Mathlib.Data.List.DropRight

namespace LicenseHeaders

/-- The last component is a name that ends in a dot and one of the extensions. Dots in front of an extension do not
count, and dots only are none. -/
def FilePath.HasExtension (p : FilePath) (extensions : List Text) : Prop :=
  ∃ name, p.components.getLast? = some (.name name) ∧
    ∃ ext ∈ extensions, Extension.bare ext ≠ [] ∧ '.' :: Extension.bare ext <:+ name

namespace Extension

variable {name : Text} {extensions : List Text}

theorem any_fits_iff : extensions.any (fits name) = true ↔
    ∃ ext ∈ extensions, bare ext ≠ [] ∧ '.' :: bare ext <:+ name := by
  simp [List.any_eq_true, fits]

theorem bare_bare (ext : Text) : bare (bare ext) = bare ext :=
  List.dropWhile_idempotent _ _

end Extension

namespace FilePath

variable {p : FilePath} {extensions : List Text}

theorem fileName?_eq_some_iff {name : Text} : p.fileName? = some name ↔ p.components.getLast? = some (.name name) := by
  unfold fileName?
  split <;> simp_all

theorem hasExtension_iff : p.HasExtension extensions ↔
    ∃ name, p.fileName? = some name ∧ extensions.any (Extension.fits name) = true := by
  simp only [HasExtension, fileName?_eq_some_iff, Extension.any_fits_iff]

theorem selects_iff {entries : List Text} : (Selection.ofEntries entries).selects p = true ↔ p.HasExtension entries := by
  have same (name : Text) : (Selection.ofEntries entries).extensions.any (Extension.fits name) =
      entries.any (Extension.fits name) := by
    rw [Bool.eq_iff_iff, Extension.any_fits_iff, Extension.any_fits_iff]
    simp only [Selection.ofEntries, List.mem_filter, List.mem_map, Bool.not_eq_true']
    constructor
    · rintro ⟨-, ⟨⟨ext, given, rfl⟩, -⟩, full, ending⟩
      rw [Extension.bare_bare] at full ending
      exact ⟨ext, given, full, ending⟩
    · rintro ⟨ext, given, full, ending⟩
      refine ⟨Extension.bare ext, ⟨⟨ext, given, rfl⟩, by simpa using full⟩, ?_⟩
      rw [Extension.bare_bare]
      exact ⟨full, ending⟩
  rw [hasExtension_iff, Selection.selects, Selection.refusal?]
  cases p.fileName? with
  | none => simp
  | some name => simp [same]

theorem tagged_iff {tagged : List Text} : Dialect.ofName tagged p.fileName? = .tagged ↔ p.HasExtension tagged := by
  rw [hasExtension_iff]
  cases p.fileName? with
  | none => simp [Dialect.ofName]
  | some name => simp [Dialect.ofName]

end FilePath

namespace FileTree

variable {t : FileTree} {root p : FilePath} {place : Location × Node}

def filesAt (t : FileTree) (root : FilePath) : List FilePath :=
  if t.isFile root then [root] else t.filesUnder root

theorem exists_descend (wf : t.WellFormed) (listed : p ∈ t.filesAt root) :
    ∃ names, (∀ name ∈ names, IsName name) ∧ p = root.descend names := by
  unfold filesAt at listed
  split at listed
  · exact ⟨[], List.forall_mem_nil _, List.mem_singleton.mp listed⟩
  · have found : ∃ f ∈ t.foundUnder root, f.path = p := by
      rcases (mem_filesUnder wf).mp listed with found | ⟨found, -⟩
      · exact ⟨_, found, rfl⟩
      · exact ⟨_, found, rfl⟩
    obtain ⟨f, found, rfl⟩ := found
    obtain ⟨loc, names, -, below⟩ := exists_below wf found
    exact ⟨names, below.valid, below.path⟩

theorem distinct_filesAt (wf : t.WellFormed) (there : t.find root = .ok place) : Scope.Distinct (t.filesAt root) := by
  have full := text_ne_nil_of_find there
  have once : (t.filesAt root).Nodup := by
    unfold filesAt
    split
    · exact List.nodup_singleton root
    · exact nodup_filesUnder wf root
  -- Different paths can have the same components, but not if both descend from one root by names.
  refine once.map_on ?_
  intro p listed q listed' same
  obtain ⟨names, valid, rfl⟩ := exists_descend wf listed
  obtain ⟨others, valid', rfl⟩ := exists_descend wf listed'
  rw [FilePath.components_descend full valid, FilePath.components_descend full valid'] at same
  have names := List.append_cancel_left same
  rw [List.map_inj_right fun a b same => Component.name.inj same] at names
  rw [names]

theorem Reordered.filesAt_perm {t' : FileTree} (order : t.Reordered t') (wf : t.WellFormed) (root : FilePath) :
    (t'.filesAt root).Perm (t.filesAt root) := by
  unfold filesAt
  rw [order.isFile_eq wf]
  split
  · exact List.Perm.refl _
  · exact order.filesUnder_perm wf root

end FileTree

structure Inventory.Partition (inv : Inventory) (t : FileTree) (root : FilePath) (entries patterns tagged : List Text) :
    Prop where
  candidatesInOrder : (inv.candidates.map Candidate.path).Pairwise fun p q => p.le q = true
  leftOutInOrder : inv.leftOut.Pairwise fun p q => p.le q = true
  once : Scope.Distinct inv.paths
  selected : ∀ p, p ∈ inv.paths ↔ p ∈ t.filesAt root ∧ p.HasExtension entries
  leftOut : ∀ p ∈ inv.paths, ∃ r, p.below? root = some r ∧
    (p ∈ inv.leftOut ↔ ∃ pattern ∈ patterns, IgnorePatterns.Catches pattern r.text)
  dialects : ∀ c, c ∈ inv.candidates ∨ c ∈ inv.skipped.map Prod.fst →
    (c.dialect = .tagged ↔ c.path.HasExtension tagged)

namespace Scope

variable {s : Scope} {t : FileTree} {root : FilePath} {place : Location × Node} {patterns entries tagged : List Text}
  {ignored : IgnorePatterns} {files : List FilePath}

theorem inventory_eq (there : t.find s.root = .ok place) : s.inventory t = .ok (s.split (t.filesAt s.root)) := by
  obtain ⟨loc, n⟩ := place
  simp only [inventory, FileTree.filesAt, FileTree.isFile, there]
  cases n <;> rfl

theorem dialect_of_split {c : Candidate}
    (listed : c ∈ (s.split files).candidates ∨ c ∈ (s.split files).skipped.map Prod.fst) :
    c.dialect = .ofName s.tagged c.path.fileName? := by
  have made : ∃ p, s.candidate p = c := by
    rcases listed with taken | left
    · rw [candidates_eq] at taken
      obtain ⟨p, -, made⟩ := List.mem_map.mp taken
      exact ⟨p, made⟩
    · simp only [split, List.map_map, List.mem_map] at left
      obtain ⟨p, -, made⟩ := left
      exact ⟨p, made⟩
  obtain ⟨p, rfl⟩ := made
  rfl

theorem partition_split (wf : t.WellFormed) (there : t.find root = .ok place)
    (read : IgnorePatterns.ofPatterns root patterns = .ok ignored) :
    Inventory.Partition (split ⟨root, .ofEntries entries, ignored, tagged⟩ (t.filesAt root)) t root entries patterns
      tagged := by
  generalize whole : (⟨root, .ofEntries entries, ignored, tagged⟩ : Scope) = s
  have selection : s.selection = .ofEntries entries := by rw [← whole]
  have ignoring : s.ignored = ignored := by rw [← whole]
  have tagging : s.tagged = tagged := by rw [← whole]
  have sorted : (s.ordered (t.filesAt root)).Pairwise fun p q => p.le q = true :=
    FilePath.pairwise_mergeSort id ((t.filesAt root).filter s.selection.selects)
  refine ⟨?_, ?_, ?_, ?_, ?_, ?_⟩
  · rw [paths_candidates]
    exact sorted.filter _
  · rw [leftOut_eq]
    exact sorted.filter _
  · have distinct := FileTree.distinct_filesAt wf there
    have perm := (s.paths_split (t.filesAt root)).map FilePath.components
    exact perm.nodup_iff.mpr (distinct.sublist (List.filter_sublist.map _))
  · intro p
    rw [mem_paths_split, selection, FilePath.selects_iff]
  · intro p listed
    obtain ⟨inFiles, selected⟩ := mem_paths_split.mp listed
    obtain ⟨names, valid, rfl⟩ := FileTree.exists_descend wf inFiles
    have below := FilePath.below?_descend (FileTree.text_ne_nil_of_find there) valid
    refine ⟨_, below, ?_⟩
    rw [mem_leftOut_split, ignoring, IgnorePatterns.ignores_iff read, IgnorePatterns.subject, below]
    simp [inFiles, selected]
  · intro c listed
    rw [dialect_of_split listed, tagging, FilePath.tagged_iff]

/-- Collecting sorts the files at a root into those that are taken and those that are left out. Neither the order in
which a walk comes across them nor that in which the directories list them has a part in it. -/
theorem collection_is_a_partition (wf : t.WellFormed) (there : t.find root = .ok place)
    (read : IgnorePatterns.ofPatterns root patterns = .ok ignored) (entries tagged : List Text) :
    ∃ inv, inventory ⟨root, .ofEntries entries, ignored, tagged⟩ t = .ok inv ∧
      inv.Partition t root entries patterns tagged ∧
      (t.isFile root = false → ∀ found : List Found, found.Perm (t.foundUnder root) →
        split ⟨root, .ofEntries entries, ignored, tagged⟩ (t.kept found) = inv) ∧
      ∀ t', t.Reordered t' → inventory ⟨root, .ofEntries entries, ignored, tagged⟩ t' = .ok inv := by
  have distinct := FileTree.distinct_filesAt wf there
  refine ⟨_, inventory_eq there, partition_split wf there read, fun directory found perm => ?_, fun t' order => ?_⟩
  · have files : t.filesAt root = t.kept (t.foundUnder root) := by
      rw [FileTree.filesAt, directory]
      exact t.filesUnder_eq_kept root
    rw [files] at distinct ⊢
    exact split_perm _ (t.kept_perm perm) distinct
  · have there' : t'.find root = .ok place := by rw [order.find_eq wf, there]
    rw [inventory_eq there']
    exact congrArg Except.ok (split_perm _ (order.filesAt_perm wf root) distinct)

example : FilePath.le ⟨['a', '/', 'b']⟩ ⟨['a', '-', 'b']⟩ = true := by decide

theorem lone_file_is_partitioned :
    ∃ inv, inventory ⟨⟨['d']⟩, .ofEntries [['.', 'c']], ownName, [['c']]⟩ .lone = .ok inv ∧
      inv.Partition .lone ⟨['d']⟩ [['.', 'c']] [['a', '.', 'c']] [['c']] ∧
      split ⟨⟨['d']⟩, .ofEntries [['.', 'c']], ownName, [['c']]⟩
        (FileTree.lone.kept (FileTree.lone.foundUnder ⟨['d']⟩).reverse) = inv ∧
      inventory ⟨⟨['d']⟩, .ofEntries [['.', 'c']], ownName, [['c']]⟩ ⟨FileTree.lone.nodes.reverse, [], []⟩ = .ok inv := by
  have wf : FileTree.lone.WellFormed := ⟨by decide, by decide⟩
  have there : FileTree.lone.find ⟨['d']⟩ = .ok ([['d']], .directory) := rfl
  obtain ⟨inv, collected, partition, walked, listed⟩ :=
    collection_is_a_partition wf there ofPatterns_ownName [['.', 'c']] [['c']]
  exact ⟨inv, collected, partition, walked rfl _ (List.reverse_perm _), listed _ ⟨List.reverse_perm _, rfl⟩⟩

end Scope

end LicenseHeaders
