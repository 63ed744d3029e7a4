import LicenseHeaders.Proofs.Handling
import LicenseHeaders.Proofs.Traversal
import Mathlib.Data.List.Pairwise

namespace LicenseHeaders

namespace Found

variable {found : List Found} {p : FilePath}

theorem mem_regular : p ∈ found.filterMap regular? ↔ .regular p ∈ found := by
  rw [List.mem_filterMap]
  constructor
  · rintro ⟨f, member, same⟩
    cases f <;> cases same
    exact member
  · exact fun member => ⟨_, member, rfl⟩

theorem mem_link : p ∈ found.filterMap link? ↔ .link p ∈ found := by
  rw [List.mem_filterMap]
  constructor
  · rintro ⟨f, member, same⟩
    cases f <;> cases same
    exact member
  · exact fun member => ⟨_, member, rfl⟩

theorem regular?_injective (f g : Found) (p : FilePath) (first : p ∈ f.regular?) (second : p ∈ g.regular?) :
    f = g := by
  cases f <;> cases first
  cases g <;> cases second
  rfl

theorem link?_injective (f g : Found) (p : FilePath) (first : p ∈ f.link?) (second : p ∈ g.link?) : f = g := by
  cases f <;> cases first
  cases g <;> cases second
  rfl

theorem disjoint_regular_link (once : (found.map path).Nodup) :
    (found.filterMap regular?).Disjoint (found.filterMap link?) := by
  refine List.disjoint_left.mpr fun p isRegular isLink => ?_
  have same := List.inj_on_of_nodup_map once (mem_regular.mp isRegular) (mem_link.mp isLink) rfl
  cases same

end Found

namespace FileTree

def Reaches (t : FileTree) (root p : FilePath) : Prop :=
  ∃ r, .regular r ∈ t.foundUnder root ∧ t.locate? r = t.locate? p

instance (t : FileTree) (root p : FilePath) : Decidable (t.Reaches root p) :=
  decidable_of_iff (∃ r ∈ (t.foundUnder root).filterMap Found.regular?, t.locate? r = t.locate? p)
    (exists_congr fun _ => and_congr_left' Found.mem_regular)

variable {t : FileTree} {root p q : FilePath}

def leadsAway (t : FileTree) (targets : List Location) (p : FilePath) : Bool :=
  match t.locate? p with
  | some target => !targets.contains target
  | none => false

theorem filesUnder_eq (t : FileTree) (root : FilePath) :
    t.filesUnder root =
      let regular := (t.foundUnder root).filterMap Found.regular?
      regular ++ ((t.foundUnder root).filterMap Found.link?).filter (t.leadsAway (regular.filterMap t.locate?)) := by
  cases there : t.find root with
  | error e => simp [filesUnder, foundUnder, there]
  | ok place =>
    obtain ⟨loc, n⟩ := place
    cases n with
    | directory =>
      by_cases dashed : root.text = dash
      · simp [filesUnder, foundUnder, there, dashed]
      · simp only [filesUnder, foundUnder, there, if_neg dashed]
        rfl
    | file _ | link _ | device _ => simp [filesUnder, foundUnder, there]

theorem leadsAway_iff (wf : t.WellFormed) (found : .link p ∈ t.foundUnder root) :
    t.leadsAway (((t.foundUnder root).filterMap Found.regular?).filterMap t.locate?) p = true ↔
      ¬ t.Reaches root p := by
  obtain ⟨l, located⟩ := located_of_link wf found
  have listed : l ∈ ((t.foundUnder root).filterMap Found.regular?).filterMap t.locate? ↔ t.Reaches root p := by
    simp only [List.mem_filterMap (l := List.filterMap _ _), Found.mem_regular, Reaches, located]
  simp only [leadsAway, located]
  rw [← listed]
  simp

theorem mem_filesUnder (wf : t.WellFormed) :
    p ∈ t.filesUnder root ↔
      .regular p ∈ t.foundUnder root ∨ (.link p ∈ t.foundUnder root ∧ ¬ t.Reaches root p) := by
  rw [filesUnder_eq, List.mem_append, Found.mem_regular, List.mem_filter, Found.mem_link]
  exact or_congr_right (and_congr_right fun found => leadsAway_iff wf found)

theorem nodup_filesUnder (wf : t.WellFormed) (root : FilePath) : (t.filesUnder root).Nodup := by
  have once := nodup_foundUnder wf root
  have distinct := once.of_map
  rw [filesUnder_eq]
  refine List.Nodup.append (distinct.filterMap Found.regular?_injective)
    ((distinct.filterMap Found.link?_injective).filter _) ?_
  exact List.disjoint_of_subset_right (List.filter_subset_self _) (Found.disjoint_regular_link once)

theorem link_mem_filesUnder (wf : t.WellFormed) (found : .link p ∈ t.foundUnder root) :
    p ∈ t.filesUnder root ↔ ¬ t.Reaches root p := by
  rw [mem_filesUnder wf]
  constructor
  · rintro (regular | ⟨-, away⟩)
    · have apart := Found.disjoint_regular_link (nodup_foundUnder wf root)
      exact absurd (Found.mem_link.mpr found) (List.disjoint_left.mp apart (Found.mem_regular.mpr regular))
    · exact away
  · exact fun away => Or.inr ⟨found, away⟩

theorem links_of_same (wf : t.WellFormed) (listed : p ∈ t.filesUnder root) (listed' : q ∈ t.filesUnder root)
    (different : p ≠ q) (same : t.locate? p = t.locate? q) (leads : (t.locate? p).isSome) :
    (.link p ∈ t.foundUnder root ∧ .link q ∈ t.foundUnder root) ∧ ¬ t.Reaches root p := by
  obtain ⟨l, located⟩ := Option.isSome_iff_exists.mp leads
  rcases (mem_filesUnder wf).mp listed with first | ⟨first, away⟩
  · rcases (mem_filesUnder wf).mp listed' with second | ⟨-, away⟩
    · exact absurd (regular_eq wf first second located (same ▸ located)) different
    · exact absurd ⟨p, first, same⟩ away
  · rcases (mem_filesUnder wf).mp listed' with second | ⟨second, -⟩
    · exact absurd ⟨q, second, same.symm⟩ away
    · exact ⟨⟨first, second⟩, away⟩

def linked : FileTree :=
  ⟨[([['s']], .file .empty), ([['t']], .directory), ([['t'], ['n']], .file .empty),
    ([['t'], ['a', '.', 'c']], .link ⟨['.', '.', '/', 's']⟩),
    ([['t'], ['b', '.', 'c']], .link ⟨['.', '.', '/', 's']⟩),
    ([['t'], ['e', '.', 'c']], .link ⟨['n']⟩)], [], []⟩

theorem wellFormed_linked : linked.WellFormed :=
  ⟨by decide, by decide⟩

end FileTree

namespace Inventory

def leftOut (inv : Inventory) : List FilePath :=
  inv.skipped.map (·.1.path)

def paths (inv : Inventory) : List FilePath :=
  inv.candidates.map Candidate.path ++ inv.leftOut

end Inventory

namespace Scope

variable {s : Scope} {t : FileTree} {inv : Inventory} {p q : FilePath} {files : List FilePath}

def takes (s : Scope) (p : FilePath) : Bool :=
  s.selection.selects p && !s.ignored.ignores p

def ordered (s : Scope) (files : List FilePath) : List FilePath :=
  (files.filter s.selection.selects).mergeSort FilePath.le

theorem ordered_perm (s : Scope) (files : List FilePath) : (s.ordered files).Perm (files.filter s.selection.selects) :=
  List.mergeSort_perm _ _

theorem candidates_eq (s : Scope) (files : List FilePath) :
    (s.split files).candidates = ((s.ordered files).filter (!s.ignored.ignores ·)).map s.candidate := by
  simp [split, ordered, List.partition_eq_filter_filter, Function.comp_def]

theorem leftOut_eq (s : Scope) (files : List FilePath) :
    (s.split files).leftOut = (s.ordered files).filter s.ignored.ignores := by
  simp [split, ordered, Inventory.leftOut, List.partition_eq_filter_filter, candidate, Function.comp_def]

theorem candidates_split (s : Scope) (files : List FilePath) :
    (s.split files).candidates.Perm ((files.filter s.takes).map s.candidate) := by
  have taken : files.filter s.takes = (files.filter s.selection.selects).filter (!s.ignored.ignores ·) := by
    rw [List.filter_filter]
    congr 1
    funext p
    exact Bool.and_comm _ _
  rw [candidates_eq, taken]
  exact ((s.ordered_perm files).filter _).map _

theorem mem_leftOut_split :
    p ∈ (s.split files).leftOut ↔ p ∈ files ∧ s.selection.selects p = true ∧ s.ignored.ignores p = true := by
  rw [leftOut_eq, List.mem_filter, (s.ordered_perm files).mem_iff, List.mem_filter, and_assoc]

theorem paths_candidates (s : Scope) (files : List FilePath) :
    (s.split files).candidates.map Candidate.path = (s.ordered files).filter (!s.ignored.ignores ·) := by
  rw [candidates_eq, List.map_map]
  exact List.map_id _

theorem paths_split (s : Scope) (files : List FilePath) :
    (s.split files).paths.Perm (files.filter s.selection.selects) := by
  rw [Inventory.paths, leftOut_eq, paths_candidates]
  exact List.perm_append_comm.trans ((List.filter_append_perm _ _).trans (s.ordered_perm files))

theorem mem_paths_split : p ∈ (s.split files).paths ↔ p ∈ files ∧ s.selection.selects p = true := by
  rw [(s.paths_split files).mem_iff, List.mem_filter]

theorem inventory_cases (collected : s.inventory t = .ok inv) :
    (inv = s.split [s.root] ∧ t.foundUnder s.root = []) ∨ inv = s.split (t.filesUnder s.root) := by
  unfold inventory at collected
  split at collected
  · cases collected
  · rename_i there
    cases collected
    exact Or.inl ⟨rfl, by simp only [FileTree.foundUnder, there]⟩
  · cases collected
    exact Or.inr rfl

theorem pairwise_candidates (once : files.Nodup) :
    (s.split files).candidates.Pairwise t.Apart ↔
      ∀ p ∈ files, ∀ q ∈ files, s.takes p = true → s.takes q = true → p ≠ q →
        t.Apart (s.candidate p) (s.candidate q) := by
  have symmetric : Std.Symm fun p q => t.Apart (s.candidate p) (s.candidate q) :=
    ⟨fun p q apart => Std.Symm.symm (s.candidate p) (s.candidate q) apart⟩
  rw [(s.candidates_split files).pairwise_iff (fun apart => Std.Symm.symm _ _ apart), List.pairwise_map]
  constructor
  · intro apart p listed q listed' taken taken' different
    exact apart.forall (List.mem_filter.mpr ⟨listed, taken⟩) (List.mem_filter.mpr ⟨listed', taken'⟩) different
  · intro apart
    refine (once.filter s.takes).pairwise_of_forall_ne fun p listed q listed' different => ?_
    obtain ⟨inFiles, taken⟩ := List.mem_filter.mp listed
    obtain ⟨inFiles', taken'⟩ := List.mem_filter.mp listed'
    exact apart p inFiles q inFiles' taken taken' different

def sources : Scope :=
  ⟨⟨['t']⟩, ⟨[['c']]⟩, ⟨⟨['t']⟩, []⟩, []⟩

/-- No file is taken on twice, unless two links that are taken lead to one file and no regular file that the walk
comes across lies there. -/
theorem candidates_apart_iff (wf : t.WellFormed) (collected : s.inventory t = .ok inv) :
    inv.candidates.Pairwise t.Apart ↔
      ∀ p q, .link p ∈ t.foundUnder s.root → .link q ∈ t.foundUnder s.root → p ≠ q →
        s.takes p = true → s.takes q = true → t.locate? p = t.locate? q → t.Reaches s.root p := by
  rcases inventory_cases collected with ⟨rfl, nothing⟩ | rfl
  · rw [pairwise_candidates (List.nodup_singleton _), nothing]
    simp
  · rw [pairwise_candidates (FileTree.nodup_filesUnder wf s.root)]
    constructor
    · intro apart p q found found' different taken taken' same
      by_contra away
      -- A regular file where one of the links leads would stand in for both.
      have awayToo : ¬ t.Reaches s.root q := by
        rintro ⟨r, regular, there⟩
        exact away ⟨r, regular, there.trans same.symm⟩
      obtain ⟨l, located⟩ := FileTree.located_of_link wf found
      exact apart p ((FileTree.link_mem_filesUnder wf found).mpr away)
        q ((FileTree.link_mem_filesUnder wf found').mpr awayToo) taken taken' different l located (same ▸ located)
    · intro shadowed p listed q listed' taken taken' different l located located'
      have same : t.locate? p = t.locate? q := Eq.trans located (Eq.symm located')
      have leads : (t.locate? p).isSome := Option.isSome_of_eq_some located
      obtain ⟨⟨found, found'⟩, away⟩ := FileTree.links_of_same wf listed listed' different same leads
      exact away (shadowed p q found found' different taken taken' same)

theorem linked_file_taken_twice :
    FileTree.linked.WellFormed ∧
      ∃ inv, sources.inventory .linked = .ok inv ∧ ¬ inv.candidates.Pairwise FileTree.linked.Apart := by
  have wf := FileTree.wellFormed_linked
  have collected : sources.inventory .linked = .ok (sources.split (FileTree.linked.filesUnder ⟨['t']⟩)) := rfl
  refine ⟨wf, _, collected, fun apart => ?_⟩
  have away : ¬ FileTree.linked.Reaches ⟨['t']⟩ ⟨['t', '/', 'a', '.', 'c']⟩ := by decide
  exact away <| (candidates_apart_iff wf collected).mp apart ⟨['t', '/', 'a', '.', 'c']⟩
    ⟨['t', '/', 'b', '.', 'c']⟩ (by decide) (by decide) (by decide) (by decide) (by decide) (by decide)

/-- A link that is selected is collected unless a regular file lies where it leads; and what it leads to is
collected exactly if each regular file there is selected itself. -/
theorem link_collected_iff (wf : t.WellFormed) (collected : s.inventory t = .ok inv)
    (found : .link p ∈ t.foundUnder s.root) (selected : s.selection.selects p = true) :
    (p ∈ inv.paths ↔ ¬ t.Reaches s.root p) ∧
      ((∃ q ∈ inv.paths, t.locate? q = t.locate? p) ↔
        ∀ r, .regular r ∈ t.foundUnder s.root → t.locate? r = t.locate? p → s.selection.selects r = true) := by
  rcases inventory_cases collected with ⟨-, nothing⟩ | rfl
  · rw [nothing] at found
    cases found
  · have own : p ∈ (s.split (t.filesUnder s.root)).paths ↔ ¬ t.Reaches s.root p := by
      rw [mem_paths_split, and_iff_left selected, FileTree.link_mem_filesUnder wf found]
    obtain ⟨l, located⟩ := FileTree.located_of_link wf found
    refine ⟨own, ?_, fun regulars => ?_⟩
    · rintro ⟨q, listed, same⟩ r regular there
      obtain ⟨inTree, chosen⟩ := mem_paths_split.mp listed
      rcases (FileTree.mem_filesUnder wf).mp inTree with other | ⟨-, away⟩
      · obtain rfl := FileTree.regular_eq wf regular other (there.trans located) (same.trans located)
        exact chosen
      · exact absurd ⟨r, regular, there.trans same.symm⟩ away
    · by_cases reached : t.Reaches s.root p
      · obtain ⟨r, regular, there⟩ := reached
        exact ⟨r, mem_paths_split.mpr ⟨(FileTree.mem_filesUnder wf).mpr (Or.inl regular), regulars r regular there⟩,
          there⟩
      · exact ⟨p, own.mpr reached, rfl⟩

theorem linked_file_lost :
    FileTree.linked.WellFormed ∧ .link ⟨['t', '/', 'e', '.', 'c']⟩ ∈ FileTree.linked.foundUnder ⟨['t']⟩ ∧
      sources.selection.selects ⟨['t', '/', 'e', '.', 'c']⟩ = true ∧
      ∃ inv, sources.inventory .linked = .ok inv ∧
        ¬ ∃ q ∈ inv.paths, FileTree.linked.locate? q = FileTree.linked.locate? ⟨['t', '/', 'e', '.', 'c']⟩ := by
  have wf := FileTree.wellFormed_linked
  have collected : sources.inventory .linked = .ok (sources.split (FileTree.linked.filesUnder ⟨['t']⟩)) := rfl
  have found : .link ⟨['t', '/', 'e', '.', 'c']⟩ ∈ FileTree.linked.foundUnder ⟨['t']⟩ := by decide
  have selected : sources.selection.selects ⟨['t', '/', 'e', '.', 'c']⟩ = true := by decide
  refine ⟨wf, found, selected, _, collected, fun covered => ?_⟩
  have regulars := (link_collected_iff wf collected found selected).2.mp covered
  have refused := regulars ⟨['t', '/', 'n']⟩ (by decide) (by decide)
  cases refused

end Scope

end LicenseHeaders
