import LicenseHeaders.Proofs.LinkedFiles

namespace LicenseHeaders

namespace FileTree

variable {t t' : FileTree} {loc : Location} {n : Node}

/-- The other tree has the same nodes, listed in another order. -/
structure Reordered (t t' : FileTree) : Prop where
  nodes : t'.nodes.Perm t.nodes
  current : t'.current = t.current

theorem Reordered.wellFormed (order : t.Reordered t') (wf : t.WellFormed) : t'.WellFormed where
  distinct := (order.nodes.map Prod.fst).nodup_iff.mpr wf.distinct
  named entry member := wf.named entry (order.nodes.subset member)

theorem Reordered.node?_eq (order : t.Reordered t') (wf : t.WellFormed) : t'.node? = t.node? := by
  funext l
  by_cases root : l = []
  · rw [FileTree.node?, FileTree.node?, if_pos root, if_pos root]
  · ext n
    have here : t.node? l = some n ↔ (l, n) ∈ t.nodes := ⟨mem_of_node? root, node?_of_mem wf root⟩
    have there : t'.node? l = some n ↔ (l, n) ∈ t'.nodes :=
      ⟨mem_of_node? root, node?_of_mem (order.wellFormed wf) root⟩
    rw [here, there, order.nodes.mem_iff]

theorem walkWith_congr (same : t'.node? = t.node?) : walkWith t' = walkWith t := by
  funext follow loc pieces
  induction pieces generalizing loc with
  | nil => rfl
  | cons piece rest ih => simp only [walkWith, same, ih]

theorem walk_congr (same : t'.node? = t.node?) (links : Nat) : walk t' links = walk t links := by
  induction links with
  | zero => rw [walk, walk, walkWith_congr same]
  | succ links ih => rw [walk, walk, walkWith_congr same, ih]

theorem Reordered.find_eq (order : t.Reordered t') (wf : t.WellFormed) : t'.find = t.find := by
  funext p
  simp only [FileTree.find, resolve, order.current, walk_congr (order.node?_eq wf)]

theorem Reordered.isFile_eq (order : t.Reordered t') (wf : t.WellFormed) : t'.isFile = t.isFile := by
  funext p
  rw [isFile, isFile, order.find_eq wf]

theorem Reordered.children_perm (order : t.Reordered t') (loc : Location) :
    (t'.children loc).Perm (t.children loc) :=
  order.nodes.filterMap _

theorem Reordered.walkBelow_perm (order : t.Reordered t') (wf : t.WellFormed) (depth : Nat) (files : List IgnoreFile)
    (dir : FilePath) (loc : Location) :
    (t'.walkBelow depth files dir loc).Perm (t.walkBelow depth files dir loc) := by
  have loads : IgnoreFile.load t' = IgnoreFile.load t := by
    funext base
    rw [IgnoreFile.load, IgnoreFile.load, read, read, order.find_eq wf]
  induction depth generalizing files dir loc with
  | zero => exact List.Perm.refl _
  | succ depth ih =>
    rw [walkBelow_succ, walkBelow_succ, loads]
    -- The entries come in another order, and what each of them leads to by the induction hypothesis as well.
    refine (order.children_perm loc).flatMap ?_
    intro child _
    obtain ⟨name, n⟩ := child
    cases n with
    | directory =>
      simp only [branch]
      split
      · exact List.Perm.refl _
      · exact ih _ _ _
    | file _ | device _ => exact List.Perm.refl _
    | link _ =>
      simp only [branch, order.isFile_eq wf]
      exact List.Perm.refl _

theorem Reordered.foundUnder_perm (order : t.Reordered t') (wf : t.WellFormed) (root : FilePath) :
    (t'.foundUnder root).Perm (t.foundUnder root) := by
  unfold foundUnder
  rw [order.find_eq wf, order.nodes.length_eq]
  split
  · split
    · exact List.Perm.refl _
    · exact order.walkBelow_perm wf _ _ _ _
  · exact List.Perm.refl _

def kept (t : FileTree) (found : List Found) : List FilePath :=
  let regular := found.filterMap Found.regular?
  regular ++ (found.filterMap Found.link?).filter (t.leadsAway (regular.filterMap t.locate?))

theorem filesUnder_eq_kept (t : FileTree) (root : FilePath) : t.filesUnder root = t.kept (t.foundUnder root) :=
  filesUnder_eq t root

theorem kept_perm (t : FileTree) {found found' : List Found} (perm : found'.Perm found) :
    (t.kept found').Perm (t.kept found) := by
  have regular := perm.filterMap Found.regular?
  have targets := regular.filterMap t.locate?
  have away : t.leadsAway ((found'.filterMap Found.regular?).filterMap t.locate?) =
      t.leadsAway ((found.filterMap Found.regular?).filterMap t.locate?) := by
    funext p
    simp only [leadsAway, targets.contains_eq]
  rw [kept, kept, away]
  exact regular.append ((perm.filterMap Found.link?).filter _)

theorem Reordered.kept_eq (order : t.Reordered t') (wf : t.WellFormed) : t'.kept = t.kept := by
  have located : t'.locate? = t.locate? := by
    funext p
    rw [locate?, locate?, order.find_eq wf]
  have away : t'.leadsAway = t.leadsAway := by
    funext targets p
    rw [leadsAway, leadsAway, located]
  funext found
  rw [kept, kept, located, away]

theorem Reordered.filesUnder_perm (order : t.Reordered t') (wf : t.WellFormed) (root : FilePath) :
    (t'.filesUnder root).Perm (t.filesUnder root) := by
  rw [filesUnder_eq_kept, filesUnder_eq_kept, order.kept_eq wf]
  exact t.kept_perm (order.foundUnder_perm wf root)

end FileTree

namespace Scope

variable {s : Scope} {t t' : FileTree} {files files' : List FilePath}

def Distinct (files : List FilePath) : Prop :=
  (files.map FilePath.components).Nodup

theorem split_perm (s : Scope) (perm : files'.Perm files) (distinct : Distinct files) :
    s.split files' = s.split files := by
  have selected := perm.filter s.selection.selects
  have sorted (files : List FilePath) : (s.ordered files).Pairwise fun p q => p.le q = true :=
    FilePath.pairwise_mergeSort id (files.filter s.selection.selects)
  have same : s.ordered files' = s.ordered files := by
    have all := ((s.ordered_perm files').trans selected).trans (s.ordered_perm files).symm
    refine all.eq_of_pairwise ?_ (sorted files') (sorted files)
    intro p q listed listed' first second
    have inFiles : p ∈ files := perm.subset (List.mem_of_mem_filter ((s.ordered_perm files').subset listed))
    have inFiles' : q ∈ files := List.mem_of_mem_filter ((s.ordered_perm files).subset listed')
    exact List.inj_on_of_nodup_map distinct inFiles inFiles'
      (FilePath.components_eq_of_key_eq (FilePath.key_eq_of_le first second))
  unfold ordered at same
  rw [split, split, same]

end Scope

end LicenseHeaders
