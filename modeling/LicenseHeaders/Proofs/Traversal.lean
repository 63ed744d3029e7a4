import LicenseHeaders.Proofs.Descent
import LicenseHeaders.Scope
import Mathlib.Data.List.Nodup

namespace LicenseHeaders

namespace Found

def path : Found → FilePath
  | .regular p | .link p => p

def ofNode? (p : FilePath) : Node → Option Found
  | .file _ => some (.regular p)
  | .link _ => some (.link p)
  | .directory | .device _ => none

theorem path_of_ofNode? {p : FilePath} {n : Node} {f : Found} (made : ofNode? p n = some f) : f.path = p := by
  cases n <;> cases made <;> rfl

end Found

namespace FileTree

variable {t : FileTree} {loc : Location} {n : Node}

theorem entry_of_listed {l : Location} {child : Text × Node}
    (listed : (match l.getLast? with
      | some name => if l.dropLast = loc then some (name, n) else none
      | none => none) = some child) : l = loc ++ [child.1] ∧ n = child.2 := by
  split at listed
  · rename_i name last
    obtain ⟨front, rfl⟩ := List.getLast?_eq_some_iff.mp last
    rw [List.dropLast_concat] at listed
    split at listed
    · rename_i inside
      cases listed
      exact ⟨by rw [inside], rfl⟩
    · cases listed
  · cases listed

theorem mem_children {name : Text} : (name, n) ∈ t.children loc ↔ (loc ++ [name], n) ∈ t.nodes := by
  rw [children, List.mem_filterMap]
  constructor
  · rintro ⟨⟨l, k⟩, member, listed⟩
    obtain ⟨rfl, rfl⟩ := entry_of_listed listed
    exact member
  · intro member
    exact ⟨(loc ++ [name], n), member, by simp⟩

theorem pairwise_children (wf : t.WellFormed) (loc : Location) :
    (t.children loc).Pairwise fun a b => a.1 ≠ b.1 := by
  have distinct := wf.distinct
  rw [List.Nodup, List.pairwise_map] at distinct
  refine distinct.filterMap _ fun a b apart x listed y listed' same => apart ?_
  rw [(entry_of_listed listed).1, (entry_of_listed listed').1, same]

theorem name_of_child (wf : t.WellFormed) {child : Text × Node} (listed : child ∈ t.children loc) :
    IsName child.1 ∧ t.node? (loc ++ [child.1]) = some child.2 := by
  have member := mem_children.mp listed
  exact ⟨wf.named _ member child.1 (by simp), node?_of_mem wf (by simp) member⟩

def branch (t : FileTree) (depth : Nat) (files : List IgnoreFile) (dir : FilePath) (loc : Location)
    (child : Text × Node) : List Found :=
  let p := dir.join ⟨child.1⟩
  match child.2 with
  | .directory => if IgnoreFile.leaveOut files p true then [] else walkBelow t depth files p (loc ++ [child.1])
  | .file _ => if IgnoreFile.leaveOut files p false then [] else [.regular p]
  | .link _ => if IgnoreFile.leaveOut files p false || !t.isFile p then [] else [.link p]
  | .device _ => []

theorem walkBelow_succ (t : FileTree) (depth : Nat) (files : List IgnoreFile) (dir : FilePath) (loc : Location) :
    t.walkBelow (depth + 1) files dir loc =
      (t.children loc).flatMap (t.branch depth (IgnoreFile.load t dir :: files) dir loc) :=
  rfl

/-- Something found at a path: names lead from the directory to what it is, and a link there leads to a file. -/
structure FoundBelow (t : FileTree) (dir : FilePath) (loc : Location) (names : List Text) (f : Found) : Prop where
  leads : ∃ n, t.Leads loc names n ∧ Found.ofNode? (dir.descend names) n = some f
  opened : ∀ p, f = .link p → t.isFile p = true

theorem FoundBelow.path {dir : FilePath} {names : List Text} {f : Found} (found : t.FoundBelow dir loc names f) :
    f.path = dir.descend names := by
  obtain ⟨n, -, made⟩ := found.leads
  exact Found.path_of_ofNode? made

theorem FoundBelow.valid {dir : FilePath} {names : List Text} {f : Found} (found : t.FoundBelow dir loc names f) :
    ∀ name ∈ names, IsName name := by
  obtain ⟨n, leads, -⟩ := found.leads
  exact leads.valid

variable {depth : Nat} {files : List IgnoreFile} {dir : FilePath} {f : Found}

theorem exists_names_branch (wf : t.WellFormed) {child : Text × Node} (listed : child ∈ t.children loc)
    (deeper : ∀ files dir loc, ∀ f ∈ t.walkBelow depth files dir loc, ∃ names, t.FoundBelow dir loc names f)
    (found : f ∈ t.branch depth files dir loc child) :
    ∃ names, t.FoundBelow dir loc (child.1 :: names) f := by
  obtain ⟨name, n⟩ := child
  obtain ⟨isName, here⟩ := name_of_child wf listed
  simp only [branch] at found
  cases n with
  | directory =>
    simp only at found
    split at found
    · cases found
    · obtain ⟨names, ⟨n, leads, made⟩, opened⟩ := deeper _ _ _ f found
      exact ⟨names, ⟨n, .through isName here leads, made⟩, opened⟩
  | file bytes =>
    simp only at found
    split at found
    · cases found
    · obtain rfl := List.mem_singleton.mp found
      exact ⟨[], ⟨_, .entry isName here, rfl⟩, by simp⟩
  | link target =>
    simp only at found
    split at found
    · cases found
    · rename_i kept
      obtain rfl := List.mem_singleton.mp found
      refine ⟨[], ⟨_, .entry isName here, rfl⟩, fun p same => ?_⟩
      obtain rfl := Found.link.inj same
      have both : IgnoreFile.leaveOut files (dir.join ⟨name⟩) false = false ∧ t.isFile (dir.join ⟨name⟩) = true := by
        simpa using kept
      exact both.2
  | device d => cases found

theorem exists_names (wf : t.WellFormed) (found : f ∈ t.walkBelow depth files dir loc) :
    ∃ names, t.FoundBelow dir loc names f := by
  induction depth generalizing files dir loc f with
  | zero => cases found
  | succ depth ih =>
    rw [walkBelow_succ, List.mem_flatMap] at found
    obtain ⟨child, listed, inBranch⟩ := found
    obtain ⟨names, below⟩ := exists_names_branch wf listed (fun _ _ _ _ found => ih found) inBranch
    exact ⟨child.1 :: names, below⟩

theorem nodup_branch (deeper : ∀ files dir loc, ((t.walkBelow depth files dir loc).map Found.path).Nodup)
    (child : Text × Node) : ((t.branch depth files dir loc child).map Found.path).Nodup := by
  obtain ⟨name, n⟩ := child
  simp only [branch]
  cases n with
  | directory =>
    simp only
    split
    · exact List.nodup_nil
    · exact deeper _ _ _
  | file _ | link _ =>
    simp only
    split
    · exact List.nodup_nil
    · exact List.nodup_singleton _
  | device d => exact List.nodup_nil

theorem disjoint_branches (wf : t.WellFormed) {a b : Text × Node} (listed : a ∈ t.children loc)
    (listed' : b ∈ t.children loc) (apart : a.1 ≠ b.1) :
    ((t.branch depth files dir loc a).map Found.path).Disjoint ((t.branch depth files dir loc b).map Found.path) := by
  refine List.disjoint_left.mpr fun p inA inB => apart ?_
  obtain ⟨f, foundA, pathA⟩ := List.mem_map.mp inA
  obtain ⟨g, foundB, pathB⟩ := List.mem_map.mp inB
  obtain ⟨names, belowA⟩ := exists_names_branch wf listed (fun _ _ _ _ found => exists_names wf found) foundA
  obtain ⟨others, belowB⟩ := exists_names_branch wf listed' (fun _ _ _ _ found => exists_names wf found) foundB
  have same : dir.descend (a.1 :: names) = dir.descend (b.1 :: others) := by
    rw [← belowA.path, ← belowB.path, pathA, pathB]
  exact (List.cons.inj (FilePath.descend_injective belowA.valid belowB.valid same)).1

theorem nodup_walkBelow (wf : t.WellFormed) : ((t.walkBelow depth files dir loc).map Found.path).Nodup := by
  induction depth generalizing files dir loc with
  | zero => exact List.nodup_nil
  | succ depth ih =>
    rw [walkBelow_succ, List.map_flatMap, List.nodup_flatMap]
    refine ⟨fun child _ => nodup_branch (fun _ _ _ => ih) child, ?_⟩
    exact (pairwise_children wf loc).imp_of_mem fun listed listed' apart => disjoint_branches wf listed listed' apart

def foundUnder (t : FileTree) (root : FilePath) : List Found :=
  match t.find root with
  | .ok (loc, .directory) => if root.text = dash then [] else t.walkBelow (t.nodes.length + 1) [] root loc
  | _ => []

variable {root p q : FilePath}

theorem exists_below (wf : t.WellFormed) (found : f ∈ t.foundUnder root) :
    ∃ loc names, t.find root = .ok (loc, .directory) ∧ t.FoundBelow root loc names f := by
  unfold foundUnder at found
  split at found
  · rename_i loc dir
    split at found
    · cases found
    · obtain ⟨names, below⟩ := exists_names wf found
      exact ⟨loc, names, dir, below⟩
  · cases found

theorem nodup_foundUnder (wf : t.WellFormed) (root : FilePath) : ((t.foundUnder root).map Found.path).Nodup := by
  unfold foundUnder
  split
  · split
    · exact List.nodup_nil
    · exact nodup_walkBelow wf
  · exact List.nodup_nil

theorem regular_eq (wf : t.WellFormed) (first : .regular p ∈ t.foundUnder root)
    (second : .regular q ∈ t.foundUnder root) {l : Location} (located : t.locate? p = some l)
    (same : t.locate? q = some l) : p = q := by
  obtain ⟨loc, names, dir, belowP⟩ := exists_below wf first
  obtain ⟨loc', others, dir', belowQ⟩ := exists_below wf second
  obtain rfl : loc = loc' := by
    rw [dir] at dir'
    cases dir'
    rfl
  have place : ∀ {p names}, t.FoundBelow root loc names (.regular p) → t.locate? p = some l → l = loc ++ names := by
    intro p names below located
    obtain ⟨n, leads, made⟩ := below.leads
    have solid : ∀ target, n ≠ .link target := by
      rintro target rfl
      cases made
    obtain rfl : p = root.descend names := below.path
    exact locate?_descend dir leads solid located
  have sameNames : names = others := List.append_cancel_left ((place belowP located).symm.trans (place belowQ same))
  have pathP : p = root.descend names := belowP.path
  have pathQ : q = root.descend others := belowQ.path
  rw [pathP, pathQ, sameNames]

theorem find_of_isFile (file : t.isFile p = true) : ∃ loc bytes, t.find p = .ok (loc, .file bytes) := by
  unfold isFile at file
  split at file
  · rename_i loc bytes there
    exact ⟨loc, bytes, there⟩
  · cases file

theorem located_of_link (wf : t.WellFormed) (found : .link p ∈ t.foundUnder root) :
    ∃ l, t.locate? p = some l := by
  obtain ⟨loc, names, -, below⟩ := exists_below wf found
  obtain ⟨l, bytes, there⟩ := find_of_isFile (below.opened p rfl)
  exact ⟨l, locate?_of_find there⟩

theorem regular_mem_foundUnder {name : Text} {bytes : ByteArray} (dir : t.find root = .ok (loc, .directory))
    (named : root.text ≠ dash) (file : t.node? (loc ++ [name]) = some (.file bytes))
    (kept : IgnoreFile.leaveOut [IgnoreFile.load t root] (root.join ⟨name⟩) false = false) :
    .regular (root.join ⟨name⟩) ∈ t.foundUnder root := by
  have listed : (name, .file bytes) ∈ t.children loc := mem_children.mpr (mem_of_node? (by simp) file)
  simp only [foundUnder, dir, if_neg named]
  rw [walkBelow_succ, List.mem_flatMap]
  exact ⟨(name, .file bytes), listed, by simp [branch, kept]⟩

end FileTree

end LicenseHeaders
