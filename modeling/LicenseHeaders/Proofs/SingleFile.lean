import LicenseHeaders.Proofs.LinkedFiles
import LicenseHeaders.Proofs.Wildcards

namespace LicenseHeaders

namespace FilePath

variable {p : FilePath} {name : Text}

theorem ofPiece_name (isName : IsName name) : Component.ofPiece name = some (.name name) := by
  simp [Component.ofPiece, isName.full, isName.notHere, isName.notUp]

theorem counts_of_some {piece : Text} {c : Component} (named : Component.ofPiece piece = some c) :
    counts piece = true := by
  rw [counts, named]
  rfl

theorem counts_of_none {piece : Text} (unnamed : Component.ofPiece piece = none) : counts piece = false := by
  rw [counts, unnamed]
  rfl

theorem counts_name (isName : IsName name) : counts name = true :=
  counts_of_some (ofPiece_name isName)

theorem eq_nil_of_splitAt {text : Text} (cut : Text.splitAt '/' text = [[]]) : text = [] := by
  cases text with
  | nil => rfl
  | cons c text =>
    obtain ⟨piece, pieces, inner⟩ := List.exists_cons_of_ne_nil (Text.splitAt_ne_nil '/' text)
    by_cases slash : c = '/' <;> simp [Text.splitAt, slash, inner] at cut

theorem dissect_append_slash {text : Text} (full : text ≠ []) (rest : Text) :
    dissect (text ++ '/' :: rest) = ((dissect text).1, (dissect text).2 ++ Text.splitAt '/' rest) := by
  unfold dissect
  rw [Text.splitAt_append]
  obtain ⟨first, pieces, cut⟩ := List.exists_cons_of_ne_nil (Text.splitAt_ne_nil '/' text)
  obtain ⟨next, others, behind⟩ := List.exists_cons_of_ne_nil (Text.splitAt_ne_nil '/' rest)
  rw [cut, behind]
  by_cases empty : first = []
  · subst empty
    cases pieces with
    | nil => exact absurd (eq_nil_of_splitAt cut) full
    | cons next pieces => rfl
  · by_cases dot : first = ['.']
    · subst dot
      rfl
    · simp [empty, dot]

theorem dissect_append {text piece : Text} (full : text ≠ []) (unslashed : '/' ∉ piece) :
    dissect (text ++ '/' :: piece) = ((dissect text).1, (dissect text).2 ++ [piece]) := by
  rw [dissect_append_slash full, Text.splitAt_of_notMem unslashed]

theorem dissect_join (full : p.text ≠ []) (isName : IsName name) :
    ∃ a pieces, dissect (p.join ⟨name⟩).text = (a, pieces ++ [name]) ∧
      (dissect p.text = (a, pieces) ∨ dissect p.text = (a, pieces ++ [[]])) := by
  rcases join_name p isName with ⟨empty, -⟩ | ⟨body, text, joined⟩ | ⟨-, joined⟩
  · exact absurd empty full
  · rw [joined, text]
    by_cases root : body = []
    · subst root
      refine ⟨.root, [], ?_, Or.inr rfl⟩
      simp [dissect, Text.splitAt, isName.splitAt_eq]
    · exact ⟨_, _, dissect_append root isName.unslashed, Or.inr (dissect_append root List.not_mem_nil)⟩
  · rw [joined]
    exact ⟨_, _, dissect_append full isName.unslashed, Or.inl rfl⟩

theorem components_eq {a : Anchor} {pieces : List Text} (parts : dissect p.text = (a, pieces)) :
    p.components = a.components ++ pieces.filterMap Component.ofPiece := by
  rw [components, anchor, FilePath.pieces, parts]

theorem components_ne_nil (full : p.text ≠ []) : p.components ≠ [] := by
  unfold components anchor pieces dissect
  obtain ⟨first, pieces, cut⟩ := List.exists_cons_of_ne_nil (Text.splitAt_ne_nil '/' p.text)
  rw [cut]
  split
  · simp [Anchor.components]
  · simp [Anchor.components]
  · rename_i noRoot noHere
    have notHere : first ≠ ['.'] := fun dot => noHere pieces (by rw [dot])
    have notEmpty : first ≠ [] := by
      rintro rfl
      cases pieces with
      | nil => exact full (eq_nil_of_splitAt cut)
      | cons next pieces => exact noRoot next pieces rfl
    have steps : FileTree.isIdle first = false := by simp [FileTree.isIdle, notEmpty, notHere]
    obtain ⟨c, named, -⟩ := Component.ofPiece_named steps
    simp [named]

theorem trimStart_dropNamed (pieces others : List Text) :
    trimStart (dropNamed (pieces.filterMap Component.ofPiece).length (pieces ++ others)) = trimStart others := by
  induction pieces with
  | nil => simp [dropNamed]
  | cons piece pieces ih =>
    cases named : Component.ofPiece piece with
    | none =>
      -- The piece is dropped on the way to the next name, or else with what is trimmed at the end.
      have idle := counts_of_none named
      rw [List.filterMap_cons_none named, ← ih]
      cases (pieces.filterMap Component.ofPiece).length with
      | zero => simp [dropNamed, trimStart, idle]
      | succ n => simp [dropNamed, idle]
    | some c =>
      have counted := counts_of_some named
      rw [List.filterMap_cons_some named, ← ih]
      simp [dropNamed, counted]

theorem trimStart_names {names : List Text} (valid : ∀ name ∈ names, IsName name) : trimStart names = names := by
  cases names with
  | nil => rfl
  | cons name names =>
    have counted := counts_name (valid name List.mem_cons_self)
    simp [trimStart, counted]

theorem trimEnd_names {names : List Text} (valid : ∀ name ∈ names, IsName name) : trimEnd names = names := by
  have backwards : trimStart names.reverse = names.reverse :=
    trimStart_names fun name member => valid name (List.mem_reverse.mp member)
  rw [trimStart] at backwards
  rw [trimEnd, backwards, List.reverse_reverse]

theorem filterMap_ofPiece_names {names : List Text} (valid : ∀ name ∈ names, IsName name) :
    names.filterMap Component.ofPiece = names.map .name := by
  rw [← List.filterMap_eq_map]
  exact List.filterMap_congr fun name member => ofPiece_name (valid name member)

theorem dissect_descend {names : List Text} (full : p.text ≠ []) (valid : ∀ name ∈ names, IsName name) :
    ∃ a pieces, dissect (p.descend names).text = (a, pieces ++ names) ∧
      (dissect p.text = (a, pieces) ∨ dissect p.text = (a, pieces ++ [[]])) := by
  induction names generalizing p with
  | nil => exact ⟨p.anchor, p.pieces, by rw [List.append_nil]; rfl, Or.inl rfl⟩
  | cons name names ih =>
    obtain ⟨isName, others⟩ := List.forall_mem_cons.mp valid
    obtain ⟨a, pieces, joined, own⟩ := dissect_join full isName
    have fullToo : (p.join ⟨name⟩).text ≠ [] := by
      intro empty
      rw [empty] at joined
      have last : [] = name := by simpa [dissect, Text.splitAt] using congrArg (·.2.getLast?) joined
      exact isName.full last.symm
    obtain ⟨b, front, whole, inFront⟩ := ih fullToo others
    rw [joined] at inFront
    rcases inFront with same | same
    · obtain ⟨rfl, rfl⟩ := Prod.mk.inj same
      exact ⟨_, _, by rw [List.append_assoc] at whole; exact whole, own⟩
    · have last : name = [] := by simpa using congrArg (·.2.getLast?) same
      exact absurd last isName.full

theorem components_descend {names : List Text} (full : p.text ≠ []) (valid : ∀ name ∈ names, IsName name) :
    (p.descend names).components = p.components ++ names.map .name := by
  obtain ⟨a, pieces, whole, own⟩ := dissect_descend full valid
  have components : p.components = a.components ++ pieces.filterMap Component.ofPiece := by
    rcases own with own | own <;> simp [components_eq own, Component.ofPiece]
  rw [components_eq whole, components, List.filterMap_append, List.append_assoc, filterMap_ofPiece_names valid]

theorem below?_descend {names : List Text} (full : p.text ≠ []) (valid : ∀ name ∈ names, IsName name) :
    (p.descend names).below? p = some ⟨Text.joinWith '/' names⟩ := by
  have longer := components_descend full valid
  obtain ⟨a, pieces, whole, own⟩ := dissect_descend full valid
  have some : p.components.isEmpty = false := by simpa using components_ne_nil full
  have named : p.components.length - a.components.length = (pieces.filterMap Component.ofPiece).length := by
    rcases own with own | own <;> simp [components_eq own, Component.ofPiece]
  have anchor : (p.descend names).anchor = a := by rw [FilePath.anchor, whole]
  have parts : (p.descend names).pieces = pieces ++ names := by rw [FilePath.pieces, whole]
  have starts : p.components.isPrefixOf (p.descend names).components = true := by simp [longer]
  simp only [below?, starts, some, anchor, parts, named, trimStart_dropNamed, trimStart_names valid,
    trimEnd_names valid]
  rfl

theorem below?_join (full : p.text ≠ []) (isName : IsName name) : (p.join ⟨name⟩).below? p = some ⟨name⟩ := by
  have below := below?_descend full (List.forall_mem_singleton.mpr isName)
  exact below

theorem below?_self (full : p.text ≠ []) : p.below? p = some ⟨[]⟩ := by
  have below := below?_descend full (List.forall_mem_nil IsName)
  exact below

end FilePath

namespace FileTree

def lone : FileTree :=
  ⟨[([['d']], .directory), ([['d'], ['a', '.', 'c']], .file .empty)], [], []⟩

end FileTree

namespace IgnorePatterns

variable {f : IgnorePatterns} {patterns : List Text} {root : FilePath} {name : Text}

theorem ignores_join (read : ofPatterns root patterns = .ok f) (full : root.text ≠ []) (isName : IsName name) :
    f.ignores (root.join ⟨name⟩) = f.globs.any (·.fits name) := by
  rw [ignores, subject, (ofPatterns_ok.mp read).1, FilePath.below?_join full isName]
  rfl

theorem ignores_root (read : ofPatterns root patterns = .ok f) (full : root.text ≠ []) :
    f.ignores root = f.catchesAll := by
  rw [← any_fits_nil read, ignores, subject, (ofPatterns_ok.mp read).1, FilePath.below?_self full]
  rfl

end IgnorePatterns

namespace Scope

variable {s : Scope} {t : FileTree} {root : FilePath} {loc : Location} {name : Text} {bytes : ByteArray}
  {selection : Selection} {ignored : IgnorePatterns} {patterns : List Text}

theorem inventory_of_file (file : t.isFile s.root = true) : s.inventory t = .ok (s.split [s.root]) := by
  obtain ⟨loc, bytes, there⟩ := FileTree.find_of_isFile file
  simp only [inventory, there]

theorem inventory_of_directory (dir : t.find s.root = .ok (loc, .directory)) :
    s.inventory t = .ok (s.split (t.filesUnder s.root)) := by
  simp only [inventory, dir]

theorem left_out_root_iff (file : t.isFile s.root = true) (selected : s.selection.selects s.root = true)
    (read : IgnorePatterns.ofPatterns s.root patterns = .ok s.ignored) :
    s.root ∈ (s.split [s.root]).leftOut ↔ s.ignored.catchesAll = true := by
  obtain ⟨loc, bytes, there⟩ := FileTree.find_of_isFile file
  have full := FileTree.text_ne_nil_of_find there
  rw [mem_leftOut_split, IgnorePatterns.ignores_root read full]
  simp [selected]

theorem left_out_below_iff (wf : t.WellFormed) (dir : t.find s.root = .ok (loc, .directory))
    (file : t.node? (loc ++ [name]) = some (.file bytes))
    (kept : IgnoreFile.leaveOut [IgnoreFile.load t s.root] (s.root.join ⟨name⟩) false = false)
    (selected : s.selection.selects (s.root.join ⟨name⟩) = true)
    (read : IgnorePatterns.ofPatterns s.root patterns = .ok s.ignored) :
    s.root.join ⟨name⟩ ∈ (s.split (t.filesUnder s.root)).leftOut ↔
      s.root.text ≠ FileTree.dash ∧ ∃ g ∈ s.ignored.globs, g.fits name = true := by
  have full := FileTree.text_ne_nil_of_find dir
  have isName := FileTree.isName_of_node? wf file
  have matched := IgnorePatterns.ignores_join read full isName
  rw [mem_leftOut_split, matched, List.any_eq_true]
  constructor
  · rintro ⟨listed, -, fits⟩
    refine ⟨fun dashed => ?_, fits⟩
    have nothing : t.filesUnder s.root = [] := by simp [FileTree.filesUnder, dir, dashed]
    rw [nothing] at listed
    cases listed
  · rintro ⟨named, fits⟩
    have found := FileTree.regular_mem_foundUnder dir named file kept
    exact ⟨(FileTree.mem_filesUnder wf).mpr (Or.inl found), selected, fits⟩

def ownName : IgnorePatterns :=
  let name : List Glob.Token := [.literal 'a', .literal '.', .literal 'c']
  ⟨⟨['d']⟩, [⟨name⟩, ⟨.anyDepth :: name⟩, ⟨name ++ [.literal '/', .anyDepth]⟩,
    ⟨.anyDepth :: name ++ [.literal '/', .anyDepth]⟩]⟩

theorem ofPatterns_ownName : IgnorePatterns.ofPatterns ⟨['d']⟩ [['a', '.', 'c']] = .ok ownName := by
  have expanded : IgnorePatterns.expand ['a', '.', 'c'] =
      [['a', '.', 'c'], ['*', '*', '/', 'a', '.', 'c'], ['a', '.', 'c', '/', '*', '*'],
        ['*', '*', '/', 'a', '.', 'c', '/', '*', '*']] := rfl
  simp [IgnorePatterns.ofPatterns, expanded, IgnorePatterns.readGlob, Glob.read, Glob.readFrom, Glob.pushDepth,
    Except.map, Except.mapError, bind, Except.bind, pure, Except.pure, ownName]

/-- A file that is the root itself is left out exactly if one of the globs is of wildcards only, and the same file
below its directory exactly if one of them matches its name. -/
theorem left_out_alone_iff (wf : t.WellFormed) (dir : t.find root = .ok (loc, .directory))
    (file : t.node? (loc ++ [name]) = some (.file bytes)) (opened : t.isFile (root.join ⟨name⟩) = true)
    (kept : IgnoreFile.leaveOut [IgnoreFile.load t root] (root.join ⟨name⟩) false = false)
    (selected : selection.selects (root.join ⟨name⟩) = true)
    (read : IgnorePatterns.ofPatterns root patterns = .ok ignored) (tagged : List Text) :
    ∃ ignoredAlone, IgnorePatterns.ofPatterns (root.join ⟨name⟩) patterns = .ok ignoredAlone ∧
      ∃ whole, inventory ⟨root, selection, ignored, tagged⟩ t = .ok whole ∧
        ∃ alone, inventory ⟨root.join ⟨name⟩, selection, ignoredAlone, tagged⟩ t = .ok alone ∧
          (root.join ⟨name⟩ ∈ alone.leftOut ↔ ignored.catchesAll = true) ∧
          (root.join ⟨name⟩ ∈ whole.leftOut ↔
            root.text ≠ FileTree.dash ∧ ∃ g ∈ ignored.globs, g.fits name = true) ∧
          (root.text ≠ FileTree.dash →
            ((root.join ⟨name⟩ ∈ alone.leftOut ↔ root.join ⟨name⟩ ∈ whole.leftOut) ↔
              ∀ g ∈ ignored.globs, g.fits name = true → ignored.catchesAll = true)) := by
  have readAlone := IgnorePatterns.ofPatterns_of_root read (root.join ⟨name⟩)
  have isName := FileTree.isName_of_node? wf file
  have ofAlone := left_out_root_iff
    (s := ⟨root.join ⟨name⟩, selection, ⟨root.join ⟨name⟩, ignored.globs⟩, tagged⟩) opened selected readAlone
  have ofWhole := left_out_below_iff (s := ⟨root, selection, ignored, tagged⟩) wf dir file kept selected read
  refine ⟨_, readAlone, _, inventory_of_directory dir, _, inventory_of_file opened, ofAlone, ofWhole, fun named => ?_⟩
  refine (iff_congr ofAlone ofWhole).trans ?_
  constructor
  · intro agree g listed fits
    exact agree.mpr ⟨named, g, listed, fits⟩
  · intro covered
    constructor
    · intro wild
      exact ⟨named, IgnorePatterns.fits_of_catchesAll wild isName.unslashed⟩
    · rintro ⟨-, g, listed, fits⟩
      exact covered g listed fits

theorem own_name_left_out_below_only :
    FileTree.lone.WellFormed ∧ FileTree.lone.find ⟨['d']⟩ = .ok ([['d']], .directory) ∧
      FileTree.lone.isFile ⟨['d', '/', 'a', '.', 'c']⟩ = true ∧
      ∃ ignored, IgnorePatterns.ofPatterns ⟨['d', '/', 'a', '.', 'c']⟩ [['a', '.', 'c']] = .ok ignored ∧
        ∃ whole, inventory ⟨⟨['d']⟩, ⟨[['c']]⟩, ownName, []⟩ .lone = .ok whole ∧
          ∃ alone, inventory ⟨⟨['d', '/', 'a', '.', 'c']⟩, ⟨[['c']]⟩, ignored, []⟩ .lone = .ok alone ∧
            ⟨['d', '/', 'a', '.', 'c']⟩ ∉ alone.leftOut ∧ ⟨['d', '/', 'a', '.', 'c']⟩ ∈ whole.leftOut := by
  have wf : FileTree.lone.WellFormed := ⟨by decide, by decide⟩
  have dir : FileTree.lone.find ⟨['d']⟩ = .ok ([['d']], .directory) := rfl
  have opened : FileTree.lone.isFile ⟨['d', '/', 'a', '.', 'c']⟩ = true := rfl
  have file : FileTree.lone.node? ([['d']] ++ [['a', '.', 'c']]) = some (.file .empty) := rfl
  have kept : IgnoreFile.leaveOut [IgnoreFile.load .lone ⟨['d']⟩] ⟨['d', '/', 'a', '.', 'c']⟩ false = false := by
    decide
  have selected : Selection.selects ⟨[['c']]⟩ ⟨['d', '/', 'a', '.', 'c']⟩ = true := by decide
  obtain ⟨ignored, read, whole, collected, alone, collectedAlone, ofAlone, ofWhole, -⟩ :=
    left_out_alone_iff wf dir file opened kept selected ofPatterns_ownName []
  refine ⟨wf, dir, opened, ignored, read, whole, collected, alone, collectedAlone, fun listed => ?_, ?_⟩
  · have wild : ownName.catchesAll = false := by decide
    rw [ofAlone.mp listed] at wild
    cases wild
  · exact ofWhole.mpr ⟨by decide, by decide⟩

end Scope

end LicenseHeaders
