import LicenseHeaders.Config.Source
import LicenseHeaders.Proofs.Descent
import Mathlib.Data.List.TakeWhile

namespace LicenseHeaders

namespace FilePath

variable {p q : FilePath}

theorem not_counts_of_trimEnd {pieces : List Text} (bare : trimEnd pieces = []) :
    ∀ piece ∈ pieces, counts piece = false := by
  simpa [trimEnd, List.dropWhile_eq_nil_iff] using bare

theorem stepsOf_of_orphan (orphan : p.parent? = none) : stepsOf (FileTree.piecesOf p) = [] := by
  have bare : trimEnd p.pieces = [] := by
    unfold parent? at orphan
    split at orphan
    · assumption
    · assumption
    · assumption
    · cases orphan
  have unnamed : p.pieces.filterMap Component.ofPiece = [] := by
    rw [List.filterMap_eq_nil_iff]
    intro piece member
    simpa [counts] using not_counts_of_trimEnd bare piece member
  rw [← texts_of_components, components, unnamed, List.append_nil]
  cases p.anchor <;> rfl

theorem join_of_isAbsolute (absolute : q.isAbsolute = true) : p.join q = q := by
  simp [join, absolute]

end FilePath

namespace FileTree

variable {t : FileTree} {p : FilePath}

theorem walkWith_idle {follow : Location → FilePath → List Text → Except IoError Place} {pieces : List Text}
    (idle : FilePath.stepsOf pieces = []) (loc : Location) :
    walkWith t follow loc pieces = .ok (.occupied loc .directory false) := by
  induction pieces with
  | nil => rfl
  | cons piece pieces ih =>
    simp only [FilePath.stepsOf, List.filter_cons] at idle
    split at idle
    · cases idle
    · rename_i idlePiece
      rw [walkWith, if_pos (by simpa using idlePiece)]
      exact ih idle

theorem exists_parent {loc : Location} {n : Node} (found : t.find p = .ok (loc, n)) (solid : n ≠ .directory) :
    ∃ dir, p.parent? = some dir := by
  cases parent : p.parent? with
  | some dir => exact ⟨dir, rfl⟩
  | none =>
    have walked : walk t linkLimit (startOf p t.current) (piecesOf p) =
        .ok (.occupied (startOf p t.current) .directory false) :=
      walkWith_idle (FilePath.stepsOf_of_orphan parent) _
    rw [walk_of_resolve (resolve_of_find found)] at walked
    cases walked
    exact absurd rfl solid

theorem exists_parent_of_isFile (file : t.isFile p = true) : ∃ dir, p.parent? = some dir := by
  unfold isFile at file
  split at file
  · rename_i found
    exact exists_parent found (by simp)
  · cases file

theorem exists_parent_of_readText {s : Text} (read : t.readText p = .ok s) : ∃ dir, p.parent? = some dir := by
  unfold readText FileTree.read at read
  cases found : t.find p with
  | error e =>
    rw [found] at read
    cases read
  | ok place =>
    obtain ⟨loc, n⟩ := place
    apply exists_parent found
    rintro rfl
    rw [found] at read
    cases read

end FileTree

namespace Config

structure Sound (c : Config) : Prop where
  attribution : ∀ s ∈ c.attribution, s.isBlank = false
  openTag : ∀ s ∈ c.openTag, s.isBlank = false
  extensions : ∀ extensions ∈ c.taggedExtensions, ∀ ext ∈ extensions, ext ≠ [] ∧ ext.head? ≠ some '.'

/-- A relative path to a header starts at the directory, an absolute one is taken as it is. -/
def seenFrom (c : Config) (dir : FilePath) : Config :=
  { c with headerFile := c.headerFile.map fun q => if q.isAbsolute then q else dir.join q }

inductive Reading (t : FileTree) (p : FilePath) : Except ConfigError Config → Prop
  | unreadable {cause : IoError} (read : t.readText p = .error cause) : Reading t p (.error (.unreadable p cause))
  | malformed {s : Text} (read : t.readText p = .ok s) (garbled : ofText? s = none) :
      Reading t p (.error (.malformed p))
  | invalid {s : Text} {c : Config} {e : ConfigError} (read : t.readText p = .ok s) (said : ofText? s = some c)
      (fault : c.fault? = some e) : Reading t p (.error e)
  | accepted {s : Text} {c : Config} {dir : FilePath} (read : t.readText p = .ok s) (said : ofText? s = some c)
      (sound : c.Sound) (parent : p.parent? = some dir) : Reading t p (.ok (c.seenFrom dir))

variable {c : Config} {t : FileTree} {p : FilePath} {r : Except ConfigError Config}

theorem extensionFault?_eq_none_iff {ext : Text} :
    extensionFault? ext = none ↔ ext ≠ [] ∧ ext.head? ≠ some '.' := by
  unfold extensionFault?
  by_cases empty : ext = []
  · simp [empty]
  · by_cases dot : ext.head? = some '.' <;> simp [empty, dot]

theorem fault?_eq_none_iff : c.fault? = none ↔ c.Sound := by
  have blank (key : String) (value : Option Text) :
      (if value.any Text.isBlank then some (ConfigError.invalid key "value cannot be empty") else none) = none ↔
        ∀ s ∈ value, s.isBlank = false := by
    cases value <;> simp
  have extensions : ((c.taggedExtensions.getD []).findSome? extensionFault?).map
      (ConfigError.invalid "tagged-extensions") = none ↔
        ∀ extensions ∈ c.taggedExtensions, ∀ ext ∈ extensions, ext ≠ [] ∧ ext.head? ≠ some '.' := by
    cases c.taggedExtensions <;> simp [extensionFault?_eq_none_iff]
  have first (a b : Option ConfigError) : (a <|> b) = none ↔ a = none ∧ b = none := by simp
  rw [fault?, first, first, blank, blank, extensions]
  exact ⟨fun ⟨attribution, openTag, extensions⟩ => ⟨attribution, openTag, extensions⟩,
    fun ⟨attribution, openTag, extensions⟩ => ⟨attribution, openTag, extensions⟩⟩

theorem seenFrom_eq (c : Config) (dir : FilePath) :
    c.seenFrom dir = { c with headerFile := c.headerFile.map dir.join } := by
  have join (q : FilePath) : (if q.isAbsolute then q else dir.join q) = dir.join q := by
    split
    · rename_i absolute
      exact (FilePath.join_of_isAbsolute absolute).symm
    · rfl
  simp only [seenFrom, join]

theorem Reading.load_eq (reading : Reading t p r) : load t p = r := by
  unfold load
  cases reading with
  | unreadable read => rw [read]
  | malformed read garbled => simp only [read, garbled]
  | invalid read said fault => simp only [read, said, fault]
  | accepted read said sound parent =>
    simp only [read, said, fault?_eq_none_iff.mpr sound, parent, Option.getD_some, seenFrom_eq]

theorem reading_load (t : FileTree) (p : FilePath) : Reading t p (load t p) := by
  unfold load
  cases read : t.readText p with
  | error cause => exact .unreadable read
  | ok s =>
    dsimp only
    cases said : ofText? s with
    | none => exact .malformed read said
    | some c =>
      dsimp only
      cases fault : c.fault? with
      | some e => exact .invalid read said fault
      | none =>
        obtain ⟨dir, parent⟩ := FileTree.exists_parent_of_readText read
        have accepted := Reading.accepted read said (fault?_eq_none_iff.mp fault) parent
        rw [seenFrom_eq] at accepted
        simpa only [parent, Option.getD_some] using accepted

theorem load_eq_iff : load t p = r ↔ Reading t p r := by
  constructor
  · rintro rfl
    exact reading_load t p
  · exact Reading.load_eq

end Config

namespace ConfigSearch

/-- No file is named, neither on the command line nor by a variable that leads to one. -/
structure Unnamed (s : ConfigSearch) (t : FileTree) : Prop where
  wanted : s.disabled = false
  explicit : s.explicit = none
  unset : ∀ value ∈ s.environment, t.has ⟨value⟩ = false

/-- The one file that can be the configuration. -/
inductive Chooses (s : ConfigSearch) (t : FileTree) : FilePath → Prop
  | named {p : FilePath} (wanted : s.disabled = false) (explicit : s.explicit = some p) (present : t.has p = true) :
      Chooses s t p
  | environment {value : Text} (wanted : s.disabled = false) (explicit : s.explicit = none)
      (set : s.environment = some value) (present : t.has ⟨value⟩ = true) : Chooses s t ⟨value⟩
  | inRoot (unnamed : s.Unnamed t) (directory : t.isFile s.root = false)
      (present : t.has (s.root.join ⟨Config.fileName⟩) = true) : Chooses s t (s.root.join ⟨Config.fileName⟩)
  | besideRoot {dir : FilePath} (unnamed : s.Unnamed t) (file : t.isFile s.root = true)
      (parent : s.root.parent? = some dir) (present : t.has (dir.join ⟨Config.fileName⟩) = true) :
      Chooses s t (dir.join ⟨Config.fileName⟩)

inductive Yields (s : ConfigSearch) (t : FileTree) : Except Failure (Option Config) → Prop
  | disabled (unwanted : s.disabled = true) : Yields s t (.ok none)
  | missing {p : FilePath} (wanted : s.disabled = false) (explicit : s.explicit = some p)
      (absent : t.has p = false) : Yields s t (.error [s!"Config file not found: {p}"])
  | absent (wanted : s.disabled = false) (explicit : s.explicit = none) (nowhere : ∀ p, ¬ s.Chooses t p) :
      Yields s t (.ok none)
  | loaded {p : FilePath} {c : Config} (chosen : s.Chooses t p) (reading : Config.Reading t p (.ok c)) :
      Yields s t (.ok (some c))
  | refused {p : FilePath} {e : ConfigError} (chosen : s.Chooses t p) (reading : Config.Reading t p (.error e)) :
      Yields s t (.error (s!"Failed to load config from {p}" :: e.failure))

variable {s : ConfigSearch} {t : FileTree} {p : FilePath} {r : Except Failure (Option Config)}

theorem source_of_unnamed (unnamed : s.Unnamed t) : s.source t = s.beside t := by
  rw [source, if_neg (by simp [unnamed.wanted]), unnamed.explicit]
  cases set : s.environment with
  | none => rfl
  | some value => simp [unnamed.unset value set]

theorem source_of_chooses (chosen : s.Chooses t p) : (s.source t).path? = some p := by
  cases chosen with
  | named wanted explicit present => simp [source, wanted, explicit, present, ConfigSource.path?]
  | environment wanted explicit set present => simp [source, wanted, explicit, set, present, ConfigSource.path?]
  | inRoot unnamed directory present =>
    simp [source_of_unnamed unnamed, beside, ConfigSearch.directory, directory, present, ConfigSource.path?]
  | besideRoot unnamed file parent present =>
    simp [source_of_unnamed unnamed, beside, ConfigSearch.directory, file, parent, present, ConfigSource.path?]

theorem Chooses.unique {q : FilePath} (first : s.Chooses t p) (second : s.Chooses t q) : p = q := by
  have same := source_of_chooses first
  rw [source_of_chooses second] at same
  exact (Option.some.inj same).symm

theorem load_of_path? (chosen : (s.source t).path? = some p) :
    s.load t = match Config.load t p with
      | .ok c => .ok (some c)
      | .error e => .error (s!"Failed to load config from {p}" :: e.failure) := by
  unfold load
  cases source : s.source t with
  | explicit q | environment q | besideFiles q =>
    rw [source] at chosen
    cases chosen
    rfl
  | disabled | explicitMissing _ | absent =>
    rw [source] at chosen
    cases chosen

theorem source_absent (unnamed : s.Unnamed t) (nowhere : ∀ p, ¬ s.Chooses t p) : s.source t = .absent := by
  rw [source_of_unnamed unnamed, beside, ConfigSearch.directory]
  cases file : t.isFile s.root with
  | false =>
    have missing : ¬ t.has (s.root.join ⟨Config.fileName⟩) = true :=
      fun present => nowhere _ (.inRoot unnamed file present)
    simp [missing]
  | true =>
    obtain ⟨dir, parent⟩ := FileTree.exists_parent_of_isFile file
    have missing : ¬ t.has (dir.join ⟨Config.fileName⟩) = true :=
      fun present => nowhere _ (.besideRoot unnamed file parent present)
    simp [parent, missing]

theorem unnamed_of_nowhere (wanted : s.disabled = false) (explicit : s.explicit = none)
    (nowhere : ∀ p, ¬ s.Chooses t p) : s.Unnamed t := by
  refine ⟨wanted, explicit, fun value set => ?_⟩
  rw [← Bool.not_eq_true]
  exact fun present => nowhere _ (.environment wanted explicit set present)

theorem Yields.load_eq (yields : s.Yields t r) : s.load t = r := by
  cases yields with
  | disabled unwanted => simp [load, source, unwanted]
  | missing wanted explicit absent => simp [load, source, wanted, explicit, absent]
  | absent wanted explicit nowhere => rw [load, source_absent (unnamed_of_nowhere wanted explicit nowhere) nowhere]
  | loaded chosen reading => rw [load_of_path? (source_of_chooses chosen), reading.load_eq]
  | refused chosen reading => rw [load_of_path? (source_of_chooses chosen), reading.load_eq]

theorem exists_yields (s : ConfigSearch) (t : FileTree) : ∃ r, s.Yields t r := by
  cases wanted : s.disabled with
  | true => exact ⟨_, .disabled wanted⟩
  | false =>
    by_cases somewhere : ∃ p, s.Chooses t p
    · obtain ⟨p, chosen⟩ := somewhere
      have reading := Config.reading_load t p
      cases loaded : Config.load t p with
      | ok c => exact ⟨_, .loaded chosen (loaded ▸ reading)⟩
      | error e => exact ⟨_, .refused chosen (loaded ▸ reading)⟩
    · have nowhere : ∀ p, ¬ s.Chooses t p := fun p chosen => somewhere ⟨p, chosen⟩
      cases explicit : s.explicit with
      | none => exact ⟨_, .absent wanted explicit nowhere⟩
      | some p =>
        refine ⟨_, .missing wanted explicit ?_⟩
        rw [← Bool.not_eq_true]
        exact fun present => nowhere p (.named wanted explicit present)

theorem load_eq_iff : s.load t = r ↔ s.Yields t r := by
  constructor
  · rintro rfl
    obtain ⟨r, yields⟩ := exists_yields s t
    rw [yields.load_eq]
    exact yields
  · exact Yields.load_eq

theorem existsUnique_yields (s : ConfigSearch) (t : FileTree) : ∃! r, s.Yields t r := by
  obtain ⟨r, yields⟩ := s.exists_yields t
  refine ⟨r, yields, ?_⟩
  intro other also
  rw [← also.load_eq, yields.load_eq]

def sample : FileTree :=
  ⟨[([['t']], .directory), ([['t'], ['b', '.', 'c']], .file .empty),
    ([['t'], Config.fileName], .file (Text.encode "header-file = 'h'\n".toList))], [], []⟩

example : (ConfigSearch.mk false none (some ['g']) ⟨['t', '/', 'b', '.', 'c']⟩).Yields sample
    (.ok (some { headerFile := some ⟨['t', '/', 'h']⟩ })) := by
  have unnamed : (ConfigSearch.mk false none (some ['g']) ⟨['t', '/', 'b', '.', 'c']⟩).Unnamed sample := by
    refine ⟨rfl, rfl, ?_⟩
    rintro _ ⟨⟩
    rfl
  have said : Config.ofText? "header-file = 'h'\n".toList = some { headerFile := some ⟨['h']⟩ } := by decide +kernel
  have sound : ({ headerFile := some ⟨['h']⟩ } : Config).Sound := ⟨by simp, by simp, by simp⟩
  have reading : Config.Reading sample ((⟨['t']⟩ : FilePath).join ⟨Config.fileName⟩)
      (.ok (Config.seenFrom { headerFile := some ⟨['h']⟩ } ⟨['t']⟩)) := .accepted rfl said sound rfl
  exact .loaded (.besideRoot unnamed rfl rfl rfl) reading

variable {s' : ConfigSearch} {t' : FileTree}

theorem load_eq_of_chooses (chosen : s.Chooses t p) (chosen' : s'.Chooses t' p)
    (text : t'.readText p = t.readText p) : s'.load t' = s.load t := by
  rw [load_of_path? (source_of_chooses chosen), load_of_path? (source_of_chooses chosen'), Config.load, Config.load,
    text]

theorem load_eq_of_explicit (wanted : s'.disabled = s.disabled) (named : s.explicit = some p)
    (named' : s'.explicit = some p) (present : t'.has p = t.has p) (text : t'.readText p = t.readText p) :
    s'.load t' = s.load t := by
  cases unwanted : s.disabled with
  | true => rw [(Yields.disabled unwanted).load_eq, (Yields.disabled (wanted.trans unwanted)).load_eq]
  | false =>
    have wanted := wanted.trans unwanted
    cases has : t.has p with
    | true => exact load_eq_of_chooses (.named unwanted named has) (.named wanted named' (present.trans has)) text
    | false =>
      rw [(Yields.missing unwanted named has).load_eq, (Yields.missing wanted named' (present.trans has)).load_eq]

theorem yields_iff_of_explicit (wanted : s'.disabled = s.disabled) (named : s.explicit = some p)
    (named' : s'.explicit = some p) (present : t'.has p = t.has p) (text : t'.readText p = t.readText p) :
    s'.Yields t' r ↔ s.Yields t r := by
  rw [← load_eq_iff, ← load_eq_iff, load_eq_of_explicit wanted named named' present text]

end ConfigSearch

end LicenseHeaders
