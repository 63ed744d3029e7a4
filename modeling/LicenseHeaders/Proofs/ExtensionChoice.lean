import LicenseHeaders.Proofs.Partition
import LicenseHeaders.Proofs.Precedence

namespace LicenseHeaders

namespace Extension

variable {ext name : Text}

theorem bare_ne_nil_iff : bare ext ≠ [] ↔ ∃ c ∈ ext, c ≠ '.' := by
  simp [bare]

theorem undotted_bare (ext : Text) : (bare ext).head? ≠ some '.' := by
  have stopped := List.head?_dropWhile_not (decide <| · = '.') ext
  intro dot
  rw [bare] at dot
  rw [dot] at stopped
  simp at stopped

theorem exists_dots (ext : Text) : ∃ n, ext = List.replicate n '.' ++ bare ext := by
  have dots : ext.takeWhile (· = '.') = List.replicate (ext.takeWhile (· = '.')).length '.' :=
    List.eq_replicate_iff.mpr ⟨rfl, fun c member => by simpa using List.mem_takeWhile_imp member⟩
  refine ⟨(ext.takeWhile (· = '.')).length, ?_⟩
  rw [← dots]
  exact List.takeWhile_append_dropWhile.symm

theorem bare_of_dots {e : Text} (undotted : e.head? ≠ some '.') (n : Nat) : bare (List.replicate n '.' ++ e) = e := by
  induction n with
  | zero =>
    cases e with
    | nil => rfl
    | cons c e =>
      have other : c ≠ '.' := by simpa using undotted
      simp [bare, other]
  | succ n ih => simpa [bare, List.replicate_succ] using ih

theorem last_part_suffix (first last : Text) : '.' :: bare last <:+ '.' :: bare (first ++ '.' :: last) := by
  obtain ⟨n, dots⟩ := exists_dots last
  have shifted : '.' :: last = List.replicate n '.' ++ '.' :: bare last := calc
    '.' :: last = List.replicate (n + 1) '.' ++ bare last := congrArg ('.' :: ·) dots
    _ = _ := by rw [List.replicate_succ', List.append_assoc, List.singleton_append]
  rw [bare, bare, List.dropWhile_append]
  split
  · simp
  · refine List.suffix_cons_iff.mpr (Or.inr ?_)
    rw [shifted, ← List.append_assoc]
    exact List.suffix_append _ _

end Extension

namespace Selection

/-- The same entries, whatever their order and number, and whatever dots stand in front of them. -/
def Respelled (entries others : List Text) : Prop :=
  ∀ e : Text, e.head? ≠ some '.' →
    ((∃ n, List.replicate n '.' ++ e ∈ entries) ↔ ∃ n, List.replicate n '.' ++ e ∈ others)

variable {entries others : List Text} {p : FilePath} {name : Text}

theorem isEmpty_ofEntries_iff : (ofEntries entries).isEmpty = true ↔ ∀ e ∈ entries, Extension.bare e = [] := by
  simp [isEmpty, ofEntries, List.filter_eq_nil_iff]

theorem exists_bare_iff {Q : Text → Prop} : (∃ e ∈ entries, Q (Extension.bare e)) ↔
    ∃ e, e.head? ≠ some '.' ∧ Q e ∧ ∃ n, List.replicate n '.' ++ e ∈ entries := by
  constructor
  · intro some
    obtain ⟨e, listed, holds⟩ := some
    obtain ⟨n, dots⟩ := Extension.exists_dots e
    exact ⟨Extension.bare e, Extension.undotted_bare e, holds, n, dots ▸ listed⟩
  · intro some
    obtain ⟨e, undotted, holds, n, listed⟩ := some
    exact ⟨_, listed, by rw [Extension.bare_of_dots undotted n]; exact holds⟩

theorem Respelled.hasExtension_iff (respelled : Respelled entries others) :
    p.HasExtension others ↔ p.HasExtension entries := by
  have same (name : Text) : (∃ ext ∈ others, Extension.bare ext ≠ [] ∧ '.' :: Extension.bare ext <:+ name) ↔
      ∃ ext ∈ entries, Extension.bare ext ≠ [] ∧ '.' :: Extension.bare ext <:+ name := by
    rw [exists_bare_iff (Q := fun e => e ≠ [] ∧ '.' :: e <:+ name),
      exists_bare_iff (Q := fun e => e ≠ [] ∧ '.' :: e <:+ name)]
    exact exists_congr fun e => and_congr_right fun undotted => and_congr_right fun _ => (respelled e undotted).symm
  simp only [FilePath.HasExtension, same]

theorem Respelled.selects_eq (respelled : Respelled entries others) (p : FilePath) :
    (ofEntries others).selects p = (ofEntries entries).selects p := by
  rw [Bool.eq_iff_iff, FilePath.selects_iff, FilePath.selects_iff]
  exact respelled.hasExtension_iff

theorem hasExtension_of_named (named : p.components.getLast? = some (.name name)) :
    p.HasExtension entries ↔ ∃ e ∈ entries, Extension.bare e ≠ [] ∧ '.' :: Extension.bare e <:+ name := by
  constructor
  · intro has
    obtain ⟨other, last, found⟩ := has
    rw [named] at last
    cases last
    exact found
  · exact fun found => ⟨name, named, found⟩

theorem selects_last_part {first last : Text} (solid : ∃ c ∈ last, c ≠ '.')
    (selected : (ofEntries [first ++ '.' :: last]).selects p = true) : (ofEntries [last]).selects p = true := by
  rw [FilePath.selects_iff] at selected ⊢
  obtain ⟨name, named, e, listed, -, ending⟩ := selected
  obtain rfl := List.mem_singleton.mp listed
  exact ⟨name, named, last, List.mem_singleton_self last, Extension.bare_ne_nil_iff.mpr solid,
    (Extension.last_part_suffix first last).trans ending⟩

structure Means (entries : List Text) (p : FilePath) (name : Text) : Prop where
  selects_iff : (ofEntries entries).selects p = true ↔
    ∃ e ∈ entries, (∃ c ∈ e, c ≠ '.') ∧ '.' :: e.dropWhile (· = '.') <:+ name
  fits_iff : (ofEntries entries).selects p = true ↔ ∃ e ∈ entries, Extension.fits name e = true
  refused_iff : (ofEntries entries).refusal? p = some .notSelected ↔ (ofEntries entries).selects p = false
  tagged_iff : Dialect.ofName entries p.fileName? = .tagged ↔ (ofEntries entries).selects p = true
  respelled : ∀ others, Respelled entries others → (ofEntries others).selects p = (ofEntries entries).selects p
  lastPart : ∀ first last : Text, (∃ c ∈ last, c ≠ '.') →
    (ofEntries [first ++ '.' :: last]).selects p = true → (ofEntries [last]).selects p = true

theorem means (named : p.components.getLast? = some (.name name)) : Means entries p name := by
  have fileName := FilePath.fileName?_eq_some_iff.mpr named
  refine ⟨?_, ?_, ?_, ?_, fun others respelled => respelled.selects_eq p, fun _ _ => selects_last_part⟩
  · rw [FilePath.selects_iff, hasExtension_of_named named]
    simp only [Extension.bare_ne_nil_iff]
    rfl
  · rw [FilePath.selects_iff, hasExtension_of_named named, ← Extension.any_fits_iff, List.any_eq_true]
  · rw [selects, refusal?, fileName]
    dsimp only
    split <;> simp
  · rw [FilePath.tagged_iff, FilePath.selects_iff]

end Selection

namespace Job

theorem setUp_noExtensions_iff {root : FilePath} {extensions tagged patterns : List Text} {policy : HeaderPolicy}
    {dryRun : Bool} {diffs : DiffOutput} {detector : Option Detector} :
    setUp root extensions tagged patterns policy dryRun diffs detector = .error .noExtensions ↔
      (∃ ignored, IgnorePatterns.ofPatterns root patterns = .ok ignored) ∧
        (Selection.ofEntries extensions).isEmpty = true := by
  unfold setUp
  cases IgnorePatterns.ofPatterns root patterns with
  | error e => simp
  | ok ignored => cases empty : (Selection.ofEntries extensions).isEmpty <;> simp [empty]

end Job

/-- A failure that tells what was to be done and why it could not be, in several messages. -/
def Failure.Layered (f : Failure) : Prop :=
  2 ≤ f.length

theorem SetupError.not_layered_noExtensions : ¬ Failure.Layered SetupError.noExtensions.failure := by
  simp [Failure.Layered, SetupError.failure]

theorem ConfigSearch.layered_of_load {search : ConfigSearch} {t : FileTree} {f : Failure}
    (refused : search.load t = .error f) : f.Layered ∨ ∃ p : FilePath, f = [s!"Config file not found: {p}"] := by
  cases load_eq_iff.mp refused with
  | @missing p => exact Or.inr ⟨p, rfl⟩
  | @refused _ e =>
    left
    cases e <;> simp [Failure.Layered, ConfigError.failure]

theorem Settings.layered_of_combine {o : Options} {c : Config} {t : FileTree} {f : Failure}
    (refused : combine o c t = .error f) : f.Layered := by
  unfold combine at refused
  cases header : header? o c t with
  | ok h =>
    rw [header] at refused
    cases refused
  | error e =>
    rw [header] at refused
    cases refused
    unfold header? at header
    split at header
    · cases header
    · rename_i p _
      cases loaded : Header.load t p with
      | ok h =>
        rw [loaded] at header
        cases header
      | error e =>
        rw [loaded] at header
        cases header
        cases e <;> simp [Failure.Layered, HeaderError.failure]

theorem DiffOutput.layered_of_start {d : DiffOutput} {t : FileTree} {f : Failure} (refused : d.start t = .error f) :
    f.Layered := by
  unfold start at refused
  split at refused
  · cases refused
  · rename_i p _
    cases written : t.writeText p [] with
    | ok t' =>
      rw [written] at refused
      cases refused
    | error e =>
      rw [written] at refused
      cases refused
      simp [Failure.Layered]

namespace Options

variable {o : Options} {t : FileTree}

theorem layered_of_prepareFiles {j : Job} {notices : List Notice} {f : Failure}
    (refused : (prepareFiles j notices t).result = .error f) : f.Layered := by
  unfold prepareFiles at refused
  split at refused
  · cases refused
    simp [Failure.Layered, Scope.accessFailure]
  · cases refused

theorem layered_of_settle {c : Config} {f : Failure} (full : (Selection.ofEntries o.extensions).isEmpty = false)
    (refused : (o.settle c t).result = .error f) : f.Layered := by
  unfold settle at refused
  cases combined : Settings.combine o c t with
  | error e =>
    rw [combined] at refused
    cases refused
    exact Settings.layered_of_combine combined
  | ok s =>
    simp only [combined] at refused
    split at refused
    · rename_i e opened
      cases refused
      exact DiffOutput.layered_of_start opened
    split at refused
    · rename_i e refusedJob
      cases refused
      cases e with
      | badPattern e => simp [Failure.Layered, SetupError.failure]
      | noExtensions =>
        have empty := (Job.setUp_noExtensions_iff.mp refusedJob).2
        rw [full] at empty
        cases empty
    · exact layered_of_prepareFiles refused

theorem prepare_ne_noExtensions (full : (Selection.ofEntries o.extensions).isEmpty = false) (v : Variables)
    (t : FileTree) : (o.prepare v t).result ≠ .error SetupError.noExtensions.failure := by
  intro failed
  cases loaded : (o.configSearch v).load t with
  | error f =>
    rw [prepare_of_refused loaded] at failed
    cases failed
    rcases ConfigSearch.layered_of_load loaded with layered | ⟨p, same⟩
    · exact SetupError.not_layered_noExtensions layered
    -- The one message of its own that a missing file leaves begins with another letter.
    · have letters := congrArg (fun f => (f.headD "").toList.head?) same
      have first : (toString "Config file not found: ").toList.head? = some 'C' := by decide
      simp [SetupError.failure, first] at letters
  | ok found =>
    rw [prepare_of_load loaded] at failed
    exact SetupError.not_layered_noExtensions (layered_of_settle full failed)

def noExtensionFault : String := "At least one non-empty extension is required"

structure OthersSound (o : Options) : Prop where
  attribution : ∀ s ∈ o.attribution, s.isBlank = false
  openTag : ∀ s ∈ o.openTag, s ≠ []

structure AsksForFiles (o : Options) : Prop where
  refused_iff : o.fault? = some noExtensionFault ↔
    o.OthersSound ∧ (Selection.ofEntries o.extensions).isEmpty = true
  valid_iff : o.fault? = none ↔ o.OthersSound ∧ (Selection.ofEntries o.extensions).isEmpty = false
  setUp_iff : ∀ root tagged patterns policy dryRun diffs detector,
    Job.setUp root o.extensions tagged patterns policy dryRun diffs detector = .error .noExtensions ↔
      (∃ ignored, IgnorePatterns.ofPatterns root patterns = .ok ignored) ∧
        (Selection.ofEntries o.extensions).isEmpty = true
  unfailing : o.fault? = none → ∀ v t, (o.prepare v t).result ≠ .error SetupError.noExtensions.failure

theorem othersSound_iff :
    o.OthersSound ↔ o.attribution.any Text.isBlank = false ∧ o.openTag.any List.isEmpty = false := by
  constructor
  · intro sound
    refine ⟨?_, ?_⟩
    · cases given : o.attribution with
      | none => rfl
      | some s => exact sound.attribution s given
    · cases given : o.openTag with
      | none => rfl
      | some s => simpa using sound.openTag s given
  · intro sound
    obtain ⟨attribution, openTag⟩ := sound
    refine ⟨fun s given => ?_, fun s given => ?_⟩
    · rw [Option.mem_def] at given
      simpa [given] using attribution
    · rw [Option.mem_def] at given
      simpa [given] using openTag

theorem all_bare_eq : (o.extensions.all fun e => (Extension.bare e).isEmpty) =
    (Selection.ofEntries o.extensions).isEmpty := by
  rw [Bool.eq_iff_iff, Selection.isEmpty_ofEntries_iff]
  simp

theorem fault?_of_sound (sound : o.OthersSound) :
    o.fault? = if (Selection.ofEntries o.extensions).isEmpty then some noExtensionFault else none := by
  obtain ⟨attribution, openTag⟩ := othersSound_iff.mp sound
  rw [fault?, attribution, openTag, all_bare_eq]
  rfl

theorem fault?_of_unsound (unsound : ¬ o.OthersSound) : o.fault? ≠ none ∧ o.fault? ≠ some noExtensionFault := by
  rw [othersSound_iff, not_and_or, Bool.not_eq_false, Bool.not_eq_false] at unsound
  unfold fault?
  split
  · exact ⟨by simp, by decide⟩
  · rename_i named
    rw [if_pos (unsound.resolve_left named)]
    exact ⟨by simp, by decide⟩

theorem asksForFiles (o : Options) : o.AsksForFiles := by
  have valid : o.fault? = none ↔ o.OthersSound ∧ (Selection.ofEntries o.extensions).isEmpty = false := by
    by_cases sound : o.OthersSound
    · rw [fault?_of_sound sound]
      cases empty : (Selection.ofEntries o.extensions).isEmpty <;> simp [sound]
    · simp [sound, (fault?_of_unsound sound).1]
  refine ⟨?_, valid, fun _ _ _ _ _ _ _ => Job.setUp_noExtensions_iff, fun accepted v t => ?_⟩
  · by_cases sound : o.OthersSound
    · rw [fault?_of_sound sound]
      cases empty : (Selection.ofEntries o.extensions).isEmpty <;> simp [sound]
    · simp [sound, (fault?_of_unsound sound).2]
  · exact prepare_ne_noExtensions (valid.mp accepted).2 v t

/-- Selecting a file, taking it for tagged and refusing a command line all read the entries in the same way. -/
theorem extensions_have_one_meaning (entries : List Text) {p : FilePath} {name : Text}
    (named : p.components.getLast? = some (.name name)) :
    Selection.Means entries p name ∧ ∀ o : Options, o.extensions = entries → o.AsksForFiles :=
  ⟨Selection.means named, fun o _ => o.asksForFiles⟩

theorem template_selected_by_two_parts :
    (Selection.ofEntries ["..".toList, ".b.php".toList]).selects ⟨"d/a.b.php".toList⟩ = true ∧
      (Selection.ofEntries ["php".toList]).selects ⟨"d/a.b.php".toList⟩ = true ∧
      ∀ v t, (Options.prepare { directory := ⟨['d']⟩, extensions := ["..".toList, ".b.php".toList] } v t).result ≠
        .error SetupError.noExtensions.failure := by
  have named : (FilePath.components ⟨"d/a.b.php".toList⟩).getLast? = some (.name "a.b.php".toList) := by decide
  obtain ⟨meaning, asks⟩ := extensions_have_one_meaning ["..".toList, ".b.php".toList] named
  have selected := meaning.fits_iff.mpr ⟨".b.php".toList, by decide, by decide⟩
  refine ⟨selected, ?_, ?_⟩
  · exact meaning.lastPart ['b'] "php".toList ⟨'p', by decide, by decide⟩ (by decide)
  · exact (asks _ rfl).unfailing (by decide)

end Options

end LicenseHeaders
