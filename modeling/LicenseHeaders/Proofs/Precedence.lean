import LicenseHeaders.Proofs.ConfigFile
import LicenseHeaders.Proofs.RunStages

namespace LicenseHeaders

inductive Prefers {α : Type} : (given configured : Option α) → (standard chosen : α) → Prop
  | given (a : α) (configured : Option α) (standard : α) : Prefers (some a) configured standard a
  | configured (a standard : α) : Prefers none (some a) standard a
  | standard (a : α) : Prefers none none a a

theorem prefers_iff {α : Type} {given configured : Option α} {standard chosen : α} :
    Prefers given configured standard chosen ↔ chosen = (given <|> configured).getD standard := by
  constructor
  · rintro ⟨⟩ <;> rfl
  · rintro rfl
    cases given with
    | some a => exact .given a configured standard
    | none =>
      cases configured with
      | some a => exact .configured a standard
      | none => exact .standard standard

namespace Settings

variable {o : Options} {c : Config} {t t' : FileTree} {s : Settings} {p : FilePath}

def givenTagged (o : Options) : Option (List Text) :=
  if o.taggedExt = [] then none else some o.taggedExt

/-- Each setting has its own source. Only patterns of files to ignore are put together. -/
structure Merged (o : Options) (c : Config) (t : FileTree) (s : Settings) : Prop where
  header : Prefers (o.headerFile.map (Header.load t)) (c.headerFile.map (Header.load t)) (.ok Header.apache)
    (.ok s.header)
  attribution : Prefers (o.attribution.map Attribution.mk) (c.attribution.map Attribution.mk) .standard s.attribution
  openTag : Prefers o.openTag c.openTag Dialect.standardOpenTag.toList s.openTag
  tagged : Prefers (givenTagged o) c.taggedExtensions (Dialect.standardTagged.map String.toList) s.tagged
  search : Prefers o.headerSearch c.headerSearch .independent s.search
  ignore : s.ignore = c.ignore ++ o.ignore

structure Govern (s : Settings) (o : Options) (j : Job) : Prop where
  header : j.policy.header = s.header
  attribution : j.policy.attribution = s.attribution
  detector : j.detector = s.attribution.found
  openTag : j.policy.openTag = s.openTag
  search : j.policy.search = s.search
  tagged : j.scope.tagged = s.tagged
  ignored : IgnorePatterns.ofPatterns o.directory s.ignore = .ok j.scope.ignored
  root : j.scope.root = o.directory
  selection : j.scope.selection = .ofEntries o.extensions
  dryRun : j.dryRun = o.check
  diffs : j.diffs.shown = o.showDiff ∧ j.diffs.savedTo = o.saveDiff

theorem map_orElse {α β : Type} (f : α → β) (a b : Option α) : (a <|> b).map f = (a.map f <|> b.map f) := by
  cases a <;> rfl

theorem header?_eq_iff {h : Header} : header? o c t = .ok h ↔
    Prefers (o.headerFile.map (Header.load t)) (c.headerFile.map (Header.load t)) (.ok Header.apache) (.ok h) := by
  rw [prefers_iff, ← map_orElse, header?, headerFile?]
  cases o.headerFile <|> c.headerFile with
  | none => simp [eq_comm]
  | some p => cases loaded : Header.load t p <;> simp [loaded, Except.mapError, eq_comm]

theorem combine_eq_iff : combine o c t = .ok s ↔ Merged o c t s := by
  have tagged : (if o.taggedExt.isEmpty then c.taggedExtensions.getD (Dialect.standardTagged.map String.toList)
      else o.taggedExt) = (givenTagged o <|> c.taggedExtensions).getD (Dialect.standardTagged.map String.toList) := by
    unfold givenTagged
    cases o.taggedExt <;> rfl
  constructor
  · intro combined
    cases read : header? o c t with
    | error f =>
      rw [combine, read] at combined
      cases combined
    | ok h =>
      rw [combine, read] at combined
      cases combined
      exact ⟨header?_eq_iff.mp read, prefers_iff.mpr (by rw [map_orElse]), prefers_iff.mpr rfl,
        prefers_iff.mpr tagged, prefers_iff.mpr rfl, rfl⟩
  · rintro ⟨header, attribution, openTag, chosen, search, ignore⟩
    rw [prefers_iff, ← map_orElse] at attribution
    rw [prefers_iff] at openTag chosen search
    obtain ⟨_, _, _, _, _, _⟩ := s
    dsimp only at attribution openTag chosen search ignore
    rw [combine, header?_eq_iff.mpr header, attribution, openTag, chosen, search, ignore, ← tagged]
    rfl

theorem combine_eq_of_headerFile (named : o.headerFile = some p) (text : t'.readText p = t.readText p)
    (h : Option FilePath) : combine o { c with headerFile := h } t' = combine o c t := by
  have loaded : Header.load t' p = Header.load t p := by rw [Header.load, Header.load, text]
  have same : header? o { c with headerFile := h } t' = header? o c t := by
    have first (q : Option FilePath) : (some p <|> q) = some p := rfl
    simp only [header?, headerFile?, named, first, loaded]
  rw [combine, combine, same]

end Settings

namespace Options

variable {o : Options} {around : Surroundings} {v : Variables} {t : FileTree} {c : Config} {found : Option Config}
  {j : Job} {inv : Inventory} {f : Failure}

def spelledOut (o : Options) (c : Config) : Options :=
  { o with
    noConfig := true
    config := none
    headerFile := o.headerFile <|> c.headerFile
    attribution := o.attribution <|> c.attribution
    openTag := o.openTag <|> c.openTag
    taggedExt := if o.taggedExt = [] then c.taggedExtensions.getD [] else o.taggedExt
    headerSearch := o.headerSearch <|> c.headerSearch
    ignore := c.ignore ++ o.ignore }

/-- A command line cannot say that no extension is tagged. -/
def Sayable (o : Options) (c : Config) : Prop :=
  o.taggedExt ≠ [] ∨ c.taggedExtensions ≠ some []

theorem header?_spelledOut (o : Options) (c : Config) (t : FileTree) :
    Settings.header? (o.spelledOut c) {} t = Settings.header? o c t ∧
      Settings.headerNotices (o.spelledOut c) {} t = Settings.headerNotices o c t := by
  have same : Settings.headerFile? (o.spelledOut c) {} = Settings.headerFile? o c := by
    simp [Settings.headerFile?, spelledOut]
  rw [Settings.header?, Settings.headerNotices, same]
  exact ⟨rfl, rfl⟩

theorem combine_spelledOut (sayable : o.Sayable c) (t : FileTree) :
    Settings.combine (o.spelledOut c) {} t = Settings.combine o c t := by
  have tagged (standard : List Text) :
      (if (o.spelledOut c).taggedExt.isEmpty then standard else (o.spelledOut c).taggedExt) =
        if o.taggedExt.isEmpty then c.taggedExtensions.getD standard else o.taggedExt := by
    rcases given : o.taggedExt with _ | ⟨ext, others⟩
    · rcases configured : c.taggedExtensions with _ | _ | ⟨ext, others⟩
      · simp [spelledOut, given, configured]
      · rcases sayable with some | some
        · exact absurd given some
        · exact absurd configured some
      · simp [spelledOut, given, configured]
    · simp [spelledOut, given]
  simp only [Settings.combine, header?_spelledOut, tagged, Option.getD_none]
  simp [spelledOut]

theorem fault?_spelledOut (sound : c.Sound) : (o.spelledOut c).fault? = o.fault? := by
  have attribution : (o.attribution <|> c.attribution).any Text.isBlank = o.attribution.any Text.isBlank := by
    cases o.attribution with
    | some s => rfl
    | none =>
      cases configured : c.attribution with
      | none => rfl
      | some s => exact sound.attribution s configured
  have openTag : (o.openTag <|> c.openTag).any List.isEmpty = o.openTag.any List.isEmpty := by
    cases o.openTag with
    | some s => rfl
    | none =>
      cases configured : c.openTag with
      | none => rfl
      | some s =>
        have full := sound.openTag s configured
        cases s with
        | nil => cases full
        | cons _ _ => rfl
  unfold fault?
  simp only [spelledOut, attribution, openTag]
  rfl

theorem saidText_notices (s : ConfigSearch) (t : FileTree) (brief : o.verbosity ≠ .verbose) (colored : Bool)
    (others : List Notice) : o.saidText colored (s.notices t ++ others) = o.saidText colored others := by
  have silent (message : String) : Notice.text o.verbosity colored (.note message) = [] := if_neg brief
  have missing : o.saidText colored (s.missingNotices t) = [] := by
    unfold ConfigSearch.missingNotices
    split
    · split
      · rfl
      · simp [saidText, silent]
    · rfl
  have none : o.saidText colored (s.notices t) = [] := by
    unfold ConfigSearch.notices
    unfold saidText at missing ⊢
    cases s.source t <;> simp [silent, missing]
  unfold saidText at none ⊢
  rw [List.flatMap_append, none, List.nil_append]

def settle (o : Options) (c : Config) (t : FileTree) : Preparation :=
  let notices := Settings.headerNotices o c t
  match Settings.combine o c t with
  | .error e => ⟨notices, .error e, t⟩
  | .ok s =>
    match o.diffOutput.start t with
    | .error e => ⟨notices, .error e, t⟩
    | .ok t =>
      match Job.setUp o.directory o.extensions s.tagged s.ignore s.policy o.check o.diffOutput with
      | .error e => ⟨notices, .error e.failure, t⟩
      | .ok j => prepareFiles j notices t

theorem prepareFiles_append (j : Job) (first others : List Notice) (t : FileTree) :
    prepareFiles j (first ++ others) t =
      { prepareFiles j others t with notices := first ++ (prepareFiles j others t).notices } := by
  unfold prepareFiles
  cases j.scope.inventory t with
  | error e => rfl
  | ok inventory => simp

theorem prepare_of_load (loaded : (o.configSearch v).load t = .ok found) :
    o.prepare v t = { o.settle (found.getD {}) t with
      notices := (o.configSearch v).notices t ++ (o.settle (found.getD {}) t).notices } := by
  rw [prepare, loaded, settle]
  dsimp only
  cases Settings.combine o (found.getD {}) t with
  | error e => rfl
  | ok s =>
    dsimp only
    cases o.diffOutput.start t with
    | error e => rfl
    | ok started =>
      dsimp only
      cases Job.setUp o.directory o.extensions s.tagged s.ignore s.policy o.check o.diffOutput with
      | error e => rfl
      | ok j => exact prepareFiles_append j _ _ started

theorem prepare_of_refused (refused : (o.configSearch v).load t = .error f) :
    o.prepare v t = ⟨(o.configSearch v).notices t, .error f, t⟩ := by
  unfold prepare
  dsimp only
  rw [refused]

theorem settle_spelledOut (sayable : o.Sayable c) (t : FileTree) : (o.spelledOut c).settle {} t = o.settle c t := by
  unfold settle
  rw [combine_spelledOut sayable, (header?_spelledOut o c t).2]
  rfl

/-- A run whose configuration is spelled out on the command line ends in the same way. Only those who want to know
more see that there was none. -/
structure Alike (o : Options) (r s : RunResult) : Prop where
  status : r.status = s.status
  out : r.out = s.out
  err : o.verbosity ≠ .verbose → r.err = s.err
  tree : r.tree = s.tree

theorem sound_of_load (loaded : (o.configSearch v).load t = .ok found) : (found.getD {}).Sound := by
  have standard : ({} : Config).Sound := ⟨by simp, by simp, by simp⟩
  cases ConfigSearch.load_eq_iff.mp loaded with
  | disabled _ => exact standard
  | absent _ _ _ => exact standard
  | loaded _ reading =>
    cases reading with
    | accepted _ _ sound _ => exact ⟨sound.attribution, sound.openTag, sound.extensions⟩

theorem run_spelledOut (loaded : (o.configSearch around.environment).load t = .ok found)
    (sayable : o.Sayable (found.getD {})) :
    o.Alike ((o.spelledOut (found.getD {})).run around t) (o.run around t) := by
  have fault := fault?_spelledOut (o := o) (sound_of_load loaded)
  have none : ((o.spelledOut (found.getD {})).configSearch around.environment).load t = .ok none :=
    (ConfigSearch.Yields.disabled rfl).load_eq
  have ready := prepare_of_load loaded
  have ready' := prepare_of_load none
  rw [Option.getD_none, settle_spelledOut sayable] at ready'
  unfold run
  rw [fault, ready, ready']
  cases o.fault? with
  | some message => exact ⟨rfl, rfl, fun _ => rfl, rfl⟩
  | none =>
    dsimp only
    have said (colored : Bool) (brief : o.verbosity ≠ .verbose) (others : List Notice) :
        o.saidText colored (((o.spelledOut (found.getD {})).configSearch around.environment).notices t ++ others) =
          o.saidText colored ((o.configSearch around.environment).notices t ++ others) := by
      rw [saidText_notices _ t brief, saidText_notices _ t brief]
    cases (o.settle (found.getD {}) t).result with
    | error e =>
      refine ⟨rfl, rfl, fun brief => ?_, rfl⟩
      exact congrArg (· ++ _) (said _ brief _)
    | ok ready =>
      refine ⟨rfl, rfl, fun brief => ?_, rfl⟩
      refine congrArg (· ++ _) ?_
      rw [List.append_assoc, List.append_assoc]
      exact said _ brief _

theorem setUp_ok {root : FilePath} {extensions tagged patterns : List Text} {policy : HeaderPolicy} {dryRun : Bool}
    {diffs : DiffOutput} {detector : Option Detector}
    (ready : Job.setUp root extensions tagged patterns policy dryRun diffs detector = .ok j) :
    ∃ ignored, IgnorePatterns.ofPatterns root patterns = .ok ignored ∧
      j = ⟨⟨root, .ofEntries extensions, ignored, tagged⟩, policy, detector.getD policy.attribution.found, dryRun,
        diffs⟩ := by
  unfold Job.setUp at ready
  cases read : IgnorePatterns.ofPatterns root patterns with
  | error e =>
    rw [read] at ready
    cases ready
  | ok ignored =>
    rw [read] at ready
    dsimp only at ready
    split at ready
    · cases ready
    · cases ready
      exact ⟨ignored, rfl, rfl⟩

theorem settings_of_settle (ready : (o.settle c t).result = .ok (j, inv)) :
    ∃ s, Settings.Merged o c t s ∧ s.Govern o j := by
  unfold settle at ready
  cases combined : Settings.combine o c t with
  | error e =>
    rw [combined] at ready
    cases ready
  | ok s =>
    refine ⟨s, Settings.combine_eq_iff.mp combined, ?_⟩
    simp only [combined] at ready
    split at ready
    · cases ready
    split at ready
    · cases ready
    rename_i job setUp
    unfold prepareFiles at ready
    split at ready
    · cases ready
    · cases ready
      obtain ⟨ignored, read, rfl⟩ := setUp_ok setUp
      exact ⟨rfl, rfl, rfl, rfl, rfl, rfl, read, rfl, rfl, rfl, rfl, rfl⟩

theorem settings_of_reaches (reached : o.Reaches around t j inv) : ∃ found s,
    (o.configSearch around.environment).Yields t (.ok found) ∧ Settings.Merged o (found.getD {}) t s ∧
      s.Govern o j := by
  have ready := reached.ready
  cases loaded : (o.configSearch around.environment).load t with
  | error f =>
    rw [prepare_of_refused loaded] at ready
    cases ready
  | ok found =>
    rw [prepare_of_load loaded] at ready
    obtain ⟨s, merged, govern⟩ := settings_of_settle ready
    exact ⟨found, s, ConfigSearch.load_eq_iff.mp loaded, merged, govern⟩

theorem prepare_congr {o' : Options} {v' : Variables}
    (load : (o'.configSearch v').load t = (o.configSearch v).load t)
    (notices : (o'.configSearch v').notices t = (o.configSearch v).notices t)
    (settle : ∀ c, o'.settle c t = o.settle c t) : o'.prepare v' t = o.prepare v t := by
  cases loaded : (o.configSearch v).load t with
  | error f => rw [prepare_of_refused loaded, prepare_of_refused (load.trans loaded), notices]
  | ok found => rw [prepare_of_load loaded, prepare_of_load (load.trans loaded), notices, settle]

theorem prepare_of_noConfig (unwanted : o.noConfig = true) (config : Option FilePath) (v v' : Variables)
    (t : FileTree) : { o with config := config }.prepare v' t = o.prepare v t := by
  apply prepare_congr
  · have none : (o.configSearch v).load t = .ok none := (ConfigSearch.Yields.disabled unwanted).load_eq
    rw [none]
    exact (ConfigSearch.Yields.disabled unwanted).load_eq
  · simp [ConfigSearch.notices, ConfigSearch.source, configSearch, unwanted]
  · exact fun _ => rfl

theorem prepare_of_config {p : FilePath} (named : o.config = some p) (v v' : Variables) (t : FileTree) :
    o.prepare v' t = o.prepare v t := by
  apply prepare_congr
  · exact ConfigSearch.load_eq_of_explicit rfl named named rfl rfl
  · simp only [ConfigSearch.notices, ConfigSearch.source, ConfigSearch.missingNotices, configSearch, named]
  · exact fun _ => rfl

theorem run_of_refused (valid : o.fault? = none) (refused : (o.configSearch around.environment).load t = .error f) :
    (o.run around t).status = 1 ∧ (o.run around t).out = [] ∧ (o.run around t).tree = t ∧
      Text.unlines (f.shown.map String.toList) <:+ (o.run around t).err := by
  rw [run, valid, prepare_of_refused refused]
  exact ⟨rfl, rfl, rfl, List.suffix_append _ _⟩

/-- Where the configuration of a run comes from, and what it is good for. -/
structure Configured (o : Options) (around : Surroundings) (t : FileTree) (search : ConfigSearch) : Prop where
  settles : ∃! r, search.Yields t r
  once : ∀ p q, search.Chooses t p → search.Chooses t q → p = q
  unwanted : o.noConfig = true → ∀ config v t', search.Yields t' (.ok none) ∧
    { o with config := config }.prepare v t' = o.prepare around.environment t'
  named : ∀ p, o.config = some p → (∀ v, o.prepare v t = o.prepare around.environment t) ∧
    ∀ (other : ConfigSearch) t' r, other.disabled = o.noConfig → other.explicit = some p → t'.has p = t.has p →
      t'.readText p = t.readText p → (other.Yields t' r ↔ search.Yields t r)
  refused : ∀ f, o.fault? = none → search.Yields t (.error f) →
    (o.run around t).status = 1 ∧ (o.run around t).out = [] ∧ (o.run around t).tree = t ∧
      Text.unlines (f.shown.map String.toList) <:+ (o.run around t).err
  merged : ∀ c s, Settings.combine o c t = .ok s ↔ Settings.Merged o c t s
  unread : ∀ p, o.headerFile = some p → ∀ (c : Config) h t', t'.readText p = t.readText p →
    Settings.combine o { c with headerFile := h } t' = Settings.combine o c t
  settled : ∀ j inv, o.Reaches around t j inv → ∃ found s,
    search.Yields t (.ok found) ∧ Settings.Merged o (found.getD {}) t s ∧ s.Govern o j
  spelledOut : ∀ found, search.Yields t (.ok found) → o.Sayable (found.getD {}) →
    o.Alike ((o.spelledOut (found.getD {})).run around t) (o.run around t)

theorem configuration_takes_effect (o : Options) (around : Surroundings) (t : FileTree) :
    o.Configured around t
      { disabled := o.noConfig
        explicit := o.config
        environment := around.environment.lookup Config.environmentName
        root := o.directory } where
  settles := ConfigSearch.existsUnique_yields _ t
  once _ _ := ConfigSearch.Chooses.unique
  unwanted unwanted config v t' := ⟨.disabled unwanted, prepare_of_noConfig unwanted config around.environment v t'⟩
  named _ named := ⟨fun v => prepare_of_config named around.environment v t,
    fun _ _ _ wanted explicit present text => ConfigSearch.yields_iff_of_explicit wanted named explicit present text⟩
  refused _ valid refused := run_of_refused valid refused.load_eq
  merged _ _ := Settings.combine_eq_iff
  unread _ named _ h _ text := Settings.combine_eq_of_headerFile named text h
  settled _ _ reached := settings_of_reaches reached
  spelledOut _ loaded sayable := run_spelledOut loaded.load_eq sayable

end Options

end LicenseHeaders
