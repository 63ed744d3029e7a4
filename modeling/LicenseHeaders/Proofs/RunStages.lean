import LicenseHeaders.CommandLine.Run
import LicenseHeaders.Proofs.Batch

namespace LicenseHeaders

namespace FileTree

variable {t written : FileTree} {p : FilePath} {s : Text}

theorem writeText_cases (wrote : t.writeText p s = .ok written) :
    written = t ∨ ∃ loc present, t.sink p = .ok (.file loc present) ∧ written = t.set loc (.file s.encode) := by
  rw [writeText, write] at wrote
  cases opened : t.sink p with
  | error e =>
    rw [opened] at wrote
    cases wrote
  | ok sink =>
    rw [opened] at wrote
    cases sink with
    | file loc present =>
      cases wrote
      exact Or.inr ⟨loc, present, rfl, rfl⟩
    | device d =>
      left
      cases d with
      | null =>
        cases wrote
        rfl
      | full =>
        have accepted : (if s.encode.isEmpty then Except.ok t else .error IoError.noSpace) = .ok written := wrote
        split at accepted
        · cases accepted
          rfl
        · cases accepted

end FileTree

namespace DiffOutput

variable {d : DiffOutput} {t started : FileTree} {loc : Location}

theorem start_cases (opened : d.start t = .ok started) :
    started = t ∨ ∃ q ∈ d.savedTo, ∃ loc present,
      t.sink q = .ok (.file loc present) ∧ started = t.set loc (.file .empty) := by
  unfold start at opened
  cases chosen : d.savedTo with
  | none =>
    simp only [chosen] at opened
    cases opened
    exact Or.inl rfl
  | some q =>
    simp only [chosen] at opened
    cases wrote : t.writeText q [] with
    | error e =>
      rw [wrote] at opened
      cases opened
    | ok written =>
      rw [wrote] at opened
      cases opened
      rcases FileTree.writeText_cases wrote with same | ⟨loc, present, sink, same⟩
      · exact Or.inl same
      · exact Or.inr ⟨q, rfl, loc, present, sink, same⟩

theorem node?_start (opened : d.start t = .ok started) (loc : Location) :
    started.node? loc = t.node? loc ∨ d.SavesTo t loc ∧ started.node? loc = some (.file .empty) := by
  rcases start_cases opened with rfl | ⟨q, chosen, l, present, sink, rfl⟩
  · exact Or.inl rfl
  · rw [FileTree.node?_set _ _ _ _ (FileTree.ne_nil_of_sink sink)]
    by_cases here : loc = l
    · subst here
      exact Or.inr ⟨⟨q, chosen, present, sink⟩, if_pos rfl⟩
    · exact Or.inl (if_neg here)

end DiffOutput

namespace Console

variable {c : Console}

theorem unlessQuiet_of_loud (loud : c.verbosity ≠ .quiet) (ls : List Text) : c.unlessQuiet ls = ls :=
  if_neg loud

theorem unlessQuiet_of_quiet (quiet : c.verbosity = .quiet) (ls : List Text) : c.unlessQuiet ls = [] :=
  if_pos quiet

end Console

namespace Options

/-- A run gets as far as its job, with these files found. -/
structure Reaches (o : Options) (around : Surroundings) (t : FileTree) (j : Job) (inv : Inventory) : Prop where
  valid : o.fault? = none
  ready : (o.prepare around.environment t).result = .ok (j, inv)

def readyTree (o : Options) (around : Surroundings) (t : FileTree) : FileTree :=
  (o.prepare around.environment t).tree

def outcome (o : Options) (around : Surroundings) (t : FileTree) (j : Job) (inv : Inventory) : Job.Outcome :=
  j.runOn (o.readyTree around t) inv

def console (o : Options) (around : Surroundings) : Console :=
  ⟨o.verbosity, o.colors.resolve (ColorSupport.detect around.environment around.outIsTerminal)⟩

def figures (around : Surroundings) (reports : List FileReport) : Summary :=
  Summary.ofReports reports around.elapsed (some around.timestamp)

def reportText (around : Surroundings) (reports : List FileReport) (f : ReportFormat) : Text :=
  f.report reports (figures around reports) around.localTime

def written (o : Options) (around : Surroundings) (outcome : Job.Outcome) : Written :=
  writeReports (o.console around) (reportText around outcome.reports) outcome.tree o.wantedReports

def account (o : Options) (around : Surroundings) (outcome : Job.Outcome) : List Text :=
  (o.console around).results (shownRoot o.directory outcome.tree) o.check outcome.reports
    (figures around outcome.reports)

def printed (o : Options) (around : Surroundings) (inv : Inventory) (outcome : Job.Outcome) : List Text :=
  (o.console around).start inv.candidates.length o.check ++ o.account around outcome ++ (o.written around outcome).out

variable {o : Options} {around : Surroundings} {t : FileTree} {j : Job} {inv : Inventory} {c : Console} {l : Text}

theorem mem_out_writeReports {text : ReportFormat → Text} {wanted : List (ReportFormat × FilePath)}
    (member : l ∈ (writeReports c text t wanted).out) :
    ∃ f p, l ∈ c.remark (s!"Generated {ReportFormat.name f} report at {(p : FilePath)}").toList := by
  induction wanted generalizing t with
  | nil => cases member
  | cons w wanted ih =>
    obtain ⟨f, p⟩ := w
    simp only [writeReports] at member
    split at member
    · rcases List.mem_append.mp member with own | later
      · exact ⟨f, p, own⟩
      · exact ih later
    · exact ih member

theorem run_of_reaches (reached : o.Reaches around t j inv) :
    o.run around t =
      o.finish around j inv (o.prepare around.environment t).notices (o.readyTree around t) := by
  simp only [run, reached.valid, reached.ready, readyTree]

theorem out_of_reaches (reached : o.Reaches around t j inv) :
    (o.run around t).out = Text.unlines (o.printed around inv (o.outcome around t j inv)) := by
  rw [run_of_reaches reached]
  rfl

theorem status_of_reaches (reached : o.Reaches around t j inv) :
    (o.run around t).status =
      if o.fails (figures around (o.outcome around t j inv).reports) then 1 else 0 := by
  rw [run_of_reaches reached]
  rfl

theorem tree_of_reaches (reached : o.Reaches around t j inv) :
    (o.run around t).tree = (o.written around (o.outcome around t j inv)).tree := by
  rw [run_of_reaches reached]
  rfl

theorem prepareFiles_tree (j : Job) (notices : List Notice) (t : FileTree) : (prepareFiles j notices t).tree = t := by
  unfold prepareFiles
  split <;> rfl

/-- Getting ready changes no file but the one for diffs, and that one only if the configuration and the header are
in order. -/
theorem prepare_tree (o : Options) (v : Variables) (t : FileTree) :
    (o.prepare v t).tree = t ∨ o.diffOutput.start t = .ok (o.prepare v t).tree := by
  unfold prepare
  dsimp only
  split
  · exact Or.inl rfl
  split
  · exact Or.inl rfl
  split
  · exact Or.inl rfl
  rename_i started opened
  right
  split
  · exact opened
  · rw [prepareFiles_tree]
    exact opened

theorem run_of_stops (stops : ∀ j inv, ¬ o.Reaches around t j inv) :
    (o.run around t).status = 1 ∧ (o.run around t).out = [] ∧
      ((o.run around t).tree = t ∨ o.diffOutput.start t = .ok (o.run around t).tree) := by
  unfold run
  cases fault : o.fault? with
  | some message => exact ⟨rfl, rfl, Or.inl rfl⟩
  | none =>
    cases ready : (o.prepare around.environment t).result with
    | error e =>
      simp only [ready]
      exact ⟨trivial, trivial, o.prepare_tree around.environment t⟩
    | ok found => exact absurd ⟨fault, ready⟩ (stops found.1 found.2)

end Options

def FileTree.uneven : FileTree :=
  -- Of the three files, one holds no text and one cannot be written; the device takes nothing.
  ⟨[([['t']], .directory), ([['t'], ['a', '.', 'c']], .file (Text.encode ['x'])),
    ([['t'], ['b', '.', 'c']], .file ⟨#[255]⟩), ([['t'], ['r', '.', 'c']], .file (Text.encode ['y'])),
    ([['h']], .file ⟨#[47, 47]⟩), ([['f']], .device .full)], [], [([['t'], ['r', '.', 'c']], .permissionDenied)]⟩

def Inventory.uneven : Inventory :=
  ⟨[⟨⟨['t', '/', 'a', '.', 'c']⟩, .native⟩, ⟨⟨['t', '/', 'b', '.', 'c']⟩, .native⟩,
    ⟨⟨['t', '/', 'r', '.', 'c']⟩, .native⟩], []⟩

def Job.uneven : Job where
  scope := ⟨⟨['t']⟩, .ofEntries [['c']], ⟨⟨['t']⟩, []⟩, Dialect.standardTagged.map String.toList⟩
  policy := ⟨⟨['/', '/'], by decide⟩, .standard, Dialect.standardOpenTag.toList, .independent⟩
  detector := Attribution.standard.found
  dryRun := false
  diffs := ⟨false, some ⟨['d']⟩⟩

namespace Options

def uneven : Options where
  directory := ⟨['t']⟩
  extensions := [['c']]
  headerFile := some ⟨['h']⟩
  noConfig := true
  saveDiff := some ⟨['d']⟩
  reportJson := some ⟨['j']⟩
  reportCsv := some ⟨['/', 'f']⟩

def still : Surroundings :=
  ⟨[], false, false, ⟨0⟩, 0, []⟩

theorem uneven_reaches (around : Surroundings) : uneven.Reaches around .uneven .uneven .uneven := by
  have ready : (uneven.prepare around.environment .uneven).result =
      .ok (.uneven, Job.uneven.scope.split (Inventory.uneven.candidates.map Candidate.path)) := rfl
  have selected : (Inventory.uneven.candidates.map Candidate.path).filter Job.uneven.scope.selection.selects =
      Inventory.uneven.candidates.map Candidate.path := by decide
  have split : Job.uneven.scope.split (Inventory.uneven.candidates.map Candidate.path) = .uneven := by
    rw [Scope.split, selected, List.mergeSort_of_pairwise (by decide)]
    rfl
  rw [split] at ready
  exact ⟨rfl, ready⟩

theorem uneven_actions (around : Surroundings) :
    ((uneven.outcome around .uneven .uneven .uneven).reports.map FileReport.action).Perm
      [.inserted, .failed, .failed] := by
  have turn : uneven.readyTree around .uneven = FileTree.uneven.set [['d']] (.file .empty) := rfl
  have handled : ((Job.uneven.handleAll (FileTree.uneven.set [['d']] (.file .empty))
      Inventory.uneven.candidates).1.map Job.Handled.report).map FileReport.action =
        [.inserted, .failed, .failed] := by decide +kernel
  have full : Inventory.uneven.candidates ≠ [] := by decide
  rw [outcome, turn, ← handled]
  exact (Job.reports_perm full).map FileReport.action

end Options

end LicenseHeaders
