import LicenseHeaders.CommandLine.Help
import LicenseHeaders.CommandLine.Settings
import LicenseHeaders.Console
import LicenseHeaders.Job
import LicenseHeaders.Report.Format

namespace LicenseHeaders

structure Surroundings where
  environment : Variables
  /-- Whether standard output and standard error are terminals. -/
  outIsTerminal : Bool
  errIsTerminal : Bool
  elapsed : Duration
  timestamp : Int
  localTime : Text

structure RunResult where
  status : Nat
  out : Text
  err : Text
  tree : FileTree

structure Preparation where
  notices : List Notice
  result : Except Failure (Job × Inventory)
  tree : FileTree

namespace Options

def configSearch (o : Options) (v : Variables) : ConfigSearch where
  disabled := o.noConfig
  explicit := o.config
  environment := v.lookup Config.environmentName
  root := o.directory

def diffOutput (o : Options) : DiffOutput :=
  ⟨o.showDiff, o.saveDiff⟩

def prepareFiles (j : Job) (notices : List Notice) (t : FileTree) : Preparation :=
  match j.scope.inventory t with
  | .error e => ⟨notices, .error (Scope.accessFailure j.scope.root e), t⟩
  | .ok inventory =>
    let skipping := inventory.skipped.map fun (c, _) =>
      Notice.note s!"Skipping: {c.path} (matches ignore pattern)"
    ⟨notices ++ skipping, .ok (j, inventory), t⟩

/-- Finds the settings, empties the file for diffs, and finds the files. -/
def prepare (o : Options) (v : Variables) (t : FileTree) : Preparation :=
  let search := o.configSearch v
  match search.load t with
  | .error e => ⟨search.notices t, .error e, t⟩
  | .ok config =>
    let config := config.getD {}
    let notices := search.notices t ++ Settings.headerNotices o config t
    match Settings.combine o config t with
    | .error e => ⟨notices, .error e, t⟩
    | .ok s =>
      match o.diffOutput.start t with
      | .error e => ⟨notices, .error e, t⟩
      | .ok t =>
        match Job.setUp o.directory o.extensions s.tagged s.ignore s.policy o.check o.diffOutput with
        | .error e => ⟨notices, .error e.failure, t⟩
        | .ok j => prepareFiles j notices t

/-- The directory from which files are shown: that of a root that is a file, else the root. -/
def shownRoot (root : FilePath) (t : FileTree) : FilePath :=
  if t.isFile root then root.parent?.getD root else root

def wantedReports (o : Options) : List (ReportFormat × FilePath) :=
  (o.reportJson.map (ReportFormat.json, ·)).toList ++ (o.reportCsv.map (ReportFormat.csv, ·)).toList

structure Written where
  out : List Text
  err : List Text
  tree : FileTree

def writeReports (c : Console) (text : ReportFormat → Text) (t : FileTree) :
    List (ReportFormat × FilePath) → Written
  | [] => ⟨[], [], t⟩
  | (f, p) :: rest =>
    match t.writeText p (text f) with
    | .ok t =>
      let w := writeReports c text t rest
      { w with out := c.remark s!"Generated {f.name} report at {p}".toList ++ w.out }
    | .error e =>
      let failure : Failure := [s!"Failed to write report to {p}", e.message]
      let w := writeReports c text t rest
      { w with err := s!"Error generating {f.name} report: {failure.inLine}".toList :: w.err }

def saidText (o : Options) (colored : Bool) (notices : List Notice) : Text :=
  notices.flatMap (Notice.text o.verbosity colored)

def fails (o : Options) (s : Summary) : Bool :=
  0 < s.failed || (o.check && 0 < s.changed)

def finish (o : Options) (around : Surroundings) (j : Job) (inventory : Inventory)
    (notices : List Notice) (t : FileTree) : RunResult :=
  let console : Console :=
    ⟨o.verbosity, o.colors.resolve (ColorSupport.detect around.environment around.outIsTerminal)⟩
  let errColored := o.colors.resolve (ColorSupport.detect around.environment around.errIsTerminal)
  let outcome := j.runOn t inventory
  let summary := Summary.ofReports outcome.reports around.elapsed (some around.timestamp)
  let text (f : ReportFormat) := f.report outcome.reports summary around.localTime
  let written := writeReports console text outcome.tree o.wantedReports
  { status := if o.fails summary then 1 else 0
    out := Text.unlines
      (console.start inventory.candidates.length o.check ++
        console.results (shownRoot o.directory outcome.tree) o.check outcome.reports summary ++ written.out)
    err := o.saidText errColored (notices ++ outcome.notices) ++ Text.unlines written.err
    tree := written.tree }

def run (o : Options) (around : Surroundings) (t : FileTree) : RunResult :=
  match o.fault? with
  | some message => ⟨1, [], s!"ERROR: {message}\n".toList, t⟩
  | none =>
    let ready := o.prepare around.environment t
    match ready.result with
    | .ok (j, inventory) => o.finish around j inventory ready.notices ready.tree
    | .error e =>
      let colored := o.colors.resolve (ColorSupport.detect around.environment around.errIsTerminal)
      let shown := Text.unlines (e.shown.map String.toList)
      ⟨1, [], o.saidText colored ready.notices ++ shown, ready.tree⟩

/-- The paths that a run may read or write, apart from what lies below the root. -/
def mentioned (o : Options) (v : Variables) (t : FileTree) : List FilePath :=
  let search := o.configSearch v
  let inConfig :=
    match search.load t with
    | .ok (some c) => c.headerFile
    | _ => none
  [some o.directory, o.config, search.environment.map FilePath.mk,
    some ((search.directory t).join ⟨Config.fileName⟩), o.headerFile, inConfig, o.saveDiff, o.reportJson,
    o.reportCsv].filterMap id

end Options

def runCommandLine (arguments : List Text) (around : Surroundings) (t : FileTree) : RunResult :=
  let textOf (ls : List String) : Text := Text.unlines (ls.map String.toList)
  match Options.read arguments with
  | .ok o => o.run around t
  | .error (.help detailed) => ⟨0, textOf (Help.lines detailed), [], t⟩
  | .error (.version detailed) => ⟨0, textOf [Help.versionLine detailed], [], t⟩
  | .error .misuse => ⟨2, [], textOf ["error: invalid arguments", "", Help.usage, "",
      "For more information, try '--help'."], t⟩

end LicenseHeaders
