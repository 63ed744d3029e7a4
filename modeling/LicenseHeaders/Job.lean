import LicenseHeaders.Console
import LicenseHeaders.LineDiff.Rendered
import LicenseHeaders.Placement
import LicenseHeaders.Scope

namespace LicenseHeaders

structure DiffOutput where
  shown : Bool
  savedTo : Option FilePath

namespace DiffOutput

def enabled (d : DiffOutput) : Bool :=
  d.shown || d.savedTo.isSome

def start (d : DiffOutput) (t : FileTree) : Except Failure FileTree :=
  match d.savedTo with
  | none => .ok t
  | some p => (t.writeText p []).mapError fun e => [s!"Failed to create diff file: {p}", e.message]

def save (d : DiffOutput) (t : FileTree) (diffs : List Text) : Except Failure FileTree :=
  match d.savedTo with
  | none => .ok t
  | some p =>
    match t.sink p with
    | .error e => .error [s!"Error opening diff file: {p}", e.message]
    | .ok s =>
      (t.extend s (Text.encode diffs.flatten)).mapError fun e =>
        [s!"Error writing to diff file: {p}", e.message]

end DiffOutput

inductive FileError
  | read (p : FilePath) (cause : IoError)
  | write (p : FilePath) (cause : IoError)
deriving DecidableEq, Repr

def FileError.failure : FileError → Failure
  | .read p cause => [s!"Failed to read file: {p}", cause.message]
  | .write p cause => [s!"Failed to write file: {p}", cause.message]

structure Job where
  scope : Scope
  policy : HeaderPolicy
  detector : Detector
  dryRun : Bool
  diffs : DiffOutput

inductive SetupError
  | badPattern (e : BadPattern)
  | noExtensions
deriving DecidableEq, Repr

def SetupError.failure : SetupError → Failure
  | .badPattern e => [e.message, e.fault.message]
  | .noExtensions => ["At least one file extension must be selected"]

namespace Job

/-- A job for a root, the selected extensions, the tagged extensions and the ignore patterns. Licensed files are told
by the attribution phrase unless there is another detector. -/
def setUp (root : FilePath) (extensions tagged patterns : List Text) (policy : HeaderPolicy)
    (dryRun : Bool) (diffs : DiffOutput) (detector : Option Detector := none) : Except SetupError Job :=
  match IgnorePatterns.ofPatterns root patterns with
  | .error e => .error (.badPattern e)
  | .ok ignored =>
    let selection := Selection.ofEntries extensions
    if selection.isEmpty then .error .noExtensions
    else
      .ok ⟨⟨root, selection, ignored, tagged⟩, policy, detector.getD policy.attribution.found, dryRun, diffs⟩

def place (j : Job) (dialect : Dialect) (content : Text) : Placed :=
  j.policy.placeBy j.detector dialect content

structure Plan where
  action : Action
  content : Text

/-- A text with its header in place that equals the old one leaves the file unchanged, whatever was done. -/
def plan (j : Job) (dialect : Dialect) (content : Text) : Plan :=
  let placed := j.place dialect content
  if placed.content = content then ⟨.unchanged, content⟩
  else if placed.placement.isInsertion then ⟨.inserted, placed.content⟩
  else ⟨.replaced, placed.content⟩

structure Result where
  outcome : Except FileError (Action × Option Text)
  notices : List Notice
  tree : FileTree

/-- Gives one file its header. Its diff is shown before anything is written. -/
def handle (j : Job) (t : FileTree) (c : Candidate) : Result :=
  match t.readText c.path with
  | .error e => ⟨.error (.read c.path e), [], t⟩
  | .ok content =>
    let plan := j.plan c.dialect content
    if plan.action = .unchanged then ⟨.ok (.unchanged, none), [.note s!"Unchanged: {c.path}"], t⟩
    else
      let diff := if j.diffs.enabled then some (LineDiff.render c.path content plan.content) else none
      let shown := if j.diffs.shown then (diff.map Notice.diff).toList else []
      if j.dryRun then ⟨.ok (plan.action, diff), shown, t⟩
      else
        match t.writeText c.path plan.content with
        | .error e => ⟨.error (.write c.path e), shown, t⟩
        | .ok written =>
          ⟨.ok (plan.action, diff), shown ++ [.note s!"Header {plan.action.name}: {c.path}"], written⟩

structure Handled where
  report : FileReport
  diff : Option Text

def Handled.ofOutcome (c : Candidate) : Except FileError (Action × Option Text) → Handled
  | .ok (action, diff) => ⟨⟨c.path, c.dialect, action, none⟩, diff⟩
  | .error e => ⟨⟨c.path, c.dialect, .failed, some e.failure.inLine.toList⟩, none⟩

def failureNotices (c : Candidate) : Except FileError (Action × Option Text) → List Notice
  | .ok _ => []
  | .error e => [.alert s!"Error processing {c.path}: {e.failure.inLine}"]

def handleAll (j : Job) (t : FileTree) :
    List Candidate → List Handled × List Notice × FileTree
  | [] => ([], [], t)
  | c :: rest =>
    let r := j.handle t c
    let (others, notices, t) := j.handleAll r.tree rest
    (.ofOutcome c r.outcome :: others, r.notices ++ failureNotices c r.outcome ++ notices, t)

structure Outcome where
  reports : List FileReport
  notices : List Notice
  tree : FileTree

def skippedReport : Candidate × String → FileReport
  | (c, reason) => ⟨c.path, c.dialect, .skipped, some reason.toList⟩

/-- Does the job on the files found. The diffs are saved once, after all files. -/
def runOn (j : Job) (t : FileTree) (inventory : Inventory) : Outcome :=
  let skipped := inventory.skipped.map skippedReport
  if inventory.candidates.isEmpty then ⟨skipped, [], t⟩
  else
    let (handled, notices, t) := j.handleAll t inventory.candidates
    let inOrder := handled.mergeSort fun a b => a.report.path.le b.report.path
    let reports := FileReport.sorted (skipped ++ inOrder.map Handled.report)
    match j.diffs.save t (inOrder.filterMap Handled.diff) with
    | .ok t => ⟨reports, notices, t⟩
    | .error e => ⟨reports, notices ++ [.alert s!"Warning: Failed to save diffs: {e.inLine}"], t⟩

def run (j : Job) (t : FileTree) : Except Failure Outcome :=
  match j.scope.inventory t with
  | .error e => .error (Scope.accessFailure j.scope.root e)
  | .ok inventory => .ok (j.runOn t inventory)

end Job

end LicenseHeaders
