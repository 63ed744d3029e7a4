import LicenseHeaders.CommandLine.Run
import LicenseHeaders.FileTree.Build
import Std.Time.Format
import Std.Time.Zoned

namespace LicenseHeaders.Main

def native (p : FilePath) :=
  (IO.FS.DirEntry.mk "." p.shown).path

def ofLocation (loc : Location) : FilePath :=
  ⟨'/' :: Text.joinWith '/' loc⟩

def refusal? (p : FilePath) : IO (Option IoError) := do
  match ← (IO.FS.Handle.mk p.shown .readWrite).toBaseIO with
  | .ok _ => return none
  | .error (.permissionDenied _ code _) => return some (if code = 30 then .readOnly else .permissionDenied)
  | .error _ => return some .inputOutput

mutual

/-- Adds what stands at a path, if its place in the tree is still free. Where a link leads is added first. -/
partial def loadNode (t : FileTree) (p : FilePath) : IO FileTree := do
  match t.resolve p with
  | .ok (.free _ _) =>
    match ← (native p).symlinkMetadata.toBaseIO with
    | .error _ => return t
    | .ok info =>
      match info.type with
      | .dir => return t.place p .directory
      | .file =>
        let t := t.place p (.file (← IO.FS.readBinFile p.shown))
        return ((← refusal? p).map (t.refuse p)).getD t
      | .symlink =>
        let target : FilePath := ⟨(← IO.FS.realPath p.shown).toString.toList⟩
        let t ← if target.isAbsolute then loadPath t target else pure t
        return t.place p (.link target)
      | .other => return t.place p (.device .null)
  | _ => return t

partial def loadPath (t : FileTree) (p : FilePath) : IO FileTree := do
  let pieces := FileTree.piecesOf p
  (List.range pieces.length).foldlM
    (fun t i => loadNode t ⟨Text.joinWith '/' (pieces.take (i + 1))⟩) t

end

partial def loadBelow (t : FileTree) (p : FilePath) : IO FileTree := do
  let mut t := t
  for entry in ← (native p).readDir do
    let child := p.join ⟨entry.fileName.toList⟩
    t ← loadNode t child
    match ← entry.path.symlinkMetadata.toBaseIO with
    | .ok info => if info.type == .dir then t ← loadBelow t child
    | .error _ => pure ()
  return t

def currentTree : IO FileTree := do
  let here := Text.splitAt '/' (← IO.currentDir).toString.toList
  return .empty (here.filter (!·.isEmpty))

/-- The files that a run may need. The configuration is read first, since it may name a header. -/
def loadFor (o : Options) (v : Variables) : IO FileTree := do
  let mut t ← currentTree
  for _ in [0, 1] do
    for p in o.mentioned v t do
      t ← loadPath t p
  match t.find o.directory with
  | .ok (_, .directory) => loadBelow t o.directory
  | _ => return t

def names : List String :=
  [Config.environmentName, "FORCE_COLOR", "CLICOLOR_FORCE", "NO_COLOR", "TERM", "COLORTERM", "TERM_PROGRAM",
    "CLICOLOR", "CI", "IGNORE_IS_TERMINAL"]

def environment : IO Variables := do
  let values ← names.mapM fun name => return (← IO.getEnv name).map fun s => (name, s.toList)
  return values.filterMap id

def store (before after : FileTree) : IO Unit := do
  for (loc, node) in after.nodes do
    match node with
    | .file bytes =>
      unless before.node? loc = some node do
        IO.FS.writeBinFile (ofLocation loc).shown bytes
    | _ => pure ()

def surroundings (v : Variables) (elapsed : Duration) : IO Surroundings := do
  let now ← Std.Time.PlainDateTime.now
  return { environment := v
           outIsTerminal := ← (← IO.getStdout).isTty
           errIsTerminal := ← (← IO.getStderr).isTty
           elapsed
           timestamp := (← Std.Time.Timestamp.now).toSecondsSinceUnixEpoch.val
           localTime := (now.format "uuuu-MM-dd HH:mm:ss").toList }

/-- Runs once to see how long it takes, and once more to tell it. -/
def run (arguments : List String) : IO UInt32 := do
  let arguments := arguments.map String.toList
  let v ← environment
  let tree ←
    match Options.read arguments with
    | .ok o => loadFor o v
    | .error _ => currentTree
  let began ← IO.monoNanosNow
  let trial := runCommandLine arguments (← surroundings v ⟨0⟩) tree
  let ended ← if trial.status ≤ 2 then IO.monoNanosNow else pure began
  let result := runCommandLine arguments (← surroundings v ⟨ended - began⟩) tree
  (← IO.getStdout).putStr (String.ofList result.out)
  (← IO.getStderr).putStr (String.ofList result.err)
  store tree result.tree
  return result.status.toUInt32

end LicenseHeaders.Main

def main (arguments : List String) : IO UInt32 :=
  LicenseHeaders.Main.run arguments
