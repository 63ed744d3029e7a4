import LicenseHeaders.Config
import LicenseHeaders.Console

namespace LicenseHeaders

def Config.fileName : Text := ".relicense.toml".toList

def Config.environmentName : String := "RELICENSE_CONFIG"

structure ConfigSearch where
  disabled : Bool
  explicit : Option FilePath
  environment : Option Text
  root : FilePath

inductive ConfigSource
  | disabled
  | explicit (p : FilePath)
  | explicitMissing (p : FilePath)
  | environment (p : FilePath)
  | besideFiles (p : FilePath)
  | absent
deriving DecidableEq, Repr

def ConfigSource.path? : ConfigSource → Option FilePath
  | .explicit p | .environment p | .besideFiles p => some p
  | .disabled | .explicitMissing _ | .absent => none

namespace ConfigSearch

def directory (s : ConfigSearch) (t : FileTree) : FilePath :=
  if t.isFile s.root then s.root.parent?.getD s.root else s.root

def beside (s : ConfigSearch) (t : FileTree) : ConfigSource :=
  let p := (s.directory t).join ⟨Config.fileName⟩
  if t.has p then .besideFiles p else .absent

def source (s : ConfigSearch) (t : FileTree) : ConfigSource :=
  if s.disabled then .disabled
  else
    match s.explicit, s.environment with
    | some p, _ => if t.has p then .explicit p else .explicitMissing p
    | none, some value => if t.has ⟨value⟩ then .environment ⟨value⟩ else s.beside t
    | none, none => s.beside t

/-- The configuration of a run, if there is one. A file that is named on the command line has to exist, and no file that
is chosen is passed over because it cannot be read. -/
def load (s : ConfigSearch) (t : FileTree) : Except Failure (Option Config) :=
  match s.source t with
  | .disabled | .absent => .ok none
  | .explicitMissing p => .error [s!"Config file not found: {p}"]
  | .explicit p | .environment p | .besideFiles p =>
    match Config.load t p with
    | .ok c => .ok (some c)
    | .error e => .error (s!"Failed to load config from {p}" :: e.failure)

/-- A variable that names no file is mentioned unless a file is named on the command line. -/
def missingNotices (s : ConfigSearch) (t : FileTree) : List Notice :=
  match s.explicit, s.environment with
  | none, some value =>
    if t.has ⟨value⟩ then []
    else [.note s!"{Config.environmentName} path does not exist: {String.ofList value}"]
  | _, _ => []

def notices (s : ConfigSearch) (t : FileTree) : List Notice :=
  let loading (p : FilePath) : Notice := .note s!"Loading config from: {p}"
  match s.source t with
  | .disabled => [.note "Config file discovery disabled (--no-config)"]
  | .explicitMissing _ => []
  | .explicit p => [.note s!"Using explicit config path: {p}", loading p]
  | .environment p => [.note s!"Using config from {Config.environmentName}: {p}", loading p]
  | .besideFiles p => s.missingNotices t ++ [.note s!"Using root config: {p}", loading p]
  | .absent => s.missingNotices t ++ [.note "No config file found"]

end ConfigSearch

end LicenseHeaders
