import LicenseHeaders.Failure
import LicenseHeaders.IgnoreFile
import LicenseHeaders.IgnorePatterns
import LicenseHeaders.Extension

namespace LicenseHeaders

structure Candidate where
  path : FilePath
  dialect : Dialect
deriving DecidableEq, Repr

structure Inventory where
  candidates : List Candidate
  skipped : List (Candidate × String)
deriving DecidableEq, Repr

inductive Found
  | regular (p : FilePath)
  /-- A link that leads to a regular file. -/
  | link (p : FilePath)
deriving DecidableEq, Repr

namespace Found

def regular? : Found → Option FilePath
  | .regular p => some p
  | .link _ => none

def link? : Found → Option FilePath
  | .regular _ => none
  | .link p => some p

end Found

namespace FileTree

/-- The files in a directory and below it. Ignored files are left out, ignored directories are not entered,
and links are not entered. `depth` bounds the depth of the walk; `files` are the ignore files above. -/
def walkBelow (t : FileTree) :
    (depth : Nat) → (files : List IgnoreFile) → FilePath → Location → List Found
  | 0, _, _, _ => []
  | depth + 1, files, dir, loc =>
    let files := IgnoreFile.load t dir :: files
    (t.children loc).flatMap fun (name, n) =>
      let p := dir.join ⟨name⟩
      match n with
      | .directory =>
        if IgnoreFile.leaveOut files p true then [] else walkBelow t depth files p (loc ++ [name])
      | .file _ => if IgnoreFile.leaveOut files p false then [] else [.regular p]
      | .link _ =>
        if IgnoreFile.leaveOut files p false || !t.isFile p then [] else [.link p]
      | .device _ => []

def dash : Text := ['-']

/-- The files below a root. A link is left out if it leads to one of the regular files found. -/
def filesUnder (t : FileTree) (root : FilePath) : List FilePath :=
  match t.find root with
  | .ok (loc, .directory) =>
    if root.text = dash then []
    else
      let found := t.walkBelow (t.nodes.length + 1) [] root loc
      let regular := found.filterMap Found.regular?
      let targets := regular.filterMap t.locate?
      regular ++ (found.filterMap Found.link?).filter fun p =>
        match t.locate? p with
        | some target => !targets.contains target
        | none => false
  | _ => []

end FileTree

structure Scope where
  root : FilePath
  selection : Selection
  ignored : IgnorePatterns
  tagged : List Text

namespace Scope

def candidate (s : Scope) (p : FilePath) : Candidate :=
  ⟨p, .ofName s.tagged p.fileName?⟩

/-- Splits the selected files by whether they are ignored, each part in the order of its paths. -/
def split (s : Scope) (files : List FilePath) : Inventory :=
  let selected := (files.filter s.selection.selects).mergeSort FilePath.le
  let (ignored, kept) := selected.partition s.ignored.ignores
  ⟨kept.map s.candidate, ignored.map fun p => (s.candidate p, IgnorePatterns.reason)⟩

/-- The files of a job. A root that is a regular file is the only one. -/
def inventory (s : Scope) (t : FileTree) : Except IoError Inventory :=
  match t.find s.root with
  | .error e => .error e
  | .ok (_, .file _) => .ok (s.split [s.root])
  | .ok _ => .ok (s.split (t.filesUnder s.root))

def accessFailure (root : FilePath) (e : IoError) : Failure :=
  [s!"Failed to access directory: {root}", e.message]

end Scope

end LicenseHeaders
