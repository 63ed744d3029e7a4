import LicenseHeaders.FileTree.Access

namespace LicenseHeaders.FileTree

def empty (current : Location) : FileTree :=
  let dev := "dev".toList
  let above := (List.range current.length).map fun i => (current.take (i + 1), Node.directory)
  { nodes := [([dev], .directory), ([dev, "null".toList], .device .null),
      ([dev, "full".toList], .device .full)] ++ above
    current }

def place (t : FileTree) (p : FilePath) (n : Node) : FileTree :=
  match t.resolve p with
  | .ok (.free loc _) => t.set loc n
  | _ => t

/-- What a path leads to, or would lead to, cannot be written. -/
def refuse (t : FileTree) (p : FilePath) (e : IoError) : FileTree :=
  match t.resolve p with
  | .ok (.occupied loc _ _) | .ok (.free loc _) => { t with refusals := (loc, e) :: t.refusals }
  | .error _ => t

def makeDirectories (t : FileTree) (p : FilePath) : FileTree :=
  let pieces := piecesOf p
  (List.range pieces.length).foldl
    (fun t i => t.place ⟨Text.joinWith '/' (pieces.take (i + 1))⟩ .directory) t

def makeParents (t : FileTree) (p : FilePath) : FileTree :=
  (p.parent?.map t.makeDirectories).getD t

/-- Removes what stands at a path itself; a link at its end is not followed. -/
def unlink (t : FileTree) (p : FilePath) : Except IoError FileTree :=
  match p.fileName? with
  | none => .error .isDirectory
  | some name =>
    let parent := (p.parent?.map fun q => if q.text.isEmpty then ⟨['.']⟩ else q).getD ⟨['.']⟩
    match t.find parent with
    | .ok (loc, .directory) =>
      if (t.node? (loc ++ [name])).isSome then .ok (t.remove (loc ++ [name])) else .error .notFound
    | .ok _ => .error .notDirectory
    | .error e => .error e

def filesBelow (t : FileTree) (loc : Location) : List (Location × ByteArray) :=
  t.nodes.filterMap fun (l, n) =>
    match n with
    | .file bytes => if loc.isPrefixOf l then some (l.drop loc.length, bytes) else none
    | _ => none

end LicenseHeaders.FileTree
