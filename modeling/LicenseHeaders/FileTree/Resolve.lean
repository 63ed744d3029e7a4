import LicenseHeaders.FileTree
import LicenseHeaders.Text.Lines

namespace LicenseHeaders

/-- Where a path leads: to a node, or to a free place in a directory. `asDirectory` tells that the path goes
on behind the last name, with slashes only. -/
inductive Place
  | occupied (loc : Location) (node : Node) (asDirectory : Bool)
  | free (loc : Location) (asDirectory : Bool)

namespace FileTree

def longestName : Nat := 255

def longestPath : Nat := 4095

def linkLimit : Nat := 40

def piecesOf (p : FilePath) : List Text :=
  Text.splitAt '/' p.text

def startOf (p : FilePath) (loc : Location) : Location :=
  if p.text.head? = some '/' then [] else loc

def isIdle (piece : Text) : Bool :=
  piece.isEmpty || piece = ['.']

/-- Follows the pieces of a path from a directory. `follow` is asked to go on wherever a link is met. -/
def walkWith (t : FileTree) (follow : Location → FilePath → List Text → Except IoError Place) :
    Location → List Text → Except IoError Place
  | loc, [] => .ok (.occupied loc .directory false)
  | loc, piece :: rest =>
    if isIdle piece then walkWith t follow loc rest
    else if piece = ['.', '.'] then walkWith t follow loc.dropLast rest
    else if longestName < piece.bytes.length then .error .nameTooLong
    else
      let here := loc ++ [piece]
      match t.node? here with
      | none =>
        if rest.all List.isEmpty then .ok (.free here (!rest.isEmpty)) else .error .notFound
      | some .directory => walkWith t follow here rest
      | some (.link target) => follow loc target rest
      | some n =>
        if rest.all List.isEmpty then .ok (.occupied here n (!rest.isEmpty)) else .error .notDirectory

def walk (t : FileTree) : (links : Nat) → Location → List Text → Except IoError Place
  | 0 => walkWith t fun _ _ _ => .error .tooManyLinks
  | links + 1 => walkWith t fun loc target rest =>
      walk t links (startOf target loc) (piecesOf target ++ rest)

def resolve (t : FileTree) (p : FilePath) : Except IoError Place :=
  if p.text.any (· = '\x00') then .error .nulCharacter
  else if p.text = [] then .error .notFound
  else if longestPath < p.text.bytes.length then .error .nameTooLong
  else walk t linkLimit (startOf p t.current) (piecesOf p)

/-- What stands where a path leads. Only a directory can be asked for as one. -/
def find (t : FileTree) (p : FilePath) : Except IoError (Location × Node) :=
  match t.resolve p with
  | .error e => .error e
  | .ok (.free _ _) => .error .notFound
  | .ok (.occupied loc n asDirectory) => if asDirectory then .error .notDirectory else .ok (loc, n)

end FileTree

end LicenseHeaders
