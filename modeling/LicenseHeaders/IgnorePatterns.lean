import LicenseHeaders.FilePath
import LicenseHeaders.Glob

namespace LicenseHeaders

structure BadPattern where
  pattern : Text
  fault : Glob.SyntaxFault
deriving DecidableEq, Repr

def BadPattern.message (e : BadPattern) : String :=
  s!"Invalid glob pattern: {String.ofList e.pattern}"

structure IgnorePatterns where
  root : FilePath
  globs : List Glob

namespace IgnorePatterns

/-- Backslashes count as slashes, and slashes at the end do not count. -/
def normal (pattern : Text) : Text :=
  Text.dropTrailing (· = '/') (pattern.map fun c => if c = '\\' then '/' else c)

def isPlain (pattern : Text) : Bool :=
  !pattern.any fun c => c = '*' || c = '?' || c = '['

def anyDepth : Text := ['*', '*', '/']

/-- The globs that a pattern stands for. A plain name stands for the file of that name and for everything
below a directory of that name; both at the root and below it. -/
def expand (pattern : Text) : List Text :=
  let p := normal pattern
  if isPlain p then [p, anyDepth ++ p, p ++ ['/', '*', '*'], anyDepth ++ p ++ ['/', '*', '*']]
  else if anyDepth.isPrefixOf p then [p]
  else [p, anyDepth ++ p]

def readGlob (pattern : Text) : Except BadPattern Glob :=
  (Glob.read pattern).mapError fun fault => ⟨pattern, fault⟩

def ofPatterns (root : FilePath) (patterns : List Text) : Except BadPattern IgnorePatterns :=
  ((patterns.flatMap expand).mapM readGlob).map (⟨root, ·⟩)

/-- What the globs are matched against: the path below the root, or the path itself if it lies elsewhere. -/
def subject (root p : FilePath) : Text :=
  ((p.below? root).getD p).text

def ignores (f : IgnorePatterns) (p : FilePath) : Bool :=
  f.globs.any (·.fits (subject f.root p))

def reason : String := "Matches ignore pattern"

end IgnorePatterns

end LicenseHeaders
