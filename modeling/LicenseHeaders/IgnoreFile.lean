import LicenseHeaders.FileTree.Access
import LicenseHeaders.IgnoreFile.PatternReader
import LicenseHeaders.Text.Search

namespace LicenseHeaders

namespace IgnoreFile

def name : Text := ".licenseignore".toList

structure Rule where
  parts : List Part
  takesIn : Bool
  directoriesOnly : Bool

inductive Verdict
  | leaveOut
  | takeIn
deriving DecidableEq, Repr

def anyDepth : Text := ['*', '*', '/']

/-- A pattern in front of which no directory is fixed fits at any depth, and one for everything below a
directory does not fit the directory itself. -/
def completePattern (fixed : Bool) (p : Text) : Text :=
  let p :=
    if fixed || p.any (· = '/') || anyDepth.isPrefixOf p || p = ['*', '*'] then p else anyDepth ++ p
  if ['/', '*', '*'].isSuffixOf p then p ++ ['/', '*'] else p

/-- A slash at the end, together with a backslash in front of it, asks for a directory. -/
def splitEnd (p : Text) : Text × Bool :=
  match Text.stripEnd? ['/'] p with
  | none => (p, false)
  | some p => ((Text.stripEnd? ['\\'] p).getD p, true)

def trimLine (line : Text) : Text :=
  if ['\\', ' '].isSuffixOf line then line else Text.trimEnd line

def Rule.ofLine? (line : Text) : Option Rule :=
  if line.head? = some '#' then none
  else
    match trimLine line with
    | [] => none
    | '\\' :: '!' :: p => rule false false ('!' :: p)
    | '\\' :: '#' :: p => rule false false ('#' :: p)
    | '!' :: '/' :: p => rule true true p
    | '!' :: p => rule true false p
    | '/' :: p => rule false true p
    | p => rule false false p
where
  rule (takesIn fixed : Bool) (p : Text) : Option Rule :=
    let (p, directoriesOnly) := splitEnd p
    (readPattern? (completePattern fixed p)).map (⟨·, takesIn, directoriesOnly⟩)

def Rule.fits (r : Rule) (subject : Text) (isDirectory : Bool) : Bool :=
  (!r.directoriesOnly || isDirectory) && IgnoreFile.fits r.parts subject.bytes

def Rule.verdict (r : Rule) : Verdict :=
  if r.takesIn then .takeIn else .leaveOut

/-- The lines of an ignore file, up to the first that is no text. A byte order mark in front does not
count. -/
def linesOf (bytes : ByteArray) : List Text :=
  match Text.decode? bytes with
  | some s => Text.lines (dropMark s)
  | none =>
    let pieces := (splitBytes bytes.toList).map fun piece => Text.decode? ⟨piece.toArray⟩
    Text.lines (dropMark (Text.unlines ((pieces.takeWhile Option.isSome).filterMap id)))
where
  dropMark (s : Text) : Text :=
    s.dropWhile (· = '\uFEFF')
  splitBytes : List UInt8 → List (List UInt8)
    | [] => [[]]
    | b :: rest =>
      if b = 0x0A then [] :: splitBytes rest
      else
        match splitBytes rest with
        | [] => [[b]]
        | piece :: others => (b :: piece) :: others

end IgnoreFile

structure IgnoreFile where
  base : FilePath
  rules : List IgnoreFile.Rule

namespace IgnoreFile

def dropDot (s : Text) : Text :=
  (Text.stripStart? ['.', '/'] s).getD s

/-- The ignore file of a directory. A file that is missing or cannot be read has no rules. -/
def load (t : FileTree) (base : FilePath) : IgnoreFile :=
  match t.read (base.join ⟨name⟩) with
  | .ok bytes => ⟨base, (linesOf bytes).filterMap Rule.ofLine?⟩
  | .error _ => ⟨base, []⟩

def subject (f : IgnoreFile) (p : FilePath) : Text :=
  let path := dropDot (dropDot p.text)
  let base := dropDot f.base.text
  if (FilePath.mk base).components = [.here] || !path.any (· = '/') then path
  else
    match Text.stripStart? base path with
    | some rest => (Text.stripStart? ['/'] rest).getD rest
    | none => path

def verdict? (f : IgnoreFile) (p : FilePath) (isDirectory : Bool) : Option Verdict :=
  (f.rules.reverse.find? fun r => r.fits (f.subject p) isDirectory).map Rule.verdict

/-- Whether files of rules, the nearest first, leave a path out. -/
def leaveOut (files : List IgnoreFile) (p : FilePath) (isDirectory : Bool) : Bool :=
  files.findSome? (·.verdict? p isDirectory) == some .leaveOut

end IgnoreFile

end LicenseHeaders
