import LicenseHeaders.CommandLine.Options
import LicenseHeaders.Config.Source
import LicenseHeaders.Placement

namespace LicenseHeaders

inductive HeaderError
  | emptyText
  | emptyFile (p : FilePath)
  | unreadable (p : FilePath) (cause : IoError)
deriving DecidableEq, Repr

def HeaderError.failure : HeaderError → Failure
  | .emptyText => ["Header text is empty"]
  | .emptyFile p => [s!"Header file '{p}' is empty"]
  | .unreadable p cause => [s!"Failed to read header file: {p}", cause.message]

namespace Header

def load (t : FileTree) (p : FilePath) : Except HeaderError Header :=
  match t.readText p with
  | .error e => .error (.unreadable p e)
  | .ok text =>
    match ofText? text with
    | some h => .ok h
    | none => .error (.emptyFile p)

def loadNotices (p : FilePath) (loaded : Except HeaderError Header) : List Notice :=
  .note s!"Loading header from: {p}" ::
    match loaded with
    | .ok h => [.note s!"Header content:\n{String.ofList h.text}"]
    | .error _ => []

end Header

structure Settings where
  header : Header
  attribution : Attribution
  openTag : Text
  tagged : List Text
  search : HeaderSearch
  ignore : List Text

namespace Settings

def headerFile? (o : Options) (c : Config) : Option FilePath :=
  o.headerFile <|> c.headerFile

def header? (o : Options) (c : Config) (t : FileTree) : Except Failure Header :=
  match headerFile? o c with
  | none => .ok Header.apache
  | some p => (Header.load t p).mapError fun e => s!"Failed to load header from {p}" :: e.failure

def headerNotices (o : Options) (c : Config) (t : FileTree) : List Notice :=
  match headerFile? o c with
  | none => []
  | some p => Header.loadNotices p (Header.load t p)

def combine (o : Options) (c : Config) (t : FileTree) : Except Failure Settings := do
  let header ← header? o c t
  return { header
           attribution := ((o.attribution <|> c.attribution).map Attribution.mk).getD .standard
           openTag := (o.openTag <|> c.openTag).getD Dialect.standardOpenTag.toList
           tagged :=
             if o.taggedExt.isEmpty then
               c.taggedExtensions.getD (Dialect.standardTagged.map String.toList)
             else o.taggedExt
           search := (o.headerSearch <|> c.headerSearch).getD .independent
           ignore := c.ignore ++ o.ignore }

def policy (s : Settings) : HeaderPolicy where
  header := s.header
  attribution := s.attribution
  openTag := s.openTag
  search := s.search

end Settings

end LicenseHeaders
