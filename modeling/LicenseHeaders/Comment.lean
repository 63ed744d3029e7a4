import LicenseHeaders.Text.CaseFolding

namespace LicenseHeaders

namespace Comment

/-- A line opens a comment if it begins with a block opener or a line comment mark. -/
def opens (line : Text) : Bool :=
  ['/', '*'].isPrefixOf line || ['/', '/'].isPrefixOf line

/-- A line closes a comment if it holds a block closer anywhere. -/
def closes (line : Text) : Bool :=
  line.contains ['*', '/']

end Comment

/-- How the end of a header comment is looked for: from the first line of the file, whatever its start, or
from its start on. -/
inductive HeaderSearch
  | independent
  | paired
deriving DecidableEq, Repr

/-- The first and the last line of a header comment, counted from zero. Under an independent search the
last may come before the first. -/
structure HeaderBlock where
  first : Option Nat
  last : Option Nat
deriving DecidableEq, Repr

namespace HeaderBlock

def findFirst (ls : List Text) : Option Nat :=
  ls.findIdx? Comment.opens

def findLastFrom (start : Nat) (ls : List Text) : Option Nat :=
  ((ls.drop start).findIdx? Comment.closes).map (· + start)

def findLast (ls : List Text) : Option Nat :=
  findLastFrom 0 ls

def find (search : HeaderSearch) (ls : List Text) : HeaderBlock :=
  let first := findFirst ls
  let last :=
    match search, first with
    | .paired, some start => findLastFrom start ls
    | _, _ => findLast ls
  ⟨first, last⟩

def before (b : HeaderBlock) (ls : List Text) : List Text :=
  match b.first with
  | some start => ls.take start
  | none => []

def after (b : HeaderBlock) (ls : List Text) : List Text :=
  match b.last with
  | some stop => ls.drop (stop + 1)
  | none => []

end HeaderBlock

/-- What takes a text for licensed or not, by its lines. -/
abbrev Detector := List Text → Bool

structure Attribution where
  phrase : Text
deriving DecidableEq

namespace Attribution

def standardPhrase : String := "Licensed to Elasticsearch B.V."

def standard : Attribution :=
  ⟨standardPhrase.toList⟩

/-- Reads lines from a place that lies inside a comment or outside. Blank lines change nothing. A line
that opens a comment is inside already; a line that closes one still is. -/
def foundFrom (a : Attribution) (inside : Bool) : List Text → Bool
  | [] => false
  | line :: rest =>
    let body := line.trim
    if body.isEmpty then a.foundFrom inside rest
    else
      let within := inside || Comment.opens body
      (within && body.mentions a.phrase) || a.foundFrom (within && !Comment.closes body) rest

def found (a : Attribution) (ls : List Text) : Bool :=
  a.foundFrom false ls

end Attribution

end LicenseHeaders
