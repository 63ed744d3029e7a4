import LicenseHeaders.FilePath

namespace LicenseHeaders

/-- The dialect of a file. A tagged file begins with an open tag that has to stay in front of its header. -/
inductive Dialect
  | native
  | tagged
deriving DecidableEq, Repr

namespace Extension

/-- An extension as typed may have dots in front, which do not count. -/
def bare (ext : Text) : Text :=
  ext.dropWhile (· = '.')

def fits (name ext : Text) : Bool :=
  let suffix := bare ext
  !suffix.isEmpty && ('.' :: suffix).isSuffixOf name

end Extension

namespace Dialect

def ofName (taggedExtensions : List Text) : Option Text → Dialect
  | none => .native
  | some name => if taggedExtensions.any (Extension.fits name) then .tagged else .native

def name : Dialect → String
  | .native => "native"
  | .tagged => "tagged"

def isTagged : Dialect → Bool
  | .native => false
  | .tagged => true

def standardOpenTag : String := "<?php"

def standardTagged : List String := ["php"]

end Dialect

def findOpenTag (openTag : Text) (ls : List Text) : Option Nat :=
  ls.findIdx? (·.contains openTag)

structure Selection where
  extensions : List Text

namespace Selection

/-- Entries that consist of dots only select nothing and are left out. -/
def ofEntries (entries : List Text) : Selection :=
  ⟨(entries.map Extension.bare).filter (!·.isEmpty)⟩

def isEmpty (s : Selection) : Bool :=
  s.extensions.isEmpty

inductive Refusal
  | noFileName
  | notSelected
deriving DecidableEq, Repr

def Refusal.message : Refusal → String
  | .noFileName => "No file name"
  | .notSelected => "Extension not selected"

def refusal? (s : Selection) (p : FilePath) : Option Refusal :=
  match p.fileName? with
  | none => some .noFileName
  | some name => if s.extensions.any (Extension.fits name) then none else some .notSelected

def selects (s : Selection) (p : FilePath) : Bool :=
  (s.refusal? p).isNone

end Selection

end LicenseHeaders
