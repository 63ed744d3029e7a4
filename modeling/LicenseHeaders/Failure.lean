namespace LicenseHeaders

/-- Why something failed: what was to be done, then the reasons, one behind the other. -/
abbrev Failure := List String

namespace Failure

def inLine (f : Failure) : String :=
  ": ".intercalate f

def reasons : List String → List String
  | [reason] => ["    " ++ reason]
  | all => all.zipIdx.map fun (reason, i) => s!"    {i}: {reason}"

def shown : Failure → List String
  | [] => []
  | [message] => ["Error: " ++ message]
  | message :: causes => ["Error: " ++ message, "", "Caused by:"] ++ reasons causes

end Failure

inductive IoError
  | notFound
  | inputOutput
  | permissionDenied
  | notDirectory
  | isDirectory
  | noSpace
  | readOnly
  | nameTooLong
  | tooManyLinks
  | notText
  | nulCharacter
deriving DecidableEq, Repr

def IoError.message : IoError → String
  | .notFound => "No such file or directory (os error 2)"
  | .inputOutput => "Input/output error (os error 5)"
  | .permissionDenied => "Permission denied (os error 13)"
  | .notDirectory => "Not a directory (os error 20)"
  | .isDirectory => "Is a directory (os error 21)"
  | .noSpace => "No space left on device (os error 28)"
  | .readOnly => "Read-only file system (os error 30)"
  | .nameTooLong => "File name too long (os error 36)"
  | .tooManyLinks => "Too many levels of symbolic links (os error 40)"
  | .notText => "stream did not contain valid UTF-8"
  | .nulCharacter => "file name contained an unexpected NUL byte"

end LicenseHeaders
