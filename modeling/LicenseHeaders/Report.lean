import LicenseHeaders.Decimal
import LicenseHeaders.Extension

namespace LicenseHeaders

inductive Action
  | replaced
  | inserted
  | unchanged
  | failed
  | skipped
deriving DecidableEq, Repr

namespace Action

def name : Action → String
  | .replaced => "replaced"
  | .inserted => "inserted"
  | .unchanged => "unchanged"
  | .failed => "failed"
  | .skipped => "skipped"

def all : List Action :=
  [.replaced, .inserted, .unchanged, .failed, .skipped]

def changesFile : Action → Bool
  | .replaced | .inserted => true
  | .unchanged | .failed | .skipped => false

end Action

structure FileReport where
  path : FilePath
  dialect : Dialect
  action : Action
  detail : Option Text := none
deriving DecidableEq, Repr

namespace FileReport

def anyChanged (reports : List FileReport) : Bool :=
  reports.any (·.action.changesFile)

def anyFailed (reports : List FileReport) : Bool :=
  reports.any (·.action == .failed)

/-- Reports in the order of their paths. Reports on one path keep their order. -/
def sorted (reports : List FileReport) : List FileReport :=
  reports.mergeSort fun a b => a.path.le b.path

end FileReport

/-- Reports by what happened to the files, each list in the order of the reports. -/
structure Breakdown where
  replaced : List FileReport
  inserted : List FileReport
  failed : List FileReport
  unchanged : List FileReport
  skipped : List FileReport

namespace Breakdown

def ofReports (reports : List FileReport) : Breakdown :=
  let having (a : Action) := reports.filter (·.action == a)
  ⟨having .replaced, having .inserted, having .failed, having .unchanged, having .skipped⟩

def hasChanges (b : Breakdown) : Bool :=
  !b.replaced.isEmpty || !b.inserted.isEmpty

end Breakdown

structure Summary where
  total : Nat
  replaced : Nat
  inserted : Nat
  unchanged : Nat
  failed : Nat
  skipped : Nat
  elapsed : Duration
  timestamp : Option Int
deriving DecidableEq, Repr

namespace Summary

def ofReports (reports : List FileReport) (elapsed : Duration) (timestamp : Option Int) : Summary :=
  let count (a : Action) := reports.countP (·.action == a)
  { total := reports.length
    replaced := count .replaced
    inserted := count .inserted
    unchanged := count .unchanged
    failed := count .failed
    skipped := count .skipped
    elapsed
    timestamp }

def changed (s : Summary) : Nat :=
  s.replaced + s.inserted

end Summary

end LicenseHeaders
