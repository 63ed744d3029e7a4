import LicenseHeaders.Json.Reader
import LicenseHeaders.Report

namespace LicenseHeaders

namespace Csv

def escapeCommas (s : Text) : Text :=
  s.substitute ',' ['%', '2', 'C']

def row (fields : List Text) : Text :=
  Text.joinWith ',' fields

def columns : List String :=
  ["file_path", "dialect", "action", "notes"]

/-- The fields for a file. Newlines in a note become blanks; those in a path stay. -/
def fields (r : FileReport) : List Text :=
  [escapeCommas r.path.text, r.dialect.name.toList, r.action.name.toList,
    (escapeCommas (r.detail.getD [])).substitute '\n' [' ']]

def trailer (s : Summary) (now : Text) : List Text :=
  [[], "# Summary".toList,
    row ["Total files".toList, Text.ofNat s.total],
    row ["Headers replaced".toList, Text.ofNat s.replaced],
    row ["Headers inserted".toList, Text.ofNat s.inserted],
    row ["Unchanged".toList, Text.ofNat s.unchanged],
    row ["Failed".toList, Text.ofNat s.failed],
    row ["Skipped".toList, Text.ofNat s.skipped],
    row ["Processing time (seconds)".toList, s.elapsed.shortText],
    row ["Generated on".toList, now]]

def report (files : List FileReport) (s : Summary) (now : Text) : Text :=
  Text.unlines (row (columns.map String.toList) :: files.map (row ∘ fields) ++ trailer s now)

end Csv

namespace Json

def single? (members : List (Text × Json)) (key : String) : Option Json :=
  match members.filter (·.1 == key.toList) with
  | [(_, v)] => some v
  | _ => none

/-- A choice by its name, written as a string or as the key of an object that holds nothing. -/
def choice? {α : Type} (options : List α) (name : α → String) : Json → Option α
  | .string s | .object [(s, .null)] => options.find? fun a => (name a).toList == s
  | _ => none

def text? : Json → Option Text
  | .string s => some s
  | _ => none

def detail? : Json → Option (Option Text)
  | .null => some none
  | .string s => some (some s)
  | _ => none

end Json

namespace FileReport

def members (r : FileReport) : List (Text × Json) :=
  [("path".toList, .string r.path.text), ("dialect".toList, .string r.dialect.name.toList),
    ("action".toList, .string r.action.name.toList)] ++
    (r.detail.map fun d => ("detail".toList, Json.string d)).toList

def ofParts? (path dialect action detail : Json) : Option FileReport := do
  return { path := ⟨← path.text?⟩
           dialect := ← dialect.choice? [.native, .tagged] Dialect.name
           action := ← action.choice? Action.all Action.name
           detail := ← detail.detail? }

/-- Reads a report from an object or from its four parts in a row. In an object a missing detail is an absent
one, unknown keys do not count, and known keys may not be repeated. -/
def ofJson? : Json → Option FileReport
  | .array [path, dialect, action, detail] => ofParts? path dialect action detail
  | .object members =>
    match members.filter (·.1 == "detail".toList) with
    | [] => withDetail members .null
    | [(_, detail)] => withDetail members detail
    | _ => none
  | _ => none
where
  withDetail (members : List (Text × Json)) (detail : Json) : Option FileReport := do
    ofParts? (← Json.single? members "path") (← Json.single? members "dialect")
      (← Json.single? members "action") detail

def read? (s : Text) : Option FileReport :=
  (Json.read? s).bind ofJson?

end FileReport

namespace Summary

def members (s : Summary) : List (Text × Json) :=
  [("total_files".toList, Json.ofNat s.total), ("replaced".toList, Json.ofNat s.replaced),
    ("inserted".toList, Json.ofNat s.inserted), ("unchanged".toList, Json.ofNat s.unchanged),
    ("failed".toList, Json.ofNat s.failed), ("skipped".toList, Json.ofNat s.skipped),
    ("processing_time_seconds".toList, .number s.elapsed.exactText)] ++
    (s.timestamp.map fun t => ("timestamp".toList, Json.ofInt t)).toList

def toJson (s : Summary) : Json :=
  .object s.members

end Summary

/-- The whole report as a value, with the members of every object in the order of their keys. -/
def reportJson (files : List FileReport) (s : Summary) : Json :=
  .object [("files".toList, .array (files.map fun r => .object (Json.sorted r.members))),
    ("summary".toList, .object (Json.sorted s.members))]

inductive ReportFormat
  | json
  | csv
deriving DecidableEq, Repr

namespace ReportFormat

def name : ReportFormat → String
  | .json => "JSON"
  | .csv => "CSV"

def ofName? (s : Text) : Option ReportFormat :=
  [ReportFormat.json, .csv].find? fun f => Text.lowerAscii s == Text.lowerAscii f.name.toList

def unknownMessage (s : Text) : String :=
  s!"Invalid report format: {String.ofList s}"

def report (f : ReportFormat) (files : List FileReport) (s : Summary) (now : Text) : Text :=
  match f with
  | .json => (reportJson files s).pretty 0
  | .csv => Csv.report files s now

end ReportFormat

end LicenseHeaders
