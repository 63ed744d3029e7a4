import LicenseHeaders.CommandLine.Switch

namespace LicenseHeaders.Help

def programName : String := "relicense"

def versionNumber : String := "0.1.0"

def about : String :=
  "Canonicalizes license header comments across mixed native and PHP source trees, " ++
    "replacing stale headers and inserting missing ones without disturbing open tags."

def usage : String := s!"Usage: {programName} [OPTIONS] <DIRECTORY> <EXTENSIONS>..."

def valueText : Switch → String
  | .headerFile | .saveDiff | .config => " <FILE>"
  | .attribution => " <PHRASE>"
  | .openTag => " <MARKER>"
  | .taggedExt => " <EXT>"
  | .headerSearch => " <MODE>"
  | .ignore => " <IGNORE>"
  | .reportJson | .reportCsv => " <OUTPUT>"
  | .colors => " [<WHEN>]"
  | .verbose => "..."
  | .check | .showDiff | .noConfig | .quiet | .help | .version => ""

def purpose (detailed : Bool) : Switch → String
  | .headerFile => "File holding the canonical header text [default: built-in Apache-2.0 header]"
  | .attribution => "Phrase that marks an existing license header (case-insensitive)"
  | .openTag => "Open tag that must stay in front of the header in tagged files"
  | .taggedExt => "Extensions handled as the tagged dialect (repeatable) [default: php]"
  | .headerSearch => "How the end of an existing header is located [default: independent]"
  | .check => "Dry run: report the files that would change without writing them"
  | .showDiff => "Show a diff of every change"
  | .saveDiff => "Save the diff of every change to a file"
  | .ignore => "File patterns to ignore (supports glob patterns)"
  | .config => "Path to config file (default: .relicense.toml in DIRECTORY)"
  | .noConfig => "Ignore config file even if present"
  | .reportJson => "Generate a JSON report and save it to the specified path"
  | .reportCsv => "Generate a CSV report and save it to the specified path"
  | .verbose => "Increase verbosity (-v info, -vv debug, -vvv trace)"
  | .quiet => "Suppress all output except errors"
  | .colors => "Control when to use colored output (auto, never, always)"
  | .help =>
    if detailed then "Print help (see a summary with '-h')" else "Print help (see more with '--help')"
  | .version => "Print version"

def choices : Switch → List (String × String)
  | .headerSearch =>
    [("independent", "Start and end are two independent scans from line 0"),
      ("paired", "The closer is only searched for at or after the opener line")]
  | .colors =>
    [("auto", "Colorize when the stream is a terminal"), ("never", "Never use colors"),
      ("always", "Always use colors")]
  | _ => []

def default? : Switch → Option String
  | .colors => some "auto"
  | _ => none

def arguments : List (String × String) :=
  [("<DIRECTORY>", "Directory to process recursively (a single file is also accepted)"),
    ("<EXTENSIONS>...", "File extensions to process, without the leading dot (e.g. cpp h php)")]

def examples : List String :=
  ["Examples:", "  # Replace or insert headers in all C++ and PHP sources",
    "  relicense prod cpp h hpp php", "",
    "  # Report which files would change without writing anything",
    "  relicense --check prod cpp h php", "",
    "  # Use a different header and attribution phrase",
    "  relicense --header-file tools/license/header.txt --attribution \"Licensed to ACME\" src c h", "",
    "  # Show the diff of every change and skip vendored code",
    "  relicense --show-diff --ignore \"**/vendor/**\" . php"]

def form (s : Switch) : String :=
  let short :=
    match s.short? with
    | some c => s!"-{c}, "
    | none => "    "
  short ++ "--" ++ s.long ++ valueText s

def blanks (n : Nat) : String :=
  String.ofList (List.replicate n ' ')

def padded (width : Nat) (s : String) : String :=
  s ++ blanks (width - s.length)

def columns (entries : List (String × String)) : List String :=
  let width := (entries.map fun e => e.1.length).foldl max 0 + 2
  entries.map fun (left, right) => "  " ++ padded width left ++ right

def brackets (s : Switch) : String :=
  let default := ((default? s).map fun d => s!" [default: {d}]").getD ""
  let names := ", ".intercalate ((choices s).map Prod.fst)
  default ++ if (choices s).isEmpty then "" else s!" [possible values: {names}]"

def brief : List String :=
  ["Arguments:"] ++ columns arguments ++ ["", "Options:"] ++
    columns (Switch.all.map fun s => (form s, purpose false s ++ brackets s))

def indented (s : String) : String :=
  blanks 10 ++ s

def choiceLines (s : Switch) : List String :=
  let width := ((choices s).map fun c => c.1.length).foldl max 0 + 1
  let listed := (choices s).map fun (name, meaning) =>
    indented ("- " ++ padded width (name ++ ":") ++ " " ++ meaning)
  let default := ((default? s).map fun d => [indented "", indented s!"[default: {d}]"]).getD []
  if (choices s).isEmpty then [] else ["", indented "Possible values:"] ++ listed ++ default

def spaced : List (List String) → List String
  | [] => []
  | [block] => block
  | block :: rest => block ++ [""] ++ spaced rest

def detailedText : List String :=
  ["Arguments:"] ++ spaced (arguments.map fun (name, meaning) => ["  " ++ name, indented meaning]) ++
    ["", "Options:"] ++
    spaced (Switch.all.map fun s => ["  " ++ form s, indented (purpose true s)] ++ choiceLines s)

def lines (detailed : Bool) : List String :=
  [s!"{programName} v{versionNumber}", "", about, "", usage, ""] ++
    (if detailed then detailedText else brief) ++ [""] ++ examples

/-- The line that tells the version. The detailed one names the build, which is not known. -/
def versionLine (detailed : Bool) : String :=
  if detailed then s!"{programName} {versionNumber} (unknown unknown)" else s!"{programName} {versionNumber}"

end LicenseHeaders.Help
