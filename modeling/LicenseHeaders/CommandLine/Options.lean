import LicenseHeaders.CommandLine.Switch
import LicenseHeaders.Config
import LicenseHeaders.Console
import LicenseHeaders.Extension

namespace LicenseHeaders

structure Options where
  directory : FilePath
  extensions : List Text
  headerFile : Option FilePath := none
  attribution : Option Text := none
  openTag : Option Text := none
  taggedExt : List Text := []
  headerSearch : Option HeaderSearch := none
  check : Bool := false
  showDiff : Bool := false
  saveDiff : Option FilePath := none
  ignore : List Text := []
  config : Option FilePath := none
  noConfig : Bool := false
  reportJson : Option FilePath := none
  reportCsv : Option FilePath := none
  verbosity : Verbosity := .normal
  colors : ColorChoice := .auto

namespace Options

inductive Stop
  | help (detailed : Bool)
  | version (detailed : Bool)
  | misuse
deriving DecidableEq, Repr

structure Draft where
  directory : Option FilePath := none
  extensions : List Text := []
  headerFile : Option FilePath := none
  attribution : Option Text := none
  openTag : Option Text := none
  taggedExt : List Text := []
  headerSearch : Option HeaderSearch := none
  check : Bool := false
  showDiff : Bool := false
  saveDiff : Option FilePath := none
  ignore : List Text := []
  config : Option FilePath := none
  noConfig : Bool := false
  reportJson : Option FilePath := none
  reportCsv : Option FilePath := none
  verbose : Bool := false
  quiet : Bool := false
  colors : Option ColorChoice := none

def once {α : Type} (present : Option α) (given : Option α) : Except Stop (Option α) :=
  match present, given with
  | none, some a => .ok (some a)
  | _, _ => .error .misuse

def firstTime (present : Bool) : Except Stop Bool :=
  if present then .error .misuse else .ok true

def path? (s : Text) : Option FilePath :=
  if s.isEmpty then none else some ⟨s⟩

namespace Draft

def flag (d : Draft) (detailed : Bool) : Switch → Except Stop Draft
  | .check => do return { d with check := ← firstTime d.check }
  | .showDiff => do return { d with showDiff := ← firstTime d.showDiff }
  | .noConfig => do return { d with noConfig := ← firstTime d.noConfig }
  | .quiet => do return { d with quiet := ← firstTime d.quiet }
  | .verbose => .ok { d with verbose := true }
  | .colors => do return { d with colors := ← once d.colors (some .always) }
  | .help => .error (.help detailed)
  | .version => .error (.version detailed)
  | _ => .error .misuse

def value (d : Draft) (v : Text) : Switch → Except Stop Draft
  | .headerFile => do return { d with headerFile := ← once d.headerFile (path? v) }
  | .attribution => do return { d with attribution := ← once d.attribution (some v) }
  | .openTag => do return { d with openTag := ← once d.openTag (some v) }
  | .taggedExt => .ok { d with taggedExt := d.taggedExt ++ [v] }
  | .headerSearch => do return { d with headerSearch := ← once d.headerSearch (Config.searchOfName? v) }
  | .saveDiff => do return { d with saveDiff := ← once d.saveDiff (path? v) }
  | .ignore => .ok { d with ignore := d.ignore ++ [v] }
  | .config => do return { d with config := ← once d.config (path? v) }
  | .reportJson => do return { d with reportJson := ← once d.reportJson (path? v) }
  | .reportCsv => do return { d with reportCsv := ← once d.reportCsv (path? v) }
  | .colors => do
    return { d with colors := ← once d.colors (ColorChoice.all.find? fun c => c.name.toList == v) }
  | _ => .error .misuse

def positional (d : Draft) (v : Text) : Except Stop Draft :=
  match d.directory with
  | none => do return { d with directory := ← once none (path? v) }
  | some _ => .ok { d with extensions := d.extensions ++ [v] }

def settle (d : Draft) : Option Switch → Except Stop Draft
  | none => .ok d
  | some s =>
    match s.taking with
    | .optionalValue => d.flag false s
    | .value | .nothing => .error .misuse

def long (d : Draft) (name : Text) (attached : Option Text) : Except Stop (Draft × Option Switch) :=
  match Switch.ofLong? name, attached with
  | none, _ => .error .misuse
  | some s, some v => if s.taking = .nothing then .error .misuse else do return (← d.value v s, none)
  | some s, none => if s.taking = .nothing then do return (← d.flag true s, none) else .ok (d, some s)

/-- Takes letters behind one dash. What follows a letter with a value is the value. -/
def letters (d : Draft) : List Char → Except Stop (Draft × Option Switch)
  | [] => .ok (d, none)
  | c :: rest =>
    match Switch.ofShort? c with
    | none => .error .misuse
    | some s =>
      if s.taking = .nothing then do
        let d ← d.flag false s
        d.letters rest
      else
        match rest with
        | [] => .ok (d, some s)
        | '=' :: v => do return (← d.value v s, none)
        | v => do return (← d.value v s, none)

end Draft

def cutName (s : Text) : Text × Option Text :=
  match s.dropWhile (· ≠ '=') with
  | [] => (s, none)
  | _ :: v => (s.takeWhile (· ≠ '='), some v)

/-- Reads arguments behind those read so far; a switch may be waiting for its value. -/
def readFrom (waiting : Option Switch) (d : Draft) : List Text → Except Stop Draft
  | [] => d.settle waiting
  | ['-', '-'] :: rest => do
    let d ← d.settle waiting
    rest.foldlM Draft.positional d
  | ('-' :: '-' :: name) :: rest => do
    let d ← d.settle waiting
    let (d, waiting) ← d.long (cutName name).1 (cutName name).2
    readFrom waiting d rest
  | ('-' :: c :: cs) :: rest => do
    let d ← d.settle waiting
    let (d, waiting) ← d.letters (c :: cs)
    readFrom waiting d rest
  | v :: rest => do
    let d ←
      match waiting with
      | some s => d.value v s
      | none => d.positional v
    readFrom none d rest

/-- A directory and at least one extension have to be given, and a run is not both quiet and verbose. -/
def ofDraft (d : Draft) : Except Stop Options :=
  match d.directory with
  | none => .error .misuse
  | some directory =>
    if d.extensions.isEmpty || (d.quiet && d.verbose) then .error .misuse
    else
      .ok { directory
            extensions := d.extensions
            headerFile := d.headerFile
            attribution := d.attribution
            openTag := d.openTag
            taggedExt := d.taggedExt
            headerSearch := d.headerSearch
            check := d.check
            showDiff := d.showDiff
            saveDiff := d.saveDiff
            ignore := d.ignore
            config := d.config
            noConfig := d.noConfig
            reportJson := d.reportJson
            reportCsv := d.reportCsv
            verbosity := if d.verbose then .verbose else if d.quiet then .quiet else .normal
            colors := d.colors.getD .auto }

def read (arguments : List Text) : Except Stop Options := do
  ofDraft (← readFrom none {} arguments)

/-- What is wrong with the values, if anything: they are looked at once the line has been read. -/
def fault? (o : Options) : Option String :=
  if o.attribution.any Text.isBlank then some "--attribution cannot be empty"
  else if o.openTag.any List.isEmpty then some "--open-tag cannot be empty"
  else if o.extensions.all fun e => (Extension.bare e).isEmpty then
    some "At least one non-empty extension is required"
  else none

end Options

end LicenseHeaders
