import LicenseHeaders.Failure
import LicenseHeaders.FileTree.Access
import LicenseHeaders.Comment
import LicenseHeaders.Text.Search
import LicenseHeaders.Toml.Reader

namespace LicenseHeaders

def HeaderSearch.name : HeaderSearch → String
  | .independent => "independent"
  | .paired => "paired"

def HeaderSearch.all : List HeaderSearch :=
  [.independent, .paired]

structure Config where
  headerFile : Option FilePath := none
  attribution : Option Text := none
  openTag : Option Text := none
  taggedExtensions : Option (List Text) := none
  headerSearch : Option HeaderSearch := none
  ignore : List Text := []
deriving DecidableEq, Repr

inductive ConfigError
  | unreadable (p : FilePath) (cause : IoError)
  | malformed (p : FilePath)
  | invalid (key : String) (reason : String)
deriving DecidableEq, Repr

namespace ConfigError

def tomlMessage : String := "TOML parse error"

def failure : ConfigError → Failure
  | .unreadable p cause => [s!"Failed to read config file '{p}': {cause.message}", cause.message]
  | .malformed p => [s!"Failed to parse config file '{p}': {tomlMessage}", tomlMessage]
  | .invalid key reason => [s!"Invalid value for '{key}': {reason}"]

def message (e : ConfigError) : String :=
  e.failure.headD ""

end ConfigError

namespace Config

def text? : Toml → Option Text
  | .string s => some s
  | _ => none

def texts? : Toml → Option (List Text)
  | .array items => items.mapM text?
  | _ => none

def searchOfName? (name : Text) : Option HeaderSearch :=
  HeaderSearch.all.find? fun m => m.name.toList == name

def search? : Toml → Option HeaderSearch
  | .string name | .table _ [(name, .table _ [])] | .table _ [(name, .array [])] => searchOfName? name
  | _ => none

def setting? (c : Config) (key : Text) (v : Toml) : Option Config :=
  match String.ofList key with
  | "header-file" => (text? v).map fun s => { c with headerFile := some ⟨s⟩ }
  | "attribution" => (text? v).map fun s => { c with attribution := some s }
  | "open-tag" => (text? v).map fun s => { c with openTag := some s }
  | "tagged-extensions" => (texts? v).map fun ss => { c with taggedExtensions := some ss }
  | "header-search" => (search? v).map fun m => { c with headerSearch := some m }
  | "ignore" => (texts? v).map fun ss => { c with ignore := ss }
  | _ => none

def ofText? (s : Text) : Option Config :=
  (Toml.read? s).bind fun entries => entries.foldlM (fun c (key, v) => c.setting? key v) {}

def extensionFault? (ext : Text) : Option String :=
  if ext.isEmpty then some "extension cannot be empty"
  else if ext.head? = some '.' then
    some s!"extension '{String.ofList ext}' should not include leading dot"
  else none

/-- The first setting with a value that makes no sense: blank texts are looked for first, then extensions. -/
def fault? (c : Config) : Option ConfigError :=
  let blank (key : String) (value : Option Text) : Option ConfigError :=
    if value.any Text.isBlank then some (.invalid key "value cannot be empty") else none
  blank "attribution" c.attribution <|> blank "open-tag" c.openTag <|>
    ((c.taggedExtensions.getD []).findSome? extensionFault?).map (.invalid "tagged-extensions")

/-- Reads a configuration file. Its header file is relative to the directory of the file. -/
def load (t : FileTree) (p : FilePath) : Except ConfigError Config :=
  match t.readText p with
  | .error e => .error (.unreadable p e)
  | .ok s =>
    match ofText? s with
    | none => .error (.malformed p)
    | some c =>
      match c.fault? with
      | some e => .error e
      | none => .ok { c with headerFile := c.headerFile.map (p.parent?.getD ⟨[]⟩).join }

end Config

end LicenseHeaders
