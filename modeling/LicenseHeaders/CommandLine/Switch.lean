import LicenseHeaders.Text.Search

namespace LicenseHeaders

inductive Switch
  | headerFile
  | attribution
  | openTag
  | taggedExt
  | headerSearch
  | check
  | showDiff
  | saveDiff
  | ignore
  | config
  | noConfig
  | reportJson
  | reportCsv
  | verbose
  | quiet
  | colors
  | help
  | version
deriving DecidableEq, Repr

inductive Taking
  | nothing
  | value
  | optionalValue
deriving DecidableEq, Repr

namespace Switch

def all : List Switch :=
  [.headerFile, .attribution, .openTag, .taggedExt, .headerSearch, .check, .showDiff, .saveDiff, .ignore,
    .config, .noConfig, .reportJson, .reportCsv, .verbose, .quiet, .colors, .help, .version]

def long : Switch → String
  | .headerFile => "header-file"
  | .attribution => "attribution"
  | .openTag => "open-tag"
  | .taggedExt => "tagged-ext"
  | .headerSearch => "header-search"
  | .check => "check"
  | .showDiff => "show-diff"
  | .saveDiff => "save-diff"
  | .ignore => "ignore"
  | .config => "config"
  | .noConfig => "no-config"
  | .reportJson => "report-json"
  | .reportCsv => "report-csv"
  | .verbose => "verbose"
  | .quiet => "quiet"
  | .colors => "colors"
  | .help => "help"
  | .version => "version"

def short? : Switch → Option Char
  | .headerFile => some 'f'
  | .saveDiff => some 'o'
  | .ignore => some 'i'
  | .verbose => some 'v'
  | .quiet => some 'q'
  | .help => some 'h'
  | .version => some 'V'
  | _ => none

def taking : Switch → Taking
  | .headerFile | .attribution | .openTag | .taggedExt | .headerSearch | .saveDiff | .ignore | .config
  | .reportJson | .reportCsv => .value
  | .colors => .optionalValue
  | .check | .showDiff | .noConfig | .verbose | .quiet | .help | .version => .nothing

def ofLong? (name : Text) : Option Switch :=
  all.find? fun s => s.long.toList == name

def ofShort? (c : Char) : Option Switch :=
  all.find? fun s => s.short? == some c

end Switch

end LicenseHeaders
