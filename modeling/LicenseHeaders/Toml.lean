import LicenseHeaders.Text.Lines

namespace LicenseHeaders

namespace Toml

inductive Origin
  /-- Written as a value, between braces. Nothing may be added. -/
  | braces
  | dots
  | heading
  /-- Lies on the way to a table named by a heading. -/
  | implied
deriving DecidableEq, Repr

end Toml

inductive Toml
  | string (s : Text)
  | array (items : List Toml)
  | table (origin : Toml.Origin) (entries : List (Text × Toml))
deriving Repr

namespace Toml

abbrev Entries := List (Text × Toml)

def replaceEntry (key : Text) (v : Toml) (entries : Entries) : Entries :=
  entries.map fun (k, w) => if k = key then (k, v) else (k, w)

/-- Adds a value under a key with dots. Tables on the way are made, or are such tables already; a key that
has a value gets no other. -/
def addValue? (v : Toml) : (path : List Text) → Entries → Option Entries
  | [], _ => none
  | [key], entries => if (entries.lookup key).isSome then none else some (entries ++ [(key, v)])
  | key :: path, entries =>
    match entries.lookup key with
    | none => (addValue? v path []).map fun sub => entries ++ [(key, .table .dots sub)]
    | some (.table .dots sub) =>
      (addValue? v path sub).map fun sub => replaceEntry key (.table .dots sub) entries
    | some _ => none

/-- Opens the table that a heading names. No table is named by two headings. -/
def openTable? : (path : List Text) → Entries → Option Entries
  | [], _ => none
  | [key], entries =>
    match entries.lookup key with
    | none => some (entries ++ [(key, .table .heading [])])
    | some (.table .implied sub) => some (replaceEntry key (.table .heading sub) entries)
    | some _ => none
  | key :: path, entries =>
    match entries.lookup key with
    | none => (openTable? path []).map fun sub => entries ++ [(key, .table .implied sub)]
    | some (.table .braces _) => none
    | some (.table origin sub) =>
      (openTable? path sub).map fun sub => replaceEntry key (.table origin sub) entries
    | some _ => none

def addUnder? (v : Toml) (path : List Text) : (heading : List Text) → Entries → Option Entries
  | [], entries => addValue? v path entries
  | key :: heading, entries =>
    match entries.lookup key with
    | some (.table origin sub) =>
      (addUnder? v path heading sub).map fun sub => replaceEntry key (.table origin sub) entries
    | _ => none

end Toml

end LicenseHeaders
