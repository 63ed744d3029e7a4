import LicenseHeaders.Toml.Strings

namespace LicenseHeaders.Toml

def skipComment : Text → Option Text
  | '#' :: rest =>
    let body := rest.takeWhile (!isControl ·)
    let behind := rest.drop body.length
    if behind.isEmpty || (lineEnd? behind).isSome then some behind else none
  | s => some s

/-- Blanks, comments and line ends. Each line takes one unit of fuel. -/
def skipFill : (fuel : Nat) → Text → Option Text
  | 0, s => some s
  | fuel + 1, s => do
    let s ← skipComment (skipBlanks s)
    match lineEnd? s with
    | some rest => skipFill fuel rest
    | none => some s

def fill (s : Text) : Option Text :=
  skipFill s.length s

def isBareChar (c : Char) : Bool :=
  c.isAlphanum || c = '-' || c = '_'

def readKeyPart : Text → Option (Text × Text)
  | '"' :: rest => readQuoted (rest.length + 1) rest
  | '\'' :: rest => readLiteral rest
  | s =>
    let key := s.takeWhile isBareChar
    if key.isEmpty then none else some (key, s.drop key.length)

def readKey : (fuel : Nat) → Text → Option (List Text × Text)
  | 0, _ => none
  | fuel + 1, s => do
    let (part, rest) ← readKeyPart (skipBlanks s)
    match skipBlanks rest with
    | '.' :: rest => (readKey fuel rest).map fun (parts, rest) => (part :: parts, rest)
    | rest => some ([part], rest)

mutual

def readValue : (fuel : Nat) → Text → Option (Toml × Text)
  | 0, _ => none
  | fuel + 1, s =>
    match s with
    | '[' :: rest => (readItems fuel rest).map fun (items, rest) => (.array items, rest)
    | '\x7b' :: rest => (readEntries fuel [] rest).map fun (entries, rest) => (.table .braces entries, rest)
    | s => (readString s).map fun (text, rest) => (.string text, rest)

/-- The items of an array and the closing bracket. A comma may follow the last item. -/
def readItems : (fuel : Nat) → Text → Option (List Toml × Text)
  | 0, _ => none
  | fuel + 1, s => do
    match ← fill s with
    | ']' :: rest => some ([], rest)
    | s =>
      let (v, s) ← readValue fuel s
      match ← fill s with
      | ']' :: rest => some ([v], rest)
      | ',' :: rest => (readItems fuel rest).map fun (items, rest) => (v :: items, rest)
      | _ => none

def readEntries : (fuel : Nat) → Entries → Text → Option (Entries × Text)
  | 0, _, _ => none
  | fuel + 1, entries, s => do
    match ← fill s with
    | '\x7d' :: rest => some (entries, rest)
    | s =>
      let (path, v, s) ← readPair fuel s
      let entries ← addValue? v path entries
      match ← fill s with
      | '\x7d' :: rest => some (entries, rest)
      | ',' :: rest => readEntries fuel entries rest
      | _ => none

def readPair : (fuel : Nat) → Text → Option (List Text × Toml × Text)
  | 0, _ => none
  | fuel + 1, s => do
    match ← readKey s.length s with
    | (path, '=' :: rest) => (readValue fuel (skipBlanks rest)).map fun (v, rest) => (path, v, rest)
    | _ => none

end

structure Document where
  entries : Entries
  heading : List Text

def readLine (d : Document) (s : Text) : Option (Document × Text) :=
  match skipBlanks s with
  | [] | '#' :: _ | '\n' :: _ | '\r' :: _ => some (d, skipBlanks s)
  | '[' :: rest => do
    match ← readKey rest.length rest with
    | (path, ']' :: rest) => (openTable? path d.entries).map fun entries => (⟨entries, path⟩, rest)
    | _ => none
  | s => do
    let (path, v, rest) ← readPair (2 * s.length + 2) s
    (addUnder? v path d.heading d.entries).map fun entries => ({ d with entries }, rest)

def readLines : (fuel : Nat) → Document → Text → Option Document
  | 0, _, _ => none
  | fuel + 1, d, s => do
    let (d, rest) ← readLine d s
    match ← skipComment (skipBlanks rest) with
    | [] => some d
    | rest =>
      let rest ← lineEnd? rest
      readLines fuel d rest

/-- The entries of a whole text. A byte order mark in front does not count. -/
def read? (s : Text) : Option Entries :=
  let s := if s.head? = some '\uFEFF' then s.tail else s
  (readLines (s.length + 1) ⟨[], []⟩ s).map Document.entries

end LicenseHeaders.Toml
