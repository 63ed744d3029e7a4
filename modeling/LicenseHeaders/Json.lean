import LicenseHeaders.Decimal

namespace LicenseHeaders

inductive Json
  | null
  | bool (b : Bool)
  | number (literal : Text)
  | string (s : Text)
  | array (items : List Json)
  | object (members : List (Text × Json))
  /-- A string, or an object with a key, whose escapes name half of a surrogate pair: no text stands for it. -/
  | garbled
deriving Repr

namespace Json

def ofNat (n : Nat) : Json :=
  .number (Text.ofNat n)

def ofInt (n : Int) : Json :=
  .number (Text.ofInt n)

def sorted (members : List (Text × Json)) : List (Text × Json) :=
  members.mergeSort fun a b =>
    (List.compareLex instOrdNat.compare (a.1.map Char.toNat) (b.1.map Char.toNat)).isLE

def shortEscapes : List (Char × Char) :=
  [('"', '"'), ('\\', '\\'), ('\x08', 'b'), ('\t', 't'), ('\n', 'n'), ('\x0c', 'f'), ('\r', 'r')]

def hexDigit (n : Nat) : Char :=
  Nat.digitChar (n % 16)

/-- A character inside a string. Control characters are escaped, all others but quotes and backslashes stand
for themselves. -/
def escapeChar (c : Char) : Text :=
  match shortEscapes.lookup c with
  | some letter => ['\\', letter]
  | none =>
    if c.toNat < 0x20 then ['\\', 'u', '0', '0', hexDigit (c.toNat / 16), hexDigit c.toNat] else [c]

def quoted (s : Text) : Text :=
  '"' :: s.flatMap escapeChar ++ ['"']

def separated (comma : Text) : List Text → Text
  | [] => []
  | [piece] => piece
  | piece :: rest => piece ++ comma ++ separated comma rest

mutual

def compact : Json → Text
  | .null | .garbled => ['n', 'u', 'l', 'l']
  | .bool true => ['t', 'r', 'u', 'e']
  | .bool false => ['f', 'a', 'l', 's', 'e']
  | .number literal => literal
  | .string s => quoted s
  | .array items => '[' :: separated [','] (compactItems items) ++ [']']
  | .object members => '{' :: separated [','] (compactMembers members) ++ ['}']

def compactItems : List Json → List Text
  | [] => []
  | v :: rest => compact v :: compactItems rest

def compactMembers : List (Text × Json) → List Text
  | [] => []
  | (key, v) :: rest => (quoted key ++ ':' :: compact v) :: compactMembers rest

end

def newLine (level : Nat) : Text :=
  '\n' :: List.replicate (2 * level) ' '

def block (opening closing : Char) (level : Nat) (pieces : List Text) : Text :=
  if pieces.isEmpty then [opening, closing]
  else
    opening :: newLine (level + 1) ++ separated (',' :: newLine (level + 1)) pieces ++
      newLine level ++ [closing]

mutual

def pretty (level : Nat) : Json → Text
  | .null | .garbled => ['n', 'u', 'l', 'l']
  | .bool true => ['t', 'r', 'u', 'e']
  | .bool false => ['f', 'a', 'l', 's', 'e']
  | .number literal => literal
  | .string s => quoted s
  | .array items => block '[' ']' level (prettyItems (level + 1) items)
  | .object members => block '{' '}' level (prettyMembers (level + 1) members)

def prettyItems (level : Nat) : List Json → List Text
  | [] => []
  | v :: rest => pretty level v :: prettyItems level rest

def prettyMembers (level : Nat) : List (Text × Json) → List Text
  | [] => []
  | (key, v) :: rest => (quoted key ++ ':' :: ' ' :: pretty level v) :: prettyMembers level rest

end

end Json

end LicenseHeaders
