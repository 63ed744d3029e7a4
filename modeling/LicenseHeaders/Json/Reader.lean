import LicenseHeaders.Json

namespace LicenseHeaders.Json

def isSpace (c : Char) : Bool :=
  c = ' ' || c = '\t' || c = '\n' || c = '\r'

def skipSpace (s : Text) : Text :=
  s.dropWhile isSpace

def hexValue? (c : Char) : Option Nat :=
  if '0' ≤ c ∧ c ≤ '9' then some (c.toNat - '0'.toNat)
  else if 'a' ≤ c ∧ c ≤ 'f' then some (c.toNat - 'a'.toNat + 10)
  else if 'A' ≤ c ∧ c ≤ 'F' then some (c.toNat - 'A'.toNat + 10)
  else none

def hex4? (a b c d : Char) : Option Nat := do
  let a ← hexValue? a
  let b ← hexValue? b
  let c ← hexValue? c
  let d ← hexValue? d
  return ((a * 16 + b) * 16 + c) * 16 + d

def isHighSurrogate (n : Nat) : Bool :=
  0xD800 ≤ n && n < 0xDC00

def isLowSurrogate (n : Nat) : Bool :=
  0xDC00 ≤ n && n < 0xE000

def unescape? : Char → Option Char
  | '"' => some '"'
  | '\\' => some '\\'
  | '/' => some '/'
  | 'b' => some '\x08'
  | 'f' => some '\x0c'
  | 'n' => some '\n'
  | 'r' => some '\r'
  | 't' => some '\t'
  | _ => none

/-- What a string holds: its characters, or nothing if an escape names half of a surrogate pair. -/
abbrev Contents := Option Text

def Contents.push (c : Char) (contents : Contents) : Contents :=
  contents.map (c :: ·)

def pair? (a b c d e f g h : Char) : Option Char := do
  let high ← hex4? a b c d
  let low ← hex4? e f g h
  if isHighSurrogate high && isLowSurrogate low then
    return Char.ofNat (0x10000 + (high - 0xD800) * 0x400 + (low - 0xDC00))
  else none

def readString : Text → Option (Contents × Text)
  | [] => none
  | '"' :: rest => some (some [], rest)
  | '\\' :: 'u' :: a :: b :: c :: d :: '\\' :: 'u' :: e :: f :: g :: h :: rest =>
    match pair? a b c d e f g h with
    | some char => (readString rest).map fun (contents, rest) => (contents.push char, rest)
    | none => readUnit a b c d (readString ('\\' :: 'u' :: e :: f :: g :: h :: rest))
  | '\\' :: 'u' :: a :: b :: c :: d :: rest => readUnit a b c d (readString rest)
  | '\\' :: c :: rest =>
    match unescape? c with
    | some char => (readString rest).map fun (contents, rest) => (contents.push char, rest)
    | none => none
  | c :: rest =>
    if c.toNat < 0x20 || c = '\\' then none
    else (readString rest).map fun (contents, rest) => (contents.push c, rest)
where
  /-- A single escape of four digits in front of what follows. -/
  readUnit (a b c d : Char) (following : Option (Contents × Text)) : Option (Contents × Text) :=
    match hex4? a b c d with
    | none => none
    | some n =>
      following.map fun (contents, rest) =>
        if isHighSurrogate n || isLowSurrogate n then (none, rest) else (contents.push (Char.ofNat n), rest)

def readDigits (s : Text) : Option (Text × Text) :=
  let digits := s.takeWhile Char.isDigit
  if digits.isEmpty then none else some (digits, s.dropWhile Char.isDigit)

def readWhole : Text → Option (Text × Text)
  | '0' :: rest => if (rest.head?.map Char.isDigit).getD false then none else some (['0'], rest)
  | s => readDigits s

def readFraction : Text → Option (Text × Text)
  | '.' :: rest => (readDigits rest).map fun (digits, rest) => ('.' :: digits, rest)
  | s => some ([], s)

def readExponent : Text → Option (Text × Text)
  | 'e' :: rest => behindMark 'e' rest
  | 'E' :: rest => behindMark 'E' rest
  | s => some ([], s)
where
  behindMark (mark : Char) : Text → Option (Text × Text)
    | '+' :: rest => (readDigits rest).map fun (digits, rest) => (mark :: '+' :: digits, rest)
    | '-' :: rest => (readDigits rest).map fun (digits, rest) => (mark :: '-' :: digits, rest)
    | rest => (readDigits rest).map fun (digits, rest) => (mark :: digits, rest)

def readMagnitude (s : Text) : Option (Text × Text) := do
  let (whole, s) ← readWhole s
  let (fraction, s) ← readFraction s
  let (exponent, s) ← readExponent s
  return (whole ++ fraction ++ exponent, s)

def readNumber : Text → Option (Text × Text)
  | '-' :: rest => (readMagnitude rest).map fun (literal, rest) => ('-' :: literal, rest)
  | s => readMagnitude s

def ofMembers (members : List (Contents × Json)) : Json :=
  match members.mapM fun (key, v) => key.map fun k => (k, v) with
  | some members => .object members
  | none => .garbled

mutual

/-- A value with blanks in front of it, and the text behind it. Every step takes one unit of fuel. -/
def readValue : (fuel : Nat) → Text → Option (Json × Text)
  | 0, _ => none
  | fuel + 1, s =>
    match skipSpace s with
    | 'n' :: 'u' :: 'l' :: 'l' :: rest => some (.null, rest)
    | 't' :: 'r' :: 'u' :: 'e' :: rest => some (.bool true, rest)
    | 'f' :: 'a' :: 'l' :: 's' :: 'e' :: rest => some (.bool false, rest)
    | '"' :: rest =>
      (readString rest).map fun (contents, rest) => ((contents.map Json.string).getD .garbled, rest)
    | '[' :: rest =>
      match skipSpace rest with
      | ']' :: rest => some (.array [], rest)
      | rest => (readItems fuel rest).map fun (items, rest) => (.array items, rest)
    | '{' :: rest =>
      match skipSpace rest with
      | '}' :: rest => some (.object [], rest)
      | rest => (readMembers fuel rest).map fun (members, rest) => (ofMembers members, rest)
    | s => (readNumber s).map fun (literal, rest) => (.number literal, rest)

def readItems : (fuel : Nat) → Text → Option (List Json × Text)
  | 0, _ => none
  | fuel + 1, s =>
    match readValue fuel s with
    | none => none
    | some (v, s) =>
      match skipSpace s with
      | ']' :: rest => some ([v], rest)
      | ',' :: rest => (readItems fuel rest).map fun (items, rest) => (v :: items, rest)
      | _ => none

def readMembers : (fuel : Nat) → Text → Option (List (Contents × Json) × Text)
  | 0, _ => none
  | fuel + 1, s =>
    match skipSpace s with
    | '"' :: rest =>
      match readString rest with
      | none => none
      | some (key, s) =>
        match skipSpace s with
        | ':' :: rest =>
          match readValue fuel rest with
          | none => none
          | some (v, s) =>
            match skipSpace s with
            | '}' :: rest => some ([(key, v)], rest)
            | ',' :: rest => (readMembers fuel rest).map fun (members, rest) => ((key, v) :: members, rest)
            | _ => none
        | _ => none
    | _ => none

end

def read? (s : Text) : Option Json :=
  match readValue (2 * s.length + 1) s with
  | some (v, rest) => if (skipSpace rest).isEmpty then some v else none
  | none => none

end LicenseHeaders.Json
