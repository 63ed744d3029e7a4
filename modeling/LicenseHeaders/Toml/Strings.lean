import LicenseHeaders.Json.Reader
import LicenseHeaders.Toml

namespace LicenseHeaders.Toml

/-- Control characters, which no text may hold; a tab is none of them. -/
def isControl (c : Char) : Bool :=
  (c.toNat < 0x20 && c ≠ '\t') || c = '\x7f'

def isBlank (c : Char) : Bool :=
  c = ' ' || c = '\t'

def skipBlanks (s : Text) : Text :=
  s.dropWhile isBlank

def lineEnd? : Text → Option Text
  | '\n' :: rest | '\r' :: '\n' :: rest => some rest
  | _ => none

def charOf? (code : Nat) : Option Char :=
  if code.isValidChar then some (Char.ofNat code) else none

def hexChar? (digits : Text) : Option Char := do
  let values ← digits.mapM Json.hexValue?
  charOf? (values.foldl (fun n d => n * 16 + d) 0)

def readEscape : Text → Option (Char × Text)
  | 'b' :: rest => some ('\x08', rest)
  | 't' :: rest => some ('\t', rest)
  | 'n' :: rest => some ('\n', rest)
  | 'f' :: rest => some ('\x0c', rest)
  | 'r' :: rest => some ('\r', rest)
  | 'e' :: rest => some ('\x1b', rest)
  | '"' :: rest => some ('"', rest)
  | '\\' :: rest => some ('\\', rest)
  | 'x' :: rest => hex 2 rest
  | 'u' :: rest => hex 4 rest
  | 'U' :: rest => hex 8 rest
  | _ => none
where
  hex (count : Nat) (s : Text) : Option (Char × Text) :=
    if s.length < count then none else (hexChar? (s.take count)).map fun c => (c, s.drop count)

def skipBlankLines : Text → Text
  | '\r' :: '\n' :: rest => skipBlankLines rest
  | c :: rest => if isBlank c || c = '\n' then skipBlankLines rest else c :: rest
  | [] => []

/-- What follows a backslash at the end of a line: all blanks and line ends are skipped. Nothing if the line
goes on. -/
def foldLine? (s : Text) : Option Text :=
  (lineEnd? (skipBlanks s)).map skipBlankLines

def readQuoted : (fuel : Nat) → Text → Option (Text × Text)
  | 0, _ | _, [] => none
  | _, '"' :: rest => some ([], rest)
  | fuel + 1, '\\' :: rest => do
    let (c, rest) ← readEscape rest
    let (s, rest) ← readQuoted fuel rest
    return (c :: s, rest)
  | fuel + 1, c :: rest => do
    if isControl c then none
    let (s, rest) ← readQuoted fuel rest
    return (c :: s, rest)

def readLiteral : Text → Option (Text × Text)
  | [] => none
  | '\'' :: rest => some ([], rest)
  | c :: rest => do
    if isControl c then none
    let (s, rest) ← readLiteral rest
    return (c :: s, rest)

/-- The end of a string on several lines: three quotes, and up to two in front that belong to the string. -/
def closing? (quote : Char) (s : Text) : Option (Text × Text) :=
  let quotes := min (s.takeWhile (· = quote)).length 5
  if quotes < 3 then none else some (List.replicate (quotes - 3) quote, s.drop quotes)

/-- The characters of a string on several lines. Line ends stay as they are. `escapes` tells whether a
backslash begins an escape. Each step takes one unit of fuel. -/
def readLong (quote : Char) (escapes : Bool) : (fuel : Nat) → Text → Option (Text × Text)
  | 0, _ | _, [] => none
  | fuel + 1, c :: rest =>
    match closing? quote (c :: rest), lineEnd? (c :: rest) with
    | some done, _ => some done
    | none, some behind => do
      let (s, behind) ← readLong quote escapes fuel behind
      return (if c = '\r' then ('\r' :: '\n' :: s, behind) else ('\n' :: s, behind))
    | none, none =>
      if escapes && c = '\\' then
        match foldLine? rest with
        | some rest => readLong quote escapes fuel rest
        | none => do
          let (c, rest) ← readEscape rest
          let (s, rest) ← readLong quote escapes fuel rest
          return (c :: s, rest)
      else if isControl c then none
      else (readLong quote escapes fuel rest).map fun (s, rest) => (c :: s, rest)

def readLongBody (quote : Char) (escapes : Bool) (s : Text) : Option (Text × Text) :=
  let s := (lineEnd? s).getD s
  readLong quote escapes (s.length + 1) s

def readString : Text → Option (Text × Text)
  | '"' :: '"' :: '"' :: rest => readLongBody '"' true rest
  | '\'' :: '\'' :: '\'' :: rest => readLongBody '\'' false rest
  | '"' :: rest => readQuoted (rest.length + 1) rest
  | '\'' :: rest => readLiteral rest
  | _ => none

end LicenseHeaders.Toml
