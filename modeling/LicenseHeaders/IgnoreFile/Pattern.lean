import LicenseHeaders.Text.Lines

namespace LicenseHeaders.IgnoreFile

abbrev Bytes := List UInt8

def slash : UInt8 := 0x2F

inductive Part
  | literal (c : Char)
  | anyByte
  | anyName
  /-- Two stars in front: nothing, a slash, or anything up to and with a slash. -/
  | leading
  /-- Two stars at the end: a slash and anything behind it. -/
  | trailing
  /-- Two stars between slashes: a slash, or two slashes and anything between them. -/
  | between
  | ofClass (negated : Bool) (ranges : List (Char × Char))
  | choice (branches : List (List Part))
deriving Repr

/-- The ranges of bytes that a range of characters stands for when it is written byte by byte. -/
def byteRanges : Char × Char → List (UInt8 × UInt8)
  | (low, high) =>
    let single (b : UInt8) := (b, b)
    if low = high then (String.utf8EncodeChar low).map single
    else
      match (String.utf8EncodeChar low).reverse, String.utf8EncodeChar high with
      | last :: front, first :: behind => front.reverse.map single ++ (last, first) :: behind.map single
      | _, _ => []

def classHolds (ranges : List (Char × Char)) (b : UInt8) : Bool :=
  (ranges.flatMap byteRanges).any fun (low, high) => low ≤ b && b ≤ high

def behindSlashes : Bytes → List Bytes
  | [] => []
  | b :: rest => if b = slash then rest :: behindSlashes rest else behindSlashes rest

def behindNames : Bytes → List Bytes
  | [] => [[]]
  | b :: rest => (b :: rest) :: if b = slash then [] else behindNames rest

def behindAny : Bytes → List Bytes
  | [] => [[]]
  | b :: rest => (b :: rest) :: behindAny rest

def behindFirstSlash : Bytes → List Bytes
  | b :: rest => if b = slash then [rest] else []
  | [] => []

def behindBytes (bs s : Bytes) : List Bytes :=
  if bs.isPrefixOf s then [s.drop bs.length] else []

mutual

def Part.rests : Part → Bytes → List Bytes
  | .literal c, s => behindBytes (String.utf8EncodeChar c) s
  | .anyByte, s =>
    match s with
    | b :: rest => if b = slash then [] else [rest]
    | [] => []
  | .anyName, s => behindNames s
  | .leading, s => s :: behindSlashes s
  | .trailing, s => (behindFirstSlash s).flatMap behindAny
  | .between, s => (behindFirstSlash s).flatMap fun rest => rest :: behindSlashes rest
  | .ofClass negated ranges, s =>
    match s with
    | b :: rest => if classHolds ranges b = negated then [] else [rest]
    | [] => []
  | .choice [], s => [s]
  | .choice branches, s => choiceRests branches s

def rowRests : List Part → Bytes → List Bytes
  | [], s => [s]
  | p :: ps, s => ((p.rests s).flatMap (rowRests ps)).eraseDups

def choiceRests : List (List Part) → Bytes → List Bytes
  | [], _ => []
  | row :: rows, s => rowRests row s ++ choiceRests rows s

end

/-- A pattern of two leading stars only matches every path. -/
def fits (parts : List Part) (s : Bytes) : Bool :=
  match parts with
  | [.leading] => true
  | _ => (rowRests parts s).any List.isEmpty

end LicenseHeaders.IgnoreFile
