import LicenseHeaders.Text.Lines

namespace LicenseHeaders

namespace Text

def contains : (s : Text) → (needle : Text) → Bool
  | [], needle => needle.isEmpty
  | c :: rest, needle => needle.isPrefixOf (c :: rest) || contains rest needle

theorem contains_iff {s needle : Text} : s.contains needle = true ↔ needle <:+: s := by
  induction s with
  | nil => simp [contains]
  | cons c rest ih => simp [contains, ih, List.infix_cons_iff]

/-- The pieces between the occurrences of a separator. There is always one more piece than separators. -/
def splitAt (sep : Char) : Text → List Text
  | [] => [[]]
  | c :: rest =>
    if c = sep then [] :: splitAt sep rest
    else
      match splitAt sep rest with
      | [] => [[c]]
      | piece :: others => (c :: piece) :: others

def joinWith (sep : Char) : List Text → Text
  | [] => []
  | [piece] => piece
  | piece :: others => piece ++ sep :: joinWith sep others

def substitute (s : Text) (c : Char) (replacement : Text) : Text :=
  s.flatMap fun d => if d = c then replacement else [d]

def dropTrailing (p : Char → Bool) (s : Text) : Text :=
  (s.reverse.dropWhile p).reverse

def stripEnd? (ending s : Text) : Option Text :=
  if ending.isSuffixOf s then some (s.take (s.length - ending.length)) else none

def stripStart? : Text → Text → Option Text
  | [], s => some s
  | _ :: _, [] => none
  | c :: beginning, d :: s => if c = d then stripStart? beginning s else none

def lowerAscii (s : Text) : Text :=
  s.map Char.toLower

/-- The ranges of `White_Space`, both ends included. -/
def blankRanges : List (Nat × Nat) :=
  [(0x09, 0x0D), (0x20, 0x20), (0x85, 0x85), (0xA0, 0xA0), (0x1680, 0x1680), (0x2000, 0x200A),
    (0x2028, 0x2029), (0x202F, 0x202F), (0x205F, 0x205F), (0x3000, 0x3000)]

def isBlankChar (c : Char) : Bool :=
  blankRanges.any fun (low, high) => low ≤ c.toNat && c.toNat ≤ high

def trimStart (s : Text) : Text :=
  s.dropWhile isBlankChar

def trimEnd (s : Text) : Text :=
  dropTrailing isBlankChar s

def trim (s : Text) : Text :=
  trimEnd (trimStart s)

def isBlank (s : Text) : Bool :=
  s.all isBlankChar

end Text

end LicenseHeaders
