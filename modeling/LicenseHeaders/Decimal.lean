import LicenseHeaders.Text.Lines

namespace LicenseHeaders

namespace Decimal

/-- The nearest whole number to a quotient; a half goes to the even neighbour. -/
def roundDiv (num den : Nat) : Nat :=
  let whole := num / den
  let rest := num % den
  if den < 2 * rest ∨ (2 * rest = den ∧ whole % 2 = 1) then whole + 1 else whole

end Decimal

namespace Text

def ofNat (n : Nat) : Text :=
  Nat.toDigits 10 n

def ofInt : Int → Text
  | .ofNat n => ofNat n
  | .negSucc n => '-' :: ofNat (n + 1)

def padZeros (width : Nat) (s : Text) : Text :=
  List.replicate (width - s.length) '0' ++ s

end Text

/-- The number `mantissa · 2 ^ exponent`. -/
structure Binary where
  mantissa : Nat
  exponent : Int
deriving DecidableEq, Repr

namespace Binary

def precision : Nat := 53

def numerator (b : Binary) : Nat :=
  b.mantissa * Nat.pow 2 b.exponent.toNat

def denominator (b : Binary) : Nat :=
  Nat.pow 2 (-b.exponent).toNat

def scaled (num den : Nat) (exponent : Int) : Nat × Nat :=
  (num * Nat.pow 2 (-exponent).toNat, den * Nat.pow 2 exponent.toNat)

def normal (b : Binary) : Binary :=
  if b.mantissa = Nat.pow 2 precision then ⟨Nat.pow 2 (precision - 1), b.exponent + 1⟩ else b

def nearest (num den : Nat) : Binary :=
  if num = 0 then ⟨0, 0⟩
  else
    let low : Int := (num.log2 : Int) - den.log2 - precision
    let (n, d) := scaled num den low
    let exponent := if n / d < Nat.pow 2 precision then low else low + 1
    let (n, d) := scaled num den exponent
    normal ⟨Decimal.roundDiv n d, exponent⟩

def addNat (b : Binary) (n : Nat) : Binary :=
  nearest (n * b.denominator + b.numerator) b.denominator

end Binary

structure Decimal where
  digits : Nat
  exponent : Int
deriving DecidableEq, Repr

namespace Decimal

/-- The places in front of the point of a quotient: its value lies between `10 ^ (places - 1)` and
`10 ^ places`. Not positive below one tenth. -/
def places (num den : Nat) : Int :=
  if den ≤ num then (Nat.toDigits 10 (num / den)).length
  else
    let ratio := (num + den - 1) / num - 1
    if ratio = 0 then 0 else 1 - ((Nat.toDigits 10 ratio).length : Int)

/-- The limits within which a number rounds to a given binary number, in quarters of its last binary place,
and whether the limits themselves do. The place below a power of two is half as wide as the one above. -/
structure Interval where
  low : Nat
  high : Nat
  closed : Bool

def interval (b : Binary) : Interval where
  low := if b.mantissa = Nat.pow 2 (Binary.precision - 1) then 4 * b.mantissa - 1 else 4 * b.mantissa - 2
  high := 4 * b.mantissa + 2
  closed := b.mantissa % 2 = 0

def readsBack (b : Binary) (d : Decimal) : Bool :=
  let i := interval b
  let quarters := 4 * d.digits * Nat.pow 10 d.exponent.toNat * b.denominator
  let unit := Nat.pow 2 b.exponent.toNat * Nat.pow 10 (-d.exponent).toNat
  (i.low * unit < quarters && quarters < i.high * unit) ||
    (i.closed && (i.low * unit == quarters || quarters == i.high * unit))

/-- The decimal numbers with a given exponent next to a binary number, the nearest first. -/
def neighbours (b : Binary) (exponent : Int) : List Decimal :=
  let num := b.numerator * Nat.pow 10 (-exponent).toNat
  let den := b.denominator * Nat.pow 10 exponent.toNat
  [roundDiv num den, num / den, num / den + 1].map (⟨·, exponent⟩)

def search (b : Binary) (count : Nat) : (more : Nat) → Decimal
  | 0 => ⟨roundDiv b.numerator b.denominator, 0⟩
  | more + 1 =>
    match (neighbours b (places b.numerator b.denominator - count)).find? (readsBack b) with
    | some d => d
    | none => search b (count + 1) more

def stripZeros (d : Decimal) : (limit : Nat) → Decimal
  | 0 => d
  | limit + 1 =>
    if d.digits ≠ 0 ∧ d.digits % 10 = 0 then stripZeros ⟨d.digits / 10, d.exponent + 1⟩ limit else d

def shortest (b : Binary) : Decimal :=
  if b.mantissa = 0 then ⟨0, 0⟩ else stripZeros (search b 1 17) 17

/-- Positional from `10 ^ -5` up to below `10 ^ 16`, with at least one digit on either side of the point;
otherwise one digit, a point if more follow, and the exponent. -/
def text (d : Decimal) : Text :=
  let digits := Text.ofNat d.digits
  let point : Int := digits.length + d.exponent
  if d.digits = 0 then ['0', '.', '0']
  else if 0 ≤ d.exponent ∧ point ≤ 16 then
    digits ++ List.replicate d.exponent.toNat '0' ++ ['.', '0']
  else if 0 < point ∧ point ≤ 16 then digits.take point.toNat ++ '.' :: digits.drop point.toNat
  else if -5 < point ∧ point ≤ 0 then '0' :: '.' :: List.replicate (-point).toNat '0' ++ digits
  else
    let fraction := digits.drop 1
    digits.take 1 ++ (if fraction.isEmpty then [] else '.' :: fraction) ++ 'e' :: Text.ofInt (point - 1)

/-- Two digits behind the point, the exact value rounded; a half goes to the even neighbour. -/
def hundredths (b : Binary) : Text :=
  let n := roundDiv (b.numerator * 100) b.denominator
  Text.ofNat (n / 100) ++ '.' :: Text.padZeros 2 (Text.ofNat (n % 100))

end Decimal

structure Duration where
  nanoseconds : Nat
deriving DecidableEq, Repr

namespace Duration

/-- The seconds as a binary number: the fraction of a second is rounded first, then the sum. -/
def seconds (d : Duration) : Binary :=
  (Binary.nearest (d.nanoseconds % 1000000000) 1000000000).addNat (d.nanoseconds / 1000000000)

def exactText (d : Duration) : Text :=
  (Decimal.shortest d.seconds).text

def shortText (d : Duration) : Text :=
  Decimal.hundredths d.seconds

end Duration

end LicenseHeaders
