import LicenseHeaders.Decimal
import LicenseHeaders.Json.Reader
import Mathlib.Data.List.TakeWhile

namespace LicenseHeaders

namespace Text

def Spells (s : Text) (n : Nat) : Prop :=
  s ≠ [] ∧ (∀ c ∈ s, c.isDigit = true) ∧ Nat.ofDigitChars 10 s 0 = n

theorem ofNat_ne_nil (n : Nat) : ofNat n ≠ [] :=
  Nat.toDigits_ne_nil

theorem isDigit_of_mem_ofNat {n : Nat} {c : Char} (member : c ∈ ofNat n) : c.isDigit = true :=
  Nat.isDigit_of_mem_toDigits (by decide) (by decide) member

theorem spells_ofNat (n : Nat) : (ofNat n).Spells n :=
  ⟨ofNat_ne_nil n, fun _ member => isDigit_of_mem_ofNat member, Nat.ofDigitChars_toDigits (by decide) (by decide)⟩

theorem head?_ofNat {n : Nat} (positive : n ≠ 0) : (ofNat n).head? ≠ some '0' := by
  induction n using Nat.strongRecOn with
  | ind n ih =>
    by_cases small : n < 10
    · have cases : n = 1 ∨ n = 2 ∨ n = 3 ∨ n = 4 ∨ n = 5 ∨ n = 6 ∨ n = 7 ∨ n = 8 ∨ n = 9 := by omega
      rcases cases with rfl | rfl | rfl | rfl | rfl | rfl | rfl | rfl | rfl <;> decide
    · have front := ih (n / 10) (by omega) (by omega)
      have digits : ofNat n = ofNat (n / 10) ++ [(n % 10).digitChar] := Nat.toDigits_of_base_le (by decide) (by omega)
      obtain ⟨c, tail, spelled⟩ := List.exists_cons_of_ne_nil (ofNat_ne_nil (n / 10))
      rw [spelled] at front
      rw [digits, spelled]
      exact front

theorem mem_hundredths {b : Binary} {c : Char} (member : c ∈ Decimal.hundredths b) : c.isDigit = true ∨ c = '.' := by
  unfold Decimal.hundredths padZeros at member
  rcases List.mem_append.mp member with whole | rest
  · exact Or.inl (isDigit_of_mem_ofNat whole)
  rcases List.mem_cons.mp rest with point | places
  · exact Or.inr point
  rcases List.mem_append.mp places with zero | digit
  · obtain rfl := List.eq_of_mem_replicate zero
    exact Or.inl rfl
  · exact Or.inl (isDigit_of_mem_ofNat digit)

end Text

namespace Json

def Digits (s : Text) : Prop :=
  s ≠ [] ∧ ∀ c ∈ s, c.isDigit = true

def Whole (s : Text) : Prop :=
  s = ['0'] ∨ Digits s ∧ s.head? ≠ some '0'

def Fraction (s : Text) : Prop :=
  s = [] ∨ ∃ digits, Digits digits ∧ s = '.' :: digits

def Exponent (s : Text) : Prop :=
  s = [] ∨ ∃ power : Int, s = 'e' :: Text.ofInt power

/-- Behind a number: nothing that would go on with it. -/
def Ends (rest : Text) : Prop :=
  ∀ c ∈ rest.head?, c.isDigit = false ∧ c ≠ '.' ∧ c ≠ 'e' ∧ c ≠ 'E'

structure Numeral (literal : Text) : Prop where
  begins : ∃ c tail, literal = c :: tail ∧ (c = '-' ∨ c.isDigit = true)
  read : ∀ rest, Ends rest → readNumber (literal ++ rest) = some (literal, rest)

variable {s rest whole fraction exponent : Text}

theorem ends_nil : Ends [] := by
  intro c member
  cases member

theorem ends_cons {c : Char} (plain : c.isDigit = false ∧ c ≠ '.' ∧ c ≠ 'e' ∧ c ≠ 'E') (rest : Text) :
    Ends (c :: rest) := by
  intro d member
  cases member
  exact plain

theorem digits_ofNat (n : Nat) : Digits (Text.ofNat n) :=
  ⟨Text.ofNat_ne_nil n, fun _ member => Text.isDigit_of_mem_ofNat member⟩

theorem whole_ofNat (n : Nat) : Whole (Text.ofNat n) := by
  by_cases zero : n = 0
  · subst zero
    exact Or.inl rfl
  · exact Or.inr ⟨digits_ofNat n, Text.head?_ofNat zero⟩

theorem Digits.head?_ne {c : Char} (digits : Digits s) (plain : c.isDigit = false) : s.head? ≠ some c := by
  intro head
  have digit := digits.2 c (List.mem_of_head? head)
  rw [plain] at digit
  cases digit

theorem readDigits_append (digits : Digits s) (after : ∀ c ∈ rest.head?, c.isDigit = false) :
    readDigits (s ++ rest) = some (s, rest) := by
  have none : rest.takeWhile Char.isDigit = [] ∧ rest.dropWhile Char.isDigit = rest := by
    cases rest with
    | nil => exact ⟨rfl, rfl⟩
    | cons c rest => simp [after c rfl]
  rw [readDigits, List.takeWhile_append_of_pos digits.2, List.dropWhile_append_of_pos digits.2, none.1, none.2]
  simp [digits.1]

theorem readWhole_append (number : Whole s) (after : ∀ c ∈ rest.head?, c.isDigit = false) :
    readWhole (s ++ rest) = some (s, rest) := by
  rcases number with rfl | ⟨digits, head⟩
  · cases rest with
    | nil => rfl
    | cons c rest => simp [readWhole, after c rfl]
  · obtain ⟨c, tail, rfl⟩ := List.exists_cons_of_ne_nil digits.1
    have noZero : c ≠ '0' := by simpa using head
    rw [List.cons_append, readWhole]
    · exact readDigits_append digits after
    · intro tail same
      exact noZero (List.cons.inj same).1

theorem readFraction_append (number : Fraction s) (after : ∀ c ∈ rest.head?, c.isDigit = false ∧ c ≠ '.') :
    readFraction (s ++ rest) = some (s, rest) := by
  rcases number with rfl | ⟨digits, all, rfl⟩
  · cases rest with
    | nil => rfl
    | cons c rest => simp [readFraction, (after c rfl).2]
  · simp [readFraction, readDigits_append all fun c member => (after c member).1]

theorem readExponent_append (number : Exponent s) (after : Ends rest) : readExponent (s ++ rest) = some (s, rest) := by
  rcases number with rfl | ⟨power, rfl⟩
  · cases rest with
    | nil => rfl
    | cons c rest => simp [readExponent, after c rfl]
  have read (n : Nat) : readDigits (Text.ofNat n ++ rest) = some (Text.ofNat n, rest) :=
    readDigits_append (digits_ofNat n) fun c member => (after c member).1
  cases power with
  | negSucc n => simp [readExponent, readExponent.behindMark, Text.ofInt, read]
  | ofNat n =>
    have digits := digits_ofNat n
    obtain ⟨c, tail, spelled⟩ := List.exists_cons_of_ne_nil digits.1
    have noSign : c ≠ '+' ∧ c ≠ '-' := by
      have plus := digits.head?_ne (c := '+') rfl
      have minus := digits.head?_ne (c := '-') rfl
      rw [spelled] at plus minus
      exact ⟨by simpa using plus, by simpa using minus⟩
    have read := read n
    rw [spelled, List.cons_append] at read
    simp [readExponent, readExponent.behindMark, Text.ofInt, spelled, noSign, read]

theorem readMagnitude_append (w : Whole whole) (f : Fraction fraction) (e : Exponent exponent) (after : Ends rest) :
    readMagnitude (whole ++ fraction ++ exponent ++ rest) = some (whole ++ fraction ++ exponent, rest) := by
  have afterFraction : ∀ c ∈ (exponent ++ rest).head?, c.isDigit = false ∧ c ≠ '.' := by
    intro c member
    rcases e with rfl | ⟨power, rfl⟩
    · exact ⟨(after c member).1, (after c member).2.1⟩
    · cases member
      decide
  have afterWhole : ∀ c ∈ (fraction ++ (exponent ++ rest)).head?, c.isDigit = false := by
    intro c member
    rcases f with rfl | ⟨digits, -, rfl⟩
    · exact (afterFraction c member).1
    · cases member
      decide
  rw [List.append_assoc, List.append_assoc, readMagnitude, readWhole_append w afterWhole]
  simp [readFraction_append f afterFraction, readExponent_append e after]

theorem Whole.begins (number : Whole whole) (more : Text) :
    ∃ c tail, whole ++ more = c :: tail ∧ c.isDigit = true := by
  rcases number with rfl | ⟨⟨full, digits⟩, -⟩
  · exact ⟨'0', more, rfl, rfl⟩
  · obtain ⟨c, tail, rfl⟩ := List.exists_cons_of_ne_nil full
    exact ⟨c, tail ++ more, rfl, digits c List.mem_cons_self⟩

theorem numeral_of_parts (w : Whole whole) (f : Fraction fraction) (e : Exponent exponent) :
    Numeral (whole ++ fraction ++ exponent) := by
  obtain ⟨c, tail, spelled, digit⟩ := w.begins (fraction ++ exponent)
  rw [← List.append_assoc] at spelled
  refine ⟨⟨c, tail, spelled, Or.inr digit⟩, fun rest after => ?_⟩
  rw [← readMagnitude_append w f e after, spelled, List.cons_append, readNumber]
  intro tail same
  obtain ⟨rfl, -⟩ := List.cons.inj same
  cases digit

theorem numeral_ofNat (n : Nat) : Numeral (Text.ofNat n) := by
  have number := numeral_of_parts (whole_ofNat n) (Or.inl rfl : Fraction []) (Or.inl rfl : Exponent [])
  simpa using number

theorem numeral_ofInt (n : Int) : Numeral (Text.ofInt n) := by
  cases n with
  | ofNat n => exact numeral_ofNat n
  | negSucc n =>
    refine ⟨⟨'-', _, rfl, Or.inl rfl⟩, fun rest after => ?_⟩
    have magnitude :=
      readMagnitude_append (whole_ofNat (n + 1)) (Or.inl rfl : Fraction []) (Or.inl rfl : Exponent []) after
    simp only [List.append_nil] at magnitude
    simp [Text.ofInt, readNumber, magnitude]

theorem Digits.take {n : Nat} (digits : Digits s) (positive : n ≠ 0) : Digits (s.take n) := by
  refine ⟨?_, fun c member => digits.2 c (List.mem_of_mem_take member)⟩
  simp [List.take_eq_nil_iff, positive, digits.1]

theorem Digits.drop {n : Nat} (digits : Digits s) (short : n < s.length) : Digits (s.drop n) := by
  refine ⟨?_, fun c member => digits.2 c (List.mem_of_mem_drop member)⟩
  simpa [List.drop_eq_nil_iff] using short

theorem Digits.append_zeros (digits : Digits s) (n : Nat) : Digits (s ++ List.replicate n '0') := by
  refine ⟨by simp [digits.1], fun c member => ?_⟩
  rcases List.mem_append.mp member with digit | zero
  · exact digits.2 c digit
  · obtain rfl := List.eq_of_mem_replicate zero
    rfl

theorem Digits.zeros_append (digits : Digits s) (n : Nat) : Digits (List.replicate n '0' ++ s) := by
  refine ⟨by simp [digits.1], fun c member => ?_⟩
  rcases List.mem_append.mp member with zero | digit
  · obtain rfl := List.eq_of_mem_replicate zero
    rfl
  · exact digits.2 c digit

theorem fraction_of_digits (digits : Digits s) : Fraction ('.' :: s) :=
  Or.inr ⟨s, digits, rfl⟩

theorem whole_take {n : Nat} (digits : Digits s) (lead : s.head? ≠ some '0') (positive : n ≠ 0) : Whole (s.take n) := by
  refine Or.inr ⟨digits.take positive, ?_⟩
  rw [List.head?_take, if_neg positive]
  exact lead

theorem whole_append_zeros (digits : Digits s) (lead : s.head? ≠ some '0') (n : Nat) :
    Whole (s ++ List.replicate n '0') := by
  obtain ⟨c, tail, rfl⟩ := List.exists_cons_of_ne_nil digits.1
  exact Or.inr ⟨digits.append_zeros n, lead⟩

theorem numeral_decimal (d : Decimal) : Numeral d.text := by
  have tenth : Fraction ['.', '0'] := fraction_of_digits (digits_ofNat 0)
  have noExponent : Exponent [] := Or.inl rfl
  unfold Decimal.text
  dsimp only
  by_cases zero : d.digits = 0
  · rw [if_pos zero]
    exact numeral_of_parts (Or.inl rfl : Whole ['0']) tenth noExponent
  rw [if_neg zero]
  have digits := digits_ofNat d.digits
  have lead := Text.head?_ofNat zero
  generalize Text.ofNat d.digits = s at digits lead
  have full : s.length ≠ 0 := by simpa using digits.1
  -- Where the point stands, counted from the first digit.
  generalize place : (s.length : Int) + d.exponent = n
  split
  · simpa using numeral_of_parts (whole_append_zeros digits lead d.exponent.toNat) tenth noExponent
  · split
    · have cut : n.toNat ≠ 0 := by omega
      have short : n.toNat < s.length := by omega
      simpa using numeral_of_parts (whole_take digits lead cut) (fraction_of_digits (digits.drop short)) noExponent
    · split
      · have fraction := fraction_of_digits (digits.zeros_append (-n).toNat)
        simpa using numeral_of_parts (Or.inl rfl : Whole ['0']) fraction noExponent
      · have exponent : Exponent ('e' :: Text.ofInt (n - 1)) := Or.inr ⟨_, rfl⟩
        have fraction : Fraction (if (s.drop 1).isEmpty then [] else '.' :: s.drop 1) := by
          split
          · exact Or.inl rfl
          · rename_i more
            have short : 1 < s.length := by
              rw [List.isEmpty_iff, List.drop_eq_nil_iff] at more
              omega
            exact fraction_of_digits (digits.drop short)
        simpa using numeral_of_parts (whole_take digits lead (by decide : 1 ≠ 0)) fraction exponent

end Json

end LicenseHeaders
