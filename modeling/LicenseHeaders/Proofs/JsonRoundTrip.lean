import LicenseHeaders.Json
import LicenseHeaders.Proofs.Numerals

namespace LicenseHeaders.Json

/-- Nothing in the value is garbled, and its numbers are numbers. -/
inductive Clean : Json → Prop
  | null : Clean .null
  | bool (b : Bool) : Clean (.bool b)
  | number {literal : Text} : Numeral literal → Clean (.number literal)
  | string (s : Text) : Clean (.string s)
  | array {items : List Json} : (∀ v ∈ items, Clean v) → Clean (.array items)
  | object {members : List (Text × Json)} : (∀ m ∈ members, Clean m.2) → Clean (.object members)

variable {s s' rest literal : Text} {v : Json} {fuel level : Nat} {items : List Json}
  {members : List (Text × Json)}

theorem hexValue?_hexDigit (n : Nat) : hexValue? (hexDigit n) = some (n % 16) := by
  have all : ∀ d < 16, hexValue? (Nat.digitChar d) = some d := by decide
  exact all (n % 16) (Nat.mod_lt n (by decide))

theorem hex4?_small {n : Nat} (small : n < 0x20) : hex4? '0' '0' (hexDigit (n / 16)) (hexDigit n) = some n := by
  have zero : hexValue? '0' = some 0 := rfl
  simp only [hex4?, zero, hexValue?_hexDigit, Option.bind_eq_bind, Option.bind_some, Option.pure_def]
  congr 1
  omega

theorem unescape?_of_shortEscapes : ∀ escape ∈ shortEscapes, unescape? escape.2 = some escape.1 := by
  decide

theorem readString_letter {letter c : Char} (known : unescape? letter = some c) (rest : Text) :
    readString ('\\' :: letter :: rest) = (readString rest).map fun (contents, rest) => (contents.push c, rest) := by
  have noCode : letter ≠ 'u' := by
    rintro rfl
    cases known
  rw [readString, known]
  · intro _ _ _ _ _ _ _ _ _ same
    exact absurd same noCode
  · intro _ _ _ _ _ same
    exact absurd same noCode

theorem readString_code {c : Char} (small : c.toNat < 0x20) (rest : Text) :
    readString ('\\' :: 'u' :: '0' :: '0' :: hexDigit (c.toNat / 16) :: hexDigit c.toNat :: rest) =
      (readString rest).map fun (contents, rest) => (contents.push c, rest) := by
  have code := hex4?_small small
  have high : isHighSurrogate c.toNat = false := by
    simp only [isHighSurrogate, Bool.and_eq_false_iff, decide_eq_false_iff_not]
    omega
  have low : isLowSurrogate c.toNat = false := by
    simp only [isLowSurrogate, Bool.and_eq_false_iff, decide_eq_false_iff_not]
    omega
  -- Another code may follow, but the two make no pair.
  have noPair (e f g h : Char) : pair? '0' '0' (hexDigit (c.toNat / 16)) (hexDigit c.toNat) e f g h = none := by
    simp only [pair?, code, high, Bool.false_and, Bool.false_eq_true, if_false, Option.bind_eq_bind, Option.bind_some]
    cases hex4? e f g h <;> rfl
  have unit (following : Option (Contents × Text)) :
      readString.readUnit '0' '0' (hexDigit (c.toNat / 16)) (hexDigit c.toNat) following =
        following.map fun (contents, rest) => (contents.push c, rest) := by
    simp [readString.readUnit, code, high, low, Char.ofNat_toNat]
  by_cases another : ∃ e f g h more, rest = '\\' :: 'u' :: e :: f :: g :: h :: more
  · obtain ⟨e, f, g, h, more, rfl⟩ := another
    rw [readString, noPair]
    exact unit _
  · rw [readString]
    · exact unit _
    · intro e f g h more same
      exact another ⟨e, f, g, h, more, same⟩

theorem readString_plain {c : Char} (quote : c ≠ '"') (slash : c ≠ '\\') (printable : ¬ c.toNat < 0x20) (rest : Text) :
    readString (c :: rest) = (readString rest).map fun (contents, rest) => (contents.push c, rest) := by
  rw [readString, if_neg (by simp [printable, slash])]
  · exact quote
  · intro _ _ _ _ _ _ _ _ _ same
    exact absurd same slash
  · intro _ _ _ _ _ same
    exact absurd same slash
  · intro _ _ same
    exact absurd same slash

theorem readString_escapeChar (c : Char) (rest : Text) :
    readString (escapeChar c ++ rest) = (readString rest).map fun (contents, rest) => (contents.push c, rest) := by
  unfold escapeChar
  cases found : shortEscapes.lookup c with
  | some letter =>
    have member : (c, letter) ∈ shortEscapes := by
      obtain ⟨before, after, cut, -⟩ := List.lookup_eq_some_iff.mp found
      rw [cut]
      exact List.mem_append_right before List.mem_cons_self
    exact readString_letter (unescape?_of_shortEscapes _ member) rest
  | none =>
    have apart := List.lookup_eq_none_iff.mp found
    have quote : c ≠ '"' := by simpa using apart ('"', '"') (by decide)
    have slash : c ≠ '\\' := by simpa using apart ('\\', '\\') (by decide)
    dsimp only
    split
    · rename_i small
      exact readString_code small rest
    · rename_i printable
      exact readString_plain quote slash printable rest

theorem readString_escaped (s rest : Text) :
    readString (s.flatMap escapeChar ++ '"' :: rest) = some (some s, rest) := by
  induction s with
  | nil => rfl
  | cons c s ih =>
    rw [List.flatMap_cons, List.append_assoc, readString_escapeChar, ih]
    rfl

theorem skipSpace_append {blank : Text} (blanks : ∀ c ∈ blank, isSpace c = true) (s : Text) :
    skipSpace (blank ++ s) = skipSpace s :=
  List.dropWhile_append_of_pos blanks

theorem skipSpace_newLine (level : Nat) (s : Text) : skipSpace (newLine level ++ s) = skipSpace s := by
  apply skipSpace_append
  intro c member
  rcases List.mem_cons.mp member with rfl | blank
  · rfl
  · obtain rfl := List.eq_of_mem_replicate blank
    rfl

theorem skipSpace_cons {c : Char} (solid : isSpace c = false) (s : Text) : skipSpace (c :: s) = c :: s :=
  List.dropWhile_cons_of_neg (by simp [solid])

theorem readValue_congr (same : skipSpace s = skipSpace s') : readValue fuel s = readValue fuel s' := by
  cases fuel with
  | zero => rfl
  | succ fuel => rw [readValue, readValue, same]

theorem readItems_congr (same : skipSpace s = skipSpace s') : readItems fuel s = readItems fuel s' := by
  cases fuel with
  | zero => rfl
  | succ fuel => rw [readItems, readItems, readValue_congr same]

theorem readMembers_congr (same : skipSpace s = skipSpace s') : readMembers fuel s = readMembers fuel s' := by
  cases fuel with
  | zero => rfl
  | succ fuel => rw [readMembers, readMembers, same]

theorem prettyItems_eq (level : Nat) (items : List Json) : prettyItems level items = items.map (pretty level) := by
  induction items with
  | nil => rfl
  | cons v items ih => rw [prettyItems, ih, List.map_cons]

def prettyMember (level : Nat) (m : Text × Json) : Text :=
  quoted m.1 ++ ':' :: ' ' :: pretty level m.2

theorem prettyMembers_eq (level : Nat) (members : List (Text × Json)) :
    prettyMembers level members = members.map (prettyMember level) := by
  induction members with
  | nil => rfl
  | cons m members ih => rw [prettyMembers, ih, List.map_cons, prettyMember]

theorem ofMembers_plain (members : List (Text × Json)) :
    ofMembers (members.map fun m => (some m.1, m.2)) = .object members := by
  have kept : (members.map fun m => ((some m.1 : Contents), m.2)).mapM
      (fun (key, v) => key.map fun k => (k, v)) = some members := by
    induction members with
    | nil => rfl
    | cons m members ih => simp [List.mapM_cons, ih]
  rw [ofMembers, kept]

/-- The value is read back from its text wherever that ends, given as much fuel as the text is long. -/
def Reads (v : Json) : Prop :=
  ∀ level fuel rest, (pretty level v).length ≤ fuel → Ends rest →
    readValue fuel (pretty level v ++ rest) = some (v, rest)

theorem ends_newLine (level : Nat) (rest : Text) : Ends (newLine level ++ rest) :=
  ends_cons (by decide) _

theorem readItems_pretty (outer : Nat) (read : ∀ v ∈ items, Reads v) (full : items ≠ [])
    (enough : (separated (',' :: newLine level) (items.map (pretty level))).length < fuel) (rest : Text) :
    readItems fuel (separated (',' :: newLine level) (items.map (pretty level)) ++ (newLine outer ++ ']' :: rest)) =
      some (items, rest) := by
  induction items generalizing fuel with
  | nil => exact absurd rfl full
  | cons v items ih =>
    obtain ⟨fuel, rfl⟩ := Nat.exists_eq_succ_of_ne_zero (Nat.ne_zero_of_lt enough)
    have first := read v List.mem_cons_self level fuel
    cases items with
    | nil =>
      simp only [List.map_cons, List.map_nil, separated] at enough ⊢
      rw [readItems, first _ (by omega) (ends_newLine outer _)]
      simp only [skipSpace_newLine, skipSpace_cons (show isSpace ']' = false from rfl)]
    | cons w items =>
      have others := @ih fuel (fun w member => read w (List.mem_cons_of_mem v member)) (by simp)
      simp only [List.map_cons, separated, List.length_append, List.length_cons] at enough others
      simp only [List.map_cons, separated, List.append_assoc, List.cons_append]
      rw [readItems, first _ (by omega) (ends_cons (by decide) _)]
      simp only [skipSpace_cons (show isSpace ',' = false from rfl)]
      rw [readItems_congr (skipSpace_newLine level _), others (by omega)]
      rfl

variable {m : Text × Json} {after : Text}

theorem readMembers_member (read : Reads m.2) (short : (pretty level m.2).length ≤ fuel) (ends : Ends after) :
    (∀ {rest}, skipSpace after = '\x7d' :: rest →
      readMembers (fuel + 1) (prettyMember level m ++ after) = some ([(some m.1, m.2)], rest)) ∧
    ∀ {rest}, skipSpace after = ',' :: rest →
      readMembers (fuel + 1) (prettyMember level m ++ after) =
        (readMembers fuel rest).map fun (members, rest) => ((some m.1, m.2) :: members, rest) := by
  have spelled : prettyMember level m ++ after =
      '"' :: (m.1.flatMap escapeChar ++ '"' :: ':' :: ' ' :: (pretty level m.2 ++ after)) := by
    simp [prettyMember, quoted]
  have blank : readValue fuel (' ' :: (pretty level m.2 ++ after)) = readValue fuel (pretty level m.2 ++ after) :=
    readValue_congr rfl
  have value := blank.trans (read level fuel after short ends)
  rw [spelled, readMembers, skipSpace_cons rfl]
  constructor
  · intro rest closed
    simp only [readString_escaped, skipSpace_cons (show isSpace ':' = false from rfl), value, closed]
  · intro rest comma
    simp only [readString_escaped, skipSpace_cons (show isSpace ':' = false from rfl), value, comma]

theorem readMembers_pretty (outer : Nat) (read : ∀ m ∈ members, Reads m.2) (full : members ≠ [])
    (enough : (separated (',' :: newLine level) (members.map (prettyMember level))).length < fuel) (rest : Text) :
    readMembers fuel
        (separated (',' :: newLine level) (members.map (prettyMember level)) ++ (newLine outer ++ '\x7d' :: rest)) =
      some (members.map fun m => (some m.1, m.2), rest) := by
  induction members generalizing fuel with
  | nil => exact absurd rfl full
  | cons m members ih =>
    obtain ⟨fuel, rfl⟩ := Nat.exists_eq_succ_of_ne_zero (Nat.ne_zero_of_lt enough)
    have first := read m List.mem_cons_self
    cases members with
    | nil =>
      simp only [List.map_cons, List.map_nil, separated] at enough ⊢
      have short : (pretty level m.2).length ≤ fuel := by
        simp only [prettyMember, List.length_append, List.length_cons] at enough
        omega
      have closed : skipSpace (newLine outer ++ '\x7d' :: rest) = '\x7d' :: rest := by
        rw [skipSpace_newLine, skipSpace_cons rfl]
      exact (readMembers_member first short (ends_newLine outer _)).1 closed
    | cons n members =>
      have others := @ih fuel (fun n member => read n (List.mem_cons_of_mem m member)) (by simp)
      simp only [List.map_cons, separated, List.length_append, List.length_cons] at enough others
      have short : (pretty level m.2).length ≤ fuel := by
        simp only [prettyMember, List.length_append, List.length_cons] at enough
        omega
      simp only [List.map_cons, separated, List.append_assoc, List.cons_append]
      rw [(readMembers_member first short (ends_cons (by decide) _)).2 (skipSpace_cons rfl _),
        readMembers_congr (skipSpace_newLine level _), others (by omega)]
      rfl

theorem ne_of_begins {c : Char} (begins : c = '-' ∨ c.isDigit = true) {d : Char} (plain : d ≠ '-' ∧ d.isDigit = false) :
    c ≠ d := by
  rintro rfl
  rcases begins with minus | digit
  · exact plain.1 minus
  · rw [plain.2] at digit
    cases digit

theorem isSpace_of_begins {c : Char} (begins : c = '-' ∨ c.isDigit = true) : isSpace c = false := by
  have apart {d : Char} (plain : d ≠ '-' ∧ d.isDigit = false) := ne_of_begins begins plain
  simp only [isSpace, Bool.or_eq_false_iff, decide_eq_false_iff_not]
  exact ⟨⟨⟨apart (by decide), apart (by decide)⟩, apart (by decide)⟩, apart (by decide)⟩

theorem readValue_number (number : Numeral literal) (after : Ends rest) :
    readValue (fuel + 1) (literal ++ rest) = some (.number literal, rest) := by
  have read := number.read rest after
  obtain ⟨c, tail, rfl, begins⟩ := number.begins
  have apart {d : Char} (plain : d ≠ '-' ∧ d.isDigit = false) := ne_of_begins begins plain
  rw [List.cons_append] at read
  rw [List.cons_append, readValue, skipSpace_cons (isSpace_of_begins begins)]
  split
  case h_7 =>
    rw [read]
    rfl
  all_goals
    rename_i same
    exact absurd (List.cons.inj same).1 (apart (by decide))

theorem block_append {opening closing : Char} {pieces : List Text} (full : pieces ≠ []) (rest : Text) :
    block opening closing level pieces ++ rest =
      opening :: (newLine (level + 1) ++
        (separated (',' :: newLine (level + 1)) pieces ++ (newLine level ++ closing :: rest))) := by
  simp [block, full]

theorem length_block (level : Nat) (opening closing : Char) {pieces : List Text} (full : pieces ≠ []) :
    (separated (',' :: newLine (level + 1)) pieces).length + 4 ≤ (block opening closing level pieces).length := by
  simp only [block, List.isEmpty_iff, full, if_false, List.length_append, List.length_cons, List.length_nil, newLine]
  omega

theorem separated_begins (c : Char) (tail comma : Text) (pieces : List Text) :
    ∃ more, separated comma ((c :: tail) :: pieces) = c :: more := by
  cases pieces with
  | nil => exact ⟨tail, rfl⟩
  | cons piece pieces => exact ⟨tail ++ comma ++ separated comma (piece :: pieces), rfl⟩

theorem pretty_begins (clean : Clean v) (level : Nat) :
    ∃ c tail, pretty level v = c :: tail ∧ isSpace c = false ∧ c ≠ ']' := by
  have bracket (opening closing : Char) (pieces : List Text) :
      ∃ tail, block opening closing level pieces = opening :: tail := by
    unfold block
    split
    · exact ⟨_, rfl⟩
    · exact ⟨_, rfl⟩
  cases clean with
  | null => exact ⟨'n', _, rfl, rfl, by decide⟩
  | bool b =>
    cases b with
    | true => exact ⟨'t', _, rfl, rfl, by decide⟩
    | false => exact ⟨'f', _, rfl, rfl, by decide⟩
  | number number =>
    obtain ⟨c, tail, spelled, begins⟩ := number.begins
    exact ⟨c, tail, spelled, isSpace_of_begins begins, ne_of_begins begins (by decide)⟩
  | string s => exact ⟨'"', _, rfl, rfl, by decide⟩
  | array =>
    obtain ⟨tail, spelled⟩ := bracket '[' ']' _
    exact ⟨'[', tail, spelled, rfl, by decide⟩
  | object =>
    obtain ⟨tail, spelled⟩ := bracket '\x7b' '\x7d' _
    exact ⟨'\x7b', tail, spelled, rfl, by decide⟩

theorem readValue_array (clean : ∀ v ∈ items, Clean v) (read : ∀ v ∈ items, Reads v)
    (enough : (pretty level (.array items)).length ≤ fuel + 1) (rest : Text) :
    readValue (fuel + 1) (pretty level (.array items) ++ rest) = some (.array items, rest) := by
  rw [pretty, prettyItems_eq] at enough ⊢
  cases items with
  | nil => rfl
  | cons v items =>
    have full : (v :: items).map (pretty (level + 1)) ≠ [] := by simp
    have length := length_block level '[' ']' full
    have bound : (separated (',' :: newLine (level + 1)) ((v :: items).map (pretty (level + 1)))).length < fuel := by
      omega
    have listed := readItems_pretty level read (by simp) bound rest
    obtain ⟨c, tail, spelled, solid, noEnd⟩ := pretty_begins (clean v List.mem_cons_self) (level + 1)
    obtain ⟨more, begun⟩ := separated_begins c tail (',' :: newLine (level + 1))
      (items.map (pretty (level + 1)))
    rw [← spelled, ← List.map_cons] at begun
    rw [block_append full, readValue, skipSpace_cons rfl]
    rw [begun, List.cons_append] at listed ⊢
    simp only [skipSpace_newLine, skipSpace_cons solid]
    split
    · rename_i same
      exact absurd (List.cons.inj same).1 noEnd
    · rw [listed]
      rfl

theorem readValue_object (read : ∀ m ∈ members, Reads m.2)
    (enough : (pretty level (.object members)).length ≤ fuel + 1) (rest : Text) :
    readValue (fuel + 1) (pretty level (.object members) ++ rest) = some (.object members, rest) := by
  rw [pretty, prettyMembers_eq] at enough ⊢
  cases members with
  | nil => rfl
  | cons m members =>
    have full : (m :: members).map (prettyMember (level + 1)) ≠ [] := by simp
    have length := length_block level '\x7b' '\x7d' full
    have bound : (separated (',' :: newLine (level + 1)) ((m :: members).map (prettyMember (level + 1)))).length <
        fuel := by omega
    have listed := readMembers_pretty level read (by simp) bound rest
    obtain ⟨more, begun⟩ : ∃ more, separated (',' :: newLine (level + 1))
        ((m :: members).map (prettyMember (level + 1))) = '"' :: more := separated_begins _ _ _ _
    rw [block_append full, readValue, skipSpace_cons rfl]
    rw [begun, List.cons_append] at listed ⊢
    simp only [skipSpace_newLine, skipSpace_cons (show isSpace '"' = false from rfl)]
    split
    · rename_i same
      cases same
    · rw [listed, Option.map_some, ofMembers_plain]

theorem readValue_string (s rest : Text) :
    readValue (fuel + 1) (pretty level (.string s) ++ rest) = some (.string s, rest) := by
  have spelled : pretty level (.string s) ++ rest = '"' :: (s.flatMap escapeChar ++ '"' :: rest) := by
    simp [pretty, quoted]
  rw [spelled, readValue, skipSpace_cons rfl]
  simp only [readString_escaped, Option.map_some, Option.getD_some]

theorem reads_of_succ (clean : Clean v) (read : ∀ level fuel rest, (pretty level v).length ≤ fuel + 1 → Ends rest →
    readValue (fuel + 1) (pretty level v ++ rest) = some (v, rest)) : Reads v := by
  intro level fuel rest enough after
  obtain ⟨c, tail, spelled, -⟩ := pretty_begins clean level
  cases fuel with
  | zero =>
    rw [spelled] at enough
    cases enough
  | succ fuel => exact read level fuel rest enough after

theorem Clean.reads (clean : Clean v) : Reads v := by
  induction clean with
  | null => exact reads_of_succ .null fun _ _ _ _ _ => rfl
  | bool b =>
    apply reads_of_succ (.bool b)
    intro _ _ _ _ _
    cases b <;> rfl
  | number number => exact reads_of_succ (.number number) fun _ _ _ _ after => readValue_number number after
  | string s => exact reads_of_succ (.string s) fun _ _ rest _ _ => readValue_string s rest
  | array clean ih => exact reads_of_succ (.array clean) fun _ _ rest enough _ => readValue_array clean ih enough rest
  | object clean ih => exact reads_of_succ (.object clean) fun _ _ rest enough _ => readValue_object ih enough rest

theorem read?_pretty (clean : Clean v) : read? (pretty 0 v) = some v := by
  have read := clean.reads 0 (2 * (pretty 0 v).length + 1) [] (by omega) ends_nil
  rw [List.append_nil] at read
  rw [read?, read]
  rfl

end LicenseHeaders.Json
