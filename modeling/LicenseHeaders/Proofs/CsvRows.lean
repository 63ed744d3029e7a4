import LicenseHeaders.Proofs.Lines
import LicenseHeaders.Proofs.Numerals
import LicenseHeaders.Report.Format
import Mathlib.Data.List.Forall2

namespace LicenseHeaders

namespace Text

variable {sep : Char} {s : Text}

theorem length_splitAt (sep : Char) (s : Text) : (splitAt sep s).length = s.count sep + 1 := by
  induction s with
  | nil => rfl
  | cons c s ih =>
    rw [splitAt]
    by_cases same : c = sep
    · simp [same, ih]
    · obtain ⟨piece, others, cut⟩ := List.exists_cons_of_ne_nil (splitAt_ne_nil sep s)
      rw [cut] at ih
      simpa [same, cut] using ih

theorem splitAt_unlines (ls : List Text) : splitAt '\n' (unlines ls) = ls.flatMap (splitAt '\n') ++ [[]] := by
  induction ls with
  | nil => rfl
  | cons l ls ih => rw [unlines_cons, splitAt_append, ih, List.flatMap_cons, List.append_assoc]

theorem flatMap_splitAt_of_plain {ls : List Text} (plain : ∀ l ∈ ls, sep ∉ l) : ls.flatMap (splitAt sep) = ls := by
  induction ls with
  | nil => rfl
  | cons l ls ih =>
    rw [List.flatMap_cons, splitAt_of_notMem (plain l List.mem_cons_self),
      ih fun other member => plain other (List.mem_cons_of_mem l member)]
    rfl

theorem mem_substitute {c d : Char} {replacement : Text} :
    d ∈ s.substitute c replacement ↔ d ∈ s ∧ d ≠ c ∨ c ∈ s ∧ d ∈ replacement := by
  rw [substitute, List.mem_flatMap]
  constructor
  · rintro ⟨e, member, inside⟩
    by_cases same : e = c
    · subst same
      exact Or.inr ⟨member, by simpa using inside⟩
    · obtain rfl : d = e := by simpa [same] using inside
      exact Or.inl ⟨member, same⟩
  · rintro (⟨member, apart⟩ | ⟨member, inside⟩)
    · exact ⟨d, member, by simp [apart]⟩
    · exact ⟨c, member, by simpa using inside⟩

end Text

namespace Csv

/-- The percent codes of commas read as commas, from the left. -/
def readCommas : Text → Text
  | '%' :: '2' :: 'C' :: rest => ',' :: readCommas rest
  | c :: rest => c :: readCommas rest
  | [] => []

def TellsOf (line : Text) (r : FileReport) : Prop :=
  Text.splitAt ',' line =
    [r.path.text.substitute ',' "%2C".toList, r.dialect.name.toList, r.action.name.toList,
      ((r.detail.getD []).substitute ',' "%2C".toList).substitute '\n' [' ']]

def figures (s : Summary) : List (String × Nat) :=
  [("Total files", s.total), ("Headers replaced", s.replaced), ("Headers inserted", s.inserted),
    ("Unchanged", s.unchanged), ("Failed", s.failed), ("Skipped", s.skipped)]

def Gives (line : Text) (figure : String × Nat) : Prop :=
  ∃ digits, Text.splitAt ',' line = [figure.1.toList, digits] ∧ Text.Spells digits figure.2

structure Tabulates (text : Text) (files : List FileReport) (s : Summary) (now : Text) (rows counts : List Text) :
    Prop where
  lines : Text.splitAt '\n' text =
    "file_path,dialect,action,notes".toList :: rows ++
      ([] :: "# Summary".toList :: counts ++
        ["Processing time (seconds),".toList ++ s.elapsed.shortText, "Generated on,".toList ++ now]) ++ [[]]
  told : List.Forall₂ TellsOf rows files ↔ ∀ r ∈ files, '\n' ∉ r.path.text
  spread : rows.length = files.length + (files.flatMap fun r => r.path.text).count '\n'
  paths : (∀ r ∈ files, '\n' ∉ r.path.text) → List.Forall₂ (fun line r => ∃ path others,
    Text.splitAt ',' line = path :: others ∧ (readCommas path = r.path.text ↔ ¬ "%2C".toList <:+: r.path.text))
      rows files
  counted : List.Forall₂ Gives counts (figures s)

variable {s : Text} {files : List FileReport} {r : FileReport}

theorem escapeCommas_cons (c : Char) (s : Text) :
    escapeCommas (c :: s) = (if c = ',' then "%2C".toList else [c]) ++ escapeCommas s := rfl

theorem prefix_escapeCommas {needle : Text} (plain : ∀ c ∈ needle, c ≠ ',' ∧ c ≠ '%') :
    needle <+: escapeCommas s ↔ needle <+: s := by
  induction needle generalizing s with
  | nil => simp
  | cons d needle ih =>
    have first := plain d List.mem_cons_self
    have others := fun s => @ih s fun c member => plain c (List.mem_cons_of_mem d member)
    cases s with
    | nil => rfl
    | cons c s =>
      rw [escapeCommas_cons]
      by_cases comma : c = ','
      · simp [comma, first]
      · simp [comma, List.cons_prefix_cons, others]

theorem readCommas_cons {c : Char} {rest : Text} (noCode : ¬ "%2C".toList <+: c :: rest) :
    readCommas (c :: rest) = c :: readCommas rest := by
  rw [readCommas]
  intro more same tail
  subst same tail
  exact noCode ⟨more, rfl⟩

theorem readCommas_escapeCommas : readCommas (escapeCommas s) = s ↔ ¬ "%2C".toList <:+: s := by
  induction s with
  | nil => decide
  | cons c s ih =>
    have code : "%2C".toList = ['%', '2', 'C'] := rfl
    rw [escapeCommas_cons, List.infix_cons_iff, not_or]
    by_cases comma : c = ','
    · subst comma
      have front : ¬ "%2C".toList <+: ',' :: s := by simp [code, List.cons_prefix_cons]
      have step : readCommas ("%2C".toList ++ escapeCommas s) = ',' :: readCommas (escapeCommas s) := rfl
      rw [if_pos rfl, step, List.cons.injEq, ih]
      exact ⟨fun same => ⟨front, same.2⟩, fun apart => ⟨rfl, apart.2⟩⟩
    · rw [if_neg comma, List.singleton_append]
      by_cases front : "%2C".toList <+: c :: s
      · -- the code that stands here is taken for a comma
        obtain ⟨rest, spelled⟩ := front
        obtain ⟨rfl, rfl⟩ := List.cons.inj spelled
        have step : readCommas ('%' :: escapeCommas ('2' :: 'C' :: rest)) = ',' :: readCommas (escapeCommas rest) := rfl
        have present : "%2C".toList <+: '%' :: '2' :: 'C' :: rest := ⟨rest, rfl⟩
        constructor
        · intro same
          have head := (List.cons.inj (step.symm.trans same)).1
          exact absurd head (by decide)
        · intro apart
          exact absurd present apart.1
      · have behind : ¬ "%2C".toList <+: c :: escapeCommas s := by
          have plain : ∀ c ∈ ['2', 'C'], c ≠ ',' ∧ c ≠ '%' := by simp
          rw [code, List.cons_prefix_cons] at front ⊢
          rw [prefix_escapeCommas plain]
          exact front
        rw [readCommas_cons behind, List.cons.injEq, ih]
        exact ⟨fun same => ⟨front, same.2⟩, fun apart => ⟨rfl, apart.2⟩⟩

theorem comma_notMem_fields : ∀ field ∈ fields r, ',' ∉ field := by
  have escaped (s : Text) : ',' ∉ escapeCommas s := by
    rw [escapeCommas, Text.mem_substitute]
    simp
  have dialect : ',' ∉ r.dialect.name.toList := by cases r.dialect <;> decide
  have action : ',' ∉ r.action.name.toList := by cases r.action <;> decide
  have note : ',' ∉ (escapeCommas (r.detail.getD [])).substitute '\n' [' '] := by
    rw [Text.mem_substitute]
    simp [escaped]
  simp [fields, escaped, dialect, action, note]

theorem tellsOf_row (r : FileReport) : TellsOf (row (fields r)) r :=
  Text.splitAt_joinWith (by simp [fields]) comma_notMem_fields

theorem count_escapeCommas (s : Text) : (escapeCommas s).count '\n' = s.count '\n' := by
  induction s with
  | nil => rfl
  | cons c s ih =>
    rw [escapeCommas_cons, List.count_append, ih, List.count_cons, Nat.add_comm]
    by_cases comma : c = ','
    · subst comma
      rfl
    · simp [comma, List.count_cons]

theorem newline_notMem_names (r : FileReport) : '\n' ∉ r.dialect.name.toList ∧ '\n' ∉ r.action.name.toList := by
  constructor
  · cases r.dialect <;> decide
  · cases r.action <;> decide

theorem count_row (r : FileReport) : (row (fields r)).count '\n' = r.path.text.count '\n' := by
  have note : '\n' ∉ (escapeCommas (r.detail.getD [])).substitute '\n' [' '] := by
    rw [Text.mem_substitute]
    simp
  have joined : row (fields r) =
      escapeCommas r.path.text ++ ',' :: (r.dialect.name.toList ++ ',' :: (r.action.name.toList ++
        ',' :: (escapeCommas (r.detail.getD [])).substitute '\n' [' '])) := rfl
  obtain ⟨dialect, action⟩ := newline_notMem_names r
  simp [joined, List.count_append, count_escapeCommas, List.count_eq_zero.mpr dialect,
    List.count_eq_zero.mpr action, List.count_eq_zero.mpr note]

def rows (files : List FileReport) : List Text :=
  (files.map (row ∘ fields)).flatMap (Text.splitAt '\n')

theorem length_rows (files : List FileReport) :
    (rows files).length = files.length + (files.flatMap fun r => r.path.text).count '\n' := by
  induction files with
  | nil => rfl
  | cons r files ih =>
    rw [rows, List.map_cons, List.flatMap_cons, List.length_append, Text.length_splitAt, Function.comp_apply,
      count_row]
    rw [rows] at ih
    simp only [ih, List.length_cons, List.flatMap_cons, List.count_append]
    omega

theorem rows_of_plain (plain : ∀ r ∈ files, '\n' ∉ r.path.text) : rows files = files.map (row ∘ fields) := by
  apply Text.flatMap_splitAt_of_plain
  intro l member
  obtain ⟨r, listed, rfl⟩ := List.mem_map.mp member
  rw [← List.count_eq_zero, Function.comp_apply, count_row, List.count_eq_zero]
  exact plain r listed

theorem rows_tell_iff : List.Forall₂ TellsOf (rows files) files ↔ ∀ r ∈ files, '\n' ∉ r.path.text := by
  constructor
  · intro told r member newline
    have length := told.length_eq
    have somewhere : '\n' ∈ files.flatMap fun r => r.path.text := List.mem_flatMap.mpr ⟨r, member, newline⟩
    have some := List.count_pos_iff.mpr somewhere
    rw [length_rows] at length
    omega
  · intro plain
    rw [rows_of_plain plain, List.forall₂_map_left_iff, List.forall₂_same]
    exact fun r _ => tellsOf_row r

theorem TellsOf.path {line : Text} (told : TellsOf line r) : ∃ path others,
    Text.splitAt ',' line = path :: others ∧ (readCommas path = r.path.text ↔ ¬ "%2C".toList <:+: r.path.text) :=
  ⟨_, _, told, readCommas_escapeCommas⟩

def counts (s : Summary) : List Text :=
  (figures s).map fun (name, n) => row [name.toList, Text.ofNat n]

theorem figure_name_plain {figure : String × Nat} {s : Summary} (member : figure ∈ figures s) :
    ',' ∉ figure.1.toList ∧ '\n' ∉ figure.1.toList := by
  have names : ∀ name ∈ ["Total files", "Headers replaced", "Headers inserted", "Unchanged", "Failed", "Skipped"],
      ',' ∉ name.toList ∧ '\n' ∉ name.toList := by decide
  apply names
  exact List.mem_map_of_mem (f := Prod.fst) member

theorem gives_counts (s : Summary) : List.Forall₂ Gives (counts s) (figures s) := by
  rw [counts, List.forall₂_map_left_iff, List.forall₂_same]
  intro figure member
  refine ⟨Text.ofNat figure.2, ?_, Text.spells_ofNat figure.2⟩
  apply Text.splitAt_joinWith (by simp)
  have digits : ',' ∉ Text.ofNat figure.2 := fun comma => absurd (Text.isDigit_of_mem_ofNat comma) (by decide)
  simp [(figure_name_plain member).1, digits]

theorem newline_notMem_counts (s : Summary) : ∀ l ∈ counts s, '\n' ∉ l := by
  intro l member newline
  obtain ⟨figure, listed, rfl⟩ := List.mem_map.mp member
  rcases List.mem_append.mp newline with name | value
  · exact (figure_name_plain listed).2 name
  · rcases List.mem_cons.mp value with comma | digit
    · cases comma
    · exact absurd (Text.isDigit_of_mem_ofNat digit) (by decide)

theorem trailer_eq (s : Summary) (now : Text) : trailer s now = [] :: "# Summary".toList :: counts s ++
    ["Processing time (seconds),".toList ++ s.elapsed.shortText, "Generated on,".toList ++ now] := by
  simp [trailer, counts, figures, row, Text.joinWith]

theorem newline_notMem_trailer {now : Text} (plain : '\n' ∉ now) (s : Summary) : ∀ l ∈ trailer s now, '\n' ∉ l := by
  have elapsed : '\n' ∉ s.elapsed.shortText := by
    intro newline
    rcases Text.mem_hundredths newline with digit | point
    · cases digit
    · cases point
  intro l member
  rw [trailer_eq] at member
  simp only [List.mem_cons, List.mem_append, List.not_mem_nil, or_false] at member
  rcases member with (rfl | rfl | count) | rfl | rfl
  · exact List.not_mem_nil
  · decide
  · exact newline_notMem_counts s l count
  · simp [elapsed]
  · simp [plain]

/-- The files are told line by line exactly if none of their paths holds a newline, and then the lines give back all
that they can; the figures are there in any case. -/
theorem files_are_tabulated (files : List FileReport) (s : Summary) (now : Text) (plain : '\n' ∉ now) :
    ∃ rows counts, Tabulates (report files s now) files s now rows counts := by
  refine ⟨rows files, counts s, ?_, rows_tell_iff, length_rows files, fun named => ?_, gives_counts s⟩
  · have columns : Text.splitAt '\n' (row (columns.map String.toList)) = [row (columns.map String.toList)] := by
      decide
    rw [report, Text.splitAt_unlines, List.flatMap_append, List.flatMap_cons, columns,
      Text.flatMap_splitAt_of_plain (newline_notMem_trailer plain s), trailer_eq]
    rfl
  · exact (rows_tell_iff.mpr named).imp fun _ _ told => told.path

theorem half_code_is_tabulated :
    '\n' ∉ "2024-02-29 12:00:00".toList ∧
      ∃ rows counts, Tabulates
        (report [⟨⟨"a%2,C".toList⟩, .tagged, .failed, some "no, no\nno".toList⟩] ⟨1, 0, 0, 0, 1, 0, ⟨1500000000⟩, none⟩
          "2024-02-29 12:00:00".toList)
        [⟨⟨"a%2,C".toList⟩, .tagged, .failed, some "no, no\nno".toList⟩] ⟨1, 0, 0, 0, 1, 0, ⟨1500000000⟩, none⟩
        "2024-02-29 12:00:00".toList rows counts :=
  ⟨by decide, files_are_tabulated _ _ _ (by decide)⟩

end Csv

end LicenseHeaders
