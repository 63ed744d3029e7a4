import LicenseHeaders.Proofs.JsonRoundTrip
import LicenseHeaders.Report.Format
import Mathlib.Data.List.Forall2

namespace LicenseHeaders

namespace Json

variable {members : List (Text × Json)} {key : Text} {v : Json}

theorem filter_of_mem (distinct : (members.map Prod.fst).Nodup) (member : (key, v) ∈ members) :
    members.filter (·.1 == key) = [(key, v)] := by
  have here : (key, v) ∈ members.filter (·.1 == key) := List.mem_filter.mpr ⟨member, by simp⟩
  have few : (members.filter (·.1 == key)).length ≤ 1 := by
    have count := List.nodup_iff_count.mp distinct key
    rwa [List.count, List.countP_map, List.countP_eq_length_filter] at count
  obtain ⟨m, one⟩ := List.length_eq_one_iff.mp (Nat.le_antisymm few (List.length_pos_of_mem here))
  rw [one, List.mem_singleton] at here
  rw [one, here]

theorem nodup_sorted (distinct : (members.map Prod.fst).Nodup) : ((sorted members).map Prod.fst).Nodup :=
  ((List.mergeSort_perm members _).map Prod.fst).nodup_iff.mpr distinct

theorem mem_sorted {m : Text × Json} : m ∈ sorted members ↔ m ∈ members :=
  List.mem_mergeSort

theorem single?_sorted {key : String} (distinct : (members.map Prod.fst).Nodup) (member : (key.toList, v) ∈ members) :
    single? (sorted members) key = some v := by
  rw [single?, filter_of_mem (nodup_sorted distinct) (mem_sorted.mpr member)]

theorem clean_sorted (clean : ∀ m ∈ members, Clean m.2) : Clean (.object (sorted members)) :=
  .object fun m member => clean m (mem_sorted.mp member)

def Figure (members : List (Text × Json)) (key : String) (n : Nat) : Prop :=
  ∃ digits, single? members key = some (.number digits) ∧ digits.Spells n

theorem figure_sorted {key : String} {n : Nat} (distinct : (members.map Prod.fst).Nodup)
    (member : (key.toList, ofNat n) ∈ members) : Figure (sorted members) key n :=
  ⟨Text.ofNat n, single?_sorted distinct member, Text.spells_ofNat n⟩

end Json

namespace FileReport

variable (r : FileReport)

theorem nodup_members : (r.members.map Prod.fst).Nodup := by
  cases detail : r.detail <;> simp [members, detail]

theorem clean_members : ∀ m ∈ r.members, m.2.Clean := by
  intro m member
  rcases List.mem_append.mp member with fixed | optional
  · simp only [List.mem_cons, List.not_mem_nil, or_false] at fixed
    rcases fixed with rfl | rfl | rfl <;> exact .string _
  · obtain ⟨d, -, rfl⟩ := Option.map_eq_some_iff.mp (Option.mem_toList.mp optional)
    exact .string d

theorem ofParts?_names (detail : Json) :
    ofParts? (.string r.path.text) (.string r.dialect.name.toList) (.string r.action.name.toList) detail =
      detail.detail?.map fun d => { r with detail := d } := by
  have dialect : (Json.string r.dialect.name.toList).choice? [.native, .tagged] Dialect.name = some r.dialect := by
    cases r.dialect <;> rfl
  have action : (Json.string r.action.name.toList).choice? Action.all Action.name = some r.action := by
    cases r.action <;> rfl
  simp only [ofParts?, dialect, action, Json.text?]
  cases detail.detail? <;> rfl

theorem ofJson?_sorted : ofJson? (.object (Json.sorted r.members)) = some r := by
  have distinct := r.nodup_members
  have withDetail (detail : Json) :
      ofJson?.withDetail (Json.sorted r.members) detail = detail.detail?.map fun d => { r with detail := d } := by
    have path : Json.single? (Json.sorted r.members) "path" = some (.string r.path.text) :=
      Json.single?_sorted distinct (by simp [members])
    have dialect : Json.single? (Json.sorted r.members) "dialect" = some (.string r.dialect.name.toList) :=
      Json.single?_sorted distinct (by simp [members])
    have action : Json.single? (Json.sorted r.members) "action" = some (.string r.action.name.toList) :=
      Json.single?_sorted distinct (by simp [members])
    simp only [ofJson?.withDetail, path, dialect, action, Option.bind_eq_bind, Option.bind_some, ofParts?_names]
  cases detail : r.detail with
  | none =>
    have absent : (Json.sorted r.members).filter (·.1 == "detail".toList) = [] := by
      have others : ∀ m ∈ r.members, m.1 ≠ "detail".toList := by simp [members, detail]
      simpa [List.filter_eq_nil_iff, Json.mem_sorted] using others
    simp only [ofJson?, absent, withDetail, Json.detail?, Option.map_some, ← detail]
  | some d =>
    have present : ("detail".toList, Json.string d) ∈ r.members := by simp [members, detail]
    simp only [ofJson?, Json.filter_of_mem (Json.nodup_sorted distinct) (Json.mem_sorted.mpr present), withDetail,
      Json.detail?, Option.map_some, ← detail]

end FileReport

namespace Summary

variable (s : Summary)

theorem nodup_members : (s.members.map Prod.fst).Nodup := by
  cases time : s.timestamp <;> simp [members, time]

theorem clean_members : ∀ m ∈ s.members, m.2.Clean := by
  intro m member
  rcases List.mem_append.mp member with fixed | optional
  · simp only [List.mem_cons, List.not_mem_nil, or_false] at fixed
    rcases fixed with rfl | rfl | rfl | rfl | rfl | rfl | rfl
    all_goals first | exact .number (Json.numeral_ofNat _) | exact .number (Json.numeral_decimal _)
  · obtain ⟨t, -, rfl⟩ := Option.map_eq_some_iff.mp (Option.mem_toList.mp optional)
    exact .number (Json.numeral_ofInt t)

end Summary

theorem clean_reportJson (files : List FileReport) (s : Summary) : (reportJson files s).Clean := by
  apply Json.Clean.object
  intro m member
  simp only [List.mem_cons, List.not_mem_nil, or_false] at member
  rcases member with rfl | rfl
  · apply Json.Clean.array
    intro item member
    obtain ⟨r, -, rfl⟩ := List.mem_map.mp member
    exact Json.clean_sorted r.clean_members
  · exact Json.clean_sorted s.clean_members

/-- The items are the reports in their order, and the figures are those of the reports. -/
structure Json.Recorded (items : List Json) (figures : List (Text × Json)) (files : List FileReport) : Prop where
  reports : List.Forall₂ (fun item r => FileReport.ofJson? item = some r) items files
  total : Figure figures "total_files" files.length
  counted : ∀ a : Action, Figure figures a.name (files.countP (·.action == a))

theorem ReportFormat.json_report_read_back (files : List FileReport) (elapsed : Duration) (timestamp : Option Int)
    (now : Text) : ∃ items figures,
      Json.read? (json.report files (Summary.ofReports files elapsed timestamp) now) =
        some (.object [("files".toList, .array items), ("summary".toList, .object figures)]) ∧
      Json.Recorded items figures files := by
  have read := Json.read?_pretty (clean_reportJson files (Summary.ofReports files elapsed timestamp))
  refine ⟨_, _, read, ?_, ?_, ?_⟩
  · rw [List.forall₂_map_left_iff, List.forall₂_same]
    exact fun r _ => r.ofJson?_sorted
  · exact Json.figure_sorted (Summary.nodup_members _) (by simp [Summary.members, Summary.ofReports])
  · intro a
    apply Json.figure_sorted (Summary.nodup_members _)
    cases a <;> simp [Summary.members, Summary.ofReports, Action.name]

end LicenseHeaders
