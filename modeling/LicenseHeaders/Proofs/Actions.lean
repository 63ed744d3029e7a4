import LicenseHeaders.Proofs.Reporting
import LicenseHeaders.Proofs.WrittenLines

namespace LicenseHeaders

namespace HeaderPolicy

variable {p : HeaderPolicy} {detector : Detector} {d : Dialect} {content : Text}

theorem withHeaderBelowTag_ne (p : HeaderPolicy) (content : Text) : p.withHeaderBelowTag content ≠ content := by
  intro same
  have count := congrArg (fun s => (Text.lines s).length) same
  have whole := congrArg List.length (p.headLines_append_tailLines (Text.lines content))
  simp only [withHeaderBelowTag_eq,
    length_lines_assemble p.header (p.newline_notMem_above content) (p.tailLines_suffix _)] at count
  rw [List.length_append, List.length_singleton] at count
  rw [List.length_append] at whole
  omega

theorem withHeaderOnTop_ne (p : HeaderPolicy) (content : Text) : p.withHeaderOnTop content ≠ content := by
  intro same
  have count := congrArg List.length same
  rw [withHeaderOnTop, List.length_append, List.length_cons] at count
  omega

theorem placement_insertion_iff :
    (p.placeBy detector d content).placement.isInsertion = true ↔ detector (Text.lines content) = false := by
  cases licensed : detector (Text.lines content) with
  | true => simp [placeBy_licensed licensed, Placement.isInsertion]
  | false =>
    cases d with
    | tagged => simp [placeBy_tagged licensed, Placement.isInsertion]
    | native => simp [placeBy_native licensed, Placement.isInsertion]

theorem insertion_changes_text (inserted : (p.placeBy detector d content).placement.isInsertion = true) :
    (p.placeBy detector d content).content ≠ content := by
  have unlicensed := placement_insertion_iff.mp inserted
  cases d with
  | tagged =>
    rw [placeBy_tagged unlicensed]
    exact p.withHeaderBelowTag_ne content
  | native =>
    rw [placeBy_native unlicensed]
    exact p.withHeaderOnTop_ne content

end HeaderPolicy

namespace Job

def handled (j : Job) (t : FileTree) (c : Candidate) : Handled :=
  .ofOutcome c (j.handle t c).outcome

def Writable (j : Job) (t : FileTree) (c : Candidate) (content : Text) : Prop :=
  j.dryRun = false →
    ∃ after, t.writeText c.path (j.place c.dialect content).content = .ok after

structure Truthful (j : Job) (t : FileTree) (c : Candidate) (content : Text) : Prop where
  inserted : (j.handled t c).report.action = .inserted ↔ j.detector (Text.lines content) = false
  unchanged : (j.handled t c).report.action = .unchanged ↔
    j.detector (Text.lines content) = true ∧ (j.place c.dialect content).content = content
  replaced : (j.handled t c).report.action = .replaced ↔
    j.detector (Text.lines content) = true ∧ (j.place c.dialect content).content ≠ content
  carries : (j.handled t c).report.action = .unchanged → j.policy.header.StandsIn content
  diff : (j.handled t c).diff =
    if j.diffs.enabled = true ∧ ((j.handled t c).report.action = .inserted ∨
        (j.handled t c).report.action = .replaced) then
      some (LineDiff.render c.path content (j.place c.dialect content).content)
    else none

variable {j : Job} {t : FileTree} {c : Candidate} {cs : List Candidate} {d : Dialect}
  {content : Text} {inv : Inventory}

theorem standsIn_place (j : Job) (d : Dialect) (content : Text) :
    j.policy.header.StandsIn (j.place d content).content :=
  j.policy.standsIn_placeBy j.detector d content

theorem plan_action (j : Job) (d : Dialect) (content : Text) :
    (j.plan d content).action =
      if j.detector (Text.lines content) = false then .inserted
      else if (j.place d content).content = content then .unchanged
      else .replaced := by
  by_cases unlicensed : j.detector (Text.lines content) = false
  · have inserted : (j.place d content).placement.isInsertion = true :=
      HeaderPolicy.placement_insertion_iff.mpr unlicensed
    have changes : (j.place d content).content ≠ content := HeaderPolicy.insertion_changes_text inserted
    simp only [plan, if_neg changes, if_pos inserted, if_pos unlicensed]
  · have replaced : ¬ (j.place d content).placement.isInsertion = true :=
      fun inserted => unlicensed (HeaderPolicy.placement_insertion_iff.mp inserted)
    rw [if_neg unlicensed]
    by_cases same : (j.place d content).content = content
    · simp only [plan, if_pos same]
    · simp only [plan, if_neg same, if_neg replaced]

theorem handled_of_readable (readable : t.readText c.path = .ok content) (writable : j.Writable t c content) :
    j.handled t c =
      ⟨⟨c.path, c.dialect, (j.plan c.dialect content).action, none⟩,
        if (j.plan c.dialect content).action ≠ .unchanged ∧ j.diffs.enabled = true then
          some (LineDiff.render c.path content (j.place c.dialect content).content)
        else none⟩ := by
  have text := j.plan_content c.dialect content
  unfold handled handle
  simp only [readable, text]
  by_cases unchanged : (j.plan c.dialect content).action = .unchanged
  · simp [unchanged, Handled.ofOutcome]
  by_cases dry : j.dryRun = true
  · simp [unchanged, dry, Handled.ofOutcome]
  · obtain ⟨after, written⟩ := writable (by simpa using dry)
    simp [unchanged, dry, written, Handled.ofOutcome]

theorem truthful (readable : t.readText c.path = .ok content) (writable : j.Writable t c content) :
    j.Truthful t c content := by
  have handled := handled_of_readable readable writable
  have action := j.plan_action c.dialect content
  have stands := j.standsIn_place c.dialect content
  by_cases unlicensed : j.detector (Text.lines content) = false
  · rw [if_pos unlicensed] at action
    rw [action] at handled
    constructor <;> simp [handled, unlicensed]
  · rw [if_neg unlicensed] at action
    by_cases same : (j.place c.dialect content).content = content
    · rw [if_pos same] at action
      rw [same] at stands
      rw [action] at handled
      constructor <;> simp [handled, unlicensed, same, stands]
    · rw [if_neg same] at action
      rw [action] at handled
      constructor <;> simp [handled, unlicensed, same]

theorem of_settled (settled : (j.handled t c).report.action = .unchanged ∨
      (j.handled t c).report.action = .skipped) :
    (j.handle t c).tree = t ∧
      ∃ content, t.readText c.path = .ok content ∧ j.policy.header.StandsIn content := by
  unfold handled handle at settled
  unfold handle
  cases readable : t.readText c.path with
  | error e => simp [readable, Handled.ofOutcome] at settled
  | ok content =>
    simp only [readable] at settled ⊢
    by_cases stays : (j.plan c.dialect content).action = .unchanged
    · have stands := j.standsIn_place c.dialect content
      rw [plan_unchanged.mp stays] at stands
      rw [if_pos stays]
      exact ⟨rfl, content, rfl, stands⟩
    · have acted := j.plan_action_done c.dialect content
      rw [if_neg stays] at settled
      split at settled
      · simp [Handled.ofOutcome, stays, acted] at settled
      · split at settled <;> simp [Handled.ofOutcome, stays, acted] at settled

theorem handleAll_settled (settled : ∀ h ∈ (j.handleAll t cs).1,
      h.report.action = .unchanged ∨ h.report.action = .skipped) :
    (j.handleAll t cs).2.2 = t ∧
      ∀ c ∈ cs, ∃ content, t.readText c.path = .ok content ∧ j.policy.header.StandsIn content := by
  induction cs with
  | nil => exact ⟨rfl, by simp⟩
  | cons c cs ih =>
    simp only [handleAll, List.forall_mem_cons] at settled ⊢
    obtain ⟨first, others⟩ := settled
    obtain ⟨tree, carries⟩ := of_settled first
    rw [tree] at others ⊢
    obtain ⟨final, rest⟩ := ih others
    exact ⟨final, carries, rest⟩

/-- A report says inserted of a file without a license, unchanged of one with a license that has the header already,
and replaced of any other. If a job says no more of its files than that they are unchanged or left out, then each
file that is not left out has the header. -/
theorem actions_are_truthful (j : Job) (t : FileTree) :
    (∀ c content, t.readText c.path = .ok content → j.Writable t c content →
        j.Truthful t c content) ∧
      (∀ d content, (j.place d content).placement.isInsertion = true →
        (j.place d content).content ≠ content) ∧
      ∀ inv : Inventory,
        (∀ r ∈ (j.runOn t inv).reports, r.action = .unchanged ∨ r.action = .skipped) →
        ∀ c ∈ inv.candidates, ∃ content, t.readText c.path = .ok content ∧ j.policy.header.StandsIn content := by
  refine ⟨fun c content => truthful, fun d content => HeaderPolicy.insertion_changes_text, ?_⟩
  intro inv settled c member
  have full : inv.candidates ≠ [] := List.ne_nil_of_mem member
  have handled : ∀ h ∈ (j.handleAll t inv.candidates).1,
      h.report.action = .unchanged ∨ h.report.action = .skipped := by
    intro h handled
    apply settled
    exact (mem_reports_runOn full).mpr (Or.inr (List.mem_map_of_mem handled))
  exact (handleAll_settled handled).2 c member

end Job

def FileTree.headed : FileTree :=
  ⟨[([['a']], .file (Text.encode ['x'])), ([['h']], .file (Text.encode "/*L*/\n".toList)),
    ([['b']], .file ⟨#[255]⟩)], [], []⟩

def Inventory.headed : Inventory :=
  ⟨[⟨⟨['h']⟩, .native⟩], [(⟨⟨['b']⟩, .native⟩, "ignored")]⟩

namespace Job

theorem actions_on_headed_files_are_truthful :
    FileTree.headed.readText ⟨['a']⟩ = .ok ['x'] ∧ (tiny false).Writable .headed ⟨⟨['a']⟩, .native⟩ ['x'] ∧
      (tiny false).Truthful .headed ⟨⟨['a']⟩, .native⟩ ['x'] ∧
      ((tiny false).place .tagged []).placement.isInsertion = true ∧ ((tiny false).place .tagged []).content ≠ [] ∧
      (∀ r ∈ ((tiny false).runOn .headed .headed).reports, r.action = .unchanged ∨ r.action = .skipped) ∧
      ∀ c ∈ Inventory.headed.candidates, ∃ content, FileTree.headed.readText c.path = .ok content ∧
        (tiny false).policy.header.StandsIn content := by
  have readable : FileTree.headed.readText ⟨['a']⟩ = .ok ['x'] := rfl
  have writable : (tiny false).Writable .headed ⟨⟨['a']⟩, .native⟩ ['x'] := fun _ => ⟨_, rfl⟩
  have inserted : ((tiny false).place .tagged []).placement.isInsertion = true := rfl
  have settled : ∀ r ∈ ((tiny false).runOn .headed .headed).reports,
      r.action = .unchanged ∨ r.action = .skipped := by
    intro r member
    rcases (mem_reports_runOn (by decide)).mp member with leftOut | handled
    · obtain ⟨_, -, rfl⟩ := List.mem_map.mp leftOut
      exact Or.inr rfl
    · have told : ∀ h ∈ ((tiny false).handleAll .headed Inventory.headed.candidates).1,
          h.report.action = .unchanged := by decide
      obtain ⟨h, listed, rfl⟩ := List.mem_map.mp handled
      exact Or.inl (told h listed)
  obtain ⟨file, insertion, run⟩ := actions_are_truthful (tiny false) .headed
  exact ⟨readable, writable, file _ _ readable writable, inserted, insertion _ _ inserted, settled, run _ settled⟩

end Job

end LicenseHeaders
