import LicenseHeaders.Proofs.FailingFiles
import LicenseHeaders.Proofs.RunStages

namespace LicenseHeaders

namespace FileTree

variable {t : FileTree} {loc : Location} {bytes present : ByteArray} {p : FilePath}

theorem walkWith_created (free : t.node? loc = none) (below : loc ≠ [])
    {follow follow' : Location → FilePath → List Text → Except IoError Place}
    (onward : ∀ l target rest, follow l target rest = .ok (.free loc false) →
      follow' l target rest = .ok (.occupied loc (.file bytes) false))
    {l : Location} {pieces : List Text} (led : walkWith t follow l pieces = .ok (.free loc false)) :
    walkWith (t.set loc (.file bytes)) follow' l pieces = .ok (.occupied loc (.file bytes) false) := by
  induction pieces generalizing l with
  | nil => cases led
  | cons piece rest ih =>
    rw [walkWith_cons, pace_set below (Or.inl free)]
    rcases pace_of_walkWith led with ⟨next, paced, ahead⟩ | ⟨target, paced, ahead⟩ | ⟨here, n, paced, arrived⟩
    · rw [paced]
      exact ih ahead
    · rw [paced]
      exact onward l target rest ahead
    · rw [paced]
      rcases arrive_ok arrived with ⟨rfl, same⟩ | ⟨_, -, same⟩
      · obtain ⟨rfl, last⟩ := Place.free.inj same
        obtain rfl : rest = [] := by simpa using last
        simp [arrive]
      · cases same

theorem walk_created (free : t.node? loc = none) (below : loc ≠ []) {links : Nat} {l : Location} {pieces : List Text}
    (led : walk t links l pieces = .ok (.free loc false)) :
    walk (t.set loc (.file bytes)) links l pieces = .ok (.occupied loc (.file bytes) false) := by
  induction links generalizing l pieces with
  | zero =>
    rw [walk] at led ⊢
    exact walkWith_created free below (fun _ _ _ stopped => by cases stopped) led
  | succ links ih =>
    rw [walk] at led ⊢
    exact walkWith_created free below (fun _ _ _ followed => ih followed) led

theorem resolve_created (resolved : t.resolve p = .ok (.free loc false)) :
    (t.set loc (.file bytes)).resolve p = .ok (.occupied loc (.file bytes) false) := by
  obtain ⟨below, free⟩ := resolve_sound resolved
  unfold resolve at resolved ⊢
  split at resolved
  · cases resolved
  split at resolved
  · cases resolved
  split at resolved
  · cases resolved
  rename_i noNul full short
  rw [if_neg noNul, if_neg full, if_neg short]
  exact walk_created free below resolved

theorem sink_again (opened : t.sink p = .ok (.file loc present)) (bytes : ByteArray) :
    (t.set loc (.file bytes)).sink p = .ok (.file loc bytes) := by
  obtain ⟨willing, ⟨free, -⟩ | occupied⟩ := resolve_of_sink opened
  · simp [sink, resolve_created free, sinkAt, willing]
  · have file : t.node? loc = some (.file present) := (resolve_sound occupied).resolve_left (by simp)
    simp [sink, resolve_overwrite file, occupied, Except.map, Place.refill, Node.refill, sinkAt, willing]

end FileTree

namespace Job

def entry (j : Job) (t : FileTree) (r : FileReport) : Text :=
  match t.readText r.path with
  | .ok old => LineDiff.render r.path old (j.place r.dialect old).content
  | .error _ => []

/-- The diffs of the files that are reported as changed, in the order of the reports. -/
def record (j : Job) (t : FileTree) (reports : List FileReport) : Text :=
  (reports.filter (·.action.changesFile)).flatMap (j.entry t)

def Alters (j : Job) (t : FileTree) (c : Candidate) : Prop :=
  ∃ old, t.readText c.path = .ok old ∧ (j.place c.dialect old).content ≠ old

variable {j : Job} {t : FileTree} {inv : Inventory} {c : Candidate} {q : FilePath} {loc : Location}

theorem changesFile_plan {d : Dialect} {content : Text} (changed : (j.plan d content).action ≠ .unchanged) :
    (j.plan d content).action.changesFile = true := by
  obtain ⟨noFailure, noSkip⟩ := plan_action_done j d content
  cases action : (j.plan d content).action with
  | replaced | inserted => rfl
  | unchanged => exact absurd action changed
  | failed => exact absurd action noFailure
  | skipped => exact absurd action noSkip

theorem report_verdict (j : Job) (c : Candidate) (seen : Except IoError Sight) :
    (j.verdict c seen).report.path = c.path ∧ (j.verdict c seen).report.dialect = c.dialect := by
  obtain ⟨o, outcome⟩ := j.exists_outcome c seen
  rw [outcome]
  cases o <;> exact ⟨rfl, rfl⟩

theorem diff_verdict (enabled : j.diffs.enabled = true) (t : FileTree) (c : Candidate) :
    (j.verdict c (t.seen c.path)).report.action.changesFile = false ∧ (j.verdict c (t.seen c.path)).diff = none ∨
      (j.verdict c (t.seen c.path)).report.action.changesFile = true ∧ j.Alters t c ∧
        (j.verdict c (t.seen c.path)).diff = some (j.entry t (j.verdict c (t.seen c.path)).report) := by
  obtain ⟨path, dialect⟩ := j.report_verdict c (t.seen c.path)
  unfold entry Alters
  rw [path, dialect]
  unfold verdict
  rw [← FileTree.readText_eq]
  cases text : t.readText c.path with
  | error e => exact Or.inl ⟨rfl, rfl⟩
  | ok content =>
    by_cases unchanged : (j.plan c.dialect content).action = .unchanged
    · simp [next, unchanged, Handled.ofOutcome, Action.changesFile]
    · have changes := changesFile_plan unchanged
      have differs : (j.place c.dialect content).content ≠ content :=
        fun same => unchanged (plan_unchanged.mpr same)
      by_cases dry : j.dryRun = true
      · simp [next, unchanged, dry, enabled, Handled.ofOutcome, changes, differs, plan_content]
      · have writes : j.next c (.ok content) = .write (j.plan c.dialect content)
            (some (LineDiff.render c.path content (j.place c.dialect content).content)) := by
          simp [next, unchanged, dry, enabled, plan_content]
        simp only [writes]
        -- The diff is kept only where the new text is taken.
        cases accepted : (t.seen c.path).bind (·.accept (j.plan c.dialect content).content) with
        | error e => exact Or.inl ⟨rfl, rfl⟩
        | ok _ => exact Or.inr ⟨changes, ⟨content, rfl, differs⟩, rfl⟩

theorem flatten_diffs {handled : List Handled}
    (told : ∀ h ∈ handled, h.report.action.changesFile = false ∧ h.diff = none ∨
      h.report.action.changesFile = true ∧ h.diff = some (j.entry t h.report)) :
    (handled.filterMap Handled.diff).flatten = j.record t (handled.map Handled.report) := by
  unfold record
  induction handled with
  | nil => rfl
  | cons h handled ih =>
    have others := ih fun other later => told other (List.mem_cons_of_mem h later)
    rcases told h List.mem_cons_self with ⟨stays, none⟩ | ⟨changes, some⟩
    · rw [List.filterMap_cons_none none, others, List.map_cons, List.filter_cons_of_neg (by simp [stays])]
    · rw [List.filterMap_cons_some some, List.flatten_cons, others, List.map_cons,
        List.filter_cons_of_pos (by simp [changes]), List.flatMap_cons]

theorem verdict_of_inOrder (enabled : j.diffs.enabled = true) {cs : List Candidate} {h : Handled}
    (listed : h ∈ inOrder (j.verdicts t cs)) :
    h.report.action.changesFile = false ∧ h.diff = none ∨
      h.report.action.changesFile = true ∧ h.diff = some (j.entry t h.report) ∧
        ∃ c ∈ cs, h.report.path = c.path ∧ h.report.dialect = c.dialect ∧ j.Alters t c := by
  obtain ⟨c, found, rfl⟩ := exists_candidate listed
  obtain ⟨path, dialect⟩ := j.report_verdict c (t.seen c.path)
  rcases diff_verdict enabled t c with stays | ⟨changes, alters, some⟩
  · exact Or.inl stays
  · exact Or.inr ⟨changes, some, c, found, path, dialect, alters⟩

theorem changes_runOn (apart : inv.candidates.Pairwise t.Apart) (full : inv.candidates ≠ []) :
    (j.runOn t inv).reports.filter (·.action.changesFile) =
      ((inOrder (j.verdicts t inv.candidates)).map Handled.report).filter (·.action.changesFile) := by
  have reports := congrArg Prod.fst (runOn_eq j inv apart full)
  have unskipped : (inv.skipped.map skippedReport).filter (·.action.changesFile) = [] := by
    rw [List.filter_eq_nil_iff]
    intro r listed
    obtain ⟨e, -, rfl⟩ := List.mem_map.mp listed
    simp [skippedReport, Action.changesFile]
  have inOrder : ((inOrder (j.verdicts t inv.candidates)).map Handled.report).Pairwise
      fun a b => a.path.le b.path = true := List.pairwise_map.mpr (pairwise_inOrder _)
  simp only [conclude] at reports
  rw [reports, filter_sorted, List.filter_append, unskipped, List.nil_append]
  exact List.mergeSort_of_pairwise (inOrder.filter _)

theorem diffText_eq_record (enabled : j.diffs.enabled = true) (apart : inv.candidates.Pairwise t.Apart)
    (full : inv.candidates ≠ []) : j.diffText t inv.candidates = j.record t (j.runOn t inv).reports := by
  rw [diffText, flatten_diffs (j := j) (t := t), record, record, changes_runOn apart full]
  intro h listed
  rcases verdict_of_inOrder enabled listed with stays | ⟨changes, some, -⟩
  · exact Or.inl stays
  · exact Or.inr ⟨changes, some⟩

structure Recorded (j : Job) (t : FileTree) (inv : Inventory) : Prop where
  appended : ∀ q ∈ j.diffs.savedTo, ∀ loc present, t.sink q = .ok (.file loc present) →
    (j.runOn t inv).tree.node? loc = some (.file (present ++ (j.record t (j.runOn t inv).reports).encode))
  ordered : (j.runOn t inv).reports.Pairwise fun a b => a.path.le b.path = true
  reported : inv.ReportedBy (j.runOn t inv).reports
  changed : ∀ r ∈ (j.runOn t inv).reports, r.action.changesFile = true →
    ∃ c ∈ inv.candidates, r.path = c.path ∧ r.dialect = c.dialect ∧ j.Alters t c

theorem recorded (apart : inv.candidates.Pairwise t.Apart) (unsaved : j.Unsaved t inv.candidates)
    (full : inv.candidates ≠ []) (chosen : q ∈ j.diffs.savedTo) : j.Recorded t inv := by
  have enabled : j.diffs.enabled = true := by
    rw [Option.mem_def] at chosen
    simp [DiffOutput.enabled, chosen]
  obtain ⟨left, told, account⟩ := j.reportedBy_runOn t inv
  refine ⟨?_, account.ordered full, ⟨left, told, account⟩, ?_⟩
  · intro q chosen loc present opened
    rw [← diffText_eq_record enabled apart full]
    exact node?_diffs apart unsaved full chosen opened
  · intro r listed changes
    have kept : r ∈ (j.runOn t inv).reports.filter (·.action.changesFile) := List.mem_filter.mpr ⟨listed, changes⟩
    rw [changes_runOn apart full] at kept
    obtain ⟨h, inside, rfl⟩ := List.mem_map.mp (List.mem_of_mem_filter kept)
    rcases verdict_of_inOrder enabled inside with ⟨stays, -⟩ | ⟨-, -, found⟩
    · rw [stays] at changes
      cases changes
    · exact found

theorem sink_of_started {d : DiffOutput} {t₀ : FileTree} {present : ByteArray} (chosen : q ∈ d.savedTo)
    (opened : t₀.sink q = .ok (.file loc present)) (started : d.start t₀ = .ok t) :
    t.sink q = .ok (.file loc .empty) := by
  rw [Option.mem_def] at chosen
  have written : t₀.writeText q [] = .ok (t₀.set loc (.file .empty)) := by
    rw [FileTree.writeText, FileTree.write, opened]
    rfl
  rw [DiffOutput.start, chosen] at started
  simp only [written] at started
  obtain rfl := Except.ok.inj started
  exact FileTree.sink_again opened .empty

/-- The saved diffs are the record of the run. They are all that the file holds if the run has opened it, and if they
cannot be saved, the rest is as if they had not been asked for. -/
theorem saved_diffs_record_the_run (apart : inv.candidates.Pairwise t.Apart) (unsaved : j.Unsaved t inv.candidates)
    (full : inv.candidates ≠ []) (chosen : q ∈ j.diffs.savedTo) :
    j.Recorded t inv ∧
      (∀ t₀ loc present, t₀.sink q = .ok (.file loc present) → j.diffs.start t₀ = .ok t →
        (j.runOn t inv).tree.node? loc = some (.file (j.record t (j.runOn t inv).reports).encode)) ∧
      ∀ e, j.diffs.save (j.handleAll t inv.candidates).2.2 (j.diffsOf t inv.candidates) = .error e →
        (j.runOn t inv).reports = (j.unsaving.runOn t inv).reports ∧
          (j.runOn t inv).tree = (j.unsaving.runOn t inv).tree := by
  have record := recorded apart unsaved full chosen
  refine ⟨record, ?started, ?failed⟩
  case started =>
    intro t₀ loc present opened started
    have whole := record.appended q chosen loc .empty (sink_of_started chosen opened started)
    rwa [ByteArray.empty_append] at whole
  case failed =>
    intro e failed
    have same := runOn_of_unsaved full failed
    have reports := congrArg Outcome.reports same
    have tree := congrArg Outcome.tree same
    exact ⟨reports, tree⟩

def misdirected : Job :=
  { tiny false with diffs := ⟨false, some ⟨['/']⟩⟩ }

theorem mixed_run_is_recorded :
    (∃ t, (tiny false).diffs.start .mixed = .ok t ∧ (tiny false).Recorded t .refused ∧
      ((tiny false).runOn t .refused).tree.node? [['d']] =
        some (.file ((tiny false).record t ((tiny false).runOn t .refused).reports).encode) ∧
      (((tiny false).runOn t .refused).reports.map FileReport.action).Perm
        [.skipped, .failed, .replaced, .failed, .failed]) ∧
    (misdirected.runOn .mixed .refused).reports = (misdirected.unsaving.runOn .mixed .refused).reports := by
  constructor
  · have free : FileTree.mixed.sink ⟨['d']⟩ = .ok (.file [['d']] .empty) := rfl
    have started : (tiny false).diffs.start .mixed = .ok (FileTree.mixed.set [['d']] (.file .empty)) := rfl
    have full : Inventory.refused.candidates ≠ [] := by decide
    have apart : Inventory.refused.candidates.Pairwise (FileTree.mixed.set [['d']] (.file .empty)).Apart := by decide
    have unsaved : (tiny false).Unsaved (FileTree.mixed.set [['d']] (.file .empty)) Inventory.refused.candidates := by
      rintro c listed loc located ⟨q, chosen, present, opened⟩
      obtain rfl : (⟨['d']⟩ : FilePath) = q := Option.some.inj chosen
      rw [FileTree.sink_again free] at opened
      cases opened
      have elsewhere : ∀ c ∈ Inventory.refused.candidates,
          (FileTree.mixed.set [['d']] (.file .empty)).locate? c.path ≠ some [['d']] := by decide
      exact elsewhere c listed located
    have handled : (Inventory.refused.skipped.map skippedReport ++ ((tiny false).handleAll
        (FileTree.mixed.set [['d']] (.file .empty)) Inventory.refused.candidates).1.map Handled.report).map
          FileReport.action = [.skipped, .failed, .replaced, .failed, .failed] := by decide
    have actions := (reports_perm (j := tiny false) (t := FileTree.mixed.set [['d']] (.file .empty)) full).map
      FileReport.action
    rw [handled] at actions
    obtain ⟨recorded, alone, -⟩ := saved_diffs_record_the_run apart unsaved full rfl
    exact ⟨_, started, recorded, alone .mixed _ _ free started, actions⟩
  · have closed (t : FileTree) : t.sink ⟨['/']⟩ = .error .isDirectory := rfl
    have apart : Inventory.refused.candidates.Pairwise FileTree.mixed.Apart := by decide
    have unsaved : misdirected.Unsaved .mixed Inventory.refused.candidates := by
      rintro c - loc - ⟨q, chosen, present, opened⟩
      obtain rfl : (⟨['/']⟩ : FilePath) = q := Option.some.inj chosen
      rw [closed] at opened
      cases opened
    have failed (t : FileTree) (diffs : List Text) : misdirected.diffs.save t diffs =
        .error ["Error opening diff file: /", IoError.isDirectory.message] := rfl
    obtain ⟨-, -, same⟩ := saved_diffs_record_the_run apart unsaved (by decide) rfl
    exact (same _ (failed _ _)).1

end Job

end LicenseHeaders
