import LicenseHeaders.Proofs.Independence
import LicenseHeaders.Proofs.LinkedFiles
import Mathlib.Data.List.Forall2

namespace LicenseHeaders

namespace FileReport

structure Tells (r : FileReport) (c : Candidate) : Prop where
  path : r.path = c.path
  dialect : r.dialect = c.dialect
  handled : r.action ≠ .skipped
  detailed : r.detail.isSome = true ↔ r.action = .failed

structure TellsSkipped (r : FileReport) (e : Candidate × String) : Prop where
  path : r.path = e.1.path
  dialect : r.dialect = e.1.dialect
  skipped : r.action = .skipped
  reason : r.detail = some e.2.toList

end FileReport

/-- The reports are those of `left`, one on each file that is left out, and those of `told`, one on each candidate. -/
structure Inventory.Account (inv : Inventory) (left told reports : List FileReport) : Prop where
  skipped : List.Forall₂ FileReport.TellsSkipped left inv.skipped
  candidates : List.Forall₂ FileReport.Tells told inv.candidates
  each : reports.Perm (left ++ told)
  ordered : inv.candidates ≠ [] → reports.Pairwise fun a b => a.path.le b.path = true
  stable : inv.candidates ≠ [] → ∀ p : FilePath,
    reports.filter (·.path.key == p.key) = (left ++ told).filter (·.path.key == p.key)
  idle : inv.candidates = [] → reports = left

def Inventory.ReportedBy (inv : Inventory) (reports : List FileReport) : Prop :=
  ∃ left told, inv.Account left told reports

namespace Job

/-- What can come of a file that is handled: a failure, or an action that says neither of failing nor of skipping. -/
def Possible (o : Except FileError (Action × Option Text)) : Prop :=
  ∀ action diff, o = .ok (action, diff) → action ≠ .failed ∧ action ≠ .skipped

def Next.Fits (c : Candidate) : Next → Prop
  | .finish h => h.report.Tells c
  | .write plan _ => plan.action ≠ .failed ∧ plan.action ≠ .skipped

variable {j : Job} {t : FileTree} {inv : Inventory} {c : Candidate} {cs : List Candidate} {s s' : Shift}

theorem tells_ofOutcome (c : Candidate) {o : Except FileError (Action × Option Text)} (possible : Possible o) :
    (Handled.ofOutcome c o).report.Tells c := by
  cases o with
  | error e => exact ⟨rfl, rfl, by simp [Handled.ofOutcome], by simp [Handled.ofOutcome]⟩
  | ok done =>
    obtain ⟨action, diff⟩ := done
    obtain ⟨notFailed, notSkipped⟩ := possible action diff rfl
    exact ⟨rfl, rfl, notSkipped, by simpa [Handled.ofOutcome] using notFailed⟩

theorem possible_ok {action : Action} {diff : Option Text} (acted : action ≠ .failed ∧ action ≠ .skipped) :
    Possible (.ok (action, diff)) := by
  rintro _ _ same
  cases same
  exact acted

theorem possible_error (e : FileError) : Possible (.error e) := by
  rintro _ _ same
  cases same

theorem plan_action_done (j : Job) (d : Dialect) (content : Text) :
    (j.plan d content).action ≠ .failed ∧ (j.plan d content).action ≠ .skipped := by
  unfold plan
  dsimp only
  split
  · simp
  split <;> simp

theorem fits_next (j : Job) (c : Candidate) (text : Except IoError Text) : (j.next c text).Fits c := by
  unfold next
  cases text with
  | error e => exact tells_ofOutcome c (possible_error _)
  | ok content =>
    dsimp only
    split
    · exact tells_ofOutcome c (possible_ok (by simp))
    split
    · exact tells_ofOutcome c (possible_ok (j.plan_action_done c.dialect content))
    · exact j.plan_action_done c.dialect content

theorem tells_put {plan : Plan} {diff : Option Text} (fits : (Next.write plan diff).Fits c) :
    (put t c plan diff).1.report.Tells c := by
  unfold put
  cases t.writeText c.path plan.content with
  | error e => exact tells_ofOutcome c (possible_error _)
  | ok written => exact tells_ofOutcome c (possible_ok fits)

theorem tells_handle (j : Job) (t : FileTree) (c : Candidate) :
    (Handled.ofOutcome c (j.handle t c).outcome).report.Tells c := by
  have fits := j.fits_next c (t.readText c.path)
  have halves := congrArg Prod.fst (handle_eq j t c)
  cases next : j.next c (t.readText c.path) with
  | finish h =>
    rw [next] at fits halves
    have same : Handled.ofOutcome c (j.handle t c).outcome = h := halves
    rw [same]
    exact fits
  | write plan diff =>
    rw [next] at fits halves
    have same : Handled.ofOutcome c (j.handle t c).outcome = (put t c plan diff).1 := halves
    rw [same]
    exact tells_put fits

theorem tells_handleAll (j : Job) (t : FileTree) (cs : List Candidate) :
    List.Forall₂ FileReport.Tells ((j.handleAll t cs).1.map Handled.report) cs := by
  induction cs generalizing t with
  | nil => exact .nil
  | cons c cs ih => exact .cons (j.tells_handle t c) (ih (j.handle t c).tree)

structure Dealt (cs : List Candidate) (s : Shift) : Prop where
  listed : s.tasks.map Prod.fst = cs
  fits : ∀ task ∈ s.tasks, ∀ next ∈ task.2, next.Fits task.1

theorem dealt_start (t : FileTree) (cs : List Candidate) : Dealt cs (Shift.start t cs) := by
  refine ⟨by simp [Shift.start, Function.comp_def], fun task member => ?_⟩
  obtain ⟨c, -, rfl⟩ := List.mem_map.mp member
  simp

theorem Dealt.advance {tree tree' : FileTree} {before after : List Task} {stage : Option Next} {next : Next}
    (dealt : Dealt cs ⟨tree, before ++ (c, stage) :: after⟩) (fits : next.Fits c) :
    Dealt cs ⟨tree', before ++ (c, some next) :: after⟩ := by
  obtain ⟨fitsBefore, fitsRest⟩ := List.forall_mem_append.mp dealt.fits
  obtain ⟨-, fitsAfter⟩ := List.forall_mem_cons.mp fitsRest
  have listed := dealt.listed
  refine ⟨by simpa using listed, List.forall_mem_append.mpr ⟨fitsBefore, List.forall_mem_cons.mpr ⟨?_, fitsAfter⟩⟩⟩
  intro _ same
  obtain rfl := Option.some.inj same
  exact fits

theorem Dealt.step (dealt : Dealt cs s) (step : j.Step s s') : Dealt cs s' := by
  cases step with
  | look tree before after c => exact dealt.advance (j.fits_next c _)
  | put tree before after c plan diff =>
    have planned := dealt.fits (c, some (.write plan diff)) (List.mem_append_right _ List.mem_cons_self)
    exact dealt.advance (tells_put (planned _ rfl))

theorem Dealt.run (dealt : Dealt cs s) (run : Relation.ReflTransGen j.Step s s') : Dealt cs s' := by
  induction run with
  | refl => exact dealt
  | tail _ step ih => exact ih.step step

theorem Dealt.ended (dealt : Dealt cs s) (ended : j.Ended s) :
    List.Forall₂ FileReport.Tells (s.handled.map Handled.report) cs := by
  obtain ⟨listed, fits⟩ := dealt
  have finished := finished_of_ended ended
  rw [← listed]
  unfold Shift.handled
  generalize s.tasks = tasks at fits finished
  induction tasks with
  | nil => exact .nil
  | cons task tasks ih =>
    obtain ⟨fitsTask, fitsTasks⟩ := List.forall_mem_cons.mp fits
    obtain ⟨⟨h, finish⟩, others⟩ := List.forall_mem_cons.mp finished
    obtain ⟨c, stage⟩ := task
    obtain rfl : stage = some (.finish h) := finish
    exact .cons (fitsTask _ rfl) (ih fitsTasks others)

theorem tells_outcomes {dealt : List (Candidate × Except FileError (Action × Option Text))}
    (possible : ∀ d ∈ dealt, Possible d.2) :
    List.Forall₂ FileReport.Tells ((dealt.map fun d => Handled.ofOutcome d.1 d.2).map Handled.report)
      (dealt.map Prod.fst) := by
  induction dealt with
  | nil => exact .nil
  | cons d dealt ih =>
    obtain ⟨first, others⟩ := List.forall_mem_cons.mp possible
    exact .cons (tells_ofOutcome d.1 first) (ih others)

theorem tells_skipped (skipped : List (Candidate × String)) :
    List.Forall₂ FileReport.TellsSkipped (skipped.map skippedReport) skipped := by
  induction skipped with
  | nil => exact .nil
  | cons e skipped ih => exact .cons ⟨rfl, rfl, rfl, rfl⟩ ih

theorem reportedBy_conclude (j : Job) (t : FileTree) (full : inv.candidates ≠ []) {handled : List Handled}
    (fits : List.Forall₂ FileReport.Tells (handled.map Handled.report) inv.candidates) :
    inv.ReportedBy (j.conclude inv.skipped handled t).1 := by
  rw [conclude_reports]
  refine ⟨inv.skipped.map skippedReport, handled.map Handled.report, tells_skipped _, fits, ?_, ?_, ?_, ?_⟩
  · exact (FileReport.sorted_perm _).trans ((FileReport.sorted_perm _).append_left _)
  · exact fun _ => FilePath.pairwise_mergeSort FileReport.path _
  · intro _ p
    have outer := FilePath.filter_key_mergeSort FileReport.path
    simp only [FileReport.sorted, outer, List.filter_append]
  · exact fun none => absurd none full

theorem mem_reports_runOn (full : inv.candidates ≠ []) {r : FileReport} :
    r ∈ (j.runOn t inv).reports ↔
      r ∈ inv.skipped.map skippedReport ∨ r ∈ (j.handleAll t inv.candidates).1.map Handled.report := by
  rw [(reports_perm full).mem_iff, List.mem_append]

theorem reportedBy_runOn (j : Job) (t : FileTree) (inv : Inventory) : inv.ReportedBy (j.runOn t inv).reports := by
  by_cases full : inv.candidates = []
  · rw [(runOn_of_nil full).1]
    refine ⟨_, [], tells_skipped _, ?_, ?_, ?_, ?_, fun _ => rfl⟩
    · rw [full]
      exact .nil
    · rw [List.append_nil]
    · exact fun some => absurd full some
    · exact fun some => absurd full some
  · have reports : (j.runOn t inv).reports =
        (j.conclude inv.skipped (j.handleAll t inv.candidates).1 (j.handleAll t inv.candidates).2.2).1 :=
      congrArg Prod.fst (runOn_eq_conclude full)
    rw [reports]
    exact reportedBy_conclude j _ full (j.tells_handleAll t inv.candidates)

theorem pairwise_leftOut (s : Scope) (files : List FilePath) :
    (s.split files).leftOut.Pairwise fun p q => p.le q = true := by
  rw [Scope.leftOut_eq]
  exact (FilePath.pairwise_mergeSort id (files.filter s.selection.selects)).filter _

theorem pairwise_run {outcome : Outcome} (ran : j.run t = .ok outcome) :
    outcome.reports.Pairwise fun a b => a.path.le b.path = true := by
  unfold run at ran
  cases collected : j.scope.inventory t with
  | error e =>
    rw [collected] at ran
    cases ran
  | ok inv =>
    rw [collected] at ran
    cases ran
    by_cases full : inv.candidates = []
    · obtain ⟨files, rfl⟩ : ∃ files, inv = j.scope.split files := by
        rcases Scope.inventory_cases collected with ⟨same, -⟩ | same
        · exact ⟨_, same⟩
        · exact ⟨_, same⟩
      have leftOut := pairwise_leftOut j.scope files
      rw [Inventory.leftOut, List.pairwise_map] at leftOut
      rw [(runOn_of_nil full).1, List.pairwise_map]
      exact leftOut
    · obtain ⟨left, told, account⟩ := j.reportedBy_runOn t inv
      exact account.ordered full

/-- Each file is reported once and in its place: by the job itself, by workers that have come to an end, and from any
outcomes of the files in whatever batches. A job that finds its files itself has its reports in order in any case. -/
theorem each_file_reported_once (j : Job) (inv : Inventory) :
    (∀ t, inv.ReportedBy (j.runOn t inv).reports) ∧
      (inv.candidates ≠ [] → ∀ t s, Relation.ReflTransGen j.Step (Shift.start t inv.candidates) s → j.Ended s →
        inv.ReportedBy (j.conclude inv.skipped s.handled s.tree).1) ∧
      (inv.candidates ≠ [] → ∀ batches : List (List (Candidate × Except FileError (Action × Option Text))),
        batches.flatten.map Prod.fst = inv.candidates → (∀ d ∈ batches.flatten, Possible d.2) → ∀ t,
          inv.ReportedBy (j.conclude inv.skipped
            (batches.map fun batch => batch.map fun d => Handled.ofOutcome d.1 d.2).flatten t).1) ∧
      ∀ t outcome, j.run t = .ok outcome → outcome.reports.Pairwise fun a b => a.path.le b.path = true := by
  refine ⟨fun t => j.reportedBy_runOn t inv, ?_, ?_, fun t outcome ran => pairwise_run ran⟩
  · intro full t s run ended
    have dealt := (dealt_start t inv.candidates).run run
    exact reportedBy_conclude j s.tree full (dealt.ended ended)
  · intro full batches listed possible t
    rw [← List.map_flatten]
    refine reportedBy_conclude j t full ?_
    rw [← listed]
    exact tells_outcomes possible

def mixedBatches : List (List (Candidate × Except FileError (Action × Option Text))) :=
  [[(⟨⟨['a']⟩, .native⟩, .ok (.replaced, none)), (⟨⟨['l']⟩, .tagged⟩, .error (.read ⟨['l']⟩ .notText))],
    [(⟨⟨['m']⟩, .native⟩, .ok (.unchanged, none))]]

theorem mixed_files_reported_once :
    Inventory.mixed.candidates ≠ [] ∧ Inventory.mixed.ReportedBy ((tiny false).runOn .mixed .mixed).reports ∧
      (∃ s, Relation.ReflTransGen (tiny false).Step (Shift.start .mixed Inventory.mixed.candidates) s ∧
        (tiny false).Ended s ∧
        Inventory.mixed.ReportedBy ((tiny false).conclude Inventory.mixed.skipped s.handled s.tree).1) ∧
      Inventory.mixed.ReportedBy ((tiny false).conclude Inventory.mixed.skipped
        (mixedBatches.map fun batch => batch.map fun d => Handled.ofOutcome d.1 d.2).flatten .mixed).1 ∧
      ∃ outcome, (tiny false).run .mixed = .ok outcome ∧ outcome.reports.Pairwise fun a b => a.path.le b.path = true := by
  have full : Inventory.mixed.candidates ≠ [] := by decide
  obtain ⟨ofJob, ofWorkers, ofBatches, ofRun⟩ := each_file_reported_once (tiny false) .mixed
  obtain ⟨s, run, ended⟩ := exists_ended (tiny false) (Shift.start .mixed Inventory.mixed.candidates)
  have possible : ∀ d ∈ mixedBatches.flatten, Possible d.2 := by
    simp only [mixedBatches, List.flatten_cons, List.flatten_nil, List.append_nil, List.cons_append, List.nil_append,
      List.forall_mem_cons]
    exact ⟨possible_ok (by simp), possible_error _, possible_ok (by simp), List.forall_mem_nil _⟩
  exact ⟨full, ofJob .mixed, ⟨s, run, ended, ofWorkers full .mixed s run ended⟩,
    ofBatches full mixedBatches rfl possible .mixed, _, rfl, ofRun .mixed _ rfl⟩

end Job

end LicenseHeaders
