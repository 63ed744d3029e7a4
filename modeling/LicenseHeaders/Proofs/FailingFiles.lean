import LicenseHeaders.Proofs.Reporting

namespace LicenseHeaders

namespace Job

def failedReport (c : Candidate) (e : FileError) : FileReport :=
  ⟨c.path, c.dialect, .failed, some e.failure.inLine.toList⟩

def spared (j : Job) (t : FileTree) : List Candidate → List Candidate
  | [] => []
  | c :: cs =>
    match (j.handle t c).outcome with
    | .ok _ => c :: spared j (j.handle t c).tree cs
    | .error _ => spared j (j.handle t c).tree cs

def diffsOf (j : Job) (t : FileTree) (cs : List Candidate) : List Text :=
  (inOrder (j.handleAll t cs).1).filterMap Handled.diff

def unsaving (j : Job) : Job :=
  { j with diffs := ⟨j.diffs.shown, none⟩ }

/-- A candidate that fails at its turn changes nothing, and is told of. -/
structure FailsAlone (j : Job) (t : FileTree) (inv : Inventory) (turn : FileTree) (c : Candidate) (e : FileError) :
    Prop where
  tree : (j.handle turn c).tree = turn
  report : failedReport c e ∈ (j.runOn t inv).reports
  alert : .alert s!"Error processing {c.path}: {e.failure.inLine}" ∈ (j.runOn t inv).notices

/-- Nothing that fails keeps a job from the rest. -/
structure Contains (j : Job) (t : FileTree) (inv : Inventory) : Prop where
  reported : inv.ReportedBy (j.runOn t inv).reports
  failure : ∀ before c after e, inv.candidates = before ++ c :: after →
    (j.handle (j.handleAll t before).2.2 c).outcome = .error e → j.FailsAlone t inv (j.handleAll t before).2.2 c e
  others : inv.candidates ≠ [] →
    j.conclude inv.skipped (j.handleAll t (j.spared t inv.candidates)).1
        (j.handleAll t (j.spared t inv.candidates)).2.2 =
      ((j.runOn t inv).reports.filter (·.action != .failed), (j.runOn t inv).tree)
  notices : (j.handleAll t (j.spared t inv.candidates)).2.1.Sublist (j.runOn t inv).notices
  diffs : inv.candidates ≠ [] → ∀ e,
    j.diffs.save (j.handleAll t inv.candidates).2.2 (j.diffsOf t inv.candidates) = .error e →
      j.runOn t inv =
        { j.unsaving.runOn t inv with
          notices := (j.unsaving.runOn t inv).notices ++ [.alert s!"Warning: Failed to save diffs: {e.inLine}"] }
  workers : ∀ s, Relation.ReflTransGen j.Step (Shift.start t inv.candidates) s →
    ∃ s', Relation.ReflTransGen j.Step s s' ∧ j.Ended s' ∧
      List.Forall₂ FileReport.Tells (s'.handled.map Handled.report) inv.candidates

variable {j : Job} {t turn : FileTree} {inv : Inventory} {c : Candidate} {cs before after : List Candidate}
  {e : FileError}

theorem tree_of_error (failed : (j.handle t c).outcome = .error e) : (j.handle t c).tree = t := by
  unfold handle at failed ⊢
  split
  · rfl
  · rename_i content read
    simp only [read] at failed
    dsimp only at failed ⊢
    split
    · rfl
    · rename_i changes
      rw [if_neg changes] at failed
      split
      · rfl
      · rename_i real
        rw [if_neg real] at failed
        cases wrote : t.writeText c.path (j.plan c.dialect content).content with
        | error cause => rfl
        | ok written =>
          simp only [wrote] at failed
          cases failed

theorem handleAll_append (j : Job) (t : FileTree) (before after : List Candidate) :
    j.handleAll t (before ++ after) =
      ((j.handleAll t before).1 ++ (j.handleAll (j.handleAll t before).2.2 after).1,
        (j.handleAll t before).2.1 ++ (j.handleAll (j.handleAll t before).2.2 after).2.1,
        (j.handleAll (j.handleAll t before).2.2 after).2.2) := by
  induction before generalizing t with
  | nil => rfl
  | cons c before ih =>
    simp only [List.cons_append, handleAll, ih (j.handle t c).tree, List.append_assoc]

theorem failed_iff (j : Job) (t : FileTree) (c : Candidate) :
    (Handled.ofOutcome c (j.handle t c).outcome).report.action = .failed ↔
      ∃ e, (j.handle t c).outcome = .error e := by
  have detailed := (j.tells_handle t c).detailed
  cases outcome : (j.handle t c).outcome with
  | error e => simp [Handled.ofOutcome]
  | ok done =>
    rw [outcome] at detailed
    simpa [Handled.ofOutcome] using detailed

theorem diff_of_failed {h : Handled} (member : h ∈ (j.handleAll t cs).1) (failed : h.report.action = .failed) :
    h.diff = none := by
  induction cs generalizing t with
  | nil => cases member
  | cons c cs ih =>
    rcases List.mem_cons.mp member with rfl | later
    · obtain ⟨e, error⟩ := (j.failed_iff t c).mp failed
      rw [error]
      rfl
    · exact ih later

theorem handleAll_spared (j : Job) (t : FileTree) (cs : List Candidate) :
    (j.handleAll t (j.spared t cs)).1 = (j.handleAll t cs).1.filter (·.report.action != .failed) ∧
      (j.handleAll t (j.spared t cs)).2.1.Sublist (j.handleAll t cs).2.1 ∧
      (j.handleAll t (j.spared t cs)).2.2 = (j.handleAll t cs).2.2 := by
  induction cs generalizing t with
  | nil => exact ⟨rfl, List.Sublist.refl _, rfl⟩
  | cons c cs ih =>
    obtain ⟨handled, notices, tree⟩ := ih (j.handle t c).tree
    have failed := j.failed_iff t c
    cases outcome : (j.handle t c).outcome with
    | ok done =>
      have kept : (Handled.ofOutcome c (.ok done)).report.action ≠ .failed := by
        rw [outcome] at failed
        exact fun same => by simpa using failed.mp same
      simp only [spared, outcome, handleAll]
      refine ⟨?_, notices.append_left _, tree⟩
      rw [List.filter_cons_of_pos (by simpa using kept), handled]
    | error e =>
      have lost : (Handled.ofOutcome c (.error e)).report.action = .failed := by
        rw [outcome] at failed
        exact failed.mpr ⟨e, rfl⟩
      -- The next candidate meets the files as this one did.
      rw [tree_of_error outcome] at handled notices tree
      simp only [spared, outcome, handleAll, tree_of_error outcome]
      refine ⟨?_, notices.trans (List.sublist_append_right _ _), tree⟩
      rw [List.filter_cons_of_neg (by simpa using lost), handled]

example : ((tiny false).spared .mixed Inventory.mixed.candidates).map (·.path.text) = [['a']] := by decide

theorem inOrder_filter (handled : List Handled) (p : Handled → Bool) :
    inOrder (handled.filter p) = (inOrder handled).filter p :=
  (FilePath.filter_mergeSort (fun h : Handled => h.report.path) handled p).symm

theorem diffsOf_spared (j : Job) (t : FileTree) (cs : List Candidate) :
    j.diffsOf t (j.spared t cs) = j.diffsOf t cs := by
  have handled := (j.handleAll_spared t cs).1
  rw [diffsOf, handled, inOrder_filter, List.filterMap_filter]
  refine List.filterMap_congr fun h member => ?_
  have listed : h ∈ (j.handleAll t cs).1 := (inOrder_perm _).mem_iff.mp member
  by_cases failed : h.report.action = .failed
  · simp [failed, diff_of_failed listed failed]
  · simp [failed]

theorem filter_sorted (reports : List FileReport) (p : FileReport → Bool) :
    (FileReport.sorted reports).filter p = FileReport.sorted (reports.filter p) :=
  FilePath.filter_mergeSort FileReport.path reports p

theorem conclude_spared (j : Job) (skipped : List (Candidate × String)) (t : FileTree) (cs : List Candidate) :
    j.conclude skipped (j.handleAll t (j.spared t cs)).1 (j.handleAll t (j.spared t cs)).2.2 =
      ((j.conclude skipped (j.handleAll t cs).1 (j.handleAll t cs).2.2).1.filter (·.action != .failed),
        (j.conclude skipped (j.handleAll t cs).1 (j.handleAll t cs).2.2).2) := by
  obtain ⟨handled, -, tree⟩ := j.handleAll_spared t cs
  have diffs := j.diffsOf_spared t cs
  unfold diffsOf at diffs
  refine Prod.ext ?_ ?_
  · have stays : (skipped.map skippedReport).filter (·.action != .failed) = skipped.map skippedReport :=
      List.filter_eq_self.mpr fun r member => by
        obtain ⟨entry, -, rfl⟩ := List.mem_map.mp member
        rfl
    simp only [conclude_reports, filter_sorted, List.filter_append, stays, List.filter_map, handled]
    rfl
  · simp only [conclude, diffs, tree]

theorem notices_runOn (full : inv.candidates ≠ []) :
    ∃ more, (j.runOn t inv).notices = (j.handleAll t inv.candidates).2.1 ++ more := by
  have some : inv.candidates.isEmpty = false := by simpa using full
  simp only [runOn, some]
  cases j.diffs.save (j.handleAll t inv.candidates).2.2 _ with
  | ok saved => exact ⟨[], by simp⟩
  | error e => exact ⟨_, rfl⟩

theorem fails_alone (found : inv.candidates = before ++ c :: after)
    (failed : (j.handle (j.handleAll t before).2.2 c).outcome = .error e) :
    j.FailsAlone t inv (j.handleAll t before).2.2 c e := by
  have full : inv.candidates ≠ [] := by
    rw [found]
    simp
  have split := j.handleAll_append t before (c :: after)
  rw [← found] at split
  refine ⟨tree_of_error failed, ?_, ?_⟩
  · have handled : Handled.ofOutcome c (.error e) ∈ (j.handleAll t inv.candidates).1 := by
      rw [split]
      simp [handleAll, failed]
    exact (mem_reports_runOn full).mpr (Or.inr (List.mem_map.mpr ⟨_, handled, rfl⟩))
  · obtain ⟨more, notices⟩ := notices_runOn (j := j) (t := t) full
    rw [notices, split]
    simp [handleAll, failed, failureNotices]

theorem handle_unsaving (j : Job) (t : FileTree) (c : Candidate) :
    (j.unsaving.handle t c).outcome.map Prod.fst = (j.handle t c).outcome.map Prod.fst ∧
      (j.unsaving.handle t c).notices = (j.handle t c).notices ∧ (j.unsaving.handle t c).tree = (j.handle t c).tree := by
  have plan : j.unsaving.plan = j.plan := rfl
  have dry : j.unsaving.dryRun = j.dryRun := rfl
  have shown : j.unsaving.diffs.shown = j.diffs.shown := rfl
  have text (d : Text) : ((if j.unsaving.diffs.shown then
      ((if j.unsaving.diffs.enabled then some d else none).map Notice.diff).toList else []) : List Notice) =
      if j.diffs.shown then ((if j.diffs.enabled then some d else none).map Notice.diff).toList else [] := by
    rw [shown]
    cases wanted : j.diffs.shown <;> simp [DiffOutput.enabled, unsaving, wanted]
  unfold handle
  cases t.readText c.path with
  | error e => exact ⟨rfl, rfl, rfl⟩
  | ok content =>
    simp only [plan, dry, text]
    split
    · exact ⟨rfl, rfl, rfl⟩
    split
    · exact ⟨rfl, rfl, rfl⟩
    cases t.writeText c.path (j.plan c.dialect content).content <;> exact ⟨rfl, rfl, rfl⟩

theorem report_congr {o o' : Except FileError (Action × Option Text)} (same : o.map Prod.fst = o'.map Prod.fst) :
    (Handled.ofOutcome c o).report = (Handled.ofOutcome c o').report ∧ failureNotices c o = failureNotices c o' := by
  cases o with
  | error e =>
    cases o' with
    | error e' =>
      obtain rfl := Except.error.inj same
      exact ⟨rfl, rfl⟩
    | ok done' => cases same
  | ok done =>
    cases o' with
    | error e' => cases same
    | ok done' =>
      have action : done.1 = done'.1 := Except.ok.inj same
      simp only [Handled.ofOutcome, failureNotices, action, and_self]

theorem handleAll_unsaving (j : Job) (t : FileTree) (cs : List Candidate) :
    (j.unsaving.handleAll t cs).1.map Handled.report = (j.handleAll t cs).1.map Handled.report ∧
      (j.unsaving.handleAll t cs).2 = (j.handleAll t cs).2 := by
  induction cs generalizing t with
  | nil => exact ⟨rfl, rfl⟩
  | cons c cs ih =>
    obtain ⟨outcome, notices, tree⟩ := j.handle_unsaving t c
    obtain ⟨report, alerts⟩ := report_congr (c := c) outcome
    obtain ⟨reports, rest⟩ := ih (j.handle t c).tree
    simp only [handleAll, List.map_cons, notices, tree, report, alerts, reports, rest, and_self]

theorem runOn_of_unsaved (full : inv.candidates ≠ []) {f : Failure}
    (unsaved : j.diffs.save (j.handleAll t inv.candidates).2.2 (j.diffsOf t inv.candidates) = .error f) :
    j.runOn t inv =
      { j.unsaving.runOn t inv with
        notices := (j.unsaving.runOn t inv).notices ++ [.alert s!"Warning: Failed to save diffs: {f.inLine}"] } := by
  have some : inv.candidates.isEmpty = false := by simpa using full
  obtain ⟨reports, rest⟩ := j.handleAll_unsaving t inv.candidates
  have inPlace (j : Job) := map_report_inOrder (j.handleAll t inv.candidates).1
  unfold inOrder at inPlace
  unfold diffsOf inOrder at unsaved
  have off (tree : FileTree) (diffs : List Text) : j.unsaving.diffs.save tree diffs = .ok tree := rfl
  simp only [runOn, some, unsaved, off, inPlace, reports, rest]
  rfl

theorem failures_stay_contained (j : Job) (t : FileTree) (inv : Inventory) : j.Contains t inv := by
  refine ⟨j.reportedBy_runOn t inv, fun _ _ _ _ found failed => fails_alone found failed, fun full => ?_, ?_,
    fun full f unsaved => runOn_of_unsaved full unsaved, fun s run => ?_⟩
  · have whole := runOn_eq_conclude (j := j) (t := t) full
    rw [conclude_spared, ← whole]
  · by_cases full : inv.candidates = []
    · rw [full]
      exact List.nil_sublist _
    · obtain ⟨more, notices⟩ := notices_runOn (j := j) (t := t) full
      rw [notices]
      exact (j.handleAll_spared t inv.candidates).2.1.trans (List.sublist_append_left _ _)
  · obtain ⟨s', onward, ended⟩ := exists_ended j s
    have dealt := (dealt_start t inv.candidates).run (run.trans onward)
    exact ⟨s', onward, ended, dealt.ended ended⟩

end Job

end LicenseHeaders
