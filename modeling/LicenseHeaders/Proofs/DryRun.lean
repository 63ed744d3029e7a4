import LicenseHeaders.Proofs.Independence

namespace LicenseHeaders

namespace Job

def dry (j : Job) : Job :=
  { j with dryRun := true }

def real (j : Job) : Job :=
  { j with dryRun := false }

def WritesSucceed (j : Job) (t : FileTree) : List Candidate → Prop
  | [] => True
  | c :: cs => (∀ p e, (j.handle t c).outcome ≠ .error (.write p e)) ∧ j.WritesSucceed (j.handle t c).tree cs

/-- The dry run and the run itself agree on all but the files that the run itself writes. -/
structure Foretold (j : Job) (t : FileTree) (inv : Inventory) : Prop where
  reports : (j.dry.runOn t inv).reports = (j.real.runOn t inv).reports
  changed : FileReport.anyChanged (j.dry.runOn t inv).reports = FileReport.anyChanged (j.real.runOn t inv).reports
  failed : FileReport.anyFailed (j.dry.runOn t inv).reports = FileReport.anyFailed (j.real.runOn t inv).reports
  saved : inv.candidates ≠ [] → ∀ q ∈ j.diffs.savedTo, ∀ loc present, t.sink q = .ok (.file loc present) →
    (j.dry.runOn t inv).tree.node? loc = some (.file (present ++ (j.dry.diffText t inv.candidates).encode)) ∧
      (j.real.runOn t inv).tree.node? loc = some (.file (present ++ (j.dry.diffText t inv.candidates).encode))
  idle : inv.candidates = [] → (j.dry.runOn t inv).tree = t ∧ (j.real.runOn t inv).tree = t
  kept : ∀ loc, ¬ j.diffs.SavesTo t loc → (j.dry.runOn t inv).tree.node? loc = t.node? loc

variable {j : Job} {t : FileTree} {c : Candidate} {cs : List Candidate} {inv : Inventory}

theorem dry_outcome (written : ∀ p e, (j.real.handle t c).outcome ≠ .error (.write p e)) :
    (j.dry.handle t c).outcome = (j.real.handle t c).outcome := by
  unfold handle at written ⊢
  have plans : j.dry.plan = j.real.plan := rfl
  have diffs : j.dry.diffs = j.real.diffs := rfl
  have dryRun : j.dry.dryRun = true := rfl
  have realRun : j.real.dryRun = false := rfl
  cases text : t.readText c.path with
  | error e => rfl
  | ok content =>
    simp only [text, plans, diffs, dryRun, realRun, if_true, Bool.false_eq_true, if_false] at written ⊢
    split
    · rfl
    · rename_i changes
      simp only [if_neg changes] at written
      cases result : t.writeText c.path (j.real.plan c.dialect content).content with
      | error e =>
        simp only [result] at written
        exact absurd rfl (written c.path e)
      | ok after => rfl

theorem dry_verdict (written : ∀ p e, (j.real.handle t c).outcome ≠ .error (.write p e)) :
    j.dry.verdict c (t.seen c.path) = j.real.verdict c (t.seen c.path) := by
  rw [← (handled_eq j.dry t c).1, ← (handled_eq j.real t c).1, dry_outcome written]

theorem dry_verdicts (apart : cs.Pairwise t.Apart) (written : j.real.WritesSucceed t cs) :
    j.dry.verdicts t cs = j.real.verdicts t cs := by
  induction cs generalizing t with
  | nil => rfl
  | cons c cs ih =>
    obtain ⟨first, later⟩ := written
    obtain ⟨different, -⟩ := List.pairwise_cons.mp apart
    have others := ih (pairwise_apart_after_handle j.real apart) later
    have seen : ∀ b ∈ cs, (j.real.handle t c).tree.seen b.path = t.seen b.path :=
      fun b member => seen_after_handle j.real (different b member)
    have unmoved (k : Job) : k.verdicts (j.real.handle t c).tree cs = k.verdicts t cs :=
      List.map_congr_left fun b member => by rw [seen b member]
    rw [unmoved, unmoved] at others
    exact congrArg₂ List.cons (dry_verdict first) others

theorem dry_next (j : Job) (c : Candidate) (text : Except IoError Text) : ∃ h, j.dry.next c text = .finish h := by
  cases text with
  | error e => exact ⟨_, rfl⟩
  | ok content =>
    simp only [next, dry, if_true]
    split
    · exact ⟨_, rfl⟩
    · exact ⟨_, rfl⟩

theorem dry_rewriting (j : Job) (t : FileTree) (c : Candidate) : j.dry.rewriting t c = none := by
  obtain ⟨h, finish⟩ := j.dry_next c (t.readText c.path)
  exact (verdict_of_finish finish).2

theorem dry_rewrites (t : FileTree) (cs : List Candidate) : j.dry.rewrites t cs = [] :=
  List.filterMap_eq_nil_iff.mpr fun c _ => j.dry_rewriting t c

/-- A dry run tells what the job reports and saves, if the candidates lead to different places. -/
theorem dry_run_foretells (apart : inv.candidates.Pairwise t.Apart) (unsaved : j.Unsaved t inv.candidates)
    (written : j.real.WritesSucceed t inv.candidates) : j.Foretold t inv := by
  have verdicts := dry_verdicts apart written
  have reports : (j.dry.runOn t inv).reports = (j.real.runOn t inv).reports := by
    by_cases full : inv.candidates = []
    · rw [(runOn_of_nil full).1, (runOn_of_nil full).1]
    · have foretold := congrArg Prod.fst (runOn_eq j.dry inv apart full)
      have done := congrArg Prod.fst (runOn_eq j.real inv apart full)
      rw [verdicts] at foretold
      exact foretold.trans done.symm
  refine ⟨reports, by rw [reports], by rw [reports], ?_, ?_, ?_⟩
  · intro full q chosen loc present opened
    have diffs : j.dry.diffText t inv.candidates = j.real.diffText t inv.candidates := by
      rw [diffText, diffText, verdicts]
    refine ⟨node?_diffs (j := j.dry) apart unsaved full chosen opened, ?_⟩
    rw [diffs]
    exact node?_diffs (j := j.real) apart unsaved full chosen opened
  · intro none
    exact ⟨(runOn_of_nil none).2, (runOn_of_nil none).2⟩
  · intro loc elsewhere
    have unsavedDry : j.dry.Unsaved t inv.candidates := unsaved
    rw [node?_runOn apart unsavedDry elsewhere, dry_rewrites]
    rfl

theorem mixed_files_are_foretold :
    Inventory.mixed.candidates.Pairwise FileTree.mixed.Apart ∧
      (tiny true).Unsaved .mixed Inventory.mixed.candidates ∧
      (tiny true).real.WritesSucceed .mixed Inventory.mixed.candidates ∧ (tiny true).Foretold .mixed .mixed := by
  have apart : Inventory.mixed.candidates.Pairwise FileTree.mixed.Apart := by decide
  have written : (tiny true).real.WritesSucceed .mixed Inventory.mixed.candidates := by
    refine ⟨?_, ?_, ?_, True.intro⟩
    · intro p e failed
      cases failed
    · intro p e failed
      cases failed
    · intro p e failed
      cases failed
  have unsaved : (tiny true).Unsaved .mixed Inventory.mixed.candidates :=
    fun c listed => tiny_unsaved true c (List.mem_cons_of_mem _ listed)
  exact ⟨apart, unsaved, written, dry_run_foretells apart unsaved written⟩

end Job

end LicenseHeaders
