import LicenseHeaders.Proofs.Framing
import LicenseHeaders.Proofs.Workers

namespace LicenseHeaders

namespace Job

def diffText (j : Job) (t : FileTree) (cs : List Candidate) : Text :=
  ((inOrder (j.verdicts t cs)).filterMap Handled.diff).flatten

structure Independent (j : Job) (t : FileTree) (inv : Inventory) : Prop where
  placed : ∀ c ∈ inv.candidates, ∀ loc bytes content, t.find c.path = .ok (loc, .file bytes) →
    t.refusal? loc = none → Text.decode? bytes = some content →
    (j.runOn t inv).tree.node? loc = some (.file (j.place c.dialect content).content.encode)
  saved : inv.candidates ≠ [] → ∀ q ∈ j.diffs.savedTo, ∀ loc present, t.sink q = .ok (.file loc present) →
    (j.runOn t inv).tree.node? loc = some (.file (present ++ (j.diffText t inv.candidates).encode))
  kept : ∀ loc, ¬ j.diffs.SavesTo t loc →
    (∀ c ∈ inv.candidates, ∀ bytes, t.find c.path = .ok (loc, .file bytes) → t.refusal? loc = none →
      Text.decode? bytes = none) →
    (j.runOn t inv).tree.node? loc = t.node? loc
  reported : inv.candidates ≠ [] →
    (j.runOn t inv).reports = FileReport.sorted (inv.skipped.map skippedReport ++
      FileReport.sorted (inv.candidates.map fun c => (j.verdict c (t.seen c.path)).report))
  idle : inv.candidates = [] → (j.runOn t inv).reports = inv.skipped.map skippedReport ∧ (j.runOn t inv).tree = t
  reordered : ∀ others : List Candidate, others.Perm inv.candidates →
    (j.runOn t ⟨others, inv.skipped⟩).tree = (j.runOn t inv).tree ∧
      (j.runOn t ⟨others, inv.skipped⟩).reports.Perm (j.runOn t inv).reports ∧
      (LostOnce t inv.candidates → (j.runOn t ⟨others, inv.skipped⟩).reports = (j.runOn t inv).reports)
  shared : inv.candidates ≠ [] → ∀ s, Relation.ReflTransGen j.Step (Shift.start t inv.candidates) s →
    (∃ e, Relation.ReflTransGen j.Step s e ∧ j.Ended e) ∧
      (j.Ended s → j.conclude inv.skipped s.handled s.tree = ((j.runOn t inv).reports, (j.runOn t inv).tree))

variable {j : Job} {t : FileTree} {inv : Inventory}

theorem node?_elsewhere {loc : Location} (apart : inv.candidates.Pairwise t.Apart)
    (unsaved : j.Unsaved t inv.candidates) (elsewhere : ¬ j.diffs.SavesTo t loc)
    (closed : ∀ c ∈ inv.candidates, ∀ bytes, t.find c.path = .ok (loc, .file bytes) → t.refusal? loc = none →
      Text.decode? bytes = none) :
    (j.runOn t inv).tree.node? loc = t.node? loc := by
  rw [node?_runOn apart unsaved elsewhere]
  refine FileTree.node?_overwrite_of_notMem (overwrites_rewrites j apart) ?_
  rintro w member rfl
  obtain ⟨c, listed, written⟩ := List.mem_filterMap.mp member
  obtain ⟨bytes, content, found, willing, decoded⟩ := find_of_rewriting written
  have undecoded := closed c listed bytes found willing
  rw [decoded] at undecoded
  cases undecoded

theorem node?_diffs (apart : inv.candidates.Pairwise t.Apart) (unsaved : j.Unsaved t inv.candidates)
    (full : inv.candidates ≠ []) {q : FilePath} {loc : Location} {present : ByteArray}
    (chosen : q ∈ j.diffs.savedTo) (opened : t.sink q = .ok (.file loc present)) :
    (j.runOn t inv).tree.node? loc = some (.file (present ++ (j.diffText t inv.candidates).encode)) := by
  have tree := congrArg Prod.snd (runOn_eq j inv apart full)
  have still := sink_after_rewrites apart unsaved chosen
  rw [opened] at still
  simp only [conclude] at tree
  rw [tree, DiffOutput.node?_saved chosen still, diffText]

theorem reports_runOn (apart : inv.candidates.Pairwise t.Apart) (full : inv.candidates ≠ []) :
    (j.runOn t inv).reports = FileReport.sorted (inv.skipped.map skippedReport ++
      FileReport.sorted (inv.candidates.map fun c => (j.verdict c (t.seen c.path)).report)) := by
  have reports := congrArg Prod.fst (runOn_eq j inv apart full)
  rw [conclude_reports, verdicts, List.map_map] at reports
  exact reports

/-- Where the candidates lead to different places, and none to the saved diffs, they are independent. -/
theorem files_are_independent (real : j.dryRun = false) (apart : inv.candidates.Pairwise t.Apart)
    (unsaved : j.Unsaved t inv.candidates) : j.Independent t inv where
  placed _ listed _ _ _ found willing decoded := node?_candidate real apart unsaved listed found willing decoded
  saved full _ chosen _ _ opened := node?_diffs apart unsaved full chosen opened
  kept _ elsewhere closed := node?_elsewhere apart unsaved elsewhere closed
  reported full := reports_runOn apart full
  idle none := runOn_of_nil none
  reordered _ perm := runOn_perm perm apart
  shared full s run := ⟨exists_ended j s, conclude_of_ended apart full run⟩

end Job

def FileTree.mixed : FileTree :=
  -- The second file holds no text, the link leads to it, and the last file cannot be written.
  ⟨[([['a']], .file (Text.encode ['x'])), ([['b']], .file ⟨#[255]⟩), ([['l']], .link ⟨['b']⟩),
    ([['r']], .file (Text.encode ['y']))], [], [([['r']], .permissionDenied)]⟩

def Inventory.mixed : Inventory :=
  ⟨[⟨⟨['a']⟩, .native⟩, ⟨⟨['l']⟩, .tagged⟩, ⟨⟨['m']⟩, .native⟩], [(⟨⟨['b']⟩, .native⟩, "ignored")]⟩

def Inventory.refused : Inventory :=
  ⟨⟨⟨['r']⟩, .native⟩ :: Inventory.mixed.candidates, Inventory.mixed.skipped⟩

namespace Job

def tiny (dryRun : Bool) : Job where
  scope := ⟨⟨['.']⟩, ⟨[]⟩, ⟨⟨['.']⟩, []⟩, []⟩
  policy := .tiny .paired
  -- A text of one line passes for licensed.
  detector ls := ls.length == 1
  dryRun := dryRun
  diffs := ⟨false, some ⟨['d']⟩⟩

theorem tiny_unsaved (dryRun : Bool) : (tiny dryRun).Unsaved .mixed Inventory.refused.candidates := by
  rintro c listed loc located ⟨q, chosen, present, opened⟩
  obtain rfl : (⟨['d']⟩ : FilePath) = q := Option.some.inj chosen
  have sink : FileTree.mixed.sink ⟨['d']⟩ = .ok (.file [['d']] .empty) := rfl
  rw [sink] at opened
  cases opened
  have elsewhere : ∀ c ∈ Inventory.refused.candidates, FileTree.mixed.locate? c.path ≠ some [['d']] := by decide
  exact elsewhere c listed located

theorem mixed_files_are_independent :
    (tiny false).dryRun = false ∧ Inventory.refused.candidates.Pairwise FileTree.mixed.Apart ∧
      (tiny false).Unsaved .mixed Inventory.refused.candidates ∧ (tiny false).Independent .mixed .refused := by
  have apart : Inventory.refused.candidates.Pairwise FileTree.mixed.Apart := by decide
  exact ⟨rfl, apart, tiny_unsaved false, files_are_independent rfl apart (tiny_unsaved false)⟩

end Job

end LicenseHeaders
