import LicenseHeaders.Proofs.Handling
import LicenseHeaders.Proofs.PathIdentity
import Mathlib.Data.List.Pairwise

namespace LicenseHeaders

namespace DiffOutput

def SavesTo (d : DiffOutput) (t : FileTree) (loc : Location) : Prop :=
  ∃ q ∈ d.savedTo, ∃ present, t.sink q = .ok (.file loc present)

def saved (d : DiffOutput) (t : FileTree) (diffs : List Text) : FileTree :=
  match d.save t diffs with
  | .ok written => written
  | .error _ => t

variable {d : DiffOutput} {t : FileTree} {q : FilePath} {loc : Location}

theorem saved_eq {present : ByteArray} (chosen : d.savedTo = some q) (opened : t.sink q = .ok (.file loc present))
    (diffs : List Text) : d.saved t diffs = t.set loc (.file (present ++ Text.encode diffs.flatten)) := by
  simp only [saved, save, chosen, opened]
  rfl

theorem node?_saved {present : ByteArray} (chosen : d.savedTo = some q) (opened : t.sink q = .ok (.file loc present))
    (diffs : List Text) :
    (d.saved t diffs).node? loc = some (.file (present ++ Text.encode diffs.flatten)) := by
  rw [saved_eq chosen opened, FileTree.node?_set _ _ _ _ (FileTree.ne_nil_of_sink opened), if_pos rfl]

theorem node?_saved_elsewhere (elsewhere : ¬ d.SavesTo t loc) (diffs : List Text) :
    (d.saved t diffs).node? loc = t.node? loc := by
  cases chosen : d.savedTo with
  | none => simp only [saved, save, chosen]
  | some q =>
    cases opened : t.sink q with
    | error e => simp only [saved, save, chosen, opened]
    | ok s =>
      cases s with
      | file l present =>
        have apart : loc ≠ l := by
          rintro rfl
          exact elsewhere ⟨q, chosen, present, opened⟩
        rw [saved_eq chosen opened, FileTree.node?_set _ _ _ _ (FileTree.ne_nil_of_sink opened), if_neg apart]
      | device kind =>
        have stays : d.saved t diffs = t := by
          simp only [saved, save, chosen, opened, FileTree.extend, FileTree.fill]
          cases kind with
          | null => rfl
          | full => cases (Text.encode diffs.flatten).isEmpty <;> rfl
        rw [stays]

end DiffOutput

theorem FileReport.sorted_perm (reports : List FileReport) : (sorted reports).Perm reports :=
  List.mergeSort_perm reports _

namespace Job

def inOrder (handled : List Handled) : List Handled :=
  handled.mergeSort fun a b => a.report.path.le b.report.path

def conclude (j : Job) (skipped : List (Candidate × String)) (handled : List Handled) (t : FileTree) :
    List FileReport × FileTree :=
  (FileReport.sorted (skipped.map skippedReport ++ (inOrder handled).map Handled.report),
    j.diffs.saved t ((inOrder handled).filterMap Handled.diff))

def verdicts (j : Job) (t : FileTree) (cs : List Candidate) : List Handled :=
  cs.map fun c => j.verdict c (t.seen c.path)

variable {j : Job} {t : FileTree} {inv : Inventory} {cs : List Candidate} {loc : Location}

theorem runOn_of_nil (none : inv.candidates = []) :
    (j.runOn t inv).reports = inv.skipped.map skippedReport ∧ (j.runOn t inv).tree = t := by
  simp [runOn, none]

theorem runOn_eq_conclude (full : inv.candidates ≠ []) :
    ((j.runOn t inv).reports, (j.runOn t inv).tree) =
      j.conclude inv.skipped (j.handleAll t inv.candidates).1 (j.handleAll t inv.candidates).2.2 := by
  have more : inv.candidates.isEmpty = false := by simpa using full
  simp only [runOn, more, conclude, inOrder, DiffOutput.saved]
  cases j.diffs.save (j.handleAll t inv.candidates).2.2 _ <;> rfl

theorem runOn_eq (j : Job) (inv : Inventory) (apart : inv.candidates.Pairwise t.Apart)
    (full : inv.candidates ≠ []) :
    ((j.runOn t inv).reports, (j.runOn t inv).tree) =
      j.conclude inv.skipped (j.verdicts t inv.candidates) (t.overwrite (j.rewrites t inv.candidates)) := by
  obtain ⟨handled, tree⟩ := handleAll_eq j apart
  rw [runOn_eq_conclude full, handled, tree, verdicts]

theorem map_report_inOrder (handled : List Handled) :
    (inOrder handled).map Handled.report = FileReport.sorted (handled.map Handled.report) :=
  List.map_mergeSort fun _ _ _ _ => rfl

theorem conclude_reports (j : Job) (skipped : List (Candidate × String)) (handled : List Handled) (t : FileTree) :
    (j.conclude skipped handled t).1 =
      FileReport.sorted (skipped.map skippedReport ++ FileReport.sorted (handled.map Handled.report)) := by
  rw [← map_report_inOrder]
  rfl

theorem reports_perm (full : inv.candidates ≠ []) :
    (j.runOn t inv).reports.Perm
      (inv.skipped.map skippedReport ++ (j.handleAll t inv.candidates).1.map Handled.report) := by
  have reports : (j.runOn t inv).reports = _ := congrArg Prod.fst (runOn_eq_conclude full)
  rw [reports, conclude_reports]
  exact (FileReport.sorted_perm _).trans ((FileReport.sorted_perm _).append_left _)

def Unsaved (j : Job) (t : FileTree) (cs : List Candidate) : Prop :=
  ∀ c ∈ cs, ∀ loc, t.locate? c.path = some loc → ¬ j.diffs.SavesTo t loc

theorem sink_after_rewrites (apart : cs.Pairwise t.Apart) (unsaved : j.Unsaved t cs)
    {q : FilePath} (chosen : q ∈ j.diffs.savedTo) : (t.overwrite (j.rewrites t cs)).sink q = t.sink q := by
  refine FileTree.sink_overwrite_all (overwrites_rewrites j apart) ?_
  intro w member present opened
  obtain ⟨c, listed, written⟩ := List.mem_filterMap.mp member
  exact unsaved c listed w.1 (locate?_of_rewriting written) ⟨q, chosen, present, opened⟩

theorem savesTo_after_rewrites (apart : cs.Pairwise t.Apart)
    (unsaved : j.Unsaved t cs) : j.diffs.SavesTo (t.overwrite (j.rewrites t cs)) loc ↔ j.diffs.SavesTo t loc := by
  unfold DiffOutput.SavesTo
  refine exists_congr fun q => and_congr_right fun chosen => ?_
  rw [sink_after_rewrites apart unsaved chosen]

theorem node?_runOn (apart : inv.candidates.Pairwise t.Apart)
    (unsaved : j.Unsaved t inv.candidates) (elsewhere : ¬ j.diffs.SavesTo t loc) :
    (j.runOn t inv).tree.node? loc = (t.overwrite (j.rewrites t inv.candidates)).node? loc := by
  by_cases full : inv.candidates = []
  · rw [(runOn_of_nil full).2, full]
    rfl
  · have tree := congrArg Prod.snd (runOn_eq j inv apart full)
    rw [← savesTo_after_rewrites apart unsaved] at elsewhere
    simp only at tree
    rw [tree, conclude, DiffOutput.node?_saved_elsewhere elsewhere]

theorem node?_candidate (real : j.dryRun = false)
    (apart : inv.candidates.Pairwise t.Apart) (unsaved : j.Unsaved t inv.candidates)
    {c : Candidate} (listed : c ∈ inv.candidates) {bytes : ByteArray} {content : Text}
    (found : t.find c.path = .ok (loc, .file bytes)) (willing : t.refusal? loc = none)
    (decoded : Text.decode? bytes = some content) :
    (j.runOn t inv).tree.node? loc = some (.file (j.place c.dialect content).content.encode) := by
  have ok := overwrites_rewrites j apart
  have located := FileTree.locate?_of_find found
  rw [node?_runOn apart unsaved (unsaved c listed loc located)]
  have rewriting : j.rewriting t c =
      if (j.place c.dialect content).content = content then none
      else some (loc, (j.place c.dialect content).content.encode) :=
    rewriting_of_text real found willing decoded
  by_cases same : (j.place c.dialect content).content = content
  · rw [if_pos same] at rewriting
    have kept : ∀ w ∈ j.rewrites t inv.candidates, w.1 ≠ loc := by
      intro w member here
      obtain ⟨other, listedOther, written⟩ := List.mem_filterMap.mp member
      by_cases itself : other = c
      · rw [itself, rewriting] at written
        cases written
      · have locatedOther := locate?_of_rewriting written
        rw [here] at locatedOther
        exact apart.forall listedOther listed itself loc locatedOther located
    rw [FileTree.node?_overwrite_of_notMem ok kept, FileTree.node?_of_find found, same,
      Text.encode_of_decode? decoded]
  · rw [if_neg same] at rewriting
    have member : (loc, (j.place c.dialect content).content.encode) ∈ j.rewrites t inv.candidates :=
      List.mem_filterMap.mpr ⟨c, listed, rewriting⟩
    exact FileTree.node?_overwrite_of_mem ok member

/-- A path that leads nowhere is listed once, however it is spelt. Nothing is asked of paths that lead somewhere. -/
def LostOnce (t : FileTree) (cs : List Candidate) : Prop :=
  cs.Pairwise fun a b => t.locate? a.path = none ∨ t.locate? b.path = none → a.path.key ≠ b.path.key

instance (t : FileTree) : Std.Symm fun a b : Candidate =>
    t.locate? a.path = none ∨ t.locate? b.path = none → a.path.key ≠ b.path.key :=
  ⟨fun _ _ once lost same => once lost.symm same.symm⟩

theorem eq_of_key_eq_of_located (apart : cs.Pairwise t.Apart) {a b : Candidate} (listedA : a ∈ cs) (listedB : b ∈ cs)
    (locatedA : t.locate? a.path ≠ none) (locatedB : t.locate? b.path ≠ none) (same : a.path.key = b.path.key) :
    a = b := by
  by_contra different
  obtain ⟨l, first⟩ := Option.ne_none_iff_exists'.mp locatedA
  obtain ⟨m, second⟩ := Option.ne_none_iff_exists'.mp locatedB
  obtain rfl := FileTree.locate?_of_key_eq same first second
  exact apart.forall listedA listedB different l first second

theorem eq_of_key_eq (apart : cs.Pairwise t.Apart) (once : LostOnce t cs) {a b : Candidate} (listedA : a ∈ cs)
    (listedB : b ∈ cs) (same : a.path.key = b.path.key) : a = b := by
  by_contra different
  have located := once.forall listedA listedB different
  by_cases lost : t.locate? a.path = none ∨ t.locate? b.path = none
  · exact located lost same
  · rw [not_or] at lost
    exact different (eq_of_key_eq_of_located apart listedA listedB lost.1 lost.2 same)

theorem inOrder_perm (handled : List Handled) : (inOrder handled).Perm handled :=
  List.mergeSort_perm handled _

theorem pairwise_inOrder (handled : List Handled) :
    (inOrder handled).Pairwise fun a b => a.report.path.le b.report.path = true :=
  FilePath.pairwise_mergeSort (fun h : Handled => h.report.path) handled

theorem eq_of_perm_of_inOrder {handled handled' : List Handled} (perm : handled.Perm handled')
    (sorted : handled.Pairwise fun a b => a.report.path.le b.report.path = true)
    (sorted' : handled'.Pairwise fun a b => a.report.path.le b.report.path = true)
    (distinct : ∀ a ∈ handled, ∀ b ∈ handled, a.report.path.key = b.report.path.key → a = b) :
    handled = handled' := by
  refine List.Perm.eq_of_pairwise ?_ sorted sorted' perm
  intro a b memberA memberB first second
  exact distinct a memberA b (perm.symm.subset memberB) (FilePath.key_eq_of_le first second)

variable {others : List Candidate}

theorem inOrder_verdicts_perm (j : Job) (t : FileTree) (perm : others.Perm cs) :
    (inOrder (j.verdicts t others)).Perm (inOrder (j.verdicts t cs)) :=
  ((inOrder_perm _).trans (perm.map _)).trans (inOrder_perm _).symm

theorem exists_candidate {h : Handled} (member : h ∈ inOrder (j.verdicts t cs)) :
    ∃ c ∈ cs, j.verdict c (t.seen c.path) = h :=
  List.mem_map.mp ((inOrder_perm _).subset member)

theorem inOrder_verdicts_eq (perm : others.Perm cs) (apart : cs.Pairwise t.Apart) (once : LostOnce t cs) :
    inOrder (j.verdicts t others) = inOrder (j.verdicts t cs) := by
  refine eq_of_perm_of_inOrder (inOrder_verdicts_perm j t perm) (pairwise_inOrder _) (pairwise_inOrder _) ?_
  intro a memberA b memberB same
  obtain ⟨c, listed, rfl⟩ := exists_candidate memberA
  obtain ⟨c', listed', rfl⟩ := exists_candidate memberB
  rw [path_verdict, path_verdict] at same
  rw [eq_of_key_eq apart once (perm.subset listed) (perm.subset listed') same]

theorem located_of_diff {c : Candidate} (changed : (j.verdict c (t.seen c.path)).diff.isSome) :
    t.locate? c.path ≠ none := by
  intro lost
  have unseen : ∃ e, t.seen c.path = .error e := by
    unfold FileTree.seen
    cases found : t.find c.path with
    | error e => exact ⟨e, rfl⟩
    | ok place =>
      rw [FileTree.locate?_of_find found] at lost
      cases lost
  obtain ⟨e, unseen⟩ := unseen
  rw [unseen] at changed
  cases changed

theorem filterMap_diff (handled : List Handled) :
    handled.filterMap Handled.diff = (handled.filter (·.diff.isSome)).filterMap Handled.diff := by
  induction handled with
  | nil => rfl
  | cons h handled ih =>
    cases diff : h.diff with
    | none => simpa [diff] using ih
    | some text => simpa [diff] using ih

theorem diffs_inOrder_eq (perm : others.Perm cs) (apart : cs.Pairwise t.Apart) :
    (inOrder (j.verdicts t others)).filterMap Handled.diff = (inOrder (j.verdicts t cs)).filterMap Handled.diff := by
  -- Lost paths may come in either order, but they have no diff.
  rw [filterMap_diff, filterMap_diff (inOrder (j.verdicts t cs))]
  congr 1
  refine eq_of_perm_of_inOrder ((inOrder_verdicts_perm j t perm).filter _) ((pairwise_inOrder _).filter _)
    ((pairwise_inOrder _).filter _) ?_
  intro a memberA b memberB same
  obtain ⟨inA, changedA⟩ := List.mem_filter.mp memberA
  obtain ⟨inB, changedB⟩ := List.mem_filter.mp memberB
  obtain ⟨c, listed, rfl⟩ := exists_candidate inA
  obtain ⟨c', listed', rfl⟩ := exists_candidate inB
  rw [path_verdict, path_verdict] at same
  rw [eq_of_key_eq_of_located apart (perm.subset listed) (perm.subset listed') (located_of_diff changedA)
    (located_of_diff changedB) same]

theorem runOn_perm {skipped : List (Candidate × String)} (perm : others.Perm cs) (apart : cs.Pairwise t.Apart) :
    (j.runOn t ⟨others, skipped⟩).tree = (j.runOn t ⟨cs, skipped⟩).tree ∧
      (j.runOn t ⟨others, skipped⟩).reports.Perm (j.runOn t ⟨cs, skipped⟩).reports ∧
      (LostOnce t cs → (j.runOn t ⟨others, skipped⟩).reports = (j.runOn t ⟨cs, skipped⟩).reports) := by
  by_cases full : cs = []
  · subst full
    obtain rfl := perm.eq_nil
    exact ⟨rfl, List.Perm.refl _, fun _ => rfl⟩
  · have full' : others ≠ [] := fun none => full (by rw [none] at perm; exact perm.symm.eq_nil)
    have apart' : others.Pairwise t.Apart := perm.symm.pairwise apart (Std.Symm.symm _ _)
    have first := runOn_eq j ⟨others, skipped⟩ apart' full'
    have second := runOn_eq j ⟨cs, skipped⟩ apart full
    have writes : (j.rewrites t others).Perm (j.rewrites t cs) := perm.filterMap _
    rw [FileTree.overwrite_perm writes (overwrites_rewrites j apart)] at first
    obtain ⟨reports, tree⟩ := Prod.mk.inj first
    obtain ⟨reports', tree'⟩ := Prod.mk.inj second
    refine ⟨?_, ?_, fun once => ?_⟩
    · rw [tree, tree', diffs_inOrder_eq perm apart]
    · rw [reports, reports']
      have files := (inOrder_verdicts_perm j t perm).map Handled.report
      exact ((List.mergeSort_perm _ _).trans (files.append_left _)).trans (List.mergeSort_perm _ _).symm
    · rw [reports, reports', inOrder_verdicts_eq perm apart once]

end Job

end LicenseHeaders
