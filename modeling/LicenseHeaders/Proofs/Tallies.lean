import LicenseHeaders.Proofs.RunStages
import Mathlib.Data.List.Basic

namespace LicenseHeaders

def Breakdown.list (b : Breakdown) : Action → List FileReport
  | .replaced => b.replaced
  | .inserted => b.inserted
  | .unchanged => b.unchanged
  | .failed => b.failed
  | .skipped => b.skipped

def Summary.count (s : Summary) : Action → Nat
  | .replaced => s.replaced
  | .inserted => s.inserted
  | .unchanged => s.unchanged
  | .failed => s.failed
  | .skipped => s.skipped

namespace FileReport

structure Tallied (reports : List FileReport) (b : Breakdown) (s : Summary) : Prop where
  listed : ∀ a, b.list a = reports.filter (·.action == a)
  once : (Action.all.flatMap b.list).Perm reports
  counted : ∀ a, s.count a = (b.list a).length
  summed : s.replaced + s.inserted + s.unchanged + s.failed + s.skipped = s.total
  total : s.total = reports.length
  changed : (anyChanged reports = true ↔ b.hasChanges = true) ∧ (b.hasChanges = true ↔ 0 < s.changed)
  failed : (anyFailed reports = true ↔ b.failed ≠ []) ∧ (b.failed ≠ [] ↔ 0 < s.failed)

variable {reports : List FileReport} {elapsed : Duration} {timestamp : Option Int}

theorem anyFailed_iff : anyFailed reports = true ↔ ∃ r ∈ reports, r.action = .failed := by
  simp [anyFailed]

theorem anyChanged_iff :
    anyChanged reports = true ↔ ∃ r ∈ reports, r.action = .replaced ∨ r.action = .inserted := by
  have changes (a : Action) : a.changesFile = true ↔ a = .replaced ∨ a = .inserted := by
    cases a <;> simp [Action.changesFile]
  simp [anyChanged, changes]

theorem settled_iff :
    anyFailed reports = false ∧ anyChanged reports = false ↔
      ∀ r ∈ reports, r.action = .unchanged ∨ r.action = .skipped := by
  rw [← Bool.not_eq_true, ← Bool.not_eq_true, anyFailed_iff, anyChanged_iff]
  constructor
  · rintro ⟨noFailure, noChange⟩ r member
    cases action : r.action with
    | failed => exact absurd ⟨r, member, action⟩ noFailure
    | replaced => exact absurd ⟨r, member, Or.inl action⟩ noChange
    | inserted => exact absurd ⟨r, member, Or.inr action⟩ noChange
    | unchanged => exact Or.inl rfl
    | skipped => exact Or.inr rfl
  · intro settled
    refine ⟨?_, ?_⟩
    · rintro ⟨r, member, action⟩
      simpa [action] using settled r member
    · rintro ⟨r, member, action⟩
      rcases action with action | action <;> simpa [action] using settled r member

theorem list_ofReports (reports : List FileReport) (a : Action) :
    (Breakdown.ofReports reports).list a = reports.filter (·.action == a) := by
  cases a <;> rfl

theorem count_ofReports (a : Action) :
    (Summary.ofReports reports elapsed timestamp).count a = reports.countP (·.action == a) := by
  cases a <;> rfl

theorem lists_perm (reports : List FileReport) :
    (Action.all.flatMap fun a => reports.filter (·.action == a)).Perm reports := by
  rw [List.perm_iff_count]
  intro r
  have part (a : Action) : (reports.filter (·.action == a)).count r = if r.action = a then reports.count r else 0 := by
    by_cases same : r.action = a
    · rw [if_pos same, List.count_filter (by simpa using same)]
    · rw [if_neg same, List.count_eq_zero]
      exact fun member => same (by simpa using List.of_mem_filter member)
  simp only [Action.all, List.flatMap_cons, List.flatMap_nil, List.count_append, List.count_nil, part]
  cases r.action <;> simp

theorem list_ne_nil_iff (reports : List FileReport) (a : Action) :
    reports.filter (·.action == a) ≠ [] ↔ ∃ r ∈ reports, r.action = a := by
  simp [List.filter_eq_nil_iff]

theorem hasChanges_ofReports : (Breakdown.ofReports reports).hasChanges = anyChanged reports := by
  rw [Bool.eq_iff_iff, anyChanged_iff]
  have replaced := list_ne_nil_iff reports .replaced
  have inserted := list_ne_nil_iff reports .inserted
  simp only [Breakdown.hasChanges, Breakdown.ofReports, Bool.or_eq_true, Bool.not_eq_true', List.isEmpty_eq_false_iff,
    replaced, inserted, and_or_left, exists_or]

theorem changed_ofReports : 0 < (Summary.ofReports reports elapsed timestamp).changed ↔ anyChanged reports = true := by
  rw [anyChanged_iff, Summary.changed, Nat.add_pos_iff_pos_or_pos]
  simp only [Summary.ofReports, List.countP_pos_iff, beq_iff_eq, and_or_left, exists_or]

theorem failed_ofReports : 0 < (Summary.ofReports reports elapsed timestamp).failed ↔ anyFailed reports = true := by
  rw [anyFailed_iff]
  simp only [Summary.ofReports, List.countP_pos_iff, beq_iff_eq]

theorem failed_isEmpty_ofReports : (Breakdown.ofReports reports).failed.isEmpty = !anyFailed reports := by
  rw [Bool.eq_iff_iff, Bool.not_eq_true', ← Bool.not_eq_true, anyFailed_iff, ← list_ne_nil_iff, not_ne_iff]
  exact List.isEmpty_iff

theorem tallied (reports : List FileReport) (elapsed : Duration) (timestamp : Option Int) :
    Tallied reports (Breakdown.ofReports reports) (Summary.ofReports reports elapsed timestamp) := by
  have once : (Action.all.flatMap (Breakdown.ofReports reports).list).Perm reports := by
    rw [funext (list_ofReports reports)]
    exact lists_perm reports
  have counted (a : Action) :
      (Summary.ofReports reports elapsed timestamp).count a = ((Breakdown.ofReports reports).list a).length := by
    rw [count_ofReports, list_ofReports, List.countP_eq_length_filter]
  have failures : (Breakdown.ofReports reports).failed ≠ [] ↔ anyFailed reports = true := by
    rw [← List.isEmpty_eq_false_iff, failed_isEmpty_ofReports, Bool.not_eq_false']
  refine ⟨list_ofReports reports, once, counted, ?_, rfl, ?_, ?_⟩
  · have lengths := once.length_eq
    simp only [Action.all, List.flatMap_cons, List.flatMap_nil, List.length_append, List.length_nil, ← counted,
      Summary.count] at lengths
    simp only [Summary.ofReports] at lengths ⊢
    omega
  · rw [hasChanges_ofReports, changed_ofReports]
    exact ⟨Iff.rfl, Iff.rfl⟩
  · rw [failures, failed_ofReports]
    exact ⟨Iff.rfl, Iff.rfl⟩

end FileReport

namespace Console

def allGoodLine (c : Console) : Text :=
  c.paint .green [success] ++ " All files carry the canonical header.".toList

variable {c : Console} {root : FilePath} {heading l : Text} {withDetail dryRun : Bool} {reports files : List FileReport}
  {s : Summary}

theorem mem_of_mem_unlessQuiet {ls : List Text} (member : l ∈ c.unlessQuiet ls) : l ∈ ls := by
  unfold unlessQuiet at member
  split at member
  · cases member
  · exact member

theorem ne_allGoodLine_of_head {x : Char} (head : l.head? = some x) (noSymbol : x ≠ success) (noColor : x ≠ '\x1b') :
    l ≠ c.allGoodLine := by
  rintro rfl
  cases colored : c.colored with
  | true => exact noColor (by simpa [allGoodLine, paint, Tint.paint, colored, Tint.codes, Tint.escape] using head.symm)
  | false => exact noSymbol (by simpa [allGoodLine, paint, Tint.paint, colored] using head.symm)

theorem painted_ne_allGoodLine {tint : Tint} {x : Char} {rest more : Text} (notGreen : tint ≠ .green)
    (noSymbol : x ≠ success) : c.paint tint (x :: rest) ++ more ≠ c.allGoodLine := by
  cases colored : c.colored with
  | true =>
    cases tint with
    | green => exact absurd rfl notGreen
    | red | yellow | cyan | dimmed => simp [allGoodLine, paint, Tint.paint, colored, Tint.codes, Tint.escape]
  | false => simp [allGoodLine, paint, Tint.paint, colored, noSymbol]

theorem head_entry (c : Console) (root : FilePath) (withDetail : Bool) (r : FileReport) :
    (c.entry root withDetail r).head? = some ' ' := by
  unfold entry
  cases r.detail <;> cases withDetail <;> rfl

theorem mem_list (loud : c.verbosity ≠ .quiet) (member : l ∈ c.list heading root withDetail files) :
    l = heading ∨ l.head? = some ' ' := by
  unfold list at member
  split at member
  · cases member
  have ofEntry {rs : List FileReport} (listed : l ∈ rs.map (c.entry root withDetail)) : l.head? = some ' ' := by
    obtain ⟨r, -, rfl⟩ := List.mem_map.mp listed
    exact c.head_entry root withDetail r
  split at member
  · rename_i quiet
    exact absurd quiet loud
  · rcases List.mem_cons.mp member with same | listed
    · exact Or.inl same
    · exact Or.inr (ofEntry listed)
  · rcases List.mem_append.mp member with shown | announced
    · rcases List.mem_cons.mp shown with same | listed
      · exact Or.inl same
      · exact Or.inr (ofEntry listed)
    · split at announced
      · cases announced
      · obtain rfl := List.mem_singleton.mp announced
        exact Or.inr rfl

theorem allGoodLine_notMem_list (loud : c.verbosity ≠ .quiet) (apart : heading ≠ c.allGoodLine) :
    c.allGoodLine ∉ c.list heading root withDetail files := by
  intro member
  rcases mem_list loud member with same | blank
  · exact apart same.symm
  · exact ne_allGoodLine_of_head blank (by decide) (by decide) rfl

theorem allGoodLine_notMem_replaced (loud : c.verbosity ≠ .quiet) :
    c.allGoodLine ∉ c.replaced root dryRun files := by
  refine allGoodLine_notMem_list loud ?_
  simp only [heading, List.append_assoc]
  exact painted_ne_allGoodLine (by decide) (by decide)

theorem allGoodLine_notMem_failed (loud : c.verbosity ≠ .quiet) : c.allGoodLine ∉ c.failed root files := by
  refine allGoodLine_notMem_list loud ?_
  simp only [Console.heading, List.append_assoc]
  exact painted_ne_allGoodLine (by decide) (by decide)

theorem allGoodLine_notMem_inserted (loud : c.verbosity ≠ .quiet) :
    c.allGoodLine ∉ c.inserted root dryRun files := by
  refine allGoodLine_notMem_list loud ?_
  -- Both lines begin with the same symbol, and part at the first letter behind it.
  simp only [Console.heading, allGoodLine, List.append_assoc]
  cases dryRun <;> simp

theorem allGoodLine_notMem_start (count : Nat) : c.allGoodLine ∉ c.start count dryRun := by
  intro member
  obtain same := List.mem_singleton.mp (mem_of_mem_unlessQuiet member)
  refine ne_allGoodLine_of_head (x := if dryRun then 'C' else 'P') ?_ ?_ ?_ same.symm <;> cases dryRun <;> simp [success]

theorem allGoodLine_notMem_blankLine : c.allGoodLine ∉ c.blankLine := by
  intro member
  have same := List.mem_singleton.mp (mem_of_mem_unlessQuiet member)
  simp [allGoodLine] at same

theorem allGoodLine_notMem_summary : c.allGoodLine ∉ c.summary s := by
  intro member
  have same := List.mem_singleton.mp (mem_of_mem_unlessQuiet member)
  exact ne_allGoodLine_of_head (x := 'S') (by simp) (by decide) (by decide) same.symm

theorem allGoodLine_notMem_remark {message : Text} {x : Char} {rest : Text} (text : message = x :: rest)
    (noSymbol : x ≠ success) : c.allGoodLine ∉ c.remark message := by
  intro member
  have same := List.mem_singleton.mp (mem_of_mem_unlessQuiet member)
  have apart : c.paint .yellow (x :: rest) ++ [] ≠ c.allGoodLine := painted_ne_allGoodLine (by decide) noSymbol
  rw [List.append_nil, ← text] at apart
  exact apart same.symm

theorem allGoodLine_mem_results (loud : c.verbosity ≠ .quiet) :
    c.allGoodLine ∈ c.results root dryRun reports s ↔
      FileReport.anyFailed reports = false ∧ FileReport.anyChanged reports = false := by
  have gap (wanted : Bool) : c.allGoodLine ∉ (if wanted then c.blankLine else []) := by
    cases wanted
    · exact List.not_mem_nil
    · exact allGoodLine_notMem_blankLine
  have hint : c.allGoodLine ∉ c.remark checkHint.toList := allGoodLine_notMem_remark rfl (by decide)
  have after : c.allGoodLine ∉
      (if dryRun && (Breakdown.ofReports reports).hasChanges then c.blankLine ++ c.remark checkHint.toList else []) := by
    split
    · simp [hint, allGoodLine_notMem_blankLine]
    · exact List.not_mem_nil
  have news : c.allGoodLine ∈ c.allGood := by
    rw [allGood, unlessQuiet_of_loud loud]
    exact List.mem_singleton_self _
  rw [← FileReport.hasChanges_ofReports]
  simp only [results, List.mem_append, after, gap, allGoodLine_notMem_blankLine, allGoodLine_notMem_summary,
    allGoodLine_notMem_replaced loud, allGoodLine_notMem_inserted loud, or_false, false_or,
    FileReport.failed_isEmpty_ofReports, Bool.not_not]
  cases FileReport.anyFailed reports with
  | true => simp [gap, allGoodLine_notMem_failed loud]
  | false => cases (Breakdown.ofReports reports).hasChanges <;> simp [news]

end Console

namespace Options

structure Conclusive (o : Options) (around : Surroundings) (t : FileTree) (inv : Inventory) (outcome : Job.Outcome) :
    Prop where
  out : (o.run around t).out = Text.unlines (o.printed around inv outcome)
  binary : (o.run around t).status = 0 ∨ (o.run around t).status = 1
  failing : (o.run around t).status = 1 ↔
    (∃ r ∈ outcome.reports, r.action = .failed) ∨
      o.check = true ∧ ∃ r ∈ outcome.reports, r.action = .replaced ∨ r.action = .inserted
  allGood : o.verbosity ≠ .quiet →
    ((o.console around).allGoodLine ∈ o.printed around inv outcome ↔
      ∀ r ∈ outcome.reports, r.action = .unchanged ∨ r.action = .skipped)
  checked : o.verbosity ≠ .quiet → o.check = true →
    ((o.console around).allGoodLine ∈ o.printed around inv outcome ↔ (o.run around t).status = 0)

variable {o : Options} {around : Surroundings} {t : FileTree} {j : Job} {inv : Inventory}

theorem allGoodLine_notMem_written (outcome : Job.Outcome) :
    (o.console around).allGoodLine ∉ (o.written around outcome).out := by
  intro member
  obtain ⟨f, p, remark⟩ := mem_out_writeReports member
  have text : ∃ rest, (s!"Generated {f.name} report at {p}").toList = 'G' :: rest := by simp [toString]
  obtain ⟨rest, text⟩ := text
  exact Console.allGoodLine_notMem_remark text (by decide) remark

theorem fails_iff (o : Options) (around : Surroundings) (reports : List FileReport) :
    o.fails (figures around reports) = true ↔
      FileReport.anyFailed reports = true ∨ o.check = true ∧ FileReport.anyChanged reports = true := by
  simp only [fails, figures, Bool.or_eq_true, Bool.and_eq_true, decide_eq_true_eq, FileReport.failed_ofReports,
    FileReport.changed_ofReports]

theorem allGoodLine_mem_printed (loud : o.verbosity ≠ .quiet) (outcome : Job.Outcome) :
    (o.console around).allGoodLine ∈ o.printed around inv outcome ↔
      FileReport.anyFailed outcome.reports = false ∧ FileReport.anyChanged outcome.reports = false := by
  simp only [printed, account, List.mem_append, Console.allGoodLine_notMem_start, allGoodLine_notMem_written,
    false_or, or_false]
  exact Console.allGoodLine_mem_results loud

theorem conclusive (reached : o.Reaches around t j inv) :
    o.Conclusive around t inv (o.outcome around t j inv) := by
  have status := status_of_reaches reached
  have fails := o.fails_iff around (o.outcome around t j inv).reports
  refine ⟨out_of_reaches reached, ?_, ?_, fun loud => ?_, fun loud check => ?_⟩
  · rw [status]
    split
    · exact Or.inr rfl
    · exact Or.inl rfl
  · rw [status, ← FileReport.anyFailed_iff, ← FileReport.anyChanged_iff, ← fails]
    simp
  · rw [allGoodLine_mem_printed loud]
    exact FileReport.settled_iff
  · have zero : (if o.fails (figures around (o.outcome around t j inv).reports) = true then 1 else 0) = 0 ↔
        ¬ o.fails (figures around (o.outcome around t j inv).reports) = true := by simp
    rw [allGoodLine_mem_printed loud, status, zero, fails]
    simp [check]

/-- For any reports the lists by action and the figures agree, and for any run that gets as far as its job so do the
exit status and the good news. -/
theorem accounts_agree (o : Options) (around : Surroundings) (t : FileTree) :
    (∀ reports elapsed timestamp, FileReport.Tallied reports (Breakdown.ofReports reports)
      (Summary.ofReports reports elapsed timestamp)) ∧
      ∀ j inv, o.Reaches around t j inv → o.Conclusive around t inv (o.outcome around t j inv) :=
  ⟨FileReport.tallied, fun _ _ => conclusive⟩

theorem accounts_of_uneven_run_agree :
    uneven.Reaches still .uneven .uneven .uneven ∧
      uneven.Conclusive still .uneven .uneven (uneven.outcome still .uneven .uneven .uneven) ∧
      (uneven.run still .uneven).status = 1 := by
  have agree := (accounts_agree uneven still .uneven).2 _ _ (uneven_reaches still)
  have failed : Action.failed ∈ (uneven.outcome still .uneven .uneven .uneven).reports.map FileReport.action :=
    (uneven_actions still).mem_iff.mpr (by decide)
  obtain ⟨r, member, action⟩ := List.mem_map.mp failed
  exact ⟨uneven_reaches still, agree, agree.failing.mpr (Or.inl ⟨r, member, action⟩)⟩

end Options

end LicenseHeaders
