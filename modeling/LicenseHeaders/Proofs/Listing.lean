import LicenseHeaders.Proofs.RunStages

namespace LicenseHeaders

namespace FileReport

def listed (reports : List FileReport) : List FileReport :=
  reports.filter (·.action == .replaced) ++ reports.filter (·.action == .inserted) ++
    reports.filter (·.action == .failed)

def discreet (r : FileReport) : FileReport :=
  if r.action = .failed then r else { r with detail := none }

theorem path_discreet (r : FileReport) : r.discreet.path = r.path := by
  unfold discreet
  split <;> rfl

theorem action_discreet (r : FileReport) : r.discreet.action = r.action := by
  unfold discreet
  split <;> rfl

theorem filter_map_discreet (reports : List FileReport) (a : Action) :
    (reports.map discreet).filter (·.action == a) = (reports.filter (·.action == a)).map discreet := by
  have same : ((fun r : FileReport => r.action == a) ∘ discreet) = fun r => r.action == a :=
    funext fun r => congrArg (· == a) (action_discreet r)
  rw [List.filter_map, same]

theorem map_discreet_failed (reports : List FileReport) :
    (reports.filter (·.action == .failed)).map discreet = reports.filter (·.action == .failed) := by
  have same : ∀ r ∈ reports.filter (·.action == .failed), r.discreet = id r := fun r member =>
    if_pos (by simpa using List.of_mem_filter member)
  rw [List.map_congr_left same, List.map_id]

end FileReport

namespace Console

def plainEntry (root : FilePath) (r : FileReport) : Text :=
  "  ".toList ++ FilePath.shownFrom root r.path

def detailedEntry (c : Console) (root : FilePath) (r : FileReport) : Text :=
  plainEntry root r ++ (r.detail.elim [] fun detail => " (".toList ++ c.paint .dimmed detail ++ [')'])

def moreLine (hidden : Nat) : Text :=
  "  ... and ".toList ++ Text.ofNat hidden ++ " more (use -v to see all)".toList

def title (c : Console) (t : Tint) (symbol : Char) (done : String) : Text :=
  c.paint t [symbol] ++ ' ' :: done.toList ++ [' ']

/-- The lines are a heading with the number of files, the first `shown` of them, and the number of those that are
hidden, if any are. Verbose mode hides none, and normal mode shows twenty at most. -/
structure Lists (c : Console) (title : Text) (entry : FileReport → Text) (files : List FileReport)
    (shown hidden : Nat) (lines : List Text) : Prop where
  all : shown + hidden = files.length
  lines : lines = (title ++ countText files.length ++ [':']) ::
    (files.take shown).map entry ++ if hidden = 0 then [] else [moreLine hidden]
  verbose : c.verbosity = .verbose → hidden = 0
  normal : c.verbosity = .normal → shown = min files.length 20

def sections (c : Console) (root : FilePath) (dryRun : Bool) (b : Breakdown) : List (List Text) :=
  [c.replaced root dryRun b.replaced, c.inserted root dryRun b.inserted, c.failed root b.failed].filter (!·.isEmpty)

def body (c : Console) (root : FilePath) (dryRun : Bool) (b : Breakdown) : List Text :=
  if (c.sections root dryRun b).isEmpty then c.allGood else [[]].intercalate (c.sections root dryRun b)

/-- In quiet mode the results are the paths of the files, and otherwise there is a list for each action that changed
files or failed. Details of files that did not fail have no part in them. -/
structure Accounts (c : Console) (root : FilePath) (dryRun : Bool) (reports : List FileReport) (s : Summary) :
    Prop where
  quiet : c.verbosity = .quiet →
    c.results root dryRun reports s = (FileReport.listed reports).map fun r => FilePath.shownFrom root r.path
  loud : c.verbosity ≠ .quiet →
    c.results root dryRun reports s =
      [] :: c.body root dryRun (Breakdown.ofReports reports) ++ [] :: c.summary s ++
        if dryRun && (Breakdown.ofReports reports).hasChanges then [] :: c.remark checkHint.toList else []
  replaced : c.verbosity ≠ .quiet → ∀ files ≠ [], ∃ shown hidden,
    c.Lists (c.title .yellow updated (if dryRun then "Would replace header in" else "Replaced header in"))
      (plainEntry root) files shown hidden (c.replaced root dryRun files)
  inserted : c.verbosity ≠ .quiet → ∀ files ≠ [], ∃ shown hidden,
    c.Lists (c.title .green success (if dryRun then "Would insert header in" else "Inserted header in"))
      (plainEntry root) files shown hidden (c.inserted root dryRun files)
  failed : c.verbosity ≠ .quiet → ∀ files ≠ [], ∃ shown hidden,
    c.Lists (c.title .red failure "Failed to process") (c.detailedEntry root) files shown hidden
      (c.failed root files)
  discreet : c.results root dryRun (reports.map FileReport.discreet) s = c.results root dryRun reports s

variable {c : Console} {root : FilePath} {heading : Text} {withDetail dryRun : Bool} {reports files : List FileReport}
  {s : Summary}

theorem entry_plain (c : Console) (root : FilePath) : c.entry root false = plainEntry root := by
  funext r
  unfold entry plainEntry
  cases r.detail <;> rfl

theorem entry_detailed (c : Console) (root : FilePath) : c.entry root true = c.detailedEntry root := by
  funext r
  unfold entry detailedEntry plainEntry
  cases r.detail <;> simp

theorem heading_eq (c : Console) (t : Tint) (symbol : Char) (done : String) (files : List FileReport) :
    c.heading t symbol done files = c.title t symbol done ++ countText files.length ++ [':'] := by
  simp [Console.heading, title]

theorem lists_list (loud : c.verbosity ≠ .quiet) (full : files ≠ []) (t : Tint) (symbol : Char) (done : String) :
    ∃ shown hidden, c.Lists (c.title t symbol done) (c.entry root withDetail) files shown hidden
      (c.list (c.heading t symbol done files) root withDetail files) := by
  have some : files.isEmpty = false := by simpa using full
  rw [heading_eq]
  cases mode : c.verbosity with
  | quiet => exact absurd mode loud
  | verbose =>
    refine ⟨files.length, 0, rfl, ?_, fun _ => rfl, fun normal => ?_⟩
    · simp [list, some, mode]
    · rw [mode] at normal
      cases normal
  | normal =>
    refine ⟨min files.length 20, files.length - 20, by omega, ?_, fun verbose => ?_, fun _ => rfl⟩
    · have cut : files.take (min files.length 20) = files.take 20 := by rw [Nat.min_comm, ← List.take_eq_take_min]
      have short : files.length - 20 = 0 ↔ files.length ≤ 20 := by omega
      simp only [list, some, mode, listLimit, cut, short]
      rfl
    · rw [mode] at verbose
      cases verbose

theorem list_quiet (quiet : c.verbosity = .quiet) :
    c.list heading root withDetail files = files.map fun r => FilePath.shownFrom root r.path := by
  unfold list
  split
  · rename_i none
    rw [List.isEmpty_iff.mp none, List.map_nil]
  · simp only [quiet]

theorem isEmpty_list (loud : c.verbosity ≠ .quiet) :
    (c.list heading root withDetail files).isEmpty = files.isEmpty := by
  unfold list
  cases files with
  | nil => rfl
  | cons r files =>
    cases mode : c.verbosity with
    | quiet => exact absurd mode loud
    | verbose | normal => rfl

theorem list_map {f : FileReport → FileReport} (path : ∀ r ∈ files, (f r).path = r.path)
    (entry : ∀ r ∈ files, c.entry root withDetail (f r) = c.entry root withDetail r) :
    c.list heading root withDetail (files.map f) = c.list heading root withDetail files := by
  have paths : (files.map f).map (fun r => FilePath.shownFrom root r.path) =
      files.map fun r => FilePath.shownFrom root r.path := by
    rw [List.map_map]
    exact List.map_congr_left fun r member => congrArg (FilePath.shownFrom root) (path r member)
  have entries {n : Nat} : ((files.map f).take n).map (c.entry root withDetail) =
      (files.take n).map (c.entry root withDetail) := by
    rw [← List.map_take, List.map_map]
    exact List.map_congr_left fun r member => entry r (List.mem_of_mem_take member)
  have every := entries (n := files.length)
  rw [List.take_of_length_le (by simp), List.take_length] at every
  simp only [list, List.isEmpty_map, List.length_map, paths, entries, every]

theorem list_map_discreet (files : List FileReport) :
    c.list heading root false (files.map FileReport.discreet) = c.list heading root false files := by
  refine list_map (fun r _ => r.path_discreet) fun r _ => ?_
  rw [entry_plain, plainEntry, r.path_discreet, plainEntry]

def listing (c : Console) (root : FilePath) (dryRun : Bool) (b : Breakdown) : List Text :=
  let gap (wanted : Bool) := if wanted then c.blankLine else []
  c.replaced root dryRun b.replaced ++ gap (!b.inserted.isEmpty && !b.replaced.isEmpty) ++
    c.inserted root dryRun b.inserted ++
    if !b.failed.isEmpty then gap b.hasChanges ++ c.failed root b.failed else if !b.hasChanges then c.allGood else []

theorem results_eq (c : Console) (root : FilePath) (dryRun : Bool) (reports : List FileReport) (s : Summary) :
    c.results root dryRun reports s =
      c.blankLine ++ c.listing root dryRun (Breakdown.ofReports reports) ++ c.blankLine ++ c.summary s ++
        if dryRun && (Breakdown.ofReports reports).hasChanges then c.blankLine ++ c.remark checkHint.toList else [] := by
  simp only [results, listing, List.append_assoc]

theorem listing_quiet (quiet : c.verbosity = .quiet) (b : Breakdown) :
    c.listing root dryRun b =
      (b.replaced ++ b.inserted ++ b.failed).map fun r => FilePath.shownFrom root r.path := by
  simp only [listing, blankLine, allGood, unlessQuiet_of_quiet quiet, replaced, inserted, failed, list_quiet quiet,
    ite_self, List.append_nil, List.nil_append, List.map_append]
  cases b.failed <;> rfl

theorem results_quiet (quiet : c.verbosity = .quiet) :
    c.results root dryRun reports s =
      (FileReport.listed reports).map fun r => FilePath.shownFrom root r.path := by
  simp only [results_eq, blankLine, summary, remark, unlessQuiet_of_quiet quiet, listing_quiet quiet, ite_self,
    List.append_nil, List.nil_append]
  rfl

theorem gaps_eq_intercalate (first second third good : List Text) :
    (first ++ if !second.isEmpty && !first.isEmpty then [[]] else []) ++ second ++
        (if !third.isEmpty then (if !first.isEmpty || !second.isEmpty then [[]] else []) ++ third
          else if !(!first.isEmpty || !second.isEmpty) then good else []) =
      if ([first, second, third].filter (!·.isEmpty)).isEmpty then good
      else [[]].intercalate ([first, second, third].filter (!·.isEmpty)) := by
  cases first <;> cases second <;> cases third <;> simp [List.intercalate]

theorem listing_loud (loud : c.verbosity ≠ .quiet) (b : Breakdown) : c.listing root dryRun b = c.body root dryRun b := by
  have blank : c.blankLine = [[]] := unlessQuiet_of_loud loud _
  -- A list has no lines exactly if it has no files, so the gaps can be told from the lines.
  have replaced : (c.replaced root dryRun b.replaced).isEmpty = b.replaced.isEmpty := isEmpty_list loud
  have inserted : (c.inserted root dryRun b.inserted).isEmpty = b.inserted.isEmpty := isEmpty_list loud
  have failed : (c.failed root b.failed).isEmpty = b.failed.isEmpty := isEmpty_list loud
  have gaps := gaps_eq_intercalate (c.replaced root dryRun b.replaced) (c.inserted root dryRun b.inserted)
    (c.failed root b.failed) c.allGood
  rw [replaced, inserted, failed] at gaps
  rw [listing, blank]
  exact gaps

theorem results_loud (loud : c.verbosity ≠ .quiet) :
    c.results root dryRun reports s =
      [] :: c.body root dryRun (Breakdown.ofReports reports) ++ [] :: c.summary s ++
        if dryRun && (Breakdown.ofReports reports).hasChanges then [] :: c.remark checkHint.toList else [] := by
  have blank : c.blankLine = [[]] := unlessQuiet_of_loud loud _
  rw [results_eq, listing_loud loud, blank]
  simp

theorem results_map_discreet (c : Console) (root : FilePath) (dryRun : Bool) (reports : List FileReport) (s : Summary) :
    c.results root dryRun (reports.map FileReport.discreet) s = c.results root dryRun reports s := by
  have changed (files : List FileReport) :
      c.replaced root dryRun (files.map FileReport.discreet) = c.replaced root dryRun files := by
    simp only [replaced, heading, List.length_map, list_map_discreet]
  have added (files : List FileReport) :
      c.inserted root dryRun (files.map FileReport.discreet) = c.inserted root dryRun files := by
    simp only [inserted, heading, List.length_map, list_map_discreet]
  simp only [results, Breakdown.ofReports, Breakdown.hasChanges, FileReport.filter_map_discreet,
    FileReport.map_discreet_failed, List.isEmpty_map, changed, added]
  rfl

theorem accounts (c : Console) (root : FilePath) (dryRun : Bool) (reports : List FileReport) (s : Summary) :
    c.Accounts root dryRun reports s := by
  refine ⟨results_quiet, results_loud, fun loud files full => ?_, fun loud files full => ?_, fun loud files full => ?_,
    results_map_discreet c root dryRun reports s⟩
  · rw [← entry_plain c]
    exact lists_list loud full _ _ _
  · rw [← entry_plain c]
    exact lists_list loud full _ _ _
  · rw [← entry_detailed]
    exact lists_list loud full _ _ _

end Console

namespace Options

/-- A quiet run prints the paths of the files that changed or failed. Any other run prints how many files there are,
the results, and a remark on each report that was written. -/
structure Prints (o : Options) (around : Surroundings) (t : FileTree) (inv : Inventory) (outcome : Job.Outcome) :
    Prop where
  verbosity : (o.console around).verbosity = o.verbosity
  quiet : o.verbosity = .quiet →
    (o.run around t).out =
      Text.unlines ((FileReport.listed outcome.reports).map fun r =>
        FilePath.shownFrom (shownRoot o.directory outcome.tree) r.path)
  loud : o.verbosity ≠ .quiet → ∃ remarks,
    (o.run around t).out =
      Text.unlines ((o.console around).start inv.candidates.length o.check ++ o.account around outcome ++ remarks) ∧
      ∀ l ∈ remarks, ∃ f p, l ∈ (o.console around).remark s!"Generated {ReportFormat.name f} report at {(p : FilePath)}".toList

variable {o : Options} {around : Surroundings} {t : FileTree} {j : Job} {inv : Inventory}

theorem out_written_quiet (quiet : o.verbosity = .quiet) (outcome : Job.Outcome) : (o.written around outcome).out = [] := by
  refine List.eq_nil_iff_forall_not_mem.mpr fun l member => ?_
  obtain ⟨f, p, remark⟩ := mem_out_writeReports member
  rw [Console.remark, Console.unlessQuiet_of_quiet quiet] at remark
  cases remark

theorem prints (reached : o.Reaches around t j inv) : o.Prints around t inv (o.outcome around t j inv) := by
  have out := out_of_reaches reached
  refine ⟨rfl, fun quiet => ?_, fun _ => ⟨_, out, fun l member => mem_out_writeReports member⟩⟩
  have silent (count : Nat) : (o.console around).start count o.check = [] :=
    Console.unlessQuiet_of_quiet quiet _
  rw [out, printed, silent, out_written_quiet quiet, List.nil_append, List.append_nil, account,
    Console.results_quiet quiet]

/-- The lists account for every file that changed or failed, for any reports, and so does the output of any run that
gets as far as its job. -/
theorem output_accounts_for_files (o : Options) (around : Surroundings) (t : FileTree) :
    (∀ c root dryRun reports s, Console.Accounts c root dryRun reports s) ∧
      ∀ j inv, o.Reaches around t j inv → o.Prints around t inv (o.outcome around t j inv) :=
  ⟨Console.accounts, fun _ _ => prints⟩

theorem output_of_uneven_run_accounts_for_files :
    uneven.Reaches still .uneven .uneven .uneven ∧
      uneven.Prints still .uneven .uneven (uneven.outcome still .uneven .uneven .uneven) ∧
      ((uneven.outcome still .uneven .uneven .uneven).reports.map FileReport.action).Perm
        [.inserted, .failed, .failed] :=
  ⟨uneven_reaches still, (output_accounts_for_files uneven still .uneven).2 _ _ (uneven_reaches still),
    uneven_actions still⟩

end Options

end LicenseHeaders
