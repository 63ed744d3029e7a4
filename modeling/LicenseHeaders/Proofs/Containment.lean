import LicenseHeaders.Proofs.FailingFiles
import LicenseHeaders.Proofs.RunStages

namespace LicenseHeaders

namespace Options

def writable (text : ReportFormat → Text) (t : FileTree) :
    List (ReportFormat × FilePath) → List (ReportFormat × FilePath)
  | [] => []
  | (f, p) :: rest =>
    match t.writeText p (text f) with
    | .ok t => (f, p) :: writable text t rest
    | .error _ => writable text t rest

def complaint (f : ReportFormat) (p : FilePath) (e : IoError) : Text :=
  let failure : Failure := [s!"Failed to write report to {p}", e.message]
  s!"Error generating {f.name} report: {failure.inLine}".toList

/-- A report that cannot be written keeps none of the others from being written. -/
structure Publishes (c : Console) (text : ReportFormat → Text) (t : FileTree) (wanted : List (ReportFormat × FilePath)) :
    Prop where
  others : writeReports c text t (writable text t wanted) = { writeReports c text t wanted with err := [] }
  counted : (writeReports c text t wanted).err.length + (writable text t wanted).length = wanted.length
  failure : ∀ before f p after e, wanted = before ++ (f, p) :: after →
    (writeReports c text t before).tree.writeText p (text f) = .error e →
      complaint f p e ∈ (writeReports c text t wanted).err
  written : ∀ before f p after loc present, wanted = before ++ (f, p) :: after →
    (writeReports c text t before).tree.sink p = .ok (.file loc present) →
      ∃ w ∈ (f, p) :: after, (writeReports c text t wanted).tree.node? loc = some (.file (text w.1).encode)
  elsewhere : ∀ loc, (writeReports c text t wanted).tree.node? loc = t.node? loc ∨
    ∃ w ∈ wanted, (writeReports c text t wanted).tree.node? loc = some (.file (text w.1).encode)

def Asks (o : Options) : ReportFormat → FilePath → Prop
  | .json, p => o.reportJson = some p
  | .csv, p => o.reportCsv = some p

/-- A run that stops before its job leaves the files as they are, except that the file for diffs may be empty now. -/
structure Abandons (o : Options) (around : Surroundings) (t : FileTree) : Prop where
  status : (o.run around t).status = 1
  out : (o.run around t).out = []
  tree : (o.run around t).tree = t ∨ ∃ q ∈ o.saveDiff, ∃ loc present,
    t.sink q = .ok (.file loc present) ∧ (o.run around t).tree = t.set loc (.file .empty)
  elsewhere : ∀ loc, ¬ o.diffOutput.SavesTo t loc → (o.run around t).tree.node? loc = t.node? loc

def said (o : Options) (around : Surroundings) (t : FileTree) (outcome : Job.Outcome) : Text :=
  o.saidText (o.colors.resolve (ColorSupport.detect around.environment around.errIsTerminal))
    ((o.prepare around.environment t).notices ++ outcome.notices) ++ Text.unlines (o.written around outcome).err

/-- A run that gets as far as its job ends as it should, whatever fails: with its results, a status that is told from
them, all that there is to complain of, and the reports. -/
structure CarriesOn (o : Options) (around : Surroundings) (t : FileTree) (j : Job) (inv : Inventory)
    (outcome : Job.Outcome) : Prop where
  job : j.Contains (o.readyTree around t) inv
  out : (o.run around t).out =
    Text.unlines ((o.console around).start inv.candidates.length o.check ++ o.account around outcome ++
      (o.written around outcome).out)
  err : (o.run around t).err = o.said around t outcome
  alerts : ∀ message : String, .alert message ∈ outcome.notices → message.toList ++ ['\n'] <:+: (o.run around t).err
  complaints : ∀ l ∈ (o.written around outcome).err, l ++ ['\n'] <:+: (o.run around t).err
  status : (o.run around t).status = if o.fails (figures around outcome.reports) then 1 else 0
  tree : (o.run around t).tree = (o.written around outcome).tree
  requested : ∀ f p, (f, p) ∈ o.wantedReports ↔ o.Asks f p
  reports : Publishes (o.console around) (reportText around outcome.reports) outcome.tree o.wantedReports

variable {o : Options} {around : Surroundings} {t : FileTree} {j : Job} {inv : Inventory} {c : Console}
  {text : ReportFormat → Text} {wanted before after : List (ReportFormat × FilePath)} {f : ReportFormat} {p : FilePath}
  {loc : Location}

theorem writeReports_append (c : Console) (text : ReportFormat → Text) (t : FileTree)
    (before after : List (ReportFormat × FilePath)) :
    writeReports c text t (before ++ after) =
      ⟨(writeReports c text t before).out ++ (writeReports c text (writeReports c text t before).tree after).out,
        (writeReports c text t before).err ++ (writeReports c text (writeReports c text t before).tree after).err,
        (writeReports c text (writeReports c text t before).tree after).tree⟩ := by
  induction before generalizing t with
  | nil => rfl
  | cons w before ih =>
    obtain ⟨f, p⟩ := w
    simp only [List.cons_append, writeReports]
    cases t.writeText p (text f) with
    | ok written => simp only [ih, List.append_assoc]
    | error e => simp only [ih, List.cons_append]

theorem writeReports_writable (c : Console) (text : ReportFormat → Text) (t : FileTree)
    (wanted : List (ReportFormat × FilePath)) :
    writeReports c text t (writable text t wanted) = { writeReports c text t wanted with err := [] } := by
  induction wanted generalizing t with
  | nil => rfl
  | cons w wanted ih =>
    obtain ⟨f, p⟩ := w
    cases wrote : t.writeText p (text f) with
    | ok written => simp only [writable, writeReports, wrote, ih]
    | error e => simp only [writable, writeReports, wrote, ih]

theorem length_err_writeReports (c : Console) (text : ReportFormat → Text) (t : FileTree)
    (wanted : List (ReportFormat × FilePath)) :
    (writeReports c text t wanted).err.length + (writable text t wanted).length = wanted.length := by
  induction wanted generalizing t with
  | nil => rfl
  | cons w wanted ih =>
    obtain ⟨f, p⟩ := w
    cases wrote : t.writeText p (text f) with
    | ok written =>
      have rest := ih written
      simp only [writable, writeReports, wrote, List.length_cons]
      omega
    | error e =>
      have rest := ih t
      simp only [writable, writeReports, wrote, List.length_cons]
      omega

theorem node?_writeReports (c : Console) (text : ReportFormat → Text) (t : FileTree)
    (wanted : List (ReportFormat × FilePath)) (loc : Location) :
    (writeReports c text t wanted).tree.node? loc = t.node? loc ∨
      ∃ w ∈ wanted, (writeReports c text t wanted).tree.node? loc = some (.file (text w.1).encode) := by
  induction wanted generalizing t with
  | nil => exact Or.inl rfl
  | cons w wanted ih =>
    obtain ⟨f, p⟩ := w
    cases wrote : t.writeText p (text f) with
    | error e =>
      simp only [writeReports, wrote]
      rcases ih t with same | ⟨w, member, report⟩
      · exact Or.inl same
      · exact Or.inr ⟨w, List.mem_cons_of_mem _ member, report⟩
    | ok written =>
      simp only [writeReports, wrote]
      rcases ih written with same | ⟨w, member, report⟩
      · rw [same]
        rcases FileTree.writeText_cases wrote with rfl | ⟨l, present, opened, rfl⟩
        · exact Or.inl rfl
        · rw [FileTree.node?_set _ _ _ _ (FileTree.ne_nil_of_sink opened)]
          by_cases here : loc = l
          · exact Or.inr ⟨(f, p), List.mem_cons_self, if_pos here⟩
          · exact Or.inl (if_neg here)
      · exact Or.inr ⟨w, List.mem_cons_of_mem _ member, report⟩

theorem complaint_mem_err {e : IoError} (found : wanted = before ++ (f, p) :: after)
    (failed : (writeReports c text t before).tree.writeText p (text f) = .error e) :
    complaint f p e ∈ (writeReports c text t wanted).err := by
  rw [found, writeReports_append]
  refine List.mem_append_right _ ?_
  simp only [writeReports, failed]
  exact List.mem_cons_self

theorem node?_of_written {present : ByteArray} (found : wanted = before ++ (f, p) :: after)
    (opened : (writeReports c text t before).tree.sink p = .ok (.file loc present)) :
    ∃ w ∈ (f, p) :: after, (writeReports c text t wanted).tree.node? loc = some (.file (text w.1).encode) := by
  rw [found, writeReports_append]
  dsimp only
  -- From its turn on, only the reports behind it count.
  generalize (writeReports c text t before).tree = turn at opened
  have wrote : turn.writeText p (text f) = .ok (turn.set loc (.file (text f).encode)) := by
    rw [FileTree.writeText, FileTree.write, opened]
    rfl
  simp only [writeReports, wrote]
  rcases node?_writeReports c text (turn.set loc (.file (text f).encode)) after loc with same | ⟨w, member, report⟩
  · refine ⟨(f, p), List.mem_cons_self, ?_⟩
    rw [same, FileTree.node?_set _ _ _ _ (FileTree.ne_nil_of_sink opened), if_pos rfl]
  · exact ⟨w, List.mem_cons_of_mem _ member, report⟩

theorem publishes (c : Console) (text : ReportFormat → Text) (t : FileTree) (wanted : List (ReportFormat × FilePath)) :
    Publishes c text t wanted :=
  ⟨writeReports_writable c text t wanted, length_err_writeReports c text t wanted,
    fun _ _ _ _ _ found failed => complaint_mem_err found failed,
    fun _ _ _ _ _ _ found opened => node?_of_written found opened, node?_writeReports c text t wanted⟩

theorem mem_wantedReports (o : Options) (f : ReportFormat) (p : FilePath) : (f, p) ∈ o.wantedReports ↔ o.Asks f p := by
  cases f <;> simp [wantedReports, Asks]

theorem abandons (stops : ∀ j inv, ¬ o.Reaches around t j inv) : o.Abandons around t := by
  obtain ⟨status, out, tree⟩ := run_of_stops stops
  refine ⟨status, out, ?_, fun loc elsewhere => ?_⟩
  · rcases tree with same | opened
    · exact Or.inl same
    · exact DiffOutput.start_cases opened
  · rcases tree with same | opened
    · rw [same]
    · rcases DiffOutput.node?_start opened loc with same | ⟨saves, -⟩
      · exact same
      · exact absurd saves elsewhere

theorem alert_infix_said {outcome : Job.Outcome} {message : String} (member : .alert message ∈ outcome.notices) :
    message.toList ++ ['\n'] <:+: o.said around t outcome := by
  have listed := List.mem_append_right (o.prepare around.environment t).notices member
  have within (colored : Bool) : message.toList ++ ['\n'] <:+: o.saidText colored _ :=
    List.infix_of_mem_flatten (List.mem_map.mpr ⟨_, listed, rfl⟩)
  exact (within _).trans (List.prefix_append _ _).isInfix

theorem complaint_infix_said {outcome : Job.Outcome} {l : Text} (member : l ∈ (o.written around outcome).err) :
    l ++ ['\n'] <:+: o.said around t outcome := by
  have within : l ++ ['\n'] <:+: Text.unlines (o.written around outcome).err :=
    List.infix_of_mem_flatten (List.mem_map.mpr ⟨l, member, rfl⟩)
  exact within.trans (List.suffix_append _ _).isInfix

theorem carries_on (reached : o.Reaches around t j inv) : o.CarriesOn around t j inv (o.outcome around t j inv) := by
  have err : (o.run around t).err = o.said around t (o.outcome around t j inv) := by
    rw [run_of_reaches reached]
    rfl
  refine ⟨j.failures_stay_contained _ inv, out_of_reaches reached, err, ?_, ?_, status_of_reaches reached,
    tree_of_reaches reached, o.mem_wantedReports, publishes _ _ _ _⟩
  · rw [err]
    exact fun _ member => alert_infix_said member
  · rw [err]
    exact fun _ member => complaint_infix_said member

def lost : Options :=
  { uneven with directory := ⟨['x']⟩ }

end Options

end LicenseHeaders
