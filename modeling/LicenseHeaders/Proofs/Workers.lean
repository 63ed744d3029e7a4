import LicenseHeaders.Proofs.Batch
import Mathlib.Logic.Relation

namespace LicenseHeaders

namespace Job

abbrev Task := Candidate × Option Next

structure Shift where
  tree : FileTree
  tasks : List Task

namespace Shift

def start (t : FileTree) (cs : List Candidate) : Shift :=
  ⟨t, cs.map fun c => (c, none)⟩

def done (tasks : List Task) : List Candidate :=
  tasks.filterMap fun
    | (c, some (.finish _)) => some c
    | _ => none

def handled (s : Shift) : List Handled :=
  s.tasks.filterMap fun
    | (_, some (.finish h)) => some h
    | _ => none

def effort : Option Next → Nat
  | none => 2
  | some (.write _ _) => 1
  | some (.finish _) => 0

def remaining : List Task → Nat
  | [] => 0
  | (_, stage) :: tasks => effort stage + remaining tasks

end Shift

inductive Step (j : Job) : Shift → Shift → Prop
  | look (t : FileTree) (before after : List Task) (c : Candidate) :
      Step j ⟨t, before ++ (c, none) :: after⟩ ⟨t, before ++ (c, some (j.next c (t.readText c.path))) :: after⟩
  | put (t : FileTree) (before after : List Task) (c : Candidate) (plan : Plan) (diff : Option Text) :
      Step j ⟨t, before ++ (c, some (.write plan diff)) :: after⟩
        ⟨(Job.put t c plan diff).2, before ++ (c, some (.finish (Job.put t c plan diff).1)) :: after⟩

def Ended (j : Job) (s : Shift) : Prop :=
  ∀ s', ¬ j.Step s s'

/-- What a worker has got for a candidate is what it would have got at first. -/
def AsAtFirst (j : Job) (t : FileTree) : Task → Prop
  | (_, none) => True
  | (c, some (.write plan diff)) => j.next c (t.readText c.path) = .write plan diff
  | (c, some (.finish h)) => h = j.verdict c (t.seen c.path)

/-- The tree differs from the first one by what was written for the candidates that are done. -/
structure Underway (j : Job) (t : FileTree) (cs : List Candidate) (s : Shift) : Prop where
  listed : s.tasks.map Prod.fst = cs
  known : ∀ task ∈ s.tasks, j.AsAtFirst t task
  tree : s.tree = t.overwrite (j.rewrites t (Shift.done s.tasks))

variable {j : Job} {t : FileTree} {cs : List Candidate} {c : Candidate} {s s' : Shift}

open Shift

theorem done_append (before after : List Task) :
    done (before ++ after) = done before ++ done after :=
  List.filterMap_append

theorem done_sublist (tasks : List Task) : (done tasks).Sublist (tasks.map Prod.fst) := by
  induction tasks with
  | nil => exact .slnil
  | cons task tasks ih =>
    obtain ⟨c, stage⟩ := task
    rcases stage with _ | ⟨h⟩ | ⟨plan, diff⟩
    · exact ih.cons c
    · exact ih.cons_cons c
    · exact ih.cons c

theorem pairwise_done {before after : List Task} {stage : Option Next}
    (listed : (before ++ (c, stage) :: after).map Prod.fst = cs) (apart : cs.Pairwise t.Apart) :
    (done before ++ c :: done after).Pairwise t.Apart := by
  rw [← listed, List.map_append, List.map_cons] at apart
  exact apart.sublist ((done_sublist before).append ((done_sublist after).cons_cons c))

variable {before after : List Candidate}

theorem apart_from_others (apart : (before ++ c :: after).Pairwise t.Apart) :
    (∀ b ∈ before ++ after, t.Apart c b) ∧ (before ++ after).Pairwise t.Apart :=
  List.pairwise_cons.mp ((List.pairwise_middle (Std.Symm.symm _ _)).mp apart)

theorem find_after_others (j : Job) (apart : (before ++ c :: after).Pairwise t.Apart) :
    (t.overwrite (j.rewrites t (before ++ after))).find c.path = t.find c.path := by
  obtain ⟨different, others⟩ := apart_from_others apart
  refine FileTree.find_overwrite_all (overwrites_rewrites j others) ?_
  intro w member located
  obtain ⟨b, listed, written⟩ := List.mem_filterMap.mp member
  exact different b listed w.1 located (locate?_of_rewriting written)

theorem overwrite_one_more (j : Job) (apart : (before ++ c :: after).Pairwise t.Apart) :
    (t.overwrite (j.rewrites t (before ++ after))).overwrite (j.rewriting t c).toList =
      t.overwrite (j.rewrites t (before ++ c :: after)) := by
  have reordered : (j.rewrites t (before ++ c :: after)).Perm
      (j.rewrites t (before ++ after) ++ (j.rewriting t c).toList) := by
    have front : (j.rewrites t (before ++ c :: after)).Perm (j.rewrites t (c :: (before ++ after))) :=
      List.perm_middle.filterMap _
    rw [rewrites_cons] at front
    exact front.trans List.perm_append_comm
  rw [← FileTree.overwrite_append]
  exact FileTree.overwrite_perm reordered.symm (overwrites_rewrites j apart)

theorem underway_start (j : Job) (t : FileTree) (cs : List Candidate) : j.Underway t cs (start t cs) := by
  have none : done (start t cs).tasks = [] := by simp [done, start]
  refine ⟨by simp [start, Function.comp_def], ?_, by rw [none]; rfl⟩
  intro task member
  obtain ⟨c, -, rfl⟩ := List.mem_map.mp member
  exact True.intro

theorem Underway.meets {tree : FileTree} {before after : List Task} {stage : Option Next}
    (underway : j.Underway t cs ⟨tree, before ++ (c, stage) :: after⟩) (unfinished : done [(c, stage)] = [])
    (apart : cs.Pairwise t.Apart) :
    tree = t.overwrite (j.rewrites t (done before ++ done after)) ∧ tree.seen c.path = t.seen c.path ∧
      j.rewriting tree c = j.rewriting t c := by
  have still : done (before ++ (c, stage) :: after) = done before ++ done after := by
    rw [done_append, ← List.singleton_append, done_append, unfinished, List.nil_append]
  have tree := underway.tree
  simp only [still] at tree
  have found := find_after_others j (pairwise_done underway.listed apart)
  have willing := t.refusal?_overwrite (j.rewrites t (done before ++ done after))
  rw [tree]
  exact ⟨rfl, FileTree.seen_congr found willing, rewriting_congr found willing⟩

theorem Underway.advance {tree tree' : FileTree} {before after : List Task}
    {stage stage' : Option Next} (underway : j.Underway t cs ⟨tree, before ++ (c, stage) :: after⟩)
    (known : j.AsAtFirst t (c, stage'))
    (written : tree' = t.overwrite (j.rewrites t (done (before ++ (c, stage') :: after)))) :
    j.Underway t cs ⟨tree', before ++ (c, stage') :: after⟩ := by
  obtain ⟨knownBefore, knownRest⟩ := List.forall_mem_append.mp underway.known
  obtain ⟨-, knownAfter⟩ := List.forall_mem_cons.mp knownRest
  refine ⟨?_, List.forall_mem_append.mpr ⟨knownBefore, List.forall_mem_cons.mpr ⟨known, knownAfter⟩⟩, written⟩
  have listed := underway.listed
  simpa using listed

theorem Underway.step (underway : j.Underway t cs s) (apart : cs.Pairwise t.Apart) (step : j.Step s s') :
    j.Underway t cs s' := by
  cases step with
  | look tree before after c =>
    have different := pairwise_done underway.listed apart
    obtain ⟨same, seen, -⟩ := underway.meets rfl apart
    have text : tree.readText c.path = t.readText c.path := by
      rw [FileTree.readText_eq, FileTree.readText_eq, seen]
    rw [text]
    -- A candidate that is done after being read had nothing written for it.
    cases next : j.next c (t.readText c.path) with
    | finish h =>
      obtain ⟨verdict, stays⟩ := verdict_of_finish next
      have more := overwrite_one_more j different
      rw [stays, ← same] at more
      refine underway.advance verdict.symm ?_
      rw [done_append]
      exact more
    | write plan diff =>
      refine underway.advance next ?_
      rw [done_append]
      exact same
  | put tree before after c plan diff =>
    have different := pairwise_done underway.listed apart
    obtain ⟨same, seen, rewriting⟩ := underway.meets rfl apart
    have planned : j.next c (t.readText c.path) = .write plan diff :=
      underway.known _ (List.mem_append_right _ List.mem_cons_self)
    have again : j.next c (tree.readText c.path) = .write plan diff := by
      rw [FileTree.readText_eq, seen, ← FileTree.readText_eq]
      exact planned
    rw [put_eq again, seen, rewriting]
    refine underway.advance rfl ?_
    have more := overwrite_one_more j different
    rw [← same] at more
    rw [done_append]
    exact more

theorem Underway.run (underway : j.Underway t cs s) (apart : cs.Pairwise t.Apart)
    (run : Relation.ReflTransGen j.Step s s') : j.Underway t cs s' := by
  induction run with
  | refl => exact underway
  | tail _ step ih => exact ih.step apart step

theorem finished_of_ended (ended : j.Ended s) : ∀ task ∈ s.tasks, ∃ h, task.2 = some (.finish h) := by
  intro task member
  obtain ⟨tree, tasks⟩ := s
  obtain ⟨c, stage⟩ := task
  obtain ⟨before, after, rfl⟩ := List.append_of_mem member
  rcases stage with _ | ⟨h⟩ | ⟨plan, diff⟩
  · exact absurd (Step.look tree before after c) (ended _)
  · exact ⟨h, rfl⟩
  · exact absurd (Step.put tree before after c plan diff) (ended _)

theorem Underway.ended (underway : j.Underway t cs s) (ended : j.Ended s) :
    s.handled = j.verdicts t cs ∧ s.tree = t.overwrite (j.rewrites t cs) := by
  obtain ⟨listed, known, tree⟩ := underway
  have finished := finished_of_ended ended
  have all : s.handled = j.verdicts t (s.tasks.map Prod.fst) ∧ done s.tasks = s.tasks.map Prod.fst := by
    unfold handled
    generalize s.tasks = tasks at known finished
    induction tasks with
    | nil => exact ⟨rfl, rfl⟩
    | cons task tasks ih =>
      obtain ⟨knownTask, knownTasks⟩ := List.forall_mem_cons.mp known
      obtain ⟨⟨h, finish⟩, others⟩ := List.forall_mem_cons.mp finished
      obtain ⟨c, stage⟩ := task
      obtain rfl : stage = some (.finish h) := finish
      obtain ⟨handled, done⟩ := ih knownTasks others
      exact ⟨congrArg₂ List.cons knownTask handled, congrArg (c :: ·) done⟩
  rw [listed] at all
  rw [tree, all.2]
  exact ⟨all.1, rfl⟩

theorem remaining_append (before after : List Task) :
    remaining (before ++ after) = remaining before + remaining after := by
  induction before with
  | nil => simp [remaining]
  | cons task before ih =>
    rw [List.cons_append, remaining, remaining, ih]
    omega

theorem remaining_step (step : j.Step s s') : remaining s'.tasks < remaining s.tasks := by
  cases step with
  | look tree before after c =>
    have less : effort (some (j.next c (tree.readText c.path))) < 2 := by
      cases j.next c (tree.readText c.path) with
      | finish h => exact Nat.zero_lt_two
      | write plan diff => exact Nat.one_lt_two
    simp only [remaining_append, remaining, effort] at less ⊢
    omega
  | put tree before after c plan diff =>
    simp only [remaining_append, remaining, effort]
    omega

theorem exists_ended (j : Job) (s : Shift) : ∃ e, Relation.ReflTransGen j.Step s e ∧ j.Ended e := by
  -- Every step leaves fewer to take, so workers that go on come to an end.
  induction work : remaining s.tasks using Nat.strongRecOn generalizing s with
  | _ n ih =>
    by_cases ended : j.Ended s
    · exact ⟨s, .refl, ended⟩
    · obtain ⟨s', step⟩ := not_forall_not.mp ended
      obtain ⟨e, run, ends⟩ := ih (remaining s'.tasks) (work ▸ remaining_step step) s' rfl
      exact ⟨e, run.head step, ends⟩

theorem conclude_of_ended {inv : Inventory} (apart : inv.candidates.Pairwise t.Apart)
    (full : inv.candidates ≠ []) (run : Relation.ReflTransGen j.Step (start t inv.candidates) s) (ended : j.Ended s) :
    j.conclude inv.skipped s.handled s.tree = ((j.runOn t inv).reports, (j.runOn t inv).tree) := by
  have underway := (underway_start j t inv.candidates).run apart run
  obtain ⟨handled, tree⟩ := underway.ended ended
  rw [handled, tree, runOn_eq j inv apart full]

end Job

end LicenseHeaders
