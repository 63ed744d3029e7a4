import LicenseHeaders.Job
import LicenseHeaders.Proofs.Overwriting

namespace LicenseHeaders

theorem Text.encode_of_decode? {bytes : ByteArray} {s : Text} (decoded : Text.decode? bytes = some s) :
    s.encode = bytes := by
  obtain ⟨chars, utf8, rfl⟩ := Option.map_eq_some_iff.mp decoded
  obtain ⟨cs, rfl⟩ := ByteArray.isSome_utf8Decode?_iff.mp (Option.isSome_of_eq_some utf8)
  rw [List.utf8Decode?_utf8Encode, Option.some.injEq] at utf8
  subst utf8
  rfl

namespace Node

def readText : Node → Except IoError Text
  | .file bytes =>
    match Text.decode? bytes with
    | some s => .ok s
    | none => .error .notText
  | .device _ => .ok []
  | .directory | .link _ => .error .isDirectory

end Node

/-- A node, and the reason why it cannot be written, if it cannot. -/
structure Sight where
  node : Node
  refusal : Option IoError

namespace Sight

def readText (s : Sight) : Except IoError Text :=
  s.node.readText

def accept (s : Sight) (text : Text) : Except IoError Unit :=
  match s.node with
  | .file _ =>
    match s.refusal with
    | some e => .error e
    | none => .ok ()
  | .device .null => .ok ()
  | .device .full => if text.encode.isEmpty then .ok () else .error .noSpace
  | .directory | .link _ => .error .isDirectory

end Sight

namespace FileTree

def seen (t : FileTree) (p : FilePath) : Except IoError Sight :=
  (t.find p).map fun place => ⟨place.2, t.refusal? place.1⟩

def Apart (t : FileTree) (a b : Candidate) : Prop :=
  ∀ loc, t.locate? a.path = some loc → t.locate? b.path ≠ some loc

instance (t : FileTree) : Std.Symm t.Apart :=
  ⟨fun _ _ apart loc second first => apart loc first second⟩

theorem apart_iff {t : FileTree} {a b : Candidate} :
    t.Apart a b ↔ t.locate? a.path = none ∨ t.locate? a.path ≠ t.locate? b.path := by
  constructor
  · intro apart
    cases first : t.locate? a.path with
    | none => exact Or.inl rfl
    | some loc => exact Or.inr fun same => apart loc first same.symm
  · rintro (lost | different) loc first second
    · rw [lost] at first
      cases first
    · exact different (first.trans second.symm)

instance (t : FileTree) (a b : Candidate) : Decidable (t.Apart a b) :=
  decidable_of_iff _ apart_iff.symm

variable {t : FileTree} {p : FilePath} {loc : Location} {n : Node}

theorem seen_of_find (found : t.find p = .ok (loc, n)) : t.seen p = .ok ⟨n, t.refusal? loc⟩ := by
  rw [seen, found]
  rfl

theorem seen_congr {t' : FileTree} (same : t.find p = t'.find p) (willing : t.refusal? = t'.refusal?) :
    t.seen p = t'.seen p := by
  rw [seen, same, willing, seen]

theorem readText_eq (t : FileTree) (p : FilePath) : t.readText p = (t.seen p).bind Sight.readText := by
  rw [readText, read, seen]
  cases t.find p with
  | error e => rfl
  | ok place =>
    obtain ⟨loc, n⟩ := place
    cases n with
    | device d =>
      have empty : Text.decode? .empty = some [] := Text.decode?_encode []
      simp [Except.map, Except.bind, Sight.readText, Node.readText, empty]
    | file _ | directory | link _ => rfl

theorem writeText_of_find (found : t.find p = .ok (loc, n)) (s : Text) :
    t.writeText p s =
      (Sight.accept ⟨n, t.refusal? loc⟩ s).map fun _ =>
        match n with
        | .file _ => t.set loc (.file s.encode)
        | _ => t := by
  rw [writeText, write, sink, resolve_of_find found]
  cases n with
  | device d =>
    cases d with
    | null => rfl
    | full =>
      change (if s.encode.isEmpty = true then Except.ok t else Except.error IoError.noSpace) =
        Except.map _ (if s.encode.isEmpty = true then Except.ok () else Except.error IoError.noSpace)
      split <;> rfl
  | file present => cases refusal : t.refusal? loc <;> simp [sinkAt, refusal, Sight.accept, Except.bind, Except.map, fill]
  | directory | link _ => rfl

end FileTree

namespace Job

inductive Next
  | finish (h : Handled)
  | write (plan : Plan) (diff : Option Text)

def next (j : Job) (c : Candidate) (text : Except IoError Text) : Next :=
  match text with
  | .error e => .finish (.ofOutcome c (.error (.read c.path e)))
  | .ok content =>
    let plan := j.plan c.dialect content
    if plan.action = .unchanged then .finish (.ofOutcome c (.ok (.unchanged, none)))
    else
      let diff := if j.diffs.enabled then some (LineDiff.render c.path content plan.content) else none
      if j.dryRun then .finish (.ofOutcome c (.ok (plan.action, diff))) else .write plan diff

def put (t : FileTree) (c : Candidate) (plan : Plan) (diff : Option Text) : Handled × FileTree :=
  match t.writeText c.path plan.content with
  | .error e => (.ofOutcome c (.error (.write c.path e)), t)
  | .ok written => (.ofOutcome c (.ok (plan.action, diff)), written)

/-- What becomes of a candidate, told from what stands at its path. -/
def verdict (j : Job) (c : Candidate) (seen : Except IoError Sight) : Handled :=
  match j.next c (seen.bind Sight.readText) with
  | .finish h => h
  | .write plan diff =>
    .ofOutcome c (((seen.bind (·.accept plan.content)).mapError (FileError.write c.path)).map fun _ =>
      (plan.action, diff))

def rewriting (j : Job) (t : FileTree) (c : Candidate) : Option (Location × ByteArray) :=
  match t.find c.path with
  | .ok (loc, .file bytes) =>
    match t.refusal? loc with
    | some _ => none
    | none =>
      match j.next c (Node.file bytes).readText with
      | .write plan _ => some (loc, plan.content.encode)
      | .finish _ => none
  | _ => none

variable {j : Job} {t : FileTree} {c : Candidate}

theorem rewriting_congr {t' : FileTree} (same : t.find c.path = t'.find c.path) (willing : t.refusal? = t'.refusal?) :
    j.rewriting t c = j.rewriting t' c := by
  simp only [rewriting, same, willing]

theorem handle_eq (j : Job) (t : FileTree) (c : Candidate) :
    (Handled.ofOutcome c (j.handle t c).outcome, (j.handle t c).tree) =
      match j.next c (t.readText c.path) with
      | .finish h => (h, t)
      | .write plan diff => put t c plan diff := by
  unfold handle next
  cases t.readText c.path with
  | error e => rfl
  | ok content =>
    simp only
    split
    · rfl
    split
    · rfl
    simp only [put]
    cases t.writeText c.path (j.plan c.dialect content).content <;> rfl

theorem verdict_of_finish {h : Handled} (finish : j.next c (t.readText c.path) = .finish h) :
    j.verdict c (t.seen c.path) = h ∧ j.rewriting t c = none := by
  rw [FileTree.readText_eq] at finish
  refine ⟨by simp only [verdict, finish], ?_⟩
  unfold rewriting
  cases found : t.find c.path with
  | error e => rfl
  | ok place =>
    obtain ⟨loc, n⟩ := place
    rw [FileTree.seen_of_find found] at finish
    cases n with
    | file bytes =>
      have stays : j.next c (Node.file bytes).readText = .finish h := finish
      simp only [stays]
      cases t.refusal? loc <;> rfl
    | directory | link _ | device _ => rfl

theorem put_eq {plan : Plan} {diff : Option Text} (write : j.next c (t.readText c.path) = .write plan diff) :
    put t c plan diff = (j.verdict c (t.seen c.path), t.overwrite (j.rewriting t c).toList) := by
  rw [FileTree.readText_eq] at write
  have verdict : j.verdict c (t.seen c.path) =
      .ofOutcome c ((((t.seen c.path).bind (·.accept plan.content)).mapError (FileError.write c.path)).map fun _ =>
        (plan.action, diff)) := by
    simp only [Job.verdict, write]
  cases found : t.find c.path with
  | error e =>
    rw [FileTree.seen, found] at write
    cases write
  | ok place =>
    obtain ⟨loc, n⟩ := place
    rw [verdict, put, FileTree.writeText_of_find found, FileTree.seen_of_find found]
    rw [FileTree.seen_of_find found] at write
    cases n with
    | file bytes =>
      have rewritten : j.next c (Node.file bytes).readText = .write plan diff := write
      simp only [rewriting, found, rewritten]
      cases t.refusal? loc <;> rfl
    | device d =>
      have unwritten : j.rewriting t c = none := by simp only [rewriting, found]
      rw [unwritten]
      generalize t.refusal? loc = refusal
      change (match (Sight.accept ⟨.device d, refusal⟩ plan.content).map fun _ => t with
        | .error e => (Handled.ofOutcome c (.error (.write c.path e)), t)
        | .ok written => (Handled.ofOutcome c (.ok (plan.action, diff)), written)) =
        (Handled.ofOutcome c (((Sight.accept ⟨.device d, refusal⟩ plan.content).mapError
          (FileError.write c.path)).map fun _ => (plan.action, diff)), t)
      cases Sight.accept ⟨.device d, refusal⟩ plan.content <;> rfl
    | directory | link _ => cases write

theorem handled_eq (j : Job) (t : FileTree) (c : Candidate) :
    Handled.ofOutcome c (j.handle t c).outcome = j.verdict c (t.seen c.path) ∧
      (j.handle t c).tree = t.overwrite (j.rewriting t c).toList := by
  have halves := handle_eq j t c
  cases next : j.next c (t.readText c.path) with
  | finish h =>
    obtain ⟨verdict, stays⟩ := verdict_of_finish next
    rw [next] at halves
    rw [verdict, stays]
    exact Prod.mk.inj halves
  | write plan diff =>
    rw [next] at halves
    simp only [put_eq next] at halves
    exact Prod.mk.inj halves

theorem exists_outcome (j : Job) (c : Candidate) (seen : Except IoError Sight) :
    ∃ o, j.verdict c seen = .ofOutcome c o := by
  cases text : seen.bind Sight.readText with
  | error e => exact ⟨.error (.read c.path e), by simp only [verdict, text, next]⟩
  | ok content =>
    by_cases unchanged : (j.plan c.dialect content).action = .unchanged
    · exact ⟨.ok (.unchanged, none), by simp only [verdict, text, next, if_pos unchanged]⟩
    · by_cases dry : j.dryRun = true
      · exact ⟨_, by simp only [verdict, text, next, if_neg unchanged, if_pos dry]; rfl⟩
      · exact ⟨_, by simp only [verdict, text, next, if_neg unchanged, if_neg dry]; rfl⟩

theorem path_verdict (j : Job) (c : Candidate) (seen : Except IoError Sight) :
    (j.verdict c seen).report.path = c.path := by
  obtain ⟨o, outcome⟩ := j.exists_outcome c seen
  rw [outcome]
  cases o <;> rfl

theorem plan_content (j : Job) (d : Dialect) (content : Text) :
    (j.plan d content).content = (j.place d content).content := by
  unfold plan
  dsimp only
  split
  · rename_i same
    exact same.symm
  split <;> rfl

theorem plan_unchanged {d : Dialect} {content : Text} :
    (j.plan d content).action = .unchanged ↔ (j.place d content).content = content := by
  unfold plan
  dsimp only
  split
  · rename_i same
    simp [same]
  · rename_i different
    split <;> simp [different]

variable {loc : Location} {w : Location × ByteArray}

theorem rewriting_of_text {bytes : ByteArray} {content : Text} (real : j.dryRun = false)
    (found : t.find c.path = .ok (loc, .file bytes)) (willing : t.refusal? loc = none)
    (decoded : Text.decode? bytes = some content) :
    j.rewriting t c =
      if (j.place c.dialect content).content = content then none
      else some (loc, (j.place c.dialect content).content.encode) := by
  have text : (Node.file bytes).readText = .ok content := by simp only [Node.readText, decoded]
  by_cases same : (j.place c.dialect content).content = content
  · rw [if_pos same]
    simp only [rewriting, found, willing, text, next, plan_unchanged.mpr same, if_true]
  · have changed : (j.plan c.dialect content).action ≠ .unchanged := fun unchanged => same (plan_unchanged.mp unchanged)
    rw [if_neg same]
    simp [rewriting, found, willing, text, next, changed, real, plan_content]

theorem find_of_rewriting (written : w ∈ j.rewriting t c) :
    ∃ bytes content, t.find c.path = .ok (w.1, .file bytes) ∧ t.refusal? w.1 = none ∧
      Text.decode? bytes = some content := by
  unfold rewriting at written
  cases found : t.find c.path with
  | error e =>
    rw [found] at written
    cases written
  | ok place =>
    obtain ⟨loc, n⟩ := place
    rw [found] at written
    cases n with
    | file bytes =>
      simp only at written
      split at written
      · cases written
      rename_i willing
      cases decoded : Text.decode? bytes with
      | none => simp [Node.readText, decoded, next] at written
      | some content =>
        split at written
        · obtain rfl := Option.some.inj written
          exact ⟨bytes, content, rfl, willing, decoded⟩
        · cases written
    | directory | link _ | device _ => cases written

def rewrites (j : Job) (t : FileTree) (cs : List Candidate) : List (Location × ByteArray) :=
  cs.filterMap (j.rewriting t)

theorem rewrites_cons (j : Job) (t : FileTree) (c : Candidate) (cs : List Candidate) :
    j.rewrites t (c :: cs) = (j.rewriting t c).toList ++ j.rewrites t cs := by
  rw [rewrites, List.filterMap_cons]
  cases j.rewriting t c <;> rfl

theorem locate?_of_rewriting (written : w ∈ j.rewriting t c) : t.locate? c.path = some w.1 := by
  obtain ⟨bytes, content, found, -, -⟩ := find_of_rewriting written
  exact FileTree.locate?_of_find found

variable {cs : List Candidate}

theorem overwrites_rewrites (j : Job) (apart : cs.Pairwise t.Apart) :
    t.Overwrites (j.rewrites t cs) := by
  refine ⟨?_, ?_⟩
  · intro w member
    obtain ⟨c, -, written⟩ := List.mem_filterMap.mp member
    obtain ⟨bytes, content, found, -, -⟩ := find_of_rewriting written
    exact ⟨bytes, FileTree.node?_of_find found⟩
  · rw [List.Nodup, List.pairwise_map, rewrites, List.pairwise_filterMap]
    refine apart.imp ?_
    intro a b different v writtenA w writtenB same
    refine different v.1 (locate?_of_rewriting writtenA) ?_
    rw [same]
    exact locate?_of_rewriting writtenB

theorem overwrites_rewriting (j : Job) (t : FileTree) (c : Candidate) :
    t.Overwrites (j.rewriting t c).toList := by
  have one := overwrites_rewrites j (t := t) (List.pairwise_singleton _ c)
  rwa [rewrites_cons, rewrites, List.filterMap_nil, List.append_nil] at one

theorem find_after_rewriting (j : Job) {b : Candidate} (apart : t.Apart c b) :
    (t.overwrite (j.rewriting t c).toList).find b.path = t.find b.path := by
  refine FileTree.find_overwrite_all (overwrites_rewriting j t c) ?_
  intro w member
  exact apart w.1 (locate?_of_rewriting (Option.mem_toList.mp member))

theorem find_after_handle (j : Job) {b : Candidate} (apart : t.Apart c b) :
    (j.handle t c).tree.find b.path = t.find b.path := by
  rw [(handled_eq j t c).2]
  exact find_after_rewriting j apart

theorem refusal?_after_handle (j : Job) (t : FileTree) (c : Candidate) : (j.handle t c).tree.refusal? = t.refusal? := by
  rw [(handled_eq j t c).2]
  exact FileTree.refusal?_overwrite t _

theorem seen_after_handle (j : Job) {b : Candidate} (apart : t.Apart c b) :
    (j.handle t c).tree.seen b.path = t.seen b.path :=
  FileTree.seen_congr (find_after_handle j apart) (refusal?_after_handle j t c)

theorem pairwise_apart_after_handle (j : Job) (apart : (c :: cs).Pairwise t.Apart) :
    cs.Pairwise (j.handle t c).tree.Apart := by
  obtain ⟨different, others⟩ := List.pairwise_cons.mp apart
  have located : ∀ b ∈ cs, (j.handle t c).tree.locate? b.path = t.locate? b.path := by
    intro b member
    rw [FileTree.locate?, FileTree.locate?, find_after_handle j (different b member)]
  refine others.imp_of_mem ?_
  intro a b memberA memberB different loc first
  rw [located a memberA] at first
  rw [located b memberB]
  exact different loc first

/-- Files that are handled one after the other are handled as they were at first. -/
theorem handleAll_eq (j : Job) (apart : cs.Pairwise t.Apart) :
    (j.handleAll t cs).1 = cs.map (fun c => j.verdict c (t.seen c.path)) ∧
      (j.handleAll t cs).2.2 = t.overwrite (j.rewrites t cs) := by
  induction cs generalizing t with
  | nil => exact ⟨rfl, rfl⟩
  | cons c cs ih =>
    obtain ⟨different, -⟩ := List.pairwise_cons.mp apart
    obtain ⟨verdict, tree⟩ := handled_eq j t c
    obtain ⟨handled, final⟩ := ih (pairwise_apart_after_handle j apart)
    have seen : ∀ b ∈ cs, (j.handle t c).tree.seen b.path = t.seen b.path :=
      fun b member => seen_after_handle j (different b member)
    have rewrites : j.rewrites (j.handle t c).tree cs = j.rewrites t cs := by
      refine List.filterMap_congr ?_
      intro b member
      exact rewriting_congr (find_after_handle j (different b member)) (refusal?_after_handle j t c)
    refine ⟨?_, ?_⟩
    · change Handled.ofOutcome c (j.handle t c).outcome :: (j.handleAll (j.handle t c).tree cs).1 = _
      rw [verdict, handled, List.map_cons]
      congr 1
      exact List.map_congr_left fun b member => by rw [seen b member]
    · change (j.handleAll (j.handle t c).tree cs).2.2 = _
      rw [final, rewrites, rewrites_cons, tree, FileTree.overwrite_append]

end Job

end LicenseHeaders
