import LicenseHeaders.Proofs.PathIdentity

namespace LicenseHeaders

structure IsName (s : Text) : Prop where
  full : s ≠ []
  notHere : s ≠ ['.']
  notUp : s ≠ ['.', '.']
  unslashed : '/' ∉ s

instance (s : Text) : Decidable (IsName s) :=
  decidable_of_iff (s ≠ [] ∧ s ≠ ['.'] ∧ s ≠ ['.', '.'] ∧ '/' ∉ s)
    ⟨fun ⟨full, notHere, notUp, unslashed⟩ => ⟨full, notHere, notUp, unslashed⟩,
      fun name => ⟨name.full, name.notHere, name.notUp, name.unslashed⟩⟩

structure FileTree.WellFormed (t : FileTree) : Prop where
  distinct : (t.nodes.map Prod.fst).Nodup
  named : ∀ entry ∈ t.nodes, ∀ name ∈ entry.1, IsName name

namespace IsName

variable {name : Text}

theorem not_idle (isName : IsName name) : FileTree.isIdle name = false := by
  simp [FileTree.isIdle, isName.full, isName.notHere]

theorem splitAt_eq (isName : IsName name) : Text.splitAt '/' name = [name] :=
  Text.splitAt_of_notMem isName.unslashed

theorem head?_ne (isName : IsName name) : name.head? ≠ some '/' :=
  fun head => isName.unslashed (List.mem_of_head? head)

theorem dissect_eq (isName : IsName name) : FilePath.dissect name = (.unwritten, [name]) := by
  unfold FilePath.dissect
  rw [isName.splitAt_eq]
  split
  · rename_i same
    cases same
  · rename_i same
    exact absurd (List.cons.inj same).1 isName.notHere
  · rfl

theorem not_absolute (isName : IsName name) : FilePath.isAbsolute ⟨name⟩ = false := by
  simp only [FilePath.isAbsolute, FilePath.anchor, isName.dissect_eq]
  rfl

theorem stepsOf_singleton (isName : IsName name) : FilePath.stepsOf [name] = [name] := by
  simp [FilePath.stepsOf, isName.not_idle]

end IsName

namespace FilePath

def descend (p : FilePath) (names : List Text) : FilePath :=
  names.foldl (fun q name => q.join ⟨name⟩) p

variable {p : FilePath} {name : Text} {names : List Text}

theorem join_name (p : FilePath) (isName : IsName name) :
    (p.text = [] ∧ p.join ⟨name⟩ = ⟨name⟩) ∨
      (∃ body, p.text = body ++ ['/'] ∧ p.join ⟨name⟩ = ⟨body ++ '/' :: name⟩) ∨
      (p.text ≠ [] ∧ p.join ⟨name⟩ = ⟨p.text ++ '/' :: name⟩) := by
  by_cases empty : p.text = []
  · exact Or.inl ⟨empty, by simp [join, empty]⟩
  · by_cases slash : p.text.getLast? = some '/'
    · obtain ⟨body, same⟩ := List.getLast?_eq_some_iff.mp slash
      exact Or.inr (Or.inl ⟨body, same, by simp [join, isName.not_absolute, same]⟩)
    · exact Or.inr (Or.inr ⟨empty, by simp [join, isName.not_absolute, empty, slash]⟩)

theorem stepsOf_append (pieces others : List Text) :
    stepsOf (pieces ++ others) = stepsOf pieces ++ stepsOf others :=
  List.filter_append ..

theorem steps_join (p : FilePath) (isName : IsName name) :
    stepsOf (FileTree.piecesOf (p.join ⟨name⟩)) = stepsOf (FileTree.piecesOf p) ++ [name] := by
  have last := isName.stepsOf_singleton
  have none : stepsOf [[]] = [] := rfl
  rcases join_name p isName with ⟨empty, joined⟩ | ⟨body, text, joined⟩ | ⟨-, joined⟩
  · simp [joined, FileTree.piecesOf, empty, Text.splitAt, isName.splitAt_eq, last, none]
  · rw [joined, FileTree.piecesOf, FileTree.piecesOf, text, Text.splitAt_append, Text.splitAt_append,
      stepsOf_append, stepsOf_append, isName.splitAt_eq, last]
    simp [Text.splitAt, none]
  · rw [joined, FileTree.piecesOf, FileTree.piecesOf, Text.splitAt_append, stepsOf_append, isName.splitAt_eq, last]

theorem startOf_join (p : FilePath) (isName : IsName name) (loc : Location) :
    FileTree.startOf (p.join ⟨name⟩) loc = FileTree.startOf p loc := by
  rcases join_name p isName with ⟨empty, joined⟩ | ⟨body, text, joined⟩ | ⟨full, joined⟩
  · simp [joined, FileTree.startOf, empty, isName.head?_ne]
  · cases body <;> simp [joined, FileTree.startOf, text]
  · obtain ⟨c, rest, text⟩ := List.exists_cons_of_ne_nil full
    simp [joined, FileTree.startOf, text]

theorem steps_descend (p : FilePath) (valid : ∀ name ∈ names, IsName name) :
    stepsOf (FileTree.piecesOf (p.descend names)) = stepsOf (FileTree.piecesOf p) ++ names := by
  induction names generalizing p with
  | nil => simp [descend]
  | cons name names ih =>
    have others := ih (p.join ⟨name⟩) (fun other member => valid other (List.mem_cons_of_mem name member))
    rw [steps_join p (valid name List.mem_cons_self), List.append_assoc] at others
    exact others

theorem startOf_descend (p : FilePath) (valid : ∀ name ∈ names, IsName name) (loc : Location) :
    FileTree.startOf (p.descend names) loc = FileTree.startOf p loc := by
  induction names generalizing p with
  | nil => rfl
  | cons name names ih =>
    have others := ih (p.join ⟨name⟩) (fun other member => valid other (List.mem_cons_of_mem name member))
    rw [startOf_join p (valid name List.mem_cons_self)] at others
    exact others

theorem descend_injective {others : List Text} (valid : ∀ name ∈ names, IsName name)
    (validOthers : ∀ name ∈ others, IsName name) (same : p.descend names = p.descend others) : names = others := by
  have steps := steps_descend p valid
  rw [same, steps_descend p validOthers] at steps
  exact (List.append_cancel_left steps).symm

end FilePath

namespace FileTree

variable {t : FileTree} {loc : Location} {n : Node}

theorem node?_of_mem (wf : t.WellFormed) (below : loc ≠ []) (member : (loc, n) ∈ t.nodes) :
    t.node? loc = some n := by
  obtain ⟨before, after, split⟩ := List.append_of_mem member
  have distinct := wf.distinct
  rw [split, List.map_append, List.map_cons, List.nodup_append] at distinct
  have earlier : ∀ entry ∈ before, loc ≠ entry.1 :=
    fun entry inFront same => distinct.2.2 entry.1 (List.mem_map_of_mem inFront) loc List.mem_cons_self same.symm
  rw [node?, if_neg below, List.lookup_eq_some_iff]
  exact ⟨before, after, split, by simpa using earlier⟩

theorem mem_of_node? {n : Node} (below : loc ≠ []) (here : t.node? loc = some n) : (loc, n) ∈ t.nodes := by
  rw [node?, if_neg below, List.lookup_eq_some_iff] at here
  obtain ⟨before, after, split, -⟩ := here
  rw [split]
  simp

theorem isName_of_node? {name : Text} (wf : t.WellFormed) (here : t.node? (loc ++ [name]) = some n) : IsName name :=
  wf.named _ (mem_of_node? (by simp) here) name (by simp)

theorem text_ne_nil_of_find {p : FilePath} {place : Location × Node} (found : t.find p = .ok place) :
    p.text ≠ [] := by
  intro empty
  have lost : t.find p = .error .notFound := by
    simp [find, resolve, empty]
  rw [lost] at found
  cases found

/-- From a directory the names lead to a node, through directories only. -/
inductive Leads (t : FileTree) : Location → List Text → Node → Prop
  | entry {loc : Location} {name : Text} {n : Node} (isName : IsName name)
      (here : t.node? (loc ++ [name]) = some n) : Leads t loc [name] n
  | through {loc : Location} {name : Text} {names : List Text} {n : Node} (isName : IsName name)
      (here : t.node? (loc ++ [name]) = some .directory) (rest : Leads t (loc ++ [name]) names n) :
      Leads t loc (name :: names) n

variable {names : List Text}

theorem Leads.valid (leads : t.Leads loc names n) : ∀ name ∈ names, IsName name := by
  induction leads with
  | entry isName _ => simpa using isName
  | through isName _ _ ih => simpa using ⟨isName, ih⟩

theorem pace_of_name {name : Text} {p : Pace} (isName : IsName name) (paced : t.pace loc name = .ok p) :
    p = match t.node? (loc ++ [name]) with
      | some .directory => .onward (loc ++ [name])
      | some (.link target) => .away target
      | found => .final (loc ++ [name]) found := by
  rw [pace, if_neg (by simp [isName.not_idle]), if_neg isName.notUp] at paced
  split at paced
  · cases paced
  cases here : t.node? (loc ++ [name]) with
  | none =>
    rw [here] at paced
    exact (Except.ok.inj paced).symm
  | some n =>
    rw [here] at paced
    cases n <;> exact (Except.ok.inj paced).symm

theorem walkWith_leads {follow : Location → FilePath → List Text → Except IoError Place} {m : Location} {k : Node}
    {b : Bool} (leads : t.Leads loc names n) (solid : ∀ target, n ≠ .link target)
    (reached : walkWith t follow loc names = .ok (.occupied m k b)) : m = loc ++ names := by
  induction leads with
  | @entry loc name n isName here =>
    obtain ⟨p, paced⟩ := exists_pace reached
    rw [walkWith_cons, paced, pace_of_name isName paced, here] at reached
    cases n with
    | link target => exact absurd rfl (solid target)
    | directory | file _ | device _ =>
      cases reached
      rfl
  | through isName here rest ih =>
    obtain ⟨p, paced⟩ := exists_pace reached
    rw [walkWith_cons, paced, pace_of_name isName paced, here] at reached
    rw [ih solid reached, List.append_assoc, List.singleton_append]

theorem walk_leads {links : Nat} {m : Location} {k : Node} {b : Bool} (leads : t.Leads loc names n)
    (solid : ∀ target, n ≠ .link target) (reached : walk t links loc names = .ok (.occupied m k b)) :
    m = loc ++ names := by
  cases links with
  | zero => exact walkWith_leads leads solid reached
  | succ links => exact walkWith_leads leads solid reached

theorem walkWith_append {follow : Location → FilePath → List Text → Except IoError Place} {l m : Location}
    {b : Bool} {ps qs : List Text} (here : ∃ links, walkWith t follow m qs = walk t links m qs)
    (followed : ∀ l target rest, follow l target rest = .ok (.occupied m .directory b) →
      ∃ links, follow l target (rest ++ qs) = walk t links m qs)
    (reached : walkWith t follow l ps = .ok (.occupied m .directory b)) :
    ∃ links, walkWith t follow l (ps ++ qs) = walk t links m qs := by
  induction ps generalizing l with
  | nil =>
    cases reached
    exact here
  | cons piece rest ih =>
    rcases pace_of_walkWith reached with ⟨next, paced, onward⟩ | ⟨target, paced, onward⟩ | ⟨final, found, paced, arrived⟩
    · rw [List.cons_append, walkWith_cons, paced]
      exact ih onward
    · rw [List.cons_append, walkWith_cons, paced]
      exact followed l target rest onward
    · obtain ⟨-, -, solid⟩ := node?_of_final paced
      rcases arrive_ok arrived with ⟨-, free⟩ | ⟨_, rfl, same⟩
      · cases free
      · cases same
        exact absurd rfl solid

theorem walk_append {links : Nat} {l m : Location} {b : Bool} {ps : List Text}
    (reached : walk t links l ps = .ok (.occupied m .directory b)) (qs : List Text) :
    ∃ left, walk t links l (ps ++ qs) = walk t left m qs := by
  induction links generalizing l ps with
  | zero =>
    rw [walk] at reached ⊢
    exact walkWith_append ⟨0, rfl⟩ (fun _ _ _ stopped => by cases stopped) reached
  | succ links ih =>
    rw [walk] at reached ⊢
    refine walkWith_append ⟨links + 1, rfl⟩ (fun l target rest followed => ?_) reached
    have onward := ih followed
    rw [List.append_assoc] at onward
    exact onward

theorem locate?_descend {root : FilePath} {l : Location} (dir : t.find root = .ok (loc, .directory))
    (leads : t.Leads loc names n) (solid : ∀ target, n ≠ .link target)
    (located : t.locate? (root.descend names) = some l) : l = loc ++ names := by
  obtain ⟨k, whole⟩ := walk_of_locate? located
  have viaSteps := walk_thinned (thinned_stepsOf _) whole
  rw [FilePath.steps_descend root leads.valid, FilePath.startOf_descend root leads.valid] at viaSteps
  have toRoot := walk_thinned (thinned_stepsOf _) (walk_of_resolve (resolve_of_find dir))
  -- Links lie on the way to the root only, so what is left of them does not matter below it.
  obtain ⟨left, onward⟩ := walk_append toRoot names
  rw [onward] at viaSteps
  exact walk_leads leads solid viaSteps

end FileTree

end LicenseHeaders
