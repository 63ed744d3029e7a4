import LicenseHeaders.Proofs.Listing
import LicenseHeaders.Proofs.PathParts

namespace LicenseHeaders

namespace Component

/-- One more component behind others, of which the last one comes first. A step up takes back the name in front of it;
at the root there is nothing to take back. -/
def push : (done : List Component) → Component → List Component
  | .name _ :: others, .up => others
  | .root :: others, .up => .root :: others
  | done, c => c :: done

def withoutUps (cs : List Component) : List Component :=
  (cs.foldl push []).reverse

theorem push_name (done : List Component) (s : Text) : push done (.name s) = .name s :: done := by
  unfold push
  split <;> simp_all

theorem foldl_push_names (done : List Component) (names : List Text) :
    (names.map name).foldl push done = (names.map name).reverse ++ done := by
  induction names generalizing done with
  | nil => rfl
  | cons s names ih =>
    rw [List.map_cons, List.foldl_cons, push_name, ih, List.reverse_cons, List.append_assoc, List.singleton_append]

theorem foldl_push_ups (names : List Text) (done : List Component) :
    (List.replicate names.length up).foldl push (names.map name ++ done) = done := by
  induction names with
  | nil => rfl
  | cons s names ih => exact ih

theorem withoutUps_detour (common back ahead : List Text) :
    withoutUps (root :: (common ++ back).map name ++ (List.replicate back.length up ++ ahead.map name)) =
      root :: (common ++ ahead).map name := by
  have base : (root :: (common ++ back).map name).foldl push [] =
      back.reverse.map name ++ (common.reverse.map name ++ [root]) := by
    rw [List.foldl_cons, foldl_push_names, List.map_append, List.reverse_append, List.append_assoc, List.map_reverse,
      List.map_reverse]
    rfl
  have turned := foldl_push_ups back.reverse (common.reverse.map name ++ [root])
  rw [List.length_reverse] at turned
  rw [withoutUps, List.foldl_append, base, List.foldl_append, turned, foldl_push_names]
  simp

theorem withoutUps_names (names : List Text) : withoutUps (root :: names.map name) = root :: names.map name := by
  have still := withoutUps_detour names [] []
  simpa using still

end Component

namespace FilePath

variable {p q base rest : FilePath} {a : Anchor} {pieces : List Text}

def LiesBelow (p base : FilePath) : Prop :=
  base.components <+: p.components ∧ base.components ≠ p.components

structure Straight (p : FilePath) : Prop where
  absolute : p.isAbsolute = true
  noUp : Component.up ∉ p.components

theorem exists_below? (starts : base.components <+: p.components) : ∃ rest, p.below? base = some rest := by
  rw [below?, if_pos (List.isPrefixOf_iff_prefix.mpr starts)]
  split <;> exact ⟨_, rfl⟩

theorem prefix_of_below? (below : p.below? base = some rest) : base.components <+: p.components := by
  unfold below? at below
  split at below
  · rename_i starts
    exact List.isPrefixOf_iff_prefix.mp starts
  · cases below

theorem components_of_empty (empty : p.text = []) : p.components = [] := by
  rw [components, anchor, pieces, empty]
  rfl

theorem shown_of_liesBelow (lower : p.LiesBelow base) :
    ∃ rest, p.below? base = some rest ∧ shownFrom base p = rest.text := by
  obtain ⟨starts, more⟩ := lower
  obtain ⟨rest, below⟩ := exists_below? starts
  refine ⟨rest, below, ?_⟩
  have left := (components_below? below).1
  have full : rest.text ≠ [] := by
    intro none
    obtain ⟨others, whole⟩ := starts
    rw [components_of_empty none, ← whole, List.drop_left] at left
    rw [← left, List.append_nil] at whole
    exact more whole
  have some : rest.text.isEmpty = false := by simpa using full
  simp [shownFrom, below, some]

theorem shown_of_not_liesBelow (beside : ¬ p.LiesBelow base) :
    shownFrom base p = shownFrom.otherwise base p := by
  cases below : p.below? base with
  | none => simp [shownFrom, below]
  | some rest =>
    have starts := prefix_of_below? below
    have same : base.components = p.components := by
      by_contra more
      exact beside ⟨starts, more⟩
    have nothing : rest.components = [] := by rw [(components_below? below).1, same, List.drop_length]
    have none : rest.text = [] := by
      by_contra full
      exact components_ne_nil full nothing
    simp [shownFrom, below, none]

theorem components_shown_below (lower : p.LiesBelow base) :
    components ⟨shownFrom base p⟩ = p.components.drop base.components.length := by
  obtain ⟨rest, below, shown⟩ := shown_of_liesBelow lower
  rw [shown]
  exact (components_below? below).1

theorem components_join_shown_below (lower : p.LiesBelow base) :
    (base.join ⟨shownFrom base p⟩).components = p.components := by
  obtain ⟨rest, below, shown⟩ := shown_of_liesBelow lower
  obtain ⟨left, free⟩ := components_below? below
  rw [shown]
  -- Joined to an empty base, a path is left as it is and may well be absolute.
  by_cases full : base.text = []
  · have whole : base.join ⟨rest.text⟩ = rest := by simp [join, full]
    rw [whole, left, components_of_empty full]
    rfl
  · obtain ⟨others, whole⟩ := lower.1
    have behind : rest.components = others := by rw [left, ← whole, List.drop_left]
    exact (components_join full (free full)).trans (by rw [behind, whole])

theorem exists_names_of_steps {cs : List Component} (steps : ∀ c ∈ cs, c.IsStep) (noUp : Component.up ∉ cs) :
    ∃ names : List Text, (∀ s ∈ names, IsName s) ∧ cs = names.map .name := by
  induction cs with
  | nil => exact ⟨[], List.forall_mem_nil _, rfl⟩
  | cons c cs ih =>
    rw [List.mem_cons, not_or] at noUp
    obtain ⟨first, others⟩ := List.forall_mem_cons.mp steps
    obtain ⟨names, valid, rfl⟩ := ih others noUp.2
    rcases first with rfl | ⟨s, isName, rfl⟩
    · exact absurd rfl noUp.1
    · exact ⟨s :: names, List.forall_mem_cons.mpr ⟨isName, valid⟩, rfl⟩

theorem Straight.exists_names (straight : p.Straight) :
    ∃ names : List Text, (∀ s ∈ names, IsName s) ∧ p.components = .root :: names.map .name := by
  have rooted : p.anchor = .root := by simpa [isAbsolute] using straight.absolute
  have own : p.components = .root :: p.pieces.filterMap Component.ofPiece := by
    rw [components, rooted]
    rfl
  have noUp := straight.noUp
  rw [own, List.mem_cons, not_or] at noUp
  have steps : ∀ c ∈ p.pieces.filterMap Component.ofPiece, c.IsStep := by
    intro c member
    obtain ⟨piece, inside, named⟩ := List.mem_filterMap.mp member
    exact Component.isStep_of_ofPiece (p.unslashed_pieces piece inside) named
  obtain ⟨names, valid, same⟩ := exists_names_of_steps steps noUp.2
  exact ⟨names, valid, by rw [own, same]⟩

theorem stepsFrom_names (start : List Text) (target : List Component) :
    stepsFrom (start.map .name) target = some (List.replicate start.length .up ++ target) := by
  cases start with
  | nil => rfl
  | cons s start => simp [stepsFrom, List.replicate_succ, Function.comp_def]

theorem steps_names (start target : List Text) :
    ∃ common back ahead : List Text, start = common ++ back ∧ target = common ++ ahead ∧
      steps (start.map .name) (target.map .name) = some (List.replicate back.length .up ++ ahead.map .name) := by
  induction start generalizing target with
  | nil => exact ⟨[], [], target, rfl, rfl, by simp [steps, stepsFrom]⟩
  | cons s start ih =>
    cases target with
    | nil => exact ⟨[], s :: start, [], rfl, rfl, stepsFrom_names (s :: start) []⟩
    | cons s' target =>
      by_cases same : s = s'
      · subst same
        obtain ⟨common, back, ahead, rfl, rfl, whole⟩ := ih target
        exact ⟨s :: common, back, ahead, rfl, rfl, by simpa [steps] using whole⟩
      · refine ⟨[], s :: start, s' :: target, rfl, rfl, ?_⟩
        rw [List.map_cons, List.map_cons, steps, if_neg (by simpa using same)]
        exact stepsFrom_names (s :: start) ((s' :: target).map .name)

theorem components_ofSteps {cs : List Component} (all : ∀ c ∈ cs, c.IsStep) :
    (ofSteps cs).anchor = .unwritten ∧ (ofSteps cs).components = cs := by
  have plain : ∀ piece ∈ cs.map Component.text, '/' ∉ piece := by
    intro piece member
    obtain ⟨c, inside, rfl⟩ := List.mem_map.mp member
    exact (all c inside).unslashed
  have named : ∀ c ∈ cs, Component.ofPiece c.text = some c := fun c inside => (all c inside).ofPiece_text
  have led : ∀ piece ∈ (cs.map Component.text).head?, counts piece = true := by
    intro piece head
    obtain ⟨c, inside, rfl⟩ := List.mem_map.mp (List.mem_of_head? head)
    exact counts_of_some (named c inside)
  obtain ⟨free, whole⟩ := components_assemble (a := .unwritten) plain fun _ => led
  refine ⟨free, whole.trans ?_⟩
  have same : cs.filterMap (Component.ofPiece ∘ Component.text) = cs.filterMap some := List.filterMap_congr named
  rw [List.filterMap_map, same, List.filterMap_some]
  rfl

theorem withoutUps_join_shown (straightBase : base.Straight) (straight : p.Straight) :
    Component.withoutUps (base.join ⟨shownFrom base p⟩).components = p.components := by
  obtain ⟨target, valid, own⟩ := straight.exists_names
  by_cases lower : p.LiesBelow base
  · rw [components_join_shown_below lower, own, Component.withoutUps_names]
  -- Beside the base and above it, what is shown leads up to what both have in common, and is a detour from there.
  · obtain ⟨start, -, ownBase⟩ := straightBase.exists_names
    obtain ⟨common, back, ahead, rfl, rfl, path⟩ := steps_names start target
    have shown : shownFrom base p = (ofSteps (List.replicate back.length .up ++ ahead.map .name)).text := by
      have same : steps base.components p.components = some (List.replicate back.length .up ++ ahead.map .name) := by
        simpa [ownBase, own, steps] using path
      rw [shown_of_not_liesBelow lower]
      simp [shownFrom.otherwise, straight.absolute, straightBase.absolute, same]
    have all : ∀ c ∈ List.replicate back.length .up ++ ahead.map .name, Component.IsStep c := by
      intro c member
      rcases List.mem_append.mp member with up | named
      · exact Or.inl (List.eq_of_mem_replicate up)
      · obtain ⟨s, inside, rfl⟩ := List.mem_map.mp named
        exact Or.inr ⟨s, valid s (List.mem_append_right common inside), rfl⟩
    obtain ⟨free, whole⟩ := components_ofSteps all
    have full : base.text ≠ [] := by
      intro none
      rw [components_of_empty none] at ownBase
      cases ownBase
    have joined : (base.join ⟨shownFrom base p⟩).components =
        base.components ++ (List.replicate back.length .up ++ ahead.map .name) := by
      rw [shown]
      exact (components_join full free).trans (by rw [whole])
    rw [joined, ownBase, own, Component.withoutUps_detour]

def Draws (p : FilePath) (c : Char) : Prop :=
  c ∈ p.text ∨ c = '/' ∨ c = '.'

variable {c : Char}

theorem draws_of_mem_pieces {piece : Text} (listed : piece ∈ p.pieces) (member : c ∈ piece) : p.Draws c := by
  have inside : c ∈ Text.joinWith '/' (Text.splitAt '/' p.text) := Text.mem_joinWith (p.pieces_subset listed) member
  rw [Text.joinWith_splitAt] at inside
  exact Or.inl inside

theorem draws_of_mem_assemble (inside : pieces ⊆ p.pieces) (member : c ∈ (assemble a pieces).text) : p.Draws c := by
  have body (found : c ∈ Text.joinWith '/' pieces) : p.Draws c := by
    rcases Text.mem_of_mem_joinWith found with rfl | ⟨piece, listed, own⟩
    · exact Or.inr (Or.inl rfl)
    · exact draws_of_mem_pieces (inside listed) own
  unfold assemble at member
  split at member
  · rcases List.mem_cons.mp member with rfl | found
    · exact Or.inr (Or.inl rfl)
    · exact body found
  · exact Or.inr (Or.inr (List.mem_singleton.mp member))
  · rcases List.mem_cons.mp member with rfl | later
    · exact Or.inr (Or.inr rfl)
    · rcases List.mem_cons.mp later with rfl | found
      · exact Or.inr (Or.inl rfl)
      · exact body found
  · exact body member

theorem draws_of_mem_below? (below : p.below? base = some rest) (member : c ∈ rest.text) : p.Draws c := by
  unfold below? at below
  split at below
  · split at below
    · obtain rfl := Option.some.inj below
      exact draws_of_mem_assemble (trimEnd_isPrefix p.pieces).subset member
    · obtain rfl := Option.some.inj below
      refine draws_of_mem_assemble ?_ member
      exact (behind_isInfix _ p.pieces).subset
  · cases below

theorem draws_of_mem_components {x : Component} (listed : x ∈ p.components) (member : c ∈ x.text) : p.Draws c := by
  rcases List.mem_append.mp listed with start | named
  · cases start' : p.anchor with
    | root =>
      rw [start', Anchor.components, List.mem_singleton] at start
      subst start
      exact Or.inr (Or.inl (List.mem_singleton.mp member))
    | here =>
      rw [start', Anchor.components, List.mem_singleton] at start
      subst start
      exact Or.inr (Or.inr (List.mem_singleton.mp member))
    | unwritten =>
      rw [start'] at start
      cases start
  · obtain ⟨piece, inside, named⟩ := List.mem_filterMap.mp named
    unfold Component.ofPiece at named
    split at named
    · cases named
    · split at named
      · cases named
        exact Or.inr (Or.inr (by simpa [Component.text] using member))
      · cases named
        exact draws_of_mem_pieces inside member

theorem mem_steps {start target cs : List Component} (path : steps start target = some cs) :
    ∀ x ∈ cs, x = .up ∨ x ∈ target := by
  have whole {start target : List Component} (path : stepsFrom start target = some cs) :
      ∀ x ∈ cs, x = .up ∨ x ∈ target := by
    intro x member
    unfold stepsFrom at path
    split at path
    · cases path
      exact Or.inr member
    · cases path
    · cases path
      rcases List.mem_append.mp member with up | ahead
      · obtain ⟨-, -, rfl⟩ := List.mem_map.mp up
        exact Or.inl rfl
      · exact Or.inr ahead
  fun_induction steps start target with
  | case1 b start target ih =>
    intro x member
    exact (ih path x member).imp_right (List.mem_cons_of_mem _)
  | case2 => exact whole path
  | case3 => exact whole path

theorem draws_of_mem_shownFrom (member : c ∈ shownFrom base p) : p.Draws c := by
  by_cases lower : p.LiesBelow base
  · obtain ⟨rest, below, shown⟩ := shown_of_liesBelow lower
    rw [shown] at member
    exact draws_of_mem_below? below member
  · rw [shown_of_not_liesBelow lower, shownFrom.otherwise] at member
    split at member
    · split at member
      · rename_i cs path
        rcases Text.mem_of_mem_joinWith member with rfl | ⟨piece, listed, own⟩
        · exact Or.inr (Or.inl rfl)
        · obtain ⟨x, inside, rfl⟩ := List.mem_map.mp listed
          rcases mem_steps path x inside with rfl | ahead
          · exact Or.inr (Or.inr (by simpa [Component.text] using own))
          · exact draws_of_mem_components ahead own
      · exact Or.inl member
    · exact Or.inl member

def OfOneKind (base : FilePath) (ps : List FilePath) : Prop :=
  (∀ p ∈ ps, p.LiesBelow base) ∨ base.Straight ∧ ∀ p ∈ ps, p.Straight

theorem OfOneKind.exists_back {ps : List FilePath} (kind : base.OfOneKind ps) :
    ∃ back : Text → List Component, ∀ p ∈ ps, back (shownFrom base p) = p.components := by
  rcases kind with below | ⟨straightBase, straight⟩
  · exact ⟨fun shown => (base.join ⟨shown⟩).components, fun p listed => components_join_shown_below (below p listed)⟩
  · exact ⟨fun shown => Component.withoutUps (base.join ⟨shown⟩).components,
      fun p listed => withoutUps_join_shown straightBase (straight p listed)⟩

theorem OfOneKind.map_components_eq {ps qs : List FilePath} (kind : base.OfOneKind (ps ++ qs))
    (same : ps.map (shownFrom base) = qs.map (shownFrom base)) : ps.map components = qs.map components := by
  obtain ⟨back, told⟩ := kind.exists_back
  have first : ps.map (back ∘ shownFrom base) = ps.map components :=
    List.map_congr_left fun p listed => told p (List.mem_append_left qs listed)
  have second : qs.map (back ∘ shownFrom base) = qs.map components :=
    List.map_congr_left fun q listed => told q (List.mem_append_right ps listed)
  rw [← first, ← second, ← List.map_map, ← List.map_map, same]

/-- What is shown of a path from this base leads back to the path. -/
structure LeadsBack (base : FilePath) : Prop where
  below : ∀ p, p.LiesBelow base →
    components ⟨shownFrom base p⟩ = p.components.drop base.components.length ∧
      (base.join ⟨shownFrom base p⟩).components = p.components
  straight : base.Straight → ∀ p, p.Straight →
    Component.withoutUps (base.join ⟨shownFrom base p⟩).components = p.components
  apart : ∀ p q, base.OfOneKind [p, q] → shownFrom base p = shownFrom base q → p.components = q.components
  listed : ∀ c : Console, c.verbosity = .quiet → ∀ heading withDetail (files others : List FileReport),
    base.OfOneKind (files.map FileReport.path ++ others.map FileReport.path) →
    c.list heading base withDetail files = c.list heading base withDetail others →
    files.map (·.path.components) = others.map (·.path.components)
  printed : ∀ c : Console, c.verbosity = .quiet → ∀ heading withDetail (files others : List FileReport),
    base.OfOneKind (files.map FileReport.path ++ others.map FileReport.path) →
    (∀ r ∈ files ++ others, '\n' ∉ r.path.text) →
    Text.unlines (c.list heading base withDetail files) = Text.unlines (c.list heading base withDetail others) →
    files.map (·.path.components) = others.map (·.path.components)

theorem newline_notMem_shownFrom (plain : '\n' ∉ p.text) : '\n' ∉ shownFrom base p := by
  intro member
  rcases draws_of_mem_shownFrom member with own | slash | dot
  · exact plain own
  · cases slash
  · cases dot

theorem listed_back {c : Console} (quiet : c.verbosity = .quiet) {heading : Text} {withDetail : Bool}
    {files others : List FileReport}
    (kind : base.OfOneKind (files.map FileReport.path ++ others.map FileReport.path))
    (same : c.list heading base withDetail files = c.list heading base withDetail others) :
    files.map (·.path.components) = others.map (·.path.components) := by
  rw [Console.list_quiet quiet, Console.list_quiet quiet] at same
  have shown : (files.map FileReport.path).map (shownFrom base) =
      (others.map FileReport.path).map (shownFrom base) := by
    rw [List.map_map, List.map_map]
    exact same
  have told := kind.map_components_eq shown
  rw [List.map_map, List.map_map] at told
  exact told

theorem shown_paths_lead_back (base : FilePath) : base.LeadsBack where
  below _ lower := ⟨components_shown_below lower, components_join_shown_below lower⟩
  straight straightBase _ straight := withoutUps_join_shown straightBase straight
  apart p q kind same := by
    obtain ⟨back, told⟩ := kind.exists_back
    rw [← told p (by simp), same, told q (by simp)]
  listed _ quiet _ _ _ _ kind same := listed_back quiet kind same
  printed c quiet heading withDetail files others kind plain same := by
    have lines {reports : List FileReport} (unbroken : ∀ r ∈ reports, '\n' ∉ r.path.text) :
        ∀ l ∈ c.list heading base withDetail reports, '\n' ∉ l := by
      intro l listed
      rw [Console.list_quiet quiet] at listed
      obtain ⟨r, inside, rfl⟩ := List.mem_map.mp listed
      exact newline_notMem_shownFrom (unbroken r inside)
    have first := lines fun r inside => plain r (List.mem_append_left others inside)
    have second := lines fun r inside => plain r (List.mem_append_right files inside)
    exact listed_back quiet kind (Text.unlines_inj first second same)

theorem cousin_leads_back :
    Straight ⟨"/r//s/".toList⟩ ∧ Straight ⟨"/r/t/./a".toList⟩ ∧
      shownFrom ⟨"/r//s/".toList⟩ ⟨"/r/t/./a".toList⟩ = "../t/a".toList ∧
      Component.withoutUps (join ⟨"/r//s/".toList⟩ ⟨shownFrom ⟨"/r//s/".toList⟩ ⟨"/r/t/./a".toList⟩⟩).components =
        [.root, .name ['r'], .name ['t'], .name ['a']] := by
  have straightBase : Straight ⟨"/r//s/".toList⟩ := ⟨by decide, by decide⟩
  have straight : Straight ⟨"/r/t/./a".toList⟩ := ⟨by decide, by decide⟩
  refine ⟨straightBase, straight, by decide, ?_⟩
  exact (shown_paths_lead_back ⟨"/r//s/".toList⟩).straight straightBase _ straight

end FilePath

end LicenseHeaders
