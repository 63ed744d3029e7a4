import LicenseHeaders.Proofs.SingleFile

namespace LicenseHeaders

namespace Component

def IsStep (c : Component) : Prop :=
  c = up ∨ ∃ s, IsName s ∧ c = name s

namespace IsStep

variable {c : Component}

theorem unslashed (step : c.IsStep) : '/' ∉ c.text := by
  rcases step with rfl | ⟨s, isName, rfl⟩
  · decide
  · exact isName.unslashed

theorem ofPiece_text (step : c.IsStep) : ofPiece c.text = some c := by
  rcases step with rfl | ⟨s, isName, rfl⟩
  · rfl
  · exact FilePath.ofPiece_name isName

end IsStep

theorem isStep_of_ofPiece {piece : Text} {c : Component} (unslashed : '/' ∉ piece) (named : ofPiece piece = some c) :
    c.IsStep := by
  unfold ofPiece at named
  split at named
  · cases named
  · rename_i full
    rw [not_or] at full
    split at named
    · exact Or.inl (Option.some.inj named).symm
    · rename_i notUp
      exact Or.inr ⟨piece, ⟨full.1, full.2, notUp, unslashed⟩, (Option.some.inj named).symm⟩

end Component

namespace FilePath

variable {p q base rest : FilePath} {a : Anchor} {pieces : List Text}

theorem dissect_of_unwritten (free : q.anchor = .unwritten) :
    dissect q.text = (.unwritten, Text.splitAt '/' q.text) := by
  unfold anchor dissect at free
  unfold dissect
  split at free
  · cases free
  · cases free
  · rfl

theorem components_of_unwritten (free : q.anchor = .unwritten) :
    q.components = (Text.splitAt '/' q.text).filterMap Component.ofPiece :=
  components_eq (dissect_of_unwritten free)

theorem components_join (full : p.text ≠ []) (free : q.anchor = .unwritten) :
    (p.join q).components = p.components ++ q.components := by
  have relative : q.isAbsolute = false := by
    rw [isAbsolute, free]
    rfl
  rw [components_of_unwritten free]
  by_cases slash : p.text.getLast? = some '/'
  · obtain ⟨body, text⟩ := List.getLast?_eq_some_iff.mp slash
    have joined : (p.join q).text = body ++ '/' :: q.text := by simp [join, relative, text]
    -- The slash leaves an empty piece at the end, and the second path starts in its place.
    by_cases none : body = []
    · subst none
      obtain ⟨first, others, cut⟩ := List.exists_cons_of_ne_nil (Text.splitAt_ne_nil '/' q.text)
      have whole : dissect (p.join q).text = (.root, Text.splitAt '/' q.text) := by
        rw [joined]
        simp [dissect, Text.splitAt, cut]
      have own : dissect p.text = (.root, [[]]) := by
        rw [text]
        rfl
      rw [components_eq whole, components_eq own]
      rfl
    · have own : dissect p.text = ((dissect body).1, (dissect body).2 ++ [[]]) := by
        rw [text]
        exact dissect_append_slash none []
      have whole : dissect (p.join q).text = ((dissect body).1, (dissect body).2 ++ Text.splitAt '/' q.text) := by
        rw [joined]
        exact dissect_append_slash none q.text
      rw [components_eq whole, components_eq own]
      simp [Component.ofPiece]
  · have joined : (p.join q).text = p.text ++ '/' :: q.text := by simp [join, relative, full, slash]
    have whole : dissect (p.join q).text = ((dissect p.text).1, (dissect p.text).2 ++ Text.splitAt '/' q.text) := by
      rw [joined]
      exact dissect_append_slash full q.text
    have own : dissect p.text = ((dissect p.text).1, (dissect p.text).2) := rfl
    rw [components_eq whole, components_eq own, List.filterMap_append, List.append_assoc]

theorem pieces_subset (p : FilePath) : p.pieces ⊆ Text.splitAt '/' p.text := by
  unfold FilePath.pieces dissect
  split
  · rename_i cut
    rw [cut]
    exact List.subset_cons_self _ _
  · rename_i cut
    rw [cut]
    exact List.subset_cons_self _ _
  · exact List.Subset.refl _

theorem unslashed_pieces (p : FilePath) : ∀ piece ∈ p.pieces, '/' ∉ piece :=
  fun _ member => Text.notMem_of_mem_splitAt (p.pieces_subset member)

theorem trimStart_isSuffix (pieces : List Text) : trimStart pieces <:+ pieces :=
  List.dropWhile_suffix _

theorem trimEnd_isPrefix (pieces : List Text) : trimEnd pieces <+: pieces := by
  rw [← List.reverse_suffix, trimEnd, List.reverse_reverse]
  exact List.dropWhile_suffix _

theorem dropNamed_isSuffix (n : Nat) (pieces : List Text) : dropNamed n pieces <:+ pieces := by
  fun_induction dropNamed n pieces with
  | case1 => exact List.suffix_refl _
  | case2 => exact List.suffix_refl _
  | case3 n piece pieces _ ih => exact ih.trans (List.suffix_cons piece pieces)
  | case4 n piece pieces _ ih => exact ih.trans (List.suffix_cons piece pieces)

theorem behind_isInfix (n : Nat) (pieces : List Text) : trimEnd (trimStart (dropNamed n pieces)) <:+: pieces :=
  (trimEnd_isPrefix _).isInfix.trans ((trimStart_isSuffix _).trans (dropNamed_isSuffix n pieces)).isInfix

theorem filterMap_trimStart (pieces : List Text) :
    (trimStart pieces).filterMap Component.ofPiece = pieces.filterMap Component.ofPiece := by
  induction pieces with
  | nil => rfl
  | cons piece pieces ih =>
    cases named : Component.ofPiece piece with
    | none =>
      rw [trimStart, List.dropWhile_cons_of_pos (by simp [counts_of_none named]), List.filterMap_cons_none named]
      exact ih
    | some c =>
      rw [trimStart, List.dropWhile_cons_of_neg (by simp [counts_of_some named])]

theorem filterMap_trimEnd (pieces : List Text) :
    (trimEnd pieces).filterMap Component.ofPiece = pieces.filterMap Component.ofPiece := by
  have backwards := congrArg List.reverse (filterMap_trimStart pieces.reverse)
  rw [← List.filterMap_reverse, ← List.filterMap_reverse, List.reverse_reverse] at backwards
  exact backwards

theorem filterMap_dropNamed (n : Nat) (pieces : List Text) :
    (dropNamed n pieces).filterMap Component.ofPiece = (pieces.filterMap Component.ofPiece).drop n := by
  fun_induction dropNamed n pieces with
  | case1 => rfl
  | case2 => rfl
  | case3 n piece pieces counted ih =>
    obtain ⟨c, named⟩ := Option.isSome_iff_exists.mp counted
    rw [ih, List.filterMap_cons_some named, List.drop_succ_cons]
  | case4 n piece pieces idle ih =>
    have named : Component.ofPiece piece = none := by simpa [counts] using idle
    rw [ih, List.filterMap_cons_none named]

theorem counts_head_trimStart (pieces : List Text) : ∀ piece ∈ (trimStart pieces).head?, counts piece = true := by
  intro piece head
  have stopped := List.head?_dropWhile_not (!counts ·) pieces
  rw [← trimStart, head] at stopped
  simpa using stopped

theorem counts_iff {piece : Text} : counts piece = true ↔ piece ≠ [] ∧ piece ≠ ['.'] := by
  by_cases idle : piece = [] ∨ piece = ['.']
  · have uncounted : counts piece = false := by simp [counts, Component.ofPiece, idle]
    rw [uncounted]
    rcases idle with rfl | rfl <;> simp
  · rw [not_or] at idle
    simp only [counts, Component.ofPiece, idle.1, idle.2, or_self, if_false]
    split <;> simp [idle]

theorem dissect_of_counts {piece : Text} {others : List Text} {s : Text} (cut : Text.splitAt '/' s = piece :: others)
    (counted : counts piece = true) : dissect s = (.unwritten, piece :: others) := by
  obtain ⟨full, notHere⟩ := counts_iff.mp counted
  simp [dissect, cut, full, notHere]

theorem counts_head_trimEnd (free : p.anchor = .unwritten) :
    ∀ piece ∈ (trimEnd p.pieces).head?, counts piece = true := by
  intro piece head
  have cut : p.pieces = Text.splitAt '/' p.text := congrArg Prod.snd (dissect_of_unwritten free)
  obtain ⟨others, front⟩ := List.head?_eq_some_iff.mp head
  obtain ⟨tail, whole⟩ := trimEnd_isPrefix p.pieces
  rw [front, List.cons_append, cut] at whole
  rw [counts_iff]
  constructor
  · intro empty
    subst empty
    -- An empty piece in front is a root, unless it is the only one; and then nothing is left at the end.
    cases behind : others ++ tail with
    | nil =>
      obtain ⟨rfl, rfl⟩ := List.append_eq_nil_iff.mp behind
      rw [cut, ← whole] at front
      cases front
    | cons next more =>
      rw [behind] at whole
      simp [anchor, dissect, ← whole] at free
  · intro here
    subst here
    simp [anchor, dissect, ← whole] at free

theorem components_assemble (plain : ∀ piece ∈ pieces, '/' ∉ piece)
    (led : a = .unwritten → ∀ piece ∈ pieces.head?, counts piece = true) :
    (assemble a pieces).anchor = a ∧
      (assemble a pieces).components = a.components ++ pieces.filterMap Component.ofPiece := by
  have parts : dissect (assemble a pieces).text = (a, pieces) ∨
      pieces = [] ∧ dissect (assemble a pieces).text = (a, [[]]) := by
    cases pieces with
    | nil =>
      cases a with
      | root => exact Or.inr ⟨rfl, rfl⟩
      | here => exact Or.inl rfl
      | unwritten => exact Or.inr ⟨rfl, rfl⟩
    | cons piece others =>
      have cut : Text.splitAt '/' (Text.joinWith '/' (piece :: others)) = piece :: others :=
        Text.splitAt_joinWith (List.cons_ne_nil piece others) plain
      left
      cases a with
      | root => simp [assemble, dissect, Text.splitAt, cut]
      | here => simp [assemble, dissect, Text.splitAt, cut]
      | unwritten => exact dissect_of_counts cut (led rfl piece rfl)
  rcases parts with whole | ⟨rfl, whole⟩
  · exact ⟨congrArg Prod.fst whole, components_eq whole⟩
  · refine ⟨congrArg Prod.fst whole, ?_⟩
    rw [components_eq whole]
    rfl

theorem components_behind (n : Nat) (plain : ∀ piece ∈ pieces, '/' ∉ piece) :
    (assemble .unwritten (trimEnd (trimStart (dropNamed n pieces)))).anchor = .unwritten ∧
      (assemble .unwritten (trimEnd (trimStart (dropNamed n pieces)))).components =
        (pieces.filterMap Component.ofPiece).drop n := by
  have led : ∀ piece ∈ (trimEnd (trimStart (dropNamed n pieces))).head?, counts piece = true := by
    intro piece head
    apply counts_head_trimStart (dropNamed n pieces)
    obtain ⟨others, cut⟩ := List.head?_eq_some_iff.mp head
    obtain ⟨tail, whole⟩ := trimEnd_isPrefix (trimStart (dropNamed n pieces))
    rw [← whole, cut]
    rfl
  obtain ⟨free, whole⟩ := components_assemble (a := .unwritten)
    (fun piece member => plain piece ((behind_isInfix n pieces).subset member)) fun _ => led
  refine ⟨free, ?_⟩
  rw [whole, filterMap_trimEnd, filterMap_trimStart, filterMap_dropNamed]
  rfl

theorem components_below? (below : p.below? base = some rest) :
    rest.components = p.components.drop base.components.length ∧ (base.text ≠ [] → rest.anchor = .unwritten) := by
  have own : p.components = p.anchor.components ++ p.pieces.filterMap Component.ofPiece := rfl
  unfold below? at below
  split at below
  · split at below
    · rename_i none
      rw [List.isEmpty_iff] at none
      obtain rfl := Option.some.inj below
      have plain : ∀ piece ∈ trimEnd p.pieces, '/' ∉ piece :=
        fun piece member => p.unslashed_pieces piece ((trimEnd_isPrefix p.pieces).subset member)
      obtain ⟨-, whole⟩ := components_assemble plain fun free => counts_head_trimEnd free
      rw [whole, none, filterMap_trimEnd]
      exact ⟨rfl, fun full => absurd none (components_ne_nil full)⟩
    · rename_i some
      rw [List.isEmpty_iff] at some
      have positive := List.length_pos_of_ne_nil some
      have short : p.anchor.components.length ≤ 1 := by cases p.anchor <;> simp [Anchor.components]
      obtain rfl := Option.some.inj below
      obtain ⟨free, whole⟩ :=
        components_behind (base.components.length - p.anchor.components.length) p.unslashed_pieces
      have gone : p.anchor.components.drop base.components.length = [] := List.drop_eq_nil_of_le (by omega)
      refine ⟨?_, fun _ => free⟩
      rw [whole, own, List.drop_append, gone, List.nil_append]
  · cases below

end FilePath

end LicenseHeaders
