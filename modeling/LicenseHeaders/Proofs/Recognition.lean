import LicenseHeaders.Proofs.Presence
import Mathlib.Data.List.Forall2
import Mathlib.Logic.Relation

namespace LicenseHeaders

namespace Text

def Shows (s phrase : Text) : Prop :=
  ∃ piece, piece <:+: s ∧ List.Forall₂ (fun c d => foldChar c = foldChar d) piece phrase

theorem mentions_iff {s phrase : Text} : s.mentions phrase = true ↔ s.Shows phrase := by
  rw [mentions, contains_iff, foldCase, foldCase, List.infix_map_iff]
  apply exists_congr
  intro piece
  have alike : phrase.map foldChar = piece.map foldChar ↔
      List.Forall₂ (fun c d => foldChar c = foldChar d) piece phrase := by
    rw [eq_comm, ← List.forall₂_eq_eq_eq, List.forall₂_map_left_iff, List.forall₂_map_right_iff]
  rw [alike]

theorem trim_blank_append {blank : Text} (blanks : ∀ c ∈ blank, isBlankChar c = true) (s : Text) :
    trim (blank ++ s) = trim s := by
  rw [trim, trim, trimStart, trimStart, List.dropWhile_append_of_pos blanks]

theorem trim_of_blank {l : Text} (blank : l.isBlank = true) : trim l = [] := by
  have blanks : ∀ c ∈ l, isBlankChar c = true := by simpa [isBlank] using blank
  rw [← List.nil_append l, trim_append_blank blanks]
  rfl

end Text

namespace Comment

variable {ls : List Text} {i j : Nat}

theorem opens_iff {l : Text} : opens l = true ↔ ['/', '*'] <+: l ∨ ['/', '/'] <+: l := by
  rw [opens, Bool.or_eq_true, List.isPrefixOf_iff_prefix, List.isPrefixOf_iff_prefix]

theorem unclosed_between_iff :
    (∀ l ∈ (ls.take j).drop i, closes l = false) ↔
      ∀ k, i ≤ k → k < j → ∀ l ∈ ls[k]?, ¬ ['*', '/'] <:+: l := by
  have closes_iff (l : Text) : closes l = false ↔ ¬ ['*', '/'] <:+: l := by
    rw [← Bool.not_eq_true, closes, Text.contains_iff]
  simp only [closes_iff]
  constructor
  · intro unclosed k after before l here
    apply unclosed l
    rw [List.mem_iff_getElem?]
    refine ⟨k - i, ?_⟩
    rw [List.getElem?_drop, Nat.add_sub_cancel' after, List.getElem?_take_of_lt before]
    exact here
  · intro unclosed l member
    obtain ⟨n, here⟩ := List.mem_iff_getElem?.mp member
    rw [List.getElem?_drop] at here
    by_cases before : i + n < j
    · rw [List.getElem?_take_of_lt before] at here
      exact unclosed (i + n) (by omega) before l here
    · rw [List.getElem?_take, if_neg before] at here
      cases here

end Comment

namespace Attribution

inductive Respaced : List Text → List Text → Prop
  | putIn (above below : List Text) {blank : Text} :
      blank.isBlank = true → Respaced (above ++ below) (above ++ blank :: below)
  | takenOut (above below : List Text) {blank : Text} :
      blank.isBlank = true → Respaced (above ++ blank :: below) (above ++ below)
  | shifted (above below : List Text) (left body right left' right' : Text) :
      (∀ side ∈ [left, right, left', right'], side.isBlank = true) →
        Respaced (above ++ (left ++ body ++ right) :: below) (above ++ (left' ++ body ++ right') :: below)

variable {a : Attribution} {ls ls' : List Text}

theorem marks_iff {l : Text} : a.marks l = true ↔ l.trim ≠ [] ∧ l.trim.Shows a.phrase := by
  rw [marks, Bool.and_eq_true, Text.mentions_iff, Bool.not_eq_true', List.isEmpty_eq_false_iff]

theorem foundFrom_blank {line : Text} (blank : line.isBlank = true) (inside : Bool) (ls : List Text) :
    a.foundFrom inside (line :: ls) = a.foundFrom inside ls := by
  simp [foundFrom, Text.trim_of_blank blank]

theorem foundFrom_append_congr (same : ∀ inside, a.foundFrom inside ls = a.foundFrom inside ls') (above : List Text)
    (inside : Bool) : a.foundFrom inside (above ++ ls) = a.foundFrom inside (above ++ ls') := by
  induction above generalizing inside with
  | nil => exact same inside
  | cons line above ih => simp only [List.cons_append, foundFrom_cons, ih]

theorem Respaced.found_eq (step : Respaced ls ls') : a.found ls' = a.found ls := by
  cases step with
  | putIn above below blank =>
    apply foundFrom_append_congr
    intro inside
    exact foundFrom_blank blank inside below
  | takenOut above below blank =>
    apply foundFrom_append_congr
    intro inside
    exact (foundFrom_blank blank inside below).symm
  | shifted above below left body right left' right' blank =>
    have trimmed (front back : Text) (outer : front.isBlank = true) (behind : back.isBlank = true) :
        (front ++ body ++ back).trim = body.trim := by
      rw [Text.trim_append_blank (by simpa [Text.isBlank] using behind),
        Text.trim_blank_append (by simpa [Text.isBlank] using outer)]
    apply foundFrom_of_trim_eq
    simp only [List.map_append, List.map_cons]
    rw [trimmed left right (blank _ (by simp)) (blank _ (by simp)),
      trimmed left' right' (blank _ (by simp)) (blank _ (by simp))]

theorem found_respaced (steps : Relation.ReflTransGen Respaced ls ls') : a.found ls' = a.found ls := by
  induction steps with
  | refl => rfl
  | tail _ step ih => rw [step.found_eq, ih]

/-- The lines carry a license exactly if one of them opens a comment that reaches a line with the phrase, and then
they do however they are spaced. -/
theorem recognised_iff (a : Attribution) (ls : List Text) :
    (a.found ls = true ↔
      ∃ i j : Nat, i ≤ j ∧ (∃ l ∈ ls[i]?, ['/', '*'] <+: Text.trim l ∨ ['/', '/'] <+: Text.trim l) ∧
        (∀ k, i ≤ k → k < j → ∀ l ∈ ls[k]?, ¬ ['*', '/'] <:+: l) ∧
        ∃ l ∈ ls[j]?, Text.trim l ≠ [] ∧ (Text.trim l).Shows a.phrase) ∧
      ∀ ls', Relation.ReflTransGen Respaced ls ls' → a.found ls' = a.found ls := by
  refine ⟨?_, fun ls' steps => found_respaced steps⟩
  rw [found_iff]
  simp only [Comment.Reaches, Comment.opens_iff, Comment.unclosed_between_iff, marks_iff]
  constructor
  · intro found
    obtain ⟨j, ⟨i, le, opener, unclosed⟩, marked⟩ := found
    exact ⟨i, j, le, opener, unclosed, marked⟩
  · intro found
    obtain ⟨i, j, le, opener, unclosed, marked⟩ := found
    exact ⟨j, ⟨i, le, opener, unclosed⟩, marked⟩

theorem spaced_comment_recognised :
    Relation.ReflTransGen Respaced ["/*".toList, " b.v. */".toList] ["/*".toList, "\t".toList, "b.v. */ ".toList] ∧
      (Attribution.mk "B.V.".toList).found ["/*".toList, "\t".toList, "b.v. */ ".toList] = true := by
  have spread : Respaced ["/*".toList, " b.v. */".toList] ["/*".toList, "\t".toList, " b.v. */".toList] :=
    .putIn ["/*".toList] [" b.v. */".toList] rfl
  have moved : Respaced ["/*".toList, "\t".toList, " b.v. */".toList] ["/*".toList, "\t".toList, "b.v. */ ".toList] :=
    .shifted ["/*".toList, "\t".toList] [] " ".toList "b.v. */".toList [] [] " ".toList (by decide)
  have steps := (Relation.ReflTransGen.single spread).tail moved
  refine ⟨steps, ?_⟩
  rw [(recognised_iff _ _).2 _ steps]
  decide

end Attribution

end LicenseHeaders
