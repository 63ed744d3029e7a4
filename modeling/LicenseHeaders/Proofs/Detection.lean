import LicenseHeaders.Comment
import Mathlib.Data.List.TakeWhile

namespace LicenseHeaders

def Attribution.marks (a : Attribution) (line : Text) : Bool :=
  !line.trim.isEmpty && line.trim.mentions a.phrase

namespace Comment

/-- A comment reaches line `j`: some line up to it begins with an opener, outer blanks aside, and no line from
there on closes a comment before `j`. -/
def Reaches (opener : Text → Bool) (ls : List Text) (j : Nat) : Prop :=
  ∃ i ≤ j, (∃ l ∈ ls[i]?, opener l.trim = true) ∧ ∀ l ∈ (ls.take j).drop i, closes l = false

variable {opener : Text → Bool} {line : Text} {ls : List Text} {j : Nat}

theorem reaches_zero : Reaches opener (line :: ls) 0 ↔ opener line.trim = true := by
  constructor
  · intro reach
    obtain ⟨i, bound, ⟨l, here, opens⟩, -⟩ := reach
    obtain rfl : i = 0 := by omega
    obtain rfl : line = l := by simpa using here
    exact opens
  · intro opens
    exact ⟨0, Nat.le_refl 0, ⟨line, by simp, opens⟩, by simp⟩

theorem reaches_succ :
    Reaches opener (line :: ls) (j + 1) ↔
      (opener line.trim = true ∧ ∀ l ∈ line :: ls.take j, closes l = false) ∨ Reaches opener ls j := by
  constructor
  · intro reach
    obtain ⟨i, bound, ⟨l, here, opens⟩, unclosed⟩ := reach
    rcases i with _ | i
    · obtain rfl : line = l := by simpa using here
      exact Or.inl ⟨opens, by simpa using unclosed⟩
    · exact Or.inr ⟨i, by omega, ⟨l, by simpa using here, opens⟩, by simpa using unclosed⟩
  · intro reach
    rcases reach with ⟨opens, unclosed⟩ | ⟨i, bound, ⟨l, here, opens⟩, unclosed⟩
    · exact ⟨0, Nat.zero_le _, ⟨line, by simp, opens⟩, by simpa using unclosed⟩
    · exact ⟨i + 1, by omega, ⟨l, by simpa using here, opens⟩, by simpa using unclosed⟩

theorem Reaches.append_left (reach : Reaches opener ls j) (front : List Text) :
    Reaches opener (front ++ ls) (front.length + j) := by
  obtain ⟨i, bound, ⟨l, here, opens⟩, unclosed⟩ := reach
  refine ⟨front.length + i, by omega, ⟨l, ?_, opens⟩, ?_⟩
  · rw [List.getElem?_append_right (by omega), Nat.add_sub_cancel_left]
    exact here
  · rw [List.take_length_add_append, List.drop_length_add_append]
    exact unclosed

theorem reaches_append_right (bound : j < ls.length) (after : List Text) :
    Reaches opener (ls ++ after) j ↔ Reaches opener ls j := by
  have same : (ls ++ after).take j = ls.take j := List.take_append_of_le_length (by omega)
  unfold Reaches
  rw [same]
  constructor
  · intro reach
    obtain ⟨i, le, ⟨l, here, opens⟩, unclosed⟩ := reach
    rw [List.getElem?_append_left (by omega)] at here
    exact ⟨i, le, ⟨l, here, opens⟩, unclosed⟩
  · intro reach
    obtain ⟨i, le, ⟨l, here, opens⟩, unclosed⟩ := reach
    rw [← List.getElem?_append_left (by omega)] at here
    exact ⟨i, le, ⟨l, here, opens⟩, unclosed⟩

end Comment

namespace Text

@[simp]
theorem isBlankChar_slash : isBlankChar '/' = false := by decide

@[simp]
theorem isBlankChar_star : isBlankChar '*' = false := by decide

theorem infix_append_blank {needle blank s : Text} (solid : ∀ c ∈ needle, isBlankChar c = false)
    (full : needle ≠ []) (blanks : ∀ c ∈ blank, isBlankChar c = true) :
    needle <:+: blank ++ s ↔ needle <:+: s := by
  induction blank with
  | nil => rfl
  | cons b blank ih =>
    have head := blanks b List.mem_cons_self
    have others := ih (fun c member => blanks c (List.mem_cons_of_mem b member))
    rw [List.cons_append, List.infix_cons_iff, others]
    constructor
    · intro found
      rcases found with ⟨after, same⟩ | inside
      · obtain ⟨first, needle, rfl⟩ := List.exists_cons_of_ne_nil full
        have clash := solid first List.mem_cons_self
        rw [(List.cons.inj same).1, head] at clash
        cases clash
      · exact inside
    · exact Or.inr

theorem infix_trimStart {needle s : Text} (solid : ∀ c ∈ needle, isBlankChar c = false)
    (full : needle ≠ []) : needle <:+: trimStart s ↔ needle <:+: s := by
  have cut : s.takeWhile isBlankChar ++ trimStart s = s := List.takeWhile_append_dropWhile
  have blanks : ∀ c ∈ s.takeWhile isBlankChar, isBlankChar c = true :=
    fun c member => List.mem_takeWhile_imp member
  rw [← infix_append_blank solid full blanks, cut]

theorem infix_trim {needle s : Text} (solid : ∀ c ∈ needle, isBlankChar c = false) (full : needle ≠ []) :
    needle <:+: trim s ↔ needle <:+: s := by
  have back : ∀ t : Text, needle <:+: trimEnd t ↔ needle <:+: t := by
    intro t
    have mirrored : needle.reverse <:+: trimStart t.reverse ↔ needle.reverse <:+: t.reverse :=
      infix_trimStart (by simpa using solid) (by simpa using full)
    rw [List.reverse_infix] at mirrored
    rw [← mirrored, ← List.reverse_infix, trimEnd, dropTrailing, List.reverse_reverse, trimStart]
  rw [trim, back, infix_trimStart solid full]

theorem trim_infix (s : Text) : trim s <:+: s := by
  have back : trimEnd (trimStart s) <+: trimStart s := by
    rw [← List.reverse_suffix, trimEnd, dropTrailing, List.reverse_reverse]
    exact List.dropWhile_suffix _
  exact back.isInfix.trans (List.dropWhile_suffix _).isInfix

theorem trim_cons_solid {c : Char} {s : Text} (solid : isBlankChar c = false) :
    trim (c :: s) = trimEnd (c :: s) := by
  rw [trim, trimStart, List.dropWhile_cons_of_neg (by simp [solid])]

theorem trimEnd_cons_solid {c : Char} {s : Text} (solid : isBlankChar c = false) :
    trimEnd (c :: s) = c :: trimEnd s := by
  rw [trimEnd, trimEnd, dropTrailing, dropTrailing, List.reverse_cons, List.dropWhile_append]
  split
  · rename_i none
    rw [List.isEmpty_iff] at none
    simp [none, solid]
  · simp

theorem prefix_trimEnd {needle s : Text} (solid : ∀ c ∈ needle, isBlankChar c = false) (front : needle <+: s) :
    needle <+: trimEnd s := by
  obtain ⟨rest, rfl⟩ := front
  induction needle with
  | nil => exact List.nil_prefix
  | cons c needle ih =>
    have others := ih (fun d member => solid d (List.mem_cons_of_mem c member))
    rw [List.cons_append, trimEnd_cons_solid (solid c List.mem_cons_self), List.cons_prefix_cons]
    exact ⟨rfl, others⟩

theorem prefix_trim {needle s : Text} (solid : ∀ c ∈ needle, isBlankChar c = false) (full : needle ≠ [])
    (front : needle <+: s) : needle <+: trim s := by
  have same : trim s = trimEnd s := by
    obtain ⟨rest, rfl⟩ := front
    obtain ⟨c, others, rfl⟩ := List.exists_cons_of_ne_nil full
    exact trim_cons_solid (solid c List.mem_cons_self)
  rw [same]
  exact prefix_trimEnd solid front

end Text

namespace Comment

theorem closes_trim (line : Text) : closes line.trim = closes line := by
  rw [Bool.eq_iff_iff, closes, closes, Text.contains_iff, Text.contains_iff]
  exact Text.infix_trim (by simp) (by simp)

theorem opens_trim {line : Text} (opens : Comment.opens line = true) : Comment.opens line.trim = true := by
  rw [Comment.opens, Bool.or_eq_true, List.isPrefixOf_iff_prefix, List.isPrefixOf_iff_prefix] at opens ⊢
  rcases opens with block | line
  · exact Or.inl (Text.prefix_trim (by simp) (by simp) block)
  · exact Or.inr (Text.prefix_trim (by simp) (by simp) line)

end Comment

namespace Attribution

variable {a : Attribution} {ls : List Text}

theorem foundFrom_cons (a : Attribution) (inside : Bool) (line : Text) (ls : List Text) :
    a.foundFrom inside (line :: ls) =
      ((inside || Comment.opens line.trim) && a.marks line ||
        a.foundFrom ((inside || Comment.opens line.trim) && !Comment.closes line) ls) := by
  rw [foundFrom]
  -- Blank lines need no case of their own: they open nothing, close nothing and do not count.
  by_cases blank : line.trim = []
  · have closes : Comment.closes line = false := by
      rw [← Comment.closes_trim, blank]
      rfl
    have opens : Comment.opens [] = false := rfl
    simp [blank, marks, opens, closes]
  · have full : line.trim.isEmpty = false := by simpa using blank
    simp [full, marks, Comment.closes_trim]

/-- What the state of the scan stands for: the scan starts inside a comment that still reaches line `j`, or a
comment opened by one of the lines does. -/
def Within (inside : Bool) (ls : List Text) (j : Nat) : Prop :=
  (inside = true ∧ ∀ l ∈ ls.take j, Comment.closes l = false) ∨ Comment.Reaches Comment.opens ls j

theorem within_zero {inside : Bool} {line : Text} :
    Within inside (line :: ls) 0 ↔ (inside || Comment.opens line.trim) = true := by
  simp [Within, Comment.reaches_zero]

theorem within_succ {inside : Bool} {line : Text} {j : Nat} :
    Within inside (line :: ls) (j + 1) ↔
      Within ((inside || Comment.opens line.trim) && !Comment.closes line) ls j := by
  simp only [Within, Comment.reaches_succ, List.take_succ_cons, List.forall_mem_cons, Bool.and_eq_true,
    Bool.or_eq_true, Bool.not_eq_true']
  rw [and_assoc, or_and_right, or_assoc]

theorem foundFrom_iff {inside : Bool} :
    a.foundFrom inside ls = true ↔ ∃ j, Within inside ls j ∧ ∃ l ∈ ls[j]?, a.marks l = true := by
  induction ls generalizing inside with
  | nil => simp [foundFrom]
  | cons line ls ih =>
    rw [foundFrom_cons, Bool.or_eq_true, Bool.and_eq_true, ih]
    constructor
    · intro found
      rcases found with ⟨within, marked⟩ | ⟨j, within, l, here, marked⟩
      · exact ⟨0, within_zero.mpr within, line, by simp, marked⟩
      · exact ⟨j + 1, within_succ.mpr within, l, by simpa using here, marked⟩
    · intro found
      obtain ⟨j, within, l, here, marked⟩ := found
      rcases j with _ | j
      · obtain rfl : line = l := by simpa using here
        exact Or.inl ⟨within_zero.mp within, marked⟩
      · exact Or.inr ⟨j, within_succ.mp within, l, by simpa using here, marked⟩

theorem found_iff :
    a.found ls = true ↔ ∃ j, Comment.Reaches Comment.opens ls j ∧ ∃ l ∈ ls[j]?, a.marks l = true := by
  rw [found, foundFrom_iff]
  simp [Within]

theorem found_append_left (found : a.found ls = true) (front : List Text) : a.found (front ++ ls) = true := by
  obtain ⟨j, reach, l, here, marked⟩ := found_iff.mp found
  refine found_iff.mpr ⟨front.length + j, reach.append_left front, l, ?_, marked⟩
  rw [List.getElem?_append_right (by omega), Nat.add_sub_cancel_left]
  exact here

theorem found_append_right (found : a.found ls = true) (after : List Text) : a.found (ls ++ after) = true := by
  obtain ⟨j, reach, l, here, marked⟩ := found_iff.mp found
  have bound : j < ls.length := (List.getElem?_eq_some_iff.mp here).1
  refine found_iff.mpr ⟨j, (Comment.reaches_append_right bound after).mpr reach, l, ?_, marked⟩
  rw [List.getElem?_append_left bound]
  exact here

theorem found_of_infix {block : List Text} (found : a.found block = true) (inside : block <:+: ls) :
    a.found ls = true := by
  obtain ⟨front, after, rfl⟩ := inside
  exact found_append_right (found_append_left found front) after

theorem marks_nil : a.marks [] = false := rfl

theorem mentions_of_marks {line : Text} (marked : a.marks line = true) : line.mentions a.phrase = true := by
  have trimmed : line.trim.mentions a.phrase = true := by
    rw [marks, Bool.and_eq_true] at marked
    exact marked.2
  rw [Text.mentions, Text.contains_iff] at trimmed ⊢
  exact trimmed.trans ((Text.trim_infix line).map Text.foldChar)

theorem found_concat_blank : a.found (ls ++ [[]]) = a.found ls := by
  rw [Bool.eq_iff_iff]
  constructor
  · intro found
    obtain ⟨j, reach, l, here, marked⟩ := found_iff.mp found
    by_cases bound : j < ls.length
    · rw [List.getElem?_append_left bound] at here
      exact found_iff.mpr ⟨j, (Comment.reaches_append_right bound _).mp reach, l, here, marked⟩
    · have blank : l = [] := by
        rw [List.getElem?_append_right (by omega)] at here
        exact List.mem_singleton.mp (List.mem_of_getElem? here)
      rw [blank, marks_nil] at marked
      cases marked
  · intro found
    exact found_append_right found _

end Attribution

end LicenseHeaders
