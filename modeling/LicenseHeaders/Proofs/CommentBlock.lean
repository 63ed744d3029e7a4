import LicenseHeaders.Comment
import Mathlib.Data.List.Basic

namespace LicenseHeaders

structure Comment.Spans (block : List Text) : Prop where
  opened : ∃ l ∈ block.head?, Comment.opens l = true
  closed : ∃ l ∈ block.getLast?, Comment.closes l = true
  unclosed : ∀ l ∈ block.dropLast, Comment.closes l = false

/-- Lines in front of a comment that hide its ends from no search. -/
structure HeaderSearch.Clear (search : HeaderSearch) (front : List Text) : Prop where
  unopened : ∀ l ∈ front, Comment.opens l = false
  unclosed : search = .independent → ∀ l ∈ front, Comment.closes l = false

theorem HeaderSearch.clear_nil (search : HeaderSearch) : search.Clear [] :=
  ⟨by simp, by simp⟩

namespace Comment.Spans

variable {block : List Text}

theorem ne_nil (spans : Comment.Spans block) : block ≠ [] := by
  obtain ⟨l, head, -⟩ := spans.opened
  intro none
  rw [none] at head
  cases head

theorem exists_closer (spans : Comment.Spans block) :
    ∃ body closer, block = body ++ [closer] ∧ Comment.closes closer = true ∧
      ∀ l ∈ body, Comment.closes l = false := by
  obtain ⟨closer, last, closes⟩ := spans.closed
  obtain ⟨body, rfl⟩ := List.getLast?_eq_some_iff.mp last
  refine ⟨body, closer, rfl, closes, ?_⟩
  simpa using spans.unclosed

theorem findIdx_opens (spans : Comment.Spans block) : block.findIdx? Comment.opens = some 0 := by
  obtain ⟨l, head, opens⟩ := spans.opened
  obtain ⟨others, rfl⟩ := List.head?_eq_some_iff.mp head
  rw [List.findIdx?_cons, if_pos opens]

theorem findIdx_closes (spans : Comment.Spans block) (after : List Text) :
    (block ++ after).findIdx? Comment.closes = some (block.length - 1) := by
  obtain ⟨body, closer, rfl, closes, unclosed⟩ := spans.exists_closer
  have none : body.findIdx? Comment.closes = none := List.findIdx?_eq_none_iff.mpr unclosed
  simp [List.findIdx?_append, List.findIdx?_cons, none, closes]

end Comment.Spans

namespace HeaderBlock

variable {search : HeaderSearch} {front block after : List Text}

theorem findFirst_spans (spans : Comment.Spans block) (unopened : ∀ l ∈ front, Comment.opens l = false) :
    findFirst (front ++ block ++ after) = some front.length := by
  have none : front.findIdx? Comment.opens = none := List.findIdx?_eq_none_iff.mpr unopened
  simp [findFirst, List.findIdx?_append, none, spans.findIdx_opens]

theorem findLastFrom_spans (spans : Comment.Spans block) :
    findLastFrom front.length (front ++ block ++ after) = some (front.length + (block.length - 1)) := by
  rw [findLastFrom, List.append_assoc, List.drop_left, spans.findIdx_closes after, Option.map_some, Nat.add_comm]

theorem findLast_spans (spans : Comment.Spans block) (unclosed : ∀ l ∈ front, Comment.closes l = false) :
    findLast (front ++ block ++ after) = some (front.length + (block.length - 1)) := by
  have none : front.findIdx? Comment.closes = none := List.findIdx?_eq_none_iff.mpr unclosed
  rw [findLast, findLastFrom, List.drop_zero, List.append_assoc, List.findIdx?_append, none,
    spans.findIdx_closes after]
  simp [Nat.add_comm]

theorem find_spans (spans : Comment.Spans block) (clear : search.Clear front) :
    find search (front ++ block ++ after) = ⟨some front.length, some (front.length + (block.length - 1))⟩ := by
  have first : findFirst (front ++ block ++ after) = some front.length := findFirst_spans spans clear.unopened
  cases search with
  | paired => simp only [find, first, findLastFrom_spans spans]
  | independent => simp only [find, first, findLast_spans spans (clear.unclosed rfl)]

theorem before_find_spans (spans : Comment.Spans block) (clear : search.Clear front) :
    (find search (front ++ block ++ after)).before (front ++ block ++ after) = front := by
  rw [find_spans spans clear, List.append_assoc]
  exact List.take_left

theorem after_find_spans (spans : Comment.Spans block) (clear : search.Clear front) :
    (find search (front ++ block ++ after)).after (front ++ block ++ after) = after := by
  have positive := List.length_pos_of_ne_nil spans.ne_nil
  have stop : front.length + (block.length - 1) + 1 = (front ++ block).length := by
    rw [List.length_append]
    omega
  rw [find_spans spans clear]
  change (front ++ block ++ after).drop (front.length + (block.length - 1) + 1) = after
  rw [stop, List.drop_left]

theorem findIdx_eq_some_iff {mark : Text → Bool} {ls : List Text} {i : Nat} :
    ls.findIdx? mark = some i ↔ (∃ l ∈ ls[i]?, mark l = true) ∧ ∀ l ∈ ls.take i, mark l = false := by
  induction ls generalizing i with
  | nil => simp
  | cons line ls ih =>
    rw [List.findIdx?_cons]
    cases marked : mark line with
    | true => cases i <;> simp [marked]
    | false => cases i <;> simp [marked, ih]

theorem exists_findIdx (mark : Text → Bool) {ls : List Text} {i : Nat} {l : Text} (here : l ∈ ls[i]?)
    (marked : mark l = true) : ∃ k ≤ i, ls.findIdx? mark = some k := by
  cases found : ls.findIdx? mark with
  | none =>
    have unmarked := List.findIdx?_eq_none_iff.mp found l (List.mem_of_getElem? here)
    rw [marked] at unmarked
    cases unmarked
  | some k =>
    refine ⟨k, ?_, rfl⟩
    by_contra later
    have earlier : l ∈ (ls.take k)[i]? := by
      rw [List.getElem?_take_of_lt (by omega)]
      exact here
    have unmarked := (findIdx_eq_some_iff.mp found).2 l (List.mem_of_getElem? earlier)
    rw [marked] at unmarked
    cases unmarked

theorem findFirst_eq_some_iff {ls : List Text} {start : Nat} :
    findFirst ls = some start ↔
      (∃ l ∈ ls[start]?, Comment.opens l = true) ∧ ∀ l ∈ ls.take start, Comment.opens l = false :=
  findIdx_eq_some_iff

theorem findLastFrom_eq_some_iff {ls : List Text} {start stop : Nat} :
    findLastFrom start ls = some stop ↔
      start ≤ stop ∧ (∃ l ∈ ls[stop]?, Comment.closes l = true) ∧
        ∀ l ∈ (ls.take stop).drop start, Comment.closes l = false := by
  rw [findLastFrom, Option.map_eq_some_iff]
  constructor
  · intro shifted
    obtain ⟨i, found, rfl⟩ := shifted
    obtain ⟨here, unclosed⟩ := findIdx_eq_some_iff.mp found
    rw [List.getElem?_drop, Nat.add_comm] at here
    rw [List.take_drop, Nat.add_comm] at unclosed
    exact ⟨Nat.le_add_left _ _, here, unclosed⟩
  · intro located
    obtain ⟨bound, here, unclosed⟩ := located
    refine ⟨stop - start, findIdx_eq_some_iff.mpr ⟨?_, ?_⟩, by omega⟩
    · rw [List.getElem?_drop, Nat.add_sub_cancel' bound]
      exact here
    · rw [List.take_drop, Nat.add_sub_cancel' bound]
      exact unclosed

theorem exists_findLastFrom {ls : List Text} {origin i : Nat} {l : Text} (bound : origin ≤ i) (here : l ∈ ls[i]?)
    (closes : Comment.closes l = true) : ∃ stop, findLastFrom origin ls = some stop := by
  have shifted : l ∈ (ls.drop origin)[i - origin]? := by
    rw [List.getElem?_drop, Nat.add_sub_cancel' bound]
    exact here
  obtain ⟨offset, -, found⟩ := exists_findIdx Comment.closes shifted closes
  exact ⟨offset + origin, by rw [findLastFrom, found, Option.map_some]⟩

theorem find_eq (search : HeaderSearch) {ls : List Text} {start : Nat} (first : findFirst ls = some start) :
    ∃ origin ≤ start, (search = .independent → origin = 0) ∧
      find search ls = ⟨some start, findLastFrom origin ls⟩ := by
  cases search with
  | independent => exact ⟨0, Nat.zero_le _, fun _ => rfl, by simp only [find, first, findLast]⟩
  | paired => exact ⟨start, Nat.le_refl _, by simp, by simp only [find, first]⟩

theorem before_prefix (b : HeaderBlock) (ls : List Text) : b.before ls <+: ls := by
  unfold before
  split
  · exact List.take_prefix _ _
  · exact List.nil_prefix

theorem after_suffix (b : HeaderBlock) (ls : List Text) : b.after ls <:+ ls := by
  unfold HeaderBlock.after
  split
  · exact List.drop_suffix _ _
  · exact List.nil_suffix

variable {ls : List Text}

theorem exists_located (search : HeaderSearch) (spans : Comment.Spans block) (whole : ls = front ++ block ++ after) :
    ∃ start ≤ front.length, ∃ origin ≤ start, ∃ stop, (search = .independent → origin = 0) ∧
      findFirst ls = some start ∧ findLastFrom origin ls = some stop ∧
        find search ls = ⟨some start, some stop⟩ := by
  obtain ⟨opener, head, opens⟩ := spans.opened
  obtain ⟨body, closer, rfl, closes, -⟩ := spans.exists_closer
  have openerAt : opener ∈ ls[front.length]? := by
    rw [whole, List.append_assoc, List.getElem?_append_right (Nat.le_refl _), Nat.sub_self,
      List.getElem?_append_left (by simp), ← List.head?_eq_getElem?]
    exact head
  have closerAt : closer ∈ ls[front.length + body.length]? := by
    have position : front.length + body.length = (front ++ body).length := List.length_append.symm
    rw [whole, position, ← List.append_assoc, List.append_assoc, List.getElem?_append_right (Nat.le_refl _),
      Nat.sub_self]
    rfl
  obtain ⟨start, startBound, first⟩ := exists_findIdx Comment.opens openerAt opens
  obtain ⟨origin, originBound, independent, located⟩ := find_eq search first
  have reached : origin ≤ front.length + body.length := by omega
  obtain ⟨stop, last⟩ := exists_findLastFrom reached closerAt closes
  rw [last] at located
  exact ⟨start, startBound, origin, originBound, stop, independent, first, last, located⟩

theorem copy_of_same {start stop : Nat} (startBound : start ≤ ls.length) (stopBound : stop < ls.length)
    (same : ls.take start ++ block ++ ls.drop (stop + 1) = ls) :
    stop + 1 = start + block.length ∧ ls.take (stop + 1) = ls.take start ++ block := by
  have lengths := congrArg List.length same
  simp only [List.length_append, List.length_take, List.length_drop] at lengths
  have size : stop + 1 = start + block.length := by omega
  have written : (ls.take start ++ block).length = stop + 1 := by
    rw [List.length_append, List.length_take]
    omega
  refine ⟨size, ?_⟩
  rw [← written]
  exact (List.prefix_iff_eq_take.mp ⟨_, same⟩).symm

theorem length_le_of_closes (spans : Comment.Spans block) (whole : ls = front ++ block ++ after) {stop : Nat}
    (behind : front.length ≤ stop) (closed : ∃ l ∈ ls[stop]?, Comment.closes l = true) :
    front.length + block.length ≤ stop + 1 := by
  obtain ⟨body, closer, rfl, -, unclosed⟩ := spans.exists_closer
  obtain ⟨l, here, closes⟩ := closed
  by_contra early
  rw [List.length_append, List.length_singleton] at early
  have member : l ∈ body := by
    rw [whole, List.append_assoc, List.append_assoc, List.getElem?_append_right behind,
      List.getElem?_append_left (by omega)] at here
    exact List.mem_of_getElem? here
  rw [unclosed l member] at closes
  cases closes

theorem clear_of_located (spans : Comment.Spans block) (fresh : ¬ block <:+: front)
    (whole : ls = front ++ block ++ after)
    (same : (find search ls).before ls ++ block ++ (find search ls).after ls = ls) : search.Clear front := by
  obtain ⟨start, startBound, origin, originBound, stop, independent, first, last, located⟩ :=
    exists_located search spans whole
  obtain ⟨-, closed, unclosed⟩ := findLastFrom_eq_some_iff.mp last
  obtain ⟨found, foundAt, foundCloses⟩ := closed
  have stopBound : stop < ls.length := (List.getElem?_eq_some_iff.mp foundAt).1
  have frontBound : front.length ≤ ls.length := by simp [whole]
  rw [located] at same
  change ls.take start ++ block ++ ls.drop (stop + 1) = ls at same
  obtain ⟨size, window⟩ := copy_of_same (by omega) stopBound same
  -- The located lines are a copy of the comment, so they do not lie in front of it.
  have behind : front.length ≤ stop := by
    by_contra early
    have inside : ls.take (stop + 1) = front.take (stop + 1) := by
      rw [whole, List.append_assoc, List.take_append_of_le_length (by omega)]
    have copy : block <:+: front.take (stop + 1) := by
      rw [← inside, window]
      exact (List.suffix_append _ _).isInfix
    exact fresh (copy.trans (List.take_prefix _ _).isInfix)
  have ends := length_le_of_closes spans whole behind ⟨found, foundAt, foundCloses⟩
  obtain rfl : start = front.length := by omega
  have frontLines : front = ls.take front.length := by rw [whole, List.append_assoc, List.take_left]
  refine ⟨?_, ?_⟩
  · intro l member
    rw [frontLines] at member
    exact (findFirst_eq_some_iff.mp first).2 l member
  · intro independently l member
    obtain rfl := independent independently
    rw [frontLines] at member
    exact unclosed l ((List.take_prefix_take_left behind).subset member)

end HeaderBlock

end LicenseHeaders
