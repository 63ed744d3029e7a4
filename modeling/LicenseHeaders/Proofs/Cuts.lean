import LicenseHeaders.Proofs.Recognition
import LicenseHeaders.Proofs.Framing
import Mathlib.Order.Bounds.Basic

namespace LicenseHeaders

namespace Text

def firstLines? (n : Nat) (ls : List Text) : Option (List Text) :=
  if n ≤ ls.length then some (ls.take n) else none

def linesBehind? (n : Nat) (ls : List Text) : Option (List Text) :=
  if n ≤ ls.length then some (ls.drop n) else none

variable {n : Nat} {ls : List Text} {c : Text}

theorem firstLines?_of_le (bound : n ≤ ls.length) : firstLines? n ls = some (ls.take n) :=
  if_pos bound

theorem linesBehind?_of_le (bound : n ≤ ls.length) : linesBehind? n ls = some (ls.drop n) :=
  if_pos bound

theorem splitAt_dropReturns (c : Text) : ∃ ended last, splitAt '\n' c = ended ++ [last] ∧
    splitAt '\n' (dropReturns c) = ended.map chomp ++ [last] := by
  induction c using line_induction with
  | last l plain =>
    rw [dropReturns_of_plain plain, splitAt_of_notMem plain]
    exact ⟨[], l, rfl, rfl⟩
  | step l s plain ih =>
    obtain ⟨ended, last, whole, less⟩ := ih
    have chomped : '\n' ∉ chomp l := fun member => plain (mem_of_mem_chomp member)
    rw [dropReturns_append_newline plain, splitAt_append, splitAt_append, splitAt_of_notMem plain,
      splitAt_of_notMem chomped, whole, less]
    exact ⟨l :: ended, last, rfl, rfl⟩

theorem unlines_cut (c : Text) (k : Nat) :
    unlines ((lines c).take k) ++ unlines ((lines c).drop k) = unlines (lines c) := by
  rw [← unlines_append, List.take_append_drop]

end Text

namespace HeaderPolicy

/-- Lines of a text were written one by one, and the end settled: all that is lost are the carriage returns of line
ends, and what is left out at the end is the newline just written. -/
structure Rejoined (c written : Text) : Prop where
  text : settleEnd c true written = Text.dropReturns c
  pieces : ∃ ended last, Text.splitAt '\n' c = ended ++ [last] ∧
    Text.splitAt '\n' (settleEnd c true written) = ended.map Text.chomp ++ [last]
  leftOut : Text.endsWithNewline c = false → written = settleEnd c true written ++ ['\n']
  kept : Text.endsWithNewline c = true → settleEnd c true written = written
  same : settleEnd c true written = c ↔ ¬ ['\r', '\n'] <:+: c

theorem settleEnd_unlines_lines (c : Text) : settleEnd c true (Text.unlines (Text.lines c)) = Text.dropReturns c := by
  by_cases full : c = []
  · subst full
    rfl
  · have more : (Text.lines c).isEmpty = false := by simpa [Text.lines_eq_nil] using full
    have settled := settleEnd_unlines (List.suffix_refl c) []
    rw [more] at settled
    exact settled

theorem lines_cut_and_rejoined (c : Text) (k : Nat) (inside : k < (Text.lines c).length) :
    Rejoined c (Text.unlines ((Text.lines c).take k) ++ Text.unlines ((Text.lines c).drop k)) := by
  have full : c ≠ [] := by
    intro none
    rw [none] at inside
    cases inside
  have written := Text.unlines_lines c
  have settled := settleEnd_unlines_lines c
  rw [Text.unlines_cut]
  refine ⟨settled, ?_, ?_, ?_, ?_⟩
  · rw [settled]
    exact Text.splitAt_dropReturns c
  · intro unended
    rw [settled, written, if_neg (by simp [full, unended])]
  · intro ended
    rw [settled, written, if_pos (Or.inr ended)]
  · rw [settled]
    exact Text.dropReturns_eq_self

theorem lines_cut_below_two_returns :
    1 < (Text.lines "a\r\r\n\r\n\rb\r".toList).length ∧
      settleEnd "a\r\r\n\r\n\rb\r".toList true
          (Text.unlines ((Text.lines "a\r\r\n\r\n\rb\r".toList).take 1) ++
            Text.unlines ((Text.lines "a\r\r\n\r\n\rb\r".toList).drop 1)) =
        "a\r\n\n\rb\r".toList := by
  have inside : 1 < (Text.lines "a\r\r\n\r\n\rb\r".toList).length := by decide
  exact ⟨inside, (lines_cut_and_rejoined _ 1 inside).text⟩

end HeaderPolicy

namespace HeaderBlock

def places (shows : Text → Prop) (origin : Nat) (ls : List Text) : Set Nat :=
  {i | origin ≤ i ∧ ∃ l ∈ ls[i]?, shows l}

structure Finds (found : Option Nat) (wanted : Set Nat) : Prop where
  least : ∀ i, found = some i ↔ IsLeast wanted i
  absent : found = none ↔ wanted = ∅

variable {search : HeaderSearch} {ls : List Text} {shows : Text → Prop} {mark : Text → Bool} {found : Option Nat}
  {origin i : Nat}

theorem exists_findIdx_of_place (means : ∀ l, mark l = true ↔ shows l) (place : i ∈ places shows origin ls) :
    ∃ k ≤ i - origin, (ls.drop origin).findIdx? mark = some k := by
  obtain ⟨bound, l, there, shown⟩ := place
  rw [← Nat.add_sub_cancel' bound, ← List.getElem?_drop] at there
  exact exists_findIdx mark there ((means l).mpr shown)

theorem isLeast_of_findIdx (means : ∀ l, mark l = true ↔ shows l)
    (located : ((ls.drop origin).findIdx? mark).map (· + origin) = some i) : IsLeast (places shows origin ls) i := by
  obtain ⟨offset, first, rfl⟩ := Option.map_eq_some_iff.mp located
  obtain ⟨⟨l, here, marked⟩, -⟩ := findIdx_eq_some_iff.mp first
  rw [List.getElem?_drop, Nat.add_comm] at here
  refine ⟨⟨Nat.le_add_left _ _, l, here, (means l).mp marked⟩, ?_⟩
  intro j place
  obtain ⟨k, early, same⟩ := exists_findIdx_of_place means place
  rw [first] at same
  cases same
  have bound := place.1
  omega

theorem finds_findIdx (means : ∀ l, mark l = true ↔ shows l) (origin : Nat) (ls : List Text) :
    Finds (((ls.drop origin).findIdx? mark).map (· + origin)) (places shows origin ls) := by
  have absent : ((ls.drop origin).findIdx? mark).map (· + origin) = none ↔ places shows origin ls = ∅ := by
    constructor
    · intro lost
      rw [Set.eq_empty_iff_forall_notMem]
      intro j place
      obtain ⟨k, -, first⟩ := exists_findIdx_of_place means place
      rw [first] at lost
      cases lost
    · intro none
      cases located : ((ls.drop origin).findIdx? mark).map (· + origin) with
      | none => rfl
      | some i =>
        have here := (isLeast_of_findIdx means located).1
        rw [none] at here
        cases here
  refine ⟨fun i => ⟨isLeast_of_findIdx means, fun least => ?_⟩, absent⟩
  cases located : ((ls.drop origin).findIdx? mark).map (· + origin) with
  | none =>
    have here := least.1
    rw [absent.mp located] at here
    cases here
  | some k => rw [(isLeast_of_findIdx means located).unique least]

theorem Finds.inside (finds : Finds found (places shows origin ls)) (here : found = some i) : i + 1 ≤ ls.length := by
  obtain ⟨-, l, there, -⟩ := ((finds.least i).mp here).1
  exact (List.getElem?_eq_some_iff.mp there).1

theorem finds_findIdx_all (means : ∀ l, mark l = true ↔ shows l) (ls : List Text) :
    Finds (ls.findIdx? mark) (places shows 0 ls) := by
  have finds := finds_findIdx means 0 ls
  have still (found : Option Nat) : found.map (· + 0) = found := by cases found <;> rfl
  rw [still, List.drop_zero] at finds
  exact finds

theorem finds_first (search : HeaderSearch) (ls : List Text) :
    Finds (find search ls).first (places (fun l => ['/', '*'] <+: l ∨ ['/', '/'] <+: l) 0 ls) :=
  finds_findIdx_all (fun _ => Comment.opens_iff) ls

theorem finds_last (origin : Nat) (ls : List Text) :
    Finds (findLastFrom origin ls) (places (['*', '/'] <:+: ·) origin ls) :=
  finds_findIdx (fun _ => Text.contains_iff) origin ls

theorem finds_tag (openTag : Text) (ls : List Text) :
    Finds (findOpenTag openTag ls) (places (openTag <:+: ·) 0 ls) :=
  finds_findIdx_all (fun _ => Text.contains_iff) ls

theorem last_of_all (whole : search = .independent ∨ (find search ls).first = none) :
    (find search ls).last = findLastFrom 0 ls := by
  cases search with
  | independent => rfl
  | paired =>
    have first : findFirst ls = none := whole.resolve_left (by simp)
    simp only [find, first, findLast]

theorem last_from_first (paired : search = .paired) (first : (find search ls).first = some i) :
    (find search ls).last = findLastFrom i ls := by
  subst paired
  have opener : findFirst ls = some i := first
  simp only [find, opener]

theorem last_inside (search : HeaderSearch) (last : (find search ls).last = some i) : i + 1 ≤ ls.length := by
  cases first : (find search ls).first with
  | none =>
    rw [last_of_all (Or.inr first)] at last
    exact (finds_last 0 ls).inside last
  | some start =>
    cases search with
    | independent => exact (finds_last 0 ls).inside last
    | paired =>
      rw [last_from_first rfl first] at last
      exact (finds_last start ls).inside last

structure Located (search : HeaderSearch) (openTag : Text) (ls : List Text) : Prop where
  first : Finds (find search ls).first (places (fun l => ['/', '*'] <+: l ∨ ['/', '/'] <+: l) 0 ls)
  lastOfAll : search = .independent ∨ (find search ls).first = none →
    Finds (find search ls).last (places (['*', '/'] <:+: ·) 0 ls)
  lastFromFirst : ∀ start, search = .paired → (find search ls).first = some start →
    Finds (find search ls).last (places (['*', '/'] <:+: ·) start ls)
  between : ∀ start stop, search = .paired → (find search ls).first = some start → (find search ls).last = some stop →
    start ≤ stop ∧ ∀ i, start ≤ i → i < stop → ∀ l ∈ ls[i]?, ¬ ['*', '/'] <:+: l
  tag : Finds (findOpenTag openTag ls) (places (openTag <:+: ·) 0 ls)
  inside : ∀ i, (find search ls).first = some i ∨ (find search ls).last = some i ∨ findOpenTag openTag ls = some i →
    i + 1 ≤ ls.length

theorem located (search : HeaderSearch) (openTag : Text) (ls : List Text) : Located search openTag ls := by
  refine ⟨finds_first search ls, fun whole => ?_, fun start paired first => ?_, fun start stop paired first last => ?_,
    finds_tag openTag ls, fun i located => ?_⟩
  · rw [last_of_all whole]
    exact finds_last 0 ls
  · rw [last_from_first paired first]
    exact finds_last start ls
  -- A closer in between would have been found first.
  · rw [last_from_first paired first] at last
    obtain ⟨⟨bound, -⟩, least⟩ := ((finds_last start ls).least stop).mp last
    refine ⟨bound, fun i behind before l here shown => ?_⟩
    have later := least ⟨behind, l, here, shown⟩
    omega
  · rcases located with first | last | tag
    · exact (finds_first search ls).inside first
    · exact last_inside search last
    · exact (finds_tag openTag ls).inside tag

def before? (b : HeaderBlock) (ls : List Text) : Option (List Text) :=
  match b.first with
  | some start => Text.firstLines? start ls
  | none => some []

def after? (b : HeaderBlock) (ls : List Text) : Option (List Text) :=
  match b.last with
  | some stop => Text.linesBehind? (stop + 1) ls
  | none => some []

theorem before?_find (search : HeaderSearch) (ls : List Text) :
    (find search ls).before? ls = some ((find search ls).before ls) := by
  unfold before? HeaderBlock.before
  cases first : (find search ls).first with
  | none => rfl
  | some start =>
    have inside := (finds_first search ls).inside first
    exact Text.firstLines?_of_le (by omega)

theorem after?_find (search : HeaderSearch) (ls : List Text) :
    (find search ls).after? ls = some ((find search ls).after ls) := by
  unfold after? HeaderBlock.after
  cases last : (find search ls).last with
  | none => rfl
  | some stop => exact Text.linesBehind?_of_le (last_inside search last)

end HeaderBlock

namespace HeaderPolicy

def withBlockReplaced? (p : HeaderPolicy) (content : Text) : Option Text := do
  let ls := Text.lines content
  let block := HeaderBlock.find p.search ls
  return assemble p.header content (← block.before? ls) (← block.after? ls)

def withHeaderBelowTag? (p : HeaderPolicy) (content : Text) : Option Text := do
  let ls := Text.lines content
  let kept := ((findOpenTag p.openTag ls).map (· + 1)).getD 0
  return assemble p.header content ((← Text.firstLines? kept ls) ++ [[]]) (← Text.linesBehind? kept ls)

/-- Places the header as usual, and fails where it would have to cut outside the lines. -/
def placeBy? (p : HeaderPolicy) (detector : Detector) (dialect : Dialect) (content : Text) : Option Placed :=
  if detector (Text.lines content) then (p.withBlockReplaced? content).map (⟨·, .replaced⟩)
  else
    match dialect with
    | .tagged => (p.withHeaderBelowTag? content).map (⟨·, .belowTag⟩)
    | .native => some ⟨p.withHeaderOnTop content, .atTop⟩

theorem withBlockReplaced?_eq (p : HeaderPolicy) (content : Text) :
    p.withBlockReplaced? content = some (p.withBlockReplaced content) := by
  simp only [withBlockReplaced?, HeaderBlock.before?_find, HeaderBlock.after?_find]
  rfl

theorem withHeaderBelowTag?_eq (p : HeaderPolicy) (content : Text) :
    p.withHeaderBelowTag? content = some (p.withHeaderBelowTag content) := by
  have bound : ((findOpenTag p.openTag (Text.lines content)).map (· + 1)).getD 0 ≤ (Text.lines content).length := by
    cases tag : findOpenTag p.openTag (Text.lines content) with
    | none => exact Nat.zero_le _
    | some i => exact (HeaderBlock.finds_tag p.openTag (Text.lines content)).inside tag
  simp only [withHeaderBelowTag?, Text.firstLines?_of_le bound, Text.linesBehind?_of_le bound]
  rfl

/-- Whatever the lines are, what is located is the first of its kind and lies within them, so no header is placed by
cutting outside the lines. -/
theorem cuts_lie_within (search : HeaderSearch) (openTag : Text) (ls : List Text) :
    HeaderBlock.Located search openTag ls ∧
      ∀ (p : HeaderPolicy) (detector : Detector) (dialect : Dialect) (content : Text),
        p.placeBy? detector dialect content = some (p.placeBy detector dialect content) := by
  refine ⟨HeaderBlock.located search openTag ls, fun p detector dialect content => ?_⟩
  unfold placeBy? placeBy
  split
  · rw [withBlockReplaced?_eq]
    rfl
  · cases dialect with
    | tagged =>
      simp only [withHeaderBelowTag?_eq]
      rfl
    | native => rfl

end HeaderPolicy

end LicenseHeaders
