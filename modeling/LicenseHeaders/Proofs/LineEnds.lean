import LicenseHeaders.Proofs.Reruns
import LicenseHeaders.Proofs.SecondRun
import Mathlib.Logic.Function.Iterate

namespace LicenseHeaders

namespace Text

def trailingReturns (l : Text) : Nat :=
  (l.reverse.takeWhile (· = '\r')).length

def longestReturns (s : Text) : Nat :=
  ((splitAt '\n' s).map trailingReturns).foldr max 0

theorem trailingReturns_concat (l : Text) (c : Char) :
    trailingReturns (l ++ [c]) = if c = '\r' then trailingReturns l + 1 else 0 := by
  by_cases cr : c = '\r' <;> simp [trailingReturns, cr]

theorem trailingReturns_chomp (l : Text) : trailingReturns (chomp l) = trailingReturns l - 1 := by
  rcases List.eq_nil_or_concat l with rfl | ⟨body, c, rfl⟩
  · rfl
  · by_cases cr : c = '\r' <;> simp [chomp, trailingReturns_concat, cr]

theorem chomp_of_trailingReturns {l : Text} (none : trailingReturns l = 0) : chomp l = l := by
  rcases List.eq_nil_or_concat l with rfl | ⟨body, c, rfl⟩
  · rfl
  · by_cases cr : c = '\r'
    · simp [trailingReturns_concat, cr] at none
    · simp [chomp, cr]

theorem chomp_iterate {l : Text} {k n : Nat} (bound : trailingReturns l ≤ k) (later : k ≤ n) :
    chomp^[n] l = chomp^[k] l := by
  induction k generalizing l n with
  | zero => exact Function.iterate_fixed (chomp_of_trailingReturns (by omega)) n
  | succ k ih =>
    obtain ⟨n, rfl⟩ : ∃ n', n = n' + 1 := ⟨n - 1, by omega⟩
    have fewer : trailingReturns (chomp l) ≤ k := by
      rw [trailingReturns_chomp]
      omega
    rw [Function.iterate_succ_apply, Function.iterate_succ_apply]
    exact ih fewer (by omega)

theorem longestReturns_plain {l : Text} (plain : '\n' ∉ l) : longestReturns l = trailingReturns l := by
  simp [longestReturns, splitAt_of_notMem plain]

theorem longestReturns_append_newline {l : Text} (plain : '\n' ∉ l) (s : Text) :
    longestReturns (l ++ '\n' :: s) = max (trailingReturns l) (longestReturns s) := by
  simp [longestReturns, splitAt_append, splitAt_of_notMem plain]

theorem trailingReturns_le_longest {s l : Text} (line : l ∈ lines s) : trailingReturns l ≤ longestReturns s := by
  induction s using line_induction with
  | last tail plain =>
    by_cases full : tail = []
    · simp [full] at line
    · rw [lines_of_plain plain full, List.mem_singleton] at line
      rw [line, longestReturns_plain plain]
  | step first s plain ih =>
    rw [lines_append_newline plain, List.mem_cons] at line
    rw [longestReturns_append_newline plain]
    rcases line with rfl | line
    · rw [trailingReturns_chomp]
      omega
    · have later := ih line
      omega

theorem trailingReturns_le_cons (c : Char) (l : Text) : trailingReturns l ≤ trailingReturns (c :: l) := by
  rw [trailingReturns, trailingReturns, List.reverse_cons, List.takeWhile_append]
  split
  · rename_i whole
    rw [List.length_append]
    omega
  · exact Nat.le_refl _

theorem longestReturns_le_cons (c : Char) (s : Text) : longestReturns s ≤ longestReturns (c :: s) := by
  obtain ⟨piece, others, cut⟩ := List.exists_cons_of_ne_nil (splitAt_ne_nil '\n' s)
  have longer := trailingReturns_le_cons c piece
  by_cases newline : c = '\n'
  · simp only [longestReturns, splitAt, newline, if_true, List.map_cons, List.foldr_cons]
    omega
  · simp only [longestReturns, splitAt, newline, cut, if_false, List.map_cons, List.foldr_cons]
    omega

theorem longestReturns_suffix {s tail : Text} (suffix : tail <:+ s) : longestReturns tail ≤ longestReturns s := by
  obtain ⟨front, rfl⟩ := suffix
  induction front with
  | nil => exact Nat.le_refl _
  | cons c front ih => exact ih.trans (longestReturns_le_cons c (front ++ tail))

theorem longestReturns_dropReturns_le (s : Text) : longestReturns (dropReturns s) ≤ longestReturns s := by
  induction s using line_induction with
  | last l plain => rw [dropReturns_of_plain plain]
  | step l s plain ih =>
    have chomped : '\n' ∉ chomp l := fun member => plain (mem_of_mem_chomp member)
    rw [dropReturns_append_newline plain, longestReturns_append_newline chomped,
      longestReturns_append_newline plain, trailingReturns_chomp]
    omega

theorem dropReturns_iterate_append_newline {l : Text} (plain : '\n' ∉ l) (s : Text) (n : Nat) :
    dropReturns^[n] (l ++ '\n' :: s) = chomp^[n] l ++ '\n' :: dropReturns^[n] s := by
  induction n generalizing l s with
  | zero => rfl
  | succ n ih =>
    have chomped : '\n' ∉ chomp l := fun member => plain (mem_of_mem_chomp member)
    simp only [Function.iterate_succ_apply, dropReturns_append_newline plain, ih chomped]

theorem dropReturns_iterate {s : Text} {k n : Nat} (bound : longestReturns s ≤ k) (later : k ≤ n) :
    dropReturns^[n] s = dropReturns^[k] s := by
  induction s using line_induction with
  | last l plain =>
    -- The returns at the very end belong to no line end.
    have fixed := dropReturns_of_plain plain
    rw [Function.iterate_fixed fixed, Function.iterate_fixed fixed]
  | step l s plain ih =>
    rw [longestReturns_append_newline plain] at bound
    have here : chomp^[n] l = chomp^[k] l := chomp_iterate (by omega) later
    have below := ih (by omega)
    rw [dropReturns_iterate_append_newline plain, dropReturns_iterate_append_newline plain, here, below]

end Text

namespace Comment

theorem closes_bare (l : Text) : Comment.closes (Text.bare l) = Comment.closes l := by
  rw [← closes_trim, Text.trim_bare, closes_trim]

theorem opens_chomp (l : Text) : Comment.opens (Text.chomp l) = Comment.opens l := by
  rw [← opens_bare, Text.bare_chomp, opens_bare]

theorem closes_chomp (l : Text) : Comment.closes (Text.chomp l) = Comment.closes l := by
  rw [← closes_bare, Text.bare_chomp, closes_bare]

theorem spans_map_bare {block : List Text} : Comment.Spans (block.map Text.bare) ↔ Comment.Spans block := by
  constructor
  · intro spans
    exact ⟨by simpa [opens_bare] using spans.opened, by simpa [closes_bare] using spans.closed,
      by simpa [← List.map_dropLast, closes_bare] using spans.unclosed⟩
  · intro spans
    exact ⟨by simpa [opens_bare] using spans.opened, by simpa [closes_bare] using spans.closed,
      by simpa [← List.map_dropLast, closes_bare] using spans.unclosed⟩

end Comment

theorem HeaderSearch.Clear.map_chomp {search : HeaderSearch} {front : List Text} (clear : search.Clear front) :
    search.Clear (front.map Text.chomp) :=
  ⟨by simpa [Comment.opens_chomp] using clear.unopened,
    fun independent => by simpa [Comment.closes_chomp] using clear.unclosed independent⟩

theorem Header.spans_block {h : Header} (spans : Comment.Spans h.lines) : Comment.Spans (Text.lines h.block) := by
  rw [← Comment.spans_map_bare, h.bareLines_block, Comment.spans_map_bare]
  exact spans

namespace HeaderPolicy

variable {p : HeaderPolicy} {m : RunMode} {content : Text}

theorem run_framed {front : List Text} {rest : Text} (spans : Comment.Spans p.header.lines)
    (recognised : p.attribution.found p.header.lines = true) (plain : ∀ l ∈ front, '\n' ∉ l)
    (clear : m.search.Clear front) :
    (p.run m (p.header.framed front rest)).content =
      p.header.framed (front.map Text.chomp) (Text.dropReturns rest) := by
  have found : p.attribution.found (Text.lines p.header.block) = true := by
    rw [Header.found_lines_block]
    exact recognised
  have lines : Text.lines (p.header.framed front rest) =
      front.map Text.chomp ++ Text.lines p.header.block ++ Text.lines rest := by
    rw [Header.framed, List.append_assoc, Text.lines_unlines_append_chomp plain,
      Text.lines_append p.header.endsWithNewline_block, List.append_assoc]
  have suffix : rest <:+ p.header.framed front rest := List.suffix_append _ _
  rw [run, place_located (p.withSearch m.search) m.dialect lines suffix (Header.spans_block spans) found
    clear.map_chomp]
  rfl

theorem textAfter_framed {front : List Text} {rest : Text} (spans : Comment.Spans p.header.lines)
    (recognised : p.attribution.found p.header.lines = true) (plain : ∀ l ∈ front, '\n' ∉ l)
    (clear : m.search.Clear front) (n : Nat) :
    p.textAfter (List.replicate n m) (p.header.framed front rest) =
      p.header.framed (front.map Text.chomp^[n]) (Text.dropReturns^[n] rest) := by
  induction n generalizing front rest with
  | zero => simp [textAfter]
  | succ n ih =>
    have chomped : ∀ l ∈ front.map Text.chomp, '\n' ∉ l := by
      intro l member
      obtain ⟨l, inFront, rfl⟩ := List.mem_map.mp member
      exact fun newline => plain l inFront (Text.mem_of_mem_chomp newline)
    rw [List.replicate_succ, textAfter, run_framed spans recognised plain clear, ih chomped clear.map_chomp,
      List.map_map]
    rfl

theorem clear_front (licensed : p.isLicensed content = true → m.search = .independent →
      ¬ HeaderBlock.ClosedEarly (Text.lines content))
    (tagged : p.isLicensed content = false → m.dialect = .tagged →
      ¬ p.MarkedToTag Comment.opens (Text.lines content) ∧
        (m.search = .independent → ¬ p.MarkedToTag Comment.closes (Text.lines content))) :
    m.search.Clear ((p.withSearch m.search).front m.dialect content) := by
  obtain ⟨d, search⟩ := m
  cases carries : (p.withSearch search).isLicensed content with
  | true => exact (clear_front_licensed carries).mpr (licensed carries)
  | false =>
    cases d with
    | tagged => exact (clear_front_tagged carries).mpr (tagged carries rfl)
    | native => exact clear_front_native carries

theorem exists_frame_run (p : HeaderPolicy) (m : RunMode) (content : Text) :
    ∃ rest, rest.longestReturns ≤ content.longestReturns ∧
      (p.run m content).content = p.header.framed ((p.withSearch m.search).front m.dialect content) rest := by
  obtain ⟨rest, below, framed⟩ := exists_frame (p.withSearch m.search) m.dialect content
  refine ⟨rest, ?_, framed p.header⟩
  rcases below with rfl | ⟨tail, inside, rfl⟩
  · have same := Text.longestReturns_append_newline List.not_mem_nil content
    have none : Text.trailingReturns [] = 0 := rfl
    rw [List.nil_append] at same
    omega
  · exact (Text.longestReturns_dropReturns_le tail).trans (Text.longestReturns_suffix inside)

theorem newline_notMem_front (p : HeaderPolicy) (d : Dialect) (content : Text) :
    ∀ l ∈ p.front d content, '\n' ∉ l := by
  intro l member
  rcases mem_front member with line | rfl
  · exact Text.newline_notMem_of_mem_lines line
  · exact List.not_mem_nil

theorem trailingReturns_front_le (p : HeaderPolicy) (d : Dialect) (content : Text) :
    ∀ l ∈ p.front d content, l.trailingReturns ≤ content.longestReturns := by
  intro l member
  rcases mem_front member with line | rfl
  · exact Text.trailingReturns_le_longest line
  · exact Nat.zero_le _

theorem run_atTop (top : (p.run m content).placement = .atTop) :
    (p.run m content).content = p.header.framed [] ('\n' :: content) := by
  rw [run] at top ⊢
  cases licensed : (p.withSearch m.search).isLicensed content with
  | true =>
    rw [place_licensed licensed] at top
    cases top
  | false =>
    obtain ⟨d, search⟩ := m
    cases d with
    | tagged =>
      rw [place_tagged licensed] at top
      cases top
    | native =>
      rw [place_native licensed]
      rfl

/-- One run more than returns stand at one line end, and the text stays. A text with the header on top of it stays
at once if and only if no line ends in a carriage return and a newline. -/
theorem line_ends_settle (p : HeaderPolicy) (m : RunMode) (content : Text) (spans : Comment.Spans p.header.lines)
    (recognised : p.attribution.found p.header.lines = true)
    (licensed : p.isLicensed content = true → m.search = .independent →
      ¬ HeaderBlock.ClosedEarly (Text.lines content))
    (tagged : p.isLicensed content = false → m.dialect = .tagged →
      ¬ p.MarkedToTag Comment.opens (Text.lines content) ∧
        (m.search = .independent → ¬ p.MarkedToTag Comment.closes (Text.lines content))) :
    (∀ n, content.longestReturns + 1 ≤ n →
        p.textAfter (List.replicate n m) content =
          p.textAfter (List.replicate (content.longestReturns + 1) m) content) ∧
      ((p.run m content).placement = .atTop →
        ((p.run m (p.run m content).content).content = (p.run m content).content ↔
          ¬ ['\r', '\n'] <:+: content)) := by
  refine ⟨fun n later => ?_, fun top => ?_⟩
  · obtain ⟨n, rfl⟩ : ∃ n', n = n' + 1 := ⟨n - 1, by omega⟩
    obtain ⟨rest, bound, framed⟩ := exists_frame_run p m content
    have clear := clear_front licensed tagged
    have plain := newline_notMem_front (p.withSearch m.search) m.dialect content
    have few := trailingReturns_front_le (p.withSearch m.search) m.dialect content
    have above : ∀ l ∈ (p.withSearch m.search).front m.dialect content,
        Text.chomp^[n] l = Text.chomp^[content.longestReturns] l :=
      fun l member => Text.chomp_iterate (few l member) (by omega)
    have below : Text.dropReturns^[n] rest = Text.dropReturns^[content.longestReturns] rest :=
      Text.dropReturns_iterate bound (by omega)
    rw [List.replicate_succ, List.replicate_succ, textAfter, textAfter, framed,
      textAfter_framed spans recognised plain clear, textAfter_framed spans recognised plain clear, below,
      List.map_congr_left above]
  · have start : ¬ ['\r', '\n'] <+: '\n' :: content := by simp
    rw [run_atTop top, run_framed spans recognised (by simp) (HeaderSearch.clear_nil _)]
    have same : p.header.framed ([].map Text.chomp) (Text.dropReturns ('\n' :: content)) =
        p.header.framed [] ('\n' :: content) ↔ Text.dropReturns ('\n' :: content) = '\n' :: content := by
      simp [Header.framed]
    rw [same, Text.dropReturns_eq_self, List.infix_cons_iff, not_or]
    simp [start]

theorem line_ends_settle_in_third_run :
    Comment.Spans (tiny .independent).header.lines ∧
      (tiny .independent).attribution.found (tiny .independent).header.lines = true ∧
      (tiny .independent).isLicensed "T\r\r".toList = false ∧
      ¬ (tiny .independent).MarkedToTag Comment.opens (Text.lines "T\r\r".toList) ∧
      ¬ (tiny .independent).MarkedToTag Comment.closes (Text.lines "T\r\r".toList) ∧
      Text.longestReturns "T\r\r".toList = 2 ∧
      (tiny .independent).textAfter (List.replicate 5 ⟨.tagged, .independent⟩) "T\r\r".toList =
        (tiny .independent).textAfter (List.replicate 3 ⟨.tagged, .independent⟩) "T\r\r".toList ∧
      (tiny .independent).textAfter (List.replicate 3 ⟨.tagged, .independent⟩) "T\r\r".toList ≠
        (tiny .independent).textAfter (List.replicate 2 ⟨.tagged, .independent⟩) "T\r\r".toList ∧
      ((tiny .independent).run ⟨.native, .paired⟩ "x\r\r\n".toList).placement = .atTop ∧
      ((tiny .independent).run ⟨.native, .paired⟩
          ((tiny .independent).run ⟨.native, .paired⟩ "x\r\r\n".toList).content).content ≠
        ((tiny .independent).run ⟨.native, .paired⟩ "x\r\r\n".toList).content := by
  have unlicensed : (tiny .independent).isLicensed "T\r\r".toList = false := by decide
  have plainTop : (tiny .independent).isLicensed "x\r\r\n".toList = false := by decide
  have unopened : ¬ (tiny .independent).MarkedToTag Comment.opens (Text.lines "T\r\r".toList) := by
    rw [not_markedToTag]
    decide
  have unclosed : ¬ (tiny .independent).MarkedToTag Comment.closes (Text.lines "T\r\r".toList) := by
    rw [not_markedToTag]
    decide
  have below := line_ends_settle (tiny .independent) ⟨.tagged, .independent⟩ "T\r\r".toList Header.tiny_spans
    (tiny_recognised .independent) (fun licensed => by rw [unlicensed] at licensed; cases licensed)
    (fun _ _ => ⟨unopened, fun _ => unclosed⟩)
  have top := line_ends_settle (tiny .independent) ⟨.native, .paired⟩ "x\r\r\n".toList Header.tiny_spans
    (tiny_recognised .independent) (fun licensed => by rw [plainTop] at licensed; cases licensed)
    (fun _ tagged => by cases tagged)
  have atTop : ((tiny .independent).run ⟨.native, .paired⟩ "x\r\r\n".toList).placement = .atTop := by decide
  have ended : ['\r', '\n'] <:+: "x\r\r\n".toList := ⟨['x', '\r'], [], by decide⟩
  exact ⟨Header.tiny_spans, tiny_recognised .independent, unlicensed, unopened, unclosed, by decide,
    below.1 5 (by decide), by decide, atTop, fun same => (top.2 atTop).mp same ended⟩

end HeaderPolicy

end LicenseHeaders
