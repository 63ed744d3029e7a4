import LicenseHeaders.Proofs.Framing

namespace LicenseHeaders

namespace Text

def bare (l : Text) : Text :=
  dropTrailing (· = '\r') l

def bareLines (s : Text) : List Text :=
  (lines s).map bare

/-- The lines of the new text are those of the old one and, in one place, further lines between them; carriage
returns at line ends aside. -/
def KeepsLines (old new : Text) : Prop :=
  ∃ above added below, bareLines old = above ++ below ∧ bareLines new = above ++ added ++ below

theorem bare_chomp (l : Text) : bare (chomp l) = bare l := by
  unfold chomp
  split
  · rename_i last
    obtain ⟨body, rfl⟩ := List.getLast?_eq_some_iff.mp last
    simp [bare, dropTrailing]
  · rfl

theorem bareLines_append_newline {l : Text} (plain : '\n' ∉ l) (s : Text) :
    bareLines (l ++ '\n' :: s) = bare l :: bareLines s := by
  rw [bareLines, lines_append_newline plain, List.map_cons, bare_chomp, bareLines]

theorem bareLines_append {a : Text} (ended : endsWithNewline a = true) (b : Text) :
    bareLines (a ++ b) = bareLines a ++ bareLines b := by
  rw [bareLines, lines_append ended, List.map_append, bareLines, bareLines]

theorem bareLines_unlines_append {ls : List Text} (plain : ∀ l ∈ ls, '\n' ∉ l) (s : Text) :
    bareLines (unlines ls ++ s) = ls.map bare ++ bareLines s := by
  induction ls with
  | nil => rfl
  | cons l ls ih =>
    have others := ih (fun other member => plain other (List.mem_cons_of_mem l member))
    rw [unlines_cons, List.append_assoc, List.cons_append, bareLines_append_newline (plain l List.mem_cons_self),
      others, List.map_cons, List.cons_append]

theorem bareLines_concat_newline {s : Text} (full : s ≠ []) (unended : endsWithNewline s = false) :
    bareLines (s ++ ['\n']) = bareLines s := by
  induction s using line_induction with
  | last l plain =>
    rw [bareLines_append_newline plain, bareLines, bareLines, lines_of_plain plain full]
    rfl
  | step l s plain ih =>
    have tail : s ≠ [] := by
      intro none
      simp [none, endsWithNewline] at unended
    have cut : s <:+ l ++ '\n' :: s := ⟨l ++ ['\n'], by simp⟩
    rw [endsWithNewline_suffix cut tail] at unended
    rw [List.append_assoc, List.cons_append, bareLines_append_newline plain, bareLines_append_newline plain,
      ih tail unended]

theorem last_line_ne_nil {s z : Text} (unended : endsWithNewline s = false) (last : z ∈ (lines s).getLast?) :
    z ≠ [] := by
  induction s using line_induction with
  | last l plain =>
    by_cases full : l = []
    · simp [full] at last
    · obtain rfl : l = z := by simpa [lines_of_plain plain full] using last
      exact full
  | step l s plain ih =>
    have tail : s ≠ [] := by
      intro none
      simp [none, endsWithNewline] at unended
    have cut : s <:+ l ++ '\n' :: s := ⟨l ++ ['\n'], by simp⟩
    have more : lines s ≠ [] := fun none => tail (lines_eq_nil.mp none)
    rw [endsWithNewline_suffix cut tail] at unended
    rw [lines_append_newline plain, List.getLast?_cons_of_ne_nil more] at last
    exact ih unended last

end Text

namespace HeaderPolicy

theorem bareLines_settleEnd {old written : Text} {after : List Text} (suffix : after <:+ Text.lines old)
    (ended : Text.endsWithNewline written = true) :
    Text.bareLines (settleEnd old (!after.isEmpty) (written ++ Text.unlines after)) =
      Text.bareLines written ++ after.map Text.bare := by
  have plain : ∀ l ∈ after, '\n' ∉ l := fun l member => Text.newline_notMem_of_mem_lines (suffix.subset member)
  have whole : Text.bareLines (written ++ Text.unlines after) = Text.bareLines written ++ after.map Text.bare := by
    have cut := Text.bareLines_unlines_append plain []
    rw [List.append_nil] at cut
    rw [Text.bareLines_append ended, cut]
    simp [Text.bareLines]
  rw [← whole]
  unfold settleEnd
  -- Leaving out the last newline could only lose an empty line, and an unended text does not end in one.
  split
  · rename_i drop
    rw [Bool.and_eq_true, Bool.not_eq_true', Bool.not_eq_true'] at drop
    rcases List.eq_nil_or_concat after with rfl | ⟨front, z, rfl⟩
    · simp at drop
    · have last : z ∈ (Text.lines old).getLast? := by
        obtain ⟨above, same⟩ := suffix
        simp [← same]
      have full := Text.last_line_ne_nil drop.2 last
      have noNewline := plain z (by simp)
      have unended : Text.endsWithNewline (written ++ Text.unlines front ++ z) = false := by
        rw [Text.endsWithNewline_append full, Text.endsWithNewline_plain noNewline]
      have text : written ++ Text.unlines (front.concat z) = written ++ Text.unlines front ++ z ++ ['\n'] := by
        simp
      rw [text, List.dropLast_concat, Text.bareLines_concat_newline (by simp [full]) unended]
  · rfl

theorem bareLines_assemble {old : Text} {front after : List Text} (h : Header)
    (plain : ∀ l ∈ front, '\n' ∉ l) (suffix : after <:+ Text.lines old) :
    Text.bareLines (assemble h old front after) =
      front.map Text.bare ++ (Text.bareLines h.block ++ after.map Text.bare) := by
  rw [assemble, bareLines_settleEnd suffix (h.endsWithNewline_append_block _), Text.bareLines_unlines_append plain,
    List.append_assoc]

variable {p : HeaderPolicy} {d : Dialect} {content : Text}

theorem newline_notMem_above (p : HeaderPolicy) (content : Text) :
    ∀ l ∈ p.headLines (Text.lines content) ++ [[]], '\n' ∉ l := by
  intro l member
  rcases List.mem_append.mp member with kept | blank
  · exact Text.newline_notMem_take content _ l kept
  · simp [List.mem_singleton.mp blank]

theorem insertion_keeps_lines (unlicensed : p.isLicensed content = false) :
    Text.KeepsLines content (p.place d content).content := by
  cases d with
  | tagged =>
    refine ⟨(p.headLines (Text.lines content)).map Text.bare, Text.bare [] :: Text.bareLines p.header.block,
      (p.tailLines (Text.lines content)).map Text.bare, ?_, ?_⟩
    · rw [← List.map_append, headLines_append_tailLines, Text.bareLines]
    · rw [place_tagged unlicensed, withHeaderBelowTag_eq,
        bareLines_assemble p.header (p.newline_notMem_above content) (p.tailLines_suffix _)]
      simp
  | native =>
    have blank : Text.bareLines ('\n' :: content) = Text.bare [] :: Text.bareLines content :=
      Text.bareLines_append_newline List.not_mem_nil content
    refine ⟨[], Text.bareLines p.header.block ++ [Text.bare []], Text.bareLines content, rfl, ?_⟩
    rw [place_native unlicensed, withHeaderOnTop, Text.bareLines_append p.header.endsWithNewline_block, blank]
    simp

/-- Where no line that a comment reaches shows the phrase, the header is inserted and every line stays. -/
theorem silent_comments_keep_lines (p : HeaderPolicy) (d : Dialect) (content : Text)
    (silent : ∀ j, Comment.Reaches Comment.opens (Text.lines content) j →
      ∀ l ∈ (Text.lines content)[j]?, l.mentions p.attribution.phrase = false) :
    p.isLicensed content = false ∧ (p.place d content).placement.isInsertion = true ∧
      Text.KeepsLines content (p.place d content).content := by
  have unlicensed : p.isLicensed content = false := by
    by_contra licensed
    have found : p.attribution.found (Text.lines content) = true := by
      rw [Bool.not_eq_false] at licensed
      exact licensed
    obtain ⟨j, reach, l, here, marks⟩ := Attribution.found_iff.mp found
    have mentioned := Attribution.mentions_of_marks marks
    rw [silent j reach l here] at mentioned
    cases mentioned
  refine ⟨unlicensed, ?_, insertion_keeps_lines unlicensed⟩
  cases d with
  | tagged =>
    rw [place_tagged unlicensed]
    rfl
  | native =>
    rw [place_native unlicensed]
    rfl

theorem phrase_in_code_keeps_lines :
    (∀ j, Comment.Reaches Comment.opens (Text.lines "//\n*/\nL".toList) j →
        ∀ l ∈ (Text.lines "//\n*/\nL".toList)[j]?, l.mentions (tiny .independent).attribution.phrase = false) ∧
      (tiny .independent).isLicensed "//\n*/\nL".toList = false ∧
      ((tiny .independent).place .tagged "//\n*/\nL".toList).placement.isInsertion = true ∧
      Text.KeepsLines "//\n*/\nL".toList ((tiny .independent).place .tagged "//\n*/\nL".toList).content := by
  have silent : ∀ j, Comment.Reaches Comment.opens (Text.lines "//\n*/\nL".toList) j →
      ∀ l ∈ (Text.lines "//\n*/\nL".toList)[j]?,
        l.mentions (tiny .independent).attribution.phrase = false := by
    intro j reach l here
    have lines : Text.lines "//\n*/\nL".toList = ["//".toList, "*/".toList, "L".toList] := by decide
    rw [lines] at reach here
    rcases j with _ | _ | _ | j
    · obtain rfl : "//".toList = l := by simpa using here
      decide
    · obtain rfl : "*/".toList = l := by simpa using here
      decide
    · have unreached : ¬ Comment.Reaches Comment.opens ["//".toList, "*/".toList, "L".toList] 2 := by
        rw [Comment.reaches_succ, Comment.reaches_succ, Comment.reaches_zero]
        decide
      exact absurd reach unreached
    · simp at here
  exact ⟨silent, silent_comments_keep_lines (tiny .independent) .tagged _ silent⟩

def InCommentOfItsKind (ls : List Text) (j : Nat) : Prop :=
  (∃ l ∈ ls[j]?, ['/', '/'].isPrefixOf l.trim = true) ∨ Comment.Reaches (['/', '*'].isPrefixOf ·) ls j

/-- A line comment does not end with its line: the code below it counts as comment. -/
theorem line_comment_reaches_code :
    ¬ ∀ (p : HeaderPolicy) (d : Dialect) (content : Text),
      (∀ j, InCommentOfItsKind (Text.lines content) j →
        ∀ l ∈ (Text.lines content)[j]?, l.mentions p.attribution.phrase = false) →
      p.isLicensed content = false ∧ (p.place d content).placement.isInsertion = true ∧
        Text.KeepsLines content (p.place d content).content := by
  intro silentTextsKeepLines
  have lines : Text.lines "//\nL".toList = ["//".toList, "L".toList] := by decide
  have silent : ∀ j, InCommentOfItsKind (Text.lines "//\nL".toList) j →
      ∀ l ∈ (Text.lines "//\nL".toList)[j]?, l.mentions (tiny .independent).attribution.phrase = false := by
    intro j inside l here
    rw [lines] at inside here
    rcases j with _ | _ | j
    · obtain rfl : "//".toList = l := by simpa using here
      decide
    · have outside : ¬ InCommentOfItsKind ["//".toList, "L".toList] 1 := by
        rw [InCommentOfItsKind, Comment.reaches_succ, Comment.reaches_zero]
        decide
      exact absurd inside outside
    · simp at here
  have unlicensed := (silentTextsKeepLines (tiny .independent) .native "//\nL".toList silent).1
  have licensed : (tiny .independent).isLicensed "//\nL".toList = true := by decide
  rw [licensed] at unlicensed
  cases unlicensed

end HeaderPolicy

end LicenseHeaders
