import LicenseHeaders.Proofs.Insertion

namespace LicenseHeaders

namespace Text

theorem exists_bare_append (l : Text) : ∃ crs : Text, (∀ c ∈ crs, c = '\r') ∧ l = bare l ++ crs := by
  refine ⟨(l.reverse.takeWhile (· = '\r')).reverse, ?_, ?_⟩
  · intro c member
    have carriage := List.mem_takeWhile_imp (List.mem_reverse.mp member)
    exact of_decide_eq_true carriage
  · have cut : l.reverse.takeWhile (· = '\r') ++ l.reverse.dropWhile (· = '\r') = l.reverse :=
      List.takeWhile_append_dropWhile
    rw [bare, dropTrailing, ← List.reverse_append, cut, List.reverse_reverse]

theorem trimEnd_append_blank {blank : Text} (blanks : ∀ c ∈ blank, isBlankChar c = true) (s : Text) :
    trimEnd (s ++ blank) = trimEnd s := by
  have skipped : blank.reverse.dropWhile isBlankChar = [] := by
    rw [List.dropWhile_eq_nil_iff]
    exact fun c member => blanks c (List.mem_reverse.mp member)
  rw [trimEnd, trimEnd, dropTrailing, dropTrailing, List.reverse_append, List.dropWhile_append, skipped]
  rfl

theorem trim_append_blank {blank : Text} (blanks : ∀ c ∈ blank, isBlankChar c = true) (s : Text) :
    trim (s ++ blank) = trim s := by
  have skipped : blank.dropWhile isBlankChar = [] := List.dropWhile_eq_nil_iff.mpr blanks
  rw [trim, trim, trimStart, trimStart, List.dropWhile_append]
  split
  · rename_i none
    rw [skipped, List.isEmpty_iff.mp none]
  · rw [trimEnd_append_blank blanks]

theorem trim_bare (l : Text) : trim (bare l) = trim l := by
  obtain ⟨crs, carriages, same⟩ := exists_bare_append l
  have blanks : ∀ c ∈ crs, isBlankChar c = true := by
    intro c member
    rw [carriages c member]
    decide
  have whole := trim_append_blank blanks (bare l)
  rw [← same] at whole
  exact whole.symm

theorem prefix_of_prefix_append {needle s tail : Text} (apart : ∀ c ∈ needle, c ∉ tail)
    (front : needle <+: s ++ tail) : needle <+: s := by
  rcases List.prefix_or_prefix_of_prefix front (List.prefix_append s tail) with inside | ⟨more, rfl⟩
  · exact inside
  · have overlap : more <+: tail := (List.prefix_append_right_inj s).mp front
    have none : more = [] := by
      by_contra full
      obtain ⟨c, others, rfl⟩ := List.exists_cons_of_ne_nil full
      exact apart c (by simp) (overlap.subset List.mem_cons_self)
    simp [none]

theorem prefix_bare {needle l : Text} (noCr : '\r' ∉ needle) : needle <+: bare l ↔ needle <+: l := by
  obtain ⟨crs, carriages, same⟩ := exists_bare_append l
  have apart : ∀ c ∈ needle, c ∉ crs := by
    intro c inNeedle inTail
    rw [carriages c inTail] at inNeedle
    exact noCr inNeedle
  constructor
  · intro front
    rw [same]
    exact front.trans (List.prefix_append _ _)
  · intro front
    rw [same] at front
    exact prefix_of_prefix_append apart front

end Text

namespace Attribution

variable {a : Attribution}

theorem foundFrom_of_trim_eq {ls ls' : List Text} (same : ls.map Text.trim = ls'.map Text.trim) (inside : Bool) :
    a.foundFrom inside ls = a.foundFrom inside ls' := by
  induction ls generalizing ls' inside with
  | nil =>
    rw [List.map_nil, eq_comm, List.map_eq_nil_iff] at same
    rw [same]
  | cons line ls ih =>
    obtain ⟨line', rest, rfl, head, tail⟩ := List.map_eq_cons_iff.mp same.symm
    simp only [foundFrom, head, ih tail.symm]

end Attribution

namespace Comment

theorem opens_bare (l : Text) : Comment.opens (Text.bare l) = Comment.opens l := by
  have block : ['/', '*'] <+: Text.bare l ↔ ['/', '*'] <+: l := Text.prefix_bare (by decide)
  have line : ['/', '/'] <+: Text.bare l ↔ ['/', '/'] <+: l := Text.prefix_bare (by decide)
  rw [Bool.eq_iff_iff]
  simp only [Comment.opens, Bool.or_eq_true, List.isPrefixOf_iff_prefix, block, line]

end Comment

namespace Header

/-- The header stands in a text byte for byte, from the beginning of a line to the end of one. -/
def StandsIn (h : Header) (s : Text) : Prop :=
  ∃ above below, s = above ++ h.text ++ below ∧ (above = [] ∨ Text.endsWithNewline above = true) ∧
    (Text.endsWithNewline h.text = true ∨ below.head? = some '\n')

variable {h : Header}

theorem standsIn_iff {s : Text} :
    h.StandsIn s ↔
      ∃ above below, s = above ++ h.block ++ below ∧ (above = [] ∨ Text.endsWithNewline above = true) := by
  cases ended : Text.endsWithNewline h.text with
  | true => simp [StandsIn, block, ended]
  | false =>
    constructor
    · intro stands
      obtain ⟨above, below, same, start, stop⟩ := stands
      obtain ⟨rest, rfl⟩ := List.head?_eq_some_iff.mp (stop.resolve_left (by simp [ended]))
      exact ⟨above, rest, by simp [same, block, ended], start⟩
    · intro stands
      obtain ⟨above, rest, same, start⟩ := stands
      exact ⟨above, '\n' :: rest, by simp [same, block, ended], start, Or.inr rfl⟩

theorem bareLines_block (h : Header) : (Text.lines h.block).map Text.bare = h.lines.map Text.bare := by
  unfold block
  split
  · rfl
  · rename_i unended
    exact Text.bareLines_concat_newline h.text_ne_nil (by simpa using unended)

theorem found_lines_block (a : Attribution) (h : Header) : a.found (Text.lines h.block) = a.found h.lines := by
  have trims : ∀ ls : List Text, ls.map Text.trim = (ls.map Text.bare).map Text.trim := by
    intro ls
    rw [List.map_map]
    exact List.map_congr_left fun l _ => (Text.trim_bare l).symm
  have same : (Text.lines h.block).map Text.trim = h.lines.map Text.trim := by
    rw [trims, bareLines_block, ← trims]
  exact Attribution.foundFrom_of_trim_eq same false

theorem lines_around_block {above : Text} (start : above = [] ∨ Text.endsWithNewline above = true) (below : Text) :
    Text.lines (above ++ h.block ++ below) = Text.lines above ++ Text.lines h.block ++ Text.lines below := by
  have front : Text.lines (above ++ h.block) = Text.lines above ++ Text.lines h.block := by
    rcases start with rfl | ended
    · rfl
    · exact Text.lines_append ended h.block
  rw [Text.lines_append (h.endsWithNewline_append_block above), front]

theorem StandsIn.lines_infix {s : Text} (stands : h.StandsIn s) : Text.lines h.block <:+: Text.lines s := by
  obtain ⟨above, below, rfl, start⟩ := standsIn_iff.mp stands
  exact ⟨Text.lines above, Text.lines below, (lines_around_block start below).symm⟩

theorem StandsIn.found {a : Attribution} {s : Text} (stands : h.StandsIn s) (recognised : a.found h.lines = true) :
    a.found (Text.lines s) = true := by
  rw [← found_lines_block] at recognised
  exact Attribution.found_of_infix recognised stands.lines_infix

theorem standsIn_framed (h : Header) (front : List Text) (rest : Text) : h.StandsIn (h.framed front rest) :=
  standsIn_iff.mpr ⟨Text.unlines front, rest, rfl, Text.unlines_ended front⟩

end Header

namespace HeaderPolicy

variable {p : HeaderPolicy} {d : Dialect} {content : Text}

theorem exists_framed (p : HeaderPolicy) (d : Dialect) (content : Text) :
    ∃ rest, (p.place d content).content = p.header.framed (p.front d content) rest := by
  obtain ⟨rest, -, framed⟩ := exists_frame p d content
  exact ⟨rest, framed p.header⟩

theorem standsIn_assemble {old : Text} {after : List Text} (h : Header) (front : List Text)
    (suffix : after <:+ Text.lines old) : h.StandsIn (assemble h old front after) := by
  obtain ⟨tail, -, -, framed⟩ := exists_tail suffix
  rw [framed]
  exact h.standsIn_framed front _

theorem standsIn_placeBy (p : HeaderPolicy) (detector : Detector) (d : Dialect) (content : Text) :
    p.header.StandsIn (p.placeBy detector d content).content := by
  cases licensed : detector (Text.lines content) with
  | true =>
    rw [placeBy_licensed licensed]
    exact standsIn_assemble p.header _ (HeaderBlock.after_suffix _ _)
  | false =>
    cases d with
    | tagged =>
      rw [placeBy_tagged licensed]
      exact standsIn_assemble p.header _ (List.drop_suffix _ _)
    | native =>
      rw [placeBy_native licensed]
      exact p.header.standsIn_framed [] ('\n' :: content)

theorem standsIn_place (p : HeaderPolicy) (d : Dialect) (content : Text) :
    p.header.StandsIn (p.place d content).content :=
  p.standsIn_placeBy p.attribution.found d content

end HeaderPolicy

end LicenseHeaders
