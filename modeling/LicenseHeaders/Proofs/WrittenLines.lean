import LicenseHeaders.Proofs.Presence

namespace LicenseHeaders

namespace Header

variable {h : Header} {front : List Text} {rest : Text}

theorem length_lines_block (h : Header) : (Text.lines h.block).length = h.lineCount := by
  have count := congrArg List.length h.bareLines_block
  rw [List.length_map, List.length_map] at count
  exact count

theorem endsWithNewline_framed :
    Text.endsWithNewline (h.framed front rest) = false ↔ rest ≠ [] ∧ Text.endsWithNewline rest = false := by
  by_cases full : rest = []
  · simp [framed, full, h.endsWithNewline_append_block]
  · rw [framed, Text.endsWithNewline_append full]
    simp [full]

end Header

namespace HeaderPolicy

variable {h : Header} {old : Text} {front after : List Text}

theorem lines_assemble (unreturned : h.text.getLast? ≠ some '\r') (plainFront : ∀ l ∈ front, Text.IsLine l)
    (plainAfter : ∀ l ∈ after, Text.IsLine l) (suffix : after <:+ Text.lines old) :
    Text.lines (assemble h old front after) = front ++ h.lines ++ after := by
  obtain ⟨tail, -, rfl, framed⟩ := exists_tail suffix
  rw [framed, Header.lines_framed unreturned plainFront, Text.lines_dropReturns plainAfter]

theorem length_lines_assemble (h : Header) (plain : ∀ l ∈ front, '\n' ∉ l) (suffix : after <:+ Text.lines old) :
    (Text.lines (assemble h old front after)).length = front.length + h.lineCount + after.length := by
  have count := congrArg List.length (bareLines_assemble h plain suffix)
  simp only [Text.bareLines, List.length_append, List.length_map, h.length_lines_block] at count
  omega

theorem endsWithNewline_assemble (h : Header) (front : List Text) (suffix : after <:+ Text.lines old) :
    Text.endsWithNewline (assemble h old front after) = false ↔ after ≠ [] ∧ Text.endsWithNewline old = false := by
  obtain ⟨tail, inside, rfl, framed⟩ := exists_tail suffix
  rw [framed, Header.endsWithNewline_framed, Text.endsWithNewline_dropReturns, Ne, Ne, Text.dropReturns_eq_nil,
    Text.lines_eq_nil]
  by_cases full : tail = []
  · simp [full]
  · rw [Text.endsWithNewline_suffix inside full]

def linesAbove (p : HeaderPolicy) (ls : List Text) : Placement → List Text
  | .replaced => (HeaderBlock.find p.search ls).before ls
  | .belowTag => p.headLines ls
  | .atTop => []

def linesAdded (p : HeaderPolicy) : Placement → List Text
  | .replaced => p.header.lines
  | .belowTag => [] :: p.header.lines
  | .atTop => p.header.lines ++ [[]]

def linesBelow (p : HeaderPolicy) (ls : List Text) : Placement → List Text
  | .replaced => (HeaderBlock.find p.search ls).after ls
  | .belowTag => p.tailLines ls
  | .atTop => ls

structure Writes (p : HeaderPolicy) (content : Text) (placed : Placed) : Prop where
  lines : Text.lines placed.content = p.linesAbove (Text.lines content) placed.placement ++
    p.linesAdded placed.placement ++ p.linesBelow (Text.lines content) placed.placement
  unended : Text.endsWithNewline placed.content = false ↔
    p.linesBelow (Text.lines content) placed.placement ≠ [] ∧ Text.endsWithNewline content = false
  kept : placed.placement.isInsertion = true →
    p.linesAbove (Text.lines content) placed.placement ++ p.linesBelow (Text.lines content) placed.placement =
      Text.lines content
  counted : (Text.lines p.header.block).length = p.header.lineCount

variable {p : HeaderPolicy} {detector : Detector} {d : Dialect} {content : Text}

theorem lines_withBlockReplaced (unreturned : p.header.text.getLast? ≠ some '\r')
    (plain : ∀ l ∈ Text.lines content, Text.IsLine l) :
    Text.lines (p.withBlockReplaced content) =
      (HeaderBlock.find p.search (Text.lines content)).before (Text.lines content) ++ p.header.lines ++
        (HeaderBlock.find p.search (Text.lines content)).after (Text.lines content) := by
  rw [withBlockReplaced]
  apply lines_assemble unreturned
  · exact fun l member => plain l ((HeaderBlock.before_prefix _ _).subset member)
  · exact fun l member => plain l ((HeaderBlock.after_suffix _ _).subset member)
  · exact HeaderBlock.after_suffix _ _

theorem lines_withHeaderBelowTag (unreturned : p.header.text.getLast? ≠ some '\r')
    (plain : ∀ l ∈ Text.lines content, Text.IsLine l) :
    Text.lines (p.withHeaderBelowTag content) =
      p.headLines (Text.lines content) ++ ([] :: p.header.lines) ++ p.tailLines (Text.lines content) := by
  have lead : ∀ l ∈ p.headLines (Text.lines content) ++ [[]], Text.IsLine l := by
    intro l member
    rcases List.mem_append.mp member with above | blank
    · exact plain l (List.mem_of_mem_take above)
    · rw [List.mem_singleton.mp blank]
      exact Text.isLine_nil
  have tail := p.tailLines_suffix (Text.lines content)
  rw [withHeaderBelowTag_eq, lines_assemble unreturned lead (fun l member => plain l (tail.subset member)) tail]
  simp

theorem lines_withHeaderOnTop (unreturned : p.header.text.getLast? ≠ some '\r') :
    Text.lines (p.withHeaderOnTop content) = p.header.lines ++ [[]] ++ Text.lines content := by
  have blank : Text.lines ('\n' :: content) = [] :: Text.lines content := rfl
  rw [withHeaderOnTop, Text.lines_append p.header.endsWithNewline_block, Header.lines_block unreturned, blank,
    List.append_assoc, List.singleton_append]

theorem endsWithNewline_withHeaderOnTop :
    Text.endsWithNewline (p.withHeaderOnTop content) = false ↔
      Text.lines content ≠ [] ∧ Text.endsWithNewline content = false := by
  have framed : p.withHeaderOnTop content = p.header.framed [] ('\n' :: content) := rfl
  rw [framed, Header.endsWithNewline_framed, Ne, Ne, Text.lines_eq_nil]
  by_cases full : content = []
  · simp [full, Text.endsWithNewline]
  · have cut : content <:+ '\n' :: content := List.suffix_cons '\n' content
    rw [Text.endsWithNewline_suffix cut full]
    simp [full]

/-- Where no line and no header ends in a stray carriage return, the lines of the new text are the lines meant. -/
theorem lines_of_new_text (p : HeaderPolicy) (detector : Detector) (d : Dialect) (content : Text)
    (unreturned : p.header.text.getLast? ≠ some '\r')
    (plain : ∀ l ∈ Text.lines content, l.getLast? ≠ some '\r') :
    p.Writes content (p.placeBy detector d content) := by
  have line : ∀ l ∈ Text.lines content, Text.IsLine l :=
    fun l member => ⟨Text.newline_notMem_of_mem_lines member, plain l member⟩
  have counted := p.header.length_lines_block
  cases licensed : detector (Text.lines content) with
  | true =>
    have tail := (HeaderBlock.find p.search (Text.lines content)).after_suffix (Text.lines content)
    rw [placeBy_licensed licensed]
    exact ⟨lines_withBlockReplaced unreturned line, endsWithNewline_assemble p.header _ tail,
      by simp [Placement.isInsertion], counted⟩
  | false =>
    cases d with
    | tagged =>
      rw [placeBy_tagged licensed]
      exact ⟨lines_withHeaderBelowTag unreturned line, endsWithNewline_assemble p.header _ (p.tailLines_suffix _),
        fun _ => p.headLines_append_tailLines (Text.lines content), counted⟩
    | native =>
      rw [placeBy_native licensed]
      exact ⟨lines_withHeaderOnTop unreturned, endsWithNewline_withHeaderOnTop, fun _ => rfl, counted⟩

theorem lines_of_mismatched_text :
    (tiny .independent).header.text.getLast? ≠ some '\r' ∧
      (∀ l ∈ Text.lines "a*/\r\nb\n//c\n\nd".toList, l.getLast? ≠ some '\r') ∧
      Text.lines ((tiny .independent).placeBy (fun _ => true) .tagged "a*/\r\nb\n//c\n\nd".toList).content =
        ["a*/".toList, "b".toList, "/*L*/".toList, "b".toList, "//c".toList, [], "d".toList] ∧
      Text.endsWithNewline
        ((tiny .independent).placeBy (fun _ => true) .tagged "a*/\r\nb\n//c\n\nd".toList).content = false := by
  have unreturned : (tiny .independent).header.text.getLast? ≠ some '\r' := by decide
  have plain : ∀ l ∈ Text.lines "a*/\r\nb\n//c\n\nd".toList, l.getLast? ≠ some '\r' := by decide
  have meant := lines_of_new_text (tiny .independent) (fun _ => true) .tagged _ unreturned plain
  exact ⟨unreturned, plain, meant.lines, meant.unended.mpr (by decide)⟩

end HeaderPolicy

end LicenseHeaders
