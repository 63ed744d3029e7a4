import LicenseHeaders.Placement
import LicenseHeaders.Proofs.CommentBlock
import LicenseHeaders.Proofs.Detection
import LicenseHeaders.Proofs.Lines

namespace LicenseHeaders

def Header.framed (h : Header) (front : List Text) (rest : Text) : Text :=
  Text.unlines front ++ h.block ++ rest

namespace Header

theorem text_ne_nil (h : Header) : h.text ≠ [] := by
  intro none
  have blank := h.notBlank
  rw [none] at blank
  cases blank

theorem endsWithNewline_block (h : Header) : Text.endsWithNewline h.block = true := by
  unfold block
  split
  · assumption
  · simp [Text.endsWithNewline]

theorem block_ne_nil (h : Header) : h.block ≠ [] := by
  intro none
  have ended := h.endsWithNewline_block
  rw [none] at ended
  cases ended

theorem endsWithNewline_append_block (h : Header) (written : Text) :
    Text.endsWithNewline (written ++ h.block) = true := by
  rw [Text.endsWithNewline_append h.block_ne_nil, h.endsWithNewline_block]

theorem unreturned_of_notMem {h : Header} (noCr : '\r' ∉ h.text) : h.text.getLast? ≠ some '\r' :=
  fun last => noCr (List.mem_of_getLast? last)

theorem lines_block {h : Header} (noCr : h.text.getLast? ≠ some '\r') : Text.lines h.block = h.lines := by
  unfold block
  split
  · rfl
  · rename_i unended
    exact Text.lines_concat_newline noCr h.text_ne_nil (by simpa using unended)

theorem lines_framed {h : Header} (noCr : h.text.getLast? ≠ some '\r') {front : List Text}
    (plain : ∀ l ∈ front, Text.IsLine l) (rest : Text) :
    Text.lines (h.framed front rest) = front ++ h.lines ++ Text.lines rest := by
  rw [framed, List.append_assoc, Text.lines_unlines_append plain, Text.lines_append h.endsWithNewline_block,
    lines_block noCr, List.append_assoc]

theorem cr_notMem_framed {h : Header} {front : List Text} {rest : Text} (noCrHeader : '\r' ∉ h.text)
    (noCrFront : ∀ l ∈ front, '\r' ∉ l) (noCrRest : '\r' ∉ rest) : '\r' ∉ h.framed front rest := by
  have noCrBlock : '\r' ∉ h.block := by
    unfold block
    split <;> simp [noCrHeader]
  have noCrLines : '\r' ∉ Text.unlines front := by
    intro member
    obtain ⟨l, line, cr⟩ := List.mem_flatMap.mp member
    simp [noCrFront l line] at cr
  simp [framed, noCrLines, noCrBlock, noCrRest]

end Header

namespace HeaderPolicy

theorem settleEnd_unlines {old rest : Text} (suffix : rest <:+ old) (written : Text) :
    settleEnd old (!(Text.lines rest).isEmpty) (written ++ Text.unlines (Text.lines rest)) =
      written ++ Text.dropReturns rest := by
  by_cases full : rest = []
  · subst full
    rfl
  · have more : (Text.lines rest).isEmpty = false := by simpa [Text.lines_eq_nil] using full
    rw [Text.unlines_lines, settleEnd, more, Text.endsWithNewline_suffix suffix full]
    cases ended : Text.endsWithNewline rest
    · rw [if_pos (by rfl), if_neg (by simp [full]), ← List.append_assoc, List.dropLast_concat]
    · rw [if_neg (by decide), if_pos (Or.inr rfl)]

theorem assemble_lines {old rest : Text} (suffix : rest <:+ old) (h : Header) (front : List Text) :
    assemble h old front (Text.lines rest) = h.framed front (Text.dropReturns rest) :=
  settleEnd_unlines suffix _

theorem exists_tail {old : Text} {after : List Text} (suffix : after <:+ Text.lines old) :
    ∃ tail, tail <:+ old ∧ Text.lines tail = after ∧
      ∀ (h : Header) front, assemble h old front after = h.framed front (Text.dropReturns tail) := by
  obtain ⟨tail, inside, rfl⟩ := Text.exists_suffix_lines suffix
  exact ⟨tail, inside, rfl, assemble_lines inside⟩

theorem exists_rest {old : Text} {after : List Text} (noCr : '\r' ∉ old) (suffix : after <:+ Text.lines old) :
    ∃ rest, '\r' ∉ rest ∧ Text.lines rest = after ∧
      ∀ (h : Header) front, assemble h old front after = h.framed front rest := by
  obtain ⟨rest, inside, behind, framed⟩ := exists_tail suffix
  have noCrRest : '\r' ∉ rest := fun member => noCr (inside.subset member)
  rw [Text.dropReturns_of_notMem noCrRest] at framed
  exact ⟨rest, noCrRest, behind, framed⟩

variable {p : HeaderPolicy} {d : Dialect} {content : Text}

theorem placeBy_licensed {detector : Detector} (licensed : detector (Text.lines content) = true) :
    p.placeBy detector d content = ⟨p.withBlockReplaced content, .replaced⟩ := by
  unfold placeBy
  rw [if_pos licensed]

theorem placeBy_tagged {detector : Detector} (unlicensed : detector (Text.lines content) = false) :
    p.placeBy detector .tagged content = ⟨p.withHeaderBelowTag content, .belowTag⟩ := by
  rw [placeBy, if_neg (by simp [unlicensed])]

theorem placeBy_native {detector : Detector} (unlicensed : detector (Text.lines content) = false) :
    p.placeBy detector .native content = ⟨p.withHeaderOnTop content, .atTop⟩ := by
  rw [placeBy, if_neg (by simp [unlicensed])]

theorem place_licensed (licensed : p.isLicensed content = true) :
    p.place d content = ⟨p.withBlockReplaced content, .replaced⟩ :=
  placeBy_licensed licensed

theorem place_tagged (unlicensed : p.isLicensed content = false) :
    p.place .tagged content = ⟨p.withHeaderBelowTag content, .belowTag⟩ :=
  placeBy_tagged unlicensed

theorem place_native (unlicensed : p.isLicensed content = false) :
    p.place .native content = ⟨p.withHeaderOnTop content, .atTop⟩ :=
  placeBy_native unlicensed

theorem replaced_iff : (p.place d content).placement = .replaced ↔ p.isLicensed content = true := by
  cases licensed : p.isLicensed content with
  | true => simp [place_licensed licensed]
  | false =>
    cases d with
    | tagged => simp [place_tagged licensed]
    | native => simp [place_native licensed]

def headLines (p : HeaderPolicy) (ls : List Text) : List Text :=
  ls.take (((findOpenTag p.openTag ls).map (· + 1)).getD 0)

def tailLines (p : HeaderPolicy) (ls : List Text) : List Text :=
  ls.drop (((findOpenTag p.openTag ls).map (· + 1)).getD 0)

theorem headLines_append_tailLines (p : HeaderPolicy) (ls : List Text) : p.headLines ls ++ p.tailLines ls = ls :=
  List.take_append_drop _ _

theorem tailLines_suffix (p : HeaderPolicy) (ls : List Text) : p.tailLines ls <:+ ls :=
  List.drop_suffix _ _

theorem withHeaderBelowTag_eq (p : HeaderPolicy) (content : Text) :
    p.withHeaderBelowTag content =
      assemble p.header content (p.headLines (Text.lines content) ++ [[]]) (p.tailLines (Text.lines content)) :=
  rfl

def front (p : HeaderPolicy) (d : Dialect) (content : Text) : List Text :=
  let ls := Text.lines content
  if p.isLicensed content then (HeaderBlock.find p.search ls).before ls
  else
    match d with
    | .tagged => p.headLines ls ++ [[]]
    | .native => []

theorem front_licensed (licensed : p.isLicensed content = true) :
    p.front d content = (HeaderBlock.find p.search (Text.lines content)).before (Text.lines content) := by
  unfold front
  rw [if_pos licensed]

theorem front_tagged (unlicensed : p.isLicensed content = false) :
    p.front .tagged content = p.headLines (Text.lines content) ++ [[]] := by
  rw [front, if_neg (by simp [unlicensed])]

theorem front_native (unlicensed : p.isLicensed content = false) : p.front .native content = [] := by
  rw [front, if_neg (by simp [unlicensed])]

theorem mem_front {l : Text} (member : l ∈ p.front d content) : l ∈ Text.lines content ∨ l = [] := by
  cases licensed : p.isLicensed content with
  | true =>
    rw [front_licensed licensed] at member
    exact Or.inl ((HeaderBlock.before_prefix _ _).subset member)
  | false =>
    cases d with
    | tagged =>
      rw [front_tagged licensed, List.mem_append, List.mem_singleton] at member
      rcases member with kept | blank
      · exact Or.inl (List.mem_of_mem_take kept)
      · exact Or.inr blank
    | native =>
      rw [front_native licensed] at member
      cases member

theorem cr_notMem_front (noCr : '\r' ∉ content) : ∀ l ∈ p.front d content, '\r' ∉ l := by
  intro l member
  rcases mem_front member with line | rfl
  · exact fun cr => noCr (Text.mem_of_mem_lines line cr)
  · simp

theorem isLine_front (noCr : '\r' ∉ content) : ∀ l ∈ p.front d content, Text.IsLine l := by
  intro l member
  rcases mem_front member with line | rfl
  · exact Text.isLine_of_mem_lines noCr line
  · exact Text.isLine_nil

def changeHeader (p : HeaderPolicy) (h : Header) : HeaderPolicy :=
  { p with header := h }

/-- One frame for every header. What stands below the header is the whole old text or its end. -/
theorem exists_frame (p : HeaderPolicy) (d : Dialect) (content : Text) :
    ∃ rest, (rest = '\n' :: content ∨ ∃ tail, tail <:+ content ∧ rest = Text.dropReturns tail) ∧
      ∀ h, ((p.changeHeader h).place d content).content = h.framed (p.front d content) rest := by
  cases licensed : p.isLicensed content with
  | true =>
    obtain ⟨tail, inside, -, framed⟩ := exists_tail
      (HeaderBlock.after_suffix (HeaderBlock.find p.search (Text.lines content)) (Text.lines content))
    refine ⟨Text.dropReturns tail, Or.inr ⟨tail, inside, rfl⟩, fun h => ?_⟩
    have same : (p.changeHeader h).isLicensed content = true := licensed
    rw [place_licensed same, front_licensed licensed]
    exact framed h _
  | false =>
    have same : ∀ h, (p.changeHeader h).isLicensed content = false := fun _ => licensed
    cases d with
    | tagged =>
      obtain ⟨tail, inside, -, framed⟩ := exists_tail (p.tailLines_suffix (Text.lines content))
      refine ⟨Text.dropReturns tail, Or.inr ⟨tail, inside, rfl⟩, fun h => ?_⟩
      rw [place_tagged (same h), front_tagged licensed, withHeaderBelowTag_eq]
      exact framed h _
    | native =>
      refine ⟨'\n' :: content, Or.inl rfl, fun h => ?_⟩
      rw [place_native (same h), front_native licensed]
      simp [withHeaderOnTop, Header.framed, changeHeader]

theorem place_content (p : HeaderPolicy) (d : Dialect) (noCr : '\r' ∉ content) :
    ∃ rest, '\r' ∉ rest ∧
      ∀ h, ((p.changeHeader h).place d content).content = h.framed (p.front d content) rest := by
  obtain ⟨rest, below, framed⟩ := exists_frame p d content
  refine ⟨rest, ?_, framed⟩
  rcases below with rfl | ⟨tail, inside, rfl⟩
  · simpa using noCr
  · have noCrTail : '\r' ∉ tail := fun member => noCr (inside.subset member)
    rw [Text.dropReturns_of_notMem noCrTail]
    exact noCrTail

theorem place_located {s rest : Text} {front block : List Text} (p : HeaderPolicy) (d : Dialect)
    (lines : Text.lines s = front ++ block ++ Text.lines rest) (suffix : rest <:+ s)
    (spans : Comment.Spans block) (found : p.attribution.found block = true) (clear : p.search.Clear front) :
    p.place d s = ⟨p.header.framed front (Text.dropReturns rest), .replaced⟩ := by
  have licensed : p.isLicensed s = true := by
    rw [isLicensed, lines]
    exact Attribution.found_append_right (Attribution.found_append_left found front) _
  rw [place_licensed licensed, withBlockReplaced]
  simp only [lines]
  rw [HeaderBlock.before_find_spans spans clear, HeaderBlock.after_find_spans spans clear, assemble_lines suffix]

/-- A run that finds the header of an earlier run swaps it for its own and leaves the frame as it is. -/
theorem place_framed {h : Header} {front : List Text} {rest : Text} (p : HeaderPolicy) (d : Dialect)
    (noCrHeader : '\r' ∉ h.text) (spans : Comment.Spans h.lines) (found : p.attribution.found h.lines = true)
    (plain : ∀ l ∈ front, Text.IsLine l) (clear : p.search.Clear front) (noCr : '\r' ∉ rest) :
    p.place d (h.framed front rest) = ⟨p.header.framed front rest, .replaced⟩ := by
  have lines := Header.lines_framed (Header.unreturned_of_notMem noCrHeader) plain rest
  have suffix : rest <:+ h.framed front rest := List.suffix_append _ _
  rw [place_located p d lines suffix spans found clear, Text.dropReturns_of_notMem noCr]

end HeaderPolicy

def Header.tiny : Header where
  text := ['/', '*', 'L', '*', '/']
  notBlank := rfl

def HeaderPolicy.tiny (search : HeaderSearch) : HeaderPolicy where
  header := Header.tiny
  attribution := ⟨['L']⟩
  openTag := ['T']
  search := search

theorem Header.tiny_spans : Comment.Spans Header.tiny.lines where
  opened := ⟨_, rfl, rfl⟩
  closed := ⟨_, rfl, rfl⟩
  unclosed := by decide

theorem HeaderPolicy.tiny_recognised (search : HeaderSearch) :
    (HeaderPolicy.tiny search).attribution.found Header.tiny.lines = true :=
  rfl

end LicenseHeaders
