import LicenseHeaders.Proofs.Framing

namespace LicenseHeaders

def HeaderBlock.ClosedEarly (ls : List Text) : Prop :=
  ∃ start, HeaderBlock.findFirst ls = some start ∧ ∃ l ∈ ls.take start, Comment.closes l = true

namespace HeaderPolicy

def MarkedToTag (p : HeaderPolicy) (mark : Text → Bool) (ls : List Text) : Prop :=
  ∃ tag, findOpenTag p.openTag ls = some tag ∧ ∃ l ∈ ls.take (tag + 1), mark l = true

variable {p : HeaderPolicy} {d : Dialect} {content : Text}

theorem not_markedToTag {mark : Text → Bool} {ls : List Text} :
    ¬ p.MarkedToTag mark ls ↔ ∀ l ∈ p.headLines ls, mark l = false := by
  cases tag : findOpenTag p.openTag ls <;> simp [MarkedToTag, headLines, tag]

theorem clear_front_licensed (licensed : p.isLicensed content = true) :
    p.search.Clear (p.front d content) ↔
      (p.search = .independent → ¬ HeaderBlock.ClosedEarly (Text.lines content)) := by
  rw [front_licensed licensed]
  cases first : HeaderBlock.findFirst (Text.lines content) with
  | none =>
    have none : (HeaderBlock.find p.search (Text.lines content)).before (Text.lines content) = [] := by
      simp only [HeaderBlock.find, HeaderBlock.before, first]
    rw [none]
    simp [HeaderBlock.ClosedEarly, first, HeaderSearch.clear_nil]
  | some start =>
    have some : (HeaderBlock.find p.search (Text.lines content)).before (Text.lines content) =
        (Text.lines content).take start := by
      simp only [HeaderBlock.find, HeaderBlock.before, first]
    have unopened := (HeaderBlock.findFirst_eq_some_iff.mp first).2
    rw [some]
    constructor
    · intro clear independent early
      obtain ⟨start', same, l, member, closes⟩ := early
      obtain rfl : start = start' := by simpa [first] using same
      rw [clear.unclosed independent l member] at closes
      cases closes
    · intro unclosed
      refine ⟨unopened, fun independent l member => ?_⟩
      by_contra closes
      exact unclosed independent ⟨start, first, l, member, by simpa using closes⟩

theorem clear_front_tagged (unlicensed : p.isLicensed content = false) :
    p.search.Clear (p.front .tagged content) ↔
      ¬ p.MarkedToTag Comment.opens (Text.lines content) ∧
        (p.search = .independent → ¬ p.MarkedToTag Comment.closes (Text.lines content)) := by
  have opens : Comment.opens [] = false := rfl
  have closes : Comment.closes [] = false := rfl
  rw [front_tagged unlicensed, not_markedToTag, not_markedToTag]
  constructor
  · intro clear
    exact ⟨fun l member => clear.unopened l (List.mem_append_left _ member),
      fun independent l member => clear.unclosed independent l (List.mem_append_left _ member)⟩
  · intro unmarked
    obtain ⟨unopened, unclosed⟩ := unmarked
    refine ⟨?_, fun independent => ?_⟩
    · simpa [or_imp, forall_and, opens] using unopened
    · simpa [or_imp, forall_and, closes] using unclosed independent

theorem clear_front_native (unlicensed : p.isLicensed content = false) :
    p.search.Clear (p.front .native content) := by
  rw [front_native unlicensed]
  exact HeaderSearch.clear_nil _

theorem unopened_front_licensed (licensed : p.isLicensed content = true) :
    ∀ l ∈ p.front d content, Comment.opens l = false := by
  rw [front_licensed licensed]
  cases first : HeaderBlock.findFirst (Text.lines content) with
  | none =>
    simp [HeaderBlock.find, HeaderBlock.before, first]
  | some start =>
    have unopened := (HeaderBlock.findFirst_eq_some_iff.mp first).2
    simpa only [HeaderBlock.find, HeaderBlock.before, first] using unopened

theorem header_not_infix_front (spans : Comment.Spans p.header.lines)
    (recognised : p.attribution.found p.header.lines = true) : ¬ p.header.lines <:+: p.front d content := by
  intro copy
  -- The lines in front of a located block open no comment, those in front of an inserted header carry no license.
  cases licensed : p.isLicensed content with
  | true =>
    obtain ⟨opener, head, opens⟩ := spans.opened
    have member : opener ∈ p.front d content := copy.subset (List.mem_of_head? head)
    rw [unopened_front_licensed licensed opener member] at opens
    cases opens
  | false =>
    cases d with
    | tagged =>
      have inFront := Attribution.found_of_infix recognised copy
      rw [front_tagged licensed, Attribution.found_concat_blank] at inFront
      have inContent : p.isLicensed content = true :=
        Attribution.found_of_infix inFront (List.take_prefix _ _).isInfix
      rw [licensed] at inContent
      cases inContent
    | native =>
      rw [front_native licensed, List.infix_nil] at copy
      exact spans.ne_nil copy

theorem clear_of_settled {front : List Text} {rest : Text} (noCrHeader : '\r' ∉ p.header.text)
    (spans : Comment.Spans p.header.lines) (recognised : p.attribution.found p.header.lines = true)
    (plain : ∀ l ∈ front, Text.IsLine l) (noCr : '\r' ∉ p.header.framed front rest)
    (fresh : ¬ p.header.lines <:+: front)
    (settled : (p.place d (p.header.framed front rest)).content = p.header.framed front rest) :
    p.search.Clear front := by
  have unreturned := Header.unreturned_of_notMem noCrHeader
  have lines := Header.lines_framed unreturned plain rest
  have licensed : p.isLicensed (p.header.framed front rest) = true := by
    rw [isLicensed, lines]
    exact Attribution.found_append_right (Attribution.found_append_left recognised front) _
  obtain ⟨rest', noCrRest, behind, framed⟩ := exists_rest noCr
    (HeaderBlock.after_suffix (HeaderBlock.find p.search (Text.lines (p.header.framed front rest)))
      (Text.lines (p.header.framed front rest)))
  have plainBefore : ∀ l ∈ (HeaderBlock.find p.search (Text.lines (p.header.framed front rest))).before
      (Text.lines (p.header.framed front rest)), Text.IsLine l :=
    fun _ member => Text.isLine_of_mem_lines noCr ((HeaderBlock.before_prefix _ _).subset member)
  rw [place_licensed licensed, withBlockReplaced] at settled
  simp only [framed] at settled
  have again := congrArg Text.lines settled
  rw [Header.lines_framed unreturned plainBefore, behind] at again
  exact HeaderBlock.clear_of_located spans fresh lines again

/-- Running twice is running once, unless a line in front of the header misleads the second search. -/
theorem second_run_same_iff (p : HeaderPolicy) (d : Dialect) (content : Text)
    (noCrHeader : '\r' ∉ p.header.text) (spans : Comment.Spans p.header.lines)
    (recognised : p.attribution.found p.header.lines = true) (noCr : '\r' ∉ content) :
    (p.place d (p.place d content).content).content = (p.place d content).content ↔
      ¬ ((p.place d content).placement = .replaced ∧ p.search = .independent ∧
          HeaderBlock.ClosedEarly (Text.lines content)) ∧
        ¬ ((p.place d content).placement = .belowTag ∧ p.MarkedToTag Comment.opens (Text.lines content)) ∧
        ¬ ((p.place d content).placement = .belowTag ∧ p.search = .independent ∧
          p.MarkedToTag Comment.closes (Text.lines content)) := by
  obtain ⟨rest, noCrRest, framed⟩ := place_content p d noCr
  have first : (p.place d content).content = p.header.framed (p.front d content) rest := framed p.header
  have settled : (p.place d (p.place d content).content).content = (p.place d content).content ↔
      p.search.Clear (p.front d content) := by
    rw [first]
    constructor
    · have noCrFirst : '\r' ∉ p.header.framed (p.front d content) rest :=
        Header.cr_notMem_framed noCrHeader (cr_notMem_front noCr) noCrRest
      exact clear_of_settled noCrHeader spans recognised (isLine_front noCr) noCrFirst
        (header_not_infix_front spans recognised)
    · intro clear
      rw [place_framed p d noCrHeader spans recognised (isLine_front noCr) clear noCrRest]
  rw [settled]
  cases licensed : p.isLicensed content with
  | true =>
    rw [clear_front_licensed licensed, place_licensed licensed]
    simp
  | false =>
    cases d with
    | tagged =>
      rw [clear_front_tagged licensed, place_tagged licensed]
      simp
    | native =>
      rw [place_native licensed]
      simp [clear_front_native licensed]

theorem second_run_differs_below_comment :
    '\r' ∉ (tiny .paired).header.text ∧ Comment.Spans (tiny .paired).header.lines ∧
      (tiny .paired).attribution.found (tiny .paired).header.lines = true ∧ '\r' ∉ "/**/\nT".toList ∧
      ((tiny .paired).place .tagged ((tiny .paired).place .tagged "/**/\nT".toList).content).content ≠
        ((tiny .paired).place .tagged "/**/\nT".toList).content := by
  refine ⟨by decide, Header.tiny_spans, tiny_recognised .paired, by decide, ?_⟩
  intro same
  have settled := (second_run_same_iff (tiny .paired) .tagged "/**/\nT".toList (by decide) Header.tiny_spans
    (tiny_recognised .paired) (by decide)).mp same
  exact settled.2.1 ⟨by decide, 1, by decide, "/**/".toList, by decide, by decide⟩

/-- Under the same conditions nothing of the first header is left when the second run writes another one. -/
theorem changed_header_leaves_no_trace (p : HeaderPolicy) (a b : Header) (d : Dialect) (content : Text)
    (noCrA : '\r' ∉ a.text) (spans : Comment.Spans a.lines)
    (recognised : p.attribution.found a.lines = true) (noCr : '\r' ∉ content)
    (licensed : p.isLicensed content = true → p.search = .independent →
      ¬ HeaderBlock.ClosedEarly (Text.lines content))
    (tagged : p.isLicensed content = false → d = .tagged →
      ¬ p.MarkedToTag Comment.opens (Text.lines content) ∧
        (p.search = .independent → ¬ p.MarkedToTag Comment.closes (Text.lines content))) :
    ((p.changeHeader b).place d ((p.changeHeader a).place d content).content).content =
      ((p.changeHeader b).place d content).content := by
  obtain ⟨rest, noCrRest, framed⟩ := place_content p d noCr
  have clear : p.search.Clear (p.front d content) := by
    cases carries : p.isLicensed content with
    | true => exact (clear_front_licensed carries).mpr (licensed carries)
    | false =>
      cases d with
      | tagged => exact (clear_front_tagged carries).mpr (tagged carries rfl)
      | native => exact clear_front_native carries
  rw [framed a, framed b]
  rw [place_framed (p.changeHeader b) d noCrA spans recognised (isLine_front noCr) clear noCrRest]
  rfl

theorem changed_header_over_stale_one :
    '\r' ∉ Header.tiny.text ∧ Comment.Spans Header.tiny.lines ∧
      (tiny .independent).attribution.found Header.tiny.lines = true ∧ '\r' ∉ "x\n/* L\n*/y\nz".toList ∧
      (tiny .independent).isLicensed "x\n/* L\n*/y\nz".toList = true ∧
      ¬ HeaderBlock.ClosedEarly (Text.lines "x\n/* L\n*/y\nz".toList) ∧
      (((tiny .independent).changeHeader ⟨"//".toList, rfl⟩).place .native
          (((tiny .independent).changeHeader Header.tiny).place .native "x\n/* L\n*/y\nz".toList).content).content =
        (((tiny .independent).changeHeader ⟨"//".toList, rfl⟩).place .native "x\n/* L\n*/y\nz".toList).content := by
  have licensed : (tiny .independent).isLicensed "x\n/* L\n*/y\nz".toList = true := by decide
  have openFirst : ¬ HeaderBlock.ClosedEarly (Text.lines "x\n/* L\n*/y\nz".toList) := by
    intro early
    obtain ⟨start, first, l, member, closes⟩ := early
    obtain rfl : 1 = start := Option.some.inj first
    obtain rfl := List.mem_singleton.mp member
    cases closes
  refine ⟨by decide, Header.tiny_spans, tiny_recognised .independent, by decide, licensed, openFirst, ?_⟩
  exact changed_header_leaves_no_trace (tiny .independent) Header.tiny ⟨"//".toList, rfl⟩ .native _ (by decide)
    Header.tiny_spans (tiny_recognised .independent) (by decide) (fun _ _ => openFirst)
    (fun unlicensed => by rw [licensed] at unlicensed; cases unlicensed)

end HeaderPolicy

end LicenseHeaders
