import LicenseHeaders.Proofs.Presence

namespace LicenseHeaders

structure RunMode where
  dialect : Dialect
  search : HeaderSearch

namespace HeaderPolicy

def withSearch (p : HeaderPolicy) (search : HeaderSearch) : HeaderPolicy :=
  { p with search := search }

def run (p : HeaderPolicy) (m : RunMode) (content : Text) : Placed :=
  (p.withSearch m.search).place m.dialect content

def runs (p : HeaderPolicy) : List RunMode → Text → List Placed
  | [], _ => []
  | m :: later, content =>
    let placed := p.run m content
    placed :: p.runs later placed.content

def textAfter (p : HeaderPolicy) : List RunMode → Text → Text
  | [], content => content
  | m :: later, content => p.textAfter later (p.run m content).content

variable {p : HeaderPolicy} {m : RunMode} {content : Text}

theorem textAfter_concat (p : HeaderPolicy) (modes : List RunMode) (m : RunMode) (content : Text) :
    p.textAfter (modes ++ [m]) content = (p.run m (p.textAfter modes content)).content := by
  induction modes generalizing content with
  | nil => rfl
  | cons first later ih => exact ih (p.run first content).content

theorem standsIn_run (p : HeaderPolicy) (m : RunMode) (content : Text) :
    p.header.StandsIn (p.run m content).content :=
  (p.withSearch m.search).standsIn_place m.dialect content

theorem run_replaced (licensed : p.isLicensed content = true) : (p.run m content).placement = .replaced := by
  have same : (p.withSearch m.search).isLicensed content = true := licensed
  rw [run, place_licensed same]

theorem run_inserted (unlicensed : p.isLicensed content = false) :
    (p.run m content).placement.isInsertion = true := by
  have same : (p.withSearch m.search).isLicensed content = false := unlicensed
  obtain ⟨dialect, search⟩ := m
  cases dialect with
  | tagged =>
    rw [run, place_tagged same]
    rfl
  | native =>
    rw [run, place_native same]
    rfl

theorem runs_replaced (recognised : p.attribution.found p.header.lines = true) (modes : List RunMode)
    (stands : p.header.StandsIn content) : ∀ placed ∈ p.runs modes content, placed.placement = .replaced := by
  induction modes generalizing content with
  | nil => simp [runs]
  | cons m later ih =>
    intro placed member
    rcases List.mem_cons.mp member with rfl | member
    · exact run_replaced (stands.found recognised)
    · exact ih (standsIn_run p m content) placed member

theorem isLicensed_nil (p : HeaderPolicy) : p.isLicensed [] = false :=
  rfl

theorem isLicensed_run_nil (p : HeaderPolicy) (m : RunMode) :
    p.isLicensed (p.run m []).content = p.attribution.found p.header.lines := by
  have unlicensed : (p.withSearch m.search).isLicensed [] = false := isLicensed_nil _
  rw [← Header.found_lines_block]
  obtain ⟨dialect, search⟩ := m
  cases dialect with
  | tagged =>
    have text : (p.run ⟨.tagged, search⟩ []).content = '\n' :: p.header.block := by
      rw [run, place_tagged unlicensed]
      simp [withHeaderBelowTag, assemble, settleEnd, findOpenTag, withSearch]
    have lines : Text.lines ('\n' :: p.header.block) = [] :: Text.lines p.header.block := rfl
    rw [text, isLicensed, lines, Attribution.found, Attribution.foundFrom_cons]
    rfl
  | native =>
    have text : (p.run ⟨.native, search⟩ []).content = p.header.block ++ ['\n'] := by
      rw [run, place_native unlicensed]
      rfl
    rw [text, isLicensed, Text.lines_append p.header.endsWithNewline_block]
    exact Attribution.found_concat_blank

/-- After every run the header stands in the text. If it is recognised, no run but the first can insert it; if
not, it is inserted twice into an empty text. -/
theorem header_stands_after_every_run (p : HeaderPolicy) :
    (∀ d content, p.header.StandsIn (p.place d content).content) ∧
      (p.attribution.found p.header.lines = true →
        (∀ s, p.header.StandsIn s → p.isLicensed s = true) ∧
          ∀ modes content, ∀ placed ∈ (p.runs modes content).tail, placed.placement = .replaced) ∧
      (p.attribution.found p.header.lines = false →
        ∃ content, ∀ first second, ∀ placed ∈ p.runs [first, second] content,
          placed.placement.isInsertion = true) := by
  refine ⟨p.standsIn_place, ?_, ?_⟩
  · intro recognised
    refine ⟨fun s stands => stands.found recognised, ?_⟩
    intro modes content placed later
    cases modes with
    | nil => cases later
    | cons first modes => exact runs_replaced recognised modes (standsIn_run p first content) placed later
  · intro unrecognised
    refine ⟨[], fun first second placed member => ?_⟩
    have again : p.isLicensed (p.run first []).content = false := by rw [isLicensed_run_nil, unrecognised]
    simp only [runs, List.mem_cons, List.not_mem_nil, or_false] at member
    rcases member with rfl | rfl
    · exact run_inserted (isLicensed_nil p)
    · exact run_inserted again

/-- The line is the first of the text, and a license in the text comes with a line that opens a comment. -/
structure Tops (p : HeaderPolicy) (l content : Text) : Prop where
  first : (Text.lines content).head? = some l
  anchored : p.isLicensed content = true → ∃ o ∈ Text.lines content, Comment.opens o = true

variable {l : Text}

theorem Tops.head_before (tops : p.Tops l content) (code : Comment.opens l = false)
    (licensed : p.isLicensed content = true) (search : HeaderSearch) :
    ((HeaderBlock.find search (Text.lines content)).before (Text.lines content)).head? = some l := by
  obtain ⟨others, lines⟩ := List.head?_eq_some_iff.mp tops.first
  obtain ⟨o, member, opens⟩ := tops.anchored licensed
  obtain ⟨i, here⟩ := List.mem_iff_getElem?.mp member
  obtain ⟨start, -, first⟩ := HeaderBlock.exists_findIdx Comment.opens here opens
  have found : HeaderBlock.findFirst (Text.lines content) = some start := first
  have below : start ≠ 0 := by
    rintro rfl
    obtain ⟨top, atTop, topOpens⟩ := (HeaderBlock.findFirst_eq_some_iff.mp found).1
    obtain rfl : l = top := by simpa [lines] using atTop
    rw [code] at topOpens
    cases topOpens
  simp only [HeaderBlock.find, HeaderBlock.before, found]
  rw [List.head?_take, if_neg below, tops.first]

theorem Tops.head_front (tops : p.Tops l content) (code : Comment.opens l = false)
    (tag : l.contains p.openTag = true) : (p.front .tagged content).head? = some l := by
  cases licensed : p.isLicensed content with
  | true =>
    rw [front_licensed licensed]
    exact tops.head_before code licensed p.search
  | false =>
    obtain ⟨others, lines⟩ := List.head?_eq_some_iff.mp tops.first
    have found : findOpenTag p.openTag (l :: others) = some 0 := by
      rw [findOpenTag, List.findIdx?_cons, if_pos tag]
    rw [front_tagged licensed, lines, headLines, found]
    rfl

theorem exists_opener_block {h : Header} (opened : ∃ o ∈ h.lines.head?, Comment.opens o = true) :
    ∃ o ∈ Text.lines h.block, Comment.opens o = true := by
  obtain ⟨o, head, opens⟩ := opened
  have member : Text.bare o ∈ (Text.lines h.block).map Text.bare := by
    rw [h.bareLines_block]
    exact List.mem_map_of_mem (List.mem_of_head? head)
  obtain ⟨o', inBlock, same⟩ := List.mem_map.mp member
  exact ⟨o', inBlock, by rw [← Comment.opens_bare, same, Comment.opens_bare, opens]⟩

theorem Tops.run (tops : p.Tops l content) (opened : ∃ o ∈ p.header.lines.head?, Comment.opens o = true)
    (tag : l.contains p.openTag = true) (code : Comment.opens l = false) (noCr : l.getLast? ≠ some '\r')
    (tagged : m.dialect = .tagged) : p.Tops l (p.run m content).content := by
  have tops' : (p.withSearch m.search).Tops l content := ⟨tops.first, tops.anchored⟩
  have head := tops'.head_front code tag
  have line : Text.IsLine l :=
    ⟨Text.newline_notMem_of_mem_lines (List.mem_of_head? tops.first), noCr⟩
  obtain ⟨rest, framed⟩ := exists_framed (p.withSearch m.search) .tagged content
  obtain ⟨others, front⟩ := List.head?_eq_some_iff.mp head
  have text : (p.run m content).content =
      l ++ '\n' :: (Text.unlines others ++ (p.header.block ++ rest)) := by
    rw [HeaderPolicy.run, tagged, framed, front, Header.framed]
    simp [withSearch]
  refine ⟨?_, fun _ => ?_⟩
  · rw [text, Text.lines_append_newline line.1, line.chomp_eq]
    rfl
  · obtain ⟨o, inBlock, opens⟩ := exists_opener_block opened
    have stands := standsIn_run p m content
    exact ⟨o, stands.lines_infix.subset inBlock, opens⟩

theorem open_tag_stays_first (p : HeaderPolicy) (l content : Text)
    (opened : ∃ o ∈ p.header.lines.head?, Comment.opens o = true)
    (first : (Text.lines content).head? = some l) (tag : l.contains p.openTag = true)
    (code : Comment.opens l = false) (noCr : l.getLast? ≠ some '\r')
    (anchored : p.isLicensed content = true → ∃ o ∈ Text.lines content, Comment.opens o = true)
    (modes : List RunMode) (tagged : ∀ m ∈ modes, m.dialect = .tagged) :
    (Text.lines (p.textAfter modes content)).head? = some l := by
  have tops : p.Tops l content := ⟨first, anchored⟩
  -- The license need not be recognised again: the header of each run opens the comment that the next one needs.
  clear first anchored
  induction modes generalizing content with
  | nil => exact tops.first
  | cons m later ih =>
    have next := tops.run opened tag code noCr (tagged m List.mem_cons_self)
    exact ih _ (fun m' member => tagged m' (List.mem_cons_of_mem m member)) next

theorem open_tag_stays_above_mismatched_block :
    (∃ o ∈ (tiny .independent).header.lines.head?, Comment.opens o = true) ∧
      (Text.lines "T*/\n/*L".toList).head? = some "T*/".toList ∧
      Text.contains "T*/".toList (tiny .independent).openTag = true ∧ Comment.opens "T*/".toList = false ∧
      ("T*/".toList).getLast? ≠ some '\r' ∧ (tiny .independent).isLicensed "T*/\n/*L".toList = true ∧
      (∃ o ∈ Text.lines "T*/\n/*L".toList, Comment.opens o = true) ∧
      (Text.lines ((tiny .independent).textAfter [⟨.tagged, .independent⟩, ⟨.tagged, .paired⟩]
        "T*/\n/*L".toList)).head? = some "T*/".toList := by
  have opened : ∃ o ∈ (tiny .independent).header.lines.head?, Comment.opens o = true := ⟨_, rfl, rfl⟩
  have anchored : ∃ o ∈ Text.lines "T*/\n/*L".toList, Comment.opens o = true :=
    ⟨"/*L".toList, by decide, by decide⟩
  refine ⟨opened, by decide, by decide, by decide, by decide, by decide, anchored, ?_⟩
  exact open_tag_stays_first (tiny .independent) "T*/".toList "T*/\n/*L".toList opened (by decide) (by decide)
    (by decide) (by decide) (fun _ => anchored) [⟨.tagged, .independent⟩, ⟨.tagged, .paired⟩]
    (by simp)

end HeaderPolicy

end LicenseHeaders
