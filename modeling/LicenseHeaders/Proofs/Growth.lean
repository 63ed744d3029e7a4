import LicenseHeaders.Proofs.LineEnds
import LicenseHeaders.Proofs.Searches

namespace LicenseHeaders

def Header.StandsAt (h : Header) (i : Nat) (s : Text) : Prop :=
  ∃ above below, s = above ++ h.block ++ below ∧ (above = [] ∨ Text.endsWithNewline above = true) ∧
    (Text.lines above).length = i

theorem Header.standsAt_framed (h : Header) {front : List Text} (plain : ∀ l ∈ front, '\n' ∉ l) (rest : Text) :
    h.StandsAt front.length (h.framed front rest) := by
  have lines := Text.lines_unlines_append_chomp plain []
  rw [List.append_nil] at lines
  refine ⟨Text.unlines front, rest, rfl, Text.unlines_ended front, ?_⟩
  rw [lines, Text.lines_nil, List.append_nil, List.length_map]

theorem Text.length_lines_of_added {s content : Text} {added : List Text} {start : Nat}
    (lines : bareLines s = (bareLines content).take start ++ (added ++ (bareLines content).drop start)) :
    (Text.lines s).length = (Text.lines content).length + added.length := by
  have count := congrArg List.length lines
  have whole := congrArg List.length (List.take_append_drop start (bareLines content))
  simp only [List.length_append] at count whole
  simp only [bareLines, List.length_map] at count whole
  omega

namespace HeaderBlock.Crossed

variable {ls ls' : List Text} {start stop : Nat}

theorem map_bare : Crossed (ls.map Text.bare) start stop ↔ Crossed ls start stop := by
  have opener : Comment.opens ∘ Text.bare = Comment.opens := by
    funext l
    exact Comment.opens_bare l
  have closer : Comment.closes ∘ Text.bare = Comment.closes := by
    funext l
    exact Comment.closes_bare l
  constructor
  · intro crossed
    have first := crossed.opener
    have last := crossed.closer
    rw [List.findIdx?_map, opener] at first
    rw [List.findIdx?_map, closer] at last
    exact ⟨first, last, crossed.above⟩
  · intro crossed
    refine ⟨?_, ?_, crossed.above⟩
    · rw [List.findIdx?_map, opener]
      exact crossed.opener
    · rw [List.findIdx?_map, closer]
      exact crossed.closer

theorem of_take (crossed : Crossed ls start stop) (same : ls'.take start = ls.take start)
    (opened : ∃ o ∈ ls'[start]?, Comment.opens o = true) : Crossed ls' start stop := by
  obtain ⟨-, unopened⟩ := findIdx_eq_some_iff.mp crossed.opener
  obtain ⟨⟨l, here, closes⟩, unclosed⟩ := findIdx_eq_some_iff.mp crossed.closer
  have above := crossed.above
  refine ⟨findIdx_eq_some_iff.mpr ⟨opened, ?_⟩, findIdx_eq_some_iff.mpr ⟨⟨l, ?_, closes⟩, ?_⟩, above⟩
  · rw [same]
    exact unopened
  · rw [← List.getElem?_take_of_lt above, same, List.getElem?_take_of_lt above]
    exact here
  · have shorter := congrArg (List.take stop) same
    rw [List.take_take, List.take_take, Nat.min_eq_left (by omega)] at shorter
    rw [shorter]
    exact unclosed

end HeaderBlock.Crossed

namespace HeaderPolicy

/-- A licensed text whose first closer stands above its first opener. -/
structure Mismatched (p : HeaderPolicy) (content : Text) (start stop : Nat) : Prop where
  licensed : p.isLicensed content = true
  crossed : HeaderBlock.Crossed (Text.lines content) start stop

/-- What one run adds: the header, and the lines between the first closer and the first opener. -/
def layer (p : HeaderPolicy) (content : Text) (start stop : Nat) : List Text :=
  p.header.lines.map Text.bare ++ ((Text.bareLines content).take start).drop (stop + 1)

namespace Mismatched

variable {p : HeaderPolicy} {content : Text} {start stop : Nat} {m : RunMode} {modes : List RunMode}

theorem length_above (mismatched : p.Mismatched content start stop) :
    ((Text.bareLines content).take start).length = start := by
  have bound := mismatched.crossed.start_lt
  rw [List.length_take, Text.bareLines, List.length_map]
  omega

theorem run_eq (mismatched : p.Mismatched content start stop) (independent : m.search = .independent) :
    (p.run m content).content =
      assemble p.header content ((Text.lines content).take start) ((Text.lines content).drop (stop + 1)) := by
  have licensed : p.attribution.found (Text.lines content) = true := mismatched.licensed
  have parts := parts_of_crossed (p := p) (d := m.dialect) licensed mismatched.crossed
  rw [run, independent]
  exact parts.independent

theorem standsAt_run (mismatched : p.Mismatched content start stop) (independent : m.search = .independent) :
    p.header.StandsAt start (p.run m content).content := by
  obtain ⟨tail, -, -, framed⟩ := exists_tail (List.drop_suffix (stop + 1) (Text.lines content))
  have stands := p.header.standsAt_framed (Text.newline_notMem_take content start) (Text.dropReturns tail)
  have bound := mismatched.crossed.start_lt
  rw [List.length_take, Nat.min_eq_left (by omega)] at stands
  rw [mismatched.run_eq independent, framed]
  exact stands

theorem bareLines_run (mismatched : p.Mismatched content start stop) (independent : m.search = .independent) :
    Text.bareLines (p.run m content).content =
      (Text.bareLines content).take start ++ (p.layer content start stop ++ (Text.bareLines content).drop start) := by
  have header : Text.bareLines p.header.block = p.header.lines.map Text.bare := p.header.bareLines_block
  -- What stands behind the closer is what stands between it and the opener, and the opener with all below.
  have behind : (Text.bareLines content).drop (stop + 1) =
      ((Text.bareLines content).take start).drop (stop + 1) ++ (Text.bareLines content).drop start := by
    have cut := List.take_append_drop (start - (stop + 1)) ((Text.bareLines content).drop (stop + 1))
    have above := mismatched.crossed.above
    rw [List.drop_drop, Nat.add_sub_cancel' above] at cut
    rw [List.drop_take]
    exact cut.symm
  rw [mismatched.run_eq independent,
    bareLines_assemble p.header (Text.newline_notMem_take content start) (List.drop_suffix _ _), header,
    List.map_take, List.map_drop, layer, List.append_assoc, ← behind]
  rfl

theorem above_run (mismatched : p.Mismatched content start stop) (independent : m.search = .independent) :
    (Text.bareLines (p.run m content).content).take start = (Text.bareLines content).take start := by
  rw [mismatched.bareLines_run independent, List.take_left' mismatched.length_above]

theorem below_run (mismatched : p.Mismatched content start stop) (independent : m.search = .independent) :
    (Text.bareLines (p.run m content).content).drop start =
      p.layer content start stop ++ (Text.bareLines content).drop start := by
  rw [mismatched.bareLines_run independent, List.drop_left' mismatched.length_above]

theorem layer_run (mismatched : p.Mismatched content start stop) (independent : m.search = .independent) :
    p.layer (p.run m content).content start stop = p.layer content start stop := by
  rw [layer, mismatched.above_run independent, layer]

theorem length_layer (mismatched : p.Mismatched content start stop) :
    (p.layer content start stop).length = p.header.lineCount + start - stop - 1 := by
  have above := mismatched.crossed.above
  rw [layer, List.length_append, List.length_map, List.length_drop, mismatched.length_above, Header.lineCount]
  omega

theorem run (mismatched : p.Mismatched content start stop) (independent : m.search = .independent)
    (opened : ∃ o ∈ p.header.lines.head?, Comment.opens o = true)
    (recognised : p.attribution.found p.header.lines = true) :
    p.Mismatched (p.run m content).content start stop := by
  have before : HeaderBlock.Crossed (Text.bareLines content) start stop :=
    HeaderBlock.Crossed.map_bare.mpr mismatched.crossed
  refine ⟨(standsIn_run p m content).found recognised, HeaderBlock.Crossed.map_bare.mp ?_⟩
  apply before.of_take (mismatched.above_run independent)
  obtain ⟨o, head, opens⟩ := opened
  obtain ⟨others, header⟩ := List.head?_eq_some_iff.mp head
  refine ⟨Text.bare o, ?_, by rw [Comment.opens_bare, opens]⟩
  have below := mismatched.below_run independent
  rw [layer, header] at below
  change (Text.bareLines (p.run m content).content)[start]? = some (Text.bare o)
  rw [← List.head?_drop, below]
  rfl

theorem bareLines_textAfter (mismatched : p.Mismatched content start stop)
    (opened : ∃ o ∈ p.header.lines.head?, Comment.opens o = true)
    (recognised : p.attribution.found p.header.lines = true) (modes : List RunMode)
    (independent : ∀ m ∈ modes, m.search = .independent) :
    p.Mismatched (p.textAfter modes content) start stop ∧
      Text.bareLines (p.textAfter modes content) =
        (Text.bareLines content).take start ++
          ((List.replicate modes.length (p.layer content start stop)).flatten ++
            (Text.bareLines content).drop start) := by
  induction modes generalizing content with
  | nil =>
    refine ⟨mismatched, ?_⟩
    rw [List.length_nil, List.replicate_zero, List.flatten_nil, List.nil_append, List.take_append_drop]
    rfl
  | cons m later ih =>
    have first := independent m List.mem_cons_self
    have others : ∀ m' ∈ later, m'.search = .independent :=
      fun m' member => independent m' (List.mem_cons_of_mem m member)
    obtain ⟨last, lines⟩ := ih (mismatched.run first opened recognised) others
    refine ⟨last, ?_⟩
    rw [textAfter, lines, mismatched.layer_run first, mismatched.above_run first, mismatched.below_run first,
      List.length_cons, List.replicate_succ', List.flatten_append, List.flatten_singleton, List.append_assoc]

theorem length_run (mismatched : p.Mismatched content start stop) (independent : m.search = .independent) :
    (Text.lines (p.run m content).content).length =
      (Text.lines content).length + (p.header.lineCount + start - stop - 1) := by
  rw [Text.length_lines_of_added (mismatched.bareLines_run independent), mismatched.length_layer]

end Mismatched

structure Grown (p : HeaderPolicy) (content : Text) (start stop : Nat) (modes : List RunMode) : Prop where
  counted : (Text.lines (p.textAfter modes content)).length =
    (Text.lines content).length + modes.length * (p.header.lineCount + start - stop - 1)
  kept : ((Text.lines (p.textAfter modes content)).take start).map Text.bare =
    ((Text.lines content).take start).map Text.bare
  layered : Text.bareLines (p.textAfter modes content) =
    (Text.bareLines content).take start ++
      ((List.replicate modes.length (p.layer content start stop)).flatten ++ (Text.bareLines content).drop start)
  stands : modes ≠ [] → p.header.StandsAt start (p.textAfter modes content)
  gains : ∀ m : RunMode, m.search = .independent →
    (Text.lines (p.textAfter modes content)).length + p.header.lineCount ≤
      (Text.lines (p.run m (p.textAfter modes content)).content).length
  unsettled : ∀ m : RunMode, m.search = .independent →
    (p.run m (p.textAfter modes content)).content ≠ p.textAfter modes content

/-- Every run of the independent search adds a header, and the lines between, to a text whose first closer stands above
its first opener; no run is the last to change it. -/
theorem mismatched_text_grows (p : HeaderPolicy) (content : Text) (start stop : Nat)
    (opened : ∃ o ∈ p.header.lines.head?, Comment.opens o = true)
    (recognised : p.attribution.found p.header.lines = true) (licensed : p.isLicensed content = true)
    (crossed : HeaderBlock.Crossed (Text.lines content) start stop) (modes : List RunMode)
    (independent : ∀ m ∈ modes, m.search = .independent) : p.Grown content start stop modes := by
  have mismatched : p.Mismatched content start stop := ⟨licensed, crossed⟩
  obtain ⟨last, layered⟩ := mismatched.bareLines_textAfter opened recognised modes independent
  have above := crossed.above
  have positive : 0 < p.header.lineCount := by
    obtain ⟨o, head, -⟩ := opened
    exact List.length_pos_of_mem (List.mem_of_head? head)
  refine ⟨?_, ?_, layered, ?_, ?_, ?_⟩
  · rw [Text.length_lines_of_added layered, List.length_flatten, List.map_replicate, List.sum_replicate_nat,
      mismatched.length_layer]
  · have same := congrArg (List.take start) layered
    rw [List.take_left' mismatched.length_above, Text.bareLines, Text.bareLines, ← List.map_take,
      ← List.map_take] at same
    exact same
  · intro some
    rcases List.eq_nil_or_concat modes with none | ⟨earlier, m, rfl⟩
    · exact absurd none some
    · rw [List.concat_eq_append] at independent ⊢
      have before : ∀ m' ∈ earlier, m'.search = .independent :=
        fun m' member => independent m' (List.mem_append_left _ member)
      obtain ⟨previous, -⟩ := mismatched.bareLines_textAfter opened recognised earlier before
      rw [textAfter_concat]
      exact previous.standsAt_run (independent m (by simp))
  · intro m independently
    rw [last.length_run independently]
    omega
  · intro m independently same
    have count := last.length_run independently
    rw [same] at count
    omega

theorem text_below_closer_grows :
    (∃ o ∈ (tiny .paired).header.lines.head?, Comment.opens o = true) ∧
      (tiny .paired).attribution.found (tiny .paired).header.lines = true ∧
      (tiny .paired).isLicensed "a*/\r\nb\n/*L*/\nc".toList = true ∧
      HeaderBlock.Crossed (Text.lines "a*/\r\nb\n/*L*/\nc".toList) 2 0 ∧
      (tiny .paired).Grown "a*/\r\nb\n/*L*/\nc".toList 2 0 [⟨.tagged, .independent⟩, ⟨.native, .independent⟩] ∧
      (tiny .paired).textAfter [⟨.tagged, .independent⟩, ⟨.native, .independent⟩] "a*/\r\nb\n/*L*/\nc".toList =
        "a*/\nb\n/*L*/\nb\n/*L*/\nb\n/*L*/\nc".toList := by
  have opened : ∃ o ∈ (tiny .paired).header.lines.head?, Comment.opens o = true := ⟨_, rfl, rfl⟩
  have licensed : (tiny .paired).isLicensed "a*/\r\nb\n/*L*/\nc".toList = true := by decide
  have crossed : HeaderBlock.Crossed (Text.lines "a*/\r\nb\n/*L*/\nc".toList) 2 0 :=
    ⟨by decide, by decide, by decide⟩
  have grown := mismatched_text_grows (tiny .paired) _ 2 0 opened (tiny_recognised .paired) licensed crossed
    [⟨.tagged, .independent⟩, ⟨.native, .independent⟩] (by simp)
  exact ⟨opened, tiny_recognised .paired, licensed, crossed, grown, by decide⟩

end HeaderPolicy

end LicenseHeaders
