import LicenseHeaders.Proofs.Framing

namespace LicenseHeaders

structure CodeLine where
  text : Text
  code : Comment.opens text.trim = false

structure CommentBlock where
  lines : List Text
  spans : Comment.Spans lines

inductive Piece
  | code (line : CodeLine)
  | comment (block : CommentBlock)

def CommentBlock.single (line : Text) (opens : Comment.opens line = true) (closes : Comment.closes line = true) :
    CommentBlock where
  lines := [line]
  spans := ⟨⟨line, rfl, opens⟩, ⟨line, rfl, closes⟩, by simp⟩

def CommentBlock.Marked (b : CommentBlock) (a : Attribution) : Prop :=
  ∃ l ∈ b.lines, a.marks l = true

namespace Attribution

variable {a : Attribution}

theorem found_code (line : CodeLine) (after : List Text) : a.found (line.text :: after) = a.found after := by
  rw [found, foundFrom_cons, line.code]
  rfl

theorem foundFrom_closed {body : List Text} {closer : Text} (unclosed : ∀ l ∈ body, Comment.closes l = false)
    (closes : Comment.closes closer = true) (after : List Text) :
    a.foundFrom true (body ++ closer :: after) = ((body ++ [closer]).any a.marks || a.found after) := by
  induction body with
  | nil =>
    rw [List.nil_append, foundFrom_cons, closes]
    simp [found]
  | cons line body ih =>
    have stays : Comment.closes line = false := unclosed line List.mem_cons_self
    have others := ih (fun l member => unclosed l (List.mem_cons_of_mem line member))
    rw [List.cons_append, foundFrom_cons, stays, Bool.true_or, Bool.true_and, Bool.not_false, Bool.and_true, others]
    simp [Bool.or_assoc]

theorem found_comment (b : CommentBlock) (after : List Text) :
    a.found (b.lines ++ after) = true ↔ b.Marked a ∨ a.found after = true := by
  obtain ⟨opener, head, opens⟩ := b.spans.opened
  obtain ⟨body, closer, whole, closes, unclosed⟩ := b.spans.exists_closer
  have inside : a.found (b.lines ++ after) = a.foundFrom true (b.lines ++ after) := by
    obtain ⟨others, same⟩ := List.head?_eq_some_iff.mp head
    rw [found, same, List.cons_append, foundFrom_cons, foundFrom_cons, Comment.opens_trim opens]
    rfl
  have closed := foundFrom_closed (a := a) unclosed closes after
  rw [inside, CommentBlock.Marked, whole, List.append_assoc, List.singleton_append, closed, Bool.or_eq_true,
    List.any_eq_true]

end Attribution

namespace Piece

def lines : Piece → List Text
  | .code line => [line.text]
  | .comment block => block.lines

def linesOf (pieces : List Piece) : List Text :=
  pieces.flatMap Piece.lines

theorem linesOf_append (front after : List Piece) : linesOf (front ++ after) = linesOf front ++ linesOf after :=
  List.flatMap_append

theorem linesOf_code (line : CodeLine) (after : List Piece) :
    linesOf (.code line :: after) = line.text :: linesOf after :=
  List.flatMap_cons

theorem linesOf_comment (b : CommentBlock) (after : List Piece) :
    linesOf (.comment b :: after) = b.lines ++ linesOf after :=
  List.flatMap_cons

theorem found_linesOf {a : Attribution} {pieces : List Piece} :
    a.found (linesOf pieces) = true ↔ ∃ b, Piece.comment b ∈ pieces ∧ b.Marked a := by
  induction pieces with
  | nil => simp [linesOf, Attribution.found, Attribution.foundFrom]
  | cons piece pieces ih =>
    cases piece with
    | code line =>
      rw [linesOf_code, Attribution.found_code, ih]
      simp
    | comment b =>
      rw [linesOf_comment, Attribution.found_comment, ih]
      constructor
      · intro found
        rcases found with marked | ⟨c, member, marked⟩
        · exact ⟨b, List.mem_cons_self, marked⟩
        · exact ⟨c, List.mem_cons_of_mem _ member, marked⟩
      · intro found
        obtain ⟨c, member, marked⟩ := found
        rcases List.mem_cons.mp member with same | later
        · obtain rfl := Piece.comment.inj same
          exact Or.inl marked
        · exact Or.inr ⟨c, later, marked⟩

theorem unopened_of_code {pieces : List Piece} (code : ∀ c, Piece.comment c ∉ pieces) :
    ∀ l ∈ linesOf pieces, Comment.opens l = false := by
  intro l member
  obtain ⟨piece, inside, line⟩ := List.mem_flatMap.mp member
  cases piece with
  | code codeLine =>
    obtain rfl := List.mem_singleton.mp line
    by_contra opens
    have trimmed := Comment.opens_trim (by simpa using opens)
    rw [codeLine.code] at trimmed
    cases trimmed
  | comment c => exact absurd inside (code c)

theorem exists_first_comment {pieces : List Piece} {c : CommentBlock} (member : Piece.comment c ∈ pieces) :
    ∃ lead first rest, pieces = lead ++ .comment first :: rest ∧ ∀ c', Piece.comment c' ∉ lead := by
  induction pieces with
  | nil => cases member
  | cons piece pieces ih =>
    cases piece with
    | code line =>
      have later : Piece.comment c ∈ pieces := by simpa using member
      obtain ⟨lead, first, rest, rfl, code⟩ := ih later
      exact ⟨.code line :: lead, first, rest, rfl, by simpa using code⟩
    | comment first => exact ⟨[], first, pieces, rfl, by simp⟩

end Piece

namespace HeaderPolicy

theorem countLine_settleEnd {l old written : Text} (full : l ≠ []) (ended : Text.endsWithNewline written = true)
    (endsWithOld : Bool) : Text.countLine l (settleEnd old endsWithOld written) = Text.countLine l written := by
  unfold settleEnd
  split
  · exact Text.countLine_dropLast full ended
  · rfl

theorem countLine_assemble {l : Text} {front after : List Text} (full : l ≠ []) (h : Header) (old : Text)
    (plainFront : ∀ l' ∈ front, '\n' ∉ l') (plainAfter : ∀ l' ∈ after, '\n' ∉ l') :
    Text.countLine l (assemble h old front after) = front.count l + Text.countLine l h.block + after.count l := by
  have ended := Text.endsWithNewline_append_unlines (h.endsWithNewline_append_block (Text.unlines front)) after
  rw [assemble, countLine_settleEnd full ended, List.append_assoc, Text.countLine_unlines_append plainFront,
    Text.countLine_append full h.endsWithNewline_block, Text.countLine_unlines full plainAfter, Nat.add_assoc]

theorem count_eq_of_assemble_eq {h : Header} {old l : Text} {lead first others block later : List Text}
    (full : l ≠ []) (plain : ∀ l' ∈ lead ++ (first ++ (others ++ (block ++ later))), '\n' ∉ l')
    (same : assemble h old lead (others ++ (block ++ later)) = assemble h old (lead ++ (first ++ others)) later) :
    block.count l = first.count l := by
  obtain ⟨plainLead, plainRest⟩ := List.forall_mem_append.mp plain
  obtain ⟨plainFirst, plainRest⟩ := List.forall_mem_append.mp plainRest
  obtain ⟨plainOthers, plainTail⟩ := List.forall_mem_append.mp plainRest
  obtain ⟨-, plainLater⟩ := List.forall_mem_append.mp plainTail
  have plainFront : ∀ l' ∈ lead ++ (first ++ others), '\n' ∉ l' :=
    List.forall_mem_append.mpr ⟨plainLead, List.forall_mem_append.mpr ⟨plainFirst, plainOthers⟩⟩
  have counts := congrArg (Text.countLine l) same
  rw [countLine_assemble full h old plainLead plainRest, countLine_assemble full h old plainFront plainLater] at counts
  simp only [List.count_append] at counts
  omega

variable {p : HeaderPolicy} {d : Dialect} {content : Text}

theorem place_first_comment (paired : p.search = .paired) {lead rest : List Piece} {first : CommentBlock}
    (cut : Text.lines content = Piece.linesOf (lead ++ .comment first :: rest))
    (code : ∀ c, Piece.comment c ∉ lead) (licensed : p.isLicensed content = true) :
    p.place d content = ⟨assemble p.header content (Piece.linesOf lead) (Piece.linesOf rest), .replaced⟩ := by
  have clear : p.search.Clear (Piece.linesOf lead) :=
    ⟨Piece.unopened_of_code code, fun independent => by rw [paired] at independent; cases independent⟩
  rw [Piece.linesOf_append, Piece.linesOf_comment, ← List.append_assoc] at cut
  rw [place_licensed licensed, withBlockReplaced]
  simp only [cut]
  rw [HeaderBlock.before_find_spans first.spans clear, HeaderBlock.after_find_spans first.spans clear]

theorem isLicensed_iff_marked {earlier later : List Piece} {b : CommentBlock}
    (cut : Text.lines content = Piece.linesOf (earlier ++ .comment b :: later))
    (unmarked : ∀ c, Piece.comment c ∈ earlier ++ later → ¬ c.Marked p.attribution) :
    p.isLicensed content = true ↔ b.Marked p.attribution := by
  rw [isLicensed, cut, Piece.found_linesOf]
  constructor
  · intro found
    obtain ⟨c, member, marked⟩ := found
    rw [List.mem_append, List.mem_cons] at member
    rcases member with above | same | below
    · exact absurd marked (unmarked c (List.mem_append_left _ above))
    · obtain rfl := Piece.comment.inj same
      exact marked
    · exact absurd marked (unmarked c (List.mem_append_right _ below))
  · intro marked
    exact ⟨b, by simp, marked⟩

theorem wrong_comment_swapped (paired : p.search = .paired) {earlier later : List Piece} {b c : CommentBlock}
    (cut : Text.lines content = Piece.linesOf (earlier ++ .comment b :: later)) (marked : b.Marked p.attribution)
    (unmarked : ∀ c, Piece.comment c ∈ earlier → ¬ c.Marked p.attribution) (member : Piece.comment c ∈ earlier)
    (licensed : p.isLicensed content = true) :
    (p.place d content).content ≠ assemble p.header content (Piece.linesOf earlier) (Piece.linesOf later) := by
  intro same
  obtain ⟨lead, first, others, rfl, code⟩ := Piece.exists_first_comment member
  rw [List.append_assoc, List.cons_append] at cut
  rw [place_first_comment paired cut code licensed] at same
  have plain : ∀ l ∈ Text.lines content, '\n' ∉ l := fun _ line => Text.newline_notMem_of_mem_lines line
  simp only [cut, Piece.linesOf_append, Piece.linesOf_comment] at plain same
  -- Both texts have the same lines, so the licensed line stands in the first comment as well.
  obtain ⟨l, inBlock, marks⟩ := marked
  have full : l ≠ [] := by
    intro none
    rw [none, Attribution.marks_nil] at marks
    cases marks
  have counts := count_eq_of_assemble_eq full plain same
  have positive : 0 < b.lines.count l := List.count_pos_iff.mpr inBlock
  have inFirst : l ∈ first.lines := List.count_pos_iff.mp (by omega)
  exact unmarked first (by simp) ⟨l, inFirst, marks⟩

/-- The licensed comment gives way to the header, and nothing else does, exactly when it is the first comment. -/
theorem licensed_comment_swapped_iff (p : HeaderPolicy) (paired : p.search = .paired) (d : Dialect) (content : Text)
    (earlier later : List Piece) (b : CommentBlock)
    (cut : Text.lines content = Piece.linesOf (earlier ++ .comment b :: later))
    (unmarked : ∀ c, Piece.comment c ∈ earlier ++ later → ¬ c.Marked p.attribution) :
    ((p.place d content).placement = .replaced ↔ b.Marked p.attribution) ∧
      (p.place d content = ⟨assemble p.header content (Piece.linesOf earlier) (Piece.linesOf later), .replaced⟩ ↔
        b.Marked p.attribution ∧ ∀ c, Piece.comment c ∉ earlier) := by
  have licensed := isLicensed_iff_marked cut unmarked
  refine ⟨replaced_iff.trans licensed, ?_⟩
  constructor
  · intro swapped
    have carries : p.isLicensed content = true := replaced_iff.mp (by rw [swapped])
    have marked := licensed.mp carries
    refine ⟨marked, fun c member => ?_⟩
    exact wrong_comment_swapped paired cut marked
      (fun c' above => unmarked c' (List.mem_append_left _ above)) member carries (by rw [swapped])
  · intro first
    exact place_first_comment paired cut first.2 (licensed.mpr first.1)

theorem licensed_comment_below_another :
    Text.lines "/**/\n/*L*/\nx".toList = Piece.linesOf ([.comment (.single "/**/".toList rfl rfl)] ++
        .comment (.single "/*L*/".toList rfl rfl) :: [.code ⟨"x".toList, rfl⟩]) ∧
      ((tiny .paired).place .native "/**/\n/*L*/\nx".toList).placement = .replaced ∧
      (tiny .paired).place .native "/**/\n/*L*/\nx".toList ≠
        ⟨assemble (tiny .paired).header "/**/\n/*L*/\nx".toList
          (Piece.linesOf [.comment (.single "/**/".toList rfl rfl)]) (Piece.linesOf [.code ⟨"x".toList, rfl⟩]),
          .replaced⟩ := by
  have cut : Text.lines "/**/\n/*L*/\nx".toList = Piece.linesOf ([.comment (.single "/**/".toList rfl rfl)] ++
      .comment (.single "/*L*/".toList rfl rfl) :: [.code ⟨"x".toList, rfl⟩]) := by decide
  have marked : (CommentBlock.single "/*L*/".toList rfl rfl).Marked (tiny .paired).attribution :=
    ⟨"/*L*/".toList, List.mem_singleton_self _, by decide⟩
  have unmarked : ∀ c, Piece.comment c ∈
      [.comment (.single "/**/".toList rfl rfl)] ++ [.code ⟨"x".toList, rfl⟩] →
        ¬ c.Marked (tiny .paired).attribution := by
    intro c member found
    obtain rfl : c = .single "/**/".toList rfl rfl := by simpa using member
    obtain ⟨l, inside, marks⟩ := found
    obtain rfl := List.mem_singleton.mp inside
    revert marks
    decide
  have swapped := licensed_comment_swapped_iff (tiny .paired) rfl .native _ _ _ _ cut unmarked
  exact ⟨cut, swapped.1.mpr marked, fun same => (swapped.2.mp same).2 _ (List.mem_singleton_self _)⟩

end HeaderPolicy

end LicenseHeaders
