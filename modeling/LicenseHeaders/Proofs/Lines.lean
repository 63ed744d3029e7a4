import LicenseHeaders.Text.Search
import Mathlib.Data.List.Basic

namespace LicenseHeaders.Text

def chomp (l : Text) : Text :=
  if l.getLast? = some '\r' then l.dropLast else l

def IsLine (l : Text) : Prop :=
  '\n' ∉ l ∧ l.getLast? ≠ some '\r'

theorem isLine_nil : IsLine [] := by
  simp [IsLine]

theorem isLine_of_notMem {l : Text} (newline : '\n' ∉ l) (cr : '\r' ∉ l) : IsLine l :=
  ⟨newline, fun last => cr (List.mem_of_getLast? last)⟩

theorem IsLine.chomp_eq {l : Text} (line : IsLine l) : chomp l = l := by
  rw [chomp, if_neg line.2]

theorem mem_of_mem_chomp {l : Text} {c : Char} (member : c ∈ chomp l) : c ∈ l := by
  unfold chomp at member
  split at member
  · exact List.dropLast_subset l member
  · exact member

/-- A text is one unended line, or a line with its newline and a shorter text. -/
@[elab_as_elim]
theorem line_induction {motive : Text → Prop} (last : ∀ l : Text, '\n' ∉ l → motive l)
    (step : ∀ l s : Text, '\n' ∉ l → motive s → motive (l ++ '\n' :: s)) (s : Text) : motive s := by
  by_cases newline : '\n' ∈ s
  · obtain ⟨l, rest, rfl, plain⟩ := List.eq_append_cons_of_mem newline
    exact step l rest plain (line_induction last step rest)
  · exact last s newline
termination_by s.length
decreasing_by
  have length := congrArg List.length ‹s = _›
  simp only [List.length_append, List.length_cons] at length
  omega

theorem lines_of_plain {l : Text} (plain : '\n' ∉ l) (full : l ≠ []) : lines l = [l] := by
  fun_induction lines l with
  | case1 => exact absurd rfl full
  | case2 => simp at plain
  | case3 => simp at plain
  | case4 c rest _ _ tail ih =>
    have none : rest = [] := by
      by_contra more
      have one := ih (fun member => plain (List.mem_cons_of_mem c member)) more
      rw [tail] at one
      cases one
    rw [none]
  | case5 c rest _ _ line others tail ih =>
    have more : rest ≠ [] := by
      intro none
      rw [none] at tail
      cases tail
    have one := ih (fun member => plain (List.mem_cons_of_mem c member)) more
    rw [tail] at one
    cases one
    rfl

theorem lines_append_newline {l : Text} (plain : '\n' ∉ l) (s : Text) :
    lines (l ++ '\n' :: s) = chomp l :: lines s := by
  induction l with
  | nil => rfl
  | cons c l ih =>
    simp only [List.mem_cons, not_or] at plain
    rcases l with _ | ⟨d, l⟩
    · by_cases cr : c = '\r'
      · subst cr
        rfl
      · simp [lines, chomp, cr, Ne.symm plain.1]
    · have tail := ih plain.2
      simp only [List.mem_cons, not_or] at plain
      -- The second character is no newline, so the first one is no half of a line end.
      rw [List.cons_append, List.cons_append, lines, ← List.cons_append, tail]
      · by_cases cr : (d :: l).getLast? = some '\r' <;> simp [chomp, cr]
      · exact fun newline => plain.1 newline.symm
      · intro rest _ same
        cases same
        exact plain.2.1 rfl

theorem lines_eq_nil {s : Text} : lines s = [] ↔ s = [] := by
  constructor
  · intro none
    induction s using line_induction with
    | last l plain =>
      by_contra full
      rw [lines_of_plain plain full] at none
      cases none
    | step l s plain _ =>
      rw [lines_append_newline plain] at none
      cases none
  · intro none
    rw [none]
    rfl

theorem mem_of_mem_lines {s l : Text} {c : Char} (line : l ∈ lines s) (char : c ∈ l) : c ∈ s := by
  induction s using line_induction with
  | last tail plain =>
    by_cases full : tail = []
    · simp [full] at line
    · rw [lines_of_plain plain full, List.mem_singleton] at line
      rwa [← line]
  | step first s plain ih =>
    rw [lines_append_newline plain, List.mem_cons] at line
    rcases line with rfl | line
    · exact List.mem_append_left _ (mem_of_mem_chomp char)
    · exact List.mem_append_right _ (List.mem_cons_of_mem _ (ih line))

theorem newline_notMem_of_mem_lines {s l : Text} (line : l ∈ lines s) : '\n' ∉ l := by
  induction s using line_induction with
  | last tail plain =>
    by_cases full : tail = []
    · simp [full] at line
    · rw [lines_of_plain plain full, List.mem_singleton] at line
      rwa [line]
  | step first s plain ih =>
    rw [lines_append_newline plain, List.mem_cons] at line
    rcases line with rfl | line
    · exact fun member => plain (mem_of_mem_chomp member)
    · exact ih line

theorem newline_notMem_take (s : Text) (n : Nat) : ∀ l ∈ (lines s).take n, '\n' ∉ l :=
  fun _ kept => newline_notMem_of_mem_lines (List.mem_of_mem_take kept)

theorem isLine_of_mem_lines {s l : Text} (noCr : '\r' ∉ s) (line : l ∈ lines s) : IsLine l :=
  isLine_of_notMem (newline_notMem_of_mem_lines line) (fun cr => noCr (mem_of_mem_lines line cr))

theorem lines_unlines_append_chomp {ls : List Text} (plain : ∀ l ∈ ls, '\n' ∉ l) (s : Text) :
    lines (unlines ls ++ s) = ls.map chomp ++ lines s := by
  induction ls with
  | nil => rfl
  | cons l ls ih =>
    have others := ih (fun other member => plain other (List.mem_cons_of_mem l member))
    rw [unlines_cons, List.append_assoc, List.cons_append, lines_append_newline (plain l List.mem_cons_self), others,
      List.map_cons, List.cons_append]

theorem lines_unlines_append {ls : List Text} (plain : ∀ l ∈ ls, IsLine l) (s : Text) :
    lines (unlines ls ++ s) = ls ++ lines s := by
  have kept : ls.map chomp = ls.map id := List.map_congr_left fun l member => (plain l member).chomp_eq
  rw [lines_unlines_append_chomp (fun l member => (plain l member).1), kept, List.map_id]

theorem endsWithNewline_append {a b : Text} (full : b ≠ []) :
    endsWithNewline (a ++ b) = endsWithNewline b := by
  rw [endsWithNewline, endsWithNewline, List.getLast?_append_of_ne_nil _ full]

theorem endsWithNewline_suffix {a b : Text} (suffix : b <:+ a) (full : b ≠ []) :
    endsWithNewline a = endsWithNewline b := by
  obtain ⟨before, rfl⟩ := suffix
  exact endsWithNewline_append full

theorem endsWithNewline_append_unlines {s : Text} (ended : endsWithNewline s = true) (ls : List Text) :
    endsWithNewline (s ++ unlines ls) = true := by
  rcases List.eq_nil_or_concat ls with rfl | ⟨front, l, rfl⟩
  · simpa using ended
  · simp [endsWithNewline]

theorem unlines_ended (ls : List Text) : unlines ls = [] ∨ endsWithNewline (unlines ls) = true := by
  rcases List.eq_nil_or_concat ls with rfl | ⟨front, l, rfl⟩
  · exact Or.inl rfl
  · exact Or.inr (by simp [endsWithNewline])

theorem endsWithNewline_plain {l : Text} (plain : '\n' ∉ l) : endsWithNewline l = false := by
  simp only [endsWithNewline, beq_eq_false_iff_ne]
  exact fun last => plain (List.mem_of_getLast? last)

theorem lines_append {a : Text} (ended : endsWithNewline a = true) (b : Text) :
    lines (a ++ b) = lines a ++ lines b := by
  induction a using line_induction with
  | last l plain =>
    rw [endsWithNewline_plain plain] at ended
    cases ended
  | step l s plain ih =>
    rw [List.append_assoc, List.cons_append, lines_append_newline plain, lines_append_newline plain]
    by_cases full : s = []
    · rw [full]
      rfl
    · have tail : endsWithNewline s = true := by
        rw [← ended]
        exact (endsWithNewline_suffix ⟨l ++ ['\n'], by simp⟩ full).symm
      rw [ih tail, List.cons_append]

theorem exists_suffix_lines {s : Text} {after : List Text} (suffix : after <:+ lines s) :
    ∃ rest, rest <:+ s ∧ lines rest = after := by
  induction s using line_induction with
  | last l plain =>
    by_cases full : l = []
    · subst full
      exact ⟨[], List.suffix_refl [], (List.suffix_nil.mp suffix).symm⟩
    · rw [lines_of_plain plain full, List.suffix_cons_iff] at suffix
      rcases suffix with whole | none
      · exact ⟨l, List.suffix_refl l, by rw [lines_of_plain plain full, whole]⟩
      · exact ⟨[], List.nil_suffix, (List.suffix_nil.mp none).symm⟩
  | step l s plain ih =>
    rw [lines_append_newline plain, List.suffix_cons_iff] at suffix
    rcases suffix with whole | later
    · exact ⟨l ++ '\n' :: s, List.suffix_refl _, by rw [lines_append_newline plain, whole]⟩
    · obtain ⟨rest, inside, same⟩ := ih later
      have cut : s <:+ l ++ '\n' :: s := ⟨l ++ ['\n'], by simp⟩
      exact ⟨rest, inside.trans cut, same⟩

/-- The text without the carriage return right before each newline; a second one stays. -/
def dropReturns : Text → Text
  | [] => []
  | '\r' :: '\n' :: rest => '\n' :: dropReturns rest
  | c :: rest => c :: dropReturns rest

theorem dropReturns_eq_self {s : Text} : dropReturns s = s ↔ ¬ ['\r', '\n'] <:+: s := by
  fun_induction dropReturns s with
  | case1 => simp
  | case2 rest ih =>
    have ended : ['\r', '\n'] <:+: '\r' :: '\n' :: rest := (List.prefix_append ['\r', '\n'] rest).isInfix
    simp [ended]
  | case3 c rest other ih =>
    have unended : ¬ ['\r', '\n'] <+: c :: rest := by
      rintro ⟨tail, same⟩
      obtain ⟨rfl, rfl⟩ := List.cons.inj same
      exact other tail rfl rfl
    rw [List.infix_cons_iff, List.cons.injEq, ih]
    simp [unended]

theorem dropReturns_of_notMem {s : Text} (noCr : '\r' ∉ s) : dropReturns s = s :=
  dropReturns_eq_self.mpr fun ended => noCr (ended.subset List.mem_cons_self)

theorem dropReturns_of_plain {l : Text} (plain : '\n' ∉ l) : dropReturns l = l :=
  dropReturns_eq_self.mpr fun ended => plain (ended.subset (by simp))

theorem dropReturns_append_newline {l : Text} (plain : '\n' ∉ l) (s : Text) :
    dropReturns (l ++ '\n' :: s) = chomp l ++ '\n' :: dropReturns s := by
  induction l with
  | nil => rfl
  | cons c l ih =>
    simp only [List.mem_cons, not_or] at plain
    rcases l with _ | ⟨d, l⟩
    · by_cases cr : c = '\r'
      · subst cr
        rfl
      · simp [dropReturns, chomp, cr]
    · have tail := ih plain.2
      simp only [List.mem_cons, not_or] at plain
      -- The second character is no newline, so the first one stays.
      rw [List.cons_append, List.cons_append, dropReturns, ← List.cons_append, tail]
      · by_cases cr : (d :: l).getLast? = some '\r' <;> simp [chomp, cr]
      · intro rest _ same
        exact plain.2.1 (List.cons.inj same).1.symm

theorem unlines_lines (s : Text) :
    unlines (lines s) =
      if s = [] ∨ endsWithNewline s = true then dropReturns s else dropReturns s ++ ['\n'] := by
  induction s using line_induction with
  | last l plain =>
    by_cases full : l = []
    · simp [full, dropReturns]
    · rw [lines_of_plain plain full, if_neg (by simp [full, endsWithNewline_plain plain]),
        dropReturns_of_plain plain]
      simp
  | step l s plain ih =>
    rw [lines_append_newline plain, dropReturns_append_newline plain, unlines_cons, ih]
    by_cases full : s = []
    · subst full
      simp [endsWithNewline]
    · have cut : s <:+ l ++ '\n' :: s := ⟨l ++ ['\n'], by simp⟩
      rw [endsWithNewline_suffix cut full]
      by_cases ended : endsWithNewline s = true <;> simp [full, ended]

theorem dropReturns_eq_nil {s : Text} : dropReturns s = [] ↔ s = [] := by
  fun_cases dropReturns s <;> simp

theorem lines_dropReturns {s : Text} (plain : ∀ l ∈ lines s, IsLine l) : lines (dropReturns s) = lines s := by
  induction s using line_induction with
  | last l noNewline => rw [dropReturns_of_plain noNewline]
  | step l s noNewline ih =>
    have chomped : '\n' ∉ chomp l := fun member => noNewline (mem_of_mem_chomp member)
    rw [lines_append_newline noNewline, List.forall_mem_cons] at plain
    rw [dropReturns_append_newline noNewline, lines_append_newline chomped, lines_append_newline noNewline,
      plain.1.chomp_eq, ih plain.2]

theorem endsWithNewline_dropReturns (s : Text) : endsWithNewline (dropReturns s) = endsWithNewline s := by
  induction s using line_induction with
  | last l plain => rw [dropReturns_of_plain plain]
  | step l s plain ih =>
    rw [dropReturns_append_newline plain]
    by_cases full : s = []
    · simp [full, dropReturns, endsWithNewline]
    · have cut : s <:+ l ++ '\n' :: s := ⟨l ++ ['\n'], by simp⟩
      have dropped : dropReturns s <:+ chomp l ++ '\n' :: dropReturns s := ⟨chomp l ++ ['\n'], by simp⟩
      have left : dropReturns s ≠ [] := fun none => full (dropReturns_eq_nil.mp none)
      rw [endsWithNewline_suffix cut full, endsWithNewline_suffix dropped left, ih]

theorem lines_concat_newline {s : Text} (noCr : s.getLast? ≠ some '\r') (full : s ≠ [])
    (unended : endsWithNewline s = false) : lines (s ++ ['\n']) = lines s := by
  induction s using line_induction with
  | last l plain =>
    have line : IsLine l := ⟨plain, noCr⟩
    rw [lines_append_newline plain, line.chomp_eq, lines_of_plain plain full, lines_nil]
  | step l s plain ih =>
    have tail : s ≠ [] := by
      intro none
      simp [none, endsWithNewline] at unended
    have cut : s <:+ l ++ '\n' :: s := ⟨l ++ ['\n'], by simp⟩
    have last : (l ++ '\n' :: s).getLast? = s.getLast? := by
      rw [List.getLast?_append_of_ne_nil _ (List.cons_ne_nil _ _), List.getLast?_cons_of_ne_nil tail]
    rw [endsWithNewline_suffix cut tail] at unended
    rw [last] at noCr
    rw [List.append_assoc, List.cons_append, lines_append_newline plain, lines_append_newline plain,
      ih noCr tail unended]

theorem splitAt_ne_nil (sep : Char) (s : Text) : splitAt sep s ≠ [] := by
  cases s with
  | nil => simp [splitAt]
  | cons c s =>
    rw [splitAt]
    split
    · simp
    · split <;> simp

theorem splitAt_append (sep : Char) (a b : Text) :
    splitAt sep (a ++ sep :: b) = splitAt sep a ++ splitAt sep b := by
  induction a with
  | nil => simp [splitAt]
  | cons c a ih =>
    rw [List.cons_append, splitAt, splitAt, ih]
    by_cases same : c = sep
    · simp [same]
    · obtain ⟨piece, others, cut⟩ := List.exists_cons_of_ne_nil (splitAt_ne_nil sep a)
      simp [same, cut]

theorem splitAt_of_notMem {sep : Char} {s : Text} (absent : sep ∉ s) : splitAt sep s = [s] := by
  induction s with
  | nil => rfl
  | cons c s ih =>
    simp only [List.mem_cons, not_or] at absent
    rw [splitAt, if_neg (Ne.symm absent.1), ih absent.2]

theorem splitAt_joinWith {sep : Char} {pieces : List Text} (full : pieces ≠ []) (plain : ∀ piece ∈ pieces, sep ∉ piece) :
    splitAt sep (joinWith sep pieces) = pieces := by
  induction pieces with
  | nil => exact absurd rfl full
  | cons piece others ih =>
    have first := splitAt_of_notMem (plain piece List.mem_cons_self)
    cases others with
    | nil => exact first
    | cons next others =>
      have rest := ih (by simp) fun other member => plain other (List.mem_cons_of_mem piece member)
      rw [joinWith, splitAt_append, first, rest]
      · rfl
      · simp

theorem joinWith_splitAt (sep : Char) (s : Text) : joinWith sep (splitAt sep s) = s := by
  induction s with
  | nil => rfl
  | cons c s ih =>
    obtain ⟨piece, others, cut⟩ := List.exists_cons_of_ne_nil (splitAt_ne_nil sep s)
    rw [cut] at ih
    by_cases same : c = sep
    · rw [splitAt, if_pos same, cut, joinWith, ih, same, List.nil_append]
      simp
    · rw [splitAt, if_neg same, cut]
      cases others <;> simpa [joinWith] using ih

theorem mem_joinWith {sep c : Char} {piece : Text} {pieces : List Text} (listed : piece ∈ pieces) (member : c ∈ piece) :
    c ∈ joinWith sep pieces := by
  induction pieces with
  | nil => cases listed
  | cons first others ih =>
    cases others with
    | nil =>
      obtain rfl := List.mem_singleton.mp listed
      exact member
    | cons next others =>
      rw [joinWith, List.mem_append, List.mem_cons]
      · rcases List.mem_cons.mp listed with rfl | later
        · exact Or.inl member
        · exact Or.inr (Or.inr (ih later))
      · simp

theorem mem_of_mem_joinWith {sep c : Char} {pieces : List Text} (member : c ∈ joinWith sep pieces) :
    c = sep ∨ ∃ piece ∈ pieces, c ∈ piece := by
  induction pieces with
  | nil => cases member
  | cons first others ih =>
    cases others with
    | nil => exact Or.inr ⟨first, List.mem_cons_self, member⟩
    | cons next others =>
      rw [joinWith, List.mem_append, List.mem_cons] at member
      · rcases member with own | rfl | later
        · exact Or.inr ⟨first, List.mem_cons_self, own⟩
        · exact Or.inl rfl
        · exact (ih later).imp_right fun ⟨piece, listed, own⟩ => ⟨piece, List.mem_cons_of_mem first listed, own⟩
      · simp

theorem splitAt_injective (sep : Char) : Function.Injective (splitAt sep) :=
  Function.LeftInverse.injective (joinWith_splitAt sep)

theorem joinWith_append (sep : Char) {pieces others : List Text} (full : pieces ≠ []) (more : others ≠ []) :
    joinWith sep (pieces ++ others) = joinWith sep pieces ++ sep :: joinWith sep others := by
  induction pieces with
  | nil => exact absurd rfl full
  | cons piece pieces ih =>
    obtain ⟨next, rest, split⟩ := List.exists_cons_of_ne_nil more
    cases pieces with
    | nil => simp [joinWith, split]
    | cons second pieces =>
      have later := ih (by simp)
      rw [List.cons_append] at later
      simp [joinWith, later]

theorem notMem_of_mem_splitAt {sep : Char} {s piece : Text} (listed : piece ∈ splitAt sep s) : sep ∉ piece := by
  induction s generalizing piece with
  | nil =>
    rw [splitAt, List.mem_singleton] at listed
    exact listed ▸ List.not_mem_nil
  | cons c s ih =>
    obtain ⟨first, others, cut⟩ := List.exists_cons_of_ne_nil (splitAt_ne_nil sep s)
    rw [cut] at ih
    by_cases same : c = sep
    · rw [splitAt, if_pos same, cut, List.mem_cons] at listed
      rcases listed with rfl | later
      · exact List.not_mem_nil
      · exact ih later
    · rw [splitAt, if_neg same, cut] at listed
      rcases List.mem_cons.mp listed with rfl | later
      · have inFirst := ih List.mem_cons_self
        simp [Ne.symm same, inFirst]
      · exact ih (List.mem_cons_of_mem first later)

theorem splitAt_suffix_iff {sep : Char} {s rest : Text} :
    splitAt sep rest <:+ splitAt sep s ↔ rest = s ∨ ∃ front, s = front ++ sep :: rest := by
  constructor
  · rintro ⟨before, cut⟩
    by_cases none : before = []
    · rw [none, List.nil_append] at cut
      exact Or.inl (splitAt_injective sep cut)
    · have joined := joinWith_append sep none (splitAt_ne_nil sep rest)
      rw [cut, joinWith_splitAt, joinWith_splitAt] at joined
      exact Or.inr ⟨joinWith sep before, joined⟩
  · rintro (rfl | ⟨front, rfl⟩)
    · exact List.suffix_refl _
    · rw [splitAt_append]
      exact List.suffix_append ..

theorem splitAt_prefix_iff {sep : Char} {s front : Text} :
    splitAt sep front <+: splitAt sep s ↔ front = s ∨ ∃ rest, s = front ++ sep :: rest := by
  constructor
  · rintro ⟨behind, cut⟩
    by_cases none : behind = []
    · rw [none, List.append_nil] at cut
      exact Or.inl (splitAt_injective sep cut)
    · have joined := joinWith_append sep (splitAt_ne_nil sep front) none
      rw [cut, joinWith_splitAt, joinWith_splitAt] at joined
      exact Or.inr ⟨joinWith sep behind, joined⟩
  · rintro (rfl | ⟨rest, rfl⟩)
    · exact List.prefix_refl _
    · rw [splitAt_append]
      exact List.prefix_append ..

theorem splitAt_infix_iff {sep : Char} {s inner : Text} :
    splitAt sep inner <:+: splitAt sep s ↔
      ∃ rest, splitAt sep rest <:+ splitAt sep s ∧ splitAt sep inner <+: splitAt sep rest := by
  rw [List.infix_iff_prefix_suffix]
  constructor
  · rintro ⟨tail, inFront, atEnd⟩
    have full : tail ≠ [] := by
      rintro rfl
      exact splitAt_ne_nil sep inner (List.prefix_nil.mp inFront)
    have pieces : splitAt sep (joinWith sep tail) = tail :=
      splitAt_joinWith full fun piece listed => notMem_of_mem_splitAt (atEnd.subset listed)
    rw [← pieces] at inFront atEnd
    exact ⟨joinWith sep tail, atEnd, inFront⟩
  · rintro ⟨rest, atEnd, inFront⟩
    exact ⟨splitAt sep rest, inFront, atEnd⟩

theorem splitAt_unlines_append {ls : List Text} (plain : ∀ l ∈ ls, '\n' ∉ l) (s : Text) :
    splitAt '\n' (unlines ls ++ s) = ls ++ splitAt '\n' s := by
  induction ls with
  | nil => rfl
  | cons l ls ih =>
    have others := ih (fun other member => plain other (List.mem_cons_of_mem l member))
    rw [unlines_cons, List.append_assoc, List.cons_append, splitAt_append,
      splitAt_of_notMem (plain l List.mem_cons_self), others]
    rfl

theorem unlines_inj {ls ls' : List Text} (plain : ∀ l ∈ ls, '\n' ∉ l) (plain' : ∀ l ∈ ls', '\n' ∉ l)
    (same : unlines ls = unlines ls') : ls = ls' := by
  have cut := splitAt_unlines_append plain []
  rw [same, splitAt_unlines_append plain' []] at cut
  exact (List.append_cancel_right cut).symm

def countLine (l s : Text) : Nat :=
  (splitAt '\n' s).count l

variable {l : Text}

theorem countLine_append {a : Text} (full : l ≠ []) (ended : endsWithNewline a = true) (b : Text) :
    countLine l (a ++ b) = countLine l a + countLine l b := by
  obtain ⟨body, rfl⟩ := List.getLast?_eq_some_iff.mp (beq_iff_eq.mp ended)
  have alone : splitAt '\n' (body ++ ['\n']) = splitAt '\n' body ++ [[]] := splitAt_append '\n' body []
  rw [countLine, countLine, countLine, List.append_assoc, List.singleton_append, splitAt_append, alone]
  simp [Ne.symm full]

theorem countLine_unlines {ls : List Text} (full : l ≠ []) (plain : ∀ l' ∈ ls, '\n' ∉ l') :
    countLine l (unlines ls) = ls.count l := by
  have cut := splitAt_unlines_append plain []
  rw [List.append_nil] at cut
  simp [countLine, cut, splitAt, Ne.symm full]

theorem countLine_unlines_append {ls : List Text} (plain : ∀ l' ∈ ls, '\n' ∉ l') (s : Text) :
    countLine l (unlines ls ++ s) = ls.count l + countLine l s := by
  rw [countLine, countLine, splitAt_unlines_append plain, List.count_append]

theorem countLine_dropLast {s : Text} (full : l ≠ []) (ended : endsWithNewline s = true) :
    countLine l s.dropLast = countLine l s := by
  obtain ⟨body, rfl⟩ := List.getLast?_eq_some_iff.mp (beq_iff_eq.mp ended)
  have alone : splitAt '\n' (body ++ ['\n']) = splitAt '\n' body ++ [[]] := splitAt_append '\n' body []
  rw [List.dropLast_concat, countLine, countLine, alone]
  simp [Ne.symm full]

end LicenseHeaders.Text
