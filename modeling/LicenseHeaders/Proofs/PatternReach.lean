import LicenseHeaders.Proofs.SingleFile
import Mathlib.Tactic.Tauto

namespace LicenseHeaders

namespace Glob

variable {tokens : List Token} {s : Text} {position : Nat} {front : Option Char}

def literals (written : Text) : List Token :=
  written.map .literal

theorem matches_literals {written : Text} :
    Matches (literals written ++ tokens) s ↔ ∃ rest, s = written ++ rest ∧ Matches tokens rest := by
  induction written generalizing s with
  | nil => simp [literals]
  | cons c written ih =>
    rw [literals, List.map_cons, List.cons_append, Matches, ← literals]
    constructor
    · rintro ⟨rest, left, onward⟩
      cases s with
      | nil => cases left
      | cons d s =>
        by_cases same : d = c
        · rw [Token.rests, if_pos same, List.mem_singleton] at left
          obtain ⟨behind, rfl, matched⟩ := ih.mp onward
          exact ⟨behind, by rw [same, ← left, List.cons_append], matched⟩
        · rw [Token.rests, if_neg same] at left
          cases left
    · rintro ⟨behind, rfl, matched⟩
      exact ⟨written ++ behind, by simp [Token.rests], ih.mpr ⟨behind, rfl, matched⟩⟩

theorem matches_anyDepth : Matches (.anyDepth :: tokens) s ↔
    Matches tokens [] ∨ ∃ rest, Text.splitAt '/' rest <:+ Text.splitAt '/' s ∧ Matches tokens rest := by
  have left (rest : Text) :
      rest ∈ Token.rests .anyDepth s ↔ rest = [] ∨ Text.splitAt '/' rest <:+ Text.splitAt '/' s := by
    rw [Text.splitAt_suffix_iff]
    cases s with
    | nil => simp [Token.rests]
    | cons c s =>
      rw [Token.rests, List.mem_cons, mem_behindSlashes]
      tauto
  rw [Matches]
  constructor
  · rintro ⟨rest, listed, onward⟩
    rcases (left rest).mp listed with rfl | tail
    · exact Or.inl onward
    · exact Or.inr ⟨rest, tail, onward⟩
  · rintro (onward | ⟨rest, tail, onward⟩)
    · exact ⟨[], (left []).mpr (Or.inl rfl), onward⟩
    · exact ⟨rest, (left rest).mpr (Or.inr tail), onward⟩

/-- A pattern and the same behind a recursive wildcard match what the pattern matches from some component on. At the
very end of the text, where there is none, the wildcard asks for a match of the last component as well. -/
theorem matches_anywhere
    (covered : Matches tokens [] → ∃ rest, Text.splitAt '/' rest <:+ Text.splitAt '/' s ∧ Matches tokens rest) :
    Matches tokens s ∨ Matches (.anyDepth :: tokens) s ↔
      ∃ rest, Text.splitAt '/' rest <:+ Text.splitAt '/' s ∧ Matches tokens rest := by
  rw [matches_anyDepth]
  constructor
  · rintro (here | atEnd | later)
    · exact ⟨s, List.suffix_refl _, here⟩
    · exact covered atEnd
    · exact later
  · exact fun later => Or.inr (Or.inr later)

theorem matches_literals_below (written s : Text) :
    Matches (literals written) s ∨ Matches (literals written ++ [.literal '/', .anyDepth]) s ↔
      Text.splitAt '/' written <+: Text.splitAt '/' s := by
  have own : Matches (literals written) s ↔ written = s := by
    rw [← List.append_nil (literals written), matches_literals]
    simp [Matches, eq_comm]
  have below : Matches (literals written ++ [.literal '/', .anyDepth]) s ↔ ∃ rest, s = written ++ '/' :: rest := by
    have everything : ∀ rest, Matches [.anyDepth] rest := fun rest => matches_anyDepth.mpr (Or.inl rfl)
    have split : literals written ++ [.literal '/', .anyDepth] = literals (written ++ ['/']) ++ [.anyDepth] := by
      simp [literals]
    rw [split, matches_literals]
    simp [everything]
  rw [own, below, Text.splitAt_prefix_iff]

theorem readFrom_written {c : Char} (noOne : c ≠ '?') (noName : c ≠ '*') (noClass : c ≠ '[') (rest : Text) :
    readFrom tokens position front (c :: rest) = readFrom (.literal c :: tokens) (position + 1) (some c) rest := by
  rw [readFrom]
  · exact noOne
  · exact fun _ same => absurd same noName
  · exact fun _ same => absurd same noName
  · exact noName
  · exact noClass

theorem readFrom_plain {written : Text} (plain : IgnorePatterns.isPlain written = true) (rest : Text) :
    readFrom tokens position front (written ++ rest) =
      readFrom ((literals written).reverse ++ tokens) (position + written.length) (written.getLast?.or front) rest := by
  induction written generalizing tokens position front with
  | nil => rfl
  | cons c written ih =>
    have chars : (c ≠ '*' ∧ c ≠ '?' ∧ c ≠ '[') ∧ IgnorePatterns.isPlain written = true := by
      simpa [IgnorePatterns.isPlain, and_assoc] using plain
    obtain ⟨⟨noName, noOne, noClass⟩, others⟩ := chars
    have last : written.getLast?.or (some c) = ((c :: written).getLast?).or front := by
      cases written <;> simp [List.getLast?_cons]
    rw [List.cons_append, readFrom_written noOne noName noClass, ih others, last, List.length_cons,
      Nat.add_right_comm, Nat.add_assoc]
    simp [literals]

theorem read_plain {written : Text} (plain : IgnorePatterns.isPlain written = true) :
    Glob.read written = .ok ⟨literals written⟩ := by
  have whole : readFrom [] 0 none (written ++ []) =
      readFrom ((literals written).reverse ++ []) (0 + written.length) (written.getLast?.or none) [] :=
    readFrom_plain plain []
  rw [List.append_nil, List.append_nil] at whole
  rw [read_ok, whole, readFrom, List.reverse_reverse]

theorem read_below {written : Text} (plain : IgnorePatterns.isPlain written = true) :
    Glob.read (written ++ ['/', '*', '*']) = .ok ⟨literals written ++ [.literal '/', .anyDepth]⟩ := by
  rw [read_ok, readFrom_plain plain, readFrom_written (by decide) (by decide) (by decide)]
  simp [readFrom, pushDepth]

theorem readClass?_ne_anyDepth {rest : Text} {token : Token} (read : readClass? s = some (token, rest)) :
    token ≠ .anyDepth := by
  have closed {negated : Bool} {c : Char} {behind : Text}
      (close : readClass?.close negated c behind = some (token, rest)) : token ≠ .anyDepth := by
    unfold readClass?.close at close
    split at close
    · cases close
    · cases close
      simp
  unfold readClass? at read
  split at read
  · exact closed read
  · cases read
  · exact closed read
  · cases read

theorem pushDepth_append (more : tokens ≠ [.anyDepth]) :
    pushDepth (tokens ++ [.anyDepth]) = pushDepth tokens ++ [.anyDepth] := by
  match tokens with
  | [] => rfl
  | [.anyDepth] => exact absurd rfl more
  | .anyDepth :: _ :: _ => rfl
  | .literal _ :: _ | .anyChar :: _ | .ofClass _ _ :: _ | .anyName :: _ => rfl

theorem pushDepth_ne_lone (some : tokens ≠ []) : pushDepth tokens ≠ [.anyDepth] := by
  unfold pushDepth
  split
  · simp
  · simpa using some

theorem readFrom_behind_anyDepth {ts : List Token} (read : readFrom tokens position front s = .ok ts)
    (more : tokens ≠ [.anyDepth]) (free : tokens = [] → ¬ IgnorePatterns.anyDepth <+: s) (position' : Nat) :
    readFrom (tokens ++ [.anyDepth]) position' (some (front.getD '/')) s = .ok (.anyDepth :: ts) := by
  have at_start : ∀ {front : Option Char}, front = none ∨ front = some '/' → front.getD '/' = '/' := by
    rintro _ (rfl | rfl) <;> rfl
  -- Tokens are stacked last first, so the wildcard lies at the bottom, where only `pushDepth` may come upon it.
  fun_induction readFrom tokens position front s generalizing position' with
  | case1 =>
    cases read
    simp [readFrom]
  | case2 tokens position front rest reads =>
    rw [readFrom]
    exact reads read (by simp) (by simp) _
  | case4 tokens position front boundary =>
    cases read
    simp [readFrom, at_start boundary, pushDepth_append more]
  | case5 tokens position front boundary behind _ reads =>
    have some : tokens ≠ [] := fun none => free none (List.prefix_append ['*', '*', '/'] behind)
    have pushed : pushDepth tokens ≠ [] := pushDepth_ne_nil tokens
    have onward := reads read (pushDepth_ne_lone some) (fun none => absurd none pushed) (position' + 3)
    rw [← pushDepth_append more] at onward
    simpa [readFrom, at_start boundary] using onward
  | case8 tokens position front rest noTwo noOne reads =>
    rw [readFrom]
    · exact reads read (by simp) (by simp) _
    · exact noTwo
    · exact noOne
  | case9 tokens position front rest token behind named reads =>
    have apart : token :: tokens ≠ [.anyDepth] := fun same => readClass?_ne_anyDepth named (List.cons.inj same).1
    rw [readFrom]
    split
    · rename_i other behind' named'
      rw [named, Option.some.injEq, Prod.mk.injEq] at named'
      obtain ⟨rfl, rfl⟩ := named'
      exact reads read apart (by simp) _
    · rename_i none
      rw [named] at none
      cases none
  | case11 tokens position front c rest noOne _ _ noName noClass reads =>
    rw [readFrom_written noOne noName noClass]
    exact reads read (by simp) (by simp) _
  | case3 | case6 | case7 | case10 => cases read

theorem read_anyDepth_append {pattern : Text} {g : Glob} (read : Glob.read pattern = .ok g)
    (free : ¬ IgnorePatterns.anyDepth <+: pattern) :
    Glob.read (IgnorePatterns.anyDepth ++ pattern) = .ok ⟨.anyDepth :: g.tokens⟩ := by
  have opened :
      readFrom [] 0 none (IgnorePatterns.anyDepth ++ pattern) = readFrom [.anyDepth] 3 (some '/') pattern := by
    simp [IgnorePatterns.anyDepth, readFrom, pushDepth]
  rw [read_ok, opened]
  exact readFrom_behind_anyDepth (read_ok.mp read) (by simp) (fun _ => free) 3

end Glob

namespace IgnorePatterns

variable {root p : FilePath} {pattern s : Text} {patterns : List Text} {f : IgnorePatterns} {g : Glob}

def Catches (pattern s : Text) : Prop :=
  ∃ text ∈ expand pattern, ∃ g, Glob.read text = .ok g ∧ g.fits s = true

theorem ignores_iff (read : ofPatterns root patterns = .ok f) :
    f.ignores p = true ↔ ∃ pattern ∈ patterns, Catches pattern (subject root p) := by
  obtain ⟨rooted, globs⟩ := ofPatterns_ok.mp read
  rw [ignores, rooted, List.any_eq_true]
  constructor
  · rintro ⟨g, listed, fits⟩
    obtain ⟨text, expanded, reads⟩ := (mem_of_mapM globs g).mp listed
    obtain ⟨pattern, given, spelled⟩ := List.mem_flatMap.mp expanded
    exact ⟨pattern, given, text, spelled, g, reads, fits⟩
  · rintro ⟨pattern, given, text, spelled, g, reads, fits⟩
    have expanded : text ∈ patterns.flatMap expand := List.mem_flatMap.mpr ⟨pattern, given, spelled⟩
    exact ⟨g, (mem_of_mapM globs g).mpr ⟨text, expanded, reads⟩, fits⟩

def Valid (pattern : Text) : Prop :=
  ∀ text ∈ expand pattern, ∃ g, Glob.read text = .ok g

theorem exists_mapM_iff {texts : List Text} :
    (∃ globs, texts.mapM readGlob = .ok globs) ↔ ∀ text ∈ texts, ∃ g, Glob.read text = .ok g := by
  induction texts with
  | nil => simp [pure, Except.pure]
  | cons text texts ih =>
    rw [List.forall_mem_cons, ← ih, List.mapM_cons]
    simp only [← readGlob_ok]
    cases readGlob text <;> cases texts.mapM readGlob <;> simp [bind, Except.bind, pure, Except.pure]

theorem exists_ofPatterns_iff (root : FilePath) :
    (∃ f, ofPatterns root patterns = .ok f) ↔ ∀ pattern ∈ patterns, Valid pattern := by
  have globs : (∃ f, ofPatterns root patterns = .ok f) ↔
      ∃ globs, (patterns.flatMap expand).mapM readGlob = .ok globs := by
    constructor
    · rintro ⟨f, read⟩
      exact ⟨f.globs, (ofPatterns_ok.mp read).2⟩
    · rintro ⟨globs, read⟩
      exact ⟨⟨root, globs⟩, ofPatterns_ok.mpr ⟨rfl, read⟩⟩
  rw [globs, exists_mapM_iff]
  simp only [List.mem_flatMap, Valid]
  constructor
  · intro readable pattern given text spelled
    exact readable text ⟨pattern, given, spelled⟩
  · rintro readable text ⟨pattern, given, spelled⟩
    exact readable pattern given text spelled

theorem not_opens_with_anyDepth (plain : isPlain pattern = true) (full : pattern ≠ []) (text : Text) :
    ¬ anyDepth <+: pattern ++ text := by
  rintro ⟨rest, same⟩
  obtain ⟨c, chars, rfl⟩ := List.exists_cons_of_ne_nil full
  obtain ⟨rfl, -⟩ := List.cons.inj same
  simp [isPlain] at plain

theorem read_fits_iff {text : Text} (read : Glob.read text = .ok g) :
    (∃ h, Glob.read text = .ok h ∧ h.fits s = true) ↔ Glob.Matches g.tokens s := by
  simp [read, Glob.fits_iff]

theorem plain_globs (plain : isPlain (normal pattern) = true) (full : normal pattern ≠ []) :
    Valid pattern ∧ ∀ s, (Catches pattern s ↔ Text.splitAt '/' (normal pattern) <:+: Text.splitAt '/' s) := by
  have expanded : expand pattern = [normal pattern, anyDepth ++ normal pattern, normal pattern ++ ['/', '*', '*'],
      anyDepth ++ (normal pattern ++ ['/', '*', '*'])] := by
    simp [expand, plain]
  have free := not_opens_with_anyDepth plain full []
  rw [List.append_nil] at free
  have own := Glob.read_plain plain
  have below := Glob.read_below plain
  have deepOwn := Glob.read_anyDepth_append own free
  have deepBelow := Glob.read_anyDepth_append below (not_opens_with_anyDepth plain full ['/', '*', '*'])
  constructor
  · simp [Valid, expanded, own, below, deepOwn, deepBelow]
  · intro s
    -- The four globs are two, each of them alone and behind a recursive wildcard.
    have begins := Glob.matches_literals_below (normal pattern)
    have nowhere : ¬ Text.splitAt '/' (normal pattern) <+: Text.splitAt '/' [] := by
      rw [Text.splitAt_prefix_iff]
      simp [full]
    have ownAnywhere := Glob.matches_anywhere (s := s) fun atEnd => absurd ((begins []).mp (Or.inl atEnd)) nowhere
    have belowAnywhere := Glob.matches_anywhere (s := s) fun atEnd => absurd ((begins []).mp (Or.inr atEnd)) nowhere
    simp only [Catches, expanded, List.exists_mem_cons_iff, read_fits_iff own, read_fits_iff below,
      read_fits_iff deepOwn, read_fits_iff deepBelow, List.not_mem_nil, false_and, exists_false, or_false]
    rw [← or_assoc, ownAnywhere, belowAnywhere, ← exists_or, Text.splitAt_infix_iff]
    simp only [← and_or_left, begins]

theorem fits_last_component (read : Glob.read pattern = .ok g) (full : pattern ≠ []) (fits : g.fits [] = true) :
    ∃ rest, Text.splitAt '/' rest <:+ Text.splitAt '/' s ∧ g.fits rest = true := by
  -- Only wildcards match the empty text, and where there are no slashes these match anything.
  have wild : g.isCatchAll = true := by
    rcases g.fits_nil_iff.mp fits with none | wild
    · exact absurd (Glob.read_nil read none) full
    · exact wild
  have pieces := Text.splitAt_ne_nil '/' s
  obtain ⟨front, last, cut⟩ := (List.eq_nil_or_concat' (Text.splitAt '/' s)).resolve_left pieces
  have listed : last ∈ Text.splitAt '/' s := by simp [cut]
  have unslashed := Text.notMem_of_mem_splitAt listed
  refine ⟨last, ?_, Glob.fits_of_isCatchAll wild unslashed⟩
  rw [Text.splitAt_of_notMem unslashed, cut]
  exact List.suffix_append ..

theorem glob_globs (wild : isPlain (normal pattern) = false) (free : ¬ anyDepth <+: normal pattern)
    (read : Glob.read (normal pattern) = .ok g) :
    Valid pattern ∧ ∀ s, (Catches pattern s ↔
      ∃ rest, Text.splitAt '/' rest <:+ Text.splitAt '/' s ∧ g.fits rest = true) := by
  have expanded : expand pattern = [normal pattern, anyDepth ++ normal pattern] := by
    simp [expand, wild, free]
  have deep := Glob.read_anyDepth_append read free
  have full : normal pattern ≠ [] := by
    intro none
    rw [none] at wild
    cases wild
  constructor
  · simp [Valid, expanded, read, deep]
  · intro s
    have covered := fits_last_component read full (s := s)
    simp only [Catches, expanded, List.exists_mem_cons_iff, read_fits_iff read, read_fits_iff deep, List.not_mem_nil,
      false_and, exists_false, or_false]
    simp only [Glob.fits_iff] at covered ⊢
    exact Glob.matches_anywhere covered

theorem ofPatterns_singleton (valid : Valid pattern) (root : FilePath) :
    ∃ f, ofPatterns root [pattern] = .ok f ∧ ∀ p, f.ignores p = true ↔ Catches pattern (subject root p) := by
  have readable : ∀ given ∈ [pattern], Valid given := by simpa using valid
  obtain ⟨f, read⟩ := (exists_ofPatterns_iff root).mpr readable
  exact ⟨f, read, fun p => by simp [ignores_iff read]⟩

/-- A path below the root counts by the pieces between its slashes. A pattern without wildcards ignores it exactly if
the pieces of the pattern stand in a row among them, any other that does not open with a recursive wildcard exactly if
it matches what some piece begins, and a list exactly if one of its patterns does. -/
theorem patterns_reach_between_slashes (root : FilePath) :
    (∀ pattern, isPlain (normal pattern) = true → normal pattern ≠ [] →
      ∃ f, ofPatterns root [pattern] = .ok f ∧ ∀ p r, p.below? root = some r →
        (f.ignores p = true ↔ Text.splitAt '/' (normal pattern) <:+: Text.splitAt '/' r.text)) ∧
    (∀ pattern g, isPlain (normal pattern) = false → ¬ anyDepth <+: normal pattern →
      Glob.read (normal pattern) = .ok g →
      ∃ f, ofPatterns root [pattern] = .ok f ∧ ∀ p r, p.below? root = some r →
        (f.ignores p = true ↔ ∃ rest, Text.splitAt '/' rest <:+ Text.splitAt '/' r.text ∧ g.fits rest = true)) ∧
    ∀ patterns f, ofPatterns root patterns = .ok f → ∀ p,
      (f.ignores p = true ↔
        ∃ pattern ∈ patterns, ∃ own, ofPatterns root [pattern] = .ok own ∧ own.ignores p = true) := by
  have subject_of_below : ∀ {p r : FilePath}, p.below? root = some r → subject root p = r.text := by
    intro p r below
    rw [subject, below, Option.getD_some]
  refine ⟨?plain, ?wild, ?list⟩
  case plain =>
    intro pattern plain full
    obtain ⟨valid, catches⟩ := plain_globs plain full
    obtain ⟨f, read, own⟩ := ofPatterns_singleton valid root
    refine ⟨f, read, fun p r below => ?_⟩
    rw [own, subject_of_below below, catches]
  case wild =>
    intro pattern g wild free reads
    obtain ⟨valid, catches⟩ := glob_globs wild free reads
    obtain ⟨f, read, own⟩ := ofPatterns_singleton valid root
    refine ⟨f, read, fun p r below => ?_⟩
    rw [own, subject_of_below below, catches]
  case list =>
    intro patterns f read p
    have valid := (exists_ofPatterns_iff root).mp ⟨f, read⟩
    rw [ignores_iff read]
    constructor
    · rintro ⟨pattern, given, caught⟩
      obtain ⟨own, ownRead, ignored⟩ := ofPatterns_singleton (valid pattern given) root
      exact ⟨pattern, given, own, ownRead, (ignored p).mpr caught⟩
    · rintro ⟨pattern, given, own, ownRead, ignored⟩
      have caught := (ignores_iff ownRead).mp ignored
      exact ⟨pattern, given, by simpa using caught⟩

theorem names_and_endings_reach_every_depth :
    (∃ f, ofPatterns ⟨['r']⟩ [['l', 'i', 'b', '/']] = .ok f ∧
      f.ignores ⟨['r', '/', 'a', '/', 'l', 'i', 'b', '/', 'b', '.', 'o']⟩ = true ∧
      f.ignores ⟨['r', '/', 'a', '/', 'l', 'i', 'b', 's', '/', 'b', '.', 'o']⟩ = false) ∧
    (∃ f, ofPatterns ⟨['r']⟩ [['*', '.', 'o']] = .ok f ∧
      f.ignores ⟨['r', '/', 'l', 'i', 'b', 's', '/', 'b', '.', 'o']⟩ = true ∧
      f.ignores ⟨['r', '/', 'b', '.', 'o', 'x']⟩ = false) ∧
    (∃ f, ofPatterns ⟨['r']⟩ [['l', 'i', 'b', '/'], ['*', '.', 'o']] = .ok f ∧
      f.ignores ⟨['r', '/', 'l', 'i', 'b', 's', '/', 'b', '.', 'o']⟩ = true) := by
  obtain ⟨plain, wild, list⟩ := patterns_reach_between_slashes ⟨['r']⟩
  obtain ⟨f, read, names⟩ := plain ['l', 'i', 'b', '/'] (by decide) (by decide)
  have reads : Glob.read (normal ['*', '.', 'o']) = .ok ⟨[.anyName, .literal '.', .literal 'o']⟩ := by
    have same : normal ['*', '.', 'o'] = ['*', '.', 'o'] := rfl
    simp [same, Glob.read, Glob.readFrom, Except.map]
  obtain ⟨h, readEnding, endings⟩ := wild ['*', '.', 'o'] _ (by decide) (by decide) reads
  have caught : h.ignores ⟨['r', '/', 'l', 'i', 'b', 's', '/', 'b', '.', 'o']⟩ = true :=
    (endings _ ⟨['l', 'i', 'b', 's', '/', 'b', '.', 'o']⟩ rfl).mpr ⟨['b', '.', 'o'], by decide, by decide⟩
  have valid : ∀ given ∈ [['l', 'i', 'b', '/'], ['*', '.', 'o']], Valid given := by
    simpa using ⟨(plain_globs (by decide) (by decide)).1, (glob_globs (by decide) (by decide) reads).1⟩
  obtain ⟨both, readBoth⟩ := (exists_ofPatterns_iff ⟨['r']⟩).mpr valid
  refine ⟨⟨f, read, ?inside, ?beside⟩, ⟨h, readEnding, caught, ?longer⟩,
    ⟨both, readBoth, (list _ both readBoth _).mpr ⟨_, by simp, h, readEnding, caught⟩⟩⟩
  case inside =>
    exact (names _ ⟨['a', '/', 'l', 'i', 'b', '/', 'b', '.', 'o']⟩ rfl).mpr (by decide)
  case beside =>
    rw [Bool.eq_false_iff, ne_eq, names _ ⟨['a', '/', 'l', 'i', 'b', 's', '/', 'b', '.', 'o']⟩ rfl]
    decide
  case longer =>
    rw [Bool.eq_false_iff, ne_eq, endings _ ⟨['b', '.', 'o', 'x']⟩ rfl]
    rintro ⟨rest, tail, fits⟩
    rcases Text.splitAt_suffix_iff.mp tail with rfl | ⟨front, split⟩
    · revert fits
      decide
    · have slash : '/' ∈ front ++ '/' :: rest := by simp
      rw [← split] at slash
      revert slash
      decide

end IgnorePatterns

end LicenseHeaders
