import LicenseHeaders.IgnorePatterns
import Mathlib.Data.List.Basic

namespace LicenseHeaders

namespace Glob

def Matches : List Token → Text → Prop
  | [], s => s = []
  | token :: tokens, s => ∃ rest ∈ token.rests s, Matches tokens rest

def Token.isWild : Token → Bool
  | .anyName | .anyDepth => true
  | .literal _ | .anyChar | .ofClass _ _ => false

variable {tokens : List Token} {s : Text}

theorem nil_mem_restsAfter {texts : List Text} : [] ∈ restsAfter tokens texts ↔ ∃ s ∈ texts, Matches tokens s := by
  induction tokens generalizing texts with
  | nil => simp [restsAfter, Matches]
  | cons token tokens ih =>
    rw [restsAfter, ih]
    simp only [List.mem_eraseDups, List.mem_flatMap, Matches]
    constructor
    · rintro ⟨rest, ⟨s, listed, left⟩, onward⟩
      exact ⟨s, listed, rest, left, onward⟩
    · rintro ⟨s, listed, rest, left, onward⟩
      exact ⟨rest, ⟨s, listed, left⟩, onward⟩

theorem fits_iff (g : Glob) (s : Text) : g.fits s = true ↔ Matches g.tokens s := by
  have alone : Matches g.tokens s ↔ ∃ r ∈ [s], Matches g.tokens r := by simp
  rw [alone, ← nil_mem_restsAfter, fits, List.any_eq_true]
  simp [List.isEmpty_iff]

theorem rests_nil (token : Token) : token.rests [] = if token.isWild then [[]] else [] := by
  cases token <;> rfl

theorem matches_nil : Matches tokens [] ↔ ∀ token ∈ tokens, token.isWild = true := by
  induction tokens with
  | nil => simp [Matches]
  | cons token tokens ih =>
    rw [Matches, rests_nil, List.forall_mem_cons, ← ih]
    cases token.isWild <;> simp

theorem mem_behindSlashes {s rest : Text} :
    rest ∈ Token.rests.behindSlashes s ↔ rest = [] ∨ ∃ front, s = front ++ '/' :: rest := by
  induction s with
  | nil => simp [Token.rests.behindSlashes]
  | cons c s ih =>
    have deeper : (∃ front, c :: s = front ++ '/' :: rest) ↔
        (c = '/' ∧ s = rest) ∨ ∃ front, s = front ++ '/' :: rest := by
      constructor
      · rintro ⟨front, split⟩
        cases front with
        | nil => exact Or.inl (List.cons.inj split)
        | cons d front => exact Or.inr ⟨front, (List.cons.inj split).2⟩
      · rintro (⟨rfl, rfl⟩ | ⟨front, rfl⟩)
        · exact ⟨[], rfl⟩
        · exact ⟨c :: front, rfl⟩
    rw [deeper, Token.rests.behindSlashes]
    by_cases slash : c = '/'
    · rw [if_pos slash, List.mem_cons, ih]
      constructor
      · rintro (rfl | none | onward)
        · exact Or.inr (Or.inl ⟨slash, rfl⟩)
        · exact Or.inl none
        · exact Or.inr (Or.inr onward)
      · rintro (none | ⟨-, rfl⟩ | onward)
        · exact Or.inr (Or.inl none)
        · exact Or.inl rfl
        · exact Or.inr (Or.inr onward)
    · rw [if_neg slash, ih]
      simp [slash]

theorem nil_mem_rests {token : Token} (wild : token.isWild = true) (unslashed : '/' ∉ s) : [] ∈ token.rests s := by
  cases token with
  | literal _ | anyChar | ofClass _ _ => cases wild
  | anyName =>
    induction s with
    | nil => simp [Token.rests]
    | cons c s ih =>
      have apart : c ≠ '/' := fun same => unslashed (same ▸ List.mem_cons_self)
      have rest := ih (fun later => unslashed (List.mem_cons_of_mem c later))
      rw [Token.rests, if_neg apart]
      exact List.mem_cons_of_mem _ rest
  | anyDepth =>
    cases s with
    | nil => simp [Token.rests]
    | cons c s => exact List.mem_cons_of_mem _ (mem_behindSlashes.mpr (Or.inl rfl))

def isCatchAll (g : Glob) : Bool :=
  !g.tokens.isEmpty && g.tokens.all Token.isWild

theorem fits_of_isCatchAll {g : Glob} (wild : g.isCatchAll = true) (unslashed : '/' ∉ s) : g.fits s = true := by
  rw [fits_iff]
  obtain ⟨tokens⟩ := g
  cases tokens with
  | nil => cases wild
  | cons token tokens =>
    have all : token.isWild = true ∧ ∀ token ∈ tokens, token.isWild = true := by simpa [isCatchAll] using wild
    exact ⟨[], nil_mem_rests all.1 unslashed, matches_nil.mpr all.2⟩

theorem fits_nil_iff (g : Glob) : g.fits [] = true ↔ g.tokens = [] ∨ g.isCatchAll = true := by
  rw [fits_iff, matches_nil]
  obtain ⟨tokens⟩ := g
  cases tokens <;> simp [isCatchAll]

theorem pushDepth_ne_nil (tokens : List Token) : pushDepth tokens ≠ [] := by
  unfold pushDepth
  split <;> simp

theorem readFrom_nil {position : Nat} {front : Option Char} (read : readFrom tokens position front s = .ok []) :
    tokens = [] ∧ s = [] := by
  fun_induction readFrom tokens position front s with
  | case1 => simpa using read
  | case2 | case8 | case9 | case11 =>
    rename_i pushed
    exact absurd (pushed read).1 (List.cons_ne_nil _ _)
  | case4 => exact absurd (List.reverse_eq_nil_iff.mp (Except.ok.inj read)) (pushDepth_ne_nil _)
  | case5 =>
    rename_i pushed
    exact absurd (pushed read).1 (pushDepth_ne_nil _)
  | case3 | case6 | case7 | case10 => cases read

theorem read_ok {pattern : Text} {g : Glob} :
    Glob.read pattern = .ok g ↔ readFrom [] 0 none pattern = .ok g.tokens := by
  unfold Glob.read
  obtain ⟨tokens⟩ := g
  cases readFrom [] 0 none pattern <;> simp [Except.map]

theorem read_nil {pattern : Text} {g : Glob} (read : Glob.read pattern = .ok g) (none : g.tokens = []) :
    pattern = [] := by
  have reads := read_ok.mp read
  rw [none] at reads
  exact (readFrom_nil reads).2

theorem read_anyDepth : Glob.read IgnorePatterns.anyDepth = .ok ⟨[.anyDepth]⟩ := by
  simp [Glob.read, IgnorePatterns.anyDepth, readFrom, pushDepth, Except.map]

end Glob

namespace IgnorePatterns

theorem eq_nil_of_mem_expand {pattern : Text} (empty : [] ∈ expand pattern) : normal pattern = [] := by
  unfold expand at empty
  simp only at empty
  split at empty
  · simpa [anyDepth] using empty
  · split at empty
    · simpa using empty
    · simpa [anyDepth] using empty

theorem anyDepth_mem_expand {pattern : Text} (empty : [] ∈ expand pattern) : anyDepth ∈ expand pattern := by
  have none := eq_nil_of_mem_expand empty
  have plain : isPlain [] = true := rfl
  simp [expand, none, plain]

def catchesAll (f : IgnorePatterns) : Bool :=
  f.globs.any Glob.isCatchAll

variable {root : FilePath} {patterns : List Text} {f : IgnorePatterns}

theorem fits_of_catchesAll {s : Text} (wild : f.catchesAll = true) (unslashed : '/' ∉ s) :
    ∃ g ∈ f.globs, g.fits s = true := by
  obtain ⟨g, listed, caught⟩ := List.any_eq_true.mp wild
  exact ⟨g, listed, Glob.fits_of_isCatchAll caught unslashed⟩

theorem readGlob_ok {pattern : Text} {g : Glob} : readGlob pattern = .ok g ↔ Glob.read pattern = .ok g := by
  unfold readGlob
  cases Glob.read pattern <;> simp [Except.mapError]

theorem mem_of_mapM {texts : List Text} {globs : List Glob} (read : texts.mapM readGlob = .ok globs) (g : Glob) :
    g ∈ globs ↔ ∃ text ∈ texts, Glob.read text = .ok g := by
  induction texts generalizing globs with
  | nil =>
    cases read
    simp
  | cons text texts ih =>
    rw [List.mapM_cons] at read
    cases first : readGlob text with
    | error e =>
      rw [first] at read
      cases read
    | ok h =>
      cases others : texts.mapM readGlob with
      | error e =>
        rw [first, others] at read
        cases read
      | ok hs =>
        rw [first, others] at read
        cases read
        have same : g = h ↔ Glob.read text = .ok g := by
          rw [readGlob_ok.mp first, Except.ok.injEq, eq_comm]
        rw [List.mem_cons, ih others, same, List.exists_mem_cons_iff]

theorem ofPatterns_ok : ofPatterns root patterns = .ok f ↔
    f.root = root ∧ (patterns.flatMap expand).mapM readGlob = .ok f.globs := by
  unfold ofPatterns
  cases (patterns.flatMap expand).mapM readGlob with
  | error e => simp [Except.map]
  | ok globs =>
    obtain ⟨r, gs⟩ := f
    simp [Except.map, eq_comm]

theorem ofPatterns_of_root (read : ofPatterns root patterns = .ok f) (other : FilePath) :
    ofPatterns other patterns = .ok ⟨other, f.globs⟩ :=
  ofPatterns_ok.mpr ⟨rfl, (ofPatterns_ok.mp read).2⟩

theorem any_fits_nil (read : ofPatterns root patterns = .ok f) : f.globs.any (·.fits []) = f.catchesAll := by
  have listed := mem_of_mapM (ofPatterns_ok.mp read).2
  rw [Bool.eq_iff_iff, catchesAll, List.any_eq_true, List.any_eq_true]
  constructor
  · rintro ⟨g, member, fits⟩
    rcases g.fits_nil_iff.mp fits with none | wild
    · -- Only the empty pattern leaves no token, and it stands for any directory as well.
      obtain ⟨text, expanded, reads⟩ := (listed g).mp member
      obtain rfl := Glob.read_nil reads none
      obtain ⟨pattern, given, empty⟩ := List.mem_flatMap.mp expanded
      have deep : anyDepth ∈ patterns.flatMap expand :=
        List.mem_flatMap.mpr ⟨pattern, given, anyDepth_mem_expand empty⟩
      exact ⟨⟨[.anyDepth]⟩, (listed _).mpr ⟨anyDepth, deep, Glob.read_anyDepth⟩, rfl⟩
    · exact ⟨g, member, wild⟩
  · rintro ⟨g, member, wild⟩
    exact ⟨g, member, g.fits_nil_iff.mpr (Or.inr wild)⟩

end IgnorePatterns

end LicenseHeaders
