import LicenseHeaders.Proofs.Overwriting
import LicenseHeaders.Proofs.Lines
import Mathlib.Data.List.Basic

namespace LicenseHeaders

theorem Component.key_injective : Function.Injective Component.key := by
  intro a b same
  have char : Function.Injective Char.toNat := fun c d same => Char.toNat_inj.mp same
  cases a with
  | name s =>
    cases b with
    | name r =>
      have codes : s.map Char.toNat = r.map Char.toNat := by simpa [Component.key] using same
      rw [List.map_injective_iff.mpr char codes]
    | root | here | up => simp [Component.key] at same
  | root | here | up => cases b <;> simp [Component.key] at same ⊢

namespace FilePath

theorem components_eq_of_key_eq {p q : FilePath} (same : p.key = q.key) : p.components = q.components :=
  List.map_injective_iff.mpr Component.key_injective same

theorem le_trans (p q r : FilePath) (first : p.le q = true) (second : q.le r = true) : p.le r = true :=
  Std.TransCmp.isLE_trans first second

theorem le_total (p q : FilePath) : (p.le q || q.le p) = true := by
  have swapped : List.compareLex (List.compareLex instOrdNat.compare) p.key q.key =
      (List.compareLex (List.compareLex instOrdNat.compare) q.key p.key).swap := Std.OrientedCmp.eq_swap
  rw [le, le, swapped]
  cases List.compareLex (List.compareLex instOrdNat.compare) q.key p.key <;> rfl

theorem key_eq_of_le {p q : FilePath} (first : p.le q = true) (second : q.le p = true) : p.key = q.key :=
  Std.LawfulEqCmp.eq_of_compare (Std.OrientedCmp.isLE_antisymm first second)

theorem le_of_key_eq {p q : FilePath} (same : p.key = q.key) : p.le q = true := by
  have either : p.le q = true ∨ q.le p = true := by simpa using le_total p q
  rcases either with first | second
  · exact first
  · simpa only [le, same] using second

section Sorting

variable {α : Type} (path : α → FilePath)

theorem pairwise_mergeSort (as : List α) :
    (as.mergeSort fun a b => (path a).le (path b)).Pairwise fun a b => (path a).le (path b) = true := by
  refine List.pairwise_mergeSort ?_ ?_ as
  · exact fun a b c first second => le_trans (path a) (path b) (path c) first second
  · exact fun a b => le_total (path a) (path b)

theorem cut_of_pairwise {a : α} {low high : List α}
    (sorted : (low ++ a :: high).Pairwise fun a b => (path a).le (path b) = true)
    (below : ∀ b ∈ low, (!(path a).le (path b)) = true) :
    (low ++ high).filter (fun b => !(path a).le (path b)) = low ∧
      (low ++ high).filter (fun b => (path a).le (path b)) = high := by
  have above : ∀ b ∈ high, (path a).le (path b) = true :=
    (List.pairwise_cons.mp (List.pairwise_append.mp sorted).2.1).1
  have keepLow : low.filter (fun b => !(path a).le (path b)) = low := List.filter_eq_self.mpr below
  have dropLow : low.filter (fun b => (path a).le (path b)) = [] :=
    List.filter_eq_nil_iff.mpr fun b member => by simpa using below b member
  have keepHigh : high.filter (fun b => (path a).le (path b)) = high := List.filter_eq_self.mpr above
  have dropHigh : high.filter (fun b => !(path a).le (path b)) = [] :=
    List.filter_eq_nil_iff.mpr fun b member => by simpa using above b member
  simp only [List.filter_append, keepLow, dropLow, keepHigh, dropHigh, List.append_nil, List.nil_append, and_self]

theorem filter_mergeSort (as : List α) (p : α → Bool) :
    (as.mergeSort fun a b => (path a).le (path b)).filter p =
      (as.filter p).mergeSort fun a b => (path a).le (path b) := by
  have trans (a b c : α) := le_trans (path a) (path b) (path c)
  have total (a b : α) := le_total (path a) (path b)
  induction as with
  | nil => simp
  | cons a as ih =>
    obtain ⟨low, high, whole, rest, below⟩ := List.mergeSort_cons trans total a as
    rw [rest, List.filter_append] at ih
    rw [whole]
    cases kept : p a with
    | false => simp [kept, ih]
    | true =>
      obtain ⟨low', high', whole', rest', below'⟩ := List.mergeSort_cons trans total a (as.filter p)
      have sorted := (pairwise_mergeSort path (a :: as)).filter p
      have sorted' := pairwise_mergeSort path (a :: as.filter p)
      rw [whole, List.filter_append, List.filter_cons_of_pos kept] at sorted
      rw [whole'] at sorted'
      -- Both sides put `a` at the one place in the same sorted list where it can stand.
      obtain ⟨lows, highs⟩ := cut_of_pairwise path sorted fun b member => below b (List.mem_of_mem_filter member)
      obtain ⟨lows', highs'⟩ := cut_of_pairwise path sorted' below'
      rw [ih, rest'] at lows highs
      rw [List.filter_append, List.filter_cons_of_pos kept, List.filter_cons_of_pos kept, whole', ← lows, ← highs,
        lows', highs']

theorem filter_key_mergeSort (as : List α) (k : List (List Nat)) :
    (as.mergeSort fun a b => (path a).le (path b)).filter (fun a => (path a).key == k) =
      as.filter fun a => (path a).key == k := by
  have together : (as.filter fun a => (path a).key == k).Pairwise fun a b => (path a).le (path b) = true := by
    refine List.pairwise_of_forall_mem_list fun a memberA b memberB => le_of_key_eq ?_
    have first := List.of_mem_filter memberA
    have second := List.of_mem_filter memberB
    exact (eq_of_beq first).trans (eq_of_beq second).symm
  rw [filter_mergeSort, List.mergeSort_of_pairwise together]

end Sorting

end FilePath

theorem Component.ofPiece_idle {piece : Text} (idle : FileTree.isIdle piece = true) :
    Component.ofPiece piece = none := by
  have none : piece = [] ∨ piece = ['.'] := by simpa [FileTree.isIdle] using idle
  rw [Component.ofPiece, if_pos none]

theorem Component.ofPiece_named {piece : Text} (named : FileTree.isIdle piece = false) :
    ∃ c, Component.ofPiece piece = some c ∧ c.text = piece ∧ c ≠ .root ∧ c ≠ .here := by
  have full : ¬ (piece = [] ∨ piece = ['.']) := by simpa [FileTree.isIdle] using named
  rw [Component.ofPiece, if_neg full]
  split
  · rename_i up
    exact ⟨.up, rfl, up.symm, by simp, by simp⟩
  · exact ⟨.name piece, rfl, rfl, by simp, by simp⟩

namespace FilePath

def stepsOf (pieces : List Text) : List Text :=
  pieces.filter (!FileTree.isIdle ·)

def leads (c : Component) : Bool :=
  c ≠ .root && c ≠ .here

theorem texts_of_pieces (pieces : List Text) :
    ((pieces.filterMap Component.ofPiece).filter leads).map Component.text = stepsOf pieces := by
  induction pieces with
  | nil => rfl
  | cons piece pieces ih =>
    cases idle : FileTree.isIdle piece with
    | true => simpa [stepsOf, idle, Component.ofPiece_idle idle] using ih
    | false =>
      obtain ⟨c, named, text, root, here⟩ := Component.ofPiece_named idle
      have kept : leads c = true := by simp [leads, root, here]
      simp only [stepsOf] at ih
      simp [stepsOf, idle, named, kept, text, ih]

theorem starts_unnamed (pieces : List Text) : (pieces.filterMap Component.ofPiece).head? ≠ some .root := by
  intro head
  obtain ⟨piece, -, named⟩ := List.mem_filterMap.mp (List.mem_of_head? head)
  cases idle : FileTree.isIdle piece with
  | true =>
    rw [Component.ofPiece_idle idle] at named
    cases named
  | false =>
    obtain ⟨c, same, -, root, -⟩ := Component.ofPiece_named idle
    rw [same] at named
    exact root (Option.some.inj named)

theorem texts_of_components (p : FilePath) :
    (p.components.filter leads).map Component.text = stepsOf (FileTree.piecesOf p) := by
  rw [components, List.filter_append, List.map_append, texts_of_pieces]
  unfold anchor pieces dissect FileTree.piecesOf
  split <;> simp_all [Anchor.components, leads, stepsOf, FileTree.isIdle]

theorem head_splitAt (s : Text) :
    s.head? = some '/' ↔ ∃ piece pieces, Text.splitAt '/' s = [] :: piece :: pieces := by
  cases s with
  | nil => simp [Text.splitAt]
  | cons c s =>
    obtain ⟨piece, pieces, cut⟩ := List.exists_cons_of_ne_nil (Text.splitAt_ne_nil '/' s)
    by_cases slash : c = '/' <;> simp [Text.splitAt, slash, cut]

theorem start_of_components (p : FilePath) (loc : Location) :
    FileTree.startOf p loc = if p.components.head? = some .root then [] else loc := by
  have slash := head_splitAt p.text
  unfold components anchor pieces dissect
  split
  · rename_i piece pieces cut
    rw [FileTree.startOf, if_pos (slash.mpr ⟨piece, pieces, cut⟩)]
    rfl
  · rename_i pieces cut
    have unslashed : p.text.head? ≠ some '/' := by simp [slash, cut]
    rw [FileTree.startOf, if_neg unslashed]
    rfl
  · rename_i noRoot noHere
    have unslashed : p.text.head? ≠ some '/' := by
      intro head
      obtain ⟨piece, pieces, cut⟩ := slash.mp head
      exact noRoot piece pieces cut
    rw [FileTree.startOf, if_neg unslashed, Anchor.components, List.nil_append, if_neg (starts_unnamed _)]

end FilePath

namespace FileTree

/-- Pieces of which some that name no step are left out. -/
inductive Thinned : List Text → List Text → Prop
  | nil : Thinned [] []
  | keep (piece : Text) {ps qs : List Text} (rest : Thinned ps qs) : Thinned (piece :: ps) (piece :: qs)
  | drop {piece : Text} {ps qs : List Text} (idle : isIdle piece = true) (rest : Thinned ps qs) :
      Thinned (piece :: ps) qs

theorem thinned_stepsOf (pieces : List Text) : Thinned pieces (FilePath.stepsOf pieces) := by
  induction pieces with
  | nil => exact .nil
  | cons piece pieces ih =>
    cases idle : isIdle piece with
    | true => simpa [FilePath.stepsOf, idle] using Thinned.drop idle ih
    | false => simpa [FilePath.stepsOf, idle] using Thinned.keep piece ih

theorem Thinned.append_left {ps qs : List Text} (thin : Thinned ps qs) (front : List Text) :
    Thinned (front ++ ps) (front ++ qs) := by
  induction front with
  | nil => exact thin
  | cons piece front ih => exact .keep piece ih

theorem Thinned.of_nil {qs : List Text} (thin : Thinned [] qs) : qs = [] := by
  cases thin
  rfl

variable {t : FileTree}

theorem walkWith_thinned {follow : Location → FilePath → List Text → Except IoError Place}
    (followed : ∀ l target ps qs m n, Thinned ps qs → follow l target ps = .ok (.occupied m n false) →
      follow l target qs = .ok (.occupied m n false))
    {l m : Location} {n : Node} {ps qs : List Text} (thin : Thinned ps qs)
    (reached : walkWith t follow l ps = .ok (.occupied m n false)) :
    walkWith t follow l qs = .ok (.occupied m n false) := by
  induction thin generalizing l with
  | nil => exact reached
  | drop idle _ ih =>
    rw [walkWith, if_pos idle] at reached
    exact ih reached
  | @keep piece ps qs rest ih =>
    rw [walkWith_cons]
    rcases pace_of_walkWith reached with ⟨next, paced, onward⟩ | ⟨target, paced, onward⟩ | ⟨here, found, paced, arrived⟩
    · rw [paced]
      exact ih onward
    · rw [paced]
      exact followed l target _ _ m n rest onward
    · rw [paced]
      rcases arrive_ok arrived with ⟨-, free⟩ | ⟨k, rfl, same⟩
      · cases free
      · obtain rfl : ps = [] := by simpa using (Place.occupied.inj same).2.2
        obtain rfl := rest.of_nil
        exact arrived

theorem walk_thinned {links : Nat} {l m : Location} {n : Node} {ps qs : List Text} (thin : Thinned ps qs)
    (reached : walk t links l ps = .ok (.occupied m n false)) : walk t links l qs = .ok (.occupied m n false) := by
  induction links generalizing l m n ps qs with
  | zero =>
    rw [walk] at reached ⊢
    exact walkWith_thinned (fun _ _ _ _ _ _ _ stopped => by cases stopped) thin reached
  | succ links ih =>
    rw [walk] at reached ⊢
    refine walkWith_thinned ?_ thin reached
    exact fun _ target _ _ _ _ thin followed => ih (thin.append_left (piecesOf target)) followed

theorem walk_of_locate? {p : FilePath} {loc : Location} (located : t.locate? p = some loc) :
    ∃ n, walk t linkLimit (startOf p t.current) (piecesOf p) = .ok (.occupied loc n false) := by
  unfold locate? at located
  cases found : t.find p with
  | error e =>
    rw [found] at located
    cases located
  | ok place =>
    rw [found] at located
    obtain rfl : place.1 = loc := Option.some.inj located
    exact ⟨place.2, walk_of_resolve (resolve_of_find found)⟩

/-- Two spellings of one path lead to one place, where they lead anywhere. -/
theorem locate?_of_key_eq {p q : FilePath} {l m : Location} (same : p.key = q.key)
    (first : t.locate? p = some l) (second : t.locate? q = some m) : l = m := by
  have components := FilePath.components_eq_of_key_eq same
  have start : startOf p t.current = startOf q t.current := by
    rw [FilePath.start_of_components, FilePath.start_of_components, components]
  have steps : FilePath.stepsOf (piecesOf p) = FilePath.stepsOf (piecesOf q) := by
    rw [← FilePath.texts_of_components, ← FilePath.texts_of_components, components]
  obtain ⟨n, walkP⟩ := walk_of_locate? first
  obtain ⟨n', walkQ⟩ := walk_of_locate? second
  -- The common steps of both lead where either path leads.
  have viaP := walk_thinned (thinned_stepsOf (piecesOf p)) walkP
  have viaQ := walk_thinned (thinned_stepsOf (piecesOf q)) walkQ
  rw [start, steps, viaQ] at viaP
  cases viaP
  rfl

end FileTree

end LicenseHeaders
