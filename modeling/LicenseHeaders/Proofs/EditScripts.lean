import LicenseHeaders.LineDiff.Rendered
import Mathlib.Data.List.Basic

namespace LicenseHeaders.LineDiff

/-- What stays and goes is the one list, what stays and comes the other. -/
structure Script.Spells (s : Script) (as bs : List Text) : Prop where
  old : s.old = as
  new : s.new = bs

namespace Script

variable {s t : Script} {as bs cs ds : List Text}

theorem Spells.append (first : s.Spells as bs) (second : t.Spells cs ds) : Spells (s ++ t) (as ++ cs) (bs ++ ds) :=
  ⟨by rw [old_append, first.old, second.old], by rw [new_append, first.new, second.new]⟩

theorem spells_keepAll (ls : List Text) : Spells (keepAll ls) ls ls := by
  unfold keepAll
  cases ls with
  | nil => exact ⟨rfl, rfl⟩
  | cons l ls => constructor <;> simp [Edit.old, Edit.new]

theorem spells_replaceAll (as bs : List Text) : Spells (replaceAll as bs) as bs := by
  unfold replaceAll
  constructor
  · cases as <;> cases bs <;> simp [Edit.old]
  · cases as <;> cases bs <;> simp [Edit.new]

end Script

theorem drop_commonSuffix (as bs : List Text) :
    as.drop (as.length - commonSuffix as bs) = bs.drop (bs.length - commonSuffix as bs) := by
  have same := take_commonPrefix as.reverse bs.reverse
  rw [List.take_reverse, List.take_reverse, List.reverse_inj] at same
  exact same

theorem Middle.old_eq (as bs : List Text) : (of as bs).beginning ++ (of as bs).old ++ (of as bs).ending = as := by
  simp only [of]
  rw [List.append_assoc, List.take_append_drop, List.take_append_drop]

theorem Middle.new_eq (as bs : List Text) : (of as bs).beginning ++ (of as bs).new ++ (of as bs).ending = bs := by
  simp only [of]
  rw [take_commonPrefix, drop_commonSuffix, List.append_assoc, List.take_append_drop, List.take_append_drop]

theorem script_spells (as bs : List Text) : (script as bs).Spells as bs := by
  fun_induction script as bs with
  | case1 as bs mid body behind front =>
    -- Where the middle is cut has no part in what it spells, as long as both parts are shorter.
    have middle : body.Spells mid.old mid.new := by
      unfold body
      split
      · exact Script.spells_replaceAll ..
      · split
        · exact Script.spells_replaceAll ..
        · rename_i p _
          split
          · rename_i proper
            have whole := (behind p proper).append (front p proper)
            rwa [List.take_append_drop, List.take_append_drop] at whole
          · exact Script.spells_replaceAll ..
    have whole := ((Script.spells_keepAll mid.beginning).append middle).append (Script.spells_keepAll mid.ending)
    rwa [Middle.old_eq, Middle.new_eq] at whole

namespace Script

@[simp] theorem old_keepBefore (ls : List Text) (s : Script) : (keepBefore ls s).old = ls ++ s.old := by
  fun_cases keepBefore ls s <;> simp [Edit.old]

@[simp] theorem new_keepBefore (ls : List Text) (s : Script) : (keepBefore ls s).new = ls ++ s.new := by
  fun_cases keepBefore ls s <;> simp [Edit.new]

@[simp] theorem old_keepAfter (ls : List Text) (s : Script) : old (keepAfter ls s).reverse = old s.reverse ++ ls := by
  fun_cases keepAfter ls s <;> simp [Edit.old]

@[simp] theorem new_keepAfter (ls : List Text) (s : Script) : new (keepAfter ls s).reverse = new s.reverse ++ ls := by
  fun_cases keepAfter ls s <;> simp [Edit.new]

theorem keepSome_cases (ls : List Text) (s : Script) :
    (ls = [] ∧ keepSome ls s = s) ∨ keepSome ls s = .keep ls :: s := by
  cases ls with
  | nil => exact Or.inl ⟨rfl, rfl⟩
  | cons l ls => exact Or.inr rfl

@[simp] theorem old_keepSome (ls : List Text) (s : Script) : (keepSome ls s).old = ls ++ s.old := by
  rcases keepSome_cases ls s with ⟨rfl, same⟩ | same <;> simp [same, Edit.old]

@[simp] theorem new_keepSome (ls : List Text) (s : Script) : (keepSome ls s).new = ls ++ s.new := by
  rcases keepSome_cases ls s with ⟨rfl, same⟩ | same <;> simp [same, Edit.new]

@[simp] theorem old_keepSome_reverse (ls : List Text) (s : Script) :
    old (keepSome ls s).reverse = old s.reverse ++ ls := by
  rcases keepSome_cases ls s with ⟨rfl, same⟩ | same <;> simp [same, Edit.old]

@[simp] theorem new_keepSome_reverse (ls : List Text) (s : Script) :
    new (keepSome ls s).reverse = new s.reverse ++ ls := by
  rcases keepSome_cases ls s with ⟨rfl, same⟩ | same <;> simp [same, Edit.new]

end Script

namespace Cursor

variable {front behind : Script} {here : Edit} {as bs : List Text}

theorem spells_iff : (Cursor.mk front here behind).script.Spells as bs ↔
    Script.old front.reverse ++ here.old ++ behind.old = as ∧
      Script.new front.reverse ++ here.new ++ behind.new = bs := by
  constructor
  · rintro ⟨rfl, rfl⟩
    constructor <;> simp [script]
  · rintro ⟨rfl, rfl⟩
    constructor <;> simp [script]

theorem up_spells (spelled : (Cursor.mk front here behind).script.Spells as bs) :
    (up front here behind).script.Spells as bs := by
  fun_induction up front here behind with
  | case1 _ _ _ _ lifts | case2 _ _ _ _ lifts | case3 _ _ _ _ lifts | case4 _ _ _ _ lifts =>
    apply lifts
    rw [spells_iff] at spelled ⊢
    simpa [Edit.old, Edit.new] using spelled
  | case5 ls front ms behind n rest moved _ lifts =>
    apply lifts
    -- What is cut off the kept lines is what the insertion ends with.
    have kept : rest ++ moved = ls := List.take_append_drop ..
    have slid : ms.take (ms.length - n) ++ moved = ms := by
      unfold moved n
      rw [drop_commonSuffix, List.take_append_drop]
    rw [spells_iff, ← kept, ← slid] at spelled
    rw [spells_iff]
    simpa [Edit.old, Edit.new] using spelled
  | case6 | case7 => exact spelled

theorem down_spells (spelled : (Cursor.mk front here behind).script.Spells as bs) :
    (down behind here front).script.Spells as bs := by
  fun_induction down behind here front with
  | case1 _ _ _ _ lowers | case2 _ _ _ _ lowers | case3 _ _ _ _ lowers | case4 _ _ _ _ lowers =>
    apply lowers
    rw [spells_iff] at spelled ⊢
    simpa [Edit.old, Edit.new] using spelled
  | case5 ls behind ms front n moved rest _ lowers =>
    apply lowers
    have kept : moved ++ rest = ls := List.take_append_drop ..
    have slid : moved ++ ms.drop n = ms := by
      unfold moved n
      rw [take_commonPrefix, List.take_append_drop]
    rw [spells_iff, ← kept, ← slid] at spelled
    rw [spells_iff]
    simpa [Edit.old, Edit.new] using spelled
  | case6 | case7 => exact spelled

theorem settled_spells {c : Cursor} (spelled : c.script.Spells as bs) : c.settled.script.Spells as bs :=
  down_spells (up_spells spelled)

end Cursor

theorem settleFrom_spells {movable : Edit → Bool} {fuel : Nat} {front behind : Script} {as bs : List Text}
    (spelled : Script.Spells (front.reverse ++ behind) as bs) : (settleFrom movable fuel front behind).Spells as bs := by
  fun_induction settleFrom movable fuel front behind with
  | case1 => simpa using spelled
  | case2 => exact spelled
  | case3 fuel front e behind _ c settles =>
    apply settles
    have whole : c.script.Spells as bs := Cursor.settled_spells spelled
    simpa [Cursor.script] using whole
  | case4 fuel front e behind _ settles =>
    apply settles
    simpa using spelled

theorem compact_spells {s : Script} {as bs : List Text} (spelled : s.Spells as bs) : (compact s).Spells as bs :=
  settleFrom_spells (settleFrom_spells spelled)

end LicenseHeaders.LineDiff
