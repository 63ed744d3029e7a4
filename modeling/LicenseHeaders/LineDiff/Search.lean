import LicenseHeaders.Text.Lines

namespace LicenseHeaders

namespace LineDiff

inductive Edit
  | keep (lines : List Text)
  | delete (lines : List Text)
  | insert (lines : List Text)
deriving DecidableEq, Repr

namespace Edit

def old : Edit → List Text
  | .keep ls | .delete ls => ls
  | .insert _ => []

def new : Edit → List Text
  | .keep ls | .insert ls => ls
  | .delete _ => []

def size : Edit → Nat
  | .keep ls | .delete ls | .insert ls => ls.length

end Edit

abbrev Script := List Edit

namespace Script

def old (s : Script) : List Text :=
  s.flatMap Edit.old

def new (s : Script) : List Text :=
  s.flatMap Edit.new

@[simp] theorem old_nil : old [] = [] := rfl

@[simp] theorem new_nil : new [] = [] := rfl

@[simp] theorem old_cons (e : Edit) (s : Script) : old (e :: s) = e.old ++ old s := by
  simp [old]

@[simp] theorem new_cons (e : Edit) (s : Script) : new (e :: s) = e.new ++ new s := by
  simp [new]

@[simp] theorem old_append (s t : Script) : old (s ++ t) = old s ++ old t := by
  simp [old]

@[simp] theorem new_append (s t : Script) : new (s ++ t) = new s ++ new t := by
  simp [new]

end Script

def commonPrefix : List Text → List Text → Nat
  | a :: as, b :: bs => if a = b then commonPrefix as bs + 1 else 0
  | _, _ => 0

def commonSuffix (as bs : List Text) : Nat :=
  commonPrefix as.reverse bs.reverse

/-- How far along the old list the paths of one search reach, by diagonal. -/
structure Frontier where
  middle : Nat
  reach : Array Nat

namespace Frontier

def start (limit : Nat) : Frontier :=
  ⟨limit, Array.replicate (2 * limit + 1) 0⟩

def get (f : Frontier) (diagonal : Int) : Nat :=
  f.reach.getD (diagonal + f.middle).toNat 0

def set (f : Frontier) (diagonal : Int) (along : Nat) : Frontier :=
  { f with reach := f.reach.setIfInBounds (diagonal + f.middle).toNat along }

/-- Where a path of `edits` edits enters a diagonal: from the neighbour that reaches further. -/
def entry (f : Frontier) (edits : Nat) (diagonal : Int) : Nat :=
  if diagonal = -edits ∨ (diagonal ≠ edits ∧ f.get (diagonal - 1) < f.get (diagonal + 1)) then
    f.get (diagonal + 1)
  else f.get (diagonal - 1) + 1

end Frontier

structure Point where
  old : Nat
  new : Nat
deriving DecidableEq, Repr

def Point.onDiagonal (diagonal : Int) (along : Nat) : Point :=
  ⟨along, (along - diagonal).toNat⟩

structure Run where
  start : Point
  stop : Point

def diagonals (edits : Nat) : List Int :=
  (List.range (edits + 1)).map fun i : Nat => (edits : Int) - 2 * (i : Int)

def Frontier.advance (as bs : List Text) (edits : Nat) (meets : Int → Nat → Bool) :
    List Int → Frontier → Frontier × Option Run
  | [], f => (f, none)
  | k :: rest, f =>
    let enter := Point.onDiagonal k (f.entry edits k)
    let along := enter.old + commonPrefix (as.drop enter.old) (bs.drop enter.new)
    let f := f.set k along
    if meets k along then (f, some ⟨enter, .onDiagonal k along⟩)
    else Frontier.advance as bs edits meets rest f

/-- Searches from both ends with a growing number of edits, at most `limit` times. Where the lengths differ by an odd
number, the paths can only meet in a step of the forward search, else only in one of the backward search. -/
def searchSplit (as bs : List Text) : (limit edits : Nat) → (forward backward : Frontier) → Option Point
  | 0, _, _, _ => none
  | limit + 1, edits, forward, backward =>
    let n := as.length
    let m := bs.length
    let skew : Int := (n : Int) - m
    let odd := skew % 2 ≠ 0
    let reached (other : Frontier) (k : Int) (along : Nat) (slack : Nat) : Bool :=
      (k - skew).natAbs + slack ≤ edits && n ≤ along + other.get (skew - k)
    match Frontier.advance as bs edits (fun k along => odd && reached backward k along 1)
        (diagonals edits) forward with
    | (_, some run) => some run.start
    | (forward, none) =>
      match Frontier.advance as.reverse bs.reverse edits
          (fun k along => !odd && reached forward k along 0) (diagonals edits) backward with
      | (_, some run) => some ⟨n - run.stop.old, m - run.stop.new⟩
      | (backward, none) => searchSplit as bs limit (edits + 1) forward backward

def splitPoint (as bs : List Text) : Option Point :=
  let limit := (as.length + bs.length + 1) / 2 + 1
  searchSplit as bs limit 0 (.start limit) (.start limit)

theorem take_commonPrefix (as bs : List Text) :
    as.take (commonPrefix as bs) = bs.take (commonPrefix as bs) := by
  fun_induction commonPrefix as bs <;> simp_all

structure Middle where
  beginning : List Text
  old : List Text
  new : List Text
  ending : List Text

def Middle.of (as bs : List Text) : Middle :=
  let front := commonPrefix as bs
  let as' := as.drop front
  let bs' := bs.drop front
  let back := commonSuffix as' bs'
  ⟨as.take front, as'.take (as'.length - back), bs'.take (bs'.length - back), as'.drop (as'.length - back)⟩

def keepAll (ls : List Text) : Script :=
  if ls.isEmpty then [] else [.keep ls]

def replaceAll (as bs : List Text) : Script :=
  (if as.isEmpty then [] else [.delete as]) ++ (if bs.isEmpty then [] else [.insert bs])

theorem Middle.length_old_le (as bs : List Text) : (Middle.of as bs).old.length ≤ as.length := by
  simp only [Middle.of, List.length_take, List.length_drop]
  omega

theorem Middle.length_new_le (as bs : List Text) : (Middle.of as bs).new.length ≤ bs.length := by
  simp only [Middle.of, List.length_take, List.length_drop]
  omega

/-- The script for two lists. A split that would leave one part as large as the whole is not made. -/
def script (as bs : List Text) : Script :=
  let mid := Middle.of as bs
  let body :=
    if mid.old.isEmpty || mid.new.isEmpty then replaceAll mid.old mid.new
    else
      match splitPoint mid.old mid.new with
      | none => replaceAll mid.old mid.new
      | some p =>
        if _proper : 0 < p.old + p.new ∧ p.old ≤ mid.old.length ∧ p.new ≤ mid.new.length ∧
            p.old + p.new < mid.old.length + mid.new.length then
          script (mid.old.take p.old) (mid.new.take p.new) ++ script (mid.old.drop p.old) (mid.new.drop p.new)
        else replaceAll mid.old mid.new
  keepAll mid.beginning ++ body ++ keepAll mid.ending
termination_by as.length + bs.length
decreasing_by
  all_goals
    have := Middle.length_old_le as bs
    have := Middle.length_new_le as bs
    simp only [mid, List.length_take, List.length_drop] at *
    omega

end LineDiff

end LicenseHeaders
