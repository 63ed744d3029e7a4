import LicenseHeaders.FilePath
import LicenseHeaders.LineDiff.Search

namespace LicenseHeaders

namespace LineDiff

/-- An edit in the middle of a script. The edits in front of it are listed from the nearest on. -/
structure Cursor where
  front : List Edit
  here : Edit
  behind : List Edit

namespace Cursor

def script (c : Cursor) : Script :=
  c.front.reverse ++ c.here :: c.behind

end Cursor

namespace Script

def weight : Script → Nat
  | [] => 0
  | e :: s => e.size + 1 + weight s

theorem weight_cons (e : Edit) (s : Script) : weight (e :: s) = e.size + 1 + weight s :=
  rfl

def keepBefore (ls : List Text) : Script → Script
  | .keep ms :: rest => .keep (ls ++ ms) :: rest
  | s => .keep ls :: s

def keepAfter (ls : List Text) : Script → Script
  | .keep ms :: rest => .keep (ms ++ ls) :: rest
  | s => .keep ls :: s

def keepSome (ls : List Text) (s : Script) : Script :=
  if ls.isEmpty then s else .keep ls :: s

theorem weight_keepSome_le (ls : List Text) (s : Script) :
    weight (keepSome ls s) ≤ ls.length + 1 + weight s := by
  unfold keepSome
  split
  · omega
  · simp [weight_cons, Edit.size]

end Script

namespace Cursor

def up : (front : Script) → (here : Edit) → (behind : Script) → Cursor
  | .insert ls :: front, .insert ms, behind => up front (.insert (ls ++ ms)) behind
  | .delete ls :: front, .delete ms, behind => up front (.delete (ls ++ ms)) behind
  | .delete ls :: front, .insert ms, behind => up front (.insert ms) (.delete ls :: behind)
  | .insert ls :: front, .delete ms, behind => up front (.delete ms) (.insert ls :: behind)
  | .keep ls :: front, .insert ms, behind =>
    let n := commonSuffix ls ms
    let rest := ls.take (ls.length - n)
    let moved := ls.drop (ls.length - n)
    if _slides : rest.length < ls.length then
      up (Script.keepSome rest front) (.insert (moved ++ ms.take (ms.length - n)))
        (Script.keepBefore moved behind)
    else ⟨.keep ls :: front, .insert ms, behind⟩
  | front, here, behind => ⟨front, here, behind⟩
termination_by front => Script.weight front
decreasing_by
  all_goals simp only [Script.weight_cons, Edit.size]
  all_goals try omega
  exact Nat.lt_of_le_of_lt (Script.weight_keepSome_le _ _) (by simp only [rest, n] at _slides; omega)

def down : (behind : Script) → (here : Edit) → (front : Script) → Cursor
  | .insert ls :: behind, .insert ms, front => down behind (.insert (ms ++ ls)) front
  | .delete ls :: behind, .delete ms, front => down behind (.delete (ms ++ ls)) front
  | .delete ls :: behind, .insert ms, front => down behind (.insert ms) (.delete ls :: front)
  | .insert ls :: behind, .delete ms, front => down behind (.delete ms) (.insert ls :: front)
  | .keep ls :: behind, .insert ms, front =>
    let n := commonPrefix ls ms
    let moved := ls.take n
    let rest := ls.drop n
    if _slides : rest.length < ls.length then
      down (Script.keepSome rest behind) (.insert (ms.drop n ++ moved)) (Script.keepAfter moved front)
    else ⟨front, .insert ms, .keep ls :: behind⟩
  | behind, here, front => ⟨front, here, behind⟩
termination_by behind => Script.weight behind
decreasing_by
  all_goals simp only [Script.weight_cons, Edit.size]
  all_goals try omega
  exact Nat.lt_of_le_of_lt (Script.weight_keepSome_le _ _) (by simp only [rest, n] at _slides; omega)

def settled (c : Cursor) : Cursor :=
  let lifted := up c.front c.here c.behind
  down lifted.behind lifted.here lifted.front

end Cursor

/-- Settles every edit that `movable` picks, in at most `fuel` steps. No step leaves more behind the cursor than
was behind it before. -/
def settleFrom (movable : Edit → Bool) : (fuel : Nat) → (front behind : Script) → Script
  | _, front, [] => front.reverse
  | 0, front, behind => front.reverse ++ behind
  | fuel + 1, front, e :: behind =>
    if movable e then
      let c := (Cursor.mk front e behind).settled
      settleFrom movable fuel (c.here :: c.front) c.behind
    else settleFrom movable fuel (e :: front) behind

def settle (movable : Edit → Bool) (s : Script) : Script :=
  settleFrom movable (Script.weight s) [] s

namespace Edit

def isDelete : Edit → Bool
  | .delete _ => true
  | .keep _ | .insert _ => false

def isInsert : Edit → Bool
  | .insert _ => true
  | .keep _ | .delete _ => false

end Edit

/-- Deletions settle first, then insertions. -/
def compact (s : Script) : Script :=
  settle Edit.isInsert (settle Edit.isDelete s)

inductive Sign
  | kept
  | deleted
  | inserted
deriving DecidableEq, Repr

def Sign.mark : Sign → Char
  | .kept => ' '
  | .deleted => '-'
  | .inserted => '+'

structure Change where
  sign : Sign
  line : Text
deriving DecidableEq, Repr

def changesAfter (deleted inserted : List Text) : Script → List Change
  | [] => deleted.map (⟨.deleted, ·⟩) ++ inserted.map (⟨.inserted, ·⟩)
  | .delete ls :: rest => changesAfter (deleted ++ ls) inserted rest
  | .insert ls :: rest => changesAfter deleted (inserted ++ ls) rest
  | .keep ls :: rest =>
    deleted.map (⟨.deleted, ·⟩) ++ inserted.map (⟨.inserted, ·⟩) ++ ls.map (⟨.kept, ·⟩) ++
      changesAfter [] [] rest

def changes (old new : Text) : List Change :=
  changesAfter [] [] (compact (script old.terminatedLines new.terminatedLines))

def Change.text (c : Change) : Text :=
  c.sign.mark :: c.line ++ if c.line.isTerminated then [] else ['\n']

def render (p : FilePath) (old new : Text) : Text :=
  "Diff for ".toList ++ p.text ++ [':', '\n'] ++ (changes old new).flatMap Change.text ++ ['\n']

end LineDiff

end LicenseHeaders
