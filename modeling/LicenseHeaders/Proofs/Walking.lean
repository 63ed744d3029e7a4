import LicenseHeaders.FileTree.Access

namespace LicenseHeaders

def Place.Sound (t : FileTree) : Place → Prop
  | .occupied l n _ => n = .directory ∨ t.node? l = some n
  | .free l _ => l ≠ [] ∧ t.node? l = none

namespace FileTree

/-- Where a piece of a path leads from a directory. A walk ends at what is neither a directory nor a link. -/
inductive Pace
  | onward (next : Location)
  | away (target : FilePath)
  | final (here : Location) (n : Option Node)

def pace (t : FileTree) (l : Location) (piece : Text) : Except IoError Pace :=
  if isIdle piece then .ok (.onward l)
  else if piece = ['.', '.'] then .ok (.onward l.dropLast)
  else if longestName < piece.bytes.length then .error .nameTooLong
  else
    match t.node? (l ++ [piece]) with
    | some .directory => .ok (.onward (l ++ [piece]))
    | some (.link target) => .ok (.away target)
    | n => .ok (.final (l ++ [piece]) n)

def arrive (here : Location) (n : Option Node) (rest : List Text) : Except IoError Place :=
  match n with
  | none => if rest.all List.isEmpty then .ok (.free here (!rest.isEmpty)) else .error .notFound
  | some n => if rest.all List.isEmpty then .ok (.occupied here n (!rest.isEmpty)) else .error .notDirectory

variable {t : FileTree} {loc l : Location} {bytes : ByteArray} {piece : Text} {rest : List Text} {place : Place}
  {here : Location} {found : Option Node} {follow : Location → FilePath → List Text → Except IoError Place}

theorem walkWith_cons (t : FileTree) (follow : Location → FilePath → List Text → Except IoError Place) (l : Location)
    (piece : Text) (rest : List Text) :
    walkWith t follow l (piece :: rest) =
      match t.pace l piece with
      | .error e => .error e
      | .ok (.onward next) => walkWith t follow next rest
      | .ok (.away target) => follow l target rest
      | .ok (.final here n) => arrive here n rest := by
  simp only [walkWith, pace]
  split
  · rfl
  split
  · rfl
  split
  · rfl
  cases t.node? (l ++ [piece]) with
  | none => rfl
  | some n => cases n <;> rfl

theorem exists_pace (reached : walkWith t follow l (piece :: rest) = .ok place) : ∃ p, t.pace l piece = .ok p := by
  rw [walkWith_cons] at reached
  cases paced : t.pace l piece with
  | error e =>
    rw [paced] at reached
    cases reached
  | ok p => exact ⟨p, rfl⟩

theorem pace_of_walkWith (reached : walkWith t follow l (piece :: rest) = .ok place) :
    (∃ next, t.pace l piece = .ok (.onward next) ∧ walkWith t follow next rest = .ok place) ∨
      (∃ target, t.pace l piece = .ok (.away target) ∧ follow l target rest = .ok place) ∨
      ∃ here n, t.pace l piece = .ok (.final here n) ∧ arrive here n rest = .ok place := by
  obtain ⟨p, paced⟩ := exists_pace reached
  rw [walkWith_cons, paced] at reached
  cases p with
  | onward next => exact Or.inl ⟨next, paced, reached⟩
  | away target => exact Or.inr (Or.inl ⟨target, paced, reached⟩)
  | final here n => exact Or.inr (Or.inr ⟨here, n, paced, reached⟩)

theorem node?_of_final (paced : t.pace l piece = .ok (.final here found)) :
    here ≠ [] ∧ t.node? here = found ∧ found ≠ some .directory := by
  unfold pace at paced
  split at paced
  · cases paced
  split at paced
  · cases paced
  split at paced
  · cases paced
  split at paced
  · cases paced
  · cases paced
  · rename_i solid _
    cases paced
    exact ⟨by simp, rfl, solid⟩

theorem arrive_ok (arrived : arrive here found rest = .ok place) :
    found = none ∧ place = .free here (!rest.isEmpty) ∨ ∃ n, found = some n ∧ place = .occupied here n (!rest.isEmpty) := by
  cases found with
  | none =>
    simp only [arrive] at arrived
    split at arrived
    · exact Or.inl ⟨rfl, (Except.ok.inj arrived).symm⟩
    · cases arrived
  | some n =>
    simp only [arrive] at arrived
    split at arrived
    · exact Or.inr ⟨n, rfl, (Except.ok.inj arrived).symm⟩
    · cases arrived

theorem arrive_sound (paced : t.pace l piece = .ok (.final here found)) (arrived : arrive here found rest = .ok place) :
    place.Sound t := by
  obtain ⟨below, there, -⟩ := node?_of_final paced
  rcases arrive_ok arrived with ⟨rfl, rfl⟩ | ⟨n, rfl, rfl⟩
  · exact ⟨below, there⟩
  · exact Or.inr there

theorem walkWith_sound
    (followed : ∀ l target rest place, follow l target rest = .ok place → place.Sound t)
    {pieces : List Text} (reached : walkWith t follow l pieces = .ok place) : place.Sound t := by
  induction pieces generalizing l with
  | nil =>
    cases reached
    exact Or.inl rfl
  | cons piece rest ih =>
    rcases pace_of_walkWith reached with ⟨next, -, onward⟩ | ⟨target, -, onward⟩ | ⟨here, n, paced, arrived⟩
    · exact ih onward
    · exact followed l target rest place onward
    · exact arrive_sound paced arrived

theorem walk_sound {links : Nat} {pieces : List Text} (reached : walk t links l pieces = .ok place) :
    place.Sound t := by
  induction links generalizing l pieces place with
  | zero =>
    rw [walk] at reached
    exact walkWith_sound (fun _ _ _ _ stopped => by cases stopped) reached
  | succ links ih =>
    rw [walk] at reached
    exact walkWith_sound (fun _ _ _ _ followed => ih followed) reached

theorem walk_of_resolve {p : FilePath} (resolved : t.resolve p = .ok place) :
    walk t linkLimit (startOf p t.current) (piecesOf p) = .ok place := by
  unfold resolve at resolved
  split at resolved
  · cases resolved
  split at resolved
  · cases resolved
  split at resolved
  · cases resolved
  exact resolved

theorem resolve_sound {p : FilePath} (resolved : t.resolve p = .ok place) : place.Sound t :=
  walk_sound (walk_of_resolve resolved)

theorem resolve_of_find {p : FilePath} {n : Node} (found : t.find p = .ok (loc, n)) :
    t.resolve p = .ok (.occupied loc n false) := by
  unfold find at found
  split at found
  · cases found
  · cases found
  · rename_i m n' d resolved
    cases d with
    | true => cases found
    | false =>
      cases found
      exact resolved

theorem node?_of_find {p : FilePath} (found : t.find p = .ok (loc, .file bytes)) :
    t.node? loc = some (.file bytes) :=
  (resolve_sound (resolve_of_find found)).resolve_left (by simp)

/-- A file that is put where there was none, or another one, turns no step of a walk aside. -/
theorem pace_set (below : loc ≠ []) (solid : t.node? loc = none ∨ ∃ old, t.node? loc = some (.file old))
    (bytes : ByteArray) (l : Location) (piece : Text) :
    (t.set loc (.file bytes)).pace l piece =
      match t.pace l piece with
      | .ok (.final here n) => .ok (.final here (if here = loc then some (.file bytes) else n))
      | other => other := by
  unfold pace
  rw [node?_set t loc _ _ below]
  split
  · rfl
  split
  · rfl
  split
  · rfl
  by_cases same : l ++ [piece] = loc
  · rw [if_pos same, same]
    rcases solid with free | ⟨old, file⟩
    · rw [free]
      simp
    · rw [file]
      simp
  · rw [if_neg same]
    cases t.node? (l ++ [piece]) with
    | none => simp [same]
    | some n => cases n <;> simp [same]

end FileTree

end LicenseHeaders
