import LicenseHeaders.Text.Search

namespace LicenseHeaders

/-- A path, kept as it was written. -/
structure FilePath where
  text : Text
deriving DecidableEq, Repr, Inhabited

inductive Component
  | root
  | here
  | up
  | name (text : Text)
deriving DecidableEq, Repr

namespace Component

def ofPiece (piece : Text) : Option Component :=
  if piece = [] ∨ piece = ['.'] then none
  else if piece = ['.', '.'] then some .up
  else some (.name piece)

def text : Component → Text
  | .root => ['/']
  | .here => ['.']
  | .up => ['.', '.']
  | .name s => s

def key : Component → List Nat
  | .root => [0]
  | .here => [1]
  | .up => [2]
  | .name s => 3 :: s.map Char.toNat

end Component

namespace FilePath

def shown (p : FilePath) : String :=
  String.ofList p.text

instance : ToString FilePath := ⟨shown⟩

/-- Where a path starts: at the root, at the current directory by a written dot, or without either. -/
inductive Anchor
  | root
  | here
  | unwritten
deriving DecidableEq

def Anchor.components : Anchor → List Component
  | .root => [.root]
  | .here => [.here]
  | .unwritten => []

def dissect (s : Text) : Anchor × List Text :=
  match Text.splitAt '/' s with
  | [] :: piece :: pieces => (.root, piece :: pieces)
  | ['.'] :: pieces => (.here, pieces)
  | pieces => (.unwritten, pieces)

def anchor (p : FilePath) : Anchor :=
  (dissect p.text).1

def pieces (p : FilePath) : List Text :=
  (dissect p.text).2

def isAbsolute (p : FilePath) : Bool :=
  p.anchor == .root

def components (p : FilePath) : List Component :=
  p.anchor.components ++ p.pieces.filterMap Component.ofPiece

def fileName? (p : FilePath) : Option Text :=
  match p.components.getLast? with
  | some (.name s) => some s
  | _ => none

/-- Paths are ordered by their components, from the first on. -/
def key (p : FilePath) : List (List Nat) :=
  p.components.map Component.key

def le (p q : FilePath) : Bool :=
  (List.compareLex (List.compareLex instOrdNat.compare) p.key q.key).isLE

def counts (piece : Text) : Bool :=
  (Component.ofPiece piece).isSome

def trimStart (pieces : List Text) : List Text :=
  pieces.dropWhile (!counts ·)

def trimEnd (pieces : List Text) : List Text :=
  (pieces.reverse.dropWhile (!counts ·)).reverse

def assemble (a : Anchor) (pieces : List Text) : FilePath :=
  let body := Text.joinWith '/' pieces
  match a, pieces with
  | .root, _ => ⟨'/' :: body⟩
  | .here, [] => ⟨['.']⟩
  | .here, _ => ⟨'.' :: '/' :: body⟩
  | .unwritten, _ => ⟨body⟩

def dropNamed : Nat → List Text → List Text
  | 0, pieces => pieces
  | _ + 1, [] => []
  | n + 1, piece :: pieces => if counts piece then dropNamed n pieces else dropNamed (n + 1) pieces

/-- What is left of a path behind `base`, if the components of `base` are its first ones. -/
def below? (p base : FilePath) : Option FilePath :=
  if base.components.isPrefixOf p.components then
    if base.components.isEmpty then some (assemble p.anchor (trimEnd p.pieces))
    else
      let named := base.components.length - p.anchor.components.length
      some (assemble .unwritten (trimEnd (trimStart (dropNamed named p.pieces))))
  else none

/-- The path without its last component. The root and the empty path have no parent. -/
def parent? (p : FilePath) : Option FilePath :=
  match trimEnd p.pieces, p.anchor with
  | [], .root | [], .unwritten => none
  | [], .here => some ⟨[]⟩
  | pieces, anchor => some (assemble anchor (trimEnd pieces.dropLast))

def join (p q : FilePath) : FilePath :=
  if q.isAbsolute || p.text.isEmpty then q
  else if p.text.getLast? = some '/' then ⟨p.text ++ q.text⟩
  else ⟨p.text ++ '/' :: q.text⟩

/-- The steps from one place to another, once their common first steps are left out: up for every step of
the starting place, then down. A starting place with an unresolved step up leads nowhere. -/
def stepsFrom : (base target : List Component) → Option (List Component)
  | [], target => some target
  | .up :: _, _ :: _ => none
  | base, target => some (base.map (fun _ => .up) ++ target)

def steps : (base target : List Component) → Option (List Component)
  | b :: base, t :: target => if b = t then steps base target else stepsFrom (b :: base) (t :: target)
  | base, target => stepsFrom base target

def ofSteps (cs : List Component) : FilePath :=
  ⟨Text.joinWith '/' (cs.map Component.text)⟩

/-- How a path is shown: by what lies behind `base` if it lies below, else, where both start at the root, by
the steps from `base`, else as it is. -/
def shownFrom (base p : FilePath) : Text :=
  match p.below? base with
  | some rest => if rest.text.isEmpty then otherwise else rest.text
  | none => otherwise
where
  otherwise : Text :=
    if p.isAbsolute && base.isAbsolute then
      match steps base.components p.components with
      | some cs => (ofSteps cs).text
      | none => p.text
    else p.text

end FilePath

end LicenseHeaders
