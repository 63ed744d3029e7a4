import LicenseHeaders.IgnoreFile.Pattern

namespace LicenseHeaders.IgnoreFile

/-- A class as it is being read, the latest range first. `dashed` tells that a dash waits for the end of the
latest range. -/
structure ClassState where
  ranges : List (Char × Char)
  dashed : Bool

def ClassState.push (c : Char) (s : ClassState) : Option ClassState :=
  match s.dashed, s.ranges with
  | true, (low, _) :: others => if c < low then none else some ⟨(low, c) :: others, false⟩
  | _, ranges => some ⟨(c, c) :: ranges, false⟩

inductive ClassEnd
  | closed (ranges : List (Char × Char)) (rest : Text)
  | unclosed
  | invalid

/-- Reads a class up to its closing bracket. The first character is a member whatever it is. -/
def readMembers (first : Bool) (s : ClassState) : Text → ClassEnd
  | [] => .unclosed
  | c :: rest =>
    if c = ']' && !first then
      .closed (if s.dashed then ('-', '-') :: s.ranges else s.ranges).reverse rest
    else if c = '-' && !first && !s.dashed then readMembers false { s with dashed := true } rest
    else
      match s.push c with
      | some s => readMembers false s rest
      | none => .invalid

def readClass : Text → Bool × ClassEnd
  | '!' :: rest | '^' :: rest => (true, readMembers true ⟨[], false⟩ rest)
  | rest => (false, readMembers true ⟨[], false⟩ rest)

theorem readMembers_length {first : Bool} {s : ClassState} {t rest : Text} {ranges : List (Char × Char)}
    (closed : readMembers first s t = .closed ranges rest) : rest.length < t.length := by
  induction t generalizing first s with
  | nil => simp [readMembers] at closed
  | cons c t ih =>
    unfold readMembers at closed
    split at closed
    · cases closed
      simp
    · split at closed
      · exact Nat.lt_succ_of_lt (ih closed)
      · split at closed
        · exact Nat.lt_succ_of_lt (ih closed)
        · cases closed

theorem readClass_length {t rest : Text} {negated : Bool} {ranges : List (Char × Char)}
    (closed : readClass t = (negated, .closed ranges rest)) : rest.length < t.length := by
  unfold readClass at closed
  split at closed
  · exact Nat.lt_succ_of_lt (readMembers_length (Prod.mk.inj closed).2)
  · exact Nat.lt_succ_of_lt (readMembers_length (Prod.mk.inj closed).2)
  · exact readMembers_length (Prod.mk.inj closed).2

/-- Braces that are still open: the branches read in full and the pieces in front, the latest first. -/
structure OpenChoice where
  branches : List (List Part)
  front : List Part

structure ReadState where
  parts : List Part
  choices : List OpenChoice
  front : Option Char
  bracketsAreLiteral : Bool

namespace ReadState

def push (p : Part) (front : Char) (s : ReadState) : ReadState :=
  { s with parts := p :: s.parts, front := some front }

def openChoice (s : ReadState) : ReadState :=
  { s with parts := [], choices := ⟨[], s.parts⟩ :: s.choices, front := some '\x7b' }

def comma (s : ReadState) : ReadState :=
  match s.choices with
  | [] => s.push (.literal ',') ','
  | c :: others =>
    { s with parts := [], choices := { c with branches := s.parts.reverse :: c.branches } :: others,
             front := some ',' }

def isBlankRow (row : List Part) : Bool :=
  row.all fun
    | .choice [] => true
    | _ => false

def closeChoice? (s : ReadState) : Option ReadState :=
  match s.choices with
  | [] => none
  | c :: others =>
    let branches := (s.parts.reverse :: c.branches).reverse.filter (!isBlankRow ·)
    some { s with parts := .choice branches :: c.front, choices := others, front := some '\x7d' }

def twoNames (s : ReadState) : ReadState :=
  { s with parts := .anyName :: .anyName :: s.parts, front := some '*' }

/-- Two stars next to a slash take the place of the piece in front, unless that stands for directories
already. -/
def directories (p : Part) (front : Char) (s : ReadState) : ReadState :=
  match s.parts with
  | .leading :: _ | .trailing :: _ => { s with front := some front }
  | _ :: others => { s with parts := p :: others, front := some front }
  | [] => { s with parts := [p], front := some front }

def atBoundary (s : ReadState) : Bool :=
  s.front = some '/' || (!s.choices.isEmpty && (s.front = some ',' || s.front = some '\x7b'))

/-- Two stars in front of a slash, read together with the slash. Nothing if they only stand for names. -/
def starsAndSlash? (s : ReadState) : Option ReadState :=
  if s.parts.isEmpty then some (s.push .leading '/')
  else if s.atBoundary then some (s.directories .between '/')
  else none

def stars (rest : Text) (s : ReadState) : ReadState :=
  let branchEnds := !s.choices.isEmpty && (rest.head? = some ',' || rest.head? = some '\x7d')
  if s.parts.isEmpty then if rest.isEmpty then s.push .leading '*' else s.twoNames
  else if s.atBoundary && (rest.isEmpty || branchEnds) then s.directories .trailing '*'
  else s.twoNames

end ReadState

def readFrom (s : ReadState) (t : Text) : Option ReadState :=
  match t with
  | [] => some s
  | '*' :: '*' :: '/' :: rest =>
    match s.starsAndSlash? with
    | some s => readFrom s rest
    | none => readFrom s.twoNames ('/' :: rest)
  | '*' :: '*' :: rest => readFrom (s.stars rest) rest
  | '*' :: rest => readFrom (s.push .anyName '*') rest
  | '?' :: rest => readFrom (s.push .anyByte '?') rest
  | '\\' :: c :: rest => readFrom (s.push (.literal c) c) rest
  | ['\\'] => none
  | '[' :: rest =>
    if s.bracketsAreLiteral then readFrom (s.push (.literal '[') '[') rest
    else
      match _read : readClass rest with
      | (negated, .closed ranges behind) => readFrom (s.push (.ofClass negated ranges) ']') behind
      | (_, .unclosed) => readFrom { s.push (.literal '[') '[' with bracketsAreLiteral := true } rest
      | (_, .invalid) => none
  | '\x7b' :: rest => readFrom s.openChoice rest
  | '\x7d' :: rest =>
    match s.closeChoice? with
    | some s => readFrom s rest
    | none => none
  | ',' :: rest => readFrom s.comma rest
  | c :: rest => readFrom (s.push (.literal c) c) rest
termination_by t.length
decreasing_by
  all_goals simp_wf
  all_goals try omega
  have shorter := readClass_length _read
  omega

def readPattern? (pattern : Text) : Option (List Part) :=
  match readFrom ⟨[], [], none, false⟩ pattern with
  | some s => if s.choices.isEmpty then some s.parts.reverse else none
  | none => none

end LicenseHeaders.IgnoreFile
