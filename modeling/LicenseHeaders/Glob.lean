import LicenseHeaders.Text.Search

namespace LicenseHeaders

namespace Glob

inductive Member
  | single (c : Char)
  | range (low high : Char)
deriving DecidableEq, Repr

def Member.holds (c : Char) : Member → Bool
  | .single d => c == d
  | .range low high => low ≤ c && c ≤ high

inductive Token
  | literal (c : Char)
  | anyChar
  | ofClass (negated : Bool) (members : List Member)
  | anyName
  | anyDepth
deriving DecidableEq, Repr

inductive Fault
  | badWildcards
  | partialComponent
  | badClass
deriving DecidableEq, Repr

structure SyntaxFault where
  position : Nat
  fault : Fault
deriving DecidableEq, Repr

def Fault.message : Fault → String
  | .badWildcards => "wildcards are either regular `*` or recursive `**`"
  | .partialComponent => "recursive wildcards must form a single path component"
  | .badClass => "invalid range pattern"

def SyntaxFault.message (e : SyntaxFault) : String :=
  s!"Pattern syntax error near position {e.position}: {e.fault.message}"

def members : Text → List Member
  | low :: '-' :: high :: rest => .range low high :: members rest
  | c :: rest => .single c :: members rest
  | [] => []

/-- A class behind its opening bracket, and what follows it. Its first character, past a mark of negation,
is a member even if it is a closing bracket. -/
def readClass? (s : Text) : Option (Token × Text) :=
  match s with
  | '!' :: c :: rest => close true c rest
  | ['!'] => none
  | c :: rest => close false c rest
  | [] => none
where
  close (negated : Bool) (c : Char) (rest : Text) : Option (Token × Text) :=
    match rest.dropWhile (· ≠ ']') with
    | [] => none
    | _ :: behind => some (.ofClass negated (members (c :: rest.takeWhile (· ≠ ']'))), behind)

theorem readClass?_length {s rest : Text} {token : Token} (read : readClass? s = some (token, rest)) :
    rest.length < s.length := by
  have closed : ∀ {negated c behind}, readClass?.close negated c behind = some (token, rest) →
      rest.length < behind.length := by
    intro negated c behind h
    have tail : behind.dropWhile (fun d : Char => decide (d ≠ ']')) <:+ behind := List.dropWhile_suffix _
    have bound := tail.length_le
    unfold readClass?.close at h
    split at h
    · cases h
    · rename_i first tail found
      cases h
      rw [found, List.length_cons] at bound
      omega
  unfold readClass? at read
  split at read
  · have := closed read
    simp only [List.length_cons]
    omega
  · cases read
  · have := closed read
    simp only [List.length_cons]
    omega
  · cases read

/-- Two recursive wildcards in a row count as one, unless the first opens the pattern. -/
def pushDepth (tokens : List Token) : List Token :=
  match tokens with
  | .anyDepth :: _ :: _ => tokens
  | _ => .anyDepth :: tokens

def readFrom (tokens : List Token) (position : Nat) (front : Option Char) (s : Text) :
    Except SyntaxFault (List Token) :=
  match s with
  | [] => .ok tokens.reverse
  | '?' :: rest => readFrom (.anyChar :: tokens) (position + 1) (some '?') rest
  | '*' :: '*' :: '*' :: _ => .error ⟨position + 2, .badWildcards⟩
  | '*' :: '*' :: rest =>
    if front = none ∨ front = some '/' then
      match rest with
      | [] => .ok (pushDepth tokens).reverse
      | '/' :: behind => readFrom (pushDepth tokens) (position + 3) (some '/') behind
      | _ :: _ => .error ⟨position + 2, .partialComponent⟩
    else .error ⟨position - 1, .partialComponent⟩
  | '*' :: rest => readFrom (.anyName :: tokens) (position + 1) (some '*') rest
  | '[' :: rest =>
    match _read : readClass? rest with
    | some (token, behind) =>
      readFrom (token :: tokens) (position + 1 + (rest.length - behind.length)) (some ']') behind
    | none => .error ⟨position, .badClass⟩
  | c :: rest => readFrom (.literal c :: tokens) (position + 1) (some c) rest
termination_by s.length
decreasing_by
  all_goals simp_wf
  all_goals try omega
  have shorter := readClass?_length _read
  omega

/-- What may be left of a text behind the part that a token matches. -/
def Token.rests : Token → Text → List Text
  | .literal d, c :: s => if c = d then [s] else []
  | .anyChar, c :: s => if c = '/' then [] else [s]
  | .ofClass negated ms, c :: s => if c ≠ '/' ∧ (ms.any (·.holds c)) ≠ negated then [s] else []
  | .anyName, c :: s => (c :: s) :: if c = '/' then [] else Token.rests .anyName s
  | .anyDepth, c :: s => (c :: s) :: behindSlashes (c :: s)
  | .anyName, [] | .anyDepth, [] => [[]]
  | _, [] => []
where
  behindSlashes : Text → List Text
    | [] => [[]]
    | c :: s => if c = '/' then s :: behindSlashes s else behindSlashes s

end Glob

structure Glob where
  tokens : List Glob.Token
deriving DecidableEq, Repr

namespace Glob

def read (pattern : Text) : Except SyntaxFault Glob :=
  (readFrom [] 0 none pattern).map Glob.mk

def restsAfter : List Token → List Text → List Text
  | [], texts => texts
  | t :: tokens, texts => restsAfter tokens (texts.flatMap t.rests).eraseDups

def fits (g : Glob) (s : Text) : Bool :=
  (restsAfter g.tokens [s]).any List.isEmpty

end Glob

end LicenseHeaders
