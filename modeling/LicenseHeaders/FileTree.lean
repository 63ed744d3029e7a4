import LicenseHeaders.Failure
import LicenseHeaders.FilePath

namespace LicenseHeaders

abbrev Location := List Text

inductive Device
  | null
  | full
deriving DecidableEq, Repr

-- Other libraries compare byte arrays in a way of their own.
local instance (priority := 2000) decidableEqBytes : DecidableEq ByteArray :=
  ByteArray.instDecidableEq

inductive Node
  | directory
  | file (bytes : ByteArray)
  | link (target : FilePath)
  | device (d : Device)
deriving DecidableEq

structure FileTree where
  /-- The nodes below the root, at different locations. -/
  nodes : List (Location × Node)
  /-- The directory at which relative paths start. -/
  current : Location
  /-- The places that cannot be written, each with the reason. -/
  refusals : List (Location × IoError) := []

namespace FileTree

def node? (t : FileTree) (loc : Location) : Option Node :=
  if loc = [] then some .directory else t.nodes.lookup loc

def refusal? (t : FileTree) (loc : Location) : Option IoError :=
  t.refusals.lookup loc

def setNode (loc : Location) (n : Node) : List (Location × Node) → List (Location × Node)
  | [] => [(loc, n)]
  | (l, m) :: rest => if l = loc then (loc, n) :: rest else (l, m) :: setNode loc n rest

def set (t : FileTree) (loc : Location) (n : Node) : FileTree :=
  { t with nodes := setNode loc n t.nodes }

def remove (t : FileTree) (loc : Location) : FileTree :=
  { t with
    nodes := t.nodes.filter fun (l, _) => !loc.isPrefixOf l
    refusals := t.refusals.filter fun (l, _) => !loc.isPrefixOf l }

def children (t : FileTree) (loc : Location) : List (Text × Node) :=
  t.nodes.filterMap fun (l, n) =>
    match l.getLast? with
    | some name => if l.dropLast = loc then some (name, n) else none
    | none => none

theorem lookup_setNode (loc l : Location) (n : Node) (nodes : List (Location × Node)) :
    (setNode loc n nodes).lookup l = if l = loc then some n else nodes.lookup l := by
  induction nodes with
  | nil =>
    by_cases same : l = loc
    · simp [setNode, same]
    · simp [setNode, same, List.lookup_cons, beq_false_of_ne same]
  | cons entry rest ih =>
    obtain ⟨k, m⟩ := entry
    by_cases here : k = loc
    · subst here
      by_cases same : l = k
      · simp [setNode, same]
      · simp [setNode, same, List.lookup_cons, beq_false_of_ne same]
    · by_cases same : l = k
      · subst same
        simp [setNode, here]
      · simp [setNode, here, List.lookup_cons, beq_false_of_ne same, ih]

theorem node?_set (t : FileTree) (loc l : Location) (n : Node) (below : loc ≠ []) :
    (t.set loc n).node? l = if l = loc then some n else t.node? l := by
  by_cases same : l = loc
  · simp [node?, set, lookup_setNode, same, below]
  · simp [node?, set, lookup_setNode, same]

@[simp] theorem refusal?_set (t : FileTree) (loc : Location) (n : Node) : (t.set loc n).refusal? = t.refusal? := rfl

end FileTree

end LicenseHeaders
