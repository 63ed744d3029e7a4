import LicenseHeaders.Proofs.Walking
import Mathlib.Data.List.Perm.Basic

namespace LicenseHeaders

def Node.refill (n : Node) (bytes : ByteArray) : Node :=
  match n with
  | .file _ => .file bytes
  | n => n

def Place.refill (loc : Location) (bytes : ByteArray) : Place → Place
  | .occupied l n asDirectory => .occupied l (if l = loc then n.refill bytes else n) asDirectory
  | .free l asDirectory => .free l asDirectory

namespace FileTree

variable {t : FileTree} {loc : Location} {old bytes : ByteArray}

theorem ne_nil_of_file (file : t.node? loc = some (.file old)) : loc ≠ [] := by
  rintro rfl
  simp [node?] at file

theorem node?_overwrite (file : t.node? loc = some (.file old)) (bytes : ByteArray) (l : Location) :
    (t.set loc (.file bytes)).node? l = if l = loc then some (.file bytes) else t.node? l :=
  node?_set t loc l (.file bytes) (ne_nil_of_file file)

theorem walkWith_overwrite (file : t.node? loc = some (.file old))
    {follow follow' : Location → FilePath → List Text → Except IoError Place}
    (same : ∀ l target rest, follow' l target rest = (follow l target rest).map (Place.refill loc bytes))
    (l : Location) (pieces : List Text) :
    walkWith (t.set loc (.file bytes)) follow' l pieces =
      (walkWith t follow l pieces).map (Place.refill loc bytes) := by
  induction pieces generalizing l with
  | nil =>
    simp only [walkWith, Except.map, Place.refill, Node.refill, ite_self]
  | cons piece rest ih =>
    rw [walkWith_cons, walkWith_cons, pace_set (ne_nil_of_file file) (Or.inr ⟨old, file⟩)]
    cases paced : t.pace l piece with
    | error e => rfl
    | ok p =>
      cases p with
      | onward next => exact ih next
      | away target => exact same l target rest
      | final here n =>
        -- The walk ends here, so no other piece can see the new bytes.
        obtain ⟨-, there, -⟩ := node?_of_final paced
        by_cases atLoc : here = loc
        · obtain rfl : some (Node.file old) = n := by rw [← there, atLoc, file]
          simp only [arrive, atLoc, if_true]
          split <;> simp only [Except.map, Place.refill, Node.refill, if_true]
        · simp only [if_neg atLoc]
          cases n <;> simp only [arrive] <;> split <;> simp only [Except.map, Place.refill, atLoc, if_false]

theorem walk_overwrite (file : t.node? loc = some (.file old)) (links : Nat) (l : Location) (pieces : List Text) :
    walk (t.set loc (.file bytes)) links l pieces = (walk t links l pieces).map (Place.refill loc bytes) := by
  induction links generalizing l pieces with
  | zero =>
    have stopped : (.error .tooManyLinks : Except IoError Place) =
        (Except.error .tooManyLinks).map (Place.refill loc bytes) := rfl
    rw [walk, walk]
    exact walkWith_overwrite file (fun _ _ _ => stopped) l pieces
  | succ links ih =>
    rw [walk, walk]
    exact walkWith_overwrite file (fun _ _ _ => ih _ _) l pieces

theorem resolve_overwrite (file : t.node? loc = some (.file old)) (p : FilePath) :
    (t.set loc (.file bytes)).resolve p = (t.resolve p).map (Place.refill loc bytes) := by
  unfold resolve
  split
  · rfl
  split
  · rfl
  split
  · rfl
  exact walk_overwrite file linkLimit _ _

theorem find_overwrite (file : t.node? loc = some (.file old)) (p : FilePath) :
    (t.set loc (.file bytes)).find p =
      (t.find p).map fun place => (place.1, if place.1 = loc then place.2.refill bytes else place.2) := by
  unfold find
  rw [resolve_overwrite file]
  cases t.resolve p with
  | error e => rfl
  | ok place =>
    cases place with
    | free l asDirectory => rfl
    | occupied l n asDirectory => cases asDirectory <;> rfl

theorem locate?_overwrite (file : t.node? loc = some (.file old)) (p : FilePath) :
    (t.set loc (.file bytes)).locate? p = t.locate? p := by
  unfold locate?
  rw [find_overwrite file]
  cases t.find p <;> rfl

theorem locate?_of_find {p : FilePath} {n : Node} (found : t.find p = .ok (loc, n)) : t.locate? p = some loc := by
  rw [locate?, found]
  rfl

theorem find_overwrite_of_ne (file : t.node? loc = some (.file old)) {p : FilePath}
    (elsewhere : t.locate? p ≠ some loc) : (t.set loc (.file bytes)).find p = t.find p := by
  rw [find_overwrite file]
  cases found : t.find p with
  | error e => rfl
  | ok place =>
    have ne : place.1 ≠ loc := by
      rintro rfl
      exact elsewhere (locate?_of_find found)
    simp [Except.map, ne]

theorem sink_overwrite_of_ne (file : t.node? loc = some (.file old)) {p : FilePath}
    (elsewhere : ∀ present, t.sink p ≠ .ok (.file loc present)) : (t.set loc (.file bytes)).sink p = t.sink p := by
  unfold sink at elsewhere ⊢
  rw [resolve_overwrite file]
  cases resolved : t.resolve p with
  | error e => rfl
  | ok place =>
    cases place with
    | free l asDirectory => rfl
    | occupied l n asDirectory =>
      by_cases ne : l = loc
      · subst ne
        cases asDirectory with
        | true => rfl
        | false =>
          cases n with
          | file present =>
            cases refusal : t.refusal? l with
            | some e => simp [Except.map, Place.refill, Node.refill, sinkAt, refusal]
            | none => exact absurd (by simp [resolved, sinkAt, refusal]) (elsewhere present)
          | directory | link _ | device _ => simp [Except.map, Place.refill, Node.refill]
      · simp [Except.map, Place.refill, ne]

theorem sinkAt_ok {present : ByteArray} {s : Sink} (opened : t.sinkAt loc present = .ok s) :
    s = .file loc present ∧ t.refusal? loc = none := by
  unfold sinkAt at opened
  cases refusal : t.refusal? loc with
  | some e =>
    rw [refusal] at opened
    cases opened
  | none =>
    rw [refusal] at opened
    exact ⟨(Except.ok.inj opened).symm, rfl⟩

/-- A file is opened for writing where one stands, or where there is a free place. -/
theorem resolve_of_sink {p : FilePath} {present : ByteArray} (opened : t.sink p = .ok (.file loc present)) :
    t.refusal? loc = none ∧
      (t.resolve p = .ok (.free loc false) ∧ present = .empty ∨
        t.resolve p = .ok (.occupied loc (.file present) false)) := by
  unfold sink at opened
  cases resolved : t.resolve p with
  | error e =>
    rw [resolved] at opened
    cases opened
  | ok place =>
    rw [resolved] at opened
    cases place with
    | free l asDirectory =>
      cases asDirectory with
      | true => cases opened
      | false =>
        obtain ⟨same, willing⟩ := sinkAt_ok opened
        cases same
        exact ⟨willing, Or.inl ⟨rfl, rfl⟩⟩
    | occupied l n asDirectory =>
      cases asDirectory with
      | true => cases opened
      | false =>
        cases n with
        | file found =>
          obtain ⟨same, willing⟩ := sinkAt_ok opened
          cases same
          exact ⟨willing, Or.inr rfl⟩
        | device _ | directory | link _ => cases opened

theorem ne_nil_of_sink {p : FilePath} {present : ByteArray} (opened : t.sink p = .ok (.file loc present)) :
    loc ≠ [] := by
  obtain ⟨-, ⟨free, -⟩ | occupied⟩ := resolve_of_sink opened
  · exact (resolve_sound free).1
  · exact ne_nil_of_file ((resolve_sound occupied).resolve_left (by simp))

theorem setNode_comm {l m : Location} {nodes : List (Location × Node)} (apart : l ≠ m)
    (present : nodes.lookup l ≠ none) (a b : Node) :
    setNode l a (setNode m b nodes) = setNode m b (setNode l a nodes) := by
  induction nodes with
  | nil => exact absurd rfl present
  | cons entry rest ih =>
    obtain ⟨k, n⟩ := entry
    by_cases atL : k = l
    · subst atL
      simp [setNode, apart]
    · have later : rest.lookup l ≠ none := by
        simpa [List.lookup_cons, beq_false_of_ne (Ne.symm atL)] using present
      by_cases atM : k = m
      · subst atM
        simp [setNode, Ne.symm apart]
      · simp [setNode, atL, atM, ih later]

theorem set_comm {l m : Location} {old : ByteArray} (apart : l ≠ m) (file : t.node? l = some (.file old))
    (a b : Node) : (t.set l a).set m b = (t.set m b).set l a := by
  have present : t.nodes.lookup l ≠ none := by
    intro none
    simp [node?, ne_nil_of_file file, none] at file
  simp only [set, setNode_comm apart present]

def overwrite (t : FileTree) (writes : List (Location × ByteArray)) : FileTree :=
  writes.foldl (fun t w => t.set w.1 (.file w.2)) t

theorem overwrite_cons (t : FileTree) (w : Location × ByteArray) (writes : List (Location × ByteArray)) :
    t.overwrite (w :: writes) = (t.set w.1 (.file w.2)).overwrite writes := rfl

theorem overwrite_append (t : FileTree) (writes others : List (Location × ByteArray)) :
    t.overwrite (writes ++ others) = (t.overwrite writes).overwrite others :=
  List.foldl_append

theorem refusal?_overwrite (t : FileTree) (writes : List (Location × ByteArray)) :
    (t.overwrite writes).refusal? = t.refusal? := by
  induction writes generalizing t with
  | nil => rfl
  | cons w writes ih => exact ih (t.set w.1 (.file w.2))

structure Overwrites (t : FileTree) (writes : List (Location × ByteArray)) : Prop where
  files : ∀ w ∈ writes, ∃ old, t.node? w.1 = some (.file old)
  apart : (writes.map Prod.fst).Nodup

variable {w : Location × ByteArray} {writes : List (Location × ByteArray)}

theorem Overwrites.head (ok : t.Overwrites (w :: writes)) : ∃ old, t.node? w.1 = some (.file old) :=
  ok.files w List.mem_cons_self

theorem Overwrites.ne_head (ok : t.Overwrites (w :: writes)) : ∀ v ∈ writes, v.1 ≠ w.1 := by
  intro v member same
  have fresh := (List.nodup_cons.mp ok.apart).1
  exact fresh (List.mem_map.mpr ⟨v, member, same⟩)

theorem Overwrites.tail (ok : t.Overwrites (w :: writes)) : (t.set w.1 (.file w.2)).Overwrites writes := by
  obtain ⟨old, file⟩ := ok.head
  refine ⟨?_, (List.nodup_cons.mp ok.apart).2⟩
  intro v member
  obtain ⟨present, there⟩ := ok.files v (List.mem_cons_of_mem w member)
  refine ⟨present, ?_⟩
  rw [node?_overwrite file, if_neg (ok.ne_head v member), there]

theorem Overwrites.of_perm {others : List (Location × ByteArray)} (ok : t.Overwrites writes)
    (perm : others.Perm writes) : t.Overwrites others :=
  ⟨fun v member => ok.files v (perm.subset member), (perm.map Prod.fst).nodup_iff.mpr ok.apart⟩

theorem overwrite_perm {others : List (Location × ByteArray)} (perm : others.Perm writes)
    (ok : t.Overwrites writes) : t.overwrite others = t.overwrite writes := by
  induction perm generalizing t with
  | nil => rfl
  | cons w _ ih => exact ih ok.tail
  | swap v w rest =>
    obtain ⟨old, file⟩ := ok.head
    have apart := ok.ne_head w List.mem_cons_self
    simp only [overwrite_cons, set_comm (Ne.symm apart) file]
  | trans first second ih₁ ih₂ => rw [ih₁ (ok.of_perm second), ih₂ ok]

theorem node?_overwrite_of_notMem (ok : t.Overwrites writes) {l : Location} (elsewhere : ∀ v ∈ writes, v.1 ≠ l) :
    (t.overwrite writes).node? l = t.node? l := by
  induction writes generalizing t with
  | nil => rfl
  | cons w writes ih =>
    obtain ⟨old, file⟩ := ok.head
    have later := ih ok.tail (fun v member => elsewhere v (List.mem_cons_of_mem w member))
    rw [overwrite_cons, later, node?_overwrite file, if_neg (Ne.symm (elsewhere w List.mem_cons_self))]

theorem node?_overwrite_of_mem (ok : t.Overwrites writes) (member : w ∈ writes) :
    (t.overwrite writes).node? w.1 = some (.file w.2) := by
  induction writes generalizing t with
  | nil => cases member
  | cons v writes ih =>
    obtain ⟨old, file⟩ := ok.head
    rcases List.mem_cons.mp member with rfl | later
    · have kept := node?_overwrite_of_notMem ok.tail ok.ne_head
      rw [overwrite_cons, kept, node?_overwrite file, if_pos rfl]
    · exact ih ok.tail later

theorem find_overwrite_all (ok : t.Overwrites writes) {p : FilePath}
    (elsewhere : ∀ v ∈ writes, t.locate? p ≠ some v.1) : (t.overwrite writes).find p = t.find p := by
  induction writes generalizing t with
  | nil => rfl
  | cons w writes ih =>
    obtain ⟨old, file⟩ := ok.head
    have away := elsewhere w List.mem_cons_self
    have later : ∀ v ∈ writes, (t.set w.1 (.file w.2)).locate? p ≠ some v.1 := by
      intro v member
      rw [locate?_overwrite file]
      exact elsewhere v (List.mem_cons_of_mem w member)
    have rest := ih ok.tail later
    rw [find_overwrite_of_ne file away] at rest
    exact rest

theorem sink_overwrite_all (ok : t.Overwrites writes) {p : FilePath}
    (elsewhere : ∀ v ∈ writes, ∀ present, t.sink p ≠ .ok (.file v.1 present)) :
    (t.overwrite writes).sink p = t.sink p := by
  induction writes generalizing t with
  | nil => rfl
  | cons w writes ih =>
    obtain ⟨old, file⟩ := ok.head
    have same : (t.set w.1 (.file w.2)).sink p = t.sink p :=
      sink_overwrite_of_ne file (elsewhere w List.mem_cons_self)
    have later : ∀ v ∈ writes, ∀ present, (t.set w.1 (.file w.2)).sink p ≠ .ok (.file v.1 present) := by
      rw [same]
      exact fun v member => elsewhere v (List.mem_cons_of_mem w member)
    have rest := ih ok.tail later
    rw [same] at rest
    exact rest

end FileTree

end LicenseHeaders
