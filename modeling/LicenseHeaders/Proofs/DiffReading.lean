import LicenseHeaders.Proofs.EditScripts

namespace LicenseHeaders

namespace Text

def completed (s : Text) : Text :=
  if s = [] ∨ s.isTerminated = true then s else s ++ ['\n']

inductive IsEnded : Text → Prop
  | newline : IsEnded ['\n']
  | carriageReturn : IsEnded ['\r']
  | both : IsEnded ['\r', '\n']
  | cons {c : Char} {l : Text} (noNewline : c ≠ '\n') (noReturn : c ≠ '\r') (rest : IsEnded l) : IsEnded (c :: l)

variable {s l rest : Text} {c : Char}

theorem terminatedLines_cons (noNewline : c ≠ '\n') (noReturn : c ≠ '\r') {others : List Text}
    (lines : terminatedLines s = l :: others) : terminatedLines (c :: s) = (c :: l) :: others := by
  rw [terminatedLines, lines]
  · exact fun _ same => absurd same noReturn
  · exact noReturn
  · exact noNewline

theorem IsEnded.terminatedLines_append (ended : IsEnded l) (apart : rest.head? ≠ some '\n') :
    terminatedLines (l ++ rest) = l :: terminatedLines rest := by
  induction ended with
  | newline | both => rfl
  | carriageReturn =>
    rw [List.singleton_append, terminatedLines]
    rintro rest rfl
    exact apart rfl
  | cons noNewline noReturn _ ih => exact terminatedLines_cons noNewline noReturn ih

theorem completed_cons (noNewline : c ≠ '\n') (noReturn : c ≠ '\r') :
    completed (c :: s) = if s = [] then [c, '\n'] else c :: completed s := by
  by_cases empty : s = []
  · simp [empty, completed, isTerminated, noNewline, noReturn]
  · rw [if_neg empty, completed, completed, isTerminated, List.getLast?_cons_of_ne_nil empty, ← isTerminated]
    by_cases ended : s.isTerminated = true <;> simp [empty, ended]

theorem completed_append (ended : l.isTerminated = true) (s : Text) : completed (l ++ s) = l ++ completed s := by
  by_cases empty : s = []
  · simp [empty, completed, ended]
  · rw [completed, completed, isTerminated, List.getLast?_append_of_ne_nil _ empty, ← isTerminated]
    by_cases endedToo : s.isTerminated = true <;> simp [empty, endedToo]

theorem terminatedLines_eq_nil : terminatedLines s = [] ↔ s = [] := by
  constructor
  · intro none
    rw [← flatten_terminatedLines s, none, List.flatten_nil]
  · rintro rfl
    rfl

theorem full_of_mem_terminatedLines (line : l ∈ terminatedLines s) : l ≠ [] ∧ IsEnded l.completed := by
  fun_induction terminatedLines s generalizing l with
  | case1 => cases line
  | case2 rest ih =>
    rcases List.mem_cons.mp line with rfl | later
    · exact ⟨by simp, .both⟩
    · exact ih later
  | case3 rest _ ih =>
    rcases List.mem_cons.mp line with rfl | later
    · exact ⟨by simp, .carriageReturn⟩
    · exact ih later
  | case4 rest ih =>
    rcases List.mem_cons.mp line with rfl | later
    · exact ⟨by simp, .newline⟩
    · exact ih later
  | case5 c rest _ noReturn noNewline none ih =>
    rw [List.mem_singleton.mp line, completed_cons noNewline noReturn, if_pos rfl]
    exact ⟨by simp, .cons noNewline noReturn .newline⟩
  | case6 c rest _ noReturn noNewline first others lines ih =>
    rw [lines] at ih
    rcases List.mem_cons.mp line with rfl | later
    · obtain ⟨full, ended⟩ := ih List.mem_cons_self
      rw [completed_cons noNewline noReturn, if_neg full]
      exact ⟨by simp, .cons noNewline noReturn ended⟩
    · exact ih (List.mem_cons_of_mem first later)

theorem flatMap_completed (s : Text) : (terminatedLines s).flatMap completed = s.completed := by
  fun_induction terminatedLines s with
  | case1 => rfl
  | case2 rest ih =>
    rw [List.flatMap_cons, ih]
    exact (completed_append rfl rest).symm
  | case3 rest _ ih =>
    rw [List.flatMap_cons, ih]
    exact (completed_append rfl rest).symm
  | case4 rest ih =>
    rw [List.flatMap_cons, ih]
    exact (completed_append rfl rest).symm
  | case5 c rest _ noReturn noNewline none ih =>
    rw [terminatedLines_eq_nil.mp none, List.flatMap_singleton]
  | case6 c rest _ noReturn noNewline first others lines ih =>
    have inside : first ∈ terminatedLines rest := lines ▸ List.mem_cons_self
    have full := (full_of_mem_terminatedLines inside).1
    have more : rest ≠ [] := by
      intro none
      rw [none] at inside
      cases inside
    rw [lines, List.flatMap_cons] at ih
    rw [List.flatMap_cons, completed_cons noNewline noReturn, if_neg full, completed_cons noNewline noReturn,
      if_neg more, ← ih, List.cons_append]

end Text

namespace LineDiff

open Text (completed terminatedLines)

variable {cs : List Change}

theorem changesAfter_old (deleted inserted : List Text) (s : Script) :
    ((changesAfter deleted inserted s).filter (·.sign ≠ .inserted)).map Change.line = deleted ++ s.old := by
  fun_induction changesAfter deleted inserted s with
  | case1 => simp [List.filter_map, Function.comp_def]
  | case2 => simp_all [Edit.old]
  | case3 => simp_all [Edit.old]
  | case4 => simp_all [Edit.old, List.filter_map, Function.comp_def]

theorem changesAfter_new (deleted inserted : List Text) (s : Script) :
    ((changesAfter deleted inserted s).filter (·.sign ≠ .deleted)).map Change.line = inserted ++ s.new := by
  fun_induction changesAfter deleted inserted s with
  | case1 => simp [List.filter_map, Function.comp_def]
  | case2 => simp_all [Edit.new]
  | case3 => simp_all [Edit.new]
  | case4 => simp_all [Edit.new, List.filter_map, Function.comp_def]

/-- The pieces of a diff that begin with one of the marks, without their marks. -/
def said (marks body : Text) : Text :=
  ((terminatedLines body).filter fun piece => piece.head?.any (· ∈ marks)).flatMap List.tail

def AboutLines (cs : List Change) : Prop :=
  ∀ c ∈ cs, c.line ≠ [] ∧ c.line.completed.IsEnded

theorem Change.text_eq {c : Change} (full : c.line ≠ []) : c.text = c.sign.mark :: c.line.completed := by
  unfold text completed
  by_cases ended : c.line.isTerminated = true <;> simp [full, ended]

theorem isEnded_text {c : Change} (about : c.line ≠ [] ∧ c.line.completed.IsEnded) : c.text.IsEnded := by
  rw [Change.text_eq about.1]
  apply Text.IsEnded.cons
  · cases c.sign <;> decide
  · cases c.sign <;> decide
  · exact about.2

theorem terminatedLines_flatMap_text (about : AboutLines cs) :
    terminatedLines (cs.flatMap Change.text) = cs.map Change.text := by
  induction cs with
  | nil => rfl
  | cons c cs ih =>
    have first := isEnded_text (about c List.mem_cons_self)
    have others := ih fun d later => about d (List.mem_cons_of_mem c later)
    have apart : (cs.flatMap Change.text).head? ≠ some '\n' := by
      cases cs with
      | nil => simp
      | cons d cs => cases d with | mk sign line => cases sign <;> simp [Change.text, Sign.mark]
    rw [List.flatMap_cons, first.terminatedLines_append apart, others, List.map_cons]

theorem said_flatMap_text (about : AboutLines cs) (marks : Text) :
    said marks (cs.flatMap Change.text) =
      ((cs.filter (·.sign.mark ∈ marks)).map Change.line).flatMap completed := by
  rw [said, terminatedLines_flatMap_text about, List.filter_map, List.flatMap_map, List.flatMap_map]
  apply List.flatMap_congr
  intro c listed
  have full := (about c (List.mem_of_mem_filter listed)).1
  simp [Change.text_eq full]

variable (old new : Text)

theorem changes_old :
    ((changes old new).filter (·.sign ≠ .inserted)).map Change.line = terminatedLines old := by
  have spelled := compact_spells (script_spells (terminatedLines old) (terminatedLines new))
  rw [changes, changesAfter_old, spelled.old, List.nil_append]

theorem changes_new :
    ((changes old new).filter (·.sign ≠ .deleted)).map Change.line = terminatedLines new := by
  have spelled := compact_spells (script_spells (terminatedLines old) (terminatedLines new))
  rw [changes, changesAfter_new, spelled.new, List.nil_append]

theorem aboutLines_changes : AboutLines (changes old new) := by
  intro c listed
  by_cases inserted : c.sign = .inserted
  · have kept : c ∈ (changes old new).filter (·.sign ≠ .deleted) := by simp [listed, inserted]
    have line := List.mem_map_of_mem kept (f := Change.line)
    rw [changes_new] at line
    exact Text.full_of_mem_terminatedLines line
  · have kept : c ∈ (changes old new).filter (·.sign ≠ .inserted) := by simp [listed, inserted]
    have line := List.mem_map_of_mem kept (f := Change.line)
    rw [changes_old] at line
    exact Text.full_of_mem_terminatedLines line

theorem said_old : said [' ', '-'] ((changes old new).flatMap Change.text) = old.completed := by
  have signs (c : Change) : decide (c.sign.mark ∈ [' ', '-']) = decide (c.sign ≠ .inserted) := by
    cases c.sign <;> decide
  rw [said_flatMap_text (aboutLines_changes old new), List.filter_congr fun c _ => signs c, changes_old,
    Text.flatMap_completed]

theorem said_new : said [' ', '+'] ((changes old new).flatMap Change.text) = new.completed := by
  have signs (c : Change) : decide (c.sign.mark ∈ [' ', '+']) = decide (c.sign ≠ .deleted) := by
    cases c.sign <;> decide
  rw [said_flatMap_text (aboutLines_changes old new), List.filter_congr fun c _ => signs c, changes_new,
    Text.flatMap_completed]

def heading (p : FilePath) : Text :=
  "Diff for ".toList ++ p.text ++ [':', '\n']

theorem render_inj {p : FilePath} {old new old' new' : Text} (same : render p old' new' = render p old new) :
    (changes old' new').flatMap Change.text = (changes old new).flatMap Change.text := by
  unfold render at same
  rw [List.append_assoc, List.append_assoc _ _ ['\n'], List.append_cancel_left_eq, List.append_cancel_right_eq] at same
  exact same

/-- The diff between its heading and its last line end tells both texts, each with its last line ended. -/
theorem diff_tells_both_texts (p : FilePath) (old new : Text) :
    (∃ body, render p old new = heading p ++ body ++ ['\n'] ∧
      (∀ piece ∈ terminatedLines body, ∃ mark ∈ [' ', '-', '+'], piece.head? = some mark) ∧
      said [' ', '-'] body = old.completed ∧ said [' ', '+'] body = new.completed) ∧
    ∀ old' new', render p old' new' = render p old new →
      old'.completed = old.completed ∧ new'.completed = new.completed := by
  constructor
  · refine ⟨(changes old new).flatMap Change.text, rfl, ?_, said_old old new, said_new old new⟩
    intro piece listed
    rw [terminatedLines_flatMap_text (aboutLines_changes old new)] at listed
    obtain ⟨c, -, rfl⟩ := List.mem_map.mp listed
    refine ⟨c.sign.mark, ?_, rfl⟩
    cases c.sign <;> decide
  · intro old' new' same
    have body := render_inj same
    constructor
    · rw [← said_old old' new', body, said_old]
    · rw [← said_new old' new', body, said_new]

example : render ⟨['a']⟩ ['+', '\r', 'x'] ['x', '\n', 'y'] =
    "Diff for a:\n-+\r-x\n+x\n+y\n\n".toList := by decide +kernel

theorem diff_tells_no_last_line_end :
    render ⟨['a']⟩ ['+', '\r', 'x', '\n'] ['y'] = render ⟨['a']⟩ ['+', '\r', 'x'] ['y', '\n'] ∧
      Text.completed ['+', '\r', 'x', '\n'] = Text.completed ['+', '\r', 'x'] ∧
      Text.completed ['y'] = Text.completed ['y', '\n'] := by
  have same : render ⟨['a']⟩ ['+', '\r', 'x', '\n'] ['y'] = render ⟨['a']⟩ ['+', '\r', 'x'] ['y', '\n'] := by
    decide +kernel
  exact ⟨same, (diff_tells_both_texts ⟨['a']⟩ ['+', '\r', 'x'] ['y', '\n']).2 _ _ same⟩

end LineDiff

end LicenseHeaders
