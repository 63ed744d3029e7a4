import LicenseHeaders.Proofs.Reruns
import LicenseHeaders.Proofs.WrittenLines

namespace LicenseHeaders

namespace HeaderBlock

structure Crossed (ls : List Text) (start stop : Nat) : Prop where
  opener : ls.findIdx? Comment.opens = some start
  closer : ls.findIdx? Comment.closes = some stop
  above : stop < start

def behindCloser (ls : List Text) : List Text :=
  (ls.dropWhile fun l => !Comment.closes l).drop 1

variable {ls front : List Text} {start stop : Nat}

theorem behindCloser_append (unclosed : ∀ l ∈ front, Comment.closes l = false) (ls : List Text) :
    behindCloser (front ++ ls) = behindCloser ls := by
  have skipped : front.dropWhile (fun l => !Comment.closes l) = [] := by
    rw [List.dropWhile_eq_nil_iff]
    intro l member
    rw [unclosed l member]
    rfl
  rw [behindCloser, List.dropWhile_append, skipped]
  rfl

theorem behindCloser_eq (ls : List Text) :
    behindCloser ls = (ls.findIdx? Comment.closes).elim [] fun i => ls.drop (i + 1) := by
  induction ls with
  | nil => rfl
  | cons line ls ih =>
    cases closes : Comment.closes line with
    | true => simp [behindCloser, List.findIdx?_cons, closes]
    | false =>
      have plain : ∀ l ∈ [line], Comment.closes l = false := by simpa using closes
      have skipped := behindCloser_append plain ls
      rw [List.singleton_append] at skipped
      rw [skipped, ih, List.findIdx?_cons, closes]
      cases ls.findIdx? Comment.closes <;> rfl

theorem after_findLastFrom (first : Option Nat) (origin : Nat) (ls : List Text) :
    (HeaderBlock.mk first (findLastFrom origin ls)).after ls = behindCloser (ls.drop origin) := by
  rw [behindCloser_eq, findLastFrom, HeaderBlock.after]
  cases (ls.drop origin).findIdx? Comment.closes with
  | none => rfl
  | some i =>
    simp only [Option.map_some, Option.elim_some, List.drop_drop]
    congr 1
    omega

theorem length_behindCloser_le (ls : List Text) : (behindCloser ls).length ≤ ls.length - 1 := by
  have shorter := (List.dropWhile_sublist (l := ls) fun l => !Comment.closes l).length_le
  rw [behindCloser, List.length_drop]
  omega

theorem find_independent (ls : List Text) : find .independent ls = ⟨findFirst ls, findLastFrom 0 ls⟩ := rfl

theorem find_paired (first : findFirst ls = some start) :
    find .paired ls = ⟨some start, findLastFrom start ls⟩ := by
  simp only [find, first]

theorem find_agree (uncrossed : ¬ ∃ start stop, Crossed ls start stop) :
    (find .independent ls).before ls = (find .paired ls).before ls ∧
      (find .independent ls).after ls = (find .paired ls).after ls := by
  cases first : findFirst ls with
  | none =>
    have same : find .independent ls = find .paired ls := by simp only [find, first]
    rw [same]
    exact ⟨rfl, rfl⟩
  | some start =>
    have unclosed : ∀ l ∈ ls.take start, Comment.closes l = false := by
      intro l member
      by_contra closes
      rw [Bool.not_eq_false] at closes
      obtain ⟨i, here⟩ := List.mem_iff_getElem?.mp member
      have inside : i < start := by
        have bound := (List.getElem?_eq_some_iff.mp here).1
        rw [List.length_take] at bound
        omega
      rw [List.getElem?_take_of_lt inside] at here
      obtain ⟨stop, before, closer⟩ := exists_findIdx Comment.closes here closes
      exact uncrossed ⟨start, stop, first, closer, by omega⟩
    have skipped := behindCloser_append unclosed (ls.drop start)
    rw [List.take_append_drop] at skipped
    rw [find_independent, find_paired first, after_findLastFrom, after_findLastFrom, first]
    exact ⟨rfl, skipped⟩

theorem Crossed.start_lt (crossed : Crossed ls start stop) : start < ls.length := by
  obtain ⟨l, here, -⟩ := (findIdx_eq_some_iff.mp crossed.opener).1
  exact (List.getElem?_eq_some_iff.mp here).1

theorem Crossed.before_find (crossed : Crossed ls start stop) (search : HeaderSearch) :
    (find search ls).before ls = ls.take start := by
  have first : findFirst ls = some start := crossed.opener
  simp only [find, HeaderBlock.before, first]

theorem Crossed.after_independent (crossed : Crossed ls start stop) :
    (find .independent ls).after ls = ls.drop (stop + 1) := by
  rw [find_independent, after_findLastFrom, List.drop_zero, behindCloser_eq, crossed.closer]
  rfl

theorem Crossed.after_paired (crossed : Crossed ls start stop) :
    (find .paired ls).after ls = behindCloser (ls.drop start) := by
  rw [find_paired crossed.opener, after_findLastFrom]

theorem Crossed.paired_keeps_less (crossed : Crossed ls start stop) :
    (behindCloser (ls.drop start)).length < (ls.drop (stop + 1)).length := by
  have bound := crossed.start_lt
  have above := crossed.above
  have few := length_behindCloser_le (ls.drop start)
  rw [List.length_drop] at few ⊢
  omega

end HeaderBlock

namespace HeaderPolicy

variable {p : HeaderPolicy} {detector : Detector} {d : Dialect} {content : Text}

theorem withSearch_unlicensed (unlicensed : detector (Text.lines content) = false) (search : HeaderSearch) :
    (p.withSearch search).placeBy detector d content = p.placeBy detector d content := by
  cases d with
  | tagged =>
    rw [placeBy_tagged unlicensed, placeBy_tagged unlicensed]
    rfl
  | native =>
    rw [placeBy_native unlicensed, placeBy_native unlicensed]
    rfl

theorem withSearch_licensed (licensed : detector (Text.lines content) = true) (search : HeaderSearch) :
    (p.withSearch search).placeBy detector d content =
      ⟨assemble p.header content ((HeaderBlock.find search (Text.lines content)).before (Text.lines content))
        ((HeaderBlock.find search (Text.lines content)).after (Text.lines content)), .replaced⟩ :=
  placeBy_licensed licensed

theorem assemble_ne_of_length {h : Header} {front after after' : List Text} (plain : ∀ l ∈ front, '\n' ∉ l)
    (suffix : after <:+ Text.lines content) (suffix' : after' <:+ Text.lines content)
    (fewer : after'.length < after.length) : assemble h content front after ≠ assemble h content front after' := by
  intro same
  have count := congrArg (fun s => (Text.lines s).length) same
  simp only [length_lines_assemble h plain suffix, length_lines_assemble h plain suffix'] at count
  omega

structure Parts (p : HeaderPolicy) (detector : Detector) (d : Dialect) (content : Text) (start stop : Nat) :
    Prop where
  independent : ((p.withSearch .independent).placeBy detector d content).content =
    assemble p.header content ((Text.lines content).take start) ((Text.lines content).drop (stop + 1))
  paired : ((p.withSearch .paired).placeBy detector d content).content =
    assemble p.header content ((Text.lines content).take start)
      (HeaderBlock.behindCloser ((Text.lines content).drop start))
  differ : ((p.withSearch .independent).placeBy detector d content).content ≠
    ((p.withSearch .paired).placeBy detector d content).content

theorem parts_of_crossed {start stop : Nat} (licensed : detector (Text.lines content) = true)
    (crossed : HeaderBlock.Crossed (Text.lines content) start stop) : p.Parts detector d content start stop := by
  have independent : ((p.withSearch .independent).placeBy detector d content).content =
      assemble p.header content ((Text.lines content).take start) ((Text.lines content).drop (stop + 1)) := by
    rw [withSearch_licensed licensed, crossed.before_find, crossed.after_independent]
  have paired : ((p.withSearch .paired).placeBy detector d content).content =
      assemble p.header content ((Text.lines content).take start)
        (HeaderBlock.behindCloser ((Text.lines content).drop start)) := by
    rw [withSearch_licensed licensed, crossed.before_find, crossed.after_paired]
  refine ⟨independent, paired, ?_⟩
  rw [independent, paired]
  apply assemble_ne_of_length
  · exact Text.newline_notMem_take content start
  · exact List.drop_suffix _ _
  · rw [← crossed.after_paired]
    exact HeaderBlock.after_suffix _ _
  · exact crossed.paired_keeps_less

/-- The searches give the same result unless the text is licensed and its first closer stands above its first opener.
Then they never do: below the header one keeps all lines behind that closer, the other those behind the first closer
from the opener on. -/
theorem searches_part_iff (p : HeaderPolicy) (detector : Detector) (d : Dialect) (content : Text) :
    ((p.withSearch .independent).placeBy detector d content = (p.withSearch .paired).placeBy detector d content ↔
        ¬ (detector (Text.lines content) = true ∧
          ∃ start stop, HeaderBlock.Crossed (Text.lines content) start stop)) ∧
      ∀ start stop, detector (Text.lines content) = true → HeaderBlock.Crossed (Text.lines content) start stop →
        p.Parts detector d content start stop := by
  refine ⟨⟨?_, ?_⟩, fun start stop => parts_of_crossed⟩
  · intro same crossing
    obtain ⟨licensed, start, stop, crossed⟩ := crossing
    exact (parts_of_crossed licensed crossed).differ (congrArg Placed.content same)
  · intro clear
    cases licensed : detector (Text.lines content) with
    | false => rw [withSearch_unlicensed licensed, withSearch_unlicensed licensed]
    | true =>
      have uncrossed : ¬ ∃ start stop, HeaderBlock.Crossed (Text.lines content) start stop :=
        fun crossed => clear ⟨licensed, crossed⟩
      obtain ⟨before, after⟩ := HeaderBlock.find_agree uncrossed
      rw [withSearch_licensed licensed, withSearch_licensed licensed, before, after]

theorem searches_part_over_unclosed_comment :
    (fun ls => ls.length == 3) (Text.lines "a*/\n//\nb".toList) = true ∧
      HeaderBlock.Crossed (Text.lines "a*/\n//\nb".toList) 1 0 ∧
      (tiny .paired).Parts (fun ls => ls.length == 3) .tagged "a*/\n//\nb".toList 1 0 ∧
      (((tiny .paired).withSearch .independent).placeBy (fun ls => ls.length == 3) .tagged
        "a*/\n//\nb".toList).content = "a*/\n/*L*/\n//\nb".toList ∧
      (((tiny .paired).withSearch .paired).placeBy (fun ls => ls.length == 3) .tagged
        "a*/\n//\nb".toList).content = "a*/\n/*L*/\n".toList := by
  have licensed : (fun ls : List Text => ls.length == 3) (Text.lines "a*/\n//\nb".toList) = true := by decide
  have crossed : HeaderBlock.Crossed (Text.lines "a*/\n//\nb".toList) 1 0 := ⟨by decide, by decide, by decide⟩
  have parts := (searches_part_iff (tiny .paired) (fun ls => ls.length == 3) .tagged "a*/\n//\nb".toList).2 1 0
    licensed crossed
  exact ⟨licensed, crossed, parts, parts.independent, parts.paired⟩

end HeaderPolicy

end LicenseHeaders
