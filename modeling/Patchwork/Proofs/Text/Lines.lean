import Patchwork.Proofs.Text.Cut
import Patchwork.Text.Lines

/-! Lines as a text is cut into them.  Each has a newline at its end and nowhere else,
except that the last one may lack it (`Cut`).  Cutting a text gives such lines
(`cut_cutLines`), and such lines put one after another are cut where they meet
(`Cut.cutLines_flatten`); so these are exactly the lists of lines that a text stands for
(`cutLines_flatten_iff`, `lines_join_iff`). -/

namespace Patchwork.Text

/-- A piece of text with a newline at its end or none at all. -/
def IsLine (l : List Char) : Prop := '\n' ∉ l.dropLast

/-- A piece of text that ends in a newline. -/
def Ended (l : List Char) : Prop := l.getLast? = some '\n'

/-- **The lines of a text.**  All but the last end in the newline after which they were
cut. -/
inductive Cut : List (List Char) → Prop
  | nil : Cut []
  | last {line : List Char} : line ≠ [] → '\n' ∉ line → Cut [line]
  | ended {line : List Char} {rest : List (List Char)} : '\n' ∉ line → Cut rest →
      Cut ((line ++ ['\n']) :: rest)

theorem isLine_ended {line : List Char} (h : '\n' ∉ line) : IsLine (line ++ ['\n']) := by
  rwa [IsLine, List.dropLast_concat]

theorem isLine_of_notMem {line : List Char} (h : '\n' ∉ line) : IsLine line :=
  fun hmem => h ((List.dropLast_sublist line).subset hmem)

theorem isLine_of_append {line rest : List Char} (h : IsLine (line ++ rest)) : IsLine line := by
  intro hmem
  cases rest with
  | nil => exact h (by rwa [List.append_nil])
  | cons c rest =>
    rw [IsLine, List.dropLast_append_of_ne_nil (List.cons_ne_nil c rest)] at h
    exact h (List.mem_append_left _ ((List.dropLast_sublist line).subset hmem))

/-- A line that ends is its characters before the newline and the newline. -/
theorem exists_of_ended {l : List Char} (line : IsLine l) (ended : Ended l) :
    ∃ body, '\n' ∉ body ∧ l = body ++ ['\n'] := by
  obtain ⟨body, rfl⟩ := List.getLast?_eq_some_iff.mp ended
  rw [IsLine, List.dropLast_concat] at line
  exact ⟨body, line, rfl⟩

/-- A line that does not end has no newline. -/
theorem notMem_of_not_ended {l : List Char} (line : IsLine l) (h : ¬ Ended l) : '\n' ∉ l := by
  rcases l.eq_nil_or_concat with rfl | ⟨body, c, rfl⟩
  · exact List.not_mem_nil
  · rw [List.concat_eq_append] at line h ⊢
    rw [IsLine, List.dropLast_concat] at line
    rw [Ended, List.getLast?_concat] at h
    simp_all [eq_comm]

/-! ## Cutting -/

theorem cutLines_ended {line : List Char} (h : '\n' ∉ line) (rest : List Char) :
    cutLines (line ++ '\n' :: rest) = (line ++ ['\n']) :: cutLines rest := by
  induction line with
  | nil => rfl
  | cons c line ih =>
    obtain ⟨hc, hline⟩ := List.ne_and_not_mem_of_not_mem_cons h
    rw [List.cons_append, cutLines, if_neg (Ne.symm hc), ih hline]
    rfl

theorem cutLines_of_notMem {line : List Char} (h : '\n' ∉ line) (nonempty : line ≠ []) :
    cutLines line = [line] := by
  induction line with
  | nil => exact absurd rfl nonempty
  | cons c line ih =>
    obtain ⟨hc, hline⟩ := List.ne_and_not_mem_of_not_mem_cons h
    rw [cutLines, if_neg (Ne.symm hc)]
    cases line with
    | nil => rfl
    | cons d line => rw [ih hline (List.cons_ne_nil d line)]

/-- Every text is cut into lines. -/
theorem cut_cutLines (s : List Char) : Cut (cutLines s) := by
  induction s with
  | nil => exact .nil
  | cons c rest ih =>
    rw [cutLines]
    split
    · rename_i newline
      rw [newline]
      exact @Cut.ended [] _ List.not_mem_nil ih
    · rename_i other
      -- the character goes in front of the first line of the rest
      generalize cutLines rest = ls at ih
      cases ih with
      | nil => exact .last (List.cons_ne_nil c []) (by simpa using Ne.symm other)
      | last nonempty h => exact .last (List.cons_ne_nil _ _) (by simp [h, Ne.symm other])
      | @ended line more h cut => exact @Cut.ended (c :: line) _ (by simp [h, Ne.symm other]) cut

/-- **Lines put one after another are cut where they meet.** -/
theorem Cut.cutLines_flatten {ls : List (List Char)} (h : Cut ls) : cutLines ls.flatten = ls := by
  induction h with
  | nil => rfl
  | last nonempty h => rw [List.flatten_singleton, cutLines_of_notMem h nonempty]
  | @ended line rest h _ ih =>
    rw [List.flatten_cons, List.append_assoc, List.singleton_append, cutLines_ended h, ih]

theorem cutLines_flatten_iff {ls : List (List Char)} : cutLines ls.flatten = ls ↔ Cut ls :=
  ⟨fun h => h ▸ cut_cutLines ls.flatten, Cut.cutLines_flatten⟩

/-! ## Parts of a text's lines -/

namespace Cut
variable {ls : List (List Char)} {l : List Char}

theorem isLine (h : Cut ls) (hl : l ∈ ls) : IsLine l := by
  induction h with
  | nil => cases hl
  | last _ newline =>
    obtain rfl := List.mem_singleton.mp hl
    exact isLine_of_notMem newline
  | ended newline _ ih =>
    rcases List.mem_cons.mp hl with rfl | hl
    · exact isLine_ended newline
    · exact ih hl

theorem ne_nil (h : Cut ls) (hl : l ∈ ls) : l ≠ [] := by
  induction h with
  | nil => cases hl
  | last nonempty _ =>
    obtain rfl := List.mem_singleton.mp hl
    exact nonempty
  | ended _ _ ih =>
    rcases List.mem_cons.mp hl with rfl | hl
    · exact List.concat_ne_nil _ _
    · exact ih hl

theorem tail {rest : List (List Char)} (h : Cut (l :: rest)) : Cut rest := by
  cases h with
  | last => exact .nil
  | ended _ cut => exact cut

/-- A line without its newline is the last one. -/
theorem eq_nil_of_not_ended {rest : List (List Char)} (h : Cut (l :: rest)) (unended : ¬ Ended l) :
    rest = [] := by
  cases h with
  | last => rfl
  | ended => exact absurd List.getLast?_concat unended

theorem of_append_right {front : List (List Char)} (h : Cut (front ++ ls)) : Cut ls := by
  induction front with
  | nil => exact h
  | cons _ front ih => exact ih h.tail

theorem of_append_left {back : List (List Char)} (h : Cut (ls ++ back)) : Cut ls := by
  induction ls with
  | nil => exact .nil
  | cons l ls ih =>
    by_cases ended : Ended l
    · obtain ⟨body, newline, rfl⟩ := exists_of_ended (h.isLine List.mem_cons_self) ended
      exact .ended newline (ih h.tail)
    · obtain ⟨rfl, -⟩ := List.append_eq_nil_iff.mp (h.eq_nil_of_not_ended ended)
      exact .last (h.ne_nil List.mem_cons_self)
        (notMem_of_not_ended (h.isLine List.mem_cons_self) ended)

theorem of_isInfix {part : List (List Char)} (h : Cut ls) (within : part <:+: ls) : Cut part := by
  obtain ⟨front, back, rfl⟩ := within
  exact h.of_append_left.of_append_right

/-- All but the last line end. -/
theorem ended_of_mem_dropLast (h : Cut ls) (hl : l ∈ ls.dropLast) : Ended l := by
  induction h with
  | nil => cases hl
  | last => cases hl
  | @ended line rest _ _ ih =>
    cases rest with
    | nil => cases hl
    | cons next rest =>
      rw [List.dropLast_cons_cons] at hl
      rcases List.mem_cons.mp hl with rfl | hl
      · exact List.getLast?_concat
      · exact ih hl

theorem eq_nil_of_sublist {rest : List (List Char)} (h : Cut ls) (among : (l :: rest).Sublist ls)
    (unended : ¬ Ended l) : rest = [] ∧ ls.getLast? = some l := by
  induction h with
  | nil => cases among
  | last =>
    cases among with
    | cons _ none => cases none
    | cons_cons _ none => exact ⟨List.sublist_nil.mp none, rfl⟩
  | @ended line more _ _ ih =>
    cases among with
    | cons _ among =>
      obtain ⟨nil, last⟩ := ih among
      exact ⟨nil, by rw [List.getLast?_cons, last]; rfl⟩
    | cons_cons => exact absurd List.getLast?_concat unended

end Cut

/-- Lines with newlines at their ends alone are those of a text exactly when none is
empty and none but the last lacks its newline. -/
theorem cut_iff {ls : List (List Char)} (lines : ∀ l ∈ ls, IsLine l) :
    Cut ls ↔ [] ∉ ls ∧ ∀ l ∈ ls.dropLast, Ended l := by
  constructor
  · intro h
    exact ⟨fun hmem => h.ne_nil hmem rfl, fun l hl => h.ended_of_mem_dropLast hl⟩
  · rintro ⟨nonempty, ended⟩
    induction ls with
    | nil => exact .nil
    | cons l ls ih =>
      obtain ⟨line, others⟩ := List.forall_mem_cons.mp lines
      obtain ⟨hl, hls⟩ := List.ne_and_not_mem_of_not_mem_cons nonempty
      cases ls with
      | nil =>
        by_cases h : Ended l
        · obtain ⟨body, newline, rfl⟩ := exists_of_ended line h
          exact .ended newline .nil
        · exact .last (Ne.symm hl) (notMem_of_not_ended line h)
      | cons m ls =>
        rw [List.dropLast_cons_cons] at ended
        obtain ⟨first, rest⟩ := List.forall_mem_cons.mp ended
        obtain ⟨body, newline, rfl⟩ := exists_of_ended line first
        exact .ended newline (ih others hls rest)

/-! ## Lines as texts -/

theorem endsLine_iff {s : String} : endsLine s = true ↔ Ended s.toList := by
  simp [endsLine, Ended]

theorem endsLine_append_newline (s : String) : endsLine (s ++ "\n") := by
  rw [endsLine_iff, String.toList_append]
  exact List.getLast?_concat

theorem toList_join (parts : List String) :
    (join parts).toList = (parts.map String.toList).flatten := by
  rw [join, String.toList_ofList, List.flatMap_def]

theorem map_toList_lines (s : String) : (lines s).map String.toList = cutLines s.toList := by
  simp [lines, Function.comp_def]

theorem cut_lines (s : String) : Cut ((lines s).map String.toList) := by
  rw [map_toList_lines]
  exact cut_cutLines s.toList

/-- **Texts put one after another are the lines of what they make** exactly when they
are lines as a text is cut into them. -/
theorem lines_join_iff {parts : List String} :
    lines (join parts) = parts ↔ Cut (parts.map String.toList) := by
  rw [← cutLines_flatten_iff, ← toList_join, ← map_toList_lines,
    List.map_inj_right fun _ _ => String.toList_inj.mp]

/-- Among lines of a text, nothing comes after one without its newline, which is the
text's last line. -/
theorem eq_nil_of_sublist_lines {s line : String} {rest : List String}
    (among : (line :: rest).Sublist (lines s)) (unended : ¬ endsLine line) :
    rest = [] ∧ (lines s).getLast? = some line := by
  obtain ⟨none, last⟩ := (cut_lines s).eq_nil_of_sublist (among.map String.toList)
    (mt endsLine_iff.mpr unended)
  rw [List.getLast?_map, Option.map_eq_some_iff] at last
  obtain ⟨line', last, same⟩ := last
  exact ⟨List.map_eq_nil_iff.mp none, String.toList_inj.mp same ▸ last⟩

theorem lines_join_iff_of_isLine {parts : List String}
    (h : ∀ part ∈ parts, IsLine part.toList) :
    lines (join parts) = parts ↔ "" ∉ parts ∧ ∀ part ∈ parts.dropLast, endsLine part := by
  rw [lines_join_iff, cut_iff (List.forall_mem_map.mpr h), ← List.map_dropLast,
    List.forall_mem_map]
  have empty : [] ∈ parts.map String.toList ↔ "" ∈ parts := by
    simp only [List.mem_map, String.toList_eq_nil_iff, exists_eq_right]
  rw [empty]
  exact and_congr_right fun _ => forall₂_congr fun part _ => endsLine_iff.symm

/-! ## Lines without the characters that end them -/

theorem bareLine_ended {line : List Char} (h : '\r' ∉ line) :
    bareLine (String.ofList (line ++ ['\n'])) = String.ofList line := by
  have newline : before? "\n" (String.ofList (line ++ ['\n'])) = some (String.ofList line) :=
    before?_eq_some_iff.mpr (by rw [String.ofList_append])
  have unreturned : before? "\r" (String.ofList line) = none := by
    refine Option.eq_none_iff_forall_not_mem.mpr fun body hbody => h ?_
    have whole := congrArg String.toList (before?_eq_some_iff.mp hbody)
    rw [String.toList_ofList, String.toList_append] at whole
    exact whole ▸ List.mem_append_right _ (List.mem_singleton_self '\r')
  rw [bareLine, newline]
  exact congrArg (Option.getD · (String.ofList line)) unreturned

/-- What a line begins with stays when the characters that end it go. -/
theorem bareLine_append {front : String} (h : '\r' ∉ front.toList) (s : String) :
    bareLine (front ++ s ++ "\n") = front ++ bareLine (s ++ "\n") := by
  have newline : ∀ body : String, before? "\n" (body ++ "\n") = some body := fun _ =>
    before?_eq_some_iff.mpr rfl
  rw [bareLine, bareLine, newline, newline]
  dsimp only
  rcases returned : before? "\r" s with _ | body
  · have none : before? "\r" (front ++ s) = none := by
      refine Option.eq_none_iff_forall_ne_some.mpr fun body found => ?_
      have whole := congrArg List.getLast? (congrArg String.toList (before?_eq_some_iff.mp found))
      have single : "\r".toList = ['\r'] := by decide
      rw [String.toList_append, String.toList_append, single, List.getLast?_concat] at whole
      rcases List.eq_nil_or_concat s.toList with empty | ⟨before, last, chars⟩
      · rw [empty, List.append_nil] at whole
        exact h (List.mem_of_getLast? whole)
      · rw [chars, List.concat_eq_append, ← List.append_assoc, List.getLast?_concat] at whole
        cases whole
        have text : s = String.ofList before ++ "\r" := by
          rw [← String.toList_inj, chars, String.toList_append, String.toList_ofList, single,
            List.concat_eq_append]
        rw [before?_eq_some_iff.mpr text] at returned
        cases returned
    rw [none]
    rfl
  · have whole : before? "\r" (front ++ s) = some (front ++ body) :=
      before?_eq_some_iff.mpr (by rw [before?_eq_some_iff.mp returned, String.append_assoc])
    rw [whole]
    rfl

theorem bareLine_ofList_append {mark : String} (h : '\r' ∉ mark.toList) (s : String) :
    bareLine (String.ofList (mark.toList ++ (s.toList ++ ['\n']))) = mark ++ bareLine (s ++ "\n") := by
  rw [← bareLine_append h, String.ofList_append, String.ofList_append, String.ofList_toList,
    String.ofList_toList, String.append_assoc]

/-- The carriage return in front of a newline is a blank at the end. -/
theorem trimEnd_bareLine (s : String) : trimEnd (bareLine (s ++ "\n")) = trimEnd s := by
  have newline : before? "\n" (s ++ "\n") = some s := before?_eq_some_iff.mpr rfl
  rw [bareLine, newline]
  dsimp only
  cases returned : before? "\r" s with
  | none => rfl
  | some body =>
    have blank : ∀ c ∈ "\r".toList, isBlank c := by
      rw [show "\r".toList = ['\r'] from rfl, List.forall_mem_singleton]
      rfl
    rw [before?_eq_some_iff.mp returned, trimEnd_append_of_blank blank]
    rfl

end Patchwork.Text
