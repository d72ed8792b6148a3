import Mathlib.Data.List.Chain
import Patchwork.Proofs.Patch.Heading
import Patchwork.Proofs.Patch.Readable

/-! Patches read back from their text.  A hunk whose header counts its lines right and
whose lines can be read is read as it was written (`hunk_written`), and so are hunks of
which each ends before the next begins (`hunks_written`).  With the names in front of them
they make a patch again, if the path can stand in the header (`parse_renderHunks_of_headed`). -/

namespace Patchwork

namespace Text

/-- A line that ends, and has its newline nowhere else. -/
def IsEndedLine (l : List Char) : Prop := IsLine l ∧ Ended l

theorem isEndedLine {line : List Char} (h : '\n' ∉ line) : IsEndedLine (line ++ ['\n']) :=
  ⟨isLine_ended h, List.getLast?_concat⟩

/-- Lines that all end are lines of a text. -/
theorem cut_of_ended {ls : List (List Char)} (h : ∀ l ∈ ls, IsEndedLine l) : Cut ls := by
  induction ls with
  | nil => exact .nil
  | cons l ls ih =>
    obtain ⟨⟨line, ended⟩, rest⟩ := List.forall_mem_cons.mp h
    obtain ⟨body, newline, rfl⟩ := exists_of_ended line ended
    exact .ended newline (ih rest)

end Text

namespace PatchLine

theorem mark_ne_newline (l : PatchLine) : '\n' ≠ l.mark := by
  cases l <;> exact of_decide_eq_true rfl

/-- A hunk's line is written as lines that end. -/
theorem ended_of_mem_written {l : PatchLine} (isLine : Text.IsLine l.text.toList)
    {line : List Char} (h : line ∈ l.written) : Text.IsEndedLine line := by
  unfold written at h
  split at h
  · rename_i ended
    obtain ⟨body, newline, text⟩ := Text.exists_of_ended isLine (Text.endsLine_iff.mp ended)
    rw [List.mem_singleton.mp h, text, ← List.cons_append]
    exact Text.isEndedLine (List.not_mem_cons_of_ne_of_not_mem l.mark_ne_newline newline)
  · rename_i unended
    have newline := Text.notMem_of_not_ended isLine (mt Text.endsLine_iff.mpr unended)
    rcases List.mem_cons.mp h with rfl | h
    · rw [← List.cons_append]
      exact Text.isEndedLine (List.not_mem_cons_of_ne_of_not_mem l.mark_ne_newline newline)
    · rw [List.mem_singleton.mp h]
      exact Text.isEndedLine (by decide)

end PatchLine

namespace Hunk

/-- **A hunk that can be read back.**  The header counts the lines of either side, and the
lines stand in an order in which they can be read. -/
structure WellFormed (h : Hunk) : Prop where
  old : h.oldSide.length = h.old.length
  new : h.newSide.length = h.new.length
  lines : PatchReading.Readable {} h.lines

/-- On either side, the first hunk ends before the second one begins. -/
structure Precedes (h k : Hunk) : Prop where
  old : h.old.start + h.old.length ≤ k.old.start
  new : h.new.start + h.new.length ≤ k.new.start

theorem Precedes.trans {h k l : Hunk} (hk : h.Precedes k) (kl : k.Precedes l) : h.Precedes l :=
  ⟨Nat.le_trans (Nat.le_trans hk.old (Nat.le_add_right _ _)) kl.old,
    Nat.le_trans (Nat.le_trans hk.new (Nat.le_add_right _ _)) kl.new⟩

instance : Trans Precedes Precedes Precedes := ⟨Precedes.trans⟩

/-- The numbers of the header are signed words. -/
structure IsSigned (h : Hunk) : Prop where
  oldStart : Text.IsSigned h.old.start
  oldLength : Text.IsSigned h.old.length
  newStart : Text.IsSigned h.new.start
  newLength : Text.IsSigned h.new.length

/-- The lines of text that a hunk is written as. -/
def written (h : Hunk) : List (List Char) := h.heading :: h.lines.flatMap PatchLine.written

/-- The header in its parts. -/
theorem heading_eq (h : Hunk) : h.heading = "@@ -".toList ++ h.old.render.toList ++
    " +".toList ++ h.new.render.toList ++ " @@\n".toList := rfl

/-- The header is a line on its own, which begins with a hunk's mark. -/
theorem exists_heading (h : Hunk) :
    ∃ body, '\n' ∉ body ∧ '\r' ∉ body ∧ h.heading = "@@".toList ++ body ++ ['\n'] := by
  have free {c : Char} (digit : c.isDigit = false) (comma : c ≠ ',') :
      c ∉ h.old.render.toList ∧ c ∉ h.new.render.toList :=
    ⟨h.old.notMem_render digit comma, h.new.notMem_render digit comma⟩
  obtain ⟨oldNewline, newNewline⟩ := free (c := '\n') rfl (by decide)
  obtain ⟨oldReturn, newReturn⟩ := free (c := '\r') rfl (by decide)
  refine ⟨" -".toList ++ h.old.render.toList ++ " +".toList ++ h.new.render.toList ++ " @@".toList,
    ?_, ?_, by simp [heading_eq]⟩
  · simp only [List.mem_append, not_or]
    exact ⟨⟨⟨⟨by decide, oldNewline⟩, by decide⟩, newNewline⟩, by decide⟩
  · simp only [List.mem_append, not_or]
    exact ⟨⟨⟨⟨by decide, oldReturn⟩, by decide⟩, newReturn⟩, by decide⟩

/-- A hunk that can be read back is written as lines that end. -/
theorem ended_of_mem_written {h : Hunk} (formed : h.WellFormed) {line : List Char}
    (hl : line ∈ h.written) : Text.IsEndedLine line := by
  rcases List.mem_cons.mp hl with rfl | hl
  · obtain ⟨body, newline, -, heading⟩ := h.exists_heading
    rw [heading]
    exact Text.isEndedLine (List.not_mem_cons_of_ne_of_not_mem (by decide)
      (List.not_mem_cons_of_ne_of_not_mem (by decide) newline))
  · obtain ⟨l, mem, hl⟩ := List.mem_flatMap.mp hl
    exact PatchLine.ended_of_mem_written (formed.lines.isLine mem) hl

theorem toList_render (h : Hunk) : h.render.toList = h.written.flatten := by
  have lines : (Text.join (h.lines.map PatchLine.render)).toList =
      (h.lines.flatMap PatchLine.written).flatten := by
    rw [Text.toList_join, List.map_map, List.flatMap_def, List.flatten_flatten, List.map_map]
    exact congrArg List.flatten (List.map_congr_left fun l _ => l.toList_render)
  rw [written, List.flatten_cons, ← lines, render, heading_eq]
  simp only [String.toList_append]

end Hunk

namespace LineRange

theorem isWord_of_isSigned {r : LineRange} (start : Text.IsSigned r.start)
    (length : Text.IsSigned r.length) : r.IsWord := by
  unfold Text.IsSigned at start length
  constructor <;> omega

/-- Where both numbers are signed words, the end of the range is a word. -/
theorem stop_eq {r : LineRange} (start : Text.IsSigned r.start) (length : Text.IsSigned r.length) :
    r.stop = r.start + r.length := by
  unfold Text.IsSigned at start length
  exact Nat.mod_eq_of_lt (by omega)

end LineRange

namespace PatchReading

/-- **A hunk is read as it was written.** -/
theorem hunk_written {h : Hunk} (formed : h.WellFormed) (signed : h.IsSigned) :
    hunk h.heading (h.lines.flatMap PatchLine.written) = .ok h := by
  have heading := ranges_heading (h := h)
    (LineRange.isWord_of_isSigned signed.oldStart signed.oldLength)
    (LineRange.isWord_of_isSigned signed.newStart signed.newLength)
  have counts : (h.lines.filterMap PatchLine.old?).length = h.old.length ∧
      (h.lines.filterMap PatchLine.new?).length = h.new.length := ⟨formed.old, formed.new⟩
  simp only [hunk, heading, body_written formed.lines, List.reverse_nil, List.nil_append]
  exact if_pos counts

theorem inOrder_iff {hs : List Hunk} (signed : ∀ h ∈ hs, h.IsSigned) :
    inOrder hs ↔ hs.Pairwise Hunk.Precedes := by
  rw [← List.isChain_iff_pairwise]
  fun_induction inOrder hs with
  | case1 h k rest ih =>
    obtain ⟨first, others⟩ := List.forall_mem_cons.mp signed
    have oldStop := LineRange.stop_eq first.oldStart first.oldLength
    have newStop := LineRange.stop_eq first.newStart first.newLength
    rw [List.isChain_cons_cons, Bool.and_eq_true, Bool.and_eq_true, decide_eq_true_iff,
      decide_eq_true_iff, oldStop, newStop, ih others]
    exact and_congr_left fun _ => ⟨fun ⟨o, n⟩ => ⟨o, n⟩, fun ⟨o, n⟩ => ⟨o, n⟩⟩
  | case2 hs short =>
    cases hs with
    | nil => simp
    | cons h rest =>
      cases rest with
      | nil => simp
      | cons k rest => exact (short h k rest rfl).elim

/-- No line of a hunk's body begins another hunk. -/
theorem head?_of_mem_written {l : PatchLine} {line : List Char} (h : line ∈ l.written) :
    line.head? ≠ some '@' := by
  have mark (rest : List Char) : (l.mark :: rest).head? ≠ some '@' := by
    rw [List.head?_cons, Ne, Option.some_inj]
    cases l <;> exact of_decide_eq_true rfl
  unfold PatchLine.written at h
  split at h
  · rw [List.mem_singleton.mp h]
    exact mark _
  · rcases List.mem_cons.mp h with rfl | h
    · exact mark _
    · rw [List.mem_singleton.mp h]
      decide

theorem groups_append {front : List (List Char)} (body : ∀ l ∈ front, l.head? ≠ some '@')
    (rest : List (List Char)) :
    groups (front ++ rest) = (front ++ (groups rest).1, (groups rest).2) := by
  induction front with
  | nil => rfl
  | cons l front ih =>
    obtain ⟨hl, hfront⟩ := List.forall_mem_cons.mp body
    rw [List.cons_append, groups, ih hfront]
    exact if_neg hl

/-- Lines are cut into hunks at their headers. -/
theorem groups_written (h : Hunk) (hs : List Hunk) :
    groups (h.lines.flatMap PatchLine.written ++ hs.flatMap Hunk.written) =
      (h.lines.flatMap PatchLine.written,
        hs.map fun h => (h.heading, h.lines.flatMap PatchLine.written)) := by
  have body (h : Hunk) : ∀ l ∈ h.lines.flatMap PatchLine.written, l.head? ≠ some '@' := by
    intro l hl
    obtain ⟨_, _, hl⟩ := List.mem_flatMap.mp hl
    exact head?_of_mem_written hl
  induction hs generalizing h with
  | nil => rw [groups_append (body h), List.flatMap_nil, groups, List.append_nil, List.map_nil]
  | cons k hs ih =>
    have first : k.heading.head? = some '@' := rfl
    rw [groups_append (body h), List.flatMap_cons, Hunk.written, List.cons_append, groups, ih k]
    simp only [if_pos first, List.append_nil, List.map_cons]

/-- **Hunks are read as they were written.** -/
theorem hunks_written {hs : List Hunk} (formed : ∀ h ∈ hs, h.WellFormed)
    (signed : ∀ h ∈ hs, h.IsSigned) (order : hs.Pairwise Hunk.Precedes) :
    hunks (hs.flatMap Hunk.written) = .ok hs := by
  cases hs with
  | nil => rfl
  | cons h hs =>
    rw [List.flatMap_cons, Hunk.written, List.cons_append, hunks, groups_written]
    -- each hunk is read on its own; their order is checked behind the last
    have each := fun k hk => hunk_written (formed k hk) (signed k hk)
    dsimp only
    rw [← List.map_cons (f := fun h : Hunk => (h.heading, h.lines.flatMap PatchLine.written)),
      mapM_map_eq_ok each]
    exact if_pos ((inOrder_iff signed).mpr order)

end PatchReading

namespace Patch

/-- The two lines that name the file. -/
def headerLines (p : Patch) : List (List Char) :=
  [PatchReading.oldMark ++ (p.oldName.toList ++ ['\n']),
    PatchReading.newMark ++ (p.newName.toList ++ ['\n'])]

/-- The path needs no quotes where it names the file. -/
def PlainPath (p : Patch) : Prop := p.path.toList.any PatchReading.needsQuotes = false

/-- **Whether the header in front of some hunks can be read**: the path stands on one line, and if there
are hunks, it needs no quotes in front of its first tab. -/
structure Headed (p : Patch) (hs : List Hunk) : Prop where
  oneLine : '\n' ∉ p.path.toList
  unquoted : hs ≠ [] → (PatchReading.beforeTab p.path).toList.any PatchReading.needsQuotes = false

theorem PlainPath.headed {p : Patch} (plain : p.PlainPath) (hs : List Hunk) : p.Headed hs := by
  have free {c : Char} (special : PatchReading.needsQuotes c) : c ∉ p.path.toList := fun h =>
    absurd special (by simpa using List.any_eq_false.mp plain c h)
  refine ⟨free rfl, fun _ => ?_⟩
  rw [PatchReading.beforeTab_of_notMem (free rfl)]
  exact plain

section Names
variable {p : Patch}

/-- What holds of a name for no file and of the path behind a mark holds of both names. -/
theorem forall_name {holds : String → Prop} (none : holds noFile) (old : holds ("a/" ++ p.path))
    (new : holds ("b/" ++ p.path)) : holds p.oldName ∧ holds p.newName := by
  unfold oldName newName
  constructor <;> split <;> assumption

theorem newline_notMem_names (oneLine : '\n' ∉ p.path.toList) :
    '\n' ∉ p.oldName.toList ∧ '\n' ∉ p.newName.toList := by
  have behind : ∀ front : String, '\n' ∉ front.toList → '\n' ∉ (front ++ p.path).toList := by
    intro front h
    rw [String.toList_append, List.mem_append, not_or]
    exact ⟨h, oneLine⟩
  exact @forall_name p (fun n => '\n' ∉ n.toList) (by decide) (behind _ (by decide))
    (behind _ (by decide))

theorem unquoted_names
    (unquoted : (PatchReading.beforeTab p.path).toList.any PatchReading.needsQuotes = false) :
    (PatchReading.beforeTab p.oldName).toList.any PatchReading.needsQuotes = false ∧
      (PatchReading.beforeTab p.newName).toList.any PatchReading.needsQuotes = false := by
  have behind : ∀ front : String, '\t' ∉ front.toList →
      front.toList.any PatchReading.needsQuotes = false →
      (PatchReading.beforeTab (front ++ p.path)).toList.any PatchReading.needsQuotes = false := by
    intro front tab plain
    rw [PatchReading.beforeTab_append tab, String.toList_append, List.any_append, plain, unquoted]
    rfl
  exact @forall_name p
    (fun n => (PatchReading.beforeTab n).toList.any PatchReading.needsQuotes = false)
    (by decide) (behind _ (by decide) (by decide)) (behind _ (by decide) (by decide))

end Names

theorem header_eq_heading (p : Patch) : p.header = heading p.oldName p.newName false := by
  simp [header, heading, ← String.toList_inj]

/-- A patch is written as its header's lines and its hunks' lines. -/
theorem lines_renderHunks {p : Patch} (oneLine : '\n' ∉ p.path.toList) {hs : List Hunk}
    (formed : ∀ h ∈ hs, h.WellFormed) :
    Text.cutLines (p.renderHunks hs).toList = p.headerLines ++ hs.flatMap Hunk.written := by
  have hunks : (Text.join (hs.map Hunk.render)).toList = (hs.flatMap Hunk.written).flatten := by
    rw [Text.toList_join, List.map_map, List.flatMap_def, List.flatten_flatten, List.map_map]
    exact congrArg List.flatten (List.map_congr_left fun h _ => h.toList_render)
  have ended : ∀ l ∈ hs.flatMap Hunk.written, Text.IsEndedLine l := fun l hl => by
    obtain ⟨h, mem, hl⟩ := List.mem_flatMap.mp hl
    exact Hunk.ended_of_mem_written (formed h mem) hl
  obtain ⟨old, new⟩ := newline_notMem_names oneLine
  rw [renderHunks, p.header_eq_heading, cutLines_heading old new, hunks,
    Text.Cut.cutLines_flatten (Text.cut_of_ended ended)]
  rfl

end Patch

namespace PatchReading

/-- The names end where the hunks begin. -/
theorem names_hunks (found : Names) (hs : List Hunk) :
    names found (hs.flatMap Hunk.written) = .ok (found, hs.flatMap Hunk.written) := by
  cases hs with
  | nil => rfl
  | cons h hs =>
    have old : Text.dropStart? oldMark h.heading = none := rfl
    have new : Text.dropStart? newMark h.heading = none := rfl
    simp only [List.flatMap_cons, Hunk.written, List.cons_append, names, old, new]

/-- **A patch with names and hunks is read as it was written.** -/
theorem text_renderHunks {p : Patch} (oneLine : '\n' ∉ p.path.toList)
    (unquoted : (beforeTab p.path).toList.any needsQuotes = false) {hs : List Hunk}
    (formed : ∀ h ∈ hs, h.WellFormed) (signed : ∀ h ∈ hs, h.IsSigned)
    (order : hs.Pairwise Hunk.Precedes) : text (p.renderHunks hs) =
      .ok (⟨some (beforeTab p.oldName), some (beforeTab p.newName)⟩, hs) := by
  obtain ⟨oldLine, newLine⟩ := Patch.newline_notMem_names oneLine
  obtain ⟨oldPlain, newPlain⟩ := Patch.unquoted_names unquoted
  have oldName := name_ended oldLine oldPlain
  have newName := name_ended newLine newPlain
  have first : begins (oldMark ++ (p.oldName.toList ++ ['\n'])) = true := by
    simp [begins, Text.dropStart?_append]
  have read : names {} (p.headerLines ++ hs.flatMap Hunk.written) =
      .ok (⟨some (beforeTab p.oldName), some (beforeTab p.newName)⟩, hs.flatMap Hunk.written) := by
    have new : Text.dropStart? oldMark (newMark ++ (p.newName.toList ++ ['\n'])) = none := rfl
    simp only [Patch.headerLines, List.cons_append, List.nil_append, names,
      Text.dropStart?_append, oldName, newName, new]
    exact names_hunks _ hs
  have kept : (p.headerLines ++ hs.flatMap Hunk.written).dropWhile (fun line => !begins line) =
      p.headerLines ++ hs.flatMap Hunk.written :=
    List.dropWhile_cons_of_neg (by rw [first]; decide)
  simp only [text, Patch.lines_renderHunks oneLine formed, kept, read]
  change (hunks _ >>= _) = _
  rw [hunks_written formed signed order]
  rfl

end PatchReading

namespace Patch

/-- The names say what happens to the file, also when what is read of them is trimmed. -/
theorem kindOf_names {p : Patch} (read : String → String) (none : read noFile = noFile)
    (old : (read ("a/" ++ p.path)).toList.head? = some 'a')
    (new : (read ("b/" ++ p.path)).toList.head? = some 'b') :
    kindOf (some (read p.oldName)) (some (read p.newName)) = p.kind := by
  have named {n : String} {c : Char} (h : n.toList.head? = some c) (hc : c ≠ '/') : n ≠ noFile := by
    rintro rfl
    exact hc (Option.some_inj.mp h).symm
  have hold := named old (by decide)
  have hnew := named new (by decide)
  unfold kindOf oldName newName
  cases h : p.kind <;> simp [none, hold, hnew]

/-- What is read line by line is the header's two lines and then the hunks' lines. -/
theorem bareLines_renderHunks {p : Patch} (oneLine : '\n' ∉ p.path.toList) {hs : List Hunk}
    (formed : ∀ h ∈ hs, h.WellFormed) :
    Text.bareLines (p.renderHunks hs) = ("--- " ++ Text.bareLine (p.oldName ++ "\n")) ::
      ("+++ " ++ Text.bareLine (p.newName ++ "\n")) ::
      (hs.flatMap Hunk.written).map fun l => Text.bareLine (String.ofList l) := by
  have old : Text.bareLine (String.ofList (PatchReading.oldMark ++ (p.oldName.toList ++ ['\n']))) =
      "--- " ++ Text.bareLine (p.oldName ++ "\n") := Text.bareLine_ofList_append (by decide) _
  have new : Text.bareLine (String.ofList (PatchReading.newMark ++ (p.newName.toList ++ ['\n']))) =
      "+++ " ++ Text.bareLine (p.newName ++ "\n") := Text.bareLine_ofList_append (by decide) _
  simp only [Text.bareLines, Text.lines, lines_renderHunks oneLine formed, List.map_map,
    List.map_append, headerLines, List.map_cons, List.map_nil, old, new]
  rfl

/-- Names without hunks are read as they were written, but for blanks at their ends. -/
theorem parseHeader_renderHunks_nil {p : Patch} (oneLine : '\n' ∉ p.path.toList) :
    parseHeader p.path (p.renderHunks []) = .ok { p with hunks := [] } := by
  obtain ⟨old, new⟩ := newline_notMem_names oneLine
  have first {mark : String} (c : Char) (rest : List Char) (chars : mark.toList = c :: rest)
      (plain : Text.isBlank c = false) :
      (Text.trimEnd (mark ++ p.path)).toList.head? = some c :=
    Text.head?_trimEnd (by rw [String.toList_append, chars, List.cons_append]) plain
  have kind := kindOf_names (p := p) Text.trimEnd (by decide)
    (first 'a' ['/'] (by decide) (by decide)) (first 'b' ['/'] (by decide) (by decide))
  have alone : p.renderHunks [] = heading p.oldName p.newName false := by
    rw [← p.header_eq_heading]
    exact String.append_empty
  rw [alone, parseHeader_heading old new, kind]

theorem hasHunks_renderHunks {p : Patch} (oneLine : '\n' ∉ p.path.toList) {hs : List Hunk}
    (formed : ∀ h ∈ hs, h.WellFormed) : hasHunks (p.renderHunks hs) = !hs.isEmpty := by
  have old : Text.startsWith "@@" ("--- " ++ Text.bareLine (p.oldName ++ "\n")) = false := by
    rw [Text.startsWith, Text.after?, String.toList_append]
    rfl
  have new : Text.startsWith "@@" ("+++ " ++ Text.bareLine (p.newName ++ "\n")) = false := by
    rw [Text.startsWith, Text.after?, String.toList_append]
    rfl
  rw [hasHunks, bareLines_renderHunks oneLine formed, List.any_cons, List.any_cons, old, new]
  cases hs with
  | nil => rfl
  | cons h hs =>
    have first : Text.startsWith "@@" (Text.bareLine (String.ofList h.heading)) := by
      obtain ⟨body, -, cr, heading⟩ := h.exists_heading
      rw [heading, Text.bareLine_ended, String.ofList_append, String.ofList_toList,
        Text.startsWith, Text.after?_append]
      · rfl
      · exact List.not_mem_cons_of_ne_of_not_mem (by decide)
          (List.not_mem_cons_of_ne_of_not_mem (by decide) cr)
    simp [Hunk.written, first]

/-- **A patch is read as it was written**, with any hunks that stand in order. -/
theorem parse_renderHunks_of_headed {p : Patch} {hs : List Hunk} (headed : p.Headed hs)
    (formed : ∀ h ∈ hs, h.WellFormed) (signed : ∀ h ∈ hs, h.IsSigned)
    (order : hs.Pairwise Hunk.Precedes) :
    parse p.path (p.renderHunks hs) = .ok { p with hunks := hs } := by
  rw [parse, hasHunks_renderHunks headed.oneLine formed]
  cases hs with
  | nil => exact parseHeader_renderHunks_nil headed.oneLine
  | cons h hs =>
    have first {mark : String} (c : Char) (rest : List Char) (chars : mark.toList = c :: rest)
        (tab : '\t' ∉ mark.toList) :
        (PatchReading.beforeTab (mark ++ p.path)).toList.head? = some c := by
      rw [PatchReading.beforeTab_append tab, String.toList_append, chars]
      rfl
    have kind := kindOf_names (p := p) PatchReading.beforeTab (by decide)
      (first 'a' ['/'] (by decide) (by decide)) (first 'b' ['/'] (by decide) (by decide))
    rw [List.isEmpty_cons, Bool.not_false, if_pos rfl, PatchReading.text_renderHunks headed.oneLine
      (headed.unquoted (List.cons_ne_nil _ _)) formed signed order]
    simp only [kind]

/-- A path that needs no quotes anywhere can stand in front of any hunks. -/
theorem parse_renderHunks_of_ordered {p : Patch} (plain : p.PlainPath) {hs : List Hunk}
    (formed : ∀ h ∈ hs, h.WellFormed) (signed : ∀ h ∈ hs, h.IsSigned)
    (order : hs.Pairwise Hunk.Precedes) :
    parse p.path (p.renderHunks hs) = .ok { p with hunks := hs } :=
  parse_renderHunks_of_headed (plain.headed hs) formed signed order

end Patch

end Patchwork

/-! ## Patches that were read

Whatever text is accepted, its hunks are well formed and in order (`wellFormed_of_parse`): the
header of each counts its lines, and no line without a newline is followed by a line that it shuts
out. -/

namespace Patchwork

namespace PatchReading

/-- The lines after the names are the last ones of the text. -/
theorem suffix_of_names {found found' : Names} {lines rest : List (List Char)}
    (h : names found lines = .ok (found', rest)) : rest <:+ lines := by
  fun_induction names found lines with
  | case1 => cases h; exact List.suffix_refl _
  | case2 | case4 => cases h
  | case3 found line tail body _ _ ih =>
    obtain ⟨n, -, h⟩ := bind_eq_ok_iff.mp h
    exact (ih n h).trans (List.suffix_cons line tail)
  | case5 found line tail body _ _ _ ih =>
    obtain ⟨n, -, h⟩ := bind_eq_ok_iff.mp h
    exact (ih n h).trans (List.suffix_cons line tail)
  | case6 => cases h; exact List.suffix_refl _

/-- Groups of lines are the lines between the headers. -/
theorem append_flatMap_groups (lines : List (List Char)) :
    (groups lines).1 ++ (groups lines).2.flatMap (fun (header, body) => header :: body) =
      lines := by
  induction lines with
  | nil => rfl
  | cons line rest ih =>
    simp only [groups]
    split <;> exact congrArg (line :: ·) ih

/-- The lines of each hunk stand together in the text. -/
theorem infix_of_mem_groups {first header : List Char} {rest body : List (List Char)}
    (h : (header, body) ∈ (first, (groups rest).1) :: (groups rest).2) :
    body <:+: first :: rest := by
  have whole : ((first, (groups rest).1) :: (groups rest).2).flatMap
      (fun (header, body) => header :: body) = first :: rest :=
    congrArg (first :: ·) (append_flatMap_groups rest)
  rw [← whole]
  obtain ⟨front, back, parts⟩ := List.append_of_mem h
  rw [parts, List.flatMap_append, List.flatMap_cons]
  exact ((List.suffix_cons header body).isInfix.trans (List.prefix_append _ _).isInfix).trans
    (List.suffix_append _ _).isInfix

/-- A hunk that is read from lines of a text is well formed. -/
theorem wellFormed_of_hunk {header : List Char} {lines : List (List Char)} (cut : Text.Cut lines)
    {h : Hunk} (read : hunk header lines = .ok h) : h.WellFormed := by
  obtain ⟨⟨old, new⟩, -, read⟩ := bind_eq_ok_iff.mp read
  obtain ⟨ls, body, read⟩ := bind_eq_ok_iff.mp read
  split at read
  · rename_i counts
    cases read
    exact ⟨counts.1, counts.2, readable_of_body cut body⟩
  · cases read

theorem wellFormed_of_hunks {lines : List (List Char)} (cut : Text.Cut lines) {hs : List Hunk}
    (read : hunks lines = .ok hs) : (∀ h ∈ hs, h.WellFormed) ∧ inOrder hs := by
  cases lines with
  | nil =>
    cases read
    exact ⟨nofun, rfl⟩
  | cons first rest =>
    obtain ⟨found, each, read⟩ := bind_eq_ok_iff.mp read
    split at read
    · rename_i order
      cases read
      refine ⟨fun h hh => ?_, order⟩
      obtain ⟨⟨header, body⟩, mem, read⟩ := exists_of_mapM_eq_ok each hh
      exact wellFormed_of_hunk (cut.of_isInfix (infix_of_mem_groups mem)) read
    · cases read

/-- There is a line for the header of each hunk. -/
theorem length_le_of_hunks {lines : List (List Char)} {hs : List Hunk}
    (read : hunks lines = .ok hs) : hs.length ≤ lines.length := by
  cases lines with
  | nil =>
    cases read
    exact Nat.le_refl 0
  | cons first rest =>
    obtain ⟨found, each, read⟩ := bind_eq_ok_iff.mp read
    split at read
    · cases read
      have headers : ∀ groups : List (List Char × List (List Char)),
          groups.length ≤ (groups.flatMap fun group => group.1 :: group.2).length := by
        intro groups
        induction groups with
        | nil => exact Nat.le_refl 0
        | cons group groups ih =>
          rw [List.flatMap_cons, List.length_append, List.length_cons, List.length_cons]
          omega
      have whole : (groups rest).1 ++ (groups rest).2.flatMap (fun group => group.1 :: group.2) =
          rest := append_flatMap_groups rest
      have count := length_of_mapM_eq_ok each
      have inside := headers (groups rest).2
      have lengths := congrArg List.length whole
      rw [List.length_append] at lengths
      rw [List.length_cons] at count ⊢
      omega
    · cases read

end PatchReading

namespace Patch

/-- The hunks of a patch are read from the last lines of its text, if there are any. -/
theorem hunks_of_parse {path text : String} {p : Patch} (h : parse path text = .ok p) :
    p.hunks = [] ∨ ∃ lines, lines <:+ Text.cutLines text.toList ∧
      PatchReading.hunks lines = .ok p.hunks := by
  unfold parse at h
  split at h
  · split at h
    · rename_i found hs read
      cases h
      obtain ⟨⟨found', rest⟩, named, read⟩ := bind_eq_ok_iff.mp read
      obtain ⟨hs', hunks, read⟩ := bind_eq_ok_iff.mp read
      cases read
      exact .inr ⟨rest, (PatchReading.suffix_of_names named).trans (List.dropWhile_suffix _), hunks⟩
    · cases h
  · obtain ⟨old, -, h⟩ := bind_eq_ok_iff.mp h
    obtain ⟨new, -, h⟩ := bind_eq_ok_iff.mp h
    cases h
    exact .inl rfl

/-- **What is read are hunks that can be read back**, in order. -/
theorem wellFormed_of_parse {path text : String} {p : Patch} (h : parse path text = .ok p) :
    (∀ h ∈ p.hunks, h.WellFormed) ∧ PatchReading.inOrder p.hunks := by
  rcases hunks_of_parse h with none | ⟨lines, last, read⟩
  · rw [none]
    exact ⟨nofun, rfl⟩
  · exact PatchReading.wellFormed_of_hunks ((Text.cut_cutLines _).of_isInfix last.isInfix) read

/-- A text has at least as many lines as hunks. -/
theorem length_hunks_le_of_parse {path text : String} {p : Patch} (h : parse path text = .ok p) :
    p.hunks.length ≤ (Text.lines text).length := by
  rw [Text.lines, List.length_map]
  rcases hunks_of_parse h with none | ⟨lines, last, read⟩
  · rw [none]
    exact Nat.zero_le _
  · exact Nat.le_trans (PatchReading.length_le_of_hunks read) last.length_le

theorem path_of_parse {path text : String} {p : Patch} (h : parse path text = .ok p) :
    p.path = path := by
  unfold parse at h
  split at h
  · split at h <;> cases h
    rfl
  · obtain ⟨old, -, h⟩ := bind_eq_ok_iff.mp h
    obtain ⟨new, -, h⟩ := bind_eq_ok_iff.mp h
    cases h
    rfl

end Patch
end Patchwork
