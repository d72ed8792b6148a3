import Patchwork.Patch.Parse
import Patchwork.Proofs.Text.Lines
import Patchwork.Proofs.Text.Cut
import Patchwork.Proofs.Outcome

/-! The header lines of a patch and of its hunks.  A range is read as it was written
(`range_render`), and so are both ranges of a hunk's header (`ranges_heading`) and the
names of the file (`name_ended`).

The names have a second reader, for patches without hunks.  Where the two give a patch the same
kind is `kind_eq_iff`: the one cuts a name at its tab and takes its quotes off
(`name_eq_noFile_iff`), the other takes off the blanks at its end (`trimEnd_eq_noFile_iff`). -/

namespace Patchwork

namespace LineRange

/-- Both numbers are words. -/
structure IsWord (r : LineRange) : Prop where
  start : r.start < Text.wordLimit
  length : r.length < Text.wordLimit

/-- A range is written with digits and a comma. -/
theorem notMem_render {c : Char} (r : LineRange) (digit : c.isDigit = false) (comma : c ≠ ',') :
    c ∉ r.render.toList := by
  have digits (n : Nat) : c ∉ (toString n).toList := fun h =>
    absurd (Text.isDigit_of_mem_toString h) (Bool.eq_false_iff.mp digit)
  unfold render
  split
  · exact digits r.start
  · simp only [String.toList_append, List.mem_append, not_or]
    exact ⟨⟨digits r.start, by simpa using comma⟩, digits r.length⟩

end LineRange

namespace PatchReading

/-- A range is read as it was written. -/
theorem range_render {r : LineRange} (word : r.IsWord) : range r.render.toList = .ok r := by
  have comma : ',' ∉ (toString r.start).toList := fun h =>
    absurd (Text.isDigit_of_mem_toString h) (by decide)
  have start := Text.word?_toString word.start
  unfold range LineRange.render
  split
  · rename_i single
    have length : Text.word? (String.ofList ['1']) = some r.length := by
      rw [single]
      exact Text.word?_toString (n := 1) (by decide)
    simp only [Text.cutOnce?_of_notMem comma, Option.getD_none, String.ofList_toList, start, length]
  · have cut := Text.cutOnce?_of_notMem_append comma [] (toString r.length).toList
    have length := Text.word?_toString word.length
    simp only [String.toList_append, List.append_assoc]
    rw [show ",".toList = [','] from rfl, cut]
    simp only [Option.getD_some, String.ofList_toList, start, length]

end PatchReading

/-- The line in front of a hunk's lines. -/
def Hunk.heading (h : Hunk) : List Char :=
  "@@ -".toList ++ h.old.render.toList ++ " +".toList ++ h.new.render.toList ++ " @@\n".toList

namespace PatchReading

/-- **A hunk's header is read as it was written.** -/
theorem ranges_heading {h : Hunk} (old : h.old.IsWord) (new : h.new.IsWord) :
    ranges h.heading = .ok (h.old, h.new) := by
  have oldPlain : ' ' ∉ h.old.render.toList := h.old.notMem_render rfl (by decide)
  have newPlain : ' ' ∉ h.new.render.toList := h.new.notMem_render rfl (by decide)
  have body : Text.dropStart? hunkMark h.heading =
      some ('-' :: h.old.render.toList ++ (' ' :: ('+' :: h.new.render.toList ++
        (" @@".toList ++ ['\n'])))) := by
    have opening : "@@ -".toList = hunkMark ++ ['-'] := by decide
    have between : " +".toList = [' ', '+'] := by decide
    have ending : " @@\n".toList = " @@".toList ++ ['\n'] := by decide
    rw [Text.dropStart?_eq_some_iff]
    unfold Hunk.heading
    simp only [opening, between, ending]
    simp only [List.append_assoc, List.cons_append, List.nil_append]
  -- the blank between the ranges does not begin the mark behind them
  have both : Text.cutOnce? " @@".toList ('-' :: h.old.render.toList ++
      (' ' :: ('+' :: h.new.render.toList ++ (" @@".toList ++ ['\n'])))) =
      some ('-' :: h.old.render.toList ++ ' ' :: '+' :: h.new.render.toList, ['\n']) := by
    have apart (rest : List Char) :
        Text.dropStart? [' ', '@', '@'] (' ' :: ('+' :: rest)) = none := rfl
    have second : Text.cutOnce? [' ', '@', '@'] ('+' :: h.new.render.toList ++
        ([' ', '@', '@'] ++ ['\n'])) = some ('+' :: h.new.render.toList, ['\n']) :=
      Text.cutOnce?_of_notMem_append (by simpa using newPlain) ['@', '@'] ['\n']
    have first := @Text.cutOnce?_append_of_notMem ' ' ('-' :: h.old.render.toList)
      (by simpa using oldPlain) ['@', '@'] (' ' :: ('+' :: h.new.render.toList ++
        (" @@".toList ++ ['\n'])))
    rw [show " @@".toList = [' ', '@', '@'] from rfl] at first ⊢
    rw [first, Text.cutOnce?, List.cons_append, apart, ← List.cons_append]
    simp only [second]
    rfl
  have cut : Text.cutOnce? [' '] ('-' :: h.old.render.toList ++ ' ' :: '+' :: h.new.render.toList) =
      some ('-' :: h.old.render.toList, '+' :: h.new.render.toList) :=
    Text.cutOnce?_of_notMem_append (by simpa using oldPlain) [] _
  unfold ranges
  rw [body]
  simp only [both, cut, range_render old, range_render new]
  rfl

/-- A name up to its first tab. -/
def beforeTab (n : String) : String := String.ofList (n.toList.takeWhile (· != '\t'))

theorem beforeTab_append {front : String} (h : '\t' ∉ front.toList) (n : String) :
    beforeTab (front ++ n) = front ++ beforeTab n := by
  have plain : ∀ c ∈ front.toList, (c != '\t') = true := fun c hc =>
    bne_iff_ne.mpr fun same => h (same ▸ hc)
  rw [beforeTab, String.toList_append, List.takeWhile_append_of_pos plain, String.ofList_append,
    String.ofList_toList, beforeTab]

theorem beforeTab_of_notMem {n : String} (h : '\t' ∉ n.toList) : beforeTab n = n := by
  have whole := beforeTab_append h ""
  rw [String.append_empty] at whole
  exact whole.trans String.append_empty

/-- What the rest of a header line names: the text up to the first tab, with its quotes
taken off. -/
theorem name_line {s : String} (oneLine : '\n' ∉ s.toList) : name (s.toList ++ ['\n']) =
    match quoted? (beforeTab s).toList with
    | some inner => (unquote inner).map String.ofList
    | none =>
      if (beforeTab s).toList.any needsQuotes then .error .forbiddenNameCharacter
      else .ok (beforeTab s) := by
  by_cases tab : '\t' ∈ s.toList
  · obtain ⟨front, back, whole, apart⟩ := List.eq_append_cons_of_mem tab
    have first : beforeTab s = String.ofList front := by
      rw [beforeTab, whole, List.takeWhile_append_of_pos]
      · simp
      · exact fun c hc => bne_iff_ne.mpr fun same => apart (same ▸ hc)
    have found : Text.cutOnce? ['\t'] (front ++ '\t' :: (back ++ ['\n'])) =
        some (front, back ++ ['\n']) := Text.cutOnce?_of_notMem_append apart [] _
    cases quoted : quoted? front <;>
      simp only [name, whole, List.append_assoc, List.cons_append, found, first,
        String.toList_ofList, quoted]
  · have absent : '\t' ∉ s.toList ++ ['\n'] := by simpa using tab
    have found : Text.cutOnce? ['\n'] (s.toList ++ ['\n']) = some (s.toList, []) :=
      Text.cutOnce?_of_notMem_append oneLine [] []
    cases quoted : quoted? s.toList <;>
      simp only [name, Text.cutOnce?_of_notMem absent, found, Option.map_some,
        beforeTab_of_notMem tab, String.ofList_toList, quoted]

/-- **A name is read up to its first tab** if nothing in front of that needs quotes. -/
theorem name_ended {n : String} (newline : '\n' ∉ n.toList)
    (plain : (beforeTab n).toList.any needsQuotes = false) :
    name (n.toList ++ ['\n']) = .ok (beforeTab n) := by
  have unquoted : quoted? (beforeTab n).toList = none := by
    unfold quoted?
    split
    · rename_i rest start
      have special := List.any_eq_false.mp plain '"' (start ▸ List.mem_cons_self)
      exact absurd rfl special
    · rfl
  rw [name_line newline, unquoted]
  simp only [plain, Bool.false_eq_true, if_false]

theorem quoted?_eq_some_iff {s inner : List Char} :
    quoted? s = some inner ↔ s = '"' :: (inner ++ ['"']) := by
  constructor
  · intro h
    unfold quoted? at h
    split at h
    · rename_i rest
      split at h
      · rename_i last
        obtain rfl := Option.some.inj h
        obtain ⟨inner, rfl⟩ := List.getLast?_eq_some_iff.mp last
        rw [List.dropLast_concat]
      · cases h
    · cases h
  · rintro rfl
    simp [quoted?]

theorem needsQuotes_of_escaped? {c d : Char} (h : escaped? c = some d) : needsQuotes d := by
  unfold escaped? at h
  split at h <;> cases h <;> rfl

/-- What needs no quotes is not written with escapes. -/
theorem eq_of_unquote {s t : List Char} (read : unquote s = .ok t)
    (plain : t.any needsQuotes = false) : s = t := by
  fun_induction unquote s generalizing t with
  | case1 =>
    cases read
    rfl
  | case2 | case3 | case5 => cases read
  | case4 c rest d escape ih =>
    obtain ⟨u, -, read⟩ := bind_eq_ok_iff.mp read
    cases read
    rw [List.any_cons, needsQuotes_of_escaped? escape, Bool.true_or] at plain
    cases plain
  | case6 c rest _ _ _ ih =>
    obtain ⟨u, inner, read⟩ := bind_eq_ok_iff.mp read
    cases read
    rw [List.any_cons, Bool.or_eq_false_iff] at plain
    rw [ih inner plain.2]

end PatchReading

namespace Patch

/-- The name for no file and nothing behind it but blanks. -/
def BlankedNoFile (s : String) : Prop :=
  ∃ blanks : String, s = noFile ++ blanks ∧ ∀ c ∈ blanks.toList, Text.isBlank c

/-- The name for no file, as it is or in quotes, and nothing behind it or a tab. -/
def TabbedNoFile (s : String) : Prop :=
  PatchReading.beforeTab s = noFile ∨ PatchReading.beforeTab s = "\"" ++ noFile ++ "\""

theorem trimEnd_eq_noFile_iff {s : String} : Text.trimEnd s = noFile ↔ BlankedNoFile s := by
  constructor
  · intro h
    obtain ⟨blanks, whole, blank⟩ := Text.exists_trimEnd_append s
    exact ⟨blanks, h ▸ whole, blank⟩
  · rintro ⟨blanks, rfl, blank⟩
    rw [Text.trimEnd_append_of_blank blank]
    decide

theorem name_eq_noFile_iff {s n : String} (oneLine : '\n' ∉ s.toList)
    (read : PatchReading.name (s.toList ++ ['\n']) = .ok n) : n = noFile ↔ TabbedNoFile s := by
  rw [PatchReading.name_line oneLine] at read
  have quotes : ("\"" ++ noFile ++ "\"").toList = '"' :: (noFile.toList ++ ['"']) := by decide
  cases quoted : PatchReading.quoted? (PatchReading.beforeTab s).toList with
  | none =>
    rw [quoted] at read
    dsimp only at read
    split at read
    · cases read
    · obtain rfl := Except.ok.inj read
      refine ⟨.inl, fun none => none.resolve_right fun inQuotes => ?_⟩
      rw [inQuotes, PatchReading.quoted?_eq_some_iff.mpr quotes] at quoted
      cases quoted
  | some inner =>
    rw [quoted] at read
    have written := PatchReading.quoted?_eq_some_iff.mp quoted
    obtain ⟨t, inside, rfl⟩ := map_eq_ok_iff.mp read
    constructor
    · intro none
      have chars : t = noFile.toList := by rw [← none, String.toList_ofList]
      have same := PatchReading.eq_of_unquote inside (chars ▸ by decide)
      exact .inr (String.toList_inj.mp (by rw [written, same, chars, quotes]))
    · rintro (plain | inQuotes)
      · rw [plain] at written
        cases written
      · rw [inQuotes, quotes] at written
        have same : inner = noFile.toList :=
          List.append_cancel_right (List.cons_inj_right _ |>.mp written).symm
        rw [same] at inside
        have read : PatchReading.unquote noFile.toList = .ok noFile.toList := by rfl
        rw [Except.ok.inj (inside.symm.trans read), String.ofList_toList]

/-! ## The kind of a patch -/

theorem kindOf_eq_iff {a b c d : String} :
    kindOf (some a) (some b) = kindOf (some c) (some d) ↔
      (a = noFile ↔ c = noFile) ∧ (c ≠ noFile → (b = noFile ↔ d = noFile)) := by
  by_cases ha : a = noFile <;> by_cases hc : c = noFile <;> by_cases hb : b = noFile <;>
    by_cases hd : d = noFile <;> simp [kindOf, ha, hb, hc, hd]

/-- The two lines that name a file, in either order. -/
def heading (old new : String) (swapped : Bool) : String :=
  if swapped then "+++ " ++ new ++ "\n" ++ ("--- " ++ old ++ "\n")
  else "--- " ++ old ++ "\n" ++ ("+++ " ++ new ++ "\n")

/-- Reading what names stand in front of hunks goes on up to a line without a mark. -/
theorem names_eq {found found' : PatchReading.Names} {lines rest : List (List Char)}
    (old : found.old.isSome) (new : found.new.isSome)
    (read : PatchReading.names found lines = .ok (found', rest)) : found' = found := by
  unfold PatchReading.names at read
  split at read
  · cases read; rfl
  · split at read
    · rw [if_pos old] at read; cases read
    · rw [if_pos new] at read; cases read
    · cases read; rfl

section Heading
variable {old new : String} (oldLine : '\n' ∉ old.toList) (newLine : '\n' ∉ new.toList)
include oldLine newLine

/-- A text that begins with the names has them on its first two lines. -/
theorem cutLines_heading (swapped : Bool) (after : String) :
    Text.cutLines (heading old new swapped ++ after).toList =
      (if swapped then
        [PatchReading.newMark ++ (new.toList ++ ['\n']), PatchReading.oldMark ++ (old.toList ++ ['\n'])]
      else
        [PatchReading.oldMark ++ (old.toList ++ ['\n']), PatchReading.newMark ++ (new.toList ++ ['\n'])]) ++
        Text.cutLines after.toList := by
  have first {mark : List Char} {s : String} (hmark : '\n' ∉ mark) (hs : '\n' ∉ s.toList)
      (rest : List Char) : Text.cutLines (mark ++ (s.toList ++ '\n' :: rest)) =
        (mark ++ (s.toList ++ ['\n'])) :: Text.cutLines rest := by
    rw [← List.append_assoc, Text.cutLines_ended (by simp [hmark, hs]), List.append_assoc]
  have oldMark : '\n' ∉ PatchReading.oldMark := by decide
  have newMark : '\n' ∉ PatchReading.newMark := by decide
  cases swapped with
  | true =>
    have chars : (heading old new true ++ after).toList = PatchReading.newMark ++ (new.toList ++
        '\n' :: (PatchReading.oldMark ++ (old.toList ++ '\n' :: after.toList))) := by
      simp [heading, PatchReading.newMark, PatchReading.oldMark]
    rw [chars, first newMark newLine, first oldMark oldLine]
    rfl
  | false =>
    have chars : (heading old new false ++ after).toList = PatchReading.oldMark ++ (old.toList ++
        '\n' :: (PatchReading.newMark ++ (new.toList ++ '\n' :: after.toList))) := by
      simp [heading, PatchReading.newMark, PatchReading.oldMark]
    rw [chars, first oldMark oldLine, first newMark newLine]
    rfl

/-- The same lines without what ends them. -/
theorem bareLines_heading (swapped : Bool) : Text.bareLines (heading old new swapped) =
    let oldName := "--- " ++ Text.bareLine (old ++ "\n")
    let newName := "+++ " ++ Text.bareLine (new ++ "\n")
    if swapped then [newName, oldName] else [oldName, newName] := by
  have oldBare : Text.bareLine (String.ofList (PatchReading.oldMark ++ (old.toList ++ ['\n']))) =
      "--- " ++ Text.bareLine (old ++ "\n") := Text.bareLine_ofList_append (by decide) old
  have newBare : Text.bareLine (String.ofList (PatchReading.newMark ++ (new.toList ++ ['\n']))) =
      "+++ " ++ Text.bareLine (new ++ "\n") := Text.bareLine_ofList_append (by decide) new
  have lines := cutLines_heading oldLine newLine swapped ""
  rw [String.append_empty] at lines
  rw [Text.bareLines, Text.lines, lines]
  cases swapped
  · simp only [Bool.false_eq_true, if_false, List.map_append, List.map_cons, oldBare, newBare]
    rfl
  · simp only [if_true, List.map_append, List.map_cons, oldBare, newBare]
    rfl

/-- The reader of names alone trims them. -/
theorem parseHeader_heading (path : String) (swapped : Bool) :
    parseHeader path (heading old new swapped) =
      .ok ⟨path, kindOf (some (Text.trimEnd old)) (some (Text.trimEnd new)), []⟩ := by
  have apart (s : String) : Text.after? "+++ " ("--- " ++ s) = none ∧
      Text.after? "--- " ("+++ " ++ s) = none := by
    simp only [Text.after?, String.toList_append]
    exact ⟨rfl, rfl⟩
  have oldRead : headerName path "--- " (heading old new swapped) = .ok (Text.trimEnd old) := by
    rw [headerName, bareLines_heading oldLine newLine]
    cases swapped <;> simp [apart, Text.after?_append, Text.trimEnd_bareLine]
  have newRead : headerName path "+++ " (heading old new swapped) = .ok (Text.trimEnd new) := by
    rw [headerName, bareLines_heading oldLine newLine]
    cases swapped <;> simp [apart, Text.after?_append, Text.trimEnd_bareLine]
  rw [parseHeader, oldRead, newRead]
  rfl

theorem hasHunks_heading (swapped : Bool) : hasHunks (heading old new swapped) = false := by
  have apart (s : String) : Text.startsWith "@@" ("--- " ++ s) = false ∧
      Text.startsWith "@@" ("+++ " ++ s) = false := by
    simp only [Text.startsWith, Text.after?, String.toList_append]
    exact ⟨rfl, rfl⟩
  rw [hasHunks, bareLines_heading oldLine newLine]
  cases swapped <;> simp [apart]

/-- The reader of hunks takes each name up to its tab and without its quotes. -/
theorem exists_names_of_heading {swapped : Bool} {after : String} {found : PatchReading.Names}
    {hunks : List Hunk}
    (read : PatchReading.text (heading old new swapped ++ after) = .ok (found, hunks)) :
    ∃ m n, PatchReading.name (old.toList ++ ['\n']) = .ok m ∧
      PatchReading.name (new.toList ++ ['\n']) = .ok n ∧ found = ⟨some m, some n⟩ := by
  have oldBegins : PatchReading.begins (PatchReading.oldMark ++ (old.toList ++ ['\n'])) := by
    simp [PatchReading.begins, Text.dropStart?_append]
  have newBegins : PatchReading.begins (PatchReading.newMark ++ (new.toList ++ ['\n'])) := by
    simp [PatchReading.begins, Text.dropStart?_append]
  have apart : Text.dropStart? PatchReading.oldMark
      (PatchReading.newMark ++ (new.toList ++ ['\n'])) = none := rfl
  rw [PatchReading.text, cutLines_heading oldLine newLine] at read
  obtain ⟨⟨found', rest⟩, named, read⟩ := bind_eq_ok_iff.mp read
  obtain ⟨hs, -, read⟩ := bind_eq_ok_iff.mp read
  cases read
  cases swapped with
  | true =>
    rw [if_pos rfl, List.cons_append, List.dropWhile_cons_of_neg (by simp [newBegins]),
      PatchReading.names, apart] at named
    simp only [Text.dropStart?_append] at named
    obtain ⟨n, newName, named⟩ := bind_eq_ok_iff.mp named
    simp only [List.cons_append, List.nil_append, PatchReading.names, Text.dropStart?_append] at named
    obtain ⟨m, oldName, named⟩ := bind_eq_ok_iff.mp named
    exact ⟨m, n, oldName, newName, names_eq rfl rfl named⟩
  | false =>
    rw [if_neg Bool.false_ne_true, List.cons_append,
      List.dropWhile_cons_of_neg (by simp [oldBegins]), PatchReading.names] at named
    simp only [Text.dropStart?_append] at named
    obtain ⟨m, oldName, named⟩ := bind_eq_ok_iff.mp named
    simp only [List.cons_append, List.nil_append, PatchReading.names, apart,
      Text.dropStart?_append] at named
    obtain ⟨n, newName, named⟩ := bind_eq_ok_iff.mp named
    exact ⟨m, n, oldName, newName, names_eq rfl rfl named⟩

/-- **The two readers of names agree on the kind of a patch** exactly when each takes a line
for no file as the other does: the one takes blanks off the end of a name, the other ends
it at a tab and takes it out of quotes.  The line of the new file tells only where that of
the old one names a file. -/
theorem kind_eq_iff {path after : String} {q : Patch} (swapped : Bool)
    (hunks : hasHunks (heading old new swapped ++ after))
    (read : parse path (heading old new swapped ++ after) = .ok q) :
    ∃ p, parse path (heading old new swapped) = .ok p ∧
      (p.kind = q.kind ↔ (BlankedNoFile old ↔ TabbedNoFile old) ∧
        (¬ TabbedNoFile old → (BlankedNoFile new ↔ TabbedNoFile new))) := by
  have alone : parse path (heading old new swapped) =
      .ok ⟨path, kindOf (some (Text.trimEnd old)) (some (Text.trimEnd new)), []⟩ := by
    rw [parse, hasHunks_heading oldLine newLine, if_neg Bool.false_ne_true,
      parseHeader_heading oldLine newLine]
  refine ⟨_, alone, ?_⟩
  rw [parse, if_pos hunks] at read
  split at read
  · rename_i found hs text
    obtain rfl := Except.ok.inj read
    obtain ⟨m, n, oldName, newName, rfl⟩ := exists_names_of_heading oldLine newLine text
    rw [kindOf_eq_iff, trimEnd_eq_noFile_iff, trimEnd_eq_noFile_iff, Ne,
      name_eq_noFile_iff oldLine oldName, name_eq_noFile_iff newLine newName]
  · cases read

end Heading

/-- The two readers differ where a date stands behind the name for no file. -/
theorem kind_eq_iff_dated :
    ∃ q, parse "F" (heading "/dev/null\t2024-01-01" "b/F" false ++ "@@ -0,0 +1 @@\n+x\n") = .ok q ∧
      q.kind = .add ∧
      ∃ p, parse "F" (heading "/dev/null\t2024-01-01" "b/F" false) = .ok p ∧ p.kind ≠ q.kind := by
  have read : parse "F" (heading "/dev/null\t2024-01-01" "b/F" false ++ "@@ -0,0 +1 @@\n+x\n") =
      .ok ⟨"F", .add, [⟨⟨0, 0⟩, ⟨1, 1⟩, [.insert "x\n"]⟩]⟩ := by rfl
  obtain ⟨p, alone, kind⟩ := kind_eq_iff (by decide) (by decide) false (by rfl) read
  refine ⟨_, read, rfl, p, alone, fun same => ?_⟩
  have blanked := (kind.mp same).1.mpr (.inl (by rfl))
  rw [← trimEnd_eq_noFile_iff] at blanked
  exact absurd blanked (by decide)

end Patch
end Patchwork
