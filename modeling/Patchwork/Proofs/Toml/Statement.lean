import Patchwork.Toml.Document
import Patchwork.Proofs.Toml.Literal

/-! Statements that are read again.  A line with an entry is read as an assignment of the same value to
the same names (`statements?_entry`), a line with a header as a header of the same names
(`statements?_header`); so entries and blocks that are written one after another are read as
entries and blocks that say the same (`statements?_entries`, `statements?_blocks`).  And what was read
can be written and read again (`ok_of_statements?`). -/

namespace Patchwork.Toml

/-! ## What stands in front of a statement -/

/-- **What may stand in front of a statement**: blanks, line ends and comments, behind which the
statement is found wherever they are read. -/
def Lead (w : List Char) : Prop := ∀ {c : Char}, EndsGap c → ∀ t, gap false (w ++ c :: t) = (w, c :: t)

theorem lead_of_gap {s w t : List Char} {c : Char} (h : gap false s = (w, c :: t))
    (textual : isTextual c) : Lead w :=
  fun ends t' => gap_append h textual ends t'

theorem lead_nil : Lead [] := by
  intro c ends t
  obtain ⟨newline, carriage⟩ := isTextual_of_endsGap ends
  rw [List.nil_append, gap.eq_4 _ _ _ newline fun _ same _ => carriage same, if_neg]
  simp [ends.solid, ends.plain]

theorem lead_newline : Lead ['\n'] := by
  intro c ends t
  have next := lead_nil ends t
  rw [List.nil_append] at next
  rw [List.singleton_append, gap, next]

theorem endsGap_opening : EndsGap '[' := ⟨by decide, by decide, by decide⟩

/-! ## Lines -/

/-- **An entry that can stand on a line of its own**, behind a key that ends in the part. -/
structure OnLine (key : KeyPart) (e : Entry) : Prop where
  readable : e.Readable (value? (depthLimit - 1))
  after : Trails e.around.after.toList
  outer : Lead key.outer.before.toList ∧ Blank key.outer.after

/-- **A header that can stand on a line of its own.** -/
structure HeaderOk (name : Key) (around : Margin) : Prop where
  key : name.Readable (depthLimit - 1)
  outer : Blank name.last.outer.before ∧ Blank name.last.outer.after
  before : Lead around.before.toList
  after : Trails around.after.toList

/-- Whether a statement can be written again. -/
def Statement.Ok : Statement → Prop
  | .assign key e => EntryOk OnLine (depthLimit - 1) (key, e)
  | .header key around | .arrayHeader key around => HeaderOk key around

section
variable {lead s t rest : List Char} {c : Char} {st : Statement}

/-- An entry that was read on a line of its own can stand on one. -/
theorem ok_of_assign? (cut : gap false s = (lead, c :: t))
    (h : assign? lead (c :: t) = some (st, rest)) : st.Ok := by
  have solid := not_isSpace_of_gap cut
  obtain ⟨⟨key, rest₁⟩, named, h⟩ := Option.bind_eq_some_iff.mp h
  obtain ⟨rest₂, -, h⟩ := Option.bind_eq_some_iff.mp h
  obtain ⟨⟨v, w, rest₃⟩, value, h⟩ := Option.bind_eq_some_iff.mp h
  obtain ⟨⟨after, rest₄⟩, ended, h⟩ := Option.bind_eq_some_iff.mp h
  cases h
  obtain ⟨readable, -, blank⟩ := readable_of_key? named
  obtain ⟨trails, ends⟩ := trails_of_lineEnd? ended
  obtain ⟨start, outer⟩ := startsKey_of_key? named solid
  have clear : Lead lead := lead_of_gap cut start.textual
  have parts : ∀ p ∈ (key.after (String.ofList lead)).parts, p.Readable := by
    intro p hp
    rcases List.mem_append.mp hp with hp | hp
    · exact readable.parts p (List.mem_append_left _ hp)
    · have last := readable.parts key.last (List.mem_append_right _ List.mem_cons_self)
      rw [List.mem_singleton.mp hp]
      exact ⟨last.starts, last.reads, last.before, last.after⟩
  have size : (key.after (String.ofList lead)).parts.length ≤ depthLimit - 1 := by
    have size := readable.size
    rwa [Key.parts, List.length_append] at size ⊢
  refine ⟨⟨parts, size⟩, entryReadable_of_read (value?_append _) value ends _ (spaces_fst rest₂),
    ?_, ?_, blank⟩
  · rwa [String.toList_ofList]
  · dsimp only [Key.after]
    rwa [outer, String.append_empty, String.toList_ofList]

/-- So can a header. -/
theorem ok_of_header? (cut : gap false s = (lead, '[' :: t))
    (h : header? lead t = some (st, rest)) : st.Ok := by
  have clear : Lead lead := lead_of_gap cut (by decide)
  have made : ∀ {s r after rest' : List Char} {key : Key}, key? s = some (key, r) →
      lineEnd? rest' = some (after, rest) →
      HeaderOk key ⟨String.ofList lead, String.ofList after⟩ := by
    intro s r after rest' key named ended
    obtain ⟨readable, outer⟩ := readable_of_key? named
    refine ⟨readable, outer, ?_, ?_⟩
    · rwa [String.toList_ofList]
    · rw [String.toList_ofList]
      exact (trails_of_lineEnd? ended).1
  unfold header? at h
  split at h
  · obtain ⟨⟨key, r⟩, named, h⟩ := Option.bind_eq_some_iff.mp h
    obtain ⟨rest₁, -, h⟩ := Option.bind_eq_some_iff.mp h
    obtain ⟨rest₂, -, h⟩ := Option.bind_eq_some_iff.mp h
    obtain ⟨⟨after, rest₃⟩, ended, h⟩ := Option.bind_eq_some_iff.mp h
    cases h
    exact made named ended
  · obtain ⟨⟨key, r⟩, named, h⟩ := Option.bind_eq_some_iff.mp h
    obtain ⟨rest₁, -, h⟩ := Option.bind_eq_some_iff.mp h
    obtain ⟨⟨after, rest₂⟩, ended, h⟩ := Option.bind_eq_some_iff.mp h
    cases h
    exact made named ended

end

/-- **What was read can be written and read again.** -/
theorem ok_of_statements? {fuel : Nat} {s : List Char} {statements : List Statement} {tail : String}
    (h : statements? fuel s = some (statements, tail)) :
    (∀ st ∈ statements, st.Ok) ∧ gap false tail.toList = (tail.toList, []) := by
  induction fuel generalizing s statements with
  | zero => cases h
  | succ fuel ih =>
    rw [statements?] at h
    rcases cut : gap false s with ⟨lead, t⟩
    rw [cut] at h
    dsimp only at h
    split at h
    · cases h
      refine ⟨nofun, ?_⟩
      rw [String.toList_ofList]
      exact gap_of_gap_eq_nil cut
    · obtain ⟨⟨st, rest⟩, first, h⟩ := Option.bind_eq_some_iff.mp h
      obtain ⟨⟨more, tail'⟩, others, h⟩ := Option.bind_eq_some_iff.mp h
      cases h
      obtain ⟨ok, blank⟩ := ih others
      exact ⟨List.forall_mem_cons.mpr ⟨ok_of_header? cut first, ok⟩, blank⟩
    · obtain ⟨⟨st, rest⟩, first, h⟩ := Option.bind_eq_some_iff.mp h
      obtain ⟨⟨more, tail'⟩, others, h⟩ := Option.bind_eq_some_iff.mp h
      cases h
      obtain ⟨ok, blank⟩ := ih others
      rcases t with _ | ⟨c, t⟩
      · rename_i none _
        exact absurd rfl none
      · exact ⟨List.forall_mem_cons.mpr ⟨ok_of_assign? cut first, ok⟩, blank⟩

section
variable {key : Key} {before after : String} {r : List Char}

/-- The text of a key between two marks. -/
theorem key?_render (readable : key.Readable (depthLimit - 1)) (before : Blank key.last.outer.before)
    (after : Blank key.last.outer.after) (ends : EndsName r) (solid : ∀ c ∈ r.head?, ¬ isSpace c)
    (last : NotAhead '.' r) :
    ∃ k', key? (key.render.toList ++ r) = some (k', r) ∧ k'.names = key.names := by
  have whole : key.render.toList ++ r = key.last.outer.before.toList ++
      ((Key.joined key.parts).toList ++ (key.last.outer.after.toList ++ r)) := by
    simp only [Key.render, String.toList_append, List.append_assoc, Key.parts]
  rw [whole]
  exact key?_joined readable before after ends solid last

end

/-! ## One statement after another -/

section
variable {s lead t rest : List Char} {c : Char} {st : Statement}

theorem statements?_assign (cut : gap false s = (lead, c :: t)) (other : c ≠ '[') (fuel : Nat) :
    statements? (fuel + 1) s = (assign? lead (c :: t)).bind fun first =>
      (statements? fuel first.2).map fun p => (first.1 :: p.1, p.2) := by
  rw [statements?, cut]
  dsimp only
  split
  · rename_i none
    cases none
  · rename_i opening
    exact absurd (List.cons.inj opening).1 other
  · refine congrArg (Option.bind _) (funext fun first => ?_)
    exact (Option.map_eq_bind ..).symm

theorem statements?_of_header? (cut : gap false s = (lead, '[' :: t))
    (read : header? lead t = some (st, rest)) (fuel : Nat) :
    statements? (fuel + 1) s = (statements? fuel rest).map fun p => (st :: p.1, p.2) := by
  rw [statements?, cut]
  simp only [read, Option.bind_eq_bind, Option.bind_some]
  exact (Option.map_eq_bind ..).symm

end

/-- **An entry is read again** from its line. -/
theorem statements?_entry {m : Key × Entry} (ok : EntryOk OnLine (depthLimit - 1) m)
    (rest : List Char) : ∃ m' : Key × Entry, m'.1.names = m.1.names ∧ m'.2.value = m.2.value ∧
      ∀ fuel, statements? (fuel + 1) ((m.2.render m.1).toList ++ '\n' :: rest) =
        (statements? fuel rest).map fun p => (.assign m'.1 m'.2 :: p.1, p.2) := by
  obtain ⟨key, e⟩ := m
  obtain ⟨readable, ⟨⟨x, w, text, start⟩, reads, before⟩, after, clear, blank⟩ := ok
  dsimp only at readable text reads before after clear blank ⊢
  have equals : "=".toList = ['='] := by decide
  have some_part : key.parts ≠ [] := List.append_ne_nil_of_right_ne_nil _ (List.cons_ne_nil _ _)
  obtain ⟨y, t, joined, starts⟩ := joined_starts some_part readable.parts
  obtain ⟨back, back_eq⟩ : ∃ back, back = '=' :: (e.around.before.toList ++
      (e.text.toList ++ (e.around.after.toList ++ '\n' :: rest))) := ⟨_, rfl⟩
  have whole : (e.render key).toList ++ '\n' :: rest =
      key.last.outer.before.toList ++ y :: (t ++ (key.last.outer.after.toList ++ back)) := by
    rw [← List.cons_append, ← joined, back_eq]
    simp only [Entry.render, Key.render, String.toList_append, equals, List.append_assoc,
      List.cons_append, List.nil_append, Key.parts]
  have mark : ∀ c ∈ back.head?, c = '=' := by
    rw [back_eq]
    rintro c ⟨⟩
    rfl
  obtain ⟨key', named, names⟩ := @key?_joined key readable [] key.last.outer.after.toList back
    (List.forall_mem_nil _) blank (fun c hc => mark c hc ▸ by decide)
    (fun c hc => mark c hc ▸ by decide) (fun c hc => mark c hc ▸ by decide)
  rw [joined, List.nil_append, List.cons_append] at named
  have first : spaces (e.around.before.toList ++ (e.text.toList ++
      (e.around.after.toList ++ '\n' :: rest))) =
      (e.around.before.toList, e.text.toList ++ (e.around.after.toList ++ '\n' :: rest)) := by
    refine spaces_append before ?_
    rw [text]
    rintro c ⟨⟩
    exact start.solid
  obtain ⟨w', value⟩ := reads _ (after.endsValue rest)
  refine ⟨(key'.after (String.ofList key.last.outer.before.toList), ⟨e.value, String.ofList w',
    ⟨String.ofList e.around.before.toList, String.ofList e.around.after.toList⟩⟩), ?_, rfl, fun fuel => ?_⟩
  · rw [← names, Key.names, Key.names, Key.parts, Key.parts, List.map_append, List.map_append]
    rfl
  · rw [whole, statements?_assign (clear starts.toEndsGap _) starts.other, assign?, named, back_eq]
    simp only [Option.bind_eq_bind, Option.bind_some, skip?_self, first, value, after.lineEnd?]
    rfl

section
variable {key : Key} {s r rest lead after : List Char}

theorem header?_single (other : ∀ t, s ≠ '[' :: t) (named : key? s = some (key, ']' :: r))
    (ended : lineEnd? r = some (after, rest)) :
    header? lead s = some (.header key ⟨String.ofList lead, String.ofList after⟩, rest) := by
  unfold header?
  split
  · exact absurd rfl (other _)
  · simp only [named, ended, skip?_self, Option.bind_eq_bind, Option.bind_some]
    rfl

theorem header?_double (named : key? s = some (key, ']' :: ']' :: r))
    (ended : lineEnd? r = some (after, rest)) :
    header? lead ('[' :: s) =
      some (.arrayHeader key ⟨String.ofList lead, String.ofList after⟩, rest) := by
  simp only [header?, named, ended, skip?_self, Option.bind_eq_bind, Option.bind_some]
  rfl

end

/-- A statement that is a header. -/
def Statement.ofHeader (key : Key) (isArrayItem : Bool) (around : Margin) : Statement :=
  if isArrayItem then .arrayHeader key around else .header key around

/-- **A header is read again** from its line. -/
theorem statements?_header {key : Key} {around : Margin} (ok : HeaderOk key around)
    (isArrayItem : Bool) (rest : List Char) : ∃ key' around', key'.names = key.names ∧
      ∀ fuel, statements? (fuel + 1) ((Section.headerLine key isArrayItem around).toList ++ rest) =
        (statements? fuel rest).map fun p => (.ofHeader key' isArrayItem around' :: p.1, p.2) := by
  have newline : "\n".toList = ['\n'] := by decide
  have ended := ok.after.lineEnd? rest
  obtain ⟨lead, lead_eq⟩ : ∃ lead, around.before.toList = lead := ⟨_, rfl⟩
  have clear : Lead lead := lead_eq ▸ ok.before
  cases isArrayItem with
  | false =>
    have marks : "[".toList = ['['] ∧ "]".toList = [']'] := by decide
    obtain ⟨key', named, names⟩ := key?_render (r := ']' :: (around.after.toList ++ '\n' :: rest))
      ok.key ok.outer.1 ok.outer.2 (by rintro c ⟨⟩; decide) (by rintro c ⟨⟩; decide)
      (by rintro c ⟨⟩; decide)
    have other : ∀ t, key.render.toList ++ ']' :: (around.after.toList ++ '\n' :: rest) ≠ '[' :: t := by
      intro t same
      have some_part : key.parts ≠ [] := List.append_ne_nil_of_right_ne_nil _ (List.cons_ne_nil _ _)
      obtain ⟨y, t', joined, starts⟩ := joined_starts some_part ok.key.parts
      have text : key.render.toList = key.last.outer.before.toList ++
          (y :: t' ++ key.last.outer.after.toList) := by
        rw [← joined]
        simp only [Key.render, String.toList_append, List.append_assoc, Key.parts]
      rw [text] at same
      rcases before : key.last.outer.before.toList with _ | ⟨d, blanks⟩ <;> rw [before] at same
      · exact starts.other (List.cons.inj same).1
      · have blank := ok.outer.1 d (by rw [before]; exact List.mem_cons_self)
        rw [(List.cons.inj same).1] at blank
        exact absurd blank (by decide)
    have whole : (Section.headerLine key false around).toList ++ rest =
        lead ++ '[' :: (key.render.toList ++ ']' :: (around.after.toList ++ '\n' :: rest)) := by
      rw [← lead_eq]
      simp only [Section.headerLine, Bool.false_eq_true, if_false, String.toList_append, marks, newline,
        List.append_assoc, List.cons_append, List.nil_append]
    refine ⟨key', ⟨String.ofList lead, String.ofList around.after.toList⟩, names, fun fuel => ?_⟩
    rw [whole]
    exact statements?_of_header? (clear endsGap_opening _) (header?_single other named ended) fuel
  | true =>
    have marks : "[[".toList = ['[', '['] ∧ "]]".toList = [']', ']'] := by decide
    obtain ⟨key', named, names⟩ := key?_render
      (r := ']' :: ']' :: (around.after.toList ++ '\n' :: rest))
      ok.key ok.outer.1 ok.outer.2 (by rintro c ⟨⟩; decide) (by rintro c ⟨⟩; decide)
      (by rintro c ⟨⟩; decide)
    have whole : (Section.headerLine key true around).toList ++ rest =
        lead ++ '[' :: '[' :: (key.render.toList ++
          ']' :: ']' :: (around.after.toList ++ '\n' :: rest)) := by
      rw [← lead_eq]
      simp only [Section.headerLine, if_true, String.toList_append, marks, newline,
        List.append_assoc, List.cons_append, List.nil_append]
    refine ⟨key', ⟨String.ofList lead, String.ofList around.after.toList⟩, names, fun fuel => ?_⟩
    rw [whole]
    exact statements?_of_header? (clear endsGap_opening _) (header?_double named ended) fuel

/-! ## Entries and blocks -/

/-- The lines of some entries. -/
def entryLines (entries : List (Key × Entry)) : List Char :=
  entries.flatMap fun m => (m.2.render m.1).toList ++ ['\n']

/-- The statements of some entries. -/
def assignments (entries : List (Key × Entry)) : List Statement :=
  entries.map fun m => .assign m.1 m.2

/-- **Entries are read again** from their lines, in front of whatever follows. -/
theorem statements?_entries {entries : List (Key × Entry)}
    (ok : ∀ m ∈ entries, EntryOk OnLine (depthLimit - 1) m) (rest : List Char) :
    ∃ entries', (∀ hide, plainEntries hide entries' = plainEntries hide entries) ∧
      ∀ fuel, statements? (fuel + entries.length) (entryLines entries ++ rest) =
        (statements? fuel rest).map fun p => (assignments entries' ++ p.1, p.2) := by
  induction entries with
  | nil =>
    refine ⟨[], fun _ => rfl, fun fuel => ?_⟩
    exact (congrFun Option.map_id (statements? fuel rest)).symm
  | cons m entries ih =>
    obtain ⟨first, others⟩ := List.forall_mem_cons.mp ok
    obtain ⟨entries', alike, onward⟩ := ih others
    obtain ⟨m', names, value, read⟩ := statements?_entry first (entryLines entries ++ rest)
    refine ⟨m' :: entries', fun hide => ?_, fun fuel => ?_⟩
    · rw [plainEntries, List.map_cons, plain_of_names names, names, Entry.plain, value]
      exact congrArg _ (alike hide)
    · have text : entryLines (m :: entries) ++ rest =
          (m.2.render m.1).toList ++ '\n' :: (entryLines entries ++ rest) := by
        rw [entryLines, List.flatMap_cons, ← entryLines, List.append_assoc, List.append_assoc,
          List.singleton_append]
      rw [text, List.length_cons, ← Nat.add_assoc, read, onward, Option.map_map]
      rfl

/-- The text of a block. -/
def Block.lines (b : Block) : List Char :=
  (Section.headerLine b.key b.isArrayItem b.around).toList ++ entryLines b.body

/-- A block that can be written and read again. -/
structure Block.Ok (b : Block) : Prop where
  header : HeaderOk b.key b.around
  body : ∀ m ∈ b.body, EntryOk OnLine (depthLimit - 1) m

theorem Block.statements_eq (b : Block) :
    b.statements = .ofHeader b.key b.isArrayItem b.around :: assignments b.body := rfl

/-- **A block is read again** from its lines, in front of whatever follows. -/
theorem statements?_block {b : Block} (ok : b.Ok) (rest : List Char) :
    ∃ b' : Block, (∀ hide, b'.plain hide = b.plain hide) ∧
      ∀ fuel, statements? (fuel + b.statements.length) (b.lines ++ rest) =
        (statements? fuel rest).map fun p => (b'.statements ++ p.1, p.2) := by
  obtain ⟨entries, alike, onward⟩ := statements?_entries ok.body rest
  obtain ⟨key, around, names, read⟩ :=
    statements?_header ok.header b.isArrayItem (entryLines b.body ++ rest)
  refine ⟨⟨key, b.isArrayItem, around, entries⟩, fun hide => ?_, fun fuel => ?_⟩
  · rw [Block.plain, Block.plain, plain_of_names names, names, alike]
  · have size : b.statements.length = b.body.length + 1 := by
      rw [Block.statements_eq, List.length_cons, assignments, List.length_map]
    rw [size, ← Nat.add_assoc, Block.lines, List.append_assoc, read, onward, Option.map_map]
    rfl

/-- **Blocks are read again** one after another. -/
theorem statements?_blocks {blocks : List Block} (ok : ∀ b ∈ blocks, b.Ok) (rest : List Char) :
    ∃ blocks' : List Block, (∀ hide, blocks'.map (Block.plain hide) = blocks.map (Block.plain hide)) ∧
      ∀ fuel, statements? (fuel + (blocks.flatMap Block.statements).length)
          (blocks.flatMap Block.lines ++ rest) =
        (statements? fuel rest).map fun p => (blocks'.flatMap Block.statements ++ p.1, p.2) := by
  induction blocks with
  | nil =>
    refine ⟨[], fun _ => rfl, fun fuel => ?_⟩
    exact (congrFun Option.map_id (statements? fuel rest)).symm
  | cons b blocks ih =>
    obtain ⟨first, others⟩ := List.forall_mem_cons.mp ok
    obtain ⟨blocks', alike, onward⟩ := ih others
    obtain ⟨b', same, read⟩ := statements?_block first (blocks.flatMap Block.lines ++ rest)
    refine ⟨b' :: blocks', fun hide => ?_, fun fuel => ?_⟩
    · rw [List.map_cons, List.map_cons, same, alike]
    · have size : (List.flatMap Block.statements (b :: blocks)).length =
          (blocks.flatMap Block.statements).length + b.statements.length := by
        rw [List.flatMap_cons, List.length_append, Nat.add_comm]
      rw [size, List.flatMap_cons, List.append_assoc, ← Nat.add_assoc, read, onward, Option.map_map]
      refine congrArg (fun f => (statements? fuel rest).map f) (funext fun p => ?_)
      rw [Function.comp, List.flatMap_cons, List.append_assoc]

/-! ## There is fuel enough -/

theorem length_le_entryLines (entries : List (Key × Entry)) :
    entries.length ≤ (entryLines entries).length := by
  induction entries with
  | nil => exact Nat.le_refl _
  | cons m entries ih =>
    rw [entryLines, List.flatMap_cons, ← entryLines, List.length_append, List.length_append,
      List.length_singleton, List.length_cons]
    omega

theorem length_le_lines (b : Block) : b.statements.length ≤ b.lines.length := by
  have body := length_le_entryLines b.body
  have line : 1 ≤ (Section.headerLine b.key b.isArrayItem b.around).toList.length := by
    have newline : "\n".toList = ['\n'] := by decide
    rw [Section.headerLine, String.toList_append, newline, List.length_append]
    exact Nat.le_add_left _ _
  rw [Block.statements_eq, Block.lines, List.length_append, List.length_cons, assignments,
    List.length_map]
  omega

theorem length_le_blocks (blocks : List Block) :
    (blocks.flatMap Block.statements).length ≤ (blocks.flatMap Block.lines).length := by
  induction blocks with
  | nil => exact Nat.le_refl _
  | cons b blocks ih =>
    have first := length_le_lines b
    rw [List.flatMap_cons, List.flatMap_cons, List.length_append, List.length_append]
    omega

/-- What is blank up to the end of a text is read as no statement. -/
theorem statements?_tail {w : List Char} (blank : gap false w = (w, [])) (fuel : Nat) :
    statements? (fuel + 1) w = some ([], String.ofList w) := by
  rw [statements?, blank]
  rfl

/-- **A text of entries and blocks is read** as entries and blocks that say the same. -/
theorem statements?_document {entries : List (Key × Entry)} {blocks : List Block}
    (ok : ∀ m ∈ entries, EntryOk OnLine (depthLimit - 1) m) (ok' : ∀ b ∈ blocks, b.Ok)
    {tail : List Char} (blank : gap false tail = (tail, [])) {s : List Char}
    (text : s = entryLines entries ++ (blocks.flatMap Block.lines ++ tail)) :
    ∃ (entries' : List (Key × Entry)) (blocks' : List Block), statements? (s.length + 1) s =
        some (assignments entries' ++ blocks'.flatMap Block.statements, String.ofList tail) ∧
      (∀ hide, plainEntries hide entries' = plainEntries hide entries) ∧
      ∀ hide, blocks'.map (Block.plain hide) = blocks.map (Block.plain hide) := by
  obtain ⟨blocks', alike', onward'⟩ := statements?_blocks ok' tail
  obtain ⟨entries', alike, onward⟩ := statements?_entries ok (blocks.flatMap Block.lines ++ tail)
  refine ⟨entries', blocks', ?_, alike, alike'⟩
  have enough := length_le_entryLines entries
  have enough' := length_le_blocks blocks
  have size : s.length = (entryLines entries).length + ((blocks.flatMap Block.lines).length +
      tail.length) := by rw [text, List.length_append, List.length_append]
  obtain ⟨fuel, fuel_eq⟩ : ∃ fuel, s.length + 1 =
      fuel + 1 + (blocks.flatMap Block.statements).length + entries.length :=
    ⟨s.length - (blocks.flatMap Block.statements).length - entries.length, by omega⟩
  rw [fuel_eq, text, onward, onward', statements?_tail blank, Option.map_some, Option.map_some,
    List.append_nil]

end Patchwork.Toml
