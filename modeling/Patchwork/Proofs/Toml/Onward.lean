import Patchwork.Proofs.Toml.Top

/-! Reading on.  Every reader leaves the end of the text that it is given (`leaves_value?`) and a statement
takes some of it, so that how much fuel there is makes no difference (`statements?_eq`).  A text whose
first lines are entries is then read as these entries and what the rest of it is read as by itself
(`parse?_lines`).  So whatever reads it says at the top what was written there (`text?_of_parse?`), and
texts whose first lines say the same and that go on alike are read as documents that say the same
(`parse?_congr`). -/

namespace Patchwork.Toml

/-! ## What readers leave -/

theorem suffix_gap (inComment : Bool) (s : List Char) : (gap inComment s).2 <:+ s := by
  fun_induction gap inComment s with
  | case1 => exact List.suffix_rfl
  | case2 _ rest w r step ih => exact (step ▸ ih).trans (List.suffix_cons _ _)
  | case3 _ rest w r step ih =>
    exact ((step ▸ ih).trans (List.suffix_cons _ _)).trans (List.suffix_cons _ _)
  | case4 _ c rest _ _ _ w r step ih => exact (step ▸ ih).trans (List.suffix_cons _ _)
  | case5 => exact List.suffix_rfl

theorem suffix_spaces (s : List Char) : (spaces s).2 <:+ s := List.dropWhile_suffix _

theorem suffix_keyParts? {fuel : Nat} {s r : List Char} {k : Key} (h : keyParts? fuel s = some (k, r)) :
    r <:+ s := by
  induction fuel generalizing s k with
  | zero => cases h
  | succ fuel ih =>
    unfold keyParts? at h
    obtain ⟨⟨name, rest⟩, named, h⟩ := Option.bind_eq_some_iff.mp h
    obtain ⟨x, c, whole, -⟩ := keyName?_append named
    have front : rest <:+ s.dropWhile isSpace := ⟨x :: c, whole.symm⟩
    have left : rest <:+ s := front.trans (suffix_spaces s)
    have left' := (suffix_spaces rest).trans left
    dsimp only at h
    split at h
    · rename_i next point
      obtain ⟨⟨more, rest'⟩, further, h⟩ := Option.bind_eq_some_iff.mp h
      cases h
      exact (ih further).trans ((List.suffix_cons _ _).trans (point ▸ left'))
    · cases h
      exact left'

theorem suffix_key? {s r : List Char} {k : Key} (h : key? s = some (k, r)) : r <:+ s := by
  obtain ⟨⟨k', r'⟩, read, h⟩ := Option.bind_eq_some_iff.mp h
  cases h
  exact suffix_keyParts? read

theorem skip?_eq_some {c : Char} {s r : List Char} : skip? c s = some r ↔ s = c :: r := by
  unfold skip?
  split
  · split
    · rename_i same
      simp [same]
    · rename_i other
      simp [Ne.symm other]
  · simp

theorem suffix_skip? {c : Char} {s r : List Char} (h : skip? c s = some r) : r <:+ s :=
  skip?_eq_some.mp h ▸ List.suffix_cons _ _

/-- A reader that leaves the end of what it is given. -/
def Leaves (read : Reader) : Prop :=
  ∀ {s r w : List Char} {v : Value}, read s = some ⟨v, w, r⟩ → r <:+ s

section
variable {read : Reader} (leaves : Leaves read)
include leaves

theorem suffix_items? {fuel : Nat} {s w r : List Char} {vs : List Value}
    (h : items? read fuel s = some ⟨vs, w, r⟩) : r <:+ s := by
  induction fuel generalizing s w vs with
  | zero => cases h
  | succ fuel ih =>
    have lead := suffix_gap false s
    rcases cut : gap false s with ⟨before, s'⟩
    rw [items?, cut] at h
    rw [cut] at lead
    dsimp only at h lead
    split at h
    · cases h
      exact (List.suffix_cons _ _).trans lead
    · obtain ⟨⟨v, w₁, r₁⟩, first, h⟩ := Option.bind_eq_some_iff.mp h
      have trail := (suffix_gap false r₁).trans ((leaves first).trans lead)
      rcases cut' : gap false r₁ with ⟨after, s₁⟩
      rw [cut'] at h trail
      dsimp only at h trail
      split at h
      · obtain ⟨⟨more, w₂, r₂⟩, others, h⟩ := Option.bind_eq_some_iff.mp h
        cases h
        exact (ih others).trans ((List.suffix_cons _ _).trans trail)
      · cases h
        exact (List.suffix_cons _ _).trans trail
      · cases h

theorem suffix_member? {s r : List Char} {m : Key × Entry} (h : member? read s = some (m, r)) :
    r <:+ s := by
  obtain ⟨⟨key, rest⟩, named, h⟩ := Option.bind_eq_some_iff.mp h
  obtain ⟨rest', equals, h⟩ := Option.bind_eq_some_iff.mp h
  obtain ⟨⟨v, w, r'⟩, value, h⟩ := Option.bind_eq_some_iff.mp h
  cases h
  have front := (suffix_skip? equals).trans (suffix_key? named)
  exact (suffix_spaces r').trans ((leaves value).trans ((suffix_spaces rest').trans front))

theorem suffix_members? {fuel : Nat} {s r : List Char} {members : List (Key × Entry)}
    (h : members? read fuel s = some (members, r)) : r <:+ s := by
  induction fuel generalizing s members with
  | zero => cases h
  | succ fuel ih =>
    obtain ⟨⟨m, rest⟩, first, h⟩ := Option.bind_eq_some_iff.mp h
    have front := suffix_member? leaves first
    dsimp only at h
    split at h
    · obtain ⟨⟨more, rest'⟩, others, h⟩ := Option.bind_eq_some_iff.mp h
      cases h
      exact (ih others).trans ((List.suffix_cons _ _).trans front)
    · cases h
      exact (List.suffix_cons _ _).trans front
    · cases h

end

theorem leaves_value? (depth : Nat) : Leaves (value? depth) := by
  have text : ∀ {s r w : List Char} {v : Value}, value?.string s = some ⟨v, w, r⟩ → r <:+ s :=
    fun h => (string_append h).1 ▸ List.suffix_append _ _
  have plain : ∀ {s r : List Char}, plainScalar? s = some r → r <:+ s := by
    intro s r h
    have whole : plainScalar? (s ++ []) = some r := by rwa [List.append_nil]
    obtain ⟨t, left, rfl, -⟩ := steady_plainScalar? endsValue_nil endsValue_nil whole
    rwa [List.append_nil]
  induction depth with
  | zero =>
    intro s r w v h
    rw [value?.eq_def] at h
    dsimp only at h
    split at h
    · exact text h
    · exact text h
    · cases h
    · cases h
    · obtain ⟨rest, read, h⟩ := Option.bind_eq_some_iff.mp h
      cases h
      exact plain read
  | succ depth ih =>
    intro s r w v h
    rw [value?.eq_def] at h
    dsimp only at h
    split at h
    · exact text h
    · exact text h
    · obtain ⟨items, read, h⟩ := Option.bind_eq_some_iff.mp h
      cases h
      exact (suffix_items? ih read).trans (List.suffix_cons _ _)
    · rename_i rest
      split at h
      · rename_i after blank
        cases h
        exact (List.suffix_cons _ _).trans (blank ▸ (suffix_spaces rest).trans (List.suffix_cons _ _))
      · obtain ⟨⟨members, rest'⟩, read, h⟩ := Option.bind_eq_some_iff.mp h
        obtain ⟨w', -, h⟩ := Option.bind_eq_some_iff.mp h
        cases h
        exact (suffix_members? ih read).trans (List.suffix_cons _ _)
    · obtain ⟨rest, read, h⟩ := Option.bind_eq_some_iff.mp h
      cases h
      exact plain read

/-- The end of a line is a newline, with or without a carriage return, or the end of the text. -/
theorem lineEnd?_eq_some {s w r : List Char} (h : lineEnd? s = some (w, r)) :
    s = w ++ '\n' :: r ∨ s = w ++ '\r' :: '\n' :: r ∨ s = w ∧ r = [] := by
  have line : ∀ {front rest r : List Char}, newline? rest = some r →
      front ++ rest = front ++ '\n' :: r ∨ front ++ rest = front ++ '\r' :: '\n' :: r := by
    intro front rest r read
    rcases newline?_eq_some read with rfl | rfl
    · exact .inl rfl
    · exact .inr rfl
  have blank := spaces_fst s
  have solid := spaces_snd s
  rw [← append_spaces s] at h ⊢
  rcases rest : (spaces s).2 with _ | ⟨c, back⟩ <;> rw [rest] at h solid
  · rw [lineEnd?_plain blank solid (fun _ none => nomatch none)] at h
    cases h
    exact .inr (.inr ⟨List.append_nil _, rfl⟩)
  by_cases hash : c = '#'
  · subst hash
    rw [lineEnd?_comment blank] at h
    have whole : (spaces s).1 ++ '#' :: back =
        (spaces s).1 ++ '#' :: back.takeWhile isTextual ++ back.dropWhile isTextual := by
      rw [List.append_assoc, List.cons_append, List.takeWhile_append_dropWhile]
    rw [whole]
    split at h
    · rename_i none
      cases h
      exact .inr (.inr ⟨by rw [none, List.append_nil], rfl⟩)
    · obtain ⟨rest', read, same⟩ := Option.map_eq_some_iff.mp h
      cases same
      exact (line read).imp_right .inl
  · rw [lineEnd?_plain blank solid (by rintro d ⟨⟩; exact hash)] at h
    obtain ⟨rest', read, same⟩ := Option.map_eq_some_iff.mp h
    cases same
    exact (line read).imp_right .inl

theorem suffix_lineEnd? {s w r : List Char} (h : lineEnd? s = some (w, r)) : r <:+ s := by
  rcases lineEnd?_eq_some h with rfl | rfl | ⟨-, rfl⟩
  · exact (List.suffix_cons _ _).trans (List.suffix_append _ _)
  · exact ((List.suffix_cons _ _).trans (List.suffix_cons _ _)).trans (List.suffix_append _ _)
  · exact List.nil_suffix

section
variable {lead s rest : List Char} {st : Statement}

theorem length_assign? (h : assign? lead s = some (st, rest)) : rest.length < s.length := by
  obtain ⟨⟨key, rest₁⟩, named, h⟩ := Option.bind_eq_some_iff.mp h
  obtain ⟨rest₂, equals, h⟩ := Option.bind_eq_some_iff.mp h
  obtain ⟨⟨v, w, rest₃⟩, value, h⟩ := Option.bind_eq_some_iff.mp h
  obtain ⟨⟨after, rest₄⟩, ended, h⟩ := Option.bind_eq_some_iff.mp h
  cases h
  have front := (suffix_key? named).length_le
  rw [skip?_eq_some.mp equals, List.length_cons] at front
  have back := (suffix_lineEnd? ended).trans ((leaves_value? _ value).trans (suffix_spaces rest₂))
  exact Nat.lt_of_le_of_lt back.length_le front

theorem length_header? (h : header? lead s = some (st, rest)) : rest.length < s.length := by
  unfold header? at h
  split at h
  · obtain ⟨⟨key, rest₁⟩, named, h⟩ := Option.bind_eq_some_iff.mp h
    obtain ⟨rest₂, closing, h⟩ := Option.bind_eq_some_iff.mp h
    obtain ⟨rest₃, closing', h⟩ := Option.bind_eq_some_iff.mp h
    obtain ⟨⟨after, rest₄⟩, ended, h⟩ := Option.bind_eq_some_iff.mp h
    cases h
    have back := (suffix_lineEnd? ended).trans ((suffix_skip? closing').trans
      ((suffix_skip? closing).trans (suffix_key? named)))
    exact Nat.lt_succ_of_le back.length_le
  · obtain ⟨⟨key, rest₁⟩, named, h⟩ := Option.bind_eq_some_iff.mp h
    obtain ⟨rest₂, closing, h⟩ := Option.bind_eq_some_iff.mp h
    obtain ⟨⟨after, rest₃⟩, ended, h⟩ := Option.bind_eq_some_iff.mp h
    cases h
    have front := (suffix_key? named).length_le
    rw [skip?_eq_some.mp closing, List.length_cons] at front
    exact Nat.lt_of_le_of_lt (suffix_lineEnd? ended).length_le front

end

/-- **Statements are read with any fuel** that is more than the characters. -/
theorem statements?_of_length {fuel fuel' : Nat} {s : List Char} {read : List Statement × String}
    (h : statements? fuel s = some read) (enough : s.length < fuel') : statements? fuel' s = some read := by
  induction fuel generalizing s fuel' read with
  | zero => cases h
  | succ fuel ih =>
    obtain ⟨fuel', rfl⟩ := Nat.exists_eq_add_one.mpr (Nat.zero_lt_of_lt enough)
    have lead := (suffix_gap false s).length_le
    rw [statements?] at h ⊢
    rcases cut : gap false s with ⟨w, t⟩
    rw [cut] at h lead
    dsimp only at h lead ⊢
    split at h
    · exact h
    · obtain ⟨⟨st, rest⟩, first, h⟩ := Option.bind_eq_some_iff.mp h
      obtain ⟨more, others, h⟩ := Option.bind_eq_some_iff.mp h
      have fewer := length_header? first
      rw [List.length_cons] at lead
      rw [first, Option.bind_eq_bind, Option.bind_some]
      dsimp only
      have enough : rest.length < fuel' := by omega
      rw [ih others enough]
      exact h
    · obtain ⟨⟨st, rest⟩, first, h⟩ := Option.bind_eq_some_iff.mp h
      obtain ⟨more, others, h⟩ := Option.bind_eq_some_iff.mp h
      have fewer := length_assign? first
      rw [first, Option.bind_eq_bind, Option.bind_some]
      dsimp only
      have enough : rest.length < fuel' := by omega
      rw [ih others enough]
      exact h

/-- How much fuel there is makes no difference, if it is more than the characters. -/
theorem statements?_eq {fuel fuel' : Nat} {s : List Char} (enough : s.length < fuel)
    (enough' : s.length < fuel') : statements? fuel s = statements? fuel' s :=
  Option.ext fun _ => ⟨fun h => statements?_of_length h enough', fun h => statements?_of_length h enough⟩

/-! ## Texts that begin alike -/

section
variable {entries entries' : List (Key × Entry)} {rest : List Char} {text text' : String}

/-- A text without a byte order mark is read by its statements. -/
theorem parse?_unmarked (unmarked : ∀ rest, text.toList ≠ '\ufeff' :: rest) :
    Document.parse? text = (statements? (text.toList.length + 1) text.toList).bind fun p =>
      (Table.ofStatements? p.1).map fun root => ⟨root, p.2⟩ := by
  unfold Document.parse?
  split
  · rename_i rest marked
    exact absurd marked (unmarked rest)
  · dsimp only
    rcases statements? (text.toList.length + 1) text.toList with _ | p
    · rfl
    · exact (Option.map_eq_bind ..).symm

/-- **A text whose first lines are entries** is read as these entries and what follows them. -/
theorem parse?_lines (ok : ∀ m ∈ entries, EntryOk OnLine (depthLimit - 1) m) (some : entries ≠ [])
    (lines : text.toList = entryLines entries ++ rest) :
    ∃ read, (∀ hide, plainEntries hide read = plainEntries hide entries) ∧
      Document.parse? text = (statements? (rest.length + 1) rest).bind fun p =>
        (Table.ofStatements? (assignments read ++ p.1)).map fun root => ⟨root, p.2⟩ := by
  have unmarked : ∀ rest', text.toList ≠ '\ufeff' :: rest' := fun rest' =>
    lines ▸ entryLines_ne_mark ok some rest rest'
  obtain ⟨read, alike, onward⟩ := statements?_entries ok rest
  have enough := length_le_entryLines entries
  have size : text.toList.length = (entryLines entries).length + rest.length := by
    rw [lines, List.length_append]
  obtain ⟨fuel, fuel_eq⟩ : ∃ fuel, text.toList.length + 1 = fuel + entries.length :=
    ⟨text.toList.length + 1 - entries.length, by omega⟩
  have whole : statements? (text.toList.length + 1) text.toList =
      (statements? (rest.length + 1) rest).map fun p => (assignments read ++ p.1, p.2) := by
    rw [fuel_eq, lines, onward, @statements?_eq fuel (rest.length + 1) rest (by omega) (by omega)]
  refine ⟨read, alike, ?_⟩
  rw [parse?_unmarked unmarked, whole, Option.bind_map]
  rfl

/-- Entries in front of other statements are put into the table before all else. -/
theorem ofStatements?_assignments (entries more : List (Key × Entry)) (blocks : List Block) :
    Table.ofStatements? (assignments entries ++
        (more.map (fun m => .assign m.1 m.2) ++ blocks.flatMap Block.statements)) =
      (assignAll (entries ++ more) (.mk .whole [])).bind (ofBlocks? 0 blocks) := by
  rw [← ofStatements?_append, List.map_append, List.append_assoc, assignments]

/-- **What is written at the top is read there.**  If a text starts with the lines of some entries, then
the document that is read from it, if it can be read, has the value of each under its name. -/
theorem text?_of_parse? {name value : String} {d : Document}
    (ok : ∀ m ∈ entries, EntryOk OnLine (depthLimit - 1) m)
    (lines : text.toList = entryLines entries ++ rest) (h : Document.parse? text = some d)
    {m : Key × Entry} (listed : m ∈ entries) (names : m.1.names = [name])
    (written : m.2.value = .str value) : d.root.text? name = some value := by
  obtain ⟨read, alike, parsed⟩ := parse?_lines ok (List.ne_nil_of_mem listed) lines
  rw [parsed] at h
  obtain ⟨⟨others, tail⟩, -, h⟩ := Option.bind_eq_some_iff.mp h
  obtain ⟨root, built, rfl⟩ := Option.map_eq_some_iff.mp h
  obtain ⟨more, blocks, rfl⟩ := exists_blocks others
  rw [ofStatements?_assignments] at built
  obtain ⟨top, first, built⟩ := Option.bind_eq_some_iff.mp built
  -- the entry was read with the same names and the same value
  obtain ⟨m', listed', names', value'⟩ : ∃ m' ∈ read, m'.1.names = [name] ∧ m'.2.value = .str value := by
    have among : (m.1.plain, m.2.plain false) ∈ plainEntries (fun _ => false) read :=
      (alike fun _ => false) ▸ List.mem_map.mpr ⟨m, listed, rfl⟩
    obtain ⟨m', listed', same⟩ := List.mem_map.mp among
    obtain ⟨key, entry⟩ := Prod.mk.inj same
    refine ⟨m', listed', ?_, ?_⟩
    · rw [← names_plain, key, names_plain, names]
    · rw [← written]
      exact (Entry.mk.inj entry).1
  have found := find?_ofBlocks (find?_of_mem (List.mem_append_left more listed') names' first) built
  rw [Table.text?, found]
  dsimp only
  rw [value']
  rfl

/-- **Entries that say the same**, in front of other statements, build tables that say the same. -/
theorem ofStatements?_congr {hide : Hiding} (alike : plainEntries hide entries = plainEntries hide entries')
    (others : List Statement) :
    (Table.ofStatements? (assignments entries ++ others)).map (Table.plain hide) =
      (Table.ofStatements? (assignments entries' ++ others)).map (Table.plain hide) := by
  obtain ⟨more, blocks, rfl⟩ := exists_blocks others
  have top : (assignAll (entries ++ more) (.mk .whole [])).map (Table.plain hide) =
      (assignAll (entries' ++ more) (.mk .whole [])).map (Table.plain hide) := by
    have split : ∀ entries : List (Key × Entry), plainEntries hide (entries ++ more) =
        plainEntries hide entries ++ plainEntries hide more := fun _ => List.map_append
    rw [assignAll_plain, assignAll_plain, split, split, alike]
  rw [ofStatements?_assignments, ofStatements?_assignments]
  rcases first : assignAll (entries ++ more) (.mk .whole []) with _ | t <;>
    rcases first' : assignAll (entries' ++ more) (.mk .whole []) with _ | t' <;> rw [first, first'] at top
  · cases top
  · cases top
  · exact ofBlocks?_congr rfl 0 0 (Option.some.inj top)

/-- **Texts whose first lines say the same** and that go on alike are read as documents that say the
same. -/
theorem parse?_congr {hide : Hiding} (ok : ∀ m ∈ entries, EntryOk OnLine (depthLimit - 1) m)
    (ok' : ∀ m ∈ entries', EntryOk OnLine (depthLimit - 1) m) (some : entries ≠ [])
    (alike : plainEntries hide entries' = plainEntries hide entries)
    (lines : text.toList = entryLines entries ++ rest)
    (lines' : text'.toList = entryLines entries' ++ rest) {d : Document}
    (h : Document.parse? text = .some d) :
    ∃ d', Document.parse? text' = .some d' ∧ d'.root.plain hide = d.root.plain hide ∧ d'.tail = d.tail := by
  have some' : entries' ≠ [] := by
    rintro rfl
    exact some (List.map_eq_nil_iff.mp alike.symm)
  obtain ⟨read, same, parsed⟩ := parse?_lines ok some lines
  obtain ⟨read', same', parsed'⟩ := parse?_lines ok' some' lines'
  rw [parsed] at h
  obtain ⟨⟨others, tail⟩, following, h⟩ := Option.bind_eq_some_iff.mp h
  obtain ⟨root, built, rfl⟩ := Option.map_eq_some_iff.mp h
  have plain : plainEntries hide read' = plainEntries hide read := by
    rw [same', alike, same]
  have tables := ofStatements?_congr plain others
  rw [built] at tables
  obtain ⟨root', built', plain'⟩ := Option.map_eq_some_iff.mp tables
  refine ⟨⟨root', tail⟩, ?_, plain', rfl⟩
  rw [parsed', following, Option.bind_some]
  dsimp only
  rw [built', Option.map_some]

end

end Patchwork.Toml
