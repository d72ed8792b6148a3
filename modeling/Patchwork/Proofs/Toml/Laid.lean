import Patchwork.Proofs.Toml.Top

/-! Documents that are laid out.  Some entries and, each under its header, the entries of tables and of
arrays of tables (`Head`) make a document (`laid`) whose text is a line for each of them
(`toList_render_laid`).  Where all keys and values can be read, that text is read as a document that says
what was laid out (`parse?_render_laid`). -/

namespace Patchwork.Toml

/-! ## What can be written -/

/-- A name that needs no quotes is read as it is written. -/
theorem readable_bare {p : KeyPart} (same : p.text = p.name) (some : p.name ≠ "")
    (bare : ∀ c ∈ p.name.toList, isKeyChar c) (before : Blank p.inner.before)
    (after : Blank p.inner.after) : p.Readable := by
  obtain ⟨c, cs, chars⟩ := List.exists_cons_of_ne_nil (mt String.toList_eq_nil_iff.mp some)
  have first : isKeyChar c := bare c (chars ▸ List.mem_cons_self)
  refine ⟨⟨c, cs, by rw [same, chars], startsKey_of_isKeyChar first⟩, fun r ends => ?_, before, after⟩
  have cut := span_append bare ends
  have solid : p.name.toList ≠ [] := chars ▸ List.cons_ne_nil c cs
  rw [same, keyName?.eq_3, cut.1, cut.2]
  · rw [if_neg solid, String.ofList_toList]
  · rintro rest odd
    rw [chars] at odd
    exact absurd ((List.cons.inj odd).1 ▸ first) (by decide)
  · rintro rest odd
    rw [chars] at odd
    exact absurd ((List.cons.inj odd).1 ▸ first) (by decide)

theorem lead_space : Lead [' '] := by
  intro c ends t
  have next := lead_nil ends t
  rw [List.nil_append] at next
  have step := gap.eq_4 false ' ' (c :: t) (by decide) (by rintro _ ⟨⟩)
  rw [List.singleton_append, step]
  simp [isSpace, next]

/-- **The items of an array of texts are read** from their literals. -/
theorem items?_texts (depth : Nat) {texts : List String} {fuel : Nat} (size : texts.length < fuel)
    {lead : List Char} (clear : Lead lead) (r : List Char) :
    ∃ w, items? (value? depth) fuel
        (lead ++ ((", ".intercalate (texts.map stringLiteral)).toList ++ ']' :: r)) =
      some ⟨texts.map .str, w, r⟩ := by
  have comma : ", ".toList = [',', ' '] := by decide
  induction texts generalizing fuel lead with
  | nil =>
    obtain ⟨fuel, rfl⟩ := Nat.exists_eq_add_one.mpr size
    have cut := clear endsGap_bracket r
    rw [List.map_nil, String.intercalate_nil, String.toList_empty, List.nil_append, items?, cut]
    exact ⟨_, rfl⟩
  | cons text texts ih =>
    obtain ⟨fuel, rfl⟩ := Nat.exists_eq_add_one.mpr (Nat.zero_lt_of_lt size)
    obtain ⟨⟨x, w, literal, start⟩, reads, -⟩ :=
      @readable_stringLiteral depth text ⟨"", ""⟩ blank_empty
    dsimp only at literal reads
    by_cases last : texts = []
    · obtain ⟨w', first⟩ := reads (']' :: r) (endsValue_cons (by decide) (by decide) r)
      rw [literal, List.cons_append] at first
      have cut := clear start.toEndsGap (w ++ ']' :: r)
      have behind := lead_nil endsGap_bracket r
      rw [List.nil_append] at behind
      have whole := @items?_item (value? depth) fuel _ _ _ _ _ _ _ cut start.item first
      rw [behind] at whole
      rw [last, List.map_singleton, String.intercalate_singleton, literal, List.cons_append]
      exact ⟨_, whole⟩
    · obtain ⟨w₁, others⟩ := ih (Nat.lt_of_succ_lt_succ size) lead_space
      obtain ⟨w', first⟩ := reads (',' :: ([' '] ++
        ((", ".intercalate (texts.map stringLiteral)).toList ++ ']' :: r)))
        (endsValue_cons (by decide) (by decide) _)
      rw [literal, List.cons_append] at first
      have cut := clear start.toEndsGap (w ++ ',' :: ([' '] ++
        ((", ".intercalate (texts.map stringLiteral)).toList ++ ']' :: r)))
      have behind := lead_nil endsGap_comma ([' '] ++
        ((", ".intercalate (texts.map stringLiteral)).toList ++ ']' :: r))
      rw [List.nil_append] at behind
      have whole := @items?_item (value? depth) fuel _ _ _ _ _ _ _ cut start.item first
      rw [behind] at whole
      have text_eq : (", ".intercalate ((text :: texts).map stringLiteral)).toList ++ ']' :: r =
          x :: (w ++ ',' :: ([' '] ++
            ((", ".intercalate (texts.map stringLiteral)).toList ++ ']' :: r))) := by
        rw [List.map_cons, String.intercalate_cons_of_ne_nil (by simpa using last),
          String.toList_append, String.toList_append, comma, literal]
        simp
      rw [text_eq]
      exact ⟨_, whole.trans (congrArg (Option.map _) others)⟩

/-- **An array of texts is read** as the texts that it holds. -/
theorem readable_arrayLiteral (depth : Nat) (texts : List String) {around : Margin}
    (blank : Blank around.before) :
    Entry.Readable (value? (depth + 1)) ⟨.arr (texts.map .str), arrayLiteral texts, around⟩ := by
  have marks : "[".toList = ['['] ∧ "]".toList = [']'] := by decide
  have text : (arrayLiteral texts).toList =
      '[' :: ((", ".intercalate (texts.map stringLiteral)).toList ++ [']']) := by
    rw [arrayLiteral, String.toList_append, String.toList_append, marks.1, marks.2]
    rfl
  refine ⟨⟨'[', _, text, startsValue_of_mem (by decide)⟩, fun r ends => ?_, blank⟩
  dsimp only
  rw [text, List.cons_append, List.append_assoc, List.singleton_append, value?_bracket]
  have size : texts.length <
      ((", ".intercalate (texts.map stringLiteral)).toList ++ ']' :: r).length + 1 := by
    have comma : ", " ≠ "" := by decide
    have fewer := length_le_intercalate comma (texts.map stringLiteral)
    rw [List.length_map] at fewer
    rw [List.length_append, List.length_cons]
    omega
  obtain ⟨w, read⟩ := items?_texts depth size lead_nil r
  rw [List.nil_append] at read
  rw [read]
  exact ⟨_, rfl⟩

/-! ## Layouts -/

/-- The members of a table that holds values alone. -/
def valueMembers (body : List (KeyPart × Entry)) : List (KeyPart × Item) :=
  body.map fun m => (m.1, .value m.2)

/-- The entries of such a table, with their keys. -/
def keyed (body : List (KeyPart × Entry)) : List (Key × Entry) := body.map fun m => (⟨[], m.1⟩, m.2)

/-- **What is laid out under a name**: a table of values, or an array of such tables. -/
inductive Head where
  | one (key : KeyPart) (body : List (KeyPart × Entry))
  | many (key : KeyPart) (bodies : List (List (KeyPart × Entry)))

namespace Head

/-- The part of a key that names it. -/
def key : Head → KeyPart
  | one key _ => key
  | many key _ => key

/-- What the name stands for. -/
def item : Head → Item
  | one _ body => .table (.ofMembers (valueMembers body))
  | many _ bodies => .tables (bodies.map fun body => .ofMembers (valueMembers body))

/-- A header, after a blank line, with the lines below it. -/
def block (key : KeyPart) (isArrayItem : Bool) (body : List (KeyPart × Entry)) : Block :=
  ⟨⟨[], key⟩, isArrayItem, ⟨"\n", ""⟩, keyed body⟩

/-- The headers with the lines below them. -/
def blocks : Head → List Block
  | one key body => [block key false body]
  | many key bodies => bodies.map (block key true)

end Head

/-- **A document that is laid out**: entries, and then tables and arrays of tables under headers. -/
def laid (top : List (KeyPart × Entry)) (heads : List Head) : Document :=
  ⟨.mk .whole (valueMembers top ++ heads.map fun h => (h.key, h.item)), ""⟩

theorem memberEntries_values (path : List KeyPart) (body : List (KeyPart × Entry)) :
    memberEntries path (valueMembers body) = body.map fun m => (⟨path, m.1⟩, m.2) := by
  induction body with
  | nil => rfl
  | cons m body ih =>
    have first : memberEntries path (valueMembers (m :: body)) =
        (⟨path, m.1⟩, m.2) :: memberEntries path (valueMembers body) := by
      rw [valueMembers, List.map_cons, memberEntries, Item.entries]
      rfl
    rw [first, ih, List.map_cons]

theorem entries_values (origin : Origin) (body : List (KeyPart × Entry)) :
    (Table.mk origin (valueMembers body)).entries = keyed body := memberEntries_values [] body

theorem memberSections_values (path : List KeyPart) (body : List (KeyPart × Entry))
    (rest : List (KeyPart × Item)) :
    memberSections path (valueMembers body ++ rest) = memberSections path rest := by
  induction body with
  | nil => rfl
  | cons m body ih =>
    have first : memberSections path (valueMembers (m :: body) ++ rest) =
        memberSections path (valueMembers body ++ rest) := by
      rw [valueMembers, List.map_cons, List.cons_append, memberSections, Item.sections]
      rfl
    rw [first, ih]

/-- The section of a table of values. -/
def Section.ofValues (key : KeyPart) (isArrayItem : Bool) (body : List (KeyPart × Entry)) : Section :=
  ⟨some ⟨[], key⟩, isArrayItem, .ofMembers (valueMembers body)⟩

theorem sections_values (key : KeyPart) (isArrayItem : Bool) (body : List (KeyPart × Entry)) :
    (Table.ofMembers (valueMembers body)).sections [] key isArrayItem =
      [.ofValues key isArrayItem body] := by
  have inner := memberSections_values ([] ++ [key]) body []
  rw [List.append_nil] at inner
  rw [Table.ofMembers, Table.sections, if_neg (by simp), inner, memberSections]
  rfl

/-- A section of a table of values is written as its block. -/
theorem render_ofValues (key : KeyPart) (isArrayItem : Bool) (body : List (KeyPart × Entry)) :
    (Section.ofValues key isArrayItem body).render.toList = (Head.block key isArrayItem body).lines := by
  have entries : (Section.ofValues key isArrayItem body).table.entries = keyed body :=
    entries_values _ body
  rw [Section.toList_render, entries]
  rfl

/-- The sections of what is laid out under a name. -/
def Head.sections : Head → List Section
  | one key body => [.ofValues key false body]
  | many key bodies => bodies.map (.ofValues key true)

theorem Head.sections_item (h : Head) : h.item.sections [] h.key = h.sections := by
  cases h with
  | one key body =>
    rw [item, Item.sections]
    exact sections_values key false body
  | many key bodies =>
    rw [item, Item.sections, Head.key, sections]
    induction bodies with
    | nil => rfl
    | cons body bodies ih =>
      rw [List.map_cons, tableSections, sections_values, ih, List.map_cons, List.singleton_append]

theorem Head.render_sections (h : Head) :
    h.sections.flatMap (fun s => s.render.toList) = h.blocks.flatMap Block.lines := by
  cases h with
  | one key body =>
    rw [sections, blocks, List.flatMap_singleton, List.flatMap_singleton, render_ofValues]
  | many key bodies =>
    rw [sections, blocks, List.flatMap_map, List.flatMap_map]
    exact congrArg (fun f => List.flatMap f bodies) (funext (render_ofValues key true))

theorem Head.place?_sections (h : Head) : ∀ s ∈ h.sections, s.place? = some 0 := by
  cases h with
  | one key body => exact List.forall_mem_singleton.mpr rfl
  | many key bodies => exact List.forall_mem_map.mpr fun _ _ => rfl

/-- Sections without places of their own stay in their order. -/
theorem mergeSort_placed {sections : List Section}
    (placed : ∀ s ∈ sections, s.place?.getD 0 = 0) :
    (Section.placed 0 sections).mergeSort (fun a b => a.1 ≤ b.1) = sections.map (0, ·) := by
  have all : Section.placed 0 sections = sections.map (0, ·) := by
    induction sections with
    | nil => rfl
    | cons s sections ih =>
      obtain ⟨first, others⟩ := List.forall_mem_cons.mp placed
      rw [Section.placed, first, ih others, List.map_cons]
  rw [all]
  refine List.mergeSort_of_pairwise (List.pairwise_map.mpr ?_)
  exact List.pairwise_of_forall fun _ _ => by simp

section
variable (top : List (KeyPart × Entry)) (heads : List Head)

theorem memberSections_laid :
    memberSections [] (laid top heads).root.members = heads.flatMap Head.sections := by
  rw [laid, Table.members, memberSections_values]
  induction heads with
  | nil => rfl
  | cons head heads ih => rw [List.map_cons, memberSections, head.sections_item, ih, List.flatMap_cons]

theorem entries_laid : (laid top heads).root.entries = keyed top := by
  have none : memberEntries [] (heads.map fun h => (h.key, h.item)) = [] := by
    induction heads with
    | nil => rfl
    | cons head heads ih =>
      rw [List.map_cons, memberEntries, ih, List.append_nil]
      cases head <;> rfl
  rw [laid, Table.entries, Table.members, memberEntries_append, none, List.append_nil,
    memberEntries_values, keyed]

/-- **The text of a document that is laid out** is a line for each entry, under the headers. -/
theorem toList_render_laid :
    (laid top heads).render.toList =
      entryLines (keyed top) ++ (heads.flatMap Head.blocks).flatMap Block.lines := by
  have whole : (laid top heads).root.origin = .whole := rfl
  have tail : (laid top heads).tail = "" := rfl
  have placed : ∀ s ∈ heads.flatMap Head.sections, s.place?.getD 0 = 0 := by
    intro s listed
    obtain ⟨head, -, among⟩ := List.mem_flatMap.mp listed
    rw [head.place?_sections s among]
    rfl
  have sections : sectionLines (heads.flatMap Head.sections) =
      (heads.flatMap Head.blocks).flatMap Block.lines := by
    rw [sectionLines, mergeSort_placed placed, List.flatMap_map, List.flatMap_assoc, List.flatMap_assoc]
    exact congrArg (fun f => List.flatMap f heads) (funext Head.render_sections)
  rw [Document.render, tail, String.append_empty, toList_render whole, memberSections_laid, entries_laid,
    sections]

end

/-! ## What the lines build -/

theorem Table.erase_new {t : Table} {name : String} (new : t.find? name = none) : t.erase name = t := by
  have all := Table.find?_eq_none_iff.mp new
  have kept : t.members.filter (fun m => m.1.name ≠ name) = t.members :=
    List.filter_eq_self.mpr fun m listed => by simpa using all m listed
  rw [Table.erase, kept]
  cases t
  rfl

/-- **Entries under distinct names** come to stand in the table in their order. -/
theorem assignAll_keyed {origin : Origin} {members : List (KeyPart × Item)}
    {body : List (KeyPart × Entry)}
    (distinct : (members.map (·.1.name) ++ body.map (·.1.name)).Nodup) :
    assignAll (keyed body) (.mk origin members) = some (.mk origin (members ++ valueMembers body)) := by
  induction body generalizing members with
  | nil => rw [keyed, valueMembers, List.map_nil, List.map_nil, List.append_nil, assignAll_nil]
  | cons m body ih =>
    have new : (Table.mk origin members).find? m.1.name = none := by
      rw [Table.find?_eq_none_iff]
      intro m' listed same
      exact (List.nodup_append.mp distinct).2.2 _ (List.mem_map_of_mem listed) _
        List.mem_cons_self same
    have next : ((members ++ [(m.1, Item.value m.2)]).map (·.1.name) ++ body.map (·.1.name)).Nodup := by
      rw [List.map_append, List.append_assoc]
      exact distinct
    have step : (Table.mk origin members).assign ⟨[], m.1⟩ m.2 =
        some (.mk origin (members ++ [(m.1, .value m.2)])) := by
      rw [assign_single, new, Table.put_new new]
      rfl
    rw [keyed, List.map_cons, ← keyed, assignAll_cons, step, Option.bind_some, ih next, valueMembers,
      valueMembers, List.map_cons, List.append_assoc, List.singleton_append]

section
variable {key : KeyPart} {body : List (KeyPart × Entry)} {t : Table}

theorem assignAll_body (distinct : (body.map (·.1.name)).Nodup) (origin : Origin) :
    assignAll (keyed body) (.mk origin []) = some (.mk origin (valueMembers body)) :=
  assignAll_keyed distinct

/-- A header with a new name defines a table. -/
theorem opens_table (new : t.find? key.name = none) (distinct : (body.map (·.1.name)).Nodup)
    (origin : Origin) : (Head.block key false body).opens origin t =
      some (t.put key (.table (.mk origin (valueMembers body)))) := by
  have opened : (Head.block key false body).opens origin t =
      t.define ⟨[], key⟩ origin (assignAll (keyed body)) := rfl
  have step : t.define ⟨[], key⟩ origin (assignAll (keyed body)) =
      (assignAll (keyed body) (.mk origin [])).bind fun inner =>
        some ((t.erase key.name).put key (.table inner)) := by
    rw [Table.define, Table.alter, new]
    rfl
  rw [opened, step, assignAll_body distinct, Option.bind_some, Table.erase_new new]

/-- A header of an array adds a table to the array. -/
theorem opens_item {before : List Table}
    (known : t.find? key.name = none ∧ before = [] ∨ t.find? key.name = some (.tables before))
    (distinct : (body.map (·.1.name)).Nodup) (origin : Origin) :
    (Head.block key true body).opens origin t =
      some (t.put key (.tables (before ++ [.mk origin (valueMembers body)]))) := by
  have opened : (Head.block key true body).opens origin t =
      t.append ⟨[], key⟩ origin (assignAll (keyed body)) := rfl
  have step : t.append ⟨[], key⟩ origin (assignAll (keyed body)) =
      (assignAll (keyed body) (.mk origin [])).bind fun inner =>
        some (t.put key (.tables (before ++ [inner]))) := by
    rw [Table.append, Table.alter]
    rcases known with ⟨new, rfl⟩ | found
    · rw [new]
      rfl
    · rw [found]
      rfl
  rw [opened, step, assignAll_body distinct, Option.bind_some]

end

/-- The bodies under the headers of a name. -/
def Head.bodies : Head → List (List (KeyPart × Entry))
  | one _ body => [body]
  | many _ bodies => bodies

/-- Whether an entry can be written below a header or at the top. -/
structure LineOk (m : KeyPart × Entry) : Prop where
  readable : m.1.Readable
  holds : OnLine m.1 m.2

/-- **Whether something can be laid out under a name.** -/
structure Head.Ok (h : Head) : Prop where
  readable : h.key.Readable
  outer : Blank h.key.outer.before ∧ Blank h.key.outer.after
  some : h.bodies ≠ []
  distinct : ∀ body ∈ h.bodies, (body.map (·.1.name)).Nodup
  lines : ∀ body ∈ h.bodies, ∀ m ∈ body, LineOk m

theorem plain_ofMembers (hide : Hiding) (place : Nat) (around : Margin)
    (members : List (KeyPart × Item)) :
    (Table.mk (.header place around) members).plain hide = (Table.ofMembers members).plain hide := by
  rw [Table.ofMembers, Table.plain, Table.plain, Origin.plain, Origin.plain]

/-- **The blocks of a name** build what it stands for. -/
theorem exists_item_ofBlocks? {h : Head} (ok : h.Ok) {t : Table} (new : t.find? h.key.name = none)
    (place : Nat) (more : List Block) : ∃ item place', (∀ hide, item.plain hide = h.item.plain hide) ∧
      ofBlocks? place (h.blocks ++ more) t = ofBlocks? place' more (t.put h.key item) := by
  cases h with
  | one key body =>
    have opened := opens_table new (ok.distinct body (List.mem_singleton_self _))
      (.header (place + 1) ⟨"\n", ""⟩)
    refine ⟨.table (.mk (.header (place + 1) ⟨"\n", ""⟩) (valueMembers body)), place + 1,
      fun hide => ?_, ?_⟩
    · rw [Item.plain, plain_ofMembers, Head.item, Item.plain]
    · rw [Head.blocks, List.singleton_append, ofBlocks?]
      exact congrArg (Option.bind · _) opened
  | many key bodies =>
    have onward : ∀ (bodies : List (List (KeyPart × Entry))) (before : List Table) (place : Nat),
        (∀ body ∈ bodies, (body.map (·.1.name)).Nodup) → ∃ made place',
        (∀ hide, made.map (Table.plain hide) =
          bodies.map fun body => (Table.ofMembers (valueMembers body)).plain hide) ∧
        ofBlocks? place (bodies.map (Head.block key true) ++ more) (t.put key (.tables before)) =
          ofBlocks? place' more (t.put key (.tables (before ++ made))) := by
      intro bodies
      induction bodies with
      | nil =>
        intro before place _
        exact ⟨[], place, fun _ => rfl, by rw [List.append_nil]; rfl⟩
      | cons body bodies ih =>
        intro before place distinct
        obtain ⟨first, others⟩ := List.forall_mem_cons.mp distinct
        have opened := opens_item (.inr (Table.find?_put_self t key (.tables before))) first
          (.header (place + 1) ⟨"\n", ""⟩)
        rw [Table.put_put] at opened
        obtain ⟨made, place', plain, built⟩ := ih (before ++
          [.mk (.header (place + 1) ⟨"\n", ""⟩) (valueMembers body)]) (place + 1) others
        refine ⟨.mk (.header (place + 1) ⟨"\n", ""⟩) (valueMembers body) :: made, place',
          fun hide => ?_, ?_⟩
        · rw [List.map_cons, List.map_cons, plain_ofMembers, plain]
        · rw [List.append_assoc, List.singleton_append] at built
          rw [List.map_cons, List.cons_append, ofBlocks?, ← built]
          exact congrArg (Option.bind · _) opened
    obtain ⟨body, bodies, rfl⟩ := List.exists_cons_of_ne_nil ok.some
    obtain ⟨first, others⟩ := List.forall_mem_cons.mp ok.distinct
    have opened := opens_item (.inl ⟨new, rfl⟩) first (.header (place + 1) ⟨"\n", ""⟩)
    obtain ⟨made, place', plain, built⟩ := onward bodies
      ([] ++ [.mk (.header (place + 1) ⟨"\n", ""⟩) (valueMembers body)]) (place + 1) others
    refine ⟨.tables ([.mk (.header (place + 1) ⟨"\n", ""⟩) (valueMembers body)] ++ made), place',
      fun hide => ?_, ?_⟩
    rotate_left
    · rw [Head.blocks, List.map_cons, List.cons_append, ofBlocks?]
      exact (congrArg (Option.bind · _) opened).trans built
    · rw [Item.plain, Head.item, Item.plain, plainTables_eq, plainTables_eq, List.map_append, plain,
        List.map_map, List.map_cons]
      exact congrArg (fun t => Item.tables (t :: _)) (plain_ofMembers hide _ _ _)

/-- **The blocks of some names** build what the names stand for. -/
theorem exists_members_ofBlocks? {heads : List Head} (ok : ∀ h ∈ heads, h.Ok) {origin : Origin}
    {members : List (KeyPart × Item)}
    (distinct : (members.map (·.1.name) ++ heads.map (·.key.name)).Nodup) (place : Nat) :
    ∃ made, (∀ hide, plainMembers hide made = plainMembers hide (heads.map fun h => (h.key, h.item))) ∧
      ofBlocks? place (heads.flatMap Head.blocks) (.mk origin members) =
        some (.mk origin (members ++ made)) := by
  induction heads generalizing members place with
  | nil => exact ⟨[], fun _ => rfl, by rw [List.append_nil]; rfl⟩
  | cons h heads ih =>
    obtain ⟨first, others⟩ := List.forall_mem_cons.mp ok
    have new : (Table.mk origin members).find? h.key.name = none := by
      rw [Table.find?_eq_none_iff]
      intro m listed same
      exact (List.nodup_append.mp distinct).2.2 _ (List.mem_map_of_mem listed) _
        List.mem_cons_self same
    obtain ⟨item, place', plain, built⟩ :=
      exists_item_ofBlocks? first new place (heads.flatMap Head.blocks)
    have next : ((members ++ [(h.key, item)]).map (·.1.name) ++ heads.map (·.key.name)).Nodup := by
      rw [List.map_append, List.append_assoc]
      exact distinct
    obtain ⟨made, plain', built'⟩ := ih others next place'
    refine ⟨(h.key, item) :: made, fun hide => ?_, ?_⟩
    · rw [List.map_cons, plainMembers, plainMembers, plain, plain']
    · rw [List.flatMap_cons, built, Table.put_new new]
      rw [List.append_assoc, List.singleton_append] at built'
      exact built'

theorem LineOk.entryOk {m : KeyPart × Entry} (ok : LineOk m) :
    EntryOk OnLine (depthLimit - 1) (⟨[], m.1⟩, m.2) :=
  ⟨⟨List.forall_mem_singleton.mpr ok.readable, Nat.le_of_ble_eq_true rfl⟩, ok.holds⟩

theorem Head.Ok.blocks {h : Head} (ok : h.Ok) : ∀ b ∈ h.blocks, b.Ok := by
  have each : ∀ body ∈ h.bodies, ∀ isArrayItem, (Head.block h.key isArrayItem body).Ok := by
    intro body listed isArrayItem
    have newline : "\n".toList = ['\n'] := by decide
    have lead : Lead "\n".toList := by
      rw [newline]
      exact lead_newline
    refine ⟨⟨⟨List.forall_mem_singleton.mpr ok.readable, Nat.le_of_ble_eq_true rfl⟩, ok.outer, lead, ?_⟩,
      ?_⟩
    · exact ⟨[], [], rfl, List.forall_mem_nil _, .inl rfl⟩
    · exact List.forall_mem_map.mpr fun m hm => (ok.lines body listed m hm).entryOk
  cases h with
  | one key body => exact List.forall_mem_singleton.mpr (each body (List.mem_singleton_self _) false)
  | many key bodies => exact List.forall_mem_map.mpr fun body listed => each body listed true

/-- **A document that is laid out is read** as one that says the same. -/
theorem parse?_render_laid {top : List (KeyPart × Entry)} {heads : List Head} (some_top : top ≠ [])
    (okTop : ∀ m ∈ top, LineOk m) (okHeads : ∀ h ∈ heads, h.Ok)
    (distinct : (top.map (·.1.name) ++ heads.map (·.key.name)).Nodup) :
    ∃ d, Document.parse? (laid top heads).render = some d ∧
      ∀ hide, d.root.plain hide = (laid top heads).root.plain hide := by
  have ok : ∀ m ∈ keyed top, EntryOk OnLine (depthLimit - 1) m :=
    List.forall_mem_map.mpr fun m hm => (okTop m hm).entryOk
  have ok' : ∀ b ∈ heads.flatMap Head.blocks, b.Ok := by
    intro b listed
    obtain ⟨h, hh, among⟩ := List.mem_flatMap.mp listed
    exact (okHeads h hh).blocks b among
  have lines := toList_render_laid top heads
  have some_keyed : keyed top ≠ [] := by
    rw [keyed, Ne, List.map_eq_nil_iff]
    exact some_top
  have unmarked : ∀ rest, (laid top heads).render.toList ≠ '\ufeff' :: rest := fun rest =>
    lines ▸ entryLines_ne_mark ok some_keyed _ rest
  obtain ⟨entries, blocks, read, alike, alike'⟩ := @statements?_document _ _ ok ok' [] rfl
    (laid top heads).render.toList (by rw [lines, List.append_nil])
  -- the lines that were laid out build what was laid out, and what was read says the same
  have built := assignAll_body (List.nodup_append.mp distinct).1 .whole
  have names : ((valueMembers top).map (·.1.name) ++ heads.map (·.key.name)).Nodup := by
    rw [valueMembers, List.map_map]
    exact distinct
  obtain ⟨made, plain, built'⟩ := @exists_members_ofBlocks? heads okHeads .whole _ names 0
  have start : ∀ hide, (assignAll entries (.mk .whole [])).map (Table.plain hide) =
      some ((Table.mk .whole (valueMembers top)).plain hide) := by
    intro hide
    rw [assignAll_plain, alike, ← assignAll_plain, built, Option.map_some]
  obtain ⟨root, first⟩ : ∃ root, assignAll entries (.mk .whole []) = some root := by
    rw [← Option.isSome_iff_exists, ← Option.isSome_map (f := Table.plain fun _ => false), start]
    rfl
  rw [first] at start
  have onward : ∀ hide, (ofBlocks? 0 blocks root).map (Table.plain hide) =
      some ((laid top heads).root.plain hide) := by
    intro hide
    rw [ofBlocks?_congr (alike' hide) 0 0 (Option.some.inj (start hide)), built', Option.map_some]
    refine congrArg some ?_
    rw [laid, Table.plain, Table.plain, plainMembers_eq, plainMembers_eq, List.map_append,
      List.map_append, ← plainMembers_eq hide made, plain, plainMembers_eq]
  obtain ⟨root', last⟩ : ∃ root', ofBlocks? 0 blocks root = some root' := by
    rw [← Option.isSome_iff_exists, ← Option.isSome_map (f := Table.plain fun _ => false), onward]
    rfl
  rw [last] at onward
  have table : Table.ofStatements? (assignments entries ++ blocks.flatMap Block.statements) =
      some root' := by
    rw [assignments, ofStatements?_append, first, Option.bind_some, last]
  refine ⟨⟨root', String.ofList []⟩, ?_, fun hide => Option.some.inj (onward hide)⟩
  unfold Document.parse?
  split
  · rename_i rest marked
    exact absurd marked (unmarked rest)
  · dsimp only
    rw [read, Option.bind_eq_bind, Option.bind_some]
    dsimp only
    rw [table]
    rfl

end Patchwork.Toml
