import Patchwork.Proofs.Toml.Onward

/-! Replacing a text.  The names at the top of a document that was read are distinct
(`distinct_of_parse?`), so replacing the text of one of them replaces one token of the whole document
(`exists_token`), and what is read from the one document and from the other differs in nothing else
(`parse?_setText`). -/

namespace Patchwork.Toml
variable {t t' : Table} {name text : String} {d : Document}

/-! ## Distinct names -/

/-- Whether the names of a table are distinct. -/
def Table.Distinct (t : Table) : Prop := (t.members.map fun m => m.1.name).Nodup

namespace Table.Distinct

theorem put (h : t.Distinct) (key : KeyPart) (item : Item) : (t.put key item).Distinct := by
  unfold Distinct
  by_cases known : t.find? key.name = none
  · rw [put_new known, members, List.map_append, List.nodup_append]
    refine ⟨h, List.nodup_cons.mpr ⟨List.not_mem_nil, .nil⟩, fun name listed other same => ?_⟩
    obtain ⟨m, among, rfl⟩ := List.mem_map.mp listed
    rw [List.mem_singleton.mp same]
    exact find?_eq_none_iff.mp known m among
  · rw [put_known known, members, List.map_map]
    refine (congrArg List.Nodup (List.map_congr_left fun m _ => ?_)).mpr h
    dsimp only [Function.comp]
    split <;> rfl

theorem erase (h : t.Distinct) (name : String) : (t.erase name).Distinct :=
  h.sublist ((List.filter_sublist).map _)

theorem alter {made : Origin} {act : Table → Option Table} {path : List KeyPart} (h : t.Distinct)
    (kept : ∀ t', act t = some t' → t'.Distinct) (altered : t.alter made act path = some t') :
    t'.Distinct := by
  cases path with
  | nil => exact kept t' altered
  | cons key path =>
    rw [Table.alter] at altered
    split at altered
    · obtain ⟨inner, -, altered⟩ := Option.bind_eq_some_iff.mp altered
      cases altered
      exact h.put _ _
    · cases altered
    · split at altered
      · cases altered
      · obtain ⟨inner, -, altered⟩ := Option.bind_eq_some_iff.mp altered
        cases altered
        exact h.put _ _
    · split at altered
      · cases altered
      · obtain ⟨inner, -, altered⟩ := Option.bind_eq_some_iff.mp altered
        cases altered
        exact h.put _ _

theorem assignAll {entries : List (Key × Entry)} (h : t.Distinct)
    (made : assignAll entries t = some t') : t'.Distinct := by
  induction entries generalizing t with
  | nil =>
    cases made
    exact h
  | cons m entries ih =>
    obtain ⟨t'', step, made⟩ := Option.bind_eq_some_iff.mp ((assignAll_cons ..).symm.trans made)
    refine ih (h.alter (fun inner changed => ?_) step) made
    split at changed
    · cases changed
      exact h.put _ _
    · cases changed

theorem opens {b : Block} {origin : Origin} (h : t.Distinct) (made : b.opens origin t = some t') :
    t'.Distinct := by
  obtain ⟨⟨path, last⟩, _ | _, around, body⟩ := b
  · refine h.alter (fun outer changed => ?_) made
    obtain ⟨-, start, inner, -, -, rfl⟩ := define_single changed
    exact (h.erase _).put _ _
  · refine h.alter (fun outer changed => ?_) made
    obtain ⟨-, before, inner, -, -, rfl⟩ := append_single changed
    exact h.put _ _

theorem ofBlocks? {blocks : List Block} {place : Nat} (h : t.Distinct)
    (made : ofBlocks? place blocks t = some t') : t'.Distinct := by
  induction blocks generalizing place t with
  | nil =>
    cases made
    exact h
  | cons b blocks ih =>
    rw [Toml.ofBlocks?] at made
    obtain ⟨t'', step, made⟩ := Option.bind_eq_some_iff.mp made
    exact ih (h.opens step) made

end Table.Distinct

/-- What a name stands for is one member, if names are distinct. -/
theorem exists_split {item : Item} (distinct : t.Distinct) (found : t.find? name = some item) :
    ∃ front key back, t.members = front ++ (key, item) :: back ∧ key.name = name ∧
      ∀ m ∈ front ++ back, m.1.name ≠ name := by
  obtain ⟨key, listed, rfl⟩ := mem_of_find? found
  obtain ⟨front, back, members⟩ := List.append_of_mem listed
  rw [Table.Distinct, members, List.map_append, List.map_cons] at distinct
  obtain ⟨-, others, apart⟩ := List.nodup_append.mp distinct
  refine ⟨front, key, back, members, rfl, List.forall_mem_append.mpr ⟨fun m hm => ?_, fun m hm same => ?_⟩⟩
  · exact apart _ (List.mem_map_of_mem hm) _ List.mem_cons_self
  · exact (List.nodup_cons.mp others).1 (List.mem_map.mpr ⟨m, hm, same⟩)

/-- Changing that member changes no other. -/
theorem map_split {front back : List (KeyPart × Item)} {key : KeyPart} {item : Item}
    (change : KeyPart × Item → KeyPart × Item) (named : key.name = name)
    (others : ∀ m ∈ front ++ back, m.1.name ≠ name) :
    (front ++ (key, item) :: back).map (fun m => if m.1.name = name then change m else m) =
      front ++ change (key, item) :: back := by
  obtain ⟨before, behind⟩ := List.forall_mem_append.mp others
  have kept : ∀ ms : List (KeyPart × Item), (∀ m ∈ ms, m.1.name ≠ name) →
      ms.map (fun m => if m.1.name = name then change m else m) = ms := fun ms other =>
    (List.map_congr_left fun m hm => if_neg (other m hm)).trans (List.map_id _)
  rw [List.map_append, List.map_cons, if_pos named, kept front before, kept back behind]

/-- **The names at the top of a document that was read are distinct.** -/
theorem distinct_of_parse? {text : String} (h : Document.parse? text = some d) : d.root.Distinct := by
  obtain ⟨⟨statements, tail⟩, -, h⟩ := Option.bind_eq_some_iff.mp h
  obtain ⟨root, built, h⟩ := Option.bind_eq_some_iff.mp h
  cases h
  obtain ⟨entries, blocks, rfl⟩ := exists_blocks statements
  rw [ofStatements?_append] at built
  obtain ⟨top, first, built⟩ := Option.bind_eq_some_iff.mp built
  have empty : (Table.mk .whole []).Distinct := List.nodup_nil
  exact (empty.assignAll first).ofBlocks? built

/-! ## One token -/

theorem memberSections_append (path : List KeyPart) (front back : List (KeyPart × Item)) :
    memberSections path (front ++ back) = memberSections path front ++ memberSections path back := by
  induction front with
  | nil => rfl
  | cons m front ih => rw [List.cons_append, memberSections, memberSections, ih, List.append_assoc]

/-- What is read as a text is a string. -/
theorem string?_of_value? {depth : Nat} {s w r : List Char} {text : String}
    (h : value? depth s = some ⟨.str text, w, r⟩) : string? s = some (text.toList, r) := by
  have known : value?.string s = some ⟨.str text, w, r⟩ → string? s = some (text.toList, r) := by
    intro h
    obtain ⟨⟨cs, rest⟩, read, h⟩ := Option.bind_eq_some_iff.mp h
    cases h
    rw [read, String.toList_ofList]
  rw [value?.eq_def] at h
  dsimp only at h
  split at h
  · exact known h
  · exact known h
  · split at h
    · cases h
    · obtain ⟨items, -, h⟩ := Option.bind_eq_some_iff.mp h
      cases h
  · split at h
    · cases h
    · split at h
      · cases h
      · obtain ⟨_, -, h⟩ := Option.bind_eq_some_iff.mp h
        obtain ⟨_, -, h⟩ := Option.bind_eq_some_iff.mp h
        cases h
  · obtain ⟨_, -, h⟩ := Option.bind_eq_some_iff.mp h
    cases h

/-- **The one member that is replaced** with a text: an entry that is read as the text it says. -/
structure Document.Holds (d : Document) (name value : String) (key : KeyPart) (e : Entry) : Prop where
  listed : ∃ front back, d.root.members = front ++ (key, .value e) :: back ∧
    ∀ text, (d.setText name text).root.members =
      front ++ (key, .value ⟨.str text, stringLiteral text, e.around⟩) :: back
  named : key.name = name
  token : string? e.text.toList = some (value.toList, [])

theorem exists_holds {text value : String} (h : Document.parse? text = some d)
    (known : d.root.text? name = some value) : ∃ key e, d.Holds name value key e := by
  unfold Table.text? at known
  split at known
  rotate_left
  · cases known
  rename_i e found
  obtain ⟨front, key, back, members, named, others⟩ := exists_split (distinct_of_parse? h) found
  refine ⟨key, e, ⟨front, back, members, fun text => ?_⟩, named, ?_⟩
  · have replaced := @map_split name front back key (.value e)
      (fun m => (m.1, Document.replaceValue text m.2)) named others
    rwa [← members] at replaced
  · have listed : (key, Item.value e) ∈ d.root.members :=
      members ▸ List.mem_append_right _ List.mem_cons_self
    have ok := (fitting_of_parse? h).2.entryOk _ (mem_memberEntries listed)
    obtain ⟨w, reads⟩ := ok.holds.readable.reads [] endsValue_nil
    have is_text : e.value = .str value := by
      cases same : e.value <;> rw [same] at known <;> cases known
      rfl
    rw [List.append_nil, is_text] at reads
    exact string?_of_value? reads

section
variable {root : Table} {front back : List (KeyPart × Item)} {key : KeyPart} {e : Entry}

theorem entries_of_members (members : root.members = front ++ (key, .value e) :: back) :
    root.entries = memberEntries [] front ++ (⟨[], key⟩, e) :: memberEntries [] back := by
  rw [Table.entries, members, memberEntries_append, memberEntries, Item.entries, List.singleton_append]

theorem sections_of_members (members : root.members = front ++ (key, .value e) :: back) :
    memberSections [] root.members = memberSections [] front ++ memberSections [] back := by
  rw [members, memberSections_append, memberSections, Item.sections, List.nil_append]

end

/-- The text of a table as a whole stands around the value of a member at the top. -/
theorem exists_render_value (front back : List (KeyPart × Item)) (key : KeyPart) (around : Margin) :
    ∃ before after, ∀ (root : Table) (e : Entry), root.origin = .whole → e.around = around →
      root.members = front ++ (key, .value e) :: back →
      root.render.toList = before ++ e.text.toList ++ after := by
  refine ⟨entryLines (memberEntries [] front) ++ ((Key.render ⟨[], key⟩ ++ "=" ++ around.before).toList),
    around.after.toList ++ ['\n'] ++ entryLines (memberEntries [] back) ++
      sectionLines (memberSections [] front ++ memberSections [] back), ?_⟩
  rintro root e whole rfl members
  rw [toList_render whole, entries_of_members members, sections_of_members members]
  simp only [entryLines, List.flatMap_append, List.flatMap_cons, Entry.render, String.toList_append,
    List.append_assoc]

/-- **Replacing a text replaces one token**: what stands before and behind it does not depend on what it
is replaced by. -/
theorem exists_token {text value : String} (h : Document.parse? text = some d)
    (known : d.root.text? name = some value) : ∃ front token back,
      d.render.toList = front ++ token ++ back ∧ string? token = some (value.toList, []) ∧
        ∀ text, (d.setText name text).render.toList = front ++ (stringLiteral text).toList ++ back := by
  obtain ⟨key, e, ⟨front, back, members, replaced⟩, -, token⟩ := exists_holds h known
  obtain ⟨before, after, lines⟩ := exists_render_value front back key e.around
  have whole := (fitting_of_parse? h).1
  refine ⟨before, e.text.toList, after ++ d.tail.toList, ?_, token, fun text => ?_⟩
  · rw [Document.render, String.toList_append, lines _ e whole rfl members, List.append_assoc]
  · have tail : (d.setText name text).tail = d.tail := rfl
    rw [Document.render, String.toList_append, tail,
      lines (d.setText name text).root ⟨.str text, stringLiteral text, e.around⟩ whole rfl (replaced text),
      List.append_assoc]

/-- A run of letters is written between quotes. -/
theorem toList_stringLiteral_run (n : Nat) :
    (stringLiteral (String.ofList (List.replicate n 'a'))).toList =
      '"' :: (List.replicate n 'a' ++ ['"']) := by
  have letters : ∀ c ∈ List.replicate n 'a', c = 'a' := fun c listed => (List.mem_replicate.mp listed).2
  have basic : StringForm.of (List.replicate n 'a') = .basic := by
    have holds : StringForm.basic.holds (List.replicate n 'a') :=
      List.all_eq_true.mpr fun c listed => letters c listed ▸ by decide
    rw [StringForm.of, if_pos holds]
  have body : ∀ run, escapedBody false 0 run (List.replicate n 'a') = List.replicate n 'a' := by
    clear letters basic
    induction n with
    | zero => exact fun _ => rfl
    | succ n ih =>
      intro run
      rw [List.replicate_succ, escapedBody, if_neg (by decide), if_pos (by decide), ih]
  rw [stringLiteral, String.toList_ofList, String.toList_ofList, basic, stringBody, body]
  rfl

/-- **Where a text is replaced is known** from what it is replaced by. -/
theorem eq_of_replaced {front back front' back' : List Char}
    (h : ∀ text, front ++ (stringLiteral text).toList ++ back =
      front' ++ (stringLiteral text).toList ++ back') : front = front' ∧ back = back' := by
  have shorter : ∀ {front back front' back' : List Char},
      (∀ text, front ++ (stringLiteral text).toList ++ back =
        front' ++ (stringLiteral text).toList ++ back') → ¬ front.length < front'.length := by
    intro front back front' back' h less
    have above : front <+: front' := by
      have whole := h ""
      rw [List.append_assoc, List.append_assoc] at whole
      exact List.prefix_of_prefix_length_le (whole ▸ List.prefix_append _ _) (List.prefix_append _ _)
        (Nat.le_of_lt less)
    obtain ⟨more, rfl⟩ := above
    have some_more : 0 < more.length := by
      rw [List.length_append] at less
      omega
    -- behind the first of two quotes stands a letter of the one text, and a quote of the other
    have run := h (String.ofList (List.replicate more.length 'a'))
    rw [toList_stringLiteral_run, List.append_assoc, List.append_assoc, List.append_assoc,
      List.append_cancel_left_eq] at run
    have same := congrArg (fun cs : List Char => cs[more.length]?) run
    obtain ⟨n, size⟩ := Nat.exists_eq_add_one.mpr some_more
    simp [size, List.getElem?_append] at same
  have size : front.length = front'.length :=
    Nat.le_antisymm (Nat.not_lt.mp (shorter fun text => (h text).symm)) (Nat.not_lt.mp (shorter h))
  have whole := h ""
  rw [List.append_assoc, List.append_assoc] at whole
  obtain ⟨same, rest⟩ := List.append_inj whole size
  exact ⟨same, List.append_cancel_left rest⟩

/-! ## Reading again -/

/-- Hides the value of one name at the top. -/
def Hiding.top (name : String) : Hiding := fun names => names == [name]

/-- Where the name is taken out, nothing is hidden. -/
theorem plain_erase_top (t : Table) (name : String) :
    (t.erase name).plain (.top name) = (t.erase name).plain fun _ => false := by
  rw [Table.erase, Table.plain, Table.plain, plainMembers_eq, plainMembers_eq]
  congr 1
  refine List.map_congr_left fun m listed => ?_
  have other : m.1.name ≠ name := by simpa using (List.mem_filter.mp listed).2
  have shown : (Hiding.top name).below m.1.name = Hiding.below (fun _ => false) m.1.name := by
    funext names
    simp [Hiding.top, Hiding.below, other]
  rw [shown]

/-- **What is read of the rest is the same**, whatever a text at the top is replaced by. -/
theorem parse?_setText {text value : String} (h : Document.parse? text = some d)
    (known : d.root.text? name = some value) {q : Document} (again : Document.parse? d.render = some q)
    (new : String) : ∃ q', Document.parse? (d.setText name new).render = some q' ∧
      q'.root.text? name = some new ∧ q'.tail = q.tail ∧
      (q'.root.erase name).plain (fun _ => false) = (q.root.erase name).plain fun _ => false := by
  obtain ⟨key, e, ⟨front, back, members, replaced⟩, named, -⟩ := exists_holds h known
  obtain ⟨whole, fitting⟩ := fitting_of_parse? h
  have whole' : (d.setText name new).root.origin = .whole := whole
  have entries := entries_of_members members
  have entries' := entries_of_members (replaced new)
  have sections := (sections_of_members (replaced new)).trans (sections_of_members members).symm
  have hidden : plainEntries (.top name) (d.setText name new).root.entries =
      plainEntries (.top name) d.root.entries := by
    have top : Hiding.top name (Key.names ⟨[], key⟩) = true := by
      rw [← named]
      exact beq_self_eq_true [key.name]
    rw [entries, entries', plainEntries, plainEntries, List.map_append, List.map_append, List.map_cons,
      List.map_cons, top]
    rfl
  have some_entry : d.root.entries ≠ [] := by
    rw [entries]
    exact List.append_ne_nil_of_right_ne_nil _ (List.cons_ne_nil _ _)
  have lines : d.render.toList = entryLines d.root.entries ++
      (sectionLines (memberSections [] d.root.members) ++ d.tail.toList) := by
    rw [Document.render, String.toList_append, toList_render whole, List.append_assoc]
  have lines' : (d.setText name new).render.toList = entryLines (d.setText name new).root.entries ++
      (sectionLines (memberSections [] d.root.members) ++ d.tail.toList) := by
    have tail : (d.setText name new).tail = d.tail := rfl
    rw [Document.render, String.toList_append, toList_render whole', sections, List.append_assoc, tail]
  have ok' := (fitting.setText name new).entryOk
  obtain ⟨q', read, plain, tail⟩ := parse?_congr fitting.entryOk ok' some_entry hidden lines lines' again
  obtain ⟨m, listed, names, written⟩ : ∃ m ∈ (d.setText name new).root.entries,
      m.1.names = [name] ∧ m.2.value = .str new := by
    refine exists_entry_setText ?_
    rw [known]
    rfl
  refine ⟨q', read, text?_of_parse? ok' lines' read listed names written, tail, ?_⟩
  rw [← plain_erase_top, ← plain_erase_top, erase_plain, erase_plain, plain]

end Patchwork.Toml
