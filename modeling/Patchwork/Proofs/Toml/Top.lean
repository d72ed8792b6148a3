import Patchwork.Proofs.Toml.Statement

/-! The entries at the top of a document.  Headers leave the entries of a table such as can be written on
lines of their own (`Fitting.ofBlocks?`), so the entries at the top of a document that was read can be
written and read again (`fitting_of_parse?`), also when a text among them was replaced
(`Fitting.setText`).  They are the first lines of the document (`exists_render`), and what one of them says
stays what its name stands for, whatever follows (`find?_of_mem`, `find?_ofBlocks`). -/

namespace Patchwork.Toml
variable {ok : KeyPart → Entry → Prop} {n : Nat} {members : List (KeyPart × Item)} {t t' : Table}

/-! ## Members that can be written -/

section
variable (ok : KeyPart → Entry → Prop)

/-- **What a name can stand for where entries can be written**, if their keys have so many parts at
most: such an entry, a table of such that dotted keys made, or what has headers of its own. -/
inductive Item.Fits : Nat → KeyPart → Item → Prop
  | value {n : Nat} {key : KeyPart} {e : Entry} (holds : ok key e) : Fits (n + 1) key (.value e)
  | dotted {n : Nat} {key : KeyPart} {members : List (KeyPart × Item)}
      (readable : ∀ m ∈ members, m.1.Readable) (each : ∀ m ∈ members, Fits n m.1 m.2) :
      Fits (n + 1) key (.table (.mk .dotted members))
  | table {n : Nat} {key : KeyPart} {t : Table} (headed : t.origin ≠ .dotted) : Fits n key (.table t)
  | tables {n : Nat} {key : KeyPart} {all : List Table} : Fits n key (.tables all)

/-- **Members whose entries can be written.** -/
def Fitting (n : Nat) (members : List (KeyPart × Item)) : Prop :=
  ∀ m ∈ members, m.1.Readable ∧ m.2.Fits ok n m.1

end

/-- What assignments put into a table can be written. -/
theorem Entered.fitting (h : Entered ok n members) : Fitting ok n members := by
  have fits : ∀ {n : Nat} {key : KeyPart} {item : Item}, item.Entered ok n key →
      item.Fits ok n key := by
    intro n key item entered
    induction entered with
    | value _ holds => exact .value holds
    | table _ _ each _ ih => exact .dotted (fun m hm => (each m hm).readable) ih
  exact fun m hm => ⟨(h.each m hm).readable, fits (h.each m hm)⟩

/-- The entries of such members can be written. -/
theorem Fitting.entryOk (h : Fitting ok n members) : ∀ m ∈ memberEntries [] members, EntryOk ok n m := by
  induction n generalizing members with
  | zero =>
    induction members with
    | nil => nofun
    | cons m members rest =>
      obtain ⟨key, item⟩ := m
      obtain ⟨⟨-, first⟩, others⟩ := List.forall_mem_cons.mp h
      have none : item.entries [] key = [] := by
        cases first with
        | table headed =>
          rename_i t
          obtain ⟨_ | _ | _ | _, _⟩ := t
          · rfl
          · rfl
          · rfl
          · exact absurd rfl headed
        | tables => rfl
      rw [memberEntries, none, List.nil_append]
      exact rest others
  | succ n ih =>
    induction members with
    | nil => nofun
    | cons m members rest =>
      obtain ⟨key, item⟩ := m
      obtain ⟨⟨readable, first⟩, others⟩ := List.forall_mem_cons.mp h
      rw [memberEntries, List.forall_mem_append]
      refine ⟨?_, rest others⟩
      cases first with
      | value holds =>
        exact List.forall_mem_singleton.mpr
          ⟨⟨List.forall_mem_singleton.mpr readable, Nat.succ_le_succ (Nat.zero_le n)⟩, holds⟩
      | dotted readable' each =>
        rw [Item.entries, List.nil_append, memberEntries_cons, List.forall_mem_map]
        exact fun m hm => (ih (fun m hm => ⟨readable' m hm, each m hm⟩) m hm).below readable
      | table headed =>
        rename_i t
        obtain ⟨_ | _ | _ | _, _⟩ := t
        · nofun
        · nofun
        · nofun
        · exact absurd rfl headed
      | tables => nofun

/-! ## What headers do -/

theorem Fitting.put (h : Fitting ok n t.members) {key : KeyPart} (readable : key.Readable)
    {item : Item} (fits : ∀ other, item.Fits ok n other) : Fitting ok n (t.put key item).members := by
  by_cases new : t.find? key.name = none
  · rw [Table.put_new new]
    exact List.forall_mem_append.mpr ⟨h, List.forall_mem_singleton.mpr ⟨readable, fits key⟩⟩
  · rw [Table.put_known new]
    refine List.forall_mem_map.mpr fun m hm => ?_
    split
    · exact ⟨(h m hm).1, fits m.1⟩
    · exact h m hm

theorem mem_of_find? {name : String} {item : Item} (h : t.find? name = some item) :
    ∃ key, (key, item) ∈ t.members ∧ key.name = name := by
  obtain ⟨m, listed, rfl⟩ := Option.map_eq_some_iff.mp h
  exact ⟨m.1, List.mem_of_find?_eq_some listed, by simpa using List.find?_some listed⟩

/-- **A change at the end of the path of a header** leaves what can be written. -/
theorem Fitting.alter {act : Table → Option Table}
    (same : ∀ t t', act t = some t' → t'.origin = t.origin)
    (kept : ∀ n t t', Fitting ok n t.members → act t = some t' → Fitting ok n t'.members)
    {path : List KeyPart} (readable : ∀ p ∈ path, p.Readable) (h : Fitting ok n t.members)
    (made : t.alter .implied act path = some t') : Fitting ok n t'.members := by
  induction path generalizing n t t' with
  | nil => exact kept n t t' h made
  | cons key path ih =>
    obtain ⟨first, others⟩ := List.forall_mem_cons.mp readable
    rw [Table.alter] at made
    split at made
    · obtain ⟨inner, step, made⟩ := Option.bind_eq_some_iff.mp made
      cases made
      have origin : inner.origin = .implied := origin_alter same step
      exact h.put first fun _ => .table (by rw [origin]; rintro ⟨⟩)
    · cases made
    · rename_i inner found
      rw [if_neg (by simp)] at made
      obtain ⟨inner', step, made⟩ := Option.bind_eq_some_iff.mp made
      cases made
      have origin : inner'.origin = inner.origin := origin_alter same step
      obtain ⟨key', listed, -⟩ := mem_of_find? found
      refine h.put first fun other => ?_
      cases (h _ listed).2 with
      | @dotted m key' members readable' each =>
        have inside : Fitting ok m (Table.mk .dotted members).members :=
          fun m hm => ⟨readable' m hm, each m hm⟩
        have members' := ih others inside step
        obtain ⟨origin', members''⟩ := inner'
        obtain rfl : origin' = .dotted := origin
        exact .dotted (fun m hm => (members' m hm).1) fun m hm => (members' m hm).2
      | table headed => exact .table (origin ▸ headed)
    · split at made
      · cases made
      · obtain ⟨last, -, made⟩ := Option.bind_eq_some_iff.mp made
        cases made
        exact h.put first fun _ => .tables

theorem Fitting.erase (h : Fitting ok n t.members) (name : String) :
    Fitting ok n (t.erase name).members :=
  fun m hm => h m (List.mem_filter.mp hm).1

theorem origin_assignAll {entries : List (Key × Entry)} (h : assignAll entries t = some t') :
    t'.origin = t.origin := by
  induction entries generalizing t with
  | nil =>
    cases h
    rfl
  | cons m entries ih =>
    obtain ⟨t'', step, h⟩ := Option.bind_eq_some_iff.mp ((assignAll_cons ..).symm.trans h)
    exact (ih h).trans (origin_assign step)

section
variable {outer outer' : Table} {last : KeyPart} {origin : Origin} {body : Table → Option Table}

/-- What a header does at the end of its path: it takes over the members of a table that headers further
down had brought about. -/
theorem define_single (h : outer.define ⟨[], last⟩ origin body = some outer') :
    (∀ e, outer.find? last.name ≠ some (.value e)) ∧
      ∃ start inner, (outer.find? last.name = none ∧ start = [] ∨
          ∃ t, outer.find? last.name = some (.table t) ∧ t.origin = .implied ∧ start = t.members) ∧
        body (.mk origin start) = some inner ∧
          outer' = (outer.erase last.name).put last (.table inner) := by
  rw [Table.define, Table.alter] at h
  obtain ⟨start, began, h⟩ : ∃ start, (outer.find? last.name = none ∧ start = [] ∨
        ∃ t, outer.find? last.name = some (.table t) ∧ t.origin = .implied ∧ start = t.members) ∧
      (body (.mk origin start)).bind (fun inner =>
        some ((outer.erase last.name).put last (.table inner))) = some outer' := by
    split at h
    · rename_i found
      exact ⟨_, .inl ⟨found, rfl⟩, h⟩
    · rename_i t found
      split at h
      · rename_i implied
        exact ⟨_, .inr ⟨t, found, implied, rfl⟩, h⟩
      · cases h
    · cases h
  obtain ⟨inner, built, h⟩ := Option.bind_eq_some_iff.mp h
  refine ⟨fun e same => ?_, start, inner, began, built, (Option.some.inj h).symm⟩
  rcases began with ⟨none, -⟩ | ⟨_, found, -⟩
  · cases none.symm.trans same
  · cases found.symm.trans same

/-- What the header of an array item does at the end of its path. -/
theorem append_single (h : outer.append ⟨[], last⟩ origin body = some outer') :
    (∀ e, outer.find? last.name ≠ some (.value e)) ∧
      ∃ before inner, (outer.find? last.name = none ∧ before = [] ∨
          outer.find? last.name = some (.tables before)) ∧
        body (.mk origin []) = some inner ∧ outer' = outer.put last (.tables (before ++ [inner])) := by
  rw [Table.append, Table.alter] at h
  obtain ⟨before, began, h⟩ : ∃ before, (outer.find? last.name = none ∧ before = [] ∨
        outer.find? last.name = some (.tables before)) ∧
      (body (.mk origin [])).bind (fun inner =>
        some (outer.put last (.tables (before ++ [inner])))) = some outer' := by
    split at h
    · rename_i found
      exact ⟨_, .inl ⟨found, rfl⟩, h⟩
    · rename_i all found
      exact ⟨_, .inr found, h⟩
    · cases h
  obtain ⟨inner, built, h⟩ := Option.bind_eq_some_iff.mp h
  refine ⟨fun e same => ?_, before, inner, began, built, (Option.some.inj h).symm⟩
  rcases began with ⟨none, -⟩ | found
  · cases none.symm.trans same
  · cases found.symm.trans same

end

/-- **A block leaves what can be written**, and how the table came to be. -/
theorem Fitting.opens {b : Block} {origin : Origin} (headed : origin ≠ .dotted)
    (readable : ∀ p ∈ b.key.parts, p.Readable) (h : Fitting ok n t.members)
    (made : b.opens origin t = some t') : t'.origin = t.origin ∧ Fitting ok n t'.members := by
  have path : ∀ p ∈ b.key.path, p.Readable := fun p hp => readable p (List.mem_append_left _ hp)
  have last : b.key.last.Readable := readable _ (List.mem_append_right _ List.mem_cons_self)
  have whole : ∃ act : Table → Option Table, t.alter .implied act b.key.path = some t' ∧
      ∀ outer outer', act outer = some outer' → outer'.origin = outer.origin ∧
        ∀ n, Fitting ok n outer.members → Fitting ok n outer'.members := by
    unfold Block.opens at made
    split at made
    · refine ⟨fun outer => outer.append ⟨[], b.key.last⟩ origin (assignAll b.body), made, ?_⟩
      intro outer outer' changed
      obtain ⟨-, before, inner, -, -, rfl⟩ := append_single changed
      exact ⟨rfl, fun n fitting => fitting.put last fun _ => .tables⟩
    · refine ⟨fun outer => outer.define ⟨[], b.key.last⟩ origin (assignAll b.body), made, ?_⟩
      intro outer outer' changed
      obtain ⟨-, start, inner, -, built, rfl⟩ := define_single changed
      have inner_origin : inner.origin = origin := origin_assignAll built
      exact ⟨rfl, fun n fitting => (fitting.erase b.key.last.name).put last fun _ =>
        .table (inner_origin ▸ headed)⟩
  obtain ⟨act, made, keeps⟩ := whole
  exact ⟨origin_alter (fun outer outer' changed => (keeps outer outer' changed).1) made,
    h.alter (fun outer outer' changed => (keeps outer outer' changed).1)
      (fun n outer outer' fitting changed => (keeps outer outer' changed).2 n fitting) path made⟩

theorem Fitting.ofBlocks? {blocks : List Block}
    (readable : ∀ b ∈ blocks, ∀ p ∈ b.key.parts, p.Readable) {place : Nat}
    (h : Fitting ok n t.members) (made : ofBlocks? place blocks t = some t') :
    t'.origin = t.origin ∧ Fitting ok n t'.members := by
  induction blocks generalizing place t with
  | nil =>
    cases made
    exact ⟨rfl, h⟩
  | cons b blocks ih =>
    obtain ⟨first, others⟩ := List.forall_mem_cons.mp readable
    rw [Toml.ofBlocks?] at made
    obtain ⟨t'', step, made⟩ := Option.bind_eq_some_iff.mp made
    have headed : Origin.header (place + 1) b.around ≠ .dotted := by rintro ⟨⟩
    obtain ⟨origin, fitting⟩ := h.opens headed first step
    obtain ⟨origin', fitting'⟩ := ih others fitting made
    exact ⟨origin'.trans origin, fitting'⟩

/-- **The entries at the top of a document that was read** can be written and read again. -/
theorem fitting_of_parse? {text : String} {d : Document} (h : Document.parse? text = some d) :
    d.root.origin = .whole ∧ Fitting OnLine (depthLimit - 1) d.root.members := by
  obtain ⟨⟨statements, tail⟩, read, h⟩ := Option.bind_eq_some_iff.mp h
  obtain ⟨root, built, h⟩ := Option.bind_eq_some_iff.mp h
  cases h
  obtain ⟨ok, -⟩ := ok_of_statements? read
  obtain ⟨entries, blocks, rfl⟩ := exists_blocks statements
  rw [ofStatements?_append] at built
  obtain ⟨top, first, built⟩ := Option.bind_eq_some_iff.mp built
  have fits : ∀ m ∈ entries, EntryOk OnLine (depthLimit - 1) m := fun m hm =>
    ok (.assign m.1 m.2) (List.mem_append_left _ (List.mem_map.mpr ⟨m, hm, rfl⟩))
  have readable : ∀ b ∈ blocks, ∀ p ∈ b.key.parts, p.Readable := by
    intro b hb
    have header : (Statement.ofHeader b.key b.isArrayItem b.around).Ok :=
      ok _ (List.mem_append_right _ (List.mem_flatMap.mpr ⟨b, hb, List.mem_cons_self⟩))
    have header' : HeaderOk b.key b.around := by
      rcases b with ⟨key, _ | _, around, body⟩ <;> exact header
    exact header'.key.parts
  have apart : ∀ m ∈ entries, ∀ p ∈ m.1.path.head?, ∀ m' ∈ ([] : List (KeyPart × Item)),
      m'.1.name ≠ p.name := fun _ _ _ _ => List.forall_mem_nil _
  obtain ⟨members, rfl, entered⟩ := entered_nil.of_assignAll fits apart first
  rw [List.nil_append] at built
  have top : Fitting OnLine (depthLimit - 1) (Table.mk .whole members).members := entered.fitting
  exact top.ofBlocks? readable built

/-! ## Replacing a text -/

/-- **A text at the top can be replaced** by any other one. -/
theorem Fitting.setText {d : Document} (h : Fitting OnLine n d.root.members) (name text : String) :
    Fitting OnLine n (d.setText name text).root.members := by
  refine List.forall_mem_map.mpr ?_
  rintro ⟨key, item⟩ hm
  obtain ⟨readable, fits⟩ := h _ hm
  split
  · refine ⟨readable, ?_⟩
    cases fits with
    | value holds =>
      have around := readable_stringLiteral (depthLimit - 1) text holds.readable.before
      exact .value ⟨around, holds.after, holds.outer⟩
    | dotted readable' each => exact .dotted readable' each
    | table headed => exact .table headed
    | tables => exact .tables
  · exact ⟨readable, fits⟩

theorem mem_memberEntries {key : KeyPart} {e : Entry} (h : (key, Item.value e) ∈ members) :
    (⟨[], key⟩, e) ∈ memberEntries [] members := by
  induction members with
  | nil => cases h
  | cons m members ih =>
    rw [memberEntries.eq_def]
    dsimp only
    rcases List.mem_cons.mp h with rfl | h
    · exact List.mem_append_left _ (List.mem_singleton_self _)
    · exact List.mem_append_right _ (ih h)

/-- The text that was put in the place of another one is among the entries at the top. -/
theorem exists_entry_setText {d : Document} {name text : String}
    (there : (d.root.text? name).isSome) :
    ∃ m ∈ (d.setText name text).root.entries, m.1.names = [name] ∧ m.2.value = .str text := by
  unfold Table.text? at there
  split at there
  · rename_i e found
    obtain ⟨key, listed, rfl⟩ := mem_of_find? found
    have replaced : (key, Document.replaceValue text (.value e)) ∈ (d.setText key.name text).root.members :=
      List.mem_map.mpr ⟨_, listed, if_pos rfl⟩
    exact ⟨_, mem_memberEntries replaced, rfl, rfl⟩
  · cases there

/-! ## The first lines -/

/-- The text of a section is a line for each entry, under the header. -/
theorem Section.toList_render (s : Section) :
    s.render.toList = s.header.toList ++ entryLines s.table.entries := by
  have newline : "\n".toList = ['\n'] := by decide
  rw [render, String.toList_append, String.toList_join, List.flatMap_map, entryLines]
  refine congrArg (fun f => _ ++ List.flatMap f s.table.entries) (funext fun m => ?_)
  rw [String.toList_append, newline]

/-- The text of some sections in the order of their places. -/
def sectionLines (sections : List Section) : List Char :=
  ((Section.placed 0 sections).mergeSort fun a b => a.1 ≤ b.1).flatMap fun s => s.2.render.toList

/-- **The text of a table as a whole**: the entries at the top, and then the other sections. -/
theorem toList_render {root : Table} (whole : root.origin = .whole) :
    root.render.toList = entryLines root.entries ++ sectionLines (memberSections [] root.members) := by
  have sorted : (Section.placed 0 (⟨none, false, root⟩ :: memberSections [] root.members)).mergeSort
      (fun a b => a.1 ≤ b.1) = (0, ⟨none, false, root⟩) ::
        (Section.placed 0 (memberSections [] root.members)).mergeSort fun a b => a.1 ≤ b.1 := by
    have placed : Section.placed 0 (⟨none, false, root⟩ :: memberSections [] root.members) =
        (0, ⟨none, false, root⟩) :: Section.placed 0 (memberSections [] root.members) := by
      rw [Section.placed, Section.place?, whole]
      rfl
    have trans : ∀ a b c : Nat × Section,
        decide (a.1 ≤ b.1) → decide (b.1 ≤ c.1) → decide (a.1 ≤ c.1) :=
      fun a b c => by simpa using Nat.le_trans
    have total : ∀ a b : Nat × Section, decide (a.1 ≤ b.1) || decide (b.1 ≤ a.1) :=
      fun a b => by simpa using Nat.le_total a.1 b.1
    obtain ⟨front, back, sorted, others, before⟩ := List.mergeSort_cons trans total
      (0, ⟨none, false, root⟩) (Section.placed 0 (memberSections [] root.members))
    rw [placed, sorted]
    -- no section has a place in front of the first one
    cases front with
    | nil => rw [others, List.nil_append, List.nil_append]
    | cons s front =>
      have odd := before s List.mem_cons_self
      simp at odd
  have text : (Section.render ⟨none, false, root⟩).toList = entryLines root.entries :=
    Section.toList_render _
  unfold Table.render
  dsimp only
  rw [sorted, List.map_cons, String.join_cons, String.toList_append, text, String.toList_join,
    List.flatMap_map, sectionLines]

/-- **The entries at the top are the first lines** of a text. -/
theorem exists_render {root : Table} (whole : root.origin = .whole) :
    ∃ rest, root.render.toList = entryLines root.entries ++ rest :=
  ⟨_, toList_render whole⟩

/-- No statement starts with a byte order mark. -/
theorem statements?_mark (fuel : Nat) (rest : List Char) :
    statements? fuel ('\ufeff' :: rest) = none := by
  cases fuel with
  | zero => rfl
  | succ fuel =>
    have mark : EndsGap '\ufeff' := ⟨by decide, by decide, by decide⟩
    have cut := lead_nil mark rest
    have space : spaces ('\ufeff' :: rest) = ([], '\ufeff' :: rest) :=
      @spaces_append [] ('\ufeff' :: rest) (List.forall_mem_nil _) (by rintro c ⟨⟩; decide)
    have unnamed : key? ('\ufeff' :: rest) = none := by
      have fuel : depthLimit - 1 = 78 + 1 := by decide
      rw [key?, fuel, keyParts?, space]
      rfl
    rw [List.nil_append] at cut
    rw [statements?_assign cut (by decide), assign?, unnamed]
    rfl

/-- No line with an entry does. -/
theorem entryLines_ne_mark {entries : List (Key × Entry)}
    (ok : ∀ m ∈ entries, EntryOk OnLine (depthLimit - 1) m) (some : entries ≠ []) (more : List Char)
    (rest : List Char) : entryLines entries ++ more ≠ '\ufeff' :: rest := by
  intro same
  obtain ⟨m, entries, rfl⟩ := List.exists_cons_of_ne_nil some
  have text : ∃ c rest', entryLines (m :: entries) = c :: rest' := by
    refine List.exists_cons_of_ne_nil fun none => ?_
    have size := length_le_entryLines (m :: entries)
    rw [none] at size
    exact absurd size (by simp)
  obtain ⟨c, rest', lines⟩ := text
  obtain ⟨entries', -, read⟩ := statements?_entries ok []
  have all := read 1
  rw [List.append_nil, lines] at all
  rw [lines] at same
  rw [(List.cons.inj same).1, statements?_mark] at all
  cases all

/-! ## Reading the first lines -/

section
variable {name : String} {e : Entry}

/-- A value stays what its name stands for, whatever is done below other names. -/
theorem find?_alter {made : Origin} {act : Table → Option Table} {path : List KeyPart}
    (known : t.find? name = some (.value e)) (kept : ∀ t', act t = some t' → t'.find? name = some (.value e))
    (h : t.alter made act path = some t') : t'.find? name = some (.value e) := by
  have put : ∀ {key : KeyPart} {item : Item}, (∀ e, t.find? key.name ≠ some (.value e)) →
      (t.put key item).find? name = some (.value e) := by
    intro key item odd
    rw [Table.find?_put, if_neg, known]
    rintro rfl
    exact odd e known
  cases path with
  | nil => exact kept t' h
  | cons key path =>
    rw [Table.alter] at h
    split at h
    · rename_i found
      obtain ⟨inner, -, h⟩ := Option.bind_eq_some_iff.mp h
      cases h
      exact put fun e => by rw [found]; rintro ⟨⟩
    · cases h
    · rename_i found
      split at h
      · cases h
      · obtain ⟨inner, -, h⟩ := Option.bind_eq_some_iff.mp h
        cases h
        exact put fun e => by rw [found]; rintro ⟨⟩
    · rename_i found
      split at h
      · cases h
      · obtain ⟨inner, -, h⟩ := Option.bind_eq_some_iff.mp h
        cases h
        exact put fun e => by rw [found]; rintro ⟨⟩

theorem find?_assign {key : Key} {e' : Entry} (known : t.find? name = some (.value e))
    (h : t.assign key e' = some t') : t'.find? name = some (.value e) := by
  refine find?_alter known (fun t'' changed => ?_) h
  split at changed
  · rename_i new
    cases changed
    rw [Table.find?_put, if_neg, known]
    rintro rfl
    rw [known] at new
    exact absurd new.2 (by simp)
  · cases changed

theorem find?_assignAll {entries : List (Key × Entry)} (known : t.find? name = some (.value e))
    (h : assignAll entries t = some t') : t'.find? name = some (.value e) := by
  induction entries generalizing t with
  | nil =>
    cases h
    exact known
  | cons m entries ih =>
    obtain ⟨t'', step, h⟩ := Option.bind_eq_some_iff.mp ((assignAll_cons ..).symm.trans h)
    exact ih (find?_assign known step) h

/-- An entry is what its name stands for once all entries are in the table. -/
theorem find?_of_mem {entries : List (Key × Entry)} {m : Key × Entry} (listed : m ∈ entries)
    (names : m.1.names = [name]) (h : assignAll entries t = some t') :
    t'.find? name = some (.value m.2) := by
  obtain ⟨front, back, rfl⟩ := List.append_of_mem listed
  rw [assignAll_append] at h
  obtain ⟨t₁, -, h⟩ := Option.bind_eq_some_iff.mp h
  obtain ⟨t₂, step, h⟩ := Option.bind_eq_some_iff.mp ((assignAll_cons ..).symm.trans h)
  refine find?_assignAll ?_ h
  obtain ⟨⟨path, last⟩, e⟩ := m
  obtain ⟨rfl, rfl⟩ : path = [] ∧ last.name = name := by
    cases path with
    | nil => exact ⟨rfl, (List.cons.inj names).1⟩
    | cons p path =>
      have size := congrArg List.length names
      simp [Key.names, Key.parts] at size
  rw [assign_single] at step
  split at step
  · cases step
    exact Table.find?_put_self t₁ last (.value e)
  · cases step

theorem find?_erase {other : String} (apart : name ≠ other) : (t.erase other).find? name = t.find? name := by
  rw [Table.erase, Table.find?, Table.members, List.find?_filter]
  refine congrArg (Option.map _) (congrArg (fun p => t.members.find? p) (funext fun m => ?_))
  by_cases same : m.1.name = name
  · simp [same, apart]
  · simp [same]

theorem find?_opens {b : Block} {origin : Origin} (known : t.find? name = some (.value e))
    (h : b.opens origin t = some t') : t'.find? name = some (.value e) := by
  -- the path of the header may be empty, so that its own name is one of the table
  obtain ⟨⟨path, last⟩, isArrayItem, around, body⟩ := b
  have apart : (∀ e, t.find? last.name ≠ some (.value e)) → name ≠ last.name := by
    rintro odd rfl
    exact odd e known
  cases isArrayItem with
  | true =>
    refine find?_alter known (fun t'' changed => ?_) h
    obtain ⟨odd, before, inner, -, -, rfl⟩ := append_single changed
    rw [Table.find?_put, if_neg (apart odd), known]
  | false =>
    refine find?_alter known (fun t'' changed => ?_) h
    obtain ⟨odd, start, inner, -, -, rfl⟩ := define_single changed
    rw [Table.find?_put, if_neg (apart odd), find?_erase (apart odd), known]

theorem find?_ofBlocks {blocks : List Block} {place : Nat} (known : t.find? name = some (.value e))
    (h : ofBlocks? place blocks t = some t') : t'.find? name = some (.value e) := by
  induction blocks generalizing place t with
  | nil =>
    cases h
    exact known
  | cons b blocks ih =>
    rw [ofBlocks?] at h
    obtain ⟨t'', step, h⟩ := Option.bind_eq_some_iff.mp h
    exact ih (find?_opens known step) h

end

end Patchwork.Toml
