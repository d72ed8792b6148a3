import Mathlib.Data.List.Nodup
import Patchwork.Proofs.Toml.Laid
import Patchwork.Proofs.Toml.Replaced

/-! Texts that are written back as they stand.  Where names in headers are always spelled in the same way,
a header with what stands below it adds one section, wherever it leads, and changes no other
(`Gains.opens`); the induction is on the path of the header, and carries that tables without a header of
their own have no entries (`Table.Neat`).  So the sections are the headers of the text with what stands
below them (`Gains.ofBlocks?`), and in the order of their places they are the text again
(`sectionLines_eq`, `render_of_isUniform`). -/

namespace Patchwork.Toml
variable {t t' : Table} {key : KeyPart} {item : Item} {path : List KeyPart}

/-! ## Members by their names -/

theorem members_put {key key' : KeyPart} {item item' : Item} {front back : List (KeyPart × Item)}
    (members : t.members = front ++ (key, item) :: back) (named : key'.name = key.name)
    (others : ∀ m ∈ front ++ back, m.1.name ≠ key.name) :
    (t.put key' item').members = front ++ (key, item') :: back := by
  have known : t.find? key'.name ≠ none := by
    rw [Ne, Table.find?_eq_none_iff, members]
    exact fun none => none _ (List.mem_append_right _ List.mem_cons_self) named.symm
  have replaced := @map_split key.name front back key item (fun m => (m.1, item')) rfl others
  rw [Table.put_known known, named, Table.members, members]
  exact replaced

theorem members_erase {key : KeyPart} {item : Item} {front back : List (KeyPart × Item)}
    (members : t.members = front ++ (key, item) :: back)
    (others : ∀ m ∈ front ++ back, m.1.name ≠ key.name) :
    (t.erase key.name).members = front ++ back := by
  obtain ⟨before, behind⟩ := List.forall_mem_append.mp others
  rw [Table.erase, Table.members, members, List.filter_append, List.filter_cons_of_neg (by simp),
    List.filter_eq_self.mpr fun m hm => by simpa using before m hm,
    List.filter_eq_self.mpr fun m hm => by simpa using behind m hm]

/-! ## Sections of members -/

/-- The tables that have sections below a name. -/
def Item.tablesIn : Item → List Table
  | .value _ => []
  | .table t => [t]
  | .tables all => all

/-- Whether their headers add them to an array. -/
def Item.isArray : Item → Bool
  | .value _ | .table _ => false
  | .tables _ => true

theorem Item.table_ne_value (t : Table) (e : Entry) : Item.table t ≠ .value e := by
  rintro ⟨⟩

theorem Item.tables_ne_value (all : List Table) (e : Entry) : Item.tables all ≠ .value e := by
  rintro ⟨⟩

section
variable {name : String}

theorem ne_value_of_new (new : t.find? name = none) (e : Entry) : t.find? name ≠ some (.value e) := by
  rw [new]
  rintro ⟨⟩

theorem ne_value_of_found (found : t.find? name = some item) (table : ∀ e, item ≠ .value e) (e : Entry) :
    t.find? name ≠ some (.value e) := by
  rw [found]
  exact fun same => table e (Option.some.inj same)

end

theorem sections_item (path : List KeyPart) (key : KeyPart) (item : Item) :
    item.sections path key = item.tablesIn.flatMap fun t => t.sections path key item.isArray := by
  cases item with
  | value e => rfl
  | table t => rw [Item.sections, Item.tablesIn, List.flatMap_singleton, Item.isArray]
  | tables all =>
    rw [Item.sections, Item.tablesIn, Item.isArray]
    induction all with
    | nil => rfl
    | cons t all ih => rw [tableSections, ih, List.flatMap_cons]

theorem sections_table (path : List KeyPart) (key : KeyPart) (isArrayItem : Bool)
    (headed : t.origin ≠ .dotted) : t.sections path key isArrayItem =
      ⟨some ⟨path, key⟩, isArrayItem, t⟩ :: memberSections (path ++ [key]) t.members := by
  obtain ⟨origin, members⟩ := t
  have headed : origin ≠ .dotted := headed
  rw [Table.sections, if_neg headed, List.singleton_append, Table.members]

theorem mem_memberSections {members : List (KeyPart × Item)} {s : Section} :
    s ∈ memberSections path members ↔ ∃ m ∈ members, s ∈ m.2.sections path m.1 := by
  induction members with
  | nil =>
    rw [memberSections]
    simp
  | cons m members ih =>
    rw [memberSections, List.mem_append, ih]
    simp

/-- The place and the text of a section with a header of its own. -/
def Section.view? (s : Section) : Option (Nat × List Char) :=
  s.place?.map fun place => (place, s.render.toList)

/-- The sections of some members that have headers of their own. -/
def views (path : List KeyPart) (members : List (KeyPart × Item)) : List (Nat × List Char) :=
  (memberSections path members).filterMap Section.view?

theorem views_append (path : List KeyPart) (front back : List (KeyPart × Item)) :
    views path (front ++ back) = views path front ++ views path back := by
  rw [views, memberSections_append, List.filterMap_append, views, views]

theorem views_split (path : List KeyPart) (front back : List (KeyPart × Item)) (m : KeyPart × Item) :
    views path (front ++ m :: back) = views path front ++ (views path [m] ++ views path back) := by
  rw [views_append, ← List.singleton_append, views_append]

theorem views_values (path : List KeyPart) (members : List (KeyPart × Item))
    (body : List (KeyPart × Entry)) :
    views path (members ++ valueMembers body) = views path members := by
  have none : views path (valueMembers body ++ []) = [] := by
    rw [views, memberSections_values]
    rfl
  rw [List.append_nil] at none
  rw [views_append, none, List.append_nil]

/-- The section of a table, if it has a header of its own. -/
def Table.ownView (path : List KeyPart) (key : KeyPart) (isArrayItem : Bool) (t : Table) :
    List (Nat × List Char) := (Section.view? ⟨some ⟨path, key⟩, isArrayItem, t⟩).toList

theorem views_item (path : List KeyPart) (key : KeyPart)
    (headed : ∀ t ∈ item.tablesIn, t.origin ≠ .dotted) :
    views path [(key, item)] = item.tablesIn.flatMap fun t =>
      t.ownView path key item.isArray ++ views (path ++ [key]) t.members := by
  rw [views, memberSections, memberSections, List.append_nil, sections_item, List.filterMap_flatMap]
  refine List.flatMap_congr fun t listed => ?_
  rw [sections_table _ _ _ (headed t listed), ← List.singleton_append, List.filterMap_append]
  rfl

theorem ownView_implied (implied : t.origin = .implied) (path : List KeyPart) (key : KeyPart)
    (isArrayItem : Bool) : t.ownView path key isArrayItem = [] := by
  rw [Table.ownView, Section.view?, Section.place?, implied]
  rfl

theorem ownView_congr (origin : t'.origin = t.origin) (entries : t'.entries = t.entries)
    (path : List KeyPart) (key : KeyPart) (isArrayItem : Bool) :
    t'.ownView path key isArrayItem = t.ownView path key isArrayItem := by
  have place : (Section.mk (some ⟨path, key⟩) isArrayItem t').place? =
      (Section.mk (some ⟨path, key⟩) isArrayItem t).place? := by
    rw [Section.place?, Section.place?, origin]
  have header : (Section.mk (some ⟨path, key⟩) isArrayItem t').header =
      (Section.mk (some ⟨path, key⟩) isArrayItem t).header := by
    rw [Section.header, Section.header, origin, entries]
  rw [Table.ownView, Table.ownView, Section.view?, Section.view?, place, Section.render, Section.render,
    header, entries]

/-- The section of a table that a block opened is the text of the block. -/
theorem ownView_block {b : Block} {place : Nat} (origin : t.origin = .header place b.around)
    (entries : t.entries = b.body) :
    t.ownView b.key.path b.key.last b.isArrayItem = [(place, b.lines)] := by
  have text : (Section.mk (some b.key) b.isArrayItem t).render.toList = b.lines := by
    rw [Section.toList_render, Section.header, origin, entries]
    rfl
  rw [Table.ownView, Section.view?, Section.place?, origin]
  exact congrArg (fun text => [(place, text)]) text

/-! ## Headers that are spelled in one way -/

/-- Whether headers made a table: its own one, or those of tables in it. -/
def Origin.ByHeader : Origin → Prop
  | .header .. | .implied => True
  | .whole | .dotted => False

section
variable (spell : String → KeyPart)

/-- **A table below which headers are written back as they stand.**  Names are distinct, those in headers
are spelled in one way, and a table without a header has no entries. -/
inductive Table.Neat : Table → Prop
  | mk {t : Table} (distinct : t.Distinct) (bare : t.origin = .implied → t.entries = [])
      (spelled : ∀ m ∈ t.members, (∀ e, m.2 ≠ .value e) → m.1 = spell m.1.name)
      (headed : ∀ m ∈ t.members, ∀ inner ∈ m.2.tablesIn, inner.origin.ByHeader)
      (each : ∀ m ∈ t.members, ∀ inner ∈ m.2.tablesIn, inner.Neat) : t.Neat

/-- What a name stands for in such a table. -/
structure Item.Neat (key : KeyPart) (item : Item) : Prop where
  spelled : (∀ e, item ≠ .value e) → key = spell key.name
  headed : ∀ inner ∈ item.tablesIn, inner.origin.ByHeader
  each : ∀ inner ∈ item.tablesIn, inner.Neat spell

end

section
variable {spell : String → KeyPart}

theorem neat_iff : t.Neat spell ↔ t.Distinct ∧ (t.origin = .implied → t.entries = []) ∧
    ∀ m ∈ t.members, m.2.Neat spell m.1 := by
  constructor
  · rintro ⟨distinct, bare, spelled, headed, each⟩
    exact ⟨distinct, bare, fun m hm => ⟨spelled m hm, headed m hm, each m hm⟩⟩
  · rintro ⟨distinct, bare, items⟩
    exact ⟨distinct, bare, fun m hm => (items m hm).spelled, fun m hm => (items m hm).headed,
      fun m hm => (items m hm).each⟩

theorem neat_value (spell : String → KeyPart) (key : KeyPart) (e : Entry) :
    (Item.value e).Neat spell key :=
  ⟨fun table => absurd rfl (table e), List.forall_mem_nil _, List.forall_mem_nil _⟩

theorem Item.Neat.not_dotted (h : item.Neat spell key) :
    ∀ inner ∈ item.tablesIn, inner.origin ≠ .dotted := by
  intro inner listed dotted
  have headed := h.headed inner listed
  rw [dotted] at headed
  exact headed

/-- What has headers of its own is no entry. -/
theorem Item.Neat.entries (h : item.Neat spell key) (table : ∀ e, item ≠ .value e)
    (path : List KeyPart) : item.entries path key = [] := by
  cases item with
  | value e => exact absurd rfl (table e)
  | table t =>
    have headed := h.not_dotted t List.mem_cons_self
    obtain ⟨_ | _ | _ | _, _⟩ := t
    · rfl
    · rfl
    · rfl
    · exact absurd rfl headed
  | tables all => rfl

theorem entries_split {members front back : List (KeyPart × Item)} (path : List KeyPart)
    (h : item.Neat spell key) (table : ∀ e, item ≠ .value e)
    (split : members = front ++ (key, item) :: back) :
    memberEntries path members = memberEntries path front ++ memberEntries path back := by
  rw [split, memberEntries_append, memberEntries, h.entries table, List.nil_append]

/-- A name that headers made is one member, under the key that headers spell. -/
theorem Table.Neat.exists_split {name : String} (h : t.Neat spell) (found : t.find? name = some item)
    (table : ∀ e, item ≠ .value e) : ∃ front back, t.members = front ++ (spell name, item) :: back ∧
      (spell name).name = name ∧ item.Neat spell (spell name) ∧ ∀ m ∈ front ++ back, m.1.name ≠ name := by
  obtain ⟨distinct, -, items⟩ := neat_iff.mp h
  obtain ⟨front, key, back, members, named, others⟩ := Toml.exists_split distinct found
  have own : item.Neat spell key := items _ (members ▸ List.mem_append_right _ List.mem_cons_self)
  obtain rfl : key = spell name := named ▸ own.spelled table
  exact ⟨front, back, members, named, own, others⟩

/-- What the name of a header stands for in such a table. -/
theorem Table.Neat.of_found (h : t.Neat spell) (found : t.find? key.name = some item)
    (own : key = spell key.name) (table : ∀ e, item ≠ .value e) : item.Neat spell key := by
  obtain ⟨-, -, -, -, neat, -⟩ := h.exists_split found table
  exact own ▸ neat

/-! ## What a header adds -/

/-- **What a header adds** to a table that it leads through: sections, and nothing else. -/
structure Gains (spell : String → KeyPart) (path : List KeyPart) (more : List (Nat × List Char))
    (t t' : Table) : Prop where
  origin : t'.origin = t.origin
  entries : t'.entries = t.entries
  neat : t'.Neat spell
  views : (views path t'.members).Perm (views path t.members ++ more)

variable {more : List (Nat × List Char)}

theorem Gains.trans {t'' : Table} {more' : List (Nat × List Char)} (h : Gains spell path more t t')
    (h' : Gains spell path more' t' t'') : Gains spell path (more ++ more') t t'' :=
  ⟨h'.origin.trans h.origin, h'.entries.trans h.entries, h'.neat,
    h'.views.trans (List.append_assoc .. ▸ h.views.append_right more')⟩

/-- The sections below a name of a table. -/
def viewsAt (spell : String → KeyPart) (path : List KeyPart) (t : Table) (name : String) :
    List (Nat × List Char) :=
  (t.find? name).elim [] fun item => views path [(spell name, item)]

theorem viewsAt_eq (found : t.find? key.name = some item) (own : key = spell key.name)
    (path : List KeyPart) : viewsAt spell path t key.name = views path [(key, item)] := by
  rw [viewsAt, found, Option.elim_some, ← own]

/-- **A name that stands for something else** changes the sections below it. -/
theorem Gains.put (h : t.Neat spell) (odd : ∀ e, t.find? key.name ≠ some (.value e))
    (own : item.Neat spell key) (table : ∀ e, item ≠ .value e)
    (gained : (Toml.views path [(key, item)]).Perm (viewsAt spell path t key.name ++ more)) :
    Gains spell path more t (t.put key item) := by
  obtain ⟨distinct, bare, items⟩ := neat_iff.mp h
  have put := distinct.put key item
  rcases found : t.find? key.name with _ | old
  · have new := Table.put_new found item
    have entries : (t.put key item).entries = t.entries := by
      rw [Table.entries, new, Table.members, entries_split [] own table rfl, memberEntries,
        List.append_nil, Table.entries]
    refine ⟨rfl, entries, neat_iff.mpr ⟨put, fun implied => entries ▸ bare implied, ?_⟩, ?_⟩
    · rw [new]
      exact List.forall_mem_append.mpr ⟨items, List.forall_mem_singleton.mpr own⟩
    · rw [viewsAt, found] at gained
      rw [new, Table.members, views_append]
      exact gained.append_left _
  · have old_table : ∀ e, old ≠ .value e := fun e same => odd e (same ▸ found)
    obtain ⟨front, back, members, named, before, others⟩ := h.exists_split found old_table
    have spelled := own.spelled table
    have others' : ∀ m ∈ front ++ back, m.1.name ≠ (spell key.name).name := named.symm ▸ others
    have members' := @members_put t (spell key.name) key old item front back members named.symm others'
    rw [← spelled] at members members' before
    have entries : (t.put key item).entries = t.entries := by
      rw [Table.entries, Table.entries, entries_split [] own table members',
        entries_split [] before old_table members]
    have items' : ∀ m ∈ front ++ back, m.2.Neat spell m.1 := fun m hm => items m <| by
      rw [members]
      exact (List.mem_append.mp hm).elim (List.mem_append_left _)
        fun hm => List.mem_append_right _ (List.mem_cons_of_mem _ hm)
    refine ⟨rfl, entries, neat_iff.mpr ⟨put, fun implied => entries ▸ bare implied, ?_⟩, ?_⟩
    · rw [members']
      exact List.forall_mem_append.mpr ⟨fun m hm => items' m (List.mem_append_left _ hm),
        List.forall_mem_cons.mpr ⟨own, fun m hm => items' m (List.mem_append_right _ hm)⟩⟩
    · rw [viewsAt_eq found spelled] at gained
      rw [members, members', views_split, views_split]
      refine ((gained.append_right _).append_left _).trans ?_
      rw [List.append_assoc, List.append_assoc, List.append_assoc]
      exact (List.perm_append_comm.append_left _).append_left _

theorem neat_empty (spell : String → KeyPart) (origin : Origin) : (Table.mk origin []).Neat spell :=
  neat_iff.mpr ⟨List.nodup_nil, fun _ => rfl, List.forall_mem_nil _⟩

/-- **What is added at the end of a path** is added along the path. -/
theorem Gains.alter {act : Table → Option Table} {above : List KeyPart}
    (spelled : ∀ p ∈ path, p = spell p.name)
    (acts : ∀ {t t'}, t.Neat spell → act t = some t' → Gains spell (above ++ path) more t t')
    (h : t.Neat spell) (altered : t.alter .implied act path = some t') : Gains spell above more t t' := by
  induction path generalizing above t t' with
  | nil => exact List.append_nil above ▸ acts h altered
  | cons key path ih =>
    obtain ⟨own, spelled⟩ := List.forall_mem_cons.mp spelled
    have onward : ∀ {t t' : Table}, t.Neat spell → t.alter .implied act path = some t' →
        Gains spell (above ++ [key]) more t t' := by
      refine fun h altered => ih spelled (fun h changed => ?_) h altered
      rw [List.append_assoc]
      exact acts h changed
    rw [Table.alter] at altered
    split at altered
    · -- the name is new: a table without a header is made
      rename_i new
      obtain ⟨inner, step, altered⟩ := Option.bind_eq_some_iff.mp altered
      cases altered
      have gains := onward (neat_empty spell .implied) step
      have implied : inner.origin = .implied := gains.origin
      have item : (Item.table inner).Neat spell key := ⟨fun _ => own,
        List.forall_mem_singleton.mpr (implied ▸ trivial), List.forall_mem_singleton.mpr gains.neat⟩
      refine .put h (ne_value_of_new new) item (Item.table_ne_value inner) ?_
      rw [viewsAt, new, views_item _ _ item.not_dotted, Item.tablesIn, List.flatMap_singleton,
        ownView_implied implied]
      exact gains.views
    · cases altered
    · rename_i old found
      rw [if_neg (by simp)] at altered
      obtain ⟨inner, step, altered⟩ := Option.bind_eq_some_iff.mp altered
      cases altered
      have before := h.of_found found own (Item.table_ne_value old)
      have gains := onward (before.each old List.mem_cons_self) step
      have headed := before.headed old List.mem_cons_self
      have item : (Item.table inner).Neat spell key := ⟨fun _ => own,
        List.forall_mem_singleton.mpr (gains.origin ▸ headed), List.forall_mem_singleton.mpr gains.neat⟩
      refine .put h (ne_value_of_found found (Item.table_ne_value old)) item (Item.table_ne_value inner) ?_
      rw [viewsAt_eq found own, views_item _ _ item.not_dotted, views_item _ _ before.not_dotted,
        Item.tablesIn, Item.tablesIn, List.flatMap_singleton, List.flatMap_singleton,
        ownView_congr gains.origin gains.entries, List.append_assoc]
      exact gains.views.append_left _
    · rename_i all found
      split at altered
      · cases altered
      · rename_i old last
        obtain ⟨inner, step, altered⟩ := Option.bind_eq_some_iff.mp altered
        cases altered
        obtain ⟨front, rfl⟩ := List.getLast?_eq_some_iff.mp last
        have before := h.of_found found own (Item.tables_ne_value _)
        obtain ⟨headed, headed'⟩ := List.forall_mem_append.mp before.headed
        obtain ⟨each, each'⟩ := List.forall_mem_append.mp before.each
        have gains := onward (each' old List.mem_cons_self) step
        have item : (Item.tables (front ++ [inner])).Neat spell key := ⟨fun _ => own,
          List.forall_mem_append.mpr ⟨headed, List.forall_mem_singleton.mpr
            (gains.origin ▸ headed' old List.mem_cons_self)⟩,
          List.forall_mem_append.mpr ⟨each, List.forall_mem_singleton.mpr gains.neat⟩⟩
        rw [List.dropLast_concat]
        refine .put h (ne_value_of_found found (Item.tables_ne_value _)) item (Item.tables_ne_value _) ?_
        rw [viewsAt_eq found own, views_item _ _ item.not_dotted, views_item _ _ before.not_dotted,
          Item.tablesIn, Item.tablesIn, List.flatMap_append, List.flatMap_append, List.flatMap_singleton,
          List.flatMap_singleton, Item.isArray, Item.isArray, ownView_congr gains.origin gains.entries,
          List.append_assoc, List.append_assoc]
        exact (gains.views.append_left _).append_left _

/-! ## Headers at the ends of their paths -/

/-- What entries without points in their keys come to in a table. -/
theorem eq_of_assignAll_keyed {body : List (KeyPart × Entry)} (h : assignAll (keyed body) t = some t') :
    t' = .mk t.origin (t.members ++ valueMembers body) := by
  induction body generalizing t with
  | nil =>
    cases h
    rw [valueMembers, List.map_nil, List.append_nil]
    cases t'
    rfl
  | cons m body ih =>
    rw [keyed, List.map_cons, ← keyed, assignAll_cons, assign_single] at h
    obtain ⟨t'', step, h⟩ := Option.bind_eq_some_iff.mp h
    split at step
    · rename_i new
      cases step
      rw [ih h, Table.put_new (Option.isNone_iff_eq_none.mp new), Table.origin, Table.members,
        List.append_assoc]
      rfl
    · cases step

/-- A name that is taken out takes the sections below it along. -/
theorem Table.Neat.erase {name : String} (h : t.Neat spell)
    (odd : ∀ e, t.find? name ≠ some (.value e)) : (t.erase name).Neat spell ∧
      (t.erase name).entries = t.entries ∧ (t.erase name).find? name = none ∧
      ∀ path, (views path t.members).Perm
        (views path (t.erase name).members ++ viewsAt spell path t name) := by
  rcases found : t.find? name with _ | item
  · rw [Table.erase_new found]
    refine ⟨h, rfl, found, fun path => ?_⟩
    rw [viewsAt, found, Option.elim_none, List.append_nil]
  · have table : ∀ e, item ≠ .value e := fun e same => odd e (same ▸ found)
    obtain ⟨front, back, members, named, own, others⟩ := h.exists_split found table
    obtain ⟨distinct, bare, items⟩ := neat_iff.mp h
    have erased : (t.erase name).members = front ++ back := by
      have erased := members_erase members (named.symm ▸ others)
      rwa [named] at erased
    have entries : (t.erase name).entries = t.entries := by
      rw [Table.entries, Table.entries, erased, entries_split [] own table members, memberEntries_append]
    refine ⟨neat_iff.mpr ⟨distinct.erase name, fun implied => entries ▸ bare implied, fun m hm => ?_⟩,
      entries, ?_, fun path => ?_⟩
    · exact items m (List.mem_filter.mp hm).1
    · rw [Table.find?_eq_none_iff, erased]
      exact others
    · rw [viewsAt, found, Option.elim_some, members, erased, views_split, views_append, List.append_assoc]
      exact List.perm_append_comm.append_left _

section
variable {around : Margin} {place : Nat} {body : List (Key × Entry)}
  {members : List (KeyPart × Item)}

theorem exists_keyed (single : ∀ m ∈ body, m.1.path = []) : ∃ body', body = keyed body' := by
  refine ⟨body.map fun m => (m.1.last, m.2), ?_⟩
  rw [keyed, List.map_map]
  refine ((List.map_congr_left fun m hm => ?_).trans (List.map_id _)).symm
  have path := single m hm
  obtain ⟨⟨_, last⟩, e⟩ := m
  obtain rfl : _ = [] := path
  rfl

/-- **The table that a header opens** has the section of the header, and those that were below it. -/
theorem exists_opened {inner : Table} (single : ∀ m ∈ body, m.1.path = [])
    (built : assignAll body (.mk (.header place around) members) = some inner)
    (start : (Table.mk .implied members).Neat spell) (path : List KeyPart) (last : KeyPart)
    (isArrayItem : Bool) :
    inner.origin = .header place around ∧ inner.Neat spell ∧
      inner.ownView path last isArrayItem =
        [(place, (Block.mk ⟨path, last⟩ isArrayItem around body).lines)] ∧
      ∀ path, views path inner.members = views path members := by
  obtain ⟨body, rfl⟩ := exists_keyed single
  obtain ⟨distinct, bare, items⟩ := neat_iff.mp start
  have distinct' : (Table.mk (.header place around) members).Distinct := distinct
  have built' := distinct'.assignAll built
  obtain rfl := eq_of_assignAll_keyed built
  have none : memberEntries [] members = [] := bare rfl
  refine ⟨rfl, neat_iff.mpr ⟨built', nofun, ?_⟩, ?_, fun path => views_values path _ _⟩
  · refine List.forall_mem_append.mpr ⟨items, List.forall_mem_map.mpr fun m _ => neat_value ..⟩
  · refine @ownView_block _ ⟨⟨path, last⟩, isArrayItem, around, keyed body⟩ _ rfl ?_
    rw [Table.entries, Table.members, Table.members, memberEntries_append, none, List.nil_append,
      memberEntries_values, keyed]

/-- A header adds its section. -/
theorem Gains.define {last : KeyPart} (h : t.Neat spell) (own : last = spell last.name)
    (single : ∀ m ∈ body, m.1.path = [])
    (made : t.define ⟨[], last⟩ (.header place around) (assignAll body) = some t') :
    Gains spell path [(place, (Block.mk ⟨path, last⟩ false around body).lines)] t t' := by
  obtain ⟨odd, start, inner, began, built, rfl⟩ := define_single made
  have began : (Table.mk .implied start).Neat spell ∧
      ∀ path, viewsAt spell path t last.name = Toml.views (path ++ [last]) start := by
    rcases began with ⟨none, rfl⟩ | ⟨old, found, implied, rfl⟩
    · exact ⟨neat_empty spell .implied, fun path => by rw [viewsAt, none]; rfl⟩
    · have before := h.of_found found own (Item.table_ne_value old)
      have neat := before.each old List.mem_cons_self
      refine ⟨?_, fun path => ?_⟩
      · obtain ⟨origin, members⟩ := old
        obtain rfl : origin = .implied := implied
        exact neat
      · rw [viewsAt_eq found own, views_item _ _ before.not_dotted, Item.tablesIn, List.flatMap_singleton,
          ownView_implied implied, List.nil_append]
  obtain ⟨start_neat, below⟩ := began
  obtain ⟨origin, neat, own_view, views⟩ := exists_opened single built start_neat path last false
  obtain ⟨erased, entries, new, parted⟩ := h.erase odd
  have item : (Item.table inner).Neat spell last := ⟨fun _ => own,
    List.forall_mem_singleton.mpr (origin ▸ trivial), List.forall_mem_singleton.mpr neat⟩
  have gains := @Gains.put (t.erase last.name) last (.table inner) path spell
    (Toml.views path [(last, .table inner)]) erased (ne_value_of_new new) item (Item.table_ne_value inner) (by
      rw [viewsAt, new]
      exact .refl _)
  refine ⟨gains.origin, gains.entries.trans entries, gains.neat, gains.views.trans ?_⟩
  rw [views_item _ _ item.not_dotted, Item.tablesIn, List.flatMap_singleton, Item.isArray, own_view, views,
    ← below]
  refine (List.perm_append_comm.append_left _).trans ?_
  rw [← List.append_assoc]
  exact (parted path).symm.append_right _

/-- The header of an array item adds its section. -/
theorem Gains.append {last : KeyPart} (h : t.Neat spell) (own : last = spell last.name)
    (single : ∀ m ∈ body, m.1.path = [])
    (made : t.append ⟨[], last⟩ (.header place around) (assignAll body) = some t') :
    Gains spell path [(place, (Block.mk ⟨path, last⟩ true around body).lines)] t t' := by
  obtain ⟨odd, before, inner, began, built, rfl⟩ := append_single made
  obtain ⟨origin, neat, own_view, views⟩ :=
    exists_opened single built (neat_empty spell .implied) path last true
  obtain ⟨items, below⟩ : (Item.tables before).Neat spell last ∧
      viewsAt spell path t last.name = Toml.views path [(last, .tables before)] := by
    rcases began with ⟨none, rfl⟩ | found
    · exact ⟨⟨fun _ => own, List.forall_mem_nil _, List.forall_mem_nil _⟩, by rw [viewsAt, none]; rfl⟩
    · exact ⟨h.of_found found own (Item.tables_ne_value before), viewsAt_eq found own path⟩
  have item : (Item.tables (before ++ [inner])).Neat spell last := ⟨fun _ => own,
    List.forall_mem_append.mpr ⟨items.headed, List.forall_mem_singleton.mpr (origin ▸ trivial)⟩,
    List.forall_mem_append.mpr ⟨items.each, List.forall_mem_singleton.mpr neat⟩⟩
  refine .put h odd item (Item.tables_ne_value _) ?_
  rw [below, views_item _ _ item.not_dotted, views_item _ _ items.not_dotted, Item.tablesIn, Item.tablesIn,
    List.flatMap_append, List.flatMap_singleton, Item.isArray, Item.isArray, own_view, views]
  exact .refl _

end

/-- A block whose header is spelled as others spell it, and whose entries have no points in their keys. -/
structure Block.Plain (spell : String → KeyPart) (b : Block) : Prop where
  spelled : ∀ p ∈ b.key.parts, p = spell p.name
  single : ∀ m ∈ b.body, m.1.path = []

/-- **A block adds its section**, wherever its header leads. -/
theorem Gains.opens {b : Block} {place : Nat} (plain : b.Plain spell) (h : t.Neat spell)
    (made : b.opens (.header place b.around) t = some t') : Gains spell [] [(place, b.lines)] t t' := by
  obtain ⟨⟨path, last⟩, isArrayItem, around, body⟩ := b
  have spelled : ∀ p ∈ path, p = spell p.name := fun p hp =>
    plain.spelled p (List.mem_append_left _ hp)
  have own : last = spell last.name := plain.spelled last (List.mem_append_right _ List.mem_cons_self)
  cases isArrayItem with
  | false => exact .alter spelled (fun h changed => .define h own plain.single changed) h made
  | true => exact .alter spelled (fun h changed => .append h own plain.single changed) h made

/-- The texts of blocks with their places. -/
def numbered (place : Nat) (blocks : List Block) : List (Nat × List Char) :=
  (blocks.zipIdx place).map fun b => (b.2, b.1.lines)

/-- **Blocks add their sections** one after another. -/
theorem Gains.ofBlocks? {blocks : List Block} {place : Nat} (plain : ∀ b ∈ blocks, b.Plain spell)
    (h : t.Neat spell) (made : ofBlocks? place blocks t = some t') :
    Gains spell [] (numbered (place + 1) blocks) t t' := by
  induction blocks generalizing place t with
  | nil =>
    cases made
    exact ⟨rfl, rfl, h, by rw [numbered, List.zipIdx_nil, List.map_nil, List.append_nil]⟩
  | cons b blocks ih =>
    obtain ⟨first, others⟩ := List.forall_mem_cons.mp plain
    rw [Toml.ofBlocks?] at made
    obtain ⟨t'', step, made⟩ := Option.bind_eq_some_iff.mp made
    have gains := Gains.opens first h step
    exact gains.trans (ih others gains.neat made)

end

/-! ## Sections in the order of their places -/

theorem map_snd_placed (last : Nat) (sections : List Section) :
    (Section.placed last sections).map Prod.snd = sections := by
  induction sections generalizing last with
  | nil => rfl
  | cons s sections ih => rw [Section.placed, List.map_cons, ih]

theorem fst_of_mem_placed {last place : Nat} {sections : List Section} {s : Nat × Section}
    (listed : s ∈ Section.placed last sections) (own : s.2.place? = some place) : s.1 = place := by
  induction sections generalizing last with
  | nil => cases listed
  | cons first sections ih =>
    rw [Section.placed] at listed
    rcases List.mem_cons.mp listed with rfl | listed
    · rw [own, Option.getD_some]
    · exact ih listed

/-- **Sections that have headers, in the order of their places**, are the text, if nothing is written for
the others. -/
theorem sectionLines_eq {sections : List Section} {ordered : List (Nat × List Char)}
    (bare : ∀ s ∈ sections, s.place? = none → s.render = "")
    (shown : (sections.filterMap Section.view?).Perm ordered)
    (strict : ordered.Pairwise fun a b => a.1 < b.1) :
    sectionLines sections = ordered.flatMap fun v => v.2 := by
  have trans : ∀ a b c : Nat × Section, decide (a.1 ≤ b.1) → decide (b.1 ≤ c.1) → decide (a.1 ≤ c.1) :=
    fun a b c => by simpa using Nat.le_trans
  have total : ∀ a b : Nat × Section, decide (a.1 ≤ b.1) || decide (b.1 ≤ a.1) :=
    fun a b => by simpa using Nat.le_total a.1 b.1
  have sorted := List.pairwise_mergeSort trans total (Section.placed 0 sections)
  have perm := List.mergeSort_perm (Section.placed 0 sections) fun a b => a.1 ≤ b.1
  rw [sectionLines]
  generalize (Section.placed 0 sections).mergeSort (fun a b => a.1 ≤ b.1) = inOrder at sorted perm
  have known : ∀ s ∈ inOrder, ∀ v, s.2.view? = some v → v.1 = s.1 := by
    intro s listed v view
    obtain ⟨place, own, rfl⟩ := Option.map_eq_some_iff.mp view
    exact (fst_of_mem_placed (perm.mem_iff.mp listed) own).symm
  have bare : ∀ s ∈ inOrder, s.2.place? = none → s.2.render = "" := by
    intro s listed
    refine bare s.2 ?_
    rw [← map_snd_placed 0 sections]
    exact List.mem_map_of_mem (perm.mem_iff.mp listed)
  have views : inOrder.filterMap (fun s => s.2.view?) = ordered := by
    have perm : (inOrder.filterMap fun s => s.2.view?).Perm ordered := by
      have all := perm.filterMap fun s => s.2.view?
      have same : (Section.placed 0 sections).filterMap (fun s => s.2.view?) =
          sections.filterMap Section.view? := by
        rw [← congrArg (List.filterMap Section.view?) (map_snd_placed 0 sections), List.filterMap_map]
        rfl
      exact (same ▸ all).trans shown
    have distinct : (ordered.map Prod.fst).Nodup := List.pairwise_map.mpr (strict.imp Nat.ne_of_lt)
    have inside : ∀ a b : Nat × List Char, a ∈ inOrder.filterMap (fun s => s.2.view?) → b ∈ ordered →
        a.1 ≤ b.1 → b.1 ≤ a.1 → a = b := fun a b ha hb le ge =>
      List.inj_on_of_nodup_map distinct (perm.mem_iff.mp ha) hb (Nat.le_antisymm le ge)
    refine List.Perm.eq_of_pairwise inside (List.pairwise_filterMap.mpr ?_) (strict.imp Nat.le_of_lt) perm
    refine sorted.imp_of_mem fun ha hb le v hv v' hv' => ?_
    rw [known _ ha v hv, known _ hb v' hv']
    exact of_decide_eq_true le
  rw [← views, List.filterMap_eq_flatMap_toList, List.flatMap_assoc]
  refine List.flatMap_congr fun s listed => ?_
  rcases own : s.2.place? with _ | place
  · rw [bare s listed own, Section.view?, own]
    rfl
  · rw [Section.view?, own, Option.map_some, Option.toList_some, List.flatMap_singleton]

/-- Nothing is written for a table without a header. -/
theorem Table.Neat.render_eq_empty {spell : String → KeyPart} (h : t.Neat spell) (path : List KeyPart) :
    ∀ s ∈ memberSections path t.members, s.place? = none → s.render = "" := by
  induction h generalizing path with
  | @mk t _ _ _ headed each ih =>
    intro s listed unplaced
    obtain ⟨m, hm, listed⟩ := mem_memberSections.mp listed
    rw [sections_item] at listed
    obtain ⟨inner, among, listed⟩ := List.mem_flatMap.mp listed
    have by_header := headed m hm inner among
    rw [sections_table _ _ _ (fun dotted => by rw [dotted] at by_header; exact by_header)] at listed
    rcases List.mem_cons.mp listed with rfl | listed
    · have implied : inner.origin = .implied := by
        rw [Section.place?] at unplaced
        dsimp only at unplaced
        rcases origin : inner.origin with _ | ⟨place, around⟩ | _ | _ <;> rw [origin] at unplaced by_header
        · exact by_header.elim
        · cases unplaced
        · exact by_header.elim
      have none : inner.entries = [] := (neat_iff.mp (each m hm inner among)).2.1 implied
      rw [Section.render, Section.header, implied, none]
      rfl
    · exact ih m hm inner among _ s listed unplaced

theorem pairwise_numbered (place : Nat) (blocks : List Block) :
    (numbered place blocks).Pairwise fun a b => a.1 < b.1 := by
  have places : (numbered place blocks).map Prod.fst = List.range' place blocks.length := by
    rw [numbered, List.map_map, ← List.zipIdx_map_snd]
    rfl
  exact List.pairwise_map.mp (places ▸ List.pairwise_lt_range')

theorem flatMap_numbered (place : Nat) (blocks : List Block) :
    (numbered place blocks).flatMap (fun v => v.2) = blocks.flatMap Block.lines := by
  have blocks_eq : (blocks.zipIdx place).map Prod.fst = blocks := List.zipIdx_map_fst ..
  rw [numbered, List.flatMap_map, ← congrArg (List.flatMap Block.lines) blocks_eq, List.flatMap_map]

/-- **What plain blocks build is written as their lines.** -/
theorem toList_render_of_plain {spell : String → KeyPart} {entries : List (Key × Entry)}
    {blocks : List Block} {top root : Table} (single : ∀ m ∈ entries, m.1.path = [])
    (plain : ∀ b ∈ blocks, b.Plain spell) (first : assignAll entries (.mk .whole []) = some top)
    (built : ofBlocks? 0 blocks top = some root) :
    root.render.toList = entryLines entries ++ blocks.flatMap Block.lines := by
  have empty : (Table.mk .whole []).Distinct := List.nodup_nil
  have distinct := empty.assignAll first
  obtain ⟨body, rfl⟩ := exists_keyed single
  obtain rfl := eq_of_assignAll_keyed first
  have neat : (Table.mk .whole ([] ++ valueMembers body)).Neat spell :=
    neat_iff.mpr ⟨distinct, nofun, List.forall_mem_map.mpr fun m _ => neat_value ..⟩
  have gains := Gains.ofBlocks? plain neat built
  have entries : root.entries = keyed body := gains.entries.trans (entries_values .whole body)
  have shown : (views [] root.members).Perm (numbered 1 blocks) := by
    have views := gains.views
    rwa [Table.members, views_values] at views
  rw [toList_render gains.origin, entries,
    sectionLines_eq (gains.neat.render_eq_empty []) shown (pairwise_numbered 1 blocks), flatMap_numbered]

/-! ## Uniform texts -/

/-- The text of a statement as it is written back. -/
def Statement.line : Statement → List Char
  | .assign key e => (e.render key).toList ++ ['\n']
  | .header key around => (Section.headerLine key false around).toList
  | .arrayHeader key around => (Section.headerLine key true around).toList

/-- Whether a statement is no assignment to a key with points. -/
def Statement.isSingle : Statement → Bool
  | .assign key _ => key.path.isEmpty
  | .header .. | .arrayHeader .. => true

/-- The parts of the key of a header. -/
def Statement.headerParts : Statement → List KeyPart
  | .assign .. => []
  | .header key _ | .arrayHeader key _ => key.parts

/-- Whether a text is spelled in one way: it starts with no byte order mark, every statement stands in it
as it is written back, with a newline at its end, only headers have keys with points, and a name that comes
up in several headers is spelled alike in all of them. -/
def isUniform (text : String) : Bool :=
  match statements? (text.toList.length + 1) text.toList with
  | none => false
  | some (statements, tail) =>
    let parts := statements.flatMap Statement.headerParts
    text.toList = statements.flatMap Statement.line ++ tail.toList && statements.all Statement.isSingle &&
      parts.all fun p => parts.all fun q => p.name ≠ q.name || p = q

section
variable {text : String} {d : Document}

theorem lines_blocks (blocks : List Block) :
    (blocks.flatMap Block.statements).flatMap Statement.line = blocks.flatMap Block.lines := by
  rw [List.flatMap_assoc]
  refine List.flatMap_congr fun b _ => ?_
  have body : (assignments b.body).flatMap Statement.line = entryLines b.body := List.flatMap_map ..
  rw [Block.statements_eq, List.flatMap_cons, body, Block.lines]
  obtain ⟨key, _ | _, around, body⟩ := b <;> rfl

/-- Where parts of keys spell a name alike, there is a way in which they spell it. -/
theorem exists_spelling {parts : List KeyPart}
    (alike : ∀ p ∈ parts, ∀ q ∈ parts, p.name = q.name → p = q) :
    ∃ spell : String → KeyPart, ∀ p ∈ parts, p = spell p.name := by
  refine ⟨fun name => (parts.find? fun p => p.name = name).getD default, fun p listed => ?_⟩
  dsimp only
  rcases found : parts.find? fun q => q.name = p.name with _ | q
  · have other : ¬ p.name = p.name := by simpa using List.find?_eq_none.mp found p listed
    exact absurd rfl other
  · have named : q.name = p.name := by simpa using List.find?_some found
    rw [found, Option.getD_some]
    exact alike p listed q (List.mem_of_find?_eq_some found) named.symm

/-- **A text that is spelled in one way is written back as it stands.** -/
theorem render_of_isUniform (uniform : isUniform text) (h : Document.parse? text = some d) :
    d.render = text := by
  unfold isUniform at uniform
  split at uniform
  · cases uniform
  rename_i statements tail read
  simp only [Bool.and_eq_true, decide_eq_true_eq, List.all_eq_true, Bool.or_eq_true, ne_eq] at uniform
  obtain ⟨⟨whole, single⟩, alike⟩ := uniform
  have unmarked : ∀ rest, text.toList ≠ '\ufeff' :: rest := by
    intro rest marked
    rw [marked, statements?_mark] at read
    cases read
  rw [parse?_unmarked unmarked, read, Option.bind_some] at h
  obtain ⟨root, built, rfl⟩ := Option.map_eq_some_iff.mp h
  obtain ⟨entries, blocks, rfl⟩ := exists_blocks statements
  rw [ofStatements?_append] at built
  obtain ⟨top, first, built⟩ := Option.bind_eq_some_iff.mp built
  obtain ⟨spell, spelled⟩ := exists_spelling fun p hp q hq same =>
    (alike p hp q hq).resolve_left fun other => other same
  have path : ∀ {m : Key × Entry}, (Statement.assign m.1 m.2).isSingle → m.1.path = [] :=
    List.isEmpty_iff.mp
  have single_entries : ∀ m ∈ entries, m.1.path = [] := fun m hm =>
    path (single _ (List.mem_append_left _ (List.mem_map_of_mem hm)))
  have plain : ∀ b ∈ blocks, b.Plain spell := by
    intro b hb
    have inside : ∀ st ∈ b.statements, st ∈ assignments entries ++ blocks.flatMap Block.statements :=
      fun st hst => List.mem_append_right _ (List.mem_flatMap.mpr ⟨b, hb, hst⟩)
    refine ⟨fun p hp => spelled p (List.mem_flatMap.mpr ⟨_, inside _ List.mem_cons_self, ?_⟩),
      fun m hm => path (single _ (inside _ (List.mem_cons_of_mem _ (List.mem_map_of_mem hm))))⟩
    obtain ⟨key, _ | _, around, body⟩ := b <;> exact hp
  have assigned : (assignments entries).flatMap Statement.line = entryLines entries := List.flatMap_map ..
  rw [← String.toList_inj, Document.render, String.toList_append,
    toList_render_of_plain single_entries plain first built, whole, List.flatMap_append, lines_blocks,
    ← assigned]
  rfl

end
end Patchwork.Toml
