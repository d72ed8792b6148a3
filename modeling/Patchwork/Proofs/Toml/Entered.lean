import Patchwork.Proofs.Toml.Table

/-! Tables by their entries.  What assignments add to a table is entries, some of them in tables that
dotted keys made (`EntriesOnly`).  Written down one after another with the members of each such table
together, these entries build the same members again (`assignAll_memberEntries`). -/

namespace Patchwork.Toml

/-! ## Names of a table -/

namespace Table
variable {t : Table} {key : KeyPart} {item other : Item} {name : String}

theorem find?_eq_none_iff : t.find? name = none ↔ ∀ m ∈ t.members, m.1.name ≠ name := by
  rw [find?, Option.map_eq_none_iff, List.find?_eq_none]
  simp

theorem put_new (new : t.find? key.name = none) (item : Item) :
    t.put key item = .mk t.origin (t.members ++ [(key, item)]) := by
  have none := find?_eq_none_iff.mp new
  rw [put, if_neg]
  simpa using none

@[simp]
theorem origin_put : (t.put key item).origin = t.origin := rfl

theorem put_known (known : t.find? key.name ≠ none) (item : Item) :
    t.put key item =
      .mk t.origin (t.members.map fun m => if m.1.name = key.name then (m.1, item) else m) := by
  rw [put, if_pos]
  rw [Ne, find?_eq_none_iff] at known
  simpa using known

/-- What names stand for when a name was given something to stand for. -/
theorem find?_put (t : Table) (key : KeyPart) (item : Item) (name : String) :
    (t.put key item).find? name = if name = key.name then some item else t.find? name := by
  by_cases known : t.find? key.name = none
  · have new := find?_eq_none_iff.mp known
    rw [put_new known, find?, members, List.find?_append]
    split
    · rename_i same
      rw [same, List.find?_eq_none.mpr (by simpa using new)]
      simp
    · rename_i other
      rw [find?]
      simp [Ne.symm other]
  · have keys : ((fun m : KeyPart × Item => m.1.name == name) ∘ fun m : KeyPart × Item =>
        if m.1.name = key.name then (m.1, item) else m) = fun m => m.1.name == name := by
      funext m
      dsimp only [Function.comp]
      split <;> rfl
    rw [put_known known, find?, members, List.find?_map, keys, Option.map_map]
    split
    · rename_i same
      rw [same]
      obtain ⟨old, found⟩ := Option.ne_none_iff_exists'.mp known
      obtain ⟨m, listed, -⟩ := Option.map_eq_some_iff.mp found
      have named : m.1.name = key.name := by simpa using List.find?_some listed
      rw [listed, Option.map_some, Function.comp, if_pos named]
    · rename_i other
      rw [find?]
      rcases listed : t.members.find? fun m => m.1.name == name with _ | m
      · rw [listed]
        rfl
      · have named : m.1.name = name := by simpa using List.find?_some listed
        rw [listed, Option.map_some, Option.map_some, Function.comp,
          if_neg fun same => other (named.symm.trans same)]

theorem find?_put_self (t : Table) (key : KeyPart) (item : Item) :
    (t.put key item).find? key.name = some item := by
  rw [find?_put, if_pos rfl]

theorem put_put (t : Table) (key : KeyPart) (item other : Item) :
    (t.put key item).put key other = t.put key other := by
  have known : (t.put key item).find? key.name ≠ none := by
    rw [find?_put_self]
    exact Option.some_ne_none _
  rw [put_known known]
  by_cases new : t.find? key.name = none
  · have names := find?_eq_none_iff.mp new
    rw [put_new new, put_new new, origin, members, List.map_append]
    congr 2
    · refine (List.map_congr_left fun m hm => ?_).trans (List.map_id _)
      exact if_neg (names m hm)
    · simp
  · rw [put_known new, put_known new, origin, members, List.map_map]
    congr 1
    refine List.map_congr_left fun m _ => ?_
    dsimp only [Function.comp]
    split <;> rfl

end Table

/-! ## Assignments -/

section
variable {t inner : Table} {k last : KeyPart} {path : List KeyPart}

theorem origin_alter {made : Origin} {act : Table → Option Table}
    (kept : ∀ t t', act t = some t' → t'.origin = t.origin) {t' : Table}
    (h : t.alter made act path = some t') : t'.origin = t.origin := by
  cases path with
  | nil => exact kept t t' h
  | cons key path =>
    rw [Table.alter] at h
    split at h
    · obtain ⟨inner, -, h⟩ := Option.bind_eq_some_iff.mp h
      cases h
      rfl
    · cases h
    · split at h
      · cases h
      · obtain ⟨inner, -, h⟩ := Option.bind_eq_some_iff.mp h
        cases h
        rfl
    · split at h
      · cases h
      · obtain ⟨inner, -, h⟩ := Option.bind_eq_some_iff.mp h
        cases h
        rfl

theorem origin_assign {key : Key} {e : Entry} {t' : Table} (h : t.assign key e = some t') :
    t'.origin = t.origin := by
  refine origin_alter (fun inner inner' changed => ?_) h
  split at changed
  · cases changed
    rfl
  · cases changed

theorem assign_single (e : Entry) :
    t.assign ⟨[], last⟩ e =
      if (t.find? last.name).isNone then some (t.put last (.value e)) else none := by
  simp [Table.assign, Table.alter]

/-- In a table that dotted keys made, a key leads on as a key of its own. -/
theorem alter_tail (dotted : inner.origin = .dotted) (e : Entry) :
    inner.alter .dotted
      (fun inner =>
        if (k :: path = [] ∨ inner.origin = .dotted) ∧ (inner.find? last.name).isNone then
          some (inner.put last (.value e))
        else none) path = inner.assign ⟨path, last⟩ e := by
  unfold Table.assign
  cases path with
  | nil => simp [Table.alter, dotted]
  | cons p path => simp

/-- A key with points whose first name is new makes a table. -/
theorem assign_new (new : t.find? k.name = none) (e : Entry) :
    t.assign ⟨k :: path, last⟩ e =
      ((Table.mk .dotted []).assign ⟨path, last⟩ e).map fun inner => t.put k (.table inner) := by
  have tail := @alter_tail (.mk .dotted []) k last path rfl e
  rw [← tail, Table.assign, Table.alter, new]
  exact (Option.map_eq_bind ..).symm

/-- A key with points leads on in a table that dotted keys made. -/
theorem assign_dotted (found : t.find? k.name = some (.table inner))
    (dotted : inner.origin = .dotted) (e : Entry) :
    t.assign ⟨k :: path, last⟩ e =
      (inner.assign ⟨path, last⟩ e).map fun inner => t.put k (.table inner) := by
  have extendable : ¬ (Origin.dotted = .dotted ∧ inner.isExplicit) := by
    rw [Table.isExplicit, dotted]
    simp
  rw [← alter_tail (k := k) dotted, Table.assign, Table.alter, found]
  dsimp only
  rw [if_neg extendable]
  exact (Option.map_eq_bind ..).symm

end

/-! ## Entries of a table -/

/-- An entry, seen from a table further up. -/
def entryBelow (p : KeyPart) (m : Key × Entry) : Key × Entry := (⟨p :: m.1.path, m.1.last⟩, m.2)

mutual

theorem entries_cons (p : KeyPart) (path : List KeyPart) (key : KeyPart) : (item : Item) →
    item.entries (p :: path) key = (item.entries path key).map (entryBelow p)
  | .value e => rfl
  | .table (.mk .dotted members) => by
    rw [Item.entries, Item.entries, List.cons_append, memberEntries_cons p (path ++ [key]) members]
  | .table (.mk .whole _) => rfl
  | .table (.mk (.header ..) _) => rfl
  | .table (.mk .implied _) => rfl
  | .tables _ => rfl

theorem memberEntries_cons (p : KeyPart) (path : List KeyPart) : (members : List (KeyPart × Item)) →
    memberEntries (p :: path) members = (memberEntries path members).map (entryBelow p)
  | [] => rfl
  | (key, item) :: rest => by
    rw [memberEntries, memberEntries, entries_cons p path key item, memberEntries_cons p path rest,
      List.map_append]

end

theorem memberEntries_append (path : List KeyPart) (front back : List (KeyPart × Item)) :
    memberEntries path (front ++ back) = memberEntries path front ++ memberEntries path back := by
  induction front with
  | nil => rfl
  | cons m front ih => rw [List.cons_append, memberEntries, memberEntries, ih, List.append_assoc]

/-! ## What assignments put into a table -/

section
variable (ok : KeyPart → Entry → Prop)

/-- **What assignments put under a name**, if their keys have so many parts at most: an entry, or a
table of such that dotted keys made.  The condition is on an entry and the part that its key ends
in. -/
inductive Item.Entered : Nat → KeyPart → Item → Prop
  | value {n : Nat} {key : KeyPart} {e : Entry} (readable : key.Readable) (holds : ok key e) :
      Entered (n + 1) key (.value e)
  | table {n : Nat} {key : KeyPart} {members : List (KeyPart × Item)} (readable : key.Readable)
      (some : members ≠ []) (each : ∀ m ∈ members, Entered n m.1 m.2)
      (distinct : (members.map fun m => m.1.name).Nodup) :
      Entered (n + 1) key (.table (.mk .dotted members))

/-- **What assignments put into a table**, under names that are distinct. -/
structure Entered (n : Nat) (members : List (KeyPart × Item)) : Prop where
  each : ∀ m ∈ members, m.2.Entered ok n m.1
  distinct : (members.map fun m => m.1.name).Nodup

/-- An entry whose key can be read and has so many parts at most. -/
structure EntryOk (n : Nat) (m : Key × Entry) : Prop extends Key.Readable n m.1 where
  holds : ok m.1.last m.2

end

section
variable {ok : KeyPart → Entry → Prop} {n : Nat} {members start : List (KeyPart × Item)}

theorem entered_nil : Entered ok n [] := ⟨nofun, .nil⟩

theorem EntryOk.below {p : KeyPart} {m : Key × Entry} (h : EntryOk ok n m) (readable : p.Readable) :
    EntryOk ok (n + 1) (entryBelow p m) :=
  ⟨⟨List.forall_mem_cons.mpr ⟨readable, h.parts⟩, Nat.succ_le_succ h.size⟩, h.holds⟩

theorem Item.Entered.readable {key : KeyPart} {item : Item} (h : item.Entered ok n key) :
    key.Readable := by
  cases h <;> assumption

/-- The entries of what assignments put into a table. -/
theorem Entered.entryOk (h : Entered ok n members) : ∀ m ∈ memberEntries [] members, EntryOk ok n m := by
  induction n generalizing members with
  | zero =>
    cases members with
    | nil => nofun
    | cons m members => cases h.each m List.mem_cons_self
  | succ n ih =>
    obtain ⟨each, -⟩ := h
    induction members with
    | nil => nofun
    | cons m members rest =>
      obtain ⟨key, item⟩ := m
      obtain ⟨first, others⟩ := List.forall_mem_cons.mp each
      rw [memberEntries, List.forall_mem_append]
      refine ⟨?_, rest others⟩
      cases first with
      | value readable holds =>
        exact List.forall_mem_singleton.mpr
          ⟨⟨List.forall_mem_singleton.mpr readable, Nat.succ_le_succ (Nat.zero_le n)⟩, holds⟩
      | table readable _ inner distinct =>
        rw [Item.entries, List.nil_append, memberEntries_cons, List.forall_mem_map]
        exact fun m hm => (ih ⟨inner, distinct⟩ m hm).below readable

/-- There is an entry in what assignments put under a name. -/
theorem Item.Entered.entries_ne_nil {key : KeyPart} {item : Item} (h : item.Entered ok n key)
    (path : List KeyPart) : item.entries path key ≠ [] := by
  induction h generalizing path with
  | value => exact List.cons_ne_nil _ _
  | @table n key members readable some each distinct ih =>
    obtain ⟨m, members, rfl⟩ := List.exists_cons_of_ne_nil some
    rw [Item.entries, memberEntries]
    exact List.append_ne_nil_of_left_ne_nil (ih m List.mem_cons_self _) _

/-- Entries below a new name make a table of what they make by themselves. -/
theorem assignAll_below {t : Table} {p : KeyPart} (new : t.find? p.name = none)
    {entries : List (Key × Entry)} (some : entries ≠ []) {inner : Table}
    (made : assignAll entries (.mk .dotted []) = .some inner) :
    assignAll (entries.map (entryBelow p)) t = .some (t.put p (.table inner)) := by
  have onward : ∀ (entries : List (Key × Entry)) (first : Table), first.origin = .dotted →
      assignAll entries first = .some inner →
      assignAll (entries.map (entryBelow p)) (t.put p (.table first)) =
        .some (t.put p (.table inner)) := by
    intro entries
    induction entries with
    | nil =>
      intro first _ made
      cases made
      rfl
    | cons m entries ih =>
      intro first dotted made
      obtain ⟨next, step, made⟩ := Option.bind_eq_some_iff.mp ((assignAll_cons ..).symm.trans made)
      have known := Table.find?_put_self t p (.table first)
      rw [List.map_cons, assignAll_cons, entryBelow, assign_dotted known dotted, step,
        Option.map_some, Option.bind_some, Table.put_put]
      exact ih next ((origin_assign step).trans dotted) made
  obtain ⟨m, entries, rfl⟩ := List.exists_cons_of_ne_nil some
  obtain ⟨next, step, made⟩ := Option.bind_eq_some_iff.mp ((assignAll_cons ..).symm.trans made)
  rw [List.map_cons, assignAll_cons, entryBelow, assign_new new, step, Option.map_some,
    Option.bind_some]
  exact onward entries next (origin_assign step) made

/-- **Entries make again what they were taken from**, behind members of other names. -/
theorem Entered.rebuilt (h : Entered ok n members) (origin : Origin)
    (apart : ∀ m ∈ members, ∀ m' ∈ start, m'.1.name ≠ m.1.name) :
    assignAll (memberEntries [] members) (.mk origin start) =
      some (.mk origin (start ++ members)) := by
  induction n generalizing members origin start with
  | zero =>
    cases members with
    | nil => rw [List.append_nil]; rfl
    | cons m members => cases h.each m List.mem_cons_self
  | succ n ih =>
    induction members generalizing start with
    | nil => rw [List.append_nil]; rfl
    | cons m members rest =>
      obtain ⟨key, item⟩ := m
      obtain ⟨first, others⟩ := List.forall_mem_cons.mp h.each
      obtain ⟨front, back⟩ := List.forall_mem_cons.mp apart
      obtain ⟨unlike, distinct⟩ := List.nodup_cons.mp h.distinct
      have new : (Table.mk origin start).find? key.name = none := Table.find?_eq_none_iff.mpr front
      have put : (Table.mk origin start).put key item = .mk origin (start ++ [(key, item)]) :=
        Table.put_new new item
      have step : assignAll (item.entries [] key) (.mk origin start) =
          some (.mk origin (start ++ [(key, item)])) := by
        rw [← put]
        cases first with
        | value => simp [Item.entries, assign_single, new]
        | table readable some inner distinct =>
          have made := @ih _ [] ⟨inner, distinct⟩ .dotted nofun
          have entries := Item.Entered.entries_ne_nil (.table readable some inner distinct) []
          rw [Item.entries, List.nil_append, memberEntries_cons, Ne, List.map_eq_nil_iff] at entries
          rw [Item.entries, List.nil_append, memberEntries_cons]
          exact assignAll_below new entries made
      rw [memberEntries, assignAll_append, step, Option.bind_some]
      refine (rest ⟨others, distinct⟩ fun m hm m' hm' => ?_).trans ?_
      · rcases List.mem_append.mp hm' with hm' | hm'
        · exact back m hm m' hm'
        · cases List.mem_singleton.mp hm'
          exact fun same => unlike (List.mem_map.mpr ⟨m, hm, same.symm⟩)
      · rw [List.append_assoc, List.singleton_append]

theorem Entered.append (h : Entered ok n members) {key : KeyPart} {item : Item}
    (entered : item.Entered ok n key) (new : ∀ m ∈ members, m.1.name ≠ key.name) :
    Entered ok n (members ++ [(key, item)]) := by
  constructor
  · exact List.forall_mem_append.mpr ⟨h.each, List.forall_mem_singleton.mpr entered⟩
  · rw [List.map_append, List.map_singleton, List.nodup_append]
    refine ⟨h.distinct, List.nodup_cons.mpr ⟨List.not_mem_nil, .nil⟩, fun name hm name' hm' => ?_⟩
    obtain ⟨m, listed, rfl⟩ := List.mem_map.mp hm
    cases List.mem_singleton.mp hm'
    exact new m listed

theorem Entered.replace (h : Entered ok n members) {name : String} {item : Item}
    (entered : ∀ m ∈ members, m.1.name = name → item.Entered ok n m.1) :
    Entered ok n (members.map fun m => if m.1.name = name then (m.1, item) else m) := by
  constructor
  · rw [List.forall_mem_map]
    intro m hm
    split
    · rename_i same
      exact entered m hm same
    · exact h.each m hm
  · rw [List.map_map]
    refine (congrArg List.Nodup (List.map_congr_left fun m _ => ?_)).mpr h.distinct
    dsimp only [Function.comp]
    split <;> rfl

/-- **What assignments put into a table**, one more adds to, if it does not lead into what stood
there before. -/
theorem Entered.assign (h : Entered ok n members) {key : Key} {e : Entry}
    (fits : EntryOk ok n (key, e)) (apart : ∀ p ∈ key.path.head?, ∀ m ∈ start, m.1.name ≠ p.name)
    {origin : Origin} {t : Table} (made : (Table.mk origin (start ++ members)).assign key e = some t) :
    ∃ members', t = .mk origin (start ++ members') ∧ members' ≠ [] ∧ Entered ok n members' := by
  have nothing : ∀ (name : String), ∀ m ∈ ([] : List (KeyPart × Item)), m.1.name ≠ name :=
    fun _ _ hm => absurd hm List.not_mem_nil
  induction n generalizing members start key origin t with
  | zero =>
    have size := fits.size
    rw [Key.parts, List.length_append, List.length_singleton] at size
    cases size
  | succ n ih =>
    obtain ⟨path, last⟩ := key
    cases path with
    | nil =>
      have readable := fits.parts last (List.mem_append_right _ List.mem_cons_self)
      rw [assign_single] at made
      split at made
      · rename_i new
        cases made
        rw [Option.isNone_iff_eq_none] at new
        refine ⟨members ++ [(last, .value e)], ?_, by simp, h.append (.value readable fits.holds) ?_⟩
        · rw [Table.put_new new, Table.origin, Table.members, List.append_assoc]
        · exact fun m hm => Table.find?_eq_none_iff.mp new m (List.mem_append_right _ hm)
      · cases made
    | cons k path =>
      obtain ⟨readable, parts⟩ := List.forall_mem_cons.mp fits.parts
      have inner : EntryOk ok n (⟨path, last⟩, e) :=
        ⟨⟨parts, Nat.le_of_succ_le_succ fits.size⟩, fits.holds⟩
      have front : ∀ m ∈ start, m.1.name ≠ k.name := apart k rfl
      rcases found : (Table.mk origin (start ++ members)).find? k.name with _ | item
      · rw [assign_new found, Option.map_eq_some_iff] at made
        obtain ⟨t', made, rfl⟩ := made
        obtain ⟨members', rfl, some, entered⟩ := @ih [] [] entered_nil _ inner (fun _ _ => nothing _) _ _ made
        refine ⟨members ++ [(k, .table (.mk .dotted members'))], ?_, by simp,
          h.append (.table readable some entered.each entered.distinct) ?_⟩
        · rw [Table.put_new found, Table.origin, Table.members, List.append_assoc]
          rfl
        · exact fun m hm => Table.find?_eq_none_iff.mp found m (List.mem_append_right _ hm)
      · obtain ⟨m, hm, name, rfl⟩ : ∃ m ∈ members, m.1.name = k.name ∧ m.2 = item := by
          obtain ⟨m, listed, rfl⟩ := Option.map_eq_some_iff.mp found
          have name : m.1.name = k.name := by simpa using List.find?_some listed
          rcases List.mem_append.mp (List.mem_of_find?_eq_some listed) with hm | hm
          · exact absurd name (front m hm)
          · exact ⟨m, hm, name, rfl⟩
        obtain ⟨key, item⟩ := m
        have entered := h.each _ hm
        cases entered with
        | value =>
          rw [Table.assign, Table.alter, found] at made
          cases made
        | table readable' some each distinct =>
          rw [assign_dotted found rfl, Option.map_eq_some_iff] at made
          obtain ⟨t', made, rfl⟩ := made
          obtain ⟨members', rfl, some', entered⟩ :=
            @ih _ [] ⟨each, distinct⟩ _ inner (fun _ _ => nothing _) _ _ made
          have known : (Table.mk origin (start ++ members)).find? k.name ≠ none := by
            rw [found]
            exact Option.some_ne_none _
          have replaced : Entered ok (n + 1) (members.map fun m =>
              if m.1.name = k.name then (m.1, .table (.mk .dotted members')) else m) :=
            h.replace fun m hm _ =>
              .table (h.each m hm).readable some' entered.each entered.distinct
          refine ⟨_, ?_, ?_, replaced⟩
          · rw [Table.put_known known, Table.origin, Table.members, List.map_append]
            congr 2
            refine (List.map_congr_left fun m hm => ?_).trans (List.map_id _)
            exact if_neg (front m hm)
          · rw [Ne, List.map_eq_nil_iff]
            exact List.ne_nil_of_mem hm

/-- **Assignments put entries into a table**, if they do not lead into what stood there before. -/
theorem Entered.of_assignAll (h : Entered ok n members) {entries : List (Key × Entry)}
    (fits : ∀ m ∈ entries, EntryOk ok n m)
    (apart : ∀ m ∈ entries, ∀ p ∈ m.1.path.head?, ∀ m' ∈ start, m'.1.name ≠ p.name)
    {origin : Origin} {t : Table}
    (made : assignAll entries (.mk origin (start ++ members)) = some t) :
    ∃ members', t = .mk origin (start ++ members') ∧ Entered ok n members' := by
  induction entries generalizing members with
  | nil =>
    cases made
    exact ⟨members, rfl, h⟩
  | cons m entries ih =>
    obtain ⟨first, others⟩ := List.forall_mem_cons.mp fits
    obtain ⟨front, back⟩ := List.forall_mem_cons.mp apart
    obtain ⟨t', step, onward⟩ := Option.bind_eq_some_iff.mp ((assignAll_cons ..).symm.trans made)
    obtain ⟨members', rfl, -, entered⟩ := h.assign first front step
    exact ih entered others back onward

end

end Patchwork.Toml
