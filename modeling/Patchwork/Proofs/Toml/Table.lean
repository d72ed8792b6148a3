import Patchwork.Toml.Document
import Patchwork.Proofs.Toml.Key

/-! Tables up to their spelling.  What a table says is left when the margins, the spellings of names,
the places of headers and, where wanted, some values are forgotten (`Table.plain`).  Building tables
does not look at what is forgotten (`assignAll_plain`, `open_plain`), so statements that say the same
build tables that say the same (`ofBlocks?_congr`). -/

namespace Patchwork.Toml

/-! ## What is forgotten -/

/-- A part of a key without its spelling. -/
def KeyPart.plain (p : KeyPart) : KeyPart := ⟨p.name, "", ⟨"", ""⟩, ⟨"", ""⟩⟩

/-- A key without its spelling. -/
def Key.plain (k : Key) : Key := ⟨k.path.map KeyPart.plain, k.last.plain⟩

/-- A value without its text, or without anything if it is hidden. -/
def Entry.plain (hidden : Bool) (e : Entry) : Entry :=
  ⟨if hidden then .other else e.value, "", ⟨"", ""⟩⟩

/-- How a table came to be, without its place in the text. -/
def Origin.plain : Origin → Origin
  | whole => whole
  | header _ _ => header 0 ⟨"", ""⟩
  | implied => implied
  | dotted => dotted

/-- Which values are hidden, by the names that lead there. -/
abbrev Hiding := List String → Bool

/-- Hides the same values, seen from the table that a name stands for. -/
def Hiding.below (hide : Hiding) (name : String) : Hiding := fun names => hide (name :: names)

mutual

/-- What a name stands for, without spellings and hidden values. -/
def Item.plain (hide : Hiding) : Item → Item
  | .value e => .value (e.plain (hide []))
  | .table t => .table (t.plain hide)
  | .tables all => .tables (plainTables hide all)

/-- What a table says, without spellings and hidden values. -/
def Table.plain (hide : Hiding) : Table → Table
  | .mk origin members => .mk origin.plain (plainMembers hide members)

/-- What the members of a table say. -/
def plainMembers (hide : Hiding) : List (KeyPart × Item) → List (KeyPart × Item)
  | [] => []
  | (key, item) :: rest =>
    (key.plain, item.plain (hide.below key.name)) :: plainMembers hide rest

/-- What the tables of an array say. -/
def plainTables (hide : Hiding) : List Table → List Table
  | [] => []
  | t :: rest => t.plain hide :: plainTables hide rest

end

theorem plainMembers_eq (hide : Hiding) (members : List (KeyPart × Item)) :
    plainMembers hide members =
      members.map fun m => (m.1.plain, m.2.plain (hide.below m.1.name)) := by
  induction members with
  | nil => rw [plainMembers, List.map_nil]
  | cons m members ih => rw [plainMembers, ih, List.map_cons]

theorem plainTables_eq (hide : Hiding) (all : List Table) :
    plainTables hide all = all.map (Table.plain hide) := by
  induction all with
  | nil => rw [plainTables, List.map_nil]
  | cons t all ih => rw [plainTables, ih, List.map_cons]

/-! ## Building tables -/

section
variable (hide : Hiding) (t : Table)

@[simp]
theorem origin_plain : (t.plain hide).origin = t.origin.plain := by
  cases t
  rw [Table.plain]
  rfl

theorem members_plain : (t.plain hide).members =
    t.members.map fun m => (m.1.plain, m.2.plain (hide.below m.1.name)) := by
  cases t
  rw [Table.plain, Table.members, plainMembers_eq, Table.members]

@[simp]
theorem plain_eq_dotted {o : Origin} : o.plain = .dotted ↔ o = .dotted := by
  cases o <;> simp [Origin.plain]

@[simp]
theorem plain_eq_implied {o : Origin} : o.plain = .implied ↔ o = .implied := by
  cases o <;> simp [Origin.plain]

theorem isExplicit_plain : (t.plain hide).isExplicit = t.isExplicit := by
  rw [Table.isExplicit, origin_plain, Table.isExplicit]
  cases t.origin <;> rfl

theorem find?_plain (name : String) :
    (t.plain hide).find? name = (t.find? name).map (Item.plain (hide.below name)) := by
  rw [Table.find?, members_plain, Table.find?, List.find?_map, Option.map_map, Option.map_map]
  have same : ((fun m : KeyPart × Item => m.1.name == name) ∘
      fun m : KeyPart × Item => (m.1.plain, m.2.plain (hide.below m.1.name))) =
      fun m => m.1.name == name := rfl
  rw [same]
  rcases found : t.members.find? fun m => m.1.name == name with _ | m
  · rw [found]
    rfl
  · have named : m.1.name = name := by simpa using List.find?_some found
    rw [found]
    simp only [Option.map_some, Function.comp, named]

theorem put_plain (key : KeyPart) (item : Item) :
    (t.put key item).plain hide =
      (t.plain hide).put key.plain (item.plain (hide.below key.name)) := by
  have any : ((t.plain hide).members.any fun m => m.1.name == key.plain.name) =
      t.members.any fun m => m.1.name == key.name := by
    rw [members_plain, List.any_map]
    rfl
  unfold Table.put
  rw [Table.plain, plainMembers_eq, any, origin_plain, members_plain]
  congr 1
  split
  · rw [List.map_map, List.map_map]
    refine List.map_congr_left fun m _ => ?_
    have plainName : m.1.plain.name = m.1.name ∧ key.plain.name = key.name := ⟨rfl, rfl⟩
    dsimp only [Function.comp]
    rw [plainName.1, plainName.2]
    split
    · rename_i same
      rw [same]
    · rfl
  · rw [List.map_append]
    rfl

theorem erase_plain (name : String) : (t.erase name).plain hide = (t.plain hide).erase name := by
  unfold Table.erase
  rw [Table.plain, plainMembers_eq, origin_plain, members_plain, List.filter_map]
  rfl

end

/-- Hides the same values, seen from the table that some names lead to. -/
def Hiding.along (hide : Hiding) (names : List String) : Hiding := fun more => hide (names ++ more)

/-- **Changing a table at the end of a path** does not look at what is forgotten, if the change
does not. -/
theorem alter_plain {made : Origin} (kept : made.plain = made) {act act' : Table → Option Table}
    (path : List KeyPart) (hide : Hiding)
    (change : ∀ t, (act t).map (Table.plain (hide.along (path.map KeyPart.name))) =
      act' (t.plain (hide.along (path.map KeyPart.name)))) (t : Table) :
    (t.alter made act path).map (Table.plain hide) =
      (t.plain hide).alter made act' (path.map KeyPart.plain) := by
  induction path generalizing hide t with
  | nil => exact change t
  | cons key path ih =>
    have inner := ih (hide.below key.name) change
    have empty : (Table.mk made []).plain (hide.below key.name) = .mk made [] := by
      rw [Table.plain, plainMembers_eq, kept]
      rfl
    have started := inner (.mk made [])
    rw [empty] at started
    rw [List.map_cons, Table.alter, Table.alter, find?_plain hide t key.plain.name]
    have name : key.plain.name = key.name := rfl
    rw [name]
    rcases t.find? key.name with _ | (e | t' | all)
    · dsimp only [Option.map_none]
      rw [← started]
      cases Table.alter made act path (.mk made []) with
      | none => rfl
      | some t' => exact congrArg some (by rw [put_plain, Item.plain])
    · rfl
    · simp only [Option.map_some, Item.plain, isExplicit_plain]
      split
      · rfl
      · rw [← inner]
        cases Table.alter made act path t' with
        | none => rfl
        | some t'' => exact congrArg some (by rw [put_plain, Item.plain])
    · simp only [Option.map_some, Item.plain, plainTables_eq, List.getLast?_map]
      cases all.getLast? with
      | none => rfl
      | some last =>
        simp only [Option.map_some]
        rw [← inner]
        cases Table.alter made act path last with
        | none => rfl
        | some t'' =>
          refine congrArg some ?_
          rw [put_plain, Item.plain, plainTables_eq, List.map_append, List.map_dropLast]
          rfl

theorem names_plain (k : Key) : k.plain.names = k.names := by
  simp [Key.names, Key.parts, Key.plain, KeyPart.plain, Function.comp]

/-- Without its spelling a key is its names. -/
theorem plain_of_names {k k' : Key} (h : k.names = k'.names) : k.plain = k'.plain := by
  have bare : ∀ path : List KeyPart, path.map KeyPart.plain =
      (path.map KeyPart.name).map fun name => ⟨name, "", ⟨"", ""⟩, ⟨"", ""⟩⟩ := by
    intro path
    rw [List.map_map]
    rfl
  rw [Key.names, Key.names, Key.parts, Key.parts, List.map_append, List.map_append] at h
  obtain ⟨path, last⟩ := List.append_inj' h rfl
  rw [Key.plain, Key.plain, bare, bare, path, KeyPart.plain, KeyPart.plain, (List.cons.inj last).1]

theorem map_name_plain (path : List KeyPart) :
    (path.map KeyPart.plain).map KeyPart.name = path.map KeyPart.name := by
  rw [List.map_map]
  rfl

/-- Adding an entry does not look at what is forgotten. -/
theorem assign_plain (hide : Hiding) (t : Table) (key : Key) (e : Entry) :
    (t.assign key e).map (Table.plain hide) =
      (t.plain hide).assign key.plain (e.plain (hide key.names)) := by
  have here : (hide.along (key.path.map KeyPart.name)).below key.last.name [] = hide key.names := by
    simp [Hiding.along, Hiding.below, Key.names, Key.parts]
  refine alter_plain rfl key.path hide (fun inner => ?_) t
  have path : key.plain.path = [] ↔ key.path = [] := List.map_eq_nil_iff
  have new : ((inner.plain (hide.along (key.path.map KeyPart.name))).find?
      key.plain.last.name).isNone = (inner.find? key.last.name).isNone := by
    rw [find?_plain, Option.isNone_map]
    rfl
  simp only [path, origin_plain, plain_eq_dotted, new]
  split
  · refine congrArg some ?_
    rw [put_plain, Item.plain, here]
    rfl
  · rfl

/-- Adds entries one after another. -/
def assignAll (entries : List (Key × Entry)) (t : Table) : Option Table :=
  entries.foldlM (fun t m => t.assign m.1 m.2) t

@[simp]
theorem assignAll_nil (t : Table) : assignAll [] t = some t := rfl

@[simp]
theorem assignAll_cons (m : Key × Entry) (entries : List (Key × Entry)) (t : Table) :
    assignAll (m :: entries) t = (t.assign m.1 m.2).bind (assignAll entries) := by
  rw [assignAll, List.foldlM_cons]
  rfl

theorem assignAll_append (front back : List (Key × Entry)) (t : Table) :
    assignAll (front ++ back) t = (assignAll front t).bind (assignAll back) := by
  rw [assignAll, List.foldlM_append]
  rfl

/-- Entries without their spellings and hidden values. -/
def plainEntries (hide : Hiding) (entries : List (Key × Entry)) : List (Key × Entry) :=
  entries.map fun m => (m.1.plain, m.2.plain (hide m.1.names))

theorem assignAll_plain (hide : Hiding) (entries : List (Key × Entry)) (t : Table) :
    (assignAll entries t).map (Table.plain hide) =
      assignAll (plainEntries hide entries) (t.plain hide) := by
  induction entries generalizing t with
  | nil => rfl
  | cons m entries ih =>
    have first := assign_plain hide t m.1 m.2
    rw [plainEntries, List.map_cons, assignAll_cons, assignAll_cons, ← first]
    cases t.assign m.1 m.2 with
    | none => rfl
    | some t' => exact ih t'

/-! ## Blocks of statements -/

/-- A header with the assignments up to the next header. -/
structure Block where
  key : Key
  /-- Whether the header adds a table to an array. -/
  isArrayItem : Bool
  around : Margin
  body : List (Key × Entry)

namespace Block

/-- The statements of a block. -/
def statements (b : Block) : List Statement :=
  (if b.isArrayItem then .arrayHeader b.key b.around else .header b.key b.around) ::
    b.body.map fun m => .assign m.1 m.2

/-- What a block does to the table of the text, with an origin for the table that it opens. -/
def opens (b : Block) (origin : Origin) (root : Table) : Option Table :=
  if b.isArrayItem then root.append b.key origin (assignAll b.body)
  else root.define b.key origin (assignAll b.body)

/-- A block without spellings and hidden values. -/
def plain (hide : Hiding) (b : Block) : Block :=
  ⟨b.key.plain, b.isArrayItem, ⟨"", ""⟩, plainEntries (hide.along b.key.names) b.body⟩

end Block

/-- The table that some entries and then some blocks build; `place` headers came before. -/
def ofBlocks? (place : Nat) : List Block → Table → Option Table
  | [], root => some root
  | b :: blocks, root =>
    (b.opens (.header (place + 1) b.around) root).bind (ofBlocks? (place + 1) blocks)

/-- All statements are some assignments and then some blocks. -/
theorem exists_blocks (statements : List Statement) :
    ∃ (entries : List (Key × Entry)) (blocks : List Block),
      statements = entries.map (fun m => .assign m.1 m.2) ++ blocks.flatMap Block.statements := by
  induction statements with
  | nil => exact ⟨[], [], rfl⟩
  | cons st statements ih =>
    obtain ⟨entries, blocks, rfl⟩ := ih
    cases st with
    | assign key e => exact ⟨(key, e) :: entries, blocks, rfl⟩
    | header key around => exact ⟨[], ⟨key, false, around, entries⟩ :: blocks, rfl⟩
    | arrayHeader key around => exact ⟨[], ⟨key, true, around, entries⟩ :: blocks, rfl⟩

section
variable (entries : List (Key × Entry)) (blocks : List Block)

theorem bodyOf_append (t : Table) :
    bodyOf (entries.map (fun m => .assign m.1 m.2) ++ blocks.flatMap Block.statements) t =
      assignAll entries t := by
  induction entries generalizing t with
  | nil =>
    cases blocks with
    | nil => rfl
    | cons b blocks =>
      rw [List.map_nil, List.nil_append, List.flatMap_cons, Block.statements, List.cons_append]
      split <;> rfl
  | cons m entries ih =>
    rw [List.map_cons, List.cons_append, bodyOf, assignAll_cons]
    exact congrArg (Option.bind _) (funext ih)

theorem changes_append (place : Nat) (root : Table) :
    (changes place
      (entries.map (fun m => .assign m.1 m.2) ++ blocks.flatMap Block.statements)).foldlM
        (fun root change => change root) root =
      ofBlocks? place blocks root := by
  induction blocks generalizing entries place root with
  | nil =>
    induction entries with
    | nil => rfl
    | cons m entries ih => exact ih
  | cons b blocks ih =>
    induction entries with
    | cons m entries ih => exact ih
    | nil =>
      have body : bodyOf (b.body.map (fun m => .assign m.1 m.2) ++
          blocks.flatMap Block.statements) = assignAll b.body :=
        funext (bodyOf_append b.body blocks)
      rw [List.map_nil, List.nil_append, List.flatMap_cons, Block.statements, List.cons_append]
      unfold ofBlocks? Block.opens
      split <;>
        rw [changes, List.foldlM_cons, body] <;>
        exact congrArg (Option.bind _) (funext fun root => ih b.body (place + 1) root)

/-- **The table of a text** is what its blocks build. -/
theorem ofStatements?_append :
    Table.ofStatements?
      (entries.map (fun m => .assign m.1 m.2) ++ blocks.flatMap Block.statements) =
      (assignAll entries (.mk .whole [])).bind (ofBlocks? 0 blocks) := by
  rw [Table.ofStatements?, bodyOf_append]
  exact congrArg (Option.bind _) (funext fun root => changes_append entries blocks 0 root)

end

/-! ## Blocks that say the same -/

section
variable {hide : Hiding}

theorem along_names (hide : Hiding) (key : Key) :
    (hide.along (key.path.map KeyPart.name)).below key.last.name = hide.along key.names := by
  funext names
  simp [Hiding.along, Hiding.below, Key.names, Key.parts]

/-- The assignments of a block do not look at what is forgotten. -/
theorem body_plain (key : Key) (origin : Origin) (members : List (KeyPart × Item))
    (entries : List (Key × Entry)) :
    (assignAll entries (.mk origin members)).map
        (Table.plain ((hide.along (key.path.map KeyPart.name)).below key.last.name)) =
      assignAll (plainEntries (hide.along key.names) entries)
        (.mk origin.plain (plainMembers
          ((hide.along (key.path.map KeyPart.name)).below key.last.name) members)) := by
  rw [assignAll_plain, along_names, Table.plain]

theorem define_plain (root : Table) (key : Key) (origin : Origin) (entries : List (Key × Entry)) :
    (root.define key origin (assignAll entries)).map (Table.plain hide) =
      (root.plain hide).define key.plain origin.plain
        (assignAll (plainEntries (hide.along key.names) entries)) := by
  refine alter_plain rfl key.path hide (fun outer => ?_) root
  have body := @body_plain hide key origin
  have name : key.plain.last.name = key.last.name := rfl
  rw [name, find?_plain]
  rcases outer.find? key.last.name with _ | (e | t | all)
  · have built := body [] entries
    rw [plainMembers] at built
    simp only [Option.map_none, Option.bind_eq_bind, Option.bind_some]
    rw [← built]
    cases assignAll entries (.mk origin []) with
    | none => rfl
    | some t => exact congrArg some (by rw [put_plain, erase_plain, Item.plain]; rfl)
  · rfl
  · simp only [Option.map_some, Item.plain, origin_plain, plain_eq_implied, members_plain]
    split
    · have built := body t.members entries
      rw [plainMembers_eq] at built
      simp only [Option.bind_eq_bind, Option.bind_some]
      rw [← built]
      cases assignAll entries (.mk origin t.members) with
      | none => rfl
      | some t' => exact congrArg some (by rw [put_plain, erase_plain, Item.plain]; rfl)
    · rfl
  · rfl

theorem append_plain (root : Table) (key : Key) (origin : Origin) (entries : List (Key × Entry)) :
    (root.append key origin (assignAll entries)).map (Table.plain hide) =
      (root.plain hide).append key.plain origin.plain
        (assignAll (plainEntries (hide.along key.names) entries)) := by
  refine alter_plain rfl key.path hide (fun outer => ?_) root
  have built := @body_plain hide key origin [] entries
  rw [plainMembers] at built
  have name : key.plain.last.name = key.last.name := rfl
  rw [name, find?_plain]
  rcases outer.find? key.last.name with _ | (e | t | all)
  · simp only [Option.map_none, Option.bind_eq_bind, Option.bind_some]
    rw [← built]
    cases assignAll entries (.mk origin []) with
    | none => rfl
    | some t =>
      refine congrArg some ?_
      rw [put_plain, Item.plain, plainTables_eq, List.map_append]
      rfl
  · rfl
  · rfl
  · simp only [Option.map_some, Item.plain, Option.bind_eq_bind, Option.bind_some]
    rw [← built]
    cases assignAll entries (.mk origin []) with
    | none => rfl
    | some t =>
      refine congrArg some ?_
      rw [put_plain, Item.plain, plainTables_eq, plainTables_eq, List.map_append]
      rfl

theorem opens_plain (b : Block) (origin : Origin) (root : Table) :
    (b.opens origin root).map (Table.plain hide) =
      (b.plain hide).opens origin.plain (root.plain hide) := by
  unfold Block.opens Block.plain
  dsimp only
  split
  · exact append_plain root b.key origin b.body
  · exact define_plain root b.key origin b.body

/-- **Blocks that say the same** build tables that say the same, wherever they stand. -/
theorem ofBlocks?_congr {blocks blocks' : List Block}
    (same : blocks.map (Block.plain hide) = blocks'.map (Block.plain hide)) (place place' : Nat)
    {root root' : Table} (start : root.plain hide = root'.plain hide) :
    (ofBlocks? place blocks root).map (Table.plain hide) =
      (ofBlocks? place' blocks' root').map (Table.plain hide) := by
  induction blocks generalizing blocks' place place' root root' with
  | nil =>
    cases List.map_eq_nil_iff.mp same.symm
    exact congrArg some start
  | cons b blocks ih =>
    obtain ⟨b', blocks', rfl, first, others⟩ := List.map_eq_cons_iff.mp same.symm
    have step := @opens_plain hide b (.header (place + 1) b.around) root
    have step' := @opens_plain hide b' (.header (place' + 1) b'.around) root'
    rw [first, ← start] at step'
    have opened : (b.opens (.header (place + 1) b.around) root).map (Table.plain hide) =
        (b'.opens (.header (place' + 1) b'.around) root').map (Table.plain hide) :=
      step.trans step'.symm
    rw [ofBlocks?, ofBlocks?]
    rcases left : b.opens (.header (place + 1) b.around) root with _ | t <;>
      rcases right : b'.opens (.header (place' + 1) b'.around) root' with _ | t' <;>
      rw [left, right] at opened
    · rfl
    · cases opened
    · cases opened
    · exact ih others.symm _ _ (Option.some.inj opened)

end

end Patchwork.Toml
