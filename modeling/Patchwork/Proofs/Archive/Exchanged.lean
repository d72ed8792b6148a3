import Patchwork.Proofs.Archive.Kept
import Patchwork.Proofs.Disk.Sited

/-! Trees that go from home to home.  A folder and an archive take the same trees: those whose names go
down by names alone, without NUL, and none of which is a directory of another one
(`FileMap.Portable`).  Where a home is ready (`TreeHome.Ready`), such a tree is written to it, whatever
was there, if the file system takes its paths or the archive gives its entries back (`TreeHome.Keeps`,
`TreeHome.exists_written`).  This leaves another home ready that is the same or stands beside it
(`TreeHome.Ready.of_rebuilt`); so a tree that is written to one home after the other, and read there each
time, comes out as it was (`TreeHome.relay`, `TreeHome.exists_relayed`). -/

namespace Patchwork
open Path Disk Patchwork.Action

/-! ## Trees that can be exchanged -/

/-- **Trees that folders and archives hold alike**: each name goes down by names alone and names a file,
and none is a directory of another one. -/
structure FileMap.Portable (files : FileMap) : Prop where
  plain : ∀ name ∈ files, Archive.IsPlain name
  apart : ∀ name ∈ files, ∀ rest, name ++ "/" ++ rest ∉ files

namespace FileMap
variable {files : FileMap}

theorem portable_iff : files.Portable ↔ (∀ name ∈ files.keys, Archive.IsPlain name) ∧
    ∀ name ∈ files.keys, ∀ other ∈ files.keys, ¬ (name ++ "/").toList <+: other.toList := by
  constructor
  · rintro ⟨plain, apart⟩
    refine ⟨fun name listed => plain name (Std.TreeMap.mem_keys.mp listed), fun name listed other => ?_⟩
    rintro listed' ⟨rest, whole⟩
    have written : name ++ "/" ++ String.ofList rest = other := by
      rw [← String.toList_inj, String.toList_append, String.toList_ofList, whole]
    have absent := apart name (Std.TreeMap.mem_keys.mp listed) (String.ofList rest)
    exact absent (written ▸ Std.TreeMap.mem_keys.mp listed')
  · rintro ⟨plain, apart⟩
    refine ⟨fun name listed => plain name (Std.TreeMap.mem_keys.mpr listed),
      fun name listed rest listed' => ?_⟩
    refine apart name (Std.TreeMap.mem_keys.mpr listed) _ (Std.TreeMap.mem_keys.mpr listed') ?_
    exact ⟨rest.toList, String.toList_append.symm⟩

instance (files : FileMap) : Decidable files.Portable := decidable_of_iff _ portable_iff.symm

theorem portable_singleton {name : String} {bytes : ByteArray} (plain : Archive.IsPlain name) :
    (ofFiles [(name, bytes)]).Portable := by
  have alone : ∀ {other}, other ∈ ofFiles [(name, bytes)] → other = name := fun listed => by
    simpa using mem_ofFiles.mp listed
  refine ⟨fun other listed => alone listed ▸ plain, fun other listed rest listed' => ?_⟩
  obtain rfl := alone listed
  have longer := congrArg (fun text : String => text.toList.length) (alone listed')
  simp at longer

/-- What leads down to a name of such a tree is no name of it. -/
theorem Portable.eq_of_prefix (portable : files.Portable) {name other : String} (listed : name ∈ files)
    (listed' : other ∈ files) (above : Text.pieces '/' name <+: Text.pieces '/' other) :
    Text.pieces '/' name = Text.pieces '/' other := by
  obtain ⟨rest, whole⟩ := above
  by_cases none : rest = []
  · rw [← whole, none, List.append_nil]
  have single : "/".toList = ['/'] := by decide
  have slashless : ∀ piece ∈ rest, '/' ∉ piece.toList := fun piece within =>
    ((portable.plain other listed').normal piece (whole ▸ List.mem_append_right _ within)).slashless
  have pieces : Text.pieces '/' (name ++ "/" ++ slashed rest) = Text.pieces '/' other := by
    rw [Text.pieces_append single, pieces_slashed none slashless, whole]
  have written : name ++ "/" ++ slashed rest = other := by
    rw [← (slashed_pieces (name ++ "/" ++ slashed rest)).1, pieces, (slashed_pieces other).1]
  exact absurd (written ▸ listed') (portable.apart name listed (slashed rest))

end FileMap

namespace TreeHome
variable {home other : TreeHome} {files : FileMap} {d d' : Disk} {here : Place} {w w' : World}

/-! ## Homes that are ready -/

/-- **Whether a home is ready for a tree**, whatever is there: its path ends in a name and is one that
something can come to the end of.  A slash behind the name means a directory, and a file must not be
there. -/
structure Ready (home : TreeHome) (d : Disk) : Prop where
  takes : Takes home.path
  ends : home.path.endsInName
  approach : d.Approach home.path
  meant : home.path.meansDir → home = .folder home.path ∧
    ∀ bytes, d.at? (home.path.place d.here) ≠ some (.file bytes)

/-- **Whether a home keeps the files of a tree**: the file system takes their paths, or the archive gives
back what is put into it. -/
def Keeps (files : FileMap) : TreeHome → Prop
  | folder p => ∀ name ∈ files, Takes (p.join name)
  | archive _ => Zip.decode? (Zip.encode files.toList) = some files.toList

/-- **Homes that stand beside each other**, or are the same place for a tree: neither path leads through
the place of the other one. -/
def Beside (here : Place) (home other : TreeHome) : Prop :=
  home.path = other.path ∨ Fresh here (home.path.place here <+: ·) other.path ∧
    Fresh here (other.path.place here <+: ·) home.path

/-- A home that is named in a directory is ready, if the path to this does not lead back. -/
theorem ready_of_isDir {parent : Path} {name : String} (straight : ".." ∉ parent.parts)
    (isDir : d.isDir parent) (named : IsName name) (takes : Takes (parent.join name))
    (at_ : home.path = parent.join name) : home.Ready d := by
  refine ⟨at_ ▸ takes, at_ ▸ endsInName_join named parent, at_ ▸ approach_of_isDir straight isDir named,
    fun meant => ?_⟩
  rw [at_, meansDir_join named] at meant
  cases meant

/-- Homes stand beside each other if no place lies in the other one, and no path leads back. -/
theorem beside_of_apart (straight : ".." ∉ home.path.parts) (straight' : ".." ∉ other.path.parts)
    (apart : ¬ home.path.place here <+: other.path.place here)
    (apart' : ¬ other.path.place here <+: home.path.place here) : Beside here home other :=
  .inr ⟨(clean_of_apart straight' apart apart').fresh, (clean_of_apart straight apart' apart).fresh⟩

/-- **A home stays ready** when a tree was written to one that stands beside it. -/
theorem Ready.of_rebuilt (ready : other.Ready d) (ready' : home.Ready d)
    (beside : Beside d.here home other) (rebuilt : Rebuilt home.path d d')
    (stores : home.Stores d' files.toList) : other.Ready d' := by
  rcases beside with same | ⟨past, past'⟩
  · have approach := ready.approach.of_rebuilt ready.ends (same ▸ rebuilt)
    refine ⟨ready.takes, ready.ends, approach, fun meant => ?_⟩
    obtain ⟨folder, -⟩ := ready.meant meant
    obtain ⟨folder', -⟩ := ready'.meant (same ▸ meant)
    rw [folder'] at stores
    refine ⟨folder, fun bytes stands => ?_⟩
    rw [← same, Holds.dir stores] at stands
    cases stands
  · have out := past.not_stale
    have same : d'.at? (other.path.place d.here) = d.at? (other.path.place d.here) := by
      refine (rebuilt.outside _ out).resolve_right ?_
      rintro ⟨-, -, front, above, -, at_⟩
      exact past' front above (at_ ▸ List.prefix_rfl)
    refine ⟨ready.takes, ready.ends, ready.approach.of_grown rebuilt.grown past same, fun meant => ?_⟩
    rw [rebuilt.here, same]
    exact ready.meant meant

/-! ## Trees that are written -/

/-- A tree is written to a folder that is ready. -/
theorem exists_written_folder {p : Path} (tree : w.disk.IsTree) (portable : files.Portable)
    (ready : (folder p).Ready w.disk) (keeps : (folder p).Keeps files) :
    ∃ d, (folder p).write files w = (.ok (), w.withDisk d) ∧ Rebuilt p w.disk d ∧
      (folder p).Stores d files.toList := by
  obtain ⟨d₁, cleared, tree₁, site, rebuilt⟩ := ready.approach.exists_site tree ready.takes ready.ends
    fun meant => (ready.meant meant).2
  have apart : ∀ file ∈ located files.toList, ∀ other ∈ located files.toList,
      file.1 <+: other.1 → file.1 = other.1 := by
    intro _ held _ held' above
    obtain ⟨file, listed, rfl⟩ := List.mem_map.mp held
    obtain ⟨other, listed', rfl⟩ := List.mem_map.mp held'
    have named := FileMap.mem_of_mem_toList listed
    exact portable.eq_of_prefix named (FileMap.mem_of_mem_toList listed') above
  have stops : ∀ front, front <+: p.parts → front ≠ p.parts → d₁.at? (d₁.stop p front) = some .dir :=
    fun front above proper => stop_eq rebuilt.here p front ▸ rebuilt.stops front above proper
  obtain ⟨d₂, filled, here, holds, same⟩ := exists_filled_site (w := w.withDisk d₁) site tree₁
    ready.takes stops (fun file listed => (portable.plain _ (FileMap.mem_of_mem_toList listed)).normal)
    (FileMap.distinct_toList files) apart fun file listed => keeps _ (FileMap.mem_of_mem_toList listed)
  refine ⟨d₂, (bind_of_ok cleared _).trans filled, rebuilt.further ready.approach here ?_, holds⟩
  rwa [World.withDisk_disk, rebuilt.here] at same

/-- A tree is written to an archive that is ready. -/
theorem exists_written_archive {p : Path} (tree : w.disk.IsTree) (portable : files.Portable)
    (ready : (archive p).Ready w.disk) (keeps : (archive p).Keeps files) :
    ∃ d, (archive p).write files w = (.ok (), w.withDisk d) ∧ Rebuilt p w.disk d ∧
      (archive p).Stores d files.toList := by
  have file : p.meansDir = false := Bool.eq_false_iff.mpr fun meant => by
    cases (ready.meant meant).1
  obtain ⟨d₁, cleared, -, site, rebuilt⟩ := ready.approach.exists_site tree ready.takes ready.ends
    fun meant => (ready.meant meant).2
  have stops : ∀ front, front <+: p.parts → front ≠ p.parts → d₁.at? (d₁.stop p front) = some .dir :=
    fun front above proper => stop_eq rebuilt.here p front ▸ rebuilt.stops front above proper
  obtain ⟨d₂, written, here, found, same⟩ :=
    Site.write (p := p) site ready.takes file stops (Zip.encode files.toList)
  refine ⟨d₂, (bind_of_ok cleared _).trans ?_, rebuilt.further ready.approach here ?_, _, found,
    Archive.holds_of_decode keeps (fun file listed => ?_) (FileMap.distinct_toList files)⟩
  · rw [change_apply, World.withDisk_disk, written]
    rfl
  · rwa [rebuilt.here] at same
  · exact portable.plain _ (FileMap.mem_of_mem_toList listed)

/-- **A tree is written to a home that is ready**, and stored there with nothing else. -/
theorem exists_written (tree : w.disk.IsTree) (portable : files.Portable) (ready : home.Ready w.disk)
    (keeps : home.Keeps files) :
    ∃ w', home.write files w = (.ok (), w') ∧ w'.disk.IsTree ∧ Rebuilt home.path w.disk w'.disk ∧
      home.Stores w'.disk files.toList := by
  have tree' := isTree_write home files tree
  cases home with
  | folder p =>
    obtain ⟨d, ran, rebuilt, stores⟩ := exists_written_folder tree portable ready keeps
    rw [ran] at tree'
    exact ⟨_, ran, tree', rebuilt, stores⟩
  | archive p =>
    obtain ⟨d, ran, rebuilt, stores⟩ := exists_written_archive tree portable ready keeps
    rw [ran] at tree'
    exact ⟨_, ran, tree', rebuilt, stores⟩

/-! ## Trees that are relayed -/

/-- **A tree on its way through some homes**: it is written to each of them and read there again. -/
def relay : List TreeHome → FileMap → Action FileMap
  | [], files => pure files
  | home :: homes, files => do
    home.write files
    relay homes (← home.read)

/-- What is written depends on nothing but the files. -/
theorem write_congr {found : FileMap} (same : found.Equiv files) (home : TreeHome) :
    home.write found = home.write files := by
  have listed := Std.TreeMap.equiv_iff_toList_eq.mp same
  cases home with
  | folder p => rw [write, write, writeFolder, writeFolder, listed]
  | archive p => rw [write, write, listed]

/-- A tree on its way stays as it is. -/
theorem exists_relayed {homes : List TreeHome} {found : FileMap} (tree : w.disk.IsTree)
    (portable : files.Portable) (ready : ∀ home ∈ homes, home.Ready w.disk)
    (keeps : ∀ home ∈ homes, home.Keeps files) (beside : homes.Pairwise (Beside w.disk.here))
    (same : found.Equiv files) :
    ∃ found' w', relay homes found w = (.ok found', w') ∧ found'.Equiv files := by
  induction homes generalizing found w with
  | nil => exact ⟨found, w, rfl, same⟩
  | cons home homes ih =>
    obtain ⟨ready, others⟩ := List.forall_mem_cons.mp ready
    obtain ⟨keep, keeps⟩ := List.forall_mem_cons.mp keeps
    obtain ⟨beside, besides⟩ := List.pairwise_cons.mp beside
    obtain ⟨w₁, written, tree₁, rebuilt, stores⟩ := exists_written tree portable ready keep
    obtain ⟨found₁, read, holds⟩ := stores.read
    have same₁ : found₁.Equiv files := .of_forall_constGet?_eq fun name => Option.ext fun bytes => by
      rw [holds, Std.TreeMap.mem_toList_iff_getElem?_eq_some]
    obtain ⟨found₂, w₂, relayed, same₂⟩ := ih tree₁
      (fun other listed => (others other listed).of_rebuilt ready (beside other listed) rebuilt stores)
      keeps (rebuilt.here ▸ besides) same₁
    refine ⟨found₂, w₂, ?_, same₂⟩
    unfold relay
    rw [write_congr same, bind_of_ok written, bind_of_ok read]
    exact relayed

/-- **Whether a tree comes out of a chain of homes** as it went in. -/
def Preserves (homes : List TreeHome) (files : FileMap) (w : World) : Prop :=
  ∃ found w', relay homes files w = (.ok found, w') ∧ ∀ name : String, found[name]? = files[name]?

theorem preserves_iff {homes : List TreeHome} : Preserves homes files w ↔
    (relay homes files w).1.toOption.map Std.TreeMap.toList = some files.toList := by
  constructor
  · rintro ⟨found, w', relayed, same⟩
    rw [relayed]
    exact congrArg some (Std.TreeMap.equiv_iff_toList_eq.mp (.of_forall_constGet?_eq same))
  · intro same
    rcases relayed : relay homes files w with ⟨e | found, w'⟩ <;> rw [relayed] at same
    · cases same
    · have listed := Std.TreeMap.equiv_iff_toList_eq.mpr (Option.some.inj same)
      exact ⟨found, w', relayed, fun _ => listed.getElem?_eq⟩

instance (homes : List TreeHome) (files : FileMap) (w : World) : Decidable (Preserves homes files w) :=
  decidable_of_iff _ preserves_iff.symm

/-- A folder that preserves a tree takes the paths of its files. -/
theorem keeps_of_preserves {p : Path} (tree : w.disk.IsTree)
    (preserved : Preserves [folder p] files w) : (folder p).Keeps files := by
  obtain ⟨found, w', relayed, -⟩ := preserved
  obtain ⟨_, w₁, written, -⟩ := bind_ran_iff.mp relayed
  intro name listed
  obtain ⟨bytes, held⟩ := Option.isSome_iff_exists.mp (Std.TreeMap.mem_iff_isSome_getElem?.mp listed)
  have listed' := Std.TreeMap.mem_toList_iff_getElem?_eq_some.mpr held
  exact (layout_of_refilled tree written).takes _ (List.mem_map.mpr ⟨_, listed', rfl⟩)

/-- **Any chain of folders and archives preserves a tree**, whatever was there before: if the homes are
ready, keep its files, and stand beside each other. -/
theorem preserves_of_ready {homes : List TreeHome} (tree : w.disk.IsTree) (portable : files.Portable)
    (ready : ∀ home ∈ homes, home.Ready w.disk) (keeps : ∀ home ∈ homes, home.Keeps files)
    (beside : homes.Pairwise (Beside w.disk.here)) : Preserves homes files w := by
  obtain ⟨found, w', relayed, same⟩ := exists_relayed tree portable ready keeps beside .rfl
  exact ⟨found, w', relayed, fun _ => same.getElem?_eq⟩

/-- A disk with a file where a folder is to come, and a directory where an archive is. -/
def demoWorld : World :=
  ⟨((Disk.empty.put ["t"] (.file "old".toUTF8)).put ["t.zip"] .dir).put ["t.zip", "old"]
    (.file "old".toUTF8), [], []⟩

def demoFiles : FileMap := FileMap.ofFiles [("a/b", "x".toUTF8), ("c", "y".toUTF8)]

theorem preserves_of_ready_demo : demoWorld.disk.IsTree ∧ demoFiles.Portable ∧
    Preserves [folder ⟨"/t"⟩, archive ⟨"/t.zip"⟩, folder ⟨"/t"⟩] demoFiles demoWorld := by
  have tree : demoWorld.disk.IsTree := by decide +kernel
  have portable : demoFiles.Portable := by decide +kernel
  have root : demoWorld.disk.isDir ⟨"/"⟩ := by decide +kernel
  have ready : (folder ⟨"/t"⟩).Ready demoWorld.disk :=
    ready_of_isDir (by decide) root (by decide : IsName "t") (by decide +kernel) rfl
  have ready' : (archive ⟨"/t.zip"⟩).Ready demoWorld.disk :=
    ready_of_isDir (by decide) root (by decide : IsName "t.zip") (by decide +kernel) rfl
  have short : ∀ name ∈ demoFiles.keys, Takes ((Path.mk "/t").join name) := by decide +kernel
  have keeps : (folder ⟨"/t"⟩).Keeps demoFiles := fun name listed =>
    short name (Std.TreeMap.mem_keys.mpr listed)
  have keeps' : (archive ⟨"/t.zip"⟩).Keeps demoFiles := by
    unfold Keeps
    decide +kernel
  have beside : Beside demoWorld.disk.here (folder ⟨"/t"⟩) (archive ⟨"/t.zip"⟩) :=
    beside_of_apart (by decide) (by decide) (by decide +kernel) (by decide +kernel)
  have beside' : Beside demoWorld.disk.here (archive ⟨"/t.zip"⟩) (folder ⟨"/t"⟩) :=
    beside_of_apart (by decide) (by decide) (by decide +kernel) (by decide +kernel)
  refine ⟨tree, portable, preserves_of_ready tree portable ?_ ?_ ?_⟩
  · simp [ready, ready']
  · simp [keeps, keeps']
  · have same : Beside demoWorld.disk.here (folder ⟨"/t"⟩) (folder ⟨"/t"⟩) := .inl rfl
    exact .cons (by simp [beside, same]) (.cons (by simp [beside']) (.cons nofun .nil))

/-- A name of 256 bytes. -/
def longName : String := String.ofList (List.replicate 256 'a')

/-- A tree with NUL in a name. -/
def nulFiles : FileMap := FileMap.ofFiles [("a\x00b", "x".toUTF8)]

/-- A disk with a file in a directory. -/
def oldWorld : World :=
  ⟨(Disk.empty.put ["t"] .dir).put ["t", "old"] (.file "old".toUTF8), [], []⟩

theorem toList_longName : longName.toList = List.replicate 256 'a' := String.toList_ofList

theorem eq_of_mem_longName {c : Char} (within : c ∈ longName.toList) : c = 'a' := by
  rw [toList_longName] at within
  exact List.eq_of_mem_replicate within

theorem isName_longName : IsName longName := by
  have other : ∀ {text : String}, text.toList.length ≠ 256 → longName ≠ text := by
    rintro text short rfl
    rw [toList_longName, List.length_replicate] at short
    exact short rfl
  exact ⟨other (by decide), other (by decide), other (by decide), fun slash =>
    absurd (eq_of_mem_longName slash) (by decide)⟩

theorem isPlain_longName : Archive.IsPlain longName := by
  have last : ∀ {mark : String} {c : Char}, mark.toList = [c] → c ≠ 'a' →
      Text.endsWith mark longName = false := by
    intro mark c single ne
    rw [Bool.eq_false_iff, Ne, Text.endsWith_iff single]
    exact fun ends => ne (eq_of_mem_longName (List.mem_of_getLast? ends))
  refine ⟨isName_longName.isNormal, ?_, fun nul => absurd (eq_of_mem_longName nul) (by decide)⟩
  rw [Archive.isDirName, last (by decide : "/".toList = ['/']) (by decide),
    last (by decide : "\\".toList = ['\\']) (by decide)]
  rfl

/-- **What is asked of trees and homes is needed.**  A folder does not take a name of 256 bytes; a name
with NUL is put into an archive, but is not read; along a path that leads back out of a directory which
is not there, what was there stays; and no archive is made in a file of a folder. -/
theorem not_preserves :
    ((FileMap.ofFiles [(longName, "x".toUTF8)]).Portable ∧ (folder ⟨"/t"⟩).Ready Disk.empty ∧
      ¬ Preserves [folder ⟨"/t"⟩] (FileMap.ofFiles [(longName, "x".toUTF8)]) ⟨Disk.empty, [], []⟩) ∧
    ((∀ name ∈ nulFiles.keys, IsNormal name ∧ Archive.isDirName name = false) ∧
      (archive ⟨"/t"⟩).Ready Disk.empty ∧ (archive ⟨"/t"⟩).Keeps nulFiles ∧
      ¬ Preserves [archive ⟨"/t"⟩] nulFiles ⟨Disk.empty, [], []⟩) ∧
    (demoFiles.Portable ∧ (folder ⟨"/gone/../t"⟩).Keeps demoFiles ∧
      ¬ Preserves [folder ⟨"/gone/../t"⟩] demoFiles oldWorld ∧
      ¬ Preserves [folder ⟨"/t"⟩, archive ⟨"/t/c/x.zip"⟩] demoFiles oldWorld) := by
  have ready : ∀ home : TreeHome, home.path = (Path.mk "/").join "t" → home.Ready Disk.empty := by
    intro home at_
    have named : IsName "t" := by decide
    exact ready_of_isDir (by decide) (by decide +kernel) named (by decide +kernel) at_
  refine ⟨⟨FileMap.portable_singleton isPlain_longName, ready _ rfl, fun preserved => ?_⟩,
    ⟨by decide +kernel, ready _ rfl, ?_, by decide +kernel⟩,
    by decide +kernel, fun name listed => ?_, by decide +kernel, by decide +kernel⟩
  · have tree : Disk.empty.IsTree := by decide +kernel
    have takes := keeps_of_preserves tree preserved longName (FileMap.mem_ofFiles.mpr List.mem_cons_self)
    have short := takes.short longName (by rw [parts_join isName_longName]; simp)
    have long : nameLimit < longName.utf8ByteSize := by decide +kernel
    omega
  · unfold Keeps
    decide +kernel
  · have short : ∀ name ∈ demoFiles.keys, Takes ((Path.mk "/gone/../t").join name) := by decide +kernel
    exact short name (Std.TreeMap.mem_keys.mpr listed)

end TreeHome
end Patchwork
