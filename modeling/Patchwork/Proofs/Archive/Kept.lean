import Patchwork.Archive.Tree
import Patchwork.Proofs.Archive.Faithful
import Patchwork.Proofs.Disk.Stored

/-! Trees that are replaced.  A file that is written where there is room is found there
(`Disk.find_of_write`, `Disk.replaced_of_write`), and the archive of some files holds these files
(`Archive.holds_of_decode`).  So a tree that is written to its home, a folder or an archive, is there
afterwards with nothing else (`TreeHome.stores_write`); it stays there whatever happens elsewhere
(`TreeHome.Stores.of_quiet`), and it is what is read from there (`TreeHome.Stores.read`). -/

namespace Patchwork

namespace Disk
open Path
variable {d d' : Disk} {p : Path} {bytes : ByteArray} {w w' : World}

/-! ## Files that are written afresh -/

/-- **A file that was written** is what the path leads to. -/
theorem find_of_write (written : d.write p bytes = .ok d') : d'.find p = .ok (.file bytes) := by
  obtain ⟨led, file, vacant, rfl⟩ := put_of_write written
  have top : p.place d.here ≠ [] := fun top => vacant (top ▸ at?_nil d)
  unfold find
  rw [locate_put led top fun dir => absurd dir vacant, ok_bind, at?_put_self d top]
  exact if_neg (by simp [file])

/-- A file stays where another one is written. -/
theorem find_of_write_other {q : Path} {content : ByteArray} (written : d.write q content = .ok d')
    (apart : q.place d.here ≠ p.place d.here) (found : d.find p = .ok (.file bytes)) :
    d'.find p = .ok (.file bytes) := by
  obtain ⟨-, -, vacant, rfl⟩ := put_of_write written
  obtain ⟨takes, file, stops, stands⟩ := find_file_iff.mp found
  refine find_file_iff.mpr ⟨takes, file, fun front above proper => ?_, ?_⟩
  · have dir := stops front above proper
    have off : d.stop p front ≠ q.place d.here := fun same => vacant (same ▸ dir)
    exact (at?_put d _ _ off).trans dir
  · exact (at?_put d _ _ apart.symm).trans stands

/-- **A disk on which a file came in the place of what was there**, and nothing outside changed but
for directories on the way. -/
structure Replaced (p : Path) (bytes : ByteArray) (d d' : Disk) : Prop where
  tree : d'.IsTree
  quiet : Quiet (p.place d.here) d d'
  found : d'.find p = .ok (.file bytes)

/-- Where there is room, a file that is written comes in the place of what was there. -/
theorem replaced_of_write {step : Step} (roomy : Roomy p d w.disk)
    (ran : Action.change step (·.write p bytes) w = (.ok (), w')) : Replaced p bytes d w'.disk := by
  obtain ⟨d', written, rfl⟩ := Action.change_ran_iff.mp ran
  refine ⟨roomy.tree.write written, roomy.quiet.trans ?_, find_of_write written⟩
  obtain ⟨-, -, -, rfl⟩ := put_of_write written
  rw [roomy.quiet.here]
  exact ⟨rfl, fun other out => .inl (at?_put _ _ _ fun same => out (same ▸ List.prefix_rfl))⟩

/-- What happens elsewhere leaves a file as it is. -/
theorem find_of_quiet {place : Place} (straight : ".." ∉ p.parts) (quiet : Quiet place d d')
    (out : ¬ place <+: p.place d.here) (found : d.find p = .ok (.file bytes)) :
    d'.find p = .ok (.file bytes) := by
  refine find_of_grown quiet.grown (fun front above _ other same below => ?_) ?_ found
  · exact out (same ▸ below.trans (stop_prefix_place straight above))
  · exact fun other same below => out (same ▸ below)

end Disk

/-! ## What an archive holds -/

namespace Archive
open Path

/-- **Names that folders and archives keep alike**: they go down by names alone and name a file. -/
structure IsPlain (name : String) : Prop where
  normal : IsNormal name
  file : isDirName name = false
  nulless : '\x00' ∉ name.toList

instance (name : String) : Decidable (IsPlain name) :=
  decidable_of_iff (IsNormal name ∧ isDirName name = false ∧ '\x00' ∉ name.toList)
    ⟨fun ⟨normal, file, nulless⟩ => ⟨normal, file, nulless⟩, fun ⟨normal, file, nulless⟩ =>
      ⟨normal, file, nulless⟩⟩

theorem staysBelow_of_straight {names : List String} (straight : ".." ∉ names) (depth : Nat) :
    staysBelow depth names := by
  induction names generalizing depth with
  | nil => rfl
  | cons name names ih =>
    obtain ⟨named, straight⟩ := List.ne_and_not_mem_of_not_mem_cons straight
    rw [staysBelow.eq_def]
    dsimp only
    rw [if_neg named.symm]
    split
    · exact ih straight depth
    · exact ih straight (depth + 1)

/-- A plain name names a file of an archive. -/
theorem IsPlain.isFileName {name : String} (plain : IsPlain name) : isFileName name := by
  have parts : ".." ∉ (Path.mk name).parts := fun listed =>
    (plain.normal _ (mem_pieces_of_mem_parts listed)).ne_points rfl
  have relative : (Path.mk name).isAbsolute = false := Bool.eq_false_iff.mpr plain.normal.relative
  simp [Archive.isFileName, isContained, plain.file, plain.nulless, relative,
    staysBelow_of_straight parts]

/-- **An archive that holds given files** and no others. -/
def Holds (bytes : ByteArray) (files : List (String × ByteArray)) : Prop :=
  ∃ records tree, Zip.records? bytes = some records ∧
    (∀ archive, filesOf archive bytes records = .ok tree) ∧
    ∀ path content, tree[path]? = some content ↔ (path, content) ∈ files

/-- **An archive that gives back some files** holds them, if their names are plain. -/
theorem holds_of_decode {bytes : ByteArray} {files : List (String × ByteArray)}
    (decoded : Zip.decode? bytes = some files) (plain : ∀ file ∈ files, IsPlain file.1)
    (distinct : files.Pairwise fun a b => a.1 ≠ b.1) : Holds bytes files := by
  obtain ⟨records, told, listed⟩ := filesOf_of_decode decoded
  have all : files.filter (fun file => isFileName file.1) = files :=
    List.filter_eq_self.mpr fun file held => (plain file held).isFileName
  rw [all] at listed
  exact ⟨records, _, told, listed, fun path content => FileMap.getElem?_ofFiles distinct⟩

/-- A file is opened as an archive where its directory can be read. -/
theorem opened_of_find {p : Path} {w : World} {bytes : ByteArray}
    (found : w.disk.find p = .ok (.file bytes)) :
    opened p w = ((Zip.records? bytes).elim
      (.error (.during (.openingArchive p.text) (.fault .damagedArchive)))
      fun records => .ok (bytes, records), w) := by
  unfold opened
  rw [Action.bind_of_ok (Action.ask_of_ok found)]
  dsimp only
  cases Zip.records? bytes <;> rfl

/-- What is read from an archive is what it holds. -/
theorem Holds.read {p : Path} {w : World} {bytes : ByteArray} {files : List (String × ByteArray)}
    (holds : Holds bytes files) (found : w.disk.find p = .ok (.file bytes)) :
    ∃ tree, read p w = (.ok tree, w) ∧
      ∀ path content, tree[path]? = some content ↔ (path, content) ∈ files := by
  obtain ⟨records, tree, read, listed, mem_iff⟩ := holds
  refine ⟨tree, ?_, mem_iff⟩
  have opened := opened_of_find found
  rw [read, Option.elim_some] at opened
  unfold Archive.read
  rw [Action.bind_of_ok opened]
  dsimp only
  rw [listed]
  rfl

/-- Which archive is named in messages makes no difference to what is read. -/
theorem fileOf?_eq_ok {archive : String} {bytes : ByteArray} {index : Nat} {r : Zip.Record}
    {found : Option Zip.Entry} (read : fileOf? archive bytes index r = .ok found) (other : String) :
    fileOf? other bytes index r = .ok found := by
  have step : ∀ {α : Type} {named : Step} {x : Except ArchiveFault α} {a : α},
      outcomeOf named x = .ok a → x = .ok a := by
    intro α named x a ended
    cases x with
    | error => cases ended
    | ok => exact congrArg Except.ok (Except.ok.inj ended)
  obtain ⟨packed, there, read⟩ := bind_eq_ok_iff.mp read
  refine bind_eq_ok_iff.mpr ⟨packed, congrArg (outcomeOf _) (step there), ?_⟩
  split at read
  · rename_i named
    obtain ⟨content, whole, read⟩ := bind_eq_ok_iff.mp read
    rw [if_pos named]
    exact bind_eq_ok_iff.mpr ⟨content, congrArg (outcomeOf _) (step whole), read⟩
  · rename_i unnamed
    rwa [if_neg unnamed]

theorem filesOf_eq_ok {archive : String} {bytes : ByteArray} {records : List Zip.Record}
    {tree : FileMap} (read : filesOf archive bytes records = .ok tree) (other : String) :
    filesOf other bytes records = .ok tree := by
  obtain ⟨files, mapped, read⟩ := bind_eq_ok_iff.mp read
  refine bind_eq_ok_iff.mpr ⟨files, mapM_eq_ok_of mapped fun _ _ _ found => ?_, read⟩
  exact fileOf?_eq_ok found other

theorem asks_opened (p : Path) : (opened p).Asks := by
  refine .bind (.ask _ _) fun node => ?_
  split
  · split
    · exact .pure _
    · exact .throw _
  · exact .throw _

theorem asks_read (p : Path) : (read p).Asks := .bind (asks_opened p) fun _ => .ofOutcome _

/-- What was opened as an archive is a file whose directory can be read. -/
theorem exists_of_opened {p : Path} {w w' : World} {found : ByteArray × List Zip.Record}
    (ran : opened p w = (.ok found, w')) :
    w.disk.find p = .ok (.file found.1) ∧ Zip.records? found.1 = some found.2 := by
  unfold opened at ran
  obtain ⟨node, w₁, asked, ran⟩ := Action.bind_ran_iff.mp ran
  rw [Action.ask_apply] at asked
  rcases stands : w.disk.find p with e | node' <;> rw [stands] at asked <;> cases asked
  cases node with
  | dir => cases ran
  | file bytes =>
    dsimp only at ran
    rcases told : Zip.records? bytes with _ | records <;> rw [told] at ran <;> cases ran
    exact ⟨rfl, told⟩

/-- An archive that can be read holds what is read from it. -/
theorem holds_of_read {p : Path} {w w' : World} {tree : FileMap}
    (ran : read p w = (.ok tree, w')) :
    ∃ bytes, w.disk.find p = .ok (.file bytes) ∧ Holds bytes tree.toList := by
  obtain ⟨⟨bytes, records⟩, w₁, opened, ran⟩ := Action.bind_ran_iff.mp ran
  obtain ⟨found, told⟩ := exists_of_opened opened
  dsimp only at ran
  rw [Action.ofOutcome_apply] at ran
  have listed : filesOf p.text bytes records = .ok tree := congrArg Prod.fst ran
  exact ⟨bytes, found, records, tree, told, filesOf_eq_ok listed, fun _ _ =>
    Std.TreeMap.mem_toList_iff_getElem?_eq_some.symm⟩

end Archive

/-! ## Homes of trees -/

namespace TreeHome
open Path Disk
variable {d d' : Disk} {home : TreeHome} {p : Path} {files : List (String × ByteArray)}
  {w w' : World}

theorem path_of (d : Disk) (p : Path) : (of d p).path = p := by
  unfold of
  split
  · rfl
  · dsimp only
    split <;> rfl

theorem asks_read (home : TreeHome) : home.read.Asks := by
  cases home with
  | folder p => exact .bind (.filesBelow p) fun _ => .pure _
  | archive p => exact Archive.asks_read p

/-- **A tree that is stored at its home** with nothing else: as a folder that holds its files, or as
an archive that does. -/
def Stores (d : Disk) (files : List (String × ByteArray)) : TreeHome → Prop
  | folder p => d.Holds p (located files)
  | archive p => ∃ bytes, d.find p = .ok (.file bytes) ∧ Archive.Holds bytes files

/-- What stands at its home shows how a tree is kept. -/
theorem Stores.of_path (h : home.Stores d files) : of d home.path = home := by
  cases home with
  | folder p => exact if_pos (isDir_iff.mpr (find_of_locate h.led h.dir))
  | archive p =>
    obtain ⟨bytes, found, -⟩ := h
    have file : d.isFile p := by simp [isFile, found]
    have plain : ¬ d.isDir p := by simp [isDir, found]
    exact (if_neg plain).trans (if_pos (.inr file))

/-- What happens elsewhere leaves a stored tree as it is. -/
theorem Stores.of_quiet {place : Place} (h : home.Stores d files) (straight : ".." ∉ home.path.parts)
    (quiet : Quiet place d d') (out : ¬ place <+: home.path.place d.here)
    (off : ¬ home.path.place d.here <+: place) : home.Stores d' files := by
  cases home with
  | folder p => exact Holds.of_quiet h straight quiet out off
  | archive p =>
    obtain ⟨bytes, found, holds⟩ := h
    exact ⟨bytes, find_of_quiet straight quiet out found, holds⟩

/-- **What is read from its home** is the tree that is stored there. -/
theorem Stores.read (h : home.Stores w.disk files) : ∃ tree, home.read w = (.ok tree, w) ∧
    ∀ path content, tree[path]? = some content ↔ (path, content) ∈ files := by
  cases home with
  | folder p => exact Disk.Holds.readFolder h
  | archive p =>
    obtain ⟨bytes, found, holds⟩ := h
    exact holds.read found

/-! ## Trees that are written -/

/-- **A disk on which a tree was stored at its home**, and nothing outside changed but for directories
on the way. -/
structure StoredAt (home : TreeHome) (files : List (String × ByteArray)) (d d' : Disk) : Prop where
  tree : d'.IsTree
  quiet : Quiet (home.path.place d.here) d d'
  stores : home.Stores d' files

/-- **Whether a tree can be kept at its home**: its names are plain, and what an archive has to tell of
the files fits into it. -/
structure Keepable (home : TreeHome) (files : FileMap) : Prop where
  plain : ∀ name ∈ files, Archive.IsPlain name
  fits : home = .archive home.path → Zip.Fits files.toList

/-- **A tree that is written** is stored at its home. -/
theorem storedAt_write {files : FileMap} (tree : w.disk.IsTree) (straight : ".." ∉ home.path.parts)
    (ne : home.path.text ≠ "") (keepable : home.Keepable files)
    (ran : home.write files w = (.ok (), w')) : home.StoredAt files.toList w.disk w'.disk := by
  have distinct := FileMap.distinct_toList files
  have plain : ∀ file ∈ files.toList, Archive.IsPlain file.1 := fun file listed =>
    keepable.plain _ (FileMap.mem_of_mem_toList listed)
  cases home with
  | folder p =>
    have normal : ∀ file ∈ files.toList, IsNormal file.1 := fun file listed =>
      (plain file listed).normal
    have stored := stored_afresh tree straight ne normal distinct ran
    exact ⟨stored.tree, stored.quiet, stored.toHolds⟩
  | archive p =>
    obtain ⟨_, w₁, cleared, ran⟩ := Action.bind_ran_iff.mp ran
    have replaced := replaced_of_write (roomy_of_clear tree straight ne cleared) ran
    have holds := Archive.holds_of_decode (Zip.decode?_encode (keepable.fits rfl)) plain distinct
    exact ⟨replaced.tree, replaced.quiet, _, replaced.found, holds⟩

end TreeHome
end Patchwork
