import Patchwork.Proofs.Archive.Faithful
import Patchwork.Proofs.Build.Bundles

/-! The kept list of a bundle's libraries is never stale.  A call for the libraries of a bundle gives
back what was kept for it, is refused, or comes down to keeping the list of that very bundle
(`Query.run_cases`).  So from call to call the file holds nothing or the list of a bundle that was
asked for (`Query.keeps_run`), and while digests tell these bundles apart every call is answered from
its own bundle, in any order and whatever fails in between (`right_of_sharing`). -/

namespace Patchwork.Bundle
open Patchwork.Action Patchwork.Disk
variable {file : Path} {here : Place} {bundle : ByteArray} {bundles : ByteArray → Prop}
  {libraries : List String} {w : World}

/-! ## Lists of libraries -/

/-- A line that lists a library: a digest, its coordinate and a path. -/
def Lists (line coordinate : String) : Prop :=
  ∃ digest path, Text.words line = [digest, coordinate, path]

theorem mapM_eq_ok_iff {ε α β : Type} {f : α → Except ε β} {xs : List α} {ys : List β} :
    xs.mapM f = .ok ys ↔ List.Forall₂ (fun x y => f x = .ok y) xs ys := by
  induction xs generalizing ys with
  | nil =>
    rw [List.forall₂_nil_left_iff]
    exact ⟨fun h => (Except.ok.inj h).symm, fun h => h ▸ rfl⟩
  | cons x xs ih =>
    rw [List.mapM_cons, List.forall₂_cons_left_iff, bind_eq_ok_iff]
    refine exists_congr fun y => ?_
    rw [bind_eq_ok_iff]
    constructor
    · rintro ⟨first, ys, others, ⟨⟩⟩
      exact ⟨ys, first, ih.mp others, rfl⟩
    · rintro ⟨ys, first, others, rfl⟩
      exact ⟨first, ys, ih.mpr others, rfl⟩

theorem threeWords_eq_ok {list line a b c : String} :
    threeWords list line = .ok (a, b, c) ↔ Text.words line = [a, b, c] := by
  unfold threeWords
  split
  · rename_i words
    rw [words]
    simp
  · rename_i other
    exact ⟨nofun, fun words => absurd words (other a b c)⟩

/-- A list is read just where each line that is not blank has three words. -/
theorem parseLibraries_eq_ok {text : String} {found : List BundledLibrary} :
    parseLibraries text = .ok found ↔
      List.Forall₂ (fun line l => Text.words line = [l.sha256, l.coordinate, l.path])
        (listLines text) found := by
  rw [parseLibraries, mapM_eq_ok_iff]
  refine Iff.of_eq (congrArg (List.Forall₂ · _ _) (funext fun line => funext fun l => propext ?_))
  rw [← @threeWords_eq_ok librariesList, bind_eq_ok_iff]
  constructor
  · rintro ⟨_, read, ⟨⟩⟩
    exact read
  · exact fun read => ⟨_, read, rfl⟩

/-- **A list is valid** where each of its lines that is not blank has three words, and it lists the
second ones in order. -/
theorem listed?_eq_some_iff :
    listed? bundle = some libraries ↔
      ∃ text, text? bundle librariesList = some text ∧ List.Forall₂ Lists (listLines text) libraries := by
  unfold listed?
  rw [Option.bind_eq_bind, Option.bind_eq_some_iff]
  refine exists_congr fun text => and_congr_right fun _ => ?_
  rw [Option.bind_eq_bind, Option.bind_eq_some_iff]
  constructor
  · rintro ⟨found, read, ⟨⟩⟩
    rw [List.forall₂_map_right_iff]
    exact (parseLibraries_eq_ok.mp (eq_ok_of_toOption read)).imp fun _ l words => ⟨l.sha256, l.path, words⟩
  · intro lists
    have named : ∃ found : List BundledLibrary, found.map (·.coordinate) = libraries ∧
        List.Forall₂ (fun line l => Text.words line = [l.sha256, l.coordinate, l.path])
          (listLines text) found := by
      generalize listLines text = lines at lists
      induction lists with
      | nil => exact ⟨[], rfl, .nil⟩
      | cons line _ ih =>
        obtain ⟨digest, path, words⟩ := line
        obtain ⟨found, rfl, others⟩ := ih
        exact ⟨⟨digest, _, path⟩ :: found, rfl, .cons words others⟩
    obtain ⟨found, rfl, read⟩ := named
    exact ⟨found, by rw [parseLibraries_eq_ok.mpr read]; rfl, rfl⟩

/-! ## Keeping a list -/

/-- **Keeping a list** leaves its text in the file, or it changes no file. -/
theorem ends_keep (file : Path) (l : LibraryList) (w : World) :
    Ends (keep file l) w
      (fun _ w' => w'.disk.file? (file.place w.disk.here) = some l.toJson.pretty.toUTF8)
      (fun _ w' => w.disk.SameBut (fun _ => False) w'.disk) := by
  have made : w.disk.SameBut (fun _ => False) (makeParent file w).2.disk :=
    (Within.makeParent file).sameBut rfl
  have first : Ends (makeParent file) w (fun _ w' => w.disk.SameBut (fun _ => False) w'.disk)
      (fun _ w' => w.disk.SameBut (fun _ => False) w'.disk) := by
    constructor <;> intro _ _ ran <;> rwa [ran] at made
  refine .bind first fun _ w' made => .change (fun d written => ?_) fun _ _ => made
  obtain ⟨-, -, vacant, rfl⟩ := put_of_write written
  have ne : file.place w'.disk.here ≠ [] := fun top => vacant (top ▸ at?_nil _)
  rw [← made.here, World.withDisk_disk, Disk.file?, at?_put_self _ ne]

/-- **Whether there is room for a file**: its path can name one, no file stands in its way, and no
directory stands at its place or comes to stand there on the way. -/
structure Room (file : Path) (d : Disk) : Prop where
  names : file.NamesFile
  root : d.at? (d.start file) = some .dir
  clear : d.Clear file
  vacant : d.at? (file.place d.here) ≠ some .dir
  off : ∀ front, front <+: file.parts → front ≠ file.parts → d.stop file front ≠ file.place d.here

/-- Where there is room for the file, a list is kept. -/
theorem Room.exists_keep (room : Room file w.disk) (l : LibraryList) :
    ∃ w', keep file l w = (.ok (), w') := by
  obtain ⟨d, made, above⟩ :=
    makeParent_of_clear room.names.parts_ne_nil room.names.toTakes room.root room.clear
  have vacant : d.at? (file.place d.here) ≠ some .dir := by
    rw [above.here]
    rcases above.others (file.place w.disk.here) with same | ⟨-, -, front, on, proper, same⟩
    · rw [same]
      exact room.vacant
    · exact absurd same.symm (room.off front on proper)
  have stops : ∀ front, front <+: file.parts → front ≠ file.parts →
      d.at? (d.stop file front) = some .dir :=
    fun front on proper => stop_eq above.here file front ▸ above.stops front on proper
  have written := write_of_stops room.names.toTakes room.names.file stops vacant l.toJson.pretty.toUTF8
  have wrote := change_apply (.writing file.text) (·.write file l.toJson.pretty.toUTF8) (w.withDisk d)
  rw [World.withDisk_disk, written] at wrote
  exact ⟨_, (bind_of_ok made _).trans wrote⟩

/-- What is found to be kept of a bundle is what it lists, also where no file may stand. -/
theorem exists_kept?_of_file (apart : ToldApart bundles) (among : bundles bundle)
    (keeps : Keeps bundles ((w.disk.file? (file.place w.disk.here)).map .file)) :
    ∃ kept, kept? file (DigestAlgorithm.sha256.compute bundle) w = (.ok kept, w) ∧
      ∀ l ∈ kept, l.sha256 = DigestAlgorithm.sha256.compute bundle ∧
        listed? bundle = some l.libraries := by
  by_cases dir : w.disk.at? (file.place w.disk.here) = some .dir
  · have none : ¬ w.disk.isFile file := by
      intro isFile
      obtain ⟨content, found⟩ := isFile_iff.mp isFile
      obtain ⟨place, led, stands⟩ := locate_of_find found
      obtain rfl := place_of_locate led
      cases dir.symm.trans stands
    refine ⟨Option.none, ?_, fun l kept => by cases kept⟩
    unfold kept?
    rw [bind_of_ok (isFile_apply file w), if_neg none]
    rfl
  · have same : (w.disk.file? (file.place w.disk.here)).map .file =
        w.disk.at? (file.place w.disk.here) := by
      unfold Disk.file?
      rcases stands : w.disk.at? (file.place w.disk.here) with _ | content | _
      · rfl
      · rfl
      · exact absurd stands dir
    obtain ⟨kept, asked, known⟩ := exists_kept? apart among (same ▸ keeps)
    exact ⟨kept, asked, fun l listed => (known l listed).2⟩

/-! ## Calls -/

/-- A call for the libraries of a bundle, and the world in which it is made. -/
structure Query where
  bundle : Path
  world : World

namespace Query

/-- What a call comes to that keeps lists in a file. -/
def run (file : Path) (q : Query) : Outcome LibraryList × World :=
  Bundle.libraries q.bundle file q.world

/-- Whether a call is made for a bundle of some bytes. -/
def Finds (q : Query) (bundle : ByteArray) : Prop := q.world.disk.find q.bundle = .ok (.file bundle)

variable {q : Query}

theorem Finds.unique {other : ByteArray} (found : q.Finds bundle) (found' : q.Finds other) :
    bundle = other := by
  cases found.symm.trans found'
  rfl

/-- **What a call can come to**, where only lists of bundles are kept: it gives back what is kept of its
bundle, it is refused since there is no valid list, or it keeps the list. -/
theorem run_cases (apart : ToldApart bundles) (among : ∀ bundle, q.Finds bundle → bundles bundle)
    (keeps : Keeps bundles ((q.world.disk.file? (file.place q.world.disk.here)).map .file)) :
    (∃ bundle libraries, q.Finds bundle ∧ listed? bundle = some libraries ∧
      q.run file = (.ok ⟨DigestAlgorithm.sha256.compute bundle, libraries⟩, q.world)) ∨
    (∃ e, (∀ bundle, q.Finds bundle → listed? bundle = none) ∧ q.run file = (.error e, q.world)) ∨
    ∃ bundle libraries, q.Finds bundle ∧ listed? bundle = some libraries ∧
      q.run file = (do
        keep file ⟨DigestAlgorithm.sha256.compute bundle, libraries⟩
        return (⟨DigestAlgorithm.sha256.compute bundle, libraries⟩ : LibraryList) : Action _) q.world := by
  unfold run Bundle.libraries
  rcases digested : fileDigest .sha256 q.bundle q.world with ⟨e | digest, w'⟩
  · obtain rfl : w' = q.world := by
      have asks : (fileDigest .sha256 q.bundle).Asks :=
        .bind (.bind (.ask _ _) fun _ => .ask _ _) fun _ => .pure _
      have same := asks q.world
      rwa [digested] at same
    refine .inr (.inl ⟨e, fun bundle found => ?_, bind_of_error digested _⟩)
    have done := Download.fileDigest_of_find found .sha256
    cases digested.symm.trans done
  obtain ⟨bundle, found, rfl, rfl⟩ := exists_of_fileDigest digested
  obtain ⟨kept, asked, known⟩ := exists_kept?_of_file apart (among bundle found) keeps
  rw [bind_of_ok digested, bind_of_ok asked]
  rcases kept with _ | l
  · have listing := toOption_list found (DigestAlgorithm.sha256.compute bundle)
    rcases listed : listed? bundle with _ | libraries <;> rw [listed] at listing
    · rcases refused : list q.bundle (DigestAlgorithm.sha256.compute bundle) q.world with ⟨e | l, w'⟩
      · obtain rfl : w' = q.world := by
          have same := asks_list q.bundle (DigestAlgorithm.sha256.compute bundle) q.world
          rwa [refused] at same
        refine .inr (.inl ⟨e, fun other found' => ?_, bind_of_error refused _⟩)
        obtain rfl := Finds.unique found found'
        exact listed
      · rw [refused] at listing
        cases listing
    · exact .inr (.inr ⟨bundle, libraries, found, listed, bind_of_ok ((asks_list _ _).ran listing) _⟩)
  · obtain ⟨digest, listed⟩ := known l rfl
    exact .inl ⟨bundle, l.libraries, found, listed, by rw [← digest]; rfl⟩

/-- **The answer that a call owes.**  What it returns carries the digest of the bundle it is made for and
lists its libraries.  For a bundle with a valid list that is returned, unless there is no room for the
file and keeping the list fails.  A call that fails changes no file. -/
structure Right (file : Path) (q : Query) : Prop where
  returned : ∀ l, (q.run file).1 = .ok l →
    ∃ bundle, q.Finds bundle ∧ listed? bundle = some l.libraries ∧
      l.sha256 = DigestAlgorithm.sha256.compute bundle
  answered : ∀ bundle libraries, q.Finds bundle → listed? bundle = some libraries →
    (q.run file).1 = .ok ⟨DigestAlgorithm.sha256.compute bundle, libraries⟩ ∨
      ¬ Room file q.world.disk ∧ ∃ e, (q.run file).1 = .error e ∧
        (keep file ⟨DigestAlgorithm.sha256.compute bundle, libraries⟩ q.world).1 = .error e
  failed : ∀ e, (q.run file).1 = .error e →
    q.world.disk.SameBut (fun _ => False) (q.run file).2.disk

/-- The list of the bundle is the answer that a call owes. -/
theorem Right.of_ok (found : q.Finds bundle) (listed : listed? bundle = some libraries)
    (ran : (q.run file).1 = .ok ⟨DigestAlgorithm.sha256.compute bundle, libraries⟩) : Right file q := by
  constructor <;> rw [ran]
  · rintro l ⟨⟩
    exact ⟨bundle, found, listed, rfl⟩
  · intro other others found' listed'
    obtain rfl := found.unique found'
    obtain rfl := Option.some.inj (listed.symm.trans listed')
    exact .inl rfl
  · nofun

/-- **A call is answered right** where only lists of bundles are kept. -/
theorem right_of_keeps (apart : ToldApart bundles) (among : ∀ bundle, q.Finds bundle → bundles bundle)
    (keeps : Keeps bundles ((q.world.disk.file? (file.place q.world.disk.here)).map .file)) :
    Right file q := by
  rcases run_cases apart among keeps with ⟨bundle, libraries, found, listed, ran⟩ |
    ⟨e, unlisted, ran⟩ | ⟨bundle, libraries, found, listed, ran⟩
  · exact .of_ok found listed (congrArg Prod.fst ran)
  · constructor <;> rw [ran]
    · nofun
    · intro bundle libraries found listed
      cases (unlisted bundle found).symm.trans listed
    · exact fun _ _ => .refl _ _
  · rcases kept : keep file ⟨DigestAlgorithm.sha256.compute bundle, libraries⟩ q.world with ⟨e | _, w'⟩
    · rw [bind_of_error kept] at ran
      constructor <;> rw [ran]
      · nofun
      · intro other others found' listed'
        obtain rfl := found.unique found'
        obtain rfl := Option.some.inj (listed.symm.trans listed')
        refine .inr ⟨fun room => ?_, e, rfl, by rw [kept]⟩
        obtain ⟨_, done⟩ := room.exists_keep ⟨DigestAlgorithm.sha256.compute bundle, libraries⟩
        cases kept.symm.trans done
      · exact fun _ _ => (ends_keep file _ _).error kept
    · rw [bind_of_ok kept] at ran
      exact .of_ok found listed (congrArg Prod.fst ran)

/-- **A call leaves only lists of bundles** where only such are kept. -/
theorem keeps_run (apart : ToldApart bundles) (among : ∀ bundle, q.Finds bundle → bundles bundle)
    (keeps : Keeps bundles ((q.world.disk.file? (file.place q.world.disk.here)).map .file)) :
    Keeps bundles (((q.run file).2.disk.file? (file.place q.world.disk.here)).map .file) := by
  rcases run_cases apart among keeps with ⟨_, _, -, -, ran⟩ | ⟨_, -, ran⟩ |
    ⟨bundle, libraries, found, listed, ran⟩
  · rwa [ran]
  · rwa [ran]
  · rcases kept : keep file ⟨DigestAlgorithm.sha256.compute bundle, libraries⟩ q.world with ⟨e | _, w'⟩
    · have same := (ends_keep file _ _).error kept
      rw [bind_of_error kept] at ran
      rwa [ran, same.file? _ not_false]
    · have text := (ends_keep file _ _).ok kept
      rw [bind_of_ok kept] at ran
      have left : (q.run file).2 = w' := congrArg Prod.snd ran
      rw [left, text]
      rintro _ ⟨⟩
      exact ⟨bundle, libraries, among bundle found, listed, rfl⟩

end Query

/-! ## Calls that share a file -/

/-- **Calls that share a file** and start where it holds something: each finds there what the call
before it left.  All else may have changed in between. -/
inductive Sharing (file : Path) (here : Place) : Option ByteArray → List Query → Prop
  | nil {kept : Option ByteArray} : Sharing file here kept []
  | cons {q : Query} {queries : List Query} (at_ : q.world.disk.here = here)
      (next : Sharing file here ((q.run file).2.disk.file? (file.place here)) queries) :
      Sharing file here (q.world.disk.file? (file.place here)) (q :: queries)

theorem right_of_sharing {queries : List Query} {kept : Option ByteArray}
    (apart : ToldApart bundles) (among : ∀ q ∈ queries, ∀ bundle, q.Finds bundle → bundles bundle)
    (keeps : Keeps bundles (kept.map .file)) (sharing : Sharing file here kept queries) :
    ∀ q ∈ queries, q.Right file := by
  induction sharing with
  | nil => exact List.forall_mem_nil _
  | @cons q queries at_ next ih =>
    obtain ⟨mine, others⟩ := List.forall_mem_cons.mp among
    subst at_
    exact List.forall_mem_cons.mpr
      ⟨Query.right_of_keeps apart mine keeps, ih others (Query.keeps_run apart mine keeps)⟩

/-- **A kept list is never stale.**  Along calls that share a file, starting where there is none, every
call is answered right: from its own bundle, whatever calls for other bundles came before it and
whichever of them failed, as long as digests tell the bundles apart. -/
theorem libraries_never_stale {queries : List Query} (sharing : Sharing file here none queries)
    (apart : ToldApart fun bundle => ∃ q ∈ queries, q.Finds bundle) :
    ∀ q ∈ queries, q.Right file :=
  right_of_sharing apart (fun q among _ found => ⟨q, among, found⟩) Keeps.none sharing

/-! ## Three calls in a row -/

/-- A bundle with a list of one library. -/
def demoBundle : ByteArray := Zip.encode [(librariesList, "00 com.example:lib:1.0 lib.jar\n".toUTF8)]

/-- A disk with the bundle. -/
def demoWorld : World := ⟨Disk.empty.put ["bundle.jar"] (.file demoBundle), [], []⟩

/-- Where lists are kept. -/
def demoFile : Path := ⟨"/cache/libraries.json"⟩

/-- A call for a bundle that is missing. -/
def demoMissing : Query := ⟨⟨"/missing.jar"⟩, demoWorld⟩

/-- A call for the bundle on the disk after that. -/
def demoFirst : Query := ⟨⟨"/bundle.jar"⟩, (demoMissing.run demoFile).2⟩

/-- The same call again. -/
def demoSecond : Query := ⟨⟨"/bundle.jar"⟩, (demoFirst.run demoFile).2⟩

theorem finds_demo : ∀ q ∈ [demoMissing, demoFirst, demoSecond], q.world.disk.here = [] ∧
    (q.world.disk.find q.bundle).toOption ∈ [none, some (.file demoBundle)] := by
  decide +kernel

theorem sharing_demo : Sharing demoFile [] none [demoMissing, demoFirst, demoSecond] := by
  have free : demoWorld.disk.file? (demoFile.place []) = none := by decide +kernel
  obtain ⟨first, others⟩ := List.forall_mem_cons.mp finds_demo
  obtain ⟨second, others⟩ := List.forall_mem_cons.mp others
  obtain ⟨third, -⟩ := List.forall_mem_cons.mp others
  exact free ▸ .cons first.1 (.cons second.1 (.cons third.1 .nil))

/-- A call that fails, one that reads the list in the bundle, and one that finds it kept. -/
theorem libraries_never_stale_demo : demoMissing.Right demoFile ∧ demoFirst.Right demoFile ∧
    demoSecond.Right demoFile := by
  have only : ∀ q ∈ [demoMissing, demoFirst, demoSecond], ∀ bundle,
      q.Finds bundle → bundle = demoBundle := by
    intro q among bundle found
    have found' := (finds_demo q among).2
    rw [found] at found'
    simpa [Except.toOption] using found'
  have apart : ToldApart fun bundle =>
      ∃ q ∈ [demoMissing, demoFirst, demoSecond], q.Finds bundle := by
    rintro a b ⟨q, among, found⟩ ⟨q', among', found'⟩ -
    rw [only q among a found, only q' among' b found']
  obtain ⟨first, others⟩ := List.forall_mem_cons.mp (libraries_never_stale sharing_demo apart)
  obtain ⟨second, others⟩ := List.forall_mem_cons.mp others
  exact ⟨first, second, List.forall_mem_singleton.mp others⟩

end Patchwork.Bundle
