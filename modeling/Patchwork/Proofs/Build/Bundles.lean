import Patchwork.Proofs.Build.Stages
import Patchwork.Proofs.Patch.Twins
import Patchwork.Proofs.Toolchain.Described

/-! The lists of a bundle.  Which libraries a bundle lists is decided by its bytes (`Bundle.listed?`).
A list that is kept in a file is read back from there (`LibraryList.parse?_pretty`), and while digests
tell bundles apart it is taken for no other bundle than its own (`Bundle.exists_kept?`).  So the
libraries of a bundle are the same in twins, whatever lists were kept before
(`Bundle.agrees_libraries`). -/

namespace Patchwork
open Patchwork.Action Patchwork.Disk

/-- **A list is read back from its text.** -/
theorem LibraryList.parse?_pretty (l : LibraryList) : parse? l.toJson.pretty = some l := by
  have textual : l.toJson.Textual := by
    refine .obj fun m listed => ?_
    simp only [List.mem_cons, List.not_mem_nil, or_false] at listed
    rcases listed with rfl | rfl
    · exact .str _
    · exact .strs _
  have fields : l.toJson.fields? ["sha256", "libraries"] =
      some [some (.str l.sha256), some (.strs l.libraries)] := rfl
  have libraries : Json.required? (Json.list? Json.text?) (some (.strs l.libraries)) =
      some l.libraries := Json.list?_strs _
  rw [parse?, Json.parse?_pretty textual, Option.bind_eq_bind, Option.bind_some, ofJson?, fields]
  dsimp only
  rw [libraries]
  rfl

/-- Behind a clean path, what leads inward is clean. -/
theorem Disk.Clean.join {here : Place} {stale : Place → Prop} {p : Path} {name : String}
    (clean : Clean here stale p) (ne : p.text ≠ "") (inward : Path.Inward name) :
    Clean here stale (p.join name) := by
  refine ⟨clean.fresh.join inward.relative ne fun front above => clean.below _ ?_, fun place below =>
    clean.below place ((inward.place_prefix p here).trans below)⟩
  exact prefix_foldl_step (fun listed => inward.straight
    (Path.mem_pieces_of_mem_parts (above.subset listed))) _

namespace Bundle
variable {p file : Path} {bytes bundle : ByteArray} {bundles : ByteArray → Prop}
  {libraries : List String} {w w' : World}

/-! ## What a bundle lists -/

/-- The text that a bundle holds under a name. -/
def text? (bundle : ByteArray) (name : String) : Option String := do
  let records ← Zip.records? bundle
  let record ← Archive.record? records name
  let content ← (record.read bundle).toOption
  String.fromUTF8? content

/-- The coordinates of the libraries that a bundle lists. -/
def listed? (bundle : ByteArray) : Option (List String) := do
  let text ← text? bundle librariesList
  let found ← (parseLibraries text).toOption
  return found.map BundledLibrary.coordinate

theorem asks_list (p : Path) (digest : String) : (list p digest).Asks := by
  have read : (readList p librariesList).Asks := by
    refine .bind ?_ fun member => ?_
    · refine .bind (Archive.asks_opened p) fun _ => ?_
      dsimp only
      split
      · exact .pure _
      · exact .bind (.ofOutcome _) fun _ => .pure _
    · split
      · exact .throw _
      · split
        · exact .pure _
        · exact .throw _
  exact .bind read fun _ => .bind (.ofOutcome _) fun _ => .pure _

theorem toOption_readList (found : w.disk.find p = .ok (.file bytes)) (name : String) :
    (readList p name w).1.toOption = text? bytes name := by
  have opened := Archive.opened_of_find found
  unfold readList text? Archive.readMember
  rcases told : Zip.records? bytes with _ | records <;> rw [told] at opened
  · rw [bind_of_error (bind_of_error opened _)]
    rfl
  rw [bind_apply, bind_of_ok opened]
  dsimp only [Option.bind_eq_bind, Option.bind_some]
  rcases known : Archive.record? records name with _ | record
  · rfl
  dsimp only [Option.bind_some]
  rw [bind_apply, ofOutcome_apply]
  rcases record.read bytes with e | content
  · rfl
  have returned : (pure (some content) : Action (Option ByteArray)) w = (.ok (some content), w) := rfl
  dsimp only [Archive.outcomeOf]
  rw [returned, Except.toOption, Option.bind_some]
  dsimp only
  cases String.fromUTF8? content <;> rfl

theorem toOption_list (found : w.disk.find p = .ok (.file bytes)) (digest : String) :
    (list p digest w).1.toOption = (listed? bytes).map (LibraryList.mk digest) := by
  have read := toOption_readList found librariesList
  unfold list listed?
  rw [bind_apply, ← read]
  rcases readList p librariesList w with ⟨e | text, w₁⟩
  · rfl
  dsimp only [Except.toOption, Option.bind_eq_bind, Option.bind_some]
  rw [bind_apply, ofOutcome_apply]
  cases parseLibraries text <;> rfl

/-! ## What is kept of bundles -/

/-- Whether a digest tells some bundles apart. -/
def ToldApart (bundles : ByteArray → Prop) : Prop :=
  ∀ a b, bundles a → bundles b →
    DigestAlgorithm.sha256.compute a = DigestAlgorithm.sha256.compute b → a = b

/-- **Whether there is nothing, or the list that was kept of one of some bundles.** -/
def Keeps (bundles : ByteArray → Prop) (node : Option Node) : Prop :=
  ∀ found, node = some found → ∃ bundle libraries, bundles bundle ∧ listed? bundle = some libraries ∧
    found = .file (LibraryList.mk (DigestAlgorithm.sha256.compute bundle)
      libraries).toJson.pretty.toUTF8

theorem Keeps.none : Keeps bundles none := fun _ none => by cases none

theorem Keeps.ne_dir {node : Option Node} (keeps : Keeps bundles node) : node ≠ some .dir := by
  intro dir
  obtain ⟨_, _, -, -, same⟩ := keeps _ dir
  cases same

/-- **What is found to be kept of a bundle is what it lists**, while digests tell the bundles apart. -/
theorem exists_kept? (apart : ToldApart bundles) (among : bundles bundle)
    (keeps : Keeps bundles (w.disk.at? (file.place w.disk.here))) :
    ∃ kept, kept? file (DigestAlgorithm.sha256.compute bundle) w = (.ok kept, w) ∧
      ∀ l ∈ kept, w.disk.isFile file ∧ l.sha256 = DigestAlgorithm.sha256.compute bundle ∧
        listed? bundle = some l.libraries := by
  unfold kept?
  rw [bind_of_ok (isFile_apply file w)]
  by_cases isFile : w.disk.isFile file
  case neg =>
    rw [if_neg isFile]
    exact ⟨none, rfl, fun l none => by cases none⟩
  rw [if_pos isFile]
  obtain ⟨content, found⟩ := isFile_iff.mp isFile
  obtain ⟨place, led, stands⟩ := locate_of_find found
  obtain rfl := place_of_locate led
  obtain ⟨other, libraries, among', listed, same⟩ := keeps _ stands
  cases same
  have read : w.disk.readText file = .ok
      (LibraryList.mk (DigestAlgorithm.sha256.compute other) libraries).toJson.pretty := by
    have decoded : String.fromUTF8? (LibraryList.mk (DigestAlgorithm.sha256.compute other)
        libraries).toJson.pretty.toUTF8 = some _ := FileMap.text?_toUTF8 _
    unfold Disk.readText
    rw [read_eq_ok_iff.mpr found, ok_bind, decoded]
    rfl
  refine ⟨_, bind_of_ok (ask_of_ok read) _, fun l kept => ?_⟩
  rw [LibraryList.parse?_pretty, Option.mem_filter_iff] at kept
  obtain ⟨taken, same⟩ := kept
  obtain rfl := Option.some.inj taken
  dsimp only at same
  rw [Text.sameIgnoringCase, beq_iff_eq, DigestAlgorithm.toLower_compute,
    DigestAlgorithm.toLower_compute] at same
  obtain rfl := apart _ _ among' among same
  exact ⟨isFile, rfl, listed⟩

/-! ## The libraries of a bundle -/

/-- **A world in which a list may have come to be kept**: nothing else has changed. -/
structure MayKeep (bundles : ByteArray → Prop) (file : Path) (w w' : World) : Prop where
  here : w'.disk.here = w.disk.here
  tree : w'.disk.IsTree
  same : ∀ place, place ≠ file.place w.disk.here → w'.disk.at? place = w.disk.at? place
  keeps : Keeps bundles (w'.disk.at? (file.place w.disk.here))

theorem mayKeep_of_write {d : Disk} (tree : w.disk.IsTree) (among : bundles bundle)
    (listed : listed? bundle = some libraries) (written : w.disk.write file (LibraryList.mk
      (DigestAlgorithm.sha256.compute bundle) libraries).toJson.pretty.toUTF8 = .ok d) :
    MayKeep bundles file w (w.withDisk d) := by
  have tree' := tree.write written
  obtain ⟨-, -, vacant, rfl⟩ := put_of_write written
  have ne : file.place w.disk.here ≠ [] := fun top => vacant (top ▸ at?_nil _)
  refine ⟨rfl, tree', fun place apart => at?_put _ _ _ apart, ?_⟩
  rw [World.withDisk_disk, at?_put_self _ ne]
  exact fun found same => ⟨bundle, libraries, among, listed, (Option.some.inj same).symm⟩

/-- Where the way to the file is open, a list is written to it. -/
theorem exists_write (tree : w.disk.IsTree) (plain : file.meansDir = false) {place : Place}
    (led : w.disk.locate file = .ok place)
    (vacant : w.disk.at? (file.place w.disk.here) ≠ some .dir)
    (among : bundles bundle) (listed : listed? bundle = some libraries) :
    ∃ w', writeFile file (LibraryList.mk (DigestAlgorithm.sha256.compute bundle)
        libraries).toJson.pretty.toUTF8 w = (.ok (), w') ∧ MayKeep bundles file w w' := by
  obtain ⟨takes, -, stops⟩ := locate_iff.mp led
  have written := write_of_stops takes plain stops vacant (LibraryList.mk
    (DigestAlgorithm.sha256.compute bundle) libraries).toJson.pretty.toUTF8
  refine ⟨_, ?_, mayKeep_of_write tree among listed written⟩
  rw [writeFile, change_apply, written]
  rfl

/-- Where the way to the file is open, a list can be kept there. -/
theorem exists_keep (tree : w.disk.IsTree) (ends : file.endsInName) (plain : file.meansDir = false)
    {place : Place} (led : w.disk.locate file = .ok place)
    (vacant : w.disk.at? (file.place w.disk.here) ≠ some .dir)
    (among : bundles bundle) (listed : listed? bundle = some libraries) :
    ∃ w', keep file ⟨DigestAlgorithm.sha256.compute bundle, libraries⟩ w = (.ok (), w') ∧
      MayKeep bundles file w w' := by
  obtain ⟨takes, -, stops⟩ := locate_iff.mp led
  have names : file.NamesFile := ⟨takes, ends, plain⟩
  have clear : w.disk.Clear file := fun front above proper bytes stands => by
    cases (stops front above proper).symm.trans stands
  have root := stops [] List.nil_prefix names.parts_ne_nil.symm
  obtain ⟨d, made, above⟩ := makeParent_of_clear names.parts_ne_nil takes root clear
  have same : ∀ place, d.at? place = w.disk.at? place := by
    intro place
    rcases above.others place with same | ⟨free, -, front, on, proper, rfl⟩
    · exact same
    · cases free.symm.trans (stops front on proper)
  have tree' : d.IsTree := by
    constructor <;> intro place found <;> rw [same] at found
    · rw [same]
      exact tree.parent place found
    · exact tree.named place found
  have led' : d.locate file = .ok (file.place d.here) := locate_iff.mpr ⟨takes, rfl,
    fun front on proper => stop_eq above.here file front ▸ above.stops front on proper⟩
  obtain ⟨w', written, kept⟩ := exists_write (w := w.withDisk d) tree' plain led'
    (by rw [World.withDisk_disk, same, above.here]; exact vacant) among listed
  have here : (w.withDisk d).disk.here = w.disk.here := above.here
  refine ⟨w', (bind_of_ok made _).trans written, kept.here.trans here, kept.tree, ?_, here ▸ kept.keeps⟩
  exact fun place apart => (kept.same place (here ▸ apart)).trans (same place)

/-- **A place where lists are kept between runs**: only what was kept of bundles may be left there, and
nothing is stale on the way. -/
structure KeptAt (here : Place) (stale : Place → Prop) (keeps : Place → Option Node → Prop)
    (bundles : ByteArray → Prop) (file : Path) : Prop where
  ends : file.endsInName
  plain : file.meansDir = false
  way : ∀ front, front <+: file.parts → front ≠ file.parts → ¬ stale (stopFrom here file front)
  left : stale (file.place here)
  keeps : ∀ node, keeps (file.place here) node ↔ Keeps bundles node

variable {here : Place} {stale : Place → Prop} {keeps : Place → Option Node → Prop}

theorem KeptAt.locate_eq (at_ : KeptAt here stale keeps bundles file)
    (twins : Twins here stale keeps w w') : w'.disk.locate file = w.disk.locate file :=
  twins.alike.locate_eq fun front above proper => twins.here ▸ at_.way front above proper

theorem KeptAt.both (at_ : KeptAt here stale keeps bundles file)
    (twins : Twins here stale keeps w w') : Keeps bundles (w.disk.at? (file.place w.disk.here)) ∧
      Keeps bundles (w'.disk.at? (file.place w'.disk.here)) := by
  obtain ⟨kept, kept'⟩ := twins.alike.kept _ at_.left
  rw [twins.here, twins.here']
  exact ⟨(at_.keeps _).mp kept, (at_.keeps _).mp kept'⟩

/-- Keeping lists leaves twins. -/
theorem KeptAt.twins {u u' : World} (at_ : KeptAt here stale keeps bundles file)
    (twins : Twins here stale keeps w w') (kept : MayKeep bundles file w u)
    (kept' : MayKeep bundles file w' u') : Twins here stale keeps u u' := by
  have alike := twins.alike
  have same := kept.same
  have same' := kept'.same
  have keeps := kept.keeps
  have keeps' := kept'.keeps
  rw [twins.here] at same keeps
  rw [twins.here'] at same' keeps'
  refine ⟨kept.here.trans twins.here, kept.tree, kept'.tree, ?_, fun place fresh => ?_,
    fun place stale' => ?_, alike.vacant⟩
  · rw [kept.here, kept'.here, alike.here]
  · have apart : place ≠ file.place here := fun same => fresh (same ▸ at_.left)
    rw [same _ apart, same' _ apart, alike.same _ fresh]
  · by_cases at_file : place = file.place here
    · subst at_file
      exact ⟨(at_.keeps _).mpr keeps, (at_.keeps _).mpr keeps'⟩
    · rw [same _ at_file, same' _ at_file]
      exact alike.kept _ stale'

/-- Keeping a list comes to the same in twins. -/
theorem agrees_keep (twins : Twins here stale keeps w w')
    (at_ : KeptAt here stale keeps bundles file) (among : bundles bundle)
    (listed : listed? bundle = some libraries) :
    Agrees (keep file ⟨DigestAlgorithm.sha256.compute bundle, libraries⟩) w w' fun _ u u' =>
      Twins here stale keeps u u' := by
  have parts : file.parts ≠ [] := by
    obtain ⟨front, name, parts, -⟩ := Path.exists_parts_of_endsInName at_.ends
    rw [parts]
    exact List.concat_ne_nil _ _
  have steady : Steady here stale keeps (Action.makeParent file) := .makeParent fun front above => by
    refine at_.way front (above.trans (List.dropLast_prefix _)) fun whole => ?_
    have shorter := above.length_le
    have some_length := List.length_pos_iff.mpr parts
    rw [whole, List.length_dropLast] at shorter
    omega
  refine .bind (steady.agrees twins) fun _ u u' twins => ?_
  have same := at_.locate_eq twins
  obtain ⟨kept, kept'⟩ := at_.both twins
  rcases led : u.disk.locate file with e | place
  · have refused : ∀ {v : World}, v.disk.locate file = .error e → ∀ bytes,
        writeFile file bytes v = (.error (.io (.writing file.text) e), v) := by
      intro v lost bytes
      have unwritten : v.disk.write file bytes = .error e := by
        unfold Disk.write
        rw [lost]
        rfl
      rw [writeFile, change_apply, unwritten]
    have first := refused led
    refine ⟨by rw [first, refused (same.trans led)], ?_⟩
    rw [first]
    rintro _ ⟨⟩
  · obtain ⟨v, ran, mayKeep⟩ :=
      exists_write twins.alike.tree at_.plain led kept.ne_dir among listed
    obtain ⟨v', ran', mayKeep'⟩ :=
      exists_write twins.alike.tree' at_.plain (same.trans led) kept'.ne_dir among listed
    refine ⟨by rw [ran, ran'], fun _ _ => ?_⟩
    rw [ran, ran']
    exact at_.twins twins mayKeep mayKeep'

/-- The digest of a file is computed from what the path leads to. -/
theorem exists_of_fileDigest {algorithm : DigestAlgorithm} {digest : String}
    (ran : fileDigest algorithm p w = (.ok digest, w')) :
    ∃ bytes, w.disk.find p = .ok (.file bytes) ∧ digest = algorithm.compute bytes ∧ w' = w := by
  obtain ⟨bytes, w₁, opened, ran⟩ := bind_ran_iff.mp ran
  obtain ⟨node, w₂, asked, opened⟩ := bind_ran_iff.mp opened
  rw [ask_apply] at asked
  rcases found : w.disk.find p with e | node' <;> rw [found] at asked <;> cases asked
  rw [readFile, ask_apply] at opened
  rcases read : w.disk.read p with e | bytes' <;> rw [read] at opened <;> cases opened
  cases ran
  exact ⟨bytes, found ▸ read_eq_ok_iff.mp read, rfl, rfl⟩

theorem steady_readList (fresh : Fresh here stale p) (name : String) :
    Steady here stale keeps (readList p name) := by
  refine .bind (Archive.steady_readMember fresh name) fun member => ?_
  split
  · exact .throw _
  · split
    · exact .pure _
    · exact .throw _

theorem steady_list (fresh : Fresh here stale p) (digest : String) :
    Steady here stale keeps (list p digest) :=
  .bind (steady_readList fresh _) fun _ => .bind (.ofOutcome _) fun _ => .pure _

/-- The libraries that a bundle lists are found, whether a list was kept or not. -/
theorem exists_libraries (tree : w.disk.IsTree) (ends : file.endsInName)
    (plain : file.meansDir = false) (apart : ToldApart bundles) (among : bundles bundle)
    (keeps : Keeps bundles (w.disk.at? (file.place w.disk.here)))
    (found : w.disk.find p = .ok (.file bundle)) {place : Place}
    (led : w.disk.locate file = .ok place) (listed : listed? bundle = some libraries) :
    ∃ w', Bundle.libraries p file w =
        (.ok ⟨DigestAlgorithm.sha256.compute bundle, libraries⟩, w') ∧ MayKeep bundles file w w' := by
  obtain ⟨kept, asked, known⟩ := exists_kept? apart among keeps
  unfold Bundle.libraries
  rw [bind_of_ok (Download.fileDigest_of_find found _), bind_of_ok asked]
  cases kept with
  | none =>
    have listing := toOption_list found (DigestAlgorithm.sha256.compute bundle)
    rw [listed] at listing
    obtain ⟨w', ran, mayKeep⟩ := exists_keep tree ends plain led keeps.ne_dir among listed
    refine ⟨w', ?_, mayKeep⟩
    dsimp only
    rw [bind_of_ok ((asks_list p _).ran listing), bind_of_ok ran]
    rfl
  | some l =>
    obtain ⟨-, digest, listed'⟩ := known l rfl
    have same : l = ⟨DigestAlgorithm.sha256.compute bundle, libraries⟩ := by
      cases l
      cases listed.symm.trans listed'
      cases digest
      rfl
    exact ⟨w, same ▸ rfl, rfl, tree, fun _ _ => rfl, keeps⟩

/-- **The libraries of a bundle are the same in twins**, whatever was kept of it and of others before,
while digests tell the bundles apart. -/
theorem agrees_libraries (twins : Twins here stale keeps w w')
    (at_ : KeptAt here stale keeps bundles file) (fresh : Fresh here stale p)
    (apart : ToldApart bundles)
    (among : ∀ bytes, w.disk.find p = .ok (.file bytes) → bundles bytes) :
    Agrees (Bundle.libraries p file) w w' fun _ u u' => Twins here stale keeps u u' := by
  have alike := twins.alike
  have found_eq : w'.disk.find p = w.disk.find p := alike.find_eq (twins.here ▸ fresh)
  have led_eq := at_.locate_eq twins
  obtain ⟨holds, holds'⟩ := at_.both twins
  by_cases settled : ∃ bundle libraries place, w.disk.find p = .ok (.file bundle) ∧
      w.disk.locate file = .ok place ∧ listed? bundle = some libraries
  · obtain ⟨bundle, libraries, place, found, led, listed⟩ := settled
    have among := among bundle found
    obtain ⟨v, ran, mayKeep⟩ := exists_libraries alike.tree at_.ends at_.plain apart among holds
      found led listed
    obtain ⟨v', ran', mayKeep'⟩ := exists_libraries alike.tree' at_.ends at_.plain apart among holds'
      (found_eq.trans found) (led_eq.trans led) listed
    refine ⟨by rw [ran, ran'], fun _ _ => ?_⟩
    rw [ran, ran']
    exact at_.twins twins mayKeep mayKeep'
  -- elsewhere no list is found to be kept in either world
  have digested : Steady here stale keeps (fileDigest .sha256 p) :=
    .bind (.openFile fresh) fun _ => .pure _
  refine .bind_of_ran (digested.agrees twins) fun digest u u' ran ran' _ => ?_
  obtain ⟨bundle, found, rfl, rfl⟩ := exists_of_fileDigest ran
  obtain ⟨-, -, -, rfl⟩ := exists_of_fileDigest ran'
  have mine := among bundle found
  have unkept : ∀ {v : World}, v.disk.locate file = u.disk.locate file →
      Keeps bundles (v.disk.at? (file.place v.disk.here)) →
      kept? file (DigestAlgorithm.sha256.compute bundle) v = (.ok none, v) := by
    intro v led_eq keeps
    obtain ⟨kept, asked, known⟩ := exists_kept? apart mine keeps
    rcases kept with _ | l
    · exact asked
    · obtain ⟨isFile, -, listed⟩ := known l rfl
      obtain ⟨content, there⟩ := isFile_iff.mp isFile
      obtain ⟨place, led, -⟩ := locate_of_find there
      exact absurd ⟨bundle, _, place, found, led_eq ▸ led, listed⟩ settled
  have asked := unkept rfl holds
  have asked' := unkept led_eq holds'
  have agrees : Agrees (kept? file (DigestAlgorithm.sha256.compute bundle)) u u' fun kept v v' =>
      kept = none ∧ v = u ∧ v' = u' := by
    refine ⟨by rw [asked, asked'], fun kept same => ?_⟩
    rw [asked] at same
    cases same
    rw [asked, asked']
    exact ⟨rfl, rfl, rfl⟩
  refine .bind agrees fun kept v v' ended => ?_
  obtain ⟨rfl, rfl, rfl⟩ := ended
  dsimp only
  refine .bind_of_ran ((steady_list fresh _).agrees twins) fun l v v' ran _ twins => ?_
  have listing := toOption_list found (DigestAlgorithm.sha256.compute bundle)
  rw [ran] at listing
  obtain ⟨libraries, listed, rfl⟩ := Option.map_eq_some_iff.mp listing.symm
  exact .bind (agrees_keep twins at_ mine listed) fun _ _ _ twins => .pure twins

/-! ## Taking a bundle apart -/

/-- Taking the server's jar out of a bundle comes to the same where room can be made for it. -/
theorem agrees_extractServer {target : Path} {ps : List Path}
    (twins : Twins here (behindRoom here stale ps) keeps w w')
    (fresh : Fresh here (behindRoom here stale ps) p)
    (clearable : target.Clearable here stale keeps) :
    Agrees (extractServer p target) w w' fun _ u u' =>
      Twins here (behindRoom here stale (ps ++ [target])) keeps u u' :=
  .bind ((steady_readList fresh _).agrees twins) fun _ _ _ twins =>
    .bind ((Steady.ofOutcome _).agrees twins) fun _ _ _ twins =>
      Archive.agrees_extract twins fresh clearable _

/-- **Whether the libraries of a bundle lead inward.** -/
def Inward (bundle : ByteArray) : Prop :=
  ∀ records, Zip.records? bundle = some records →
    ∀ path ∈ libraryPaths (Archive.namesWith (records.map (·.name)) librariesDir), Path.Inward path

/-- **Taking the libraries out of a bundle** is the same in twins where they lead inward and nothing is
stale in their directory. -/
theorem agrees_extractLibraries {target : Path} (twins : Twins here stale keeps w w')
    (fresh : Fresh here stale p) (clean : Clean here stale target) (ne : target.text ≠ "")
    (inward : ∀ bytes, w.disk.find p = .ok (.file bytes) → Inward bytes) :
    Agrees (extractLibraries p target) w w' fun files u u' =>
      Twins here stale keeps u u' ∧ ∀ file ∈ files, Clean here stale file := by
  refine .bind_of_ran ((Archive.steady_names fresh _).agrees twins) fun names u u' read _ twins => ?_
  obtain ⟨⟨bytes, records⟩, _, opened, read⟩ := bind_ran_iff.mp read
  cases read
  obtain ⟨found, told⟩ := Archive.exists_of_opened opened
  have clean' : ∀ name ∈ Archive.namesWith (records.map (·.name)) librariesDir,
      Clean here stale (target.join ((Text.after? librariesDir name).getD name)) := by
    intro name listed
    have begins := (List.mem_filter.mp listed).2
    rw [Bool.and_eq_true] at begins
    obtain ⟨path, behind⟩ := Option.isSome_iff_exists.mp begins.1
    rw [behind, Option.getD_some]
    exact clean.join ne (inward bytes found records told path
      (List.mem_filterMap.mpr ⟨name, listed, behind⟩))
  refine .mapM twins (fun name listed => .bind
    (Archive.steady_extract fresh (clean' name listed).fresh name) fun _ => .pure _) ?_
  intro name listed v file v' ran
  obtain ⟨_, _, -, ended⟩ := bind_ran_iff.mp ran
  cases ended
  exact clean' name listed

end Bundle
end Patchwork
