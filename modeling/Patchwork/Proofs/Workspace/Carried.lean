import Patchwork.Proofs.Download.Member
import Patchwork.Proofs.Toolchain.Described
import Patchwork.Proofs.Workspace.Unpacked

/-! Versions that are carried over in a package.  An archive that is offered with its digest
(`Disk.Offers`) is obtained where files can be passed (`Disk.Spare`, `OpenRequest.exists_obtained`), and a
package is then opened into what it was made of (`OpenRequest.Admitted`, `OpenRequest.Reproduces`,
`OpenRequest.exists_reopened`).  Together with what packaging leaves, a version that is packaged and
opened is the same version (`PackageRequest.run_reopens`). -/

namespace Patchwork
open Path Disk Patchwork.Action

/-! ## Obtaining a package -/

namespace Download
variable {r : Download} {a : Artifact} {bytes : ByteArray} {p : Path} {w : World}

/-- **A download to a place where nothing is** finds its source where that was. -/
theorem exists_fetched (names : r.target.NamesFile) (straight : ".." ∉ r.target.parts)
    (clear : w.disk.Clear r.target) (root : w.disk.at? (w.disk.start r.target) = some .dir)
    (bare : ∀ names, w.disk.at? (r.target.place w.disk.here ++ names) = none)
    (path : sourcePath r.url = .ok p) (found : w.disk.find p = .ok (.file bytes))
    (checked : r.check bytes = .ok a) :
    ∃ w', r.fetch w = (.ok a, w') ∧ w'.disk.find r.target = .ok (.file bytes) := by
  have free : w.disk.at? (r.target.place w.disk.here) = none := by
    have free := bare []
    rwa [List.append_nil] at free
  obtain ⟨d, made, room, quiet⟩ := makeRoom_of_clear names straight clear (fun _ _ _ _ => free) root
  have more : ∀ other node, w.disk.at? other = some node → d.at? other = some node := by
    intro other node stands
    by_cases below : r.target.place w.disk.here <+: other
    · obtain ⟨names, rfl⟩ := below
      cases stands.symm.trans (bare names)
    · rcases quiet.outside other below with same | ⟨free, -⟩
      · exact same.trans stands
      · cases stands.symm.trans free
  have known : sourceBytes d r.url = .ok bytes :=
    sourceBytes_eq_ok_iff.mpr ⟨p, path, read_eq_ok_iff.mpr (find_mono quiet.here more found)⟩
  have got := obtain_of_room (w := w.withDisk d) names room known checked
  have put : r.install bytes (w.withDisk d) =
      (.ok (), (w.withDisk d).withDisk (d.put (r.target.place d.here) (.file bytes))) :=
    install_eq_ok_iff.mpr ⟨names, room.stops, by rw [World.withDisk_disk, room.free]; nofun, rfl⟩
  refine ⟨_, ?_, (ends_install r bytes _).ok put⟩
  rw [fetch, tryCatch_apply, attempt, bind_of_ok made, bind_of_ok got]
  dsimp only
  rw [bind_of_ok put]
  rfl

end Download

namespace Disk
variable {d d' : Disk} {p scratch : Path} {bytes : ByteArray}

/-- **Where an archive is offered with its digest**: at a path, or behind a URL that leads to such a
path and with the ending of digests to the digest. -/
def Offers (d : Disk) (bytes : ByteArray) : ArchiveSource → Prop
  | .file path => d.Published path bytes
  | .url url => ∃ path, sourcePath url = .ok path ∧
      sourcePath (url ++ sidecarEnding) = .ok (sidecarOf path) ∧ d.Published path bytes

/-- **A directory for passing files**: it can be made, and nothing is in it. -/
structure Spare (d : Disk) (scratch : Path) : Prop where
  straight : ".." ∉ scratch.parts
  takes : Takes (scratch.join "archive.zip")
  root : d.at? (d.start scratch) = some .dir
  clear : ∀ front, front <+: scratch.parts → ∀ bytes, d.at? (d.stop scratch front) ≠ some (.file bytes)
  bare : ∀ names, names ≠ [] → d.at? (scratch.place d.here ++ names) = none

theorem Published.mono (h : d.Published p bytes) (here : d'.here = d.here)
    (more : ∀ other node, d.at? other = some node → d'.at? other = some node) :
    d'.Published p bytes :=
  ⟨find_mono here more h.stands, find_mono here more h.sidecar⟩

theorem Offers.mono {source : ArchiveSource} (h : d.Offers bytes source) (here : d'.here = d.here)
    (more : ∀ other node, d.at? other = some node → d'.at? other = some node) :
    d'.Offers bytes source := by
  cases source with
  | file path => exact Published.mono h here more
  | url url =>
    obtain ⟨path, led, led', published⟩ := h
    exact ⟨path, led, led', published.mono here more⟩

end Disk

namespace OpenRequest
variable {source : ArchiveSource} {scratch archive : Path} {bytes : ByteArray} {w : World} {url : String}

theorem firstWord_compute (algorithm : DigestAlgorithm) (bytes : ByteArray) :
    firstWord (algorithm.compute bytes) = algorithm.compute bytes := by
  rw [firstWord, DigestAlgorithm.words_compute]
  rfl

/-- An archive agrees with the digest beside it. -/
theorem checkFile_of_published (published : w.disk.Published archive bytes) :
    checkFile archive w = (.ok (), w) := by
  have read : Action.readText (sidecarOf archive) w = (.ok (DigestAlgorithm.sha256.compute bytes), w) :=
    ask_of_ok (readText_eq_ok_iff.mpr published.sidecar)
  have there : w.disk.isFile (sidecarOf archive) := isFile_iff.mpr ⟨_, published.sidecar⟩
  have accepted : Checksum.accepts ⟨.sha256, DigestAlgorithm.sha256.compute bytes⟩
      (DigestAlgorithm.sha256.compute bytes) := Checksum.accepts_of_eq rfl
  unfold checkFile
  rw [bind_of_ok (isFile_apply _ w), there, if_pos rfl, bind_of_ok read]
  rw [firstWord_compute, Checksum.of_compute, bind_of_ok (Download.fileDigest_of_find published.stands _),
    accepted]
  rfl

/-- **An archive that is offered is obtained** where files can be passed. -/
theorem exists_obtained (spare : w.disk.Spare scratch) (offers : w.disk.Offers bytes source) :
    ∃ archive w', obtain source scratch w = (.ok archive, w') ∧
      w'.disk.find archive = .ok (.file bytes) := by
  cases source with
  | file path =>
    have there : w.disk.isFile path := isFile_iff.mpr ⟨_, offers.stands⟩
    refine ⟨path, w, ?_, offers.stands⟩
    unfold obtain
    dsimp only
    rw [bind_of_ok (isFile_apply _ w), there]
    exact (bind_of_ok (checkFile_of_published offers) _).trans rfl
  | url url =>
    obtain ⟨path, led, led', published⟩ := offers
    have named : IsName "archive.zip" := by constructor <;> decide
    have parts : (scratch.join "archive.zip").parts = scratch.parts ++ ["archive.zip"] := parts_join named _
    have place : (scratch.join "archive.zip").place w.disk.here =
        scratch.place w.disk.here ++ ["archive.zip"] := place_join_of_isName named _ _
    have names : (scratch.join "archive.zip").NamesFile :=
      ⟨spare.takes, endsInName_join named _, meansDir_join named _⟩
    have straight : ".." ∉ (scratch.join "archive.zip").parts := by
      rw [parts]
      simp [spare.straight]
    have clear : w.disk.Clear (scratch.join "archive.zip") := by
      intro front above proper bytes
      rw [stop_join_name named]
      exact spare.clear front (prefix_parts_of_join named above proper) bytes
    have root : w.disk.at? (w.disk.start (scratch.join "archive.zip")) = some .dir := by
      rw [start_join named]
      exact spare.root
    have text : sourceText w.disk (url ++ sidecarEnding) = .ok (DigestAlgorithm.sha256.compute bytes) := by
      rw [sourceText, led', ok_bind, readText_eq_ok_iff.mpr published.sidecar]
      rfl
    have accepted : Checksum.accepts ⟨.sha256, DigestAlgorithm.sha256.compute bytes⟩
        (DigestAlgorithm.sha256.compute bytes) := Checksum.accepts_of_eq rfl
    obtain ⟨w', fetched, found⟩ := Download.exists_fetched
      (r := ⟨url, scratch.join "archive.zip", some ⟨.sha256, DigestAlgorithm.sha256.compute bytes⟩⟩)
      names straight clear root (fun names => by
        rw [place, List.append_assoc]
        exact spare.bare _ (List.cons_ne_nil _ _)) led published.stands
      ((Download.check_eq_ok_iff rfl).mpr ⟨accepted, rfl⟩)
    refine ⟨scratch.join "archive.zip", w', ?_, found⟩
    unfold obtain download
    dsimp only
    have asked : fetchText (url ++ sidecarEnding) w = (.ok (DigestAlgorithm.sha256.compute bytes), w) := by
      rw [fetchText, bind_of_ok (disk_apply w), text]
      rfl
    rw [bind_of_ok asked, firstWord_compute, Checksum.parse_compute]
    exact (bind_of_ok fetched _).trans rfl

/-! ## Opening a package -/

/-- **Whether a package can be opened** under a name: the version directory can be made, in the place of
what is there only if that is asked for, and files can be passed away from it. -/
structure Admitted (o : OpenRequest) (s : Surroundings) (d : Disk) (name : String)
    (patches : List (List String × ByteArray)) : Prop where
  plain : isPlainName name
  approach : d.Approach (o.workspace.versionDir name)
  allowed : o.replace = true ∨ d.at? ((o.workspace.versionDir name).place d.here) = none
  takes : VersionTakes (o.workspace.versionDir name) patches
  spare : d.Spare s.scratch
  apart : ∀ front, front <+: (o.workspace.versionDir name).parts →
    ¬ s.scratch.place d.here <+: d.stop (o.workspace.versionDir name) front
  off : ¬ (o.workspace.versionDir name).place d.here <+: s.scratch.place d.here

/-- **What opening a package comes to**: the version directory holds the patches as they were packaged, a
profile that describes the packaged toolchain, and nothing else. -/
structure Reproduces (o : OpenRequest) (profile : Profile) (version name : String)
    (patches : List (List String × ByteArray)) (opened : OpenSummary) (w : World) : Prop where
  dir : opened.dir = o.workspace.versionDir name
  release : profile.version? = some opened.version
  toolchainVersion : opened.toolchainVersion = version
  counted : opened.patches = patches.length
  listed : w.disk.files (opened.dir.join patchesName) = .ok patches
  alone : ∃ bytes, w.disk.HoldsVersion opened.dir patches bytes
  described : ∃ p, Profile.load opened.dir w = (.ok p, w) ∧ p.toolchainVersion? = some version ∧
    ∀ own, p.toolchain own = profile.toolchain own

end OpenRequest

namespace Disk
variable {d d' : Disk} {scratch : Path} {w : World}

/-- A directory for passing files can be made. -/
theorem Spare.exists_made (spare : w.disk.Spare scratch) : ∃ d,
    Action.makeDirs scratch w = (.ok (), w.withDisk d) ∧ d.Spare scratch ∧ d.here = w.disk.here ∧
      ∀ other node, w.disk.at? other = some node → d.at? other = some node := by
  have takes : scratch.text = "" ∨ Takes scratch := by
    by_cases blank : scratch.text = ""
    · exact .inl blank
    · exact .inr (spare.takes.of_join (by constructor <;> decide) blank)
  obtain ⟨d, ran, made⟩ := makeDirs_of_clear takes spare.root spare.clear
  have more : ∀ other node, w.disk.at? other = some node → d.at? other = some node := by
    intro other node stands
    rcases made.others other with same | ⟨free, -⟩
    · exact same.trans stands
    · cases stands.symm.trans free
  refine ⟨d, ?_, ⟨spare.straight, spare.takes, ?_, fun front above bytes => ?_, fun names deep => ?_⟩,
    made.here, more⟩
  · rw [Action.makeDirs, changeBy_apply, ran]
    rfl
  · rw [start, made.here]
    exact more _ _ spare.root
  · rw [stop_eq made.here, made.stops front above]
    intro same
    cases same
  · rw [made.here]
    rcases made.others (scratch.place w.disk.here ++ names) with same | ⟨-, -, front, above, same⟩
    · rw [same, spare.bare names deep]
    · have longer := (same ▸ stop_prefix_place spare.straight above).length_le
      rw [List.length_append] at longer
      exact absurd (List.length_eq_zero_iff.mp (by omega)) deep

/-- A new name in a directory that is there can be used for passing files, if the path does not lead
back. -/
theorem spare_of_free {parent : Path} {name : String} {d : Disk} (tree : d.IsTree)
    (straight : ".." ∉ parent.parts) (isDir : d.isDir parent) (named : IsName name)
    (takes : Takes ((parent.join name).join "archive.zip"))
    (free : d.at? ((parent.join name).place d.here) = none) : d.Spare (parent.join name) := by
  obtain ⟨root, clear, -, -⟩ := approach_of_isDir straight isDir named
  refine ⟨?_, takes, root, fun front above bytes => ?_, fun names _ => tree.none_of_append free names⟩
  · rw [parts_join named]
    simp [straight, named.ne_points.symm]
  · by_cases last : front = (parent.join name).parts
    · rw [last, stop_parts, free]
      nofun
    · exact clear front above last bytes

end Disk

namespace OpenRequest
open PackageRequest
variable {o : OpenRequest} {s : Surroundings} {w : World} {profile : Profile} {version : String}
  {t : Toolchain} {patches : List (List String × ByteArray)} {bytes : ByteArray}

/-- **A package that is offered is opened**, and what was packaged is there again. -/
theorem exists_reopened (tree : w.disk.IsTree) (described : profile.toolchain version = .ok t)
    (listing : IsListing patches) (holds : Archive.Holds bytes (packed t patches))
    (admitted : o.Admitted s w.disk (o.name.getD t.version) patches)
    (offers : w.disk.Offers bytes o.source) :
    ∃ opened w', run s o w = (.ok opened, w') ∧
      o.Reproduces profile version (o.name.getD t.version) patches opened w' := by
  obtain ⟨plain, approach, allowed, takes, spare, apart, off⟩ := admitted
  have isName := isName_of_isPlainName plain
  have named : checkName (o.name.getD t.version) = .ok () := checkName_eq_ok_iff.mpr plain
  have ends : (o.workspace.versionDir (o.name.getD t.version)).endsInName := endsInName_join isName _
  have file : (o.workspace.versionDir (o.name.getD t.version)).meansDir = false := meansDir_join isName _
  have short : Takes (o.workspace.versionDir (o.name.getD t.version)) :=
    takes.top.of_join isName_patchesName (text_join_ne_empty isName _)
  obtain ⟨dir, dir_eq⟩ : ∃ dir, o.workspace.versionDir (o.name.getD t.version) = dir := ⟨_, rfl⟩
  rw [dir_eq] at approach allowed takes apart off ends file short
  -- the archive
  obtain ⟨d₁, made, spare₁, here₁, more⟩ := spare.exists_made
  obtain ⟨quiet₁, tree₁⟩ := (Disturbs.makeDirs spare.straight).run w rfl
  rw [made] at quiet₁ tree₁
  obtain ⟨archive, w₂, obtained, found⟩ :=
    exists_obtained (w := w.withDisk d₁) spare₁ (offers.mono here₁ more)
  obtain ⟨quiet₂, tree₂⟩ := (disturbs_obtain o.source spare.straight).run (w.withDisk d₁) here₁
  rw [obtained] at quiet₂ tree₂
  have quiet := quiet₁.trans quiet₂
  obtain ⟨files, read, mem_iff⟩ := holds.read found
  obtain ⟨list, patchFiles_eq, perm⟩ := exists_patchFiles_of_packed mem_iff listing
  -- the version directory
  obtain ⟨approach₂, same⟩ := approach.of_quiet quiet apart off
  dsimp only at quiet approach₂ same
  rw [← same, ← quiet.here] at allowed
  obtain ⟨d₃, roomy, here₃, site⟩ := approach₂.makeRoom (r := o) (tree₂ (tree₁ tree)) short ends file allowed
  obtain ⟨d₄, written, here₄, version₄⟩ := Site.exists_version (w := w₂.withDisk d₃)
    (p := Profile.ofToolchain t) site listing takes perm
  have here : d₄.here = w.disk.here := here₄.trans (here₃.trans quiet.here)
  have unpacked : o.unpack archive w₂ = (.ok ⟨dir, t.version, t.toolchainVersion, patches.length⟩,
      (w₂.withDisk d₃).withDisk d₄) := by
    unfold unpack
    rw [bind_of_ok read, bind_of_outcome (toolchainIn_of_packed mem_iff archive), bind_of_outcome named]
    dsimp only
    rw [dir_eq, bind_of_ok roomy, patchFiles_eq, ← bind_assoc, bind_of_ok written, List.length_map,
      perm.length_eq]
    rfl
  have used : (tryCatch (do o.unpack (← obtain o.source s.scratch)) fun e => do
      Action.discard s.scratch
      throw e : Action OpenSummary) (w.withDisk d₁) =
        (.ok ⟨dir, t.version, t.toolchainVersion, patches.length⟩, (w₂.withDisk d₃).withDisk d₄) := by
    rw [tryCatch_apply, bind_of_ok obtained, unpacked]
  have ran : run s o w = (.ok ⟨dir, t.version, t.toolchainVersion, patches.length⟩,
      ((w₂.withDisk d₃).withDisk d₄).withDisk (d₄.remove s.scratch).2) := by
    unfold run withScratch
    rw [bind_of_ok made, bind_of_ok used, bind_of_ok (discard_apply _ _)]
    rfl
  refine ⟨_, _, ran, ?_⟩
  have version₅ := version₄.of_quiet (quiet_remove d₄ s.scratch)
    (fun front above => by rw [here, stop_eq here]; exact apart front above) (by rw [here]; exact off)
  obtain ⟨release, own, others⟩ := Profile.toolchain_eq_ok described
  obtain ⟨p, parsed, told, describes⟩ := Profile.parse_ofToolchain t
  refine ⟨dir_eq.symm, release, own, rfl, version₅.files listing takes, ⟨_, version₅⟩, p, ?_, ?_, ?_⟩
  · have text := readText_eq_ok_iff.mpr (version₅.find_profile takes)
    have read : Action.readText (Profile.fileIn dir)
        (((w₂.withDisk d₃).withDisk d₄).withDisk (d₄.remove s.scratch).2) = (.ok _, _) := ask_of_ok text
    unfold Profile.load
    rw [bind_of_ok read, parsed]
    rfl
  · rw [told, own]
  · exact fun own => (describes own).trans (others own).symm

end OpenRequest

/-! ## Package, then open -/

namespace PackageRequest
variable {r : PackageRequest} {w w₁ : World} {summary : PackageSummary} {profile : Profile}
  {version : String} {t : Toolchain}

/-- **What was packaged can be opened**: wherever the archive that packaging a version directory left is
offered with the digest beside it, opening it under a plain name gives back the patches with nothing
else, and a profile that describes the same toolchain under the packaged version. -/
theorem run_reopens (tree : w.disk.IsTree) (packs : r.Packs w profile version t)
    (packable : Packable (r.patches w.disk))
    (faithful : Zip.decode? (Zip.encode (packed t (r.patches w.disk))) =
      some (packed t (r.patches w.disk)))
    (ran : r.run w = (.ok summary, w₁)) :
    summary.archive = r.archive version ∧ summary.patches = (r.patches w.disk).length ∧
      w₁.disk.Published summary.archive (Zip.encode (packed t (r.patches w.disk))) ∧
      ∀ (o : OpenRequest) (s : Surroundings) (w₂ : World), w₂.disk.IsTree →
        o.Admitted s w₂.disk (o.name.getD t.version) (r.patches w.disk) →
        w₂.disk.Offers (Zip.encode (packed t (r.patches w.disk))) o.source →
        ∃ opened w₃, o.run s w₂ = (.ok opened, w₃) ∧
          o.Reproduces profile version (o.name.getD t.version) (r.patches w.disk) opened w₃ := by
  obtain ⟨profile', version', t', packaged⟩ := packaged_of_run ran
  have sameProfile := congrArg Prod.fst (packaged.required.symm.trans packs.required)
  obtain rfl : profile' = profile := Except.ok.inj sameProfile
  obtain rfl : version' = version := Except.ok.inj (packaged.versioned.symm.trans packs.versioned)
  obtain rfl : t' = t := Except.ok.inj (packaged.described.symm.trans packs.described)
  have listing := isListing_patches tree r
  have holds := holds_packed listing packable faithful
  refine ⟨packaged.archive, packaged.counted, packaged.published, fun o s w₂ tree₂ admitted offers => ?_⟩
  exact OpenRequest.exists_reopened tree₂ packs.described listing holds admitted offers

/-- A profile with two small tools. -/
def demoText : String :=
  "minecraftVersion = \"1.20.1\"\n" ++
  "[remapper]\ncoordinate = \"r\"\nurl = \"u\"\nsha256 = \"0\"\n" ++
  "[decompiler]\ncoordinate = \"d\"\nurl = \"u\"\nsha256 = \"0\"\n"

/-- What the profile describes. -/
def demoToolchain : Toolchain where
  version := "1.20.1"
  side := .server
  toolchainVersion := "2"
  remapper := ⟨⟨"r", "u", "0", none⟩, []⟩
  decompiler := ⟨⟨"d", "u", "0", none⟩, []⟩
  repositories := []

/-- A version directory with its profile and one patch. -/
def demoWorld : World :=
  ⟨((((((Disk.empty.put ["ws"] .dir).put ["ws", "versions"] .dir).put ["ws", "versions", "a"] .dir).put
    ["ws", "versions", "a", "remold.toml"] (.file demoText.toUTF8)).put
    ["ws", "versions", "a", "patches"] .dir).put
    ["ws", "versions", "a", "patches", "x"] (.file "x".toUTF8)), [], []⟩

/-- Packaging the version directory under a version of its own. -/
def demo : PackageRequest := ⟨⟨"/ws/versions/a"⟩, some "2", some ⟨"/t.zip"⟩⟩

/-- What packaging leaves. -/
def demoLeft : World := (demo.run demoWorld).2

def demoSurroundings : Surroundings where
  isRepository _ := false
  git _ := .ok ()
  run _ _ d := (.ok ⟨0, 0⟩, d)
  scratch := (Path.mk "/").join "passing"

def demoWorkspace : Workspace := ⟨⟨"/ws"⟩⟩

theorem patches_demo : demo.patches demoWorld.disk = [(["x"], "x".toUTF8)] := by decide +kernel

theorem packs_demo : ∃ profile, demo.Packs demoWorld profile "2" demoToolchain := by
  have known : ((do
      let profile ← Profile.require demo.dir
      ofOutcome (profile.toolchain "2")) demoWorld).1.toOption = some demoToolchain := by
    decide +kernel
  obtain ⟨w, ran⟩ := exists_of_toOption known
  obtain ⟨profile, required, described⟩ := (asks_require _).bind_ran_iff.mp ran
  rw [ofOutcome_apply] at described
  exact ⟨profile, required, rfl, congrArg Prod.fst described⟩

theorem fits_demo : Zip.Fits (packed demoToolchain [(["x"], "x".toUTF8)]) := by
  obtain ⟨names, records, count, directory, plain⟩ :
      (∀ entry ∈ packed demoToolchain [(["x"], "x".toUTF8)], entry.1.utf8ByteSize < Nat.pow 256 2) ∧
      0 + (Zip.localRecords (packed demoToolchain [(["x"], "x".toUTF8)])).length < Nat.pow 256 4 ∧
      (packed demoToolchain [(["x"], "x".toUTF8)]).length < Nat.pow 256 2 ∧
      (Zip.directory 0 (packed demoToolchain [(["x"], "x".toUTF8)])).length < Nat.pow 256 4 ∧
      ¬ Zip.marked (Zip.encode (packed demoToolchain [(["x"], "x".toUTF8)]))
        ((Zip.encode (packed demoToolchain [(["x"], "x".toUTF8)])).size -
          (Zip.locatorLength + Zip.endLength)) Zip.locatorMark := by decide +kernel
  exact ⟨⟨names, records⟩, count, directory, plain⟩

/-- There is room for another version directory and for passing files. -/
theorem roomy_demo : (demo.run demoWorld).1.toOption.isSome ∧ demoLeft.disk.IsTree ∧
    demoLeft.disk.isDir demoWorkspace.versions ∧ demoLeft.disk.isDir ⟨"/"⟩ ∧
    demoLeft.disk.at? ((demoWorkspace.versionDir "b").place demoLeft.disk.here) = none ∧
    demoLeft.disk.at? (demoSurroundings.scratch.place demoLeft.disk.here) = none ∧
    ¬ demoSurroundings.scratch.place demoLeft.disk.here <+:
      (demoWorkspace.versionDir "b").place demoLeft.disk.here ∧
    ¬ (demoWorkspace.versionDir "b").place demoLeft.disk.here <+:
      demoSurroundings.scratch.place demoLeft.disk.here := by
  decide +kernel

theorem admitted_demo (source : ArchiveSource) :
    OpenRequest.Admitted ⟨demoWorkspace, source, some "b", false⟩ demoSurroundings demoLeft.disk "b"
      [(["x"], "x".toUTF8)] := by
  obtain ⟨-, tree, isDir, isDir', free, free', apart, off⟩ := roomy_demo
  have straight : ".." ∉ (demoWorkspace.versionDir "b").parts := by decide
  have takes : VersionTakes (demoWorkspace.versionDir "b") [(["x"], "x".toUTF8)] :=
    ⟨by decide +kernel, by decide +kernel, by decide +kernel⟩
  have approach : demoLeft.disk.Approach (demoWorkspace.versions.join "b") :=
    approach_of_isDir (by decide) isDir (by constructor <;> decide)
  have spare : demoLeft.disk.Spare ((Path.mk "/").join "passing") :=
    spare_of_free tree (by decide) isDir' (by constructor <;> decide) (by decide +kernel) free'
  refine ⟨by decide, approach, .inr free, takes, spare, fun front above below => ?_, off⟩
  exact apart (below.trans (stop_prefix_place straight above))

/-- The archive is opened by its path and by its URL. -/
theorem run_reopens_demo :
    (∃ opened w, OpenRequest.run demoSurroundings ⟨demoWorkspace, .file ⟨"/t.zip"⟩, some "b", false⟩
        demoLeft = (.ok opened, w) ∧ opened.patches = 1 ∧
      w.disk.files ((demoWorkspace.versionDir "b").join patchesName) = .ok [(["x"], "x".toUTF8)]) ∧
    ∃ opened w, OpenRequest.run demoSurroundings ⟨demoWorkspace, .url "file:///t.zip", some "b", false⟩
        demoLeft = (.ok opened, w) ∧ opened.patches = 1 ∧
      w.disk.files ((demoWorkspace.versionDir "b").join patchesName) = .ok [(["x"], "x".toUTF8)] := by
  obtain ⟨profile, packs⟩ := packs_demo
  obtain ⟨done, tree, -⟩ := roomy_demo
  obtain ⟨summary, known⟩ := Option.isSome_iff_exists.mp done
  obtain ⟨left, ran⟩ := exists_of_toOption known
  obtain rfl : demoLeft = left := by rw [demoLeft, ran]
  obtain ⟨archive, -, published, opens⟩ := run_reopens (by decide +kernel) packs
    (by rw [patches_demo]; exact ⟨by decide +kernel, by decide +kernel⟩)
    (by rw [patches_demo]; exact Zip.decode?_encode fits_demo) ran
  rw [patches_demo] at published opens
  rw [archive] at published
  have opened : ∀ source, demoLeft.disk.Offers (Zip.encode (packed demoToolchain [(["x"], "x".toUTF8)]))
      source → ∃ opened w, OpenRequest.run demoSurroundings ⟨demoWorkspace, source, some "b", false⟩
          demoLeft = (.ok opened, w) ∧ opened.patches = 1 ∧
        w.disk.files ((demoWorkspace.versionDir "b").join patchesName) = .ok [(["x"], "x".toUTF8)] := by
    intro source offers
    obtain ⟨opened, w, ran, reproduces⟩ := opens _ _ _ tree (admitted_demo source) offers
    exact ⟨opened, w, ran, reproduces.counted, reproduces.dir ▸ reproduces.listed⟩
  have path : (sourcePath "file:///t.zip").toOption = some ⟨"/t.zip"⟩ := by decide +kernel
  have sidecar : (sourcePath ("file:///t.zip" ++ sidecarEnding)).toOption =
      some (sidecarOf ⟨"/t.zip"⟩) := by decide +kernel
  exact ⟨opened _ published,
    opened _ ⟨_, eq_ok_of_toOption path, eq_ok_of_toOption sidecar, published⟩⟩

end PackageRequest
end Patchwork
