import Patchwork.Build.Setup
import Patchwork.Proofs.Archive.Faithful
import Patchwork.Proofs.Assets.Store
import Patchwork.Proofs.Disk.Grown
import Patchwork.Proofs.Download.Gate

/-! Where the stages of a setup write.  A relative path without two points leads inward from
every path (`Path.Inward`), so a directory that lies inside some places holds all that such paths
name below it (`Path.Inside.join`).  Each stage stays within the directory that it is given: the
caches with the ids, tags and paths that a release names, the build directory with the names in a
bundle, and a tool where the tool itself stays (`ToolRun.within_run`).

A relative path that stays below the place where it starts is put below the directory that it is joined to
(`Path.base_of_contained`).  Neither the entries of a bundle nor the paths of a manifest are asked for that,
so besides files below the directory of libraries those are changed to which such paths stray
(`libraries_sameBut`). -/

namespace Patchwork
open Patchwork.Action
variable {here : Place} {places : Place → Prop} {name : String} {p : Path}

/-! ## Where libraries are put -/

/-- A path that stays below the place where it starts leads below any other path. -/
theorem Path.base_of_contained {rest : String} (h : Archive.isContained rest) (p : Path) :
    p.place here <+: (p.join rest).place here := by
  simp only [Archive.isContained, Bool.and_eq_true, Bool.not_eq_true'] at h
  obtain ⟨⟨-, relative⟩, below⟩ := h
  have relative : ¬ Text.startsWith "/" rest := Bool.eq_false_iff.mp relative
  have base := @Place.base_of_staysBelow (p.place here) [] _ (Path.mk rest).empty_notMem_parts below
  rwa [List.append_nil, Path.foldl_parts, ← Path.place_join relative] at base

/-- Whether a place is reached by one of some paths that do not stay below the directory they are
joined to. -/
def Strayed (here : Place) (dir : Path) (paths : List String) (place : Place) : Prop :=
  ∃ path ∈ paths, ¬ Archive.isContained path ∧ (dir.join path).place here <+: place

/-- What is below the place of a path behind a directory is below the directory, or the path
strayed. -/
theorem below_or_strayed {dir : Path} {paths : List String} {path : String} (listed : path ∈ paths)
    {place : Place} (at_ : (dir.join path).place here <+: place) :
    dir.place here <+: place ∨ Strayed here dir paths place := by
  by_cases contained : Archive.isContained path
  · exact .inl ((Path.base_of_contained contained dir).trans at_)
  · exact .inr ⟨path, listed, contained, at_⟩

theorem Archive.within_extract (p : Path) (name : String) {target : Path}
    (below : ∀ place, target.place here <+: place → places place) :
    Within here places (extract p name target) fun _ => True := by
  refine .bind (within_opened p) fun _ _ => .bind (.ofOutcome _) fun packed _ => ?_
  refine .bind (.clear below) fun _ _ => .bind (.change _ fun d d' hd made => ?_) fun _ _ =>
    .bind (.ofOutcome _) fun _ _ => .pure trivial
  exact (Disk.sameBut_write made).mono fun place same =>
    below place (same ▸ hd ▸ List.prefix_refl _)

/-- The names that are read begin as they were asked to. -/
theorem Archive.within_names (p : Path) (beginning : String) :
    Within here places (names p beginning) fun found =>
      ∀ name ∈ found, ∃ rest, Text.after? beginning name = some rest := by
  refine .bind (within_opened p) fun _ _ => .pure fun name listed => ?_
  have named := (List.mem_filter.mp listed).2
  rw [Bool.and_eq_true] at named
  exact Option.isSome_iff_exists.mp named.1

namespace Bundle

/-- The paths of a bundle's libraries, given the names of its entries. -/
def libraryPaths (names : List String) : List String := names.filterMap (Text.after? librariesDir)

/-- The libraries of a bundle are put below the target, or where their paths stray to. -/
theorem sameBut_extractLibraries (bundle target : Path) (w : World) :
    w.disk.SameBut
      (fun place => target.place w.disk.here <+: place ∨
        ∃ names, (Archive.names bundle librariesDir w).1 = .ok names ∧
          Strayed w.disk.here target (libraryPaths names) place)
      (extractLibraries bundle target w).2.disk := by
  have reading := @Archive.within_names w.disk.here
    (fun place => target.place w.disk.here <+: place ∨
      ∃ names, (Archive.names bundle librariesDir w).1 = .ok names ∧
        Strayed w.disk.here target (libraryPaths names) place) bundle librariesDir
  refine sameBut_bind (reading.frame w rfl) fun names w' read here' => ?_
  have read : (Archive.names bundle librariesDir w).1 = .ok names := by rw [read]
  refine Within.sameBut (.mapM fun name listed => ?_) here'
  obtain ⟨path, behind⟩ := reading.returns w rfl names read name listed
  have path_listed : path ∈ libraryPaths names := List.mem_filterMap.mpr ⟨name, listed, behind⟩
  rw [behind, Option.getD_some]
  refine .bind (Archive.within_extract bundle name fun place at_ => ?_) fun _ _ => .pure trivial
  rcases below_or_strayed path_listed at_ with below | strayed
  · exact .inl below
  · exact .inr ⟨names, read, strayed⟩

end Bundle

/-- The libraries of a manifest are put below the directory of libraries, or where their paths
stray to. -/
theorem Manifest.sameBut_libraries (m : Manifest) (dir : Path) (w : World) :
    w.disk.SameBut
      (fun place => dir.place w.disk.here <+: place ∨
        Strayed w.disk.here dir (m.libraryJars.map LibraryJar.path) place)
      (Batch.ensure (m.libraryJars.map (LibraryJar.download · dir)) w).2.disk := by
  refine Within.sameBut (Batch.within_ensure fun r hr place at_ => ?_) rfl
  obtain ⟨l, hl, rfl⟩ := List.mem_map.mp hr
  exact below_or_strayed (List.mem_map_of_mem hl) at_

/-- **What providing libraries changes.**  Taking them out of a bundle and downloading those of a
manifest change only files below the directory of libraries, and those to which paths stray that do
not stay below the directory they are joined to. -/
theorem libraries_sameBut (dir : Path) (w : World) :
    (∀ bundle : Path, w.disk.SameBut
      (fun place => dir.place w.disk.here <+: place ∨
        ∃ names, (Archive.names bundle Bundle.librariesDir w).1 = .ok names ∧
          Strayed w.disk.here dir (Bundle.libraryPaths names) place)
      (Bundle.extractLibraries bundle dir w).2.disk) ∧
    ∀ m : Manifest, w.disk.SameBut
      (fun place => dir.place w.disk.here <+: place ∨
        Strayed w.disk.here dir (m.libraryJars.map LibraryJar.path) place)
      (Batch.ensure (m.libraryJars.map (LibraryJar.download · dir)) w).2.disk :=
  ⟨fun bundle => Bundle.sameBut_extractLibraries bundle dir w,
    fun m => Manifest.sameBut_libraries m dir w⟩

-- A path that strays from the directory of libraries, and where its library is put.
example :
    ¬ Archive.isContained "../../evil.jar" ∧
      ((Path.mk "/ws/build/libraries").join "../../evil.jar").place [] = ["ws", "evil.jar"] := by
  decide +kernel

/-! ## Paths that lead inward -/

/-- **A name that leads inward**: a relative path without two points. -/
structure Path.Inward (name : String) : Prop where
  relative : ¬ Text.startsWith "/" name
  straight : ".." ∉ Text.pieces '/' name

/-- Whether all that lies at or below a path is among some places. -/
def Path.Inside (here : Place) (places : Place → Prop) (p : Path) : Prop :=
  ∀ place, p.place here <+: place → places place

namespace Path

theorem inward_of_slashless (slashless : '/' ∉ name.toList) (ne : name ≠ "..") :
    Inward name where
  relative starts := slashless (List.mem_of_head? ((Text.startsWith_iff rfl).mp starts))
  straight := by
    rw [Text.pieces_of_notMem slashless, List.mem_singleton]
    exact ne.symm

/-- Two points are not made by what is written behind them without a slash. -/
theorem Inward.append (inward : Inward name) {ending : String} (slashless : '/' ∉ ending.toList)
    (long : 2 < ending.toList.length) : Inward (name ++ ending) := by
  constructor
  · intro starts
    rw [Text.startsWith_iff rfl, String.toList_append] at starts
    rcases text : name.toList with _ | ⟨c, cs⟩ <;> rw [text] at starts
    · exact slashless (List.mem_of_head? starts)
    · exact inward.relative ((Text.startsWith_iff rfl).mpr (text ▸ starts))
  · obtain ⟨before, last, alone, pieces⟩ := Text.exists_pieces_append slashless name
    have straight := inward.straight
    rw [alone, List.mem_append, not_or] at straight
    rw [pieces, List.mem_append, not_or, List.mem_singleton]
    refine ⟨straight.1, fun points => ?_⟩
    have short := congrArg (·.toList.length) points
    simp only [String.toList_append, List.length_append] at short
    have two : "..".toList.length = 2 := by decide
    omega

/-- **A name that leads inward** leads below any path. -/
theorem Inward.place_prefix (inward : Inward name) (p : Path) (here : Place) :
    p.place here <+: (p.join name).place here := by
  rw [place_join inward.relative]
  exact Disk.prefix_foldl_step inward.straight _

theorem Inside.join (inside : p.Inside here places) (inward : Inward name) :
    (p.join name).Inside here places :=
  fun place below => inside place ((inward.place_prefix p here).trans below)

theorem Inside.join_name (inside : p.Inside here places) (named : IsName name) :
    (p.join name).Inside here places :=
  inside.join (inward_of_slashless named.slashless named.ne_points)

theorem Inside.self (inside : p.Inside here places) : places (p.place here) :=
  inside _ List.prefix_rfl

end Path

/-- The jar of a tool is kept under a name of its own. -/
theorem ToolJar.isName_fileName (jar : ToolJar) : Path.IsName jar.fileName := by
  have long : ∀ name : String, jar.fileName = name → 4 ≤ name.toList.length := by
    rintro _ rfl
    rw [fileName, String.toList_append, List.length_append]
    exact Nat.le_add_left _ _
  refine ⟨fun same => ?_, fun same => ?_, fun same => ?_, ?_⟩
  · exact absurd (long _ same) (by decide)
  · exact absurd (long _ same) (by decide)
  · exact absurd (long _ same) (by decide)
  · rw [fileName, String.toList_append, String.toList_ofList, List.mem_append, not_or]
    refine ⟨fun listed => ?_, by decide⟩
    obtain ⟨c, -, same⟩ := List.mem_map.mp listed
    split at same
    · rename_i kept
      exact absurd (same ▸ kept) (by decide)
    · exact absurd same (by decide)

theorem ToolJar.inward_fileName (jar : ToolJar) : Path.Inward jar.fileName :=
  Path.inward_of_slashless jar.isName_fileName.slashless jar.isName_fileName.ne_points

/-! ## Stages that take from a cache -/

/-- A file that is read and taken apart stays as it is. -/
theorem Action.within_parse {α : Type} (file : Path) (parse : String → Outcome α) :
    Within here places (do ofOutcome (parse (← readText file))) fun _ => True :=
  .bind (.ask _ _) fun _ _ => (Within.ofOutcome _).imp fun _ _ => trivial

namespace ReleaseCache
variable {c : ReleaseCache}

theorem within_catalog (inside : c.root.Inside here places) (url : String) :
    Within here places (c.catalog url) fun _ => True := by
  have file : (c.root.join "catalog.json").Inside here places := inside.join_name (by decide)
  exact .bind (Download.within_fetch file) fun _ _ => within_parse _ _

theorem within_manifest (inside : c.root.Inside here places) {r : Release}
    (inward : Path.Inward r.id) : Within here places (c.manifest r) fun _ => True := by
  have file : ((c.root.join r.id).join "version.json").Inside here places :=
    (inside.join inward).join_name (by decide)
  exact .bind (Download.within_ensure file) fun _ _ => within_parse _ _

theorem within_assetIndex (inside : c.root.Inside here places) {id : String}
    (inward : Path.Inward id) (m : Manifest) :
    Within here places (c.assetIndex id m) fun _ => True := by
  have file : ((c.root.join id).join "asset-index.json").Inside here places :=
    (inside.join inward).join_name (by decide)
  exact .bind (Download.within_ensure file) fun _ _ => .ask _ _

end ReleaseCache

theorem LocatedAssets.inward_indexName {tag : String} (inward : Path.Inward tag) :
    Path.Inward (indexName tag) :=
  inward.append (by decide) (by decide)

theorem Profile.within_require (dir : Path) :
    Within here places (Profile.require dir) fun _ => True := by
  refine .bind (.isFile _) fun found _ => ?_
  split
  · exact .bind (.ask _ _) fun _ _ => (Within.ofOutcome _).imp fun _ _ => trivial
  · exact .throw _

/-! ## Assets -/

namespace AssetStore
variable {s : AssetStore}

theorem within_prepare (inside : s.root.Inside here places) {tag : String}
    (inward : Path.Inward tag) (url indexText : String) :
    Within here places (s.prepare url tag indexText) fun got =>
      ∀ r ∈ got.2, r.target.Inside here places := by
  have index : (s.indexFile tag).Inside here places :=
    (inside.join_name (by decide)).join (LocatedAssets.inward_indexName inward)
  have objects : s.objectsDir.Inside here places := inside.join_name (by decide)
  refine .bind (.ofOutcome _) fun _ parsed => ?_
  refine .bind (.bind (.makeParent _) fun _ _ => .writeFile _ index.self) fun _ _ => ?_
  refine .bind .disk fun d _ => .bind (.ofOutcome _) fun requests requested => ?_
  refine .pure fun r listed => ?_
  obtain ⟨o, -, given⟩ := exists_of_mapM_eq_ok requested listed
  by_cases valid : o.isValid
  · rw [request_eq valid] at given
    cases given
    intro place below
    refine objects place (List.IsPrefix.trans ?_ below)
    rw [target_download, AssetObject.place_object valid]
    exact List.prefix_append _ _
  · rw [request, AssetObject.path?, if_neg valid] at given
    cases given

theorem within_fill (inside : s.root.Inside here places) {tag : String}
    (inward : Path.Inward tag) (url indexText : String) :
    Within here places (s.fill url tag indexText) fun _ => True := by
  refine .bind (within_prepare inside inward url indexText) fun got below => ?_
  exact .bind (Batch.within_fetchBy _ below) fun _ _ => .pure trivial

end AssetStore

theorem AssetsRequest.within_run {r : AssetsRequest} (store : r.store.root.Inside here places)
    (info : r.infoFile.Inside here places)
    (inward : ∀ tag, r.manifest.assetTag? = some tag → Path.Inward tag) :
    Within here places r.run fun _ => True := by
  unfold run
  split
  · exact .throw _
  · rename_i tag named
    have filled : Within here places (r.fillStore tag) fun _ => True :=
      .bind (AssetStore.within_fill store (inward tag named) _ _) fun _ _ => .pure trivial
    have provided : Within here places (r.provide tag) fun _ => True := by
      unfold provide
      split
      · exact .pure trivial
      · exact filled
      · refine .bind .disk fun d _ => ?_
        split
        · exact .pure trivial
        · exact filled
    exact .bind provided fun _ _ => .bind (.makeParent _) fun _ _ =>
      .bind (.writeFile _ info.self) fun _ _ => .pure trivial

/-! ## Bundles -/

namespace Bundle

theorem within_readList (bundle : Path) (list : String) :
    Within here places (readList bundle list) fun _ => True := by
  have member : Within here places (Archive.readMember bundle list) fun _ => True := by
    refine .bind (Archive.within_opened bundle) fun _ _ => ?_
    dsimp only
    split
    · exact .pure trivial
    · exact .bind (.ofOutcome _) fun _ _ => .pure trivial
  refine .bind member fun _ _ => ?_
  split
  · exact .throw _
  · split
    · exact .pure trivial
    · exact .throw _

theorem within_extractServer (bundle : Path) {target : Path}
    (inside : target.Inside here places) :
    Within here places (extractServer bundle target) fun _ => True :=
  .bind (within_readList _ _) fun _ _ => .bind (.ofOutcome _) fun _ _ =>
    Archive.within_extract _ _ inside

theorem within_list (bundle : Path) (digest : String) :
    Within here places (list bundle digest) fun _ => True :=
  .bind (within_readList _ _) fun _ _ => .bind (.ofOutcome _) fun _ _ => .pure trivial

theorem within_libraries (bundle : Path) {file : Path} (inside : file.Inside here places) :
    Within here places (libraries bundle file) fun _ => True := by
  have kept : ∀ digest, Within here places (kept? file digest) fun _ => True := by
    intro digest
    refine .bind (.isFile _) fun _ _ => ?_
    split
    · exact .bind (.ask _ _) fun _ _ => .pure trivial
    · exact .pure trivial
  refine .bind (within_fileDigest _ _) fun digest _ => .bind (kept digest) fun found _ => ?_
  split
  · exact .pure trivial
  · exact .bind (within_list _ _) fun _ _ =>
      .bind (.bind (.makeParent _) fun _ _ => .writeFile _ inside.self) fun _ _ => .pure trivial

end Bundle

/-! ## Tools -/

/-- Whether programs change only files at some places. -/
def Surroundings.Confined (s : Surroundings) (here : Place) (places : Place → Prop) : Prop :=
  ∀ before l (d : Disk), d.here = here → d.SameBut places (s.run before l d).2

theorem Action.launch_apply (s : Surroundings) (l : Launch) (w : World) :
    launch s l w = ((s.run w.launches l w.disk).1,
      { w with disk := (s.run w.launches l w.disk).2, launches := w.launches ++ [l] }) :=
  ofOutcome_apply _ _

theorem Action.within_launch {s : Surroundings} (confined : s.Confined here places) (l : Launch) :
    Within here places (launch s l) fun _ => True := by
  refine ⟨fun w hw => ?_, fun _ _ _ _ => trivial⟩
  rw [launch_apply]
  exact confined w.launches l w.disk hw

/-- **A tool stays where its program stays**, and where its output is. -/
theorem ToolRun.within_run {s : Surroundings} (confined : s.Confined here places) {r : ToolRun}
    (output : r.output.Inside here places) (java : String) :
    Within here places (r.run s java) fun _ => True := by
  refine .bind (.clear output) fun _ _ => .bind (within_launch confined _) fun _ _ => ?_
  split
  · exact .pure trivial
  · exact .throw _

end Patchwork
