import Mathlib.Data.List.Dedup
import Patchwork.Proofs.Assets.Buckets
import Patchwork.Proofs.Disk.Trees

/-! Filling a store.  Installing the index writes one file, which is no object's, and makes directories
(`Disk.Written`), so that every object that stood still stands.  What is wanted then are the objects
that do not stand, one for each digest (`AssetCheck.mem_wanted_iff`); their places are apart, and a batch
of them does what `Batch.landed` says of it.  So a store that is filled holds every object, and whatever
comes of it, the objects that stood and those that the index does not name keep their bytes
(`AssetStore.fillBy_ends`). -/

namespace Patchwork
open Patchwork.Action Disk

namespace AssetCheck
variable {d : Disk} {objects : Path} {index : AssetIndex} {o : AssetObject}

/-- **What is wanted** are the objects that do not stand. -/
theorem mem_wanted_iff (valid : ∀ entry ∈ index.objects, entry.2.isValid) (d : Disk)
    (objects : Path) (o : AssetObject) :
    o ∈ (AssetCheck.of d objects index).wanted ↔
      o ∈ index.uniqueObjects ∧ ¬ o.StandsIn d objects := by
  rw [of_eq, wanted, List.mem_append, List.mem_filter, List.mem_filter, ← and_or_left]
  refine and_congr_right fun unique => ?_
  have valid' := AssetIndex.isValid_of_mem_uniqueObjects valid unique
  rw [← AssetObject.stateIn_eq_verified_iff valid']
  cases o.stateIn d objects <;> decide

theorem pairwise_wanted (d : Disk) (objects : Path) (index : AssetIndex) :
    (AssetCheck.of d objects index).wanted.Pairwise fun o p => o.fileName ≠ p.fileName := by
  have distinct := AssetIndex.pairwise_distinct (index.objects.map Prod.snd)
  rw [of_eq, wanted, List.pairwise_append]
  refine ⟨distinct.filter _, distinct.filter _, fun o missing p mismatched same => ?_⟩
  obtain ⟨listed, state⟩ := List.mem_filter.mp missing
  obtain ⟨listed', state'⟩ := List.mem_filter.mp mismatched
  -- distinct objects with one digest are one object, which looks one way only
  have one : o = p := by
    by_contra other
    have : Std.Symm fun o p : AssetObject => o.fileName ≠ p.fileName := ⟨fun _ _ => Ne.symm⟩
    exact distinct.forall listed listed' other same
  rw [one, beq_iff_eq] at state
  rw [state] at state'
  exact absurd state' (by decide)

/-- Each distinct object is there or wanted. -/
theorem length_verified_add (d : Disk) (objects : Path) (index : AssetIndex) :
    (AssetCheck.of d objects index).verified.length + (AssetCheck.of d objects index).wanted.length =
      index.uniqueObjects.length := by
  rw [of_eq, wanted, List.length_append]
  induction index.uniqueObjects with
  | nil => rfl
  | cons o os ih =>
    cases state : o.stateIn d objects <;> simp [state] at ih ⊢ <;> omega

end AssetCheck

namespace AssetIndex
variable {index : AssetIndex}

/-- There are as many distinct objects as digests. -/
theorem length_uniqueObjects (index : AssetIndex) :
    index.uniqueObjects.length =
      (index.objects.map fun entry => entry.2.hash.toLower).dedup.length := by
  have distinct : (index.uniqueObjects.map AssetObject.fileName).Nodup :=
    List.pairwise_map.mpr (pairwise_distinct _)
  rw [← List.length_map (f := AssetObject.fileName)]
  refine ((List.perm_ext_iff_of_nodup distinct (List.nodup_dedup _)).mpr fun digest => ?_).length_eq
  rw [List.mem_dedup, List.mem_map, List.mem_map]
  constructor
  · rintro ⟨o, unique, rfl⟩
    obtain ⟨entry, listed, rfl⟩ := List.mem_map.mp (mem_of_mem_distinct unique)
    exact ⟨entry, listed, rfl⟩
  · rintro ⟨entry, listed, rfl⟩
    obtain ⟨o, unique, same⟩ := exists_mem_distinct (List.mem_map_of_mem (f := Prod.snd) listed)
    exact ⟨o, unique, same⟩

end AssetIndex

namespace AssetStore
variable {s : AssetStore} {url tag text : String} {index : AssetIndex} {o : AssetObject}
  {w w' : World} {schedule : Nat → List Nat}

/-- The download of an object whose hash is a digest. -/
def download (s : AssetStore) (url : String) (o : AssetObject) : Download :=
  ⟨Text.trimEndOf '/' url ++ "/" ++ o.bucketPath, s.objectsDir.join o.bucketPath, some o.checksum⟩

theorem request_eq (valid : o.isValid) (s : AssetStore) (url : String) :
    s.request url o = .ok (s.download url o) := by
  rw [request, AssetObject.path?_of_isValid valid]
  rfl

/-- **What preparing does**: the index is installed, and the downloads are those of the objects that are
wanted then; where it fails, directories were made at most. -/
theorem ends_prepare (tree : w.disk.IsTree) (s : AssetStore) (url tag text : String) :
    Ends (s.prepare url tag text) w
      (fun got w₁ => ∃ index, AssetIndex.parse text = .ok index ∧
        Written (s.indexFile tag) w.disk w₁.disk ∧
        got = (AssetCheck.of w₁.disk s.objectsDir index,
          (AssetCheck.of w₁.disk s.objectsDir index).wanted.map (s.download url)))
      (fun _ w₁ => w.disk.Grown (fun _ => False) w₁.disk) := by
  unfold prepare
  rcases parsed : AssetIndex.parse text with e | index
  · exact .bind_of_error (ofOutcome_apply _ w) (.refl _ _)
  refine .bind_of_ok (ofOutcome_apply _ w) ?_
  have valid := AssetIndex.isValid_of_parse parsed
  refine .bind (ends_written tree (s.indexFile tag) text.toUTF8) fun _ w₁ written => ?_
  refine .bind_of_ok (disk_apply w₁) ?_
  have requested : (AssetCheck.of w₁.disk s.objectsDir index).wanted.mapM (s.request url) =
      .ok ((AssetCheck.of w₁.disk s.objectsDir index).wanted.map (s.download url)) := by
    refine mapM_eq_ok_map fun o wanted => request_eq ?_ s url
    have unique := ((AssetCheck.mem_wanted_iff valid _ _ o).mp wanted).1
    exact AssetIndex.isValid_of_mem_uniqueObjects valid unique
  dsimp only
  rw [requested]
  exact .pure ⟨index, rfl, written, rfl⟩

/-! ## The downloads -/

section
variable {o p : AssetObject} {d d' : Disk} {os : List AssetObject}

theorem target_download (s : AssetStore) (url : String) (o : AssetObject) :
    (s.download url o).target = s.objectsDir.join o.bucketPath := by
  rw [download]

/-- Objects whose places are at or below one another have one digest. -/
theorem eq_of_prefix_target (valid : o.isValid) (valid' : p.isValid) {here : Place}
    (below : (s.download url o).target.place here <+: (s.download url p).target.place here) :
    o.fileName = p.fileName := by
  rw [target_download, target_download] at below
  exact AssetObject.eq_of_prefix valid valid' below

/-- The downloads of distinct objects are apart. -/
theorem apart_downloads (valid : ∀ o ∈ os, o.isValid)
    (distinct : os.Pairwise fun o p => o.fileName ≠ p.fileName) (here : Place) :
    (os.map (s.download url)).Pairwise (TargetsApart here) := by
  refine List.pairwise_map.mpr (distinct.imp_of_mem ?_)
  intro o p listed listed' differ
  constructor <;> intro below
  · exact differ (eq_of_prefix_target (valid o listed) (valid p listed') below)
  · exact differ (eq_of_prefix_target (valid p listed') (valid o listed) below).symm

/-- The ways to all objects differ in their buckets only, so that an object that one of them avoids is
avoided by all. -/
theorem avoids_of_avoids (valid : o.isValid) (valid' : p.isValid)
    (avoids : (s.download url o).Avoids d (· = (s.download url o).target.place d.here)) :
    (s.download url p).Avoids d (· = (s.download url o).target.place d.here) := by
  unfold Download.Avoids at avoids ⊢
  rw [target_download] at avoids ⊢
  rw [target_download]
  intro front above proper place same
  rw [same, AssetObject.stop_object valid']
  rcases (AssetObject.front_object valid').mp ⟨above, proper⟩ with above | rfl
  · obtain ⟨above', proper'⟩ := (AssetObject.front_object valid).mpr (.inl above)
    have out := avoids front above' proper' _ rfl
    rwa [AssetObject.stop_object valid] at out
  · -- the bucket lies one place below the directory of objects, and the object two
    rw [AssetObject.stop_bucket valid', AssetObject.place_object valid]
    intro below
    have shorter := below.length_le
    simp at shorter

/-- **An object that is not among the targets stands as before**, where its path avoids them. -/
theorem stands_of_grown (grown : d.Grown (targetPlaces d.here (os.map (s.download url))) d')
    (valid : ∀ o ∈ os, o.isValid) (valid' : p.isValid)
    (avoids : ∀ o ∈ os, (s.download url p).Avoids d (· = (s.download url o).target.place d.here))
    (absent : ∀ o ∈ os, o.fileName ≠ p.fileName) (stands : p.StandsIn d s.objectsDir) :
    p.StandsIn d' s.objectsDir := by
  obtain ⟨bytes, found, digest⟩ := stands
  refine ⟨bytes, find_of_grown grown ?_ ?_ found, digest⟩
  · rintro front above proper _ ⟨_, among, rfl⟩
    obtain ⟨o, listed, rfl⟩ := List.mem_map.mp among
    have out := avoids o listed front
    rw [target_download s url p] at out
    exact out above proper _ rfl
  · rintro _ ⟨_, among, rfl⟩ below
    obtain ⟨o, listed, rfl⟩ := List.mem_map.mp among
    rw [target_download] at below
    exact absent o listed (AssetObject.eq_of_prefix (valid o listed) valid' below)

end

/-! ## The whole store -/

/-- **What a batch of wanted objects does**: it brings them, and the objects that stood still stand. -/
theorem stands_of_fetched {w₁ : World} {os : List AssetObject} {as : List Artifact}
    {order : List Nat} (tree : w₁.disk.IsTree) (valid : ∀ entry ∈ index.objects, entry.2.isValid)
    (wanted_iff : ∀ o, o ∈ os ↔ o ∈ index.uniqueObjects ∧ ¬ o.StandsIn w₁.disk s.objectsDir)
    (distinct : os.Pairwise fun o p => o.fileName ≠ p.fileName)
    (turns : ∀ i < os.length, 3 ≤ order.count i)
    (ran : Batch.fetchBy order (os.map (s.download url)) w₁ = (.ok as, w')) :
    ∀ entry ∈ index.objects, entry.2.StandsIn w'.disk s.objectsDir := by
  have valid_os : ∀ o ∈ os, o.isValid := fun o listed =>
    AssetIndex.isValid_of_mem_uniqueObjects valid ((wanted_iff o).mp listed).1
  have shared : ∀ r ∈ os.map (s.download url), r.Avoids w₁.disk (· = r.target.place w₁.disk.here) →
      ∀ r' ∈ os.map (s.download url), r'.Avoids w₁.disk (· = r.target.place w₁.disk.here) := by
    intro r among avoids r' among'
    obtain ⟨o, listed, rfl⟩ := List.mem_map.mp among
    obtain ⟨p, listed', rfl⟩ := List.mem_map.mp among'
    exact avoids_of_avoids (valid_os o listed) (valid_os p listed') avoids
  have finishes : Batch.Finishes order (os.map (s.download url)) w₁ :=
    Batch.finishes_of_turns (by rwa [List.length_map]) w₁
  have landed := Batch.landed tree (apart_downloads valid_os distinct w₁.disk.here) shared finishes ran
  obtain ⟨grown, -⟩ := Batch.grown_fetchBy tree order (os.map (s.download url))
  rw [ran] at grown
  have stands : ∀ o ∈ index.uniqueObjects, o.StandsIn w'.disk s.objectsDir := by
    intro o unique
    have valid_o := AssetIndex.isValid_of_mem_uniqueObjects valid unique
    by_cases stood : o.StandsIn w₁.disk s.objectsDir
    · refine stands_of_grown grown valid_os valid_o (fun p listed => ?_) (fun p listed same => ?_) stood
      · obtain ⟨avoids, -⟩ := landed _ (List.mem_map_of_mem listed)
        refine avoids_of_avoids (valid_os p listed) valid_o fun front above proper place same => ?_
        exact avoids front above proper place ⟨_, List.mem_map_of_mem listed, same.symm⟩
      · exact ((wanted_iff p).mp listed).2 ((AssetObject.standsIn_congr same).mpr stood)
    · have listed := (wanted_iff o).mpr ⟨unique, stood⟩
      obtain ⟨-, bytes, a, found, checked⟩ := landed _ (List.mem_map_of_mem listed)
      obtain ⟨accepted, -⟩ := (Download.check_eq_ok_iff rfl).mp checked
      rw [target_download] at found
      exact ⟨bytes, found, (AssetObject.accepts_checksum_iff valid_o).mp accepted⟩
  intro entry listed
  obtain ⟨o, unique, same⟩ :=
    AssetIndex.exists_mem_distinct (List.mem_map_of_mem (f := Prod.snd) listed)
  exact (AssetObject.standsIn_congr same).mp (stands o unique)

/-- **What filling a store comes to**, compared with the disk before: every object of the index stands;
each digest of an object that did not stand was requested once, and no other; and the numbers tell of
all digests. -/
structure Filled (s : AssetStore) (url : String) (index : AssetIndex) (before after : Disk)
    (requests : List Download) (summary : FillSummary) : Prop where
  stands : ∀ entry ∈ index.objects, entry.2.StandsIn after s.objectsDir
  sent : ∃ wanted : List AssetObject, requests = wanted.map (s.download url) ∧
    (wanted.Pairwise fun o p => o.hash.toLower ≠ p.hash.toLower) ∧
    (∀ o ∈ wanted, ∃ entry ∈ index.objects, entry.2 = o) ∧
    ∀ entry ∈ index.objects, (∃ o ∈ wanted, o.hash.toLower = entry.2.hash.toLower) ↔
      ¬ entry.2.StandsIn before s.objectsDir
  downloaded : summary.downloaded = requests.length
  whole : summary.reused + summary.downloaded = summary.requested
  requested : summary.requested =
    (index.objects.map fun entry => entry.2.hash.toLower).dedup.length

/-- The disk to compare with matters only as far as it tells which objects stand. -/
theorem Filled.of_stands {before before' after : Disk} {requests : List Download}
    {summary : FillSummary} (filled : s.Filled url index before after requests summary)
    (same : ∀ entry ∈ index.objects,
      entry.2.StandsIn before' s.objectsDir ↔ entry.2.StandsIn before s.objectsDir) :
    s.Filled url index before' after requests summary := by
  obtain ⟨wanted, requested, distinct, listed, exact'⟩ := filled.sent
  refine ⟨filled.stands, ⟨wanted, requested, distinct, listed, fun entry named => ?_⟩,
    filled.downloaded, filled.whole, filled.requested⟩
  rw [same entry named]
  exact exact' entry named

/-- **A batch of wanted objects that succeeds fills the store**, compared with the disk that it began
with. -/
theorem filled_of_fetched {w₁ : World} {as : List Artifact} {order : List Nat} (tree : w₁.disk.IsTree)
    (valid : ∀ entry ∈ index.objects, entry.2.isValid) {check : AssetCheck}
    (looked : check = AssetCheck.of w₁.disk s.objectsDir index) {requests : List Download}
    (requested : requests = check.wanted.map (s.download url))
    (turns : ∀ i < requests.length, 3 ≤ order.count i)
    (ran : Batch.fetchBy order requests w₁ = (.ok as, w')) :
    s.Filled url index w₁.disk w'.disk requests
      ⟨check.verified.length + requests.length, check.verified.length, requests.length⟩ := by
  have distinct := AssetCheck.pairwise_wanted w₁.disk s.objectsDir index
  have whole := AssetCheck.length_verified_add w₁.disk s.objectsDir index
  have wanted_iff := AssetCheck.mem_wanted_iff valid w₁.disk s.objectsDir
  rw [← looked] at distinct whole wanted_iff
  have size : requests.length = check.wanted.length := by rw [requested, List.length_map]
  have stands := stands_of_fetched tree valid wanted_iff distinct (size ▸ turns) (requested ▸ ran)
  refine ⟨stands, ⟨check.wanted, requested, distinct, fun o listed => ?_,
    fun entry named => ⟨?_, fun fallen => ?_⟩⟩, rfl, rfl, ?_⟩
  · exact List.mem_map.mp (AssetIndex.mem_of_mem_distinct ((wanted_iff o).mp listed).1)
  · rintro ⟨o, listed, same⟩ stood
    exact ((wanted_iff o).mp listed).2 ((AssetObject.standsIn_congr same).mpr stood)
  · obtain ⟨o, unique, same⟩ :=
      AssetIndex.exists_mem_distinct (List.mem_map_of_mem (f := Prod.snd) named)
    refine ⟨o, (wanted_iff o).mpr ⟨unique, fun stood => fallen ?_⟩, same⟩
    exact (AssetObject.standsIn_congr same).mp stood
  · rw [size, ← AssetIndex.length_uniqueObjects]
    exact whole

section Installed
variable {w₁ : World} (tree : w.disk.IsTree) (written : Written (s.indexFile tag) w.disk w₁.disk)
include tree written

/-- Installing the index leaves the objects that stand. -/
theorem stands_of_installed (valid : o.isValid) (stood : o.StandsIn w.disk s.objectsDir) :
    o.StandsIn w₁.disk s.objectsDir := by
  obtain ⟨bytes, found, digest⟩ := stood
  have apart := AssetObject.ne_indexFile valid s.objectsDir w.disk.here s tag
  exact ⟨bytes, written.find_of_find tree apart found, digest⟩

/-- In a store whose path does not lead back, installing the index brings no object. -/
theorem stands_installed_iff (straight : ".." ∉ s.root.parts) (valid : o.isValid) :
    o.StandsIn w₁.disk s.objectsDir ↔ o.StandsIn w.disk s.objectsDir := by
  refine ⟨fun ⟨bytes, found, digest⟩ => ⟨bytes, ?_, digest⟩, stands_of_installed tree written valid⟩
  have apart := AssetObject.ne_indexFile valid s.objectsDir w.disk.here s tag
  refine (written.find_iff tree (fun back => ?_) apart).mp found
  rw [AssetObject.parts_object valid, objectsDir, Path.parts_join (by decide)] at back
  rcases List.mem_append.mp back with back | back
  · rcases List.mem_append.mp back with back | back
    · exact straight back
    · exact absurd back (by decide)
  · exact (AssetObject.named valid ".." back).ne_points rfl

/-- **Neither installing the index nor a batch of wanted objects changes another object.** -/
theorem file?_of_fetched (valid : ∀ entry ∈ index.objects, entry.2.isValid) (valid' : o.isValid)
    (order : List Nat) (kept : o.StandsIn w.disk s.objectsDir ∨
      ∀ entry ∈ index.objects, entry.2.hash.toLower ≠ o.hash.toLower) :
    (Batch.fetchBy order ((AssetCheck.of w₁.disk s.objectsDir index).wanted.map (s.download url))
        w₁).2.disk.file? ((s.objectsDir.join o.bucketPath).place w.disk.here) =
      w.disk.file? ((s.objectsDir.join o.bucketPath).place w.disk.here) := by
  have apart := AssetObject.ne_indexFile valid' s.objectsDir w.disk.here s tag
  obtain ⟨grown, -⟩ := Batch.grown_fetchBy written.tree order
    ((AssetCheck.of w₁.disk s.objectsDir index).wanted.map (s.download url))
  rw [← written.same.file? _ apart, grown.file?_eq]
  rintro _ ⟨_, among, rfl⟩ below
  obtain ⟨p, listed, rfl⟩ := List.mem_map.mp among
  obtain ⟨unique, fallen⟩ := (AssetCheck.mem_wanted_iff valid _ _ p).mp listed
  have valid_p := AssetIndex.isValid_of_mem_uniqueObjects valid unique
  rw [target_download, written.grown.here] at below
  have same := AssetObject.eq_of_prefix valid_p valid' below
  rcases kept with stood | unnamed
  · have stood := stands_of_installed tree written valid' stood
    exact fallen ((AssetObject.standsIn_congr same).mpr stood)
  · obtain ⟨entry, named, rfl⟩ := List.mem_map.mp (AssetIndex.mem_of_mem_distinct unique)
    exact unnamed entry named same

end Installed

/-- **Filling a store.**  Whatever comes of it, by any schedule, the objects that stood and those that
the index does not name keep their bytes.  Where it succeeds, every object of the index stands, and what
was downloaded are exactly the objects that did not stand when the index had been installed; in a store
whose path does not lead back, these are the objects that did not stand before. -/
theorem fillBy_ends (tree : w.disk.IsTree) (turns : ∀ n, ∀ i < n, 3 ≤ (schedule n).count i)
    (s : AssetStore) (url tag text : String) :
    (∀ o : AssetObject, o.isValid →
      (o.StandsIn w.disk s.objectsDir ∨ ∀ index, AssetIndex.parse text = .ok index →
        ∀ entry ∈ index.objects, entry.2.hash.toLower ≠ o.hash.toLower) →
      (fillBy schedule s url tag text w).2.disk.file?
          ((s.objectsDir.join o.bucketPath).place w.disk.here) =
        w.disk.file? ((s.objectsDir.join o.bucketPath).place w.disk.here)) ∧
    ∀ summary w', fillBy schedule s url tag text w = (.ok summary, w') →
      ∃ index check requests artifacts w₁, AssetIndex.parse text = .ok index ∧
        s.prepare url tag text w = (.ok (check, requests), w₁) ∧
        Batch.fetchBy (schedule requests.length) requests w₁ = (.ok artifacts, w') ∧
        s.Filled url index w₁.disk w'.disk requests summary ∧
        (".." ∉ s.root.parts → s.Filled url index w.disk w'.disk requests summary) := by
  have prepared := ends_prepare tree s url tag text
  rcases ran : s.prepare url tag text w with ⟨e | ⟨check, requests⟩, w₁⟩
  · have stopped : fillBy schedule s url tag text w = (.error e, w₁) := by
      unfold fillBy
      exact bind_of_error ran _
    rw [stopped]
    exact ⟨fun o _ _ => (prepared.error ran).file?_eq fun _ => False.elim, nofun⟩
  obtain ⟨index, parsed, written, got⟩ := prepared.ok ran
  obtain ⟨looked, requested⟩ := Prod.mk.inj got
  have valid := AssetIndex.isValid_of_parse parsed
  have fetch : fillBy schedule s url tag text w =
      (Batch.fetchBy (schedule requests.length) requests >>= fun _ =>
        Pure.pure (FillSummary.mk (check.verified.length + requests.length) check.verified.length
          requests.length)) w₁ := by
    unfold fillBy
    rw [bind_of_ok ran]
  have left : (fillBy schedule s url tag text w).2 =
      (Batch.fetchBy (schedule requests.length) requests w₁).2 := by
    rw [fetch, bind_apply]
    rcases Batch.fetchBy (schedule requests.length) requests w₁ with ⟨e | as, w'⟩ <;> rfl
  constructor
  · intro o valid' kept
    rw [left, requested]
    exact file?_of_fetched tree written valid valid' _ (kept.imp_right fun unnamed =>
      unnamed index parsed)
  · intro summary w' filled
    rw [fetch] at filled
    obtain ⟨as, w₂, fetched, filled⟩ := bind_ran_iff.mp filled
    cases filled
    have done := filled_of_fetched written.tree valid looked (looked ▸ requested)
      (turns requests.length) fetched
    refine ⟨index, check, requests, as, w₁, parsed, rfl, fetched, done, fun straight => ?_⟩
    exact done.of_stands fun entry named =>
      (stands_installed_iff tree written straight (valid entry named)).symm

/-! ## A small store -/

/-- An object, and the text of an index that names it. -/
def demoObject : AssetObject := ⟨"fe05bcdcdc4928012781a5f1a2a77cbb5398e106", 3⟩

def demoIndex : String :=
  "\x7b\"objects\": \x7b\"a\": \x7b\"hash\": \"fe05bcdcdc4928012781a5f1a2a77cbb5398e106\", \"size\": 3\x7d\x7d\x7d"

/-- A disk with the object in a store. -/
def demoWorld : World :=
  ⟨(((Disk.empty.put ["m"] .dir).put ["m", "objects"] .dir).put ["m", "objects", "fe"] .dir).put
    ["m", "objects", "fe", "fe05bcdcdc4928012781a5f1a2a77cbb5398e106"] (.file "one".toUTF8), [], []⟩

/-- The store, and a path that leads through a missing directory to it. -/
def demoStore : AssetStore := ⟨⟨"/m"⟩⟩

def demoBack : AssetStore := ⟨⟨"/m/gone/.."⟩⟩

theorem demoIndex_parse : AssetIndex.parse demoIndex = .ok ⟨[("a", demoObject)]⟩ :=
  eq_ok_of_toOption (by decide +kernel)

theorem demo_installed : ∀ s ∈ [demoStore, demoBack],
    (s.install "7" demoIndex demoWorld).1.toOption = some () ∧
    ((s.install "7" demoIndex demoWorld).2.disk.find
      (s.objectsDir.join "fe/fe05bcdcdc4928012781a5f1a2a77cbb5398e106")).toOption =
        some (.file "one".toUTF8) := by
  decide +kernel

/-- Filling the store finds the object, by either path. -/
theorem fill_demo : ∀ s ∈ [demoStore, demoBack],
    ∃ w', s.fill "file:///up" "7" demoIndex demoWorld = (.ok ⟨1, 1, 0⟩, w') := by
  intro s among
  obtain ⟨installed, found⟩ := demo_installed s among
  obtain ⟨w₁, ran⟩ : ∃ w₁, s.install "7" demoIndex demoWorld = (.ok (), w₁) :=
    ⟨_, Prod.ext (eq_ok_of_toOption installed) rfl⟩
  rw [ran] at found
  have path : demoObject.bucketPath = "fe/fe05bcdcdc4928012781a5f1a2a77cbb5398e106" := by
    decide +kernel
  have digest : demoObject.hash.toLower = DigestAlgorithm.sha1.compute "one".toUTF8 := by
    decide +kernel
  have stands : demoObject.StandsIn w₁.disk s.objectsDir :=
    ⟨_, by rw [path]; exact eq_ok_of_toOption found, digest⟩
  have seen : demoObject.stateIn w₁.disk s.objectsDir = .verified :=
    (AssetObject.stateIn_eq_verified_iff (by decide +kernel)).mpr stands
  have check : AssetCheck.of w₁.disk s.objectsDir ⟨[("a", demoObject)]⟩ = ⟨[demoObject], [], []⟩ := by
    rw [AssetCheck.of_eq]
    have one : AssetIndex.uniqueObjects ⟨[("a", demoObject)]⟩ = [demoObject] := rfl
    rw [one]
    simp [seen]
  have prepared : s.prepare "file:///up" "7" demoIndex demoWorld =
      (.ok (⟨[demoObject], [], []⟩, []), w₁) := by
    unfold prepare
    rw [bind_of_outcome demoIndex_parse, bind_of_ok ran, bind_of_ok (disk_apply w₁)]
    rw [check]
    rfl
  refine ⟨w₁, ?_⟩
  unfold fill fillBy
  rw [bind_of_ok prepared]
  rfl

/-- A store with its object fills with nothing to download. -/
theorem fillBy_demo : demoWorld.disk.IsTree ∧ (∀ n, ∀ i < n, 3 ≤ (Batch.inOrder n).count i) ∧
    ∃ index check requests artifacts w₁ w', AssetIndex.parse demoIndex = .ok index ∧
      demoStore.prepare "file:///up" "7" demoIndex demoWorld = (.ok (check, requests), w₁) ∧
      Batch.fetchBy (Batch.inOrder requests.length) requests w₁ = (.ok artifacts, w') ∧
      demoStore.Filled "file:///up" index demoWorld.disk w'.disk requests ⟨1, 1, 0⟩ := by
  have tree : demoWorld.disk.IsTree := by decide +kernel
  have turns : ∀ n, ∀ i < n, 3 ≤ (Batch.inOrder n).count i := fun _ _ => Batch.le_count_inOrder
  obtain ⟨w', ran⟩ := fill_demo demoStore List.mem_cons_self
  obtain ⟨index, check, requests, artifacts, w₁, parsed, prepared, fetched, -, filled⟩ :=
    (fillBy_ends tree turns demoStore "file:///up" "7" demoIndex).2 _ _ ran
  exact ⟨tree, turns, index, check, requests, artifacts, w₁, w', parsed, prepared, fetched,
    filled (by decide +kernel)⟩

/-- Where the path of a store leads through a missing directory and back, an object that did not stand
before need not be downloaded: installing the index makes the directory, and the object is found. -/
theorem not_filled_demoBack : demoWorld.disk.IsTree ∧
    AssetIndex.parse demoIndex = .ok ⟨[("a", demoObject)]⟩ ∧
    ¬ demoObject.StandsIn demoWorld.disk demoBack.objectsDir ∧
    ∃ w', demoBack.fill "file:///up" "7" demoIndex demoWorld = (.ok ⟨1, 1, 0⟩, w') := by
  refine ⟨by decide +kernel, demoIndex_parse, ?_, fill_demo demoBack (by decide)⟩
  rw [← AssetObject.stateIn_eq_verified_iff (by decide +kernel)]
  decide +kernel

end AssetStore
end Patchwork
