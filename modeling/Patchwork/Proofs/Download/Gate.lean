import Patchwork.Proofs.Digest.Checksum
import Patchwork.Proofs.Disk.Cleared
import Patchwork.Proofs.Download.Batch

/-! The gate that a download passes.  The bytes whose digest was compared are the bytes that are put
in place (`Download.ends_install`), so that what a download returns has the expected digest when it is
read again (`Download.Verified`); and each way out with a failure discards what is in the place
(`Download.ends_fetch`).  Keeping a file that is in place rests on the same digest, and changes
nothing (`Download.ends_ensure`).  All of it together is `Download.gate`. -/

namespace Patchwork
open Patchwork.Action

namespace Download
variable {r : Download} {e : Checksum} {a : Artifact} {bytes : ByteArray} {w : World}
  {places : Place → Prop}

/-- Whether the file with some bytes is in place, and the bytes have the expected digest. -/
structure InPlace (r : Download) (e : Checksum) (bytes : ByteArray) (d : Disk) : Prop where
  file : d.find r.target = .ok (.file bytes)
  accepted : e.accepts (e.algorithm.compute bytes)

/-- **What a download with an expected digest returns.**  Its target is a file; the digest of that
file, computed anew, is the expected one; and it is described as it is. -/
structure Verified (r : Download) (e : Checksum) (a : Artifact) (w : World) : Prop where
  file : ∃ bytes, w.disk.find r.target = .ok (.file bytes) ∧ a.size = bytes.size
  digest : ∃ found, fileDigest e.algorithm r.target w = (.ok found, w) ∧ e.accepts found ∧
    e.digest.toLower = found
  url : a.url = r.url
  path : a.path = r.target
  expected : a.expected = r.expected
  state : a.state = .verified

theorem openFile_of_find {p : Path} (found : w.disk.find p = .ok (.file bytes)) :
    openFile p w = (.ok bytes, w) := by
  have read : w.disk.read p = .ok bytes := Disk.read_eq_ok_iff.mpr found
  exact (bind_of_ok (ask_of_ok found) _).trans (ask_of_ok read)

/-- The digest of a file that a path leads to. -/
theorem fileDigest_of_find {p : Path} (found : w.disk.find p = .ok (.file bytes))
    (algorithm : DigestAlgorithm) :
    fileDigest algorithm p w = (.ok (algorithm.compute bytes), w) :=
  bind_of_ok (openFile_of_find found) _

theorem InPlace.verified (h : r.InPlace e bytes w.disk) :
    r.Verified e ⟨r.url, r.target, r.expected, .verified, bytes.size⟩ w where
  file := ⟨bytes, h.file, rfl⟩
  digest := ⟨_, fileDigest_of_find h.file _, h.accepted, Checksum.accepts_compute_iff.mp h.accepted⟩
  url := rfl
  path := rfl
  expected := rfl
  state := rfl

section
variable (expected : r.expected = some e)
include expected

/-- Bytes pass when their digest is the expected one. -/
theorem check_eq_ok_iff :
    r.check bytes = .ok a ↔ e.accepts (e.algorithm.compute bytes) ∧
      a = ⟨r.url, r.target, r.expected, .verified, bytes.size⟩ := by
  unfold check
  rw [expected]
  dsimp only
  split
  · rename_i accepted
    exact ⟨fun h => ⟨accepted, (Except.ok.inj h).symm⟩, fun ⟨_, h⟩ => h ▸ rfl⟩
  · rename_i refused
    exact ⟨nofun, fun ⟨accepted, _⟩ => absurd accepted refused⟩

omit expected in
/-- **Obtaining** finds the bytes of the source and compares their digest, and changes nothing. -/
theorem ends_obtain (r : Download) (w : World) :
    Ends r.obtain w
      (fun got w' => w' = w ∧ sourceBytes w.disk r.url = .ok got.1 ∧ r.check got.1 = .ok got.2)
      (fun _ w' => w' = w) := by
  unfold obtain
  refine .bind_of_ok (disk_apply w) ?_
  split
  · exact .throw_bind rfl
  rcases known : sourceBytes w.disk r.url with fault | bytes
  · exact .bind_of_error (ofOutcome_apply _ w) rfl
  refine .bind_of_ok (ofOutcome_apply _ w) ?_
  rcases checked : r.check bytes with fault | a
  · exact .bind_of_error (ofOutcome_apply _ w) rfl
  exact .bind_of_ok (ofOutcome_apply _ w) (.pure ⟨rfl, rfl, checked⟩)

omit expected in
/-- What is put in place is there. -/
theorem ends_install (r : Download) (bytes : ByteArray) (w : World) :
    Ends (r.install bytes) w (fun _ w' => w'.disk.find r.target = .ok (.file bytes))
      (fun _ _ => True) := by
  unfold install
  refine .bind_of_ok (disk_apply w) ?_
  rcases put : w.disk.placeFile r.target bytes with fault | d
  · exact .throw trivial
  · exact .of_ok rfl (Disk.find_of_placeFile put).2

/-- **How a download ends**: with the expected file in place, or with nothing in its place. -/
theorem ends_fetch (w : World) :
    Ends r.fetch w (r.Verified e) (fun _ w' => w'.disk.Removed r.target) := by
  have attempted : Ends r.attempt w (r.Verified e) fun _ _ => True := by
    unfold attempt
    have some_end : ∀ (action : Action Unit) (w : World), Ends action w (fun _ _ => True) fun _ _ => True :=
      fun _ _ => ⟨fun _ => trivial, fun _ => trivial⟩
    refine .bind (some_end _ w) fun _ w₁ _ => ?_
    refine .bind ((ends_obtain r w₁).imp (fun _ _ => id) fun _ _ _ => trivial) ?_
    rintro ⟨bytes, a⟩ w₂ ⟨-, -, checked⟩
    dsimp only at checked ⊢
    obtain ⟨accepted, rfl⟩ := (check_eq_ok_iff expected).mp checked
    refine .bind (ends_install r bytes w₂) fun _ w₃ file => .pure ?_
    exact InPlace.verified ⟨file, accepted⟩
  refine .tryCatch attempted fun fault w₁ _ => ?_
  exact .bind_of_ok (discard_apply r.target w₁) (.throw (Disk.removed_remove w₁.disk r.target))

/-- **What keeping does**: a file that is in place is kept as it is, and otherwise nothing is. -/
theorem reusable?_apply (w : World) :
    (∃ bytes, r.InPlace e bytes w.disk ∧
      r.reusable? w = (.ok (some ⟨r.url, r.target, r.expected, .verified, bytes.size⟩), w)) ∨
    (∀ bytes, ¬ r.InPlace e bytes w.disk) ∧ r.reusable? w = (.ok none, w) := by
  unfold reusable?
  rw [expected]
  dsimp only
  rw [bind_of_ok (isFile_apply r.target w)]
  split
  · rename_i file
    obtain ⟨bytes, found⟩ := Disk.isFile_iff.mp file
    rw [bind_of_ok (openFile_of_find found)]
    split
    · rename_i accepted
      exact .inl ⟨bytes, ⟨found, accepted⟩, rfl⟩
    · rename_i refused
      refine .inr ⟨fun bytes' there => ?_, rfl⟩
      cases found.symm.trans there.file
      exact refused there.accepted
  · rename_i absent
    exact .inr ⟨fun bytes there => absent (Disk.isFile_iff.mpr ⟨bytes, there.file⟩), rfl⟩

/-- **How a download ends that keeps what is in place.**  Either the file was in place, and nothing
changes; or it is downloaded. -/
theorem ensure_cases (w : World) :
    (∃ bytes, r.InPlace e bytes w.disk ∧
      r.ensure w = (.ok ⟨r.url, r.target, r.expected, .verified, bytes.size⟩, w)) ∨
    (∀ bytes, ¬ r.InPlace e bytes w.disk) ∧ r.ensure w = r.fetch w := by
  unfold ensure
  rcases reusable?_apply expected w with ⟨bytes, there, kept⟩ | ⟨absent, unkept⟩
  · rw [bind_of_ok kept]
    exact .inl ⟨bytes, there, rfl⟩
  · rw [bind_of_ok unkept]
    exact .inr ⟨absent, rfl⟩

omit expected in
theorem within_ensure {here : Place}
    (below : ∀ place, r.target.place here <+: place → places place) :
    Within here places r.ensure fun _ => True := by
  refine .bind r.within_reusable? fun found _ => ?_
  split
  · exact .pure trivial
  · exact within_fetch below

/-- **The gate that a download with an expected digest passes.**  What it returns is in place and
verified; where it fails, nothing is left in the place of its target, unless the path of the target
ends in no name, and then at most an empty directory.  A download that keeps what is in place changes
nothing where the file has the expected digest, and is a download otherwise.  No file changes but what
is below the place of the target. -/
theorem gate (w : World) :
    (∀ action ∈ [r.fetch, r.ensure],
      Ends action w (r.Verified e) (fun _ w' => w'.disk.Removed r.target) ∧
      w.disk.SameBut (r.target.place w.disk.here <+: ·) (action w).2.disk) ∧
    (∀ bytes, r.InPlace e bytes w.disk → (r.ensure w).2 = w ∧ ∃ a, (r.ensure w).1 = .ok a) ∧
    ((∀ bytes, ¬ r.InPlace e bytes w.disk) → r.ensure w = r.fetch w) := by
  have fetched := ends_fetch expected w
  have kept : Ends r.ensure w (r.Verified e) (fun _ w' => w'.disk.Removed r.target) := by
    rcases ensure_cases expected w with ⟨bytes, there, ran⟩ | ⟨-, ran⟩
    · exact .of_ok ran there.verified
    · exact ⟨fun ran' => fetched.ok (ran ▸ ran'), fun ran' => fetched.error (ran ▸ ran')⟩
  refine ⟨?_, fun bytes there => ?_, fun absent => ?_⟩
  · rintro action (_ | ⟨_, _ | ⟨_, ⟨⟩⟩⟩)
    · exact ⟨fetched, (within_fetch fun _ below => below).sameBut rfl⟩
    · exact ⟨kept, (within_ensure fun _ below => below).sameBut rfl⟩
  · rcases ensure_cases expected w with ⟨_, -, ran⟩ | ⟨absent, -⟩
    · rw [ran]
      exact ⟨rfl, _, rfl⟩
    · exact absurd there (absent bytes)
  · rcases ensure_cases expected w with ⟨bytes, there, -⟩ | ⟨-, ran⟩
    · exact absurd there (absent bytes)
    · exact ran

end

/-- Where the target is a directory that is meant by a point, a download fails, and the directory is
left behind. -/
theorem fetch_of_point (isDir : w.disk.isDir r.target) (point : r.target.lastPiece? = some ".")
    (straight : ".." ∉ r.target.parts) :
    (∃ fault, (r.fetch w).1 = .error fault) ∧ (r.fetch w).2.disk.isDir r.target := by
  obtain ⟨refused, stays⟩ := Disk.remove_of_point isDir point straight
  have stays' := (Disk.remove_of_point stays point straight).2
  have unremoved : ∃ fault, remove r.target w =
      (.error fault, w.withDisk (w.disk.remove r.target).2) := by
    unfold remove
    rw [bind_of_ok (disk_apply w), Disk.isDir_iff.mp isDir]
    dsimp only
    rw [changeBy_apply, refused]
    exact ⟨_, rfl⟩
  obtain ⟨fault, unremoved⟩ := unremoved
  have unmade : r.makeRoom w = (.error fault, w.withDisk (w.disk.remove r.target).2) :=
    bind_of_error unremoved _
  have stopped : r.attempt w = (.error fault, w.withDisk (w.disk.remove r.target).2) :=
    bind_of_error unmade _
  unfold fetch
  rw [tryCatch_apply, stopped]
  dsimp only [discard]
  rw [bind_of_ok (discard_apply _ _)]
  exact ⟨⟨fault, rfl⟩, stays'⟩

/-! ## A small disk -/

/-- A disk with a source, a copy of it and a directory. -/
def demoDisk : Disk :=
  ((((Disk.empty.put ["src.txt"] (.file "hello".toUTF8)).put ["o"] .dir).put ["o", "f"]
    (.file "hello".toUTF8)).put ["o", "d"] .dir).put ["o", "d", "x"] (.file "old".toUTF8)

/-- The digest of the source. -/
def demoDigest : Checksum := ⟨.sha1, "aaf4c61ddcc5e8a2dabede0f3b482cd9aea9434d"⟩

/-- A download in the place of the copy. -/
def demo : Download := ⟨"file:///src.txt", ⟨"/o/f"⟩, some demoDigest⟩

/-- A download in the place of the directory, with a point behind it. -/
def demoPointed : Download := ⟨"file:///src.txt", ⟨"/o/d/."⟩, some demoDigest⟩

theorem gate_demo :
    (demo.ensure ⟨demoDisk, [], []⟩).2 = ⟨demoDisk, [], []⟩ ∧
      ∃ a, (demo.ensure ⟨demoDisk, [], []⟩).1 = .ok a := by
  have computed : DigestAlgorithm.sha1.compute "hello".toUTF8 = demoDigest.digest := by
    decide +kernel
  have accepted : demoDigest.accepts (DigestAlgorithm.sha1.compute "hello".toUTF8) := by
    rw [Checksum.accepts_compute_iff, ← computed, DigestAlgorithm.toLower_compute]
  exact (gate (r := demo) (e := demoDigest) rfl ⟨demoDisk, [], []⟩).2.1 _ ⟨rfl, accepted⟩

/-- What a failed download can leave behind: a directory that is meant by a point. -/
theorem exists?_fetch_demoPointed :
    demoPointed.expected = some demoDigest ∧ demoDisk.IsTree ∧
      (∃ fault, (demoPointed.fetch ⟨demoDisk, [], []⟩).1 = .error fault) ∧
      (demoPointed.fetch ⟨demoDisk, [], []⟩).2.disk.exists? demoPointed.target := by
  obtain ⟨failed, stays⟩ := @fetch_of_point demoPointed ⟨demoDisk, [], []⟩ (by decide +kernel)
    (by decide +kernel) (by decide +kernel)
  exact ⟨rfl, by decide +kernel, failed, Disk.exists?_iff.mpr ⟨_, Disk.isDir_iff.mp stays⟩⟩

end Download
end Patchwork
