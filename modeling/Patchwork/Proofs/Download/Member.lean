import Mathlib.Data.List.Pairwise
import Patchwork.Proofs.Disk.Grown
import Patchwork.Proofs.Download.Gate

/-! The stages of a download.  What a download needs is said before its first stage
(`Download.Served`): a target that names a file and that no file is in the way of, and a source whose
bytes pass.  Each stage then succeeds and leaves what the next one needs (`makeRoom_of_clear`,
`obtain_of_room`, `install_of_room`); and where the last two succeeded, this is what they found
(`ends_obtain`, `install_eq_ok_iff`).

Downloads that keep out of each other's way.  Where no target is at or below another one, and no
source at or below a target (`Unhindered`), all that the other members of a batch do to what a download
needs is to make directories (`Disk.Grown`).  So each stage of a member finds what it found when the
batch began (`found_nextStage`); and a member that is served when the batch begins (`Served`) comes
through its stages (`holds_nextStage`), and what another member does leaves it where it is
(`Holds.of_quiet`).  A download alone is one member (`exists_fetch_iff`). -/

namespace Patchwork
open Patchwork.Action Disk

namespace Disk
variable {d d' : Disk} {p : Path} {bytes : ByteArray}

/-- **Putting a file in the place of a path at once** takes a directory at each stop, and no directory
at the place. -/
theorem placeFile_eq_ok_iff :
    d.placeFile p bytes = .ok d' ↔ p.NamesFile ∧
      (∀ front, front <+: p.parts → front ≠ p.parts → d.at? (d.stop p front) = some .dir) ∧
      d.at? (p.place d.here) ≠ some .dir ∧ d' = d.put (p.place d.here) (.file bytes) := by
  unfold placeFile
  rw [bind_eq_ok_iff]
  constructor
  · rintro ⟨place, led, h⟩
    obtain ⟨takes, rfl, stops⟩ := locate_iff.mp led
    split at h <;> split at h <;> cases h
    rename_i vacant meant
    obtain ⟨file, ends⟩ : p.meansDir = false ∧ p.endsInName = true := by simpa using meant
    exact ⟨⟨takes, ends, file⟩, stops, vacant, rfl⟩
  · rintro ⟨names, stops, vacant, rfl⟩
    refine ⟨_, locate_iff.mpr ⟨names.toTakes, rfl, stops⟩, ?_⟩
    rw [if_neg (by simp [names.file, names.ends])]
    split
    · rename_i dir
      exact absurd dir vacant
    · rfl

end Disk

namespace Download
variable {r : Download} {w w' : World} {bytes : ByteArray} {a : Artifact}

/-- **Whether there is room** for a download: directories at the stops of its target, and nothing at
its place. -/
structure Room (r : Download) (d : Disk) : Prop where
  stops : ∀ front, front <+: r.target.parts → front ≠ r.target.parts →
    d.at? (d.stop r.target front) = some .dir
  free : d.at? (r.target.place d.here) = none

/-- **Making room** where no file is in the way: nothing changes outside of the place of the target,
but that directories are made above it. -/
theorem makeRoom_of_clear (names : r.target.NamesFile) (straight : ".." ∉ r.target.parts)
    (clear : w.disk.Clear r.target)
    (missing : ∀ front, front <+: r.target.parts → front ≠ r.target.parts →
      w.disk.at? (w.disk.stop r.target front) = none →
      w.disk.at? (r.target.place w.disk.here) = none)
    (root : w.disk.at? (w.disk.start r.target) = some .dir) :
    ∃ d, r.makeRoom w = (.ok (), w.withDisk d) ∧ r.Room d ∧
      w.disk.Quiet (r.target.place w.disk.here) d := by
  have approach : w.disk.Approach r.target :=
    ⟨root, clear, fun _ => stop_ne_place names.ends straight, missing⟩
  obtain ⟨d, cleared, free, rebuilt⟩ := approach.exists_cleared names.toTakes names.ends fun meant => by
    simp [names.file] at meant
  refine ⟨d, cleared, ⟨fun front above apart => ?_, ?_⟩, rebuilt.quiet straight⟩
  · rw [stop_eq rebuilt.here]
    exact rebuilt.stops front above apart
  · rwa [rebuilt.here]

/-- **Obtaining** succeeds where there is room and the bytes of the source pass. -/
theorem obtain_of_room (names : r.target.NamesFile) (room : r.Room w.disk)
    (known : sourceBytes w.disk r.url = .ok bytes) (checked : r.check bytes = .ok a) :
    r.obtain w = (.ok (bytes, a), w) := by
  obtain ⟨front, name, parts, -⟩ := Path.exists_parts_of_endsInName names.ends
  obtain ⟨q, parent, isParent⟩ := Path.exists_parent (p := r.target) (by simp [parts])
  have staging : r.stagingDir = q := by rw [stagingDir, parent, Option.getD_some]
  have same_stop : ∀ front, w.disk.stop q front = w.disk.stop r.target front := fun front => by
    rw [stop, stop, Disk.start, Disk.start, isParent.isAbsolute]
  have ready : w.disk.isDir q || q.text == "" := by
    by_cases blank : q.text = ""
    · simp [blank]
    have stops : ∀ front, front <+: q.parts → w.disk.at? (w.disk.stop q front) = some .dir := by
      intro front' above
      have proper := proper_of_isParent isParent (by simp [parts]) above
      rw [same_stop]
      exact room.stops front' proper.1 proper.2
    have takes : Takes q := ⟨isParent.fits names.fits blank, fun name listed =>
      names.short name ((isParent.parts ▸ List.dropLast_prefix _).subset listed)⟩
    have led : w.disk.locate q = .ok (q.place w.disk.here) :=
      locate_iff.mpr ⟨takes, rfl, fun front above _ => stops front above⟩
    have dir : w.disk.at? (q.place w.disk.here) = some .dir := stop_parts w.disk q ▸ stops _ List.prefix_rfl
    simp [isDir_iff.mpr (find_of_locate led dir)]
  unfold obtain
  rw [bind_of_ok (disk_apply w), staging, if_neg (by simp [ready])]
  dsimp only
  rw [bind_of_outcome known, bind_of_outcome checked]
  rfl

/-- **Putting in place** takes room, and changes nothing but the place of the target. -/
theorem install_eq_ok_iff :
    r.install bytes w = (.ok (), w') ↔ r.target.NamesFile ∧
      (∀ front, front <+: r.target.parts → front ≠ r.target.parts →
        w.disk.at? (w.disk.stop r.target front) = some .dir) ∧
      w.disk.at? (r.target.place w.disk.here) ≠ some .dir ∧
      w' = w.withDisk (w.disk.put (r.target.place w.disk.here) (.file bytes)) := by
  unfold install
  rw [bind_of_ok (disk_apply w)]
  rcases put : w.disk.placeFile r.target bytes with fault | d
  · refine ⟨nofun, fun ⟨names, stops, vacant, _⟩ => ?_⟩
    rw [placeFile_eq_ok_iff.mpr ⟨names, stops, vacant, rfl⟩] at put
    cases put
  · obtain ⟨names, stops, vacant, rfl⟩ := placeFile_eq_ok_iff.mp put
    constructor
    · intro ran
      cases ran
      exact ⟨names, stops, vacant, rfl⟩
    · rintro ⟨-, -, -, rfl⟩
      rfl

end Download

/-! ## Downloads that keep out of each other's way -/

/-- The places of the targets of some downloads. -/
def targetPlaces (here : Place) (rs : List Download) (place : Place) : Prop :=
  ∃ r ∈ rs, r.target.place here = place

/-- Whether neither of two targets is at or below the other one. -/
def TargetsApart (here : Place) (r r' : Download) : Prop :=
  ¬ r.target.place here <+: r'.target.place here ∧ ¬ r'.target.place here <+: r.target.place here

instance (here : Place) : Std.Symm (TargetsApart here) := ⟨fun _ _ => And.symm⟩

/-- **Whether downloads keep out of each other's way** on a disk: no target is at or below another
one, no source is at or below a target, and no path leads back. -/
structure Unhindered (d : Disk) (rs : List Download) : Prop where
  tree : d.IsTree
  standing : d.at? d.here = some .dir
  apart : rs.Pairwise (TargetsApart d.here)
  straight : ∀ r ∈ rs, ".." ∉ r.target.parts
  sources : ∀ r ∈ rs, ∀ p, sourcePath r.url = .ok p → ".." ∉ p.parts ∧
    ∀ place, targetPlaces d.here rs place → ¬ place <+: p.place d.here

/-- **Whether a download is served** by a disk: its target names a file that no file is in the way of,
and the bytes of its source pass. -/
structure Served (d : Disk) (r : Download) (bytes : ByteArray) (a : Artifact) : Prop where
  names : r.target.NamesFile
  clear : d.Clear r.target
  known : sourceBytes d r.url = .ok bytes
  checked : r.check bytes = .ok a

section
variable {d d' : Disk} {rs : List Download} {r r' : Download} {bytes : ByteArray} {a : Artifact}

theorem sourceBytes_eq_ok_iff {url : String} :
    sourceBytes d url = .ok bytes ↔ ∃ p, sourcePath url = .ok p ∧ d.read p = .ok bytes := by
  unfold sourceBytes
  rw [bind_eq_ok_iff]
  constructor
  · rintro ⟨p, path, h⟩
    refine ⟨p, path, ?_⟩
    rcases read : d.read p with e | bytes' <;> rw [read] at h <;> cases h
    rfl
  · rintro ⟨p, path, read⟩
    refine ⟨p, path, ?_⟩
    rw [read]
    rfl

namespace Unhindered
variable (h : Unhindered d rs)
include h

theorem single (listed : r ∈ rs) : Unhindered d [r] where
  tree := h.tree
  standing := h.standing
  apart := List.pairwise_singleton _ _
  straight := fun r' hr' => h.straight r' (List.mem_singleton.mp hr' ▸ listed)
  sources := by
    intro r' hr' p path
    rw [List.mem_singleton.mp hr'] at path
    obtain ⟨straight, out⟩ := h.sources r listed p path
    refine ⟨straight, ?_⟩
    rintro place ⟨r'', hr'', at_⟩
    exact out place ⟨r'', List.mem_singleton.mp hr'' ▸ listed, at_⟩

/-- Two targets are apart, or they are one. -/
theorem eq_or_apart (listed : r ∈ rs) (listed' : r' ∈ rs)
    (below : r'.target.place d.here <+: r.target.place d.here) : r' = r := by
  by_contra other
  exact (h.apart.forall listed' listed other).1 below

/-- The targets of two members are apart. -/
theorem apart_of_ne {index index' : Nat} (ne : index ≠ index') (listed : rs[index]? = some r)
    (listed' : rs[index']? = some r') : TargetsApart d.here r r' := by
  obtain ⟨inside, rfl⟩ := List.getElem?_eq_some_iff.mp listed
  obtain ⟨inside', rfl⟩ := List.getElem?_eq_some_iff.mp listed'
  have pairs := List.pairwise_iff_getElem.mp h.apart
  rcases Nat.lt_or_gt_of_ne ne with before | behind
  · exact pairs index index' inside inside' before
  · exact (pairs index' index inside' inside behind).symm

/-- The stops of a target are outside of all targets. -/
theorem stop_outside (listed : r ∈ rs) (ends : r.target.endsInName) {front : List String}
    (above : front <+: r.target.parts) (proper : front ≠ r.target.parts) :
    ∀ place, targetPlaces d.here rs place → ¬ place <+: d.stop r.target front := by
  rintro _ ⟨r', listed', rfl⟩ below
  have straight := h.straight r listed
  have same := h.eq_or_apart listed listed' (below.trans (stop_prefix_place straight above))
  rw [same] at below
  exact stop_ne_place ends straight above proper below

/-- A source is read as before. -/
theorem sourceBytes_iff (listed : r ∈ rs) (grown : d.Grown (targetPlaces d.here rs) d') :
    sourceBytes d' r.url = .ok bytes ↔ sourceBytes d r.url = .ok bytes := by
  rw [sourceBytes_eq_ok_iff, sourceBytes_eq_ok_iff]
  refine exists_congr fun p => and_congr_right fun path => ?_
  obtain ⟨straight, out⟩ := h.sources r listed p path
  exact read_of_grown h.tree grown straight out

/-- What no file is in the way of stays so, and the other way round. -/
theorem clear_iff (listed : r ∈ rs) (ends : r.target.endsInName)
    (grown : d.Grown (targetPlaces d.here rs) d') : d'.Clear r.target ↔ d.Clear r.target := by
  unfold Clear
  refine forall_congr' fun front => forall_congr' fun above => forall_congr' fun proper => ?_
  refine forall_congr' fun bytes => not_congr ?_
  rw [stop_eq grown.here, grown.file_iff (h.stop_outside listed ends above proper)]

/-- The place where the target's path starts is a directory. -/
theorem start_dir (p : Path) : d.at? (d.start p) = some .dir := by
  unfold Disk.start
  split
  · exact at?_nil d
  · exact h.standing

end Unhindered

/-! ## What a stage found -/

namespace Batch

/-- **What a member has found out** about the disk that the batch began with. -/
def Found (d : Disk) (m : BatchMember) : Prop :=
  match m.stage with
  | .waiting | .roomy => True
  | .obtained bytes a =>
    sourceBytes d m.download.url = .ok bytes ∧ m.download.check bytes = .ok a
  | .placed a => ∃ bytes, Served d m.download bytes a
  | .stopped => False

/-- Making room only makes directories, apart from the place of the target. -/
theorem grown_makeRoom (r : Download) (w : World) :
    w.disk.Grown (· = r.target.place w.disk.here) (r.makeRoom w).2.disk := by
  have removed := grown_remove w.disk r.target
  have left := remove_snd r.target w
  unfold Download.makeRoom clear
  rw [bind_apply]
  rcases ran : Action.remove r.target w with ⟨e | _, w₁⟩ <;> rw [ran] at left <;>
    dsimp only at left ⊢ <;> subst left
  · exact removed
  · refine removed.trans ?_
    unfold makeParent
    rcases r.target.parent? with _ | q
    · exact .refl _ _
    · dsimp only
      rw [Action.makeDirs, changeBy_apply]
      exact grown_makeDirs _ _

/-- **A stage that succeeds finds what it finds on the disk that the batch began with.** -/
theorem found_nextStage {d : Disk} {rs : List Download} {m : BatchMember} {s : BatchStage}
    {w w' : World} (h : Unhindered d rs) (listed : m.download ∈ rs)
    (grown : d.Grown (targetPlaces d.here rs) w.disk) (found : Found d m)
    (ran : nextStage m w = (.ok s, w')) :
    Found d ⟨m.download, s⟩ ∧ d.Grown (targetPlaces d.here rs) w'.disk := by
  obtain ⟨r, stage⟩ := m
  dsimp only at listed
  have among : ∀ place, place = r.target.place w.disk.here → targetPlaces d.here rs place :=
    fun place same => ⟨r, listed, by rw [same, grown.here]⟩
  cases stage with
  | waiting =>
    have grown' := grown.trans ((grown_makeRoom r w).mono among)
    dsimp only [nextStage] at ran
    rcases made : r.makeRoom w with ⟨e | _, w₁⟩
    · rw [bind_of_error made] at ran
      cases ran
    · rw [bind_of_ok made] at ran
      cases ran
      rw [made] at grown'
      exact ⟨trivial, grown'⟩
  | roomy =>
    dsimp only [nextStage] at ran
    rcases got : r.obtain w with ⟨e | ⟨bytes, a⟩, w₁⟩
    · rw [bind_of_error got] at ran
      cases ran
    · obtain ⟨rfl, known, checked⟩ := (r.ends_obtain w).ok got
      rw [bind_of_ok got] at ran
      cases ran
      exact ⟨⟨(h.sourceBytes_iff listed grown).mp known, checked⟩, grown⟩
  | obtained bytes a =>
    dsimp only [nextStage] at ran
    rcases put : r.install bytes w with ⟨e | _, w₁⟩
    · rw [bind_of_error put] at ran
      cases ran
    · obtain ⟨names, stops, -, rfl⟩ := Download.install_eq_ok_iff.mp put
      rw [bind_of_ok put] at ran
      cases ran
      have clear : w.disk.Clear r.target := by
        intro front above proper bytes' file
        cases (stops front above proper).symm.trans file
      obtain ⟨front, name, place⟩ := Path.exists_place_of_endsInName names.ends w.disk.here
      have ne : r.target.place w.disk.here ≠ [] := by
        rw [place]
        exact List.concat_ne_nil _ _
      refine ⟨⟨bytes, names, (h.clear_iff listed names.ends grown).mp clear, found.1, found.2⟩, ?_⟩
      exact grown.trans ((Quiet.put _ ne _).grown.mono among)
  | placed a =>
    cases ran
    exact ⟨found, grown⟩
  | stopped => exact found.elim

/-! ## What a member that is served holds -/

/-- **What a member that is served holds**, at each of its stages. -/
def Holds (d₀ d : Disk) (m : BatchMember) : Prop :=
  match m.stage with
  | .waiting => d.at? (m.download.target.place d.here) = d₀.at? (m.download.target.place d₀.here)
  | .roomy => m.download.Room d
  | .obtained bytes a =>
    m.download.Room d ∧ sourceBytes d₀ m.download.url = .ok bytes ∧ m.download.check bytes = .ok a
  | .placed a => ∃ bytes, d.find m.download.target = .ok (.file bytes) ∧
    sourceBytes d₀ m.download.url = .ok bytes ∧ m.download.check bytes = .ok a
  | .stopped => False

section
variable {d₀ : Disk} {m : BatchMember} {w : World} (h : Unhindered d₀ rs)
  (listed : m.download ∈ rs) (grown : d₀.Grown (targetPlaces d₀.here rs) w.disk)
  (served : ∃ bytes a, Served d₀ m.download bytes a)
include h listed grown served

/-- **A stage of a member that is served succeeds**, and disturbs nothing but the place of its
target. -/
theorem holds_nextStage (holds : Holds d₀ w.disk m) :
    ∃ s d, nextStage m w = (.ok s, w.withDisk d) ∧ Holds d₀ d ⟨m.download, s⟩ ∧
      w.disk.Quiet (m.download.target.place w.disk.here) d := by
  obtain ⟨r, stage⟩ := m
  dsimp only at listed served ⊢
  obtain ⟨bytes, a, served⟩ := served
  have straight := h.straight r listed
  obtain ⟨front, name, place⟩ := Path.exists_place_of_endsInName served.names.ends w.disk.here
  have ne : r.target.place w.disk.here ≠ [] := by
    rw [place]
    exact List.concat_ne_nil _ _
  cases stage with
  | waiting =>
    have clear := (h.clear_iff listed served.names.ends grown).mpr served.clear
    have outside : ∀ front, front <+: r.target.parts → front ≠ r.target.parts →
        ∀ place, targetPlaces d₀.here rs place → ¬ place <+: d₀.stop r.target front :=
      fun front above proper => h.stop_outside listed served.names.ends above proper
    -- on a tree nothing stands behind what is missing
    have missing : ∀ front, front <+: r.target.parts → front ≠ r.target.parts →
        w.disk.at? (w.disk.stop r.target front) = none →
        w.disk.at? (r.target.place w.disk.here) = none := by
      intro front above proper free
      rw [stop_eq grown.here] at free
      have free₀ : d₀.at? (d₀.stop r.target front) = none := by
        rcases grown.outside _ (outside front above proper) with same | ⟨free₀, -⟩
        · exact same ▸ free
        · exact free₀
      obtain ⟨rest, whole⟩ := stop_prefix_place (d := d₀) straight above
      have none := h.tree.none_of_append free₀ rest
      rw [whole] at none
      exact Eq.trans holds none
    have root : w.disk.at? (w.disk.start r.target) = some .dir := by
      obtain ⟨front', name', parts, -⟩ := Path.exists_parts_of_endsInName served.names.ends
      have proper : [] ≠ r.target.parts := by simp [parts]
      have dir := grown.dir (outside [] List.nil_prefix proper) (h.start_dir r.target)
      have start : w.disk.start r.target = d₀.start r.target := stop_eq grown.here r.target []
      rw [start]
      exact dir
    obtain ⟨d, made, room, quiet⟩ :=
      Download.makeRoom_of_clear served.names straight clear missing root
    exact ⟨.roomy, d, bind_of_ok made _, room, quiet⟩
  | roomy =>
    have known := (h.sourceBytes_iff listed grown).mpr served.known
    have got := Download.obtain_of_room served.names holds known served.checked
    exact ⟨.obtained bytes a, w.disk, bind_of_ok got _, ⟨holds, served.known, served.checked⟩,
      .refl _ _⟩
  | obtained bytes' a' =>
    obtain ⟨room, known, checked⟩ := holds
    have vacant : w.disk.at? (r.target.place w.disk.here) ≠ some .dir := fun dir =>
      nomatch room.free.symm.trans dir
    have put : r.install bytes' w = (.ok (), w.withDisk
        (w.disk.put (r.target.place w.disk.here) (.file bytes'))) :=
      Download.install_eq_ok_iff.mpr ⟨served.names, room.stops, vacant, rfl⟩
    refine ⟨.placed a', _, bind_of_ok put _, ⟨bytes', ?_, known, checked⟩, .put _ ne _⟩
    refine find_file_iff.mpr ⟨served.names.toTakes, served.names.file, fun front above proper => ?_,
      at?_put_self _ ne _⟩
    have dir := room.stops front above proper
    have apart : w.disk.stop r.target front ≠ r.target.place w.disk.here := by
      intro same
      rw [same, room.free] at dir
      cases dir
    exact (at?_put _ _ _ apart).trans dir
  | placed a' =>
    exact ⟨.placed a', w.disk, rfl, holds, .refl _ _⟩
  | stopped => exact holds.elim

end

/-- **What another member does leaves a member where it is**: its target is apart from the other
one's. -/
theorem Holds.of_quiet {d₀ : Disk} {m : BatchMember} (holds : Holds d₀ d m)
    (straight : ".." ∉ m.download.target.parts) {place : Place}
    (apart : ¬ place <+: m.download.target.place d.here)
    (apart' : ¬ m.download.target.place d.here <+: place) (quiet : d.Quiet place d') :
    Holds d₀ d' m := by
  obtain ⟨r, stage⟩ := m
  dsimp only at straight apart apart'
  have same : d'.at? (r.target.place d'.here) = d.at? (r.target.place d.here) := by
    rw [quiet.here]
    exact quiet.at?_eq apart apart'
  have stops : ∀ front, front <+: r.target.parts → d.at? (d.stop r.target front) = some .dir →
      d'.at? (d'.stop r.target front) = some .dir := by
    intro front above dir
    rw [stop_eq quiet.here]
    refine quiet.grown.dir ?_ dir
    rintro _ rfl below
    exact apart (below.trans (stop_prefix_place straight above))
  have room_of : r.Room d → r.Room d' := fun room =>
    ⟨fun front above proper => stops front above (room.stops front above proper),
      same.trans room.free⟩
  cases stage with
  | waiting => exact same.trans holds
  | roomy => exact room_of holds
  | obtained bytes a => exact ⟨room_of holds.1, holds.2⟩
  | placed a =>
    obtain ⟨bytes, found, rest⟩ := holds
    obtain ⟨takes, file, dirs, stands⟩ := find_file_iff.mp found
    exact ⟨bytes, find_file_iff.mpr ⟨takes, file, fun front above proper =>
      stops front above (dirs front above proper), same.trans stands⟩, rest⟩
  | stopped => exact holds.elim

/-! ## A download alone -/

section
variable {s : BatchStage} {w w' : World}

theorem nextStage_waiting_iff :
    nextStage ⟨r, .waiting⟩ w = (.ok s, w') ↔ r.makeRoom w = (.ok (), w') ∧ s = .roomy := by
  dsimp only [nextStage]
  rw [bind_ran_iff]
  constructor
  · rintro ⟨_, _, made, ⟨⟩⟩
    exact ⟨made, rfl⟩
  · rintro ⟨made, rfl⟩
    exact ⟨_, _, made, rfl⟩

theorem nextStage_roomy_iff :
    nextStage ⟨r, .roomy⟩ w = (.ok s, w') ↔
      ∃ bytes a, r.obtain w = (.ok (bytes, a), w') ∧ s = .obtained bytes a := by
  dsimp only [nextStage]
  rw [bind_ran_iff]
  constructor
  · rintro ⟨⟨bytes, a⟩, _, got, ⟨⟩⟩
    exact ⟨bytes, a, got, rfl⟩
  · rintro ⟨bytes, a, got, rfl⟩
    exact ⟨_, _, got, rfl⟩

theorem nextStage_obtained_iff :
    nextStage ⟨r, .obtained bytes a⟩ w = (.ok s, w') ↔
      r.install bytes w = (.ok (), w') ∧ s = .placed a := by
  dsimp only [nextStage]
  rw [bind_ran_iff]
  constructor
  · rintro ⟨_, _, put, ⟨⟩⟩
    exact ⟨put, rfl⟩
  · rintro ⟨put, rfl⟩
    exact ⟨_, _, put, rfl⟩

/-- A download alone goes through the stages of a member. -/
theorem fetch_iff_stages :
    r.fetch w = (.ok a, w') ↔ ∃ bytes w₁ w₂, nextStage ⟨r, .waiting⟩ w = (.ok .roomy, w₁) ∧
      nextStage ⟨r, .roomy⟩ w₁ = (.ok (.obtained bytes a), w₂) ∧
      nextStage ⟨r, .obtained bytes a⟩ w₂ = (.ok (.placed a), w') := by
  have caught : r.fetch w = (.ok a, w') ↔ r.attempt w = (.ok a, w') := by
    unfold Download.fetch
    rw [tryCatch_apply]
    rcases r.attempt w with ⟨e | a', w₁⟩
    · dsimp only [Download.discard]
      rw [bind_of_ok (discard_apply _ _)]
      exact ⟨nofun, nofun⟩
    · rfl
  rw [caught, Download.attempt]
  constructor
  · intro ran
    obtain ⟨_, w₁, made, ran⟩ := bind_ran_iff.mp ran
    obtain ⟨⟨bytes, a'⟩, w₂, got, ran⟩ := bind_ran_iff.mp ran
    obtain ⟨_, w₃, put, ⟨⟩⟩ := bind_ran_iff.mp ran
    exact ⟨bytes, w₁, w₂, nextStage_waiting_iff.mpr ⟨made, rfl⟩,
      nextStage_roomy_iff.mpr ⟨bytes, a, got, rfl⟩, nextStage_obtained_iff.mpr ⟨put, rfl⟩⟩
  · rintro ⟨bytes, w₁, w₂, first, second, third⟩
    obtain ⟨made, -⟩ := nextStage_waiting_iff.mp first
    obtain ⟨_, _, got, ⟨⟩⟩ := nextStage_roomy_iff.mp second
    obtain ⟨put, -⟩ := nextStage_obtained_iff.mp third
    refine bind_ran_iff.mpr ⟨_, w₁, made, bind_ran_iff.mpr ⟨_, w₂, got, ?_⟩⟩
    exact bind_ran_iff.mpr ⟨_, w', put, rfl⟩

/-- **A download alone succeeds just where it is served.** -/
theorem exists_fetch_iff (h : Unhindered w.disk [r]) :
    (∃ a, (r.fetch w).1 = .ok a) ↔ ∃ bytes a, Served w.disk r bytes a := by
  have listed : r ∈ [r] := List.mem_singleton_self r
  constructor
  · rintro ⟨a, ok⟩
    obtain ⟨bytes, w₁, w₂, first, second, third⟩ := fetch_iff_stages.mp (Prod.ext ok rfl)
    obtain ⟨found₁, grown₁⟩ := found_nextStage (m := ⟨r, .waiting⟩) h listed (.refl _ _) trivial first
    obtain ⟨found₂, grown₂⟩ := found_nextStage (m := ⟨r, .roomy⟩) h listed grown₁ found₁ second
    obtain ⟨⟨bytes', served⟩, -⟩ :=
      found_nextStage (m := ⟨r, .obtained bytes a⟩) h listed grown₂ found₂ third
    exact ⟨bytes', a, served⟩
  · intro served
    have among : ∀ d : Disk, d.here = w.disk.here → ∀ place, place = r.target.place d.here →
        targetPlaces w.disk.here [r] place := fun d here place same =>
      ⟨r, listed, by rw [same, here]⟩
    obtain ⟨s, d₁, first, holds₁, quiet₁⟩ :=
      holds_nextStage (m := ⟨r, .waiting⟩) h listed (.refl _ _) served rfl
    obtain ⟨-, rfl⟩ := nextStage_waiting_iff.mp first
    have grown₁ := quiet₁.grown.mono (among w.disk rfl)
    obtain ⟨s, d₂, second, holds₂, quiet₂⟩ :=
      holds_nextStage (w := w.withDisk d₁) (m := ⟨r, .roomy⟩) h listed grown₁ served holds₁
    obtain ⟨bytes, a, -, rfl⟩ := nextStage_roomy_iff.mp second
    have grown₂ := grown₁.trans (quiet₂.grown.mono (among d₁ grown₁.here))
    obtain ⟨s, d₃, third, -, -⟩ := holds_nextStage (w := (w.withDisk d₁).withDisk d₂)
      (m := ⟨r, .obtained bytes a⟩) h listed grown₂ served holds₂
    obtain ⟨-, rfl⟩ := nextStage_obtained_iff.mp third
    exact ⟨a, by rw [fetch_iff_stages.mpr ⟨bytes, _, _, first, second, third⟩]⟩

end
end Batch
end
end Patchwork
