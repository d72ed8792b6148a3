import Patchwork.Proofs.Disk.Trees
import Patchwork.Proofs.Download.Atomic
import Patchwork.Proofs.Steady

/-! Batches wherever their sources lie and however their paths lead.  Each turn only makes directories
outside of the targets (`Batch.Turn.grown`), and so does the batch (`Batch.grown_fetchBy`); where the
targets are apart, what a member has put in place stays as it is (`Batch.Landed.of_grown`).  A path that
leads through its own target and back has no place for a file (`Download.avoids_of_room`), so a batch
that succeeds has none of these, and every target then leads to bytes that pass (`Batch.landed`). -/

namespace Patchwork
open Patchwork.Action Disk

namespace Download
variable {r : Download}

/-- **Whether a target's path keeps out of some places** on its way. -/
def Avoids (r : Download) (d : Disk) (places : Place → Prop) : Prop :=
  ∀ front, front <+: r.target.parts → front ≠ r.target.parts →
    ∀ place, places place → ¬ place <+: d.stop r.target front

theorem Avoids.of_here {d d' : Disk} {places : Place → Prop} (here : d'.here = d.here)
    (avoids : r.Avoids d places) : r.Avoids d' places := by
  intro front above proper place known
  rw [stop_eq here]
  exact avoids front above proper place known

/-- Where a file was put, the path of the target does not lead through the target's place. -/
theorem avoids_of_room {d : Disk} (tree : d.IsTree)
    (stops : ∀ front, front <+: r.target.parts → front ≠ r.target.parts →
      d.at? (d.stop r.target front) = some .dir)
    (vacant : d.at? (r.target.place d.here) ≠ some .dir) :
    r.Avoids d (· = r.target.place d.here) := by
  rintro front above proper _ rfl ⟨rest, whole⟩
  have dir := stops front above proper
  rw [← whole] at dir
  by_cases last : rest = []
  · rw [last, List.append_nil] at dir
    exact vacant dir
  · exact vacant (tree.dir_of_append (dir ▸ Option.some_ne_none _) last)

end Download

namespace Batch
variable {rs : List Download} {schedule : List Nat} {b b' : Batch} {index : Nat} {w w' : World}
  {d d' : Disk} {r : Download}

/-! ## Stages -/

theorem isTree_makeRoom (tree : w.disk.IsTree) (r : Download) : (r.makeRoom w).2.disk.IsTree :=
  isTree_clear tree r.target

/-- Obtaining changes nothing, whether it succeeds or not. -/
theorem snd_obtain (r : Download) (w : World) : (r.obtain w).2 = w := by
  rcases ran : r.obtain w with ⟨e | got, w'⟩
  · exact (r.ends_obtain w).error ran
  · exact ((r.ends_obtain w).ok ran).1

/-- **Any stage** leaves a tree, and outside of the target it only makes directories. -/
theorem stage_grown (tree : w.disk.IsTree) (m : BatchMember) :
    w.disk.Grown (· = m.download.target.place w.disk.here) (nextStage m w).2.disk ∧
      (nextStage m w).2.disk.IsTree := by
  obtain ⟨r, stage⟩ := m
  cases stage with
  | waiting =>
    have grown := grown_makeRoom r w
    have tree' := isTree_makeRoom tree r
    dsimp only [nextStage]
    rw [bind_apply]
    rcases ran : r.makeRoom w with ⟨e | _, w₁⟩ <;> rw [ran] at grown tree' <;> exact ⟨grown, tree'⟩
  | roomy =>
    have same := snd_obtain r w
    dsimp only [nextStage]
    rw [bind_apply]
    rcases ran : r.obtain w with ⟨e | ⟨bytes, a⟩, w₁⟩ <;> rw [ran] at same <;>
      dsimp only at same ⊢ <;> subst same <;> exact ⟨.refl _ _, tree⟩
  | obtained bytes a =>
    have grown : w.disk.Grown (· = r.target.place w.disk.here) (r.install bytes w).2.disk ∧
        (r.install bytes w).2.disk.IsTree := by
      unfold Download.install
      rw [bind_of_ok (disk_apply w)]
      rcases put : w.disk.placeFile r.target bytes with e | d
      · exact ⟨.refl _ _, tree⟩
      · obtain ⟨names, -, -, rfl⟩ := placeFile_eq_ok_iff.mp put
        obtain ⟨front, name, place⟩ := Path.exists_place_of_endsInName names.ends w.disk.here
        have ne : r.target.place w.disk.here ≠ [] := by
          rw [place]
          exact List.concat_ne_nil _ _
        exact ⟨(Quiet.put _ ne _).grown, tree.placeFile put⟩
    dsimp only [nextStage]
    rw [bind_apply]
    rcases ran : r.install bytes w with ⟨e | _, w₁⟩ <;> rw [ran] at grown <;> exact grown
  | placed a => exact ⟨.refl _ _, tree⟩
  | stopped => exact ⟨.refl _ _, tree⟩

theorem Turn.grown (tree : w.disk.IsTree) (turn : Turn b index w b' w') :
    w.disk.Grown (targetPlaces w.disk.here (b.members.map (·.download))) w'.disk ∧
      w'.disk.IsTree := by
  have moved : ∀ {m : BatchMember} {outcome : Except Failure BatchStage},
      b.members[index]? = some m → nextStage m w = (outcome, w') →
      w.disk.Grown (targetPlaces w.disk.here (b.members.map (·.download))) w'.disk ∧
        w'.disk.IsTree := by
    intro m outcome taken ran
    obtain ⟨grown, tree'⟩ := stage_grown tree m
    rw [ran] at grown tree'
    have listed := List.mem_map_of_mem (f := (·.download)) (List.mem_of_getElem? taken)
    exact ⟨grown.mono fun _ same => ⟨_, listed, same.symm⟩, tree'⟩
  cases turn with
  | idle => exact ⟨.refl _ _, tree⟩
  | passed taken ran | failed taken ran => exact moved taken ran

/-- **Any batch** leaves a tree, and outside of its targets it only makes directories, whether it
succeeds or not. -/
theorem grown_fetchBy (tree : w.disk.IsTree) (schedule : List Nat) (rs : List Download) :
    w.disk.Grown (targetPlaces w.disk.here rs) (fetchBy schedule rs w).2.disk ∧
      (fetchBy schedule rs w).2.disk.IsTree := by
  obtain ⟨b, w₁, ran, -, grown, tree₁⟩ := exists_run (b := ofDownloads rs) (w := w)
    (fun _ b w' => b.members.map (·.download) = rs ∧
      w.disk.Grown (targetPlaces w.disk.here rs) w'.disk ∧ w'.disk.IsTree)
    ⟨downloads_ofDownloads rs, .refl _ _, tree⟩
    (fun {_ b w₁ _ _ _} turn ⟨downloads, grown, tree₁⟩ => by
      obtain ⟨more, tree₂⟩ := turn.grown tree₁
      rw [downloads, grown.here] at more
      exact ⟨turn.downloads.trans downloads, grown.trans more, tree₂⟩) schedule
  have discarded : ∀ before : List Download, (∀ r ∈ before, r ∈ rs) → ∀ w₁ : World,
      w.disk.Grown (targetPlaces w.disk.here rs) w₁.disk → w₁.disk.IsTree →
      ∃ w₂, before.forM Download.discard w₁ = (.ok (), w₂) ∧
        w.disk.Grown (targetPlaces w.disk.here rs) w₂.disk ∧ w₂.disk.IsTree := by
    intro before
    induction before with
    | nil => exact fun _ w₁ grown tree₁ => ⟨w₁, rfl, grown, tree₁⟩
    | cons r before ih =>
      intro among w₁ grown tree₁
      obtain ⟨listed, among'⟩ := List.forall_mem_cons.mp among
      have target : targetPlaces w.disk.here rs (r.target.place w₁.disk.here) :=
        ⟨r, listed, by rw [grown.here]⟩
      have removed : w₁.disk.Grown (targetPlaces w.disk.here rs) (w₁.disk.remove r.target).2 :=
        (grown_remove w₁.disk r.target).mono fun _ same => same ▸ target
      obtain ⟨w₂, ran, rest⟩ := ih among' (w₁.withDisk (w₁.disk.remove r.target).2)
        (grown.trans removed) (tree₁.remove r.target)
      exact ⟨w₂, (bind_of_ok (discard_apply r.target w₁) _).trans ran, rest⟩
  unfold fetchBy
  rw [bind_of_ok ran]
  rcases b.failure with _ | e
  · exact ⟨grown, tree₁⟩
  · obtain ⟨w₂, ran', grown', tree₂⟩ := discarded rs (fun _ listed => listed) w₁ grown tree₁
    dsimp only
    rw [bind_of_ok ran']
    exact ⟨grown', tree₂⟩

/-! ## Members in place -/

/-- **A file that a member put in place**: its bytes pass, directories stand on the way to it wherever
no target does, and the way does not lead through the file itself. -/
structure Landed (rs : List Download) (d : Disk) (r : Download) : Prop where
  names : r.target.NamesFile
  file : ∃ bytes a, d.at? (r.target.place d.here) = some (.file bytes) ∧ r.check bytes = .ok a
  stops : ∀ front, front <+: r.target.parts → front ≠ r.target.parts →
    (∀ place, targetPlaces d.here rs place → ¬ place <+: d.stop r.target front) →
    d.at? (d.stop r.target front) = some .dir
  around : r.Avoids d (· = r.target.place d.here)

/-- What another member does leaves a file in place. -/
theorem Landed.of_grown {place : Place} (landed : Landed rs d r) (grown : d.Grown (· = place) d')
    (target : targetPlaces d.here rs place) (apart : ¬ place <+: r.target.place d.here) :
    Landed rs d' r := by
  obtain ⟨bytes, a, file, checked⟩ := landed.file
  refine ⟨landed.names, ⟨bytes, a, ?_, checked⟩, fun front above proper out => ?_, ?_⟩
  · rw [grown.here]
    exact (grown.file_iff fun _ same => same ▸ apart).mpr file
  · rw [stop_eq grown.here] at out ⊢
    rw [grown.here] at out
    exact grown.dir (fun _ same => same ▸ out place target) (landed.stops front above proper out)
  · rw [grown.here]
    exact landed.around.of_here grown.here

/-- **What a member has come to.** -/
def Reached (rs : List Download) (d : Disk) (m : BatchMember) : Prop :=
  match m.stage with
  | .obtained bytes a => m.download.check bytes = .ok a
  | .placed _ => Landed rs d m.download
  | _ => True

/-- **Where a batch stands** whose targets are apart. -/
structure Standing (d₀ : Disk) (rs : List Download) (b : Batch) (w : World) : Prop where
  downloads : b.members.map (·.download) = rs
  tree : w.disk.IsTree
  grown : d₀.Grown (targetPlaces d₀.here rs) w.disk
  reached : ∀ (index : Nat) (m : BatchMember), b.members[index]? = some m → Reached rs w.disk m

theorem Reached.of_grown {m : BatchMember} {place : Place} (reached : Reached rs d m)
    (grown : d.Grown (· = place) d') (target : targetPlaces d.here rs place)
    (apart : ¬ place <+: m.download.target.place d.here) : Reached rs d' m := by
  unfold Reached at reached ⊢
  split
  · rename_i stage
    rwa [stage] at reached
  · rename_i stage
    rw [stage] at reached
    exact Landed.of_grown reached grown target apart
  · trivial

/-- A member that a stage took on has come there. -/
theorem reached_nextStage {m : BatchMember} {s : BatchStage} (tree : w.disk.IsTree)
    (reached : Reached rs w.disk m) (ran : nextStage m w = (.ok s, w')) :
    Reached rs w'.disk ⟨m.download, s⟩ := by
  obtain ⟨r, stage⟩ := m
  cases stage with
  | waiting =>
    obtain ⟨-, rfl⟩ := nextStage_waiting_iff.mp ran
    trivial
  | roomy =>
    obtain ⟨bytes, a, got, rfl⟩ := nextStage_roomy_iff.mp ran
    exact ((r.ends_obtain w).ok got).2.2
  | obtained bytes a =>
    obtain ⟨put, rfl⟩ := nextStage_obtained_iff.mp ran
    obtain ⟨names, stops, vacant, rfl⟩ := Download.install_eq_ok_iff.mp put
    obtain ⟨front, name, place⟩ := Path.exists_place_of_endsInName names.ends w.disk.here
    have ne : r.target.place w.disk.here ≠ [] := by
      rw [place]
      exact List.concat_ne_nil _ _
    refine ⟨names, ⟨bytes, a, at?_put_self _ ne _, reached⟩, fun front above proper _ => ?_, ?_⟩
    · have dir := stops front above proper
      have apart : w.disk.stop r.target front ≠ r.target.place w.disk.here := fun same =>
        vacant (same ▸ dir)
      exact (at?_put _ _ _ apart).trans dir
    · exact (Download.avoids_of_room tree stops vacant).of_here rfl
  | placed a =>
    cases ran
    exact reached
  | stopped =>
    cases ran
    trivial

/-- The targets of two members are apart. -/
theorem apart_of_ne {here : Place} (apart : rs.Pairwise (TargetsApart here)) {index index' : Nat}
    {r r' : Download} (ne : index ≠ index') (listed : rs[index]? = some r)
    (listed' : rs[index']? = some r') : TargetsApart here r r' := by
  obtain ⟨inside, rfl⟩ := List.getElem?_eq_some_iff.mp listed
  obtain ⟨inside', rfl⟩ := List.getElem?_eq_some_iff.mp listed'
  have pairs := List.pairwise_iff_getElem.mp apart
  rcases Nat.lt_or_gt_of_ne ne with before | behind
  · exact pairs index index' inside inside' before
  · exact (pairs index' index inside' inside behind).symm

theorem Standing.turn {d₀ : Disk} (apart : rs.Pairwise (TargetsApart d₀.here))
    (standing : Standing d₀ rs b w) (turn : Turn b index w b' w') : Standing d₀ rs b' w' := by
  have downloads := turn.downloads.trans standing.downloads
  have request : ∀ {other : Nat} {m' : BatchMember}, b.members[other]? = some m' →
      rs[other]? = some m'.download := by
    intro other m' listed
    rw [← standing.downloads, List.getElem?_map, listed]
    rfl
  -- whatever becomes of the member whose turn it is, the others stay where they are
  have moved : ∀ {m : BatchMember} {s : BatchStage} {outcome : Except Failure BatchStage},
      b.members[index]? = some m → nextStage m w = (outcome, w') →
      Reached rs w'.disk ⟨m.download, s⟩ → ∀ failure,
      (b.members.set index ⟨m.download, s⟩).map (·.download) = rs →
      Standing d₀ rs ⟨b.members.set index ⟨m.download, s⟩, failure⟩ w' := by
    intro m s outcome taken ran came failure downloads
    obtain ⟨grown, tree⟩ := stage_grown standing.tree m
    rw [ran] at grown tree
    have here := standing.grown.here
    have target : targetPlaces d₀.here rs (m.download.target.place w.disk.here) :=
      ⟨m.download, List.mem_of_getElem? (request taken), by rw [here]⟩
    refine ⟨downloads, tree, standing.grown.trans (grown.mono fun _ same => same ▸ target), ?_⟩
    intro other m' listed
    rw [List.getElem?_set] at listed
    split at listed
    · rw [if_pos (List.getElem?_eq_some_iff.mp taken).1] at listed
      cases listed
      exact came
    · rename_i ne
      have targets := apart_of_ne apart ne (request taken) (request listed)
      rw [← here] at targets target
      exact (standing.reached other m' listed).of_grown grown target targets.1
  cases turn with
  | idle => exact standing
  | passed taken ran =>
    exact moved taken ran (reached_nextStage standing.tree (standing.reached _ _ taken) ran) _
      downloads
  | @failed m _ _ taken ran =>
    have came : Reached rs w'.disk ⟨m.download, .stopped⟩ := trivial
    exact moved taken ran came _ downloads

/-- **A batch whose targets are apart leads to bytes that pass at each target when it succeeds**, if a
target that its own path avoids is avoided by all paths; and all of them are avoided then. -/
theorem landed (tree : w.disk.IsTree) (apart : rs.Pairwise (TargetsApart w.disk.here))
    (shared : ∀ r ∈ rs, r.Avoids w.disk (· = r.target.place w.disk.here) →
      ∀ r' ∈ rs, r'.Avoids w.disk (· = r.target.place w.disk.here))
    (finishes : Finishes schedule rs w) {as : List Artifact}
    (ran : fetchBy schedule rs w = (.ok as, w')) :
    ∀ r ∈ rs, r.Avoids w.disk (targetPlaces w.disk.here rs) ∧
      ∃ bytes a, w'.disk.find r.target = .ok (.file bytes) ∧ r.check bytes = .ok a := by
  have start : Standing w.disk rs (ofDownloads rs) w := by
    refine ⟨downloads_ofDownloads rs, tree, .refl _ _, fun index m listed => ?_⟩
    obtain ⟨r, -, rfl⟩ := List.mem_map.mp (List.mem_of_getElem? listed)
    trivial
  obtain ⟨b, w₁, ran', standing⟩ := exists_run (fun _ b w' => Standing w.disk rs b w') start
    (fun turn standing => standing.turn apart turn) schedule
  unfold fetchBy at ran
  rw [bind_of_ok ran'] at ran
  rcases failure : b.failure with _ | e <;> rw [failure] at ran <;> dsimp only at ran
  · cases ran
    have here := standing.grown.here
    have each : ∀ r ∈ rs, Landed rs w'.disk r := by
      intro r listed
      have named := listed
      rw [← standing.downloads] at named
      obtain ⟨m, member, rfl⟩ := List.mem_map.mp named
      obtain ⟨index, taken⟩ := List.mem_iff_getElem?.mp member
      obtain ⟨a, got⟩ := Option.isSome_iff_exists.mp (finishes b w' ran' failure m member)
      have reached := standing.reached index m taken
      unfold placed? at got
      split at got
      · rename_i stage
        rw [Reached, stage] at reached
        exact reached
      · cases got
    have avoids : ∀ r ∈ rs, r.Avoids w.disk (targetPlaces w.disk.here rs) := by
      rintro r listed front above proper _ ⟨r', listed', rfl⟩
      have around := ((each r' listed').around).of_here here.symm
      rw [here] at around
      exact shared r' listed' around r listed front above proper _ rfl
    intro r listed
    refine ⟨avoids r listed, ?_⟩
    obtain ⟨bytes, a, file, checked⟩ := (each r listed).file
    refine ⟨bytes, a, find_file_iff.mpr ⟨(each r listed).names.toTakes, (each r listed).names.file,
      fun front above proper => (each r listed).stops front above proper ?_, file⟩, checked⟩
    rw [stop_eq here, here]
    exact avoids r listed front above proper
  · rcases discarded : rs.forM Download.discard w₁ with ⟨e' | _, w₂⟩
    · rw [bind_of_error discarded] at ran
      cases ran
    · rw [bind_of_ok discarded] at ran
      cases ran

end Batch
end Patchwork
