import Patchwork.Proofs.Download.Member

/-! Batches as a whole.  A turn either finds no member, or takes a member one stage on, or stops it with
a failure (`Batch.Turn`), and what each turn keeps a run keeps (`Batch.exists_run`).  While no member
failed, every stage that was come through tells of the disk that the batch began with (`Batch.Sound`);
and where every member is served, none ever fails (`Batch.Steady`).  So a schedule that brings a batch
to an end (`Batch.Finishes`) gives the same answer as each download alone (`Batch.atomic`). -/

namespace Patchwork
open Patchwork.Action Disk

namespace Batch
variable {rs : List Download} {schedule : List Nat} {b b' : Batch} {index : Nat} {w w' : World}

/-! ## Turns and runs -/

/-- **What a turn does.** -/
inductive Turn (b : Batch) (index : Nat) (w : World) : Batch → World → Prop
  | idle (absent : b.members[index]? = none) : Turn b index w b w
  | passed {m : BatchMember} {s : BatchStage} {w' : World} (taken : b.members[index]? = some m)
      (ran : nextStage m w = (.ok s, w')) :
      Turn b index w ⟨b.members.set index ⟨m.download, s⟩, b.failure⟩ w'
  | failed {m : BatchMember} {e : Failure} {w' : World} (taken : b.members[index]? = some m)
      (ran : nextStage m w = (.error e, w')) :
      Turn b index w ⟨b.members.set index ⟨m.download, .stopped⟩, b.failure <|> some e⟩ w'

theorem exists_turn (b : Batch) (index : Nat) (w : World) :
    ∃ b' w', b.turn index w = (.ok b', w') ∧ Turn b index w b' w' := by
  unfold turn
  rcases taken : b.members[index]? with _ | m
  · exact ⟨b, w, rfl, .idle taken⟩
  dsimp only
  rw [tryCatch_apply]
  rcases ran : nextStage m w with ⟨e | s, w₁⟩
  · rw [bind_of_error ran]
    exact ⟨_, w₁, rfl, .failed taken ran⟩
  · rw [bind_of_ok ran]
    exact ⟨_, w₁, rfl, .passed taken ran⟩

/-- **A run keeps what each turn keeps**, and it always comes to its end. -/
theorem exists_run (kept : List Nat → Batch → World → Prop) (start : kept [] b w)
    (step : ∀ {before b w index b' w'}, Turn b index w b' w' → kept before b w →
      kept (before ++ [index]) b' w') (schedule : List Nat) :
    ∃ b' w', b.run schedule w = (.ok b', w') ∧ kept schedule b' w' := by
  have loop : ∀ after before b w, kept before b w →
      ∃ b' w', b.run after w = (.ok b', w') ∧ kept (before ++ after) b' w' := by
    intro after
    induction after with
    | nil => exact fun before b w holds => ⟨b, w, rfl, (List.append_nil before).symm ▸ holds⟩
    | cons index after ih =>
      intro before b w holds
      obtain ⟨b₁, w₁, ran, turn⟩ := exists_turn b index w
      obtain ⟨b₂, w₂, ran', holds'⟩ := ih (before ++ [index]) b₁ w₁ (step turn holds)
      refine ⟨b₂, w₂, ?_, by rwa [List.append_assoc] at holds'⟩
      rw [run, List.foldlM_cons, bind_of_ok ran]
      exact ran'
  exact loop schedule [] b w start

/-- A turn leaves the requests as they are. -/
theorem Turn.downloads (turn : Turn b index w b' w') :
    b'.members.map (·.download) = b.members.map (·.download) := by
  have same : ∀ {m : BatchMember} {s : BatchStage}, b.members[index]? = some m →
      (b.members.set index ⟨m.download, s⟩).map (·.download) = b.members.map (·.download) := by
    intro m s taken
    refine List.ext_getElem? fun other => ?_
    rw [List.getElem?_map, List.getElem?_map, List.getElem?_set]
    split
    · rename_i this
      subst this
      obtain ⟨inside, rfl⟩ := List.getElem?_eq_some_iff.mp taken
      rw [if_pos inside, List.getElem?_eq_getElem inside]
      rfl
    · rfl
  cases turn with
  | idle => rfl
  | passed taken | failed taken => exact same taken

/-! ## Schedules that finish -/

/-- **Whether a schedule brings a batch to its end**: a member failed, or all files are in place. -/
def Finishes (schedule : List Nat) (rs : List Download) (w : World) : Prop :=
  ∀ b w', (ofDownloads rs).run schedule w = (.ok b, w') → b.failure = none →
    ∀ m ∈ b.members, (placed? m).isSome

/-- How many stages are behind a member. -/
def stagesBehind : BatchStage → Nat
  | .waiting => 0
  | .roomy => 1
  | .obtained _ _ => 2
  | .placed _ | .stopped => 3

theorem stagesBehind_nextStage {m : BatchMember} {s : BatchStage}
    (ran : nextStage m w = (.ok s, w')) (going : m.stage ≠ .stopped) :
    s ≠ .stopped ∧ min 3 (stagesBehind m.stage + 1) ≤ stagesBehind s := by
  obtain ⟨r, stage⟩ := m
  cases stage with
  | waiting =>
    obtain ⟨-, rfl⟩ := nextStage_waiting_iff.mp ran
    exact ⟨nofun, by simp [stagesBehind]⟩
  | roomy =>
    obtain ⟨_, _, -, rfl⟩ := nextStage_roomy_iff.mp ran
    exact ⟨nofun, by simp [stagesBehind]⟩
  | obtained _ _ =>
    obtain ⟨-, rfl⟩ := nextStage_obtained_iff.mp ran
    exact ⟨nofun, by simp [stagesBehind]⟩
  | placed _ =>
    cases ran
    exact ⟨nofun, by simp [stagesBehind]⟩
  | stopped => exact absurd rfl going

/-- **How far the members of a batch are** after some turns, as long as none failed: each one came a
stage on with each of its turns. -/
structure Paced (rs : List Download) (before : List Nat) (b : Batch) : Prop where
  downloads : b.members.map (·.download) = rs
  far : b.failure = none → ∀ index m, b.members[index]? = some m →
    m.stage ≠ .stopped ∧ min 3 (before.count index) ≤ stagesBehind m.stage

theorem downloads_ofDownloads (rs : List Download) :
    (ofDownloads rs).members.map (·.download) = rs :=
  (List.map_map ..).trans (List.map_id rs)

theorem Paced.start (rs : List Download) : Paced rs [] (ofDownloads rs) := by
  refine ⟨downloads_ofDownloads rs, fun _ index m listed => ?_⟩
  obtain ⟨r, -, rfl⟩ := List.mem_map.mp (List.mem_of_getElem? listed)
  exact ⟨nofun, Nat.zero_le _⟩

theorem Paced.turn {before : List Nat} (paced : Paced rs before b) (turn : Turn b index w b' w') :
    Paced rs (before ++ [index]) b' := by
  refine ⟨turn.downloads.trans paced.downloads, fun unfailed other m listed => ?_⟩
  rw [List.count_append, List.count_singleton]
  cases turn with
  | idle absent =>
    have apart : index ≠ other := by
      rintro rfl
      cases absent.symm.trans listed
    simpa [apart] using paced.far unfailed other m listed
  | passed taken ran =>
    rw [List.getElem?_set] at listed
    split at listed
    · rename_i this
      subst this
      obtain ⟨going, behind⟩ := paced.far unfailed index _ taken
      obtain ⟨going', ahead⟩ := stagesBehind_nextStage ran going
      rw [if_pos (List.getElem?_eq_some_iff.mp taken).1] at listed
      cases listed
      refine ⟨going', ?_⟩
      rw [beq_self_eq_true, if_pos rfl]
      dsimp only
      omega
    · rename_i apart
      simpa [apart] using paced.far unfailed other m listed
  | failed =>
    rcases failure : b.failure with _ | e <;> rw [failure] at unfailed <;> cases unfailed

/-- **Three turns for each member** bring a batch to its end. -/
theorem finishes_of_turns (turns : ∀ index < rs.length, 3 ≤ schedule.count index) (w : World) :
    Finishes schedule rs w := by
  intro b w' ran unfailed m hm
  obtain ⟨b', w'', ran', paced⟩ := exists_run (w := w) (fun before b _ => Paced rs before b)
    (Paced.start rs) (fun turn paced => paced.turn turn) schedule
  cases ran.symm.trans ran'
  obtain ⟨index, listed⟩ := List.mem_iff_getElem?.mp hm
  obtain ⟨inside, -⟩ := List.getElem?_eq_some_iff.mp listed
  obtain ⟨going, behind⟩ := paced.far unfailed index m listed
  have enough := turns index (by rwa [← paced.downloads, List.length_map])
  rw [Nat.min_eq_left enough] at behind
  rcases stage : m.stage with _ | _ | _ | a | _ <;> rw [stage] at going behind
  case placed => simp [placed?, stage]
  case stopped => exact absurd rfl going
  all_goals exact absurd behind (by simp [stagesBehind])

theorem le_count_inOrder {count index : Nat} (inside : index < count) :
    3 ≤ (inOrder count).count index := by
  have three : [index, index, index].count index = 3 := by simp
  rw [← three]
  rw [inOrder, List.flatMap_def]
  refine (List.sublist_flatten_of_mem (List.mem_map.mpr ?_)).count_le index
  exact ⟨index, List.mem_range.mpr inside, rfl⟩

/-- One member after another comes to the end. -/
theorem finishes_inOrder (rs : List Download) (w : World) : Finishes (inOrder rs.length) rs w :=
  finishes_of_turns (fun _ => le_count_inOrder) w

/-! ## What the members have in common -/

/-- **What a batch tells of the disk it began with**, as long as no member failed. -/
structure Sound (d₀ : Disk) (rs : List Download) (b : Batch) (w : World) : Prop where
  downloads : b.members.map (·.download) = rs
  grown : b.failure = none → d₀.Grown (targetPlaces d₀.here rs) w.disk
  found : b.failure = none → ∀ m ∈ b.members, Found d₀ m

theorem Sound.turn {d₀ : Disk} (h : Unhindered d₀ rs) (sound : Sound d₀ rs b w)
    (turn : Turn b index w b' w') : Sound d₀ rs b' w' := by
  have downloads := turn.downloads.trans sound.downloads
  cases turn with
  | idle => exact sound
  | failed =>
    refine ⟨downloads, fun unfailed => ?_, fun unfailed => ?_⟩ <;>
      rcases failure : b.failure with _ | e <;> rw [failure] at unfailed <;> cases unfailed
  | passed taken ran =>
    have step := fun unfailed : b.failure = none =>
      found_nextStage h (sound.downloads ▸ List.mem_map_of_mem (List.mem_of_getElem? taken))
        (sound.grown unfailed) (sound.found unfailed _ (List.mem_of_getElem? taken)) ran
    refine ⟨downloads, fun unfailed => (step unfailed).2, fun unfailed m' hm' => ?_⟩
    rcases List.mem_or_eq_of_mem_set hm' with hm' | rfl
    · exact sound.found unfailed m' hm'
    · exact (step unfailed).1

/-- **Where a batch stands whose members are all served.** -/
structure Steady (d₀ : Disk) (rs : List Download) (b : Batch) (w : World) : Prop where
  downloads : b.members.map (·.download) = rs
  unfailed : b.failure = none
  grown : d₀.Grown (targetPlaces d₀.here rs) w.disk
  holds : ∀ (index : Nat) (m : BatchMember), b.members[index]? = some m → Holds d₀ w.disk m

theorem Steady.turn {d₀ : Disk} (h : Unhindered d₀ rs)
    (served : ∀ r ∈ rs, ∃ bytes a, Served d₀ r bytes a) (steady : Steady d₀ rs b w)
    (turn : Turn b index w b' w') : Steady d₀ rs b' w' := by
  have downloads := turn.downloads.trans steady.downloads
  have request : ∀ {other : Nat} {m' : BatchMember}, b.members[other]? = some m' → rs[other]? = some m'.download := by
    intro other m' listed
    rw [← steady.downloads, List.getElem?_map, listed]
    rfl
  cases turn with
  | idle => exact steady
  | failed taken ran =>
    have listed := List.mem_of_getElem? (request taken)
    obtain ⟨s, d, passed, -⟩ :=
      holds_nextStage h listed steady.grown (served _ listed) (steady.holds _ _ taken)
    cases ran.symm.trans passed
  | passed taken ran =>
    rename_i m s
    have listed := List.mem_of_getElem? (request taken)
    obtain ⟨s', d, passed, holds', quiet⟩ :=
      holds_nextStage h listed steady.grown (served _ listed) (steady.holds _ _ taken)
    cases ran.symm.trans passed
    have among : ∀ place, place = m.download.target.place w.disk.here →
        targetPlaces d₀.here rs place := fun place same =>
      ⟨m.download, listed, by rw [same, steady.grown.here]⟩
    refine ⟨downloads, steady.unfailed, steady.grown.trans (quiet.grown.mono among), ?_⟩
    intro other m' listed'
    rw [List.getElem?_set] at listed'
    split at listed'
    · rw [if_pos (List.getElem?_eq_some_iff.mp taken).1] at listed'
      cases listed'
      exact holds'
    · rename_i apart
      have targets := h.apart_of_ne apart (request taken) (request listed')
      rw [← steady.grown.here] at targets
      exact (steady.holds _ _ listed').of_quiet
        (h.straight _ (List.mem_of_getElem? (request listed'))) targets.1 targets.2 quiet

/-- **How a run goes** on the disk that it began with. -/
theorem exists_run_sound (h : Unhindered w.disk rs) (schedule : List Nat) :
    ∃ b w', (ofDownloads rs).run schedule w = (.ok b, w') ∧ Sound w.disk rs b w' ∧
      ((∀ r ∈ rs, ∃ bytes a, Served w.disk r bytes a) → Steady w.disk rs b w') := by
  have downloads := downloads_ofDownloads rs
  have waiting : ∀ m ∈ (ofDownloads rs).members, m.stage = .waiting := by
    intro m hm
    obtain ⟨r, -, rfl⟩ := List.mem_map.mp hm
    rfl
  refine exists_run (fun _ b w' => Sound w.disk rs b w' ∧
    ((∀ r ∈ rs, ∃ bytes a, Served w.disk r bytes a) → Steady w.disk rs b w')) ⟨?_, fun _ => ?_⟩
    (fun turn kept => ⟨kept.1.turn h turn, fun served => (kept.2 served).turn h served turn⟩) schedule
  · refine ⟨downloads, fun _ => .refl _ _, fun _ m hm => ?_⟩
    rw [Found, waiting m hm]
    trivial
  · refine ⟨downloads, rfl, .refl _ _, fun index m listed => ?_⟩
    rw [Holds, waiting m (List.mem_of_getElem? listed)]

/-! ## Discarding -/

/-- Discarding all targets leaves nothing of any. -/
theorem ends_discards (rs : List Download) (w : World) :
    Ends (rs.forM Download.discard) w (fun _ w' => ∀ r ∈ rs, w'.disk.Removed r.target)
      (fun _ _ => False) := by
  refine .forM (fun before w' => ∀ r ∈ before, w'.disk.Removed r.target) rs nofun ?_
  intro before r after _ w' removed
  refine .of_ok (discard_apply r.target w') fun r' hr' => ?_
  rcases List.mem_append.mp hr' with hr' | hr'
  · exact (removed r' hr').remove r.target
  · rw [List.mem_singleton.mp hr']
    exact removed_remove w'.disk r.target

/-! ## The whole batch -/

/-- **What a batch returns for a download**: the bytes of its source are in place, with the expected
digest if there is one. -/
structure Delivered (d₀ : Disk) (r : Download) (a : Artifact) (w : World) : Prop where
  arrived : ∃ bytes, sourceBytes d₀ r.url = .ok bytes ∧
    w.disk.find r.target = .ok (.file bytes) ∧ r.check bytes = .ok a
  url : a.url = r.url
  path : a.path = r.target
  verified : ∀ e, r.expected = some e → r.Verified e a w

theorem delivered_of_holds {d₀ : Disk} {r : Download} {a : Artifact}
    (holds : Holds d₀ w.disk ⟨r, .placed a⟩) : Delivered d₀ r a w := by
  obtain ⟨bytes, file, known, checked⟩ := holds
  dsimp only at file known checked
  have described : a.url = r.url ∧ a.path = r.target := by
    unfold Download.check at checked
    split at checked
    · cases checked
      exact ⟨rfl, rfl⟩
    · dsimp only at checked
      split at checked <;> cases checked
      exact ⟨rfl, rfl⟩
  refine ⟨⟨bytes, known, file, checked⟩, described.1, described.2, fun e expected => ?_⟩
  obtain ⟨accepted, rfl⟩ := (Download.check_eq_ok_iff expected).mp checked
  exact Download.InPlace.verified ⟨file, accepted⟩

/-- The artifacts of members that are in place stand in the order of the requests. -/
theorem forall₂_placed {related : Download → Artifact → Prop} {ms : List BatchMember}
    (placed : ∀ m ∈ ms, ∃ a, m.stage = .placed a ∧ related m.download a) :
    List.Forall₂ related (ms.map (·.download)) (ms.filterMap placed?) := by
  induction ms with
  | nil => exact .nil
  | cons m ms ih =>
    obtain ⟨⟨a, stage, first⟩, others⟩ := List.forall_mem_cons.mp placed
    rw [List.map_cons, List.filterMap_cons_some (b := a) (by rw [placed?, stage])]
    exact .cons first (ih others)

section
variable (h : Unhindered w.disk rs) (finishes : Finishes schedule rs w)
include h finishes

/-- **How a batch ends**: where each member is served, with all files in place; and otherwise with
none. -/
theorem fetchBy_cases :
    ((∀ r ∈ rs, ∃ bytes a, Served w.disk r bytes a) ∧
      ∃ as w', fetchBy schedule rs w = (.ok as, w') ∧
        List.Forall₂ (fun r a => Delivered w.disk r a w') rs as) ∨
    (¬ ∀ r ∈ rs, ∃ bytes a, Served w.disk r bytes a) ∧
      ∃ e w', fetchBy schedule rs w = (.error e, w') ∧ ∀ r ∈ rs, w'.disk.Removed r.target := by
  obtain ⟨b, w₁, ran, sound, steady⟩ := exists_run_sound h schedule
  unfold fetchBy
  rw [bind_of_ok ran]
  rcases failure : b.failure with _ | e
  · have placed : ∀ m ∈ b.members, ∃ a, m.stage = .placed a := by
      intro m hm
      obtain ⟨a, got⟩ := Option.isSome_iff_exists.mp (finishes b w₁ ran failure m hm)
      unfold placed? at got
      split at got
      · rename_i a' stage
        exact ⟨a', stage⟩
      · cases got
    have served : ∀ r ∈ rs, ∃ bytes a, Served w.disk r bytes a := by
      intro r hr
      rw [← sound.downloads] at hr
      obtain ⟨m, hm, rfl⟩ := List.mem_map.mp hr
      obtain ⟨a, stage⟩ := placed m hm
      have found := sound.found failure m hm
      rw [Found, stage] at found
      obtain ⟨bytes, served⟩ := found
      exact ⟨bytes, a, served⟩
    refine .inl ⟨served, _, w₁, rfl, ?_⟩
    nth_rewrite 1 [← sound.downloads]
    refine forall₂_placed fun m hm => ?_
    obtain ⟨index, listed⟩ := List.mem_iff_getElem?.mp hm
    have holds := (steady served).holds index m listed
    obtain ⟨a, stage⟩ := placed m hm
    obtain ⟨r, stage'⟩ := m
    dsimp only at stage
    subst stage
    exact ⟨a, rfl, delivered_of_holds holds⟩
  · refine .inr ⟨fun served => ?_, ?_⟩
    · rw [(steady served).unfailed] at failure
      cases failure
    · dsimp only
      rcases ran' : rs.forM Download.discard w₁ with ⟨e' | _, w₂⟩
      · exact ((ends_discards rs w₁).error ran').elim
      · rw [bind_of_ok ran']
        exact ⟨e, w₂, rfl, (ends_discards rs w₁).ok ran'⟩

/-- **A batch of downloads that keep out of each other's way is atomic.**  By whatever schedule brings
it to its end, it succeeds just where each download alone does; then there is one artifact for each
download, in their order, and all files are in place; and otherwise nothing is left in the place of any
target, unless the path of the target ends in no name, and then at most an empty directory.  No file
changes but what is below the places of the targets. -/
theorem atomic :
    ((∃ as, (fetchBy schedule rs w).1 = .ok as) ↔ ∀ r ∈ rs, ∃ a, (r.fetch w).1 = .ok a) ∧
    Ends (fetchBy schedule rs) w
      (fun as w' => List.Forall₂ (fun r a => Delivered w.disk r a w') rs as)
      (fun _ w' => ∀ r ∈ rs, w'.disk.Removed r.target) ∧
    w.disk.SameBut (fun place => ∃ r ∈ rs, r.target.place w.disk.here <+: place)
      (fetchBy schedule rs w).2.disk := by
  have alone : (∀ r ∈ rs, ∃ a, (r.fetch w).1 = .ok a) ↔
      ∀ r ∈ rs, ∃ bytes a, Served w.disk r bytes a :=
    forall₂_congr fun r hr => exists_fetch_iff (h.single hr)
  have same := (within_fetchBy schedule fun r hr place below =>
    (⟨r, hr, below⟩ : ∃ r ∈ rs, r.target.place w.disk.here <+: place)).sameBut rfl
  rw [alone]
  rcases fetchBy_cases h finishes with ⟨served, as, w', ran, delivered⟩ | ⟨unserved, e, w', ran, none⟩
  · exact ⟨⟨fun _ => served, fun _ => ⟨as, by rw [ran]⟩⟩, .of_ok ran delivered, same⟩
  · refine ⟨⟨fun ⟨as, ok⟩ => ?_, fun served => absurd served unserved⟩, .of_error ran none, same⟩
    rw [ran] at ok
    cases ok

end
/-! ## Small batches -/

/-- A world with the disk of the small downloads. -/
def demoWorld : World := ⟨Download.demoDisk, [], []⟩

/-- A download that is served, and one whose source is missing. -/
def demoMixed : List Download :=
  [⟨"file:///src.txt", ⟨"/o/f"⟩, none⟩, ⟨"file:///o/gone", ⟨"/p/q"⟩, none⟩]

theorem unhindered_demoMixed : Unhindered demoWorld.disk demoMixed := by
  refine ⟨by decide +kernel, by decide +kernel, ?_, by decide +kernel, fun r hr p path => ?_⟩
  · unfold TargetsApart
    decide +kernel
  · have apart : ∀ r ∈ demoMixed, ∀ p ∈ (sourcePath r.url).toOption, ".." ∉ p.parts ∧
        ∀ r' ∈ demoMixed, ¬ r'.target.place demoWorld.disk.here <+: p.place demoWorld.disk.here := by
      decide +kernel
    obtain ⟨straight, out⟩ := apart r hr p (by rw [path]; rfl)
    exact ⟨straight, fun place ⟨r', hr', same⟩ => same ▸ out r' hr'⟩

theorem atomic_demoMixed :
    Unhindered demoWorld.disk demoMixed ∧ Finishes [0, 1, 0, 0, 1, 1] demoMixed demoWorld ∧
      Ends (fetchBy [0, 1, 0, 0, 1, 1] demoMixed) demoWorld (fun _ _ => False)
        (fun _ w' => ∀ r ∈ demoMixed, w'.disk.Removed r.target) := by
  have finishes : Finishes [0, 1, 0, 0, 1, 1] demoMixed demoWorld :=
    finishes_of_turns (by decide) demoWorld
  obtain ⟨alone, ends, -⟩ := atomic unhindered_demoMixed finishes
  refine ⟨unhindered_demoMixed, finishes, ⟨fun ran => ?_, ends.error⟩⟩
  have refused : ∃ r ∈ demoMixed, (r.fetch demoWorld).1.isOk = false := by decide +kernel
  obtain ⟨r, hr, failed⟩ := refused
  obtain ⟨a, ok⟩ := alone.mp ⟨_, congrArg Prod.fst ran⟩ r hr
  rw [ok] at failed
  cases failed

/-- Whether no target is at or below another one, and no source is a target. -/
structure Separate (d : Disk) (rs : List Download) : Prop where
  apart : rs.Pairwise (TargetsApart d.here)
  sources : ∀ r ∈ rs, ∀ p ∈ (sourcePath r.url).toOption, ∀ r' ∈ rs,
    r'.target.place d.here ≠ p.place d.here

/-- A download whose target is a directory, and one whose source lies in it. -/
def demoBelow : List Download :=
  [⟨"file:///src.txt", ⟨"/o/d"⟩, none⟩, ⟨"file:///o/d/x", ⟨"/p"⟩, none⟩]

/-- A download whose path leads through the target of another one and back. -/
def demoBack : List Download :=
  [⟨"file:///src.txt", ⟨"/o/t/../y"⟩, none⟩, ⟨"file:///src.txt", ⟨"/o/t"⟩, none⟩]

/-- A download without a source, in the place of a directory with a point behind it. -/
def demoPointed : List Download := [⟨"file:///gone", ⟨"/o/d/."⟩, none⟩]

/-- What keeps a batch from being atomic: a source below the target of another download, a path that
leads back, and a target that ends in no name. -/
theorem not_atomic_of_separate :
    (Separate demoWorld.disk demoBelow ∧ (∀ r ∈ demoBelow, (r.fetch demoWorld).1.isOk) ∧
      (fetch demoBelow demoWorld).1.isOk = false) ∧
    (Separate demoWorld.disk demoBack ∧ (∀ r ∈ demoBack, (r.fetch demoWorld).1.isOk) ∧
      (fetchBy [0, 1, 1, 1, 0, 0] demoBack demoWorld).1.isOk = false) ∧
    (Separate demoWorld.disk demoPointed ∧ (fetch demoPointed demoWorld).1.isOk = false ∧
      ∃ r ∈ demoPointed, (fetch demoPointed demoWorld).2.disk.exists? r.target) := by
  refine ⟨⟨⟨?_, by decide +kernel⟩, by decide +kernel, by decide +kernel⟩,
    ⟨⟨?_, by decide +kernel⟩, by decide +kernel, by decide +kernel⟩,
    ⟨⟨?_, by decide +kernel⟩, by decide +kernel, by decide +kernel⟩⟩ <;>
  · unfold TargetsApart
    decide +kernel

end Batch
end Patchwork
