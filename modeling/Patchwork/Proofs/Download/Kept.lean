import Mathlib.Data.List.Forall2
import Mathlib.Data.List.Nodup
import Patchwork.Proofs.Download.Landed

/-! Batches that keep what is in place.  Each artifact answers its request, whether the file was kept or
downloaded (`Download.Answers`).  A batch of downloads answers in the order of the requests
(`Batch.answers_fetchBy`); a batch that keeps what is in place answers for what it keeps first
(`Batch.keptFirst`, `Batch.answers_ensureBy`), so that the answers are in the order of the requests just
where nothing that is kept stands behind something that is not (`Batch.answers_iff`).

Where the targets are apart, all files are in place afterwards (`Batch.inPlace_ensureBy`).  Where they
are all one target, the bytes that are put there last stay, and they pass for one of the requests
(`Batch.landed_shared`, `Batch.passes_ensureBy`). -/

namespace Patchwork
open Patchwork.Action Disk

namespace Download
variable {r : Download} {a : Artifact} {d : Disk} {bytes : ByteArray}

/-- **Whether the file in the place of a download is kept**, since it has the expected digest. -/
def isKept (r : Download) (d : Disk) : Bool :=
  match r.expected, d.find r.target with
  | some e, .ok (.file bytes) => e.accepts (e.algorithm.compute bytes)
  | _, _ => false

theorem isKept_iff : r.isKept d ↔ ∃ e bytes, r.expected = some e ∧ r.InPlace e bytes d := by
  unfold isKept
  constructor
  · intro kept
    split at kept
    · rename_i e bytes expected found
      exact ⟨e, bytes, expected, found, kept⟩
    · cases kept
  · rintro ⟨e, bytes, expected, found, accepted⟩
    rw [expected, found]
    exact accepted

/-- **Whether an artifact is the answer to a request.** -/
structure Answers (r : Download) (a : Artifact) : Prop where
  url : a.url = r.url
  path : a.path = r.target
  expected : a.expected = r.expected

theorem answers_of_check (checked : r.check bytes = .ok a) : r.Answers a := by
  unfold check at checked
  split at checked
  · rename_i unexpected
    cases checked
    exact ⟨rfl, rfl, unexpected.symm⟩
  · dsimp only at checked
    split at checked <;> cases checked
    exact ⟨rfl, rfl, rfl⟩

/-- What is kept answers its request, and telling it changes nothing. -/
theorem reusable?_cases (r : Download) (w : World) :
    (r.isKept w.disk = true ∧ ∃ a, r.Answers a ∧ r.reusable? w = (.ok (some a), w)) ∨
      r.isKept w.disk = false ∧ r.reusable? w = (.ok none, w) := by
  rcases expected : r.expected with _ | e
  · refine .inr ⟨?_, ?_⟩
    · rw [isKept, expected]
    · rw [reusable?, expected]
      rfl
  · rcases reusable?_apply expected w with ⟨bytes, there, ran⟩ | ⟨absent, ran⟩
    · exact .inl ⟨isKept_iff.mpr ⟨e, bytes, expected, there⟩, _, ⟨rfl, rfl, rfl⟩, ran⟩
    · refine .inr ⟨Bool.eq_false_iff.mpr fun kept => ?_, ran⟩
      obtain ⟨e', bytes, expected', there⟩ := isKept_iff.mp kept
      cases expected.symm.trans expected'
      exact absent bytes there

end Download

namespace Batch
open Download
variable {rs : List Download} {as : List Artifact} {schedule : List Nat} {b b' : Batch}
  {index : Nat} {w w' : World} {d : Disk}

/-! ## Downloads -/

/-- A batch that succeeds ran to its end without a failure. -/
theorem run_of_fetchBy (ran : fetchBy schedule rs w = (.ok as, w')) :
    ∃ b, (ofDownloads rs).run schedule w = (.ok b, w') ∧ b.failure = none ∧
      as = b.members.filterMap placed? := by
  obtain ⟨b, w₁, ran₁, -⟩ := exists_run (b := ofDownloads rs) (w := w) (fun _ _ _ => True) trivial
    (fun _ _ => trivial) schedule
  unfold fetchBy at ran
  rw [bind_of_ok ran₁] at ran
  rcases failure : b.failure with _ | e <;> rw [failure] at ran <;> dsimp only at ran
  · cases ran
    exact ⟨b, ran₁, failure, rfl⟩
  · obtain ⟨_, _, -, thrown⟩ := bind_ran_iff.mp ran
    cases thrown

/-- All members of a batch that came to its end without a failure are in place. -/
theorem Finishes.placed (finishes : Finishes schedule rs w)
    (ran : (ofDownloads rs).run schedule w = (.ok b, w')) (unfailed : b.failure = none) :
    ∀ m ∈ b.members, ∃ a, m.stage = .placed a := by
  intro m listed
  obtain ⟨a, got⟩ := Option.isSome_iff_exists.mp (finishes b w' ran unfailed m listed)
  unfold placed? at got
  split at got
  · rename_i a' stage
    exact ⟨a', stage⟩
  · cases got

/-- Whether a member has the answer to its request, once it has any. -/
def Described (m : BatchMember) : Prop :=
  match m.stage with
  | .obtained _ a | .placed a => m.download.Answers a
  | _ => True

theorem described_nextStage {m : BatchMember} {s : BatchStage} (described : Described m)
    (ran : nextStage m w = (.ok s, w')) : Described ⟨m.download, s⟩ := by
  obtain ⟨r, stage⟩ := m
  cases stage with
  | waiting =>
    obtain ⟨-, rfl⟩ := nextStage_waiting_iff.mp ran
    trivial
  | roomy =>
    obtain ⟨bytes, a, got, rfl⟩ := nextStage_roomy_iff.mp ran
    exact answers_of_check ((r.ends_obtain w).ok got).2.2
  | obtained bytes a =>
    obtain ⟨-, rfl⟩ := nextStage_obtained_iff.mp ran
    exact described
  | placed a =>
    cases ran
    exact described
  | stopped =>
    cases ran
    trivial

theorem described_turn (described : ∀ m ∈ b.members, Described m) (turn : Turn b index w b' w') :
    ∀ m ∈ b'.members, Described m := by
  intro m listed
  cases turn with
  | idle => exact described m listed
  | passed taken ran =>
    rcases List.mem_or_eq_of_mem_set listed with listed | rfl
    · exact described m listed
    · exact described_nextStage (described _ (List.mem_of_getElem? taken)) ran
  | failed =>
    rcases List.mem_or_eq_of_mem_set listed with listed | rfl
    · exact described m listed
    · trivial

/-- **A batch of downloads answers in the order of the requests.** -/
theorem answers_fetchBy (finishes : Finishes schedule rs w)
    (ran : fetchBy schedule rs w = (.ok as, w')) : List.Forall₂ Answers rs as := by
  obtain ⟨b, ran', unfailed, rfl⟩ := run_of_fetchBy ran
  have start : ∀ m ∈ (ofDownloads rs).members, Described m := by
    intro m listed
    obtain ⟨r, -, rfl⟩ := List.mem_map.mp listed
    trivial
  obtain ⟨b', w'', ran'', downloads, described⟩ := exists_run (b := ofDownloads rs) (w := w)
    (fun _ b _ => b.members.map (·.download) = rs ∧ ∀ m ∈ b.members, Described m)
    ⟨downloads_ofDownloads rs, start⟩
    (fun turn kept => ⟨turn.downloads.trans kept.1, described_turn kept.2 turn⟩) schedule
  cases ran'.symm.trans ran''
  nth_rewrite 1 [← downloads]
  refine forall₂_placed fun m listed => ?_
  obtain ⟨a, stage⟩ := finishes.placed ran' unfailed m listed
  have answers := described m listed
  rw [Described, stage] at answers
  exact ⟨a, stage, answers⟩

/-! ## Downloads that keep what is in place -/

/-- Downloads what is not in place with the expected digest, by the schedule for so many downloads. -/
def ensureBy (schedule : Nat → List Nat) (rs : List Download) : Action (List Artifact) := do
  let (reused, pending) ← sortOut rs
  return reused ++ (← fetchBy (schedule pending.length) pending)

theorem ensure_eq (rs : List Download) : ensure rs = ensureBy inOrder rs := rfl

/-- What is to be downloaded. -/
def pending (d : Disk) (rs : List Download) : List Download := rs.filter fun r => !r.isKept d

/-- **The requests with those in front whose files are kept.** -/
def keptFirst (d : Disk) (rs : List Download) : List Download :=
  rs.filter (fun r => r.isKept d) ++ pending d rs

/-- Whether nothing that is kept stands behind something that is not. -/
def KeptInFront (d : Disk) (rs : List Download) : Prop :=
  rs.Pairwise fun r r' => r'.isKept d → r.isKept d

instance (d : Disk) (rs : List Download) : Decidable (KeptInFront d rs) :=
  inferInstanceAs (Decidable (rs.Pairwise fun r r' => r'.isKept d → r.isKept d))

theorem sortOut_apply (rs : List Download) (w : World) :
    ∃ reused, sortOut rs w = (.ok (reused, pending w.disk rs), w) ∧
      List.Forall₂ Answers (rs.filter fun r => r.isKept w.disk) reused := by
  induction rs with
  | nil => exact ⟨[], rfl, .nil⟩
  | cons r rs ih =>
    obtain ⟨reused, ran, answers⟩ := ih
    rw [sortOut, pending, List.filter_cons, List.filter_cons]
    rcases r.reusable?_cases w with ⟨kept, a, answer, looked⟩ | ⟨unkept, looked⟩ <;>
      rw [bind_of_ok looked] <;> dsimp only <;> rw [bind_of_ok ran]
    · rw [kept]
      exact ⟨a :: reused, rfl, .cons answer answers⟩
    · rw [unkept]
      exact ⟨reused, rfl, answers⟩

/-- What a batch does that keeps what is in place: it downloads the rest. -/
theorem ensureBy_apply (schedule : Nat → List Nat) (rs : List Download) (w : World) :
    ∃ reused, List.Forall₂ Answers (rs.filter fun r => r.isKept w.disk) reused ∧
      ensureBy schedule rs w =
        (do return reused ++ (← fetchBy (schedule (pending w.disk rs).length) (pending w.disk rs))) w := by
  obtain ⟨reused, ran, answers⟩ := sortOut_apply rs w
  refine ⟨reused, answers, ?_⟩
  unfold ensureBy
  rw [bind_of_ok ran]

section
variable {schedule : Nat → List Nat}
  (finishes : Finishes (schedule (pending w.disk rs).length) (pending w.disk rs) w)
  (ran : ensureBy schedule rs w = (.ok as, w'))
include finishes ran

/-- **A batch that keeps what is in place answers for what it keeps first.** -/
theorem answers_ensureBy : List.Forall₂ Answers (keptFirst w.disk rs) as := by
  obtain ⟨reused, answers, apply⟩ := ensureBy_apply schedule rs w
  rw [apply] at ran
  obtain ⟨fetched, w₁, ran', ended⟩ := bind_ran_iff.mp ran
  cases ended
  exact List.rel_append answers (answers_fetchBy finishes ran')

end

/-! ## The order of the requests -/

/-- Putting what passes a test in front changes nothing just where it stood in front. -/
theorem filter_append_filter_eq_self_iff {α : Type} (test : α → Bool) (xs : List α) :
    xs.filter test ++ (xs.filter fun x => !test x) = xs ↔
      xs.Pairwise fun x x' => test x' → test x := by
  induction xs with
  | nil => exact iff_of_true rfl .nil
  | cons x xs ih =>
    rw [List.pairwise_cons, List.filter_cons, List.filter_cons]
    rcases passes : test x with _ | _
    · -- nothing behind the first may pass, as it would come to stand in its place
      have bare : xs.filter test = [] ↔ ∀ x' ∈ xs, test x' → False := List.filter_eq_nil_iff
      simp only [Bool.not_false, if_true, Bool.false_eq_true, if_false, imp_false]
      constructor
      · intro same
        rcases front : xs.filter test with _ | ⟨y, ys⟩
        · rw [front, List.nil_append] at same
          refine ⟨bare.mp front, ih.mp ?_⟩
          rw [front, List.nil_append]
          exact (List.cons.inj same).2
        · rw [front] at same
          obtain rfl : y = x := (List.cons.inj same).1
          have member : y ∈ xs.filter test := front ▸ List.mem_cons_self
          rw [(List.mem_filter.mp member).2] at passes
          cases passes
      · rintro ⟨none, others⟩
        have whole := ih.mpr others
        rw [bare.mpr none, List.nil_append] at whole ⊢
        rw [whole]
    · simp [ih]

theorem keptFirst_eq_self_iff : keptFirst d rs = rs ↔ KeptInFront d rs :=
  filter_append_filter_eq_self_iff (fun r : Download => r.isKept d) rs

theorem map_path_of_answers (answers : List.Forall₂ Answers rs as) :
    as.map Artifact.path = rs.map Download.target := by
  induction answers with
  | nil => rfl
  | cons answer _ ih => rw [List.map_cons, List.map_cons, answer.path, ih]

/-- Requests with distinct targets are told apart by the targets of what is kept first. -/
theorem map_keptFirst_eq_iff (distinct : (rs.map Download.target).Nodup) :
    (keptFirst d rs).map Download.target = rs.map Download.target ↔ KeptInFront d rs := by
  rw [← keptFirst_eq_self_iff]
  refine ⟨fun same => ?_, fun same => congrArg _ same⟩
  have perm : (keptFirst d rs).Perm rs := List.filter_append_perm (fun r : Download => r.isKept d) rs
  have apart := List.inj_on_of_nodup_map distinct
  refine List.ext_getElem perm.length_eq fun index inside inside' => ?_
  refine apart (perm.subset (List.getElem_mem inside)) (List.getElem_mem inside') ?_
  have at_index := congrArg (·[index]?) same
  simpa [inside, inside'] using at_index

/-- **The answers are in the order of the requests** just where nothing that is kept stands behind
something that is not. -/
theorem answers_iff (answers : List.Forall₂ Answers (keptFirst d rs) as)
    (distinct : (rs.map Download.target).Nodup) :
    List.Forall₂ Answers rs as ↔ KeptInFront d rs := by
  constructor
  · intro inOrder
    rw [← map_keptFirst_eq_iff distinct, ← map_path_of_answers answers, map_path_of_answers inOrder]
  · intro front
    rwa [keptFirst_eq_self_iff.mpr front] at answers

/-! ## Files in place -/

/-- **Where the targets are apart, all files are in place** in the end, those that were kept too. -/
theorem inPlace_ensureBy {schedule : Nat → List Nat} (tree : w.disk.IsTree)
    (apart : rs.Pairwise (TargetsApart w.disk.here))
    (shared : ∀ r ∈ rs, r.Avoids w.disk (· = r.target.place w.disk.here) →
      ∀ r' ∈ rs, r'.Avoids w.disk (· = r.target.place w.disk.here))
    (finishes : Finishes (schedule (pending w.disk rs).length) (pending w.disk rs) w)
    (ran : ensureBy schedule rs w = (.ok as, w')) :
    ∀ r ∈ rs, ∀ e, r.expected = some e → ∃ bytes, r.InPlace e bytes w'.disk := by
  have sub : (pending w.disk rs).Sublist rs := List.filter_sublist
  obtain ⟨reused, -, apply⟩ := ensureBy_apply schedule rs w
  rw [apply] at ran
  obtain ⟨fetched, w₁, ran', ended⟩ := bind_ran_iff.mp ran
  cases ended
  have landed := landed tree (apart.sublist sub)
    (fun r listed around r' listed' => shared r (sub.subset listed) around r' (sub.subset listed'))
    finishes ran'
  intro r listed e expected
  rcases kept : r.isKept w.disk with _ | _
  · have waiting : r ∈ pending w.disk rs := List.mem_filter.mpr ⟨listed, by rw [kept]; rfl⟩
    obtain ⟨-, bytes, a, found, checked⟩ := landed r waiting
    exact ⟨bytes, found, ((check_eq_ok_iff expected).mp checked).1⟩
  · obtain ⟨e', bytes, expected', there⟩ := isKept_iff.mp kept
    cases expected.symm.trans expected'
    have grown := (grown_fetchBy tree (schedule (pending w.disk rs).length) (pending w.disk rs)).1
    rw [ran'] at grown
    -- a target that is filled lies neither above the file that is kept nor on the way to it
    refine ⟨bytes, find_of_grown grown ?_ ?_ there.file, there.accepted⟩
    · rintro front above proper _ ⟨r', waiting, rfl⟩
      have around : r'.Avoids w.disk (· = r'.target.place w.disk.here) :=
        fun front above proper _ same => (landed r' waiting).1 front above proper _ ⟨r', waiting, same.symm⟩
      exact shared r' (sub.subset waiting) around r listed front above proper _ rfl
    · rintro _ ⟨r', waiting, rfl⟩
      have other : r' ≠ r := by
        rintro rfl
        rw [(Bool.not_eq_true' _).mp (List.mem_filter.mp waiting).2] at kept
        cases kept
      exact (apart.forall (sub.subset waiting) listed other).1

/-! ## One target -/

/-- **Where a batch stands whose targets are one.** What was obtained passes; and once a file was put in
place, the target leads to one that passes, or a member is underway to put one there. -/
structure Filling (rs : List Download) (target : Path) (b : Batch) (w : World) : Prop where
  downloads : b.members.map (·.download) = rs
  passing : ∀ m ∈ b.members, ∀ bytes a, m.stage = .obtained bytes a → m.download.check bytes = .ok a
  filled : b.failure = none → (∃ m ∈ b.members, m.stage = .roomy ∨ ∃ bytes a, m.stage = .obtained bytes a) ∨
    (∀ m ∈ b.members, placed? m = none) ∨
    ∃ r ∈ rs, ∃ bytes a, w.disk.find target = .ok (.file bytes) ∧ r.check bytes = .ok a

theorem Filling.turn {target : Path} (same : ∀ r ∈ rs, r.target = target)
    (filling : Filling rs target b w) (turn : Turn b index w b' w') : Filling rs target b' w' := by
  have downloads := turn.downloads.trans filling.downloads
  cases turn with
  | idle => exact filling
  | failed =>
    refine ⟨downloads, fun m listed bytes a stage => ?_, fun unfailed => ?_⟩
    · rcases List.mem_or_eq_of_mem_set listed with listed | rfl
      · exact filling.passing m listed bytes a stage
      · cases stage
    · rcases failure : b.failure with _ | e <;> rw [failure] at unfailed <;> cases unfailed
  | @passed m s w' taken ran =>
    have listed := List.mem_of_getElem? taken
    have inside := (List.getElem?_eq_some_iff.mp taken).1
    have member : ⟨m.download, s⟩ ∈ b.members.set index ⟨m.download, s⟩ := List.mem_set inside _
    obtain ⟨r, stage⟩ := m
    cases stage with
    | waiting =>
      obtain ⟨-, rfl⟩ := nextStage_waiting_iff.mp ran
      refine ⟨downloads, fun m' listed' bytes a stage => ?_, fun _ => .inl ⟨_, member, .inl rfl⟩⟩
      rcases List.mem_or_eq_of_mem_set listed' with listed' | rfl
      · exact filling.passing m' listed' bytes a stage
      · cases stage
    | roomy =>
      obtain ⟨bytes, a, got, rfl⟩ := nextStage_roomy_iff.mp ran
      refine ⟨downloads, fun m' listed' bytes' a' stage => ?_,
        fun _ => .inl ⟨_, member, .inr ⟨bytes, a, rfl⟩⟩⟩
      rcases List.mem_or_eq_of_mem_set listed' with listed' | rfl
      · exact filling.passing m' listed' bytes' a' stage
      · cases stage
        exact ((r.ends_obtain w).ok got).2.2
    | obtained bytes a =>
      obtain ⟨put, rfl⟩ := nextStage_obtained_iff.mp ran
      have request : r ∈ rs := filling.downloads ▸ List.mem_map_of_mem listed
      refine ⟨downloads, fun m' listed' bytes' a' stage => ?_, fun _ => .inr (.inr ?_)⟩
      · rcases List.mem_or_eq_of_mem_set listed' with listed' | rfl
        · exact filling.passing m' listed' bytes' a' stage
        · cases stage
      · exact ⟨r, request, bytes, a, same r request ▸ (r.ends_install bytes w).ok put,
          filling.passing _ listed bytes a rfl⟩
    | placed | stopped =>
      cases ran
      have unchanged : b.members.set index b.members[index] = b.members := List.set_getElem_self inside
      rw [(List.getElem?_eq_some_iff.mp taken).2] at unchanged
      rw [unchanged]
      exact ⟨filling.downloads, filling.passing, filling.filled⟩

/-- **Where all targets are one, the last bytes stay**: the target leads to bytes that pass for one of
the requests. -/
theorem landed_shared {target : Path} (same : ∀ r ∈ rs, r.target = target) (ne : rs ≠ [])
    (finishes : Finishes schedule rs w) (ran : fetchBy schedule rs w = (.ok as, w')) :
    ∃ r ∈ rs, ∃ bytes a, w'.disk.find target = .ok (.file bytes) ∧ r.check bytes = .ok a := by
  have waiting : ∀ m ∈ (ofDownloads rs).members, m.stage = .waiting := by
    intro m listed
    obtain ⟨r, -, rfl⟩ := List.mem_map.mp listed
    rfl
  have start : Filling rs target (ofDownloads rs) w := by
    refine ⟨downloads_ofDownloads rs, fun m listed bytes a stage => ?_,
      fun _ => .inr (.inl fun m listed => ?_)⟩
    · cases (waiting m listed).symm.trans stage
    · rw [placed?, waiting m listed]
  obtain ⟨b, ran₁, unfailed, rfl⟩ := run_of_fetchBy ran
  obtain ⟨b', w'', ran₂, filling⟩ := exists_run (fun _ b w => Filling rs target b w) start
    (fun turn filling => filling.turn same turn) schedule
  cases ran₁.symm.trans ran₂
  have placed := finishes.placed ran₁ unfailed
  rcases filling.filled unfailed with ⟨m, listed, underway⟩ | none | there
  · obtain ⟨a, stage⟩ := placed m listed
    rcases underway with roomy | ⟨bytes, a', obtained⟩
    · cases stage.symm.trans roomy
    · cases stage.symm.trans obtained
  · obtain ⟨r, listed⟩ := List.exists_mem_of_ne_nil rs ne
    rw [← filling.downloads] at listed
    obtain ⟨m, listed, -⟩ := List.mem_map.mp listed
    obtain ⟨a, stage⟩ := placed m listed
    have absent := none m listed
    rw [placed?, stage] at absent
    cases absent
  · exact there

/-- **Where all targets are one**, a batch that keeps what is in place leaves a file there that has the
digest of one of the requests. -/
theorem passes_ensureBy {schedule : Nat → List Nat} {target : Path} (tree : w.disk.IsTree)
    (same : ∀ r ∈ rs, r.target = target) (ne : rs ≠ [])
    (finishes : Finishes (schedule (pending w.disk rs).length) (pending w.disk rs) w)
    (ran : ensureBy schedule rs w = (.ok as, w')) :
    ∃ r ∈ rs, ∃ bytes a, w'.disk.find target = .ok (.file bytes) ∧ r.check bytes = .ok a := by
  obtain ⟨reused, -, apply⟩ := ensureBy_apply schedule rs w
  rw [apply] at ran
  obtain ⟨fetched, w₁, ran', ended⟩ := bind_ran_iff.mp ran
  cases ended
  have sub : (pending w.disk rs).Sublist rs := List.filter_sublist
  by_cases all : pending w.disk rs = []
  · obtain ⟨r, listed⟩ := List.exists_mem_of_ne_nil rs ne
    have kept : r.isKept w.disk := by
      simpa using List.filter_eq_nil_iff.mp all r listed
    obtain ⟨e, bytes, expected, there⟩ := isKept_iff.mp kept
    have grown := (grown_fetchBy tree (schedule (pending w.disk rs).length) (pending w.disk rs)).1
    rw [ran', all] at grown
    have nowhere : ∀ place, ¬ targetPlaces w.disk.here [] place := by
      rintro place ⟨_, ⟨⟩, _⟩
    have found := find_of_grown grown (fun _ _ _ other known => absurd known (nowhere other))
      (fun other known => absurd known (nowhere other)) there.file
    exact ⟨r, listed, bytes, _, same r listed ▸ found, (check_eq_ok_iff expected).mpr ⟨there.accepted, rfl⟩⟩
  · obtain ⟨r, waiting, passes⟩ := landed_shared (fun r waiting => same r (sub.subset waiting)) all
      finishes ran'
    exact ⟨r, sub.subset waiting, passes⟩

end Batch
end Patchwork
