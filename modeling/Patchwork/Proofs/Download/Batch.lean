import Patchwork.Download.Batch
import Patchwork.Proofs.World

/-! What downloads change.  Whether a download succeeds or not, it changes nothing but what is below
the place of its target (`Download.within_fetch`); reading what is behind a URL and taking the digest
of a file change nothing.  Whatever turns its members take, a batch changes nothing but what is below
the places of its targets (`Batch.within_fetchBy`); so does one that keeps the files that are in place
already (`Batch.within_ensure`). -/

namespace Patchwork
open Patchwork.Action
variable {here : Place} {places : Place → Prop}

namespace Download

theorem within_install {r : Download} (bytes : ByteArray) (into : places (r.target.place here)) :
    Within here places (r.install bytes) fun _ => True := by
  refine ⟨fun w hw => ?_, fun _ _ _ _ => trivial⟩
  unfold install
  rw [bind_of_ok (disk_apply w)]
  rcases placed : w.disk.placeFile r.target bytes with e | d
  · exact .refl _ w.disk
  · exact (Disk.sameBut_placeFile placed).mono fun _ same => same ▸ hw ▸ into

theorem within_obtain (r : Download) : Within here places r.obtain fun _ => True := by
  refine .bind .disk fun d _ => ?_
  split
  · exact .throw_bind _ _
  · exact .bind (.ofOutcome _) fun _ _ => .bind (.ofOutcome _) fun _ _ => .pure trivial

/-- **A download changes nothing but what is below the place of its target.** -/
theorem within_fetch {r : Download}
    (below : ∀ place, r.target.place here <+: place → places place) :
    Within here places r.fetch fun _ => True := by
  have into : places (r.target.place here) := below _ (List.prefix_refl _)
  refine .tryCatch ?_ fun e => .bind (.discard below) fun _ _ => .throw e
  exact .bind (.clear below) fun _ _ => .bind r.within_obtain fun found _ =>
    .bind (within_install found.1 into) fun _ _ => .pure trivial

end Download

theorem within_fetchText (url : String) :
    Within here places (fetchText url) fun _ => True :=
  .bind .disk fun _ _ => (Within.ofOutcome _).imp fun _ _ => trivial

theorem within_fileDigest (algorithm : DigestAlgorithm) (p : Path) :
    Within here places (fileDigest algorithm p) fun _ => True :=
  .bind (.bind (.ask _ _) fun _ _ => .ask _ _) fun _ _ => .pure trivial

theorem Download.within_reusable? (r : Download) :
    Within here places r.reusable? fun _ => True := by
  unfold Download.reusable?
  split
  · exact .pure trivial
  · refine .bind (.isFile _) fun found _ => ?_
    split
    · refine .bind (.bind (.ask _ _) fun _ _ => .ask _ _) fun bytes _ => ?_
      split <;> exact .pure trivial
    · exact .pure trivial

namespace Batch

/-- Whether all that lies below the places of a batch's targets is among some places. -/
def Below (here : Place) (places : Place → Prop) (b : Batch) : Prop :=
  ∀ m ∈ b.members, ∀ place, m.download.target.place here <+: place → places place

theorem below_set {b : Batch} (h : b.Below here places) {index : Nat} {m : BatchMember}
    (listed : b.members[index]? = some m) (stage : BatchStage) (failure : Option Failure) :
    Below here places ⟨b.members.set index ⟨m.download, stage⟩, failure⟩ := by
  intro m' hm'
  rcases List.mem_or_eq_of_mem_set hm' with hm' | rfl
  · exact h m' hm'
  · exact h m (List.mem_of_getElem? listed)

theorem within_nextStage {m : BatchMember}
    (below : ∀ place, m.download.target.place here <+: place → places place) :
    Within here places (nextStage m) fun _ => True := by
  have into : places (m.download.target.place here) := below _ (List.prefix_refl _)
  unfold nextStage
  split
  · exact .bind (.clear below) fun _ _ => .pure trivial
  · exact .bind m.download.within_obtain fun _ _ => .pure trivial
  · exact .bind (Download.within_install _ into) fun _ _ => .pure trivial
  · exact .pure trivial

theorem within_turn {b : Batch} (h : b.Below here places) (index : Nat) :
    Within here places (b.turn index) (Below here places) := by
  unfold turn
  split
  · exact .pure h
  · rename_i m listed
    refine .tryCatch (.bind (within_nextStage (h m (List.mem_of_getElem? listed))) ?_) ?_
    · exact fun stage _ => .pure (below_set h listed stage b.failure)
    · exact fun e => .pure (below_set h listed .stopped (b.failure <|> some e))

theorem within_run {b : Batch} (h : b.Below here places) (schedule : List Nat) :
    Within here places (b.run schedule) (Below here places) := by
  induction schedule generalizing b with
  | nil => exact .pure h
  | cons index schedule ih => exact .bind (within_turn h index) fun _ h' => ih h'

/-- **A batch changes nothing but what is below the places of its targets**, by any
schedule. -/
theorem within_fetchBy (schedule : List Nat) {rs : List Download}
    (below : ∀ r ∈ rs, ∀ place, r.target.place here <+: place → places place) :
    Within here places (fetchBy schedule rs) fun _ => True := by
  have start : (ofDownloads rs).Below here places := by
    intro m hm
    obtain ⟨r, hr, rfl⟩ := List.mem_map.mp hm
    exact below r hr
  refine .bind (within_run start schedule) fun b _ => ?_
  split
  · exact .pure trivial
  · exact .bind (.forM fun r hr => .discard (below r hr)) fun _ _ => .throw _

/-- What is to be downloaded is among what was asked for. -/
theorem within_sortOut (rs : List Download) :
    Within here places (sortOut rs) fun sorted => ∀ r ∈ sorted.2, r ∈ rs := by
  induction rs with
  | nil => exact .pure nofun
  | cons r rs ih =>
    refine .bind r.within_reusable? fun found _ => ?_
    split
    · exact .bind ih fun _ listed => .pure fun r' hr' => .tail r (listed r' hr')
    · refine .bind ih fun _ listed => .pure fun r' hr' => ?_
      rcases List.mem_cons.mp hr' with rfl | hr'
      · exact List.mem_cons_self
      · exact .tail r (listed r' hr')

theorem within_ensure {rs : List Download}
    (below : ∀ r ∈ rs, ∀ place, r.target.place here <+: place → places place) :
    Within here places (ensure rs) fun _ => True := by
  refine .bind (within_sortOut rs) fun sorted listed => ?_
  refine .bind (within_fetchBy _ fun r hr => below r (listed r hr)) fun _ _ => ?_
  exact .pure trivial

end Batch
end Patchwork
