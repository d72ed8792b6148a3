import Patchwork.Proofs.Disk.Alike
import Patchwork.Proofs.Download.Landed
import Patchwork.Proofs.Steady

/-! Making room and downloading in twins.  Making room for a plain path comes to the same in twins even
where what stood in its place is stale, and leaves nothing stale there, as long as no file may be left
on the way (`Action.agrees_clear`).  Downloads whose sources are fresh then agree, one at a time
(`Download.steady_fetch`) and in batches, where the first failure decides (`Batch.agrees_fetchBy`). -/

namespace Patchwork
open Patchwork.Disk
variable {here : Place} {stale : Place → Prop} {keeps : Place → Option Node → Prop}
  {d d' : Disk} {p : Path} {w w' : World}

/-! ## Making room -/

/-- **A plain path** ends in a name that a file may have, leads straight there, and through names that
are not too long. -/
structure Path.Plain (p : Path) : Prop where
  ends : p.endsInName
  file : p.meansDir = false
  straight : ".." ∉ p.parts
  short : ∀ name ∈ p.parts, name.utf8ByteSize ≤ nameLimit

/-- Whether no file can be in the way of a plain path but one that is in the way in twins: its stops are
fresh, or no file may be left there. -/
structure Path.Clearable (here : Place) (stale : Place → Prop) (keeps : Place → Option Node → Prop)
    (p : Path) : Prop extends Plain p where
  root : ¬ stale (stopFrom here p [])
  way : ∀ front, front <+: p.parts → front ≠ p.parts → ¬ stale (stopFrom here p front) ∨
    ∀ bytes, ¬ keeps (stopFrom here p front) (some (.file bytes))

theorem Path.Plain.parts_ne_nil (plain : p.Plain) : p.parts ≠ [] := by
  obtain ⟨front, name, parts, -⟩ := exists_parts_of_endsInName plain.ends
  rw [parts]
  exact List.concat_ne_nil _ _

namespace Disk

theorem follow_of_blocked (tree : d.IsTree) {start : Place} {names front : List String}
    {bytes : ByteArray} (plain : "" ∉ names) (straight : ".." ∉ names)
    (short : ∀ name ∈ names, name.utf8ByteSize ≤ nameLimit) (above : front <+: names)
    (apart : front ≠ names) (file : d.at? (front.foldl Place.step start) = some (.file bytes)) :
    d.follow start names = .error .notDirectory := by
  induction names generalizing start front with
  | nil => exact absurd (List.prefix_nil.mp above) apart
  | cons name names ih =>
    obtain ⟨named, plain'⟩ := List.ne_and_not_mem_of_not_mem_cons plain
    obtain ⟨-, straight'⟩ := List.ne_and_not_mem_of_not_mem_cons straight
    obtain ⟨first, others⟩ := List.forall_mem_cons.mp short
    rcases stands : d.at? start with _ | bytes' | _
    · have straight'' : ".." ∉ front := fun listed => straight (above.subset listed)
      obtain ⟨rest, whole⟩ := prefix_foldl_step straight'' start
      rw [← whole, tree.none_of_append stands] at file
      cases file
    · rw [follow, stands]
    · rcases List.prefix_cons_iff.mp above with rfl | ⟨front', rfl, above'⟩
      · cases stands.symm.trans file
      · rw [follow_cons named.symm stands, if_neg (Nat.not_lt.mpr first)]
        exact ih plain' straight' others above' (fun same => apart (same ▸ rfl)) file

/-- A path that leads through a file cannot be followed. -/
theorem locate_of_blocked (tree : d.IsTree) (plain : p.Plain) (fits : p.Fits)
    (blocked : ¬ d.Clear p) : d.locate p = .error .notDirectory := by
  unfold Clear at blocked
  push Not at blocked
  obtain ⟨front, above, apart, bytes, file⟩ := blocked
  unfold locate
  rw [if_neg (by simpa using fits.nulless), if_neg fits.ne_empty,
    if_neg (Nat.not_lt.mpr fits.size_le)]
  exact follow_of_blocked tree p.empty_notMem_parts plain.straight plain.short above apart file

/-- Making directories changes nothing but at their places. -/
theorem at?_makeDirsOf {place : Place} {paths : List Path}
    (out : ∀ q ∈ paths, place ≠ q.place d.here) :
    (d.makeDirsOf paths).2.here = d.here ∧ (d.makeDirsOf paths).2.at? place = d.at? place := by
  have one : ∀ {d d' : Disk} {q : Path}, d.makeDir q = .ok d' → place ≠ q.place d.here →
      d'.here = d.here ∧ d'.at? place = d.at? place := by
    intro d d' q made apart
    obtain ⟨above, led, made⟩ := bind_eq_ok_iff.mp made
    split at made
    · cases made
    · cases made
      exact ⟨rfl, at?_put d above .dir fun same => apart (same.trans (place_of_locate led).symm)⟩
  fun_induction makeDirsOf d paths with
  | case1 | case2 | case7 => exact ⟨rfl, rfl⟩
  | case3 _ _ _ d' made => exact one made (out _ List.mem_cons_self)
  | case4 _ _ _ _ e d' above ih =>
    rw [above] at ih
    exact ih fun q listed => out q (.tail _ listed)
  | case5 q up _ _ d' above d'' made ih =>
    rw [above] at ih
    obtain ⟨here, same⟩ := ih fun q listed => out q (.tail _ listed)
    obtain ⟨here', same'⟩ := one made (here ▸ out _ List.mem_cons_self)
    exact ⟨here'.trans here, same'.trans same⟩
  | case6 _ _ _ _ d' above e _ ih =>
    rw [above] at ih
    exact ih fun q listed => out q (.tail _ listed)

end Disk

namespace Action

/-- Making the directory of a path changes nothing but at the stops in front of its last name. -/
theorem at?_makeParent {place : Place} (w : World)
    (off : ∀ front, front <+: p.parts.dropLast → place ≠ stopFrom w.disk.here p front) :
    (makeParent p w).2.disk.at? place = w.disk.at? place := by
  unfold makeParent
  by_cases none : p.parts = []
  · rw [Path.parent?_eq_none none]
    rfl
  · obtain ⟨q, parent, isParent⟩ := Path.exists_parent none
    rw [parent]
    dsimp only
    rw [makeDirs, changeBy_apply]
    have fresh : Fresh w.disk.here (· = place) q := .of_isParent isParent fun front above same =>
      off front above same.symm
    exact (at?_makeDirsOf fun q' listed same => (fresh.of_mem_withParents listed).not_stale same.symm).2

/-- **Making room changes nothing** but at the stops of the path and below its place, also where it
fails. -/
theorem at?_clear {place : Place} (out : ¬ p.place w.disk.here <+: place)
    (off : ∀ front, front <+: p.parts → place ≠ stopFrom w.disk.here p front) :
    (clear p w).2.disk.at? place = w.disk.at? place := by
  have kept := at?_remove w.disk p out
  have here := here_remove w.disk p
  have removed := remove_snd p w
  unfold clear
  rw [bind_apply]
  rcases ran : Action.remove p w with ⟨e | _, w₁⟩ <;> rw [ran] at removed <;>
    dsimp only at removed ⊢ <;> subst removed
  · exact kept
  · refine (at?_makeParent _ fun front above => ?_).trans kept
    rw [World.withDisk_disk, here]
    exact off front (above.trans (List.dropLast_prefix _))

theorem here_clear (p : Path) (w : World) : (clear p w).2.disk.here = w.disk.here :=
  ((Within.clear fun _ _ => trivial : Within w.disk.here (fun _ => True) (clear p) _).sameBut rfl).here

/-- What twins are behind making room: stale places stay as they are. -/
theorem twins_clear (twins : Twins here stale keeps w w')
    (same : ∀ place, ¬ behindRoom here stale [p] place →
      (clear p w').2.disk.at? place = (clear p w).2.disk.at? place) :
    Twins here (behindRoom here stale [p]) keeps (clear p w).2 (clear p w').2 := by
  have alike := twins.alike
  refine ⟨(here_clear p w).trans twins.here, Batch.isTree_makeRoom alike.tree ⟨"", p, none⟩,
    Batch.isTree_makeRoom alike.tree' ⟨"", p, none⟩, ?_, same, fun place behind => ?_,
    fun place behind => alike.vacant place behind.1⟩
  · rw [here_clear, here_clear, alike.here]
  · obtain ⟨stale', out, off⟩ := behindRoom_singleton.mp behind
    have kept := alike.kept place stale'
    rw [← twins.here] at out off
    have kept' := at?_clear out off
    rw [← alike.here] at out off
    rw [kept', at?_clear out off]
    exact kept

/-- Where a path begins nowhere, making room for it finds nothing that is stale. -/
theorem agrees_clear_of_adrift (twins : Twins here stale keeps w w') (straight : ".." ∉ p.parts)
    (free : w.disk.at? (stopFrom here p []) = none) (root : ¬ stale (stopFrom here p [])) :
    Agrees (clear p) w w' fun _ u u' => Twins here (behindRoom here stale [p]) keeps u u' := by
  have alike := twins.alike
  have below : ∀ front, front <+: p.parts → stopFrom here p [] <+: stopFrom here p front :=
    fun front above => prefix_foldl_step (fun listed => straight (above.subset listed)) _
  have adrift : Twins here (fun place => stale place ∧ ¬ stopFrom here p [] <+: place) keeps w w' := by
    refine ⟨twins.here, alike.tree, alike.tree', alike.here, fun place fresh => ?_,
      fun place stale => alike.kept place stale.1, fun place stale => alike.vacant place stale.1⟩
    by_cases under : stopFrom here p [] <+: place
    · obtain ⟨names, rfl⟩ := under
      rw [alike.tree.none_of_append free, alike.tree'.none_of_append ((alike.same _ root).trans free)]
    · exact alike.same place fun stale => fresh ⟨stale, under⟩
  have fresh : Fresh here (fun place => stale place ∧ ¬ stopFrom here p [] <+: place) p :=
    fun front above stale => stale.2 (below front above)
  obtain ⟨same, -, alike₁⟩ := (Steady.clear fresh).run w w' adrift
  refine ⟨same, fun _ _ => twins_clear twins fun place out => alike₁.same place ?_⟩
  rintro ⟨stale', apart⟩
  refine out (behindRoom_singleton.mpr ⟨stale', fun under => apart ?_,
    fun front above at_ => apart (at_ ▸ below front above)⟩)
  refine (below _ List.prefix_rfl).trans ?_
  rwa [stopFrom, Path.foldl_parts]

theorem clear_of_error {e : IoError} (lost : w.disk.locate p = .error e) (ne : e ≠ .notFound) :
    clear p w = (.error (.io (.inspecting p.text) e), w) := by
  have lost' : w.disk.find p = .error e := by
    unfold Disk.find
    rw [lost]
    rfl
  unfold clear Action.remove
  refine bind_of_error ?_ _
  rw [bind_of_ok (disk_apply w), lost']
  cases e
  case notFound => exact absurd rfl ne
  all_goals rfl

/-- A path that is not taken is refused for what is wrong with its text. -/
theorem exists_error_of_not_fits (ends : p.endsInName) (unfit : ¬ p.Fits) :
    ∃ e, e ≠ .notFound ∧ ∀ d : Disk, d.locate p = .error e := by
  unfold Disk.locate
  by_cases nul : p.text.toList.contains '\x00'
  · exact ⟨.nulInName, nofun, fun _ => if_pos nul⟩
  by_cases blank : p.text = ""
  · obtain ⟨front, name, parts, -⟩ := Path.exists_parts_of_endsInName ends
    rw [Path.parts_eq, blank] at parts
    have none : Path.namesOf (Text.pieces '/' "") = [] := by decide
    rw [none] at parts
    exact absurd parts.symm (List.concat_ne_nil _ _)
  by_cases long : Disk.pathLimit < p.text.utf8ByteSize
  · exact ⟨.nameTooLong, nofun, fun _ => by rw [if_neg nul, if_neg blank, if_pos long]⟩
  · exact absurd ⟨by simpa using nul, blank, Nat.not_lt.mp long⟩ unfit

/-- Where directories stand at the stops of a path, they stand at all places above its own. -/
theorem dir_of_stops (tree : d.IsTree) (ends : p.endsInName)
    (stops : ∀ front, front <+: p.parts → front ≠ p.parts → d.at? (d.stop p front) = some .dir)
    {place : Place} (above : place <+: p.place d.here) (apart : ¬ p.place d.here <+: place) :
    d.at? place = some .dir := by
  obtain ⟨front, name, parts, step⟩ := Path.exists_parts_of_endsInName ends
  have at_ : p.place d.here = d.stop p front ++ [name] := by
    rw [← stop_parts, parts, stop, stop, List.foldl_append, List.foldl_cons, List.foldl_nil, step]
  have dir := stops front (parts ▸ List.prefix_append _ _) (by simp [parts])
  rw [at_] at above apart
  rcases List.prefix_concat_iff.mp above with same | above
  · exact absurd (same ▸ List.prefix_rfl) apart
  · obtain ⟨rest, whole⟩ := above
    by_cases last : rest = []
    · rwa [← whole, last, List.append_nil] at dir
    · exact tree.dir_of_append (by rw [whole, dir]; exact Option.some_ne_none _) last

/-- Making room where no file is in the way: nothing is left at the place of the path, directories stand
above it, and all else stays. -/
theorem exists_clear (tree : w.disk.IsTree) (names : p.NamesFile) (straight : ".." ∉ p.parts)
    (clear : w.disk.Clear p) (root : w.disk.at? (w.disk.start p) = some .dir) :
    ∃ d, Action.clear p w = (.ok (), w.withDisk d) ∧ ∀ place,
      (p.place w.disk.here <+: place → d.at? place = none) ∧
      (¬ p.place w.disk.here <+: place → place <+: p.place w.disk.here → d.at? place = some .dir) ∧
      (¬ p.place w.disk.here <+: place → ¬ place <+: p.place w.disk.here →
        d.at? place = w.disk.at? place) := by
  have missing : ∀ front, front <+: p.parts → front ≠ p.parts →
      w.disk.at? (w.disk.stop p front) = none → w.disk.at? (p.place w.disk.here) = none := by
    intro front above _ free
    obtain ⟨rest, whole⟩ := stop_prefix_place (d := w.disk) straight above
    rw [← whole]
    exact tree.none_of_append free rest
  have approach : w.disk.Approach p := ⟨root, clear, fun _ => stop_ne_place names.ends straight, missing⟩
  obtain ⟨d, made, free, rebuilt⟩ := approach.exists_cleared names.toTakes names.ends fun meant => by
    simp [names.file] at meant
  have tree' := isTree_clear tree p
  rw [made] at tree'
  have quiet := rebuilt.quiet straight
  have stops : ∀ front, front <+: p.parts → front ≠ p.parts → d.at? (d.stop p front) = some .dir :=
    fun front above proper => stop_eq quiet.here p front ▸ rebuilt.stops front above proper
  refine ⟨d, made, fun place => ⟨?_, fun out above => ?_, fun out out' => quiet.at?_eq out out'⟩⟩
  · rintro ⟨rest, rfl⟩
    exact tree'.none_of_append free rest
  · rw [← quiet.here] at out above
    exact dir_of_stops tree' names.ends stops above out

/-- **Making room comes to the same in twins**, also where what stood there is stale. -/
theorem agrees_clear (twins : Twins here stale keeps w w') (plain : p.Clearable here stale keeps) :
    Agrees (clear p) w w' fun _ u u' => Twins here (behindRoom here stale [p]) keeps u u' := by
  have alike := twins.alike
  have refused : ∀ {e : IoError}, e ≠ .notFound → w.disk.locate p = .error e →
      w'.disk.locate p = .error e →
      Agrees (clear p) w w' fun _ u u' => Twins here (behindRoom here stale [p]) keeps u u' := by
    intro e ne lost lost'
    exact ⟨by rw [clear_of_error lost ne, clear_of_error lost' ne],
      by rw [clear_of_error lost ne]; exact nofun⟩
  by_cases fits : p.Fits
  case neg =>
    obtain ⟨e, ne, lost⟩ := exists_error_of_not_fits plain.ends fits
    exact refused ne (lost _) (lost _)
  have names : p.NamesFile := ⟨⟨fits, plain.short⟩, plain.ends, plain.file⟩
  have stop : ∀ front, w.disk.stop p front = stopFrom here p front := fun front => by
    rw [← twins.here]
    rfl
  have stop' : ∀ front, w'.disk.stop p front = stopFrom here p front := fun front => by
    rw [← twins.here']
    rfl
  have same_root := alike.same _ plain.root
  rcases start : w.disk.at? (stopFrom here p []) with _ | node
  · exact agrees_clear_of_adrift twins plain.straight start plain.root
  -- a file in the way is not stale, so it is in the way in both
  have clear_iff : w'.disk.Clear p ↔ w.disk.Clear p := by
    refine forall_congr' fun front => forall_congr' fun above => forall_congr' fun apart => ?_
    rw [stop, stop']
    rcases Classical.em (stale (stopFrom here p front)) with left | fresh
    · have none := (plain.way front above apart).resolve_left (not_not_intro left)
      obtain ⟨kept, kept'⟩ := alike.kept _ left
      exact ⟨fun _ bytes file => none bytes (file ▸ kept), fun _ bytes file => none bytes (file ▸ kept')⟩
    · rw [alike.same _ fresh]
  by_cases clear : w.disk.Clear p
  case neg =>
    exact refused (e := .notDirectory) nofun (locate_of_blocked alike.tree plain.toPlain fits clear)
      (locate_of_blocked alike.tree' plain.toPlain fits (mt clear_iff.mp clear))
  have dir : node = .dir := by
    cases node with
    | dir => rfl
    | file bytes =>
      exact absurd (stop [] ▸ start) (clear [] List.nil_prefix names.parts_ne_nil.symm bytes)
  subst dir
  have place' : p.place w'.disk.here = p.place w.disk.here := by rw [alike.here]
  obtain ⟨d, made, left⟩ := exists_clear alike.tree names plain.straight clear
    ((congrArg _ (stop [])).trans start)
  obtain ⟨d', made', left'⟩ := exists_clear alike.tree' names plain.straight (clear_iff.mpr clear)
    ((congrArg _ (stop' [])).trans (same_root.trans start))
  rw [place'] at left'
  refine ⟨by rw [made, made'], fun _ _ => twins_clear twins fun place out => ?_⟩
  rw [made, made', World.withDisk_disk, World.withDisk_disk]
  obtain ⟨free, dir, same⟩ := left place
  obtain ⟨free', dir', same'⟩ := left' place
  by_cases below : p.place w.disk.here <+: place
  · rw [free below, free' below]
  by_cases above : place <+: p.place w.disk.here
  · rw [dir below above, dir' below above]
  · have fresh : ¬ stale place := by
      refine fun left => out (behindRoom_singleton.mpr ⟨left, twins.here ▸ below,
        fun front on same => above ?_⟩)
      rw [same, ← stop]
      exact stop_prefix_place plain.straight on
    rw [same below above, same' below above]
    exact alike.same place fresh

theorem agrees_clear_behind {ps : List Path} (twins : Twins here (behindRoom here stale ps) keeps w w')
    (clearable : p.Clearable here stale keeps) :
    Agrees (clear p) w w' fun _ u u' => Twins here (behindRoom here stale (ps ++ [p])) keeps u u' := by
  rw [← behindRoom_append]
  refine agrees_clear twins ⟨clearable.toPlain, fun stale => clearable.root stale.1, ?_⟩
  exact fun front above apart => (clearable.way front above apart).imp_left fun fresh stale =>
    fresh stale.1

end Action

/-! ## One download -/

/-- Whether nothing that a download reads is stale. -/
def Download.Sourced (r : Download) (here : Place) (stale : Place → Prop) : Prop :=
  ∀ p, sourcePath r.url = .ok p → Fresh here stale p

theorem sourceBytes_congr {url : String} (alike : d.Alike stale keeps d')
    (sourced : ∀ p, sourcePath url = .ok p → Fresh d.here stale p) :
    sourceBytes d' url = sourceBytes d url := by
  unfold sourceBytes
  rcases path : sourcePath url with e | p
  · rfl
  · rw [ok_bind, ok_bind, alike.read_eq (sourced p path)]

namespace Download
variable {r : Download}

/-- **Obtaining is steady** where neither the source nor the directory of the target is stale. -/
theorem steady_obtain (sourced : r.Sourced here stale) (fresh : Fresh here stale r.target)
    (named : r.target.parts ≠ []) : Action.Steady here stale keeps r.obtain := by
  obtain ⟨q, parent, isParent⟩ := Path.exists_parent named
  have staging : r.stagingDir = q := by rw [stagingDir, parent, Option.getD_some]
  have above : Fresh here stale q := .of_isParent isParent fun front above =>
    fresh front (above.trans (List.dropLast_prefix _))
  refine .bind_disk (fun d d' hd alike => ?_) fun d => ?_
  · subst hd
    rw [staging, alike.isDir_eq above, sourceBytes_congr alike sourced]
  · split
    · exact .throw _
    · exact .bind (.ofOutcome _) fun _ => .bind (.ofOutcome _) fun _ => .pure _

theorem steady_install (fresh : Fresh here stale r.target) (bytes : ByteArray) :
    Action.Steady here stale keeps (r.install bytes) := by
  refine ⟨fun w w' twins => ?_⟩
  have placed : AlikeChanges stale keeps w.disk.here (w.disk.placeFile r.target bytes)
      (w'.disk.placeFile r.target bytes) := twins.alike.placeFile (twins.here ▸ fresh)
  unfold install
  rw [Action.bind_of_ok (Action.disk_apply w), Action.bind_of_ok (Action.disk_apply w')]
  rcases put : w.disk.placeFile r.target bytes with e | d <;>
    rcases put' : w'.disk.placeFile r.target bytes with e' | d' <;> rw [put, put'] at placed
  · cases placed
    exact ⟨rfl, twins⟩
  · cases placed
  · cases placed
  · exact ⟨rfl, placed.1.trans twins.here, placed.2⟩

variable (sourced : r.Sourced here stale) (fresh : Fresh here stale r.target)
  (named : r.target.parts ≠ [])
include sourced fresh named

theorem steady_fetch : Action.Steady here stale keeps r.fetch := by
  have attempt : Action.Steady here stale keeps r.attempt :=
    .bind (.clear fresh) fun _ => .bind (steady_obtain sourced fresh named) fun _ =>
      .bind (steady_install fresh _) fun _ => .pure _
  exact .tryCatch attempt fun _ => .bind (.discard fresh) fun _ => .throw _

omit sourced named in
theorem steady_reusable? : Action.Steady here stale keeps r.reusable? := by
  unfold reusable?
  split
  · exact .pure _
  · refine .bind (.isFile fresh) fun _ => ?_
    split
    · refine .bind (.openFile fresh) fun _ => ?_
      split <;> exact .pure _
    · exact .pure _

/-- **A download is steady** where it reads and writes nothing stale. -/
theorem steady_ensure : Action.Steady here stale keeps r.ensure := by
  refine .bind (steady_reusable? fresh) fun found => ?_
  split
  · exact .pure _
  · exact steady_fetch sourced fresh named

end Download

/-! ## Batches -/

namespace Batch
variable {rs : List Download} {b : Batch}

theorem steady_nextStage {m : BatchMember} (sourced : m.download.Sourced here stale)
    (fresh : Fresh here stale m.download.target) (named : m.download.target.parts ≠ []) :
    Action.Steady here stale keeps (nextStage m) := by
  unfold nextStage
  split
  · exact .bind (.clear fresh) fun _ => .pure _
  · exact .bind (Download.steady_obtain sourced fresh named) fun _ => .pure _
  · exact .bind (Download.steady_install fresh _) fun _ => .pure _
  · exact .pure _

/-- **Downloading a batch is steady** where it reads and writes nothing stale. -/
theorem steady_fetchBy (schedule : List Nat) (sourced : ∀ r ∈ rs, r.Sourced here stale)
    (fresh : ∀ r ∈ rs, Fresh here stale r.target) (named : ∀ r ∈ rs, r.target.parts ≠ []) :
    Action.Steady here stale keeps (fetchBy schedule rs) := by
  have turned : ∀ (b : Batch) index, b.members.map (·.download) = rs →
      Action.Steady here stale keeps (b.turn index) := by
    intro b index downloads
    unfold turn
    split
    · exact .pure _
    · rename_i m taken
      have listed : m.download ∈ rs := downloads ▸ List.mem_map_of_mem (List.mem_of_getElem? taken)
      refine .tryCatch (.bind ?_ fun _ => .pure _) fun _ => .pure _
      exact steady_nextStage (sourced _ listed) (fresh _ listed) (named _ listed)
  have ran : ∀ (b : Batch), b.members.map (·.download) = rs →
      Action.Steady here stale keeps (b.run schedule) := by
    intro b downloads
    induction schedule generalizing b with
    | nil => exact .pure _
    | cons index schedule ih =>
      rw [run, List.foldlM_cons]
      refine .bind_of_returns (turned b index downloads) (fun w _ _ b' same => ?_) fun b' same => ih b' same
      obtain ⟨b₁, w₁, ran, turn⟩ := exists_turn b index w
      rw [ran] at same
      cases same
      exact turn.downloads.trans downloads
  refine .bind (ran _ (downloads_ofDownloads rs)) fun _ => ?_
  split
  · exact .pure _
  · exact .bind (.forM fun r listed => .discard (fresh r listed)) fun _ => .throw _

theorem steady_ensure (sourced : ∀ r ∈ rs, r.Sourced here stale)
    (fresh : ∀ r ∈ rs, Fresh here stale r.target) (named : ∀ r ∈ rs, r.target.parts ≠ []) :
    Action.Steady here stale keeps (ensure rs) := by
  have sorted : Action.Steady here stale keeps (sortOut rs) := by
    clear sourced named
    induction rs with
    | nil => exact .pure _
    | cons r rs ih =>
      obtain ⟨first, others⟩ := List.forall_mem_cons.mp fresh
      refine .bind (Download.steady_reusable? first) fun _ => ?_
      split <;> exact .bind (ih others) fun _ => .pure _
  have within : Action.Within here (fun _ => True) (sortOut rs) fun sorted => ∀ r ∈ sorted.2, r ∈ rs :=
    within_sortOut rs
  refine .bind_of_returns sorted (fun w hw _ => within.returns w hw) fun found among => ?_
  exact .bind (steady_fetchBy _ (fun r hr => sourced r (among r hr)) (fun r hr => fresh r (among r hr))
    fun r hr => named r (among r hr)) fun _ => .pure _

/-! ## Batches whose targets are stale -/

/-- Whether a member has begun, so that room was made for its target. -/
def Begun (m : BatchMember) : Prop := m.stage ≠ .waiting

open Classical in
/-- The targets of the members that have begun. -/
noncomputable def begun (ms : List BatchMember) : List Path :=
  (ms.filter (Begun ·)).map (·.download.target)

theorem mem_begun_iff {ms : List BatchMember} :
    p ∈ begun ms ↔ ∃ m ∈ ms, Begun m ∧ m.download.target = p := by
  simp [begun, and_assoc]

/-- A member that takes a stage has begun then. -/
theorem mem_begun_set {ms : List BatchMember} {index : Nat} {m : BatchMember} {s : BatchStage}
    (taken : ms[index]? = some m) (begins : s ≠ .waiting) :
    p ∈ begun (ms.set index ⟨m.download, s⟩) ↔ p ∈ begun ms ∨ p = m.download.target := by
  obtain ⟨inside, at_⟩ := List.getElem?_eq_some_iff.mp taken
  rw [mem_begun_iff, mem_begun_iff]
  constructor
  · rintro ⟨m', listed, began, rfl⟩
    rcases List.mem_or_eq_of_mem_set listed with listed | rfl
    · exact .inl ⟨m', listed, began, rfl⟩
    · exact .inr rfl
  · rintro (⟨m', listed, began, rfl⟩ | rfl)
    · obtain ⟨other, at_'⟩ := List.mem_iff_getElem?.mp listed
      by_cases same : index = other
      · subst same
        cases taken.symm.trans at_'
        exact ⟨_, List.mem_set inside _, begins, rfl⟩
      · exact ⟨m', List.mem_of_getElem? ((List.getElem?_set_ne same).trans at_'), began, rfl⟩
    · exact ⟨_, List.mem_set inside _, begins, rfl⟩

/-- The first failure is kept. -/
theorem Turn.failure_of_some {b' : Batch} {index : Nat} (turn : Turn b index w b' w') {e : Failure}
    (failure : b.failure = some e) : b'.failure = some e := by
  cases turn with
  | idle | passed => exact failure
  | failed =>
    rw [failure]
    rfl

/-- **How two runs of a batch stand to each other** after the same turns: the same member failed first,
or none did and all came equally far. -/
structure Paired (here : Place) (stale : Place → Prop) (keeps : Place → Option Node → Prop)
    (rs : List Download) (b b' : Batch) (w w' : World) : Prop where
  downloads : b.members.map (·.download) = rs
  failure : b'.failure = b.failure
  going : b.failure = none →
    b' = b ∧ Twins here (behindRoom here stale (begun b.members)) keeps w w'

variable (sourced : ∀ r ∈ rs, r.Sourced here stale)
  (clearable : ∀ r ∈ rs, r.target.Clearable here stale keeps)
include sourced clearable

/-- **A stage comes to the same in both runs**, and room is made for its target then. -/
theorem agrees_nextStage {index : Nat} {m : BatchMember}
    (downloads : b.members.map (·.download) = rs) (taken : b.members[index]? = some m)
    (twins : Twins here (behindRoom here stale (begun b.members)) keeps w w') :
    Action.Agrees (nextStage m) w w' fun s u u' => Twins here
      (behindRoom here stale (begun (b.members.set index ⟨m.download, s⟩))) keeps u u' := by
  have listed : m.download ∈ rs := downloads ▸ List.mem_map_of_mem (List.mem_of_getElem? taken)
  have sourced : m.download.Sourced here (behindRoom here stale (begun b.members)) :=
    fun p path => (sourced _ listed p path).behindRoom _
  have named := (clearable _ listed).toPlain.parts_ne_nil
  have after : ∀ {s : BatchStage} {u u' : World},
      Twins here (behindRoom here stale (begun b.members ++ [m.download.target])) keeps u u' →
      s ≠ .waiting →
      Twins here (behindRoom here stale (begun (b.members.set index ⟨m.download, s⟩))) keeps u u' := by
    intro s u u' twins begins
    have same : behindRoom here stale (begun (b.members.set index ⟨m.download, s⟩)) =
        behindRoom here stale (begun b.members ++ [m.download.target]) := behindRoom_congr fun p => by
      rw [mem_begun_set taken begins, List.mem_append, List.mem_singleton]
    rwa [same]
  by_cases waits : m.stage = .waiting
  · unfold nextStage
    rw [waits]
    refine .bind (Action.agrees_clear_behind twins (clearable _ listed)) fun _ _ _ twins => .pure ?_
    exact after twins (by nofun)
  · have begun' : m.download.target ∈ begun b.members :=
      mem_begun_iff.mpr ⟨m, List.mem_of_getElem? taken, waits, rfl⟩
    have same : behindRoom here stale (begun b.members) =
        behindRoom here stale (begun b.members ++ [m.download.target]) := behindRoom_congr fun p => by
      rw [List.mem_append, List.mem_singleton, or_iff_left_of_imp (· ▸ begun')]
    have fresh := (clean_of_mem begun' : Clean here (behindRoom here stale (begun b.members)) _).fresh
    rw [same] at twins fresh sourced
    unfold nextStage
    split
    · exact absurd ‹_› waits
    · refine .bind ((Download.steady_obtain sourced fresh named).agrees twins) fun _ _ _ twins => .pure ?_
      exact after twins (by nofun)
    · refine .bind ((Download.steady_install fresh _).agrees twins) fun _ _ _ twins => .pure ?_
      exact after twins (by nofun)
    · exact .pure (after twins waits)

theorem Paired.turn {b' : Batch} (paired : Paired here stale keeps rs b b' w w') (index : Nat) :
    ∃ b₁ b₁' w₁ w₁', b.turn index w = (.ok b₁, w₁) ∧ b'.turn index w' = (.ok b₁', w₁') ∧
      Paired here stale keeps rs b₁ b₁' w₁ w₁' := by
  obtain ⟨b₁, w₁, ran, turn⟩ := exists_turn b index w
  obtain ⟨b₁', w₁', ran', turn'⟩ := exists_turn b' index w'
  suffices same : b₁'.failure = b₁.failure ∧ (b₁.failure = none →
      b₁' = b₁ ∧ Twins here (behindRoom here stale (begun b₁.members)) keeps w₁ w₁') from
    ⟨b₁, b₁', w₁, w₁', ran, ran', turn.downloads.trans paired.downloads, same.1, same.2⟩
  rcases failure : b.failure with _ | e
  case some =>
    have known := turn.failure_of_some failure
    have known' := turn'.failure_of_some (paired.failure.trans failure)
    exact ⟨known'.trans known.symm, fun unfailed => nomatch known.symm.trans unfailed⟩
  obtain ⟨rfl, twins⟩ := paired.going failure
  cases turn with
  | idle absent =>
    cases turn' with
    | idle => exact ⟨rfl, fun _ => ⟨rfl, twins⟩⟩
    | passed taken | failed taken => cases absent.symm.trans taken
  | passed taken passed =>
    obtain ⟨same, done⟩ := agrees_nextStage sourced clearable paired.downloads taken twins
    cases turn' with
    | idle absent => cases absent.symm.trans taken
    | passed taken' passed' =>
      cases taken.symm.trans taken'
      rw [passed, passed'] at same
      cases same
      refine ⟨rfl, fun _ => ⟨rfl, ?_⟩⟩
      have twins := done _ (by rw [passed])
      rwa [passed, passed'] at twins
    | failed taken' failed' =>
      cases taken.symm.trans taken'
      rw [passed, failed'] at same
      cases same
  | failed taken failed =>
    obtain ⟨same, -⟩ := agrees_nextStage sourced clearable paired.downloads taken twins
    cases turn' with
    | idle absent => cases absent.symm.trans taken
    | passed taken' passed' =>
      cases taken.symm.trans taken'
      rw [failed, passed'] at same
      cases same
    | failed taken' failed' =>
      cases taken.symm.trans taken'
      rw [failed, failed'] at same
      cases same
      exact ⟨rfl, fun unfailed => by rw [failure] at unfailed; cases unfailed⟩

/-- **Batches agree in twins**, their targets stale or not; where they succeed, there is room for all
targets. -/
theorem agrees_fetchBy {schedule : List Nat} (finishes : Finishes schedule rs w)
    (twins : Twins here stale keeps w w') :
    Action.Agrees (fetchBy schedule rs) w w' fun _ u u' =>
      Twins here (behindRoom here stale (rs.map (·.target))) keeps u u' := by
  have loop : ∀ schedule (b b' : Batch) w w', Paired here stale keeps rs b b' w w' →
      ∃ b₁ b₁' w₁ w₁', b.run schedule w = (.ok b₁, w₁) ∧ b'.run schedule w' = (.ok b₁', w₁') ∧
        Paired here stale keeps rs b₁ b₁' w₁ w₁' := by
    intro schedule
    induction schedule with
    | nil => exact fun b b' w w' paired => ⟨b, b', w, w', rfl, rfl, paired⟩
    | cons index schedule ih =>
      intro b b' w w' paired
      obtain ⟨b₁, b₁', w₁, w₁', ran, ran', paired₁⟩ := paired.turn sourced clearable index
      obtain ⟨b₂, b₂', w₂, w₂', ran₂, ran₂', paired₂⟩ := ih b₁ b₁' w₁ w₁' paired₁
      refine ⟨b₂, b₂', w₂, w₂', ?_, ?_, paired₂⟩
      · rw [run, List.foldlM_cons, Action.bind_of_ok ran]
        exact ran₂
      · rw [run, List.foldlM_cons, Action.bind_of_ok ran']
        exact ran₂'
  have start : Paired here stale keeps rs (ofDownloads rs) (ofDownloads rs) w w' := by
    refine ⟨downloads_ofDownloads rs, rfl, fun _ => ⟨rfl, ?_⟩⟩
    have none : begun (ofDownloads rs).members = [] := by
      refine List.eq_nil_iff_forall_not_mem.mpr fun p listed => ?_
      obtain ⟨m, hm, began, -⟩ := mem_begun_iff.mp listed
      obtain ⟨r, -, rfl⟩ := List.mem_map.mp hm
      exact began rfl
    have all : behindRoom here stale [] = stale := funext fun place => by simp [behindRoom]
    rwa [none, all]
  obtain ⟨b, b', w₁, w₁', ran, ran', paired⟩ := loop schedule _ _ w w' start
  rcases failure : b.failure with _ | e
  · obtain ⟨rfl, twins₁⟩ := paired.going failure
    have done : ∀ {u v}, (ofDownloads rs).run schedule u = (.ok b', v) →
        fetchBy schedule rs u = (.ok (b'.members.filterMap placed?), v) := by
      intro u v ran
      unfold fetchBy
      rw [Action.bind_of_ok ran, failure]
      rfl
    refine ⟨by rw [done ran, done ran'], fun _ _ => ?_⟩
    rw [done ran, done ran']
    have all : behindRoom here stale (begun b'.members) = behindRoom here stale (rs.map (·.target)) := by
      refine behindRoom_congr fun p => ?_
      rw [mem_begun_iff, ← paired.downloads, List.map_map, List.mem_map]
      refine exists_congr fun m => and_congr_right fun listed => and_iff_right fun waits => ?_
      have placed := finishes b' w₁ ran failure m listed
      rw [placed?, waits] at placed
      cases placed
    rwa [← all]
  · have failed : ∀ {c : Batch} {u v}, (ofDownloads rs).run schedule u = (.ok c, v) →
        c.failure = some e → (fetchBy schedule rs u).1 = .error e := by
      intro c u v ran failure
      unfold fetchBy
      rw [Action.bind_of_ok ran, failure]
      dsimp only
      rcases discarded : rs.forM Download.discard v with ⟨e' | _, v'⟩
      · exact absurd ((ends_discards rs v).error discarded) id
      · rw [Action.bind_of_ok discarded]
        rfl
    have first := failed ran failure
    refine ⟨by rw [first, failed ran' (paired.failure.trans failure)], fun _ same => ?_⟩
    cases first.symm.trans same

end Batch
end Patchwork
