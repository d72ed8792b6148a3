import Patchwork.Proofs.Disk.Route

/-! Disks that only grow.  Apart from what is at or below some places, clearing and filling these
places adds directories and does nothing else (`Disk.Grown`).  A file that lies elsewhere is read as
before, and nothing new can be read there (`Disk.read_of_grown`).

Something can come to the end of a path that starts in a directory and that no file is in the way of
(`Disk.Approach`): what stands there is removed or cleared (`Disk.Approach.remove`,
`Disk.Approach.exists_cleared`), and outside of this place nothing else is new (`Disk.Rebuilt`). -/

namespace Patchwork

namespace Disk
open Path
variable {d d' d'' : Disk} {p : Path} {place : Place} {cleared more : Place → Prop}

/-- **A disk that only grew**, except at and below some places: directories were made where nothing
stood. -/
structure Grown (cleared : Place → Prop) (d d' : Disk) : Prop where
  here : d'.here = d.here
  outside : ∀ place, (∀ other, cleared other → ¬ other <+: place) →
    d'.at? place = d.at? place ∨ d.at? place = none ∧ d'.at? place = some .dir

namespace Grown

theorem refl (cleared : Place → Prop) (d : Disk) : Grown cleared d d := ⟨rfl, fun _ _ => .inl rfl⟩

theorem trans (h : Grown cleared d d') (h' : Grown cleared d' d'') : Grown cleared d d'' := by
  refine ⟨h'.here.trans h.here, fun place out => ?_⟩
  rcases h.outside place out with same | ⟨free, dir⟩
  · rw [← same]
    exact h'.outside place out
  · rcases h'.outside place out with same' | ⟨free', -⟩
    · exact .inr ⟨free, same'.trans dir⟩
    · cases dir.symm.trans free'

theorem mono (h : Grown cleared d d') (sub : ∀ place, cleared place → more place) :
    Grown more d d' :=
  ⟨h.here, fun place out => h.outside place fun other known => out other (sub other known)⟩

/-- What stood outside stays, and what stands there as a file stood there. -/
theorem file_iff (h : Grown cleared d d') (out : ∀ other, cleared other → ¬ other <+: place)
    {bytes : ByteArray} : d'.at? place = some (.file bytes) ↔ d.at? place = some (.file bytes) := by
  rcases h.outside place out with same | ⟨free, dir⟩
  · rw [same]
  · rw [free, dir]
    exact ⟨nofun, nofun⟩

theorem file?_eq (h : Grown cleared d d') (out : ∀ other, cleared other → ¬ other <+: place) :
    d'.file? place = d.file? place := by
  rcases h.outside place out with same | ⟨free, dir⟩
  · rw [file?, file?, same]
  · rw [file?, file?, free, dir]

theorem dir (h : Grown cleared d d') (out : ∀ other, cleared other → ¬ other <+: place)
    (stands : d.at? place = some .dir) : d'.at? place = some .dir := by
  rcases h.outside place out with same | ⟨free, -⟩
  · rw [same, stands]
  · cases stands.symm.trans free

end Grown

/-- **A disk that one place disturbs**: outside of it directories were made on the way to it, and
nothing else changed. -/
structure Quiet (place : Place) (d d' : Disk) : Prop where
  here : d'.here = d.here
  outside : ∀ other, ¬ place <+: other → d'.at? other = d.at? other ∨
    d.at? other = none ∧ d'.at? other = some .dir ∧ other <+: place

namespace Quiet

theorem refl (place : Place) (d : Disk) : Quiet place d d := ⟨rfl, fun _ _ => .inl rfl⟩

theorem grown (h : Quiet place d d') : Grown (· = place) d d' := by
  refine ⟨h.here, fun other out => ?_⟩
  exact (h.outside other (out place rfl)).imp_right fun made => ⟨made.1, made.2.1⟩

/-- What is neither at or below the place nor above it stays as it is. -/
theorem at?_eq (h : Quiet place d d') {other : Place} (out : ¬ place <+: other)
    (out' : ¬ other <+: place) : d'.at? other = d.at? other :=
  (h.outside other out).resolve_right fun made => out' made.2.2

theorem put (d : Disk) (ne : place ≠ []) (node : Node) : Quiet place d (d.put place node) := by
  refine ⟨rfl, fun other out => .inl ?_⟩
  have apart : other ≠ place := fun same => out (same ▸ List.prefix_rfl)
  rw [at?_put_eq d ne, if_neg apart]

end Quiet

/-! ## Changes -/

theorem grown_put_dir (free : d.at? place = none) : Grown cleared d (d.put place .dir) := by
  have ne : place ≠ [] := by
    rintro rfl
    rw [at?_nil] at free
    cases free
  refine ⟨rfl, fun other _ => ?_⟩
  rw [at?_put_eq d ne]
  split
  · rename_i same
    exact .inr ⟨same ▸ free, rfl⟩
  · exact .inl rfl

theorem grown_makeDir (h : d.makeDir p = .ok d') : Grown cleared d d' := by
  obtain ⟨place, -, h⟩ := bind_eq_ok_iff.mp h
  split at h
  · cases h
  · rename_i free
    cases h
    exact grown_put_dir free

/-- Making directories adds them, also where it fails half-way. -/
theorem grown_makeDirs (d : Disk) (p : Path) : Grown cleared d (d.makeDirs p).2 := by
  unfold makeDirs
  -- a directory is made in `case3` and `case5` alone; elsewhere the last step is refused
  fun_induction makeDirsOf d p.withParents with
  | case1 | case2 | case7 => exact .refl _ _
  | case3 _ _ _ d' made => exact grown_makeDir made
  | case4 _ _ _ _ e d' above ih =>
    rw [above] at ih
    exact ih
  | case5 _ _ _ _ d' above d'' made ih =>
    rw [above] at ih
    exact ih.trans (grown_makeDir made)
  | case6 _ _ _ _ d' above e _ ih =>
    rw [above] at ih
    exact ih

/-- Removing a path leaves everything else as it is. -/
theorem at?_remove (d : Disk) (p : Path) {other : Place} (out : ¬ p.place d.here <+: other) :
    (d.remove p).2.at? other = d.at? other := by
  rcases found : d.find p with e | node
  · rw [remove_of_error found]
  obtain ⟨place, led, -⟩ := locate_of_find found
  rw [place_of_locate led] at out
  have ne : other ≠ place := fun same => out (same ▸ List.prefix_rfl)
  unfold remove
  rw [led, found]
  dsimp only
  split
  · rename_i ends
    obtain ⟨front, name, named⟩ := exists_place_of_endsInName ends d.here
    have top : place ≠ [] := by
      rw [← place_of_locate led, named]
      exact List.concat_ne_nil _ _
    rw [at?_erase d top, if_neg out]
  · rw [at?_emptied, if_neg fun h => out h.1]

theorem grown_remove (d : Disk) (p : Path) : Grown (· = p.place d.here) d (d.remove p).2 :=
  ⟨here_remove d p, fun _ out => .inl (at?_remove d p (out _ rfl))⟩

/-! ## Straight paths -/

/-- Names that do not lead back lead on below. -/
theorem prefix_foldl_step {names : List String} (straight : ".." ∉ names) (start : Place) :
    start <+: names.foldl Place.step start := by
  induction names generalizing start with
  | nil => exact List.prefix_rfl
  | cons name names ih =>
    obtain ⟨up, straight'⟩ := List.ne_and_not_mem_of_not_mem_cons straight
    have first : start <+: Place.step start name := by
      rw [Place.step]
      split
      · exact List.prefix_rfl
      · rw [if_neg up.symm]
        exact List.prefix_append _ _
    exact first.trans (ih straight' _)

/-- Each stop of a path that does not lead back lies above its place. -/
theorem stop_prefix_place {front : List String} (straight : ".." ∉ p.parts)
    (above : front <+: p.parts) : d.stop p front <+: p.place d.here := by
  obtain ⟨rest, whole⟩ := above
  rw [← stop_parts, ← whole, stop, stop, List.foldl_append]
  exact prefix_foldl_step (fun listed => straight (whole ▸ List.mem_append_right _ listed)) _

/-- Below the place of a path lies none of the stops in front of its name. -/
theorem stop_ne_place {front : List String} (ends : p.endsInName) (straight : ".." ∉ p.parts)
    (above : front <+: p.parts) (apart : front ≠ p.parts) :
    ¬ p.place d.here <+: d.stop p front := by
  obtain ⟨front', name, parts, step⟩ := exists_parts_of_endsInName ends
  have place : p.place d.here = d.stop p front' ++ [name] := by
    rw [← stop_parts, parts, stop, stop, List.foldl_append, List.foldl_cons, List.foldl_nil, step]
  have above' : front <+: front' := by
    have above' := prefix_dropLast above apart
    rwa [parts, List.dropLast_concat] at above'
  obtain ⟨rest, rfl⟩ := above'
  have before : d.stop p front <+: d.stop p (front ++ rest) := by
    rw [stop, stop, List.foldl_append]
    refine prefix_foldl_step (fun listed => straight ?_) _
    rw [parts]
    simp [listed]
  intro below
  have shorter := (below.trans before).length_le
  rw [place, List.length_append, List.length_singleton] at shorter
  omega

/-! ## Approaches -/

/-- **A path that a directory can be made along**, whether something stands at its end or not: it starts
in a directory, leads through no file and not through its own place, and where something is missing on
the way, nothing stands at its end. -/
structure Approach (d : Disk) (p : Path) : Prop where
  root : d.at? (d.start p) = some .dir
  clear : d.Clear p
  around : ∀ front, front <+: p.parts → front ≠ p.parts → ¬ p.place d.here <+: d.stop p front
  missing : ∀ front, front <+: p.parts → front ≠ p.parts → d.at? (d.stop p front) = none →
    d.at? (p.place d.here) = none

namespace Approach
variable (h : d.Approach p)
include h

/-- Where such a path leads nowhere, nothing stands at its end. -/
theorem free_of_find {e : IoError} (takes : Takes p)
    (fileless : p.meansDir → ∀ bytes, d.at? (p.place d.here) ≠ some (.file bytes))
    (lost : d.find p = .error e) : e = .notFound ∧ d.at? (p.place d.here) = none := by
  unfold find at lost
  rcases locate_of_clear takes h.clear with led | ⟨missing, front, above, proper, free⟩
  · rw [led, ok_bind] at lost
    rcases stands : d.at? (p.place d.here) with _ | bytes | _ <;> rw [stands] at lost
    · exact ⟨(Except.error.inj lost).symm, rfl⟩
    · dsimp only at lost
      split at lost
      · rename_i meant
        exact absurd stands (fileless meant bytes)
      · cases lost
    · cases lost
  · rw [missing] at lost
    exact ⟨(Except.error.inj lost).symm, h.missing front above proper free⟩

/-- Such a path stays one where its stops stay as they are or are made directories, if still nothing
stands at its end where something is missing. -/
theorem of_stops (here : d'.here = d.here) (root : d'.at? (d.start p) = some .dir)
    (stops : ∀ front, front <+: p.parts → front ≠ p.parts →
      d'.at? (d.stop p front) = d.at? (d.stop p front) ∨ d'.at? (d.stop p front) = some .dir)
    (missing : ∀ front, front <+: p.parts → front ≠ p.parts → d'.at? (d.stop p front) = none →
      d'.at? (p.place d.here) = none) : d'.Approach p := by
  have stop : ∀ front, d'.stop p front = d.stop p front := stop_eq here p
  have start : d'.start p = d.start p := stop []
  refine ⟨start ▸ root, fun front above proper bytes => ?_, fun front above proper => ?_,
    fun front above proper free => ?_⟩
  · rw [stop]
    rcases stops front above proper with same | dir
    · rw [same]
      exact h.clear front above proper bytes
    · rw [dir]
      nofun
  · rw [stop, here]
    exact h.around front above proper
  · rw [stop] at free
    rw [here]
    exact missing front above proper free

/-- Such a path stays one where something changed at one place that it does not lead through, and
directories were made elsewhere, but not at its end. -/
theorem of_grown (grown : Grown (· = place) d d')
    (apart : ∀ front, front <+: p.parts → ¬ place <+: d.stop p front)
    (same : d'.at? (p.place d.here) = d.at? (p.place d.here)) : d'.Approach p := by
  have outside : ∀ front, front <+: p.parts → d'.at? (d.stop p front) = d.at? (d.stop p front) ∨
      d.at? (d.stop p front) = none ∧ d'.at? (d.stop p front) = some .dir := fun front above =>
    grown.outside _ fun _ same => same ▸ apart front above
  refine h.of_stops grown.here ?_ (fun front above _ => (outside front above).imp_right And.right)
    fun front above proper free => ?_
  · rcases outside [] List.nil_prefix with same | ⟨free, -⟩
    · exact same.trans h.root
    · cases h.root.symm.trans free
  · rw [same]
    refine h.missing front above proper ?_
    rcases outside front above with same | ⟨free, -⟩
    · rw [← same, free]
    · exact free

/-- What happens elsewhere leaves the path as it is. -/
theorem of_quiet (quiet : Quiet place d d')
    (apart : ∀ front, front <+: p.parts → ¬ place <+: d.stop p front)
    (off : ¬ p.place d.here <+: place) :
    d'.Approach p ∧ d'.at? (p.place d.here) = d.at? (p.place d.here) := by
  have same : d'.at? (p.place d.here) = d.at? (p.place d.here) :=
    quiet.at?_eq (stop_parts d p ▸ apart _ List.prefix_rfl) off
  exact ⟨h.of_grown quiet.grown apart same, same⟩

end Approach

/-- **What stands at the end of such a path is removed**, and nothing else. -/
theorem Approach.remove {w : World} (h : w.disk.Approach p) (takes : Takes p) (ends : p.endsInName)
    (fileless : p.meansDir → ∀ bytes, w.disk.at? (p.place w.disk.here) ≠ some (.file bytes)) :
    Action.remove p w = (.ok (), w.withDisk (w.disk.remove p).2) ∧
      (w.disk.remove p).2.at? (p.place w.disk.here) = none ∧ (w.disk.remove p).2.Approach p := by
  have here := here_remove w.disk p
  have kept : ∀ front, front <+: p.parts → front ≠ p.parts →
      (w.disk.remove p).2.at? (w.disk.stop p front) = w.disk.at? (w.disk.stop p front) :=
    fun front above proper => at?_remove w.disk p (h.around front above proper)
  have approach : (w.disk.remove p).2.at? (p.place w.disk.here) = none →
      (w.disk.remove p).2.Approach p := fun free =>
    h.of_stops here ((kept [] List.nil_prefix (parts_ne_nil_of_endsInName ends).symm).trans h.root)
      (fun front above proper => .inl (kept front above proper)) fun _ _ _ _ => free
  rcases found : w.disk.find p with e | node
  · obtain ⟨rfl, free⟩ := h.free_of_find takes fileless found
    have ran : Action.remove p w = (.ok (), w) := by
      unfold Action.remove
      rw [Action.bind_of_ok (Action.disk_apply w), found]
      rfl
    rw [remove_of_error found] at approach ⊢
    exact ⟨ran, free, approach free⟩
  · obtain ⟨above, name, named⟩ := exists_place_of_endsInName ends w.disk.here
    have top : p.place w.disk.here ≠ [] := named ▸ List.concat_ne_nil _ _
    have removed : Action.remove p w = (.ok (), w.withDisk (w.disk.remove p).2) := by
      unfold Action.remove
      rw [Action.bind_of_ok (Action.disk_apply w), found]
      dsimp only
      rw [Action.changeBy_apply, remove_of_find found ends]
      rfl
    rw [remove_of_find found ends] at approach removed ⊢
    have free : (w.disk.erase (p.place w.disk.here)).at? (p.place w.disk.here) = none :=
      (at?_erase w.disk top _).trans (if_pos List.prefix_rfl)
    exact ⟨removed, free, approach free⟩

/-! ## What comes to the end of an approach -/

/-- **A disk on which the end of a path was built anew**: directories stand at the stops in front of it,
and outside of its place nothing else is new. -/
structure Rebuilt (p : Path) (d d' : Disk) : Prop where
  here : d'.here = d.here
  stops : ∀ front, front <+: p.parts → front ≠ p.parts → d'.at? (d.stop p front) = some .dir
  outside : ∀ other, ¬ p.place d.here <+: other → d'.at? other = d.at? other ∨
    d.at? other = none ∧ d'.at? other = some .dir ∧
      ∃ front, front <+: p.parts ∧ front ≠ p.parts ∧ other = d.stop p front

theorem Rebuilt.grown (h : Rebuilt p d d') : Grown (· = p.place d.here) d d' :=
  ⟨h.here, fun other out => (h.outside other (out _ rfl)).imp_right fun made => ⟨made.1, made.2.1⟩⟩

/-- Along a path that does not lead back, only its place is disturbed. -/
theorem Rebuilt.quiet (h : Rebuilt p d d') (straight : ".." ∉ p.parts) : Quiet (p.place d.here) d d' := by
  refine ⟨h.here, fun other out => (h.outside other out).imp_right ?_⟩
  rintro ⟨free, dir, front, above, -, rfl⟩
  exact ⟨free, dir, stop_prefix_place straight above⟩

/-- What is built further at the same place. -/
theorem Rebuilt.further (h : Rebuilt p d d') (approach : d.Approach p)
    (here : d''.here = d'.here)
    (same : ∀ other, ¬ p.place d.here <+: other → d''.at? other = d'.at? other) : Rebuilt p d d'' := by
  refine ⟨here.trans h.here, fun front above proper => ?_, fun other out => ?_⟩
  · rw [same _ (approach.around front above proper)]
    exact h.stops front above proper
  · rw [same other out]
    exact h.outside other out

/-- What is to come to the end of a path can come there again. -/
theorem Approach.of_rebuilt (h : d.Approach p) (ends : p.endsInName) (rebuilt : Rebuilt p d d') :
    d'.Approach p := by
  refine h.of_stops rebuilt.here ?_ (fun front above proper => .inr (rebuilt.stops front above proper))
    fun front above proper free => ?_
  · exact rebuilt.stops [] List.nil_prefix (parts_ne_nil_of_endsInName ends).symm
  · rw [rebuilt.stops front above proper] at free
    cases free

/-- **Clearing the end of an approach** leaves nothing there, and a directory at each stop in front of
it. -/
theorem Approach.exists_cleared {w : World} (h : w.disk.Approach p) (takes : Takes p) (ends : p.endsInName)
    (fileless : p.meansDir → ∀ bytes, w.disk.at? (p.place w.disk.here) ≠ some (.file bytes)) :
    ∃ d, Action.clear p w = (.ok (), w.withDisk d) ∧ d.at? (p.place w.disk.here) = none ∧
      Rebuilt p w.disk d := by
  obtain ⟨removed, free, approach⟩ := h.remove takes ends fileless
  have kept : ∀ {other}, ¬ p.place w.disk.here <+: other →
      (w.disk.remove p).2.at? other = w.disk.at? other := at?_remove w.disk p
  have here₁ := here_remove w.disk p
  obtain ⟨d₁, left⟩ : ∃ d, (w.disk.remove p).2 = d := ⟨_, rfl⟩
  rw [left] at removed free approach kept here₁
  obtain ⟨d₂, parent, made⟩ := makeParent_of_clear (w := w.withDisk d₁) (parts_ne_nil_of_endsInName ends)
    takes approach.root approach.clear
  rw [World.withDisk_disk] at made
  refine ⟨d₂, (Action.bind_of_ok removed _).trans parent, ?_, made.here.trans here₁,
    fun front above proper => ?_, fun other out => ?_⟩
  · refine ((made.others _).resolve_right ?_).trans free
    rintro ⟨-, -, front, above, proper, same⟩
    rw [stop_eq here₁] at same
    exact h.around front above proper (same ▸ List.prefix_rfl)
  · rw [← stop_eq here₁]
    exact made.stops front above proper
  · rw [← kept out]
    refine (made.others other).imp_right ?_
    rintro ⟨free, dir, front, above, proper, rfl⟩
    exact ⟨free, dir, front, above, proper, stop_eq here₁ p front⟩

/-! ## Reading -/

/-- What a path leads to, when it is a file. -/
theorem find_file_iff {bytes : ByteArray} :
    d.find p = .ok (.file bytes) ↔ Takes p ∧ p.meansDir = false ∧
      (∀ front, front <+: p.parts → front ≠ p.parts → d.at? (d.stop p front) = some .dir) ∧
      d.at? (p.place d.here) = some (.file bytes) := by
  constructor
  · intro found
    obtain ⟨place, led, stands⟩ := locate_of_find found
    obtain ⟨takes, rfl, stops⟩ := locate_iff.mp led
    refine ⟨takes, ?_, stops, stands⟩
    unfold find at found
    rw [led, ok_bind, stands] at found
    by_contra dir
    dsimp only at found
    rw [if_pos (by simpa using dir)] at found
    cases found
  · rintro ⟨takes, file, stops, stands⟩
    have led : d.locate p = .ok (p.place d.here) := locate_iff.mpr ⟨takes, rfl, stops⟩
    unfold find
    rw [led, ok_bind, stands]
    exact if_neg (by simp [file])

/-- **A file that lies outside is found as before**, if its path leads through nothing else. -/
theorem find_of_grown (h : Grown cleared d d')
    (avoids : ∀ front, front <+: p.parts → front ≠ p.parts →
      ∀ other, cleared other → ¬ other <+: d.stop p front)
    (out : ∀ other, cleared other → ¬ other <+: p.place d.here) {bytes : ByteArray}
    (found : d.find p = .ok (.file bytes)) : d'.find p = .ok (.file bytes) := by
  obtain ⟨takes, file, stops, stands⟩ := find_file_iff.mp found
  refine find_file_iff.mpr ⟨takes, file, fun front above apart => ?_, ?_⟩
  · rw [stop_eq h.here]
    exact h.dir (avoids front above apart) (stops front above apart)
  · rw [h.here]
    exact (h.file_iff out).mpr stands

/-- **A file that lies outside is read as before**, and nothing new can be read there. -/
theorem read_of_grown (tree : d.IsTree) (h : Grown cleared d d') (straight : ".." ∉ p.parts)
    (out : ∀ other, cleared other → ¬ other <+: p.place d.here) {bytes : ByteArray} :
    d'.read p = .ok bytes ↔ d.read p = .ok bytes := by
  have out_of : ∀ {place}, place <+: p.place d.here → ∀ other, cleared other → ¬ other <+: place :=
    fun above other known below => out other known (below.trans above)
  rw [read_eq_ok_iff, read_eq_ok_iff, find_file_iff, find_file_iff, h.here,
    h.file_iff (out_of List.prefix_rfl)]
  constructor
  · rintro ⟨takes, file, stops, stands⟩
    refine ⟨takes, file, fun front above apart => ?_, stands⟩
    -- on a tree directories stand above the file
    obtain ⟨rest, whole⟩ := stop_prefix_place (d := d) straight above
    have more : rest ≠ [] := by
      rintro rfl
      rw [List.append_nil] at whole
      have dir := stops front above apart
      rw [stop_eq h.here, whole, (h.file_iff (out_of List.prefix_rfl)).mpr stands] at dir
      cases dir
    exact tree.dir_of_append (by rw [whole, stands]; exact Option.some_ne_none _) more
  · rintro ⟨takes, file, stops, stands⟩
    refine ⟨takes, file, fun front above apart => ?_, stands⟩
    rw [stop_eq h.here]
    exact h.dir (out_of (stop_prefix_place straight above)) (stops front above apart)

end Disk
end Patchwork
