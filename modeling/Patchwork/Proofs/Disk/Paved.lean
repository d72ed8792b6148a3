import Patchwork.Proofs.Disk.Alike

/-! Rooms that are cleared.  Along a path that does not lead back, directories are made only at and
above its place (`Disk.Paved`, `Disk.paved_makeDirs`, `Disk.paved_makeParent`), and where removing a path
succeeds, nothing is left at its place or below it (`Disk.none_of_remove`).  So where clearing such a path
succeeds, there is room for what is to come there (`Disk.Roomy`, `Disk.roomy_of_clear`). -/

namespace Patchwork

namespace Disk
open Path
variable {d d' d'' : Disk} {p q : Path} {place more : Place}

/-! ## Directories on a way -/

/-- **A disk on which only directories were made**, at and above a place. -/
structure Paved (place : Place) (d d' : Disk) : Prop where
  here : d'.here = d.here
  others : ∀ other, d'.at? other = d.at? other ∨
    d.at? other = none ∧ d'.at? other = some .dir ∧ other <+: place

namespace Paved

theorem refl (place : Place) (d : Disk) : Paved place d d := ⟨rfl, fun _ => .inl rfl⟩

theorem trans (h : Paved place d d') (h' : Paved place d' d'') : Paved place d d'' := by
  refine ⟨h'.here.trans h.here, fun other => ?_⟩
  rcases h.others other with same | ⟨free, dir, above⟩
  · rw [← same]
    exact h'.others other
  · rcases h'.others other with same' | ⟨free', -⟩
    · exact .inr ⟨free, same'.trans dir, above⟩
    · cases dir.symm.trans free'

theorem mono (h : Paved place d d') (above : place <+: more) : Paved more d d' :=
  ⟨h.here, fun other => (h.others other).imp_right fun made =>
    ⟨made.1, made.2.1, made.2.2.trans above⟩⟩

/-- What is not on the way stays as it is. -/
theorem at?_eq (h : Paved place d d') {other : Place} (off : ¬ other <+: place) :
    d'.at? other = d.at? other :=
  (h.others other).resolve_right fun made => off made.2.2

theorem dir (h : Paved place d d') {other : Place} (stands : d.at? other = some .dir) :
    d'.at? other = some .dir := by
  rcases h.others other with same | ⟨free, -⟩
  · rw [same, stands]
  · cases stands.symm.trans free

theorem file_iff (h : Paved place d d') {other : Place} {bytes : ByteArray} :
    d'.at? other = some (.file bytes) ↔ d.at? other = some (.file bytes) := by
  rcases h.others other with same | ⟨free, dir, -⟩
  · rw [same]
  · rw [free, dir]
    exact ⟨nofun, nofun⟩

end Paved

theorem paved_makeDir (above : p.place d.here <+: place) (made : d.makeDir p = .ok d') :
    Paved place d d' := by
  obtain ⟨place', led, made⟩ := bind_eq_ok_iff.mp made
  rw [place_of_locate led] at above
  split at made
  · cases made
  · rename_i free
    cases made
    have ne : place' ≠ [] := by
      rintro rfl
      rw [at?_nil] at free
      cases free
    refine ⟨rfl, fun other => ?_⟩
    rw [at?_put_eq d ne]
    split
    · rename_i same
      exact .inr ⟨same ▸ free, rfl, same ▸ above⟩
    · exact .inl rfl

/-- The paths above one that does not lead back lead to places above its own. -/
theorem place_of_mem_withParents (straight : ".." ∉ p.parts) (listed : q ∈ p.withParents) :
    q.place d.here <+: p.place d.here := by
  have fresh : Fresh d.here (fun other => ¬ other <+: p.place d.here) p := fun _ above off =>
    off (stop_prefix_place straight above)
  exact not_not.mp (fresh.of_mem_withParents listed).not_stale

theorem paved_makeDirsOf {paths : List Path} (above : ∀ q ∈ paths, q.place d.here <+: place) :
    Paved place d (d.makeDirsOf paths).2 := by
  -- a directory is made in `case3` and `case5` alone; elsewhere the last step is refused
  fun_induction makeDirsOf d paths with
  | case1 | case2 | case7 => exact .refl _ _
  | case3 _ _ _ d' made => exact paved_makeDir (above _ List.mem_cons_self) made
  | case4 _ _ _ _ e d' ran ih =>
    rw [ran] at ih
    exact ih fun q listed => above q (.tail _ listed)
  | case5 _ _ _ _ d' ran d'' made ih =>
    rw [ran] at ih
    have paved := ih fun q listed => above q (.tail _ listed)
    exact paved.trans (paved_makeDir (paved.here ▸ above _ List.mem_cons_self) made)
  | case6 _ _ _ _ d' ran e _ ih =>
    rw [ran] at ih
    exact ih fun q listed => above q (.tail _ listed)

/-- **Making directories** makes them on the way, also where it fails half-way. -/
theorem paved_makeDirs (d : Disk) (straight : ".." ∉ p.parts) :
    Paved (p.place d.here) d (d.makeDirs p).2 :=
  paved_makeDirsOf fun _ => place_of_mem_withParents straight

/-- The directory of a path is made on the way to it. -/
theorem paved_makeParent (straight : ".." ∉ p.parts) (w : World) :
    ∃ d, (Action.makeParent p w).2 = w.withDisk d ∧ (w.disk.IsTree → d.IsTree) ∧
      Paved (w.disk.stop p p.parts.dropLast) w.disk d := by
  unfold Action.makeParent
  by_cases none : p.parts = []
  · rw [parent?_eq_none none]
    exact ⟨w.disk, rfl, id, .refl _ _⟩
  · obtain ⟨q, parent, isParent⟩ := exists_parent none
    have at_ : q.place w.disk.here = w.disk.stop p p.parts.dropLast := by
      rw [← stop_parts, isParent.parts, stop, stop, Disk.start, Disk.start, isParent.isAbsolute]
    have straight' : ".." ∉ q.parts := fun listed =>
      straight ((isParent.parts ▸ List.dropLast_subset _) listed)
    rw [parent]
    dsimp only
    rw [Action.makeDirs, Action.changeBy_apply]
    exact ⟨_, rfl, fun tree => tree.makeDirs q, at_ ▸ paved_makeDirs w.disk straight'⟩

theorem isDir_of_makeDir (made : d.makeDir p = .ok d') : d'.isDir p := by
  obtain ⟨place, led, made⟩ := bind_eq_ok_iff.mp made
  split at made
  · cases made
  · rename_i free
    cases made
    have ne : place ≠ [] := by
      rintro rfl
      rw [at?_nil] at free
      cases free
    exact isDir_iff.mpr (find_of_locate (locate_put led ne fun _ => rfl) (at?_put_dir d place))

/-- Where making directories succeeds, the path leads to one. -/
theorem isDir_of_makeDirs (ne : p.text ≠ "") (made : d.makeDirs p = (.ok (), d')) : d'.isDir p := by
  have last : ∀ {d₁ : Disk} {e : IoError},
      (if d₁.isDir p then (.ok () : Except IoError Unit) else .error e, d₁) = (.ok (), d') →
        d'.isDir p := by
    intro d₁ e done
    obtain ⟨known, rfl⟩ := Prod.mk.inj done
    split at known
    · assumption
    · cases known
  unfold makeDirs withParents at made
  rw [upwards, makeDirsOf, if_neg ne] at made
  split at made
  · rename_i d₁ made'
    cases made
    exact isDir_of_makeDir made'
  · split at made
    · cases made
    · split at made
      · rename_i made'
        cases made
        exact isDir_of_makeDir made'
      · exact last made
  · exact last made

/-! ## Nothing is left -/

/-- Where names cannot be followed since something is missing, nothing stands in front of one of
them. -/
theorem exists_none_of_follow {start : Place} {names : List String} (plain : "" ∉ names)
    (lost : d.follow start names = .error .notFound) :
    ∃ front, front <+: names ∧ d.at? (front.foldl Place.step start) = none := by
  induction names generalizing start with
  | nil => cases lost
  | cons name names ih =>
    obtain ⟨named, plain'⟩ := List.ne_and_not_mem_of_not_mem_cons plain
    rcases stands : d.at? start with _ | bytes | _
    · exact ⟨[], List.nil_prefix, stands⟩
    · rw [follow, stands] at lost
      cases lost
    · rw [follow_cons named.symm stands] at lost
      split at lost
      · cases lost
      · obtain ⟨front, above, free⟩ := ih plain' lost
        exact ⟨name :: front, (List.prefix_cons_inj name).mpr above, free⟩

/-- A path that does not lead back and finds nothing has nothing at its place or below it. -/
theorem none_of_notFound (tree : d.IsTree) (straight : ".." ∉ p.parts) (ne : p.text ≠ "")
    (lost : d.find p = .error .notFound) (names : List String) :
    d.at? (p.place d.here ++ names) = none := by
  unfold find at lost
  rcases led : d.locate p with e | place <;> rw [led] at lost
  · have missing : e = .notFound := Except.error.inj lost
    subst missing
    unfold locate at led
    have led : d.follow (d.start p) p.parts = .error .notFound := by
      by_cases nul : p.text.toList.contains '\x00'
      · rw [if_pos nul] at led
        cases led
      by_cases long : pathLimit < p.text.utf8ByteSize
      · rw [if_neg nul, if_neg ne, if_pos long] at led
        cases led
      · rwa [if_neg nul, if_neg ne, if_neg long] at led
    obtain ⟨front, above, free⟩ := exists_none_of_follow p.empty_notMem_parts led
    obtain ⟨rest, whole⟩ := stop_prefix_place (d := d) straight above
    rw [← whole, List.append_assoc]
    exact tree.none_of_append free _
  · rw [ok_bind] at lost
    rw [place_of_locate led]
    split at lost
    · rename_i free
      exact tree.none_of_append free names
    · cases lost
    · split at lost <;> cases lost

/-- A path that ends in two points leads back. -/
theorem mem_parts_of_points (last : p.lastPiece? = some "..") : ".." ∈ p.parts := by
  have listed : ".." ∈ Text.pieces '/' p.text :=
    List.mem_reverse.mp (List.mem_of_find?_eq_some last)
  rw [parts_eq]
  generalize Text.pieces '/' p.text = pieces at listed
  rcases pieces with _ | ⟨first, rest⟩
  · cases listed
  · rcases List.mem_cons.mp listed with rfl | listed
    · exact List.mem_append_left _ (by decide)
    · exact List.mem_append_right _ (List.mem_filter.mpr ⟨listed, by decide⟩)

/-- **Where removing succeeds, nothing is left** at the place of a path that does not lead back. -/
theorem none_of_remove {w w' : World} (tree : w.disk.IsTree) (straight : ".." ∉ p.parts)
    (ne : p.text ≠ "") (ran : Action.remove p w = (.ok (), w')) (names : List String) :
    w'.disk.at? (p.place w.disk.here ++ names) = none := by
  unfold Action.remove at ran
  rw [Action.bind_of_ok (Action.disk_apply w)] at ran
  rcases found : w.disk.find p with e | node <;> rw [found] at ran
  · cases e
    case notFound =>
      cases ran
      exact none_of_notFound tree straight ne found names
    all_goals cases ran
  · obtain ⟨place, led, -⟩ := locate_of_find found
    dsimp only at ran
    rw [Action.changeBy_apply] at ran
    have ends : p.endsInName := by
      by_contra points
      have stays : w.disk.remove p = (staysBy p, w.disk.emptied place) := by
        unfold Disk.remove
        rw [led, found]
        exact if_neg points
      rw [stays] at ran
      refine straight (mem_parts_of_points ?_)
      unfold staysBy at ran
      unfold endsInName at points
      rcases last : p.lastPiece? with _ | piece <;> rw [last] at ran points
      · cases ran
      · by_cases point : piece = "."
        · dsimp only at ran
          rw [if_pos point] at ran
          cases ran
        · have up : piece = ".." := by simpa [point] using points
          rw [up]
    rw [remove_of_find found ends] at ran
    cases ran
    obtain ⟨front, name, named⟩ := exists_place_of_endsInName ends w.disk.here
    have top : p.place w.disk.here ≠ [] := by
      rw [named]
      exact List.concat_ne_nil _ _
    exact (at?_erase w.disk top _).trans (if_pos (List.prefix_append _ _))

/-! ## Clearing -/

/-- Removing disturbs nothing but the place of the path. -/
theorem quiet_remove (d : Disk) (p : Path) : Quiet (p.place d.here) d (d.remove p).2 :=
  ⟨here_remove d p, fun _ out => .inl (at?_remove d p out)⟩

theorem Quiet.trans (h : Quiet place d d') (h' : Quiet place d' d'') : Quiet place d d'' := by
  refine ⟨h'.here.trans h.here, fun other out => ?_⟩
  rcases h.outside other out with same | ⟨free, dir, above⟩
  · rw [← same]
    exact h'.outside other out
  · rcases h'.outside other out with same' | ⟨free', -⟩
    · exact .inr ⟨free, same'.trans dir, above⟩
    · cases dir.symm.trans free'

theorem Quiet.mono (h : Quiet more d d') (below : place <+: more) : Quiet place d d' := by
  refine ⟨h.here, fun other out => ?_⟩
  rcases h.outside other fun under => out (below.trans under) with same | ⟨free, dir, above⟩
  · exact .inl same
  · exact .inr ⟨free, dir, (List.prefix_or_prefix_of_prefix above below).resolve_right out⟩

theorem Paved.quiet (h : Paved place d d') : Quiet place d d' :=
  ⟨h.here, fun other _ => h.others other⟩

/-- **A disk with room at the place of a path**: nothing is below it, and no file stands there. -/
structure Roomy (p : Path) (d d' : Disk) : Prop where
  tree : d'.IsTree
  quiet : Quiet (p.place d.here) d d'
  bare : ∀ names, names ≠ [] → d'.at? (p.place d.here ++ names) = none
  fileless : ∀ bytes, d'.at? (p.place d.here) ≠ some (.file bytes)

/-- Directories on the way leave the room. -/
theorem Roomy.paved (h : Roomy p d d') (tree : d''.IsTree) (paved : Paved (p.place d.here) d' d'') :
    Roomy p d d'' := by
  refine ⟨tree, h.quiet.trans paved.quiet, fun names deep => ?_, fun bytes stands => ?_⟩
  · rw [paved.at?_eq, h.bare names deep]
    intro above
    have longer := above.length_le
    rw [List.length_append] at longer
    exact deep (List.length_eq_zero_iff.mp (by omega))
  · exact h.fileless bytes (paved.file_iff.mp stands)

/-- **Where clearing succeeds, there is room** at the place of a path that does not lead back. -/
theorem roomy_of_clear {w w' : World} (tree : w.disk.IsTree) (straight : ".." ∉ p.parts)
    (ne : p.text ≠ "") (ran : Action.clear p w = (.ok (), w')) : Roomy p w.disk w'.disk := by
  unfold Action.clear at ran
  obtain ⟨_, w₁, removed, ran⟩ := Action.bind_ran_iff.mp ran
  have left := Action.remove_snd p w
  have none := none_of_remove tree straight ne removed
  rw [removed] at left
  dsimp only at left
  have roomy : Roomy p w.disk w₁.disk := by
    refine ⟨?_, ?_, fun names _ => none names, fun bytes stands => ?_⟩
    · rw [left]
      exact tree.remove p
    · rw [left]
      exact quiet_remove w.disk p
    · have free := none []
      rw [List.append_nil, stands] at free
      cases free
  obtain ⟨d, made, tree', paved⟩ := paved_makeParent straight w₁
  rw [ran] at made
  dsimp only at made
  have above := stop_prefix_place (d := w₁.disk) straight (List.dropLast_prefix p.parts)
  rw [made]
  exact roomy.paved (tree' roomy.tree) (roomy.quiet.here ▸ paved.mono above)

end Disk
end Patchwork
