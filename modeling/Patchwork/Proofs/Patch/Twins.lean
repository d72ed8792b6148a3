import Patchwork.Proofs.Disk.Layout
import Patchwork.Proofs.Download.Twins
import Patchwork.Proofs.Patch.Written
import Patchwork.Proofs.Patch.Refined

/-! Archives, trees and patches in twins.  What is read from an archive or a folder is the same where
nothing is stale at or below it (`Archive.steady_opened`, `TreeHome.steady_read`), and taking a member
out of an archive comes to the same where room can be made for the target (`Archive.agrees_extract`).
Applying patches then agrees, since the names of the files that it writes stay near the output
(`Path.Near`): those of an archive go up no further than they went down, and those of patches end in at
most one step up (`PatchApplication.agrees_run`). -/

namespace Patchwork
open Patchwork.Action Patchwork.Disk
variable {here : Place} {stale : Place → Prop} {keeps : Place → Option Node → Prop} {p : Path}
  {w w' : World}

/-! ## Archives -/

namespace Archive
variable {name : String} {target : Path} {ps : List Path}

section Questions
variable (fresh : Fresh here stale p)
include fresh

theorem steady_opened : Steady here stale keeps (opened p) := by
  refine .bind (.find fresh _) fun node => ?_
  split
  · split
    · exact .pure _
    · exact .throw _
  · exact .throw _

theorem steady_read : Steady here stale keeps (read p) :=
  .bind (steady_opened fresh) fun _ => .ofOutcome _

theorem steady_readMember (name : String) : Steady here stale keeps (readMember p name) := by
  refine .bind (steady_opened fresh) fun (bytes, records) => ?_
  dsimp only
  split
  · exact .pure _
  · exact .bind (.ofOutcome _) fun _ => .pure _

theorem steady_names (beginning : String) : Steady here stale keeps (names p beginning) :=
  .bind (steady_opened fresh) fun _ => .pure _

theorem steady_extract (fresh' : Fresh here stale target) (name : String) :
    Steady here stale keeps (extract p name target) :=
  .bind (steady_opened fresh) fun _ => .bind (.ofOutcome _) fun _ => .bind (.clear fresh') fun _ =>
    .bind (.write fresh' _ _) fun _ => .bind (.ofOutcome _) fun _ => .pure _

end Questions

/-- Writing an archive comes to the same where room can be made for it. -/
theorem agrees_write (twins : Twins here (behindRoom here stale ps) keeps w w')
    (clearable : target.Clearable here stale keeps) (files : List (String × ByteArray)) :
    Agrees (write target files) w w' fun _ u u' =>
      Twins here (behindRoom here stale (ps ++ [target])) keeps u u' := by
  refine .bind (agrees_clear_behind twins clearable) fun _ u u' twins => ?_
  have clean : Clean here (behindRoom here stale (ps ++ [target])) target := clean_of_mem (by simp)
  exact (Steady.write clean.fresh _ _).agrees twins

/-- **Taking a member out of an archive** comes to the same where room can be made for it. -/
theorem agrees_extract (twins : Twins here (behindRoom here stale ps) keeps w w')
    (fresh : Fresh here (behindRoom here stale ps) p) (clearable : target.Clearable here stale keeps)
    (name : String) : Agrees (extract p name target) w w' fun _ u u' =>
      Twins here (behindRoom here stale (ps ++ [target])) keeps u u' := by
  refine .bind ((steady_opened fresh).agrees twins) fun _ _ _ twins => ?_
  refine .bind ((Steady.ofOutcome _).agrees twins) fun _ _ _ twins => ?_
  refine .bind (agrees_clear_behind twins clearable) fun _ _ _ twins => ?_
  have clean : Clean here (behindRoom here stale (ps ++ [target])) target := clean_of_mem (by simp)
  refine .bind ((Steady.write clean.fresh _ _).agrees twins) fun _ _ _ twins => ?_
  exact .bind ((Steady.ofOutcome _).agrees twins) fun _ _ _ twins => .pure twins

end Archive

/-! ## Trees -/

namespace TreeHome
variable {home : TreeHome}

theorem of_eq {d d' : Disk} (alike : d.Alike stale keeps d') (fresh : Fresh d.here stale p) :
    of d' p = of d p := by
  unfold of
  rw [alike.isDir_eq fresh, alike.isFile_eq fresh]

theorem steady_read (clean : Clean here stale home.path) : Steady here stale keeps home.read := by
  cases home with
  | folder p => exact .bind (.filesBelow clean.fresh clean.below) fun _ => .pure _
  | archive p => exact Archive.steady_read clean.fresh

end TreeHome

/-! ## Names that stay near -/

/-- **A name that stays near**: behind any path it leads no further up than to the directory that the
path is in. -/
structure Path.Near (name : String) : Prop where
  relative : ¬ Text.startsWith "/" name
  stops : ∀ (base : Place) front, front <+: (Path.mk name).parts →
    base.dropLast <+: front.foldl Place.step base

namespace Path
variable {name : String}

/-- A name that stays near is fresh behind a path around which nothing is stale. -/
theorem Near.fresh (near : Near name) (fresh : Fresh here stale p) (ne : p.text ≠ "")
    (around : ∀ place, (p.place here).dropLast <+: place → ¬ stale place) :
    Fresh here stale (p.join name) :=
  fresh.join near.relative ne fun _ above => around _ (near.stops _ _ above)

theorem Downward.near (down : Downward name) : Near name :=
  ⟨down.relative, fun base front above => (List.dropLast_prefix base).trans (down.stops base front above)⟩

/-- The path of a patch stays near: only the name of the file that the patch is kept in ends
otherwise, so that two points can but come last. -/
theorem near_of_file (normal : IsNormal (name ++ PatchSet.suffix)) : Near name := by
  obtain ⟨before, last, pieces, pieces'⟩ :=
    @Text.exists_pieces_append '/' PatchSet.suffix (by decide) name
  have named : ∀ other ∈ before, IsName other := fun other listed =>
    normal other (pieces' ▸ List.mem_append_left _ listed)
  have straight : ".." ∉ namesOf before := fun listed =>
    (named _ (mem_of_mem_namesOf listed)).ne_points rfl
  have fronts : ∀ front, front <+: (Path.mk name).parts →
      front <+: namesOf before ∨ front = namesOf before ++ [last] := by
    intro front above
    rw [parts_eq, pieces] at above
    have alone : namesOf (before ++ [last]) <+: namesOf before ++ [last] := by
      rcases before with _ | ⟨first, before⟩
      · rw [List.nil_append, namesOf, namesOf, List.filter_nil, List.append_nil]
        split
        · exact List.nil_prefix
        · exact List.prefix_rfl
      · rw [namesOf_append (List.cons_ne_nil _ _), List.prefix_append_right_inj]
        by_cases idle : isIdle last
        · rw [List.filter_cons_of_neg (by simp [idle])]
          exact List.nil_prefix
        · rw [List.filter_cons_of_pos (by simp [idle])]
          exact List.prefix_rfl
    exact (List.prefix_concat_iff.mp (above.trans alone)).symm
  constructor
  · intro starts
    have absolute : (Path.mk name).isAbsolute := starts
    rcases before with _ | ⟨first, before⟩
    · exact ((isAbsolute_of_pieces pieces).mp absolute).2 rfl
    · exact (named first List.mem_cons_self).ne_empty ((isAbsolute_of_pieces pieces).mp absolute).1
  · intro base front above
    rcases fronts front above with above | rfl
    · have straight' : ".." ∉ front := fun listed => straight (above.subset listed)
      exact (List.dropLast_prefix base).trans (prefix_foldl_step straight' base)
    · have on := prefix_foldl_step straight base
      rw [List.foldl_append, List.foldl_cons, List.foldl_nil, Place.step]
      split
      · exact (List.dropLast_prefix base).trans on
      · split
        · by_cases whole : base = (namesOf before).foldl Place.step base
          · exact ⟨[], by rw [List.append_nil, ← whole]⟩
          · exact (List.dropLast_prefix base).trans (prefix_dropLast on whole)
        · exact (List.dropLast_prefix base).trans (on.trans (List.prefix_append _ _))

end Path

/-! ## Patches -/

/-- **Whether the files of a tree stay near.** -/
def FileMap.Near (tree : FileMap) : Prop := ∀ name ∈ tree, Path.Near name

/-- What is read of a tree stays near. -/
theorem TreeHome.near_read {home : TreeHome} {tree : FileMap} (isTree : w.disk.IsTree)
    (read : (home.read w).1 = .ok tree) : tree.Near :=
  fun name listed => (TreeHome.downward_read isTree read name listed).near

namespace PatchSet
variable {s t : PatchSet} {dir : Path}

/-- **Whether the patches of a set are held under their own paths**, which stay near. -/
structure Filed (s : PatchSet) : Prop where
  keyed : s.Keyed
  near : ∀ path p, s.get? path = some p → Path.Near path

theorem Filed.insert {p : Patch} (filed : s.Filed) (near : Path.Near p.path)
    (done : s.insert p = .ok t) : t.Filed := by
  refine ⟨filed.keyed.insert done, fun path q found => ?_⟩
  unfold PatchSet.insert at done
  split at done <;> cases done
  simp only [get?, Std.TreeMap.getElem?_insert, Std.LawfulEqCmp.compare_eq_iff_eq] at found
  split at found
  · rename_i same
    exact same ▸ near
  · exact filed.near path q found

theorem Filed.insertFile {file : List String × ByteArray} (filed : s.Filed)
    (named : ∀ name ∈ file.1, Path.IsName name) (done : insertFile dir s file = .ok t) : t.Filed := by
  unfold PatchSet.insertFile at done
  split at done
  · cases done
    exact filed
  · rename_i path ended
    split at done
    · cases done
    · obtain ⟨p, parsed, inserted⟩ := bind_eq_ok_iff.mp done
      have same := Patch.path_of_parse parsed
      have whole := Text.before?_eq_some_iff.mp ended
      have ne : file.1 ≠ [] := by
        intro blank
        have nothing : Text.before? suffix (Path.slashed []) = none := by decide
        rw [blank, nothing] at ended
        cases ended
      have normal : Path.IsNormal (p.path ++ suffix) := by
        rw [same, ← whole]
        exact Path.isNormal_slashed named ne
      exact filed.insert (Path.near_of_file normal) inserted

/-- The patches of a loaded set are kept near. -/
theorem filed_load (isTree : w.disk.IsTree) (loaded : (load dir w).1 = .ok s) : s.Filed := by
  have empty : PatchSet.empty.Filed := ⟨Keyed.empty, fun path p found => by
    rw [get?, PatchSet.empty, Std.TreeMap.getElem?_emptyc] at found
    cases found⟩
  have all : ∀ {files : List (List String × ByteArray)} {s t : PatchSet}, s.Filed →
      (∀ file ∈ files, ∀ name ∈ file.1, Path.IsName name) →
      files.foldlM (PatchSet.insertFile dir) s = .ok t → t.Filed := by
    intro files
    induction files with
    | nil =>
      intro s t filed _ done
      cases done
      exact filed
    | cons file files ih =>
      intro s t filed named done
      obtain ⟨first, others⟩ := List.forall_mem_cons.mp named
      rw [List.foldlM_cons] at done
      obtain ⟨u, inserted, done⟩ := bind_eq_ok_iff.mp done
      exact ih (filed.insertFile first inserted) others done
  unfold load at loaded
  rw [bind_of_ok (exists?_apply dir w)] at loaded
  split at loaded
  · rcases listed : w.disk.files dir with e | files
    · unfold Action.filesBelow at loaded
      rw [bind_apply, bind_of_ok (disk_apply w), listed] at loaded
      cases loaded
    · rw [bind_of_ok (filesBelow_of_files listed), ofOutcome_apply] at loaded
      exact all empty (named_of_files isTree listed) loaded
  · cases loaded
    exact empty

theorem steady_load (clean : Clean here stale dir) : Steady here stale keeps (load dir) := by
  refine .bind (.exists? clean.fresh) fun found => ?_
  split
  · exact .bind (.filesBelow clean.fresh clean.below) fun _ => .ofOutcome _
  · exact .pure _

/-- Where files and patches stay near, so does what the patches make of them. -/
theorem Filed.near_apply (filed : s.Filed) {baseline : FileMap} (near : baseline.Near)
    (tolerance : Tolerance) : (s.apply baseline tolerance).tree.Near := by
  intro name listed
  rcases found : s.get? name with _ | p
  · refine near name ?_
    rw [Std.TreeMap.mem_iff_isSome_getElem?, getElem?_apply filed.keyed, found] at listed
    exact Std.TreeMap.mem_iff_isSome_getElem?.mpr listed
  · exact filed.near name p found

end PatchSet

namespace PatchApplication
variable {r : PatchApplication} {ps : List Path}

/-- Copying the baseline is steady where nothing is stale around the output. -/
theorem steady_copyBaseline {home home' : TreeHome} (clean : Clean here stale home.path)
    (fresh : Fresh here stale home'.path)
    (near : ∀ name, Path.Near name → Fresh here stale (home'.path.join name)) :
    Steady here stale keeps (copyBaseline home home') := by
  have written : Steady here stale keeps (do home'.write (← home.read)) :=
    .bind_of_returns (TreeHome.steady_read clean) (fun w _ isTree tree read =>
      TreeHome.near_read isTree read) fun tree tame =>
        TreeHome.steady_write fresh fun name listed => near name (tame name listed)
  cases home with
  | folder source => exact written
  | archive source =>
    cases home' with
    | folder target => exact written
    | archive target =>
      exact .bind (.clear fresh) fun _ => .bind (.read clean.fresh _) fun _ => .write fresh _ _

/-- **Applying patches comes to the same in twins**, where nothing is stale in what it reads and around
the output, and room can be made for the rejects. -/
theorem agrees_run (twins : Twins here (behindRoom here stale ps) keeps w w')
    (baseline : Clean here (behindRoom here stale ps) r.baseline)
    (patches : Clean here (behindRoom here stale ps) r.patches)
    (output : Fresh here (behindRoom here stale ps) r.output) (ne : r.output.text ≠ "")
    (around : ∀ place, (r.output.place here).dropLast <+: place → ¬ behindRoom here stale ps place)
    (rejects : r.rejects.Clearable here stale keeps) :
    Agrees r.run w w' fun _ u u' =>
      Twins here (behindRoom here stale (ps ++ [r.rejects])) keeps u u' := by
  have near : ∀ name, Path.Near name → Fresh here (behindRoom here stale ps) (r.output.join name) :=
    fun name tame => tame.fresh output ne around
  have rejecting : ∀ (reports : List PatchReport) (files : List (String × ByteArray)) {u u' : World},
      Twins here (behindRoom here stale ps) keeps u u' →
      Agrees (do Archive.write r.rejects files; return PatchSummary.of reports r.rejects) u u'
        fun _ v v' => Twins here (behindRoom here stale (ps ++ [r.rejects])) keeps v v' :=
    fun reports files u u' twins =>
      .bind (Archive.agrees_write twins rejects files) fun _ _ _ twins => .pure twins
  unfold run
  refine .bind_disk ?_ ?_
  · obtain rfl := twins.here
    have alike := twins.alike
    rw [TreeHome.of_eq alike baseline.fresh, TreeHome.of_eq alike output,
      alike.exists?_eq baseline.fresh]
  have clean : Clean here (behindRoom here stale ps) (TreeHome.of w.disk r.baseline).path := by
    rwa [TreeHome.path_of]
  have fresh : Fresh here (behindRoom here stale ps) (TreeHome.of w.disk r.output).path := by
    rwa [TreeHome.path_of]
  have near' : ∀ name, Path.Near name →
      Fresh here (behindRoom here stale ps) ((TreeHome.of w.disk r.output).path.join name) := by
    rwa [TreeHome.path_of]
  dsimp only
  split
  · exact .throw_bind
  refine .bind_of_ran ((PatchSet.steady_load patches).agrees twins) fun set u u' loaded _ twins₁ => ?_
  have filed := PatchSet.filed_load twins.alike.tree (congrArg Prod.fst loaded)
  split
  · refine .bind ((steady_copyBaseline clean fresh near').agrees twins₁) fun _ _ _ twins₂ => ?_
    exact rejecting _ _ twins₂
  · refine .bind_of_ran ((TreeHome.steady_read clean).agrees twins₁) fun tree v v' read _ twins₂ => ?_
    have tame := filed.near_apply (TreeHome.near_read twins₁.alike.tree (congrArg Prod.fst read))
      r.tolerance
    refine .bind ((TreeHome.steady_write fresh fun name listed => near' name (tame name listed)).agrees
      twins₂) fun _ _ _ twins₃ => ?_
    exact rejecting _ _ twins₃

end PatchApplication

end Patchwork
