import Patchwork.Proofs.Build.Stages
import Patchwork.Proofs.Patch.Twins

/-! Tools in twins.  What stood in the place of a tool's output is gone before the tool starts
(`Action.none_of_clear`), so a tool that makes the same of the same files (`ToolRun.Repeats`) ends alike
in twins and leaves the same output, whatever was left there and in the places of its own
(`ToolRun.agrees_run`). -/

namespace Patchwork
open Patchwork.Action Patchwork.Disk
variable {here : Place} {stale : Place → Prop} {keeps : Place → Option Node → Prop} {p : Path}
  {w w' : World}

/-- Where making room for a straight path that ends in a name succeeds, nothing is left at its place. -/
theorem Action.none_of_clear (tree : w.disk.IsTree) (straight : ".." ∉ p.parts) (ends : p.endsInName)
    (ran : clear p w = (.ok (), w')) : w'.disk.at? (p.place w.disk.here) = none := by
  obtain ⟨before, name, parts, step⟩ := Path.exists_parts_of_endsInName ends
  have ne : p.text ≠ "" := by
    intro blank
    rw [Path.parts_eq, blank] at parts
    exact List.concat_ne_nil _ _ parts.symm
  have removed := remove_snd p w
  obtain ⟨_, w₁, cleared, ran⟩ := bind_ran_iff.mp ran
  have free := none_of_remove tree straight ne cleared []
  rw [List.append_nil] at free
  rw [cleared] at removed
  have here₁ : w₁.disk.here = w.disk.here := by
    rw [show w₁ = _ from removed, World.withDisk_disk, here_remove]
  have kept : (makeParent p w₁).2.disk.at? (p.place w.disk.here) =
      w₁.disk.at? (p.place w.disk.here) := by
    refine at?_makeParent w₁ fun front above same => ?_
    rw [parts, List.dropLast_concat] at above
    have straight' : ".." ∉ before := fun listed => straight (parts ▸ List.mem_append_left _ listed)
    obtain ⟨more, rfl⟩ := above
    have on := (prefix_foldl_step (fun listed => straight' (List.mem_append_right _ listed))
      (stopFrom w.disk.here p front) : _ <+: more.foldl Place.step _).length_le
    rw [here₁] at same
    have last : p.place w.disk.here = more.foldl Place.step (stopFrom w.disk.here p front) ++ [name] := by
      rw [Path.place, ← Path.foldl_parts, parts, List.foldl_append, List.foldl_append]
      exact step _
    have longer := congrArg List.length (last.symm.trans same)
    rw [List.length_append, List.length_singleton] at longer
    omega
  rw [ran] at kept
  exact kept.trans free

namespace ToolRun
variable {s : Surroundings} {java : String} {t : ToolRun} {own inputs ps : List Path}

/-- The program that a tool is started as. -/
def program (t : ToolRun) (java : String) : Launch :=
  ⟨java, t.commandLine, t.directory, logOf t.output⟩

/-- The log of a tool lies beside its output. -/
theorem place_logOf {name : String} (named : Path.IsName name)
    (named' : Path.IsName (name ++ ".log")) (p : Path) :
    (logOf (p.join name)).place here = p.place here ++ [name ++ ".log"] := by
  have parts := Path.parts_join named p
  have last : (p.join name).fileName? = some name := by
    rw [Path.fileName?, parts, List.getLast?_concat, Option.filter_some, if_pos]
    simp [named.ne_points, named.ne_point]
  obtain ⟨q, parent, isParent⟩ := Path.exists_parent (p := p.join name) (by simp [parts])
  have above : q.place here = p.place here := by
    rw [Path.place, Path.place, ← Path.foldl_parts, ← Path.foldl_parts, isParent.parts, parts,
      List.dropLast_concat, isParent.isAbsolute, Path.isAbsolute_join named]
  rw [logOf, Path.withFileName, last, parent]
  exact (Path.place_join_of_isName named' q here).trans (above ▸ rfl)

/-- **A tool that makes the same of the same**: it writes to its output and to places of its own, and
what it makes depends on its input files only. -/
structure Repeats (s : Surroundings) (java : String) (here : Place) (own inputs : List Path)
    (t : ToolRun) : Prop where
  stays : ∀ past (d : Disk), (s.run past (t.program java) d).2.here = d.here
  tree : ∀ past (d : Disk), d.IsTree → (s.run past (t.program java) d).2.IsTree
  frame : ∀ past (d : Disk) place, d.here = here →
    (∀ p ∈ t.output :: logOf t.output :: own, ¬ p.place here <+: place) →
    (s.run past (t.program java) d).2.at? place = d.at? place
  log : ∀ past (d : Disk), d.here = here → d.at? ((logOf t.output).place here) ≠ some .dir →
    (s.run past (t.program java) d).2.at? ((logOf t.output).place here) ≠ some .dir
  same : ∀ past past' (d d' : Disk), d.IsTree → d'.IsTree → d.here = here → d'.here = here →
    (∀ p ∈ inputs, d'.read p = d.read p) →
    (∀ front, front <+: t.output.parts →
      d'.at? (stopFrom here t.output front) = d.at? (stopFrom here t.output front)) →
    d.at? (t.output.place here) = none →
    d.at? ((logOf t.output).place here) ≠ some .dir →
    d'.at? ((logOf t.output).place here) ≠ some .dir →
    (s.run past' (t.program java) d').1 = (s.run past (t.program java) d).1 ∧
      ∀ place, t.output.place here <+: place →
        (s.run past' (t.program java) d').2.at? place = (s.run past (t.program java) d).2.at? place

/-- **Running a tool comes to the same in twins**, where its inputs are fresh and only its own places
are stale of those that it writes to. -/
theorem agrees_run (twins : Twins here (behindRoom here stale ps) keeps w w')
    (repeats : t.Repeats s java here own inputs) (clearable : t.output.Clearable here stale keeps)
    (fresh : ∀ p ∈ inputs, Fresh here (behindRoom here stale ps) p)
    (apart : ∀ p ∈ logOf t.output :: own, ∀ place, p.place here <+: place →
      behindRoom here stale (ps ++ [t.output]) place)
    (kept : ∀ p ∈ logOf t.output :: own, ∀ place, p.place here <+: place → ∀ node,
      (place = (logOf t.output).place here → node ≠ some .dir) → keeps place node)
    (log : ¬ keeps ((logOf t.output).place here) (some .dir)) :
    Agrees (t.run s java) w w' fun _ u u' =>
      Twins here (behindRoom here stale (ps ++ [t.output])) keeps u u' := by
  refine .bind_of_ran (agrees_clear_behind twins clearable) fun _ u u' cleared _ twins₁ => ?_
  have alike := twins₁.alike
  have free := none_of_clear twins.alike.tree clearable.straight clearable.ends cleared
  rw [twins.here] at free
  have clean : Clean here (behindRoom here stale (ps ++ [t.output])) t.output := clean_of_mem (by simp)
  have left := apart _ List.mem_cons_self _ List.prefix_rfl
  obtain ⟨logged, logged'⟩ := alike.kept _ left
  have plain : u.disk.at? ((logOf t.output).place here) ≠ some .dir := fun dir => log (dir ▸ logged)
  have plain' : u'.disk.at? ((logOf t.output).place here) ≠ some .dir := fun dir => log (dir ▸ logged')
  have read : ∀ p ∈ inputs, u'.disk.read p = u.disk.read p := by
    intro p listed
    refine alike.read_eq ?_
    rw [twins₁.here]
    exact (fresh p listed).mono fun _ => behindRoom_of_append
  obtain ⟨same, output⟩ := repeats.same u.launches u'.launches u.disk u'.disk alike.tree alike.tree'
    twins₁.here twins₁.here' read (fun front above => alike.same _ (clean.fresh front above)) free plain
    plain'
  have unreached : ∀ {place}, (¬ ∃ p ∈ logOf t.output :: own, p.place here <+: place) →
      ¬ t.output.place here <+: place → ∀ p ∈ t.output :: logOf t.output :: own,
        ¬ p.place here <+: place := by
    intro place others out p listed below
    rcases List.mem_cons.mp listed with rfl | listed
    · exact out below
    · exact others ⟨p, listed, below⟩
  have launched : Agrees (launch s (t.program java)) u u' fun _ v v' =>
      Twins here (behindRoom here stale (ps ++ [t.output])) keeps v v' := by
    refine ⟨by rw [launch_apply, launch_apply]; exact same, fun _ _ => ?_⟩
    rw [launch_apply, launch_apply]
    refine ⟨(repeats.stays _ _).trans twins₁.here, repeats.tree _ _ alike.tree,
      repeats.tree _ _ alike.tree', ?_, fun place fresh => ?_, fun place left => ?_, alike.vacant⟩
    · exact (repeats.stays _ _).trans (alike.here.trans (repeats.stays _ _).symm)
    · by_cases below : t.output.place here <+: place
      · exact output place below
      · have others : ¬ ∃ p ∈ logOf t.output :: own, p.place here <+: place := by
          rintro ⟨p, listed, below⟩
          exact fresh (apart p listed place below)
        have frame := unreached others below
        exact (repeats.frame _ _ place twins₁.here' frame).trans
          ((alike.same place fresh).trans (repeats.frame _ _ place twins₁.here frame).symm)
    · by_cases others : ∃ p ∈ logOf t.output :: own, p.place here <+: place
      · obtain ⟨p, listed, below⟩ := others
        refine ⟨kept p listed place below _ ?_, kept p listed place below _ ?_⟩ <;> rintro rfl
        · exact repeats.log _ _ twins₁.here plain
        · exact repeats.log _ _ twins₁.here' plain'
      · have out : ¬ t.output.place here <+: place := (left.2 t.output (by simp)).1
        have frame := unreached others out
        have same := repeats.frame u.launches u.disk place twins₁.here frame
        have same' := repeats.frame u'.launches u'.disk place twins₁.here' frame
        dsimp only
        rw [same, same']
        exact alike.kept place left
  refine .bind launched fun ended v v' twins => ?_
  split
  · exact .pure twins
  · exact .throw

/-- **A tool starts afresh**: nothing is in the place of its output when its program starts. -/
theorem starts_afresh {report : ToolReport} (tree : w.disk.IsTree) (straight : ".." ∉ t.output.parts)
    (ends : t.output.endsInName) (ran : t.run s java w = (.ok report, w')) :
    ∃ past d ended, d.at? (t.output.place w.disk.here) = none ∧
      s.run past (t.program java) d = (.ok ended, w'.disk) ∧ ended.status = 0 := by
  obtain ⟨_, u, cleared, ran⟩ := bind_ran_iff.mp ran
  obtain ⟨ended, v, launched, ran⟩ := bind_ran_iff.mp ran
  rw [launch_apply] at launched
  have outcome : (s.run u.launches (t.program java) u.disk).1 = .ok ended := congrArg Prod.fst launched
  have left : (s.run u.launches (t.program java) u.disk).2 = v.disk :=
    congrArg (World.disk ∘ Prod.snd) launched
  split at ran <;> cases ran
  exact ⟨u.launches, u.disk, ended, none_of_clear tree straight ends cleared, Prod.ext outcome left, ‹_›⟩

end ToolRun
end Patchwork
