import Patchwork.Proofs.Text.Lines
import Patchwork.Proofs.Workspace.Moved

/-! The list of ignored files after a move.  A line that takes a version directory back in comes
to take back the target, whatever it took back before and whatever followed (`retargetLine_eq`);
every other line stays.  This is what following the move asks for (`followLine`) exactly where each
such line takes back the origin and nothing else in it, or the target already
(`retargetLine_eq_followLine_iff`). -/

namespace Patchwork

namespace IgnoreFile

/-- Whether a line takes back in what stands under a name among the version directories. -/
def TakesBack (name line : String) : Prop := name ≠ "" ∧ body line = takeBack ++ name

/-- A line as a move asks for it: where the origin or something in it is taken back, the target
comes in the place of the origin. -/
def followLine (origin target line : String) : String :=
  match Text.after? (takeBack ++ origin) (body line) with
  | none => line
  | some rest =>
    if rest = "" ∨ Text.startsWith "/" rest then takeBack ++ target ++ rest ++ ending line
    else line

theorem body_append_ending (line : String) : body line ++ ending line = line := by
  have front : Text.dropWhileEnd endsLine line.toList <+: line.toList := by
    unfold Text.dropWhileEnd
    rw [← List.reverse_suffix, List.reverse_reverse]
    exact List.dropWhile_suffix _
  have size : (body line).length = (Text.dropWhileEnd endsLine line.toList).length := by
    rw [body, String.length_ofList]
  rw [ending, size, body, ← String.ofList_append, List.prefix_iff_eq_append.mp front,
    String.ofList_toList]

variable {origin target name line : String}

/-- What a line that takes something back comes to. -/
theorem retargetLine_of_takesBack (h : TakesBack name line) (target : String) :
    retargetLine target line = takeBack ++ target ++ ending line := by
  have cut := Text.after?_eq_some_iff.mpr h.2
  unfold retargetLine
  rw [cut]
  split
  · rename_i none
    cases none
  · rename_i empty
    exact absurd (Option.some.inj empty) h.1
  · rfl

/-- A line that takes nothing back stays. -/
theorem retargetLine_of_forall_not (h : ∀ name, ¬ TakesBack name line) (target : String) :
    retargetLine target line = line := by
  unfold retargetLine
  split
  · rfl
  · rfl
  · rename_i name other cut
    exact absurd ⟨other, Text.after?_eq_some_iff.mp cut⟩ (h name)

/-- What following the move asks for of a line that takes something back. -/
theorem followLine_of_takesBack (h : TakesBack name line) (origin target : String) :
    followLine origin target line =
      match Text.after? origin name with
      | none => line
      | some rest =>
        if rest = "" ∨ Text.startsWith "/" rest then takeBack ++ target ++ rest ++ ending line
        else line := by
  have same : Text.after? (takeBack ++ origin) (body line) = Text.after? origin name := by
    apply Option.ext
    intro rest
    rw [Text.after?_eq_some_iff, Text.after?_eq_some_iff, h.2, String.append_assoc,
      String.append_right_inj]
  rw [followLine, same]

theorem followLine_of_forall_not (named : origin ≠ "") (h : ∀ name, ¬ TakesBack name line)
    (target : String) : followLine origin target line = line := by
  unfold followLine
  split
  · rfl
  · rename_i rest cut
    have whole := Text.after?_eq_some_iff.mp cut
    rw [String.append_assoc] at whole
    have nonempty : origin ++ rest ≠ "" := fun empty => named (String.append_eq_empty_iff.mp empty).1
    exact absurd ⟨nonempty, whole⟩ (h _)

/-- **When a line follows a move**: a line that takes something back must take back the origin as a
whole, or the target already. -/
theorem retargetLine_eq_followLine_iff (originName : Path.IsName origin)
    (targetName : Path.IsName target) :
    retargetLine target line = followLine origin target line ↔
      ∀ name, TakesBack name line → name = origin ∨ name = target := by
  by_cases takes : ∃ name, TakesBack name line
  · obtain ⟨name, takes⟩ := takes
    have only : (∀ name', TakesBack name' line → name' = origin ∨ name' = target) ↔
        name = origin ∨ name = target := by
      constructor
      · exact fun all => all name takes
      · intro one name' takes'
        have same := takes'.2.symm.trans takes.2
        rwa [(String.append_right_inj _).mp same]
    have line_eq : line = takeBack ++ name ++ ending line := by
      rw [← takes.2, body_append_ending]
    have kept : takeBack ++ target ++ ending line = line ↔ name = target := by
      constructor
      · intro same
        have front := (String.append_left_inj _).mp (same.trans line_eq)
        exact ((String.append_right_inj _).mp front).symm
      · intro same
        rw [← same, ← line_eq]
    have origin_iff : ∀ {rest}, name = origin ++ rest → (name = origin ↔ rest = "") := by
      rintro rest rfl
      exact String.append_eq_left_iff
    rw [only, retargetLine_of_takesBack takes, followLine_of_takesBack takes]
    split
    · rename_i cut
      have other : name ≠ origin := by
        intro same
        have whole := Text.after?_append origin ""
        rw [String.append_empty] at whole
        rw [same] at cut
        cases cut.symm.trans whole
      rw [kept, or_iff_right other]
    · rename_i rest cut
      have whole := Text.after?_eq_some_iff.mp cut
      by_cases empty : rest = ""
      · rw [if_pos (.inl empty), empty, String.append_empty]
        exact ⟨fun _ => .inl ((origin_iff whole).mpr empty), fun _ => rfl⟩
      have other : name ≠ origin := fun same => empty ((origin_iff whole).mp same)
      rw [or_iff_right other]
      split
      · rename_i behind
        have slash := List.mem_of_head? ((Text.startsWith_iff rfl).mp (behind.resolve_left empty))
        constructor
        · intro same
          have longer := (String.append_left_inj _).mp same
          exact absurd (String.append_eq_left_iff.mp longer.symm) empty
        · intro same
          refine absurd ?_ targetName.slashless
          rw [← same, whole, String.toList_append]
          exact List.mem_append_right _ slash
      · exact kept
  · have none : ∀ name, ¬ TakesBack name line := fun name takes' => takes ⟨name, takes'⟩
    rw [retargetLine_of_forall_not none, followLine_of_forall_not originName.ne_empty none]
    exact ⟨fun _ name takes' => absurd takes' (none name), fun _ => rfl⟩

end IgnoreFile

namespace Migration
open IgnoreFile

/-- **What a move makes of the list of ignored files**, line for line.  Lines that take nothing back
stay, and the others take back the target; that is what the move asks for where they take back the
origin as a whole or the target already. -/
theorem ignoreFile_run (s : Surroundings) (w : Workspace) (m : Migration) {world : World}
    (tree : world.disk.IsTree) (ran : (m.run s w world).1 = .ok ()) {text : String}
    (read : world.disk.readText (ignoreFile w) = .ok text) :
    (m.run s w world).2.disk.at? ((ignoreFile w).place world.disk.here) =
        some (.file (Text.join ((Text.lines text).map (retargetLine m.target))).toUTF8) ∧
      ∀ line ∈ Text.lines text,
        ((∀ name, ¬ TakesBack name line) → retargetLine m.target line = line) ∧
        (∀ name, TakesBack name line →
          retargetLine m.target line = takeBack ++ m.target ++ ending line) ∧
        (retargetLine m.target line = followLine m.origin m.target line ↔
          ∀ name, TakesBack name line → name = m.origin ∨ name = m.target) := by
  rcases m.run_cases s w tree with ⟨-, e, refused⟩ | ⟨profile, admits, moved | halted⟩
  · rw [refused] at ran
    cases ran
  · obtain ⟨-, d, -, ignored, done⟩ := moved
    rw [done]
    refine ⟨ignored text read, fun line _ => ⟨fun none => ?_, fun name takes => ?_, ?_⟩⟩
    · exact retargetLine_of_forall_not none m.target
    · exact retargetLine_of_takesBack takes m.target
    · exact retargetLine_eq_followLine_iff (isName_of_isPlainName admits.origin)
        (isName_of_isPlainName admits.target)
  · obtain ⟨-, step, reason, d, -, stopped⟩ := halted
    rw [stopped] at ran
    cases ran

/-- In the small workspace the list takes back the target. -/
theorem ignoreFile_run_demo :
    (demo.run demoSurroundings demoWorkspace ⟨demoDisk, [], []⟩).2.disk.at? ["ws", ".gitignore"] =
      some (.file "!versions/1.20.1\n".toUTF8) := by
  have read : demoDisk.readText (ignoreFile demoWorkspace) = .ok "!versions/1.20\n" := rfl
  have place : (ignoreFile demoWorkspace).place demoDisk.here = ["ws", ".gitignore"] := by
    decide +kernel
  have written : Text.join ((Text.lines "!versions/1.20\n").map (retargetLine demo.target)) =
      "!versions/1.20.1\n" := by decide +kernel
  have followed := (ignoreFile_run demoSurroundings demoWorkspace demo isTree_demoDisk run_demo
    read).1
  rwa [place, written] at followed

end Migration
end Patchwork

/-! ## The whole move -/

namespace Patchwork.Migration

/-- **A move is all or nothing.**  Where it is not admitted, it fails and leaves the world as it
was.  Where it is, and all paths into the target can be followed, the directory is moved with its
patches and its profile, whatever version control answers: the profile is written as one that names
the target and says the same otherwise, and version control is asked exactly what `calls` says. -/
theorem run_allOrNothing (s : Surroundings) (w : Workspace) (m : Migration) {world : World}
    (tree : world.disk.IsTree) :
    ((∀ profile, ¬ m.Admits w world.disk profile) → ∃ e, m.run s w world = (.error e, world)) ∧
    ∀ profile, m.Admits w world.disk profile →
      (m.Reachable w world.disk →
        profile.Redirected m.target (profile.follow m.target) ∧
        ∃ d, m.Moved w profile (IsIgnoreFile w world.disk) world.disk d ∧
          m.run s w world = (m.verdict s w d,
            ⟨d, world.gitCalls ++ m.calls s w d, world.launches⟩)) ∧
      (¬ m.Reachable w world.disk → ∃ step reason d,
        m.run s w world = (.error (.io step reason), world.withDisk d)) := by
  refine ⟨fun refused => ?_, fun profile admits => ?_⟩
  · rcases m.run_cases s w tree with ⟨-, failed⟩ | ⟨profile, admits, -⟩
    · exact failed
    · exact absurd admits (refused profile)
  rcases m.run_cases s w tree with ⟨refused, -⟩ | ⟨profile', admits', ways⟩
  · exact absurd admits (refused profile)
  cases admits.toChecked.unique admits'.toChecked
  obtain ⟨text, -, parsed⟩ := admits.profile
  have redirected :=
    Profile.redirected_follow (Profile.isSome_version?_of_parse parsed) m.target
  rcases ways with ⟨reachable, d, moved, -, ran⟩ | ⟨closed, step, reason, d, -, ran⟩
  · exact ⟨fun _ => ⟨redirected, d, moved, ran⟩, fun closed => absurd reachable closed⟩
  · exact ⟨fun reachable => absurd reachable closed, fun _ => ⟨step, reason, d, ran⟩⟩

/-- In the small workspace the move is done, and version control hears of it. -/
theorem run_allOrNothing_demo : ∃ profile d, demo.Moved demoWorkspace profile
      (IsIgnoreFile demoWorkspace demoDisk) demoDisk d ∧
    demo.run demoSurroundings demoWorkspace ⟨demoDisk, [], []⟩ =
      (.ok (), ⟨d, [demo.untracking, demo.adding demoWorkspace d], []⟩) := by
  obtain ⟨profile, admits⟩ := admits_demo
  have whole := @run_allOrNothing demoSurroundings demoWorkspace demo ⟨demoDisk, [], []⟩
    isTree_demoDisk
  obtain ⟨-, d, moved, ran⟩ := (whole.2 profile admits).1 reachable_demo
  exact ⟨profile, d, moved, ran⟩

end Patchwork.Migration
