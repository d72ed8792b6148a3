import Patchwork.Proofs.Patch.Written
import Patchwork.Proofs.Patch.Recorded
import Patchwork.Proofs.Script.Sides

/-! Patches between two texts, and how they are read back.  The lines of a hunk are lines
of the two texts, so they can be read (`wellFormed_of_mem_hunksBetween`), and as something
is kept between two changes, each hunk ends before the next begins
(`pairwise_hunksBetween`).  So a patch that was made, from two texts or from its own text,
is read as it was written, and so is each reject file of it (`parse_renderHunks`). -/

namespace Patchwork

/-! ## The lines of each hunk -/

/-- Each hunk's sides stand in the two texts. -/
theorem Hunk.Recorded.sides_isInfix {line : Nat} {xs ys : List String} {hs : List Hunk}
    (recorded : Recorded line xs hs ys) {h : Hunk} (mem : h ∈ hs) :
    h.oldSide <:+: xs ∧ h.newSide <:+: ys := by
  induction recorded with
  | kept => cases mem
  | @hunk line gap rest ys k hs origin after ih =>
    rcases List.mem_cons.mp mem with rfl | mem
    · exact ⟨⟨gap, rest, List.append_assoc _ _ _⟩, ⟨gap, ys, List.append_assoc _ _ _⟩⟩
    · obtain ⟨old, new⟩ := ih mem
      have within {side rest text : List String} (h : side <:+: text) :
          side <:+: gap ++ (rest ++ text) :=
        h.trans ((List.suffix_append rest text).trans (List.suffix_append gap _)).isInfix
      exact ⟨within old, within new⟩

namespace HunkCutter.Extent
variable {e : Extent}

/-- Every hunk is one that was closed. -/
theorem exists_close_of_mem_cut {h : OpenHunk} {oldStop newStop : Nat} {tail : List String}
    {rest : List (Change String)} {k : Hunk} (hk : k ∈ e.cut h oldStop newStop tail rest) :
    ∃ (o : OpenHunk) (after : List String), k = o.close after := by
  induction rest generalizing h oldStop newStop with
  | nil => exact ⟨h, _, List.mem_singleton.mp hk⟩
  | cons c rest ih =>
    rw [cut] at hk
    split at hk
    · exact ih hk
    · rcases List.mem_cons.mp hk with rfl | hk
      · exact ⟨h, _, rfl⟩
      · exact ih hk

end HunkCutter.Extent

/-- **The hunks between two texts can be read back.** -/
theorem wellFormed_of_mem_hunksBetween {old new : String} {context : Nat} {h : Hunk}
    (mem : h ∈ hunksBetween old new context) : h.WellFormed := by
  obtain ⟨oldLines, newLines⟩ := (recorded_hunksBetween old new context).sides_isInfix mem
  have cut {side : List String} {text : String} (h : side <:+: Text.lines text) :
      Text.Cut (side.map String.toList) :=
    (Text.cut_lines text).of_isInfix (h.map String.toList)
  have lines : PatchReading.Readable {} h.lines :=
    PatchReading.readable_of_cut ⟨nofun, nofun⟩ (cut oldLines) (cut newLines)
  unfold hunksBetween HunkCutter.Extent.hunks at mem
  simp only at mem
  split at mem
  · cases mem
  · obtain ⟨o, after, rfl⟩ := HunkCutter.Extent.exists_close_of_mem_cut mem
    exact ⟨rfl, rfl, lines⟩

/-! ## The order of the hunks -/

namespace LineRange

/-- The number in a header does not fall as the range grows. -/
theorem start_ofIndex_le {index n m : Nat} (h : n ≤ m) :
    (ofIndex index n).start ≤ (ofIndex index m).start := by
  simp only [ofIndex]
  split <;> split <;> omega

/-- A range that stands before another one ends before the number in the other's header,
unless the other is empty and stands where the first one ends. -/
theorem stop_ofIndex_le {index n next m : Nat} (h : index + n ≤ next)
    (apart : m ≠ 0 ∨ index + n < next) :
    (ofIndex index n).start + n ≤ (ofIndex next m).start := by
  simp only [ofIndex]
  split <;> split <;> omega

end LineRange

/-- The hunk begins no earlier than one that is still open. -/
structure OpenHunk.Before (h : OpenHunk) (k : Hunk) : Prop where
  old : (LineRange.ofIndex h.oldStart h.old.length).start ≤ k.old.start
  new : (LineRange.ofIndex h.newStart h.new.length).start ≤ k.new.start

namespace OpenHunk
variable {h : OpenHunk}

theorem old_close (h : OpenHunk) (after : List String) :
    (h.close after).old = .ofIndex h.oldStart (h.old.length + after.length) := by
  rw [← List.length_append, ← oldSide_close]
  rfl

theorem new_close (h : OpenHunk) (after : List String) :
    (h.close after).new = .ofIndex h.newStart (h.new.length + after.length) := by
  rw [← List.length_append, ← newSide_close]
  rfl

theorem before_close (h : OpenHunk) (after : List String) : h.Before (h.close after) := by
  constructor
  · rw [old_close]
    exact LineRange.start_ofIndex_le (Nat.le_add_right _ _)
  · rw [new_close]
    exact LineRange.start_ofIndex_le (Nat.le_add_right _ _)

/-- A hunk that has grown begins no earlier. -/
theorem Before.of_grown {c : Change String} {k : Hunk} (before : OpenHunk.Before
    { h with lines := h.lines ++ c.kept.map .context ++ c.hunkLines } k) : h.Before k := by
  obtain ⟨old, new⟩ := before
  rw [old_grown, List.length_append] at old
  rw [new_grown, List.length_append] at new
  exact ⟨(LineRange.start_ofIndex_le (Nat.le_add_right _ _)).trans old,
    (LineRange.start_ofIndex_le (Nat.le_add_right _ _)).trans new⟩

theorem Before.trans {k l : Hunk} (hk : h.Before k) (kl : k.Precedes l) : h.Before l :=
  ⟨hk.old.trans ((Nat.le_add_right _ _).trans kl.old),
    hk.new.trans ((Nat.le_add_right _ _).trans kl.new)⟩

end OpenHunk

namespace HunkCutter.Extent
variable {e : Extent}

theorem newStart_opening (oldStop newStop : Nat) (c : Change String) :
    (e.opening oldStop newStop c).newStart = newStop + (c.kept.length - e.context) := by
  simp only [opening, lastItems, List.length_drop]
  omega

theorem newStart_add_length_opening (oldStop newStop : Nat) (c : Change String) :
    (e.opening oldStop newStop c).newStart + (e.opening oldStop newStop c).new.length =
      newStop + c.new.length := by
  simp only [newStart_opening, new_opening, lastItems, Change.new, List.length_append,
    List.length_drop]
  omega

/-- A hunk is closed before the next one opens. -/
theorem precedes_of_opening {h : OpenHunk} {oldStop newStop : Nat} {c : Change String} {k : Hunk}
    (old : h.oldStart + h.old.length = oldStop) (new : h.newStart + h.new.length = newStop)
    (kept : c.kept ≠ []) (apart : e.joins oldStop newStop (oldStop + c.kept.length) = false)
    (hk : (e.opening oldStop newStop c).Before k) :
    (h.close (c.kept.take (e.after oldStop newStop))).Precedes k := by
  have room := after_add_before_le apart
  have short : e.after oldStop newStop ≤ e.context := Nat.min_le_left _ _
  have some : 0 < c.kept.length := List.length_pos_iff.mpr kept
  have taken : (c.kept.take (e.after oldStop newStop)).length =
      min (e.after oldStop newStop) c.kept.length := List.length_take
  constructor
  · have opens := oldStart_opening (e := e) oldStop newStop c
    have opened := oldStart_add_length_opening (e := e) oldStop newStop c
    simp only [Change.old, List.length_append] at opened
    rw [OpenHunk.old_close]
    refine (LineRange.stop_ofIndex_le ?_ ?_).trans hk.old <;> omega
  · have opens := newStart_opening (e := e) oldStop newStop c
    have opened := newStart_add_length_opening (e := e) oldStop newStop c
    simp only [Change.new, List.length_append] at opened
    rw [OpenHunk.new_close]
    refine (LineRange.stop_ofIndex_le ?_ ?_).trans hk.new <;> omega

/-- Cutting changes between which something is kept gives hunks in order. -/
theorem pairwise_cut {h : OpenHunk} {oldStop newStop : Nat}
    (old : h.oldStart + h.old.length = oldStop) (new : h.newStart + h.new.length = newStop)
    (tail : List String) {rest : List (Change String)} (kept : ∀ c ∈ rest, c.kept ≠ []) :
    (∀ k ∈ e.cut h oldStop newStop tail rest, h.Before k) ∧
      (e.cut h oldStop newStop tail rest).Pairwise Hunk.Precedes := by
  -- what follows the open hunk begins behind it, however the changes are shared out
  induction rest generalizing h oldStop newStop with
  | nil => exact ⟨List.forall_mem_singleton.mpr (h.before_close _), List.pairwise_singleton _ _⟩
  | cons c rest ih =>
    obtain ⟨first, others⟩ := List.forall_mem_cons.mp kept
    rw [cut]
    split
    · obtain ⟨before, order⟩ := @ih
        { h with lines := h.lines ++ c.kept.map .context ++ c.hunkLines }
        (oldStop + c.old.length) (newStop + c.new.length)
        (by rw [h.old_grown, List.length_append, ← Nat.add_assoc, old])
        (by rw [h.new_grown, List.length_append, ← Nat.add_assoc, new]) others
      exact ⟨fun k hk => (before k hk).of_grown, order⟩
    · rename_i apart
      obtain ⟨before, order⟩ := ih (oldStart_add_length_opening (e := e) oldStop newStop c)
        (newStart_add_length_opening oldStop newStop c) others
      have closed := fun k hk => precedes_of_opening old new first
        (Bool.eq_false_iff.mpr apart) (before k hk)
      refine ⟨List.forall_mem_cons.mpr ⟨h.before_close _, fun k hk => ?_⟩,
        List.pairwise_cons.mpr ⟨closed, order⟩⟩
      exact (h.before_close _).trans (closed k hk)

end HunkCutter.Extent

/-- **Each hunk between two texts ends before the next begins.** -/
theorem pairwise_hunksBetween (old new : String) (context : Nat) :
    (hunksBetween old new context).Pairwise Hunk.Precedes := by
  have kept : ∀ c ∈ (lineScript (Text.lines old) (Text.lines new)).changes.changes.tail,
      c.kept ≠ [] :=
    EditScript.kept_ne_nil_of_mem_tail_changes
      (EditScript.solid_compact (EditScript.solid_within _ _ _))
  simp only [hunksBetween, HunkCutter.Extent.hunks]
  split
  · exact .nil
  · rename_i c rest changes
    rw [changes] at kept
    exact (HunkCutter.Extent.pairwise_cut
      (by rw [HunkCutter.Extent.oldStart_add_length_opening, Nat.zero_add])
      (by rw [HunkCutter.Extent.newStart_add_length_opening, Nat.zero_add]) _ kept).2

/-! ## Patches that were made -/

namespace Patch

/-- **A patch that is made from two versions of a file or read from a text.** -/
inductive Made (p : Patch) : Prop
  | between (old new : Option String) (context : Nat)
      (h : Patch.between p.path old new context = some p)
  | parse (text : String) (h : Patch.parse p.path text = .ok p)

theorem hunks_of_between {path : String} {old new : Option String} {context : Nat} {p : Patch}
    (h : Patch.between path old new context = some p) :
    p.hunks = hunksBetween (old.getD "") (new.getD "") context := by
  obtain ⟨-, made⟩ := Option.ite_none_left_eq_some.mp h
  exact congrArg Patch.hunks (Option.some_inj.mp made).symm

theorem Made.wellFormed {p : Patch} (made : p.Made) : ∀ h ∈ p.hunks, h.WellFormed := by
  cases made with
  | between old new context h =>
    rw [hunks_of_between h]
    exact fun _ => wellFormed_of_mem_hunksBetween
  | parse text h => exact (wellFormed_of_parse h).1

theorem Made.pairwise {p : Patch} (made : p.Made) (signed : ∀ h ∈ p.hunks, h.IsSigned) :
    p.hunks.Pairwise Hunk.Precedes := by
  cases made with
  | between old new context h =>
    rw [hunks_of_between h]
    exact pairwise_hunksBetween _ _ context
  | parse text h => exact (PatchReading.inOrder_iff signed).mp (wellFormed_of_parse h).2

/-- **A patch is read as it was written**, and so is every reject file of it: with any of
its hunks in their order, the text gives the path, the kind and those hunks. -/
theorem parse_renderHunks {p : Patch} (made : p.Made) (plain : p.PlainPath)
    (signed : ∀ h ∈ p.hunks, h.IsSigned) {hs : List Hunk} (some : hs.Sublist p.hunks) :
    parse p.path (p.renderHunks hs) = .ok { p with hunks := hs } := by
  exact parse_renderHunks_of_ordered plain (fun h hh => made.wellFormed h (some.subset hh))
    (fun h hh => signed h (some.subset hh)) ((made.pairwise signed).sublist some)

/-- A patch whose second hunk reads and writes a last line without a newline. -/
def listed : Patch where
  path := "list.txt"
  kind := .modify
  hunks := [⟨⟨1, 1⟩, ⟨0, 0⟩, [.delete "--\n"]⟩,
    ⟨⟨9, 1⟩, ⟨8, 2⟩, [.delete "@end", .insert "@end\n", .insert "\\"]⟩]

theorem made_listed : listed.Made := by
  have read : (parse "list.txt" <| "--- a/list.txt\n+++ b/list.txt\n@@ -1 +0,0 @@\n---\n" ++
      "@@ -9 +8,2 @@\n-@end\n\\ No newline at end of file\n+@end\n+\\\n" ++
      "\\ No newline at end of file\n").toOption = some listed := by
    decide +kernel
  exact .parse _ (eq_ok_of_toOption read)

/-- The second hunk alone is read from a reject file. -/
theorem parse_rejected_listed :
    parse listed.path (listed.renderHunks (listed.hunks.drop 1)) =
      .ok { listed with hunks := listed.hunks.drop 1 } := by
  refine parse_renderHunks made_listed (by unfold PlainPath; decide) ?_ (List.drop_sublist 1 _)
  intro h hh
  rcases List.mem_cons.mp hh with rfl | hh
  · exact ⟨by decide, by decide, by decide, by decide⟩
  · rw [List.mem_singleton.mp hh]
    exact ⟨by decide, by decide, by decide, by decide⟩

end Patch

end Patchwork
