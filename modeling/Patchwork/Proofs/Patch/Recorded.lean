import Patchwork.Patch.Diff
import Patchwork.Proofs.Script.Sides

/-! The hunks between two texts.  They stand in the old text where they are
recorded, in order and without overlap, and put in place of what they read there,
what they write makes the new text (`recorded_hunksBetween`).  This is all that
applying them needs of a comparison; which script the comparison found, and how
much context was asked for, do not matter. -/

namespace Patchwork

/-- **Hunks that stand where they are recorded.**  `xs` are a file's lines from index
`line` on.  No hunk begins before the one in front of it ends, the file has each
hunk's old side at the hunk's origin, and the new sides in place of the old ones
make `ys`. -/
inductive Hunk.Recorded : Nat → List String → List Hunk → List String → Prop
  | kept (line : Nat) (xs : List String) : Recorded line xs [] xs
  | hunk {line : Nat} {gap rest ys : List String} {h : Hunk} {hs : List Hunk}
      (origin : h.origin = line + gap.length)
      (after : Recorded (h.origin + h.oldSide.length) rest hs ys) :
      Recorded line (gap ++ (h.oldSide ++ rest)) (h :: hs) (gap ++ (h.newSide ++ ys))

/-- Lines kept in front of the first hunk may be added. -/
theorem Hunk.Recorded.gap_append {line : Nat} {xs ys : List String} {hs : List Hunk}
    (gap : List String) (h : Recorded (line + gap.length) xs hs ys) :
    Recorded line (gap ++ xs) hs (gap ++ ys) := by
  cases h with
  | kept => exact .kept line (gap ++ xs)
  | @hunk _ more rest ys h hs origin after =>
    rw [← List.append_assoc, ← List.append_assoc gap more]
    exact .hunk (by rw [origin, List.length_append, Nat.add_assoc]) after

/-! ## The two sides of hunk lines -/

namespace PatchLine

theorem filterMap_old?_context (ts : List String) : (ts.map context).filterMap old? = ts := by
  rw [List.filterMap_map]
  exact List.filterMap_some

theorem filterMap_new?_context (ts : List String) : (ts.map context).filterMap new? = ts := by
  rw [List.filterMap_map]
  exact List.filterMap_some

theorem filterMap_old?_hunkLines (c : Change String) :
    c.hunkLines.filterMap old? = c.deleted := by
  have deleted : (c.deleted.map delete).filterMap old? = c.deleted := by
    rw [List.filterMap_map]
    exact List.filterMap_some
  have inserted : (c.inserted.map insert).filterMap old? = [] := by
    rw [List.filterMap_map]
    exact List.filterMap_eq_nil_iff.mpr fun _ _ => rfl
  rw [Change.hunkLines, List.filterMap_append, deleted, inserted, List.append_nil]

theorem filterMap_new?_hunkLines (c : Change String) :
    c.hunkLines.filterMap new? = c.inserted := by
  have deleted : (c.deleted.map delete).filterMap new? = [] := by
    rw [List.filterMap_map]
    exact List.filterMap_eq_nil_iff.mpr fun _ _ => rfl
  have inserted : (c.inserted.map insert).filterMap new? = c.inserted := by
    rw [List.filterMap_map]
    exact List.filterMap_some
  rw [Change.hunkLines, List.filterMap_append, deleted, inserted, List.nil_append]

end PatchLine

namespace OpenHunk

/-- What the hunk reads so far. -/
def old (h : OpenHunk) : List String := h.lines.filterMap PatchLine.old?

/-- What the hunk writes so far. -/
def new (h : OpenHunk) : List String := h.lines.filterMap PatchLine.new?

theorem oldSide_close (h : OpenHunk) (after : List String) :
    (h.close after).oldSide = h.old ++ after := by
  rw [close, Hunk.oldSide, old, List.filterMap_append, PatchLine.filterMap_old?_context]

theorem newSide_close (h : OpenHunk) (after : List String) :
    (h.close after).newSide = h.new ++ after := by
  rw [close, Hunk.newSide, new, List.filterMap_append, PatchLine.filterMap_new?_context]

theorem old_grown (h : OpenHunk) (c : Change String) :
    ({ h with lines := h.lines ++ c.kept.map .context ++ c.hunkLines } : OpenHunk).old =
      h.old ++ c.old := by
  rw [old, List.filterMap_append, List.filterMap_append, PatchLine.filterMap_old?_context,
    PatchLine.filterMap_old?_hunkLines, List.append_assoc]
  rfl

theorem new_grown (h : OpenHunk) (c : Change String) :
    ({ h with lines := h.lines ++ c.kept.map .context ++ c.hunkLines } : OpenHunk).new =
      h.new ++ c.new := by
  rw [new, List.filterMap_append, List.filterMap_append, PatchLine.filterMap_new?_context,
    PatchLine.filterMap_new?_hunkLines, List.append_assoc]
  rfl

/-- The header's number says where the hunk begins, also when the hunk reads nothing
and the header names the line before it. -/
theorem origin_close (h : OpenHunk) (after : List String) :
    (h.close after).origin = h.oldStart := by
  simp only [close, Hunk.origin, LineRange.ofIndex]
  split <;> simp_all

/-- Closing a hunk records it, whatever follows its context. -/
theorem recorded_close {stop : Nat} {xs ys : List String} {hs : List Hunk} (h : OpenHunk)
    (hstop : h.oldStart + h.old.length = stop) (after : List String)
    (next : Hunk.Recorded (stop + after.length) xs hs ys) :
    Hunk.Recorded h.oldStart (h.old ++ (after ++ xs)) (h.close after :: hs)
      (h.new ++ (after ++ ys)) := by
  rw [← List.append_assoc, ← List.append_assoc, ← oldSide_close, ← newSide_close]
  refine @Hunk.Recorded.hunk _ [] _ _ _ _ (h.origin_close after) ?_
  rwa [origin_close, oldSide_close, List.length_append, ← Nat.add_assoc, hstop]

end OpenHunk

namespace HunkCutter.Extent
variable {e : Extent}

/-- A change that gets a hunk of its own leaves room for the context of both. -/
theorem after_add_before_le {oldStop newStop kept : Nat}
    (h : e.joins oldStop newStop (oldStop + kept) = false) :
    min (e.after oldStop newStop) kept + min e.context kept ≤ kept := by
  have apart := of_decide_eq_false h
  unfold after at apart ⊢
  omega

theorem old_opening (oldStop newStop : Nat) (c : Change String) :
    (e.opening oldStop newStop c).old = lastItems e.context c.kept ++ c.deleted := by
  rw [opening, OpenHunk.old, List.filterMap_append, PatchLine.filterMap_old?_context,
    PatchLine.filterMap_old?_hunkLines]

theorem new_opening (oldStop newStop : Nat) (c : Change String) :
    (e.opening oldStop newStop c).new = lastItems e.context c.kept ++ c.inserted := by
  rw [opening, OpenHunk.new, List.filterMap_append, PatchLine.filterMap_new?_context,
    PatchLine.filterMap_new?_hunkLines]

theorem oldStart_opening (oldStop newStop : Nat) (c : Change String) :
    (e.opening oldStop newStop c).oldStart = oldStop + (c.kept.length - e.context) := by
  simp only [opening, lastItems, List.length_drop]
  omega

theorem oldStart_add_length_opening (oldStop newStop : Nat) (c : Change String) :
    (e.opening oldStop newStop c).oldStart + (e.opening oldStop newStop c).old.length =
      oldStop + c.old.length := by
  simp only [oldStart_opening, old_opening, lastItems, Change.old, List.length_append,
    List.length_drop]
  omega

/-- Kept lines in front of a change that opens a hunk stand before the hunk, except
for those that are its context. -/
theorem recorded_opening {oldStop newStop a : Nat} {c : Change String} {xs ys : List String}
    {hs : List Hunk} (ha : a + min e.context c.kept.length ≤ c.kept.length)
    (h : Hunk.Recorded (e.opening oldStop newStop c).oldStart
      ((e.opening oldStop newStop c).old ++ xs) hs ((e.opening oldStop newStop c).new ++ ys)) :
    Hunk.Recorded (oldStop + a) (c.kept.drop a ++ (c.deleted ++ xs)) hs
      (c.kept.drop a ++ (c.inserted ++ ys)) := by
  obtain ⟨m, hm⟩ : ∃ m, c.kept.length - e.context = a + m := Nat.exists_eq_add_of_le (by omega)
  have kept : c.kept.drop a = (c.kept.drop a).take m ++ lastItems e.context c.kept := by
    rw [lastItems, hm, ← List.drop_drop, List.take_append_drop]
  have gap : ((c.kept.drop a).take m).length = m := by
    rw [List.length_take, List.length_drop]
    omega
  rw [oldStart_opening, old_opening, new_opening, hm, ← Nat.add_assoc] at h
  rw [kept, List.append_assoc, List.append_assoc, ← List.append_assoc _ c.deleted,
    ← List.append_assoc _ c.inserted]
  exact .gap_append _ (by rwa [gap])

/-- Cutting the changes after an open hunk into hunks, the open one among them. -/
theorem recorded_cut (rest : List (Change String)) (tail : List String) (h : OpenHunk)
    (oldStop newStop : Nat) (stop : h.oldStart + h.old.length = oldStop) :
    Hunk.Recorded h.oldStart (h.old ++ (rest.flatMap Change.old ++ tail))
      (e.cut h oldStop newStop tail rest) (h.new ++ (rest.flatMap Change.new ++ tail)) := by
  -- the hunk and its last change vary: a change either joins the hunk or opens the next
  induction rest generalizing h oldStop newStop with
  | nil =>
    have closed := h.recorded_close stop (tail.take (e.after oldStop newStop))
      (.kept _ (tail.drop (e.after oldStop newStop)))
    rwa [List.take_append_drop] at closed
  | cons c rest ih =>
    rw [cut]
    split
    · have grown := ih { h with lines := h.lines ++ c.kept.map .context ++ c.hunkLines }
        (oldStop + c.old.length) (newStop + c.new.length)
        (by rw [h.old_grown, List.length_append, ← Nat.add_assoc, stop])
      rw [h.old_grown, h.new_grown] at grown
      simpa only [List.flatMap_cons, List.append_assoc] using grown
    · rename_i joins
      -- what is kept between the two hunks is long enough for the context of both
      have room := after_add_before_le (Bool.eq_false_iff.mpr joins)
      have next := ih (e.opening oldStop newStop c) (oldStop + c.old.length)
        (newStop + c.new.length) (oldStart_add_length_opening oldStop newStop c)
      have opened := recorded_opening (a := (c.kept.take (e.after oldStop newStop)).length)
        (by rwa [List.length_take]) next
      have closed := h.recorded_close stop _ opened
      have whole := List.prefix_iff_eq_append.mp
        (List.take_prefix (e.after oldStop newStop) c.kept)
      rw [← List.append_assoc (List.take _ _), ← List.append_assoc (List.take _ _), whole]
        at closed
      simpa [Change.old, Change.new] using closed

/-- The hunks for all changes between two texts stand where they are recorded. -/
theorem recorded_hunks (all : Changes String) :
    Hunk.Recorded 0 all.old (e.hunks all) all.new := by
  obtain ⟨changes, tail⟩ := all
  cases changes with
  | nil => exact .kept 0 tail
  | cons c rest =>
    have cut := recorded_cut (e := e) rest tail (e.opening 0 0 c) c.old.length c.new.length
      (by rw [oldStart_add_length_opening, Nat.zero_add])
    have opened := recorded_opening (a := 0) (by omega) cut
    simpa [hunks, Changes.old, Changes.new, Change.old, Change.new] using opened

end HunkCutter.Extent

/-- **The hunks between two texts stand where they are recorded**, with any amount of
context. -/
theorem recorded_hunksBetween (old new : String) (context : Nat) :
    Hunk.Recorded 0 (Text.lines old) (hunksBetween old new context) (Text.lines new) := by
  have fits := EditScript.fits_compact (EditScript.fits_shortest (Text.lines old) (Text.lines new))
  have sides := EditScript.changes_of_fits fits
  have recorded := HunkCutter.Extent.recorded_hunks
    (e := ⟨context, (Text.lines old).length, (Text.lines new).length⟩)
    (lineScript (Text.lines old) (Text.lines new)).changes
  rw [lineScript, sides.1, sides.2] at recorded
  exact recorded

/-- Only equal texts have no hunk between them. -/
theorem eq_of_hunksBetween_eq_nil {old new : String} {context : Nat}
    (h : hunksBetween old new context = []) : old = new := by
  have recorded := recorded_hunksBetween old new context
  rw [h] at recorded
  have lines : Text.lines old = Text.lines new := by
    generalize Text.lines old = xs at recorded
    cases recorded
    rfl
  rw [← Text.join_lines old, lines, Text.join_lines]

end Patchwork
