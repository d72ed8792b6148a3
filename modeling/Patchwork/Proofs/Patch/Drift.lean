import Mathlib.Data.List.Chain
import Patchwork.Proofs.Patch.Loosest
import Patchwork.Proofs.Patch.Recorded

/-! Putting the hunks between two texts into the first of them.  Each hunk stands where
it was recorded, which is where the exact search expects it: the hunks in front of it
stood where they were recorded too, so the search has not been displaced
(`placeShifted_of_recorded`).  So no hunk is left for the gaps, whatever the tolerance,
and the result is the second text (`of_hunksBetween`).

Hunks whose lines have moved.  In a file that has grown or shrunk in many places,
each hunk's old side stands some way off its recorded position, and the drift changes
from hunk to hunk.  As long as it changes by no more than the exact search looks around
it (`Steady`), every hunk is found: the search expects it as far off as the one before
(`nearest_of_steady`), and it stands nowhere else.  The induction over the hunks carries
the line after the last one and its drift together (`Steady.tail`). -/

namespace Patchwork

/-! ## Hunks that stand where they were recorded -/

section
variable {lines : Array String}

theorem displaced_zero (origin : Nat) : displaced origin 0 = origin := by
  simp only [displaced, Int.le_refl, if_true, Int.toNat_zero, Nat.add_zero]
  omega

theorem windowAt_of_drop {start : Nat} {xs rest : List String}
    (h : lines.toList.drop start = xs ++ rest) : windowAt lines start xs.length = xs := by
  rw [windowAt_eq, h, List.take_left]

theorem drop_of_drop {start : Nat} {xs rest : List String}
    (h : lines.toList.drop start = xs ++ rest) : lines.toList.drop (start + xs.length) = rest := by
  rw [← List.drop_drop, h, List.drop_left]

/-- What stands from a line on ends where the file does. -/
theorem stop_le_size {start : Nat} {xs rest : List String} (inside : start ≤ lines.size)
    (h : lines.toList.drop start = xs ++ rest) : start + xs.length ≤ lines.size := by
  have := congrArg List.length h
  simp only [List.length_drop, Array.length_toList, List.length_append] at this
  omega

theorem Placement.displacement_whole_origin (h : Hunk) :
    (Placement.whole h h.origin).displacement h = 0 := by
  simp [displacement, whole, Text.signed]

namespace HunkRun

/-- The slots of hunks that all go where they were recorded. -/
def recordedSlots (hunks : List Hunk) : List Slot :=
  hunks.map fun h => (h, some (.whole h h.origin))

/-- Over the lines that a hunk reads, its lines make what it writes. -/
theorem replacement_old (body : List PatchLine) :
    replacement body (body.filterMap PatchLine.old?) = body.filterMap PatchLine.new? := by
  induction body with
  | nil => rfl
  | cons l body ih =>
    cases l with
    | context t => exact congrArg _ ih
    | delete t => exact ih
    | insert t => exact congrArg _ ih

/-- The exact pass puts each hunk where it was recorded. -/
theorem placeShifted_of_recorded {line : Nat} {xs ys : List String} {hunks : List Hunk}
    (recorded : Hunk.Recorded line xs hunks ys) (inside : line ≤ lines.size)
    (here : lines.toList.drop line = xs) :
    placeShifted lines line 0 hunks = recordedSlots hunks := by
  induction recorded with
  | kept => rfl
  | @hunk line gap rest ys h hunks origin after ih =>
    have gapStop := stop_le_size inside here
    have window := drop_of_drop here
    rw [← origin] at gapStop window
    have stop := stop_le_size gapStop window
    -- all hunks before went where they were recorded, so the displacement is still 0
    have found : Placement.nearest lines line lines.size (displaced h.origin 0) h.oldSide =
        some h.origin := by
      rw [displaced_zero]
      exact Placement.nearest_eq_expected (by omega) (by omega) (windowAt_of_drop window)
    rw [placeShifted, found]
    simp only [Placement.displacement_whole_origin]
    exact congrArg _ (ih stop (drop_of_drop window))

/-- Replacing the windows of such hunks makes the other text. -/
theorem splice_of_recorded {line : Nat} {xs ys : List String} {hunks : List Hunk}
    (recorded : Hunk.Recorded line xs hunks ys) (here : lines.toList.drop line = xs) :
    splice lines line (recordedSlots hunks) = ys := by
  induction recorded with
  | kept line xs => rw [recordedSlots, List.map_nil, splice_nil, here]
  | @hunk line gap rest ys h hunks origin after ih =>
    have window := drop_of_drop here
    rw [← origin] at window
    have distance : h.origin - line = gap.length := by omega
    have first : windowAt lines line (h.origin - line) = gap := by
      rw [distance, windowAt_of_drop here]
    have covered : windowAt lines h.origin h.oldSide.length = h.oldSide := windowAt_of_drop window
    show windowAt lines line (h.origin - line) ++
      (replacement h.lines (windowAt lines h.origin h.oldSide.length) ++
        splice lines (h.origin + h.oldSide.length) (recordedSlots hunks)) = _
    rw [first, covered, Hunk.oldSide, replacement_old, ← Hunk.oldSide, ih (drop_of_drop window)]
    rfl

theorem filterMap_accepted?_recordedSlots (hunks : List Hunk) :
    (recordedSlots hunks).filterMap Slot.accepted? = hunks.map fun h => .whole h h.origin := by
  induction hunks with
  | nil => rfl
  | cons h hunks ih => exact congrArg _ ih

theorem loosest_recorded (hunks : List Hunk) :
    Fit.loosest (.shifted 0) (hunks.map fun h => (Placement.whole h h.origin).fit) =
      .shifted 0 := by
  induction hunks with
  | nil => rfl
  | cons h hunks ih =>
    rw [List.map_cons, Fit.loosest, List.foldl_cons]
    simpa [Placement.whole, Fit.looser, Text.signed, Fit.loosest] using ih

/-- **The hunks between two texts make the second from the first**, under every
tolerance and without moving a hunk. -/
theorem of_hunksBetween (old new : String) (context : Nat) (tolerance : Tolerance) :
    of old (hunksBetween old new context) tolerance =
      ⟨new, .shifted 0, (hunksBetween old new context).length, []⟩ := by
  have recorded := recorded_hunksBetween old new context
  generalize hunksBetween old new context = hunks at recorded
  have exact : slots (Text.lines old).toArray hunks tolerance = recordedSlots hunks := by
    rw [slots, placeShifted_of_recorded recorded (Nat.zero_le _) (by simp)]
    exact fillGaps_of_placed (by simp [recordedSlots, Slot.accepted?, Placement.whole])
  have out : splice (Text.lines old).toArray 0 (recordedSlots hunks) = Text.lines new :=
    splice_of_recorded recorded (by simp)
  simp only [of, exact, out, report, filterMap_accepted?_recordedSlots, List.map_map,
    Function.comp_def, loosest_recorded, List.length_map, Text.join_lines]
  simp [recordedSlots, Slot.accepted?, Placement.whole]

end HunkRun

end

/-! ## Hunks that drift -/

/-- A hunk, and the line of the file at which its old side stands. -/
structure Moved where
  hunk : Hunk
  place : Nat

namespace Moved

/-- The line after the old side. -/
def stop (m : Moved) : Nat := m.place + m.hunk.oldSide.length

/-- How far the old side stands from the recorded position. -/
def drift (m : Moved) : Int := (m.place : Int) - (m.hunk.origin : Int)

/-- Where the hunk is put. -/
def placement (m : Moved) : Placement := .whole m.hunk m.place

/-- The slot of the hunk. -/
def slot (m : Moved) : Slot := (m.hunk, some m.placement)

theorem accepted?_slot (m : Moved) : m.slot.accepted? = some m.placement := rfl

/-- **Hunks that drift steadily.**  Each one's old side stands at its place and nowhere
else in the file, the places come one after another from `line` on, and the drift
changes by no more than the largest displacement from one hunk to the next, the first
of them being compared with `drift₀`. -/
structure Steady (lines : List String) (line : Nat) (drift₀ : Int) (moves : List Moved) : Prop where
  nonempty : ∀ m ∈ moves, m.hunk.oldSide ≠ []
  unique : ∀ m ∈ moves, ∀ i, m.hunk.oldSide <+: lines.drop i ↔ i = m.place
  first : ∀ m ∈ moves.head?, line ≤ m.place ∧ (m.drift - drift₀).natAbs ≤ maxDisplacement
  apart : moves.IsChain fun a b => a.stop ≤ b.place
  steady : moves.IsChain fun a b => (b.drift - a.drift).natAbs ≤ maxDisplacement
  /-- Positions are told apart in signed words. -/
  counted : ∀ m ∈ moves, Text.IsSigned m.place ∧ Text.IsSigned m.hunk.origin

/-- **Lines with the old sides replaced by the new ones.**  `xs` are a file's lines from
index `line` on. -/
inductive Replaced : Nat → List String → List Moved → List String → Prop
  | kept (line : Nat) (xs : List String) : Replaced line xs [] xs
  | hunk {line : Nat} {gap rest ys : List String} {m : Moved} {ms : List Moved}
      (place : m.place = line + gap.length) (after : Replaced m.stop rest ms ys) :
      Replaced line (gap ++ (m.hunk.oldSide ++ rest)) (m :: ms) (gap ++ (m.hunk.newSide ++ ys))

variable {lines : List String} {line : Nat} {drift₀ : Int} {m : Moved} {rest : List Moved}

/-- What is steady stays so behind its first hunk. -/
theorem Steady.tail (h : Steady lines line drift₀ (m :: rest)) :
    Steady lines m.stop m.drift rest where
  nonempty := (List.forall_mem_cons.mp h.nonempty).2
  unique := (List.forall_mem_cons.mp h.unique).2
  first next hnext := ⟨(List.isChain_cons.mp h.apart).1 next hnext,
    (List.isChain_cons.mp h.steady).1 next hnext⟩
  apart := (List.isChain_cons.mp h.apart).2
  steady := (List.isChain_cons.mp h.steady).2
  counted := (List.forall_mem_cons.mp h.counted).2

/-- The first hunk's old side stands at its place. -/
theorem Steady.stands (h : Steady lines line drift₀ (m :: rest)) :
    ∃ after, lines.drop m.place = m.hunk.oldSide ++ after := by
  obtain ⟨after, hafter⟩ := ((List.forall_mem_cons.mp h.unique).1 m.place).mpr rfl
  exact ⟨after, hafter.symm⟩

theorem Steady.stop_le (h : Steady lines line drift₀ (m :: rest)) : m.stop ≤ lines.length := by
  obtain ⟨after, hafter⟩ := h.stands
  have length := congrArg List.length hafter
  rw [List.length_drop, List.length_append] at length
  have nonempty := List.length_pos_iff.mpr (List.forall_mem_cons.mp h.nonempty).1
  unfold stop
  omega

/-- The drift of a hunk at a signed word is told by the placement as it is. -/
theorem signed_drift (counted : Text.IsSigned m.place ∧ Text.IsSigned m.hunk.origin) :
    Text.signed m.drift = m.drift :=
  Text.signed_sub counted.1 counted.2

theorem isSigned_natAbs_drift (counted : Text.IsSigned m.place ∧ Text.IsSigned m.hunk.origin) :
    Text.IsSigned m.drift.natAbs := by
  unfold Text.IsSigned at counted ⊢
  unfold drift
  omega

theorem displacement_placement
    (counted : Text.IsSigned m.place ∧ Text.IsSigned m.hunk.origin) :
    m.placement.displacement m.hunk = m.drift := by
  have same : m.placement.displacement m.hunk = Text.signed m.drift := by
    simp [Placement.displacement, placement, Placement.whole, drift]
  rw [same, signed_drift counted]

/-- A hunk is near the position at which the drift of the one before lets expect it. -/
theorem gap_displaced_le
    (counted : Text.IsSigned m.place ∧ Text.IsSigned m.hunk.origin)
    (near : (m.drift - drift₀).natAbs ≤ maxDisplacement) :
    gap m.place (displaced m.hunk.origin drift₀) ≤ maxDisplacement := by
  unfold Text.IsSigned at counted
  unfold Moved.drift at near
  unfold gap displaced
  split
  · omega
  · omega

/-- **The search finds the next hunk at its place.** -/
theorem nearest_of_steady {lines : Array String} (h : Steady lines.toList line drift₀ (m :: rest)) :
    Placement.nearest lines line lines.size (displaced m.hunk.origin drift₀) m.hunk.oldSide =
      some m.place := by
  obtain ⟨after, hafter⟩ := h.stands
  obtain ⟨order, near⟩ := h.first m rfl
  have inside : m.place + m.hunk.oldSide.length ≤ lines.size := h.stop_le
  refine Placement.nearest_eq_of_unique ?_ fun other found => ?_
  · exact {
      lower_le := order
      stop_le := by omega
      stands := windowAt_of_drop hafter
      near := gap_displaced_le (List.forall_mem_cons.mp h.counted).1 near }
  · -- wherever the old side stands, it is the start of what is left of the file
    refine ((List.forall_mem_cons.mp h.unique).1 other).mp ?_
    have stands := found.stands
    rw [windowAt_eq] at stands
    rw [← stands]
    exact List.take_prefix _ _

/-! ## The run over the file -/

theorem placeShifted_of_steady {lines : Array String} {moves : List Moved}
    (h : Steady lines.toList line drift₀ moves) :
    HunkRun.placeShifted lines line drift₀ (moves.map hunk) = moves.map slot := by
  induction moves generalizing line drift₀ with
  | nil => rfl
  | cons m rest ih =>
    rw [List.map_cons, HunkRun.placeShifted, nearest_of_steady h]
    -- the next hunk is looked for behind this one, and as far off
    have next : (Placement.whole m.hunk m.place).displacement m.hunk = m.drift :=
      displacement_placement (List.forall_mem_cons.mp h.counted).1
    simp only [next]
    exact congrArg _ (ih h.tail)

/-- The lines of the result are the file's with each old side replaced. -/
theorem replaced_splice (lines : Array String) {moves : List Moved}
    (h : Steady lines.toList line drift₀ moves) :
    Replaced line (lines.toList.drop line) moves (HunkRun.splice lines line (moves.map slot)) := by
  induction moves generalizing line drift₀ with
  | nil =>
    rw [List.map_nil, HunkRun.splice_nil]
    exact .kept line _
  | cons m rest ih =>
    obtain ⟨after, hafter⟩ := h.stands
    obtain ⟨order, -⟩ := h.first m rfl
    have inside : m.place + m.hunk.oldSide.length ≤ lines.size := h.stop_le
    have distance : line + (m.place - line) = m.place := Nat.add_sub_cancel' order
    have gap : (windowAt lines line (m.place - line)).length = m.place - line :=
      length_windowAt (by omega)
    have window : windowAt lines m.place m.hunk.oldSide.length = m.hunk.oldSide :=
      windowAt_of_drop hafter
    have made : HunkRun.replacement m.hunk.lines m.hunk.oldSide = m.hunk.newSide :=
      HunkRun.replacement_old m.hunk.lines
    have spliced : HunkRun.splice lines line ((m :: rest).map slot) =
        windowAt lines line (m.place - line) ++
          (m.hunk.newSide ++ HunkRun.splice lines m.stop (rest.map slot)) := by
      show windowAt lines line (m.place - line) ++
        (HunkRun.replacement m.hunk.lines (windowAt lines m.place m.hunk.oldSide.length) ++
          HunkRun.splice lines m.stop (rest.map slot)) = _
      rw [window, made]
    have behind : lines.toList.drop m.place = m.hunk.oldSide ++ lines.toList.drop m.stop := by
      rw [HunkRun.drop_eq_windowAt_append lines m.place m.hunk.oldSide.length, window]
      rfl
    rw [spliced, HunkRun.drop_eq_windowAt_append lines line (m.place - line), distance, behind]
    exact .hunk (by rw [gap, distance]) (ih h.tail)

/-- **What a run over drifted hunks comes to.**  Every hunk goes to its place, and none
fails. -/
structure Followed (text : String) (moves : List Moved) (run : HunkRun) : Prop where
  placed : HunkRun.slots (Text.lines text).toArray (moves.map hunk) .shifted = moves.map slot
  failed : run.failed = []
  applied : run.applied = moves.length
  /-- The result is the file with each old side replaced by the new one. -/
  content : ∃ out, Replaced 0 (Text.lines text) moves out ∧ run.content = Text.join out
  /-- The fit is the drift of a hunk that no other one exceeds. -/
  fit : ∃ drift : Int, run.fit = .shifted drift ∧
    (moves = [] ∧ drift = 0 ∨ ∃ m ∈ moves, m.drift = drift) ∧
    ∀ m ∈ moves, m.drift.natAbs ≤ drift.natAbs

/-- **Drift is followed however far it leads**, as long as it changes by no more than the
largest displacement from one hunk to the next. -/
theorem followed_of_steady (text : String) (moves : List Moved)
    (h : Steady (Text.lines text) 0 0 moves) :
    Followed text moves (HunkRun.of text (moves.map hunk) .shifted) := by
  have exact : HunkRun.placeShifted (Text.lines text).toArray 0 0 (moves.map hunk) =
      moves.map slot := placeShifted_of_steady h
  have placed : HunkRun.slots (Text.lines text).toArray (moves.map hunk) .shifted =
      moves.map slot := by
    rw [HunkRun.slots, exact]
    exact HunkRun.fillGaps_of_placed (List.forall_mem_map.mpr fun m _ => rfl)
  have accepted : (moves.map slot).filterMap Slot.accepted? = moves.map placement := by
    rw [List.filterMap_map]
    exact congrFun List.filterMap_eq_map moves
  have fits : (moves.map placement).map Placement.fit = (moves.map drift).map Fit.shifted := by
    rw [List.map_map, List.map_map]
    exact List.map_congr_left fun m hm => congrArg Fit.shifted (signed_drift (h.counted m hm))
  have run : HunkRun.of text (moves.map hunk) .shifted =
      HunkRun.report (moves.map slot)
        (HunkRun.splice (Text.lines text).toArray 0 (moves.map slot)) := by
    rw [HunkRun.of, placed]
  rw [run]
  have signed : ∀ o ∈ 0 :: moves.map drift, Text.IsSigned o.natAbs :=
    List.forall_mem_cons.mpr ⟨by decide, List.forall_mem_map.mpr fun m hm =>
      isSigned_natAbs_drift (h.counted m hm)⟩
  obtain ⟨offset, loosest, among, -, furthest⟩ := Fit.loosest_shifted signed
  exact {
    placed := placed
    failed := by simp [HunkRun.report, accepted?_slot]
    applied := by rw [HunkRun.report, accepted, List.length_map]
    content := ⟨_, replaced_splice (Text.lines text).toArray h, rfl⟩
    fit := by
      refine ⟨offset, ?_, ?_, List.forall_mem_map.mp furthest⟩
      · rw [HunkRun.report, accepted, fits, loosest]
      · cases moves with
        | nil => exact .inl ⟨rfl, among.resolve_right List.not_mem_nil⟩
        | cons m rest =>
          rcases among with rfl | among
          · -- no hunk lies further off than not at all
            have here := furthest m.drift (List.mem_map_of_mem List.mem_cons_self)
            exact .inr ⟨m, List.mem_cons_self, by omega⟩
          · exact .inr (List.mem_map.mp among) }

/-- Two hunks over a file that has grown in front and shrunk further down: the first
stands two lines below its recorded position, the second three above. -/
def strayed : List Moved :=
  [⟨⟨⟨1, 1⟩, ⟨1, 1⟩, [.delete "a\n", .insert "x\n"]⟩, 2⟩,
    ⟨⟨⟨7, 2⟩, ⟨7, 1⟩, [.context "b\n", .delete "c\n"]⟩, 3⟩]

theorem steady_strayed : Steady (Text.lines "p\nq\na\nb\nc\n") 0 0 strayed := by
  have lines : Text.lines "p\nq\na\nb\nc\n" = ["p\n", "q\n", "a\n", "b\n", "c\n"] := by
    decide +kernel
  rw [lines]
  refine ⟨by decide, ?_, by decide, by decide, by decide, by decide +kernel⟩
  intro m hm i
  rcases List.mem_pair.mp hm with rfl | rfl <;>
    rcases i with _ | _ | _ | _ | _ | i <;>
      simp [Hunk.oldSide, List.filterMap_cons, PatchLine.old?]

theorem followed_strayed :
    Steady (Text.lines "p\nq\na\nb\nc\n") 0 0 strayed ∧
      Followed "p\nq\na\nb\nc\n" strayed
        (HunkRun.of "p\nq\na\nb\nc\n" (strayed.map hunk) .shifted) ∧
      HunkRun.of "p\nq\na\nb\nc\n" (strayed.map hunk) .shifted =
        ⟨"p\nq\nx\nb\n", .shifted (-3), 2, []⟩ :=
  ⟨steady_strayed, followed_of_steady _ _ steady_strayed, by decide +kernel⟩

end Moved
end Patchwork
