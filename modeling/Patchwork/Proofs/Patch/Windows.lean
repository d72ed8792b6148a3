import Patchwork.Patch.HunkRun
import Patchwork.Proofs.Patch.Search

/-! Where hunks are put.  The slots that a run fills keep one invariant through both
of its passes: their placements lie one after another inside the file (`Ordered`).
The exact pass gives it because each search starts where the placement before it ends
(`ordered_placeShifted`), and filling the gaps keeps it because a loose placement
ends before the next exact one begins (`ordered_fillGaps`).  With it every line of
the file falls into one window or between two (`spliced_splice`).  What each
placement rests on is said by `Justified`. -/

namespace Patchwork

theorem windowAt_eq (lines : Array String) (start length : Nat) :
    windowAt lines start length = (lines.toList.drop start).take length := by
  simp [windowAt, List.extract_eq_take_drop]

namespace Placement

/-! ## What a placement rests on -/

/-- **What a placement rests on.**  An exact one puts the whole hunk where its old side
stands.  One with fuzz puts the hunk without some outer context lines, no more of them
than allowed, where the old side of what is left stands.  A similar one puts the whole
hunk at a window whose likeness is its score, and is accepted when that reaches the
least score. -/
def Justified (lines : Array String) (tolerance : Tolerance) (h : Hunk) (p : Placement) : Prop :=
  p.window = (p.body.filterMap PatchLine.old?).length ∧
    match p.fit with
    | .shifted _ => p.accepted ∧ p.body = h.lines ∧ windowAt lines p.start p.window = h.oldSide
    | .trimmed fuzz => p.accepted ∧
      (∃ maxFuzz, tolerance = .trimmed maxFuzz ∧ 1 ≤ fuzz ∧ fuzz ≤ maxFuzz) ∧
      (∃ front back, h.lines = front ++ (p.body ++ back) ∧
        front.length ≤ fuzz ∧ back.length ≤ fuzz ∧ ∀ l ∈ front ++ back, l.isContext) ∧
      windowAt lines p.start p.window = p.body.filterMap PatchLine.old?
    | .similar score => p.body = h.lines ∧
      score = windowLikeness (windowAt lines p.start p.window) h.oldSide ∧
      ∃ minScore, tolerance = .similar minScore ∧ (p.accepted ↔ minScore ≤ score)

variable {lines : Array String} {lower upper expected : Nat} {h : Hunk} {p : Placement}

theorem justified_whole {start : Nat} (tolerance : Tolerance)
    (stands : windowAt lines start h.oldSide.length = h.oldSide) :
    (whole h start).Justified lines tolerance h :=
  ⟨rfl, rfl, rfl, stands⟩

theorem isContext_of_mem_take {ls : List PatchLine} {n : Nat}
    (hn : n ≤ (ls.takeWhile PatchLine.isContext).length) {l : PatchLine} (hl : l ∈ ls.take n) :
    l.isContext := by
  have split := List.takeWhile_append_dropWhile (p := PatchLine.isContext) (l := ls)
  rw [← split, List.take_append_of_le_length hn] at hl
  exact List.all_eq_true.mp List.all_takeWhile l (List.mem_of_mem_take hl)

/-- Nothing is left when as many lines are dropped as there are. -/
theorem trimmedBody_eq_nil {front back : Nat} (full : h.lines.length ≤ front + back) :
    trimmedBody h front back = [] := by
  rw [trimmedBody, List.drop_eq_nil_iff, List.length_take]
  omega

/-- Dropping context lines leaves a middle part of the hunk, unless nothing is left. -/
theorem lines_eq_trimmedBody {front back : Nat} (hfront : front ≤ h.leading)
    (hback : back ≤ h.trailing) (nonempty : trimmedBody h front back ≠ []) :
    ∃ before after, h.lines = before ++ (trimmedBody h front back ++ after) ∧
      before.length = front ∧ after.length = back ∧ ∀ l ∈ before ++ after, l.isContext := by
  have room : front ≤ h.lines.length - back := by
    have := List.length_pos_iff.mpr nonempty
    simp only [trimmedBody, List.length_drop, List.length_take] at this
    omega
  have inside : h.trailing ≤ h.lines.length := by
    rw [← h.lines.length_reverse]
    exact (List.takeWhile_prefix _).length_le
  refine ⟨h.lines.take front, h.lines.drop (h.lines.length - back), ?_, ?_, ?_, ?_⟩
  · have kept := List.take_append_drop front (h.lines.take (h.lines.length - back))
    rw [List.take_take, Nat.min_eq_left room] at kept
    rw [trimmedBody, ← List.append_assoc, kept, List.take_append_drop]
  · rw [List.length_take]
    omega
  · rw [List.length_drop]
    omega
  · intro l hl
    rcases List.mem_append.mp hl with hl | hl
    · exact isContext_of_mem_take hfront hl
    · rw [← List.mem_reverse, List.reverse_drop, Nat.sub_sub_self (by omega)] at hl
      exact isContext_of_mem_take hback hl

theorem bounds_loose {tolerance : Tolerance}
    (hp : loose lines lower upper expected h tolerance = some p) :
    lower ≤ p.start ∧ p.stop ≤ min upper lines.size := by
  cases tolerance with
  | shifted => cases hp
  | similar minScore =>
    obtain ⟨found, hfound, rfl⟩ := Option.map_eq_some_iff.mp hp
    have := of_mostSimilar hfound
    exact ⟨this.1, this.2.1⟩
  | trimmed maxFuzz =>
    obtain ⟨fuzz, -, hfuzz⟩ := List.exists_of_findSome?_eq_some hp
    simp only [withFuzz] at hfuzz
    split at hfuzz
    · cases hfuzz
    · obtain ⟨start, hstart, rfl⟩ := Option.map_eq_some_iff.mp hfuzz
      have := standsIn_of_nearest hstart
      exact ⟨this.lower_le, this.stop_le⟩

theorem justified_loose {tolerance : Tolerance}
    (hp : loose lines lower upper expected h tolerance = some p) :
    p.Justified lines tolerance h := by
  cases tolerance with
  | shifted => cases hp
  | similar minScore =>
    obtain ⟨found, hfound, rfl⟩ := Option.map_eq_some_iff.mp hp
    exact ⟨rfl, rfl, (of_mostSimilar hfound).2.2, minScore, rfl, decide_eq_true_iff⟩
  | trimmed maxFuzz =>
    obtain ⟨fuzz, hmem, hfuzz⟩ := List.exists_of_findSome?_eq_some hp
    simp only [withFuzz] at hfuzz
    split at hfuzz
    · cases hfuzz
    · rename_i nonempty
      obtain ⟨start, hstart, rfl⟩ := Option.map_eq_some_iff.mp hfuzz
      have body : trimmedBody h (min fuzz h.leading) (min fuzz h.trailing) ≠ [] := by
        intro hnil
        exact nonempty (by rw [hnil]; rfl)
      obtain ⟨before, after, split, hbefore, hafter, outer⟩ :=
        lines_eq_trimmedBody (Nat.min_le_right _ _) (Nat.min_le_right _ _) body
      have range := List.mem_range'_1.mp hmem
      refine ⟨rfl, rfl, ⟨maxFuzz, rfl, range.1, by omega⟩, ⟨before, after, split, ?_, ?_, outer⟩,
        (standsIn_of_nearest hstart).stands⟩
      · exact hbefore ▸ Nat.min_le_left _ _
      · exact hafter ▸ Nat.min_le_left _ _

end Placement

namespace Slot

/-- What the slot's placement rests on, if it has one. -/
def Justified (lines : Array String) (tolerance : Tolerance) (slot : Slot) : Prop :=
  ∀ p, slot.2 = some p → p.Justified lines tolerance slot.1

theorem accepted?_eq_some_iff {slot : Slot} {p : Placement} :
    slot.accepted? = some p ↔ slot.2 = some p ∧ p.accepted :=
  Option.filter_eq_some_iff

end Slot

namespace HunkRun
variable {lines : Array String} {tolerance : Tolerance}

/-! ## Placements one after another -/

/-- **The invariant of the slots.**  Every placement lies inside the file, after line
`cursor` and after the placements in front of it, whether its hunk is applied or it
only keeps its lines. -/
def Ordered (size : Nat) : Nat → List Slot → Prop
  | cursor, [] => cursor ≤ size
  | cursor, (_, none) :: rest => Ordered size cursor rest
  | cursor, (_, some p) :: rest => cursor ≤ p.start ∧ Ordered size p.stop rest

theorem Ordered.le_size {size cursor : Nat} {slots : List Slot} (h : Ordered size cursor slots) :
    cursor ≤ size := by
  fun_induction Ordered size cursor slots with
  | case1 => exact h
  | case2 cursor _ rest ih => exact ih h
  | case3 cursor _ p rest ih =>
    have := ih h.2
    have := h.1
    simp only [Placement.stop] at *
    omega

theorem Ordered.le_nextStart {cursor : Nat} {slots : List Slot}
    (h : Ordered lines.size cursor slots) : cursor ≤ nextStart lines slots := by
  fun_induction Ordered lines.size cursor slots with
  | case1 => exact h
  | case2 cursor _ rest ih => exact ih h
  | case3 cursor _ p rest => exact h.1

/-- The slots stay in order from any line on that does not lie behind the first
placement. -/
theorem Ordered.from {cursor line : Nat} {slots : List Slot}
    (h : Ordered lines.size cursor slots) (hline : line ≤ nextStart lines slots) :
    Ordered lines.size line slots := by
  fun_induction Ordered lines.size cursor slots with
  | case1 => exact hline
  | case2 cursor _ rest ih => exact ih h hline
  | case3 cursor _ p rest => exact ⟨hline, h.2⟩

theorem Ordered.of_le {cursor line : Nat} {slots : List Slot}
    (h : Ordered lines.size cursor slots) (hline : line ≤ cursor) :
    Ordered lines.size line slots :=
  h.from (Nat.le_trans hline h.le_nextStart)

theorem Ordered.tail {cursor : Nat} {slot : Slot} {rest : List Slot}
    (h : Ordered lines.size cursor (slot :: rest)) : Ordered lines.size cursor rest := by
  obtain ⟨hunk, place⟩ := slot
  cases place with
  | none => exact h
  | some p => exact h.2.of_le (Nat.le_trans h.1 (Nat.le_add_right _ _))

theorem ordered_placeShifted {cursor : Nat} (hcursor : cursor ≤ lines.size) (displacement : Int)
    (hunks : List Hunk) : Ordered lines.size cursor (placeShifted lines cursor displacement hunks) := by
  fun_induction placeShifted lines cursor displacement hunks with
  | case1 => exact hcursor
  | case2 cursor displacement h rest start found p ih =>
    have place := Placement.standsIn_of_nearest found
    exact ⟨place.lower_le, ih (Nat.le_trans place.stop_le (Nat.min_le_right _ _))⟩
  | case3 cursor displacement h rest found ih => exact ih hcursor

/-- Filling the gaps keeps the order: a loose placement goes between the placement
before it and the next exact one. -/
theorem ordered_fillGaps {lower : Nat} (displacement : Int) {slots : List Slot}
    (h : Ordered lines.size lower slots) :
    Ordered lines.size lower (fillGaps lines tolerance lower displacement slots) := by
  fun_induction fillGaps lines tolerance lower displacement slots with
  | case1 => exact h
  | case2 lower displacement hunk p rest ih => exact ⟨h.1, ih h.2⟩
  | case3 lower displacement hunk rest p found ih =>
    have bounds := Placement.bounds_loose found
    exact ⟨bounds.1, ih (Ordered.from h (Nat.le_trans bounds.2 (Nat.min_le_left _ _)))⟩
  | case4 lower displacement hunk rest found ih => exact ih h

theorem ordered_slots (lines : Array String) (hunks : List Hunk) (tolerance : Tolerance) :
    Ordered lines.size 0 (slots lines hunks tolerance) :=
  ordered_fillGaps 0 (ordered_placeShifted (Nat.zero_le _) 0 hunks)

/-- The windows of applied hunks, in the order of the hunks. -/
theorem Ordered.of_mem {size cursor : Nat} {slots : List Slot} (h : Ordered size cursor slots)
    {p : Placement} (hp : p ∈ slots.filterMap Slot.accepted?) : cursor ≤ p.start ∧ p.stop ≤ size := by
  fun_induction Ordered size cursor slots with
  | case1 => cases hp
  | case2 cursor hunk rest ih => exact ih h hp
  | case3 cursor hunk q rest ih =>
    obtain ⟨slot, hslot, haccepted⟩ := List.mem_filterMap.mp hp
    rcases List.mem_cons.mp hslot with rfl | hrest
    · obtain rfl := Option.some.inj (Slot.accepted?_eq_some_iff.mp haccepted).1
      exact ⟨h.1, h.2.le_size⟩
    · have later := ih h.2 (List.mem_filterMap.mpr ⟨slot, hrest, haccepted⟩)
      have := h.1
      simp only [Placement.stop] at *
      omega

theorem Ordered.pairwise {size cursor : Nat} {slots : List Slot} (h : Ordered size cursor slots) :
    (slots.filterMap Slot.accepted?).Pairwise fun p q => p.stop ≤ q.start := by
  fun_induction Ordered size cursor slots with
  | case1 => exact .nil
  | case2 cursor hunk rest ih => exact ih h
  | case3 cursor hunk p rest ih =>
    rw [List.filterMap_cons]
    split
    · exact ih h.2
    · rename_i q haccepted
      obtain rfl := Option.some.inj (Slot.accepted?_eq_some_iff.mp haccepted).1
      exact .cons (fun r hr => (h.2.of_mem hr).1) (ih h.2)

/-! ## What the slots say of their hunks -/

theorem map_fst_placeShifted (cursor : Nat) (displacement : Int) (hunks : List Hunk) :
    (placeShifted lines cursor displacement hunks).map Prod.fst = hunks := by
  fun_induction placeShifted lines cursor displacement hunks with
  | case1 => rfl
  | case2 cursor displacement h rest start found p ih => rw [List.map_cons, ih]
  | case3 cursor displacement h rest found ih => rw [List.map_cons, ih]

theorem map_fst_fillGaps (lower : Nat) (displacement : Int) (slots : List Slot) :
    (fillGaps lines tolerance lower displacement slots).map Prod.fst = slots.map Prod.fst := by
  fun_induction fillGaps lines tolerance lower displacement slots with
  | case1 => rfl
  | case2 lower displacement h p rest ih => rw [List.map_cons, ih, List.map_cons]
  | case3 lower displacement h rest p found ih => rw [List.map_cons, ih, List.map_cons]
  | case4 lower displacement h rest found ih => rw [List.map_cons, ih, List.map_cons]

/-- The slots are those of the hunks, in order. -/
theorem map_fst_slots (lines : Array String) (hunks : List Hunk) (tolerance : Tolerance) :
    (slots lines hunks tolerance).map Prod.fst = hunks := by
  rw [slots, map_fst_fillGaps, map_fst_placeShifted]

/-- There is no gap to fill when every hunk has its place. -/
theorem fillGaps_of_placed {tolerance : Tolerance} {lower : Nat} {displacement : Int}
    {slots : List Slot} (h : ∀ slot ∈ slots, slot.accepted?.isSome) :
    fillGaps lines tolerance lower displacement slots = slots := by
  fun_induction fillGaps lines tolerance lower displacement slots with
  | case1 => rfl
  | case2 lower displacement hunk p rest ih =>
    rw [ih (List.forall_mem_cons.mp h).2]
  | case3 lower displacement hunk rest => cases (List.forall_mem_cons.mp h).1
  | case4 lower displacement hunk rest => cases (List.forall_mem_cons.mp h).1

theorem justified_placeShifted (cursor : Nat) (displacement : Int) (hunks : List Hunk) :
    ∀ slot ∈ placeShifted lines cursor displacement hunks, slot.Justified lines tolerance := by
  fun_induction placeShifted lines cursor displacement hunks with
  | case1 => exact nofun
  | case2 cursor displacement h rest start found p ih =>
    refine List.forall_mem_cons.mpr ⟨?_, ih⟩
    rintro q ⟨⟩
    exact Placement.justified_whole tolerance (Placement.standsIn_of_nearest found).stands
  | case3 cursor displacement h rest found ih =>
    exact List.forall_mem_cons.mpr ⟨nofun, ih⟩

theorem justified_fillGaps {lower : Nat} {displacement : Int} {slots : List Slot}
    (h : ∀ slot ∈ slots, slot.Justified lines tolerance) :
    ∀ slot ∈ fillGaps lines tolerance lower displacement slots, slot.Justified lines tolerance := by
  fun_induction fillGaps lines tolerance lower displacement slots with
  | case1 => exact h
  | case2 lower displacement hunk p rest ih =>
    obtain ⟨first, others⟩ := List.forall_mem_cons.mp h
    exact List.forall_mem_cons.mpr ⟨first, ih others⟩
  | case3 lower displacement hunk rest p found ih =>
    refine List.forall_mem_cons.mpr ⟨?_, ih (List.forall_mem_cons.mp h).2⟩
    rintro q ⟨⟩
    exact Placement.justified_loose found
  | case4 lower displacement hunk rest found ih =>
    exact List.forall_mem_cons.mpr ⟨nofun, ih (List.forall_mem_cons.mp h).2⟩

theorem justified_slots (lines : Array String) (hunks : List Hunk) (tolerance : Tolerance) :
    ∀ slot ∈ slots lines hunks tolerance, slot.Justified lines tolerance :=
  justified_fillGaps (justified_placeShifted 0 0 hunks)

/-! ## The text with its windows replaced -/

/-- **Putting a hunk's lines over a window.**  A context line lets the file's own line
stand, a deletion takes one line of the window away, an insertion adds its own; the
window is used up when the hunk's lines are. -/
inductive Put : List PatchLine → List String → List String → Prop
  | done : Put [] [] []
  | context (text line : String) {body : List PatchLine} {window out : List String} :
      Put body window out → Put (.context text :: body) (line :: window) (line :: out)
  | delete (text line : String) {body : List PatchLine} {window out : List String} :
      Put body window out → Put (.delete text :: body) (line :: window) out
  | insert (text : String) {body : List PatchLine} {window out : List String} :
      Put body window out → Put (.insert text :: body) window (text :: out)

theorem put_replacement {body : List PatchLine} {window : List String}
    (h : window.length = (body.filterMap PatchLine.old?).length) :
    Put body window (replacement body window) := by
  fun_induction replacement body window with
  | case1 window => exact (List.length_eq_zero_iff.mp h) ▸ .done
  | case2 text body ih => cases h
  | case3 text body line window ih => exact .context text line (ih (Nat.succ.inj h))
  | case4 text body window ih =>
    cases window with
    | nil => cases h
    | cons line window => exact .delete text line (ih (Nat.succ.inj h))
  | case5 text body window ih => exact .insert text (ih h)

/-- **A text with windows replaced.**  `xs` are a file's lines from index `line` on.  The
placements come in order; the lines in front of a window are kept, and over the
window stands what its hunk's lines make of it. -/
inductive Spliced : Nat → List String → List Placement → List String → Prop
  | kept (line : Nat) (xs : List String) : Spliced line xs [] xs
  | window {line : Nat} {gap window out rest ys : List String} {p : Placement}
      {ps : List Placement} (start : p.start = line + gap.length)
      (covers : p.window = window.length) (put : Put p.body window out)
      (after : Spliced p.stop rest ps ys) :
      Spliced line (gap ++ (window ++ rest)) (p :: ps) (gap ++ (out ++ ys))

theorem drop_eq_windowAt_append (lines : Array String) (start length : Nat) :
    lines.toList.drop start =
      windowAt lines start length ++ lines.toList.drop (start + length) := by
  rw [windowAt_eq, ← List.drop_drop, List.take_append_drop]

/-- Behind the last window the file's lines stand as they are. -/
theorem splice_nil (lines : Array String) (cursor : Nat) :
    splice lines cursor [] = lines.toList.drop cursor := by
  rw [splice, Array.toList_extract, List.extract_eq_take_drop, List.take_of_length_le (by simp)]

/-- The lines of the result are those of the file with the accepted windows replaced. -/
theorem spliced_splice {cursor : Nat} {slots : List Slot}
    (ordered : Ordered lines.size cursor slots)
    (justified : ∀ slot ∈ slots, slot.Justified lines tolerance) :
    Spliced cursor (lines.toList.drop cursor) (slots.filterMap Slot.accepted?)
      (splice lines cursor slots) := by
  fun_induction splice lines cursor slots with
  | case1 cursor =>
    rw [← splice, splice_nil]
    exact .kept cursor _
  | case2 cursor slot rest rejected ih =>
    rw [List.filterMap_cons_none rejected]
    exact ih ordered.tail (List.forall_mem_cons.mp justified).2
  | case3 cursor slot rest p accepted ih =>
    obtain ⟨hunk, place⟩ := slot
    obtain ⟨rfl, -⟩ := Slot.accepted?_eq_some_iff.mp accepted
    obtain ⟨first, others⟩ := List.forall_mem_cons.mp justified
    obtain ⟨hstart, hrest⟩ := ordered
    have hstop : p.start + p.window ≤ lines.size := hrest.le_size
    have gap : (windowAt lines cursor (p.start - cursor)).length = p.start - cursor :=
      length_windowAt (by omega)
    have window : (windowAt lines p.start p.window).length = p.window := length_windowAt hstop
    -- the rest of the file is what stands before the window, the window, and what is after it
    rw [List.filterMap_cons_some accepted, drop_eq_windowAt_append lines cursor (p.start - cursor),
      Nat.add_sub_cancel' hstart, drop_eq_windowAt_append lines p.start p.window]
    exact .window (by rw [gap, Nat.add_sub_cancel' hstart]) window.symm
      (put_replacement (window.trans (first p rfl).1)) (ih hrest others)

end HunkRun
end Patchwork
