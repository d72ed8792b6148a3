import Patchwork.Proofs.Patch.Windows

/-! The run that checks its slices.  `windowAt` cuts short what reaches past the end of
a file, which would hide a window that does not fit.  Here the same run is written
with slices that exist only inside their list (`slice?`), so that it comes to nothing
as soon as one of them is out of range: the windows that the searches compare, the
part of a hunk that is left when context is dropped, and the lines that the result is
put together from.  It never comes to nothing and gives the same (`run_eq_some`). -/

namespace Patchwork.Checked
variable {α β : Type}

/-- The items from `start` to `stop`, if this is a range of the list. -/
def slice? (xs : List α) (start stop : Nat) : Option (List α) :=
  if start ≤ stop ∧ stop ≤ xs.length then some (xs.extract start stop) else none

theorem slice?_eq_some {xs : List α} {start stop : Nat} (order : start ≤ stop)
    (inside : stop ≤ xs.length) : slice? xs start stop = some (xs.extract start stop) :=
  if_pos ⟨order, inside⟩

/-- A window inside the file is a slice of it. -/
theorem slice?_eq_windowAt {lines : Array String} {start length : Nat}
    (inside : start + length ≤ lines.size) :
    slice? lines.toList start (start + length) = some (windowAt lines start length) := by
  rw [slice?_eq_some (Nat.le_add_right _ _) inside, windowAt, Array.toList_extract]

/-! ## Searches that may fail -/

theorem findM?_eq_some {f : α → Option Bool} {g : α → Bool} {xs : List α}
    (h : ∀ x ∈ xs, f x = some (g x)) : xs.findM? f = some (xs.find? g) := by
  induction xs with
  | nil => rfl
  | cons x xs ih =>
    obtain ⟨hx, hxs⟩ := List.forall_mem_cons.mp h
    rw [List.findM?, hx, List.find?_cons, ih hxs]
    cases g x <;> rfl

theorem findSomeM?_eq_some {f : α → Option (Option β)} {g : α → Option β} {xs : List α}
    (h : ∀ x ∈ xs, f x = some (g x)) : xs.findSomeM? f = some (xs.findSome? g) := by
  induction xs with
  | nil => rfl
  | cons x xs ih =>
    obtain ⟨hx, hxs⟩ := List.forall_mem_cons.mp h
    rw [List.findSomeM?_cons, hx, List.findSome?_cons, ih hxs]
    cases g x <;> rfl

theorem foldlM_eq_some {f : β → α → Option β} {g : β → α → β} {xs : List α}
    (h : ∀ b, ∀ x ∈ xs, f b x = some (g b x)) (b : β) : xs.foldlM f b = some (xs.foldl g b) := by
  induction xs generalizing b with
  | nil => rfl
  | cons x xs ih =>
    rw [List.foldlM_cons, h b x List.mem_cons_self]
    exact ih (fun b y hy => h b y (List.mem_cons_of_mem _ hy)) (g b x)

section Searches
variable (lines : Array String) (lower upper expected : Nat)

/-- Whether the wanted lines stand at `start`, not too far from the expected position. -/
def standsAt (wanted : List String) (start : Nat) : Option Bool :=
  if gap start expected ≤ maxDisplacement then
    (slice? lines.toList start (start + wanted.length)).map (· == wanted)
  else some false

/-- The nearest place to `expected` where the wanted lines stand. -/
def nearest (wanted : List String) : Option (Option Nat) :=
  let upper := min upper lines.size
  if lower + wanted.length ≤ upper then
    let last := upper - wanted.length
    let first := max lower (min expected last)
    let reach := min (last - lower) (gap first expected + maxDisplacement)
    (List.range (reach + 1)).findSomeM? fun distance =>
      (Placement.atDistance lower last first distance).findM? (standsAt lines expected wanted)
  else some none

/-- Keeps the better one of the best window so far and the window at `start`. -/
def better (wanted : List String) (best : Option (Nat × Rat)) (start : Nat) :
    Option (Option (Nat × Rat)) :=
  (slice? lines.toList start (start + wanted.length)).map fun window =>
    let value := windowLikeness window wanted
    match best with
    | none => some (start, value)
    | some found =>
      if Placement.improves expected found start value then some (start, value) else best

/-- The window with the highest score between `lower` and `upper`. -/
def mostSimilar (wanted : List String) : Option (Option (Nat × Rat)) :=
  let upper := min upper lines.size
  if wanted = [] ∨ upper - lower < wanted.length then some none
  else
    (List.range' lower (upper - wanted.length - lower + 1)).foldlM (better lines expected wanted) none

/-- The placement of a hunk without `fuzz` context lines at either end. -/
def withFuzz (h : Hunk) (fuzz : Nat) : Option (Option Placement) :=
  let front := min fuzz h.leading
  let back := min fuzz h.trailing
  if h.lines.length ≤ front + back then some none
  else do
    let body ← slice? h.lines front (h.lines.length - back)
    let wanted := body.filterMap PatchLine.old?
    if wanted = [] then some none
    else
      let found ← nearest lines lower upper ((expected + front) % Text.wordLimit) wanted
      return found.map (Placement.partOf body front fuzz)

/-- The placement that a tolerance allows for a hunk that stands nowhere as it is. -/
def loose (h : Hunk) : Tolerance → Option (Option Placement)
  | .shifted => some none
  | .similar minScore =>
    (mostSimilar lines lower upper expected h.oldSide).map (Option.map (Placement.alike h minScore))
  | .trimmed maxFuzz =>
    (List.range' 1 (min maxFuzz (max 1 (max h.leading h.trailing)))).findSomeM?
      (withFuzz lines lower upper expected h)

end Searches

/-- Places each hunk whose old side stands somewhere after line `cursor`. -/
def placeShifted (lines : Array String) : Nat → Int → List Hunk → Option (List Slot)
  | _, _, [] => some []
  | cursor, displacement, h :: rest => do
    match ← nearest lines cursor lines.size (displaced h.origin displacement) h.oldSide with
    | some start =>
      let p := Placement.whole h start
      return (h, some p) :: (← placeShifted lines p.stop (p.displacement h) rest)
    | none => return (h, none) :: (← placeShifted lines cursor displacement rest)

/-- Fits the hunks without a place into the gaps between the others. -/
def fillGaps (lines : Array String) (tolerance : Tolerance) :
    Nat → Int → List Slot → Option (List Slot)
  | _, _, [] => some []
  | _, _, (h, some p) :: rest =>
    return (h, some p) :: (← fillGaps lines tolerance p.stop (p.displacement h) rest)
  | lower, displacement, (h, none) :: rest => do
    match ← loose lines lower (HunkRun.nextStart lines rest) (displaced h.origin displacement) h
        tolerance with
    | some p => return (h, some p) :: (← fillGaps lines tolerance p.stop (p.displacement h) rest)
    | none => return (h, none) :: (← fillGaps lines tolerance lower displacement rest)

/-- The file's lines from `cursor` on with the accepted windows replaced. -/
def splice (lines : Array String) : Nat → List Slot → Option (List String)
  | cursor, [] => slice? lines.toList cursor lines.size
  | cursor, slot :: rest =>
    match slot.accepted? with
    | none => splice lines cursor rest
    | some p => do
      let kept ← slice? lines.toList cursor p.start
      let window ← slice? lines.toList p.start p.stop
      return kept ++ (HunkRun.replacement p.body window ++ (← splice lines p.stop rest))

/-- Puts hunks into a text in order, unless a slice is out of range. -/
def run (text : String) (hunks : List Hunk) (tolerance : Tolerance) : Option HunkRun := do
  let lines := (Text.lines text).toArray
  let slots ← fillGaps lines tolerance 0 0 (← placeShifted lines 0 0 hunks)
  return HunkRun.report slots (← splice lines 0 slots)

/-! ## No slice is out of range -/

section Searches
variable {lines : Array String} {lower upper expected : Nat}

theorem standsAt_eq_some {wanted : List String} {start : Nat}
    (inside : start + wanted.length ≤ lines.size) :
    standsAt lines expected wanted start = some (Placement.standsAt lines expected wanted start) := by
  rw [standsAt, slice?_eq_windowAt inside, Placement.standsAt]
  split
  · rename_i near
    rw [decide_eq_true near]
    rfl
  · rename_i far
    rw [decide_eq_false far]
    rfl

theorem nearest_eq_some (wanted : List String) : nearest lines lower upper expected wanted =
    some (Placement.nearest lines lower upper expected wanted) := by
  simp only [nearest, Placement.nearest]
  split
  · rename_i room
    refine findSomeM?_eq_some fun distance _ => findM?_eq_some fun start hstart => ?_
    have inside := Placement.mem_candidates room hstart
    exact standsAt_eq_some (Nat.le_trans inside.2 (Nat.min_le_right _ _))
  · rfl

theorem better_eq_some {wanted : List String} {start : Nat}
    (inside : start + wanted.length ≤ lines.size) (best : Option (Nat × Rat)) :
    better lines expected wanted best start =
      some (Placement.better windowLikeness lines expected wanted best start) := by
  rw [better, slice?_eq_windowAt inside]
  cases best <;> rfl

theorem mostSimilar_eq_some (wanted : List String) : mostSimilar lines lower upper expected wanted =
    some (Placement.mostSimilar windowLikeness lines lower upper expected wanted) := by
  simp only [mostSimilar, Placement.mostSimilar]
  split
  · rfl
  · rename_i room
    obtain ⟨nonempty, room⟩ := not_or.mp room
    refine foldlM_eq_some (fun best start hstart => ?_) none
    have inside := Placement.mem_windows room (List.length_pos_iff.mpr nonempty) hstart
    exact better_eq_some (Nat.le_trans inside.2 (Nat.min_le_right _ _)) best

theorem withFuzz_eq_some (h : Hunk) (fuzz : Nat) : withFuzz lines lower upper expected h fuzz =
    some (Placement.withFuzz lines lower upper expected h fuzz) := by
  simp only [withFuzz, Placement.withFuzz]
  split
  · rename_i full
    -- the slice would be out of range, where dropping leaves no line
    rw [Placement.trimmedBody_eq_nil full]
    rfl
  · rename_i left
    have body : slice? h.lines (min fuzz h.leading) (h.lines.length - min fuzz h.trailing) =
        some (Placement.trimmedBody h (min fuzz h.leading) (min fuzz h.trailing)) := by
      rw [slice?_eq_some (by omega) (Nat.sub_le _ _), Placement.trimmedBody, List.drop_take,
        List.extract_eq_take_drop]
    rw [body, Option.bind_eq_bind, Option.bind_some, nearest_eq_some]
    split <;> rfl

theorem loose_eq_some (h : Hunk) (tolerance : Tolerance) :
    loose lines lower upper expected h tolerance =
      some (Placement.loose lines lower upper expected h tolerance) := by
  cases tolerance with
  | shifted => rfl
  | similar minScore => rw [loose, mostSimilar_eq_some]; rfl
  | trimmed maxFuzz => exact findSomeM?_eq_some fun fuzz _ => withFuzz_eq_some h fuzz

end Searches

variable {lines : Array String} {tolerance : Tolerance}

theorem placeShifted_eq_some (cursor : Nat) (displacement : Int) (hunks : List Hunk) :
    placeShifted lines cursor displacement hunks =
      some (HunkRun.placeShifted lines cursor displacement hunks) := by
  fun_induction HunkRun.placeShifted lines cursor displacement hunks with
  | case1 => rfl
  | case2 cursor displacement h rest start found p ih =>
    simp [placeShifted, nearest_eq_some, found, ih, p]
  | case3 cursor displacement h rest found ih =>
    simp [placeShifted, nearest_eq_some, found, ih]

theorem fillGaps_eq_some (lower : Nat) (displacement : Int) (slots : List Slot) :
    fillGaps lines tolerance lower displacement slots =
      some (HunkRun.fillGaps lines tolerance lower displacement slots) := by
  fun_induction HunkRun.fillGaps lines tolerance lower displacement slots with
  | case1 => rfl
  | case2 lower displacement h p rest ih =>
    rw [fillGaps, ih]
    rfl
  | case3 lower displacement h rest p found ih =>
    simp [fillGaps, loose_eq_some, found, ih]
  | case4 lower displacement h rest found ih =>
    simp [fillGaps, loose_eq_some, found, ih]

/-- Putting the result together cuts the file only where it can be cut, because the
placements lie one after another in it. -/
theorem splice_eq_some {cursor : Nat} {slots : List Slot}
    (ordered : HunkRun.Ordered lines.size cursor slots) :
    splice lines cursor slots = some (HunkRun.splice lines cursor slots) := by
  fun_induction HunkRun.splice lines cursor slots with
  | case1 cursor =>
    rw [splice, slice?_eq_some ordered (Nat.le_refl _), Array.toList_extract]
  | case2 cursor slot rest rejected ih =>
    simp only [splice, rejected]
    exact ih ordered.tail
  | case3 cursor slot rest p accepted ih =>
    obtain ⟨hunk, place⟩ := slot
    obtain ⟨rfl, -⟩ := Slot.accepted?_eq_some_iff.mp accepted
    obtain ⟨hstart, hrest⟩ := ordered
    have hstop : p.start + p.window ≤ lines.size := hrest.le_size
    have kept : slice? lines.toList cursor p.start =
        some (windowAt lines cursor (p.start - cursor)) := by
      rw [← slice?_eq_windowAt (by omega), Nat.add_sub_cancel' hstart]
    have window : slice? lines.toList p.start p.stop = some (windowAt lines p.start p.window) :=
      slice?_eq_windowAt hstop
    simp [splice, accepted, kept, window, ih hrest]

/-- **No slice is ever out of range**, and checking them changes nothing. -/
theorem run_eq_some (text : String) (hunks : List Hunk) (tolerance : Tolerance) :
    run text hunks tolerance = some (HunkRun.of text hunks tolerance) := by
  have ordered := HunkRun.ordered_slots (Text.lines text).toArray hunks tolerance
  simp only [run, placeShifted_eq_some, fillGaps_eq_some, Option.bind_eq_bind, Option.bind_some]
  rw [← HunkRun.slots, splice_eq_some ordered]
  rfl

end Patchwork.Checked

/-! ## What a run did

Every hunk has a slot, in the order of the hunks.  The slots with an accepted placement give the
windows of the result, and the hunks of the others are what the run returns. -/

namespace Patchwork.HunkRun

theorem applied_add_length_failed (slots : List Slot) (out : List String) :
    (report slots out).applied + (report slots out).failed.length = slots.length := by
  simp only [report, List.length_map]
  induction slots with
  | nil => rfl
  | cons slot slots ih =>
    cases h : slot.accepted? with
    | none =>
      rw [List.filterMap_cons_none h, List.filter_cons_of_pos (by rw [h]; rfl)]
      simp only [List.length_cons]
      omega
    | some p =>
      rw [List.filterMap_cons_some h, List.filter_cons_of_neg (by rw [h]; nofun)]
      simp only [List.length_cons]
      omega

/-- **What a run over a text did**, told by a slot for each hunk. -/
structure Account (text : String) (hunks : List Hunk) (tolerance : Tolerance) (run : HunkRun)
    (slots : List Slot) : Prop where
  /-- There is a slot for each hunk, in the order of the hunks. -/
  told : slots.map Prod.fst = hunks
  /-- Each window of an applied hunk ends before the next begins, or where it does. -/
  apart : (slots.filterMap Slot.accepted?).Pairwise fun p q => p.stop ≤ q.start
  /-- The windows lie inside the file. -/
  inside : ∀ p ∈ slots.filterMap Slot.accepted?, p.stop ≤ (Text.lines text).length
  /-- The result is the file with what the applied hunks make of their windows in the
  place of these, and nothing else changed. -/
  content : ∃ out, Spliced 0 (Text.lines text) (slots.filterMap Slot.accepted?) out ∧
    run.content = Text.join out
  /-- The hunks without an accepted placement are returned as they are, in order. -/
  failed : run.failed = (slots.filter fun slot => slot.accepted?.isNone).map Prod.fst
  applied : run.applied = (slots.filterMap Slot.accepted?).length
  total : run.applied + run.failed.length = hunks.length
  /-- Each placement rests on the lines of its window, and on the least score where its
  hunk went to a similar one. -/
  justified : ∀ slot ∈ slots, slot.Justified (Text.lines text).toArray tolerance

/-- **Every run is accounted for**, whatever the text, the hunks and the tolerance: it
takes no slice out of range, and there are slots that tell what it did. -/
theorem run_accounted (text : String) (hunks : List Hunk) (tolerance : Tolerance) :
    Checked.run text hunks tolerance = some (HunkRun.of text hunks tolerance) ∧
      ∃ slots, Account text hunks tolerance (HunkRun.of text hunks tolerance) slots := by
  have ordered := ordered_slots (Text.lines text).toArray hunks tolerance
  have justified := justified_slots (Text.lines text).toArray hunks tolerance
  have told := map_fst_slots (Text.lines text).toArray hunks tolerance
  have length : (slots (Text.lines text).toArray hunks tolerance).length = hunks.length := by
    rw [← List.length_map Prod.fst, told]
  refine ⟨Checked.run_eq_some text hunks tolerance,
    slots (Text.lines text).toArray hunks tolerance, ?_⟩
  exact {
    told := told
    apart := ordered.pairwise
    inside := fun p hp => (ordered.of_mem hp).2
    content := ⟨_, spliced_splice ordered justified, rfl⟩
    failed := rfl
    applied := rfl
    total := (applied_add_length_failed _ _).trans length
    justified := justified }

end Patchwork.HunkRun
