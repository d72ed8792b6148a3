import Patchwork.Proofs.Patch.Loosest
import Patchwork.Proofs.Patch.Slices
import Patchwork.Proofs.Patch.Sized

/-! The run that counts in 64-bit words.  A run counts lines with numbers that have no
end, and reads some of them back as words.  Here the same run is written with sums,
differences and signed readings that come to nothing as soon as one of them leaves its
64-bit type (`add?`, `sub?`, `signed?`).  In a file of fewer than `2 ^ 62` lines it never
comes to nothing and gives the same, if the lines that each hunk was recorded for end at
a signed word (`run_eq_some`).  The invariant of both passes is that every placement is
`Told` in words, so that no drift is larger than the file; what is reported of a distance
is that distance then (`countsExactly_of_parse`).  Hunks recorded further out bring the
run to nothing (`bounded_farRecorded`). -/

namespace Patchwork

namespace Bounded

/-- The sum of two words, if it is one. -/
def add? (a b : Nat) : Option Nat := if a + b < Text.wordLimit then some (a + b) else none

/-- The difference of two words, if it is one. -/
def sub? (a b : Nat) : Option Nat := if b ≤ a then some (a - b) else none

/-- A word as a signed word, if it is not read as a negative number. -/
def signed? (n : Nat) : Option Int := if Text.IsSigned n then some (n : Int) else none

/-- The difference of two words as a signed word. -/
def difference? (a b : Nat) : Option Int := do
  let a ← signed? a
  let b ← signed? b
  if Text.signed (a - b) = a - b then some (a - b) else none

theorem add?_eq_some {a b : Nat} (h : a + b < Text.wordLimit) : add? a b = some (a + b) := if_pos h

theorem sub?_eq_some {a b : Nat} (h : b ≤ a) : sub? a b = some (a - b) := if_pos h

theorem difference?_eq_some {a b : Nat} (ha : Text.IsSigned a) (hb : Text.IsSigned b) :
    difference? a b = some ((a : Int) - (b : Int)) := by
  simp [difference?, signed?, ha, hb, Text.signed_sub ha hb]

/-! ## The run -/

/-- The line after the window. -/
def stop (p : Placement) : Option Nat := add? p.start p.window

/-- How far the window lies from the recorded position. -/
def displacement (p : Placement) (h : Hunk) : Option Int := do
  difference? p.start (← add? h.origin p.dropped)

/-- The placement of a whole hunk where its old lines stand. -/
def whole (h : Hunk) (start : Nat) : Option Placement := do
  let offset ← difference? start h.origin
  return { Placement.whole h start with fit := .shifted offset }

section Searches
variable (lines : Array String) (lower upper expected : Nat)

/-- Whether the wanted lines stand at `start`, not too far from the expected position. -/
def standsAt (wanted : List String) (start : Nat) : Option Bool :=
  if gap start expected ≤ maxDisplacement then do
    let stop ← add? start wanted.length
    return (lines.extract start stop).toList == wanted
  else some false

/-- The candidates at one distance from `first`.  The later one is counted before it is
compared with `last`. -/
def atDistance (last first distance : Nat) : Option (List Nat) := do
  let later ← add? first distance
  return (if later ≤ last then [later] else []) ++
    (if 0 < distance ∧ lower + distance ≤ first then [first - distance] else [])

/-- The nearest place to `expected` where the wanted lines stand. -/
def nearest (wanted : List String) : Option (Option Nat) :=
  let upper := min upper lines.size
  if lower + wanted.length ≤ upper then do
    let last ← sub? upper wanted.length
    let first := max lower (min expected last)
    let reach := min (← sub? last lower) (← add? (gap first expected) maxDisplacement)
    (List.range (reach + 1)).findSomeM? fun distance => do
      (← atDistance lower last first distance).findM? (standsAt lines expected wanted)
  else some none

/-- Keeps the better one of the best window so far and the window at `start`. -/
def better (wanted : List String) (best : Option (Nat × Rat)) (start : Nat) :
    Option (Option (Nat × Rat)) := do
  let stop ← add? start wanted.length
  let value := windowLikeness (lines.extract start stop).toList wanted
  return match best with
    | none => some (start, value)
    | some found =>
      if Placement.improves expected found start value then some (start, value) else best

/-- The window with the highest score between `lower` and `upper`. -/
def mostSimilar (wanted : List String) : Option (Option (Nat × Rat)) :=
  let upper := min upper lines.size
  if wanted = [] ∨ upper - lower < wanted.length then some none
  else do
    let last ← sub? upper wanted.length
    (List.range' lower (last - lower + 1)).foldlM (better lines expected wanted) none

/-- The placement of a hunk without `fuzz` context lines at either end. -/
def withFuzz (h : Hunk) (fuzz : Nat) : Option (Option Placement) := do
  let front := min fuzz h.leading
  let back := min fuzz h.trailing
  if h.lines.length ≤ (← add? front back) then some none
  else
    let kept ← sub? h.lines.length back
    let body := (h.lines.take kept).drop front
    let wanted := body.filterMap PatchLine.old?
    if wanted = [] then some none
    else
      let found ← nearest lines lower upper (← add? expected front) wanted
      return found.map (Placement.partOf body front fuzz)

/-- The placement that a tolerance allows for a hunk that stands nowhere as it is. -/
def loose (h : Hunk) : Tolerance → Option (Option Placement)
  | .shifted => some none
  | .similar minScore =>
    (mostSimilar lines lower upper expected h.oldSide).map (Option.map (Placement.alike h minScore))
  | .trimmed maxFuzz =>
    (List.range' 1 (min maxFuzz (max 1 (max h.leading h.trailing)))).findSomeM?
      (withFuzz lines lower upper expected h)

end Searches

/-- Places each hunk whose old side stands somewhere after line `cursor`. -/
def placeShifted (lines : Array String) : Nat → Int → List Hunk → Option (List Slot)
  | _, _, [] => some []
  | cursor, drift, h :: rest => do
    match ← nearest lines cursor lines.size (displaced h.origin drift) h.oldSide with
    | some start =>
      let p ← whole h start
      return (h, some p) :: (← placeShifted lines (← stop p) (← displacement p h) rest)
    | none => return (h, none) :: (← placeShifted lines cursor drift rest)

/-- Fits the hunks without a place into the gaps between the others, whose slots are
counted. -/
def fillGaps (lines : Array String) (tolerance : Tolerance) :
    Nat → Nat → Int → List Slot → Option (List Slot)
  | _, _, _, [] => some []
  | index, _, _, (h, some p) :: rest => do
    let next ← add? index 1
    return (h, some p) :: (← fillGaps lines tolerance next (← stop p) (← displacement p h) rest)
  | index, lower, drift, (h, none) :: rest => do
    let next ← add? index 1
    match ← loose lines lower (HunkRun.nextStart lines rest) (displaced h.origin drift) h
        tolerance with
    | some p =>
      return (h, some p) :: (← fillGaps lines tolerance next (← stop p) (← displacement p h) rest)
    | none => return (h, none) :: (← fillGaps lines tolerance next lower drift rest)

/-- The file's lines from `cursor` on with the accepted windows replaced. -/
def splice (lines : Array String) : Nat → List Slot → Option (List String)
  | cursor, [] => some (lines.extract cursor lines.size).toList
  | cursor, slot :: rest =>
    match slot.accepted? with
    | none => splice lines cursor rest
    | some p => do
      let stop ← stop p
      return (lines.extract cursor p.start).toList ++
        (HunkRun.replacement p.body (lines.extract p.start stop).toList ++
          (← splice lines stop rest))

/-- Counts the hunks that are applied, one after another. -/
def applied (slots : List Slot) : Option Nat :=
  (slots.filterMap Slot.accepted?).foldlM (fun count _ => add? count 1) 0

/-- Puts hunks into a text in order, unless a number leaves its type. -/
def run (text : String) (hunks : List Hunk) (tolerance : Tolerance) : Option HunkRun := do
  let lines := (Text.lines text).toArray
  let slots ← fillGaps lines tolerance 0 0 0 (← placeShifted lines 0 0 hunks)
  let out ← splice lines 0 slots
  return { HunkRun.report slots out with applied := ← applied slots }

end Bounded

/-! ## Numbers that stay in their types -/

/-- The lines that the hunk was recorded for end at a signed word. -/
def Hunk.EndsSigned (h : Hunk) : Prop := Text.IsSigned (h.origin + h.oldSide.length)

/-- **A placement told in words.**  It lies among the first `size` lines, no more context was
dropped than the hunk has old lines, and the distance of an exact one is the true one. -/
structure Placement.Told (size : Nat) (h : Hunk) (p : Placement) : Prop where
  inside : p.stop ≤ size
  shallow : p.dropped ≤ h.oldSide.length
  exact : ∀ offset, p.fit = .shifted offset → offset = (p.start : Int) - (h.origin : Int)

/-- The hunk's numbers stay in their types, and so does its placement. -/
structure Slot.Told (size : Nat) (slot : Slot) : Prop where
  hunk : slot.1.EndsSigned
  place : ∀ p, slot.2 = some p → p.Told size slot.1

/-- Moving on by at most `size` lines. -/
theorem displaced_le {size origin : Nat} {drift : Int} (h : drift ≤ size) :
    displaced origin drift ≤ origin + size := by
  unfold displaced
  split <;> omega

namespace Placement
variable {size : Nat} {h : Hunk} {p : Placement}

section Told
variable (small : 4 * size < Text.wordLimit) (signed : h.EndsSigned)
include small signed

theorem isSigned_of_told (told : p.Told size h) :
    Text.IsSigned p.start ∧ Text.IsSigned (h.origin + p.dropped) := by
  have inside := told.inside
  have shallow := told.shallow
  unfold Hunk.EndsSigned at signed
  unfold Text.IsSigned at signed ⊢
  unfold stop at inside
  omega

/-- **The drift of a placement told in words is the true one.** -/
theorem displacement_of_told (told : p.Told size h) :
    p.displacement h = (p.start : Int) - ((h.origin : Int) + (p.dropped : Int)) := by
  obtain ⟨start, origin⟩ := isSigned_of_told small signed told
  have exact := Text.signed_sub start origin
  rw [Int.natCast_add] at exact
  exact exact

theorem displacement_le_of_told (told : p.Told size h) : p.displacement h ≤ size := by
  have inside := told.inside
  unfold stop at inside
  rw [displacement_of_told small signed told]
  omega

theorem told_whole {start : Nat} (inside : start + h.oldSide.length ≤ size) :
    (whole h start).Told size h where
  inside := inside
  shallow := Nat.zero_le _
  exact := by
    rintro offset ⟨⟩
    unfold Hunk.EndsSigned Text.IsSigned at signed
    exact Text.signed_sub (by unfold Text.IsSigned; omega) (by unfold Text.IsSigned; omega)

end Told

/-- Where the exact search leads is told in words. -/
theorem told_of_nearest {lines : Array String} {lower upper expected start : Nat}
    (small : 4 * lines.size < Text.wordLimit) (signed : h.EndsSigned)
    (found : nearest lines lower upper expected h.oldSide = some start) :
    (whole h start).Told lines.size h :=
  told_whole small signed (Nat.le_trans (standsIn_of_nearest found).stop_le (Nat.min_le_right _ _))

theorem told_loose {lines : Array String} {lower upper expected : Nat} {tolerance : Tolerance}
    (found : loose lines lower upper expected h tolerance = some p) : p.Told lines.size h := by
  have inside := Nat.le_trans (bounds_loose found).2 (Nat.min_le_right _ _)
  cases tolerance with
  | shifted => cases found
  | similar minScore =>
    obtain ⟨place, -, rfl⟩ := Option.map_eq_some_iff.mp found
    exact ⟨inside, Nat.zero_le _, nofun⟩
  | trimmed maxFuzz =>
    obtain ⟨fuzz, -, -, here, -⟩ := trimmed_eq_some_iff.mp found
    rw [withFuzz_eq, Option.ite_none_left_eq_some, Option.map_eq_some_iff] at here
    obtain ⟨-, start, -, rfl⟩ := here
    exact ⟨inside, Nat.le_trans (Nat.min_le_right _ _) h.leading_le, nofun⟩

end Placement

namespace HunkRun
variable {lines : Array String} {tolerance : Tolerance}
variable (small : 4 * lines.size < Text.wordLimit)
include small

theorem told_placeShifted {hunks : List Hunk} (signed : ∀ h ∈ hunks, h.EndsSigned) (cursor : Nat)
    (drift : Int) : ∀ slot ∈ placeShifted lines cursor drift hunks, slot.Told lines.size := by
  fun_induction placeShifted lines cursor drift hunks with
  | case1 => exact List.forall_mem_nil _
  | case2 cursor drift h rest start found p ih =>
    obtain ⟨first, others⟩ := List.forall_mem_cons.mp signed
    refine List.forall_mem_cons.mpr ⟨⟨first, ?_⟩, ih others⟩
    rintro q ⟨⟩
    exact Placement.told_of_nearest small first found
  | case3 cursor drift h rest found ih =>
    obtain ⟨first, others⟩ := List.forall_mem_cons.mp signed
    exact List.forall_mem_cons.mpr ⟨⟨first, fun _ some => by cases some⟩, ih others⟩

omit small in
theorem told_fillGaps {slots : List Slot} (told : ∀ slot ∈ slots, slot.Told lines.size)
    (lower : Nat) (drift : Int) :
    ∀ slot ∈ fillGaps lines tolerance lower drift slots, slot.Told lines.size := by
  fun_induction fillGaps lines tolerance lower drift slots with
  | case1 => exact told
  | case2 lower drift h p rest ih =>
    obtain ⟨first, others⟩ := List.forall_mem_cons.mp told
    exact List.forall_mem_cons.mpr ⟨first, ih others⟩
  | case3 lower drift h rest p found ih =>
    obtain ⟨first, others⟩ := List.forall_mem_cons.mp told
    refine List.forall_mem_cons.mpr ⟨⟨first.hunk, ?_⟩, ih others⟩
    rintro q ⟨⟩
    exact Placement.told_loose found
  | case4 lower drift h rest found ih =>
    obtain ⟨first, others⟩ := List.forall_mem_cons.mp told
    exact List.forall_mem_cons.mpr ⟨first, ih others⟩

/-- **Every placement of a run is told in words.** -/
theorem told_slots {hunks : List Hunk} (signed : ∀ h ∈ hunks, h.EndsSigned)
    (tolerance : Tolerance) : ∀ slot ∈ slots lines hunks tolerance, slot.Told lines.size :=
  told_fillGaps (told_placeShifted small signed 0 0) 0 0

end HunkRun

/-! ## No number leaves its type -/

namespace Bounded

theorem maxDisplacement_small : 4 * maxDisplacement < Text.wordLimit := by decide

section Searches
variable {lines : Array String} {lower upper expected : Nat}
variable (small : 4 * lines.size < Text.wordLimit)
include small

theorem standsAt_eq_some {wanted : List String} {start : Nat}
    (inside : start + wanted.length ≤ lines.size) :
    standsAt lines expected wanted start = some (Placement.standsAt lines expected wanted start) := by
  rw [standsAt, add?_eq_some (by omega), Placement.standsAt]
  split
  · rename_i near
    rw [decide_eq_true near]
    rfl
  · rename_i far
    rw [decide_eq_false far]
    rfl

theorem atDistance_eq_some {last first distance : Nat} (hfirst : first ≤ last)
    (hdistance : distance ≤ last - lower) (inside : last ≤ lines.size) :
    atDistance lower last first distance =
      some (Placement.atDistance lower last first distance) := by
  rw [atDistance, add?_eq_some (by omega)]
  rfl

theorem nearest_eq_some (near : expected + maxDisplacement < Text.wordLimit)
    (wanted : List String) : nearest lines lower upper expected wanted =
      some (Placement.nearest lines lower upper expected wanted) := by
  have reach := maxDisplacement_small
  simp only [nearest, Placement.nearest]
  split
  · rename_i room
    have gapWord : gap (max lower (min expected (min upper lines.size - wanted.length))) expected +
        maxDisplacement < Text.wordLimit := by
      unfold gap
      omega
    rw [sub?_eq_some (by omega), Option.bind_eq_bind, Option.bind_some, sub?_eq_some (by omega),
      Option.bind_some, add?_eq_some gapWord, Option.bind_some]
    refine Checked.findSomeM?_eq_some fun distance hdistance => ?_
    have within := List.mem_range.mp hdistance
    rw [atDistance_eq_some small (by omega) (by omega) (by omega), Option.bind_eq_bind,
      Option.bind_some]
    refine Checked.findM?_eq_some fun start hstart => ?_
    have inside := Placement.mem_candidates room hstart
    exact standsAt_eq_some small (Nat.le_trans inside.2 (Nat.min_le_right _ _))
  · rfl

theorem better_eq_some {wanted : List String} {start : Nat}
    (inside : start + wanted.length ≤ lines.size) (best : Option (Nat × Rat)) :
    better lines expected wanted best start =
      some (Placement.better windowLikeness lines expected wanted best start) := by
  rw [better, add?_eq_some (by omega)]
  cases best <;> rfl

theorem mostSimilar_eq_some (wanted : List String) : mostSimilar lines lower upper expected wanted =
    some (Placement.mostSimilar windowLikeness lines lower upper expected wanted) := by
  simp only [mostSimilar, Placement.mostSimilar]
  split
  · rfl
  · rename_i room
    obtain ⟨nonempty, room⟩ := not_or.mp room
    rw [sub?_eq_some (by omega), Option.bind_eq_bind, Option.bind_some]
    refine Checked.foldlM_eq_some (fun best start hstart => ?_) none
    have inside := Placement.mem_windows room (List.length_pos_iff.mpr nonempty) hstart
    exact better_eq_some small (Nat.le_trans inside.2 (Nat.min_le_right _ _)) best

variable {h : Hunk} (signed : h.EndsSigned) (near : expected ≤ h.origin + lines.size)
include signed near

theorem withFuzz_eq_some (fuzz : Nat) : withFuzz lines lower upper expected h fuzz =
    some (Placement.withFuzz lines lower upper expected h fuzz) := by
  have leading := h.leading_le
  have trailing := h.trailing_le
  have reach := maxDisplacement_small
  unfold Hunk.EndsSigned Text.IsSigned at signed
  have expectedWord : expected + min fuzz h.leading + maxDisplacement < Text.wordLimit := by omega
  have dropped : min fuzz h.leading + min fuzz h.trailing < Text.wordLimit := by omega
  simp only [withFuzz, Placement.withFuzz, add?_eq_some dropped, Option.bind_eq_bind,
    Option.bind_some]
  split
  · rename_i full
    rw [Placement.trimmedBody_eq_nil full]
    rfl
  · rename_i left
    rw [sub?_eq_some (by omega), Option.bind_some, ← Placement.trimmedBody,
      add?_eq_some (by omega), Option.bind_some, nearest_eq_some small expectedWord,
      Nat.mod_eq_of_lt (by omega)]
    split <;> rfl

theorem loose_eq_some (tolerance : Tolerance) : loose lines lower upper expected h tolerance =
    some (Placement.loose lines lower upper expected h tolerance) := by
  cases tolerance with
  | shifted => rfl
  | similar minScore => rw [loose, mostSimilar_eq_some small]; rfl
  | trimmed maxFuzz =>
    exact Checked.findSomeM?_eq_some fun fuzz _ => withFuzz_eq_some small signed near fuzz

end Searches

section Placements
variable {size : Nat} {h : Hunk} {p : Placement}
variable (small : 4 * size < Text.wordLimit) (signed : h.EndsSigned) (told : p.Told size h)
include small told

theorem stop_eq_some : stop p = some p.stop := by
  have inside := told.inside
  unfold Placement.stop at inside
  rw [stop, add?_eq_some (by omega)]
  rfl

include signed

theorem displacement_eq_some : displacement p h = some (p.displacement h) := by
  obtain ⟨start, origin⟩ := Placement.isSigned_of_told small signed told
  have word : h.origin + p.dropped < Text.wordLimit := by
    unfold Text.IsSigned at origin
    omega
  rw [displacement, add?_eq_some word, Option.bind_eq_bind, Option.bind_some,
    difference?_eq_some start origin, Placement.displacement_of_told small signed told,
    Int.natCast_add]

omit told in
theorem whole_eq_some {start : Nat} (told : (Placement.whole h start).Told size h) :
    whole h start = some (.whole h start) := by
  obtain ⟨hstart, origin⟩ : Text.IsSigned start ∧ Text.IsSigned h.origin :=
    Placement.isSigned_of_told small signed told
  rw [whole, difference?_eq_some hstart origin]
  exact congrArg (fun offset => some { Placement.whole h start with fit := .shifted offset })
    (told.exact _ rfl).symm

end Placements

section Runs
variable {lines : Array String} {tolerance : Tolerance}
variable (small : 4 * lines.size < Text.wordLimit)
include small

/-- Where a hunk is expected, the search has room to look around. -/
theorem nearest_displaced_eq_some {h : Hunk} (signed : h.EndsSigned) {drift : Int}
    (le : drift ≤ lines.size) (lower upper : Nat) :
    nearest lines lower upper (displaced h.origin drift) h.oldSide =
      some (Placement.nearest lines lower upper (displaced h.origin drift) h.oldSide) := by
  have reach := maxDisplacement_small
  have expected := @displaced_le lines.size h.origin drift le
  unfold Hunk.EndsSigned Text.IsSigned at signed
  exact nearest_eq_some small (by omega) _

theorem placeShifted_eq_some {hunks : List Hunk} (signed : ∀ h ∈ hunks, h.EndsSigned)
    (cursor : Nat) {drift : Int} (le : drift ≤ lines.size) :
    placeShifted lines cursor drift hunks =
      some (HunkRun.placeShifted lines cursor drift hunks) := by
  -- the drift never grows beyond the number of the file's lines
  fun_induction HunkRun.placeShifted lines cursor drift hunks with
  | case1 => rfl
  | case2 cursor drift h rest start found p ih =>
    obtain ⟨first, others⟩ := List.forall_mem_cons.mp signed
    have told := Placement.told_of_nearest small first found
    have next := ih others (Placement.displacement_le_of_told small first told)
    simp [placeShifted, nearest_displaced_eq_some small first le, found,
      whole_eq_some small first told, stop_eq_some small told,
      displacement_eq_some small first told, next, p]
  | case3 cursor drift h rest found ih =>
    obtain ⟨first, others⟩ := List.forall_mem_cons.mp signed
    simp [placeShifted, nearest_displaced_eq_some small first le, found, ih others le]

theorem fillGaps_eq_some {slots : List Slot} (told : ∀ slot ∈ slots, slot.Told lines.size)
    (index : Nat) (count : index + slots.length < Text.wordLimit) (lower : Nat) {drift : Int}
    (le : drift ≤ lines.size) : fillGaps lines tolerance index lower drift slots =
      some (HunkRun.fillGaps lines tolerance lower drift slots) := by
  fun_induction HunkRun.fillGaps lines tolerance lower drift slots generalizing index with
  | case1 => rfl
  | case2 lower drift h p rest ih =>
    obtain ⟨first, others⟩ := List.forall_mem_cons.mp told
    have place := first.place p rfl
    rw [List.length_cons] at count
    have next := ih others (index + 1) (by omega)
      (Placement.displacement_le_of_told small first.hunk place)
    simp [fillGaps, add?_eq_some (show index + 1 < Text.wordLimit by omega),
      stop_eq_some small place, displacement_eq_some small first.hunk place, next]
  | case3 lower drift h rest p found ih =>
    obtain ⟨first, others⟩ := List.forall_mem_cons.mp told
    have place := Placement.told_loose found
    rw [List.length_cons] at count
    have next := ih others (index + 1) (by omega)
      (Placement.displacement_le_of_told small first.hunk place)
    simp [fillGaps, add?_eq_some (show index + 1 < Text.wordLimit by omega),
      loose_eq_some small first.hunk (displaced_le le), found, stop_eq_some small place,
      displacement_eq_some small first.hunk place, next]
  | case4 lower drift h rest found ih =>
    obtain ⟨first, others⟩ := List.forall_mem_cons.mp told
    rw [List.length_cons] at count
    have next := ih others (index + 1) (by omega) le
    simp [fillGaps, add?_eq_some (show index + 1 < Text.wordLimit by omega),
      loose_eq_some small first.hunk (displaced_le le), found, next]

theorem splice_eq_some {cursor : Nat} {slots : List Slot}
    (ordered : HunkRun.Ordered lines.size cursor slots) :
    splice lines cursor slots = some (HunkRun.splice lines cursor slots) := by
  fun_induction HunkRun.splice lines cursor slots with
  | case1 cursor => rfl
  | case2 cursor slot rest rejected ih =>
    simp only [splice, rejected]
    exact ih ordered.tail
  | case3 cursor slot rest p accepted ih =>
    obtain ⟨hunk, place⟩ := slot
    obtain ⟨rfl, -⟩ := Slot.accepted?_eq_some_iff.mp accepted
    obtain ⟨hstart, hrest⟩ := ordered
    have inside : p.start + p.window ≤ lines.size := hrest.le_size
    have stop : stop p = some p.stop := add?_eq_some (by omega)
    have kept : windowAt lines cursor (p.start - cursor) = (lines.extract cursor p.start).toList := by
      rw [windowAt, Nat.add_sub_cancel' hstart]
    simp only [splice, accepted, stop, ih hrest, kept, Option.bind_eq_bind, Option.bind_some]
    rfl

omit small in
theorem applied_eq_some {slots : List Slot} (count : slots.length < Text.wordLimit) :
    applied slots = some (slots.filterMap Slot.accepted?).length := by
  have counted : ∀ (placed : List Placement) (before : Nat),
      before + placed.length < Text.wordLimit →
      placed.foldlM (fun count _ => add? count 1) before = some (before + placed.length) := by
    intro placed
    induction placed with
    | nil => exact fun _ _ => rfl
    | cons p placed ih =>
      intro before room
      rw [List.length_cons] at room ⊢
      rw [List.foldlM_cons, add?_eq_some (by omega), Option.bind_eq_bind, Option.bind_some,
        ih _ (by omega), Nat.add_assoc, Nat.add_comm 1]
  have room := List.length_filterMap_le Slot.accepted? slots
  rw [applied, counted _ 0 (by omega), Nat.zero_add]

end Runs

/-- **No number leaves its type** in a file of fewer than `2 ^ 62` lines where every hunk's
recorded lines end at a signed word, and watching them changes nothing. -/
theorem run_eq_some {text : String} {hunks : List Hunk}
    (small : 4 * (Text.lines text).length < Text.wordLimit) (count : hunks.length < Text.wordLimit)
    (signed : ∀ h ∈ hunks, h.EndsSigned) (tolerance : Tolerance) :
    run text hunks tolerance = some (HunkRun.of text hunks tolerance) := by
  have size : 4 * (Text.lines text).toArray.size < Text.wordLimit := small
  have exact : (HunkRun.placeShifted (Text.lines text).toArray 0 0 hunks).length = hunks.length := by
    rw [← List.length_map Prod.fst, HunkRun.map_fst_placeShifted]
  have all : (HunkRun.slots (Text.lines text).toArray hunks tolerance).length = hunks.length := by
    rw [← List.length_map Prod.fst, HunkRun.map_fst_slots]
  simp only [run, placeShifted_eq_some size signed 0 (Int.natCast_nonneg _), Option.bind_eq_bind,
    Option.bind_some]
  rw [fillGaps_eq_some size (HunkRun.told_placeShifted size signed 0 0) 0 (by omega) 0
    (Int.natCast_nonneg _), Option.bind_some, ← HunkRun.slots,
    splice_eq_some size (HunkRun.ordered_slots _ hunks tolerance), Option.bind_some,
    applied_eq_some (by omega)]
  rfl

end Bounded

/-! ## What is reported -/

namespace HunkRun

/-- **A run that counts exactly.** -/
structure CountsExactly (text : String) (hunks : List Hunk) (tolerance : Tolerance) : Prop where
  /-- No sum, difference or signed reading leaves its 64-bit type. -/
  bounded : Bounded.run text hunks tolerance = some (of text hunks tolerance)
  /-- The drift of each placement is the true one. -/
  drift : ∀ slot ∈ slots (Text.lines text).toArray hunks tolerance, ∀ p, slot.2 = some p →
    p.displacement slot.1 = (p.start : Int) - ((slot.1.origin : Int) + (p.dropped : Int))
  /-- The offset of each exact placement is the true one. -/
  offset : ∀ slot ∈ slots (Text.lines text).toArray hunks tolerance, ∀ p, slot.2 = some p →
    ∀ offset, p.fit = .shifted offset → offset = (p.start : Int) - (slot.1.origin : Int)
  /-- The offset that is reported is that of an applied hunk, or nothing moved. -/
  reported : ∀ offset, (of text hunks tolerance).fit = .shifted offset → offset = 0 ∨
    ∃ slot ∈ slots (Text.lines text).toArray hunks tolerance, ∃ p, slot.accepted? = some p ∧
      offset = (p.start : Int) - (slot.1.origin : Int)

/-- **Where every hunk's recorded lines end at a signed word, a run counts exactly**, in any
file of fewer than `2 ^ 62` lines. -/
theorem countsExactly_of_parse {path source text : String} {p : Patch}
    (read : Patch.parse path source = .ok p) (memory : source.utf8ByteSize < Text.wordLimit)
    (signed : ∀ h ∈ p.hunks, Text.IsSigned (h.origin + h.old.length))
    (small : 4 * (Text.lines text).length < Text.wordLimit) (tolerance : Tolerance) :
    CountsExactly text p.hunks tolerance := by
  have ends : ∀ h ∈ p.hunks, h.EndsSigned := fun h hh => by
    rw [Hunk.EndsSigned, ((Patch.wellFormed_of_parse read).1 h hh).old]
    exact signed h hh
  have count : p.hunks.length < Text.wordLimit :=
    Nat.lt_of_le_of_lt (Patch.length_hunks_le_of_parse read)
      (Nat.lt_of_le_of_lt (Text.length_lines_le source) memory)
  have size : 4 * (Text.lines text).toArray.size < Text.wordLimit := small
  have told := told_slots size ends tolerance
  have offset : ∀ slot ∈ slots (Text.lines text).toArray p.hunks tolerance, ∀ place,
      slot.2 = some place → ∀ offset, place.fit = .shifted offset →
        offset = (place.start : Int) - (slot.1.origin : Int) :=
    fun slot hslot place some => ((told slot hslot).place place some).exact
  refine ⟨Bounded.run_eq_some small count ends tolerance, fun slot hslot place some => ?_, offset,
    fun reported fit => ?_⟩
  · exact Placement.displacement_of_told size (told slot hslot).hunk
      ((told slot hslot).place place some)
  · rcases List.mem_cons.mp (Fit.loosest_mem _ _) with none | among
    · exact .inl (by simpa using fit.symm.trans none)
    · have among : (of text p.hunks tolerance).fit ∈ List.map Placement.fit _ := among
      rw [fit] at among
      obtain ⟨place, hplace, fit⟩ := List.mem_map.mp among
      obtain ⟨slot, hslot, accepted⟩ := List.mem_filterMap.mp hplace
      exact .inr ⟨slot, hslot, place, accepted,
        offset slot hslot place (Slot.accepted?_eq_some_iff.mp accepted).1 reported fit⟩

/-- A patch that changes one line, recorded as the one with the given number. -/
def rewording (line : String) : String :=
  "--- a/F\n+++ b/F\n@@ -" ++ line ++ " +1 @@\n-a\n+b\n"

theorem countsExactly_rewording : ∃ p, Patch.parse "F" (rewording "3") = .ok p ∧
    CountsExactly "x\na\n" p.hunks (.trimmed 2) := by
  have read : Patch.parse "F" (rewording "3") =
      .ok ⟨"F", .modify, [⟨⟨3, 1⟩, ⟨1, 1⟩, [.delete "a\n", .insert "b\n"]⟩]⟩ := by rfl
  exact ⟨_, read, countsExactly_of_parse read (by decide) (by decide) (by decide) _⟩

/-- A hunk recorded so far out that its position is negative as a signed word. -/
def farRecorded : String :=
  "--- a/F\n+++ b/F\n@@ -18446744073709549617,2 +1 @@\n aaaa\n-bbbb\n"

/-- **Positions beyond the signed words are not counted as they are.**  The run that watches
its numbers comes to nothing, and the hunk, which is placed far in front of its recorded
position, is told to have drifted 2000 lines behind it. -/
theorem bounded_farRecorded : ∃ p, Patch.parse "F" farRecorded = .ok p ∧
    Bounded.run "aaaX\nbbbb\n" p.hunks (.similar (mkRat 1 2)) = none ∧
    ∃ h place, (h, some place) ∈ slots #["aaaX\n", "bbbb\n"] p.hunks (.similar (mkRat 1 2)) ∧
      place.displacement h = 2000 ∧ place.start + 2000 < h.origin := by
  let h : Hunk := ⟨⟨18446744073709549617, 2⟩, ⟨1, 1⟩, [.context "aaaa\n", .delete "bbbb\n"]⟩
  have read : Patch.parse "F" farRecorded = .ok ⟨"F", .modify, [h]⟩ := by rfl
  refine ⟨_, read, by decide +kernel, h, .alike h (mkRat 1 2) (0, mkRat 7 8), ?_, ?_, ?_⟩
  · decide +kernel
  · decide +kernel
  · decide +kernel

end HunkRun
end Patchwork
