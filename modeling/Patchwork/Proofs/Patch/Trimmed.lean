import Patchwork.Proofs.Patch.Windows

/-! Hunks that are placed without some of their outer context.  The search tries one
level after another, and at each more context lines go at either end.  It ends at the
level at which all of them are gone, and would find nothing behind it
(`trimmed_eq_findSome?`); a search that leaves off as soon as nothing is left to look for
finds the same (`descend_eq_trimmed`).  So a hunk gets its place at the least level at
which the rest of it stands in the gap, at the nearest spot where it does
(`trimmed_least`). -/

namespace Patchwork

namespace Hunk

/-! ## What is left of a hunk -/

/-- What is left of a hunk when `fuzz` context lines go at either end, or as many as
there are. -/
def rest (h : Hunk) (fuzz : Nat) : List PatchLine :=
  Placement.trimmedBody h (min fuzz h.leading) (min fuzz h.trailing)

/-- The lines that must stand in the file for what is left of the hunk. -/
def oldRest (h : Hunk) (fuzz : Nat) : List String := (h.rest fuzz).filterMap PatchLine.old?

/-- The level behind which no more context goes. -/
def depth (h : Hunk) : Nat := max 1 (max h.leading h.trailing)

/-- The context at the front is part of the old side. -/
theorem leading_le (h : Hunk) : h.leading ≤ h.oldSide.length := by
  have context : ∀ ls : List PatchLine,
      (ls.takeWhile PatchLine.isContext).length ≤ (ls.filterMap PatchLine.old?).length := by
    intro ls
    induction ls with
    | nil => exact Nat.le_refl 0
    | cons l ls ih => cases l <;> simp [List.takeWhile_cons, PatchLine.isContext, PatchLine.old?, ih]
  exact context h.lines

theorem trailing_le (h : Hunk) : h.trailing ≤ h.oldSide.length := by
  have turned := leading_le ⟨h.old, h.new, h.lines.reverse⟩
  simpa [leading, trailing, oldSide] using turned

/-- Nothing is left to look for: the lines that go are all there are, or those that stay
are insertions. -/
def Spent (h : Hunk) (fuzz : Nat) : Prop :=
  h.lines.length ≤ min fuzz h.leading + min fuzz h.trailing ∨ h.oldRest fuzz = []

/-- All the context at both ends is gone. -/
def Bare (h : Hunk) (fuzz : Nat) : Prop :=
  min fuzz h.leading = h.leading ∧ min fuzz h.trailing = h.trailing

instance (h : Hunk) (fuzz : Nat) : Decidable (h.Spent fuzz) :=
  inferInstanceAs (Decidable (_ ∨ _))

instance (h : Hunk) (fuzz : Nat) : Decidable (h.Bare fuzz) :=
  inferInstanceAs (Decidable (_ ∧ _))

variable {h : Hunk} {fuzz more : Nat}

theorem Spent.oldRest_eq_nil (spent : h.Spent fuzz) : h.oldRest fuzz = [] := by
  rcases spent with full | none
  · rw [oldRest, rest, Placement.trimmedBody_eq_nil full]
    rfl
  · exact none

/-- Where more lines go, part of what was left is left. -/
theorem rest_sublist (deeper : fuzz ≤ more) : (h.rest more).Sublist (h.rest fuzz) := by
  have front : min fuzz h.leading ≤ min more h.leading := by omega
  have back : h.lines.length - min more h.trailing ≤ h.lines.length - min fuzz h.trailing := by
    omega
  exact ((List.take_sublist_take_left back).drop _).trans (List.drop_sublist_drop_left _ front)

/-- A hunk in which nothing is left to look for stays so. -/
theorem Spent.mono (spent : h.Spent fuzz) (deeper : fuzz ≤ more) : h.oldRest more = [] := by
  have part := (rest_sublist (h := h) deeper).filterMap PatchLine.old?
  exact List.sublist_nil.mp (spent.oldRest_eq_nil ▸ part)

theorem Bare.min_eq (bare : h.Bare fuzz) (deeper : fuzz ≤ more) :
    min more h.leading = min fuzz h.leading ∧ min more h.trailing = min fuzz h.trailing := by
  unfold Bare at bare
  omega

theorem Bare.rest_eq (bare : h.Bare fuzz) (deeper : fuzz ≤ more) : h.rest more = h.rest fuzz := by
  obtain ⟨front, back⟩ := bare.min_eq deeper
  rw [rest, rest, front, back]

theorem bare_depth (h : Hunk) : h.Bare h.depth := by
  unfold Bare depth
  omega

/-- **Only context goes**: every other line of the hunk is left, as long as any is. -/
theorem filter_rest (nonempty : h.rest fuzz ≠ []) :
    (h.rest fuzz).filter (fun l => !l.isContext) = h.lines.filter fun l => !l.isContext := by
  obtain ⟨before, after, split, -, -, outer⟩ :=
    Placement.lines_eq_trimmedBody (Nat.min_le_right fuzz _) (Nat.min_le_right fuzz _) nonempty
  have context {ls : List PatchLine} (hls : ∀ l ∈ ls, l.isContext) :
      (ls.filter fun l => !l.isContext) = [] :=
    List.filter_eq_nil_iff.mpr fun l hl => by simp [hls l hl]
  rw [split, List.filter_append, List.filter_append,
    context fun l hl => outer l (List.mem_append_left _ hl),
    context fun l hl => outer l (List.mem_append_right _ hl), List.nil_append, List.append_nil]
  rfl

end Hunk

namespace Placement
variable {lines : Array String} {lower upper expected maxFuzz fuzz : Nat} {h : Hunk}
  {p : Placement}

/-! ## One level -/

/-- Where the search looks first when `fuzz` context lines go: as far behind the expected
position as lines go at the front, in 64-bit arithmetic. -/
def expectedAt (expected : Nat) (h : Hunk) (fuzz : Nat) : Nat :=
  (expected + min fuzz h.leading) % Text.wordLimit

theorem withFuzz_eq (lines : Array String) (lower upper expected : Nat) (h : Hunk) (fuzz : Nat) :
    withFuzz lines lower upper expected h fuzz =
      if h.oldRest fuzz = [] then none
      else (nearest lines lower upper (expectedAt expected h fuzz) (h.oldRest fuzz)).map
        (partOf (h.rest fuzz) (min fuzz h.leading) fuzz) := rfl

theorem fit_of_withFuzz (found : withFuzz lines lower upper expected h fuzz = some p) :
    p.fit = .trimmed fuzz ∧ p.accepted := by
  rw [withFuzz_eq, Option.ite_none_left_eq_some, Option.map_eq_some_iff] at found
  obtain ⟨-, start, -, rfl⟩ := found
  exact ⟨rfl, rfl⟩

theorem withFuzz_of_spent {more : Nat} (spent : h.Spent fuzz) (deeper : fuzz ≤ more) :
    withFuzz lines lower upper expected h more = none := by
  rw [withFuzz_eq, if_pos (spent.mono deeper)]

/-- Once all the context is gone in vain, every further level is in vain. -/
theorem withFuzz_of_bare {more : Nat} (bare : h.Bare fuzz)
    (vain : withFuzz lines lower upper expected h fuzz = none) (deeper : fuzz ≤ more) :
    withFuzz lines lower upper expected h more = none := by
  have position : expectedAt expected h more = expectedAt expected h fuzz := by
    rw [expectedAt, expectedAt, (bare.min_eq deeper).1]
  have wanted : h.oldRest more = h.oldRest fuzz := by
    rw [Hunk.oldRest, Hunk.oldRest, bare.rest_eq deeper]
  rw [withFuzz_eq] at vain ⊢
  rw [position, wanted]
  split
  · rfl
  · rename_i some_left
    rw [if_neg some_left] at vain
    rw [Option.map_eq_none_iff.mp vain]
    rfl

/-! ## One level after another -/

/-- The cap on the levels shuts none out that could be used. -/
theorem trimmed_eq_findSome? (lines : Array String) (lower upper expected : Nat) (h : Hunk)
    (maxFuzz : Nat) : trimmed lines lower upper expected h maxFuzz =
      (List.range' 1 maxFuzz).findSome? (withFuzz lines lower upper expected h) := by
  change (List.range' 1 (min maxFuzz h.depth)).findSome? _ = _
  rcases Nat.le_total maxFuzz h.depth with small | deep
  · rw [Nat.min_eq_left small]
  · rw [Nat.min_eq_right deep, ← Nat.add_sub_cancel' deep, ← List.range'_append_1,
      List.findSome?_append]
    cases found : (List.range' 1 h.depth).findSome? (withFuzz lines lower upper expected h) with
    | some p => rfl
    | none =>
      have last : h.depth ∈ List.range' 1 h.depth :=
        List.mem_range'_1.mpr ⟨Nat.le_max_left _ _, by omega⟩
      have vain := List.findSome?_eq_none_iff.mp found _ last
      rw [Option.none_or, eq_comm, List.findSome?_eq_none_iff]
      intro more hmore
      exact withFuzz_of_bare h.bare_depth vain (by have := List.mem_range'_1.mp hmore; omega)

/-- The placement is that of the first level that has one. -/
theorem trimmed_eq_some_iff : trimmed lines lower upper expected h maxFuzz = some p ↔
    ∃ fuzz, 1 ≤ fuzz ∧ fuzz ≤ maxFuzz ∧ withFuzz lines lower upper expected h fuzz = some p ∧
      ∀ level, 1 ≤ level → level < fuzz → withFuzz lines lower upper expected h level = none := by
  rw [trimmed_eq_findSome?, findSome?_range'_eq_some_iff]
  exact exists_congr fun fuzz => and_congr_right fun _ =>
    and_congr_left' (by rw [Nat.add_comm, Nat.lt_succ_iff])

theorem withFuzz_of_trimmed_eq_none (vain : trimmed lines lower upper expected h maxFuzz = none)
    (positive : 1 ≤ fuzz) (le : fuzz ≤ maxFuzz) :
    withFuzz lines lower upper expected h fuzz = none := by
  rw [trimmed_eq_findSome?, List.findSome?_eq_none_iff] at vain
  exact vain fuzz (List.mem_range'_1.mpr ⟨positive, by omega⟩)

/-- More levels leave a placement as it is. -/
theorem trimmed_of_le {less more : Nat} (le : less ≤ more)
    (found : trimmed lines lower upper expected h less = some p) :
    trimmed lines lower upper expected h more = some p := by
  obtain ⟨fuzz, positive, within, here, before⟩ := trimmed_eq_some_iff.mp found
  exact trimmed_eq_some_iff.mpr ⟨fuzz, positive, Nat.le_trans within le, here, before⟩

/-- A placement that only more levels give lies at one of those. -/
theorem lt_fuzz_of_trimmed {less more : Nat}
    (vain : trimmed lines lower upper expected h less = none)
    (found : trimmed lines lower upper expected h more = some p) :
    ∃ fuzz, p.fit = .trimmed fuzz ∧ less < fuzz := by
  obtain ⟨fuzz, positive, -, here, -⟩ := trimmed_eq_some_iff.mp found
  refine ⟨fuzz, (fit_of_withFuzz here).1, Nat.lt_of_not_le fun within => ?_⟩
  rw [withFuzz_of_trimmed_eq_none vain positive within] at here
  cases here

/-- The search with its early exits: it leaves off where nothing is left to look for, and
where all the context is gone in vain. -/
def descend (lines : Array String) (lower upper expected : Nat) (h : Hunk) (maxFuzz fuzz : Nat) :
    Option Placement :=
  if maxFuzz < fuzz ∨ h.Spent fuzz then none
  else
    match withFuzz lines lower upper expected h fuzz with
    | some p => some p
    | none =>
      if h.Bare fuzz then none else descend lines lower upper expected h maxFuzz (fuzz + 1)
termination_by maxFuzz + 1 - fuzz

theorem descend_eq_findSome? (lines : Array String) (lower upper expected : Nat) (h : Hunk)
    (maxFuzz fuzz : Nat) : descend lines lower upper expected h maxFuzz fuzz =
      (List.range' fuzz (maxFuzz + 1 - fuzz)).findSome? (withFuzz lines lower upper expected h) := by
  fun_induction descend lines lower upper expected h maxFuzz fuzz with
  | case1 fuzz exit =>
    symm
    rw [List.findSome?_eq_none_iff]
    intro more hmore
    have := List.mem_range'_1.mp hmore
    rcases exit with beyond | spent
    · omega
    · exact withFuzz_of_spent spent this.1
  | case2 fuzz go p found =>
    rw [show maxFuzz + 1 - fuzz = maxFuzz - fuzz + 1 by omega, List.range'_succ,
      List.findSome?_cons, found]
  | case3 fuzz go vain bare =>
    symm
    rw [List.findSome?_eq_none_iff]
    intro more hmore
    exact withFuzz_of_bare bare vain (List.mem_range'_1.mp hmore).1
  | case4 fuzz go vain _ ih =>
    rw [ih, show maxFuzz + 1 - fuzz = maxFuzz + 1 - (fuzz + 1) + 1 by omega, List.range'_succ,
      List.findSome?_cons, vain]

/-- **No early exit costs a place.** -/
theorem descend_eq_trimmed (lines : Array String) (lower upper expected : Nat) (h : Hunk)
    (maxFuzz : Nat) : descend lines lower upper expected h maxFuzz 1 =
      trimmed lines lower upper expected h maxFuzz := by
  rw [descend_eq_findSome?, trimmed_eq_findSome?, Nat.add_sub_cancel]

/-! ## The least level -/

/-- **A spot for what is left of a hunk at one level.**  Something is left to look for, and it
stands in the gap, near to where it is expected: as many lines behind the expected
position as go at the front. -/
structure Usable (lines : Array String) (lower upper expected : Nat) (h : Hunk)
    (fuzz start : Nat) : Prop where
  some_left : h.oldRest fuzz ≠ []
  stands : StandsIn lines lower upper (expected + min fuzz h.leading) (h.oldRest fuzz) start

/-- **The placement at the least level** that has a spot. -/
structure Least (lines : Array String) (lower upper expected : Nat) (h : Hunk) (fuzz : Nat)
    (p : Placement) : Prop where
  usable : Usable lines lower upper expected h fuzz p.start
  least : ∀ level, 1 ≤ level → level < fuzz → ∀ start,
    ¬ Usable lines lower upper expected h level start
  /-- No spot of the level is nearer, and of two equally near ones it is the later. -/
  nearest : ∀ start, Usable lines lower upper expected h fuzz start →
    gap p.start (expected + min fuzz h.leading) < gap start (expected + min fuzz h.leading) ∨
      gap p.start (expected + min fuzz h.leading) = gap start (expected + min fuzz h.leading) ∧
        start ≤ p.start
  fit : p.fit = .trimmed fuzz
  accepted : p.accepted
  body : p.body = h.rest fuzz
  window : p.window = (h.oldRest fuzz).length
  /-- Every deleted and every inserted line is there, in order. -/
  kept : p.body.filter (fun l => !l.isContext) = h.lines.filter fun l => !l.isContext
  /-- The drift is that of the line at which the whole hunk would begin. -/
  drift : p.displacement h =
    Text.signed (((p.start : Int) - (min fuzz h.leading : Nat)) - (h.origin : Int))

theorem withFuzz_eq_some_iff (word : expected + min fuzz h.leading < Text.wordLimit) :
    withFuzz lines lower upper expected h fuzz = some p ↔
      h.oldRest fuzz ≠ [] ∧ ∃ start, nearest lines lower upper (expected + min fuzz h.leading)
        (h.oldRest fuzz) = some start ∧ partOf (h.rest fuzz) (min fuzz h.leading) fuzz start = p := by
  rw [withFuzz_eq, expectedAt, Nat.mod_eq_of_lt word, Option.ite_none_left_eq_some,
    Option.map_eq_some_iff]

/-- A level gives a placement exactly where it has a spot. -/
theorem exists_withFuzz_iff (word : expected + min fuzz h.leading < Text.wordLimit) :
    (∃ p, withFuzz lines lower upper expected h fuzz = some p) ↔
      ∃ start, Usable lines lower upper expected h fuzz start := by
  constructor
  · rintro ⟨p, found⟩
    obtain ⟨some_left, start, at_start, -⟩ := (withFuzz_eq_some_iff word).mp found
    exact ⟨start, some_left, standsIn_of_nearest at_start⟩
  · rintro ⟨start, some_left, stands⟩
    obtain ⟨found, at_found⟩ := exists_nearest_of_standsIn stands
    exact ⟨_, (withFuzz_eq_some_iff word).mpr ⟨some_left, found, at_found, rfl⟩⟩

theorem displacement_partOf (body : List PatchLine) (front start : Nat) :
    (partOf body front fuzz start).displacement h =
      Text.signed (((start : Int) - (front : Int)) - (h.origin : Int)) := by
  have same : (start : Int) - ((h.origin : Int) + (front : Int)) =
      ((start : Int) - (front : Int)) - (h.origin : Int) := by omega
  rw [displacement, ← same]
  rfl

theorem least_of_withFuzz (word : expected + min fuzz h.leading < Text.wordLimit)
    (found : withFuzz lines lower upper expected h fuzz = some p)
    (before : ∀ level, 1 ≤ level → level < fuzz →
      withFuzz lines lower upper expected h level = none) :
    Least lines lower upper expected h fuzz p := by
  obtain ⟨some_left, start, at_start, rfl⟩ := (withFuzz_eq_some_iff word).mp found
  have nonempty : h.rest fuzz ≠ [] := fun nil => some_left (by rw [Hunk.oldRest, nil]; rfl)
  exact {
    usable := ⟨some_left, standsIn_of_nearest at_start⟩
    least := fun level positive less start usable => by
      obtain ⟨q, some⟩ := (exists_withFuzz_iff (by omega)).mpr ⟨start, usable⟩
      rw [before level positive less] at some
      cases some
    nearest := fun other usable => gap_le_of_nearest at_start usable.stands
    fit := rfl
    accepted := rfl
    body := rfl
    window := rfl
    kept := Hunk.filter_rest nonempty
    drift := displacement_partOf _ _ _ }

/-- **A hunk is placed without context exactly where some level has a spot, and at the
least such level.**  The levels go from 1 to `maxFuzz`, and the position at which the last
one looks first must be a word. -/
theorem trimmed_least (lines : Array String) (lower upper expected : Nat) (h : Hunk)
    (maxFuzz : Nat) (word : expected + min maxFuzz h.leading < Text.wordLimit) :
    ((∃ p, trimmed lines lower upper expected h maxFuzz = some p) ↔
      ∃ fuzz start, 1 ≤ fuzz ∧ fuzz ≤ maxFuzz ∧ Usable lines lower upper expected h fuzz start) ∧
    (∀ p, trimmed lines lower upper expected h maxFuzz = some p →
      ∃ fuzz, 1 ≤ fuzz ∧ fuzz ≤ maxFuzz ∧ Least lines lower upper expected h fuzz p) ∧
    descend lines lower upper expected h maxFuzz 1 = trimmed lines lower upper expected h maxFuzz ∧
    (h.depth ≤ maxFuzz → trimmed lines lower upper expected h maxFuzz =
      trimmed lines lower upper expected h h.depth) := by
  have words {fuzz : Nat} (le : fuzz ≤ maxFuzz) : expected + min fuzz h.leading < Text.wordLimit := by
    omega
  refine ⟨⟨?_, ?_⟩, ?_, descend_eq_trimmed .., ?_⟩
  · rintro ⟨p, found⟩
    obtain ⟨fuzz, positive, le, here, -⟩ := trimmed_eq_some_iff.mp found
    obtain ⟨start, usable⟩ := (exists_withFuzz_iff (words le)).mp ⟨p, here⟩
    exact ⟨fuzz, start, positive, le, usable⟩
  · rintro ⟨fuzz, start, positive, le, usable⟩
    obtain ⟨p, found⟩ := (exists_withFuzz_iff (words le)).mpr ⟨start, usable⟩
    rw [← Option.ne_none_iff_exists']
    intro vain
    rw [withFuzz_of_trimmed_eq_none vain positive le] at found
    cases found
  · intro p found
    obtain ⟨fuzz, positive, le, here, before⟩ := trimmed_eq_some_iff.mp found
    exact ⟨fuzz, positive, le, least_of_withFuzz (words le) here before⟩
  · intro deep
    change (List.range' 1 (min maxFuzz h.depth)).findSome? _ =
      (List.range' 1 (min h.depth h.depth)).findSome? _
    rw [Nat.min_eq_right deep, Nat.min_self]

/-- A hunk with two context lines in front of its change and one behind it. -/
def framed : Hunk where
  old := ⟨1, 4⟩
  new := ⟨1, 4⟩
  lines := [.context "p\n", .context "q\n", .delete "c\n", .insert "d\n", .context "r\n"]

/-- Its deleted line stands twice in a file without its context, as near to where it is
expected on either side. -/
theorem trimmed_least_framed :
    0 + min 3 framed.leading < Text.wordLimit ∧
      trimmed #["a\n", "c\n", "b\n", "c\n"] 0 4 0 framed 3 =
        some ⟨3, 1, [.delete "c\n", .insert "d\n"], 2, .trimmed 2, true⟩ ∧
      ∃ fuzz, 1 ≤ fuzz ∧ fuzz ≤ 3 ∧ Least #["a\n", "c\n", "b\n", "c\n"] 0 4 0 framed fuzz
        ⟨3, 1, [.delete "c\n", .insert "d\n"], 2, .trimmed 2, true⟩ :=
  ⟨by decide, by decide, (trimmed_least _ 0 4 0 framed 3 (by decide)).2.1 _ (by decide)⟩

/-- A hunk recorded at the largest line number there is. -/
def farthest : Hunk where
  old := ⟨Text.wordLimit - 1, 3⟩
  new := ⟨1, 2⟩
  lines := [.context "p\n", .context "q\n", .delete "c\n"]

/-- Behind the largest word positions begin again at zero: the hunk is put at the front of
a file, though no level has a spot there. -/
theorem trimmed_farthest :
    trimmed #["c\n"] 0 1 farthest.origin farthest 2 =
        some ⟨0, 1, [.delete "c\n"], 2, .trimmed 2, true⟩ ∧
      ∀ fuzz start, ¬ Usable #["c\n"] 0 1 farthest.origin farthest fuzz start := by
  refine ⟨by decide, fun fuzz start usable => ?_⟩
  have near := usable.stands.near
  have stop := usable.stands.stop_le
  have origin : farthest.origin = 18446744073709551614 := by decide
  simp only [origin, gap, maxDisplacement] at near
  simp only [List.size_toArray, List.length_cons, List.length_nil] at stop
  omega

end Placement
end Patchwork
