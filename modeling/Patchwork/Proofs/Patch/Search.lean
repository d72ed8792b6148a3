import Patchwork.Patch.Placement

/-! The searches for a hunk's place.  Every place that a search looks at lies inside
its bounds (`mem_candidates`, `mem_windows`), so whatever it finds does as well
(`standsIn_of_nearest`, `of_mostSimilar`).  The exact search finds the expected place
itself whenever the wanted lines stand there (`nearest_eq_expected`), and some place
whenever they stand anywhere within reach (`exists_nearest_of_standsIn`); none is nearer
than the one it finds (`gap_le_of_nearest`).  A search that goes outward distance by distance
and leaves off early finds the same (`outward_eq_nearest`), since a place near enough to be
trusted is met before the exit (`gap_clamped_le_exit`). -/

namespace Patchwork

theorem length_windowAt {lines : Array String} {start length : Nat}
    (h : start + length ≤ lines.size) : (windowAt lines start length).length = length := by
  simp only [windowAt, Array.length_toList, Array.size_extract]
  omega

theorem gap_self (a : Nat) : gap a a = 0 := by simp [gap]

/-- The first of some consecutive numbers that is mapped to something. -/
theorem findSome?_range'_eq_some_iff {α : Type} {f : Nat → Option α} {start length : Nat} {a : α} :
    (List.range' start length).findSome? f = some a ↔
      ∃ i, start ≤ i ∧ i < start + length ∧ f i = some a ∧ ∀ j, start ≤ j → j < i → f j = none := by
  induction length generalizing start with
  | zero => simp; omega
  | succ length ih =>
    rw [List.range'_succ, List.findSome?_cons]
    cases first : f start with
    | some b =>
      constructor
      · rintro ⟨⟩
        exact ⟨start, Nat.le_refl _, by omega, first, by omega⟩
      · rintro ⟨i, lower, -, found, before⟩
        rcases Nat.eq_or_lt_of_le lower with rfl | later
        · exact first.symm.trans found
        · rw [before start (Nat.le_refl _) later] at first
          cases first
    | none =>
      dsimp only
      rw [ih]
      constructor
      · rintro ⟨i, lower, upper, found, before⟩
        refine ⟨i, by omega, by omega, found, fun j hj hji => ?_⟩
        rcases Nat.eq_or_lt_of_le hj with rfl | later
        · exact first
        · exact before j later hji
      · rintro ⟨i, lower, upper, found, before⟩
        have later : start < i := by
          refine Nat.lt_of_le_of_ne lower ?_
          rintro rfl
          rw [first] at found
          cases found
        exact ⟨i, later, by omega, found, fun j hj => before j (by omega)⟩

/-- Numbers behind the last one that is mapped to something may be left out. -/
theorem findSome?_range'_of_le {α : Type} {f : Nat → Option α} {start few many : Nat}
    (le : few ≤ many) (vain : ∀ i, start + few ≤ i → i < start + many → f i = none) :
    (List.range' start many).findSome? f = (List.range' start few).findSome? f := by
  have behind : (List.range' (start + few) (many - few)).findSome? f = none := by
    rw [List.findSome?_eq_none_iff]
    intro i hi
    have := List.mem_range'_1.mp hi
    exact vain i this.1 (by omega)
  rw [← Nat.add_sub_cancel' le, ← List.range'_append_1, List.findSome?_append, behind,
    Option.or_none]

namespace Placement

/-! ## Exact search -/

theorem mem_atDistance {lower last first distance start : Nat} (hlower : lower ≤ first)
    (hlast : first ≤ last) (h : start ∈ atDistance lower last first distance) :
    lower ≤ start ∧ start ≤ last := by
  simp only [atDistance, List.mem_append] at h
  rcases h with h | h
  · split at h
    · obtain rfl := List.mem_singleton.mp h
      omega
    · cases h
  · split at h
    · obtain rfl := List.mem_singleton.mp h
      omega
    · cases h

/-- Every candidate of an exact search is the start of a window inside its bounds. -/
theorem mem_candidates {lower upper length expected distance start : Nat}
    (room : lower + length ≤ upper)
    (h : start ∈ atDistance lower (upper - length) (max lower (min expected (upper - length)))
      distance) :
    lower ≤ start ∧ start + length ≤ upper := by
  have := mem_atDistance (by omega) (by omega) h
  omega

/-- A place for lines as they are: inside the bounds, and not too far from the
expected one. -/
structure StandsIn (lines : Array String) (lower upper expected : Nat) (wanted : List String)
    (start : Nat) : Prop where
  lower_le : lower ≤ start
  stop_le : start + wanted.length ≤ min upper lines.size
  stands : windowAt lines start wanted.length = wanted
  near : gap start expected ≤ maxDisplacement

variable {lines : Array String} {lower upper expected : Nat} {wanted : List String}

theorem standsAt_iff {start : Nat} : standsAt lines expected wanted start = true ↔
    gap start expected ≤ maxDisplacement ∧ windowAt lines start wanted.length = wanted := by
  simp [standsAt]

theorem standsIn_of_nearest {start : Nat}
    (h : nearest lines lower upper expected wanted = some start) :
    StandsIn lines lower upper expected wanted start := by
  simp only [nearest] at h
  split at h
  · rename_i room
    obtain ⟨distance, -, found⟩ := List.exists_of_findSome?_eq_some h
    have inside := mem_candidates room (List.mem_of_find?_eq_some found)
    have stands := standsAt_iff.mp (List.find?_some found)
    exact ⟨inside.1, inside.2, stands.2, stands.1⟩
  · cases h

/-- **Nothing is nearer than the expected place.** -/
theorem nearest_eq_expected (hlower : lower ≤ expected)
    (hstop : expected + wanted.length ≤ min upper lines.size)
    (stands : windowAt lines expected wanted.length = wanted) :
    nearest lines lower upper expected wanted = some expected := by
  have first : max lower (min expected (min upper lines.size - wanted.length)) = expected := by
    omega
  have here : standsAt lines expected wanted expected = true :=
    standsAt_iff.mpr ⟨by rw [gap_self]; exact Nat.zero_le _, stands⟩
  -- the search begins at the expected place, which is its candidate at distance 0
  unfold nearest
  rw [if_pos (by omega)]
  simp only [first, List.range_succ_eq_map, List.findSome?_cons, atDistance, Nat.add_zero]
  rw [if_pos (by omega), List.cons_append, List.find?_cons_of_pos here]

/-- A start between the bounds is a candidate at its distance from the first one. -/
theorem mem_atDistance_gap {lower last first start : Nat} (hlower : lower ≤ start)
    (hlast : start ≤ last) : start ∈ atDistance lower last first (gap first start) := by
  simp only [atDistance, List.mem_append]
  rcases Nat.le_total first start with h | h
  · left
    have distance : first + gap first start = start := by
      unfold gap
      omega
    rw [distance, if_pos hlast]
    exact List.mem_singleton_self start
  · by_cases same : first = start
    · left
      rw [same, gap_self, Nat.add_zero, if_pos hlast]
      exact List.mem_singleton_self start
    · right
      have distance : first - gap first start = start := by
        unfold gap
        omega
      rw [if_pos (by unfold gap; omega), distance]
      exact List.mem_singleton_self start

/-- **The exact search overlooks no place**: where the wanted lines stand within reach,
it finds a place, if not that one then one that it looks at before. -/
theorem exists_nearest_of_standsIn {start : Nat}
    (h : StandsIn lines lower upper expected wanted start) :
    ∃ found, nearest lines lower upper expected wanted = some found := by
  have stop := h.stop_le
  have lower_le := h.lower_le
  have near := h.near
  rw [← Option.isSome_iff_exists]
  unfold nearest
  rw [if_pos (by omega), List.findSome?_isSome_iff]
  refine ⟨gap (max lower (min expected (min upper lines.size - wanted.length))) start, ?_, ?_⟩
  · -- the search looks far enough for a place that is near enough to be trusted
    rw [List.mem_range]
    unfold gap at near ⊢
    omega
  · rw [List.find?_isSome]
    exact ⟨start, mem_atDistance_gap lower_le (by omega), standsAt_iff.mpr ⟨near, h.stands⟩⟩

/-- Lines that stand nowhere else are found where they stand. -/
theorem nearest_eq_of_unique {start : Nat}
    (h : StandsIn lines lower upper expected wanted start)
    (unique : ∀ other, StandsIn lines lower upper expected wanted other → other = start) :
    nearest lines lower upper expected wanted = some start := by
  obtain ⟨found, hfound⟩ := exists_nearest_of_standsIn h
  rw [hfound, unique found (standsIn_of_nearest hfound)]

/-- A candidate at one distance lies that far from the first one. -/
theorem gap_of_mem_atDistance {lower last first distance start : Nat}
    (h : start ∈ atDistance lower last first distance) : gap first start = distance := by
  simp only [atDistance, List.mem_append] at h
  unfold gap
  rcases h with h | h
  · split at h
    · obtain rfl := List.mem_singleton.mp h
      omega
    · cases h
  · split at h
    · obtain rfl := List.mem_singleton.mp h
      omega
    · cases h

/-- Of two candidates at one distance the later one is looked at first. -/
theorem le_of_find?_atDistance {lower last first distance start other : Nat} {p : Nat → Bool}
    (found : (atDistance lower last first distance).find? p = some start)
    (mem : other ∈ atDistance lower last first distance) (hp : p other) : other ≤ start := by
  have within := gap_of_mem_atDistance mem
  unfold gap at within
  by_cases ahead : first + distance ≤ last ∧ p (first + distance)
  · rw [atDistance, if_pos ahead.1, List.cons_append, List.find?_cons_of_pos ahead.2] at found
    obtain rfl := Option.some.inj found
    omega
  · -- what lies ahead is none of them, so both are the one behind
    have behind {x : Nat} (hx : x ∈ atDistance lower last first distance) (hpx : p x) :
        x = first - distance := by
      simp only [atDistance, List.mem_append, List.mem_ite_nil_right, List.mem_singleton] at hx
      rcases hx with ⟨room, rfl⟩ | ⟨-, same⟩
      · exact absurd ⟨room, hpx⟩ ahead
      · exact same
    exact Nat.le_of_eq ((behind mem hp).trans
      (behind (List.mem_of_find?_eq_some found) (List.find?_some found)).symm)

/-- **The exact search finds the nearest place**, and of two equally near ones the later. -/
theorem gap_le_of_nearest {start other : Nat}
    (found : nearest lines lower upper expected wanted = some start)
    (place : StandsIn lines lower upper expected wanted other) :
    gap start expected < gap other expected ∨
      gap start expected = gap other expected ∧ other ≤ start := by
  have inside := standsIn_of_nearest found
  obtain ⟨lower_start, stop_start, -, -⟩ := inside
  obtain ⟨lower_other, stop_other, stands, near⟩ := place
  have here := standsAt_iff.mpr ⟨near, stands⟩
  simp only [nearest, List.range_eq_range'] at found
  rw [if_pos (by omega)] at found
  obtain ⟨distance, -, -, first, before⟩ := findSome?_range'_eq_some_iff.mp found
  have candidate := @mem_atDistance_gap lower _ (max lower (min expected
    (min upper lines.size - wanted.length))) other lower_other (Nat.le_sub_of_add_le stop_other)
  have reached := gap_of_mem_atDistance (List.mem_of_find?_eq_some first)
  -- nothing stands at a smaller distance from where the search begins
  have further : distance ≤ gap (max lower (min expected
      (min upper lines.size - wanted.length))) other := by
    refine Nat.le_of_not_lt fun nearer => ?_
    have none := before _ (Nat.zero_le _) nearer
    exact List.find?_eq_none.mp none other candidate here
  rcases Nat.eq_or_lt_of_le further with same | less
  · have later := le_of_find?_atDistance first (same ▸ candidate) here
    unfold gap at *
    omega
  · unfold gap at *
    omega

/-! ### The search with its early exit -/

/-- The line between `lower` and `last` that is nearest to the expected one. -/
def clamped (lower last expected : Nat) : Nat := max lower (min expected last)

theorem lower_le_clamped (lower last expected : Nat) : lower ≤ clamped lower last expected :=
  Nat.le_max_left _ _

theorem clamped_le {last : Nat} (room : lower ≤ last) : clamped lower last expected ≤ last :=
  Nat.max_le.mpr ⟨room, Nat.min_le_right _ _⟩

/-- No line between the two is nearer to the expected one. -/
theorem gap_clamped_le (expected : Nat) {last start : Nat} (hlower : lower ≤ start) (hlast : start ≤ last) :
    gap (clamped lower last expected) expected ≤ gap start expected := by
  unfold gap clamped
  omega

/-- The search outward from `first`, from some distance on, with its two exits: behind the last
distance that the bounds leave room for, and where it is further out than the largest displacement
lets a place lie, a sum that is taken in 64-bit words. -/
def outwardFrom (lines : Array String) (lower last expected first : Nat) (wanted : List String)
    (distance : Nat) : Option Nat :=
  if last - lower < distance ∨
      (gap first expected + maxDisplacement) % Text.wordLimit < distance then none
  else
    match (atDistance lower last first distance).find? (standsAt lines expected wanted) with
    | some start => some start
    | none => outwardFrom lines lower last expected first wanted (distance + 1)
termination_by last - lower + 1 - distance

/-- The search outward from the expected position, between two bounds. -/
def outward (lines : Array String) (lower upper expected : Nat) (wanted : List String) :
    Option Nat :=
  let upper := min upper lines.size
  if lower + wanted.length ≤ upper then
    let last := upper - wanted.length
    outwardFrom lines lower last expected (clamped lower last expected) wanted 0
  else none

/-- **The early exit skips no place**: one near enough to be trusted lies no further from where
the search begins than the distance at which it leaves off. -/
theorem gap_clamped_le_exit {last start : Nat} (hlower : lower ≤ start) (hlast : start ≤ last)
    (near : gap start expected ≤ maxDisplacement) :
    gap (clamped lower last expected) start ≤
      (gap (clamped lower last expected) expected + maxDisplacement) % Text.wordLimit := by
  have nearest := gap_clamped_le expected hlower hlast
  have small : 2 * maxDisplacement < Text.wordLimit := by decide
  rw [Nat.mod_eq_of_lt (by omega)]
  unfold gap at *
  omega

/-- Nothing stands behind the exit. -/
theorem find?_atDistance_of_exit {last distance : Nat} (room : lower ≤ last)
    (exit : (gap (clamped lower last expected) expected + maxDisplacement) % Text.wordLimit <
      distance) :
    (atDistance lower last (clamped lower last expected) distance).find?
      (standsAt lines expected wanted) = none := by
  rw [List.find?_eq_none]
  intro start candidate stands
  have inside := mem_atDistance (lower_le_clamped ..) (clamped_le room) candidate
  have within := gap_clamped_le_exit inside.1 inside.2 (standsAt_iff.mp stands).1
  rw [gap_of_mem_atDistance candidate] at within
  exact Nat.not_lt_of_le within exit

/-- The first place at any distance from where the search begins. -/
theorem outwardFrom_eq_findSome? {last : Nat} (room : lower ≤ last) (distance : Nat) :
    outwardFrom lines lower last expected (clamped lower last expected) wanted distance =
      (List.range' distance (last - lower + 1 - distance)).findSome? fun distance =>
        (atDistance lower last (clamped lower last expected) distance).find?
          (standsAt lines expected wanted) := by
  fun_induction outwardFrom lines lower last expected (clamped lower last expected) wanted
    distance with
  | case1 distance exit =>
    symm
    rw [List.findSome?_eq_none_iff]
    intro further hfurther
    have := List.mem_range'_1.mp hfurther
    rcases exit with beyond | exit
    · omega
    · exact find?_atDistance_of_exit room (Nat.lt_of_lt_of_le exit this.1)
  | case2 distance go start found =>
    rw [show last - lower + 1 - distance = last - lower - distance + 1 by omega, List.range'_succ,
      List.findSome?_cons, found]
  | case3 distance go vain ih =>
    rw [ih, show last - lower + 1 - distance = last - lower + 1 - (distance + 1) + 1 by omega,
      List.range'_succ, List.findSome?_cons, vain]

/-- **The search with its early exit finds what the search within reach does.** -/
theorem outward_eq_nearest (lines : Array String) (lower upper expected : Nat)
    (wanted : List String) :
    outward lines lower upper expected wanted = nearest lines lower upper expected wanted := by
  unfold outward nearest
  dsimp only
  split
  · rename_i room
    have inside : lower ≤ min upper lines.size - wanted.length := Nat.le_sub_of_add_le room
    generalize min upper lines.size - wanted.length = last at inside
    rw [outwardFrom_eq_findSome? inside, ← clamped, Nat.sub_zero, List.range_eq_range']
    -- nothing stands behind the distances within reach
    refine findSome?_range'_of_le (Nat.succ_le_succ (Nat.min_le_left _ _)) fun distance far _ => ?_
    exact find?_atDistance_of_exit inside (Nat.lt_of_le_of_lt (Nat.mod_le _ _) (by omega))
  · rfl

/-- **The place nearest to the expected one**: the wanted lines stand there, within reach, at no
other such place nearer, and of two equally near ones it is the later. -/
structure IsNearest (lines : Array String) (lower upper expected : Nat) (wanted : List String)
    (start : Nat) : Prop where
  stands : StandsIn lines lower upper expected wanted start
  least : ∀ other, StandsIn lines lower upper expected wanted other →
    gap start expected < gap other expected ∨
      gap start expected = gap other expected ∧ other ≤ start

theorem IsNearest.unique {start other : Nat}
    (h : IsNearest lines lower upper expected wanted start)
    (k : IsNearest lines lower upper expected wanted other) : start = other := by
  have := h.least other k.stands
  have := k.least start h.stands
  omega

theorem isNearest_of_nearest {start : Nat}
    (found : nearest lines lower upper expected wanted = some start) :
    IsNearest lines lower upper expected wanted start :=
  ⟨standsIn_of_nearest found, fun _ => gap_le_of_nearest found⟩

/-- **The exact search is optimal.**  It finds a place exactly where there is one, and then the nearest
one; so does the search with its early exit, which skips no place that is near enough. -/
theorem nearest_optimal (lines : Array String) (lower upper expected : Nat)
    (wanted : List String) :
    (∀ start, nearest lines lower upper expected wanted = some start ↔
      IsNearest lines lower upper expected wanted start) ∧
    (nearest lines lower upper expected wanted = none ↔
      ∀ start, ¬ StandsIn lines lower upper expected wanted start) ∧
    outward lines lower upper expected wanted = nearest lines lower upper expected wanted ∧
    ∀ start, StandsIn lines lower upper expected wanted start →
      gap (clamped lower (min upper lines.size - wanted.length) expected) start ≤
        (gap (clamped lower (min upper lines.size - wanted.length) expected) expected +
          maxDisplacement) % Text.wordLimit := by
  refine ⟨fun start => ⟨isNearest_of_nearest, fun place => ?_⟩, ⟨fun vain start place => ?_,
    fun nowhere => ?_⟩, outward_eq_nearest lines lower upper expected wanted, fun start place => ?_⟩
  · obtain ⟨found, hfound⟩ := exists_nearest_of_standsIn place.stands
    rw [hfound, (isNearest_of_nearest hfound).unique place]
  · obtain ⟨found, hfound⟩ := exists_nearest_of_standsIn place
    rw [vain] at hfound
    cases hfound
  · rw [Option.eq_none_iff_forall_ne_some]
    exact fun start found => nowhere start (standsIn_of_nearest found)
  · exact gap_clamped_le_exit place.lower_le (Nat.le_sub_of_add_le place.stop_le) place.near

/-- Of two equally near places the later one is found, and neither is skipped. -/
theorem nearest_optimal_between :
    nearest #["a", "x", "a", "a"] 0 4 1 ["a"] = some 2 ∧
      IsNearest #["a", "x", "a", "a"] 0 4 1 ["a"] 2 ∧
      StandsIn #["a", "x", "a", "a"] 0 4 1 ["a"] 0 ∧
      gap (clamped 0 (min 4 4 - 1) 1) 0 ≤
        (gap (clamped 0 (min 4 4 - 1) 1) 1 + maxDisplacement) % Text.wordLimit := by
  have found : nearest #["a", "x", "a", "a"] 0 4 1 ["a"] = some 2 := by decide
  have before : StandsIn #["a", "x", "a", "a"] 0 4 1 ["a"] 0 :=
    ⟨Nat.le_refl 0, by decide, by decide, by decide⟩
  obtain ⟨finds, -, -, exit⟩ := nearest_optimal #["a", "x", "a", "a"] 0 4 1 ["a"]
  exact ⟨found, (finds 2).mp found, before, exit 0 before⟩

/-! ## The most similar window -/

variable {score : List String → List String → Rat}

/-- Every window that is scored lies inside the bounds. -/
theorem mem_windows {length start : Nat} (room : ¬ upper - lower < length) (hlength : 0 < length)
    (h : start ∈ List.range' lower (upper - length - lower + 1)) :
    lower ≤ start ∧ start + length ≤ upper := by
  have := List.mem_range'_1.mp h
  omega

/-- The better of two is one of them. -/
theorem better_eq (best : Option (Nat × Rat)) (start : Nat) :
    better score lines expected wanted best start = best ∨
      better score lines expected wanted best start =
        some (start, score (windowAt lines start wanted.length) wanted) := by
  unfold better
  cases best with
  | none => exact .inr rfl
  | some found =>
    dsimp only
    split
    · exact .inr rfl
    · exact .inl rfl

/-- What a search for the most similar window finds is a window with its own score. -/
theorem of_foldl_better {starts : List Nat} {found : Nat × Rat}
    (h : starts.foldl (better score lines expected wanted) none = some found) :
    found.1 ∈ starts ∧ found.2 = score (windowAt lines found.1 wanted.length) wanted := by
  -- the best window so far is either the one begun with or one of those seen
  suffices key : ∀ best, starts.foldl (better score lines expected wanted) best = some found →
      best = some found ∨
        found.1 ∈ starts ∧ found.2 = score (windowAt lines found.1 wanted.length) wanted from
    (key none h).resolve_left nofun
  clear h
  induction starts with
  | nil => exact fun best h => .inl h
  | cons start starts ih =>
    intro best h
    rcases ih _ h with h | ⟨hmem, hscore⟩
    · rcases better_eq best start with hb | hb
      · exact .inl (hb.symm.trans h)
      · obtain rfl := Option.some.inj (hb.symm.trans h)
        exact .inr ⟨List.mem_cons_self, rfl⟩
    · exact .inr ⟨List.mem_cons_of_mem _ hmem, hscore⟩

theorem of_mostSimilar {found : Nat × Rat}
    (h : mostSimilar score lines lower upper expected wanted = some found) :
    lower ≤ found.1 ∧ found.1 + wanted.length ≤ min upper lines.size ∧
      found.2 = score (windowAt lines found.1 wanted.length) wanted := by
  simp only [mostSimilar] at h
  split at h
  · cases h
  · rename_i room
    obtain ⟨nonempty, room⟩ := not_or.mp room
    obtain ⟨hmem, hscore⟩ := of_foldl_better h
    have inside := mem_windows room (List.length_pos_iff.mpr nonempty) hmem
    exact ⟨inside.1, inside.2, hscore⟩

end Placement
end Patchwork
