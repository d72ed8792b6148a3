import Patchwork.Script.Edit
/-!
Compaction of an edit script: every deleted and then every inserted stretch is slid up and then
down over the kept stretches around it as far as it goes, and stretches of one kind that come to
touch are merged. Sliding a stretch `ab…z` over a kept `z` turns `z | ab…z` into `zab… | z`, so both
sides of the script stay as they are.
-/
namespace Patchwork.EditScript
variable {α : Type} [DecidableEq α]

/-- Slides a stretch up over kept items, the nearest first: what is left of them, the stretch, and
the items that are below it now. -/
def slideUp : List α → List α → List α → List α × List α × List α
  | k :: above, stretch, below =>
    if stretch.getLast? = some k then slideUp above (k :: stretch.dropLast) (k :: below)
    else (k :: above, stretch, below)
  | [], stretch, below => ([], stretch, below)

/-- Slides a stretch down over kept items, the nearest first: the items that are above it now in
reverse order, the stretch, and what is left. -/
def slideDown : List α → List α → List α → List α × List α × List α
  | above, stretch, k :: below =>
    match stretch with
    | [] => (above, [], k :: below)
    | s :: rest =>
      if s = k then slideDown (k :: above) (rest ++ [k]) below else (above, stretch, k :: below)
  | above, stretch, [] => (above, stretch, [])

/-- Puts kept items in front of a script, into its first stretch if that is kept. -/
def keepFirst (xs : List α) : EditScript α → EditScript α
  | [] => if xs = [] then [] else [.keep xs]
  | .keep ys :: rest => .keep (xs ++ ys) :: rest
  | e :: rest => if xs = [] then e :: rest else .keep xs :: e :: rest

/-- Puts kept items after the stretches above, nearest first, into the nearest if that is kept. -/
def keepLast (above : List (Edit α)) (xs : List α) : List (Edit α) :=
  match above with
  | [] => if xs = [] then [] else [.keep xs]
  | .keep ys :: rest => .keep (ys ++ xs) :: rest
  | e :: rest => if xs = [] then e :: rest else .keep xs :: e :: rest

/-- A stretch in its script: the stretches above it, nearest first, and those below. -/
structure Focus (α : Type) where
  above : List (Edit α)
  here : Edit α
  below : List (Edit α)

/-- Moves a changed stretch as far up as it goes. -/
def liftFocus : List (Edit α) → Edit α → List (Edit α) → Focus α
  | [], here, below => ⟨[], here, below⟩
  | .keep xs :: above, here, below =>
    let (left, stretch, passed) := slideUp xs.reverse here.items []
    let below := keepFirst passed below
    if left = [] then liftFocus above (here.withItems stretch) below
    else ⟨.keep left.reverse :: above, here.withItems stretch, below⟩
  | e :: above, here, below =>
    if e.kind? = here.kind? then liftFocus above (here.withItems (e.items ++ here.items)) below
    else liftFocus above here (e :: below)

/-- Moves a changed stretch as far down as it goes. -/
def sinkFocus : List (Edit α) → Edit α → List (Edit α) → Focus α
  | above, here, [] => ⟨above, here, []⟩
  | above, here, .keep xs :: below =>
    let (passed, stretch, left) := slideDown [] here.items xs
    let above := keepLast above passed.reverse
    if left = [] then sinkFocus above (here.withItems stretch) below
    else ⟨above, here.withItems stretch, .keep left :: below⟩
  | above, here, e :: below =>
    if e.kind? = here.kind? then sinkFocus above (here.withItems (here.items ++ e.items)) below
    else sinkFocus (e :: above) here below

/-- How many stretches are of a kind. -/
def countKind (k : Edit.Kind) (s : List (Edit α)) : Nat := s.countP (·.kind? = some k)

omit [DecidableEq α] in
theorem kind?_withItems (e : Edit α) (xs : List α) : (e.withItems xs).kind? = e.kind? := by
  cases e <;> rfl

omit [DecidableEq α] in
theorem countKind_keep (k : Edit.Kind) (xs : List α) (s : List (Edit α)) :
    countKind k (.keep xs :: s) = countKind k s := by
  simp [countKind, Edit.kind?]

omit [DecidableEq α] in
theorem countKind_cons_of_ne {k : Edit.Kind} {e : Edit α} (h : e.kind? ≠ some k)
    (s : List (Edit α)) : countKind k (e :: s) = countKind k s := by
  simp [countKind, h]

omit [DecidableEq α] in
theorem countKind_cons_of_eq {k : Edit.Kind} {e : Edit α} (h : e.kind? = some k)
    (s : List (Edit α)) : countKind k (e :: s) = countKind k s + 1 := by
  simp [countKind, h]

omit [DecidableEq α] in
theorem countKind_keepFirst (k : Edit.Kind) (xs : List α) (s : List (Edit α)) :
    countKind k (keepFirst xs s) = countKind k s := by
  cases s with
  | nil => by_cases h : xs = [] <;> simp [keepFirst, h, countKind_keep]
  | cons e rest =>
    cases e <;> by_cases h : xs = [] <;> simp [keepFirst, h, countKind_keep]

/-- Moving a stretch up leaves as many of its kind below it, and it stays of its kind. -/
theorem countKind_liftFocus {k : Edit.Kind} (above : List (Edit α)) (here : Edit α)
    (below : List (Edit α)) (h : here.kind? = some k) :
    countKind k (liftFocus above here below).below = countKind k below ∧
      (liftFocus above here below).here.kind? = some k := by
  fun_induction liftFocus above here below with
  | case1 => exact ⟨rfl, h⟩
  | case2 here below xs above stretch passed below' hs ih =>
    have moved := ih (by rw [kind?_withItems, h])
    exact ⟨moved.1.trans (countKind_keepFirst ..), moved.2⟩
  | case3 here below xs above left stretch passed hs below' hl =>
    exact ⟨countKind_keepFirst .., by rw [kind?_withItems, h]⟩
  | case4 here below e above he hk ih => exact ih (by rw [kind?_withItems, h])
  | case5 here below e above he hk ih =>
    have := ih h
    exact ⟨this.1.trans (countKind_cons_of_ne (fun he' => hk (he'.trans h.symm)) _), this.2⟩

/-- Moving a stretch down leaves at most as many of its kind below it. -/
theorem countKind_sinkFocus {k : Edit.Kind} (above : List (Edit α)) (here : Edit α)
    (below : List (Edit α)) (h : here.kind? = some k) :
    countKind k (sinkFocus above here below).below ≤ countKind k below := by
  fun_induction sinkFocus above here below with
  | case1 => exact Nat.le_refl _
  | case2 above here xs below passed stretch above' hs ih =>
    rw [countKind_keep]
    exact ih (by rw [kind?_withItems, h])
  | case3 => exact Nat.le_of_eq (by rw [countKind_keep, countKind_keep])
  | case4 above here e below he hk ih =>
    rw [countKind_cons_of_eq (hk.trans h)]
    exact Nat.le_succ_of_le (ih (by rw [kind?_withItems, h]))
  | case5 above here e below he hk ih =>
    rw [countKind_cons_of_ne fun he' => hk (he'.trans h.symm)]
    exact ih h

/-- A stretch moved as far up and then as far down as it goes. -/
def settled (above : List (Edit α)) (here : Edit α) (below : List (Edit α)) : Focus α :=
  let up := liftFocus above here below
  sinkFocus up.above up.here up.below

/-- A settled stretch has fewer of its kind below it than there were with it. -/
theorem countKind_settled {k : Edit.Kind} (above : List (Edit α)) {here : Edit α}
    (below : List (Edit α)) (h : here.kind? = some k) :
    countKind k (settled above here below).below < countKind k (here :: below) := by
  have up := countKind_liftFocus above here below h
  rw [countKind_cons_of_eq h, ← up.1]
  exact Nat.lt_succ_of_le (countKind_sinkFocus _ _ _ up.2)

/-- Settles every stretch of a kind. After one is settled, all that is below its new place is looked
at again, so that one below it may come up and merge with it. -/
def settle (k : Edit.Kind) (above below : List (Edit α)) : EditScript α :=
  match below with
  | [] => above.reverse
  | e :: below =>
    if e.kind? = some k then
      let moved := settled above e below
      settle k (moved.here :: moved.above) moved.below
    else settle k (e :: above) below
termination_by (countKind k below, below.length)
decreasing_by
  · exact Prod.Lex.left _ _ (countKind_settled above below ‹_›)
  · rw [countKind_cons_of_ne ‹_›]
    exact Prod.Lex.right _ (Nat.lt_succ_self _)

/-- The script with its deletions and then its insertions settled. -/
def compact (s : EditScript α) : EditScript α :=
  settle .insertion [] (settle .deletion [] s)

end Patchwork.EditScript
