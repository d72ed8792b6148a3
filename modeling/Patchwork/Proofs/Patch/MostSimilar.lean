import Patchwork.Proofs.Patch.Likeness
import Patchwork.Proofs.Patch.Search
import Patchwork.Proofs.Patch.Windows
import Patchwork.Proofs.Text.Cut

/-! The most similar window.  The search keeps one window with its score, and a later one takes its
place only if it is preferred to it (`preferred_of_improves`).  Preference is an order in which no
two windows are equal (`Preferred.antisymm`), so that what is kept at the end is preferred to every
window (`preferred_foldl_better`): the search finds the most similar window if there is one
(`mostSimilar_eq_some_iff`), for whatever scores.  The scores are means with 53 binary places.  They
are near to the exact means (`abs_windowLikeness_sub_le`), though not always in the same order
(`mostSimilar_almostAlike`). -/

namespace Patchwork

namespace Placement
variable {score : List String → List String → Rat} {lines : Array String}
  {lower upper expected : Nat} {wanted : List String}

/-! ## The choice among windows -/

/-- **A window that is preferred to another**, both with their scores: it scores higher, or as high
and lies nearer to the expected position, or as near and is not the later one. -/
def Preferred (expected : Nat) (p q : Nat × Rat) : Prop :=
  q.2 < p.2 ∨ q.2 = p.2 ∧ (gap p.1 expected < gap q.1 expected ∨
    gap p.1 expected = gap q.1 expected ∧ p.1 ≤ q.1)

theorem Preferred.refl (p : Nat × Rat) : Preferred expected p p :=
  .inr ⟨rfl, .inr ⟨rfl, Nat.le_refl _⟩⟩

theorem Preferred.trans {p q r : Nat × Rat} (h : Preferred expected p q)
    (k : Preferred expected q r) : Preferred expected p r := by
  rcases h with higher | ⟨same, nearer⟩
  · rcases k with lower | ⟨equal, -⟩
    · exact .inl (lower.trans higher)
    · exact .inl (equal ▸ higher)
  · rcases k with lower | ⟨equal, near⟩
    · exact .inl (same ▸ lower)
    · exact .inr ⟨equal.trans same, by omega⟩

theorem Preferred.antisymm {p q : Nat × Rat} (h : Preferred expected p q)
    (k : Preferred expected q p) : p = q := by
  rcases h with higher | ⟨same, nearer⟩
  · rcases k with lower | ⟨equal, -⟩
    · exact absurd lower higher.not_gt
    · exact absurd equal higher.ne'
  · rcases k with lower | ⟨-, near⟩
    · exact absurd same lower.ne'
    · exact Prod.ext (by omega) same.symm

theorem preferred_of_improves {best : Nat × Rat} {start : Nat} {value : Rat}
    (h : improves expected best start value) : Preferred expected (start, value) best := by
  simp only [improves, Bool.or_eq_true, Bool.and_eq_true, decide_eq_true_eq, beq_iff_eq] at h
  rcases h with higher | ⟨same, nearer⟩
  · exact .inl higher
  · exact .inr ⟨same.symm, .inl nearer⟩

/-- A window in front of another is preferred to it unless the other one improves on it. -/
theorem preferred_of_not_improves {best : Nat × Rat} {start : Nat} {value : Rat}
    (before : best.1 ≤ start) (h : ¬ improves expected best start value) :
    Preferred expected best (start, value) := by
  simp only [improves, Bool.or_eq_true, Bool.and_eq_true, decide_eq_true_eq, beq_iff_eq, not_or,
    not_and] at h
  obtain ⟨high, near⟩ := h
  rcases lt_or_eq_of_le (not_lt.mp high) with lower | same
  · exact .inl lower
  · have := near same
    exact .inr ⟨same, by simp only; omega⟩

/-- The score of the window at a position. -/
def scoreAt (score : List String → List String → Rat) (lines : Array String)
    (wanted : List String) (start : Nat) : Rat := score (windowAt lines start wanted.length) wanted

/-- **The running choice is preferred to every window that it has passed.**  The windows come in
order, so that one passed before stands in front. -/
theorem preferred_foldl_better (score : List String → List String → Rat) (lines : Array String)
    (expected : Nat) (wanted : List String) {starts : List Nat} (best : Nat × Rat)
    (sorted : (best.1 :: starts).Pairwise (· < ·)) :
    ∃ found, starts.foldl (better score lines expected wanted) (some best) = some found ∧
      Preferred expected found best ∧
      ∀ start ∈ starts, Preferred expected found (start, scoreAt score lines wanted start) := by
  induction starts generalizing best with
  | nil => exact ⟨best, rfl, .refl best, nofun⟩
  | cons start starts ih =>
    obtain ⟨behind, rest⟩ := List.pairwise_cons.mp sorted
    by_cases improved : improves expected best start (scoreAt score lines wanted start)
    · have step : better score lines expected wanted (some best) start =
          some (start, scoreAt score lines wanted start) := if_pos improved
      obtain ⟨found, hfound, first, others⟩ := ih (start, _) rest
      refine ⟨found, ?_, first.trans (preferred_of_improves improved),
        List.forall_mem_cons.mpr ⟨first, others⟩⟩
      rw [List.foldl_cons, step, hfound]
    · have step : better score lines expected wanted (some best) start = some best :=
        if_neg improved
      have before := behind start List.mem_cons_self
      obtain ⟨found, hfound, first, others⟩ := ih best
        (List.pairwise_cons.mpr ⟨fun s hs => behind s (List.mem_cons_of_mem _ hs), rest.tail⟩)
      refine ⟨found, ?_, first, List.forall_mem_cons.mpr
        ⟨first.trans (preferred_of_not_improves before.le improved), others⟩⟩
      rw [List.foldl_cons, step, hfound]

/-- **The most similar window.**  It lies inside the bounds, no window scores higher, none that
scores as high is nearer to the expected position, and of those equally near it is the first. -/
structure IsMostSimilar (score : List String → List String → Rat) (lines : Array String)
    (lower upper expected : Nat) (wanted : List String) (found : Nat × Rat) : Prop where
  nonempty : wanted ≠ []
  lower_le : lower ≤ found.1
  stop_le : found.1 + wanted.length ≤ min upper lines.size
  score_eq : found.2 = scoreAt score lines wanted found.1
  maximal : ∀ start, lower ≤ start → start + wanted.length ≤ min upper lines.size →
    scoreAt score lines wanted start ≤ found.2
  nearest : ∀ start, lower ≤ start → start + wanted.length ≤ min upper lines.size →
    scoreAt score lines wanted start = found.2 →
      gap found.1 expected < gap start expected ∨
        gap found.1 expected = gap start expected ∧ found.1 ≤ start

theorem IsMostSimilar.preferred {found : Nat × Rat}
    (h : IsMostSimilar score lines lower upper expected wanted found) {start : Nat}
    (lower_le : lower ≤ start) (stop_le : start + wanted.length ≤ min upper lines.size) :
    Preferred expected found (start, scoreAt score lines wanted start) := by
  rcases lt_or_eq_of_le (h.maximal start lower_le stop_le) with less | same
  · exact .inl less
  · exact .inr ⟨same, h.nearest start lower_le stop_le same⟩

theorem IsMostSimilar.unique {p q : Nat × Rat}
    (h : IsMostSimilar score lines lower upper expected wanted p)
    (k : IsMostSimilar score lines lower upper expected wanted q) : p = q := by
  have first := h.preferred k.lower_le k.stop_le
  have second := k.preferred h.lower_le h.stop_le
  rw [← k.score_eq] at first
  rw [← h.score_eq] at second
  exact first.antisymm second

/-- No window is looked for where none fits. -/
theorem mostSimilar_eq_none (h : wanted = [] ∨ min upper lines.size - lower < wanted.length) :
    mostSimilar score lines lower upper expected wanted = none := if_pos h

/-- A window is found wherever one fits. -/
theorem exists_mostSimilar (score : List String → List String → Rat) (lines : Array String)
    (lower upper expected : Nat) {wanted : List String} (nonempty : wanted ≠ [])
    (fits : wanted.length ≤ min upper lines.size - lower) :
    ∃ found, mostSimilar score lines lower upper expected wanted = some found ∧
      IsMostSimilar score lines lower upper expected wanted found := by
  have positive := List.length_pos_iff.mpr nonempty
  have choice : mostSimilar score lines lower upper expected wanted =
      (List.range' lower (min upper lines.size - wanted.length - lower + 1)).foldl
        (better score lines expected wanted) none :=
    if_neg (not_or.mpr ⟨nonempty, Nat.not_lt.mpr fits⟩)
  have sorted := List.pairwise_lt_range' (s := lower)
    (n := min upper lines.size - wanted.length - lower + 1)
  have mem {start : Nat} (hlower : lower ≤ start)
      (hstop : start + wanted.length ≤ min upper lines.size) :
      start = lower ∨ start ∈ List.range' (lower + 1)
        (min upper lines.size - wanted.length - lower) := by
    rw [List.mem_range'_1]
    omega
  rw [List.range'_succ] at choice sorted
  obtain ⟨found, hfound, first, others⟩ := preferred_foldl_better score lines expected wanted
    (lower, scoreAt score lines wanted lower) sorted
  have preferred {start : Nat} (hlower : lower ≤ start)
      (hstop : start + wanted.length ≤ min upper lines.size) :
      Preferred expected found (start, scoreAt score lines wanted start) := by
    rcases mem hlower hstop with rfl | later
    · exact first
    · exact others start later
  have result : mostSimilar score lines lower upper expected wanted = some found := by
    rw [choice, List.foldl_cons]
    exact hfound
  obtain ⟨inside, stop, own⟩ := of_mostSimilar result
  refine ⟨found, result, nonempty, inside, stop, own, fun start hlower hstop => ?_,
    fun start hlower hstop same => ?_⟩
  · rcases preferred hlower hstop with less | ⟨same, -⟩
    · exact less.le
    · exact same.le
  · rcases preferred hlower hstop with less | ⟨-, near⟩
    · exact absurd same less.ne
    · exact near

theorem mostSimilar_eq_some_iff {found : Nat × Rat} :
    mostSimilar score lines lower upper expected wanted = some found ↔
      IsMostSimilar score lines lower upper expected wanted found := by
  constructor
  · intro result
    have room : ¬ (wanted = [] ∨ min upper lines.size - lower < wanted.length) := fun none => by
      rw [mostSimilar_eq_none none] at result
      cases result
    obtain ⟨nonempty, fits⟩ := not_or.mp room
    obtain ⟨other, found, chosen⟩ := exists_mostSimilar score lines lower upper expected nonempty
      (Nat.not_lt.mp fits)
    rw [found] at result
    cases result
    exact chosen
  · intro chosen
    have lower_le := chosen.lower_le
    have stop_le := chosen.stop_le
    obtain ⟨other, result, same⟩ := exists_mostSimilar score lines lower upper expected
      chosen.nonempty (by omega)
    rw [result, same.unique chosen]

theorem mostSimilar_eq_none_iff : mostSimilar score lines lower upper expected wanted = none ↔
    wanted = [] ∨ min upper lines.size - lower < wanted.length := by
  refine ⟨fun none => ?_, mostSimilar_eq_none⟩
  by_contra room
  obtain ⟨nonempty, fits⟩ := not_or.mp room
  obtain ⟨found, result, -⟩ := exists_mostSimilar score lines lower upper expected nonempty
    (Nat.not_lt.mp fits)
  rw [none] at result
  cases result

end Placement

/-! ## Rounded means -/

/-- The sum of the likenesses of some pairs of lines, added to what there is. -/
def totalLikeness (round : Rat → Rat) (sum : Rat) (pairs : List (String × String)) : Rat :=
  pairs.foldl
    (fun sum pair => round (sum + likenessIn round (Text.trim pair.1) (Text.trim pair.2))) sum

theorem windowLikenessIn_eq (round : Rat → Rat) (window wanted : List String) :
    windowLikenessIn round window wanted =
      round (totalLikeness round 0 (window.zip wanted) / wanted.length) := rfl

/-- **Rounded sums stay near to the exact ones.**  A sum of `count` likenesses is `count` at most,
and each of them adds an error of its own and that of rounding a sum of at most `n`. -/
theorem totalLikeness_near {n : Nat} (short : n < 2 ^ 53) (pairs : List (String × String))
    (count : Nat) (room : count + pairs.length ≤ n) (sum exact : Rat) (nonneg : 0 ≤ sum)
    (le : sum ≤ count) (near : |sum - exact| ≤ count * ((n + 2) / 2 ^ 53)) :
    0 ≤ totalLikeness Binary64.nearest sum pairs ∧
      totalLikeness Binary64.nearest sum pairs ≤ (count + pairs.length : Nat) ∧
      |totalLikeness Binary64.nearest sum pairs - totalLikeness id exact pairs| ≤
        (count + pairs.length : Nat) * ((n + 2) / 2 ^ 53) := by
  induction pairs generalizing count sum exact with
  | nil => exact ⟨nonneg, le, near⟩
  | cons pair pairs ih =>
    rw [List.length_cons] at room ⊢
    obtain ⟨own_nonneg, own_le⟩ := likeness_mem_unit (Text.trim pair.1) (Text.trim pair.2)
    have own := abs_likeness_sub_le (Text.trim pair.1) (Text.trim pair.2)
    have added : 0 ≤ sum + likeness (Text.trim pair.1) (Text.trim pair.2) :=
      add_nonneg nonneg own_nonneg
    have bound : sum + likeness (Text.trim pair.1) (Text.trim pair.2) ≤ (count + 1 : Nat) := by
      push_cast
      linarith
    have fits : ((count + 1 : Nat) : Rat) ≤ n := by exact_mod_cast (by omega : count + 1 ≤ n)
    have rounding := Binary64.abs_nearest_sub_le_of_le added (m := n) (by omega) (bound.trans fits)
    have next := ih (count + 1) (by omega)
      (Binary64.nearest (sum + likeness (Text.trim pair.1) (Text.trim pair.2)))
      (exact + likenessIn id (Text.trim pair.1) (Text.trim pair.2))
      (Binary64.nearest_nonneg added) (Binary64.nearest_le added bound (by omega)) ?_
    · rw [Nat.add_right_comm, Nat.add_assoc] at next
      exact next
    · rw [abs_le] at near own rounding ⊢
      push_cast
      rw [add_mul, add_div] at *
      constructor <;> linarith

/-- **The mean likeness with 53 binary places is near to the exact one.** -/
theorem abs_windowLikeness_sub_le {window wanted : List String}
    (same : window.length = wanted.length) (nonempty : wanted ≠ [])
    (short : wanted.length < 2 ^ 53) :
    |windowLikeness window wanted - windowLikenessIn id window wanted| ≤
      (wanted.length + 3) / 2 ^ 53 := by
  have positive : (0 : Rat) < wanted.length := by exact_mod_cast List.length_pos_iff.mpr nonempty
  have pairs : (window.zip wanted).length = wanted.length := by simp [same]
  obtain ⟨nonneg, le, near⟩ := totalLikeness_near short (window.zip wanted) 0 (by omega) 0 0 le_rfl
    (by simp) (by simp)
  rw [Nat.zero_add, pairs] at le near
  rw [windowLikeness, windowLikenessIn_eq, windowLikenessIn_eq, id]
  generalize totalLikeness Binary64.nearest 0 (window.zip wanted) = total at nonneg le near
  generalize totalLikeness id 0 (window.zip wanted) = exact at near
  have rounding := Binary64.abs_nearest_sub_le_of_le (q := total / wanted.length)
    (div_nonneg nonneg positive.le) one_pos (by rw [Nat.cast_one, div_le_one positive]; exact le)
  have mean : |total / wanted.length - exact / wanted.length| ≤ (wanted.length + 2) / 2 ^ 53 := by
    rw [← sub_div, abs_div, abs_of_pos positive, div_le_iff₀ positive, mul_comm]
    exact near
  rw [Nat.cast_one] at rounding
  calc |Binary64.nearest (total / wanted.length) - exact / wanted.length|
      ≤ |Binary64.nearest (total / wanted.length) - total / wanted.length| +
        |total / wanted.length - exact / wanted.length| := abs_sub_le _ _ _
    _ ≤ 1 / 2 ^ 53 + (wanted.length + 2) / 2 ^ 53 := add_le_add rounding mean
    _ = (wanted.length + 3) / 2 ^ 53 := by ring

namespace Placement

/-- **The most similar window is the best one for the scores as they are computed**, whatever way
they are rounded; without rounding for the exact means.  With 53 binary places the exact mean of the
window that is found falls short of that of no other by more than the rounding of two means. -/
theorem mostSimilar_best (lines : Array String) (lower upper expected : Nat)
    (wanted : List String) :
    (∀ round : Rat → Rat,
      (∀ found,
        mostSimilar (windowLikenessIn round) lines lower upper expected wanted = some found ↔
          IsMostSimilar (windowLikenessIn round) lines lower upper expected wanted found) ∧
      (mostSimilar (windowLikenessIn round) lines lower upper expected wanted = none ↔
        wanted = [] ∨ min upper lines.size - lower < wanted.length)) ∧
    (wanted.length < 2 ^ 53 →
      ∀ found, mostSimilar windowLikeness lines lower upper expected wanted = some found →
        ∀ start, lower ≤ start → start + wanted.length ≤ min upper lines.size →
          scoreAt (windowLikenessIn id) lines wanted start ≤
            scoreAt (windowLikenessIn id) lines wanted found.1 + (wanted.length + 3) / 2 ^ 52) := by
  refine ⟨fun round => ⟨fun _ => mostSimilar_eq_some_iff, mostSimilar_eq_none_iff⟩,
    fun short found result start lower_le stop_le => ?_⟩
  have best := mostSimilar_eq_some_iff.mp result
  have most := best.maximal start lower_le stop_le
  rw [best.score_eq] at most
  have window {place : Nat} (stop : place + wanted.length ≤ min upper lines.size) :
      |scoreAt windowLikeness lines wanted place - scoreAt (windowLikenessIn id) lines wanted place| ≤
        (wanted.length + 3) / 2 ^ 53 :=
    abs_windowLikeness_sub_le (length_windowAt (Nat.le_trans stop (Nat.min_le_right _ _)))
      best.nonempty short
  have here := abs_le.mp (window best.stop_le)
  have there := abs_le.mp (window stop_le)
  have twice : ((wanted.length : Rat) + 3) / 2 ^ 52 =
      (wanted.length + 3) / 2 ^ 53 + (wanted.length + 3) / 2 ^ 53 := by ring
  rw [twice]
  linarith [here.1, here.2, there.1, there.2]

/-- Of two equal windows around the expected position the first one is found. -/
theorem mostSimilar_best_between :
    IsMostSimilar windowLikeness #["a\n", "b\n", "a\n"] 0 3 1 ["a\n"] (0, 1) ∧
      ∀ start, 0 ≤ start → start + 1 ≤ 3 →
        scoreAt (windowLikenessIn id) #["a\n", "b\n", "a\n"] ["a\n"] start ≤
          scoreAt (windowLikenessIn id) #["a\n", "b\n", "a\n"] ["a\n"] 0 +
            (((["a\n"] : List String).length : Rat) + 3) / 2 ^ 52 := by
  have best := mostSimilar_best #["a\n", "b\n", "a\n"] 0 3 1 ["a\n"]
  have found : mostSimilar windowLikeness #["a\n", "b\n", "a\n"] 0 3 1 ["a\n"] = some (0, 1) := by
    decide +kernel
  exact ⟨((best.1 Binary64.nearest).1 (0, 1)).mp found, best.2 (by decide) (0, 1) found⟩

/-! ## Windows that are almost alike -/

/-- The likeness of two texts that are given by their characters. -/
theorem likenessIn_ofList (round : Rat → Rat) (as bs : List Char) :
    likenessIn round (String.ofList as) (String.ofList bs) =
      if as = bs then 1
      else round (1 - round (mkRat (EditDistance.distance as bs) (max as.length bs.length))) := by
  simp only [likenessIn, String.toList_ofList, String.ofList_inj]

/-- The lines of some words. -/
def wordLines (words : List (List Char)) : List String :=
  words.map fun word => String.ofList (word ++ ['\n'])

/-- The line end of a word is trimmed. -/
theorem trim_wordLine {word : List Char} (solid : ∀ c ∈ word, Text.isBlank c = false) :
    Text.trim (String.ofList (word ++ ['\n'])) = String.ofList word := by
  have ended : Text.dropWhileEnd Text.isBlank (word ++ ['\n']) =
      Text.dropWhileEnd Text.isBlank word := by
    rw [Text.dropWhileEnd, Text.dropWhileEnd, List.reverse_append]
    rfl
  have kept := Text.trim_of_no_blank (s := String.ofList word) (by rwa [String.toList_ofList])
  cases word with
  | nil => rfl
  | cons c rest =>
    have first := solid c List.mem_cons_self
    rw [Text.trim, String.toList_ofList, List.dropWhile_cons_of_neg (by simp [first])] at kept
    rw [Text.trim, String.toList_ofList, List.cons_append,
      List.dropWhile_cons_of_neg (by simp [first]), ← List.cons_append, ended, kept]

/-- **The score of a window of words**, without the texts. -/
theorem scoreAt_wordLines (round : Rat → Rat) {words wanted : List (List Char)}
    (solid : ∀ word ∈ words ++ wanted, ∀ c ∈ word, Text.isBlank c = false) (start : Nat) :
    scoreAt (windowLikenessIn round) (wordLines words).toArray (wordLines wanted) start =
      round ((((words.drop start).take wanted.length).zip wanted).foldl
        (fun sum pair => round (sum + if pair.1 = pair.2 then 1
          else round (1 - round (mkRat (EditDistance.distance pair.1 pair.2)
            (max pair.1.length pair.2.length))))) 0 / (wanted.length : Rat)) := by
  have window : windowAt (wordLines words).toArray start (wordLines wanted).length =
      wordLines ((words.drop start).take wanted.length) := by
    simp [windowAt_eq, wordLines, List.map_drop, List.map_take]
  have pairs : ∀ pair ∈ ((words.drop start).take wanted.length).zip wanted,
      (∀ c ∈ pair.1, Text.isBlank c = false) ∧ ∀ c ∈ pair.2, Text.isBlank c = false :=
    fun pair listed =>
      have ⟨left, right⟩ := List.of_mem_zip listed
      ⟨solid _ (List.mem_append_left _ (List.mem_of_mem_drop (List.mem_of_mem_take left))),
        solid _ (List.mem_append_right _ right)⟩
  rw [scoreAt, window, windowLikenessIn_eq, totalLikeness]
  simp only [wordLines, List.zip_map, List.foldl_map, List.length_map]
  refine congrArg (fun total => round (total / (wanted.length : Rat)))
    (List.foldl_ext _ _ _ fun sum pair listed => ?_)
  obtain ⟨left, right⟩ := pairs pair listed
  simp only [Prod.map_fst, Prod.map_snd]
  rw [trim_wordLine left, trim_wordLine right, likenessIn_ofList]

/-- A word that has one letter some times and is filled up with another one. -/
def filledUp (c : Char) (count length : Nat) : List Char :=
  List.replicate count c ++ List.replicate (length - count) 'z'

/-- The words that are looked for. -/
def sought : List (List Char) :=
  [filledUp 'a' 4 4, filledUp 'b' 6 6, filledUp 'c' 2 2, filledUp 'd' 3 3, filledUp 'e' 7 7,
    filledUp 'f' 6 6]

/-- Two windows that are almost equally similar to them, one behind the other. -/
def almostAlike : List (List Char) :=
  [filledUp 'a' 4 9, filledUp 'b' 6 11, filledUp 'c' 2 43, filledUp 'd' 3 17, filledUp 'e' 7 41,
    filledUp 'f' 4 23, filledUp 'a' 4 29, filledUp 'b' 3 8, filledUp 'c' 2 37, filledUp 'd' 3 7,
    filledUp 'e' 7 19, filledUp 'f' 6 31]

/-- **The window that is found need not be the best one for the exact means.** -/
theorem mostSimilar_almostAlike : ∃ found,
    mostSimilar windowLikeness (wordLines almostAlike).toArray 0 12 0 (wordLines sought) =
        some found ∧
      scoreAt (windowLikenessIn id) (wordLines almostAlike).toArray (wordLines sought) found.1 <
        scoreAt (windowLikenessIn id) (wordLines almostAlike).toArray (wordLines sought) 0 := by
  have plain : (almostAlike ++ sought).all fun word => word.all fun c => !Text.isBlank c := by
    decide +kernel
  have solid : ∀ word ∈ almostAlike ++ sought, ∀ c ∈ word, Text.isBlank c = false := by
    simpa only [List.all_eq_true, Bool.not_eq_true'] using plain
  obtain ⟨found, result, best⟩ := exists_mostSimilar windowLikeness (wordLines almostAlike).toArray
    0 12 0 (show wordLines sought ≠ [] by decide) (by decide)
  refine ⟨found, result, ?_⟩
  -- Windows in between have no letter in common with the words; the last one scores higher than
  -- the first with 53 places.
  have higher : scoreAt windowLikeness (wordLines almostAlike).toArray (wordLines sought) 0 <
      scoreAt windowLikeness (wordLines almostAlike).toArray (wordLines sought) 6 := by
    rw [show windowLikeness = windowLikenessIn Binary64.nearest from rfl,
      scoreAt_wordLines _ solid, scoreAt_wordLines _ solid]
    decide +kernel
  have others : ∀ start < 7, start ≠ 0 →
      scoreAt (windowLikenessIn id) (wordLines almostAlike).toArray (wordLines sought) start <
        scoreAt (windowLikenessIn id) (wordLines almostAlike).toArray (wordLines sought) 0 := by
    simp only [scoreAt_wordLines _ solid]
    decide +kernel
  have bound : found.1 < 7 := by
    have := best.stop_le
    have : (wordLines sought).length = 6 := rfl
    have : (wordLines almostAlike).toArray.size = 12 := rfl
    omega
  refine others _ bound fun first => ?_
  have most := best.maximal 6 (Nat.zero_le _) (by decide)
  rw [best.score_eq, first] at most
  exact absurd higher (not_lt.mpr most)

end Placement
end Patchwork
