import Mathlib.Algebra.Order.Field.Power
import Mathlib.Algebra.Order.Field.Rat
import Mathlib.Data.Rat.Lemmas
import Mathlib.Tactic.FieldSimp
import Mathlib.Tactic.Linarith
import Mathlib.Tactic.Positivity
import Mathlib.Tactic.Ring
import Patchwork.Number.Binary64

/-! How far rounding leads.  A number reaches 53 binary places above the place that it is
rounded at (`lastPlace_le`), unless it is among the least ones, and is told there in whole
units, up to half of one (`abs_units_sub_le`).  So rounding changes a number by no more than
the part of it that one in `2 ^ 53` is (`abs_nearest_sub_le`), and does not lead beyond a whole
number that has no more places than that (`nearest_le`). -/

namespace Patchwork.Binary64

/-! ## Whole numbers -/

/-- What is at most a whole number is not rounded beyond it. -/
theorem divNearestEven_le {num den k : Nat} (hden : 0 < den) (h : num ≤ k * den) :
    divNearestEven num den ≤ k := by
  have whole := Nat.div_add_mod num den
  have below : num / den ≤ k := Nat.div_le_of_le_mul (by rwa [Nat.mul_comm])
  unfold divNearestEven
  dsimp only
  rcases Nat.eq_or_lt_of_le below with same | less
  · -- the quotient is the whole number itself, and nothing is left
    have exact : num % den = 0 := by
      rw [same, Nat.mul_comm] at whole
      omega
    rw [exact, if_pos (by omega)]
    exact below
  · split_ifs <;> omega

theorem abs_divNearestEven_sub_le (num : Nat) {den : Nat} (hden : 0 < den) :
    |(divNearestEven num den : Rat) - (num : Rat) / den| ≤ 1 / 2 := by
  have positive : (0 : Rat) < den := by exact_mod_cast hden
  have whole : (den : Rat) * (num / den : Nat) + (num % den : Nat) = num := by
    exact_mod_cast Nat.div_add_mod num den
  have split : (num : Rat) / den = (num / den : Nat) + (num % den : Nat) / den := by
    rw [← whole]
    field_simp
  have rest : (0 : Rat) ≤ (num % den : Nat) / den := by positivity
  have less : ((num % den : Nat) : Rat) / den < 1 := by
    rw [div_lt_one positive]
    exact_mod_cast Nat.mod_lt num hden
  have parity : num / den % 2 = 0 ∨ num / den % 2 = 1 := by omega
  rw [split]
  unfold divNearestEven
  dsimp only
  split_ifs with lower tie
  · have half : ((num % den : Nat) : Rat) / den < 1 / 2 := by
      rw [div_lt_div_iff₀ positive (by norm_num)]
      exact_mod_cast (by omega : num % den * 2 < 1 * den)
    rw [abs_le]
    constructor <;> linarith
  · have half : ((num % den : Nat) : Rat) / den = 1 / 2 := by
      rw [div_eq_div_iff positive.ne' (by norm_num)]
      exact_mod_cast (by omega : num % den * 2 = 1 * den)
    rw [half]
    rcases parity with even | odd
    · rw [even, abs_le]
      constructor <;> push_cast <;> linarith
    · rw [odd, abs_le]
      constructor <;> push_cast <;> linarith
  · have half : (1 : Rat) / 2 < (num % den : Nat) / den := by
      rw [div_lt_div_iff₀ (by norm_num) positive]
      exact_mod_cast (by omega : 1 * den < num % den * 2)
    rw [abs_le]
    constructor <;> push_cast <;> linarith

/-! ## The grid -/

theorem twoPow_eq (e : Int) : twoPow e = (2 : Rat) ^ e := by
  unfold twoPow
  split_ifs with sign
  · obtain ⟨n, rfl⟩ := Int.eq_ofNat_of_zero_le sign
    simp
  · obtain ⟨n, rfl⟩ : ∃ n : Nat, e = -n := ⟨(-e).toNat, by omega⟩
    simp [Rat.mkRat_eq_div]

/-- A quotient lies below a power of two. -/
theorem div_lt_two_zpow_iff (num : Nat) {den : Nat} (hden : 0 < den) (k : Int) :
    (num : Rat) / den < (2 : Rat) ^ k ↔
      if 0 ≤ k then num < den * Nat.pow 2 k.toNat else num * Nat.pow 2 (-k).toNat < den := by
  have positive : (0 : Rat) < den := by exact_mod_cast hden
  split_ifs with sign
  · obtain ⟨n, rfl⟩ := Int.eq_ofNat_of_zero_le sign
    rw [div_lt_iff₀ positive, mul_comm, zpow_natCast, Int.toNat_natCast]
    exact_mod_cast Iff.rfl
  · obtain ⟨n, rfl⟩ : ∃ n : Nat, k = -n := ⟨(-k).toNat, by omega⟩
    rw [zpow_neg, zpow_natCast, div_lt_iff₀ positive, inv_mul_eq_div, lt_div_iff₀ (by positivity),
      neg_neg, Int.toNat_natCast]
    exact_mod_cast Iff.rfl

/-- The quotient of two numbers is at least half of that of their leading digits. -/
theorem two_zpow_log2_le {num den : Nat} (hnum : 0 < num) (hden : 0 < den) :
    (2 : Rat) ^ ((num.log2 : Int) - (den.log2 : Int) - 1) ≤ (num : Rat) / den := by
  have above : (2 : Rat) ^ num.log2 ≤ num := by exact_mod_cast Nat.log2_self_le hnum.ne'
  have below : (den : Rat) ≤ (2 : Rat) ^ (den.log2 + 1) := by
    exact_mod_cast (Nat.lt_log2_self (n := den)).le
  have split : (2 : Rat) ^ ((num.log2 : Int) - (den.log2 : Int) - 1) =
      2 ^ num.log2 / 2 ^ (den.log2 + 1) := by
    rw [sub_sub, zpow_sub₀ two_ne_zero, zpow_natCast]
    exact_mod_cast rfl
  rw [split]
  exact div_le_div₀ (by positivity) above (by exact_mod_cast hden) below

/-- A number reaches as far above its last place as there are places, unless it is among the
least. -/
theorem lastPlace_le {num den : Nat} (hnum : 0 < num) (hden : 0 < den) :
    lastPlace num den = -1074 ∨ (2 : Rat) ^ (lastPlace num den + 52) ≤ (num : Rat) / den := by
  have leading := two_zpow_log2_le hnum hden
  unfold lastPlace
  dsimp only
  generalize (num.log2 : Int) - (den.log2 : Int) = digits at *
  have below := div_lt_two_zpow_iff num hden (digits - 52 + 52)
  -- the guess is one too high exactly where the number lies below the power that it stands for
  have test : (if 0 ≤ digits - 52 + 52 then
      decide (num < den * Nat.pow 2 (digits - 52 + 52).toNat)
      else decide (num * Nat.pow 2 (-(digits - 52 + 52)).toNat < den)) =
      decide ((num : Rat) / den < (2 : Rat) ^ (digits - 52 + 52)) := by
    split_ifs at below ⊢ <;> exact decide_eq_decide.mpr below.symm
  rw [test]
  simp only [decide_eq_true_eq]
  split_ifs with less
  · rcases max_choice (digits - 52 - 1) (-1074) with high | low
    · right
      rw [high]
      convert leading using 2
      ring
    · exact .inl low
  · rcases max_choice (digits - 52) (-1074) with high | low
    · right
      rw [high]
      exact not_lt.mp less
    · exact .inl low

/-! ## Rounding -/

/-- The units of the last place of a number come to it up to half of one. -/
theorem abs_units_sub_le (num : Nat) {den : Nat} (hden : 0 < den) (e : Int) :
    |(units num den e : Rat) * 2 ^ e - (num : Rat) / den| ≤ 2 ^ e / 2 := by
  have place : (0 : Rat) < 2 ^ e := zpow_pos two_pos e
  -- the quotient in units of the last place is rounded to a whole number
  obtain ⟨a, b, hb, rounded, exact⟩ : ∃ a b : Nat, 0 < b ∧ units num den e = divNearestEven a b ∧
      (num : Rat) / den = (a : Rat) / b * 2 ^ e := by
    unfold units
    split_ifs with sign
    · obtain ⟨n, rfl⟩ := Int.eq_ofNat_of_zero_le sign
      refine ⟨num, den * Nat.pow 2 n, Nat.mul_pos hden (Nat.pow_pos two_pos), rfl, ?_⟩
      simp
      field_simp
    · obtain ⟨n, rfl⟩ : ∃ n : Nat, e = -n := ⟨(-e).toNat, by omega⟩
      refine ⟨num * Nat.pow 2 n, den, hden, by simp, ?_⟩
      simp
      field_simp
  have near := abs_divNearestEven_sub_le a hb
  rw [rounded, exact, ← sub_mul, abs_mul, abs_of_pos place]
  calc |(divNearestEven a b : Rat) - (a : Rat) / b| * 2 ^ e ≤ 1 / 2 * 2 ^ e := by gcongr
    _ = 2 ^ e / 2 := by ring

/-- Units of the last place do not lead beyond a whole number where they are parts of one. -/
theorem units_le {num den m : Nat} (hden : 0 < den) {e : Int} (he : e ≤ 0) (h : num ≤ m * den) :
    (units num den e : Rat) * 2 ^ e ≤ m := by
  obtain ⟨n, rfl⟩ : ∃ n : Nat, e = -n := ⟨(-e).toNat, by omega⟩
  have le : units num den (-n) ≤ m * 2 ^ n := by
    unfold units
    split_ifs with sign
    · obtain rfl : n = 0 := by omega
      exact divNearestEven_le (by simpa using hden) (by simpa using h)
    · refine divNearestEven_le hden ?_
      rw [neg_neg, Int.toNat_natCast, Nat.mul_right_comm]
      exact Nat.mul_le_mul_right _ h
  rw [zpow_neg, zpow_natCast, ← div_eq_mul_inv, div_le_iff₀ (by positivity)]
  exact_mod_cast le

theorem nearest_zero : nearest 0 = 0 := rfl

/-- What a positive number is rounded to, in units of its last place. -/
theorem exists_nearest_of_pos {q : Rat} (h : 0 < q) : ∃ num den : Nat, 0 < num ∧ 0 < den ∧
    q = (num : Rat) / den ∧
    nearest q = (units num den (lastPlace num den) : Rat) * 2 ^ lastPlace num den := by
  have positive : 0 < q.num := Rat.num_pos.mpr h
  refine ⟨q.num.natAbs, q.den, Int.natAbs_pos.mpr positive.ne', q.den_pos, ?_, ?_⟩
  · rw [Nat.cast_natAbs, abs_of_pos positive, Rat.num_div_den]
  · unfold nearest
    rw [if_neg positive.ne']
    dsimp only
    rw [if_neg positive.not_gt, twoPow_eq]

theorem nearest_nonneg {q : Rat} (h : 0 ≤ q) : 0 ≤ nearest q := by
  rcases h.eq_or_lt with rfl | h
  · exact le_rfl
  · obtain ⟨num, den, -, -, -, rounded⟩ := exists_nearest_of_pos h
    rw [rounded]
    positivity

/-- **Rounding changes a number by at most half a unit of its last place.** -/
theorem abs_nearest_sub_le {q : Rat} (h : 0 ≤ q) :
    |nearest q - q| ≤ max q (1 / 2 ^ 1022) / 2 ^ 53 := by
  rcases h.eq_or_lt with rfl | h
  · rw [nearest_zero, sub_zero, abs_zero]
    positivity
  · obtain ⟨num, den, hnum, hden, written, rounded⟩ := exists_nearest_of_pos h
    rw [rounded]
    have near := abs_units_sub_le num hden (lastPlace num den)
    have place := lastPlace_le hnum hden
    rw [← written] at near place
    refine near.trans ?_
    rcases place with least | place
    · have half : (2 : Rat) ^ (-1074 : Int) / 2 = 1 / 2 ^ 1022 / 2 ^ 53 := by
        rw [show (-1074 : Int) = -((1022 + 52 : Nat) : Int) from rfl, zpow_neg, zpow_natCast,
          pow_add]
        field_simp
      rw [least, half]
      gcongr
      exact le_max_right _ _
    · have half : (2 : Rat) ^ lastPlace num den / 2 = 2 ^ (lastPlace num den + 52) / 2 ^ 53 := by
        rw [zpow_add₀ two_ne_zero]
        norm_num
        ring
      rw [half]
      gcongr
      exact place.trans (le_max_left _ _)

/-- Rounding does not lead beyond a whole number of less than 54 binary places. -/
theorem nearest_le {q : Rat} (h : 0 ≤ q) {m : Nat} (le : q ≤ m) (small : m < 2 ^ 53) :
    nearest q ≤ m := by
  rcases h.eq_or_lt with rfl | h
  · exact le
  · obtain ⟨num, den, hnum, hden, written, rounded⟩ := exists_nearest_of_pos h
    have whole : num ≤ m * den := by
      rw [written, div_le_iff₀ (by exact_mod_cast hden)] at le
      exact_mod_cast le
    -- the last place of a number below `2 ^ 53` is no higher than that of the units
    have low : lastPlace num den ≤ 0 := by
      rcases lastPlace_le hnum hden with least | place
      · omega
      · rw [← written] at place
        have below : (2 : Rat) ^ (lastPlace num den + 52) < 2 ^ (53 : Int) :=
          (place.trans le).trans_lt (by exact_mod_cast small)
        have := (zpow_lt_zpow_iff_right₀ one_lt_two).mp below
        omega
    rw [rounded]
    exact units_le hden low whole

theorem nearest_mem_unit {q : Rat} (h : 0 ≤ q) (le : q ≤ 1) : 0 ≤ nearest q ∧ nearest q ≤ 1 := by
  have bound := nearest_le h (m := 1) (by exact_mod_cast le) (by norm_num)
  exact ⟨nearest_nonneg h, by exact_mod_cast bound⟩

/-- Rounding a number of a known size. -/
theorem abs_nearest_sub_le_of_le {q : Rat} (h : 0 ≤ q) {m : Nat} (hm : 0 < m) (le : q ≤ m) :
    |nearest q - q| ≤ m / 2 ^ 53 := by
  refine (abs_nearest_sub_le h).trans ?_
  have one : (1 : Rat) ≤ m := by exact_mod_cast hm
  have tiny : (1 : Rat) / 2 ^ 1022 ≤ 1 := div_le_one_of_le₀ (one_le_pow₀ one_le_two) (by positivity)
  gcongr
  exact max_le le (tiny.trans one)

/-- What is left of one stays below one behind a share of one in less than `2 ^ 53`. -/
theorem nearest_one_sub_lt_one {q : Rat} {m : Nat} (hm : 0 < m) (small : m < 2 ^ 53)
    (h : 1 / (m : Rat) ≤ q) (le : q ≤ 1) : nearest (1 - nearest q) < 1 := by
  have least : (1 : Rat) / (2 ^ 53 - 1) ≤ q := by
    refine le_trans ?_ h
    have bound : (m : Rat) ≤ 2 ^ 53 - 1 := by
      rw [le_sub_iff_add_le]
      exact_mod_cast small
    gcongr
  have tiny : (1 : Rat) / 2 ^ 1022 ≤ 1 / 2 ^ 53 :=
    one_div_le_one_div_of_le (by positivity) (pow_le_pow_right₀ one_le_two (by norm_num))
  have nonneg : 0 ≤ q := (by norm_num : (0 : Rat) ≤ 1 / (2 ^ 53 - 1)).trans least
  have inner := abs_nearest_sub_le nonneg
  have rest : 0 ≤ 1 - nearest q := sub_nonneg.mpr (nearest_mem_unit nonneg le).2
  have outer := abs_nearest_sub_le rest
  generalize (1 : Rat) / 2 ^ 1022 = least_normal at *
  norm_num at least tiny inner outer ⊢
  rw [max_eq_left (by linarith)] at inner
  have inner := (abs_le.mp inner).1
  have outer := (abs_le.mp outer).2
  rcases max_cases (1 - nearest q) least_normal with ⟨max, -⟩ | ⟨max, less⟩ <;> rw [max] at outer <;>
    linarith

end Patchwork.Binary64
