import Patchwork.Script.Edit
import Patchwork.Script.Snake
/-!
A short edit script between two sequences. What both begin and end with is kept; the rest is cut in
two at the middle snake and each half is treated the same way. The script fits whatever point the
search for the snake returns (`fits_shortest`).
-/
namespace Patchwork.EditScript
variable {α : Type}

@[simp] theorem old_append (s t : EditScript α) : old (s ++ t) = old s ++ old t := by
  simp [old]

@[simp] theorem new_append (s t : EditScript α) : new (s ++ t) = new s ++ new t := by
  simp [new]

/-- A kept stretch, unless it is empty. -/
def keeping : List α → EditScript α
  | [] => []
  | x :: xs => [.keep (x :: xs)]

theorem old_keeping (xs : List α) : old (keeping xs) = xs := by
  cases xs <;> simp [keeping, old, Edit.old]

theorem new_keeping (xs : List α) : new (keeping xs) = xs := by
  cases xs <;> simp [keeping, new, Edit.new]

variable [DecidableEq α]

/-- Splits off what two lists begin with in common. -/
def commonStart : List α → List α → List α × List α × List α
  | a :: as, b :: bs =>
    if a = b then
      let (shared, xs, ys) := commonStart as bs
      (a :: shared, xs, ys)
    else ([], a :: as, b :: bs)
  | as, bs => ([], as, bs)

/-- Splits off what two lists end with in common: the two rests and the shared end. -/
def commonEnd (xs ys : List α) : List α × List α × List α :=
  let (shared, as, bs) := commonStart xs.reverse ys.reverse
  (as.reverse, bs.reverse, shared.reverse)

theorem commonStart_eq (xs ys : List α) :
    (commonStart xs ys).1 ++ (commonStart xs ys).2.1 = xs ∧
      (commonStart xs ys).1 ++ (commonStart xs ys).2.2 = ys := by
  induction xs generalizing ys with
  | nil => simp [commonStart]
  | cons a as ih =>
    cases ys with
    | nil => simp [commonStart]
    | cons b bs =>
      by_cases h : a = b
      · subst h; simp [commonStart, (ih bs).1, (ih bs).2]
      · simp [commonStart, h]

theorem commonEnd_eq (xs ys : List α) :
    (commonEnd xs ys).1 ++ (commonEnd xs ys).2.2 = xs ∧
      (commonEnd xs ys).2.1 ++ (commonEnd xs ys).2.2 = ys := by
  have h := commonStart_eq xs.reverse ys.reverse
  simp only [commonEnd, ← List.reverse_append, h.1, h.2, List.reverse_reverse, and_self]

/-- The script found by cutting at middle snakes, at most `depth` cuts deep; what is left then is
deleted and inserted as it is. -/
def within : Nat → List α → List α → EditScript α
  | 0, xs, ys => [.delete xs, .insert ys]
  | depth + 1, xs, ys =>
    let (before, xs₁, ys₁) := commonStart xs ys
    let (xs₂, ys₂, after) := commonEnd xs₁ ys₁
    let inner : EditScript α :=
      match xs₂, ys₂ with
      | [], [] => []
      | [], y :: ys => [.insert (y :: ys)]
      | x :: xs, [] => [.delete (x :: xs)]
      | x :: xs, y :: ys =>
        let cut := Snake.middle (x :: xs) (y :: ys)
        within depth ((x :: xs).take cut.1) ((y :: ys).take cut.2) ++
          within depth ((x :: xs).drop cut.1) ((y :: ys).drop cut.2)
    keeping before ++ inner ++ keeping after

/-- The script found by cutting at middle snakes. Each cut leaves less on either side, so there are
fewer cuts in a row than items. -/
def shortest (xs ys : List α) : EditScript α := within (xs.length + ys.length + 1) xs ys

theorem fits_within (depth : Nat) (xs ys : List α) : (within depth xs ys).Fits xs ys := by
  induction depth generalizing xs ys with
  | zero => simp [within, Fits, old, new, Edit.old, Edit.new]
  | succ depth ih =>
    have hs := commonStart_eq xs ys
    have he := commonEnd_eq (commonStart xs ys).2.1 (commonStart xs ys).2.2
    generalize hst : commonStart xs ys = st at hs he
    generalize hen : commonEnd st.2.1 st.2.2 = en at he
    obtain ⟨before, xs₁, ys₁⟩ := st
    obtain ⟨xs₂, ys₂, after⟩ := en
    simp only at hs he hen
    unfold within
    simp only [hst, hen, Fits, old_append, new_append, old_keeping, new_keeping]
    rw [← hs.1, ← hs.2, ← he.1, ← he.2]
    cases xs₂ with
    | nil => cases ys₂ <;> simp [old, new, Edit.old, Edit.new]
    | cons x xs =>
      cases ys₂ with
      | nil => simp [old, new, Edit.old, Edit.new]
      | cons y ys =>
        simp only [old_append, new_append, (ih _ _).1, (ih _ _).2, List.take_append_drop,
          List.append_assoc, and_self]

theorem fits_shortest (xs ys : List α) : (shortest xs ys).Fits xs ys := fits_within _ _ _

end Patchwork.EditScript
