import Mathlib.Order.Bounds.Basic
import Patchwork.Patch.Likeness
import Patchwork.Proofs.Number.Rounding

/-! How alike two texts are.  An entry of the table of distances is the least number of edits
between two parts of the sequences, told back to front (`cost`): no edit changes the cost
by more than one (`Edit.cost_le`), and as many edits as it says are enough (`edits_cost`).
The rows are filled from their neighbours (`nextRow_row`), so the distance is the least
number of edits (`isLeast_distance`), and two rows in turn are enough to compute it, whatever
the second one held before (`twoRows?_eq_some`).  The likeness inherits symmetry and bounds from
the distance, with and without rounding (`normalized_likenessIn_id`, `normalized_likeness`). -/

namespace Patchwork

namespace EditDistance
variable {α : Type}

/-! ## Edits -/

/-- **One edit**: an item is inserted, deleted or replaced. -/
inductive Edit : List α → List α → Prop
  | insert (front : List α) (a : α) (back : List α) : Edit (front ++ back) (front ++ a :: back)
  | delete (front : List α) (a : α) (back : List α) : Edit (front ++ a :: back) (front ++ back)
  | replace (front : List α) (a b : α) (back : List α) :
      Edit (front ++ a :: back) (front ++ b :: back)

/-- Some edits, one after another. -/
inductive Edits : Nat → List α → List α → Prop
  | none (as : List α) : Edits 0 as as
  | next {n : Nat} {as bs cs : List α} (first : Edit as bs) (rest : Edits n bs cs) :
      Edits (n + 1) as cs

variable {as bs cs : List α} {n m : Nat}

theorem Edit.symm (h : Edit as bs) : Edit bs as := by
  cases h with
  | insert front a back => exact .delete front a back
  | delete front a back => exact .insert front a back
  | replace front a b back => exact .replace front b a back

theorem Edit.reverse (h : Edit as bs) : Edit as.reverse bs.reverse := by
  cases h with
  | insert front a back => simpa using Edit.insert back.reverse a front.reverse
  | delete front a back => simpa using Edit.delete back.reverse a front.reverse
  | replace front a b back => simpa using Edit.replace back.reverse a b front.reverse

theorem Edit.cons (a : α) (h : Edit as bs) : Edit (a :: as) (a :: bs) := by
  cases h with
  | insert front b back => exact .insert (a :: front) b back
  | delete front b back => exact .delete (a :: front) b back
  | replace front b c back => exact .replace (a :: front) b c back

theorem Edits.concat (h : Edits n as bs) (last : Edit bs cs) : Edits (n + 1) as cs := by
  induction h with
  | none as => exact .next last (.none cs)
  | next first _ ih => exact .next first (ih last)

theorem Edits.symm (h : Edits n as bs) : Edits n bs as := by
  induction h with
  | none as => exact .none as
  | next first _ ih => exact ih.concat first.symm

theorem Edits.reverse (h : Edits n as bs) : Edits n as.reverse bs.reverse := by
  induction h with
  | none as => exact .none _
  | next first _ ih => exact .next first.reverse ih

theorem Edits.cons (a : α) (h : Edits n as bs) : Edits n (a :: as) (a :: bs) := by
  induction h with
  | none as => exact .none _
  | next first _ ih => exact .next (first.cons a) ih

/-! ## The least number of edits -/

variable [DecidableEq α]

/-- The cost of an entry of the table of distances, by its three neighbours. -/
def cost : List α → List α → Nat
  | [], bs => bs.length
  | _ :: as, [] => as.length + 1
  | a :: as, b :: bs =>
    min (min (cost as bs + if a = b then 0 else 1) (cost as (b :: bs) + 1)) (cost (a :: as) bs + 1)
termination_by as bs => as.length + bs.length

theorem cost_nil (as : List α) : cost as [] = as.length := by
  cases as <;> simp [cost]

/-- That many edits are enough. -/
theorem edits_cost (as bs : List α) : Edits (cost as bs) as bs := by
  fun_induction cost as bs with
  | case1 bs =>
    induction bs with
    | nil => exact .none []
    | cons b bs ih => exact .next (.insert [] b []) (ih.cons b)
  | case2 a as =>
    have rest : Edits as.length as [] := by
      induction as with
      | nil => exact .none []
      | cons b as ih => exact .next (.delete [] b as) ih
    exact .next (.delete [] a as) rest
  | case3 a as b bs diagonal above left =>
    have cases : cost (a :: as) (b :: bs) = cost as bs + (if a = b then 0 else 1) ∨
        cost (a :: as) (b :: bs) = cost as (b :: bs) + 1 ∨
        cost (a :: as) (b :: bs) = cost (a :: as) bs + 1 := by
      rw [cost]
      omega
    rw [← cost]
    rcases cases with least | least | least <;> rw [least]
    · split
      · rename_i same
        exact same ▸ diagonal.cons a
      · exact .next (.replace [] a b as) (diagonal.cons b)
    · exact .next (.delete [] a as) above
    · exact .next (.insert [] b (a :: as)) (left.cons b)

/-! ### No fewer are -/

theorem cost_le_cost_cons_right (as : List α) (b : α) (bs : List α) :
    cost as (b :: bs) ≤ cost as bs + 1 := by
  cases as with
  | nil => simp [cost]
  | cons a as => rw [cost]; omega

theorem cost_cons_le (a : α) (as bs : List α) : cost (a :: as) bs ≤ cost as bs + 1 := by
  cases bs with
  | nil => simp [cost_nil]
  | cons b bs => rw [cost]; omega

theorem cost_le_cost_cons (a : α) (as bs : List α) : cost as bs ≤ cost (a :: as) bs + 1 := by
  induction bs with
  | nil => simp [cost_nil]; omega
  | cons b bs ih =>
    have := cost_le_cost_cons_right as b bs
    rw [cost]
    omega

theorem cost_cons_le_cost_cons (a b : α) (as bs : List α) :
    cost (a :: as) bs ≤ cost (b :: as) bs + 1 := by
  induction bs with
  | nil => simp [cost_nil]
  | cons c bs ih =>
    rw [cost, cost]
    split <;> split <;> omega

theorem cost_cons_le_of_le (a : α) (h : ∀ cs, cost as cs ≤ cost bs cs + 1) (cs : List α) :
    cost (a :: as) cs ≤ cost (a :: bs) cs + 1 := by
  induction cs with
  | nil => simpa [cost_nil] using h []
  | cons c cs ih =>
    have diagonal := h cs
    have above := h (c :: cs)
    rw [cost, cost]
    omega

/-- **An edit changes the distance by one at most.** -/
theorem Edit.cost_le (h : Edit as bs) (cs : List α) : cost as cs ≤ cost bs cs + 1 := by
  -- what stands in front of the edit is common to both sides
  have behind {front xs ys : List α} (h : ∀ cs, cost xs cs ≤ cost ys cs + 1) :
      ∀ cs, cost (front ++ xs) cs ≤ cost (front ++ ys) cs + 1 := by
    induction front with
    | nil => exact h
    | cons a front ih => exact cost_cons_le_of_le a ih
  cases h with
  | insert front a back => exact behind (cost_le_cost_cons a back) cs
  | delete front a back => exact behind (cost_cons_le a back) cs
  | replace front a b back => exact behind (cost_cons_le_cost_cons a b back) cs

theorem cost_self (as : List α) : cost as as = 0 := by
  induction as with
  | nil => exact cost_nil []
  | cons a as ih => rw [cost, ih, if_pos rfl]; omega

theorem Edits.cost_le (h : Edits n as bs) : cost as bs ≤ n := by
  induction h with
  | none as => exact (cost_self as).le
  | @next n as bs cs first _ ih =>
    have := first.cost_le cs
    omega

theorem isLeast_cost (as bs : List α) : IsLeast {n | Edits n as bs} (cost as bs) :=
  ⟨edits_cost as bs, fun _ h => Edits.cost_le h⟩

/-! ## The table, row by row -/

/-- The entries of a row behind the first one: what it costs to make longer and longer parts of the
second sequence out of what was seen of the first, both being told back to front. -/
def entries (seen : List α) : List α → List α → List Nat
  | _, [] => []
  | part, b :: bs => cost seen (b :: part) :: entries seen (b :: part) bs

/-- The row for what was seen of the first sequence. -/
def row (seen bs : List α) : List Nat := cost seen [] :: entries seen [] bs

theorem length_entries (seen part bs : List α) : (entries seen part bs).length = bs.length := by
  induction bs generalizing part with
  | nil => rfl
  | cons b bs ih => rw [entries, List.length_cons, ih, List.length_cons]

theorem range_eq_row (bs : List α) : List.range (bs.length + 1) = row [] bs := by
  have behind : ∀ part : List α, List.range' (part.length + 1) bs.length = entries [] part bs := by
    induction bs with
    | nil => exact fun _ => rfl
    | cons b bs ih =>
      intro part
      rw [List.length_cons, List.range'_succ, entries, cost, List.length_cons]
      exact congrArg _ (ih (b :: part))
  rw [List.range_eq_range', List.range'_succ, row, cost_nil]
  exact congrArg _ (behind [])

/-- **Each entry is the cost of what it stands for** when its neighbours are. -/
theorem nextEntries_entries (a : α) (seen part bs : List α) :
    nextEntries a bs (cost seen part) (entries seen part bs) (cost (a :: seen) part) =
      entries (a :: seen) part bs := by
  induction bs generalizing part with
  | nil => rfl
  | cons b bs ih =>
    rw [entries, nextEntries, entries, ← ih, cost]

theorem nextRow_row (a : α) (seen bs : List α) : nextRow bs (row seen bs) a = row (a :: seen) bs := by
  have first : cost (a :: seen) [] = cost seen [] + 1 := by rw [cost_nil, cost_nil, List.length_cons]
  rw [row, nextRow, ← first, nextEntries_entries, row]

theorem foldl_nextRow (seen as bs : List α) :
    as.foldl (nextRow bs) (row seen bs) = row (as.reverse ++ seen) bs := by
  induction as generalizing seen with
  | nil => rfl
  | cons a as ih => simp [nextRow_row, ih]

theorem getLastD_row (seen bs : List α) : (row seen bs).getLastD 0 = cost seen bs.reverse := by
  have last : ∀ part : List α, (entries seen part bs).getLastD (cost seen part) =
      cost seen (bs.reverse ++ part) := by
    induction bs with
    | nil => exact fun _ => rfl
    | cons b bs ih =>
      intro part
      rw [entries, List.getLastD_cons, ih, List.reverse_cons, List.append_assoc]
      rfl
  rw [row, List.getLastD_cons, last, List.append_nil]

theorem distance_eq_cost (as bs : List α) : distance as bs = cost as.reverse bs.reverse := by
  rw [distance, range_eq_row, foldl_nextRow, List.append_nil, getLastD_row]

/-- **The distance is the least number of edits.** -/
theorem isLeast_distance (as bs : List α) : IsLeast {n | Edits n as bs} (distance as bs) := by
  rw [distance_eq_cost]
  have least := isLeast_cost as.reverse bs.reverse
  refine ⟨?_, fun n h => least.2 (Edits.reverse h)⟩
  simpa using Edits.reverse least.1

/-! ## Two rows in turn -/

/-- Writes an entry of a row in place; there must be one already. -/
def write? (row : Array Nat) (i entry : Nat) : Option (Array Nat) :=
  if i < row.size then some (row.setIfInBounds i entry) else none

/-- Writes the entries of one row behind the one with the given index over what is there. -/
def fillRow? (a : α) (above : Array Nat) : Nat → List α → Array Nat → Option (Array Nat)
  | _, [], row => some row
  | j, b :: bs, row => do
    let substitution := (← above[j]?) + if a = b then 0 else 1
    let entry := min (min substitution ((← above[j + 1]?) + 1)) ((← row[j]?) + 1)
    fillRow? a above (j + 1) bs (← write? row (j + 1) entry)

/-- Fills two rows in turn, one for each item of the first sequence, whose index is `i`. Each is
written over the row before the last one. -/
def fillRows? (bs : List α) : Nat → List α → Array Nat → Array Nat → Option (Array Nat)
  | _, [], previous, _ => some previous
  | i, a :: as, previous, current => do
    let filled ← fillRow? a previous 0 bs (← write? current 0 (i + 1))
    fillRows? bs (i + 1) as filled previous

/-- The distance by two rows that are used in turn; the second one may hold anything at first. An
entry that is not there comes to nothing. -/
def twoRows? (as bs : List α) (scratch : Array Nat) : Option Nat := do
  let last ← fillRows? bs 0 as (Array.range (bs.length + 1)) scratch
  last[bs.length]?

theorem write?_eq (entry : Nat) {row : Array Nat} {front back : List Nat} {old : Nat}
    (h : row.toList = front ++ old :: back) :
    ∃ written, write? row front.length entry = some written ∧
      written.toList = front ++ entry :: back := by
  have inside : front.length < row.size := by
    rw [← Array.length_toList, h, List.length_append, List.length_cons]
    omega
  refine ⟨_, if_pos inside, ?_⟩
  rw [Array.toList_setIfInBounds, h, List.set_append_right _ _ (Nat.le_refl _), Nat.sub_self,
    List.set_cons_zero]

theorem getElem?_of_toList {row : Array Nat} {front back : List Nat} {entry : Nat}
    (h : row.toList = front ++ entry :: back) : row[front.length]? = some entry := by
  rw [← Array.getElem?_toList, h, List.getElem?_append_right (Nat.le_refl _), Nat.sub_self,
    List.getElem?_cons_zero]

/-- **A row is filled whatever it held before.**  In front of the index stands what was filled, behind
it what is stale. -/
theorem exists_fillRow? (a : α) (bs : List α) {above row : Array Nat}
    {front rest filled stale : List Nat} {diagonal left : Nat}
    (sameFront : filled.length = front.length) (sameRest : rest.length = bs.length)
    (sameStale : stale.length = bs.length) (habove : above.toList = front ++ diagonal :: rest)
    (hrow : row.toList = filled ++ left :: stale) :
    ∃ next, fillRow? a above front.length bs row = some next ∧
      next.toList = filled ++ left :: nextEntries a bs diagonal rest left := by
  induction bs generalizing row front rest filled stale diagonal left with
  | nil =>
    obtain rfl := List.length_eq_zero_iff.mp sameStale
    exact ⟨row, rfl, hrow⟩
  | cons b bs ih =>
    obtain ⟨up, rest, rfl⟩ := List.exists_cons_of_length_eq_add_one sameRest
    obtain ⟨old, stale, rfl⟩ := List.exists_cons_of_length_eq_add_one sameStale
    have further : above.toList = (front ++ [diagonal]) ++ up :: rest := by simpa using habove
    have place : row.toList = (filled ++ [left]) ++ old :: stale := by simpa using hrow
    obtain ⟨written, hwritten, stands⟩ := write?_eq
      (min (min (diagonal + if a = b then 0 else 1) (up + 1)) (left + 1)) place
    have next := ih (by simpa using sameFront) (Nat.succ.inj sameRest) (Nat.succ.inj sameStale)
      further stands
    have atUp := getElem?_of_toList further
    have atLeft := getElem?_of_toList hrow
    rw [List.length_append, List.length_singleton] at atUp hwritten next
    rw [sameFront] at atLeft hwritten
    rw [fillRow?, getElem?_of_toList habove, atUp, atLeft]
    simp only [Option.bind_eq_bind, Option.bind_some, hwritten]
    simpa [nextEntries] using next

theorem length_nextEntries (a : α) {bs : List α} {rest : List Nat} (h : rest.length = bs.length)
    (diagonal left : Nat) : (nextEntries a bs diagonal rest left).length = bs.length := by
  induction bs generalizing rest diagonal left with
  | nil => rfl
  | cons b bs ih =>
    obtain ⟨up, rest, rfl⟩ := List.exists_cons_of_length_eq_add_one h
    simp [nextEntries, ih (Nat.succ.inj h)]

theorem exists_fillRows? (bs : List α) (as : List α) {previous current : Array Nat} {i : Nat}
    {rest : List Nat} (hprevious : previous.toList = i :: rest) (hrest : rest.length = bs.length)
    (hcurrent : current.size = bs.length + 1) :
    ∃ last, fillRows? bs i as previous current = some last ∧
      last.toList = as.foldl (nextRow bs) (i :: rest) := by
  induction as generalizing previous current i rest with
  | nil => exact ⟨previous, rfl, hprevious⟩
  | cons a as ih =>
    obtain ⟨old, stale, hstale⟩ := List.exists_cons_of_length_eq_add_one
      (Array.length_toList.trans hcurrent)
    have begins : current.toList = [] ++ old :: stale := hstale
    have begins' : previous.toList = [] ++ i :: rest := hprevious
    obtain ⟨begun, hbegun, first⟩ := write?_eq (i + 1) begins
    have same : stale.length = bs.length := by
      have := congrArg List.length hstale
      simp [hcurrent] at this
      omega
    obtain ⟨filled, hfilled, next⟩ := exists_fillRow? a bs rfl hrest same begins' first
    have size : previous.size = bs.length + 1 := by
      rw [← Array.length_toList, hprevious, List.length_cons, hrest]
    obtain ⟨last, hlast, row⟩ := ih next (length_nextEntries a hrest _ _) size
    refine ⟨last, ?_, row⟩
    rw [List.length_nil] at hbegun hfilled
    rw [fillRows?, hbegun, Option.bind_eq_bind, Option.bind_some, hfilled, Option.bind_some, hlast]

/-- **Two rows used in turn give the distance**, whatever the second one held. -/
theorem twoRows?_eq_some (as bs : List α) {scratch : Array Nat}
    (size : scratch.size = bs.length + 1) : twoRows? as bs scratch = some (distance as bs) := by
  have first : List.range (bs.length + 1) = 0 :: List.range' 1 bs.length := by
    rw [List.range_eq_range', List.range'_succ]
  have begins : (Array.range (bs.length + 1)).toList = 0 :: List.range' 1 bs.length :=
    Array.toList_range.trans first
  obtain ⟨last, hlast, table⟩ := exists_fillRows? bs as begins List.length_range' size
  rw [← first, range_eq_row, foldl_nextRow, List.append_nil] at table
  have length : last.toList.length = bs.length + 1 := by
    rw [table, row, List.length_cons, length_entries]
  have atEnd : last[bs.length]? = last.toList.getLast? := by
    rw [List.getLast?_eq_getElem?, length, Nat.add_sub_cancel, Array.getElem?_toList]
  rw [twoRows?, hlast, Option.bind_eq_bind, Option.bind_some, atEnd, distance_eq_cost,
    ← getLastD_row, List.getLastD_eq_getLast?, table, row, List.getLast?_cons]
  rfl

/-! ## Distances -/

theorem distance_comm (as bs : List α) : distance as bs = distance bs as := by
  have same : {n | Edits n as bs} = {n | Edits n bs as} := by
    ext n
    exact ⟨Edits.symm, Edits.symm⟩
  have least := isLeast_distance as bs
  rw [same] at least
  exact least.unique (isLeast_distance bs as)

theorem distance_eq_zero_iff (as bs : List α) : distance as bs = 0 ↔ as = bs := by
  constructor
  · intro zero
    have edits : Edits (distance as bs) as bs := (isLeast_distance as bs).1
    rw [zero] at edits
    cases edits
    rfl
  · rintro rfl
    exact Nat.le_zero.mp ((isLeast_distance as as).2 (Edits.none as))

theorem cost_le_max (as bs : List α) : cost as bs ≤ max as.length bs.length := by
  fun_induction cost as bs with
  | case1 bs => exact Nat.le_max_right _ _
  | case2 a as => simp
  | case3 a as b bs diagonal above left =>
    simp only [List.length_cons] at *
    split <;> omega

theorem distance_le_max (as bs : List α) : distance as bs ≤ max as.length bs.length := by
  simpa [distance_eq_cost] using cost_le_max as.reverse bs.reverse

end EditDistance

/-! ## Likeness -/

/-- The share of the characters of the longer text that have to be edited. -/
def editedShare (a b : String) : Rat :=
  (EditDistance.distance a.toList b.toList : Rat) / (max a.length b.length : Nat)

variable {a b : String}

theorem editedShare_comm (a b : String) : editedShare a b = editedShare b a := by
  rw [editedShare, editedShare, EditDistance.distance_comm, Nat.max_comm]

theorem editedShare_nonneg (a b : String) : 0 ≤ editedShare a b := by
  unfold editedShare
  positivity

theorem editedShare_le_one (a b : String) : editedShare a b ≤ 1 := by
  have le := EditDistance.distance_le_max a.toList b.toList
  rw [String.length_toList, String.length_toList] at le
  exact div_le_one_of_le₀ (by exact_mod_cast le) (Nat.cast_nonneg _)

/-- Of texts that differ one character at least has to be edited. -/
theorem one_div_le_editedShare (differ : a ≠ b) :
    0 < max a.length b.length ∧ 1 / (max a.length b.length : Nat) ≤ editedShare a b := by
  have some_edit : 0 < EditDistance.distance a.toList b.toList := by
    refine Nat.pos_of_ne_zero fun zero => differ ?_
    exact String.toList_inj.mp ((EditDistance.distance_eq_zero_iff _ _).mp zero)
  have le := EditDistance.distance_le_max a.toList b.toList
  rw [String.length_toList, String.length_toList] at le
  refine ⟨by omega, ?_⟩
  rw [editedShare]
  gcongr
  exact_mod_cast some_edit

theorem likenessIn_of_ne (round : Rat → Rat) (differ : a ≠ b) :
    likenessIn round a b = round (1 - round (editedShare a b)) := by
  unfold likenessIn editedShare
  rw [if_neg differ]
  dsimp only
  rw [Rat.mkRat_eq_div, String.length_toList, String.length_toList]
  rfl

theorem likenessIn_comm (round : Rat → Rat) (a b : String) :
    likenessIn round a b = likenessIn round b a := by
  rcases eq_or_ne a b with rfl | differ
  · rfl
  · rw [likenessIn_of_ne round differ, likenessIn_of_ne round differ.symm, editedShare_comm]

/-- **A measure of likeness** for two texts: the same in either order, between 0 and 1, and 1 exactly
where the texts are equal. -/
structure Normalized (measure : String → String → Rat) (a b : String) : Prop where
  comm : measure a b = measure b a
  nonneg : 0 ≤ measure a b
  le_one : measure a b ≤ 1
  eq_one_iff : measure a b = 1 ↔ a = b

/-- Without rounding the likeness is a measure. -/
theorem normalized_likenessIn_id (a b : String) : Normalized (likenessIn id) a b := by
  rcases eq_or_ne a b with rfl | differ
  · have same : likenessIn id a a = 1 := if_pos rfl
    exact ⟨rfl, by simp [same], same.le, by simp [same]⟩
  · have share : likenessIn id a b = 1 - editedShare a b := likenessIn_of_ne id differ
    have le := editedShare_le_one a b
    obtain ⟨long, least⟩ := one_div_le_editedShare differ
    have positive : (0 : Rat) < 1 / (max a.length b.length : Nat) :=
      one_div_pos.mpr (by exact_mod_cast long)
    refine ⟨likenessIn_comm id a b, ?_, ?_, ?_⟩
    · rw [share]; linarith
    · rw [share]; linarith
    · refine iff_of_false ?_ differ
      rw [share]
      intro one
      linarith

/-- With 53 binary places the likeness lies between 0 and 1 as well. -/
theorem likeness_mem_unit (a b : String) : 0 ≤ likeness a b ∧ likeness a b ≤ 1 := by
  rcases eq_or_ne a b with rfl | differ
  · have same : likeness a a = 1 := if_pos rfl
    simp [same]
  · have inner := Binary64.nearest_mem_unit (editedShare_nonneg a b) (editedShare_le_one a b)
    rw [likeness, likenessIn_of_ne _ differ]
    exact Binary64.nearest_mem_unit (sub_nonneg.mpr inner.2) (sub_le_self 1 inner.1)

/-- Texts of fewer than `2 ^ 53` characters are told apart in spite of the rounding. -/
theorem normalized_likeness (short : max a.length b.length < 2 ^ 53) : Normalized likeness a b := by
  obtain ⟨nonneg, le_one⟩ := likeness_mem_unit a b
  refine ⟨likenessIn_comm _ a b, nonneg, le_one, ⟨fun one => ?_, fun same => if_pos same⟩⟩
  by_contra differ
  obtain ⟨long, least⟩ := one_div_le_editedShare differ
  rw [likeness, likenessIn_of_ne _ differ] at one
  exact (Binary64.nearest_one_sub_lt_one long short least (editedShare_le_one a b)).ne one

/-- Rounding changes the likeness by no more than two units of the last place. -/
theorem abs_likeness_sub_le (a b : String) : |likeness a b - likenessIn id a b| ≤ 2 / 2 ^ 53 := by
  rcases eq_or_ne a b with rfl | differ
  · have same : likeness a a - likenessIn id a a = 0 := by simp [likeness, likenessIn]
    rw [same, abs_zero]
    positivity
  · have share : likenessIn id a b = 1 - editedShare a b := likenessIn_of_ne id differ
    have nonneg := editedShare_nonneg a b
    have le := editedShare_le_one a b
    have inner := Binary64.nearest_mem_unit nonneg le
    have first := Binary64.abs_nearest_sub_le_of_le nonneg one_pos (by exact_mod_cast le)
    have second := Binary64.abs_nearest_sub_le_of_le (sub_nonneg.mpr inner.2) one_pos
      (by exact_mod_cast sub_le_self 1 inner.1)
    rw [Nat.cast_one, abs_le] at first second
    rw [likeness, likenessIn_of_ne _ differ, share, abs_le]
    constructor <;> linarith

/-- **The distance is the least number of edits, and the likeness measures it.**  Two rows used in turn
give the distance, whatever the second one held; without rounding the likeness is symmetric, lies
between 0 and 1 and is 1 for equal texts alone, and with 53 binary places it still is for
texts of fewer than `2 ^ 53` characters. -/
theorem normalized_of_least_edits :
    (∀ as bs : List Char,
      IsLeast {n | EditDistance.Edits n as bs} (EditDistance.distance as bs) ∧
      ∀ scratch : Array Nat, scratch.size = bs.length + 1 →
        EditDistance.twoRows? as bs scratch = some (EditDistance.distance as bs)) ∧
    (∀ a b : String, Normalized (likenessIn id) a b) ∧
    ∀ a b : String, max a.length b.length < 2 ^ 53 → Normalized likeness a b :=
  ⟨fun as bs => ⟨EditDistance.isLeast_distance as bs, fun _ => EditDistance.twoRows?_eq_some as bs⟩,
    normalized_likenessIn_id, fun _ _ => normalized_likeness⟩

/-- Three edits lead from one word to another, with a second row that holds something else first. -/
theorem normalized_kitten :
    IsLeast {n | EditDistance.Edits n "kitten".toList "sitting".toList} 3 ∧
      (Array.replicate 8 5).size = "sitting".toList.length + 1 ∧
      EditDistance.twoRows? "kitten".toList "sitting".toList (Array.replicate 8 5) = some 3 ∧
      max "kitten".length "sitting".length < 2 ^ 53 ∧ Normalized likeness "kitten" "sitting" ∧
      likenessIn id "kitten" "sitting" = 4 / 7 := by
  have three : EditDistance.distance "kitten".toList "sitting".toList = 3 := by decide
  obtain ⟨least, rows⟩ := normalized_of_least_edits.1 "kitten".toList "sitting".toList
  rw [three] at least rows
  refine ⟨least, by decide, rows _ (by decide), by decide,
    normalized_of_least_edits.2.2 _ _ (by decide), ?_⟩
  decide +kernel

end Patchwork
