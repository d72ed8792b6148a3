import Mathlib.Algebra.Order.Ring.Rat
import Mathlib.Algebra.Order.Ring.Cast
import Mathlib.Data.Prod.Lex
import Patchwork.Proofs.Patch.Trimmed
import Patchwork.Proofs.Text.Cut

/-! The loosest of some fits.  How far a fit strays is a place in a linear order (`Fit.strayed`):
the kinds come one after another, and in each kind the fits by how far they stray.  The one
that is kept of two is the first unless the second strays further (`Fit.looser_eq`), so it
does not matter how the fits are put together (`Fit.looser_assoc`), and none of them strays
further than the loosest (`Fit.strayed_le_loosest`).  The program tells the distance of an offset
as a signed word; but for the least one that is the true distance (`Fit.looserThan_iff`), and
the least one is far beyond what the hunks of a file reach (`HunkRun.gap_of_mem_placeShifted`).
An exact fit that is reported therefore says that every hunk stands where its lines are. -/

namespace Patchwork

namespace Fit

/-! ## The order -/

/-- How far a fit strays, by its kind and then among those of its kind. -/
def strayed : Fit → Nat ×ₗ Rat
  | shifted offset => toLex (0, Text.signedDistance offset)
  | trimmed fuzz => toLex (1, fuzz)
  | similar score => toLex (2, -score)

theorem rank_shifted (offset : Int) : (shifted offset).rank < 2 := by
  rw [rank]
  split
  · exact Nat.zero_lt_two
  · exact Nat.one_lt_two

theorem strayed_lt_iff {p q : Fit} : p.strayed < q.strayed ↔
    match p, q with
    | shifted a, shifted b => Text.signedDistance a < Text.signedDistance b
    | trimmed m, trimmed n => m < n
    | similar s, similar t => t < s
    | _, _ => p.rank < q.rank := by
  cases p <;> cases q <;> simp [strayed, Prod.Lex.toLex_lt_toLex, rank] <;> split <;> decide

/-- **The one that is kept of two** is the second only if it strays further. -/
theorem looser_eq (p q : Fit) : looser p q = if p.strayed < q.strayed then q else p := by
  have further := strayed_lt_iff (p := p) (q := q)
  unfold looser
  split
  · rename_i a b
    rw [if_congr (further.trans not_le.symm) rfl rfl, ite_not, apply_ite shifted]
  · rename_i a b
    rw [if_congr (further.trans not_le.symm) rfl rfl, ite_not]
    split
    · rename_i le
      rw [Nat.max_eq_left le]
    · rename_i gt
      rw [Nat.max_eq_right (Nat.le_of_not_le gt)]
  · rename_i a b
    rw [if_congr (further.trans not_le.symm) rfl rfl, ite_not, apply_ite similar]
  · rename_i ne ne' ne''
    refine if_congr ?_ rfl rfl
    cases p <;> cases q <;> first | exact further.symm | grind

theorem looser_eq_or (p q : Fit) : looser p q = p ∨ looser p q = q := by
  rw [looser_eq]
  split
  · exact .inr rfl
  · exact .inl rfl

theorem strayed_looser (p q : Fit) : (looser p q).strayed = max p.strayed q.strayed := by
  rw [looser_eq]
  split
  · rename_i less
    exact (max_eq_right less.le).symm
  · rename_i most
    exact (max_eq_left (not_lt.mp most)).symm

theorem looser_assoc (p q r : Fit) : looser (looser p q) r = looser p (looser q r) := by
  by_cases first : p.strayed < q.strayed
  · have more : p.strayed < (looser q r).strayed := by
      rw [strayed_looser]
      exact lt_max_of_lt_left first
    rw [looser_eq p q, if_pos first, looser_eq p, if_pos more]
  · by_cases second : q.strayed < r.strayed
    · rw [looser_eq p q, if_neg first, looser_eq q r, if_pos second]
    · have last : ¬ p.strayed < r.strayed :=
        not_lt.mpr ((not_lt.mp second).trans (not_lt.mp first))
      rw [looser_eq p q, if_neg first, looser_eq q r, if_neg second, looser_eq p r, if_neg last,
        looser_eq p q, if_neg first]

theorem loosest_mem (start : Fit) (others : List Fit) : loosest start others ∈ start :: others := by
  induction others generalizing start with
  | nil => exact List.mem_singleton.mpr rfl
  | cons next others ih =>
    rcases List.mem_cons.mp (ih (looser start next)) with first | later
    · rw [loosest, List.foldl_cons, ← loosest, first]
      rcases looser_eq_or start next with same | same <;> rw [same] <;> simp
    · exact List.mem_cons_of_mem _ (List.mem_cons_of_mem _ later)

/-- **None strays further than the loosest.** -/
theorem strayed_le_loosest (start : Fit) (others : List Fit) :
    ∀ fit ∈ start :: others, fit.strayed ≤ (loosest start others).strayed := by
  induction others generalizing start with
  | nil => exact List.forall_mem_singleton.mpr le_rfl
  | cons next others ih =>
    obtain ⟨first, later⟩ := List.forall_mem_cons.mp (ih (looser start next))
    rw [strayed_looser, max_le_iff] at first
    exact List.forall_mem_cons.mpr ⟨first.1, List.forall_mem_cons.mpr ⟨first.2, later⟩⟩

/-- **One fit is looser than another**: an exact one that lies further off, one with more fuzz, one
that is less alike, or one of a looser kind. -/
inductive LooserThan : Fit → Fit → Prop
  | shifted {a b : Int} (further : b.natAbs < a.natAbs) : LooserThan (.shifted a) (.shifted b)
  | trimmed {m n : Nat} (more : n < m) : LooserThan (.trimmed m) (.trimmed n)
  | similar {s t : Rat} (less : s < t) : LooserThan (.similar s) (.similar t)
  | trimmed_shifted (m : Nat) (b : Int) : LooserThan (.trimmed m) (.shifted b)
  | similar_shifted (s : Rat) (b : Int) : LooserThan (.similar s) (.shifted b)
  | similar_trimmed (s : Rat) (n : Nat) : LooserThan (.similar s) (.trimmed n)

/-- A fit whose offset is a signed word, and not the least one. -/
def Counted : Fit → Prop
  | shifted offset => Text.IsSigned offset.natAbs
  | _ => True

theorem counted_zero : (shifted 0).Counted := show Text.IsSigned 0 by decide

/-- **The distance of such an offset is the true one.** -/
theorem looserThan_iff {p q : Fit} (hp : p.Counted) (hq : q.Counted) :
    p.LooserThan q ↔ q.strayed < p.strayed := by
  rw [strayed_lt_iff]
  cases p with
  | shifted a =>
    cases q with
    | shifted b =>
      simp only [Text.signedDistance_eq hp, Text.signedDistance_eq hq, Int.ofNat_lt]
      exact ⟨fun | .shifted further => further, .shifted⟩
    | trimmed n => exact ⟨nofun, fun low => absurd low (rank_shifted a).not_gt⟩
    | similar t =>
      exact ⟨nofun, fun low => absurd low ((rank_shifted a).trans (Nat.lt_succ_self 2)).not_gt⟩
  | trimmed m =>
    cases q with
    | shifted b => exact ⟨fun _ => rank_shifted b, fun _ => .trimmed_shifted m b⟩
    | trimmed n => exact ⟨fun | .trimmed more => more, .trimmed⟩
    | similar t => exact ⟨nofun, fun low => absurd low (Nat.lt_succ_self 2).not_gt⟩
  | similar s =>
    cases q with
    | shifted b =>
      exact ⟨fun _ => (rank_shifted b).trans (Nat.lt_succ_self 2), fun _ => .similar_shifted s b⟩
    | trimmed n => exact ⟨fun _ => Nat.lt_succ_self 2, fun _ => .similar_trimmed s n⟩
    | similar t => exact ⟨fun | .similar less => less, .similar⟩

theorem loosest_counted {start : Fit} {others : List Fit}
    (counted : ∀ fit ∈ start :: others, fit.Counted) (fit : Fit) (mem : fit ∈ start :: others) :
    ¬ fit.LooserThan (loosest start others) := by
  rw [looserThan_iff (counted fit mem) (counted _ (loosest_mem start others)), not_lt]
  exact strayed_le_loosest start others fit mem

/-- The loosest of exact fits is one that lies furthest off. -/
theorem loosest_shifted {start : Int} {offsets : List Int}
    (signed : ∀ o ∈ start :: offsets, Text.IsSigned o.natAbs) :
    ∃ offset, loosest (.shifted start) (offsets.map .shifted) = .shifted offset ∧
      (offset = start ∨ offset ∈ offsets) ∧
      start.natAbs ≤ offset.natAbs ∧ ∀ o ∈ offsets, o.natAbs ≤ offset.natAbs := by
  have listed : shifted start :: offsets.map shifted = (start :: offsets).map shifted := rfl
  have counted : ∀ fit ∈ shifted start :: offsets.map shifted, fit.Counted := by
    rw [listed]
    exact List.forall_mem_map.mpr signed
  have kept := loosest_counted counted
  have among := loosest_mem (.shifted start) (offsets.map .shifted)
  rw [listed] at kept among
  obtain ⟨offset, mem, loosest⟩ := List.mem_map.mp among
  rw [← loosest] at kept
  have furthest : ∀ o ∈ start :: offsets, o.natAbs ≤ offset.natAbs := fun o ho =>
    not_lt.mp fun further => kept _ (List.mem_map_of_mem ho) (.shifted further)
  exact ⟨offset, loosest.symm, List.mem_cons.mp mem, List.forall_mem_cons.mp furthest⟩

end Fit

/-! ## Exact placements -/

namespace Placement
variable {lines : Array String} {lower upper expected : Nat} {tolerance : Tolerance} {h : Hunk}
  {p : Placement}

theorem not_shifted_of_loose (found : loose lines lower upper expected h tolerance = some p)
    (offset : Int) : p.fit ≠ .shifted offset := by
  cases tolerance with
  | shifted => cases found
  | similar minScore =>
    obtain ⟨place, -, rfl⟩ := Option.map_eq_some_iff.mp found
    exact nofun
  | trimmed maxFuzz =>
    obtain ⟨fuzz, -, -, here, -⟩ := trimmed_eq_some_iff.mp found
    rw [(fit_of_withFuzz here).1]
    exact nofun

end Placement

/-- A position moves by no more than it is told to. -/
theorem gap_displaced_origin_le (origin : Nat) (distance : Int) :
    gap (displaced origin distance) origin ≤ distance.natAbs := by
  unfold gap displaced
  split <;> omega

theorem two_mul_natAbs_signed_le (n : Int) : 2 * (Text.signed n).natAbs ≤ Text.wordLimit := by
  have low := Int.le_bmod (x := n) (m := Text.wordLimit) (by decide)
  have high := Int.bmod_lt (x := n) (m := Text.wordLimit) (by decide)
  have limit : Text.wordLimit = 18446744073709551616 := by rfl
  unfold Text.signed
  omega

/-- The distance between two positions that are near to each other is told as it is. -/
theorem signed_sub_of_gap {a b : Nat} (near : Text.IsSigned (gap a b)) :
    Text.signed ((a : Int) - (b : Int)) = (a : Int) - (b : Int) := by
  unfold Text.IsSigned gap at near
  exact Int.bmod_eq_of_le (by omega) (by omega)

namespace HunkRun
variable {lines : Array String} {tolerance : Tolerance}

/-- The gaps are filled with loose placements only. -/
theorem mem_of_mem_fillGaps {lower : Nat} {drift : Int} {slots : List Slot} {slot : Slot}
    (mem : slot ∈ fillGaps lines tolerance lower drift slots) {p : Placement}
    (some : slot.2 = some p) {offset : Int} (fit : p.fit = .shifted offset) : slot ∈ slots := by
  fun_induction fillGaps lines tolerance lower drift slots with
  | case1 => exact mem
  | case2 lower drift h q rest ih =>
    rcases List.mem_cons.mp mem with rfl | later
    · exact List.mem_cons_self
    · exact List.mem_cons_of_mem _ (ih later)
  | case3 lower drift h rest q found ih =>
    rcases List.mem_cons.mp mem with rfl | later
    · cases some
      exact absurd fit (Placement.not_shifted_of_loose found offset)
    · exact List.mem_cons_of_mem _ (ih later)
  | case4 lower drift h rest found ih =>
    rcases List.mem_cons.mp mem with rfl | later
    · cases some
    · exact List.mem_cons_of_mem _ (ih later)

/-- **What the exact pass places was found** near to where the drift leads that is followed: the one
at the start, or a signed word. -/
theorem found_of_mem_placeShifted {cursor : Nat} {drift : Int} {hunks : List Hunk} {slot : Slot}
    (mem : slot ∈ placeShifted lines cursor drift hunks) {p : Placement} (some : slot.2 = some p) :
    p = .whole slot.1 p.start ∧ ∃ lower followed,
      (followed = drift ∨ ∃ n, followed = Text.signed n) ∧
      Placement.StandsIn lines lower lines.size (displaced slot.1.origin followed) slot.1.oldSide
        p.start := by
  fun_induction placeShifted lines cursor drift hunks with
  | case1 => cases mem
  | case2 cursor drift h rest start found q ih =>
    rcases List.mem_cons.mp mem with rfl | later
    · obtain rfl := Option.some.inj some
      exact ⟨rfl, cursor, drift, .inl rfl, Placement.standsIn_of_nearest found⟩
    · obtain ⟨whole, lower, followed, word, stands⟩ := ih later
      exact ⟨whole, lower, followed, .inr (word.elim (fun same => ⟨_, same⟩) id), stands⟩
  | case3 cursor drift h rest found ih =>
    rcases List.mem_cons.mp mem with rfl | later
    · cases some
    · exact ih later

/-- **Hunk by hunk the exact pass gets no further off than the largest displacement.**  As long as
that stays within the signed words, the drift that is followed is the true one. -/
theorem gap_of_mem_placeShifted {cursor : Nat} {drift : Int} {hunks : List Hunk}
    (near : Text.IsSigned (drift.natAbs + maxDisplacement * hunks.length)) {slot : Slot}
    (mem : slot ∈ placeShifted lines cursor drift hunks) {p : Placement} (some : slot.2 = some p) :
    gap p.start slot.1.origin ≤ drift.natAbs + maxDisplacement * hunks.length := by
  fun_induction placeShifted lines cursor drift hunks with
  | case1 => cases mem
  | case2 cursor drift h rest start found q ih =>
    rw [List.length_cons, Nat.mul_succ] at near ⊢
    have here : gap start h.origin ≤ drift.natAbs + maxDisplacement := by
      have moved := gap_displaced_origin_le h.origin drift
      have close := (Placement.standsIn_of_nearest found).near
      unfold gap at *
      omega
    rcases List.mem_cons.mp mem with rfl | later
    · obtain rfl := Option.some.inj some
      exact here.trans (by omega)
    · have next : (q.displacement h).natAbs = gap start h.origin := by
        have told := signed_sub_of_gap (a := start) (b := h.origin)
          (by unfold Text.IsSigned at *; omega)
        rw [Placement.displacement, show (q.dropped : Int) = 0 from rfl, add_zero,
          show q.start = start from rfl, told, gap]
        omega
      exact (ih (by unfold Text.IsSigned at *; omega) later).trans (by omega)
  | case3 cursor drift h rest found ih =>
    rw [List.length_cons, Nat.mul_succ] at near ⊢
    rcases List.mem_cons.mp mem with rfl | later
    · cases some
    · exact (ih (by unfold Text.IsSigned at *; omega) later).trans (by omega)

/-- A hunk of a run is applied at a placement. -/
def Applied (text : String) (hunks : List Hunk) (tolerance : Tolerance) (slot : Slot)
    (p : Placement) : Prop :=
  slot ∈ slots (Text.lines text).toArray hunks tolerance ∧ slot.accepted? = some p

namespace Applied
variable {text : String} {hunks : List Hunk} {slot : Slot} {p : Placement}
  (applied : Applied text hunks tolerance slot p)
include applied

theorem fit_mem : p.fit ∈ ((slots (Text.lines text).toArray hunks tolerance).filterMap
    Slot.accepted?).map Placement.fit :=
  List.mem_map_of_mem (List.mem_filterMap.mpr ⟨slot, applied⟩)

/-- The exact placements of a run are those of the exact pass. -/
theorem mem_placeShifted {offset : Int} (fit : p.fit = .shifted offset) :
    slot.2 = some p ∧ slot ∈ placeShifted (Text.lines text).toArray 0 0 hunks :=
  have some := (Slot.accepted?_eq_some_iff.mp applied.2).1
  ⟨some, mem_of_mem_fillGaps applied.1 some fit⟩

/-- Where an exact fit is reported, no hunk was placed loosely. -/
theorem exists_shifted {offset : Int} (exact : (of text hunks tolerance).fit = .shifted offset) :
    ∃ own, p.fit = .shifted own := by
  have least : p.fit.strayed ≤ (of text hunks tolerance).fit.strayed :=
    Fit.strayed_le_loosest _ _ _ (List.mem_cons_of_mem _ applied.fit_mem)
  rw [exact, ← not_lt, Fit.strayed_lt_iff] at least
  cases fit : p.fit with
  | shifted own => exact ⟨own, rfl⟩
  | trimmed fuzz =>
    rw [fit] at least
    exact absurd (Fit.rank_shifted offset) least
  | similar score =>
    rw [fit] at least
    exact absurd ((Fit.rank_shifted offset).trans (Nat.lt_succ_self 2)) least

/-- An exact fit without an offset is a hunk at its recorded position. -/
theorem eq_origin (fit : p.fit = .shifted 0) : p.start = slot.1.origin := by
  obtain ⟨some, pass⟩ := applied.mem_placeShifted fit
  obtain ⟨whole, lower, followed, word, stands⟩ := found_of_mem_placeShifted pass some
  have near : gap p.start slot.1.origin < Text.wordLimit := by
    have moved := gap_displaced_origin_le slot.1.origin followed
    have close := stands.near
    have drift : 2 * followed.natAbs ≤ Text.wordLimit := by
      rcases word with rfl | ⟨n, rfl⟩
      · exact Nat.zero_le _
      · exact two_mul_natAbs_signed_le n
    have limit : Text.wordLimit = 18446744073709551616 := by rfl
    unfold gap maxDisplacement at *
    omega
  rw [whole] at fit
  -- positions that come out the same as words are the same, because they are near to each other
  have same : (Text.wordLimit : Int) ∣ (p.start : Int) - (slot.1.origin : Int) :=
    Int.dvd_of_bmod_eq_zero (Fit.shifted.inj fit)
  have zero := Int.eq_zero_of_dvd_of_natAbs_lt_natAbs same (by unfold gap at near; omega)
  omega

/-- Where there are not too many hunks, no offset is the least signed word. -/
theorem counted (few : Text.IsSigned (maxDisplacement * hunks.length)) : p.fit.Counted := by
  cases fit : p.fit with
  | shifted offset =>
    obtain ⟨some, pass⟩ := applied.mem_placeShifted fit
    have near := gap_of_mem_placeShifted (by simpa using few) pass some
    rw [Int.natAbs_zero, Nat.zero_add] at near
    have within : Text.IsSigned (gap p.start slot.1.origin) := by
      unfold Text.IsSigned at *
      omega
    rw [(found_of_mem_placeShifted pass some).1] at fit
    have told := (signed_sub_of_gap within).symm.trans (Fit.shifted.inj fit)
    rw [Fit.Counted, ← told]
    unfold Text.IsSigned gap at *
    omega
  | trimmed fuzz => trivial
  | similar score => trivial

omit applied in
/-- No applied hunk is placed more loosely than is reported. -/
theorem not_looser (counted : ∀ slot p, Applied text hunks tolerance slot p → p.fit.Counted)
    (applied : Applied text hunks tolerance slot p) :
    ¬ p.fit.LooserThan (of text hunks tolerance).fit := by
  refine Fit.loosest_counted (List.forall_mem_cons.mpr ⟨Fit.counted_zero, fun fit listed => ?_⟩)
    _ (List.mem_cons_of_mem _ applied.fit_mem)
  obtain ⟨q, placed, rfl⟩ := List.mem_map.mp listed
  obtain ⟨slot, accepted⟩ := List.mem_filterMap.mp placed
  exact counted slot q accepted

end Applied

/-- **The fit that is reported is the worst case.**  It does not matter how fits are put together.
The loosest is one of them, and none is looser, unless an offset is the least signed word.  So
where an exact fit is reported, every hunk that is applied stands as it is, and where no
offset is reported either, it stands at its recorded position.  No offset is that word unless there
are more hunks than any file has. -/
theorem fit_worst (p q r : Fit) (fits : List Fit) (text : String) (hunks : List Hunk)
    (tolerance : Tolerance) :
    (p.looser q).looser r = p.looser (q.looser r) ∧
    (Fit.loosest (.shifted 0) fits ∈ Fit.shifted 0 :: fits ∧
      ((∀ fit ∈ fits, fit.Counted) →
        ∀ fit ∈ Fit.shifted 0 :: fits, ¬ fit.LooserThan (Fit.loosest (.shifted 0) fits))) ∧
    (∀ offset, (of text hunks tolerance).fit = .shifted offset →
      ∀ slot p, Applied text hunks tolerance slot p → p = .whole slot.1 p.start ∧
        windowAt (Text.lines text).toArray p.start slot.1.oldSide.length = slot.1.oldSide) ∧
    ((∀ slot p, Applied text hunks tolerance slot p → p.fit.Counted) →
      ∀ slot p, Applied text hunks tolerance slot p →
        ¬ p.fit.LooserThan (of text hunks tolerance).fit ∧
        ((of text hunks tolerance).fit = .shifted 0 → p = .whole slot.1 slot.1.origin)) ∧
    (Text.IsSigned (maxDisplacement * hunks.length) →
      ∀ slot p, Applied text hunks tolerance slot p → p.fit.Counted) := by
  refine ⟨Fit.looser_assoc p q r, ⟨Fit.loosest_mem _ _, fun counted =>
    Fit.loosest_counted (List.forall_mem_cons.mpr ⟨Fit.counted_zero, counted⟩)⟩,
    fun offset exact slot p applied => ?_,
    fun counted slot p applied => ⟨applied.not_looser counted, fun unmoved => ?_⟩,
    fun few slot p applied => applied.counted few⟩
  · obtain ⟨own, fit⟩ := applied.exists_shifted exact
    obtain ⟨some, pass⟩ := applied.mem_placeShifted fit
    obtain ⟨whole, lower, followed, -, stands⟩ := found_of_mem_placeShifted pass some
    exact ⟨whole, stands.stands⟩
  · obtain ⟨own, fit⟩ := applied.exists_shifted unmoved
    have zero : own = 0 := by
      have kept := applied.not_looser counted
      rw [fit, unmoved] at kept
      have : ¬ (0 : Int).natAbs < own.natAbs := fun further => kept (.shifted further)
      omega
    obtain ⟨some, pass⟩ := applied.mem_placeShifted fit
    rw [← applied.eq_origin (zero ▸ fit)]
    exact (found_of_mem_placeShifted pass some).1

/-- Fits of all kinds together, and a hunk that stands at its recorded position. -/
theorem fit_worst_recorded : ∃ h : Hunk,
    (∀ fit ∈ [Fit.shifted 0, .shifted 3, .similar (mkRat 3 4), .trimmed 2, .shifted (-5)],
      ¬ fit.LooserThan (.similar (mkRat 3 4))) ∧
    (of "a\nb\n" [h] (.trimmed 1)).applied = 1 ∧
    (of "a\nb\n" [h] (.trimmed 1)).fit = .shifted 0 ∧
    ∀ slot p, Applied "a\nb\n" [h] (.trimmed 1) slot p → p = .whole slot.1 slot.1.origin := by
  have fitsCounted : ∀ fit ∈ [Fit.shifted 3, .similar (mkRat 3 4), .trimmed 2, .shifted (-5)],
      fit.Counted := by
    have signed : Text.IsSigned 3 ∧ Text.IsSigned 5 := by decide
    simpa [Fit.Counted] using signed
  have unmoved : (of "a\nb\n" [⟨⟨2, 1⟩, ⟨2, 1⟩, [.delete "b\n", .insert "x\n"]⟩]
      (.trimmed 1)).fit = .shifted 0 := by decide +kernel
  obtain ⟨-, ⟨-, worst⟩, -, recorded, counted⟩ := fit_worst (.shifted 3) (.trimmed 2) (.shifted (-5))
    [.shifted 3, .similar (mkRat 3 4), .trimmed 2, .shifted (-5)] "a\nb\n"
    [⟨⟨2, 1⟩, ⟨2, 1⟩, [.delete "b\n", .insert "x\n"]⟩] (.trimmed 1)
  exact ⟨_, worst fitsCounted, by decide +kernel, unmoved, fun slot p applied =>
    (recorded (counted (by decide)) slot p applied).2 unmoved⟩

/-- **The furthest offset counts as the nearest.**  The distance of the least signed word is no
signed word, and is told as a negative one. -/
theorem loosest_least : Fit.loosest (.shifted 0) [.shifted (-2 ^ 63)] = .shifted 0 ∧
    (Fit.shifted (-2 ^ 63)).LooserThan (.shifted 0) :=
  ⟨by decide, .shifted (by decide)⟩

end HunkRun
end Patchwork
