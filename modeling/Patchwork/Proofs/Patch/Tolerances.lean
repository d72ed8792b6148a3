import Mathlib.Data.List.Forall2
import Patchwork.Proofs.Patch.Trimmed

/-! Runs of the same hunks over the same text under different tolerances.  What one
run does is kept by another when each hunk that the first applies is applied by the
second at the same placement (`Slot.KeptIn`).  A lower least score keeps what a higher
one does, because a window that scores too low holds its lines all the same and so the
searches after it do not change; and every tolerance keeps what the exact pass does,
because that pass comes first.  More fuzz is no such tolerance: a hunk that it wins may
take the lines of hunks behind it, and costs those (`Parted`). -/

namespace Patchwork

/-- The same hunk, applied in the second slot where it is applied in the first. -/
def Slot.KeptIn (a b : Slot) : Prop :=
  a.1 = b.1 ∧ ∀ p, a.accepted? = some p → b.accepted? = some p

theorem Slot.KeptIn.refl (slot : Slot) : slot.KeptIn slot := ⟨rfl, fun _ h => h⟩

namespace Slot

/-- The hunk has its place in the exact pass. -/
def isExact (slot : Slot) : Bool := slot.2.any fun p => p.fit matches .shifted _

/-- The hunk has a place for which more than `fuzz` context lines had to go. -/
def exceeds (fuzz : Nat) (slot : Slot) : Bool :=
  slot.2.any fun p => match p.fit with
    | .trimmed level => fuzz < level
    | _ => false

theorem isExact_of_exceeds {fuzz : Nat} {slot : Slot} (h : slot.exceeds fuzz) :
    slot.isExact = false := by
  obtain ⟨hunk, place⟩ := slot
  cases place with
  | none => rfl
  | some p =>
    cases fit : p.fit with
    | trimmed level => simp [isExact, fit]
    | shifted offset => simp [exceeds, fit] at h
    | similar score => simp [exceeds, fit] at h

end Slot

namespace HunkRun
variable {lines : Array String}

/-! ## What the kept slots have in common -/

section Kept
variable {strict lenient : List Slot} (kept : List.Forall₂ Slot.KeptIn strict lenient)
include kept

theorem getElem?_of_kept {i : Nat} {h : Hunk} {p : Placement}
    (hslot : strict[i]? = some (h, some p)) (accepted : p.accepted) :
    lenient[i]? = some (h, some p) := by
  induction kept generalizing i with
  | nil => cases hslot
  | @cons a b strict lenient first rest ih =>
    cases i with
    | zero =>
      obtain rfl := Option.some.inj hslot
      have placed := first.2 p (Slot.accepted?_eq_some_iff.mpr ⟨rfl, accepted⟩)
      have hb : b = (h, some p) := Prod.ext first.1.symm (Slot.accepted?_eq_some_iff.mp placed).1
      rw [hb]
      rfl
    | succ i => exact ih hslot

theorem failed_sublist_of_kept :
    ((lenient.filter fun slot => slot.accepted?.isNone).map Prod.fst).Sublist
      ((strict.filter fun slot => slot.accepted?.isNone).map Prod.fst) := by
  induction kept with
  | nil => exact .slnil
  | @cons a b strict lenient first rest ih =>
    cases ha : a.accepted? with
    | some p =>
      have hb := first.2 p ha
      simpa [List.filter_cons, ha, hb] using ih
    | none =>
      cases hb : b.accepted? with
      | some p => simpa [List.filter_cons, ha, hb] using ih.cons a.1
      | none => simpa [List.filter_cons, ha, hb, first.1] using ih

theorem applied_le_of_kept :
    (strict.filterMap Slot.accepted?).length ≤ (lenient.filterMap Slot.accepted?).length := by
  induction kept with
  | nil => exact Nat.le_refl _
  | @cons a b strict lenient first rest ih =>
    cases ha : a.accepted? with
    | some p =>
      rw [List.filterMap_cons_some ha, List.filterMap_cons_some (first.2 p ha)]
      exact Nat.succ_le_succ ih
    | none =>
      rw [List.filterMap_cons_none ha]
      exact Nat.le_trans ih ((List.Sublist.filterMap _ (List.sublist_cons_self b lenient)).length_le)

end Kept

/-! ## Two least scores -/

/-- Filling the gaps with two least scores puts the same windows down; the higher score
accepts no more of them. -/
theorem kept_fillGaps_similar {s t : Rat} (h : s ≤ t) (lower : Nat) (displacement : Int)
    (slots : List Slot) :
    List.Forall₂ Slot.KeptIn (fillGaps lines (.similar t) lower displacement slots)
      (fillGaps lines (.similar s) lower displacement slots) := by
  induction slots generalizing lower displacement with
  | nil => exact .nil
  | cons slot rest ih =>
    obtain ⟨hunk, place⟩ := slot
    cases place with
    | some p => exact .cons (.refl _) (ih _ _)
    | none =>
      simp only [fillGaps, Placement.loose, Placement.similar]
      cases Placement.mostSimilar windowLikeness lines lower (nextStart lines rest)
          (displaced hunk.origin displacement) hunk.oldSide with
      | none => exact .cons (.refl _) (ih _ _)
      | some found =>
        -- the window is put down whatever its score, so both runs go on from its end
        refine .cons ⟨rfl, fun p hp => ?_⟩ (ih _ _)
        obtain ⟨placed, accepted⟩ := Slot.accepted?_eq_some_iff.mp hp
        obtain rfl := Option.some.inj placed
        have reached : t ≤ found.2 := of_decide_eq_true accepted
        have same : Placement.alike hunk s found = Placement.alike hunk t found := by
          simp [Placement.alike, reached, Rat.le_trans h reached]
        exact Slot.accepted?_eq_some_iff.mpr ⟨congrArg some same, accepted⟩

/-! ## The exact pass and the gaps after it -/

/-- Filling the gaps leaves every slot of the exact pass as it is. -/
theorem kept_fillGaps (tolerance : Tolerance) (lower : Nat) (displacement : Int)
    (slots : List Slot) :
    List.Forall₂ Slot.KeptIn slots (fillGaps lines tolerance lower displacement slots) := by
  fun_induction fillGaps lines tolerance lower displacement slots with
  | case1 => exact .nil
  | case2 lower displacement hunk p rest ih => exact .cons (.refl _) ih
  | case3 lower displacement hunk rest p found ih =>
    refine .cons ⟨rfl, fun q hq => ?_⟩ ih
    cases (Slot.accepted?_eq_some_iff.mp hq).1
  | case4 lower displacement hunk rest found ih => exact .cons (.refl _) ih

theorem fillGaps_shifted (lower : Nat) (displacement : Int) (slots : List Slot) :
    fillGaps lines .shifted lower displacement slots = slots := by
  induction slots generalizing lower displacement with
  | nil => rfl
  | cons slot rest ih =>
    obtain ⟨hunk, place⟩ := slot
    cases place with
    | none => exact congrArg _ (ih lower displacement)
    | some p => exact congrArg _ (ih p.stop (p.displacement hunk))

/-! ## What a run keeps of another -/

/-- **What one tolerance does is done under another one too.**  Each hunk that is applied
keeps its placement, its window and its lines and its score with it; so no more hunks
fail, and no fewer are applied. -/
structure Kept (text : String) (hunks : List Hunk) (strict lenient : Tolerance) : Prop where
  placed : ∀ (i : Nat) (h : Hunk) (p : Placement),
    (slots (Text.lines text).toArray hunks strict)[i]? = some (h, some p) → p.accepted →
      (slots (Text.lines text).toArray hunks lenient)[i]? = some (h, some p)
  failed : (of text hunks lenient).failed.Sublist (of text hunks strict).failed
  applied : (of text hunks strict).applied ≤ (of text hunks lenient).applied

theorem Kept.of_slots {text : String} {hunks : List Hunk} {strict lenient : Tolerance}
    (kept : List.Forall₂ Slot.KeptIn (slots (Text.lines text).toArray hunks strict)
      (slots (Text.lines text).toArray hunks lenient)) : Kept text hunks strict lenient where
  placed _ _ _ := getElem?_of_kept kept
  failed := failed_sublist_of_kept kept
  applied := applied_le_of_kept kept

/-- **A higher least score never adds a success.** -/
theorem kept_of_score_le (text : String) (hunks : List Hunk) {s t : Rat} (h : s ≤ t) :
    Kept text hunks (.similar t) (.similar s) :=
  .of_slots (kept_fillGaps_similar h 0 0 _)

/-- Two hunks whose old sides read `b` and `f`. -/
def staleHunks : List Hunk :=
  [⟨⟨1, 4⟩, ⟨1, 4⟩, [.context "a\n", .delete "b\n", .insert "x\n", .context "c\n", .context "d\n"]⟩,
    ⟨⟨5, 2⟩, ⟨5, 2⟩, [.context "e\n", .delete "f\n", .insert "y\n"]⟩]

/-- Over a file with other lines in these places, the first hunk scores three quarters
and the second one half. -/
theorem kept_of_half_le_three_quarters :
    (1 / 2 : Rat) ≤ 3 / 4 ∧
      Kept "a\nB\nc\nd\ne\nF\n" staleHunks (.similar (3 / 4)) (.similar (1 / 2)) ∧
      (of "a\nB\nc\nd\ne\nF\n" staleHunks (.similar (3 / 4))).applied = 1 ∧
      (of "a\nB\nc\nd\ne\nF\n" staleHunks (.similar (1 / 2))).applied = 2 := by
  refine ⟨by decide +kernel, kept_of_score_le _ _ (by decide +kernel), ?_, ?_⟩
  · decide +kernel
  · decide +kernel

/-- **A tolerance only adds to the exact run**, and adds nothing where that run fails no
hunk. -/
theorem kept_of_shifted (text : String) (hunks : List Hunk) (tolerance : Tolerance) :
    Kept text hunks .shifted tolerance ∧
      ((of text hunks .shifted).failed = [] → of text hunks tolerance = of text hunks .shifted) := by
  have exact : slots (Text.lines text).toArray hunks .shifted =
      placeShifted (Text.lines text).toArray 0 0 hunks := fillGaps_shifted 0 0 _
  refine ⟨.of_slots ?_, fun failed => ?_⟩
  · rw [exact]
    exact kept_fillGaps tolerance 0 0 _
  · have placed : ∀ slot ∈ placeShifted (Text.lines text).toArray 0 0 hunks,
        slot.accepted?.isSome := by
      simpa [of, report, exact, List.filter_eq_nil_iff, Option.isSome_iff_ne_none] using failed
    have same : slots (Text.lines text).toArray hunks tolerance =
        placeShifted (Text.lines text).toArray 0 0 hunks := fillGaps_of_placed placed
    simp only [of, exact, same]

/-! ## Two limits on the context that goes -/

/-- **How a run with more fuzz parts from one with less.**  Both do the same until the
second puts a hunk where the first has no place for it; from there on they are apart, and
nothing is said of the hunks, up to the next one that was placed exactly. -/
inductive Parted (fuzz : Nat) : Bool → List Slot → List Slot → Prop
  | nil (apart : Bool) : Parted fuzz apart [] []
  | exact {apart : Bool} {less more : List Slot} (slot : Slot) (exact : slot.isExact)
      (rest : Parted fuzz false less more) : Parted fuzz apart (slot :: less) (slot :: more)
  | same {less more : List Slot} (slot : Slot) (within : slot.exceeds fuzz = false)
      (rest : Parted fuzz false less more) : Parted fuzz false (slot :: less) (slot :: more)
  | won {less more : List Slot} (h : Hunk) (p : Placement) (accepted : p.accepted)
      (beyond : Slot.exceeds fuzz (h, some p)) (rest : Parted fuzz true less more) :
      Parted fuzz false ((h, none) :: less) ((h, some p) :: more)
  | behind {less more : List Slot} (a b : Slot) (loose : b.isExact = false)
      (accepted : ∀ p, b.2 = some p → p.accepted) (rest : Parted fuzz true less more) :
      Parted fuzz true (a :: less) (b :: more)

/-- In how many stretches between exactly placed hunks one is put down for which more than
`fuzz` context lines had to go; `apart` says that there was one in the first stretch. -/
def wins (fuzz : Nat) : Bool → List Slot → Nat
  | _, [] => 0
  | apart, slot :: rest =>
    if slot.isExact then wins fuzz false rest
    else if !apart && slot.exceeds fuzz then wins fuzz true rest + 1
    else wins fuzz apart rest

/-- How many hunks have no place behind such a one of their stretch. -/
def losses (fuzz : Nat) : Bool → List Slot → Nat
  | _, [] => 0
  | apart, slot :: rest =>
    if slot.isExact then losses fuzz false rest
    else (if apart && slot.2.isNone then 1 else 0) + losses fuzz (apart || slot.exceeds fuzz) rest

/-- A hunk that is placed without context lines is not placed exactly, and not without more
of them than allowed. -/
theorem slot_of_trimmed {lower upper expected fuzz : Nat} {h : Hunk} {p : Placement}
    (found : Placement.trimmed lines lower upper expected h fuzz = some p) :
    Slot.isExact (h, some p) = false ∧ Slot.exceeds fuzz (h, some p) = false ∧ p.accepted := by
  obtain ⟨level, -, within, here, -⟩ := Placement.trimmed_eq_some_iff.mp found
  obtain ⟨fit, accepted⟩ := Placement.fit_of_withFuzz here
  refine ⟨?_, ?_, accepted⟩
  · simp [Slot.isExact, fit]
  · simpa [Slot.exceeds, fit] using within

theorem exists_fillGaps_none (tolerance : Tolerance) (lower : Nat) (displacement : Int) (h : Hunk)
    (rest : List Slot) : ∃ next drift, fillGaps lines tolerance lower displacement ((h, none) :: rest) =
      (h, Placement.loose lines lower (nextStart lines rest) (displaced h.origin displacement) h
        tolerance) :: fillGaps lines tolerance next drift rest := by
  rw [fillGaps]
  cases Placement.loose lines lower (nextStart lines rest) (displaced h.origin displacement) h
      tolerance with
  | none => exact ⟨lower, displacement, rfl⟩
  | some p => exact ⟨p.stop, p.displacement h, rfl⟩

/-- Filling the gaps with more fuzz parts from filling them with less only where it puts a
hunk that had no place. -/
theorem parted_fillGaps {m n : Nat} (le : m ≤ n) {slots : List Slot}
    (exact : ∀ slot ∈ slots, slot.2.isSome → slot.isExact) :
    (∀ lower displacement, Parted m false (fillGaps lines (.trimmed m) lower displacement slots)
      (fillGaps lines (.trimmed n) lower displacement slots)) ∧
    (∀ lower displacement lower' displacement',
      Parted m true (fillGaps lines (.trimmed m) lower displacement slots)
        (fillGaps lines (.trimmed n) lower' displacement' slots)) := by
  induction slots with
  | nil => exact ⟨fun _ _ => .nil false, fun _ _ _ _ => .nil true⟩
  | cons slot rest ih =>
    obtain ⟨first, others⟩ := List.forall_mem_cons.mp exact
    obtain ⟨together, apart⟩ := ih others
    obtain ⟨h, place⟩ := slot
    cases place with
    | some p =>
      exact ⟨fun _ _ => .exact _ (first rfl) (together _ _),
        fun _ _ _ _ => .exact _ (first rfl) (together _ _)⟩
    | none =>
      constructor
      · intro lower displacement
        simp only [fillGaps, Placement.loose]
        cases less : Placement.trimmed lines lower (nextStart lines rest)
            (displaced h.origin displacement) h m with
        | some p =>
          rw [Placement.trimmed_of_le le less]
          exact .same _ (slot_of_trimmed less).2.1 (together _ _)
        | none =>
          cases more : Placement.trimmed lines lower (nextStart lines rest)
              (displaced h.origin displacement) h n with
          | none => exact .same _ rfl (together _ _)
          | some p =>
            obtain ⟨fuzz, fit, beyond⟩ := Placement.lt_fuzz_of_trimmed less more
            exact .won h p (slot_of_trimmed more).2.2 (by simp [Slot.exceeds, fit, beyond])
              (apart _ _ _ _)
      · intro lower displacement lower' displacement'
        obtain ⟨_, _, less⟩ := exists_fillGaps_none (.trimmed m) lower displacement h rest
        obtain ⟨_, _, more⟩ := exists_fillGaps_none (.trimmed n) lower' displacement' h rest
        rw [less, more]
        refine .behind _ _ ?_ (fun p found => (slot_of_trimmed found).2.2) (apart _ _ _ _)
        cases found : Placement.loose lines lower' (nextStart lines rest)
            (displaced h.origin displacement') h (.trimmed n) with
        | none => rfl
        | some p => exact (slot_of_trimmed found).1

/-- The hunk at an index has no place in the first run, and one in the second for which more
than `fuzz` context lines had to go. -/
def WonAt (fuzz : Nat) (less more : List Slot) (i : Nat) : Prop :=
  ∃ h p, less[i]? = some (h, none) ∧ more[i]? = some (h, some p) ∧ p.accepted ∧
    Slot.exceeds fuzz (h, some p)

section Parted
variable {fuzz : Nat} {apart : Bool} {less more : List Slot}

/-- **A hunk is lost only behind one that is won**, with none placed exactly between the
two. -/
theorem Parted.kept (parted : Parted fuzz apart less more) {i : Nat} {h : Hunk} {p : Placement}
    (placed : less[i]? = some (h, some p)) :
    more[i]? = some (h, some p) ∨ (apart ∧ ∀ slot ∈ more.take i, slot.isExact = false) ∨
      ∃ j < i, WonAt fuzz less more j ∧
        ∀ slot ∈ (more.take i).drop (j + 1), slot.isExact = false := by
  induction parted generalizing i with
  | nil => cases placed
  | exact slot exact rest ih =>
    cases i with
    | zero => exact .inl placed
    | succ i =>
      rcases ih placed with same | ⟨⟨⟩, -⟩ | ⟨j, before, won, loose⟩
      · exact .inl same
      · exact .inr (.inr ⟨j + 1, Nat.succ_lt_succ before, won, loose⟩)
  | same slot within rest ih =>
    cases i with
    | zero => exact .inl placed
    | succ i =>
      rcases ih placed with same | ⟨⟨⟩, -⟩ | ⟨j, before, won, loose⟩
      · exact .inl same
      · exact .inr (.inr ⟨j + 1, Nat.succ_lt_succ before, won, loose⟩)
  | won k q accepted beyond rest ih =>
    cases i with
    | zero => cases placed
    | succ i =>
      rcases ih placed with same | ⟨-, loose⟩ | ⟨j, before, won, loose⟩
      · exact .inl same
      · exact .inr (.inr ⟨0, Nat.succ_pos i, ⟨k, q, rfl, rfl, accepted, beyond⟩, loose⟩)
      · exact .inr (.inr ⟨j + 1, Nat.succ_lt_succ before, won, loose⟩)
  | behind a b first accepted rest ih =>
    cases i with
    | zero => exact .inr (.inl ⟨rfl, nofun⟩)
    | succ i =>
      rcases ih placed with same | ⟨-, loose⟩ | ⟨j, before, won, loose⟩
      · exact .inl same
      · exact .inr (.inl ⟨rfl, List.forall_mem_cons.mpr ⟨first, loose⟩⟩)
      · exact .inr (.inr ⟨j + 1, Nat.succ_lt_succ before, won, loose⟩)

theorem length_filterMap_cons (slot : Slot) (slots : List Slot) :
    ((slot :: slots).filterMap Slot.accepted?).length =
      (if slot.accepted?.isSome then 1 else 0) + (slots.filterMap Slot.accepted?).length := by
  cases h : slot.accepted? with
  | none => simp [List.filterMap_cons_none h]
  | some p => simp [List.filterMap_cons_some h, Nat.add_comm]

/-- Each stretch in which a hunk is won has one more, and no more are lost than have no
place behind it. -/
theorem Parted.counted (parted : Parted fuzz apart less more) :
    (less.filterMap Slot.accepted?).length + wins fuzz apart more ≤
      (more.filterMap Slot.accepted?).length + losses fuzz apart more := by
  induction parted with
  | nil => exact Nat.le_refl _
  | exact slot exact rest ih =>
    simp only [wins, losses, exact, if_true, length_filterMap_cons]
    omega
  | @same less more slot within rest ih =>
    have together : wins fuzz false (slot :: more) = wins fuzz false more ∧
        losses fuzz false (slot :: more) = losses fuzz false more := by
      simp [wins, losses, within]
    rw [together.1, together.2, length_filterMap_cons, length_filterMap_cons]
    omega
  | @won less more h p accepted beyond rest ih =>
    have loose := Slot.isExact_of_exceeds beyond
    have one : wins fuzz false ((h, some p) :: more) = wins fuzz true more + 1 ∧
        losses fuzz false ((h, some p) :: more) = losses fuzz true more := by
      simp [wins, losses, loose, beyond]
    have placed : Slot.accepted? (h, some p) = some p :=
      Slot.accepted?_eq_some_iff.mpr ⟨rfl, accepted⟩
    rw [one.1, one.2, List.filterMap_cons_none (by rfl), List.filterMap_cons_some placed,
      List.length_cons]
    omega
  | @behind less more a b loose accepted rest ih =>
    obtain ⟨h, place⟩ := b
    have wins_eq : wins fuzz true ((h, place) :: more) = wins fuzz true more := by
      simp [wins, loose]
    -- the second run has the hunk, or counts it as lost
    have missed : losses fuzz true ((h, place) :: more) +
        (if (Slot.accepted? (h, place)).isSome then 1 else 0) = losses fuzz true more + 1 := by
      cases place with
      | none => simp [losses, loose, Slot.accepted?, Nat.add_comm]
      | some q => simp [losses, loose, Slot.accepted?, accepted q rfl]
    rw [wins_eq, length_filterMap_cons, length_filterMap_cons]
    split <;> omega

end Parted

/-- **What more fuzz may cost.**  Every hunk that is placed with less fuzz is placed where it
was, unless one in front of it is won and no hunk between the two is placed exactly.  So
no fewer hunks are applied, when no more have no place behind a hunk that is won than
there are stretches with such a hunk. -/
structure LostBehindWon (text : String) (hunks : List Hunk) (m n : Nat) : Prop where
  kept : ∀ (i : Nat) (h : Hunk) (p : Placement),
    (slots (Text.lines text).toArray hunks (.trimmed m))[i]? = some (h, some p) →
      (slots (Text.lines text).toArray hunks (.trimmed n))[i]? = some (h, some p) ∨
      ∃ j < i, WonAt m (slots (Text.lines text).toArray hunks (.trimmed m))
          (slots (Text.lines text).toArray hunks (.trimmed n)) j ∧
        ∀ slot ∈ ((slots (Text.lines text).toArray hunks (.trimmed n)).take i).drop (j + 1),
          slot.isExact = false
  counted : (of text hunks (.trimmed m)).applied +
      wins m false (slots (Text.lines text).toArray hunks (.trimmed n)) ≤
    (of text hunks (.trimmed n)).applied +
      losses m false (slots (Text.lines text).toArray hunks (.trimmed n))

theorem isExact_placeShifted (cursor : Nat) (displacement : Int) (hunks : List Hunk) :
    ∀ slot ∈ placeShifted lines cursor displacement hunks, slot.2.isSome → slot.isExact := by
  fun_induction placeShifted lines cursor displacement hunks with
  | case1 => exact List.forall_mem_nil _
  | case2 cursor displacement h rest start found p ih =>
    exact List.forall_mem_cons.mpr ⟨fun _ => rfl, ih⟩
  | case3 cursor displacement h rest found ih =>
    exact List.forall_mem_cons.mpr ⟨fun some => absurd some Bool.false_ne_true, ih⟩

/-- **More fuzz costs a hunk only behind one that it wins.** -/
theorem lostBehindWon_of_le (text : String) (hunks : List Hunk) {m n : Nat} (le : m ≤ n) :
    LostBehindWon text hunks m n := by
  have parted : Parted m false (slots (Text.lines text).toArray hunks (.trimmed m))
      (slots (Text.lines text).toArray hunks (.trimmed n)) :=
    (parted_fillGaps le (isExact_placeShifted 0 0 hunks)).1 0 0
  refine ⟨fun i h p placed => ?_, parted.counted⟩
  rcases parted.kept placed with same | ⟨⟨⟩, -⟩ | won
  · exact .inl same
  · exact .inr won

/-- Three hunks, each of which deletes a line behind context. -/
def guarded : List Hunk :=
  [⟨⟨1, 3⟩, ⟨1, 2⟩, [.context "p\n", .context "q\n", .delete "a\n"]⟩,
    ⟨⟨4, 2⟩, ⟨3, 1⟩, [.context "r\n", .delete "b\n"]⟩,
    ⟨⟨6, 2⟩, ⟨4, 1⟩, [.context "s\n", .delete "c\n"]⟩]

/-- In a file that has lost the context, the second hunk and the third lie in front of the
first, which needs more fuzz than they do. -/
theorem lostBehindWon_guarded :
    1 ≤ 2 ∧ LostBehindWon "b\nc\na\n" guarded 1 2 ∧
      wins 1 false (slots (Text.lines "b\nc\na\n").toArray guarded (.trimmed 2)) = 1 ∧
      losses 1 false (slots (Text.lines "b\nc\na\n").toArray guarded (.trimmed 2)) = 2 :=
  ⟨by decide, lostBehindWon_of_le _ _ (by decide), by decide +kernel, by decide +kernel⟩

/-- More fuzz may cost two hunks and win one. -/
theorem applied_guarded :
    (of "b\nc\na\n" guarded (.trimmed 1)).applied = 2 ∧
      (of "b\nc\na\n" guarded (.trimmed 2)).applied = 1 ∧
      ¬ ∀ (text : String) (hunks : List Hunk) (m n : Nat), m ≤ n →
        (of text hunks (.trimmed m)).applied ≤ (of text hunks (.trimmed n)).applied := by
  have two : (of "b\nc\na\n" guarded (.trimmed 1)).applied = 2 := by decide +kernel
  have one : (of "b\nc\na\n" guarded (.trimmed 2)).applied = 1 := by decide +kernel
  refine ⟨two, one, fun never => ?_⟩
  have le := never "b\nc\na\n" guarded 1 2 (by decide)
  omega

end HunkRun
end Patchwork
