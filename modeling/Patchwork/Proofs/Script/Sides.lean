import Patchwork.Script.Change
import Patchwork.Script.Compact
import Patchwork.Script.Shortest

/-! The sides of a script under what is done to it after it was found.  Sliding a
stretch over kept items, merging two stretches of one kind and exchanging a
deletion with an insertion leave what the script reads and what it writes as they
were (`SameSides`), so a compacted script still fits its two sequences
(`fits_compact`).  Reading the changes off a script loses nothing either
(`changes_of_fits`). -/

namespace Patchwork.EditScript
variable {α : Type}

theorem old_cons (e : Edit α) (s : EditScript α) : old (e :: s) = e.old ++ old s := by
  simp [old]

theorem new_cons (e : Edit α) (s : EditScript α) : new (e :: s) = e.new ++ new s := by
  simp [new]

/-- Two scripts that read the same and write the same. -/
def SameSides (s t : EditScript α) : Prop := s.old = t.old ∧ s.new = t.new

theorem withItems_congr {e f : Edit α} (h : e.kind? = f.kind?) (xs : List α) :
    e.withItems xs = f.withItems xs := by
  cases e <;> cases f <;> first | rfl | cases h

namespace SameSides
variable {s t u : EditScript α}

theorem refl (s : EditScript α) : SameSides s s := ⟨rfl, rfl⟩

theorem symm (h : SameSides s t) : SameSides t s := ⟨h.1.symm, h.2.symm⟩

theorem trans (h : SameSides s t) (h' : SameSides t u) : SameSides s u :=
  ⟨h.1.trans h'.1, h.2.trans h'.2⟩

theorem append_left (u : EditScript α) (h : SameSides s t) : SameSides (u ++ s) (u ++ t) := by
  constructor
  · rw [old_append, old_append, h.1]
  · rw [new_append, new_append, h.2]

theorem append_right (u : EditScript α) (h : SameSides s t) : SameSides (s ++ u) (t ++ u) := by
  constructor
  · rw [old_append, old_append, h.1]
  · rw [new_append, new_append, h.2]

theorem cons (e : Edit α) (h : SameSides s t) : SameSides (e :: s) (e :: t) := append_left [e] h

/-- Two neighbouring stretches of one kind do what one of both does. -/
theorem merge {e f : Edit α} (h : e.kind? = f.kind?) (s : EditScript α) :
    SameSides (f.withItems (e.items ++ f.items) :: s) (e :: f :: s) := by
  cases e <;> cases f <;> simp_all [SameSides, old_cons, new_cons, Edit.kind?, Edit.withItems,
    Edit.items, Edit.old, Edit.new]

/-- A deletion and an insertion may stand in either order. -/
theorem swap {j k : Edit.Kind} {e f : Edit α} (he : e.kind? = some j) (hf : f.kind? = some k)
    (hjk : j ≠ k) (s : EditScript α) : SameSides (f :: e :: s) (e :: f :: s) := by
  cases e <;> cases f <;> simp_all [SameSides, old_cons, new_cons, Edit.kind?, Edit.old, Edit.new]

/-- A changed stretch may slide between kept items, provided that the items are the
same with it and without it. -/
theorem slide {k : Edit.Kind} {e : Edit α} (he : e.kind? = some k) {a b c d xs : List α}
    (hwith : a ++ xs ++ b = c ++ e.items ++ d) (hwithout : a ++ b = c ++ d) (s : EditScript α) :
    SameSides (.keep a :: e.withItems xs :: .keep b :: s) (.keep c :: e :: .keep d :: s) := by
  have onto (t : List α) : a ++ (xs ++ (b ++ t)) = c ++ (e.items ++ (d ++ t)) := by
    simpa only [List.append_assoc] using congrArg (· ++ t) hwith
  have past (t : List α) : a ++ (b ++ t) = c ++ (d ++ t) := by
    simpa only [List.append_assoc] using congrArg (· ++ t) hwithout
  cases e with
  | keep ys => cases he
  | delete ys => exact ⟨onto s.old, past s.new⟩
  | insert ys => exact ⟨past s.old, onto s.new⟩

end SameSides

/-! ## Settling a stretch -/

theorem sameSides_keep_nil (s : EditScript α) : SameSides (.keep [] :: s) s := by
  simp [SameSides, old_cons, new_cons, Edit.old, Edit.new]

variable [DecidableEq α]

omit [DecidableEq α] in
theorem sameSides_keepFirst (xs : List α) (s : EditScript α) :
    SameSides (keepFirst xs s) (.keep xs :: s) := by
  cases s with
  | nil => by_cases h : xs = [] <;> simp [keepFirst, h, SameSides, old, new, Edit.old, Edit.new]
  | cons e rest =>
    cases e <;> by_cases h : xs = [] <;>
      simp [keepFirst, h, SameSides, old_cons, new_cons, Edit.old, Edit.new]

omit [DecidableEq α] in
theorem sameSides_keepLast (above : List (Edit α)) (xs : List α) :
    SameSides (keepLast above xs).reverse (above.reverse ++ [.keep xs]) := by
  cases above with
  | nil => by_cases h : xs = [] <;> simp [keepLast, h, SameSides, old, new, Edit.old, Edit.new]
  | cons e rest =>
    cases e <;> by_cases h : xs = [] <;>
      simp [keepLast, h, SameSides, old_cons, new_cons, Edit.old, Edit.new]

theorem slideUp_items (above stretch below : List α) :
    let r := slideUp above stretch below
    r.1.reverse ++ r.2.1 ++ r.2.2 = above.reverse ++ stretch ++ below ∧
      r.1.reverse ++ r.2.2 = above.reverse ++ below := by
  fun_induction slideUp above stretch below with
  | case1 stretch below k above h ih =>
    obtain ⟨init, rfl⟩ := List.getLast?_eq_some_iff.mp h
    exact ⟨ih.1.trans (by simp), ih.2.trans (by simp)⟩
  | case2 => exact ⟨rfl, rfl⟩
  | case3 => exact ⟨rfl, rfl⟩

theorem slideDown_items (above stretch below : List α) :
    let r := slideDown above stretch below
    r.1.reverse ++ r.2.1 ++ r.2.2 = above.reverse ++ stretch ++ below ∧
      r.1.reverse ++ r.2.2 = above.reverse ++ below := by
  fun_induction slideDown above stretch below with
  | case1 => exact ⟨rfl, rfl⟩
  | case2 above below s rest ih => exact ⟨ih.1.trans (by simp), ih.2.trans (by simp)⟩
  | case3 => exact ⟨rfl, rfl⟩
  | case4 => exact ⟨rfl, rfl⟩

/-- The script that a focused stretch stands in. -/
def Focus.script (f : Focus α) : EditScript α := f.above.reverse ++ f.here :: f.below

/-- Moving a changed stretch up keeps both sides of its script. -/
theorem sameSides_liftFocus {k : Edit.Kind} (above : List (Edit α)) (here : Edit α)
    (below : List (Edit α)) (h : here.kind? = some k) :
    SameSides (liftFocus above here below).script (above.reverse ++ here :: below) := by
  fun_induction liftFocus above here below with
  | case1 => exact .refl _
  | case2 xs above here below stretch passed below' hs ih =>
    -- all that is kept above has passed below the stretch
    have items := slideUp_items xs.reverse here.items []
    rw [hs, List.reverse_reverse] at items
    have slid : SameSides (here.withItems stretch :: below') (.keep xs :: here :: below) := by
      refine .trans (.cons _ (sameSides_keepFirst passed below)) ?_
      refine .trans (sameSides_keep_nil _).symm ?_
      refine .trans (.slide h items.1 items.2 below) ?_
      exact .cons _ (.cons _ (sameSides_keep_nil _))
    rw [List.reverse_cons, List.append_assoc]
    exact (ih (by rw [kind?_withItems, h])).trans (.append_left _ slid)
  | case3 xs above here below left stretch passed hs below' hl =>
    -- only the end of what is kept above has
    have items := slideUp_items xs.reverse here.items []
    rw [hs, List.reverse_reverse] at items
    have slid : SameSides (.keep left.reverse :: here.withItems stretch :: below')
        (.keep xs :: here :: below) := by
      refine .trans (.cons _ (.cons _ (sameSides_keepFirst passed below))) ?_
      refine .trans (.slide h items.1 items.2 below) ?_
      exact .cons _ (.cons _ (sameSides_keep_nil _))
    simp only [Focus.script, List.reverse_cons, List.append_assoc]
    exact .append_left _ slid
  | case4 e above here below he hk ih =>
    rw [List.reverse_cons, List.append_assoc]
    exact (ih (by rw [kind?_withItems, h])).trans (.append_left _ (.merge hk below))
  | case5 e above here below he hk ih =>
    rw [List.reverse_cons, List.append_assoc]
    refine (ih h).trans (.append_left _ ?_)
    cases e with
    | keep ys => exact absurd rfl (he ys)
    | delete ys => exact .swap rfl h (fun hj => hk (by rw [h, ← hj]; rfl)) below
    | insert ys => exact .swap rfl h (fun hj => hk (by rw [h, ← hj]; rfl)) below

/-- Moving a changed stretch down keeps both sides of its script. -/
theorem sameSides_sinkFocus {k : Edit.Kind} (above : List (Edit α)) (here : Edit α)
    (below : List (Edit α)) (h : here.kind? = some k) :
    SameSides (sinkFocus above here below).script (above.reverse ++ here :: below) := by
  fun_induction sinkFocus above here below with
  | case1 => exact .refl _
  | case2 above here xs below passed stretch above' hs ih =>
    have items := slideDown_items [] here.items xs
    rw [hs] at items
    have slid : SameSides (.keep passed.reverse :: here.withItems stretch :: below)
        (here :: .keep xs :: below) := by
      refine .trans (.cons _ (.cons _ (sameSides_keep_nil below).symm)) ?_
      refine .trans (.slide h items.1 items.2 below) ?_
      exact sameSides_keep_nil _
    refine (ih (by rw [kind?_withItems, h])).trans ?_
    refine .trans (.append_right _ (sameSides_keepLast above passed.reverse)) ?_
    rw [List.append_assoc]
    exact .append_left _ slid
  | case3 above here xs below passed stretch left hs above' hl =>
    have items := slideDown_items [] here.items xs
    rw [hs] at items
    have slid : SameSides (.keep passed.reverse :: here.withItems stretch :: .keep left :: below)
        (here :: .keep xs :: below) :=
      .trans (.slide h items.1 items.2 below) (sameSides_keep_nil _)
    refine .trans (.append_right _ (sameSides_keepLast above passed.reverse)) ?_
    rw [List.append_assoc]
    exact .append_left _ slid
  | case4 above here e below he hk ih =>
    refine (ih (by rw [kind?_withItems, h])).trans (.append_left _ ?_)
    rw [← withItems_congr hk]
    exact .merge hk.symm below
  | case5 above here e below he hk ih =>
    rw [List.reverse_cons, List.append_assoc] at ih
    refine (ih h).trans (.append_left _ ?_)
    cases e with
    | keep ys => exact absurd rfl (he ys)
    | delete ys => exact .swap h rfl (fun hj => hk (by rw [h, hj]; rfl)) below
    | insert ys => exact .swap h rfl (fun hj => hk (by rw [h, hj]; rfl)) below

theorem sameSides_settled {k : Edit.Kind} (above : List (Edit α)) {here : Edit α}
    (below : List (Edit α)) (h : here.kind? = some k) :
    SameSides (settled above here below).script (above.reverse ++ here :: below) := by
  have up := countKind_liftFocus above here below h
  exact (sameSides_sinkFocus _ _ _ up.2).trans (sameSides_liftFocus above here below h)

theorem sameSides_settle (k : Edit.Kind) (above below : List (Edit α)) :
    SameSides (settle k above below) (above.reverse ++ below) := by
  fun_induction settle k above below with
  | case1 above => rw [List.append_nil]; exact .refl _
  | case2 above e below h moved ih =>
    rw [List.reverse_cons, List.append_assoc] at ih
    exact ih.trans (sameSides_settled above below h)
  | case3 above e below h ih =>
    rw [List.reverse_cons, List.append_assoc] at ih
    exact ih

/-- A compacted script turns the same sequence into the same. -/
theorem fits_compact {s : EditScript α} {xs ys : List α} (h : s.Fits xs ys) :
    s.compact.Fits xs ys := by
  have kept : SameSides s.compact s :=
    (sameSides_settle .insertion [] _).trans (sameSides_settle .deletion [] s)
  exact ⟨kept.1.trans h.1, kept.2.trans h.2⟩

end Patchwork.EditScript

/-! ## Changes -/

namespace Patchwork.Changes
variable {α : Type}

/-- What the changes and the kept items between and after them read. -/
def old (c : Changes α) : List α := c.changes.flatMap Change.old ++ c.tail

/-- What the changes and the kept items between and after them write. -/
def new (c : Changes α) : List α := c.changes.flatMap Change.new ++ c.tail

theorem old_cons (c : Change α) (rest : Changes α) :
    old ⟨c :: rest.changes, rest.tail⟩ = c.old ++ rest.old := by
  simp [old]

theorem new_cons (c : Change α) (rest : Changes α) :
    new ⟨c :: rest.changes, rest.tail⟩ = c.new ++ rest.new := by
  simp [new]

end Patchwork.Changes

namespace Patchwork.EditScript
variable {α : Type}

theorem old_collect (kept : List α) (opened : Option (List α × List α)) (s : EditScript α) :
    (collect kept opened s).old = kept ++ ((opened.getD ([], [])).1 ++ s.old) := by
  fun_induction collect kept opened s with
  | case1 kept => exact (List.append_nil kept).symm
  | case2 kept ds is => simp [Changes.old, Change.old, old]
  | case3 kept xs rest ih => simp [ih, old_cons, Edit.old]
  | case4 kept ds is xs rest more ih =>
    rw [Changes.old_cons, ih]
    simp [Change.old, old_cons, Edit.old]
  | case5 kept opened xs rest ds is h ih => simp [ih, h, old_cons, Edit.old]
  | case6 kept opened xs rest ds is h ih => simp [ih, h, old_cons, Edit.old]

theorem new_collect (kept : List α) (opened : Option (List α × List α)) (s : EditScript α) :
    (collect kept opened s).new = kept ++ ((opened.getD ([], [])).2 ++ s.new) := by
  fun_induction collect kept opened s with
  | case1 kept => exact (List.append_nil kept).symm
  | case2 kept ds is => simp [Changes.new, Change.new, new]
  | case3 kept xs rest ih => simp [ih, new_cons, Edit.new]
  | case4 kept ds is xs rest more ih =>
    rw [Changes.new_cons, ih]
    simp [Change.new, new_cons, Edit.new]
  | case5 kept opened xs rest ds is h ih => simp [ih, h, new_cons, Edit.new]
  | case6 kept opened xs rest ds is h ih => simp [ih, h, new_cons, Edit.new]

/-- The changes read off a script read what the script reads and write what it writes. -/
theorem changes_of_fits {s : EditScript α} {xs ys : List α} (h : s.Fits xs ys) :
    s.changes.old = xs ∧ s.changes.new = ys :=
  ⟨(old_collect [] none s).trans h.1, (new_collect [] none s).trans h.2⟩

end Patchwork.EditScript

/-! ## What a script keeps

A script that is found and then compacted has no empty kept stretch (`solid_compact`), so between
any two of its changes there is something that is kept (`kept_ne_nil_of_mem_tail_changes`). -/

namespace Patchwork.EditScript
variable {α : Type}

/-- No kept stretch is empty. -/
def Solid (s : List (Edit α)) : Prop := .keep [] ∉ s

namespace Solid
variable {s t : List (Edit α)} {e : Edit α}

theorem append_iff : Solid (s ++ t) ↔ Solid s ∧ Solid t := by
  simp only [Solid, List.mem_append, not_or]

theorem cons_iff : Solid (e :: s) ↔ e ≠ .keep [] ∧ Solid s := by
  simp only [Solid, List.mem_cons, not_or, ne_comm (a := e), ne_eq]

theorem reverse_iff : Solid s.reverse ↔ Solid s := by
  simp only [Solid, List.mem_reverse]

end Solid

theorem ne_keep_of_kind? {k : Edit.Kind} {e : Edit α} (h : e.kind? = some k) (xs : List α) :
    e ≠ .keep xs := by
  rintro rfl
  cases h

theorem solid_keeping (xs : List α) : Solid (keeping xs) := by
  cases xs <;> simp [keeping, Solid]

variable [DecidableEq α]

theorem solid_within (depth : Nat) (xs ys : List α) : Solid (within depth xs ys) := by
  induction depth generalizing xs ys with
  | zero => simp [within, Solid]
  | succ depth ih =>
    simp only [within, Solid.append_iff]
    refine ⟨⟨solid_keeping _, ?_⟩, solid_keeping _⟩
    split
    · exact List.not_mem_nil
    · simp [Solid]
    · simp [Solid]
    · exact Solid.append_iff.mpr ⟨ih _ _, ih _ _⟩

omit [DecidableEq α] in
theorem solid_keepFirst (xs : List α) {s : EditScript α} (h : Solid s) :
    Solid (keepFirst xs s) := by
  unfold keepFirst
  split
  · split <;> simp_all [Solid]
  · simp_all [Solid]
  · split <;> simp_all [Solid]

omit [DecidableEq α] in
theorem solid_keepLast {above : List (Edit α)} (h : Solid above) (xs : List α) :
    Solid (keepLast above xs) := by
  unfold keepLast
  split
  · split <;> simp_all [Solid]
  · simp_all [Solid]
  · split <;> simp_all [Solid]

/-- No kept stretch around the focus is empty. -/
structure Focus.Solid (f : Focus α) : Prop where
  above : EditScript.Solid f.above
  below : EditScript.Solid f.below

theorem solid_liftFocus {above : List (Edit α)} (here : Edit α) {below : List (Edit α)}
    (habove : Solid above) (hbelow : Solid below) : (liftFocus above here below).Solid := by
  fun_induction liftFocus above here below with
  | case1 => exact ⟨habove, hbelow⟩
  | case2 xs above here below stretch passed below' hs ih =>
    exact ih (Solid.cons_iff.mp habove).2 (solid_keepFirst passed hbelow)
  | case3 xs above here below left stretch passed hs below' hl =>
    refine ⟨Solid.cons_iff.mpr ⟨?_, (Solid.cons_iff.mp habove).2⟩, solid_keepFirst passed hbelow⟩
    exact fun h => hl (List.reverse_eq_nil_iff.mp (Edit.keep.inj h))
  | case4 e above here below he hk ih => exact ih (Solid.cons_iff.mp habove).2 hbelow
  | case5 e above here below he hk ih =>
    obtain ⟨first, rest⟩ := Solid.cons_iff.mp habove
    exact ih rest (Solid.cons_iff.mpr ⟨first, hbelow⟩)

theorem solid_sinkFocus {above : List (Edit α)} (here : Edit α) {below : List (Edit α)}
    (habove : Solid above) (hbelow : Solid below) : (sinkFocus above here below).Solid := by
  fun_induction sinkFocus above here below with
  | case1 => exact ⟨habove, hbelow⟩
  | case2 above here xs below passed stretch above' hs ih =>
    exact ih (solid_keepLast habove passed.reverse) (Solid.cons_iff.mp hbelow).2
  | case3 above here xs below passed stretch left hs above' hl =>
    refine ⟨solid_keepLast habove passed.reverse, Solid.cons_iff.mpr ⟨?_, ?_⟩⟩
    · exact fun h => hl (Edit.keep.inj h)
    · exact (Solid.cons_iff.mp hbelow).2
  | case4 above here e below he hk ih => exact ih habove (Solid.cons_iff.mp hbelow).2
  | case5 above here e below he hk ih =>
    obtain ⟨first, rest⟩ := Solid.cons_iff.mp hbelow
    exact ih (Solid.cons_iff.mpr ⟨first, habove⟩) rest

theorem kind?_sinkFocus (above : List (Edit α)) (here : Edit α) (below : List (Edit α)) :
    (sinkFocus above here below).here.kind? = here.kind? := by
  fun_induction sinkFocus above here below with
  | case1 => rfl
  | case2 above here xs below passed stretch above' hs ih => rw [ih, kind?_withItems]
  | case3 => exact kind?_withItems _ _
  | case4 above here e below he hk ih => rw [ih, kind?_withItems]
  | case5 above here e below he hk ih => exact ih

theorem solid_settle (k : Edit.Kind) {above below : List (Edit α)} (habove : Solid above)
    (hbelow : Solid below) : Solid (settle k above below) := by
  fun_induction settle k above below with
  | case1 above => exact Solid.reverse_iff.mpr habove
  -- the change is moved up and down again, past what may be joined to it
  | case2 above e below h moved ih =>
    have up := countKind_liftFocus above e below h
    have lifted := solid_liftFocus e habove (Solid.cons_iff.mp hbelow).2
    have settled := solid_sinkFocus (liftFocus above e below).here lifted.above lifted.below
    have changed : moved.here.kind? = some k := (kind?_sinkFocus _ _ _).trans up.2
    exact ih (Solid.cons_iff.mpr ⟨ne_keep_of_kind? changed [], settled.above⟩) settled.below
  | case3 above e below h ih =>
    obtain ⟨first, rest⟩ := Solid.cons_iff.mp hbelow
    exact ih (Solid.cons_iff.mpr ⟨first, habove⟩) rest

/-- **A compacted script keeps something wherever it keeps.** -/
theorem solid_compact {s : EditScript α} (h : Solid s) : Solid s.compact :=
  solid_settle .insertion List.not_mem_nil (solid_settle .deletion List.not_mem_nil h)

/-! ## What is kept between changes -/

omit [DecidableEq α] in
/-- Behind something that is kept, every change has something kept in front of it. -/
theorem kept_ne_nil_of_mem_collect {kept : List α} {opened : Option (List α × List α)}
    {s : EditScript α} (h : Solid s) (hkept : kept ≠ []) :
    ∀ c ∈ (collect kept opened s).changes, c.kept ≠ [] := by
  fun_induction collect kept opened s with
  | case1 => exact nofun
  | case2 kept ds is => simpa using hkept
  | case3 kept xs rest ih => exact ih (Solid.cons_iff.mp h).2 (by simp [hkept])
  | case4 kept ds is xs rest more ih =>
    obtain ⟨first, hrest⟩ := Solid.cons_iff.mp h
    exact List.forall_mem_cons.mpr ⟨hkept, ih hrest fun h => first (congrArg Edit.keep h)⟩
  | case5 kept opened xs rest ds is hopened ih => exact ih (Solid.cons_iff.mp h).2 hkept
  | case6 kept opened xs rest ds is hopened ih => exact ih (Solid.cons_iff.mp h).2 hkept

omit [DecidableEq α] in
theorem kept_ne_nil_of_mem_tail_collect (kept : List α) (opened : Option (List α × List α))
    {s : EditScript α} (h : Solid s) :
    ∀ c ∈ (collect kept opened s).changes.tail, c.kept ≠ [] := by
  fun_induction collect kept opened s with
  | case1 => exact nofun
  | case2 => exact nofun
  | case3 kept xs rest ih => exact ih (Solid.cons_iff.mp h).2
  | case4 kept ds is xs rest more ih =>
    obtain ⟨first, hrest⟩ := Solid.cons_iff.mp h
    exact kept_ne_nil_of_mem_collect hrest fun h => first (congrArg Edit.keep h)
  | case5 kept opened xs rest ds is hopened ih => exact ih (Solid.cons_iff.mp h).2
  | case6 kept opened xs rest ds is hopened ih => exact ih (Solid.cons_iff.mp h).2

omit [DecidableEq α] in
/-- **Something is kept in front of every change but the first.** -/
theorem kept_ne_nil_of_mem_tail_changes {s : EditScript α} (h : Solid s) :
    ∀ c ∈ s.changes.changes.tail, c.kept ≠ [] :=
  kept_ne_nil_of_mem_tail_collect [] none h

end Patchwork.EditScript
