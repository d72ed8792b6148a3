import Mathlib.Data.List.Pairwise
import Patchwork.Release.Catalog
import Patchwork.Proofs.Outcome

/-! The newest of some releases.  Among the ids that a catalog lists, the one that is found came
out no earlier than any other (`Catalog.newest_of_newestAmong`), and a release that came out later
than all others is the one that is found (`Catalog.newestAmong_eq_some`). -/

namespace Patchwork

namespace Instant
variable {a b c : Instant}

theorem earlier_iff :
    a.earlier b ↔ a.seconds < b.seconds ∨ a.seconds = b.seconds ∧ a.nanosecond < b.nanosecond := by
  simp [earlier]

theorem earlier_irrefl (a : Instant) : ¬ a.earlier a := by
  rw [earlier_iff]
  omega

theorem earlier_trans (h : a.earlier b) (h' : b.earlier c) : a.earlier c := by
  rw [earlier_iff] at *
  omega

/-- What comes before something that another instant does not come after comes before that. -/
theorem earlier_of_not_earlier (h : ¬ b.earlier a) (h' : b.earlier c) : a.earlier c := by
  rw [earlier_iff] at *
  omega

/-- What does not come after something comes before all that comes after that. -/
theorem earlier_of_earlier_of_not (h : a.earlier b) (h' : ¬ c.earlier b) : a.earlier c := by
  rw [earlier_iff] at *
  omega

end Instant

namespace Catalog
variable {c : Catalog} {ids : List String} {r : Release}

/-- **The newest of some releases**: one of those with the ids came out at an instant, and none of
them later. -/
structure Newest (c : Catalog) (ids : List String) (r : Release) (i : Instant) : Prop where
  listed : ∃ id ∈ ids, c.release? id = some r
  instant : r.instant = .ok i
  latest : ∀ id ∈ ids, ∀ r', c.release? id = some r' →
    ∃ j, r'.instant = .ok j ∧ ¬ i.earlier j

/-- What was found so far: the newest of the releases that were looked at. -/
def Found (c : Catalog) (ids : List String) : Option (Release × Instant) → Prop
  | none => ∀ id ∈ ids, c.release? id = none
  | some (r, i) => c.Newest ids r i

section
variable {seen : List String} {newest : Option (Release × Instant)} {id : String} {i : Instant}

/-- An id that is not listed is passed over. -/
theorem Found.pass (h : c.Found seen newest) (absent : c.release? id = none) :
    c.Found (seen ++ [id]) newest := by
  match newest with
  | none =>
    intro other hother
    rcases List.mem_append.mp hother with before | last
    · exact h other before
    · exact List.mem_singleton.mp last ▸ absent
  | some (best, instant) =>
    obtain ⟨⟨known, hknown, listed⟩, instant, latest⟩ := h
    refine ⟨⟨known, List.mem_append_left _ hknown, listed⟩, instant, fun other hother r' there => ?_⟩
    rcases List.mem_append.mp hother with before | last
    · exact latest other before r' there
    · rw [List.mem_singleton.mp last, absent] at there
      cases there

/-- A release that came out no later than the newest so far is passed over. -/
theorem Newest.keep {best : Release} {latest : Instant} (h : c.Newest seen best latest)
    (known : c.release? id = some r) (instant : r.instant = .ok i) (early : ¬ latest.earlier i) :
    c.Newest (seen ++ [id]) best latest := by
  obtain ⟨⟨other, hother, listed⟩, at_, all⟩ := h
  refine ⟨⟨other, List.mem_append_left _ hother, listed⟩, at_, fun other hother r' there => ?_⟩
  rcases List.mem_append.mp hother with before | last
  · exact all other before r' there
  · rw [List.mem_singleton.mp last, known] at there
    cases there
    exact ⟨i, instant, early⟩

/-- A release that came out later than the newest so far is the newest. -/
theorem Found.replace (h : c.Found seen newest) (known : c.release? id = some r)
    (instant : r.instant = .ok i) (later : newest.all fun best => best.2.earlier i) :
    c.Newest (seen ++ [id]) r i := by
  refine ⟨⟨id, List.mem_append_right _ List.mem_cons_self, known⟩, instant, ?_⟩
  intro other hother r' there
  rcases List.mem_append.mp hother with before | last
  · match newest with
    | none => cases (h other before).symm.trans there
    | some (best, latest) =>
      obtain ⟨j, at_, early⟩ := h.latest other before r' there
      exact ⟨j, at_, fun after => early (Instant.earlier_trans later after)⟩
  · rw [List.mem_singleton.mp last, known] at there
    cases there
    exact ⟨i, instant, Instant.earlier_irrefl i⟩

end

theorem found_nil (c : Catalog) : c.Found [] none := fun _ h => nomatch h

theorem found_newestOver {seen : List String} {newest result : Option (Release × Instant)}
    (before : c.Found seen newest) (h : c.newestOver newest ids = .ok result) :
    c.Found (seen ++ ids) result := by
  induction ids generalizing seen newest with
  | nil =>
    cases h
    rwa [List.append_nil]
  | cons id ids ih =>
    rw [List.append_cons]
    unfold newestOver at h
    split at h
    · rename_i absent
      exact ih (before.pass absent) h
    · rename_i r known
      obtain ⟨i, instant, h⟩ := bind_eq_ok_iff.mp h
      split at h
      · rename_i later
        have next : c.Found (seen ++ [id]) (some (r, i)) := before.replace known instant later
        exact ih next h
      · rename_i later
        match newest with
        | none => exact absurd rfl later
        | some (best, latest) =>
          have next : c.Found (seen ++ [id]) (some (best, latest)) :=
            Newest.keep before known instant later
          exact ih next h

/-- **What is found is the newest**: of the releases with the ids it came out last. -/
theorem newest_of_newestAmong (h : c.newestAmong ids = .ok (some r)) : ∃ i, c.Newest ids r i := by
  obtain ⟨result, found, h⟩ := bind_eq_ok_iff.mp h
  have whole := found_newestOver c.found_nil found
  match result with
  | none => cases h
  | some (r', i) =>
    cases h
    exact ⟨i, whole⟩

theorem exists_newestOver (newest : Option (Release × Instant))
    (all : ∀ id ∈ ids, ∀ r, c.release? id = some r → ∃ i, r.instant = .ok i) :
    ∃ result, c.newestOver newest ids = .ok result := by
  induction ids generalizing newest with
  | nil => exact ⟨newest, rfl⟩
  | cons id ids ih =>
    obtain ⟨first, others⟩ := List.forall_mem_cons.mp all
    unfold newestOver
    split
    · exact ih newest others
    · rename_i r known
      obtain ⟨i, instant⟩ := first r known
      simp only [bind_eq_ok_iff, instant]
      by_cases later : newest.all fun best => best.2.earlier i
      · obtain ⟨result, found⟩ := ih (some (r, i)) others
        exact ⟨result, i, rfl, by rwa [if_pos later]⟩
      · obtain ⟨result, found⟩ := ih newest others
        exact ⟨result, i, rfl, by rwa [if_neg later]⟩

/-- **A release that came out after all others** with the ids is the one that is found. -/
theorem newestAmong_eq_some {i : Instant} (listed : ∃ id ∈ ids, c.release? id = some r)
    (instant : r.instant = .ok i)
    (later : ∀ id ∈ ids, ∀ r', c.release? id = some r' →
      r' = r ∨ ∃ j, r'.instant = .ok j ∧ j.earlier i) :
    c.newestAmong ids = .ok (some r) := by
  have readable : ∀ id ∈ ids, ∀ r', c.release? id = some r' → ∃ j, r'.instant = .ok j := by
    intro id hid r' known
    rcases later id hid r' known with rfl | ⟨j, at_, -⟩
    · exact ⟨i, instant⟩
    · exact ⟨j, at_⟩
  obtain ⟨result, found⟩ := exists_newestOver none readable
  have whole := found_newestOver c.found_nil found
  obtain ⟨id, hid, known⟩ := listed
  match result with
  | none => cases (whole id hid).symm.trans known
  | some (best, latest) =>
    obtain ⟨⟨other, hother, there⟩, at_, all⟩ := whole
    obtain ⟨j, instant', early⟩ := all id hid r known
    cases instant.symm.trans instant'
    have same : best = r := by
      rcases later other hother best there with same | ⟨j, at_', before⟩
      · exact same
      · cases at_.symm.trans at_'
        exact absurd before early
    rw [newestAmong, found, same]
    rfl

end Catalog
end Patchwork

/-! ## Catalogs that are listed newest first

In such a catalog the first release of a kind is one that came out last
(`Catalog.NewestFirst.first?`), and what came out later than a release is listed before it
(`Catalog.NewestFirst.before_of_later`).  So the closest release of a kind that is listed before
another one came out first among those that are listed there (`Catalog.NewestFirst.successor?`): it
is the one that follows, unless it came out at the same time. -/

namespace Patchwork.Catalog
variable {c : Catalog} {r current : Release} {i j : Instant} {kind : Option String}

theorem release?_eq_some {id : String} (h : c.release? id = some r) : r ∈ c.releases ∧ r.id = id :=
  ⟨List.mem_of_find?_eq_some h, by simpa using List.find?_some h⟩

/-- **Whether a catalog is listed newest first**: all releases came out at an instant, and none
later than one that is listed before it. -/
structure NewestFirst (c : Catalog) : Prop where
  dated : ∀ r ∈ c.releases, ∃ i, r.instant = .ok i
  ordered : c.releases.Pairwise fun r r' =>
    ∀ i j, r.instant = .ok i → r'.instant = .ok j → ¬ i.earlier j

/-- Whether a release is listed before another one. -/
def ListedBefore (c : Catalog) (r r' : Release) : Prop := [r, r'].Sublist c.releases

/-- The releases in front of one that is found by its id. -/
theorem exists_front (known : c.release? current.id = some current) :
    ∃ back, c.releases = c.releases.takeWhile (·.id != current.id) ++ current :: back := by
  obtain ⟨-, front, back, whole, apart⟩ := List.find?_eq_some_iff_append.mp known
  refine ⟨back, ?_⟩
  have front_eq : c.releases.takeWhile (·.id != current.id) = front := by
    rw [whole, List.takeWhile_append_of_pos]
    · simp
    · exact apart
  rw [front_eq, ← whole]

theorem listedBefore_of_mem_takeWhile (known : c.release? current.id = some current)
    (front : r ∈ c.releases.takeWhile (·.id != current.id)) : c.ListedBefore r current := by
  obtain ⟨back, whole⟩ := exists_front known
  rw [ListedBefore, whole]
  exact (List.singleton_sublist.mpr front).append
    (List.Sublist.cons_cons current (List.nil_sublist back))

namespace NewestFirst
variable (order : c.NewestFirst)
include order

theorem not_earlier (before : c.ListedBefore r current) (at_ : r.instant = .ok i)
    (at_' : current.instant = .ok j) : ¬ i.earlier j :=
  List.pairwise_pair.mp (order.ordered.sublist before) i j at_ at_'

/-- **The first release of a kind** came out no earlier than any other one of the kind. -/
theorem first? (listed : r ∈ c.releases) (of_kind : r.isOf kind) :
    ∃ r' i, c.first? kind = some r' ∧ r'.instant = .ok i ∧
      ∀ r'' ∈ c.releases, r''.isOf kind → ∀ j, r''.instant = .ok j → ¬ i.earlier j := by
  rcases found : c.first? kind with _ | r'
  · exact absurd of_kind (List.find?_eq_none.mp found r listed)
  obtain ⟨i, at_⟩ := order.dated r' (List.mem_of_find?_eq_some found)
  refine ⟨r', i, rfl, at_, fun r'' listed' of_kind' j at_' => ?_⟩
  obtain ⟨-, front, back, whole, apart⟩ := List.find?_eq_some_iff_append.mp found
  have after : r'' ∈ r' :: back := by
    rw [whole] at listed'
    rcases List.mem_append.mp listed' with before | after
    · exact absurd of_kind' (by simpa using apart r'' before)
    · exact after
  rcases List.mem_cons.mp after with rfl | after
  · cases at_.symm.trans at_'
    exact Instant.earlier_irrefl i
  · have order := order.ordered
    rw [whole] at order
    exact (List.pairwise_cons.mp (List.pairwise_append.mp order).2.1).1 r'' after i j at_ at_'

/-- **What came out later than a release is listed before it.** -/
theorem before_of_later (known : c.release? current.id = some current)
    (at_ : current.instant = .ok i) (listed : r ∈ c.releases) (at_' : r.instant = .ok j)
    (later : i.earlier j) : r ∈ c.releases.takeWhile (·.id != current.id) := by
  obtain ⟨back, whole⟩ := exists_front known
  rw [whole] at listed
  rcases List.mem_append.mp listed with before | after
  · exact before
  rcases List.mem_cons.mp after with rfl | after
  · cases at_.symm.trans at_'
    exact absurd later (Instant.earlier_irrefl i)
  · have order := order.ordered
    rw [whole] at order
    have late := (List.pairwise_cons.mp (List.pairwise_append.mp order).2.1).1 r after i j at_ at_'
    exact absurd later late

/-- **The closest release of a kind listed before another one**: of those of the kind that are
listed there it came out first. -/
theorem successor? (known : c.release? current.id = some current)
    (front : r ∈ c.releases.takeWhile (·.id != current.id)) (of_kind : r.isOf kind) :
    ∃ r' i, c.successor? current.id kind = some r' ∧ c.ListedBefore r' current ∧
      r'.instant = .ok i ∧ r'.isOf kind ∧
      ∀ r'' ∈ c.releases.takeWhile (·.id != current.id), r''.isOf kind →
        ∀ j, r''.instant = .ok j → ¬ j.earlier i := by
  have some_known : (c.release? current.id).isSome := by rw [known, Option.isSome_some]
  rw [Catalog.successor?, if_pos some_known]
  rcases found : (c.releases.takeWhile (·.id != current.id)).reverse.find? (Release.isOf kind)
    with _ | r'
  · exact absurd of_kind (List.find?_eq_none.mp found r (List.mem_reverse.mpr front))
  have front' := List.mem_reverse.mp (List.mem_of_find?_eq_some found)
  obtain ⟨i, at_⟩ := order.dated r' ((List.takeWhile_prefix _).subset front')
  refine ⟨r', i, found, listedBefore_of_mem_takeWhile known front', at_, List.find?_some found, ?_⟩
  intro r'' front'' of_kind' j at_'
  obtain ⟨-, after, before, whole, apart⟩ := List.find?_eq_some_iff_append.mp found
  -- seen from the release backwards, the found one is the first of the kind
  have behind : r'' ∈ r' :: before := by
    have listed := List.mem_reverse.mpr front''
    rw [whole] at listed
    rcases List.mem_append.mp listed with closer | behind
    · exact absurd of_kind' (by simpa using apart r'' closer)
    · exact behind
  rcases List.mem_cons.mp behind with rfl | behind
  · cases at_.symm.trans at_'
    exact Instant.earlier_irrefl i
  · have order := order.ordered.sublist (List.takeWhile_prefix (·.id != current.id)).sublist
    rw [← List.pairwise_reverse, whole] at order
    have late := (List.pairwise_cons.mp (List.pairwise_append.mp order).2.1).1 r'' behind
    exact late j i at_' at_

end NewestFirst
end Patchwork.Catalog
