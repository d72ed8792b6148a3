import Patchwork.Proofs.Disk.Trees

/-! Disks that are alike.  Two disks are alike when they agree but at some stale places, where each
holds what may be left there (`Disk.Alike`).  A path that stops at no stale place leads on both to the
same (`Alike.find_eq`), what is below it is listed alike (`Alike.files_eq`), and every change along such
a path is made on both or refused on both, and leaves them alike (`Alike.makeDirs`, `Alike.write`,
`Alike.placeFile`, `Alike.remove`). -/

namespace Patchwork.Disk
open Path
variable {stale : Place → Prop} {keeps : Place → Option Node → Prop} {d d' : Disk} {p q : Path}
  {place : Place} {bytes : ByteArray}

/-- **Two disks that agree but at stale places**, where each holds what may be left there: nothing is
always among it. -/
structure Alike (stale : Place → Prop) (keeps : Place → Option Node → Prop) (d d' : Disk) :
    Prop where
  tree : d.IsTree
  tree' : d'.IsTree
  here : d'.here = d.here
  same : ∀ place, ¬ stale place → d'.at? place = d.at? place
  kept : ∀ place, stale place → keeps place (d.at? place) ∧ keeps place (d'.at? place)
  vacant : ∀ place, stale place → keeps place none

/-- The place that the first names of a path lead to. -/
def stopFrom (here : Place) (p : Path) (front : List String) : Place :=
  front.foldl Place.step (if p.isAbsolute then [] else here)

/-- Whether a path stops at no stale place, its own included. -/
def Fresh (here : Place) (stale : Place → Prop) (p : Path) : Prop :=
  ∀ front, front <+: p.parts → ¬ stale (stopFrom here p front)

theorem Fresh.not_stale {here : Place} (fresh : Fresh here stale p) : ¬ stale (p.place here) := by
  rw [Path.place, ← foldl_parts]
  exact fresh _ List.prefix_rfl

/-- The path without its last part stops where the path does. -/
theorem Fresh.of_isParent {here : Place} (isParent : q.IsParent p)
    (fresh : ∀ front, front <+: p.parts.dropLast → ¬ stale (stopFrom here p front)) :
    Fresh here stale q := by
  intro front above
  rw [stopFrom, isParent.isAbsolute]
  exact fresh front (isParent.parts ▸ above)

theorem Fresh.of_mem_withParents {here : Place} (fresh : Fresh here stale p)
    (listed : q ∈ p.withParents) : Fresh here stale q := by
  unfold withParents at listed
  generalize p.parts.length + 1 = fuel at listed
  induction fuel generalizing p with
  | zero => exact List.mem_singleton.mp listed ▸ fresh
  | succ fuel ih =>
    rw [upwards] at listed
    rcases List.mem_cons.mp listed with rfl | listed
    · exact fresh
    by_cases none : p.parts = []
    · rw [parent?_eq_none none] at listed
      cases listed
    · obtain ⟨above, parent, isParent⟩ := exists_parent none
      rw [parent] at listed
      exact ih (.of_isParent isParent fun front proper =>
        fresh front (proper.trans (List.dropLast_prefix _))) listed

/-- Names are followed alike where the same stands in front of each of them. -/
theorem follow_congr {start : Place} {names : List String} (plain : "" ∉ names)
    (same : ∀ front, front <+: names → front ≠ names →
      d'.at? (front.foldl Place.step start) = d.at? (front.foldl Place.step start)) :
    d'.follow start names = d.follow start names := by
  induction names generalizing start with
  | nil => rfl
  | cons name names ih =>
    obtain ⟨named, plain'⟩ := List.ne_and_not_mem_of_not_mem_cons plain
    obtain ⟨first, others⟩ := forall_front_cons.mp same
    have first : d'.at? start = d.at? start := first
    rcases stands : d.at? start with _ | bytes | _
    · rw [follow, follow, first, stands]
    · rw [follow, follow, first, stands]
    · rw [follow_cons named.symm stands, follow_cons named.symm (first.trans stands), ih plain' others]

/-- Where the same stands below two places, it is listed alike. -/
theorem under_congr (same : ∀ other, place <+: other → d'.at? other = d.at? other) :
    d'.under place = d.under place := by
  have irrefl : ∀ {a b : List String × Node},
      compare (place ++ a.1) (place ++ b.1) = .lt → a ≠ b := by
    rintro a _ before rfl
    have same : compare (place ++ a.1) (place ++ a.1) = .eq := Std.ReflCmp.compare_self
    cases same.symm.trans before
  have perm : (d'.under place).Perm (d.under place) := by
    refine (List.perm_ext_iff_of_nodup ((pairwise_under d' place).imp irrefl)
      ((pairwise_under d place).imp irrefl)).mpr fun entry => ?_
    obtain ⟨names, node⟩ := entry
    rw [mem_under_iff, mem_under_iff, same _ (List.prefix_append _ _)]
  refine perm.eq_of_pairwise (fun a b _ _ before behind => ?_) (pairwise_under d' place)
    (pairwise_under d place)
  have swapped : compare (place ++ a.1) (place ++ b.1) =
      (compare (place ++ b.1) (place ++ a.1)).swap := Std.OrientedCmp.eq_swap
  rw [before, behind] at swapped
  cases swapped

namespace Alike

/-! ## What paths lead to -/

theorem locate_eq (alike : Alike stale keeps d d')
    (fresh : ∀ front, front <+: p.parts → front ≠ p.parts → ¬ stale (stopFrom d.here p front)) :
    d'.locate p = d.locate p := by
  have followed : d'.follow (if p.isAbsolute then [] else d.here) p.parts =
      d.follow (if p.isAbsolute then [] else d.here) p.parts :=
    follow_congr p.empty_notMem_parts fun front above apart => alike.same _ (fresh front above apart)
  unfold locate
  rw [alike.here, followed]

variable (alike : Alike stale keeps d d') (fresh : Fresh d.here stale p)
include alike fresh

theorem locate_eq_of_fresh : d'.locate p = d.locate p :=
  alike.locate_eq fun front above _ => fresh front above

theorem at?_of_locate (led : d.locate p = .ok place) :
    ¬ stale place ∧ d'.at? place = d.at? place := by
  have last := fresh.not_stale
  rw [place_of_locate led] at last
  exact ⟨last, alike.same place last⟩

/-- **A fresh path leads to the same on both disks.** -/
theorem find_eq : d'.find p = d.find p := by
  unfold find
  rw [alike.locate_eq_of_fresh fresh]
  rcases led : d.locate p with e | place
  · rfl
  · rw [ok_bind, ok_bind, (alike.at?_of_locate fresh led).2]

theorem isFile_eq : d'.isFile p = d.isFile p := by
  rw [isFile, isFile, alike.find_eq fresh]

theorem isDir_eq : d'.isDir p = d.isDir p := by
  rw [isDir, isDir, alike.find_eq fresh]

theorem exists?_eq : d'.exists? p = d.exists? p := by
  rw [exists?, exists?, alike.find_eq fresh]

theorem read_eq : d'.read p = d.read p := by
  rw [read, read, alike.find_eq fresh]

theorem readText_eq : d'.readText p = d.readText p := by
  rw [readText, readText, alike.read_eq fresh]

/-- What is below a fresh path is listed alike, where all of it is fresh. -/
theorem files_eq (below : ∀ other, p.place d.here <+: other → ¬ stale other) :
    d'.files p = d.files p := by
  have walked : d'.walk p = d.walk p := by
    unfold walk
    rw [alike.locate_eq_of_fresh fresh, alike.find_eq fresh]
    rcases led : d.locate p with e | place
    · rfl
    · rw [place_of_locate led] at below
      rw [ok_bind, ok_bind, under_congr fun other under => alike.same other (below other under)]
  rw [files, files, walked]

end Alike

/-! ## Changes -/

/-- Whether two changes leave disks that are alike, which start where they did, or are refused for one
reason. -/
def AlikeChanges (stale : Place → Prop) (keeps : Place → Option Node → Prop) (here : Place) :
    Except IoError Disk → Except IoError Disk → Prop
  | .ok d, .ok d' => d.here = here ∧ Alike stale keeps d d'
  | .error e, .error e' => e' = e
  | _, _ => False

namespace Alike

theorem put (alike : Alike stale keeps d d') (fresh : ¬ stale place) {node : Node}
    (tree : (d.put place node).IsTree) (tree' : (d'.put place node).IsTree) :
    Alike stale keeps (d.put place node) (d'.put place node) := by
  refine ⟨tree, tree', alike.here, fun other fresh' => ?_, fun other stale' => ?_, alike.vacant⟩
  · by_cases same : other = place
    · subst same
      by_cases top : other = []
      · rw [top, at?_nil, at?_nil]
      · rw [at?_put_self d top, at?_put_self d' top]
    · rw [at?_put d place node same, at?_put d' place node same, alike.same other fresh']
  · have apart : other ≠ place := fun same => fresh (same ▸ stale')
    rw [at?_put d place node apart, at?_put d' place node apart]
    exact alike.kept other stale'

/-- Clearing the same places leaves disks alike. -/
theorem clear {d₁ d₁' : Disk} (cleared : Place → Prop) (alike : Alike stale keeps d d')
    (tree : d₁.IsTree) (tree' : d₁'.IsTree) (here : d₁.here = d.here) (here' : d₁'.here = d'.here)
    (at? : ∀ place, (cleared place → d₁.at? place = none) ∧ (¬ cleared place → d₁.at? place = d.at? place))
    (at?' : ∀ place, (cleared place → d₁'.at? place = none) ∧
      (¬ cleared place → d₁'.at? place = d'.at? place)) :
    Alike stale keeps d₁ d₁' := by
  refine ⟨tree, tree', by rw [here, here', alike.here], fun place fresh => ?_, fun place stale => ?_,
    alike.vacant⟩ <;> by_cases out : cleared place
  · rw [(at? place).1 out, (at?' place).1 out]
  · rw [(at? place).2 out, (at?' place).2 out, alike.same place fresh]
  · rw [(at? place).1 out, (at?' place).1 out]
    exact ⟨alike.vacant place stale, alike.vacant place stale⟩
  · rw [(at? place).2 out, (at?' place).2 out]
    exact alike.kept place stale

variable (alike : Alike stale keeps d d') (fresh : Fresh d.here stale p)
include alike fresh

theorem makeDir : AlikeChanges stale keeps d.here (d.makeDir p) (d'.makeDir p) := by
  unfold Disk.makeDir
  rw [alike.locate_eq_of_fresh fresh]
  rcases led : d.locate p with e | place
  · rfl
  obtain ⟨fresh', same⟩ := alike.at?_of_locate fresh led
  have led' : d'.locate p = .ok place := (alike.locate_eq_of_fresh fresh).trans led
  rw [ok_bind, ok_bind, same]
  split
  · rfl
  · exact ⟨rfl, alike.put fresh' (alike.tree.put_of_locate led fun _ => rfl)
      (alike.tree'.put_of_locate led' fun _ => rfl)⟩

omit fresh in
theorem makeDirsOf {paths : List Path} (fresh : ∀ p ∈ paths, Fresh d.here stale p) :
    (d'.makeDirsOf paths).1 = (d.makeDirsOf paths).1 ∧ (d.makeDirsOf paths).2.here = d.here ∧
      Alike stale keeps (d.makeDirsOf paths).2 (d'.makeDirsOf paths).2 := by
  induction paths with
  | nil => exact ⟨rfl, rfl, alike⟩
  | cons p up ih =>
    obtain ⟨first, others⟩ := List.forall_mem_cons.mp fresh
    rw [Disk.makeDirsOf, Disk.makeDirsOf]
    split
    · exact ⟨rfl, rfl, alike⟩
    have made := alike.makeDir first
    rcases one : d.makeDir p with e | d₁ <;> rcases one' : d'.makeDir p with e' | d₁' <;>
      rw [one, one'] at made
    · cases made
      cases e
      case notFound =>
        dsimp only
        obtain ⟨same, here, alike₁⟩ := ih others
        rcases above : d.makeDirsOf up with ⟨e | _, d₁⟩ <;>
          rcases above' : d'.makeDirsOf up with ⟨e' | _, d₁'⟩ <;>
          rw [above, above'] at same alike₁ <;> rw [above] at here <;> cases same
        · exact ⟨rfl, here, alike₁⟩
        · have first₁ : Fresh d₁.here stale p := here ▸ first
          have made := alike₁.makeDir first₁
          dsimp only
          rcases two : d₁.makeDir p with e | d₂ <;> rcases two' : d₁'.makeDir p with e' | d₂' <;>
            rw [two, two'] at made
          · cases made
            exact ⟨by rw [alike₁.isDir_eq first₁], here, alike₁⟩
          · cases made
          · cases made
          · exact ⟨rfl, made.1.trans here, made.2⟩
      all_goals exact ⟨by rw [alike.isDir_eq first], rfl, alike⟩
    · cases made
    · cases made
    · exact ⟨rfl, made⟩

/-- **Making directories along a fresh path** comes to the same on both disks. -/
theorem makeDirs : (d'.makeDirs p).1 = (d.makeDirs p).1 ∧ (d.makeDirs p).2.here = d.here ∧
    Alike stale keeps (d.makeDirs p).2 (d'.makeDirs p).2 :=
  alike.makeDirsOf fun _ listed => fresh.of_mem_withParents listed

/-- **Writing along a fresh path** comes to the same on both disks. -/
theorem write : AlikeChanges stale keeps d.here (d.write p bytes) (d'.write p bytes) := by
  unfold Disk.write
  rw [alike.locate_eq_of_fresh fresh]
  rcases led : d.locate p with e | place
  · rfl
  obtain ⟨fresh', same⟩ := alike.at?_of_locate fresh led
  have led' : d'.locate p = .ok place := (alike.locate_eq_of_fresh fresh).trans led
  rw [ok_bind, ok_bind, same]
  split
  · split <;> rfl
  · rename_i vacant
    split
    · rfl
    · exact ⟨rfl, alike.put fresh' (alike.tree.put_of_locate led fun dir => absurd dir vacant)
        (alike.tree'.put_of_locate led' fun dir => absurd (same.symm.trans dir) vacant)⟩

theorem placeFile : AlikeChanges stale keeps d.here (d.placeFile p bytes) (d'.placeFile p bytes) := by
  unfold Disk.placeFile misplaced
  rw [alike.locate_eq_of_fresh fresh]
  rcases led : d.locate p with e | place
  · rfl
  obtain ⟨fresh', same⟩ := alike.at?_of_locate fresh led
  have led' : d'.locate p = .ok place := (alike.locate_eq_of_fresh fresh).trans led
  rw [ok_bind, ok_bind, same]
  split
  · split <;> rfl
  · rename_i vacant
    split
    · rfl
    · exact ⟨rfl, alike.put fresh' (alike.tree.put_of_locate led fun dir => absurd dir vacant)
        (alike.tree'.put_of_locate led' fun dir => absurd (same.symm.trans dir) vacant)⟩

/-- **Removing along a fresh path** comes to the same on both disks, also where it is refused. -/
theorem remove : (d'.remove p).1 = (d.remove p).1 ∧
    Alike stale keeps (d.remove p).2 (d'.remove p).2 := by
  have tree := alike.tree.remove p
  have tree' := alike.tree'.remove p
  have here := here_remove d p
  have here' := here_remove d' p
  unfold Disk.remove at *
  rw [alike.locate_eq_of_fresh fresh, alike.find_eq fresh] at tree' here' ⊢
  rcases led : d.locate p with e | place
  · exact ⟨rfl, alike⟩
  rcases found : d.find p with e | node
  · exact ⟨rfl, alike⟩
  rw [led, found] at tree tree' here here'
  dsimp only at tree tree' here here' ⊢
  split
  · rename_i ends
    rw [if_pos ends] at tree tree' here here'
    have ne : place ≠ [] := by
      obtain ⟨front, name, at_⟩ := exists_place_of_endsInName ends d.here
      rw [← place_of_locate led, at_]
      exact List.concat_ne_nil _ _
    refine ⟨rfl, alike.clear (place <+: ·) tree tree' here here' ?_ ?_⟩ <;>
      intro other <;> rw [at?_erase _ ne] <;> exact ⟨fun h => if_pos h, fun h => if_neg h⟩
  · rename_i ends
    rw [if_neg ends] at tree tree' here here'
    refine ⟨rfl, alike.clear (fun other => place <+: other ∧ other ≠ place ∧ other ≠ []) tree tree'
      here here' ?_ ?_⟩ <;>
      intro other <;> rw [at?_emptied] <;> exact ⟨fun h => if_pos h, fun h => if_neg h⟩

end Alike
end Patchwork.Disk

/-! ## Clean paths

Neither at the stops of a clean path nor at or below its place is anything stale (`Disk.Clean`), and
so is what names lead to behind it (`Clean.join_name`).  A path is clean that leads straight past the
stale places (`clean_of_apart`), and one that room was made for (`clean_of_mem`). -/

namespace Patchwork.Disk
open Path
variable {here : Place} {stale less : Place → Prop} {p : Path} {rest : String}

/-- **A clean path**: nothing is stale at its stops, and nothing at or below its place. -/
structure Clean (here : Place) (stale : Place → Prop) (p : Path) : Prop where
  fresh : Fresh here stale p
  below : ∀ place, p.place here <+: place → ¬ stale place

theorem Fresh.mono (fresh : Fresh here stale p) (sub : ∀ place, less place → stale place) :
    Fresh here less p := fun front above left => fresh front above (sub _ left)

theorem Clean.mono (clean : Clean here stale p) (sub : ∀ place, less place → stale place) :
    Clean here less p :=
  ⟨clean.fresh.mono sub, fun place below left => clean.below place below (sub _ left)⟩

/-- The stops of a straight path stand in front of its place. -/
theorem stopFrom_prefix_place {front : List String} (straight : ".." ∉ p.parts)
    (above : front <+: p.parts) : stopFrom here p front <+: p.place here := by
  obtain ⟨behind, whole⟩ := above
  have straight' : ".." ∉ behind := fun listed =>
    straight (whole ▸ List.mem_append_right front listed)
  have on := prefix_foldl_step straight' (stopFrom here p front)
  rwa [stopFrom, ← List.foldl_append, whole, foldl_parts, ← Path.place] at on

/-- A straight path that leads past a place is clean of what is at or below that place. -/
theorem clean_of_apart {base : Place} (straight : ".." ∉ p.parts)
    (apart : ¬ base <+: p.place here) (apart' : ¬ p.place here <+: base) :
    Clean here (base <+: ·) p := by
  refine ⟨fun front above left => ?_, fun place below left => ?_⟩
  · exact apart (left.trans (stopFrom_prefix_place straight above))
  · exact (List.prefix_or_prefix_of_prefix left below).elim apart apart'

/-! ## Behind another path -/

/-- Behind a path, names stop where the path does, or on their own way from there. -/
theorem stop_joinAll (here : Place) {names front : List String} (named : ∀ name ∈ names, IsName name)
    (above : front <+: (p.joinAll names).parts) :
    front <+: p.parts ∧ front ≠ p.parts ∧ stopFrom here (p.joinAll names) front = stopFrom here p front ∨
    ∃ front', front' <+: names ∧ front = p.parts ++ front' ∧
      stopFrom here (p.joinAll names) front = p.place here ++ front' := by
  have start : ∀ front, stopFrom here (p.joinAll names) front = stopFrom here p front := fun front => by
    rw [stopFrom, stopFrom, isAbsolute_joinAll named]
  rw [parts_joinAll named] at above
  by_cases proper : front <+: p.parts ∧ front ≠ p.parts
  · exact .inl ⟨proper.1, proper.2, start front⟩
  have below : p.parts <+: front := by
    rcases List.prefix_or_prefix_of_prefix above (List.prefix_append _ _) with above | below
    · exact not_not.mp fun other => proper ⟨above, fun same => other (same ▸ List.prefix_rfl)⟩
    · exact below
  obtain ⟨more, rfl⟩ := below
  have above := (List.prefix_append_right_inj _).mp above
  have named' : ∀ name ∈ more, IsName name := fun name listed => named name (above.subset listed)
  refine .inr ⟨more, above, rfl, ?_⟩
  rw [start, ← place_joinAll named', Path.place, ← foldl_parts, parts_joinAll named',
    isAbsolute_joinAll named', stopFrom]

/-- Behind a path, a relative path stops where the path does, or on its own way from there. -/
theorem stop_join (here : Place) {front : List String} (relative : ¬ Text.startsWith "/" rest)
    (ne : p.text ≠ "") (above : front <+: (p.join rest).parts) :
    (∃ front', front' <+: p.parts ∧ stopFrom here (p.join rest) front = stopFrom here p front') ∨
    ∃ front', front' <+: (Path.mk rest).parts ∧
      stopFrom here (p.join rest) front = front'.foldl Place.step (p.place here) := by
  have start : ∀ front, stopFrom here (p.join rest) front = stopFrom here p front := fun front => by
    rw [stopFrom, stopFrom, isAbsolute_join_of_relative relative]
  rw [parts_join_of_relative relative ne] at above
  rcases List.prefix_or_prefix_of_prefix above (List.prefix_append _ _) with above | ⟨more, rfl⟩
  · exact .inl ⟨front, above, start front⟩
  have above := (List.prefix_append_right_inj _).mp above
  have at_ : stopFrom here (p.join rest) (p.parts ++ more) = more.foldl Place.step (p.place here) := by
    rw [start, stopFrom, List.foldl_append, foldl_parts, Path.place]
  right
  rw [at_]
  -- a point counts only in front of a relative path
  obtain ⟨first, others, pieces⟩ := List.exists_cons_of_ne_nil (pieces_ne_nil rest)
  have parts := parts_eq (Path.mk rest)
  dsimp only at parts
  rw [parts, pieces, namesOf]
  rw [pieces] at above
  by_cases idle : isIdle first
  · rw [List.filter_cons_of_neg (by simp [idle])] at above
    by_cases blank : first = ""
    · exact ⟨more, by rwa [if_pos blank], rfl⟩
    · refine ⟨first :: more, by rwa [if_neg blank, List.singleton_append, List.prefix_cons_inj], ?_⟩
      rw [List.foldl_cons, Place.step, if_pos idle]
  · rw [List.filter_cons_of_pos (by simp [idle])] at above
    have named : first ≠ "" := fun blank => idle (by rw [blank]; rfl)
    exact ⟨more, by rwa [if_neg named, List.singleton_append], rfl⟩

/-- A path is fresh where the one before it is, and its own way is. -/
theorem Fresh.join (fresh : Fresh here stale p) (relative : ¬ Text.startsWith "/" rest)
    (ne : p.text ≠ "") (way : ∀ front, front <+: (Path.mk rest).parts →
      ¬ stale (front.foldl Place.step (p.place here))) : Fresh here stale (p.join rest) := by
  intro front above
  rcases stop_join here relative ne above with ⟨front', above', at_⟩ | ⟨front', above', at_⟩
  · exact at_ ▸ fresh front' above'
  · exact at_ ▸ way front' above'

/-- Behind a clean path, what a name leads to is clean. -/
theorem Clean.join_name {name : String} (clean : Clean here stale p) (named : IsName name) :
    Clean here stale (p.join name) := by
  refine ⟨fun front above => ?_, fun place below => clean.below place ?_⟩
  · have start : stopFrom here (p.join name) front = stopFrom here p front := by
      rw [stopFrom, stopFrom, isAbsolute_join named]
    rw [start]
    rw [parts_join named] at above
    rcases List.prefix_concat_iff.mp above with rfl | above
    · have last := clean.below _ (List.prefix_append (p.place here) [name])
      rwa [← place_join_of_isName named, Path.place, ← foldl_parts, parts_join named,
        isAbsolute_join named] at last
    · exact clean.fresh front above
  · rw [place_join_of_isName named] at below
    exact (List.prefix_append _ _).trans below

/-! ## Making room -/

/-- The places that are stale yet when there is room for some paths. -/
def behindRoom (here : Place) (stale : Place → Prop) (ps : List Path) (place : Place) : Prop :=
  stale place ∧ ∀ p ∈ ps, ¬ p.place here <+: place ∧
    ∀ front, front <+: p.parts → place ≠ stopFrom here p front

theorem behindRoom_singleton {place : Place} : behindRoom here stale [p] place ↔ stale place ∧
    ¬ p.place here <+: place ∧ ∀ front, front <+: p.parts → place ≠ stopFrom here p front := by
  rw [behindRoom, List.forall_mem_singleton]

theorem behindRoom_append (ps qs : List Path) :
    behindRoom here (behindRoom here stale ps) qs = behindRoom here stale (ps ++ qs) := by
  funext place
  simp only [behindRoom, List.forall_mem_append, and_assoc]

/-- With more room, less is stale. -/
theorem behindRoom_of_append {ps qs : List Path} {place : Place}
    (left : behindRoom here stale (ps ++ qs) place) : behindRoom here stale ps place :=
  ⟨left.1, fun p listed => left.2 p (List.mem_append_left _ listed)⟩

theorem behindRoom_congr {ps qs : List Path} (same : ∀ p, p ∈ ps ↔ p ∈ qs) :
    behindRoom here stale ps = behindRoom here stale qs := by
  funext place
  simp only [behindRoom, same]

theorem Fresh.behindRoom (fresh : Fresh here stale p) (ps : List Path) :
    Fresh here (behindRoom here stale ps) p := fresh.mono fun _ left => left.1

/-- **With room for a path**, the path is clean. -/
theorem clean_of_mem {ps : List Path} (listed : p ∈ ps) : Clean here (behindRoom here stale ps) p :=
  ⟨fun front above left => (left.2 p listed).2 front above rfl,
    fun _ below left => (left.2 p listed).1 below⟩

end Patchwork.Disk
