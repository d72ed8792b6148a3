import Patchwork.Proofs.Disk.Tree
import Patchwork.Proofs.FileMap

/-! What operations do behind a path.  On a tree, what a path of names behind a directory leads to
is what stands at its place (`find_joinAll_iff`), and making a directory there, writing a file and
listing what lies below (`makeDirs_joinAll`, `write_joinAll_iff`, `walk_joinAll`) come down to that
place as well.  Trees stay trees, and paths that could be followed still can while directories stay
(`IsTree.put_dir`, `IsTree.put_file`, `locate_mono`). -/

namespace Patchwork.Disk
open Path
variable {d d' : Disk} {p : Path} {base place : Place} {names : List String}

/-! ## Trees -/

theorem at?_nil (d : Disk) : d.at? [] = some .dir := if_pos rfl

theorem at?_put_self (d : Disk) (ne : place ≠ []) (node : Node) :
    (d.put place node).at? place = some node := by
  unfold at? put
  rw [if_neg ne]
  exact Std.TreeMap.getElem?_insert_self

theorem at?_put_eq (d : Disk) (ne : place ≠ []) (node : Node) (other : Place) :
    (d.put place node).at? other = if other = place then some node else d.at? other := by
  split
  · rename_i same
    rw [same, at?_put_self d ne]
  · rename_i apart
    exact at?_put d place node apart

theorem at?_erase (d : Disk) (ne : place ≠ []) (other : Place) :
    (d.erase place).at? other = if place <+: other then none else d.at? other := by
  have root : ¬ place <+: [] := fun h => ne (List.prefix_nil.mp h)
  unfold at? erase
  by_cases top : other = []
  · rw [top, if_pos rfl, if_neg root, if_pos rfl]
  · rw [if_neg top, if_neg top, Std.TreeMap.getElem?_filter']
    by_cases below : place <+: other
    · rw [if_pos below]
      cases d.nodes[other]? with
      | none => rfl
      | some node => simp [Option.filter, List.isPrefixOf_iff_prefix.mpr below]
    · have apart : (place.isPrefixOf other) = false := by
        rw [Bool.eq_false_iff, Ne, List.isPrefixOf_iff_prefix]
        exact below
      rw [if_neg below]
      cases d.nodes[other]? with
      | none => rfl
      | some node => simp [Option.filter, apart]

/-- What is put into a directory under a name leaves a tree, if no directory is replaced by a
file. -/
theorem IsTree.put (tree : d.IsTree) {name : String} (dir : d.at? place = some .dir)
    (named : IsName name) {node : Node}
    (kept : d.at? (place ++ [name]) = some .dir → node = .dir) :
    (d.put (place ++ [name]) node).IsTree := by
  have ne : place ++ [name] ≠ [] := List.concat_ne_nil _ _
  -- a directory above something stays one: it is another place, or it was one before
  have stays : ∀ {other : Place}, d.at? other = some .dir →
      (d.put (place ++ [name]) node).at? other = some .dir := by
    intro other above
    rw [at?_put_eq d ne]
    split
    · rename_i same
      rw [kept (same ▸ above)]
    · exact above
  constructor
  · intro other found
    by_cases same : other = place ++ [name]
    · rw [same, List.dropLast_concat]
      exact stays dir
    · rw [at?_put d _ node same] at found
      exact stays (tree.parent other found)
  · intro other found
    by_cases same : other = place ++ [name]
    · intro name' hname'
      rw [same, List.mem_append, List.mem_singleton] at hname'
      rcases hname' with above | rfl
      · exact tree.named place (dir ▸ Option.some_ne_none _) name' above
      · exact named
    · rw [at?_put d _ node same] at found
      exact tree.named other found

theorem IsTree.erase (tree : d.IsTree) (ne : place ≠ []) : (d.erase place).IsTree := by
  constructor
  · intro other found
    rw [at?_erase d ne] at found ⊢
    split at found
    · exact absurd rfl found
    · rename_i apart
      rw [if_neg fun below => apart (below.trans (List.dropLast_prefix other))]
      exact tree.parent other found
  · intro other found
    rw [at?_erase d ne] at found
    split at found
    · exact absurd rfl found
    · exact tree.named other found

/-- A path that could be followed still can while directories stay. -/
theorem locate_mono (here : d'.here = d.here)
    (stay : ∀ other, d.at? other = some .dir → d'.at? other = some .dir)
    (h : d.locate p = .ok place) : d'.locate p = .ok place := by
  have follow_mono : ∀ {names : List String} {start : Place},
      d.follow start names = .ok place → d'.follow start names = .ok place := by
    intro names
    induction names with
    | nil => exact id
    | cons name names ih =>
      intro start h
      rw [follow] at h ⊢
      split at h
      · cases h
      · cases h
      · rename_i dir
        rw [stay start dir]
        dsimp only
        split
        · rename_i point
          rw [if_pos point] at h
          exact ih h
        rename_i point
        rw [if_neg point] at h
        split
        · rename_i points
          rw [if_pos points] at h
          exact ih h
        rename_i points
        rw [if_neg points] at h
        split at h
        · cases h
        · rename_i short
          rw [if_neg short]
          exact ih h
  rw [locate_eq_ok_iff] at h ⊢
  rw [Disk.start, here]
  exact ⟨h.1, follow_mono h.2⟩

/-- A path that does not lead back is followed through places above its end, so it still can be
while these stay directories. -/
theorem locate_of_above (straight : ".." ∉ p.parts) (here : d'.here = d.here)
    (stay : ∀ other, other <+: place → d.at? other = some .dir → d'.at? other = some .dir)
    (h : d.locate p = .ok place) : d'.locate p = .ok place := by
  have follow_above : ∀ {names : List String} {start : Place}, ".." ∉ names →
      d.follow start names = .ok place →
      start <+: place ∧ d'.follow start names = .ok place := by
    intro names
    induction names with
    | nil =>
      intro start _ h
      cases h
      exact ⟨List.prefix_rfl, rfl⟩
    | cons name names ih =>
      intro start straight h
      obtain ⟨apart, others⟩ := List.ne_and_not_mem_of_not_mem_cons straight
      rw [follow] at h ⊢
      split at h
      · cases h
      · cases h
      · rename_i dir
        rw [if_neg apart.symm] at h ⊢
        split at h
        · rename_i point
          obtain ⟨front, led⟩ := ih others h
          rw [stay start front dir]
          exact ⟨front, by rw [if_pos point, led]⟩
        split at h
        · cases h
        · rename_i point short
          obtain ⟨front, led⟩ := ih others h
          have above := (List.prefix_append start [name]).trans front
          rw [stay start above dir]
          exact ⟨above, by rw [if_neg point, if_neg short, led]⟩
  rw [locate_eq_ok_iff] at h ⊢
  rw [Disk.start, here]
  exact ⟨h.1, (follow_above straight h.2).2⟩

theorem locate_put (h : d.locate p = .ok base) (ne : place ≠ []) {node : Node}
    (kept : d.at? place = some .dir → node = .dir) : (d.put place node).locate p = .ok base := by
  have stay : ∀ other, d.at? other = some .dir → (d.put place node).at? other = some .dir := by
    intro other dir
    rw [at?_put_eq d ne]
    split
    · rename_i same
      rw [kept (same ▸ dir)]
    · exact dir
  have here : (d.put place node).here = d.here := rfl
  exact locate_mono here stay h

/-! ## What paths lead to -/

/-- **What names behind a path lead to** is what stands at their place. -/
theorem find_joinAll_iff (tree : d.IsTree) (found : d.locate p = .ok base)
    (named : ∀ name ∈ names, IsName name) (ne : names ≠ []) {node : Node} :
    d.find (p.joinAll names) = .ok node ↔ p.Open names ∧ d.at? (base ++ names) = some node := by
  have file : (p.joinAll names).meansDir = false := by
    rcases List.eq_nil_or_concat names with rfl | ⟨front, name, rfl⟩
    · exact absurd rfl ne
    · rw [List.concat_eq_append, joinAll_concat]
      exact meansDir_join (named name (by simp)) _
  unfold find
  rw [bind_eq_ok_iff]
  constructor
  · rintro ⟨place, led, h⟩
    obtain ⟨opened, -, rfl⟩ := (locate_joinAll_iff tree found named ne).mp led
    refine ⟨opened, ?_⟩
    split at h
    · cases h
    · rename_i stands
      cases h
      exact stands
    · rename_i stands
      rw [if_neg (Bool.eq_false_iff.mp file)] at h
      cases h
      exact stands
  · rintro ⟨opened, stands⟩
    have dir : d.at? (base ++ names.dropLast) = some .dir := by
      have above := tree.parent _ (stands ▸ Option.some_ne_none _)
      rwa [List.dropLast_append_of_ne_nil ne] at above
    refine ⟨_, (locate_joinAll_iff tree found named ne).mpr ⟨opened, dir, rfl⟩, ?_⟩
    rw [stands]
    cases node with
    | file => exact if_neg (Bool.eq_false_iff.mp file)
    | dir => rfl

theorem isDir_iff : d.isDir p ↔ d.find p = .ok .dir := by
  unfold isDir
  split <;> simp_all

theorem isFile_iff : d.isFile p ↔ ∃ bytes, d.find p = .ok (.file bytes) := by
  unfold isFile
  split <;> simp_all

theorem exists?_iff : d.exists? p ↔ ∃ node, d.find p = .ok node := by
  unfold exists?
  split <;> simp_all

theorem read_eq_ok_iff {bytes : ByteArray} :
    d.read p = .ok bytes ↔ d.find p = .ok (.file bytes) := by
  unfold read
  rw [bind_eq_ok_iff]
  constructor
  · rintro ⟨node, found, h⟩
    cases node with
    | file => cases h; exact found
    | dir => cases h
  · exact fun found => ⟨_, found, rfl⟩

theorem readText_eq_ok_iff {text : String} :
    d.readText p = .ok text ↔ d.find p = .ok (.file text.toUTF8) := by
  unfold readText
  rw [bind_eq_ok_iff]
  constructor
  · rintro ⟨bytes, known, h⟩
    split at h
    · rename_i text' decoded
      cases h
      rwa [FileMap.toUTF8_eq_of_text? decoded, ← read_eq_ok_iff]
    · cases h
  · intro found
    refine ⟨_, read_eq_ok_iff.mpr found, ?_⟩
    have decoded : String.fromUTF8? text.toUTF8 = some text := FileMap.text?_toUTF8 text
    rw [decoded]
    rfl

/-- A path with a name behind it that leads somewhere leads somewhere itself. -/
theorem exists_locate_of_join {name : String} (named : IsName name) (ne : p.text ≠ "")
    (h : d.locate (p.join name) = .ok place) :
    ∃ above, d.locate p = .ok above ∧ d.at? above = some .dir ∧ place = above ++ [name] := by
  obtain ⟨fits, led⟩ := locate_eq_ok_iff.mp h
  rw [parts_join named, follow_append, bind_eq_ok_iff] at led
  obtain ⟨above, front, last⟩ := led
  have start : d.start (p.join name) = d.start p := by
    rw [Disk.start, isAbsolute_join named, Disk.start]
  have alone : ∀ other ∈ [name], IsName other := fun other ho => List.mem_singleton.mp ho ▸ named
  have dir := dir_of_follow alone (List.cons_ne_nil _ _) last
  rw [List.dropLast_singleton, List.append_nil] at dir
  refine ⟨above, locate_eq_ok_iff.mpr ⟨Fits.of_join named ne fits, start ▸ front⟩, dir, ?_⟩
  rw [follow_name named dir] at last
  split at last
  · cases last
  · exact (Except.ok.inj last).symm

/-- A directory that a path leads to is found, however the path ends. -/
theorem find_of_locate (led : d.locate p = .ok place) (dir : d.at? place = some .dir) :
    d.find p = .ok .dir := by
  unfold find
  rw [led, ok_bind, dir]
  rfl

/-- What a path of names leads to is found without following it further. -/
theorem locate_of_find {node : Node} (h : d.find p = .ok node) :
    ∃ place, d.locate p = .ok place ∧ d.at? place = some node := by
  obtain ⟨place, led, h⟩ := bind_eq_ok_iff.mp h
  refine ⟨place, led, ?_⟩
  split at h
  · cases h
  · rename_i stands
    cases h
    exact stands
  · rename_i stands
    split at h
    · cases h
    · cases h
      exact stands

/-- A file that a path leads to is written over in its place. -/
theorem write_of_find {bytes : ByteArray} (h : d.find p = .ok (.file bytes)) :
    ∃ place, d.locate p = .ok place ∧ d.at? place = some (.file bytes) ∧
      ∀ written, d.write p written = .ok (d.put place (.file written)) := by
  obtain ⟨place, led, h⟩ := bind_eq_ok_iff.mp h
  split at h
  · cases h
  · cases h
  · rename_i stands
    split at h
    · cases h
    · rename_i file
      cases h
      refine ⟨place, led, stands, fun written => ?_⟩
      unfold write
      rw [led, ok_bind, if_neg file, stands]
      rfl

/-- A file that is written over leaves a tree. -/
theorem IsTree.put_file (tree : d.IsTree) {bytes : ByteArray}
    (stands : d.at? place = some (.file bytes)) (written : ByteArray) :
    (d.put place (.file written)).IsTree := by
  have ne : place ≠ [] := by
    rintro rfl
    rw [at?_nil] at stands
    cases stands
  have there : d.at? place ≠ none := stands ▸ Option.some_ne_none _
  obtain ⟨front, name, rfl⟩ : ∃ front name, place = front ++ [name] :=
    ⟨_, _, (List.dropLast_concat_getLast ne).symm⟩
  have above := tree.parent _ there
  rw [List.dropLast_concat] at above
  have named : IsName name := tree.named _ there name (by simp)
  exact tree.put above named fun dir => nomatch stands.symm.trans dir

/-- What a path leads to is removed with all that it holds, if the path ends in its name. -/
theorem remove_of_find {node : Node} (h : d.find p = .ok node) (ends : p.endsInName) :
    d.remove p = (.ok (), d.erase (p.place d.here)) := by
  obtain ⟨place, led, -⟩ := locate_of_find h
  unfold remove
  rw [led, place_of_locate led, h]
  exact if_pos ends

/-! ## Changes behind a path -/

section Changes
variable (tree : d.IsTree) (found : d.locate p = .ok base)
  (named : ∀ name ∈ names, IsName name) (ne : names ≠ [])
include tree found named ne

/-- **Making a directory** in a directory puts it at its place or changes nothing. -/
theorem makeDirs_joinAll (dir : d.at? (base ++ names.dropLast) = some .dir)
    (free : p.Open names → d.at? (base ++ names) = none) :
    p.Open names ∧ d.makeDirs (p.joinAll names) = (.ok (), d.put (base ++ names) .dir) ∨
      ¬ p.Open names ∧ ∃ e, d.makeDirs (p.joinAll names) = (.error e, d) := by
  have written : (p.joinAll names).text ≠ "" := by
    rcases List.eq_nil_or_concat names with rfl | ⟨front, name, rfl⟩
    · exact absurd rfl ne
    · rw [List.concat_eq_append, joinAll_concat]
      exact text_join_ne_empty (named name (by simp)) _
  have absent : d.isDir (p.joinAll names) = false := by
    rw [Bool.eq_false_iff, Ne, isDir_iff, find_joinAll_iff tree found named ne]
    exact fun ⟨opened, stands⟩ => nomatch (free opened).symm.trans stands
  unfold makeDirs withParents
  rw [upwards, makeDirsOf, if_neg written]
  rcases led : d.locate (p.joinAll names) with e | place
  · have made : d.makeDir (p.joinAll names) = .error e := by
      rw [makeDir, led]
      rfl
    have reason : e ≠ .notFound := fun missing =>
      locate_joinAll_ne_notFound tree found named ne dir (missing ▸ led)
    have closed : ¬ p.Open names := by
      intro opened
      rw [(locate_joinAll_iff tree found named ne).mpr ⟨opened, dir, rfl⟩] at led
      cases led
    rw [made]
    refine .inr ⟨closed, e, ?_⟩
    split
    · rename_i h
      cases h
    · rename_i h
      cases h
      exact absurd rfl reason
    · rename_i h
      cases h
      rw [absent]
      rfl
  · obtain ⟨opened, -, rfl⟩ := (locate_joinAll_iff tree found named ne).mp led
    have made : d.makeDir (p.joinAll names) = .ok (d.put (base ++ names) .dir) := by
      rw [makeDir, led, ok_bind, free opened]
      rfl
    exact .inl ⟨opened, by rw [made]⟩

/-- **Writing a file** puts it at its place, in a directory and not in the place of one. -/
theorem write_joinAll_iff {bytes : ByteArray} :
    d.write (p.joinAll names) bytes = .ok d' ↔
      p.Open names ∧ d.at? (base ++ names.dropLast) = some .dir ∧
        d.at? (base ++ names) ≠ some .dir ∧ d' = d.put (base ++ names) (.file bytes) := by
  have file : (p.joinAll names).meansDir = false := by
    rcases List.eq_nil_or_concat names with rfl | ⟨front, name, rfl⟩
    · exact absurd rfl ne
    · rw [List.concat_eq_append, joinAll_concat]
      exact meansDir_join (named name (by simp)) _
  unfold write
  rw [bind_eq_ok_iff, file]
  constructor
  · rintro ⟨place, led, h⟩
    obtain ⟨opened, dir, rfl⟩ := (locate_joinAll_iff tree found named ne).mp led
    rw [if_neg Bool.false_ne_true] at h
    dsimp only at h
    split at h
    · cases h
    · rename_i apart
      exact ⟨opened, dir, apart, (Except.ok.inj h).symm⟩
  · rintro ⟨opened, dir, apart, rfl⟩
    refine ⟨_, (locate_joinAll_iff tree found named ne).mpr ⟨opened, dir, rfl⟩, ?_⟩
    rw [if_neg Bool.false_ne_true]
    dsimp only
    split
    · rename_i stands
      exact absurd stands apart
    · rfl

/-- Walking a directory lists what is below its place. -/
theorem walk_joinAll (opened : p.Open names) (dir : d.at? (base ++ names) = some .dir) :
    d.walk (p.joinAll names) = .ok (d.under (base ++ names)) := by
  have above := tree.parent _ (dir ▸ Option.some_ne_none _)
  rw [List.dropLast_append_of_ne_nil ne] at above
  have led := (locate_joinAll_iff tree found named ne).mpr ⟨opened, above, rfl⟩
  have at_ := (find_joinAll_iff tree found named ne).mpr ⟨opened, dir⟩
  unfold walk
  rw [led, at_]
  rfl

end Changes

/-! ## Listings -/

theorem below?_eq_some_iff {other : Place} :
    below? place other = some names ↔ other = place ++ names := by
  unfold below?
  constructor
  · intro h
    split at h
    · rename_i below
      cases h
      exact (List.prefix_iff_eq_append.mp (List.isPrefixOf_iff_prefix.mp below)).symm
    · cases h
  · rintro rfl
    rw [if_pos (List.isPrefixOf_iff_prefix.mpr (List.prefix_append _ _)), List.drop_left]

/-- What is listed below a place is what stands there. -/
theorem mem_under_iff {node : Node} :
    (names, node) ∈ d.under place ↔ names ≠ [] ∧ d.at? (place ++ names) = some node := by
  have stored : ∀ {other : Place}, other ≠ [] →
      ((other, node) ∈ d.nodes.toList ↔ d.at? other = some node) := by
    intro other ne
    rw [Std.TreeMap.mem_toList_iff_getElem?_eq_some, at?, if_neg ne]
  unfold under
  rw [List.mem_filterMap]
  constructor
  · rintro ⟨⟨other, node'⟩, listed, h⟩
    dsimp only at h
    split at h
    · cases h
    · cases h
    · rename_i ne below
      cases h
      have ne : names ≠ [] := fun empty => ne (empty ▸ rfl)
      rw [below?_eq_some_iff] at below
      have whole : other ≠ [] := by
        rw [below]
        exact fun empty => ne (List.append_eq_nil_iff.mp empty).2
      exact ⟨ne, below ▸ (stored whole).mp listed⟩
  · rintro ⟨ne, stands⟩
    have whole : place ++ names ≠ [] := fun empty => ne (List.append_eq_nil_iff.mp empty).2
    refine ⟨(place ++ names, node), (stored whole).mpr stands, ?_⟩
    have below : below? place (place ++ names) = some names := below?_eq_some_iff.mpr rfl
    dsimp only
    rw [below]
    cases names with
    | nil => exact absurd rfl ne
    | cons => rfl

/-- A listing is in the order of the places. -/
theorem pairwise_under (d : Disk) (place : Place) :
    (d.under place).Pairwise fun a b => compare (place ++ a.1) (place ++ b.1) = .lt := by
  unfold under
  rw [List.pairwise_filterMap]
  refine d.nodes.ordered_keys_toList.imp fun before a ha b hb => ?_
  dsimp only at ha hb
  split at ha
  · cases ha
  · cases ha
  split at hb
  · cases hb
  · cases hb
  rename_i below _ _ _ below'
  cases ha
  cases hb
  rwa [← below?_eq_some_iff.mp below, ← below?_eq_some_iff.mp below']

theorem compare_append_lt (place : Place) {names : List String} (ne : names ≠ []) :
    compare place (place ++ names) = .lt := by
  induction place with
  | nil =>
    obtain ⟨name, rest, rfl⟩ := List.exists_cons_of_ne_nil ne
    rfl
  | cons name place ih =>
    have same : compare name name = .eq := Std.ReflCmp.compare_self
    rw [List.cons_append, List.compare_cons_cons, ih, same]
    rfl

/-- A directory is listed before what it holds. -/
theorem mem_front_of_under (tree : d.IsTree) {done rest : List (List String × Node)} {node : Node}
    (whole : d.under place = done ++ (names, node) :: rest) (deep : names.dropLast ≠ []) :
    (names.dropLast, .dir) ∈ done := by
  have listed : (names, node) ∈ d.under place := by simp [whole]
  obtain ⟨ne, stands⟩ := mem_under_iff.mp listed
  have above := tree.parent _ (stands ▸ Option.some_ne_none _)
  rw [List.dropLast_append_of_ne_nil ne] at above
  have parent : (names.dropLast, .dir) ∈ d.under place := mem_under_iff.mpr ⟨deep, above⟩
  have before : compare (place ++ names.dropLast) (place ++ names) = .lt := by
    have longer := compare_append_lt (place ++ names.dropLast)
      (List.cons_ne_nil (names.getLast ne) [])
    rwa [List.append_assoc, List.dropLast_concat_getLast] at longer
  have order := d.pairwise_under place
  rw [whole] at parent order
  rcases List.mem_append.mp parent with done | later
  · exact done
  · have after : compare (place ++ names) (place ++ names.dropLast) = .lt := by
      rcases List.mem_cons.mp later with same | later
      · have same := congrArg Prod.fst same
        dsimp only at same
        have still : compare (place ++ names) (place ++ names) = .eq := Std.ReflCmp.compare_self
        rw [same, still] at before
        cases before
      · exact (List.pairwise_cons.mp (List.pairwise_append.mp order).2.1).1 _ later
    exact absurd after (Std.OrientedCmp.not_lt_of_lt before)

end Patchwork.Disk
