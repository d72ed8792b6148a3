import Patchwork.Disk.Basic
import Patchwork.Disk.Change
import Patchwork.Proofs.Outcome
import Patchwork.Proofs.Text.Cut

/-! The places that paths lead to.  What stands on a disk decides whether a path can be
followed, but not where it leads: wherever it is followed, it leads to the place that its
text gives (`place_of_locate`).  A relative path behind another one leads on from there
(`place_join`), and an absolute one leads to its own place (`join_of_absolute`).

What changes to a disk leave alone.  Making directories changes no file
(`sameBut_makeDirs`), writing changes the file that is written (`sameBut_write`), and
removing changes nothing but what is below the place that is removed
(`sameBut_remove`). -/

namespace Patchwork

/-- Where a name leads from a place: two points lead back, and nothing and one point lead
nowhere. -/
def Place.step (place : Place) (name : String) : Place :=
  if Path.isIdle name then place else if name = ".." then place.dropLast else place ++ [name]

namespace Path

/-- The place that a path leads to, if it can be followed. -/
def place (here : Place) (p : Path) : Place :=
  (Text.pieces '/' p.text).foldl Place.step (if p.isAbsolute then [] else here)

theorem foldl_filter (names : List String) (start : Place) :
    (names.filter (!isIdle ·)).foldl Place.step start = names.foldl Place.step start := by
  induction names generalizing start with
  | nil => rfl
  | cons name names ih =>
    by_cases idle : isIdle name
    · rw [List.filter_cons_of_neg (by simp [idle]), List.foldl_cons, ih, Place.step, if_pos idle]
    · rw [List.filter_cons_of_pos (by simp [idle]), List.foldl_cons, List.foldl_cons, ih]

/-- Names that lead nowhere may be left out. -/
theorem foldl_parts (p : Path) (start : Place) :
    p.parts.foldl Place.step start = (Text.pieces '/' p.text).foldl Place.step start := by
  unfold parts
  split
  · rename_i none
    rw [none]
  · rename_i first rest whole
    rw [List.foldl_append, foldl_filter, whole, List.foldl_cons]
    split
    · rename_i empty
      rw [empty]
      rfl
    · rfl

theorem empty_notMem_parts (p : Path) : "" ∉ p.parts := by
  unfold parts
  split
  · exact List.not_mem_nil
  · rename_i first rest _
    rw [List.mem_append, not_or]
    constructor
    · split
      · exact List.not_mem_nil
      · rename_i named
        exact fun h => named (List.mem_singleton.mp h).symm
    · exact fun h => absurd (List.mem_filter.mp h).2 (by decide)

end Path

namespace Disk

/-- Wherever names are followed, they lead to the same place. -/
theorem foldl_of_follow {d : Disk} {start place : Place} {names : List String}
    (plain : "" ∉ names) (h : d.follow start names = .ok place) :
    names.foldl Place.step start = place := by
  -- the disk decides at each name whether it is followed, and the name alone where it leads
  induction names generalizing start with
  | nil => exact Except.ok.inj h
  | cons name names ih =>
    obtain ⟨hname, hnames⟩ := List.ne_and_not_mem_of_not_mem_cons plain
    rw [List.foldl_cons]
    rw [follow] at h
    split at h
    · cases h
    · cases h
    · split at h
      · rename_i point
        rw [point]
        exact ih hnames h
      split at h
      · rename_i points
        rw [points]
        exact ih hnames h
      split at h
      · cases h
      · rename_i point points _
        have step : Place.step start name = start ++ [name] := by
          rw [Place.step, if_neg (by simp [Path.isIdle, point, Ne.symm hname]), if_neg points]
        rw [step]
        exact ih hnames h

/-- **A path leads to the place that its text gives**, whatever stands on the disk. -/
theorem place_of_locate {d : Disk} {p : Path} {place : Place} (h : d.locate p = .ok place) :
    p.place d.here = place := by
  unfold locate at h
  split at h
  · cases h
  split at h
  · cases h
  split at h
  · cases h
  rw [Path.place, ← Path.foldl_parts]
  exact foldl_of_follow p.empty_notMem_parts h

end Disk

namespace Path

/-- An absolute path stands for itself, also behind another one. -/
theorem join_of_absolute {rest : String} (h : Text.startsWith "/" rest) (p : Path) :
    p.join rest = ⟨rest⟩ :=
  if_pos (.inl h)

theorem isAbsolute_iff {p : Path} : p.isAbsolute ↔ p.text.toList.head? = some '/' :=
  Text.startsWith_iff rfl

/-- A relative path behind another one leads on from there. -/
theorem place_join {rest : String} (h : ¬ Text.startsWith "/" rest) (p : Path) (here : Place) :
    (p.join rest).place here = (Text.pieces '/' rest).foldl Place.step (p.place here) := by
  unfold join
  by_cases empty : p.text = ""
  · have absent : ¬ (Path.mk rest).isAbsolute := h
    have nowhere : p.place here = here := by
      unfold place
      rw [empty, if_neg]
      · rfl
      · rw [isAbsolute_iff, empty]
        exact nofun
    rw [if_pos (.inr empty), nowhere, place, if_neg absent]
  · rw [if_neg (not_or.mpr ⟨h, empty⟩)]
    have start (more : String) : (Path.mk (p.text ++ more)).isAbsolute = p.isAbsolute := by
      obtain ⟨c, cs, text⟩ :=
        List.exists_cons_of_ne_nil (mt String.toList_eq_nil_iff.mp empty)
      rw [Bool.eq_iff_iff, isAbsolute_iff, isAbsolute_iff, String.toList_append, text]
      rfl
    have single : "/".toList = ['/'] := by decide
    split
    · rename_i slash
      obtain ⟨front, whole⟩ := Option.isSome_iff_exists.mp slash
      have whole := Text.before?_eq_some_iff.mp whole
      have last := Text.pieces_append single front ""
      have pieces := Text.pieces_append single front rest
      rw [String.append_empty, ← whole] at last
      rw [← whole] at pieces
      simp only [place, start, pieces, last, List.foldl_append]
      rfl
    · have pieces := Text.pieces_append single p.text rest
      simp only [place, String.append_assoc, start, ← List.foldl_append]
      rw [← pieces, String.append_assoc]

/-- Behind a path, a name without a slash leads one place on. -/
theorem place_join_name {name : String} (slashless : '/' ∉ name.toList) (idle : ¬ isIdle name)
    (up : name ≠ "..") (p : Path) (here : Place) :
    (p.join name).place here = p.place here ++ [name] := by
  have relative : ¬ Text.startsWith "/" name := fun h =>
    slashless (List.mem_of_head? ((Text.startsWith_iff rfl).mp h))
  rw [place_join relative, Text.pieces_of_notMem slashless]
  exact (if_neg idle).trans (if_neg up)

end Path
end Patchwork

/-! ## What changes leave alone -/

namespace Patchwork.Disk

/-- The bytes of the file at a place, if one stands there. -/
def file? (d : Disk) (place : Place) : Option ByteArray :=
  match d.at? place with
  | some (.file bytes) => some bytes
  | _ => none

/-- **Two disks with the same files**, except at some places. -/
structure SameBut (places : Place → Prop) (d d' : Disk) : Prop where
  here : d'.here = d.here
  file? : ∀ place, ¬ places place → d'.file? place = d.file? place

namespace SameBut
variable {places more : Place → Prop} {d d' d'' : Disk}

theorem refl (places : Place → Prop) (d : Disk) : SameBut places d d := ⟨rfl, fun _ _ => rfl⟩

theorem trans (h : SameBut places d d') (h' : SameBut places d' d'') : SameBut places d d'' :=
  ⟨h'.here.trans h.here, fun place out => (h'.file? place out).trans (h.file? place out)⟩

theorem mono (h : SameBut places d d') (sub : ∀ place, places place → more place) :
    SameBut more d d' :=
  ⟨h.here, fun place out => h.file? place (mt (sub place) out)⟩

end SameBut

/-! ## Single changes -/

theorem at?_put (d : Disk) (place : Place) (node : Node) {other : Place} (h : other ≠ place) :
    (d.put place node).at? other = d.at? other := by
  unfold at? put
  split
  · rfl
  · rw [Std.TreeMap.getElem?_insert, if_neg]
    exact fun same => h (Std.LawfulEqOrd.eq_of_compare same).symm

theorem at?_put_dir (d : Disk) (place : Place) : (d.put place .dir).at? place = some .dir := by
  unfold at? put
  split
  · rfl
  · exact Std.TreeMap.getElem?_insert_self

/-- Putting something at a place changes nothing elsewhere. -/
theorem sameBut_put (d : Disk) (place : Place) (node : Node) :
    SameBut (· = place) d (d.put place node) :=
  ⟨rfl, fun other out => by rw [file?, file?, at?_put d place node out]⟩

/-- A new directory stands where nothing stood, so no file is changed. -/
theorem sameBut_put_dir {d : Disk} {place : Place} (free : d.at? place = none) :
    SameBut (fun _ => False) d (d.put place .dir) := by
  refine ⟨rfl, fun other _ => ?_⟩
  by_cases h : other = place
  · rw [h, file?, file?, free, at?_put_dir]
  · rw [file?, file?, at?_put d place .dir h]

/-- Keeping only some of what is stored changes nothing where all of it is kept. -/
theorem sameBut_filter {d : Disk} {places : Place → Prop} {keep : Place → Bool}
    (kept : ∀ other, ¬ places other → keep other) :
    SameBut places d { d with nodes := d.nodes.filter fun other _ => keep other } := by
  refine ⟨rfl, fun other out => ?_⟩
  have same : Disk.at? { d with nodes := d.nodes.filter fun other _ => keep other } other =
      d.at? other := by
    unfold at?
    rw [Std.TreeMap.getElem?_filter']
    cases d.nodes[other]? with
    | none => rfl
    | some node => rw [Option.filter_some, if_pos (kept other out)]
  rw [file?, file?, same]

/-- Erasing a place changes nothing but what is below it. -/
theorem sameBut_erase (d : Disk) (place : Place) : SameBut (place <+: ·) d (d.erase place) := by
  refine sameBut_filter fun other out => ?_
  rw [Bool.not_eq_true', Bool.eq_false_iff, Ne, List.isPrefixOf_iff_prefix]
  exact out

/-- Emptying a place changes nothing but what is below it. -/
theorem sameBut_emptied (d : Disk) (place : Place) : SameBut (place <+: ·) d (d.emptied place) := by
  refine sameBut_filter fun other out => ?_
  rw [Bool.or_eq_true, Bool.not_eq_true', Bool.eq_false_iff, Ne, List.isPrefixOf_iff_prefix]
  exact .inr out

theorem sameBut_makeDir {d d' : Disk} {p : Path} (h : d.makeDir p = .ok d') :
    SameBut (fun _ => False) d d' := by
  obtain ⟨place, -, h⟩ := bind_eq_ok_iff.mp h
  split at h
  · cases h
  · rename_i free
    cases h
    exact sameBut_put_dir free

/-- Making directories changes no file, also where it fails half-way. -/
theorem sameBut_makeDirs (d : Disk) (p : Path) : SameBut (fun _ => False) d (d.makeDirs p).2 := by
  unfold makeDirs
  -- a directory is made in `case3` and `case5` alone; elsewhere the last step is refused
  fun_induction makeDirsOf d p.withParents with
  | case1 | case2 | case7 => exact .refl _ _
  | case3 _ _ _ d' made => exact sameBut_makeDir made
  | case4 _ _ _ _ e d' above ih =>
    rw [above] at ih
    exact ih
  | case5 _ _ _ _ d' above d'' made ih =>
    rw [above] at ih
    exact ih.trans (sameBut_makeDir made)
  | case6 _ _ _ _ d' above e _ ih =>
    rw [above] at ih
    exact ih

/-- Where writing succeeds, the file is put at the place of its path, and no directory stood there. -/
theorem put_of_write {d d' : Disk} {p : Path} {bytes : ByteArray} (h : d.write p bytes = .ok d') :
    d.locate p = .ok (p.place d.here) ∧ p.meansDir = false ∧
      d.at? (p.place d.here) ≠ some .dir ∧ d' = d.put (p.place d.here) (.file bytes) := by
  obtain ⟨place, found, h⟩ := bind_eq_ok_iff.mp h
  obtain rfl := place_of_locate found
  split at h <;> split at h <;> cases h
  rename_i vacant file
  exact ⟨found, by simpa using file, vacant, rfl⟩

/-- **Writing changes the file at the place of its path** and no other. -/
theorem sameBut_write {d d' : Disk} {p : Path} {bytes : ByteArray} (h : d.write p bytes = .ok d') :
    SameBut (· = p.place d.here) d d' := by
  obtain ⟨-, -, -, rfl⟩ := put_of_write h
  exact sameBut_put d _ (.file bytes)

theorem sameBut_placeFile {d d' : Disk} {p : Path} {bytes : ByteArray}
    (h : d.placeFile p bytes = .ok d') : SameBut (· = p.place d.here) d d' := by
  obtain ⟨place, found, h⟩ := bind_eq_ok_iff.mp h
  rw [place_of_locate found]
  split at h <;> split at h <;> cases h
  exact sameBut_put d place (.file bytes)

/-- **Removing changes nothing but what is below the place of its path**, also where it is
refused. -/
theorem sameBut_remove (d : Disk) (p : Path) : SameBut (p.place d.here <+: ·) d (d.remove p).2 := by
  unfold remove
  split
  · rename_i place _ found _
    rw [place_of_locate found]
    split
    · exact sameBut_erase d place
    · exact sameBut_emptied d place
  · exact .refl _ d
  · exact .refl _ d

end Patchwork.Disk
