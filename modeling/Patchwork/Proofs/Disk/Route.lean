import Mathlib.Data.List.TakeWhile
import Patchwork.Proofs.Disk.Cleared
import Patchwork.Proofs.Disk.Tree

/-! The path without its last part.  It leads through all parts of the path but the last one, from
the same place, and its text is where the text of the path begins (`Path.IsParent`), so that it is
taken wherever the path is (`Path.IsParent.fits`).  Only a path without parts has no parent
(`Path.exists_parent`, `Path.parent?_eq_none`).

Routes.  Following a path stops at a place before each of its names (`Disk.stop`).  A path whose
text the file system takes can be followed just where directories stand at these stops
(`Disk.locate_iff`), and where no file stands at one, making its directories makes what is missing
among them and nothing else (`Disk.makeDirs_of_clear`, `Disk.Made`); so does making the directory that
it lies in (`Disk.makeParent_of_clear`, `Disk.MadeAbove`). -/

namespace Patchwork.Path
variable {p q : Path}

/-! ## Texts of pieces -/

/-- Texts without a slash are the pieces of what is written from them. -/
theorem pieces_slashed {xs : List String} (ne : xs ≠ []) (slashless : ∀ x ∈ xs, '/' ∉ x.toList) :
    Text.pieces '/' (slashed xs) = xs := by
  have single : "/".toList = ['/'] := by decide
  unfold slashed
  induction xs with
  | nil => exact absurd rfl ne
  | cons x xs ih =>
    obtain ⟨first, others⟩ := List.forall_mem_cons.mp slashless
    by_cases last : xs = []
    · rw [last, String.intercalate_singleton, Text.pieces_of_notMem first]
    · rw [String.intercalate_cons_of_ne_nil last, Text.pieces_append single,
        Text.pieces_of_notMem first, ih last others, List.singleton_append]

/-- A text is written from its pieces, and no piece holds a slash. -/
theorem slashed_pieces (s : String) :
    slashed (Text.pieces '/' s) = s ∧ ∀ x ∈ Text.pieces '/' s, '/' ∉ x.toList := by
  have single : "/".toList = ['/'] := by decide
  unfold slashed
  -- the text is cut at its first slash
  induction size : s.toList.length using Nat.strongRecOn generalizing s with
  | _ size' ih =>
    by_cases slash : '/' ∈ s.toList
    · obtain ⟨front, back, whole, apart⟩ := List.eq_append_cons_of_mem slash
      have text : s = String.ofList front ++ "/" ++ String.ofList back := by
        rw [← String.toList_inj, whole]
        simp [single]
      have apart' : '/' ∉ (String.ofList front).toList := by rwa [String.toList_ofList]
      have shorter : (String.ofList back).toList.length < size' := by
        rw [← size, whole, String.toList_ofList, List.length_append, List.length_cons]
        omega
      obtain ⟨written, slashless⟩ := ih _ shorter (String.ofList back) rfl
      rw [text, Text.pieces_append single, Text.pieces_of_notMem apart', List.singleton_append,
        String.intercalate_cons_of_ne_nil (pieces_ne_nil _), written]
      exact ⟨rfl, List.forall_mem_cons.mpr ⟨apart', slashless⟩⟩
    · rw [Text.pieces_of_notMem slash, String.intercalate_singleton]
      exact ⟨rfl, fun x hx => List.mem_singleton.mp hx ▸ slash⟩

/-! ## The parent -/

/-- **A path without its last part**: the same names but the last one, from the same place. -/
structure IsParent (q p : Path) : Prop where
  parts : q.parts = p.parts.dropLast
  isAbsolute : q.isAbsolute = p.isAbsolute
  begins : ∃ rest, p.text = q.text ++ rest

theorem IsParent.fits (h : q.IsParent p) (fits : p.Fits) (ne : q.text ≠ "") : q.Fits := by
  obtain ⟨rest, text⟩ := h.begins
  refine ⟨fun nul => fits.nulless ?_, ne, ?_⟩
  · rw [text, String.toList_append]
    exact List.mem_append_left _ nul
  · have size := fits.size_le
    rw [text, String.utf8ByteSize_append] at size
    exact Nat.le_trans (Nat.le_add_right _ _) size

/-- What stands in front of the last part of some pieces. -/
theorem exists_dropPart {reversed : List String} (named : ¬ reversed.all isIdle) :
    ∃ idle name idle', reversed = idle ++ name :: (idle' ++ dropPart reversed) ∧
      isIdle name = false ∧ (∀ piece ∈ idle, isIdle piece) ∧ ∀ piece ∈ idle', isIdle piece := by
  have idles : ∀ xs : List String, ∀ piece ∈ xs.takeWhile isIdle, isIdle piece :=
    fun _ _ => List.mem_takeWhile_imp
  rcases rest : reversed.dropWhile isIdle with _ | ⟨name, behind⟩
  · have all : reversed.all isIdle := by
      rw [List.all_eq_true]
      exact List.dropWhile_eq_nil_iff.mp rest
    exact absurd all named
  · refine ⟨reversed.takeWhile isIdle, name, behind.takeWhile isIdle, ?_, ?_, idles _, idles _⟩
    · rw [dropPart, rest, List.drop_one, List.tail_cons, List.takeWhile_append_dropWhile, ← rest,
        List.takeWhile_append_dropWhile]
    · have first := List.head_dropWhile_not isIdle (l := reversed) (by simp [rest])
      simpa [rest] using first

theorem filter_idle {xs : List String} (idle : ∀ piece ∈ xs, isIdle piece) :
    xs.filter (!isIdle ·) = [] := by
  rw [List.filter_eq_nil_iff]
  intro piece listed
  simp [idle piece listed]

/-- Whether a path starts at the root is seen from its first piece. -/
theorem isAbsolute_of_pieces {first : String} {rest : List String}
    (pieces : Text.pieces '/' p.text = first :: rest) :
    p.isAbsolute ↔ first = "" ∧ rest ≠ [] := by
  obtain ⟨written, slashless⟩ := slashed_pieces p.text
  rw [pieces] at written slashless
  have apart : '/' ∉ first.toList := slashless first List.mem_cons_self
  have single : "/".toList = ['/'] := by decide
  rw [isAbsolute_iff, ← written, slashed]
  by_cases last : rest = []
  · rw [last, String.intercalate_singleton]
    exact ⟨fun starts => absurd (List.mem_of_head? starts) apart, fun h => absurd rfl h.2⟩
  · rw [String.intercalate_cons_of_ne_nil last, String.toList_append, String.toList_append, single]
    rcases chars : first.toList with _ | ⟨c, cs⟩
    · exact ⟨fun _ => ⟨String.toList_eq_nil_iff.mp chars, last⟩, fun _ => rfl⟩
    · constructor
      · intro starts
        have same : c = '/' := Option.some.inj starts
        rw [chars, same] at apart
        exact absurd List.mem_cons_self apart
      · rintro ⟨empty, -⟩
        rw [empty] at chars
        cases chars

/-- Only a path without parts has no parent. -/
theorem exists_parent (ne : p.parts ≠ []) : ∃ q, p.parent? = some q ∧ q.IsParent p := by
  obtain ⟨written, slashless⟩ := slashed_pieces p.text
  rcases pieces : Text.pieces '/' p.text with _ | ⟨first, rest⟩
  · exact absurd pieces (pieces_ne_nil _)
  have parts := parts_eq p
  have absolute := isAbsolute_of_pieces pieces
  rw [pieces] at parts slashless written
  rw [namesOf] at parts
  unfold parent?
  rw [pieces]
  dsimp only
  by_cases alone : rest.all isIdle
  · -- a single name in front of nothing
    rw [if_pos alone]
    rw [filter_idle (List.all_eq_true.mp alone), List.append_nil] at parts
    have named : first ≠ "" := fun empty => ne (by rw [parts, if_pos empty])
    rw [if_neg named] at parts ⊢
    refine ⟨⟨""⟩, rfl, ?_, ?_, p.text, (String.empty_append).symm⟩
    · rw [parts]
      rfl
    · rw [Bool.eq_iff_iff, absolute]
      refine ⟨fun h => ?_, fun h => absurd h.1 named⟩
      cases h
  · rw [if_neg alone]
    have named : ¬ rest.reverse.all isIdle := by rwa [List.all_reverse]
    obtain ⟨idle, name, idle', whole, plain, idles, idles'⟩ := exists_dropPart named
    obtain ⟨front, cut⟩ : ∃ front, dropPart rest.reverse = front := ⟨_, rfl⟩
    rw [cut] at whole ⊢
    have rest_eq : rest = front.reverse ++ (idle'.reverse ++ name :: idle.reverse) := by
      rw [← List.reverse_reverse rest, whole]
      simp
    have last : (idle'.reverse ++ name :: idle.reverse).filter (!isIdle ·) = [name] := by
      rw [List.filter_append, filter_idle fun x hx => idles' x (List.mem_reverse.mp hx),
        List.filter_cons_of_pos (by simp [plain]),
        filter_idle fun x hx => idles x (List.mem_reverse.mp hx), List.nil_append]
    rw [rest_eq, List.filter_append, last, ← List.append_assoc] at parts
    have some_rest : rest ≠ [] := by
      rw [rest_eq]
      simp
    by_cases root : front = [] ∧ first = ""
    · obtain ⟨rfl, rfl⟩ := root
      refine ⟨⟨"/"⟩, rfl, ?_, ?_, slashed rest, ?_⟩
      · rw [parts, List.dropLast_concat]
        rfl
      · rw [Bool.eq_iff_iff, absolute]
        exact ⟨fun _ => ⟨rfl, some_rest⟩, fun _ => by decide⟩
      · rw [← written, slashed, String.intercalate_cons_of_ne_nil some_rest, String.empty_append]
        rfl
    -- elsewhere the parent is written from the pieces in front
    have slashless' : ∀ x ∈ first :: front.reverse, '/' ∉ x.toList := by
      intro x hx
      refine slashless x ?_
      rw [rest_eq, ← List.cons_append]
      exact List.mem_append_left _ hx
    have pieces' := pieces_slashed (List.cons_ne_nil _ _) slashless'
    have absolute' := isAbsolute_of_pieces (p := ⟨slashed (first :: front.reverse)⟩) pieces'
    have some_front : first = "" → front.reverse ≠ [] := fun empty none =>
      root ⟨List.reverse_eq_nil_iff.mp none, empty⟩
    have above : IsParent ⟨slashed (first :: front.reverse)⟩ p := by
      refine ⟨?_, ?_, ?_⟩
      · rw [parts_eq, pieces', parts, List.dropLast_concat, namesOf]
      · rw [Bool.eq_iff_iff, absolute, absolute']
        exact ⟨fun h => ⟨h.1, some_rest⟩, fun h => ⟨h.1, some_front h.1⟩⟩
      · rw [← written, rest_eq, ← List.cons_append, slashed,
          String.intercalate_append_of_ne_nil (List.cons_ne_nil _ _) (by simp), String.append_assoc]
        exact ⟨_, rfl⟩
    rcases front with _ | ⟨piece, front⟩
    · have named : first ≠ "" := fun empty => root ⟨rfl, empty⟩
      rw [List.reverse_nil, slashed, String.intercalate_singleton] at above
      exact ⟨⟨first⟩, by rw [if_neg named], above⟩
    · exact ⟨_, rfl, above⟩

theorem parent?_eq_none (none : p.parts = []) : p.parent? = Option.none := by
  rcases pieces : Text.pieces '/' p.text with _ | ⟨first, rest⟩
  · exact absurd pieces (pieces_ne_nil _)
  rw [parts_eq, pieces, namesOf, List.append_eq_nil_iff] at none
  have empty : first = "" := by
    by_contra named
    rw [if_neg named] at none
    cases none.1
  have idle : rest.all isIdle := by
    rw [List.all_eq_true]
    intro piece listed
    have out := List.filter_eq_nil_iff.mp none.2 piece listed
    simpa using out
  unfold parent?
  rw [pieces]
  dsimp only
  rw [if_pos idle, if_pos empty]

end Patchwork.Path

namespace Patchwork

namespace Disk
open Path
variable {d d' : Disk} {p q : Path} {start place : Place} {names : List String}

/-! ## Names -/

/-- What holds in front of each of some names, the first and the others. -/
theorem forall_front_cons {name : String} {holds : List String → Prop} :
    (∀ front, front <+: name :: names → front ≠ name :: names → holds front) ↔
      holds [] ∧ ∀ front, front <+: names → front ≠ names → holds (name :: front) := by
  constructor
  · intro h
    refine ⟨h [] List.nil_prefix (List.cons_ne_nil _ _).symm, fun front above apart => ?_⟩
    exact h _ ((List.prefix_cons_inj name).mpr above) fun same => apart (List.cons.inj same).2
  · rintro ⟨first, others⟩ front above apart
    rcases List.prefix_cons_iff.mp above with rfl | ⟨front', rfl, above'⟩
    · exact first
    · exact others front' above' fun same => apart (same ▸ rfl)

theorem prefix_dropLast {front : List String} (above : front <+: names) (apart : front ≠ names) :
    front <+: names.dropLast := by
  obtain ⟨rest, rfl⟩ := above
  have more : rest ≠ [] := by
    rintro rfl
    exact apart (List.append_nil _).symm
  rw [List.dropLast_append_of_ne_nil more]
  exact List.prefix_append _ _

/-- A name that is looked up in a directory leads on, if it is not too long. -/
theorem follow_cons {name : String} (named : name ≠ "") (dir : d.at? start = some .dir)
    (names : List String) :
    d.follow start (name :: names) =
      if nameLimit < name.utf8ByteSize then .error .nameTooLong
      else d.follow (Place.step start name) names := by
  rw [follow, dir]
  dsimp only
  by_cases point : name = "."
  · have step : Place.step start name = start := by
      rw [point]
      exact if_pos (by decide)
    rw [if_pos point, step, if_neg (by rw [point]; decide)]
  by_cases points : name = ".."
  · have step : Place.step start name = start.dropLast := by
      rw [points]
      rfl
    rw [if_neg point, if_pos points, step, if_neg (by rw [points]; decide)]
  have step : Place.step start name = start ++ [name] := by
    rw [Place.step, if_neg (by simp [isIdle, named, point]), if_neg points]
  rw [if_neg point, if_neg points, step]

/-- **Names can be followed** just where a directory stands in front of each of them and none of
them is too long. -/
theorem follow_eq_ok_iff (plain : "" ∉ names) :
    d.follow start names = .ok place ↔
      place = names.foldl Place.step start ∧
      (∀ name ∈ names, name.utf8ByteSize ≤ nameLimit) ∧
      ∀ front, front <+: names → front ≠ names →
        d.at? (front.foldl Place.step start) = some .dir := by
  induction names generalizing start with
  | nil =>
    have nothing : ∀ front : List String, front <+: [] → front ≠ [] →
        d.at? (front.foldl Place.step start) = some .dir :=
      fun front above apart => absurd (List.prefix_nil.mp above) apart
    rw [follow]
    exact ⟨fun h => ⟨(Except.ok.inj h).symm, List.forall_mem_nil _, nothing⟩,
      fun h => congrArg _ h.1.symm⟩
  | cons name names ih =>
    obtain ⟨named, plain'⟩ := List.ne_and_not_mem_of_not_mem_cons plain
    rw [forall_front_cons, List.forall_mem_cons, List.foldl_cons]
    rcases stands : d.at? start with _ | bytes | _
    · rw [follow, stands]
      constructor
      · rintro ⟨⟩
      · rintro ⟨-, -, dir, -⟩
        cases stands.symm.trans dir
    · rw [follow, stands]
      constructor
      · rintro ⟨⟩
      · rintro ⟨-, -, dir, -⟩
        cases stands.symm.trans dir
    · rw [follow_cons named.symm stands]
      by_cases long : nameLimit < name.utf8ByteSize
      · rw [if_pos long]
        constructor
        · rintro ⟨⟩
        · exact fun h => absurd h.2.1.1 (Nat.not_le.mpr long)
      · rw [if_neg long, ih plain']
        constructor
        · rintro ⟨same, short, dirs⟩
          exact ⟨same, ⟨Nat.not_lt.mp long, short⟩, stands, dirs⟩
        · rintro ⟨same, ⟨-, short⟩, -, dirs⟩
          exact ⟨same, short, dirs⟩

/-- Where no file is in the way, something is missing or the names can be followed. -/
theorem follow_of_clear (plain : "" ∉ names)
    (short : ∀ name ∈ names, name.utf8ByteSize ≤ nameLimit)
    (clear : ∀ front, front <+: names → front ≠ names →
      ∀ bytes, d.at? (front.foldl Place.step start) ≠ some (.file bytes)) :
    d.follow start names = .ok (names.foldl Place.step start) ∨
      d.follow start names = .error .notFound ∧ ∃ front, front <+: names ∧ front ≠ names ∧
        d.at? (front.foldl Place.step start) = none := by
  induction names generalizing start with
  | nil => exact .inl rfl
  | cons name names ih =>
    obtain ⟨named, plain'⟩ := List.ne_and_not_mem_of_not_mem_cons plain
    obtain ⟨first, others⟩ := List.forall_mem_cons.mp short
    obtain ⟨clear₀, clear'⟩ := forall_front_cons.mp clear
    rcases stands : d.at? start with _ | bytes | _
    · rw [follow, stands]
      exact .inr ⟨rfl, [], List.nil_prefix, (List.cons_ne_nil _ _).symm, stands⟩
    · exact absurd stands (clear₀ bytes)
    · rw [follow_cons named.symm stands, if_neg (Nat.not_lt.mpr first)]
      rcases ih plain' others clear' with led | ⟨missing, front, above, apart, none⟩
      · exact .inl led
      · refine .inr ⟨missing, name :: front, (List.prefix_cons_inj name).mpr above, ?_, none⟩
        exact fun same => apart (List.cons.inj same).2

/-! ## Paths -/

/-- The place that the first names of a path lead to. -/
def stop (d : Disk) (p : Path) (front : List String) : Place := front.foldl Place.step (d.start p)

theorem stop_parts (d : Disk) (p : Path) : d.stop p p.parts = p.place d.here := by
  rw [stop, foldl_parts, start, place]

theorem stop_eq (here : d'.here = d.here) (p : Path) (front : List String) :
    d'.stop p front = d.stop p front := by
  rw [stop, stop, Disk.start, Disk.start, here]

/-- A path starts where it does without its last name. -/
theorem start_join {name : String} (named : IsName name) (d : Disk) (p : Path) :
    d.start (p.join name) = d.start p := by
  rw [Disk.start, Disk.start, isAbsolute_join named]

theorem stop_join_name {name : String} (named : IsName name) (d : Disk) (p : Path) (front : List String) :
    d.stop (p.join name) front = d.stop p front := by
  rw [stop, stop, start_join named]

/-- What a path leads through is in front of its last name. -/
theorem prefix_parts_of_join {name : String} {front : List String} (named : IsName name)
    (above : front <+: (p.join name).parts) (proper : front ≠ (p.join name).parts) :
    front <+: p.parts := by
  have above := prefix_dropLast above proper
  rwa [parts_join named, List.dropLast_concat] at above

/-- **Whether the file system takes a path**, as far as its text decides. -/
structure Takes (p : Path) : Prop where
  fits : p.Fits
  short : ∀ name ∈ p.parts, name.utf8ByteSize ≤ nameLimit

instance (p : Path) : Decidable (Takes p) :=
  decidable_of_iff (('\x00' ∉ p.text.toList ∧ p.text ≠ "" ∧ p.text.utf8ByteSize ≤ pathLimit) ∧
      ∀ name ∈ p.parts, name.utf8ByteSize ≤ nameLimit)
    ⟨fun ⟨⟨nulless, ne, size⟩, short⟩ => ⟨⟨nulless, ne, size⟩, short⟩,
      fun ⟨⟨nulless, ne, size⟩, short⟩ => ⟨⟨nulless, ne, size⟩, short⟩⟩

/-- What the file system takes in front of a name. -/
theorem Takes.of_join {name : String} (named : IsName name) (ne : p.text ≠ "")
    (takes : Takes (p.join name)) : Takes p := by
  refine ⟨.of_join named ne takes.fits, fun piece listed => takes.short piece ?_⟩
  rw [parts_join named]
  exact List.mem_append_left _ listed

/-- **A path can be followed** just where a directory stands at each of its stops. -/
theorem locate_iff :
    d.locate p = .ok place ↔ Takes p ∧ place = p.place d.here ∧
      ∀ front, front <+: p.parts → front ≠ p.parts → d.at? (d.stop p front) = some .dir := by
  rw [locate_eq_ok_iff, follow_eq_ok_iff p.empty_notMem_parts, ← stop_parts]
  constructor
  · exact fun ⟨fits, same, short, dirs⟩ => ⟨⟨fits, short⟩, same, dirs⟩
  · exact fun ⟨takes, same, dirs⟩ => ⟨takes.fits, same, takes.short, dirs⟩

/-- **Whether no file is in the way of a path.** -/
def Clear (d : Disk) (p : Path) : Prop :=
  ∀ front, front <+: p.parts → front ≠ p.parts → ∀ bytes, d.at? (d.stop p front) ≠ some (.file bytes)

theorem locate_of_clear (takes : Takes p) (clear : d.Clear p) :
    d.locate p = .ok (p.place d.here) ∨
      d.locate p = .error .notFound ∧
        ∃ front, front <+: p.parts ∧ front ≠ p.parts ∧ d.at? (d.stop p front) = none := by
  have led : d.locate p = d.follow (d.start p) p.parts := by
    unfold locate
    rw [if_neg (by simpa using takes.fits.nulless), if_neg takes.fits.ne_empty,
      if_neg (Nat.not_lt.mpr takes.fits.size_le), Disk.start]
  rw [led, ← stop_parts]
  exact follow_of_clear p.empty_notMem_parts takes.short clear

/-! ## Making directories -/

/-- **What making directories comes to**: what is missing at the stops of a path is made, and
nothing else changes. -/
structure Made (d : Disk) (p : Path) (d' : Disk) : Prop where
  here : d'.here = d.here
  stops : ∀ front, front <+: p.parts → d'.at? (d.stop p front) = some .dir
  others : ∀ place, d'.at? place = d.at? place ∨
    d.at? place = none ∧ d'.at? place = some .dir ∧ ∃ front, front <+: p.parts ∧ place = d.stop p front

/-- Making one directory in a directory: it is made, or it was there. -/
theorem makeDir_cases (led : d.locate p = .ok place)
    (vacant : ∀ bytes, d.at? place ≠ some (.file bytes)) :
    d.at? place = none ∧ d.makeDir p = .ok (d.put place .dir) ∨
      d.at? place = some .dir ∧ d.makeDir p = .error .exists ∧ d.isDir p := by
  unfold makeDir
  rw [led, ok_bind]
  rcases stands : d.at? place with _ | bytes | _
  · exact .inl ⟨rfl, rfl⟩
  · exact absurd stands (vacant bytes)
  · exact .inr ⟨rfl, rfl, isDir_iff.mpr (find_of_locate led stands)⟩

/-- **The last directory**, once those at the other stops are there. -/
theorem exists_made_of_stops {d₁ : Disk} (takes : Takes p) (here : d₁.here = d.here)
    (stops : ∀ front, front <+: p.parts → front ≠ p.parts → d₁.at? (d.stop p front) = some .dir)
    (others : ∀ place, d₁.at? place = d.at? place ∨ d.at? place = none ∧ d₁.at? place = some .dir ∧
      ∃ front, front <+: p.parts ∧ place = d.stop p front)
    (clear : ∀ bytes, d.at? (d.stop p p.parts) ≠ some (.file bytes)) :
    (∃ d₂, d₁.makeDir p = .ok d₂ ∧ Made d p d₂) ∨
      d₁.makeDir p = .error .exists ∧ d₁.isDir p ∧ Made d p d₁ := by
  have led : d₁.locate p = .ok (d.stop p p.parts) := by
    rw [locate_iff, ← stop_parts, stop_eq here]
    exact ⟨takes, rfl, fun front above apart => (stop_eq here p front).symm ▸ stops front above apart⟩
  have vacant : ∀ bytes, d₁.at? (d.stop p p.parts) ≠ some (.file bytes) := by
    intro bytes stands
    rcases others (d.stop p p.parts) with same | ⟨-, dir, -⟩
    · exact clear bytes (same ▸ stands)
    · cases stands.symm.trans dir
  have stops_of : ∀ {d₂ : Disk}, d₂.at? (d.stop p p.parts) = some .dir →
      (∀ front, front <+: p.parts → front ≠ p.parts → d₂.at? (d.stop p front) = some .dir) →
      ∀ front, front <+: p.parts → d₂.at? (d.stop p front) = some .dir := by
    intro d₂ last others' front above
    by_cases whole : front = p.parts
    · rw [whole, last]
    · exact others' front above whole
  rcases makeDir_cases led vacant with ⟨free, made⟩ | ⟨dir, refused, isDir⟩
  · have ne : d.stop p p.parts ≠ [] := by
      intro top
      rw [top, at?_nil] at free
      cases free
    refine .inl ⟨_, made, here, stops_of (at?_put_self d₁ ne .dir) ?_, fun place => ?_⟩
    · intro front above apart
      rw [at?_put_eq d₁ ne]
      split
      · rfl
      · exact stops front above apart
    · rw [at?_put_eq d₁ ne]
      split
      · rename_i same
        subst same
        rcases others (d.stop p p.parts) with same | ⟨-, dir, -⟩
        · exact .inr ⟨same ▸ free, rfl, p.parts, List.prefix_rfl, rfl⟩
        · cases free.symm.trans dir
      · exact others place
  · exact .inr ⟨refused, isDir, here, stops_of dir stops, others⟩

/-- **Making directories where no file is in the way.** -/
theorem makeDirs_of_clear (takes : p.text = "" ∨ Takes p) (root : d.at? (d.start p) = some .dir)
    (clear : ∀ front, front <+: p.parts → ∀ bytes, d.at? (d.stop p front) ≠ some (.file bytes)) :
    ∃ d', d.makeDirs p = (.ok (), d') ∧ Made d p d' := by
  have nothing : ∀ place, d.at? place = d.at? place ∨ d.at? place = none ∧
      d.at? place = some .dir ∧ ∃ front, front <+: p.parts ∧ place = d.stop p front :=
    fun _ => .inl rfl
  unfold makeDirs withParents
  generalize fuel_eq : p.parts.length + 1 = fuel
  have enough : p.parts.length < fuel := by omega
  clear fuel_eq
  induction fuel generalizing p with
  | zero => omega
  | succ fuel ih =>
    rw [upwards, makeDirsOf]
    by_cases blank : p.text = ""
    · have alone : p.parts = [] := by
        rw [parts_eq, blank]
        rfl
      rw [if_pos blank]
      refine ⟨d, rfl, rfl, fun front above => ?_, nothing⟩
      rw [alone] at above
      rw [List.prefix_nil.mp above]
      exact root
    · rw [if_neg blank]
      have takes := takes.resolve_left blank
      have proper : d.Clear p := fun front above _ => clear front above
      rcases locate_of_clear takes proper with led | ⟨missing, front, above, apart, -⟩
      · have stops := (locate_iff.mp led).2.2
        rcases exists_made_of_stops takes rfl stops nothing (clear _ List.prefix_rfl) with
          ⟨d₂, made, done⟩ | ⟨refused, isDir, done⟩
        · rw [made]
          exact ⟨d₂, rfl, done⟩
        · rw [refused]
          dsimp only
          rw [if_pos isDir]
          exact ⟨d, rfl, done⟩
      · have unmade : d.makeDir p = .error .notFound := by
          rw [makeDir, missing]
          rfl
        have some_parts : p.parts ≠ [] := by
          intro none
          rw [none] at above apart
          exact apart (List.prefix_nil.mp above)
        obtain ⟨q, parent, isParent⟩ := exists_parent some_parts
        have front_of : ∀ {front}, front <+: q.parts → front <+: p.parts := fun above =>
          above.trans (isParent.parts ▸ List.dropLast_prefix _)
        have stop_of : ∀ front, d.stop q front = d.stop p front := by
          intro front
          rw [stop, stop, start, start, isParent.isAbsolute]
        have takes' : q.text = "" ∨ Takes q := by
          by_cases blank' : q.text = ""
          · exact .inl blank'
          · exact .inr ⟨isParent.fits takes.fits blank', fun name listed =>
              takes.short name ((front_of List.prefix_rfl).subset listed)⟩
        have fewer : q.parts.length < fuel := by
          rw [isParent.parts, List.length_dropLast]
          have some_length := List.length_pos_iff.mpr some_parts
          omega
        have same_start : d.start q = d.start p := stop_of []
        obtain ⟨d₁, made, done⟩ := ih takes' (same_start ▸ root)
          (fun front above => stop_of front ▸ clear front (front_of above)) (fun _ => .inl rfl) fewer
        have stops : ∀ front, front <+: p.parts → front ≠ p.parts →
            d₁.at? (d.stop p front) = some .dir := by
          intro front above apart
          rw [← stop_of]
          exact done.stops front (isParent.parts ▸ prefix_dropLast above apart)
        have others : ∀ place, d₁.at? place = d.at? place ∨ d.at? place = none ∧
            d₁.at? place = some .dir ∧ ∃ front, front <+: p.parts ∧ place = d.stop p front := by
          intro place
          refine (done.others place).imp_right ?_
          rintro ⟨free, dir, front, above, rfl⟩
          exact ⟨free, dir, front, front_of above, stop_of front⟩
        rw [unmade, parent]
        dsimp only
        rw [made]
        dsimp only
        rcases exists_made_of_stops takes done.here stops others (clear _ List.prefix_rfl) with
          ⟨d₂, made', done'⟩ | ⟨refused, isDir, done'⟩
        · rw [made']
          exact ⟨d₂, rfl, done'⟩
        · rw [refused]
          dsimp only
          rw [if_pos isDir]
          exact ⟨d₁, rfl, done'⟩

/-! ## Making the directory of a path -/

/-- What the parent of a path leads through are the stops of the path. -/
theorem proper_of_isParent (isParent : q.IsParent p) (ne : p.parts ≠ []) {front : List String}
    (above : front <+: q.parts) : front <+: p.parts ∧ front ≠ p.parts := by
  rw [isParent.parts] at above
  refine ⟨above.trans (List.dropLast_prefix _), ?_⟩
  rintro rfl
  have shorter := above.length_le
  have some_length := List.length_pos_iff.mpr ne
  rw [List.length_dropLast] at shorter
  omega

/-- **What making the directory of a path comes to**: what is missing at the stops in front of its
last name is made, and nothing else changes. -/
structure MadeAbove (d : Disk) (p : Path) (d' : Disk) : Prop where
  here : d'.here = d.here
  stops : ∀ front, front <+: p.parts → front ≠ p.parts → d'.at? (d.stop p front) = some .dir
  others : ∀ place, d'.at? place = d.at? place ∨ d.at? place = none ∧ d'.at? place = some .dir ∧
    ∃ front, front <+: p.parts ∧ front ≠ p.parts ∧ place = d.stop p front

/-- **Making the directory of a path** that no file is in the way of. -/
theorem makeParent_of_clear {w : World} (ne : p.parts ≠ []) (takes : Takes p)
    (root : w.disk.at? (w.disk.start p) = some .dir) (clear : w.disk.Clear p) :
    ∃ d, Action.makeParent p w = (.ok (), w.withDisk d) ∧ MadeAbove w.disk p d := by
  obtain ⟨q, parent, isParent⟩ := exists_parent ne
  have proper : ∀ {front}, front <+: q.parts → front <+: p.parts ∧ front ≠ p.parts :=
    proper_of_isParent isParent ne
  have same_stop : ∀ front, w.disk.stop q front = w.disk.stop p front := fun front => by
    rw [stop, stop, start, start, isParent.isAbsolute]
  have same_start : w.disk.start q = w.disk.start p := same_stop []
  have takes' : q.text = "" ∨ Takes q := by
    by_cases blank : q.text = ""
    · exact .inl blank
    · exact .inr ⟨isParent.fits takes.fits blank, fun name listed =>
        takes.short name ((proper List.prefix_rfl).1.subset listed)⟩
  obtain ⟨d, made, done⟩ := makeDirs_of_clear takes' (same_start ▸ root) fun front above =>
    same_stop front ▸ clear front (proper above).1 (proper above).2
  refine ⟨d, ?_, done.here, fun front above apart => ?_, fun place => ?_⟩
  · unfold Action.makeParent
    rw [parent]
    dsimp only
    rw [Action.makeDirs, Action.changeBy_apply, made]
    rfl
  · rw [← same_stop]
    exact done.stops front (isParent.parts ▸ prefix_dropLast above apart)
  · refine (done.others place).imp_right ?_
    rintro ⟨free, dir, front, above, rfl⟩
    exact ⟨free, dir, front, (proper above).1, (proper above).2, same_stop front⟩

end Disk

/-- **Whether a path can name a file**, as far as its text decides. -/
structure Path.NamesFile (p : Path) : Prop extends Disk.Takes p where
  ends : p.endsInName
  file : p.meansDir = false

theorem Path.NamesFile.parts_ne_nil {p : Path} (names : p.NamesFile) : p.parts ≠ [] :=
  parts_ne_nil_of_endsInName names.ends

end Patchwork
