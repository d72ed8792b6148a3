import Patchwork.Proofs.Disk.Frame

/-! Disks as trees.  On a disk whatever stands somewhere stands in a directory (`IsTree`).
Behind a path that leads to a directory, the paths that are given name by name lead on from
there (`locate_joinAll_iff`), so what they lead to is read off the place they name
(`find_joinAll_iff`): whether a path can be followed is then a matter of its text alone
(`Path.Open`) and of the directory it ends in. -/

namespace Patchwork

/-- A name under which a directory lists something. -/
structure Path.IsName (name : String) : Prop where
  ne_empty : name ≠ ""
  ne_point : name ≠ "."
  ne_points : name ≠ ".."
  slashless : '/' ∉ name.toList

namespace Path
variable {name : String}

instance : Decidable (IsName name) :=
  decidable_of_iff (name ≠ "" ∧ name ≠ "." ∧ name ≠ ".." ∧ '/' ∉ name.toList)
    ⟨fun h => ⟨h.1, h.2.1, h.2.2.1, h.2.2.2⟩,
      fun h => ⟨h.ne_empty, h.ne_point, h.ne_points, h.slashless⟩⟩

theorem IsName.not_idle (h : IsName name) : isIdle name = false := by
  simp [isIdle, h.ne_empty, h.ne_point]

theorem IsName.relative (h : IsName name) : ¬ Text.startsWith "/" name := fun starts =>
  h.slashless (List.mem_of_head? ((Text.startsWith_iff rfl).mp starts))

/-- What ends in more than points is a name. -/
theorem isName_append {last ending : String} (slashless : '/' ∉ last.toList)
    (slashless' : '/' ∉ ending.toList) (long : 2 < ending.toList.length) : IsName (last ++ ending) := by
  have longer : ∀ name : String, name.toList.length ≤ 2 → last ++ ending ≠ name := by
    rintro _ short rfl
    rw [String.toList_append, List.length_append] at short
    omega
  refine ⟨longer _ (by decide), longer _ (by decide), longer _ (by decide), ?_⟩
  rw [String.toList_append, List.mem_append, not_or]
  exact ⟨slashless, slashless'⟩

theorem place_join_of_isName (h : IsName name) (p : Path) (here : Place) :
    (p.join name).place here = p.place here ++ [name] :=
  place_join_name h.slashless (by simp [h.not_idle]) h.ne_points p here

/-! ## The names of a path behind another one -/

/-- The names that pieces between slashes lead through. -/
def namesOf : List String → List String
  | [] => []
  | first :: rest => (if first = "" then [] else [first]) ++ rest.filter (!isIdle ·)

theorem parts_eq (p : Path) : p.parts = namesOf (Text.pieces '/' p.text) := by
  unfold parts namesOf
  cases Text.pieces '/' p.text <;> rfl

theorem mem_of_mem_namesOf {pieces : List String} {name : String} (listed : name ∈ namesOf pieces) :
    name ∈ pieces := by
  cases pieces with
  | nil => cases listed
  | cons first rest =>
    rcases List.mem_append.mp listed with listed | listed
    · split at listed
      · cases listed
      · exact List.mem_singleton.mp listed ▸ List.mem_cons_self
    · exact .tail _ (List.mem_filter.mp listed).1

/-- The names that a path leads through are pieces of its text. -/
theorem mem_pieces_of_mem_parts {p : Path} {name : String} (listed : name ∈ p.parts) :
    name ∈ Text.pieces '/' p.text :=
  mem_of_mem_namesOf (p.parts_eq ▸ listed)

theorem namesOf_append {pieces : List String} (ne : pieces ≠ []) (more : List String) :
    namesOf (pieces ++ more) = namesOf pieces ++ more.filter (!isIdle ·) := by
  obtain ⟨first, rest, rfl⟩ := List.exists_cons_of_ne_nil ne
  rw [List.cons_append, namesOf, namesOf, List.filter_append, List.append_assoc]

theorem pieces_ne_nil (s : String) : Text.pieces '/' s ≠ [] := by
  rw [Text.pieces, Ne, List.map_eq_nil_iff]
  exact Text.cutAt_ne_nil _ _

/-- How a relative path is written behind another one. -/
theorem exists_text_join {rest : String} (relative : ¬ Text.startsWith "/" rest) (p : Path) :
    p.text = "" ∧ (p.join rest).text = rest ∨
    ∃ front, p.text ≠ "" ∧ (p.text = front ++ "/" ∨ p.text = front) ∧
      (p.join rest).text = front ++ "/" ++ rest := by
  unfold join
  by_cases empty : p.text = ""
  · exact .inl ⟨empty, by rw [if_pos (.inr empty)]⟩
  · right
    rw [if_neg (not_or.mpr ⟨relative, empty⟩)]
    split
    · rename_i slash
      obtain ⟨front, whole⟩ := Option.isSome_iff_exists.mp slash
      have whole := Text.before?_eq_some_iff.mp whole
      exact ⟨front, empty, .inl whole, by rw [whole]⟩
    · exact ⟨p.text, empty, .inr rfl, rfl⟩

/-- Behind a path, a relative path leads through its own names. -/
theorem parts_join_of_relative {rest : String} (relative : ¬ Text.startsWith "/" rest) {p : Path}
    (ne : p.text ≠ "") :
    (p.join rest).parts = p.parts ++ (Text.pieces '/' rest).filter (!isIdle ·) := by
  have single : "/".toList = ['/'] := by decide
  rcases exists_text_join relative p with ⟨empty, -⟩ | ⟨front, -, text, text'⟩
  · exact absurd empty ne
  have cut := Text.pieces_append single front rest
  rw [parts_eq, text', cut, namesOf_append (pieces_ne_nil front), parts_eq]
  rcases text with text | text
  · have cut := Text.pieces_append single front ""
    rw [String.append_empty] at cut
    rw [text, cut]
    have idle : Text.pieces '/' "" = [""] := rfl
    have dropped : [""].filter (!isIdle ·) = [] := by decide
    rw [idle, namesOf_append (pieces_ne_nil front), dropped, List.append_nil]
  · rw [text]

theorem parts_join (h : IsName name) (p : Path) : (p.join name).parts = p.parts ++ [name] := by
  have last : [name].filter (!isIdle ·) = [name] := by simp [h.not_idle]
  have alone : Text.pieces '/' name = [name] := Text.pieces_of_notMem h.slashless
  by_cases empty : p.text = ""
  · have idle : Text.pieces '/' "" = [""] := rfl
    rw [join, if_pos (.inr empty), parts_eq, alone, parts_eq, empty, idle]
    simp [namesOf, h.ne_empty]
  · rw [parts_join_of_relative h.relative empty, alone, last]

theorem isAbsolute_join_of_relative {rest : String} (relative : ¬ Text.startsWith "/" rest)
    (p : Path) : (p.join rest).isAbsolute = p.isAbsolute := by
  rw [Bool.eq_iff_iff]
  rcases exists_text_join relative p with ⟨empty, text⟩ | ⟨front, ne, text, text'⟩
  · rw [isAbsolute, isAbsolute, text, empty]
    exact ⟨fun starts => absurd starts relative, nofun⟩
  · have single : "/".toList = ['/'] := by decide
    rw [isAbsolute_iff, isAbsolute_iff, text', String.toList_append, String.toList_append, single]
    rcases text with text | text
    · rw [text, String.toList_append, single]
      cases front.toList <;> exact Iff.rfl
    · obtain ⟨c, cs, chars⟩ := List.exists_cons_of_ne_nil (mt String.toList_eq_nil_iff.mp ne)
      rw [← text, chars]
      exact Iff.rfl

theorem isAbsolute_join (h : IsName name) (p : Path) :
    (p.join name).isAbsolute = p.isAbsolute := isAbsolute_join_of_relative h.relative p

/-- Behind another path only a name is written, so that no slash follows it. -/
theorem meansDir_join (h : IsName name) (p : Path) : (p.join name).meansDir = false := by
  have single : "/".toList = ['/'] := by decide
  have alone : Text.pieces '/' name = [name] := Text.pieces_of_notMem h.slashless
  unfold meansDir
  rcases exists_text_join h.relative p with ⟨-, text⟩ | ⟨front, -, -, text⟩
  · rw [text, alone]
    rfl
  · have cut := Text.pieces_append single front name
    rw [text, cut, alone, List.reverse_append, List.reverse_singleton, List.singleton_append]
    cases (Text.pieces '/' front).reverse with
    | nil => rfl
    | cons => exact h.not_idle

theorem endsInName_join (h : IsName name) (p : Path) : (p.join name).endsInName = true := by
  have single : "/".toList = ['/'] := by decide
  have alone : Text.pieces '/' name = [name] := Text.pieces_of_notMem h.slashless
  have last : (p.join name).lastPiece? = some name := by
    unfold lastPiece?
    rcases exists_text_join h.relative p with ⟨-, text⟩ | ⟨front, -, -, text⟩
    · rw [text, alone, List.reverse_singleton, List.find?_cons_of_pos (by simp [h.ne_empty])]
    · have cut := Text.pieces_append single front name
      rw [text, cut, alone, List.reverse_append, List.reverse_singleton, List.singleton_append,
        List.find?_cons_of_pos (by simp [h.ne_empty])]
  rw [endsInName, last]
  simp [h.ne_point, h.ne_points]

/-- The last part of a path that ends in a name is that name. -/
theorem exists_parts_of_endsInName {p : Path} (ends : p.endsInName) :
    ∃ front name, p.parts = front ++ [name] ∧ ∀ start, Place.step start name = start ++ [name] := by
  unfold endsInName at ends
  rcases last : p.lastPiece? with _ | name <;> rw [last] at ends
  · cases ends
  obtain ⟨ne_point, ne_points⟩ : name ≠ "." ∧ name ≠ ".." := by simpa using ends
  obtain ⟨ne, behind, before, whole, empty⟩ := List.find?_eq_some_iff_append.mp last
  have ne : name ≠ "" := by simpa using ne
  have pieces : Text.pieces '/' p.text = before.reverse ++ name :: behind.reverse := by
    rw [← List.reverse_reverse (Text.pieces '/' p.text), whole]
    simp
  have plain : isIdle name = false := by simp [isIdle, ne, ne_point]
  -- the pieces behind the name are empty and lead nowhere
  have idle : (name :: behind.reverse).filter (!isIdle ·) = [name] := by
    rw [List.filter_cons_of_pos (by simp [plain]), List.filter_eq_nil_iff.mpr]
    intro piece listed
    have nothing : piece = "" := by simpa using empty piece (List.mem_reverse.mp listed)
    rw [nothing]
    decide
  have parts : ∃ front, p.parts = front ++ [name] := by
    rw [parts_eq, pieces]
    rcases before.reverse with _ | ⟨first, rest⟩
    · refine ⟨[], ?_⟩
      rw [List.filter_cons_of_pos (by simp [plain]), List.cons_eq_cons] at idle
      rw [List.nil_append, namesOf, if_neg ne, idle.2, List.append_nil, List.nil_append]
    · rw [List.cons_append, namesOf, List.filter_append, idle, ← List.append_assoc]
      exact ⟨_, rfl⟩
  obtain ⟨front, parts⟩ := parts
  refine ⟨front, name, parts, fun start => ?_⟩
  rw [Place.step, if_neg (by simp [plain]), if_neg ne_points]

theorem parts_ne_nil_of_endsInName {p : Path} (ends : p.endsInName) : p.parts ≠ [] := by
  obtain ⟨front, name, parts, -⟩ := exists_parts_of_endsInName ends
  rw [parts]
  exact List.concat_ne_nil _ _

/-- A path that ends in a name leads into the directory that holds the name. -/
theorem exists_place_of_endsInName {p : Path} (ends : p.endsInName) (here : Place) :
    ∃ front name, p.place here = front ++ [name] := by
  obtain ⟨front, name, parts, step⟩ := exists_parts_of_endsInName ends
  rw [place, ← foldl_parts, parts, List.foldl_append, List.foldl_cons, List.foldl_nil, step]
  exact ⟨_, _, rfl⟩

/-! ## Texts that can be followed -/

/-- Whether the text of a path is one that the file system takes. -/
structure Fits (p : Path) : Prop where
  nulless : '\x00' ∉ p.text.toList
  ne_empty : p.text ≠ ""
  size_le : p.text.utf8ByteSize ≤ Disk.pathLimit

theorem Fits.of_join (named : IsName name) {p : Path} (ne : p.text ≠ "") (h : (p.join name).Fits) :
    p.Fits := by
  have behind : ∃ rest, (p.join name).text = p.text ++ rest := by
    rcases exists_text_join named.relative p with ⟨empty, -⟩ | ⟨front, -, text | text, text'⟩
    · exact absurd empty ne
    · exact ⟨name, by rw [text', text]⟩
    · exact ⟨"/" ++ name, by rw [text', text, String.append_assoc]⟩
  obtain ⟨rest, text⟩ := behind
  constructor
  · intro nul
    refine h.nulless ?_
    rw [text, String.toList_append]
    exact List.mem_append_left _ nul
  · exact ne
  · have size := h.size_le
    rw [text, String.utf8ByteSize_append] at size
    exact Nat.le_trans (Nat.le_add_right _ _) size

theorem text_join_ne_empty (named : IsName name) (p : Path) : (p.join name).text ≠ "" := by
  rcases exists_text_join named.relative p with ⟨-, text⟩ | ⟨front, -, -, text⟩
  · rw [text]
    exact named.ne_empty
  · rw [text]
    intro empty
    have chars := congrArg String.toList empty
    simp at chars

variable {names : List String}

theorem parts_joinAll (named : ∀ name ∈ names, IsName name) (p : Path) :
    (p.joinAll names).parts = p.parts ++ names := by
  induction names generalizing p with
  | nil => exact (List.append_nil _).symm
  | cons name names ih =>
    obtain ⟨first, others⟩ := List.forall_mem_cons.mp named
    have rest := ih others (p.join name)
    rw [parts_join first, List.append_assoc] at rest
    exact rest

theorem isAbsolute_joinAll (named : ∀ name ∈ names, IsName name) (p : Path) :
    (p.joinAll names).isAbsolute = p.isAbsolute := by
  induction names generalizing p with
  | nil => rfl
  | cons name names ih =>
    obtain ⟨first, others⟩ := List.forall_mem_cons.mp named
    exact (ih others (p.join name)).trans (isAbsolute_join first p)

theorem place_joinAll (named : ∀ name ∈ names, IsName name) (p : Path) (here : Place) :
    (p.joinAll names).place here = p.place here ++ names := by
  induction names generalizing p with
  | nil => exact (List.append_nil _).symm
  | cons name names ih =>
    obtain ⟨first, others⟩ := List.forall_mem_cons.mp named
    have rest := ih others (p.join name)
    rw [place_join_of_isName first, List.append_assoc] at rest
    exact rest

theorem joinAll_singleton (p : Path) (name : String) : p.joinAll [name] = p.join name := by
  rw [joinAll, List.foldl_cons, List.foldl_nil]

theorem joinAll_pair (p : Path) (name name' : String) :
    p.joinAll [name, name'] = (p.join name).join name' := by
  rw [joinAll, List.foldl_cons, List.foldl_cons, List.foldl_nil]

theorem joinAll_concat (p : Path) (names : List String) (name : String) :
    p.joinAll (names ++ [name]) = (p.joinAll names).join name := by
  rw [joinAll, List.foldl_append]
  rfl

theorem joinAll_append (p : Path) (names more : List String) :
    p.joinAll (names ++ more) = (p.joinAll names).joinAll more := List.foldl_append

/-- Whether names behind a path can be followed, as far as the text decides. -/
structure Open (p : Path) (names : List String) : Prop where
  fits : (p.joinAll names).Fits
  short : ∀ name ∈ names, name.utf8ByteSize ≤ Disk.nameLimit

/-- Where names can be followed, those in front of the last one can. -/
theorem Open.front {name : String} {p : Path} (ne : p.text ≠ "")
    (named : ∀ other ∈ names ++ [name], IsName other) (h : p.Open (names ++ [name])) :
    p.Open names := by
  have last : IsName name := named name (List.mem_append_right _ List.mem_cons_self)
  have written : (p.joinAll names).text ≠ "" := by
    rcases List.eq_nil_or_concat names with rfl | ⟨front, name', rfl⟩
    · exact ne
    · rw [List.concat_eq_append, joinAll_concat]
      exact text_join_ne_empty (named name' (by simp)) _
  constructor
  · exact Fits.of_join last written (joinAll_concat p names name ▸ h.fits)
  · exact fun other ho => h.short other (List.mem_append_left _ ho)

end Path

namespace Disk
open Path

/-- **Disks as file systems have them.**  Whatever stands somewhere stands in a directory, under a
name. -/
structure IsTree (d : Disk) : Prop where
  parent : ∀ place, d.at? place ≠ none → d.at? place.dropLast = some .dir
  named : ∀ place, d.at? place ≠ none → ∀ name ∈ place, IsName name

variable {d : Disk} {p : Path} {base place : Place} {names : List String}

/-- Whether a disk is a tree is seen from what it stores. -/
theorem isTree_iff : d.IsTree ↔ ∀ entry ∈ d.nodes.toList,
    d.at? entry.1.dropLast = some .dir ∧ ∀ name ∈ entry.1, IsName name := by
  have stored : ∀ place, place ≠ [] →
      (d.at? place ≠ none ↔ ∃ node, (place, node) ∈ d.nodes.toList) := by
    intro place ne
    rw [at?, if_neg ne, Option.ne_none_iff_exists']
    simp only [Std.TreeMap.mem_toList_iff_getElem?_eq_some]
  constructor
  · rintro tree ⟨place, node⟩ listed
    by_cases top : place = []
    · rw [top]
      exact ⟨if_pos rfl, nofun⟩
    · have there := (stored place top).mpr ⟨node, listed⟩
      exact ⟨tree.parent place there, tree.named place there⟩
  · intro all
    constructor
    · intro place there
      by_cases top : place = []
      · rw [top]
        exact if_pos rfl
      · obtain ⟨node, listed⟩ := (stored place top).mp there
        exact (all _ listed).1
    · intro place there
      by_cases top : place = []
      · rw [top]
        exact nofun
      · obtain ⟨node, listed⟩ := (stored place top).mp there
        exact (all _ listed).2

instance : Decidable d.IsTree := decidable_of_iff' _ isTree_iff

/-- What lies above something is a directory. -/
theorem IsTree.dir_of_append (tree : d.IsTree) (h : d.at? (place ++ names) ≠ none)
    (ne : names ≠ []) : d.at? place = some .dir := by
  induction size : names.length generalizing names with
  | zero => exact absurd (List.length_eq_zero_iff.mp size) ne
  | succ size' ih =>
    -- the directory right above is reached by all names but the last
    have above := tree.parent _ h
    rw [List.dropLast_append_of_ne_nil ne] at above
    by_cases last : names.dropLast = []
    · rwa [last, List.append_nil] at above
    · refine ih (above ▸ Option.some_ne_none _) last ?_
      rw [List.length_dropLast, size, Nat.add_sub_cancel]

theorem IsTree.none_of_append (tree : d.IsTree) (h : d.at? place = none) (names : List String) :
    d.at? (place ++ names) = none := by
  by_cases ne : names = []
  · rwa [ne, List.append_nil]
  · rcases found : d.at? (place ++ names) with _ | node
    · rfl
    · rw [tree.dir_of_append (found ▸ Option.some_ne_none _) ne] at h
      cases h

/-- Nothing stands below a file. -/
theorem IsTree.none_of_file (tree : d.IsTree) {bytes : ByteArray}
    (h : d.at? place = some (.file bytes)) (ne : names ≠ []) : d.at? (place ++ names) = none := by
  rcases found : d.at? (place ++ names) with _ | node
  · rfl
  · rw [tree.dir_of_append (found ▸ Option.some_ne_none _) ne] at h
    cases h

/-! ## Following names -/

theorem follow_append (d : Disk) (start : Place) (xs ys : List String) :
    d.follow start (xs ++ ys) = d.follow start xs >>= fun place => d.follow place ys := by
  induction xs generalizing start with
  | nil => rfl
  | cons name xs ih =>
    rw [List.cons_append, follow, follow]
    split
    · rfl
    · rfl
    · split
      · exact ih start
      split
      · exact ih _
      split
      · rfl
      · exact ih _

theorem follow_name {name : String} (named : IsName name) (h : d.at? base = some .dir)
    (rest : List String) :
    d.follow base (name :: rest) =
      if nameLimit < name.utf8ByteSize then .error .nameTooLong
      else d.follow (base ++ [name]) rest := by
  rw [follow, h]
  simp only [if_neg named.ne_point, if_neg named.ne_points]

/-- Where names lead through directories, only their lengths decide whether they can be
followed. -/
theorem follow_of_dir (tree : d.IsTree) (named : ∀ name ∈ names, IsName name)
    (dir : names = [] ∨ d.at? (base ++ names.dropLast) = some .dir) :
    d.follow base names =
      if ∀ name ∈ names, name.utf8ByteSize ≤ nameLimit then .ok (base ++ names)
      else .error .nameTooLong := by
  induction names generalizing base with
  | nil => rw [if_pos nofun, List.append_nil, follow]
  | cons name names ih =>
    obtain ⟨first, others⟩ := List.forall_mem_cons.mp named
    have dir := dir.resolve_left (List.cons_ne_nil _ _)
    have start : d.at? base = some .dir := by
      by_cases last : (name :: names).dropLast = []
      · rwa [last, List.append_nil] at dir
      · exact tree.dir_of_append (dir ▸ Option.some_ne_none _) last
    have next : names = [] ∨ d.at? (base ++ [name] ++ names.dropLast) = some .dir := by
      by_cases last : names = []
      · exact .inl last
      · rw [List.dropLast_cons_of_ne_nil last] at dir
        rw [List.append_assoc, List.singleton_append]
        exact .inr dir
    rw [follow_name first start, ih others next, List.append_assoc, List.singleton_append]
    by_cases long : nameLimit < name.utf8ByteSize
    · rw [if_pos long, if_neg]
      exact fun short => absurd (short name List.mem_cons_self) (Nat.not_le.mpr long)
    · simp only [if_neg long, List.forall_mem_cons, Nat.not_lt.mp long, true_and]

/-- Names that can be followed lead through directories. -/
theorem dir_of_follow (named : ∀ name ∈ names, IsName name) (ne : names ≠ [])
    (h : d.follow base names = .ok place) : d.at? (base ++ names.dropLast) = some .dir := by
  induction names generalizing base with
  | nil => exact absurd rfl ne
  | cons name names ih =>
    obtain ⟨first, others⟩ := List.forall_mem_cons.mp named
    rcases stands : d.at? base with _ | bytes | _
    · rw [follow, stands] at h
      cases h
    · rw [follow, stands] at h
      cases h
    · rw [follow_name first stands] at h
      split at h
      · cases h
      · by_cases last : names = []
        · rw [last, List.dropLast_singleton, List.append_nil]
          exact stands
        · rw [List.dropLast_cons_of_ne_nil last]
          have below := ih others last h
          rwa [List.append_assoc, List.singleton_append] at below

/-- The place where a path starts. -/
def start (d : Disk) (p : Path) : Place := if p.isAbsolute then [] else d.here

theorem locate_eq_ok_iff :
    d.locate p = .ok place ↔ p.Fits ∧ d.follow (d.start p) p.parts = .ok place := by
  unfold locate
  rw [start]
  constructor
  · intro h
    split at h
    · cases h
    · rename_i nul
      split at h
      · cases h
      · rename_i empty
        split at h
        · cases h
        · rename_i long
          refine ⟨⟨?_, empty, Nat.not_lt.mp long⟩, h⟩
          simpa using nul
  · rintro ⟨fits, h⟩
    rw [if_neg (by simpa using fits.nulless), if_neg fits.ne_empty,
      if_neg (Nat.not_lt.mpr fits.size_le), h]

/-- Where a path can be followed, names behind it are followed from the place it leads to. -/
theorem follow_joinAll (found : d.locate p = .ok base) (named : ∀ name ∈ names, IsName name) :
    d.follow (d.start (p.joinAll names)) (p.joinAll names).parts = d.follow base names := by
  rw [start, isAbsolute_joinAll named, ← start, parts_joinAll named, follow_append,
    (locate_eq_ok_iff.mp found).2]
  rfl

/-- **Names behind a path lead on from the directory it leads to**, if the text can be followed and
the last name is looked up in a directory. -/
theorem locate_joinAll_iff (tree : d.IsTree) (found : d.locate p = .ok base)
    (named : ∀ name ∈ names, IsName name) (ne : names ≠ []) :
    d.locate (p.joinAll names) = .ok place ↔
      p.Open names ∧ d.at? (base ++ names.dropLast) = some .dir ∧ place = base ++ names := by
  rw [locate_eq_ok_iff, follow_joinAll found named]
  constructor
  · rintro ⟨fits, led⟩
    have dir := dir_of_follow named ne led
    rw [follow_of_dir tree named (.inr dir)] at led
    split at led
    · rename_i short
      exact ⟨⟨fits, short⟩, dir, (Except.ok.inj led).symm⟩
    · cases led
  · rintro ⟨opened, dir, rfl⟩
    exact ⟨opened.fits, by rw [follow_of_dir tree named (.inr dir), if_pos opened.short]⟩

/-- Behind a directory nothing is missing: a name that cannot be looked up is too long or no name at
all. -/
theorem locate_joinAll_ne_notFound (tree : d.IsTree) (found : d.locate p = .ok base)
    (named : ∀ name ∈ names, IsName name) (ne : names ≠ [])
    (dir : d.at? (base ++ names.dropLast) = some .dir) :
    d.locate (p.joinAll names) ≠ .error .notFound := by
  have written : (p.joinAll names).text ≠ "" := by
    rcases List.eq_nil_or_concat names with rfl | ⟨front, name, rfl⟩
    · exact absurd rfl ne
    · rw [List.concat_eq_append, joinAll_concat]
      exact text_join_ne_empty (named name (by simp)) _
  have led := follow_joinAll found named
  rw [follow_of_dir tree named (.inr dir), start] at led
  unfold locate
  rw [if_neg written, led]
  intro missing
  split at missing
  · cases missing
  split at missing
  · cases missing
  split at missing <;> cases missing

end Disk
end Patchwork
