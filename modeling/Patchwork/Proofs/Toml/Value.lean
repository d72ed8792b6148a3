import Patchwork.Proofs.Toml.Entered
import Patchwork.Proofs.Toml.Scalar

/-! Values that are read again.  A value is read again from the text that it is written back as, as
the same value (`value?_append`): an array item by item (`items?_append`), a table between braces by
the entries of the table that its members build (`members?_rendered`, `braced?_append`). -/

namespace Patchwork.Toml

/-! ## Where values start and end -/

/-- A character that a value may start with: nothing that can stand in front of it, and not the end
of an array. -/
structure StartsValue (c : Char) : Prop extends EndsGap c where
  item : c ≠ ']'

theorem startsValue_of_isDigit {c : Char} (h : c.isDigit) : StartsValue c := by
  have start := startsKey_of_isKeyChar (c := c) (by simp [isKeyChar, Char.isAlphanum, h])
  refine ⟨start.toEndsGap, ?_⟩
  rintro rfl
  exact absurd h (by decide)

theorem startsValue_of_mem {c : Char} (h : c ∈ ['t', 'f', '0', '+', '-', 'i', 'n', '"', '\'', '[', '\x7b']) :
    StartsValue c := by
  simp only [List.mem_cons, List.not_mem_nil, or_false] at h
  rcases h with rfl | rfl | rfl | rfl | rfl | rfl | rfl | rfl | rfl | rfl | rfl <;>
    exact ⟨⟨by decide, by decide, by decide⟩, by decide⟩

theorem startsValue_of_number? {c : Char} {s r : List Char} (h : number? (c :: s) = some r) :
    StartsValue c := by
  by_cases known : c ∈ ['0', '+', '-', 'i', 'n']
  · exact startsValue_of_mem (List.subset_def.mp (by decide) known)
  · simp only [List.mem_cons, List.not_mem_nil, or_false, not_or] at known
    obtain ⟨zero, plus, minus, i, n⟩ := known
    have unsigned : skipSign (c :: s) = c :: s := by
      unfold skipSign
      split <;> simp_all
    unfold number? at h
    split at h
    · simp_all
    · simp_all
    · simp_all
    · rw [unsigned] at h
      split at h
      · simp_all
      · simp_all
      · obtain ⟨rest, whole, -⟩ := Option.bind_eq_some_iff.mp h
        unfold whole? at whole
        rw [unsigned] at whole
        split at whole
        · simp_all
        · unfold digits? at whole
          split at whole
          · rename_i same
            cases same
            split at whole
            · exact startsValue_of_isDigit (by assumption)
            · cases whole
          · cases whole

theorem startsValue_of_plainScalar? {c : Char} {s r : List Char}
    (h : plainScalar? (c :: s) = some r) : StartsValue c := by
  unfold plainScalar? at h
  split at h
  · rename_i same
    cases same
    exact startsValue_of_mem (by decide)
  · rename_i same
    cases same
    exact startsValue_of_mem (by decide)
  · split at h
    · rename_i begins
      unfold beginsDate at begins
      split at begins
      · rename_i same
        cases same
        simp only [Bool.and_eq_true] at begins
        exact startsValue_of_isDigit begins.1.1.1
      · cases begins
    · split at h
      · rename_i begins
        unfold beginsTime at begins
        split at begins
        · rename_i same
          cases same
          exact startsValue_of_isDigit (Bool.and_eq_true_iff.mp begins).1
        · cases begins
      · exact startsValue_of_number? h

/-- In front of blanks, line ends and comments that end with a mark, a value ends. -/
theorem endsValue_of_gap {inComment : Bool} {s w t : List Char} {c : Char}
    (h : gap inComment s = (w, c :: t)) (outside : inComment = false) (mark : c ∈ endMarks) :
    EndsValue s ∧ ∀ t', EndsValue (w ++ c :: t') := by
  fun_induction gap inComment s generalizing w with
  | case1 => cases h
  | case2 =>
    cases h
    exact ⟨endsValue_cons (by decide) (by decide) _, fun _ => endsValue_cons (by decide) (by decide) _⟩
  | case3 =>
    cases h
    exact ⟨endsValue_cons (by decide) (by decide) _, fun _ => endsValue_cons (by decide) (by decide) _⟩
  | case4 inComment d rest newline carriage goes w' r' step ih =>
    cases h
    rw [outside, if_neg Bool.false_ne_true, Bool.or_eq_true, beq_iff_eq] at goes
    by_cases comment : d = '#'
    · rw [comment]
      exact ⟨endsValue_cons (by decide) (by decide) _,
        fun _ => endsValue_cons (by decide) (by decide) _⟩
    · have space := goes.resolve_right comment
      obtain ⟨before, after⟩ := ih step (by simp [outside, comment])
      have one : ∀ x ∈ [d], isSpace x := List.forall_mem_singleton.mpr space
      exact ⟨(endsValue_append one rest).mpr before, fun t' => (endsValue_append one _).mpr (after t')⟩
  | case5 inComment d rest newline carriage stops =>
    cases h
    rw [outside, if_neg Bool.false_ne_true, Bool.or_eq_true, not_or] at stops
    exact ⟨endsValue_cons mark stops.1 _, fun _ => endsValue_cons mark stops.1 _⟩

/-! ## Arrays -/

/-- **A reader whose values are read again** from what they are written back as. -/
def ReadsAgain (read : Reader) : Prop :=
  ∀ {s r w : List Char} {v : Value}, read s = some ⟨v, w, r⟩ → EndsValue r →
    ∃ x s' w', s = x :: s' ∧ w = x :: w' ∧ StartsValue x ∧
      ∀ r', EndsValue r' → ∃ w'', read (w ++ r') = some ⟨v, w'', r'⟩

section
variable {read : Reader} (again : ReadsAgain read)

theorem endsGap_comma : EndsGap ',' := ⟨by decide, by decide, by decide⟩

theorem endsGap_bracket : EndsGap ']' := ⟨by decide, by decide, by decide⟩

/-- What the items of an array are, from one on. -/
theorem items?_item {fuel : Nat} {s before t w r : List Char} {x : Char} {v : Value}
    (cut : gap false s = (before, x :: t)) (start : x ≠ ']')
    (first : read (x :: t) = some ⟨v, w, r⟩) :
    items? read (fuel + 1) s =
      match gap false r with
      | (after, ',' :: rest) => (items? read fuel rest).map fun more =>
          ⟨v :: more.value, before ++ w ++ after ++ [','] ++ more.written, more.rest⟩
      | (after, ']' :: rest) => some ⟨[v], before ++ w ++ after ++ [']'], rest⟩
      | _ => none := by
  rw [items?, cut]
  dsimp only
  split
  · rename_i same
    exact absurd (List.cons.inj same).1 start
  · rw [first, Option.bind_eq_bind, Option.bind_some]
    dsimp only
    rcases gap false r with ⟨after, s⟩
    dsimp only
    split
    · exact (Option.map_eq_bind ..).symm
    · rfl
    · split
      · simp_all
      · simp_all
      · rfl

include again in
/-- **The items of an array are read again.** -/
theorem items?_append {fuel : Nat} {s w r : List Char} {vs : List Value}
    (h : items? read fuel s = some ⟨vs, w, r⟩) {fuel' : Nat} (size : w.length ≤ fuel')
    (r' : List Char) : ∃ w', items? read fuel' (w ++ r') = some ⟨vs, w', r'⟩ := by
  induction fuel generalizing s w vs fuel' with
  | zero => cases h
  | succ fuel ih =>
    rcases cut : gap false s with ⟨before, s'⟩
    rw [items?, cut] at h
    dsimp only at h
    split at h
    · cases h
      obtain ⟨fuel', rfl⟩ := Nat.exists_eq_add_one.mpr (by simp at size; omega : 0 < fuel')
      rw [List.append_assoc, List.singleton_append, items?,
        gap_append cut (by decide) endsGap_bracket r']
      exact ⟨_, rfl⟩
    · obtain ⟨⟨v, w₁, r₁⟩, first, h⟩ := Option.bind_eq_some_iff.mp h
      rcases cut' : gap false r₁ with ⟨after, s₁⟩
      rw [cut'] at h
      dsimp only at h
      split at h
      · obtain ⟨⟨more, w₂, r₂⟩, others, h⟩ := Option.bind_eq_some_iff.mp h
        cases h
        obtain ⟨fuel', rfl⟩ := Nat.exists_eq_add_one.mpr (by simp at size; omega : 0 < fuel')
        obtain ⟨ends, ends'⟩ := endsValue_of_gap cut' rfl (by decide)
        obtain ⟨x, t, w', rfl, rfl, start, reads⟩ := again first ends
        obtain ⟨_, reread⟩ := reads _ (ends' (w₂ ++ r'))
        obtain ⟨_, onward⟩ := @ih _ w₂ more others fuel' (by simp at size; omega)
        have text : before ++ x :: w' ++ after ++ [','] ++ w₂ ++ r' =
            before ++ x :: (w' ++ (after ++ ',' :: (w₂ ++ r'))) := by simp
        have whole := @items?_item _ fuel' _ _ _ _ _ _ _
          (gap_append cut start.textual start.toEndsGap _) start.item reread
        rw [gap_append cut' (by decide) endsGap_comma _] at whole
        rw [text]
        exact ⟨_, whole.trans (congrArg (Option.map _) onward)⟩
      · cases h
        obtain ⟨fuel', rfl⟩ := Nat.exists_eq_add_one.mpr (by simp at size; omega : 0 < fuel')
        obtain ⟨ends, ends'⟩ := endsValue_of_gap cut' rfl (by decide)
        obtain ⟨x, t, w', rfl, rfl, start, reads⟩ := again first ends
        obtain ⟨_, reread⟩ := reads _ (ends' r')
        have text : before ++ x :: w' ++ after ++ [']'] ++ r' =
            before ++ x :: (w' ++ (after ++ ']' :: r')) := by simp
        have whole := @items?_item _ fuel' _ _ _ _ _ _ _
          (gap_append cut start.textual start.toEndsGap _) start.item reread
        rw [gap_append cut' (by decide) endsGap_bracket _] at whole
        rw [text]
        exact ⟨_, whole⟩
      · cases h

end

/-! ## Tables between braces -/

/-- **An entry whose value is read** from its text, wherever a value ends behind it. -/
structure Entry.Readable (read : Reader) (e : Entry) : Prop where
  starts : ∃ x w, e.text.toList = x :: w ∧ StartsValue x
  reads : ∀ r, EndsValue r → ∃ w, read (e.text.toList ++ r) = some ⟨e.value, w, r⟩
  before : Blank e.around.before

theorem entryReadable_of_read {read : Reader} (again : ReadsAgain read) {s w r blank : List Char}
    {v : Value} (h : read s = some ⟨v, w, r⟩) (ends : EndsValue r) (after : String)
    (all : ∀ c ∈ blank, isSpace c) :
    Entry.Readable read ⟨v, String.ofList w, ⟨String.ofList blank, after⟩⟩ := by
  obtain ⟨x, s', w', rfl, rfl, start, reads⟩ := again h ends
  refine ⟨⟨x, w', String.toList_ofList, start⟩, fun r' ends' => ?_, blank_ofList all⟩
  rw [String.toList_ofList]
  exact reads r' ends'

/-- An entry that can stand between braces, behind a key that ends in the part. -/
structure InBraces (read : Reader) (key : KeyPart) (e : Entry) : Prop where
  readable : e.Readable read
  after : Blank e.around.after
  outer : Blank key.outer.before ∧ Blank key.outer.after

theorem skip?_self (c : Char) (s : List Char) : skip? c (c :: s) = some s := by simp [skip?]

section
variable {read : Reader}

/-- A member that was read can stand between braces. -/
theorem entryOk_of_member? (again : ReadsAgain read) {s t : List Char} {c : Char}
    {m : Key × Entry} (h : member? read s = some (m, c :: t)) (mark : c ∈ endMarks) :
    EntryOk (InBraces read) (depthLimit - 1) m := by
  obtain ⟨⟨key, rest⟩, named, h⟩ := Option.bind_eq_some_iff.mp h
  obtain ⟨rest', -, h⟩ := Option.bind_eq_some_iff.mp h
  obtain ⟨⟨v, w, r⟩, value, h⟩ := Option.bind_eq_some_iff.mp h
  obtain ⟨same, next⟩ := Prod.mk.inj (Option.some.inj h)
  have ends : EndsValue r := by
    replace next : (spaces r).2 = c :: t := next
    have solid := spaces_snd r
    rw [next] at solid
    rw [← append_spaces r, endsValue_append (spaces_fst r), next]
    exact endsValue_cons mark (solid c rfl) t
  obtain ⟨readable, outer⟩ := readable_of_key? named
  rw [← same]
  exact ⟨readable, entryReadable_of_read again value ends _ (spaces_fst rest'),
    blank_ofList (spaces_fst r), outer⟩

theorem entryOk_of_members? (again : ReadsAgain read) {fuel : Nat} {s rest : List Char}
    {members : List (Key × Entry)} (h : members? read fuel s = some (members, rest)) :
    ∀ m ∈ members, EntryOk (InBraces read) (depthLimit - 1) m := by
  induction fuel generalizing s members with
  | zero => cases h
  | succ fuel ih =>
    obtain ⟨⟨m, rest'⟩, first, h⟩ := Option.bind_eq_some_iff.mp h
    dsimp only at h
    split at h
    · obtain ⟨⟨more, rest''⟩, others, h⟩ := Option.bind_eq_some_iff.mp h
      cases h
      exact List.forall_mem_cons.mpr ⟨entryOk_of_member? again first (by decide), ih others⟩
    · cases h
      exact List.forall_mem_singleton.mpr (entryOk_of_member? again first (by decide))
    · cases h

/-- **A member is read** as it is written. -/
theorem member?_rendered {m : Key × Entry} (ok : EntryOk (InBraces read) (depthLimit - 1) m)
    {c : Char} (mark : c ∈ endMarks) (solid : ¬ isSpace c) (t : List Char) :
    ∃ m', member? read ((m.2.render m.1).toList ++ c :: t) = some (m', c :: t) ∧
      m'.1.names = m.1.names ∧ m'.2.value = m.2.value := by
  obtain ⟨key, e⟩ := m
  obtain ⟨readable, ⟨⟨x, w, text, start⟩, reads, before⟩, after, outer⟩ := ok
  have equals : "=".toList = ['='] := by decide
  have whole : (e.render key).toList ++ c :: t =
      key.last.outer.before.toList ++ ((Key.joined key.parts).toList ++
        (key.last.outer.after.toList ++ '=' :: (e.around.before.toList ++
          (e.text.toList ++ (e.around.after.toList ++ c :: t))))) := by
    simp only [Entry.render, Key.render, String.toList_append, equals, List.append_assoc,
      List.cons_append, List.nil_append, Key.parts]
  have ends : EndsValue (e.around.after.toList ++ c :: t) :=
    (endsValue_append after _).mpr (endsValue_cons mark solid t)
  obtain ⟨key', named, names⟩ := @key?_joined key readable _ _
    ('=' :: (e.around.before.toList ++ (e.text.toList ++ (e.around.after.toList ++ c :: t))))
    outer.1 outer.2 (by rintro c ⟨⟩; decide) (by rintro c ⟨⟩; decide) (by rintro c ⟨⟩; decide)
  have first : spaces (e.around.before.toList ++ (e.text.toList ++ (e.around.after.toList ++ c :: t))) =
      (e.around.before.toList, e.text.toList ++ (e.around.after.toList ++ c :: t)) := by
    refine spaces_append before ?_
    rw [text]
    rintro c ⟨⟩
    exact start.solid
  have last : spaces (e.around.after.toList ++ c :: t) = (e.around.after.toList, c :: t) :=
    spaces_append after (by rintro d ⟨⟩; exact solid)
  obtain ⟨w', value⟩ := reads _ ends
  refine ⟨(key', ⟨e.value, String.ofList w', ⟨String.ofList e.around.before.toList,
    String.ofList e.around.after.toList⟩⟩), ?_, names, rfl⟩
  rw [whole, member?, named]
  simp only [Option.bind_eq_bind, Option.bind_some, skip?_self, first, value, last]
  rfl

/-- Behind blanks, a member starts with its key. -/
theorem rendered_starts {m : Key × Entry} (ok : EntryOk (InBraces read) (depthLimit - 1) m) :
    ∃ x t, (m.2.render m.1).toList = m.1.last.outer.before.toList ++ x :: t ∧ StartsKey x := by
  obtain ⟨x, t, text, start⟩ := joined_starts (List.append_ne_nil_of_right_ne_nil _
    (List.cons_ne_nil _ _)) ok.parts
  rw [Entry.render, Key.render]
  simp only [String.toList_append, List.append_assoc, text]
  exact ⟨x, _, rfl, start⟩

/-- **The members of a table between braces are read** as they are written, up to their spelling. -/
theorem members?_rendered {entries : List (Key × Entry)} (ne : entries ≠ [])
    (ok : ∀ m ∈ entries, EntryOk (InBraces read) (depthLimit - 1) m) {fuel : Nat}
    (size : entries.length ≤ fuel) (t : List Char) :
    ∃ members, members? read fuel
        ((",".intercalate (entries.map fun m => m.2.render m.1)).toList ++ '\x7d' :: t) =
          some (members, t) ∧
      ∀ hide, plainEntries hide members = plainEntries hide entries := by
  induction entries generalizing fuel with
  | nil => exact absurd rfl ne
  | cons m entries ih =>
    obtain ⟨first, others⟩ := List.forall_mem_cons.mp ok
    obtain ⟨fuel, rfl⟩ : ∃ n, fuel = n + 1 := Nat.exists_eq_add_one.mpr (Nat.lt_of_lt_of_le (Nat.succ_pos _) size)
    have same : ∀ {m' : Key × Entry}, m'.1.names = m.1.names ∧ m'.2.value = m.2.value →
        ∀ hide : Hiding, (m'.1.plain, m'.2.plain (hide m'.1.names)) =
          (m.1.plain, m.2.plain (hide m.1.names)) := by
      rintro m' ⟨names, value⟩ hide
      rw [plain_of_names names, names, Entry.plain, Entry.plain, value]
    cases entries with
    | nil =>
      obtain ⟨m', read', alike⟩ := member?_rendered first (c := '\x7d') (by decide) (by decide) t
      refine ⟨[m'], ?_, fun hide => congrArg (· :: []) (same alike hide)⟩
      rw [members?, List.map_singleton, String.intercalate_singleton, read']
      rfl
    | cons m₂ entries =>
      obtain ⟨members, onward, alike'⟩ := ih (List.cons_ne_nil _ _) others (Nat.le_of_succ_le_succ size)
      have comma : ",".toList = [','] := by decide
      obtain ⟨m', read', alike⟩ := member?_rendered first (c := ',') (by decide) (by decide)
        ((",".intercalate ((m₂ :: entries).map fun m => m.2.render m.1)).toList ++ '\x7d' :: t)
      refine ⟨m' :: members, ?_, fun hide => List.cons_eq_cons.mpr ⟨same alike hide, alike' hide⟩⟩
      rw [List.map_cons] at read' onward ⊢
      rw [List.map_cons, String.intercalate_cons_cons, String.toList_append, String.toList_append,
        comma, List.append_assoc, List.append_assoc, List.singleton_append, members?, read']
      simp only [Option.bind_eq_bind, Option.bind_some, onward]
      rfl

end

/-! ## All values -/

/-- A string with its own text is read again. -/
theorem string_append {s r w : List Char} {v : Value} (h : value?.string s = some ⟨v, w, r⟩) :
    s = w ++ r ∧ w ≠ [] ∧ ∀ r', EndsValue r' → value?.string (w ++ r') = some ⟨v, w, r'⟩ := by
  obtain ⟨⟨text, rest⟩, read, h⟩ := Option.bind_eq_some_iff.mp h
  obtain ⟨c, rfl, again⟩ := string?_append read
  cases h
  rw [consumed_append]
  refine ⟨rfl, ?_, fun r' ends => ?_⟩
  · rintro rfl
    cases again [] endsValue_nil
  · have own := congrArg (fun c => some (⟨.str (String.ofList text), c, r'⟩ : Reading Value))
      (consumed_append c r')
    rw [value?.string, again r' ends]
    exact own

/-- What a text that starts with a brace is as a value. -/
theorem value?_brace (depth : Nat) (rest : List Char) :
    value? (depth + 1) ('\x7b' :: rest) =
      match (spaces rest).2 with
      | '\x7d' :: after => some ⟨.other, '\x7b' :: ((spaces rest).1 ++ ['\x7d']), after⟩
      | _ => (members? (value? depth) (rest.length + 1) rest).bind fun read =>
          (braced? read.1).bind fun w => some ⟨.other, w, read.2⟩ := by
  rw [value?.eq_def]
  rfl

/-- What a table between braces is that has members. -/
theorem value?_braces (depth : Nat) {rest blank t : List Char} {x : Char}
    (cut : spaces rest = (blank, x :: t)) (start : x ≠ '\x7d') :
    value? (depth + 1) ('\x7b' :: rest) =
      (members? (value? depth) (rest.length + 1) rest).bind fun read =>
        (braced? read.1).bind fun w => some ⟨.other, w, read.2⟩ := by
  rw [value?_brace, cut]
  dsimp only
  split
  · rename_i same
    exact absurd (List.cons.inj same).1 start
  · rfl

theorem length_le_intercalate {mark : String} (some : mark ≠ "") (texts : List String) :
    texts.length ≤ (mark.intercalate texts).toList.length + 1 := by
  induction texts with
  | nil => exact Nat.zero_le _
  | cons text texts ih =>
    cases texts with
    | nil => exact Nat.le_add_left _ _
    | cons text' texts =>
      have length : 0 < mark.toList.length :=
        List.length_pos_iff.mpr (mt String.toList_eq_nil_iff.mp some)
      rw [String.intercalate_cons_cons, String.toList_append, String.toList_append,
        List.length_append, List.length_append, List.length_cons]
      omega

theorem intercalate_starts (text : String) (texts : List String) :
    ∃ rest, (",".intercalate (text :: texts)).toList = text.toList ++ rest := by
  cases texts with
  | nil => exact ⟨[], by rw [String.intercalate_singleton, List.append_nil]⟩
  | cons text' texts =>
    rw [String.intercalate_cons_cons, String.toList_append, String.toList_append, List.append_assoc]
    exact ⟨_, rfl⟩

/-- Members that say the same fit together alike. -/
theorem isSome_braced? {members entries : List (Key × Entry)} {table : Table}
    (built : assignAll entries (.mk .whole []) = some table)
    (alike : ∀ hide, plainEntries hide members = plainEntries hide entries) :
    ∃ w, braced? members = some w := by
  have plain := assignAll_plain (fun _ => false) members (.mk .whole [])
  rw [alike, ← assignAll_plain, built] at plain
  obtain ⟨table', built', -⟩ := Option.map_eq_some_iff.mp plain
  exact ⟨_, Option.bind_eq_some_iff.mpr ⟨table', built', rfl⟩⟩

/-- **A table between braces is read again.** -/
theorem braced?_append {depth : Nat} {members : List (Key × Entry)}
    (ok : ∀ m ∈ members, EntryOk (InBraces (value? depth)) (depthLimit - 1) m) {w : List Char}
    (h : braced? members = some w) (r : List Char) :
    (∃ w', w = '\x7b' :: w') ∧ ∃ w', value? (depth + 1) (w ++ r) = some ⟨.other, w', r⟩ := by
  obtain ⟨table, built, h⟩ := Option.bind_eq_some_iff.mp h
  cases h
  refine ⟨⟨_, rfl⟩, ?_⟩
  have nothing : ∀ {name : String}, ∀ m ∈ ([] : List (KeyPart × Item)), m.1.name ≠ name := nofun
  obtain ⟨items, rfl, entered⟩ := entered_nil.of_assignAll ok (fun _ _ _ _ => nothing) built
  have again := entered.rebuilt .whole fun _ _ => nothing
  have fits := entered.entryOk
  rw [Table.entries]
  rcases entries : memberEntries [] items with _ | ⟨m, more⟩
  · rw [Table.members, List.nil_append, entries]
    exact ⟨_, rfl⟩
  · have ne : m :: more ≠ [] := List.cons_ne_nil _ _
    rw [entries] at again fits
    rw [Table.members, List.nil_append, entries]
    have size : (m :: more).length ≤
        ((",".intercalate ((m :: more).map fun m => m.2.render m.1)).toList ++
          '\x7d' :: r).length + 1 := by
      have comma : "," ≠ "" := by decide
      have texts := length_le_intercalate comma ((m :: more).map fun m => m.2.render m.1)
      rw [List.length_map] at texts
      rw [List.length_append]
      omega
    obtain ⟨read', onward, alike⟩ := members?_rendered ne fits size r
    obtain ⟨w', fit⟩ := isSome_braced? again alike
    obtain ⟨rest, text⟩ := intercalate_starts (m.2.render m.1) (more.map fun m => m.2.render m.1)
    obtain ⟨first, -⟩ := List.forall_mem_cons.mp fits
    obtain ⟨x, t, starts, start⟩ := rendered_starts first
    have cut : ∃ blank t, spaces ((",".intercalate ((m :: more).map fun m => m.2.render m.1)).toList ++
        '\x7d' :: r) = (blank, x :: t) := by
      rw [List.map_cons, text, starts, List.append_assoc, List.append_assoc]
      exact ⟨_, _, spaces_append first.holds.outer.1 (by rintro c ⟨⟩; exact start.solid)⟩
    obtain ⟨blank, t, cut⟩ := cut
    rw [List.cons_append, List.cons_append, List.append_assoc, List.singleton_append,
      value?_braces depth cut start.inside, onward, Option.bind_some, fit, Option.bind_some]
    exact ⟨w', rfl⟩

section
variable (depth : Nat) {s r w : List Char} {v : Value}

/-- A string is read again as a value. -/
theorem value?_string {q : Char} (quote : q = '"' ∨ q = '\'')
    (h : value?.string (q :: s) = some ⟨v, w, r⟩) :
    ∃ x s' w', q :: s = x :: s' ∧ w = x :: w' ∧ StartsValue x ∧
      ∀ r', EndsValue r' → ∃ w'', value? depth (w ++ r') = some ⟨v, w'', r'⟩ := by
  obtain ⟨whole, ne, again⟩ := string_append h
  obtain ⟨x, w', rfl⟩ := List.exists_cons_of_ne_nil ne
  cases (List.cons.inj whole).1
  refine ⟨q, s, w', rfl, rfl, ?_, fun r' ends => ⟨q :: w', ?_⟩⟩
  · rcases quote with rfl | rfl <;> exact startsValue_of_mem (by decide)
  · rw [← again r' ends, value?.eq_def]
    rcases quote with rfl | rfl <;> rfl

/-- A number, date, time or truth value is read again as a value. -/
theorem value?_scalar (h : plainScalar? s = some r) (ends : EndsValue r)
    (quote : ∀ q ∈ ['"', '\'', '[', '\x7b'], ∀ rest, s ≠ q :: rest) :
    ∃ x s' w', s = x :: s' ∧ consumed s r = x :: w' ∧ StartsValue x ∧
      ∀ r', EndsValue r' → ∃ w'', value? depth (consumed s r ++ r') = some ⟨.other, w'', r'⟩ := by
  obtain ⟨c, rfl, again⟩ := plainScalar?_append h ends
  rw [consumed_append]
  match c with
  | [] => cases again [] endsValue_nil
  | x :: c =>
    refine ⟨x, c ++ r, c, rfl, rfl, startsValue_of_plainScalar? h, fun r' ends' =>
      ⟨consumed (x :: c ++ r') r', ?_⟩⟩
    have other : ∀ q ∈ ['"', '\'', '[', '\x7b'], ∀ rest, x :: c ++ r' ≠ q :: rest := by
      intro q hq rest same
      cases (List.cons.inj same).1
      exact quote x hq _ rfl
    rw [value?.eq_def]
    dsimp only
    split
    · exact absurd (by assumption) (other '"' (by decide) _)
    · exact absurd (by assumption) (other '\'' (by decide) _)
    · exact absurd (by assumption) (other '[' (by decide) _)
    · exact absurd (by assumption) (other '\x7b' (by decide) _)
    · rw [again r' ends']
      rfl

variable (again : ReadsAgain (value? depth))

theorem value?_bracket (rest : List Char) :
    value? (depth + 1) ('[' :: rest) =
      (items? (value? depth) (rest.length + 1) rest).map fun items =>
        ⟨.arr items.value, '[' :: items.written, items.rest⟩ := by
  rw [value?.eq_def]
  exact (Option.map_eq_bind ..).symm

include again

/-- An array is read again as a value. -/
theorem value?_array (h : value? (depth + 1) ('[' :: s) = some ⟨v, w, r⟩) :
    ∃ w', w = '[' :: w' ∧
      ∀ r', ∃ w'', value? (depth + 1) (w ++ r') = some ⟨v, w'', r'⟩ := by
  rw [value?_bracket] at h
  obtain ⟨⟨vs, w', r⟩, items, h⟩ := Option.map_eq_some_iff.mp h
  cases h
  refine ⟨w', rfl, fun r' => ?_⟩
  have size : w'.length ≤ (w' ++ r').length + 1 := by
    rw [List.length_append]
    omega
  obtain ⟨w'', reread⟩ := items?_append again items size r'
  rw [List.cons_append, value?_bracket, reread]
  exact ⟨'[' :: w'', rfl⟩

/-- A table between braces is read again as a value. -/
theorem value?_table (h : value? (depth + 1) ('\x7b' :: s) = some ⟨v, w, r⟩) :
    ∃ w', w = '\x7b' :: w' ∧
      ∀ r', ∃ w'', value? (depth + 1) (w ++ r') = some ⟨v, w'', r'⟩ := by
  rw [value?_brace] at h
  split at h
  · rename_i after cut
    cases h
    refine ⟨_, rfl, fun r' => ⟨'\x7b' :: ((spaces s).1 ++ ['\x7d']), ?_⟩⟩
    have blank : spaces ((spaces s).1 ++ '\x7d' :: r') = ((spaces s).1, '\x7d' :: r') :=
      spaces_append (spaces_fst s) (by rintro c ⟨⟩; decide)
    rw [List.cons_append, List.append_assoc, List.singleton_append, value?_brace, blank]
    rfl
  · obtain ⟨⟨members, rest⟩, read, h⟩ := Option.bind_eq_some_iff.mp h
    obtain ⟨w, braced, h⟩ := Option.bind_eq_some_iff.mp h
    cases h
    have ok := entryOk_of_members? again read
    obtain ⟨⟨w', rfl⟩, -⟩ := braced?_append ok braced []
    exact ⟨w', rfl, fun r' => (braced?_append ok braced r').2⟩

end

/-- **A value is read again** from the text that it is written back as. -/
theorem value?_append (depth : Nat) : ReadsAgain (value? depth) := by
  have other : ∀ (depth : Nat) {s r w : List Char} {v : Value},
      value? depth s = some ⟨v, w, r⟩ → EndsValue r →
      (∀ q ∈ ['[', '\x7b'], ∀ rest, s ≠ q :: rest) →
      ∃ x s' w', s = x :: s' ∧ w = x :: w' ∧ StartsValue x ∧
        ∀ r', EndsValue r' → ∃ w'', value? depth (w ++ r') = some ⟨v, w'', r'⟩ := by
    intro depth s r w v h ends solid
    rw [value?.eq_def] at h
    dsimp only at h
    split at h
    · exact value?_string depth (.inl rfl) h
    · exact value?_string depth (.inr rfl) h
    · exact absurd rfl (solid '[' (by decide) _)
    · exact absurd rfl (solid '\x7b' (by decide) _)
    · rename_i basic literal _ _
      obtain ⟨rest, read, h⟩ := Option.bind_eq_some_iff.mp h
      cases h
      refine value?_scalar depth read ends fun q hq rest same => ?_
      simp only [List.mem_cons, List.not_mem_nil, or_false] at hq
      rcases hq with rfl | rfl | rfl | rfl
      · exact basic rest same
      · exact literal rest same
      · exact solid '[' (by decide) rest same
      · exact solid '\x7b' (by decide) rest same
  induction depth with
  | zero =>
    intro s r w v h ends
    refine other 0 h ends fun q hq rest same => ?_
    simp only [List.mem_cons, List.not_mem_nil, or_false] at hq
    rcases hq with rfl | rfl <;> rw [same] at h <;> cases h
  | succ depth again =>
    intro s r w v h ends
    by_cases bracket : ∃ rest, s = '[' :: rest
    · obtain ⟨rest, rfl⟩ := bracket
      obtain ⟨w', rfl, reread⟩ := value?_array depth again h
      exact ⟨'[', rest, w', rfl, rfl, startsValue_of_mem (by decide), fun r' _ => reread r'⟩
    by_cases brace : ∃ rest, s = '\x7b' :: rest
    · obtain ⟨rest, rfl⟩ := brace
      obtain ⟨w', rfl, reread⟩ := value?_table depth again h
      exact ⟨'\x7b', rest, w', rfl, rfl, startsValue_of_mem (by decide), fun r' _ => reread r'⟩
    refine other (depth + 1) h ends fun q hq rest same => ?_
    simp only [List.mem_cons, List.not_mem_nil, or_false] at hq
    rcases hq with rfl | rfl
    · exact bracket ⟨rest, same⟩
    · exact brace ⟨rest, same⟩

end Patchwork.Toml
