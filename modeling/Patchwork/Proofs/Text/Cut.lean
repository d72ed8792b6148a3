import Patchwork.Text.Blank
import Patchwork.Text.Numeral

/-! Texts that are cut at marks and at their ends.  A text that was put together is cut
where its parts meet, as long as the mark does not begin earlier. -/

namespace Patchwork.Text

theorem dropStart?_append (front rest : List Char) : dropStart? front (front ++ rest) = some rest :=
  dropStart?_eq_some_iff.mpr rfl

/-- What holds no beginning of the mark is passed over. -/
theorem cutOnce?_append_of_notMem {m : Char} {front : List Char} (h : m ∉ front)
    (mark rest : List Char) :
    cutOnce? (m :: mark) (front ++ rest) =
      (cutOnce? (m :: mark) rest).map fun (before, after) => (front ++ before, after) := by
  induction front with
  | nil => simp
  | cons c front ih =>
    obtain ⟨hc, hfront⟩ := List.ne_and_not_mem_of_not_mem_cons h
    have apart : dropStart? (m :: mark) (c :: (front ++ rest)) = none := if_neg hc
    rw [List.cons_append, cutOnce?, apart, ih hfront, Option.map_map]
    rfl

theorem cutOnce?_of_notMem {m : Char} {s : List Char} (h : m ∉ s) (mark : List Char) :
    cutOnce? (m :: mark) s = none := by
  have cut := cutOnce?_append_of_notMem h mark []
  rwa [List.append_nil] at cut

theorem cutOnce?_mark (m : Char) (mark rest : List Char) :
    cutOnce? (m :: mark) (m :: mark ++ rest) = some ([], rest) := by
  rw [List.cons_append, cutOnce?, ← List.cons_append, dropStart?_append]

/-- A text is cut at its first mark. -/
theorem cutOnce?_of_notMem_append {m : Char} {front : List Char} (h : m ∉ front)
    (mark rest : List Char) :
    cutOnce? (m :: mark) (front ++ (m :: mark ++ rest)) = some (front, rest) := by
  rw [cutOnce?_append_of_notMem h, cutOnce?_mark, Option.map_some]
  simp only [List.append_nil]

theorem exists_of_cutOnce? {c : Char} {s before behind : List Char}
    (cut : cutOnce? [c] s = some (before, behind)) : s = before ++ c :: behind ∧ c ∉ before := by
  induction s generalizing before with
  | nil => cases cut
  | cons d s ih =>
    by_cases same : c = d
    · subst same
      rw [cutOnce?, dropStart?, if_pos rfl] at cut
      cases cut
      exact ⟨rfl, List.not_mem_nil⟩
    · have apart : dropStart? [c] (d :: s) = none := if_neg same
      rw [cutOnce?, apart] at cut
      obtain ⟨⟨before', behind'⟩, found, ⟨⟩⟩ := Option.map_eq_some_iff.mp cut
      obtain ⟨rfl, free⟩ := ih found
      exact ⟨rfl, List.not_mem_cons_of_ne_of_not_mem same free⟩

/-- **Where a text is cut**: at the first of its marks. -/
theorem splitOnce?_eq_some_iff {c : Char} {mark s before behind : String} (single : mark.toList = [c]) :
    splitOnce? mark s = some (before, behind) ↔
      s = before ++ mark ++ behind ∧ c ∉ before.toList := by
  rw [splitOnce?, single]
  constructor
  · intro cut
    obtain ⟨⟨front, rest⟩, found, ⟨⟩⟩ := Option.map_eq_some_iff.mp cut
    obtain ⟨whole, free⟩ := exists_of_cutOnce? found
    refine ⟨?_, by rwa [String.toList_ofList]⟩
    rw [← String.toList_inj, whole]
    simp [single]
  · rintro ⟨rfl, free⟩
    have whole : (before ++ mark ++ behind).toList = before.toList ++ ([c] ++ behind.toList) := by
      simp [single]
    rw [whole, cutOnce?_of_notMem_append free]
    simp

/-! ## Pieces between marks -/

theorem cutAt_ne_nil {α : Type} (p : α → Bool) (xs : List α) : cutAt p xs ≠ [] := by
  cases xs with
  | nil => exact List.cons_ne_nil _ _
  | cons x xs =>
    rw [cutAt]
    split
    · exact List.cons_ne_nil _ _
    · split <;> exact List.cons_ne_nil _ _

theorem cutAt_append {α : Type} {p : α → Bool} {mark : α} (marked : p mark) (xs ys : List α) :
    cutAt p (xs ++ mark :: ys) = cutAt p xs ++ cutAt p ys := by
  induction xs with
  | nil => exact if_pos marked
  | cons x xs ih =>
    rw [List.cons_append, cutAt, cutAt, ih]
    split
    · rfl
    · cases pieces : cutAt p xs with
      | nil => exact absurd pieces (cutAt_ne_nil p xs)
      | cons piece pieces => rfl

/-- A text with a mark in it has the pieces of what stands before it and of what stands
behind it. -/
theorem pieces_append {c : Char} {mark : String} (single : mark.toList = [c]) (s t : String) :
    pieces c (s ++ mark ++ t) = pieces c s ++ pieces c t := by
  have whole : (s ++ mark ++ t).toList = s.toList ++ c :: t.toList := by
    rw [String.toList_append, String.toList_append, single, List.append_assoc,
      List.singleton_append]
  have cut := @cutAt_append _ (· == c) c (beq_self_eq_true c) s.toList t.toList
  rw [pieces, whole, cut, List.map_append]
  rfl

theorem cutAt_of_forall_not {α : Type} {p : α → Bool} {xs : List α} (h : ∀ x ∈ xs, ¬ p x) :
    cutAt p xs = [xs] := by
  induction xs with
  | nil => rfl
  | cons x xs ih =>
    rw [cutAt, if_neg (h x List.mem_cons_self), ih fun y hy => h y (.tail x hy)]

/-- A text without a mark in it is one piece. -/
theorem pieces_of_notMem {c : Char} {s : String} (h : c ∉ s.toList) : pieces c s = [s] := by
  have unmarked : ∀ d ∈ s.toList, ¬ (d == c) = true := fun d hd same => h (eq_of_beq same ▸ hd)
  rw [pieces, cutAt_of_forall_not unmarked, List.map_singleton, String.ofList_toList]

theorem exists_cutAt_append {α : Type} {p : α → Bool} {ys : List α} (h : ∀ y ∈ ys, ¬ p y)
    (xs : List α) : ∃ before last, cutAt p xs = before ++ [last] ∧
      cutAt p (xs ++ ys) = before ++ [last ++ ys] := by
  induction xs with
  | nil => exact ⟨[], [], rfl, cutAt_of_forall_not h⟩
  | cons x xs ih =>
    obtain ⟨before, last, alone, whole⟩ := ih
    rw [List.cons_append, cutAt, cutAt, alone, whole]
    split
    · exact ⟨[] :: before, last, rfl, rfl⟩
    · cases before with
      | nil => exact ⟨[], x :: last, rfl, rfl⟩
      | cons piece before => exact ⟨(x :: piece) :: before, last, rfl, rfl⟩

/-- What has no mark in it makes the last piece longer. -/
theorem exists_pieces_append {c : Char} {ending : String} (h : c ∉ ending.toList) (s : String) :
    ∃ before last, pieces c s = before ++ [last] ∧
      pieces c (s ++ ending) = before ++ [last ++ ending] := by
  have unmarked : ∀ d ∈ ending.toList, ¬ (d == c) = true := fun d hd same =>
    h (eq_of_beq same ▸ hd)
  obtain ⟨before, last, alone, whole⟩ := exists_cutAt_append unmarked s.toList
  refine ⟨before.map String.ofList, String.ofList last, ?_, ?_⟩
  · rw [pieces, alone, List.map_append]
    rfl
  · rw [pieces, String.toList_append, whole, List.map_append]
    simp

/-- A text without blanks is one word. -/
theorem words_of_no_blank {s : String} (some_chars : s ≠ "") (h : ∀ c ∈ s.toList, isBlank c = false) :
    words s = [s] := by
  have unmarked : ∀ c ∈ s.toList, ¬ isBlank c := fun c hc => Bool.eq_false_iff.mp (h c hc)
  have ne : s.toList ≠ [] := mt String.toList_eq_nil_iff.mp some_chars
  rw [words, cutAt_of_forall_not unmarked, List.filter_cons_of_pos (by simp [ne]), List.filter_nil,
    List.map_singleton, String.ofList_toList]

/-! ## Sizes -/

theorem utf8ByteSize_ofList_cons (c : Char) (cs : List Char) :
    (String.ofList (c :: cs)).utf8ByteSize = c.utf8Size + (String.ofList cs).utf8ByteSize := by
  have first : String.ofList (c :: cs) = String.singleton c ++ String.ofList cs := by
    rw [← String.toList_inj]
    simp
  rw [first, String.utf8ByteSize_append, String.utf8ByteSize_singleton]

/-- A text of characters of one byte has as many bytes as characters. -/
theorem utf8ByteSize_of_short {s : String} (short : ∀ c ∈ s.toList, c.utf8Size = 1) :
    s.utf8ByteSize = s.toList.length := by
  obtain ⟨chars, rfl⟩ : ∃ chars, s = String.ofList chars := ⟨_, String.ofList_toList.symm⟩
  rw [String.toList_ofList] at short ⊢
  induction chars with
  | nil => rfl
  | cons c chars ih =>
    obtain ⟨first, others⟩ := List.forall_mem_cons.mp short
    rw [utf8ByteSize_ofList_cons, first, ih others, List.length_cons, Nat.add_comm]

/-! ## Beginnings and endings -/

theorem startsWith_iff {c : Char} {mark s : String} (single : mark.toList = [c]) :
    startsWith mark s ↔ s.toList.head? = some c := by
  rw [startsWith, after?, Option.isSome_map, single]
  cases s.toList with
  | nil => exact ⟨nofun, nofun⟩
  | cons d rest =>
    rw [List.head?_cons, Option.some_inj]
    by_cases h : c = d
    · simp [dropStart?, h]
    · simp [dropStart?, h, Ne.symm h]

theorem after?_append (beginning rest : String) :
    after? beginning (beginning ++ rest) = some rest := by
  rw [after?, String.toList_append, dropStart?_append, Option.map_some, String.ofList_toList]

theorem after?_eq_some_iff {beginning s rest : String} :
    after? beginning s = some rest ↔ s = beginning ++ rest := by
  constructor
  · intro h
    obtain ⟨found, dropped, rfl⟩ := Option.map_eq_some_iff.mp h
    rw [← String.toList_inj, dropStart?_eq_some_iff.mp dropped]
    simp
  · rintro rfl
    exact after?_append beginning rest

theorem before?_eq_some_iff {ending s text : String} :
    before? ending s = some text ↔ s = text ++ ending := by
  constructor
  · intro h
    obtain ⟨rest, found, rfl⟩ := Option.map_eq_some_iff.mp h
    rw [dropStart?_eq_some_iff, List.reverse_eq_iff] at found
    rw [← String.toList_inj, found]
    simp
  · rintro rfl
    have rest : dropStart? ending.toList.reverse (text ++ ending).toList.reverse =
        some text.toList.reverse :=
      dropStart?_eq_some_iff.mpr (by rw [String.toList_append, List.reverse_append])
    rw [before?, rest]
    simp

theorem endsWith_iff {c : Char} {mark s : String} (single : mark.toList = [c]) :
    endsWith mark s ↔ s.toList.getLast? = some c := by
  rw [endsWith, Option.isSome_iff_exists]
  constructor
  · rintro ⟨text, cut⟩
    rw [before?_eq_some_iff.mp cut, String.toList_append, single, List.getLast?_concat]
  · intro last
    obtain ⟨front, whole⟩ := List.getLast?_eq_some_iff.mp last
    refine ⟨String.ofList front, before?_eq_some_iff.mpr ?_⟩
    rw [← String.toList_inj, whole, String.toList_append, single, String.toList_ofList]

/-- What is trimmed from the end leaves a first character that is no blank. -/
theorem head?_trimEnd {s : String} {c : Char} {rest : List Char} (h : s.toList = c :: rest)
    (blank : isBlank c = false) : (trimEnd s).toList.head? = some c := by
  have kept : [c].dropWhile isBlank = [c] := List.dropWhile_cons_of_neg (by simp [blank])
  rw [trimEnd, String.toList_ofList, h, dropWhileEnd, List.reverse_cons, List.dropWhile_append,
    kept]
  split
  · rfl
  · rw [List.reverse_append]
    rfl

/-- Blanks at the end do not count. -/
theorem trimEnd_append_of_blank {blanks : String} (h : ∀ c ∈ blanks.toList, isBlank c) (s : String) :
    trimEnd (s ++ blanks) = trimEnd s := by
  rw [trimEnd, trimEnd, String.toList_append, dropWhileEnd, List.reverse_append,
    List.dropWhile_append_of_pos fun c hc => h c (List.mem_reverse.mp hc), dropWhileEnd]

/-- A text is what is left of it when it is trimmed, and blanks. -/
theorem exists_trimEnd_append (s : String) :
    ∃ blanks : String, s = trimEnd s ++ blanks ∧ ∀ c ∈ blanks.toList, isBlank c := by
  refine ⟨String.ofList (s.toList.reverse.takeWhile isBlank).reverse, ?_, ?_⟩
  · rw [← String.toList_inj, String.toList_append, trimEnd, String.toList_ofList,
      String.toList_ofList, dropWhileEnd, ← List.reverse_append, List.takeWhile_append_dropWhile,
      List.reverse_reverse]
  · intro c hc
    rw [String.toList_ofList, List.mem_reverse] at hc
    exact List.all_eq_true.mp List.all_takeWhile c hc

/-- A text without blanks is not cut at its ends. -/
theorem trim_of_no_blank {s : String} (h : ∀ c ∈ s.toList, isBlank c = false) : trim s = s := by
  have kept : ∀ {cs : List Char}, (∀ c ∈ cs, isBlank c = false) → cs.dropWhile isBlank = cs := by
    intro cs plain
    cases cs with
    | nil => rfl
    | cons c cs => exact List.dropWhile_cons_of_neg (by simp [plain c List.mem_cons_self])
  rw [trim, dropWhileEnd, kept h, kept fun c hc => h c (List.mem_reverse.mp hc),
    List.reverse_reverse, String.ofList_toList]

/-- What is no blank stays where a text is trimmed. -/
theorem mem_trim {c : Char} {s : String} (listed : c ∈ s.toList) (solid : isBlank c = false) :
    c ∈ (trim s).toList := by
  have kept : ∀ {cs : List Char}, c ∈ cs → c ∈ cs.dropWhile isBlank := by
    intro cs listed
    rw [← List.takeWhile_append_dropWhile (p := isBlank) (l := cs), List.mem_append] at listed
    refine listed.resolve_left fun blank => ?_
    rw [List.all_eq_true.mp List.all_takeWhile c blank] at solid
    cases solid
  rw [trim, String.toList_ofList, dropWhileEnd, List.mem_reverse]
  exact kept (List.mem_reverse.mpr (kept listed))

/-! ## Letters in lower case -/

theorem toList_toLower (s : String) : s.toLower.toList = s.toList.map Char.toLower := by
  have lower : s.toLower = s.map Char.toLower := rfl
  rw [lower, String.toList_map]

theorem toLower_toLower (s : String) : s.toLower.toLower = s.toLower := by
  have chars : ∀ c : Char, c.toLower.toLower = c.toLower := by
    intro c
    unfold Char.toLower
    grind
  rw [← String.toList_inj, toList_toLower, toList_toLower, List.map_map]
  exact List.map_congr_left fun c _ => chars c

/-! ## Numerals

The digits of a number have its value (`digitsValue?_toDigits`), so a word is read as it was written
(`word?_toString`). -/

/-- A word whose upper bit is not set, so that a signed word holds it as well. -/
def IsSigned (n : Nat) : Prop := 2 * n < wordLimit

instance : DecidablePred IsSigned := fun n => inferInstanceAs (Decidable (2 * n < wordLimit))

/-- The difference of two signed words is read as it is. -/
theorem signed_sub {a b : Nat} (ha : IsSigned a) (hb : IsSigned b) :
    signed ((a : Int) - (b : Int)) = (a : Int) - (b : Int) := by
  unfold IsSigned at ha hb
  exact Int.bmod_eq_of_le (by omega) (by omega)

/-- The distance of a signed word from zero is told as it is, unless the word is the least one. -/
theorem signedDistance_eq {n : Int} (h : IsSigned n.natAbs) : signedDistance n = n.natAbs := by
  unfold IsSigned at h
  rw [signedDistance, signed]
  exact Int.bmod_eq_of_le (by omega) (by omega)

theorem digit?_of_isDigit {c : Char} (h : c.isDigit) : digit? c = some (c.toNat - '0'.toNat) := by
  simp only [Char.isDigit, Bool.and_eq_true, decide_eq_true_eq, ge_iff_le] at h
  rw [digit?, if_pos]
  simpa [Char.le_def] using h

/-- The value of a run of digits is the one that they have in base ten. -/
theorem digitsValue?_of_isDigit {cs : List Char} (h : ∀ c ∈ cs, c.isDigit) (value : Nat) :
    digitsValue? value cs = some (Nat.ofDigitChars 10 cs value) := by
  induction cs generalizing value with
  | nil => rfl
  | cons c cs ih =>
    obtain ⟨hc, hcs⟩ := List.forall_mem_cons.mp h
    rw [digitsValue?, digit?_of_isDigit hc, Option.bind_some, ih hcs, Nat.ofDigitChars_cons]

theorem digitsValue?_toDigits (n : Nat) : digitsValue? 0 (Nat.toDigits 10 n) = some n := by
  rw [digitsValue?_of_isDigit fun c hc => Nat.isDigit_of_mem_toDigits (by decide) (by decide) hc,
    Nat.ofDigitChars_ten_toDigits]

theorem toList_toString (n : Nat) : (toString n).toList = Nat.toDigits 10 n := by
  rw [Nat.toString_eq_ofList_toDigits, String.toList_ofList]

theorem isDigit_of_mem_toString {n : Nat} {c : Char} (h : c ∈ (toString n).toList) :
    c.isDigit := by
  rw [toList_toString] at h
  exact Nat.isDigit_of_mem_toDigits (by decide) (by decide) h

/-- **A word is read as it was written.** -/
theorem word?_toString {n : Nat} (h : n < wordLimit) : word? (toString n) = some n := by
  have unsigned : ∀ rest, (toString n).toList ≠ '+' :: rest := fun rest start =>
    absurd (isDigit_of_mem_toString (start ▸ List.mem_cons_self)) (by decide : ¬ '+'.isDigit)
  simp only [toList_toString] at unsigned
  simp only [word?, toList_toString]
  rw [if_neg Nat.toDigits_ne_nil, digitsValue?_toDigits]
  simp [h]

end Patchwork.Text
