import Patchwork.Toml.Text

/-! Pieces of text that are read again.  A reader that took some characters off a text takes the
same characters off any other text that starts with them, as long as what follows does not run on:
for blanks and comments that is something else than these (`gap_append`, `lineEnd?_append`), and for
a string something else than a quote (`string?_append`). -/

namespace Patchwork.Toml

/-! ## What follows a value -/

/-- The marks that may stand behind a value, or a blank. -/
def endMarks : List Char := [' ', '\t', ',', ']', '\x7d', '#', '\n', '\r']

/-- **Whether a value ends here**: behind blanks there is nothing more, or the end of the line, a
comment, or the end of what the value stands in. -/
def EndsValue (s : List Char) : Prop := ∀ c ∈ (s.dropWhile isSpace).head?, c ∈ endMarks

theorem EndsValue.head {c : Char} {s : List Char} (h : EndsValue (c :: s)) : c ∈ endMarks := by
  by_cases space : isSpace c
  · simp only [isSpace, Bool.or_eq_true, beq_iff_eq] at space
    rcases space with rfl | rfl <;> decide
  · exact h c (by simp [space])

/-- What follows a value does not start with any other character. -/
theorem EndsValue.ne {c d : Char} {s : List Char} (h : EndsValue (c :: s)) (other : d ∉ endMarks) :
    c ≠ d := fun same => other (same ▸ h.head)

theorem endsValue_nil : EndsValue [] := nofun

theorem endsValue_cons {c : Char} (mark : c ∈ endMarks) (solid : ¬ isSpace c) (s : List Char) :
    EndsValue (c :: s) := by
  intro d hd
  rw [List.dropWhile_cons, if_neg solid] at hd
  cases hd
  exact mark

/-- Blanks in front change nothing. -/
theorem endsValue_append {w : List Char} (blank : ∀ c ∈ w, isSpace c) (s : List Char) :
    EndsValue (w ++ s) ↔ EndsValue s := by
  unfold EndsValue
  rw [List.dropWhile_append_of_pos blank]

/-! ## Blanks and comments -/

theorem consumed_append (c r : List Char) : consumed (c ++ r) r = c := by
  rw [consumed, List.length_append, Nat.add_sub_cancel, List.take_left]

/-- A run of characters is cut off where another one follows. -/
theorem span_append {p : Char → Bool} {w r : List Char} (all : ∀ c ∈ w, p c)
    (stop : ∀ c ∈ r.head?, ¬ p c) :
    (w ++ r).takeWhile p = w ∧ (w ++ r).dropWhile p = r := by
  have none : r.takeWhile p = [] ∧ r.dropWhile p = r := by
    cases r with
    | nil => exact ⟨rfl, rfl⟩
    | cons c r =>
      have other := stop c rfl
      rw [List.takeWhile_cons, List.dropWhile_cons, if_neg other, if_neg other]
      exact ⟨rfl, rfl⟩
  rw [List.takeWhile_append_of_pos all, List.dropWhile_append_of_pos all, none.1, none.2,
    List.append_nil]
  exact ⟨rfl, rfl⟩

/-- Blanks are taken up to the first character that is none. -/
theorem spaces_append {w r : List Char} (blank : ∀ c ∈ w, isSpace c)
    (solid : ∀ c ∈ r.head?, ¬ isSpace c) : spaces (w ++ r) = (w, r) := by
  rw [spaces, (span_append blank solid).1, (span_append blank solid).2]

theorem spaces_fst (s : List Char) : ∀ c ∈ (spaces s).1, isSpace c :=
  List.all_eq_true.mp List.all_takeWhile

theorem spaces_snd (s : List Char) : ∀ c ∈ (spaces s).2.head?, ¬ isSpace c := by
  intro c hc
  have solid := List.head?_dropWhile_not isSpace s
  rw [spaces] at hc
  rw [Option.mem_def.mp hc] at solid
  simpa using solid

theorem append_spaces (s : List Char) : (spaces s).1 ++ (spaces s).2 = s :=
  List.takeWhile_append_dropWhile

/-- A character at which blanks, line ends and comments end. -/
structure EndsGap (c : Char) : Prop where
  textual : isTextual c
  solid : ¬ isSpace c
  plain : c ≠ '#'

theorem isTextual_of_endsGap {c : Char} (h : EndsGap c) : c ≠ '\n' ∧ c ≠ '\r' := by
  have textual := h.textual
  constructor <;> rintro rfl <;> exact absurd textual (by decide)

/-- **Blanks and comments are read again** as they are written back, in front of anything else. -/
theorem gap_append {inComment : Bool} {s w t : List Char} {c : Char}
    (h : gap inComment s = (w, c :: t)) (textual : isTextual c) {c' : Char} (ends : EndsGap c')
    (t' : List Char) : gap inComment (w ++ c' :: t') = (w, c' :: t') := by
  fun_induction gap inComment s generalizing w with
  | case1 => cases h
  | case2 _ rest w' r' step ih =>
    cases h
    rw [List.cons_append, gap, ih step]
  | case3 _ rest w' r' step ih =>
    cases h
    rw [List.cons_append, gap, ih step]
  | case4 inComment d rest newline carriage goes w' r' step ih =>
    cases h
    have next := ih step
    have carriage' : ∀ rest', d = '\r' → w' ++ c' :: t' = '\n' :: rest' → False := by
      rintro rest' rfl
      cases inComment <;> exact absurd goes (by decide)
    rw [List.cons_append, gap.eq_4 _ _ _ newline carriage', if_pos goes, next]
  | case5 inComment d rest newline carriage stops =>
    cases h
    have outside : inComment = false := by
      cases inComment with
      | false => rfl
      | true => exact absurd textual stops
    obtain ⟨newline', carriage'⟩ := isTextual_of_endsGap ends
    rw [outside, List.nil_append,
      gap.eq_4 _ _ _ newline' fun _ same _ => carriage' same, if_neg]
    simp [ends.solid, ends.plain]

theorem not_isSpace_of_gap {inComment : Bool} {s w t : List Char} {c : Char}
    (h : gap inComment s = (w, c :: t)) : ¬ isSpace c := by
  fun_induction gap inComment s generalizing w with
  | case1 => cases h
  | case2 _ rest w' r' step ih =>
    cases h
    exact ih step
  | case3 _ rest w' r' step ih =>
    cases h
    exact ih step
  | case4 inComment d rest newline carriage goes w' r' step ih =>
    cases h
    exact ih step
  | case5 inComment d rest newline carriage stops =>
    cases h
    intro space
    simp only [isSpace, Bool.or_eq_true, beq_iff_eq] at space
    rcases space with rfl | rfl <;> cases inComment <;> exact stops (by decide)

/-- Blanks and comments at the end are read again as they are written back. -/
theorem gap_of_gap_eq_nil {inComment : Bool} {s w : List Char} (h : gap inComment s = (w, [])) :
    gap inComment w = (w, []) := by
  fun_induction gap inComment s generalizing w with
  | case1 =>
    cases h
    rfl
  | case2 _ rest w' r' step ih =>
    cases h
    rw [gap, ih step]
  | case3 _ rest w' r' step ih =>
    cases h
    rw [gap, ih step]
  | case4 inComment d rest newline carriage goes w' r' step ih =>
    cases h
    have carriage' : ∀ rest', d = '\r' → w' = '\n' :: rest' → False := by
      rintro rest' rfl
      cases inComment <;> exact absurd goes (by decide)
    rw [gap.eq_4 _ _ _ newline carriage', if_pos goes, ih step]
  | case5 => cases h

theorem newline?_eq_some {s rest : List Char} (h : newline? s = some rest) :
    s = '\n' :: rest ∨ s = '\r' :: '\n' :: rest := by
  unfold newline? at h
  split at h
  · cases h
    exact .inl rfl
  · cases h
    exact .inr rfl
  · cases h

/-- What stands between a value and the end of its line: blanks, and a comment if there is one. -/
def Trails (w : List Char) : Prop :=
  ∃ blank comment, w = blank ++ comment ∧ (∀ c ∈ blank, isSpace c) ∧
    (comment = [] ∨ ∃ body, comment = '#' :: body ∧ ∀ c ∈ body, isTextual c)

/-- What the end of a line is behind a mark that starts a comment. -/
theorem lineEnd?_comment {blank : List Char} (all : ∀ c ∈ blank, isSpace c) (body : List Char) :
    lineEnd? (blank ++ '#' :: body) =
      match body.dropWhile isTextual with
      | [] => some (blank ++ '#' :: body.takeWhile isTextual, [])
      | rest => (newline? rest).map fun rest => (blank ++ '#' :: body.takeWhile isTextual, rest) := by
  have cut := @spaces_append blank ('#' :: body) all (by rintro c ⟨⟩; decide)
  rw [lineEnd?, cut]
  rcases rest : body.dropWhile isTextual with _ | ⟨c, rest⟩ <;> simp only [rest]

/-- What it is without a comment. -/
theorem lineEnd?_plain {blank rest : List Char} (all : ∀ c ∈ blank, isSpace c)
    (solid : ∀ c ∈ rest.head?, ¬ isSpace c) (plain : ∀ c ∈ rest.head?, c ≠ '#') :
    lineEnd? (blank ++ rest) =
      match rest with
      | [] => some (blank, [])
      | rest => (newline? rest).map fun rest => (blank, rest) := by
  have cut := spaces_append all solid
  unfold lineEnd?
  rw [cut]
  cases rest with
  | nil =>
    dsimp only
    rw [List.append_nil]
  | cons c rest =>
    dsimp only
    split
    · rename_i none
      split at none
      · exact absurd (List.cons.inj ‹_›).1 (plain c rfl)
      · cases none
    · split
      · exact absurd (List.cons.inj ‹_›).1 (plain c rfl)
      · rw [List.append_nil]

theorem trails_of_lineEnd? {s w rest : List Char} (h : lineEnd? s = some (w, rest)) :
    Trails w ∧ EndsValue s := by
  have blank := spaces_fst s
  have solid := spaces_snd s
  rw [← append_spaces s] at h ⊢
  rw [endsValue_append blank]
  rcases rest : (spaces s).2 with _ | ⟨c, back⟩
  · rw [rest] at h solid
    rw [lineEnd?_plain blank solid (fun _ none => nomatch none)] at h
    cases h
    exact ⟨⟨_, [], (List.append_nil _).symm, blank, .inl rfl⟩, endsValue_nil⟩
  · rw [rest] at h solid
    by_cases hash : c = '#'
    · rw [hash] at h ⊢
      rw [lineEnd?_comment blank] at h
      have body : w = (spaces s).1 ++ '#' :: back.takeWhile isTextual := by
        split at h
        · cases h
          rfl
        · obtain ⟨rest', -, same⟩ := Option.map_eq_some_iff.mp h
          cases same
          rfl
      exact ⟨⟨_, _, body, blank, .inr ⟨_, rfl, List.all_eq_true.mp List.all_takeWhile⟩⟩,
        endsValue_cons (by decide) (by decide) _⟩
    · rw [lineEnd?_plain blank solid (by rintro d ⟨⟩; exact hash)] at h
      obtain ⟨rest', line, same⟩ := Option.map_eq_some_iff.mp h
      cases same
      refine ⟨⟨_, [], (List.append_nil _).symm, blank, .inl rfl⟩, ?_⟩
      rcases newline?_eq_some line with same | same <;> cases same <;>
        exact endsValue_cons (by decide) (by decide) _

/-- **The end of a line is read again** as it was written. -/
theorem Trails.lineEnd? {w : List Char} (h : Trails w) (rest : List Char) :
    lineEnd? (w ++ '\n' :: rest) = some (w, rest) := by
  obtain ⟨blank, comment, rfl, all, rfl | ⟨body, rfl, textual⟩⟩ := h
  · rw [List.append_nil, lineEnd?_plain all (by rintro c ⟨⟩; decide) (by rintro c ⟨⟩; decide)]
    rfl
  · have cut := @span_append isTextual body ('\n' :: rest) textual (by rintro c ⟨⟩; decide)
    rw [List.append_assoc, List.cons_append, lineEnd?_comment all, cut.1, cut.2]
    rfl

theorem Trails.endsValue {w : List Char} (h : Trails w) (rest : List Char) :
    EndsValue (w ++ '\n' :: rest) := by
  obtain ⟨blank, comment, rfl, all, rfl | ⟨body, rfl, -⟩⟩ := h
  · rw [List.append_nil, endsValue_append all]
    exact endsValue_cons (by decide) (by decide) _
  · rw [List.append_assoc, endsValue_append all]
    exact endsValue_cons (by decide) (by decide) _

/-! ## Strings -/

theorem consTo_eq_some {c : Char} {x : Option (List Char × List Char)} {text rest : List Char} :
    consTo c x = some (text, rest) ↔ ∃ more, text = c :: more ∧ x = some (more, rest) := by
  unfold consTo
  rw [Option.map_eq_some_iff]
  constructor
  · rintro ⟨⟨more, rest'⟩, rfl, same⟩
    cases same
    exact ⟨more, rfl, rfl⟩
  · rintro ⟨more, rfl, rfl⟩
    exact ⟨_, rfl, rfl⟩

/-- **A one-line string is read again** in front of anything. -/
theorem basicBody_append {s text r : List Char} (h : basicBody s = some (text, r)) :
    ∃ c, s = c ++ r ∧ ∀ r', basicBody (c ++ r') = some (text, r') := by
  fun_induction basicBody s generalizing text with
  | case1 rest =>
    cases h
    exact ⟨['"'], rfl, fun _ => rfl⟩
  | case2 a b c d rest ih =>
    obtain ⟨x, known, h⟩ := Option.bind_eq_some_iff.mp h
    obtain ⟨more, rfl, inner⟩ := consTo_eq_some.mp h
    obtain ⟨cs, rfl, again⟩ := ih inner
    refine ⟨'\\' :: 'u' :: a :: b :: c :: d :: cs, rfl, fun r' => ?_⟩
    simp only [List.cons_append, basicBody, known, again, Option.bind_some, consTo_eq_some]
    exact ⟨more, rfl, rfl⟩
  | case3 a b c d e f g k rest ih =>
    obtain ⟨x, known, h⟩ := Option.bind_eq_some_iff.mp h
    obtain ⟨more, rfl, inner⟩ := consTo_eq_some.mp h
    obtain ⟨cs, rfl, again⟩ := ih inner
    refine ⟨'\\' :: 'U' :: a :: b :: c :: d :: e :: f :: g :: k :: cs, rfl, fun r' => ?_⟩
    simp only [List.cons_append, basicBody, known, again, Option.bind_some, consTo_eq_some]
    exact ⟨more, rfl, rfl⟩
  | case4 c rest short long ih =>
    obtain ⟨x, known, h⟩ := Option.bind_eq_some_iff.mp h
    obtain ⟨more, rfl, inner⟩ := consTo_eq_some.mp h
    obtain ⟨cs, rfl, again⟩ := ih inner
    refine ⟨'\\' :: c :: cs, rfl, fun r' => ?_⟩
    rw [List.cons_append, List.cons_append, basicBody.eq_4, known, again, Option.bind_some,
      consTo_eq_some]
    · exact ⟨more, rfl, rfl⟩
    · rintro _ _ _ _ _ rfl
      cases known
    · rintro _ _ _ _ _ _ _ _ _ rfl
      cases known
  | case5 c rest quote short long escape textual ih =>
    obtain ⟨more, rfl, inner⟩ := consTo_eq_some.mp h
    obtain ⟨cs, rfl, again⟩ := ih inner
    refine ⟨c :: cs, rfl, fun r' => ?_⟩
    have plain : c ≠ '\\' := by
      rintro rfl
      exact absurd textual (by decide)
    rw [List.cons_append, basicBody.eq_5 _ _ quote, if_pos textual, again, consTo_eq_some]
    · exact ⟨more, rfl, rfl⟩
    all_goals
      intros
      exact absurd ‹c = '\\'› plain
  | case6 => cases h
  | case7 => cases h

theorem literalBody_append {s text r : List Char} (h : literalBody s = some (text, r)) :
    ∃ c, s = c ++ r ∧ ∀ r', literalBody (c ++ r') = some (text, r') := by
  fun_induction literalBody s generalizing text with
  | case1 rest =>
    cases h
    exact ⟨['\''], rfl, fun _ => rfl⟩
  | case2 c rest quote textual ih =>
    obtain ⟨more, rfl, inner⟩ := consTo_eq_some.mp h
    obtain ⟨cs, rfl, again⟩ := ih inner
    refine ⟨c :: cs, rfl, fun r' => ?_⟩
    rw [List.cons_append, literalBody.eq_2 _ _ quote, if_pos textual, again, consTo_eq_some]
    exact ⟨more, rfl, rfl⟩
  | case3 => cases h
  | case4 => cases h

/-- Whether a text does not go on with a mark. -/
def NotAhead (q : Char) (s : List Char) : Prop := ∀ c ∈ s.head?, c ≠ q

theorem EndsValue.notAhead {q : Char} {s : List Char} (h : EndsValue s) (other : q ∉ endMarks) :
    NotAhead q s := by
  rintro c hc same
  obtain ⟨rest, rfl⟩ := List.head?_eq_some_iff.mp hc
  exact h.ne other same

/-- A literal string over several lines is read again where no quote follows. -/
theorem longLiteralBody_append {s text r : List Char} (h : longLiteralBody s = some (text, r)) :
    ∃ front, s = front ++ '\'' :: '\'' :: '\'' :: r ∧ ∀ r', NotAhead '\'' r' →
      longLiteralBody (front ++ '\'' :: '\'' :: '\'' :: r') = some (text, r') := by
  fun_induction longLiteralBody s generalizing text with
  | case1 rest =>
    cases h
    exact ⟨['\'', '\''], rfl, fun _ _ => rfl⟩
  | case2 rest other =>
    cases h
    refine ⟨['\''], rfl, fun r' clear => ?_⟩
    rw [List.singleton_append, longLiteralBody.eq_2]
    rintro rest' rfl
    exact clear _ rfl rfl
  | case3 rest other other' =>
    cases h
    refine ⟨[], rfl, fun r' clear => ?_⟩
    rw [List.nil_append, longLiteralBody.eq_3]
    · rintro rest' rfl
      exact clear _ rfl rfl
    · rintro rest' rfl
      exact clear _ rfl rfl
  | case4 rest ih =>
    obtain ⟨more, rfl, inner⟩ := consTo_eq_some.mp h
    obtain ⟨front, rfl, again⟩ := ih inner
    refine ⟨'\r' :: '\n' :: front, rfl, fun r' clear => ?_⟩
    rw [List.cons_append, List.cons_append, longLiteralBody, again r' clear]
    rfl
  | case5 rest ih =>
    obtain ⟨more, rfl, inner⟩ := consTo_eq_some.mp h
    obtain ⟨front, rfl, again⟩ := ih inner
    refine ⟨'\n' :: front, rfl, fun r' clear => ?_⟩
    rw [List.cons_append, longLiteralBody, again r' clear]
    rfl
  | case6 c rest five four three carriage newline textual ih =>
    obtain ⟨more, rfl, inner⟩ := consTo_eq_some.mp h
    obtain ⟨front, rfl, again⟩ := ih inner
    refine ⟨c :: front, rfl, fun r' clear => ?_⟩
    -- two more quotes would be the first two that were there
    have single : ∀ rest', c = '\'' →
        front ++ '\'' :: '\'' :: '\'' :: r' ≠ '\'' :: '\'' :: rest' := by
      intro rest' quote same
      match front with
      | [] => exact three _ quote rfl
      | [a] => cases same; exact three _ quote rfl
      | a :: b :: front => cases same; exact three _ quote rfl
    rw [List.cons_append, longLiteralBody.eq_6, if_pos textual, again r' clear]
    · rfl
    · exact fun _ quote same => single _ quote same
    · exact fun _ quote same => single _ quote same
    · exact fun _ quote same => single _ quote same
    · rintro _ rfl
      exact absurd textual (by decide)
    · exact newline
  | case7 => cases h
  | case8 => cases h

theorem isSome_newline? (c d : Char) (s : List Char) :
    (newline? (c :: d :: s)).isSome = (c == '\n' || c == '\r' && d == '\n') := by
  unfold newline?
  split <;> simp_all

/-- Whether a backslash joins lines is seen before the string ends. -/
theorem joinsLines_append (front r r' : List Char) :
    joinsLines (front ++ '"' :: r) = joinsLines (front ++ '"' :: r') := by
  unfold joinsLines
  induction front with
  | nil =>
    rw [List.nil_append, List.nil_append, List.dropWhile_cons, List.dropWhile_cons]
    rfl
  | cons c front ih =>
    rw [List.cons_append, List.cons_append, List.dropWhile_cons, List.dropWhile_cons]
    split
    · exact ih
    · cases front with
      | nil => rw [List.nil_append, List.nil_append, isSome_newline?, isSome_newline?]
      | cons d front => rw [List.cons_append, List.cons_append, isSome_newline?, isSome_newline?]

theorem mem_of_joinsLines {c : Char} {s : List Char} (h : joinsLines (c :: s)) :
    c ∈ [' ', '\t', '\n', '\r'] := by
  unfold joinsLines at h
  by_cases space : isSpace c
  · simp only [isSpace, Bool.or_eq_true, beq_iff_eq] at space
    rcases space with rfl | rfl <;> decide
  · rw [List.dropWhile_cons, if_neg space] at h
    obtain ⟨rest, line⟩ := Option.isSome_iff_exists.mp h
    rcases newline?_eq_some line with same | same <;> cases same <;> decide

/-- A string over several lines is read again where no quote follows. -/
theorem longBasicBody_append {joining : Bool} {s text r : List Char}
    (h : longBasicBody joining s = some (text, r)) :
    ∃ front, s = front ++ '"' :: '"' :: '"' :: r ∧ ∀ r', NotAhead '"' r' →
      longBasicBody joining (front ++ '"' :: '"' :: '"' :: r') = some (text, r') := by
  fun_induction longBasicBody joining s generalizing text with
  | case1 joining rest =>
    cases h
    exact ⟨['"', '"'], rfl, fun _ _ => rfl⟩
  | case2 joining rest other =>
    cases h
    refine ⟨['"'], rfl, fun r' clear => ?_⟩
    rw [List.singleton_append, longBasicBody.eq_2]
    rintro rest' rfl
    exact clear _ rfl rfl
  | case3 joining rest other other' =>
    cases h
    refine ⟨[], rfl, fun r' clear => ?_⟩
    rw [List.nil_append, longBasicBody.eq_3]
    · rintro rest' rfl
      exact clear _ rfl rfl
    · rintro rest' rfl
      exact clear _ rfl rfl
  | case4 joining a b c d rest ih =>
    obtain ⟨x, known, h⟩ := Option.bind_eq_some_iff.mp h
    obtain ⟨more, rfl, inner⟩ := consTo_eq_some.mp h
    obtain ⟨front, rfl, again⟩ := ih inner
    refine ⟨'\\' :: 'u' :: a :: b :: c :: d :: front, rfl, fun r' clear => ?_⟩
    simp only [List.cons_append, longBasicBody, known, again r' clear, Option.bind_some,
      consTo_eq_some]
    exact ⟨more, rfl, rfl⟩
  | case5 joining a b c d e f g k rest ih =>
    obtain ⟨x, known, h⟩ := Option.bind_eq_some_iff.mp h
    obtain ⟨more, rfl, inner⟩ := consTo_eq_some.mp h
    obtain ⟨front, rfl, again⟩ := ih inner
    refine ⟨'\\' :: 'U' :: a :: b :: c :: d :: e :: f :: g :: k :: front, rfl, fun r' clear => ?_⟩
    simp only [List.cons_append, longBasicBody, known, again r' clear, Option.bind_some,
      consTo_eq_some]
    exact ⟨more, rfl, rfl⟩
  | case6 joining c rest short long joins ih =>
    have blank := mem_of_joinsLines joins
    have other : ∀ {d}, d ∉ [' ', '\t', '\n', '\r'] → c ≠ d := fun odd same => odd (same ▸ blank)
    obtain ⟨front, whole, again⟩ := ih h
    match front with
    | [] => exact absurd (List.cons.inj whole).1 (other (by decide))
    | _ :: front =>
      cases whole
      refine ⟨'\\' :: c :: front, rfl, fun r' clear => ?_⟩
      have joins' : joinsLines (c :: (front ++ '"' :: '"' :: '"' :: r')) := by
        rwa [← List.cons_append, joinsLines_append _ _ ('"' :: '"' :: r)]
      rw [List.cons_append, List.cons_append, longBasicBody.eq_6, if_pos joins']
      · exact again r' clear
      all_goals
        intros
        exact absurd ‹c = _› (other (by decide))
  | case7 joining c rest short long joins ih =>
    obtain ⟨x, known, h⟩ := Option.bind_eq_some_iff.mp h
    obtain ⟨more, rfl, inner⟩ := consTo_eq_some.mp h
    obtain ⟨front, rfl, again⟩ := ih inner
    refine ⟨'\\' :: c :: front, rfl, fun r' clear => ?_⟩
    have joins' : ¬ joinsLines (c :: (front ++ '"' :: '"' :: '"' :: r')) := by
      rwa [← List.cons_append, joinsLines_append _ _ ('"' :: '"' :: r)]
    rw [List.cons_append, List.cons_append, longBasicBody.eq_6, if_neg joins', known,
      again r' clear, Option.bind_some, consTo_eq_some]
    · exact ⟨more, rfl, rfl⟩
    · rintro _ _ _ _ _ rfl
      cases known
    · rintro _ _ _ _ _ _ _ _ _ rfl
      cases known
  | case8 rest ih =>
    obtain ⟨front, rfl, again⟩ := ih h
    exact ⟨'\r' :: '\n' :: front, rfl, fun r' clear => again r' clear⟩
  | case9 joining rest apart ih =>
    obtain ⟨more, rfl, inner⟩ := consTo_eq_some.mp h
    obtain ⟨front, rfl, again⟩ := ih inner
    refine ⟨'\r' :: '\n' :: front, rfl, fun r' clear => ?_⟩
    rw [List.cons_append, List.cons_append, longBasicBody, if_neg apart, again r' clear]
    rfl
  | case10 rest ih =>
    obtain ⟨front, rfl, again⟩ := ih h
    exact ⟨'\n' :: front, rfl, fun r' clear => again r' clear⟩
  | case11 joining rest apart ih =>
    obtain ⟨more, rfl, inner⟩ := consTo_eq_some.mp h
    obtain ⟨front, rfl, again⟩ := ih inner
    refine ⟨'\n' :: front, rfl, fun r' clear => ?_⟩
    rw [List.cons_append, longBasicBody, if_neg apart, again r' clear]
    rfl
  | case12 joining c rest five four three short long escape carriage newline skip ih =>
    obtain ⟨front, rfl, again⟩ := ih h
    refine ⟨c :: front, rfl, fun r' clear => ?_⟩
    have space : isSpace c := (Bool.and_eq_true_iff.mp skip).2
    have other : ∀ {d}, ¬ isSpace d → c ≠ d := fun solid same => solid (same ▸ space)
    rw [List.cons_append, longBasicBody.eq_9, if_pos skip, again r' clear]
    all_goals
      first
      | exact newline
      | intros; exact absurd ‹c = _› (other (by decide))
  | case13 joining c rest five four three short long escape carriage newline skip textual ih =>
    obtain ⟨more, rfl, inner⟩ := consTo_eq_some.mp h
    obtain ⟨front, rfl, again⟩ := ih inner
    refine ⟨c :: front, rfl, fun r' clear => ?_⟩
    have other : ∀ {d}, ¬ (isTextual d && d != '\\') → c ≠ d :=
      fun odd same => odd (same ▸ textual)
    -- two more quotes would be the first two that were there
    have single : ∀ rest', c = '"' →
        front ++ '"' :: '"' :: '"' :: r' ≠ '"' :: '"' :: rest' := by
      intro rest' quote same
      match front with
      | [] => exact three _ quote rfl
      | [a] => cases same; exact three _ quote rfl
      | a :: b :: front => cases same; exact three _ quote rfl
    rw [List.cons_append, longBasicBody.eq_9, if_neg skip, if_pos textual, again r' clear]
    · rfl
    · exact fun _ quote same => single _ quote same
    · exact fun _ quote same => single _ quote same
    · exact fun _ quote same => single _ quote same
    all_goals
      first
      | exact newline
      | intros; exact absurd ‹c = _› (other (by decide))
  | case14 => cases h
  | case15 => cases h

/-- A line end that is passed over is seen before the string ends. -/
theorem skipNewline_append {s front r : List Char} {q : Char}
    (h : skipNewline s = front ++ q :: q :: r) :
    ∃ c, s = c ++ q :: q :: r ∧
      ∀ r', skipNewline (c ++ q :: q :: r') = front ++ q :: q :: r' := by
  unfold skipNewline at h ⊢
  rcases line : newline? s with _ | rest
  · rw [line, Option.getD_none] at h
    refine ⟨front, h, fun r' => ?_⟩
    have same : (newline? (front ++ q :: q :: r')).isSome = (newline? s).isSome := by
      rw [h]
      rcases front with _ | ⟨a, _ | ⟨b, front⟩⟩ <;>
        simp only [List.nil_append, List.cons_append, isSome_newline?]
    rw [line, Option.isSome_none, Option.isSome_eq_false_iff, Option.isNone_iff_eq_none] at same
    rw [same, Option.getD_none]
  · rw [line] at h
    cases h
    rcases newline?_eq_some line with rfl | rfl
    · exact ⟨'\n' :: front, rfl, fun _ => rfl⟩
    · exact ⟨'\r' :: '\n' :: front, rfl, fun _ => rfl⟩

theorem not_quotes_append {q : Char} {c r r' : List Char} (ne : c ≠ [])
    (other : ∀ rest, c ++ r ≠ q :: q :: rest) (clear : NotAhead q r') (rest : List Char) :
    c ++ r' ≠ q :: q :: rest := by
  intro same
  match c with
  | [] => exact ne rfl
  | [a] => cases same; exact clear q rfl rfl
  | a :: b :: c => cases same; exact other _ rfl

/-- **A string is read again** in front of anything that may follow a value. -/
theorem string?_append {s text r : List Char} (h : string? s = some (text, r)) :
    ∃ c, s = c ++ r ∧ ∀ r', EndsValue r' → string? (c ++ r') = some (text, r') := by
  unfold string? at h
  split at h
  · rename_i rest
    obtain ⟨front, whole, again⟩ := longBasicBody_append h
    obtain ⟨c, rfl, skipped⟩ := skipNewline_append whole
    refine ⟨'"' :: '"' :: '"' :: (c ++ ['"', '"', '"']), by simp, fun r' ends => ?_⟩
    have read := again r' (ends.notAhead (by decide))
    rw [← skipped] at read
    simp only [List.cons_append, List.append_assoc, List.nil_append]
    rw [string?, read]
  · rename_i rest other
    obtain ⟨c, rfl, again⟩ := basicBody_append h
    have ne : c ≠ [] := by
      rintro rfl
      cases again []
    refine ⟨'"' :: c, rfl, fun r' ends => ?_⟩
    have clear := ends.notAhead (q := '"') (by decide)
    rw [List.cons_append, string?.eq_2, again]
    exact fun rest same => not_quotes_append ne (fun rest whole => other rest whole) clear rest same
  · rename_i rest
    obtain ⟨front, whole, again⟩ := longLiteralBody_append h
    obtain ⟨c, rfl, skipped⟩ := skipNewline_append whole
    refine ⟨'\'' :: '\'' :: '\'' :: (c ++ ['\'', '\'', '\'']), by simp, fun r' ends => ?_⟩
    have read := again r' (ends.notAhead (by decide))
    rw [← skipped] at read
    simp only [List.cons_append, List.append_assoc, List.nil_append]
    rw [string?, read]
  · rename_i rest other
    obtain ⟨c, rfl, again⟩ := literalBody_append h
    have ne : c ≠ [] := by
      rintro rfl
      cases again []
    refine ⟨'\'' :: c, rfl, fun r' ends => ?_⟩
    have clear := ends.notAhead (q := '\'') (by decide)
    rw [List.cons_append, string?.eq_4, again]
    exact fun rest same => not_quotes_append ne (fun rest whole => other rest whole) clear rest same
  · cases h

end Patchwork.Toml
