import Patchwork.Toml.Literal
import Patchwork.Proofs.Toml.Value

/-! Strings that are read as they were written.  Every text is read back from the literal that
stands for it, whatever it holds (`string?_stringLiteral`), and so is an entry that holds a literal
(`readable_stringLiteral`). -/

namespace Patchwork.Toml

/-! ## Escapes -/

/-- An escape with four digits gives its character back. -/
theorem scalar?_upperHexDigit : ∀ n < 128,
    scalar? ['0', '0', upperHexDigit (n / 16), upperHexDigit (n % 16)] = some (Char.ofNat n) := by
  decide +kernel

theorem toNat_lt_of_needsEscape {c : Char} (h : needsEscape c) : c.toNat < 128 := by
  simp only [needsEscape, isTextual, isPlain, Bool.not_eq_true', Bool.or_eq_false_iff,
    Bool.and_eq_false_iff, decide_eq_false_iff_not, beq_eq_false_iff_ne] at h
  have small := h.1.2.2
  rw [UInt32.le_iff_toNat_le] at small
  exact Nat.lt_of_not_le small

/-- The characters that are written as escapes. -/
def Escaped (c : Char) : Prop := needsEscape c ∨ c ∈ ['\t', '\n', '\\', '"']

/-- What an escape is: of one letter, or with four digits. -/
theorem escapeOf_cases {c : Char} (h : Escaped c) :
    (∃ x, escapeOf c = ['\\', x] ∧ x ∈ ['b', 't', 'n', 'f', 'r', '\\', '"'] ∧ escape? x = some c) ∨
    ∃ x y, escapeOf c = ['\\', 'u', '0', '0', x, y] ∧ scalar? ['0', '0', x, y] = some c := by
  by_cases known : c ∈ ['\x08', '\t', '\n', '\x0c', '\r', '\\', '"']
  · left
    simp only [List.mem_cons, List.not_mem_nil, or_false] at known
    rcases known with rfl | rfl | rfl | rfl | rfl | rfl | rfl <;>
      exact ⟨_, rfl, by decide, rfl⟩
  · right
    have other : c ∉ ['\t', '\n', '\\', '"'] := fun h => known (List.subset_def.mp (by decide) h)
    have digits := scalar?_upperHexDigit c.toNat (toNat_lt_of_needsEscape (h.resolve_right other))
    rw [Char.ofNat_toNat] at digits
    simp only [List.mem_cons, List.not_mem_nil, or_false, not_or] at known
    obtain ⟨b, tab, n, f, r, backslash, quote⟩ := known
    refine ⟨_, _, ?_, digits⟩
    rw [escapeOf, if_neg b, if_neg tab, if_neg n, if_neg f, if_neg r, if_neg backslash,
      if_neg quote]

/-- **An escape is read** as the character that it stands for. -/
theorem basicBody_escapeOf {c : Char} (h : Escaped c) (t : List Char) :
    basicBody (escapeOf c ++ t) = consTo c (basicBody t) := by
  rcases escapeOf_cases h with ⟨x, text, letter, known⟩ | ⟨x, y, text, digits⟩
  · rw [text]
    simp only [List.mem_cons, List.not_mem_nil, or_false] at letter
    rcases letter with rfl | rfl | rfl | rfl | rfl | rfl | rfl <;> cases known <;> rfl
  · rw [text]
    exact congrArg (Option.bind · fun x => consTo x (basicBody t)) digits

theorem longBasicBody_escapeOf {c : Char} (h : Escaped c) (t : List Char) :
    longBasicBody false (escapeOf c ++ t) = consTo c (longBasicBody false t) := by
  rcases escapeOf_cases h with ⟨x, text, letter, known⟩ | ⟨x, y, text, digits⟩
  · rw [text]
    simp only [List.mem_cons, List.not_mem_nil, or_false] at letter
    rcases letter with rfl | rfl | rfl | rfl | rfl | rfl | rfl <;> cases known <;> rfl
  · rw [text]
    exact congrArg (Option.bind · fun x => consTo x (longBasicBody false t)) digits

/-! ## Strings on one line -/

theorem isTextual_of_needsEscape {c : Char} (h : ¬ needsEscape c) (other : c ≠ '\n') : isTextual c := by
  simpa [needsEscape, other] using h

theorem basicBody_plain {c : Char} (textual : isTextual c) (quote : c ≠ '"') (backslash : c ≠ '\\')
    (t : List Char) : basicBody (c :: t) = consTo c (basicBody t) := by
  rw [basicBody.eq_5 _ _ quote, if_pos (by simp [textual, backslash])]
  all_goals
    intros
    exact absurd ‹c = '\\'› backslash

/-- What stands for a character: an escape, or the character itself where it is plain. -/
theorem escaped_or_plain {c : Char} (quote : c ≠ '"') (long : Bool) :
    (∀ free run s, escapedBody long free run (c :: s) = escapeOf c ++ escapedBody long free 0 s) ∧
        Escaped c ∨
      (∀ free run s, escapedBody long free run (c :: s) = c :: escapedBody long free 0 s) ∧
        c ≠ '\\' ∧ (isTextual c ∨ c = '\n' ∧ long) := by
  by_cases kept : (c = '\n' ∧ long = true) ∨
      ¬ (needsEscape c = true ∨ c = '\t' ∨ c = '\n' ∨ c = '\\')
  · right
    refine ⟨fun free run s => by rw [escapedBody, if_neg quote, if_pos kept], ?_, ?_⟩
    · rintro rfl
      revert kept
      decide +revert
    · rcases kept with newline | plain
      · exact .inr newline
      · simp only [not_or] at plain
        exact .inl (isTextual_of_needsEscape plain.1 plain.2.2.1)
  · left
    refine ⟨fun free run s => by rw [escapedBody, if_neg quote, if_neg kept], ?_⟩
    have escaped := Decidable.not_not.mp (not_or.mp kept).2
    simpa [Escaped, quote] using escaped

/-- **A text is read** from its escapes. -/
theorem basicBody_escapedBody (s r : List Char) :
    basicBody (escapedBody false 0 0 s ++ '"' :: r) = some (s, r) := by
  induction s with
  | nil => rfl
  | cons c s ih =>
    by_cases quote : c = '"'
    · subst quote
      have step : escapedBody false 0 0 ('"' :: s) = escapeOf '"' ++ escapedBody false 0 0 s := rfl
      rw [step, List.append_assoc, basicBody_escapeOf (.inr (by decide)), ih]
      rfl
    · rcases escaped_or_plain quote false with ⟨step, escaped⟩ | ⟨step, backslash, textual⟩
      · rw [step, List.append_assoc, basicBody_escapeOf escaped, ih]
        rfl
      · rw [step, List.cons_append, basicBody_plain (by simpa using textual) quote backslash, ih]
        rfl

/-- A literal text is read as it stands. -/
theorem literalBody_self {s : List Char} (all : ∀ c ∈ s, isTextual c ∧ c ≠ '\'') (r : List Char) :
    literalBody (s ++ '\'' :: r) = some (s, r) := by
  induction s with
  | nil => rfl
  | cons c s ih =>
    obtain ⟨⟨textual, quote⟩, others⟩ := List.forall_mem_cons.mp all
    rw [List.cons_append, literalBody.eq_2 _ _ quote, if_pos textual, ih others]
    rfl

/-! ## Strings over several lines -/

/-- A quote that is not followed by two more stands for itself. -/
theorem longBasicBody_quote {t : List Char} (free : ∀ rest, t ≠ '"' :: '"' :: rest) :
    longBasicBody false ('"' :: t) = consTo '"' (longBasicBody false t) := by
  rw [longBasicBody.eq_9, if_neg (by decide), if_pos (by decide)]
  · exact fun _ _ same => free _ same
  · exact fun _ _ same => free _ same
  · exact fun _ _ same => free _ same
  all_goals simp

theorem longBasicBody_plain {c : Char} (quote : c ≠ '"') (backslash : c ≠ '\\')
    (textual : isTextual c ∨ c = '\n') (t : List Char) :
    longBasicBody false (c :: t) = consTo c (longBasicBody false t) := by
  by_cases newline : c = '\n'
  · subst newline
    rfl
  · have textual := textual.resolve_right newline
    have carriage : c ≠ '\r' := by
      rintro rfl
      exact absurd textual (by decide)
    rw [longBasicBody.eq_9, if_neg (by simp), if_pos (by simp [textual, backslash])]
    all_goals
      intros
      first
      | exact absurd ‹c = '"'› quote
      | exact absurd ‹c = '\\'› backslash
      | exact absurd ‹c = '\r'› carriage
      | exact absurd ‹c = '\n'› newline

section
variable {long : Bool} {free run : Nat} {s t : List Char}

/-- Where the body of a string starts with a quote, its text does, and the quote is free. -/
theorem of_escapedBody_eq_quote (h : escapedBody long free run s = '"' :: t) :
    ∃ s', s = '"' :: s' ∧ run < free ∧ t = escapedBody long free (run + 1) s' := by
  match s with
  | [] => cases h
  | c :: s =>
    by_cases quote : c = '"'
    · subst quote
      by_cases few : run < free
      · rw [escapedBody, if_pos rfl, if_pos few] at h
        exact ⟨s, rfl, few, (List.cons.inj h).2.symm⟩
      · rw [escapedBody, if_pos rfl, if_neg few] at h
        cases h
    · rcases escaped_or_plain quote long with ⟨step, escaped⟩ | ⟨step, -, -⟩
      · rw [step] at h
        rcases escapeOf_cases escaped with ⟨x, text, -⟩ | ⟨x, y, text, -⟩ <;> rw [text] at h <;>
          cases h
      · rw [step] at h
        exact absurd (List.cons.inj h).1 quote

theorem eq_nil_of_escapedBody (h : escapedBody long free run s = []) : s = [] := by
  match s with
  | [] => rfl
  | c :: s =>
    by_cases quote : c = '"'
    · subst quote
      rw [escapedBody, if_pos rfl] at h
      split at h <;> cases h
    · rcases escaped_or_plain quote long with ⟨step, escaped⟩ | ⟨step, -, -⟩
      · rw [step] at h
        rcases escapeOf_cases escaped with ⟨x, text, -⟩ | ⟨x, y, text, -⟩ <;> rw [text] at h <;>
          cases h
      · rw [step] at h
        cases h

end

section
variable {r : List Char} (clear : NotAhead '"' r)
include clear

/-- The closing quotes, behind none, one or two that belong to the text. -/
theorem longBasicBody_close :
    longBasicBody false ('"' :: '"' :: '"' :: r) = some ([], r) ∧
      longBasicBody false ('"' :: '"' :: '"' :: '"' :: r) = some (['"'], r) ∧
      longBasicBody false ('"' :: '"' :: '"' :: '"' :: '"' :: r) = some (['"', '"'], r) := by
  have apart : ∀ rest, r ≠ '"' :: rest := by
    rintro rest rfl
    exact clear _ rfl rfl
  refine ⟨?_, ?_, rfl⟩
  · rw [longBasicBody.eq_3]
    · exact fun rest => apart _
    · exact fun rest => apart _
  · rw [longBasicBody.eq_2]
    exact fun rest => apart _

/-- **A text over several lines is read** from its escapes; up to two quotes in a row stand for
themselves, also in front of the closing ones. -/
theorem longBasicBody_escapedBody (run : Nat) (s : List Char) :
    longBasicBody false (escapedBody true 2 run s ++ '"' :: '"' :: '"' :: r) = some (s, r) := by
  obtain ⟨none, one, two⟩ := longBasicBody_close clear
  induction s generalizing run with
  | nil => exact none
  | cons c s ih =>
    by_cases quote : c = '"'
    · subst quote
      by_cases free : run < 2
      · rw [escapedBody, if_pos rfl, if_pos free, List.cons_append]
        by_cases more : ∃ rest,
            escapedBody true 2 (run + 1) s ++ '"' :: '"' :: '"' :: r = '"' :: '"' :: rest
        -- two more quotes are the closing ones, but for one that may belong to the text
        · obtain ⟨rest, same⟩ := more
          rcases body : escapedBody true 2 (run + 1) s with _ | ⟨x, t⟩
          · cases eq_nil_of_escapedBody body
            exact one
          · rw [body] at same
            cases (List.cons.inj same).1
            obtain ⟨s', rfl, free', rfl⟩ := of_escapedBody_eq_quote body
            rcases body' : escapedBody true 2 (run + 1 + 1) s' with _ | ⟨x, t⟩
            · cases eq_nil_of_escapedBody body'
              exact two
            · rw [body'] at same
              cases (List.cons.inj (List.cons.inj same).2).1
              obtain ⟨-, -, third, -⟩ := of_escapedBody_eq_quote body'
              omega
        · rw [longBasicBody_quote fun rest same => more ⟨rest, same⟩, ih]
          rfl
      · rw [escapedBody, if_pos rfl, if_neg free, List.append_assoc,
          longBasicBody_escapeOf (.inr (by decide)), ih]
        rfl
    · rcases escaped_or_plain quote true with ⟨step, escaped⟩ | ⟨step, backslash, textual⟩
      · rw [step, List.append_assoc, longBasicBody_escapeOf escaped, ih]
        rfl
      · rw [step, List.cons_append,
          longBasicBody_plain quote backslash (by simpa using textual), ih]
        rfl

end

theorem le_longestRun (c : Char) (run longest : Nat) (s : List Char) :
    max run longest ≤ longestRun c run longest s := by
  induction s generalizing run longest with
  | nil => exact Nat.le_refl _
  | cons d s ih =>
    rw [longestRun]
    split
    · have onward := ih (run + 1) longest
      omega
    · have onward := ih 0 (max run longest)
      omega

theorem longLiteralBody_quote {t : List Char} (free : ∀ rest, t ≠ '\'' :: '\'' :: rest) :
    longLiteralBody ('\'' :: t) = consTo '\'' (longLiteralBody t) := by
  rw [longLiteralBody.eq_6, if_pos (by decide)]
  · exact fun _ _ same => free _ same
  · exact fun _ _ same => free _ same
  · exact fun _ _ same => free _ same
  all_goals simp

theorem longLiteralBody_plain {c : Char} (quote : c ≠ '\'') (solid : ¬ needsEscape c)
    (t : List Char) : longLiteralBody (c :: t) = consTo c (longLiteralBody t) := by
  by_cases newline : c = '\n'
  · subst newline
    rfl
  · have textual := isTextual_of_needsEscape solid newline
    have carriage : c ≠ '\r' := by
      rintro rfl
      exact absurd textual (by decide)
    rw [longLiteralBody.eq_6, if_pos textual]
    all_goals
      intros
      first
      | exact absurd ‹c = '\''› quote
      | exact absurd ‹c = '\r'› carriage
      | exact absurd ‹c = '\n'› newline

section
variable {r : List Char} (clear : NotAhead '\'' r)
include clear

theorem longLiteralBody_close :
    longLiteralBody ('\'' :: '\'' :: '\'' :: r) = some ([], r) ∧
      longLiteralBody ('\'' :: '\'' :: '\'' :: '\'' :: r) = some (['\''], r) ∧
      longLiteralBody ('\'' :: '\'' :: '\'' :: '\'' :: '\'' :: r) = some (['\'', '\''], r) := by
  have apart : ∀ rest, r ≠ '\'' :: rest := by
    rintro rest rfl
    exact clear _ rfl rfl
  refine ⟨?_, ?_, rfl⟩
  · rw [longLiteralBody.eq_3]
    · exact fun rest => apart _
    · exact fun rest => apart _
  · rw [longLiteralBody.eq_2]
    exact fun rest => apart _

/-- **A literal text over several lines is read** as it stands, if no more than two quotes stand in
a row. -/
theorem longLiteralBody_self {run longest : Nat} {s : List Char} (all : ∀ c ∈ s, ¬ needsEscape c)
    (few : longestRun '\'' run longest s ≤ 2) :
    longLiteralBody (s ++ '\'' :: '\'' :: '\'' :: r) = some (s, r) := by
  obtain ⟨none, one, two⟩ := longLiteralBody_close clear
  induction s generalizing run longest with
  | nil => exact none
  | cons c s ih =>
    obtain ⟨solid, others⟩ := List.forall_mem_cons.mp all
    rw [longestRun] at few
    by_cases quote : c = '\''
    · subst quote
      rw [if_pos rfl] at few
      rw [List.cons_append]
      by_cases more : ∃ rest, s ++ '\'' :: '\'' :: '\'' :: r = '\'' :: '\'' :: rest
      · obtain ⟨rest, same⟩ := more
        match s with
        | [] => exact one
        | [x] =>
          cases (List.cons.inj same).1
          exact two
        | x :: y :: s =>
          cases (List.cons.inj same).1
          cases (List.cons.inj (List.cons.inj same).2).1
          have three := le_longestRun '\'' (run + 1 + 1 + 1) longest s
          simp only [longestRun, if_true] at few
          omega
      · rw [longLiteralBody_quote fun rest same => more ⟨rest, same⟩, ih others few]
        rfl
    · rw [if_neg quote] at few
      rw [List.cons_append, longLiteralBody_plain quote solid, ih others few]
      rfl

end

/-! ## Literals -/

theorem newline?_of_isTextual {c : Char} (textual : isTextual c) (t : List Char) :
    newline? (c :: t) = none := by
  unfold newline?
  split
  · rename_i same
    cases same
    exact absurd textual (by decide)
  · rename_i same
    cases same
    exact absurd textual (by decide)
  · rfl

theorem newline?_escapedBody {free run : Nat} {s : List Char} (single : '\n' ∉ s) (r : List Char) :
    newline? (escapedBody true free run s ++ '"' :: r) = none := by
  match s with
  | [] => rfl
  | c :: s =>
    by_cases quote : c = '"'
    · subst quote
      rw [escapedBody, if_pos rfl]
      split <;> rfl
    · rcases escaped_or_plain quote true with ⟨step, escaped⟩ | ⟨step, -, textual⟩
      · rw [step]
        rcases escapeOf_cases escaped with ⟨x, text, -⟩ | ⟨x, y, text, -⟩ <;> rw [text] <;> rfl
      · have newline : c ≠ '\n' := fun same => single (same ▸ List.mem_cons_self)
        rw [step, List.cons_append]
        exact newline?_of_isTextual (by simpa [newline] using textual) _

/-- A line end in front of a text that has one is passed over. -/
theorem skipNewline_opening {s t : List Char} (single : '\n' ∉ s → newline? t = none) :
    skipNewline ((if s.contains '\n' then ['\n'] else []) ++ t) = t := by
  by_cases several : '\n' ∈ s
  · rw [if_pos (List.contains_iff_mem.mpr several)]
    rfl
  · rw [if_neg (by simpa using several), List.nil_append, skipNewline, single several]
    rfl

/-- The form that is chosen holds the text, if it has no escapes. -/
theorem holds_of (s : List Char) :
    (StringForm.of s = .literal → StringForm.literal.holds s) ∧
      (StringForm.of s = .longLiteral → StringForm.longLiteral.holds s) := by
  unfold StringForm.of
  constructor <;>
  · intro chosen
    repeat' split at chosen
    all_goals first | assumption | cases chosen

/-- **A text is read back from the literal that stands for it**, where a value ends behind it. -/
theorem string?_stringLiteral (s : String) {r : List Char} (ends : EndsValue r) :
    string? ((stringLiteral s).toList ++ r) = some (s.toList, r) := by
  obtain ⟨literal, longLiteral⟩ := holds_of s.toList
  rw [stringLiteral, String.toList_ofList]
  generalize s.toList = cs at literal longLiteral ⊢
  have apart : ∀ q ∉ endMarks, ∀ rest, r ≠ q :: rest := fun q odd rest same =>
    ends.notAhead odd q (by rw [same]; rfl) rfl
  have long : ∀ (body : List Char) (form : StringForm), form.isLong → (form.quotes ++
      (if form.isLong && cs.contains '\n' then ['\n'] else []) ++ body ++ form.quotes) ++ r =
      form.quotes ++ ((if cs.contains '\n' then ['\n'] else []) ++ (body ++ (form.quotes ++ r))) := by
    intro body form long
    simp only [long, Bool.true_and, List.append_assoc]
  rcases form : StringForm.of cs with _ | _ | _ | _
  · have text : (StringForm.basic.quotes ++ [] ++ stringBody .basic cs ++ StringForm.basic.quotes) ++ r =
        '"' :: (escapedBody false 0 0 cs ++ '"' :: r) := by
      simp [StringForm.quotes, stringBody]
    refine (congrArg string? text).trans ?_
    rw [string?.eq_2, basicBody_escapedBody]
    intro rest same
    rcases body : escapedBody false 0 0 cs with _ | ⟨x, t⟩
    · rw [body] at same
      exact apart '"' (by decide) _ (List.cons.inj same).2
    · rw [body] at same
      cases (List.cons.inj same).1
      obtain ⟨-, -, free, -⟩ := of_escapedBody_eq_quote body
      exact Nat.not_lt_zero _ free
  · have holds := literal form
    rw [StringForm.holds, List.all_eq_true] at holds
    have text : (StringForm.literal.quotes ++ [] ++ stringBody .literal cs ++
        StringForm.literal.quotes) ++ r = '\'' :: (cs ++ '\'' :: r) := by
      simp [StringForm.quotes, stringBody]
    refine (congrArg string? text).trans ?_
    rw [string?.eq_4, literalBody_self]
    · intro c hc
      have held := holds c hc
      simp only [Bool.and_eq_true, Bool.not_eq_true', bne_iff_ne] at held
      exact ⟨isTextual_of_needsEscape (by simp [held]) held.2, held.1.2⟩
    · intro rest same
      cases cs with
      | nil => exact apart '\'' (by decide) _ (List.cons.inj same).2
      | cons c cs =>
        have held := holds c List.mem_cons_self
        rw [(List.cons.inj same).1] at held
        exact absurd held (by decide)
  · rw [long _ .longBasic rfl]
    have opening := @skipNewline_opening cs
      (escapedBody true 2 0 cs ++ '"' :: '"' :: '"' :: r) fun single => newline?_escapedBody single _
    refine Eq.trans ?_ (longBasicBody_escapedBody (ends.notAhead (by decide)) 0 cs)
    exact congrArg (longBasicBody false) opening
  · have holds := longLiteral form
    rw [StringForm.holds, Bool.and_eq_true, List.all_eq_true, decide_eq_true_eq] at holds
    obtain ⟨all, few⟩ := holds
    have solid : ∀ c ∈ cs, ¬ needsEscape c := fun c hc => by simpa using all c hc
    rw [long _ .longLiteral rfl]
    have opening := @skipNewline_opening cs (cs ++ '\'' :: '\'' :: '\'' :: r) fun single => by
      cases cs with
      | nil => rfl
      | cons c cs =>
        refine newline?_of_isTextual (isTextual_of_needsEscape (solid c List.mem_cons_self) ?_) _
        exact fun same => single (same ▸ List.mem_cons_self)
    refine Eq.trans ?_ (longLiteralBody_self (ends.notAhead (by decide)) solid few)
    exact congrArg longLiteralBody opening

theorem stringLiteral_starts (s : String) :
    ∃ q t, (stringLiteral s).toList = q :: t ∧ (q = '"' ∨ q = '\'') := by
  rw [stringLiteral, String.toList_ofList]
  cases StringForm.of s.toList
  · exact ⟨'"', _, rfl, .inl rfl⟩
  · exact ⟨'\'', _, rfl, .inr rfl⟩
  · exact ⟨'"', _, rfl, .inl rfl⟩
  · exact ⟨'\'', _, rfl, .inr rfl⟩

/-- **An entry that holds a literal is read** as the text that the literal stands for. -/
theorem readable_stringLiteral (depth : Nat) (text : String) {around : Margin}
    (blank : Blank around.before) :
    Entry.Readable (value? depth) ⟨.str text, stringLiteral text, around⟩ := by
  obtain ⟨q, t, starts, quote⟩ := stringLiteral_starts text
  refine ⟨⟨q, t, starts, ?_⟩, fun r ends => ?_, blank⟩
  · rcases quote with rfl | rfl <;> exact startsValue_of_mem (by decide)
  · have read := string?_stringLiteral text ends
    have whole : value? depth ((stringLiteral text).toList ++ r) =
        value?.string ((stringLiteral text).toList ++ r) := by
      rw [starts, value?.eq_def]
      rcases quote with rfl | rfl <;> rfl
    rw [whole, value?.string, read]
    refine ⟨consumed ((stringLiteral text).toList ++ r) r, ?_⟩
    simp only [Option.bind_eq_bind, Option.bind_some, String.ofList_toList]
    rfl

end Patchwork.Toml
