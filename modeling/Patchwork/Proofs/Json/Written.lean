import Patchwork.Json.Parse
import Patchwork.Json.Print

/-! JSON that is read as it was written.  A value that is made of texts, arrays and objects alone
(`Json.Textual`) is written as characters that give tokens (`Lexes`) from which the reader makes the
value again (`ReadsAs`), however deep it is and whatever its texts hold (`parse?_pretty`). -/

namespace Patchwork.Json

/-- A value that is made of texts. -/
inductive Textual : Json → Prop
  | str (text : String) : Textual (.str text)
  | arr {items : List Json} (each : ∀ j ∈ items, Textual j) : Textual (.arr items)
  | obj {members : List (String × Json)} (each : ∀ m ∈ members, Textual m.2) :
    Textual (.obj members)

theorem Textual.strs (texts : List String) : Textual (Json.strs texts) := by
  refine .arr fun j listed => ?_
  obtain ⟨text, -, rfl⟩ := List.mem_map.mp listed
  exact .str text

/-! ## Strings -/

theorem hexValue?_hexDigit : ∀ n < 16, hexValue? (hexDigit n) = some n := by decide

/-- **A written character is read as a piece** that stands for it. -/
theorem exists_piece (c : Char) : ∃ piece : Piece,
    (∀ done tokens, (escapeChar c).foldlM Lexer.next? ⟨.inString done, tokens⟩ =
      some ⟨.inString (piece :: done), tokens⟩) ∧
    ∀ pieces, textOf (piece :: pieces) = (textOf pieces).map (c :: ·) := by
  have plain : ∀ d : Char, ∀ pieces, textOf (.char d :: pieces) = (textOf pieces).map (d :: ·) :=
    fun d pieces => by rw [textOf]
  unfold escapeChar
  split
  · subst c
    exact ⟨.char '"', fun _ _ => rfl, plain '"'⟩
  split
  · subst c
    exact ⟨.char '\\', fun _ _ => rfl, plain '\\'⟩
  split
  · subst c
    exact ⟨.char '\x08', fun _ _ => rfl, plain '\x08'⟩
  split
  · subst c
    exact ⟨.char '\x0c', fun _ _ => rfl, plain '\x0c'⟩
  split
  · subst c
    exact ⟨.char '\n', fun _ _ => rfl, plain '\n'⟩
  split
  · subst c
    exact ⟨.char '\r', fun _ _ => rfl, plain '\r'⟩
  split
  · subst c
    exact ⟨.char '\t', fun _ _ => rfl, plain '\t'⟩
  split
  · rename_i control
    -- a control character is written by its number, which is half of no surrogate pair
    refine ⟨.unit c.toNat, fun done tokens => ?_, fun pieces => ?_⟩
    · have first := hexValue?_hexDigit (c.toNat / 16) (by omega)
      have second := hexValue?_hexDigit (c.toNat % 16) (by omega)
      have zero : hexValue? '0' = some 0 := by decide
      simp [List.foldlM_cons, Lexer.next?, first, second, zero]
      omega
    · have high : isHighHalf c.toNat = false := by simp [isHighHalf]; omega
      have low : isLowHalf c.toNat = false := by simp [isLowHalf]; omega
      cases pieces with
      | nil => simp [textOf, high, low, Char.ofNat_toNat]
      | cons piece pieces => cases piece <;> simp [textOf, high, low, Char.ofNat_toNat]
  · rename_i quote backslash _ _ _ _ _ printed
    refine ⟨.char c, fun done tokens => ?_, plain c⟩
    simp [List.foldlM_cons, Lexer.next?, quote, backslash, printed]

theorem exists_pieces (cs : List Char) : ∃ pieces : List Piece,
    (∀ done tokens, (cs.flatMap escapeChar).foldlM Lexer.next? ⟨.inString done, tokens⟩ =
      some ⟨.inString (pieces.reverse ++ done), tokens⟩) ∧ textOf pieces = some cs := by
  induction cs with
  | nil => exact ⟨[], fun _ _ => rfl, rfl⟩
  | cons c cs ih =>
    obtain ⟨piece, lexed, text⟩ := exists_piece c
    obtain ⟨pieces, lexed', text'⟩ := ih
    refine ⟨piece :: pieces, fun done tokens => ?_, by rw [text, text']; rfl⟩
    rw [List.flatMap_cons, List.foldlM_append, lexed, Option.bind_eq_bind, Option.bind_some, lexed',
      List.reverse_cons, List.append_assoc, List.singleton_append]

/-! ## Characters that give tokens -/

/-- **Characters that give tokens**, between two tokens. -/
def Lexes (cs : List Char) (ts : List Token) : Prop :=
  ∀ done, cs.foldlM Lexer.next? ⟨.between, done⟩ = some ⟨.between, ts.reverse ++ done⟩

variable {cs cs' : List Char} {ts ts' : List Token} {l : Layout}

theorem Lexes.nil : Lexes [] [] := fun _ => rfl

theorem Lexes.append (h : Lexes cs ts) (h' : Lexes cs' ts') : Lexes (cs ++ cs') (ts ++ ts') := by
  intro done
  rw [List.foldlM_append, h, Option.bind_eq_bind, Option.bind_some, h', List.reverse_append,
    List.append_assoc]

theorem Lexes.blanks (h : ∀ c ∈ cs, isSpace c) : Lexes cs [] := by
  induction cs with
  | nil => exact .nil
  | cons c cs ih =>
    obtain ⟨first, others⟩ := List.forall_mem_cons.mp h
    intro done
    have step : Lexer.next? ⟨.between, done⟩ c = some ⟨.between, done⟩ := if_pos first
    rw [List.foldlM_cons, step, Option.bind_eq_bind, Option.bind_some, ih others]

theorem lexes_quoted (s : String) : Lexes (quoted s) [.str (some s)] := by
  intro done
  obtain ⟨pieces, lexed, text⟩ := exists_pieces s.toList
  have opened : Lexer.next? ⟨.between, done⟩ '"' = some ⟨.inString [], done⟩ := rfl
  rw [quoted, List.foldlM_cons, opened, Option.bind_eq_bind, Option.bind_some, List.foldlM_append,
    lexed, Option.bind_eq_bind, Option.bind_some, List.append_nil]
  have closed : Lexer.next? ⟨.inString pieces.reverse, done⟩ '"' =
      some ⟨.between, .str ((textOf pieces.reverse.reverse).map String.ofList) :: done⟩ := rfl
  rw [List.foldlM_cons, closed, List.reverse_reverse, text, Option.map_some, String.ofList_toList]
  rfl

/-! ## Values -/

/-- Whether a layout puts only blanks between tokens. -/
structure Layout.Spaced (l : Layout) : Prop where
  newline : ∀ level, ∀ c ∈ l.newline level, isSpace c
  afterName : Lexes l.afterName [.colon]

theorem Layout.spaced_pretty : Layout.pretty.Spaced := by
  refine ⟨fun level c listed => ?_, fun _ => rfl⟩
  rcases List.mem_cons.mp listed with rfl | blank
  · decide
  · rw [(List.mem_replicate.mp blank).2]
    decide

/-- **A value that is read as it was written**, by the tokens in between. -/
structure ReadsAs (l : Layout) (j : Json) (ts : List Token) : Prop where
  lexes : ∀ level, Lexes (chars l level j) ts
  read : ∀ r : Reader, r.expect = .value ∨ r.expect = .valueOrClose →
    ts.foldlM Reader.next? r = some (r.give j)

theorem read_append {r r' r'' : Reader} (h : ts.foldlM Reader.next? r = some r')
    (h' : ts'.foldlM Reader.next? r' = some r'') : (ts ++ ts').foldlM Reader.next? r = some r'' := by
  rw [List.foldlM_append, h]
  exact h'

/-- The items of an array behind the first one. -/
theorem exists_reads_items (spaced : l.Spaced) {items : List Json}
    (each : ∀ j ∈ items, ∃ ts, ReadsAs l j ts) : ∃ ts : List Token,
    (∀ level, Lexes (itemChars l level items) ts) ∧
    ∀ done opened, ts.foldlM Reader.next? ⟨.array done :: opened, .commaOrClose, .null⟩ =
      some ⟨.array (items.reverse ++ done) :: opened, .commaOrClose, .null⟩ := by
  induction items with
  | nil => exact ⟨[], fun _ => by rw [itemChars]; exact .nil, fun _ _ => rfl⟩
  | cons j items ih =>
    obtain ⟨⟨ts, first⟩, others⟩ := List.forall_mem_cons.mp each
    obtain ⟨ts', lexes, read⟩ := ih others
    refine ⟨[.comma] ++ (ts ++ ts'), fun level => ?_, fun done opened => ?_⟩
    · have comma : Lexes [','] [.comma] := fun _ => rfl
      rw [itemChars]
      exact comma.append (((Lexes.blanks (spaced.newline level)).append
        (first.lexes level)).append (lexes level))
    · have comma : [Token.comma].foldlM Reader.next? ⟨.array done :: opened, .commaOrClose, .null⟩ =
          some ⟨.array done :: opened, .value, .null⟩ := rfl
      have item : ts.foldlM Reader.next? ⟨.array done :: opened, .value, .null⟩ =
          some ⟨.array (j :: done) :: opened, .commaOrClose, .null⟩ := first.read _ (.inl rfl)
      have behind := read (j :: done) opened
      rw [List.reverse_cons, List.append_assoc]
      exact read_append comma (read_append item behind)

/-- The members of an object behind the first one. -/
theorem exists_reads_members (spaced : l.Spaced) {members : List (String × Json)}
    (each : ∀ m ∈ members, ∃ ts, ReadsAs l m.2 ts) : ∃ ts : List Token,
    (∀ level, Lexes (memberChars l level members) ts) ∧
    ∀ done opened, ts.foldlM Reader.next? ⟨.object done none :: opened, .commaOrClose, .null⟩ =
      some ⟨.object ((members.map fun m => (some m.1, m.2)).reverse ++ done) none :: opened,
        .commaOrClose, .null⟩ := by
  induction members with
  | nil => exact ⟨[], fun _ => by rw [memberChars]; exact .nil, fun _ _ => rfl⟩
  | cons m members ih =>
    obtain ⟨⟨ts, first⟩, others⟩ := List.forall_mem_cons.mp each
    obtain ⟨ts', lexes, read⟩ := ih others
    refine ⟨[.comma, .str (some m.1), .colon] ++ (ts ++ ts'), fun level => ?_,
      fun done opened => ?_⟩
    · have comma : Lexes [','] [.comma] := fun _ => rfl
      rw [memberChars]
      exact comma.append (((((Lexes.blanks (spaced.newline level)).append (lexes_quoted m.1)).append
        spaced.afterName).append (first.lexes level)).append (lexes level))
    · have named : [Token.comma, .str (some m.1), .colon].foldlM Reader.next?
          ⟨.object done none :: opened, .commaOrClose, .null⟩ =
          some ⟨.object done (some m.1) :: opened, .value, .null⟩ := rfl
      have item : ts.foldlM Reader.next? ⟨.object done (some m.1) :: opened, .value, .null⟩ =
          some ⟨.object ((some m.1, m.2) :: done) none :: opened, .commaOrClose, .null⟩ :=
        first.read _ (.inl rfl)
      have behind := read ((some m.1, m.2) :: done) opened
      rw [List.map_cons, List.reverse_cons, List.append_assoc, List.singleton_append]
      exact read_append named (read_append item behind)

/-- Members with names are an object. -/
theorem objectOf_named (members : List (String × Json)) :
    objectOf (members.map fun m => (some m.1, m.2)) = .obj members := by
  have all : (members.map fun m => (some m.1, m.2)).mapM
      (fun m : Option String × Json => m.1.map fun name => (name, m.2)) = some members := by
    induction members with
    | nil => rfl
    | cons m members ih =>
      rw [List.map_cons, List.mapM_cons, ih]
      rfl
  rw [objectOf, all]

/-- **Every value that is made of texts is read as it was written.** -/
theorem exists_readsAs (spaced : l.Spaced) {j : Json} (h : Textual j) : ∃ ts, ReadsAs l j ts := by
  induction h with
  | str text =>
    refine ⟨[.str (some text)], fun level => ?_, fun r expected => ?_⟩
    · rw [chars]
      exact lexes_quoted text
    · rcases r with ⟨opened, expect, result⟩
      rcases expected with rfl | rfl <;> rfl
  | @arr items each ih =>
    have openArray : Lexes ['['] [.openArray] := fun _ => rfl
    have closeArray : Lexes [']'] [.closeArray] := fun _ => rfl
    have opens : ∀ r : Reader, r.expect = .value ∨ r.expect = .valueOrClose →
        [Token.openArray].foldlM Reader.next? r =
          some ⟨.array [] :: r.opened, .valueOrClose, .null⟩ := by
      rintro ⟨opened, expect, result⟩ (rfl | rfl) <;> rfl
    cases items with
    | nil =>
      refine ⟨[.openArray, .closeArray], fun level => ?_, fun r expected => ?_⟩
      · rw [chars]
        exact openArray.append closeArray
      · exact read_append (opens r expected) rfl
    | cons j items =>
      obtain ⟨⟨ts, first⟩, others⟩ := List.forall_mem_cons.mp ih
      obtain ⟨ts', lexes, read⟩ := exists_reads_items spaced others
      refine ⟨[.openArray] ++ (ts ++ ts' ++ [.closeArray]), fun level => ?_, fun r expected => ?_⟩
      · have front := ((Lexes.blanks (spaced.newline (level + 1))).append
          (first.lexes (level + 1))).append (lexes (level + 1))
        have back := (Lexes.blanks (spaced.newline level)).append closeArray
        rw [chars, List.append_assoc _ (l.newline level)]
        exact openArray.append (front.append back)
      · have item : ts.foldlM Reader.next? ⟨.array [] :: r.opened, .valueOrClose, .null⟩ =
            some ⟨.array [j] :: r.opened, .commaOrClose, .null⟩ := first.read _ (.inr rfl)
        have behind := read [j] r.opened
        have closes : [Token.closeArray].foldlM Reader.next?
            ⟨.array (items.reverse ++ [j]) :: r.opened, .commaOrClose, .null⟩ =
            some (r.give (.arr (items.reverse ++ [j]).reverse)) := rfl
        rw [← List.reverse_cons, List.reverse_reverse, List.reverse_cons] at closes
        exact read_append (opens r expected) (read_append (read_append item behind) closes)
  | @obj members each ih =>
    have openObject : Lexes ['\x7b'] [.openObject] := fun _ => rfl
    have closeObject : Lexes ['\x7d'] [.closeObject] := fun _ => rfl
    have opens : ∀ r : Reader, r.expect = .value ∨ r.expect = .valueOrClose →
        [Token.openObject].foldlM Reader.next? r =
          some ⟨.object [] none :: r.opened, .nameOrClose, .null⟩ := by
      rintro ⟨opened, expect, result⟩ (rfl | rfl) <;> rfl
    cases members with
    | nil =>
      refine ⟨[.openObject, .closeObject], fun level => ?_, fun r expected => ?_⟩
      · rw [chars]
        exact openObject.append closeObject
      · exact read_append (opens r expected) rfl
    | cons m members =>
      obtain ⟨⟨ts, first⟩, others⟩ := List.forall_mem_cons.mp ih
      obtain ⟨ts', lexes, read⟩ := exists_reads_members spaced others
      refine ⟨[.openObject, .str (some m.1), .colon] ++ (ts ++ ts' ++ [.closeObject]),
        fun level => ?_, fun r expected => ?_⟩
      · have front := ((((Lexes.blanks (spaced.newline (level + 1))).append
          (lexes_quoted m.1)).append spaced.afterName).append (first.lexes (level + 1))).append
          (lexes (level + 1))
        have back := (Lexes.blanks (spaced.newline level)).append closeObject
        rw [chars, List.append_assoc _ (l.newline level)]
        exact openObject.append (front.append back)
      · have named : [Token.openObject, .str (some m.1), .colon].foldlM Reader.next? r =
            some ⟨.object [] (some m.1) :: r.opened, .value, .null⟩ := read_append (opens r expected) rfl
        have item : ts.foldlM Reader.next? ⟨.object [] (some m.1) :: r.opened, .value, .null⟩ =
            some ⟨.object [(some m.1, m.2)] none :: r.opened, .commaOrClose, .null⟩ :=
          first.read _ (.inl rfl)
        have behind := read [(some m.1, m.2)] r.opened
        have closes : [Token.closeObject].foldlM Reader.next?
            ⟨.object ((members.map fun m => (some m.1, m.2)).reverse ++ [(some m.1, m.2)]) none ::
              r.opened, .commaOrClose, .null⟩ = some (r.give (objectOf
                ((members.map fun m => (some m.1, m.2)).reverse ++ [(some m.1, m.2)]).reverse)) := rfl
        rw [List.reverse_append, List.reverse_reverse, List.reverse_singleton, List.singleton_append,
          ← List.map_cons (f := fun m : String × Json => (some m.1, m.2)), objectOf_named] at closes
        exact read_append named (read_append (read_append item behind) closes)

/-- **What is laid out on several lines is read again.** -/
theorem parse?_pretty {j : Json} (h : Textual j) : parse? j.pretty = some j := by
  obtain ⟨ts, reads⟩ := exists_readsAs Layout.spaced_pretty h
  have lexed : tokens? j.pretty = some ts := by
    rw [tokens?, pretty, String.toList_ofList, reads.lexes 0 [], Option.bind_some, Lexer.finish?,
      List.append_nil, List.reverse_reverse]
  rw [parse?, lexed, Option.bind_eq_bind, Option.bind_some, reads.read _ (.inl rfl)]
  rfl

end Patchwork.Json
