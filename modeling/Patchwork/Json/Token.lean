import Patchwork.Json.Basic
/-!
The tokens of a JSON text. The text is read character by character; a state says what the last
characters were part of.
-/
namespace Patchwork.Json

/-- A token. A string that is not the text of anything has no value. -/
inductive Token where
  | openArray
  | closeArray
  | openObject
  | closeObject
  | comma
  | colon
  | str (text : Option String)
  | num (text : String)
  | word (value : Json)

/-- A piece of a string: a character, or a 16-bit unit that was given as an escape. -/
inductive Piece where
  | char (c : Char)
  | unit (value : Nat)

/-- Whether a unit is the first half of a surrogate pair. -/
def isHighHalf (u : Nat) : Bool := 0xd800 ≤ u && u < 0xdc00

/-- Whether a unit is the second half of a surrogate pair. -/
def isLowHalf (u : Nat) : Bool := 0xdc00 ≤ u && u < 0xe000

/-- The text of some pieces; a half that has no other half beside it makes it none. -/
def textOf : List Piece → Option (List Char)
  | [] => some []
  | .char c :: rest => (textOf rest).map (c :: ·)
  | .unit u :: .unit v :: rest =>
    if isHighHalf u then
      if isLowHalf v then
        (textOf rest).map (Char.ofNat (0x10000 + (u - 0xd800) * 0x400 + (v - 0xdc00)) :: ·)
      else none
    else if isLowHalf u then none
    else (textOf (.unit v :: rest)).map (Char.ofNat u :: ·)
  | .unit u :: rest =>
    if isHighHalf u || isLowHalf u then none else (textOf rest).map (Char.ofNat u :: ·)

/-- What the characters just read are part of. Pieces and characters are the latest first. -/
inductive LexState where
  | between
  | inString (done : List Piece)
  | inEscape (done : List Piece)
  | inUnit (done : List Piece) (left : Nat) (value : Nat)
  | inBare (done : List Char)

/-- A state and the tokens before it, the latest first. -/
structure Lexer where
  state : LexState
  done : List Token

/-- Blanks between tokens. -/
def isSpace (c : Char) : Bool := c == ' ' || c == '\n' || c == '\t' || c == '\r'

/-- The characters of numbers and of the words for null and the truth values. -/
def isBare (c : Char) : Bool := c.isAlphanum || c == '-' || c == '+' || c == '.'

/-- The value of a hexadecimal digit. -/
def hexValue? (c : Char) : Option Nat :=
  if '0' ≤ c && c ≤ '9' then some (c.toNat - '0'.toNat)
  else if 'a' ≤ c && c ≤ 'f' then some (c.toNat - 'a'.toNat + 10)
  else if 'A' ≤ c && c ≤ 'F' then some (c.toNat - 'A'.toNat + 10)
  else none

/-- One digit at least, and digits alone. -/
def areDigits (cs : List Char) : Bool := !cs.isEmpty && cs.all Char.isDigit

/-- The part of a number after its whole part: a fraction, an exponent, both or neither. -/
def isFractionAndExponent (cs : List Char) : Bool :=
  let (fraction, tail) : Option (List Char) × List Char := match cs with
    | '.' :: rest => (some (rest.takeWhile Char.isDigit), rest.dropWhile Char.isDigit)
    | _ => (none, cs)
  (fraction.map areDigits).getD true &&
    match tail with
    | [] => true
    | c :: rest =>
      (c == 'e' || c == 'E') &&
        match rest with
        | '-' :: digits => areDigits digits
        | '+' :: digits => areDigits digits
        | digits => areDigits digits

/-- Whether characters are a number: its whole part has no needless zero in front. -/
def isNumber (cs : List Char) : Bool :=
  let body := match cs with
    | '-' :: rest => rest
    | _ => cs
  let whole := body.takeWhile Char.isDigit
  areDigits whole && (whole.length == 1 || whole.head? != some '0') &&
    isFractionAndExponent (body.dropWhile Char.isDigit)

/-- The token that a run of bare characters is. -/
def bareToken? (cs : List Char) : Option Token :=
  if cs = "null".toList then some (.word .null)
  else if cs = "true".toList then some (.word (.bool true))
  else if cs = "false".toList then some (.word (.bool false))
  else if isNumber cs then some (.num (String.ofList cs))
  else none

/-- Takes a character that is part of nothing begun before. -/
def Lexer.start? (done : List Token) (c : Char) : Option Lexer :=
  if isSpace c then some ⟨.between, done⟩
  else if isBare c then some ⟨.inBare [c], done⟩
  else match c with
    | '"' => some ⟨.inString [], done⟩
    | '[' => some ⟨.between, .openArray :: done⟩
    | ']' => some ⟨.between, .closeArray :: done⟩
    | '\x7b' => some ⟨.between, .openObject :: done⟩
    | '\x7d' => some ⟨.between, .closeObject :: done⟩
    | ',' => some ⟨.between, .comma :: done⟩
    | ':' => some ⟨.between, .colon :: done⟩
    | _ => none

/-- The character that a one-letter escape stands for. -/
def escape? : Char → Option Char
  | '"' => some '"'
  | '\\' => some '\\'
  | '/' => some '/'
  | 'b' => some '\x08'
  | 'f' => some '\x0c'
  | 'n' => some '\n'
  | 'r' => some '\r'
  | 't' => some '\t'
  | _ => none

/-- Takes one character. -/
def Lexer.next? (l : Lexer) (c : Char) : Option Lexer :=
  match l.state with
  | .between => Lexer.start? l.done c
  | .inString done =>
    if c = '"' then some ⟨.between, .str ((textOf done.reverse).map String.ofList) :: l.done⟩
    else if c = '\\' then some ⟨.inEscape done, l.done⟩
    else if c.toNat < 0x20 then none
    else some ⟨.inString (.char c :: done), l.done⟩
  | .inEscape done =>
    if c = 'u' then some ⟨.inUnit done 4 0, l.done⟩
    else (escape? c).map fun d => ⟨.inString (.char d :: done), l.done⟩
  | .inUnit done left value =>
    (hexValue? c).map fun d =>
      let value := 16 * value + d
      if left ≤ 1 then ⟨.inString (.unit value :: done), l.done⟩
      else ⟨.inUnit done (left - 1) value, l.done⟩
  | .inBare done =>
    if isBare c then some ⟨.inBare (c :: done), l.done⟩
    else (bareToken? done.reverse).bind fun t => Lexer.start? (t :: l.done) c

/-- The tokens when the text ends here. -/
def Lexer.finish? (l : Lexer) : Option (List Token) :=
  match l.state with
  | .between => some l.done.reverse
  | .inBare done => (bareToken? done.reverse).map fun t => (t :: l.done).reverse
  | _ => none

/-- The tokens of a text. -/
def tokens? (s : String) : Option (List Token) :=
  (s.toList.foldlM Lexer.next? ⟨.between, []⟩).bind Lexer.finish?

end Patchwork.Json
