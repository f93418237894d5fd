import VisualBasic.Token.Kind

/-!
# Lexemes

What stands at the head of a text: the kind of the token that begins there and how many characters
it takes, or the trivia (white space, a comment, a continued line) that is skipped. Nothing here
knows where in a source the text stands, so what a lexeme is depends on the text alone.

Main results:

* `Trivia.shape?_pos` and `Lexeme.length_ofText_pos` — trivia and lexemes take at least one
  character, so reading a text piece by piece comes to an end.
-/

namespace VisualBasic

/-! ## Characters -/

namespace Text

/-- White space within a line: space, tab, form feed, no-break space. -/
def isBlank (c : Char) : Bool := c == ' ' || c == '\t' || c == '\x0c' || c == '\u00a0'

/-- A space or a tab: what may stand between `_` and the line end it joins. -/
def isSpaceOrTab (c : Char) : Bool := c == ' ' || c == '\t'

def isLineEnd (c : Char) : Bool := c == '\n' || c == '\r'

/-- A letter that may open a word; words are ASCII. -/
def opensWord (c : Char) : Bool := c.isAlpha || c == '_'

def continuesWord (c : Char) : Bool := c.isAlphanum || c == '_'

/-- The characters that give a name or a number its type when they follow it. -/
def isTypeCharacter (c : Char) : Bool :=
  c == '$' || c == '%' || c == '&' || c == '@' || c == '#' || c == '!'

def isHexDigit (c : Char) : Bool :=
  c.isDigit || ('a' ≤ c && c ≤ 'f') || ('A' ≤ c && c ≤ 'F')

def isOctalDigit (c : Char) : Bool := '0' ≤ c && c ≤ '7'

/-- The letter `x` in either case; `x` is a lower-case ASCII letter. -/
def isLetter (x c : Char) : Bool := c.toLower == x

/-- A suffix that makes a number a floating-point one. -/
def isFloatSuffix (c : Char) : Bool :=
  isLetter 'f' c || isLetter 'r' c || isLetter 'd' c || c == '!' || c == '#' || c == '@'

/-- The letters of the sized integer suffixes. -/
def isSizeSuffix (c : Char) : Bool := isLetter 's' c || isLetter 'i' c || isLetter 'l' c

/-- What may stand between the signs of a date. -/
def isDateCharacter (c : Char) : Bool :=
  c.isDigit || c == '/' || c == '-' || c == ':' || isSpaceOrTab c
    || isLetter 'a' c || isLetter 'p' c || isLetter 'm' c

/-! ## Heads of texts -/

/-- Whether the text begins with a character of the class. -/
def headIs (p : Char → Bool) : List Char → Bool
  | [] => false
  | c :: _ => p c

/-- How many characters at the head are of the class. -/
def countWhile (p : Char → Bool) (text : List Char) : Nat := (text.takeWhile p).length

/-- The length of the line break at the head, zero if there is none. A carriage return alone is no
line break. -/
def lineBreak : List Char → Nat
  | '\n' :: _ => 1
  | '\r' :: '\n' :: _ => 2
  | _ => 0

theorem countWhile_pos {p : Char → Bool} {text : List Char} (h : headIs p text = true) :
    0 < countWhile p text := by
  cases text with
  | nil => exact Bool.noConfusion h
  | cons c rest => simp only [headIs] at h; simp [countWhile, h]

end Text

open Text

/-! ## Trivia -/

/-- What is skipped between tokens. -/
inductive TriviaKind where
  | whitespace | comment | lineContinuation
  deriving DecidableEq, Repr, Inhabited

namespace Trivia

/-- Whether the text begins with the word `REM`, which opens a comment. -/
def opensRemark : List Char → Bool
  | a :: b :: c :: rest =>
    isLetter 'r' a && isLetter 'e' b && isLetter 'm' c
      && !headIs (fun d => continuesWord d || isTypeCharacter d) rest
  | _ => false

/-- The length of a line continuation at the head: `_`, spaces and tabs, a line break. -/
def continuation : List Char → Nat
  | '_' :: rest =>
    let blanks := countWhile isSpaceOrTab rest
    let lineEnd := lineBreak (rest.drop blanks)
    if lineEnd = 0 then 0 else 1 + blanks + lineEnd
  | _ => 0

/-- The kind and the length of the trivia at the head, if the text begins with some. -/
def shape? : List Char → Option (TriviaKind × Nat)
  | [] => none
  | c :: rest =>
    let text := c :: rest
    if isBlank c then some (.whitespace, countWhile isBlank text)
    else if c == '\'' || opensRemark text then
      some (.comment, countWhile (!isLineEnd ·) text)
    else if continuation text = 0 then none
    else some (.lineContinuation, continuation text)

end Trivia

/-! ## Tokens -/

/-- The kind of a token and the number of its characters. -/
structure Lexeme where
  kind : TokenKind
  length : Nat
  deriving DecidableEq, Repr, Inhabited

namespace Lexeme

def ofMark (m : Mark) (length : Nat) : Lexeme := ⟨.mark m, length⟩

/-- An operator that an equals sign directly behind it turns into an assignment; `rest` follows the
operator's own `length` characters. -/
def compound (plain assigning : Mark) (length : Nat) (rest : List Char) : Lexeme :=
  if headIs (· == '=') rest then ofMark assigning (length + 1) else ofMark plain length

/-- A word; a type character behind it makes it a name, whatever its letters. -/
def word (text : List Char) : Lexeme :=
  let length := countWhile continuesWord text
  if headIs isTypeCharacter (text.drop length) then ⟨.identifier, length + 1⟩
  else match Keyword.ofText? (text.take length) with
    | some k => ⟨.keyword k, length⟩
    | none => ⟨.identifier, length⟩

/-- A name in square brackets; without its closing bracket the opening one is no token. -/
def bracketed (rest : List Char) : Lexeme :=
  let length := countWhile (fun c => c != ']' && !isLineEnd c) rest
  if length = 0 || !headIs (· == ']') (rest.drop length) then ⟨.invalid, 1⟩
  else ⟨.identifier, length + 2⟩

/-! ### Numbers -/

/-- The length of an integer's type suffix at the head. -/
def integerSuffix : List Char → Nat
  | [] => 0
  | c :: rest =>
    if isLetter 'u' c && headIs isSizeSuffix rest then 2
    else if isSizeSuffix c || c == '%' || c == '&' then 1 else 0

/-- The length of the fraction at the head: a dot and at least one digit. -/
def fraction : List Char → Nat
  | '.' :: rest => if headIs Char.isDigit rest then 1 + countWhile Char.isDigit rest else 0
  | _ => 0

/-- The length of the exponent at the head: `E`, perhaps a sign, and at least one digit. -/
def exponent : List Char → Nat
  | [] => 0
  | c :: rest =>
    let sign := if headIs (fun d => d == '+' || d == '-') rest then 1 else 0
    let digits := rest.drop sign
    if isLetter 'e' c && headIs Char.isDigit digits then
      1 + sign + countWhile Char.isDigit digits
    else 0

/-- A decimal number. A fraction, an exponent or a suffix of the floating-point types makes it a
floating-point number. -/
def number (text : List Char) : Lexeme :=
  let whole := countWhile Char.isDigit text
  let scale := whole + fraction (text.drop whole)
  let length := scale + exponent (text.drop scale)
  let rest := text.drop length
  if headIs isFloatSuffix rest then ⟨.literal .floatingPoint, length + 1⟩
  else if whole < length then ⟨.literal .floatingPoint, length⟩
  else ⟨.literal .integer, length + integerSuffix rest⟩

/-- What an ampersand opens: a hexadecimal or octal number, or an operator. -/
def ampersand (rest : List Char) : Lexeme :=
  let based (isDigit : Char → Bool) : Lexeme :=
    let digits := rest.drop 1
    let length := countWhile isDigit digits
    ⟨.literal .integer, 2 + length + integerSuffix (digits.drop length)⟩
  if headIs (isLetter 'h') rest && headIs isHexDigit (rest.drop 1) then based isHexDigit
  else if headIs (isLetter 'o') rest && headIs isOctalDigit (rest.drop 1) then based isOctalDigit
  else compound .ampersand .ampersandEqual 1 rest

/-! ### Quoted text, dates and preprocessor lines -/

/-- The text behind an opening quote: how many characters there are up to the closing quote and with
it, and how many characters they denote. A doubled quote denotes one; no text goes on over a line
end. -/
def quotedBody : List Char → Option (Nat × Nat)
  | [] => none
  | '"' :: '"' :: rest => (quotedBody rest).map fun (length, denoted) => (length + 2, denoted + 1)
  | '"' :: _ => some (1, 0)
  | c :: rest =>
    if isLineEnd c then none
    else (quotedBody rest).map fun (length, denoted) => (length + 1, denoted + 1)

/-- A string; one character and the letter `C` behind the closing quote make it a character. An
opening quote without a closing one is no token. -/
def quoted (rest : List Char) : Lexeme :=
  match quotedBody rest with
  | none => ⟨.invalid, 1⟩
  | some (length, denoted) =>
    if denoted = 1 && headIs (isLetter 'c') (rest.drop length) then
      ⟨.literal .character, length + 2⟩
    else ⟨.literal .string, length + 1⟩

/-- What a number sign opens: a date between two signs, or else a preprocessor line. -/
def numberSign (rest : List Char) : Lexeme :=
  let body := rest.takeWhile isDateCharacter
  if body.any (!isSpaceOrTab ·) && headIs (· == '#') (rest.drop body.length) then
    ⟨.literal .date, body.length + 2⟩
  else ⟨.directive, 1 + countWhile (!isLineEnd ·) rest⟩

/-- What `<` opens. -/
def less : List Char → Lexeme
  | '=' :: _ => ofMark .lessEqual 2
  | '>' :: _ => ofMark .notEqual 2
  | '<' :: rest => compound .shiftLeft .shiftLeftEqual 2 rest
  | _ => ofMark .less 1

/-- What `>` opens. -/
def greater : List Char → Lexeme
  | '=' :: _ => ofMark .greaterEqual 2
  | '>' :: rest => compound .shiftRight .shiftRightEqual 2 rest
  | _ => ofMark .greater 1

/-- The lexeme at the head of a text that does not begin with trivia. A dot and a comma take a line
break directly behind them along. -/
def ofText : List Char → Lexeme
  | [] => ⟨.endOfFile, 0⟩
  | c :: rest =>
    let text := c :: rest
    if lineBreak text ≠ 0 then ⟨.newline, lineBreak text⟩
    else if c.isDigit || (c == '.' && headIs Char.isDigit rest) then number text
    else if opensWord c then word text
    else match c with
      | '.' => ofMark .dot (1 + lineBreak rest)
      | ',' => ofMark .comma (1 + lineBreak rest)
      | '"' => quoted rest
      | '#' => numberSign rest
      | '[' => bracketed rest
      | '&' => ampersand rest
      | ':' => ofMark .colon 1
      | '(' => ofMark .leftParen 1
      | ')' => ofMark .rightParen 1
      | '{' => ofMark .leftBrace 1
      | '}' => ofMark .rightBrace 1
      | '=' => ofMark .equal 1
      | '<' => less rest
      | '>' => greater rest
      | '+' => compound .plus .plusEqual 1 rest
      | '-' => compound .minus .minusEqual 1 rest
      | '*' => compound .star .starEqual 1 rest
      | '/' => compound .slash .slashEqual 1 rest
      | '\\' => compound .backslash .backslashEqual 1 rest
      | '^' => compound .caret .caretEqual 1 rest
      | _ => ⟨.invalid, 1⟩

end Lexeme

/-! ## Every step takes something -/

theorem Trivia.headIs_of_opensRemark {text : List Char} (h : opensRemark text = true) :
    headIs (!isLineEnd ·) text = true := by
  match text with
  | a :: _ :: _ :: _ =>
    simp only [opensRemark, Bool.and_eq_true] at h
    have lower : a.toLower = 'r' := beq_iff_eq.1 h.1.1.1
    by_cases end₁ : a = '\n'
    · subst end₁; exact absurd lower (by decide)
    · by_cases end₂ : a = '\r'
      · subst end₂; exact absurd lower (by decide)
      · simp [headIs, isLineEnd, end₁, end₂]

theorem Trivia.shape?_pos {text : List Char} {k : TriviaKind} {n : Nat}
    (h : Trivia.shape? text = some (k, n)) : 0 < n := by
  cases text with
  | nil => simp [Trivia.shape?] at h
  | cons c rest =>
    simp only [Trivia.shape?] at h
    split at h
    · rename_i blank
      obtain ⟨rfl, rfl⟩ := Prod.mk.inj (Option.some.inj h)
      exact countWhile_pos blank
    · split at h
      · rename_i comment
        obtain ⟨rfl, rfl⟩ := Prod.mk.inj (Option.some.inj h)
        refine countWhile_pos ?_
        rcases Bool.or_eq_true_iff.1 comment with quote | remark
        · rw [beq_iff_eq.1 quote]; rfl
        · exact headIs_of_opensRemark remark
      · split at h
        · simp at h
        · obtain ⟨rfl, rfl⟩ := Prod.mk.inj (Option.some.inj h)
          omega

theorem Lexeme.length_word_pos {text : List Char} (h : headIs opensWord text = true) :
    0 < (Lexeme.word text).length := by
  have pos : 0 < countWhile continuesWord text := by
    cases text with
    | nil => exact Bool.noConfusion h
    | cons c rest =>
      refine countWhile_pos ?_
      simp only [headIs, opensWord, continuesWord, Char.isAlphanum, Bool.or_eq_true] at h ⊢
      rcases h with h | h <;> simp [h]
  simp only [Lexeme.word]
  split
  · exact Nat.succ_pos _
  · split <;> exact pos

theorem Lexeme.length_number_pos {c : Char} {rest : List Char}
    (h : (c.isDigit || (c == '.' && headIs Char.isDigit rest)) = true) :
    0 < (Lexeme.number (c :: rest)).length := by
  have pos : 0 < countWhile Char.isDigit (c :: rest) +
      fraction ((c :: rest).drop (countWhile Char.isDigit (c :: rest))) := by
    rcases Bool.or_eq_true_iff.1 h with digit | dot
    · have whole : 0 < countWhile Char.isDigit (c :: rest) := countWhile_pos digit
      omega
    · obtain ⟨hc, hr⟩ := Bool.and_eq_true_iff.1 dot
      rw [beq_iff_eq.1 hc]
      have none : countWhile Char.isDigit ('.' :: rest) = 0 := by simp [countWhile]
      rw [none, List.drop_zero, fraction, if_pos hr]
      omega
  simp only [Lexeme.number]
  split
  · exact Nat.succ_pos _
  · split <;> simp <;> omega

theorem Lexeme.length_compound_pos (plain assigning : Mark) {length : Nat} (rest : List Char)
    (h : 0 < length) : 0 < (compound plain assigning length rest).length := by
  simp only [compound, ofMark]
  split <;> simp [h]

theorem Lexeme.length_quoted_pos (rest : List Char) : 0 < (quoted rest).length := by
  simp only [quoted]
  split
  · exact Nat.one_pos
  · split <;> exact Nat.succ_pos _

theorem Lexeme.length_numberSign_pos (rest : List Char) : 0 < (numberSign rest).length := by
  simp only [numberSign]
  split
  · exact Nat.succ_pos _
  · exact Nat.lt_add_right _ Nat.one_pos

theorem Lexeme.length_bracketed_pos (rest : List Char) : 0 < (bracketed rest).length := by
  simp only [bracketed]
  split <;> exact Nat.succ_pos _

theorem Lexeme.length_ampersand_pos (rest : List Char) : 0 < (ampersand rest).length := by
  simp only [ampersand]
  split
  · simp only; omega
  · split
    · simp only; omega
    · exact length_compound_pos _ _ _ Nat.one_pos

theorem Lexeme.length_less_pos (rest : List Char) : 0 < (less rest).length := by
  unfold less
  split
  · exact Nat.succ_pos _
  · exact Nat.succ_pos _
  · exact length_compound_pos _ _ _ (Nat.succ_pos _)
  · exact Nat.one_pos

theorem Lexeme.length_greater_pos (rest : List Char) : 0 < (greater rest).length := by
  unfold greater
  split
  · exact Nat.succ_pos _
  · exact length_compound_pos _ _ _ (Nat.succ_pos _)
  · exact Nat.one_pos

theorem Lexeme.length_ofText_pos (c : Char) (rest : List Char) :
    0 < (Lexeme.ofText (c :: rest)).length := by
  simp only [Lexeme.ofText]
  split
  · exact Nat.pos_of_ne_zero ‹_›
  split
  · exact length_number_pos ‹_›
  split
  · exact length_word_pos ‹_›
  split
  case h_3 => exact length_quoted_pos _
  case h_4 => exact length_numberSign_pos _
  case h_5 => exact length_bracketed_pos _
  case h_6 => exact length_ampersand_pos _
  case h_13 => exact length_less_pos _
  case h_14 => exact length_greater_pos _
  case h_15 | h_16 | h_17 | h_18 | h_19 | h_20 => exact length_compound_pos _ _ _ Nat.one_pos
  case h_1 | h_2 => exact Nat.lt_add_right _ Nat.one_pos
  all_goals exact Nat.one_pos

end VisualBasic
