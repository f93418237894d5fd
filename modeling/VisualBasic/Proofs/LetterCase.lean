import VisualBasic.Proofs.Lines
import VisualBasic.Text.Case

/-!
# Letter case

The case of ASCII letters does not matter to the scanner. Every class of characters that a reader
asks for has both cases of a letter in it or neither, so each reader takes as much of a text as of
the same text in lower case and finds the same there. What a letter begins is a word, whatever its
case, so no letter is at fault, and the characters of both texts are of the same sizes; hence the
pieces of both have the same spans and points.

Main results:

* `caseless_of_letters` — a class is blind to case if it is for each of the letters.
* `Trivia.shape?_foldCase` and `Lexeme.ofText_foldCase` — what stands at the head of a text.
* `TokenStream.ofText_foldCase` — the stream of a text.
-/

namespace VisualBasic

open Text

-- ---------------------------------------------------------------------------
-- Characters and classes
-- ---------------------------------------------------------------------------

namespace Text

/-- The letters that have a lower case. -/
def capitals : List Char := "ABCDEFGHIJKLMNOPQRSTUVWXYZ".toList

/-- The letters between the first and the last one are those in the row. -/
theorem mem_capitals {c : Char} (h : 'A'.val ≤ c.val ∧ c.val ≤ 'Z'.val) : c ∈ capitals := by
  have hall : ∀ n : Fin 26, Char.ofNat (n + 65) ∈ capitals := by decide
  have hlow : 65 ≤ c.toNat := h.1
  have hhigh : c.toNat ≤ 90 := h.2
  have hmem := hall ⟨c.toNat - 65, by omega⟩
  rwa [show c.toNat - 65 + 65 = c.toNat by omega, Char.ofNat_toNat] at hmem

/-- What is no capital stays as it is. -/
theorem toLower_eq_or (c : Char) : c.toLower = c ∨ c ∈ capitals := by
  by_cases h : 'A'.val ≤ c.val ∧ c.val ≤ 'Z'.val
  · exact .inr (mem_capitals h)
  · exact .inl (dif_neg h)

/-- What holds of all capitals is checked letter by letter. -/
theorem forall_capitals {p : Char → Prop} [DecidablePred p] (h : capitals.all (p ·) = true) :
    ∀ c ∈ capitals, p c := by
  intro c hc
  exact of_decide_eq_true (List.all_eq_true.1 h c hc)

/-- The class has both cases of a letter in it or neither. -/
def Caseless (p : Char → Bool) : Prop := ∀ c, p c.toLower = p c

theorem caseless_of_letters {p : Char → Bool}
    (h : capitals.all (fun c => p c.toLower = p c) = true) :
    Caseless p := by
  intro c
  rcases toLower_eq_or c with hc | hc
  · rw [hc]
  · exact forall_capitals h c hc

/-- For each class of the scanner it is enough to look at the capitals. -/
theorem caseless_isDigit : Caseless Char.isDigit := caseless_of_letters (by decide)

theorem caseless_isBlank : Caseless isBlank := caseless_of_letters (by decide)

theorem caseless_isSpaceOrTab : Caseless isSpaceOrTab := caseless_of_letters (by decide)

theorem caseless_isLineEnd : Caseless isLineEnd := caseless_of_letters (by decide)

theorem caseless_continuesWord : Caseless continuesWord := caseless_of_letters (by decide)

theorem caseless_isTypeCharacter : Caseless isTypeCharacter := caseless_of_letters (by decide)

theorem caseless_isHexDigit : Caseless isHexDigit := caseless_of_letters (by decide)

theorem caseless_isOctalDigit : Caseless isOctalDigit := caseless_of_letters (by decide)

theorem caseless_isFloatSuffix : Caseless isFloatSuffix := caseless_of_letters (by decide)

theorem caseless_isSizeSuffix : Caseless isSizeSuffix := caseless_of_letters (by decide)

theorem caseless_isDateCharacter : Caseless isDateCharacter := caseless_of_letters (by decide)

/-- Lower case is the same in lower case. -/
theorem toLower_toLower (c : Char) : c.toLower.toLower = c.toLower := by
  have hall : ∀ c ∈ capitals, c.toLower.toLower = c.toLower := forall_capitals (by decide)
  rcases toLower_eq_or c with hc | hc
  · rw [hc, hc]
  · exact hall c hc

/-- A letter that is looked for in either case is found in either case. -/
theorem caseless_isLetter (x : Char) : Caseless (isLetter x) := by
  intro c
  rw [isLetter, isLetter, toLower_toLower]

/-- A character that is no letter is the lower case of itself alone. -/
theorem caseless_beq {d : Char} (h : capitals.all (fun c => (c.toLower == d) = (c == d)) = true) :
    Caseless (· == d) :=
  caseless_of_letters h

/-- A character that is no letter is found in lower case where it stands, and nowhere else. -/
theorem toLower_eq_iff {d : Char} (h : capitals.all (fun c => (c.toLower == d) = (c == d)) = true)
    (c : Char) : c.toLower = d ↔ c = d := by
  have hcase : (c.toLower == d) = (c == d) := caseless_beq h c
  rw [← beq_iff_eq, hcase, beq_iff_eq]

/-- Both cases of a letter take the same room in the text. -/
theorem utf8Size_toLower (c : Char) : c.toLower.utf8Size = c.utf8Size := by
  have hall : ∀ c ∈ capitals, c.toLower.utf8Size = c.utf8Size := forall_capitals (by decide)
  rcases toLower_eq_or c with hc | hc
  · rw [hc]
  · exact hall c hc

end Text

-- ---------------------------------------------------------------------------
-- Texts in lower case
-- ---------------------------------------------------------------------------

namespace Text

@[simp]
theorem foldCase_nil : foldCase [] = [] := rfl

@[simp]
theorem foldCase_cons (c : Char) (rest : List Char) :
    foldCase (c :: rest) = c.toLower :: foldCase rest := rfl

/-- Texts are put in lower case character by character, so they may be cut before or after. -/
@[simp]
theorem foldCase_drop (n : Nat) (text : List Char) :
    (foldCase text).drop n = foldCase (text.drop n) :=
  List.map_drop.symm

@[simp]
theorem foldCase_take (n : Nat) (text : List Char) :
    (foldCase text).take n = foldCase (text.take n) :=
  List.map_take.symm

theorem foldCase_foldCase (text : List Char) : foldCase (foldCase text) = foldCase text := by
  rw [foldCase, foldCase, List.map_map]
  exact List.map_congr_left fun c _ => toLower_toLower c

/-- So spans are the same. -/
theorem byteLength_foldCase (text : List Char) : byteLength (foldCase text) = byteLength text := by
  induction text with
  | nil => rfl
  | cons c rest ih => rw [foldCase_cons, byteLength, byteLength, utf8Size_toLower, ih]

section

variable {p : Char → Bool} (hp : Caseless p) (text : List Char)

include hp

/-- A class that is blind to case is found at the head of both texts or of neither. -/
theorem headIs_foldCase : headIs p (foldCase text) = headIs p text := by
  cases text with
  | nil => rfl
  | cons c rest => exact hp c

theorem takeWhile_foldCase : (foldCase text).takeWhile p = foldCase (text.takeWhile p) := by
  have hcomp : p ∘ Char.toLower = p := funext hp
  rw [foldCase, List.takeWhile_map, hcomp]
  rfl

/-- As many characters of the class stand at the head. -/
theorem countWhile_foldCase : countWhile p (foldCase text) = countWhile p text := by
  rw [countWhile, takeWhile_foldCase hp, length_foldCase, countWhile]

theorem any_foldCase : (foldCase text).any p = text.any p := by
  have hcomp : p ∘ Char.toLower = p := funext hp
  rw [foldCase, List.any_map, hcomp]

end

/-- No letter breaks a line. -/
theorem lineBreak_foldCase (text : List Char) : lineBreak (foldCase text) = lineBreak text := by
  cases text with
  | nil => rfl
  | cons c rest =>
    rw [foldCase_cons, lineBreak_cons, lineBreak_cons, headIs_foldCase (caseless_beq (by decide))]
    simp only [toLower_eq_iff (d := '\n') (by decide), toLower_eq_iff (d := '\r') (by decide)]

end Text

-- ---------------------------------------------------------------------------
-- Trivia
-- ---------------------------------------------------------------------------

namespace Trivia

/-- The word that opens a remark is known in either case. -/
theorem opensRemark_foldCase (text : List Char) :
    opensRemark (foldCase text) = opensRemark text := by
  have htail : Caseless fun d => continuesWord d || isTypeCharacter d :=
    caseless_of_letters (by decide)
  match text with
  | [] => rfl
  | [_] => rfl
  | [_, _] => rfl
  | a :: b :: c :: rest =>
    simp only [foldCase_cons, opensRemark, caseless_isLetter _ a, caseless_isLetter _ b,
      caseless_isLetter _ c, headIs_foldCase htail]

/-- A continuation begins with its mark; the blanks and the line break behind it follow. -/
theorem continuation_cons (c : Char) (rest : List Char) : continuation (c :: rest) =
    if c = '_' then
      if lineBreak (rest.drop (countWhile isSpaceOrTab rest)) = 0 then 0
      else 1 + countWhile isSpaceOrTab rest + lineBreak (rest.drop (countWhile isSpaceOrTab rest))
    else 0 := by
  by_cases hc : c = '_'
  · subst hc
    rfl
  · simp [continuation, hc]

/-- None of these is a letter. -/
theorem continuation_foldCase (text : List Char) :
    continuation (foldCase text) = continuation text := by
  cases text with
  | nil => rfl
  | cons c rest =>
    simp only [foldCase_cons, continuation_cons, countWhile_foldCase caseless_isSpaceOrTab,
      foldCase_drop, lineBreak_foldCase, toLower_eq_iff (d := '_') (by decide)]

/-- The trivia at the head of a text are the same in lower case. -/
theorem shape?_foldCase (text : List Char) : shape? (foldCase text) = shape? text := by
  have hcomment : Caseless fun c => !isLineEnd c := caseless_of_letters (by decide)
  cases text with
  | nil => rfl
  | cons c rest =>
    have hblanks := countWhile_foldCase caseless_isBlank (c :: rest)
    have hremark := opensRemark_foldCase (c :: rest)
    have hcontinued := continuation_foldCase (c :: rest)
    have hcount := countWhile_foldCase hcomment (c :: rest)
    have hquote : (c.toLower == '\'') = (c == '\'') := caseless_beq (by decide) c
    rw [foldCase_cons] at *
    simp only [shape?, caseless_isBlank c, hblanks, hremark, hcontinued, hcount, hquote]

end Trivia

-- ---------------------------------------------------------------------------
-- Lexemes
-- ---------------------------------------------------------------------------

namespace Lexeme

theorem compound_foldCase (plain assigning : Mark) (length : Nat) (rest : List Char) :
    compound plain assigning length (foldCase rest) = compound plain assigning length rest := by
  rw [compound, compound, headIs_foldCase (caseless_beq (by decide))]

/-- A word ends at the same place, and keywords are looked up in lower case. -/
theorem word_foldCase (text : List Char) : word (foldCase text) = word text := by
  have hkeyword (text : List Char) : Keyword.ofText? (foldCase text) = Keyword.ofText? text :=
    Keyword.ofText?_congr (foldCase_foldCase text)
  simp only [word, countWhile_foldCase caseless_continuesWord, foldCase_drop, foldCase_take,
    headIs_foldCase caseless_isTypeCharacter, hkeyword]

/-- A name between brackets may hold letters of either case. -/
theorem bracketed_foldCase (rest : List Char) : bracketed (foldCase rest) = bracketed rest := by
  have hname : Caseless fun c => c != ']' && !isLineEnd c := caseless_of_letters (by decide)
  have hclosing : Caseless (· == ']') := caseless_beq (by decide)
  simp only [bracketed, countWhile_foldCase hname, foldCase_drop, headIs_foldCase hclosing]

-- ---------------------------------------------------------------------------
-- Numbers
-- ---------------------------------------------------------------------------

/-- The letters behind a number are looked at in lower case. -/
theorem integerSuffix_foldCase (text : List Char) :
    integerSuffix (foldCase text) = integerSuffix text := by
  have hmark : Caseless fun c => isSizeSuffix c || c == '%' || c == '&' :=
    caseless_of_letters (by decide)
  cases text with
  | nil => rfl
  | cons c rest =>
    simp only [foldCase_cons, integerSuffix, caseless_isLetter _ c,
      headIs_foldCase caseless_isSizeSuffix, hmark c]

/-- A fraction begins with a point and a digit. -/
theorem fraction_cons (c : Char) (rest : List Char) : fraction (c :: rest) =
    if c = '.' then
      if headIs Char.isDigit rest then 1 + countWhile Char.isDigit rest else 0
    else 0 := by
  by_cases hc : c = '.'
  · subst hc
    rfl
  · simp [fraction, hc]

theorem fraction_foldCase (text : List Char) : fraction (foldCase text) = fraction text := by
  cases text with
  | nil => rfl
  | cons c rest =>
    simp only [foldCase_cons, fraction_cons, headIs_foldCase caseless_isDigit,
      countWhile_foldCase caseless_isDigit, toLower_eq_iff (d := '.') (by decide)]

theorem exponent_foldCase (text : List Char) : exponent (foldCase text) = exponent text := by
  have hsign : Caseless fun d => d == '+' || d == '-' := caseless_of_letters (by decide)
  cases text with
  | nil => rfl
  | cons c rest =>
    simp only [foldCase_cons, exponent, caseless_isLetter _ c, headIs_foldCase hsign, foldCase_drop,
      headIs_foldCase caseless_isDigit, countWhile_foldCase caseless_isDigit]

/-- Digits, the point, the exponent and the letters behind them. -/
theorem number_foldCase (text : List Char) : number (foldCase text) = number text := by
  simp only [number, countWhile_foldCase caseless_isDigit, foldCase_drop, fraction_foldCase,
    exponent_foldCase, headIs_foldCase caseless_isFloatSuffix, integerSuffix_foldCase]

/-- The letter behind an ampersand is looked at in lower case. -/
theorem ampersand_foldCase (rest : List Char) : ampersand (foldCase rest) = ampersand rest := by
  simp only [ampersand, foldCase_drop, headIs_foldCase (caseless_isLetter _),
    headIs_foldCase caseless_isHexDigit, headIs_foldCase caseless_isOctalDigit,
    countWhile_foldCase caseless_isHexDigit, countWhile_foldCase caseless_isOctalDigit,
    integerSuffix_foldCase, compound_foldCase]

-- ---------------------------------------------------------------------------
-- Quoted text, dates and preprocessor lines
-- ---------------------------------------------------------------------------

/-- Only quotes and line ends matter between quotes. -/
theorem quotedBody_foldCase (text : List Char) : quotedBody (foldCase text) = quotedBody text := by
  have hquote : Caseless (· == '"') := caseless_beq (by decide)
  induction hlength : text.length using Nat.strongRecOn generalizing text with
  | _ length ih =>
  cases text with
  | nil => rfl
  | cons c rest =>
    have hrest := ih rest.length (by simp [← hlength]) rest rfl
    have htail : quotedBody (foldCase rest).tail = quotedBody rest.tail := by
      cases rest with
      | nil => rfl
      | cons d rest =>
        refine ih rest.length ?_ rest rfl
        simp only [← hlength, List.length_cons]
        omega
    simp only [foldCase_cons, quotedBody_cons, headIs_foldCase hquote, hrest, htail,
      caseless_isLineEnd c, toLower_eq_iff (d := '"') (by decide)]

theorem quoted_foldCase (rest : List Char) : quoted (foldCase rest) = quoted rest := by
  simp only [quoted, quotedBody_foldCase, foldCase_drop, headIs_foldCase (caseless_isLetter _)]

/-- What stands between number signs is a date in either case. -/
theorem numberSign_foldCase (rest : List Char) : numberSign (foldCase rest) = numberSign rest := by
  have hinner : Caseless fun c => !isSpaceOrTab c := caseless_of_letters (by decide)
  have hline : Caseless fun c => !isLineEnd c := caseless_of_letters (by decide)
  have hsign : Caseless (· == '#') := caseless_beq (by decide)
  simp only [numberSign, takeWhile_foldCase caseless_isDateCharacter, any_foldCase hinner,
    length_foldCase, foldCase_drop, headIs_foldCase hsign, countWhile_foldCase hline]

-- ---------------------------------------------------------------------------
-- The lexeme at the head
-- ---------------------------------------------------------------------------

/-- The marks that begin with a less sign, by what follows it. -/
theorem less_cons (c : Char) (rest : List Char) : less (c :: rest) =
    if c = '=' then ofMark .lessEqual 2
    else if c = '>' then ofMark .notEqual 2
    else if c = '<' then compound .shiftLeft .shiftLeftEqual 2 rest
    else ofMark .less 1 := by
  unfold less
  split <;> simp_all

theorem less_foldCase (rest : List Char) : less (foldCase rest) = less rest := by
  cases rest with
  | nil => rfl
  | cons c rest =>
    simp only [foldCase_cons, less_cons, compound_foldCase, toLower_eq_iff (d := '=') (by decide),
      toLower_eq_iff (d := '>') (by decide), toLower_eq_iff (d := '<') (by decide)]

/-- The marks that begin with a greater sign. -/
theorem greater_cons (c : Char) (rest : List Char) : greater (c :: rest) =
    if c = '=' then ofMark .greaterEqual 2
    else if c = '>' then compound .shiftRight .shiftRightEqual 2 rest
    else ofMark .greater 1 := by
  unfold greater
  split <;> simp_all

theorem greater_foldCase (rest : List Char) : greater (foldCase rest) = greater rest := by
  cases rest with
  | nil => rfl
  | cons c rest =>
    simp only [foldCase_cons, greater_cons, compound_foldCase,
      toLower_eq_iff (d := '=') (by decide), toLower_eq_iff (d := '>') (by decide)]

/-- What a line break or a number does not begin with, but a word does. -/
def beginsWord (c : Char) : Bool :=
  c != '\n' && c != '\r' && !(c.isDigit || c == '.') && opensWord c

/-- Where a word begins, nothing else is looked for. -/
theorem ofText_of_beginsWord {c : Char} (h : beginsWord c = true) (rest : List Char) :
    ofText (c :: rest) = word (c :: rest) := by
  simp only [beginsWord, Bool.and_eq_true, bne_iff_ne, Bool.not_eq_true', Bool.or_eq_false_iff] at h
  obtain ⟨⟨⟨hfeed, hreturn⟩, hdigit, hdot⟩, hopens⟩ := h
  have hbreak : lineBreak (c :: rest) = 0 := by
    rw [lineBreak_cons, if_neg hfeed, if_neg fun h => hreturn h.1]
  simp [ofText, hbreak, hdigit, hdot, hopens]

/-- A letter begins a word. -/
theorem ofText_of_mem_capitals {c : Char} (hc : c ∈ capitals) (rest : List Char) :
    ofText (c :: rest) = word (c :: rest) ∧
      ofText (c.toLower :: rest) = word (c.toLower :: rest) := by
  have hall : ∀ c ∈ capitals, beginsWord c = true ∧ beginsWord c.toLower = true :=
    forall_capitals (by decide)
  obtain ⟨hupper, hlower⟩ := hall c hc
  exact ⟨ofText_of_beginsWord hupper rest, ofText_of_beginsWord hlower rest⟩

/-- The lexeme at the head of a text is the same in lower case. -/
theorem ofText_foldCase (text : List Char) : ofText (foldCase text) = ofText text := by
  cases text with
  | nil => rfl
  | cons c rest =>
    rcases toLower_eq_or c with hc | hc
    · have hbreak := lineBreak_foldCase (c :: rest)
      have hnumber := number_foldCase (c :: rest)
      have hword := word_foldCase (c :: rest)
      have hdigit := headIs_foldCase caseless_isDigit rest
      rw [foldCase_cons, hc] at *
      simp only [ofText, hbreak, hnumber, hword, hdigit]
      split
      · rfl
      split
      · rfl
      split
      · rfl
      split
      case h_1 | h_2 => rw [lineBreak_foldCase]
      case h_3 => exact quoted_foldCase rest
      case h_4 => exact numberSign_foldCase rest
      case h_5 => exact bracketed_foldCase rest
      case h_6 => exact ampersand_foldCase rest
      case h_13 => exact less_foldCase rest
      case h_14 => exact greater_foldCase rest
      case h_15 | h_16 | h_17 | h_18 | h_19 | h_20 => exact compound_foldCase _ _ _ rest
      all_goals rfl
    · have hword := word_foldCase (c :: rest)
      rw [foldCase_cons] at *
      rw [(ofText_of_mem_capitals hc (foldCase rest)).2, (ofText_of_mem_capitals hc rest).1, hword]

/-- A word is never an error, so no error names a letter. -/
theorem kind_word_ne_invalid (text : List Char) : (word text).kind ≠ .invalid := by
  unfold word
  dsimp only
  split
  · exact nofun
  · split <;> exact nofun

/-- No letter is at fault. -/
theorem toLower_eq_of_invalid {c : Char} {rest : List Char}
    (h : (ofText (c :: rest)).kind = .invalid) : c.toLower = c := by
  rcases toLower_eq_or c with hc | hc
  · exact hc
  · rw [(ofText_of_mem_capitals hc rest).1] at h
    exact absurd h (kind_word_ne_invalid _)

end Lexeme

-- ---------------------------------------------------------------------------
-- Scanning
-- ---------------------------------------------------------------------------

/-- Points are counted in characters and lines. -/
theorem Position.after_foldCase (p : Position) (text : List Char) :
    p.after (foldCase text) = p.after text := by
  have hnext (q : Point) (c : Char) : q.next c.toLower = q.next c := by
    simp only [Point.next, toLower_eq_iff (d := '\n') (by decide)]
  have hpoint (q : Point) : (foldCase text).foldl Point.next q = text.foldl Point.next q := by
    induction text generalizing q with
    | nil => rfl
    | cons c rest ih => rw [foldCase_cons, List.foldl_cons, List.foldl_cons, hnext, ih]
  rw [after, after, byteLength_foldCase, hpoint]

namespace Scanner

/-- The scanner of the text in lower case. -/
def lower (s : Scanner) : Scanner := ⟨s.position, foldCase s.rest⟩

variable {s s' stop : Scanner} {p : Piece} {ps : List Piece}

/-- The scanner goes over both texts in step. -/
theorem advance_lower (s : Scanner) (n : Nat) : s.lower.advance n = (s.advance n).lower := by
  simp only [advance, lower, foldCase_take, Position.after_foldCase, foldCase_drop]

/-- And it sees the same spans. -/
theorem span_lower (s : Scanner) (n : Nat) : s.lower.span n = s.span n := by
  rw [span, span, advance_lower]
  rfl

/-- In lower case the same pieces are cut off. -/
theorem step_lower (h : s.step? = some (p, s')) : s.lower.step? = some (p, s'.lower) := by
  obtain ⟨position, rest⟩ := s
  cases rest with
  | nil => cases h
  | cons c rest =>
    have hshape := Trivia.shape?_foldCase (c :: rest)
    have hlexeme := Lexeme.ofText_foldCase (c :: rest)
    have hspan := span_lower ⟨position, c :: rest⟩
    have hadvance := advance_lower ⟨position, c :: rest⟩
    simp only [lower, foldCase_cons] at hshape hlexeme hspan hadvance ⊢
    simp only [step?, hshape, hlexeme, hspan, hadvance] at h ⊢
    cases htrivia : Trivia.shape? (c :: rest) with
    | some shape =>
      rw [htrivia] at h
      cases h
      rfl
    | none =>
      rw [htrivia] at h
      obtain ⟨rfl, rfl⟩ := Prod.mk.inj (Option.some.inj h)
      cases hkind : (Lexeme.ofText (c :: rest)).kind with
      | invalid => simp only [Lexeme.toLower_eq_of_invalid hkind]
      | _ => rfl

/-- The pieces of a text in lower case are those of the text, in lower case. -/
theorem Scans.lower (h : s.Scans ps stop) : s.lower.Scans ps stop.lower := by
  induction h with
  | @done s h =>
    refine .done (step_eq_none.2 ?_)
    rw [Scanner.lower, step_eq_none.1 h, foldCase_nil]
  | step h _ ih => exact .step (step_lower h) ih

end Scanner

/-- The stream of a text is that of the text in lower case. -/
theorem TokenStream.ofText_foldCase (text : List Char) : ofText (foldCase text) = ofText text := by
  obtain ⟨ps, stop, hscans, -⟩ := ofText_eq text
  have hlower : (Scanner.ofText (foldCase text)).Scans ps stop.lower := hscans.lower
  rw [ofText_eq_of_scans hscans, ofText_eq_of_scans hlower]
  rfl

end VisualBasic
