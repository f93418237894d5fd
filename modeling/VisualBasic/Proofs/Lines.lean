import Mathlib.Data.List.TakeWhile
import VisualBasic.Proofs.Tiling

/-!
# Lexemes and lines

A lexeme does not look past a line feed: whatever looks ahead for the end of a word, a number, a
name in brackets, a text in quotes, a date or a remark stops there, and what takes a line feed along
takes nothing behind it. So what stands at the head of a text is the same for all texts that agree
up to a line feed and with it.

Main results:

* `Trivia.shape?_eq` and `Lexeme.ofText_eq` — what stands at the head of a text depends on the text
  up to the first line feed alone.
* `Trivia.shape?_le` and `Lexeme.length_ofText_le` — it is no longer than the text.
-/

namespace VisualBasic

open Text

-- ---------------------------------------------------------------------------
-- Texts that agree up to a line feed
-- ---------------------------------------------------------------------------

namespace Text

/-- The texts are the same up to some line feed and with it. -/
inductive SameLine : List Char → List Char → Prop
  | lineFeed {s t : List Char} : SameLine ('\n' :: s) ('\n' :: t)
  | cons {c : Char} {s t : List Char} (h : SameLine s t) : SameLine (c :: s) (c :: t)

/-- A line feed breaks a line, and so do both characters together. -/
theorem lineBreak_cons (c : Char) (rest : List Char) : lineBreak (c :: rest) =
    if c = '\n' then 1 else if c = '\r' ∧ headIs (· == '\n') rest = true then 2 else 0 := by
  unfold lineBreak
  split
  · rename_i heq
    cases heq
    rfl
  · rename_i heq
    cases heq
    rfl
  · rename_i hfeed hreturn
    have hc : c ≠ '\n' := by
      rintro rfl
      exact hfeed rest rfl
    rw [if_neg hc, if_neg]
    rintro ⟨rfl, hhead⟩
    cases rest with
    | nil => cases hhead
    | cons d rest =>
      obtain rfl := beq_iff_eq.1 hhead
      exact hreturn rest rfl

/-- Two texts that begin with the same line. -/
theorem sameLine_append (u s t : List Char) : SameLine (u ++ '\n' :: s) (u ++ '\n' :: t) := by
  induction u with
  | nil => exact .lineFeed
  | cons c rest ih => exact .cons ih

namespace SameLine

variable {s t : List Char}

/-- They have the same first character. -/
theorem headIs (h : SameLine s t) (p : Char → Bool) : headIs p s = headIs p t := by
  cases h with
  | lineFeed | cons => rfl

/-- They begin with the same characters of a class without the line feed. -/
theorem takeWhile {p : Char → Bool} (hp : p '\n' = false) (h : SameLine s t) :
    s.takeWhile p = t.takeWhile p := by
  induction h with
  | lineFeed =>
    rw [List.takeWhile_cons_of_neg (by simp [hp]), List.takeWhile_cons_of_neg (by simp [hp])]
  | @cons c s t _ ih => rw [List.takeWhile_cons, List.takeWhile_cons, ih]

/-- So they begin with as many of them. -/
theorem countWhile {p : Char → Bool} (hp : p '\n' = false) (h : SameLine s t) :
    countWhile p s = countWhile p t :=
  congrArg List.length (h.takeWhile hp)

/-- What is left behind a stretch without line feeds. -/
theorem drop_countWhile {p : Char → Bool} (hp : p '\n' = false) (h : SameLine s t) :
    SameLine (s.drop (Text.countWhile p s)) (t.drop (Text.countWhile p s)) := by
  induction h with
  | lineFeed =>
    rw [show Text.countWhile p ('\n' :: _) = 0 by simp [Text.countWhile, hp]]
    exact .lineFeed
  | @cons c s t h ih =>
    cases hc : p c with
    | false =>
      rw [show Text.countWhile p (c :: s) = 0 by simp [Text.countWhile, hc]]
      exact .cons h
    | true =>
      rw [show Text.countWhile p (c :: s) = Text.countWhile p s + 1 by simp [Text.countWhile, hc]]
      exact ih

/-- Cutting twice is cutting once. -/
theorem of_drop_drop {a b : Nat}
    (h : SameLine ((s.drop a).drop b) ((t.drop a).drop b)) :
    SameLine (s.drop (a + b)) (t.drop (a + b)) := by
  rwa [List.drop_drop, List.drop_drop] at h

/-- A line break at the head is in the line. -/
theorem lineBreak (h : SameLine s t) : lineBreak s = lineBreak t := by
  cases h with
  | lineFeed => rfl
  | @cons c s t h => rw [lineBreak_cons, lineBreak_cons, h.headIs]

end SameLine

end Text

-- ---------------------------------------------------------------------------
-- Lengths within a text
-- ---------------------------------------------------------------------------

namespace Text

/-- What has a first character is not empty. -/
theorem length_pos_of_headIs {p : Char → Bool} {text : List Char} (h : headIs p text = true) :
    0 < text.length := by
  cases text with
  | nil => cases h
  | cons c rest => exact Nat.succ_pos _

/-- The same behind a cut. -/
theorem lt_length_of_headIs_drop {p : Char → Bool} {text : List Char} {n : Nat}
    (h : headIs p (text.drop n) = true) : n < text.length := by
  have hlt := length_pos_of_headIs h
  rw [List.length_drop] at hlt
  omega

theorem countWhile_le (p : Char → Bool) (text : List Char) : countWhile p text ≤ text.length :=
  (List.takeWhile_prefix p).length_le

/-- What is measured behind the first characters ends within the text. -/
theorem add_le_of_drop {f : List Char → Nat} (hf : ∀ text, f text ≤ text.length) {text : List Char}
    {n : Nat} (h : n ≤ text.length) : n + f (text.drop n) ≤ text.length := by
  have hle := hf (text.drop n)
  rw [List.length_drop] at hle
  omega

theorem add_countWhile_drop_le (p : Char → Bool) {text : List Char} {n : Nat}
    (h : n ≤ text.length) :
    n + countWhile p (text.drop n) ≤ text.length :=
  add_le_of_drop (countWhile_le p) h

/-- A line break is not longer than the text. -/
theorem lineBreak_le (text : List Char) : lineBreak text ≤ text.length := by
  unfold lineBreak
  split
  · exact Nat.le_add_left _ _
  · exact Nat.le_add_left _ _
  · exact Nat.zero_le _

end Text

-- ---------------------------------------------------------------------------
-- Trivia on a line
-- ---------------------------------------------------------------------------

namespace Trivia

variable {s t : List Char}

/-- The word that opens a remark has no line feed in it. -/
theorem opensRemark_eq (h : SameLine s t) : opensRemark s = opensRemark t := by
  have hfirst (rest : List Char) : opensRemark ('\n' :: rest) = false := by
    unfold opensRemark
    split
    · rename_i heq
      cases heq
      rfl
    · rfl
  have hsecond (a : Char) (rest : List Char) : opensRemark (a :: '\n' :: rest) = false := by
    unfold opensRemark
    split
    · rename_i heq
      cases heq
      rw [show isLetter 'e' '\n' = false from rfl, Bool.and_false, Bool.false_and, Bool.false_and]
    · rfl
  cases h with
  | lineFeed => rw [hfirst, hfirst]
  | @cons a _ _ h =>
    cases h with
    | lineFeed => rw [hsecond, hsecond]
    | @cons b _ _ h =>
      cases h with
      | @lineFeed s t =>
        change (_ && isLetter 'm' '\n' && _) = (_ && isLetter 'm' '\n' && _)
        rw [show isLetter 'm' '\n' = false from rfl, Bool.and_false, Bool.false_and, Bool.false_and]
      | @cons c s t h =>
        change (_ && !headIs _ s) = (_ && !headIs _ t)
        rw [h.headIs]

/-- The line that a continuation breaks ends with the first line feed, which both have. -/
theorem continuation_eq (h : SameLine s t) : continuation s = continuation t := by
  have hblank : isSpaceOrTab '\n' = false := rfl
  cases h with
  | lineFeed => rfl
  | @cons c s t h =>
    by_cases hc : c = '_'
    · subst hc
      simp only [continuation]
      rw [← h.countWhile hblank, (h.drop_countWhile hblank).lineBreak]
    · simp [continuation, hc]

/-- The trivia at the head of a text depends on the text up to the first line feed alone. -/
theorem shape?_eq (h : SameLine s t) : shape? s = shape? t := by
  have hblank : isBlank '\n' = false := rfl
  have hcomment : (!isLineEnd '\n') = false := rfl
  have hremark := opensRemark_eq h
  have hcontinued := continuation_eq h
  have hblanks := h.countWhile hblank
  have hcount := h.countWhile (p := fun c => !isLineEnd c) hcomment
  cases h with
  | lineFeed | cons =>
    unfold shape?
    dsimp only
    rw [hremark, hcontinued, hblanks, hcount]

/-- A continuation is not longer than the text. -/
theorem continuation_le (text : List Char) : continuation text ≤ text.length := by
  unfold continuation
  split
  · rename_i rest
    have hle := add_le_of_drop lineBreak_le (countWhile_le isSpaceOrTab rest)
    dsimp only
    rw [List.length_cons]
    split <;> omega
  · exact Nat.zero_le _

/-- Trivia is no longer than the text that it is the head of. -/
theorem shape?_le {text : List Char} {kind : TriviaKind} {n : Nat}
    (h : shape? text = some (kind, n)) :
    n ≤ text.length := by
  cases text with
  | nil => cases h
  | cons c rest =>
    simp only [shape?] at h
    split at h
    · cases h
      exact countWhile_le _ _
    · split at h
      · cases h
        exact countWhile_le _ _
      · split at h
        · cases h
        · cases h
          exact continuation_le _

end Trivia

-- ---------------------------------------------------------------------------
-- Lexemes on a line
-- ---------------------------------------------------------------------------

namespace Lexeme

variable {s t : List Char}

theorem compound_eq (plain assigning : Mark) (length : Nat) (h : SameLine s t) :
    compound plain assigning length s = compound plain assigning length t := by
  rw [compound, compound, h.headIs]

/-- A word ends in the line. -/
theorem word_eq (h : SameLine s t) : word s = word t := by
  have hword : continuesWord '\n' = false := rfl
  have htake (text : List Char) : text.take (countWhile continuesWord text) =
      text.takeWhile continuesWord := by
    rw [countWhile, ← List.prefix_iff_eq_take.1 (List.takeWhile_prefix _)]
  unfold word
  dsimp only
  rw [htake, htake, ← h.countWhile hword, h.takeWhile hword, (h.drop_countWhile hword).headIs]

/-- A bracket that is not closed in the line is not closed. -/
theorem bracketed_eq (h : SameLine s t) : bracketed s = bracketed t := by
  have hname : (fun c => c != ']' && !isLineEnd c) '\n' = false := rfl
  unfold bracketed
  dsimp only
  rw [← h.countWhile hname, (h.drop_countWhile hname).headIs]

-- ---------------------------------------------------------------------------
-- Numbers
-- ---------------------------------------------------------------------------

/-- The letters behind a number stand in the line. -/
theorem integerSuffix_eq (h : SameLine s t) : integerSuffix s = integerSuffix t := by
  cases h with
  | lineFeed => rfl
  | cons h => rw [integerSuffix, integerSuffix, h.headIs]

/-- The point and the digits behind it stand in the line. -/
theorem fraction_eq (h : SameLine s t) : fraction s = fraction t := by
  have hdigit : Char.isDigit '\n' = false := rfl
  cases h with
  | lineFeed => rfl
  | @cons c s t h =>
    by_cases hc : c = '.'
    · subst hc
      rw [fraction, fraction, h.headIs, h.countWhile hdigit]
    · simp [fraction, hc]

/-- What is left behind a fraction. -/
theorem drop_fraction (h : SameLine s t) :
    SameLine (s.drop (fraction s)) (t.drop (fraction s)) := by
  have hdigit : Char.isDigit '\n' = false := rfl
  cases h with
  | lineFeed => exact .lineFeed
  | @cons c s t h =>
    unfold fraction
    split
    · rename_i heq
      cases heq
      split
      · rw [Nat.add_comm]
        exact h.drop_countWhile hdigit
      · exact .cons h
    · exact .cons h

/-- A sign behind the letter of an exponent is no line feed. -/
theorem drop_sign (h : SameLine s t) :
    SameLine (s.drop (if headIs (fun d => d == '+' || d == '-') s then 1 else 0))
      (t.drop (if headIs (fun d => d == '+' || d == '-') s then 1 else 0)) := by
  split
  · rename_i hsign
    cases h with
    | lineFeed => cases hsign
    | cons h => exact h
  · exact h

/-- So does an exponent. -/
theorem exponent_eq (h : SameLine s t) : exponent s = exponent t := by
  have hdigit : Char.isDigit '\n' = false := rfl
  cases h with
  | lineFeed => rfl
  | cons h =>
    have hsign := drop_sign h
    unfold exponent
    dsimp only
    rw [← h.headIs, hsign.headIs, hsign.countWhile hdigit]

/-- What is left behind an exponent. -/
theorem drop_exponent (h : SameLine s t) :
    SameLine (s.drop (exponent s)) (t.drop (exponent s)) := by
  have hdigit : Char.isDigit '\n' = false := rfl
  cases h with
  | lineFeed => exact .lineFeed
  | @cons c s t h =>
    have hsign := drop_sign h
    unfold exponent
    dsimp only
    generalize (if headIs (fun d => d == '+' || d == '-') s = true then 1 else 0) = sign at hsign ⊢
    split
    · rw [Nat.add_assoc, Nat.add_comm, List.drop_succ_cons, List.drop_succ_cons]
      exact SameLine.of_drop_drop (hsign.drop_countWhile hdigit)
    · exact .cons h

/-- And so does the whole number. -/
theorem number_eq (h : SameLine s t) : number s = number t := by
  have hdigit : Char.isDigit '\n' = false := rfl
  have hwhole := h.drop_countWhile hdigit
  have hscale := SameLine.of_drop_drop (drop_fraction hwhole)
  have hrest := SameLine.of_drop_drop (drop_exponent hscale)
  unfold number
  dsimp only
  rw [← h.countWhile hdigit, ← fraction_eq hwhole, ← exponent_eq hscale, ← hrest.headIs,
    ← integerSuffix_eq hrest]

/-- What follows an ampersand stands in the line. -/
theorem ampersand_eq (h : SameLine s t) : ampersand s = ampersand t := by
  have hcompound := compound_eq .ampersand .ampersandEqual 1 h
  cases h with
  | lineFeed => exact hcompound
  | @cons c s t h =>
    have hbased {p : Char → Bool} (hp : p '\n' = false) :
        integerSuffix (s.drop (countWhile p s)) = integerSuffix (t.drop (countWhile p t)) := by
      rw [← h.countWhile hp]
      exact integerSuffix_eq (h.drop_countWhile hp)
    have hhex : isHexDigit '\n' = false := by decide
    have hoctal : isOctalDigit '\n' = false := by decide
    unfold ampersand
    simp only [List.drop_succ_cons, List.drop_zero]
    rw [hcompound, h.headIs, h.headIs, hbased hhex, hbased hoctal, h.countWhile hhex,
      h.countWhile hoctal]
    rfl

-- ---------------------------------------------------------------------------
-- Quoted text, dates and preprocessor lines
-- ---------------------------------------------------------------------------

/-- What stands between quotes, character by character. -/
theorem quotedBody_cons (c : Char) (rest : List Char) : quotedBody (c :: rest) =
    if c = '"' then
      if headIs (· == '"') rest then
        (quotedBody rest.tail).map fun (length, denoted) => (length + 2, denoted + 1)
      else some (1, 0)
    else if isLineEnd c then none
    else (quotedBody rest).map fun (length, denoted) => (length + 1, denoted + 1) := by
  by_cases hc : c = '"'
  · subst hc
    cases rest with
    | nil => rfl
    | cons d rest =>
      by_cases hd : d = '"'
      · subst hd
        simp [quotedBody, headIs]
      · simp [quotedBody, headIs, hd]
  · simp [quotedBody, hc]

/-- A text in quotes ends at the latest with the line, and so does not look past it; behind it the
texts still agree up to the line feed. -/
theorem quotedBody_eq (h : SameLine s t) : quotedBody s = quotedBody t ∧
    ∀ length denoted, quotedBody s = some (length, denoted) →
      SameLine (s.drop length) (t.drop length) := by
  induction hlength : s.length using Nat.strongRecOn generalizing s t with
  | _ length ih =>
  cases h with
  | lineFeed => exact ⟨rfl, nofun⟩
  | @cons c s t h =>
    have hs : s.length < length := by simp [← hlength]
    rw [quotedBody_cons, quotedBody_cons, ← h.headIs]
    by_cases hc : c = '"'
    · rw [if_pos hc, if_pos hc]
      by_cases hd : headIs (· == '"') s = true
      · rw [if_pos hd, if_pos hd]
        cases h with
        | lineFeed => cases hd
        | @cons d s t h =>
          obtain ⟨heq, hdrop⟩ := ih s.length (Nat.lt_of_succ_lt hs) h rfl
          refine ⟨congrArg _ heq, fun length denoted hsome => ?_⟩
          obtain ⟨⟨length, denoted⟩, hbody, hpair⟩ := Option.map_eq_some_iff.1 hsome
          cases hpair
          exact hdrop length denoted hbody
      · rw [if_neg hd, if_neg hd]
        refine ⟨rfl, fun length denoted hsome => ?_⟩
        cases hsome
        exact h
    · rw [if_neg hc, if_neg hc]
      by_cases hend : isLineEnd c = true
      · rw [if_pos hend, if_pos hend]
        exact ⟨rfl, nofun⟩
      · rw [if_neg hend, if_neg hend]
        obtain ⟨heq, hdrop⟩ := ih s.length hs h rfl
        refine ⟨congrArg _ heq, fun length denoted hsome => ?_⟩
        obtain ⟨⟨length, denoted⟩, hbody, hpair⟩ := Option.map_eq_some_iff.1 hsome
        cases hpair
        exact hdrop length denoted hbody

/-- A quote that is not closed in the line is not closed. -/
theorem quoted_eq (h : SameLine s t) : quoted s = quoted t := by
  obtain ⟨heq, hdrop⟩ := quotedBody_eq h
  unfold quoted
  rw [← heq]
  cases hbody : quotedBody s with
  | none => rfl
  | some body =>
    dsimp only
    rw [(hdrop body.1 body.2 hbody).headIs]

/-- Neither is a date. -/
theorem numberSign_eq (h : SameLine s t) : numberSign s = numberSign t := by
  have hdate : isDateCharacter '\n' = false := by decide
  have hline : (fun c => !isLineEnd c) '\n' = false := rfl
  have hbody := (h.drop_countWhile hdate).headIs (· == '#')
  unfold countWhile at hbody
  unfold numberSign
  dsimp only
  rw [← h.takeWhile hdate, hbody, h.countWhile hline]

-- ---------------------------------------------------------------------------
-- The lexeme at the head
-- ---------------------------------------------------------------------------

/-- The marks that begin with a less sign are at most three characters long, all in the line. -/
theorem less_eq (h : SameLine s t) : less s = less t := by
  cases h with
  | lineFeed => rfl
  | @cons c s t h =>
    by_cases hless : c = '<'
    · subst hless
      exact compound_eq _ _ _ h
    · by_cases hequal : c = '='
      · rw [hequal, less, less]
      · by_cases hgreater : c = '>'
        · rw [hgreater, less, less]
        · simp [less, hless, hequal, hgreater]

/-- So are those that begin with a greater sign. -/
theorem greater_eq (h : SameLine s t) : greater s = greater t := by
  cases h with
  | lineFeed => rfl
  | @cons c s t h =>
    by_cases hgreater : c = '>'
    · subst hgreater
      exact compound_eq _ _ _ h
    · by_cases hequal : c = '='
      · rw [hequal, greater, greater]
      · simp [greater, hgreater, hequal]

/-- The lexeme at the head of a text depends on the text up to the first line feed alone. -/
theorem ofText_eq (h : SameLine s t) : ofText s = ofText t := by
  cases h with
  | lineFeed => rfl
  | @cons c s t h =>
    have hall := SameLine.cons (c := c) h
    simp only [ofText]
    rw [← hall.lineBreak, ← h.headIs, number_eq hall, word_eq hall]
    split
    · rfl
    split
    · rfl
    split
    · rfl
    split
    case h_1 | h_2 => rw [h.lineBreak]
    case h_3 => exact quoted_eq h
    case h_4 => exact numberSign_eq h
    case h_5 => exact bracketed_eq h
    case h_6 => exact ampersand_eq h
    case h_13 => exact less_eq h
    case h_14 => exact greater_eq h
    case h_15 | h_16 | h_17 | h_18 | h_19 | h_20 => exact compound_eq _ _ _ h
    all_goals rfl

-- ---------------------------------------------------------------------------
-- The lengths of lexemes
-- ---------------------------------------------------------------------------

/-- A mark is as long as it is, or longer by an equality sign that follows it. -/
theorem length_compound_le (plain assigning : Mark) (length : Nat) (rest : List Char) :
    (compound plain assigning length rest).length ≤ length + rest.length := by
  rw [compound]
  split
  · exact Nat.add_le_add_left (length_pos_of_headIs ‹_›) _
  · exact Nat.le_add_right _ _

/-- A word is not longer than the text. -/
theorem length_word_le (text : List Char) : (word text).length ≤ text.length := by
  have hword := countWhile_le continuesWord text
  unfold word
  dsimp only
  split
  · exact lt_length_of_headIs_drop ‹_›
  · split <;> exact hword

/-- Behind the bracket there is no more than the rest. -/
theorem length_bracketed_le (rest : List Char) : (bracketed rest).length ≤ rest.length + 1 := by
  unfold bracketed
  dsimp only
  split
  · exact Nat.le_add_left _ _
  · rename_i hclosed
    rw [Bool.or_eq_true, not_or, Bool.not_eq_true', Bool.not_eq_false] at hclosed
    exact Nat.succ_le_succ (lt_length_of_headIs_drop hclosed.2)

theorem integerSuffix_le (text : List Char) : integerSuffix text ≤ text.length := by
  cases text with
  | nil => exact Nat.le_refl _
  | cons c rest =>
    rw [integerSuffix, List.length_cons]
    split
    · rename_i hsuffix
      exact Nat.succ_le_succ (length_pos_of_headIs (Bool.and_eq_true_iff.1 hsuffix).2)
    · split
      · exact Nat.le_add_left _ _
      · exact Nat.zero_le _

theorem fraction_le (text : List Char) : fraction text ≤ text.length := by
  unfold fraction
  split
  · rename_i rest
    have hdigits := countWhile_le Char.isDigit rest
    rw [List.length_cons]
    split <;> omega
  · exact Nat.zero_le _

theorem exponent_le (text : List Char) : exponent text ≤ text.length := by
  cases text with
  | nil => exact Nat.le_refl _
  | cons c rest =>
    rw [exponent, List.length_cons]
    generalize (if headIs (fun d => d == '+' || d == '-') rest = true then 1 else 0) = sign
    split
    · rename_i hdigits
      have hlt := lt_length_of_headIs_drop (Bool.and_eq_true_iff.1 hdigits).2
      have hle := add_countWhile_drop_le Char.isDigit (Nat.le_of_lt hlt)
      omega
    · exact Nat.zero_le _

/-- A number is not longer than the text: each of its parts stands in what the parts in front of it
leave. -/
theorem length_number_le (text : List Char) : (number text).length ≤ text.length := by
  have hwhole := countWhile_le Char.isDigit text
  have hscale := add_le_of_drop fraction_le hwhole
  have hlength := add_le_of_drop exponent_le hscale
  have hsuffix := add_le_of_drop integerSuffix_le hlength
  unfold number
  dsimp only
  split
  · exact lt_length_of_headIs_drop ‹_›
  · split
    · exact hlength
    · exact hsuffix

theorem length_ampersand_le (rest : List Char) : (ampersand rest).length ≤ rest.length + 1 := by
  have hbased (p : Char → Bool) (h : headIs p (rest.drop 1) = true) :
      2 + countWhile p (rest.drop 1) +
        integerSuffix ((rest.drop 1).drop (countWhile p (rest.drop 1))) ≤
        rest.length + 1 := by
    have hlt := lt_length_of_headIs_drop h
    have hle := add_le_of_drop integerSuffix_le (countWhile_le p (rest.drop 1))
    rw [List.length_drop] at hle
    omega
  unfold ampersand
  dsimp only
  split
  · exact hbased isHexDigit (Bool.and_eq_true_iff.1 ‹_›).2
  · split
    · exact hbased isOctalDigit (Bool.and_eq_true_iff.1 ‹_›).2
    · exact Nat.le_trans (length_compound_le _ _ _ _) (Nat.le_of_eq (Nat.add_comm _ _))

/-- The closing quote stands in the text. -/
theorem quotedBody_le {rest : List Char} {length denoted : Nat}
    (h : quotedBody rest = some (length, denoted)) : length ≤ rest.length := by
  fun_induction quotedBody rest generalizing length denoted with
  | case1 => cases h
  | case2 rest ih =>
    obtain ⟨⟨length, denoted⟩, hbody, hpair⟩ := Option.map_eq_some_iff.1 h
    cases hpair
    exact Nat.add_le_add_right (ih hbody) 2
  | case3 => cases h; exact Nat.le_add_left _ _
  | case4 => cases h
  | case5 c rest _ _ _ ih =>
    obtain ⟨⟨length, denoted⟩, hbody, hpair⟩ := Option.map_eq_some_iff.1 h
    cases hpair
    exact Nat.succ_le_succ (ih hbody)

/-- Behind the quote there is no more than the rest. -/
theorem length_quoted_le (rest : List Char) : (quoted rest).length ≤ rest.length + 1 := by
  unfold quoted
  split
  · exact Nat.le_add_left _ _
  · rename_i hbody
    split
    · rename_i hcharacter
      exact Nat.succ_le_succ (lt_length_of_headIs_drop (Bool.and_eq_true_iff.1 hcharacter).2)
    · exact Nat.succ_le_succ (quotedBody_le hbody)

theorem length_numberSign_le (rest : List Char) : (numberSign rest).length ≤ rest.length + 1 := by
  have hline := countWhile_le (!isLineEnd ·) rest
  unfold numberSign
  dsimp only
  split
  · rename_i hdate
    exact Nat.succ_le_succ (lt_length_of_headIs_drop (Bool.and_eq_true_iff.1 hdate).2)
  · rw [Nat.add_comm]
    exact Nat.succ_le_succ hline

theorem length_less_le (rest : List Char) : (less rest).length ≤ rest.length + 1 := by
  unfold less
  split
  · exact Nat.le_add_left _ _
  · exact Nat.le_add_left _ _
  · exact Nat.le_trans (length_compound_le _ _ _ _) (by rw [List.length_cons]; omega)
  · exact Nat.le_add_left _ _

theorem length_greater_le (rest : List Char) : (greater rest).length ≤ rest.length + 1 := by
  unfold greater
  split
  · exact Nat.le_add_left _ _
  · exact Nat.le_trans (length_compound_le _ _ _ _) (by rw [List.length_cons]; omega)
  · exact Nat.le_add_left _ _

/-- A lexeme is no longer than the text that it is the head of. -/
theorem length_ofText_le (text : List Char) : (ofText text).length ≤ text.length := by
  cases text with
  | nil => exact Nat.le_refl _
  | cons c rest =>
    have hbreak (rest : List Char) : 1 + lineBreak rest ≤ rest.length + 1 := by
      rw [Nat.add_comm]
      exact Nat.succ_le_succ (lineBreak_le rest)
    have hcompound (plain assigning : Mark) :
        (compound plain assigning 1 rest).length ≤ rest.length + 1 :=
      Nat.le_trans (length_compound_le _ _ _ _) (Nat.le_of_eq (Nat.add_comm _ _))
    simp only [ofText]
    split
    · exact lineBreak_le _
    split
    · exact length_number_le _
    split
    · exact length_word_le _
    split
    case h_1 | h_2 => exact hbreak _
    case h_3 => exact length_quoted_le _
    case h_4 => exact length_numberSign_le _
    case h_5 => exact length_bracketed_le _
    case h_6 => exact length_ampersand_le _
    case h_13 => exact length_less_le _
    case h_14 => exact length_greater_le _
    case h_15 | h_16 | h_17 | h_18 | h_19 | h_20 => exact hcompound _ _
    all_goals exact Nat.le_add_left _ _

end Lexeme

end VisualBasic
