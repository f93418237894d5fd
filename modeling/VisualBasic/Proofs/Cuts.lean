import VisualBasic.Proofs.LetterCase

/-!
# Cutting a text behind a lexeme

A lexeme ends where what follows does not go on with it. So it stays the same if what follows is cut
off, and also if what follows begins with an underscore and a blank is put in its place: neither the
end of a text nor a blank goes on with a word, a number or an operator. A text in quotes, a name in
brackets and a date end with a sign of their own, and a preprocessor line with the line end.

What is said here is said of the lexeme at the head of a text `u ++ r` that ends within `u`, or with
it: it is also at the head of `u ++ t`, if `t` may stand behind `u` in place of `r` (`Text.Cut`).

Main results:

* `Lexeme.ofText_cut` — a lexeme that is a token does not depend on what is cut off behind it.
* `Trivia.shape?_cut` — no trivia begins where a token did.
-/

namespace VisualBasic

open Text

namespace Text

/-- What may stand behind a piece of a text in place of what is there: nothing, or a blank in place
of an underscore. -/
inductive Cut : List Char → List Char → Prop
  | nothing {r : List Char} : Cut r []
  | blank {r t : List Char} : Cut ('_' :: r) (' ' :: t)

-- ---------------------------------------------------------------------------
-- Heads and stretches
-- ---------------------------------------------------------------------------

theorem headIs_append {u : List Char} (hu : u ≠ []) (p : Char → Bool) (r : List Char) :
    headIs p (u ++ r) = headIs p u := by
  obtain ⟨c, rest, rfl⟩ := List.exists_cons_of_ne_nil hu
  rfl

theorem countWhile_cons (p : Char → Bool) (c : Char) (rest : List Char) :
    countWhile p (c :: rest) = if p c then countWhile p rest + 1 else 0 := by
  unfold countWhile
  rw [List.takeWhile_cons]
  split <;> simp

theorem countWhile_eq_zero {p : Char → Bool} {text : List Char} (h : headIs p text ≠ true) :
    countWhile p text = 0 := by
  cases text with
  | nil => rfl
  | cons c rest =>
    rw [countWhile_cons]
    exact if_neg h

/-- A stretch goes as far as it can. -/
theorem headIs_drop_countWhile (p : Char → Bool) (text : List Char) :
    headIs p (text.drop (countWhile p text)) = false := by
  induction text with
  | nil => rfl
  | cons c rest ih =>
    rw [countWhile_cons]
    split
    · exact ih
    · rename_i hc
      exact Bool.eq_false_iff.2 hc

/-- A stretch that ends within a text does not depend on what follows the text. -/
theorem countWhile_of_lt {p : Char → Bool} {u r : List Char} (h : countWhile p (u ++ r) < u.length)
    (t : List Char) : countWhile p (u ++ t) = countWhile p (u ++ r) := by
  induction u with
  | nil => simp at h
  | cons c u ih =>
    simp only [List.cons_append, countWhile_cons, List.length_cons] at h ⊢
    split
    · rename_i hc
      rw [if_pos hc] at h
      rw [ih (by omega)]
    · rfl

theorem takeWhile_of_countWhile {p : Char → Bool} {s s' u : List Char} (hs : s = u ++ s')
    (h : countWhile p s ≤ u.length) : s.takeWhile p = u.take (countWhile p s) := by
  subst hs
  rw [← List.take_append_of_le_length h, countWhile,
    ← List.prefix_iff_eq_take.1 (List.takeWhile_prefix _)]

theorem take_append_eq {u r t : List Char} {n : Nat} (h : n ≤ u.length) :
    (u ++ t).take n = (u ++ r).take n := by
  rw [List.take_append_of_le_length h, List.take_append_of_le_length h]

namespace Cut

variable {r t u : List Char}

theorem headIs_eq_false (h : Cut r t) {p : Char → Bool} (hp : p ' ' = false) :
    headIs p t = false := by
  cases h with
  | nothing => rfl
  | blank => exact hp

theorem lineBreak_eq_zero (h : Cut r t) : lineBreak t = 0 := by
  cases h <;> rfl

/-- A stretch that ends with a text, or within it, is as long if what follows the text is cut. -/
theorem countWhile {p : Char → Bool} (hp : Text.headIs p t = true → Text.headIs p r = true)
    (hle : countWhile p (u ++ r) ≤ u.length) : countWhile p (u ++ t) = countWhile p (u ++ r) := by
  induction u with
  | nil =>
    have hzero : Text.countWhile p r = 0 := Nat.eq_zero_of_le_zero hle
    have hr : Text.headIs p r ≠ true := fun hhead => by
      have := countWhile_pos hhead
      omega
    rw [List.nil_append, List.nil_append, hzero, countWhile_eq_zero (mt hp hr)]
  | cons c u ih =>
    simp only [List.cons_append, countWhile_cons, List.length_cons] at hle ⊢
    split
    · rename_i hc
      rw [if_pos hc] at hle
      rw [ih (by omega)]
    · rfl

/-- What stands behind the first characters of a text is the same, unless it stands behind all of
it. -/
theorem headIs_drop (h : Cut r t) {p : Char → Bool} (hp : p ' ' = false) {n : Nat}
    (hn : n ≤ u.length)
    (hlt : headIs p ((u ++ r).drop n) = true → n < u.length) :
    headIs p ((u ++ t).drop n) = headIs p ((u ++ r).drop n) := by
  by_cases hwithin : n < u.length
  · have hne : u.drop n ≠ [] := by simp [hwithin]
    rw [List.drop_append_of_le_length hn, List.drop_append_of_le_length hn, headIs_append hne,
      headIs_append hne]
  · have hhead : headIs p ((u ++ r).drop n) = false := Bool.eq_false_iff.2 fun h => hwithin (hlt h)
    have hend : n = u.length := by omega
    rw [hhead, hend, List.drop_left, h.headIs_eq_false hp]

theorem headIs (h : Cut r t) {p : Char → Bool} (hp : p ' ' = false)
    (hlt : headIs p (u ++ r) = true → 0 < u.length) : headIs p (u ++ t) = headIs p (u ++ r) :=
  h.headIs_drop hp (Nat.zero_le _) hlt

end Cut

/-- The measure of what stands at the head of a text is not changed by a cut behind it. -/
def EndsBeforeCut (f : List Char → Nat) : Prop :=
  ∀ u r t : List Char, Cut r t → f (u ++ r) ≤ u.length → f (u ++ t) = f (u ++ r)

theorem EndsBeforeCut.drop {f : List Char → Nat} (hf : EndsBeforeCut f) {u r t : List Char}
    (h : Cut r t) {n : Nat} (hle : n + f ((u ++ r).drop n) ≤ u.length) :
    f ((u ++ t).drop n) = f ((u ++ r).drop n) := by
  have hn : n ≤ u.length := by omega
  rw [List.drop_append_of_le_length hn] at hle ⊢
  rw [List.drop_append_of_le_length hn]
  refine hf (u.drop n) r t h ?_
  rw [List.length_drop]
  omega

theorem endsBeforeCut_countWhile {p : Char → Bool} (hp : p ' ' = false) :
    EndsBeforeCut (countWhile p) := by
  intro u r t h hle
  exact Cut.countWhile (by simp [h.headIs_eq_false hp]) hle

/-- Where nothing stands in front of a cut, what may stand behind it has no measure. -/
theorem endsBeforeCut_of_cons {f : List Char → Nat} (hnil : ∀ r t, Cut r t → f t = 0)
    (hcons : ∀ c u r t, Cut r t → f (c :: (u ++ r)) ≤ u.length + 1 →
      f (c :: (u ++ t)) = f (c :: (u ++ r))) : EndsBeforeCut f := by
  intro u r t h hle
  cases u with
  | nil => exact (hnil r t h).trans (Nat.eq_zero_of_le_zero hle).symm
  | cons c u => exact hcons c u r t h hle

theorem endsBeforeCut_lineBreak : EndsBeforeCut lineBreak := by
  refine endsBeforeCut_of_cons (fun r t h => h.lineBreak_eq_zero) fun c u r t h hle => ?_
  rw [lineBreak_cons] at hle ⊢
  rw [lineBreak_cons]
  by_cases hfeed : c = '\n'
  · simp [hfeed]
  · by_cases hreturn : c = '\r'
    · rw [h.headIs rfl]
      intro hhead
      rw [if_neg hfeed, if_pos ⟨hreturn, hhead⟩] at hle
      omega
    · simp [hfeed, hreturn]

end Text

-- ---------------------------------------------------------------------------
-- Numbers
-- ---------------------------------------------------------------------------

namespace Lexeme

theorem endsBeforeCut_integerSuffix : EndsBeforeCut integerSuffix := by
  refine endsBeforeCut_of_cons (fun r t h => by cases h <;> rfl) fun c u r t h hle => ?_
  rw [integerSuffix] at hle ⊢
  rw [integerSuffix]
  by_cases hletter : isLetter 'u' c = true
  · rw [h.headIs (p := isSizeSuffix) rfl]
    intro hsize
    simp only [hletter, hsize, Bool.and_self, if_true] at hle
    omega
  · simp [hletter]

theorem endsBeforeCut_fraction : EndsBeforeCut fraction := by
  refine endsBeforeCut_of_cons (fun r t h => by cases h <;> rfl) fun c u r t h hle => ?_
  by_cases hdot : c = '.'
  · subst hdot
    rw [fraction] at hle ⊢
    rw [fraction]
    by_cases hdigit : headIs Char.isDigit (u ++ r) = true
    · have hpos := countWhile_pos hdigit
      rw [if_pos hdigit] at hle
      rw [h.headIs rfl (fun _ => by omega), endsBeforeCut_countWhile rfl u r t h (by omega)]
    · rw [h.headIs rfl fun hhead => absurd hhead hdigit]
      simp [hdigit]
  · simp [fraction, hdot]

/-- The length of the sign at the head of an exponent's digits. -/
def sign (text : List Char) : Nat := if headIs (fun d => d == '+' || d == '-') text then 1 else 0

theorem exponent_cons (c : Char) (rest : List Char) : exponent (c :: rest) =
    if isLetter 'e' c && headIs Char.isDigit (rest.drop (sign rest)) then
      1 + sign rest + countWhile Char.isDigit (rest.drop (sign rest))
    else 0 := rfl

theorem sign_le_one (text : List Char) : sign text ≤ 1 := by
  unfold sign
  split <;> decide

theorem endsBeforeCut_sign : EndsBeforeCut sign := by
  refine endsBeforeCut_of_cons (fun r t h => ?_) fun c u r t h _ => rfl
  simp [sign, h.headIs_eq_false]

theorem endsBeforeCut_exponent : EndsBeforeCut exponent := by
  refine endsBeforeCut_of_cons (fun r t h => by cases h <;> rfl) fun c u r t h hle => ?_
  rw [exponent_cons] at hle ⊢
  rw [exponent_cons]
  by_cases hletter : isLetter 'e' c = true
  · by_cases hdigit : headIs Char.isDigit ((u ++ r).drop (sign (u ++ r))) = true
    · have hpos := countWhile_pos hdigit
      simp only [hletter, hdigit, Bool.and_self, if_true] at hle
      have hsign := endsBeforeCut_sign u r t h (by omega)
      rw [hsign, h.headIs_drop rfl (by omega) (fun _ => by omega),
        (endsBeforeCut_countWhile rfl).drop h (by omega)]
    · have hcut : headIs Char.isDigit ((u ++ t).drop (sign (u ++ t))) = false := by
        by_cases hempty : u = []
        · subst hempty
          have hsign : sign t = 0 := by simp [sign, h.headIs_eq_false]
          rw [List.nil_append, hsign]
          exact h.headIs_eq_false rfl
        · have hlength := List.length_pos_iff.2 hempty
          have hle := sign_le_one (u ++ r)
          rw [endsBeforeCut_sign u r t h (by omega),
            h.headIs_drop rfl (by omega) fun hhead => absurd hhead hdigit]
          exact Bool.eq_false_iff.2 hdigit
      simp [hdigit, hcut]
  · simp [hletter]

variable {r t u : List Char}

/-- A number that ends in front of a cut is not changed by it. -/
theorem number_cut (h : Cut r t) (hle : (number (u ++ r)).length ≤ u.length) :
    number (u ++ t) = number (u ++ r) := by
  unfold number at hle ⊢
  dsimp only at hle ⊢
  have hlength : countWhile Char.isDigit (u ++ r) +
      fraction ((u ++ r).drop (countWhile Char.isDigit (u ++ r))) +
      exponent ((u ++ r).drop (countWhile Char.isDigit (u ++ r) +
        fraction ((u ++ r).drop (countWhile Char.isDigit (u ++ r))))) ≤ u.length := by
    refine Nat.le_trans ?_ hle
    split
    · exact Nat.le_succ _
    · split
      · exact Nat.le_refl _
      · exact Nat.le_add_right _ _
  rw [endsBeforeCut_countWhile (p := Char.isDigit) rfl u r t h (by omega),
    endsBeforeCut_fraction.drop h (by omega), endsBeforeCut_exponent.drop h (by omega)]
  generalize countWhile Char.isDigit (u ++ r) +
      fraction ((u ++ r).drop (countWhile Char.isDigit (u ++ r))) +
      exponent ((u ++ r).drop (countWhile Char.isDigit (u ++ r) +
        fraction ((u ++ r).drop (countWhile Char.isDigit (u ++ r))))) = length at *
  have hfloat :
      headIs isFloatSuffix ((u ++ t).drop length) = headIs isFloatSuffix
        ((u ++ r).drop length) := by
    refine h.headIs_drop rfl hlength fun hhead => ?_
    rw [if_pos hhead] at hle
    exact hle
  rw [hfloat]
  split
  · rfl
  · split
    · rfl
    · rename_i hnone hwhole
      rw [if_neg hnone, if_neg hwhole] at hle
      rw [endsBeforeCut_integerSuffix.drop h hle]

-- ---------------------------------------------------------------------------
-- Words, names in brackets and operators
-- ---------------------------------------------------------------------------

theorem length_word_ge (text : List Char) : countWhile continuesWord text ≤ (word text).length := by
  unfold word
  dsimp only
  split
  · exact Nat.le_succ _
  · split <;> exact Nat.le_refl _

/-- A type character behind the letters belongs to the word. -/
theorem length_word_of_typeCharacter {text : List Char}
    (h : headIs isTypeCharacter (text.drop (countWhile continuesWord text)) = true) :
    (word text).length = countWhile continuesWord text + 1 := by
  unfold word
  dsimp only
  rw [if_pos h]

theorem word_cut (h : Cut r t) (hle : (word (u ++ r)).length ≤ u.length) :
    word (u ++ t) = word (u ++ r) := by
  have hletters : countWhile continuesWord (u ++ r) ≤ u.length :=
    Nat.le_trans (length_word_ge _) hle
  have htype := h.headIs_drop (p := isTypeCharacter) rfl hletters fun hhead => by
    rw [length_word_of_typeCharacter hhead] at hle
    exact hle
  unfold word
  dsimp only
  rw [endsBeforeCut_countWhile (p := continuesWord) rfl u r t h hletters, htype,
    take_append_eq (t := t) (r := r) hletters]

theorem bracketed_cut (hle : (bracketed (u ++ r)).length ≤ u.length + 1)
    (hkind : (bracketed (u ++ r)).kind ≠ .invalid) (t : List Char) :
    bracketed (u ++ t) = bracketed (u ++ r) := by
  unfold bracketed at hle hkind ⊢
  dsimp only at hle hkind ⊢
  split at hkind
  · exact absurd rfl hkind
  · rename_i hclosed
    rw [if_neg hclosed] at hle
    have hname : countWhile (fun c => c != ']' && !isLineEnd c) (u ++ r) < u.length := by
      simp only at hle
      omega
    have hdrop (s : List Char) : headIs (· == ']')
        ((u ++ s).drop (countWhile (fun c => c != ']' && !isLineEnd c) (u ++ r))) =
          headIs (· == ']') (u.drop (countWhile (fun c => c != ']' && !isLineEnd c) (u ++ r))) := by
      rw [List.drop_append_of_le_length (Nat.le_of_lt hname), headIs_append]
      simp [hname]
    rw [countWhile_of_lt hname t, hdrop t, ← hdrop r]

theorem compound_cut (h : Cut r t) {plain assigning : Mark} {length : Nat}
    (hle : (compound plain assigning length (u ++ r)).length ≤ u.length + length) :
    compound plain assigning length (u ++ t) = compound plain assigning length (u ++ r) := by
  unfold compound at hle ⊢
  rw [h.headIs rfl]
  intro hequal
  rw [if_pos hequal] at hle
  simp only [ofMark] at hle
  omega

theorem less_of_cut (h : Cut r t) : less t = ofMark .less 1 := by
  cases h <;> rfl

theorem greater_of_cut (h : Cut r t) : greater t = ofMark .greater 1 := by
  cases h <;> rfl

theorem length_compound_ge (plain assigning : Mark) (length : Nat) (rest : List Char) :
    length ≤ (compound plain assigning length rest).length := by
  unfold compound
  split
  · exact Nat.le_succ _
  · exact Nat.le_refl _

theorem less_of_length_le {rest : List Char} (h : (less rest).length ≤ 1) :
    less rest = ofMark .less 1 := by
  unfold less at h ⊢
  split at h
  · exact absurd h (by decide)
  · exact absurd h (by decide)
  · exact absurd (Nat.le_trans (length_compound_ge _ _ _ _) h) (by decide)
  · rfl

theorem greater_of_length_le {rest : List Char} (h : (greater rest).length ≤ 1) :
    greater rest = ofMark .greater 1 := by
  unfold greater at h ⊢
  split at h
  · exact absurd h (by decide)
  · exact absurd (Nat.le_trans (length_compound_ge _ _ _ _) h) (by decide)
  · rfl

theorem less_cut (h : Cut r t) (hle : (less (u ++ r)).length ≤ u.length + 1) :
    less (u ++ t) = less (u ++ r) := by
  cases u with
  | nil => exact (less_of_cut h).trans (less_of_length_le hle).symm
  | cons c u =>
    by_cases hless : c = '<'
    · subst hless
      exact compound_cut h hle
    · by_cases hequal : c = '='
      · simp [hequal, less]
      · by_cases hgreater : c = '>'
        · simp [hgreater, less]
        · simp [less, hless, hequal, hgreater]

theorem greater_cut (h : Cut r t) (hle : (greater (u ++ r)).length ≤ u.length + 1) :
    greater (u ++ t) = greater (u ++ r) := by
  cases u with
  | nil => exact (greater_of_cut h).trans (greater_of_length_le hle).symm
  | cons c u =>
    by_cases hgreater : c = '>'
    · subst hgreater
      exact compound_cut h hle
    · by_cases hequal : c = '='
      · simp [hequal, greater]
      · simp [greater, hequal, hgreater]

/-- The number that a letter behind an ampersand opens, in the digits of its base. -/
def based (isDigit : Char → Bool) (rest : List Char) : Lexeme :=
  ⟨.literal .integer, 2 + countWhile isDigit (rest.drop 1) +
    integerSuffix ((rest.drop 1).drop (countWhile isDigit (rest.drop 1)))⟩

theorem ampersand_eq_ite (rest : List Char) : ampersand rest =
    if headIs (isLetter 'h') rest && headIs isHexDigit (rest.drop 1) then based isHexDigit rest
    else if headIs (isLetter 'o') rest && headIs isOctalDigit (rest.drop 1) then
      based isOctalDigit rest
    else compound .ampersand .ampersandEqual 1 rest := rfl

theorem based_cut (h : Cut r t) {isDigit : Char → Bool} (hdigit : isDigit ' ' = false)
    (hu : u ≠ []) (hle : (based isDigit (u ++ r)).length ≤ u.length + 1) :
    based isDigit (u ++ t) = based isDigit (u ++ r) := by
  obtain ⟨c, u, rfl⟩ := List.exists_cons_of_ne_nil hu
  unfold based at hle ⊢
  simp only [List.cons_append, List.drop_succ_cons, List.drop_zero, List.length_cons] at hle ⊢
  rw [endsBeforeCut_countWhile hdigit u r t h (by omega),
    endsBeforeCut_integerSuffix.drop h (by omega)]

/-- Whether a number is opened is seen in front of the cut, if the number ends there. -/
theorem opensBased_cut (h : Cut r t) {letter isDigit : Char → Bool} (hletter : letter ' ' = false)
    (hdigit : isDigit ' ' = false)
    (hle : (headIs letter (u ++ r) && headIs isDigit ((u ++ r).drop 1)) = true → 2 ≤ u.length) :
    (headIs letter (u ++ t) && headIs isDigit ((u ++ t).drop 1)) =
      (headIs letter (u ++ r) && headIs isDigit ((u ++ r).drop 1)) := by
  cases u with
  | nil =>
    have hnone : (headIs letter r && headIs isDigit (r.drop 1)) = false :=
      Bool.eq_false_iff.2 fun h => absurd (hle h) (by decide)
    rw [List.nil_append, List.nil_append, h.headIs_eq_false hletter, hnone, Bool.false_and]
  | cons c u =>
    simp only [List.cons_append, List.drop_succ_cons, List.drop_zero, List.length_cons] at hle ⊢
    by_cases hc : letter c = true
    · rw [h.headIs hdigit]
      · rfl
      · intro hhead
        have htwo := hle (Bool.and_eq_true_iff.2 ⟨hc, hhead⟩)
        omega
    · simp [headIs, hc]

theorem ampersand_cut (h : Cut r t) (hle : (ampersand (u ++ r)).length ≤ u.length + 1) :
    ampersand (u ++ t) = ampersand (u ++ r) := by
  have hlong {isDigit letter : Char → Bool} (hle : (based isDigit (u ++ r)).length ≤ u.length + 1)
      (hopens : (headIs letter (u ++ r) && headIs isDigit ((u ++ r).drop 1)) = true) :
      2 ≤ u.length := by
    have hpos := countWhile_pos (Bool.and_eq_true_iff.1 hopens).2
    unfold based at hle
    simp only at hle
    omega
  rw [ampersand_eq_ite] at hle ⊢
  rw [ampersand_eq_ite]
  by_cases hhex : (headIs (isLetter 'h') (u ++ r) && headIs isHexDigit ((u ++ r).drop 1)) = true
  · rw [if_pos hhex] at hle
    have htwo := hlong hle hhex
    rw [opensBased_cut h rfl rfl fun _ => htwo, if_pos hhex, if_pos hhex]
    exact based_cut h rfl (List.ne_nil_of_length_pos (by omega)) hle
  · rw [opensBased_cut h rfl rfl fun hopens => absurd hopens hhex, if_neg hhex, if_neg hhex]
    rw [if_neg hhex] at hle
    by_cases hoctal :
      (headIs (isLetter 'o') (u ++ r) && headIs isOctalDigit ((u ++ r).drop 1)) = true
    · rw [if_pos hoctal] at hle
      have htwo := hlong hle hoctal
      rw [opensBased_cut h rfl rfl fun _ => htwo, if_pos hoctal, if_pos hoctal]
      exact based_cut h rfl (List.ne_nil_of_length_pos (by omega)) hle
    · rw [opensBased_cut h rfl rfl fun hopens => absurd hopens hoctal, if_neg hoctal, if_neg hoctal]
      rw [if_neg hoctal] at hle
      exact compound_cut h hle

-- ---------------------------------------------------------------------------
-- Quoted text, dates and preprocessor lines
-- ---------------------------------------------------------------------------

theorem quotedBody_pos {rest : List Char} {length denoted : Nat}
    (h : quotedBody rest = some (length, denoted)) : 0 < length := by
  cases rest with
  | nil => cases h
  | cons c rest =>
    rw [quotedBody_cons] at h
    split at h
    · split at h
      · obtain ⟨body, -, hpair⟩ := Option.map_eq_some_iff.1 h
        cases hpair
        exact Nat.succ_pos _
      · cases h
        exact Nat.one_pos
    · split at h
      · cases h
      · obtain ⟨body, -, hpair⟩ := Option.map_eq_some_iff.1 h
        cases hpair
        exact Nat.succ_pos _

/-- A text in quotes that ends in front of a cut, or with what stands there, ends there as well if
what follows is cut. -/
theorem quotedBody_cut (h : Cut r t) {length denoted : Nat}
    (hbody : quotedBody (u ++ r) = some (length, denoted)) (hle : length ≤ u.length) :
    quotedBody (u ++ t) = some (length, denoted) := by
  induction hsize : u.length using Nat.strongRecOn generalizing u length denoted with
  | _ size ih =>
  have hpos := quotedBody_pos hbody
  obtain ⟨c, u, rfl⟩ := List.exists_cons_of_length_pos (Nat.lt_of_lt_of_le hpos hle)
  rw [List.length_cons] at hle hsize
  rw [List.cons_append, quotedBody_cons] at hbody ⊢
  split at hbody
  · rename_i hquote
    rw [if_pos hquote]
    split at hbody
    · -- A doubled quote; the second one is in front of the cut as well.
      rename_i hdouble
      obtain ⟨⟨inner, _⟩, hinner, hpair⟩ := Option.map_eq_some_iff.1 hbody
      cases hpair
      obtain ⟨d, u, rfl⟩ := List.exists_cons_of_length_pos (l := u) (by omega)
      rw [List.length_cons] at hle hsize
      have hrest := ih u.length (by omega) hinner (by omega) rfl
      have hdouble' : headIs (· == '"') (d :: u ++ t) = true := hdouble
      rw [if_pos hdouble', List.cons_append, List.tail_cons, hrest]
      rfl
    · rename_i hsingle
      rw [h.headIs (p := (· == '"')) rfl fun hhead => absurd hhead hsingle, if_neg hsingle, hbody]
  · rename_i hother
    rw [if_neg hother]
    split at hbody
    · cases hbody
    · rename_i hline
      obtain ⟨⟨inner, _⟩, hinner, hpair⟩ := Option.map_eq_some_iff.1 hbody
      cases hpair
      rw [if_neg hline, ih u.length (by omega) hinner (by omega) rfl]
      rfl

theorem quoted_cut (h : Cut r t) (hle : (quoted (u ++ r)).length ≤ u.length + 1)
    (hkind : (quoted (u ++ r)).kind ≠ .invalid) : quoted (u ++ t) = quoted (u ++ r) := by
  unfold quoted at hle hkind ⊢
  cases hbody : quotedBody (u ++ r) with
  | none =>
    rw [hbody] at hkind
    exact absurd rfl hkind
  | some body =>
    obtain ⟨length, denoted⟩ := body
    rw [hbody] at hle
    dsimp only at hle
    have hlength : length ≤ u.length := by
      split at hle
      · exact Nat.le_of_succ_le (Nat.le_of_succ_le_succ hle)
      · exact Nat.le_of_succ_le_succ hle
    rw [quotedBody_cut h hbody hlength]
    dsimp only
    by_cases hone : denoted = 1
    · rw [h.headIs_drop (p := isLetter 'c') rfl hlength]
      intro hletter
      rw [if_pos (by simp [hone, hletter])] at hle
      exact Nat.le_of_succ_le_succ hle
    · simp [hone]

theorem numberSign_eq_ite (rest : List Char) : numberSign rest =
    if (rest.takeWhile isDateCharacter).any (!isSpaceOrTab ·) &&
        headIs (· == '#') (rest.drop (countWhile isDateCharacter rest)) then
      ⟨.literal .date, countWhile isDateCharacter rest + 2⟩
    else ⟨.directive, 1 + countWhile (!isLineEnd ·) rest⟩ := rfl

/-- The characters of a date are all on one line. -/
theorem countWhile_date_le (rest : List Char) :
    countWhile isDateCharacter rest ≤ countWhile (!isLineEnd ·) rest := by
  induction rest with
  | nil => exact Nat.le_refl _
  | cons c rest ih =>
    rw [countWhile_cons, countWhile_cons]
    by_cases hdate : isDateCharacter c = true
    · have hline : isLineEnd c = false := by
        by_contra hend
        rw [Bool.not_eq_false, isLineEnd, Bool.or_eq_true, beq_iff_eq, beq_iff_eq] at hend
        rcases hend with rfl | rfl <;> exact absurd hdate (by decide)
      simp [hdate, hline, ih]
    · simp [hdate]

/-- A date ends with its second sign, and a preprocessor line with the line. -/
theorem numberSign_cut (h : Cut r t) (hle : (numberSign (u ++ r)).length ≤ u.length + 1) :
    numberSign (u ++ t) = numberSign (u ++ r) := by
  have hdate := countWhile_date_le (u ++ r)
  rw [numberSign_eq_ite] at hle ⊢
  rw [numberSign_eq_ite]
  have hline (hle : countWhile (!isLineEnd ·) (u ++ r) ≤ u.length) :
      countWhile (!isLineEnd ·) (u ++ t) = countWhile (!isLineEnd ·) (u ++ r) := by
    refine Cut.countWhile (fun hhead => ?_) hle
    cases h with
    | nothing => cases hhead
    | blank => rfl
  by_cases hwithin : countWhile isDateCharacter (u ++ r) < u.length
  · have hdrop (s : List Char) :
        headIs (· == '#') ((u ++ s).drop (countWhile isDateCharacter (u ++ r))) =
        headIs (· == '#') (u.drop (countWhile isDateCharacter (u ++ r))) := by
      rw [List.drop_append_of_le_length (Nat.le_of_lt hwithin), headIs_append]
      simp [hwithin]
    have htake : (u ++ t).takeWhile isDateCharacter = (u ++ r).takeWhile isDateCharacter := by
      rw [takeWhile_of_countWhile (s := u ++ t) rfl, takeWhile_of_countWhile (s := u ++ r) rfl,
        countWhile_of_lt hwithin t]
      · exact Nat.le_of_lt hwithin
      · rw [countWhile_of_lt hwithin t]
        exact Nat.le_of_lt hwithin
    rw [htake, countWhile_of_lt hwithin t, hdrop t, ← hdrop r]
    split
    · rfl
    · rename_i hnone
      rw [if_neg hnone] at hle
      simp only at hle
      rw [hline (by omega)]
  · -- All of the text is of a date, so the line ends with it, and no sign follows.
    have hnone : ¬((((u ++ r).takeWhile isDateCharacter).any (!isSpaceOrTab ·) &&
        headIs (· == '#') ((u ++ r).drop (countWhile isDateCharacter (u ++ r)))) = true) := by
      intro hsome
      rw [if_pos hsome] at hle
      simp only at hle
      omega
    rw [if_neg hnone] at hle ⊢
    simp only at hle
    have hend := headIs_drop_countWhile (!isLineEnd ·) (u ++ r)
    have hlength : countWhile (!isLineEnd ·) (u ++ r) = u.length := by omega
    rw [hlength, List.drop_left] at hend
    have hnone' : ¬((((u ++ t).takeWhile isDateCharacter).any (!isSpaceOrTab ·) &&
        headIs (· == '#') ((u ++ t).drop (countWhile isDateCharacter (u ++ t)))) = true) := by
      cases h with
      | nothing =>
        have hall : countWhile isDateCharacter (u ++ []) = u.length := by
          rw [Cut.countWhile (p := isDateCharacter) (r := r)
            (fun hhead => by cases hhead) (by omega)]
          omega
        rw [hall, List.drop_left, Bool.and_eq_true, not_and]
        exact fun _ => Bool.false_ne_true
      | blank => cases hend
    rw [if_neg hnone', hline (by omega)]

-- ---------------------------------------------------------------------------
-- The lexeme at the head
-- ---------------------------------------------------------------------------

/-- The lexeme at the head of a text that begins with no line break, number or word. -/
def punctuation (c : Char) (rest : List Char) : Lexeme :=
  match c with
  | '.' => ofMark .dot (1 + lineBreak rest)
  | ',' => ofMark .comma (1 + lineBreak rest)
  | '"' => quoted rest
  | '#' => numberSign rest
  | '[' => bracketed rest
  | '&' => ampersand rest
  | ':' => ofMark .colon 1
  | '(' => ofMark .leftParen 1
  | ')' => ofMark .rightParen 1
  | '{' => ofMark .leftBrace 1
  | '}' => ofMark .rightBrace 1
  | '=' => ofMark .equal 1
  | '<' => less rest
  | '>' => greater rest
  | '+' => compound .plus .plusEqual 1 rest
  | '-' => compound .minus .minusEqual 1 rest
  | '*' => compound .star .starEqual 1 rest
  | '/' => compound .slash .slashEqual 1 rest
  | '\\' => compound .backslash .backslashEqual 1 rest
  | '^' => compound .caret .caretEqual 1 rest
  | _ => ⟨.invalid, 1⟩

theorem ofText_cons (c : Char) (rest : List Char) : ofText (c :: rest) =
    if lineBreak (c :: rest) ≠ 0 then ⟨.newline, lineBreak (c :: rest)⟩
    else if c.isDigit || (c == '.' && headIs Char.isDigit rest) then number (c :: rest)
    else if opensWord c then word (c :: rest)
    else punctuation c rest := rfl

theorem punctuation_cut (h : Cut r t) {c : Char}
    (hle : (punctuation c (u ++ r)).length ≤ u.length + 1)
    (hkind : (punctuation c (u ++ r)).kind ≠ .invalid) :
    punctuation c (u ++ t) = punctuation c (u ++ r) := by
  have hbreak (hle : 1 + lineBreak (u ++ r) ≤ u.length + 1) :
      lineBreak (u ++ t) = lineBreak (u ++ r) :=
    endsBeforeCut_lineBreak u r t h (by omega)
  revert hle hkind
  unfold punctuation
  split
  all_goals intro hle hkind
  case h_1 | h_2 => rw [hbreak hle]
  case h_3 => exact quoted_cut h hle hkind
  case h_4 => exact numberSign_cut h hle
  case h_5 => exact bracketed_cut hle hkind t
  case h_6 => exact ampersand_cut h hle
  case h_13 => exact less_cut h hle
  case h_14 => exact greater_cut h hle
  case h_15 | h_16 | h_17 | h_18 | h_19 | h_20 => exact compound_cut h hle
  all_goals rfl

/-- A number that begins with a dot has a digit behind it. -/
theorem two_le_length_number {rest : List Char} (h : headIs Char.isDigit rest = true) :
    2 ≤ (number ('.' :: rest)).length := by
  have hpos := countWhile_pos h
  have hwhole : countWhile Char.isDigit ('.' :: rest) = 0 := rfl
  have hfraction : fraction ('.' :: rest) = 1 + countWhile Char.isDigit rest := if_pos h
  unfold number
  dsimp only
  rw [hwhole, List.drop_zero, hfraction]
  split
  · simp only
    omega
  · split <;> simp only <;> omega

/-- A token at the head of a text that ends in front of a cut is not changed by it. -/
theorem ofText_cut (h : Cut r t) (hne : u ≠ []) (hle : (ofText (u ++ r)).length ≤ u.length)
    (hkind : (ofText (u ++ r)).kind ≠ .invalid) : ofText (u ++ t) = ofText (u ++ r) := by
  obtain ⟨c, u, rfl⟩ := List.exists_cons_of_ne_nil hne
  rw [List.cons_append, ofText_cons] at hle hkind ⊢
  rw [List.cons_append, ofText_cons]
  by_cases hbreak : lineBreak (c :: (u ++ r)) = 0
  · have hbreak' : lineBreak (c :: (u ++ t)) = 0 := by
      have hcut := endsBeforeCut_lineBreak (c :: u) r t h
      rw [List.cons_append, List.cons_append, hbreak] at hcut
      exact hcut (Nat.zero_le _)
    simp only [hbreak, hbreak', ne_eq, not_true_eq_false, if_false] at hle hkind ⊢
    have hopens : (c.isDigit || (c == '.' && headIs Char.isDigit (u ++ t))) =
        (c.isDigit || (c == '.' && headIs Char.isDigit (u ++ r))) := by
      by_cases hdot : c = '.'
      · subst hdot
        rw [h.headIs (p := Char.isDigit) rfl]
        intro hdigit
        have htwo := two_le_length_number hdigit
        have hnumber :
            (Char.isDigit '.' || ('.' == '.' && headIs Char.isDigit (u ++ r))) = true := by
          rw [hdigit]
          rfl
        rw [if_pos hnumber, List.length_cons] at hle
        omega
      · rw [beq_eq_false_iff_ne.2 hdot, Bool.false_and, Bool.false_and]
    rw [hopens]
    by_cases hnumber : (c.isDigit || (c == '.' && headIs Char.isDigit (u ++ r))) = true
    · rw [if_pos hnumber] at hle ⊢
      rw [if_pos hnumber]
      exact number_cut (u := c :: u) h hle
    · rw [if_neg hnumber] at hle hkind ⊢
      rw [if_neg hnumber]
      by_cases hword : opensWord c = true
      · rw [if_pos hword] at hle ⊢
        rw [if_pos hword]
        exact word_cut (u := c :: u) h hle
      · rw [if_neg hword] at hle hkind ⊢
        rw [if_neg hword]
        exact punctuation_cut h hle hkind
  · rw [if_pos hbreak] at hle ⊢
    have hcut : lineBreak (c :: (u ++ t)) = lineBreak (c :: (u ++ r)) :=
      endsBeforeCut_lineBreak (c :: u) r t h hle
    rw [hcut, if_pos hbreak]

/-- What goes on with a word belongs to it. -/
theorem length_word_gt {text : List Char} {n : Nat} (hletters : n ≤ countWhile continuesWord text)
    (h : headIs (fun d => continuesWord d || isTypeCharacter d) (text.drop n) = true) :
    n < (word text).length := by
  rcases Nat.lt_or_ge n (countWhile continuesWord text) with hlt | hge
  · exact Nat.lt_of_lt_of_le hlt (length_word_ge text)
  · obtain rfl : n = countWhile continuesWord text := Nat.le_antisymm hletters hge
    have hend := headIs_drop_countWhile continuesWord text
    have htype : headIs isTypeCharacter (text.drop (countWhile continuesWord text)) = true := by
      cases hrest : text.drop (countWhile continuesWord text) with
      | nil =>
        rw [hrest] at h
        cases h
      | cons d rest =>
        rw [hrest] at h hend
        have hd : continuesWord d = false := hend
        simpa [headIs, hd] using h
    rw [length_word_of_typeCharacter htype]
    exact Nat.lt_succ_self _

end Lexeme

-- ---------------------------------------------------------------------------
-- Trivia
-- ---------------------------------------------------------------------------

namespace Trivia

variable {r t u : List Char}

theorem shape?_cons (c : Char) (rest : List Char) : shape? (c :: rest) =
    if isBlank c then some (.whitespace, countWhile isBlank (c :: rest))
    else if c == '\'' || opensRemark (c :: rest) then
      some (.comment, countWhile (!isLineEnd ·) (c :: rest))
    else if continuation (c :: rest) = 0 then none
    else some (.lineContinuation, continuation (c :: rest)) := rfl

theorem shape?_eq_none_iff {c : Char} {rest : List Char} : shape? (c :: rest) = none ↔
    isBlank c = false ∧ c ≠ '\'' ∧ opensRemark (c :: rest) = false ∧
    continuation (c :: rest) = 0 := by
  rw [shape?_cons]
  by_cases hquote : c = '\''
  · cases isBlank c <;> simp [hquote]
  · cases isBlank c <;> cases opensRemark (c :: rest) <;> simp [hquote]

/-- What goes on with the word `REM` makes it a longer word. -/
theorem length_ofText_of_remark {a b c : Char} (ha : isLetter 'r' a = true)
    (hb : isLetter 'e' b = true)
    (hc : isLetter 'm' c = true) {rest : List Char}
    (h : headIs (fun d => continuesWord d || isTypeCharacter d) rest = true) :
    3 < (Lexeme.ofText (a :: b :: c :: rest)).length := by
  have hletter {x d : Char} (hx : continuesWord x = true) (hd : isLetter x d = true) :
      continuesWord d = true := by
    rw [← caseless_continuesWord d, beq_iff_eq.1 hd, hx]
  have hbegins : Lexeme.beginsWord a = true := by
    have hcaseless : Caseless Lexeme.beginsWord := caseless_of_letters (by decide)
    rw [← hcaseless a, beq_iff_eq.1 ha]
    decide
  rw [Lexeme.ofText_of_beginsWord hbegins]
  refine Lexeme.length_word_gt ?_ h
  rw [countWhile_cons, countWhile_cons, countWhile_cons, if_pos (hletter rfl ha),
    if_pos (hletter rfl hb), if_pos (hletter rfl hc)]
  omega

theorem opensRemark_iff {text : List Char} : opensRemark text = true ↔
    ∃ a b c rest, text = a :: b :: c :: rest ∧ isLetter 'r' a = true ∧ isLetter 'e' b = true ∧
      isLetter 'm' c = true ∧
      headIs (fun d => continuesWord d || isTypeCharacter d) rest = false := by
  unfold opensRemark
  split
  · simp [and_assoc]
  · rename_i hshort
    simp only [Bool.false_eq_true, false_iff]
    rintro ⟨a, b, c, rest, rfl, -⟩
    exact hshort a b c rest rfl

/-- A remark that begins in front of a cut begins there without the cut as well, unless a longer
word does. -/
theorem opensRemark_cut (h : Cut r t) (hle : (Lexeme.ofText (u ++ r)).length ≤ u.length)
    (hremark : opensRemark (u ++ t) = true) : opensRemark (u ++ r) = true := by
  obtain ⟨a, b, c, rest, htext, ha, hb, hc, hend⟩ := opensRemark_iff.1 hremark
  -- A blank is none of the letters, so all three stand in front of the cut.
  have hfront : u.take 3 = [a, b, c] := by
    match u, htext with
    | [], htext | [_], htext | [_, _], htext =>
      cases h with
      | nothing => cases htext
      | blank =>
        cases htext
        first
          | exact absurd ha (by decide)
          | exact absurd hb (by decide)
          | exact absurd hc (by decide)
    | _ :: _ :: _ :: _, htext =>
      cases htext
      rfl
  obtain ⟨u, rfl⟩ : ∃ u', u = a :: b :: c :: u' :=
    ⟨u.drop 3, by rw [← List.take_append_drop 3 u, hfront]; rfl⟩
  obtain rfl : u ++ t = rest := by simpa using htext
  refine opensRemark_iff.2 ⟨a, b, c, u ++ r, rfl, ha, hb, hc, ?_⟩
  by_cases hempty : u = []
  · subst hempty
    by_contra hlonger
    have hlong := length_ofText_of_remark ha hb hc (Bool.not_eq_false _ ▸ hlonger)
    exact absurd hle (Nat.not_le_of_lt hlong)
  · rw [headIs_append hempty]
    rwa [headIs_append hempty] at hend

/-- What goes on with an underscore as a word is no part of a continued line. -/
theorem continuation_of_second {d : Char} (hd : (continuesWord d || isTypeCharacter d) = true)
    (rest : List Char) : continuation ('_' :: d :: rest) = 0 := by
  have hblank : isSpaceOrTab d = false := by
    by_contra hblank
    rw [Bool.not_eq_false, isSpaceOrTab, Bool.or_eq_true, beq_iff_eq, beq_iff_eq] at hblank
    rcases hblank with rfl | rfl <;> exact absurd hd (by decide)
  have hfeed : d ≠ '\n' := by
    rintro rfl
    exact absurd hd (by decide)
  have hreturn : d ≠ '\r' := by
    rintro rfl
    exact absurd hd (by decide)
  simp [continuation, countWhile_cons, hblank, lineBreak_cons, hfeed, hreturn]

/-- A word of an underscore and more has a character behind the underscore that goes on with it. -/
theorem exists_second {rest : List Char} (h : 2 ≤ (Lexeme.ofText ('_' :: rest)).length) :
    ∃ d rest', rest = d :: rest' ∧ (continuesWord d || isTypeCharacter d) = true := by
  rw [Lexeme.ofText_of_beginsWord (by decide)] at h
  have hletters : countWhile continuesWord ('_' :: rest) = countWhile continuesWord rest + 1 :=
    countWhile_cons _ _ _
  cases rest with
  | nil => exact absurd h (by decide)
  | cons d rest =>
    refine ⟨d, rest, rfl, ?_⟩
    by_contra hlone
    rw [Bool.not_eq_true, Bool.or_eq_false_iff] at hlone
    have hone : countWhile continuesWord ('_' :: d :: rest) = 1 := by
      rw [hletters, countWhile_cons, hlone.1]
      rfl
    unfold Lexeme.word at h
    rw [hone] at h
    simp only [List.drop_succ_cons, List.drop_zero, headIs, hlone.2] at h
    split at h
    · contradiction
    · split at h <;> simp at h

/-- No trivia begins where a token begins that ends in front of a cut. A lone underscore must be all
that is left, lest a line break behind it joins it to the next line. -/
theorem shape?_cut (h : Cut r t) (hne : u ≠ []) (hle : (Lexeme.ofText (u ++ r)).length ≤ u.length)
    (hlone : u.head? = some '_' → u ++ t = ['_'] ∨ 2 ≤ (Lexeme.ofText (u ++ r)).length)
    (hnone : shape? (u ++ r) = none) : shape? (u ++ t) = none := by
  obtain ⟨c, u, rfl⟩ := List.exists_cons_of_ne_nil hne
  rw [List.cons_append, shape?_eq_none_iff] at hnone ⊢
  obtain ⟨hblank, hquote, hremark, -⟩ := hnone
  refine ⟨hblank, hquote, ?_, ?_⟩
  · exact Bool.eq_false_iff.2 fun hopens =>
      absurd (opensRemark_cut (u := c :: u) h hle hopens) (Bool.eq_false_iff.1 hremark)
  · by_cases hunderscore : c = '_'
    · subst hunderscore
      rcases hlone rfl with hall | htwo
      · rw [show u ++ t = [] from List.tail_eq_of_cons_eq hall]
        rfl
      · obtain ⟨d, rest, hrest, hd⟩ := exists_second htwo
        cases u with
        | nil => exact absurd (Nat.le_trans htwo hle) (by decide)
        | cons d' u =>
          obtain rfl : d' = d := List.head_eq_of_cons_eq hrest
          exact continuation_of_second hd (u ++ t)
    · simp [continuation, hunderscore]

end Trivia

end VisualBasic
