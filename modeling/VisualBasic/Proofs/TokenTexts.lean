import VisualBasic.Proofs.Cuts

/-!
# Tokens and their texts

What a scanner makes of a text, without the places: trivia is skipped, and what is left are lexemes,
each a kind and a text (`Reads`). A lexeme ends where what follows does not go on with it, so
nothing changes if what follows is cut off: alone, the text of a token is that token again, and what
is at fault in a text is at fault alone. So the kind of a token is in its text, and no text of a
token could also be read as two tokens or as trivia.

Main results:

* `Scanner.Scans.reads` — a scan reads the text behind it.
* `Lexeme.ofText_invalid` — what is at fault is a single character, and it is at fault alone.
* `tokens_stand_alone` — every token of a source is the only token of its text.
-/

namespace VisualBasic

open Text

-- ---------------------------------------------------------------------------
-- Reading
-- ---------------------------------------------------------------------------

/-- From a text on, these kinds and texts are read in front of the text `stop`, with trivia
skipped. -/
inductive Reads : List Char → List (TokenKind × List Char) → List Char → Prop
  | done {text : List Char} : Reads text [] text
  | skip {text stop : List Char} {kind : TriviaKind} {n : Nat}
      {words : List (TokenKind × List Char)}
      (h : Trivia.shape? text = some (kind, n)) (rest : Reads (text.drop n) words stop) :
      Reads text words stop
  | take {text stop : List Char} {words : List (TokenKind × List Char)} (hne : text ≠ [])
      (h : Trivia.shape? text = none)
      (rest : Reads (text.drop (Lexeme.ofText text).length) words stop) :
      Reads text (((Lexeme.ofText text).kind, text.take (Lexeme.ofText text).length) :: words) stop

namespace Reads

variable {text middle stop : List Char} {words words' : List (TokenKind × List Char)}

theorem trans (h : Reads text words middle) (h' : Reads middle words' stop) :
    Reads text (words ++ words') stop := by
  induction h with
  | done => exact h'
  | skip hshape _ ih => exact .skip hshape (ih h')
  | take hne hshape _ ih => exact .take hne hshape (ih h')

/-- There is only one way to read a text to its end. -/
theorem unique (h : Reads text words []) (h' : Reads text words' []) : words = words' := by
  generalize hstop : ([] : List Char) = stop at h
  induction h generalizing words' with
  | done =>
    subst hstop
    cases h' with
    | done => rfl
    | skip hshape => cases hshape
    | take hne => exact absurd rfl hne
  | skip hshape _ ih =>
    cases h' with
    | done => cases hshape
    | skip hshape' rest' =>
      rw [hshape] at hshape'
      cases hshape'
      exact ih rest' hstop
    | take _ hshape' =>
      rw [hshape] at hshape'
      cases hshape'
  | take hne hshape _ ih =>
    cases h' with
    | done => exact absurd rfl hne
    | skip hshape' =>
      rw [hshape] at hshape'
      cases hshape'
    | take _ _ rest' => rw [ih rest' hstop]

/-- What is read stands somewhere, with something behind it. -/
theorem exists_of_mem (h : Reads text words stop) : ∀ word ∈ words, word.2 ≠ [] ∧ ∃ rest,
    Trivia.shape? (word.2 ++ rest) = none ∧
      Lexeme.ofText (word.2 ++ rest) = ⟨word.1, word.2.length⟩ := by
  induction h with
  | done => exact nofun
  | skip _ _ ih => exact ih
  | @take text stop words hne hshape _ ih =>
    have hlength := Lexeme.length_ofText_le text
    obtain ⟨c, rest, rfl⟩ := List.exists_cons_of_ne_nil hne
    have hpos := Lexeme.length_ofText_pos c rest
    refine List.forall_mem_cons.2
      ⟨⟨?_, (c :: rest).drop (Lexeme.ofText (c :: rest)).length, ?_⟩, ih⟩
    · simp only [ne_eq, List.take_eq_nil_iff, List.cons_ne_nil, or_false]
      omega
    · dsimp only
      rw [List.take_append_drop, List.length_take, Nat.min_eq_left hlength]
      exact ⟨hshape, rfl⟩

end Reads

-- ---------------------------------------------------------------------------
-- Scans
-- ---------------------------------------------------------------------------

/-- The kind of a token and its text in the source. -/
def Token.word (source : List Char) (t : Token) : TokenKind × List Char :=
  (t.kind, t.span.slice source)

/-- The kinds and the texts of the tokens, without the mark of the end. -/
def TokenStream.words (t : TokenStream) (source : List Char) : List (TokenKind × List Char) :=
  t.tokens.toList.map (Token.word source)

namespace Scanner

variable {s s' stop : Scanner} {p : Piece} {ps : List Piece} {source : List Char}

/-- What one step reads. -/
theorem step_reads (h : s.step? = some (p, s')) (hs : s.In source) :
    Reads s.rest (p.token?.toList.map (Token.word source)) s'.rest := by
  unfold step? at h
  split at h
  · cases h
  · rename_i c rest hrest
    have hne : s.rest ≠ [] := by simp [hrest]
    rw [← hrest] at h
    split at h
    · rename_i hshape
      obtain ⟨rfl, rfl⟩ := Prod.mk.inj (Option.some.inj h)
      exact .skip hshape .done
    · rename_i hshape
      obtain ⟨rfl, rfl⟩ := Prod.mk.inj (Option.some.inj h)
      have hword := Reads.take hne hshape .done
      have hslice := hs.slice_span (Lexeme.ofText s.rest).length
      split
      · rename_i hkind
        simp only [Piece.token?, LexicalError.token, Option.toList_some,
          List.map_cons, List.map_nil,
          Token.word, hslice]
        rw [← hkind]
        exact hword
      · simp only [Piece.token?, Option.toList_some, List.map_cons, List.map_nil,
          Token.word, hslice]
        exact hword

/-- A scan reads the text behind it. -/
theorem Scans.reads (h : s.Scans ps stop) (hs : s.In source) :
    Reads s.rest ((ps.filterMap Piece.token?).map (Token.word source)) [] := by
  induction h with
  | done h =>
    rw [step_eq_none.1 h]
    exact .done
  | @step s s' stop p ps h _ ih =>
    obtain ⟨n, -, -, rfl, -⟩ := step_eq_some h
    have hfirst := (step_reads h hs).trans (ih (hs.advance n))
    rw [← List.map_append] at hfirst
    cases hp : p.token? with
    | none =>
      rw [List.filterMap_cons_none hp]
      rw [hp] at hfirst
      exact hfirst
    | some t =>
      rw [List.filterMap_cons_some hp]
      rw [hp] at hfirst
      exact hfirst

end Scanner

namespace TokenStream

/-- The stream of a text has what is read from it. -/
theorem reads_ofText (source : List Char) : Reads source ((ofText source).words source) [] := by
  obtain ⟨ps, stop, hscans, -⟩ := (Scanner.ofText source).scan_eq []
  rw [ofText_eq_of_scans hscans]
  exact hscans.reads (Scanner.in_ofText source)

end TokenStream

-- ---------------------------------------------------------------------------
-- What is at fault
-- ---------------------------------------------------------------------------

namespace Lexeme

theorem kind_compound_ne_invalid (plain assigning : Mark) (length : Nat) (rest : List Char) :
    (compound plain assigning length rest).kind ≠ .invalid := by
  unfold compound
  split <;> exact nofun

theorem kind_number_ne_invalid (text : List Char) : (number text).kind ≠ .invalid := by
  unfold number
  dsimp only
  split
  · exact nofun
  · split <;> exact nofun

theorem kind_numberSign_ne_invalid (rest : List Char) : (numberSign rest).kind ≠ .invalid := by
  unfold numberSign
  dsimp only
  split <;> exact nofun

theorem kind_ampersand_ne_invalid (rest : List Char) : (ampersand rest).kind ≠ .invalid := by
  rw [ampersand_eq_ite]
  split
  · exact nofun
  · split
    · exact nofun
    · exact kind_compound_ne_invalid _ _ _ _

theorem kind_less_ne_invalid (rest : List Char) : (less rest).kind ≠ .invalid := by
  unfold less
  split
  case h_3 => exact kind_compound_ne_invalid _ _ _ _
  all_goals exact nofun

theorem kind_greater_ne_invalid (rest : List Char) : (greater rest).kind ≠ .invalid := by
  unfold greater
  split
  case h_2 => exact kind_compound_ne_invalid _ _ _ _
  all_goals exact nofun

theorem quoted_invalid {rest : List Char} (h : (quoted rest).kind = .invalid) :
    quoted rest = ⟨.invalid, 1⟩ := by
  unfold quoted at h ⊢
  split
  · rfl
  · rename_i hbody
    rw [hbody] at h
    dsimp only at h
    split at h <;> cases h

theorem bracketed_invalid {rest : List Char} (h : (bracketed rest).kind = .invalid) :
    bracketed rest = ⟨.invalid, 1⟩ := by
  unfold bracketed at h ⊢
  dsimp only at h ⊢
  split
  · rfl
  · rename_i hclosed
    rw [if_neg hclosed] at h
    cases h

/-- A sign that is at fault is so whatever follows, and if nothing does. -/
theorem punctuation_invalid {c : Char} {rest : List Char}
    (h : (punctuation c rest).kind = .invalid) :
    punctuation c rest = ⟨.invalid, 1⟩ ∧ punctuation c [] = ⟨.invalid, 1⟩ := by
  revert h
  unfold punctuation
  split
  all_goals intro h
  case h_3 => exact ⟨quoted_invalid h, rfl⟩
  case h_4 => exact absurd h (kind_numberSign_ne_invalid rest)
  case h_5 => exact ⟨bracketed_invalid h, rfl⟩
  case h_6 => exact absurd h (kind_ampersand_ne_invalid rest)
  case h_13 => exact absurd h (kind_less_ne_invalid rest)
  case h_14 => exact absurd h (kind_greater_ne_invalid rest)
  case h_15 | h_16 | h_17 | h_18 | h_19 | h_20 => exact absurd h (kind_compound_ne_invalid _ _ _ _)
  case h_21 => exact ⟨rfl, rfl⟩
  all_goals cases h

/-- What is at fault is a single character, and it is at fault alone. -/
theorem ofText_invalid {c : Char} {rest : List Char} (h : (ofText (c :: rest)).kind = .invalid) :
    ofText (c :: rest) = ⟨.invalid, 1⟩ ∧ ofText [c] = ⟨.invalid, 1⟩ := by
  rw [ofText_cons] at h ⊢
  split at h
  · cases h
  rename_i hbreak
  split at h
  · exact absurd h (kind_number_ne_invalid _)
  rename_i hnumber
  split at h
  · exact absurd h (kind_word_ne_invalid _)
  rename_i hword
  obtain ⟨hfault, halone⟩ := punctuation_invalid h
  rw [if_neg hbreak, if_neg hnumber, if_neg hword]
  refine ⟨hfault, ?_⟩
  have hfeed : c ≠ '\n' := by
    rintro rfl
    exact hbreak (by simp [lineBreak_cons])
  have hbreak' : lineBreak [c] = 0 := by
    rw [lineBreak_cons, if_neg hfeed]
    exact if_neg fun hreturn => by cases hreturn.2
  have hdigit : c.isDigit = false := by
    rw [Bool.or_eq_true, not_or, Bool.not_eq_true] at hnumber
    exact hnumber.1
  rw [ofText_cons, hbreak', hdigit, if_neg hword, halone]
  simp [headIs]

end Lexeme

-- ---------------------------------------------------------------------------
-- Tokens alone
-- ---------------------------------------------------------------------------

/-- The stream that is a single token of the whole text; an invalid token is the one error. -/
def TokenStream.single (kind : TokenKind) (text : List Char) : TokenStream where
  tokens := #[⟨kind, ⟨0, byteLength text⟩, Point.origin⟩]
  last := ⟨.endOfFile, ⟨byteLength text, byteLength text⟩, (Position.origin.after text).point⟩
  trivia := []
  errors := if kind = .invalid then
    [⟨Fault.ofChar (text.headD ' '), ⟨0, byteLength text⟩, Point.origin⟩] else []

/-- The text of a lexeme is alone the text of that lexeme. -/
theorem Lexeme.alone {kind : TokenKind} {text rest : List Char} (hne : text ≠ [])
    (hshape : Trivia.shape? (text ++ rest) = none)
    (hlexeme : Lexeme.ofText (text ++ rest) = ⟨kind, text.length⟩) :
    Trivia.shape? text = none ∧ Lexeme.ofText text = ⟨kind, text.length⟩ := by
  have hle : (Lexeme.ofText (text ++ rest)).length ≤ text.length := by
    rw [hlexeme]
  have hlone : text.head? = some '_' →
      text ++ [] = ['_'] ∨ 2 ≤ (Lexeme.ofText (text ++ rest)).length := by
    intro hhead
    obtain ⟨more, rfl⟩ := List.head?_eq_some_iff.1 hhead
    rw [hlexeme, List.append_nil]
    cases more with
    | nil => exact .inl rfl
    | cons _ _ => exact .inr (by simp)
  have htrivia := Trivia.shape?_cut .nothing hne hle hlone hshape
  rw [List.append_nil] at htrivia
  refine ⟨htrivia, ?_⟩
  by_cases hkind : kind = .invalid
  · subst hkind
    obtain ⟨c, more, rfl⟩ := List.exists_cons_of_ne_nil hne
    obtain ⟨hfault, halone⟩ := Lexeme.ofText_invalid (congrArg Lexeme.kind hlexeme)
    have hlength : more.length + 1 = 1 := congrArg Lexeme.length (hlexeme.symm.trans hfault)
    obtain rfl : more = [] := List.eq_nil_of_length_eq_zero (by omega)
    exact halone
  · have hcut := Lexeme.ofText_cut .nothing hne hle (by rw [hlexeme]; exact hkind)
    rw [List.append_nil] at hcut
    exact hcut.trans hlexeme

/-- The stream of a text that is a single lexeme. -/
theorem TokenStream.ofText_eq_single {kind : TokenKind} {text : List Char} (hne : text ≠ [])
    (hshape : Trivia.shape? text = none) (hlexeme : Lexeme.ofText text = ⟨kind, text.length⟩) :
    ofText text = single kind text := by
  obtain ⟨c, rest, rfl⟩ := List.exists_cons_of_ne_nil hne
  have hspan : (Scanner.ofText (c :: rest)).span (c :: rest).length =
      ⟨0, byteLength (c :: rest)⟩ := by
    simp [Scanner.span, Scanner.advance, Scanner.ofText, Position.origin]
  have hstop : (Scanner.ofText (c :: rest)).advance (c :: rest).length =
      ⟨Position.origin.after (c :: rest), []⟩ := by
    simp [Scanner.advance, Scanner.ofText]
  have hlast : Scanner.endToken ⟨Position.origin.after (c :: rest), []⟩ = ⟨.endOfFile,
      ⟨byteLength (c :: rest), byteLength (c :: rest)⟩,
      (Position.origin.after (c :: rest)).point⟩ := by
    simp [Scanner.endToken, Position.origin]
  have hstep : (Scanner.ofText (c :: rest)).step? = some
      (if kind = .invalid then .error ⟨Fault.ofChar c, ⟨0, byteLength (c :: rest)⟩, Point.origin⟩
        else .token ⟨kind, ⟨0, byteLength (c :: rest)⟩, Point.origin⟩,
      ⟨Position.origin.after (c :: rest), []⟩) := by
    have hall : (Scanner.ofText (c :: rest)).rest = c :: rest := rfl
    unfold Scanner.step?
    rw [hall]
    dsimp only
    rw [hshape, hlexeme]
    dsimp only
    rw [hspan, hstop]
    cases kind <;> rfl
  have hscans := Scanner.Scans.step hstep (.done rfl)
  rw [ofText_eq_of_scans hscans, single, hlast]
  by_cases hkind : kind = .invalid
  · subst hkind
    rfl
  · simp only [hkind, if_false]
    rfl

theorem TokenStream.ofText_slice {source : List Char} {token : Token}
    (h : token ∈ (ofText source).tokens) : token.span.slice source ≠ [] ∧
      ofText (token.span.slice source) = single token.kind (token.span.slice source) := by
  have hmem : token.word source ∈ (ofText source).words source :=
    List.mem_map_of_mem (Array.mem_toList_iff.2 h)
  obtain ⟨hne, rest, hshape, hlexeme⟩ := (reads_ofText source).exists_of_mem _ hmem
  obtain ⟨hshape', hlexeme'⟩ := Lexeme.alone hne hshape hlexeme
  exact ⟨hne, ofText_eq_single hne hshape' hlexeme'⟩

theorem TokenStream.single_inj {kind kind' : TokenKind} {text : List Char}
    (h : single kind text = single kind' text) : kind = kind' := by
  have htokens := congrArg (fun t => t.kindAt 0) h
  exact htokens

/-- Every token of a source is the only token of its own text, which is all of it, with an error if
it is invalid and without any trivia. So tokens of the same text are of the same kind, wherever they
stand. -/
theorem tokens_stand_alone (source : List Char) : ∀ token ∈ (TokenStream.ofText source).tokens,
    (token.span.slice source ≠ [] ∧ TokenStream.ofText (token.span.slice source) =
      .single token.kind (token.span.slice source)) ∧
    ∀ source', ∀ token' ∈ (TokenStream.ofText source').tokens,
      token'.span.slice source' = token.span.slice source → token'.kind = token.kind := by
  intro token htoken
  have halone := TokenStream.ofText_slice htoken
  refine ⟨halone, fun source' token' htoken' htext => ?_⟩
  have halone' := TokenStream.ofText_slice htoken'
  rw [htext] at halone'
  exact TokenStream.single_inj (halone'.2.symm.trans halone.2)

/-- A number in front of what looks like its exponent. -/
theorem tokens_stand_alone_number :
    (⟨.literal .integer, ⟨0, 1⟩, Point.origin⟩ : Token) ∈
    (TokenStream.ofText "1e+x".toList).tokens ∧
      TokenStream.ofText ['1'] = .single (.literal .integer) ['1'] := by
  have hmem : (⟨.literal .integer, ⟨0, 1⟩, Point.origin⟩ : Token) ∈
      (TokenStream.ofText "1e+x".toList).tokens := by
    decide +kernel
  exact ⟨hmem, (tokens_stand_alone "1e+x".toList _ hmem).1.2⟩

end VisualBasic
