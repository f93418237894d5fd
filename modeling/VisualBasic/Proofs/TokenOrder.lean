import VisualBasic.Token.Stream

/-!
# The order of tokens

The tokens of a source follow one another: none is empty, none begins before the one in front of it
ends, and none is the mark of the end of the text. The invalid ones are the lexical errors.

Main results:

* `TokenStream.ordered_ofText` — the tokens of every source are in order.
* `TokenStream.token_errors_ofText` — lexical errors are invalid tokens, in order.
-/

namespace VisualBasic

open Text

-- ---------------------------------------------------------------------------
-- Lexemes within a line
-- ---------------------------------------------------------------------------

/-- The kind is one of tokens that stand within a line. -/
def TokenKind.isInLine : TokenKind → Bool
  | .newline | .endOfFile => false
  | _ => true

namespace Lexeme

theorem isInLine_compound (plain assigning : Mark) (length : Nat) (rest : List Char) :
    (compound plain assigning length rest).kind.isInLine = true := by
  unfold compound
  split <;> rfl

theorem isInLine_number (text : List Char) : (number text).kind.isInLine = true := by
  unfold number
  dsimp only
  split
  · rfl
  · split <;> rfl

theorem isInLine_word (text : List Char) : (word text).kind.isInLine = true := by
  unfold word
  dsimp only
  split
  · rfl
  · split <;> rfl

theorem isInLine_quoted (rest : List Char) : (quoted rest).kind.isInLine = true := by
  unfold quoted
  split
  · rfl
  · split <;> rfl

theorem isInLine_numberSign (rest : List Char) : (numberSign rest).kind.isInLine = true := by
  unfold numberSign
  dsimp only
  split <;> rfl

theorem isInLine_bracketed (rest : List Char) : (bracketed rest).kind.isInLine = true := by
  unfold bracketed
  dsimp only
  split <;> rfl

theorem isInLine_ampersand (rest : List Char) : (ampersand rest).kind.isInLine = true := by
  unfold ampersand
  dsimp only
  split
  · rfl
  · split
    · rfl
    · exact isInLine_compound _ _ _ _

theorem isInLine_less (rest : List Char) : (less rest).kind.isInLine = true := by
  unfold less
  split
  case h_3 => exact isInLine_compound _ _ _ _
  all_goals rfl

theorem isInLine_greater (rest : List Char) : (greater rest).kind.isInLine = true := by
  unfold greater
  split
  case h_2 => exact isInLine_compound _ _ _ _
  all_goals rfl

/-- A lexeme stands within a line, unless it is a line break. -/
theorem isInLine_ofText (c : Char) (rest : List Char) : (ofText (c :: rest)).kind.isInLine = true ∨
    lineBreak (c :: rest) ≠ 0 ∧ ofText (c :: rest) = ⟨.newline, lineBreak (c :: rest)⟩ := by
  unfold ofText
  dsimp only
  by_cases hbreak : lineBreak (c :: rest) ≠ 0
  · exact .inr ⟨hbreak, if_pos hbreak⟩
  · rw [if_neg hbreak]
    left
    split
    · exact isInLine_number _
    split
    · exact isInLine_word _
    split
    case h_3 => exact isInLine_quoted _
    case h_4 => exact isInLine_numberSign _
    case h_5 => exact isInLine_bracketed _
    case h_6 => exact isInLine_ampersand _
    case h_13 => exact isInLine_less _
    case h_14 => exact isInLine_greater _
    case h_15 | h_16 | h_17 | h_18 | h_19 | h_20 => exact isInLine_compound _ _ _ _
    all_goals rfl

/-- No lexeme is the end of the text. -/
theorem kind_ofText_ne (c : Char) (rest : List Char) : (ofText (c :: rest)).kind ≠ .endOfFile := by
  intro hend
  rcases isInLine_ofText c rest with hline | ⟨-, hbreak⟩
  · rw [hend] at hline
    cases hline
  · rw [hbreak] at hend
    cases hend

end Lexeme

-- ---------------------------------------------------------------------------
-- Scanning
-- ---------------------------------------------------------------------------

theorem Text.byteLength_pos {text : List Char} (h : text ≠ []) : 0 < Text.byteLength text := by
  obtain ⟨c, rest, rfl⟩ := List.exists_cons_of_ne_nil h
  have hc := Char.utf8Size_pos c
  rw [byteLength]
  omega

namespace Scanner

/-- `s.Scans ps stop`: from `s` on, the pieces `ps` are cut off one by one, and the text ends at
`stop`. -/
inductive Scans : Scanner → List Piece → Scanner → Prop
  | done {s : Scanner} (h : s.step? = none) : Scans s [] s
  | step {s s' stop : Scanner} {p : Piece} {ps : List Piece} (h : s.step? = some (p, s'))
      (rest : Scans s' ps stop) : Scans s (p :: ps) stop

theorem scan_eq (s : Scanner) (found : List Piece) :
    ∃ ps stop, s.Scans ps stop ∧ s.scan found = (ps.reverse ++ found, stop) := by
  fun_induction scan s found with
  | case1 s found h => exact ⟨[], s, .done h, rfl⟩
  | case2 s found piece s' h _ ih =>
    obtain ⟨ps, stop, hscans, heq⟩ := ih
    refine ⟨piece :: ps, stop, .step h hscans, ?_⟩
    rw [heq, List.reverse_cons, List.append_assoc, List.singleton_append]

theorem offset_lt_advance {s : Scanner} {n : Nat} (hn : 0 < n) (hrest : s.rest ≠ []) :
    s.position.offset < (s.advance n).position.offset := by
  have htake : s.rest.take n ≠ [] := fun h => by
    rcases List.take_eq_nil_iff.1 h with h | h
    · omega
    · exact hrest h
  have hpos := Text.byteLength_pos htake
  simp only [advance, Position.after]
  omega

/-- The text behind a scanner and that in front of it are the whole text. -/
theorem total_advance (s : Scanner) (n : Nat) :
    (s.advance n).position.offset + Text.byteLength (s.advance n).rest =
      s.position.offset + Text.byteLength s.rest := by
  have hsplit := Text.byteLength_append (s.rest.take n) (s.rest.drop n)
  rw [List.take_append_drop] at hsplit
  simp only [advance, Position.after]
  omega

/-- A piece that is cut off at `s` and ends at `s'`. -/
structure Cut (s : Scanner) (p : Piece) (s' : Scanner) : Prop where
  offset_lt : s.position.offset < s'.position.offset
  span : ∀ token ∈ p.token?, token.span = ⟨s.position.offset, s'.position.offset⟩
  kind_ne : ∀ token ∈ p.token?, token.kind ≠ .endOfFile
  error : p.error?.map LexicalError.token = p.token?.filter (·.kind == .invalid)
  total : s'.position.offset + Text.byteLength s'.rest = s.position.offset + Text.byteLength s.rest

theorem cut_of_step {s s' : Scanner} {p : Piece} (h : s.step? = some (p, s')) : s.Cut p s' := by
  unfold step? at h
  split at h
  · cases h
  · rename_i c rest hrest
    have hne : s.rest ≠ [] := by rw [hrest]; exact List.cons_ne_nil c rest
    split at h
    · rename_i hshape
      cases h
      exact ⟨offset_lt_advance (Trivia.shape?_pos hshape) hne, nofun, nofun, rfl,
        s.total_advance _⟩
    · obtain ⟨rfl, rfl⟩ := Prod.mk.inj (Option.some.inj h)
      have hlt := offset_lt_advance (Lexeme.length_ofText_pos c rest) hne
      have htotal := s.total_advance (Lexeme.ofText (c :: rest)).length
      split
      · refine ⟨hlt, fun token ht => ?_, fun token ht => ?_, rfl, htotal⟩
        · cases ht; rfl
        · cases ht; exact nofun
      · rename_i hkind
        refine ⟨hlt, fun token ht => ?_, fun token ht => ?_, ?_, htotal⟩
        · cases ht; rfl
        · cases ht; exact Lexeme.kind_ofText_ne c rest
        · have hvalid : ((Lexeme.ofText (c :: rest)).kind == .invalid) = false :=
            beq_eq_false_iff_ne.2 hkind
          simp [Piece.error?, Piece.token?, Option.filter, hvalid]

section

variable {s stop : Scanner} {ps : List Piece}

theorem Scans.offset_le (h : s.Scans ps stop) : s.position.offset ≤ stop.position.offset := by
  induction h with
  | done => exact Nat.le_refl _
  | step h _ ih => exact Nat.le_trans (Nat.le_of_lt (cut_of_step h).offset_lt) ih

/-- A scan goes to the end of the text. -/
theorem Scans.offset_stop (h : s.Scans ps stop) :
    stop.position.offset = s.position.offset + Text.byteLength s.rest := by
  induction h with
  | @done s h =>
    have hrest : s.rest = [] := by
      unfold step? at h
      split at h
      · assumption
      · split at h <;> cases h
    rw [hrest]
    rfl
  | step h _ ih => rw [ih, (cut_of_step h).total]

/-- The tokens of a scan lie between its ends. -/
theorem Scans.token_bounds (h : s.Scans ps stop) : ∀ token ∈ ps.filterMap Piece.token?,
    s.position.offset ≤ token.span.start ∧ token.span.start < token.span.stop ∧
      token.span.stop ≤ stop.position.offset ∧ token.kind ≠ .endOfFile := by
  induction h with
  | done => exact nofun
  | @step s s' stop p ps h hrest ih =>
    have hcut := cut_of_step h
    intro token hmem
    obtain ⟨piece, hpiece, htoken⟩ := List.mem_filterMap.1 hmem
    rcases List.mem_cons.1 hpiece with rfl | hpiece
    · rw [hcut.span token htoken]
      exact ⟨Nat.le_refl _, hcut.offset_lt, hrest.offset_le, hcut.kind_ne token htoken⟩
    · obtain ⟨hle, hbounds⟩ := ih token (List.mem_filterMap.2 ⟨piece, hpiece, htoken⟩)
      exact ⟨Nat.le_trans (Nat.le_of_lt hcut.offset_lt) hle, hbounds⟩

/-- No token begins before the ones in front of it end. -/
theorem Scans.pairwise (h : s.Scans ps stop) :
    (ps.filterMap Piece.token?).Pairwise fun a b => a.span.stop ≤ b.span.start := by
  induction h with
  | done => exact .nil
  | @step s s' stop p ps h hrest ih =>
    rw [List.filterMap_cons]
    split
    · exact ih
    · rename_i first hfirst
      refine .cons (fun token htoken => ?_) ih
      rw [(cut_of_step h).span first hfirst]
      exact (hrest.token_bounds token htoken).1

/-- The errors of a scan are its invalid tokens. -/
theorem Scans.token_errors (h : s.Scans ps stop) :
    (ps.filterMap Piece.error?).map LexicalError.token =
      (ps.filterMap Piece.token?).filter (·.kind == .invalid) := by
  induction h with
  | done => rfl
  | @step s s' stop p ps h _ ih =>
    have herror := (cut_of_step h).error
    cases p with
    | trivia t => exact ih
    | token token =>
      have hvalid : (token.kind == .invalid) = false := by
        simpa [Piece.error?, Piece.token?, Option.filter] using herror
      simp [Piece.error?, Piece.token?, List.filterMap_cons, hvalid, ih]
    | error e => simp [Piece.error?, Piece.token?, LexicalError.token, ih]

end

end Scanner

-- ---------------------------------------------------------------------------
-- Streams
-- ---------------------------------------------------------------------------

namespace TokenStream

/-- The tokens of a stream follow one another in the text. -/
structure Ordered (t : TokenStream) : Prop where
  start_lt_stop : ∀ i, i < t.tokens.size → (t.get i).span.start < (t.get i).span.stop
  stop_le_start : ∀ i j, i < j → j ≤ t.tokens.size → (t.get i).span.stop ≤ (t.get j).span.start
  kindAt_ne : ∀ i, i < t.tokens.size → t.kindAt i ≠ .endOfFile

theorem get_eq_getElem {t : TokenStream} {i : Nat} (h : i < t.tokens.size) :
    t.get i = t.tokens[i] := by
  simp [get, h]

/-- The pieces that a stream is made of. -/
theorem ofText_eq (text : List Char) : ∃ ps stop, (Scanner.ofText text).Scans ps stop ∧
    (ofText text).tokens = (ps.filterMap Piece.token?).toArray ∧
    (ofText text).last = stop.endToken ∧ (ofText text).errors = ps.filterMap Piece.error? := by
  obtain ⟨ps, stop, hscans, heq⟩ := (Scanner.ofText text).scan_eq []
  refine ⟨ps, stop, hscans, ?_⟩
  rw [List.append_nil] at heq
  simp only [ofText, heq, List.reverse_reverse, and_self]

theorem ordered_ofText (text : List Char) : (ofText text).Ordered := by
  obtain ⟨ps, stop, hscans, htokens, hlast, -⟩ := ofText_eq text
  have hmem (i : Nat) (hi : i < (ofText text).tokens.size) :
      (ofText text).get i ∈ ps.filterMap Piece.token? := by
    rw [get_eq_getElem hi, ← List.mem_toArray, ← htokens]
    exact Array.getElem_mem hi
  refine ⟨fun i hi => ?_, fun i j hij hj => ?_, fun i hi => ?_⟩
  · exact (hscans.token_bounds _ (hmem i hi)).2.1
  · have hi : i < (ofText text).tokens.size := Nat.lt_of_lt_of_le hij hj
    rcases Nat.lt_or_eq_of_le hj with hj | rfl
    · have hpairwise := List.pairwise_iff_getElem.1 hscans.pairwise i j
        (by rwa [htokens, List.size_toArray] at hi) (by rwa [htokens, List.size_toArray] at hj) hij
      rw [get_eq_getElem hi, get_eq_getElem hj]
      simpa only [htokens, List.getElem_toArray] using hpairwise
    · -- Behind the tokens there is the mark of the end of the text.
      rw [get_of_size_le (Nat.le_refl _), hlast]
      exact (hscans.token_bounds _ (hmem i hi)).2.2.1
  · rw [← kind_get_of_lt hi]
    exact (hscans.token_bounds _ (hmem i hi)).2.2.2

/-- The mark of the end of the text stands empty at its end. -/
theorem span_last_ofText (text : List Char) :
    (ofText text).last.span = ⟨Text.byteLength text, Text.byteLength text⟩ := by
  obtain ⟨ps, stop, hscans, -, hlast, -⟩ := ofText_eq text
  have hstop := hscans.offset_stop
  rw [hlast]
  simpa [Scanner.endToken, Scanner.ofText, Position.origin] using hstop

/-- In the tokens of a source, the end of the text is behind the last one. -/
theorem Ordered.eq_size {t : TokenStream} (h : t.Ordered) {stop : Nat}
    (hstop : stop ≤ t.tokens.size) (hend : t.kindAt stop = .endOfFile) : stop = t.tokens.size :=
  Nat.le_antisymm hstop (Nat.le_of_not_lt fun hlt => h.kindAt_ne stop hlt hend)

theorem Ordered.pairwise_start {t : TokenStream} (h : t.Ordered) :
    t.tokens.toList.Pairwise fun a b => a.span.start ≤ b.span.start := by
  refine List.pairwise_iff_getElem.2 fun i j hi hj hij => ?_
  rw [Array.length_toList] at hi hj
  have hle := h.stop_le_start i j hij (Nat.le_of_lt hj)
  have hlt := h.start_lt_stop i hi
  rw [get_eq_getElem hi] at hle hlt
  rw [get_eq_getElem hj] at hle
  simp only [Array.getElem_toList]
  omega

/-- Lexical errors are the invalid tokens, in order. -/
theorem token_errors_ofText (text : List Char) :
    (ofText text).errors.map LexicalError.token =
      (ofText text).toList.filter (·.kind == .invalid) := by
  obtain ⟨ps, stop, hscans, htokens, hlast, herrors⟩ := ofText_eq text
  rw [toList, List.filter_append, herrors, htokens, hlast, hscans.token_errors]
  simp [Scanner.endToken]

/-- Lexical errors are in the order of their spans. -/
theorem pairwise_errors_ofText (text : List Char) :
    (ofText text).errors.Pairwise fun a b => a.span.start ≤ b.span.start := by
  obtain ⟨ps, stop, hscans, htokens, -, herrors⟩ := ofText_eq text
  have htoken := ((ordered_ofText text).pairwise_start).filter (·.kind == .invalid)
  rw [htokens, ← hscans.token_errors, List.pairwise_map] at htoken
  rw [herrors]
  exact htoken

end TokenStream

end VisualBasic
