import VisualBasic.Proofs.KindsOnly
import VisualBasic.Proofs.TokenTexts

/-!
# Lines without continuations

An underscore at the end of a line joins the line to the next one. If a space stands in its place,
and in that of the line break, the two lines are one, with the same tokens. In front of the
continuation no piece looks as far as its underscore but for what is at fault there (a quote or a
bracket that is not closed) or goes over it (a comment, a preprocessor line), and none of these is
followed by a continuation on its line; white space gets longer, but no token does. An underscore of
its own is excepted, as the line break behind the continuation may make another continuation of it.

Main results:

* `Reads.join` — what is read in front of a continuation is read in front of a space.
* `continuations_eliminable` — the tokens and the tree are the same with a space in place of a
  continuation.
-/

namespace VisualBasic

open Text

-- ---------------------------------------------------------------------------
-- Trivia in front of a cut
-- ---------------------------------------------------------------------------

namespace Trivia

variable {u r t : List Char}

/-- The letters of a remark are on its line. -/
theorem three_le_of_opensRemark {text : List Char} (h : opensRemark text = true) :
    3 ≤ countWhile (!isLineEnd ·) text := by
  obtain ⟨a, b, c, rest, rfl, ha, hb, hc, -⟩ := opensRemark_iff.1 h
  have hline {x d : Char} (hx : isLineEnd x = false) (hd : isLetter x d = true) :
      (!isLineEnd d) = true := by
    rw [← caseless_isLineEnd d, beq_iff_eq.1 hd, hx]
    rfl
  rw [countWhile_cons, countWhile_cons, countWhile_cons, if_pos (hline rfl ha),
    if_pos (hline rfl hb),
    if_pos (hline rfl hc)]
  omega

/-- A comment does not end in front of an underscore, so it ends with a line in front of it, with
which it ends in any case. -/
theorem comment_cut {c : Char}
    (hopens : (c == '\'' || opensRemark (c :: (u ++ '_' :: r))) = true)
    (hle : countWhile (!isLineEnd ·) (c :: (u ++ '_' :: r)) ≤ u.length + 1) :
    (c == '\'' || opensRemark (c :: (u ++ t))) = true ∧
      countWhile (!isLineEnd ·) (c :: (u ++ t)) = countWhile (!isLineEnd ·)
      (c :: (u ++ '_' :: r)) := by
  have hend := headIs_drop_countWhile (!isLineEnd ·) (c :: (u ++ '_' :: r))
  have hlt : countWhile (!isLineEnd ·) (c :: u ++ '_' :: r) < (c :: u).length := by
    refine Nat.lt_of_le_of_ne hle fun hall => ?_
    rw [List.length_cons] at hall
    rw [List.cons_append] at hall
    rw [hall, List.drop_succ_cons, List.drop_left] at hend
    cases hend
  refine ⟨?_, countWhile_of_lt hlt t⟩
  rw [Bool.or_eq_true] at hopens ⊢
  refine hopens.imp_right fun hremark => ?_
  have hthree := three_le_of_opensRemark hremark
  obtain ⟨a, b, d, rest, htext, ha, hb, hd, hrest⟩ := opensRemark_iff.1 hremark
  match u, htext, hlt with
  | [], _, hlt | [_], _, hlt | [_, _], _, hlt =>
    simp only [List.cons_append, List.nil_append, List.length_cons, List.length_nil] at hlt hthree
    omega
  | _ :: _ :: _ :: u, htext, _ => exact hremark

/-- A continued line that ends in front of a cut. -/
theorem continuation_cut (h : Cut r t) (hpos : continuation (u ++ r) ≠ 0)
    (hle : continuation (u ++ r) ≤ u.length) : continuation (u ++ t) = continuation (u ++ r) := by
  cases u with
  | nil => exact absurd (Nat.eq_zero_of_le_zero hle) hpos
  | cons c u =>
    by_cases hunderscore : c = '_'
    · subst hunderscore
      simp only [List.cons_append, continuation, List.length_cons] at hpos hle ⊢
      split at hpos
      · exact absurd rfl hpos
      · rename_i hbreak
        rw [if_neg hbreak] at hle ⊢
        have hblanks : countWhile isSpaceOrTab (u ++ r) < u.length := by omega
        rw [countWhile_of_lt hblanks, endsBeforeCut_lineBreak.drop h (by omega), if_neg hbreak]
    · simp [continuation, hunderscore] at hpos

theorem not_opensRemark_underscore (rest : List Char) : opensRemark ('_' :: rest) = false := by
  refine Bool.eq_false_iff.2 fun hremark => ?_
  obtain ⟨a, b, c, rest, htext, ha, -⟩ := opensRemark_iff.1 hremark
  cases htext
  exact absurd ha (by decide)

theorem underscore_of_continuation {c : Char} {rest : List Char}
    (h : continuation (c :: rest) ≠ 0) :
    c = '_' := by
  by_contra hunderscore
  exact h (by simp [continuation, hunderscore])

/-- Trivia in front of an underscore is the same in front of a blank; only white space goes on. -/
theorem shape?_blank {kind : TriviaKind} {n : Nat} (h : shape? (u ++ '_' :: r) = some (kind, n))
    (hle : n ≤ u.length) : shape? (u ++ ' ' :: t) = some (kind, n) ∨
      n = u.length ∧ ∀ c ∈ u, isBlank c = true := by
  have hpos := shape?_pos h
  obtain ⟨c, u, rfl⟩ := List.exists_cons_of_length_pos (Nat.lt_of_lt_of_le hpos hle)
  rw [List.cons_append, shape?_cons] at h ⊢
  by_cases hblank : isBlank c = true
  · rw [if_pos hblank] at h ⊢
    cases h
    rcases Nat.eq_or_lt_of_le hle with hall | hwithin
    · right
      have htake : (c :: u ++ '_' :: r).takeWhile isBlank = c :: u := by
        rw [takeWhile_of_countWhile rfl hle, List.cons_append, hall, List.take_length]
      refine ⟨hall, fun d hd => ?_⟩
      rw [← htake] at hd
      exact List.mem_takeWhile_imp hd
    · left
      rw [← List.cons_append, countWhile_of_lt hwithin]
      rfl
  · rw [if_neg hblank] at h ⊢
    left
    by_cases hcomment : (c == '\'' || opensRemark (c :: (u ++ '_' :: r))) = true
    · rw [if_pos hcomment] at h
      cases h
      obtain ⟨hcomment', hlength⟩ := comment_cut (t := ' ' :: t) hcomment hle
      rw [if_pos hcomment', hlength]
    · rw [if_neg hcomment] at h
      by_cases hzero : continuation (c :: (u ++ '_' :: r)) = 0
      · rw [if_pos hzero] at h
        cases h
      · rw [if_neg hzero] at h
        cases h
        obtain rfl := underscore_of_continuation hzero
        have hcut : continuation ('_' :: (u ++ ' ' :: t)) = continuation ('_' :: (u ++ '_' :: r)) :=
          continuation_cut (u := '_' :: u) .blank hzero hle
        rw [not_opensRemark_underscore, hcut, if_neg hzero]
        rfl

theorem shape?_of_isBlank {c : Char} (h : isBlank c = true) (rest : List Char) :
    shape? (c :: rest) = some (.whitespace, countWhile isBlank (c :: rest)) := by
  rw [shape?_cons, if_pos h]

/-- A continued line begins with an underscore. -/
theorem exists_of_shape?_continuation {text : List Char} {n : Nat}
    (h : shape? text = some (.lineContinuation, n)) : ∃ rest, text = '_' :: rest := by
  cases text with
  | nil => cases h
  | cons c rest =>
    rw [shape?_cons] at h
    split at h
    · cases h
    split at h
    · cases h
    split at h
    · cases h
    · rename_i hpos
      obtain rfl := underscore_of_continuation hpos
      exact ⟨rest, rfl⟩

end Trivia

-- ---------------------------------------------------------------------------
-- Reading on behind a space
-- ---------------------------------------------------------------------------

theorem Text.drop_countWhile (p : Char → Bool) (text : List Char) :
    text.drop (countWhile p text) = text.dropWhile p := by
  induction text with
  | nil => rfl
  | cons c rest ih =>
    rw [countWhile_cons, List.dropWhile_cons]
    split
    · exact ih
    · rfl

namespace Reads

variable {text stop : List Char} {words : List (TokenKind × List Char)}

theorem length_le (h : Reads text words stop) : stop.length ≤ text.length := by
  induction h with
  | done => exact Nat.le_refl _
  | skip _ _ ih | take _ _ _ ih =>
    rw [List.length_drop] at ih
    omega

/-- Blanks at the beginning of a text are read over. -/
theorem blanks (h : headIs isBlank text = true) : Reads text [] (text.dropWhile isBlank) := by
  obtain ⟨c, rest, rfl⟩ : ∃ c rest, text = c :: rest :=
    List.exists_cons_of_length_pos (length_pos_of_headIs h)
  have hskip := Reads.skip (Trivia.shape?_of_isBlank h rest) .done
  rwa [drop_countWhile] at hskip

/-- Blanks at the beginning of a text are skipped. -/
theorem dropBlanks (h : Reads text words []) : Reads (text.dropWhile isBlank) words [] := by
  cases text with
  | nil => exact h
  | cons c rest =>
    by_cases hblank : isBlank c = true
    · have hshape := Trivia.shape?_of_isBlank hblank rest
      cases h with
      | skip hshape' hrest =>
        rw [hshape] at hshape'
        cases hshape'
        rwa [drop_countWhile] at hrest
      | take _ hshape' =>
        rw [hshape] at hshape'
        cases hshape'
    · rwa [List.dropWhile_cons_of_neg hblank]

/-- What stands in front of a stop is cut off piece by piece. -/
theorem le_of_drop {u : List Char} {n : Nat} (h : Reads ((u ++ stop).drop n) words stop)
    (hn : n ≤ (u ++ stop).length) : n ≤ u.length := by
  have hle := h.length_le
  rw [List.length_drop] at hle
  rw [List.length_append] at hle hn
  omega

/-- Nothing is read between a text and itself. -/
theorem eq_nil (h : Reads text words text) : words = [] := by
  cases h with
  | done => rfl
  | skip hshape hrest =>
    have hle := hrest.length_le
    have hpos := Trivia.shape?_pos hshape
    have hlength := Trivia.shape?_le hshape
    rw [List.length_drop] at hle
    omega
  | take hne _ hrest =>
    obtain ⟨c, rest, rfl⟩ := List.exists_cons_of_ne_nil hne
    have hle := hrest.length_le
    have hpos := Lexeme.length_ofText_pos c rest
    rw [List.length_drop, List.length_cons] at hle
    omega

/-- What is read in front of an underscore is read in front of a space as well, and then the blanks
behind the space are skipped. -/
theorem join {u r : List Char} (h : Reads (u ++ '_' :: r) words ('_' :: r))
    (hvalid : ∀ word ∈ words, word.1 ≠ .invalid) (hlone : ∀ word ∈ words, word.2 ≠ ['_'])
    (t : List Char) : Reads (u ++ ' ' :: t) words (t.dropWhile isBlank) := by
  generalize htext : u ++ '_' :: r = text at h
  generalize hstop : '_' :: r = stop at h
  induction h generalizing u with
  | done =>
    have hempty : u = [] := by
      have hlength := congrArg List.length (htext.trans hstop.symm)
      rw [List.length_append] at hlength
      exact List.eq_nil_of_length_eq_zero (by omega)
    subst hempty
    exact blanks rfl
  | @skip text stop kind n words hshape hrest ih =>
    subst htext hstop
    have hn := hrest.le_of_drop (Trivia.shape?_le hshape)
    rcases Trivia.shape?_blank (t := t) hshape hn with hsame | ⟨hall, hblank⟩
    · refine .skip hsame ?_
      rw [List.drop_append_of_le_length hn] at ih ⊢
      exact ih hvalid hlone rfl rfl
    · -- The white space reaches up to the underscore, and now goes on behind the space.
      rw [hall, List.drop_left] at hrest
      have hhead : headIs isBlank (u ++ ' ' :: t) = true := by
        cases u with
        | nil => rfl
        | cons c u => exact hblank c List.mem_cons_self
      have hskip := blanks hhead
      rw [List.dropWhile_append_of_pos hblank] at hskip
      rw [hrest.eq_nil]
      exact hskip
  | @take text stop words hne hshape hrest ih =>
    subst htext hstop
    have hn := hrest.le_of_drop (Lexeme.length_ofText_le _)
    rw [List.forall_mem_cons] at hvalid hlone
    have hpos : 0 < (Lexeme.ofText (u ++ '_' :: r)).length := by
      obtain ⟨c, rest, htext⟩ := List.exists_cons_of_ne_nil hne
      rw [htext]
      exact Lexeme.length_ofText_pos c rest
    have hu : u ≠ [] := List.ne_nil_of_length_pos (Nat.lt_of_lt_of_le hpos hn)
    have hcut := Lexeme.ofText_cut (t := ' ' :: t) .blank hu hn hvalid.1
    have hshape' : Trivia.shape? (u ++ ' ' :: t) = none := by
      refine Trivia.shape?_cut .blank hu hn (fun hhead => .inr ?_) hshape
      obtain ⟨more, rfl⟩ := List.head?_eq_some_iff.1 hhead
      by_contra hshort
      have hone : (Lexeme.ofText ('_' :: more ++ '_' :: r)).length = 1 := by omega
      exact hlone.1 (by rw [hone]; rfl)
    rw [List.drop_append_of_le_length hn] at ih
    have hbehind := ih hvalid.2 hlone.2 rfl rfl
    rw [← List.drop_append_of_le_length hn, ← hcut] at hbehind
    have htake := Reads.take (by simp) hshape' hbehind
    rw [hcut, take_append_eq (r := '_' :: r) hn] at htake
    exact htake

end Reads

-- ---------------------------------------------------------------------------
-- Pieces of a scan
-- ---------------------------------------------------------------------------

/-- In front of a piece of a scan the pieces before it are read, and the scan goes on behind it. -/
theorem Scanner.Scans.split {s stop : Scanner} {p : Piece} {ps qs : List Piece} {source : List Char}
    (h : s.Scans (ps ++ p :: qs) stop) (hs : s.In source) : ∃ place behind : Scanner,
      Reads s.rest ((ps.filterMap Piece.token?).map (Token.word source)) place.rest ∧
      place.In source ∧
        place.step? = some (p, behind) ∧ behind.Scans qs stop := by
  induction ps generalizing s with
  | nil =>
    cases h with
    | step hstep hrest => exact ⟨s, _, .done, hs, hstep, hrest⟩
  | cons q ps ih =>
    cases h with
    | step hstep hrest =>
      obtain ⟨n, -, -, rfl, -⟩ := step_eq_some hstep
      obtain ⟨place, behind, hreads, hin, hp, hqs⟩ := ih hrest (hs.advance n)
      refine ⟨place, behind, ?_, hin, hp, hqs⟩
      have hall := (step_reads hstep hs).trans hreads
      rw [← List.map_append] at hall
      cases hq : q.token? with
      | none =>
        rw [List.filterMap_cons_none hq]
        rw [hq] at hall
        exact hall
      | some t =>
        rw [List.filterMap_cons_some hq]
        rw [hq] at hall
        exact hall

/-- Where trivia is cut off. -/
theorem Scanner.step_trivia {s s' : Scanner} {gap : Trivia} (h : s.step? = some (.trivia gap, s')) :
    ∃ n, Trivia.shape? s.rest = some (gap.kind, n) ∧ gap.span = s.span n ∧ s' = s.advance n := by
  unfold step? at h
  split at h
  · cases h
  · rename_i c rest hrest
    split at h
    · rename_i kind n hshape
      cases h
      exact ⟨n, by rw [hrest, hshape], rfl, rfl⟩
    · obtain ⟨hpiece, -⟩ := Prod.mk.inj (Option.some.inj h)
      split at hpiece <;> cases hpiece

/-- The source with a space in place of what the span covers. -/
def Span.blankOut (span : Span) (source : List Char) : List Char :=
  takeBytes source span.start ++ ' ' :: dropBytes source span.stop

theorem Span.blankOut_append (front gap back : List Char) :
    blankOut ⟨byteLength front, byteLength front + byteLength gap⟩ (front ++ (gap ++ back)) =
      front ++ ' ' :: back := by
  rw [blankOut, takeBytes_append, ← byteLength_append, ← List.append_assoc, dropBytes_append]

namespace TokenStream

variable {source : List Char}

theorem kind_last_ofText (source : List Char) : (ofText source).last.kind = .endOfFile := by
  obtain ⟨ps, stop, -, -, hlast, -⟩ := ofText_eq source
  rw [hlast]
  rfl

/-- Without lexical errors there is no invalid token. -/
theorem valid_of_errors (h : (ofText source).errors = []) :
    ∀ word ∈ (ofText source).words source, word.1 ≠ .invalid := by
  intro word hword hinvalid
  obtain ⟨token, htoken, rfl⟩ := List.mem_map.1 hword
  have hmem : token ∈ (ofText source).toList.filter (·.kind == .invalid) :=
    List.mem_filter.2 ⟨List.mem_append_left _ htoken, beq_iff_eq.2 hinvalid⟩
  rw [← token_errors_ofText, h] at hmem
  cases hmem

/-- With all tokens valid there are no lexical errors. -/
theorem errors_of_valid (h : ∀ word ∈ (ofText source).words source, word.1 ≠ .invalid) :
    (ofText source).errors = [] := by
  have hnone : (ofText source).toList.filter (·.kind == .invalid) = [] := by
    refine List.filter_eq_nil_iff.2 fun token htoken hinvalid => ?_
    rw [beq_iff_eq] at hinvalid
    rcases List.mem_append.1 htoken with htoken | hlast
    · exact h (token.word source) (List.mem_map_of_mem htoken) hinvalid
    · obtain rfl := List.mem_singleton.1 hlast
      rw [kind_last_ofText] at hinvalid
      cases hinvalid
  rw [← token_errors_ofText] at hnone
  exact List.map_eq_nil_iff.1 hnone

/-- Sources that read the same have tokens of the same kinds. -/
theorem kinds_of_words {source' : List Char}
    (h : (ofText source).words source = (ofText source').words source') :
    (ofText source).kinds = (ofText source').kinds := by
  have hkinds (text : List Char) : (ofText text).kinds =
      ((ofText text).words text).map Prod.fst ++ [.endOfFile] := by
    rw [kinds, toList, List.map_append, words, List.map_map, List.map_singleton, kind_last_ofText]
    rfl
  rw [hkinds, hkinds, h]

/-- A source reads the same with a space in place of a continued line. -/
theorem words_blankOut (hvalid : (ofText source).errors = [])
    (hlone : ∀ token ∈ (ofText source).tokens, token.span.slice source ≠ ['_']) {gap : Trivia}
    (hgap : gap ∈ (ofText source).trivia) (hkind : gap.kind = .lineContinuation) :
    (ofText (gap.span.blankOut source)).words (gap.span.blankOut source) =
      (ofText source).words source := by
  have hvalid' := valid_of_errors hvalid
  obtain ⟨ps, stop, hscans, -⟩ := (Scanner.ofText source).scan_eq []
  have hwords : (ofText source).words source =
      (ps.filterMap Piece.token?).map (Token.word source) := by
    rw [ofText_eq_of_scans hscans]
    rfl
  have hlone' : ∀ word ∈ (ofText source).words source, word.2 ≠ ['_'] := by
    intro word hword
    obtain ⟨token, htoken, rfl⟩ := List.mem_map.1 hword
    exact hlone token (Array.mem_toList_iff.1 htoken)
  rw [hwords] at hvalid' hlone' ⊢
  have hpiece : Piece.trivia gap ∈ ps := by
    rw [ofText_eq_of_scans hscans] at hgap
    obtain ⟨p, hp, hgap⟩ := List.mem_filterMap.1 hgap
    cases p with
    | trivia t => cases hgap; exact hp
    | token _ | error _ => cases hgap
  obtain ⟨before, behind, rfl⟩ := List.append_of_mem hpiece
  obtain ⟨place, next, hbefore, hplace, hstep, hbehind⟩ :=
    hscans.split (Scanner.in_ofText source)
  obtain ⟨n, hshape, hspan, rfl⟩ := Scanner.step_trivia hstep
  rw [hkind] at hshape
  obtain ⟨more, hrest⟩ := Trivia.exists_of_shape?_continuation hshape
  obtain ⟨front, hsource, hoffset⟩ := id hplace
  -- The source is what is in front of the continuation, the continuation and what is behind it.
  have hblankOut : gap.span.blankOut source = front ++ ' ' :: place.rest.drop n := by
    have hparts := Span.blankOut_append front (place.rest.take n) (place.rest.drop n)
    rw [List.take_append_drop, ← hsource, ← hoffset] at hparts
    rw [hspan]
    exact hparts
  have hwordsBefore : ∀ word ∈ (before.filterMap Piece.token?).map (Token.word source),
      word.1 ≠ .invalid ∧ word.2 ≠ ['_'] := by
    intro word hword
    have hmem : word ∈ ((before ++ Piece.trivia gap :: behind).filterMap Piece.token?).map
        (Token.word source) := by
      rw [List.filterMap_append, List.map_append]
      exact List.mem_append_left _ hword
    exact ⟨hvalid' word hmem, hlone' word hmem⟩
  have hfront : (Scanner.ofText source).rest = front ++ '_' :: more := by
    rw [← hrest]
    exact hsource
  rw [hfront, hrest] at hbefore
  have hjoined := (hbefore.join (fun word h => (hwordsBefore word h).1)
    (fun word h => (hwordsBefore word h).2) (place.rest.drop n)).trans
    (hbehind.reads (hplace.advance n)).dropBlanks
  rw [← hblankOut, ← List.map_append] at hjoined
  rw [(reads_ofText _).unique hjoined, List.filterMap_append, List.filterMap_cons_none rfl]

end TokenStream

/-- In a source without lexical errors, and without an underscore that is a token of its own, a
space can stand in place of any continuation: the tokens have the same kinds and the same texts,
there are still no lexical errors, and the s-expression of the tree is the same, however deep blocks
and expressions may nest. -/
theorem continuations_eliminable (source : List Char)
    (hvalid : (TokenStream.ofText source).errors = [])
    (hlone : ∀ token ∈ (TokenStream.ofText source).tokens, token.span.slice source ≠ ['_'])
    (gap : Trivia) (hgap : gap ∈ (TokenStream.ofText source).trivia)
    (hkind : gap.kind = .lineContinuation) :
    let joined := gap.span.blankOut source
    (TokenStream.ofText joined).words joined = (TokenStream.ofText source).words source ∧
      (TokenStream.ofText joined).errors = [] ∧
      (∀ limit, (Tree.ofTokens joined (TokenStream.ofText joined) limit).sexp =
        (Tree.ofTokens source (TokenStream.ofText source) limit).sexp) ∧
      (Tree.parse joined).sexp = (Tree.parse source).sexp := by
  intro joined
  have hwords := TokenStream.words_blankOut hvalid hlone hgap hkind
  have hkinds := TokenStream.kinds_of_words hwords
  have hsexp (limit : Nat) : (Tree.ofTokens joined (TokenStream.ofText joined) limit).sexp =
      (Tree.ofTokens source (TokenStream.ofText source) limit).sexp :=
    (Tree.sameShape_ofTokens (TokenStream.ordered_ofText joined) (TokenStream.ordered_ofText source)
      hkinds (forall₂_lexical hkinds) joined source limit).sexp
  refine ⟨hwords, TokenStream.errors_of_valid ?_, hsexp, hsexp _⟩
  rw [hwords]
  exact TokenStream.valid_of_errors hvalid

/-- A continued line in the middle of an expression, with a comment and a string on its line. -/
def continuedSum : List Char := "Const k = 1 + _\n  \"2\" 'two".toList

theorem continuations_eliminable_sum :
    (⟨.lineContinuation, ⟨14, 16⟩⟩ : Trivia) ∈ (TokenStream.ofText continuedSum).trivia ∧
      (Tree.parse "Const k = 1 +    \"2\" 'two".toList).sexp = (Tree.parse continuedSum).sexp := by
  obtain ⟨hvalid, hlone, hgap, hjoined⟩ : (TokenStream.ofText continuedSum).errors = [] ∧
      (∀ token ∈ (TokenStream.ofText continuedSum).tokens,
        token.span.slice continuedSum ≠ ['_']) ∧
      (⟨.lineContinuation, ⟨14, 16⟩⟩ : Trivia) ∈ (TokenStream.ofText continuedSum).trivia ∧
      Span.blankOut ⟨14, 16⟩ continuedSum = "Const k = 1 +    \"2\" 'two".toList := by
    decide +kernel
  rw [← hjoined]
  exact ⟨hgap, (continuations_eliminable continuedSum hvalid hlone _ hgap rfl).2.2.2⟩

end VisualBasic
