import VisualBasic.Proofs.Lines

/-!
# Scanning line by line

What a scanner cuts off a text that ends with a line feed, it cuts off as well when more text
follows: no piece looks behind the last line feed, and the last piece ends with it. So a source is
scanned up to the end of a line, and then the rest of it as if it stood alone, only further down. A
quote, a bracket or a date that is not closed on its line is no concern of a later line.

Main results:

* `Scanner.Scans.append` — a scan of a text that ends with a line feed goes on with the text behind
  it.
* `Scanner.Scans.shift` — a scan does not depend on where the text stands.
* `TokenStream.ofText_append` — the stream of such a text and more is the one stream and then the
  other.
-/

namespace VisualBasic

open Text

-- ---------------------------------------------------------------------------
-- Texts that end with a line
-- ---------------------------------------------------------------------------

namespace Text

/-- The text is empty, or a line feed is its last character. -/
def EndsLine (text : List Char) : Prop := ∀ h : text ≠ [], text.getLast h = '\n'

namespace EndsLine

variable {text : List Char}

theorem lineFeed (text : List Char) : EndsLine (text ++ ['\n']) := fun _ =>
  List.getLast_append_singleton text

theorem drop (h : EndsLine text) (n : Nat) : EndsLine (text.drop n) := fun hne => by
  rw [List.getLast_drop]
  exact h _

theorem eq_append (h : EndsLine text) (hne : text ≠ []) : text = text.dropLast ++ ['\n'] := by
  rw [← h hne, List.dropLast_append_getLast]

/-- Whatever follows such a text, what is in front of it is the same up to a line feed. -/
theorem sameLine (h : EndsLine text) (hne : text ≠ []) (s t : List Char) :
    SameLine (text ++ s) (text ++ t) := by
  rw [h.eq_append hne, List.append_assoc, List.append_assoc]
  exact sameLine_append text.dropLast s t

end EndsLine

end Text

-- ---------------------------------------------------------------------------
-- Further down
-- ---------------------------------------------------------------------------

/-- The point some lines further down. -/
def Point.shift (lines : Nat) (p : Point) : Point := ⟨p.line + lines, p.column⟩

/-- The span some bytes further on. -/
def Span.shift (bytes : Nat) (s : Span) : Span := ⟨s.start + bytes, s.stop + bytes⟩

section

variable (bytes lines : Nat)

def Position.shift (p : Position) : Position := ⟨p.offset + bytes, p.point.shift lines⟩

/-- The token of the same text some bytes further on and some lines further down. -/
def Token.shift (t : Token) : Token := ⟨t.kind, t.span.shift bytes, t.point.shift lines⟩

def Trivia.shift (t : Trivia) : Trivia := ⟨t.kind, t.span.shift bytes⟩

def LexicalError.shift (e : LexicalError) : LexicalError :=
  ⟨e.fault, e.span.shift bytes, e.point.shift lines⟩

def Piece.shift : Piece → Piece
  | trivia t => trivia (t.shift bytes)
  | token t => token (t.shift bytes lines)
  | error e => error (e.shift bytes lines)

/-- The scanner of the same text some bytes further on and some lines further down. -/
def Scanner.shift (s : Scanner) : Scanner := ⟨s.position.shift bytes lines, s.rest⟩

/-- The stream of the same text some bytes further on and some lines further down. -/
def TokenStream.shift (t : TokenStream) : TokenStream :=
  { tokens := t.tokens.map (Token.shift bytes lines)
    last := t.last.shift bytes lines
    trivia := t.trivia.map (Trivia.shift bytes)
    errors := t.errors.map (LexicalError.shift bytes lines) }

end

/-- One stream, without the mark of its end, and then another. -/
def TokenStream.append (t t' : TokenStream) : TokenStream :=
  { tokens := t.tokens ++ t'.tokens
    last := t'.last
    trivia := t.trivia ++ t'.trivia
    errors := t.errors ++ t'.errors }

namespace Position

/-- Where a walk leads from further down. -/
theorem shift_after (bytes lines : Nat) (p : Position) (text : List Char) :
    (p.shift bytes lines).after text = (p.after text).shift bytes lines := by
  have hfold (q : Point) :
      text.foldl Point.next (q.shift lines) = (text.foldl Point.next q).shift lines := by
    induction text generalizing q with
    | nil => rfl
    | cons c rest ih =>
      have hnext : (q.shift lines).next c = (q.next c).shift lines := by
        unfold Point.next
        split
        · exact congrArg (Point.mk · 1) (Nat.add_right_comm _ _ _)
        · rfl
      rw [List.foldl_cons, List.foldl_cons, hnext, ih]
  simp only [after, shift, hfold, mk.injEq, and_true]
  exact Nat.add_right_comm _ _ _

/-- A walk over characters counts the line feeds among them. -/
theorem line_foldl (p : Point) (text : List Char) :
    (text.foldl Point.next p).line = p.line + text.count '\n' := by
  induction text generalizing p with
  | nil => rfl
  | cons c rest ih =>
    rw [List.foldl_cons, ih, List.count_cons, Point.next]
    split
    · rename_i hc
      rw [if_pos (beq_iff_eq.2 hc)]
      exact Nat.add_right_comm _ _ _
    · rename_i hc
      rw [if_neg (mt beq_iff_eq.1 hc)]
      rfl

/-- Behind a text that ends with a line feed one stands at the beginning of a line. -/
theorem after_of_endsLine {text : List Char} (h : EndsLine text) :
    origin.after text = origin.shift (byteLength text) (text.count '\n') := by
  by_cases hne : text = []
  · subst hne
    rfl
  · have hcolumn : (text.foldl Point.next Point.origin).column = 1 := by
      rw [h.eq_append hne, List.foldl_append, List.foldl_cons, List.foldl_nil,
        Point.next, if_pos rfl]
    have hline := line_foldl Point.origin text
    have hpoint : text.foldl Point.next Point.origin = Point.origin.shift (text.count '\n') := by
      generalize text.foldl Point.next Point.origin = p at hcolumn hline
      obtain ⟨line, column⟩ := p
      exact Point.mk.injEq .. ▸ ⟨hline, hcolumn⟩
    exact congrArg (Position.mk _) hpoint

end Position

-- ---------------------------------------------------------------------------
-- Scans
-- ---------------------------------------------------------------------------

namespace Scanner

/-- The scanner at the same place, with more text behind the text. -/
def extend (s : Scanner) (text : List Char) : Scanner := ⟨s.position, s.rest ++ text⟩

section

variable {s s' stop : Scanner} {p : Piece} {ps : List Piece} {n : Nat} {text : List Char}

theorem advance_extend (h : n ≤ s.rest.length) :
    (s.extend text).advance n = (s.advance n).extend text := by
  rw [advance, advance, extend, extend, List.take_append_of_le_length h,
    List.drop_append_of_le_length h]

theorem span_extend (h : n ≤ s.rest.length) : (s.extend text).span n = s.span n := by
  rw [span, span, advance_extend h]
  rfl

/-- The piece cut off a text that ends with a line feed is cut off whatever follows. -/
theorem step_extend (hline : EndsLine s.rest) (h : s.step? = some (p, s')) :
    (s.extend text).step? = some (p, s'.extend text) := by
  have hne : s.rest ≠ [] := (step_eq_some h).elim fun _ hn => hn.2.1
  obtain ⟨c, rest, hrest⟩ := List.exists_cons_of_ne_nil hne
  have hsame : SameLine (c :: rest) (c :: rest ++ text) := by
    have hall := hline.sameLine hne [] text
    rwa [hrest, List.append_nil] at hall
  have hcons : (s.extend text).rest = c :: (rest ++ text) := congrArg (· ++ text) hrest
  unfold step? at h ⊢
  rw [hrest] at h
  rw [hcons]
  dsimp only at h ⊢
  rw [← List.cons_append, ← Trivia.shape?_eq hsame, ← Lexeme.ofText_eq hsame]
  split at h
  · rename_i hshape
    have hle := Trivia.shape?_le hshape
    rw [← hrest] at hle
    cases h
    rw [span_extend hle, advance_extend hle]
  · have hle := Lexeme.length_ofText_le (c :: rest)
    rw [← hrest] at hle
    obtain ⟨rfl, rfl⟩ := Prod.mk.inj (Option.some.inj h)
    rw [hrest] at hle
    rw [span_extend (hrest ▸ hle), advance_extend (hrest ▸ hle)]
    rfl

/-- The scan of a text that ends with a line feed goes on with the text behind it. -/
theorem Scans.append (h : s.Scans ps stop) (hline : EndsLine s.rest) {ps' : List Piece}
    {stop' : Scanner} (h' : Scans ⟨stop.position, text⟩ ps' stop') :
    (s.extend text).Scans (ps ++ ps') stop' := by
  induction h with
  | @done s hdone =>
    rw [extend, step_eq_none.1 hdone]
    exact h'
  | step hstep _ ih =>
    obtain ⟨n, -, -, rfl, -⟩ := step_eq_some hstep
    exact .step (step_extend hline hstep) (ih (hline.drop n) h')

/-- A scan walks over all of the text. -/
theorem Scans.position_stop (h : s.Scans ps stop) : stop.position = s.position.after s.rest := by
  induction h with
  | @done s h => rw [step_eq_none.1 h, Position.after_nil]
  | @step s _ _ _ _ hstep _ ih =>
    obtain ⟨n, -, -, rfl, -⟩ := step_eq_some hstep
    rw [ih, advance, ← Position.after_append, List.take_append_drop]

variable (bytes lines : Nat)

theorem advance_shift (s : Scanner) (n : Nat) :
    (s.shift bytes lines).advance n = (s.advance n).shift bytes lines :=
  congrArg (Scanner.mk · (s.rest.drop n)) (Position.shift_after bytes lines s.position _)

theorem span_shift (s : Scanner) (n : Nat) :
    (s.shift bytes lines).span n = (s.span n).shift bytes := by
  rw [span, advance_shift]
  rfl

theorem step_shift (h : s.step? = some (p, s')) :
    (s.shift bytes lines).step? = some (p.shift bytes lines, s'.shift bytes lines) := by
  obtain ⟨c, rest, hrest⟩ := List.exists_cons_of_ne_nil ((step_eq_some h).elim fun _ hn => hn.2.1)
  have hcons : (s.shift bytes lines).rest = c :: rest := hrest
  unfold step? at h ⊢
  rw [hrest] at h
  rw [hcons]
  dsimp only at h ⊢
  split at h
  · cases h
    rw [span_shift, advance_shift]
    rfl
  · obtain ⟨rfl, rfl⟩ := Prod.mk.inj (Option.some.inj h)
    rw [span_shift, advance_shift]
    split <;> rfl

/-- A scan does not depend on where the text stands. -/
theorem Scans.shift (h : s.Scans ps stop) :
    (s.shift bytes lines).Scans (ps.map (Piece.shift bytes lines)) (stop.shift bytes lines) := by
  induction h with
  | @done s h =>
    have hrest : s.rest = [] := step_eq_none.1 h
    exact .done (step_eq_none.2 hrest)
  | step h _ ih => exact .step (step_shift bytes lines h) ih

end

end Scanner

-- ---------------------------------------------------------------------------
-- Streams
-- ---------------------------------------------------------------------------

namespace Piece

variable (bytes lines : Nat) (ps : List Piece)

theorem token_shift : (ps.map (shift bytes lines)).filterMap token? =
    (ps.filterMap token?).map (Token.shift bytes lines) := by
  rw [List.filterMap_map, List.map_filterMap]
  refine List.filterMap_congr fun p _ => ?_
  cases p <;> rfl

theorem trivia_shift : (ps.map (shift bytes lines)).filterMap trivia? =
    (ps.filterMap trivia?).map (Trivia.shift bytes) := by
  rw [List.filterMap_map, List.map_filterMap]
  refine List.filterMap_congr fun p _ => ?_
  cases p <;> rfl

theorem error_shift : (ps.map (shift bytes lines)).filterMap error? =
    (ps.filterMap error?).map (LexicalError.shift bytes lines) := by
  rw [List.filterMap_map, List.map_filterMap]
  refine List.filterMap_congr fun p _ => ?_
  cases p <;> rfl

end Piece

namespace TokenStream

/-- A text that ends with a line feed and a text behind it are scanned apart. -/
theorem ofText_append {front : List Char} (h : EndsLine front) (back : List Char) :
    ofText (front ++ back) =
      (ofText front).append ((ofText back).shift (byteLength front) (front.count '\n')) := by
  obtain ⟨ps, stop, hscans, -⟩ := (Scanner.ofText front).scan_eq []
  obtain ⟨ps', stop', hscans', -⟩ := (Scanner.ofText back).scan_eq []
  have hstop : stop.position = Position.origin.shift (byteLength front) (front.count '\n') :=
    hscans.position_stop.trans (Position.after_of_endsLine h)
  have hback := hscans'.shift (byteLength front) (front.count '\n')
  rw [Scanner.shift, Scanner.ofText, ← hstop] at hback
  have hall : (Scanner.ofText (front ++ back)).Scans _ _ := hscans.append h hback
  rw [ofText_eq_of_scans hscans, ofText_eq_of_scans hscans', ofText_eq_of_scans hall]
  simp only [append, shift, List.filterMap_append, Piece.token_shift, Piece.trivia_shift,
    Piece.error_shift, List.map_toArray, List.append_toArray]
  rfl

end TokenStream

/-- The tokens, the trivia and the errors of a text cut at the end of a line are those of the one
part, without the mark of its end, and then those of the other, further on and further down. -/
theorem line_local (front back : List Char) :
    let line := front ++ ['\n']
    let bytes := byteLength line
    let lines := line.count '\n'
    let t := TokenStream.ofText line
    let t' := TokenStream.ofText back
    let whole := TokenStream.ofText (line ++ back)
    whole.toList = t.toList.dropLast ++ t'.toList.map (Token.shift bytes lines) ∧
      whole.trivia = t.trivia ++ t'.trivia.map (Trivia.shift bytes) ∧
      whole.errors = t.errors ++ t'.errors.map (LexicalError.shift bytes lines) := by
  dsimp only
  rw [TokenStream.ofText_append (EndsLine.lineFeed front) back]
  refine ⟨?_, rfl, rfl⟩
  simp only [TokenStream.toList, TokenStream.append, TokenStream.shift, Array.toList_append,
    Array.toList_map, List.dropLast_concat, List.map_append, List.map_singleton, List.append_assoc]

end VisualBasic
