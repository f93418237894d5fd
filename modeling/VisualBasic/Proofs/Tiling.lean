import Mathlib.Data.List.Perm.Basic
import VisualBasic.Proofs.TokenOrder

/-!
# Tiling a source

The tokens and the trivia of a source cover it without gaps. A scanner cuts one piece after the
other, each from where the one in front of it ends, and it only ever cuts between characters. So the
spans of the pieces tile the text, and the parts of the text that they cover, put together in their
order, are the text again.

Main results:

* `Scanner.Scans.tiles` — the pieces of a scan tile the text behind it.
* `Scanner.Scans.tokens_eq` — a scanner gives its tokens one by one, and then the mark of the end
  for ever.
* `tiled_ofText` — the stream of every source tiles the source.
-/

namespace VisualBasic

-- ---------------------------------------------------------------------------
-- Tilings
-- ---------------------------------------------------------------------------

namespace Span

/-- The spans cover the stretch from `i` to `j`, each beginning where the one in front of it ends,
and none is empty. -/
def Tile : Nat → List Span → Nat → Prop
  | i, [], j => i = j
  | i, s :: rest, j => s.start = i ∧ i < s.stop ∧ Tile s.stop rest j

/-- The order by starts and, where these are the same, by stops. -/
def before (a b : Span) : Bool := a.start < b.start || (a.start == b.start && a.stop ≤ b.stop)

theorem before_iff {a b : Span} :
    a.before b = true ↔ a.start < b.start ∨ a.start = b.start ∧ a.stop ≤ b.stop := by
  simp [before]

theorem before_antisymm {a b : Span} (hab : a.before b = true) (hba : b.before a = true) :
    a = b := by
  rw [before_iff] at hab hba
  obtain ⟨start, stop⟩ := a
  obtain ⟨start', stop'⟩ := b
  simp only [mk.injEq] at hab hba ⊢
  omega

namespace Tile

variable {i j : Nat} {spans : List Span}

theorem le (h : Tile i spans j) : i ≤ j := by
  induction spans generalizing i with
  | nil => exact Nat.le_of_eq h
  | cons s rest ih => exact Nat.le_trans (Nat.le_of_lt h.2.1) (ih h.2.2)

/-- A tiling lies between its ends. -/
theorem bounds (h : Tile i spans j) : ∀ s ∈ spans, i ≤ s.start ∧ s.start < s.stop ∧ s.stop ≤ j := by
  induction spans generalizing i with
  | nil => exact nofun
  | cons s rest ih =>
    obtain ⟨hstart, hlt, hrest⟩ := h
    refine List.forall_mem_cons.2 ⟨⟨?_, ?_, hrest.le⟩, fun s' hs' => ?_⟩
    · exact Nat.le_of_eq hstart.symm
    · exact hstart ▸ hlt
    · obtain ⟨hle, hbounds⟩ := ih hrest s' hs'
      exact ⟨Nat.le_trans (Nat.le_of_lt hlt) hle, hbounds⟩

/-- The spans of a tiling follow one another. -/
theorem pairwise (h : Tile i spans j) : spans.Pairwise fun a b => a.stop ≤ b.start := by
  induction spans generalizing i with
  | nil => exact .nil
  | cons s rest ih =>
    exact .cons (fun s' hs' => (h.2.2.bounds s' hs').1) (ih h.2.2)

/-- Every place between the ends of a tiling is in exactly one span of it. -/
theorem existsUnique (h : Tile i spans j) {o : Nat} (hi : i ≤ o) (hj : o < j) :
    ∃! s, s ∈ spans ∧ s.start ≤ o ∧ o < s.stop := by
  induction spans generalizing i with
  | nil => exact absurd (Nat.lt_of_le_of_lt hi hj) (Nat.not_lt_of_le (Nat.le_of_eq h.symm))
  | cons s rest ih =>
    obtain ⟨hstart, hlt, hrest⟩ := h
    by_cases ho : o < s.stop
    · refine ⟨s, ⟨List.mem_cons_self, hstart ▸ hi, ho⟩, ?_⟩
      rintro s' ⟨hs', hle, -⟩
      rcases List.mem_cons.1 hs' with rfl | hs'
      · rfl
      · exact absurd (hrest.bounds s' hs').1 (Nat.not_le_of_lt (Nat.lt_of_le_of_lt hle ho))
    · have hle : s.stop ≤ o := Nat.le_of_not_lt ho
      obtain ⟨s', ⟨hs', hin⟩, hunique⟩ := ih hrest hle
      refine ⟨s', ⟨List.mem_cons_of_mem _ hs', hin⟩, ?_⟩
      rintro s'' ⟨hs'', hin''⟩
      rcases List.mem_cons.1 hs'' with rfl | hs''
      · exact absurd hin''.2 ho
      · exact hunique s'' ⟨hs'', hin''⟩

end Tile

end Span

-- ---------------------------------------------------------------------------
-- Cutting texts
-- ---------------------------------------------------------------------------

namespace Text

/-- The offset is that of a place between two characters of the text, or of an end of it. -/
def IsBoundary (text : List Char) (offset : Nat) : Prop :=
  ∃ front back, text = front ++ back ∧ offset = byteLength front

theorem dropBytes_zero (text : List Char) : dropBytes text 0 = text := by
  cases text <;> rfl

theorem takeBytes_zero (text : List Char) : takeBytes text 0 = [] := by
  cases text <;> rfl

theorem dropBytes_append (front back : List Char) :
    dropBytes (front ++ back) (byteLength front) = back := by
  induction front with
  | nil => exact dropBytes_zero back
  | cons c rest ih =>
    have hc := Char.utf8Size_pos c
    rw [byteLength, List.cons_append]
    cases hsize : c.utf8Size + byteLength rest with
    | zero => omega
    | succ n =>
      rw [dropBytes, show n + 1 - c.utf8Size = byteLength rest by omega]
      exact ih

theorem takeBytes_append (front back : List Char) :
    takeBytes (front ++ back) (byteLength front) = front := by
  induction front with
  | nil => exact takeBytes_zero back
  | cons c rest ih =>
    have hc := Char.utf8Size_pos c
    rw [byteLength, List.cons_append]
    cases hsize : c.utf8Size + byteLength rest with
    | zero => omega
    | succ n =>
      rw [takeBytes, show n + 1 - c.utf8Size = byteLength rest by omega]
      exact congrArg (c :: ·) ih

/-- A stretch of text is what the span from its beginning to its end covers. -/
theorem slice_append (front middle back : List Char) :
    Span.slice ⟨byteLength front, byteLength front + byteLength middle⟩
      (front ++ (middle ++ back)) =
      middle := by
  rw [Span.slice, Span.length, dropBytes_append, Nat.add_sub_cancel_left, takeBytes_append]

end Text

-- ---------------------------------------------------------------------------
-- Pieces
-- ---------------------------------------------------------------------------

namespace Piece

def span : Piece → Span
  | trivia t => t.span
  | token t => t.span
  | error e => e.span

theorem span_of_trivia {p : Piece} {t : Trivia} (h : p.trivia? = some t) : t.span = p.span := by
  cases p with
  | token _ | error _ => cases h
  | trivia _ => cases h; rfl

/-- A piece is a token or trivia, and not both. -/
theorem perm_spans (ps : List Piece) :
    ((ps.filterMap token?).map Token.span ++ (ps.filterMap trivia?).map Trivia.span).Perm
      (ps.map span) := by
  induction ps with
  | nil => exact .nil
  | cons p rest ih =>
    cases p with
    | trivia t => exact List.perm_middle.trans (ih.cons t.span)
    | token t => exact ih.cons t.span
    | error e => exact ih.cons e.span

end Piece

namespace Scanner

/-- The text is what is behind the scanner, and in front of it as much as its offset says. -/
def In (s : Scanner) (text : List Char) : Prop :=
  ∃ front, text = front ++ s.rest ∧ s.position.offset = Text.byteLength front

theorem in_ofText (text : List Char) : (ofText text).In text := ⟨[], rfl, rfl⟩

theorem In.advance {s : Scanner} {text : List Char} (h : s.In text) (n : Nat) :
    (s.advance n).In text := by
  obtain ⟨front, htext, hoffset⟩ := h
  refine ⟨front ++ s.rest.take n, ?_, ?_⟩
  · rw [List.append_assoc, Scanner.advance, List.take_append_drop]
    exact htext
  · rw [Text.byteLength_append, ← hoffset]
    rfl

theorem In.isBoundary {s : Scanner} {text : List Char} (h : s.In text) :
    Text.IsBoundary text s.position.offset := by
  obtain ⟨front, htext, hoffset⟩ := h
  exact ⟨front, s.rest, htext, hoffset⟩

/-- The span of the next characters covers them. -/
theorem In.slice_span {s : Scanner} {text : List Char} (h : s.In text) (n : Nat) :
    (s.span n).slice text = s.rest.take n := by
  obtain ⟨front, htext, hoffset⟩ := h
  have hslice := Text.slice_append front (s.rest.take n) (s.rest.drop n)
  rw [List.take_append_drop, ← htext, ← hoffset] at hslice
  exact hslice

/-- A step takes some characters, and the piece that it cuts off covers them. -/
theorem step_eq_some {s s' : Scanner} {p : Piece} (h : s.step? = some (p, s')) :
    ∃ n, 0 < n ∧ s.rest ≠ [] ∧ s' = s.advance n ∧ p.span = s.span n := by
  unfold step? at h
  split at h
  · cases h
  · rename_i c rest hrest
    have hne : s.rest ≠ [] := by rw [hrest]; exact List.cons_ne_nil c rest
    split at h
    · rename_i hshape
      cases h
      exact ⟨_, Trivia.shape?_pos hshape, hne, rfl, rfl⟩
    · obtain ⟨rfl, rfl⟩ := Prod.mk.inj (Option.some.inj h)
      refine ⟨_, Lexeme.length_ofText_pos c rest, hne, rfl, ?_⟩
      split <;> rfl

theorem step_eq_none {s : Scanner} : s.step? = none ↔ s.rest = [] := by
  unfold step?
  split
  · exact iff_of_true rfl ‹_›
  · rename_i hrest
    refine iff_of_false ?_ (hrest ▸ List.cons_ne_nil _ _)
    split <;> exact nofun

section

variable {s s' stop : Scanner} {p : Piece} {ps : List Piece} {text : List Char}

theorem offset_lt_step (h : s.step? = some (p, s')) : s.position.offset < s'.position.offset := by
  obtain ⟨n, hn, hne, rfl, -⟩ := step_eq_some h
  exact offset_lt_advance hn hne

/-- The pieces of a scan tile the text behind it. -/
theorem Scans.tiles (h : s.Scans ps stop) :
    Span.Tile s.position.offset (ps.map Piece.span) stop.position.offset := by
  induction h with
  | done => rfl
  | step h _ ih =>
    obtain ⟨n, -, -, rfl, hspan⟩ := step_eq_some h
    refine ⟨?_, ?_, ?_⟩
    · rw [hspan]; rfl
    · rw [hspan]; exact offset_lt_step h
    · rw [hspan]; exact ih

/-- The pieces of a scan begin and end between characters. -/
theorem Scans.isBoundary (h : s.Scans ps stop) (hs : s.In text) :
    ∀ p ∈ ps, Text.IsBoundary text p.span.start ∧ Text.IsBoundary text p.span.stop := by
  induction h with
  | done => exact nofun
  | step h _ ih =>
    obtain ⟨n, -, -, rfl, hspan⟩ := step_eq_some h
    refine List.forall_mem_cons.2 ⟨?_, ih (hs.advance n)⟩
    rw [hspan]
    exact ⟨hs.isBoundary, (hs.advance n).isBoundary⟩

/-- What the pieces of a scan cover is the text behind it. -/
theorem Scans.flatMap_slice (h : s.Scans ps stop) (hs : s.In text) :
    (ps.map Piece.span).flatMap (·.slice text) = s.rest := by
  induction h with
  | done h => exact (step_eq_none.1 h).symm
  | @step s _ _ _ _ h _ ih =>
    obtain ⟨n, -, -, rfl, hspan⟩ := step_eq_some h
    rw [List.map_cons, List.flatMap_cons, ih (hs.advance n), hspan, hs.slice_span n]
    exact List.take_append_drop n s.rest

-- ---------------------------------------------------------------------------
-- Scans and streams
-- ---------------------------------------------------------------------------

/-- There is only one way to cut a text into pieces. -/
theorem Scans.unique (h : s.Scans ps stop) {ps' : List Piece} {stop' : Scanner}
    (h' : s.Scans ps' stop') : ps = ps' ∧ stop = stop' := by
  induction h generalizing ps' with
  | done h =>
    cases h' with
    | done => exact ⟨rfl, rfl⟩
    | step h' _ => exact absurd (h.symm.trans h') nofun
  | step h _ ih =>
    cases h' with
    | done h' => exact absurd (h'.symm.trans h) nofun
    | step h' hrest' =>
      obtain ⟨rfl, rfl⟩ := Prod.mk.inj (Option.some.inj (h.symm.trans h'))
      obtain ⟨rfl, rfl⟩ := ih hrest'
      exact ⟨rfl, rfl⟩

-- ---------------------------------------------------------------------------
-- Tokens one by one
-- ---------------------------------------------------------------------------

/-- At the end of the text the mark of the end is given for ever. -/
theorem tokens_of_step_eq_none (h : s.step? = none) (n : Nat) :
    tokens n s = List.replicate n s.endToken := by
  have hnext : s.next = (s.endToken, s) := by
    rw [next]
    split
    · rfl
    · rename_i hstep
      rw [h] at hstep
      cases hstep
  induction n with
  | zero => rfl
  | succ n ih => rw [tokens, hnext, ih, List.replicate_succ]

/-- A token is given, and trivia is skipped. -/
theorem next_of_step (h : s.step? = some (p, s')) :
    s.next = p.token?.elim s'.next fun t => (t, s') := by
  rw [next]
  split
  · rename_i hstep
    rw [h] at hstep
    cases hstep
  · rename_i hstep
    rw [h] at hstep
    cases hstep
    cases p.token? with
    | none => rfl
    | some t => rfl

/-- The first tokens of a scan are its tokens and then the mark of the end, as often as it takes. -/
theorem Scans.tokens_eq (h : s.Scans ps stop) (n : Nat) :
    tokens n s = (ps.filterMap Piece.token? ++ List.replicate n stop.endToken).take n := by
  induction h generalizing n with
  | done h =>
    rw [tokens_of_step_eq_none h, List.filterMap_nil, List.nil_append, List.take_replicate,
      Nat.min_self]
  | @step s s' stop p ps h _ ih =>
    cases hp : p.token? with
    | none =>
      rw [List.filterMap_cons_none hp, ← ih n]
      cases n with
      | zero => rfl
      | succ n => rw [tokens, tokens, next_of_step h, hp, Option.elim_none]
    | some t =>
      rw [List.filterMap_cons_some hp]
      cases n with
      | zero => rfl
      | succ n =>
        rw [tokens, next_of_step h, hp, Option.elim_some, List.cons_append,
          List.take_succ_cons, ih n,
          List.replicate_succ', ← List.append_assoc]
        refine congrArg (t :: ·) (List.take_append_of_le_length ?_).symm
        rw [List.length_append, List.length_replicate]
        exact Nat.le_add_left _ _

end

end Scanner

-- ---------------------------------------------------------------------------
-- Streams
-- ---------------------------------------------------------------------------

namespace TokenStream

/-- The stream of a text is made of the pieces into which the text is cut. -/
theorem ofText_eq_of_scans {text : List Char} {ps : List Piece} {stop : Scanner}
    (h : (Scanner.ofText text).Scans ps stop) : ofText text =
      { tokens := (ps.filterMap Piece.token?).toArray
        last := stop.endToken
        trivia := ps.filterMap Piece.trivia?
        errors := ps.filterMap Piece.error? } := by
  obtain ⟨ps', stop', hscans, heq⟩ := (Scanner.ofText text).scan_eq []
  obtain ⟨rfl, rfl⟩ := h.unique hscans
  rw [ofText, heq, List.append_nil]
  dsimp only
  rw [List.reverse_reverse]

/-- The stream tiles the text: its tokens and its trivia lie side by side from one end of the text
to the other, and only the mark of the end of the text is empty. -/
structure Tiles (t : TokenStream) (text : List Char) : Prop where
  /-- The spans, in the order of their starts, leave no gaps and do not overlap. -/
  tile : Span.Tile 0 t.spans (Text.byteLength text)
  /-- Every offset in the text is in exactly one span. -/
  partition : ∀ o < Text.byteLength text, ∃! s, s ∈ t.spans ∧ s.start ≤ o ∧ o < s.stop
  /-- All offsets are between characters. -/
  boundaries : ∀ s ∈ t.toList.map Token.span ++ t.trivia.map Trivia.span,
    Text.IsBoundary text s.start ∧ Text.IsBoundary text s.stop
  trivia : ∀ piece ∈ t.trivia, piece.span.start < piece.span.stop
  tokens : ∀ token ∈ t.tokens, token.span.start < token.span.stop ∧ token.kind ≠ .endOfFile
  last : t.last.kind = .endOfFile ∧
    t.last.span = ⟨Text.byteLength text, Text.byteLength text⟩
  /-- The tokens are in the order of their spans. -/
  increasing : t.toList.Pairwise fun a b => a.span.stop ≤ b.span.start ∧ a.span.start < b.span.start
  /-- Put together again, the spans are the text. -/
  reassemble : t.reassemble text = text
  /-- A scanner gives the tokens one by one, and the mark of the end of the text for ever. -/
  pulled : ∀ n, (Scanner.ofText text).tokens n = (List.range n).map t.get

section

variable {t : TokenStream} {ps : List Piece} {i j : Nat}

/-- All spans of a stream but that of the mark of the end are spans of its pieces. -/
theorem mem_spans_of_pieces (htokens : t.tokens.toList = ps.filterMap Piece.token?)
    (htrivia : t.trivia = ps.filterMap Piece.trivia?) {s : Span}
    (hs : s ∈ t.toList.map Token.span ++ t.trivia.map Trivia.span) :
    s ∈ ps.map Piece.span ∨ s = t.last.span := by
  rw [toList, htokens, htrivia, List.map_append, List.map_singleton, List.append_assoc,
    List.mem_append, List.mem_append, List.mem_singleton] at hs
  rcases hs with hs | hs | hs
  · exact .inl ((Piece.perm_spans ps).subset (List.mem_append_left _ hs))
  · exact .inr hs
  · exact .inl ((Piece.perm_spans ps).subset (List.mem_append_right _ hs))

/-- The spans of a row of pieces that tile a stretch. -/
theorem spans_eq_of_pieces (htokens : t.tokens.toList = ps.filterMap Piece.token?)
    (htrivia : t.trivia = ps.filterMap Piece.trivia?)
    (hlast : ¬t.last.span.start < t.last.span.stop) (h : Span.Tile i (ps.map Piece.span) j) :
    t.spans = ps.map Piece.span := by
  have hfilter : (ps.map Piece.span).filter (fun span => span.start < span.stop) =
      ps.map Piece.span :=
    List.filter_eq_self.2 fun s hs => decide_eq_true (h.bounds s hs).2.1
  have hall : ((t.toList.map Token.span ++ t.trivia.map Trivia.span).filter
      fun span => span.start < span.stop).Perm (ps.map Piece.span) := by
    rw [toList, htokens, htrivia, List.map_append, List.filter_append, List.filter_append,
      List.map_singleton, List.filter_cons_of_neg (decide_eq_false hlast ▸ Bool.false_ne_true),
      List.filter_nil, List.append_nil, ← List.filter_append, ← hfilter]
    exact (Piece.perm_spans ps).filter _
  have hsorted : (ps.map Piece.span).Pairwise fun a b => a.before b = true := by
    refine h.pairwise.imp_of_mem fun {a b} ha _ hab => Span.before_iff.2 (.inl ?_)
    exact Nat.lt_of_lt_of_le (h.bounds a ha).2.1 hab
  have hmerge : t.spans.Pairwise fun a b => a.before b = true := by
    refine List.pairwise_mergeSort (fun a b c hab hbc => ?_) (fun a b => ?_) _
    · rw [Span.before_iff] at hab hbc ⊢
      omega
    · rw [Bool.or_eq_true, Span.before_iff, Span.before_iff]
      omega
  exact ((List.mergeSort_perm _ _).trans hall).eq_of_pairwise
    (fun a b _ _ hab hba => Span.before_antisymm hab hba) hmerge hsorted

end

/-- The tokens of a row, the mark of the end included, are in the order of their spans. -/
theorem Ordered.pairwise_toList {t : TokenStream} (h : t.Ordered) :
    t.toList.Pairwise fun a b => a.span.stop ≤ b.span.start ∧ a.span.start < b.span.start := by
  have hlt {i j : Nat} (hij : i < j) (hj : j ≤ t.tokens.size) :
      (t.get i).span.stop ≤ (t.get j).span.start ∧ (t.get i).span.start < (t.get j).span.start := by
    have hle := h.stop_le_start i j hij hj
    have hstart := h.start_lt_stop i (Nat.lt_of_lt_of_le hij hj)
    exact ⟨hle, Nat.lt_of_lt_of_le hstart hle⟩
  refine List.pairwise_append.2 ⟨List.pairwise_iff_getElem.2 fun i j hi hj hij => ?_,
    List.pairwise_singleton _ _, fun a ha b hb => ?_⟩
  · rw [Array.getElem_toList, Array.getElem_toList, ← get_eq_getElem hi, ← get_eq_getElem hj]
    exact hlt hij (Nat.le_of_lt hj)
  · obtain ⟨i, hi, rfl⟩ := List.getElem_of_mem ha
    rw [Array.getElem_toList, ← get_eq_getElem hi, List.mem_singleton.1 hb,
      ← get_of_size_le (Nat.le_refl t.tokens.size)]
    exact hlt hi (Nat.le_refl _)

/-- The token at an index, behind the last one again that one. -/
theorem map_get_range (t : TokenStream) (n : Nat) :
    (List.range n).map t.get = (t.tokens.toList ++ List.replicate n t.last).take n := by
  refine List.ext_getElem ?_ fun i hi hi' => ?_
  · rw [List.length_map, List.length_range, List.length_take, List.length_append,
      List.length_replicate, Nat.min_eq_left (Nat.le_add_left _ _)]
  · rw [List.length_map, List.length_range] at hi
    rw [List.getElem_map, List.getElem_range, List.getElem_take, List.getElem_append]
    split
    · rename_i hlt
      exact get_eq_getElem hlt
    · rename_i hge
      rw [List.getElem_replicate, get_of_size_le (Nat.le_of_not_lt hge)]

end TokenStream

/-- The tokens and the trivia of every source tile it. -/
theorem tiled_ofText (text : List Char) : (TokenStream.ofText text).Tiles text := by
  obtain ⟨ps, stop, hscans, -⟩ := (Scanner.ofText text).scan_eq []
  have hordered := TokenStream.ordered_ofText text
  have hlast := TokenStream.span_last_ofText text
  have hin := Scanner.in_ofText text
  have hstop : stop.position.offset = Text.byteLength text :=
    hscans.offset_stop.trans (Nat.zero_add _)
  have htile : Span.Tile 0 (ps.map Piece.span) (Text.byteLength text) := hstop ▸ hscans.tiles
  have hend : Text.IsBoundary text (Text.byteLength text) :=
    ⟨text, [], (List.append_nil text).symm, rfl⟩
  generalize ht : TokenStream.ofText text = t at hordered hlast ⊢
  rw [TokenStream.ofText_eq_of_scans hscans] at ht
  have htokens : t.tokens.toList = ps.filterMap Piece.token? := by rw [← ht]
  have htrivia : t.trivia = ps.filterMap Piece.trivia? := by rw [← ht]
  have hmark : t.last = stop.endToken := by rw [← ht]
  have hspans : t.spans = ps.map Piece.span := by
    refine TokenStream.spans_eq_of_pieces htokens htrivia ?_ htile
    rw [hlast]
    exact Nat.lt_irrefl _
  refine ⟨?_, fun o ho => ?_, fun s hs => ?_, fun piece hpiece => ?_,
    fun token htoken => ?_, ?_, ?_,
    ?_, fun n => ?_⟩
  · rw [hspans]
    exact htile
  · rw [hspans]
    exact htile.existsUnique (Nat.zero_le _) ho
  · rcases TokenStream.mem_spans_of_pieces htokens htrivia hs with hs | rfl
    · obtain ⟨p, hp, rfl⟩ := List.mem_map.1 hs
      exact hscans.isBoundary hin p hp
    · rw [hlast]
      exact ⟨hend, hend⟩
  · rw [htrivia] at hpiece
    obtain ⟨p, hp, hpiece⟩ := List.mem_filterMap.1 hpiece
    rw [Piece.span_of_trivia hpiece]
    exact (htile.bounds p.span (List.mem_map_of_mem hp)).2.1
  · rw [← Array.mem_toList_iff, htokens] at htoken
    obtain ⟨-, hlt, -, hkind⟩ := hscans.token_bounds token htoken
    exact ⟨hlt, hkind⟩
  · refine ⟨?_, hlast⟩
    rw [hmark]
    rfl
  · exact hordered.pairwise_toList
  · rw [TokenStream.reassemble, hspans]
    exact hscans.flatMap_slice hin
  · rw [hscans.tokens_eq, TokenStream.map_get_range, htokens, hmark]

end VisualBasic
