import Mathlib.Data.List.DropRight
import Mathlib.Tactic.ByContra
import VisualBasic.Proofs.Tiling
import VisualBasic.Tree

/-!
# Two ways to the same point

Points are found in two ways. The scanner counts lines and columns as it walks over the characters.
A tree looks the line up in a table of the line starts and counts the characters from there on. Both
come to what the text in front of the place says: one line for each line feed in it, and one column
for each character behind the last of them.

Main results:

* `LineTable.bisect_append` — bisection finds the last line that begins at or before an offset.
* `LineTable.pointIn_append` — the point that a table gives for the end of a part of the text.
* `Position.point_after` — the point at which a walk over the same part arrives.
* `Tree.point_agrees` — so a tree and the scanner agree on all tokens and lexical errors.
-/

namespace VisualBasic

-- ---------------------------------------------------------------------------
-- Bisection
-- ---------------------------------------------------------------------------

namespace LineTable

section

variable {front back : List Nat} {line offset lo hi : Nat}

theorem startOf_append_left (h : line < front.length) :
    startOf ⟨(front ++ back).toArray⟩ line = front[line] := by
  simp [startOf, List.getElem?_append_left h, h]

theorem startOf_append_right (h : front.length ≤ line) (hlt : line < (front ++ back).length) :
    startOf ⟨(front ++ back).toArray⟩ line ∈ back := by
  have hback : line - front.length < back.length := by
    rw [List.length_append] at hlt
    omega
  simp [startOf, List.getElem?_append_right h, hback]

/-- If the first lines begin at or before an offset and the other ones behind it, bisection finds
the last of the first. -/
theorem bisect_append (hfront : ∀ start ∈ front, start ≤ offset)
    (hback : ∀ start ∈ back, offset < start) (hlo : lo < front.length) (hhi : front.length ≤ hi)
    (hsize : hi ≤ (front ++ back).length) :
    bisect ⟨(front ++ back).toArray⟩ offset lo hi + 1 = front.length := by
  fun_induction bisect ⟨(front ++ back).toArray⟩ offset lo hi with
  | case1 lo hi hroom middle hle ih =>
    have hmiddle : middle < front.length := by
      by_contra hge
      have hlt := hback _ (startOf_append_right (Nat.le_of_not_lt hge) (by omega))
      omega
    exact ih hmiddle hhi hsize
  | case2 lo hi hroom middle hgt ih =>
    have hmiddle : front.length ≤ middle := by
      by_contra hlt
      have hmem := hfront _ (List.getElem_mem (Nat.lt_of_not_le hlt))
      rw [startOf_append_left (Nat.lt_of_not_le hlt)] at hgt
      exact hgt hmem
    exact ih hlo hmiddle (by omega)
  | case3 lo hi hroom => omega

end

end LineTable

-- ---------------------------------------------------------------------------
-- The starts of the lines
-- ---------------------------------------------------------------------------

namespace Text

/-- The characters behind the last line feed, or all of them if there is none. -/
def lastLine (text : List Char) : List Char := text.rtakeWhile (· != '\n')

theorem lastLine_concat (text : List Char) (c : Char) :
    lastLine (text ++ [c]) = if c = '\n' then [] else lastLine text ++ [c] := by
  by_cases hc : c = '\n' <;> simp [lastLine, hc]

theorem exists_append_lastLine (text : List Char) : ∃ front, text = front ++ lastLine text :=
  ⟨text.rdropWhile (· != '\n'), (List.rdropWhile_append_rtakeWhile ..).symm⟩

theorem lineStartsFrom_append (base : Nat) (front back : List Char) :
    lineStartsFrom base (front ++ back) =
      lineStartsFrom base front ++ lineStartsFrom (base + byteLength front) back := by
  induction front generalizing base with
  | nil => rfl
  | cons c rest ih =>
    simp only [List.cons_append, lineStartsFrom, byteLength, ih, Nat.add_assoc]
    split
    · rw [List.cons_append]
    · rfl

theorem lineStartsFrom_bounds (base : Nat) (text : List Char) :
    ∀ start ∈ lineStartsFrom base text, base < start ∧ start ≤ base + byteLength text := by
  induction text generalizing base with
  | nil => exact nofun
  | cons c rest ih =>
    have hc := Char.utf8Size_pos c
    have hrest : ∀ start ∈ lineStartsFrom (base + c.utf8Size) rest,
        base < start ∧ start ≤ base + byteLength (c :: rest) := by
      intro start hstart
      obtain ⟨hlt, hle⟩ := ih _ start hstart
      rw [byteLength]
      omega
    rw [lineStartsFrom]
    split
    · intro start hstart
      rcases List.mem_cons.1 hstart with rfl | hstart
      · rw [byteLength]
        omega
      · exact hrest start hstart
    · exact hrest

/-- There is a line for each line feed, and the one in front of the first. -/
theorem length_lineStartsFrom (base : Nat) (text : List Char) :
    (lineStartsFrom base text).length = text.count '\n' := by
  induction text generalizing base with
  | nil => rfl
  | cons c rest ih =>
    rw [lineStartsFrom]
    split
    · rename_i hc
      rw [List.length_cons, ih, hc, List.count_cons_self]
    · rename_i hc
      rw [ih, List.count_cons_of_ne hc]

/-- The last line begins where the text in front of it ends. -/
theorem getLast_lineStartsFrom (text : List Char) :
    (0 :: lineStartsFrom 0 text).getLast (List.cons_ne_nil _ _) + byteLength (lastLine text) =
      byteLength text := by
  induction text using List.reverseRecOn with
  | nil => rfl
  | append_singleton text c ih =>
    have hbytes := byteLength_append text [c]
    simp only [lineStartsFrom_append, lastLine_concat]
    by_cases hc : c = '\n'
    · subst hc
      simp [lineStartsFrom, byteLength_append, byteLength]
    · simp only [lineStartsFrom, if_neg hc, List.append_nil, byteLength_append]
      omega

end Text

-- ---------------------------------------------------------------------------
-- The point that a table gives
-- ---------------------------------------------------------------------------

namespace LineTable

variable (front back : List Char)

/-- The lines that begin in a part of the text, its beginning included, are those that begin at or
before its end. -/
theorem lineAt_append :
    (ofText (front ++ back)).lineAt (Text.byteLength front) = front.count '\n' := by
  have hsplit : ofText (front ++ back) =
      ⟨((0 :: Text.lineStartsFrom 0 front) ++
        Text.lineStartsFrom (Text.byteLength front) back).toArray⟩ := by
    rw [ofText, Text.lineStartsFrom_append, Nat.zero_add]
    rfl
  have hfront : ∀ start ∈ 0 :: Text.lineStartsFrom 0 front, start ≤ Text.byteLength front := by
    intro start hstart
    rcases List.mem_cons.1 hstart with rfl | hstart
    · exact Nat.zero_le _
    · have hbounds := Text.lineStartsFrom_bounds 0 front start hstart
      omega
  have hback : ∀ start ∈ Text.lineStartsFrom (Text.byteLength front) back,
      Text.byteLength front < start :=
    fun start hstart => (Text.lineStartsFrom_bounds _ back start hstart).1
  have hline : (ofText (front ++ back)).lineAt (Text.byteLength front) + 1 =
      (0 :: Text.lineStartsFrom 0 front).length := by
    rw [hsplit]
    exact bisect_append hfront hback (by simp) (by simp) (by simp)
  rw [List.length_cons, Text.length_lineStartsFrom] at hline
  exact Nat.succ_inj.1 hline

theorem startOf_lineAt_append :
    (ofText (front ++ back)).startOf ((ofText (front ++ back)).lineAt (Text.byteLength front)) +
      Text.byteLength (Text.lastLine front) = Text.byteLength front := by
  have hlength := Text.length_lineStartsFrom 0 front
  have hlast := Text.getLast_lineStartsFrom front
  have hstart : (ofText (front ++ back)).startOf (front.count '\n') =
      (0 :: Text.lineStartsFrom 0 front).getLast (List.cons_ne_nil _ _) := by
    have hlt : front.count '\n' < (0 :: Text.lineStartsFrom 0 front).length := by
      rw [List.length_cons]
      omega
    rw [ofText, Text.lineStartsFrom_append, ← List.cons_append, startOf_append_left hlt,
      List.getLast_eq_getElem]
    simp only [List.length_cons, hlength, Nat.add_sub_cancel]
  rw [lineAt_append, hstart, hlast]

/-- The point of the end of a part of the text: the line feeds in it give the line, and the
characters behind the last of them the column. -/
theorem pointIn_append :
    (ofText (front ++ back)).pointIn (front ++ back) (Text.byteLength front) =
      ⟨1 + front.count '\n', 1 + (Text.lastLine front).length⟩ := by
  have hstart := startOf_lineAt_append front back
  obtain ⟨before, hfront⟩ := Text.exists_append_lastLine front
  have hbytes := congrArg Text.byteLength hfront
  rw [Text.byteLength_append] at hbytes
  have hslice := Text.slice_append before (Text.lastLine front) back
  rw [← List.append_assoc, ← hfront, ← hbytes] at hslice
  have heq : (ofText (front ++ back)).startOf
      ((ofText (front ++ back)).lineAt (Text.byteLength front)) = Text.byteLength before := by
    omega
  rw [pointIn, heq, hslice, lineAt_append, Nat.add_comm 1, Nat.add_comm 1]

end LineTable

-- ---------------------------------------------------------------------------
-- The point at which the scanner arrives
-- ---------------------------------------------------------------------------

/-- Walking over a text counts its line feeds, and the characters behind the last of them. -/
theorem Position.point_after (text : List Char) :
    (Position.origin.after text).point =
    ⟨1 + text.count '\n', 1 + (Text.lastLine text).length⟩ := by
  induction text using List.reverseRecOn with
  | nil => rfl
  | append_singleton text c ih =>
    simp only [after, List.foldl_append, List.foldl_cons, List.foldl_nil] at ih ⊢
    rw [ih, Text.lastLine_concat, Point.next]
    by_cases hc : c = '\n'
    · simp [hc]
      omega
    · simp [hc]
      omega

namespace Scanner

/-- The scanner is in the text, at the position to which one gets by walking over what is in front
of it. -/
def Walked (s : Scanner) (text : List Char) : Prop :=
  ∃ front, text = front ++ s.rest ∧ s.position = Position.origin.after front

theorem walked_ofText (text : List Char) : (ofText text).Walked text :=
  ⟨[], rfl, (Position.after_nil _).symm⟩

theorem Walked.advance {s : Scanner} {text : List Char} (h : s.Walked text) (n : Nat) :
    (s.advance n).Walked text := by
  obtain ⟨front, htext, hposition⟩ := h
  refine ⟨front ++ s.rest.take n, ?_, ?_⟩
  · rw [List.append_assoc, Scanner.advance, List.take_append_drop]
    exact htext
  · rw [Position.after_append, ← hposition]
    rfl

/-- The point of a walked scanner is the one that the table of its text gives. -/
theorem Walked.point_eq {s : Scanner} {text : List Char} (h : s.Walked text) :
    s.position.point = (LineTable.ofText text).pointIn text s.position.offset := by
  obtain ⟨front, htext, hposition⟩ := h
  have hoffset : (Position.origin.after front).offset = Text.byteLength front := Nat.zero_add _
  rw [htext, hposition, hoffset, LineTable.pointIn_append, Position.point_after]

/-- A token is marked with the position at which it is cut off. -/
theorem start_of_step {s s' : Scanner} {p : Piece} (h : s.step? = some (p, s')) :
    ∀ token ∈ p.token?, token.span.start = s.position.offset ∧ token.point = s.position.point := by
  unfold step? at h
  split at h
  · cases h
  · split at h
    · cases h
      exact nofun
    · obtain ⟨rfl, -⟩ := Prod.mk.inj (Option.some.inj h)
      split <;> (rintro token ⟨⟩; exact ⟨rfl, rfl⟩)

section

variable {s stop : Scanner} {ps : List Piece} {text : List Char}

/-- The tokens of a scan have the points that the table gives for their starts. -/
theorem Scans.points (h : s.Scans ps stop) (hs : s.Walked text) :
    ∀ token ∈ ps.filterMap Piece.token?,
      token.point = (LineTable.ofText text).pointIn text token.span.start := by
  induction h with
  | done => exact nofun
  | @step s s' stop p ps h hrest ih =>
    obtain ⟨n, -, -, rfl, -⟩ := step_eq_some h
    intro token hmem
    obtain ⟨piece, hpiece, htoken⟩ := List.mem_filterMap.1 hmem
    rcases List.mem_cons.1 hpiece with rfl | hpiece
    · obtain ⟨hstart, hpoint⟩ := start_of_step h token htoken
      rw [hstart, hpoint, hs.point_eq]
    · exact ih (hs.advance n) token (List.mem_filterMap.2 ⟨piece, hpiece, htoken⟩)

theorem Scans.walked (h : s.Scans ps stop) (hs : s.Walked text) : stop.Walked text := by
  induction h with
  | done => exact hs
  | step h _ ih =>
    obtain ⟨n, -, -, rfl, -⟩ := step_eq_some h
    exact ih (hs.advance n)

end

end Scanner

-- ---------------------------------------------------------------------------
-- Streams and trees
-- ---------------------------------------------------------------------------

/-- The tokens of a source have the points that the table of the source gives for their starts. -/
theorem TokenStream.points_ofText (text : List Char) :
    ∀ token ∈ (ofText text).toList,
      token.point = (LineTable.ofText text).pointIn text token.span.start := by
  obtain ⟨ps, stop, hscans, htokens, hlast, -⟩ := ofText_eq text
  intro token htoken
  rw [toList, htokens, hlast] at htoken
  rcases List.mem_append.1 htoken with htoken | htoken
  · exact hscans.points (Scanner.walked_ofText text) token htoken
  · rw [List.mem_singleton.1 htoken]
    exact (hscans.walked (Scanner.walked_ofText text)).point_eq

/-- The point that a tree gives for the end of a part of its source is told by the line feeds in
that part and by what is behind the last of them, and the tokens and lexical errors of the source
are marked with the points that the tree gives for their starts. -/
theorem Tree.point_agrees (t : Tree) :
    (∀ front back, t.source = front ++ back →
      t.point (Text.byteLength front) =
        ⟨1 + front.count '\n', 1 + (Text.lastLine front).length⟩) ∧
    (∀ token ∈ (TokenStream.ofText t.source).toList, token.point = t.point token.span.start) ∧
    ∀ error ∈ (TokenStream.ofText t.source).errors, error.point = t.point error.span.start := by
  have hpoint (offset : Nat) :
      t.point offset = (LineTable.ofText t.source).pointIn t.source offset := by
    rw [point, t.lines_eq]
  have htokens := TokenStream.points_ofText t.source
  refine ⟨?_, ?_, ?_⟩
  · intro front back hsource
    rw [hpoint, hsource, LineTable.pointIn_append]
  · intro token htoken
    rw [hpoint, htokens token htoken]
  · intro error herror
    -- A lexical error stands among the tokens as an invalid one, with the same span and point.
    have hmem : error.token ∈ (TokenStream.ofText t.source).toList := by
      have hmap := List.mem_map_of_mem (f := LexicalError.token) herror
      rw [TokenStream.token_errors_ofText] at hmap
      exact (List.mem_filter.1 hmap).1
    rw [hpoint]
    exact htokens error.token hmem

end VisualBasic
