import VisualBasic.Proofs.LinePoints
import VisualBasic.Proofs.Nesting
import VisualBasic.Proofs.Table
import VisualBasic.Proofs.Tiling
import VisualBasic.Tree.Outline

/-!
# Spans that can be cut out

A span says which part of the source a node or a diagnostic is about. To cut a text by bytes can go
wrong in three ways: the span may be turned around, it may go beyond the text, and it may begin or
end within a character. The functions on trees do not look out for that; they give something
whatever the span. Here are the same functions, but refusing to cut where one of the three would
happen, and for the trees of sources these never refuse.

The spans of nodes and diagnostics go from the beginning of a token to the end of one, and tokens
are cut between characters.

Main results:

* `Span.Usable.slice?_eq`, `LineTable.pointIn?_eq` — where the span is right, nothing is refused.
* `Reading.diagnostic_spans` — the diagnostics of a reading are about tokens in a row.
* `spans_usable` — the tree of every source has no other spans than such.
-/

namespace VisualBasic

-- ---------------------------------------------------------------------------
-- Cutting with care
-- ---------------------------------------------------------------------------

namespace Text

/-- The text in front of an offset and the text behind it, if the offset is between characters. -/
def splitAt? : List Char → Nat → Option (List Char × List Char)
  | text, 0 => some ([], text)
  | [], _ + 1 => none
  | c :: rest, n + 1 =>
    if c.utf8Size ≤ n + 1 then
      (splitAt? rest (n + 1 - c.utf8Size)).map fun (front, back) => (c :: front, back)
    else none

theorem splitAt?_append (front back : List Char) :
    splitAt? (front ++ back) (byteLength front) = some (front, back) := by
  induction front with
  | nil => simp [byteLength, splitAt?]
  | cons c rest ih =>
    have hc := Char.utf8Size_pos c
    rw [byteLength, List.cons_append]
    cases hsize : c.utf8Size + byteLength rest with
    | zero => omega
    | succ n =>
      rw [splitAt?, if_pos (by omega), show n + 1 - c.utf8Size = byteLength rest by omega, ih]
      rfl

/-- Two cuts of a text come in the order of their offsets. -/
theorem exists_between {front front' back back' : List Char} (h : front ++ back = front' ++ back')
    (hle : byteLength front ≤ byteLength front') : ∃ middle, front' = front ++ middle := by
  rcases List.append_eq_append_iff.1 h with ⟨middle, hfront, -⟩ | ⟨middle, hfront, -⟩
  · exact ⟨middle, hfront⟩
  · have hlength := congrArg byteLength hfront
    rw [byteLength_append] at hlength
    have hnil : middle = [] := by
      refine Decidable.byContradiction fun hne => ?_
      have := byteLength_pos hne
      omega
    rw [hnil, List.append_nil] at hfront
    exact ⟨[], by rw [hfront, List.append_nil]⟩

end Text

namespace Span

/-- The part of the text that the range covers, if the text can be cut at both ends. -/
def slice? (s : Span) (text : List Char) : Option (List Char) := do
  let (front, _) ← Text.splitAt? text s.stop
  let (_, middle) ← Text.splitAt? front s.start
  return middle

/-- The range is not turned around, goes no further than the text, and does not cut a character. -/
structure Usable (s : Span) (text : List Char) : Prop where
  start_le_stop : s.start ≤ s.stop
  stop_le_length : s.stop ≤ Text.byteLength text
  start_boundary : Text.IsBoundary text s.start
  stop_boundary : Text.IsBoundary text s.stop

/-- What a usable range covers, between what is in front of it and what is behind. -/
theorem Usable.exists_split {s : Span} {text : List Char} (h : s.Usable text) :
    ∃ front middle back, text = front ++ (middle ++ back) ∧
      s = ⟨Text.byteLength front, Text.byteLength front + Text.byteLength middle⟩ := by
  obtain ⟨front, behind, htext, hstart⟩ := h.start_boundary
  obtain ⟨front', back, htext', hstop⟩ := h.stop_boundary
  have hle := h.start_le_stop
  rw [hstart, hstop] at hle
  obtain ⟨middle, rfl⟩ := Text.exists_between (htext.symm.trans htext') hle
  refine ⟨front, middle, back, by rw [htext', List.append_assoc], ?_⟩
  rw [← Text.byteLength_append, ← hstart, ← hstop]

theorem Usable.slice?_eq {s : Span} {text : List Char} (h : s.Usable text) :
    s.slice? text = some (s.slice text) := by
  obtain ⟨front, middle, back, rfl, rfl⟩ := h.exists_split
  have hfront := Text.splitAt?_append (front ++ middle) back
  rw [Text.byteLength_append, List.append_assoc] at hfront
  simp [slice?, hfront, Text.splitAt?_append, Text.slice_append]

end Span

/-- The point of an offset in the text, if the table has its line and the line can be cut out. -/
def LineTable.pointIn? (t : LineTable) (text : List Char) (offset : Nat) : Option Point := do
  let line := t.lineAt offset
  let start ← t.starts[line]?
  let behind ← Span.slice? ⟨start, offset⟩ text
  return ⟨line + 1, behind.length + 1⟩

theorem LineTable.pointIn?_eq {text : List Char} {offset : Nat} (h : Text.IsBoundary text offset) :
    (ofText text).pointIn? text offset = some ((ofText text).pointIn text offset) := by
  obtain ⟨front, back, rfl, rfl⟩ := h
  have hstart := startOf_lineAt_append front back
  obtain ⟨before, hbefore⟩ := Text.exists_append_lastLine front
  have hbytes := congrArg Text.byteLength hbefore
  rw [Text.byteLength_append] at hbytes
  have hlt : (ofText (front ++ back)).lineAt (Text.byteLength front) <
      (ofText (front ++ back)).starts.size := by
    have hlength := Text.length_lineStartsFrom 0 (front ++ back)
    rw [List.count_append] at hlength
    rw [lineAt_append, ofText, List.size_toArray, List.length_cons]
    omega
  have hentry : (ofText (front ++ back)).starts[(ofText (front ++ back)).lineAt
      (Text.byteLength front)]? = some (Text.byteLength before) := by
    rw [startOf, Array.getD_eq_getD_getElem?, Array.getElem?_eq_getElem hlt, Option.getD_some]
      at hstart
    rw [Array.getElem?_eq_getElem hlt]
    exact congrArg some (by omega)
  have husable : Span.Usable ⟨Text.byteLength before, Text.byteLength front⟩ (front ++ back) := by
    refine ⟨by simp only; omega, ?_, ⟨before, Text.lastLine front ++ back, ?_, rfl⟩,
      front, back, rfl, rfl⟩
    · rw [Text.byteLength_append]
      exact Nat.le_add_right _ _
    · rw [← List.append_assoc, ← hbefore]
  have hstartOf : (ofText (front ++ back)).startOf ((ofText (front ++ back)).lineAt
      (Text.byteLength front)) = Text.byteLength before := by omega
  simp only [pointIn?, pointIn, hentry, hstartOf, Option.bind_eq_bind, Option.bind_some,
    husable.slice?_eq]
  rfl

namespace Tree

/-! ### What is shown of a node -/

def text? (t : Tree) (n : Node) : Option (List Char) := n.span.slice? t.source

def startPoint? (t : Tree) (n : Node) : Option Point := t.lines.pointIn? t.source n.span.start

def stopPoint? (t : Tree) (n : Node) : Option Point := t.lines.pointIn? t.source n.span.stop

/-- The line of a node in an outline, if its points and its text can be had. -/
def outlineLine? (t : Tree) (n : Node) : Option String := do
  let start ← t.startPoint? n
  let stop ← t.stopPoint? n
  let text ← if n.namedChildren.isEmpty && !n.span.isEmpty then
      (t.text? n).map fun text => " " ++ Text.quoted (Text.trimEnd text)
    else some ""
  let role := match n.field with
    | some f => s!"{f.toText}: "
    | none => ""
  let incomplete := if n.flags.isPartial then " (partial)" else ""
  return s!"{role}{n.kind.name} [{start.toText} - {stop.toText}]" ++ incomplete ++ text

mutual

/-- The lines of a node at a depth, put behind the lines before it, if all of them can be had. -/
def outlineOf? (t : Tree) (depth : Nat) (lines : Array String) : Node → Option (Array String)
  | .mk info children => do
    let indent := String.ofList (List.replicate (2 * depth) ' ')
    let line ← t.outlineLine? (.mk info children)
    outlinesOf? t (depth + 1) (lines.push (indent ++ line)) children

def outlinesOf? (t : Tree) (depth : Nat) (lines : Array String) : List Node → Option (Array String)
  | [] => some lines
  | n :: rest => do
    let lines ← if n.isNamed then outlineOf? t depth lines n else some lines
    outlinesOf? t depth lines rest

end

/-- The lines of the outline, if all of them can be had. -/
def outline? (t : Tree) : Option (List String) := (t.outlineOf? 0 #[] t.root).map Array.toList

section

variable {t : Tree} {n : Node}

theorem text?_eq (h : n.span.Usable t.source) : t.text? n = some (t.text n) := h.slice?_eq

theorem startPoint?_eq (h : n.span.Usable t.source) : t.startPoint? n = some (t.startPoint n) := by
  rw [startPoint?, startPoint, point, t.lines_eq]
  exact LineTable.pointIn?_eq h.start_boundary

theorem stopPoint?_eq (h : n.span.Usable t.source) : t.stopPoint? n = some (t.stopPoint n) := by
  rw [stopPoint?, stopPoint, point, t.lines_eq]
  exact LineTable.pointIn?_eq h.stop_boundary

theorem outlineLine?_eq (h : n.span.Usable t.source) :
    t.outlineLine? n = some (t.outlineLine n) := by
  simp only [outlineLine?, startPoint?_eq h, stopPoint?_eq h, text?_eq h, Option.map_some,
    Option.bind_eq_bind, Option.bind_some, outlineLine]
  split <;> rfl

end

mutual

theorem outlineOf?_eq (t : Tree) (depth : Nat) (lines : Array String) :
    (n : Node) → (∀ m ∈ n.preorder, m.span.Usable t.source) →
      t.outlineOf? depth lines n = some (t.outlineOf depth lines n)
  | .mk info children, h => by
    rw [Node.preorder, List.forall_mem_cons] at h
    rw [outlineOf?, outlineOf, outlineLine?_eq h.1]
    exact outlinesOf?_eq t (depth + 1) _ children h.2

theorem outlinesOf?_eq (t : Tree) (depth : Nat) (lines : Array String) :
    (ns : List Node) → (∀ m ∈ Node.preorders ns, m.span.Usable t.source) →
      t.outlinesOf? depth lines ns = some (t.outlinesOf depth lines ns)
  | [], _ => rfl
  | n :: rest, h => by
    rw [Node.preorders, List.forall_mem_append] at h
    rw [outlinesOf?, outlinesOf, outlineOf?_eq t depth lines n h.1]
    split
    · exact outlinesOf?_eq t depth _ rest h.2
    · exact outlinesOf?_eq t depth _ rest h.2

end

end Tree

-- ---------------------------------------------------------------------------
-- Spans of tokens in a row
-- ---------------------------------------------------------------------------

section

variable {t : TokenStream} {gaps : Bool} {i j k : Nat} {ns : List Node} {ds : List Diagnostic}

theorem TokenStream.mem_toList_get (t : TokenStream) (i : Nat) : t.get i ∈ t.toList := by
  rw [toList, get]
  cases h : t.tokens[i]? with
  | none => exact List.mem_append_right _ (List.mem_singleton.2 rfl)
  | some token =>
    obtain ⟨hlt, rfl⟩ := Array.getElem?_eq_some_iff.1 h
    exact List.mem_append_left _ (Array.mem_toList_iff.2 (Array.getElem_mem hlt))

theorem Text.IsBoundary.le_length {text : List Char} {offset : Nat} (h : IsBoundary text offset) :
    offset ≤ byteLength text := by
  obtain ⟨front, back, rfl, rfl⟩ := h
  rw [byteLength_append]
  exact Nat.le_add_right _ _

/-- The tokens from `i` up to `j` have a usable span. -/
theorem TokenStream.Tiles.usable_spanFrom {text : List Char} (h : t.Tiles text) (ht : t.Ordered)
    (hj : j ≤ t.tokens.size) : (t.spanFrom i j).Usable text := by
  have hboundaries (k : Nat) := h.boundaries (t.get k).span
    (List.mem_append_left _ (List.mem_map_of_mem (t.mem_toList_get k)))
  unfold spanFrom
  split
  · have hle : (t.get i).span.start ≤ (t.get (j - 1)).span.stop := by
      have hstart := ht.start_le_start (i := i) (j := j - 1) (by omega) (by omega)
      have hlt := ht.start_lt_stop (j - 1) (by omega)
      omega
    exact ⟨hle, (hboundaries (j - 1)).2.le_length, (hboundaries i).1, (hboundaries (j - 1)).2⟩
  · have hboundary := (hboundaries j).1
    exact ⟨Nat.le_refl _, hboundary.le_length, hboundary, hboundary⟩

/-- The diagnostics of a reading are about tokens in a row. -/
theorem Reading.diagnostic_spans (h : Reading t gaps i j ns ds) :
    ∀ d ∈ ds, ∃ first stop, stop ≤ t.tokens.size ∧ d.span = t.spanFrom first stop := by
  induction h with
  | start => exact fun d hd => absurd hd List.not_mem_nil
  | terminator _ _ ih => exact ih
  | leaf _ _ _ ih => exact ih
  | node _ body hclosing _ _ _ ih ihBody =>
    intro d hd
    rw [List.append_assoc, List.mem_append, List.mem_append] at hd
    rcases hd with hd | hd | hd
    · cases hclosing with
      | closed => exact absurd hd List.not_mem_nil
      | missing h =>
        rw [List.mem_singleton] at hd
        exact ⟨_, _, body.stop_le, hd ▸ h.span⟩
    · exact ihBody d hd
    · exact ih d hd
  | region _ _ hk hd ih => exact List.forall_mem_cons.2 ⟨⟨_, _, hk, hd.span⟩, ih⟩
  | brokenHeader _ _ _ hk hd ih => exact List.forall_mem_cons.2 ⟨⟨_, _, hk, hd.span⟩, ih⟩
  | inField _ _ ih => exact ih

end

-- ---------------------------------------------------------------------------
-- The tree of a source
-- ---------------------------------------------------------------------------

/-- Whatever is looked up or cut out for a tree is there. -/
structure SpansUsable (source : List Char) (tokens : TokenStream) (t : Tree) : Prop where
  nodes : ∀ n ∈ t.root.preorder, n.span.Usable source
  diagnostics : ∀ d ∈ t.diagnostics, d.span.Usable source
  /-- A leaf is one of the tokens in front of the end of the text. -/
  leaves : ∀ n ∈ t.root.preorder, ∀ k ∈ n.info.token, k < tokens.tokens.size
  /-- The nodes that are reached from the root by their numbers are these. -/
  numbers : (t.descendants t.rootNumber).map t.node? = t.root.preorder.map some
  /-- What goes down from the root by the numbers of children finds the root as it is. -/
  rebuilt : t.rebuild? t.table.size t.rootNumber = some t.root
  texts : ∀ n ∈ t.root.preorder, t.text? n = some (t.text n)
  points : ∀ n ∈ t.root.preorder,
    t.startPoint? n = some (t.startPoint n) ∧ t.stopPoint? n = some (t.stopPoint n)
  outline : t.outline? = some t.outline

/-- Every token has a usable span. -/
theorem TokenStream.Tiles.usable_token {t : TokenStream} {text : List Char} (h : t.Tiles text) :
    ∀ token ∈ t.toList, token.span.Usable text := by
  intro token htoken
  have hboundaries := h.boundaries token.span
    (List.mem_append_left _ (List.mem_map_of_mem htoken))
  refine ⟨?_, hboundaries.2.le_length, hboundaries.1, hboundaries.2⟩
  rw [toList, List.mem_append, List.mem_singleton] at htoken
  rcases htoken with htoken | rfl
  · exact Nat.le_of_lt (h.tokens token (Array.mem_toList_iff.1 htoken)).1
  · rw [h.last.2]

/-- Lexical errors are invalid tokens, so their spans are usable, too. -/
theorem TokenStream.usable_errors {text : List Char} :
    ∀ e ∈ (ofText text).errors, e.span.Usable text := by
  intro e he
  have hmem := List.mem_map_of_mem (f := LexicalError.token) he
  rw [token_errors_ofText, List.mem_filter] at hmem
  exact (tiled_ofText text).usable_token e.token hmem.1

/-- The spans of the nodes of a tree are those of the whole text and of tokens in a row. -/
theorem Tree.usable_nodes (source : List Char) (limit : Nat) :
    ∀ n ∈ (ofTokens source (TokenStream.ofText source) limit).root.preorder,
      n.span.Usable source := by
  obtain ⟨cs, ds, stop, hroot, hr, -, -⟩ :=
    reading_ofTokens source (TokenStream.ofText source) limit
  intro n hn
  rw [hroot, Node.preorder_eq, List.mem_cons] at hn
  rcases hn with rfl | hn
  · refine ⟨Nat.zero_le _, Nat.le_refl _, ⟨[], source, rfl, rfl⟩, source, [], ?_, rfl⟩
    rw [List.append_nil]
  · obtain ⟨-, k, hk, hcovers⟩ := hr.within n (Node.mem_preorders_reverse.1 hn)
    rw [hcovers.span]
    exact (tiled_ofText source).usable_spanFrom (TokenStream.ordered_ofText source) hcovers.stop_le

theorem Tree.usable_diagnostics (source : List Char) (limit : Nat) :
    ∀ d ∈ (ofTokens source (TokenStream.ofText source) limit).diagnostics,
    d.span.Usable source := by
  obtain ⟨cs, ds, stop, -, hr, -, hdiagnostics⟩ :=
    reading_ofTokens source (TokenStream.ofText source) limit
  intro d hd
  rw [hdiagnostics, List.mem_mergeSort, List.mem_append, List.mem_reverse, List.mem_map] at hd
  rcases hd with ⟨e, he, rfl⟩ | hd
  · exact TokenStream.usable_errors e he
  · obtain ⟨first, stop, hstop, hspan⟩ := hr.diagnostic_spans d hd
    rw [hspan]
    exact (tiled_ofText source).usable_spanFrom (TokenStream.ordered_ofText source) hstop

/-- The leaves of a tree are tokens in front of the end of the text. -/
theorem Tree.token_lt_size (source : List Char) (limit : Nat) :
    ∀ n ∈ (ofTokens source (TokenStream.ofText source) limit).root.preorder,
      ∀ k ∈ n.info.token, k < (TokenStream.ofText source).tokens.size := by
  obtain ⟨cs, ds, stop, hroot, hr, -, -⟩ :=
    reading_ofTokens source (TokenStream.ofText source) limit
  intro n hn k hk
  rw [hroot, Node.preorder_eq, List.mem_cons] at hn
  rcases hn with rfl | hn
  · cases hk
  · exact (hr.isTokenAt n (Node.mem_preorders_reverse.1 hn) k hk).lt_size

/-- No node and no diagnostic of the tree of a source has a span that could not be cut out. -/
theorem spans_usable (source : List Char) (limits : Limits) :
    SpansUsable source (TokenStream.ofText source)
      (Tree.ofTokens source (TokenStream.ofText source) limits.maxNestingDepth) := by
  have hnodes := Tree.usable_nodes source limits.maxNestingDepth
  have hcomplete :
      (Tree.ofTokens source (TokenStream.ofText source) limits.maxNestingDepth).Complete :=
    Tree.complete_make _ _ _
  have hlt := hcomplete.rootNumber_lt
  refine ⟨hnodes, Tree.usable_diagnostics source _, Tree.token_lt_size source _, ?_, ?_, ?_, ?_, ?_⟩
  · exact hcomplete.map_node?_descendants
  · rw [hcomplete.rebuild_eq hlt hlt]
    exact hcomplete.wellLinked.root.1
  · intro n hn
    exact Tree.text?_eq (hnodes n hn)
  · intro n hn
    exact ⟨Tree.startPoint?_eq (hnodes n hn), Tree.stopPoint?_eq (hnodes n hn)⟩
  · rw [Tree.outline?, Tree.outlineOf?_eq _ _ _ _ hnodes]
    rfl

end VisualBasic
