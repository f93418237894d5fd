import VisualBasic.Proofs.Forest

/-!
# How spans nest

The nodes below one node stand in a row: each of them covers tokens behind those of the one before,
and all of them lie among the tokens of the node around. A node is empty only at the end of the
text. There it stands behind the trivia that ends the text, while a node around that has tokens ends
in front of it; this is the one way in which a span is not within the span around.

Main results:

* `Reading.inRow`, `Reading.exists_inRow` — the nodes of a reading, and those below each of them,
  stand in a row.
* `spans_nested` — spans do not overlap, and when a span is within the span around.
* `exists_sticksOut` — a source in which an empty node sticks out of the node around.
-/

namespace VisualBasic

-- ---------------------------------------------------------------------------
-- Rows
-- ---------------------------------------------------------------------------

/-- The nodes, the latest first, cover tokens between two places, each behind the one before. -/
def InRow (t : TokenStream) (i : Nat) : Nat → List Node → Prop
  | j, [] => i ≤ j
  | j, n :: ns => ∃ stop, stop ≤ j ∧ n.Covers t stop ∧ t.Passes n.info.firstToken stop ∧
    InRow t i n.info.firstToken ns

section

variable {t : TokenStream} {gaps : Bool} {i j k : Nat} {n : Node} {ns : List Node}
  {ds : List Diagnostic}

theorem InRow.mono (h : InRow t i j ns) (hjk : j ≤ k) : InRow t i k ns := by
  cases ns with
  | nil => exact Nat.le_trans h hjk
  | cons n ns =>
    obtain ⟨stop, hstop, hn⟩ := h
    exact ⟨stop, Nat.le_trans hstop hjk, hn⟩

theorem InRow.start_le (h : InRow t i j ns) : i ≤ j := by
  induction ns generalizing j with
  | nil => exact h
  | cons n ns ih =>
    obtain ⟨stop, hstop, hcovers, -, hrest⟩ := h
    have := ih hrest
    have := hcovers.le_stop
    omega

/-- A node of a row covers tokens within the row. -/
theorem InRow.covers (h : InRow t i j ns) (hn : n ∈ ns) : i ≤ n.info.firstToken ∧
    ∃ stop, stop ≤ j ∧ n.Covers t stop ∧ t.Passes n.info.firstToken stop := by
  induction ns generalizing j with
  | nil => exact absurd hn List.not_mem_nil
  | cons m ms ih =>
    obtain ⟨stop, hstop, hcovers, hpasses, hrest⟩ := h
    rcases List.mem_cons.1 hn with rfl | hn
    · exact ⟨hrest.start_le, stop, hstop, hcovers, hpasses⟩
    · obtain ⟨hle, stop', hstop', hn⟩ := ih hrest hn
      have := hcovers.le_stop
      exact ⟨hle, stop', by omega, hn⟩

/-- The nodes of a reading stand in a row. -/
theorem Reading.inRow (h : Reading t gaps i j ns ds) : InRow t i j ns := by
  induction h with
  | start => exact Nat.le_refl _
  | terminator _ _ ih => exact ih.mono (Nat.le_succ _)
  | @leaf _ i j ns ds kind _ hj _ ih =>
    have hlt := TokenStream.lt_size_of_kindAt_ne hj
    exact ⟨j + 1, Nat.le_refl _, ⟨Nat.le_succ j, hlt, (t.spanFrom_succ j).symm⟩,
      .inl (Nat.lt_succ_self j), ih⟩
  | node _ body _ _ _ shape ih _ =>
    exact ⟨_, Nat.le_refl _, ⟨body.le_stop, body.stop_le, rfl⟩, shape.passes, ih⟩
  | region _ hjk hk _ ih => exact ⟨_, Nat.le_refl _, ⟨hjk.le, hk, rfl⟩, hjk, ih⟩
  | brokenHeader _ hj hjk hk _ ih =>
    exact ⟨_, Nat.le_refl _, ⟨hjk.le, hk, rfl⟩, hjk, ih.mono hj⟩
  | @inField _ i j n ns ds _ f ih =>
    obtain ⟨stop, hstop, hcovers, hpasses, hrest⟩ := ih
    have hfirst := Node.firstToken_inField n f
    exact ⟨stop, hstop, hcovers.inField f, by rwa [hfirst], by rwa [hfirst]⟩

/-- What is below a node of a reading stands in a row where the node is. -/
theorem Reading.exists_inRow (h : Reading t gaps i j ns ds) : ∀ n ∈ Node.preorders ns,
    ∃ stop, n.Covers t stop ∧ InRow t n.info.firstToken stop n.children.reverse := by
  induction h with
  | start => exact nofun
  | terminator _ _ ih => exact ih
  | @leaf _ i j ns ds kind _ hj _ ih =>
    have hlt := TokenStream.lt_size_of_kindAt_ne hj
    refine List.forall_mem_cons.2 ⟨⟨j + 1, ⟨Nat.le_succ j, hlt, ?_⟩, Nat.le_succ j⟩, ih⟩
    exact (t.spanFrom_succ j).symm
  | @node _ _ i j k ns cs ds es fs rule isPartial _ body _ _ _ _ ih ihBody =>
    refine List.forall_mem_append.2 ⟨List.forall_mem_cons.2 ⟨?_, fun n hn => ?_⟩, ih⟩
    · refine ⟨k, ⟨body.le_stop, body.stop_le, rfl⟩, ?_⟩
      show InRow t j k cs.reverse.reverse
      rw [List.reverse_reverse]
      exact body.inRow
    · exact ihBody n (Node.mem_preorders_reverse.1 hn)
  | region _ hjk hk _ ih =>
    exact List.forall_mem_cons.2 ⟨⟨_, ⟨hjk.le, hk, rfl⟩, hjk.le⟩, ih⟩
  | brokenHeader _ _ hjk hk _ ih =>
    exact List.forall_mem_cons.2 ⟨⟨_, ⟨hjk.le, hk, rfl⟩, hjk.le⟩, ih⟩
  | inField _ f ih =>
    refine Node.forall_mem_preorders_inField (fun hn => ?_) ih
    obtain ⟨stop, hcovers, hrow⟩ := hn
    refine ⟨stop, hcovers.inField f, ?_⟩
    rwa [Node.firstToken_inField, Node.children_inField]

end

-- ---------------------------------------------------------------------------
-- Spans
-- ---------------------------------------------------------------------------

/-- The spans of a tree over a source of the given length. -/
structure SpansNested (length : Nat) (root : Node) : Prop where
  span_root : root.span = ⟨0, length⟩
  /-- No child begins before those in front of it end. -/
  ordered : ∀ n ∈ root.preorder, n.children.Pairwise fun a b => a.span.stop ≤ b.span.start
  /-- A child is within the node, unless it stands empty at the end of the text and the node ends
  before. -/
  contains_iff : ∀ n ∈ root.preorder, ∀ c ∈ n.children,
    n.span.contains c.span = true ↔ ¬(c.span = ⟨length, length⟩ ∧ n.span.stop < length)

section

variable {t : TokenStream} {length i j : Nat} {n c : Node} {ns : List Node}

/-- The end of the tokens up to a place is in front of every token from there on. -/
theorem TokenStream.Ordered.stop_spanFrom_le (ht : t.Ordered) {k : Nat} (hjk : j ≤ k)
    (hk : k ≤ t.tokens.size) : (t.spanFrom i j).stop ≤ (t.get k).span.start := by
  unfold spanFrom
  split
  · exact ht.stop_le_start (j - 1) k (by omega) hk
  · exact ht.start_le_start hjk hk

theorem InRow.pairwise (ht : t.Ordered) (h : InRow t i j ns) (hj : j ≤ t.tokens.size) :
    ns.Pairwise fun b a => a.span.stop ≤ b.span.start := by
  induction ns generalizing j with
  | nil => exact .nil
  | cons n ns ih =>
    obtain ⟨stop, hstop, hcovers, -, hrest⟩ := h
    have hfirst := hcovers.le_stop
    refine .cons (fun a ha => ?_) (ih hrest (by omega))
    obtain ⟨-, stop', hstop', ha, -⟩ := hrest.covers ha
    rw [ha.span, hcovers.span, TokenStream.Ordered.start_spanFrom t hcovers.le_stop]
    exact ht.stop_spanFrom_le hstop' (by omega)

/-- The children of a node whose tokens they cover do not overlap. -/
theorem pairwise_children (ht : t.Ordered) (hj : j ≤ t.tokens.size)
    (h : InRow t i j n.children.reverse) :
    n.children.Pairwise fun a b => a.span.stop ≤ b.span.start := by
  have hpairwise := h.pairwise ht hj
  rwa [List.pairwise_reverse] at hpairwise

section

variable (ht : t.Ordered) (hlast : t.last.span = ⟨length, length⟩)

include hlast in
theorem span_get_size : (t.get t.tokens.size).span = ⟨length, length⟩ := by
  rw [TokenStream.get_of_size_le (Nat.le_refl _), hlast]

include ht hlast

/-- A span of tokens goes no further than the text. -/
theorem stop_spanFrom_le_length (hj : j ≤ t.tokens.size) : (t.spanFrom i j).stop ≤ length := by
  have hle := ht.stop_spanFrom_le (i := i) hj (Nat.le_refl _)
  rwa [span_get_size hlast] at hle

/-- A node has the empty span at the end of the text exactly if it begins behind the last token. -/
theorem Node.Covers.span_eq_iff {stop : Nat} (h : c.Covers t stop) :
    c.span = ⟨length, length⟩ ↔ c.info.firstToken = t.tokens.size := by
  have hfirst := h.le_stop
  have hstop := h.stop_le
  have hend := span_get_size hlast
  rw [h.span]
  constructor
  · intro hspan
    have hstart : (t.get c.info.firstToken).span.start = length := by
      rw [← TokenStream.Ordered.start_spanFrom t hfirst, hspan]
    refine Nat.le_antisymm (by omega) (Nat.le_of_not_lt fun hlt => ?_)
    have hle := ht.stop_le_start c.info.firstToken t.tokens.size hlt (Nat.le_refl _)
    have hpos := ht.start_lt_stop c.info.firstToken hlt
    rw [hend] at hle
    change _ ≤ length at hle
    omega
  · intro heq
    obtain rfl : stop = t.tokens.size := by omega
    rw [heq, TokenStream.spanFrom, if_neg (Nat.lt_irrefl _), hend]

/-- A child whose tokens are among those of the node is within the node, if it has a token or the
node goes to the end of the text. -/
theorem Node.Covers.contains_iff {stop stop' : Nat} (hn : n.Covers t stop) (hc : c.Covers t stop')
    (hpasses : t.Passes c.info.firstToken stop') (hfirst : n.info.firstToken ≤ c.info.firstToken)
    (hstop : stop' ≤ stop) :
    n.span.contains c.span = true ↔ ¬(c.span = ⟨length, length⟩ ∧ n.span.stop < length) := by
  have hle := hc.le_stop
  have hsize := hn.stop_le
  have hstart : n.span.start ≤ c.span.start := by
    rw [hn.span, hc.span, TokenStream.Ordered.start_spanFrom t hn.le_stop,
      TokenStream.Ordered.start_spanFrom t hle]
    exact ht.start_le_start hfirst (by omega)
  rw [Span.contains, Bool.and_eq_true, decide_eq_true_eq, decide_eq_true_eq]
  by_cases hend : c.info.firstToken = t.tokens.size
  · -- The child is empty, so all depends on where the node ends.
    have hspan := (hc.span_eq_iff ht hlast).2 hend
    rw [hspan] at hstart ⊢
    rw [and_iff_right hstart, and_iff_right rfl, Nat.not_lt]
  · -- The child has a last token, which is one of the node.
    have hlt : c.info.firstToken < stop' :=
      hpasses.lt (ht.kindAt_ne _ (by omega))
    have hstops : c.span.stop ≤ n.span.stop := by
      rw [hn.span, hc.span, TokenStream.spanFrom, TokenStream.spanFrom, if_pos hlt,
        if_pos (by omega)]
      exact ht.stop_le_stop (by omega) (by omega)
    have hne := mt (hc.span_eq_iff ht hlast).1 hend
    exact iff_of_true ⟨hstart, hstops⟩ fun h => hne h.1

end

end

/-- In the tree of every source, spans do not overlap, and all are within the spans around but those
of empty nodes behind the trivia at the end. -/
theorem spans_nested (source : List Char) (limits : Limits) :
    SpansNested (Text.byteLength source)
      (Tree.ofTokens source (TokenStream.ofText source) limits.maxNestingDepth).root := by
  have ht := TokenStream.ordered_ofText source
  have hlast := TokenStream.span_last_ofText source
  obtain ⟨cs, ds, stop, hroot, hr, hend, -⟩ :=
    Tree.reading_ofTokens source (TokenStream.ofText source) limits.maxNestingDepth
  rw [hroot]
  have hbelow (n : Node) (hn : n ∈ Node.preorders cs.reverse) :=
    hr.exists_inRow n (Node.mem_preorders_reverse.1 hn)
  refine ⟨rfl, ?_, ?_⟩
  · intro n hn
    rw [Node.preorder_eq, List.mem_cons] at hn
    rcases hn with rfl | hn
    · refine pairwise_children ht hr.stop_le (i := 0) ?_
      show InRow _ 0 stop cs.reverse.reverse
      rw [List.reverse_reverse]
      exact hr.inRow
    · obtain ⟨k, hcovers, hrow⟩ := hbelow n hn
      exact pairwise_children ht hcovers.stop_le hrow
  · intro n hn c hc
    rw [Node.preorder_eq, List.mem_cons] at hn
    rcases hn with rfl | hn
    · -- The root has the span of the text.
      obtain ⟨-, k, hk, hcovers, -⟩ := hr.inRow.covers (List.mem_reverse.1 hc)
      have hstop : c.span.stop ≤ Text.byteLength source := by
        rw [hcovers.span]
        exact stop_spanFrom_le_length ht hlast hcovers.stop_le
      refine iff_of_true ?_ fun h => Nat.lt_irrefl _ h.2
      exact Bool.and_eq_true_iff.2 ⟨decide_eq_true (Nat.zero_le _), decide_eq_true hstop⟩
    · obtain ⟨k, hcovers, hrow⟩ := hbelow n hn
      obtain ⟨hfirst, stop', hstop', hc, hpasses⟩ := hrow.covers (List.mem_reverse.2 hc)
      exact hcovers.contains_iff ht hlast hc hpasses hfirst hstop'

/-- A class with an unfinished clause, and trivia behind it. -/
def unfinishedClass : List Char := "Class C\nInherits ".toList

/-- An empty node behind the trivia at the end may stick out of the node around. -/
theorem exists_sticksOut : ∃ n ∈ (Tree.parse unfinishedClass).root.preorder,
    ∃ c ∈ n.children, n.span.contains c.span = false := by
  decide +kernel

end VisualBasic
