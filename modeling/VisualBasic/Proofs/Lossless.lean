import VisualBasic.Proofs.Forest

/-!
# Lossless trees

The leaves of a tree spell its source: read from left to right they are tokens of the source in
their order, and in a tree without error regions no tokens are left out but line ends and colons.

Main results:

* `Reading.leafTokens_sublist` — the leaves of a reading are some of its tokens, in order.
* `Reading.sublist_leafTokens` — without an error region they are all but the terminators.
* `lossless` — the tree of every source is lossless.
-/

namespace VisualBasic

-- ---------------------------------------------------------------------------
-- Leaves
-- ---------------------------------------------------------------------------

namespace Node

/-- The tokens of the leaves of a tree, from left to right. -/
def leafTokens (n : Node) : List Nat := n.preorder.filterMap (·.info.token)

/-- The tokens of the leaves of nodes that have the latest first. -/
def leafTokensOf (ns : List Node) : List Nat := ns.reverse.flatMap leafTokens

theorem leafTokensOf_cons (n : Node) (ns : List Node) :
    leafTokensOf (n :: ns) = leafTokensOf ns ++ n.leafTokens := by
  rw [leafTokensOf, leafTokensOf, List.reverse_cons, List.flatMap_append, List.flatMap_singleton]

theorem leafTokens_eq (n : Node) :
    n.leafTokens = n.info.token.toList ++ n.children.flatMap leafTokens := by
  have hbelow : (preorders n.children).filterMap (·.info.token) =
      n.children.flatMap leafTokens := by
    rw [preorders_eq_flatMap, List.filterMap_flatMap]
    rfl
  rw [leafTokens, preorder_eq, List.filterMap_cons, hbelow]
  cases n.info.token <;> rfl

theorem leafTokens_inField (n : Node) (f : Field) : (n.inField f).leafTokens = n.leafTokens := by
  rw [leafTokens_eq, leafTokens_eq n, token_inField, children_inField]

theorem leafTokens_leaf (kind : NodeKind) (span : Span) (i : Nat) :
    (leaf kind span i).leafTokens = [i] := rfl

theorem leafTokens_finish (kind : NodeKind) (span : Span) (first : Nat) (isPartial : Bool)
    (cs : List Node) : (finish kind span first isPartial cs.reverse).leafTokens = leafTokensOf cs :=
  leafTokens_eq _

end Node

-- ---------------------------------------------------------------------------
-- Stretches of tokens
-- ---------------------------------------------------------------------------

namespace TokenStream

/-- The tokens from `i` up to `j` that do not end a statement. -/
def lasting (t : TokenStream) (i j : Nat) : List Nat :=
  (List.range' i (j - i)).filter fun k => !(t.kindAt k).isTerminator

variable {t : TokenStream} {i j k : Nat}

theorem range'_append (hij : i ≤ j) (hjk : j ≤ k) :
    List.range' i (k - i) = List.range' i (j - i) ++ List.range' j (k - j) := by
  have hstart : i + (j - i) = j := by omega
  have hlength : k - i = j - i + (k - j) := by omega
  rw [hlength, ← List.range'_append_1, hstart]

theorem lasting_append (hij : i ≤ j) (hjk : j ≤ k) :
    t.lasting i k = t.lasting i j ++ t.lasting j k := by
  rw [lasting, range'_append hij hjk, List.filter_append]
  rfl

theorem range'_succ (hij : i ≤ j) : List.range' i (j + 1 - i) = List.range' i (j - i) ++ [j] := by
  rw [range'_append hij (Nat.le_add_right j 1), Nat.add_sub_cancel_left]
  rfl

theorem lasting_succ (hij : i ≤ j) :
    t.lasting i (j + 1) = t.lasting i j ++ if (t.kindAt j).isTerminator then [] else [j] := by
  rw [lasting, range'_succ hij, List.filter_append]
  cases h : (t.kindAt j).isTerminator <;> simp [lasting, h]

end TokenStream

-- ---------------------------------------------------------------------------
-- Readings
-- ---------------------------------------------------------------------------

namespace Reading

variable {t : TokenStream} {gaps : Bool} {i j : Nat} {ns : List Node} {ds : List Diagnostic}

/-- The leaves of a reading are some of its tokens, in order. -/
theorem leafTokens_sublist (h : Reading t gaps i j ns ds) :
    (Node.leafTokensOf ns).Sublist (List.range' i (j - i)) := by
  induction h with
  | start => exact List.nil_sublist _
  | terminator before _ ih =>
    rw [TokenStream.range'_succ before.le_stop]
    exact ih.trans (List.sublist_append_left _ _)
  | leaf before _ _ ih =>
    rw [Node.leafTokensOf_cons, TokenStream.range'_succ before.le_stop]
    exact ih.append (List.Sublist.refl _)
  | node before body _ _ _ _ ih ihBody =>
    rw [Node.leafTokensOf_cons, Node.leafTokens_finish,
      TokenStream.range'_append before.le_stop body.le_stop]
    exact ih.append ihBody
  | region before hjk _ _ ih =>
    rw [Node.leafTokensOf_cons, TokenStream.range'_append before.le_stop hjk.le]
    exact ih.append (List.nil_sublist _)
  | brokenHeader before hj hjk _ _ ih =>
    rw [Node.leafTokensOf_cons, TokenStream.range'_append before.le_stop (Nat.le_trans hj hjk.le)]
    exact ih.append (List.nil_sublist _)
  | inField _ f ih =>
    rw [Node.leafTokensOf_cons, Node.leafTokens_inField, ← Node.leafTokensOf_cons]
    exact ih

/-- Without an error region, the leaves of a reading are all its tokens but for terminators. -/
theorem sublist_leafTokens (h : Reading t gaps i j ns ds)
    (hns : ∀ n ∈ Node.preorders ns, n.kind ≠ .rule .error) :
    (t.lasting i j).Sublist (Node.leafTokensOf ns) := by
  induction h with
  | start =>
    rw [TokenStream.lasting, Nat.sub_self]
    exact List.nil_sublist _
  | terminator before hj ih =>
    rw [TokenStream.lasting_succ before.le_stop, if_pos hj, List.append_nil]
    exact ih hns
  | @leaf _ i j ns ds kind before _ _ ih =>
    rw [TokenStream.lasting_succ before.le_stop, Node.leafTokensOf_cons, Node.leafTokens_leaf]
    refine (ih (List.forall_mem_cons.1 hns).2).append ?_
    split
    · exact List.nil_sublist _
    · exact List.Sublist.refl _
  | node before body _ _ _ _ ih ihBody =>
    obtain ⟨hnode, hbefore⟩ := List.forall_mem_append.1 hns
    rw [TokenStream.lasting_append before.le_stop body.le_stop, Node.leafTokensOf_cons,
      Node.leafTokens_finish]
    refine (ih hbefore).append (ihBody fun n hn => ?_)
    exact (List.forall_mem_cons.1 hnode).2 n (Node.mem_preorders_reverse.2 hn)
  | region _ _ _ _ _ => exact absurd rfl (List.forall_mem_cons.1 hns).1
  | brokenHeader _ _ _ _ _ _ => exact absurd rfl (List.forall_mem_cons.1 hns).1
  | @inField _ i j n ns ds _ f ih =>
    rw [Node.leafTokensOf_cons, Node.leafTokens_inField, ← Node.leafTokensOf_cons]
    refine ih fun m hm => ?_
    rw [Node.preorders, Node.preorder_inField] at hns
    rw [Node.preorders, Node.preorder_eq] at hm
    obtain ⟨hself, hrest⟩ := List.forall_mem_cons.1 hns
    rcases List.mem_cons.1 hm with rfl | hm
    · rwa [Node.kind_inField] at hself
    · exact hrest m hm

end Reading

-- ---------------------------------------------------------------------------
-- Trees
-- ---------------------------------------------------------------------------

/-- The leaves of a tree are tokens in order, and all but terminators if nothing is in error. -/
structure Lossless (t : TokenStream) (root : Node) : Prop where
  /-- The tokens of the leaves strictly increase. -/
  increasing : root.leafTokens.Pairwise (· < ·)
  /-- A leaf is a token of the text, with exactly the token's span, and nothing is below it. -/
  leaf : ∀ n ∈ root.preorder, ∀ i ∈ n.info.token, n.IsTokenAt t i
  /-- Without an error region, every token that is no terminator is that of exactly one leaf. -/
  complete : (∀ n ∈ root.preorder, n.kind ≠ .rule .error) → ∀ i < t.tokens.size,
    t.kindAt i ≠ .newline → t.kindAt i ≠ .mark .colon → root.leafTokens.count i = 1
  /-- The leaves are then the whole row of tokens, with some terminators left out. -/
  spelled : (∀ n ∈ root.preorder, n.kind ≠ .rule .error) →
    (t.lasting 0 t.tokens.size).Sublist root.leafTokens ∧
      root.leafTokens.Sublist (List.range t.tokens.size)

/-- A strictly increasing list has what it has once. -/
theorem count_eq_one {l : List Nat} (hl : l.Pairwise (· < ·)) {i : Nat} (hi : i ∈ l) :
    l.count i = 1 := by
  refine Nat.le_antisymm ?_ (List.one_le_count_iff.2 hi)
  exact List.nodup_iff_count.1 (hl.imp fun h => Nat.ne_of_lt h) i

/-- The tree of every source is lossless. -/
theorem lossless (source : List Char) (limits : Limits) :
    Lossless (TokenStream.ofText source)
      (Tree.ofTokens source (TokenStream.ofText source) limits.maxNestingDepth).root := by
  obtain ⟨cs, ds, stop, hroot, hr, hend, -⟩ :=
    Tree.reading_ofTokens source (TokenStream.ofText source) limits.maxNestingDepth
  obtain rfl := (TokenStream.ordered_ofText source).eq_size hr.stop_le hend
  rw [hroot]
  have hsublist : (Node.leafTokensOf cs).Sublist
      (List.range' 0 ((TokenStream.ofText source).tokens.size - 0)) := hr.leafTokens_sublist
  have hincreasing : (Node.leafTokensOf cs).Pairwise (· < ·) :=
    List.Pairwise.sublist hsublist List.pairwise_lt_range'
  have hspelled (hno : ∀ n ∈ (Node.finish (.rule .sourceFile) ⟨0, Text.byteLength source⟩ 0 false
      cs.reverse).preorder, n.kind ≠ .rule .error) :=
    hr.sublist_leafTokens fun n hn =>
      hno n (List.mem_cons_of_mem _ (Node.mem_preorders_reverse.2 hn))
  refine ⟨?_, ?_, fun hno i hi hnewline hcolon => ?_, fun hno => ⟨?_, ?_⟩⟩
  · rw [Node.leafTokens_finish]
    exact hincreasing
  · rw [Node.preorder_eq]
    refine List.forall_mem_cons.2 ⟨nofun, fun n hn => ?_⟩
    exact hr.isTokenAt n (Node.mem_preorders_reverse.1 hn)
  · rw [Node.leafTokens_finish]
    refine count_eq_one hincreasing ((hspelled hno).subset (List.mem_filter.2 ⟨?_, ?_⟩))
    · exact List.mem_range'_1.2 ⟨Nat.zero_le i, by omega⟩
    · unfold TokenKind.isTerminator
      split
      · exact absurd ‹_› hnewline
      · exact absurd ‹_› hcolon
      · rfl
  · rw [Node.leafTokens_finish]
    exact hspelled hno
  · rw [Node.leafTokens_finish, List.range_eq_range']
    exact hsublist

end VisualBasic
