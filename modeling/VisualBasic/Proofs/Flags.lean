import VisualBasic.Proofs.ErrorAccounting

/-!
# Flags

What the flags of a node say. A node is given its flags once, from the children that it has when it
is finished, and no child is put in, exchanged or flagged after that. So the flags of every node of
a tree are true of all that is below it, however deep.

Main results:

* `Node.Flagged` — what the flags of a node say of it and of the nodes below.
* `Reading.flagged` — the nodes of a reading are flagged so, and all below them.
* `flags_exact` — so are the nodes of every tree, and its root reports trouble exactly if there is
  any.
-/

namespace VisualBasic

-- ---------------------------------------------------------------------------
-- What the flags say
-- ---------------------------------------------------------------------------

namespace Node

/-- Whether the node itself, whatever is below it, is flagged as an error or as partial. -/
def isMarked (n : Node) : Bool := n.flags.isError || n.flags.isPartial

/-- The flags of a node are those that it must have. -/
structure Flagged (n : Node) : Prop where
  isError_iff : n.flags.isError = true ↔ n.kind = .rule .error
  children_eq_nil : n.flags.isError = true → n.children = []
  hasError_iff : n.flags.hasError = true ↔ ∃ m ∈ preorders n.children, m.isMarked = true
  /-- A mere token has nothing wrong with it, and nothing below it. -/
  bare : n.isNamed = false → n.flags = {} ∧ n.children = []

theorem Flagged.inField {n : Node} (h : n.Flagged) (f : Field) : (n.inField f).Flagged := by
  have hnamed : (n.inField f).isNamed = n.isNamed := by rw [isNamed, kind_inField, isNamed]
  refine ⟨?_, ?_, ?_, ?_⟩
  · rw [flags_inField, kind_inField]
    exact h.isError_iff
  · rw [flags_inField, children_inField]
    exact h.children_eq_nil
  · rw [flags_inField, children_inField]
    exact h.hasError_iff
  · rw [hnamed, flags_inField, children_inField]
    exact h.bare

/-- A node without children that no rule failed on has no flags to carry. -/
theorem flagged_leaf {kind : NodeKind} (h : kind ≠ .rule .error) (span : Span) (i : Nat) :
    (leaf kind span i).Flagged where
  isError_iff := iff_of_false Bool.noConfusion h
  children_eq_nil _ := rfl
  hasError_iff := iff_of_false Bool.noConfusion fun ⟨_, hm, _⟩ => List.not_mem_nil hm
  bare _ := ⟨rfl, rfl⟩

theorem flagged_error (span : Span) (first : Nat) : (error span first).Flagged where
  isError_iff := iff_of_true rfl rfl
  children_eq_nil _ := rfl
  hasError_iff := iff_of_false Bool.noConfusion fun ⟨_, hm, _⟩ => List.not_mem_nil hm
  bare h := Bool.noConfusion h

/-- A node with rightly flagged parts is in trouble exactly if it or something below it is
marked. -/
theorem Flagged.troubled_iff {n : Node} (h : n.Flagged) :
    n.troubled = true ↔ ∃ m ∈ n.preorder, m.isMarked = true := by
  have hsplit : n.troubled = true ↔ n.isMarked = true ∨ n.flags.hasError = true := by
    rw [troubled, Flags.troubled, Bool.or_eq_true, isMarked]
  rw [hsplit, h.hasError_iff, preorder_eq]
  simp only [List.mem_cons, exists_eq_or_imp]

/-- A node over rightly flagged children is rightly flagged itself. -/
theorem flagged_finish {r : Rule} (hr : r ≠ .error) {children : List Node}
    (h : ∀ c ∈ children, c.Flagged) (span : Span) (first : Nat) (isPartial : Bool) :
    (finish (.rule r) span first isPartial children).Flagged where
  isError_iff := iff_of_false Bool.noConfusion fun hk => hr (NodeKind.rule.inj hk)
  children_eq_nil hflag := Bool.noConfusion hflag
  hasError_iff := by
    rw [troubled_iff_of_finish]
    -- What is below a child is below the node, and the other way round.
    constructor
    · rintro ⟨c, hc, htroubled⟩
      obtain ⟨m, hm, hmarked⟩ := (h c hc).troubled_iff.1 htroubled
      exact ⟨m, mem_preorders.2 ⟨c, hc, hm⟩, hmarked⟩
    · rintro ⟨m, hm, hmarked⟩
      obtain ⟨c, hc, hm⟩ := mem_preorders.1 hm
      exact ⟨c, hc, (h c hc).troubled_iff.2 ⟨m, hm, hmarked⟩⟩
  bare hnamed := Bool.noConfusion hnamed

end Node

-- ---------------------------------------------------------------------------
-- Readings
-- ---------------------------------------------------------------------------

/-- The nodes of a reading are rightly flagged, and so are all below them. -/
theorem Reading.flagged {t : TokenStream} {gaps : Bool} {i j : Nat} {ns : List Node}
    {ds : List Diagnostic} (h : Reading t gaps i j ns ds) : ∀ n ∈ Node.preorders ns, n.Flagged := by
  induction h with
  | start => exact fun n hn => absurd hn List.not_mem_nil
  | terminator _ _ ih => exact ih
  | leaf _ _ hkind ih =>
    exact List.forall_mem_cons.2 ⟨Node.flagged_leaf (NodeKind.ne_error hkind) _ _, ih⟩
  | node _ _ _ hrule _ _ ih ihBody =>
    have hchildren := fun n hn => ihBody n (Node.mem_preorders_reverse.1 hn)
    refine List.forall_mem_append.2 ⟨List.forall_mem_cons.2 ⟨?_, hchildren⟩, ih⟩
    exact Node.flagged_finish hrule
      (fun c hc => hchildren c (Node.mem_preorders.2 ⟨c, hc, c.mem_preorder_self⟩)) _ _ _
  | region _ _ _ _ ih => exact List.forall_mem_cons.2 ⟨Node.flagged_error _ _, ih⟩
  | brokenHeader _ _ _ _ _ ih => exact List.forall_mem_cons.2 ⟨Node.flagged_error _ _, ih⟩
  | inField _ f ih => exact Node.forall_mem_preorders_inField (fun hn => hn.inField f) ih

-- ---------------------------------------------------------------------------
-- Trees
-- ---------------------------------------------------------------------------

/-- The flags of the nodes of a tree are true, from the root down to the leaves. -/
structure FlagsExact (tree : Tree) : Prop where
  flagged : ∀ n ∈ tree.root.preorder, n.Flagged
  /-- The root reports trouble exactly if there is an error region or a partial block. -/
  troubled_iff : tree.root.troubled = true ↔
    ∃ n ∈ tree.root.preorder, n.kind = .rule .error ∨ n.flags.isPartial = true

/-- In the tree of every source the flags of all nodes are true. -/
theorem flags_exact (source : List Char) (limits : Limits) :
    FlagsExact (Tree.ofTokens source (TokenStream.ofText source) limits.maxNestingDepth) := by
  obtain ⟨cs, ds, stop, hroot, hr, -, -⟩ :=
    Tree.reading_ofTokens source (TokenStream.ofText source) limits.maxNestingDepth
  have hbelow : ∀ n ∈ Node.preorders cs.reverse, n.Flagged := fun n hn =>
    hr.flagged n (Node.mem_preorders_reverse.1 hn)
  have hall : ∀ n ∈ (Tree.ofTokens source (TokenStream.ofText source)
      limits.maxNestingDepth).root.preorder, n.Flagged := by
    rw [hroot, Node.preorder_eq]
    refine List.forall_mem_cons.2 ⟨Node.flagged_finish (fun hr => Rule.noConfusion hr) ?_
      _ _ _, hbelow⟩
    exact fun c hc => hbelow c (Node.mem_preorders.2 ⟨c, hc, c.mem_preorder_self⟩)
  refine ⟨hall, (hall _ (Node.mem_preorder_self _)).troubled_iff.trans ?_⟩
  refine exists_congr fun n => and_congr_right fun hn => ?_
  rw [Node.isMarked, Bool.or_eq_true, (hall n hn).isError_iff]

end VisualBasic
