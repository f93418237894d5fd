import VisualBasic.Proofs.Forest

/-!
# The `Else` of an `If` on a single line

An `If` on a single line looks for its `Else` behind its first branch. The branch is a statement,
and a statement takes its line end along; so the `Else` that is found may stand on the line below,
where it belongs to another `If`. The tree tells when this happens: when the branch ends with a line
end and the token behind it is an `Else`.

Main results:

* `Reading.hasElseBehindBranch` — in a reading, every `If` has its `Else` right behind its branch.
* `singleLineIf_decided` — the `Else` of a single-line `If`, and when it is that of another line.
* `exists_elseOfLaterLine` — a source in which an `If` takes the `Else` of the `If` around it.
-/

namespace VisualBasic

/-- Whether the node is the word `Else`. -/
def Node.IsElse (n : Node) : Prop := n.kind = .token (.keyword .kwElse)

instance (n : Node) : Decidable n.IsElse :=
  inferInstanceAs (Decidable (n.kind = .token (.keyword .kwElse)))

/-- The node has an `Else` with a line end in front of it. -/
def Node.HasElseOfLaterLine (t : TokenStream) (n : Node) : Prop :=
  ∃ c ∈ n.children, c.IsElse ∧ ∃ k ∈ c.info.token, t.kindAt (k - 1) = .newline

instance (t : TokenStream) (n : Node) : Decidable (n.HasElseOfLaterLine t) :=
  inferInstanceAs
    (Decidable (∃ c ∈ n.children, c.IsElse ∧ ∃ k ∈ c.info.token, t.kindAt (k - 1) = .newline))

-- ---------------------------------------------------------------------------
-- Readings
-- ---------------------------------------------------------------------------

/-- In a reading, every `If` has its `Else` right behind its branch. -/
theorem Reading.hasElseBehindBranch {t : TokenStream} {gaps : Bool} {i j : Nat} {ns : List Node}
    {ds : List Diagnostic} (h : Reading t gaps i j ns ds) :
    ∀ n ∈ Node.preorders ns, n.kind = .rule .ifStatement → HasElseBehindBranch t n.children := by
  intro n hn hkind
  obtain ⟨_, shape⟩ := h.shape n hn .ifStatement hkind rfl nofun
  exact shape.elseBehind rfl

-- ---------------------------------------------------------------------------
-- Trees
-- ---------------------------------------------------------------------------

/-- What the token behind the branch of a single-line `If` says of its `Else`. -/
structure ElseDecided (t : TokenStream) (n branch : Node) : Prop where
  /-- Each `Else` of the node is the token behind the branch. -/
  token : ∀ c ∈ n.children, c.IsElse → c.info.token = some (t.tokensBefore branch.span.stop)
  /-- There is one exactly if this token is an `Else`. -/
  exists_iff : (∃ c ∈ n.children, c.IsElse) ↔
    t.kindAt (t.tokensBefore branch.span.stop) = .keyword .kwElse
  /-- It is that of a later line exactly if the branch, moreover, ends with a line end. -/
  laterLine_iff : n.HasElseOfLaterLine t ↔
    t.kindAt (t.tokensBefore branch.span.stop) = .keyword .kwElse ∧
      t.kindAt (t.tokensBefore branch.span.stop - 1) = .newline

/-- The token behind its branch decides on the `Else` of every single-line `If` of the tree. -/
def SingleLineIfsDecided (t : TokenStream) (root : Node) : Prop :=
  ∀ n ∈ root.preorder, n.kind = .rule .ifStatement →
    ∀ branch ∈ n.children, branch.field = some .thenBranch → ElseDecided t n branch

theorem HasElseBehindBranch.decided {t : TokenStream} (ht : t.Ordered) {n branch : Node}
    (h : HasElseBehindBranch t n.children) (hmem : branch ∈ n.children)
    (hfield : branch.field = some .thenBranch) : ElseDecided t n branch := by
  obtain ⟨stop, -, hsize, hspan, htoken, hexists⟩ := h branch hmem hfield
  have hplace : t.tokensBefore branch.span.stop = stop := by
    rw [hspan]
    exact ht.tokensBefore_stop_spanFrom hsize
  refine ⟨?_, ?_, ?_⟩
  · rw [hplace]
    exact htoken
  · rw [hplace]
    exact hexists
  · rw [hplace]
    constructor
    · rintro ⟨c, hc, helse, k, hk, hnewline⟩
      rw [htoken c hc helse] at hk
      obtain rfl := Option.some.inj hk
      exact ⟨hexists.1 ⟨c, hc, helse⟩, hnewline⟩
    · rintro ⟨hstop, hnewline⟩
      obtain ⟨c, hc, helse⟩ := hexists.2 hstop
      exact ⟨c, hc, helse, stop, htoken c hc helse, hnewline⟩

/-- The `Else` of a single-line `If` is the token behind its branch, on the same line or not. -/
theorem singleLineIf_decided (source : List Char) (limits : Limits) :
    SingleLineIfsDecided (TokenStream.ofText source)
      (Tree.ofTokens source (TokenStream.ofText source) limits.maxNestingDepth).root := by
  obtain ⟨cs, ds, stop, hroot, hr, -, -⟩ :=
    Tree.reading_ofTokens source (TokenStream.ofText source) limits.maxNestingDepth
  rw [hroot]
  intro n hn hkind branch hmem hfield
  rw [Node.preorder_eq, List.mem_cons] at hn
  rcases hn with rfl | hn
  · cases hkind
  · have hif := hr.hasElseBehindBranch n (Node.mem_preorders_reverse.1 hn) hkind
    exact hif.decided (TokenStream.ordered_ofText source) hmem hfield

/-- An `If` on a single line in a block `If` that has an `Else`. -/
def nestedIfs : List Char :=
  "Module M\nSub S\nIf a Then\nIf b Then c = 1\nElse\nEnd If\nEnd Sub\nEnd Module\n".toList

/-- An `If` on a single line may take the `Else` of the `If` around it. -/
theorem exists_elseOfLaterLine : ∃ n ∈ (Tree.parse nestedIfs).root.preorder,
    n.kind = .rule .ifStatement ∧ (∃ branch ∈ n.children, branch.field = some .thenBranch) ∧
      n.HasElseOfLaterLine (TokenStream.ofText nestedIfs) := by
  decide +kernel

end VisualBasic
