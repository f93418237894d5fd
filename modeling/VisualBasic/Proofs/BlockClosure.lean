import Mathlib.Logic.Basic
import VisualBasic.Proofs.Forest

/-!
# The closing lines of blocks

A block ends with its own closing line or is partial. Which of the two holds is decided where its
statements end: there the words of its closing line are ahead, or the line belongs to a block
around, or the text is over. Behind the words the line may go on as the grammar allows, and with an
error region where it does not.

Main results:

* `BlockEnd.lacksCloser_xor_closed` — the two ways in which the children of a block may end.
* `blocks_closed` — every block of every tree is partial or closed, and not both.
-/

namespace VisualBasic

/-- A partial block: not even the first word of its closing line is among the children. -/
structure Node.LacksCloser (opener : Keyword) (n : Node) : Prop where
  isPartial : n.flags.isPartial = true
  not_word : ∀ c ∈ n.children, ∀ word ∈ opener.closer.head?, ¬c.IsWord word

/-- A block that is not partial and has its closing line behind all else: the words, made from the
tokens from `k` on, then what may follow them, then at most one error region. -/
structure Node.Closed (t : TokenStream) (opener : Keyword) (n : Node) : Prop where
  isPartial : n.flags.isPartial = false
  closer : ∃ before k trailing region, WordsAt t opener.closer k ∧ Trailing opener trailing ∧
    IsRegion region ∧ n.children = before ++ wordLeaves t opener.closer k ++ trailing ++ region

/-- Every block has its closing line or is partial, but for an `If` on a single line. -/
def BlocksClosed (t : TokenStream) (root : Node) : Prop :=
  ∀ n ∈ root.preorder, ∀ r, n.kind = .rule r → ∀ opener ∈ r.opener?,
    (r = .ifStatement → ∀ c ∈ n.children, c.field ≠ some .thenBranch) →
      Xor (n.LacksCloser opener) (n.Closed t opener)

/-- The first word of a closing line is none that may stand in a body. -/
theorem Keyword.endsBody_of_mem_closer {opener word : Keyword} (h : word ∈ opener.closer.head?) :
    word.endsBody = true := by
  unfold closer at h
  split at h
  all_goals
    obtain rfl := Option.some.inj h
    rfl

/-- What the children of a block end with decides whether it lacks its closing line. -/
theorem BlockEnd.lacksCloser_xor_closed {t : TokenStream} {opener : Keyword} {n : Node}
    (h : BlockEnd t opener n.flags.isPartial n.children) :
    Xor (n.LacksCloser opener) (n.Closed t opener) := by
  generalize hpartial : n.flags.isPartial = isPartial at h
  generalize hchildren : n.children = children at h
  cases h with
  | missing hinner =>
    have hlacks : n.LacksCloser opener := by
      refine ⟨hpartial, fun c hc word hword => ?_⟩
      rw [hchildren] at hc
      exact (hinner c hc).not_word word (Keyword.endsBody_of_mem_closer hword)
    refine .inl ⟨hlacks, fun hclosed => ?_⟩
    rw [hclosed.isPartial] at hpartial
    exact Bool.noConfusion hpartial
  | closed _ hwords htrailing hregion =>
    have hclosed : n.Closed t opener :=
      ⟨hpartial, _, _, _, _, hwords, htrailing, hregion, hchildren⟩
    refine .inr ⟨hclosed, fun hlacks => ?_⟩
    rw [hlacks.isPartial] at hpartial
    exact Bool.noConfusion hpartial

/-- In the tree of every source, each block is partial or has its closing line, and not both. -/
theorem blocks_closed (source : List Char) (limits : Limits) :
    BlocksClosed (TokenStream.ofText source)
      (Tree.ofTokens source (TokenStream.ofText source) limits.maxNestingDepth).root := by
  obtain ⟨cs, ds, stop, hroot, hr, -, -⟩ :=
    Tree.reading_ofTokens source (TokenStream.ofText source) limits.maxNestingDepth
  rw [hroot]
  intro n hn r hkind opener hopener hthen
  rw [Node.preorder_eq, List.mem_cons] at hn
  rcases hn with rfl | hn
  · -- The root is no block.
    obtain rfl := NodeKind.rule.inj hkind
    cases hopener
  · have hplain : r.isPlain = false := by
      unfold Rule.isPlain
      rw [hopener]
    have hne : r ≠ .error := by
      rintro rfl
      cases hopener
    obtain ⟨_, shape⟩ := hr.shape n (Node.mem_preorders_reverse.1 hn) r hkind hplain hne
    exact (shape.blockEnd opener hopener hthen).lacksCloser_xor_closed

end VisualBasic
