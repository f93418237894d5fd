import VisualBasic.Proofs.Expression
import VisualBasic.Proofs.Forest
import VisualBasic.Proofs.Run

/-!
# The tree of a row of operators

A row of operands with binary operators between them has one tree: the operator that is applied last
is the rightmost one of the lowest level, and what is on either side of it is a row again. The
parser never looks for that operator. It goes from left to right and has, at each place, the tree of
the operands behind it; an operator takes as its right operand all that follows up to the next
operator that binds no more tightly. `Loops.extendOf` says why both are the same: the next operator
binds no more tightly than any that was passed, so it is the one that is applied last.

Main results:

* `rightmostLowest_eq` — how an operator is known to be the one that is applied last.
* `Reads.expressionUpTo` — the operators of at least a level, wherever they end.
* `precedence_climbing` — the tree of a row of operators, and how the operators of every tree nest.
-/

namespace VisualBasic

-- ---------------------------------------------------------------------------
-- The reference tree
-- ---------------------------------------------------------------------------

/-- The rule of a literal's value. -/
def LiteralKind.rule : LiteralKind → Rule
  | .integer => .integerLiteral
  | .floatingPoint => .floatingPointLiteral
  | .string => .stringLiteral
  | .character => .characterLiteral
  | .date => .dateLiteral

/-- A token that is an operand by itself: a name or a literal. -/
def TokenKind.isAtom : TokenKind → Bool
  | .identifier | .literal _ => true
  | .keyword word => word.isNameLike || word.isConstant
  | _ => false

/-- The index, up to `n`, of the rightmost one of the lowest levels. -/
def rightmostLowest (level : Nat → Int) : Nat → Nat
  | 0 => 0
  | n + 1 =>
    let k := rightmostLowest level n
    if level (n + 1) ≤ level k then n + 1 else k

section

variable {level : Nat → Int} {k n : Nat}

theorem rightmostLowest_le (level : Nat → Int) (n : Nat) : rightmostLowest level n ≤ n := by
  induction n with
  | zero => exact Nat.le_refl 0
  | succ n ih =>
    rw [rightmostLowest]
    split <;> omega

/-- The levels in front of it are no lower, and those behind it are higher. -/
theorem rightmostLowest_spec (level : Nat → Int) (n : Nat) :
    (∀ j ≤ n, level (rightmostLowest level n) ≤ level j) ∧
      ∀ j ≤ n, rightmostLowest level n < j → level (rightmostLowest level n) < level j := by
  induction n with
  | zero =>
    constructor
    · intro j hj
      rw [Nat.le_zero.1 hj]
      exact Int.le_refl _
    · intro j hj hlt
      exact absurd (Nat.lt_of_lt_of_le hlt hj) (Nat.not_lt_zero _)
  | succ n ih =>
    obtain ⟨hlowest, hbehind⟩ := ih
    rw [rightmostLowest]
    by_cases hle : level (n + 1) ≤ level (rightmostLowest level n)
    · -- the new index takes over, and there is none behind it
      rw [if_pos hle]
      constructor
      · intro j hj
        rcases Nat.lt_or_eq_of_le hj with hj | rfl
        · exact Int.le_trans hle (hlowest j (Nat.le_of_lt_succ hj))
        · exact Int.le_refl _
      · intro j hj hlt
        exact absurd hlt (Nat.not_lt_of_le hj)
    · -- the new index is one more of those behind it
      rw [if_neg hle]
      constructor
      · intro j hj
        rcases Nat.lt_or_eq_of_le hj with hj | rfl
        · exact hlowest j (Nat.le_of_lt_succ hj)
        · omega
      · intro j hj hkj
        rcases Nat.lt_or_eq_of_le hj with hj | rfl
        · exact hbehind j (Nat.le_of_lt_succ hj) hkj
        · omega

/-- There is but one index with levels that are no lower in front of it and higher ones behind
it. -/
theorem rightmostLowest_eq (hk : k ≤ n) (hbefore : ∀ j < k, level k ≤ level j)
    (hbehind : ∀ j ≤ n, k < j → level k < level j) : rightmostLowest level n = k := by
  obtain ⟨hlowest, hhigher⟩ := rightmostLowest_spec level n
  have hle := rightmostLowest_le level n
  rcases Nat.lt_trichotomy (rightmostLowest level n) k with hlt | heq | hgt
  · have := hbefore _ hlt
    have := hhigher k hk hlt
    omega
  · exact heq
  · have := hbehind _ hle hgt
    have := hlowest k hk
    omega

end

namespace TokenStream

variable {t : TokenStream} {i k m n : Nat}

/-- The primary that a single token is. -/
def primaryAt (t : TokenStream) (i : Nat) : Node :=
  match t.kindAt i with
  | .literal kind => t.node .literal i (i + 1) [t.ruleLeaf kind.rule i]
  | .keyword .kwTrue | .keyword .kwFalse =>
    t.node .literal i (i + 1) [t.ruleLeaf .booleanLiteral i]
  | .keyword .kwNothing => t.node .literal i (i + 1) [t.tokenLeaf i]
  | _ => t.ruleLeaf .identifier i

/-- The operand that a single token is. -/
def operandAt (t : TokenStream) (i : Nat) : Node := t.node .expression i (i + 1) [t.primaryAt i]

/-- The expression that the operator at `j` makes of its operands. -/
def joined (t : TokenStream) (i j stop : Nat) (left right : Node) : Node :=
  t.node .expression i stop
    [t.node .binaryExpression i stop
      [left.inField .left, (t.tokenLeaf j).inField .operator, right.inField .right]]

/-- The place of an operator in the row that begins at `i`; operands stand between operators. -/
def operatorPlace (i k : Nat) : Nat := i + 2 * k + 1

/-- The level of an operator in the row that begins at `i`. -/
def operatorLevel (t : TokenStream) (i k : Nat) : Int :=
  ((Precedence.ofKind? (t.kindAt (operatorPlace i k))).map Precedence.level).getD 0

/-- The tree of the row with `n` operators that begins at `i`: the row is split at the rightmost
operator of the lowest level, and so are its parts. -/
def operatorTree (t : TokenStream) (i : Nat) : (n : Nat) → Node
  | 0 => t.operandAt i
  | n + 1 =>
    let k := rightmostLowest (t.operatorLevel i) n
    t.joined i (operatorPlace i k) (operatorPlace i (n + 1)) (operatorTree t i k)
      (operatorTree t (operatorPlace i k + 1) (n - k))
termination_by n => n
decreasing_by
  · exact Nat.lt_succ_of_le (rightmostLowest_le _ n)
  · omega

/-- At `i` begins a row with `n` operators. -/
structure IsRow (t : TokenStream) (i n : Nat) : Prop where
  operand : ∀ k ≤ n, (t.kindAt (i + 2 * k)).isAtom = true
  operator : ∀ k < n, (Precedence.ofKind? (t.kindAt (operatorPlace i k))).isSome = true

/-- Neither a member access nor a call nor an index follows. -/
structure EndsOperand (t : TokenStream) (i : Nat) : Prop where
  ne_dot : t.kindAt i ≠ .mark .dot
  ne_leftParen : t.kindAt i ≠ .mark .leftParen

/-- The operators of the row behind an operator are those that follow it. -/
theorem operatorPlace_behind (i k n : Nat) :
    operatorPlace (operatorPlace i k + 1) n = operatorPlace i (k + 1 + n) := by
  unfold operatorPlace
  omega

theorem operatorLevel_behind (t : TokenStream) (i k n : Nat) :
    t.operatorLevel (operatorPlace i k + 1) n = t.operatorLevel i (k + 1 + n) := by
  rw [operatorLevel, operatorPlace_behind, operatorLevel]

theorem operatorLevel_eq {p : Precedence}
    (h : Precedence.ofKind? (t.kindAt (operatorPlace i k)) = some p) :
    t.operatorLevel i k = p.level := by
  rw [operatorLevel, h]
  rfl

/-- No operand goes on with an operator. -/
theorem EndsOperand.of_operator {p : Precedence} (h : Precedence.ofKind? (t.kindAt i) = some p) :
    t.EndsOperand i := by
  constructor
  · intro hdot
    rw [hdot] at h
    exact absurd h nofun
  · intro hparen
    rw [hparen] at h
    exact absurd h nofun

/-- What is behind an operator of a row is a row. -/
theorem IsRow.behind (h : t.IsRow i m) (hn : k + 1 + n ≤ m) :
    t.IsRow (operatorPlace i k + 1) n := by
  constructor
  · intro j hj
    have hplace : operatorPlace i k + 1 + 2 * j = i + 2 * (k + 1 + j) := by
      unfold operatorPlace
      omega
    rw [hplace]
    exact h.operand (k + 1 + j) (by omega)
  · intro j hj
    rw [operatorPlace_behind]
    exact h.operator (k + 1 + j) (by omega)

theorem firstToken_primaryAt (t : TokenStream) (i : Nat) : (t.primaryAt i).info.firstToken = i := by
  unfold primaryAt
  split <;> rfl

theorem firstToken_operatorTree (t : TokenStream) (i n : Nat) :
    (t.operatorTree i n).info.firstToken = i := by
  cases n <;> rw [operatorTree] <;> rfl

/-- The tree whose last operator is known: those in front of it bind no less tightly, and those
behind it bind more tightly. -/
theorem operatorTree_eq (hbefore : ∀ j < k, t.operatorLevel i k ≤ t.operatorLevel i j)
    (hbehind : ∀ j ≤ k + n, k < j → t.operatorLevel i k < t.operatorLevel i j) :
    t.operatorTree i (k + 1 + n) =
      t.joined i (operatorPlace i k) (operatorPlace i (k + 1 + n)) (t.operatorTree i k)
        (t.operatorTree (operatorPlace i k + 1) n) := by
  have hlast := rightmostLowest_eq (Nat.le_add_right k n) hbefore hbehind
  rw [show k + 1 + n = k + n + 1 by omega, operatorTree, hlast]
  simp

end TokenStream

-- ---------------------------------------------------------------------------
-- Operands
-- ---------------------------------------------------------------------------

namespace Production

open TokenStream

variable {c : Scope} {i j k m n : Nat} {operand : Int → Parse Node} {level : Int}
  {left right : Node}

theorem Reads.literal (r : Rule) (h : c.tokens.kindAt i ≠ .endOfFile) :
    Reads c i (i + 1) [] (c.tokens.node .literal i (i + 1) [c.tokens.ruleLeaf r i])
      (Production.literal r) :=
  (Reads.ruleLeaf r h).bind (.wrap .literal _ rfl)

theorem Reads.primaryOf (e : Parse Node) (h : (c.tokens.kindAt i).isAtom = true) :
    Reads c i (i + 1) [] (c.tokens.primaryAt i) (Production.primaryOf e) := by
  have hend := TokenKind.ne_endOfFile_of h rfl
  refine .peek rfl ?_
  unfold TokenStream.primaryAt
  cases hkind : c.tokens.kindAt i with
  | literal kind => cases kind <;> exact .literal _ hend
  | identifier => exact .pos rfl (.ruleLeaf _ hend)
  | keyword word =>
    rw [hkind] at h
    rcases Bool.or_eq_true_iff.1 h with hname | hconstant
    · cases word <;> first | exact Bool.noConfusion hname | exact .pos rfl (.ruleLeaf _ hend)
    · cases word <;> first
        | exact Bool.noConfusion hconstant
        | exact .literal _ hend
        | exact (Reads.tokenLeaf hend).bind (.wrap .literal _ rfl)
  | directive | mark | newline | invalid | endOfFile =>
    rw [hkind] at h
    exact Bool.noConfusion h

/-- A single token with nothing behind it that goes on with the operand. -/
theorem Reads.unaryOf (h : (c.tokens.kindAt i).isAtom = true)
    (hends : c.tokens.EndsOperand (i + 1)) :
    Reads c i (i + 1) [] (c.tokens.operandAt i) (Production.unaryOf operand) := by
  have hpostfix : Reads c i (i + 1) [] (c.tokens.operandAt i)
      (Production.postfixOf (operand Precedence.lowest)) := by
    refine (Reads.primaryOf _ h).bind
      ((Loops.stop (Reads.peek rfl ?_)).reads.bind (Reads.wrap .expression _ ?_))
    · split
      · exact absurd ‹_› hends.ne_dot
      · exact absurd ‹_› hends.ne_leftParen
      · exact .pure none
    · rw [firstToken_primaryAt]
      rfl
  refine .peek rfl ?_
  split
  all_goals first
    | exact hpostfix
    | rename_i hkind
      rw [hkind] at h
      exact Bool.noConfusion h

/-- An operator of at least the given level, and its right operand. -/
theorem Reads.extendOf {p : Precedence} (hp : Precedence.ofKind? (c.tokens.kindAt j) = some p)
    (hlevel : level ≤ p.level) (hleft : left.info.firstToken = i)
    (hright : Reads c.nested (j + 1) k [] right (operand (p.level + 1))) :
    Reads c j k [] (some (c.tokens.joined i j k left right))
      (Production.extendOf operand level left) := by
  subst hleft
  rw [← right_eq hp] at hright
  have hoperator := (tokenLeaf (ne_endOfFile_of_operator hp)).field .operator
  have hbinary : Reads c j k [] _ (Production.nodeFrom left .binaryExpression do
      Production.attach (left.inField .left)
      Production.field .operator Production.tokenLeaf
      Production.field .right (operand p.right).nested) :=
    .nodeFrom ((attach _).bind (hoperator.bind (hright.nested.field .right))) rfl
  refine .peek rfl ?_
  rw [hp]
  exact .neg (Int.not_lt.2 hlevel) (hbinary.bind ((Reads.wrap .expression _ rfl).map some))

/-- There is no operator of at least the given level. -/
theorem Reads.extendNone (h : StopsBelow c.tokens level j) :
    Reads c j j [] none (Production.extendOf operand level left) := by
  refine .peek rfl ?_
  cases hp : Precedence.ofKind? (c.tokens.kindAt j) with
  | none => exact .pure none
  | some p => exact .pos (h p hp) (.pure none)

-- ---------------------------------------------------------------------------
-- Rows
-- ---------------------------------------------------------------------------

/-- From an index on the levels are above the given one up to the next that is not, or to the
end. -/
theorem exists_stretch (level : Nat → Int) (bound : Int) {k m : Nat} (hk : k ≤ m) :
    ∃ n, k + n ≤ m ∧ (∀ j < k + n, k ≤ j → bound < level j) ∧
      (k + n < m → level (k + n) ≤ bound) := by
  induction hd : m - k generalizing k with
  | zero => exact ⟨0, hk, fun j hj hkj => by omega, fun hlt => by omega⟩
  | succ d ih =>
    by_cases hlevel : level k ≤ bound
    · exact ⟨0, hk, fun j hj hkj => by omega, fun _ => hlevel⟩
    · obtain ⟨n, hn, habove, hnext⟩ := ih (k := k + 1) (by omega) (by omega)
      have hplace : k + (n + 1) = k + 1 + n := by omega
      refine ⟨n + 1, by omega, ?_, ?_⟩
      · intro j hj hkj
        rcases Nat.lt_or_eq_of_le hkj with hlt | rfl
        · exact habove j (by omega) hlt
        · exact Int.not_le.1 hlevel
      · intro hlt
        rw [hplace] at hlt ⊢
        exact hnext hlt

/-- If no level in front of a stretch is below the one that bounds it, none up to its end is below
the level behind it. -/
theorem le_level_of_stretch {level : Nat → Int} {k n : Nat} (hbefore : ∀ j < k, level k ≤ level j)
    (habove : ∀ j < k + 1 + n, k + 1 ≤ j → level k < level j)
    (hnext : level (k + 1 + n) ≤ level k) :
    ∀ j < k + 1 + n, level (k + 1 + n) ≤ level j := by
  intro j hj
  rcases Nat.lt_trichotomy j k with hjk | rfl | hkj
  · exact Int.le_trans hnext (hbefore j hjk)
  · exact hnext
  · exact Int.le_trans hnext (Int.le_of_lt (habove j hj hkj))

/-- Behind every operand of a row there is an operator, or the end of the row. -/
theorem endsOperand_of_isRow (hrow : c.tokens.IsRow i m)
    (hends : c.tokens.EndsOperand (operatorPlace i m)) (hj : j ≤ m) :
    c.tokens.EndsOperand (operatorPlace i j) := by
  rcases Nat.lt_or_eq_of_le hj with hlt | rfl
  · obtain ⟨p, hp⟩ := Option.isSome_iff_exists.1 (hrow.operator j hlt)
    exact .of_operator hp
  · exact hends

/-- Behind a stretch above a level there is no operator above it. -/
theorem stopsBelow_of_stretch (hlevel : ∀ j < m, level ≤ c.tokens.operatorLevel i j)
    (hstop : StopsBelow c.tokens level (operatorPlace i m)) (hk : k < m) (hj : j ≤ m)
    (hnext : j < m → c.tokens.operatorLevel i j ≤ c.tokens.operatorLevel i k) :
    StopsBelow c.tokens (c.tokens.operatorLevel i k + 1) (operatorPlace i j) := by
  intro q hq
  rcases Nat.lt_or_eq_of_le hj with hlt | rfl
  · have hle := hnext hlt
    rw [operatorLevel_eq hq] at hle
    omega
  · have hbelow := hstop q hq
    have hle := hlevel k hk
    omega

/-- The operators of a row are taken one after the other. The tree of those that were taken grows by
the next operator and all behind it that bind more tightly; as none that was taken binds less
tightly than the next, that is the one to be applied last. -/
theorem Loops.extendOf (hrow : c.tokens.IsRow i m)
    (hlevel : ∀ j < m, level ≤ c.tokens.operatorLevel i j)
    (hstop : StopsBelow c.tokens level (operatorPlace i m))
    (hright : ∀ k n, k + 1 + n ≤ m →
      (∀ j < n, c.tokens.operatorLevel i k < c.tokens.operatorLevel i (k + 1 + j)) →
      StopsBelow c.tokens (c.tokens.operatorLevel i k + 1) (operatorPlace i (k + 1 + n)) →
      EndsOperand c.tokens (operatorPlace i (k + 1 + n)) →
      Reads c.nested (operatorPlace i k + 1) (operatorPlace i (k + 1 + n)) []
        (c.tokens.operatorTree (operatorPlace i k + 1) n)
        (operand (c.tokens.operatorLevel i k + 1)))
    (hends : c.tokens.EndsOperand (operatorPlace i m)) (hk : k ≤ m)
    (hbefore : k < m → ∀ j < k, c.tokens.operatorLevel i k ≤ c.tokens.operatorLevel i j) :
    Loops c (operatorPlace i k) (operatorPlace i m) [] (c.tokens.operatorTree i k)
      (c.tokens.operatorTree i m) (Production.extendOf operand level) := by
  induction hd : m - k using Nat.strongRecOn generalizing k with
  | ind d ih =>
  rcases Nat.lt_or_eq_of_le hk with hlt | rfl
  · obtain ⟨p, hp⟩ := Option.isSome_iff_exists.1 (hrow.operator k hlt)
    obtain ⟨n, hn, habove, hnext⟩ := exists_stretch (c.tokens.operatorLevel i)
      (c.tokens.operatorLevel i k) (show k + 1 ≤ m from hlt)
    have hoperand := hright k n hn (fun j hj => habove (k + 1 + j) (by omega) (by omega))
      (stopsBelow_of_stretch hlevel hstop hlt hn hnext) (endsOperand_of_isRow hrow hends hn)
    have htree := operatorTree_eq (n := n) (hbefore hlt) fun j hj hkj =>
      habove j (by omega) (by omega)
    have hround : Reads c (operatorPlace i k) (operatorPlace i (k + 1 + n)) []
        (some (c.tokens.operatorTree i (k + 1 + n)))
        (Production.extendOf operand level (c.tokens.operatorTree i k)) := by
      rw [operatorLevel_eq hp] at hoperand
      rw [htree]
      refine Reads.extendOf hp ?_ (firstToken_operatorTree _ i k) hoperand
      rw [← operatorLevel_eq hp]
      exact hlevel k hlt
    have hplace : operatorPlace i k < operatorPlace i (k + 1 + n) := by
      unfold operatorPlace
      omega
    have hend := ne_endOfFile_of_operator hp
    have hbefore' : k + 1 + n < m → ∀ j < k + 1 + n,
        c.tokens.operatorLevel i (k + 1 + n) ≤ c.tokens.operatorLevel i j :=
      fun hnm => le_level_of_stretch (hbefore hlt) habove (hnext hnm)
    exact Loops.more hround hplace hend (ih _ (by omega) hn hbefore' rfl)
  · exact .stop (.extendNone hstop)

/-- The operators of at least a level are taken, whatever follows them. Each of them takes its right
operand a level higher up, so there are no more levels of expressions than there are of
operators. -/
theorem Reads.expressionUpTo (room : Nat) (hrow : c.tokens.IsRow i m)
    (hlevel : ∀ j < m, level ≤ c.tokens.operatorLevel i j)
    (hstop : StopsBelow c.tokens level (operatorPlace i m))
    (hends : c.tokens.EndsOperand (operatorPlace i m)) (htop : level ≤ Precedence.unary)
    (hdepth : c.env.depth + (Precedence.unary - level) < c.env.limit)
    (hroom : Precedence.unary - level < room) :
    Reads c i (operatorPlace i m) [] (c.tokens.operatorTree i m)
      (Production.expressionUpTo room level) := by
  induction room generalizing c level i m with
  | zero => omega
  | succ room ih =>
    have hfirst := endsOperand_of_isRow hrow hends (Nat.zero_le m)
    have hoperand : Reads c i (operatorPlace i 0) [] (c.tokens.operatorTree i 0)
        (Production.unaryOf (Production.expressionUpTo room)) := by
      rw [operatorTree]
      exact .unaryOf (hrow.operand 0 (Nat.zero_le m)) hfirst
    have hloop : Loops c (operatorPlace i 0) (operatorPlace i m) [] (c.tokens.operatorTree i 0)
        (c.tokens.operatorTree i m)
        (Production.extendOf (Production.expressionUpTo room) level) := by
      refine Loops.extendOf hrow hlevel hstop ?_ hends (Nat.zero_le m) nofun
      intro k n hn habove hstops hends'
      have hk : k < m := by omega
      have hle := hlevel k hk
      have hlt : c.tokens.operatorLevel i k < Precedence.unary := by
        obtain ⟨p, hp⟩ := Option.isSome_iff_exists.1 (hrow.operator k hk)
        rw [operatorLevel_eq hp]
        exact (Precedence.lowest_le_level hp).2
      have hdeeper : (c.nested.env.depth : Int) +
          (Precedence.unary - (c.tokens.operatorLevel i k + 1)) < c.nested.env.limit := by
        show ((c.env.depth + 1 : Nat) : Int) + _ < (c.env.limit : Int)
        omega
      have hlevels : ∀ j < n, c.tokens.operatorLevel i k + 1 ≤
          c.tokens.operatorLevel (operatorPlace i k + 1) j := by
        intro j hj
        rw [operatorLevel_behind]
        exact habove j hj
      rw [← operatorPlace_behind] at hstops hends' ⊢
      exact ih (c := c.nested) (hrow.behind hn) hlevels hstops hends' hlt hdeeper (by omega)
    exact (Reads.checkDepth (by omega)).bind (hoperand.bind hloop.reads)

end Production

-- ---------------------------------------------------------------------------
-- Every tree
-- ---------------------------------------------------------------------------

/-- Each binary expression of a tree has an operator between its operands. A binary expression that
is its right operand has a higher level, and one that is its left operand a level at least as
high. -/
def OperatorsNested (root : Node) : Prop :=
  ∀ n ∈ root.preorder, n.kind = .rule .binaryExpression →
    ∃ p left operator right, n.children = [left, operator, right] ∧ Joins p left operator right

theorem operatorsNested_ofTokens (source : List Char) (tokens : TokenStream) (limit : Nat) :
    OperatorsNested (Tree.ofTokens source tokens limit).root := by
  obtain ⟨cs, ds, stop, hroot, hr, -, -⟩ := Tree.reading_ofTokens source tokens limit
  rw [hroot]
  intro n hn hkind
  rw [Node.preorder_eq, List.mem_cons] at hn
  rcases hn with rfl | hn
  · exact absurd hkind nofun
  · obtain ⟨_, shape⟩ := hr.shape n (Node.mem_preorders_reverse.1 hn) _ hkind rfl nofun
    exact shape.joins rfl

/-- Where a row of operands and operators stands, and nothing behind it goes on with it, the
expression is the whole row with the tree that comes of splitting it at the rightmost operator of
the lowest level. In the tree of every source, operators nest accordingly. -/
theorem precedence_climbing :
    (∀ (env : Env) (s : State) (n : Nat), env.tokens.IsRow s.cursor n →
      Precedence.ofKind? (env.tokens.kindAt (s.cursor + 2 * n + 1)) = none →
      env.tokens.EndsOperand (s.cursor + 2 * n + 1) → env.depth + 10 ≤ env.limit →
      Production.expression env s =
        .ok (env.tokens.operatorTree s.cursor n) { s with cursor := s.cursor + 2 * n + 1 }) ∧
    ∀ source tokens limit, OperatorsNested (Tree.ofTokens source tokens limit).root := by
  refine ⟨?_, operatorsNested_ofTokens⟩
  intro env s n hrow hnone hends hdepth
  have hroom : env.room = env.limit - env.depth := rfl
  have hlevels : Precedence.unary - Precedence.lowest = 9 := rfl
  have hlevel : ∀ j < n, Precedence.lowest ≤ env.tokens.operatorLevel s.cursor j := by
    intro j hj
    obtain ⟨p, hp⟩ := Option.isSome_iff_exists.1 (hrow.operator j hj)
    rw [TokenStream.operatorLevel_eq hp]
    exact (Precedence.lowest_le_level hp).1
  have hstop : Production.StopsBelow env.tokens Precedence.lowest
      (TokenStream.operatorPlace s.cursor n) := by
    intro p hp
    exact absurd (hnone.symm.trans hp) nofun
  have hlimit : (env.depth : Int) + (Precedence.unary - Precedence.lowest) < (env.limit : Int) := by
    omega
  have hreads := Production.Reads.expressionUpTo (c := ⟨env, s.blocks⟩) env.room hrow hlevel hstop
    hends (by decide) hlimit (by omega)
  exact hreads s ⟨rfl, rfl⟩

/-- A difference of differences, with a product in the middle. -/
def differences : Env :=
  { source := "a - b * c - d".toList
    tokens := TokenStream.ofText "a - b * c - d".toList
    limit := 10 }

/-- Of the two differences the right one is applied last. -/
theorem expression_differences :
    Production.expression differences ({} : State) =
        .ok (differences.tokens.operatorTree 0 3) { cursor := 7 } ∧
      rightmostLowest (differences.tokens.operatorLevel 0) 2 = 2 := by
  have htokens : (∀ k ≤ 3, (differences.tokens.kindAt (0 + 2 * k)).isAtom = true) ∧
      (∀ k < 3, (Precedence.ofKind?
        (differences.tokens.kindAt (TokenStream.operatorPlace 0 k))).isSome = true) ∧
      differences.tokens.kindAt (0 + 2 * 3 + 1) = .endOfFile ∧
      rightmostLowest (differences.tokens.operatorLevel 0) 2 = 2 := by
    decide +kernel
  obtain ⟨hoperand, hoperator, hend, hlast⟩ := htokens
  have hnone : Precedence.ofKind? (differences.tokens.kindAt (0 + 2 * 3 + 1)) = none := by
    rw [hend]
    rfl
  have hends : differences.tokens.EndsOperand (0 + 2 * 3 + 1) := by
    refine ⟨?_, ?_⟩
    all_goals
      rw [hend]
      exact nofun
  have hrow : differences.tokens.IsRow 0 3 := ⟨hoperand, hoperator⟩
  exact ⟨precedence_climbing.1 differences {} 3 hrow hnone hends (by decide), hlast⟩

end VisualBasic
