import VisualBasic.Proofs.OperatorTree

/-!
# Nests of closed blocks

Statements whose blocks are all closed, as a grammar of its own. A block is the line that opens it,
its statements, its parts, each with a line and statements of its own, and the line that closes it.
What such a statement is written as is given by the kinds of its tokens, and its tree by the place
where it begins.

Main results:

* `ClosedStatement.isClean_node` — nothing is wrong with the tree of such a statement.
-/

namespace VisualBasic

/-- The statement that is read from `i` up to `j`. -/
def TokenStream.statement (t : TokenStream) (i j : Nat) (inner : Node) : Node :=
  t.node .statement i j [inner]

-- ---------------------------------------------------------------------------
-- Lines
-- ---------------------------------------------------------------------------

/-- A statement that is a block. -/
inductive BlockKind where
  | whileLoop | doLoop | forLoop | forEach | withBlock | usingBlock | syncLock
  | ifElse | select | tryCatch

/-- A part of a block, with a line of its own. -/
inductive PartKind where
  | elseIf | elsePart | case | caseElse | catchPart | finallyPart

namespace BlockKind

def opener : BlockKind → Keyword
  | whileLoop => .kwWhile
  | doLoop => .kwDo
  | forLoop | forEach => .kwFor
  | withBlock => .kwWith
  | usingBlock => .kwUsing
  | syncLock => .kwSyncLock
  | ifElse => .kwIf
  | select => .kwSelect
  | tryCatch => .kwTry

def rule : BlockKind → Rule
  | whileLoop => .whileStatement
  | doLoop => .doStatement
  | forLoop => .forStatement
  | forEach => .forEachStatement
  | withBlock => .withStatement
  | usingBlock => .usingStatement
  | syncLock => .syncLockStatement
  | ifElse => .ifStatement
  | select => .selectCaseStatement
  | tryCatch => .tryStatement

/-- What stands behind the word that opens the block. -/
def header : BlockKind → List TokenKind
  | whileLoop | withBlock | usingBlock | syncLock => [.identifier]
  | doLoop | tryCatch => []
  | forLoop =>
    [.identifier, .mark .equal, .literal .integer, .keyword .kwTo, .identifier]
  | forEach => [.keyword .kwEach, .identifier, .keyword .kwIn, .identifier]
  | ifElse => [.identifier, .keyword .kwThen]
  | select => [.keyword .kwCase, .identifier]

/-- The nodes of a header that begins at `i`. -/
def headerNodes (t : TokenStream) (i : Nat) : BlockKind → List Node
  | whileLoop => [(t.operandAt i).inField .condition]
  | withBlock => [(t.operandAt i).inField .target]
  | usingBlock => [(t.operandAt i).inField .value]
  | syncLock => [(t.operandAt i).inField .lock]
  | doLoop | tryCatch => []
  | forLoop =>
    [(t.ruleLeaf .identifier i).inField .«variable», t.tokenLeaf (i + 1),
      (t.operandAt (i + 2)).inField .start, t.tokenLeaf (i + 3),
      (t.operandAt (i + 4)).inField .«end»]
  | forEach =>
    [t.tokenLeaf i, (t.ruleLeaf .identifier (i + 1)).inField .«variable», t.tokenLeaf (i + 2),
      (t.operandAt (i + 3)).inField .collection]
  | ifElse => [(t.operandAt i).inField .condition, t.tokenLeaf (i + 1)]
  | select => [t.tokenLeaf i, (t.operandAt (i + 1)).inField .selector]

/-- The line that opens the block. -/
def opening (b : BlockKind) : List TokenKind := .keyword b.opener :: b.header ++ [.newline]

/-- The line that closes the block. -/
def closing (b : BlockKind) : List TokenKind := b.opener.closer.map .keyword ++ [.newline]

/-- Whether the block has no parts. -/
@[reducible] def isPlain : BlockKind → Bool
  | ifElse | select | tryCatch => false
  | _ => true

/-- Whether the block has parts behind statements of its own. -/
@[reducible] def isParted : BlockKind → Bool
  | ifElse | tryCatch => true
  | _ => false

/-- The part that there may be any number of. -/
def part : BlockKind → PartKind
  | select => .case
  | tryCatch => .catchPart
  | _ => .elseIf

/-- The part that there may be at the end. -/
def lastPart : BlockKind → PartKind
  | select => .caseElse
  | tryCatch => .finallyPart
  | _ => .elsePart

/-- The statement that is a block which begins at `i` and is closed at `e`. -/
def node (t : TokenStream) (b : BlockKind) (i e : Nat) (inner : List Node) : Node :=
  let stop := e + b.closing.length
  t.statement i stop (t.node b.rule i stop
    (t.tokenLeaf i :: b.headerNodes t (i + 1) ++ inner ++ wordLeaves t b.opener.closer e))

end BlockKind

namespace PartKind

def rule : PartKind → Rule
  | elseIf => .elseIfClause
  | elsePart => .elseClause
  | case => .caseBlock
  | caseElse => .caseElseBlock
  | catchPart => .catchBlock
  | finallyPart => .finallyBlock

/-- The block of which it is a part. -/
def block : PartKind → BlockKind
  | elseIf | elsePart => .ifElse
  | case | caseElse => .select
  | catchPart | finallyPart => .tryCatch

/-- The line that begins the part. -/
def opening : PartKind → List TokenKind
  | elseIf => [.keyword .kwElseIf, .identifier, .keyword .kwThen, .newline]
  | elsePart => [.keyword .kwElse, .newline]
  | case => [.keyword .kwCase, .literal .integer, .newline]
  | caseElse => [.keyword .kwCase, .keyword .kwElse, .newline]
  | catchPart => [.keyword .kwCatch, .identifier, .newline]
  | finallyPart => [.keyword .kwFinally, .newline]

/-- The nodes of the line that begins a part at `i`. -/
def openingNodes (t : TokenStream) (i : Nat) : PartKind → List Node
  | elseIf => [t.tokenLeaf i, (t.operandAt (i + 1)).inField .condition, t.tokenLeaf (i + 2)]
  | elsePart | finallyPart => [t.tokenLeaf i]
  | case => [t.tokenLeaf i, t.node .caseClause (i + 1) (i + 2) [t.operandAt (i + 1)]]
  | caseElse => [t.tokenLeaf i, t.tokenLeaf (i + 1)]
  | catchPart => [t.tokenLeaf i, (t.ruleLeaf .identifier (i + 1)).inField .exception]

/-- The part that begins at `i` and ends at `e`. -/
def node (t : TokenStream) (p : PartKind) (i e : Nat) (body : List Node) : Node :=
  let part := t.node p.rule i e (p.openingNodes t i ++ body)
  match p with
  | elsePart => part.inField .elseBranch
  | _ => part

end PartKind

-- ---------------------------------------------------------------------------
-- Nests
-- ---------------------------------------------------------------------------

mutual

/-- A statement whose blocks are all closed. -/
inductive ClosedStatement where
  | assignment
  | returning
  | plain (b : BlockKind) (isPlain : b.isPlain = true) (body : List ClosedStatement)
  | parted (b : BlockKind) (isParted : b.isParted = true) (body : List ClosedStatement)
      (parts : ClosedParts)
  | select (parts : ClosedParts)

/-- The parts of a block: any number of one kind, and at most one of another kind at the end. -/
inductive ClosedParts where
  | none
  | last (body : List ClosedStatement)
  | part (body : List ClosedStatement) (rest : ClosedParts)

end

mutual

/-- The kinds of the tokens of which a statement consists. -/
def ClosedStatement.kinds : ClosedStatement → List TokenKind
  | .assignment => [.identifier, .mark .equal, .literal .integer, .newline]
  | .returning => [.keyword .kwReturn, .newline]
  | .plain b _ body => b.opening ++ ClosedStatement.kindsOf body ++ b.closing
  | .parted b _ body parts =>
    b.opening ++ (ClosedStatement.kindsOf body ++ parts.kinds b) ++ b.closing
  | .select parts => BlockKind.select.opening ++ parts.kinds .select ++ BlockKind.select.closing

def ClosedStatement.kindsOf : List ClosedStatement → List TokenKind
  | [] => []
  | x :: rest => x.kinds ++ ClosedStatement.kindsOf rest

def ClosedParts.kinds (b : BlockKind) : ClosedParts → List TokenKind
  | .none => []
  | .last body => b.lastPart.opening ++ ClosedStatement.kindsOf body
  | .part body rest => b.part.opening ++ ClosedStatement.kindsOf body ++ rest.kinds b

end

mutual

/-- The number of blocks around the innermost statement. -/
def ClosedStatement.nesting : ClosedStatement → Nat
  | .assignment | .returning => 0
  | .plain _ _ body => ClosedStatement.levelsOf body
  | .parted _ _ body parts => max (ClosedStatement.levelsOf body) parts.levels
  | .select parts => parts.levels

/-- The number of levels on which there are statements. -/
def ClosedStatement.levelsOf : List ClosedStatement → Nat
  | [] => 0
  | x :: rest => max (x.nesting + 1) (ClosedStatement.levelsOf rest)

def ClosedParts.levels : ClosedParts → Nat
  | .none => 0
  | .last body => ClosedStatement.levelsOf body
  | .part body rest => max (ClosedStatement.levelsOf body) rest.levels

end

mutual

/-- The tree of a statement that begins at `i`. -/
def ClosedStatement.node (t : TokenStream) (i : Nat) : ClosedStatement → Node
  | .assignment =>
    t.statement i (i + 4) (t.node .assignmentStatement i (i + 4)
      [(t.node .leftHandSide i (i + 1) [t.ruleLeaf .identifier i]).inField .left,
        (t.tokenLeaf (i + 1)).inField .operator, (t.operandAt (i + 2)).inField .right])
  | .returning => t.statement i (i + 2) (t.node .returnStatement i (i + 2) [t.tokenLeaf i])
  | .plain b _ body =>
    let first := i + b.opening.length
    b.node t i (first + (ClosedStatement.kindsOf body).length)
    (ClosedStatement.nodesOf t first body)
  | .parted b _ body parts =>
    let first := i + b.opening.length
    let next := first + (ClosedStatement.kindsOf body).length
    b.node t i (next + (parts.kinds b).length)
      (ClosedStatement.nodesOf t first body ++ parts.nodes t b next)
  | .select parts =>
    let first := i + BlockKind.select.opening.length
    BlockKind.select.node t i (first + (parts.kinds .select).length) (parts.nodes t .select first)

/-- The trees of statements that begin at `i`. -/
def ClosedStatement.nodesOf (t : TokenStream) (i : Nat) : List ClosedStatement → List Node
  | [] => []
  | x :: rest => x.node t i :: ClosedStatement.nodesOf t (i + x.kinds.length) rest

def ClosedParts.nodes (t : TokenStream) (b : BlockKind) (i : Nat) : ClosedParts → List Node
  | .none => []
  | .last body =>
    let first := i + b.lastPart.opening.length
    [b.lastPart.node t i (first + (ClosedStatement.kindsOf body).length)
      (ClosedStatement.nodesOf t first body)]
  | .part body rest =>
    let first := i + b.part.opening.length
    let next := first + (ClosedStatement.kindsOf body).length
    b.part.node t i next (ClosedStatement.nodesOf t first body) :: rest.nodes t b next

end

-- ---------------------------------------------------------------------------
-- Nothing is wrong with a nest
-- ---------------------------------------------------------------------------

/-- Nothing is wrong with the node, nor with any below it. -/
def Node.IsClean (n : Node) : Prop := ∀ m ∈ n.preorder, m.flags = {}

section

variable {t : TokenStream} {i j : Nat}

theorem Node.IsClean.troubled {n : Node} (h : n.IsClean) : n.troubled = false := by
  rw [Node.troubled, h n n.mem_preorder_self]
  rfl

@[simp]
theorem Node.isClean_inField {n : Node} {f : Field} : (n.inField f).IsClean ↔ n.IsClean := by
  unfold IsClean
  rw [preorder_inField, preorder_eq, List.forall_mem_cons, List.forall_mem_cons, flags_inField]

@[simp]
theorem Node.isClean_leaf (kind : NodeKind) (span : Span) : (leaf kind span i).IsClean :=
  List.forall_mem_singleton.2 rfl

@[simp]
theorem TokenStream.isClean_ruleLeaf (r : Rule) : (t.ruleLeaf r i).IsClean := Node.isClean_leaf _ _

@[simp]
theorem TokenStream.isClean_tokenLeaf : (t.tokenLeaf i).IsClean := Node.isClean_leaf _ _

@[simp]
theorem TokenStream.isClean_node {r : Rule} {cs : List Node} :
    (t.node r i j cs).IsClean ↔ ∀ c ∈ cs, c.IsClean := by
  constructor
  · intro h c hc m hm
    refine h m ?_
    rw [Node.preorder_eq]
    exact List.mem_cons_of_mem _ (Node.mem_preorders.2 ⟨c, hc, hm⟩)
  · intro h
    have hnone : cs.any Node.troubled = false :=
      List.any_eq_false.2 fun c hc => by simp [(h c hc).troubled]
    rw [Node.IsClean, Node.preorder_eq, List.forall_mem_cons]
    refine ⟨?_, fun m hm => ?_⟩
    · show Flags.mk false false (cs.any Node.troubled) = {}
      rw [hnone]
    · obtain ⟨c, hc, hm⟩ := Node.mem_preorders.1 hm
      exact h c hc m hm

@[simp]
theorem TokenStream.isClean_operandAt : (t.operandAt i).IsClean := by
  rw [operandAt, isClean_node, List.forall_mem_singleton]
  unfold primaryAt
  split <;> simp

theorem isClean_wordLeaves (words : List Keyword) : ∀ n ∈ wordLeaves t words i, n.IsClean := by
  intro n hn
  obtain ⟨_, -, rfl⟩ := List.mem_map.1 hn
  exact Node.isClean_leaf _ _

theorem BlockKind.isClean_node {b : BlockKind} {inner : List Node} (h : ∀ n ∈ inner, n.IsClean) :
    (b.node t i j inner).IsClean := by
  have hheader : ∀ n ∈ b.headerNodes t (i + 1), n.IsClean := by
    cases b <;> simp [headerNodes]
  have hwords := isClean_wordLeaves (t := t) (i := j) b.opener.closer
  simp only [BlockKind.node, TokenStream.statement, TokenStream.isClean_node,
    List.forall_mem_singleton, List.forall_mem_append, List.forall_mem_cons]
  exact ⟨⟨⟨TokenStream.isClean_tokenLeaf, hheader⟩, h⟩, hwords⟩

theorem PartKind.isClean_node {p : PartKind} {body : List Node} (h : ∀ n ∈ body, n.IsClean) :
    (p.node t i j body).IsClean := by
  have hopening : ∀ n ∈ p.openingNodes t i, n.IsClean := by
    cases p <;> simp [openingNodes]
  have hpart : (t.node p.rule i j (p.openingNodes t i ++ body)).IsClean :=
    TokenStream.isClean_node.2 (List.forall_mem_append.2 ⟨hopening, h⟩)
  cases p <;> simpa [PartKind.node] using hpart

end

mutual

theorem ClosedStatement.isClean_node (t : TokenStream) (x : ClosedStatement) (i : Nat) :
    (x.node t i).IsClean :=
  match x with
  | .assignment | .returning => by simp [ClosedStatement.node, TokenStream.statement]
  | .plain _ _ body => BlockKind.isClean_node (ClosedStatement.isClean_nodes t body _)
  | .parted _ _ body parts =>
    BlockKind.isClean_node (List.forall_mem_append.2
      ⟨ClosedStatement.isClean_nodes t body _, ClosedParts.isClean_nodes t parts _ _⟩)
  | .select parts => BlockKind.isClean_node (ClosedParts.isClean_nodes t parts _ _)

theorem ClosedStatement.isClean_nodes (t : TokenStream) (xs : List ClosedStatement) (i : Nat) :
    ∀ n ∈ ClosedStatement.nodesOf t i xs, n.IsClean :=
  match xs with
  | [] => nofun
  | x :: rest => List.forall_mem_cons.2
      ⟨ClosedStatement.isClean_node t x i, ClosedStatement.isClean_nodes t rest _⟩

theorem ClosedParts.isClean_nodes (t : TokenStream) (parts : ClosedParts)
    (b : BlockKind) (i : Nat) :
    ∀ n ∈ parts.nodes t b i, n.IsClean :=
  match parts with
  | .none => nofun
  | .last body => List.forall_mem_singleton.2
      (PartKind.isClean_node (ClosedStatement.isClean_nodes t body _))
  | .part body rest => List.forall_mem_cons.2
      ⟨PartKind.isClean_node (ClosedStatement.isClean_nodes t body _),
        ClosedParts.isClean_nodes t rest b _⟩

end

end VisualBasic
