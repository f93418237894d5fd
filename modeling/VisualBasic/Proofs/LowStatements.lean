import VisualBasic.Grammar.Statement
import VisualBasic.Proofs.LowGrammar

/-!
# The height of statements

How high the nodes of statements are, links of chains not counted. The statements of a block are a
level down, so a block is a few nodes higher than what one level less gives, and no block adds more
than that: its parts are read at the level of the block itself, but hold nothing but statements and
expressions of the next.

Main results:

* `Stacks.blockStatement`, `Stacks.blockPart` — a block and a part of it.
* `Stacks.statement` — by induction on the levels that are left.
-/

namespace VisualBasic.Production.Stacks

variable {n : Nat} {r : Rule} {b k : Nat}

-- ---------------------------------------------------------------------------
-- Simple statements
-- ---------------------------------------------------------------------------

/-- A statement on a line of its own is a node over what the line holds. -/
theorem line {r' : Rule} {content : Parse Unit}
    (hcontent : Stacks n r' k Anything content) :
    Stacks n r b (Low (k + 2)) (Production.line r' content) :=
  node (seq hcontent endStatement)

/-- The value, if there is one, is a level down. -/
theorem valueStatement (r' : Rule) :
    Stacks n r b (Low (8 * (n - 1) + 4)) (Production.valueStatement r') :=
  line (seq take (test fun _ => ite done (childBelow expression (by omega))))

theorem labelStatement : Stacks n r b (Low (k + 2)) Production.labelStatement :=
  node (seq (field identifier) (expectMark _))

/-- Both sides of an assignment are a level down. -/
theorem assignmentStatement :
    Stacks n r b (Low (8 * (n - 1) + 4)) Production.assignmentStatement := by
  have hvalue {r : Rule} : Stacks n r (8 * (n - 1) + 2) Anything (do
      Production.field .operator Production.tokenLeaf
      Production.field .right (Production.nested Production.expression)) :=
    seq (field tokenLeaf) (fieldBelow expression (by omega))
  exact line (seq (fieldBelow leftHandSide (by omega)) (peek fun _ => ite hvalue (failThen _)))

theorem callStatement : Stacks n r b (Low (8 * (n - 1) + 4)) Production.callStatement :=
  line (seq (acceptWord _) (childBelow expression (by omega)))

/-- Whichever rule fits, a label, an assignment or a call, it is a line. -/
theorem expressionStatement :
    Stacks n r b (Low (8 * (n - 1) + 4)) Production.expressionStatement := by
  refine resolve _ fun x hx => ?_
  simp only [List.mem_cons, List.not_mem_nil, or_false] at hx
  obtain rfl | rfl | rfl := hx
  · exact labelStatement
  · exact assignmentStatement
  · exact callStatement

/-- The declarators stand in the statement itself, and their parts are a level down. -/
theorem dimStatement : Stacks n r b (Low (8 * (n - 1) + 4)) Production.dimStatement :=
  line (seq take (commaSeparated (declarator (Nat.le_refl _))))

theorem constDeclaration : Stacks n r b (Low (8 * (n - 1) + 4)) Production.constDeclaration := by
  refine line (seq (declarationPrefix (Nat.le_refl _)) (seq (expectWord _) (commaSeparated ?_)))
  exact seq (field identifier) (seq (optionalAsClause (Nat.le_refl _))
    (seq (expectMark _) (fieldBelow expression (by omega))))

theorem directive : Stacks n r b (Low (k + 2)) Production.directive := line take

theorem exitStatement : Stacks n r b (Low (k + 2)) Production.exitStatement :=
  line (seq take (peek fun _ => ite take (fail _)))

/-- Only leaves are below a `Continue`, whatever is continued. -/
theorem continueStatement : Stacks n r b (Low (k + 2)) Production.continueStatement := by
  refine line (seq take (peek fun kind => ?_))
  split
  case h_4 => exact fail _
  all_goals exact take

theorem goToStatement : Stacks n r b (Low (k + 2)) Production.goToStatement :=
  line (seq take (field (test fun _ => ite (ruleLeaf _) identifier)))

/-- The array is a chain of accesses: all of them are as high as the name in front. -/
theorem reDimStatement : Stacks n r b (Low (8 * (n - 1) + 4)) Production.reDimStatement := by
  refine line (seq take (seq (acceptWord _) (commaSeparated ?_)))
  -- The bound on the chain is that of its first link, so the accesses add nothing to it.
  refine bind (identifier (h := 1)) fun first hfirst =>
    bind (iterate hfirst fun array harray => ?_) fun x hx => ?_
  · exact test fun _ => ite (some (memberAccess harray)) none
  · exact seq (attachLink (Nat.le_trans hx (by omega))) (childBelow arrayBounds (by omega))

/-- An event and its handler, each an expression of the next level. -/
theorem handlerStatement (r' : Rule) :
    Stacks n r b (Low (8 * (n - 1) + 4)) (Production.handlerStatement r') :=
  line (seq take (seq (fieldBelow expression (by omega)) (seq (expectMark _)
    (fieldBelow expression (by omega)))))

theorem raiseEventStatement : Stacks n r b (Low (8 * (n - 1) + 4)) Production.raiseEventStatement :=
  line (seq take
    (seq (field identifier) (test fun _ => ite (fieldBelow arguments (by omega)) done)))

-- ---------------------------------------------------------------------------
-- Lines of block statements
-- ---------------------------------------------------------------------------

/-- What a case is compared with, or a range of values, is a level down. -/
theorem caseClause : Stacks n r b (Low (8 * (n - 1) + 2)) Production.caseClause := by
  have hrest {r : Rule} : Stacks n r (8 * (n - 1)) Anything (do
      if (← Production.peek).isRelational then
        Production.child (Production.ruleLeaf .relationalOperator)
        Production.child (Production.nested Production.expression)
      else
        Production.child (Production.nested Production.expression)
        if ← Production.acceptWord .kwTo then
          Production.child (Production.nested Production.expression)) := by
    refine peek fun _ => ite (seq (child (ruleLeaf _)) (childBelow expression (by omega))) ?_
    exact seq (childBelow expression (by omega)) (bind (acceptWord _) fun _ _ =>
      ite (childBelow expression (by omega)) done)
  exact node (bind (acceptWord _) fun _ _ => ite (peek fun _ => ite hrest (failThen _)) hrest)

/-- The condition of a loop stands in the loop, before or behind its statements. -/
theorem optionalLoopCondition : Stacks n r (8 * (n - 1) + 3) Anything
    Production.optionalLoopCondition :=
  test fun _ => ite (seq take (fieldBelow expression (by omega))) done

/-- Behind the `Next` there is at most the name of the variable. -/
theorem finishNext : Stacks n r (8 * (n - 1) + 3) Anything Production.finishNext :=
  bind (closeBlock _) fun _ _ => ite
    (peek fun _ => when (child (ruleLeaf _)) (recovering endStatement)) done

/-- The type of the exception and the filter are a level down. -/
theorem catchHeader : Stacks n r (8 * (n - 1) + 2) Anything Production.catchHeader := by
  have hfilter : Stacks n r (8 * (n - 1) + 2) Anything (do
      if ← Production.acceptWord .kwWhen then
        Production.field .filter (Production.nested Production.expression)) :=
    bind (acceptWord _) fun _ _ => ite (fieldBelow expression (by omega)) done
  refine peek fun _ => test fun _ => ite (seq (field identifier) ?_) hfilter
  exact bind (acceptWord _) fun _ _ => when (fieldBelow (type true) (by omega)) hfilter

/-- What a `Using` declares stands in it, and what it only uses is an expression of the next
level. -/
theorem resources : Stacks n r (8 * (n - 1) + 3) Anything Production.resources := by
  refine peek fun _ => peekAhead fun _ => peekAhead fun _ => ite (commaSeparated ?_)
    (fieldBelow expression (by omega))
  exact seq (field identifier) (seq (optionalAsClause (by omega)) (optionalValue (by omega) _))

-- ---------------------------------------------------------------------------
-- Blocks of statements
-- ---------------------------------------------------------------------------

section

variable {statement : Parse Node} (h : ∀ {n r b}, Stacks n r b (Low (8 * n + 1)) statement)

include h

/-- The statements of a block are a level down, so they may stand in any node that is as high as
eight nodes for each level but one. -/
theorem statements (hb : 8 * (n - 1) ≤ b) :
    Stacks n r b Anything (Production.statements statement) :=
  body (childBelow h (by omega))

/-- A block is a node over its header, its statements and its closing line, none of which are
higher than what the next level gives and three nodes more. -/
theorem blockStatement {r' : Rule} {opener : Keyword} {header closing : Parse Unit}
    (hheader : Stacks n r' (8 * (n - 1) + 3) Anything header)
    (hclosing : Stacks n r' (8 * (n - 1) + 3) Anything closing) :
    Stacks n r b (Low (8 * (n - 1) + 5))
      (Production.blockStatement statement r' opener header closing) :=
  node (seq (openBlock _) (seq take (seq hheader (seq endStatement
    (seq (statements h (by omega)) hclosing)))))

/-- A part of a block is one node lower than the block may be, for it stands in the block. -/
theorem blockPart {r' : Rule} {header : Parse Unit}
    (hheader : Stacks n r' (8 * (n - 1) + 2) Anything header) :
    Stacks n r b (Low (8 * (n - 1) + 4)) (Production.blockPart statement r' header) :=
  node (seq (recovering (seq hheader endStatement)) (statements h (by omega)))

theorem elseIfClause : Stacks n r b (Low (8 * (n - 1) + 4)) (Production.elseIfClause statement) :=
  blockPart h (seq take (seq (acceptWord _) (seq (fieldBelow expression (by omega))
    (seq (acceptWord _) done))))

theorem elseClause : Stacks n r b (Low (8 * (n - 1) + 4)) (Production.elseClause statement) :=
  blockPart h take

/-- The branches of an `If` are parts of it. -/
theorem ifBlock : Stacks n r (8 * (n - 1) + 3) Anything (Production.ifBlock statement) := by
  refine seq (statements h (by omega)) (seq (repeatWhile (peek fun kind => ?_)) (finishBlock _))
  split
  · exact round (child (elseIfClause h))
  · exact peekAhead fun _ => ite (round (child (elseIfClause h))) (round (field (elseClause h)))
  · exact done

/-- The branches on a single line are statements of the next level, which the count of such
lines does not change. -/
theorem ifLine : Stacks n r (8 * (n - 1) + 3) Anything (Production.ifLine statement) := by
  -- Counting the lines that are being read attaches nothing.
  have hcount (count : Nat → Nat) : Stacks n r (8 * (n - 1) + 3) Anything
      (modify fun s => { s with singleLineIfs := count s.singleLineIfs } : Parse Unit) :=
    of_aside ⟨fun _ _ => ⟨rfl, rfl⟩, fun _ _ _ _ _ => trivial⟩
  refine seq (hcount (· + 1)) (seq (fieldBelow h (by omega)) (bind (acceptWord _) fun _ _ => ?_))
  exact when (fieldBelow h (by omega)) (hcount (· - 1))

/-- An `If` is a block or a line, and which of them is seen behind the condition. -/
theorem ifStatement : Stacks n r b (Low (8 * (n - 1) + 5)) (Production.ifStatement statement) := by
  have hbranches {r : Rule} : Stacks n r (8 * (n - 1) + 3) Anything (do
      if (← Production.peek).endsLine then
        Production.openBlock .kwIf
        Production.endStatement
        Production.ifBlock statement
      else Production.ifLine statement) :=
    peek fun _ => ite (seq (openBlock _) (seq endStatement (ifBlock h)))
      (ifLine h)
  refine node (seq (expectWord _) (seq (fieldBelow expression (by omega))
    (bind (acceptWord _) fun _ _ => ?_)))
  exact ite hbranches (test fun _ => ite hbranches (failThen _))

theorem caseBlock : Stacks n r b (Low (8 * (n - 1) + 4)) (Production.caseBlock statement) :=
  blockPart h (seq take (commaSeparated (childBelow caseClause (by omega))))

theorem caseElseBlock : Stacks n r b (Low (8 * (n - 1) + 4)) (Production.caseElseBlock statement) :=
  blockPart h (seq take take)

/-- Between the cases there may be statements that belong to none. -/
theorem selectStatement :
    Stacks n r b (Low (8 * (n - 1) + 5)) (Production.selectStatement statement) := by
  have hitem {r : Rule} : Stacks n r (8 * (n - 1) + 3) Anything (do
      if ← Production.atBoundary then return false
      Production.child (Production.nested statement)
      return true) :=
    test fun _ => ite done (round (childBelow h (by omega)))
  have hcases {r : Rule} : Stacks n r (8 * (n - 1) + 3) Anything (do
      if (← Production.peekAhead 1) == .keyword .kwElse then
        Production.child (Production.caseElseBlock statement)
      else Production.child (Production.caseBlock statement)
      return true) :=
    peekAhead fun _ => ite (round (child (caseElseBlock h))) (round (child (caseBlock h)))
  refine node (seq (openBlock _) (seq take (seq (acceptWord _)
    (seq (fieldBelow expression (by omega)) ?_))))
  exact seq endStatement (seq (repeatWhile (test fun _ => ite hcases hitem)) (finishBlock _))

theorem whileStatement :
    Stacks n r b (Low (8 * (n - 1) + 5)) (Production.whileStatement statement) :=
  blockStatement h (fieldBelow expression (by omega)) (finishBlock _)

/-- The condition may stand at either end of the loop. -/
theorem doStatement : Stacks n r b (Low (8 * (n - 1) + 5)) (Production.doStatement statement) :=
  blockStatement h optionalLoopCondition (bind (closeBlock _) fun _ _ =>
    ite (recovering (seq optionalLoopCondition endStatement)) done)

/-- The bounds and the step of the loop are expressions of the next level. -/
theorem forStatement : Stacks n r b (Low (8 * (n - 1) + 5))
    (Production.forStatement statement) := by
  refine blockStatement h (seq (field identifier) (seq (optionalAsClause (by omega)) ?_))
    finishNext
  refine seq (expectMark _) (seq (fieldBelow expression (by omega)) (seq (expectWord _) ?_))
  exact seq (fieldBelow expression (by omega)) (bind (acceptWord _) fun _ _ =>
    ite (fieldBelow expression (by omega)) done)

theorem forEachStatement :
    Stacks n r b (Low (8 * (n - 1) + 5)) (Production.forEachStatement statement) := by
  refine blockStatement h (seq take (seq (field identifier) ?_)) finishNext
  exact seq (optionalAsClause (by omega)) (seq (expectWord _) (fieldBelow expression (by omega)))

theorem catchBlock : Stacks n r b (Low (8 * (n - 1) + 4)) (Production.catchBlock statement) :=
  blockPart h (seq take catchHeader)

theorem finallyBlock : Stacks n r b (Low (8 * (n - 1) + 4)) (Production.finallyBlock statement) :=
  blockPart h take

/-- What is caught and what is done at last are parts of the block. -/
theorem tryStatement : Stacks n r b (Low (8 * (n - 1) + 5))
    (Production.tryStatement statement) := by
  refine blockStatement h done (seq (repeatWhile (peek fun kind => ?_)) (finishBlock _))
  split
  · exact round (child (catchBlock h))
  · exact round (child (finallyBlock h))
  · exact done

theorem withStatement : Stacks n r b (Low (8 * (n - 1) + 5)) (Production.withStatement statement) :=
  blockStatement h (fieldBelow expression (by omega)) (finishBlock _)

theorem usingStatement : Stacks n r b (Low (8 * (n - 1) + 5))
    (Production.usingStatement statement) :=
  blockStatement h resources (finishBlock _)

theorem syncLockStatement :
    Stacks n r b (Low (8 * (n - 1) + 5)) (Production.syncLockStatement statement) :=
  blockStatement h (fieldBelow expression (by omega)) (finishBlock _)

/-- The word at its beginning tells which statement it is; whichever it is, it is no higher than
a block. -/
theorem wordStatement (word : Keyword) :
    Stacks n r b (Low (8 * (n - 1) + 5)) (Production.wordStatement statement word) := by
  unfold Production.wordStatement
  split
  case h_5 =>
    -- An `If` in front of a parenthesis may also be a call.
    refine peekAhead fun _ => ite (resolve _ fun x hx => ?_) (ifStatement h)
    simp only [List.mem_cons, List.not_mem_nil, or_false] at hx
    obtain rfl | rfl := hx
    · exact callStatement.low (by omega)
    · exact ifStatement h
  case h_6 => exact selectStatement h
  case h_7 => exact whileStatement h
  case h_8 => exact doStatement h
  case h_9 => exact peekAhead fun _ => ite (forEachStatement h) (forStatement h)
  case h_10 => exact tryStatement h
  case h_11 => exact withStatement h
  case h_12 => exact usingStatement h
  case h_13 => exact syncLockStatement h
  case h_1 | h_2 => exact dimStatement.low (by omega)
  case h_3 => exact constDeclaration.low (by omega)
  case h_4 => exact callStatement.low (by omega)
  case h_14 | h_15 => exact (valueStatement _).low (by omega)
  case h_16 => exact exitStatement
  case h_17 => exact continueStatement
  case h_18 => exact goToStatement
  case h_19 => exact reDimStatement.low (by omega)
  case h_20 | h_21 => exact (handlerStatement _).low (by omega)
  case h_22 => exact raiseEventStatement.low (by omega)
  case h_23 => exact expressionStatement.low (by omega)

end

/-- A statement is the wrapper around one of the kinds, or an error region. -/
theorem statementOf {kind : Parse Node} (h : ∀ {n r b}, Stacks n r b (Low (8 * n - 3)) kind) :
    Stacks n r b (Low (8 * n + 1)) (Production.statementOf kind) :=
  orRecover (bind h fun _ hx => (wrap hx).low (by omega))

/-- By induction on the levels that are left: the statements of a block have one less. -/
theorem statementKindUpTo (room : Nat) :
    Stacks n r b (Low (8 * n - 3)) (Production.statementKindUpTo room) := by
  induction room generalizing n r b with
  | zero => exact tooDeep
  | succ room ih =>
    -- Where no level is left nothing is given, so there is one to spare for what is given here.
    refine checkDepth fun m hm => peek fun kind => ?_
    split
    · exact (ruleLeaf (h := 0) _).low (by omega)
    · exact (ruleLeaf (h := 0) _).low (by omega)
    · exact (directive (k := 0)).low (by omega)
    · exact (wordStatement (statementOf ih) _).low (by omega)
    · exact expressionStatement.low (by omega)

/-- Every statement is low, wherever it begins. -/
theorem statement : Stacks n r b (Low (8 * n + 1)) Production.statement :=
  of_runs fun env _ => ⟨_, statementOf (statementKindUpTo env.room), rfl⟩

end VisualBasic.Production.Stacks
