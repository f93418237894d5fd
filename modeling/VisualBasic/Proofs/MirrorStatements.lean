import VisualBasic.Proofs.MirrorGrammar
import VisualBasic.Proofs.Speculation

/-!
# Statements, built in two ways

Statements are put together alike, however nodes are kept. Where something is tried, what it has
done when it fails is undone by going back.

Main results:

* `Undone.of_tried` — what is tried leaves the node under construction as it was.
* `Mirrors.statementKindUpTo` — by induction on the levels that are left.
* `Mirrors.statement` — a statement, or the error region over a line that does not hold one.
-/

namespace VisualBasic.Production

-- ---------------------------------------------------------------------------
-- What is tried
-- ---------------------------------------------------------------------------

/-- What is tried with trees as values is undone if it fails; that it is so in a vector, too, is
what the mirrors are for. -/
theorem Undone.of_tried {p : Parse Node} (h : Tried p) : Undone p := by
  intro env s f s' hrun
  have hsame := h.aside.sameNode env s
  rw [hrun] at hsame
  exact ⟨h.undone hrun, hsame.children⟩

namespace Mirrors

variable {B N : Type} [Builder B N]

-- ---------------------------------------------------------------------------
-- Statements of one line
-- ---------------------------------------------------------------------------

/-- A node whose last part is the end of its line. -/
theorem line (rule : Rule) {content : Production B Unit} {content' : Parse Unit}
    (h : Does none content content') :
    Produces none (Production.line rule content) (Production.line rule content') :=
  .node _ (seq h endStatement)

/-- A word and perhaps a value behind it. -/
theorem valueStatement (rule : Rule) :
    Produces none (Production.valueStatement rule : Production B N)
    (Production.valueStatement rule) :=
  line _ (seq take (andThen atTerminator fun _ => ite (fun _ => result)
    fun _ => childNested expression))

/-- A name and a colon. -/
theorem labelStatement :
    Produces none (Production.labelStatement : Production B N) Production.labelStatement :=
  .node _ (seq (field _ identifier) (expectMark _))

/-- The target, the operator and the value, each in its role. -/
theorem assignmentStatement :
    Produces none (Production.assignmentStatement : Production B N)
      Production.assignmentStatement := by
  have hvalue : Does none
      (do
        Production.field .operator Production.tokenLeaf
        Production.field .right (Production.nested Production.expression) : Production B Unit)
      (do
        Production.field .operator Production.tokenLeaf
        Production.field .right (Production.nested Production.expression)) :=
    seq (field _ tokenLeaf) (fieldNested _ expression)
  refine line _ (seq (fieldNested _ leftHandSide) (peek fun _ => ite (fun _ => hvalue) fun _ => ?_))
  exact seq (fail _) hvalue

/-- An expression, perhaps behind `Call`. -/
theorem callStatement :
    Produces none (Production.callStatement : Production B N) Production.callStatement :=
  line _ (seq (acceptWord _) (childNested expression))

/-- Whether a rule may apply is asked of nothing that is built. -/
theorem tryNextOf {a : Ambiguity} {viable : Env → State B → Bool} {viable' : Env → State → Bool}
    {p : Production B N} {q : Parse Node} {rest : List (Alternative B N)} {rest' : List Alternative}
    (hviable : ∀ env s t, s.Agrees t → viable' env t = viable env s) (hp : Produces none p q)
    (hq : Tried q) (hrest : ∀ best, Produces none (firstFit a best rest) (firstFit a best rest'))
    (best : Option Failure) :
    Produces none (firstFit a best ({ viable, production := p } :: rest))
      (firstFit a best ({ viable := viable', production := q } :: rest')) :=
  .tryNext hviable hp (.of_tried hq) hrest

/-- A choice is mirrored if the search among its rules is, with whatever has failed before. -/
theorem resolve {a : Ambiguity} {alternatives : List (Alternative B N)}
    {alternatives' : List Alternative}
    (h : ∀ best, Produces none (firstFit a best alternatives) (firstFit a best alternatives')) :
    Produces none (Production.resolve a alternatives) (Production.resolve a alternatives') :=
  checked (h none)

/-- The three rules for a statement that no word announces are tried in the same order. -/
theorem expressionStatement :
    Produces none (Production.expressionStatement : Production B N)
      Production.expressionStatement := by
  refine resolve (tryNextOf (fun _ _ _ hst => hst.elim fun _ _ _ _ _ _ _ => rfl) labelStatement
    .labelStatement ?_)
  refine tryNextOf (fun _ _ _ _ => rfl) assignmentStatement .assignmentStatement ?_
  exact tryNextOf (fun _ _ _ _ => rfl) callStatement .callStatement (.noneFits _)

/-- Variables with commas between them. -/
theorem dimStatement :
    Produces none (Production.dimStatement : Production B N) Production.dimStatement :=
  line _ (seq take (commaSeparated declarator (.of_steps Steps.declarator)))

/-- Constants with commas between them. The name of each is read for sure, so the loop ends. -/
theorem constDeclaration :
    Produces none (Production.constDeclaration : Production B N) Production.constDeclaration := by
  have hclimbs : Climbs (do
      Production.field .name Production.identifier
      Production.optionalAsClause
      Production.expectMark .equal
      Production.field .value (Production.nested Production.expression)) :=
    (Climbs.of_steps (Steps.field .name Builds.identifier)).bind fun _ =>
      (Climbs.of_steps Steps.optionalAsClause).bind fun _ =>
        (Climbs.of_steps (Steps.expectMark .equal)).bind fun _ =>
          .of_steps (Steps.field .value Builds.expression.nested)
  refine line _ (seq declarationPrefix (seq (expectWord _) (commaSeparated ?_ hclimbs)))
  exact seq (field _ identifier)
    (seq optionalAsClause (seq (expectMark _) (fieldNested _ expression)))

/-- A single token and the end of its line. -/
theorem directive : Produces none (Production.directive : Production B N) Production.directive :=
  line _ take

/-- Both look at the same word for what is left. -/
theorem exitStatement :
    Produces none (Production.exitStatement : Production B N) Production.exitStatement :=
  line _ (seq take (peek fun _ => ite (fun _ => take) fun _ => fail _))

/-- Both look at the same word for the loop. -/
theorem continueStatement :
    Produces none (Production.continueStatement : Production B N) Production.continueStatement := by
  refine line _ (seq take (peek fun kind => ?_))
  split
  case h_4 => exact fail _
  all_goals exact take

/-- A label is a leaf, whether it is a name or a number. -/
theorem goToStatement :
    Produces none (Production.goToStatement : Production B N) Production.goToStatement :=
  line _ (seq take (field _ (ifAt (ruleLeaf _) identifier)))

/-- The array is in hand while accesses are put around it, and then it is attached. -/
theorem reDimStatement :
    Produces none (Production.reDimStatement : Production B N) Production.reDimStatement := by
  have hclimbs := Climbs.of_steps Steps.newBounds
  refine line _ (seq take
    (seq (acceptWord _) (commaSeparated (.bind identifier fun i n k hk => ?_) hclimbs)))
  obtain rfl : k = some (i, n) := hk
  refine .bind (iterateNode (fun _ _ => ifAt (mapSome memberAccess) nothing) fun inner => ?_)
    fun j m k hk => ?_
  · exact .ifAt (by decide) (.some (Phrase.progresses_memberAccess inner)) (.pure nofun)
  · obtain rfl : k = some (j, m) := hk
    exact seq (.attachIn _) (childNested arrayBounds)

/-- An event and its handler, with a comma between them. -/
theorem handlerStatement (rule : Rule) :
    Produces none (Production.handlerStatement rule : Production B N)
    (Production.handlerStatement rule) :=
  line _ (seq take (seq (fieldNested _ expression) (seq (expectMark _) (fieldNested _ expression))))

/-- An event and perhaps its arguments. -/
theorem raiseEventStatement :
    Produces none (Production.raiseEventStatement : Production B N)
      Production.raiseEventStatement :=
  line _ (seq take (seq (field _ identifier) (ifAt (fieldNested _ arguments) result)))

-- ---------------------------------------------------------------------------
-- Blocks of statements
-- ---------------------------------------------------------------------------

section

variable {statement : Production B N} {statement' : Parse Node}

/-- What is known of the statements in a block. -/
structure OfStatement (statement : Production B N) (statement' : Parse Node) : Prop where
  isStatement : IsStatement statement'
  moves : Builds .loud 1 true statement'
  mirrors : Produces none statement statement'

/-- The statements of a block. A statement reads a token, so the loop over them ends. -/
theorem statements (h : OfStatement statement statement') :
    Does none (Production.statements statement) (Production.statements statement') :=
  body (childNested h.mirrors) (Steps.child h.moves.nested)

/-- A block needs mirrors of its opening line and of what closes it; the statements are given. -/
theorem blockStatement (h : OfStatement statement statement') (rule : Rule) (opener : Keyword)
    {header closing : Production B Unit} {header' closing' : Parse Unit}
    (hheader : Does none header header')
    (hclosing : Does none closing closing') :
    Produces none (Production.blockStatement statement rule opener header closing)
      (Production.blockStatement statement' rule opener header' closing') := by
  refine .node _ (seq (openBlock _) (seq take (seq hheader (seq endStatement ?_))))
  exact seq (statements h) hclosing

/-- A part of a block: its opening line may be broken, and its statements follow. -/
theorem blockPart (h : OfStatement statement statement') (rule : Rule) {header : Production B Unit}
    {header' : Parse Unit} (hheader : Does none header header') :
    Produces none (Production.blockPart statement rule header)
    (Production.blockPart statement' rule header') :=
  .node _ (seq (.recovering (seq hheader endStatement)) (statements h))

-- ---------------------------------------------------------------------------
-- If
-- ---------------------------------------------------------------------------

/-- The condition is between words of which both may be missing. -/
theorem elseIfClause (h : OfStatement statement statement') :
    Produces none (Production.elseIfClause statement) (Production.elseIfClause statement') := by
  refine blockPart h _ (seq take (seq (acceptWord _) (seq (fieldNested _ expression) ?_)))
  exact seq (acceptWord _) result

/-- The word alone opens the part. -/
theorem elseClause (h : OfStatement statement statement') :
    Produces none (Production.elseClause statement) (Production.elseClause statement') :=
  blockPart h _ take

/-- Which part comes next is told by one word, or by two. -/
theorem ifPart (h : OfStatement statement statement') :
    Does none (Production.ifPart statement) (Production.ifPart statement') := by
  refine peek fun kind => ?_
  split
  · exact seq (child (elseIfClause h)) result
  · exact peekAhead fun _ => ite (fun _ => seq (child (elseIfClause h)) result) fun _ =>
      seq (field _ (elseClause h)) result
  · exact result

/-- The statements, the other parts and the closing line of a block `If`. -/
theorem ifBlock (h : OfStatement statement statement') :
    Does none (Production.ifBlock statement) (Production.ifBlock statement') := by
  refine seq (statements h) (seq (repeatWhile (ifPart h) ?_) (finishBlock _))
  exact .ofReady (Passage.progresses_ifPart h.isStatement) (.pure nofun)

/-- What counts the `If`s on a single line. -/
theorem countIfs {h : Hand N} (count : Nat → Nat) : Does h
    (modify fun s => { s with singleLineIfs := count s.singleLineIfs } : Production B Unit)
    (modify fun s => { s with singleLineIfs := count s.singleLineIfs }) :=
  .change (fun _ _ => rfl) (fun _ _ => rfl)
    (fun _ _ _ hst => hst.elim fun _ _ _ _ _ _ _ => ⟨rfl, rfl, rfl, rfl, rfl⟩) (fun _ _ => rfl)
    (fun _ _ => rfl) fun _ _ ht => ⟨Nat.le_refl _, ht⟩

/-- The count of `If`s on a single line goes up and down in both. -/
theorem ifLine (h : OfStatement statement statement') :
    Does none (Production.ifLine statement) (Production.ifLine statement') := by
  refine seq (countIfs (· + 1)) (seq (fieldNested _ h.mirrors) (ifAccept ?_ (countIfs (· - 1))))
  exact seq (fieldNested _ h.mirrors) (countIfs (· - 1))

/-- A block or a line; both see what stands behind `Then`. -/
theorem ifStatement (h : OfStatement statement statement') :
    Produces none (Production.ifStatement statement) (Production.ifStatement statement') := by
  have hbranches : Does none
      (do
        if (← Production.peek).endsLine then
          Production.openBlock .kwIf
          Production.endStatement
          Production.ifBlock statement
        else Production.ifLine statement)
      (do
        if (← Production.peek).endsLine then
          Production.openBlock .kwIf
          Production.endStatement
          Production.ifBlock statement'
        else Production.ifLine statement') :=
    peek fun _ => ite (fun _ => seq (openBlock _) (seq endStatement (ifBlock h))) fun _ => ifLine h
  refine .node _ (seq (expectWord _) (seq (fieldNested _ expression) (ifAccept hbranches ?_)))
  exact andThen atTerminator fun _ => ite (fun _ => hbranches) fun _ => seq (fail _) hbranches

-- ---------------------------------------------------------------------------
-- Select Case
-- ---------------------------------------------------------------------------

/-- A comparison, a range or a value. -/
theorem caseClause :
    Produces none (Production.caseClause : Production B N) Production.caseClause := by
  have hvalue : Does none
      (do
        if (← Production.peek).isRelational then
          Production.child (Production.ruleLeaf .relationalOperator)
          Production.child (Production.nested Production.expression)
        else
          Production.child (Production.nested Production.expression)
          if ← Production.acceptWord .kwTo then
            Production.child (Production.nested Production.expression) : Production B Unit)
      (do
        if (← Production.peek).isRelational then
          Production.child (Production.ruleLeaf .relationalOperator)
          Production.child (Production.nested Production.expression)
        else
          Production.child (Production.nested Production.expression)
          if ← Production.acceptWord .kwTo then
            Production.child (Production.nested Production.expression)) := by
    refine peek fun _ => ite (fun _ => seq (child (ruleLeaf _)) (childNested expression))
      fun _ => ?_
    exact seq (childNested expression) (ifAccept (childNested expression) result)
  refine .node _ (ifAccept (peek fun _ => ite (fun _ => hvalue) fun _ => ?_) hvalue)
  exact seq (fail _) hvalue

/-- The clauses of a `Case`, with commas between them. -/
theorem caseBlock (h : OfStatement statement statement') :
    Produces none (Production.caseBlock statement) (Production.caseBlock statement') :=
  blockPart h _ (seq take (childrenByComma caseClause Builds.caseClause))

/-- Two words open the last part of a choice. -/
theorem caseElseBlock (h : OfStatement statement statement') :
    Produces none (Production.caseElseBlock statement) (Production.caseElseBlock statement') :=
  blockPart h _ (seq take take)

/-- A case, or a statement in front of the first one. -/
theorem selectPart (h : OfStatement statement statement') :
    Does none (Production.selectPart statement) (Production.selectPart statement') := by
  refine ifAt (peekAhead fun _ => ite (fun _ => ?_) fun _ => ?_) (andThen atBoundary fun _ => ?_)
  · exact seq (child (caseElseBlock h)) result
  · exact seq (child (caseBlock h)) result
  · exact ite (fun _ => result) fun _ => seq (childNested h.mirrors) result

/-- A choice among cases. -/
theorem selectStatement (h : OfStatement statement statement') :
    Produces none (Production.selectStatement statement)
    (Production.selectStatement statement') := by
  refine .node _ (seq (openBlock _)
    (seq take (seq (acceptWord _) (seq (fieldNested _ expression) ?_))))
  refine seq endStatement (seq (repeatWhile (selectPart h) ?_) (finishBlock _))
  refine .ifAt (by decide) (.of_steps (Passage.steps_caseRound h.isStatement)) ?_
  exact .ifBoundary (.pure nofun) (.round (Steps.child h.moves.nested))

-- ---------------------------------------------------------------------------
-- Loops
-- ---------------------------------------------------------------------------

/-- A loop with its condition in front. -/
theorem whileStatement (h : OfStatement statement statement') :
    Produces none (Production.whileStatement statement) (Production.whileStatement statement') :=
  blockStatement h _ _ (fieldNested _ expression) (finishBlock _)

/-- The condition of a `Do` loop, if it stands here. -/
theorem optionalLoopCondition :
    Does none (Production.optionalLoopCondition : Production B Unit)
      Production.optionalLoopCondition :=
  ifTest (fun _ _ _ hst => hst.elim fun _ _ _ _ _ _ _ => rfl)
  (seq take (fieldNested _ expression)) result

/-- The condition may also stand behind the closing word, where it is lost if it is broken. -/
theorem doStatement (h : OfStatement statement statement') :
    Produces none (Production.doStatement statement) (Production.doStatement statement') := by
  refine blockStatement h _ _ optionalLoopCondition (closing _ (.recovering ?_))
  exact seq optionalLoopCondition endStatement

/-- The variable is a leaf behind the closing word. -/
theorem finishNext :
    Does none (Production.finishNext : Production B Unit) Production.finishNext := by
  refine closing _ (peek fun _ => ite (fun _ => ?_) fun _ => .recovering endStatement)
  exact seq (child (ruleLeaf _)) (.recovering endStatement)

/-- A loop over numbers, with a step or without. -/
theorem forStatement (h : OfStatement statement statement') :
    Produces none (Production.forStatement statement) (Production.forStatement statement') := by
  refine blockStatement h _ _ (seq (field _ identifier)
    (seq optionalAsClause (seq (expectMark _) ?_)))
    finishNext
  refine seq (fieldNested _ expression) (seq (expectWord _) (seq (fieldNested _ expression) ?_))
  exact ifAccept (fieldNested _ expression) result

/-- A loop over what a collection holds. -/
theorem forEachStatement (h : OfStatement statement statement') :
    Produces none (Production.forEachStatement statement)
    (Production.forEachStatement statement') := by
  refine blockStatement h _ _ (seq take (seq (field _ identifier) (seq optionalAsClause ?_)))
    finishNext
  exact seq (expectWord _) (fieldNested _ expression)

-- ---------------------------------------------------------------------------
-- Try
-- ---------------------------------------------------------------------------

/-- The variable, its type and the condition may all be missing. -/
theorem catchHeader :
    Does none (Production.catchHeader : Production B Unit) Production.catchHeader := by
  have hfilter : Does none
      (do
        if ← Production.acceptWord .kwWhen then
          Production.field .filter (Production.nested Production.expression) : Production B Unit)
      (do
        if ← Production.acceptWord .kwWhen then
          Production.field .filter (Production.nested Production.expression)) :=
    ifAccept (fieldNested _ expression) result
  refine peek fun _ => andThen (atWord _) fun _ => ite (fun _ => ?_) fun _ => hfilter
  exact seq (field _ identifier) (ifAccept (seq (fieldNested _ (type true)) hfilter) hfilter)

/-- One kind of failure that is caught. -/
theorem catchBlock (h : OfStatement statement statement') :
    Produces none (Production.catchBlock statement) (Production.catchBlock statement') :=
  blockPart h _ (seq take catchHeader)

/-- What is done in any case. -/
theorem finallyBlock (h : OfStatement statement statement') :
    Produces none (Production.finallyBlock statement) (Production.finallyBlock statement') :=
  blockPart h _ take

/-- Which part comes next is told by a word. -/
theorem tryPart (h : OfStatement statement statement') :
    Does none (Production.tryPart statement) (Production.tryPart statement') := by
  refine peek fun kind => ?_
  split
  · exact seq (child (catchBlock h)) result
  · exact seq (child (finallyBlock h)) result
  · exact result

/-- The statements that are tried and the parts behind them. -/
theorem tryStatement (h : OfStatement statement statement') :
    Produces none (Production.tryStatement statement) (Production.tryStatement statement') := by
  refine blockStatement h _ _ result (seq (repeatWhile (tryPart h) ?_) (finishBlock _))
  exact .ofReady (Passage.progresses_tryPart h.isStatement) (.pure nofun)

-- ---------------------------------------------------------------------------
-- With, Using, SyncLock
-- ---------------------------------------------------------------------------

/-- A block about one object. -/
theorem withStatement (h : OfStatement statement statement') :
    Produces none (Production.withStatement statement) (Production.withStatement statement') :=
  blockStatement h _ _ (fieldNested _ expression) (finishBlock _)

/-- New variables with commas between them, or a value. -/
theorem resources : Does none (Production.resources : Production B Unit) Production.resources := by
  refine peek fun _ => peekAhead fun _ => peekAhead fun _ =>
    ite (fun _ => commaSeparated ?_ ?_) fun _ => fieldNested _ expression
  · exact seq (field _ identifier) (seq optionalAsClause (optionalValue _))
  · exact (Climbs.of_steps (Steps.field .resource Builds.identifier)).bind fun _ =>
      (Climbs.of_steps Steps.optionalAsClause).bind fun _ => .of_steps (Steps.optionalValue .value)

/-- A block with resources of its own. -/
theorem usingStatement (h : OfStatement statement statement') :
    Produces none (Production.usingStatement statement) (Production.usingStatement statement') :=
  blockStatement h _ _ resources (finishBlock _)

/-- A block under a lock. -/
theorem syncLockStatement (h : OfStatement statement statement') :
    Produces none (Production.syncLockStatement statement)
    (Production.syncLockStatement statement') :=
  blockStatement h _ _ (fieldNested _ expression) (finishBlock _)

end

-- ---------------------------------------------------------------------------
-- The choice of the statement
-- ---------------------------------------------------------------------------

/-- The word that announces a statement picks the same production in both. -/
theorem wordStatement {room : Nat} (h : OfStatement (B := B) (inBlock room) (inBlock room))
    (word : Keyword) :
    Produces none (Production.wordStatement (inBlock room) word : Production B N)
      (Production.wordStatement (inBlock room) word) := by
  unfold Production.wordStatement
  split
  case h_5 =>
    refine peekAhead fun _ => ite (fun _ => resolve ?_) fun _ => ifStatement h
    refine tryNextOf (fun _ _ _ _ => rfl) callStatement .callStatement ?_
    exact tryNextOf (fun _ _ _ _ => rfl) (ifStatement h) (.ifStatement room) (.noneFits _)
  case h_9 => exact peekAhead fun _ => ite (fun _ => forEachStatement h) fun _ => forStatement h
  case h_6 => exact selectStatement h
  case h_7 => exact whileStatement h
  case h_8 => exact doStatement h
  case h_10 => exact tryStatement h
  case h_11 => exact withStatement h
  case h_12 => exact usingStatement h
  case h_13 => exact syncLockStatement h
  case h_1 | h_2 => exact dimStatement
  case h_3 => exact constDeclaration
  case h_4 => exact callStatement
  case h_14 | h_15 => exact valueStatement _
  case h_16 => exact exitStatement
  case h_17 => exact continueStatement
  case h_18 => exact goToStatement
  case h_19 => exact reDimStatement
  case h_20 | h_21 => exact handlerStatement _
  case h_22 => exact raiseEventStatement
  case h_23 => exact expressionStatement

/-- A statement that fails leaves an error region in both, as it is undone in both. -/
theorem statementOf {room : Nat} {kind : Production B N}
    (h : Produces none kind (Production.statementKindUpTo room)) :
    Produces none (Production.statementOf kind)
      (Production.statementOf (Production.statementKindUpTo room)) :=
  .orRecover (wrapped _ h) (.of_tried (.statementUpTo room))

/-- What is known of the statements in a block, if it is known of their kinds. -/
theorem OfStatement.of_kind {room : Nat}
    (h : Produces none (Production.statementKindUpTo room : Production B N)
      (Production.statementKindUpTo room)) :
    OfStatement (B := B) (inBlock room) (inBlock room) := by
  have hbuilds := Builds.statementKindUpTo room
  have hmoves := Builds.continuing (m := .loud) hbuilds fun _ => Continues.wrap .statement
  exact ⟨.of_kind hbuilds (Aside.statementKindUpTo room),
    Builds.orRecover (m := .loud) hmoves.mono fun _ => Nat.one_pos, statementOf h⟩

/-- Statements in blocks of statements, by the levels that are left. -/
theorem statementKindUpTo (room : Nat) :
    Produces none (Production.statementKindUpTo room : Production B N)
    (Production.statementKindUpTo room) := by
  induction room with
  | zero => exact tooDeep
  | succ room ih =>
    have hstmt := OfStatement.of_kind ih
    refine checked (peek fun kind => ?_)
    split
    · exact ruleLeaf _
    · exact ruleLeaf _
    · exact directive
    · exact wordStatement hstmt _
    · exact expressionStatement

/-- The statements in a block, with any number of levels left. -/
theorem ofStatement_inBlock (room : Nat) : OfStatement (B := B) (inBlock room) (inBlock room) :=
  .of_kind (statementKindUpTo room)

/-- The levels that are left are told by the place, so the statements agree there. -/
theorem statement : Produces none (Production.statement : Production B N) Production.statement :=
  byRoom fun room => statementOf (statementKindUpTo room)

end Mirrors

end VisualBasic.Production
