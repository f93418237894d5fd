import VisualBasic.Grammar.Clause

/-!
# Statements

A statement takes one line and its end, or is a block of lines. A statement that does not parse
becomes an error region, so reading statements never fails. The productions of the blocks take the
production of the statements in them as an argument; `statementKindUpTo` ties the knot by recursion
on the levels that are left.
-/

namespace VisualBasic.Production

variable {B N : Type} [Builder B N]

/-! ## Simple statements -/

/-- A node that ends with the end of its statement. -/
def line (r : Rule) (content : Production B Unit) : Production B N :=
  node r do
    content
    endStatement

/-- A word and perhaps a value, as in `Return` and `Throw`. -/
def valueStatement (r : Rule) : Production B N :=
  line r do
    take
    unless ← atTerminator do child (nested expression)

def labelStatement : Production B N :=
  node .labelStatement do
    field .label identifier
    expectMark .colon

def assignmentStatement : Production B N :=
  line .assignmentStatement do
    field .left (nested leftHandSide)
    unless (← peek).isAssignment do fail .assignmentOperator
    field .operator tokenLeaf
    field .right (nested expression)

/-- An expression that is evaluated for its effect, perhaps behind `Call`. -/
def callStatement : Production B N :=
  line .callStatement do
    let _ ← acceptWord .kwCall
    child (nested expression)

/-- A statement that no word announces: a label, an assignment or a call. -/
def expressionStatement : Production B N :=
  resolve .labelOrExpression
    [{ viable := fun env s => (env.kind s).isNameLike && env.kindAhead s 1 == .mark .colon,
       production := labelStatement },
     { production := assignmentStatement },
     { production := callStatement }]

def dimStatement : Production B N :=
  line .dimStatement do
    take
    commaSeparated declarator

/-- Constants; each has a value. -/
def constDeclaration : Production B N :=
  line .constDeclaration do
    declarationPrefix
    expectWord .kwConst
    commaSeparated do
      field .name identifier
      optionalAsClause
      expectMark .equal
      field .value (nested expression)

def directive : Production B N := line .preprocessorDirective take

def canBeExited : TokenKind → Bool
  | .keyword .kwSub | .keyword .kwFunction | .keyword .kwProperty | .keyword .kwDo
  | .keyword .kwFor | .keyword .kwWhile | .keyword .kwSelect | .keyword .kwTry => true
  | _ => false

def exitStatement : Production B N :=
  line .exitStatement do
    take
    if canBeExited (← peek) then take else fail .blockKindAfterExit

def continueStatement : Production B N :=
  line .continueStatement do
    take
    match ← peek with
    | .keyword .kwDo | .keyword .kwFor | .keyword .kwWhile => take
    | _ => fail (.oneOf [.keyword .kwDo, .keyword .kwFor, .keyword .kwWhile])

/-- A jump to a label, which may be a number. -/
def goToStatement : Production B N :=
  line .goToStatement do
    take
    field .label (do
      if ← atKind (.literal .integer) then ruleLeaf .identifier else identifier)

/-- Arrays and their new bounds. -/
def reDimStatement : Production B N :=
  line .reDimStatement do
    take
    let _ ← acceptWord .kwPreserve
    commaSeparated do
      let array ← iterate (fun array => do
        if ← atKind (.mark .dot) then some <$> memberAccess array else return none) (← identifier)
      attachIn .array array
      child (nested arrayBounds)

/-- A handler is added to an event or taken from it. -/
def handlerStatement (r : Rule) : Production B N :=
  line r do
    take
    field .event (nested expression)
    expectMark .comma
    field .handler (nested expression)

def raiseEventStatement : Production B N :=
  line .raiseEventStatement do
    take
    field .name identifier
    if ← atKind (.mark .leftParen) then field .arguments (nested arguments)

/-! ## Blocks of statements -/

section

variable (statement : Production B N)

/-- Statements up to a line that belongs to an open block. -/
def statements : Production B Unit := body (child (nested statement))

/-- A block statement: the line that opens it, then its statements. -/
def blockStatement (r : Rule) (opener : Keyword) (header : Production B Unit)
    (closing : Production B Unit) :
    Production B N :=
  node r do
    openBlock opener
    take
    header
    endStatement
    statements statement
    closing

/-- A part of a block statement: its opening line, which may be broken, then its statements. -/
def blockPart (r : Rule) (header : Production B Unit) : Production B N :=
  node r do
    recovering do
      header
      endStatement
    statements statement

/-! ### If -/

def elseIfClause : Production B N :=
  blockPart statement .elseIfClause do
    take
    let _ ← acceptWord .kwIf
    field .condition (nested expression)
    let _ ← acceptWord .kwThen

def elseClause : Production B N := blockPart statement .elseClause take

/-- One part behind the first branch, if there is one. -/
def ifPart : Production B Bool := do
  match ← peek with
  | .keyword .kwElseIf =>
    child (elseIfClause statement)
    return true
  | .keyword .kwElse =>
    if (← peekAhead 1) == .keyword .kwIf then child (elseIfClause statement)
    else field .elseBranch (elseClause statement)
    return true
  | _ => return false

/-- The statements of a block `If`, its other parts and its closing line. -/
def ifBlock : Production B Unit := do
  statements statement
  repeatWhile (ifPart statement)
  finishBlock .kwIf

/-- The branches of an `If` on a single line. They end at its `Else`, too. -/
def ifLine : Production B Unit := do
  modify fun s => { s with singleLineIfs := s.singleLineIfs + 1 }
  field .thenBranch (nested statement)
  if ← acceptWord .kwElse then field .elseBranch (nested statement)
  modify fun s => { s with singleLineIfs := s.singleLineIfs - 1 }

/-- An `If` is a block exactly if its line ends behind `Then`. -/
def ifStatement : Production B N :=
  node .ifStatement do
    expectWord .kwIf
    field .condition (nested expression)
    unless ← acceptWord .kwThen do
      unless ← atTerminator do fail (.oneOf [.keyword .kwThen])
    if (← peek).endsLine then
      openBlock .kwIf
      endStatement
      ifBlock statement
    else ifLine statement

/-! ### Select Case -/

/-- A comparison, a range or a value that the subject is tested against. -/
def caseClause : Production B N :=
  node .caseClause do
    if ← acceptWord .kwIs then
      unless (← peek).isRelational do fail .relationalOperator
    if (← peek).isRelational then
      child (ruleLeaf .relationalOperator)
      child (nested expression)
    else
      child (nested expression)
      if ← acceptWord .kwTo then child (nested expression)

def caseBlock : Production B N :=
  blockPart statement .caseBlock do
    take
    commaSeparated (child (nested caseClause))

def caseElseBlock : Production B N :=
  blockPart statement .caseElseBlock do
    take
    take

/-- One more case, or a statement before the first, unless the line ends them. -/
def selectPart : Production B Bool := do
  if ← atWord .kwCase then
    if (← peekAhead 1) == .keyword .kwElse then child (caseElseBlock statement)
    else child (caseBlock statement)
    return true
  if ← atBoundary then return false
  child (nested statement)
  return true

/-- A choice among cases. Statements before the first case are kept. -/
def selectStatement : Production B N :=
  node .selectCaseStatement do
    openBlock .kwSelect
    take
    let _ ← acceptWord .kwCase
    field .selector (nested expression)
    endStatement
    repeatWhile (selectPart statement)
    finishBlock .kwSelect

/-! ### Loops -/

def whileStatement : Production B N :=
  blockStatement statement .whileStatement .kwWhile
    (field .condition (nested expression)) (finishBlock .kwWhile)

def atLoopCondition : Production B Bool := test fun env s =>
  env.kind s == .keyword .kwWhile || env.kind s == .keyword .kwUntil

/-- The condition of a `Do` loop, which may stand at either end. -/
def optionalLoopCondition : Production B Unit := do
  if ← atLoopCondition then
    take
    field .condition (nested expression)

def doStatement : Production B N :=
  blockStatement statement .doStatement .kwDo optionalLoopCondition do
    if ← closeBlock .kwDo then
      recovering do
        optionalLoopCondition
        endStatement

/-- `Next`, which may repeat the loop's variable. -/
def finishNext : Production B Unit := do
  if ← closeBlock .kwFor then
    if (← peek).isNameLike then child (ruleLeaf .«variable»)
    recovering endStatement

def forStatement : Production B N :=
  blockStatement statement .forStatement .kwFor
    (do
      field .«variable» identifier
      optionalAsClause
      expectMark .equal
      field .start (nested expression)
      expectWord .kwTo
      field .«end» (nested expression)
      if ← acceptWord .kwStep then field .step (nested expression))
    finishNext

def forEachStatement : Production B N :=
  blockStatement statement .forEachStatement .kwFor
    (do
      take
      field .«variable» identifier
      optionalAsClause
      expectWord .kwIn
      field .collection (nested expression))
    finishNext

/-! ### Try -/

/-- What a `Catch` catches: a variable, perhaps with a type, perhaps under a condition. -/
def catchHeader : Production B Unit := do
  if (← peek).isNameLike && !(← atWord .kwWhen) then
    field .exception identifier
    if ← acceptWord .kwAs then field .type (nested (type true))
  if ← acceptWord .kwWhen then field .filter (nested expression)

def catchBlock : Production B N :=
  blockPart statement .catchBlock do
    take
    catchHeader

def finallyBlock : Production B N := blockPart statement .finallyBlock take

/-- One part behind the statements that are tried, if there is one. -/
def tryPart : Production B Bool := do
  match ← peek with
  | .keyword .kwCatch =>
    child (catchBlock statement)
    return true
  | .keyword .kwFinally =>
    child (finallyBlock statement)
    return true
  | _ => return false

def tryStatement : Production B N :=
  blockStatement statement .tryStatement .kwTry (pure ()) do
    repeatWhile (tryPart statement)
    finishBlock .kwTry

/-! ### With, Using, SyncLock -/

def withStatement : Production B N :=
  blockStatement statement .withStatement .kwWith
    (field .target (nested expression)) (finishBlock .kwWith)

/-- The resources of a `Using` block: new variables, or a value. -/
def resources : Production B Unit := do
  if (← peek).isNameLike &&
      ((← peekAhead 1) == .keyword .kwAs || (← peekAhead 1) == .mark .equal) then
    commaSeparated do
      field .resource identifier
      optionalAsClause
      optionalValue .value
  else field .value (nested expression)

def usingStatement : Production B N :=
  blockStatement statement .usingStatement .kwUsing resources (finishBlock .kwUsing)

def syncLockStatement : Production B N :=
  blockStatement statement .syncLockStatement .kwSyncLock
    (field .lock (nested expression)) (finishBlock .kwSyncLock)

/-! ## The choice of the statement -/

/-- The statement that the word at the cursor announces. -/
def wordStatement (word : Keyword) : Production B N := do
  match word with
  | .kwDim | .kwStatic => dimStatement
  | .kwConst => constDeclaration
  | .kwCall => callStatement
  | .kwIf =>
    if (← peekAhead 1) == .mark .leftParen then
      resolve .ifStatement [{ production := callStatement },
        { production := ifStatement statement }]
    else ifStatement statement
  | .kwSelect => selectStatement statement
  | .kwWhile => whileStatement statement
  | .kwDo => doStatement statement
  | .kwFor =>
    if (← peekAhead 1) == .keyword .kwEach then forEachStatement statement
    else forStatement statement
  | .kwTry => tryStatement statement
  | .kwWith => withStatement statement
  | .kwUsing => usingStatement statement
  | .kwSyncLock => syncLockStatement statement
  | .kwReturn => valueStatement .returnStatement
  | .kwThrow => valueStatement .throwStatement
  | .kwExit => exitStatement
  | .kwContinue => continueStatement
  | .kwGoTo => goToStatement
  | .kwReDim => reDimStatement
  | .kwAddHandler => handlerStatement .addHandlerStatement
  | .kwRemoveHandler => handlerStatement .removeHandlerStatement
  | .kwRaiseEvent => raiseEventStatement
  | _ => expressionStatement

end

/-- A statement, or an error region over a line that does not hold one. -/
def statementOf (kind : Production B N) : Production B N :=
  orRecover do wrap .statement (← kind)

/-- The statement at the cursor by its kind, with at most `room` levels of statements in it. -/
def statementKindUpTo : (room : Nat) → Production B N
  | 0 => tooDeep
  | room + 1 => do
    checkDepth
    match ← peek with
    | .newline | .mark .colon => ruleLeaf .emptyStatement
    | .directive => directive
    | .keyword word => wordStatement (statementOf (statementKindUpTo room)) word
    | _ => expressionStatement

/-- The statement at the cursor. -/
def statement : Production B N :=
  fun env s => statementOf (statementKindUpTo env.room) env s

end VisualBasic.Production
