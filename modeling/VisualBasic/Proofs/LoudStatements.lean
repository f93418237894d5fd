import VisualBasic.Proofs.PassageRules

/-!
# Statements as passages

Every statement is a passage, whether it takes a line or is a block. What a statement looks at
stands on its own line, so this holds also where only a part of the tokens agrees.

Main results:

* `Passage.statementKindUpTo` — by induction on the levels that are left.
* `Passage.statement` — a statement, or the error region over a line that does not hold one.
-/

namespace VisualBasic.Production

variable {δ : Nat} {part : Bool} {spot : Spot}

/-- What is known of the production of the statements in a block. -/
structure MakesStatements (δ : Nat) (part : Bool) (statement : Parse Node) : Prop where
  isStatement : IsStatement statement
  moves : Builds .loud 1 true statement
  makes : Makes δ part (.plain false) statement

namespace Passage

-- ---------------------------------------------------------------------------
-- Blocks of statements
-- ---------------------------------------------------------------------------

section

variable {statement : Parse Node} {inside lands : Bool} {c : TokenKind → Bool}
  {cs : List (TokenKind → Bool)}

/-- The statements of a block, which end at the same line in two runs. -/
theorem statements (h : MakesStatements δ part statement) :
    Runs δ part spot false (Production.statements statement) :=
  body (childNested h.makes) (Steps.child h.moves.nested)

/-- The word that opens the block is known to be there, so the header begins inside of the line. -/
theorem blockStatement (h : MakesStatements δ part statement) (rule : Rule) (opener : Keyword)
    {header closing : Parse Unit} (hc : Readable false inside c)
    (hheader : Flows δ false ⟨true, cs⟩ lands header)
    (hclosing : Runs δ part (.plain false) true closing) :
    Makes δ part ⟨inside, c :: cs⟩ (Production.blockStatement statement rule opener header
      closing) := by
  refine node _ (openBlock opener ?_)
  refine .behindOne (Phrase.take hc) ReadsOne.take.2 hc.isWordClass.endOfFile
    (fun (_ : true = true) => hc.isInnerClass) fun _ _ _ => ?_
  exact after hheader (after Phrase.endStatement (seq (statements h) hclosing))

/-- A part of a block, whose opening line may be broken. -/
theorem blockPart (h : MakesStatements δ part statement) (rule : Rule) {header : Parse Unit}
    (hheader : Flows δ false spot lands header) :
    Makes δ part spot (Production.blockPart statement rule header) :=
  node _ (seq (.recovering (Phrase.seq hheader Phrase.endStatement)) (statements h))

-- ---------------------------------------------------------------------------
-- If
-- ---------------------------------------------------------------------------

/-- A broken condition is recovered in its own line. -/
theorem elseIfClause (h : MakesStatements δ part statement) (hc : Readable false inside c) :
    Makes δ part ⟨inside, c :: cs⟩ (Production.elseIfClause statement) := by
  have hcondition {spot : Spot} : Flows δ false spot true (do
      Production.field .condition (Production.nested Production.expression)
      let _ ← acceptWord .kwThen) :=
    Phrase.seq (Phrase.fieldNested _ Phrase.expression)
      (Phrase.seq (Phrase.acceptAny (.word rfl)) (.pure rfl))
  exact blockPart h _ (Phrase.seq (Phrase.take hc)
    (Phrase.seq (Phrase.acceptAny (.word rfl)) hcondition))

/-- A word and statements. -/
theorem elseClause (h : MakesStatements δ part statement) (hc : Readable false inside c) :
    Makes δ part ⟨inside, c :: cs⟩ (Production.elseClause statement) :=
  blockPart h _ (Phrase.take hc)

/-- What part comes next is told by one word or two on its line. -/
theorem ifPart (h : MakesStatements δ part statement) :
    Runs δ part spot false (Production.ifPart statement) := by
  refine peek fun kind => ?_
  split
  · exact round (child (elseIfClause h (.word rfl)))
  · refine peekNext rfl fun next => ite (fun _ => ?_) fun _ => ?_
    · exact round (child (elseIfClause h (.word rfl)))
    · exact round (field _ (elseClause h (.word rfl)))
  · exact result

/-- The word of a part is read. -/
theorem progresses_ifPart (h : IsStatement statement) :
    Progresses (· = true) (Production.ifPart statement) := by
  refine .look Looks.peek fun kind => ?_
  split
  · exact .round (Steps.child (Builds.elseIfClause h))
  · refine .look (Looks.peekAhead 1) fun _ => .ite ?_ ?_
    · exact .round (Steps.child (Builds.elseIfClause h))
    · exact .round (Steps.field .elseBranch (Builds.elseClause h))
  · exact .pure nofun

/-- The parts are followed by the closing line, or by the line that ends the block without it. -/
theorem ifBlock (h : MakesStatements δ part statement) :
    Runs δ part spot true (Production.ifBlock statement) := by
  refine seq (statements h) (seq ?_ (finishBlock .kwIf))
  exact repeatWhile (ifPart h) (progresses_ifPart h.isStatement)

/-- The branches of an `If` on a single line are read while one more is being read. -/
theorem ifLine_eq (statement : Parse Node) : Production.ifLine statement =
    Production.inSingleLineIf (do
      Production.field .thenBranch (Production.nested statement)
      if ← acceptWord .kwElse then
        Production.field .elseBranch (Production.nested statement)) := by
  unfold Production.ifLine Production.inSingleLineIf
  refine congrArg _ (funext fun _ => ?_)
  rw [bind_assoc]
  refine congrArg _ (funext fun _ => ?_)
  rw [bind_assoc]
  refine congrArg _ (funext fun x => ?_)
  cases x with
  | true => rfl
  | false => rfl

/-- The `Else` of an `If` on a single line, if there is one. -/
theorem elseOfLine (h : MakesStatements δ part statement) : Runs δ part (.plain false) false (do
    if ← acceptWord .kwElse then
      Production.field .elseBranch (Production.nested statement)) := by
  have hword : Flows δ false (.plain false) false (Production.acceptWord .kwElse) :=
    Phrase.acceptAny (.word rfl)
  refine .behind hword fun x x' hx => ?_
  subst hx
  exact ite (fun _ => fieldNested _ h.makes) fun _ => result

/-- The branches on a single line; `Else` ends the first one while the count is up. -/
theorem ifLine (h : MakesStatements δ part statement) :
    Runs δ part spot false (Production.ifLine statement) := by
  rw [ifLine_eq]
  exact .inSingleLineIf (seq (fieldNested _ (anywhere h.makes)) (elseOfLine h))

/-- Behind the condition the next token tells a block from a line. -/
theorem ifStatement (h : MakesStatements δ part statement) :
    Makes δ part spot (Production.ifStatement statement) := by
  have hbranches {spot : Spot} : Runs δ part spot false (do
      if (← Production.peek).endsLine then
        Production.openBlock .kwIf
        Production.endStatement
        Production.ifBlock statement
      else Production.ifLine statement) := by
    refine peek fun kind => ite (fun _ => openBlock .kwIf ?_) fun _ => ifLine h
    exact after Phrase.endStatement (ifBlock h)
  refine node _ (after (Phrase.expectWord (.word rfl))
    (after (Phrase.fieldNested _ Phrase.expression) ?_))
  refine ifAccept (.word rfl) hbranches ?_
  exact ifLook (Phrase.nearsighted_atTerminator.steady.steadyIn part) hbranches (failThen _)

-- ---------------------------------------------------------------------------
-- Select Case
-- ---------------------------------------------------------------------------

/-- Broken clauses are recovered in their own line. -/
theorem caseBlock (h : MakesStatements δ part statement) (hc : Readable false inside c) :
    Makes δ part ⟨inside, c :: cs⟩ (Production.caseBlock statement) := by
  have hclause : Flows δ false (.plain true) true
      (Production.child (Production.nested Production.caseClause)) :=
    Phrase.childNested Phrase.caseClause
  exact blockPart h _ (Phrase.seq (Phrase.take hc) (Phrase.commaSeparated hclause hclause))

/-- Both words are known to be there. -/
theorem caseElseBlock (h : MakesStatements δ part statement) :
    Makes δ part ⟨false, [(· == .keyword .kwCase), (· == .keyword .kwElse)]⟩
      (Production.caseElseBlock statement) := by
  have hcase : Readable false false (· == .keyword .kwCase) := .word rfl
  have hwords : Flows δ false ⟨false, [(· == .keyword .kwCase), (· == .keyword .kwElse)]⟩ true (do
      Production.take
      Production.take) := by
    refine .bindOne (Phrase.take hcase) ReadsOne.take.2 rfl
      (fun (_ : true = true) => hcase.isInnerClass) fun _ _ _ => ?_
    exact Phrase.take (.word rfl)
  exact blockPart h _ hwords

/-- A case, or a statement in front of the first one. -/
theorem selectPart (h : MakesStatements δ part statement) :
    Runs δ part (.plain false) false (Production.selectPart statement) := by
  refine ifAt (peekNext rfl fun next => ite (fun hnext => ?_) fun _ => ?_) ?_
  · refine round (child (.mono (caseElseBlock h) fun env s hspot => ?_))
    obtain ⟨hcase, helse, -⟩ := hspot.ahead
    exact ⟨nofun, hcase, beq_iff_eq.1 helse ▸ hnext, trivial⟩
  · exact round (child (caseBlock h (.word rfl)))
  · exact ifBoundary result (round (childNested h.makes))

/-- A case reads its word. -/
theorem steps_caseRound (h : IsStatement statement) : Steps .loud 1 true (do
    if (← Production.peekAhead 1) == .keyword .kwElse then
      Production.child (Production.caseElseBlock statement)
    else Production.child (Production.caseBlock statement)
    return true) := by
  refine Steps.ifNext ?_ ?_
  · exact (Steps.child (Builds.caseElseBlock h)).followed (Steps.pure true)
  · exact (Steps.child (Builds.caseBlock h)).followed (Steps.pure true)

/-- Either reads a token. -/
theorem progresses_selectPart (h : IsStatement statement) (hmoves : Builds .loud 1 true statement) :
    Progresses (· = true) (Production.selectPart statement) := by
  refine .look (Looks.test _) fun _ => .ite (.of_steps (steps_caseRound h)) ?_
  exact .look (Looks.test _) fun _ => .ite (.pure nofun) (.round (Steps.child hmoves.nested))

/-- The cases, and the statements in front of them. -/
theorem caseParts (h : MakesStatements δ part statement) : Runs δ part spot false
    (Production.repeatWhile (Production.selectPart statement)) :=
  repeatWhile (selectPart h) (progresses_selectPart h.isStatement h.moves)

/-- A choice among cases. -/
theorem selectStatement (h : MakesStatements δ part statement) (hc : Readable false inside c) :
    Makes δ part ⟨inside, c :: cs⟩ (Production.selectStatement statement) := by
  refine node _ (openBlock .kwSelect (after (Phrase.take hc) ?_))
  refine after (Phrase.acceptAny (.word rfl)) (after (Phrase.fieldNested _ Phrase.expression) ?_)
  exact after Phrase.endStatement (seq (caseParts h) (finishBlock .kwSelect))

-- ---------------------------------------------------------------------------
-- Loops
-- ---------------------------------------------------------------------------

/-- A condition and statements. -/
theorem whileStatement (h : MakesStatements δ part statement) (hc : Readable false inside c) :
    Makes δ part ⟨inside, [c]⟩ (Production.whileStatement statement) :=
  blockStatement h _ _ hc (Phrase.fieldNested _ Phrase.expression) (finishBlock .kwWhile)

/-- Behind the closing word a condition may be recovered in its own line. -/
theorem doStatement (h : MakesStatements δ part statement) (hc : Readable false inside c) :
    Makes δ part ⟨inside, [c]⟩ (Production.doStatement statement) := by
  have hcondition : Flows δ false (.plain true) false (do
      Production.optionalLoopCondition
      Production.endStatement) :=
    Phrase.seq Phrase.loopCondition Phrase.endStatement
  exact blockStatement h _ _ hc Phrase.loopCondition (closeBlock .kwDo (.recovering hcondition))

/-- Behind the closing word a variable may follow. -/
theorem finishNext : Runs δ part spot true Production.finishNext := by
  refine closeBlock .kwFor (peek fun kind => ite (fun hname => ?_) fun _ => ?_)
  · have hname : Readable false true (· == kind) := .word (TokenKind.isWord_of_isNameLike hname)
    exact after (Phrase.child (Phrase.ruleLeaf _ hname)) (.recovering Phrase.endStatement)
  · exact .recovering Phrase.endStatement

/-- Values and statements. -/
theorem forStatement (h : MakesStatements δ part statement) (hc : Readable false inside c) :
    Makes δ part ⟨inside, [c]⟩ (Production.forStatement statement) :=
  blockStatement h _ _ hc Phrase.forHeader finishNext

/-- Both words are known to be there. -/
theorem forEachStatement (h : MakesStatements δ part statement) (hc : Readable false inside c) :
    Makes δ part ⟨inside, [c, (· == .keyword .kwEach)]⟩ (Production.forEachStatement statement) :=
  blockStatement h _ _ hc (Phrase.forEachHeader (.word rfl)) finishNext

-- ---------------------------------------------------------------------------
-- Try
-- ---------------------------------------------------------------------------

/-- What is caught may be recovered in its own line. -/
theorem catchBlock (h : MakesStatements δ part statement) (hc : Readable false inside c) :
    Makes δ part ⟨inside, c :: cs⟩ (Production.catchBlock statement) :=
  blockPart h _ (Phrase.seq (Phrase.take hc) Phrase.catchHeader)

/-- A word and statements. -/
theorem finallyBlock (h : MakesStatements δ part statement) (hc : Readable false inside c) :
    Makes δ part ⟨inside, c :: cs⟩ (Production.finallyBlock statement) :=
  blockPart h _ (Phrase.take hc)

/-- What part comes next is told by a word. -/
theorem tryPart (h : MakesStatements δ part statement) :
    Runs δ part spot false (Production.tryPart statement) := by
  refine peek fun kind => ?_
  split
  · exact round (child (catchBlock h (.word rfl)))
  · exact round (child (finallyBlock h (.word rfl)))
  · exact result

/-- The word of a part is read. -/
theorem progresses_tryPart (h : IsStatement statement) :
    Progresses (· = true) (Production.tryPart statement) := by
  refine .look Looks.peek fun kind => ?_
  split
  · exact .round (Steps.child (Builds.catchBlock h))
  · exact .round (Steps.child (Builds.finallyBlock h))
  · exact .pure nofun

/-- The statements that are tried, and the parts behind them. -/
theorem tryStatement (h : MakesStatements δ part statement) (hc : Readable false inside c) :
    Makes δ part ⟨inside, [c]⟩ (Production.tryStatement statement) := by
  have hheader : Flows δ false ⟨true, []⟩ true (Pure.pure () : Parse Unit) := .pure rfl
  refine blockStatement h _ _ hc hheader (seq ?_ (finishBlock .kwTry))
  exact repeatWhile (tryPart h) (progresses_tryPart h.isStatement)

-- ---------------------------------------------------------------------------
-- With, Using, SyncLock
-- ---------------------------------------------------------------------------

/-- An object and statements. -/
theorem withStatement (h : MakesStatements δ part statement) (hc : Readable false inside c) :
    Makes δ part ⟨inside, [c]⟩ (Production.withStatement statement) :=
  blockStatement h _ _ hc (Phrase.fieldNested _ Phrase.expression) (finishBlock .kwWith)

/-- Resources and statements. -/
theorem usingStatement (h : MakesStatements δ part statement) (hc : Readable false inside c) :
    Makes δ part ⟨inside, [c]⟩ (Production.usingStatement statement) :=
  blockStatement h _ _ hc Phrase.resources (finishBlock .kwUsing)

/-- A lock and statements. -/
theorem syncLockStatement (h : MakesStatements δ part statement) (hc : Readable false inside c) :
    Makes δ part ⟨inside, [c]⟩ (Production.syncLockStatement statement) :=
  blockStatement h _ _ hc (Phrase.fieldNested _ Phrase.expression) (finishBlock .kwSyncLock)

-- ---------------------------------------------------------------------------
-- The choice of the statement
-- ---------------------------------------------------------------------------

/-- Rules that are tried one behind the other. -/
theorem resolve {a : Ambiguity} {alternatives : List Alternative}
    (h : ∀ best best', Passage δ part spot false (Node.Alike δ)
      (firstFit a best alternatives) (firstFit a best' alternatives)) :
    Makes δ part spot (Production.resolve a alternatives) :=
  .checked (h Option.none Option.none)

theorem steady_always : SteadyIn δ part spot fun _ _ => true := fun _ _ _ _ _ _ _ _ _ _ => rfl

/-- Two tokens tell whether there is a label. -/
theorem steady_atLabel : Steady δ spot fun env s =>
    (env.kind s).isNameLike && env.kindAhead s 1 == .mark .colon :=
  (Nearsighted.pair (p := TokenKind.isNameLike) (q := (· == .mark .colon)) rfl).steady

/-- What is tried and fails is undone, so both runs try the next rule in the same place. -/
theorem expressionStatement : Makes δ part spot Production.expressionStatement := by
  refine resolve fun best best' => ?_
  refine .tryNext (steady_atLabel.steadyIn part) (.quiet Phrase.labelStatement)
    (fun _ => .inr ⟨_, Phrase.labelStatement⟩) fun best best' => ?_
  refine .tryNext steady_always (.quiet Phrase.assignmentStatement)
    (fun _ => .inr ⟨_, Phrase.assignmentStatement⟩) fun best best' => ?_
  refine .tryNext steady_always (.quiet Phrase.callStatement)
    (fun _ => .inr ⟨_, Phrase.callStatement⟩) fun best best' => ?_
  exact .noneFits _ best best'

/-- The word is known to be there, and the same word is there in both runs. -/
theorem wordStatement (h : MakesStatements δ part statement) (word : Keyword) :
    Makes δ part ⟨inside, [(· == .keyword word)]⟩ (Production.wordStatement statement word) := by
  unfold Production.wordStatement
  split
  case h_5 =>
    refine peekNext rfl fun next => ite (fun _ => resolve fun best best' => ?_)
      fun _ => ifStatement h
    refine .tryNext steady_always (.quiet Phrase.callStatement)
      (fun _ => .inr ⟨_, Phrase.callStatement⟩) fun best best' => ?_
    exact .tryNext steady_always (ifStatement h) (fun _ => .inl rfl) fun best best' =>
      .noneFits _ best best'
  case h_9 =>
    have hfor : Readable false inside (· == .keyword .kwFor) := .word rfl
    refine peekNext rfl fun next => ite (fun hnext => ?_) fun _ => ?_
    · refine .mono (forEachStatement h hfor) ?_
      intro env s hspot
      obtain ⟨hfor, heach, -⟩ := hspot.ahead
      exact ⟨hspot.inside, hfor, beq_iff_eq.1 heach ▸ hnext, trivial⟩
    · refine .mono (forStatement h hfor) ?_
      exact fun env s hspot => ⟨hspot.inside, hspot.kind, trivial⟩
  case h_6 => exact selectStatement h (.word rfl)
  case h_7 => exact whileStatement h (.word rfl)
  case h_8 => exact doStatement h (.word rfl)
  case h_10 => exact tryStatement h (.word rfl)
  case h_11 => exact withStatement h (.word rfl)
  case h_12 => exact usingStatement h (.word rfl)
  case h_13 => exact syncLockStatement h (.word rfl)
  case h_1 | h_2 => exact .quiet (Phrase.dimStatement (.word rfl))
  case h_3 => exact .quiet Phrase.constDeclaration
  case h_4 => exact .quiet Phrase.callStatement
  case h_14 | h_15 => exact .quiet (Phrase.valueStatement _ (.word rfl))
  case h_16 => exact .quiet (Phrase.exitStatement (.word rfl))
  case h_17 => exact .quiet (Phrase.continueStatement (.word rfl))
  case h_18 => exact .quiet (Phrase.goToStatement (.word rfl))
  case h_19 => exact .quiet (Phrase.reDimStatement (.word rfl))
  case h_20 | h_21 => exact .quiet (Phrase.handlerStatement _ (.word rfl))
  case h_22 => exact .quiet (Phrase.raiseEventStatement (.word rfl))
  case h_23 => exact expressionStatement

end

/-- The end of a line or a colon as a node of its own. -/
theorem terminatorLeaf {inside : Bool} {kind : TokenKind}
    {cs : List (TokenKind → Bool)} {rule : Rule}
    (h : kind.isTerminator = true) :
    Makes δ part ⟨inside, (· == kind) :: cs⟩ (Production.ruleLeaf rule) := by
  have hleaf : Gives δ false ⟨inside, (· == kind) :: cs⟩ false (Production.ruleLeaf rule) :=
    Phrase.leaf _ (Phrase.isWordClass_of_isTerminator h) nofun
  exact .quiet hleaf

/-- What fails in one run fails in the other, and the region over it ends at the same token. -/
theorem statementOf {kind : Parse Node} (hkind : Makes δ part spot kind) :
    Makes δ part spot (Production.statementOf kind) :=
  .orRecover (wrapped .statement hkind)

/-- The statements in a block, if their kinds are passages. -/
theorem makesStatements_of {room : Nat}
    (hkind : Makes δ part (.plain false) (Production.statementKindUpTo room)) :
    MakesStatements δ part (Production.statementOf (Production.statementKindUpTo room)) := by
  have hbuilds := Builds.statementKindUpTo room
  have hmoves := Builds.continuing (m := .loud) hbuilds fun _ => Continues.wrap .statement
  exact ⟨.of_kind hbuilds (Aside.statementKindUpTo room),
    Builds.orRecover (m := .loud) hmoves.mono fun _ => Nat.one_pos, statementOf hkind⟩

/-- Statements in blocks of statements, by the levels that are left. -/
theorem statementKindUpTo (room : Nat) : Makes δ part spot (Production.statementKindUpTo room) := by
  induction room generalizing spot with
  | zero => exact tooDeep
  | succ room ih =>
    have hstmt :
        MakesStatements δ part (Production.statementOf (Production.statementKindUpTo room)) :=
      makesStatements_of ih
    refine .checked (peek fun kind => ?_)
    split
    · exact terminatorLeaf rfl
    · exact terminatorLeaf rfl
    · exact .quiet (Phrase.directive (.word rfl))
    · exact wordStatement hstmt _
    · exact expressionStatement

/-- The levels that are left are the same in two runs. -/
theorem statement : Makes δ part spot Production.statement :=
  .byRoom fun room => statementOf (statementKindUpTo room)

end Passage

end VisualBasic.Production
