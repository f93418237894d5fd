import VisualBasic.Proofs.CallOrAssignment
import VisualBasic.Proofs.WideGrammar

/-!
# More room in statements

The judgement `Widens` of statements. What has to be shown of them is that a rule that is passed
over for want of room does not fit with more of it, if a later rule fits: an assignment that might
be a call, and a call that might be an `If`.

Main results:

* `Widens.expressionStatement` — a call is a call with more room, too.
* `Widens.ifAmbiguity` — and so is an `If` an `If`.
* `Widens.statement` — statements without complaints are the same with more room.
-/

namespace VisualBasic.Production

open State

variable {env env' : Env} {s s₁ s' t : State} {n : Nat} {x y : Node}

-- ---------------------------------------------------------------------------
-- Simple statements
-- ---------------------------------------------------------------------------

namespace Widens

/-- The end of a line takes no room. -/
theorem line (r : Rule) {content content' : Parse Unit} (h : Widens n content content') :
    Widens n (Production.line r content) (Production.line r content') :=
  node r (seq h endStatement)

/-- Whether there is a value is seen from the next token. -/
theorem valueStatement (r : Rule) :
    Widens n (Production.valueStatement r) (Production.valueStatement r) :=
  line r (seq take (atTerminator fun _ => ite (pure _) (child (nested expression))))

/-- A label has nothing in it that is nested. -/
theorem labelStatement : Widens n Production.labelStatement Production.labelStatement :=
  node _ (seq (field _ identifier) (expectMark _))

/-- The target and the value are expressions, which make the same with more room. -/
theorem assignmentStatement :
    Widens n Production.assignmentStatement Production.assignmentStatement := by
  have hvalue : Wide n (do
      Production.field .operator Production.tokenLeaf
      Production.field .right (Production.nested Production.expression)) :=
    seq (field _ tokenLeaf) (field _ (nested expression))
  refine line _ (seq (field _ (nested leftHandSide)) (peek fun _ => ite hvalue ?_))
  exact seq (fail _) hvalue

/-- So is what is called. -/
theorem callStatement : Widens n Production.callStatement Production.callStatement :=
  line _ (bind (acceptWord _) fun _ => child (nested expression))

/-- Variables with commas between them, each with its type and its value. -/
theorem dimStatement : Widens n Production.dimStatement Production.dimStatement :=
  line _ (seq take (commaSeparated declarator))

/-- Attributes, names, types and values; none of them sees how much room there is. -/
theorem constDeclaration : Widens n Production.constDeclaration Production.constDeclaration := by
  refine line _ (seq declarationPrefix (seq (expectWord _) (commaSeparated ?_)))
  exact seq (field _ identifier) (seq optionalAsClause
    (seq (expectMark _) (field _ (nested expression))))

/-- A single token. -/
theorem directive : Widens n Production.directive Production.directive := line _ take

/-- Two words. -/
theorem exitStatement : Widens n Production.exitStatement Production.exitStatement :=
  line _ (seq take (peek fun _ => ite take (fail _)))

/-- Two words. -/
theorem continueStatement : Widens n Production.continueStatement Production.continueStatement := by
  refine line _ (seq take (peek fun kind => ?_))
  split
  case h_4 => exact fail _
  all_goals exact take

/-- A word and a label. -/
theorem goToStatement : Widens n Production.goToStatement Production.goToStatement :=
  line _ (seq take (field _ (atKind fun _ => ite (ruleLeaf _) identifier)))

/-- The array is a chain of accesses, so it takes no room; its bounds are expressions. -/
theorem reDimStatement : Widens n Production.reDimStatement Production.reDimStatement := by
  have harray (array : Node) : Wide n (do
      let array ← Production.iterate (fun array => do
        if ← Production.atKind (.mark .dot) then Option.some <$> Production.memberAccess array
        else return none) array
      Production.attach (array.inField .array)
      Production.child (Production.nested Production.arrayBounds)) := by
    refine bind (iterate (fun array => atKind fun _ => ite (some (memberAccess array))
      (pure _)) array)
      fun array => ?_
    exact seq (attach _) (child (nested arrayBounds))
  refine line _ (seq take (bind (acceptWord _) fun _ => commaSeparated ?_))
  exact bind identifier harray

/-- An event and a handler, which are expressions. -/
theorem handlerStatement (r : Rule) :
    Widens n (Production.handlerStatement r) (Production.handlerStatement r) :=
  line r (seq take (seq (field _ (nested expression))
    (seq (expectMark _) (field _ (nested expression)))))

/-- A name and perhaps arguments. -/
theorem raiseEventStatement :
    Widens n Production.raiseEventStatement Production.raiseEventStatement := by
  refine line _ (seq take (seq (field _ identifier) (atKind fun _ => ite ?_ (pure _))))
  exact field _ (nested arguments)

end Widens

-- ---------------------------------------------------------------------------
-- Labels, assignments and calls
-- ---------------------------------------------------------------------------

/-- A production that gives nothing fails. -/
theorem exists_error {α : Type} {p : Parse α} (h : ∀ a s', p env s ≠ .ok a s') :
    ∃ f s', p env s = .error f s' := by
  cases hrun : p env s with
  | ok a s' => exact absurd hrun (h a s')
  | error f s' => exact ⟨f, s', rfl⟩

/-- What the last rule of an ambiguity gives. -/
theorem firstFit_singleton {a : Ambiguity} {best : Option Failure} {p : Parse Node}
    (h : firstFit a best [{ production := p }] env s = .ok x s') : p env s = .ok x s' := by
  rw [Parse.firstFit_cons_eq, if_pos rfl] at h
  dsimp only at h
  cases hrun : p env s with
  | ok y s₁ =>
    rw [hrun] at h
    exact h
  | error f s₁ =>
    rw [hrun] at h
    cases h

/-- Where a label may be, there is one. -/
theorem leads_labelStatement (hname : (env.kind s).isNameLike = true)
    (hcolon : env.kindAhead s 1 = .mark .colon) : ∃ s', Leads env labelStatement s s' := by
  have hidentifier : Leads env identifier s (behind env s) := by
    refine .peek ?_
    rw [if_pos hname]
    exact Leads.leaf _
  refine ⟨_, .node (.seq (.field hidentifier) (.expect ?_))⟩
  rw [kind_behind, hcolon]
  intro hend
  rw [hend] at hname
  cases hname

namespace Widens

/-- Of the three rules the same one is taken: where a call fits, the assignment that was tried
before it does not fit with more room either. -/
theorem expressionStatement :
    Widens n Production.expressionStatement Production.expressionStatement := by
  have hviable : Sees fun env s =>
      (env.kind s).isNameLike && env.kindAhead s 1 == .mark .colon := by
    intro env env' s t htokens ht
    have hkind := sees_kind env env' s t htokens ht
    have hahead := sees_kindAhead 1 env env' s t htokens ht
    dsimp only at hahead ⊢
    rw [hkind, hahead]
  refine resolve
    _ (firstFit hviable rfl labelStatement (fun _ _ => firstFit ?_ rfl assignmentStatement
    (fun _ _ => firstFit ?_ rfl callStatement (fun _ _ => noneFits _ _) ?_) ?_) ?_)
  · exact fun _ _ _ _ _ _ => rfl
  · exact fun _ _ _ _ _ _ => rfl
  · -- nothing comes behind the call
    intro env env' s f s₁ best y s' _ _ _ hrest
    cases hrest
  · -- the assignment fails with more room, too
    intro env env' s f s₁ best y s' henv _ hfails hrest _ t ht
    refine exists_error fun z t' hrun => ?_
    have hcall := Goes.of_run (firstFit_singleton hrest)
    obtain ⟨w, s₂, hassign, -⟩ :=
      leads_assignment_of_call henv hcall ⟨t, t', ht, hrun, .refl t'⟩ s (.refl s)
    cases hassign.symm.trans hfails
  · -- a label does not fail
    intro env env' s f s₁ best y s' _ happlies hfails
    rw [Bool.and_eq_true, beq_iff_eq] at happlies
    obtain ⟨s₂, hlabel⟩ := leads_labelStatement happlies.1 happlies.2
    obtain ⟨w, s₃, hrun, -⟩ := hlabel s (.refl s)
    cases hrun.symm.trans hfails

end Widens

-- ---------------------------------------------------------------------------
-- If
-- ---------------------------------------------------------------------------

/-- The first expression in the parentheses of a choice between two values. -/
theorem comma_of_ternary (h : Goes env expression s x s') (hkind : env.kind s = .keyword .kwIf) :
    env.kindAhead s 1 = .mark .leftParen ∧ ∃ m y t, env.room = m + 1 ∧
      Goes (deeper env) (expressionUpTo m Precedence.lowest) (behind env (behind env s)) y t ∧
      env.kind t = .mark .comma := by
  obtain ⟨m, hroom, -, left, s₁, hleft, -⟩ := Goes.expressionUpTo h
  obtain ⟨primary, s₂, hprimary, -⟩ := (hleft.unaryOf (by rw [hkind]; rfl)).bind
  replace hprimary := hprimary.peek
  rw [hkind] at hprimary
  replace hprimary := hprimary.peekAhead
  split at hprimary
  · rename_i hparen
    obtain ⟨_, s₃, htake, hrest⟩ := hprimary.node.bind
    obtain ⟨_, s₄, hopen, hrest⟩ := hrest.bind
    obtain ⟨_, s₅, hvalue, hrest⟩ := hrest.bind
    obtain ⟨_, s₆, hcomma, -⟩ := hrest.bind
    obtain ⟨y, hvalue⟩ := hvalue.field
    have hplace := (beside_behind rfl htake.take).trans hopen.expect.2
    exact ⟨beq_iff_eq.1 hparen, m, y, s₅, hroom, hvalue.nested.from hplace, hcomma.expect.1⟩
  · exact hprimary.fail.elim

/-- The expression in the parentheses that a condition begins with. -/
theorem rightParen_of_parenthesized (h : Goes env expression s x s')
    (hkind : env.kind s = .mark .leftParen) :
    ∃ m y t, env.room = m + 1 ∧
      Goes (deeper env) (expressionUpTo m Precedence.lowest) (behind env s) y t ∧
      env.kind t = .mark .rightParen := by
  obtain ⟨m, hroom, -, left, s₁, hleft, -⟩ := Goes.expressionUpTo h
  obtain ⟨primary, s₂, hprimary, -⟩ := (hleft.unaryOf (by rw [hkind]; rfl)).bind
  replace hprimary := hprimary.peek
  rw [hkind] at hprimary
  obtain ⟨_, s₃, hopen, hrest⟩ := hprimary.node.bind
  obtain ⟨_, s₄, hvalue, hclose⟩ := hrest.bind
  obtain ⟨y, hvalue⟩ := hvalue.child
  exact ⟨m, y, s₄, hroom, hvalue.nested.from hopen.expect.2, hclose.expect.1⟩

/-- A line is not both an `If` and a call of a choice between values: the first expression in the
parentheses ends at a parenthesis in the one and at a comma in the other. -/
theorem not_call_of_ifStatement {statement : Parse Node} (henv : env.Roomier n env')
    (hif : Goes env (ifStatement statement) s x s') : ¬Goes env' callStatement s y t := by
  intro hcall
  obtain ⟨_, s₁, hword, hrest⟩ := hif.node.bind
  obtain ⟨hkind, hs₁⟩ := hword.expect
  -- the call
  obtain ⟨_, t₁, hcontent, -⟩ := hcall.node.bind
  obtain ⟨found, t₂, haccept, hcontent⟩ := hcontent.bind
  obtain ⟨c', hcall⟩ := hcontent.child
  have hkind' : env'.kind s = .keyword .kwIf :=
    (Widens.sees_kind env env' s s henv.tokens (.refl s)).trans hkind
  have ht₂ : Beside s t₂ := by
    rcases haccept.accept with ⟨-, hword, -⟩ | ⟨-, -, ht₂⟩
    · rw [hkind'] at hword
      cases hword
    · exact ht₂
  obtain ⟨hparen, m', z', u', hroom', hvalue', hcomma⟩ :=
    comma_of_ternary (hcall.nested.from ht₂) hkind'
  -- the condition
  obtain ⟨_, s₂, hcondition, -⟩ := hrest.bind
  obtain ⟨c, hcondition⟩ := hcondition.field
  have hopens : env.kind (behind env s) = .mark .leftParen := by
    rw [kind_behind (by rw [hkind]; exact nofun), ← hparen]
    exact (Widens.sees_kindAhead 1 env env' s s henv.tokens (.refl s)).symm
  obtain ⟨m, z, u, -, hvalue, hclose⟩ :=
    rightParen_of_parenthesized (hcondition.nested.from hs₁) hopens
  -- both read the same expression
  have hdeeper : Env.Roomier m' (deeper (deeper env)) (deeper (deeper env')) := by
    have hexact := henv.nested.exact
    rw [show Env.room _ = m' + 1 from hroom'] at hexact
    exact hexact.nested
  have hplace : Beside (behind env (behind env s)) (behind env' (behind env' s)) :=
    beside_behind henv.tokens (beside_behind henv.tokens (.refl s))
  have hends : Beside u u' :=
    (Widens.leads (.expressionUpTo m m' _) (hushed_expressionUpTo _ _) hdeeper
      (hvalue.from hplace.symm)).beside hvalue'
  have hcomma' : env.kind u = .mark .comma :=
    (Widens.sees_kind env env' u u' henv.tokens hends).symm.trans hcomma
  cases hcomma'.symm.trans hclose

-- ---------------------------------------------------------------------------
-- Blocks of statements
-- ---------------------------------------------------------------------------

namespace Widens

section

variable {statement statement' : Parse Node}

/-- The statements in a block are a level down. -/
theorem statements (h : Widens (n - 1) statement statement') :
    Widens n (Production.statements statement) (Production.statements statement') :=
  body (child (nested h))

/-- The opening line has the room of the block; what closes it may have statements in it. -/
theorem blockStatement (h : Widens (n - 1) statement statement') (r : Rule) (opener : Keyword)
    {header closing closing' : Parse Unit} (hheader : Wide n header)
    (hclosing : Widens n closing closing') :
    Widens n (Production.blockStatement statement r opener header closing)
      (Production.blockStatement statement' r opener header closing') :=
  node r (seq (openBlock _)
    (seq take (seq hheader (seq endStatement (seq (statements h) hclosing)))))

/-- An opening line that makes no complaint is not broken. -/
theorem blockPart (h : Widens (n - 1) statement statement') (r : Rule) {header : Parse Unit}
    (hheader : Wide n header) :
    Widens n (Production.blockPart statement r header) (Production.blockPart statement' r header) :=
  node r (seq (recovering (seq hheader endStatement)) (statements h))

/-- The condition has the room of the block. -/
theorem elseIfClause (h : Widens (n - 1) statement statement') :
    Widens n (Production.elseIfClause statement) (Production.elseIfClause statement') := by
  refine blockPart h
    _ (seq take (bind (acceptWord _) fun _ => seq (field _ (nested expression)) ?_))
  exact bind (acceptWord _) fun _ => pure ()

/-- A word and statements. -/
theorem elseClause (h : Widens (n - 1) statement statement') :
    Widens n (Production.elseClause statement) (Production.elseClause statement') :=
  blockPart h _ take

/-- The parts are picked by words. -/
theorem ifBlock (h : Widens (n - 1) statement statement') :
    Widens n (Production.ifBlock statement) (Production.ifBlock statement') := by
  have helseIf := round (child (elseIfClause h))
  refine seq (statements h) (seq (repeatWhile (peek fun kind => ?_)) (finishBlock _))
  split
  · exact helseIf
  · exact peekAhead fun _ => ite helseIf (round (field _ (elseClause h)))
  · exact pure _

/-- The branches on a single line are a level down as well. -/
theorem ifLine (h : Widens (n - 1) statement statement') :
    Widens n (Production.ifLine statement) (Production.ifLine statement') := by
  refine seq (modifies id (· + 1)) (seq (field _ (nested h)) (bind (acceptWord _) fun _ => ?_))
  exact when (field _ (nested h)) (modifies id (· - 1))

/-- Whether it is a block is seen behind the condition, which is the same. -/
theorem ifStatement (h : Widens (n - 1) statement statement') :
    Widens n (Production.ifStatement statement) (Production.ifStatement statement') := by
  have hbranches : Widens n
      (do
        if (← Production.peek).endsLine then
          Production.openBlock .kwIf
          Production.endStatement
          Production.ifBlock statement
        else Production.ifLine statement)
      (do
        if (← Production.peek).endsLine then
          Production.openBlock .kwIf
          Production.endStatement
          Production.ifBlock statement'
        else Production.ifLine statement') :=
    peek fun _ => ite (seq (openBlock _) (seq endStatement (ifBlock h))) (ifLine h)
  refine node _ (seq (expectWord _)
    (seq (field _ (nested expression)) (bind (acceptWord _) fun _ => ?_)))
  refine ite hbranches (atTerminator fun _ => ite hbranches (seq (fail _) hbranches))

/-- A comparison, a range or a value. -/
theorem caseClause : Widens n Production.caseClause Production.caseClause := by
  have hvalue : Wide n (do
      if (← Production.peek).isRelational then
        Production.child (Production.ruleLeaf .relationalOperator)
        Production.child (Production.nested Production.expression)
      else
        Production.child (Production.nested Production.expression)
        if ← Production.acceptWord .kwTo then
          Production.child (Production.nested Production.expression)) := by
    have hexpression : Wide n (Production.child (Production.nested Production.expression)) :=
      child (nested expression)
    refine peek fun _ => ite (seq (child (ruleLeaf _)) hexpression) (seq hexpression ?_)
    exact bind (acceptWord _) fun _ => ite hexpression (pure _)
  refine node _ (bind (acceptWord _) fun _ => ite (peek fun _ => ite hvalue ?_) hvalue)
  exact seq (fail _) hvalue

/-- Clauses with commas between them, and statements. -/
theorem caseBlock (h : Widens (n - 1) statement statement') :
    Widens n (Production.caseBlock statement) (Production.caseBlock statement') :=
  blockPart h _ (seq take (commaSeparated (child (nested caseClause))))

/-- Two words and statements. -/
theorem caseElseBlock (h : Widens (n - 1) statement statement') :
    Widens n (Production.caseElseBlock statement) (Production.caseElseBlock statement') :=
  blockPart h _ (seq take take)

/-- The cases are picked by a word, and so is the end of the choice. -/
theorem selectStatement (h : Widens (n - 1) statement statement') :
    Widens n (Production.selectStatement statement) (Production.selectStatement statement') := by
  refine node _ (seq (openBlock _) (seq take (bind (acceptWord _) fun _ =>
    seq (field _ (nested expression)) (seq endStatement (seq (repeatWhile ?_) (finishBlock _))))))
  refine atKind fun _ => ite ?_ (atBoundary fun _ => ite (pure _) (round (child (nested h))))
  exact peekAhead fun _ => ite (round (child (caseElseBlock h))) (round (child (caseBlock h)))

/-- A condition and statements. -/
theorem whileStatement (h : Widens (n - 1) statement statement') :
    Widens n (Production.whileStatement statement) (Production.whileStatement statement') :=
  blockStatement h _ _ (field _ (nested expression)) (finishBlock _)

/-- Whether a condition follows is seen from the next token. -/
theorem sees_atLoopCondition : Sees fun env s =>
    env.kind s == .keyword .kwWhile || env.kind s == .keyword .kwUntil := by
  intro env env' s t htokens ht
  dsimp only
  rw [sees_kind env env' s t htokens ht]

/-- A condition, if there is one. -/
theorem optionalLoopCondition :
    Widens n Production.optionalLoopCondition Production.optionalLoopCondition :=
  test sees_atLoopCondition fun _ => ite (seq take (field _ (nested expression))) (pure _)

/-- A loop with a condition at either end. -/
theorem doStatement (h : Widens (n - 1) statement statement') :
    Widens n (Production.doStatement statement) (Production.doStatement statement') := by
  refine blockStatement h _ _ optionalLoopCondition (bind (closeBlock _) fun _ => ite ?_ (pure _))
  exact recovering (seq optionalLoopCondition endStatement)

/-- The closing word and perhaps a variable. -/
theorem finishNext : Widens n Production.finishNext Production.finishNext := by
  refine bind (closeBlock _) fun _ => ite (peek fun _ => ?_) (pure _)
  exact when (child (ruleLeaf _)) (recovering endStatement)

/-- A variable, the values that it begins and ends with, and statements. -/
theorem forStatement (h : Widens (n - 1) statement statement') :
    Widens n (Production.forStatement statement) (Production.forStatement statement') := by
  refine blockStatement h _ _ (seq (field _ identifier) (seq optionalAsClause (seq (expectMark _)
    (seq (field _ (nested expression))
      (seq (expectWord _) (seq (field _ (nested expression)) ?_))))))
    finishNext
  exact bind (acceptWord _) fun _ => ite (field _ (nested expression)) (pure _)

/-- A variable, a collection, and statements. -/
theorem forEachStatement (h : Widens (n - 1) statement statement') :
    Widens n (Production.forEachStatement statement) (Production.forEachStatement statement') :=
  blockStatement h _ _ (seq take (seq (field _ identifier) (seq optionalAsClause
    (seq (expectWord _) (field _ (nested expression)))))) finishNext

/-- A variable, a type and a condition, as far as they are there. -/
theorem catchHeader : Widens n Production.catchHeader Production.catchHeader := by
  have hfilter : Wide n (do
      if ← Production.acceptWord .kwWhen then
        Production.field .filter (Production.nested Production.expression)) :=
    bind (acceptWord _) fun _ => ite (field _ (nested expression)) (pure _)
  have hexception : Wide n (do
      Production.field .exception Production.identifier
      if ← Production.acceptWord .kwAs then
        Production.field .type (Production.nested (Production.type true))
      if ← Production.acceptWord .kwWhen then
        Production.field .filter (Production.nested Production.expression)) :=
    seq (field _ identifier) (bind (acceptWord _) fun _ => when (field _ (nested (type _))) hfilter)
  exact peek fun _ => atKind fun _ => ite hexception hfilter

/-- What is caught, and statements. -/
theorem catchBlock (h : Widens (n - 1) statement statement') :
    Widens n (Production.catchBlock statement) (Production.catchBlock statement') :=
  blockPart h _ (seq take catchHeader)

/-- A word and statements. -/
theorem finallyBlock (h : Widens (n - 1) statement statement') :
    Widens n (Production.finallyBlock statement) (Production.finallyBlock statement') :=
  blockPart h _ take

/-- The parts behind the statements are picked by words. -/
theorem tryStatement (h : Widens (n - 1) statement statement') :
    Widens n (Production.tryStatement statement) (Production.tryStatement statement') := by
  refine blockStatement h _ _ (pure ()) (seq (repeatWhile (peek fun kind => ?_)) (finishBlock _))
  split
  · exact round (child (catchBlock h))
  · exact round (child (finallyBlock h))
  · exact pure _

/-- An object and statements. -/
theorem withStatement (h : Widens (n - 1) statement statement') :
    Widens n (Production.withStatement statement) (Production.withStatement statement') :=
  blockStatement h _ _ (field _ (nested expression)) (finishBlock _)

/-- New variables or a value, which two tokens tell apart. -/
theorem resources : Widens n Production.resources Production.resources := by
  have hvariables : Wide n (Production.commaSeparated do
      Production.field .resource Production.identifier
      Production.optionalAsClause
      Production.optionalValue .value) :=
    commaSeparated (seq (field _ identifier) (seq optionalAsClause (optionalValue _)))
  have hvalue : Wide n (Production.field .value (Production.nested Production.expression)) :=
    field _ (nested expression)
  exact peek fun _ => peekAhead fun _ => peekAhead fun _ => ite hvariables hvalue

/-- Resources and statements. -/
theorem usingStatement (h : Widens (n - 1) statement statement') :
    Widens n (Production.usingStatement statement) (Production.usingStatement statement') :=
  blockStatement h _ _ resources (finishBlock _)

/-- A lock and statements. -/
theorem syncLockStatement (h : Widens (n - 1) statement statement') :
    Widens n (Production.syncLockStatement statement) (Production.syncLockStatement statement') :=
  blockStatement h _ _ (field _ (nested expression)) (finishBlock _)

-- ---------------------------------------------------------------------------
-- The choice of the statement
-- ---------------------------------------------------------------------------

/-- A call is taken for an `If` as little with more room as with less of it. -/
theorem ifAmbiguity (h : Widens (n - 1) statement statement') :
    Widens n
      (Production.resolve .ifStatement
        [{ production := Production.callStatement },
         { production := Production.ifStatement statement }])
      (Production.resolve .ifStatement
        [{ production := Production.callStatement },
         { production := Production.ifStatement statement' }]) := by
  refine resolve _ (firstFit ?_ rfl callStatement (fun _ _ => firstFit ?_ rfl (ifStatement h)
    (fun _ _ => noneFits _ _) ?_) ?_)
  · exact fun _ _ _ _ _ _ => rfl
  · exact fun _ _ _ _ _ _ => rfl
  · intro env env' s f s₁ best y s' _ _ _ hrest
    cases hrest
  · intro env env' s f s₁ best y s' henv _ _ hrest _ t ht
    refine exists_error fun z t' hrun => ?_
    have hif := Goes.of_run (firstFit_singleton hrest)
    exact not_call_of_ifStatement henv hif ⟨t, t', ht, hrun, .refl t'⟩

/-- The word picks the statement. An `If` in front of a parenthesis is tried as a call first; where
it is a statement, no call fits with more room either. -/
theorem wordStatement (h : Widens (n - 1) statement statement') (word : Keyword) :
    Widens n (Production.wordStatement statement word)
    (Production.wordStatement statement' word) := by
  unfold Production.wordStatement
  split
  case h_1 | h_2 => exact dimStatement
  case h_3 => exact constDeclaration
  case h_4 => exact callStatement
  case h_5 => exact peekAhead fun _ => ite (ifAmbiguity h) (ifStatement h)
  case h_6 => exact selectStatement h
  case h_7 => exact whileStatement h
  case h_8 => exact doStatement h
  case h_9 => exact peekAhead fun _ => ite (forEachStatement h) (forStatement h)
  case h_10 => exact tryStatement h
  case h_11 => exact withStatement h
  case h_12 => exact usingStatement h
  case h_13 => exact syncLockStatement h
  case h_14 | h_15 => exact valueStatement _
  case h_16 => exact exitStatement
  case h_17 => exact continueStatement
  case h_18 => exact goToStatement
  case h_19 => exact reDimStatement
  case h_20 | h_21 => exact handlerStatement _
  case h_22 => exact raiseEventStatement
  case h_23 => exact expressionStatement

/-- An error region is a complaint, so the statement did not fail. -/
theorem statementOf {kind kind' : Parse Node} (h : Widens n kind kind') :
    Widens n (Production.statementOf kind) (Production.statementOf kind') :=
  orRecover (bind h fun _ => wrap _ _)

/-- By induction on the levels that are left in the smaller room. -/
theorem statementKindUpTo (room n : Nat) :
    Widens n (Production.statementKindUpTo room) (Production.statementKindUpTo n) := by
  refine upTo (p := fun room (_ : Unit) => Production.statementKindUpTo room) (fun _ => rfl)
    (fun _ _ => rfl) (fun room n ih _ => peek fun kind => ?_) room n ()
  split
  · exact ruleLeaf _
  · exact ruleLeaf _
  · exact directive
  · exact wordStatement (n := n + 1) (statementOf (ih ())) _
  · exact expressionStatement

end

/-- The room is that of the place, in both. -/
theorem statement : Widens n Production.statement Production.statement :=
  byRoom (p := fun room => Production.statementOf (Production.statementKindUpTo room)) fun room n =>
    statementOf (statementKindUpTo room n)

end Widens

end VisualBasic.Production
