import VisualBasic.Proofs.DisregardTargets

/-!
# Clauses and simple statements disregard terminators

The clauses of declarations and the statements that take one line. A colon is looked for behind the
target of an attribute, and a line end is skipped behind attributes; so attributes that stand in
front of a declaration have to end in front of the terminator, as they do where a word follows them.

Main results:

* `Disregards.declarationPrefix` — attributes and modifiers that end in front of the terminator.
* `Disregards.endStatement` — the end of a statement, which may be the terminator.
* `Disregards.assignmentStatement`, `Disregards.callStatement` — lines that no word announces.
-/

namespace VisualBasic.Production

open State

variable {through off : Bool}

namespace Disregards

-- The instance that is found for a production is as large as its text.
set_option synthInstance.maxSize 4000

-- ---------------------------------------------------------------------------
-- Variables
-- ---------------------------------------------------------------------------

/-- Bounds are closed by a parenthesis. -/
instance arrayBounds : Disregards through off Production.arrayBounds := by
  unfold Production.arrayBounds
  infer_instance

instance arraySuffix : Disregards through off Production.arraySuffix := by
  unfold Production.arraySuffix
  infer_instance

/-- The type of a variable, or what is created for it. -/
instance asClause : Disregards through off Production.asClause := by
  unfold Production.asClause
  infer_instance

instance optionalAsClause : Disregards through off Production.optionalAsClause := by
  unfold Production.optionalAsClause
  infer_instance

instance optionalValue {f : Field} : Disregards through off (Production.optionalValue f) := by
  unfold Production.optionalValue
  infer_instance

/-- A declared name with its bounds, its type and its value; any of these may end with the
terminator. -/
instance declarator : Disregards through off Production.declarator := by
  unfold Production.declarator
  infer_instance

-- ---------------------------------------------------------------------------
-- Type parameters
-- ---------------------------------------------------------------------------

/-- A constraint is a word or a type. -/
instance typeConstraint : Disregards through off Production.typeConstraint := by
  refine nodeOf (peek rfl ?_ fun kind _ => ?_)
  · infer_instance
  · split <;> infer_instance

instance typeParameter : Disregards through off Production.typeParameter := by
  unfold Production.typeParameter
  infer_instance

/-- Type parameters are closed by a parenthesis. -/
instance typeParameters : Disregards through off Production.typeParameters := by
  unfold Production.typeParameters
  infer_instance

-- ---------------------------------------------------------------------------
-- Attributes and modifiers
-- ---------------------------------------------------------------------------

/-- Whether an attribute has a target is told behind the word that names it. -/
instance attributeItem : Disregards false off Production.attributeItem := by
  refine lookBehind (fun {k env env'} henv s hne => ?_) (fun _ => ?_) Builds.attributeItem
  · have hahead {kind : TokenKind} (hkind : kind.isWithinLine = true) :
        env'.hasAhead s [kind, .mark .colon] = env.hasAhead s [kind, .mark .colon] := by
      simp only [Env.hasAhead, List.zipIdx_cons, List.zipIdx_nil, List.all_cons, List.all_nil,
        Env.kindAhead]
      rw [henv.tokens.beq_kindAt hkind, henv.tokens.kindAt _ hne]
    rw [hahead rfl, hahead rfl]
  · dsimp only
    infer_instance

/-- Attributes are closed by a mark, so they end in front of the terminator. -/
instance attributeBlock : Disregards through off Production.attributeBlock := by
  refine checkDepth.bind fun _ => nodeOf (expectMark.bind fun _ => ?_)
  exact before inferInstance expectEnd (.expectEnd _)

/-- No modifier is a terminator. -/
instance modifiers : Disregards through off Production.modifiers := by
  have hstep : Disregards through false (do
      if (← Production.peek).isModifier then
        Production.child (Production.ruleLeaf .modifier)
        return true
      return false) :=
    peek rfl inferInstance fun _ _ => inferInstance
  exact nodeOf repeatWhile

/-- A line end is skipped behind attributes, so the run has to end in front of the terminator. -/
instance declarationPrefix : Disregards false off Production.declarationPrefix := by
  have hmodifiers : Disregards false false (do
      if (← Production.peek).isModifier then Production.field .modifiers Production.modifiers) :=
    peek rfl inferInstance fun _ _ => inferInstance
  unfold Production.declarationPrefix
  infer_instance

-- ---------------------------------------------------------------------------
-- Parameters and inheritance
-- ---------------------------------------------------------------------------

/-- A parameter with its attributes, its type and its default value. -/
instance parameter : Disregards through off Production.parameter := by
  have hstep : Disregards through false (do
      if Production.isPassing (← Production.peek) then
        Production.take
        return true
      return false) :=
    peek rfl (pure (a := false)) fun _ _ => inferInstance
  unfold Production.parameter
  infer_instance

/-- Parameters are closed by a parenthesis. -/
instance parameters : Disregards through off Production.parameters := by
  unfold Production.parameters
  infer_instance

instance optionalParameters : Disregards through off Production.optionalParameters := by
  unfold Production.optionalParameters
  infer_instance

/-- A row of types behind a word. -/
instance typeListClause {r : Rule} {word : Keyword} :
    Disregards through off (Production.typeListClause r word) := by
  unfold Production.typeListClause
  infer_instance

instance inheritsClause : Disregards through off Production.inheritsClause := typeListClause

instance implementsClause : Disregards through off Production.implementsClause := typeListClause

instance handlesClause : Disregards through off Production.handlesClause := by
  unfold Production.handlesClause
  infer_instance

/-- No clause begins with a terminator. -/
instance inheritanceClauses : Disregards through off Production.inheritanceClauses := by
  refine @repeatWhile _ _ _ (peek rfl inferInstance fun kind _ => ?_)
  split <;> infer_instance

/-- Neither do those about events and interfaces. -/
instance memberClauses : Disregards through off Production.memberClauses := by
  refine @repeatWhile _ _ _ (peek rfl inferInstance fun kind _ => ?_)
  split <;> infer_instance

-- ---------------------------------------------------------------------------
-- Lines
-- ---------------------------------------------------------------------------

/-- A statement ends at either terminator. -/
instance endStatement : Disregards through off Production.endStatement := by
  refine peek rfl skip fun _ _ => either skip ?_
  infer_instance

/-- A statement on a line of its own may end with the terminator. -/
instance line {r : Rule} {content : Parse Unit} [Disregards through off content] :
    Disregards through off (Production.line r content) := by
  unfold Production.line
  infer_instance

/-- Whether there is a value is told alike, since either terminator ends the statement. -/
instance valueStatement {r : Rule} : Disregards through true (Production.valueStatement r) := by
  unfold Production.valueStatement
  infer_instance

/-- An operator of assignment is no terminator, so there is none between the two sides. -/
instance assignmentStatement : Disregards through off Production.assignmentStatement := by
  have hrest : Disregards through false (do
      unless (← Production.peek).isAssignment do Production.fail .assignmentOperator
      Production.field .operator Production.tokenLeaf
      Production.field .right (Production.nested Production.expression)) := by
    refine peek rfl failThen fun kind _ => ?_
    dsimp only
    infer_instance
  unfold Production.assignmentStatement
  infer_instance

instance callStatement : Disregards through off Production.callStatement := by
  unfold Production.callStatement
  infer_instance

instance dimStatement : Disregards through true Production.dimStatement := by
  unfold Production.dimStatement
  infer_instance

/-- A word follows the attributes, so these end in front of the terminator. -/
instance constDeclaration : Disregards through off Production.constDeclaration := by
  have hrest : Disregards true false (Production.commaSeparated do
      Production.field .name Production.identifier
      Production.optionalAsClause
      Production.expectMark .equal
      Production.field .value (Production.nested Production.expression)) := inferInstance
  have hcontent : Disregards through off (do
      Production.declarationPrefix
      Production.expectWord .kwConst
      Production.commaSeparated do
        Production.field .name Production.identifier
        Production.optionalAsClause
        Production.expectMark .equal
        Production.field .value (Production.nested Production.expression)) :=
    -- The word behind the prefix is read, so the prefix has ended in front of the terminator.
    before declarationPrefix inferInstance (Enters.expectWord _).bind
  exact line

/-- A directive is a token with the end of its line. -/
instance directive : Disregards through true Production.directive := line

/-- What is left is a word. -/
instance exitStatement : Disregards through true Production.exitStatement := by
  have hkind : Disregards through false (do
      if Production.canBeExited (← Production.peek) then Production.take
          else Production.fail .blockKindAfterExit) :=
    peek rfl fail fun _ _ => inferInstance
  unfold Production.exitStatement
  infer_instance

/-- What is continued is a word. -/
instance continueStatement : Disregards through true Production.continueStatement := by
  have hkind : Disregards through false (do
      match ← Production.peek with
      | .keyword .kwDo | .keyword .kwFor | .keyword .kwWhile => Production.take
      | _ => Production.fail (.oneOf [.keyword .kwDo, .keyword .kwFor, .keyword .kwWhile])) := by
    refine peek rfl fail fun _ _ => ?_
    split <;> infer_instance
  unfold Production.continueStatement
  infer_instance

instance goToStatement : Disregards through true Production.goToStatement := by
  unfold Production.goToStatement
  infer_instance

instance reDimStatement : Disregards through true Production.reDimStatement := by
  unfold Production.reDimStatement
  infer_instance

instance handlerStatement {r : Rule} : Disregards through true (Production.handlerStatement r) := by
  unfold Production.handlerStatement
  infer_instance

instance raiseEventStatement : Disregards through true Production.raiseEventStatement := by
  unfold Production.raiseEventStatement
  infer_instance

-- ---------------------------------------------------------------------------
-- Headers of blocks
-- ---------------------------------------------------------------------------

/-- A relation to a value, or a range of values. -/
instance caseClause : Disregards through off Production.caseClause := by
  have hvalue (off : Bool) : Disregards through off (do
      if (← Production.peek).isRelational then
        Production.child (Production.ruleLeaf .relationalOperator)
        Production.child (Production.nested Production.expression)
      else
        Production.child (Production.nested Production.expression)
        if ← Production.acceptWord .kwTo then
          Production.child (Production.nested Production.expression)) :=
    peek rfl inferInstance fun _ _ => inferInstance
  unfold Production.caseClause
  dsimp only
  refine nodeOf (acceptWord.bind fun found => ?_)
  exact either (peek rfl failThen fun _ _ => either (hvalue _) failThen) (hvalue _)

/-- A condition begins with a word. -/
instance optionalLoopCondition : Disregards through off Production.optionalLoopCondition := by
  refine testThen (fun env s hs => ?_) inferInstance inferInstance
  rcases Bool.or_eq_true_iff.1 hs with h | h
  · rw [beq_iff_eq.1 h]
    rfl
  · rw [beq_iff_eq.1 h]
    rfl

/-- A name, a type and a filter, any of which may be left out. -/
instance catchHeader : Disregards through off Production.catchHeader := by
  unfold Production.catchHeader
  refine peek rfl ?_ fun kind _ => ?_
  all_goals
    dsimp only
    infer_instance

/-- Whether resources are declared is told by the tokens ahead, none of which is a terminator. -/
instance resources : Disregards through off Production.resources := by
  have hseen : Blind fun env s => (env.kind s).isNameLike &&
      (env.kindAhead s 1 == .keyword .kwAs || env.kindAhead s 1 == .mark .equal) :=
    ⟨fun henv s => by
      have hname := henv.tokens.alike TokenKind.isNameLike rfl s.cursor
      dsimp only [Env.kind, Env.kindAhead]
      rw [hname, henv.tokens.beq_kindAt rfl, henv.tokens.beq_kindAt rfl]⟩
  rw [Phrase.resources_eq]
  exact looks (Looks.test _) hseen fun _ => inferInstance

end Disregards

end VisualBasic.Production
