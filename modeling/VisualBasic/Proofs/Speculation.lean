import VisualBasic.Proofs.LoudDeclarations

/-!
# Speculation

A production that may not fit is tried: a checkpoint of the state is taken, and if the production
fails, the state goes back to it. A checkpoint holds the place, the lengths of what grows, and the
number of `If`s on a single line; going back cuts what has grown to its old length. That this brings
back the very state of the checkpoint rests on two facts about every production: it takes away
nothing that was there before it, and it leaves the node under construction as it was. Here finished
nodes are values, so nothing that was built before can change; where they are kept in a vector, that
nothing has changed is a matter of its own.

The productions of the grammar are listed by name in `OfGrammar`, and those that are tried in
`Tried`.

Main results:

* `Rewinds.undone` — what fails is undone by going back.
* `OfGrammar.rewinds` — every production of the grammar that fails can be undone.
* `Tried.undone`, `Tried.aside` — so what is tried leaves no trace if it fails, and the open blocks
  as they were if it does not.
-/

namespace VisualBasic

namespace Production

open State

/-- The latest of a list that has grown is cut off. -/
theorem drop_of_suffix {α : Type} {l l' : List α} (h : l <:+ l') :
    l'.drop (l'.length - l.length) = l := by
  obtain ⟨grown, rfl⟩ := h
  rw [List.length_append, Nat.add_sub_cancel]
  exact List.drop_left

/-- What a production that fails has done is undone by going back, if the node under construction is
not marked as partial by it. -/
theorem Tidy.restore {α : Type} {p : Parse α} (hp : Tidy false p) {env : Env} {s s' : State}
    {f : Failure} (hrun : p env s = .error f s') (hpartial : s'.isPartial = s.isPartial) :
    s'.restore s.checkpoint = s := by
  have hstrayed := hp env s
  rw [hrun] at hstrayed
  have hblocks : s.blocks <:+ s'.blocks := hstrayed.blocks
  have hchildren : Store.cut (Store.size s.children) s'.children = s.children :=
    drop_of_suffix hstrayed.children
  unfold State.restore State.checkpoint
  dsimp only
  rw [hchildren, drop_of_suffix hstrayed.diagnostics, drop_of_suffix hblocks, hpartial]

/-- What succeeds leaves the open blocks as they were. -/
theorem Tidy.kept {α : Type} {p : Parse α} (hp : Tidy false p) {env : Env} {s s' : State} {a : α}
    (hrun : p env s = .ok a s') : s'.blocks = s.blocks ∧ s'.singleLineIfs = s.singleLineIfs := by
  have hsettled := hp env s
  rw [hrun] at hsettled
  exact ⟨hsettled.blocks, hsettled.singleLineIfs⟩

-- ---------------------------------------------------------------------------
-- The productions of the grammar
-- ---------------------------------------------------------------------------

section

variable {B N : Type} [Builder B N]

/-- The productions of names and types. -/
inductive OfTypes : {α : Type} → Production B α → Prop
  | dottedName : OfTypes Production.dottedName
  | arrayRank : OfTypes Production.arrayRank
  | typeArgumentsOf (room : Nat) :
      OfTypes (Production.typeArgumentsOf (Production.typeUpTo room true))
  | typeUpTo (room : Nat) (ranks : Bool) : OfTypes (Production.typeUpTo room ranks)
  | type (ranks : Bool) : OfTypes (Production.type ranks)
  | typeArguments : OfTypes Production.typeArguments

/-- The productions of expressions. Those that have expressions in them are listed by the levels
that are left for these. -/
inductive OfExpressions : {α : Type} → Production B α → Prop
  | literal (r : Rule) : OfExpressions (Production.literal r)
  | implicitMemberAccess : OfExpressions Production.implicitMemberAccess
  | argumentOf (room : Nat) (level : Int) :
    OfExpressions (Production.argumentOf (Production.expressionUpTo room level))
  | argumentsOf (room : Nat) (level : Int) :
    OfExpressions (Production.argumentsOf (Production.expressionUpTo room level))
  | initializerOf (room : Nat) (level : Int) :
    OfExpressions (Production.initializerOf (Production.expressionUpTo room level))
  | initializersOf (room : Nat) (level : Int) :
    OfExpressions (Production.initializersOf (Production.expressionUpTo room level))
  | parenthesizedOf (room : Nat) (level : Int) :
    OfExpressions (Production.parenthesizedOf (Production.expressionUpTo room level))
  | ternaryOf (room : Nat) (level : Int) :
    OfExpressions (Production.ternaryOf (Production.expressionUpTo room level))
  | newOf (room : Nat) (level : Int) :
    OfExpressions (Production.newOf (Production.expressionUpTo room level))
  | primaryOf (room : Nat) (level : Int) :
    OfExpressions (Production.primaryOf (Production.expressionUpTo room level))
  | postfixOf (room : Nat) (level : Int) :
    OfExpressions (Production.postfixOf (Production.expressionUpTo room level))
  | typeTestOf (room : Nat) : OfExpressions (Production.typeTestOf (Production.expressionUpTo room))
  | unaryOf (room : Nat) : OfExpressions (Production.unaryOf (Production.expressionUpTo room))
  | expressionUpTo (room : Nat) (level : Int) : OfExpressions (Production.expressionUpTo room level)
  | expression : OfExpressions Production.expression
  | arguments : OfExpressions Production.arguments
  | initializers : OfExpressions Production.initializers
  | leftHandSide : OfExpressions Production.leftHandSide

/-- The productions that go on from a finished node. -/
inductive GoesOn (first : N) : {α : Type} → Production B α → Prop
  | memberAccess : GoesOn first (Production.memberAccess first)
  | elementAccessOf (room : Nat) (level : Int) :
    GoesOn first (Production.elementAccessOf (Production.expressionUpTo room level) first)
  | invocationOf (room : Nat) (level : Int) :
    GoesOn first (Production.invocationOf (Production.expressionUpTo room level) first)
  | callOrIndexOf (room : Nat) (level : Int) :
    GoesOn first (Production.callOrIndexOf (Production.expressionUpTo room level) first)
  | extendOf (room : Nat) (level : Int) :
    GoesOn first (Production.extendOf (Production.expressionUpTo room) level first)

/-- The productions of clauses, which statements and declarations share. -/
inductive OfClauses : {α : Type} → Production B α → Prop
  | arrayBounds : OfClauses Production.arrayBounds
  | arraySuffix : OfClauses Production.arraySuffix
  | asClause : OfClauses Production.asClause
  | optionalAsClause : OfClauses Production.optionalAsClause
  | optionalValue (f : Field) : OfClauses (Production.optionalValue f)
  | declarator : OfClauses Production.declarator
  | typeConstraint : OfClauses Production.typeConstraint
  | typeParameter : OfClauses Production.typeParameter
  | typeParameters : OfClauses Production.typeParameters
  | attributeItem : OfClauses Production.attributeItem
  | attributeBlock : OfClauses Production.attributeBlock
  | modifiers : OfClauses Production.modifiers
  | declarationPrefix : OfClauses Production.declarationPrefix
  | parameter : OfClauses Production.parameter
  | parameters : OfClauses Production.parameters
  | optionalParameters : OfClauses Production.optionalParameters
  | inheritsClause : OfClauses Production.inheritsClause
  | implementsClause : OfClauses Production.implementsClause
  | handlesClause : OfClauses Production.handlesClause
  | inheritanceClauses : OfClauses Production.inheritanceClauses
  | memberClauses : OfClauses Production.memberClauses

/-- The statements in a block, by the levels that are left. -/
@[reducible] def inBlock (room : Nat) : Production B N :=
  Production.statementOf (Production.statementKindUpTo room)

/-- The productions of statements. -/
inductive OfStatements : {α : Type} → Production B α → Prop
  | valueStatement (r : Rule) : OfStatements (Production.valueStatement r)
  | labelStatement : OfStatements Production.labelStatement
  | assignmentStatement : OfStatements Production.assignmentStatement
  | callStatement : OfStatements Production.callStatement
  | expressionStatement : OfStatements Production.expressionStatement
  | dimStatement : OfStatements Production.dimStatement
  | constDeclaration : OfStatements Production.constDeclaration
  | directive : OfStatements Production.directive
  | exitStatement : OfStatements Production.exitStatement
  | continueStatement : OfStatements Production.continueStatement
  | goToStatement : OfStatements Production.goToStatement
  | reDimStatement : OfStatements Production.reDimStatement
  | handlerStatement (r : Rule) : OfStatements (Production.handlerStatement r)
  | raiseEventStatement : OfStatements Production.raiseEventStatement
  | statements (room : Nat) : OfStatements (Production.statements (inBlock room))
  | elseIfClause (room : Nat) : OfStatements (Production.elseIfClause (inBlock room))
  | elseClause (room : Nat) : OfStatements (Production.elseClause (inBlock room))
  | ifLine (room : Nat) : OfStatements (Production.ifLine (inBlock room))
  | ifStatement (room : Nat) : OfStatements (Production.ifStatement (inBlock room))
  | caseClause : OfStatements Production.caseClause
  | caseBlock (room : Nat) : OfStatements (Production.caseBlock (inBlock room))
  | caseElseBlock (room : Nat) : OfStatements (Production.caseElseBlock (inBlock room))
  | selectStatement (room : Nat) : OfStatements (Production.selectStatement (inBlock room))
  | whileStatement (room : Nat) : OfStatements (Production.whileStatement (inBlock room))
  | optionalLoopCondition : OfStatements Production.optionalLoopCondition
  | doStatement (room : Nat) : OfStatements (Production.doStatement (inBlock room))
  | forStatement (room : Nat) : OfStatements (Production.forStatement (inBlock room))
  | forEachStatement (room : Nat) : OfStatements (Production.forEachStatement (inBlock room))
  | catchHeader : OfStatements Production.catchHeader
  | catchBlock (room : Nat) : OfStatements (Production.catchBlock (inBlock room))
  | finallyBlock (room : Nat) : OfStatements (Production.finallyBlock (inBlock room))
  | tryStatement (room : Nat) : OfStatements (Production.tryStatement (inBlock room))
  | withStatement (room : Nat) : OfStatements (Production.withStatement (inBlock room))
  | resources : OfStatements Production.resources
  | usingStatement (room : Nat) : OfStatements (Production.usingStatement (inBlock room))
  | syncLockStatement (room : Nat) : OfStatements (Production.syncLockStatement (inBlock room))
  | wordStatement (room : Nat) (word : Keyword) :
    OfStatements (Production.wordStatement (inBlock room) word)
  | statementKindUpTo (room : Nat) : OfStatements (Production.statementKindUpTo room)
  | statementUpTo (room : Nat) :
    OfStatements (Production.statementKindUpTo room >>= Production.wrap .statement)
  | inBlock (room : Nat) : OfStatements (inBlock room)
  | statement : OfStatements Production.statement

/-- The productions of declarations and of what a file holds. -/
inductive OfDeclarations : {α : Type} → Production B α → Prop
  | blankLine : OfDeclarations Production.blankLine
  | signature (isFunction : Bool) : OfDeclarations (Production.signature isFunction)
  | routineHeader (isConstructor : Bool) : OfDeclarations (Production.routineHeader isConstructor)
  | routineWithBody (r : Rule) : OfDeclarations (Production.routineWithBody r)
  | routineWithoutBody (r : Rule) : OfDeclarations (Production.routineWithoutBody r)
  | methodDeclaration : OfDeclarations Production.methodDeclaration
  | constructorDeclaration : OfDeclarations Production.constructorDeclaration
  | propertyHeader : OfDeclarations Production.propertyHeader
  | accessor : OfDeclarations Production.accessor
  | propertyWithAccessors : OfDeclarations Production.propertyWithAccessors
  | propertyWithoutAccessors : OfDeclarations Production.propertyWithoutAccessors
  | propertyDeclaration : OfDeclarations Production.propertyDeclaration
  | eventHeader : OfDeclarations Production.eventHeader
  | addHandlerBlock : OfDeclarations (Production.eventAccessor .addHandlerBlock .kwAddHandler)
  | removeHandlerBlock :
      OfDeclarations (Production.eventAccessor .removeHandlerBlock .kwRemoveHandler)
  | raiseEventBlock : OfDeclarations (Production.eventAccessor .raiseEventBlock .kwRaiseEvent)
  | eventWithAccessors : OfDeclarations Production.eventWithAccessors
  | eventWithoutAccessors : OfDeclarations Production.eventWithoutAccessors
  | eventDeclaration : OfDeclarations Production.eventDeclaration
  | fieldDeclaration : OfDeclarations Production.fieldDeclaration
  | enumMember : OfDeclarations Production.enumMember
  | enumBlock : OfDeclarations Production.enumBlock
  | delegateDeclaration : OfDeclarations Production.delegateDeclaration
  | member (room : Nat) : OfDeclarations (Production.member (Production.typeDeclarationUpTo room))
  | classBlock (room : Nat) :
    OfDeclarations (Production.typeBlock (Production.typeDeclarationUpTo room) .classBlock .kwClass)
  | moduleBlock (room : Nat) :
    OfDeclarations (Production.typeBlock (Production.typeDeclarationUpTo room)
      .moduleBlock .kwModule)
  | structureBlock (room : Nat) : OfDeclarations
    (Production.typeBlock (Production.typeDeclarationUpTo room) .structureBlock .kwStructure)
  | interfaceBlock (room : Nat) : OfDeclarations
    (Production.typeBlock (Production.typeDeclarationUpTo room) .interfaceBlock .kwInterface)
  | typeDefinition (room : Nat) :
    OfDeclarations (Production.typeDefinition (Production.typeDeclarationUpTo room))
  | typeDeclarationUpTo (room : Nat) : OfDeclarations (Production.typeDeclarationUpTo room)
  | typeDeclaration : OfDeclarations Production.typeDeclaration
  | optionSetting : OfDeclarations Production.optionSetting
  | optionStatements : OfDeclarations Production.optionStatements
  | importsStatement : OfDeclarations Production.importsStatement
  | fileAttribute : OfDeclarations Production.fileAttribute
  | namespaceBlockUpTo (room : Nat) : OfDeclarations (Production.namespaceBlockUpTo room)
  | fileItemOf (room : Nat) :
    OfDeclarations (Production.fileItemOf (Production.namespaceBlockUpTo room))
  | fileItem : OfDeclarations Production.fileItem
  | sourceFile : OfDeclarations Production.sourceFile

/-- The productions of the grammar, by the finished node from which they go on, if there is one. -/
inductive InGrammar {α : Type} (p : Production B α) : Option N → Prop
  | types (h : OfTypes p) : InGrammar p none
  | expressions (h : OfExpressions p) : InGrammar p none
  | goesOn {first : N} (h : GoesOn first p) : InGrammar p (some first)
  | clauses (h : OfClauses p) : InGrammar p none
  | statements (h : OfStatements p) : InGrammar p none
  | declarations (h : OfDeclarations p) : InGrammar p none

/-- The productions of the grammar. -/
def OfGrammar {α : Type} (p : Production B α) : Prop := ∃ first, InGrammar p first

end

-- ---------------------------------------------------------------------------
-- What never fails, and what builds aside
-- ---------------------------------------------------------------------------

namespace NeverFails

variable {B N : Type} [Builder B N]

theorem body {item : Production B Unit} (h : NeverFails item) :
    NeverFails (Production.body item) := by
  refine repeatWhile (bind (test _) fun ends => ?_)
  split
  · exact pure _
  · exact bind h fun _ => pure _

theorem statements {statement : Production B N} (h : NeverFails statement) :
    NeverFails (Production.statements statement) :=
  body (child (nested h))

theorem ifLine {statement : Production B N} (h : NeverFails statement) :
    NeverFails (Production.ifLine statement) := by
  have hfield (f : Field) : NeverFails (Production.field f (Production.nested statement)) :=
    bind (nested h) fun _ _ _ => ⟨_, _, rfl⟩
  have hword : NeverFails (Production.acceptWord .kwElse : Production B Bool) := by
    refine bind (test _) fun found => ?_
    split
    · exact bind (fun _ _ => ⟨_, _, rfl⟩) fun _ => pure _
    · exact pure _
  refine bind (fun _ _ => ⟨_, _, rfl⟩) fun _ => bind (hfield _) fun _ => bind hword fun found => ?_
  split
  · exact bind (hfield _) fun _ _ _ => ⟨_, _, rfl⟩
  · exact fun _ _ => ⟨_, _, rfl⟩

theorem statement : NeverFails (Production.statement : Production B N) := by
  intro env s
  exact orRecover (Production.statementKindUpTo env.room >>= Production.wrap .statement) env s

theorem member (typeDeclaration : Production B N) :
    NeverFails (Production.member typeDeclaration) := by
  rw [Passage.member_eq]
  refine bind (fun _ _ => ⟨_, _, rfl⟩) fun kind => ?_
  split
  · exact leaf _
  · refine bind (fun _ _ => ⟨_, _, rfl⟩) fun what => ?_
    unfold Passage.memberOr
    split
    · exact orRecover _
    · exact fun env s => recover _ env s

theorem fileItem : NeverFails (Production.fileItem : Production B N) :=
  fun env s => fileItemOf _ env s

end NeverFails

/-- Of two rules for a node, either builds it aside. -/
theorem Aside.resolveNodes (a : Ambiguity) {v : Env → State → Bool} (r r' : Rule)
    (body body' : Parse Unit) :
    Aside Node.IsPart (Production.resolve a
      [{ viable := v, production := Production.node r body },
       { production := Production.node r' body' }]) :=
  Aside.resolve a (List.forall_mem_cons.2 ⟨(Aside.node _ _).isPart,
    List.forall_mem_cons.2 ⟨(Aside.node _ _).isPart, nofun⟩⟩)

theorem Aside.accessor : Aside Node.IsPart Production.accessor :=
  Aside.look Looks.peekBehindPrefix fun _ => (Aside.node _ _).isPart

-- ---------------------------------------------------------------------------
-- Every production can be undone
-- ---------------------------------------------------------------------------

section

variable {α : Type} {p : Parse α}

/-- The production takes away nothing that was there before it; if it fails, the node under
construction is not marked by it. -/
structure Rewinds (p : Parse α) : Prop where
  tidy : Tidy false p
  unmarked : ∀ env s f s', p env s = .error f s' → s'.isPartial = s.isPartial

/-- What fails is undone by going back to where it began. -/
theorem Rewinds.undone (h : Rewinds p) {env : Env} {s s' : State} {f : Failure}
    (hrun : p env s = .error f s') : s'.restore s.checkpoint = s :=
  h.tidy.restore hrun (h.unmarked env s f s' hrun)

theorem Rewinds.of_hushed (h : Hushed p) : Rewinds p := by
  refine ⟨.of_hushed h, fun env s f s' hrun => ?_⟩
  have honward := h env s
  rw [hrun] at honward
  exact honward.isPartial

/-- A phrase can be undone, wherever it stands. -/
theorem Rewinds.phrase (spot : Spot) {r : α → α → Prop} {lands : Bool}
    (h : Phrase 0 false spot false lands r p p) : Rewinds p :=
  .of_hushed h.hushed

/-- So can a passage that builds its node aside. -/
theorem Rewinds.passage (spot : Spot) {r : α → α → Prop} (h : Passage 0 false spot false r p p)
    {good : α → Prop} (haside : Aside good p) : Rewinds p := by
  refine ⟨h.tidy, fun env s f s' hrun => ?_⟩
  have hsame := haside.sameNode env s
  rw [hrun] at hsame
  exact hsame.isPartial

/-- There is nothing to undo in a passage that never fails. -/
theorem Rewinds.unfailing (spot : Spot) {r : α → α → Prop} (h : Passage 0 false spot false r p p)
    (hnever : NeverFails p) : Rewinds p := by
  refine ⟨h.tidy, fun env s f s' hrun => ?_⟩
  obtain ⟨a, s₁, hok⟩ := hnever env s
  rw [hrun] at hok
  cases hok

/-- Some place with a word ahead. -/
@[reducible] def atWordSpot (word : Keyword) : Spot := ⟨false, [(· == .keyword word)]⟩

theorem OfTypes.rewinds (h : OfTypes p) : Rewinds p := by
  cases h with
  | dottedName => exact .phrase {} Phrase.dottedName
  | arrayRank => exact .phrase {} Phrase.arrayRank
  | typeArgumentsOf room => exact .phrase {} (Phrase.typeArgumentsOf (Phrase.typeUpTo room true))
  | typeUpTo room ranks => exact .phrase {} (Phrase.typeUpTo room ranks)
  | type ranks => exact .phrase {} (Phrase.type ranks)
  | typeArguments => exact .phrase {} Phrase.typeArguments

theorem OfExpressions.rewinds (h : OfExpressions p) : Rewinds p := by
  have hexpr (room : Nat) (level : Int) {spot : Spot} :
      Gives 0 false spot true (Production.expressionUpTo room level) :=
    Phrase.expressionUpTo room level
  have hbuilds (room : Nat) (level : Int) :
      Builds .quiet 0 true (Production.expressionUpTo room level) :=
    Builds.expressionUpTo room level
  have hword {word : Keyword} (h : (TokenKind.keyword word).isWord = true) :
      Readable false false (· == .keyword word) := .word h
  cases h with
  | literal r => exact .phrase (atWordSpot .kwTrue) (Phrase.literal r (hword rfl))
  | implicitMemberAccess => exact .phrase {} Phrase.implicitMemberAccess
  | argumentOf room level => exact .phrase {} (Phrase.argumentOf (hexpr room level))
  | argumentsOf room level =>
    exact .phrase {} (Phrase.argumentsOf (hexpr room level) (hbuilds room level))
  | initializerOf room level => exact .phrase {} (Phrase.initializerOf (hexpr room level))
  | initializersOf room level => exact .phrase {} (Phrase.initializersOf (hexpr room level))
  | parenthesizedOf room level => exact .phrase {} (Phrase.parenthesizedOf (hexpr room level))
  | ternaryOf room level =>
    exact .phrase (atWordSpot .kwIf) (Phrase.ternaryOf (hexpr room level) (hword rfl))
  | newOf room level =>
    exact .phrase (atWordSpot .kwNew)
      (Phrase.newOf (hexpr room level) (hbuilds room level) (hword rfl))
  | primaryOf room level =>
    exact .phrase {} (Phrase.primaryOf (hexpr room level) (hbuilds room level))
  | postfixOf room level =>
    exact .phrase {} (Phrase.postfixOf (hexpr room level) (hbuilds room level))
  | typeTestOf room =>
    exact .phrase (atWordSpot .kwTypeOf)
      (Phrase.typeTestOf (fun level => hexpr room level) (hword rfl))
  | unaryOf room =>
    exact .phrase {} (Phrase.unaryOf (fun level => hexpr room level) (hbuilds room _))
  | expressionUpTo room level => exact .phrase {} (hexpr room level)
  | expression => exact .phrase {} Phrase.expression
  | arguments => exact .phrase {} Phrase.arguments
  | initializers => exact .phrase {} Phrase.initializers
  | leftHandSide => exact .phrase {} Phrase.leftHandSide

theorem GoesOn.rewinds {first : Node} (h : GoesOn first p) : Rewinds p := by
  have hexpr (room : Nat) (level : Int) {spot : Spot} :
      Gives 0 false spot true (Production.expressionUpTo room level) :=
    Phrase.expressionUpTo room level
  have hbuilds (room : Nat) (level : Int) :
      Builds .quiet 0 true (Production.expressionUpTo room level) :=
    Builds.expressionUpTo room level
  have hsame : first.Alike 0 first := rfl
  cases h with
  | memberAccess => exact .phrase (.plain true) (Phrase.memberAccess hsame rfl)
  | elementAccessOf room level => exact .phrase {} (Phrase.elementAccessOf (hexpr room level) hsame)
  | invocationOf room level =>
    exact .phrase {} (Phrase.invocationOf (hexpr room level) (hbuilds room level) hsame)
  | callOrIndexOf room level =>
    exact .phrase {} (Phrase.callOrIndexOf (hexpr room level) (hbuilds room level) hsame)
  | extendOf room level =>
    exact .phrase (.plain true) (Phrase.extendOf (fun level => hexpr room level) level hsame)

theorem OfClauses.rewinds (h : OfClauses p) : Rewinds p := by
  cases h with
  | arrayBounds => exact .phrase {} Phrase.arrayBounds
  | arraySuffix => exact .phrase {} Phrase.arraySuffix
  | asClause => exact .phrase {} Phrase.asClause
  | optionalAsClause => exact .phrase {} Phrase.optionalAsClause
  | optionalValue f => exact .phrase {} (Phrase.optionalValue f)
  | declarator => exact .phrase {} Phrase.declarator
  | typeConstraint => exact .phrase {} Phrase.typeConstraint
  | typeParameter => exact .phrase {} Phrase.typeParameter
  | typeParameters => exact .phrase {} Phrase.typeParameters
  | attributeItem => exact .phrase {} Phrase.attributeItem
  | attributeBlock => exact .phrase {} (Phrase.attributeBlock (.inr rfl))
  | modifiers => exact .phrase {} Phrase.modifiers
  | declarationPrefix => exact .phrase {} Phrase.declarationPrefix
  | parameter => exact .phrase (.plain true) Phrase.parameter
  | parameters => exact .phrase {} Phrase.parameters
  | optionalParameters => exact .phrase {} Phrase.optionalParameters
  | inheritsClause => exact .phrase {} (Phrase.typeListClause .inheritsClause rfl)
  | implementsClause => exact .phrase {} (Phrase.typeListClause .implementsClause rfl)
  | handlesClause => exact .phrase {} Phrase.handlesClause
  | inheritanceClauses => exact .phrase {} Phrase.inheritanceClauses
  | memberClauses => exact .phrase {} Phrase.memberClauses

theorem OfStatements.rewinds (h : OfStatements p) : Rewinds p := by
  have hstmt (room : Nat) : MakesStatements 0 false (Production.inBlock room) :=
    Passage.makesStatements_of (Passage.statementKindUpTo room)
  have hnever (room : Nat) : NeverFails (Production.inBlock room : Parse Node) :=
    NeverFails.orRecover _
  have hword {word : Keyword} (h : (TokenKind.keyword word).isWord = true) :
      Readable false false (· == .keyword word) := .word h
  cases h with
  | valueStatement r => exact .phrase (atWordSpot .kwReturn) (Phrase.valueStatement r (hword rfl))
  | labelStatement => exact .phrase {} Phrase.labelStatement
  | assignmentStatement => exact .phrase {} Phrase.assignmentStatement
  | callStatement => exact .phrase {} Phrase.callStatement
  | expressionStatement => exact .passage {} Passage.expressionStatement Aside.expressionStatement
  | dimStatement => exact .phrase (atWordSpot .kwDim) (Phrase.dimStatement (hword rfl))
  | constDeclaration => exact .phrase {} Phrase.constDeclaration
  | directive => exact .phrase (atWordSpot .kwDim) (Phrase.directive (hword rfl))
  | exitStatement => exact .phrase (atWordSpot .kwExit) (Phrase.exitStatement (hword rfl))
  | continueStatement =>
    exact .phrase (atWordSpot .kwContinue) (Phrase.continueStatement (hword rfl))
  | goToStatement => exact .phrase (atWordSpot .kwGoTo) (Phrase.goToStatement (hword rfl))
  | reDimStatement => exact .phrase (atWordSpot .kwReDim) (Phrase.reDimStatement (hword rfl))
  | handlerStatement r =>
    exact .phrase (atWordSpot .kwAddHandler) (Phrase.handlerStatement r (hword rfl))
  | raiseEventStatement =>
    exact .phrase (atWordSpot .kwRaiseEvent) (Phrase.raiseEventStatement (hword rfl))
  | statements room =>
    exact .unfailing {} (Passage.statements (hstmt room)) (NeverFails.statements (hnever room))
  | elseIfClause room =>
    exact .passage (atWordSpot .kwElseIf) (Passage.elseIfClause (hstmt room) (hword rfl))
      (Aside.node _ _)
  | elseClause room =>
    exact .passage (atWordSpot .kwElse) (Passage.elseClause (hstmt room) (hword rfl))
      (Aside.node _ _)
  | ifLine room =>
    exact .unfailing {} (Passage.ifLine (hstmt room)) (NeverFails.ifLine (hnever room))
  | ifStatement room => exact .passage {} (Passage.ifStatement (hstmt room)) (Aside.node _ _)
  | caseClause => exact .phrase (.plain true) Phrase.caseClause
  | caseBlock room =>
    exact .passage (atWordSpot .kwCase) (Passage.caseBlock (hstmt room) (hword rfl))
      (Aside.node _ _)
  | caseElseBlock room =>
    exact .passage ⟨false, [(· == .keyword .kwCase), (· == .keyword .kwElse)]⟩
      (Passage.caseElseBlock (hstmt room)) (Aside.node _ _)
  | selectStatement room =>
    exact .passage (atWordSpot .kwSelect) (Passage.selectStatement (hstmt room) (hword rfl))
      (Aside.node _ _)
  | whileStatement room =>
    exact .passage (atWordSpot .kwWhile) (Passage.whileStatement (hstmt room) (hword rfl))
      (Aside.node _ _)
  | optionalLoopCondition => exact .phrase {} Phrase.loopCondition
  | doStatement room =>
    exact .passage (atWordSpot .kwDo) (Passage.doStatement (hstmt room) (hword rfl))
      (Aside.node _ _)
  | forStatement room =>
    exact .passage (atWordSpot .kwFor) (Passage.forStatement (hstmt room) (hword rfl))
      (Aside.node _ _)
  | forEachStatement room =>
    exact .passage ⟨false, [(· == .keyword .kwFor), (· == .keyword .kwEach)]⟩
      (Passage.forEachStatement (hstmt room) (hword rfl)) (Aside.node _ _)
  | catchHeader => exact .phrase (.plain true) Phrase.catchHeader
  | catchBlock room =>
    exact .passage (atWordSpot .kwCatch) (Passage.catchBlock (hstmt room) (hword rfl))
      (Aside.node _ _)
  | finallyBlock room =>
    exact .passage (atWordSpot .kwFinally) (Passage.finallyBlock (hstmt room) (hword rfl))
      (Aside.node _ _)
  | tryStatement room =>
    exact .passage (atWordSpot .kwTry) (Passage.tryStatement (hstmt room) (hword rfl))
      (Aside.node _ _)
  | withStatement room =>
    exact .passage (atWordSpot .kwWith) (Passage.withStatement (hstmt room) (hword rfl))
      (Aside.node _ _)
  | resources => exact .phrase {} Phrase.resources
  | usingStatement room =>
    exact .passage (atWordSpot .kwUsing) (Passage.usingStatement (hstmt room) (hword rfl))
      (Aside.node _ _)
  | syncLockStatement room =>
    exact .passage (atWordSpot .kwSyncLock) (Passage.syncLockStatement (hstmt room) (hword rfl))
      (Aside.node _ _)
  | wordStatement room word =>
    exact .passage (atWordSpot word) (Passage.wordStatement (hstmt room) word)
      (Aside.wordStatement word)
  | statementKindUpTo room =>
    exact .passage {} (Passage.statementKindUpTo room) (Aside.statementKindUpTo room)
  | statementUpTo room =>
    exact .passage {} (Passage.wrapped .statement (Passage.statementKindUpTo room))
      (Aside.statementWrapped (Aside.statementKindUpTo room))
  | inBlock room => exact .unfailing {} (hstmt room).makes (hnever room)
  | statement => exact .unfailing {} Passage.statement NeverFails.statement

theorem OfDeclarations.rewinds (h : OfDeclarations p) : Rewinds p := by
  have htype (room : Nat) {spot : Spot} :
      Makes 0 false spot (Production.typeDeclarationUpTo room) :=
    Passage.typeDeclarationUpTo room
  have hbuilds (room : Nat) : Builds .loud 0 true (Production.typeDeclarationUpTo room) :=
    Builds.typeDeclarationUpTo room
  have hword {word : Keyword} (h : (TokenKind.keyword word).isWord = true) :
      Readable false false (· == .keyword word) := .word h
  cases h with
  | blankLine => exact .of_hushed (Hushed.leaf _)
  | signature isFunction => exact .phrase (.plain true) (Phrase.signature isFunction)
  | routineHeader isConstructor => exact .phrase {} (Phrase.routineHeader isConstructor)
  | routineWithBody r => exact .passage {} (Passage.routineWithBody r) (Aside.node _ _)
  | routineWithoutBody r => exact .phrase {} (Passage.routineWithoutBody r)
  | methodDeclaration => exact .passage {} (Passage.routine _ _) (Aside.resolveNodes _ _ _ _ _)
  | constructorDeclaration => exact .passage {} (Passage.routine _ _) (Aside.resolveNodes _ _ _ _ _)
  | propertyHeader => exact .phrase {} Phrase.propertyHeader
  | accessor => exact .passage {} Passage.accessor Aside.accessor
  | propertyWithAccessors => exact .passage {} Passage.propertyWithAccessors (Aside.node _ _)
  | propertyWithoutAccessors => exact .phrase {} Passage.propertyWithoutAccessors
  | propertyDeclaration =>
    exact .passage {} Passage.propertyDeclaration (Aside.resolveNodes _ _ _ _ _)
  | eventHeader => exact .phrase {} Phrase.eventHeader
  | addHandlerBlock =>
    exact .passage (atWordSpot .kwAddHandler) (Passage.eventAccessor _ rfl) (Aside.node _ _)
  | removeHandlerBlock =>
    exact .passage (atWordSpot .kwRemoveHandler) (Passage.eventAccessor _ rfl) (Aside.node _ _)
  | raiseEventBlock =>
    exact .passage (atWordSpot .kwRaiseEvent) (Passage.eventAccessor _ rfl) (Aside.node _ _)
  | eventWithAccessors => exact .passage {} Passage.eventWithAccessors (Aside.node _ _)
  | eventWithoutAccessors => exact .phrase {} (Phrase.node _ Phrase.eventHeader)
  | eventDeclaration => exact .passage {} Passage.eventDeclaration (Aside.resolveNodes _ _ _ _ _)
  | fieldDeclaration => exact .phrase {} Phrase.fieldDeclaration
  | enumMember => exact .phrase {} Phrase.enumMember
  | enumBlock => exact .passage {} Passage.enumBlock (Aside.node _ _)
  | delegateDeclaration => exact .phrase {} Phrase.delegateDeclaration
  | member room =>
    exact .passage {} (Passage.member (htype room)) (Aside.member (Aside.typeDeclarationUpTo room))
  | classBlock room =>
    exact .passage {} (Passage.typeBlock (htype room) (hbuilds room) _ rfl) (Aside.node _ _)
  | moduleBlock room =>
    exact .passage {} (Passage.typeBlock (htype room) (hbuilds room) _ rfl) (Aside.node _ _)
  | structureBlock room =>
    exact .passage {} (Passage.typeBlock (htype room) (hbuilds room) _ rfl) (Aside.node _ _)
  | interfaceBlock room =>
    exact .passage {} (Passage.typeBlock (htype room) (hbuilds room) _ rfl) (Aside.node _ _)
  | typeDefinition room =>
    exact .passage {} (Passage.typeDefinition (htype room) (hbuilds room)) Aside.typeDefinition
  | typeDeclarationUpTo room => exact .passage {} (htype room) (Aside.typeDeclarationUpTo room)
  | typeDeclaration => exact .passage {} Passage.typeDeclaration Aside.typeDeclaration
  | optionSetting => exact .phrase (.plain true) Phrase.optionSetting
  | optionStatements => exact .phrase {} Phrase.optionStatements
  | importsStatement => exact .phrase (atWordSpot .kwImports) (Phrase.importsStatement (hword rfl))
  | fileAttribute => exact .phrase {} Phrase.fileAttribute
  | namespaceBlockUpTo room =>
    exact .passage (atWordSpot .kwNamespace) (Passage.namespaceBlockUpTo room)
      (Aside.namespaceBlockUpTo room)
  | fileItemOf room =>
    exact .passage {} (Passage.fileItemOf (Passage.namespaceBlockUpTo room))
      (Aside.fileItemOf (Aside.namespaceBlockUpTo room))
  | fileItem => exact .unfailing {} Passage.fileItem NeverFails.fileItem
  | sourceFile => exact .passage {} Passage.sourceFile (Aside.node _ _)

/-- Every production of the grammar that fails can be undone. -/
theorem OfGrammar.rewinds (h : OfGrammar p) : Rewinds p := by
  obtain ⟨first, h⟩ := h
  cases h with
  | types h => exact h.rewinds
  | expressions h => exact h.rewinds
  | goesOn h => exact h.rewinds
  | clauses h => exact h.rewinds
  | statements h => exact h.rewinds
  | declarations h => exact h.rewinds

/-- Every production of the grammar takes nothing away that was there before it. -/
theorem OfGrammar.tidy (h : OfGrammar p) : Tidy false p := h.rewinds.tidy

end

-- ---------------------------------------------------------------------------
-- What is tried
-- ---------------------------------------------------------------------------

section

variable {B N : Type} [Builder B N]

/-- The productions that are tried: the rules of ambiguities, the kinds of statements, and what is
covered by an error region if it fails. -/
inductive Tried : Production B N → Prop
  | labelStatement : Tried Production.labelStatement
  | assignmentStatement : Tried Production.assignmentStatement
  | callStatement : Tried Production.callStatement
  | ifStatement (room : Nat) : Tried (Production.ifStatement (inBlock room))
  | routineWithBody (r : Rule) : Tried (Production.routineWithBody r)
  | routineWithoutBody (r : Rule) : Tried (Production.routineWithoutBody r)
  | propertyWithAccessors : Tried Production.propertyWithAccessors
  | propertyWithoutAccessors : Tried Production.propertyWithoutAccessors
  | eventWithAccessors : Tried Production.eventWithAccessors
  | eventWithoutAccessors : Tried Production.eventWithoutAccessors
  | statementKindUpTo (room : Nat) : Tried (Production.statementKindUpTo room)
  | statementUpTo (room : Nat) :
    Tried (Production.statementKindUpTo room >>= Production.wrap .statement)
  | enumMember : Tried Production.enumMember
  | constDeclaration : Tried Production.constDeclaration
  | fieldDeclaration : Tried Production.fieldDeclaration
  | methodDeclaration : Tried Production.methodDeclaration
  | constructorDeclaration : Tried Production.constructorDeclaration
  | propertyDeclaration : Tried Production.propertyDeclaration
  | eventDeclaration : Tried Production.eventDeclaration
  | typeDeclarationUpTo (room : Nat) : Tried (Production.typeDeclarationUpTo room)
  | typeDeclaration : Tried Production.typeDeclaration
  | optionStatements : Tried Production.optionStatements
  | importsStatement : Tried Production.importsStatement
  | fileAttribute : Tried Production.fileAttribute
  | namespaceBlockUpTo (room : Nat) : Tried (Production.namespaceBlockUpTo room)

/-- A member of a type is tried, whatever announces it. -/
theorem Tried.of_memberProduction {room : Nat} {env : Env} {s : State B} {p : Production B N}
    (h : memberProduction? (Production.typeDeclarationUpTo room) env s = some p) : Tried p := by
  unfold memberProduction? at h
  dsimp only at h
  split at h
  case h_1 => cases h; exact .constDeclaration
  case h_2 =>
    cases h
    split
    · exact .constructorDeclaration
    · exact .methodDeclaration
  case h_3 => cases h; exact .methodDeclaration
  case h_4 => cases h; exact .propertyDeclaration
  case h_5 => cases h; exact .eventDeclaration
  case h_12 => cases h; exact .fieldDeclaration
  case h_13 =>
    split at h
    · cases h; exact .fieldDeclaration
    · cases h
  all_goals cases h; exact .typeDeclarationUpTo room

theorem Tried.inGrammar {p : Production B N} (h : Tried p) : InGrammar p none := by
  cases h with
  | labelStatement => exact .statements .labelStatement
  | assignmentStatement => exact .statements .assignmentStatement
  | callStatement => exact .statements .callStatement
  | ifStatement room => exact .statements (.ifStatement room)
  | routineWithBody r => exact .declarations (.routineWithBody r)
  | routineWithoutBody r => exact .declarations (.routineWithoutBody r)
  | propertyWithAccessors => exact .declarations .propertyWithAccessors
  | propertyWithoutAccessors => exact .declarations .propertyWithoutAccessors
  | eventWithAccessors => exact .declarations .eventWithAccessors
  | eventWithoutAccessors => exact .declarations .eventWithoutAccessors
  | statementKindUpTo room => exact .statements (.statementKindUpTo room)
  | statementUpTo room => exact .statements (.statementUpTo room)
  | enumMember => exact .declarations .enumMember
  | constDeclaration => exact .statements .constDeclaration
  | fieldDeclaration => exact .declarations .fieldDeclaration
  | methodDeclaration => exact .declarations .methodDeclaration
  | constructorDeclaration => exact .declarations .constructorDeclaration
  | propertyDeclaration => exact .declarations .propertyDeclaration
  | eventDeclaration => exact .declarations .eventDeclaration
  | typeDeclarationUpTo room => exact .declarations (.typeDeclarationUpTo room)
  | typeDeclaration => exact .declarations .typeDeclaration
  | optionStatements => exact .declarations .optionStatements
  | importsStatement => exact .declarations .importsStatement
  | fileAttribute => exact .declarations .fileAttribute
  | namespaceBlockUpTo room => exact .declarations (.namespaceBlockUpTo room)

end

namespace Tried

variable {p : Parse Node}

/-- What is tried gathers the children of its node apart. -/
theorem aside (h : Tried p) : Aside Node.IsPart p := by
  cases h with
  | methodDeclaration => exact Aside.resolveNodes _ _ _ _ _
  | constructorDeclaration => exact Aside.resolveNodes _ _ _ _ _
  | propertyDeclaration => exact Aside.resolveNodes _ _ _ _ _
  | eventDeclaration => exact Aside.resolveNodes _ _ _ _ _
  | statementKindUpTo room => exact Aside.statementKindUpTo room
  | statementUpTo room => exact Aside.statementWrapped (Aside.statementKindUpTo room)
  | typeDeclarationUpTo room => exact Aside.typeDeclarationUpTo room
  | typeDeclaration => exact Aside.typeDeclaration
  | fileAttribute => exact Aside.fileAttribute
  | namespaceBlockUpTo room => exact Aside.namespaceBlockUpTo room
  | _ => exact (Aside.node _ _).isPart

/-- What is tried and fails is undone. -/
theorem undone (h : Tried p) {env : Env} {s s' : State} {f : Failure}
    (hrun : p env s = .error f s') :
    s'.restore s.checkpoint = s :=
  OfGrammar.rewinds ⟨none, h.inGrammar⟩ |>.undone hrun

end Tried

end Production

end VisualBasic
