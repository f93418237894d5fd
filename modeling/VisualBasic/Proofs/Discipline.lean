import VisualBasic.Proofs.MirrorDeclarations
import VisualBasic.Proofs.Refinement

/-!
# Discipline

What is tried and fails is undone. Where nodes are kept in a vector this has to be worked for: what
was tried has put nodes there, and going back only cuts the vector to the length of the checkpoint.
That this brings back the very vector rests on no production taking away or changing what was there
before it, and that is so because a production on a vector does what it does with trees as values.

Main results:

* `InGrammar.hasTwin` — every production of the grammar is put together alike with trees as values.
* `Tried.undone_inArena` — what fails is undone in a vector, too.
* `speculation_disciplined` — failures are undone, and what succeeds leaves the open blocks as they
  were.
-/

namespace VisualBasic

/-- The index stands for a finished node in the vector, which is not attached yet. -/
def State.Finished (s : State Arena) (i : NodeId) : Prop :=
  ∃ n, Arena.Stands s.children.nodes 0 i n ∧ n.field = none

namespace Production

open State

-- ---------------------------------------------------------------------------
-- Twins
-- ---------------------------------------------------------------------------

section

variable {B N : Type} [Builder B N] {α : Type} {p : Production B α}

/-- The production is put together like one of the grammar with trees as values, from the node in
hand on. -/
def HasTwin (h : Hand N) (p : Production B α) : Prop :=
  ∃ (β : Type) (q : Parse β) (r : α → β → Hand N → Prop), InGrammar q (h.map Prod.snd) ∧
  Mirrors h r p q

theorem OfTypes.hasTwin (h : OfTypes p) : HasTwin none p := by
  cases h with
  | dottedName => exact ⟨_, _, _, .types .dottedName, Mirrors.dottedName⟩
  | arrayRank => exact ⟨_, _, _, .types .arrayRank, Mirrors.arrayRank⟩
  | typeArgumentsOf room =>
    exact ⟨_, _, _, .types (.typeArgumentsOf room),
      Mirrors.typeArgumentsOf (.typeUpTo room true) (Builds.typeUpTo room true)⟩
  | typeUpTo room ranks =>
    exact ⟨_, _, _, .types (.typeUpTo room ranks), Mirrors.typeUpTo room ranks⟩
  | type ranks => exact ⟨_, _, _, .types (.type ranks), Mirrors.type ranks⟩
  | typeArguments => exact ⟨_, _, _, .types .typeArguments, Mirrors.typeArguments⟩

theorem OfExpressions.hasTwin (h : OfExpressions p) : HasTwin none p := by
  have hexpr (room : Nat) (level : Int) : Produces none
      (Production.expressionUpTo room level : Production B N)
      (Production.expressionUpTo room level) :=
    Mirrors.expressionUpTo room level
  have hbuilds (room : Nat) (level : Int) :
      Builds .quiet 0 true (Production.expressionUpTo room level) :=
    Builds.expressionUpTo room level
  cases h with
  | literal r => exact ⟨_, _, _, .expressions (.literal r), Mirrors.literal r⟩
  | implicitMemberAccess =>
    exact ⟨_, _, _, .expressions .implicitMemberAccess, Mirrors.implicitMemberAccess⟩
  | argumentOf room level =>
    exact ⟨_, _, _, .expressions (.argumentOf room level), Mirrors.argumentOf (hexpr room level)⟩
  | argumentsOf room level =>
    exact ⟨_, _, _, .expressions (.argumentsOf room level),
      Mirrors.argumentsOf (hexpr room level) (hbuilds room level)⟩
  | initializerOf room level =>
    exact ⟨_, _, _, .expressions (.initializerOf room level),
      Mirrors.initializerOf (hexpr room level)⟩
  | initializersOf room level =>
    exact ⟨_, _, _, .expressions (.initializersOf room level),
      Mirrors.initializersOf (hexpr room level) (hbuilds room level)⟩
  | parenthesizedOf room level =>
    exact ⟨_, _, _, .expressions (.parenthesizedOf room level),
      Mirrors.parenthesizedOf (hexpr room level)⟩
  | ternaryOf room level =>
    exact ⟨_, _, _, .expressions (.ternaryOf room level), Mirrors.ternaryOf (hexpr room level)⟩
  | newOf room level =>
    exact ⟨_, _, _, .expressions (.newOf room level),
      Mirrors.newOf (hexpr room level) (hbuilds room level)⟩
  | primaryOf room level =>
    exact ⟨_, _, _, .expressions (.primaryOf room level),
      Mirrors.primaryOf (hexpr room level) (hbuilds room level)⟩
  | postfixOf room level =>
    exact ⟨_, _, _, .expressions (.postfixOf room level),
      Mirrors.postfixOf (hexpr room level) (hbuilds room level)⟩
  | typeTestOf room =>
    exact ⟨_, _, _, .expressions (.typeTestOf room), Mirrors.typeTestOf (hexpr room)⟩
  | unaryOf room =>
    exact ⟨_, _, _, .expressions (.unaryOf room), Mirrors.unaryOf (hexpr room) (hbuilds room _)⟩
  | expressionUpTo room level =>
    exact ⟨_, _, _, .expressions (.expressionUpTo room level), Mirrors.expressionUpTo room level⟩
  | expression => exact ⟨_, _, _, .expressions .expression, Mirrors.expression⟩
  | arguments => exact ⟨_, _, _, .expressions .arguments, Mirrors.arguments⟩
  | initializers => exact ⟨_, _, _, .expressions .initializers, Mirrors.initializers⟩
  | leftHandSide => exact ⟨_, _, _, .expressions .leftHandSide, Mirrors.leftHandSide⟩

theorem GoesOn.hasTwin {first : N} (h : GoesOn first p) (n : Node) :
    HasTwin (some (first, n)) p := by
  have hexpr (room : Nat) (level : Int) : Produces none
      (Production.expressionUpTo room level : Production B N)
      (Production.expressionUpTo room level) :=
    Mirrors.expressionUpTo room level
  have hbuilds (room : Nat) (level : Int) :
      Builds .quiet 0 true (Production.expressionUpTo room level) :=
    Builds.expressionUpTo room level
  cases h with
  | memberAccess => exact ⟨_, _, _, .goesOn .memberAccess, Mirrors.memberAccess⟩
  | elementAccessOf room level =>
    exact ⟨_, _, _, .goesOn (.elementAccessOf room level),
      Mirrors.elementAccessOf (hexpr room level) (hbuilds room level)⟩
  | invocationOf room level =>
    exact ⟨_, _, _, .goesOn (.invocationOf room level),
      Mirrors.invocationOf (hexpr room level) (hbuilds room level)⟩
  | callOrIndexOf room level =>
    exact ⟨_, _, _, .goesOn (.callOrIndexOf room level),
      Mirrors.callOrIndexOf (hexpr room level) (hbuilds room level)⟩
  | extendOf room level =>
    exact ⟨_, _, _, .goesOn (.extendOf room level), Mirrors.extendOf (hexpr room) level⟩

theorem OfClauses.hasTwin (h : OfClauses p) : HasTwin none p := by
  cases h with
  | arrayBounds => exact ⟨_, _, _, .clauses .arrayBounds, Mirrors.arrayBounds⟩
  | arraySuffix => exact ⟨_, _, _, .clauses .arraySuffix, Mirrors.arraySuffix⟩
  | asClause => exact ⟨_, _, _, .clauses .asClause, Mirrors.asClause⟩
  | optionalAsClause => exact ⟨_, _, _, .clauses .optionalAsClause, Mirrors.optionalAsClause⟩
  | optionalValue f => exact ⟨_, _, _, .clauses (.optionalValue f), Mirrors.optionalValue f⟩
  | declarator => exact ⟨_, _, _, .clauses .declarator, Mirrors.declarator⟩
  | typeConstraint => exact ⟨_, _, _, .clauses .typeConstraint, Mirrors.typeConstraint⟩
  | typeParameter => exact ⟨_, _, _, .clauses .typeParameter, Mirrors.typeParameter⟩
  | typeParameters => exact ⟨_, _, _, .clauses .typeParameters, Mirrors.typeParameters⟩
  | attributeItem => exact ⟨_, _, _, .clauses .attributeItem, Mirrors.attributeItem⟩
  | attributeBlock => exact ⟨_, _, _, .clauses .attributeBlock, Mirrors.attributeBlock⟩
  | modifiers => exact ⟨_, _, _, .clauses .modifiers, Mirrors.modifiers⟩
  | declarationPrefix => exact ⟨_, _, _, .clauses .declarationPrefix, Mirrors.declarationPrefix⟩
  | parameter => exact ⟨_, _, _, .clauses .parameter, Mirrors.parameter⟩
  | parameters => exact ⟨_, _, _, .clauses .parameters, Mirrors.parameters⟩
  | optionalParameters => exact ⟨_, _, _, .clauses .optionalParameters, Mirrors.optionalParameters⟩
  | inheritsClause => exact ⟨_, _, _, .clauses .inheritsClause, Mirrors.typeListClause _ _⟩
  | implementsClause => exact ⟨_, _, _, .clauses .implementsClause, Mirrors.typeListClause _ _⟩
  | handlesClause => exact ⟨_, _, _, .clauses .handlesClause, Mirrors.handlesClause⟩
  | inheritanceClauses => exact ⟨_, _, _, .clauses .inheritanceClauses, Mirrors.inheritanceClauses⟩
  | memberClauses => exact ⟨_, _, _, .clauses .memberClauses, Mirrors.memberClauses⟩

theorem OfStatements.hasTwin (h : OfStatements p) : HasTwin none p := by
  have hstmt (room : Nat) : Mirrors.OfStatement (B := B) (Production.inBlock room)
      (Production.inBlock room) :=
    Mirrors.ofStatement_inBlock room
  cases h with
  | valueStatement r => exact ⟨_, _, _, .statements (.valueStatement r), Mirrors.valueStatement r⟩
  | labelStatement => exact ⟨_, _, _, .statements .labelStatement, Mirrors.labelStatement⟩
  | assignmentStatement =>
    exact ⟨_, _, _, .statements .assignmentStatement, Mirrors.assignmentStatement⟩
  | callStatement => exact ⟨_, _, _, .statements .callStatement, Mirrors.callStatement⟩
  | expressionStatement =>
    exact ⟨_, _, _, .statements .expressionStatement, Mirrors.expressionStatement⟩
  | dimStatement => exact ⟨_, _, _, .statements .dimStatement, Mirrors.dimStatement⟩
  | constDeclaration => exact ⟨_, _, _, .statements .constDeclaration, Mirrors.constDeclaration⟩
  | directive => exact ⟨_, _, _, .statements .directive, Mirrors.directive⟩
  | exitStatement => exact ⟨_, _, _, .statements .exitStatement, Mirrors.exitStatement⟩
  | continueStatement => exact ⟨_, _, _, .statements .continueStatement, Mirrors.continueStatement⟩
  | goToStatement => exact ⟨_, _, _, .statements .goToStatement, Mirrors.goToStatement⟩
  | reDimStatement => exact ⟨_, _, _, .statements .reDimStatement, Mirrors.reDimStatement⟩
  | handlerStatement r =>
    exact ⟨_, _, _, .statements (.handlerStatement r), Mirrors.handlerStatement r⟩
  | raiseEventStatement =>
    exact ⟨_, _, _, .statements .raiseEventStatement, Mirrors.raiseEventStatement⟩
  | statements room =>
    exact ⟨_, _, _, .statements (.statements room), Mirrors.statements (hstmt room)⟩
  | elseIfClause room =>
    exact ⟨_, _, _, .statements (.elseIfClause room), Mirrors.elseIfClause (hstmt room)⟩
  | elseClause room =>
    exact ⟨_, _, _, .statements (.elseClause room), Mirrors.elseClause (hstmt room)⟩
  | ifLine room => exact ⟨_, _, _, .statements (.ifLine room), Mirrors.ifLine (hstmt room)⟩
  | ifStatement room =>
    exact ⟨_, _, _, .statements (.ifStatement room), Mirrors.ifStatement (hstmt room)⟩
  | caseClause => exact ⟨_, _, _, .statements .caseClause, Mirrors.caseClause⟩
  | caseBlock room => exact ⟨_, _, _, .statements (.caseBlock room), Mirrors.caseBlock (hstmt room)⟩
  | caseElseBlock room =>
    exact ⟨_, _, _, .statements (.caseElseBlock room), Mirrors.caseElseBlock (hstmt room)⟩
  | selectStatement room =>
    exact ⟨_, _, _, .statements (.selectStatement room), Mirrors.selectStatement (hstmt room)⟩
  | whileStatement room =>
    exact ⟨_, _, _, .statements (.whileStatement room), Mirrors.whileStatement (hstmt room)⟩
  | optionalLoopCondition =>
    exact ⟨_, _, _, .statements .optionalLoopCondition, Mirrors.optionalLoopCondition⟩
  | doStatement room =>
    exact ⟨_, _, _, .statements (.doStatement room), Mirrors.doStatement (hstmt room)⟩
  | forStatement room =>
    exact ⟨_, _, _, .statements (.forStatement room), Mirrors.forStatement (hstmt room)⟩
  | forEachStatement room =>
    exact ⟨_, _, _, .statements (.forEachStatement room), Mirrors.forEachStatement (hstmt room)⟩
  | catchHeader => exact ⟨_, _, _, .statements .catchHeader, Mirrors.catchHeader⟩
  | catchBlock room =>
    exact ⟨_, _, _, .statements (.catchBlock room), Mirrors.catchBlock (hstmt room)⟩
  | finallyBlock room =>
    exact ⟨_, _, _, .statements (.finallyBlock room), Mirrors.finallyBlock (hstmt room)⟩
  | tryStatement room =>
    exact ⟨_, _, _, .statements (.tryStatement room), Mirrors.tryStatement (hstmt room)⟩
  | withStatement room =>
    exact ⟨_, _, _, .statements (.withStatement room), Mirrors.withStatement (hstmt room)⟩
  | resources => exact ⟨_, _, _, .statements .resources, Mirrors.resources⟩
  | usingStatement room =>
    exact ⟨_, _, _, .statements (.usingStatement room), Mirrors.usingStatement (hstmt room)⟩
  | syncLockStatement room =>
    exact ⟨_, _, _, .statements (.syncLockStatement room), Mirrors.syncLockStatement (hstmt room)⟩
  | wordStatement room word =>
    exact ⟨_, _, _, .statements (.wordStatement room word), Mirrors.wordStatement (hstmt room) word⟩
  | statementKindUpTo room =>
    exact ⟨_, _, _, .statements (.statementKindUpTo room), Mirrors.statementKindUpTo room⟩
  | statementUpTo room =>
    exact ⟨_, _, _, .statements (.statementUpTo room), Mirrors.wrapped _ (.statementKindUpTo room)⟩
  | inBlock room => exact ⟨_, _, _, .statements (.inBlock room), (hstmt room).mirrors⟩
  | statement => exact ⟨_, _, _, .statements .statement, Mirrors.statement⟩

theorem OfDeclarations.hasTwin (h : OfDeclarations p) : HasTwin none p := by
  have htype (room : Nat) : Produces none (Production.typeDeclarationUpTo room : Production B N)
      (Production.typeDeclarationUpTo room) :=
    Mirrors.typeDeclarationUpTo room
  have hundone (room : Nat) : Undone (Production.typeDeclarationUpTo room) :=
    .of_tried (.typeDeclarationUpTo room)
  have hbuilds (room : Nat) : Builds .loud 0 true (Production.typeDeclarationUpTo room) :=
    Builds.typeDeclarationUpTo room
  cases h with
  | blankLine => exact ⟨_, _, _, .declarations .blankLine, Mirrors.blankLine⟩
  | signature isFunction =>
    exact ⟨_, _, _, .declarations (.signature isFunction), Mirrors.signature isFunction⟩
  | routineHeader isConstructor =>
    exact ⟨_, _, _, .declarations (.routineHeader isConstructor),
      Mirrors.routineHeader isConstructor⟩
  | routineWithBody r =>
    exact ⟨_, _, _, .declarations (.routineWithBody r), Mirrors.routineWithBody r⟩
  | routineWithoutBody r =>
    exact ⟨_, _, _, .declarations (.routineWithoutBody r), Mirrors.routineWithoutBody r⟩
  | methodDeclaration => exact ⟨_, _, _, .declarations .methodDeclaration, Mirrors.routine _ _⟩
  | constructorDeclaration =>
    exact ⟨_, _, _, .declarations .constructorDeclaration, Mirrors.routine _ _⟩
  | propertyHeader => exact ⟨_, _, _, .declarations .propertyHeader, Mirrors.propertyHeader⟩
  | accessor => exact ⟨_, _, _, .declarations .accessor, Mirrors.accessor⟩
  | propertyWithAccessors =>
    exact ⟨_, _, _, .declarations .propertyWithAccessors, Mirrors.propertyWithAccessors⟩
  | propertyWithoutAccessors =>
    exact ⟨_, _, _, .declarations .propertyWithoutAccessors, Mirrors.propertyWithoutAccessors⟩
  | propertyDeclaration =>
    exact ⟨_, _, _, .declarations .propertyDeclaration, Mirrors.propertyDeclaration⟩
  | eventHeader => exact ⟨_, _, _, .declarations .eventHeader, Mirrors.eventHeader⟩
  | addHandlerBlock => exact ⟨_, _, _, .declarations .addHandlerBlock, Mirrors.eventAccessor _ _⟩
  | removeHandlerBlock =>
    exact ⟨_, _, _, .declarations .removeHandlerBlock, Mirrors.eventAccessor _ _⟩
  | raiseEventBlock => exact ⟨_, _, _, .declarations .raiseEventBlock, Mirrors.eventAccessor _ _⟩
  | eventWithAccessors =>
    exact ⟨_, _, _, .declarations .eventWithAccessors, Mirrors.eventWithAccessors⟩
  | eventWithoutAccessors =>
    exact ⟨_, _, _, .declarations .eventWithoutAccessors, Mirrors.eventWithoutAccessors⟩
  | eventDeclaration => exact ⟨_, _, _, .declarations .eventDeclaration, Mirrors.eventDeclaration⟩
  | fieldDeclaration => exact ⟨_, _, _, .declarations .fieldDeclaration, Mirrors.fieldDeclaration⟩
  | enumMember => exact ⟨_, _, _, .declarations .enumMember, Mirrors.enumMember⟩
  | enumBlock => exact ⟨_, _, _, .declarations .enumBlock, Mirrors.enumBlock⟩
  | delegateDeclaration =>
    exact ⟨_, _, _, .declarations .delegateDeclaration, Mirrors.delegateDeclaration⟩
  | member room =>
    exact ⟨_, _, _, .declarations (.member room), Mirrors.member (htype room) (hundone room)⟩
  | classBlock room =>
    exact ⟨_, _, _, .declarations (.classBlock room),
      Mirrors.typeBlock (htype room) (hundone room) (hbuilds room) _ _⟩
  | moduleBlock room =>
    exact ⟨_, _, _, .declarations (.moduleBlock room),
      Mirrors.typeBlock (htype room) (hundone room) (hbuilds room) _ _⟩
  | structureBlock room =>
    exact ⟨_, _, _, .declarations (.structureBlock room),
      Mirrors.typeBlock (htype room) (hundone room) (hbuilds room) _ _⟩
  | interfaceBlock room =>
    exact ⟨_, _, _, .declarations (.interfaceBlock room),
      Mirrors.typeBlock (htype room) (hundone room) (hbuilds room) _ _⟩
  | typeDefinition room =>
    exact ⟨_, _, _, .declarations (.typeDefinition room),
      Mirrors.typeDefinition (htype room) (hundone room) (hbuilds room)⟩
  | typeDeclarationUpTo room =>
    exact ⟨_, _, _, .declarations (.typeDeclarationUpTo room), Mirrors.typeDeclarationUpTo room⟩
  | typeDeclaration => exact ⟨_, _, _, .declarations .typeDeclaration, Mirrors.typeDeclaration⟩
  | optionSetting => exact ⟨_, _, _, .declarations .optionSetting, Mirrors.optionSetting⟩
  | optionStatements => exact ⟨_, _, _, .declarations .optionStatements, Mirrors.optionStatements⟩
  | importsStatement => exact ⟨_, _, _, .declarations .importsStatement, Mirrors.importsStatement⟩
  | fileAttribute => exact ⟨_, _, _, .declarations .fileAttribute, Mirrors.fileAttribute⟩
  | namespaceBlockUpTo room =>
    exact ⟨_, _, _, .declarations (.namespaceBlockUpTo room), Mirrors.namespaceBlockUpTo room⟩
  | fileItemOf room =>
    exact ⟨_, _, _, .declarations (.fileItemOf room),
      Mirrors.fileItemOf (.namespaceBlockUpTo room) (.of_tried (.namespaceBlockUpTo room))⟩
  | fileItem => exact ⟨_, _, _, .declarations .fileItem, Mirrors.fileItem⟩
  | sourceFile => exact ⟨_, _, _, .declarations .sourceFile, Mirrors.sourceFile⟩

/-- Every production of the grammar has a twin, whatever the value of the node from which it goes
on. -/
theorem InGrammar.hasTwin {first : Option N} (hp : InGrammar p first) (h : Hand N)
    (hfirst : h.map Prod.fst = first) : HasTwin h p := by
  cases hp with
  | goesOn hp =>
    obtain ⟨⟨i, n⟩, rfl, rfl⟩ := Option.map_eq_some_iff.1 hfirst
    exact hp.hasTwin n
  | types hp | expressions hp | clauses hp | statements hp | declarations hp =>
    obtain rfl := Option.map_eq_none_iff.1 hfirst
    exact hp.hasTwin

/-- What is tried is tried with trees as values. -/
theorem Tried.hasTwin {p : Production B N} (h : Tried p) :
    ∃ q : Parse Node, Tried q ∧ Produces none p q := by
  cases h with
  | labelStatement => exact ⟨_, .labelStatement, Mirrors.labelStatement⟩
  | assignmentStatement => exact ⟨_, .assignmentStatement, Mirrors.assignmentStatement⟩
  | callStatement => exact ⟨_, .callStatement, Mirrors.callStatement⟩
  | ifStatement room =>
    exact ⟨_, .ifStatement room, Mirrors.ifStatement (.of_kind (.statementKindUpTo room))⟩
  | routineWithBody r => exact ⟨_, .routineWithBody r, Mirrors.routineWithBody r⟩
  | routineWithoutBody r => exact ⟨_, .routineWithoutBody r, Mirrors.routineWithoutBody r⟩
  | propertyWithAccessors => exact ⟨_, .propertyWithAccessors, Mirrors.propertyWithAccessors⟩
  | propertyWithoutAccessors =>
    exact ⟨_, .propertyWithoutAccessors, Mirrors.propertyWithoutAccessors⟩
  | eventWithAccessors => exact ⟨_, .eventWithAccessors, Mirrors.eventWithAccessors⟩
  | eventWithoutAccessors => exact ⟨_, .eventWithoutAccessors, Mirrors.eventWithoutAccessors⟩
  | statementKindUpTo room => exact ⟨_, .statementKindUpTo room, Mirrors.statementKindUpTo room⟩
  | statementUpTo room =>
    exact ⟨_, .statementUpTo room, Mirrors.wrapped _ (.statementKindUpTo room)⟩
  | enumMember => exact ⟨_, .enumMember, Mirrors.enumMember⟩
  | constDeclaration => exact ⟨_, .constDeclaration, Mirrors.constDeclaration⟩
  | fieldDeclaration => exact ⟨_, .fieldDeclaration, Mirrors.fieldDeclaration⟩
  | methodDeclaration => exact ⟨_, .methodDeclaration, Mirrors.routine _ _⟩
  | constructorDeclaration => exact ⟨_, .constructorDeclaration, Mirrors.routine _ _⟩
  | propertyDeclaration => exact ⟨_, .propertyDeclaration, Mirrors.propertyDeclaration⟩
  | eventDeclaration => exact ⟨_, .eventDeclaration, Mirrors.eventDeclaration⟩
  | typeDeclarationUpTo room =>
    exact ⟨_, .typeDeclarationUpTo room, Mirrors.typeDeclarationUpTo room⟩
  | typeDeclaration => exact ⟨_, .typeDeclaration, Mirrors.typeDeclaration⟩
  | optionStatements => exact ⟨_, .optionStatements, Mirrors.optionStatements⟩
  | importsStatement => exact ⟨_, .importsStatement, Mirrors.importsStatement⟩
  | fileAttribute => exact ⟨_, .fileAttribute, Mirrors.fileAttribute⟩
  | namespaceBlockUpTo room => exact ⟨_, .namespaceBlockUpTo room, Mirrors.namespaceBlockUpTo room⟩

end

-- ---------------------------------------------------------------------------
-- Building in a vector
-- ---------------------------------------------------------------------------

section

variable {env : Env} {s s' : State Arena} {f : Failure}

/-- What is tried and fails is undone, whatever is in the vector. -/
theorem Tried.undone_inArena {p : Production Arena NodeId} (h : Tried p)
    (hrun : p env s = .error f s') :
    s'.restore s.checkpoint = s := by
  obtain ⟨q, hq, hpq⟩ := h.hasTwin
  have hrefined := hpq.refines env s s.bare 0 s.agrees_bare (Nat.zero_le _) trivial
  rw [hrun] at hrefined
  cases hrun' : q env s.bare with
  | ok n t' =>
    rw [hrun'] at hrefined
    exact hrefined.elim
  | error g t' =>
    rw [hrun'] at hrefined
    obtain ⟨-, mid, hgrown⟩ := hrefined
    exact Refines.restore_eq (.of_tried hq) hrun' s.agrees_bare hgrown

/-- What succeeds leaves the open blocks as they were, whatever is in the vector. -/
theorem InGrammar.kept_inArena {α : Type} {p : Production Arena α} {first : Option NodeId}
    (hp : InGrammar p first) (hfirst : ∀ i ∈ first, s.Finished i) {a : α}
    (hrun : p env s = .ok a s') :
    s'.blocks = s.blocks ∧ s'.singleLineIfs = s.singleLineIfs := by
  obtain ⟨h, hh, hin⟩ : ∃ h : Hand NodeId, h.map Prod.fst = first ∧
      Arena.InHand s.children.nodes 0 h := by
    cases first with
    | none => exact ⟨none, rfl, trivial⟩
    | some i =>
      obtain ⟨n, hn⟩ := hfirst i rfl
      exact ⟨some (i, n), rfl, hn⟩
  obtain ⟨β, q, r, hq, hpq⟩ := hp.hasTwin h hh
  have hrefined := hpq.refines env s s.bare 0 s.agrees_bare (Nat.zero_le _) hin
  rw [hrun] at hrefined
  cases hrun' : q env s.bare with
  | ok b t' =>
    rw [hrun'] at hrefined
    obtain ⟨k, mid, -, hgrown, -⟩ := hrefined
    obtain ⟨hblocks, hifs⟩ := (OfGrammar.tidy ⟨_, hq⟩).kept hrun'
    exact ⟨hgrown.agrees.blocks.symm.trans hblocks, hgrown.agrees.singleLineIfs.symm.trans hifs⟩
  | error g t' =>
    rw [hrun'] at hrefined
    exact hrefined.elim

end

-- ---------------------------------------------------------------------------
-- The discipline
-- ---------------------------------------------------------------------------

/-- How productions treat the state; `finished` says which finished nodes a production may go on
from. -/
structure Disciplined (B : Type) {N : Type} [Builder B N] (finished : State B → N → Prop) :
    Prop where
  /-- What is tried and fails is undone by going back to the checkpoint in front of it. -/
  undone : ∀ p : Production B N, Tried p → ∀ env s f s', p env s = .error f s' →
    s'.restore s.checkpoint = s
  /-- An error region stands where a production failed, in the state to which one goes back. -/
  recovers : ∀ p : Production B N, Tried p → ∀ env s, p.orRecover env s = match p env s with
    | .ok n s' => .ok n s'
    | .error f s' => recover f env (s'.restore s.checkpoint)
  /-- The next rule of an ambiguity runs in the state to which one goes back. -/
  tries : ∀ x : Alternative B N, Tried x.production → ∀ a best rest env s,
    firstFit a best (x :: rest) env s =
      if x.viable env s then
        match x.production env s with
        | .ok n s' => .ok n s'
        | .error f s' =>
          firstFit a (some (best.elim f (·.furthest f))) rest env (s'.restore s.checkpoint)
      else firstFit a best rest env s
  /-- A member of a type is tried, whatever announces it. -/
  members : ∀ room env (s : State B) (p : Production B N),
    memberProduction? (Production.typeDeclarationUpTo room) env s = some p → Tried p
  /-- Statements, members and the items of a file never fail. -/
  neverFail : NeverFails (Production.statement : Production B N) ∧
    (∀ room, NeverFails
      (Production.member (Production.typeDeclarationUpTo room) : Production B N)) ∧
    NeverFails (Production.fileItem : Production B N)
  /-- What succeeds leaves the open blocks and the count of `If`s on a single line as they were. -/
  kept : ∀ {α : Type} (p : Production B α) (first : Option N), InGrammar p first →
    ∀ env s, (∀ n ∈ first, finished s n) → ∀ a s', p env s = .ok a s' →
      s'.blocks = s.blocks ∧ s'.singleLineIfs = s.singleLineIfs
  /-- Behind a file no block is open, and no `If` on a single line is being read. -/
  closed : ∀ env (s : State B), s.blocks = [] → s.singleLineIfs = 0 →
    ∃ (root : N) (s' : State B), Production.sourceFile env s = .ok root s' ∧
      s'.blocks = [] ∧ s'.singleLineIfs = 0

/-- All of it follows if failures are undone, blocks are kept, and going back gives what was
undone. -/
theorem Disciplined.of_undone {B N : Type} [Builder B N] {finished : State B → N → Prop}
    (hback : ∀ s s' : State B, s'.restore s.checkpoint = s → Builder.back s' s = s)
    (hundone : ∀ p : Production B N, Tried p → ∀ env s f s', p env s = .error f s' →
      s'.restore s.checkpoint = s)
    (hkept : ∀ {α : Type} (p : Production B α) (first : Option N), InGrammar p first →
      ∀ env s, (∀ n ∈ first, finished s n) → ∀ a s', p env s = .ok a s' →
        s'.blocks = s.blocks ∧ s'.singleLineIfs = s.singleLineIfs) : Disciplined B finished where
  undone := hundone
  recovers p hp env s := by
    unfold Production.orRecover
    cases hrun : p env s with
    | ok n s' => rfl
    | error f s' =>
      have hrestored := hundone p hp env s f s' hrun
      dsimp only
      rw [hrestored, hback s s' hrestored]
  tries x hx a best rest env s := by
    rw [firstFit]
    split
    · cases hrun : x.production env s with
      | ok n s' => rfl
      | error f s' =>
        have hrestored := hundone _ hx env s f s' hrun
        dsimp only
        rw [hrestored, hback s s' hrestored]
    · rfl
  members _ _ _ _ h := .of_memberProduction h
  neverFail := ⟨NeverFails.statement, fun _ => NeverFails.member _, NeverFails.fileItem⟩
  kept := hkept
  closed env s hblocks hifs := by
    obtain ⟨root, s', hrun⟩ := NeverFails.sourceFile (B := B) env s
    have hkept' := hkept _ none (.declarations .sourceFile) env s (by simp) root s' hrun
    rw [hblocks, hifs] at hkept'
    exact ⟨root, s', hrun, hkept'⟩

/-- The discipline of speculative parsing: where nodes are kept in a vector, and where trees are
values. -/
theorem speculation_disciplined :
    Disciplined Arena State.Finished ∧ Disciplined (List Node) (fun _ _ => True) := by
  refine ⟨.of_undone (fun _ _ h => h) (fun p hp env s f s' => hp.undone_inArena) ?_, ?_⟩
  · exact fun p first hp env s hfirst a s' => hp.kept_inArena hfirst
  · refine .of_undone (fun _ _ _ => rfl) (fun p hp env s f s' => hp.undone) ?_
    exact fun p first hp env s _ a s' => (OfGrammar.tidy ⟨first, hp⟩).kept

end Production

end VisualBasic
