import VisualBasic.Grammar.Clause
import VisualBasic.Proofs.Closing
import VisualBasic.Proofs.Expression

/-!
# Judgements about clauses

The parts that declarations and statements share leave no diagnostics either, and attach nothing
that looks like a closing line.

Main results:

* `Builds.asClause`, `Builds.typeParameters`, `Builds.parameters` — what declares names.
* `Steps.declarationPrefix` — attributes and modifiers, with the line ends between them.
* `Steps.inheritanceClauses`, `Steps.memberClauses` — inheritance and events.
* `Keeps.declarationPrefix`, `Keeps.inheritanceClauses` — what stands in the header of a type.
-/

namespace VisualBasic.Production

-- ---------------------------------------------------------------------------
-- Variables
-- ---------------------------------------------------------------------------

/-- Bounds of an array. -/
theorem Builds.arrayBounds : Builds .quiet 0 true Production.arrayBounds := by
  have hbound := Steps.field .upperBound Builds.expression.nested
  refine Builds.node (Steps.bind (Steps.expectMark .leftParen) fun _ => ?_)
  refine Steps.bind (Steps.commaSeparated hbound) fun _ => ?_
  exact (Steps.expectEnd .rightParen).mono

/-- Ranks or bounds, whichever the tokens ahead say. -/
theorem Builds.arraySuffix : Builds .quiet 0 true Production.arraySuffix := by
  refine Builds.look (Looks.test _) fun _ => ?_
  split
  · exact Builds.arrayRank
  · exact Builds.arrayBounds

/-- The type of a variable, or what is created for it, with arguments and initializers. -/
theorem Builds.asClause : Builds .quiet 0 true Production.asClause := by
  have hinitializers : Steps .quiet 0 false (do
      if (← atWord .kwWith) || (← atWord .kwFrom) then
        Production.take
        Production.child (Production.nested Production.initializers)) := by
    refine Steps.ifEither (fun _ => ?_) fun _ => Steps.pure _
    exact Steps.bind ReadsOne.take.1 fun _ => (Steps.child Builds.initializers.nested).still
  refine Builds.checkDepth (Builds.node ?_)
  refine Steps.bind (Steps.expectWord .kwAs) fun _ => ?_
  refine Steps.bind (Steps.acceptWord .kwNew) fun _ => Steps.ite (fun _ => ?_) fun _ => ?_
  · refine Steps.bind (Steps.field .type (Builds.type false).nested) fun _ => ?_
    refine Steps.look (Looks.test _) fun _ => ?_
    exact Steps.when (Steps.child Builds.arguments.nested) hinitializers
  · exact (Steps.field .type (Builds.type true).nested).still

/-- What may be left out need not read a token. -/
theorem Steps.optionalAsClause : Steps .quiet 0 false Production.optionalAsClause := by
  refine Steps.look (Looks.test _) fun _ => Steps.ite (fun _ => ?_) fun _ => Steps.pure _
  exact (Steps.child Builds.asClause.nested).still

/-- Neither need a value; where there is one, it stands in a plain role. -/
theorem Steps.optionalValue (f : Field) [Holds f.isPlain] :
    Steps .quiet 0 false (Production.optionalValue f) := by
  refine Steps.bind (Steps.acceptMark .equal) fun _ => ?_
  refine Steps.ite (fun _ => ?_) fun _ => Steps.pure _
  exact (Steps.field f Builds.expression.nested).still

/-- A type that is attached is a part of the declaration and no closing line. -/
theorem Keeps.optionalAsClause : Keeps [] Production.optionalAsClause := by
  have hclause : Aside Node.IsPart Production.asClause := Aside.checkDepth (Aside.node _ _).isPart
  exact Keeps.look (Looks.test _) fun _ => Keeps.ite (Keeps.child hclause.nested) (Keeps.pure _)

/-- So is a value. -/
theorem Keeps.optionalValue (f : Field) [Holds f.isPlain] : Keeps [] (Production.optionalValue f) :=
  Keeps.bind (Keeps.accept) fun _ =>
    Keeps.ite (Keeps.field f Aside.expression.nested) (Keeps.pure _)

/-- A declared name, and behind it what may be left out. -/
theorem Steps.declarator : Steps .quiet 0 true Production.declarator := by
  have hrest : Steps .quiet 0 false (do
      Production.optionalAsClause
      Production.optionalValue .initializer) :=
    Steps.bind Steps.optionalAsClause fun _ => Steps.optionalValue .initializer
  refine Steps.bind (Steps.field .name Builds.identifier) fun _ => ?_
  refine Steps.look (Looks.test _) fun _ => ?_
  exact Steps.when (Steps.child Builds.arraySuffix.nested) hrest

-- ---------------------------------------------------------------------------
-- Type parameters
-- ---------------------------------------------------------------------------

/-- A constraint is a word or a type. -/
theorem Builds.typeConstraint : Builds .quiet 0 true Production.typeConstraint := by
  refine Builds.node (Steps.peek fun kind => ?_)
  split
  case h_4 => exact (Steps.child (Builds.type true).nested).mono
  all_goals exact ReadsOne.take.1.mono

/-- A type parameter reads its name at least. -/
theorem Builds.typeParameter : Builds .quiet 0 true Production.typeParameter := by
  have hconstraint := Steps.field .constraint Builds.typeConstraint.nested
  refine Builds.node (Steps.bind (Steps.field .name Builds.identifier) fun _ => ?_)
  refine Steps.bind (Steps.acceptWord .kwAs) fun _ => ?_
  refine Steps.ite (fun _ => ?_) fun _ => Steps.pure _
  refine Steps.bind (Steps.acceptMark .leftBrace) fun _ => ?_
  refine Steps.ite (fun _ => ?_) fun _ => hconstraint.still
  exact Steps.bind (Steps.commaSeparated hconstraint) fun _ => (Steps.expectEnd .rightBrace).mono

/-- Type parameters between their parentheses. -/
theorem Builds.typeParameters : Builds .quiet 0 true Production.typeParameters := by
  refine Builds.checkDepth (Builds.node ?_)
  refine Steps.bind (Steps.expectMark .leftParen) fun _ => ?_
  refine Steps.bind (Steps.expectWord .kwOf) fun _ => ?_
  refine Steps.bind (Steps.commaSeparated (Steps.child Builds.typeParameter.nested)) fun _ => ?_
  exact (Steps.expectEnd .rightParen).mono

-- ---------------------------------------------------------------------------
-- Attributes and modifiers
-- ---------------------------------------------------------------------------

/-- The name of an attribute may be dotted. -/
theorem Builds.attributeName : Builds .quiet 0 true (do
    if (← peekAhead 1) == .mark .dot then Production.dottedName else Production.identifier) := by
  refine Builds.look (Looks.peekAhead 1) fun _ => ?_
  split
  · exact Builds.dottedName
  · exact Builds.identifier.mono

/-- An attribute reads its name at least. -/
theorem Builds.attributeItem : Builds .quiet 0 true Production.attributeItem := by
  have hrest : Steps .quiet 0 true (do
      Production.field .name (do
        if (← peekAhead 1) == .mark .dot then Production.dottedName else Production.identifier)
      if ← atKind (.mark .leftParen) then
        Production.child (Production.nested Production.arguments)) := by
    refine Steps.bind (Steps.field .name Builds.attributeName) fun _ => ?_
    refine Steps.look (Looks.test _) fun _ => Steps.ite (fun _ => ?_) fun _ => Steps.pure _
    exact (Steps.child Builds.arguments.nested).still
  refine Builds.node (Steps.ifAhead (k := 2) ?_ hrest (by decide) (by decide))
  refine Steps.one (ReadsOne.ruleField .target .identifier) fun _ => ?_
  exact Steps.one ReadsOne.take fun _ => hrest.still

/-- Attributes between their marks. -/
theorem Builds.attributeBlock : Builds .quiet 0 true Production.attributeBlock := by
  refine Builds.checkDepth (Builds.node ?_)
  refine Steps.bind (Steps.expectMark .less) fun _ => ?_
  refine Steps.bind (Steps.commaSeparated (Steps.child Builds.attributeItem.nested)) fun _ => ?_
  exact (Steps.expectEnd .greater).mono

/-- Modifiers in a row, if there is one. -/
theorem Steps.optionalModifiers : Steps .quiet 0 false (do
    if (← Production.peek).isModifier then
      Production.field .modifiers Production.modifiers) := by
  have hword : Steps .quiet 1 true (do
      Production.child (Production.ruleLeaf .modifier)
      return true) :=
    Steps.bind (Steps.child (Builds.ruleLeaf .modifier)) fun _ => Steps.pure _
  have hmore : Steps .quiet 0 false (do
      if (← Production.peek).isModifier then
        Production.child (Production.ruleLeaf .modifier)
        return true
      return false) := by
    refine Steps.peek fun kind => Steps.ite (fun h => ?_) fun _ => Steps.pure _
    rw [TokenKind.ahead_of h rfl]
    exact hword.still
  intro env s ready
  rw [Looks.peek.run_bind]
  split
  · rename_i h
    -- The first round finds the modifier that was seen, so the node is not empty.
    refine (outcome_quietNode (outcome_repeatWhile _ ready.le_size ?_ hmore)).bind ?_
    · rw [Looks.peek.run_bind]
      split
      · have hfirst := hword env { s with children := [], isPartial := false }
          (.of_kindAt_ne (TokenKind.ne_endOfFile_of h rfl))
        exact hfirst.mono (Manner.le_refl _) fun _ _ hs' => ⟨hs'.1 rfl, hs'.2⟩
      · exact absurd h ‹_›
    · rintro x s' ⟨-, hx⟩
      exact ⟨nofun, hx.attached (.inr ⟨.modifiers, nofun, rfl⟩)⟩
  · exact Steps.pure () env s ready

/-- An attribute block and the line end that may follow it. -/
theorem Steps.attributeLine : Steps .quiet 0 false (do
    if ← atKind (.mark .less) then
      Production.field .attributes (nested Production.attributeBlock)
      if ← atKind .newline then Production.skip
      return true
    return false) := by
  refine Steps.look (Looks.test _) fun _ => Steps.ite (fun _ => ?_) fun _ => Steps.pure _
  refine Steps.bind (Steps.field .attributes Builds.attributeBlock.nested) fun _ => ?_
  exact Steps.skipThen isTerminator_of_newline (Steps.pure _) (Steps.pure _)

/-- Attributes and modifiers, of which there need be none. -/
theorem Steps.declarationPrefix : Steps .quiet 0 false Production.declarationPrefix := by
  refine Steps.bind (Steps.repeatWhile Steps.attributeLine) fun _ => ?_
  exact Steps.optionalModifiers

/-- What is in front of a declaration is no closing line. -/
theorem Keeps.declarationPrefix : Keeps [] Production.declarationPrefix := by
  have hblock : Aside Node.IsPart Production.attributeBlock :=
    Aside.checkDepth (Aside.node _ _).isPart
  refine Keeps.bind (Keeps.repeatWhile ?_) fun _ => Keeps.look Looks.peek fun _ => ?_
  · refine Keeps.look (Looks.test _) fun _ => Keeps.ite ?_ (Keeps.pure _)
    refine Keeps.bind (Keeps.field .attributes hblock.nested) fun _ => ?_
    exact Keeps.look (Looks.test _) fun _ => Keeps.when Keeps.skip (Keeps.pure _)
  · exact Keeps.ite (Keeps.field .modifiers (Aside.node _ _).isPart) (Keeps.pure _)

-- ---------------------------------------------------------------------------
-- Parameters
-- ---------------------------------------------------------------------------

/-- A parameter reads its name at least. -/
theorem Builds.parameter : Builds .quiet 0 true Production.parameter := by
  have hpassing : Steps .quiet 0 false (do
      if isPassing (← Production.peek) then
        Production.take
        return true
      return false) := by
    refine Steps.peek fun kind => Steps.ite (fun h => ?_) fun _ => Steps.pure _
    rw [TokenKind.ahead_of h rfl]
    exact Steps.bind ReadsOne.take.1 fun _ => Steps.pure _
  have hvalue : Steps .quiet 0 false (do
      Production.optionalAsClause
      Production.optionalValue .defaultValue) :=
    Steps.bind Steps.optionalAsClause fun _ => Steps.optionalValue .defaultValue
  refine Builds.node (Steps.look (Looks.test _) fun _ => ?_)
  refine Steps.when (Steps.field .attributes Builds.attributeBlock.nested) ?_
  refine Steps.bind (Steps.repeatWhile hpassing) fun _ => ?_
  refine Steps.bind (Steps.field .name Builds.identifier) fun _ => ?_
  exact Steps.look (Looks.test _) fun _ => Steps.when (Steps.child Builds.arrayRank) hvalue

/-- The parameters of a routine, of which there need be none between the parentheses. -/
theorem Builds.parameters : Builds .quiet 0 true Production.parameters := by
  have hend : Steps .quiet 0 false (Production.expectEnd .rightParen) :=
    (Steps.expectEnd .rightParen).mono
  refine Builds.checkDepth (Builds.node ?_)
  refine Steps.bind (Steps.expectMark .leftParen) fun _ => ?_
  refine Steps.look (Looks.test _) fun _ => Steps.ite (fun _ => hend) fun _ => ?_
  exact Steps.bind (Steps.commaSeparated (Steps.child Builds.parameter.nested)) fun _ => hend

theorem Steps.optionalParameters : Steps .quiet 0 false Production.optionalParameters := by
  refine Steps.look (Looks.test _) fun _ => Steps.ite (fun _ => ?_) fun _ => Steps.pure _
  exact (Steps.field .parameters Builds.parameters.nested).still

/-- Parameters are no closing line. -/
theorem Keeps.optionalParameters : Keeps [] Production.optionalParameters := by
  have hparameters : Aside Node.IsPart Production.parameters :=
    Aside.checkDepth (Aside.node _ _).isPart
  exact Keeps.look (Looks.test _) fun _ =>
    Keeps.ite (Keeps.field .parameters hparameters.nested) (Keeps.pure _)

-- ---------------------------------------------------------------------------
-- Inheritance and events
-- ---------------------------------------------------------------------------

/-- A clause reads its word and a type at least. -/
theorem Builds.typeListClause (r : Rule) (word : Keyword) [Holds r.isPlain] :
    Builds .quiet 0 true (Production.typeListClause r word) := by
  have htype := Steps.child (Builds.type false).nested
  refine Builds.node (Steps.bind (Steps.expectWord word) fun _ => ?_)
  exact (Steps.commaSeparated htype).still

/-- So does a clause that lists events. -/
theorem Builds.handlesClause : Builds .quiet 0 true Production.handlesClause := by
  refine Builds.node (Steps.bind (Steps.expectWord .kwHandles) fun _ => ?_)
  exact (Steps.commaSeparated (Steps.child Builds.dottedName)).still

/-- Clauses about inheritance, each of which begins with its word. -/
theorem Steps.inheritanceClauses : Steps .quiet 0 false Production.inheritanceClauses := by
  refine Steps.repeatWhile (Steps.peek fun kind => ?_)
  split
  · refine Steps.bind (Steps.field .inherits (Builds.typeListClause _ _)) fun _ => Steps.pure _
  · refine Steps.bind (Steps.field .implements (Builds.typeListClause _ _)) fun _ => Steps.pure _
  · exact Steps.pure _

/-- They are no closing lines. -/
theorem Keeps.inheritanceClauses : Keeps [] Production.inheritanceClauses := by
  refine Keeps.repeatWhile (Keeps.look Looks.peek fun kind => ?_)
  split
  · exact Keeps.bind (Keeps.field .inherits (Aside.node _ _).isPart) fun _ => Keeps.pure _
  · exact Keeps.bind (Keeps.field .implements (Aside.node _ _).isPart) fun _ => Keeps.pure _
  · exact Keeps.pure _

/-- Clauses about events and interfaces. -/
theorem Steps.memberClauses : Steps .quiet 0 false Production.memberClauses := by
  refine Steps.repeatWhile (Steps.peek fun kind => ?_)
  split
  · exact Steps.bind (Steps.field .handles Builds.handlesClause) fun _ => Steps.pure _
  · exact Steps.bind (Steps.field .implements (Builds.typeListClause _ _)) fun _ => Steps.pure _
  · exact Steps.pure _

end VisualBasic.Production
