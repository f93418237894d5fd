import VisualBasic.Grammar.Statement
import VisualBasic.Proofs.Widening

/-!
# More room in expressions and clauses

The judgement `Widens` of the productions of types, expressions and clauses. Where a production
takes the expressions in it as an argument, they are a level down, so one level less has to be said
of them.

Main results:

* `Widens.type`, `Widens.expression` — types and expressions are the same with more room.
* `Widens.leftHandSide`, `Widens.declarationPrefix`, `Widens.parameters` — so are the parts of
  statements and declarations.
-/

namespace VisualBasic.Production.Widens

variable {n : Nat} {β : Type}

-- ---------------------------------------------------------------------------
-- Names and types
-- ---------------------------------------------------------------------------

/-- A row of kinds that may be ahead is seen with more room, too. -/
theorem ahead (kinds : List TokenKind) {k k' : Bool → Parse β}
    (hk : ∀ b, Widens n (k b) (k' b)) :
    Widens n (Production.ahead kinds >>= k) (Production.ahead kinds >>= k') :=
  test (sees_hasAhead kinds) hk

/-- Two rows of kinds that may be ahead. -/
theorem aheadEither (kinds kinds' : List TokenKind) {k k' : Bool → Parse β}
    (hk : ∀ b, Widens n (k b) (k' b)) :
    Widens n (Production.test (fun env s => env.hasAhead s kinds || env.hasAhead s kinds') >>= k)
      (Production.test (fun env s => env.hasAhead s kinds || env.hasAhead s kinds') >>= k') := by
  refine test (fun env env' s t htokens ht => ?_) hk
  have hfirst := sees_hasAhead kinds env env' s t htokens ht
  have hsecond := sees_hasAhead kinds' env env' s t htokens ht
  dsimp only at hfirst hsecond ⊢
  rw [hfirst, hsecond]

/-- A name does not nest. -/
theorem dottedName : Widens n Production.dottedName Production.dottedName :=
  node _ (seq (child identifier)
    (repeatWhile (bind (acceptMark _) fun _ => ite (round (child memberName)) (pure _))))

theorem arrayRank : Widens n Production.arrayRank Production.arrayRank :=
  node _ (seq (expectMark _) (seq (repeatWhile (acceptMark _)) (expectEnd _)))

/-- The arguments of a type are types one level down. -/
theorem typeArgumentsOf {type type' : Parse Node} (h : Widens (n - 1) type type') :
    Widens n (Production.typeArgumentsOf type) (Production.typeArgumentsOf type') :=
  node _ (seq (expectMark _) (seq (expectWord _)
    (seq (commaSeparated (child (nested h))) (expectEnd _))))

/-- By induction on the levels that are left on the one side; the other side has at least as
many. -/
theorem typeUpTo (room n : Nat) (ranks : Bool) :
    Widens n (Production.typeUpTo room ranks) (Production.typeUpTo n ranks) := by
  refine upTo (fun _ => rfl) (fun _ _ => rfl) (fun room n ih ranks => ?_) room n ranks
  -- What is behind the name: arguments a level down, and ranks, which do not nest.
  have hrest : Widens (n + 1)
      (do
        if ← atTypeArguments then
          Production.child (Production.nested
            (Production.typeArgumentsOf (Production.typeUpTo room true)))
        Production.repeatWhile do
          if ranks && (← atRank) then
            Production.child Production.arrayRank
            return true
          return false)
      (do
        if ← atTypeArguments then
          Production.child (Production.nested
            (Production.typeArgumentsOf (Production.typeUpTo n true)))
        Production.repeatWhile do
          if ranks && (← atRank) then
            Production.child Production.arrayRank
            return true
          return false) := by
    refine ahead _ fun _ =>
      when (child (nested (typeArgumentsOf ((ih true).mono (Nat.sub_le n 1))))) ?_
    exact repeatWhile (aheadEither _ _ fun _ => ite (round (child arrayRank)) (pure _))
  refine node _ (peek fun kind => ?_)
  split
  · exact peekAhead fun _ => ite (seq (child (ruleLeaf _)) hrest) (seq (child dottedName) hrest)
  · exact seq (child dottedName) hrest

/-- Types are the same with more room. -/
theorem type (ranks : Bool) : Widens n (Production.type ranks) (Production.type ranks) :=
  byRoom (p := fun room => Production.typeUpTo room ranks) fun room n => typeUpTo room n ranks

theorem typeArguments : Widens n Production.typeArguments Production.typeArguments :=
  typeArgumentsOf (type true)

-- ---------------------------------------------------------------------------
-- Expressions
-- ---------------------------------------------------------------------------

theorem literal (r : Rule) : Widens n (Production.literal r) (Production.literal r) :=
  bind (ruleLeaf _) fun _ => wrap _ _

/-- An access to a member adds nothing that nests. -/
theorem memberAccess (object : Node) :
    Widens n (Production.memberAccess object) (Production.memberAccess object) :=
  nodeFrom _ _ (seq (field _ (wrap _ _)) (seq (expectMark _) (field _ memberName)))

theorem implicitMemberAccess :
    Widens n Production.implicitMemberAccess Production.implicitMemberAccess :=
  node _ (seq (expectMark _) (field _ memberName))

section

variable {expression expression' : Parse Node}

/-- An argument is at the level of its value. -/
theorem argumentOf (h : Widens n expression expression') :
    Widens n (Production.argumentOf expression) (Production.argumentOf expression') := by
  refine node _ (peek fun _ => peekAhead fun _ => peekAhead fun _ => ite ?_ (child h))
  exact seq (field _ identifier) (seq take (seq take (child h)))

/-- The arguments look at the limit, and each of them is a level down. -/
theorem argumentsOf (h : Widens (n - 1) expression expression') :
    Widens n (Production.argumentsOf expression) (Production.argumentsOf expression') := by
  have hcomma : Wide n (do
      if ← Production.acceptMark .comma then
        Production.skipNewlines
        return true
      return false) :=
    bind (acceptMark _) fun _ => ite (round skipNewlines) (pure _)
  have hargument := seq (child (nested (argumentOf h))) hcomma
  refine seq checkDepth (node _ (seq (expectMark _) ?_))
  refine atKind fun _ => ite (expectEnd _) (seq (repeatWhile ?_) (expectEnd _))
  exact atKind fun _ => atKind fun _ => ite hcomma hargument

/-- The value of a member is a level down. -/
theorem initializerOf (h : Widens (n - 1) expression expression') :
    Widens n (Production.initializerOf expression) (Production.initializerOf expression') := by
  have hvalue := child (nested h)
  refine node _ (bind (acceptMark _) fun _ => ite ?_ hvalue)
  exact seq (field _ memberName) (seq (expectMark _) hvalue)

/-- The initializers look at the limit, and each of them is a level down. -/
theorem initializersOf (h : Widens (n - 1) expression expression') :
    Widens n (Production.initializersOf expression) (Production.initializersOf expression') := by
  have hend : Wide n (do
      Production.skipNewlines
      Production.expectEnd .rightBrace) :=
    seq skipNewlines (expectEnd _)
  refine seq checkDepth (node _ (seq (expectMark _) (seq skipNewlines ?_)))
  refine atKind fun _ => ite hend (seq (commaSeparated (child (nested ?_))) hend)
  exact initializerOf (h.mono (Nat.sub_le _ _))

/-- The indices of an element and the parenthesis behind them. -/
theorem indices (h : Widens (n - 1) expression expression') :
    Widens n
      (do
        Production.expectMark .leftParen
        unless ← Production.atKind (.mark .rightParen) do
          Production.commaSeparated (Production.field .index (Production.nested expression))
        Production.expectEnd .rightParen)
      (do
        Production.expectMark .leftParen
        unless ← Production.atKind (.mark .rightParen) do
          Production.commaSeparated (Production.field .index (Production.nested expression'))
        Production.expectEnd .rightParen) := by
  refine seq (expectMark _) (atKind fun _ => ite (expectEnd _) ?_)
  exact seq (commaSeparated (field _ (nested h))) (expectEnd _)

/-- The indices of an element are a level down. -/
theorem elementAccessOf (h : Widens (n - 1) expression expression') (object : Node) :
    Widens n (Production.elementAccessOf expression object)
      (Production.elementAccessOf expression' object) :=
  nodeFrom _ _ (seq (field _ (wrap _ _)) (indices h))

/-- What follows the target of a call. -/
theorem callArguments (h : Widens (n - 1) expression expression') :
    Widens n
      (do
        if ← atTypeArguments then
          Production.child (Production.nested Production.typeArguments)
          unless ← Production.atKind (.mark .leftParen) do return
        Production.field .arguments (Production.nested (Production.argumentsOf expression)))
      (do
        if ← atTypeArguments then
          Production.child (Production.nested Production.typeArguments)
          unless ← Production.atKind (.mark .leftParen) do return
        Production.field .arguments (Production.nested (Production.argumentsOf expression'))) := by
  have harguments := field .arguments (nested (argumentsOf (h.mono (Nat.sub_le _ _))))
  refine ahead _ fun _ => ite (seq (child (nested typeArguments)) ?_) harguments
  exact atKind fun _ => ite harguments (pure _)

/-- The arguments of a call are a level down. -/
theorem invocationOf (h : Widens (n - 1) expression expression') (target : Node) :
    Widens n (Production.invocationOf expression target)
    (Production.invocationOf expression' target) :=
  nodeFrom _ _ (seq (attach _) (callArguments h))

/-- The target decides between a call and an access to an element, whatever room there is. -/
theorem callOrIndexOf (h : Widens (n - 1) expression expression') (target : Node) :
    Widens n (Production.callOrIndexOf expression target)
    (Production.callOrIndexOf expression' target) := by
  rw [Parse.callOrIndexOf_eq, Parse.callOrIndexOf_eq]
  exact ite (invocationOf h target) (elementAccessOf h target)

/-- What stands in parentheses is a level down. -/
theorem parenthesizedOf (h : Widens (n - 1) expression expression') :
    Widens n (Production.parenthesizedOf expression) (Production.parenthesizedOf expression') :=
  node _ (seq (expectMark _) (seq (child (nested h)) (expectMark _)))

/-- All three operands are a level down. -/
theorem ternaryOf (h : Widens (n - 1) expression expression') :
    Widens n (Production.ternaryOf expression) (Production.ternaryOf expression') := by
  have hvalue (f : Field) := field f (nested h)
  refine node _ (seq take (seq (expectMark _) (seq (hvalue _) (seq (expectMark _) ?_))))
  exact seq (hvalue _) (seq (expectMark _) (seq (hvalue _) (expectMark _)))

/-- The type, the arguments and the initializers are a level down. -/
theorem newOf (h : Widens (n - 1) expression expression') :
    Widens n (Production.newOf expression) (Production.newOf expression') := by
  have hinitializers := child (nested (initializersOf (h.mono (Nat.sub_le _ _))))
  have hend : Widens n
      (do
        if ← Production.test fun env s => env.hasAhead s [.keyword .kwWith, .mark .leftBrace]
            || env.hasAhead s [.keyword .kwFrom, .mark .leftBrace] then Production.take
        if ← Production.atKind (.mark .leftBrace) then
          Production.child (Production.nested (Production.initializersOf expression)))
      (do
        if ← Production.test fun env s => env.hasAhead s [.keyword .kwWith, .mark .leftBrace]
            || env.hasAhead s [.keyword .kwFrom, .mark .leftBrace] then Production.take
        if ← Production.atKind (.mark .leftBrace) then
          Production.child (Production.nested (Production.initializersOf expression'))) :=
    aheadEither _ _ fun _ => when take (atKind fun _ => ite hinitializers (pure _))
  have harguments := child (nested (argumentsOf (h.mono (Nat.sub_le _ _))))
  refine node _ (seq take (atKind fun _ => ite ?_ (seq (field _ (nested (type _))) ?_)))
  · exact atKind fun _ => when harguments hend
  · exact atKind fun _ => when harguments hend

/-- The first token tells which operand it is, whatever room there is. -/
theorem primaryOf (h : Widens (n - 1) expression expression') :
    Widens n (Production.primaryOf expression) (Production.primaryOf expression') := by
  refine peek fun kind => ?_
  split
  case h_8 => exact bind tokenLeaf fun _ => wrap _ _
  case h_9 => exact newOf h
  case h_10 => exact peekAhead fun _ => ite (ternaryOf h) (fail _)
  case h_11 => exact parenthesizedOf h
  case h_12 => exact initializersOf h
  case h_13 => exact implicitMemberAccess
  case h_14 => exact ite (ruleLeaf _) (fail _)
  all_goals exact literal _

/-- What gives the result of a production is the same if the production is. -/
theorem some {p p' : Parse Node} (hp : Widens n p p') :
    Widens n (Option.some <$> p) (Option.some <$> p') := by
  rw [map_eq_pure_bind, map_eq_pure_bind]
  exact bind hp fun _ => pure _

/-- Accesses and calls behind an operand. -/
theorem postfixOf (h : Widens (n - 1) expression expression') :
    Widens n (Production.postfixOf expression) (Production.postfixOf expression') := by
  refine bind (primaryOf h) fun primary => bind (iterate (fun inner => ?_) primary)
    fun _ => wrap _ _
  refine peek fun kind => ?_
  split
  · exact some (memberAccess inner)
  · exact some (callOrIndexOf h inner)
  · exact pure _

end

section

variable {operand operand' : Int → Parse Node}

/-- The tested operand and the type are a level down. -/
theorem typeTestOf (h : ∀ level, Widens (n - 1) (operand level) (operand' level)) :
    Widens n (Production.typeTestOf operand) (Production.typeTestOf operand') := by
  have hend : Wide n (do
      Production.field .operator Production.tokenLeaf
      Production.field .type (Production.nested (Production.type true))) :=
    seq (field _ tokenLeaf) (field _ (nested (type _)))
  refine bind (node _ (seq take (seq (field _ (nested (h _))) ?_))) fun _ => wrap _ _
  exact atKind fun _ => atKind fun _ => ite hend (seq (fail _) hend)

/-- The operand of a prefix operator is a level down. -/
theorem unaryOf (h : ∀ level, Widens (n - 1) (operand level) (operand' level)) :
    Widens n (Production.unaryOf operand) (Production.unaryOf operand') := by
  have hoperation := node .unaryExpression (seq (field .operator tokenLeaf)
    (field .operand (nested (h Precedence.unary))))
  refine peek fun kind => ?_
  split
  case h_5 => exact typeTestOf h
  case h_6 => exact postfixOf (h _)
  all_goals exact bind hoperation fun _ => wrap _ _

/-- The right operand is a level down, and the left one is there already. -/
theorem extendOf (h : ∀ level, Widens (n - 1) (operand level) (operand' level)) (level : Int)
    (left : Node) :
    Widens n (Production.extendOf operand level left)
    (Production.extendOf operand' level left) := by
  refine peek fun kind => ?_
  split
  · exact pure _
  · rename_i precedence _
    refine ite (pure _) (bind (nodeFrom _ _ ?_) fun _ => some (wrap _ _))
    exact seq (attach _) (seq (field _ tokenLeaf) (field _ (nested (h _))))

end

/-- By induction on the levels that are left on the one side; the operators of a level make a
loop. -/
theorem expressionUpTo (room n : Nat) (level : Int) :
    Widens n (Production.expressionUpTo room level) (Production.expressionUpTo n level) := by
  refine upTo (fun _ => rfl) (fun _ _ => rfl) (fun room n ih level => ?_) room n level
  exact bind (unaryOf ih) (iterate fun left => extendOf (n := n + 1) ih level left)

/-- Expressions are the same with more room. -/
theorem expression : Widens n Production.expression Production.expression :=
  byRoom (p := fun room => Production.expressionUpTo room Precedence.lowest) fun room n =>
    expressionUpTo room n _

theorem arguments : Widens n Production.arguments Production.arguments := argumentsOf expression

theorem initializers : Widens n Production.initializers Production.initializers :=
  initializersOf expression

/-- Whether an assignment follows is seen with more room, too. -/
theorem sees_assignmentFollowsParens :
    Sees fun env s => env.tokens.assignmentFollowsParens 0 s.cursor := by
  intro env env' s t htokens ht
  dsimp only
  rw [htokens, ht.cursor]

/-- The next part of a target of assignments. -/
theorem targetStep (inner : Node) : Wide n (do
    match ← Production.peek with
    | .mark .dot => Option.some <$> Production.memberAccess inner
    | .mark .leftParen =>
      if ← Production.test fun env s => env.tokens.assignmentFollowsParens 0 s.cursor then
        Option.some <$> Production.elementAccessOf Production.expression inner
      else Option.some <$> Production.callOrIndexOf Production.expression inner
    | _ => return none) := by
  refine peek fun kind => ?_
  split
  · exact some (memberAccess inner)
  · refine test sees_assignmentFollowsParens fun _ => ite ?_ ?_
    · exact some (elementAccessOf expression inner)
    · exact some (callOrIndexOf expression inner)
  · exact pure _

/-- A target of assignments looks at the limit once, for the whole chain. -/
theorem leftHandSide : Widens n Production.leftHandSide Production.leftHandSide := by
  have hrest (first : Node) : Wide n (do
      let target ← Production.iterate (fun inner => do
        match ← Production.peek with
        | .mark .dot => Option.some <$> Production.memberAccess inner
        | .mark .leftParen =>
          if ← Production.test fun env s => env.tokens.assignmentFollowsParens 0 s.cursor then
            Option.some <$> Production.elementAccessOf Production.expression inner
          else Option.some <$> Production.callOrIndexOf Production.expression inner
        | _ => return none) first
      unless target.isRule [.identifier, .memberAccess, .elementAccess] do
        Production.fail .assignmentTarget
      Production.attach target) := by
    refine bind (iterate targetStep first) fun target => ite (attach _) ?_
    exact seq (fail _) (attach _)
  refine seq checkDepth (node _ (peek fun kind => ?_))
  split
  · exact bind implicitMemberAccess hrest
  · exact ite (bind (ruleLeaf _) hrest) (bind (fail _) hrest)

-- ---------------------------------------------------------------------------
-- Variables and type parameters
-- ---------------------------------------------------------------------------

theorem arrayBounds : Widens n Production.arrayBounds Production.arrayBounds :=
  node _ (seq (expectMark _) (seq (commaSeparated (field _ (nested expression))) (expectEnd _)))

theorem arraySuffix : Widens n Production.arraySuffix Production.arraySuffix :=
  aheadEither _ _ fun _ => ite arrayRank arrayBounds

/-- The type of a variable, or what is created for it. -/
theorem asClause : Widens n Production.asClause Production.asClause := by
  have hinitializers : Wide n (do
      Production.take
      Production.child (Production.nested Production.initializers)) :=
    seq take (child (nested initializers))
  have hend : Wide n (do
      if (← Production.atWord .kwWith) || (← Production.atWord .kwFrom) then
        Production.take
        Production.child (Production.nested Production.initializers)) :=
    atKind fun _ => atKind fun _ => ite hinitializers (pure _)
  refine seq checkDepth (node _ (seq (expectWord _) (bind (acceptWord _) fun _ => ?_)))
  refine ite (seq (field _ (nested (type _))) ?_) (field _ (nested (type _)))
  exact atKind fun _ => when (child (nested arguments)) hend

theorem optionalAsClause : Widens n Production.optionalAsClause Production.optionalAsClause :=
  atKind fun _ => ite (child (nested asClause)) (pure _)

theorem optionalValue (f : Field) :
    Widens n (Production.optionalValue f) (Production.optionalValue f) :=
  bind (acceptMark _) fun _ => ite (field _ (nested expression)) (pure _)

/-- A declared name with its bounds, its type and its value. -/
theorem declarator : Widens n Production.declarator Production.declarator := by
  have hend : Wide n (do
      Production.optionalAsClause
      Production.optionalValue .initializer) :=
    seq optionalAsClause (optionalValue _)
  exact seq (field _ identifier) (atKind fun _ => when (child (nested arraySuffix)) hend)

theorem typeConstraint : Widens n Production.typeConstraint Production.typeConstraint := by
  refine node _ (peek fun kind => ?_)
  split
  case h_4 => exact child (nested (type _))
  all_goals exact take

/-- A type parameter with its constraints. -/
theorem typeParameter : Widens n Production.typeParameter Production.typeParameter := by
  -- A single constraint and those between braces are read alike.
  have hconstraint := field .constraint (nested (typeConstraint (n := n - 1)))
  refine node _ (seq (field _ identifier) (bind (acceptWord _) fun _ => ite ?_ (pure _)))
  refine bind (acceptMark _) fun _ => ite ?_ hconstraint
  exact seq (commaSeparated hconstraint) (expectEnd _)

theorem typeParameters : Widens n Production.typeParameters Production.typeParameters := by
  refine seq checkDepth (node _ (seq (expectMark _) (seq (expectWord _) ?_)))
  exact seq (commaSeparated (child (nested typeParameter))) (expectEnd _)

-- ---------------------------------------------------------------------------
-- Attributes, modifiers and parameters
-- ---------------------------------------------------------------------------

/-- An attribute with its target and its arguments. -/
theorem attributeItem : Widens n Production.attributeItem Production.attributeItem := by
  have hname : Wide n (do
      if (← Production.peekAhead 1) == .mark .dot then Production.dottedName
      else Production.identifier) :=
    peekAhead fun _ => ite dottedName identifier
  have hend : Wide n (do
      Production.field .name (do
        if (← Production.peekAhead 1) == .mark .dot then Production.dottedName
        else Production.identifier)
      if ← Production.atKind (.mark .leftParen) then
        Production.child (Production.nested Production.arguments)) :=
    seq (field _ hname) (atKind fun _ => ite (child (nested arguments)) (pure _))
  refine node _ (aheadEither _ _ fun _ => ite ?_ hend)
  exact seq (field _ (ruleLeaf _)) (seq take hend)

theorem attributeBlock : Widens n Production.attributeBlock Production.attributeBlock := by
  refine seq checkDepth (node _ (seq (expectMark _) ?_))
  exact seq (commaSeparated (child (nested attributeItem))) (expectEnd _)

theorem modifiers : Widens n Production.modifiers Production.modifiers :=
  node _ (repeatWhile (peek fun _ => ite (round (child (ruleLeaf _))) (pure _)))

/-- Attributes and modifiers are the same with more room. -/
theorem declarationPrefix : Widens n Production.declarationPrefix Production.declarationPrefix := by
  have hattributes : Wide n (Production.repeatWhile do
      if ← Production.atKind (.mark .less) then
        Production.field .attributes (Production.nested Production.attributeBlock)
        if ← Production.atKind .newline then Production.skip
        return true
      return false) := by
    refine repeatWhile (atKind fun _ => ite (seq (field _ (nested attributeBlock)) ?_) (pure _))
    exact atKind fun _ => when skip (pure _)
  exact seq hattributes (peek fun _ => ite (field _ modifiers) (pure _))

/-- A parameter with its attributes, its type and its default value. -/
theorem parameter : Widens n Production.parameter Production.parameter := by
  have hend : Wide n (do
      Production.optionalAsClause
      Production.optionalValue .defaultValue) :=
    seq optionalAsClause (optionalValue _)
  have hname : Wide n (do
      Production.repeatWhile do
        if isPassing (← Production.peek) then
          Production.take
          return true
        return false
      Production.field .name Production.identifier
      if ← Production.atRank then Production.child Production.arrayRank
      Production.optionalAsClause
      Production.optionalValue .defaultValue) := by
    refine seq (repeatWhile (peek fun _ => ite (round take) (pure _))) (seq (field _ identifier) ?_)
    exact aheadEither _ _ fun _ => when (child arrayRank) hend
  exact node _ (atKind fun _ => when (field _ (nested attributeBlock)) hname)

/-- The list looks at the limit, and its parameters are a level down. -/
theorem parameters : Widens n Production.parameters Production.parameters := by
  refine seq checkDepth (node _ (seq (expectMark _) (atKind fun _ => ite (expectEnd _) ?_)))
  exact seq (commaSeparated (child (nested parameter))) (expectEnd _)

theorem optionalParameters : Widens n Production.optionalParameters Production.optionalParameters :=
  atKind fun _ => ite (field _ (nested parameters)) (pure _)

-- ---------------------------------------------------------------------------
-- Inheritance and events
-- ---------------------------------------------------------------------------

theorem typeListClause (r : Rule) (word : Keyword) :
    Widens n (Production.typeListClause r word) (Production.typeListClause r word) :=
  node _ (seq (expectWord _) (commaSeparated (child (nested (type _)))))

theorem handlesClause : Widens n Production.handlesClause Production.handlesClause :=
  node _ (seq (expectWord _) (commaSeparated (child dottedName)))

theorem inheritanceClauses :
    Widens n Production.inheritanceClauses Production.inheritanceClauses := by
  refine repeatWhile (peek fun kind => ?_)
  split
  · exact round (field _ (typeListClause _ _))
  · exact round (field _ (typeListClause _ _))
  · exact pure _

theorem memberClauses : Widens n Production.memberClauses Production.memberClauses := by
  refine repeatWhile (peek fun kind => ?_)
  split
  · exact round (field _ handlesClause)
  · exact round (field _ (typeListClause _ _))
  · exact pure _

end VisualBasic.Production.Widens
