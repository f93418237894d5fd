import VisualBasic.Grammar.Clause
import VisualBasic.Proofs.Height

/-!
# The height of expressions and clauses

How high the nodes of types, expressions and clauses are, links of chains not counted. A production
that looks at the limit gives at most eight nodes for every level that is left to it. What is in a
node is mostly a level down; so a part that does not look at the limit itself has a few nodes more
than eight for every level but one.

Main results:

* `Stacks.extendOf`, `Stacks.memberAccess`, `Stacks.callOrIndexOf` — a chain is as high as what it
  is grown from.
* `Stacks.type`, `Stacks.expression` — by induction on the levels that are left.
-/

namespace VisualBasic.Production.Stacks

variable {n : Nat} {r : Rule} {b k : Nat} {β : Type} {good : β → Prop}

-- ---------------------------------------------------------------------------
-- Names and types
-- ---------------------------------------------------------------------------

/-- A name holds nothing but leaves. -/
theorem dottedName : Stacks n r b (Low (k + 2)) Production.dottedName :=
  node (seq (child identifier)
    (repeatWhile (bind (acceptMark _) fun _ _ => ite (round (child memberName)) done)))

theorem arrayRank : Stacks n r b (Low (k + 2)) Production.arrayRank :=
  node (seq (expectMark _) (seq (repeatWhile (acceptMark _)) (expectEnd _)))

/-- The arguments of a type are types of the next level. -/
theorem typeArgumentsOf {type : Parse Node}
    (h : ∀ {n r b}, Stacks n r b (Low (8 * n)) type) :
    Stacks n r b (Low (8 * (n - 1) + 2)) (Production.typeArgumentsOf type) :=
  node (seq (expectMark _) (seq (expectWord _)
    (seq (commaSeparated (childBelow h (by omega))) (expectEnd _))))

/-- By induction on the levels that are left: the arguments of a type have one less. -/
theorem typeUpTo (room : Nat) (ranks : Bool) :
    Stacks n r b (Low (8 * n)) (Production.typeUpTo room ranks) := by
  induction room generalizing n r b ranks with
  | zero => exact tooDeep
  | succ room ih =>
    refine limited fun m => node ?_
    -- The arguments have two nodes more than the types in them, and the types are a level down.
    have hrest {r : Rule} : Stacks (m + 1) r (8 * m + 6) Anything
        (do
          if ← atTypeArguments then
            Production.child (Production.nested
              (Production.typeArgumentsOf (Production.typeUpTo room true)))
          Production.repeatWhile do
            if ranks && (← atRank) then
              Production.child Production.arrayRank
              return true
            return false) :=
      test fun _ => when (childBelow (typeArgumentsOf (ih true)) (by omega))
        (repeatWhile (test fun _ => ite (round (child arrayRank)) done))
    refine peek fun kind => ?_
    split
    · exact peekAhead fun _ => ite (seq (child (ruleLeaf _)) hrest) (seq (child dottedName) hrest)
    · exact seq (child dottedName) hrest

/-- Every type is low, wherever it begins. -/
theorem type (ranks : Bool) : Stacks n r b (Low (8 * n)) (Production.type ranks) :=
  of_runs fun env _ => ⟨_, typeUpTo env.room ranks, rfl⟩

theorem typeArguments : Stacks n r b (Low (8 * (n - 1) + 2)) Production.typeArguments :=
  typeArgumentsOf (type true)

-- ---------------------------------------------------------------------------
-- Expressions
-- ---------------------------------------------------------------------------

/-- A literal is a leaf and the wrapper around it. -/
theorem literal (r' : Rule) : Stacks n r b (Low (k + 2)) (Production.literal r') :=
  bind (ruleLeaf _) fun _ hx => wrap hx

/-- An access is as high as the object that it goes to. -/
theorem memberAccess {object : Node} (hobject : Low (k + 2) object) :
    Stacks n r b (Low (k + 2)) (Production.memberAccess object) :=
  nodeFrom (seq (link (wrap hobject)) (seq (expectMark _) (field memberName)))

theorem implicitMemberAccess : Stacks n r b (Low (k + 2)) Production.implicitMemberAccess :=
  node (seq (expectMark _) (field memberName))

section

variable {expression : Parse Node} (h : ∀ {n r b}, Stacks n r b (Low (8 * n)) expression)

include h

/-- An argument is its value, perhaps behind a name. The value is not a level down. -/
theorem argumentOf : Stacks n r b (Low (8 * n + 2)) (Production.argumentOf expression) := by
  have hvalue {r : Rule} : Stacks n r (8 * n) Anything expression.child :=
    child (h.low (Nat.le_succ _))
  refine node (peek fun _ => peekAhead fun _ => peekAhead fun _ => ite ?_ hvalue)
  exact seq (field identifier) (seq take (seq take hvalue))

/-- The arguments look at the limit themselves, and each of them is a level down. -/
theorem argumentsOf : Stacks n r b (Low (8 * n)) (Production.argumentsOf expression) := by
  refine limited fun m => node ?_
  have hcomma {r : Rule} : Stacks (m + 1) r (8 * m + 6) Anything (do
      if ← Production.acceptMark .comma then
        Production.skipNewlines
        return true
      return false) :=
    bind (acceptMark _) fun _ _ => ite (round skipNewlines) done
  refine seq (expectMark _) (test fun _ => ite (expectEnd _) (seq (repeatWhile ?_) (expectEnd _)))
  exact test fun _ => test fun _ => ite hcomma (seq (childBelow (argumentOf h) (by omega)) hcomma)

/-- A member and its value; only the value is a level down. -/
theorem initializerOf :
    Stacks n r b (Low (8 * (n - 1) + 2)) (Production.initializerOf expression) := by
  have hvalue {r : Rule} : Stacks n r (8 * (n - 1)) Anything
      (Production.child (Production.nested expression)) :=
    childBelow h (by omega)
  refine node (bind (acceptMark _) fun _ _ => ite ?_ hvalue)
  exact seq (field memberName) (seq (expectMark _) hvalue)

/-- The initializers look at the limit, and each of them is a level down. -/
theorem initializersOf :
    Stacks n r b (Low (8 * (n - 1) + 3)) (Production.initializersOf expression) := by
  refine checkDepth fun m hm => node (seq (expectMark _) (seq skipNewlines ?_))
  have hend {r : Rule} : Stacks n r (8 * (n - 1) + 1) Anything (do
      Production.skipNewlines
      Production.expectEnd .rightBrace) :=
    seq skipNewlines (expectEnd _)
  exact test fun _ => ite hend (seq (commaSeparated (childBelow (initializerOf h) (by omega))) hend)

/-- An access to an element is as high as the object; its indices are a level down. -/
theorem elementAccessOf {object : Node} (hobject : Low (k + 2) object) (hk : 8 * (n - 1) ≤ k + 1) :
    Stacks n r b (Low (k + 2)) (Production.elementAccessOf expression object) := by
  refine nodeFrom (seq (link (wrap hobject)) (seq (expectMark _) ?_))
  exact test fun _ => ite (expectEnd _) (seq (commaSeparated (fieldBelow h hk)) (expectEnd _))

/-- A call is as high as what is called; its arguments are a level down. -/
theorem invocationOf {target : Node} (htarget : Low (k + 2) target) (hk : 8 * (n - 1) + 1 ≤ k) :
    Stacks n r b (Low (k + 2)) (Production.invocationOf expression target) := by
  have harguments {r : Rule} : Stacks n r k Anything
      (Production.field .arguments (Production.nested (Production.argumentsOf expression))) :=
    fieldBelow (argumentsOf h) (by omega)
  refine nodeFrom (seq (attachLink htarget) (test fun _ => ite ?_ harguments))
  exact seq (childBelow typeArguments (by omega)) (test fun _ => ite harguments done)

/-- What the target is decides between the two, and it is as high as the target in either case. -/
theorem callOrIndexOf {target : Node} (htarget : Low (k + 2) target) (hk : 8 * (n - 1) + 1 ≤ k) :
    Stacks n r b (Low (k + 2)) (Production.callOrIndexOf expression target) := by
  rw [Parse.callOrIndexOf_eq]
  exact ite (invocationOf h htarget hk) (elementAccessOf h htarget (by omega))

theorem parenthesizedOf :
    Stacks n r b (Low (8 * (n - 1) + 2)) (Production.parenthesizedOf expression) :=
  node (seq (expectMark _) (seq (childBelow h (by omega)) (expectMark _)))

/-- All three operands are a level down. -/
theorem ternaryOf : Stacks n r b (Low (8 * (n - 1) + 2)) (Production.ternaryOf expression) := by
  have hvalue {r : Rule} (f : Field) : Stacks n r (8 * (n - 1)) Anything
      (Production.field f (Production.nested expression)) :=
    fieldBelow h (by omega)
  refine node (seq take (seq (expectMark _) (seq (hvalue _) (seq (expectMark _) ?_))))
  exact seq (hvalue _) (seq (expectMark _) (seq (hvalue _) (expectMark _)))

/-- What is created: its type, if one is given, its arguments and its initializers. -/
theorem newOf : Stacks n r b (Low (8 * (n - 1) + 4)) (Production.newOf expression) := by
  have hinitializers {r : Rule} : Stacks n r (8 * (n - 1) + 2) Anything
      (Production.child (Production.nested (Production.initializersOf expression))) :=
    childBelow (initializersOf h) (by omega)
  have hrest {r : Rule} : Stacks n r (8 * (n - 1) + 2) Anything
      (do
        if ← Production.test fun env s => env.hasAhead s [.keyword .kwWith, .mark .leftBrace]
            || env.hasAhead s [.keyword .kwFrom, .mark .leftBrace] then Production.take
        if ← Production.atKind (.mark .leftBrace) then
          Production.child (Production.nested (Production.initializersOf expression))) :=
    test fun _ => when take (test fun _ => ite hinitializers done)
  have harguments {r : Rule} : Stacks n r (8 * (n - 1) + 2) Anything
      (do
        if ← Production.atKind (.mark .leftParen) then
          Production.child (Production.nested (Production.argumentsOf expression))
        if ← Production.test fun env s => env.hasAhead s [.keyword .kwWith, .mark .leftBrace]
            || env.hasAhead s [.keyword .kwFrom, .mark .leftBrace] then Production.take
        if ← Production.atKind (.mark .leftBrace) then
          Production.child (Production.nested (Production.initializersOf expression))) :=
    test fun _ => when (childBelow (argumentsOf h) (by omega)) hrest
  exact node (seq take (test fun _ =>
    ite harguments (seq (fieldBelow (type false) (by omega)) harguments)))

/-- The first token tells which operand it is. -/
theorem primaryOf : Stacks n r b (Low (8 * (n - 1) + 4)) (Production.primaryOf expression) := by
  refine peek fun kind => ?_
  split
  case h_1 | h_2 | h_3 | h_4 | h_5 | h_6 | h_7 => exact literal _
  case h_8 => exact bind tokenLeaf fun _ hx => wrap hx
  case h_9 => exact newOf h
  case h_10 => exact peekAhead fun _ => ite ((ternaryOf h).low (by omega)) (fail _)
  case h_11 => exact (parenthesizedOf h).low (by omega)
  case h_12 => exact (initializersOf h).low (by omega)
  case h_13 => exact implicitMemberAccess
  case h_14 => exact ite (ruleLeaf _) (fail _)

/-- Accesses and calls behind an operand are links of a chain, which count for nothing. -/
theorem postfixOf : Stacks n r b (Low (8 * (n - 1) + 5)) (Production.postfixOf expression) := by
  refine bind (primaryOf h) fun primary hprimary => bind (iterate hprimary fun inner hinner => ?_)
    fun _ hx => wrap hx
  refine peek fun kind => ?_
  split
  · exact some (memberAccess hinner)
  · exact some (callOrIndexOf h hinner (by omega))
  · exact none

end

section

variable {operand : Int → Parse Node}
  (h : ∀ {n r b} level, Stacks n r b (Low (8 * n)) (operand level))

include h

/-- The tested operand and the type are a level down. -/
theorem typeTestOf : Stacks n r b (Low (8 * (n - 1) + 3)) (Production.typeTestOf operand) := by
  have hrest {r : Rule} : Stacks n r (8 * (n - 1)) Anything (do
      Production.field .operator Production.tokenLeaf
      Production.field .type (Production.nested (Production.type true))) :=
    seq (field tokenLeaf) (fieldBelow (type true) (by omega))
  refine bind (node (seq take (seq (fieldBelow (h _) (by omega)) ?_))) fun _ hx => wrap hx
  exact test fun _ => test fun _ => ite hrest (failThen _)

/-- The operand of a prefix operator is a level down. -/
theorem unaryOf : Stacks n r b (Low (8 * (n - 1) + 5)) (Production.unaryOf operand) := by
  have hoperation : Stacks n r b (Low (8 * (n - 1) + 5)) (do
      let operation ← Production.node .unaryExpression do
        Production.field .operator Production.tokenLeaf
        Production.field .operand (Production.nested (operand Precedence.unary))
      Production.wrap .expression operation) :=
    bind (node (seq (field tokenLeaf) (fieldBelow (h _) (by omega)))) fun _ hx => wrap hx
  refine peek fun kind => ?_
  split
  case h_5 => exact (typeTestOf h).low (by omega)
  case h_6 => exact postfixOf (h _)
  all_goals exact hoperation

/-- An operation is as high as its left operand. -/
theorem extendOf (level : Int) {left : Node} (hleft : Low (k + 3) left) (hk : 8 * (n - 1) ≤ k + 1) :
    Stacks n r b (fun y => ∀ z ∈ y, Low (k + 3) z) (Production.extendOf operand level left) := by
  refine peek fun kind => ?_
  split
  · exact none
  · refine ite none (bind (nodeFrom ?_) fun _ hx => some (wrap hx))
    exact seq (attachLink hleft) (seq (field tokenLeaf) (fieldBelow (h _) hk))

end

/-- By induction on the levels that are left. The operators on one level make a chain, in which
the right operands are a level down. -/
theorem expressionUpTo (room : Nat) (level : Int) :
    Stacks n r b (Low (8 * n)) (Production.expressionUpTo room level) := by
  induction room generalizing n r b level with
  | zero => exact tooDeep
  | succ room ih =>
    refine limited fun m => ?_
    have hoperand : Stacks (m + 1) r b (Low (8 * m + 8))
        (Production.unaryOf (Production.expressionUpTo room)) :=
      (unaryOf fun level => ih level).low (by omega)
    -- What the loop hands on stays as high as the first operand.
    exact bind hoperand fun left hleft => iterate hleft fun x hx =>
      extendOf (fun level => ih level) level hx (by omega)

/-- Every expression is low, wherever it begins. -/
theorem expression : Stacks n r b (Low (8 * n)) Production.expression :=
  of_runs fun env _ => ⟨_, expressionUpTo env.room Precedence.lowest, rfl⟩

theorem arguments : Stacks n r b (Low (8 * n)) Production.arguments := argumentsOf expression

theorem initializers : Stacks n r b (Low (8 * (n - 1) + 3)) Production.initializers :=
  initializersOf expression

/-- A target of assignments that begins with a node is as high as the node. -/
theorem targetFrom {first : Node} (hfirst : Low (k + 3) first) (hk : 8 * (n - 1) ≤ k) :
    Stacks n r (k + 2) Anything
      (do
        let target ← Production.iterate (fun inner => do
          match ← Production.peek with
          | .mark .dot => Option.some <$> Production.memberAccess inner
          | .mark .leftParen =>
            if ← Production.test fun env s => env.tokens.assignmentFollowsParens 0 s.cursor then
              Option.some <$> Production.elementAccessOf Production.expression inner
            else Option.some <$> Production.callOrIndexOf Production.expression inner
          | _ => return Option.none) first
        unless target.isRule [.identifier, .memberAccess, .elementAccess] do
          Production.fail .assignmentTarget
        Production.attach target) := by
  refine bind (iterate hfirst fun inner hinner => peek fun kind => ?_) fun target hx =>
    ite (attach hx) (failThen _)
  split
  · exact some (memberAccess hinner)
  · exact test fun _ => ite (some (elementAccessOf expression hinner (by omega)))
      (some (callOrIndexOf expression hinner (by omega)))
  · exact none

/-- A target of assignments is a chain from a name or from an access to a member of the `With`
object. -/
theorem leftHandSide : Stacks n r b (Low (8 * n)) Production.leftHandSide := by
  refine limited fun m => node (peek fun kind => ?_)
  split
  · exact bind implicitMemberAccess fun _ hx => targetFrom hx (by omega)
  · exact ite (bind (ruleLeaf _) fun _ hx => targetFrom hx (by omega)) (failThen _)

-- ---------------------------------------------------------------------------
-- Variables
-- ---------------------------------------------------------------------------

/-- The bounds of an array are expressions of the next level. -/
theorem arrayBounds : Stacks n r b (Low (8 * (n - 1) + 2)) Production.arrayBounds :=
  node (seq (expectMark _) (seq (commaSeparated (fieldBelow expression (by omega))) (expectEnd _)))

theorem arraySuffix : Stacks n r b (Low (8 * (n - 1) + 2)) Production.arraySuffix :=
  test fun _ => ite arrayRank arrayBounds

/-- The type behind an `As`, or what is created behind an `As New`. -/
theorem asClause : Stacks n r b (Low (8 * n)) Production.asClause := by
  refine limited fun m => node (seq (expectWord _) ?_)
  have hinitializers {r : Rule} : Stacks (m + 1) r (8 * m + 6) Anything (do
      if (← Production.atWord .kwWith) || (← Production.atWord .kwFrom) then
        Production.take
        Production.child (Production.nested Production.initializers)) :=
    test fun _ => test fun _ => ite (seq take (childBelow initializers (by omega))) done
  refine bind (acceptWord _) fun _ _ => ite (seq (fieldBelow (type false) (by omega)) ?_)
    (fieldBelow (type true) (by omega))
  exact test fun _ => when (childBelow arguments (by omega)) hinitializers

section

variable (hb : 8 * (n - 1) ≤ b)

include hb

/-- What may be left out adds nothing. -/
theorem optionalAsClause : Stacks n r (b + 2) Anything Production.optionalAsClause :=
  test fun _ => ite (childBelow asClause (by omega)) done

theorem optionalValue (f : Field) : Stacks n r (b + 2) Anything (Production.optionalValue f) :=
  bind (acceptMark _) fun _ _ => ite (fieldBelow expression (by omega)) done

/-- A declared name with its type and its value stands in the declaration itself. -/
theorem declarator : Stacks n r (b + 2) Anything Production.declarator := by
  have hrest : Stacks n r (b + 2) Anything (do
      Production.optionalAsClause
      Production.optionalValue .initializer) :=
    seq (optionalAsClause hb) (optionalValue hb _)
  exact seq (field identifier) (test fun _ => when (childBelow arraySuffix (by omega)) hrest)

end

-- ---------------------------------------------------------------------------
-- Type parameters, attributes and parameters
-- ---------------------------------------------------------------------------

theorem typeConstraint : Stacks n r b (Low (8 * (n - 1) + 2)) Production.typeConstraint := by
  refine node (peek fun kind => ?_)
  split
  case h_4 => exact childBelow (type true) (by omega)
  all_goals exact take

/-- A type parameter and its constraints, one or several between braces. -/
theorem typeParameter : Stacks n r b (Low (8 * (n - 1) + 3)) Production.typeParameter := by
  refine node (seq (field identifier) (bind (acceptWord _) fun _ _ => ite ?_ done))
  refine bind (acceptMark _) fun _ _ => ite ?_ (fieldBelow typeConstraint (by omega))
  exact seq (commaSeparated (fieldBelow typeConstraint (by omega))) (expectEnd _)

/-- The list looks at the limit, and its parameters are a level down. -/
theorem typeParameters : Stacks n r b (Low (8 * n)) Production.typeParameters := by
  refine limited fun m => node ?_
  exact seq (expectMark _) (seq (expectWord _)
    (seq (commaSeparated (childBelow typeParameter (by omega))) (expectEnd _)))

/-- The name of an attribute, perhaps behind a target, and its arguments a level down. -/
theorem attributeItem : Stacks n r b (Low (8 * (n - 1) + 3)) Production.attributeItem := by
  have hrest {r : Rule} : Stacks n r (8 * (n - 1) + 1) Anything (do
      Production.field .name (do
        if (← Production.peekAhead 1) == .mark .dot then Production.dottedName
        else Production.identifier)
      if ← Production.atKind (.mark .leftParen) then
        Production.child (Production.nested Production.arguments)) :=
    seq (field (peekAhead fun _ => ite dottedName identifier))
      (test fun _ => ite (childBelow arguments (by omega)) done)
  exact node (test fun _ => ite (seq (field (ruleLeaf _)) (seq take hrest)) hrest)

/-- The block looks at the limit, and the attributes in it are a level down. -/
theorem attributeBlock : Stacks n r b (Low (8 * n)) Production.attributeBlock := by
  refine limited fun m => node ?_
  exact seq (expectMark _) (seq (commaSeparated (childBelow attributeItem (by omega)))
    (expectEnd _))

/-- Modifiers are leaves. -/
theorem modifiers : Stacks n r b (Low (k + 2)) Production.modifiers :=
  node (repeatWhile (peek fun _ => ite (round (child (ruleLeaf _))) done))

/-- Attributes and modifiers stand in the declaration; what is in the attributes is a level
down. -/
theorem declarationPrefix (hb : 8 * (n - 1) ≤ b) :
    Stacks n r (b + 2) Anything Production.declarationPrefix := by
  refine seq (repeatWhile (test fun _ => ite (seq (fieldBelow attributeBlock (by omega)) ?_) done))
    ?_
  · exact test fun _ => when skip done
  · exact peek fun _ => ite (field modifiers) done

/-- A parameter holds its attributes, its type and its default value. -/
theorem parameter : Stacks n r b (Low (8 * (n - 1) + 4)) Production.parameter := by
  have hrest {r : Rule} : Stacks n r (8 * (n - 1) + 2) Anything
      (do
        Production.repeatWhile do
          if isPassing (← Production.peek) then
            Production.take
            return true
          return false
        Production.field .name Production.identifier
        if ← atRank then Production.child Production.arrayRank
        Production.optionalAsClause
        Production.optionalValue .defaultValue) :=
    seq (repeatWhile (peek fun _ => ite (round take) done)) (seq (field identifier)
      (test fun _ => when (child arrayRank)
        (seq (optionalAsClause (by omega)) (optionalValue (by omega) _))))
  exact node (test fun _ => when (fieldBelow attributeBlock (by omega)) hrest)

/-- The list looks at the limit, and its parameters are a level down. -/
theorem parameters : Stacks n r b (Low (8 * n)) Production.parameters := by
  refine limited fun m => node (seq (expectMark _) ?_)
  exact test fun _ => ite (expectEnd _)
    (seq (commaSeparated (childBelow parameter (by omega))) (expectEnd _))

theorem optionalParameters (hb : 8 * (n - 1) ≤ b) :
    Stacks n r (b + 2) Anything Production.optionalParameters :=
  test fun _ => ite (fieldBelow parameters (by omega)) done

-- ---------------------------------------------------------------------------
-- Inheritance and events
-- ---------------------------------------------------------------------------

/-- A clause that lists types, each of them a level down. -/
theorem typeListClause (r' : Rule) (word : Keyword) :
    Stacks n r b (Low (8 * (n - 1) + 2)) (Production.typeListClause r' word) :=
  node (seq (expectWord _) (commaSeparated (childBelow (type false) (by omega))))

theorem handlesClause : Stacks n r b (Low (k + 3)) Production.handlesClause :=
  node (seq (expectWord _) (commaSeparated (child dottedName)))

section

variable (hb : 8 * (n - 1) ≤ b)

include hb

/-- Clauses about inheritance stand in the type itself. -/
theorem inheritanceClauses : Stacks n r (b + 2) Anything Production.inheritanceClauses := by
  refine repeatWhile (peek fun kind => ?_)
  split
  · exact round (field ((typeListClause _ _).low (by omega)))
  · exact round (field ((typeListClause _ _).low (by omega)))
  · exact done

/-- So do the clauses about events and interfaces in a member. -/
theorem memberClauses : Stacks n r (b + 2) Anything Production.memberClauses := by
  refine repeatWhile (peek fun kind => ?_)
  split
  · exact round (field handlesClause)
  · exact round (field ((typeListClause _ _).low (by omega)))
  · exact done

end

end VisualBasic.Production.Stacks
