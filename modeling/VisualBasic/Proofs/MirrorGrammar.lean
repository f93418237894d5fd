import VisualBasic.Proofs.MirrorRules
import VisualBasic.Proofs.QuietStatements

/-!
# Expressions and clauses, built in two ways

The productions of names, types, expressions and clauses are put together alike, however nodes are
kept. Where a production goes on from a finished node, that node is in hand; each of them attaches
it once.

Main results:

* `Mirrors.type`, `Mirrors.expression`, `Mirrors.leftHandSide` — by induction on the levels that are
  left.
* `Mirrors.attributeBlock`, `Mirrors.parameters`, `Mirrors.declarationPrefix` — the parts of
  declarations.
-/

namespace VisualBasic.Production.Mirrors

variable {B N : Type} [Builder B N]

-- ---------------------------------------------------------------------------
-- Names and types
-- ---------------------------------------------------------------------------

/-- Names with dots between them, each of which is attached as it is read. -/
theorem dottedName :
    Produces none (Production.dottedName : Production B N) Production.dottedName := by
  have hclimbs : Climbs (Production.child Production.memberName) :=
    .of_steps (Steps.child Builds.memberName)
  exact .node _ (seq (child identifier) (repeatAccept (by decide) (child memberName) hclimbs))

/-- A look behind the parenthesis: a rank of an array begins with nothing or a comma in it. -/
theorem atRank {h : Hand N} : Does h (Production.atRank : Production B Bool) Production.atRank :=
  test fun _ _ _ hst => hst.elim fun _ _ _ _ _ _ _ => rfl

/-- The parentheses of a rank and the commas between them. -/
theorem arrayRank : Produces none (Production.arrayRank : Production B N) Production.arrayRank := by
  refine .node _ (seq (expectMark _) (seq (repeatWhile (acceptMark _) ?_) (expectEnd _)))
  exact .ifAt (by decide) (.round ReadsOne.take.1) (.pure nofun)

/-- The types in the parentheses behind a name and `Of`. -/
theorem typeArgumentsOf {type : Production B N} {type' : Parse Node}
    (htype : Produces none type type')
    (hbuilds : Builds .quiet 0 true type') :
    Produces none (Production.typeArgumentsOf type) (Production.typeArgumentsOf type') := by
  refine .node _ (seq (expectMark _) (seq (expectWord _) ?_))
  exact seq (childrenByComma htype hbuilds) (expectEnd _)

/-- A look at a parenthesis and `Of`. -/
theorem atTypeArguments {h : Hand N} :
    Does h (Production.atTypeArguments : Production B Bool) Production.atTypeArguments :=
  ahead _

/-- What follows the name of a type. -/
theorem typeSuffix {type : Production B N} {type' : Parse Node} (htype : Produces none type type')
    (hbuilds : Builds .quiet 0 true type') (ranks : Bool) :
    Does none
      (do
        if ← Production.atTypeArguments then
          Production.child (Production.nested (Production.typeArgumentsOf type))
        Production.repeatWhile do
          if ranks && (← Production.atRank) then
            Production.child Production.arrayRank
            return true
          return false)
      (do
        if ← Production.atTypeArguments then
          Production.child (Production.nested (Production.typeArgumentsOf type'))
        Production.repeatWhile do
          if ranks && (← Production.atRank) then
            Production.child Production.arrayRank
            return true
          return false) := by
  have hranks : Does none
      (Production.repeatWhile do
        if ranks && (← Production.atRank) then
          Production.child Production.arrayRank
          return true
        return false : Production B Unit)
      (Production.repeatWhile do
        if ranks && (← Production.atRank) then
          Production.child Production.arrayRank
          return true
        return false) := by
    have hrank := Steps.child Builds.arrayRank
    refine repeatWhile ?_ (.look (Looks.test _) fun _ => .ite ?_ (.pure nofun))
    · exact andThen atRank fun _ => ite (fun _ => seq (child arrayRank) result) fun _ => result
    · exact .first (.of_steps hrank) (.of_steps hrank) fun _ => Climbs.pure _
  have harguments := childNested (typeArgumentsOf htype hbuilds)
  exact andThen atTypeArguments fun _ => ite (fun _ => seq harguments hranks) fun _ => hranks

/-- By induction on the levels that are left: the arguments of a type are types of the next
level. -/
theorem typeUpTo (room : Nat) (ranks : Bool) :
    Produces none (Production.typeUpTo room ranks : Production B N)
    (Production.typeUpTo room ranks) := by
  induction room generalizing ranks with
  | zero => exact tooDeep
  | succ room ih =>
    have hsuffix := typeSuffix (ih true) (Builds.typeUpTo room true) ranks
    refine checked (.node _ (peek fun kind => ?_))
    split
    · exact peekAhead fun _ => ite (fun _ => seq (child (ruleLeaf _)) hsuffix) fun _ =>
        seq (child dottedName) hsuffix
    · exact seq (child dottedName) hsuffix

/-- The levels that are left are told by the place alone, so they are the same for both. -/
theorem type (ranks : Bool) : Produces none (Production.type ranks : Production B N)
    (Production.type ranks) :=
  byRoom fun room => typeUpTo room ranks

/-- The same of the arguments by themselves, as a generic name in an expression has them. -/
theorem typeArguments :
    Produces none (Production.typeArguments : Production B N) Production.typeArguments :=
  typeArgumentsOf (type true) (Builds.type true)

-- ---------------------------------------------------------------------------
-- Names, members and literals
-- ---------------------------------------------------------------------------

/-- A leaf in the wrapper that says what is literal about it. -/
theorem literal (rule : Rule) :
    Produces none (Production.literal rule : Production B N) (Production.literal rule) :=
  wrapped _ (ruleLeaf rule)

/-- The object is in hand, and the access takes it as its first child. -/
theorem memberAccess {i : N} {n : Node} :
    Produces (some (i, n)) (Production.memberAccess i : Production B N)
    (Production.memberAccess n) :=
  .nodeFrom _ (seq (field _ (wrap _)) (seq (expectMark _) (field _ memberName)))

/-- An access without an object, which begins with the dot. -/
theorem implicitMemberAccess :
    Produces none (Production.implicitMemberAccess : Production B N)
      Production.implicitMemberAccess :=
  .node _ (seq (expectMark _) (field _ memberName))

-- ---------------------------------------------------------------------------
-- Arguments and initializers
-- ---------------------------------------------------------------------------

section

variable {expression : Production B N} {expression' : Parse Node}

/-- An argument, perhaps behind its name. Both attach what comes before the value before they read
it. -/
theorem argumentOf (hexpr : Produces none expression expression') :
    Produces none (Production.argumentOf expression) (Production.argumentOf expression') := by
  refine .node _ (peek fun _ => peekAhead fun _ => peekAhead fun _ => ite (fun _ => ?_)
    fun _ => child hexpr)
  exact seq (field _ identifier) (seq take (seq take (child hexpr)))

/-- The arguments in parentheses, some of which may be left out. An argument reads a token, so the
loop over them ends. -/
theorem argumentsOf (hexpr : Produces none expression expression')
    (hbuilds : Builds .quiet 0 true expression') :
    Produces none (Production.argumentsOf expression) (Production.argumentsOf expression') := by
  have hcomma : Does none
      (do
        if ← Production.acceptMark .comma then
          Production.skipNewlines
          return true
        return false : Production B Bool)
      (do
        if ← Production.acceptMark .comma then
          Production.skipNewlines
          return true
        return false) :=
    ifAccept (seq skipNewlines result) result
  have hclimbs : Climbs Production.skipNewlines := .of_steps Steps.skipNewlines
  have hmoves : Moves (· = true) (do
        if ← Production.acceptMark .comma then
          Production.skipNewlines
          return true
        return false) :=
    .accept (by decide) (hclimbs.bind fun _ => Climbs.pure _) (.pure nofun)
  have hargument := Steps.child (Builds.argumentOf hbuilds).nested
  refine checked
    (.node _ (seq (expectMark _) (ifAt (expectEnd _) (seq (repeatWhile ?_ ?_) (expectEnd _)))))
  · refine andThen (atKind _) fun _ => andThen (atKind _) fun _ => ite (fun _ => hcomma) fun _ => ?_
    exact seq (childNested (argumentOf hexpr)) hcomma
  · refine .look (Looks.test _) fun _ => .look (Looks.test _) fun _ => .ite hmoves ?_
    exact .behind (.of_steps hargument) fun _ => hmoves

/-- A value, perhaps behind the member that it is given to. -/
theorem initializerOf (hexpr : Produces none expression expression') :
    Produces none (Production.initializerOf expression) (Production.initializerOf expression') := by
  refine .node _ (ifAccept ?_ (childNested hexpr))
  exact seq (field _ memberName) (seq (expectMark _) (childNested hexpr))

/-- The initializers between braces, which may stand on several lines. -/
theorem initializersOf (hexpr : Produces none expression expression')
    (hbuilds : Builds .quiet 0 true expression') :
    Produces none (Production.initializersOf expression)
    (Production.initializersOf expression') := by
  have hitems := childrenByComma (initializerOf hexpr) (Builds.initializerOf hbuilds)
  have hend : Does none
      (do
        Production.skipNewlines
        Production.expectEnd .rightBrace : Production B Unit)
      (do
        Production.skipNewlines
        Production.expectEnd .rightBrace) :=
    seq skipNewlines (expectEnd _)
  exact checked (.node _ (seq (expectMark _) (seq skipNewlines (ifAt hend (seq hitems hend)))))

-- ---------------------------------------------------------------------------
-- Calls and indices
-- ---------------------------------------------------------------------------

/-- The object of an element access is in hand, and so its first child. -/
theorem elementAccessOf (hexpr : Produces none expression expression')
    (hbuilds : Builds .quiet 0 true expression') {i : N} {n : Node} :
    Produces (some (i, n)) (Production.elementAccessOf expression i)
      (Production.elementAccessOf expression' n) := by
  refine .nodeFrom _ (seq (field _ (wrap _)) (seq (expectMark _) (ifAt (expectEnd _) ?_)))
  exact seq (fieldsByComma _ hexpr hbuilds) (expectEnd _)

/-- What is called is in hand in front of its arguments. -/
theorem invocationOf (hexpr : Produces none expression expression')
    (hbuilds : Builds .quiet 0 true expression') {i : N} {n : Node} :
    Produces (some (i, n)) (Production.invocationOf expression i)
    (Production.invocationOf expression' n) := by
  have harguments := fieldNested .arguments (argumentsOf hexpr hbuilds)
  refine .nodeFrom
    _ (seq (.attachIn _) (andThen atTypeArguments fun _ => ite (fun _ => ?_) fun _ => harguments))
  exact seq (childNested typeArguments) (ifAt harguments result)

/-- Whether it is a call or an access to an element is told by the rule of what is in hand; the two
builders say the same of it. -/
theorem callOrIndexOf (hexpr : Produces none expression expression')
    (hbuilds : Builds .quiet 0 true expression') {i : N} {n : Node} :
    Produces (some (i, n)) (Production.callOrIndexOf expression i)
      (Production.callOrIndexOf expression' n) :=
  andThen (.isRule _) fun _ =>
    ite (fun _ => invocationOf hexpr hbuilds) fun _ => elementAccessOf hexpr hbuilds

-- ---------------------------------------------------------------------------
-- Primaries
-- ---------------------------------------------------------------------------

/-- An expression between parentheses. -/
theorem parenthesizedOf (hexpr : Produces none expression expression') :
    Produces none (Production.parenthesizedOf expression)
    (Production.parenthesizedOf expression') :=
  .node _ (seq (expectMark _) (seq (childNested hexpr) (expectMark _)))

/-- The three operands of an `If` in an expression. -/
theorem ternaryOf (hexpr : Produces none expression expression') :
    Produces none (Production.ternaryOf expression) (Production.ternaryOf expression') := by
  refine .node _ (seq take (seq (expectMark _) (seq (fieldNested _ hexpr) (seq (expectMark _) ?_))))
  exact seq (fieldNested _ hexpr) (seq (expectMark _) (seq (fieldNested _ hexpr) (expectMark _)))

/-- What is created, with the arguments and the initializers that it is given. -/
theorem newOf (hexpr : Produces none expression expression')
    (hbuilds : Builds .quiet 0 true expression') :
    Produces none (Production.newOf expression) (Production.newOf expression') := by
  have hinitializers : Does none
      (do
        if ← Production.atKind (.mark .leftBrace) then
          Production.child (Production.nested (Production.initializersOf expression)))
      (do
        if ← Production.atKind (.mark .leftBrace) then
          Production.child (Production.nested (Production.initializersOf expression'))) :=
    ifAt (childNested (initializersOf hexpr hbuilds)) result
  have hbraces : Does none
      (do
        if ← Production.test fun env s => env.hasAhead s [.keyword .kwWith, .mark .leftBrace]
            || env.hasAhead s [.keyword .kwFrom, .mark .leftBrace] then Production.take
        if ← Production.atKind (.mark .leftBrace) then
          Production.child (Production.nested (Production.initializersOf expression)))
      (do
        if ← Production.test fun env s => env.hasAhead s [.keyword .kwWith, .mark .leftBrace]
            || env.hasAhead s [.keyword .kwFrom, .mark .leftBrace] then Production.take
        if ← Production.atKind (.mark .leftBrace) then
          Production.child (Production.nested (Production.initializersOf expression'))) :=
    ifTest (fun _ _ _ hst => hst.elim fun _ _ _ _ _ _ _ => rfl)
    (seq take hinitializers) hinitializers
  have hcalled : Does none
      (do
        if ← Production.atKind (.mark .leftParen) then
          Production.child (Production.nested (Production.argumentsOf expression))
        if ← Production.test fun env s => env.hasAhead s [.keyword .kwWith, .mark .leftBrace]
            || env.hasAhead s [.keyword .kwFrom, .mark .leftBrace] then Production.take
        if ← Production.atKind (.mark .leftBrace) then
          Production.child (Production.nested (Production.initializersOf expression)))
      (do
        if ← Production.atKind (.mark .leftParen) then
          Production.child (Production.nested (Production.argumentsOf expression'))
        if ← Production.test fun env s => env.hasAhead s [.keyword .kwWith, .mark .leftBrace]
            || env.hasAhead s [.keyword .kwFrom, .mark .leftBrace] then Production.take
        if ← Production.atKind (.mark .leftBrace) then
          Production.child (Production.nested (Production.initializersOf expression'))) :=
    ifAt (seq (childNested (argumentsOf hexpr hbuilds)) hbraces) hbraces
  refine .node _ (seq take (ifAt hcalled (seq ?_ hcalled)))
  exact fieldNested _ (type false)

/-- The next token tells which operand it is, and both look at the same one. -/
theorem primaryOf (hexpr : Produces none expression expression')
    (hbuilds : Builds .quiet 0 true expression') :
    Produces none (Production.primaryOf expression) (Production.primaryOf expression') := by
  refine peek fun kind => ?_
  split
  case h_8 => exact wrapped _ tokenLeaf
  case h_9 => exact newOf hexpr hbuilds
  case h_10 => exact peekAhead fun _ => ite (fun _ => ternaryOf hexpr) fun _ => fail _
  case h_11 => exact parenthesizedOf hexpr
  case h_12 => exact initializersOf hexpr hbuilds
  case h_13 => exact implicitMemberAccess
  case h_14 => exact ite (fun _ => ruleLeaf _) fun _ => fail _
  all_goals exact literal _

/-- A step that goes on from a primary reads a token. -/
theorem moves_behindPrimary (hbuilds : Builds .quiet 0 true expression') (inner : Node) :
    Moves (fun z => z.isSome = true) (do
      match ← Production.peek with
      | .mark .dot => some <$> Production.memberAccess inner
      | .mark .leftParen => some <$> Production.callOrIndexOf expression' inner
      | _ => return none) := by
  refine .peek (fun kind _ => ?_) (.pure nofun)
  split
  · exact .some (Phrase.progresses_memberAccess inner)
  · exact .some (Phrase.progresses_callOrIndexOf hbuilds inner)
  · exact .pure nofun

/-- Accesses and calls go round a loop, with what has been read so far in hand. -/
theorem postfixOf (hexpr : Produces none expression expression')
    (hbuilds : Builds .quiet 0 true expression') :
    Produces none (Production.postfixOf expression) (Production.postfixOf expression') := by
  refine .bind (primaryOf hexpr hbuilds) fun i n k hk => ?_
  obtain rfl : k = some (i, n) := hk
  refine wrapped .expression (iterateNode (fun i n => peek fun kind => ?_)
    (moves_behindPrimary hbuilds))
  split
  · exact mapSome memberAccess
  · exact mapSome (callOrIndexOf hexpr hbuilds)
  · exact nothing

end

-- ---------------------------------------------------------------------------
-- Operators
-- ---------------------------------------------------------------------------

section

variable {operand : Int → Production B N} {operand' : Int → Parse Node}

/-- The operand and the type of a `TypeOf`. -/
theorem typeTestOf (hoperand : ∀ level, Produces none (operand level) (operand' level)) :
    Produces none (Production.typeTestOf operand) (Production.typeTestOf operand') := by
  have htested : Does none
      (do
        Production.field .operator Production.tokenLeaf
        Production.field .type (Production.nested (Production.type true)) : Production B Unit)
      (do
        Production.field .operator Production.tokenLeaf
        Production.field .type (Production.nested (Production.type true))) :=
    seq (field _ tokenLeaf) (fieldNested _ (type true))
  refine wrapped _ (.node _ (seq take (seq (fieldNested _ (hoperand _)) ?_)))
  exact andThen (atWord _) fun _ => andThen (atWord _) fun _ =>
    ite (fun _ => htested) fun _ => seq (fail _) htested

/-- A prefix operator and its operand. Without an operator it is what stands behind operands. -/
theorem unaryOf (hoperand : ∀ level, Produces none (operand level) (operand' level))
    (hbuilds : Builds .quiet 0 true (operand' Precedence.lowest)) :
    Produces none (Production.unaryOf operand) (Production.unaryOf operand') := by
  refine peek fun kind => ?_
  split
  case h_5 => exact typeTestOf hoperand
  case h_6 => exact postfixOf (hoperand _) hbuilds
  all_goals
    exact wrapped _ (.node _ (seq (field _ tokenLeaf) (fieldNested _ (hoperand _))))

/-- One round over the operators: the left operand is in hand, and if no operator follows it stays
there. -/
theorem extendOf (hoperand : ∀ level, Produces none (operand level) (operand' level)) (level : Int)
    {i : N} {n : Node} : Mirrors (some (i, n)) (Perhaps Given (some (i, n)))
      (Production.extendOf operand level i) (Production.extendOf operand' level n) := by
  refine peek fun kind => ?_
  cases Precedence.ofKind? kind with
  | none => exact nothing
  | some precedence =>
    refine ite (fun _ => nothing) fun _ => ?_
    have hoperation : Produces (some (i, n))
        (Production.nodeFrom i .binaryExpression do
          Production.attachIn .left i
          Production.field .operator Production.tokenLeaf
          Production.field .right (Production.nested (operand precedence.right)))
        (Production.nodeFrom n .binaryExpression do
          Production.attachIn .left n
          Production.field .operator Production.tokenLeaf
          Production.field .right (Production.nested (operand' precedence.right))) :=
      .nodeFrom _ (seq (.attachIn _) (seq (field _ tokenLeaf) (fieldNested _ (hoperand _))))
    refine .bind hoperation fun j m k hk => ?_
    obtain rfl : k = some (j, m) := hk
    exact mapSome (wrap _)

/-- Where there is an operator, it is read. -/
theorem moves_extendOf (hbuilds : ∀ level, Builds .quiet 0 true (operand' level)) (level : Int)
    (left : Node) : Moves (fun y => y.isSome = true) (Production.extendOf operand' level left) :=
  .ofReady (Phrase.progresses_extendOf hbuilds level left) (.pure nofun)

end

/-- By induction on the levels that are left. The operands of a level come from the one below it. -/
theorem expressionUpTo (room : Nat) (level : Int) :
    Produces none (Production.expressionUpTo room level : Production B N)
      (Production.expressionUpTo room level) := by
  induction room generalizing level with
  | zero => exact tooDeep
  | succ room ih =>
    have hbuilds := Builds.expressionUpTo room
    refine checked (.bind (unaryOf ih (hbuilds _)) fun i n k hk => ?_)
    obtain rfl : k = some (i, n) := hk
    exact iterateNode (fun i n => extendOf ih level) (moves_extendOf hbuilds level)

/-- An expression at any level that the place allows. -/
theorem expression :
    Produces none (Production.expression : Production B N) Production.expression :=
  byRoom fun room => expressionUpTo room _

/-- The arguments of a call that stand by themselves, as those of an attribute do. -/
theorem arguments : Produces none (Production.arguments : Production B N) Production.arguments :=
  argumentsOf expression Builds.expression

/-- The initializers of what is created by a declaration. -/
theorem initializers :
    Produces none (Production.initializers : Production B N) Production.initializers :=
  initializersOf expression Builds.expression

-- ---------------------------------------------------------------------------
-- Targets of assignments
-- ---------------------------------------------------------------------------

/-- A target that goes on reads the dot or the parenthesis that it goes on with. -/
theorem moves_target (inner : Node) : Moves (fun z => z.isSome = true) (do
    match ← Production.peek with
    | .mark .dot => some <$> Production.memberAccess inner
    | .mark .leftParen =>
      if ← Production.test fun env s => env.tokens.assignmentFollowsParens 0 s.cursor then
        some <$> Production.elementAccessOf Production.expression inner
      else some <$> Production.callOrIndexOf Production.expression inner
    | _ => return none) := by
  refine .peek (fun kind _ => ?_) (.pure nofun)
  split
  · exact .some (Phrase.progresses_memberAccess inner)
  · exact .look (Looks.test _) fun _ =>
      .ite (.some (Phrase.progresses_elementAccessOf Builds.expression inner))
        (.some (Phrase.progresses_callOrIndexOf Builds.expression inner))
  · exact .pure nofun

/-- The parts of a target behind its first one. -/
theorem targetParts {i : N} {n : Node} : Mirrors (some (i, n)) (Plain none)
    (do
      let target ← Production.iterate (fun inner => do
        match ← Production.peek with
        | .mark .dot => some <$> Production.memberAccess inner
        | .mark .leftParen =>
          if ← Production.test fun env s => env.tokens.assignmentFollowsParens 0 s.cursor then
            some <$> Production.elementAccessOf Production.expression inner
          else some <$> Production.callOrIndexOf Production.expression inner
        | _ => return none) i
      unless ← Production.isRule target [.identifier, .memberAccess, .elementAccess] do
        Production.fail .assignmentTarget
      Production.attach target : Production B Unit)
    (do
      let target ← Production.iterate (fun inner => do
        match ← Production.peek with
        | .mark .dot => some <$> Production.memberAccess inner
        | .mark .leftParen =>
          if ← Production.test fun env s => env.tokens.assignmentFollowsParens 0 s.cursor then
            some <$> Production.elementAccessOf Production.expression inner
          else some <$> Production.callOrIndexOf Production.expression inner
        | _ => return none) n
      unless ← Production.isRule target [.identifier, .memberAccess, .elementAccess] do
        Production.fail .assignmentTarget
      Production.attach target) := by
  refine .bind (iterateNode (fun i n => peek fun kind => ?_) moves_target) fun j m k hk => ?_
  · split
    · exact mapSome memberAccess
    · exact ifTest (fun _ _ _ hst => hst.elim fun _ _ _ _ _ _ _ => rfl)
        (mapSome (elementAccessOf expression Builds.expression))
        (mapSome (callOrIndexOf expression Builds.expression))
    · exact nothing
  · obtain rfl : k = some (j, m) := hk
    exact andThen (.isRule _) fun _ => ite (fun _ => .attach) fun _ => seq (fail _) .attach

/-- A target of assignments: it begins with a name, or with the dot of an access to the `With`
object, and it is in hand while it grows. -/
theorem leftHandSide :
    Produces none (Production.leftHandSide : Production B N) Production.leftHandSide := by
  have hrest (i : N) (n : Node) (k : Hand N) (hk : Given i n k) := hk ▸ targetParts (B := B)
  refine checked (.node _ (peek fun kind => ?_))
  split
  · exact .bind implicitMemberAccess hrest
  · exact ite (fun _ => .bind (ruleLeaf _) hrest) fun _ => .bind (r := Given) (fail _) hrest

-- ---------------------------------------------------------------------------
-- Variables
-- ---------------------------------------------------------------------------

/-- The bounds of an array behind its name. -/
theorem arrayBounds :
    Produces none (Production.arrayBounds : Production B N) Production.arrayBounds :=
  .node _ (seq (expectMark _) (seq (fieldsByComma _ expression Builds.expression) (expectEnd _)))

/-- Bounds or a rank. Which of them it is shows in what stands between the parentheses. -/
theorem arraySuffix :
    Produces none (Production.arraySuffix : Production B N) Production.arraySuffix :=
  andThen atRank fun _ => ite (fun _ => arrayRank) fun _ => arrayBounds

/-- The type behind `As`, or what is created behind `As New`. -/
theorem asClause : Produces none (Production.asClause : Production B N) Production.asClause := by
  have hbraces : Does none
      (do
        if (← Production.atWord .kwWith) || (← Production.atWord .kwFrom) then
          Production.take
          Production.child (Production.nested Production.initializers) : Production B Unit)
      (do
        if (← Production.atWord .kwWith) || (← Production.atWord .kwFrom) then
          Production.take
          Production.child (Production.nested Production.initializers)) := by
    refine andThen (atWord _) fun _ => andThen (atWord _) fun _ => ite (fun _ => ?_) fun _ => result
    exact seq take (childNested initializers)
  refine checked (.node _ (seq (expectWord _) (ifAccept ?_ (fieldNested _ (type true)))))
  exact seq (fieldNested _ (type false)) (ifAt (seq (childNested arguments) hbraces) hbraces)

/-- Both look at the same word to tell whether there is a type. -/
theorem optionalAsClause :
    Does none (Production.optionalAsClause : Production B Unit) Production.optionalAsClause :=
  ifAt (childNested asClause) result

/-- The value behind an equality sign, in its role. -/
theorem optionalValue (f : Field) :
    Does none (Production.optionalValue f : Production B Unit) (Production.optionalValue f) :=
  ifAccept (fieldNested _ expression) result

/-- A declared name, with bounds, type and value as far as they are there. -/
theorem declarator :
    Does none (Production.declarator : Production B Unit) Production.declarator := by
  have htype : Does none
      (do
        Production.optionalAsClause
        Production.optionalValue .initializer : Production B Unit)
      (do
        Production.optionalAsClause
        Production.optionalValue .initializer) :=
    seq optionalAsClause (optionalValue _)
  exact seq (field _ identifier) (ifAt (seq (childNested arraySuffix) htype) htype)

-- ---------------------------------------------------------------------------
-- Type parameters
-- ---------------------------------------------------------------------------

/-- A constraint is one of three words or a type. -/
theorem typeConstraint :
    Produces none (Production.typeConstraint : Production B N) Production.typeConstraint := by
  refine .node _ (peek fun kind => ?_)
  split
  case h_4 => exact childNested (type true)
  all_goals exact take

/-- A type parameter with its constraints, one or several between braces. -/
theorem typeParameter :
    Produces none (Production.typeParameter : Production B N) Production.typeParameter := by
  have hconstraints := fieldsByComma (B := B) .constraint typeConstraint Builds.typeConstraint
  refine .node _ (seq (field _ identifier) (ifAccept ?_ result))
  exact ifAccept (seq hconstraints (expectEnd _)) (fieldNested _ typeConstraint)

/-- The type parameters of a declaration, with commas between them. -/
theorem typeParameters :
    Produces none (Production.typeParameters : Production B N) Production.typeParameters := by
  refine checked (.node _ (seq (expectMark _) (seq (expectWord _) ?_)))
  exact seq (childrenByComma typeParameter Builds.typeParameter) (expectEnd _)

-- ---------------------------------------------------------------------------
-- Attributes and modifiers
-- ---------------------------------------------------------------------------

/-- The name of an attribute, perhaps behind what it is said of, and its arguments. -/
theorem attributeItem :
    Produces none (Production.attributeItem : Production B N) Production.attributeItem := by
  have hname : Does none
      (do
        Production.field .name (do
          if (← Production.peekAhead 1) == .mark .dot then Production.dottedName
          else Production.identifier)
        if ← Production.atKind (.mark .leftParen) then
          Production.child (Production.nested Production.arguments) : Production B Unit)
      (do
        Production.field .name (do
          if (← Production.peekAhead 1) == .mark .dot then Production.dottedName
          else Production.identifier)
        if ← Production.atKind (.mark .leftParen) then
          Production.child (Production.nested Production.arguments)) := by
    refine seq (field _ (peekAhead fun _ => ite (fun _ => dottedName) fun _ => identifier)) ?_
    exact ifAt (childNested arguments) result
  refine .node _ (ifTest (fun _ _ _ hst => hst.elim fun _ _ _ _ _ _ _ => rfl) ?_ hname)
  exact seq (field _ (ruleLeaf _)) (seq take hname)

/-- The attributes between angle brackets. -/
theorem attributeBlock :
    Produces none (Production.attributeBlock : Production B N) Production.attributeBlock := by
  refine checked (.node _ (seq (expectMark _) (seq ?_ (expectEnd _))))
  exact childrenByComma attributeItem Builds.attributeItem

/-- All modifiers in a row, in a node of their own. -/
theorem modifiers : Produces none (Production.modifiers : Production B N) Production.modifiers := by
  refine .node _ (repeatWhile (peek fun _ => ite (fun _ => ?_) fun _ => result) ?_)
  · exact seq (child (ruleLeaf _)) result
  · refine .ofReady (.look Looks.peek fun _ => .ite ?_ (.pure nofun)) (.pure nofun)
    exact .round (Steps.child (Builds.ruleLeaf _))

/-- Attributes and modifiers in front of a declaration; there may be none of either. -/
theorem declarationPrefix :
    Does none (Production.declarationPrefix : Production B Unit) Production.declarationPrefix := by
  have hblock := Steps.field .attributes Builds.attributeBlock.nested
  refine seq (repeatWhile (ifAt ?_ result) ?_)
    (peek fun _ => ite (fun _ => field _ modifiers) fun _ => result)
  · exact seq (fieldNested _ attributeBlock) (ifAt (seq skip result) result)
  · refine .ifAt (by decide) (.first (.of_steps hblock) (.of_steps hblock) fun _ => ?_)
      (.pure nofun)
    exact .look (Looks.test _) fun _ => .ite (Climbs.skip.bind fun _ => .pure _) (.pure _)

-- ---------------------------------------------------------------------------
-- Parameters
-- ---------------------------------------------------------------------------

/-- A parameter: attributes, words for how it is passed, the name, and what may follow the name. -/
theorem parameter : Produces none (Production.parameter : Production B N) Production.parameter := by
  have hpassing : Does none
      (Production.repeatWhile do
        if isPassing (← Production.peek) then
          Production.take
          return true
        return false : Production B Unit)
      (Production.repeatWhile do
        if isPassing (← Production.peek) then
          Production.take
          return true
        return false) := by
    refine repeatWhile (peek fun _ => ite (fun _ => seq take result) fun _ => result) ?_
    exact .ofReady (.look Looks.peek fun _ => .ite (.round ReadsOne.take.1) (.pure nofun))
      (.pure nofun)
  have htype : Does none
      (do
        Production.optionalAsClause
        Production.optionalValue .defaultValue : Production B Unit)
      (do
        Production.optionalAsClause
        Production.optionalValue .defaultValue) :=
    seq optionalAsClause (optionalValue _)
  have hname : Does none
      (do
        Production.field .name Production.identifier
        if ← Production.atRank then Production.child Production.arrayRank
        Production.optionalAsClause
        Production.optionalValue .defaultValue : Production B Unit)
      (do
        Production.field .name Production.identifier
        if ← Production.atRank then Production.child Production.arrayRank
        Production.optionalAsClause
        Production.optionalValue .defaultValue) :=
    seq (field _ identifier) (andThen atRank fun _ => ite (fun _ => seq (child arrayRank) htype)
      fun _ => htype)
  exact .node _ (ifAt (seq (fieldNested _ attributeBlock) (seq hpassing hname))
    (seq hpassing hname))

/-- The parameters of a member in their parentheses. -/
theorem parameters :
    Produces none (Production.parameters : Production B N) Production.parameters := by
  refine checked (.node _ (seq (expectMark _) (ifAt (expectEnd _) (seq ?_ (expectEnd _)))))
  exact childrenByComma parameter Builds.parameter

/-- The parameters are there if the parenthesis is. -/
theorem optionalParameters :
    Does none (Production.optionalParameters : Production B Unit) Production.optionalParameters :=
  ifAt (fieldNested _ parameters) result

-- ---------------------------------------------------------------------------
-- Inheritance and events
-- ---------------------------------------------------------------------------

/-- A word and the types behind it. -/
theorem typeListClause (rule : Rule) (word : Keyword) :
    Produces none (Production.typeListClause rule word : Production B N)
      (Production.typeListClause rule word) :=
  .node _ (seq (expectWord _) (childrenByComma (type false) (Builds.type false)))

/-- The events behind `Handles`, as names with dots. -/
theorem handlesClause :
    Produces none (Production.handlesClause : Production B N) Production.handlesClause :=
  .node _ (seq (expectWord _)
    (commaSeparated (child dottedName) (.of_steps (Steps.child Builds.dottedName))))

/-- Clauses about inheritance, as many as follow one another. -/
theorem inheritanceClauses :
    Does none (Production.inheritanceClauses : Production B Unit)
      Production.inheritanceClauses := by
  refine repeatWhile (peek fun kind => ?_) (.peek (fun kind _ => ?_) (.pure nofun))
  · split
    · exact seq (field _ (typeListClause _ _)) result
    · exact seq (field _ (typeListClause _ _)) result
    · exact result
  · split
    · exact .round (Steps.field .inherits (Builds.typeListClause _ _))
    · exact .round (Steps.field .implements (Builds.typeListClause _ _))
    · exact .pure nofun

/-- What a member handles or implements, in either order. -/
theorem memberClauses :
    Does none (Production.memberClauses : Production B Unit) Production.memberClauses := by
  refine repeatWhile (peek fun kind => ?_) (.peek (fun kind _ => ?_) (.pure nofun))
  · split
    · exact seq (field _ handlesClause) result
    · exact seq (field _ (typeListClause _ _)) result
    · exact result
  · split
    · exact .round (Steps.field .handles Builds.handlesClause)
    · exact .round (Steps.field .implements (Builds.typeListClause _ _))
    · exact .pure nofun

end VisualBasic.Production.Mirrors
