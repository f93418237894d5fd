import VisualBasic.Grammar.Precedence
import VisualBasic.Grammar.Type

/-!
# Expressions

An expression is operands joined by binary operators; an operand is a primary with member accesses,
calls and indices behind it, or a prefix operator and its operand. Every expression is wrapped in an
`expression` node. The productions of the parts take the expression one level down as an argument;
`expressionUpTo` ties the knot by recursion on the levels that are left.
-/

namespace VisualBasic

namespace TokenStream

/-- Whether an assignment operator follows the parenthesis that closes those open at an index;
`nesting` of them are open. The search ends with the line. -/
def assignmentFollowsParens (s : TokenStream) (nesting i : Nat) : Bool :=
  if i < s.tokens.size then
    match s.kindAt i with
    | .mark .leftParen => assignmentFollowsParens s (nesting + 1) (i + 1)
    | .mark .rightParen =>
      if nesting ≤ 1 then (s.kindAt (i + 1)).isAssignment
      else assignmentFollowsParens s (nesting - 1) (i + 1)
    | .newline | .endOfFile => false
    | _ => assignmentFollowsParens s nesting (i + 1)
  else false
termination_by s.tokens.size - i

end TokenStream

namespace Production

variable {B N : Type} [Builder B N]

/-! ## Names, members and literals -/

/-- A literal made from a single token. -/
def literal (r : Rule) : Production B N := do wrap .literal (← ruleLeaf r)

/-- A member of what has been read. -/
def memberAccess (object : N) : Production B N :=
  nodeFrom object .memberAccess do
    field .object (wrap .expression object)
    expectMark .dot
    field .member memberName

/-- A member of the subject of the `With` block around. -/
def implicitMemberAccess : Production B N :=
  node .memberAccess do
    expectMark .dot
    field .member memberName

/-! ## Arguments and initializers -/

section

variable (expression : Production B N)

/-- An argument by position or by name. -/
def argumentOf : Production B N :=
  node .argument do
    if (← peek).isNameLike && (← peekAhead 1) == .mark .colon &&
        (← peekAhead 2) == .mark .equal then
      field .name identifier
      take
      take
    child expression

/-- Arguments in parentheses; between commas they may be left out. -/
def argumentsOf : Production B N := do
  checkDepth
  node .argumentList do
    expectMark .leftParen
    unless ← atKind (.mark .rightParen) do
      repeatWhile do
        unless (← atKind (.mark .comma)) || (← atKind (.mark .rightParen)) do
          child (nested (argumentOf expression))
        if ← acceptMark .comma then
          skipNewlines
          return true
        return false
    expectEnd .rightParen

/-- The value of a member, or an element of a collection. -/
def initializerOf : Production B N :=
  node .objectInitializer do
    if ← acceptMark .dot then
      field .name memberName
      expectMark .equal
    child (nested expression)

/-- Initializers in braces. -/
def initializersOf : Production B N := do
  checkDepth
  node .objectInitializers do
    expectMark .leftBrace
    skipNewlines
    unless ← atKind (.mark .rightBrace) do
      commaSeparated (child (nested (initializerOf expression)))
    skipNewlines
    expectEnd .rightBrace

/-! ## Calls and indices -/

def elementAccessOf (object : N) : Production B N :=
  nodeFrom object .elementAccess do
    field .object (wrap .expression object)
    expectMark .leftParen
    unless ← atKind (.mark .rightParen) do
      commaSeparated (field .index (nested expression))
    expectEnd .rightParen

/-- A call, perhaps with type arguments, which may stand alone. -/
def invocationOf (target : N) : Production B N :=
  nodeFrom target .invocation do
    attachIn .target target
    if ← atTypeArguments then
      child (nested typeArguments)
      unless ← atKind (.mark .leftParen) do return
    field .arguments (nested (argumentsOf expression))

/-- What a parenthesis opens: a call behind a name, and indices behind anything else. -/
def callOrIndexOf (target : N) : Production B N := do
  if ← isRule target [.identifier, .memberAccess] then invocationOf expression target
  else elementAccessOf expression target

/-! ## Primaries -/

def parenthesizedOf : Production B N :=
  node .parenthesizedExpression do
    expectMark .leftParen
    child (nested expression)
    expectMark .rightParen

/-- The choice between two values by a condition. -/
def ternaryOf : Production B N :=
  node .ternaryExpression do
    take
    expectMark .leftParen
    field .condition (nested expression)
    expectMark .comma
    field .trueBranch (nested expression)
    expectMark .comma
    field .falseBranch (nested expression)
    expectMark .rightParen

/-- A new object. `New With` makes one of a type without a name. -/
def newOf : Production B N :=
  node .newExpression do
    take
    unless ← atWord .kwWith do field .type (nested (type false))
    if ← atKind (.mark .leftParen) then child (nested (argumentsOf expression))
    if ← test fun env s => env.hasAhead s [.keyword .kwWith, .mark .leftBrace]
        || env.hasAhead s [.keyword .kwFrom, .mark .leftBrace] then take
    if ← atKind (.mark .leftBrace) then child (nested (initializersOf expression))

def primaryOf : Production B N := do
  match ← peek with
  | .literal .integer => literal .integerLiteral
  | .literal .floatingPoint => literal .floatingPointLiteral
  | .literal .string => literal .stringLiteral
  | .literal .character => literal .characterLiteral
  | .literal .date => literal .dateLiteral
  | .keyword .kwTrue | .keyword .kwFalse => literal .booleanLiteral
  | .keyword .kwNothing => wrap .literal (← tokenLeaf)
  | .keyword .kwNew => newOf expression
  | .keyword .kwIf =>
    if (← peekAhead 1) == .mark .leftParen then ternaryOf expression else fail .expression
  | .mark .leftParen => parenthesizedOf expression
  | .mark .leftBrace => initializersOf expression
  | .mark .dot => implicitMemberAccess
  | kind => if kind.isNameLike then ruleLeaf .identifier else fail .expression

/-- A primary and what follows it directly. -/
def postfixOf : Production B N := do
  let primary ← primaryOf expression
  let inner ← iterate (fun inner => do
    match ← peek with
    | .mark .dot => some <$> memberAccess inner
    | .mark .leftParen => some <$> callOrIndexOf expression inner
    | _ => return none) primary
  wrap .expression inner

end

/-! ## Operators -/

section

variable (operand : Int → Production B N)

/-- The test of a value for a type. -/
def typeTestOf : Production B N := do
  let test ← node .typeOfExpression do
    take
    field .operand (nested (operand Precedence.typeOf))
    unless (← atWord .kwIs) || (← atWord .kwIsNot) do
      fail (.oneOf [.keyword .kwIs, .keyword .kwIsNot])
    field .operator tokenLeaf
    field .type (nested (type true))
  wrap .expression test

/-- An operand of binary operators. -/
def unaryOf : Production B N := do
  match ← peek with
  | .keyword .kwNot | .keyword .kwAddressOf | .mark .minus | .mark .plus =>
    let operation ← node .unaryExpression do
      field .operator tokenLeaf
      field .operand (nested (operand Precedence.unary))
    wrap .expression operation
  | .keyword .kwTypeOf => typeTestOf operand
  | _ => postfixOf (operand Precedence.lowest)

/-- What has been read, extended by a binary operator of at least the given level and its right
operand, if there is one. -/
def extendOf (level : Int) (left : N) : Production B (Option N) := do
  match Precedence.ofKind? (← peek) with
  | none => return none
  | some precedence =>
    if precedence.level < level then return none
    let operation ← nodeFrom left .binaryExpression do
      attachIn .left left
      field .operator tokenLeaf
      field .right (nested (operand precedence.right))
    some <$> wrap .expression operation

end

/-- An expression whose outermost binary operators have at least the given level, with at most
`room` levels of expressions in it. -/
def expressionUpTo : (room : Nat) → (level : Int) → Production B N
  | 0, _ => tooDeep
  | room + 1, level => do
    checkDepth
    let left ← unaryOf (expressionUpTo room)
    iterate (extendOf (expressionUpTo room) level) left

/-- The longest expression at the cursor. -/
def expression : Production B N :=
  fun env s => expressionUpTo env.room Precedence.lowest env s

def arguments : Production B N := argumentsOf expression

def initializers : Production B N := initializersOf expression

/-! ## Targets of assignments -/

/-- What can be assigned to: a name, a member or an element. A parenthesis with an assignment behind
its closing one holds indices, any other the arguments of a call. -/
def leftHandSide : Production B N := do
  checkDepth
  node .leftHandSide do
    let first ← match ← peek with
      | .mark .dot => implicitMemberAccess
      | kind => if kind.isNameLike then ruleLeaf .identifier else fail .assignmentTarget
    let target ← iterate (fun inner => do
      match ← peek with
      | .mark .dot => some <$> memberAccess inner
      | .mark .leftParen =>
        if ← test fun env s => env.tokens.assignmentFollowsParens 0 s.cursor then
          some <$> elementAccessOf expression inner
        else some <$> callOrIndexOf expression inner
      | _ => return none) first
    unless ← isRule target [.identifier, .memberAccess, .elementAccess] do fail .assignmentTarget
    attach target

end Production

/-! ## Trees as values -/

namespace Parse

open Production

theorem callOrIndexOf_eq (expression : Parse Node) (target : Node) :
    callOrIndexOf expression target =
      if target.isRule [.identifier, .memberAccess] then invocationOf expression target
      else elementAccessOf expression target := rfl

theorem leftHandSide_eq : (leftHandSide : Parse Node) = (do
    checkDepth
    node .leftHandSide do
      let first ← match ← peek with
        | .mark .dot => implicitMemberAccess
        | kind => if kind.isNameLike then ruleLeaf .identifier else fail .assignmentTarget
      let target ← iterate (fun inner => do
        match ← peek with
        | .mark .dot => some <$> memberAccess inner
        | .mark .leftParen =>
          if ← test fun env s => env.tokens.assignmentFollowsParens 0 s.cursor then
            some <$> elementAccessOf expression inner
          else some <$> callOrIndexOf expression inner
        | _ => return none) first
      unless target.isRule [.identifier, .memberAccess, .elementAccess] do fail .assignmentTarget
      attach target) := rfl

end Parse

end VisualBasic
