import VisualBasic.Grammar.Block

/-!
# Names and types

Dotted names, and types: a built-in type or a dotted name, perhaps with type arguments, perhaps with
array ranks. Types nest in their arguments; the recursion is on the levels that are left.
-/

namespace VisualBasic.Production

variable {B N : Type} [Builder B N]

/-- A name and further names behind dots. -/
def dottedName : Production B N :=
  node .namespaceName do
    child identifier
    repeatWhile do
      if ← acceptMark .dot then
        child memberName
        return true
      return false

/-- Whether an array rank stands here: a parenthesis with nothing but commas in it. -/
def atRank : Production B Bool := test fun env s =>
  env.hasAhead s [.mark .leftParen, .mark .comma] || env.hasAhead s
    [.mark .leftParen, .mark .rightParen]

def arrayRank : Production B N :=
  node .arrayRankSpecifier do
    expectMark .leftParen
    repeatWhile (acceptMark .comma)
    expectEnd .rightParen

/-- Whether type arguments or parameters stand here rather than anything else in parentheses. -/
def atTypeArguments : Production B Bool := ahead [.mark .leftParen, .keyword .kwOf]

/-- Type arguments; `type` is the production of a type. -/
def typeArgumentsOf (type : Production B N) : Production B N :=
  node .typeArgumentList do
    expectMark .leftParen
    expectWord .kwOf
    commaSeparated (child (nested type))
    expectEnd .rightParen

/-- A type with at most `room` levels of arguments. A rank is taken only if ranks are allowed. -/
def typeUpTo : (room : Nat) → (ranks : Bool) → Production B N
  | 0, _ => tooDeep
  | room + 1, ranks => do
    checkDepth
    node .type do
      match ← peek with
      | .keyword word =>
        if word.isPrimitiveType && (← peekAhead 1) != .mark .dot
            then child (ruleLeaf .primitiveType)
        else child dottedName
      | _ => child dottedName
      if ← atTypeArguments then child (nested (typeArgumentsOf (typeUpTo room true)))
      -- An array of arrays repeats the rank.
      repeatWhile do
        if ranks && (← atRank) then
          child arrayRank
          return true
        return false

/-- A type. Behind `New` a parenthesis opens the arguments of a call, so no ranks are allowed
there. -/
def type (ranks : Bool) : Production B N := fun env s => typeUpTo env.room ranks env s

def typeArguments : Production B N := typeArgumentsOf (type true)

end VisualBasic.Production
