import VisualBasic.Grammar.Expression

/-!
# Clauses

The parts that declarations and statements share: types of variables, array bounds, type parameters,
parameters, attributes and modifiers, and the clauses about inheritance and events.
-/

namespace VisualBasic

namespace TokenStream

/-- The first index behind attributes and modifiers, seen from an index among them. Within
attributes `parens` tells how many parentheses are open; attributes end at a `>` outside of all
parentheses, and the search ends with a line that ends before. -/
def prefixEnd (s : TokenStream) (parens : Option Nat) (i : Nat) : Nat :=
  if i < s.tokens.size then
    match parens, s.kindAt i with
    | none, .mark .less => prefixEnd s (some 0) (i + 1)
    | none, _ => s.firstFrom (!·.isModifier) i
    | some n, .mark .leftParen => prefixEnd s (some (n + 1)) (i + 1)
    | some n, .mark .rightParen => prefixEnd s (some (n - 1)) (i + 1)
    | some 0, .mark .greater =>
      if s.kindAt (i + 1) == .newline then prefixEnd s none (i + 2) else prefixEnd s none (i + 1)
    | some _, .newline | some _, .endOfFile => i
    | some n, _ => prefixEnd s (some n) (i + 1)
  else i
termination_by s.tokens.size - i

/-- The first index from `i` on behind the attributes and the modifiers of a declaration. -/
def behindPrefix (s : TokenStream) (i : Nat) : Nat := s.prefixEnd none i

end TokenStream

namespace Production

variable {B N : Type} [Builder B N]

/-! ## Variables -/

/-- Bounds of an array in parentheses. -/
def arrayBounds : Production B N :=
  node .reDimClause do
    expectMark .leftParen
    commaSeparated (field .upperBound (nested expression))
    expectEnd .rightParen

/-- What makes a variable an array: a rank, or bounds. -/
def arraySuffix : Production B N := do
  if ← atRank then arrayRank else arrayBounds

/-- The type of a variable, or the new object that it holds. -/
def asClause : Production B N := do
  checkDepth
  node .asClause do
    expectWord .kwAs
    if ← acceptWord .kwNew then
      field .type (nested (type false))
      if ← atKind (.mark .leftParen) then child (nested arguments)
      if (← atWord .kwWith) || (← atWord .kwFrom) then
        take
        child (nested initializers)
    else field .type (nested (type true))

/-- The type of a variable, if it is given. -/
def optionalAsClause : Production B Unit := do
  if ← atWord .kwAs then child (nested asClause)

/-- A value behind an equals sign, if there is one. -/
def optionalValue (f : Field) : Production B Unit := do
  if ← acceptMark .equal then field f (nested expression)

/-- A name, perhaps as an array, perhaps with a type and a first value. -/
def declarator : Production B Unit := do
  field .name identifier
  if ← atKind (.mark .leftParen) then child (nested arraySuffix)
  optionalAsClause
  optionalValue .initializer

/-! ## Type parameters -/

/-- What a type parameter must be: a class, a structure, something that can be made, or a type. -/
def typeConstraint : Production B N :=
  node .typeConstraint do
    match ← peek with
    | .keyword .kwNew | .keyword .kwClass | .keyword .kwStructure => take
    | _ => child (nested (type true))

def typeParameter : Production B N :=
  node .typeParameter do
    field .name identifier
    if ← acceptWord .kwAs then
      if ← acceptMark .leftBrace then
        commaSeparated (field .constraint (nested typeConstraint))
        expectEnd .rightBrace
      else field .constraint (nested typeConstraint)

def typeParameters : Production B N := do
  checkDepth
  node .typeParameters do
    expectMark .leftParen
    expectWord .kwOf
    commaSeparated (child (nested typeParameter))
    expectEnd .rightParen

/-! ## Attributes and modifiers -/

/-- An attribute, perhaps of the assembly or the module, perhaps with arguments. -/
def attributeItem : Production B N :=
  node .«attribute» do
    if ← test fun env s => env.hasAhead s [.identifier, .mark .colon]
        || env.hasAhead s [.keyword .kwModule, .mark .colon] then
      field .target (ruleLeaf .identifier)
      take
    field .name (do if (← peekAhead 1) == .mark .dot then dottedName else identifier)
    if ← atKind (.mark .leftParen) then child (nested arguments)

/-- Attributes in angle brackets. -/
def attributeBlock : Production B N := do
  checkDepth
  node .attributeBlock do
    expectMark .less
    commaSeparated (child (nested attributeItem))
    expectEnd .greater

/-- All modifiers in a row. -/
def modifiers : Production B N :=
  node .modifiers do
    repeatWhile do
      if (← peek).isModifier then
        child (ruleLeaf .modifier)
        return true
      return false

/-- What may stand before a declaration: attributes, each perhaps on a line of its own, and
modifiers. -/
def declarationPrefix : Production B Unit := do
  repeatWhile do
    if ← atKind (.mark .less) then
      field .attributes (nested attributeBlock)
      if ← atKind .newline then skip
      return true
    return false
  if (← peek).isModifier then field .modifiers modifiers

/-! ## Parameters -/

def isPassing : TokenKind → Bool
  | .keyword .kwByVal | .keyword .kwByRef | .keyword .kwOptional | .keyword .kwParamArray => true
  | _ => false

/-- A parameter: how it is passed, its name, perhaps its type and the value it has when left out. -/
def parameter : Production B N :=
  node .parameter do
    if ← atKind (.mark .less) then field .attributes (nested attributeBlock)
    repeatWhile do
      if isPassing (← peek) then
        take
        return true
      return false
    field .name identifier
    if ← atRank then child arrayRank
    optionalAsClause
    optionalValue .defaultValue

def parameters : Production B N := do
  checkDepth
  node .parameterList do
    expectMark .leftParen
    unless ← atKind (.mark .rightParen) do commaSeparated (child (nested parameter))
    expectEnd .rightParen

/-- Parameters, if they are given. -/
def optionalParameters : Production B Unit := do
  if ← atKind (.mark .leftParen) then field .parameters (nested parameters)

/-! ## Inheritance and events -/

/-- A word and the types behind it. -/
def typeListClause (r : Rule) (word : Keyword) : Production B N :=
  node r do
    expectWord word
    commaSeparated (child (nested (type false)))

def inheritsClause : Production B N := typeListClause .inheritsClause .kwInherits

def implementsClause : Production B N := typeListClause .implementsClause .kwImplements

/-- The events that a method handles. -/
def handlesClause : Production B N :=
  node .handlesClause do
    expectWord .kwHandles
    commaSeparated (child dottedName)

/-- What a type inherits and implements. -/
def inheritanceClauses : Production B Unit :=
  repeatWhile do
    match ← peek with
    | .keyword .kwInherits =>
      field .inherits inheritsClause
      return true
    | .keyword .kwImplements =>
      field .implements implementsClause
      return true
    | _ => return false

/-- What a member handles and implements. -/
def memberClauses : Production B Unit :=
  repeatWhile do
    match ← peek with
    | .keyword .kwHandles =>
      field .handles handlesClause
      return true
    | .keyword .kwImplements =>
      field .implements implementsClause
      return true
    | _ => return false

end Production

end VisualBasic
