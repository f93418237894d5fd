import VisualBasic.Grammar.Statement

/-!
# Declarations

The members of types, the types, and what a file holds. Where a declaration may or may not have a
body, the lines ahead decide. Every item of a body that does not parse becomes an error region.

Main results:

* `NeverFails.sourceFile` — every file has a tree.
-/

namespace VisualBasic

/-! ## Looking ahead for bodies -/

namespace TokenStream

/-- What may be closed around a member: if such a block ends, so does the member. -/
def closesType : TokenKind → Bool
  | .keyword .kwClass | .keyword .kwModule | .keyword .kwStructure | .keyword .kwInterface
  | .keyword .kwNamespace => true
  | _ => false

/-- Whether the body of a routine follows a line that ends at an index: its own closing line comes
before the next member and before the end of the type around, or there are statements before either,
or the text ends first. The body then lacks its closing line. -/
def bodyFollows (s : TokenStream) (routine : Keyword) (statementSeen : Bool) (i : Nat) : Bool :=
  if i < s.tokens.size then
    let atEnd := s.kindAt (i + 1) == .keyword .kwEnd
    if atEnd && s.kindAt (i + 2) == .keyword routine then true
    else if atEnd && closesType (s.kindAt (i + 2)) then statementSeen
    else if !atEnd && s.startsMember (i + 1) then statementSeen
    else
      bodyFollows s routine (statementSeen || !(s.kindAt (i + 1)).endsLine) (s.lineEnd (i + 1))
  else true
termination_by s.tokens.size - i
decreasing_by
  have := s.le_lineEnd (i + 1)
  omega

/-- The first token of the next line that is not blank. -/
def nextLine (s : TokenStream) (i : Nat) : Nat := s.firstFrom (!·.isTerminator) (s.lineEnd i)

def isAccessor : TokenKind → Bool
  | .keyword .kwGet | .keyword .kwSet => true
  | _ => false

def isEventAccessor : TokenKind → Bool
  | .keyword .kwAddHandler | .keyword .kwRemoveHandler | .keyword .kwRaiseEvent => true
  | _ => false

end TokenStream

namespace Env

/-- Whether the routine at the cursor has a body. -/
def routineHasBody {B : Type} (env : Env) (s : State B) : Bool :=
  let word := env.tokens.behindPrefix s.cursor
  let bodiless := s.innermost? == some .kwInterface
    || env.tokens.someIn (· == .keyword .kwMustOverride) s.cursor word
  match env.tokens.kindAt word with
  | .keyword .kwSub => !bodiless && env.tokens.bodyFollows .kwSub false (env.tokens.lineEnd word)
  | .keyword .kwFunction =>
    !bodiless && env.tokens.bodyFollows .kwFunction false (env.tokens.lineEnd word)
  | _ => false

/-- Whether the property at the cursor has accessors: the next line holds one, or closes the
property. -/
def propertyHasAccessors {B : Type} (env : Env) (s : State B) : Bool :=
  let start := env.tokens.nextLine s.cursor
  if env.tokens.kindAt start == .keyword .kwEnd then
    env.tokens.kindAt (start + 1) == .keyword .kwProperty
  else TokenStream.isAccessor (env.tokens.kindAt (env.tokens.behindPrefix start))

/-- Whether the event at the cursor has accessors: the next line opens one, or closes the event. -/
def eventHasAccessors {B : Type} (env : Env) (s : State B) : Bool :=
  let start := env.tokens.nextLine s.cursor
  if env.tokens.kindAt start == .keyword .kwEnd then
    env.tokens.kindAt (start + 1) == .keyword .kwEvent
  else TokenStream.isEventAccessor (env.tokens.kindAt start)

end Env

namespace Production

variable {B N : Type} [Builder B N]

/-- The kind of the token behind the attributes and modifiers at the cursor. -/
def peekBehindPrefix : Production B TokenKind :=
  fun env s => .ok (env.tokens.kindAt (env.tokens.behindPrefix s.cursor)) s

/-- A blank line between items. -/
def blankLine : Production B N := ruleLeaf .blankLine

/-! ## Routines -/

/-- Type parameters, parameters and, for functions, the type of the result. -/
def signature (isFunction : Bool) : Production B Unit := do
  if ← atTypeArguments then child (nested typeParameters)
  optionalParameters
  if isFunction then
    if ← acceptWord .kwAs then
      repeatWhile do
        if ← atKind (.mark .less) then
          child (nested attributeBlock)
          return true
        return false
      field .returnType (nested (type true))

/-- The line that opens a routine; gives the word that does. A constructor is called `New`. -/
def routineHeader (isConstructor : Bool) : Production B Keyword := do
  checkDepth
  declarationPrefix
  let word ← match ← peek with
    | .keyword .kwSub => pure Keyword.kwSub
    | .keyword .kwFunction => pure Keyword.kwFunction
    | _ => fail (.oneOf [.keyword .kwSub, .keyword .kwFunction])
  take
  if isConstructor then expectWord .kwNew else field .name identifier
  signature (word == .kwFunction)
  memberClauses
  endStatement
  return word

/-- A routine with its statements and its closing line. -/
def routineWithBody (r : Rule) : Production B N :=
  node r do
    let line ← currentLine
    let word ← routineHeader (r == .constructorDeclaration)
    openBlockAt word line
    statements statement
    finishBlock word

/-- A routine without a body. -/
def routineWithoutBody (r : Rule) : Production B N :=
  node r do
    let _ ← routineHeader (r == .constructorDeclaration)

def routine (a : Ambiguity) (r : Rule) : Production B N :=
  resolve a
    [{ viable := Env.routineHasBody, production := routineWithBody r },
     { production := routineWithoutBody r }]

def methodDeclaration : Production B N := routine .method .methodDeclaration

def constructorDeclaration : Production B N := routine .constructor .constructorDeclaration

/-! ## Properties -/

def propertyHeader : Production B Unit := do
  checkDepth
  declarationPrefix
  expectWord .kwProperty
  field .name identifier
  optionalParameters
  optionalAsClause

/-- One of the two accessors of a property, with its statements. -/
def accessor : Production B N := do
  let (r, word) := if (← peekBehindPrefix) == .keyword .kwGet then (Rule.getAccessor, Keyword.kwGet)
    else (Rule.setAccessor, Keyword.kwSet)
  node r do
    openBlock word
    recovering do
      declarationPrefix
      expectWord word
      if word == .kwSet then optionalParameters
      endStatement
    statements statement
    finishBlock word

/-- One more accessor of a property, unless the line ends them; a line of another kind is an
error. -/
def propertyItem : Production B Bool := do
  if (← peek).isTerminator then
    child blankLine
    return true
  if TokenStream.isAccessor (← peekBehindPrefix) then
    child (nested accessor)
    return true
  if ← atBoundary then return false
  child (unexpected (.oneOf [.keyword .kwGet, .keyword .kwSet]))
  return true

def propertyWithAccessors : Production B N :=
  node .propertyDeclaration do
    let line ← currentLine
    propertyHeader
    memberClauses
    endStatement
    openBlockAt .kwProperty line
    repeatWhile propertyItem
    finishBlock .kwProperty

def propertyWithoutAccessors : Production B N :=
  line .propertyDeclaration do
    propertyHeader
    optionalValue .initializer
    memberClauses

def propertyDeclaration : Production B N :=
  resolve .property
    [{ viable := Env.propertyHasAccessors, production := propertyWithAccessors },
     { production := propertyWithoutAccessors }]

/-! ## Events -/

def eventHeader : Production B Unit := do
  checkDepth
  declarationPrefix
  expectWord .kwEvent
  field .name identifier
  if ← atKind (.mark .leftParen) then field .parameters (nested parameters)
  else optionalAsClause
  memberClauses
  endStatement

/-- One of the accessors of an event, with its statements. -/
def eventAccessor (r : Rule) (word : Keyword) : Production B N :=
  node r do
    openBlock word
    take
    recovering do
      optionalParameters
      endStatement
    statements statement
    finishBlock word

/-- One more accessor of an event, unless the line ends them; a line of another kind is an error. -/
def eventItem : Production B Bool := do
  match ← peek with
  | .newline | .mark .colon =>
    child blankLine
    return true
  | .keyword .kwAddHandler =>
    child (nested (eventAccessor .addHandlerBlock .kwAddHandler))
    return true
  | .keyword .kwRemoveHandler =>
    child (nested (eventAccessor .removeHandlerBlock .kwRemoveHandler))
    return true
  | .keyword .kwRaiseEvent =>
    child (nested (eventAccessor .raiseEventBlock .kwRaiseEvent))
    return true
  | _ =>
    if ← atBoundary then return false
    child (unexpected .eventAccessor)
    return true

def eventWithAccessors : Production B N :=
  node .eventDeclaration do
    let line ← currentLine
    eventHeader
    openBlockAt .kwEvent line
    repeatWhile eventItem
    finishBlock .kwEvent

def eventWithoutAccessors : Production B N := node .eventDeclaration eventHeader

def eventDeclaration : Production B N :=
  resolve .event
    [{ viable := Env.eventHasAccessors, production := eventWithAccessors },
     { production := eventWithoutAccessors }]

/-! ## Fields, enumerations and delegates -/

def fieldDeclaration : Production B N :=
  line .fieldDeclaration do
    declarationPrefix
    let _ ← acceptWord .kwDim
    commaSeparated (child (nested (node .variableDeclarator declarator)))

def enumMember : Production B N :=
  line .enumMember do
    declarationPrefix
    field .name identifier
    optionalValue .value

/-- One more member of an enumeration, or a blank line between the members. -/
def enumItem : Production B Unit := do
  if (← peek).isTerminator then child blankLine else child (nested (orRecover enumMember))

def enumBlock : Production B N :=
  node .enumBlock do
    declarationPrefix
    openBlock .kwEnum
    expectWord .kwEnum
    field .name identifier
    optionalAsClause
    endStatement
    body enumItem
    finishBlock .kwEnum

def delegateDeclaration : Production B N :=
  line .delegateDeclaration do
    declarationPrefix
    expectWord .kwDelegate
    let isFunction ← atWord .kwFunction
    unless isFunction || (← atWord .kwSub) do
      fail (.oneOf [.keyword .kwSub, .keyword .kwFunction])
    take
    field .name identifier
    signature isFunction

/-! ## Types and their members -/

/-- Whether a line with a name and no modifier declares a field: by what follows the name. -/
def followsFieldName : TokenKind → Bool
  | .keyword .kwAs | .mark .equal | .mark .leftParen | .mark .comma => true
  | _ => false

section

variable (typeDeclaration : Production B N)

/-- The production of the member at the cursor, found by the word behind its attributes and
modifiers, if there is one. -/
def memberProduction? (env : Env) (s : State B) : Option (Production B N) :=
  let word := env.tokens.behindPrefix s.cursor
  let following := env.tokens.kindAt (word + 1)
  match env.tokens.kindAt word with
  | .keyword .kwConst => some constDeclaration
  | .keyword .kwSub =>
    some (if following == .keyword .kwNew then constructorDeclaration else methodDeclaration)
  | .keyword .kwFunction => some methodDeclaration
  | .keyword .kwProperty => some propertyDeclaration
  | .keyword .kwEvent => some eventDeclaration
  | .keyword .kwClass | .keyword .kwModule | .keyword .kwStructure | .keyword .kwInterface
  | .keyword .kwEnum | .keyword .kwDelegate => some typeDeclaration
  | .keyword .kwDim => some fieldDeclaration
  | kind =>
    if kind.isNameLike && (s.cursor < word || followsFieldName following) then some fieldDeclaration
    else none

/-- A member of a type. -/
def member : Production B N := do
  if (← peek).isTerminator then blankLine
  else fun env s =>
    match memberProduction? typeDeclaration env s with
    | some production => orRecover production env s
    | none => unexpected .memberDeclaration env s

/-- One more clause of a type, or a blank line between the clauses. -/
def typeHeadItem : Production B Bool := do
  match ← peek with
  | .newline | .mark .colon =>
    child blankLine
    return true
  | .keyword .kwInherits | .keyword .kwImplements =>
    recovering do
      inheritanceClauses
      endStatement
    return true
  | _ => return false

/-- A type with members: its opening line, clauses on the first lines, its members and its closing
line. -/
def typeBlock (r : Rule) (word : Keyword) : Production B N :=
  node r do
    declarationPrefix
    openBlock word
    expectWord word
    field .name identifier
    if ← atKind (.mark .leftParen) then child (nested typeParameters)
    inheritanceClauses
    endStatement
    repeatWhile typeHeadItem
    body (child (nested (member typeDeclaration)))
    finishBlock word

/-- The type that the word behind the attributes and modifiers announces. -/
def typeDefinition : Production B N := do
  match ← peekBehindPrefix with
  | .keyword .kwClass => typeBlock typeDeclaration .classBlock .kwClass
  | .keyword .kwModule => typeBlock typeDeclaration .moduleBlock .kwModule
  | .keyword .kwStructure => typeBlock typeDeclaration .structureBlock .kwStructure
  | .keyword .kwInterface => typeBlock typeDeclaration .interfaceBlock .kwInterface
  | .keyword .kwEnum => enumBlock
  | .keyword .kwDelegate => delegateDeclaration
  | _ => fail .typeDeclaration

end

/-- A type with at most `room` levels of types in it. -/
def typeDeclarationUpTo : (room : Nat) → Production B N
  | 0 => tooDeep
  | room + 1 => do
    checkDepth
    wrap .typeDeclaration (← typeDefinition (typeDeclarationUpTo room))

def typeDeclaration : Production B N := fun env s => typeDeclarationUpTo env.room env s

/-! ## Files -/

/-- One of the settings of a file. -/
def optionSetting : Production B Unit := do
  match ← peek with
  | .keyword .kwExplicit | .keyword .kwStrict | .keyword .kwInfer =>
    take
    if (← atWord .kwOn) || (← atWord .kwOff) then take
  | .keyword .kwCompare =>
    take
    if (← atWord .kwBinary) || (← atWord .kwText) then take
    else fail (.oneOf [.keyword .kwBinary, .keyword .kwText])
  | _ =>
    fail (.oneOf [.keyword .kwExplicit, .keyword .kwStrict, .keyword .kwInfer, .keyword .kwCompare])

/-- Lines of settings in a row. -/
def optionStatements : Production B N :=
  node .optionStatements do
    repeatWhile do
      expectWord .kwOption
      optionSetting
      endStatement
      atWord .kwOption

/-- Namespaces whose names are used, perhaps under another name. -/
def importsStatement : Production B N :=
  line .importsStatement do
    take
    commaSeparated do
      if (← peek).isNameLike && (← peekAhead 1) == .mark .equal then
        child (ruleLeaf .identifier)
        take
      field .«namespace» dottedName

/-- Attributes of the assembly or the module, on a line of their own. -/
def fileAttribute : Production B N := do
  let attributes ← nested attributeBlock
  endStatement
  return attributes

def atFileAttribute : Production B Bool := test fun env s =>
  env.hasAhead s [.mark .less, .identifier, .mark .colon]
    || env.hasAhead s [.mark .less, .keyword .kwModule, .mark .colon]

/-- An item of a file or a namespace; `namespaceBlock` is the production of a namespace. -/
def fileItemOf (namespaceBlock : Production B N) : Production B N := do
  match ← peek with
  | .newline | .mark .colon => blankLine
  | .keyword .kwOption => orRecover optionStatements
  | .keyword .kwImports => orRecover importsStatement
  | .keyword .kwNamespace => orRecover namespaceBlock
  | _ => if ← atFileAttribute then orRecover fileAttribute else orRecover typeDeclaration

/-- A namespace with at most `room` levels of namespaces in it. -/
def namespaceBlockUpTo : (room : Nat) → Production B N
  | 0 => tooDeep
  | room + 1 => do
    checkDepth
    node .namespaceBlock do
      openBlock .kwNamespace
      take
      field .name dottedName
      endStatement
      body (child (nested (fileItemOf (namespaceBlockUpTo room))))
      finishBlock .kwNamespace

def fileItem : Production B N :=
  fun env s => fileItemOf (namespaceBlockUpTo env.room) env s

/-- One more item of a file, unless the text ends. -/
def sourceFileItem : Production B Bool := do
  if ← atKind .endOfFile then return false
  child fileItem
  return true

/-- The items of a file, to the end of the text. -/
def sourceFile : Production B N := node .sourceFile (repeatWhile sourceFileItem)

/-! ## Files never fail -/

theorem NeverFails.leaf (kind : NodeKind) : NeverFails (leaf kind : Production B N) :=
  fun _ _ => ⟨_, _, rfl⟩

theorem NeverFails.test {B : Type} (p : Env → State B → Bool) : NeverFails (test p) :=
  fun _ _ => ⟨_, _, rfl⟩

theorem NeverFails.fileItemOf (namespaceBlock : Production B N) :
    NeverFails (fileItemOf namespaceBlock) := by
  refine NeverFails.bind (fun _ _ => ⟨_, _, rfl⟩) fun kind => ?_
  split
  case h_6 =>
    refine (NeverFails.test _).bind fun atFileAttribute => ?_
    split <;> exact NeverFails.orRecover _
  case h_1 | h_2 => exact NeverFails.leaf _
  all_goals exact NeverFails.orRecover _

theorem NeverFails.sourceFile : NeverFails (sourceFile : Production B N) := by
  refine NeverFails.node (NeverFails.repeatWhile ?_)
  refine (NeverFails.test _).bind fun atEnd => ?_
  split
  · exact NeverFails.pure _
  · exact (NeverFails.child fun env s => NeverFails.fileItemOf _ env s).bind
      fun _ => NeverFails.pure _

end Production

end VisualBasic
