import VisualBasic.Grammar.Production

/-!
# Blocks

A block is opened by a word and has to be closed by a line of its own: `End` and the word, or `Loop`
for `Do`, or `Next` for `For`. While a block is read it is on the stack of open blocks, and a line
that belongs to an open block ends the statements before it. So a block that lacks its closing line
ends where a block around it goes on.
-/

namespace VisualBasic

namespace Keyword

/-- Whether the block that the word opens is closed by `End` and the word. -/
def isClosedByEnd : Keyword → Bool
  | kwDo | kwFor => false
  | _ => true

/-- Whether the block that the word opens has declarations in it rather than statements. -/
def holdsMembers : Keyword → Bool
  | kwClass | kwModule | kwStructure | kwInterface => true
  | _ => false

end Keyword

namespace TokenStream

/-- Modifiers that show a declaration to come. `Static` does not, as it opens statements too. -/
def isMemberModifier : TokenKind → Bool
  | .keyword .kwStatic => false
  | k => k.isModifier

/-- Whether the line at an index begins a declaration: with attributes, with a modifier that cannot
be a name, or, behind any modifiers, with a word that opens declarations. -/
def startsMember (s : TokenStream) (i : Nat) : Bool :=
  let word := s.firstFrom (!isMemberModifier ·) i
  s.kindAt i == .mark .less || s.someIn (!·.isNameLike) i word || (s.kindAt word).opensMember

end TokenStream

namespace State

/-- Whether a block that the word opens is open. -/
def isOpen {B : Type} (s : State B) (opener : Keyword) : Bool := s.blocks.any (·.opener == opener)

/-- The word that opened the innermost block. -/
def innermost? {B : Type} (s : State B) : Option Keyword := s.blocks.head?.map OpenBlock.opener

/-- Whether the innermost block is a member of a type or a statement in one. -/
def inMemberBody {B : Type} (s : State B) : Bool :=
  match s.innermost? with
  | none | some .kwNamespace => false
  | some opener => !opener.holdsMembers && s.blocks.any (·.opener.holdsMembers)

end State

namespace Env

/-- Whether the next tokens are of the given kinds. -/
def hasAhead {B : Type} (env : Env) (s : State B) (kinds : List TokenKind) : Bool :=
  kinds.zipIdx.all fun (kind, i) => env.kindAhead s i == kind

/-- Whether the next tokens close the block that the word opens. -/
def atCloser {B : Type} (env : Env) (s : State B) (opener : Keyword) : Bool :=
  env.hasAhead s (opener.closer.map .keyword)

/-- Whether the line at the cursor ends the statements before it: it closes an open block, or begins
another part of one, or begins the next member of the type around. -/
def atBoundary {B : Type} (env : Env) (s : State B) : Bool :=
  match env.kind s with
  | .endOfFile => true
  | .keyword .kwEnd =>
    match env.kindAhead s 1 with
    | .keyword opener => opener.isClosedByEnd && s.isOpen opener
    | _ => false
  | .keyword .kwLoop => s.isOpen .kwDo
  | .keyword .kwNext => s.isOpen .kwFor
  | .keyword .kwElse | .keyword .kwElseIf => s.isOpen .kwIf
  | .keyword .kwCase => s.isOpen .kwSelect
  | .keyword .kwCatch | .keyword .kwFinally => s.isOpen .kwTry
  | .keyword .kwGet | .keyword .kwSet => s.isOpen .kwProperty
  | .keyword .kwAddHandler | .keyword .kwRemoveHandler | .keyword .kwRaiseEvent =>
    s.isOpen .kwEvent
      && (env.kindAhead s 1 == .mark .leftParen || (env.kindAhead s 1).isTerminator)
  | _ => s.inMemberBody && env.tokens.startsMember s.cursor

end Env

namespace Production

variable {B N : Type} [Builder B N]

/-- Whether the next tokens are of the given kinds. -/
def ahead (kinds : List TokenKind) : Production B Bool := test fun env s => env.hasAhead s kinds

def atBoundary : Production B Bool := test Env.atBoundary

/-- Opens a block whose opening is on the given line. -/
def openBlockAt (opener : Keyword) (line : Nat) : Production B Unit :=
  fun _ s => .ok () { s with blocks := ⟨opener, line⟩ :: s.blocks }

/-- Opens a block whose opening is on the line of the cursor. -/
def openBlock (opener : Keyword) : Production B Unit := do openBlockAt opener (← currentLine)

/-- Notes that the innermost block lacks its closing line: the node under construction is
partial. -/
def missCloser (opener : Keyword) : Production B Unit := fun env s =>
  let token := env.tokens.get s.cursor
  let line := (s.blocks.head?.map OpenBlock.line).getD 0
  let diagnostic : Diagnostic :=
    ⟨.unclosed opener line, ⟨token.span.start, token.span.start⟩, token.point⟩
  .ok () { s with
    isPartial := true, blocks := s.blocks.tail, diagnostics := diagnostic :: s.diagnostics }

/-- Closes the innermost block and tells whether its closer is there, which is then attached. -/
def closeBlock (opener : Keyword) : Production B Bool := do
  if ← test fun env s => env.atCloser s opener then
    modify fun s => { s with blocks := s.blocks.tail }
    opener.closer.forM fun _ => take
    return true
  missCloser opener
  return false

/-- Closes the innermost block and ends its closing line. -/
def finishBlock (opener : Keyword) : Production B Unit := do
  if ← closeBlock opener then recovering endStatement

/-- One more item, unless the line ends them. -/
def bodyItem (item : Production B Unit) : Production B Bool := do
  if ← atBoundary then return false
  item
  return true

/-- Items up to the line that ends them. -/
def body (item : Production B Unit) : Production B Unit := repeatWhile (bodyItem item)

end Production

end VisualBasic
