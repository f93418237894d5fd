import VisualBasic.Syntax.Field
import VisualBasic.Syntax.Rule

/-!
# Patterns

A pattern describes a node of a syntax tree: its rule, some of its children in their order, and the
names under which the nodes found are captured. A query is a list of patterns whose captures share
one list of names, in which a capture is referred to by its number.
-/

namespace VisualBasic

/-- What a pattern asks of the kind of a node. -/
inductive KindTest where
  /-- Any named node will do. -/
  | any
  | rule (r : Rule)
  deriving DecidableEq, Repr, Inhabited

/-- A pattern: the role that the node must play, if it says one, its kind, the numbers of the
captures that take the node, and the patterns of some of its children, from left to right. -/
inductive Pattern where
  | mk (field : Option Field) (kind : KindTest) (captures : List Nat) (children : List Pattern)
  deriving Inhabited

namespace Pattern

def field : Pattern → Option Field
  | mk field _ _ _ => field

def kind : Pattern → KindTest
  | mk _ kind _ _ => kind

def captures : Pattern → List Nat
  | mk _ _ captures _ => captures

def children : Pattern → List Pattern
  | mk _ _ _ children => children

/-- The same pattern, in the role `f` of its parent. -/
def inField (f : Field) : Pattern → Pattern
  | mk _ kind captures children => mk (some f) kind captures children

end Pattern

/-- Patterns, tried in their order at each node. -/
structure Query where
  patterns : List Pattern
  captureNames : List String
  deriving Inhabited

namespace Query

/-- The number of a capture. -/
def captureNumber? (q : Query) (name : String) : Option Nat := q.captureNames.idxOf? name

/-- The name of a capture. -/
def captureName (q : Query) (number : Nat) : String := q.captureNames.getD number ""

end Query

/-! ## What is wrong with a query -/

/-- What can be wrong with the form of a query. -/
inductive QueryProblem where
  | empty
  | expectedPattern
  | expectedKind
  | unexpectedCharacter
  | unclosed
  | expectedColon
  | expectedCaptureName
  deriving DecidableEq, Repr, Inhabited

def QueryProblem.message : QueryProblem → String
  | empty => "empty query"
  | expectedPattern => "expected '(' or '_'"
  | expectedKind => "expected node kind"
  | unexpectedCharacter => "unexpected character in pattern"
  | unclosed => "unclosed '('"
  | expectedColon => "expected ':' after field name"
  | expectedCaptureName => "expected capture name after '@'"

/-- What can be wrong with a query, and at which offset of its text. -/
inductive QueryError where
  | malformed (offset : Nat) (problem : QueryProblem)
  | unknownRule (offset : Nat) (name : String)
  | unknownField (offset : Nat) (name : String)
  /-- The query has no capture of this name. -/
  | unknownCapture (name : String)
  deriving DecidableEq, Repr

def QueryError.message : QueryError → String
  | malformed offset problem => s!"query syntax error at offset {offset}: {problem.message}"
  | unknownRule offset name => s!"unknown node kind '{name}' at offset {offset}"
  | unknownField offset name => s!"unknown field '{name}' at offset {offset}"
  | unknownCapture name => s!"unknown capture '@{name}'"

end VisualBasic
