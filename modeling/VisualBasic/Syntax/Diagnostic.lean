import VisualBasic.Syntax.Ambiguity
import VisualBasic.Token.Stream

/-!
# Diagnostics

What is wrong with a source, where, and how it is said. A diagnostic holds its cause; the wording is
in `Cause.message` alone.

Main results:

* `Failure.furthest_index` — of two failures the one that got further is kept.
-/

namespace VisualBasic

/-! ## Expectations -/

/-- What the grammar would have taken at a place. -/
inductive Expected where
  /-- One of the given kinds of tokens. -/
  | oneOf (kinds : List TokenKind)
  | identifier
  | memberName
  | expression
  | assignmentTarget
  | assignmentOperator
  | relationalOperator
  | endOfStatement
  | blockKindAfterExit
  | typeDeclaration
  | memberDeclaration
  | eventAccessor
  /-- Some rule of an ambiguity none of whose rules can apply. -/
  | ruleOf (a : Ambiguity)
  deriving DecidableEq, Repr

namespace Expected

/-- The spellings of the kinds in single quotes, with `or` before the last. -/
def listText : List TokenKind → String
  | [] => ""
  | [k] => s!"'{k.name}'"
  | [j, k] => s!"'{j.name}' or '{k.name}'"
  | k :: rest => s!"'{k.name}', " ++ listText rest

def toText : Expected → String
  | oneOf kinds => listText kinds
  | identifier => "identifier"
  | memberName => "member name"
  | expression => "expression"
  | assignmentTarget => "assignment target"
  | assignmentOperator => "assignment operator"
  | relationalOperator => "relational operator"
  | endOfStatement => "end of statement"
  | blockKindAfterExit => "block kind after 'Exit'"
  | typeDeclaration => "type declaration"
  | memberDeclaration => "member declaration"
  | eventAccessor => "event accessor"
  | ruleOf a => a.name

end Expected

/-! ## Failures -/

/-- Why a rule does not apply. -/
inductive Mismatch where
  | unexpected (expected : Expected)
  | tooDeep (depth limit : Nat)
  deriving DecidableEq, Repr

/-- A rule that does not apply, and the token at which this shows. -/
structure Failure where
  index : Nat
  mismatch : Mismatch
  deriving DecidableEq, Repr

/-- The failure that got further into the tokens; of two that got equally far, the first. -/
def Failure.furthest (a b : Failure) : Failure := if a.index < b.index then b else a

theorem Failure.furthest_index (a b : Failure) :
    (a.furthest b).index = max a.index b.index := by
  unfold furthest
  split <;> omega

/-! ## Diagnostics -/

inductive Cause where
  | lexical (fault : Fault)
  | unexpected (expected : Expected) (found : TokenKind) (text : List Char)
  | tooDeep (depth limit : Nat)
  /-- A block without its closing line: the word that opens the block, and the line of its
  opening. -/
  | unclosed (opener : Keyword) (line : Nat)
  deriving DecidableEq, Repr

/-- The words that close the block which a word opens. -/
def Keyword.closer : Keyword → List Keyword
  | .kwDo => [.kwLoop]
  | .kwFor => [.kwNext]
  | opener => [.kwEnd, opener]

namespace Cause

/-- How the token that was found instead is called. -/
def foundText (kind : TokenKind) (text : List Char) : String :=
  match kind with
  | .endOfFile => "end of file"
  | .newline => "newline"
  | .identifier => s!"identifier '{String.ofList text}'"
  | .keyword word => s!"keyword '{word.spelling}'"
  | .invalid => s!"invalid input '{String.ofList text}'"
  | .literal literal => s!"{literal.name} {String.ofList text}"
  | kind => s!"'{kind.name}'"

def message : Cause → String
  | lexical fault => fault.message
  | unexpected expected found text =>
    s!"Expected {expected.toText}, found {foundText found text}"
  | tooDeep depth limit =>
    s!"Parsing nesting too deep: {depth} levels (max {limit}). Consider simplifying."
  | unclosed opener line =>
    let closer := " ".intercalate (opener.closer.map Keyword.spelling)
    s!"Expected '{closer}' to close '{opener.spelling}' opened at line {line}"

end Cause

/-- The classes of diagnostics. -/
inductive DiagnosticKind where
  | lexical | grammatical | structural
  deriving DecidableEq, Repr, Inhabited

namespace DiagnosticKind

def name : DiagnosticKind → String
  | lexical => "lexical error"
  | grammatical => "syntax error"
  | structural => "structural mismatch"

end DiagnosticKind

structure Diagnostic where
  cause : Cause
  span : Span
  point : Point
  deriving DecidableEq, Repr

namespace Diagnostic

def kind (d : Diagnostic) : DiagnosticKind :=
  match d.cause with
  | .lexical _ => .lexical
  | .unexpected .. | .tooDeep .. => .grammatical
  | .unclosed .. => .structural

def message (d : Diagnostic) : String := d.cause.message

def toText (d : Diagnostic) : String := s!"{d.point.toText}: {d.kind.name}: {d.message}"

def ofLexicalError (e : LexicalError) : Diagnostic := ⟨.lexical e.fault, e.span, e.point⟩

end Diagnostic

end VisualBasic
