import VisualBasic.Query.Pattern
import VisualBasic.Text.Alphanumeric
import VisualBasic.Text.Position
import VisualBasic.Text.WhiteSpace

/-!
# The notation of queries

A query is written as s-expressions: `(rule child*)` for a node of a rule, with patterns for some of
its children, `_` in place of the rule, or alone, for any named node, `field:` before a child for
the role that it must play, and `@name` behind a pattern for a capture. Blanks and comments, from a
semicolon to the end of the line, may stand between any two of these.

Captures are numbered by the first occurrences of their names.

Main results:

* `Query.patterns_ne_nil_of_ofText` — a query that is accepted has a pattern.
-/

namespace VisualBasic

namespace Query

/-! ## Names and blanks -/

/-- Whether a character can be in a name. -/
def isNameChar (c : Char) : Bool := Text.isAlphanumeric c || c == '_' || c == '.' || c == '-'

mutual

/-- The text without the blanks and comments at its beginning. -/
def dropBlanks : List Char → List Char
  | [] => []
  | c :: rest =>
    if Text.isWhiteSpace c then dropBlanks rest
    else if c == ';' then dropComment rest
    else c :: rest

/-- The text behind a comment, if it begins inside one, and without the blanks that follow. -/
def dropComment : List Char → List Char
  | [] => []
  | c :: rest => if c == '\n' then dropBlanks rest else dropComment rest

end

/-! ## Readers -/

/-- A place in the text of a query. -/
structure Place where
  /-- The number of bytes of the whole text. -/
  size : Nat
  /-- The text from this place on. -/
  rest : List Char
  /-- The names of the captures before this place. -/
  names : List String := []

namespace Place

def ofText (text : List Char) : Place := { size := Text.byteLength text, rest := text }

def offset (p : Place) : Nat := p.size - Text.byteLength p.rest

end Place

/-- A reader of a part of a query. -/
abbrev Reader := StateT Place (Except QueryError)

namespace Reader

/-- The character that comes next. -/
def peek : Reader (Option Char) := return (← get).rest.head?

/-- Moves to where `f` leaves the text. -/
def drop (f : List Char → List Char) : Reader Unit := modify fun p => { p with rest := f p.rest }

/-- Moves over the next character. -/
def skip : Reader Unit := drop List.tail

/-- Moves over blanks and comments. -/
def skipBlanks : Reader Unit := drop dropBlanks

/-- The longest name that begins here; it may be empty. -/
def name : Reader String := do
  let text := (← get).rest
  drop (List.dropWhile isNameChar)
  return String.ofList (text.takeWhile isNameChar)

def fail {α : Type} (problem : QueryProblem) : Reader α := do
  throw (.malformed (← get).offset problem)

/-- What a pattern asks of the kind of its node. -/
def kind : Reader KindTest := do
  let offset := (← get).offset
  match ← name with
  | "" => fail .expectedKind
  | "_" => return .any
  | name =>
    match Rule.ofText? name with
    | some rule => return .rule rule
    | none => throw (.unknownRule offset name)

/-- The role of a child, with the colon behind it. -/
def role : Reader Field := do
  let offset := (← get).offset
  let name ← name
  match Field.ofText? name with
  | none => throw (.unknownField offset name)
  | some field =>
    skipBlanks
    if (← peek) == some ':' then
      skip
      skipBlanks
      return field
    else
      fail .expectedColon

/-- The number of a capture; a new name gets the next number. -/
def captureNumber (name : String) : Reader Nat := do
  let names := (← get).names
  match names.idxOf? name with
  | some number => return number
  | none =>
    modify fun p => { p with names := names ++ [name] }
    return names.length

/-! ### Patterns

The readers below take a bound on their steps. Whatever they repeat moves over a character, so the
length of the text will do. -/

/-- The captures behind a pattern. -/
def captures : Nat → Reader (List Nat)
  | 0 => return []
  | bound + 1 => do
    skipBlanks
    if (← peek) == some '@' then
      skip
      let name ← name
      if name.isEmpty then
        fail .expectedCaptureName
      else
        let number ← captureNumber name
        return number :: (← captures bound)
    else
      return []

mutual

def pattern : Nat → Reader Pattern
  | 0 => fail .expectedPattern
  | bound + 1 => do
    match ← peek with
    | some '(' =>
      skip
      skipBlanks
      let kind ← kind
      let children ← children bound
      return .mk none kind (← captures bound) children
    | some '_' =>
      skip
      return .mk none .any (← captures bound) []
    | _ => fail .expectedPattern

/-- The patterns of children, up to the closing parenthesis. -/
def children : Nat → Reader (List Pattern)
  | 0 => fail .unclosed
  | bound + 1 => do
    skipBlanks
    match ← peek with
    | none => fail .unclosed
    | some ')' =>
      skip
      return []
    | some c =>
      if c == '(' || c == '_' then
        let child ← pattern bound
        return child :: (← children bound)
      else if Text.isAlphabetic c then
        let field ← role
        let child ← pattern bound
        return child.inField field :: (← children bound)
      else
        fail .unexpectedCharacter

end

/-- The patterns up to the end of the text. -/
def patterns : Nat → Reader (List Pattern)
  | 0 => return []
  | bound + 1 => do
    skipBlanks
    if (← peek).isNone then
      return []
    else
      let pattern ← pattern (bound + 1)
      return pattern :: (← patterns bound)

end Reader

/-- The query that a text denotes. -/
def ofText (text : List Char) : Except QueryError Query := do
  let (patterns, place) ← (Reader.patterns (text.length + 1)).run (Place.ofText text)
  if patterns.isEmpty then
    throw (.malformed 0 .empty)
  else
    return { patterns, captureNames := place.names }

theorem patterns_ne_nil_of_ofText {text : List Char} {q : Query} (h : ofText text = .ok q) :
    q.patterns ≠ [] := by
  unfold ofText at h
  cases read : (Reader.patterns (text.length + 1)).run (Place.ofText text) with
  | error e => simp [read, bind, Except.bind] at h
  | ok result =>
    obtain ⟨patterns, place⟩ := result
    cases patterns with
    | nil => simp [read, bind, Except.bind] at h
    | cons p ps =>
      simp only [read, bind, Except.bind, List.isEmpty_cons] at h
      cases h
      exact List.cons_ne_nil p ps

end Query

end VisualBasic
