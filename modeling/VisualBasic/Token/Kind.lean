import VisualBasic.Keyword

/-!
# Kinds of tokens

A token is a reserved word, a name, a literal, a preprocessor line, a mark (punctuation or an
operator), a line end, a character that begins no token, or the end of the text. The grammar looks
at nothing but kinds.
-/

namespace VisualBasic

/-- What a literal denotes. -/
inductive LiteralKind where
  | integer | floatingPoint | string | character | date
  deriving DecidableEq, Repr, Inhabited

/-- Punctuation and operators. -/
inductive Mark where
  | dot | comma | colon | leftParen | rightParen | leftBrace | rightBrace
  | equal | notEqual | less | greater | lessEqual | greaterEqual | shiftLeft | shiftRight
  | plus | minus | star | slash | backslash | caret | ampersand
  | plusEqual | minusEqual | starEqual | slashEqual | backslashEqual | caretEqual
  | ampersandEqual | shiftLeftEqual | shiftRightEqual
  deriving DecidableEq, Repr, Inhabited

inductive TokenKind where
  | keyword (word : Keyword)
  | identifier
  | literal (kind : LiteralKind)
  | directive
  | mark (mark : Mark)
  | newline
  | invalid
  | endOfFile
  deriving DecidableEq, Repr, Inhabited

/-! ## Names -/

def LiteralKind.name : LiteralKind → String
  | .integer => "integer_literal"
  | .floatingPoint => "floating_point_literal"
  | .string => "string_literal"
  | .character => "character_literal"
  | .date => "date_literal"

/-- How the mark is written. -/
def Mark.spelling : Mark → String
  | .dot => "."
  | .comma => ","
  | .colon => ":"
  | .leftParen => "("
  | .rightParen => ")"
  | .leftBrace => "\x7b"
  | .rightBrace => "\x7d"
  | .equal => "="
  | .notEqual => "<>"
  | .less => "<"
  | .greater => ">"
  | .lessEqual => "<="
  | .greaterEqual => ">="
  | .shiftLeft => "<<"
  | .shiftRight => ">>"
  | .plus => "+"
  | .minus => "-"
  | .star => "*"
  | .slash => "/"
  | .backslash => "\\"
  | .caret => "^"
  | .ampersand => "&"
  | .plusEqual => "+="
  | .minusEqual => "-="
  | .starEqual => "*="
  | .slashEqual => "/="
  | .backslashEqual => "\\="
  | .caretEqual => "^="
  | .ampersandEqual => "&="
  | .shiftLeftEqual => "<<="
  | .shiftRightEqual => ">>="

namespace TokenKind

/-- The spelling of a kind that has only one, and the name of any other kind. -/
def name : TokenKind → String
  | keyword word => word.spelling
  | identifier => "identifier"
  | literal kind => kind.name
  | directive => "preprocessor_directive"
  | mark m => m.spelling
  | newline => "newline"
  | invalid => "ERROR"
  | endOfFile => "end of file"

/-! ## Classes of kinds -/

/-- A word that can name something: an identifier, a built-in type or a word that is reserved only
in a few positions. -/
def isNameLike : TokenKind → Bool
  | identifier => true
  | keyword word => word.isNameLike
  | _ => false

def isModifier : TokenKind → Bool
  | keyword word => word.isModifier
  | _ => false

/-- A line end or a colon: what ends a statement and is consumed with it. -/
def isTerminator : TokenKind → Bool
  | newline | mark .colon => true
  | _ => false

/-- A terminator or the end of the text. -/
def endsLine : TokenKind → Bool
  | newline | mark .colon | endOfFile => true
  | _ => false

def isAssignment : TokenKind → Bool
  | mark .equal | mark .plusEqual | mark .minusEqual | mark .starEqual | mark .slashEqual
  | mark .backslashEqual | mark .caretEqual | mark .ampersandEqual | mark .shiftLeftEqual
  | mark .shiftRightEqual => true
  | _ => false

/-- Comparison of values; `Is`, `IsNot` and `Like` are not among them. -/
def isRelational : TokenKind → Bool
  | mark .equal | mark .notEqual | mark .less | mark .greater | mark .lessEqual
  | mark .greaterEqual => true
  | _ => false

/-- The words that open a declaration inside a type. -/
def opensMember : TokenKind → Bool
  | keyword .kwSub | keyword .kwFunction | keyword .kwProperty | keyword .kwEvent
  | keyword .kwClass | keyword .kwStructure | keyword .kwInterface | keyword .kwEnum
  | keyword .kwModule | keyword .kwDelegate | keyword .kwNamespace => true
  | _ => false

theorem endsLine_eq (k : TokenKind) : k.endsLine = (k.isTerminator || k == endOfFile) := by
  cases k with
  | mark m => cases m <;> rfl
  | _ => rfl

end TokenKind

end VisualBasic
