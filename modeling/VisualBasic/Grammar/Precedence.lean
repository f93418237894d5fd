import VisualBasic.Token.Kind

/-!
# Precedence

How tightly the binary operators bind. Operators of one level associate as the table says.
-/

namespace VisualBasic

inductive Associativity where
  | left | right
  deriving DecidableEq, Repr, Inhabited

def Associativity.toText : Associativity → String
  | left => "Left"
  | right => "Right"

/-- The operators of one level; a higher level binds more tightly. -/
structure Precedence where
  level : Int
  associativity : Associativity
  operators : List TokenKind
  deriving DecidableEq, Repr

namespace Precedence

/-- All levels, the tightest first. -/
def table : List Precedence :=
  [⟨7, .left, [.mark .caret]⟩,
   ⟨6, .left, [.mark .star, .mark .slash, .mark .backslash, .keyword .kwMod]⟩,
   ⟨5, .left, [.mark .plus, .mark .minus]⟩,
   ⟨4, .left, [.mark .ampersand]⟩,
   ⟨3, .left, [.mark .shiftLeft, .mark .shiftRight]⟩,
   ⟨2, .left,
    [.mark .equal, .mark .notEqual, .mark .less, .mark .greater, .mark .lessEqual,
     .mark .greaterEqual, .keyword .kwIs, .keyword .kwIsNot, .keyword .kwLike]⟩,
   ⟨1, .left, [.keyword .kwTypeOf]⟩,
   ⟨0, .left, [.keyword .kwAnd, .keyword .kwOr, .keyword .kwXor]⟩,
   ⟨-1, .left, [.keyword .kwAndAlso, .keyword .kwOrElse]⟩]

/-- The level below which no operator binds. -/
def lowest : Int := -1

/-- The level of operands of the prefix operators, above every binary operator. -/
def unary : Int := 8

/-- The level of the operand of `TypeOf`, above the comparisons. -/
def typeOf : Int := 3

/-- The level of a binary operator. -/
def ofKind? (k : TokenKind) : Option Precedence := table.find? (·.operators.contains k)

/-- The level that the right operand needs. -/
def right (p : Precedence) : Int :=
  match p.associativity with
  | .left => p.level + 1
  | .right => p.level

theorem lowest_le_level {k : TokenKind} {p : Precedence} (h : ofKind? k = some p) :
    lowest ≤ p.level ∧ p.level < unary :=
  (by decide : ∀ p ∈ table, lowest ≤ p.level ∧ p.level < unary) p (List.mem_of_find?_eq_some h)

end Precedence

end VisualBasic
