/-!
# Ambiguities

The places where more than one rule of the grammar can apply, and how each is settled: by looking at
the tokens ahead before committing to a rule, or by trying the rules in order.
-/

namespace VisualBasic

/-- How an ambiguity is settled. -/
inductive Settlement where
  /-- The rules are tried in order and the first that fits is taken. -/
  | alternatives
  /-- A fixed look at the tokens ahead decides. -/
  | lookahead
  deriving DecidableEq, Repr, Inhabited

def Settlement.toText : Settlement → String
  | .alternatives => "Alternatives"
  | .lookahead => "Lookahead"

/-- A place in the grammar where more than one rule can apply. -/
inductive Ambiguity where
  | typeOrInvocation | typeRank | newExpression | typeArgumentList | property | constructor | method
  | targetOrExpression | labelOrExpression | event | ifStatement
  deriving DecidableEq, Repr, Inhabited

namespace Ambiguity

/-- All ambiguities, those about types first. -/
def all : List Ambiguity :=
  [.typeOrInvocation, .typeRank, .newExpression, .typeArgumentList, .property, .constructor,
   .method, .targetOrExpression, .labelOrExpression, .event, .ifStatement]

def name : Ambiguity → String
  | typeOrInvocation => "type/invocation"
  | typeRank => "type"
  | newExpression => "new_expression"
  | typeArgumentList => "type_argument_list"
  | property => "property_declaration"
  | constructor => "constructor_declaration"
  | method => "method_declaration"
  | targetOrExpression => "left_hand_side/expression"
  | labelOrExpression => "label_statement/expression"
  | event => "event_declaration"
  | ifStatement => "if_statement"

/-- The grammar's own names for the rules that take part. -/
def rules : Ambiguity → List String
  | typeOrInvocation => ["type", "invocation"]
  | typeRank => ["type"]
  | newExpression => ["new_expression"]
  | typeArgumentList => ["type_argument_list"]
  | property => ["property_declaration"]
  | constructor => ["constructor_declaration"]
  | method => ["method_declaration"]
  | targetOrExpression => ["left_hand_side", "expression"]
  | labelOrExpression => ["label_statement", "expression"]
  | event => ["event_declaration"]
  | ifStatement => ["if_statement"]

/-- A parenthesis behind a type's name opens type arguments only if `Of` follows it; behind a type
after `New` it always opens the arguments; behind an assignment's target it opens indices if an
assignment operator follows its closing one. All other ambiguities are settled by trying. -/
def settlement : Ambiguity → Settlement
  | typeOrInvocation | typeRank | newExpression | typeArgumentList
  | targetOrExpression => .lookahead
  | property | constructor | method | labelOrExpression | event | ifStatement => .alternatives

theorem mem_all (a : Ambiguity) : a ∈ all := by
  cases a <;> decide

end Ambiguity

end VisualBasic
