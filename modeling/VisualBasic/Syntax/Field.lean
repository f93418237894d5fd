/-!
# Fields

The roles that a node can give to its children.

Main results:

* `Field.mem_all` — `Field.all` lists every one.
* `Field.ofText?_toText` — each is found under its own name, hence `Field.toText_injective`.
-/

namespace VisualBasic

/-- The role of a child in its parent. -/
inductive Field where
  | name | modifiers | attributes | «namespace» | inherits | implements | handles | value
  | parameters | returnType | constraint | target | initializer | type | defaultValue | label
  | left | right | operator | operand | condition | thenBranch | elseBranch | selector
  | «variable» | start | «end» | step | collection | exception | filter | resource | lock
  | array | upperBound | object | member | index | arguments | trueBranch | falseBranch | event
  | handler
  deriving DecidableEq, Repr, Inhabited

namespace Field

/-- The name under which trees and queries show it. -/
def toText : Field → String
  | .name => "name"
  | .modifiers => "modifiers"
  | .attributes => "attributes"
  | .«namespace» => "namespace"
  | .inherits => "inherits"
  | .implements => "implements"
  | .handles => "handles"
  | .value => "value"
  | .parameters => "parameters"
  | .returnType => "return_type"
  | .constraint => "constraint"
  | .target => "target"
  | .initializer => "initializer"
  | .type => "type"
  | .defaultValue => "default_value"
  | .label => "label"
  | .left => "left"
  | .right => "right"
  | .operator => "operator"
  | .operand => "operand"
  | .condition => "condition"
  | .thenBranch => "then_branch"
  | .elseBranch => "else_branch"
  | .selector => "selector"
  | .«variable» => "variable"
  | .start => "start"
  | .«end» => "end"
  | .step => "step"
  | .collection => "collection"
  | .exception => "exception"
  | .filter => "filter"
  | .resource => "resource"
  | .lock => "lock"
  | .array => "array"
  | .upperBound => "upper_bound"
  | .object => "object"
  | .member => "member"
  | .index => "index"
  | .arguments => "arguments"
  | .trueBranch => "true_branch"
  | .falseBranch => "false_branch"
  | .event => "event"
  | .handler => "handler"

/-- Every field. -/
def all : List Field :=
  [.name, .modifiers, .attributes, .«namespace», .inherits, .implements, .handles, .value,
   .parameters, .returnType, .constraint, .target, .initializer, .type, .defaultValue, .label,
   .left, .right, .operator, .operand, .condition, .thenBranch, .elseBranch, .selector,
   .«variable», .start, .«end», .step, .collection, .exception, .filter, .resource, .lock,
   .array, .upperBound, .object, .member, .index, .arguments, .trueBranch, .falseBranch, .event,
   .handler]

/-- The one with the given name, in exactly that spelling. -/
def ofText? (text : String) : Option Field := all.find? fun x => x.toText == text

theorem mem_all (x : Field) : x ∈ all :=
  List.mem_of_getElem? (show all[x.ctorIdx]? = some x by cases x <;> rfl)

theorem ofText?_toText (x : Field) : ofText? x.toText = some x :=
  (by decide +kernel : ∀ x ∈ all, ofText? x.toText = some x) x (mem_all x)

theorem toText_injective {x y : Field} (h : x.toText = y.toText) : x = y :=
  Option.some.inj (by rw [← ofText?_toText x, h, ofText?_toText y])

end Field

end VisualBasic
