import VisualBasic.Syntax.Field
import VisualBasic.Syntax.Rule
import VisualBasic.Text.Position
import VisualBasic.Token.Kind

/-!
# Nodes

A concrete syntax tree keeps every token that matters. A *named* node stands for a grammar rule; a
node made from a keyword or a mark is anonymous and has the token's kind. Each node knows the span
it covers, the first of its tokens, the role it plays in its parent, and whether something in it is
wrong.

Main results:

* `Node.troubled_iff_of_finish` — a finished node reports trouble below it exactly when a child is
  in trouble.
* `Node.length_preorder` — the listing of a tree has as many nodes as the tree.
-/

namespace VisualBasic

inductive NodeKind where
  | rule (r : Rule)
  | token (k : TokenKind)
  deriving DecidableEq, Repr, Inhabited

namespace NodeKind

def isNamed : NodeKind → Bool
  | rule _ => true
  | token _ => false

def name : NodeKind → String
  | rule r => r.toText
  | token k => k.name

end NodeKind

/-- What can be wrong with a node. -/
structure Flags where
  /-- It is a region that fits no rule. -/
  isError : Bool := false
  /-- It is a block whose closing line is missing. -/
  isPartial : Bool := false
  /-- Something below it is an error or partial. -/
  hasError : Bool := false
  deriving DecidableEq, Repr, Inhabited

/-- Whether a node with these flags, or something below it, is an error or partial. -/
def Flags.troubled (f : Flags) : Bool := f.isError || f.isPartial || f.hasError

/-- All that is known of a node but its children. -/
structure NodeInfo where
  kind : NodeKind
  span : Span
  /-- The index of the first token in it, or of the token at which it stands empty. -/
  firstToken : Nat
  /-- The index of the token that it is, if it is a single one. -/
  token : Option Nat := none
  /-- The role that it plays in its parent. -/
  field : Option Field := none
  flags : Flags := {}
  deriving DecidableEq, Repr, Inhabited

inductive Node where
  | mk (info : NodeInfo) (children : List Node)
  deriving Inhabited

namespace Node

def info : Node → NodeInfo
  | mk info _ => info

def children : Node → List Node
  | mk _ children => children

def kind (n : Node) : NodeKind := n.info.kind

def span (n : Node) : Span := n.info.span

def field (n : Node) : Option Field := n.info.field

def flags (n : Node) : Flags := n.info.flags

def isNamed (n : Node) : Bool := n.kind.isNamed

/-- Whether the node stands for one of the rules. -/
def isRule (n : Node) (rules : List Rule) : Bool := rules.any (n.kind == .rule ·)

/-- Whether the node or something below it is an error or partial. -/
def troubled (n : Node) : Bool := n.flags.troubled

def namedChildren (n : Node) : List Node := n.children.filter isNamed

/-- The node in the role `field` of its parent. -/
def inField (f : Field) : Node → Node
  | mk info children => mk { info with field := some f } children

/-- The same node with another span. -/
def withSpan (span : Span) : Node → Node
  | mk info children => mk { info with span := span } children

/-- A leaf made from a single token. -/
def leaf (kind : NodeKind) (span : Span) (token : Nat) : Node :=
  mk { kind, span, firstToken := token, token := some token } []

/-- A node over finished children; trouble in a child shows in its flags. -/
def finish (kind : NodeKind) (span : Span) (firstToken : Nat) (isPartial : Bool)
    (children : List Node) : Node :=
  mk { kind, span, firstToken, flags := { isPartial, hasError := children.any troubled } } children

/-- A region that fits no rule. -/
def error (span : Span) (firstToken : Nat) : Node :=
  mk { kind := .rule .error, span, firstToken, flags := { isError := true } } []

/-! ## Counting and listing -/

mutual

/-- The number of nodes in the tree below and with `n`. -/
def size : Node → Nat
  | mk _ children => 1 + sizes children

def sizes : List Node → Nat
  | [] => 0
  | n :: rest => n.size + sizes rest

end

mutual

/-- The node and all below it, parents before their children. -/
def preorder : Node → List Node
  | mk info children => mk info children :: preorders children

def preorders : List Node → List Node
  | [] => []
  | n :: rest => n.preorder ++ preorders rest

end

/-! ## Trouble -/

theorem troubled_iff_of_finish {kind : NodeKind} {span : Span} {first : Nat} {isPartial : Bool}
    {children : List Node} :
    (finish kind span first isPartial children).flags.hasError = true ↔
      ∃ n ∈ children, n.troubled = true := by
  simp [finish, flags, info]

mutual

theorem length_preorder (n : Node) : n.preorder.length = n.size :=
  match n with
  | mk _ children => by rw [preorder, size, List.length_cons, length_preorders, Nat.add_comm]

theorem length_preorders (ns : List Node) : (preorders ns).length = sizes ns :=
  match ns with
  | [] => rfl
  | n :: rest => by
    rw [preorders, sizes, List.length_append, length_preorder, length_preorders]

end

end Node

end VisualBasic
