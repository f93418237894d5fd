import VisualBasic.Syntax.Node

/-!
# Nodes in a vector

Nodes as a parse keeps them: one vector of cells, in which a finished node is named by its index. A
cell holds the indices of its children, and which of them play a role; it has no place for the role
that it plays itself. Its parent is not known before the whole tree is there.
-/

namespace VisualBasic

/-- The index of a node in the vector. -/
abbrev NodeId := Nat

/-- A node in the vector. -/
structure Cell where
  kind : NodeKind
  span : Span
  children : List NodeId := []
  /-- The children in a role. -/
  fields : List (Field × NodeId) := []
  /-- The index of the token that it is, if it is a single one. -/
  token : Option Nat := none
  parent : Option NodeId := none
  flags : Flags := {}
  /-- The index of the first token in it, or of the token at which it stands empty. -/
  firstToken : Nat
  deriving Inhabited, DecidableEq, Repr

/-- The finished nodes of a parse, each named by its index. -/
abbrev Cells := Array Cell

/-- All nodes that are finished, and the node under construction. -/
structure Arena where
  /-- The finished nodes, children before their parents. -/
  nodes : Cells := #[]
  /-- The children of the node under construction, the latest first. -/
  ids : List NodeId := []
  /-- Those of them in a role, the latest first. -/
  roles : List (Field × NodeId) := []
  deriving Inhabited

namespace Arena

/-- The arena with one more finished node, and its index. -/
def push (cell : Cell) (b : Arena) : NodeId × Arena :=
  (b.nodes.size, { b with nodes := b.nodes.push cell })

/-- Whether the node, or something below it, is an error or partial. -/
def troubled (b : Arena) (id : NodeId) : Bool := b.nodes[id]!.flags.troubled

end Arena

end VisualBasic
