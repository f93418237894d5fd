import VisualBasic.Grammar.Arena
import VisualBasic.Tree

/-!
# Linked trees

The tree of a source with its nodes in the vector in which they were built. The vector also holds
what was finished and then given up. Once the file has been read, a loop goes down from the root and
notes in each node which one it is a child of; what it does not come to stays without a parent.

That the loops over the vector end is not plain, nor that the indices they come to are those of
nodes. So they give an option: there is none where a loop goes on for ever, or where there is no
node at an index.
-/

namespace VisualBasic

namespace Cells

/-! ## Loops over the nodes -/

/-- Notes in the nodes which one is their parent. -/
def adopt (nodes : Cells) (parent : NodeId) : List NodeId → Option Cells
  | [] => some nodes
  | id :: rest =>
    if id < nodes.size then
      adopt (nodes.modify id fun cell => { cell with parent := some parent }) parent rest
    else none

/-- Notes the parents of all that is below the nodes on a stack. -/
def link (nodes : Cells) : List NodeId → Option Cells
  | [] => some nodes
  | id :: stack => do
    let cell ← nodes[id]?
    let nodes ← nodes.adopt id cell.children
    nodes |>.link (cell.children.reverse ++ stack)
partial_fixpoint

/-- The nodes that are listed already, and behind them those on a stack and all that is below
them. -/
def listing (nodes : Cells) (out : Array NodeId) : List NodeId → Option (Array NodeId)
  | [] => some out
  | id :: stack => do
    let cell ← nodes[id]?
    nodes |>.listing (out.push id) (cell.children ++ stack)
partial_fixpoint

/-- A node and all that is below it: first the node, then one child after the other. -/
def preorder (nodes : Cells) (id : NodeId) : Option (List NodeId) := do
  let cell ← nodes[id]?
  let below ← cell.children.mapM fun child => nodes |>.preorder child
  return id :: below.flatten
partial_fixpoint

end Cells

/-! ## Trees -/

/-- The tree of a source with its nodes in a vector. -/
structure LinkedTree where
  source : List Char
  nodes : Cells
  root : NodeId
  /-- In the order of the starts of their spans. -/
  diagnostics : List Diagnostic
  lines : LineTable

namespace LinkedTree

def children (t : LinkedTree) (id : NodeId) : List NodeId :=
  (t.nodes[id]?.map Cell.children).getD []

/-- The children in a role, each behind its role. -/
def fields (t : LinkedTree) (id : NodeId) : List (Field × NodeId) :=
  (t.nodes[id]?.map Cell.fields).getD []

def parent? (t : LinkedTree) (id : NodeId) : Option NodeId := t.nodes[id]?.bind Cell.parent

/-- The node and all below it, parents before their children. -/
def descendants (t : LinkedTree) (id : NodeId) : Option (List NodeId) :=
  (t.nodes.listing #[] [id]).map Array.toList

/-- The tree with the given root, once the parents are noted. -/
def link (source : List Char) (nodes : Cells) (root : NodeId) (diagnostics : List Diagnostic) :
    Option LinkedTree := do
  let nodes ← nodes.link [root]
  return { source, nodes, root, diagnostics, lines := LineTable.ofText source }

/-- The tree of a token stream, with productions nested to at most `limit` levels. The root covers
the whole source. -/
def ofTokens (source : List Char) (tokens : TokenStream) (limit : Nat) : Option LinkedTree :=
  let lexical := tokens.errors.map Diagnostic.ofLexicalError
  let (root, state) := Production.NeverFails.sourceFile.result { source, tokens, limit }
    ({ children := {}, diagnostics := lexical.reverse } : State Arena)
  let whole : Span := ⟨0, Text.byteLength source⟩
  link source (state.children.nodes.modify root fun cell => { cell with span := whole }) root
    (state.diagnostics.reverse.mergeSort fun a b => a.span.start ≤ b.span.start)

end LinkedTree

end VisualBasic
