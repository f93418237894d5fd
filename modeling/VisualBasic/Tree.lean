import VisualBasic.Grammar.Declaration
import VisualBasic.Limits
import VisualBasic.Text.LineTable

/-!
# Syntax trees

The tree of a source, with its diagnostics. Besides the root the tree has a table of its nodes, in
which each node has a number, so that a node can be asked for its parent. Nodes are numbered in the
order in which they are completed: children before their parent, and from left to right.

Main results:

* `Tree.size_table_make` — the table has an entry for each node.
-/

namespace VisualBasic

/-! ## The table of nodes -/

/-- A node in the table, with the numbers of its parent and its children. -/
structure TreeEntry where
  node : Node
  parent : Option Nat
  children : List Nat
  deriving Inhabited

namespace Node

/-- The numbers of the given trees' roots, if numbering begins at `base`. -/
def rootNumbers (base : Nat) : List Node → List Nat
  | [] => []
  | n :: rest => (base + n.size - 1) :: rootNumbers (base + n.size) rest

mutual

/-- The entries of a tree in the order of their numbers, which begin at `base`. -/
def entries (base : Nat) (parent : Option Nat) : Node → List TreeEntry
  | mk info children =>
    entriesOf base (base + sizes children) children
      ++ [⟨mk info children, parent, rootNumbers base children⟩]

/-- The entries of the children of the node numbered `parent`. -/
def entriesOf (base parent : Nat) : List Node → List TreeEntry
  | [] => []
  | n :: rest => n.entries base (some parent) ++ entriesOf (base + n.size) parent rest

end

mutual

/-- The numbers of the nodes of a tree, parents before their children, if numbering begins at
`base`. -/
def preorderNumbers (base : Nat) : Node → List Nat
  | mk _ children => (base + sizes children) :: preorderNumbersOf base children

def preorderNumbersOf (base : Nat) : List Node → List Nat
  | [] => []
  | n :: rest => n.preorderNumbers base ++ preorderNumbersOf (base + n.size) rest

end

end Node

/-! ## Trees -/

/-- The tree of a source. -/
structure Tree where
  source : List Char
  root : Node
  /-- In the order of the starts of their spans. -/
  diagnostics : List Diagnostic
  /-- The nodes by number. -/
  table : Array TreeEntry
  lines : LineTable
  lines_eq : lines = LineTable.ofText source

namespace Tree

def make (source : List Char) (root : Node) (diagnostics : List Diagnostic) : Tree :=
  { source, root, diagnostics
    table := (root.entries 0 none).toArray
    lines := LineTable.ofText source
    lines_eq := rfl }

/-- The tree of a token stream, with productions nested to at most `limit` levels. The root covers
the whole source. -/
def ofTokens (source : List Char) (tokens : TokenStream) (limit : Nat) : Tree :=
  let lexical := tokens.errors.map Diagnostic.ofLexicalError
  let (root, state) := Production.NeverFails.sourceFile.result { source, tokens, limit }
    ({ diagnostics := lexical.reverse } : State)
  make source (root.withSpan ⟨0, Text.byteLength source⟩)
    (state.diagnostics.reverse.mergeSort fun a b => a.span.start ≤ b.span.start)

/-- The tree of a source, unless the source is larger than the limits allow. -/
def parseWithin (limits : Limits) (source : List Char) : Except LimitError Tree := do
  limits.checkInput (Text.byteLength source)
  let tokens := TokenStream.ofText source
  limits.checkTokenCount tokens.size
  return ofTokens source tokens limits.maxNestingDepth

/-- The tree of a source, whatever its size. -/
def parse (source : List Char) : Tree :=
  ofTokens source (TokenStream.ofText source) (default : Limits).maxNestingDepth

/-- Whether anything is wrong with the source. -/
def hasError (t : Tree) : Bool := t.root.troubled || !t.diagnostics.isEmpty

/-! ### Nodes by number -/

/-- The number of the root. -/
def rootNumber (t : Tree) : Nat := t.root.size - 1

def node? (t : Tree) (n : Nat) : Option Node := t.table[n]?.map TreeEntry.node

def children (t : Tree) (n : Nat) : List Nat := (t.table[n]?.map TreeEntry.children).getD []

def parent? (t : Tree) (n : Nat) : Option Nat := t.table[n]?.bind TreeEntry.parent

def isNamed (t : Tree) (n : Nat) : Bool := (t.node? n).any Node.isNamed

def fieldOf (t : Tree) (n : Nat) : Option Field := (t.node? n).bind Node.field

def namedChildren (t : Tree) (n : Nat) : List Nat := (t.children n).filter t.isNamed

/-- The children in a role, from left to right. -/
def childrenInField (t : Tree) (n : Nat) (f : Field) : List Nat :=
  (t.children n).filter fun c => t.fieldOf c == some f

/-- The first child in a role. -/
def childInField? (t : Tree) (n : Nat) (f : Field) : Option Nat :=
  (t.children n).find? fun c => t.fieldOf c == some f

/-- The node and all below it, parents before their children. -/
def descendants (t : Tree) (n : Nat) : List Nat :=
  match t.node? n with
  | some node => node.preorderNumbers (n + 1 - node.size)
  | none => []

/-- All nodes of a kind, parents before their children. -/
def findAll (t : Tree) (kind : NodeKind) : List Nat :=
  (t.descendants t.rootNumber).filter fun n => (t.node? n).any (·.kind == kind)

/-! ### Text and positions -/

/-- The text that a node covers. -/
def text (t : Tree) (n : Node) : List Char := n.span.slice t.source

/-- The point of a byte offset of the source. -/
def point (t : Tree) (offset : Nat) : Point := t.lines.pointIn t.source offset

def startPoint (t : Tree) (n : Node) : Point := t.point n.span.start

def stopPoint (t : Tree) (n : Node) : Point := t.point n.span.stop

end Tree

/-! ## The table lists the nodes -/

namespace Node

mutual

theorem length_entries (base : Nat) (parent : Option Nat) (n : Node) :
    (n.entries base parent).length = n.size :=
  match n with
  | mk _ children => by
    rw [entries, size, List.length_append, length_entriesOf, List.length_singleton, Nat.add_comm]

theorem length_entriesOf (base parent : Nat) (ns : List Node) :
    (entriesOf base parent ns).length = sizes ns :=
  match ns with
  | [] => rfl
  | n :: rest => by
    rw [entriesOf, sizes, List.length_append, length_entries, length_entriesOf]

end

end Node

theorem Tree.size_table_make (source : List Char) (root : Node) (diagnostics : List Diagnostic) :
    (Tree.make source root diagnostics).table.size = root.size := by
  simp [Tree.make, Node.length_entries]

/-! ## Within limits -/

namespace Tree

theorem parseWithin_eq (limits : Limits) (source : List Char) : parseWithin limits source =
    (limits.checkInput (Text.byteLength source)).bind fun _ =>
      (limits.checkTokenCount (TokenStream.ofText source).size).bind fun _ =>
        .ok (ofTokens source (TokenStream.ofText source) limits.maxNestingDepth) := rfl

theorem parseWithin_eq_ok_iff {limits : Limits} {source : List Char} {tree : Tree} :
    parseWithin limits source = .ok tree ↔
      (limits.checkInput (Text.byteLength source) = .ok () ∧
        limits.checkTokenCount (TokenStream.ofText source).size = .ok ()) ∧
      ofTokens source (TokenStream.ofText source) limits.maxNestingDepth = tree := by
  rw [parseWithin_eq]
  cases limits.checkInput (Text.byteLength source) with
  | error e => simp [Except.bind]
  | ok _ =>
    cases limits.checkTokenCount (TokenStream.ofText source).size with
    | error e => simp [Except.bind]
    | ok _ => simp [Except.bind]

end Tree

end VisualBasic
