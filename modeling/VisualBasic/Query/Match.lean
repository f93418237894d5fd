import VisualBasic.Query.Reader
import VisualBasic.Tree

/-!
# Matches of queries

A pattern matches at a node of its kind if its child patterns match at children of the node, each at
its own child and in the same order. A child pattern looks at the children that play its role or, if
it names none, at the named ones; where it has a choice it takes the first child with which the
patterns behind it match too.

A query is run over a whole tree, parents before their children, and its patterns are tried in their
order at each node.

Main results:

* `Query.matchesIn_eq_nil_iff` — nothing is found exactly when no pattern matches at any node.
-/

namespace VisualBasic

/-- A node found for a capture, both by their numbers. -/
structure Capture where
  number : Nat
  node : Nat
  deriving DecidableEq, Repr, Inhabited

/-- A pattern of a query, by its number, that matches at a node. -/
structure Match where
  pattern : Nat
  node : Nat
  captures : List Capture
  deriving DecidableEq, Repr, Inhabited

/-- The nodes found for a capture. -/
def Match.nodes (m : Match) (number : Nat) : List Nat :=
  (m.captures.filter (·.number == number)).map Capture.node

/-! ## Patterns -/

def KindTest.accepts (test : KindTest) (kind : NodeKind) : Bool :=
  match test with
  | any => kind.isNamed
  | rule r => kind == .rule r

namespace Pattern

/-- Whether the pattern looks at a node, as the child of another. -/
def looksAt (p : Pattern) (t : Tree) (node : Nat) : Bool :=
  match p.field with
  | some f => t.fieldOf node == some f
  | none => t.isNamed node

/-- The answer of the first element of a list that gives one. Each is asked together with the
elements behind it. -/
def firstChoice? {α β : Type} (ask : α → List α → Option β) : List α → Option β
  | [] => none
  | x :: rest => (ask x rest).or (firstChoice? ask rest)

mutual

/-- The captures of a pattern that matches at a node, those of the node itself in front. -/
def matchAt? (t : Tree) : Pattern → Nat → Option (List Capture)
  | mk _ kind captures children, node =>
    if (t.node? node).any (kind.accepts ·.kind) then
      (matchChildren? t children (t.children node)).map (captures.map (⟨·, node⟩) ++ ·)
    else
      none

/-- The captures of patterns that match at some of the nodes, in the same order. -/
def matchChildren? (t : Tree) : List Pattern → List Nat → Option (List Capture)
  | [], _ => some []
  | p :: ps, nodes => firstChoice? (fun node rest =>
      if p.looksAt t node then do
        let captures ← p.matchAt? t node
        return captures ++ (← matchChildren? t ps rest)
      else
        none) nodes

end

end Pattern

/-! ## Queries -/

namespace Query

/-- The matches at a node, in the order of the patterns. -/
def matchesAt (q : Query) (t : Tree) (node : Nat) : List Match :=
  q.patterns.zipIdx.filterMap fun (pattern, number) =>
    (pattern.matchAt? t node).map (⟨number, node, ·⟩)

/-- All matches in a tree. -/
def matchesIn (q : Query) (t : Tree) : List Match :=
  (t.descendants t.rootNumber).flatMap (q.matchesAt t)

/-- What all the matches captured. -/
def capturesIn (q : Query) (t : Tree) : List Capture := (q.matchesIn t).flatMap Match.captures

theorem matchesIn_eq_nil_iff {q : Query} {t : Tree} :
    q.matchesIn t = [] ↔
      ∀ node ∈ t.descendants t.rootNumber, ∀ p ∈ q.patterns, p.matchAt? t node = none := by
  simp only [matchesIn, matchesAt, List.flatMap_eq_nil_iff, List.filterMap_eq_nil_iff,
    Option.map_eq_none_iff]
  refine forall_congr' fun node => forall_congr' fun _ => ⟨fun h p found => ?_, fun h p found => ?_⟩
  · obtain ⟨number, bound, rfl⟩ := List.getElem_of_mem found
    exact h (_, number) (List.mk_mem_zipIdx_iff_getElem?.2 (by simp [bound]))
  · exact h p.1 (List.fst_mem_of_mem_zipIdx found)

end Query

/-- The texts of the nodes that a query finds for one of its captures. -/
def Tree.captureTexts (t : Tree) (query : List Char) (name : String) :
    Except QueryError (List (List Char)) := do
  let q ← Query.ofText query
  match q.captureNumber? name with
  | none => throw (.unknownCapture name)
  | some number =>
    return ((q.capturesIn t).filter (·.number == number)).map fun c =>
      ((t.node? c.node).map t.text).getD []

end VisualBasic
