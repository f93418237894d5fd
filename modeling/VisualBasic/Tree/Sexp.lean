import VisualBasic.Tree

/-!
# S-expressions

The named structure of a tree on one line: a parenthesis for each named node, with its rule and its
named children, each behind the role that it plays. Anonymous nodes do not show.
-/

namespace VisualBasic

namespace Node

/-- What stands before a child: a space and, if it plays a role, the role and a colon. -/
def sexpLead (n : Node) : String :=
  match n.field with
  | some f => s!" {f.toText}: "
  | none => " "

mutual

/-- The s-expression of a node. -/
def sexp : Node → String
  | mk info children => "(" ++ info.kind.name ++ sexpsNamed children ++ ")"

/-- The s-expressions of the named ones among the nodes, each with its lead. -/
def sexpsNamed : List Node → String
  | [] => ""
  | n :: rest =>
    if n.isNamed then n.sexpLead ++ n.sexp ++ sexpsNamed rest else sexpsNamed rest

end

end Node

def Tree.sexp (t : Tree) : String := t.root.sexp

end VisualBasic
