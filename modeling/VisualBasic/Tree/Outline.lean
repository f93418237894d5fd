import VisualBasic.Text.Quoted
import VisualBasic.Text.WhiteSpace
import VisualBasic.Tree

/-!
# Outlines

The named structure of a tree with one line for each named node, indented by its depth: the role
that it plays, its rule, where it begins and ends, and, if nothing named is in it, its text.
-/

namespace VisualBasic

namespace Tree

/-- The line of a node, without its indent. -/
def outlineLine (t : Tree) (n : Node) : String :=
  let role := match n.field with
    | some f => s!"{f.toText}: "
    | none => ""
  let incomplete := if n.flags.isPartial then " (partial)" else ""
  let text := if n.namedChildren.isEmpty && !n.span.isEmpty then
      " " ++ Text.quoted (Text.trimEnd (t.text n))
    else ""
  s!"{role}{n.kind.name} [{(t.startPoint n).toText} - {(t.stopPoint n).toText}]"
    ++ incomplete ++ text

mutual

/-- The lines of a node at a depth, put behind the lines before it. -/
def outlineOf (t : Tree) (depth : Nat) (lines : Array String) : Node → Array String
  | .mk info children =>
    let indent := String.ofList (List.replicate (2 * depth) ' ')
    outlinesOf t (depth + 1) (lines.push (indent ++ t.outlineLine (.mk info children))) children

def outlinesOf (t : Tree) (depth : Nat) (lines : Array String) : List Node → Array String
  | [] => lines
  | n :: rest =>
    let lines := if n.isNamed then outlineOf t depth lines n else lines
    outlinesOf t depth lines rest

end

/-- The lines of the outline, from the root on. -/
def outline (t : Tree) : List String := (t.outlineOf 0 #[] t.root).toList

/-- The outline as a text of whole lines. -/
def outlineText (t : Tree) : String := String.join (t.outline.map (· ++ "\n"))

end Tree

end VisualBasic
