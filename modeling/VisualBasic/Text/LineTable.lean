import VisualBasic.Text.Position

/-!
# Line tables

The offsets at which the lines of a text begin, collected once for the text. The line of an offset
is looked up among them by bisection, and its column is counted from the beginning of the line.
-/

namespace VisualBasic

namespace Text

/-- The offsets behind the line feeds of a text that begins at offset `base`. -/
def lineStartsFrom (base : Nat) : List Char → List Nat
  | [] => []
  | c :: rest =>
    let next := base + c.utf8Size
    if c = '\n' then next :: lineStartsFrom next rest else lineStartsFrom next rest

end Text

/-- The offsets at which the lines of a text begin, from the first to the last. -/
structure LineTable where
  starts : Array Nat
  deriving DecidableEq

namespace LineTable

def ofText (text : List Char) : LineTable := ⟨(0 :: Text.lineStartsFrom 0 text).toArray⟩

/-- Where a line begins; lines are counted from zero here. -/
def startOf (t : LineTable) (line : Nat) : Nat := t.starts.getD line 0

/-- The last line from `lo` on, but before `hi`, that begins at or before the offset, if `lo` is one
that does. -/
def bisect (t : LineTable) (offset lo hi : Nat) : Nat :=
  if lo + 1 < hi then
    let middle := (lo + hi) / 2
    if t.startOf middle ≤ offset then t.bisect offset middle hi else t.bisect offset lo middle
  else lo
termination_by hi - lo

/-- The line that an offset is on. -/
def lineAt (t : LineTable) (offset : Nat) : Nat := t.bisect offset 0 t.starts.size

/-- The point of an offset in the text that the table is about. -/
def pointIn (t : LineTable) (text : List Char) (offset : Nat) : Point :=
  let line := t.lineAt offset
  let behind := Span.slice ⟨t.startOf line, offset⟩ text
  ⟨line + 1, behind.length + 1⟩

end LineTable

end VisualBasic
