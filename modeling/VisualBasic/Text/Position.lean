/-!
# Positions in a text

Two ways to say where something stands in a text. *Offsets* count the bytes of the UTF-8 encoding
and are what spans are made of; *points* are lines and columns, both counted from one, for people. A
line ends at a line feed and at nothing else, and a column counts characters.

Main results:

* `Position.after_append` — walking over two texts is walking over one and then the other.
* `Position.offset_after` — a walk moves the offset by the bytes walked over.
-/

namespace VisualBasic

namespace Text

/-- The number of bytes in the UTF-8 encoding of the text. -/
def byteLength : List Char → Nat
  | [] => 0
  | c :: rest => c.utf8Size + byteLength rest

/-- The characters that begin before byte `n`. -/
def takeBytes : List Char → Nat → List Char
  | [], _ => []
  | _ :: _, 0 => []
  | c :: rest, n + 1 => c :: takeBytes rest (n + 1 - c.utf8Size)

/-- What is left after the characters that begin before byte `n`. -/
def dropBytes : List Char → Nat → List Char
  | [], _ => []
  | c :: rest, 0 => c :: rest
  | c :: rest, n + 1 => dropBytes rest (n + 1 - c.utf8Size)

end Text

/-- A range of bytes; `stop` is the first offset after it. -/
structure Span where
  start : Nat
  stop : Nat
  deriving DecidableEq, Repr, Inhabited

namespace Span

/-- The number of bytes in the range. -/
def length (s : Span) : Nat := s.stop - s.start

def isEmpty (s : Span) : Bool := s.start == s.stop

/-- Whether `inner` lies within `outer`, ends included. -/
def contains (outer inner : Span) : Bool :=
  outer.start ≤ inner.start && inner.stop ≤ outer.stop

/-- The part of the text that the range covers. -/
def slice (s : Span) (text : List Char) : List Char :=
  Text.takeBytes (Text.dropBytes text s.start) s.length

end Span

/-- A line and a column, both counted from one. -/
structure Point where
  line : Nat
  column : Nat
  deriving DecidableEq, Repr, Inhabited

namespace Point

/-- Where every text begins. -/
def origin : Point := ⟨1, 1⟩

/-- The point behind a character that stands at the given point. -/
def next (p : Point) (c : Char) : Point :=
  if c = '\n' then ⟨p.line + 1, 1⟩ else ⟨p.line, p.column + 1⟩

def toText (p : Point) : String := s!"{p.line}:{p.column}"

end Point

/-- An offset together with its point. -/
structure Position where
  offset : Nat
  point : Point
  deriving DecidableEq, Repr, Inhabited

namespace Position

def origin : Position := ⟨0, Point.origin⟩

/-- The position behind a text that begins at the given position. -/
def after (p : Position) (text : List Char) : Position :=
  ⟨p.offset + Text.byteLength text, text.foldl Point.next p.point⟩

end Position

/-! ## Walking -/

theorem Text.byteLength_append (s t : List Char) :
    Text.byteLength (s ++ t) = Text.byteLength s + Text.byteLength t := by
  induction s with
  | nil => simp [Text.byteLength]
  | cons c rest ih => simp [Text.byteLength, ih, Nat.add_assoc]

namespace Position

@[simp]
theorem offset_after (p : Position) (text : List Char) :
    (p.after text).offset = p.offset + Text.byteLength text := rfl

@[simp]
theorem after_nil (p : Position) : p.after [] = p := by
  simp [after, Text.byteLength]

theorem after_append (p : Position) (s t : List Char) :
    p.after (s ++ t) = (p.after s).after t := by
  simp [after, Text.byteLength_append, Nat.add_assoc]

end Position

end VisualBasic
