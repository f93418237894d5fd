import VisualBasic.Text.Position
import VisualBasic.Token.Lexeme

/-!
# Token streams

A source text cut into tokens and the trivia between them. A scanner walks over the text and cuts
off one piece at a time; the stream collects the pieces. The last token of a stream marks the end of
the text, and asking for a token behind it gives it again.

Main results:

* `Scanner.length_rest_step` — every step leaves less text.
* `TokenStream.kindAt_of_size_le` — behind the last token there is nothing but the end of the text.
* `TokenStream.le_firstFrom` — a search for a token never goes back.
-/

namespace VisualBasic

structure Token where
  kind : TokenKind
  span : Span
  point : Point
  deriving DecidableEq, Repr, Inhabited

/-- Text that is skipped between tokens. -/
structure Trivia where
  kind : TriviaKind
  span : Span
  deriving DecidableEq, Repr, Inhabited

/-! ## Lexical errors -/

/-- Why a character begins no token. -/
inductive Fault where
  | unexpected (c : Char)
  | unterminatedString
  | unterminatedName
  deriving DecidableEq, Repr

namespace Fault

/-- The fault of a character that begins no token: a quote and a bracket do so only where they are
not closed. -/
def ofChar : Char → Fault
  | '"' => unterminatedString
  | '[' => unterminatedName
  | c => unexpected c

def message : Fault → String
  | unexpected c => s!"Unexpected character: '{c}'"
  | unterminatedString => "Unterminated string literal"
  | unterminatedName => "Unterminated escaped identifier"

end Fault

structure LexicalError where
  fault : Fault
  span : Span
  point : Point
  deriving DecidableEq, Repr

namespace LexicalError

/-- The token that stands in the stream for the character at fault. -/
def token (e : LexicalError) : Token := ⟨.invalid, e.span, e.point⟩

def toText (e : LexicalError) : String :=
  s!"Lexical error at {e.point.toText}: {e.fault.message}"

end LexicalError

/-! ## Scanning -/

/-- A stretch of source text: trivia, a token, or a character that begins no token. -/
inductive Piece where
  | trivia (t : Trivia)
  | token (t : Token)
  | error (e : LexicalError)
  deriving DecidableEq, Repr

namespace Piece

def token? : Piece → Option Token
  | trivia _ => none
  | token t => some t
  | error e => some e.token

def trivia? : Piece → Option Trivia
  | trivia t => some t
  | _ => none

def error? : Piece → Option LexicalError
  | error e => some e
  | _ => none

end Piece

/-- A place in a source and the text that follows it. -/
structure Scanner where
  position : Position
  rest : List Char

namespace Scanner

def ofText (text : List Char) : Scanner := ⟨Position.origin, text⟩

/-- The scanner `n` characters on. -/
def advance (s : Scanner) (n : Nat) : Scanner :=
  ⟨s.position.after (s.rest.take n), s.rest.drop n⟩

/-- The span of the next `n` characters. -/
def span (s : Scanner) (n : Nat) : Span := ⟨s.position.offset, (s.advance n).position.offset⟩

/-- The mark of the end of the text at this place. -/
def endToken (s : Scanner) : Token :=
  ⟨.endOfFile, ⟨s.position.offset, s.position.offset⟩, s.position.point⟩

/-- The piece at this place and the scanner behind it, if there is text left. -/
def step? (s : Scanner) : Option (Piece × Scanner) :=
  match s.rest with
  | [] => none
  | c :: rest =>
    match Trivia.shape? (c :: rest) with
    | some (kind, n) => some (.trivia ⟨kind, s.span n⟩, s.advance n)
    | none =>
      let lexeme := Lexeme.ofText (c :: rest)
      let span := s.span lexeme.length
      let piece := match lexeme.kind with
        | .invalid => Piece.error ⟨Fault.ofChar c, span, s.position.point⟩
        | kind => Piece.token ⟨kind, span, s.position.point⟩
      some (piece, s.advance lexeme.length)

theorem length_rest_advance {s : Scanner} {n : Nat} (h : 0 < n) (ne : s.rest ≠ []) :
    (s.advance n).rest.length < s.rest.length := by
  have := List.length_pos_iff.2 ne
  simp only [advance, List.length_drop]
  omega

theorem length_rest_step {s s' : Scanner} {p : Piece} (h : s.step? = some (p, s')) :
    s'.rest.length < s.rest.length := by
  unfold step? at h
  split at h
  · simp at h
  · rename_i c rest hrest
    have ne : s.rest ≠ [] := by simp [hrest]
    split at h
    · rename_i shape
      obtain ⟨-, rfl⟩ := Prod.mk.inj (Option.some.inj h)
      exact length_rest_advance (Trivia.shape?_pos shape) ne
    · obtain ⟨-, rfl⟩ := Prod.mk.inj (Option.some.inj h)
      exact length_rest_advance (Lexeme.length_ofText_pos c rest) ne

/-- All pieces from here on, put in front of those in `found` with the latest first, and the place
where the text ends. -/
def scan (s : Scanner) (found : List Piece) : List Piece × Scanner :=
  match h : s.step? with
  | none => (found, s)
  | some (piece, s') =>
    have := length_rest_step h
    scan s' (piece :: found)
termination_by s.rest.length

/-- The next token and the scanner behind it; trivia is skipped. At the end of the text the scanner
stays where it is and gives the mark of the end for ever. -/
def next (s : Scanner) : Token × Scanner :=
  match h : s.step? with
  | none => (s.endToken, s)
  | some (piece, s') =>
    match piece.token? with
    | some token => (token, s')
    | none =>
      have := length_rest_step h
      next s'
termination_by s.rest.length

/-- The first `n` tokens from here on. -/
def tokens : Nat → Scanner → List Token
  | 0, _ => []
  | n + 1, s => s.next.1 :: tokens n s.next.2

end Scanner

/-! ## Streams -/

/-- The tokens of a source but for the last, which marks its end; the trivia between them; and the
lexical errors, each of which stands among the tokens as an invalid one. -/
structure TokenStream where
  tokens : Array Token
  last : Token
  trivia : List Trivia
  errors : List LexicalError
  deriving Inhabited

namespace TokenStream

def ofText (text : List Char) : TokenStream :=
  let (found, stop) := (Scanner.ofText text).scan []
  let pieces := found.reverse
  { tokens := (pieces.filterMap Piece.token?).toArray
    last := stop.endToken
    trivia := pieces.filterMap Piece.trivia?
    errors := pieces.filterMap Piece.error? }

/-- The number of tokens, the last one included. -/
def size (s : TokenStream) : Nat := s.tokens.size + 1

def toList (s : TokenStream) : List Token := s.tokens.toList ++ [s.last]

/-- The token at an index, or the last one behind the end. -/
def get (s : TokenStream) (i : Nat) : Token := s.tokens[i]?.getD s.last

/-- The kind of the token at an index, or that of the end of the text behind the end. -/
def kindAt (s : TokenStream) (i : Nat) : TokenKind :=
  match s.tokens[i]? with
  | some token => token.kind
  | none => .endOfFile

/-- The first index from `i` on at which there is a token of the class, or the end of the text. -/
def firstFrom (s : TokenStream) (p : TokenKind → Bool) (i : Nat) : Nat :=
  if p (s.kindAt i) then i
  else if i < s.tokens.size then firstFrom s p (i + 1)
  else i
termination_by s.tokens.size - i

/-- Whether one of the tokens from `i` up to, but without, `j` is of the class. -/
def someIn (s : TokenStream) (p : TokenKind → Bool) (i j : Nat) : Bool :=
  (List.range' i (j - i)).any fun k => p (s.kindAt k)

/-- The first index from `i` on whose token ends a line. -/
def lineEnd (s : TokenStream) (i : Nat) : Nat := s.firstFrom TokenKind.endsLine i

/-- The spans of all tokens and trivia that are not empty, from the first to the last. -/
def spans (s : TokenStream) : List Span :=
  let all := s.toList.map Token.span ++ s.trivia.map Trivia.span
  (all.filter fun span => span.start < span.stop).mergeSort fun a b =>
    a.start < b.start || (a.start == b.start && a.stop ≤ b.stop)

/-- The text that the tokens and the trivia cover, put together again from a source. -/
def reassemble (s : TokenStream) (source : List Char) : List Char :=
  s.spans.flatMap fun span => span.slice source

/-! ## Looking ahead -/

theorem kindAt_of_size_le {s : TokenStream} {i : Nat} (h : s.tokens.size ≤ i) :
    s.kindAt i = .endOfFile := by
  simp [kindAt, h]

theorem get_of_size_le {s : TokenStream} {i : Nat} (h : s.tokens.size ≤ i) :
    s.get i = s.last := by
  simp [get, h]

theorem le_firstFrom (s : TokenStream) (p : TokenKind → Bool) (i : Nat) : i ≤ s.firstFrom p i := by
  fun_induction firstFrom s p i with
  | case1 => exact Nat.le_refl _
  | case2 _ _ _ ih => omega
  | case3 => exact Nat.le_refl _

theorem le_lineEnd (s : TokenStream) (i : Nat) : i ≤ s.lineEnd i := s.le_firstFrom _ i

theorem kind_get_of_lt {s : TokenStream} {i : Nat} (h : i < s.tokens.size) :
    (s.get i).kind = s.kindAt i := by
  simp [get, kindAt, h]

end TokenStream

end VisualBasic
