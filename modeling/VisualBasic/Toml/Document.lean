import VisualBasic.Toml.Scalar

/-!
# TOML documents

The notation of TOML: lines with a key and a value, under headers that say whose keys they are.
Blank lines and comments may stand between them, and inside an array between any two of its parts.

Nothing is said about what is wrong with a text that is no document.
-/

namespace VisualBasic.Toml

/-- A reader of a part of a document. -/
abbrev Reader := StateT (List Char) Option

/-- How many arrays and inline tables may stand one inside another. -/
def maxNesting : Nat := 80

/-- How many parts a dotted key may have. -/
def maxKeyParts : Nat := 79

/-! ## Characters and blanks -/

/-- Whether a character may stand in a string or a comment: all but the control characters, though
not the tab. -/
def isShown (c : Char) : Bool := c == '\t' || (' ' ≤ c && c != '\x7f')

def isBlank (c : Char) : Bool := c == ' ' || c == '\t'

/-- Whether a character may stand in a key without quotes. -/
def isKeyChar (c : Char) : Bool := c.isAlphanum || c == '-' || c == '_'

mutual

/-- The text without the blanks, line ends and comments at its beginning. -/
def dropLines : List Char → Option (List Char)
  | [] => some []
  | '\r' :: '\n' :: rest => dropLines rest
  | c :: rest =>
    if isBlank c || c == '\n' then dropLines rest
    else if c == '#' then dropRemark rest
    else some (c :: rest)

/-- The same for a text that begins inside a comment. -/
def dropRemark : List Char → Option (List Char)
  | [] => some []
  | '\r' :: '\n' :: rest => dropLines rest
  | c :: rest =>
    if c == '\n' then dropLines rest
    else if isShown c then dropRemark rest
    else none

end

namespace Reader

/-- The character that comes next. -/
def peek : Reader (Option Char) := return (← get).head?

/-- Moves over the next character. -/
def next : Reader Char := do
  match ← get with
  | [] => failure
  | c :: rest =>
    set rest
    return c

/-- Moves over `text` if it comes next. -/
def accept (text : String) : Reader Bool := do
  match text.toList.isPrefixOf? (← get) with
  | some rest =>
    set rest
    return true
  | none => return false

def expect (text : String) : Reader Unit := do
  unless ← accept text do failure

def skipBlanks : Reader Unit := modify (List.dropWhile isBlank)

/-- Moves over blanks, line ends and comments. -/
def skipLines : Reader Unit := do set (← (dropLines (← get) : Option (List Char)))

/-- Moves over the end of a line, in front of which a comment may stand. -/
def lineEnd : Reader Unit := do
  skipBlanks
  if ← accept "#" then modify (List.dropWhile isShown)
  unless (← peek).isNone || (← accept "\n") do expect "\r\n"

/-! ## Strings -/

/-- The character whose code is written with `count` hexadecimal digits. -/
def codePoint (count : Nat) : Reader Char := do
  let text ← get
  let digits ← ((text.take count).mapM (digit? 16) : Option (List Nat))
  let code := ofDigits 16 digits
  if digits.length = count ∧ code.isValidChar then
    set (text.drop count)
    return Char.ofNat code
  else
    failure

/-- The character that an escape behind a backslash stands for. -/
def escaped : Reader Char := do
  match ← next with
  | 'b' => return '\x08'
  | 't' => return '\t'
  | 'n' => return '\n'
  | 'f' => return '\x0c'
  | 'r' => return '\r'
  | '"' => return '"'
  | '\\' => return '\\'
  | 'u' => codePoint 4
  | 'U' => codePoint 8
  | _ => failure

/-- The rest of a string on one line, up to the closing quote. Only double quotes have escapes. The
bound is on the number of characters. -/
def line (quote : Char) : Nat → Reader (List Char)
  | 0 => failure
  | bound + 1 => do
    let c ← next
    if c == quote then return []
    else if c == '\\' && quote == '"' then return (← escaped) :: (← line quote bound)
    else if isShown c then return c :: (← line quote bound)
    else failure

/-- The rest of a string over several lines, up to three closing quotes. One or two more quotes in
front of these belong to the string. -/
def lines (quote : Char) : Nat → Reader (List Char)
  | 0 => failure
  | bound + 1 => do
    let text ← get
    let quotes := (text.takeWhile (· == quote)).length
    if 3 ≤ quotes then
      let inside := min (quotes - 3) 2
      set (text.drop (inside + 3))
      return List.replicate inside quote
    else
      let c ← next
      if c == '\\' && quote == '"' then
        -- A backslash at the end of a line joins it to the next one that is not blank.
        match (text.drop 1).dropWhile isBlank with
        | '\n' :: rest | '\r' :: '\n' :: rest =>
          set (dropEmptyLines rest)
          lines quote bound
        | _ => return (← escaped) :: (← lines quote bound)
      else if c == '\r' then
        expect "\n"
        return '\n' :: (← lines quote bound)
      else if c == '\n' || isShown c then return c :: (← lines quote bound)
      else failure
where
  /-- The text without the blanks and line ends at its beginning. -/
  dropEmptyLines : List Char → List Char
    | [] => []
    | '\r' :: '\n' :: rest => dropEmptyLines rest
    | c :: rest => if isBlank c || c == '\n' then dropEmptyLines rest else c :: rest

/-- The string that begins with a quote, on one line. -/
def quoted (quote : Char) : Reader String := do
  expect quote.toString
  return String.ofList (← line quote (← get).length)

/-- The string that begins with one quote or three. A line end right behind three quotes does not
count. -/
def string (quote : Char) : Reader String := do
  if ← accept (String.ofList [quote, quote, quote]) then
    unless ← accept "\n" do discard (accept "\r\n")
    return String.ofList (← lines quote (← get).length)
  else
    quoted quote

/-! ## Keys -/

/-- One part of a dotted key. -/
def keyPart : Reader String := do
  match ← peek with
  | some '"' => quoted '"'
  | some '\'' => quoted '\''
  | _ =>
    let part := (← get).takeWhile isKeyChar
    if part.isEmpty then failure
    modify (List.drop part.length)
    return String.ofList part

/-- The parts of a dotted key, with the blanks around them. The bound is on their number. -/
def keyParts : Nat → Reader (List String)
  | 0 => failure
  | bound + 1 => do
    skipBlanks
    let part ← keyPart
    skipBlanks
    if ← accept "." then return part :: (← keyParts bound) else return [part]

def key : Reader Key := do
  let parts ← keyParts maxKeyParts
  match parts.getLast? with
  | some last => return { path := parts.dropLast, last }
  | none => failure

/-! ## Values -/

/-- A plain value. A date and a time may be separated by a blank. -/
def scalar : Reader Value := do
  let text ← get
  let run := text.takeWhile isScalarChar
  let rest := text.dropWhile isScalarChar
  match date? run, rest with
  | some [], ' ' :: c :: rest =>
    if c.isDigit then
      set ((c :: rest).dropWhile isScalarChar)
      scalar? (run ++ ' ' :: (c :: rest).takeWhile isScalarChar)
    else
      set (' ' :: c :: rest)
      scalar? run
  | _, _ =>
    set rest
    scalar? run

/-- The rest of an array, whose items `item` reads. The bound is on their number. -/
def arrayItems (item : Reader Value) : Nat → Reader (List Value)
  | 0 => failure
  | bound + 1 => do
    skipLines
    if ← accept "]" then return []
    else
      let first ← item
      skipLines
      if ← accept "," then return first :: (← arrayItems item bound)
      else
        expect "]"
        return [first]

/-- A key and its value, which `value` reads. -/
def pair (value : Reader Value) : Reader Pair := do
  let key ← key
  expect "="
  skipBlanks
  return (key, ← value)

/-- The rest of an inline table behind its first pair. -/
def inlinePairs (value : Reader Value) : Nat → Reader (List Pair)
  | 0 => failure
  | bound + 1 => do
    let first ← pair value
    skipBlanks
    if ← accept "," then return first :: (← inlinePairs value bound)
    else
      expect "\x7d"
      return [first]

/-- A value that is no array and no inline table. -/
def simpleValue : Reader Value := do
  match ← peek with
  | some '"' => return .text (← string '"')
  | some '\'' => return .text (← string '\'')
  | _ => scalar

/-- A value in which arrays and inline tables are nested at most so deep. -/
def value : Nat → Reader Value
  | 0 => simpleValue
  | depth + 1 => do
    if ← accept "[" then
      return .array (← arrayItems (value depth) (← get).length)
    else if ← accept "\x7b" then
      skipBlanks
      if ← accept "\x7d" then Table.inline? []
      else Table.inline? (← inlinePairs (value depth) (← get).length)
    else
      simpleValue

/-! ## Documents -/

/-- The pairs up to the next header or the end, each on a line of its own. -/
def pairs : Nat → Reader (List Pair)
  | 0 => return []
  | bound + 1 => do
    skipLines
    match ← peek with
    | none | some '[' => return []
    | some _ =>
      let first ← pair (value maxNesting)
      lineEnd
      return first :: (← pairs bound)

/-- The sections up to the end. -/
def sections : Nat → Reader (List Section)
  | 0 => return []
  | bound + 1 => do
    if (← peek).isNone then return []
    else
      expect "["
      let isElement ← accept "["
      let header ← key
      expect (if isElement then "]]" else "]")
      lineEnd
      let pairs ← pairs bound
      return { header, isElement, pairs } :: (← sections bound)

end Reader

/-- The table that a text denotes, unless the text is no document. A byte order mark in front of it
does not count. -/
def document? (text : List Char) : Option Table := do
  let text := match text with
    | '\ufeff' :: rest => rest
    | text => text
  let bound := text.length + 1
  let ((pairs, sections), _) ← StateT.run
      (do return (← Reader.pairs bound, ← Reader.sections bound)) text
  Table.ofSections? pairs sections

end VisualBasic.Toml
