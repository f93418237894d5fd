import VisualBasic.Toml.Table

/-!
# Plain values of TOML

The values that are written without quotes or brackets: numbers, booleans, dates and times. Whatever
follows such a value cannot be part of one, so a value is a whole run of characters, and reading it
is deciding what the run is.

Main results:

* `Toml.grouped?_eq` — a run of digits is read as groups of digits, of which none is empty, with an
  underscore between any two.
-/

namespace VisualBasic.Toml

/-! ## Digits -/

/-- The value of a digit in a base. -/
def digit? (base : Nat) (c : Char) : Option Nat :=
  let value :=
    if c.isDigit then c.toNat - '0'.toNat
    else if 'a' ≤ c ∧ c ≤ 'f' then c.toNat - 'a'.toNat + 10
    else if 'A' ≤ c ∧ c ≤ 'F' then c.toNat - 'A'.toNat + 10
    else base
  if value < base then some value else none

/-- The digits of a run in which an underscore may stand between any two digits. -/
def grouped? (base : Nat) : List Char → Option (List Nat)
  | [] => none
  | [c] => (digit? base c).map ([·])
  | c :: '_' :: rest => do return (← digit? base c) :: (← grouped? base rest)
  | c :: rest => do return (← digit? base c) :: (← grouped? base rest)

/-- The number that digits denote, the most significant digit first. -/
def ofDigits (base : Nat) (digits : List Nat) : Nat := digits.foldl (fun n d => n * base + d) 0

/-- Whether a sign makes the number behind it negative, and what is behind it. -/
def splitSign : List Char → Bool × List Char
  | '-' :: rest => (true, rest)
  | '+' :: rest => (false, rest)
  | rest => (false, rest)

/-! ## Numbers -/

/-- A whole number without a sign, in decimal. Only zero itself begins with a zero. -/
def whole? : List Char → Option Nat
  | ['0'] => some 0
  | '0' :: _ => none
  | run => (grouped? 10 run).map (ofDigits 10)

/-- An integer that fits into sixty-four bits. -/
def integer? (run : List Char) : Option Int :=
  let number : Option Int := match run with
    | '0' :: 'x' :: digits => (grouped? 16 digits).map fun ds => ofDigits 16 ds
    | '0' :: 'o' :: digits => (grouped? 8 digits).map fun ds => ofDigits 8 ds
    | '0' :: 'b' :: digits => (grouped? 2 digits).map fun ds => ofDigits 2 ds
    | run =>
      let (isNegative, digits) := splitSign run
      (whole? digits).map fun n => if isNegative then -n else n
  number.filter fun n => -0x8000000000000000 ≤ n && n < 0x8000000000000000

/-- The exponent at the end of a floating-point number, which may be left out. -/
def exponent? : List Char → Option Int
  | [] => some 0
  | e :: rest =>
    if e == 'e' || e == 'E' then
      let (isNegative, digits) := splitSign rest
      (grouped? 10 digits).map fun ds => if isNegative then -ofDigits 10 ds else ofDigits 10 ds
    else
      none

/-- A number with a fraction or an exponent, as a significand and a power of ten. -/
def decimal? (run : List Char) : Option (Nat × Int) := do
  let inPart (c : Char) : Bool := c.isDigit || c == '_'
  let whole ← whole? (run.takeWhile inPart)
  match run.dropWhile inPart with
  | [] => none
  | '.' :: rest =>
    let digits ← grouped? 10 (rest.takeWhile inPart)
    let exponent ← exponent? (rest.dropWhile inPart)
    return (whole * Nat.pow 10 digits.length + ofDigits 10 digits, exponent - digits.length)
  | rest => return (whole, ← exponent? rest)

/-- Whether a number is too large for a double: from halfway between the largest double and the next
power of two on. -/
def overflows (significand : Nat) (exponent : Int) : Bool :=
  let bound : Nat := Nat.pow 2 1024 - Nat.pow 2 970
  let length : Int := (Nat.toDigits 10 significand).length
  -- The bound has 309 digits, which decides all but the numbers of that length.
  if significand = 0 || length + exponent < 309 then false
  else if 309 < length + exponent then true
  else if 0 ≤ exponent then bound ≤ significand * Nat.pow 10 exponent.toNat
  else bound * Nat.pow 10 (-exponent).toNat ≤ significand

/-- Whether a run is a floating-point number. A negative one may be of any size. -/
def isFloat (run : List Char) : Bool :=
  let (isNegative, body) := splitSign run
  body == ['i', 'n', 'f'] || body == ['n', 'a', 'n']
    || (decimal? body).any fun (significand, exponent) =>
      isNegative || !overflows significand exponent

/-! ## Dates and times -/

/-- The number of exactly `n` digits at the beginning of a text, and what is behind it. -/
def fixed? (n : Nat) (text : List Char) : Option (Nat × List Char) := do
  let digits ← (text.take n).mapM (digit? 10)
  if digits.length = n then return (ofDigits 10 digits, text.drop n) else none

/-- What is behind a character that must be there. -/
def behind? (c : Char) : List Char → Option (List Char)
  | [] => none
  | d :: rest => if c == d then some rest else none

def daysInMonth (year month : Nat) : Nat :=
  let isLeap := year % 4 == 0 && (year % 100 != 0 || year % 400 == 0)
  match month with
  | 2 => if isLeap then 29 else 28
  | 4 | 6 | 9 | 11 => 30
  | _ => 31

/-- What is behind the date at the beginning of a text. -/
def date? (text : List Char) : Option (List Char) := do
  let (year, text) ← fixed? 4 text
  let (month, text) ← fixed? 2 (← behind? '-' text)
  let (day, text) ← fixed? 2 (← behind? '-' text)
  if 1 ≤ month && month ≤ 12 && 1 ≤ day && day ≤ daysInMonth year month then some text else none

/-- What is behind an hour and a minute. -/
def minute? (text : List Char) : Option (List Char) := do
  let (hour, text) ← fixed? 2 text
  let (minute, text) ← fixed? 2 (← behind? ':' text)
  if hour ≤ 23 && minute ≤ 59 then some text else none

/-- What is behind the time of day at the beginning of a text. A minute may have a leap second. -/
def clock? (text : List Char) : Option (List Char) := do
  let text ← minute? text
  let (second, text) ← fixed? 2 (← behind? ':' text)
  if 60 < second then none
  else
    match text with
    | '.' :: fraction =>
      if (fraction.takeWhile Char.isDigit).isEmpty then none
      else return fraction.dropWhile Char.isDigit
    | _ => return text

/-- Whether a text says how far its time is from universal time, or nothing at all. -/
def isOffset : List Char → Bool
  | [] => true
  | sign :: rest =>
    if sign == '+' || sign == '-' then minute? rest == some []
    else (sign == 'Z' || sign == 'z') && rest.isEmpty

/-- Whether a run is a date, a time of day, or a date and a time. -/
def isTime (run : List Char) : Bool :=
  clock? run == some [] ||
    match date? run with
    | none => false
    | some [] => true
    | some (separator :: rest) =>
      (separator == 'T' || separator == 't' || separator == ' ') && (clock? rest).any isOffset

/-! ## Runs -/

/-- Whether a character can be in a plain value. -/
def isScalarChar (c : Char) : Bool :=
  c.isAlphanum || c == '+' || c == '-' || c == '.' || c == '_' || c == ':'

/-- The value that a run is. -/
def scalar? (run : List Char) : Option Value :=
  if run == ['t', 'r', 'u', 'e'] || run == ['f', 'a', 'l', 's', 'e'] then some .boolean
  else if isTime run then some .time
  else if isFloat run then some .float
  else (integer? run).map .integer

/-! ## What runs are -/

theorem digit?_underscore (base : Nat) : digit? base '_' = none := by
  simp [digit?]

theorem splitOn_underscore_cons (rest : List Char) :
    ('_' :: rest).splitOn '_' = [] :: rest.splitOn '_' := by
  rw [List.splitOn_cons_eq_if_modifyHead, if_pos (beq_self_eq_true _)]

theorem splitOn_cons {c : Char} (hc : c ≠ '_') (rest : List Char) :
    (c :: rest).splitOn '_' = (rest.splitOn '_').modifyHead (c :: ·) := by
  rw [List.splitOn_cons_eq_if_modifyHead, if_neg (by simpa using hc)]

/-- A run of digits is read as groups of digits with an underscore between any two. No group is
empty, so there is no underscore at an end and there are no two in a row. -/
theorem grouped?_eq (base : Nat) (run : List Char) : grouped? base run =
    if [] ∈ run.splitOn '_' then none else (run.splitOn '_').flatten.mapM (digit? base) := by
  fun_induction grouped? base run with
  | case1 => rfl
  | case2 c =>
    by_cases hc : c = '_'
    · subst hc
      rw [digit?_underscore, splitOn_underscore_cons]
      rfl
    · rw [splitOn_cons hc, List.splitOn_nil]
      cases hdigit : digit? base c <;> simp [hdigit]
  | case3 c rest ih =>
    by_cases hc : c = '_'
    · subst hc
      simp [digit?_underscore, splitOn_underscore_cons]
    · rw [splitOn_cons hc, splitOn_underscore_cons, ih]
      by_cases hempty : [] ∈ rest.splitOn '_'
      · simp [hempty]
      · simp [hempty, List.mapM_cons]
  | case4 c rest hne hgroup ih =>
    by_cases hc : c = '_'
    · subst hc
      simp [digit?_underscore, splitOn_underscore_cons]
    · -- The first group goes on behind the digit, and it is not empty there.
      obtain ⟨d, more, rfl⟩ := List.exists_cons_of_ne_nil hne
      obtain ⟨first, others, hgroups⟩ :=
        List.exists_cons_of_ne_nil (List.splitOn_ne_nil '_' more)
      have hd : d ≠ '_' := fun hd => hgroup more (by rw [hd])
      rw [ih, splitOn_cons hc, splitOn_cons hd, hgroups]
      by_cases hothers : [] ∈ others
      · simp [hothers]
      · simp [hothers, List.mapM_cons]

end VisualBasic.Toml
