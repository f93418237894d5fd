/-!
# Limits

Bounds on what is parsed: the size of a source in bytes, its number of tokens, and how deeply blocks
and expressions may nest. The first two refuse a source; the third only turns what nests too deeply
into errors of the tree.

Main results:

* `Limits.validate_eq_ok_iff` — limits are accepted exactly when each of them is reasonable.
-/

namespace VisualBasic

structure Limits where
  maxInputSize : Nat := 10000000
  maxTokenCount : Nat := 1000000
  maxNestingDepth : Nat := 256
  deriving DecidableEq, Repr, Inhabited

/-- The limits by name. -/
inductive LimitName where
  | maxInputSize | maxTokenCount | maxNestingDepth
  deriving DecidableEq, Repr, Inhabited

namespace LimitName

def toText : LimitName → String
  | maxInputSize => "max_input_size"
  | maxTokenCount => "max_token_count"
  | maxNestingDepth => "max_nesting_depth"

/-- All limits, in the order in which they are checked. -/
def all : List LimitName := [maxInputSize, maxTokenCount, maxNestingDepth]

def ofText? (text : String) : Option LimitName := all.find? (·.toText == text)

/-- The largest value that the limit may have. -/
def bound : LimitName → Nat
  | maxInputSize | maxTokenCount => 100000000
  | maxNestingDepth => 10000

theorem mem_all (name : LimitName) : name ∈ all := by
  cases name <;> decide

theorem ofText?_toText (name : LimitName) : ofText? name.toText = some name := by
  cases name <;> decide

end LimitName

inductive LimitError where
  | invalid (name : LimitName) (value : Nat)
  | inputTooLarge (size max : Nat)
  | tooManyTokens (count max : Nat)
  deriving DecidableEq, Repr

def LimitError.message : LimitError → String
  | invalid name value =>
    s!"Invalid limit '{name.toText}': {value} (must be positive and reasonable)"
  | inputTooLarge size max => s!"Input too large: {size} bytes (max: {max} bytes)"
  | tooManyTokens count max => s!"Token limit exceeded: {count} tokens (max: {max})"

namespace Limits

def get (l : Limits) : LimitName → Nat
  | .maxInputSize => l.maxInputSize
  | .maxTokenCount => l.maxTokenCount
  | .maxNestingDepth => l.maxNestingDepth

def set (l : Limits) (value : Nat) : LimitName → Limits
  | .maxInputSize => { l with maxInputSize := value }
  | .maxTokenCount => { l with maxTokenCount := value }
  | .maxNestingDepth => { l with maxNestingDepth := value }

/-- Whether a limit is positive and not beyond reason. -/
def isReasonable (l : Limits) (name : LimitName) : Bool :=
  0 < l.get name && l.get name ≤ name.bound

/-- Refuses limits of which one is not reasonable; the first such limit is named. -/
def validate (l : Limits) : Except LimitError Unit :=
  match LimitName.all.find? (!l.isReasonable ·) with
  | some name => .error (.invalid name (l.get name))
  | none => .ok ()

/-- Refuses a source of more bytes than allowed. -/
def checkInput (l : Limits) (size : Nat) : Except LimitError Unit :=
  if l.maxInputSize < size then .error (.inputTooLarge size l.maxInputSize) else .ok ()

/-- Refuses a source of more tokens than allowed. -/
def checkTokenCount (l : Limits) (count : Nat) : Except LimitError Unit :=
  if l.maxTokenCount < count then .error (.tooManyTokens count l.maxTokenCount) else .ok ()

theorem get_set (l : Limits) (value : Nat) (name : LimitName) :
    (l.set value name).get name = value := by
  cases name <;> rfl

theorem validate_eq_ok_iff {l : Limits} :
    l.validate = .ok () ↔ ∀ name, l.isReasonable name = true := by
  unfold validate
  split
  · rename_i name found
    refine iff_of_false (by simp) fun h => ?_
    simpa [h name] using List.find?_some found
  · rename_i none
    refine iff_of_true rfl fun name => ?_
    simpa using List.find?_eq_none.1 none name (LimitName.mem_all name)

end Limits

end VisualBasic
