import VisualBasic.Text.Case

/-!
# Reserved words

The words of the language that are not free to be names everywhere, with the classes the grammar
asks about: declaration modifiers, built-in types, words that are reserved only in a few positions,
and constants.

Main results:

* `Keyword.mem_all` — `Keyword.all` lists every word.
* `Keyword.foldCase_eq_of_ofText?` — a word is found only under its own spelling.
* `Keyword.ofText?_congr` — looking a word up is blind to the case of ASCII letters.
-/

namespace VisualBasic

/-- A reserved word. -/
inductive Keyword where
  | kwAddHandler | kwAddressOf | kwAnd | kwAndAlso | kwAs | kwAsync | kwBinary | kwBoolean
  | kwByRef | kwByte | kwByVal | kwCall | kwCase | kwCatch | kwChar | kwClass | kwCompare
  | kwConst | kwContinue | kwCustom | kwDate | kwDecimal | kwDefault | kwDelegate | kwDim | kwDo
  | kwDouble | kwEach | kwElse | kwElseIf | kwEnd | kwEnum | kwEvent | kwExit | kwExplicit
  | kwFalse | kwFinally | kwFor | kwFriend | kwFrom | kwFunction | kwGet | kwGoTo | kwHandles
  | kwIf | kwImplements | kwImports | kwIn | kwInfer | kwInherits | kwInteger | kwInterface
  | kwIs | kwIsNot | kwIterator | kwLike | kwLong | kwLoop | kwMod | kwModule | kwMustInherit
  | kwMustOverride | kwNamespace | kwNarrowing | kwNew | kwNext | kwNot | kwNotInheritable
  | kwNotOverridable | kwNothing | kwObject | kwOf | kwOff | kwOn | kwOption | kwOptional | kwOr
  | kwOrElse | kwOverloads | kwOverridable | kwOverrides | kwParamArray | kwPartial | kwPreserve
  | kwPrivate | kwProperty | kwProtected | kwPublic | kwRaiseEvent | kwReadOnly | kwReDim
  | kwRemoveHandler | kwReturn | kwSelect | kwSet | kwShadows | kwShared | kwShort | kwSingle
  | kwStatic | kwStep | kwStrict | kwString | kwStructure | kwSub | kwSyncLock | kwText | kwThen
  | kwThrow | kwTo | kwTrue | kwTry | kwTypeOf | kwUntil | kwUsing | kwWhen | kwWhile
  | kwWidening | kwWith | kwWithEvents | kwWriteOnly | kwXor
  deriving DecidableEq, Repr, Inhabited

namespace Keyword

/-- The canonical spelling. -/
def spelling : Keyword → String
  | .kwAddHandler => "AddHandler"
  | .kwAddressOf => "AddressOf"
  | .kwAnd => "And"
  | .kwAndAlso => "AndAlso"
  | .kwAs => "As"
  | .kwAsync => "Async"
  | .kwBinary => "Binary"
  | .kwBoolean => "Boolean"
  | .kwByRef => "ByRef"
  | .kwByte => "Byte"
  | .kwByVal => "ByVal"
  | .kwCall => "Call"
  | .kwCase => "Case"
  | .kwCatch => "Catch"
  | .kwChar => "Char"
  | .kwClass => "Class"
  | .kwCompare => "Compare"
  | .kwConst => "Const"
  | .kwContinue => "Continue"
  | .kwCustom => "Custom"
  | .kwDate => "Date"
  | .kwDecimal => "Decimal"
  | .kwDefault => "Default"
  | .kwDelegate => "Delegate"
  | .kwDim => "Dim"
  | .kwDo => "Do"
  | .kwDouble => "Double"
  | .kwEach => "Each"
  | .kwElse => "Else"
  | .kwElseIf => "ElseIf"
  | .kwEnd => "End"
  | .kwEnum => "Enum"
  | .kwEvent => "Event"
  | .kwExit => "Exit"
  | .kwExplicit => "Explicit"
  | .kwFalse => "False"
  | .kwFinally => "Finally"
  | .kwFor => "For"
  | .kwFriend => "Friend"
  | .kwFrom => "From"
  | .kwFunction => "Function"
  | .kwGet => "Get"
  | .kwGoTo => "GoTo"
  | .kwHandles => "Handles"
  | .kwIf => "If"
  | .kwImplements => "Implements"
  | .kwImports => "Imports"
  | .kwIn => "In"
  | .kwInfer => "Infer"
  | .kwInherits => "Inherits"
  | .kwInteger => "Integer"
  | .kwInterface => "Interface"
  | .kwIs => "Is"
  | .kwIsNot => "IsNot"
  | .kwIterator => "Iterator"
  | .kwLike => "Like"
  | .kwLong => "Long"
  | .kwLoop => "Loop"
  | .kwMod => "Mod"
  | .kwModule => "Module"
  | .kwMustInherit => "MustInherit"
  | .kwMustOverride => "MustOverride"
  | .kwNamespace => "Namespace"
  | .kwNarrowing => "Narrowing"
  | .kwNew => "New"
  | .kwNext => "Next"
  | .kwNot => "Not"
  | .kwNotInheritable => "NotInheritable"
  | .kwNotOverridable => "NotOverridable"
  | .kwNothing => "Nothing"
  | .kwObject => "Object"
  | .kwOf => "Of"
  | .kwOff => "Off"
  | .kwOn => "On"
  | .kwOption => "Option"
  | .kwOptional => "Optional"
  | .kwOr => "Or"
  | .kwOrElse => "OrElse"
  | .kwOverloads => "Overloads"
  | .kwOverridable => "Overridable"
  | .kwOverrides => "Overrides"
  | .kwParamArray => "ParamArray"
  | .kwPartial => "Partial"
  | .kwPreserve => "Preserve"
  | .kwPrivate => "Private"
  | .kwProperty => "Property"
  | .kwProtected => "Protected"
  | .kwPublic => "Public"
  | .kwRaiseEvent => "RaiseEvent"
  | .kwReadOnly => "ReadOnly"
  | .kwReDim => "ReDim"
  | .kwRemoveHandler => "RemoveHandler"
  | .kwReturn => "Return"
  | .kwSelect => "Select"
  | .kwSet => "Set"
  | .kwShadows => "Shadows"
  | .kwShared => "Shared"
  | .kwShort => "Short"
  | .kwSingle => "Single"
  | .kwStatic => "Static"
  | .kwStep => "Step"
  | .kwStrict => "Strict"
  | .kwString => "String"
  | .kwStructure => "Structure"
  | .kwSub => "Sub"
  | .kwSyncLock => "SyncLock"
  | .kwText => "Text"
  | .kwThen => "Then"
  | .kwThrow => "Throw"
  | .kwTo => "To"
  | .kwTrue => "True"
  | .kwTry => "Try"
  | .kwTypeOf => "TypeOf"
  | .kwUntil => "Until"
  | .kwUsing => "Using"
  | .kwWhen => "When"
  | .kwWhile => "While"
  | .kwWidening => "Widening"
  | .kwWith => "With"
  | .kwWithEvents => "WithEvents"
  | .kwWriteOnly => "WriteOnly"
  | .kwXor => "Xor"

/-- Every reserved word, in the order of the spellings. -/
def all : List Keyword :=
  [.kwAddHandler, .kwAddressOf, .kwAnd, .kwAndAlso, .kwAs, .kwAsync, .kwBinary, .kwBoolean,
   .kwByRef, .kwByte, .kwByVal, .kwCall, .kwCase, .kwCatch, .kwChar, .kwClass, .kwCompare,
   .kwConst, .kwContinue, .kwCustom, .kwDate, .kwDecimal, .kwDefault, .kwDelegate, .kwDim,
   .kwDo, .kwDouble, .kwEach, .kwElse, .kwElseIf, .kwEnd, .kwEnum, .kwEvent, .kwExit,
   .kwExplicit, .kwFalse, .kwFinally, .kwFor, .kwFriend, .kwFrom, .kwFunction, .kwGet, .kwGoTo,
   .kwHandles, .kwIf, .kwImplements, .kwImports, .kwIn, .kwInfer, .kwInherits, .kwInteger,
   .kwInterface, .kwIs, .kwIsNot, .kwIterator, .kwLike, .kwLong, .kwLoop, .kwMod, .kwModule,
   .kwMustInherit, .kwMustOverride, .kwNamespace, .kwNarrowing, .kwNew, .kwNext, .kwNot,
   .kwNotInheritable, .kwNotOverridable, .kwNothing, .kwObject, .kwOf, .kwOff, .kwOn, .kwOption,
   .kwOptional, .kwOr, .kwOrElse, .kwOverloads, .kwOverridable, .kwOverrides, .kwParamArray,
   .kwPartial, .kwPreserve, .kwPrivate, .kwProperty, .kwProtected, .kwPublic, .kwRaiseEvent,
   .kwReadOnly, .kwReDim, .kwRemoveHandler, .kwReturn, .kwSelect, .kwSet, .kwShadows, .kwShared,
   .kwShort, .kwSingle, .kwStatic, .kwStep, .kwStrict, .kwString, .kwStructure, .kwSub,
   .kwSyncLock, .kwText, .kwThen, .kwThrow, .kwTo, .kwTrue, .kwTry, .kwTypeOf, .kwUntil,
   .kwUsing, .kwWhen, .kwWhile, .kwWidening, .kwWith, .kwWithEvents, .kwWriteOnly, .kwXor]

/-- Words that may stand before a declaration, such as `Public` or `Shared`. -/
def isModifier : Keyword → Bool
  | .kwAsync | .kwCustom | .kwDefault | .kwFriend | .kwIterator | .kwMustInherit
  | .kwMustOverride | .kwNarrowing | .kwNotInheritable | .kwNotOverridable | .kwOverloads
  | .kwOverridable | .kwOverrides | .kwPartial | .kwPrivate | .kwProtected | .kwPublic
  | .kwReadOnly | .kwShadows | .kwShared | .kwStatic | .kwWidening | .kwWithEvents
  | .kwWriteOnly => true
  | _ => false

/-- Names of the built-in types. -/
def isPrimitiveType : Keyword → Bool
  | .kwBoolean | .kwByte | .kwChar | .kwDate | .kwDecimal | .kwDouble | .kwInteger | .kwLong
  | .kwObject | .kwShort | .kwSingle | .kwString => true
  | _ => false

/-- Words that are reserved only in a few positions and are names everywhere else. -/
def isContextual : Keyword → Bool
  | .kwAsync | .kwBinary | .kwCompare | .kwCustom | .kwExplicit | .kwFrom | .kwInfer
  | .kwIterator | .kwOff | .kwOn | .kwPreserve | .kwStrict | .kwText | .kwUntil | .kwWhen => true
  | _ => false

/-- `True`, `False` and `Nothing`. -/
def isConstant : Keyword → Bool
  | .kwFalse | .kwNothing | .kwTrue => true
  | _ => false

/-- Whether the word may stand where a name is expected. -/
def isNameLike (k : Keyword) : Bool := k.isContextual || k.isPrimitiveType

/-- The reserved word with the given spelling, whatever the case of its letters. -/
def ofText? (text : List Char) : Option Keyword :=
  all.find? fun k => Text.foldCase k.spelling.toList == Text.foldCase text

/-! ## The table and the look-up -/

theorem mem_all (k : Keyword) : k ∈ all :=
  List.mem_of_getElem? (show all[k.ctorIdx]? = some k by cases k <;> rfl)

theorem foldCase_eq_of_ofText? {text : List Char} {k : Keyword} (h : ofText? text = some k) :
    Text.foldCase k.spelling.toList = Text.foldCase text := by
  have found := List.find?_some h
  simpa using found

theorem ofText?_congr {s t : List Char} (h : Text.foldCase s = Text.foldCase t) :
    ofText? s = ofText? t := by
  simp only [ofText?, h]

end Keyword

end VisualBasic
