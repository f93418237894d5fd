import VisualBasic.Proofs.Watching
import VisualBasic.Proofs.Declaration

/-!
# Watching statements and calls

Where only statements and calls are watched, what takes one line and has no call on it passes
nothing on that is watched, and neither do the lines that open blocks and declarations.

* `SparesLines` — neither lines nor declarations are watched.

Main results:

* `Yields.line` — a line is clear if what is on it is.
* `Yields.routineHeader` — the line that opens a routine.
-/

namespace VisualBasic

/-- The rules of all nodes but statements and calls. -/
@[reducible] def Rule.isLine : Rule → Bool
  | .statement | .callStatement => false
  | _ => true

/-- Of all nodes only statements and calls are watched. -/
class SparesLines (w : Watch) : Prop where
  unwatched : ∀ r : Rule, r.isLine = true → w.watches r = false

namespace Production

open Watch

namespace Yields

variable {w : Watch} [hw : SparesLines w]

/-- Parts of expressions and clauses are not watched either. -/
instance sparesParts : SparesParts w :=
  ⟨fun r hr => hw.unwatched r (by cases r <;> first | rfl | cases hr)⟩

/-- Whether a rule is watched is read off the rule. -/
instance unwatchedLine {r : Rule} [hr : Holds r.isLine] : Unwatched w r :=
  ⟨hw.unwatched r hr.eq_true⟩

-- ---------------------------------------------------------------------------
-- Simple statements
-- ---------------------------------------------------------------------------

set_option synthInstance.maxSize 4000

omit hw in
/-- A line is clear if it is not watched itself and what is on it is clear. -/
instance line {r : Rule} [Unwatched w r] {content : Parse Unit} [Yields w content] :
    Yields w (Production.line r content) := by
  unfold Production.line
  infer_instance

omit hw in
/-- The same for content that no instance is found for. -/
theorem lineOf {r : Rule} [Unwatched w r] {content : Parse Unit} (_ : Yields w content) :
    Yields w (Production.line r content) :=
  line

instance valueStatement {r : Rule} [Unwatched w r] : Yields w (Production.valueStatement r) := by
  unfold Production.valueStatement Production.atTerminator
  infer_instance

instance labelStatement : Yields w Production.labelStatement := by
  unfold Production.labelStatement
  infer_instance

instance assignmentStatement : Yields w Production.assignmentStatement := by
  unfold Production.assignmentStatement
  dsimp only
  infer_instance

instance dimStatement : Yields w Production.dimStatement := by
  unfold Production.dimStatement
  infer_instance

instance constDeclaration : Yields w Production.constDeclaration := by
  unfold Production.constDeclaration
  infer_instance

instance directive : Yields w Production.directive := by
  unfold Production.directive
  infer_instance

instance exitStatement : Yields w Production.exitStatement := by
  unfold Production.exitStatement
  infer_instance

/-- What is continued is a word, which is seen before it is read. -/
instance continueStatement : Yields w Production.continueStatement := by
  -- The instances do not look into a match, so the kinds are gone through here.
  refine lineOf (behind fun _ => behind fun kind => ?_)
  split <;> infer_instance

instance goToStatement : Yields w Production.goToStatement := by
  unfold Production.goToStatement
  infer_instance

/-- The loop over accesses hands on a node that is not attached yet, so the node has to be clear
in every round. -/
instance reDimStatement : Yields w Production.reDimStatement := by
  have harray : Yields w (do
      let array ← Production.iterate (fun array => do
        if ← Production.atKind (.mark .dot) then Option.some <$> Production.memberAccess array
        else return none) (← Production.identifier)
      Production.attachIn .array array
      Production.child (Production.nested Production.arrayBounds)) := by
    refine into fun _ => ?_
    exact bind (iterate fun _ => inferInstance) fun _ _ => inferInstance
  unfold Production.reDimStatement
  infer_instance

instance handlerStatement {r : Rule} [Unwatched w r] :
    Yields w (Production.handlerStatement r) := by
  unfold Production.handlerStatement
  infer_instance

instance raiseEventStatement : Yields w Production.raiseEventStatement := by
  unfold Production.raiseEventStatement
  infer_instance

/-- A call that is not watched. -/
theorem callUnwatched [Unwatched w .callStatement] : Yields w Production.callStatement := by
  unfold Production.callStatement
  infer_instance

-- ---------------------------------------------------------------------------
-- Headers of blocks
-- ---------------------------------------------------------------------------

/-- A case holds expressions and leaves. -/
instance caseClause : Yields w Production.caseClause := by
  unfold Production.caseClause
  dsimp only
  infer_instance

instance optionalLoopCondition : Yields w Production.optionalLoopCondition := by
  unfold Production.optionalLoopCondition Production.atLoopCondition
  infer_instance

/-- The header of a handler holds a name, a type and an expression. -/
instance catchHeader : Yields w Production.catchHeader := by
  unfold Production.catchHeader
  dsimp only
  infer_instance

instance resources : Yields w Production.resources := by
  unfold Production.resources
  infer_instance

-- ---------------------------------------------------------------------------
-- Declarations
-- ---------------------------------------------------------------------------

/-- Looking behind attributes and modifiers attaches nothing. -/
instance peekBehindPrefix : Yields w Production.peekBehindPrefix :=
  of_looks (fun _ _ => rfl) fun _ => ⟨clears_nil⟩

/-- A blank line is a leaf. -/
instance blankLine : Yields w Production.blankLine := by
  unfold Production.blankLine
  infer_instance

/-- The line of a routine behind its word. -/
instance signature {isFunction : Bool} : Yields w (Production.signature isFunction) := by
  unfold Production.signature
  dsimp only
  infer_instance

/-- Which word opens a routine is seen before it is read. -/
@[instance]
theorem routineHeader {isConstructor : Bool} :
    Yields w (Production.routineHeader isConstructor) := by
  refine behind fun _ => behind fun _ => behind fun kind => ?_
  dsimp only
  split <;> infer_instance

/-- A routine without a body is its line. -/
instance routineWithoutBody {r : Rule} [Unwatched w r] :
    Yields w (Production.routineWithoutBody r) := by
  unfold Production.routineWithoutBody
  infer_instance

instance propertyHeader : Yields w Production.propertyHeader := by
  unfold Production.propertyHeader
  infer_instance

/-- So is a property without accessors. -/
instance propertyWithoutAccessors : Yields w Production.propertyWithoutAccessors := by
  unfold Production.propertyWithoutAccessors
  infer_instance

instance eventHeader : Yields w Production.eventHeader := by
  unfold Production.eventHeader
  dsimp only
  infer_instance

/-- So is an event without accessors. -/
instance eventWithoutAccessors : Yields w Production.eventWithoutAccessors := by
  unfold Production.eventWithoutAccessors
  infer_instance

instance fieldDeclaration : Yields w Production.fieldDeclaration := by
  unfold Production.fieldDeclaration
  infer_instance

instance enumMember : Yields w Production.enumMember := by
  unfold Production.enumMember
  infer_instance

/-- In an enumeration there are members and blank lines. -/
instance enumItem : Yields w Production.enumItem := by
  unfold Production.enumItem
  infer_instance

/-- No statement stands in an enumeration. -/
instance enumBlock : Yields w Production.enumBlock := by
  unfold Production.enumBlock
  infer_instance

instance delegateDeclaration : Yields w Production.delegateDeclaration := by
  unfold Production.delegateDeclaration
  dsimp only
  infer_instance

/-- In front of the members of a type there are clauses and blank lines. -/
@[instance]
theorem typeHeadItem : Yields w Production.typeHeadItem := by
  refine behind fun kind => ?_
  split <;> infer_instance

/-- What an option is set to is seen before it is read. -/
instance optionSetting : Yields w Production.optionSetting := by
  refine behind fun kind => ?_
  split <;> infer_instance

/-- Options, one on each line. -/
instance optionStatements : Yields w Production.optionStatements := by
  unfold Production.optionStatements
  infer_instance

instance importsStatement : Yields w Production.importsStatement := by
  unfold Production.importsStatement
  dsimp only
  infer_instance

/-- An attribute of the file with the end of its line. -/
instance fileAttribute : Yields w Production.fileAttribute :=
  into fun _ => inferInstance

end Yields

end Production

end VisualBasic
