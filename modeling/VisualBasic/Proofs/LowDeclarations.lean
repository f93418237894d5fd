import VisualBasic.Proofs.Declaration
import VisualBasic.Proofs.LowStatements
import VisualBasic.Tree

/-!
# The height of trees

How high the nodes of declarations are, links of chains not counted, up to the tree of a source.
Types and namespaces hold their members a level down, as blocks hold their statements. So a tree has
at most eight nodes one above the other for every level that is allowed, and a few more; what is
higher is the links of chains.

Main results:

* `Stacks.typeDeclaration`, `Stacks.namespaceBlockUpTo` — by induction on the levels that are left.
* `height_bounded` — the height of a tree is bounded by the limit and by the length of its chains.
* `exists_height_gt` — a long chain makes a tree that is higher than the limit tells.
-/

namespace VisualBasic

namespace Production.Stacks

variable {n : Nat} {r : Rule} {b k : Nat}

/-- A leaf. -/
theorem blankLine : Stacks n r b (Low (k + 1)) Production.blankLine := ruleLeaf _

/-- A look attaches nothing. -/
theorem peekBehindPrefix {β : Type} {good : β → Prop} {k : TokenKind → Parse β}
    (hk : ∀ kind, Stacks n r b good (k kind)) :
    Stacks n r b good (Production.peekBehindPrefix >>= k) :=
  look Looks.peekBehindPrefix hk

-- ---------------------------------------------------------------------------
-- Routines
-- ---------------------------------------------------------------------------

section

variable (hb : 8 * (n - 1) ≤ b)

include hb

/-- What stands behind the name of a routine stands in the routine itself. -/
theorem signature (isFunction : Bool) :
    Stacks n r (b + 2) Anything (Production.signature isFunction) := by
  have hresult : Stacks n r (b + 2) Anything (do
      if isFunction then
        if ← Production.acceptWord .kwAs then
          Production.repeatWhile do
            if ← Production.atKind (.mark .less) then
              Production.child (Production.nested Production.attributeBlock)
              return true
            return false
          Production.field .returnType (Production.nested (Production.type true))) := by
    refine ite (bind (acceptWord _) fun _ _ => ite (seq (repeatWhile ?_) ?_) done) done
    · exact test fun _ => ite (round (childBelow attributeBlock (by omega))) done
    · exact fieldBelow (type true) (by omega)
  exact test fun _ => when (childBelow typeParameters (by omega))
    (seq (optionalParameters hb) hresult)

omit hb in
/-- The word that opens a routine, and what is done behind it. -/
theorem routineWord {β : Type} {k : Keyword → Parse β}
    (hk : ∀ word, Stacks n r b Anything (k word)) :
    Stacks n r b Anything
      (do
        let word ← match ← Production.peek with
          | .keyword .kwSub => Pure.pure Keyword.kwSub
          | .keyword .kwFunction => Pure.pure Keyword.kwFunction
          | _ => Production.fail (.oneOf [.keyword .kwSub, .keyword .kwFunction])
        k word) := by
  refine peek fun kind => ?_
  split
  · exact bind done fun word _ => hk word
  · exact bind done fun word _ => hk word
  · exact failThen _

/-- So does its whole opening line. -/
theorem routineHeader (isConstructor : Bool) :
    Stacks n r (b + 2) Anything (Production.routineHeader isConstructor) := by
  refine checkDepth fun m hm => seq (declarationPrefix hb) ?_
  have hrest (word : Keyword) : Stacks n r (b + 2) Anything (do
      Production.take
      if isConstructor then Production.expectWord .kwNew
      else Production.field .name Production.identifier
      Production.signature (word == .kwFunction)
      Production.memberClauses
      Production.endStatement
      return word) := by
    have hend : Stacks n r (b + 2) Anything (do
        Production.signature (word == .kwFunction)
        Production.memberClauses
        Production.endStatement
        return word) :=
      seq (signature hb _) (seq (memberClauses hb) (seq endStatement done))
    exact seq take (ite (seq (expectWord _) hend) (seq (field identifier) hend))
  exact routineWord hrest

end

/-- The header looks at the limit, so the statements have a level less. -/
theorem routineWithBody (r' : Rule) :
    Stacks n r b (Low (8 * (n - 1) + 4)) (Production.routineWithBody r') := by
  refine node (look Looks.currentLine fun _ => bind (routineHeader (Nat.le_refl _) _)
    fun word _ => ?_)
  exact seq (openBlockAt _ _) (seq (statements statement (by omega)) (finishBlock _))

/-- A routine without a body is as low. -/
theorem routineWithoutBody (r' : Rule) :
    Stacks n r b (Low (8 * (n - 1) + 4)) (Production.routineWithoutBody r') :=
  node (seq (routineHeader (Nat.le_refl _) _) done)

/-- So it is, whichever of the forms is chosen. -/
theorem routine (a : Ambiguity) (r' : Rule) :
    Stacks n r b (Low (8 * (n - 1) + 4)) (Production.routine a r') := by
  refine resolve _ fun x hx => ?_
  simp only [List.mem_cons, List.not_mem_nil, or_false] at hx
  obtain rfl | rfl := hx
  · exact routineWithBody r'
  · exact routineWithoutBody r'

-- ---------------------------------------------------------------------------
-- Properties and events
-- ---------------------------------------------------------------------------

/-- The opening line of a property stands in the property itself. -/
theorem propertyHeader (hb : 8 * (n - 1) ≤ b) :
    Stacks n r (b + 2) Anything Production.propertyHeader :=
  checkDepth fun _ _ => seq (declarationPrefix hb) (seq (expectWord _) (seq (field identifier)
    (seq (optionalParameters hb) (optionalAsClause hb))))

/-- An accessor does not look at the limit; its statements do. -/
theorem accessor : Stacks n r b (Low (8 * (n - 1) + 4)) Production.accessor := by
  have haccessor (choice : Rule × Keyword) : Stacks n r b (Low (8 * (n - 1) + 4))
      (Production.node choice.1 do
        Production.openBlock choice.2
        Production.recovering do
          Production.declarationPrefix
          Production.expectWord choice.2
          if choice.2 == .kwSet then Production.optionalParameters
          Production.endStatement
        Production.statements Production.statement
        Production.finishBlock choice.2) := by
    refine node (seq (openBlock _) (seq (recovering ?_)
      (seq (statements statement (by omega)) (finishBlock _))))
    exact seq (declarationPrefix (Nat.le_refl _)) (seq (expectWord _)
      (when (optionalParameters (Nat.le_refl _)) endStatement))
  exact peekBehindPrefix fun _ => haccessor _

/-- The header has looked at the limit before an accessor is read. -/
theorem propertyWithAccessors :
    Stacks n r b (Low (8 * (n - 1) + 5)) Production.propertyWithAccessors := by
  refine node (look Looks.currentLine fun _ => seq (propertyHeader (by omega)) ?_)
  refine seq (memberClauses (by omega)) (seq endStatement (seq (openBlockAt _ _)
    (seq (repeatWhile (peek fun _ => ite (round (child blankLine)) ?_)) (finishBlock _))))
  refine peekBehindPrefix fun _ => ite (round (childBelow accessor (by omega))) ?_
  exact test fun _ => ite done (round (child (unexpected _)))

/-- The value may be an expression of the next level. -/
theorem propertyWithoutAccessors :
    Stacks n r b (Low (8 * (n - 1) + 5)) Production.propertyWithoutAccessors :=
  line (seq (propertyHeader (by omega))
    (seq (optionalValue (by omega) _) (memberClauses (by omega))))

/-- A property is low in either form. -/
theorem propertyDeclaration :
    Stacks n r b (Low (8 * (n - 1) + 5)) Production.propertyDeclaration := by
  refine resolve _ fun x hx => ?_
  simp only [List.mem_cons, List.not_mem_nil, or_false] at hx
  obtain rfl | rfl := hx
  · exact propertyWithAccessors
  · exact propertyWithoutAccessors

/-- The opening line of an event looks at the limit. -/
theorem eventHeader : Stacks n r (8 * (n - 1) + 3) Anything Production.eventHeader := by
  have hend : Stacks n r (8 * (n - 1) + 3) Anything (do
      Production.memberClauses
      Production.endStatement) :=
    seq (memberClauses (by omega)) endStatement
  refine checkDepth fun _ _ => seq (declarationPrefix (by omega)) (seq (expectWord _)
    (seq (field identifier) (test fun _ => ite ?_ ?_)))
  · exact seq (fieldBelow parameters (by omega)) hend
  · exact seq (optionalAsClause (by omega)) hend

/-- The statements of an accessor look at the limit. -/
theorem eventAccessor (r' : Rule) (word : Keyword) :
    Stacks n r b (Low (8 * (n - 1) + 4)) (Production.eventAccessor r' word) := by
  refine node (seq (openBlock _) (seq take (seq (recovering ?_)
    (seq (statements statement (by omega)) (finishBlock _)))))
  exact seq (optionalParameters (Nat.le_refl _)) endStatement

/-- The header has looked at the limit before an accessor is read. -/
theorem eventWithAccessors :
    Stacks n r b (Low (8 * (n - 1) + 5)) Production.eventWithAccessors := by
  refine node (look Looks.currentLine fun _ => seq eventHeader (seq (openBlockAt _ _)
    (seq (repeatWhile (peek fun kind => ?_)) (finishBlock _))))
  split
  case h_1 | h_2 => exact round (child blankLine)
  case h_6 => exact test fun _ => ite done (round (child (unexpected _)))
  all_goals exact round (childBelow (eventAccessor _ _) (by omega))

theorem eventWithoutAccessors :
    Stacks n r b (Low (8 * (n - 1) + 5)) Production.eventWithoutAccessors :=
  node eventHeader

/-- An event is low in either form. -/
theorem eventDeclaration : Stacks n r b (Low (8 * (n - 1) + 5)) Production.eventDeclaration := by
  refine resolve _ fun x hx => ?_
  simp only [List.mem_cons, List.not_mem_nil, or_false] at hx
  obtain rfl | rfl := hx
  · exact eventWithAccessors
  · exact eventWithoutAccessors

-- ---------------------------------------------------------------------------
-- Fields, enumerations and delegates
-- ---------------------------------------------------------------------------

/-- The variables of a field are nodes of their own. -/
theorem fieldDeclaration : Stacks n r b (Low (8 * (n - 1) + 5)) Production.fieldDeclaration :=
  line (seq (declarationPrefix (by omega)) (seq (acceptWord _)
    (commaSeparated (childBelow (node (declarator (Nat.le_refl _))) (by omega)))))

/-- A name, and a value of the next level. -/
theorem enumMember : Stacks n r b (Low (8 * (n - 1) + 4)) Production.enumMember :=
  line (seq (declarationPrefix (Nat.le_refl _)) (seq (field identifier)
    (optionalValue (Nat.le_refl _) _)))

/-- Members are nodes in the enumeration, and their values a level down. -/
theorem enumBlock : Stacks n r b (Low (8 * (n - 1) + 5)) Production.enumBlock := by
  refine node (seq (declarationPrefix (by omega)) (seq (openBlock _) (seq (expectWord _) ?_)))
  refine seq (field identifier) (seq (optionalAsClause (by omega)) (seq endStatement
    (seq (body (peek fun _ => ?_)) (finishBlock _))))
  exact ite (child blankLine) (childBelow (orRecover enumMember) (by omega))

/-- A delegate has the line of a routine. -/
theorem delegateDeclaration :
    Stacks n r b (Low (8 * (n - 1) + 4)) Production.delegateDeclaration := by
  have hrest (isFunction : Bool) {r : Rule} : Stacks n r (8 * (n - 1) + 2) Anything (do
      Production.take
      Production.field .name Production.identifier
      Production.signature isFunction) :=
    seq take (seq (field identifier) (signature (Nat.le_refl _) _))
  refine line (seq (declarationPrefix (Nat.le_refl _))
    (seq (expectWord _) (test fun isFunction => ?_)))
  exact test fun _ => ite (hrest _) (failThen _)

-- ---------------------------------------------------------------------------
-- Types and their members
-- ---------------------------------------------------------------------------

section

variable {typeDeclaration : Parse Node}
  (h : ∀ {n r b}, Stacks n r b (Low (8 * n)) typeDeclaration)

include h

/-- Any member that is announced, the types among them, which look at the limit themselves. -/
theorem memberProduction? {env : Env} {s : State} {production : Parse Node}
    (hsome : Production.memberProduction? typeDeclaration env s = Option.some production) :
    Stacks n r b (Low (8 * n + 5)) production := by
  have hfield : Stacks n r b (Low (8 * n + 5)) Production.fieldDeclaration :=
    fieldDeclaration.low (by omega)
  have hroutine (a : Ambiguity) (r' : Rule) :
      Stacks n r b (Low (8 * n + 5)) (Production.routine a r') :=
    (routine a r').low (by omega)
  simp only [Production.memberProduction?] at hsome
  split at hsome
  case h_1 => cases hsome; exact constDeclaration.low (by omega)
  case h_2 => cases hsome; exact ite (hroutine _ _) (hroutine _ _)
  case h_3 => cases hsome; exact hroutine _ _
  case h_4 => cases hsome; exact propertyDeclaration.low (by omega)
  case h_5 => cases hsome; exact eventDeclaration.low (by omega)
  case h_12 => cases hsome; exact hfield
  case h_13 =>
    split at hsome
    · cases hsome; exact hfield
    · cases hsome
  all_goals cases hsome; exact h.low (by omega)

/-- A member, a blank line or an error region. -/
theorem member : Stacks n r b (Low (8 * n + 5)) (Production.member typeDeclaration) := by
  refine peek fun _ => ite blankLine (of_runs fun env s => ?_)
  cases hproduction : Production.memberProduction? typeDeclaration env s with
  | none => exact ⟨_, unexpected _, rfl⟩
  | some production => exact ⟨_, orRecover (memberProduction? h hproduction), rfl⟩

/-- What follows the name of a type and its parameters. -/
theorem typeBody (word : Keyword) : Stacks n r (8 * (n - 1) + 4) Anything
    (do
      Production.inheritanceClauses
      Production.endStatement
      Production.repeatWhile Production.typeHeadItem
      Production.body (Production.child (Production.nested (Production.member typeDeclaration)))
      Production.finishBlock word) := by
  have hclauses : Stacks n r (8 * (n - 1) + 4) Anything (do
      Production.inheritanceClauses
      Production.endStatement) :=
    seq (inheritanceClauses (by omega)) endStatement
  refine seq (inheritanceClauses (by omega)) (seq endStatement (seq (repeatWhile ?_)
    (seq (body (childBelow (member h) (by omega))) (finishBlock _))))
  refine peek fun kind => ?_
  split
  case h_1 | h_2 => exact round (child blankLine)
  case h_3 | h_4 => exact round (recovering hclauses)
  case h_5 => exact done

/-- The type has looked at the limit before its members are read. -/
theorem typeBlock (r' : Rule) (word : Keyword) :
    Stacks n r b (Low (8 * (n - 1) + 6)) (Production.typeBlock typeDeclaration r' word) := by
  refine node (seq (declarationPrefix (by omega)) (seq (openBlock _) (seq (expectWord _) ?_)))
  exact seq (field identifier) (test fun _ =>
    when (childBelow typeParameters (by omega)) (typeBody h word))

/-- A type of any kind; its wrapper is not counted here. -/
theorem typeDefinition :
    Stacks n r b (Low (8 * (n - 1) + 6)) (Production.typeDefinition typeDeclaration) := by
  refine peekBehindPrefix fun kind => ?_
  split
  case h_5 => exact enumBlock.low (by omega)
  case h_6 => exact delegateDeclaration.low (by omega)
  case h_7 => exact fail _
  all_goals exact typeBlock h _ _

end

/-- By induction on the levels that are left: a level of types costs eight nodes at most. -/
theorem typeDeclarationUpTo (room : Nat) :
    Stacks n r b (Low (8 * n)) (Production.typeDeclarationUpTo room) := by
  induction room generalizing n r b with
  | zero => exact tooDeep
  | succ room ih =>
    exact limited fun m => (bind (typeDefinition ih) fun _ hx => wrap hx).low (by omega)

/-- Every type is low, wherever it begins. -/
theorem typeDeclaration : Stacks n r b (Low (8 * n)) Production.typeDeclaration :=
  of_runs fun env _ => ⟨_, typeDeclarationUpTo env.room, rfl⟩

-- ---------------------------------------------------------------------------
-- Files
-- ---------------------------------------------------------------------------

/-- A setting consists of leaves. -/
theorem optionSetting : Stacks n r b Anything Production.optionSetting := by
  refine peek fun kind => ?_
  split
  case h_4 =>
    exact seq take (test fun _ => test fun _ => ite take (fail _))
  case h_5 => exact fail _
  all_goals exact seq take (test fun _ => test fun _ => ite take done)

/-- Settings stand in one node. -/
theorem optionStatements : Stacks n r b (Low (k + 2)) Production.optionStatements :=
  node (repeatWhile (seq (expectWord _) (seq optionSetting (seq endStatement
    (of_looks (Looks.test _))))))

/-- Names with dots are the highest part of it. -/
theorem importsStatement : Stacks n r b (Low (k + 3)) Production.importsStatement := by
  have hname {r : Rule} : Stacks n r (k + 1) Anything
      (Production.field .«namespace» Production.dottedName) :=
    field dottedName
  refine line (seq take (commaSeparated (peek fun _ => peekAhead fun _ => ite ?_ hname)))
  exact seq (child (ruleLeaf _)) (seq take hname)

/-- Attributes look at the limit. -/
theorem fileAttribute : Stacks n r b (Low (8 * (n - 1))) Production.fileAttribute :=
  bind (nested attributeBlock) fun _ hx => seq endStatement (pure hx)

/-- An item of a file, if namespaces are low. -/
theorem fileItemOf {namespaceBlock : Parse Node}
    (h : ∀ {n r b}, Stacks n r b (Low (8 * n)) namespaceBlock) :
    Stacks n r b (Low (8 * n + 3)) (Production.fileItemOf namespaceBlock) := by
  refine peek fun kind => ?_
  split
  · exact blankLine
  · exact blankLine
  · exact orRecover optionStatements
  · exact orRecover importsStatement
  · exact orRecover (h.low (by omega))
  · exact test fun _ => ite (orRecover (fileAttribute.low (by omega)))
      (orRecover (typeDeclaration.low (by omega)))

/-- By induction on the levels that are left. -/
theorem namespaceBlockUpTo (room : Nat) :
    Stacks n r b (Low (8 * n)) (Production.namespaceBlockUpTo room) := by
  induction room generalizing n r b with
  | zero => exact tooDeep
  | succ room ih =>
    refine limited fun m => node ?_
    exact seq (openBlock _) (seq take (seq (field dottedName) (seq endStatement
      (seq (body (childBelow (fileItemOf ih) (by omega))) (finishBlock _)))))

/-- Every item of a file is low, wherever it begins. -/
theorem fileItem : Stacks n r b (Low (8 * n + 3)) Production.fileItem :=
  of_runs fun env _ => ⟨_, fileItemOf (namespaceBlockUpTo env.room), rfl⟩

/-- A file is one node above its items. -/
theorem sourceFile : Stacks n r b (Low (8 * n + 4)) Production.sourceFile :=
  node (repeatWhile (test fun _ => ite done (round (child fileItem))))

end Production.Stacks

-- ---------------------------------------------------------------------------
-- Trees
-- ---------------------------------------------------------------------------

open Production

/-- Links of chains not counted, the limit bounds the height of a tree. -/
theorem Tree.folded_ofTokens_le (source : List Char) (tokens : TokenStream) (limit : Nat) :
    (Tree.ofTokens source tokens limit).root.folded ≤ 8 * limit + 4 := by
  let env : Env := { source, tokens, limit }
  let start : State := { diagnostics := (tokens.errors.map Diagnostic.ofLexicalError).reverse }
  have hrun := NeverFails.sourceFile.run_eq env start
  have hlow : Low (8 * limit + 4) (NeverFails.sourceFile.result env start).1 :=
    (Stacks.sourceFile (r := .sourceFile) (b := 0)).good env start _ _ rfl hrun
  rw [show (Tree.ofTokens source tokens limit).root
    = (NeverFails.sourceFile.result env start).1.withSpan ⟨0, Text.byteLength source⟩ from rfl,
    Node.folded_withSpan]
  exact hlow

/-- The limit bounds the height of the tree of every source but for the chains in it: a tree is
higher than eight nodes for every level, and two levels more, only by the nodes that chains have on
a way down. -/
theorem height_bounded (source : List Char) (limits : Limits) :
    (Tree.ofTokens source (TokenStream.ofText source) limits.maxNestingDepth).root.height
      ≤ 8 * (limits.maxNestingDepth + 2)
        + (Tree.ofTokens source (TokenStream.ofText source)
          limits.maxNestingDepth).root.chained := by
  have hheight := Node.height_le_folded
    (Tree.ofTokens source (TokenStream.ofText source) limits.maxNestingDepth).root
  have hfolded := Tree.folded_ofTokens_le source (TokenStream.ofText source) limits.maxNestingDepth
  omega

/-- A constant whose value is a member of a member, and so on. -/
def memberOfMembers : List Char :=
  "Class C\nConst k = a.b.b.b.b.b.b.b.b.b.b.b.b.b.b.b.b.b.b\nEnd Class\n".toList

/-- Chains are not limited: within three levels of nesting, a tree without errors may be higher than
eight nodes for each of five levels. -/
theorem exists_height_gt :
    ∃ tree ∈ (Tree.parseWithin { maxNestingDepth := 3 } memberOfMembers).toOption,
      tree.hasError = false ∧ 8 * (3 + 2) < tree.root.height := by
  decide +kernel

end VisualBasic
