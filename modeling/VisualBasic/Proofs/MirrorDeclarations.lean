import VisualBasic.Proofs.MirrorStatements

/-!
# Declarations, built in two ways

The members of types, the types and what a file holds are put together alike, however nodes are
kept. So what is shown by induction on the rules holds of the whole grammar.

Main results:

* `Mirrors.member` — a member of a type is found by what is ahead, and by nothing that is built.
* `Mirrors.typeDeclarationUpTo`, `Mirrors.namespaceBlockUpTo` — by induction on the levels that are
  left.
* `Mirrors.sourceFile` — a file.
-/

namespace VisualBasic.Production

/-- The end of the text ends a repetition whose steps look for a word behind attributes and
modifiers. -/
theorem Moves.behindPrefix {good : Bool → Prop} {p q : Parse Bool} {c : TokenKind → Bool}
    (hend : c .endOfFile = false) (hp : Progresses good p) (hq : Moves good q) :
    Moves good (Production.peekBehindPrefix >>= fun x => if c x = true then p else q) := by
  intro env s a s' hs hrun ha
  rw [Looks.peekBehindPrefix.run_bind] at hrun
  split at hrun
  · next hat =>
    refine hp env s a s' (.of_kindAt_ne fun hkind => ?_) hrun ha
    rw [behindPrefix_of_endOfFile hkind, hkind, hend] at hat
    cases hat
  · exact hq env s a s' hs hrun ha

namespace Mirrors

variable {B N : Type} [Builder B N]

/-- What bodies need to know of the statements in them. -/
theorem ofStatement : OfStatement (Production.statement : Production B N) Production.statement :=
  have hstatement : MakesStatements 0 false Production.statement := Passage.makesStatements
  ⟨.statement, hstatement.moves, statement⟩

-- ---------------------------------------------------------------------------
-- Routines
-- ---------------------------------------------------------------------------

/-- A leaf without anything in it. -/
theorem blankLine : Produces none (Production.blankLine : Production B N) Production.blankLine :=
  ruleLeaf _

/-- What stands behind the name of a routine: type parameters, parameters, the type of the
result. -/
theorem signature (isFunction : Bool) :
    Does none (Production.signature isFunction : Production B Unit)
    (Production.signature isFunction) := by
  have hattributes : Does none
      (Production.repeatWhile do
        if ← Production.atKind (.mark .less) then
          Production.child (Production.nested Production.attributeBlock)
          return true
        return false : Production B Unit)
      (Production.repeatWhile do
        if ← Production.atKind (.mark .less) then
          Production.child (Production.nested Production.attributeBlock)
          return true
        return false) := by
    refine repeatWhile (ifAt (seq (childNested attributeBlock) result) result) ?_
    exact .ifAt (by decide) (.round (Steps.child Builds.attributeBlock.nested)) (.pure nofun)
  have hparameters : Does none
      (do
        Production.optionalParameters
        if isFunction then
          if ← Production.acceptWord .kwAs then
            Production.repeatWhile do
              if ← Production.atKind (.mark .less) then
                Production.child (Production.nested Production.attributeBlock)
                return true
              return false
            Production.field .returnType (Production.nested (Production.type true)) :
            Production B Unit)
      (do
        Production.optionalParameters
        if isFunction then
          if ← Production.acceptWord .kwAs then
            Production.repeatWhile do
              if ← Production.atKind (.mark .less) then
                Production.child (Production.nested Production.attributeBlock)
                return true
              return false
            Production.field .returnType (Production.nested (Production.type true))) := by
    refine seq optionalParameters (ite (fun _ => ifAccept ?_ result) fun _ => result)
    exact seq hattributes (fieldNested _ (type true))
  exact andThen atTypeArguments fun _ =>
    ite (fun _ => seq (childNested typeParameters) hparameters) fun _ => hparameters

/-- The word that opens a routine, and what is done behind it. -/
theorem routineWord {α β : Type} {r : α → β → Hand N → Prop} {k : Keyword → Production B α}
    {k' : Keyword → Parse β} (hk : ∀ word, Mirrors none r (k word) (k' word)) :
    Mirrors none r
      (do
        let word ← match ← Production.peek with
          | .keyword .kwSub => Pure.pure Keyword.kwSub
          | .keyword .kwFunction => Pure.pure Keyword.kwFunction
          | _ => Production.fail (.oneOf [.keyword .kwSub, .keyword .kwFunction])
        k word)
      (do
        let word ← match ← Production.peek with
          | .keyword .kwSub => Pure.pure Keyword.kwSub
          | .keyword .kwFunction => Pure.pure Keyword.kwFunction
          | _ => Production.fail (.oneOf [.keyword .kwSub, .keyword .kwFunction])
        k' word) := by
  refine peek fun kind => ?_
  split
  · exact andThen result hk
  · exact andThen result hk
  · exact andThen (fail _) hk

/-- Both give the same word for the closing line to come. -/
theorem routineHeader (isConstructor : Bool) :
    Does none (Production.routineHeader isConstructor : Production B Keyword)
      (Production.routineHeader isConstructor) := by
  have hrest (word : Keyword) : Does none
      (do
        Production.take
        if isConstructor then Production.expectWord .kwNew
        else Production.field .name Production.identifier
        Production.signature (word == .kwFunction)
        Production.memberClauses
        Production.endStatement
        return word : Production B Keyword)
      (do
        Production.take
        if isConstructor then Production.expectWord .kwNew
        else Production.field .name Production.identifier
        Production.signature (word == .kwFunction)
        Production.memberClauses
        Production.endStatement
        return word) := by
    have hend := seq (B := B) (signature (word == .kwFunction))
      (seq memberClauses (seq endStatement (result (a := word))))
    exact seq take (ite (fun _ => seq (expectWord _) hend) fun _ => seq (field _ identifier) hend)
  exact checked (seq declarationPrefix (routineWord hrest))

/-- The line of the opening is looked up in front of the header, at the same place in both. -/
theorem routineWithBody (rule : Rule) :
    Produces none (Production.routineWithBody rule : Production B N)
    (Production.routineWithBody rule) := by
  refine .node _ (andThen currentLine fun l => andThen (routineHeader _) fun word => ?_)
  exact seq (openBlockAt _ _) (seq (statements ofStatement) (finishBlock _))

/-- The header is all there is. -/
theorem routineWithoutBody (rule : Rule) :
    Produces none (Production.routineWithoutBody rule : Production B N)
      (Production.routineWithoutBody rule) :=
  .node _ (andThen (routineHeader _) fun _ => result)

/-- Whether a body follows is seen from the tokens and the open blocks, which are the same. -/
theorem routine (a : Ambiguity) (rule : Rule) :
    Produces none (Production.routine a rule : Production B N) (Production.routine a rule) := by
  refine resolve (tryNextOf (fun _ _ _ hst => hst.elim fun _ _ _ _ _ _ _ => rfl) (routineWithBody _)
    (.routineWithBody _) ?_)
  exact tryNextOf (fun _ _ _ _ => rfl) (routineWithoutBody _) (.routineWithoutBody _) (.noneFits _)

-- ---------------------------------------------------------------------------
-- Properties
-- ---------------------------------------------------------------------------

/-- The line of a property, up to what tells the two forms apart. -/
theorem propertyHeader :
    Does none (Production.propertyHeader : Production B Unit) Production.propertyHeader := by
  refine checked (seq declarationPrefix (seq (expectWord _) (seq (field _ identifier) ?_)))
  exact seq optionalParameters optionalAsClause

/-- Either accessor. -/
theorem accessorOf (rule : Rule) (word : Keyword) : Produces none
    (Production.node rule do
      Production.openBlock word
      Production.recovering do
        Production.declarationPrefix
        Production.expectWord word
        if word == .kwSet then Production.optionalParameters
        Production.endStatement
      Production.statements Production.statement
      Production.finishBlock word : Production B N)
    (Production.node rule do
      Production.openBlock word
      Production.recovering do
        Production.declarationPrefix
        Production.expectWord word
        if word == .kwSet then Production.optionalParameters
        Production.endStatement
      Production.statements Production.statement
      Production.finishBlock word) := by
  refine .node _ (seq (openBlock _)
    (seq (.recovering ?_) (seq (statements ofStatement) (finishBlock _))))
  refine seq declarationPrefix (seq (expectWord _) ?_)
  exact ite (fun _ => seq optionalParameters endStatement) fun _ => endStatement

/-- An accessor is a block whose opening line may be broken. -/
theorem accessor : Produces none (Production.accessor : Production B N) Production.accessor := by
  refine peekBehindPrefix fun kind => ?_
  by_cases h : (kind == .keyword .kwGet) = true
  · rw [if_pos h]
    exact accessorOf _ _
  · rw [if_neg h]
    exact accessorOf _ _

/-- An accessor, a blank line, or an error where neither stands. -/
theorem propertyItem :
    Does none (Production.propertyItem : Production B Bool) Production.propertyItem := by
  refine peek fun _ => ite (fun _ => seq (child blankLine) result)
    fun _ => peekBehindPrefix fun _ => ?_
  refine ite (fun _ => seq (childNested accessor) result) fun _ => andThen atBoundary fun _ => ?_
  exact ite (fun _ => result) fun _ => seq (child (.unexpected _)) result

/-- Each round reads the token by which it is chosen; at the end of the text there is none. -/
theorem moves_propertyItem : Moves (· = true) Production.propertyItem := by
  have hregion : Builds .loud 1 true
      (Production.unexpected (.oneOf [.keyword .kwGet, .keyword .kwSet])) :=
    Builds.unexpected _ fun _ => Nat.one_pos
  refine .ofReady Passage.progresses_propertyItem ?_
  refine .behindPrefix rfl (.round (Steps.child Builds.accessor.nested)) ?_
  exact .ifBoundary (.pure nofun) (.round (Steps.child hregion))

/-- A property with its accessors and its closing line. -/
theorem propertyWithAccessors :
    Produces none (Production.propertyWithAccessors : Production B N)
      Production.propertyWithAccessors := by
  refine .node _ (andThen currentLine fun _ => seq propertyHeader
    (seq memberClauses (seq endStatement ?_)))
  exact seq (openBlockAt _ _) (seq (repeatWhile propertyItem moves_propertyItem) (finishBlock _))

/-- A property on one line, perhaps with a value. -/
theorem propertyWithoutAccessors :
    Produces none (Production.propertyWithoutAccessors : Production B N)
      Production.propertyWithoutAccessors :=
  line _ (seq propertyHeader (seq (optionalValue _) memberClauses))

/-- Whether accessors follow is seen from the tokens. -/
theorem propertyDeclaration :
    Produces none (Production.propertyDeclaration : Production B N)
      Production.propertyDeclaration := by
  refine resolve (tryNextOf (fun _ _ _ hst => hst.elim fun _ _ _ _ _ _ _ => rfl)
    propertyWithAccessors
    .propertyWithAccessors ?_)
  exact tryNextOf (fun _ _ _ _ => rfl) propertyWithoutAccessors
    .propertyWithoutAccessors (.noneFits _)

-- ---------------------------------------------------------------------------
-- Events
-- ---------------------------------------------------------------------------

/-- The line of an event. -/
theorem eventHeader :
    Does none (Production.eventHeader : Production B Unit) Production.eventHeader := by
  have hend := seq (B := B) memberClauses endStatement
  refine checked (seq declarationPrefix (seq (expectWord _) (seq (field _ identifier) ?_)))
  exact ifAt (seq (fieldNested _ parameters) hend) (seq optionalAsClause hend)

/-- The word of the accessor is attached before anything can fail. -/
theorem eventAccessor (rule : Rule) (word : Keyword) :
    Produces none (Production.eventAccessor rule word : Production B N)
      (Production.eventAccessor rule word) := by
  refine .node _ (seq (openBlock _) (seq take (seq (.recovering ?_) ?_)))
  · exact seq optionalParameters endStatement
  · exact seq (statements ofStatement) (finishBlock _)

/-- An accessor, a blank line, or an error where neither stands. -/
theorem eventItem : Does none (Production.eventItem : Production B Bool) Production.eventItem := by
  refine peek fun kind => ?_
  split
  · exact seq (child blankLine) result
  · exact seq (child blankLine) result
  · exact seq (childNested (eventAccessor _ _)) result
  · exact seq (childNested (eventAccessor _ _)) result
  · exact seq (childNested (eventAccessor _ _)) result
  · exact andThen atBoundary fun _ => ite (fun _ => result)
      fun _ => seq (child (.unexpected _)) result

/-- The word of an accessor is read, and so is a line of another kind. -/
theorem moves_eventItem : Moves (· = true) Production.eventItem := by
  have hregion : Builds .loud 1 true (Production.unexpected .eventAccessor) :=
    Builds.unexpected _ fun _ => Nat.one_pos
  refine .ofReady Passage.progresses_eventItem ?_
  exact .ifBoundary (.pure nofun) (.round (Steps.child hregion))

/-- An event with its accessors and its closing line. -/
theorem eventWithAccessors :
    Produces none (Production.eventWithAccessors : Production B N)
      Production.eventWithAccessors := by
  refine .node _ (andThen currentLine fun _ => seq eventHeader (seq (openBlockAt _ _) ?_))
  exact seq (repeatWhile eventItem moves_eventItem) (finishBlock _)

/-- The header is all there is. -/
theorem eventWithoutAccessors :
    Produces none (Production.eventWithoutAccessors : Production B N)
      Production.eventWithoutAccessors :=
  .node _ eventHeader

/-- Whether accessors follow is seen from the tokens. -/
theorem eventDeclaration :
    Produces none (Production.eventDeclaration : Production B N) Production.eventDeclaration := by
  refine resolve (tryNextOf (fun _ _ _ hst => hst.elim fun _ _ _ _ _ _ _ => rfl) eventWithAccessors
    .eventWithAccessors ?_)
  exact tryNextOf (fun _ _ _ _ => rfl) eventWithoutAccessors .eventWithoutAccessors (.noneFits _)

-- ---------------------------------------------------------------------------
-- Fields, enumerations and delegates
-- ---------------------------------------------------------------------------

/-- Variables of a type, with commas between them. -/
theorem fieldDeclaration :
    Produces none (Production.fieldDeclaration : Production B N) Production.fieldDeclaration := by
  have hdeclarator :
      Builds .quiet 0 true (Production.node .variableDeclarator Production.declarator) :=
    Builds.node Steps.declarator
  refine line _ (seq declarationPrefix (seq (acceptWord _) ?_))
  exact childrenByComma (.node _ declarator) hdeclarator

/-- A name and perhaps its value. -/
theorem enumMember : Produces none (Production.enumMember : Production B N) Production.enumMember :=
  line _ (seq declarationPrefix (seq (field _ identifier) (optionalValue _)))

/-- A member that fails leaves an error region. -/
theorem enumItem : Does none (Production.enumItem : Production B Unit) Production.enumItem :=
  peek fun _ => ite (fun _ => child blankLine) fun _ =>
    childNested (.orRecover enumMember (.of_tried .enumMember))

/-- An enumeration: each round of its body reads a line. -/
theorem enumBlock : Produces none (Production.enumBlock : Production B N) Production.enumBlock := by
  refine .node _ (seq declarationPrefix (seq (openBlock _)
    (seq (expectWord _) (seq (field _ identifier) ?_))))
  refine seq optionalAsClause (seq endStatement (seq ?_ (finishBlock _)))
  exact body enumItem Passage.steps_enumItem

/-- A delegate has the line of a routine without what handles events. -/
theorem delegateDeclaration :
    Produces none (Production.delegateDeclaration : Production B N)
      Production.delegateDeclaration := by
  have hrest (isFunction : Bool) : Does none
      (do
        Production.take
        Production.field .name Production.identifier
        Production.signature isFunction : Production B Unit)
      (do
        Production.take
        Production.field .name Production.identifier
        Production.signature isFunction) :=
    seq take (seq (field _ identifier) (signature _))
  refine line _ (seq declarationPrefix (seq (expectWord _)
    (andThen (atWord _) fun isFunction => ?_)))
  exact andThen (atWord _) fun _ => ite (fun _ => hrest _) fun _ => seq (fail _) (hrest _)

-- ---------------------------------------------------------------------------
-- Types and their members
-- ---------------------------------------------------------------------------

section

variable {typeDeclaration : Production B N} {typeDeclaration' : Parse Node}

/-- What is announced is put together alike. -/
theorem memberOr (h : Produces none typeDeclaration typeDeclaration')
    (hundone : Undone typeDeclaration')
    (what : TokenKind × TokenKind × Bool) :
    Produces none (Passage.memberOr (Passage.announced typeDeclaration what))
      (Passage.memberOr (Passage.announced typeDeclaration' what)) := by
  have hmember {p : Production B N} {q : Parse Node} (hp : Produces none p q) (hq : Tried q) :
      Produces none (Passage.memberOr (some p)) (Passage.memberOr (some q)) :=
    .orRecover hp (.of_tried hq)
  unfold Passage.announced
  split
  case h_1 => exact hmember constDeclaration .constDeclaration
  case h_2 following _ =>
    by_cases hfollowing : (following == .keyword .kwNew) = true
    · rw [if_pos hfollowing, if_pos hfollowing]
      exact hmember (routine _ _) .constructorDeclaration
    · rw [if_neg hfollowing, if_neg hfollowing]
      exact hmember (routine _ _) .methodDeclaration
  case h_3 => exact hmember (routine _ _) .methodDeclaration
  case h_4 => exact hmember propertyDeclaration .propertyDeclaration
  case h_5 => exact hmember eventDeclaration .eventDeclaration
  case h_12 => exact hmember fieldDeclaration .fieldDeclaration
  case h_13 =>
    split
    · exact hmember fieldDeclaration .fieldDeclaration
    · exact .unexpected _
  all_goals exact .orRecover h hundone

/-- The word behind attributes and modifiers picks the same production in both. The type in a type
is the one that is given. -/
theorem member (h : Produces none typeDeclaration typeDeclaration')
    (hundone : Undone typeDeclaration') :
    Produces none (Production.member typeDeclaration) (Production.member typeDeclaration') := by
  have hwhat : Does none (fun env s => .ok (Passage.announcement env s) s : Production B _)
      (fun env s => .ok (Passage.announcement env s) s) :=
    .look (fun _ _ => rfl) (fun _ _ => rfl) fun _ _ _ hst => hst.elim fun _ _ _ _ _ _ _ => rfl
  rw [Passage.member_eq, Passage.member_eq]
  exact peek fun _ => ite (fun _ => blankLine) fun _ => andThen hwhat (memberOr h hundone)

/-- A line of clauses is recovered by itself, so it never fails. -/
theorem typeHeadItem :
    Does none (Production.typeHeadItem : Production B Bool) Production.typeHeadItem := by
  have hclauses := seq (B := B) (.recovering (seq inheritanceClauses endStatement))
      (result (a := true))
  refine peek fun kind => ?_
  split
  · exact seq (child blankLine) result
  · exact seq (child blankLine) result
  · exact hclauses
  · exact hclauses
  · exact result

/-- A type: its header may fail, its clauses and its members may not. -/
theorem typeBlock (h : Produces none typeDeclaration typeDeclaration')
    (hundone : Undone typeDeclaration')
    (hbuilds : Builds .loud 0 true typeDeclaration') (rule : Rule) (word : Keyword) :
    Produces none (Production.typeBlock typeDeclaration rule word)
      (Production.typeBlock typeDeclaration' rule word) := by
  have hmembers :=
    body (childNested (member h hundone)) (Steps.child (Passage.builds_member hbuilds).nested)
  have hhead :=
    repeatWhile (B := B) typeHeadItem (.ofReady Passage.progresses_typeHeadItem (.pure nofun))
  have hbody :=
    seq inheritanceClauses (seq endStatement (seq hhead (seq hmembers (finishBlock word))))
  refine .node _ (seq declarationPrefix (seq (openBlock _)
    (seq (expectWord _) (seq (field _ identifier) ?_))))
  exact ifAt (seq (childNested typeParameters) hbody) hbody

/-- The word behind attributes and modifiers tells the kind of type. -/
theorem typeDefinition (h : Produces none typeDeclaration typeDeclaration')
    (hundone : Undone typeDeclaration') (hbuilds : Builds .loud 0 true typeDeclaration') :
    Produces none (Production.typeDefinition typeDeclaration)
    (Production.typeDefinition typeDeclaration') := by
  refine peekBehindPrefix fun kind => ?_
  split
  · exact typeBlock h hundone hbuilds _ _
  · exact typeBlock h hundone hbuilds _ _
  · exact typeBlock h hundone hbuilds _ _
  · exact typeBlock h hundone hbuilds _ _
  · exact enumBlock
  · exact delegateDeclaration
  · exact fail _

end

/-- Types in types, by the levels that are left. -/
theorem typeDeclarationUpTo (room : Nat) :
    Produces none (Production.typeDeclarationUpTo room : Production B N)
      (Production.typeDeclarationUpTo room) := by
  induction room with
  | zero => exact tooDeep
  | succ room ih =>
    have hundone : Undone (Production.typeDeclarationUpTo room) :=
      .of_tried (.typeDeclarationUpTo room)
    exact checked (wrapped _ (typeDefinition ih hundone (Builds.typeDeclarationUpTo room)))

/-- The levels that are left are told by the place. -/
theorem typeDeclaration :
    Produces none (Production.typeDeclaration : Production B N) Production.typeDeclaration :=
  byRoom typeDeclarationUpTo

-- ---------------------------------------------------------------------------
-- Files
-- ---------------------------------------------------------------------------

/-- A setting is one word, and for some of them a second one. -/
theorem optionSetting :
    Does none (Production.optionSetting : Production B Unit) Production.optionSetting := by
  refine peek fun kind => ?_
  split
  case h_5 => exact fail _
  case h_4 =>
    exact seq take (andThen (atWord _) fun _ => andThen (atWord _) fun _ =>
      ite (fun _ => take) fun _ => fail _)
  all_goals
    exact seq take (andThen (atWord _) fun _ => andThen (atWord _) fun _ =>
      ite (fun _ => take) fun _ => result)

/-- Each line of settings begins with a word that is read for sure. -/
theorem optionStatements :
    Produces none (Production.optionStatements : Production B N) Production.optionStatements := by
  have hword := Steps.expectWord .kwOption
  have hclimbs : Climbs (do
      Production.optionSetting
      Production.endStatement
      Production.atWord .kwOption) := by
    refine (Climbs.of_steps Steps.optionSetting).bind fun _ => ?_
    exact (Climbs.of_steps Steps.endStatement).bind fun _ =>
      .of_steps (Steps.of_looks (m := .quiet) (Looks.test _))
  refine .node _ (repeatWhile
    (seq (expectWord _) (seq optionSetting (seq endStatement (atWord _)))) ?_)
  exact .first (.of_steps hword) (.of_steps hword) fun _ => hclimbs

/-- The names that are imported, with commas between them. -/
theorem importsStatement :
    Produces none (Production.importsStatement : Production B N) Production.importsStatement := by
  have hname := field (B := B) .«namespace» dottedName
  refine line _ (seq take (commaSeparated ?_ (.of_steps Steps.importsClause)))
  refine peek fun _ => peekAhead fun _ => ite (fun _ => ?_) fun _ => hname
  exact seq (child (ruleLeaf _)) (seq take hname)

/-- Attributes on a line of their own; they are in hand while the line ends. -/
theorem fileAttribute :
    Produces none (Production.fileAttribute : Production B N) Production.fileAttribute :=
  .bind (.nested attributeBlock) fun _ _ _ hk => seq endStatement (.pure hk)

/-- An item of a file is picked by its first token, and what fails leaves an error region. -/
theorem fileItemOf {namespaceBlock : Production B N} {namespaceBlock' : Parse Node}
    (h : Produces none namespaceBlock namespaceBlock') (hundone : Undone namespaceBlock') :
    Produces none (Production.fileItemOf namespaceBlock)
    (Production.fileItemOf namespaceBlock') := by
  refine peek fun kind => ?_
  split
  · exact blankLine
  · exact blankLine
  · exact .orRecover optionStatements (.of_tried .optionStatements)
  · exact .orRecover importsStatement (.of_tried .importsStatement)
  · exact .orRecover h hundone
  · refine ifTest (fun _ _ _ hst => hst.elim fun _ _ _ _ _ _ _ => rfl) ?_ ?_
    · exact .orRecover fileAttribute (.of_tried .fileAttribute)
    · exact .orRecover typeDeclaration (.of_tried .typeDeclaration)

/-- Namespaces in namespaces, by the levels that are left. -/
theorem namespaceBlockUpTo (room : Nat) :
    Produces none (Production.namespaceBlockUpTo room : Production B N)
      (Production.namespaceBlockUpTo room) := by
  induction room with
  | zero => exact tooDeep
  | succ room ih =>
    have hmoves := Builds.fileItemOf (b := true) (BuildsAt.namespaceBlockUpTo room)
        fun _ => Nat.one_pos
    have hitem := fileItemOf ih (.of_tried (.namespaceBlockUpTo room))
    refine checked
      (.node _ (seq (openBlock _) (seq take (seq (field _ dottedName) (seq endStatement ?_)))))
    exact seq (body (childNested hitem) (Steps.child hmoves.nested)) (finishBlock _)

/-- The levels that are left are told by the place. -/
theorem fileItem : Produces none (Production.fileItem : Production B N) Production.fileItem :=
  byRoom fun room => fileItemOf (namespaceBlockUpTo room) (.of_tried (.namespaceBlockUpTo room))

/-- A file: its items are read until the text ends. -/
theorem sourceFile :
    Produces none (Production.sourceFile : Production B N) Production.sourceFile := by
  refine .node _ (repeatWhile (ifAt result (seq (child fileItem) result)) ?_)
  exact .untilEnd (fun _ _ hend => beq_iff_eq.2 hend) (.pure nofun)
    (.round (Steps.child (Builds.fileItem fun _ => Nat.one_pos)))

end Mirrors

end VisualBasic.Production
