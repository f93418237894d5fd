import VisualBasic.Grammar.Declaration
import VisualBasic.Proofs.QuietGrammar

/-!
# Lines that leave no diagnostics

Statements and declarations that take a line, and the lines that open blocks. Each is a phrase: what
is wrong in it makes the whole fail.

Main results:

* `Phrase.endStatement` — the end of a statement.
* `Phrase.assignmentStatement`, `Phrase.callStatement` — what a line of a body may be.
* `Phrase.routineHeader`, `Phrase.propertyHeader`, `Phrase.eventHeader` — the lines that open
  members.
-/

namespace VisualBasic.Production.Phrase

variable {δ : Nat} {strict : Bool} {spot : Spot}

-- ---------------------------------------------------------------------------
-- Ends of statements
-- ---------------------------------------------------------------------------

/-- One token tells whether a statement ends. -/
theorem nearsighted_atTerminator : Nearsighted fun env s =>
    (env.kind s).endsLine || (env.kind s == .keyword .kwElse && 0 < s.singleLineIfs) := by
  intro env env' s s' hkinds hifs
  have hkind : env'.kind s' = env.kind s := hkinds 0 fun _ hj => absurd hj (Nat.not_lt_zero _)
  change ((env'.kind s').endsLine || (env'.kind s' == .keyword .kwElse && 0 < s'.singleLineIfs)) = _
  rw [hkind, hifs]

/-- The end of a statement may be read; no line that closes a block begins with it. -/
theorem isWordClass_of_isTerminator {inside : Bool} {kind : TokenKind}
    (h : kind.isTerminator = true) :
    IsWordClass strict inside (· == kind) := by
  have hne {k : TokenKind} (hk : k.isTerminator = false) : (k == kind) = false := by
    refine beq_eq_false_iff_ne.2 ?_
    rintro rfl
    rw [hk] at h
    cases h
  exact ⟨hne rfl, hne rfl, hne rfl, fun _ => hne rfl, fun _ _ => hne rfl⟩

/-- Behind the end of a statement it is not known what comes. -/
theorem endStatement : Flows δ strict spot false Production.endStatement := by
  refine peek fun kind => ite (fun h => skip (isWordClass_of_isTerminator h)) fun _ => ?_
  exact ifLook nearsighted_atTerminator.steady (Phrase.anywhere (pure rfl)) (fail _)

/-- A line of its own. -/
theorem line (rule : Rule) {content : Parse Unit} (hcontent : Flows δ strict spot true content) :
    Gives δ strict spot false (Production.line rule content) :=
  node _ (seq hcontent endStatement)

-- ---------------------------------------------------------------------------
-- Simple statements
-- ---------------------------------------------------------------------------

section

variable {inside : Bool} {c : TokenKind → Bool} {cs : List (TokenKind → Bool)}

/-- What is done unless the statement ends. -/
theorem unlessAtTerminator {p : Parse Unit}
    (hp : Flows δ strict (.plain spot.inside) spot.inside p) :
    Flows δ strict spot spot.inside (do unless ← atTerminator do p) :=
  ifLook nearsighted_atTerminator.steady (pure rfl) hp

/-- The word is known to be there. -/
theorem valueStatement (rule : Rule) (hc : Readable strict inside c) :
    Gives δ strict ⟨inside, c :: cs⟩ false (Production.valueStatement rule) :=
  line rule (seq (take hc) (unlessAtTerminator (childNested expression)))

/-- A name and a colon, which ends the statement. -/
theorem labelStatement : Gives δ strict spot false Production.labelStatement := by
  have hcolon : IsWordClass strict true (· == .mark .colon) := isWordClass_of_isTerminator rfl
  refine node _ (seq (field _ identifier) (ifAt (child (tokenLeaf hcolon ?_)) (fail _)))
  exact fun h => Bool.noConfusion h

/-- A target, an operator and a value. -/
theorem assignmentStatement : Gives δ strict spot false Production.assignmentStatement := by
  refine line _ (seq (fieldNested _ leftHandSide) (peek fun kind => ?_))
  refine ite (fun h => ?_) fun _ => failThen _
  exact seq (field _ (token (.word (TokenKind.isWord_of_isAssignment h))))
    (fieldNested _ expression)

/-- An expression, perhaps behind a word. -/
theorem callStatement : Gives δ strict spot false Production.callStatement :=
  line _ (seq (acceptAny (.word rfl)) (childNested expression))

/-- Variables with commas between them. -/
theorem dimStatement (hc : Readable strict inside c) :
    Gives δ strict ⟨inside, c :: cs⟩ false Production.dimStatement :=
  line _ (seq (take hc) (commaSeparated declarator declarator))

/-- What stands behind the prefix of constants. -/
theorem constRow : Flows δ strict spot true (do
    Production.expectWord .kwConst
    Production.commaSeparated do
      Production.field .name Production.identifier
      Production.optionalAsClause
      Production.expectMark .equal
      Production.field .value (Production.nested Production.expression)) := by
  have hitem {spot : Spot} : Flows δ strict spot true (do
      Production.field .name Production.identifier
      Production.optionalAsClause
      Production.expectMark .equal
      Production.field .value (Production.nested Production.expression)) :=
    seq (field _ identifier)
    (seq optionalAsClause (seq (expectMark (.word rfl)) (fieldNested _ expression)))
  exact seq (expectWord (.word rfl)) (commaSeparated hitem hitem)

/-- Attributes may stand in front on a line of their own. -/
theorem constDeclaration : Gives δ false spot false Production.constDeclaration :=
  line _ (seqAny declarationPrefix constRow)

/-- A directive is one token. -/
theorem directive (hc : Readable strict inside c) :
    Gives δ strict ⟨inside, c :: cs⟩ false Production.directive :=
  line _ (take hc)

/-- The words for what can be left may be read one by one. -/
theorem isWord_of_canBeExited {kind : TokenKind} (h : canBeExited kind = true) :
    kind.isWord = true := by
  cases kind with
  | keyword word => cases word <;> first | rfl | cases h
  | _ => cases h

/-- Two words. -/
theorem exitStatement (hc : Readable strict inside c) :
    Gives δ strict ⟨inside, c :: cs⟩ false Production.exitStatement := by
  refine line _ (seq (take hc) (peek fun kind => ite (fun h => ?_) fun _ => fail _))
  exact take (.word (isWord_of_canBeExited h))

/-- Two words. -/
theorem continueStatement (hc : Readable strict inside c) :
    Gives δ strict ⟨inside, c :: cs⟩ false Production.continueStatement := by
  refine line _ (seq (take hc) (peek fun kind => ?_))
  split
  case h_4 => exact fail _
  all_goals exact take (.word rfl)

/-- A word and a label. -/
theorem goToStatement (hc : Readable strict inside c) :
    Gives δ strict ⟨inside, c :: cs⟩ false Production.goToStatement :=
  line _ (seq (take hc) (field _ (ifAt (ruleLeaf _ (.word rfl)) identifier)))

/-- Each array is read on from its name, access by access. -/
theorem reDimStatement (hc : Readable strict inside c) :
    Gives δ strict ⟨inside, c :: cs⟩ false Production.reDimStatement := by
  have hitem {spot : Spot} : Flows δ strict spot true (do
      let array ← Production.iterate (fun array => do
        if ← atKind (.mark .dot) then Option.some <$> Production.memberAccess array
        else return Option.none) (← Production.identifier)
      Production.attach (array.inField .array)
      Production.child (Production.nested Production.arrayBounds)) := by
    refine bind identifier fun first first' hfirst => ?_
    refine bind (iterate (fun array array' h => ?_) (fun array => ?_) hfirst)
      fun array array' h => ?_
    · exact ifAt (some (memberAccess h rfl)) none
    · exact .look (Looks.test _) fun _ => .ite (.some (progresses_memberAccess array)) (.pure nofun)
    · exact attachThen (h.inField _) (childNested arrayBounds)
  refine line _ (seq (take hc) (seq (acceptAny (.word rfl)) (commaSeparated hitem hitem)))

/-- Two expressions with a comma between them. -/
theorem handlerStatement (rule : Rule) (hc : Readable strict inside c) :
    Gives δ strict ⟨inside, c :: cs⟩ false (Production.handlerStatement rule) := by
  refine line _ (seq (take hc) (seq (fieldNested _ expression) ?_))
  exact seq (expectMark (.word rfl)) (fieldNested _ expression)

/-- A name and perhaps arguments. -/
theorem raiseEventStatement (hc : Readable strict inside c) :
    Gives δ strict ⟨inside, c :: cs⟩ false Production.raiseEventStatement := by
  refine line _ (seq (take hc) (seq (field _ identifier) ?_))
  exact ifAt (fieldNested _ arguments) (pure rfl)

end

-- ---------------------------------------------------------------------------
-- Lines that open blocks and their parts
-- ---------------------------------------------------------------------------

/-- A comparison, a range or a value. -/
theorem caseClause : Gives δ strict (.plain true) true Production.caseClause := by
  have hrelation : Flows δ strict (.plain true) true (do
      if (← Production.peek).isRelational then
        Production.child (Production.ruleLeaf .relationalOperator)
        Production.child (Production.nested Production.expression)
      else
        Production.child (Production.nested Production.expression)
        if ← acceptWord .kwTo then Production.child (Production.nested Production.expression)) := by
    refine peek fun kind => ite (fun h => ?_) fun _ => ?_
    · exact seq (child (ruleLeaf _ (.midway (TokenKind.isMidway_of_isRelational h))))
        (childNested expression)
    · exact seq (childNested expression) (ifAccept (.word rfl) (childNested expression) (pure rfl))
  refine node _ (ifAccept (.word rfl) (peek fun kind => ?_) hrelation)
  exact ite (fun _ => Phrase.at hrelation) fun _ => failThen _

/-- Where there is no condition, nothing is read. -/
theorem loopCondition : Flows δ strict spot spot.inside Production.optionalLoopCondition := by
  refine ifTest [fun kind => kind == .keyword .kwWhile || kind == .keyword .kwUntil]
    (Nearsighted.kind fun kind => kind == .keyword .kwWhile || kind == .keyword .kwUntil).steady
    (fun _ _ _ h => ⟨h, trivial⟩) (seq (take (.either rfl rfl)) ?_) (pure rfl)
  exact still (fieldNested _ expression)

/-- What stands behind the word that opens a loop over numbers. -/
theorem forHeader : Flows δ strict spot true (do
    Production.field .«variable» Production.identifier
    Production.optionalAsClause
    Production.expectMark .equal
    Production.field .start (Production.nested Production.expression)
    Production.expectWord .kwTo
    Production.field .«end» (Production.nested Production.expression)
    if ← acceptWord .kwStep then
      Production.field .step (Production.nested Production.expression)) := by
  refine seq (field _ identifier) (seq optionalAsClause (seq (expectMark (.word rfl)) ?_))
  refine seq (fieldNested _ expression)
    (seq (expectWord (.word rfl)) (seq (fieldNested _ expression) ?_))
  exact ifAccept (.word rfl) (fieldNested _ expression) (pure rfl)

/-- What stands behind the first word of a loop over a collection. -/
theorem forEachHeader {inside : Bool} {c : TokenKind → Bool} {cs : List (TokenKind → Bool)}
    (hc : Readable strict inside c) : Flows δ strict ⟨inside, c :: cs⟩ true (do
      Production.take
      Production.field .«variable» Production.identifier
      Production.optionalAsClause
      Production.expectWord .kwIn
      Production.field .collection (Production.nested Production.expression)) := by
  refine seq (take hc) (seq (field _ identifier) (seq optionalAsClause ?_))
  exact seq (expectWord (.word rfl)) (fieldNested _ expression)

/-- What is caught may be missing altogether. -/
theorem catchHeader : Flows δ strict (.plain true) true Production.catchHeader := by
  have hfilter : Flows δ strict (.plain true) true (do
      if ← acceptWord .kwWhen then
        Production.field .filter (Production.nested Production.expression)) :=
    ifAccept (.word rfl) (fieldNested _ expression) (pure rfl)
  refine peek fun kind => ?_
  refine look (Looks.test _) (Nearsighted.kind (· == .keyword .kwWhen)).steady
    (fun _ => .before true (· == kind)) (fun _ _ h => h) fun _ => ite (fun _ => ?_)
    fun _ => Phrase.at hfilter
  refine seq (field _ identifier) (ifAccept (.word rfl) ?_ hfilter)
  exact seq (fieldNested _ (type true)) hfilter

/-- New variables in a `Using` have an equals sign or a type. -/
theorem resources_eq : (Production.resources : Parse Unit) = (do
    if ← test fun env s => (env.kind s).isNameLike &&
        (env.kindAhead s 1 == .keyword .kwAs || env.kindAhead s 1 == .mark .equal) then
      Production.commaSeparated do
        Production.field .resource Production.identifier
        Production.optionalAsClause
        Production.optionalValue .value
    else Production.field .value (Production.nested Production.expression)) := rfl

/-- New variables or a value, which two tokens tell apart. -/
theorem resources : Flows δ strict spot true Production.resources := by
  have hitem {spot : Spot} : Flows δ strict spot true (do
      Production.field .resource Production.identifier
      Production.optionalAsClause
      Production.optionalValue .value) :=
    seq (field _ identifier) (seq optionalAsClause (optionalValue _))
  rw [resources_eq]
  exact ifLook (Nearsighted.pair (p := TokenKind.isNameLike)
    (q := fun kind => kind == .keyword .kwAs || kind == .mark .equal) rfl).steady
    (commaSeparated hitem hitem) (fieldNested _ expression)

-- ---------------------------------------------------------------------------
-- Lines that open members
-- ---------------------------------------------------------------------------

/-- What stands behind the name of a routine. -/
theorem signature (isFunction : Bool) :
    Flows δ strict (.plain true) true (Production.signature isFunction) := by
  have hresult : Flows δ strict (.plain true) true (do
      if isFunction then
        if ← acceptWord .kwAs then
          Production.repeatWhile do
            if ← atKind (.mark .less) then
              Production.child (Production.nested Production.attributeBlock)
              return true
            return false
          Production.field .returnType (Production.nested (Production.type true))) := by
    have hattributes : Flows δ strict (.plain true) true (Production.repeatWhile do
        if ← atKind (.mark .less) then
          Production.child (Production.nested Production.attributeBlock)
          return true
        return false) := by
      refine repeatWhile (ifAt (seq (childNested (attributeBlock (.inl rfl))) (pure rfl))
        (pure rfl)) ?_
      exact .look (Looks.test _) fun _ =>
        .ite (.round (Steps.child Builds.attributeBlock.nested)) (.pure nofun)
    refine ite (fun _ => ifAccept (.word rfl) ?_ (pure rfl)) fun _ => pure rfl
    exact seq hattributes (fieldNested _ (type true))
  have hparameters : Flows δ strict (.plain true) true (do
      Production.optionalParameters
      if isFunction then
        if ← acceptWord .kwAs then
          Production.repeatWhile do
            if ← atKind (.mark .less) then
              Production.child (Production.nested Production.attributeBlock)
              return true
            return false
          Production.field .returnType (Production.nested (Production.type true))) :=
    seq optionalParameters hresult
  exact ifLook (Nearsighted.hasAhead (by decide)).steady
    (seq (childNested typeParameters) hparameters)
    hparameters

/-- The word that opens a routine, and what is done behind it. -/
theorem routineWord {α β : Type} {closing lands : Bool} {r : α → β → Prop} {k : Keyword → Parse α}
    {k' : Keyword → Parse β}
    (hk : ∀ word, (TokenKind.keyword word).isWord = true →
      Phrase δ strict (.before spot.inside (· == .keyword word)) closing lands r (k word)
      (k' word)) :
    Phrase δ strict spot closing lands r
      (do
        let word ← match ← Production.peek with
          | .keyword .kwSub => Pure.pure Keyword.kwSub
          | .keyword .kwFunction => Pure.pure Keyword.kwFunction
          | _ => Production.fail (.oneOf [.keyword .kwSub, .keyword .kwFunction])
        k word)
      (do
        let word ← match ← Production.peek with
          | .keyword .kwSub => Pure.pure Keyword.kwSub
          | .keyword .kwFunction => Pure.pure Keyword.kwFunction
          | _ => Production.fail (.oneOf [.keyword .kwSub, .keyword .kwFunction])
        k' word) := by
  refine peek fun kind => ?_
  split
  · rw [pure_bind, pure_bind]
    exact hk _ rfl
  · rw [pure_bind, pure_bind]
    exact hk _ rfl
  · exact failThen _

/-- What stands behind the word that opens a routine. -/
theorem behindRoutineWord (isConstructor : Bool) (word : Keyword) :
    Flows δ false (.plain true) false (do
    if isConstructor then Production.expectWord .kwNew
    else Production.field .name Production.identifier
    Production.signature (word == .kwFunction)
    Production.memberClauses
    Production.endStatement
    return word) := by
  have hend : Flows δ false (.plain true) false (do
      Production.signature (word == .kwFunction)
      Production.memberClauses
      Production.endStatement
      return word) :=
    seq (signature _) (seq memberClauses (seqAny endStatement (pure rfl)))
  exact ite (fun _ => seq (expectWord (.word rfl)) hend) fun _ => seq (field _ identifier) hend

/-- What stands behind the prefix of a routine. -/
theorem routineRest (isConstructor : Bool) : Flows δ false (.plain false) false (do
    let word ← match ← Production.peek with
      | .keyword .kwSub => Pure.pure Keyword.kwSub
      | .keyword .kwFunction => Pure.pure Keyword.kwFunction
      | _ => Production.fail (.oneOf [.keyword .kwSub, .keyword .kwFunction])
    Production.take
    if isConstructor then Production.expectWord .kwNew
    else Production.field .name Production.identifier
    Production.signature (word == .kwFunction)
    Production.memberClauses
    Production.endStatement
    return word) :=
  routineWord fun word hword => seq (take (.word hword)) (behindRoutineWord isConstructor word)

/-- The opening line of a routine. The word is known to be there once it has been seen. -/
theorem routineHeader (isConstructor : Bool) :
    Flows δ false spot false (Production.routineHeader isConstructor) :=
  checked (seqAny declarationPrefix (routineRest isConstructor))

/-- What stands behind the prefix of a property. -/
theorem propertyName : Flows δ strict spot true (do
    Production.expectWord .kwProperty
    Production.field .name Production.identifier
    Production.optionalParameters
    Production.optionalAsClause) :=
  seq (expectWord (.word rfl)) (seq (field _ identifier) (seq optionalParameters optionalAsClause))

/-- The opening line of a property, up to what tells its two forms apart. -/
theorem propertyHeader : Flows δ false spot true Production.propertyHeader :=
  checked (seqAny declarationPrefix propertyName)

/-- What stands behind the prefix of an event. -/
theorem eventName : Flows δ strict spot false (do
    Production.expectWord .kwEvent
    Production.field .name Production.identifier
    if ← atKind (.mark .leftParen) then
      Production.field .parameters (Production.nested Production.parameters)
    else Production.optionalAsClause
    Production.memberClauses
    Production.endStatement) := by
  have hend : Flows δ strict (.plain true) false (do
      Production.memberClauses
      Production.endStatement) :=
    seq memberClauses endStatement
  refine seq (expectWord (.word rfl)) (seq (field _ identifier) ?_)
  exact ifAt (seq (fieldNested _ parameters) hend) (seq optionalAsClause hend)

/-- The opening line of an event. -/
theorem eventHeader : Flows δ false spot false Production.eventHeader :=
  checked (seqAny declarationPrefix eventName)

/-- What stands behind the prefix of fields. -/
theorem fieldRow : Flows δ strict spot true (do
    let _ ← acceptWord .kwDim
    Production.commaSeparated (Production.child (Production.nested
      (Production.node .variableDeclarator Production.declarator)))) := by
  have hitem {spot : Spot} : Flows δ strict spot true
      (Production.child
        (Production.nested (Production.node .variableDeclarator Production.declarator))) :=
    childNested (node _ declarator)
  exact seq (acceptAny (.word rfl)) (commaSeparated hitem hitem)

/-- Variables behind attributes and modifiers. -/
theorem fieldDeclaration : Gives δ false spot false Production.fieldDeclaration :=
  line _ (seqAny declarationPrefix fieldRow)

/-- A name and perhaps a value. -/
theorem enumMember : Gives δ false spot false Production.enumMember :=
  line _ (seqAny declarationPrefix (seq (field _ identifier) (optionalValue _)))

/-- What stands behind the prefix of a delegate. -/
theorem delegateSignature : Flows δ false spot true (do
    Production.expectWord .kwDelegate
    let isFunction ← atWord .kwFunction
    unless isFunction || (← atWord .kwSub) do
      Production.fail (.oneOf [.keyword .kwSub, .keyword .kwFunction])
    Production.take
    Production.field .name Production.identifier
    Production.signature isFunction) := by
  refine seq (expectWord (.word rfl)) (ifEitherOf (fun isFunction => ?_) fun _ => failThen _)
  exact seq (take (.either rfl rfl)) (seq (field _ identifier) (signature isFunction))

/-- The line of a routine behind a word of its own. -/
theorem delegateDeclaration : Gives δ false spot false Production.delegateDeclaration :=
  line _ (seqAny declarationPrefix delegateSignature)

-- ---------------------------------------------------------------------------
-- Lines of a file
-- ---------------------------------------------------------------------------

/-- A setting is one word or two. -/
theorem optionSetting : Flows δ strict (.plain true) true Production.optionSetting := by
  refine peek fun kind => ?_
  split
  case h_4 =>
    exact seq (take (.word rfl)) (ifEither (take (.either rfl rfl)) (fail _))
  case h_5 => exact fail _
  all_goals exact seq (take (.word rfl)) (ifEither (take (.either rfl rfl)) (pure rfl))

/-- Lines of settings, each of which begins with the same word. -/
theorem optionStatements : Gives δ strict spot false Production.optionStatements := by
  have hrest : Flows δ strict (.plain true) false (do
      Production.optionSetting
      Production.endStatement
      atWord .kwOption) :=
    seq optionSetting
      (seqAny endStatement (see (Nearsighted.kind (· == .keyword .kwOption)).steady))
  refine node _ (anywhere (repeatWhile (seq (expectWord (.word rfl)) hrest) ?_))
  exact .first (.of_steps (Steps.expectWord _)) (.of_steps (Steps.expectWord _))
    fun _ => hrest.climbs

/-- Another name in front of a namespace has an equals sign behind it. -/
theorem importsStatement_eq :
    (Production.importsStatement : Parse Node) = Production.line .importsStatement (do
    Production.take
    Production.commaSeparated do
      if ← test fun env s => (env.kind s).isNameLike && env.kindAhead s 1 == .mark .equal then
        Production.child (Production.ruleLeaf .identifier)
        Production.take
      Production.field .«namespace» Production.dottedName) := rfl

/-- The names behind `Imports`. -/
theorem importsRow {inside : Bool} {c : TokenKind → Bool} {cs : List (TokenKind → Bool)}
    (hc : Readable strict inside c) : Flows δ strict ⟨inside, c :: cs⟩ true (do
      Production.take
      Production.commaSeparated do
        if ← test fun env s => (env.kind s).isNameLike && env.kindAhead s 1 == .mark .equal then
          Production.child (Production.ruleLeaf .identifier)
          Production.take
        Production.field .«namespace» Production.dottedName) := by
  have hitem {spot : Spot} : Flows δ strict spot true (do
      if ← test fun env s => (env.kind s).isNameLike && env.kindAhead s 1 == .mark .equal then
        Production.child (Production.ruleLeaf .identifier)
        Production.take
      Production.field .«namespace» Production.dottedName) := by
    have hname : Readable strict spot.inside TokenKind.isNameLike :=
      .of_isWord fun _ => TokenKind.isWord_of_isNameLike
    refine ifTest [TokenKind.isNameLike, (· == .mark .equal)]
      (Nearsighted.pair (p := TokenKind.isNameLike) (q := (· == .mark .equal)) rfl).steady
      (fun _ _ _ h => ?_) ?_ (field _ dottedName)
    · obtain ⟨hfirst, hsecond⟩ := Bool.and_eq_true_iff.1 h
      exact ⟨hfirst, hsecond, trivial⟩
    · refine bindOne (child (ruleLeaf _ hname)) (ReadsOne.ruleChild .identifier).2 rfl
        (fun (_ : true = true) => hname.isInnerClass) fun _ _ _ => ?_
      exact seq (take (.word rfl)) (field _ dottedName)
  exact seq (take hc) (commaSeparated hitem hitem)

/-- The word is known to be there. -/
theorem importsStatement {inside : Bool} {c : TokenKind → Bool} {cs : List (TokenKind → Bool)}
    (hc : Readable strict inside c) :
    Gives δ strict ⟨inside, c :: cs⟩ false Production.importsStatement := by
  rw [importsStatement_eq]
  exact line _ (importsRow hc)

/-- Attributes on a line of their own. -/
theorem fileAttribute : Gives δ false spot false Production.fileAttribute :=
  bind (nested (attributeBlock (.inr rfl))) fun _ _ h => seqAny endStatement (pure h)

end VisualBasic.Production.Phrase
