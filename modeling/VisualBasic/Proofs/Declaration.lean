import VisualBasic.Grammar.Declaration
import VisualBasic.Proofs.Statement

/-!
# Judgements about declarations

A declaration without a body is quiet, one with a body is loud. The header of a type or of an
accessor may break off behind a part that was read; their nodes are the only ones here whose
readings may lose tokens.

Main results:

* `Builds.typeDeclaration` — the judgement of types, by induction on the levels that are left.
* `Builds.fileItem` — every item of a file reads a token where there is one.
* `reading_sourceFile` — the tree of a file is a reading of all its tokens.
-/

namespace VisualBasic.Production

open State

variable {α : Type}

-- ---------------------------------------------------------------------------
-- Routines
-- ---------------------------------------------------------------------------

/-- The word behind attributes and modifiers is only looked at. -/
theorem Looks.peekBehindPrefix : Looks Production.peekBehindPrefix
    (fun env s => env.tokens.kindAt (env.tokens.behindPrefix s.cursor)) := fun _ _ => rfl

/-- A blank line is one token. -/
theorem Builds.blankLine : Builds .inPlace 1 true Production.blankLine := Builds.ruleLeaf .blankLine

/-- The name of a routine, its parameters and what it returns. -/
theorem Steps.signature (isFunction : Bool) :
    Steps .quiet 0 false (Production.signature isFunction) := by
  have hattribute : Steps .quiet 0 false (do
      if ← atKind (.mark .less) then
        Production.child (Production.nested Production.attributeBlock)
        return true
      return false) := by
    refine Steps.look (Looks.test _) fun _ => Steps.ite (fun _ => ?_) fun _ => Steps.pure _
    exact Steps.bind (Steps.child Builds.attributeBlock.nested) fun _ => Steps.pure _
  have hresult : Steps .quiet 0 false (do
      if isFunction then
        if ← Production.acceptWord .kwAs then
          Production.repeatWhile do
            if ← atKind (.mark .less) then
              Production.child (Production.nested Production.attributeBlock)
              return true
            return false
          Production.field .returnType (Production.nested (Production.type true))) := by
    refine Steps.ite (fun _ => ?_) fun _ => Steps.pure _
    refine Steps.bind (Steps.acceptWord .kwAs) fun _ => ?_
    refine Steps.ite (fun _ => ?_) fun _ => Steps.pure _
    refine Steps.bind (Steps.repeatWhile hattribute) fun _ => ?_
    exact (Steps.field .returnType (Builds.type true).nested).still
  have hparameters : Steps .quiet 0 false (do
      Production.optionalParameters
      if isFunction then
        if ← Production.acceptWord .kwAs then
          Production.repeatWhile do
            if ← atKind (.mark .less) then
              Production.child (Production.nested Production.attributeBlock)
              return true
            return false
          Production.field .returnType (Production.nested (Production.type true))) :=
    Steps.bind Steps.optionalParameters fun _ => hresult
  refine Steps.look (Looks.test _) fun _ => ?_
  exact Steps.when (Steps.child Builds.typeParameters.nested) hparameters

/-- A word that opens a routine, and what is done behind it. -/
theorem Steps.routineWord {k : Keyword → Parse α} (hk : ∀ word, Steps .quiet 1 true (k word)) :
    Steps .quiet 0 true (do
      let word ← match ← Production.peek with
        | .keyword .kwSub => Pure.pure Keyword.kwSub
        | .keyword .kwFunction => Pure.pure Keyword.kwFunction
        | _ => Production.fail (.oneOf [.keyword .kwSub, .keyword .kwFunction])
      k word) := by
  refine Steps.peek fun kind => ?_
  split
  · exact Steps.look (Looks.pure _) hk
  · exact Steps.look (Looks.pure _) hk
  · exact Steps.failThen _

/-- The header of a routine, up to the end of its line. -/
theorem Steps.routineHeader (isConstructor : Bool) :
    Steps .quiet 0 true (Production.routineHeader isConstructor) := by
  have hend (word : Keyword) : Steps .quiet 0 false (do
      Production.signature (word == .kwFunction)
      Production.memberClauses
      Production.endStatement
      return word) := by
    refine Steps.bind (Steps.signature _) fun _ => Steps.bind Steps.memberClauses fun _ => ?_
    exact Steps.bind Steps.endStatement fun _ => Steps.pure _
  have hrest (word : Keyword) : Steps .quiet 1 true (do
      Production.take
      if isConstructor then Production.expectWord .kwNew
      else Production.field .name Production.identifier
      Production.signature (word == .kwFunction)
      Production.memberClauses
      Production.endStatement
      return word) := by
    refine Steps.bind ReadsOne.take.1 fun _ => Steps.ite (fun _ => ?_) fun _ => ?_
    · exact Steps.bind (Steps.expectWord .kwNew) fun _ => hend word
    · exact Steps.bind (Steps.field .name Builds.identifier) fun _ => hend word
  refine Steps.bind Steps.checkDepth fun _ => Steps.bind Steps.declarationPrefix fun _ => ?_
  exact Steps.routineWord hrest

section

variable {r : Rule}

/-- The form with a body, which may leave diagnostics behind. -/
theorem Builds.routineWithBody [Holds r.isPlain] :
    Builds .loud 0 true (Production.routineWithBody r) := by
  refine Builds.block .loud (Fills.look Looks.currentLine fun line => ?_)
  refine Fills.bind (Steps.routineHeader _) fun word => Fills.openBlockAt word line ?_
  refine Fills.bind (Steps.statements .statement) fun _ => ?_
  exact Fills.finishBlock word

/-- The form without a body is a header only. -/
theorem Builds.routineWithoutBody [Holds r.isPlain] :
    Builds .quiet 0 true (Production.routineWithoutBody r) :=
  Builds.node (Steps.bind (Steps.routineHeader _) fun _ => Steps.pure _)

/-- A routine is one of the two forms, or an error region. -/
theorem Builds.routine (a : Ambiguity) [Holds r.isPlain] :
    Builds .loud 0 true (Production.routine a r) := by
  refine Builds.resolve a (List.forall_mem_cons.2 ⟨Builds.routineWithBody, ?_⟩)
  exact List.forall_mem_cons.2
    ⟨Builds.routineWithoutBody.mono, fun _ hx => absurd hx List.not_mem_nil⟩

end

-- ---------------------------------------------------------------------------
-- Properties
-- ---------------------------------------------------------------------------

/-- The header of a property, up to the end of its line. -/
theorem Steps.propertyHeader : Steps .quiet 0 true Production.propertyHeader := by
  refine Steps.bind Steps.checkDepth fun _ => Steps.bind Steps.declarationPrefix fun _ => ?_
  refine Steps.bind (Steps.expectWord .kwProperty) fun _ => ?_
  refine Steps.bind (Steps.field .name Builds.identifier) fun _ => ?_
  exact Steps.bind Steps.optionalParameters fun _ => Steps.optionalAsClause

/-- Either accessor: what its word is decides on the parameters only. -/
theorem Builds.accessorOf {r : Rule} {word : Keyword} (hr : r.Opens word)
    [Holds r.keepsBrokenHeader]
    [Holds (TokenKind.keyword word).isInner] :
    Builds .loud 1 true (Production.node r do
      Production.openBlock word
      Production.recovering do
        Production.declarationPrefix
        Production.expectWord word
        if word == .kwSet then Production.optionalParameters
        Production.endStatement
      Production.statements Production.statement
      Production.finishBlock word) := by
  have hheader : Steps .quiet 1 true (do
      Production.declarationPrefix
      Production.expectWord word
      if word == .kwSet then Production.optionalParameters
      Production.endStatement) := by
    refine Steps.bind Steps.declarationPrefix fun _ => ?_
    refine Steps.bind (Steps.expectWord word) fun _ => ?_
    exact Steps.when Steps.optionalParameters Steps.endStatement.mono
  have hkeeps : Keeps [] (do
      Production.declarationPrefix
      Production.expectWord word
      if word == .kwSet then Production.optionalParameters
      Production.endStatement) := by
    refine Keeps.bind Keeps.declarationPrefix fun _ => Keeps.bind (Keeps.expect) fun _ => ?_
    exact Keeps.when Keeps.optionalParameters Keeps.endStatement
  refine (BuildsAt.block .broken hr (Fills.openBlock word ?_) (Closes.openBlock word ?_)).builds
  · refine Fills.bind (Steps.recovering hheader fun _ => Nat.one_pos) fun _ => ?_
    refine Fills.bind (Steps.statements .statement) fun _ => ?_
    exact Fills.finishBlock word
  · refine Closes.bind (Keeps.recovering hkeeps) fun _ => ?_
    exact Closes.bind (Keeps.statements .statement) fun _ => Closes.finishBlock

/-- An accessor reads its word at least. -/
theorem Builds.accessor : Builds .loud 1 true Production.accessor := by
  refine Builds.look Looks.peekBehindPrefix fun kind => ?_
  by_cases h : (kind == .keyword .kwGet) = true
  · rw [if_pos h]
    exact Builds.accessorOf ⟨rfl, nofun⟩
  · rw [if_neg h]
    exact Builds.accessorOf ⟨rfl, nofun⟩

/-- At the end of the text there are no attributes and modifiers to look behind. -/
theorem behindPrefix_of_endOfFile {t : TokenStream} {i : Nat} (h : t.kindAt i = .endOfFile) :
    t.behindPrefix i = i := by
  unfold TokenStream.behindPrefix TokenStream.prefixEnd
  rw [h]
  split
  · show t.firstFrom (!·.isModifier) i = i
    rw [TokenStream.firstFrom, h]
    rfl
  · rfl

/-- Where the word of an accessor is seen behind the modifiers, there is a token to read. -/
theorem Steps.ifAccessor {m : Manner} {n : Nat} {b : Bool} {p q : Parse α} (hp : Steps m 1 b p)
    (hq : Steps m n b q) : Steps m n b (Production.peekBehindPrefix >>= fun x =>
      if TokenStream.isAccessor x = true then p else q) := by
  intro env s ready
  rw [Looks.peekBehindPrefix.run_bind]
  split
  · rename_i h
    refine hp env s (.of_kindAt_ne fun hend => ?_)
    rw [behindPrefix_of_endOfFile hend, hend] at h
    exact Bool.noConfusion h
  · exact hq env s ready

/-- The form with accessors, which may leave diagnostics behind. -/
theorem Builds.propertyWithAccessors : Builds .loud 0 true Production.propertyWithAccessors := by
  have hregion : Builds .loud 0 false
      (Production.unexpected (.oneOf [.keyword .kwGet, .keyword .kwSet])) :=
    Builds.unexpected _ nofun
  have hitem : Steps .loud 0 false Production.propertyItem := by
    refine Steps.peek fun kind => Steps.ite (fun h => ?_) fun _ => ?_
    · rw [TokenKind.ahead_of h rfl]
      exact Steps.bind (Steps.child Builds.blankLine) fun _ => Steps.pure _
    refine Steps.ifAccessor (n := kind.ahead) ?_ ?_
    · exact Steps.bind (Steps.child Builds.accessor.nested) fun _ => Steps.pure _
    refine Steps.look (Looks.test _) fun _ => Steps.ite (fun _ => Steps.pure _) fun _ => ?_
    exact Steps.bind (Steps.child hregion) fun _ => Steps.pure _
  refine Builds.block .loud (Fills.look Looks.currentLine fun line => ?_)
  refine Fills.bind Steps.propertyHeader fun _ => Fills.bind Steps.memberClauses fun _ => ?_
  refine Fills.bind Steps.endStatement fun _ => Fills.openBlockAt .kwProperty line ?_
  exact Fills.bind (Steps.repeatWhile hitem) fun _ => Fills.finishBlock .kwProperty

/-- The form without accessors is a header only. -/
theorem Builds.propertyWithoutAccessors :
    Builds .quiet 0 true Production.propertyWithoutAccessors := by
  refine Builds.line (Steps.bind Steps.propertyHeader fun _ => ?_)
  exact Steps.bind (Steps.optionalValue .initializer) fun _ => Steps.memberClauses

/-- A property is one of the two forms, or an error region. -/
theorem Builds.propertyDeclaration : Builds .loud 0 true Production.propertyDeclaration := by
  refine Builds.resolve _ (List.forall_mem_cons.2 ⟨Builds.propertyWithAccessors, ?_⟩)
  exact List.forall_mem_cons.2
    ⟨Builds.propertyWithoutAccessors.mono, fun _ hx => absurd hx List.not_mem_nil⟩

-- ---------------------------------------------------------------------------
-- Events
-- ---------------------------------------------------------------------------

/-- The header of an event, up to the end of its line. -/
theorem Steps.eventHeader : Steps .quiet 0 true Production.eventHeader := by
  have hend : Steps .quiet 0 false (do
      Production.memberClauses
      Production.endStatement) :=
    Steps.bind Steps.memberClauses fun _ => Steps.endStatement.mono
  refine Steps.bind Steps.checkDepth fun _ => Steps.bind Steps.declarationPrefix fun _ => ?_
  refine Steps.bind (Steps.expectWord .kwEvent) fun _ => ?_
  refine Steps.bind (Steps.field .name Builds.identifier) fun _ => ?_
  refine Steps.look (Looks.test _) fun _ => Steps.ite (fun _ => ?_) fun _ => ?_
  · exact Steps.bind (Steps.field .parameters Builds.parameters.nested) fun _ => hend
  · exact Steps.bind Steps.optionalAsClause fun _ => hend

/-- An accessor of an event, in front of its word. -/
theorem BuildsAt.eventAccessor {r : Rule} {word : Keyword} (hr : r.Opens word)
    [Holds r.keepsBrokenHeader] [Holds (TokenKind.keyword word).isInner] :
    BuildsAt [.keyword word] .loud 1 true (Production.eventAccessor r word) := by
  have hheader : Steps .quiet 0 false (do
      Production.optionalParameters
      Production.endStatement) :=
    Steps.bind Steps.optionalParameters fun _ => Steps.endStatement.mono
  have hkeeps : Keeps [] (do
      Production.optionalParameters
      Production.endStatement) :=
    Keeps.bind Keeps.optionalParameters fun _ => Keeps.endStatement
  refine BuildsAt.block .broken hr (Fills.openBlock word ?_) (Closes.openBlock word ?_)
  · refine Fills.bind ReadsOne.take.1 fun _ => Fills.bind (Steps.recovering hheader nofun)
      fun _ => ?_
    refine Fills.bind (Steps.statements .statement) fun _ => ?_
    exact Fills.finishBlock word
  · refine Closes.takeThen (Closes.bind (Keeps.recovering hkeeps) fun _ => ?_)
    exact Closes.bind (Keeps.statements .statement) fun _ => Closes.finishBlock

/-- An accessor of an event, which is followed by another item. -/
theorem StepsAt.eventAccessor {r : Rule} {word : Keyword} (hr : r.Opens word)
    [Holds r.keepsBrokenHeader] [Holds (TokenKind.keyword word).isInner] :
    StepsAt [.keyword word] .loud 1 false (do
      Production.child (Production.nested (Production.eventAccessor r word))
      return true) :=
  StepsAt.childThen (BuildsAt.eventAccessor hr).nested.mono

/-- One item of an event that has accessors, up to its closing line. -/
theorem Steps.eventItem : Steps .loud 0 false Production.eventItem := by
  have hregion : Builds .loud 0 false (Production.unexpected .eventAccessor) :=
    Builds.unexpected _ nofun
  have hblank : Steps .loud 1 false (do
      Production.child Production.blankLine
      return true) :=
    Steps.bind (Steps.child Builds.blankLine) fun _ => Steps.pure _
  refine Steps.peekAt fun kind => ?_
  split
  · exact hblank.at
  · exact hblank.at
  · exact StepsAt.eventAccessor ⟨rfl, nofun⟩
  · exact StepsAt.eventAccessor ⟨rfl, nofun⟩
  · exact StepsAt.eventAccessor ⟨rfl, nofun⟩
  · refine Steps.at (Steps.look (Looks.test _) fun _ => Steps.ite (fun _ => Steps.pure _)
      fun _ => ?_)
    exact Steps.bind (Steps.child hregion) fun _ => Steps.pure _

/-- The form with accessors, which may leave diagnostics behind. -/
theorem Builds.eventWithAccessors : Builds .loud 0 true Production.eventWithAccessors := by
  refine Builds.block .loud (Fills.look Looks.currentLine fun line => ?_)
  refine Fills.bind Steps.eventHeader fun _ => Fills.openBlockAt .kwEvent line ?_
  exact Fills.bind (Steps.repeatWhile Steps.eventItem) fun _ => Fills.finishBlock .kwEvent

/-- An event is one of the two forms, or an error region. -/
theorem Builds.eventDeclaration : Builds .loud 0 true Production.eventDeclaration := by
  have hbare : Builds .quiet 0 true Production.eventWithoutAccessors :=
    Builds.node Steps.eventHeader
  refine Builds.resolve _ (List.forall_mem_cons.2 ⟨Builds.eventWithAccessors, ?_⟩)
  exact List.forall_mem_cons.2 ⟨hbare.mono, fun _ hx => absurd hx List.not_mem_nil⟩

-- ---------------------------------------------------------------------------
-- Fields, enumerations and delegates
-- ---------------------------------------------------------------------------

/-- Fields are one line, and quiet. -/
theorem Builds.fieldDeclaration : Builds .quiet 0 true Production.fieldDeclaration := by
  have hdeclarator : Builds .quiet 0 true
      (Production.node .variableDeclarator Production.declarator) :=
    Builds.node Steps.declarator
  refine Builds.line (Steps.bind Steps.declarationPrefix fun _ => ?_)
  refine Steps.bind (Steps.acceptWord .kwDim) fun _ => ?_
  exact Steps.commaSeparated (Steps.child hdeclarator.nested)

/-- A member of an enumeration is one line, and quiet. -/
theorem Builds.enumMember : Builds .quiet 0 true Production.enumMember := by
  refine Builds.line (Steps.bind Steps.declarationPrefix fun _ => ?_)
  exact Steps.bind (Steps.field .name Builds.identifier) fun _ => Steps.optionalValue .value

/-- The members of an enumeration and its closing line. -/
theorem Builds.enumBlock : Builds .loud 0 true Production.enumBlock := by
  have hmember : Builds .loud 0 false (Production.orRecover Production.enumMember) :=
    Builds.orRecover (m := .quiet) Builds.enumMember.mono nofun
  have hitem : Steps .loud 0 false Production.enumItem := by
    refine Steps.peek fun kind => Steps.ite (fun h => ?_) fun _ => ?_
    · rw [TokenKind.ahead_of h rfl]
      exact (Steps.child Builds.blankLine).mono
    · exact (Steps.child hmember.nested).mono
  have hkeeps : Keeps [] Production.enumItem := by
    refine Keeps.look Looks.peek fun _ => Keeps.ite (Keeps.child (Aside.ruleLeaf _).isPart) ?_
    exact Keeps.child (Aside.orRecover (Aside.node _ _).isPart).nested
  refine (BuildsAt.block (r := .enumBlock) .loud ⟨rfl, nofun⟩ ?_ ?_).builds
  · refine Fills.bind Steps.declarationPrefix fun _ => Fills.openBlock .kwEnum ?_
    refine Fills.bind (Steps.expectWord .kwEnum) fun _ => ?_
    refine Fills.bind (Steps.field .name Builds.identifier) fun _ => ?_
    refine Fills.bind Steps.optionalAsClause fun _ => ?_
    refine Fills.bind Steps.endStatement fun _ => ?_
    exact Fills.bind (Steps.body hitem) fun _ => Fills.finishBlock .kwEnum
  · refine Closes.bind Keeps.declarationPrefix fun _ => Closes.openBlock .kwEnum ?_
    refine Closes.bind (Keeps.expect) fun _ => ?_
    refine Closes.bind (Keeps.field .name Aside.identifier) fun _ => ?_
    refine Closes.bind Keeps.optionalAsClause fun _ => ?_
    refine Closes.bind Keeps.endStatement fun _ => ?_
    exact Closes.bind (Keeps.body hkeeps) fun _ => Closes.finishBlock

/-- A delegate is one line, and quiet. -/
theorem Builds.delegateDeclaration : Builds .quiet 0 true Production.delegateDeclaration := by
  have hrest (isFunction : Bool) : Steps .quiet 1 true (do
      Production.take
      Production.field .name Production.identifier
      Production.signature isFunction) := by
    refine Steps.bind ReadsOne.take.1 fun _ => ?_
    exact Steps.bind (Steps.field .name Builds.identifier) fun _ => Steps.signature isFunction
  refine Builds.line (Steps.bind Steps.declarationPrefix fun _ => ?_)
  refine Steps.bind (Steps.expectWord .kwDelegate) fun _ => ?_
  exact Steps.ifEither (fun isFunction => (hrest isFunction).still) fun _ => Steps.failThen _

-- ---------------------------------------------------------------------------
-- Types and their members
-- ---------------------------------------------------------------------------

section

variable {typeDeclaration : Parse Node}

/-- What is known of the production of the types in a type. -/
structure IsTypeDeclaration (typeDeclaration : Parse Node) : Prop where
  builds : Builds .loud 0 true typeDeclaration
  aside : Aside Node.IsPart typeDeclaration

/-- Whatever word announces the member, its production reads a token. -/
theorem builds_memberProduction (htype : Builds .loud 0 true typeDeclaration) {env : Env}
    {s : State} {p : Parse Node} (h : memberProduction? typeDeclaration env s = some p) :
    Builds .loud 0 true p := by
  have hfield : Builds .loud 0 true Production.fieldDeclaration := Builds.fieldDeclaration.mono
  have hmethod : Builds .loud 0 true Production.methodDeclaration := Builds.routine _
  simp only [memberProduction?] at h
  split at h
  case h_1 => cases h; exact Builds.constDeclaration.mono
  case h_2 =>
    cases h
    split
    · exact Builds.routine _
    · exact hmethod
  case h_3 => cases h; exact hmethod
  case h_4 => cases h; exact Builds.propertyDeclaration
  case h_5 => cases h; exact Builds.eventDeclaration
  case h_12 => cases h; exact hfield
  case h_13 =>
    split at h
    · cases h; exact hfield
    · cases h
  all_goals cases h; exact htype

/-- The production that is picked for a member builds its node aside. -/
theorem aside_memberProduction (htype : Aside Node.IsPart typeDeclaration) {env : Env} {s : State}
    {p : Parse Node} (h : memberProduction? typeDeclaration env s = some p) :
    Aside Node.IsPart p := by
  have hpair (a : Ambiguity) (r : Rule) : Aside Node.IsPart (Production.routine a r) :=
    Aside.resolve a (List.forall_mem_cons.2 ⟨(Aside.node _ _).isPart,
      List.forall_mem_cons.2 ⟨(Aside.node _ _).isPart, nofun⟩⟩)
  simp only [memberProduction?] at h
  split at h
  case h_1 | h_12 => cases h; exact (Aside.node _ _).isPart
  case h_2 =>
    cases h
    split
    · exact hpair _ _
    · exact hpair _ _
  case h_3 => cases h; exact hpair _ _
  case h_4 | h_5 =>
    cases h
    exact Aside.resolve _ (List.forall_mem_cons.2 ⟨(Aside.node _ _).isPart,
      List.forall_mem_cons.2 ⟨(Aside.node _ _).isPart, nofun⟩⟩)
  case h_13 =>
    split at h
    · cases h; exact (Aside.node _ _).isPart
    · cases h
  all_goals cases h; exact htype

/-- A member of a type, or an error region in its place. -/
theorem Builds.member (htype : Builds .loud 0 true typeDeclaration) :
    Builds .loud 0 false (Production.member typeDeclaration) := by
  refine Builds.peek fun kind => Builds.ite (fun h => ?_) fun _ => ?_
  · rw [TokenKind.ahead_of h rfl]
    exact Builds.blankLine.mono
  · intro env s ready
    dsimp only
    split
    · rename_i production h
      have hitem : Builds .loud 0 false (Production.orRecover production) :=
        Builds.orRecover (m := .loud) (builds_memberProduction htype h).mono nofun
      exact hitem env s (ready.mono (Nat.zero_le _))
    · have hregion : Builds .loud 0 false (Production.unexpected .memberDeclaration) :=
        Builds.unexpected _ nofun
      exact hregion env s (ready.mono (Nat.zero_le _))

/-- A member is built aside. -/
theorem Aside.member (htype : Aside Node.IsPart typeDeclaration) :
    Aside Node.IsPart (Production.member typeDeclaration) := by
  refine Aside.look Looks.peek fun _ => Aside.ite (Aside.ruleLeaf _).isPart ?_
  refine Aside.of_runs fun env s => ?_
  split
  · exact ⟨_, Aside.orRecover (aside_memberProduction htype ‹_›), rfl⟩
  · exact ⟨_, Aside.unexpected _, rfl⟩

/-- What follows the opening line of a type, before its members. -/
theorem Steps.typeHead :
    Steps .broken 0 false (Production.repeatWhile Production.typeHeadItem) := by
  have hclauses : Steps .quiet 0 false (do
      Production.inheritanceClauses
      Production.endStatement) :=
    Steps.bind Steps.inheritanceClauses fun _ => Steps.endStatement.mono
  refine Steps.repeatWhile (Steps.peek fun kind => ?_)
  split
  · exact Steps.bind (Steps.child Builds.blankLine) fun _ => Steps.pure _
  · exact Steps.bind (Steps.child Builds.blankLine) fun _ => Steps.pure _
  · exact Steps.bind (Steps.recovering hclauses nofun) fun _ => Steps.pure _
  · exact Steps.bind (Steps.recovering hclauses nofun) fun _ => Steps.pure _
  · exact Steps.pure _

/-- What stands between the header of a type and its members closes no block. -/
theorem Keeps.typeHead : Keeps [] (Production.repeatWhile Production.typeHeadItem) := by
  have hclauses := Keeps.bind Keeps.inheritanceClauses fun _ => Keeps.endStatement
  have hblank : Keeps [] (Production.child Production.blankLine) :=
    Keeps.child (Aside.ruleLeaf _).isPart
  refine Keeps.repeatWhile (Keeps.look Looks.peek fun kind => ?_)
  split
  · exact Keeps.bind hblank fun _ => Keeps.pure _
  · exact Keeps.bind hblank fun _ => Keeps.pure _
  · exact Keeps.bind (Keeps.recovering hclauses) fun _ => Keeps.pure _
  · exact Keeps.bind (Keeps.recovering hclauses) fun _ => Keeps.pure _
  · exact Keeps.pure _

/-- A type with the word it begins with, its members and its closing line. -/
theorem Builds.typeBlock (htype : IsTypeDeclaration typeDeclaration) {r : Rule} {word : Keyword}
    (hr : r.Opens word) [Holds r.keepsBrokenHeader]
    [Holds (TokenKind.keyword word).isInner] :
    Builds .loud 0 true (Production.typeBlock typeDeclaration r word) := by
  have hbody : Fills .broken true 0 false (do
      Production.inheritanceClauses
      Production.endStatement
      Production.repeatWhile Production.typeHeadItem
      Production.body (Production.child (Production.nested (Production.member typeDeclaration)))
      Production.finishBlock word) := by
    refine Fills.bind Steps.inheritanceClauses fun _ => ?_
    refine Fills.bind Steps.endStatement fun _ => Fills.bind Steps.typeHead fun _ => ?_
    refine Fills.bind (Steps.body (Steps.child (Builds.member htype.builds).nested)) fun _ => ?_
    exact Fills.finishBlock word
  have hparameters : Aside Node.IsPart Production.typeParameters :=
    Aside.checkDepth (Aside.node _ _).isPart
  refine (BuildsAt.block .broken hr ?_ ?_).builds
  · refine Fills.bind Steps.declarationPrefix fun _ => Fills.openBlock word ?_
    refine Fills.bind (Steps.expectWord word) fun _ => ?_
    refine Fills.bind (Steps.field .name Builds.identifier) fun _ => ?_
    refine Fills.look (Looks.test _) fun _ => ?_
    exact Fills.when (Steps.child Builds.typeParameters.nested) hbody
  · refine Closes.bind Keeps.declarationPrefix fun _ => Closes.openBlock word ?_
    refine Closes.bind (Keeps.expect) fun _ => ?_
    refine Closes.bind (Keeps.field .name Aside.identifier) fun _ => ?_
    refine Closes.look (Looks.test _) fun _ => Closes.when (Keeps.child hparameters.nested) ?_
    refine Closes.bind Keeps.inheritanceClauses fun _ => Closes.bind Keeps.endStatement fun _ => ?_
    refine Closes.bind Keeps.typeHead fun _ => ?_
    refine Closes.bind (Keeps.body (Keeps.child (Aside.member htype.aside).nested)) fun _ => ?_
    exact Closes.finishBlock

/-- A type is built by the word behind its attributes and modifiers. -/
theorem Builds.typeDefinition (htype : IsTypeDeclaration typeDeclaration) :
    Builds .loud 0 true (Production.typeDefinition typeDeclaration) := by
  refine Builds.look Looks.peekBehindPrefix fun kind => ?_
  split
  · exact Builds.typeBlock htype ⟨rfl, nofun⟩
  · exact Builds.typeBlock htype ⟨rfl, nofun⟩
  · exact Builds.typeBlock htype ⟨rfl, nofun⟩
  · exact Builds.typeBlock htype ⟨rfl, nofun⟩
  · exact Builds.enumBlock
  · exact Builds.delegateDeclaration.mono
  · exact Builds.fail _

/-- A type is built aside. -/
theorem Aside.typeDefinition : Aside Node.IsPart (Production.typeDefinition typeDeclaration) := by
  refine Aside.look Looks.peekBehindPrefix fun kind => ?_
  split
  case h_7 => exact Aside.fail _
  all_goals exact (Aside.node _ _).isPart

end

/-- A type is built aside, however many levels are left. -/
theorem Aside.typeDeclarationUpTo (room : Nat) :
    Aside Node.IsPart (Production.typeDeclarationUpTo room) := by
  cases room with
  | zero => exact Aside.tooDeep
  | succ room =>
    refine Aside.checkDepth (Aside.bind Aside.typeDefinition fun x _ => ?_)
    exact (Aside.wrap .typeDeclaration x).mono fun _ h => h.1.isPart

/-- The induction is on the levels that are left to the types inside. -/
theorem Builds.typeDeclarationUpTo (room : Nat) :
    Builds .loud 0 true (Production.typeDeclarationUpTo room) := by
  induction room with
  | zero => exact Builds.tooDeep
  | succ room ih =>
    have htype := Builds.typeDefinition ⟨ih, Aside.typeDeclarationUpTo room⟩
    refine Builds.checkDepth (Builds.continuing htype fun _ => ?_)
    exact Continues.wrap .typeDeclaration

/-- Types within the levels that the limit leaves. -/
theorem Builds.typeDeclaration : Builds .loud 0 true Production.typeDeclaration :=
  fun env s ready => Builds.typeDeclarationUpTo env.room env s ready

/-- A type within the levels that are left is built aside. -/
theorem Aside.typeDeclaration : Aside Node.IsPart Production.typeDeclaration :=
  Aside.of_runs fun env _ => ⟨_, Aside.typeDeclarationUpTo env.room, rfl⟩

-- ---------------------------------------------------------------------------
-- Settings, imports and attributes of a file
-- ---------------------------------------------------------------------------

/-- What is set by an `Option` line, up to the end of the line. -/
theorem Steps.optionSetting : Steps .quiet 0 true Production.optionSetting := by
  refine Steps.peek fun kind => ?_
  split
  case h_4 =>
    refine Steps.bind ReadsOne.take.1 fun _ => Steps.ifEither (fun _ => ?_) fun _ => Steps.fail _
    exact ReadsOne.take.1.mono
  case h_5 => exact Steps.fail _
  all_goals
    refine Steps.bind ReadsOne.take.1 fun _ => Steps.ifEither (fun _ => ?_) fun _ => Steps.pure _
    exact ReadsOne.take.1.mono

/-- The `Option` lines at the top of a file. -/
theorem Builds.optionStatements : Builds .quiet 1 true Production.optionStatements := by
  refine Builds.node (Steps.mono (Steps.repeatWhileMoving (m := .quiet) ?_))
  refine Steps.bind (Steps.expectWord .kwOption) fun _ => ?_
  refine Steps.bind Steps.optionSetting.still fun _ => ?_
  exact Steps.bind Steps.endStatement fun _ => Steps.of_looks (Looks.test _)

/-- Behind a name and an equals sign there are two tokens to read. -/
theorem Steps.ifAlias {m : Manner} {n : Nat} {b : Bool} {p q : Parse α} (hp : Steps m 2 b p)
    (hq : Steps m n b q) :
    Steps m n b (Production.peek >>= fun x => peekAhead 1 >>= fun y =>
      if (x.isNameLike && y == .mark .equal) = true then p else q) := by
  intro env s ready
  rw [Looks.peek.run_bind, (Looks.peekAhead 1).run_bind]
  split
  · rename_i h
    obtain ⟨hname, hequal⟩ := Bool.and_eq_true_iff.1 h
    have hfirst : env.tokens.Ready s.cursor 1 :=
      .of_kindAt_ne (TokenKind.ne_endOfFile_of hname rfl)
    exact hp env s (ready_of_kindAhead hfirst hequal)
  · exact hq env s ready

/-- A namespace whose names are used, perhaps under another name. -/
theorem Steps.importsClause : Steps .quiet 0 true (do
    if (← Production.peek).isNameLike && (← peekAhead 1) == .mark .equal then
      Production.child (Production.ruleLeaf .identifier)
      Production.take
    Production.field .«namespace» Production.dottedName) := by
  have hname := Steps.field .«namespace» Builds.dottedName
  refine Steps.ifAlias ?_ hname
  refine Steps.one (ReadsOne.ruleChild .identifier) fun _ => ?_
  exact Steps.one ReadsOne.take fun _ => hname.still

/-- An `Imports` line reads its word at least. -/
theorem Builds.importsStatement : Builds .quiet 1 true Production.importsStatement :=
  Builds.line (Steps.bind ReadsOne.take.1 fun _ => (Steps.commaSeparated Steps.importsClause).still)

/-- The end of a statement is passed, or stays where it is, or is missing. -/
theorem endStatement_cases (env : Env) (s : State) :
    ((env.kind s).isTerminator = true ∧ endStatement env s = skip env s) ∨
      endStatement env s = .ok () s ∨ endStatement env s = fail .endOfStatement env s := by
  unfold endStatement
  rw [Looks.peek.run_bind]
  split
  · exact .inl ⟨‹_›, rfl⟩
  · unfold atTerminator
    rw [(Looks.test _).run_bind]
    split
    · exact .inr (.inl rfl)
    · exact .inr (.inr rfl)

/-- The line end behind a node that is built is passed without a trace. -/
theorem Continues.endStatement (x : Node) :
    Continues .quiet 0 x (Production.endStatement >>= fun _ => pure x) := by
  intro env s₀ s hx ready
  rw [run_bind]
  rcases endStatement_cases env s with ⟨hs, hrun⟩ | hrun | hrun
  · -- The reading of the node goes on over the terminator.
    obtain ⟨ds, hds, hr, hd⟩ := hx.reading
    have hlt := TokenStream.lt_size_of_kindAt_ne (TokenKind.ne_endOfFile_of hs rfl)
    have hnext : env.next s.cursor = s.cursor + 1 := Nat.min_eq_left hlt
    rw [hrun]
    refine ⟨hnext ▸ Nat.le_succ _, hx.firstToken, hx.field, hx.isNamed, ⟨ds, hds, ?_, hd⟩,
      ⟨hx.same.children, hx.same.isPartial, hx.same.blocks, hx.same.singleLineIfs⟩⟩
    show Reading env.tokens false s₀.cursor (env.next s.cursor) [x] ds
    rw [hnext]
    exact .terminator hr hs
  · rw [hrun]
    exact ⟨Nat.le_refl _, hx⟩
  · rw [hrun]
    exact hx.failed nofun (Nat.le_refl _) hx.cursor_le

/-- An attribute of a file is built aside. -/
theorem Aside.fileAttribute : Aside Node.IsPart Production.fileAttribute := by
  have hblock : Aside Node.IsPart Production.attributeBlock :=
    Aside.checkDepth (Aside.node _ _).isPart
  exact Aside.bind hblock.nested fun x hx => Aside.bind Aside.endStatement fun _ _ => Aside.pure hx

/-- An attribute of a file, with the line end behind it. -/
theorem Builds.fileAttribute : Builds .quiet 0 true Production.fileAttribute :=
  Builds.continuing Builds.attributeBlock.nested Continues.endStatement

-- ---------------------------------------------------------------------------
-- Files
-- ---------------------------------------------------------------------------

section

variable {n : Nat} {b : Bool}

/-- An item that fails is covered by an error region, which has a token in it if there is one. -/
theorem Builds.item {m : Manner} {k : Nat} {p : Parse Node} (hp : Builds m k true p)
    [AtMost m .loud] [AtMost k n] (hb : b = true → 0 < n) : Builds .loud n b p.orRecover :=
  Builds.orRecover (m := m) hp.mono hb

/-- An item of a file is what a namespace block says, or one of the others. -/
theorem Builds.fileItemOf {namespaceBlock : Parse Node}
    (hnamespace : BuildsAt [.keyword .kwNamespace] .loud 1 true namespaceBlock)
    (hb : b = true → 0 < n) : Builds .loud n b (Production.fileItemOf namespaceBlock) := by
  refine Builds.peekAt fun kind => ?_
  have hb' : b = true → 0 < max n kind.ahead :=
    fun h => Nat.lt_of_lt_of_le (hb h) (Nat.le_max_left _ _)
  split
  · exact Builds.blankLine.mono.at
  · exact Builds.blankLine.mono.at
  · exact (Builds.item Builds.optionStatements hb').at
  · exact (Builds.item Builds.importsStatement hb').at
  · exact BuildsAt.orRecover hnamespace.mono hb'
  · refine Builds.at (Builds.look (Looks.test _) fun _ => Builds.ite (fun _ => ?_) fun _ => ?_)
    · exact Builds.item Builds.fileAttribute hb'
    · exact Builds.item Builds.typeDeclaration hb'

/-- An item of a file is built aside. -/
theorem Aside.fileItemOf {namespaceBlock : Parse Node}
    (hnamespace : Aside Node.IsPart namespaceBlock) :
    Aside Node.IsPart (Production.fileItemOf namespaceBlock) := by
  refine Aside.look Looks.peek fun kind => ?_
  split
  · exact (Aside.ruleLeaf _).isPart
  · exact (Aside.ruleLeaf _).isPart
  · exact Aside.orRecover (Aside.node _ _).isPart
  · exact Aside.orRecover (Aside.node _ _).isPart
  · exact Aside.orRecover hnamespace
  · refine Aside.look (Looks.test _) fun _ => Aside.ite ?_ ?_
    · exact Aside.orRecover Aside.fileAttribute
    · exact Aside.orRecover Aside.typeDeclaration

/-- A namespace is built aside, however many levels are left. -/
theorem Aside.namespaceBlockUpTo (room : Nat) :
    Aside Node.IsPart (Production.namespaceBlockUpTo room) := by
  cases room with
  | zero => exact Aside.tooDeep
  | succ room => exact Aside.checkDepth (Aside.node _ _).isPart

/-- The induction is on the levels that are left to the namespaces inside. -/
theorem BuildsAt.namespaceBlockUpTo (room : Nat) :
    BuildsAt [.keyword .kwNamespace] .loud 1 true (Production.namespaceBlockUpTo room) := by
  induction room with
  | zero => exact Builds.tooDeep.at
  | succ room ih =>
    have hitem := (Builds.fileItemOf (n := 0) (b := false) ih nofun).nested
    have haside := (Aside.fileItemOf (Aside.namespaceBlockUpTo room)).nested
    have hname : Aside Node.IsPart Production.dottedName := (Aside.node _ _).isPart
    refine BuildsAt.checkDepth (BuildsAt.block .loud ⟨rfl, nofun⟩
      (Fills.openBlock .kwNamespace ?_) (Closes.openBlock .kwNamespace ?_))
    · refine Fills.bind ReadsOne.take.1 fun _ => ?_
      refine Fills.bind (Steps.field .name Builds.dottedName) fun _ => ?_
      refine Fills.bind Steps.endStatement fun _ => ?_
      exact Fills.bind (Steps.body (Steps.child hitem)) fun _ => Fills.finishBlock .kwNamespace
    · refine Closes.takeThen (Closes.bind (Keeps.field .name hname) fun _ => ?_)
      refine Closes.bind Keeps.endStatement fun _ => ?_
      exact Closes.bind (Keeps.body (Keeps.child haside)) fun _ => Closes.finishBlock

/-- Every item of a file reads a token where there is one. -/
theorem Builds.fileItem (hb : b = true → 0 < n) : Builds .loud n b Production.fileItem :=
  fun env s ready =>
    Builds.fileItemOf (BuildsAt.namespaceBlockUpTo env.room) hb env s ready

end

/-- A round that leaves the end of the text alone, and otherwise moves on without failing. -/
def Advances (t : TokenStream) (round : Parse Bool) : Prop :=
  ∀ env s, env.tokens = t → s.cursor ≤ t.tokens.size →
    (t.kindAt s.cursor = .endOfFile ∧ round env s = .ok false s) ∨
      ∃ s', round env s = .ok true s' ∧ s.cursor < s'.cursor ∧ Stepped .loud t s s'

/-- Such rounds get to the end of the text. -/
theorem Advances.run_iterateUpTo {t : TokenStream} {round : Parse Bool} (h : Advances t round)
    {env : Env} (henv : env.tokens = t) (k : Nat) (s : State) (hs : s.cursor ≤ t.tokens.size)
    (hk : t.tokens.size - s.cursor < k) :
    ∃ s', iterateUpTo (fun _ => do return if ← round then some () else none) k () env s =
        .ok () s' ∧
      Stepped .loud t s s' ∧ t.kindAt s'.cursor = .endOfFile := by
  -- Every round leaves fewer tokens, so the rounds do not run out before the tokens do.
  induction k generalizing s with
  | zero => exact absurd hk (Nat.not_lt_zero _)
  | succ k ih =>
    rw [iterateUpTo, run_bind]
    rcases h env s henv hs with ⟨hend, hrun⟩ | ⟨s₁, hrun, hlt, hs₁⟩
    · rw [hrun]
      exact ⟨s, rfl, Stepped.refl hs, hend⟩
    · rw [hrun]
      have hle := hs₁.ready.le_size
      obtain ⟨s', hrest, hs', hend⟩ := ih s₁ hle (by omega)
      exact ⟨s', hrest, hs₁.trans hs', hend⟩

/-- A round of a file: an item, up to the end of the text. -/
theorem Advances.fileItem (t : TokenStream) : Advances t Production.sourceFileItem := by
  intro env s henv hs
  subst henv
  unfold sourceFileItem atKind
  rw [(Looks.test _).run_bind]
  split
  · rename_i hend
    exact .inl ⟨beq_iff_eq.1 hend, rfl⟩
  · rename_i hend
    have hitem : Steps .loud 1 true (Production.child Production.fileItem) :=
      Steps.child (Builds.fileItem fun _ => Nat.one_pos)
    have hrun := hitem env s (.of_kindAt_ne fun h => hend (beq_iff_eq.2 h))
    obtain ⟨a, s', hres⟩ : ∃ a s', Production.child Production.fileItem env s = .ok a s' :=
      NeverFails.child (fun env s =>
        NeverFails.fileItemOf (Production.namespaceBlockUpTo env.room) env s) env s
    rw [hres] at hrun
    rw [run_bind, hres]
    exact .inr ⟨s', rfl, hrun.1 rfl, hrun.2⟩

/-- The tree of a file is a reading of its tokens up to the end of the text. -/
theorem reading_sourceFile (env : Env) (s : State) (hs : s.cursor ≤ env.tokens.tokens.size) :
    ∃ cs ds s', Production.sourceFile env s =
        .ok (.finish (.rule .sourceFile) (env.span s.cursor s'.cursor) s.cursor false cs.reverse)
          s' ∧
      Reading env.tokens false s.cursor s'.cursor cs ds ∧ s'.diagnostics = ds ++ s.diagnostics ∧
      env.tokens.kindAt s'.cursor = .endOfFile := by
  have hrounds : env.tokens.tokens.size - s.cursor < env.tokens.size - s.cursor := by
    unfold TokenStream.size
    omega
  obtain ⟨s', hrun, ⟨ds, -, ha⟩, hend⟩ := (Advances.fileItem env.tokens).run_iterateUpTo rfl
    (env.tokens.size - s.cursor) { s with children := [], isPartial := false } hs hrounds
  obtain ⟨new, hnew, hr, -⟩ := ha.children
  rw [List.append_nil] at hnew
  subst hnew
  refine ⟨s'.children, ds, { s' with children := s.children, isPartial := s.isPartial }, ?_, hr,
    ha.diagnostics, hend⟩
  have hpartial : s'.isPartial = false := ha.isPartial
  unfold Production.sourceFile Production.node
  rw [Parse.construct_eq]
  unfold Production.repeatWhile Production.iterate
  rw [hrun]
  simp only [hpartial]

end VisualBasic.Production
