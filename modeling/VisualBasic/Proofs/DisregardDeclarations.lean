import VisualBasic.Proofs.DisregardClauses
import VisualBasic.Proofs.JoinedFiles

/-!
# The lines of declarations disregard terminators

The lines that open members and types, and those that are all of a declaration. Attributes may stand
on a line of their own in front of them, and a word follows that belongs to the same line.

Main results:

* `Disregards.routineHeader` — the line that opens a routine.
* `Disregards.fieldDeclaration`, `Disregards.delegateDeclaration` — declarations on one line.
* `Disregards.optionStatements` — the settings of a file.
-/

namespace VisualBasic.Production

open State

variable {through off : Bool}

/-- The word that opens a routine, and what is done behind it. -/
theorem Enters.routineWord {α : Type} {k : Keyword → Parse α}
    (hk : ∀ word, Disregards true true (k word)) :
    Enters (do
      let word ← match ← Production.peek with
        | .keyword .kwSub => Pure.pure Keyword.kwSub
        | .keyword .kwFunction => Pure.pure Keyword.kwFunction
        | _ => Production.fail (.oneOf [.keyword .kwSub, .keyword .kwFunction])
      Production.take
      k word) := by
  intro env s a s' hs hrun
  rw [Looks.peek.run_bind] at hrun
  have htaken {word word' : Keyword} (hkind : env.kind s = .keyword word)
      (hrun : (Production.take >>= fun _ => k word') env s = .ok a s') :
      (TokenKind.keyword word).isTerminator = false ∧ s.cursor < s'.cursor := by
    refine ⟨rfl, lt_of_takeThen ?_ (fun _ => hk _) hrun⟩
    rw [hkind]
    exact nofun
  generalize hkind : env.kind s = kind at hrun
  split at hrun
  · rw [pure_bind] at hrun
    exact htaken hkind hrun
  · rw [pure_bind] at hrun
    exact htaken hkind hrun
  · obtain ⟨_, _, hfail, -⟩ := bind_eq_ok hrun
    cases hfail

/-- The equals sign behind another name is known. -/
theorem importsItem_eq : (do
    if ← Production.test fun env s => (env.kind s).isNameLike &&
        env.kindAhead s 1 == .mark .equal then
      Production.child (Production.ruleLeaf .identifier)
      Production.take
    Production.field .«namespace» Production.dottedName : Parse Unit) = (do
    if ← Production.test fun env s => (env.kind s).isNameLike &&
        env.kindAhead s 1 == .mark .equal then
      Production.child (Production.ruleLeaf .identifier)
      Production.expectMark .equal
    Production.field .«namespace» Production.dottedName) := by
  funext env s
  rw [(Looks.test _).run_bind, (Looks.test _).run_bind]
  split
  · rename_i hseen
    obtain ⟨hname, hequal⟩ := Bool.and_eq_true_iff.1 hseen
    have hnext : env.next s.cursor = s.cursor + 1 := Nat.min_eq_left <|
      TokenStream.lt_size_of_kindAt_ne fun hend => by
        rw [Env.kind, hend] at hname
        cases hname
    have hleaf : ∃ t, Production.child (Production.ruleLeaf .identifier) env s = .ok () t ∧
        t.cursor = env.next s.cursor := ⟨_, rfl, rfl⟩
    obtain ⟨t, hrun, hcursor⟩ := hleaf
    have htake : Production.expectMark .equal env t = Production.take env t := by
      have hlook :
          Looks (Production.atKind (.mark .equal)) fun env s => env.kind s == .mark .equal :=
        Looks.test _
      unfold Production.expectMark Production.expect
      rw [hlook.run_bind, if_pos]
      rw [Env.kind, hcursor, hnext]
      exact hequal
    simp only [run_bind, hrun, htake]
  · rfl

namespace Disregards

-- The instance that is found for a production is as large as its text.
set_option synthInstance.maxSize 4000

-- ---------------------------------------------------------------------------
-- Routines
-- ---------------------------------------------------------------------------

instance signature {isFunction : Bool} :
    Disregards through off (Production.signature isFunction) := by
  unfold Production.signature
  infer_instance

instance routineHeader {isConstructor : Bool} :
    Disregards through off (Production.routineHeader isConstructor) := by
  have hbehind (word : Keyword) : ∀ through off, Disregards through off (do
      if isConstructor then Production.expectWord .kwNew
      else Production.field .name Production.identifier
      Production.signature (word == .kwFunction)
      Production.memberClauses
      Production.endStatement
      return word) := inferInstance
  refine checkDepth.bind fun _ => before declarationPrefix ?_
    (.routineWord fun word => hbehind word _ _)
  refine peek rfl failThen fun kind _ => ?_
  dsimp only
  split
  · rw [pure_bind]
    infer_instance
  · rw [pure_bind]
    infer_instance
  · exact failThen

-- ---------------------------------------------------------------------------
-- Properties and events
-- ---------------------------------------------------------------------------

instance propertyHeader : Disregards through off Production.propertyHeader := by
  refine checkDepth.bind fun _ => before declarationPrefix ?_ (Enters.expectWord _).bind
  infer_instance

instance eventHeader : Disregards through off Production.eventHeader := by
  refine checkDepth.bind fun _ => before declarationPrefix ?_ (Enters.expectWord _).bind
  infer_instance

instance propertyWithoutAccessors : Disregards through off Production.propertyWithoutAccessors := by
  unfold Production.propertyWithoutAccessors
  infer_instance

instance eventWithoutAccessors : Disregards through off Production.eventWithoutAccessors := by
  unfold Production.eventWithoutAccessors
  infer_instance

-- ---------------------------------------------------------------------------
-- Fields, enumerations and delegates
-- ---------------------------------------------------------------------------

instance fieldDeclaration : Disregards through off Production.fieldDeclaration := by
  have hcontent : Disregards through off (do
      Production.declarationPrefix
      let _ ← Production.acceptWord .kwDim
      Production.commaSeparated (Production.child (Production.nested
        (Production.node .variableDeclarator Production.declarator)))) := by
    refine before declarationPrefix inferInstance (.behindWord _ ?_)
    exact (((Enters.identifier.field _).bind.node _).nested.child).commaSeparated
  exact line

instance enumMember : Disregards through off Production.enumMember := by
  have hcontent : Disregards through off (do
      Production.declarationPrefix
      Production.field .name Production.identifier
      Production.optionalValue .value) :=
    before declarationPrefix inferInstance (Enters.identifier.field _).bind
  exact line

instance delegateDeclaration : Disregards through off Production.delegateDeclaration := by
  have hcontent : Disregards through off (do
      Production.declarationPrefix
      Production.expectWord .kwDelegate
      let isFunction ← Production.atWord .kwFunction
      unless isFunction || (← Production.atWord .kwSub) do
        Production.fail (.oneOf [.keyword .kwSub, .keyword .kwFunction])
      Production.take
      Production.field .name Production.identifier
      Production.signature isFunction) := by
    refine before declarationPrefix ?_ (Enters.expectWord _).bind
    dsimp only
    infer_instance
  exact line

-- ---------------------------------------------------------------------------
-- Lines of a file
-- ---------------------------------------------------------------------------

instance blankLine : Disregards through off Production.blankLine := by
  unfold Production.blankLine
  infer_instance

instance optionSetting : Disregards through off Production.optionSetting := by
  refine peek rfl fail fun kind _ => ?_
  split <;> infer_instance

instance optionStatements : Disregards through off Production.optionStatements := by
  rw [optionStatements_eq]
  unfold optionLine
  infer_instance

instance importsStatement : Disregards through true Production.importsStatement := by
  have hseen : Blind fun env s => (env.kind s).isNameLike && env.kindAhead s 1 == .mark .equal :=
    ⟨fun henv s => by
      have hname := henv.tokens.alike TokenKind.isNameLike rfl s.cursor
      dsimp only [Env.kind, Env.kindAhead]
      rw [hname, henv.tokens.beq_kindAt rfl]⟩
  have hitem (through off : Bool) : Disregards through off (do
      if ← Production.test fun env s => (env.kind s).isNameLike &&
          env.kindAhead s 1 == .mark .equal then
        Production.child (Production.ruleLeaf .identifier)
        Production.take
      Production.field .«namespace» Production.dottedName) := by
    rw [importsItem_eq]
    exact looks (Looks.test _) hseen fun _ => inferInstance
  rw [Phrase.importsStatement_eq]
  infer_instance

instance fileAttribute : Disregards through off Production.fileAttribute := by
  unfold Production.fileAttribute
  infer_instance

end Disregards

end VisualBasic.Production
