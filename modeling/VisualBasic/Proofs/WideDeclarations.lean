import VisualBasic.Proofs.LoudDeclarations
import VisualBasic.Proofs.Speculation
import VisualBasic.Proofs.WideStatements
import VisualBasic.Tree

/-!
# More room in declarations

The judgement `Widens` of declarations and files. A member with a body is tried before one without;
if the lines ahead show a body, only the header of the member can fail, and both have the same.

Main results:

* `Widens.routine`, `Widens.propertyDeclaration`, `Widens.eventDeclaration` — a member that has no
  body has none with more room.
* `Widens.sourceFile` — a file without complaints is the same with more room.
* `Tree.parseWithin_of_le` — a parse without errors is the same within wider limits.
-/

namespace VisualBasic

namespace Production

open State

variable {env env' : Env} {s s₁ s' t : State} {n : Nat} {x y : Node} {α β : Type}

-- ---------------------------------------------------------------------------
-- What only fails in its header
-- ---------------------------------------------------------------------------

/-- All runs from the place of `s` succeed. -/
def Fits (env : Env) (p : Parse α) (s : State) : Prop :=
  ∀ t, Beside s t → ∃ a t', p env t = .ok a t'

namespace Fits

variable {p : Parse α} {k : α → Parse β}

/-- What begins with something that fits and cannot fail behind it. -/
theorem bind (hp : Fits env p s) (hk : ∀ a, NeverFails (k a)) : Fits env (p >>= k) s := by
  intro t ht
  obtain ⟨a, t₁, hrun⟩ := hp t ht
  rw [run_bind, hrun]
  exact hk a env t₁

/-- What goes on from where something leads. -/
theorem behind (hp : Leads env p s s₁) (hk : ∀ a, Fits env (k a) s₁) : Fits env (p >>= k) s := by
  intro t ht
  obtain ⟨a, t₁, hrun, ht₁⟩ := hp t ht
  rw [run_bind, hrun]
  exact hk a t₁ ht₁

/-- A node fits where its body does. -/
theorem node {r : Rule} {body : Parse Unit} (h : Fits env body s) :
    Fits env (Production.node r body) s := by
  intro t ht
  obtain ⟨a, t', hrun⟩ := h { t with children := [], isPartial := false }
    ⟨ht.cursor, ht.blocks, ht.singleLineIfs⟩
  unfold Production.node
  rw [Parse.construct_eq, hrun]
  exact ⟨_, _, rfl⟩

/-- The line of the next token is looked up whatever it is. -/
theorem currentLine {k : Nat → Parse β} (h : ∀ line, Fits env (k line) s) :
    Fits env (Production.currentLine >>= k) s := by
  intro t ht
  rw [Looks.currentLine.run_bind]
  exact h _ t ht

end Fits

namespace NeverFails

variable {B N : Type} [Builder B N]

theorem peekBehindPrefix : NeverFails (Production.peekBehindPrefix : Production B TokenKind) :=
  fun _ _ => ⟨_, _, rfl⟩

theorem peek : NeverFails (Production.peek : Production B TokenKind) := fun _ _ => ⟨_, _, rfl⟩

/-- A token can always be read; at the end of the text it is the mark of the end. -/
theorem take : NeverFails (Production.take : Production B Unit) := fun _ _ => ⟨_, _, rfl⟩

theorem openBlock (opener : Keyword) :
    NeverFails (Production.openBlock opener : Production B Unit) :=
  fun _ _ => ⟨_, _, rfl⟩

theorem closeBlock (opener : Keyword) :
    NeverFails (Production.closeBlock opener : Production B Bool) := by
  have htakes (words : List Keyword) :
      NeverFails (words.forM fun _ => Production.take : Production B Unit) := by
    induction words with
    | nil => exact pure ()
    | cons word rest ih => exact bind take fun _ => ih
  refine bind (test _) fun found => ?_
  split
  · exact bind (fun _ _ => ⟨_, _, rfl⟩) fun _ => bind (htakes _) fun _ => pure _
  · exact bind (fun _ _ => ⟨_, _, rfl⟩) fun _ => pure _

/-- A closing line that is missing is noted, and one that goes on is recovered. -/
theorem finishBlock (opener : Keyword) :
    NeverFails (Production.finishBlock opener : Production B Unit) := by
  refine bind (closeBlock opener) fun closed => ?_
  split
  · exact recovering _
  · exact pure _

/-- The statements and the closing line of a block. -/
theorem blockRest (opener : Keyword) : NeverFails (B := B) (do
    Production.statements Production.statement
    Production.finishBlock opener) :=
  bind (statements statement) fun _ => finishBlock opener

theorem accessor : NeverFails (Production.accessor : Production B N) := by
  refine bind peekBehindPrefix fun kind => ?_
  exact node (bind (openBlock _) fun _ => bind (recovering _) fun _ => blockRest _)

/-- A child makes a round of a loop. -/
theorem round {p : Production B N} (h : NeverFails p) : NeverFails (do
    Production.child p
    return true) :=
  bind (child h) fun _ => pure _

/-- What is at the end of a block or an error region in it. -/
theorem roundUnlessAtBoundary (expected : Expected) : NeverFails (B := B) (do
    if ← Production.atBoundary then return false
    Production.child (Production.unexpected expected)
    return true) := by
  refine bind (test _) fun ends => ?_
  split
  · exact pure _
  · exact round fun _ _ => ⟨_, _, rfl⟩

theorem eventAccessor (r : Rule) (word : Keyword) :
    NeverFails (Production.eventAccessor r word : Production B N) :=
  node (bind (openBlock _) fun _ => bind take fun _ => bind (recovering _) fun _ => blockRest _)

/-- A line of another kind becomes an error region. -/
theorem propertyItem : NeverFails (Production.propertyItem : Production B Bool) := by
  refine bind peek fun kind => ?_
  split
  · exact round (leaf _)
  · refine bind peekBehindPrefix fun kind => ?_
    split
    · exact round (nested accessor)
    · exact roundUnlessAtBoundary _

/-- The same between the accessors of an event. -/
theorem eventItem : NeverFails (Production.eventItem : Production B Bool) := by
  refine bind peek fun kind => ?_
  split
  case h_6 => exact roundUnlessAtBoundary _
  case h_1 | h_2 => exact round (leaf _)
  all_goals exact round (nested (eventAccessor _ _))

end NeverFails

-- ---------------------------------------------------------------------------
-- Headers
-- ---------------------------------------------------------------------------

namespace Widens

theorem peekBehindPrefix {k k' : TokenKind → Parse β} (hk : ∀ kind, Widens n (k kind) (k' kind)) :
    Widens n (Production.peekBehindPrefix >>= k) (Production.peekBehindPrefix >>= k') := by
  refine look Looks.peekBehindPrefix (fun env env' s t htokens ht => ?_) hk
  rw [htokens, ht.cursor]

/-- Parameters and types make the same with more room. -/
theorem signature (isFunction : Bool) :
    Widens n (Production.signature isFunction) (Production.signature isFunction) := by
  have hresult : Wide n (do
      Production.repeatWhile do
        if ← Production.atKind (.mark .less) then
          Production.child (Production.nested Production.attributeBlock)
          return true
        return false
      Production.field .returnType (Production.nested (Production.type true))) := by
    refine seq (repeatWhile (atKind fun _ => ite ?_ (pure _))) (field _ (nested (type _)))
    exact round (child (nested attributeBlock))
  have hparameters : Wide n (do
      Production.optionalParameters
      if isFunction then
        if ← Production.acceptWord .kwAs then
          Production.repeatWhile do
            if ← Production.atKind (.mark .less) then
              Production.child (Production.nested Production.attributeBlock)
              return true
            return false
          Production.field .returnType (Production.nested (Production.type true))) :=
    seq optionalParameters (ite (bind (acceptWord _) fun _ => ite hresult (pure _)) (pure _))
  exact ahead _ fun _ => when (child (nested typeParameters)) hparameters

/-- The word that opens a routine, and what is done behind it. -/
theorem routineWord {k k' : Keyword → Parse β} (hk : ∀ word, Widens n (k word) (k' word)) :
    Widens n
      (do
        let word ← match ← Production.peek with
          | .keyword .kwSub => Pure.pure Keyword.kwSub
          | .keyword .kwFunction => Pure.pure Keyword.kwFunction
          | _ => Production.fail (.oneOf [.keyword .kwSub, .keyword .kwFunction])
        k word)
      (do
        let word ← match ← Production.peek with
          | .keyword .kwSub => Pure.pure Keyword.kwSub
          | .keyword .kwFunction => Pure.pure Keyword.kwFunction
          | _ => Production.fail (.oneOf [.keyword .kwSub, .keyword .kwFunction])
        k' word) := by
  refine peek fun kind => ?_
  split
  · exact bind (pure _) hk
  · exact bind (pure _) hk
  · exact bind (fail _) hk

/-- The word of the routine is not changed by more room. -/
theorem routineHeader (isConstructor : Bool) :
    Widens n (Production.routineHeader isConstructor) (Production.routineHeader isConstructor) := by
  have hrest (word : Keyword) : Wide n (do
      Production.take
      if isConstructor then Production.expectWord .kwNew
      else Production.field .name Production.identifier
      Production.signature (word == .kwFunction)
      Production.memberClauses
      Production.endStatement
      return word) := by
    have hend : Wide n (do
        Production.signature (word == .kwFunction)
        Production.memberClauses
        Production.endStatement
        return word) :=
      seq (signature _) (seq memberClauses (seq endStatement (pure _)))
    exact seq take (ite (seq (expectWord _) hend) (seq (field _ identifier) hend))
  exact seq checkDepth (seq declarationPrefix (routineWord hrest))

/-- Attributes, a name, parameters and a type. -/
theorem propertyHeader : Widens n Production.propertyHeader Production.propertyHeader :=
  seq checkDepth (seq declarationPrefix (seq (expectWord _) (seq (field _ identifier)
    (seq optionalParameters optionalAsClause))))

/-- Attributes, a name, and parameters or a type. -/
theorem eventHeader : Widens n Production.eventHeader Production.eventHeader := by
  have hend : Wide n (do
      Production.memberClauses
      Production.endStatement) :=
    seq memberClauses endStatement
  refine seq checkDepth (seq declarationPrefix (seq (expectWord _) (seq (field _ identifier) ?_)))
  exact atKind fun _ => ite (seq (field _ (nested parameters)) hend) (seq optionalAsClause hend)

end Widens

-- ---------------------------------------------------------------------------
-- Bodies
-- ---------------------------------------------------------------------------

/-- What goes through from every state at a place fits there. -/
theorem Leads.fits {p : Parse α} (h : Leads env p s s') : Fits env p s := fun t ht => by
  obtain ⟨a, t', hrun, -⟩ := h t ht
  exact ⟨a, t', hrun⟩

/-- A routine whose header is read is read with a body, too. -/
theorem fits_routineWithBody {r : Rule} (h : Goes env (routineWithoutBody r) s x s') :
    Fits env (routineWithBody r) s := by
  obtain ⟨word, s₁, hheader, -⟩ := h.node.bind
  have hhushed : Flows 0 false {} false (routineHeader (r == .constructorDeclaration)) :=
    .routineHeader _
  have hleads := Widens.leads (.routineHeader _) hhushed.hushed (.refl env) hheader
  refine .node (.currentLine fun line => .bind hleads.fits fun word => ?_)
  exact NeverFails.bind (fun _ _ => ⟨_, _, rfl⟩) fun _ => NeverFails.blockRest _

/-- An event whose header is read is read with accessors, too. -/
theorem fits_eventWithAccessors (h : Goes env eventWithoutAccessors s x s') :
    Fits env eventWithAccessors s := by
  have hhushed : Flows 0 false {} false eventHeader := .eventHeader
  have hleads := Widens.leads .eventHeader hhushed.hushed (.refl env) h.node
  refine .node (.currentLine fun line => .bind hleads.fits fun _ => ?_)
  refine NeverFails.bind (fun _ _ => ⟨_, _, rfl⟩) fun _ => ?_
  exact NeverFails.bind (NeverFails.repeatWhile .eventItem) fun _ => NeverFails.finishBlock _

/-- The same of a property, unless it has a value. -/
theorem fits_propertyWithAccessors (h : Goes env propertyWithoutAccessors s x s') :
    Fits env propertyWithAccessors s ∨
      ∃ s₁, Goes env propertyHeader s () s₁ ∧ env.kind s₁ = .mark .equal := by
  obtain ⟨_, s₄, hcontent, hend⟩ := h.node.bind
  obtain ⟨_, s₁, hheader, hcontent⟩ := hcontent.bind
  obtain ⟨_, s₂, hvalue, hclauses⟩ := hcontent.bind
  obtain ⟨found, s₃, haccept, hvalue⟩ := hvalue.bind
  rcases haccept.accept with ⟨-, hkind, -⟩ | ⟨rfl, -, hs₃⟩
  · exact .inr ⟨s₁, hheader, hkind⟩
  · left
    have hplace := hs₃.trans hvalue.pure.2
    have hheader' : Flows 0 false {} true propertyHeader := .propertyHeader
    have hclauses' : Flows 0 false {} false memberClauses := .memberClauses
    have hend' : Flows 0 false {} false endStatement := .endStatement
    have hleads := Widens.leads .propertyHeader hheader'.hushed (.refl env) hheader
    have hleads' := Widens.leads .memberClauses hclauses'.hushed (.refl env) (hclauses.from hplace)
    have hleads'' := Widens.leads .endStatement hend'.hushed (.refl env) hend
    refine .node (.currentLine fun line => .behind hleads fun _ => .behind hleads' fun _ =>
      .bind hleads''.fits fun _ => ?_)
    refine NeverFails.bind (fun _ _ => ⟨_, _, rfl⟩) fun _ => ?_
    exact NeverFails.bind (NeverFails.repeatWhile .propertyItem) fun _ => NeverFails.finishBlock _

/-- Behind the header of a property with a value there are no accessors. -/
theorem not_propertyWithAccessors (henv : env.Roomier n env')
    (hheader : Goes env propertyHeader s () s₁)
    (hkind : env.kind s₁ = .mark .equal) : ¬Goes env' propertyWithAccessors s x s' := by
  intro h
  have hhushed : Flows 0 false {} true propertyHeader := .propertyHeader
  have hleads := Widens.leads .propertyHeader hhushed.hushed henv hheader
  obtain ⟨line, t₀, hline, hrest⟩ := h.node.bind
  obtain ⟨_, t₁, hheader', hrest⟩ := hrest.bind
  obtain ⟨_, t₂, hclauses, hrest⟩ := hrest.bind
  obtain ⟨_, t₃, hend, -⟩ := hrest.bind
  have ht₀ : Beside s t₀ := by
    obtain ⟨u, u', hu, hrun, hu'⟩ := hline
    cases hrun
    exact hu.trans hu'
  have ht₁ : env'.kind t₁ = .mark .equal :=
    (Widens.sees_kind env env' s₁ t₁ henv.tokens (hleads.beside (hheader'.from ht₀))).trans hkind
  have ht₂ : Beside t₁ t₂ := by
    refine hclauses.iterate.stop (.bind (.peek (?_ : LeadsTo env' _ t₁ false t₁)) (.pure _))
    rw [ht₁]
    exact .pure false
  have hassign := hend.endStatement.1
  rw [Widens.sees_kind env' env' t₁ t₂ rfl ht₂, ht₁] at hassign
  cases hassign

-- ---------------------------------------------------------------------------
-- Members
-- ---------------------------------------------------------------------------

namespace Widens

/-- Only the header can fail, and the statements behind it are a level down. -/
theorem routineWithBody (r : Rule) :
    Widens n (Production.routineWithBody r) (Production.routineWithBody r) :=
  node r (currentLine fun _ => bind (routineHeader _) fun _ => seq (openBlockAt _ _)
    (seq (statements statement) (finishBlock _)))

/-- The header alone. -/
theorem routineWithoutBody (r : Rule) :
    Widens n (Production.routineWithoutBody r) (Production.routineWithoutBody r) :=
  node r (bind (routineHeader _) fun _ => pure _)

/-- A member of two forms: where the second one fits, the first one fails with more room if it fails
without. -/
theorem twoForms (a : Ambiguity) {viable : Env → State → Bool} {p q : Parse Node}
    (hviable : Sees viable) (hp : Wide n p) (hq : Wide n q)
    (hpassed : ∀ env env' s x s', env.Roomier n env' → Goes env q s x s' →
      Fits env p s ∨ ∀ y t, ¬Goes env' p s y t) :
    Wide n (Production.resolve a [{ viable, production := p }, { production := q }]) := by
  refine resolve a (firstFit hviable rfl hp (fun _ _ => firstFit (fun _ _ _ _ _ _ => rfl) rfl hq
    (fun _ _ => noneFits _ _) ?_) ?_)
  · intro env env' s f s₁ best y s' _ _ _ hrest
    cases hrest
  · intro env env' s f s₁ best y s' henv _ hfails hrest _ t ht
    refine exists_error fun z t' hrun => ?_
    rcases hpassed env env' s y s' henv (.of_run (firstFit_singleton hrest)) with hfits | hnot
    · obtain ⟨w, s₂, hfits⟩ := hfits s (.refl s)
      cases hfits.symm.trans hfails
    · exact hnot z t' ⟨t, t', ht, hrun, .refl t'⟩

/-- Whether a body follows is a matter of the tokens and the open blocks. -/
theorem sees_routineHasBody : Sees Env.routineHasBody := by
  rintro ⟨_, tokens, _, _⟩ ⟨_, _, _, _⟩ ⟨_, _, _, _, _, _⟩ ⟨_, _, _, _, _, _⟩ rfl ⟨rfl, rfl, rfl⟩
  rfl

/-- Whether accessors follow is a matter of the tokens. -/
theorem sees_propertyHasAccessors : Sees Env.propertyHasAccessors := by
  rintro ⟨_, tokens, _, _⟩ ⟨_, _, _, _⟩ ⟨_, _, _, _, _, _⟩ ⟨_, _, _, _, _, _⟩ rfl ⟨rfl, rfl, rfl⟩
  rfl

theorem sees_eventHasAccessors : Sees Env.eventHasAccessors := by
  rintro ⟨_, tokens, _, _⟩ ⟨_, _, _, _⟩ ⟨_, _, _, _, _, _⟩ ⟨_, _, _, _, _, _⟩ rfl ⟨rfl, rfl, rfl⟩
  rfl

/-- Where the form without a body goes through, the one with a body fits, since nothing behind the
header fails. So it had not failed before. -/
theorem routine (a : Ambiguity) (r : Rule) :
    Widens n (Production.routine a r) (Production.routine a r) :=
  twoForms a sees_routineHasBody (routineWithBody r) (routineWithoutBody r)
    fun _ _ _ _ _ _ h => .inl (fits_routineWithBody h)

theorem accessor : Widens n Production.accessor Production.accessor := by
  refine peekBehindPrefix fun kind => ?_
  generalize (if (kind == .keyword .kwGet) = true then (Rule.getAccessor, Keyword.kwGet)
    else (Rule.setAccessor, Keyword.kwSet)) = which
  obtain ⟨r, word⟩ := which
  refine node r (seq (openBlock _) (seq (recovering (seq declarationPrefix (seq (expectWord _) ?_)))
    (seq (statements statement) (finishBlock _))))
  exact when optionalParameters endStatement

/-- Behind the header nothing fails. -/
theorem propertyWithAccessors :
    Widens n Production.propertyWithAccessors Production.propertyWithAccessors := by
  refine node _ (currentLine fun _ => seq propertyHeader (seq memberClauses (seq endStatement
    (seq (openBlockAt _ _) (seq (repeatWhile (peek fun _ => ite ?_ ?_)) (finishBlock _))))))
  · exact round (child (ruleLeaf _))
  · refine peekBehindPrefix fun _ => ite (round (child (nested accessor))) (atBoundary fun _ => ?_)
    exact ite (pure _) (round (child (unexpected _)))

/-- A header and perhaps a value. -/
theorem propertyWithoutAccessors :
    Widens n Production.propertyWithoutAccessors Production.propertyWithoutAccessors :=
  line _ (seq propertyHeader (seq (optionalValue _) memberClauses))

/-- Where the form without accessors goes through, the other one fits, or a value follows the header
and it does not fit with more room either. -/
theorem propertyDeclaration :
    Widens n Production.propertyDeclaration Production.propertyDeclaration := by
  refine twoForms _ sees_propertyHasAccessors propertyWithAccessors propertyWithoutAccessors
    fun env env' s x s' henv h => ?_
  rcases fits_propertyWithAccessors h with hfits | ⟨s₁, hheader, hkind⟩
  · exact .inl hfits
  · exact .inr fun y t => not_propertyWithAccessors henv hheader hkind

theorem eventAccessor (r : Rule) (word : Keyword) :
    Widens n (Production.eventAccessor r word) (Production.eventAccessor r word) :=
  node r (seq (openBlock _) (seq take (seq (recovering (seq optionalParameters endStatement))
    (seq (statements statement) (finishBlock _)))))

/-- Behind the header nothing fails. -/
theorem eventWithAccessors :
    Widens n Production.eventWithAccessors Production.eventWithAccessors := by
  refine node _ (currentLine fun _ => seq eventHeader (seq (openBlockAt _ _)
    (seq (repeatWhile (peek fun kind => ?_)) (finishBlock _))))
  split
  case h_1 | h_2 => exact round (child (ruleLeaf _))
  case h_6 => exact atBoundary fun _ => ite (pure _) (round (child (unexpected _)))
  all_goals exact round (child (nested (eventAccessor _ _)))

theorem eventWithoutAccessors :
    Widens n Production.eventWithoutAccessors Production.eventWithoutAccessors :=
  node _ eventHeader

/-- Where the form without accessors goes through, the other one fits. -/
theorem eventDeclaration : Widens n Production.eventDeclaration Production.eventDeclaration :=
  twoForms _ sees_eventHasAccessors eventWithAccessors eventWithoutAccessors
    fun _ _ _ _ _ _ h => .inl (fits_eventWithAccessors h)

/-- Variables with commas between them. -/
theorem fieldDeclaration : Widens n Production.fieldDeclaration Production.fieldDeclaration :=
  line _ (seq declarationPrefix (bind (acceptWord _) fun _ =>
    commaSeparated (child (nested (node _ declarator)))))

/-- A name and perhaps a value. -/
theorem enumMember : Widens n Production.enumMember Production.enumMember :=
  line _ (seq declarationPrefix (seq (field _ identifier) (optionalValue _)))

/-- The members of an enumeration are not nested. -/
theorem enumBlock : Widens n Production.enumBlock Production.enumBlock := by
  refine node _ (seq declarationPrefix (seq (openBlock _) (seq (expectWord _)
    (seq (field _ identifier) (seq optionalAsClause (seq endStatement
      (seq (body (peek fun _ => ?_)) (finishBlock _))))))))
  exact ite (child (ruleLeaf _)) (child (nested (orRecover enumMember)))

/-- The line of a routine behind a word of its own. -/
theorem delegateDeclaration :
    Widens n Production.delegateDeclaration Production.delegateDeclaration := by
  have hrest (isFunction : Bool) : Wide n (do
      Production.take
      Production.field .name Production.identifier
      Production.signature isFunction) :=
    seq take (seq (field _ identifier) (signature _))
  refine line _ (seq declarationPrefix (seq (expectWord _) (atKind fun isFunction =>
    atKind fun _ => ite (hrest isFunction) (seq (fail _) (hrest isFunction)))))

-- ---------------------------------------------------------------------------
-- Types and files
-- ---------------------------------------------------------------------------

section

variable {typeDeclaration typeDeclaration' : Parse Node}

/-- What announces a member is seen from the tokens. -/
theorem announcement {k k' : TokenKind × TokenKind × Bool → Parse β}
    (hk : ∀ what, Widens n (k what) (k' what)) :
    Widens n ((fun env s => .ok (Passage.announcement env s) s : Parse _) >>= k)
      ((fun env s => .ok (Passage.announcement env s) s : Parse _) >>= k') := by
  refine look (fun _ _ => rfl) (fun env env' s t htokens ht => ?_) hk
  rw [Passage.announcement, Passage.announcement, htokens, ht.cursor]

/-- A member that is announced, or none where none is. -/
theorem memberOr (h : Widens n typeDeclaration typeDeclaration')
    (what : TokenKind × TokenKind × Bool) :
    Widens n
      (Passage.memberOr (Passage.announced typeDeclaration what))
      (Passage.memberOr (Passage.announced typeDeclaration' what)) := by
  have hmember {p p' : Parse Node} (hp : Widens n p p') :
      Widens n (Passage.memberOr (Option.some p))
        (Passage.memberOr (Option.some p')) :=
    orRecover hp
  unfold Passage.announced
  split
  case h_1 => exact hmember constDeclaration
  case h_2 => exact hmember (ite (routine _ _) (routine _ _))
  case h_3 => exact hmember (routine _ _)
  case h_4 => exact hmember propertyDeclaration
  case h_5 => exact hmember eventDeclaration
  case h_12 => exact hmember fieldDeclaration
  case h_13 =>
    split
    · exact hmember fieldDeclaration
    · exact unexpected _
  all_goals exact hmember h

/-- A member that fails is a complaint, so it did not. -/
theorem member (h : Widens n typeDeclaration typeDeclaration') :
    Widens n (Production.member typeDeclaration) (Production.member typeDeclaration') := by
  rw [Passage.member_eq, Passage.member_eq]
  exact peek fun _ => ite (ruleLeaf _) (announcement (memberOr h))

/-- The lines between the opening line of a type and its members. -/
theorem typeHead : Wide n (Production.repeatWhile Production.typeHeadItem) := by
  refine repeatWhile (peek fun kind => ?_)
  split
  · exact round (child (ruleLeaf _))
  · exact round (child (ruleLeaf _))
  · exact round (recovering (seq inheritanceClauses endStatement))
  · exact round (recovering (seq inheritanceClauses endStatement))
  · exact pure _

/-- The types in a type are a level down. -/
theorem typeBlock (h : Widens (n - 1) typeDeclaration typeDeclaration') (r : Rule)
    (word : Keyword) :
    Widens n (Production.typeBlock typeDeclaration r word)
      (Production.typeBlock typeDeclaration' r word) := by
  have hmembers := seq (body (child (nested (member h)))) (finishBlock word)
  refine node r
    (seq declarationPrefix (seq (openBlock _) (seq (expectWord _) (seq (field _ identifier)
    (atKind fun _ => when (child (nested typeParameters)) (seq inheritanceClauses ?_))))))
  exact seq endStatement (seq typeHead hmembers)

/-- The word behind attributes and modifiers tells the kind of type. -/
theorem typeDefinition (h : Widens (n - 1) typeDeclaration typeDeclaration') :
    Widens n (Production.typeDefinition typeDeclaration)
      (Production.typeDefinition typeDeclaration') := by
  refine peekBehindPrefix fun kind => ?_
  split
  case h_5 => exact enumBlock
  case h_6 => exact delegateDeclaration
  case h_7 => exact fail _
  all_goals exact typeBlock h _ _

end

/-- By induction on the levels that are left in the smaller room. -/
theorem typeDeclarationUpTo (room n : Nat) :
    Widens n (Production.typeDeclarationUpTo room) (Production.typeDeclarationUpTo n) := by
  refine upTo (p := fun room (_ : Unit) => Production.typeDeclarationUpTo room) (fun _ => rfl)
    (fun _ _ => rfl) (fun room n ih _ => ?_) room n ()
  exact bind (typeDefinition (n := n + 1) (ih ())) fun _ => wrap _ _

/-- The room is that of the place, in both. -/
theorem typeDeclaration : Widens n Production.typeDeclaration Production.typeDeclaration :=
  byRoom typeDeclarationUpTo

/-- Words. -/
theorem optionSetting : Widens n Production.optionSetting Production.optionSetting := by
  refine peek fun kind => ?_
  split
  case h_4 =>
    exact seq take (atKind fun _ => atKind fun _ => ite take (fail _))
  case h_5 => exact fail _
  all_goals exact seq take (atKind fun _ => atKind fun _ => ite take (pure _))

theorem atWord (word : Keyword) : Widens n (Production.atWord word) (Production.atWord word) := by
  have hlook : Wide n (Production.atWord word >>= Pure.pure) := atKind fun _ => pure _
  rwa [bind_pure] at hlook

/-- Lines of words. -/
theorem optionStatements : Widens n Production.optionStatements Production.optionStatements :=
  node _ (repeatWhile (seq (expectWord _) (seq optionSetting (seq endStatement (atWord _)))))

/-- Names with commas between them. -/
theorem importsStatement : Widens n Production.importsStatement Production.importsStatement := by
  have hname : Wide n (Production.field .«namespace» Production.dottedName) := field _ dottedName
  have halias : Wide n (do
      Production.child (Production.ruleLeaf .identifier)
      Production.take
      Production.field .«namespace» Production.dottedName) :=
    seq (child (ruleLeaf _)) (seq take hname)
  exact line _ (seq take (commaSeparated (peek fun _ => peekAhead fun _ => ite halias hname)))

/-- Attributes on a line of their own. -/
theorem fileAttribute : Widens n Production.fileAttribute Production.fileAttribute :=
  bind (nested attributeBlock) fun _ => seq endStatement (pure _)

/-- An item that fails is a complaint, so it did not. -/
theorem fileItemOf {namespaceBlock namespaceBlock' : Parse Node}
    (h : Widens n namespaceBlock namespaceBlock') :
    Widens n (Production.fileItemOf namespaceBlock) (Production.fileItemOf namespaceBlock') := by
  refine peek fun kind => ?_
  split
  · exact ruleLeaf _
  · exact ruleLeaf _
  · exact orRecover optionStatements
  · exact orRecover importsStatement
  · exact orRecover h
  · exact aheadEither _ _ fun _ => ite (orRecover fileAttribute) (orRecover typeDeclaration)

/-- By induction on the levels that are left in the smaller room. -/
theorem namespaceBlockUpTo (room n : Nat) :
    Widens n (Production.namespaceBlockUpTo room) (Production.namespaceBlockUpTo n) := by
  refine upTo (p := fun room (_ : Unit) => Production.namespaceBlockUpTo room) (fun _ => rfl)
    (fun _ _ => rfl) (fun room n ih _ => ?_) room n ()
  exact node _ (seq (openBlock _) (seq take (seq (field _ dottedName) (seq endStatement
    (seq (body (child (nested (fileItemOf (ih ()))))) (finishBlock _))))))

/-- The room is that of the place, in both. -/
theorem fileItem : Widens n Production.fileItem Production.fileItem :=
  byRoom (p := fun room => Production.fileItemOf (Production.namespaceBlockUpTo room)) fun room n =>
    fileItemOf (namespaceBlockUpTo room n)

/-- A file whose tree has no diagnostics has the same tree with more room. -/
theorem sourceFile : Widens n Production.sourceFile Production.sourceFile :=
  node _ (repeatWhile (atKind fun _ => ite (pure _) (round (child fileItem))))

end Widens

end Production

-- ---------------------------------------------------------------------------
-- Trees
-- ---------------------------------------------------------------------------

namespace Tree

/-- The tree is what the production of files gives. -/
theorem ofTokens_of_run {source : List Char} {tokens : TokenStream} {limit : Nat} {root : Node}
    {s : State}
    (h : Production.sourceFile { source, tokens, limit }
      { diagnostics := (tokens.errors.map Diagnostic.ofLexicalError).reverse } = .ok root s) :
    ofTokens source tokens limit = make source (root.withSpan ⟨0, Text.byteLength source⟩)
      (s.diagnostics.reverse.mergeSort fun a b => a.span.start ≤ b.span.start) := by
  rw [Production.NeverFails.sourceFile.run_eq] at h
  obtain ⟨hroot, hstate⟩ := EStateM.Result.ok.inj h
  rw [← hroot, ← hstate]
  rfl

/-- The tree has the diagnostics of the run, in another order. -/
theorem diagnostics_eq_nil_of_run {source : List Char} {tokens : TokenStream}
    {limit : Nat} {root : Node}
    {s : State}
    (h : Production.sourceFile { source, tokens, limit }
      { diagnostics := (tokens.errors.map Diagnostic.ofLexicalError).reverse } = .ok root s)
    (hnone : (ofTokens source tokens limit).diagnostics = []) : s.diagnostics = [] := by
  rw [ofTokens_of_run h] at hnone
  have hlength := congrArg List.length hnone
  rw [make, List.length_mergeSort, List.length_reverse] at hlength
  exact List.length_eq_zero_iff.1 hlength

/-- A tree without errors is the tree that there is with more room. -/
theorem ofTokens_of_le {source : List Char} {tokens : TokenStream} {limit limit' : Nat}
    (hle : limit ≤ limit') (hclean : (ofTokens source tokens limit).hasError = false) :
    ofTokens source tokens limit' = ofTokens source tokens limit ∧
      (ofTokens source tokens limit).diagnostics = [] := by
  obtain ⟨root, s, hrun⟩ := Production.NeverFails.sourceFile { source, tokens, limit }
    ({ diagnostics := (tokens.errors.map Diagnostic.ofLexicalError).reverse } : State)
  have htree := ofTokens_of_run hrun
  -- there are no diagnostics behind the run, so it made none
  have hnone : (ofTokens source tokens limit).diagnostics = [] := by
    rw [hasError, Bool.or_eq_false_iff, Bool.not_eq_false', List.isEmpty_iff] at hclean
    exact hclean.2
  have hquiet := diagnostics_eq_nil_of_run hrun hnone
  have hroomier : Env.Roomier limit' { source, tokens, limit }
      { source, tokens, limit := limit' } := by
    refine ⟨rfl, ?_, ?_⟩
    · exact Nat.add_le_add_right hle 0
    · exact Nat.le_add_left limit' 0
  have hgrows := (Production.Widens.sourceFile (n := limit')).grows_ok hrun
  rw [hquiet] at hgrows
  obtain ⟨new, -, hsame⟩ := Production.Widens.sourceFile.same _ _ _ _ _ hroomier hrun
    (by rw [hquiet]; exact Nat.zero_le _)
  have hstart := List.length_eq_zero_iff.1 (Nat.le_zero.1 hgrows)
  refine ⟨?_, hnone⟩
  rw [htree, ofTokens_of_run (hsame _ (.refl _)), hquiet, State.onto, hstart]

/-- A parse without errors is the same within wider limits, and has no diagnostics. -/
theorem parseWithin_of_le {limits : Limits} {source : List Char} {tree : Tree} {depth : Nat}
    (hle : limits.maxNestingDepth ≤ depth) (hparse : parseWithin limits source = .ok tree)
    (hclean : tree.hasError = false) :
    parseWithin { limits with maxNestingDepth := depth } source = .ok tree ∧
      tree.diagnostics = [] := by
  obtain ⟨hchecks, rfl⟩ := parseWithin_eq_ok_iff.1 hparse
  obtain ⟨hsame, hnone⟩ := ofTokens_of_le hle hclean
  exact ⟨parseWithin_eq_ok_iff.2 ⟨hchecks, hsame⟩, hnone⟩

/-- An assignment to an element, which might be a call, at the least limit at which it is read. -/
def elementAssignment : List Char :=
  "Module M\nSub S\na(1) = b\nEnd Sub\nEnd Module\n".toList

theorem parseWithin_elementAssignment : ∃ tree,
    5 ≤ 8 ∧ parseWithin { maxNestingDepth := 5 } elementAssignment = .ok tree ∧
    tree.hasError = false ∧
      parseWithin { maxNestingDepth := 8 } elementAssignment = .ok tree ∧
      tree.diagnostics = [] := by
  have hparse : parseWithin { maxNestingDepth := 5 } elementAssignment = .ok
      (ofTokens elementAssignment (TokenStream.ofText elementAssignment) 5) :=
    parseWithin_eq_ok_iff.2 ⟨by decide +kernel, rfl⟩
  have hclean :
      (ofTokens elementAssignment (TokenStream.ofText elementAssignment) 5).hasError = false := by
    decide +kernel
  exact ⟨_, by decide, hparse, hclean, parseWithin_of_le (by decide) hparse hclean⟩

end Tree

end VisualBasic
