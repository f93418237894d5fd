import VisualBasic.Proofs.LoudStatements
import VisualBasic.Proofs.PassageLaws

/-!
# Declarations as passages

The members of types, the types and what a file holds are passages, too, but where a declaration may
or may not have a body, the lines ahead decide. What such a look tells is the same in two runs where
all tokens agree.

Main results:

* `Passage.typeDeclarationUpTo`, `Passage.namespaceBlockUpTo` — by induction on the levels that are
  left.
* `Passage.sourceFile` — a file is a passage.
-/

namespace VisualBasic.Production

variable {δ : Nat} {part : Bool} {spot : Spot}

namespace Passage

-- ---------------------------------------------------------------------------
-- Looks at other lines
-- ---------------------------------------------------------------------------

section

variable {α : Type}

/-- A look that is the same in two runs where all tokens agree. -/
theorem steadyIn_of_whole {seen : Env → State → α}
    (h : ∀ full env env' s s', Env.Alike δ (.whole full) env env' →
      State.Alike δ (.whole full) env.tokens env'.tokens s s' → seen env' s' = seen env s) :
    SteadyIn δ false spot seen := by
  intro m env env' s s' hm henv hs _ _
  cases m with
  | whole full => exact h full env env' s s' henv hs
  | upTo bound stop => exact Bool.noConfusion hm

end

/-- The word behind attributes and modifiers, if it is read in the run. -/
theorem steady_peekBehindPrefix :
    SteadyIn δ false spot fun env s => env.tokens.kindAt (env.tokens.behindPrefix s.cursor) := by
  refine steadyIn_of_whole fun full env env' s s' henv hs => ?_
  rw [hs.cursor, henv.behindPrefix trivial, henv.kindAt _ trivial]

/-- Whether a routine has a body is told by the lines behind it. -/
theorem steady_routineHasBody : SteadyIn δ false spot Env.routineHasBody := by
  refine steadyIn_of_whole fun full env env' s s' henv hs => ?_
  have hword : env'.tokens.behindPrefix (s.cursor + δ) = env.tokens.behindPrefix s.cursor + δ :=
    henv.behindPrefix trivial
  have hbody (routine : Keyword) (i : Nat) : env'.tokens.bodyFollows routine false (i + δ) =
      env.tokens.bodyFollows routine false i := henv.bodyFollows routine false nofun
  unfold Env.routineHasBody
  dsimp only
  rw [hs.innermost, hs.cursor, hword, henv.someIn _ _ trivial, henv.kindAt _ trivial,
    henv.lineEnd trivial, hbody, hbody]

/-- Whether a property has accessors is told by the line behind it. -/
theorem steady_propertyHasAccessors : SteadyIn δ false spot Env.propertyHasAccessors := by
  refine steadyIn_of_whole fun full env env' s s' henv hs => ?_
  unfold Env.propertyHasAccessors
  dsimp only
  rw [hs.cursor, henv.nextLine trivial, henv.kindAt _ trivial, henv.behindPrefix trivial,
    henv.kindAt _ trivial, Nat.add_right_comm, henv.kindAt _ trivial]

/-- Whether an event has accessors is told by the line behind it. -/
theorem steady_eventHasAccessors : SteadyIn δ false spot Env.eventHasAccessors := by
  refine steadyIn_of_whole fun full env env' s s' henv hs => ?_
  unfold Env.eventHasAccessors
  dsimp only
  rw [hs.cursor, henv.nextLine trivial, henv.kindAt _ trivial, Nat.add_right_comm,
    henv.kindAt _ trivial]

-- ---------------------------------------------------------------------------
-- Routines
-- ---------------------------------------------------------------------------

/-- All statements are passages. -/
theorem makesStatements : MakesStatements δ part Production.statement := by
  refine ⟨.statement, ?_, statement⟩
  intro env s ready
  have hmoves := Builds.continuing (m := .loud) (Builds.statementKindUpTo env.room)
    fun _ => Continues.wrap .statement
  exact Builds.orRecover (m := .loud) hmoves.mono (fun _ => Nat.one_pos) env s ready

/-- The form with a body has error regions, so it is a passage. -/
theorem routineWithBody (rule : Rule) : Makes δ part spot (Production.routineWithBody rule) := by
  refine node _ (.line fun l l' => .behind (Phrase.routineHeader _) fun word word' hword => ?_)
  subst hword
  exact .opening word l l' (seq (statements makesStatements) (finishBlock word))

/-- The form without a body has none, so it is a phrase. -/
theorem routineWithoutBody (rule : Rule) :
    Gives δ false spot false (Production.routineWithoutBody rule) :=
  .node _ (.bind (Phrase.routineHeader _) fun _ _ _ => .pure rfl)

/-- A declaration that has a body if the lines ahead say so. -/
theorem withOrWithoutBody {a : Ambiguity} {viable : Env → State → Bool} {p q : Parse Node}
    {lands : Bool} (hviable : SteadyIn δ false spot viable) (hp : Makes δ false spot p)
    (hq : Gives δ false spot lands q) :
    Makes δ false spot
      (Production.resolve a [{ viable, production := p }, { production := q }]) := by
  refine resolve fun best best' => .tryNext hviable hp nofun fun best best' => ?_
  exact .tryNext steady_always (.quiet hq) nofun fun best best' => .noneFits _ best best'

/-- The form with a body is tried where the look says so. -/
theorem routine (a : Ambiguity) (rule : Rule) : Makes δ false spot (Production.routine a rule) :=
  withOrWithoutBody steady_routineHasBody (routineWithBody rule) (routineWithoutBody rule)

-- ---------------------------------------------------------------------------
-- Properties
-- ---------------------------------------------------------------------------

/-- Either accessor. -/
theorem accessorOf (rule : Rule) {word : Keyword} (hword : (TokenKind.keyword word).isWord = true) :
    Makes δ part spot (Production.node rule do
      Production.openBlock word
      Production.recovering do
        Production.declarationPrefix
        Production.expectWord word
        if word == .kwSet then Production.optionalParameters
        Production.endStatement
      Production.statements Production.statement
      Production.finishBlock word) := by
  have hheader : Flows δ false spot false (do
      Production.declarationPrefix
      Production.expectWord word
      if word == .kwSet then Production.optionalParameters
      Production.endStatement) := by
    refine Phrase.seqAny Phrase.declarationPrefix (Phrase.seq (Phrase.expectWord (.word hword)) ?_)
    exact Phrase.ite (fun _ => Phrase.seq Phrase.optionalParameters Phrase.endStatement)
      fun _ => Phrase.endStatement
  refine node _ (openBlock word (seq (.recovering hheader) ?_))
  exact seq (statements makesStatements) (finishBlock word)

/-- The header, the statements and the closing line of an accessor. -/
theorem accessor : Makes δ false spot Production.accessor := by
  refine .look Looks.peekBehindPrefix steady_peekBehindPrefix (fun _ => spot) (fun _ _ h => h)
    fun kind => ?_
  by_cases h : (kind == .keyword .kwGet) = true
  · rw [if_pos h]
    exact accessorOf _ rfl
  · rw [if_neg h]
    exact accessorOf _ rfl

/-- One item of a property that has accessors, up to its closing line. -/
theorem propertyItem : Runs δ false spot false Production.propertyItem := by
  refine peek fun kind => ite (fun h => round (child (terminatorLeaf h))) fun _ => ?_
  refine .look Looks.peekBehindPrefix steady_peekBehindPrefix (fun _ => .plain spot.inside)
    (fun _ _ h => h.plain) fun word => ?_
  refine ite (fun _ => round (childNested accessor)) fun _ => ?_
  exact ifBoundary result (round (child (.unexpected _)))

/-- Each round reads a line end or an accessor. -/
theorem progresses_propertyItem : Progresses (· = true) Production.propertyItem := by
  have hregion : Builds .loud 1 true
      (Production.unexpected (.oneOf [.keyword .kwGet, .keyword .kwSet])) :=
    Builds.unexpected _ fun _ => Nat.one_pos
  refine .look Looks.peek fun kind => .ite (.round (Steps.child Builds.blankLine)) ?_
  refine .look Looks.peekBehindPrefix
    fun word => .ite (.round (Steps.child Builds.accessor.nested)) ?_
  exact .look (Looks.test _) fun _ => .ite (.pure nofun) (.round (Steps.child hregion))

/-- The header, the accessors and the closing line of a property. -/
theorem propertyWithAccessors : Makes δ false spot Production.propertyWithAccessors := by
  refine node _ (.line fun l l' => after Phrase.propertyHeader ?_)
  refine after Phrase.memberClauses (after Phrase.endStatement (.opening _ l l' ?_))
  exact seq (repeatWhile propertyItem progresses_propertyItem) (finishBlock .kwProperty)

/-- A property without accessors is a header, so it is a phrase. -/
theorem propertyWithoutAccessors : Gives δ false spot false Production.propertyWithoutAccessors :=
  Phrase.line _ (Phrase.seq Phrase.propertyHeader
    (Phrase.seq (Phrase.optionalValue _) Phrase.memberClauses))

/-- The form with accessors is tried where the look says so. -/
theorem propertyDeclaration : Makes δ false spot Production.propertyDeclaration :=
  withOrWithoutBody steady_propertyHasAccessors propertyWithAccessors propertyWithoutAccessors

-- ---------------------------------------------------------------------------
-- Events
-- ---------------------------------------------------------------------------

/-- What follows the word of an accessor of an event. -/
theorem eventAccessorRest (word : Keyword) : Runs δ part spot true (do
    Production.recovering do
      Production.optionalParameters
      Production.endStatement
    Production.statements Production.statement
    Production.finishBlock word) := by
  have hheader : Flows δ false spot false (do
      Production.optionalParameters
      Production.endStatement) :=
    Phrase.seq Phrase.optionalParameters Phrase.endStatement
  exact seq (.recovering hheader) (seq (statements makesStatements) (finishBlock word))

/-- All accessors of events have the same form, behind words of their own. -/
theorem eventAccessor (rule : Rule) {inside : Bool} {word : Keyword} {cs : List (TokenKind → Bool)}
    (hword : (TokenKind.keyword word).isWord = true) :
    Makes δ part ⟨inside, (· == .keyword word) :: cs⟩ (Production.eventAccessor rule word) :=
  node _ (openBlock word (after (Phrase.take (.word hword)) (eventAccessorRest word)))

/-- An accessor of an event reads its word. -/
theorem progresses_eventAccessor (rule : Rule) (word : Keyword) :
    Progresses (fun _ => True) (Production.eventAccessor rule word).nested := by
  have hrest : Runs 0 false {} true (do
      Production.recovering do
        Production.optionalParameters
        Production.endStatement
      Production.statements Production.statement
      Production.finishBlock word) := eventAccessorRest word
  have hbody : Progresses (fun _ => True) (Production.openBlock word >>= fun _ =>
      Production.take >>= fun _ => do
        Production.recovering do
          Production.optionalParameters
          Production.endStatement
        Production.statements Production.statement
        Production.finishBlock word) := by
    refine .behind (fun env s b s' hrun => ?_) fun _ => .first .take Climbs.take
      fun _ => hrest.climbs
    cases hrun
    rfl
  intro env s n s' hready hrun _
  obtain ⟨s₁, hrun₁, hcursor⟩ := construct_eq_ok hrun
  rw [hcursor]
  exact hbody { env with depth := env.depth + 1 } { s with children := [], isPartial := false } ()
    s₁ hready hrun₁ trivial

/-- One item of an event that has accessors, up to its closing line. -/
theorem eventItem : Runs δ part spot false Production.eventItem := by
  refine peek fun kind => ?_
  split
  · exact round (child (terminatorLeaf rfl))
  · exact round (child (terminatorLeaf rfl))
  · exact round (childNested (eventAccessor _ rfl))
  · exact round (childNested (eventAccessor _ rfl))
  · exact round (childNested (eventAccessor _ rfl))
  · exact ifBoundary result (round (child (.unexpected _)))

/-- Each round reads a line end or an accessor. -/
theorem progresses_eventItem : Progresses (· = true) Production.eventItem := by
  have hregion : Builds .loud 1 true (Production.unexpected .eventAccessor) :=
    Builds.unexpected _ fun _ => Nat.one_pos
  have hround (rule : Rule) (word : Keyword) (hword : (TokenKind.keyword word).isWord = true) :
      Progresses (· = true) (do
      Production.child (Production.nested (Production.eventAccessor rule word))
      return true) := by
    refine .first (.child (progresses_eventAccessor rule word)) ?_ fun _ => Climbs.pure true
    have hitem :
        Makes 0 false ⟨false, [(· == .keyword word)]⟩ (Production.eventAccessor rule word) :=
      eventAccessor rule hword
    exact (childNested hitem).climbs
  refine .look Looks.peek fun kind => ?_
  split
  · exact .round (Steps.child Builds.blankLine)
  · exact .round (Steps.child Builds.blankLine)
  · exact hround _ _ rfl
  · exact hround _ _ rfl
  · exact hround _ _ rfl
  · exact .look (Looks.test _) fun _ => .ite (.pure nofun) (.round (Steps.child hregion))

/-- The header, the accessors and the closing line of an event. -/
theorem eventWithAccessors : Makes δ part spot Production.eventWithAccessors := by
  refine node _ (.line fun l l' => after Phrase.eventHeader (.opening _ l l' ?_))
  exact seq (repeatWhile eventItem progresses_eventItem) (finishBlock .kwEvent)

/-- The form with accessors is tried where the look says so. -/
theorem eventDeclaration : Makes δ false spot Production.eventDeclaration :=
  withOrWithoutBody steady_eventHasAccessors eventWithAccessors (.node _ Phrase.eventHeader)

-- ---------------------------------------------------------------------------
-- Enumerations
-- ---------------------------------------------------------------------------

/-- A member of an enumeration, or an error region in its place. -/
theorem enumItem : Runs δ part spot false Production.enumItem := by
  refine peek fun kind => ite (fun h => child (terminatorLeaf h)) fun _ => ?_
  exact childNested (.orRecover (.quiet Phrase.enumMember))

/-- Each round reads a token. -/
theorem steps_enumItem : Steps .loud 1 true Production.enumItem := by
  refine Steps.look Looks.peek fun kind => Steps.ite (fun _ => ?_) fun _ => ?_
  · exact (Steps.child Builds.blankLine).mono
  · exact Steps.child (Builds.item Builds.enumMember fun _ => Nat.one_pos).nested

/-- The members of an enumeration, from its word on. -/
theorem enumRest : Runs δ part spot true (do
    Production.expectWord .kwEnum
    Production.field .name Production.identifier
    Production.optionalAsClause
    Production.endStatement
    Production.body Production.enumItem
    Production.finishBlock .kwEnum) := by
  refine after (Phrase.expectWord (.word rfl)) (after (Phrase.field _ Phrase.identifier) ?_)
  refine after Phrase.optionalAsClause (after Phrase.endStatement ?_)
  exact seq (body enumItem steps_enumItem) (finishBlock .kwEnum)

/-- The header, the members and the closing line of an enumeration. -/
theorem enumBlock : Makes δ part spot Production.enumBlock :=
  node _ (after Phrase.declarationPrefix (openBlock .kwEnum enumRest))

-- ---------------------------------------------------------------------------
-- Types and their members
-- ---------------------------------------------------------------------------

/-- What announces a member: the word behind attributes and modifiers, what follows it, and whether
there are any attributes or modifiers. -/
def announcement {B : Type} (env : Env) (s : State B) : TokenKind × TokenKind × Bool :=
  let word := env.tokens.behindPrefix s.cursor
  (env.tokens.kindAt word, env.tokens.kindAt (word + 1), s.cursor < word)

section

variable {B N : Type} [Builder B N] {typeDeclaration : Production B N}

/-- The production of the member that is announced. -/
def announced (typeDeclaration : Production B N) : TokenKind × TokenKind × Bool →
    Option (Production B N)
  | (.keyword .kwConst, _) => some constDeclaration
  | (.keyword .kwSub, following, _) =>
    some (if following == .keyword .kwNew then constructorDeclaration else methodDeclaration)
  | (.keyword .kwFunction, _) => some methodDeclaration
  | (.keyword .kwProperty, _) => some Production.propertyDeclaration
  | (.keyword .kwEvent, _) => some Production.eventDeclaration
  | (.keyword .kwClass, _) | (.keyword .kwModule, _) | (.keyword .kwStructure, _)
  | (.keyword .kwInterface, _) | (.keyword .kwEnum, _) | (.keyword .kwDelegate, _) =>
    some typeDeclaration
  | (.keyword .kwDim, _) => some fieldDeclaration
  | (kind, following, hasPrefix) =>
    if kind.isNameLike && (hasPrefix || followsFieldName following)
        then some fieldDeclaration else none

/-- The production of a member is picked by three looks. -/
theorem memberProduction_eq (env : Env) (s : State B) :
    memberProduction? typeDeclaration env s = announced typeDeclaration (announcement env s) := by
  unfold memberProduction? announcement
  dsimp only
  generalize env.tokens.kindAt (env.tokens.behindPrefix s.cursor) = kind
  cases kind with
  | keyword word => cases word <;> rfl
  | _ => rfl

/-- The member of a type, or an error region where none is announced. -/
def memberOr (production : Option (Production B N)) : Production B N :=
  match production with
  | some production => production.orRecover
  | none => Production.unexpected .memberDeclaration

/-- A member is a blank line, or what the three looks pick. -/
theorem member_eq : Production.member typeDeclaration = (do
    if (← Production.peek).isTerminator then Production.blankLine
    else do
      let what ← fun env s => .ok (announcement env s) s
      memberOr (announced typeDeclaration what)) := by
  unfold Production.member
  refine congrArg _ (funext fun kind => ?_)
  by_cases hterminator : kind.isTerminator = true
  · exact (if_pos hterminator).trans (if_pos hterminator).symm
  · refine (if_neg hterminator).trans (Eq.trans ?_ (if_neg hterminator).symm)
    funext env s
    change _ = memberOr (announced typeDeclaration (announcement env s)) env s
    rw [← memberProduction_eq]
    cases memberProduction? typeDeclaration env s with
    | none => rfl
    | some production => rfl

end

/-- The three looks tell the same in both runs. -/
theorem steady_announcement : SteadyIn δ false spot announcement := by
  refine steadyIn_of_whole fun full env env' s s' henv hs => ?_
  unfold announcement
  dsimp only
  rw [hs.cursor, henv.behindPrefix trivial, henv.kindAt _ trivial, Nat.add_right_comm,
    henv.kindAt _ trivial, decide_eq_decide.2 Nat.add_lt_add_iff_right]

section

variable {typeDeclaration : Parse Node}

/-- What holds of everything that a member may be holds of what is announced. -/
theorem announced_cases {what : TokenKind × TokenKind × Bool} {p : Parse Node}
    {motive : Parse Node → Prop}
    (h : announced typeDeclaration what = some p) (hconst : motive constDeclaration)
    (hmethod : motive methodDeclaration) (hconstructor : motive constructorDeclaration)
    (hproperty : motive Production.propertyDeclaration)
    (hevent : motive Production.eventDeclaration)
    (htype : motive typeDeclaration) (hfield : motive fieldDeclaration) : motive p := by
  unfold announced at h
  split at h
  case h_1 => cases h; exact hconst
  case h_2 =>
    cases h
    split
    · exact hconstructor
    · exact hmethod
  case h_3 => cases h; exact hmethod
  case h_4 => cases h; exact hproperty
  case h_5 => cases h; exact hevent
  case h_12 => cases h; exact hfield
  case h_13 =>
    split at h
    · cases h; exact hfield
    · cases h
  all_goals cases h; exact htype

/-- Whatever they pick is a passage. -/
theorem announced_makes (htype : Makes δ false (.plain false) typeDeclaration)
    {what : TokenKind × TokenKind × Bool} {p : Parse Node}
    (h : announced typeDeclaration what = some p) : Makes δ false spot p :=
  announced_cases h (.quiet Phrase.constDeclaration) (routine _ _) (routine _ _) propertyDeclaration
    eventDeclaration (anywhere htype) (.quiet Phrase.fieldDeclaration)

/-- A member is a passage if the types inside are. -/
theorem member (htype : Makes δ false (.plain false) typeDeclaration) :
    Makes δ false spot (Production.member typeDeclaration) := by
  rw [member_eq]
  refine peek fun kind => ite (fun h => terminatorLeaf h) fun _ => ?_
  refine .look (fun _ _ => rfl) steady_announcement (fun _ => .plain spot.inside)
    (fun _ _ h => h.plain)
    fun what => ?_
  cases h : announced typeDeclaration what with
  | none => exact .unexpected _
  | some p => exact .orRecover (announced_makes htype h)

/-- Every member reads a token where there is one. -/
theorem builds_member (htype : Builds .loud 0 true typeDeclaration) :
    Builds .loud 1 true (Production.member typeDeclaration) := by
  refine Builds.look Looks.peek fun kind => Builds.ite (fun _ => Builds.blankLine.mono) fun _ => ?_
  intro env s ready
  dsimp only
  split
  · rename_i production h
    have hitem : Builds .loud 1 true production.orRecover :=
      Builds.item (builds_memberProduction htype h) fun _ => Nat.one_pos
    exact hitem env s ready
  · have hregion : Builds .loud 1 true (Production.unexpected .memberDeclaration) :=
      Builds.unexpected _ fun _ => Nat.one_pos
    exact hregion env s ready

/-- What succeeds or is covered by an error region has read a token, if what succeeds has. -/
theorem lt_of_recovering {p : Parse Unit} (hp : Climbs p) {env : Env} {s s' : State} {a : Unit}
    (hready : env.tokens.Ready s.cursor 1) (hmoves : ∀ s', p env s = .ok () s' →
      s.cursor < s'.cursor)
    (hrun : p.recovering env s = .ok a s') : s.cursor < s'.cursor := by
  have hlater := hp env s hready.le_size
  unfold Production.recovering at hrun
  cases hfirst : p env s with
  | ok _ s₁ =>
    rw [hfirst] at hrun
    cases hrun
    exact hmoves _ hfirst
  | error f s₁ =>
    rw [hfirst] at hrun hlater
    cases hrun
    have hbounds := regionEnd_bounds env (0 < s₁.singleLineIfs) s₁.cursor s₁.cursor hlater.le_size
    rcases Nat.lt_or_eq_of_le hlater.cursor with hlt | heq
    · exact Nat.lt_of_lt_of_le hlt hbounds.1
    · have hready₁ : env.tokens.Ready s₁.cursor 1 := heq ▸ hready
      exact heq ▸ lt_regionEnd env (0 < s₁.singleLineIfs) s₁.cursor hready₁

/-- Where the line of a type goes on with a word, the clauses on it do not end in front of that. -/
theorem lt_of_clauses {env : Env} {s s' : State} {a : Unit} (hready : env.tokens.Ready s.cursor 1)
    (hkind : (env.kind s).endsLine = false ∧ env.kind s ≠ .keyword .kwElse)
    (hrun : (do
      Production.recovering do
        Production.inheritanceClauses
        Production.endStatement) env s = .ok a s') : s.cursor < s'.cursor := by
  have hclauses : Flows 0 false {} false Production.inheritanceClauses := Phrase.inheritanceClauses
  have hend : Flows 0 false {} false Production.endStatement := Phrase.endStatement
  refine lt_of_recovering (hclauses.climbs.bind fun _ => hend.climbs) hready
    (fun s₁ hrun₁ => ?_) hrun
  obtain ⟨_, s₂, hfirst, hrest⟩ := bind_eq_ok hrun₁
  have hlater := hclauses.climbs.ok hready.le_size hfirst
  have hlater₁ := hend.climbs.ok hlater.le_size hrest
  refine Nat.lt_of_le_of_ne (Nat.le_trans hlater.cursor hlater₁.cursor) fun heq => ?_
  have hcursor : s₂.cursor = s.cursor :=
    Nat.le_antisymm (heq ▸ hlater₁.cursor) hlater.cursor
  have hkind₂ : env.kind s₂ = env.kind s := congrArg env.tokens.kindAt hcursor
  have hends := hkind.1
  rw [← hkind₂, TokenKind.endsLine_eq, Bool.or_eq_false_iff] at hends
  have hterminator : atTerminator = test fun env (s : State) =>
      (env.kind s).endsLine || (env.kind s == .keyword .kwElse && 0 < s.singleLineIfs) := rfl
  unfold Production.endStatement at hrest
  rw [Looks.peek.run_bind, if_neg (Bool.eq_false_iff.1 hends.1), hterminator,
    (Looks.test _).run_bind, hkind₂, hkind.1, beq_false_of_ne hkind.2] at hrest
  cases hrest

/-- Each round reads a line end or a clause. -/
theorem progresses_typeHeadItem : Progresses (· = true) Production.typeHeadItem := by
  intro env s b s' hready hrun hb
  have hclauses {s' : State} (hkind : env.kind s = .keyword .kwInherits ∨
      env.kind s = .keyword .kwImplements)
      (hrun : ((Production.recovering do
        Production.inheritanceClauses
        Production.endStatement) >>= fun _ => Pure.pure true) env s = .ok b s') :
      s.cursor < s'.cursor := by
    obtain ⟨_, s₁, hfirst, hrest⟩ := bind_eq_ok hrun
    cases hrest
    refine lt_of_clauses hready ?_ hfirst
    rcases hkind with hkind | hkind
    · rw [hkind]
      exact ⟨rfl, nofun⟩
    · rw [hkind]
      exact ⟨rfl, nofun⟩
  have hblank : Progresses (· = true) (do
      Production.child Production.blankLine
      return true) := .round (Steps.child Builds.blankLine)
  unfold Production.typeHeadItem at hrun
  rw [Looks.peek.run_bind] at hrun
  generalize hkind : env.kind s = kind at hrun hclauses
  split at hrun
  · exact hblank env s b s' hready hrun hb
  · exact hblank env s b s' hready hrun hb
  · exact hclauses (.inl rfl) hrun
  · exact hclauses (.inr rfl) hrun
  · cases hrun
    cases hb

/-- A clause of a type or a blank line. -/
theorem typeHeadItem : Runs δ part spot false Production.typeHeadItem := by
  have hclauses {spot : Spot} : Flows δ false spot false (do
      Production.inheritanceClauses
      Production.endStatement) :=
    Phrase.seq Phrase.inheritanceClauses Phrase.endStatement
  refine peek fun kind => ?_
  split
  · exact round (child (terminatorLeaf rfl))
  · exact round (child (terminatorLeaf rfl))
  · exact round (.recovering hclauses)
  · exact round (.recovering hclauses)
  · exact result

/-- What follows the opening line of a type, before its members. -/
theorem typeHead : Runs δ part spot false (Production.repeatWhile Production.typeHeadItem) :=
  repeatWhile typeHeadItem progresses_typeHeadItem

/-- What stands behind the prefix of a type. -/
theorem typeRest (htype : Makes δ false (.plain false) typeDeclaration)
    (hbuilds : Builds .loud 0 true typeDeclaration) {word : Keyword}
    (hword : (TokenKind.keyword word).isWord = true) : Runs δ false spot false (do
      Production.openBlock word
      Production.expectWord word
      Production.field .name Production.identifier
      if ← atKind (.mark .leftParen) then
        Production.child (Production.nested Production.typeParameters)
      Production.inheritanceClauses
      Production.endStatement
      Production.repeatWhile Production.typeHeadItem
      Production.body (Production.child (Production.nested (Production.member typeDeclaration)))
      Production.finishBlock word) := by
  have hmoves : Steps .loud 1 true
      (Production.child (Production.nested (Production.member typeDeclaration))) :=
    Steps.child (builds_member hbuilds).nested
  have hbody {spot : Spot} : Runs δ false spot true (do
      Production.inheritanceClauses
      Production.endStatement
      Production.repeatWhile Production.typeHeadItem
      Production.body (Production.child (Production.nested (Production.member typeDeclaration)))
      Production.finishBlock word) := by
    refine after Phrase.inheritanceClauses (after Phrase.endStatement (seq typeHead ?_))
    exact seq (body (childNested (member htype)) hmoves) (finishBlock word)
  refine openBlock word ?_
  refine after (Phrase.expectWord (.word hword)) (after (Phrase.field _ Phrase.identifier) ?_)
  exact ifAt (after (Phrase.childNested Phrase.typeParameters) hbody) hbody

/-- The header, the clauses, the members and the closing line of a type. -/
theorem typeBlock (htype : Makes δ false (.plain false) typeDeclaration)
    (hbuilds : Builds .loud 0 true typeDeclaration) (rule : Rule) {word : Keyword}
    (hword : (TokenKind.keyword word).isWord = true) :
    Makes δ false spot (Production.typeBlock typeDeclaration rule word) :=
  node _ (after Phrase.declarationPrefix (typeRest htype hbuilds hword))

/-- A type is a passage if the types inside are. -/
theorem typeDefinition (htype : Makes δ false (.plain false) typeDeclaration)
    (hbuilds : Builds .loud 0 true typeDeclaration) :
    Makes δ false spot (Production.typeDefinition typeDeclaration) := by
  refine .look Looks.peekBehindPrefix steady_peekBehindPrefix (fun _ => .plain spot.inside)
    (fun _ _ h => h.plain) fun kind => ?_
  split
  · exact typeBlock htype hbuilds _ rfl
  · exact typeBlock htype hbuilds _ rfl
  · exact typeBlock htype hbuilds _ rfl
  · exact typeBlock htype hbuilds _ rfl
  · exact enumBlock
  · exact .quiet Phrase.delegateDeclaration
  · exact fail _

end

/-- Types in types, by the levels that are left. -/
theorem typeDeclarationUpTo (room : Nat) :
    Makes δ false spot (Production.typeDeclarationUpTo room) := by
  induction room generalizing spot with
  | zero => exact tooDeep
  | succ room ih =>
    exact .checked (wrapped _ (typeDefinition ih (Builds.typeDeclarationUpTo room)))

/-- The induction is on the levels that are left to the types inside. -/
theorem typeDeclaration : Makes δ false spot Production.typeDeclaration :=
  .byRoom typeDeclarationUpTo

-- ---------------------------------------------------------------------------
-- Files
-- ---------------------------------------------------------------------------

theorem steady_atFileAttribute : Steady δ spot fun env s =>
    env.hasAhead s [.mark .less, .identifier, .mark .colon]
      || env.hasAhead s [.mark .less, .keyword .kwModule, .mark .colon] :=
  (Nearsighted.map₂ or (.hasAhead (by decide)) (.hasAhead (by decide))).steady

/-- An item of a file is a passage if namespaces are. -/
theorem fileItemOf {namespaceBlock : Parse Node}
    (hnamespace : Makes δ false (.before false (· == .keyword .kwNamespace)) namespaceBlock) :
    Makes δ false spot (Production.fileItemOf namespaceBlock) := by
  refine peek fun kind => ?_
  split
  · exact terminatorLeaf rfl
  · exact terminatorLeaf rfl
  · exact .orRecover (.quiet Phrase.optionStatements)
  · exact .orRecover (.quiet (Phrase.importsStatement (.word rfl)))
  · exact .orRecover (.mono hnamespace fun _ _ h => ⟨nofun, h.kind, trivial⟩)
  · refine ifLook (steady_atFileAttribute.steadyIn false) ?_ (.orRecover typeDeclaration)
    exact .orRecover (.quiet Phrase.fileAttribute)

/-- Namespaces in namespaces, by the levels that are left. -/
theorem namespaceBlockUpTo (room : Nat) {inside : Bool} {cs : List (TokenKind → Bool)} :
    Makes δ false ⟨inside, (· == .keyword .kwNamespace) :: cs⟩
      (Production.namespaceBlockUpTo room) := by
  induction room generalizing inside cs with
  | zero => exact tooDeep
  | succ room ih =>
    refine .checked (node _ (openBlock .kwNamespace (after (Phrase.take (.word rfl)) ?_)))
    refine after (Phrase.field _ Phrase.dottedName) (after Phrase.endStatement ?_)
    have hmoves : Steps .loud 1 true (Production.child (Production.nested
        (Production.fileItemOf (Production.namespaceBlockUpTo room)))) :=
      Steps.child (Builds.fileItemOf (BuildsAt.namespaceBlockUpTo room) fun _ => Nat.one_pos).nested
    exact seq (body (childNested (fileItemOf ih)) hmoves) (finishBlock .kwNamespace)

/-- The induction is on the levels that are left to the namespaces inside. -/
theorem fileItem : Makes δ false spot Production.fileItem :=
  .byRoom fun room => fileItemOf (namespaceBlockUpTo room)

/-- All of a file is a passage. -/
theorem sourceFile : Makes δ false spot Production.sourceFile := by
  refine node _ (repeatWhile (ifAt result (round (child fileItem))) ?_)
  exact .look (Looks.test _) fun _ => .ite (.pure nofun)
    (.round (Steps.child (Builds.fileItem fun _ => Nat.one_pos)))

end Passage

end VisualBasic.Production
