import VisualBasic.Proofs.PhraseRules

/-!
# The quiet part of the grammar

Every production that leaves no diagnostics behind is a phrase: names, types, expressions, clauses,
and the headers of declarations and statements.

Main results:

* `Phrase.type`, `Phrase.expression`, `Phrase.leftHandSide` — by induction on the levels that are
  left.
* `Phrase.attributeBlock`, `Phrase.parameters`, `Phrase.declarationPrefix` — the parts of
  declarations.
-/

namespace VisualBasic.Production.Phrase

variable {δ : Nat} {strict : Bool} {spot : Spot}

-- ---------------------------------------------------------------------------
-- Names and types
-- ---------------------------------------------------------------------------

/-- Line ends may be skipped anywhere; a line that closes a block does not begin with one. -/
theorem skipNewlines : Phrase δ strict spot false false Eq Production.skipNewlines
    Production.skipNewlines := by
  have hskip : IsWordClass strict false (· == .newline) :=
    ⟨rfl, rfl, rfl, fun _ => rfl, fun _ _ => rfl⟩
  refine anywhere (repeatWhile (ifAt (seq (.skip hskip) (.pure rfl)) (.pure rfl)) ?_)
  refine .look (Looks.test _) fun _ => .ite ?_ (.pure nofun)
  intro env s a s' hready hrun _
  cases hrun
  exact Nat.lt_of_lt_of_le (Nat.lt_succ_self _) (Nat.le_min.2 ⟨Nat.le_refl _, hready.lt_size⟩)

/-- A name with dots ends with a name, and so inside of a statement. -/
theorem dottedName : Gives δ strict spot true Production.dottedName :=
  node _ (seq (child identifier) (repeatAccept (.word rfl) (child (memberName rfl))))

/-- Between the parentheses of a rank there are commas and nothing else. -/
theorem arrayRank : Gives δ strict spot true Production.arrayRank := by
  refine node _ (openParen (seq (repeatWhile (acceptAny (.word rfl)) ?_) (closeParen _)))
  exact .look (Looks.test _) fun _ => .ite (.round ReadsOne.take.1) (.pure nofun)

/-- The types stand between parentheses, so each of them begins inside of a statement. -/
theorem typeArgumentsOf {type : Parse Node} (htype : Gives δ strict (.plain true) true type) :
    Gives δ strict spot true (Production.typeArgumentsOf type) := by
  refine node _ (openParen (seq (expectWord (.word rfl)) ?_))
  exact seq (commaSeparated (childNested htype) (childNested htype)) (closeParen _)

/-- Two tokens tell whether a rank follows. -/
theorem steady_atRank : Steady δ spot fun env s =>
    env.hasAhead s [.mark .leftParen, .mark .comma] ||
      env.hasAhead s [.mark .leftParen, .mark .rightParen] :=
  (Nearsighted.map₂ or (.hasAhead (by decide)) (.hasAhead (by decide))).steady

/-- What follows the name of a type. -/
theorem typeSuffix {type : Parse Node} (htype : Gives δ strict (.plain true) true type)
    (ranks : Bool) :
    Flows δ strict (.plain true) true (do
      if ← atTypeArguments then
        Production.child (Production.nested (Production.typeArgumentsOf type))
      Production.repeatWhile do
        if ranks && (← atRank) then
          Production.child Production.arrayRank
          return true
        return false) := by
  have hranks : Flows δ strict (.plain true) true (Production.repeatWhile do
      if ranks && (← atRank) then
        Production.child Production.arrayRank
        return true
      return false) := by
    refine repeatWhile ?_ (.look (Looks.test _) fun _ =>
      .ite (.round (Steps.child Builds.arrayRank)) (.pure nofun))
    refine look (Looks.test _) steady_atRank (fun _ => .plain true) (fun _ _ h => h) fun _ => ?_
    exact ite (fun _ => seq (child arrayRank) (pure rfl)) fun _ => pure rfl
  have harguments : Flows δ strict (.plain true) true
      (Production.child (Production.nested (Production.typeArgumentsOf type))) :=
    childNested (typeArgumentsOf htype)
  exact ifLook (Nearsighted.hasAhead (by decide)).steady (seq harguments hranks) hranks

/-- By induction on the levels that are left. -/
theorem typeUpTo (room : Nat) (ranks : Bool) :
    Gives δ strict spot true (Production.typeUpTo room ranks) := by
  induction room generalizing ranks spot with
  | zero => exact tooDeep
  | succ room ih =>
    have hsuffix := typeSuffix (ih true) ranks
    refine checked (node _ (peek fun kind => ?_))
    split
    · refine peekNext rfl fun next => ite (fun h => ?_) fun _ => seq (child dottedName) hsuffix
      have hword := TokenKind.isWord_of_isPrimitiveType (Bool.and_eq_true_iff.1 h).1
      exact seq (child (ruleLeaf _ (.word hword))) hsuffix
    · exact seq (child dottedName) hsuffix

/-- The levels that are left are the same in two runs, since the limit is. -/
theorem type (ranks : Bool) : Gives δ strict spot true (Production.type ranks) :=
  byRoom fun room => typeUpTo room ranks

theorem typeArguments : Gives δ strict spot true Production.typeArguments :=
  typeArgumentsOf (type true)

-- ---------------------------------------------------------------------------
-- Names, members and literals
-- ---------------------------------------------------------------------------

/-- A literal is read in front of a token of which it is known that it may be read. -/
theorem literal {inside : Bool} {c : TokenKind → Bool} {cs : List (TokenKind → Bool)}
    (rule : Rule) (hc : Readable strict inside c) :
    Gives δ strict ⟨inside, c :: cs⟩ true (Production.literal rule) :=
  wrapped _ (ruleLeaf rule hc)

/-- The object has been read, so the dot stands inside of a statement. -/
theorem memberAccess {object object' : Node} (h : object.Alike δ object')
    (hinside : spot.inside = true) :
    Phrase δ strict spot false true (Node.Alike δ) (Production.memberAccess object)
      (Production.memberAccess object') := by
  refine nodeFrom h _ (seq (field _ (wrap _ h)) ?_)
  rw [hinside]
  exact seq (expectMark (.word rfl)) (field _ (memberName rfl))

/-- An access to a member of the `With` object begins with its dot. -/
theorem implicitMemberAccess : Gives δ strict spot true Production.implicitMemberAccess :=
  node _ (seq (expectMark (.word rfl)) (field _ (memberName rfl)))

-- ---------------------------------------------------------------------------
-- Arguments and initializers
-- ---------------------------------------------------------------------------

section

variable {expression : Parse Node}

/-- An argument by name has a colon and an equals sign behind the name. -/
theorem argumentOf_eq (expression : Parse Node) :
    Production.argumentOf expression = Production.node .argument (do
      if ← test fun env s => (env.kind s).isNameLike && env.kindAhead s 1 == .mark .colon
          && env.kindAhead s 2 == .mark .equal then
        Production.field .name Production.identifier
        Production.take
        Production.take
      Production.child expression) := rfl

/-- Three tokens tell whether an argument has a name. -/
theorem nearsighted_named : Nearsighted fun env s =>
    (env.kind s).isNameLike && env.kindAhead s 1 == .mark .colon &&
      env.kindAhead s 2 == .mark .equal := by
  have hnamed : Nearsighted fun env s => (env.kind s).isNameLike &&
      (env.kindAhead s 1 == .mark .colon && env.kindAhead s 2 == .mark .equal) := by
    refine .behind rfl fun env env' s s' hfirst hkinds => ?_
    have hsecond : env'.kindAhead s' 1 = env.kindAhead s 1 := hkinds 1 fun j hj => by
      obtain rfl := Nat.lt_one_iff.1 hj
      exact hfirst
    rw [hsecond]
    by_cases hcolon : env.kindAhead s 1 = .mark .colon
    · rw [hkinds 2 fun j hj => ?_]
      obtain rfl | rfl := Nat.le_one_iff_eq_zero_or_eq_one.1 (Nat.le_of_lt_succ hj)
      · exact hfirst
      · rw [hcolon]
        exact nofun
    · rw [beq_eq_false_iff_ne.2 hcolon]
      rfl
  intro env env' s s' hkinds hifs
  simpa only [Bool.and_assoc] using hnamed env env' s s' hkinds hifs

/-- The name of an argument is read only where the colon and the equality sign are seen behind
it. -/
theorem argumentOf (hexpr : ∀ {spot}, Gives δ strict spot true expression) :
    Gives δ strict spot true (Production.argumentOf expression) := by
  rw [argumentOf_eq]
  refine node _ (ifTest [TokenKind.isNameLike, (· == .mark .colon), (· == .mark .equal)]
    nearsighted_named.steady ?_ ?_ (child hexpr))
  · intro env s _ h
    rw [Bool.and_eq_true, Bool.and_eq_true] at h
    exact ⟨h.1.1, h.1.2, h.2, trivial⟩
  · have hcolon : IsWordClass strict true (· == .mark .colon) :=
      ⟨rfl, rfl, rfl, fun _ => rfl, fun _ _ => rfl⟩
    have hname : Readable strict true TokenKind.isNameLike :=
      .of_isWord fun _ => TokenKind.isWord_of_isNameLike
    refine bindOne (field _ identifier) (ReadsOne.identifierField .name).2 rfl
      (fun (_ : true = true) => hname.isInnerClass) fun _ _ _ => ?_
    exact takeColonThen hcolon (seq (take (.word rfl)) (child hexpr))

/-- What follows the parenthesis that opens arguments. -/
abbrev argumentRowOf (expression : Parse Node) : Parse Unit := do
  unless ← atKind (.mark .rightParen) do
    Production.repeatWhile do
      unless (← atKind (.mark .comma)) || (← atKind (.mark .rightParen)) do
        Production.child (Production.nested (Production.argumentOf expression))
      if ← Production.acceptMark .comma then
        Production.skipNewlines
        return true
      return false
  Production.expectEnd .rightParen

/-- The arguments between the parentheses. Line ends behind commas are within them. -/
theorem argumentRow (hexpr : ∀ {spot}, Gives δ strict spot true expression)
    (hbuilds : Builds .quiet 0 true expression) : Phrase δ strict (.plain true) true true Eq
      (argumentRowOf expression) (argumentRowOf expression) := by
  have hcomma : Flows δ strict (.plain false) false (do
      if ← Production.acceptMark .comma then
        Production.skipNewlines
        return true
      return false) :=
    ifAccept (.word rfl) (seq skipNewlines (pure rfl)) (pure rfl)
  refine ifAt (closeParen _) (seqAny (anywhere (repeatWhile (ifEither ?_ ?_) ?_)) (closeParen _))
  · exact anywhere hcomma
  · exact seq (childNested (argumentOf hexpr)) (anywhere hcomma)
  · refine .look (Looks.test _) fun _ => .look (Looks.test _) fun _ => .ite ?_ ?_
    · exact .accept ((Climbs.of_steps Steps.skipNewlines).bind fun _ => Climbs.pure _) (.pure nofun)
    · have hargument := Steps.child (Builds.argumentOf hbuilds).nested
      exact .first (.of_steps hargument) (.of_steps hargument) fun _ => hcomma.climbs

/-- The parentheses are closed where they were opened. -/
theorem argumentsOf (hexpr : ∀ {spot}, Gives δ strict spot true expression)
    (hbuilds : Builds .quiet 0 true expression) :
    Gives δ strict spot true (Production.argumentsOf expression) :=
  checked (node _ (openParen (argumentRow hexpr hbuilds)))

/-- A value, perhaps behind a member and an equality sign. -/
theorem initializerOf (hexpr : ∀ {spot}, Gives δ strict spot true expression) :
    Gives δ strict spot true (Production.initializerOf expression) := by
  refine node _ (ifAccept (.word rfl) ?_ (childNested hexpr))
  exact seq (field _ (memberName rfl)) (seq (expectMark (.word rfl)) (childNested hexpr))

/-- Line ends are read behind the brace that opens the row, and the one that closes it is still to
come. -/
theorem initializersOf (hexpr : ∀ {spot}, Gives δ strict spot true expression) :
    Gives δ strict spot true (Production.initializersOf expression) := by
  have hend : Flows δ strict (.plain false) true (do
      Production.skipNewlines
      Production.expectEnd .rightBrace) :=
    seqAny skipNewlines (expectEnd (.word rfl))
  have hitem {spot : Spot} : Flows δ strict spot true
      (Production.child (Production.nested (Production.initializerOf expression))) :=
    childNested (initializerOf hexpr)
  refine checked (node _ (seq (expectMark (.word rfl)) (seqAny skipNewlines ?_)))
  exact ifAt (anywhere hend) (seq (commaSeparated hitem hitem) (anywhere hend))

-- ---------------------------------------------------------------------------
-- Calls and indices
-- ---------------------------------------------------------------------------

/-- An access to elements of an object that has been read alike. -/
theorem elementAccessOf (hexpr : ∀ {spot}, Gives δ strict spot true expression)
    {object object' : Node}
    (h : object.Alike δ object') :
    Phrase δ strict spot false true (Node.Alike δ) (Production.elementAccessOf expression object)
      (Production.elementAccessOf expression object') := by
  have hindices : Flows δ strict (.plain true) true
      (Production.commaSeparated (Production.field .index (Production.nested expression))) :=
    commaSeparated (fieldNested _ hexpr) (fieldNested _ hexpr)
  refine nodeFrom h _ (seq (field _ (wrap _ h)) (openParen ?_))
  exact ifAt (closeParen _) (seq hindices (closeParen _))

/-- A call of what has been read alike. -/
theorem invocationOf (hexpr : ∀ {spot}, Gives δ strict spot true expression)
    (hbuilds : Builds .quiet 0 true expression) {target target' : Node}
    (h : target.Alike δ target') :
    Phrase δ strict spot false true (Node.Alike δ) (Production.invocationOf expression target)
      (Production.invocationOf expression target') := by
  have harguments {spot : Spot} : Flows δ strict spot true
      (Production.field .arguments (Production.nested (Production.argumentsOf expression))) :=
    fieldNested _ (argumentsOf hexpr hbuilds)
  refine nodeFrom h _ (attachThen (h.inField _) ?_)
  refine ifLook (Nearsighted.hasAhead (by decide)).steady ?_ harguments
  exact seq (childNested typeArguments) (ifAt harguments (pure rfl))

/-- The choice between the two is made by the rule of what has been read, which is the same. -/
theorem callOrIndexOf (hexpr : ∀ {spot}, Gives δ strict spot true expression)
    (hbuilds : Builds .quiet 0 true expression) {target target' : Node}
    (h : target.Alike δ target') :
    Phrase δ strict spot false true (Node.Alike δ) (Production.callOrIndexOf expression target)
      (Production.callOrIndexOf expression target') := by
  rw [Parse.callOrIndexOf_eq, Parse.callOrIndexOf_eq, ← h.isRule]
  exact ite (fun _ => invocationOf hexpr hbuilds h) fun _ => elementAccessOf hexpr h

-- ---------------------------------------------------------------------------
-- Primaries
-- ---------------------------------------------------------------------------

/-- The expression begins behind a parenthesis, inside of a statement. -/
theorem parenthesizedOf (hexpr : ∀ {spot}, Gives δ strict spot true expression) :
    Gives δ strict spot true (Production.parenthesizedOf expression) :=
  node _ (openParen (seq (childNested hexpr) (closeParen _)))

/-- The word is known to be ahead; the operands stand between parentheses. -/
theorem ternaryOf (hexpr : ∀ {spot}, Gives δ strict spot true expression) {inside : Bool}
    {c : TokenKind → Bool} {cs : List (TokenKind → Bool)} (hc : Readable strict inside c) :
    Gives δ strict ⟨inside, c :: cs⟩ true (Production.ternaryOf expression) := by
  refine node _ (seq (take hc) (openParen ?_))
  refine seq (fieldNested _ hexpr) (seq (expectMark (.word rfl)) ?_)
  refine seq (fieldNested _ hexpr) (seq (expectMark (.word rfl)) ?_)
  exact seq (fieldNested _ hexpr) (closeParen _)

/-- The word is known to be ahead, and what is created stands behind it. -/
theorem newOf (hexpr : ∀ {spot}, Gives δ strict spot true expression)
    (hbuilds : Builds .quiet 0 true expression) {inside : Bool} {c : TokenKind → Bool}
    {cs : List (TokenKind → Bool)} (hc : Readable strict inside c) :
    Gives δ strict ⟨inside, c :: cs⟩ true (Production.newOf expression) := by
  have hinitializers : Flows δ strict (.plain true) true (do
      if ← atKind (.mark .leftBrace) then
        Production.child (Production.nested (Production.initializersOf expression))) :=
    ifAt (childNested (initializersOf hexpr)) (pure rfl)
  have hbraces : Flows δ strict (.plain true) true (do
      if ← test fun env s => env.hasAhead s [.keyword .kwWith, .mark .leftBrace]
          || env.hasAhead s [.keyword .kwFrom, .mark .leftBrace] then Production.take
      if ← atKind (.mark .leftBrace) then
        Production.child (Production.nested (Production.initializersOf expression))) := by
    exact ifRows nofun nofun (seq (take (.either rfl rfl)) hinitializers) hinitializers
  have hcalled : Flows δ strict (.plain true) true (do
      if ← atKind (.mark .leftParen) then
        Production.child (Production.nested (Production.argumentsOf expression))
      if ← test fun env s => env.hasAhead s [.keyword .kwWith, .mark .leftBrace]
          || env.hasAhead s [.keyword .kwFrom, .mark .leftBrace] then Production.take
      if ← atKind (.mark .leftBrace) then
        Production.child (Production.nested (Production.initializersOf expression))) :=
    whenAt (childNested (argumentsOf hexpr hbuilds)) hbraces
  refine node _ (seq (take hc) (ifAt (Phrase.at hcalled) ?_))
  exact seq (fieldNested _ (type false)) hcalled

/-- The kind of the token ahead picks the operand, so it is known when the operand is read. -/
theorem primaryOf (hexpr : ∀ {spot}, Gives δ strict spot true expression)
    (hbuilds : Builds .quiet 0 true expression) :
    Gives δ strict spot true (Production.primaryOf expression) := by
  refine peek fun kind => ?_
  split
  case h_8 => exact wrapped _ (token (.word rfl))
  case h_9 => exact newOf hexpr hbuilds (.word rfl)
  case h_10 =>
    exact peekNext rfl fun _ => ite (fun _ => ternaryOf hexpr (.word rfl)) fun _ => fail _
  case h_11 => exact parenthesizedOf hexpr
  case h_12 => exact initializersOf hexpr
  case h_13 => exact implicitMemberAccess
  case h_14 =>
    exact ite (fun h => ruleLeaf _ (.word (TokenKind.isWord_of_isNameLike h))) fun _ => fail _
  all_goals exact literal _ (.word rfl)

/-- What extends a primary reads a token. -/
theorem progresses_memberAccess (object : Node) :
    Progresses (fun _ => True) (Production.memberAccess object) := by
  refine .nodeFrom (.behind (fun _ _ _ _ hrun => ?_) fun _ => .of_steps Steps.member)
  cases hrun
  rfl

/-- An access to elements reads its parenthesis. -/
theorem progresses_elementAccessOf (hbuilds : Builds .quiet 0 true expression) (object : Node) :
    Progresses (fun _ => True) (Production.elementAccessOf expression object) := by
  have hopen := Steps.expectMark .leftParen
  have hindices := Steps.commaSeparated (Steps.field .index hbuilds.nested)
  have hend : Climbs (Production.expectEnd .rightParen) := Climbs.ifTake _
  refine .nodeFrom (.behind (fun _ _ _ _ hrun => ?_) fun _ => ?_)
  · cases hrun
    rfl
  · refine .first (.of_steps hopen) (.of_steps hopen) fun _ => ?_
    exact .look (Looks.test _) fun _ => .ite hend ((Climbs.of_steps hindices).bind fun _ => hend)

/-- A call does so, too. -/
theorem progresses_invocationOf (hbuilds : Builds .quiet 0 true expression) (target : Node) :
    Progresses (fun _ => True) (Production.invocationOf expression target) := by
  have htypes := Steps.child Builds.typeArguments.nested
  have harguments := Steps.field .arguments (Builds.argumentsOf hbuilds).nested
  refine .nodeFrom (.behind (fun _ _ _ _ hrun => ?_) fun _ => ?_)
  · cases hrun
    rfl
  · refine .look (Looks.test _) fun _ => .ite ?_ (.of_steps harguments)
    refine .first (.of_steps htypes) (.of_steps htypes) fun _ => ?_
    exact .look (Looks.test _) fun _ => .ite (.of_steps harguments) (.pure _)

/-- So it need not be known which of the two it is. -/
theorem progresses_callOrIndexOf (hbuilds : Builds .quiet 0 true expression) (target : Node) :
    Progresses (fun _ => True) (Production.callOrIndexOf expression target) := by
  rw [Parse.callOrIndexOf_eq]
  exact .ite (progresses_invocationOf hbuilds target) (progresses_elementAccessOf hbuilds target)

/-- Each access or call reads a token, so the loop over them is the same in two runs. -/
theorem postfixOf (hexpr : ∀ {spot}, Gives δ strict spot true expression)
    (hbuilds : Builds .quiet 0 true expression) :
    Gives δ strict spot true (Production.postfixOf expression) := by
  refine bind (primaryOf hexpr hbuilds) fun primary primary' hprimary => ?_
  refine bind (iterate (fun inner inner' h => ?_) (fun inner => ?_) hprimary) fun _ _ h => wrap _ h
  · refine peek fun kind => ?_
    split
    · exact some (memberAccess h rfl)
    · exact some (callOrIndexOf hexpr hbuilds h)
    · exact none
  · refine .look Looks.peek fun kind => ?_
    split
    · exact .some (progresses_memberAccess inner)
    · exact .some (progresses_callOrIndexOf hbuilds inner)
    · exact .pure nofun

end

-- ---------------------------------------------------------------------------
-- Operators
-- ---------------------------------------------------------------------------

section

variable {operand : Int → Parse Node}

/-- The word is known to be ahead, and its operand stands behind it. -/
theorem typeTestOf (hoperand : ∀ {spot} level, Gives δ strict spot true (operand level))
    {inside : Bool} {c : TokenKind → Bool} {cs : List (TokenKind → Bool)}
    (hc : Readable strict inside c) :
    Gives δ strict ⟨inside, c :: cs⟩ true (Production.typeTestOf operand) := by
  refine bind (node _ (seq (take hc) (seq (fieldNested _ (hoperand _)) ?_))) fun _ _ h => wrap _ h
  refine ifEither (seq (field _ (token (.either rfl rfl))) ?_) (failThen _)
  exact fieldNested _ (type true)

/-- Operators that stand in front are words and marks that may be read. -/
theorem unaryOf (hoperand : ∀ {spot} level, Gives δ strict spot true (operand level))
    (hbuilds : Builds .quiet 0 true (operand Precedence.lowest)) :
    Gives δ strict spot true (Production.unaryOf operand) := by
  refine peek fun kind => ?_
  split
  case h_5 => exact typeTestOf hoperand (.word rfl)
  case h_6 => exact Phrase.at (postfixOf (hoperand _) hbuilds)
  all_goals
    refine bind (node _ (seq (field _ (token (.word rfl))) ?_)) fun _ _ h => wrap _ h
    exact fieldNested _ (hoperand _)

/-- No line that closes a block begins with a binary operator. -/
theorem isMidway_of_ofKind? {kind : TokenKind} {precedence : Precedence}
    (h : Precedence.ofKind? kind = Option.some precedence) : kind.isMidway = true := by
  have hall : ∀ p ∈ Precedence.table, ∀ k ∈ p.operators, k.isMidway = true := by decide
  have hfound := List.find?_some (p := fun p : Precedence => p.operators.contains kind) h
  exact hall precedence (List.mem_of_find?_eq_some h) kind (List.contains_iff_mem.1 hfound)

/-- The operator is seen before it is read; what has been read so far is alike. -/
theorem extendOf (hoperand : ∀ {spot} level, Gives δ strict spot true (operand level)) (level : Int)
    {left left' : Node} (h : left.Alike δ left') :
    Phrase δ strict (.plain true) false true (OptionAlike (Node.Alike δ))
      (Production.extendOf operand level left) (Production.extendOf operand level left') := by
  refine peek fun kind => ?_
  cases hkind : Precedence.ofKind? kind with
  | none => exact none
  | some precedence =>
    refine ite (fun _ => none) fun _ => ?_
    refine bind (nodeFrom h _ (attachThen (h.inField _) ?_)) fun _ _ h => some (wrap _ h)
    refine seq (field _ (token (.midway (isMidway_of_ofKind? hkind)))) ?_
    exact fieldNested _ (hoperand _)

/-- Where there is an operator, it is read. -/
theorem progresses_extendOf (hbuilds : ∀ level, Builds .quiet 0 true (operand level)) (level : Int)
    (left : Node) : Progresses (fun y => y.isSome = true)
    (Production.extendOf operand level left) := by
  refine .look Looks.peek fun kind => ?_
  split
  · exact .pure nofun
  · have hright := Steps.field .right (hbuilds ‹Precedence›.right).nested
    have hoperator : Climbs (Production.field .operator Production.tokenLeaf) :=
      .field _ .tokenLeaf
    have hfirst : Progresses (fun _ => True) (Production.field .operator Production.tokenLeaf) :=
      .of_steps (ReadsOne.tokenField .operator).1
    refine .ite (.pure nofun) (.first (.nodeFrom (.behind (fun _ _ _ _ hrun => ?_) fun _ => ?_)) ?_
      fun _ => .some (.wrap _ _))
    · cases hrun
      rfl
    · exact hfirst.first hoperator fun _ => .of_steps hright
    · exact .construct ((Climbs.attach _).bind fun _ => hoperator.bind fun _ => .of_steps hright)

end

/-- By induction on the levels that are left. -/
theorem expressionUpTo (room : Nat) (level : Int) :
    Gives δ strict spot true (Production.expressionUpTo room level) := by
  induction room generalizing level spot with
  | zero => exact tooDeep
  | succ room ih =>
    have hbuilds := Builds.expressionUpTo room
    refine checked (bind (unaryOf (fun level => ih level) (hbuilds _)) fun left left' hleft => ?_)
    exact iterate (fun _ _ h => extendOf (fun level => ih level) level h)
      (fun _ => progresses_extendOf hbuilds level _) hleft

/-- Every expression is a phrase, wherever it begins. -/
theorem expression : Gives δ strict spot true Production.expression :=
  byRoom fun room => expressionUpTo room _

/-- The arguments that stand by themselves. -/
theorem arguments : Gives δ strict spot true Production.arguments :=
  argumentsOf expression Builds.expression

/-- The initializers that stand by themselves. -/
theorem initializers : Gives δ strict spot true Production.initializers :=
  initializersOf expression

-- ---------------------------------------------------------------------------
-- Targets of assignments
-- ---------------------------------------------------------------------------

/-- One step of the search behind parentheses, without the bound of the text. -/
theorem assignmentFollowsParens_eq (t : TokenStream) (nesting i : Nat) :
    t.assignmentFollowsParens nesting i = match t.kindAt i with
      | .mark .leftParen => t.assignmentFollowsParens (nesting + 1) (i + 1)
      | .mark .rightParen =>
        if nesting ≤ 1 then (t.kindAt (i + 1)).isAssignment
        else t.assignmentFollowsParens (nesting - 1) (i + 1)
      | .newline | .endOfFile => false
      | _ => t.assignmentFollowsParens nesting (i + 1) := by
  rw [TokenStream.assignmentFollowsParens]
  split
  · rfl
  · rw [TokenStream.kindAt_of_size_le (Nat.le_of_not_lt ‹_›)]

/-- The search for an assignment ends with the line. -/
theorem nearsighted_assignmentFollowsParens (nesting : Nat) :
    Nearsighted fun env s => env.tokens.assignmentFollowsParens nesting s.cursor := by
  intro env env' s s' hkinds _
  have hfrom (m k n : Nat) (hm : env.tokens.tokens.size - (s.cursor + k) ≤ m)
      (hk : ∀ j < k, env.kindAhead s j ≠ .newline) :
      env'.tokens.assignmentFollowsParens n (s'.cursor + k) =
        env.tokens.assignmentFollowsParens n (s.cursor + k) := by
    induction m generalizing k n with
    | zero =>
      have hend : env.tokens.kindAt (s.cursor + k) = .endOfFile :=
        TokenStream.kindAt_of_size_le (by omega)
      have hkind : env'.tokens.kindAt (s'.cursor + k) = _ := hkinds k hk
      rw [assignmentFollowsParens_eq, assignmentFollowsParens_eq env.tokens, hkind,
        Env.kindAhead, hend]
    | succ m ih =>
      have hkind : env'.tokens.kindAt (s'.cursor + k) = _ := hkinds k hk
      have hk' (h : env.kindAhead s k ≠ .newline) : ∀ j < k + 1, env.kindAhead s j ≠ .newline :=
        fun j hj => (Nat.lt_succ_iff_lt_or_eq.1 hj).elim (hk j) fun hj => hj ▸ h
      have hnext (n : Nat) (h : env.kindAhead s k ≠ .newline) :
          env'.tokens.assignmentFollowsParens n (s'.cursor + k + 1) =
            env.tokens.assignmentFollowsParens n (s.cursor + k + 1) :=
        ih (k + 1) n (by omega) (hk' h)
      rw [assignmentFollowsParens_eq, assignmentFollowsParens_eq env.tokens, hkind]
      change _ = match env.kindAhead s k with
        | .mark .leftParen => _
        | .mark .rightParen => _
        | .newline | .endOfFile => _
        | _ => _
      split
      · refine hnext _ ?_
        rw [‹env.kindAhead s k = _›]
        exact nofun
      · have hline : env.kindAhead s k ≠ .newline := by
          rw [‹env.kindAhead s k = _›]
          exact nofun
        have hbehind :
            env'.tokens.kindAt (s'.cursor + k + 1) = env.tokens.kindAt (s.cursor + k + 1) :=
          hkinds (k + 1) (hk' hline)
        rw [hbehind, hnext _ hline]
      · rfl
      · rfl
      · exact hnext _ ‹_›
  exact hfrom _ 0 nesting (Nat.le_refl _) fun _ hj => absurd hj (Nat.not_lt_zero _)

/-- The parts of a target behind its first one. -/
theorem targetParts {first first' : Node} (h : first.Alike δ first') :
    Phrase δ strict (.plain true) false true Eq
      (do
        let target ← Production.iterate (fun inner => do
          match ← Production.peek with
          | .mark .dot => Option.some <$> Production.memberAccess inner
          | .mark .leftParen =>
            if ← test fun env s => env.tokens.assignmentFollowsParens 0 s.cursor then
              Option.some <$> Production.elementAccessOf Production.expression inner
            else Option.some <$> Production.callOrIndexOf Production.expression inner
          | _ => return Option.none) first
        unless target.isRule [.identifier, .memberAccess, .elementAccess] do
          Production.fail .assignmentTarget
        Production.attach target)
      (do
        let target ← Production.iterate (fun inner => do
          match ← Production.peek with
          | .mark .dot => Option.some <$> Production.memberAccess inner
          | .mark .leftParen =>
            if ← test fun env s => env.tokens.assignmentFollowsParens 0 s.cursor then
              Option.some <$> Production.elementAccessOf Production.expression inner
            else Option.some <$> Production.callOrIndexOf Production.expression inner
          | _ => return Option.none) first'
        unless target.isRule [.identifier, .memberAccess, .elementAccess] do
          Production.fail .assignmentTarget
        Production.attach target) := by
  refine bind (iterate (fun inner inner' hinner => ?_) (fun inner => ?_) h)
    fun target target' ht => ?_
  · refine peek fun kind => ?_
    split
    · exact some (memberAccess hinner rfl)
    · refine ifLook (nearsighted_assignmentFollowsParens 0).steady ?_ ?_
      · exact some (elementAccessOf expression hinner)
      · exact some (callOrIndexOf expression Builds.expression hinner)
    · exact none
  · refine .look Looks.peek fun kind => ?_
    split
    · exact .some (progresses_memberAccess inner)
    · refine .look (Looks.test _) fun _ => .ite ?_ ?_
      · exact .some (progresses_elementAccessOf Builds.expression inner)
      · exact .some (progresses_callOrIndexOf Builds.expression inner)
    · exact .pure nofun
  · show Phrase _ _ _ _ _ _ (if _ then _ else _) (if _ then _ else _)
    rw [← ht.isRule]
    exact ite (fun _ => attach ht) fun _ => failThen _

/-- A target is a phrase. The search behind its parentheses stays on the line or in the parentheses,
so it finds the same. -/
theorem leftHandSide : Gives δ strict spot true Production.leftHandSide := by
  refine checked (node _ (peek fun kind => ?_))
  split
  · exact bind implicitMemberAccess fun _ _ h => targetParts h
  · refine ite (fun h => ?_) fun _ => failThen _
    exact bind (ruleLeaf _ (.word (TokenKind.isWord_of_isNameLike h))) fun _ _ h => targetParts h

-- ---------------------------------------------------------------------------
-- Variables and type parameters
-- ---------------------------------------------------------------------------

/-- The bounds stand between parentheses. -/
theorem arrayBounds : Gives δ strict spot true Production.arrayBounds := by
  have hbound {spot : Spot} : Flows δ strict spot true
      (Production.field .upperBound (Production.nested Production.expression)) :=
    fieldNested _ expression
  exact node _ (openParen (seq (commaSeparated hbound hbound) (closeParen _)))

/-- Which of the two it is, is told by two tokens. -/
theorem arraySuffix : Gives δ strict spot true Production.arraySuffix :=
  ifLook steady_atRank arrayRank arrayBounds

/-- The word stands in front of the type, so the type begins inside of a statement. -/
theorem asClause : Gives δ strict spot true Production.asClause := by
  have hinitializers : Flows δ strict (.plain true) true (do
      if (← atWord .kwWith) || (← atWord .kwFrom) then
        Production.take
        Production.child (Production.nested Production.initializers)) :=
    ifEither (seq (take (.either rfl rfl)) (childNested initializers)) (pure rfl)
  refine checked (node _ (seq (expectWord (.word rfl)) (ifAccept (.word rfl) ?_ ?_)))
  · refine seq (fieldNested _ (type false)) ?_
    exact whenAt (childNested arguments) hinitializers
  · exact fieldNested _ (type true)

/-- Where there is no type, nothing is read, and the statement is still going on if it was
before. -/
theorem optionalAsClause : Flows δ strict spot spot.inside Production.optionalAsClause :=
  ifAt (still (childNested asClause)) (pure rfl)

/-- The same holds of a value that may be missing. -/
theorem optionalValue (f : Field) : Flows δ strict spot spot.inside (Production.optionalValue f) :=
  ifAccept (.word rfl) (still (fieldNested _ expression)) (pure rfl)

/-- The name is read for sure. -/
theorem declarator : Flows δ strict spot true Production.declarator := by
  refine seq (field _ identifier) (whenAt (childNested arraySuffix) ?_)
  exact seq optionalAsClause (optionalValue _)

/-- One of three words or a type. -/
theorem typeConstraint : Gives δ strict spot true Production.typeConstraint := by
  refine node _ (peek fun kind => ?_)
  split
  case h_4 => exact childNested (type true)
  all_goals exact take (.word rfl)

/-- The name is read for sure; constraints stand between braces or are a single one. -/
theorem typeParameter : Gives δ strict spot true Production.typeParameter := by
  have hconstraint {spot : Spot} : Flows δ strict spot true
      (Production.field .constraint (Production.nested Production.typeConstraint)) :=
    fieldNested _ typeConstraint
  refine node _ (seq (field _ identifier) (ifAccept (.word rfl) ?_ (pure rfl)))
  refine ifAccept (.word rfl) ?_ hconstraint
  exact seq (commaSeparated hconstraint hconstraint) (expectEnd (.word rfl))

/-- The type parameters stand between parentheses. -/
theorem typeParameters : Gives δ strict spot true Production.typeParameters := by
  have hitem {spot : Spot} : Flows δ strict spot true
      (Production.child (Production.nested Production.typeParameter)) :=
    childNested typeParameter
  refine checked (node _ (openParen (seq (expectWord (.word rfl)) ?_)))
  exact seq (commaSeparated hitem hitem) (closeParen _)

-- ---------------------------------------------------------------------------
-- Attributes and modifiers
-- ---------------------------------------------------------------------------

/-- The name of an attribute has a dot in it only behind a word that can be a name. -/
theorem attributeName_eq :
    (do if (← peekAhead 1) == .mark .dot then Production.dottedName else Production.identifier :
      Parse Node) =
    (do
      if ← test fun env s => (env.kind s).isNameLike && env.kindAhead s 1 == .mark .dot then
        Production.dottedName
      else Production.identifier) := by
  funext env s
  rw [(Looks.peekAhead 1).run_bind, (Looks.test _).run_bind]
  cases hname : (env.kind s).isNameLike with
  | true => rfl
  | false =>
    have hfails (s₀ : State) (h : (env.kind s₀).isNameLike = false) :
        Production.identifier env s₀ = Production.fail .identifier env s₀ := by
      unfold Production.identifier
      rw [Looks.peek.run_bind, h]
      rfl
    have hdotted : Production.dottedName env s = Production.fail .identifier env s := by
      unfold Production.dottedName Production.node
      rw [Parse.construct_eq, run_bind, Production.child, run_bind,
        hfails { s with children := [], isPartial := false } hname]
      rfl
    split
    · exact hdotted.trans (hfails s hname).symm
    · rfl

/-- The target of an attribute is read only where the colon is seen behind it. -/
theorem attributeItem : Gives δ strict spot true Production.attributeItem := by
  have hname {spot : Spot} : Gives δ strict spot true (do
      if (← peekAhead 1) == .mark .dot then Production.dottedName else Production.identifier) := by
    rw [attributeName_eq]
    exact ifLook (Nearsighted.pair (p := TokenKind.isNameLike) (q := (· == .mark .dot)) rfl).steady
      dottedName identifier
  have hrest {spot : Spot} : Flows δ strict spot true (do
      Production.field .name (do
        if (← peekAhead 1) == .mark .dot then Production.dottedName else Production.identifier)
      if ← atKind (.mark .leftParen) then
        Production.child (Production.nested Production.arguments)) :=
    seq (field _ hname) (ifAt (childNested arguments) (pure rfl))
  have htarget : Readable strict spot.inside
      (fun kind => kind == .identifier || kind == .keyword .kwModule) := .either rfl rfl
  refine node _ (ifRows nofun nofun ?_ hrest)
  refine bindOne (field _ (ruleLeaf _ htarget)) (ReadsOne.ruleField .target .identifier).2 rfl
    (fun (_ : true = true) => htarget.isInnerClass) fun _ _ _ => ?_
  exact takeColonThen ⟨rfl, rfl, rfl, fun _ => rfl, fun _ _ => rfl⟩ hrest

/-- The mark that opens attributes may be barred where a line begins. -/
theorem attributeBlock (h : spot.inside = true ∨ strict = false) :
    Gives δ strict spot true Production.attributeBlock := by
  have hitem {spot : Spot} : Flows δ strict spot true
      (Production.child (Production.nested Production.attributeItem)) :=
    childNested attributeItem
  refine checked (node _ (seq (expectMark (.opening h)) ?_))
  exact seq (commaSeparated hitem hitem) (expectEnd (.word rfl))

/-- Modifiers are words, and none of them closes a block. -/
theorem modifiers : Gives δ strict spot spot.inside Production.modifiers := by
  refine node _ (repeatWhile (peek fun kind => ite (fun h => ?_) fun _ => pure rfl) ?_)
  · exact still (seq (child (ruleLeaf _ (.word (TokenKind.isWord_of_isModifier h)))) (pure rfl))
  · exact .look Looks.peek fun _ => .ite (.round (Steps.child (Builds.ruleLeaf _))) (.pure nofun)

/-- An attribute block and the line end that may follow it. -/
theorem attributeLine : Flows δ false (.plain false) false (do
    if ← atKind (.mark .less) then
      Production.field .attributes (Production.nested Production.attributeBlock)
      if ← atKind .newline then Production.skip
      return true
    return false) :=
  ifAt (seq (fieldNested _ (attributeBlock (.inr rfl))) skipNewline) (pure rfl)

/-- A line of attributes reads the mark that opens it. -/
theorem progresses_attributeLine : Progresses (· = true) (do
    if ← atKind (.mark .less) then
      Production.field .attributes (Production.nested Production.attributeBlock)
      if ← atKind .newline then Production.skip
      return true
    return false) := by
  have hblock := Steps.field .attributes Builds.attributeBlock.nested
  refine .look (Looks.test _) fun _ => .ite (.first (.of_steps hblock) (.of_steps hblock) ?_)
    (.pure nofun)
  exact fun _ => .look (Looks.test _) fun _ => .ite (Climbs.skip.bind fun _ => .pure _) (.pure _)

/-- Attributes on lines of their own may stand in front of a declaration, so it is not known whether
the prefix ends inside of a statement. -/
theorem declarationPrefix : Flows δ false spot false Production.declarationPrefix := by
  have hmodifiers : Flows δ false (.plain false) false (do
      if (← Production.peek).isModifier then Production.field .modifiers Production.modifiers) :=
    peek fun _ => ite (fun _ => field _ modifiers) fun _ => pure rfl
  refine anywhere (seqAny (repeatWhile attributeLine progresses_attributeLine) hmodifiers)

-- ---------------------------------------------------------------------------
-- Parameters
-- ---------------------------------------------------------------------------

/-- The words for how a parameter is passed may be read one by one. -/
theorem isWord_of_isPassing {kind : TokenKind} (h : isPassing kind = true) :
    kind.isWord = true := by
  cases kind with
  | keyword word => cases word <;> first | rfl | cases h
  | _ => cases h

/-- A parameter begins behind a parenthesis or a comma. -/
theorem parameter : Gives δ strict (.plain true) true Production.parameter := by
  have hpassing : Flows δ strict (.plain true) true (Production.repeatWhile do
      if isPassing (← Production.peek) then
        Production.take
        return true
      return false) := by
    refine repeatWhile (peek fun kind => ite (fun h => ?_) fun _ => pure rfl) ?_
    · exact seq (take (.word (isWord_of_isPassing h))) (pure rfl)
    · exact .look Looks.peek fun _ => .ite (.round ReadsOne.take.1) (.pure nofun)
  refine node _ (whenAt (fieldNested _ (attributeBlock (.inl rfl))) (seq hpassing ?_))
  refine seq (field _ identifier) (ifLook steady_atRank (seq (child arrayRank) ?_) ?_)
  · exact seq optionalAsClause (optionalValue _)
  · exact seq optionalAsClause (optionalValue _)

/-- The parameters stand between parentheses. -/
theorem parameters : Gives δ strict spot true Production.parameters := by
  have hitem : Flows δ strict (.plain true) true
      (Production.child (Production.nested Production.parameter)) :=
    childNested parameter
  refine checked (node _ (openParen (ifAt (closeParen _) ?_)))
  exact seq (commaSeparated hitem hitem) (closeParen _)

/-- Where there is no parenthesis, nothing is read. -/
theorem optionalParameters : Flows δ strict spot spot.inside Production.optionalParameters :=
  ifAt (still (fieldNested _ parameters)) (pure rfl)

-- ---------------------------------------------------------------------------
-- Inheritance and events
-- ---------------------------------------------------------------------------

/-- The clause begins with a word that may be read. -/
theorem typeListClause (rule : Rule) {word : Keyword} (h : (TokenKind.keyword word).isWord = true) :
    Gives δ strict spot true (Production.typeListClause rule word) := by
  have hitem {spot : Spot} : Flows δ strict spot true
      (Production.child (Production.nested (Production.type false))) :=
    childNested (type false)
  exact node _ (seq (expectWord (.word h)) (commaSeparated hitem hitem))

/-- The events that are handled are names. -/
theorem handlesClause : Gives δ strict spot true Production.handlesClause :=
  node _ (seq (expectWord (.word rfl)) (commaSeparated (child dottedName) (child dottedName)))

/-- Each clause is picked by its word. -/
theorem inheritanceClauses : Flows δ strict spot spot.inside Production.inheritanceClauses := by
  refine repeatWhile (peek fun kind => ?_) (.look Looks.peek fun kind => ?_)
  · split
    · exact still (seq (field _ (typeListClause _ rfl)) (pure rfl))
    · exact still (seq (field _ (typeListClause _ rfl)) (pure rfl))
    · exact pure rfl
  · split
    · exact .round (Steps.field .inherits (Builds.typeListClause _ _))
    · exact .round (Steps.field .implements (Builds.typeListClause _ _))
    · exact .pure nofun

/-- The same holds of the clauses of a member. -/
theorem memberClauses : Flows δ strict spot spot.inside Production.memberClauses := by
  refine repeatWhile (peek fun kind => ?_) (.look Looks.peek fun kind => ?_)
  · split
    · exact still (seq (field _ handlesClause) (pure rfl))
    · exact still (seq (field _ (typeListClause _ rfl)) (pure rfl))
    · exact pure rfl
  · split
    · exact .round (Steps.field .handles Builds.handlesClause)
    · exact .round (Steps.field .implements (Builds.typeListClause _ _))
    · exact .pure nofun

end VisualBasic.Production.Phrase
