import VisualBasic.Proofs.WordsForNames

/-!
# Names in expressions may be reworded

Within an expression a name may be any of the words that are reserved in a few positions only: as an
operand, as a member, as the name of an argument, in a type, and in front of an initializer. The one
place of an expression at which such a word is looked for is behind the type and the arguments of
`New`, where `From` and a brace begin initializers. A name that stands there ends the expression.

Main results:

* `Rewords.type` — types and what is in them.
* `RewordsIf.expression` — expressions.
* `expression_reword_eq` — with names replaced by such words, an expression is read as the same
  nodes.
-/

namespace VisualBasic

theorem Keyword.isPrimitiveType_of_isContextual (word : Keyword) (h : word.isContextual = true) :
    word.isPrimitiveType = false := by
  cases word <;> first | rfl | cases h

/-- None of the words is a binary operator. -/
theorem Precedence.namesAlike_ofKind? : TokenKind.NamesAlike Precedence.ofKind? := by
  intro word hword
  cases word <;> first | rfl | cases hword

namespace Production

open State

variable {off : Bool}

instance : Holds (!(TokenKind.keyword .kwOf).isNameLike) := ⟨rfl⟩

instance : Holds (!(TokenKind.keyword .kwWith).isNameLike) := ⟨rfl⟩

instance : Holds (!(TokenKind.keyword .kwIs).isNameLike) := ⟨rfl⟩

instance : Holds (!(TokenKind.keyword .kwIsNot).isNameLike) := ⟨rfl⟩

namespace Rewords

-- The instance that is found for a production is as large as its text.
set_option synthInstance.maxSize 4000

-- ---------------------------------------------------------------------------
-- Names and types
-- ---------------------------------------------------------------------------

instance identifier : Rewords off Production.identifier := by
  refine peek (fun word hword => ?_) ruleLeaf fun kind _ => ?_
  · rw [TokenKind.namesAlike_isNameLike word hword]
  · infer_instance

instance memberName : Rewords off Production.memberName := by
  refine peek (fun word _ => rfl) ruleLeaf fun kind _ => ?_
  split <;> infer_instance

instance dottedName : Rewords off Production.dottedName := by
  unfold Production.dottedName
  infer_instance

instance atTypeArguments : Rewords off Production.atTypeArguments :=
  looks fun henv s => henv.hasAhead (by decide) s

instance atRank : Rewords off Production.atRank :=
  looks fun henv s => by rw [henv.hasAhead (by decide), henv.hasAhead (by decide)]

instance arrayRank : Rewords off Production.arrayRank := by
  unfold Production.arrayRank
  infer_instance

instance commaSeparated {item : Parse Unit} [hitem : ∀ off, Rewords off item] :
    Rewords off (Production.commaSeparated item) := by
  unfold Production.commaSeparated
  infer_instance

instance typeArgumentsOf {type : Parse Node} [∀ off, Rewords off type] :
    Rewords off (Production.typeArgumentsOf type) := by
  unfold Production.typeArgumentsOf
  infer_instance

/-- None of the words names a built-in type. -/
instance typeUpTo {room : Nat} {ranks : Bool} : Rewords off (Production.typeUpTo room ranks) := by
  induction room generalizing off ranks with
  | zero => exact tooDeep
  | succ room ih =>
    have hall : ∀ off, Rewords off (Production.typeUpTo room true) := fun _ => ih
    unfold Production.typeUpTo
    refine checkDepth.bind fun _ => @node _ _ _ ?_
    dsimp only
    refine peek (fun word hword => ?_) ?_ fun kind _ => ?_
    · funext env s
      dsimp only
      rw [word.isPrimitiveType_of_isContextual hword]
      rfl
    · infer_instance
    · split
      · exact peekAhead (fun _ _ => rfl) fun _ => inferInstance
      · infer_instance

instance type {ranks : Bool} : Rewords off (Production.type ranks) := by
  refine ⟨fun henv hoff hrun => ?_⟩
  unfold Production.type at hrun ⊢
  rw [henv.room]
  exact typeUpTo.same henv hoff hrun

instance typeArguments : Rewords off Production.typeArguments := by
  unfold Production.typeArguments
  infer_instance

-- ---------------------------------------------------------------------------
-- Parts of expressions
-- ---------------------------------------------------------------------------

instance literal {r : Rule} : Rewords off (Production.literal r) := by
  unfold Production.literal
  infer_instance

instance memberAccess {n : Node} : Rewords off (Production.memberAccess n) := by
  unfold Production.memberAccess
  infer_instance

instance implicitMemberAccess : Rewords off Production.implicitMemberAccess := by
  unfold Production.implicitMemberAccess
  infer_instance

end Rewords

section

variable {expression : Parse Node} (hexpr : ∀ off, RewordsIf off always expression)

/-- What is ahead of a token that is read. -/
theorem kindAhead_of_readsOne {α : Type} {p : Parse α} (hp : ReadsOne p) {env : Env}
    {s s₁ : State} {a : α}
    (hrun : p env s = .ok a s₁) {i : Nat} (hne : env.kindAhead s (i + 1) ≠ .endOfFile) :
    env.kindAhead s₁ i = env.kindAhead s (i + 1) := by
  have hlt : s.cursor + (i + 1) < env.tokens.tokens.size := TokenStream.lt_size_of_kindAt_ne hne
  have hnext : s₁.cursor = s.cursor + 1 := by
    rw [hp.2 env s a s₁ hrun]
    exact Nat.min_eq_left (by omega)
  rw [Env.kindAhead, Env.kindAhead, hnext, Nat.add_right_comm, Nat.add_assoc]

theorem hasAhead_pair (env : Env) (s : State) (kind kind' : TokenKind) :
    env.hasAhead s [kind, kind'] = (env.kind s == kind && env.kindAhead s 1 == kind') := by
  simp [Env.hasAhead, Env.kind, Env.kindAhead]

include hexpr

/-- Whether an argument has a name is told by the colon and the sign behind it. -/
theorem RewordsIf.argumentOf : RewordsIf off always (Production.argumentOf expression) := by
  have hvalue (off : Bool) : RewordsIf off always expression.child := (hexpr off).child
  refine .node ⟨fun {env env' s _ s'} henv hoff hrun hheeds => ?_⟩
  rw [Looks.peek.run_bind, (Looks.peekAhead 1).run_bind, (Looks.peekAhead 2).run_bind] at hrun ⊢
  rw [(henv.kind s).alike TokenKind.namesAlike_isNameLike, henv.beq_kindAhead rfl,
    henv.beq_kindAhead rfl]
  by_cases hnamed : ((env.kind s).isNameLike && env.kindAhead s 1 == .mark .colon &&
      env.kindAhead s 2 == .mark .equal) = true
  · rw [if_pos hnamed] at hrun ⊢
    obtain ⟨hname, hequal⟩ := Bool.and_eq_true_iff.1 hnamed
    obtain ⟨-, hcolon⟩ := Bool.and_eq_true_iff.1 hname
    rw [beq_iff_eq] at hcolon hequal
    obtain ⟨_, s₁, hrunName, hrun⟩ := bind_eq_ok hrun
    obtain ⟨_, s₂, hrunColon, hrun⟩ := bind_eq_ok hrun
    obtain ⟨_, s₃, hrunEqual, hrun⟩ := bind_eq_ok hrun
    have hcolon₁ : env.kindAhead s₁ 0 = .mark .colon := by
      rw [kindAhead_of_readsOne (.identifierField .name) hrunName
        (by rw [hcolon]; exact TokenKind.noConfusion), hcolon]
    have hequal₁ : env.kindAhead s₁ 1 = .mark .equal := by
      rw [kindAhead_of_readsOne (.identifierField .name) hrunName
        (by rw [hequal]; exact TokenKind.noConfusion), hequal]
    have hequal₂ : env.kindAhead s₂ 0 = .mark .equal := by
      rw [kindAhead_of_readsOne .take hrunColon
        (by rw [hequal₁]; exact TokenKind.noConfusion), hequal₁]
    rw [run_bind, Rewords.field.same henv hoff hrunName]
    dsimp only
    rw [run_bind, Rewords.take.same henv (fun _ => ne_of_eq_of_ne hcolon₁ TokenKind.noConfusion)
      hrunColon]
    dsimp only
    rw [run_bind, Rewords.take.same henv (fun _ => ne_of_eq_of_ne hequal₂ TokenKind.noConfusion)
      hrunEqual]
    exact (hvalue false).same henv (absurd · Bool.false_ne_true) hrun hheeds
  · rw [if_neg hnamed] at hrun ⊢
    exact (hvalue off).same henv hoff hrun hheeds

/-- Behind an argument the list goes on only with a comma. -/
theorem Rewords.argumentsOf : Rewords off (Production.argumentsOf expression) := by
  refine checkDepth.bind fun _ => @node _ _ _ (expectMark.bind fun _ => .of_never ?_)
  have hmore : Rewords false (do
      if ← Production.acceptMark .comma then
        Production.skipNewlines
        return true
      return false) := inferInstance
  have hbalks : Balks (fun more => !more && true) (do
      if ← Production.acceptMark .comma then
        Production.skipNewlines
        return true
      return false) := .acceptThen TokenKind.noConfusion (.pure rfl)
  have hstep : RewordsIf false (fun more => !more && true) (do
      unless (← Production.atKind (.mark .comma)) || (← Production.atKind (.mark .rightParen)) do
        Production.child (Production.nested (Production.argumentOf expression))
      if ← Production.acceptMark .comma then
        Production.skipNewlines
        return true
      return false) := by
    refine .behind atKindOnly fun _ => .behind atKindOnly fun _ => .ite hmore.rewordsIf ?_
    exact (RewordsIf.argumentOf hexpr).nested.child.bind (fun _ => hmore.rewordsIf)
      fun _ _ => hbalks
  refine .atKind rfl Rewords.expectEnd.rewordsIf ?_
  exact (RewordsIf.repeatWhile hstep).bind (fun _ => Rewords.expectEnd.rewordsIf)
    fun _ _ => .expectEnd

/-- The value of a member, or an element of a collection. -/
theorem RewordsIf.initializerOf : RewordsIf off always (Production.initializerOf expression) := by
  refine .node (.behind .acceptMark fun _ => .ite ?_ (hexpr false).nested.child)
  refine .behind inferInstance fun _ => .behind inferInstance fun _ => ?_
  exact (hexpr false).nested.child

theorem Rewords.initializersOf : Rewords off (Production.initializersOf expression) := by
  refine checkDepth.bind fun _ => @node _ _ _ (expectMark.bind fun _ => skipNewlines.bind
    fun _ => .of_never ?_)
  have hclosed : Rewords false (do
      Production.skipNewlines
      Production.expectEnd .rightBrace) := inferInstance
  have hitem (off : Bool) : RewordsIf off always
      (Production.child (Production.nested (Production.initializerOf expression))) :=
    (RewordsIf.initializerOf hexpr).nested.child
  refine .behind atKindOnly fun _ => .ite hclosed.rewordsIf ?_
  refine (RewordsIf.commaSeparated (hitem false) (hitem false)).bind (fun _ => hclosed.rewordsIf)
    fun _ _ => ?_
  exact .bind .skipNewlines fun _ => .expectEnd

/-- Behind the indices the list goes on only with a comma. -/
theorem Rewords.elementAccessOf {n : Node} :
    Rewords off (Production.elementAccessOf expression n) := by
  refine @nodeFrom _ _ _ _ (bind inferInstance fun _ => expectMark.bind fun _ => .of_never ?_)
  have hitem : RewordsIf false always (Production.field .index (Production.nested expression)) :=
    (hexpr false).nested.field
  refine .behind atKindOnly fun _ => .ite Rewords.expectEnd.rewordsIf ?_
  exact (RewordsIf.commaSeparated hitem hitem).bind (fun _ => Rewords.expectEnd.rewordsIf)
    fun _ _ => .expectEnd

theorem Rewords.invocationOf {n : Node} : Rewords off (Production.invocationOf expression n) := by
  have harguments : ∀ off, Rewords off (Production.argumentsOf expression) :=
    fun _ => argumentsOf hexpr
  unfold Production.invocationOf
  infer_instance

theorem Rewords.callOrIndexOf {n : Node} : Rewords off (Production.callOrIndexOf expression n) := by
  rw [Parse.callOrIndexOf_eq]
  exact @ite _ _ _ _ _ _ (invocationOf hexpr) (elementAccessOf hexpr)

theorem Rewords.parenthesizedOf : Rewords off (Production.parenthesizedOf expression) :=
  @node _ _ _ (expectMark.bind fun _ => (hexpr false).nested.child.marked)

theorem Rewords.ternaryOf : Rewords true (Production.ternaryOf expression) := by
  have hbranch (role : Field) :
      RewordsIf false always (Production.field role (Production.nested expression)) :=
    (hexpr false).nested.field
  refine @node _ _ _ (take.bind fun _ => expectMark.bind fun _ => ?_)
  refine (hbranch .condition).markedThen fun _ => (hbranch .trueBranch).markedThen fun _ => ?_
  exact (hbranch .falseBranch).marked

/-- A name that stands where `From` is looked for ends the expression: it begins no initializers. -/
theorem RewordsIf.newOf : RewordsIf true always (Production.newOf expression) := by
  have hinitializers : ∀ off, Rewords off (Production.initializersOf expression) :=
    fun _ => Rewords.initializersOf hexpr
  have harguments : Rewords false (Production.argumentsOf expression) := Rewords.argumentsOf hexpr
  have hbraced : Rewords false (do
      if ← Production.atKind (.mark .leftBrace) then
        Production.child
          (Production.nested (Production.initializersOf expression))) := inferInstance
  have hfrom : RewordsIf false always (do
      if ← Production.test fun env s => env.hasAhead s [.keyword .kwWith, .mark .leftBrace]
          || env.hasAhead s [.keyword .kwFrom, .mark .leftBrace] then Production.take
      if ← Production.atKind (.mark .leftBrace) then
        Production.child (Production.nested (Production.initializersOf expression))) := by
    refine .testThen (fun {env env'} henv s hkind => ?_)
      (fun env s hname => ?_) ?_ hbraced.rewordsIf ?_
    · have hbrace :
          (env'.kindAhead s 1 == .mark .leftBrace) = (env.kindAhead s 1 == .mark .leftBrace) :=
        henv.beq_kindAhead rfl s 1
      rw [hasAhead_pair, hasAhead_pair, hasAhead_pair, hasAhead_pair, hkind, hbrace]
    · rw [hasAhead_pair, hasAhead_pair, hname]
      rfl
    · exact (Rewords.take.bind fun _ => hbraced).rewordsIf
    · exact .atKind TokenKind.noConfusion (.pure rfl)
  have hcalled : RewordsIf false always (do
      if ← Production.atKind (.mark .leftParen) then
        Production.child (Production.nested (Production.argumentsOf expression))
      if ← Production.test fun env s => env.hasAhead s [.keyword .kwWith, .mark .leftBrace]
          || env.hasAhead s [.keyword .kwFrom, .mark .leftBrace] then Production.take
      if ← Production.atKind (.mark .leftBrace) then
        Production.child (Production.nested (Production.initializersOf expression))) :=
    .behind Rewords.atKindOnly fun _ => .ite (.behind inferInstance fun _ => hfrom) hfrom
  refine .node (b := true) (.behind Rewords.take fun _ => .behind Rewords.atKindOnly fun _ => ?_)
  exact .ite hcalled (.behind inferInstance fun _ => hcalled)

theorem RewordsIf.primaryOf : RewordsIf off always (Production.primaryOf expression) := by
  refine .peek (fun word hword => ?_) Rewords.ruleLeaf.rewordsIf fun kind _ => ?_
  · cases word <;> first | rfl | cases hword
  · split
    case h_9 => exact .newOf hexpr
    case h_10 =>
      have hchoice : Rewords true (Production.ternaryOf expression) := Rewords.ternaryOf hexpr
      exact (Rewords.peekAhead (fun _ _ => rfl) fun _ => inferInstance).rewordsIf
    case h_11 => exact (Rewords.parenthesizedOf hexpr).rewordsIf
    case h_12 => exact (Rewords.initializersOf hexpr).rewordsIf
    all_goals exact Rewords.rewordsIf inferInstance

/-- A name that stands behind a primary ends it. -/
theorem RewordsIf.postfixOf : RewordsIf off always (Production.postfixOf expression) := by
  refine (RewordsIf.primaryOf hexpr).bind (fun primary => ?_) fun primary _ => ?_
  · have hcall : ∀ off n, Rewords off (Production.callOrIndexOf expression n) :=
      fun _ _ => Rewords.callOrIndexOf hexpr
    refine Rewords.rewordsIf (Rewords.bind (@Rewords.iterate _ _ _ (fun inner => ?_) _)
      fun _ => Rewords.wrap)
    refine .peek (fun _ _ => rfl) Rewords.pure fun kind _ => ?_
    split <;> infer_instance
  · exact .bind (.iterate fun inner => .peek (.pure rfl)) fun _ => .wrap

end

-- ---------------------------------------------------------------------------
-- Expressions
-- ---------------------------------------------------------------------------

section

variable {operand : Int → Parse Node} (hoperand : ∀ off level, RewordsIf off always (operand level))

include hoperand

/-- Behind the operand stands `Is` or `IsNot`. -/
theorem Rewords.typeTestOf : Rewords true (Production.typeTestOf operand) := by
  have hoperator : Rewords false (do
      unless (← Production.atWord .kwIs) || (← Production.atWord .kwIsNot) do
        Production.fail (.oneOf [.keyword .kwIs, .keyword .kwIsNot])
      Production.field .operator Production.tokenLeaf
      Production.field .type (Production.nested (Production.type true))) := inferInstance
  refine Rewords.bind (@node _ _ _ (take.bind fun _ => .of_never ?_)) fun _ => wrap
  refine (hoperand false _).nested.field.bind (fun _ => hoperator.rewordsIf) fun _ _ => ?_
  exact .atKind TokenKind.noConfusion (.atKind TokenKind.noConfusion (.bindNever .fail))

theorem RewordsIf.unaryOf : RewordsIf off always (Production.unaryOf operand) := by
  have hprefixed : RewordsIf true always (do
      let operation ← Production.node .unaryExpression do
        Production.field .operator Production.tokenLeaf
        Production.field .operand (Production.nested (operand Precedence.unary))
      Production.wrap .expression operation) := by
    refine .bind (.node (b := true) (.behind inferInstance fun _ => ?_))
      (fun _ => Rewords.wrap.rewordsIf)
      fun _ _ => .wrap
    exact (hoperand false _).nested.field
  refine .peek (fun word hword => ?_) (.postfixOf fun off => hoperand off _) fun kind _ => ?_
  · cases word <;> first | rfl | cases hword
  · split
    case h_5 => exact (Rewords.typeTestOf hoperand).rewordsIf
    case h_6 => exact .postfixOf fun off => hoperand off _
    all_goals exact hprefixed

theorem RewordsIf.extendOf {level : Int} {left : Node} :
    RewordsIf false always (Production.extendOf operand level left) := by
  refine .peek (fun word hword => ?_) Rewords.pure.rewordsIf fun kind _ => ?_
  · rw [Precedence.namesAlike_ofKind? word hword]
  · split
    · exact Rewords.pure.rewordsIf
    · refine .ite Rewords.pure.rewordsIf (.bind (.construct (b := true) (.attachThen ?_))
        (fun _ => Rewords.map.rewordsIf) fun _ _ => .bind .wrap fun _ => .pure rfl)
      exact .behind inferInstance fun _ => (hoperand false _).nested.field

omit hoperand in
/-- A name is no operator. -/
theorem Balks.extendOf {level : Int} {left : Node} :
    Balks Option.isNone (Production.extendOf operand level left) :=
  .peek (.pure rfl)

end

theorem RewordsIf.expressionUpTo {room : Nat} {level : Int} :
    RewordsIf off always (Production.expressionUpTo room level) := by
  induction room generalizing off level with
  | zero => exact Rewords.tooDeep.rewordsIf
  | succ room ih =>
    refine .behind Rewords.checkDepth fun _ => ?_
    refine (RewordsIf.unaryOf fun _ _ => ih).bind (fun left => ?_) fun left _ => .iterate
      fun _ => .extendOf
    exact .iterateBalking (fun _ => .extendOf fun _ _ => ih) fun _ => .extendOf

theorem RewordsIf.expression : RewordsIf off always Production.expression := by
  refine ⟨fun henv hoff hrun hheeds => ?_⟩
  unfold Production.expression at hrun ⊢
  rw [henv.room]
  exact RewordsIf.expressionUpTo.same henv hoff hrun hheeds

end Production

open Production in
/-- Where an expression is read, any names in it may be replaced by words that are reserved in a few
positions only: the same expression is read, with the same nodes of the same tokens. -/
theorem expression_reword_eq {env : Env} {s s' : State} {n : Node} (word : Nat → Option Keyword)
    (hrun : expression env s = .ok n s')
    (hword : ∀ i w, word i = some w →
      w.isContextual = true ∧ env.tokens.kindAt i = .identifier ∧ s.cursor ≤ i ∧ i < s'.cursor) :
    expression { env with tokens := env.tokens.reword word } s = .ok n s' := by
  have htokens : env.tokens.Reworded (env.tokens.reword word) :=
    TokenStream.reworded_reword fun i w hw => ⟨(hword i w hw).1, (hword i w hw).2.1⟩
  have hexpr : RewordsIf false always expression := .expression
  refine hexpr.same ⟨htokens, rfl, rfl⟩ (absurd · Bool.false_ne_true) hrun fun _ => ?_
  -- The token behind the expression is not among those that are replaced.
  refine TokenStream.kindAt_reword_of_none env.tokens ?_
  cases hw : word s'.cursor with
  | none => rfl
  | some w => exact absurd (hword _ w hw).2.2.2 (Nat.lt_irrefl _)

/-- A test for a type with names in every place in which an expression may have them. -/
def namesTested : Env :=
  let source := "TypeOf New Cat(Of Dog)(age:=Paw.Tail) From \x7b.Name = z\x7d Is Pet".toList
  { source, tokens := TokenStream.ofText source, limit := 20 }

/-- Every name becomes `From`. -/
theorem expression_reword_eq_namesTested : ∃ n s',
    Production.expression namesTested ({} : State) = .ok n s' ∧
    s'.cursor = 24 ∧
    let tokens := namesTested.tokens.reword fun i =>
      if namesTested.tokens.kindAt i = .identifier then some .kwFrom else none
    Production.expression { namesTested with tokens } ({} : State) = .ok n s' := by
  have hends : Production.succeedsWith (fun _ s' => s'.cursor == 24)
        (Production.expression namesTested ({} : State)) = true ∧
      namesTested.tokens.tokens.size = 24 := by
    decide +kernel
  obtain ⟨n, s', hrun, hcursor⟩ := Production.exists_of_succeedsWith hends.1
  have hcursor : s'.cursor = 24 := beq_iff_eq.1 hcursor
  refine ⟨n, s', hrun, hcursor, expression_reword_eq _ hrun fun i w hw => ?_⟩
  split at hw
  · rename_i hname
    cases hw
    have hlt : i < namesTested.tokens.tokens.size :=
      TokenStream.lt_size_of_kindAt_ne (by rw [hname]; exact TokenKind.noConfusion)
    exact ⟨rfl, hname, Nat.zero_le i, by omega⟩
  · cases hw

end VisualBasic
