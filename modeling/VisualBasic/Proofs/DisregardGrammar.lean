import VisualBasic.Proofs.Disregard
import VisualBasic.Proofs.Elements

/-!
# Types and expressions disregard terminators

Line ends are skipped behind a comma of arguments and around initializers, and a colon is looked for
behind the name of an argument. In each case a bracket follows, so nothing of this happens at the
terminator if the run ends with it.

Main results:

* `Disregards.argumentsOf`, `Disregards.initializersOf` — what brackets end.
* `Disregards.expression` — expressions.
-/

namespace VisualBasic.Production

open State

variable {through off : Bool}

namespace Disregards

-- The instance that is found for a production is as large as its text.
set_option synthInstance.maxSize 4000

-- ---------------------------------------------------------------------------
-- Names and types
-- ---------------------------------------------------------------------------

/-- A terminator is no name on either side. -/
instance identifier : Disregards through off Production.identifier := by
  refine peek rfl ?_ fun kind _ => ?_
  all_goals infer_instance

/-- Nor is it the name of a member. -/
instance memberName : Disregards through off Production.memberName := by
  refine peek rfl fail fun kind _ => ?_
  split <;> infer_instance

instance dottedName : Disregards through off Production.dottedName := by
  unfold Production.dottedName
  infer_instance

/-- Whether there is a rank is told by marks, which no terminator is. -/
instance atRank {α : Type} {f : Bool → Parse α} [∀ b, Disregards through off (f b)] :
    Disregards through off (Production.atRank >>= f) :=
  test

instance arrayRank : Disregards through off Production.arrayRank := by
  unfold Production.arrayRank
  infer_instance

/-- So it is with the arguments of a type. -/
instance atTypeArguments {α : Type} {f : Bool → Parse α} [∀ b, Disregards through off (f b)] :
    Disregards through off (Production.atTypeArguments >>= f) :=
  ahead

instance typeArgumentsOf {type : Parse Node} [Disregards through false type] :
    Disregards through off (Production.typeArgumentsOf type) := by
  unfold Production.typeArgumentsOf
  infer_instance

/-- By induction on the levels that are left, which the strongest form of the judgement carries. -/
instance typeUpTo {room : Nat} {ranks : Bool} :
    Disregards through off (Production.typeUpTo room ranks) := by
  refine weaken ?_
  induction room generalizing ranks with
  | zero => exact tooDeep
  | succ room ih =>
    have hall : Disregards true false (Production.typeUpTo room true) := ih
    unfold Production.typeUpTo
    refine checkDepth.bind fun _ => nodeOf ?_
    dsimp only
    refine peek rfl ?_ fun kind _ => ?_
    · infer_instance
    · split
      · exact peekAhead rfl fun _ => inferInstance
      · infer_instance

/-- Types disregard terminators. -/
instance type {ranks : Bool} : Disregards through off (Production.type ranks) :=
  byRoom (p := fun room => Production.typeUpTo room ranks) fun _ => inferInstance

instance typeArguments : Disregards through off Production.typeArguments := by
  unfold Production.typeArguments
  infer_instance

-- ---------------------------------------------------------------------------
-- Parts of expressions
-- ---------------------------------------------------------------------------

instance literal {r : Rule} : Disregards through off (Production.literal r) := by
  unfold Production.literal
  infer_instance

instance memberAccess {n : Node} : Disregards through off (Production.memberAccess n) := by
  unfold Production.memberAccess
  infer_instance

instance implicitMemberAccess : Disregards through off Production.implicitMemberAccess := by
  unfold Production.implicitMemberAccess
  infer_instance

/-- Line ends are told from colons here, so the run has to end in front of the terminator. -/
instance skipNewlines : Disregards false off Production.skipNewlines := by
  unfold Production.skipNewlines
  infer_instance

section

variable {expression : Parse Node} [hexpr : ∀ through off, Disregards through off expression]

include hexpr in
/-- Whether an argument has a name is told behind the token with which a value may end. -/
theorem argumentOf (hbuilds : Builds .quiet 0 true expression) :
    Disregards false off (Production.argumentOf expression) := by
  rw [Phrase.argumentOf_eq]
  refine lookBehind (fun {k env env'} henv s hne => ?_) (fun _ => ?_) (Builds.argumentOf hbuilds)
  · have hname := henv.tokens.alike TokenKind.isNameLike rfl s.cursor
    have hequal : (env'.tokens.kindAt (s.cursor + 2) == .mark .equal) =
        (env.tokens.kindAt (s.cursor + 2) == .mark .equal) := henv.tokens.beq_kindAt rfl _
    dsimp only [Env.kind, Env.kindAhead]
    rw [hname, hequal, henv.tokens.kindAt _ hne]
  · dsimp only
    infer_instance

include hexpr in
/-- Arguments are closed by a parenthesis, so what is between the parentheses ends in front of
the terminator. -/
theorem argumentsOf (hbuilds : Builds .quiet 0 true expression) :
    Disregards through off (Production.argumentsOf expression) := by
  have hargument : ∀ off, Disregards false off (Production.argumentOf expression) :=
    fun _ => argumentOf hbuilds
  refine checkDepth.bind fun _ => nodeOf (expectMark.bind fun _ => ?_)
  dsimp only
  refine @atKind _ _ _ _ ⟨rfl⟩ _ ?_ ?_
  · rw [if_pos rfl]
    infer_instance
  · rw [if_neg Bool.false_ne_true]
    exact before inferInstance expectEnd (.expectEnd _)

/-- The value of a member, perhaps behind its name. -/
instance initializerOf : Disregards through off (Production.initializerOf expression) := by
  unfold Production.initializerOf
  infer_instance

/-- Initializers are closed by a brace, and line ends around them are skipped in front of it. -/
instance initializersOf : Disregards through off (Production.initializersOf expression) := by
  -- The brace is set apart: what is in front of it has to end in front of the terminator.
  have hclosed : (do
      Production.skipNewlines
      unless ← Production.atKind (.mark .rightBrace) do
        Production.commaSeparated
          (Production.child (Production.nested (Production.initializerOf expression)))
      Production.skipNewlines
      Production.expectEnd .rightBrace) = ((do
        Production.skipNewlines
        unless ← Production.atKind (.mark .rightBrace) do
          Production.commaSeparated
            (Production.child (Production.nested (Production.initializerOf expression)))
        Production.skipNewlines) >>= fun _ => Production.expectEnd .rightBrace) := by
    simp only [bind_assoc]
    refine congrArg _ (funext fun _ => congrArg _ (funext fun found => ?_))
    cases found <;> simp
  refine checkDepth.bind fun _ => nodeOf (expectMark.bind fun _ => ?_)
  rw [hclosed]
  refine before ?_ expectEnd (.expectEnd _)
  dsimp only
  infer_instance

/-- Indices are closed by a parenthesis. -/
instance elementAccessOf {n : Node} :
    Disregards through off (Production.elementAccessOf expression n) := by
  unfold Production.elementAccessOf
  dsimp only
  infer_instance

include hexpr in
/-- A call has arguments of its type, of its own, or both. -/
theorem invocationOf (hbuilds : Builds .quiet 0 true expression) (n : Node) :
    Disregards through off (Production.invocationOf expression n) := by
  have harguments : ∀ off, Disregards through off (Production.argumentsOf expression) :=
    fun _ => argumentsOf hbuilds
  unfold Production.invocationOf
  infer_instance

include hexpr in
/-- The target decides between the two, and it is the same in both streams. -/
theorem callOrIndexOf (hbuilds : Builds .quiet 0 true expression) (n : Node) :
    Disregards through off (Production.callOrIndexOf expression n) := by
  rw [Parse.callOrIndexOf_eq]
  exact either (invocationOf hbuilds n) elementAccessOf

instance parenthesizedOf : Disregards through off (Production.parenthesizedOf expression) := by
  unfold Production.parenthesizedOf
  infer_instance

/-- The operands stand between parentheses. -/
instance ternaryOf : Disregards through true (Production.ternaryOf expression) := by
  unfold Production.ternaryOf
  infer_instance

include hexpr in
/-- Behind the type there may be arguments and initializers, each told by the token it begins
with. -/
theorem newOf (hbuilds : Builds .quiet 0 true expression) :
    Disregards through true (Production.newOf expression) := by
  have harguments : ∀ off, Disregards through off (Production.argumentsOf expression) :=
    fun _ => argumentsOf hbuilds
  have hrest : Disregards through false (do
      if ← Production.test fun env s => env.hasAhead s [.keyword .kwWith, .mark .leftBrace]
          || env.hasAhead s [.keyword .kwFrom, .mark .leftBrace] then Production.take
      if ← Production.atKind (.mark .leftBrace) then
        Production.child (Production.nested (Production.initializersOf expression))) := by
    refine testThen (fun env s hs => ?_) ?_ ?_
    · -- Either row begins with a word, so it is not seen at the terminator.
      have hfirst {word : Keyword} (h : env.hasAhead s [.keyword word, .mark .leftBrace] = true) :
          env.kind s = .keyword word := by
        have hall := List.all_eq_true.1 h (.keyword word, 0) List.mem_cons_self
        exact beq_iff_eq.1 hall
      rcases Bool.or_eq_true_iff.1 hs with h | h
      · rw [hfirst h]
        rfl
      · rw [hfirst h]
        rfl
    all_goals
      dsimp only
      infer_instance
  have hcalled : Disregards through false (do
      if ← Production.atKind (.mark .leftParen) then
        Production.child (Production.nested (Production.argumentsOf expression))
      if ← Production.test fun env s => env.hasAhead s [.keyword .kwWith, .mark .leftBrace]
          || env.hasAhead s [.keyword .kwFrom, .mark .leftBrace] then Production.take
      if ← Production.atKind (.mark .leftBrace) then
        Production.child (Production.nested (Production.initializersOf expression))) :=
    looks (Looks.test _) Blind.isKind fun _ => either (bind inferInstance fun _ => hrest) hrest
  refine nodeOf (take.bind fun _ => looks (Looks.test _) Blind.isKind fun _ => ?_)
  exact either hcalled (bind inferInstance fun _ => hcalled)

include hexpr in
/-- The first token tells which operand it is, and no operand begins with a terminator. -/
theorem primaryOf (hbuilds : Builds .quiet 0 true expression) :
    Disregards through off (Production.primaryOf expression) := by
  refine peek rfl fail fun kind _ => ?_
  split
  case h_9 => exact newOf hbuilds
  case h_10 => exact peekAhead rfl fun _ => inferInstance
  all_goals infer_instance

include hexpr in
/-- A terminator ends the loop over accesses and calls on either side. -/
theorem postfixOf (hbuilds : Builds .quiet 0 true expression) :
    Disregards through off (Production.postfixOf expression) := by
  have hcall : ∀ off n, Disregards through off (Production.callOrIndexOf expression n) :=
    fun _ => callOrIndexOf hbuilds
  refine (primaryOf hbuilds).bind fun primary => ?_
  refine bind (iterateOf fun inner => peek rfl ?_ fun kind _ => ?_) fun _ => ?_
  · infer_instance
  · split <;> infer_instance
  · infer_instance

end

-- ---------------------------------------------------------------------------
-- Expressions
-- ---------------------------------------------------------------------------

section

variable {operand : Int → Parse Node}
  [hoperand : ∀ through off level, Disregards through off (operand level)]

/-- The word between the operand and the type is no terminator. -/
instance typeTestOf : Disregards through true (Production.typeTestOf operand) := by
  refine bind (nodeOf (take.bind fun _ => ?_)) fun _ => wrap
  dsimp only
  infer_instance

include hoperand in
/-- A prefix operator is no terminator. -/
theorem unaryOf (hbuilds : ∀ level, Builds .quiet 0 true (operand level)) :
    Disregards through off (Production.unaryOf operand) := by
  have hoperators :
      ∀ off, Disregards through off (Production.postfixOf (operand Precedence.lowest)) :=
    fun _ => postfixOf (hbuilds _)
  refine peek rfl (hoperators off) fun kind _ => ?_
  split
  case h_6 => exact hoperators true
  all_goals infer_instance

/-- A binary operator is no terminator, so at the terminator the loop of operators ends. -/
instance extendOf {level : Int} {left : Node} :
    Disregards through off (Production.extendOf operand level left) := by
  refine peek rfl pure fun kind _ => ?_
  split
  · exact pure
  · infer_instance

end

/-- By induction on the levels that are left. -/
instance expressionUpTo {room : Nat} {level : Int} :
    Disregards through off (Production.expressionUpTo room level) := by
  induction room generalizing through off level with
  | zero => exact tooDeep
  | succ room ih =>
    have hunary (off : Bool) :
        Disregards through off (Production.unaryOf (Production.expressionUpTo room)) :=
      unaryOf fun level => Builds.expressionUpTo room level
    unfold Production.expressionUpTo
    infer_instance

/-- Expressions disregard terminators. -/
instance expression : Disregards through off Production.expression :=
  byRoom (p := fun room => Production.expressionUpTo room Precedence.lowest) fun _ => inferInstance

instance arguments : Disregards through off Production.arguments := argumentsOf Builds.expression

instance initializers : Disregards through off Production.initializers := initializersOf

end Disregards

end VisualBasic.Production
