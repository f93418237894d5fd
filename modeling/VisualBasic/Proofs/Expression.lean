import VisualBasic.Grammar.Expression
import VisualBasic.Proofs.Aside

/-!
# Judgements about types and expressions

Types and expressions leave no diagnostics, whatever they contain: a part that does not fit makes
the whole fail. Each of them reads at least one token.

Main results:

* `Builds.type` — the judgement of types, by induction on the levels that are left.
* `Builds.expression` — the judgement of expressions, likewise.
* `Builds.leftHandSide` — the judgement of what can be assigned to.
-/

namespace VisualBasic.Production

open State

-- ---------------------------------------------------------------------------
-- Types
-- ---------------------------------------------------------------------------

/-- Names with dots between them. -/
theorem Builds.dottedName : Builds .quiet 0 true Production.dottedName := by
  refine Builds.node (Steps.bind (Steps.child Builds.identifier) fun _ => ?_)
  refine Steps.repeatWhile (Steps.bind (Steps.acceptMark .dot) fun _ => ?_)
  refine Steps.ite (fun _ => ?_) fun _ => Steps.pure _
  exact Steps.bind (Steps.child Builds.memberName) fun _ => Steps.pure _

/-- Parentheses with commas in them. -/
theorem Builds.arrayRank : Builds .quiet 0 true Production.arrayRank := by
  refine Builds.node (Steps.bind (Steps.expectMark .leftParen) fun _ => ?_)
  refine Steps.bind (Steps.repeatWhile (Steps.acceptMark .comma)) fun _ => ?_
  exact (Steps.expectEnd .rightParen).mono

/-- Types in parentheses. -/
theorem Builds.typeArgumentsOf {type : Parse Node} (htype : Builds .quiet 0 true type) :
    Builds .quiet 0 true (Production.typeArgumentsOf type) := by
  refine Builds.node (Steps.bind (Steps.expectMark .leftParen) fun _ => ?_)
  refine Steps.bind (Steps.expectWord .kwOf) fun _ => ?_
  refine Steps.bind (Steps.commaSeparated (Steps.child htype.nested)) fun _ => ?_
  exact (Steps.expectEnd .rightParen).mono

/-- What follows the name of a type: arguments and ranks. -/
theorem Steps.typeSuffix {type : Parse Node} (htype : Builds .quiet 0 true type)
    (ranks : Bool) : Steps .quiet 0 false (do
      if ← atTypeArguments then Production.child (nested (typeArgumentsOf type))
      Production.repeatWhile do
        if ranks && (← atRank) then
          Production.child arrayRank
          return true
        return false) := by
  refine Steps.look (Looks.test _) fun _ => ?_
  refine Steps.when (Steps.child (Builds.typeArgumentsOf htype).nested) (Steps.repeatWhile ?_)
  refine Steps.look (Looks.test _) fun _ => Steps.ite (fun _ => ?_) fun _ => Steps.pure _
  exact Steps.bind (Steps.child Builds.arrayRank) fun _ => Steps.pure _

/-- By induction on the levels that are left. -/
theorem Builds.typeUpTo (room : Nat) (ranks : Bool) :
    Builds .quiet 0 true (Production.typeUpTo room ranks) := by
  induction room generalizing ranks with
  | zero => exact Builds.tooDeep
  | succ room ih =>
    have hsuffix := Steps.typeSuffix (ih true) ranks
    have hname := (Steps.child Builds.dottedName).followed hsuffix
    refine Builds.checkDepth (Builds.node (Steps.peek fun kind => ?_))
    split
    · refine Steps.look (Looks.peekAhead 1) fun _ => Steps.ite (fun _ => ?_) fun _ => hname.mono
      exact Steps.bind (Steps.child (Builds.ruleLeaf .primitiveType)) fun _ => hsuffix
    · exact hname.mono

/-- Every type, whatever is left. -/
theorem Builds.type (ranks : Bool) : Builds .quiet 0 true (Production.type ranks) :=
  fun env s ready => Builds.typeUpTo env.room ranks env s ready

theorem Builds.typeArguments : Builds .quiet 0 true Production.typeArguments :=
  Builds.typeArgumentsOf (Builds.type true)

-- ---------------------------------------------------------------------------
-- Names, members and literals
-- ---------------------------------------------------------------------------

/-- A token is known to be ahead. -/
theorem Builds.literal (r : Rule) [Holds r.isPlain] :
    Builds .quiet 1 true (Production.literal r) :=
  Builds.continuing (Builds.ruleLeaf r) fun _ => Continues.wrap .literal

/-- A literal that is a word. -/
theorem Builds.wordLiteral : Builds .quiet 1 true (do Production.wrap .literal (← tokenLeaf)) := by
  intro env s ready
  obtain ⟨hnext, hr⟩ := reading_leaf (.token (env.kind s)) ready rfl
  have hnode := hr.ofBody .closed (by decide : Rule.literal ≠ .error) nofun
    (.plain (.inl (hnext ▸ Nat.lt_succ_self _)))
  exact ⟨fun _ => hnext ▸ Nat.lt_succ_self _, rfl, rfl, rfl, ⟨[], fun _ => rfl, hnode, rfl⟩,
    ⟨rfl, rfl, rfl, rfl⟩⟩

/-- The dot and the name of a member. -/
theorem Steps.member : Steps .quiet 0 true (do
    Production.expectMark .dot
    Production.field .member Production.memberName) :=
  Steps.bind (Steps.expectMark .dot) fun _ => (Steps.field .member Builds.memberName).mono

/-- The object is the first part of the access. -/
theorem Continues.memberAccess (object : Node) :
    Continues .quiet 0 object (Production.memberAccess object) :=
  Continues.nodeFrom (Attaches.fieldWrap .object .expression Steps.member)

/-- An access without an object. -/
theorem Builds.implicitMemberAccess : Builds .quiet 0 true Production.implicitMemberAccess :=
  Builds.node Steps.member

-- ---------------------------------------------------------------------------
-- Arguments and initializers
-- ---------------------------------------------------------------------------

/-- Behind a name, a colon and an equals sign there are three tokens to read. -/
theorem Steps.ifNamedArgument {α : Type} {m : Manner} {n : Nat} {b : Bool} {p q : Parse α}
    (hp : Steps m 3 b p) (hq : Steps m n b q) :
    Steps m n b (Production.peek >>= fun x => peekAhead 1 >>= fun y => peekAhead 2 >>= fun z =>
      if (x.isNameLike && y == .mark .colon && z == .mark .equal) = true then p else q) := by
  intro env s ready
  rw [Looks.peek.run_bind, (Looks.peekAhead 1).run_bind, (Looks.peekAhead 2).run_bind]
  split
  · rename_i h
    rw [Bool.and_eq_true, Bool.and_eq_true, beq_iff_eq, beq_iff_eq] at h
    obtain ⟨⟨hname, hcolon⟩, hequal⟩ := h
    have hthird : env.tokens.Ready (s.cursor + 2) 1 := by
      refine .of_kindAt_ne ?_
      rw [show env.tokens.kindAt (s.cursor + 2) = .mark .equal from hequal]
      exact nofun
    have hsecond : env.tokens.Ready (s.cursor + 1) 2 := by
      refine .succ ?_ hthird
      rw [show env.tokens.kindAt (s.cursor + 1) = .mark .colon from hcolon]
      exact nofun
    exact hp env s (.succ (TokenKind.ne_endOfFile_of hname rfl) hsecond)
  · exact hq env s ready

section

variable {expression : Parse Node}

/-- An argument, perhaps behind its name. -/
theorem Builds.argumentOf (hexpr : Builds .quiet 0 true expression) :
    Builds .quiet 0 true (Production.argumentOf expression) := by
  refine Builds.node (Steps.ifNamedArgument ?_ (Steps.child hexpr))
  refine Steps.one (ReadsOne.identifierField .name) fun _ => ?_
  refine Steps.one ReadsOne.take fun _ => Steps.one ReadsOne.take fun _ => ?_
  exact (Steps.child hexpr).mono

/-- Arguments in parentheses; some may be missing between the commas. -/
theorem Builds.argumentsOf (hexpr : Builds .quiet 0 true expression) :
    Builds .quiet 0 true (Production.argumentsOf expression) := by
  have hcomma : Steps .quiet 0 false (do
      if ← Production.acceptMark .comma then
        Production.skipNewlines
        return true
      return false) := by
    refine Steps.bind (Steps.acceptMark .comma) fun _ => ?_
    refine Steps.ite (fun _ => ?_) fun _ => Steps.pure _
    exact Steps.bind Steps.skipNewlines fun _ => Steps.pure _
  refine Builds.checkDepth (Builds.node ?_)
  refine Steps.bind (Steps.expectMark .leftParen) fun _ => ?_
  have hend : Steps .quiet 0 false (Production.expectEnd .rightParen) :=
    (Steps.expectEnd .rightParen).mono
  refine Steps.look (Looks.test _) fun _ => Steps.ite (fun _ => hend) fun _ => ?_
  refine Steps.bind (Steps.repeatWhile (m := .quiet) ?_) fun _ => hend
  refine Steps.look (Looks.test _) fun _ => Steps.look (Looks.test _) fun _ => ?_
  refine Steps.ite (fun _ => hcomma) fun _ => ?_
  exact Steps.bind (Steps.child (Builds.argumentOf hexpr).nested) fun _ => hcomma

/-- A value, perhaps behind a member. -/
theorem Builds.initializerOf (hexpr : Builds .quiet 0 true expression) :
    Builds .quiet 0 true (Production.initializerOf expression) := by
  have hvalue := Steps.child hexpr.nested
  refine Builds.node (Steps.bind (Steps.acceptMark .dot) fun _ => ?_)
  refine Steps.ite (fun _ => ?_) fun _ => hvalue
  refine Steps.bind (Steps.field .name Builds.memberName) fun _ => ?_
  exact Steps.bind (Steps.expectMark .equal) fun _ => hvalue.mono

/-- Values between braces. -/
theorem Builds.initializersOf (hexpr : Builds .quiet 0 true expression) :
    Builds .quiet 0 true (Production.initializersOf expression) := by
  have hend : Steps .quiet 0 false (do
      Production.skipNewlines
      Production.expectEnd .rightBrace) :=
    Steps.bind Steps.skipNewlines fun _ => (Steps.expectEnd .rightBrace).mono
  have hitem := Steps.child (Builds.initializerOf hexpr).nested
  refine Builds.checkDepth (Builds.node ?_)
  refine Steps.bind (Steps.expectMark .leftBrace) fun _ => ?_
  refine Steps.bind Steps.skipNewlines fun _ => ?_
  refine Steps.look (Looks.test _) fun _ => Steps.ite (fun _ => hend) fun _ => ?_
  exact Steps.bind (Steps.commaSeparated hitem) fun _ => hend

-- ---------------------------------------------------------------------------
-- Calls and indices
-- ---------------------------------------------------------------------------

/-- The object is the first part of the access. -/
theorem Continues.elementAccessOf (hexpr : Builds .quiet 0 true expression) (object : Node) :
    Continues .quiet 0 object (Production.elementAccessOf expression object) := by
  have hend : Steps .quiet 0 false (Production.expectEnd .rightParen) :=
    (Steps.expectEnd .rightParen).mono
  have hindex := Steps.field .index hexpr.nested
  refine Continues.nodeFrom (Attaches.fieldWrap (b := false) .object .expression ?_)
  refine Steps.bind (Steps.expectMark .leftParen) fun _ => ?_
  refine Steps.look (Looks.test _) fun _ => Steps.ite (fun _ => hend) fun _ => ?_
  exact Steps.bind (Steps.commaSeparated hindex) fun _ => hend

/-- What is called is the first part of the call. -/
theorem Continues.invocationOf (hexpr : Builds .quiet 0 true expression) (target : Node) :
    Continues .quiet 0 target (Production.invocationOf expression target) := by
  have harguments := (Steps.field .arguments (Builds.argumentsOf hexpr).nested).still
  refine Continues.nodeFrom (Attaches.attachInField (b := false) .target ?_)
  refine Steps.look (Looks.test _) fun _ => Steps.ite (fun _ => ?_) fun _ => harguments
  refine Steps.bind (Steps.child Builds.typeArguments.nested) fun _ => ?_
  refine Steps.look (Looks.test _) fun _ => ?_
  exact Steps.ite (fun _ => harguments) fun _ => Steps.pure _

/-- Whichever of the two it is. -/
theorem Continues.callOrIndexOf (hexpr : Builds .quiet 0 true expression) (target : Node) :
    Continues .quiet 0 target (Production.callOrIndexOf expression target) := by
  rw [Parse.callOrIndexOf_eq]
  split
  · exact Continues.invocationOf hexpr target
  · exact Continues.elementAccessOf hexpr target

-- ---------------------------------------------------------------------------
-- Primaries
-- ---------------------------------------------------------------------------

/-- An expression in parentheses. -/
theorem Builds.parenthesizedOf (hexpr : Builds .quiet 0 true expression) :
    Builds .quiet 0 true (Production.parenthesizedOf expression) := by
  refine Builds.node (Steps.bind (Steps.expectMark .leftParen) fun _ => ?_)
  refine Steps.bind (Steps.child hexpr.nested) fun _ => ?_
  exact (Steps.expectMark .rightParen).mono

/-- A choice between two values. -/
theorem Builds.ternaryOf (hexpr : Builds .quiet 0 true expression) :
    Builds .quiet 1 true (Production.ternaryOf expression) := by
  refine Builds.node (Steps.bind ReadsOne.take.1 fun _ => ?_)
  refine Steps.bind (Steps.expectMark .leftParen) fun _ => ?_
  refine Steps.bind (Steps.field .condition hexpr.nested) fun _ => ?_
  refine Steps.bind (Steps.expectMark .comma) fun _ => ?_
  refine Steps.bind (Steps.field .trueBranch hexpr.nested) fun _ => ?_
  refine Steps.bind (Steps.expectMark .comma) fun _ => ?_
  refine Steps.bind (Steps.field .falseBranch hexpr.nested) fun _ => ?_
  exact (Steps.expectMark .rightParen).mono

/-- What is created. -/
theorem Builds.newOf (hexpr : Builds .quiet 0 true expression) :
    Builds .quiet 1 true (Production.newOf expression) := by
  have hinitializers : Steps .quiet 0 false (do
      if ← atKind (.mark .leftBrace) then
        Production.child (Production.nested (Production.initializersOf expression))) := by
    refine Steps.look (Looks.test _) fun _ => Steps.ite (fun _ => ?_) fun _ => Steps.pure _
    exact (Steps.child (Builds.initializersOf hexpr).nested).mono
  have hbraces : Steps .quiet 0 false (do
      if ← test fun env s => env.hasAhead s [.keyword .kwWith, .mark .leftBrace]
          || env.hasAhead s [.keyword .kwFrom, .mark .leftBrace] then Production.take
      if ← atKind (.mark .leftBrace) then
        Production.child (Production.nested (Production.initializersOf expression))) :=
    Steps.ifAhead (ReadsOne.take.1.followed hinitializers).still hinitializers (by decide)
      (by decide)
  have hcalled : Steps .quiet 0 false (do
      if ← atKind (.mark .leftParen) then
        Production.child (Production.nested (Production.argumentsOf expression))
      if ← test fun env s => env.hasAhead s [.keyword .kwWith, .mark .leftBrace]
          || env.hasAhead s [.keyword .kwFrom, .mark .leftBrace] then Production.take
      if ← atKind (.mark .leftBrace) then
        Production.child (Production.nested (Production.initializersOf expression))) := by
    refine Steps.look (Looks.test _) fun _ => ?_
    exact Steps.when (Steps.child (Builds.argumentsOf hexpr).nested) hbraces
  refine Builds.node (Steps.bind ReadsOne.take.1 fun _ => ?_)
  refine Steps.look (Looks.test _) fun _ => Steps.ite (fun _ => hcalled) fun _ => ?_
  exact Steps.bind (Steps.field .type (Builds.type false).nested) fun _ => hcalled

/-- The next token picks the operand. -/
theorem Builds.primaryOf (hexpr : Builds .quiet 0 true expression) :
    Builds .quiet 0 true (Production.primaryOf expression) := by
  refine Builds.peek fun kind => ?_
  split
  case h_10 =>
    refine Builds.look (Looks.peekAhead 1) fun _ => ?_
    split
    · exact Builds.ternaryOf hexpr
    · exact Builds.fail _
  case h_14 =>
    split
    · rename_i h
      rw [TokenKind.ahead_of h rfl]
      exact (Builds.ruleLeaf .identifier).mono
    · exact Builds.fail _
  case h_8 => exact Builds.wordLiteral
  case h_9 => exact Builds.newOf hexpr
  case h_11 => exact (Builds.parenthesizedOf hexpr).mono
  case h_12 => exact (Builds.initializersOf hexpr).mono
  case h_13 => exact Builds.implicitMemberAccess.mono
  all_goals exact Builds.literal _

/-- An operand, and accesses and calls around it. -/
theorem Builds.postfixOf (hexpr : Builds .quiet 0 true expression) :
    Builds .quiet 0 true (Production.postfixOf expression) := by
  refine Builds.continuing (Builds.primaryOf hexpr) fun primary => ?_
  refine Continues.continuing (Continues.iterate (fun inner => ?_) primary)
    fun _ => Continues.wrap .expression
  refine Extends.peek fun kind => ?_
  split
  · exact (Continues.memberAccess inner).mono.extending
  · exact (Continues.callOrIndexOf hexpr inner).mono.extending
  · exact Extends.none

end

-- ---------------------------------------------------------------------------
-- Operators
-- ---------------------------------------------------------------------------

section

variable {operand : Int → Parse Node}

/-- The word, the value and the type of a test. -/
theorem Builds.typeTestOf (hoperand : ∀ level, Builds .quiet 0 true (operand level)) :
    Builds .quiet 1 true (Production.typeTestOf operand) := by
  have htype := (Steps.field .type (Builds.type true).nested).still
  refine Builds.continuing (Builds.node ?_) fun _ => Continues.wrap .expression
  refine Steps.bind ReadsOne.take.1 fun _ => ?_
  refine Steps.bind (Steps.field .operand (hoperand _).nested) fun _ => ?_
  refine Steps.ifEither (fun _ => ?_) fun _ => ?_
  · exact Steps.bind (ReadsOne.tokenField .operator).1 fun _ => htype
  · exact Steps.failThen _

/-- An operand, perhaps behind an operator. -/
theorem Builds.unaryOf (hoperand : ∀ level, Builds .quiet 0 true (operand level)) :
    Builds .quiet 0 true (Production.unaryOf operand) := by
  have hunary : Builds .quiet 1 true (do
      let operation ← Production.node .unaryExpression do
        Production.field .operator tokenLeaf
        Production.field .operand (Production.nested (operand Precedence.unary))
      Production.wrap .expression operation) := by
    refine Builds.continuing (Builds.node ?_) fun _ => Continues.wrap .expression
    refine Steps.bind (ReadsOne.tokenField .operator).1 fun _ => ?_
    exact (Steps.field .operand (hoperand _).nested).still
  refine Builds.peek fun kind => ?_
  split
  case h_5 => exact Builds.typeTestOf hoperand
  case h_6 => exact (Builds.postfixOf (hoperand _)).mono
  all_goals exact hunary

end

/-! ### What operands are -/

/-- No binary expression. -/
def IsSimple (n : Node) : Prop := n.kind ≠ .rule .binaryExpression

/-- A part without a binary expression directly in it. -/
structure IsOperand (n : Node) : Prop where
  isPart : n.IsPart
  ne_binary : ∀ c ∈ n.children, c.kind ≠ .rule .binaryExpression

/-- What has a rule of its own is no operation. -/
theorem Aside.isSimple {r : Rule} {p : Parse Node} (hp : Aside (Node.IsPartOf r) p)
    [hr : Holds r.isPlain] : Aside IsSimple p := by
  refine hp.mono fun _ h hbinary => ?_
  rw [h.kind] at hbinary
  obtain rfl := NodeKind.rule.inj hbinary
  exact Bool.noConfusion hr.eq_true

/-- What is no binary expression is an operand once it is wrapped. -/
theorem IsSimple.wrapped {x : Node} (hx : IsSimple x) :
    Aside IsOperand (Production.wrap .expression x) := by
  refine (Aside.wrap .expression x).mono fun y hy => ⟨hy.1.isPart, fun c hc => ?_⟩
  rw [hy.2, List.mem_singleton] at hc
  rw [hc]
  exact hx

section

variable (expression : Parse Node)

/-- A literal is no operation. -/
theorem Aside.literal (r : Rule) : Aside IsSimple (Production.literal r) :=
  Aside.isSimple (Aside.bind (Aside.ruleLeaf r) fun _ _ =>
    (Aside.wrap .literal _).mono fun _ => And.left)

/-- Neither is any operand without operators. -/
theorem Aside.primaryOf : Aside IsSimple (Production.primaryOf expression) := by
  refine Aside.look Looks.peek fun kind => ?_
  split
  case h_8 =>
    refine Aside.isSimple (r := .literal) (Aside.bind Aside.tokenLeaf fun x _ => ?_)
    exact (Aside.wrap .literal x).mono fun _ => And.left
  case h_9 => exact (Aside.node _ _).isSimple
  case h_10 =>
    refine Aside.look (Looks.peekAhead 1) fun _ => ?_
    exact Aside.ite (Aside.node _ _).isSimple (Aside.fail _)
  case h_11 => exact (Aside.node _ _).isSimple
  case h_12 => exact Aside.checkDepth (Aside.node _ _).isSimple
  case h_13 => exact (Aside.node _ _).isSimple
  case h_14 => exact Aside.ite (Aside.ruleLeaf _).isSimple (Aside.fail _)
  all_goals exact Aside.literal _

/-- Neither is an access or a call. -/
theorem Aside.callOrIndexOf (target : Node) :
    Aside IsSimple (Production.callOrIndexOf expression target) := by
  rw [Parse.callOrIndexOf_eq]
  split
  · exact (Aside.nodeFrom _ _ _).isSimple
  · exact (Aside.nodeFrom _ _ _).isSimple

/-- So what stands between operators is an operand. -/
theorem Aside.postfixOf : Aside IsOperand (Production.postfixOf expression) := by
  refine Aside.bind (Aside.primaryOf expression) fun primary hprimary => ?_
  refine Aside.bind (Aside.iterate hprimary fun inner _ => ?_) fun inner hinner => hinner.wrapped
  refine Aside.look Looks.peek fun kind => ?_
  split
  · exact (Aside.nodeFrom _ _ _).isSimple.some
  · exact (Aside.callOrIndexOf expression inner).some
  · exact Aside.none

end

/-- So is what has an operator in front. -/
theorem Aside.unaryOf (operand : Int → Parse Node) :
    Aside IsOperand (Production.unaryOf operand) := by
  refine Aside.look Looks.peek fun kind => ?_
  split
  case h_6 => exact Aside.postfixOf _
  all_goals exact Aside.bind (Aside.node _ _).isSimple fun _ h => h.wrapped

/-- An operation is given and not attached. -/
theorem Aside.extendOf (operand : Int → Parse Node) (level : Int) (left : Node) :
    Aside (fun y => ∀ x ∈ y, x.IsPart) (Production.extendOf operand level left) := by
  refine Aside.look Looks.peek fun kind => ?_
  split
  · exact Aside.none
  · refine Aside.ite Aside.none (Aside.bind (Aside.nodeFrom _ _ _) fun x _ => Aside.some ?_)
    exact (Aside.wrap .expression x).mono fun _ h => h.1.isPart

/-- An expression is given and not attached. -/
theorem Aside.expressionUpTo (room : Nat) (level : Int) :
    Aside Node.IsPart (Production.expressionUpTo room level) := by
  cases room with
  | zero => exact Aside.tooDeep
  | succ room =>
    refine Aside.checkDepth (Aside.bind (Aside.unaryOf _) fun left hleft => ?_)
    exact Aside.iterate hleft.isPart fun x _ => Aside.extendOf _ level x

theorem Aside.expression : Aside Node.IsPart Production.expression :=
  Aside.of_runs fun env _ => ⟨_, .expressionUpTo env.room _, rfl⟩

/-! ### Levels -/

/-- No binary operator of the given level or above stands at `i`. -/
def StopsBelow (t : TokenStream) (level : Int) (i : Nat) : Prop :=
  ∀ p ∈ Precedence.ofKind? (t.kindAt i), p.level < level

/-- The operand binds at least as tightly as the operator behind it, if there is one. -/
def BindsNext (t : TokenStream) (i : Nat) (x : Node) : Prop :=
  ∀ p ∈ Precedence.ofKind? (t.kindAt i), x.BindsFrom p.level

/-- The production gives an expression whose outermost operators have at least the given level, and
takes all of these. -/
def BuildsFrom (level : Int) (p : Parse Node) : Prop :=
  ∀ env s, env.tokens.Ready s.cursor 0 →
    Outcome .quiet env.tokens s
      (fun x s' => s.cursor < s'.cursor ∧ Built .quiet env.tokens s x s' ∧ x.BindsFrom level ∧
        StopsBelow env.tokens level s'.cursor) (p env s)

/-- What is known of the levels may be forgotten. -/
theorem BuildsFrom.builds {level : Int} {p : Parse Node} (hp : BuildsFrom level p) :
    Builds .quiet 0 true p := fun env s ready =>
  (hp env s ready).mono (Manner.le_refl _) fun _ _ ⟨hmoves, hx, _⟩ => ⟨fun _ => hmoves, hx⟩

/-- An operand holds together at every level. -/
theorem IsOperand.bindsFrom {x : Node} (h : IsOperand x) (level : Int) : x.BindsFrom level :=
  fun c hc hkind => absurd hkind (h.ne_binary c hc)

section

variable {operand : Int → Parse Node} {t : TokenStream}

/-- The operator of a binary expression is the first token among its children. -/
theorem operatorLevel?_eq {n left operator right : Node} {p : Precedence}
    (hn : n.children = [left, operator, right]) (h : Joins p left operator right) :
    n.operatorLevel? = some p.level := by
  obtain ⟨kind, hkind, hp⟩ := h.operator_kind
  obtain ⟨r, hr⟩ : ∃ r, left.kind = .rule r := by
    cases hk : left.kind with
    | rule r => exact ⟨r, rfl⟩
    | token k => exact absurd hk (Node.kind_ne_token h.left_isNamed k)
  rw [Node.operatorLevel?, hn, List.findSome?_cons, hr, List.findSome?_cons, hkind]
  simp [hp]

/-- An operand with the given binary expression in it binds as its operator does. -/
theorem bindsFrom_of_operatorLevel? {x n : Node} {l level : Int} (hx : x.children = [n])
    (hn : n.operatorLevel? = some l) (hlevel : level ≤ l) : x.BindsFrom level := by
  intro c hc _
  rw [hx, List.mem_singleton] at hc
  subst hc
  exact ⟨l, hn, hlevel⟩

/-- The end of the text is no operator. -/
theorem ne_endOfFile_of_operator {k : TokenKind} {p : Precedence}
    (h : Precedence.ofKind? k = some p) : k ≠ .endOfFile := by
  rintro rfl
  exact absurd h nofun

/-- Behind an operator only higher ones are read. -/
theorem right_eq {k : TokenKind} {p : Precedence} (h : Precedence.ofKind? k = some p) :
    p.right = p.level + 1 :=
  (by decide : ∀ p ∈ Precedence.table, p.right = p.level + 1) p (List.mem_of_find?_eq_some h)

/-- An operator and its right operand are read behind the left one. -/
theorem outcome_operands {env : Env} {s₀ s : State} {left : Node} {p : Precedence}
    (hoperand : BuildsFrom (p.level + 1) (operand p.right))
    (hleft : Built .quiet env.tokens s₀ left s) (hbinds : left.BindsFrom p.level)
    (hp : Precedence.ofKind? (env.kind s) = some p) :
    Outcome .quiet env.tokens s₀
      (fun _ s' => s.cursor < s'.cursor ∧ Stepped .quiet env.tokens s₀ s' ∧
        StopsBelow env.tokens (p.level + 1) s'.cursor ∧
        ∃ l o r, s'.children = r :: o :: l :: s₀.children ∧ Joins p l o r)
      ((do
        attach (left.inField .left)
        Production.field .operator tokenLeaf
        Production.field .right (nested (operand p.right)) : Parse Unit) env s) := by
  have ready : env.tokens.Ready s.cursor 1 := .of_kindAt_ne (ne_endOfFile_of_operator hp)
  let operator := (Node.leaf (.token (env.kind s)) (env.tokens.get s.cursor).span s.cursor).inField
    .operator
  let s₁ : State := { s with children := left.inField .left :: s.children }
  let s₂ : State := { s₁ with cursor := env.next s.cursor, children := operator :: s₁.children }
  have hs₁ : Stepped .quiet env.tokens s₀ s₁ := hleft.attached (.inr ⟨.left, nofun, rfl⟩)
  have ready₁ : env.tokens.Ready s₁.cursor 1 := ready
  have hs₂ : Outcome .inPlace env.tokens s₁ _ (.ok () s₂) :=
    (ReadsOne.tokenField .operator).run ready₁
  obtain ⟨hlt, hs₂, ready₂⟩ := hs₂
  replace hs₂ := hs₁.trans (hs₂.mono (Manner.inPlace_le .quiet))
  have hright : Outcome .quiet env.tokens s₂ _ (nested (operand p.right) env s₂) :=
    hoperand { env with depth := env.depth + 1 } s₂ ready₂
  have hfield : Outcome .quiet env.tokens s₂
      (fun _ s' => s₂.cursor < s'.cursor ∧ Stepped .quiet env.tokens s₂ s' ∧
        StopsBelow env.tokens (p.level + 1) s'.cursor ∧
        ∃ l o r, s'.children = r :: o :: l :: s₀.children ∧ Joins p l o r)
      (Production.field .right (nested (operand p.right)) env s₂) := by
    refine hright.bind ?_
    rintro right s₃ ⟨hmoves, hbuilt, hright, hstops⟩
    refine ⟨hmoves, hbuilt.attached (.inr ⟨.right, nofun, rfl⟩), hstops,
      left.inField .left, operator, right.inField .right, ?_, ?_⟩
    · show right.inField .right :: s₃.children = _
      rw [hbuilt.same.children, ← hleft.same.children]
    · refine ⟨Node.field_inField _ _, Node.field_inField _ _, Node.field_inField _ _,
        ?_, ?_, ?_, ?_⟩
      · rw [Node.isNamed, Node.kind_inField]
        exact hleft.isNamed
      · exact ⟨env.kind s, Node.kind_inField _ _, hp⟩
      · rw [Node.BindsFrom, Node.children_inField]
        exact hbinds
      · rw [Node.BindsFrom, Node.children_inField]
        exact hright
  refine Outcome.after hs₂ hfield ?_
  rintro _ s' ⟨hmoves, hs', hrest⟩
  exact ⟨Nat.lt_trans hlt hmoves, hs₂.trans hs', hrest⟩

/-- What has been read, extended by an operator and its right operand. -/
theorem outcome_binary {env : Env} {s₀ s : State} {left : Node} {p : Precedence}
    (hoperand : BuildsFrom (p.level + 1) (operand p.right))
    (hleft : Built .quiet env.tokens s₀ left s) (hbinds : left.BindsFrom p.level)
    (hp : Precedence.ofKind? (env.kind s) = some p) :
    Outcome .quiet env.tokens s₀
      (fun y s' => Built .quiet env.tokens s₀ y s' ∧ s.cursor < s'.cursor ∧
        y.operatorLevel? = some p.level ∧ StopsBelow env.tokens (p.level + 1) s'.cursor)
      (Production.nodeFrom left .binaryExpression (do
        attach (left.inField .left)
        Production.field .operator tokenLeaf
        Production.field .right (nested (operand p.right))) env s) := by
  have hbody := outcome_operands hoperand hleft.begins hbinds hp
  have hnode := outcome_nodeFrom (r := .binaryExpression) (fun cs i => s.cursor < i ∧
    StopsBelow env.tokens (p.level + 1) i ∧ ∃ l o r, cs = [l, o, r] ∧ Joins p l o r) hleft
    (hbody.mono (Manner.le_refl _) ?_) nofun
  · refine hnode.mono (Manner.le_refl _) ?_
    rintro y s' ⟨hy, hmoves, hstops, l, o, r, hchildren, hjoins⟩
    exact ⟨hy, hmoves, operatorLevel?_eq hchildren hjoins, hstops⟩
  · rintro _ s' ⟨hmoves, hs', hstops, l, o, r, hchildren, hjoins⟩
    have hreverse : s'.children.reverse = [l, o, r] := by
      rw [hchildren]
      rfl
    rw [hreverse]
    refine ⟨hs', ⟨hleft.passes.mono (Nat.le_of_lt hmoves), nofun, nofun, fun _ => ?_⟩,
      hmoves, hstops,
      l, o, r, rfl, hjoins⟩
    exact ⟨p, l, o, r, rfl, hjoins⟩

/-- What has been read, wrapped once more. -/
theorem outcome_wrap {env : Env} {s₀ s : State} {x : Node}
    (hx : Built .quiet env.tokens s₀ x s) :
    Outcome .quiet env.tokens s₀
      (fun y s' => Built .quiet env.tokens s₀ y s' ∧ y.children = [x] ∧ s'.cursor = s.cursor)
      (Production.wrap .expression x env s) :=
  outcome_nodeFrom (fun cs i => cs = [x] ∧ i = s.cursor) hx
    ⟨hx.begins.attached (.inl rfl), .plain hx.passes, rfl, rfl⟩ nofun

/-- What has been read is extended by an operator of at least the given level, or there is none. -/
theorem outcome_extendOf {env : Env} {s₀ s : State} {left : Node} (level : Int)
    (hoperand : ∀ level, BuildsFrom level (operand level))
    (hleft : Built .quiet env.tokens s₀ left s) (hnext : BindsNext env.tokens s.cursor left) :
    Outcome .quiet env.tokens s₀
      (fun y s' => match y with
        | none => s' = s ∧ StopsBelow env.tokens level s.cursor
        | some y => s.cursor < s'.cursor ∧ Built .quiet env.tokens s₀ y s' ∧ y.BindsFrom level ∧
          BindsNext env.tokens s'.cursor y)
      (Production.extendOf operand level left env s) := by
  unfold Production.extendOf
  rw [Looks.peek.run_bind]
  cases hp : Precedence.ofKind? (env.kind s) with
  | none =>
    refine ⟨rfl, fun p h => ?_⟩
    rw [show Precedence.ofKind? (env.tokens.kindAt s.cursor) = none from hp] at h
    cases h
  | some p =>
    dsimp only
    split
    · rename_i hlevel
      refine ⟨rfl, fun q hq => ?_⟩
      obtain rfl : p = q := Option.some.inj (hp.symm.trans hq)
      exact hlevel
    · rename_i hlevel
      have hright : BuildsFrom (p.level + 1) (operand p.right) := by
        rw [← right_eq hp]
        exact hoperand p.right
      refine (outcome_binary hright hleft (hnext p hp) hp).bind ?_
      rintro x s₁ ⟨hx, hmoves, hxlevel, hstops⟩
      rw [map_eq_pure_bind]
      refine (outcome_wrap hx).bind ?_
      rintro y s' ⟨hy, hchildren, hcursor⟩
      refine ⟨hcursor ▸ hmoves, hy, bindsFrom_of_operatorLevel? hchildren hxlevel (by omega), ?_⟩
      rw [hcursor]
      exact fun q hq =>
        bindsFrom_of_operatorLevel? hchildren hxlevel (Int.le_of_lt_add_one (hstops q hq))

/-- All operators of at least the given level are taken: a step that takes one reads a token, so the
steps do not run out. -/
theorem outcome_extendUpTo {env : Env} {s₀ : State} {level : Int}
    (hoperand : ∀ level, BuildsFrom level (operand level)) (fuel : Nat) {s : State} {left : Node}
    (hfuel : env.tokens.tokens.size < s.cursor + fuel)
    (hleft : Built .quiet env.tokens s₀ left s) (hlevel : left.BindsFrom level)
    (hnext : BindsNext env.tokens s.cursor left) :
    Outcome .quiet env.tokens s₀
      (fun y s' => s.cursor ≤ s'.cursor ∧ Built .quiet env.tokens s₀ y s' ∧ y.BindsFrom level ∧
        StopsBelow env.tokens level s'.cursor)
      (Production.iterateUpTo (Production.extendOf operand level) fuel left env s) := by
  induction fuel generalizing s left with
  | zero =>
    have := hleft.cursor_le
    omega
  | succ fuel ih =>
    rw [iterateUpTo_succ]
    refine (outcome_extendOf level hoperand hleft hnext).bind ?_
    rintro y s₁ hy
    cases y with
    | none =>
      obtain ⟨rfl, hstops⟩ := hy
      exact ⟨Nat.le_refl _, hleft, hlevel, hstops⟩
    | some y =>
      obtain ⟨hmoves, hy, hylevel, hynext⟩ := hy
      refine (ih (by omega) hy hylevel hynext).mono (Manner.le_refl _) ?_
      rintro z s' ⟨hle, hz⟩
      exact ⟨Nat.le_trans (Nat.le_of_lt hmoves) hle, hz⟩

end

/-- By induction on the levels that are left: the operands of an operator are of higher levels. -/
theorem BuildsFrom.expressionUpTo (room : Nat) (level : Int) :
    BuildsFrom level (Production.expressionUpTo room level) := by
  induction room generalizing level with
  | zero => exact fun _ _ ready => Failed.here (Nat.le_refl _) ready.le_size
  | succ room ih =>
    intro env s ready
    have hoperand := Builds.unaryOf fun level => (ih level).builds
    refine Outcome.checkDepth ready.le_size (Outcome.bind
      ((Aside.unaryOf _).outcome (hoperand env s ready)) ?_)
    rintro left s₁ ⟨⟨hmoves, hleft⟩, hbinds⟩
    have hloop := outcome_extendUpTo ih (env.tokens.size - s₁.cursor) ?_ hleft
      (hbinds.bindsFrom level) fun p _ => hbinds.bindsFrom p.level
    · refine hloop.mono (Manner.le_refl _) ?_
      rintro y s' ⟨hle, hy⟩
      exact ⟨Nat.lt_of_lt_of_le (hmoves rfl) hle, hy⟩
    · have := hleft.cursor_le
      show _ < _ + (env.tokens.tokens.size + 1 - s₁.cursor)
      omega

/-- Operators within an expression are expressions again. -/
theorem Builds.expressionUpTo (room : Nat) (level : Int) :
    Builds .quiet 0 true (Production.expressionUpTo room level) :=
  (BuildsFrom.expressionUpTo room level).builds

/-- Every expression, whatever is left. -/
theorem Builds.expression : Builds .quiet 0 true Production.expression :=
  fun env s ready => Builds.expressionUpTo env.room Precedence.lowest env s ready

theorem Builds.arguments : Builds .quiet 0 true Production.arguments :=
  Builds.argumentsOf Builds.expression

theorem Builds.initializers : Builds .quiet 0 true Production.initializers :=
  Builds.initializersOf Builds.expression

-- ---------------------------------------------------------------------------
-- Targets of assignments
-- ---------------------------------------------------------------------------

/-- A member, an index or a call behind a part of a target. -/
theorem Extends.targetPart (inner : Node) : Extends .quiet 0 inner (do
    match ← Production.peek with
    | .mark .dot => some <$> Production.memberAccess inner
    | .mark .leftParen =>
      if ← test fun env s => env.tokens.assignmentFollowsParens 0 s.cursor then
        some <$> Production.elementAccessOf Production.expression inner
      else some <$> Production.callOrIndexOf Production.expression inner
    | _ => return Option.none) := by
  refine Extends.peek fun kind => ?_
  split
  · exact (Continues.memberAccess inner).mono.extending
  · refine Extends.look (Looks.test _) fun indexed => ?_
    split
    · exact (Continues.elementAccessOf Builds.expression inner).mono.extending
    · exact (Continues.callOrIndexOf Builds.expression inner).mono.extending
  · exact Extends.none

/-- A target grows from a name or from the dot of the `With` object. -/
theorem Builds.leftHandSide : Builds .quiet 0 true Production.leftHandSide := by
  have hrest (first : Node) : Attaches .quiet 0 first (do
      let target ← Production.iterate (fun inner => do
        match ← Production.peek with
        | .mark .dot => some <$> Production.memberAccess inner
        | .mark .leftParen =>
          if ← test fun env s => env.tokens.assignmentFollowsParens 0 s.cursor then
            some <$> Production.elementAccessOf Production.expression inner
          else some <$> Production.callOrIndexOf Production.expression inner
        | _ => return none) first
      unless target.isRule [.identifier, .memberAccess, .elementAccess] do
        Production.fail .assignmentTarget
      Production.attach target) := by
    refine Continues.attaching (Continues.iterate Extends.targetPart first) fun target => ?_
    show Attaches _ _ _ (if _ then _ else _)
    split
    · exact Attaches.attach
    · exact Attaches.failThen _
  refine Builds.checkDepth (Builds.node (Steps.peek fun kind => ?_))
  split
  · exact (Builds.implicitMemberAccess.attaching hrest).mono
  · refine Steps.ite (fun h => ?_) fun _ => Steps.failThen _
    rw [TokenKind.ahead_of h rfl]
    exact (Builds.ruleLeaf .identifier).attaching hrest

end VisualBasic.Production
