import VisualBasic.Proofs.HeedStatements
import VisualBasic.Proofs.Openings

/-!
# The openings of statements

The blocks among the statements. All of them but `If` open with their word, which is their first
token. An `If` is opened behind its line, since only there it shows that it is a block: the line
that is noted is that of the token behind `Then`, or behind the condition if there is no `Then`.

Main results:

* `Records.blockStatement` — a block that opens with its word.
* `Records.ifStatement` — an `If`, on one line or on several.
* `Records.statement` — by induction on the levels that are left.
-/

namespace VisualBasic.Production

open State

-- ---------------------------------------------------------------------------
-- Where an expression ends
-- ---------------------------------------------------------------------------

/-- The span of the node ends in front of the place. -/
def FinishedAt (env : Env) (n : Node) (s : State) : Prop :=
  n.span = env.tokens.spanFrom n.info.firstToken s.cursor

/-- The node that the production gives ends where the production does. -/
def Finishes (p : Parse Node) : Prop := ∀ env s n s', p env s = .ok n s' → FinishedAt env n s'

namespace Finishes

variable {α : Type} {p : Parse Node} {q : Parse α} {seen : Env → State → α}
  {k : α → Parse Node} {operand : Int → Parse Node}

/-- What is done last decides. -/
theorem bind (hk : ∀ a, Finishes (k a)) : Finishes (q >>= k) := by
  intro env s n s' hrun
  obtain ⟨a, s₁, -, hrest⟩ := bind_eq_ok hrun
  exact hk a env s₁ n s' hrest

/-- A wrapper is built where the run ends. -/
theorem wrap (r : Rule) (x : Node) : Finishes (Production.wrap r x) := by
  intro env s n s' hrun
  cases hrun
  rfl

/-- An operand is finished by the wrapper that is put around it. -/
theorem unaryOf : Finishes (Production.unaryOf operand) := by
  refine bind fun kind => ?_
  split
  case h_5 => exact bind fun _ => wrap _ _
  case h_6 => exact bind fun _ => bind fun _ => wrap _ _
  all_goals exact bind fun _ => wrap _ _

/-- What is extended ends where the extension does; what is not ends where it did. -/
theorem extendOf {level : Int} {left : Node} {env : Env} {s s' : State} {y : Option Node}
    (hrun : Production.extendOf operand level left env s = .ok y s') :
    (∃ n, y = some n ∧ FinishedAt env n s') ∨ y = none ∧ s'.cursor = s.cursor := by
  unfold Production.extendOf at hrun
  rw [Looks.peek.run_bind] at hrun
  cases hp : Precedence.ofKind? (env.kind s) with
  | none =>
    rw [hp] at hrun
    cases hrun
    exact .inr ⟨rfl, rfl⟩
  | some precedence =>
    rw [hp] at hrun
    dsimp only at hrun
    split at hrun
    · cases hrun
      exact .inr ⟨rfl, rfl⟩
    · obtain ⟨x, s₁, -, hrest⟩ := bind_eq_ok hrun
      rw [map_eq_pure_bind] at hrest
      obtain ⟨z, s₂, hwrap, hgive⟩ := bind_eq_ok hrest
      cases hgive
      exact .inl ⟨z, rfl, wrap _ _ env s₁ z _ hwrap⟩

/-- So is what has been read after any number of operators. -/
theorem iterateUpTo {level : Int} {left n : Node} {env : Env} {s s' : State} (k : Nat)
    (hleft : FinishedAt env left s)
    (hrun : Production.iterateUpTo (Production.extendOf operand level) k left env s = .ok n s') :
    FinishedAt env n s' := by
  induction k generalizing left s with
  | zero =>
    cases hrun
    exact hleft
  | succ k ih =>
    rw [iterateUpTo_succ] at hrun
    obtain ⟨y, s₁, hstep, hrest⟩ := bind_eq_ok hrun
    rcases extendOf hstep with ⟨x, rfl, hx⟩ | ⟨rfl, hcursor⟩
    · exact ih hx hrest
    · cases hrest
      unfold FinishedAt at hleft ⊢
      rw [hcursor]
      exact hleft

/-- An expression ends with its last token. -/
theorem expression : Finishes Production.expression := by
  intro env s n s' hrun
  unfold Production.expression at hrun
  cases hroom : env.room with
  | zero =>
    rw [hroom] at hrun
    cases hrun
  | succ room =>
    rw [hroom] at hrun
    obtain ⟨_, s₁, -, hrest⟩ := bind_eq_ok hrun
    obtain ⟨left, s₂, hunary, hmore⟩ := bind_eq_ok hrest
    exact iterateUpTo _ (unaryOf env s₁ left s₂ hunary) hmore

end Finishes

namespace Records

variable {pre : Standing} {word : Keyword}

-- ---------------------------------------------------------------------------
-- Opening lines
-- ---------------------------------------------------------------------------

/-- An expression in a role opens nothing. -/
theorem value (f : Field) [Holds f.isPlain] :
    Records pre nothing (Production.field f Production.expression.nested) :=
  part (Steps.field f Builds.expression.nested)

/-- The opening line of a loop over numbers opens nothing further. -/
theorem forHeader : Records pre nothing (do
    Production.field .«variable» Production.identifier
    Production.optionalAsClause
    Production.expectMark .equal
    Production.field .start Production.expression.nested
    Production.expectWord .kwTo
    Production.field .«end» Production.expression.nested
    if ← acceptWord .kwStep then Production.field .step Production.expression.nested) := by
  refine seq (part (Steps.field .«variable» Builds.identifier)) fun _ => ?_
  refine seq (part Steps.optionalAsClause) fun _ => seq (part (Steps.expectMark .equal)) fun _ => ?_
  refine seq (value .start) fun _ => seq (part (Steps.expectWord .kwTo)) fun _ => ?_
  refine seq (value .«end») fun _ => seq (part (Steps.acceptWord .kwStep)) fun _ => ?_
  exact ite (fun _ => value .step) fun _ => pure

/-- Neither does that of a loop over a collection. -/
theorem forEachHeader : Records (fun t i => t.Ready i 1) nothing (do
    Production.take
    Production.field .«variable» Production.identifier
    Production.optionalAsClause
    Production.expectWord .kwIn
    Production.field .collection Production.expression.nested) := by
  refine seq (quiet ReadsOne.take.1) fun _ => seq (part (Steps.field .«variable» Builds.identifier))
    fun _ => ?_
  refine seq (part Steps.optionalAsClause) fun _ => seq (part (Steps.expectWord .kwIn)) fun _ => ?_
  exact value .collection

/-- The closing line of a loop, or the lack of it. -/
theorem finishNext : RecordsLeaving .kwFor pre Production.finishNext := by
  refine closeBlock .kwFor (peek fun kind => ite (fun hname => ?_) fun _ => ?_)
  · refine seq (child ?_) fun _ => partRecovering Steps.endStatement
    refine (quietNode (Builds.ruleLeaf .«variable»)).mono fun t i hat => .of_kindAt_ne ?_
    rw [hat.2]
    rintro rfl
    cases hname
  · exact partRecovering Steps.endStatement

-- ---------------------------------------------------------------------------
-- Blocks of statements
-- ---------------------------------------------------------------------------

section

variable {statement : Parse Node} (h : Records Wherever itself statement)

include h

/-- Among the statements of a block each has its own diagnostics. -/
theorem statements : Records pre nothing (Production.statements statement) :=
  body (child (nested h))

/-- The line is that of the word, which is the first token of the statement. -/
theorem blockStatement {r : Rule} {header ending : Parse Unit} {n : Nat}
    (hr : r.openingMark = .word) (hopener : r.opener? = some word)
    (hheader : Records (fun t i => t.Ready i n) nothing header)
    (hending : RecordsLeaving word Wherever ending) :
    Records (fun t i => t.kindAt i = .keyword word ∧ t.Ready i (n + 1)) itself
      (Production.blockStatement statement r word header ending) :=
  blockOfWord hr hopener (leaving hheader fun _ => leaving (part Steps.endStatement) fun _ =>
    leaving (statements h) fun _ => hending)

/-- A part of a block, whose opening line may be broken. -/
theorem blockPart {r : Rule} {m : Manner} {n : Nat} {b : Bool} {header : Parse Unit}
    (hheader : Steps m n b header) [AtMost m .quiet] :
    Records (fun t i => t.Ready i n) itself (Production.blockPart statement r header) := by
  have hstill : Steps .quiet n false header := hheader.mono
  have hline : Steps .quiet n false (header >>= fun _ => Production.endStatement) :=
    Steps.bind hstill fun _ => Steps.endStatement.mono
  exact node (seq (recovering hline) fun _ => statements h)

-- ---------------------------------------------------------------------------
-- If
-- ---------------------------------------------------------------------------

/-- A part of an `If` is no block of its own, so it is not partial. -/
theorem elseIfClause :
    Records (fun t i => t.Ready i 1) itself (Production.elseIfClause statement) := by
  have hheader : Steps .quiet 1 true (do
      Production.take
      let _ ← Production.acceptWord .kwIf
      Production.field .condition Production.expression.nested
      let _ ← Production.acceptWord .kwThen) := by
    refine Steps.bind ReadsOne.take.1 fun _ => Steps.bind (Steps.acceptWord .kwIf) fun _ => ?_
    refine Steps.bind (Steps.field .condition Builds.expression.nested) fun _ => ?_
    exact Steps.bind (Steps.acceptWord .kwThen) fun _ => Steps.pure _
  exact blockPart h hheader

/-- Neither is the last part. -/
theorem elseClause : Records (fun t i => t.Ready i 1) itself (Production.elseClause statement) :=
  blockPart h ReadsOne.take.1

omit h in
/-- Where a word is, a token is left. -/
theorem ready_of_kindAt {word : Keyword} {t : TokenStream} {i : Nat}
    (hi : t.kindAt i = .keyword word) :
    t.Ready i 1 := .of_kindAt_ne (hi ▸ nofun)

/-- The parts of an `If` are picked by words. -/
theorem ifPart : Records Wherever nothing (Production.ifPart statement) := by
  refine peek fun kind => ?_
  split
  · exact round (child ((elseIfClause h).mono fun _ _ hat => ready_of_kindAt hat.2))
  · refine look (Looks.peekAhead 1) fun _ => ite (fun _ => ?_) fun _ => ?_
    · exact round (child ((elseIfClause h).mono fun _ _ hat => ready_of_kindAt hat.2))
    · exact round (field ((elseClause h).mono fun _ _ hat => ready_of_kindAt hat.2))
  · exact pure

/-- The parts, and the closing line or the lack of it. -/
theorem ifBlock : RecordsLeaving .kwIf pre (Production.ifBlock statement) :=
  leaving (statements h) fun _ => leaving (repeatWhile (ifPart h)) fun _ => finishBlock .kwIf

/-- An `If` on a single line opens nothing. -/
theorem ifLine : Records Wherever nothing (Production.ifLine statement) := by
  have hbranch (f : Field) : Records Wherever nothing (Production.field f statement.nested) :=
    field (nested h)
  have hbranches : Records Wherever nothing (do
      Production.field .thenBranch statement.nested
      if ← acceptWord .kwElse then Production.field .elseBranch statement.nested) :=
    seq (hbranch .thenBranch) fun _ => seq (part (Steps.acceptWord .kwElse)) fun _ =>
      ite (fun _ => hbranch .elseBranch) fun _ => pure
  rw [Passage.ifLine_eq]
  exact seq (count (· + 1)) fun _ => seq hbranches fun _ => count (· - 1)

omit h in
/-- The condition of an `If` ends where it was read to. -/
theorem covers_of_condition {env : Env} {s s' : State}
    (hready : s.cursor ≤ env.tokens.tokens.size)
    (hrun : Production.field .condition Production.expression.nested env s = .ok () s') :
    ∃ c ∈ s'.children, c.field = some .condition ∧ c.Covers env.tokens s'.cursor := by
  obtain ⟨n, s₁, hexpression, hattach⟩ := bind_eq_ok hrun
  cases hattach
  have houtcome := Builds.expression.nested env s (.zero hready)
  rw [hexpression] at houtcome
  have hbuilt := houtcome.2
  refine ⟨n.inField .condition, List.mem_cons_self, Node.field_inField _ _, ?_⟩
  refine Node.Covers.inField ⟨?_, hbuilt.cursor_le, ?_⟩ _
  · rw [hbuilt.firstToken]
    exact hbuilt.le_cursor
  · exact Finishes.expression { env with depth := env.depth + 1 } s n s₁ hexpression

omit h in
/-- The word `Then` is read if it is there. -/
theorem cursor_of_acceptThen {env : Env} {s s' : State} {x : Bool}
    (hrun : acceptWord .kwThen env s = .ok x s') : s'.cursor = env.tokens.behindThen s.cursor := by
  unfold acceptWord accept atKind at hrun
  rw [(Looks.test _).run_bind] at hrun
  unfold TokenStream.behindThen
  split at hrun
  · have hthen : env.tokens.kindAt s.cursor = .keyword .kwThen := beq_iff_eq.1 ‹_›
    have hend : env.kind s ≠ .endOfFile := by
      rw [show env.kind s = _ from hthen]
      exact nofun
    rw [run_bind, run_take hend] at hrun
    cases hrun
    rw [if_pos hthen]
    rfl
  · have hthen : ¬env.tokens.kindAt s.cursor = .keyword .kwThen := fun h => ‹¬_› (beq_iff_eq.2 h)
    cases hrun
    rw [if_neg hthen]

omit h in
/-- Where an `If` has its condition and its `Then`, it shows where it opens. -/
theorem shows_ifHead {env : Env} {s s₁ s₂ : State} {x : Bool}
    (hs : s.cursor ≤ env.tokens.tokens.size)
    (hhead : (do
      Production.expectWord .kwIf
      Production.field .condition Production.expression.nested : Parse Unit) env s = .ok () s₁)
    (hthen : acceptWord .kwThen env s₁ = .ok x s₂) :
    Advanced env.tokens false s s₂.cursor [] s₂ ∧
      Shows env.tokens .ifStatement .kwIf s₂.cursor s.cursor s₂.children := by
  obtain ⟨_, s₀, hword, hvalue⟩ := bind_eq_ok hhead
  have houtcome₀ := Steps.expectWord .kwIf env s (.zero hs)
  rw [hword] at houtcome₀
  have hfront₀ := houtcome₀.2.quiet (by decide)
  have houtcome₁ := (Steps.field .condition Builds.expression.nested) env s₀ (.zero hfront₀.stop_le)
  rw [hvalue] at houtcome₁
  have hfront₁ := houtcome₁.2.quiet (Manner.le_refl _)
  have houtcome₂ := Steps.acceptWord .kwThen env s₁ (.zero hfront₁.stop_le)
  rw [hthen] at houtcome₂
  have hfront₂ := houtcome₂.2.quiet (by decide)
  refine ⟨(hfront₀.trans hfront₁).trans hfront₂, ?_⟩
  obtain ⟨c, hc, hfield, hcovers⟩ := covers_of_condition hfront₀.stop_le hvalue
  obtain ⟨new, hnew, -⟩ := hfront₂.children
  rintro n hn - ⟨ns, hns⟩
  have hmem : c ∈ n.children := by
    rw [hns, hnew, List.mem_reverse]
    exact List.mem_append_right _ (List.mem_append_right _ hc)
  refine ⟨by rw [Node.opener?, hn], ?_⟩
  rw [cursor_of_acceptThen hthen]
  exact .behind hn hmem hfield hcovers

/-- An `If` that is a block opens behind its condition and its `Then`. -/
theorem ifStatement : Records pre itself (Production.ifStatement statement) := by
  have hblock : RecordsLeaving .kwIf Wherever (do
      Production.endStatement
      Production.ifBlock statement) :=
    leaving (part Steps.endStatement) fun _ => ifBlock h
  rw [Heeds.ifStatement_eq]
  refine nodeOf fun env s s' hs _ hchildren hpartial hrun => ?_
  obtain ⟨_, s₁, hhead, hrest⟩ := bind_eq_ok hrun
  obtain ⟨x, s₂, hthen, hbranches⟩ := Heeds.run_ifRest hrest
  obtain ⟨hfront, hshows⟩ := shows_ifHead hs hhead hthen
  unfold Heeds.ifBranches at hbranches
  rw [Looks.peek.run_bind] at hbranches
  split at hbranches
  · obtain ⟨_, s₃, hopen, hbehind⟩ := bind_eq_ok hbranches
    cases hopen
    have hentered := entered ⟨hchildren, hpartial⟩ hfront hshows
    exact .inr ⟨.kwIf, s₂.cursor, _, hentered,
      hblock env _ s' ⟨.kwIf, env.line s₂⟩ hentered.le_size trivial hentered.isPartial rfl hbehind⟩
  · have hline := ifLine h env s₂ () s' hfront.stop_le trivial hbranches
    exact .inl ((hfront.answered (Nat.le_refl _) hfront.stop_le).trans hline)

-- ---------------------------------------------------------------------------
-- The other blocks
-- ---------------------------------------------------------------------------

/-- A case is no block of its own. -/
theorem caseBlock : Records (fun t i => t.Ready i 1) itself (Production.caseBlock statement) := by
  have hheader : Steps .quiet 1 true (do
      Production.take
      Production.commaSeparated (Production.child Production.caseClause.nested)) :=
    ReadsOne.take.1.followed (Steps.commaSeparated (Steps.child Builds.caseClause.nested)).still
  exact blockPart h hheader

/-- Neither is the last one. -/
theorem caseElseBlock :
    Records (fun t i => t.Ready i 2) itself (Production.caseElseBlock statement) := by
  have hheader : Steps .inPlace 2 true (do
      Production.take
      Production.take) :=
    Steps.one ReadsOne.take fun _ => ReadsOne.take.1.still
  exact blockPart h hheader

/-- A case, or a statement in front of the first one. -/
theorem selectPart : Records Wherever nothing (Production.selectPart statement) := by
  have hitem : Records Wherever nothing (do
      if ← Production.atBoundary then return false
      Production.child statement.nested
      return true) :=
    look (Looks.test _) fun _ => ite (fun _ => pure) fun _ => round (child (nested h))
  refine ifAt (peekAhead 1 fun next => ite (fun hnext => ?_) fun _ => ?_) hitem
  · refine round (child ((caseElseBlock h).mono fun t i hat => ?_))
    have helse : t.kindAt (i + 1) = .keyword .kwElse := hat.2.trans (beq_iff_eq.1 hnext)
    exact .succ (hat.1.2 ▸ nofun) (ready_of_kindAt helse)
  · exact round (child ((caseBlock h).mono fun _ _ hat => ready_of_kindAt hat.1.2))

/-- The line is that of the word, the first token of the statement. -/
theorem selectStatement : Records (fun t i => t.kindAt i = .keyword .kwSelect ∧ t.Ready i 1) itself
    (Production.selectStatement statement) := by
  refine blockOfWord rfl rfl (leaving (part (Steps.acceptWord .kwCase)) fun _ => ?_)
  refine leaving (value .selector) fun _ => leaving (part Steps.endStatement) fun _ => ?_
  exact leaving (repeatWhile (selectPart h)) fun _ => finishBlock .kwSelect

/-- A part of a `Try` is no block of its own. -/
theorem catchBlock : Records (fun t i => t.Ready i 1) itself (Production.catchBlock statement) := by
  have hheader : Steps .quiet 1 true (do
      Production.take
      Production.catchHeader) :=
    Steps.bind ReadsOne.take.1 fun _ => Steps.catchHeader
  exact blockPart h hheader

/-- Neither is the last part. -/
theorem finallyBlock :
    Records (fun t i => t.Ready i 1) itself (Production.finallyBlock statement) :=
  blockPart h ReadsOne.take.1

/-- The parts of a `Try` are picked by words. -/
theorem tryPart : Records Wherever nothing (Production.tryPart statement) := by
  refine peek fun kind => ?_
  split
  · exact round (child ((catchBlock h).mono fun _ _ hat => ready_of_kindAt hat.2))
  · exact round (child ((finallyBlock h).mono fun _ _ hat => ready_of_kindAt hat.2))
  · exact pure

-- ---------------------------------------------------------------------------
-- The choice of the statement
-- ---------------------------------------------------------------------------

/-- The blocks whose word is the one at the cursor. -/
theorem wordBlock {r : Rule} {header ending : Parse Unit} (hr : r.openingMark = .word)
    (hopener : r.opener? = some word) (hheader : Records (fun t i => t.Ready i 0) nothing header)
    (hending : RecordsLeaving word Wherever ending) :
    Records (fun t i => t.kindAt i = .keyword word) itself
      (Production.blockStatement statement r word header ending) :=
  (blockStatement h hr hopener hheader hending).mono fun _ _ hat => ⟨hat, ready_of_kindAt hat⟩

/-- The word picks the statement, and it stands at the cursor. -/
theorem wordStatement (word : Keyword) : Records (fun t i => t.kindAt i = .keyword word) itself
    (Production.wordStatement statement word) := by
  have hline {n : Nat} {p : Parse Node} (hp : Builds .quiet n true p) (hn : n ≤ 1) :
      Records (fun t i => t.kindAt i = .keyword word) itself p :=
    (quietNode hp).mono fun _ _ hat => (ready_of_kindAt hat).mono hn
  unfold Production.wordStatement
  split
  case h_1 | h_2 => exact hline Builds.dimStatement (Nat.le_refl _)
  case h_3 => exact line Builds.constDeclaration
  case h_4 => exact line Builds.callStatement
  case h_5 =>
    refine look (Looks.peekAhead 1) fun _ => ite (fun _ => resolve _ ?_) fun _ => ifStatement h
    refine List.forall_mem_cons.2 ⟨line Builds.callStatement, ?_⟩
    exact List.forall_mem_cons.2 ⟨ifStatement h, fun _ hx => absurd hx List.not_mem_nil⟩
  case h_6 => exact (selectStatement h).mono fun _ _ hat => ⟨hat, ready_of_kindAt hat⟩
  case h_7 => exact wordBlock h rfl rfl (value .condition) (finishBlock .kwWhile)
  case h_8 =>
    have hcondition : Steps .quiet 0 false (do
        Production.optionalLoopCondition
        Production.endStatement) :=
      Steps.bind Steps.optionalLoopCondition fun _ => Steps.endStatement.mono
    exact wordBlock h rfl rfl (part Steps.optionalLoopCondition)
      (closeBlock .kwDo (partRecovering hcondition))
  case h_9 =>
    refine peekAhead 1 fun next => ite (fun hnext => ?_) fun _ => ?_
    · refine (blockStatement h rfl rfl forEachHeader finishNext).mono fun t i hat => ?_
      have heach : t.kindAt (i + 1) = .keyword .kwEach := hat.2.trans (beq_iff_eq.1 hnext)
      exact ⟨hat.1, .succ (hat.1 ▸ nofun) (ready_of_kindAt heach)⟩
    · exact (wordBlock h rfl rfl forHeader finishNext).mono fun _ _ hat => hat.1
  case h_10 =>
    exact wordBlock h rfl rfl pure (leaving (repeatWhile (tryPart h)) fun _ => finishBlock .kwTry)
  case h_11 => exact wordBlock h rfl rfl (value .target) (finishBlock .kwWith)
  case h_12 => exact wordBlock h rfl rfl (part Steps.resources) (finishBlock .kwUsing)
  case h_13 => exact wordBlock h rfl rfl (value .lock) (finishBlock .kwSyncLock)
  case h_14 | h_15 => exact hline (Builds.valueStatement _) (Nat.le_refl _)
  case h_16 => exact hline Builds.exitStatement (Nat.le_refl _)
  case h_17 => exact hline Builds.continueStatement (Nat.le_refl _)
  case h_18 => exact hline Builds.goToStatement (Nat.le_refl _)
  case h_19 => exact hline Builds.reDimStatement (Nat.le_refl _)
  case h_20 | h_21 => exact hline (Builds.handlerStatement _) (Nat.le_refl _)
  case h_22 => exact hline Builds.raiseEventStatement (Nat.le_refl _)
  case h_23 => exact line Builds.expressionStatement

end

/-- By induction on the levels that are left. -/
theorem statementKindUpTo (room : Nat) :
    Records Wherever itself (Production.statementKindUpTo room) := by
  induction room with
  | zero => exact tooDeep
  | succ room ih =>
    refine checkDepth (peek fun kind => ?_)
    split
    case h_1 | h_2 =>
      exact (quietNode (Builds.ruleLeaf _)).mono fun _ _ hat => .of_kindAt_ne (hat.2 ▸ nofun)
    case h_3 => exact (quietNode Builds.directive).mono fun _ _ hat => .of_kindAt_ne (hat.2 ▸ nofun)
    case h_4 => exact (wordStatement (orRecover (wrapped ih)) _).mono fun _ _ hat => hat.2
    case h_5 => exact line Builds.expressionStatement

/-- Every statement, wherever it begins. -/
theorem statement : Records pre itself Production.statement :=
  of_runs fun env _ => ⟨_, (orRecover (wrapped (statementKindUpTo env.room))).mono
    fun _ _ _ => trivial, rfl⟩

end Records

end VisualBasic.Production
