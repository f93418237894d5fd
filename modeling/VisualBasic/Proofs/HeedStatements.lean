import VisualBasic.Proofs.Heeding
import VisualBasic.Proofs.LoudStatements

/-!
# Statements heed closing lines

Every statement leaves the closing lines of the blocks around it alone, whether it takes a line or
is a block. The parts of a block are where it could fail to: each has a header of its own, which may
break off.

Main results:

* `Heeds.blockStatement`, `Heeds.blockPart` — a block and a part of it.
* `Heeds.ifStatement` — an `If`, which is no block if it stands on a single line.
* `Heeds.statement` — by induction on the levels that are left.
-/

namespace VisualBasic.Production.Heeds

open State Place

variable {own : Keyword → Prop} {closing : Bool} {r : Rule} {pre : Place}

-- ---------------------------------------------------------------------------
-- Lines of block statements
-- ---------------------------------------------------------------------------

/-- A quiet production has no error regions at all. -/
theorem line {m : Manner} {n : Nat} {b : Bool} {p : Parse Node} (hp : Builds m n b p)
    [AtMost m .quiet] : Heeds own false r (fun _ t i => t.Ready i n) Fitting p :=
  quietNode hp fun _ _ _ _ h => h

/-- The same of quiet productions that attach something. -/
theorem part {α : Type} {m : Manner} {b : Bool} {p : Parse α} (hp : Steps m 0 b p)
    [AtMost m .quiet] :
    Heeds own false r pre Whatever p :=
  quiet hp ready_zero

/-- An expression in a role. -/
theorem value (f : Field) [Holds f.isPlain] :
    Heeds own false r pre Whatever (Production.field f Production.expression.nested) :=
  part (Steps.field f Builds.expression.nested)

/-- A choice by a word that may be there, which is then read. -/
theorem ifAccept {α : Type} {post : Yield α} {word : Keyword} {p q : Parse α}
    (hp : Heeds own closing r Inner post p) (hq : Heeds own closing r pre post q) :
    Heeds own closing r pre post (acceptWord word >>= fun x => if x = true then p else q) := by
  have hword : Treads false (fun _ t i => t.kindAt i = .keyword word) Inner Production.take :=
    Treads.takeAt nofun rfl
  unfold acceptWord
  rw [accept_bind]
  exact ifAt (bind ((of_treads hword).mono (fun _ _ _ h => h.2) fun _ h => h) fun _ => hp) hq

/-- The opening line of a `For` behind its word. -/
theorem forHeader : Heeds own false r pre Whatever (do
    Production.field .«variable» Production.identifier
    Production.optionalAsClause
    Production.expectMark .equal
    Production.field .start Production.expression.nested
    Production.expectWord .kwTo
    Production.field .«end» Production.expression.nested
    if ← acceptWord .kwStep then Production.field .step Production.expression.nested) := by
  refine seq (part (Steps.field .«variable» Builds.identifier))
    (seq (part Steps.optionalAsClause) ?_)
  refine seq (part (Steps.expectMark .equal)) (seq (value .start) ?_)
  refine seq (part (Steps.expectWord .kwTo)) (seq (value .«end») (ifAccept (value .step) pure))

/-- The opening line of a `For Each` behind its first word. -/
theorem forEachHeader : Heeds own false r (fun _ t i => t.Ready i 1) Whatever (do
    Production.take
    Production.field .«variable» Production.identifier
    Production.optionalAsClause
    Production.expectWord .kwIn
    Production.field .collection Production.expression.nested) := by
  refine one ReadsOne.take fun _ => seq (part (Steps.field .«variable» Builds.identifier)) ?_
  exact seq (part Steps.optionalAsClause) (seq (part (Steps.expectWord .kwIn)) (value .collection))

/-- What follows the closing word of a loop may be broken; the region begins inside of that line. -/
theorem finishNext : Heeds own true r pre Whatever Production.finishNext := by
  refine closeBlock .kwFor (peek fun kind => ite (fun hname => ?_) fun _ => ?_)
  · have hvariable : Treads false (fun _ t i => (t.kindAt i).isNameLike = true) Inner
        (Production.child (Production.ruleLeaf .«variable»)) :=
      Treads.name
    refine bind ((of_treads hvariable).mono (fun word t i h => ?_) fun _ h => h) fun _ => endLine
    rw [h.2]
    exact hname
  · exact endLine.mono (fun _ _ _ h => h.1) fun _ h => h

-- ---------------------------------------------------------------------------
-- Blocks of statements
-- ---------------------------------------------------------------------------

/-- What is known of the production of the statements in a block. -/
structure OfStatements (statement : Parse Node) : Prop where
  heeds : ∀ {r}, Heeds NoWord false r Sheltered Fitting statement
  makes : MakesStatements 0 false statement

section

variable {statement : Parse Node}

/-- The statements of a block spare the closing lines of all open blocks. -/
theorem statements (h : OfStatements statement) :
    Heeds NoWord false r pre Whatever (Production.statements statement) :=
  body (child (nested h.heeds))

/-- The block is open while its statements are read, so they spare its closing line, too. -/
theorem blockStatement (h : OfStatements statement) {r' : Rule} {opener : Keyword}
    (hr : r'.saysCloser = true) (hcloser : r'.closer?.all (· == opener) = true)
    {header ending : Parse Unit} {n : Nat}
    (hheader : Heeds NoWord false r' (fun _ t i => t.Ready i n) Whatever header)
    (hending : Heeds NoWord true r' Anywhere Whatever ending) :
    Heeds NoWord false r (fun _ t i => t.Ready i (n + 1)) Fitting
      (Production.blockStatement statement r' opener header ending) := by
  refine block opener hr hcloser (openBlock (one ReadsOne.take fun _ => seq hheader ?_))
  exact seq (part Steps.endStatement) (seq (statements h) hending)

/-- A part of a block, whose opening line may be broken. -/
theorem blockPart (h : OfStatements statement) {loses : Bool} {r' : Rule}
    (hr : r'.saysCloser = true)
    (hcloser : r'.closer? = none) {spot : TokenStream → Nat → Prop} {header : Parse Unit}
    (hheader : Treads loses (fun _ => spot) Anywhere (do
      header
      Production.endStatement))
    (hloses : loses = true → r'.keepsBrokenHeader = true) :
    Heeds NoWord false r (fun _ => spot) Fitting (Production.blockPart statement r' header) :=
  node hr hcloser (seq (recovering hheader hloses) (statements h))

/-- A broken condition is recovered behind the word that opens the part. -/
theorem elseIfClause (h : OfStatements statement) :
    Heeds NoWord false r AtWord Fitting (Production.elseIfClause statement) :=
  blockPart h rfl rfl Treads.elseIfHeader fun _ => rfl

/-- The word that opens the part is no closing line. -/
theorem elseClause (h : OfStatements statement) :
    Heeds NoWord false r AtWord Fitting (Production.elseClause statement) := by
  have hheader : Treads false AtWord Anywhere (do
      Production.take
      Production.endStatement) := Treads.wordHeader
  exact blockPart h rfl rfl hheader nofun

/-- A word at the cursor is not the end of a line. -/
theorem atWord_of_kindAt {word : Keyword} {w : Option Keyword} {t : TokenStream} {i : Nat}
    (h : t.kindAt i = .keyword word) : AtWord w t i :=
  ⟨h ▸ nofun, h ▸ rfl⟩

/-- The parts of an `If` are picked by words. -/
theorem ifPart (h : OfStatements statement) :
    Heeds NoWord false r Anywhere Whatever (Production.ifPart statement) := by
  have hclause {word : Keyword} (pre : Place) :
      Heeds NoWord false r (fun w t i => pre w t i ∧ t.kindAt i = .keyword word) Whatever
        (Production.child (Production.elseIfClause statement)) :=
    child ((elseIfClause h).mono (fun _ _ _ hat => atWord_of_kindAt hat.2) fun _ h => h)
  refine peek fun kind => ?_
  split
  · exact round (hclause _)
  · refine look (Looks.peekAhead 1) fun _ => ite (fun _ => round (hclause _))
      fun _ => round (field ?_)
    exact (elseClause h).mono (fun _ _ _ hat => atWord_of_kindAt hat.2) fun _ h => h
  · exact pure

/-- While the parts are read the `If` is open, and then it is closed. -/
theorem ifBlock (h : OfStatements statement) :
    Heeds NoWord true r pre Whatever (Production.ifBlock statement) :=
  seq (statements h) (seq (repeatWhile (ifPart h)) (finishBlock .kwIf))

/-- The count of `If`s on a single line has nothing to do with closing lines. -/
theorem inSingleLineIf {p : Parse Unit} (hp : Heeds own false r pre Whatever p) :
    Heeds own false r pre Whatever p.inSingleLineIf := by
  intro env first word s u s' ht hminds hs hat hrun
  obtain ⟨_, s₁, hcount, hrest⟩ := bind_eq_ok hrun
  obtain ⟨_, s₂, hbody, hcount'⟩ := bind_eq_ok hrest
  cases hcount
  cases hcount'
  have hs₁ :
      State.Heedful env.tokens r first word { s with singleLineIfs := s.singleLineIfs + 1 } :=
    hs.move ht rfl (Nat.le_refl _) hs.le_size
  obtain ⟨hs₂, hblocks, -⟩ :=
    hp env first word { s with singleLineIfs := s.singleLineIfs + 1 } _ s₂ ht
    hminds hs₁ hat hbody
  exact ⟨hs₂.move ht rfl (Nat.le_refl _) hs₂.le_size, hblocks, trivial⟩

/-- The branches begin behind a token of the line, so not with a closing line. -/
theorem ifLine (h : OfStatements statement) :
    Heeds NoWord false r Inner Whatever (Production.ifLine statement) := by
  have hstatement : Heeds NoWord false r Inner Fitting statement.nested :=
    nested (h.heeds.mono sheltered_of_inner fun _ h => h)
  rw [Passage.ifLine_eq]
  exact inSingleLineIf (seq (field hstatement) (ifAccept (field hstatement) pure))

/-- What was read of an `If` on a single line has the branch behind `Then`. -/
theorem thenBranch_of_ifLine (h : MakesStatements 0 false statement) {env : Env}
    {s s' : State} {u : Unit}
    (hrun : Production.ifLine statement env s = .ok u s') :
    ∃ c ∈ s'.children, c.field = some .thenBranch := by
  rw [Passage.ifLine_eq] at hrun
  obtain ⟨_, s₁, hcount, hrest⟩ := bind_eq_ok hrun
  obtain ⟨_, s₂, hbody, hcount'⟩ := bind_eq_ok hrest
  obtain ⟨_, s₃, hbranch, hbehind⟩ := bind_eq_ok hbody
  obtain ⟨n, s₄, -, hattach⟩ := bind_eq_ok hbranch
  cases hcount'
  have hkept := (Passage.elseOfLine h).tidy env s₃
  rw [hbehind] at hkept
  cases hattach
  exact ⟨n.inField .thenBranch, hkept.children.subset List.mem_cons_self, Node.field_inField _ _⟩

/-- The branches of an `If`, which is a block if its line ends here. -/
abbrev ifBranches (statement : Parse Node) : Parse Unit := do
  if (← Production.peek).endsLine then
    Production.openBlock .kwIf
    Production.endStatement
    Production.ifBlock statement
  else Production.ifLine statement

/-- What is read of an `If` behind its condition. -/
abbrev ifRest (branches : Parse Unit) : Parse Unit := do
  unless ← acceptWord .kwThen do
    unless ← atTerminator do Production.fail (.oneOf [.keyword .kwThen])
  branches

/-- The statement in two parts: the condition, and what comes behind it. -/
theorem ifStatement_eq (statement : Parse Node) : Production.ifStatement statement =
    Production.node .ifStatement ((do
      Production.expectWord .kwIf
      Production.field .condition Production.expression.nested) >>= fun _ =>
        ifRest (ifBranches statement)) := by
  unfold Production.ifStatement
  rw [bind_assoc]

/-- The word and the condition end inside of the line. -/
theorem ifCondition : Heeds own false r (fun _ t i => t.kindAt i = .keyword .kwIf)
    (fun word t _ i => Inner word t i) (do
      Production.expectWord .kwIf
      Production.field .condition Production.expression.nested) :=
  of_treads (Treads.seq (Treads.expectWord nofun) (Treads.value .condition))

/-- What comes behind the condition is `Then`, perhaps, and the branches. -/
theorem run_ifRest {branches : Parse Unit} {env : Env} {s s' : State}
    (hrun : ifRest branches env s = .ok () s') :
    ∃ x s₁, acceptWord .kwThen env s = .ok x s₁ ∧ branches env s₁ = .ok () s' := by
  obtain ⟨x, s₁, hthen, hrest⟩ := bind_eq_ok hrun
  refine ⟨x, s₁, hthen, ?_⟩
  cases x with
  | true => exact hrest
  | false =>
    unfold atTerminator at hrest
    rw [if_neg Bool.false_ne_true, (Looks.test _).run_bind] at hrest
    split at hrest
    · exact hrest
    · cases hrest

/-- The word of a block that is about to be opened need not be open yet. -/
theorem minds_if {s : State} : Minds (· = .kwIf) (some .kwIf) s := by
  intro w hw
  obtain rfl := Option.some.inj hw
  exact ⟨rfl, .inr rfl⟩

/-- An `If` whose branches are a block spares the closing line of this block. -/
theorem own_ifRest (h : OfStatements statement) {env : Env} {first : Nat} {s s' : State}
    (ht : env.tokens.Ordered) (hs : s.Heedful env.tokens .ifStatement first (some .kwIf))
    (hrun : ifRest (ifBranches statement) env s = .ok () s')
    (hblock : ∀ c ∈ s'.children, c.field ≠ some .thenBranch) :
    s'.Heedful env.tokens .ifStatement first (some .kwIf) := by
  have hthen : Heeds (· = .kwIf) false .ifStatement Anywhere Whatever (acceptWord .kwThen) :=
    part (Steps.acceptWord .kwThen)
  have hbranch : Heeds (· = .kwIf) false .ifStatement Anywhere Whatever (do
      Production.openBlock .kwIf
      Production.endStatement
      Production.ifBlock statement) :=
    openBlock (seq (part Steps.endStatement) (ifBlock h))
  obtain ⟨x, s₁, haccept, hbranches⟩ := run_ifRest hrun
  obtain ⟨hs₁, -⟩ := hthen env first _ s x s₁ ht minds_if hs trivial haccept
  unfold ifBranches at hbranches
  rw [Looks.peek.run_bind] at hbranches
  split at hbranches
  · exact (hbranch env first _ s₁ () s' ht minds_if hs₁ trivial hbranches).1
  · obtain ⟨c, hc, hfield⟩ := thenBranch_of_ifLine h.makes hbranches
    exact absurd hfield (hblock c hc)

/-- The branches that have been read tell whether the statement is a block. If it is one, its own
closing line is spared as well. -/
theorem ifStatement (h : OfStatements statement) :
    Heeds NoWord false r (fun _ t i => t.kindAt i = .keyword .kwIf) Fitting
      (Production.ifStatement statement) := by
  have hblock : Heeds NoWord false .ifStatement Inner Whatever (do
      Production.openBlock .kwIf
      Production.endStatement
      Production.ifBlock statement) :=
    (openBlock (seq (part Steps.endStatement) (ifBlock h))).mono (fun _ _ _ h => h)
    fun _ => False.elim
  have hbranches : Heeds NoWord false .ifStatement Inner Whatever (ifBranches statement) :=
    look Looks.peek fun _ => ite (fun _ => hblock) fun _ => ifLine h
  have hrest : Heeds NoWord false .ifStatement Inner Whatever (ifRest (ifBranches statement)) :=
    ifAccept hbranches (test fun _ => ite (fun _ => hbranches) fun _ => failThen _)
  rw [ifStatement_eq]
  have hbody := bind ifCondition fun _ => hrest
  refine nodeOf nofun hbody ?_
  intro env first s s' span isPartial word ht hcloser hs _ ⟨_, hat⟩ hrun
  cases word with
  | none => exact (hbody env first none s () s' ht nofun hs hat hrun).1
  | some w =>
    obtain ⟨_, s₁, hcondition, hbehind⟩ := bind_eq_ok hrun
    rw [Node.closer?_ifStatement] at hcloser
    split at hcloser
    · cases hcloser
    · cases hcloser
      obtain ⟨hs₁, -⟩ := ifCondition env first _ s () s₁ ht minds_if hs hat hcondition
      refine own_ifRest h ht hs₁ hbehind fun c hc hfield => ‹¬_› ?_
      exact List.any_eq_true.2 ⟨c, List.mem_reverse.2 hc, beq_iff_eq.2 hfield⟩

/-- Broken clauses are recovered where they broke off, so a region there begins with a closing line
only if tokens of the clauses are lost in front of it. -/
theorem caseBlock (h : OfStatements statement) :
    Heeds NoWord false r AtWord Fitting (Production.caseBlock statement) :=
  blockPart h rfl rfl Treads.caseHeader fun _ => rfl

/-- Two words open the last part of a choice. -/
theorem caseElseBlock (h : OfStatements statement) :
    Heeds NoWord false r (fun _ t i => t.kindAt i = .keyword .kwCase ∧
      t.kindAt (i + 1) = .keyword .kwElse) Fitting (Production.caseElseBlock statement) := by
  have hheader : Treads false (fun _ t i => t.kindAt i = .keyword .kwCase ∧
      t.kindAt (i + 1) = .keyword .kwElse) Anywhere (do
        (do
          Production.take
          Production.take)
        Production.endStatement) := Treads.caseElseHeader
  exact blockPart h rfl rfl hheader nofun

/-- A case is picked by its word; other lines are statements as long as they close nothing. -/
theorem selectPart (h : OfStatements statement) :
    Heeds NoWord false r Anywhere Whatever (Production.selectPart statement) := by
  refine ifAt (peekAhead 1 fun next => ite (fun hnext => ?_) fun _ => ?_) (ifBoundary pure ?_)
  · refine round (child ((caseElseBlock h).mono (fun _ _ _ hat => ⟨hat.1.2, ?_⟩) fun _ h => h))
    exact hat.2.trans (beq_iff_eq.1 hnext)
  · exact round (child ((caseBlock h).mono (fun _ _ _ hat => atWord_of_kindAt hat.1.2)
      fun _ h => h))
  · exact round (child (nested (h.heeds.mono (fun _ _ _ h => h.2) fun _ h => h)))

/-- The choice is open while its cases are read. -/
theorem selectStatement (h : OfStatements statement) :
    Heeds NoWord false r (fun _ t i => t.Ready i 1) Fitting
      (Production.selectStatement statement) := by
  refine block .kwSelect rfl rfl (openBlock (one ReadsOne.take fun _ => ?_))
  refine seq (part (Steps.acceptWord .kwCase))
    (seq (value .selector) (seq (part Steps.endStatement) ?_))
  exact seq (repeatWhile (selectPart h)) (finishBlock .kwSelect)

/-- A block like any other. -/
theorem whileStatement (h : OfStatements statement) :
    Heeds NoWord false r (fun _ t i => t.Ready i 1) Fitting (Production.whileStatement statement) :=
  blockStatement h rfl rfl (value .condition) (finishBlock .kwWhile)

/-- A condition behind the closing word may be broken; the region begins inside of that line. -/
theorem doStatement (h : OfStatements statement) :
    Heeds NoWord false r (fun _ t i => t.Ready i 1) Fitting (Production.doStatement statement) :=
  blockStatement h rfl rfl (part Steps.optionalLoopCondition)
    (closeBlock .kwDo (recovering Treads.loopCondition fun _ => rfl))

/-- A block that is closed by a word of its own. -/
theorem forStatement (h : OfStatements statement) :
    Heeds NoWord false r (fun _ t i => t.Ready i 1) Fitting (Production.forStatement statement) :=
  blockStatement h rfl rfl forHeader finishNext

/-- The word is followed by another one that is known to be there. -/
theorem forEachStatement (h : OfStatements statement) :
    Heeds NoWord false r (fun _ t i => t.Ready i 2) Fitting
      (Production.forEachStatement statement) :=
  blockStatement h rfl rfl forEachHeader finishNext

/-- What is caught may be broken; it is recovered behind the word. -/
theorem catchBlock (h : OfStatements statement) :
    Heeds NoWord false r AtWord Fitting (Production.catchBlock statement) :=
  blockPart h rfl rfl Treads.catchHeader fun _ => rfl

/-- The word that opens the part is no closing line. -/
theorem finallyBlock (h : OfStatements statement) :
    Heeds NoWord false r AtWord Fitting (Production.finallyBlock statement) := by
  have hheader : Treads false AtWord Anywhere (do
      Production.take
      Production.endStatement) := Treads.wordHeader
  exact blockPart h rfl rfl hheader nofun

/-- The parts are picked by words. -/
theorem tryPart (h : OfStatements statement) :
    Heeds NoWord false r Anywhere Whatever (Production.tryPart statement) := by
  refine peek fun kind => ?_
  split
  · exact round (child ((catchBlock h).mono (fun _ _ _ hat => atWord_of_kindAt hat.2) fun _ h => h))
  · exact round (child ((finallyBlock h).mono (fun _ _ _ hat => atWord_of_kindAt hat.2)
      fun _ h => h))
  · exact pure

/-- The block is open while its parts are read. -/
theorem tryStatement (h : OfStatements statement) :
    Heeds NoWord false r (fun _ t i => t.Ready i 1) Fitting (Production.tryStatement statement) :=
  blockStatement h rfl rfl pure
    (seq (repeatWhile (tryPart h)) (finishBlock .kwTry))

/-- A block like any other. -/
theorem withStatement (h : OfStatements statement) :
    Heeds NoWord false r (fun _ t i => t.Ready i 1) Fitting (Production.withStatement statement) :=
  blockStatement h rfl rfl (value .target) (finishBlock .kwWith)

/-- A block like any other. -/
theorem usingStatement (h : OfStatements statement) :
    Heeds NoWord false r (fun _ t i => t.Ready i 1) Fitting (Production.usingStatement statement) :=
  blockStatement h rfl rfl (part Steps.resources)
    (finishBlock .kwUsing)

/-- A block like any other. -/
theorem syncLockStatement (h : OfStatements statement) :
    Heeds NoWord false r (fun _ t i => t.Ready i 1) Fitting
      (Production.syncLockStatement statement) :=
  blockStatement h rfl rfl (value .lock) (finishBlock .kwSyncLock)

-- ---------------------------------------------------------------------------
-- The choice of the statement
-- ---------------------------------------------------------------------------

/-- The word picks the statement, and it stands at the cursor. -/
theorem wordStatement (h : OfStatements statement) (word : Keyword) :
    Heeds NoWord false r (fun _ t i => t.kindAt i = .keyword word) Fitting
      (Production.wordStatement statement word) := by
  have hblock {p : Parse Node} (hp : Heeds NoWord false r (fun _ t i => t.Ready i 1) Fitting p) :
      Heeds NoWord false r (fun _ t i => t.kindAt i = .keyword word) Fitting p :=
    hp.mono (fun _ t i hat => .of_kindAt_ne (hat ▸ nofun)) fun _ h => h
  have hline {n : Nat} {p : Parse Node} (hp : Builds .quiet n true p) (hn : n ≤ 1) :
      Heeds NoWord false r (fun _ t i => t.kindAt i = .keyword word) Fitting p :=
    hblock ((line hp).mono (fun _ _ _ h => h.mono hn) fun _ h => h)
  unfold Production.wordStatement
  split
  case h_1 | h_2 => exact hline Builds.dimStatement (Nat.le_refl _)
  case h_3 => exact hline Builds.constDeclaration (Nat.zero_le _)
  case h_4 => exact hline Builds.callStatement (Nat.zero_le _)
  case h_5 =>
    refine look (Looks.peekAhead 1) fun _ => ite (fun _ => resolve _ ?_) fun _ => ifStatement h
    refine List.forall_mem_cons.2 ⟨hline Builds.callStatement (Nat.zero_le _), ?_⟩
    exact List.forall_mem_cons.2 ⟨ifStatement h, fun _ hx => absurd hx List.not_mem_nil⟩
  case h_6 => exact hblock (selectStatement h)
  case h_7 => exact hblock (whileStatement h)
  case h_8 => exact hblock (doStatement h)
  case h_9 =>
    refine peekAhead 1 fun next => ite (fun hnext => ?_) fun _ => ?_
    · refine (forEachStatement h).mono (fun _ t i hat => ?_) fun _ h => h
      have hnext : t.kindAt (i + 1) = .keyword .kwEach := hat.2.trans (beq_iff_eq.1 hnext)
      exact .succ (hat.1 ▸ nofun) (.of_kindAt_ne (hnext ▸ nofun))
    · exact (hblock (forStatement h)).mono (fun _ _ _ hat => hat.1) fun _ h => h
  case h_10 => exact hblock (tryStatement h)
  case h_11 => exact hblock (withStatement h)
  case h_12 => exact hblock (usingStatement h)
  case h_13 => exact hblock (syncLockStatement h)
  case h_14 | h_15 => exact hline (Builds.valueStatement _) (Nat.le_refl _)
  case h_16 => exact hline Builds.exitStatement (Nat.le_refl _)
  case h_17 => exact hline Builds.continueStatement (Nat.le_refl _)
  case h_18 => exact hline Builds.goToStatement (Nat.le_refl _)
  case h_19 => exact hline Builds.reDimStatement (Nat.le_refl _)
  case h_20 | h_21 => exact hline (Builds.handlerStatement _) (Nat.le_refl _)
  case h_22 => exact hline Builds.raiseEventStatement (Nat.le_refl _)
  case h_23 => exact hline Builds.expressionStatement (Nat.zero_le _)

end

/-- A statement that fails leaves a region that begins where the statement began. -/
theorem statementOf {kind : Parse Node} (h : ∀ {r}, Heeds NoWord false r Sheltered Fitting kind) :
    Heeds NoWord false r Sheltered Fitting (Production.statementOf kind) :=
  orRecover (bind h fun _ => wrap rfl rfl) fun _ _ _ h => h

/-- By induction on the levels that are left. -/
theorem statementKindUpTo (room : Nat) :
    Heeds NoWord false r Sheltered Fitting (Production.statementKindUpTo room) := by
  induction room generalizing r with
  | zero => exact tooDeep
  | succ room ih =>
    have hstatement : OfStatements (Production.statementOf (Production.statementKindUpTo room)) :=
      ⟨statementOf ih, Passage.makesStatements_of (Passage.statementKindUpTo room)⟩
    refine checkDepth (peek fun kind => ?_)
    split
    case h_1 | h_2 =>
      exact quietNode (Builds.ruleLeaf _) fun _ _ _ _ hat => .of_kindAt_ne (hat.2 ▸ nofun)
    case h_3 => exact quietNode Builds.directive fun _ _ _ _ hat => .of_kindAt_ne (hat.2 ▸ nofun)
    case h_4 => exact (wordStatement hstatement _).mono (fun _ _ _ hat => hat.2) fun _ h => h
    case h_5 => exact quietNode Builds.expressionStatement ready_zero

/-- Every statement spares the closing lines of the blocks around it. -/
theorem statement : Heeds NoWord false r Sheltered Fitting Production.statement :=
  of_runs fun env _ => ⟨_, statementOf (statementKindUpTo env.room), rfl⟩

end VisualBasic.Production.Heeds
