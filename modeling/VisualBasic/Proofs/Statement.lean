import VisualBasic.Grammar.Statement
import VisualBasic.Proofs.Clause

/-!
# Judgements about statements

A statement on a line of its own is quiet; what a block holds may be in error, so blocks are loud.
Every statement reads at least one token, and the blocks and single-line `If` statements that were
open before it are open behind it again.

Main results:

* `Builds.ifStatement` — an `If` in both its forms.
* `Builds.statementKindUpTo` — the judgement of statements, by induction on the levels that are
  left.
-/

namespace VisualBasic.Production

open State

-- ---------------------------------------------------------------------------
-- Simple statements
-- ---------------------------------------------------------------------------

/-- A node that ends with its line reads at least what is in front of the end. -/
theorem Builds.line {r : Rule} {n : Nat} {content : Parse Unit}
    (hcontent : Steps .quiet n true content) [Holds r.isPlain] :
    Builds .quiet n true (Production.line r content) :=
  Builds.node (hcontent.followed (m := .quiet) Steps.endStatement.mono)

/-- A word and perhaps a value. -/
theorem Builds.valueStatement (r : Rule) [Holds r.isPlain] :
    Builds .quiet 1 true (Production.valueStatement r) := by
  refine Builds.line (Steps.bind ReadsOne.take.1 fun _ => ?_)
  refine Steps.look (Looks.test _) fun _ => Steps.ite (fun _ => Steps.pure _) fun _ => ?_
  exact (Steps.child Builds.expression.nested).still

/-- A name and a colon. -/
theorem Builds.labelStatement : Builds .quiet 0 true Production.labelStatement := by
  refine Builds.node (Steps.bind (Steps.field .label Builds.identifier) fun _ => ?_)
  exact (Steps.expectMark .colon).mono

/-- A target, an operator and a value. -/
theorem Builds.assignmentStatement : Builds .quiet 0 true Production.assignmentStatement := by
  refine Builds.line (Steps.bind (Steps.field .left Builds.leftHandSide.nested) fun _ => ?_)
  refine Steps.peek fun kind => Steps.ite (fun h => ?_) fun _ => Steps.failThen _
  rw [TokenKind.ahead_of h rfl]
  refine Steps.bind (ReadsOne.tokenField .operator).1 fun _ => ?_
  exact (Steps.field .right Builds.expression.nested).still

/-- An expression, perhaps behind a word. -/
theorem Builds.callStatement : Builds .quiet 0 true Production.callStatement := by
  refine Builds.line (Steps.bind (Steps.acceptWord .kwCall) fun _ => ?_)
  exact Steps.child Builds.expression.nested

/-- Each of the three rules reads a token. -/
theorem Builds.expressionStatement : Builds .quiet 0 true Production.expressionStatement := by
  refine Builds.resolve _ (List.forall_mem_cons.2 ⟨Builds.labelStatement, ?_⟩)
  refine List.forall_mem_cons.2 ⟨Builds.assignmentStatement, ?_⟩
  exact List.forall_mem_cons.2 ⟨Builds.callStatement, fun _ hx => absurd hx List.not_mem_nil⟩

/-- What it gives is a node of its own. -/
theorem Aside.expressionStatement : Aside Node.IsPart Production.expressionStatement := by
  refine Aside.resolve _ (List.forall_mem_cons.2 ⟨(Aside.node _ _).isPart, ?_⟩)
  refine List.forall_mem_cons.2 ⟨(Aside.node _ _).isPart, ?_⟩
  exact List.forall_mem_cons.2 ⟨(Aside.node _ _).isPart, nofun⟩

/-- A word and variables. -/
theorem Builds.dimStatement : Builds .quiet 1 true Production.dimStatement := by
  refine Builds.line (Steps.bind ReadsOne.take.1 fun _ => ?_)
  exact (Steps.commaSeparated Steps.declarator).still

/-- Constants; the word is expected, so a token is read. -/
theorem Builds.constDeclaration : Builds .quiet 0 true Production.constDeclaration := by
  have hconstant : Steps .quiet 0 true (do
      Production.field .name Production.identifier
      Production.optionalAsClause
      Production.expectMark .equal
      Production.field .value (Production.nested Production.expression)) := by
    refine Steps.bind (Steps.field .name Builds.identifier) fun _ => ?_
    refine Steps.bind Steps.optionalAsClause fun _ => ?_
    refine Steps.bind (Steps.expectMark .equal) fun _ => ?_
    exact (Steps.field .value Builds.expression.nested).still
  refine Builds.line (Steps.bind Steps.declarationPrefix fun _ => ?_)
  refine Steps.bind (Steps.expectWord .kwConst) fun _ => ?_
  exact (Steps.commaSeparated hconstant).still

/-- A single token. -/
theorem Builds.directive : Builds .quiet 1 true Production.directive :=
  Builds.line ReadsOne.take.1.mono

/-- Two words. -/
theorem Builds.exitStatement : Builds .quiet 1 true Production.exitStatement := by
  refine Builds.line (Steps.bind ReadsOne.take.1 fun _ => Steps.peek fun kind => ?_)
  refine Steps.ite (fun h => ?_) fun _ => Steps.fail _
  rw [TokenKind.ahead_of h rfl]
  exact ReadsOne.take.1.mono

/-- Two words. -/
theorem Builds.continueStatement : Builds .quiet 1 true Production.continueStatement := by
  refine Builds.line (Steps.bind ReadsOne.take.1 fun _ => Steps.peek fun kind => ?_)
  split
  case h_4 => exact Steps.fail _
  all_goals exact ReadsOne.take.1.mono

/-- A label, which may be a number. -/
theorem Builds.labelName : Builds .inPlace 0 true (do
    if ← atKind (.literal .integer) then Production.ruleLeaf .identifier
    else Production.identifier) := by
  intro env s ready
  unfold atKind
  rw [(Looks.test _).run_bind]
  split
  · rename_i h
    refine (Builds.ruleLeaf .identifier) env s (.of_kindAt_ne ?_)
    rw [show env.tokens.kindAt s.cursor = .literal .integer from beq_iff_eq.1 h]
    exact nofun
  · exact Builds.identifier env s ready

/-- A word and a label. -/
theorem Builds.goToStatement : Builds .quiet 1 true Production.goToStatement := by
  refine Builds.line (Steps.bind ReadsOne.take.1 fun _ => ?_)
  exact (Steps.field .label Builds.labelName).mono

/-- An array and its new bounds. -/
theorem Steps.newBounds : Steps .quiet 0 true (do
    let array ← Production.iterate (fun array => do
      if ← atKind (.mark .dot) then some <$> Production.memberAccess array else return none)
      (← Production.identifier)
    Production.attach (array.inField .array)
    Production.child (Production.nested Production.arrayBounds)) := by
  have hbounds := (Steps.child Builds.arrayBounds.nested).still
  refine Builds.attaching Builds.identifier fun first => ?_
  refine Continues.attaching (Continues.iterate (fun array => ?_) first) fun _ =>
    Attaches.attachInField .array hbounds
  refine Extends.look (Looks.test _) fun _ => ?_
  split
  · exact (Continues.memberAccess array).extending
  · exact Extends.none

/-- A word, and arrays with their bounds. -/
theorem Builds.reDimStatement : Builds .quiet 1 true Production.reDimStatement := by
  refine Builds.line (Steps.bind ReadsOne.take.1 fun _ => ?_)
  refine Steps.bind (Steps.acceptWord .kwPreserve) fun _ => ?_
  exact (Steps.commaSeparated Steps.newBounds).still

/-- An event and a handler. -/
theorem Builds.handlerStatement (r : Rule) [Holds r.isPlain] :
    Builds .quiet 1 true (Production.handlerStatement r) := by
  refine Builds.line (Steps.bind ReadsOne.take.1 fun _ => ?_)
  refine Steps.bind (Steps.field .event Builds.expression.nested) fun _ => ?_
  refine Steps.bind (Steps.expectMark .comma) fun _ => ?_
  exact (Steps.field .handler Builds.expression.nested).still

/-- A name and perhaps arguments. -/
theorem Builds.raiseEventStatement : Builds .quiet 1 true Production.raiseEventStatement := by
  refine Builds.line (Steps.bind ReadsOne.take.1 fun _ => ?_)
  refine Steps.bind (Steps.field .name Builds.identifier) fun _ => ?_
  refine Steps.look (Looks.test _) fun _ => Steps.ite (fun _ => ?_) fun _ => Steps.pure _
  exact (Steps.field .arguments Builds.arguments.nested).still

-- ---------------------------------------------------------------------------
-- Blocks of statements
-- ---------------------------------------------------------------------------

section

variable {statement : Parse Node} {m : Manner}

/-- What is known of the production of the statements in a block. -/
structure IsStatement (statement : Parse Node) : Prop where
  builds : Builds .loud 0 false statement
  aside : Aside Node.IsPart statement
  span : ∀ env s x s', env.tokens.Ready s.cursor 0 → statement env s = .ok x s' →
    x.span = env.tokens.spanFrom s.cursor s'.cursor

/-- The statements of a block may be none, so no token need be read. -/
theorem Steps.statements (hstmt : IsStatement statement) :
    Steps .loud 0 false (Production.statements statement) :=
  Steps.body (Steps.child hstmt.builds.nested)

/-- They leave the open blocks as they were. -/
theorem Keeps.statements (hstmt : IsStatement statement) :
    Keeps [] (Production.statements statement) :=
  Keeps.body (Keeps.child hstmt.aside.nested)

/-- The word that opens the block is known to be ahead, and the block it opens is the one that is
closed. -/
theorem BuildsAt.blockStatement (hstmt : IsStatement statement) (m : Manner) {r : Rule}
    {word : Keyword} {kinds : List TokenKind} {header closing : Parse Unit} {b : Bool}
    {n : Nat} (hr : r.Opens word) (hheader : Steps .quiet n b header) (hkeeps : Keeps kinds header)
    (hclosing : Fills m true 0 false closing) (hcloses : Closes word [] closing)
    [hm : AtMost .loud m] [Holds (m.suits r)] [Holds (TokenKind.keyword word).isInner] :
    BuildsAt (.keyword word :: kinds) .loud (n + 1) true
      (Production.blockStatement statement r word header closing) := by
  have hquiet : AtMost .quiet m := ⟨Manner.le_trans (by decide) hm.le⟩
  refine BuildsAt.block m hr (Fills.openBlock word ?_) (Closes.openBlock word ?_)
  · refine Fills.one ReadsOne.take fun _ => ?_
    refine Fills.bind hheader.still fun _ => Fills.bind Steps.endStatement fun _ => ?_
    exact Fills.bind (Steps.statements hstmt) fun _ => hclosing
  · refine Closes.takeThen (Closes.bind hkeeps fun _ => ?_)
    refine Closes.bind Keeps.endStatement fun _ => ?_
    exact Closes.bind (Keeps.statements hstmt) fun _ => hcloses

/-- The header of a part may break off anywhere. -/
theorem Builds.blockPart (hstmt : IsStatement statement) {r : Rule} {header : Parse Unit} {n : Nat}
    (hheader : Steps .quiet (n + 1) true header) [Holds r.isPlain] [Holds r.keepsBrokenHeader] :
    Builds .loud (n + 1) true (Production.blockPart statement r header) := by
  refine Builds.block .broken (Fills.of_steps ?_)
  have hline := hheader.followed (m := .quiet) Steps.endStatement.mono
  exact (Steps.recovering hline fun _ => Nat.succ_pos n).followed (Steps.statements hstmt).mono

/-- A header of mere words can break off only at its end. -/
theorem Builds.blockPartInPlace (hstmt : IsStatement statement) {r : Rule} {header : Parse Unit}
    {n : Nat} (hheader : Steps .inPlace (n + 1) true header) [Holds r.isPlain] :
    Builds .loud (n + 1) true (Production.blockPart statement r header) := by
  refine Builds.block .loud (Fills.of_steps ?_)
  have hline := hheader.followed Steps.endStatement
  exact (Steps.recoveringInPlace hline fun _ => Nat.succ_pos n).followed (Steps.statements hstmt)

-- ---------------------------------------------------------------------------
-- If
-- ---------------------------------------------------------------------------

/-- A part of an `If` with its condition. -/
theorem Builds.elseIfClause (hstmt : IsStatement statement) :
    Builds .loud 1 true (Production.elseIfClause statement) := by
  have hheader : Steps .quiet 1 true (do
      Production.take
      let _ ← Production.acceptWord .kwIf
      Production.field .condition (Production.nested Production.expression)
      let _ ← Production.acceptWord .kwThen) := by
    refine Steps.bind ReadsOne.take.1 fun _ => ?_
    refine Steps.bind (Steps.acceptWord .kwIf) fun _ => ?_
    refine Steps.bind (Steps.field .condition Builds.expression.nested) fun _ => ?_
    exact Steps.bind (Steps.acceptWord .kwThen) fun _ => Steps.pure _
  exact Builds.blockPart hstmt hheader

/-- The last part of an `If`. -/
theorem Builds.elseClause (hstmt : IsStatement statement) :
    Builds .loud 1 true (Production.elseClause statement) :=
  Builds.blockPartInPlace hstmt ReadsOne.take.1

/-- One part behind the first branch, if there is one. -/
theorem Steps.ifPart (hstmt : IsStatement statement) :
    Steps .loud 0 false (Production.ifPart statement) := by
  refine Steps.peek fun kind => ?_
  split
  · exact Steps.bind (Steps.child (Builds.elseIfClause hstmt)) fun _ => Steps.pure _
  · refine Steps.look (Looks.peekAhead 1) fun _ => Steps.ite (fun _ => ?_) fun _ => ?_
    · exact Steps.bind (Steps.child (Builds.elseIfClause hstmt)) fun _ => Steps.pure _
    · exact Steps.bind (Steps.field .elseBranch (Builds.elseClause hstmt)) fun _ => Steps.pure _
  · exact Steps.pure _

/-- The parts leave the open blocks as they were. -/
theorem Keeps.ifParts : Keeps [] (Production.repeatWhile (Production.ifPart statement)) := by
  have hclause : Keeps [] (Production.child (Production.elseIfClause statement)) :=
    Keeps.child (Aside.node _ _).isPart
  refine Keeps.repeatWhile (Keeps.look Looks.peek fun kind => ?_)
  split
  · exact Keeps.bind hclause fun _ => Keeps.pure _
  · refine Keeps.look (Looks.peekAhead 1) fun _ => Keeps.ite ?_ ?_
    · exact Keeps.bind hclause fun _ => Keeps.pure _
    · exact Keeps.bind (Keeps.field .elseBranch (Aside.node _ _).isPart) fun _ => Keeps.pure _
  · exact Keeps.pure _

/-- The parts of a block `If`, and the closing line or the lack of it. -/
theorem Fills.ifBlock (hstmt : IsStatement statement) :
    Fills .loud true 0 false (Production.ifBlock statement) := by
  refine Fills.bind (Steps.statements hstmt) fun _ => ?_
  exact Fills.bind (Steps.repeatWhile (Steps.ifPart hstmt)) fun _ => Fills.finishBlock .kwIf

/-- It closes the block that is open. -/
theorem Closes.ifBlock (hstmt : IsStatement statement) :
    Closes .kwIf [] (Production.ifBlock statement) :=
  Closes.bind (Keeps.statements hstmt) fun _ => Closes.bind Keeps.ifParts
    fun _ => Closes.finishBlock

end

-- ---------------------------------------------------------------------------
-- If on a single line
-- ---------------------------------------------------------------------------

/-- The production completes an `If` whose head has been read. -/
def FillsIf {α : Type} (n : Nat) (b : Bool) (p : Parse α) : Prop :=
  ∀ env s, env.tokens.Ready s.cursor n → s.Unclosed →
    Outcome .loud env.tokens s
      (fun _ s' => (b = true → s.cursor < s'.cursor) ∧ Completed .loud false env.tokens s s' ∧
        HasElseBehindBranch env.tokens s'.children ∧
        ((∀ c ∈ s'.children, c.field ≠ some .thenBranch) →
          BlockEnd env.tokens .kwIf s'.isPartial s'.children.reverse)) (p env s)

section

variable {α β : Type} {n n₁ : Nat} {b b₁ : Bool} {m₁ : Manner}

/-- What is done in front of the branches. -/
theorem FillsIf.bind {p : Parse α} {k : α → Parse β} (hp : Steps m₁ n₁ b₁ p)
    (hkeeps : Keeps [] p) (hk : ∀ a, FillsIf 0 (b && !b₁) (k a))
    [hm : AtMost m₁ .loud] [hn : AtMost n₁ n] : FillsIf n b (p >>= k) := by
  intro env s ready hs
  have first := (hp env s (ready.mono hn.le)).loud
  have hs₁ := hkeeps env s rfl hs
  rw [run_bind]
  cases hres : p env s with
  | error f s₁ =>
    rw [hres] at first
    exact first
  | ok a s₁ =>
    rw [hres] at first hs₁
    obtain ⟨hmoves₁, hstep⟩ := first
    replace hstep := hstep.mono hm.le
    refine (hk a env s₁ hstep.ready hs₁).behind hstep.le_cursor ?_
    rintro _ s' ⟨hmoves, hs', hshape⟩
    refine ⟨fun hb => ?_, hstep.completed hs', hshape⟩
    have hle₁ := hstep.le_cursor
    have hle := hs'.le_cursor
    cases b₁ with
    | true =>
      have := hmoves₁ rfl
      omega
    | false =>
      have := hmoves (by simp [hb])
      omega

/-- An `If` without a branch on its line has nothing to say about its `Else`. -/
theorem FillsIf.of_fills {p : Parse α} (hp : Fills .loud false n b p)
    (hcloses : Closes .kwIf [] p) : FillsIf n b p := by
  intro env s ready hs
  have hrun := hp env s ready hs.isPartial
  cases hres : p env s with
  | error f s' =>
    rw [hres] at hrun
    exact hrun
  | ok a s' =>
    rw [hres] at hrun
    obtain ⟨hmoves, hs', hfield⟩ := hrun
    refine ⟨hmoves, hs', fun c hc hthen => ?_, fun _ => hcloses env s a s' rfl hs hres⟩
    rcases hfield c hc with hold | hnew
    · exact absurd hthen (hs.isInner c hold).field_ne
    · exact absurd hthen hnew

end

section

variable {statement : Parse Node}

/-- What has been read behind the first branch of an `If` on a single line. -/
structure ElseRead (t : TokenStream) (s : State) (new : List Node) (s' : State) : Prop where
  children : s'.children = new ++ s.children
  reading : ∃ ds, Reading t false s.cursor s'.cursor new ds ∧ s'.diagnostics = ds ++ s.diagnostics
  isPartial : s'.isPartial = s.isPartial
  blocks : s'.blocks = s.blocks
  singleLineIfs : s'.singleLineIfs = s.singleLineIfs - 1
  field : ∀ c ∈ new, c.field ≠ some .thenBranch
  token : ∀ c ∈ new, c.kind = .token (.keyword .kwElse) → c.info.token = some s.cursor
  iff : (∃ c ∈ new, c.kind = .token (.keyword .kwElse)) ↔ t.kindAt s.cursor = .keyword .kwElse

/-- The word and the statement behind it. -/
theorem ElseRead.of_built {t : TokenStream} {s s₁ s₂ : State} {span : Span} {y : Node}
    (hkind : t.kindAt s.cursor = .keyword .kwElse)
    (hword : Reading t false s.cursor s₁.cursor
      [.leaf (.token (t.kindAt s.cursor)) span s.cursor] [])
    (hs₁ : { s with children := .leaf (.token (t.kindAt s.cursor)) span s.cursor :: s.children,
                    cursor := s₁.cursor } = s₁)
    (hy : Built .loud t s₁ y s₂) :
    ElseRead t s [y.inField .elseBranch, .leaf (.token (t.kindAt s.cursor)) span s.cursor]
      { s₂ with children := y.inField .elseBranch :: s₂.children,
                singleLineIfs := s₂.singleLineIfs - 1 } := by
  obtain ⟨ds, -, hr, hd⟩ := hy.reading
  rw [← hs₁] at hy hd
  refine ⟨?_, ⟨ds ++ [], hword.append (hr.inField .elseBranch), ?_⟩, hy.same.isPartial,
    hy.same.blocks, ?_, fun c hc => ?_, fun c hc helse => ?_, ?_⟩
  · show y.inField .elseBranch :: s₂.children = _
    rw [hy.same.children]
    rfl
  · rw [List.append_nil]
    exact hd
  · show s₂.singleLineIfs - 1 = _
    rw [hy.same.singleLineIfs]
  · rcases List.mem_cons.1 hc with rfl | hc
    · rw [Node.field_inField]
      exact nofun
    · obtain rfl := List.mem_singleton.1 hc
      exact nofun
  · rcases List.mem_cons.1 hc with rfl | hc
    · rw [Node.kind_inField] at helse
      exact absurd helse (Node.kind_ne_token hy.isNamed _)
    · obtain rfl := List.mem_singleton.1 hc
      rfl
  · refine ⟨fun _ => hkind, fun _ => ⟨_, List.mem_cons_of_mem _ (List.mem_singleton_self _), ?_⟩⟩
    rw [← hkind]
    rfl

/-- Behind the first branch on a line `Else` is read if it is there. -/
theorem outcome_elseRead (hstmt : IsStatement statement) (env : Env) (s : State)
    (hs : s.cursor ≤ env.tokens.tokens.size) :
    Outcome .loud env.tokens s (fun _ s' => ∃ new, ElseRead env.tokens s new s')
      ((do
        if ← Production.acceptWord .kwElse then
          Production.field .elseBranch (Production.nested statement)
        modify fun s => { s with singleLineIfs := s.singleLineIfs - 1 } : Parse Unit) env s) := by
  unfold Production.acceptWord Production.accept atKind
  by_cases hkind : env.kind s = .keyword .kwElse
  · -- The word is read, and a statement behind it.
    have ready : env.tokens.Ready s.cursor 1 := .of_kindAt_ne (by
      rw [show env.tokens.kindAt s.cursor = .keyword .kwElse from hkind]
      exact nofun)
    have hnext : env.next s.cursor = s.cursor + 1 := Nat.min_eq_left ready.lt_size
    let leaf := Node.leaf (.token (env.kind s)) (env.tokens.get s.cursor).span s.cursor
    let s₁ : State := { s with children := leaf :: s.children, cursor := env.next s.cursor }
    have hword : Reading env.tokens false s.cursor s₁.cursor [leaf] [] :=
      (reading_leaf (.token (env.kind s)) ready rfl).2
    have hrun := hstmt.builds.nested env s₁ (.zero hword.stop_le)
    rw [run_bind, (Looks.test _).run_bind, if_pos (beq_iff_eq.2 hkind)]
    show Outcome _ _ _ _ ((Production.field .elseBranch (Production.nested statement) >>=
        fun _ => _)
      env s₁)
    rw [run_bind]
    unfold Production.field
    rw [run_bind]
    cases hres : Production.nested statement env s₁ with
    | error f s' =>
      rw [hres] at hrun
      have hle : s.cursor ≤ s₁.cursor := hword.le_stop
      exact ⟨Nat.le_trans hle hrun.le_cursor, hrun.cursor_le, hrun.index_le,
        fun hq => absurd hq (by decide)⟩
    | ok y s₂ =>
      rw [hres] at hrun
      exact ⟨_, .of_built hkind hword rfl hrun.2⟩
  · -- There is no such word.
    rw [run_bind, (Looks.test _).run_bind, if_neg (fun h => hkind (beq_iff_eq.1 h))]
    refine ⟨[], rfl, ⟨[], .start hs, rfl⟩, rfl, rfl, rfl, fun _ hc => absurd hc List.not_mem_nil,
      fun _ hc => absurd hc List.not_mem_nil, ?_⟩
    exact ⟨fun ⟨_, hc, _⟩ => absurd hc List.not_mem_nil, fun h => absurd h hkind⟩

/-- What has been read behind the first branch decides on the `Else`: the branch is the only child
in its role, and what is behind it has the only such word. -/
theorem ElseRead.hasElseBehindBranch {t : TokenStream} {s s' : State} {new cs : List Node}
    {branch : Node} (h : ElseRead t s new s') (hchildren : s.children = branch :: cs)
    (hhead : ∀ c ∈ cs, c.IsInner) (hkind : branch.kind ≠ .token (.keyword .kwElse))
    (hfirst : branch.info.firstToken ≤ s.cursor) (hsize : s.cursor ≤ t.tokens.size)
    (hspan : branch.span = t.spanFrom branch.info.firstToken s.cursor) :
    HasElseBehindBranch t s'.children := by
  have hmem (c : Node) : c ∈ s'.children ↔ c ∈ new ∨ c = branch ∨ c ∈ cs := by
    rw [h.children, hchildren, List.mem_append, List.mem_cons]
  have helse (c : Node) (hc : c ∈ s'.children) (hk : c.kind = .token (.keyword .kwElse)) :
      c ∈ new := by
    rcases (hmem c).1 hc with hnew | rfl | hold
    · exact hnew
    · exact absurd hk hkind
    · exact absurd hk ((hhead c hold).not_word .kwElse rfl)
  intro c hc hthen
  rcases (hmem c).1 hc with hnew | rfl | hold
  · exact absurd hthen (h.field c hnew)
  · refine ⟨s.cursor, hfirst, hsize, hspan, fun d hd hk => h.token d (helse d hd hk) hk, ?_⟩
    rw [← h.iff]
    constructor
    · rintro ⟨d, hd, hk⟩
      exact ⟨d, helse d hd hk, hk⟩
    · rintro ⟨d, hd, hk⟩
      exact ⟨d, (hmem d).2 (.inl hd), hk⟩
  · exact absurd hthen (hhead c hold).field_ne

/-- The branches of an `If` on a single line. The span of the first one tells where it ends. -/
theorem FillsIf.ifLine (hstmt : IsStatement statement) :
    FillsIf 0 false (Production.ifLine statement) := by
  intro env s ready hs
  let s₁ : State := { s with singleLineIfs := s.singleLineIfs + 1 }
  have hrun := hstmt.builds.nested env s₁ ready
  unfold Production.ifLine
  rw [run_bind]
  show Outcome _ _ _ _ ((Production.field .thenBranch (Production.nested statement) >>= fun _ => _)
    env s₁)
  rw [run_bind]
  unfold Production.field
  rw [run_bind]
  cases hres : Production.nested statement env s₁ with
  | error f s₂ =>
    rw [hres] at hrun
    exact ⟨hrun.le_cursor, hrun.cursor_le, hrun.index_le, fun hq => absurd hq (by decide)⟩
  | ok x s₂ =>
    rw [hres] at hrun
    obtain ⟨-, hx⟩ := hrun
    obtain ⟨ds, -, hr, hd⟩ := hx.reading
    let s₃ : State := { s₂ with children := x.inField .thenBranch :: s₂.children }
    have hrest := outcome_elseRead hstmt env s₃ hx.cursor_le
    refine hrest.behind hx.le_cursor ?_
    rintro _ s' ⟨new, helse⟩
    obtain ⟨es, hr', hd'⟩ := helse.reading
    have hchildren : s'.children = new ++ [x.inField .thenBranch] ++ s.children := by
      rw [helse.children, List.append_assoc]
      show new ++ x.inField .thenBranch :: s₂.children = _
      rw [hx.same.children]
      rfl
    refine ⟨fun h => Bool.noConfusion h, ⟨⟨_, es ++ ds, [], hchildren, ?_, ?_, ?_⟩, ?_, ?_⟩, ?_,
      fun hnone => ?_⟩
    · exact (hr.inField .thenBranch).append hr'
    · rw [helse.isPartial, show s₃.isPartial = false from hx.same.isPartial.trans hs.isPartial]
      exact .closed
    · rw [hd', show s₃.diagnostics = ds ++ s.diagnostics from hd]
      simp only [List.nil_append, List.append_assoc]
    · rw [helse.blocks]
      exact hx.same.blocks
    · rw [helse.singleLineIfs, show s₃.singleLineIfs = s.singleLineIfs +
        1 from hx.same.singleLineIfs]
      exact Nat.add_sub_cancel _ _
    · have hfirst : x.info.firstToken = s.cursor := hx.firstToken
      refine helse.hasElseBehindBranch (congrArg _ hx.same.children) hs.isInner ?_ ?_
        hx.cursor_le ?_
      · rw [Node.kind_inField]
        exact Node.kind_ne_token hx.isNamed _
      · rw [Node.firstToken_inField, hfirst]
        exact hx.le_cursor
      · rw [Node.span_inField, Node.firstToken_inField, hfirst]
        exact hstmt.span { env with depth := env.depth + 1 } s₁ x s₂ ready hres
    · -- The branch is among the children.
      refine absurd (Node.field_inField x .thenBranch) (hnone _ ?_)
      rw [hchildren]
      simp

/-- A head without `Then` has to end its line. -/
theorem FillsIf.branches {p : Parse Unit} (hp : FillsIf 0 false p) (hasThen : Bool) :
    FillsIf 0 false (if hasThen = true then p else do
      if ← atTerminator then p
      else
        let r ← Production.fail (.oneOf [.keyword .kwThen])
        (fun _ : Unit => p) r) := by
  intro env s ready hs
  split
  · exact hp env s ready hs
  · unfold atTerminator
    rw [(Looks.test _).run_bind]
    split
    · exact hp env s ready hs
    · rw [run_bind]
      exact Outcome.fail _ ready.le_size

/-- Behind the condition a block and a line go different ways; either gives one node. -/
theorem Builds.ifStatement (hstmt : IsStatement statement) :
    Builds .loud 0 true (Production.ifStatement statement) := by
  have hbranches : FillsIf 0 false (do
      if (← Production.peek).endsLine then
        Production.openBlock .kwIf
        Production.endStatement
        Production.ifBlock statement
      else Production.ifLine statement) := by
    intro env s ready hs
    rw [Looks.peek.run_bind]
    split
    · refine FillsIf.of_fills (Fills.openBlock .kwIf ?_) (Closes.openBlock .kwIf ?_) env s ready hs
      · exact Fills.bind Steps.endStatement fun _ => Fills.ifBlock hstmt
      · exact Closes.bind Keeps.endStatement fun _ => Closes.ifBlock hstmt
    · exact FillsIf.ifLine hstmt env s ready hs
  have hcondition := Steps.field .condition Builds.expression.nested
  have hbody : FillsIf 0 true (do
      Production.expectWord .kwIf
      Production.field .condition (Production.nested Production.expression)
      unless ← Production.acceptWord .kwThen do
        unless ← atTerminator do Production.fail (.oneOf [.keyword .kwThen])
      if (← Production.peek).endsLine then
        Production.openBlock .kwIf
        Production.endStatement
        Production.ifBlock statement
      else Production.ifLine statement) := by
    refine FillsIf.bind (Steps.expectWord .kwIf) (Keeps.expect) fun _ => ?_
    refine FillsIf.bind hcondition (Keeps.field .condition Aside.expression.nested) fun _ => ?_
    refine FillsIf.bind (Steps.acceptWord .kwThen) (Keeps.accept) fun hasThen => ?_
    exact FillsIf.branches hbranches hasThen
  intro env s ready
  have hrun := hbody env { s with children := [], isPartial := false } ready
    ⟨rfl, fun _ hc => absurd hc List.not_mem_nil⟩
  refine outcome_node (m := .loud) (hrun.mono (Manner.le_refl _) ?_) (by decide) (by decide)
  rintro _ s' ⟨hmoves, hs', helse, hend⟩
  refine ⟨hmoves rfl, hs', .inl (hmoves rfl), fun _ => helse.reverse,
    fun opener hopener h => ?_, nofun⟩
  cases hopener
  exact hend fun c hc => h rfl c (List.mem_reverse.2 hc)

-- ---------------------------------------------------------------------------
-- Select Case
-- ---------------------------------------------------------------------------

/-- A comparison, a range or a value. -/
theorem Builds.caseClause : Builds .quiet 0 true Production.caseClause := by
  have hvalue := Steps.child Builds.expression.nested
  have hcomparison : Steps .quiet 0 true (do
      if (← Production.peek).isRelational then
        Production.child (Production.ruleLeaf .relationalOperator)
        Production.child (Production.nested Production.expression)
      else
        Production.child (Production.nested Production.expression)
        if ← Production.acceptWord .kwTo then
          Production.child (Production.nested Production.expression)) := by
    refine Steps.peek fun kind => Steps.ite (fun h => ?_) fun _ => ?_
    · rw [TokenKind.ahead_of h rfl]
      exact Steps.bind (Steps.child (Builds.ruleLeaf .relationalOperator)) fun _ => hvalue.mono
    · refine Steps.bind hvalue fun _ => Steps.bind (Steps.acceptWord .kwTo) fun _ => ?_
      exact Steps.ite (fun _ => hvalue.still) fun _ => Steps.pure _
  refine Builds.node (Steps.bind (Steps.acceptWord .kwIs) fun _ => ?_)
  refine Steps.ite (fun _ => ?_) fun _ => hcomparison
  refine Steps.look Looks.peek fun _ => Steps.ite (fun _ => hcomparison) fun _ => ?_
  exact Steps.failThen _

/-- A case with its clauses, which may be broken. -/
theorem Builds.caseBlock (hstmt : IsStatement statement) :
    Builds .loud 1 true (Production.caseBlock statement) := by
  have hheader : Steps .quiet 1 true (do
      Production.take
      Production.commaSeparated (Production.child (Production.nested Production.caseClause))) :=
    ReadsOne.take.1.followed (Steps.commaSeparated (Steps.child Builds.caseClause.nested)).still
  exact Builds.blockPart hstmt hheader

/-- Both words are known to be ahead. -/
theorem Builds.caseElseBlock (hstmt : IsStatement statement) :
    Builds .loud 2 true (Production.caseElseBlock statement) := by
  have hheader : Steps .inPlace 2 true (do
      Production.take
      Production.take) :=
    Steps.one ReadsOne.take fun _ => ReadsOne.take.1.still
  exact Builds.blockPartInPlace hstmt hheader

/-- A case, which may be the one for all else. -/
theorem Steps.casePart (hstmt : IsStatement statement) : Steps .loud 1 false (do
    if (← peekAhead 1) == .keyword .kwElse then
      Production.child (Production.caseElseBlock statement)
    else Production.child (Production.caseBlock statement)
    return true) := by
  refine Steps.ifNext ?_ ?_
  · exact Steps.bind (Steps.child (Builds.caseElseBlock hstmt)) fun _ => Steps.pure _
  · exact Steps.bind (Steps.child (Builds.caseBlock hstmt)) fun _ => Steps.pure _

/-- The cases of a choice and the statements before them. -/
theorem Steps.caseParts (hstmt : IsStatement statement) :
    Steps .loud 0 false (Production.repeatWhile (Production.selectPart statement)) := by
  refine Steps.repeatWhile (Steps.ifAt (.keyword .kwCase) (n := 0) (Steps.casePart hstmt) ?_)
  refine Steps.look (Looks.test _) fun _ => Steps.ite (fun _ => Steps.pure _) fun _ => ?_
  exact Steps.bind (Steps.child hstmt.builds.nested) fun _ => Steps.pure _

/-- The cases leave the open blocks as they were. -/
theorem Keeps.caseParts (hstmt : IsStatement statement) :
    Keeps [] (Production.repeatWhile (Production.selectPart statement)) := by
  refine Keeps.repeatWhile (Keeps.look (Looks.test _) fun _ => Keeps.ite ?_ ?_)
  · refine Keeps.look (Looks.peekAhead 1) fun _ => Keeps.ite ?_ ?_
    · exact Keeps.bind (Keeps.child (Aside.node _ _).isPart) fun _ => Keeps.pure _
    · exact Keeps.bind (Keeps.child (Aside.node _ _).isPart) fun _ => Keeps.pure _
  · refine Keeps.look (Looks.test _) fun _ => Keeps.ite (Keeps.pure _) ?_
    exact Keeps.bind (Keeps.child hstmt.aside.nested) fun _ => Keeps.pure _

/-- The word is known to be ahead. -/
theorem BuildsAt.selectStatement (hstmt : IsStatement statement) :
    BuildsAt [.keyword .kwSelect] .loud 1 true (Production.selectStatement statement) := by
  refine BuildsAt.block .loud ⟨rfl, nofun⟩ (Fills.openBlock .kwSelect ?_)
    (Closes.openBlock .kwSelect ?_)
  · refine Fills.bind ReadsOne.take.1 fun _ => ?_
    refine Fills.bind (Steps.acceptWord .kwCase) fun _ => ?_
    refine Fills.bind (Steps.field .selector Builds.expression.nested) fun _ => ?_
    refine Fills.bind Steps.endStatement fun _ => ?_
    exact Fills.bind (Steps.caseParts hstmt) fun _ => Fills.finishBlock .kwSelect
  · refine Closes.takeThen (Closes.bind (Keeps.accept) fun _ => ?_)
    refine Closes.bind (Keeps.field .selector Aside.expression.nested) fun _ => ?_
    refine Closes.bind Keeps.endStatement fun _ => ?_
    exact Closes.bind (Keeps.caseParts hstmt) fun _ => Closes.finishBlock

-- ---------------------------------------------------------------------------
-- Loops
-- ---------------------------------------------------------------------------

/-- A condition and statements. -/
theorem BuildsAt.whileStatement (hstmt : IsStatement statement) :
    BuildsAt [.keyword .kwWhile] .loud 1 true (Production.whileStatement statement) :=
  BuildsAt.blockStatement hstmt .loud ⟨rfl, nofun⟩
    (Steps.field .condition Builds.expression.nested)
    (Keeps.field .condition Aside.expression.nested) (Fills.finishBlock .kwWhile) Closes.finishBlock

/-- A condition, if there is one. -/
theorem Steps.optionalLoopCondition : Steps .quiet 0 false Production.optionalLoopCondition := by
  intro env s ready
  unfold Production.optionalLoopCondition atLoopCondition
  rw [(Looks.test _).run_bind]
  split
  · rename_i h
    have hcondition : Steps .quiet 1 false (do
        Production.take
        Production.field .condition (Production.nested Production.expression)) :=
      Steps.bind ReadsOne.take.1 fun _ => (Steps.field .condition Builds.expression.nested).still
    refine hcondition env s (.of_kindAt_ne ?_)
    exact TokenKind.ne_endOfFile_of
      (p := fun k => k == .keyword .kwWhile || k == .keyword .kwUntil) h rfl
  · exact Steps.pure () env s ready

theorem Keeps.optionalLoopCondition : Keeps [] Production.optionalLoopCondition := by
  refine Keeps.ifTake (fun env s h => ?_) ?_ (Keeps.pure _)
  · rcases Bool.or_eq_true_iff.1 h with h | h
    · exact Keeps.isInner_of_kind h
    · exact Keeps.isInner_of_kind h
  · exact Keeps.field .condition Aside.expression.nested

/-- What a run of the condition of a loop has attached, whether or not it succeeds. -/
theorem trailing_optionalLoopCondition (env : Env) (s : State) :
    (lastState (Production.optionalLoopCondition env s)).isPartial = s.isPartial ∧
      ∃ trailing, (lastState (Production.optionalLoopCondition env s)).children =
        trailing.reverse ++ s.children ∧ Trailing .kwDo trailing := by
  unfold Production.optionalLoopCondition atLoopCondition
  rw [(Looks.test _).run_bind]
  split
  · rename_i h
    have hend : env.kind s ≠ .endOfFile := TokenKind.ne_endOfFile_of
      (p := fun k => k == .keyword .kwWhile || k == .keyword .kwUntil) h rfl
    let word := Node.leaf (.token (env.kind s)) (env.tokens.get s.cursor).span s.cursor
    have hword : word.IsWord .kwWhile ∨ word.IsWord .kwUntil :=
      (Bool.or_eq_true_iff.1 h).imp (fun h => congrArg NodeKind.token (beq_iff_eq.1 h))
        fun h => congrArg NodeKind.token (beq_iff_eq.1 h)
    let s₁ := s.withLeaf env.tokens (.token (env.kind s))
    have hsame := Aside.expression.nested.sameNode env s₁
    rw [run_bind, run_take hend]
    show (lastState (Production.field .condition (Production.nested Production.expression) env
        s₁)).isPartial
      = _ ∧ _
    unfold Production.field
    rw [lastState_bind]
    cases hres : Production.nested Production.expression env s₁ with
    | error f s₂ =>
      rw [hres] at hsame
      exact ⟨hsame.isPartial, [word], hsame.children, .loopWord hword⟩
    | ok x s₂ =>
      rw [hres] at hsame
      refine ⟨hsame.isPartial, [word, x.inField .condition], ?_,
        .condition hword (Node.field_inField _ _)⟩
      exact congrArg _ hsame.children
  · exact ⟨rfl, [], rfl, .nothing⟩

/-- `Loop` may be followed by the condition of its loop, which may break off. -/
theorem Trails.loop : Trails .kwDo (Production.recovering do
    Production.optionalLoopCondition
    Production.endStatement) := by
  intro env s s' hrun
  obtain ⟨hpartial, trailing, hchildren, htrailing⟩ := trailing_optionalLoopCondition env s
  obtain ⟨hpartial', region, hchildren', hregion⟩ := children_recovering hrun
  -- The end of the line attaches nothing to what the condition has left.
  have hsame : SameNode (lastState (Production.optionalLoopCondition env s))
      (lastState ((Production.optionalLoopCondition >>= fun _ => Production.endStatement) env
        s)) := by
    rw [lastState_bind]
    cases Production.optionalLoopCondition env s with
    | error f s₁ => exact .refl s₁
    | ok a s₁ => exact Aside.endStatement.sameNode env s₁
  refine ⟨?_, trailing, region, ?_, htrailing, hregion⟩
  · rw [hpartial']
    exact hsame.isPartial.trans hpartial
  · rw [hchildren', List.append_assoc]
    exact congrArg _ (hsame.children.trans hchildren)

/-- The condition behind the closing word may be broken. -/
theorem BuildsAt.doStatement (hstmt : IsStatement statement) :
    BuildsAt [.keyword .kwDo] .loud 1 true (Production.doStatement statement) := by
  have hcloser : Steps .broken 0 false (Production.recovering do
      Production.optionalLoopCondition
      Production.endStatement) :=
    Steps.recovering (Steps.bind Steps.optionalLoopCondition fun _ => Steps.endStatement.mono) nofun
  exact BuildsAt.blockStatement hstmt .broken ⟨rfl, nofun⟩ Steps.optionalLoopCondition
    Keeps.optionalLoopCondition (Fills.closeBlock .kwDo hcloser) (Closes.closeBlock Trails.loop)

/-- The closing line of a loop, perhaps with a variable, or the lack of it. -/
theorem Fills.finishNext : Fills .loud true 0 false Production.finishNext := by
  have hend : Steps .loud 0 false (Production.recovering Production.endStatement) :=
    Steps.recoveringInPlace Steps.endStatement nofun
  have hnext : Steps .loud 0 false (do
      if (← Production.peek).isNameLike then
        Production.child (Production.ruleLeaf .«variable»)
      Production.recovering Production.endStatement) := by
    refine Steps.peek fun kind => Steps.ite (fun h => ?_) fun _ => hend.mono
    rw [TokenKind.ahead_of h rfl]
    exact Steps.bind (Steps.child (Builds.ruleLeaf .«variable»)) fun _ => hend
  exact Fills.closeBlock .kwFor hnext

/-- `Next` may be followed by the variable of its loop. -/
theorem Trails.next : Trails .kwFor (do
    if (← Production.peek).isNameLike then
      Production.child (Production.ruleLeaf .«variable»)
    Production.recovering Production.endStatement) := by
  intro env s s' hrun
  rw [Looks.peek.run_bind] at hrun
  have hleaf : Aside (fun x => x.kind = .rule .«variable») (ruleLeaf .«variable») :=
    ⟨(Aside.ruleLeaf _).sameNode, fun _ _ _ _ hrun => by cases hrun; rfl⟩
  split at hrun
  · exact Trails.child hleaf (fun _ => .variable) env s s' hrun
  · exact Trails.endStatement env s s' hrun

/-- A loop over numbers. -/
theorem BuildsAt.forStatement (hstmt : IsStatement statement) :
    BuildsAt [.keyword .kwFor] .loud 1 true (Production.forStatement statement) := by
  have hheader : Steps .quiet 0 true (do
      Production.field .«variable» Production.identifier
      Production.optionalAsClause
      Production.expectMark .equal
      Production.field .start (Production.nested Production.expression)
      Production.expectWord .kwTo
      Production.field .«end» (Production.nested Production.expression)
      if ← Production.acceptWord .kwStep then
        Production.field .step (Production.nested Production.expression)) := by
    refine Steps.bind (Steps.field .«variable» Builds.identifier) fun _ => ?_
    refine Steps.bind Steps.optionalAsClause fun _ => ?_
    refine Steps.bind (Steps.expectMark .equal) fun _ => ?_
    refine Steps.bind (Steps.field .start Builds.expression.nested) fun _ => ?_
    refine Steps.bind (Steps.expectWord .kwTo) fun _ => ?_
    refine Steps.bind (Steps.field .«end» Builds.expression.nested) fun _ => ?_
    refine Steps.bind (Steps.acceptWord .kwStep) fun _ => ?_
    refine Steps.ite (fun _ => ?_) fun _ => Steps.pure _
    exact (Steps.field .step Builds.expression.nested).still
  have hkeeps : Keeps [] (do
      Production.field .«variable» Production.identifier
      Production.optionalAsClause
      Production.expectMark .equal
      Production.field .start (Production.nested Production.expression)
      Production.expectWord .kwTo
      Production.field .«end» (Production.nested Production.expression)
      if ← Production.acceptWord .kwStep then
        Production.field .step (Production.nested Production.expression)) := by
    refine Keeps.bind (Keeps.field .«variable» Aside.identifier) fun _ => ?_
    refine Keeps.bind Keeps.optionalAsClause fun _ => Keeps.bind (Keeps.expect) fun _ => ?_
    refine Keeps.bind (Keeps.field .start Aside.expression.nested) fun _ => ?_
    refine Keeps.bind (Keeps.expect) fun _ => ?_
    refine Keeps.bind (Keeps.field .«end» Aside.expression.nested) fun _ => ?_
    refine Keeps.bind (Keeps.accept) fun _ => ?_
    exact Keeps.ite (Keeps.field .step Aside.expression.nested) (Keeps.pure _)
  exact BuildsAt.blockStatement hstmt .loud ⟨rfl, nofun⟩ hheader hkeeps Fills.finishNext
    (Closes.closeBlock Trails.next)

/-- A loop over a collection; both words are known to be ahead. -/
theorem BuildsAt.forEachStatement (hstmt : IsStatement statement) :
    BuildsAt [.keyword .kwFor, .keyword .kwEach] .loud 2 true
      (Production.forEachStatement statement) := by
  have hheader : Steps .quiet 1 true (do
      Production.take
      Production.field .«variable» Production.identifier
      Production.optionalAsClause
      Production.expectWord .kwIn
      Production.field .collection (Production.nested Production.expression)) := by
    refine Steps.bind ReadsOne.take.1 fun _ => ?_
    refine Steps.bind (Steps.field .«variable» Builds.identifier) fun _ => ?_
    refine Steps.bind Steps.optionalAsClause fun _ => ?_
    refine Steps.bind (Steps.expectWord .kwIn) fun _ => ?_
    exact (Steps.field .collection Builds.expression.nested).still
  have hkeeps : Keeps [.keyword .kwEach] (do
      Production.take
      Production.field .«variable» Production.identifier
      Production.optionalAsClause
      Production.expectWord .kwIn
      Production.field .collection (Production.nested Production.expression)) := by
    refine Keeps.takeThen (Keeps.bind (Keeps.field .«variable» Aside.identifier) fun _ => ?_)
    refine Keeps.bind Keeps.optionalAsClause fun _ => Keeps.bind (Keeps.expect) fun _ => ?_
    exact Keeps.field .collection Aside.expression.nested
  exact BuildsAt.blockStatement hstmt .loud ⟨rfl, nofun⟩ hheader hkeeps Fills.finishNext
    (Closes.closeBlock Trails.next)

-- ---------------------------------------------------------------------------
-- Try
-- ---------------------------------------------------------------------------

/-- What is caught may be missing altogether. -/
theorem Steps.catchHeader : Steps .quiet 0 false Production.catchHeader := by
  have hfilter : Steps .quiet 0 false (do
      if ← Production.acceptWord .kwWhen then
        Production.field .filter (Production.nested Production.expression)) := by
    refine Steps.bind (Steps.acceptWord .kwWhen) fun _ => ?_
    refine Steps.ite (fun _ => ?_) fun _ => Steps.pure _
    exact (Steps.field .filter Builds.expression.nested).still
  refine Steps.look Looks.peek fun _ => Steps.look (Looks.test _) fun _ => ?_
  refine Steps.ite (fun _ => ?_) fun _ => hfilter
  refine Steps.bind (Steps.field .exception Builds.identifier) fun _ => ?_
  refine Steps.bind (Steps.acceptWord .kwAs) fun _ => ?_
  exact Steps.when (Steps.field .type (Builds.type true).nested) hfilter

/-- A part that catches something. -/
theorem Builds.catchBlock (hstmt : IsStatement statement) :
    Builds .loud 1 true (Production.catchBlock statement) := by
  have hheader : Steps .quiet 1 true (do
      Production.take
      Production.catchHeader) :=
    Steps.bind ReadsOne.take.1 fun _ => Steps.catchHeader
  exact Builds.blockPart hstmt hheader

/-- The last part of a `Try`. -/
theorem Builds.finallyBlock (hstmt : IsStatement statement) :
    Builds .loud 1 true (Production.finallyBlock statement) :=
  Builds.blockPartInPlace hstmt ReadsOne.take.1

/-- One part behind the statements that are tried, if there is one. -/
theorem Steps.tryPart (hstmt : IsStatement statement) :
    Steps .loud 0 false (Production.tryPart statement) := by
  refine Steps.peek fun kind => ?_
  split
  · exact Steps.bind (Steps.child (Builds.catchBlock hstmt)) fun _ => Steps.pure _
  · exact Steps.bind (Steps.child (Builds.finallyBlock hstmt)) fun _ => Steps.pure _
  · exact Steps.pure _

/-- The parts leave the open blocks as they were. -/
theorem Keeps.tryParts : Keeps [] (Production.repeatWhile (Production.tryPart statement)) := by
  refine Keeps.repeatWhile (Keeps.look Looks.peek fun kind => ?_)
  split
  · exact Keeps.bind (Keeps.child (Aside.node _ _).isPart) fun _ => Keeps.pure _
  · exact Keeps.bind (Keeps.child (Aside.node _ _).isPart) fun _ => Keeps.pure _
  · exact Keeps.pure _

/-- The statements that are tried and the parts behind them. -/
theorem BuildsAt.tryStatement (hstmt : IsStatement statement) :
    BuildsAt [.keyword .kwTry] .loud 1 true (Production.tryStatement statement) := by
  refine BuildsAt.blockStatement (b := false) hstmt .loud ⟨rfl, nofun⟩ (Steps.pure ())
    (Keeps.pure ())
    ?_ ?_
  · exact Fills.bind (Steps.repeatWhile (Steps.tryPart hstmt)) fun _ => Fills.finishBlock .kwTry
  · exact Closes.bind Keeps.tryParts fun _ => Closes.finishBlock

-- ---------------------------------------------------------------------------
-- With, Using, SyncLock
-- ---------------------------------------------------------------------------

/-- A block about one object. -/
theorem BuildsAt.withStatement (hstmt : IsStatement statement) :
    BuildsAt [.keyword .kwWith] .loud 1 true (Production.withStatement statement) :=
  BuildsAt.blockStatement hstmt .loud ⟨rfl, nofun⟩ (Steps.field .target Builds.expression.nested)
    (Keeps.field .target Aside.expression.nested) (Fills.finishBlock .kwWith) Closes.finishBlock

/-- New variables or a value. -/
theorem Steps.resources : Steps .quiet 0 false Production.resources := by
  have hresource : Steps .quiet 0 true (do
      Production.field .resource Production.identifier
      Production.optionalAsClause
      Production.optionalValue .value) := by
    refine Steps.bind (Steps.field .resource Builds.identifier) fun _ => ?_
    exact Steps.bind Steps.optionalAsClause fun _ => Steps.optionalValue .value
  refine Steps.look Looks.peek fun _ => Steps.look (Looks.peekAhead 1) fun _ => ?_
  refine Steps.look (Looks.peekAhead 1) fun _ => Steps.ite (fun _ => ?_) fun _ => ?_
  · exact (Steps.commaSeparated hresource).still
  · exact (Steps.field .value Builds.expression.nested).still

theorem Keeps.resources : Keeps [] Production.resources := by
  refine Keeps.look Looks.peek fun _ => Keeps.look (Looks.peekAhead 1) fun _ => ?_
  refine Keeps.look (Looks.peekAhead 1) fun _ => Keeps.ite (Keeps.commaSeparated ?_) ?_
  · refine Keeps.bind (Keeps.field .resource Aside.identifier) fun _ => ?_
    exact Keeps.bind Keeps.optionalAsClause fun _ => Keeps.optionalValue .value
  · exact Keeps.field .value Aside.expression.nested

/-- A block with resources. -/
theorem BuildsAt.usingStatement (hstmt : IsStatement statement) :
    BuildsAt [.keyword .kwUsing] .loud 1 true (Production.usingStatement statement) :=
  BuildsAt.blockStatement hstmt .loud ⟨rfl, nofun⟩ Steps.resources Keeps.resources
    (Fills.finishBlock .kwUsing) Closes.finishBlock

/-- A block under a lock. -/
theorem BuildsAt.syncLockStatement (hstmt : IsStatement statement) :
    BuildsAt [.keyword .kwSyncLock] .loud 1 true (Production.syncLockStatement statement) :=
  BuildsAt.blockStatement hstmt .loud ⟨rfl, nofun⟩ (Steps.field .lock Builds.expression.nested)
    (Keeps.field .lock Aside.expression.nested) (Fills.finishBlock .kwSyncLock) Closes.finishBlock

-- ---------------------------------------------------------------------------
-- The choice of the statement
-- ---------------------------------------------------------------------------

/-- The word picks the statement; it is known to be ahead. -/
theorem BuildsAt.wordStatement (hstmt : IsStatement statement) (word : Keyword) :
    BuildsAt [.keyword word] .loud 1 true (Production.wordStatement statement word) := by
  have hif : Builds .loud 1 true (Production.ifStatement statement) :=
    (Builds.ifStatement hstmt).mono
  have hcall : Builds .loud 1 true Production.callStatement := Builds.callStatement.mono
  unfold Production.wordStatement
  split
  case h_5 =>
    refine Builds.at (Builds.look (Looks.peekAhead 1) fun _ => Builds.ite (fun _ => ?_)
      fun _ => hif)
    refine Builds.resolve _ (List.forall_mem_cons.2 ⟨hcall, ?_⟩)
    exact List.forall_mem_cons.2 ⟨hif, fun _ hx => absurd hx List.not_mem_nil⟩
  case h_9 => exact BuildsAt.ifNext (BuildsAt.forEachStatement hstmt) (BuildsAt.forStatement hstmt)
  case h_6 => exact BuildsAt.selectStatement hstmt
  case h_7 => exact BuildsAt.whileStatement hstmt
  case h_8 => exact BuildsAt.doStatement hstmt
  case h_10 => exact BuildsAt.tryStatement hstmt
  case h_11 => exact BuildsAt.withStatement hstmt
  case h_12 => exact BuildsAt.usingStatement hstmt
  case h_13 => exact BuildsAt.syncLockStatement hstmt
  case h_1 | h_2 => exact Builds.dimStatement.mono.at
  case h_3 => exact Builds.constDeclaration.mono.at
  case h_4 => exact hcall.at
  case h_14 | h_15 => exact (Builds.valueStatement _).mono.at
  case h_16 => exact Builds.exitStatement.mono.at
  case h_17 => exact Builds.continueStatement.mono.at
  case h_18 => exact Builds.goToStatement.mono.at
  case h_19 => exact Builds.reDimStatement.mono.at
  case h_20 | h_21 => exact (Builds.handlerStatement _).mono.at
  case h_22 => exact Builds.raiseEventStatement.mono.at
  case h_23 => exact Builds.expressionStatement.mono.at

/-- Whatever it is, it is given as a node and not attached. -/
theorem Aside.wordStatement (word : Keyword) :
    Aside Node.IsPart (Production.wordStatement statement word) := by
  have hif : Aside Node.IsPart (Production.ifStatement statement) := (Aside.node _ _).isPart
  have hcall : Aside Node.IsPart Production.callStatement := (Aside.node _ _).isPart
  unfold Production.wordStatement
  split
  case h_5 =>
    refine Aside.look (Looks.peekAhead 1) fun _ => Aside.ite (Aside.resolve _ ?_) hif
    exact List.forall_mem_cons.2 ⟨hcall, List.forall_mem_cons.2 ⟨hif, nofun⟩⟩
  case h_9 =>
    exact Aside.look (Looks.peekAhead 1) fun _ =>
      Aside.ite (Aside.node _ _).isPart (Aside.node _ _).isPart
  case h_23 => exact Aside.expressionStatement
  all_goals exact (Aside.node _ _).isPart

end

-- ---------------------------------------------------------------------------
-- Statements
-- ---------------------------------------------------------------------------

/-- So is every kind of statement. -/
theorem Aside.statementKindUpTo (room : Nat) :
    Aside Node.IsPart (Production.statementKindUpTo room) := by
  cases room with
  | zero => exact Aside.tooDeep
  | succ room =>
    refine Aside.checkDepth (Aside.look Looks.peek fun kind => ?_)
    split
    · exact (Aside.ruleLeaf _).isPart
    · exact (Aside.ruleLeaf _).isPart
    · exact (Aside.node _ _).isPart
    · exact Aside.wordStatement _
    · exact Aside.expressionStatement

/-- Statements that are read or covered by an error region. -/
theorem Builds.statementOf {kind : Parse Node} (hkind : Builds .loud 0 true kind) :
    Builds .loud 0 false (Production.statementOf kind) := by
  have hwrapped := Builds.continuing (m := .loud) hkind fun _ => Continues.wrap .statement
  exact Builds.orRecover (m := .loud) hwrapped.mono nofun

theorem Aside.statementWrapped {kind : Parse Node} (hkind : Aside Node.IsPart kind) :
    Aside Node.IsPart (kind >>= Production.wrap .statement) :=
  Aside.bind hkind fun x _ => (Aside.wrap .statement x).mono fun _ h => h.1.isPart

/-- And so is the region over what is none. -/
theorem Aside.statementOf {kind : Parse Node} (hkind : Aside Node.IsPart kind) :
    Aside Node.IsPart (Production.statementOf kind) :=
  Aside.orRecover (Aside.statementWrapped hkind)

/-- A statement covers what was read for it. -/
theorem span_statementOf {kind : Parse Node} (hkind : Builds .loud 0 true kind) (env : Env)
    (s : State) (x : Node) (s' : State) (ready : env.tokens.Ready s.cursor 0)
    (hres : Production.statementOf kind env s = .ok x s') :
    x.span = env.tokens.spanFrom s.cursor s'.cursor := by
  unfold Production.statementOf Production.orRecover at hres
  rw [run_bind] at hres
  have hrun := hkind env s ready
  cases hinner : kind env s with
  | error f s₁ =>
    rw [hinner] at hres
    cases hres
    rfl
  | ok y s₁ =>
    rw [hinner] at hres hrun
    have hfirst : y.info.firstToken = s.cursor := hrun.2.firstToken
    cases hres
    show env.span y.info.firstToken s₁.cursor = _
    rw [hfirst]
    rfl

/-- What is known of statements follows from what is known of their kinds. -/
theorem IsStatement.of_kind {kind : Parse Node} (hbuilds : Builds .loud 0 true kind)
    (haside : Aside Node.IsPart kind) : IsStatement (Production.statementOf kind) :=
  ⟨Builds.statementOf hbuilds, Aside.statementOf haside, span_statementOf hbuilds⟩

/-- By induction on the levels that are left. -/
theorem Builds.statementKindUpTo (room : Nat) :
    Builds .loud 0 true (Production.statementKindUpTo room) := by
  induction room with
  | zero => exact Builds.tooDeep
  | succ room ih =>
    have hstmt := IsStatement.of_kind ih (Aside.statementKindUpTo room)
    refine Builds.checkDepth (Builds.peekAt fun kind => ?_)
    split
    · exact (Builds.ruleLeaf .emptyStatement).mono.at
    · exact (Builds.ruleLeaf .emptyStatement).mono.at
    · exact Builds.directive.mono.at
    · exact BuildsAt.wordStatement hstmt _
    · exact Builds.expressionStatement.mono.at

theorem IsStatement.statement : IsStatement Production.statement := by
  have hroom (room : Nat) := IsStatement.of_kind (Builds.statementKindUpTo room)
    (Aside.statementKindUpTo room)
  exact ⟨fun env s ready => (hroom env.room).builds env s ready,
    Aside.of_runs fun env _ => ⟨_, (hroom env.room).aside, rfl⟩,
    fun env s => (hroom env.room).span env s⟩

end VisualBasic.Production
