import VisualBasic.Proofs.ClosedNest

/-!
# Nests are read as what they are

Wherever statements whose blocks are all closed stand in front of the end of the text, the parser
gives back their trees. The lines in a nest belong to blocks at several levels, and a body ends at a
line that belongs to any open block. A body ends where it should as none of its statements begins
with such a line (`atBoundary_eq_false`), and as the line behind it belongs to the innermost block,
which is open while the body is read (`ClosedParts.boundary`).

Main results:

* `Reads.plainBlock`, `Reads.partedBlock`, `Reads.selectBlock` — a block is read if its body is.
* `ClosedStatement.reads`, `ClosedStatement.rounds`, `ClosedParts.rounds` — statements, bodies and
  parts are read, by induction on their structure.
* `statements_closedNest` — the run over statements in front of the end of the text.
-/

namespace VisualBasic

-- ---------------------------------------------------------------------------
-- Boundaries
-- ---------------------------------------------------------------------------

/-- A token with which a statement of a nest begins. -/
def TokenKind.opensStatement : TokenKind → Bool
  | .identifier | .keyword .kwReturn | .keyword .kwWhile | .keyword .kwDo | .keyword .kwFor
  | .keyword .kwWith | .keyword .kwUsing | .keyword .kwSyncLock | .keyword .kwIf
  | .keyword .kwSelect
  | .keyword .kwTry => true
  | _ => false

/-- A statement of a nest begins no member. -/
theorem TokenStream.startsMember_eq_false {t : TokenStream} {i : Nat}
    (h : (t.kindAt i).opensStatement = true) : t.startsMember i = false := by
  have hkind : isMemberModifier (t.kindAt i) = false ∧ (t.kindAt i == .mark .less) = false ∧
      (t.kindAt i).opensMember = false := by
    generalize t.kindAt i = kind at h
    unfold TokenKind.opensStatement at h
    split at h
    all_goals first
      | exact ⟨rfl, rfl, rfl⟩
      | exact Bool.noConfusion h
  obtain ⟨hmodifier, hless, hmember⟩ := hkind
  have hword : t.firstFrom (!isMemberModifier ·) i = i := by
    rw [firstFrom, if_pos]
    rw [hmodifier]
    rfl
  unfold startsMember
  dsimp only
  rw [hword, hless, hmember, someIn, Nat.sub_self]
  rfl

/-- The statements of a nest do not end the body in which they are. -/
theorem atBoundary_eq_false {env : Env} {s : State} (h : (env.kind s).opensStatement = true) :
    env.atBoundary s = false := by
  unfold Env.atBoundary
  split
  all_goals first
    | rename_i hkind
      rw [hkind] at h
      exact Bool.noConfusion h
    | rw [TokenStream.startsMember_eq_false h, Bool.and_false]

/-- The line at a place ends the statements before it. -/
def Scope.Boundary (c : Scope) (i : Nat) : Prop :=
  ∀ s : State, s.At c i → c.env.atBoundary s = true

/-- A block that the word opens is open. -/
def Scope.IsOpen (c : Scope) (opener : Keyword) : Prop := ∃ b ∈ c.blocks, b.opener = opener

/-- Where a block is opened that begins at `i`. An `If` is no block before its first line ends. -/
def BlockKind.openedAt (i : Nat) : BlockKind → Nat
  | ifElse => i + 3
  | _ => i

/-- Within a block that begins at `i`. -/
def Scope.inside (c : Scope) (b : BlockKind) (i : Nat) : Scope := c.opening b.opener (b.openedAt i)

section

variable {c : Scope} {i : Nat} {b : BlockKind}

theorem Scope.isOpen_inside (c : Scope) (b : BlockKind) (i : Nat) :
    (c.inside b i).IsOpen b.opener :=
  ⟨_, List.mem_cons_self, rfl⟩

theorem Scope.IsOpen.state {opener : Keyword} (h : c.IsOpen opener) {s : State} (hs : s.At c i) :
    s.isOpen opener = true := by
  obtain ⟨o, ho, hopener⟩ := h
  rw [State.isOpen, hs.blocks, List.any_eq_true]
  exact ⟨o, ho, beq_iff_eq.2 hopener⟩

theorem Scope.boundary_of_endOfFile (h : c.tokens.kindAt i = .endOfFile) : c.Boundary i := by
  intro s hs
  unfold Env.atBoundary
  rw [Production.Reads.kind_eq h hs]

/-- The closing line of an open block. -/
theorem BlockKind.boundary_of_closing (hopen : c.IsOpen b.opener)
    (h : c.tokens.Spells i b.closing) :
    c.Boundary i := by
  intro s hs
  have hopen := hopen.state hs
  unfold Env.atBoundary
  cases b
  case doLoop | forLoop | forEach =>
    rw [Production.Reads.kind_eq h.1 hs]
    exact hopen
  all_goals
    obtain ⟨hfirst, hsecond, -⟩ := h
    rw [Production.Reads.kind_eq hfirst hs, Production.Reads.kindAhead_eq hsecond hs]
    exact hopen

/-- The first line of a part of an open block. -/
theorem PartKind.boundary_of_opening {p : PartKind} (hopen : c.IsOpen p.block.opener)
    (h : c.tokens.Spells i p.opening) : c.Boundary i := by
  intro s hs
  have hopen := hopen.state hs
  unfold Env.atBoundary
  cases p
  all_goals
    rw [Production.Reads.kind_eq h.1 hs]
    exact hopen

theorem BlockKind.isPlain_of_isParted (h : b.isParted = true) : b.isPlain = false := by
  cases b <;> first | exact Bool.noConfusion h | rfl

theorem BlockKind.block_part (h : b.isPlain = false) : b.part.block = b ∧ b.lastPart.block = b := by
  cases b <;> first | exact Bool.noConfusion h | exact ⟨rfl, rfl⟩

/-- What follows a body: the next part of the block, or its closing line. -/
theorem ClosedParts.boundary {parts : ClosedParts} (hplain : b.isPlain = false)
    (hopen : c.IsOpen b.opener)
    (h : c.tokens.Spells i (parts.kinds b ++ b.closing)) : c.Boundary i := by
  obtain ⟨hpart, hlast⟩ := BlockKind.block_part hplain
  cases parts with
  | none => exact b.boundary_of_closing hopen h
  | last body =>
    rw [ClosedParts.kinds, List.append_assoc] at h
    exact PartKind.boundary_of_opening (hlast.symm ▸ hopen) (TokenStream.spells_append.1 h).1
  | part body rest =>
    rw [ClosedParts.kinds, List.append_assoc, List.append_assoc] at h
    exact PartKind.boundary_of_opening (hpart.symm ▸ hopen) (TokenStream.spells_append.1 h).1

end

-- ---------------------------------------------------------------------------
-- Simple statements
-- ---------------------------------------------------------------------------

/-- A token behind which no expression goes on. -/
def TokenKind.endsExpression (kind : TokenKind) : Bool :=
  (Precedence.ofKind? kind).isNone && kind != .mark .dot && kind != .mark .leftParen

namespace Production

open TokenStream

variable {c : Scope} {i j m e : Nat} {x : Node} {statement : Parse Node}

/-- A single token is an expression, with a token behind it that does not go on with it. -/
theorem Reads.operand {first next : TokenKind} (hdepth : c.env.depth + 1 < c.env.limit)
    (hfirst : c.tokens.kindAt i = first) (hnext : c.tokens.kindAt (i + 1) = next)
    (hatom : first.isAtom = true) (hends : next.endsExpression = true) :
    Reads c i (i + 1) [] (c.tokens.operandAt i) Production.expression.nested := by
  rw [← hfirst] at hatom
  rw [← hnext, TokenKind.endsExpression, Bool.and_eq_true, Bool.and_eq_true, bne_iff_ne, bne_iff_ne]
    at hends
  obtain ⟨⟨hnone, hdot⟩, hparen⟩ := hends
  have hstop : StopsBelow c.tokens Precedence.lowest (i + 1) := by
    intro p hp
    rw [show Precedence.ofKind? _ = some p from hp] at hnone
    exact Bool.noConfusion hnone
  refine Reads.nested ?_
  have hunary (room : Nat) : Reads c.nested i (i + 1) [] (c.tokens.operandAt i)
      (Production.expressionUpTo (room + 1) Precedence.lowest) :=
    (Reads.checkDepth hdepth).bind ((Reads.unaryOf (c := c.nested) hatom ⟨hdot, hparen⟩).bind
      (Loops.stop (Reads.extendNone (c := c.nested) hstop)).reads)
  have hroom : c.nested.env.room = c.env.limit - (c.env.depth + 1) - 1 + 1 := by
    show c.env.limit - (c.env.depth + 1) = _
    omega
  intro s hs
  unfold Production.expression
  rw [hroom]
  exact hunary _ s hs

theorem Reads.atTerminator {α : Type} {cs : List Node} {a : α} {f : Bool → Parse α}
    (h : (c.tokens.kindAt i).endsLine = true) (hf : Reads c i j cs a (f true)) :
    Reads c i j cs a (Production.atTerminator >>= f) := by
  refine look (Looks.test _) (fun s hs => ?_) hf
  rw [kind_eq rfl hs, h]
  rfl

/-- A statement is what its production gives. -/
theorem Reads.statementOf {kind : Parse Node} (hx : Reads c i j [] x kind)
    (hfirst : x.info.firstToken = i) :
    Reads c i j [] (c.tokens.statement i j x) (Production.statementOf kind) := by
  refine Reads.orRecover (hx.bind (.wrap .statement x ?_))
  rw [hfirst]
  rfl

/-- The statement that a word announces. -/
theorem Reads.statementByWord {room : Nat} {word : Keyword} (hdepth : c.env.depth < c.env.limit)
    (h : c.tokens.kindAt i = .keyword word) (hfirst : x.info.firstToken = i)
    (hx : Reads c i j [] x
      (wordStatement (Production.statementOf (statementKindUpTo room)) word)) :
    Reads c i j [] (c.tokens.statement i j x)
      (Production.statementOf (statementKindUpTo (room + 1))) :=
  .statementOf ((Reads.checkDepth hdepth).bind (.peek h hx)) hfirst

theorem Reads.returning (h : c.tokens.Spells i [.keyword .kwReturn, .newline]) :
    Reads c i (i + 2) [] (c.tokens.node .returnStatement i (i + 2) [c.tokens.tokenLeaf i])
      (valueStatement .returnStatement) := by
  obtain ⟨hword, hnewline, -⟩ := h
  have hends : (c.tokens.kindAt (i + 1)).endsLine = true := by
    rw [hnewline]
    rfl
  exact .node (.bind ((takeWord hword).bind (.atTerminator hends (.pos rfl (.pure ()))))
    (.endLine hnewline)) rfl

/-- A name in front of an assignment operator. -/
theorem Reads.leftHandSide (hdepth : c.env.depth < c.env.limit)
    (h : c.tokens.Spells i [.identifier, .mark .equal]) :
    Reads c i (i + 1) [] (c.tokens.node .leftHandSide i (i + 1) [c.tokens.ruleLeaf .identifier i])
      Production.leftHandSide := by
  obtain ⟨hname, hequal, -⟩ := h
  have hend : c.tokens.kindAt i ≠ .endOfFile := by
    rw [hname]
    exact nofun
  -- No part of a target begins with the operator.
  refine (Reads.checkDepth hdepth).bind (.node (.peek hname (.pos rfl ?_)) rfl)
  exact (Reads.ruleLeaf .identifier hend).bind
    ((Loops.stop (.peek hequal (.pure none))).reads.bind (.attach _))

theorem Reads.assignment (hdepth : c.env.depth + 1 < c.env.limit)
    (h : c.tokens.Spells i [.identifier, .mark .equal, .literal .integer, .newline]) :
    Reads c i (i + 4) []
      (c.tokens.node .assignmentStatement i (i + 4)
        [(c.tokens.node .leftHandSide i (i + 1) [c.tokens.ruleLeaf .identifier i]).inField .left,
          (c.tokens.tokenLeaf (i + 1)).inField .operator,
          (c.tokens.operandAt (i + 2)).inField .right]) expressionStatement := by
  obtain ⟨hname, hequal, hvalue, hnewline, -⟩ := h
  have hend : c.tokens.kindAt (i + 1) ≠ .endOfFile := by
    rw [hequal]
    exact nofun
  have hright := (Reads.operand (c := c) hdepth hvalue hnewline rfl rfl).field .right
  have hleft : Reads c i (i + 1) [_] () (Production.field .left Production.leftHandSide.nested) :=
    (Reads.leftHandSide (c := c.nested) hdepth ⟨hname, hequal, trivial⟩).nested.field .left
  have hoperator := (Reads.tokenLeaf hend).field .operator
  have hline : Reads c i (i + 4) [] _ assignmentStatement :=
    .node ((hleft.bind (.peek hequal (hoperator.bind hright))).bind (.endLine hnewline)) rfl
  refine (Reads.checkDepth (by omega)).bind (.firstFitNext (fun s hs => ?_)
    (.firstFit (fun _ _ => rfl) hline))
  dsimp only
  rw [kind_eq hname hs, kindAhead_eq hequal hs]
  rfl

-- ---------------------------------------------------------------------------
-- Blocks without parts
-- ---------------------------------------------------------------------------

/-- The rounds in which the statements of a body are read. -/
def BodyRounds (c : Scope) (i j : Nat) (xs : List Node) (statement : Parse Node) : Prop :=
  Rounds c i j xs do
    if ← Production.atBoundary then return false
    Production.child statement.nested
    return true

theorem BodyRounds.stop (h : c.Boundary i) : BodyRounds c i i [] statement :=
  Rounds.stop (.look (Looks.test _) h (.pos rfl (.pure false)))

theorem BodyRounds.more {xs : List Node} (h : (c.tokens.kindAt i).opensStatement = true)
    (hij : i < j)
    (hx : Reads c.nested i j [] x statement) (hrest : BodyRounds c j e xs statement) :
    BodyRounds c i e (x :: xs) statement := by
  have hround : Reads c i j ([x] ++ []) true (do
      if ← Production.atBoundary then return false
      Production.child statement.nested
      return true) := by
    refine .look (a := false) (Looks.test _) (fun s hs => atBoundary_eq_false ?_)
      (.neg nofun (hx.nested.child.bind (.pure true)))
    rwa [Reads.kind_eq rfl hs]
  exact Rounds.more hround hij (TokenKind.ne_endOfFile_of h rfl) hrest

theorem BodyRounds.reads {xs : List Node} (h : BodyRounds c i j xs statement) :
    Reads c i j xs () (statements statement) := Rounds.reads h

theorem Reads.blockStatement {r : Rule} {opener : Keyword} {header closing : Parse Unit}
    {hs bs es : List Node} (h : c.tokens.kindAt i = .keyword opener)
    (hheader : Reads (c.opening opener i) (i + 1) m hs () header)
    (hline : c.tokens.kindAt m = .newline)
    (hbody : BodyRounds (c.opening opener i) (m + 1) e bs statement)
    (hclosing : Ends (c.opening opener i) e j es closing) :
    Reads c i j [] (c.tokens.node r i j (c.tokens.tokenLeaf i :: hs ++ bs ++ es))
      (Production.blockStatement statement r opener header closing) := by
  refine .node (.openBlock (.bind (takeWord h)
    (.bind hheader (.bind (Reads.endLine hline) (.bind hbody.reads hclosing))))) ?_
  rw [List.append_assoc]
  rfl

/-! ### Headers and closing lines -/

theorem Reads.noAsClause (h : c.tokens.kindAt i ≠ .keyword .kwAs) :
    Reads c i i [] () optionalAsClause :=
  .notAtKind h (.neg nofun (.pure ()))

theorem Reads.noLoopCondition (h : c.tokens.kindAt i = .newline) :
    Reads c i i [] () optionalLoopCondition := by
  refine .look (a := false) (Looks.test _) (fun s hs => ?_) (.neg nofun (.pure ()))
  rw [kind_eq h hs]
  rfl

/-- The limits of a `For` loop. -/
theorem Reads.forHeader (hdepth : c.env.depth + 1 < c.env.limit)
    (h : c.tokens.Spells i (BlockKind.forLoop.header ++ [.newline])) :
    Reads c i (i + 5) (BlockKind.forLoop.headerNodes c.tokens i) () (do
      Production.field .«variable» Production.identifier
      optionalAsClause
      expectMark .equal
      Production.field .start Production.expression.nested
      expectWord .kwTo
      Production.field .«end» Production.expression.nested
      if ← acceptWord .kwStep then Production.field .step Production.expression.nested) := by
  obtain ⟨hname, hequal, hstart, hto, hstop, hnewline, -⟩ := h
  have hvariable : Reads c i (i + 1) [(c.tokens.ruleLeaf .identifier i).inField .«variable»] ()
      (Production.field .«variable» Production.identifier) :=
    (Reads.identifier (hname ▸ rfl)).field _
  have hfirst := (operand hdepth hstart hto rfl rfl).field .start
  have hlast := (operand hdepth hstop hnewline rfl rfl).field .«end»
  have hnoStep : Reads c (i + 5) (i + 5) [] () (do
      if ← acceptWord .kwStep then Production.field .step Production.expression.nested) :=
    (acceptNone (hnewline ▸ nofun)).bind (.neg nofun (.pure ()))
  exact hvariable.bind ((noAsClause (hequal ▸ nofun)).bind ((expect hequal nofun).bind
    (hfirst.bind ((expect hto nofun).bind (hlast.bind hnoStep)))))

/-- What a `For Each` loop goes over. -/
theorem Reads.forEachHeader (hdepth : c.env.depth + 1 < c.env.limit)
    (h : c.tokens.Spells i (BlockKind.forEach.header ++ [.newline])) :
    Reads c i (i + 4) (BlockKind.forEach.headerNodes c.tokens i) () (do
      Production.take
      Production.field .«variable» Production.identifier
      optionalAsClause
      expectWord .kwIn
      Production.field .collection Production.expression.nested) := by
  obtain ⟨heach, hname, hin, hcollection, hnewline, -⟩ := h
  have hvariable :
      Reads c (i + 1) (i + 2) _ () (Production.field .«variable» Production.identifier) :=
    (Reads.identifier (hname ▸ rfl)).field _
  have hvalue := (operand hdepth hcollection hnewline rfl rfl).field .collection
  exact (takeWord heach).bind (hvariable.bind ((noAsClause (hin ▸ nofun)).bind
    ((expect hin nofun).bind hvalue)))

/-- A resource that is a value. -/
theorem Reads.resources (hdepth : c.env.depth + 1 < c.env.limit)
    (h : c.tokens.Spells i (BlockKind.usingBlock.header ++ [.newline])) :
    Reads c i (i + 1) (BlockKind.usingBlock.headerNodes c.tokens i) () Production.resources := by
  obtain ⟨hvalue, hnewline, -⟩ := h
  have hoperand := (operand hdepth hvalue hnewline rfl rfl).field .value
  exact .peek hvalue (.peekAhead hnewline (.peekAhead hnewline (.neg nofun hoperand)))

theorem BlockKind.spells_closing {b : BlockKind} (h : c.tokens.Spells e b.closing) :
    c.tokens.Spells e (b.opener.closer.map .keyword) ∧
      c.tokens.kindAt (e + b.opener.closer.length) = .newline := by
  obtain ⟨hwords, hnewline, -⟩ := TokenStream.spells_append.1 h
  rw [List.length_map] at hnewline
  exact ⟨hwords, hnewline⟩

/-- The closing line of a block. -/
theorem Ends.closing {b : BlockKind} (h : c.tokens.Spells e b.closing) :
    Ends c e (e + b.closing.length) (wordLeaves c.tokens b.opener.closer e)
      (Production.finishBlock b.opener) := by
  obtain ⟨hwords, hnewline⟩ := BlockKind.spells_closing h
  have hlength : b.closing.length = b.opener.closer.length + 1 := by
    simp [BlockKind.closing]
  rw [hlength]
  exact Ends.finishBlock hwords (hnewline ▸ rfl)

/-- The closing line of a `For` loop, without its variable. -/
theorem Ends.next (h : c.tokens.Spells e BlockKind.forLoop.closing) :
    Ends c e (e + 2) (wordLeaves c.tokens Keyword.kwFor.closer e) finishNext := by
  obtain ⟨hwords, hnewline⟩ := BlockKind.spells_closing h
  have hline : Reads c.closed (e + 1) (e + 2) [] () (do
      if (← Production.peek).isNameLike then Production.child (Production.ruleLeaf .«variable»)
      recovering Production.endStatement) :=
    .peek hnewline (.neg nofun (Reads.endLine (c := c.closed) hnewline).recovering)
  exact Ends.closeBlock hwords hline

/-- The closing line of a `Do` loop, without a condition. -/
theorem Ends.loop (h : c.tokens.Spells e BlockKind.doLoop.closing) :
    Ends c e (e + 2) (wordLeaves c.tokens Keyword.kwDo.closer e) (do
      if ← Production.closeBlock .kwDo then
        recovering do
          optionalLoopCondition
          Production.endStatement) := by
  obtain ⟨hwords, hnewline⟩ := BlockKind.spells_closing h
  have hline : Reads c.closed (e + 1) (e + 2) [] () (recovering do
      optionalLoopCondition
      Production.endStatement) :=
    Reads.recovering ((Reads.noLoopCondition (c := c.closed) hnewline).bind
      (.endLine (c := c.closed) hnewline))
  exact Ends.closeBlock hwords hline

/-- A block without parts. -/
theorem Reads.plainBlock {b : BlockKind} (hplain : b.isPlain = true)
    (hdepth : c.env.depth + 1 < c.env.limit) (hopening : c.tokens.Spells i b.opening)
    {bs : List Node}
    (hbody : BodyRounds (c.inside b i) (i + b.opening.length) e bs statement)
    (hclosing : c.tokens.Spells e b.closing) :
    Reads c i (e + b.closing.length) []
      (c.tokens.node b.rule i (e + b.closing.length)
        (c.tokens.tokenLeaf i :: b.headerNodes c.tokens (i + 1) ++ bs ++
          wordLeaves c.tokens b.opener.closer e)) (wordStatement statement b.opener) := by
  obtain ⟨hword, hheader⟩ := hopening
  have hclose := Ends.closing (c := c.inside b i) hclosing
  cases b with
  | ifElse | select | tryCatch => exact Bool.noConfusion hplain
  | whileLoop | withBlock | syncLock =>
    obtain ⟨hvalue, hnewline, -⟩ := hheader
    exact .blockStatement hword
      ((operand (c := c.opening _ i) hdepth hvalue hnewline rfl rfl).field _) hnewline hbody hclose
  | usingBlock =>
    exact .blockStatement hword (.resources (c := c.opening _ i) hdepth hheader) hheader.2.1 hbody
      hclose
  | doLoop =>
    exact .blockStatement hword (.noLoopCondition (c := c.opening _ i) hheader.1) hheader.1 hbody
      (.loop (c := c.opening _ i) hclosing)
  | forLoop =>
    exact .peekAhead hheader.1 (.neg nofun (.blockStatement hword
      (.forHeader (c := c.opening _ i) hdepth hheader) hheader.2.2.2.2.2.1 hbody
      (.next (c := c.opening _ i) hclosing)))
  | forEach =>
    exact .peekAhead hheader.1 (.pos rfl (.blockStatement hword
      (.forEachHeader (c := c.opening _ i) hdepth hheader) hheader.2.2.2.2.1 hbody
      (.next (c := c.opening _ i) hclosing)))

-- ---------------------------------------------------------------------------
-- Parts
-- ---------------------------------------------------------------------------

/-- One step in the reading of the parts of a block. -/
def partStep (statement : Parse Node) : BlockKind → Parse Bool
  | .select => (Production.selectPart statement)
  | .tryCatch => (Production.tryPart statement)
  | _ => (Production.ifPart statement)

theorem Reads.blockPart {r : Rule} {header : Parse Unit} {hs bs : List Node}
    (hheader : Reads c i m hs () header) (hline : c.tokens.kindAt m = .newline)
    (hbody : BodyRounds c (m + 1) e bs statement) :
    Reads c i e [] (c.tokens.node r i e (hs ++ bs)) (Production.blockPart statement r header) := by
  refine .node ((Reads.recovering (hheader.bind (.endLine hline))).bind hbody.reads) ?_
  rw [List.append_nil]

theorem Reads.caseClause (hdepth : c.env.depth + 1 < c.env.limit)
    (h : c.tokens.Spells i [.literal .integer, .newline]) :
    Reads c i (i + 1) [] (c.tokens.node .caseClause i (i + 1) [c.tokens.operandAt i])
      Production.caseClause := by
  obtain ⟨hvalue, hnewline, -⟩ := h
  have hoperand := (operand hdepth hvalue hnewline rfl rfl).child
  refine .node ((acceptNone (hvalue ▸ nofun)).bind
    (.neg nofun (.peek hvalue (.neg nofun (hoperand.bind ?_))))) rfl
  exact (acceptNone (hnewline ▸ nofun)).bind (.neg nofun (.pure ()))

theorem Reads.catchHeader (h : c.tokens.Spells i [.identifier, .newline]) :
    Reads c i (i + 1) [(c.tokens.ruleLeaf .identifier i).inField .exception] ()
      Production.catchHeader := by
  obtain ⟨hname, hnewline, -⟩ := h
  have hrest : Reads c (i + 1) (i + 1) [] () (do
      if ← acceptWord .kwWhen then Production.field .filter Production.expression.nested) :=
    (acceptNone (hnewline ▸ nofun)).bind (.neg nofun (.pure ()))
  refine .peek hname (.notAtKind (hname ▸ nofun) (.pos rfl ?_))
  exact ((identifier (hname ▸ rfl)).field _).bind
    ((acceptNone (hnewline ▸ nofun)).bind (.neg nofun hrest))

section

variable {bs : List Node}

theorem Reads.elseIfClause (hdepth : c.env.depth + 1 < c.env.limit)
    (h : c.tokens.Spells i PartKind.elseIf.opening) (hbody : BodyRounds c (i + 4) e bs statement) :
    Reads c i e [] (PartKind.elseIf.node c.tokens i e bs) (Production.elseIfClause statement) := by
  obtain ⟨hword, hvalue, hthen, hnewline, -⟩ := h
  have hcondition := (operand hdepth hvalue hthen rfl rfl).field .condition
  exact .blockPart ((takeWord hword).bind ((acceptNone (hvalue ▸ nofun)).bind
    (hcondition.bind ((accept hthen nofun).bind (.pure ()))))) hnewline hbody

theorem Reads.elseClause (h : c.tokens.Spells i PartKind.elsePart.opening)
    (hbody : BodyRounds c (i + 2) e bs statement) :
    Reads c i e [] (c.tokens.node .elseClause i e (c.tokens.tokenLeaf i :: bs))
      (Production.elseClause statement) := by
  obtain ⟨hword, hnewline, -⟩ := h
  exact .blockPart (takeWord hword) hnewline hbody

theorem Reads.caseBlock (hdepth : c.env.depth + 2 < c.env.limit)
    (h : c.tokens.Spells i PartKind.case.opening) (hbody : BodyRounds c (i + 3) e bs statement) :
    Reads c i e [] (PartKind.case.node c.tokens i e bs) (Production.caseBlock statement) := by
  obtain ⟨hword, hvalue, hnewline, -⟩ := h
  have hclause : Reads c (i + 1) (i + 2) [_] () (Production.child Production.caseClause.nested) :=
    (Reads.caseClause (c := c.nested) hdepth ⟨hvalue, hnewline, trivial⟩).nested.child
  exact .blockPart ((takeWord hword).bind (hclause.commaSeparated (hnewline ▸ nofun)))
    hnewline hbody

theorem Reads.caseElseBlock (h : c.tokens.Spells i PartKind.caseElse.opening)
    (hbody : BodyRounds c (i + 3) e bs statement) :
    Reads c i e [] (PartKind.caseElse.node c.tokens i e bs)
    (Production.caseElseBlock statement) := by
  obtain ⟨hcase, helse, hnewline, -⟩ := h
  exact .blockPart ((takeWord hcase).bind (takeWord helse)) hnewline hbody

theorem Reads.catchBlock (h : c.tokens.Spells i PartKind.catchPart.opening)
    (hbody : BodyRounds c (i + 3) e bs statement) :
    Reads c i e [] (PartKind.catchPart.node c.tokens i e bs) (Production.catchBlock statement) := by
  obtain ⟨hword, hname, hnewline, -⟩ := h
  exact .blockPart ((takeWord hword).bind (catchHeader ⟨hname, hnewline, trivial⟩)) hnewline hbody

theorem Reads.finallyBlock (h : c.tokens.Spells i PartKind.finallyPart.opening)
    (hbody : BodyRounds c (i + 2) e bs statement) :
    Reads c i e [] (PartKind.finallyPart.node c.tokens i e bs)
      (Production.finallyBlock statement) := by
  obtain ⟨hword, hnewline, -⟩ := h
  exact .blockPart (takeWord hword) hnewline hbody

/-- A part of a block and the statements in it. -/
theorem Reads.partStep {p : PartKind} (hdepth : c.env.depth + 2 < c.env.limit)
    (h : c.tokens.Spells i p.opening)
    (hbody : BodyRounds c (i + p.opening.length) e bs statement) :
    Reads c i e [p.node c.tokens i e bs] true (Production.partStep statement p.block) := by
  cases p with
  | elseIf => exact .peek h.1 ((elseIfClause (by omega) h hbody).child.bind (.pure true))
  | elsePart =>
    exact .peek h.1 (.peekAhead h.2.1 (.neg nofun
      (((elseClause h hbody).field _).bind (.pure true))))
  | case =>
    exact .atKind h.1 (.pos rfl (.peekAhead h.2.1 (.neg nofun
      ((caseBlock hdepth h hbody).child.bind (.pure true)))))
  | caseElse =>
    exact .atKind h.1 (.pos rfl (.peekAhead h.2.1 (.pos rfl
      ((caseElseBlock h hbody).child.bind (.pure true)))))
  | catchPart => exact .peek h.1 ((catchBlock h hbody).child.bind (.pure true))
  | finallyPart => exact .peek h.1 ((finallyBlock h hbody).child.bind (.pure true))

/-- A part is a round in the reading of the parts of its block. -/
theorem Rounds.part {b : BlockKind} {p : PartKind} {ps : List Node} (hp : p.block = b)
    (hdepth : c.env.depth + 2 < c.env.limit) (h : c.tokens.Spells i p.opening)
    (hbody : BodyRounds c (i + p.opening.length) (i + p.opening.length + m) bs statement)
    (hrest : Rounds c (i + p.opening.length + m) e ps (Production.partStep statement b)) :
    Rounds c i e (p.node c.tokens i (i + p.opening.length + m) bs :: ps)
      (Production.partStep statement b) := by
  subst hp
  have hfirst : c.tokens.kindAt i ≠ .endOfFile ∧ 0 < p.opening.length := by
    cases p <;> exact ⟨h.1 ▸ nofun, Nat.zero_lt_succ _⟩
  exact .more (.partStep hdepth h hbody) (by omega) hfirst.1 hrest

/-- There are no more parts where the block is closed. -/
theorem Reads.noPart {b : BlockKind} (hplain : b.isPlain = false) (hopen : c.IsOpen b.opener)
    (h : c.tokens.Spells i b.closing) :
    Reads c i i [] false (Production.partStep statement b) := by
  have hboundary := b.boundary_of_closing hopen h
  cases b with
  | ifElse | tryCatch => exact .peek h.1 (.pure false)
  | select =>
    exact .notAtKind (h.1 ▸ nofun) (.neg nofun (.look (Looks.test _) hboundary
      (.pos rfl (.pure false))))
  | _ => exact Bool.noConfusion hplain

end

-- ---------------------------------------------------------------------------
-- Blocks with parts
-- ---------------------------------------------------------------------------

section

variable {bs ps : List Node}

/-- A block with parts, and statements of its own in front of them. -/
theorem Reads.partedBlock {b : BlockKind} (hparted : b.isParted = true)
    (hdepth : c.env.depth + 1 < c.env.limit) (hopening : c.tokens.Spells i b.opening)
    (hbody : BodyRounds (c.inside b i) (i + b.opening.length) m bs statement)
    (hparts : Rounds (c.inside b i) m e ps (Production.partStep statement b))
    (hclosing : c.tokens.Spells e b.closing) :
    Reads c i (e + b.closing.length) []
      (c.tokens.node b.rule i (e + b.closing.length)
        (c.tokens.tokenLeaf i :: b.headerNodes c.tokens (i + 1) ++ (bs ++ ps) ++
          wordLeaves c.tokens b.opener.closer e)) (wordStatement statement b.opener) := by
  have hrest : Ends (c.inside b i) m (e + b.closing.length)
      (ps ++ wordLeaves c.tokens b.opener.closer e) (do
        repeatWhile (Production.partStep statement b)
        Production.finishBlock b.opener) :=
    .bind hparts.reads (Ends.closing (c := c.inside b i) hclosing)
  have hchildren (first inner last : List Node) :
      first ++ (inner ++ ps) ++ last = first ++ inner ++ (ps ++ last) := by
    simp only [List.append_assoc]
  rw [hchildren]
  cases b with
  | tryCatch => exact .blockStatement hopening.1 (.pure ()) hopening.2.1 hbody hrest
  | ifElse =>
    obtain ⟨hword, hvalue, hthen, hnewline, -⟩ := hopening
    have hblock : Reads c (i + 3) (e + 3) _ () (do
        Production.openBlock .kwIf
        Production.endStatement
        ifBlock statement) :=
      .openBlock (.bind (endLine hnewline) (.bind hbody.reads hrest))
    have hexpect : Reads c i (i + 1) _ () (expectWord .kwIf) := expect hword nofun
    have hcondition := (operand hdepth hvalue hthen rfl rfl).field .condition
    refine .peekAhead hvalue (.neg nofun (.node (hexpect.bind (hcondition.bind
      ((accept hthen nofun).bind (.pos rfl (.peek hnewline (.pos rfl hblock)))))) ?_))
    rw [List.append_assoc]
    rfl
  | _ => exact Bool.noConfusion hparted

/-- A choice among cases. -/
theorem Reads.selectBlock (hdepth : c.env.depth + 1 < c.env.limit)
    (hopening : c.tokens.Spells i BlockKind.select.opening)
    (hparts : Rounds (c.inside .select i) (i + 4) e ps (Production.partStep statement .select))
    (hclosing : c.tokens.Spells e BlockKind.select.closing) :
    Reads c i (e + 3) []
      (c.tokens.node .selectCaseStatement i (e + 3)
        (c.tokens.tokenLeaf i :: BlockKind.select.headerNodes c.tokens (i + 1) ++ ps ++
          wordLeaves c.tokens Keyword.kwSelect.closer e)) (wordStatement statement .kwSelect) := by
  obtain ⟨hword, hcase, hvalue, hnewline, -⟩ := hopening
  have hselector :=
    (operand (c := c.opening .kwSelect i) hdepth hvalue hnewline rfl rfl).field .selector
  refine .node (.openBlock (.bind (takeWord hword) (.bind (accept hcase nofun) (.bind hselector
    (.bind (endLine hnewline) (.bind hparts.reads
      (Ends.closing (c := c.opening .kwSelect i) hclosing))))))) ?_
  rw [List.append_assoc]
  rfl

end

end Production

-- ---------------------------------------------------------------------------
-- Nests are read as what they are
-- ---------------------------------------------------------------------------

/-- The tokens of a block: its first line, what is in it, and its last line. -/
theorem TokenStream.spells_block {t : TokenStream} {i : Nat} {ks ls ms : List TokenKind} :
    t.Spells i (ks ++ ls ++ ms) ↔
      t.Spells i ks ∧ t.Spells (i + ks.length) ls ∧ t.Spells (i + ks.length + ls.length) ms := by
  rw [spells_append, spells_append, List.length_append, Nat.add_assoc, and_assoc]

/-- The tokens of a block with parts; what follows its body is parts or its last line. -/
theorem TokenStream.spells_parted {t : TokenStream} {i : Nat} {ks ls ps ms : List TokenKind} :
    t.Spells i (ks ++ (ls ++ ps) ++ ms) ↔
      t.Spells i ks ∧ t.Spells (i + ks.length) ls ∧
        t.Spells (i + ks.length + ls.length) (ps ++ ms) := by
  rw [← List.append_assoc, List.append_assoc, spells_block]

theorem ClosedStatement.length_kinds_pos (x : ClosedStatement) : 0 < x.kinds.length := by
  cases x <;> exact Nat.zero_lt_succ _

theorem ClosedStatement.opensStatement {t : TokenStream} {i : Nat} {x : ClosedStatement}
    (h : t.Spells i x.kinds) : (t.kindAt i).opensStatement = true := by
  cases x with
  | plain b | parted b =>
    rw [h.1]
    cases b <;> rfl
  | _ =>
    rw [h.1]
    rfl

mutual

theorem ClosedStatement.reads (x : ClosedStatement) {room i : Nat} {c : Scope}
    (hroom : x.nesting < room) (hdepth : c.env.depth + x.nesting + 3 ≤ c.env.limit)
    (h : c.tokens.Spells i x.kinds) :
    Production.Reads c i (i + x.kinds.length) [] (x.node c.tokens i)
      (Production.statementOf (Production.statementKindUpTo room)) := by
  obtain ⟨room, rfl⟩ := Nat.exists_eq_succ_of_ne_zero (Nat.ne_zero_of_lt hroom)
  have hcheck : c.env.depth < c.env.limit := by omega
  match x with
  | .assignment =>
    exact .statementOf ((Production.Reads.checkDepth hcheck).bind
      (.peek h.1 (.assignment (by omega) h))) rfl
  | .returning => exact .statementByWord hcheck h.1 rfl (.returning h)
  | .plain b hplain body =>
    rw [ClosedStatement.nesting] at hroom hdepth
    rw [ClosedStatement.kinds, TokenStream.spells_block] at h
    obtain ⟨hopening, hbody, hclosing⟩ := h
    have hrounds := ClosedStatement.rounds body (c := c.inside b i) (fun _ => rfl)
      (Nat.le_of_lt_succ hroom) hdepth hbody (b.boundary_of_closing (c.isOpen_inside b i) hclosing)
    rw [ClosedStatement.kinds, List.length_append, List.length_append, ← Nat.add_assoc,
      ← Nat.add_assoc]
    exact .statementByWord hcheck hopening.1 rfl
      (.plainBlock hplain (by omega) hopening hrounds hclosing)
  | .parted b hparted body parts =>
    rw [ClosedStatement.nesting] at hroom hdepth
    rw [ClosedStatement.kinds, TokenStream.spells_parted] at h
    obtain ⟨hopening, hbody, hrest⟩ := h
    have hplain := BlockKind.isPlain_of_isParted hparted
    have hopen := c.isOpen_inside b i
    have hbodyRounds := ClosedStatement.rounds body (c := c.inside b i) (fun _ => rfl)
      (show _ ≤ room by omega) (show c.env.depth + _ + 3 ≤ c.env.limit by omega) hbody
      (parts.boundary hplain hopen hrest)
    have hpartRounds := ClosedParts.rounds parts (c := c.inside b i) hplain hopen
      (show _ ≤ room by omega) (show c.env.depth + _ + 3 ≤ c.env.limit by omega) hrest
    rw [ClosedStatement.kinds, List.length_append, List.length_append, List.length_append,
      ← Nat.add_assoc, ← Nat.add_assoc, ← Nat.add_assoc]
    have hclosing := (TokenStream.spells_append.1 hrest).2
    exact .statementByWord hcheck hopening.1 rfl
      (.partedBlock hparted (by omega) hopening hbodyRounds hpartRounds hclosing)
  | .select parts =>
    rw [ClosedStatement.nesting] at hroom hdepth
    rw [ClosedStatement.kinds, List.append_assoc, TokenStream.spells_append] at h
    obtain ⟨hopening, hrest⟩ := h
    have hpartRounds := ClosedParts.rounds parts (b := .select) (c := c.inside .select i) rfl
      (c.isOpen_inside .select i) (Nat.le_of_lt_succ hroom) hdepth hrest
    rw [ClosedStatement.kinds, List.length_append, List.length_append, ← Nat.add_assoc,
      ← Nat.add_assoc]
    have hclosing := (TokenStream.spells_append.1 hrest).2
    exact .statementByWord hcheck hopening.1 rfl
      (.selectBlock (by omega) hopening hpartRounds hclosing)

theorem ClosedStatement.rounds (xs : List ClosedStatement) {statement : Parse Node}
    {room i : Nat} {c : Scope}
    (hstatement : ∀ s, statement c.nested.env s =
      Production.statementOf (Production.statementKindUpTo room) c.nested.env s)
    (hroom : ClosedStatement.levelsOf xs ≤ room)
    (hdepth : c.env.depth + ClosedStatement.levelsOf xs + 3 ≤ c.env.limit)
    (h : c.tokens.Spells i (ClosedStatement.kindsOf xs))
    (hend : c.Boundary (i + (ClosedStatement.kindsOf xs).length)) :
    Production.BodyRounds c i (i + (ClosedStatement.kindsOf xs).length)
      (ClosedStatement.nodesOf c.tokens i xs) statement := by
  match xs with
  | [] => exact .stop hend
  | x :: rest =>
    rw [ClosedStatement.levelsOf] at hroom hdepth
    rw [ClosedStatement.kindsOf, TokenStream.spells_append] at h
    rw [ClosedStatement.kindsOf, List.length_append, ← Nat.add_assoc] at hend ⊢
    have hdeeper : c.nested.env.depth + x.nesting + 3 ≤ c.nested.env.limit := by
      show c.env.depth + 1 + _ + 3 ≤ c.env.limit
      omega
    have hfirst :=
      ClosedStatement.reads x (c := c.nested) (show x.nesting < room by omega) hdeeper h.1
    exact .more (ClosedStatement.opensStatement h.1) (Nat.lt_add_of_pos_right x.length_kinds_pos)
      (fun s hs => (hstatement s).trans (hfirst s hs))
      (ClosedStatement.rounds rest hstatement (by omega) (by omega) h.2 hend)

theorem ClosedParts.rounds (parts : ClosedParts) {b : BlockKind} {room i : Nat} {c : Scope}
    (hplain : b.isPlain = false) (hopen : c.IsOpen b.opener) (hroom : parts.levels ≤ room)
    (hdepth : c.env.depth + parts.levels + 3 ≤ c.env.limit)
    (h : c.tokens.Spells i (parts.kinds b ++ b.closing)) :
    Production.Rounds c i (i + (parts.kinds b).length) (parts.nodes c.tokens b i)
      (Production.partStep (Production.statementOf (Production.statementKindUpTo room)) b) := by
  obtain ⟨hpart, hlast⟩ := BlockKind.block_part hplain
  match parts with
  | .none => exact .stop (.noPart hplain hopen h)
  | .last body =>
    rw [ClosedParts.levels] at hroom hdepth
    rw [ClosedParts.kinds, TokenStream.spells_block] at h
    obtain ⟨hopening, hbody, hclosing⟩ := h
    have hbodyRounds := ClosedStatement.rounds body (fun _ => rfl) hroom hdepth hbody
      (b.boundary_of_closing hopen hclosing)
    rw [ClosedParts.kinds, List.length_append, ← Nat.add_assoc]
    exact .part hlast (by omega) hopening hbodyRounds (.stop (.noPart hplain hopen hclosing))
  | .part body rest =>
    rw [ClosedParts.levels] at hroom hdepth
    rw [ClosedParts.kinds, List.append_assoc, TokenStream.spells_block] at h
    obtain ⟨hopening, hbody, hrest⟩ := h
    have hbodyRounds := ClosedStatement.rounds body (fun _ => rfl) (show _ ≤ room by omega)
      (show c.env.depth + _ + 3 ≤ c.env.limit by omega) hbody (rest.boundary hplain hopen hrest)
    have hrestRounds := ClosedParts.rounds rest hplain hopen (show _ ≤ room by omega)
      (show c.env.depth + _ + 3 ≤ c.env.limit by omega) hrest
    rw [ClosedParts.kinds, List.length_append, List.length_append, ← Nat.add_assoc,
      ← Nat.add_assoc]
    exact .part hpart (by omega) hopening hbodyRounds hrestRounds

end

-- ---------------------------------------------------------------------------
-- The run over a nest
-- ---------------------------------------------------------------------------

theorem ClosedStatement.levelsOf_le {xs : List ClosedStatement} {n : Nat}
    (h : ∀ x ∈ xs, x.nesting ≤ n) : ClosedStatement.levelsOf xs ≤ n + 1 := by
  induction xs with
  | nil => exact Nat.zero_le _
  | cons x rest ih =>
    obtain ⟨hx, hrest⟩ := List.forall_mem_cons.1 h
    exact Nat.max_le.2 ⟨Nat.succ_le_succ hx, ih hrest⟩

/-- Statements whose blocks are all closed and nest at most `n` deep stand in front of the end of
the text. Reading statements there passes exactly their tokens, attaches exactly their trees, in
which nothing is wrong, and leaves all else as it was, the diagnostics too. -/
theorem statements_closedNest (xs : List ClosedStatement) (n : Nat) (env : Env) (s : State)
    (hnesting : ∀ x ∈ xs, x.nesting ≤ n) (hdepth : env.depth + n + 4 ≤ env.limit)
    (htokens : env.tokens.Spells s.cursor (ClosedStatement.kindsOf xs ++ [.endOfFile])) :
    Production.statements Production.statement env s =
        .ok () { s with
          cursor := s.cursor + (ClosedStatement.kindsOf xs).length
          children := (ClosedStatement.nodesOf env.tokens s.cursor xs).reverse ++ s.children } ∧
      ∀ m ∈ Node.preorders (ClosedStatement.nodesOf env.tokens s.cursor xs), m.flags = {} := by
  obtain ⟨hspelled, hend, -⟩ := TokenStream.spells_append.1 htokens
  have hlevels := ClosedStatement.levelsOf_le hnesting
  have hroom : ClosedStatement.levelsOf xs ≤ env.limit - (env.depth + 1) := by omega
  have hrounds : Production.BodyRounds ⟨env, s.blocks⟩ s.cursor _ _ Production.statement :=
    ClosedStatement.rounds xs (fun _ => rfl) hroom (show env.depth + _ + 3 ≤ env.limit by omega)
      hspelled (Scope.boundary_of_endOfFile hend)
  constructor
  · exact hrounds.reads s ⟨rfl, rfl⟩
  · intro m hm
    obtain ⟨x, hx, hm⟩ := Node.mem_preorders.1 hm
    exact ClosedStatement.isClean_nodes env.tokens xs s.cursor x hx m hm

/-- A loop around a choice, with a loop in the last part of that. -/
def loopAroundChoice : List ClosedStatement :=
  [.plain .whileLoop rfl
    [.parted .ifElse rfl [.assignment] (.part [.returning] (.last [.plain .doLoop rfl []]))]]

/-- A text in which the loop around the choice stands, and nothing else. -/
def choiceText : Env :=
  let text :=
    "While x\nIf a Then\nx = 1\nElseIf b Then\nReturn\nElse\nDo\nLoop\nEnd If\nEnd While\n".toList
  { source := text, tokens := TokenStream.ofText text, limit := 6 }

/-- The loop in the last part of the choice is a child of that part, and the choice one of the other
loop. -/
theorem statements_loopAroundChoice :
    Production.statements Production.statement choiceText {} =
      .ok () { cursor := 29,
               children := ClosedStatement.nodesOf choiceText.tokens 0 loopAroundChoice } := by
  have htokens :
      choiceText.tokens.Spells 0 (ClosedStatement.kindsOf loopAroundChoice ++ [.endOfFile]) := by
    decide +kernel
  exact (statements_closedNest loopAroundChoice 2 choiceText {} (by decide) (by decide) htokens).1

end VisualBasic
