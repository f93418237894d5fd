import VisualBasic.Proofs.Swapping
import VisualBasic.Proofs.LoudStatements
import VisualBasic.Proofs.WideStatements
import VisualBasic.Proofs.OrderedChoice

/-!
# Statements with a colon for a line end

Every statement that ends with the terminator, or has a statement in it that does, is read again.
The ends of statements are where the terminator may be; nothing else in a statement depends on what
it is, but for a single word in front of it, which a colon makes a label.

Main results:

* `Swaps.expressionStatement` — a label, an assignment or a call.
* `Swaps.statementOf` — a statement that may be the one that ends with the terminator.
* `Swaps.statementKindUpTo` — by induction on the levels that are left.
-/

namespace VisualBasic.Production

open State Watch

variable {off : Bool}

namespace Swaps

-- The instance that is found for a production is as large as its text.
set_option synthInstance.maxSize 4000

-- ---------------------------------------------------------------------------
-- Blocks of statements
-- ---------------------------------------------------------------------------

/-- A word that has been seen behind the next token is expected there. -/
theorem run_takeNext {α : Type} {word : Keyword} {env : Env} {s : State}
    (h : env.kindAhead s 1 = .keyword word)
    (f : Unit → Parse α) : (do Production.take; let u ← Production.take; f u) env s =
      (do Production.take; let u ← Production.expectWord word; f u) env s := by
  have hlt : s.cursor + 1 < env.tokens.tokens.size :=
    TokenStream.lt_size_of_kindAt_ne fun hend => by
    cases h.symm.trans hend
  have hnext : env.next s.cursor = s.cursor + 1 := Nat.min_eq_left (Nat.le_of_lt hlt)
  have htaken : ∃ t, Production.take env s = .ok () t ∧ t.cursor = env.next s.cursor :=
    ⟨_, rfl, rfl⟩
  obtain ⟨t, htake, hcursor⟩ := htaken
  have hlook : Looks (Production.atKind (.keyword word)) fun env s => env.kind s == .keyword word :=
    Looks.test _
  have hexpect : Production.expectWord word env t = Production.take env t := by
    unfold Production.expectWord Production.expect
    rw [hlook.run_bind, if_pos]
    rw [Env.kind, hcursor, hnext]
    exact beq_iff_eq.2 h
  simp only [run_bind, htake, hexpect]

section

variable {statement : Parse Node} [hstmt : ∀ off, Swaps off statement]

instance statements : Swaps off (Production.statements statement) := by
  unfold Production.statements
  infer_instance

instance blockStatement {r : Rule} [Holds r.isLine] {opener : Keyword} {header closing : Parse Unit}
    [Swaps false header] [Swaps false closing] :
    Swaps true (Production.blockStatement statement r opener header closing) := by
  unfold Production.blockStatement
  infer_instance

/-- A part of a block, whose header is not read to its end only if there is an error. -/
theorem blockPart {r : Rule} [Holds r.isLine] {header : Parse Unit} {δ : Nat} {strict lands : Bool}
    {spot : Spot} (hheader : Swaps off header) (hflows : Flows δ strict spot lands header) :
    Swaps off (Production.blockPart statement r header) := by
  have hend : Flows δ strict spot false (do header; Production.endStatement) :=
    Phrase.seq hflows Phrase.endStatement
  have hline : Swaps off (do header; Production.endStatement) := inferInstance
  exact nodeOf (bind (recovering hline hend.climbs hend.hushed) inferInstance)

-- ---------------------------------------------------------------------------
-- If
-- ---------------------------------------------------------------------------

instance elseIfClause : Swaps true (Production.elseIfClause statement) := by
  have hheader : Flows 0 false ⟨false, [(· == .keyword .kwElseIf)]⟩ true (do
      Production.take
      let _ ← Production.acceptWord .kwIf
      Production.field .condition (Production.nested Production.expression)
      let _ ← Production.acceptWord .kwThen) :=
    Phrase.seq (Phrase.take (.word rfl)) <| Phrase.seq (Phrase.acceptAny (.word rfl)) <|
      Phrase.seq (Phrase.fieldNested _ Phrase.expression) <|
        Phrase.seq (Phrase.acceptAny (.word rfl)) (.pure rfl)
  exact blockPart quiet hheader

instance elseClause : Swaps true (Production.elseClause statement) := by
  have hheader : Flows 0 false ⟨false, [(· == .keyword .kwElse)]⟩ true Production.take :=
    Phrase.take (.word rfl)
  exact blockPart quiet hheader

instance ifPart : Swaps off (Production.ifPart statement) := by
  refine peek rfl quiet fun kind _ => ?_
  split
  · infer_instance
  · exact peekAhead rfl fun _ => inferInstance
  · exact quiet

instance ifBlock : Swaps off (Production.ifBlock statement) := by
  unfold Production.ifBlock
  infer_instance

instance ifLine : Swaps off (Production.ifLine statement) := by
  have hcount (count : Nat → Nat) : Swaps false
      (modify fun s => { s with singleLineIfs := count s.singleLineIfs } : Parse Unit) := by
    have hdisregards : Disregards true false
        (modify fun s => { s with singleLineIfs := count s.singleLineIfs } : Parse Unit) :=
      .alter (fun _ s => { s with singleLineIfs := count s.singleLineIfs }) (fun _ _ => rfl)
        (fun _ _ => ⟨rfl, rfl, List.suffix_refl _⟩) fun _ => rfl
    exact @quiet _ _ _ _ _ hdisregards fun _ _ => .of_children fun _ _ => rfl
  have hless :
      Swaps false (modify fun s => { s with singleLineIfs := s.singleLineIfs - 1 } : Parse Unit) :=
    hcount (· - 1)
  refine weaken (bind (hcount (· + 1)) fun _ => ?_)
  infer_instance

instance ifStatement : Swaps off (Production.ifStatement statement) := by
  have hbranches (off : Bool) : Swaps off (do
      if (← Production.peek).endsLine then
        Production.openBlock .kwIf
        Production.endStatement
        Production.ifBlock statement
      else Production.ifLine statement) :=
    peek rfl inferInstance fun _ _ => inferInstance
  unfold Production.ifStatement
  infer_instance

-- ---------------------------------------------------------------------------
-- Select Case
-- ---------------------------------------------------------------------------

instance caseBlock : Swaps true (Production.caseBlock statement) := by
  have hclause :
      Flows 0 false (.plain true) true
        (Production.child (Production.nested Production.caseClause)) :=
    Phrase.childNested Phrase.caseClause
  have hheader : Flows 0 false ⟨false, [(· == .keyword .kwCase)]⟩ true (do
      Production.take
      Production.commaSeparated (Production.child (Production.nested Production.caseClause))) :=
    Phrase.seq (Phrase.take (.word rfl)) (Phrase.commaSeparated hclause hclause)
  exact blockPart quiet hheader

omit hstmt in
theorem run_blockPart {r : Rule} {header header' : Parse Unit} {env : Env} {s : State}
    (h : ∀ t, t.cursor = s.cursor → header env t = header' env t) :
    Production.blockPart statement r header env s = Production.blockPart statement r
      header' env s := by
  have hline := h { s with children := [], isPartial := false } rfl
  simp only [Production.blockPart, Production.node, Parse.construct_eq, Production.recovering,
    run_bind, hline]

/-- The word `Else` is known to be there. -/
def caseElseKnown (statement : Parse Node) : Parse Node :=
  Production.blockPart statement .caseElseBlock do
    Production.take
    Production.expectWord .kwElse

omit hstmt in
theorem run_caseElseBlock {env : Env} {s : State} (h : env.kindAhead s 1 = .keyword .kwElse) :
    Production.caseElseBlock statement env s = caseElseKnown statement env s :=
  run_blockPart fun t ht => by
    have hahead : env.kindAhead t 1 = .keyword .kwElse := by
      rw [Env.kindAhead, ht]
      exact h
    have hwords := run_takeNext hahead fun u => Pure.pure u
    simpa only [bind_pure] using hwords

instance selectPart : Swaps off (Production.selectPart statement) := by
  have hwords : Flows 0 false ⟨false, [(· == .keyword .kwCase)]⟩ true (do
      Production.take
      Production.expectWord .kwElse) :=
    Phrase.seq (Phrase.take (.word rfl)) (Phrase.expectWord (.word rfl))
  have helse : Swaps true (caseElseKnown statement) := blockPart quiet hwords
  have hcase : (do
      if (← Production.peekAhead 1) == .keyword .kwElse then
        Production.child (Production.caseElseBlock statement)
      else Production.child (Production.caseBlock statement)
      return true : Parse Bool) = (do
      if (← Production.peekAhead 1) == .keyword .kwElse
          then Production.child (caseElseKnown statement)
      else Production.child (Production.caseBlock statement)
      return true) := by
    funext env s
    rw [(Looks.peekAhead 1).run_bind, (Looks.peekAhead 1).run_bind]
    split
    · have hrun := @run_caseElseBlock statement _ _ (beq_iff_eq.1 ‹_›)
      simp only [Production.child, run_bind, hrun]
    · rfl
  have hcaseSwaps : Swaps true (do
      if (← Production.peekAhead 1) == .keyword .kwElse then
        Production.child (Production.caseElseBlock statement)
      else Production.child (Production.caseBlock statement)
      return true : Parse Bool) := by
    rw [hcase]
    exact peekAhead rfl fun _ => inferInstance
  unfold Production.selectPart
  infer_instance

instance selectStatement : Swaps true (Production.selectStatement statement) := by
  unfold Production.selectStatement
  infer_instance

-- ---------------------------------------------------------------------------
-- Loops
-- ---------------------------------------------------------------------------

instance whileStatement : Swaps true (Production.whileStatement statement) := blockStatement

instance doStatement : Swaps true (Production.doStatement statement) := by
  have hcondition : Flows 0 false (.plain true) false (do
      Production.optionalLoopCondition
      Production.endStatement) :=
    Phrase.seq Phrase.loopCondition Phrase.endStatement
  have hclosing : Swaps false (Production.recovering do
      Production.optionalLoopCondition
      Production.endStatement) :=
    recovering quiet hcondition.climbs hcondition.hushed
  unfold Production.doStatement
  infer_instance

omit hstmt in
instance finishNext : Swaps off Production.finishNext := by
  have hend : Swaps false (do
      if (← Production.peek).isNameLike then Production.child (Production.ruleLeaf .«variable»)
      Production.recovering Production.endStatement) :=
    peek rfl inferInstance fun _ _ => inferInstance
  unfold Production.finishNext
  infer_instance

instance forStatement : Swaps true (Production.forStatement statement) := by
  unfold Production.forStatement
  infer_instance

/-- The word `Each` is known to be there. -/
def forEachKnown (statement : Parse Node) : Parse Node :=
  Production.blockStatement statement .forEachStatement .kwFor
    (do
      Production.expectWord .kwEach
      Production.field .«variable» Production.identifier
      Production.optionalAsClause
      Production.expectWord .kwIn
      Production.field .collection (Production.nested Production.expression))
    Production.finishNext

omit hstmt in
theorem run_forEachStatement {env : Env} {s : State} (h : env.kindAhead s 1 = .keyword .kwEach) :
    Production.forEachStatement statement env s = forEachKnown statement env s := by
  have hbody (f : Unit → Parse Unit) (t : State) (ht : t.cursor = s.cursor) :
      (do Production.take; let u ← Production.take; f u) env t =
        (do Production.take; let u ← Production.expectWord .kwEach; f u) env t := by
    refine run_takeNext ?_ f
    rw [Env.kindAhead, ht]
    exact h
  have hopened : ∃ t : State,
      Production.openBlock .kwFor env { s with children := [], isPartial := false } =
        .ok () t ∧
      t.cursor = s.cursor := ⟨_, rfl, rfl⟩
  obtain ⟨t, hopen, ht⟩ := hopened
  unfold Production.forEachStatement forEachKnown Production.blockStatement Production.node
  rw [Parse.construct_eq, Parse.construct_eq]
  simp only [bind_assoc]
  rw [run_bind, run_bind, hopen]
  dsimp only
  rw [hbody _ t ht]

instance swapsForEachKnown : Swaps true (forEachKnown statement) := blockStatement

-- ---------------------------------------------------------------------------
-- Try
-- ---------------------------------------------------------------------------

instance catchBlock : Swaps true (Production.catchBlock statement) := by
  have hheader : Flows 0 false ⟨false, [(· == .keyword .kwCatch)]⟩ true (do
      Production.take
      Production.catchHeader) :=
    Phrase.seq (Phrase.take (.word rfl)) Phrase.catchHeader
  exact blockPart quiet hheader

instance finallyBlock : Swaps true (Production.finallyBlock statement) := by
  have hheader : Flows 0 false ⟨false, [(· == .keyword .kwFinally)]⟩ true Production.take :=
    Phrase.take (.word rfl)
  exact blockPart quiet hheader

instance tryPart : Swaps off (Production.tryPart statement) := by
  refine peek rfl quiet fun kind _ => ?_
  split
  · infer_instance
  · infer_instance
  · exact quiet

instance tryStatement : Swaps true (Production.tryStatement statement) := by
  unfold Production.tryStatement
  infer_instance

-- ---------------------------------------------------------------------------
-- With, Using, SyncLock
-- ---------------------------------------------------------------------------

instance withStatement : Swaps true (Production.withStatement statement) := by
  unfold Production.withStatement
  infer_instance

instance usingStatement : Swaps true (Production.usingStatement statement) := by
  unfold Production.usingStatement
  infer_instance

instance syncLockStatement : Swaps true (Production.syncLockStatement statement) := by
  unfold Production.syncLockStatement
  infer_instance

end

-- ---------------------------------------------------------------------------
-- Choices
-- ---------------------------------------------------------------------------

/-- A rule that applies where it fits still does with a colon for the line end. -/
def Keeps (post : TokenStream → TokenStream → Nat → Prop) (off : Bool) (x : Alternative) : Prop :=
  ∀ {k env env' s n s'}, Crossing k env env' s [n] s' → (off = true → s.cursor ≠ k) →
    post env.tokens env'.tokens s'.cursor → Succeeds x env s n s' → x.viable env' s = true

/-- Where the first rule does not fit and the second does, the first does not fit with a colon for
the line end either. -/
def GivesWay (post : TokenStream → TokenStream → Nat → Prop) (off : Bool)
    (x y : Alternative) : Prop :=
  ∀ {k env env' s n s'}, Crossing k env env' s [n] s' → (off = true → s.cursor ≠ k) →
    post env.tokens env'.tokens s'.cursor → y.production env s = .ok n s' →
    y.production env' s = .ok n s' →
    (∀ m t, ¬Succeeds x env s m t) → ∀ m t, ¬Succeeds x env' s m t

/-- What is chosen is chosen again if no rule in front of it fits then. -/
theorem resolve {post : TokenStream → TokenStream → Nat → Prop} {a : Ambiguity}
    {alternatives : List Alternative}
    (hall : ∀ x ∈ alternatives, SwapsTo post off x.production)
    (hkeeps : ∀ x ∈ alternatives, Keeps post off x)
    (hways : alternatives.Pairwise (GivesWay post off)) :
    SwapsTo post off (Production.resolve a alternatives) := by
  have hchosen {env : Env} {s s' : State} {n : Node}
      (hrun : Production.resolve a alternatives env s = .ok n s') :
      env.depth < env.limit ∧ Settles a alternatives env s (.ok n s') := by
    obtain ⟨_, s₁, hcheck, hfit⟩ := bind_eq_ok hrun
    have hdepth : env.depth < env.limit := (Goes.of_run hcheck).checkDepth.1
    rw [resolve_of_lt alternatives hdepth] at hrun
    exact ⟨hdepth, Settles.iff_firstFit.2 hrun⟩
  refine ⟨fun hs hrun => ?_, fun ht hk hs hrun => ?_, fun h hrun hoff hpost => ?_⟩
  all_goals
    obtain ⟨hdepth, hsettles⟩ := hchosen hrun
    cases hsettles with | chosen hsplit hbefore hx => ?_
    rw [hsplit] at hall hkeeps hways
    have hswaps := hall _ (List.mem_append_right _ List.mem_cons_self)
  · exact hswaps.gone hs hx.run
  · exact hswaps.located ht hk hs hx.run
  · have hrun' := hswaps.same h hx.run hoff hpost
    have hviable := hkeeps _ (List.mem_append_right _ List.mem_cons_self) h hoff hpost hx
    rw [resolve_of_lt alternatives (by rwa [h.limit, h.depth])]
    refine Settles.firstFit_eq (.chosen hsplit (fun y hy => ?_) ⟨hviable, hrun'⟩)
    exact (List.pairwise_append.1 hways).2.2 y hy _ List.mem_cons_self h hoff hpost hx.run hrun'
      (hbefore y hy)

-- ---------------------------------------------------------------------------
-- Labels, assignments and calls
-- ---------------------------------------------------------------------------

/-- A colon that is read does not stand where the line end does. -/
instance expectColon : Swaps off (Production.expectMark .colon) := by
  have hlook : Looks (Production.atKind (.mark .colon)) fun env s => env.kind s == .mark .colon :=
    Looks.test _
  have htake : Swaps true Production.take := quiet
  have hexpect {env : Env} {s : State} (h : env.kind s = .mark .colon) :
      Production.expectMark .colon env s = Production.take env s := by
    unfold Production.expectMark Production.expect
    rw [hlook.run_bind, if_pos (beq_iff_eq.2 h)]
  have htaken {env : Env} {s s' : State} {a : Unit}
      (hrun : Production.expectMark .colon env s = .ok a s') :
      env.kind s = .mark .colon ∧ Production.take env s = .ok a s' := by
    have hkind := (run_ifTake hrun).1
    exact ⟨hkind, hexpect hkind ▸ hrun⟩
  refine ⟨fun hs hrun => htake.gone hs (htaken hrun).2,
    fun ht hk hs hrun => htake.located ht hk hs (htaken hrun).2,
    fun {k env env' s a s'} h hrun _ hpost => ?_⟩
  obtain ⟨hkind, hrun⟩ := htaken hrun
  have hne : s.cursor ≠ k := by
    rintro rfl
    cases hkind.symm.trans h.newline
  rw [hexpect ((h.kind hne).trans hkind)]
  exact htake.same h hrun (fun _ => hne) hpost

instance labelStatement : Swaps off Production.labelStatement := by
  unfold Production.labelStatement
  infer_instance

/-- An assignment does not end on the line of its first word. -/
theorem lt_of_assignment {env : Env} {s s' : State} {n : Node}
    (hk : env.tokens.kindAt (s.cursor + 1) = .newline)
    (hs : s.cursor ≤ env.tokens.tokens.size)
    (hrun : Production.assignmentStatement env s = .ok n s') :
    s.cursor + 2 < s'.cursor := by
  obtain ⟨s₁, hbody, -, rfl⟩ := construct_eq_finish hrun
  obtain ⟨_, s₂, hcontent, hend⟩ := bind_eq_ok hbody
  obtain ⟨_, s₃, hleft, hvalue⟩ := bind_eq_ok hcontent
  have hbegin : ({ s with children := [], isPartial := false } : State).cursor ≤
      env.tokens.tokens.size := hs
  have htarget := Steps.field .left Builds.leftHandSide.nested env _ (.zero hbegin)
  rw [hleft] at htarget
  have hlt : s.cursor < s₃.cursor := htarget.1 rfl
  have hvalued : Disregards true true (do
      Production.field .operator Production.tokenLeaf
      Production.field .right (Production.nested Production.expression)) := inferInstance
  have hended : Disregards true true Production.endStatement := inferInstance
  rw [Looks.peek.run_bind] at hvalue
  split at hvalue
  case isFalse =>
    obtain ⟨_, _, hfail, -⟩ := bind_eq_ok hvalue
    cases hfail
  case isTrue hoperator =>
    have hbehind : s₃.cursor ≠ s.cursor + 1 := by
      intro hcursor
      rw [Env.kind, hcursor, hk] at hoperator
      cases hoperator
    have hsize : s₃.cursor < env.tokens.tokens.size :=
      TokenStream.lt_size_of_kindAt_ne fun hend => by
      rw [Env.kind, hend] at hoperator
      cases hoperator
    obtain ⟨_, s₄, hread, hright⟩ := bind_eq_ok hvalue
    have hnext : s₄.cursor = env.next s₃.cursor := by
      obtain ⟨n, t, hleaf, hattach⟩ := bind_eq_ok hread
      cases hleaf
      cases hattach
      rfl
    rw [Env.next, Nat.min_eq_left hsize] at hnext
    have hright : Later env.tokens s₄ s₂ := by
      have hfield :
          Disregards true false
            (Production.field .right (Production.nested Production.expression)) :=
        inferInstance
      exact (hfield.gone (hnext ▸ hsize) hright).toLater
    have hmoved := (hended.gone hright.le_size hend).cursor
    have hmoved' := hright.cursor
    dsimp only
    omega

/-- A call with a line end behind its first word does not end in front of that line end. -/
theorem le_of_call {env : Env} {s s' : State} {n : Node}
    (hk : env.tokens.kindAt (s.cursor + 1) = .newline)
    (hs : s.cursor ≤ env.tokens.tokens.size) (hrun : Production.callStatement env s = .ok n s') :
    s.cursor + 2 ≤ s'.cursor := by
  obtain ⟨s₁, hbody, -, rfl⟩ := construct_eq_finish hrun
  obtain ⟨_, s₂, hcontent, hend⟩ := bind_eq_ok hbody
  have hbegin : ({ s with children := [], isPartial := false } : State).cursor ≤
      env.tokens.tokens.size := hs
  have hcall : Steps .quiet 0 true (do
      let _ ← Production.acceptWord .kwCall
      Production.child (Production.nested Production.expression)) :=
    Steps.bind (Steps.acceptWord .kwCall) fun _ => Steps.child Builds.expression.nested
  have hmoved := hcall env _ (.zero hbegin)
  rw [hcontent] at hmoved
  have hlt : s.cursor < s₂.cursor := hmoved.1 rfl
  show s.cursor + 2 ≤ s₁.cursor
  by_cases hcursor : s₂.cursor = s.cursor + 1
  · have hkind : env.kind s₂ = .newline := by
      rw [Env.kind, hcursor, hk]
    have hsize : s₂.cursor < env.tokens.tokens.size :=
      TokenStream.lt_size_of_kindAt_ne fun hend => by
      cases hkind.symm.trans hend
    unfold Production.endStatement at hend
    rw [Looks.peek.run_bind, hkind] at hend
    cases hend
    have hnext : env.next s₂.cursor = s.cursor + 2 := by
      rw [Env.next, Nat.min_eq_left hsize, hcursor]
    exact Nat.le_of_eq hnext.symm
  · have hsize : s₂.cursor ≤ env.tokens.tokens.size := by
      have hcontent' : Disregards true false (do
          let _ ← Production.acceptWord .kwCall
          Production.child (Production.nested Production.expression)) := inferInstance
      exact (hcontent'.gone hbegin hcontent).le_size
    have hended : Disregards true true Production.endStatement := inferInstance
    have hle := (hended.gone hsize hend).cursor
    omega

/-- A call of a single word does not end with the terminator. -/
theorem not_call_of_loneWord {k : Nat} {env : Env} {s s' : State} {n : Node} {ns : List Node}
    (hlone : (env.tokens.loneWord k).Clears (n :: ns)) (hk : s.cursor + 1 = k)
    (hname : (env.kind s).isNameLike = true) (hcursor : s'.cursor = k + 1) :
    Production.callStatement env s ≠ .ok n s' := by
  intro hrun
  obtain ⟨s₁, -, rfl, rfl⟩ := construct_eq_finish hrun
  have hstop : (env.span s.cursor s₁.cursor).stop = (env.tokens.get k).span.stop := by
    rw [show s₁.cursor = k + 1 from hcursor, Env.span, if_pos (by omega)]
    rfl
  have hnot := (clears_cons.1 hlone).1.of_node.2 ⟨_, rfl, rfl⟩ hstop hk
  cases hname.symm.trans hnot

/-- The rule of labels, as `expressionStatement` has it. -/
def labelRule : Alternative where
  viable env s := (env.kind s).isNameLike && env.kindAhead s 1 == .mark .colon
  production := Production.labelStatement

theorem succeeds_label {env : Env} {s : State} (h : labelRule.viable env s = true) :
    ∃ n s', Succeeds labelRule env s n s' := by
  have hlook := h
  simp only [labelRule, Bool.and_eq_true, beq_iff_eq] at hlook
  obtain ⟨s₁, hlabel⟩ := leads_labelStatement hlook.1 hlook.2
  obtain ⟨n, s', hrun, -⟩ := hlabel s (.refl s)
  exact ⟨n, s', h, hrun⟩

/-- A word in front of a colon is a label, whichever terminator is behind another word. -/
theorem viable_label {k : Nat} {env env' : Env} {s : State} (henv : env.Swapped k env')
    (hs : s.cursor ≠ k)
    (hnext : (env.kind s).isNameLike = true → s.cursor + 1 ≠ k) :
    labelRule.viable env' s = labelRule.viable env s := by
  show ((env'.kind s).isNameLike && env'.kindAhead s 1 == .mark .colon) = _
  rw [henv.kind hs]
  cases hname : (env.kind s).isNameLike with
  | false => simp only [labelRule, hname, Bool.false_and]
  | true => rw [Env.kindAhead, henv.tokens.kindAt _ (hnext hname), ← hname]; rfl

/-- The label gives way to what does not end with the first line end behind its word. -/
theorem labelGivesWay {x : Alternative}
    (h : ∀ {k env env' s n s'}, Crossing k env env' s [n] s' → x.production env s = .ok n s' →
      (env.kind s).isNameLike = true → s.cursor + 1 ≠ k) : GivesWay Always true labelRule x := by
  intro k env env' s n s' hcrossing hoff _ hx _ hfails m t hlabel
  have hsame := viable_label hcrossing.toSwapped (hoff rfl) (h hcrossing hx)
  obtain ⟨m', t', hfits⟩ := succeeds_label (hsame.symm.trans hlabel.viable)
  exact hfails m' t' hfits

instance yieldsCall {t : TokenStream} {k : Nat} : Yields (t.ending k) Production.callStatement :=
  Yields.callUnwatched

/-- What is a call in both streams is an assignment in neither, if it is none in the one. -/
theorem assignmentGivesWay : GivesWay Always true { production := Production.assignmentStatement }
    { production := Production.callStatement } := by
  intro k env env' s n s' h _ _ hcall hcall' hfails m t hassignment
  have hleads := leads_assignment_of_call (.refl env') (.of_run hcall') (.of_run hassignment.run)
  obtain ⟨x, s₁, hrun, hplace⟩ := hleads s (.refl s)
  have hassigns : Disregards true false Production.assignmentStatement := inferInstance
  have hs : s.cursor ≤ env'.tokens.tokens.size := by
    rw [h.tokens.size]
    exact h.le_size
  refine hfails x s₁ ⟨rfl, hassigns.same h.toExchanged.symm hs hrun nofun ?_⟩
  have hbeside := beside_of_crossing hcall h
  rw [← hplace.cursor] at hbeside
  exact hbeside.imp_right fun h => .inr ⟨rfl, h⟩

instance expressionStatement : Swaps true Production.expressionStatement := by
  have hlabel : Swaps true labelRule.production := labelStatement
  have hassignment : Swaps true Production.assignmentStatement := quiet
  have hcall : Swaps true Production.callStatement := quiet
  have hkeeps : Keeps Always true labelRule := by
    intro k env env' s n s' h hoff _ hfits
    refine (viable_label h.toSwapped (hoff rfl) fun _ => ?_).trans hfits.viable
    rintro rfl
    have hcolon := (Bool.and_eq_true_iff.1 hfits.viable).2
    rw [Env.kindAhead, h.newline] at hcolon
    cases hcolon
  have hbeforeAssignment :
      GivesWay Always true labelRule { production := Production.assignmentStatement } := by
    refine labelGivesWay fun h hrun _ => ?_
    rintro rfl
    have hlt := lt_of_assignment h.newline h.le_size hrun
    have hbeside := beside_of_crossing hrun h
    omega
  have hbeforeCall : GivesWay Always true labelRule { production := Production.callStatement } := by
    refine labelGivesWay fun h hrun hname => ?_
    rintro rfl
    have hle := le_of_call h.newline h.le_size hrun
    have hbeside := beside_of_crossing hrun h
    exact not_call_of_loneWord h.lone rfl hname (by omega) hrun
  refine @resolve _ _ _ [labelRule, { production := Production.assignmentStatement },
    { production := Production.callStatement }] ?_ ?_ ?_
  · simp only [List.forall_mem_cons]
    exact ⟨hlabel, hassignment, hcall, nofun⟩
  · simp only [List.forall_mem_cons]
    exact ⟨hkeeps, fun _ _ _ _ => rfl, fun _ _ _ _ => rfl, nofun⟩
  · simp only [List.pairwise_cons, List.forall_mem_cons]
    exact ⟨⟨hbeforeAssignment, hbeforeCall, nofun⟩, ⟨assignmentGivesWay, nofun⟩, nofun, .nil⟩

-- ---------------------------------------------------------------------------
-- Statements
-- ---------------------------------------------------------------------------

section

variable {statement : Parse Node} [hstmt : ∀ off, Swaps off statement]

/-- A call of a choice between values gives way to an `If`. -/
instance ifChoice : Swaps true (Production.resolve .ifStatement
    [{ production := Production.callStatement },
      { production := Production.ifStatement statement }]) := by
  have hcall : Swaps true Production.callStatement := quiet
  have hif : Swaps true (Production.ifStatement statement) := inferInstance
  have hway : GivesWay Always true { production := Production.callStatement }
      { production := Production.ifStatement statement } :=
    fun _ _ _ _ hrun _ _ _ hfits => not_call_of_ifStatement (.refl _) (.of_run hrun)
    (.of_run hfits.run)
  refine resolve ?_ ?_ ?_
  · simp only [List.forall_mem_cons]
    exact ⟨hcall, hif, nofun⟩
  · simp only [List.forall_mem_cons]
    exact ⟨fun _ _ _ _ => rfl, fun _ _ _ _ => rfl, nofun⟩
  · simp only [List.pairwise_cons, List.forall_mem_cons]
    exact ⟨⟨hway, nofun⟩, nofun, .nil⟩

/-- Both loops that `For` announces. -/
instance anyFor : Swaps true (do
    if (← Production.peekAhead 1) == .keyword .kwEach then Production.forEachStatement statement
    else Production.forStatement statement : Parse Node) := by
  have hknown : (do
      if (← Production.peekAhead 1) == .keyword .kwEach then Production.forEachStatement statement
      else Production.forStatement statement : Parse Node) = (do
      if (← Production.peekAhead 1) == .keyword .kwEach then forEachKnown statement
      else Production.forStatement statement) := by
    funext env s
    rw [(Looks.peekAhead 1).run_bind, (Looks.peekAhead 1).run_bind]
    split
    · exact run_forEachStatement (beq_iff_eq.1 ‹_›)
    · rfl
  rw [hknown]
  exact peekAhead rfl fun _ => inferInstance

instance wordStatement {word : Keyword} : Swaps true (Production.wordStatement statement word) := by
  unfold Production.wordStatement
  split
  case h_5 => exact peekAhead rfl fun _ => inferInstance
  all_goals infer_instance

end

/-- Tokens that are read end where the last of them does, and no other token ends there. -/
theorem eq_of_stop_eq {env : Env} (ht : env.tokens.Ordered) {k first cursor : Nat}
    (hk : k < env.tokens.tokens.size) (hlt : first < cursor)
    (hsize : cursor ≤ env.tokens.tokens.size)
    (hstop : (env.span first cursor).stop = (env.tokens.get k).span.stop) : cursor = k + 1 := by
  rw [Env.span, if_pos hlt] at hstop
  have hless {i j : Nat} (hij : i < j) (hj : j < env.tokens.tokens.size) :
      (env.tokens.get i).span.stop < (env.tokens.get j).span.stop :=
    Nat.lt_of_le_of_lt (ht.stop_le_start i j hij (Nat.le_of_lt hj)) (ht.start_lt_stop j hj)
  rcases Nat.lt_trichotomy (cursor - 1) k with h | h | h
  · exact absurd hstop (Nat.ne_of_lt (hless h hk))
  · omega
  · exact absurd hstop (Nat.ne_of_gt (hless h (by omega)))

/-- A statement ends with the terminator exactly if its run does. -/
theorem wrappingStatement {kind : Parse Node} (hkind : Swaps off kind)
    (hbuilds : Builds .loud 0 true kind) :
    Swaps off (kind >>= fun n => Production.wrap .statement n) := by
  have hbuilt {env : Env} {s s' : State} {n : Node} (hs : s.cursor ≤ env.tokens.tokens.size)
      (hrun : kind env s = .ok n s') : s.cursor < s'.cursor ∧ n.info.firstToken = s.cursor := by
    have houtcome := hbuilds env s (.zero hs)
    rw [hrun] at houtcome
    exact ⟨houtcome.1 rfl, houtcome.2.firstToken⟩
  refine ⟨fun hs hrun => ?_, fun {k env s m s'} ht hk hs hrun hcalm hside hclear => ?_,
    fun {k env env' s m s'} h hrun hoff hpost => ?_⟩
  all_goals
    obtain ⟨n, s₁, hfirst, hrest⟩ := bind_eq_ok hrun
    obtain ⟨rfl, rfl⟩ := wrap_eq_ok hrest
  · exact hkind.gone hs hfirst
  · obtain ⟨hlt, hfirstToken⟩ := hbuilt hs hfirst
    have hclears := clears_cons.1 (hkind.located ht hk hs hfirst hcalm hside hclear)
    refine clears_cons.2 ⟨clears_of_children hclears.1 fun _ hstop => ?_, hclears.2⟩
    rw [hfirstToken] at hstop
    have hcursor := eq_of_stop_eq ht hk hlt (hkind.gone hs hfirst).le_size hstop
    omega
  · obtain ⟨hlt, hfirstToken⟩ := hbuilt h.le_size hfirst
    have hsize := (hkind.gone h.le_size hfirst).le_size
    have hlone : (env.tokens.loneWord k).Clears (n :: s'.children) :=
      clears_cons.2 ((clears_cons.1 h.lone).imp_left fun h => h.of_node.1)
    have h₁ : Crossing k env env' s [n] s' := by
      by_cases hstop : (env.span s.cursor s'.cursor).stop = (env.tokens.get k).span.stop
      · have hcursor := eq_of_stop_eq h.ordered h.tokens.lt_size hlt hsize hstop
        exact ⟨h.toSwapped, h.le_size, h.calm, hlone, .inr (.inl (Nat.le_of_eq hcursor))⟩
      · refine h.move rfl rfl h.calm (fun _ => hlone) (fun hclear => hclear) fun _ hclear => ?_
        obtain ⟨hn, hrest⟩ := clears_cons.1 hclear
        refine clears_cons.2 ⟨clears_of_children hn fun _ => ?_, hrest⟩
        rw [hfirstToken]
        exact hstop
    rw [run_bind, hkind.same h₁ hfirst hoff hpost]
    exact (run_wrap h.toExchanged .statement n s').trans hrest

theorem statementOf {kind : Parse Node} (hkind : Swaps off kind)
    (hbuilds : Builds .loud 0 true kind) :
    Swaps off (Production.statementOf kind) := by
  have hwrapped := wrappingStatement hkind hbuilds
  exact orRecover

theorem statementKindUpTo (room : Nat) : Swaps off (Production.statementKindUpTo room) := by
  induction room generalizing off with
  | zero =>
    have hdeep : Swaps off (Production.tooDeep : Parse Node) := quiet
    exact hdeep
  | succ room ih =>
    have hstmt (off : Bool) :
        Swaps off (Production.statementOf (Production.statementKindUpTo room)) :=
      statementOf ih (Builds.statementKindUpTo room)
    have hends : Swaps false (Production.ruleLeaf .emptyStatement) := quiet
    refine bind quiet fun _ => peek rfl hends fun kind hkind => ?_
    split
    · cases hkind
    · cases hkind
    · exact quiet
    · infer_instance
    · infer_instance

instance statement : Swaps off Production.statement := by
  have hroom (room : Nat) :
      Swaps off (Production.statementOf (Production.statementKindUpTo room)) :=
    statementOf (statementKindUpTo room) (Builds.statementKindUpTo room)
  refine of_runs fun env s a s' hrun => ⟨_, hroom env.room, hrun, fun k env' henv hrun' => ?_⟩
  unfold Production.statement
  rw [henv.room]
  exact hrun'

end Swaps

end VisualBasic.Production
