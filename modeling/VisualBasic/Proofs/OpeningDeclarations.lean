import VisualBasic.Proofs.HeedDeclarations
import VisualBasic.Proofs.OpeningStatements

/-!
# The openings of declarations

Types, enumerations, namespaces and the accessors of events open with their word, wherever it
stands. Routines, properties, events and the accessors of properties open with their first token,
which may belong to an attribute on a line above. So a diagnostic names the line of the word that
opens the block, unless the block is one of the latter, or an `If`, and that line is not the one
that was noted.

Main results:

* `Records.sourceFileItems` — the items of a file.
* `openings_traced` — which line is named for a block that lacks its closing line.
* `exists_misplacedOpening` — a source for which it is not that of the word that opens the block.
-/

namespace VisualBasic

namespace Production

open State

namespace Records

variable {pre : Standing} {word : Keyword}

-- ---------------------------------------------------------------------------
-- Blocks that open with their first token
-- ---------------------------------------------------------------------------

/-- A block behind a quiet opening line, with the line of the node's first token. -/
theorem blockOfFront {α : Type} {r : Rule} {m : Manner} {b : Bool} {front : Parse α}
    {opener : α → Keyword} {rest : α → Parse Unit} (hr : r.openingMark = .front)
    (hfront : Steps m 0 b front) [hm : AtMost m .quiet]
    (hopener : ∀ env s a s' (n : Node), s.children = [] → front env s = .ok a s' →
      n.kind = .rule r →
      (∃ ns, n.children = (ns ++ s'.children).reverse) → n.opener? = some (opener a))
    (hrest : ∀ a, RecordsLeaving (opener a) Wherever (rest a)) :
    Records pre itself (Production.node r do
      let line ← Production.currentLine
      let a ← front
      Production.openBlockAt (opener a) line
      rest a) := by
  refine block fun env s s' hs _ hchildren hpartial hrun => ?_
  rw [Looks.currentLine.run_bind] at hrun
  obtain ⟨a, s₁, hline, hbehind⟩ := bind_eq_ok hrun
  obtain ⟨_, s₂, hopen, hbody⟩ := bind_eq_ok hbehind
  cases hopen
  have houtcome := hfront env s (.zero hs)
  rw [hline] at houtcome
  have hshows : Shows env.tokens r (opener a) s.cursor s.cursor s₁.children :=
    shows_front hr fun n hn hnew => hopener env s a s₁ n hchildren hline hn hnew
  have hentered := entered ⟨hchildren, hpartial⟩ (houtcome.2.quiet hm.le) hshows
  exact ⟨opener a, s.cursor, _, hentered, hrest a env _ s' ⟨opener a, env.line s⟩ hentered.le_size
    trivial hentered.isPartial rfl hbody⟩

/-- The statements and the closing line of a routine. -/
theorem routineBody (word : Keyword) : RecordsLeaving word Wherever (do
    Production.statements Production.statement
    Production.finishBlock word) :=
  leaving (statements statement) fun _ => finishBlock word

/-- The line is that of the first token of the declaration, attributes included. -/
theorem routineWithBody {rule : Rule} (hrule : rule = .methodDeclaration ∨
    rule = .constructorDeclaration) :
    Records pre itself (Production.routineWithBody rule) := by
  have hmark : rule.openingMark = .front := by rcases hrule with rfl | rfl <;> rfl
  refine blockOfFront hmark (Steps.routineHeader _)
    (fun env s word s₁ n hchildren hheader hn hnew => ?_)
    routineBody
  have hwordless : s.Wordless := fun c hc => absurd (hchildren ▸ hc) List.not_mem_nil
  obtain ⟨hfirst, -⟩ := firstWord?_of_routineHeader hwordless hheader
  obtain ⟨ns, hns⟩ := hnew
  have hopener : n.opener? = n.children.findSome? Node.word? := by
    rcases hrule with rfl | rfl
    all_goals rw [Node.opener?, hn]
  rw [hopener, hns, List.reverse_append, List.findSome?_append,
    show s₁.children.reverse.findSome? Node.word? = some word from hfirst]
  rfl

/-- Without a body there is no block. -/
theorem routine (a : Ambiguity) {rule : Rule}
    (hrule : rule = .methodDeclaration ∨ rule = .constructorDeclaration) :
    Records pre itself (Production.routine a rule) := by
  have : Holds rule.isPlain := ⟨by rcases hrule with rfl | rfl <;> rfl⟩
  refine resolve _ (List.forall_mem_cons.2 ⟨routineWithBody hrule, List.forall_mem_cons.2 ⟨?_, ?_⟩⟩)
  · exact line Builds.routineWithoutBody
  · exact fun _ hx => absurd hx List.not_mem_nil

/-- A blank line is not partial. -/
theorem blankLine {kind : TokenKind} (h : kind.isTerminator = true) :
    Records (fun t i => pre t i ∧ t.kindAt i = kind) nothing
      (Production.child Production.blankLine) := by
  refine child ((quietNode Builds.blankLine).mono fun t i hat => .of_kindAt_ne ?_)
  rw [hat.2]
  rintro rfl
  cases h

/-- The block of an accessor is opened before its attributes and modifiers are read. -/
theorem accessorOf {rule : Rule} (hr : rule.openingMark = .front)
    (hopener : rule.opener? = some word)
    (hword : ∀ n : Node, n.kind = .rule rule → n.opener? = rule.opener?) :
    Records pre itself (Production.node rule do
      Production.openBlock word
      Production.recovering do
        Production.declarationPrefix
        Production.expectWord word
        if word == .kwSet then Production.optionalParameters
        Production.endStatement
      Production.statements Production.statement
      Production.finishBlock word) := by
  have hheader : Steps .quiet 0 false (do
      Production.declarationPrefix
      Production.expectWord word
      if word == .kwSet then Production.optionalParameters
      Production.endStatement) := by
    refine Steps.bind Steps.declarationPrefix fun _ => Steps.bind (Steps.expectWord word)
      fun _ => ?_
    exact Steps.when Steps.optionalParameters Steps.endStatement.mono
  have hlines : RecordsLeaving word Wherever (do
      Production.recovering do
        Production.declarationPrefix
        Production.expectWord word
        if word == .kwSet then Production.optionalParameters
        Production.endStatement
      Production.statements Production.statement
      Production.finishBlock word) :=
    leaving (partRecovering hheader) fun _ => routineBody word
  refine block fun env s s' hs _ hchildren hpartial hrun => ?_
  obtain ⟨_, s₁, hopen, hbody⟩ := bind_eq_ok hrun
  cases hopen
  have hshows : Shows env.tokens rule word s.cursor s.cursor s.children :=
    shows_front hr fun n hn _ => (hword n hn).trans hopener
  have hentered := entered ⟨hchildren, hpartial⟩ (.refl hs) hshows
  exact ⟨word, s.cursor, _, hentered,
    hlines env _ s' ⟨word, env.line s⟩ hs trivial hpartial rfl hbody⟩

/-- The word behind attributes and modifiers tells which of the two it is. -/
theorem accessor : Records pre itself Production.accessor := by
  refine look Looks.peekBehindPrefix fun kind => ?_
  by_cases hget : (kind == .keyword .kwGet) = true
  · rw [if_pos hget]
    exact accessorOf rfl rfl fun n hn => by rw [Node.opener?, hn]
  · rw [if_neg hget]
    exact accessorOf rfl rfl fun n hn => by rw [Node.opener?, hn]

/-- Accessors, blank lines and error regions; only accessors can be partial. -/
theorem propertyItem : Records Wherever nothing Production.propertyItem := by
  refine peek fun kind => ite (fun hend => round (blankLine hend)) fun _ => ?_
  refine look Looks.peekBehindPrefix fun kind => ite (fun _ => round (child (nested accessor)))
    fun _ => ?_
  refine look (Looks.test _) fun _ => ite (fun _ => pure) fun _ => ?_
  exact round (child (unexpected _))

/-- The line is that of the first token of the declaration. -/
theorem propertyWithAccessors : Records pre itself Production.propertyWithAccessors := by
  have hheader : Steps .quiet 0 true (do
      Production.propertyHeader
      Production.memberClauses
      Production.endStatement) :=
    Steps.propertyHeader.followed (Steps.bind Steps.memberClauses fun _ => Steps.endStatement.mono)
  have hrest : RecordsLeaving .kwProperty Wherever (do
      Production.repeatWhile Production.propertyItem
      Production.finishBlock .kwProperty) :=
    leaving (repeatWhile propertyItem) fun _ => finishBlock .kwProperty
  have hnode := @blockOfFront pre _ .propertyDeclaration _ _ _ _ _ rfl hheader _
    (fun _ _ _ _ n _ _ hn _ => by rw [Node.opener?, hn]) fun _ => hrest
  simp only [bind_assoc] at hnode
  exact hnode

/-- Without accessors there is no block. -/
theorem propertyDeclaration : Records pre itself Production.propertyDeclaration := by
  refine resolve _ (List.forall_mem_cons.2 ⟨propertyWithAccessors, List.forall_mem_cons.2 ⟨?_, ?_⟩⟩)
  · exact line Builds.propertyWithoutAccessors
  · exact fun _ hx => absurd hx List.not_mem_nil

/-- The line is that of the word that opens the accessor. -/
theorem eventAccessor {rule : Rule} (hr : rule.openingMark = .word)
    (hopener : rule.opener? = some word) :
    Records (fun t i => t.kindAt i = .keyword word) itself
      (Production.eventAccessor rule word) := by
  have hheader : Steps .quiet 0 false (do
      Production.optionalParameters
      Production.endStatement) :=
    Steps.bind Steps.optionalParameters fun _ => Steps.endStatement.mono
  have hlines : RecordsLeaving word (fun t i => t.Ready i 0) (do
      Production.recovering do
        Production.optionalParameters
        Production.endStatement
      Production.statements Production.statement
      Production.finishBlock word) :=
    leaving (partRecovering hheader) fun _ => routineBody word
  exact (blockOfWord hr hopener hlines).mono fun _ _ hat => ⟨hat, ready_of_kindAt hat⟩

/-- Accessors, blank lines and error regions. -/
theorem eventItem : Records Wherever nothing Production.eventItem := by
  have haccessor {rule : Rule} {word : Keyword} (hr : rule.openingMark = .word)
      (hopener : rule.opener? = some word) :
      Records (fun t i => Wherever t i ∧ t.kindAt i = .keyword word) nothing
        (Production.child (Production.eventAccessor rule word).nested) :=
    child (nested ((eventAccessor hr hopener).mono fun _ _ hat => hat.2))
  refine peek fun kind => ?_
  split
  case h_1 | h_2 => exact round (blankLine rfl)
  case h_3 | h_4 | h_5 => exact round (haccessor rfl rfl)
  case h_6 =>
    exact look (Looks.test _) fun _ => ite (fun _ => pure) fun _ => round (child (unexpected _))

/-- The line is that of the first token of the declaration. -/
theorem eventWithAccessors : Records pre itself Production.eventWithAccessors :=
  blockOfFront rfl Steps.eventHeader (fun _ _ _ _ n _ _ hn _ => by rw [Node.opener?, hn])
    fun _ => leaving (repeatWhile eventItem) fun _ => finishBlock .kwEvent

/-- Without accessors there is no block. -/
theorem eventDeclaration : Records pre itself Production.eventDeclaration := by
  refine resolve _ (List.forall_mem_cons.2 ⟨eventWithAccessors, List.forall_mem_cons.2 ⟨?_, ?_⟩⟩)
  · exact line (Builds.node Steps.eventHeader)
  · exact fun _ hx => absurd hx List.not_mem_nil

-- ---------------------------------------------------------------------------
-- Blocks that open with their word
-- ---------------------------------------------------------------------------

/-- A word that has to be there becomes a leaf. -/
theorem expectWord_eq_ok {env : Env} {s s' : State} {u : Unit}
    (hrun : Production.expectWord word env s = .ok u s') :
    s' = s.withLeaf env.tokens (.token (env.kind s)) := by
  unfold Production.expectWord Production.expect atKind at hrun
  rw [(Looks.test _).run_bind] at hrun
  split at hrun
  · have hword : env.kind s = .keyword word := beq_iff_eq.1 ‹_›
    have hend : env.kind s ≠ .endOfFile := hword ▸ nofun
    rw [run_take hend] at hrun
    cases hrun
    rfl
  · cases hrun

/-- A block whose word stands behind attributes and modifiers, none of which is a word. -/
theorem blockBehindPrefix {r : Rule} {k : Unit → Parse Unit} (hr : r.openingMark = .word)
    (hopener : r.opener? = some word) (hk : RecordsLeaving word Wherever (k ())) :
    Records pre itself (Production.node r (Production.declarationPrefix >>= fun _ =>
      Production.openBlock word >>= fun _ => Production.expectWord word >>= k)) := by
  refine block fun env s s' hs _ hchildren hpartial hrun => ?_
  obtain ⟨_, s₁, hfront, hrest⟩ := bind_eq_ok hrun
  obtain ⟨_, s₂, hopen, hrest⟩ := bind_eq_ok hrest
  cases hopen
  obtain ⟨_, s₃, hword, hrest⟩ := bind_eq_ok hrest
  have houtcome := Steps.declarationPrefix env s (.zero hs)
  rw [hfront] at houtcome
  have hwordless : s.Wordless := fun c hc => absurd (hchildren ▸ hc) List.not_mem_nil
  have hkind : env.kind s₁ = .keyword word := (run_ifTake hword).1
  have hentered :=
    entered_word hr hopener ⟨hchildren, hpartial⟩ (houtcome.2.quiet (Manner.le_refl _))
    (wordless_declarationPrefix hwordless hfront) hkind
  have htake : s₃ = State.withLeaf { s₁ with blocks := ⟨word, env.line s₁⟩ :: s₁.blocks } env.tokens
      (.token (env.kind s₁)) :=
    expectWord_eq_ok (s := { s₁ with blocks := ⟨word, env.line s₁⟩ :: s₁.blocks }) hword
  subst htake
  exact ⟨word, s₁.cursor, _, hentered,
    hk env _ s' ⟨word, env.line s₁⟩ hentered.le_size trivial hentered.isPartial rfl hrest⟩

/-- A member of an enumeration opens nothing. -/
theorem enumItem : Records Wherever nothing Production.enumItem := by
  refine peek fun kind => ite (fun hend => blankLine hend) fun _ => child (nested ?_)
  exact orRecover (line Builds.enumMember)

/-- The line is that of the word, behind attributes and modifiers. -/
theorem enumBlock : Records pre itself Production.enumBlock := by
  refine blockBehindPrefix rfl rfl (leaving (part (Steps.field .name Builds.identifier))
    fun _ => ?_)
  refine leaving (part Steps.optionalAsClause) fun _ => leaving (part Steps.endStatement)
    fun _ => ?_
  exact leaving (body enumItem) fun _ => finishBlock .kwEnum

/-- Clauses open nothing. -/
theorem typeHeadItem : Records Wherever nothing Production.typeHeadItem := by
  have hclauses : Steps .quiet 0 false (do
      Production.inheritanceClauses
      Production.endStatement) :=
    Steps.bind Steps.inheritanceClauses fun _ => Steps.endStatement.mono
  refine peek fun kind => ?_
  split
  case h_1 | h_2 => exact round (blankLine rfl)
  case h_3 | h_4 => exact round (partRecovering hclauses)
  case h_5 => exact pure

section

variable {typeDeclaration : Parse Node} (h : Records Wherever itself typeDeclaration)

include h

/-- The word that announces a member picks the production, and each of them has been judged. -/
theorem memberProduction? {env : Env} {s : State} {production : Parse Node}
    (hsome : Production.memberProduction? typeDeclaration env s = Option.some production) :
    Records Wherever itself production := by
  simp only [Production.memberProduction?] at hsome
  split at hsome
  case h_1 => cases hsome; exact line Builds.constDeclaration
  case h_2 =>
    cases hsome
    exact ite (fun _ => routine _ (.inr rfl)) fun _ => routine _ (.inl rfl)
  case h_3 => cases hsome; exact routine _ (.inl rfl)
  case h_4 => cases hsome; exact propertyDeclaration
  case h_5 => cases hsome; exact eventDeclaration
  case h_12 => cases hsome; exact line Builds.fieldDeclaration
  case h_13 =>
    split at hsome
    · cases hsome; exact line Builds.fieldDeclaration
    · cases hsome
  all_goals cases hsome; exact h

/-- A member, a blank line or an error region. -/
theorem member : Records Wherever itself (Production.member typeDeclaration) := by
  refine peek fun kind => ite (fun hend => ?_) fun _ => of_runs fun env s => ?_
  · refine (quietNode Builds.blankLine).mono fun t i hat => .of_kindAt_ne ?_
    rw [hat.2]
    rintro rfl
    cases hend
  · cases hproduction : Production.memberProduction? typeDeclaration env s with
    | none => exact ⟨_, unexpected _, rfl⟩
    | some production =>
      exact ⟨_, (orRecover (memberProduction? h hproduction)).mono fun _ _ _ => trivial, rfl⟩

/-- The line is that of the word, behind attributes and modifiers. -/
theorem typeBlock {rule : Rule} (hr : rule.openingMark = .word)
    (hopener : rule.opener? = some word) :
    Records pre itself (Production.typeBlock typeDeclaration rule word) := by
  have hmembers : RecordsLeaving word Wherever (do
      Production.inheritanceClauses
      Production.endStatement
      Production.repeatWhile Production.typeHeadItem
      Production.body (Production.child (Production.nested (Production.member typeDeclaration)))
      Production.finishBlock word) := by
    refine leaving (part Steps.inheritanceClauses) fun _ => leaving (part Steps.endStatement)
      fun _ => ?_
    refine leaving (repeatWhile typeHeadItem) fun _ => leaving (body ?_) fun _ => finishBlock word
    exact child (nested (member h))
  refine blockBehindPrefix hr hopener (leaving (part (Steps.field .name Builds.identifier))
    fun _ => ?_)
  refine leaving (of_looks (Looks.test _)) fun x => ?_
  cases x with
  | true => exact leaving (part (Steps.child Builds.typeParameters.nested)) fun _ => hmembers
  | false => exact hmembers

/-- The word behind attributes and modifiers tells the kind of type. -/
theorem typeDefinition : Records pre itself (Production.typeDefinition typeDeclaration) := by
  refine look Looks.peekBehindPrefix fun kind => ?_
  split
  case h_5 => exact enumBlock
  case h_6 => exact line Builds.delegateDeclaration
  case h_7 => exact fail _
  all_goals exact typeBlock h rfl rfl

end

/-- By induction on the levels that are left. -/
theorem typeDeclarationUpTo (room : Nat) :
    Records Wherever itself (Production.typeDeclarationUpTo room) := by
  induction room with
  | zero => exact tooDeep
  | succ room ih => exact checkDepth (wrapped (typeDefinition ih))

/-- Every type, wherever it begins. -/
theorem typeDeclaration : Records pre itself Production.typeDeclaration :=
  of_runs fun env _ => ⟨_, (typeDeclarationUpTo env.room).mono fun _ _ _ => trivial, rfl⟩

-- ---------------------------------------------------------------------------
-- Files
-- ---------------------------------------------------------------------------

/-- An item of a file is picked by its first token. -/
theorem fileItemOf {namespaceBlock : Parse Node}
    (h : Records (fun t i => t.kindAt i = .keyword .kwNamespace) itself namespaceBlock) :
    Records Wherever itself (Production.fileItemOf namespaceBlock) := by
  refine peek fun kind => ?_
  split
  case h_1 | h_2 =>
    exact (quietNode Builds.blankLine).mono fun _ _ hat => .of_kindAt_ne (hat.2 ▸ nofun)
  case h_3 =>
    exact orRecover ((quietNode Builds.optionStatements).mono
      fun _ _ hat => .of_kindAt_ne (hat.2 ▸ nofun))
  case h_4 =>
    exact orRecover ((quietNode Builds.importsStatement).mono
      fun _ _ hat => .of_kindAt_ne (hat.2 ▸ nofun))
  case h_5 => exact orRecover (h.mono fun _ _ hat => hat.2)
  case h_6 =>
    refine look (Looks.test _) fun _ => ite (fun _ => ?_) fun _ => orRecover typeDeclaration
    exact orRecover (line Builds.fileAttribute)

/-- By induction on the levels that are left. -/
theorem namespaceBlockUpTo (room : Nat) :
    Records (fun t i => t.kindAt i = .keyword .kwNamespace) itself
      (Production.namespaceBlockUpTo room) := by
  induction room with
  | zero => exact tooDeep
  | succ room ih =>
    have hlines : RecordsLeaving .kwNamespace (fun t i => t.Ready i 0) (do
        Production.field .name Production.dottedName
        Production.endStatement
        Production.body
          (Production.child (Production.fileItemOf (Production.namespaceBlockUpTo room)).nested)
        Production.finishBlock .kwNamespace) := by
      refine leaving (part (Steps.field .name Builds.dottedName)) fun _ => ?_
      refine leaving (part Steps.endStatement) fun _ => leaving (body ?_)
        fun _ => finishBlock .kwNamespace
      exact child (nested (fileItemOf ih))
    have hblock : Records (fun t i => t.kindAt i = .keyword .kwNamespace ∧ t.Ready i 1) itself
        (Production.node .namespaceBlock do
          Production.openBlock .kwNamespace
          Production.take
          Production.field .name Production.dottedName
          Production.endStatement
          Production.body
            (Production.child (Production.fileItemOf (Production.namespaceBlockUpTo room)).nested)
          Production.finishBlock .kwNamespace) :=
      blockOfWord rfl rfl hlines
    exact checkDepth (hblock.mono fun _ _ hat => ⟨hat, ready_of_kindAt hat⟩)

/-- Every item of a file, wherever it begins. -/
theorem fileItem : Records Wherever itself Production.fileItem :=
  of_runs fun env _ => ⟨_, fileItemOf (namespaceBlockUpTo env.room), rfl⟩

/-- All items of a file. -/
theorem sourceFileItems :
    Records Wherever nothing (Production.repeatWhile Production.sourceFileItem) :=
  repeatWhile (look (Looks.test _) fun _ => ite (fun _ => pure) fun _ => round (child fileItem))

end Records

end Production

-- ---------------------------------------------------------------------------
-- Trees
-- ---------------------------------------------------------------------------

/-- The structural diagnostics of a tree are those of the partial nodes among what was read. -/
theorem Tree.answers_ofTokens (source : List Char) (tokens : TokenStream) (limit : Nat) :
    ∃ cs ds, (ofTokens source tokens limit).root =
        .finish (.rule .sourceFile) ⟨0, Text.byteLength source⟩ 0 false cs.reverse ∧
      tokens.Answers ds cs ∧ (ofTokens source tokens limit).diagnostics =
        (tokens.errors.map Diagnostic.ofLexicalError ++ ds.reverse).mergeSort
          fun a b => a.span.start ≤ b.span.start := by
  obtain ⟨root, s, hrun⟩ := Production.NeverFails.sourceFile { source, tokens, limit }
    ({ diagnostics := (tokens.errors.map Diagnostic.ofLexicalError).reverse } : State)
  rw [ofTokens_of_run hrun]
  obtain ⟨s₁, hitems, rfl, rfl⟩ := Production.construct_eq_finish hrun
  have hanswered := Production.Records.sourceFileItems _ _ () s₁ (Nat.zero_le _) trivial hitems
  obtain ⟨cs, ds, hcs, hds, hanswers⟩ := hanswered.added
  have hpartial : s₁.isPartial = false := hanswered.isPartial
  rw [List.append_nil] at hcs
  refine ⟨cs, ds, ?_, hanswers, ?_⟩
  · show Node.withSpan _ (.finish (.rule .sourceFile) _ 0 s₁.isPartial s₁.children.reverse) = _
    rw [hpartial, hcs]
    rfl
  · show s₁.diagnostics.reverse.mergeSort _ = _
    rw [hds, List.reverse_append, List.reverse_reverse]

/-- The diagnostic names the line of the word that opens the block that the node is. -/
def Diagnostic.NamesWordLine (t : TokenStream) (d : Diagnostic) (n : Node) : Prop :=
  ∃ word i, n.opener? = some word ∧ n.wordIndex? word = some i ∧
    d.cause = .unclosed word (t.get i).point.line

instance (t : TokenStream) (d : Diagnostic) (n : Node) : Decidable (d.NamesWordLine t n) :=
  decidable_of_iff (∃ word ∈ n.opener?, ∃ i ∈ n.wordIndex? word,
      d.cause = .unclosed word (t.get i).point.line)
    ⟨fun ⟨word, hopener, i, hi, hcause⟩ => ⟨word, i, hopener, hi, hcause⟩,
      fun ⟨word, i, hopener, hi, hcause⟩ => ⟨word, hopener, i, hi, hcause⟩⟩

/-- A diagnostic that names the line noted for a block names that of the word exactly if they are
one. -/
theorem Diagnostic.Unclosed.namesWordLine_iff {t : TokenStream} {d : Diagnostic} {n : Node}
    {word : Keyword}
    {line : Nat} (h : d.Unclosed t n word line) (hopener : n.opener? = some word) :
    d.NamesWordLine t n ↔ ∃ i, n.wordIndex? word = some i ∧ (t.get i).point.line = line := by
  constructor
  · rintro ⟨word', i, hopener', hi, hcause⟩
    cases hopener.symm.trans hopener'
    exact ⟨i, hi, (Cause.unclosed.inj (h.cause.symm.trans hcause)).2.symm⟩
  · rintro ⟨i, hi, hline⟩
    exact ⟨word, i, hopener, hi, h.cause.trans (by rw [hline])⟩

/-- In the tree of every source the diagnostics of blocks without a closing line are those of its
partial nodes. Each names the line of the token that was noted for the block: for most blocks that
of the word that opens it, for some the first token of the node, and for `If` the token behind its
line. This is the line of the word exactly if the two tokens are on one line. -/
theorem openings_traced (source : List Char) (limits : Limits) :
    Multiset.Rel
      (fun d n => ∃ word i, n.opener? = some word ∧ n.OpensAt (TokenStream.ofText source) word i ∧
        d.Unclosed (TokenStream.ofText source) n word
          ((TokenStream.ofText source).get i).point.line ∧
        (d.NamesWordLine (TokenStream.ofText source) n ↔ ∃ j, n.wordIndex? word = some j ∧
          ((TokenStream.ofText source).get j).point.line =
          ((TokenStream.ofText source).get i).point.line))
      ((Tree.ofTokens source (TokenStream.ofText source) limits.maxNestingDepth).diagnostics.filter
        (·.kind == .structural) : Multiset Diagnostic)
      ((Tree.ofTokens source (TokenStream.ofText source)
        limits.maxNestingDepth).root.preorder.filter
        (·.flags.isPartial) : Multiset Node) := by
  obtain ⟨cs, ds, hroot, hanswers, hdiagnostics⟩ :=
    Tree.answers_ofTokens source (TokenStream.ofText source) limits.maxNestingDepth
  rw [hroot, hdiagnostics, Multiset.coe_eq_coe.2 (perm_filter_mergeSort .structural nofun),
    Multiset.coe_eq_coe.2 (perm_filter_preorder rfl)]
  refine Multiset.Rel.mono hanswers fun d _ n _ htraces => ?_
  obtain ⟨word, i, hopener, hopens, hunclosed⟩ := htraces
  exact ⟨word, i, hopener, hopens, hunclosed, hunclosed.namesWordLine_iff hopener⟩

/-- A block `If` whose line is continued in front of `Then`. -/
def splitIf : List Char := "Class C\nSub F()\nIf a _\n Then\nEnd Sub\nEnd Class\n".toList

/-- There may be a block without its closing line of whose opening word no diagnostic names the
line. -/
theorem exists_misplacedOpening :
    ∃ n ∈ (Tree.parse splitIf).root.preorder, n.flags.isPartial = true ∧
      ∀ d ∈ (Tree.parse splitIf).diagnostics, ¬d.NamesWordLine (TokenStream.ofText splitIf) n := by
  decide +kernel

end VisualBasic
