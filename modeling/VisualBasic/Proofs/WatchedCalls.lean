import VisualBasic.Proofs.WatchedLines
import VisualBasic.Proofs.Expression

/-!
# Watching calls

Of the nodes of statements and declarations only the calls are watched here. A call is read in two
places: where a word announces it, and where no assignment could be read. What is to hold of calls
has to be known there, and then it holds throughout the tree.

* `WatchesCalls` — only calls are watched, and they are fine wherever they are read.

Main results:

* `Yields.statement` — all calls in a statement are fine.
* `Watch.fine_of_mem_ofTokens` — all calls in the tree of a file are fine.
-/

namespace VisualBasic

/-- The rules of all nodes but calls. -/
@[reducible] def Rule.isNoCall : Rule → Bool
  | .callStatement => false
  | _ => true

open Production in
/-- Of all nodes only calls are watched, and calls are fine: those that a word announces, and those
that are read because there was no assignment. -/
class WatchesCalls (w : Watch) : Prop where
  unwatched : ∀ r : Rule, r.isNoCall = true → w.watches r = false
  announced : ∀ env (s : State) n s', env.tokens = w.tokens → env.kind s ≠ .mark .dot →
    (env.kind s).isNameLike = false → callStatement env s = .ok n s' → w.fine n
  unannounced : ∀ env (s : State) n s', env.tokens = w.tokens →
    (∀ m t, assignmentStatement env s ≠ .ok m t) → callStatement env s = .ok n s' → w.fine n

namespace Production

open Watch

namespace Yields

variable {w : Watch} [hw : WatchesCalls w]

instance sparesLines : SparesLines w :=
  ⟨fun r hr => hw.unwatched r (by cases r <;> first | rfl | cases hr)⟩

instance unwatchedRule {r : Rule} [hr : Holds r.isNoCall] : Unwatched w r :=
  ⟨hw.unwatched r hr.eq_true⟩

-- ---------------------------------------------------------------------------
-- Simple statements
-- ---------------------------------------------------------------------------

set_option synthInstance.maxSize 4000

/-- A call gives a clear node where it is fine. -/
theorem callStatement {env : Env} {s : State} (ht : env.tokens = w.tokens)
    (hfine : ∀ n s', Production.callStatement env s = .ok n s' → w.fine n) :
    YieldsAt w Production.callStatement env s where
  keeps hs := by
    have hchildren : (lastState (Production.callStatement env s)).children = s.children :=
      ((Aside.node .callStatement _).sameNode env s).children
    rwa [hchildren]
  gives n s' hrun := by
    have hcontent : Yields w (do
        (do
          let _ ← Production.acceptWord .kwCall
          Production.child (Production.nested Production.expression))
        Production.endStatement) := inferInstance
    exact ⟨clears_of_children (clears_children hcontent ht hrun) fun _ => hfine n s' hrun⟩

/-- A call is read only where no assignment could be read. -/
instance expressionStatement : Yields w Production.expressionStatement := of_here fun env s ht => by
  refine .of_checkDepth ?_
  have hlabel : YieldsAt w Production.labelStatement env s := labelStatement.here ht
  have hassignment : YieldsAt w Production.assignmentStatement env s := assignmentStatement.here ht
  cases hrun : Production.assignmentStatement env s with
  | ok m t =>
    have hshort : YieldsAt w (Production.firstFit .labelOrExpression none
        [{ viable := fun env s => (env.kind s).isNameLike && env.kindAhead s 1 == .mark .colon,
           production := Production.labelStatement },
         { production := Production.assignmentStatement }]) env s := by
      refine .firstFit fun x hx => ?_
      simp only [List.mem_cons, List.not_mem_nil, or_false] at hx
      rcases hx with rfl | rfl
      · exact hlabel
      · exact hassignment
    exact hshort.of_eq (by simp only [Parse.firstFit_cons_eq, hrun, if_true])
  | error f t =>
    have hcall : YieldsAt w Production.callStatement env s :=
      callStatement ht fun n s' => hw.unannounced env s n s' ht fun _ _ hok => by
        cases hrun.symm.trans hok
    refine .firstFit fun x hx => ?_
    simp only [List.mem_cons, List.not_mem_nil, or_false] at hx
    rcases hx with rfl | rfl | rfl
    · exact hlabel
    · exact hassignment
    · exact hcall

-- ---------------------------------------------------------------------------
-- Blocks of statements
-- ---------------------------------------------------------------------------

section

variable {statement : Parse Node} [Yields w statement]

instance statements : Yields w (Production.statements statement) := by
  unfold Production.statements
  infer_instance

instance blockStatement {r : Rule} [Unwatched w r] {opener : Keyword} {header closing : Parse Unit}
    [Yields w header] [Yields w closing] :
    Yields w (Production.blockStatement statement r opener header closing) := by
  unfold Production.blockStatement
  infer_instance

instance blockPart {r : Rule} [Unwatched w r] {header : Parse Unit} [Yields w header] :
    Yields w (Production.blockPart statement r header) := by
  unfold Production.blockPart
  infer_instance

instance elseIfClause : Yields w (Production.elseIfClause statement) := by
  unfold Production.elseIfClause
  infer_instance

instance elseClause : Yields w (Production.elseClause statement) := by
  unfold Production.elseClause
  infer_instance

instance ifPart : Yields w (Production.ifPart statement) := by
  refine into fun kind => ?_
  split <;> infer_instance

instance ifBlock : Yields w (Production.ifBlock statement) := by
  unfold Production.ifBlock
  infer_instance

instance ifLine : Yields w (Production.ifLine statement) := by
  have hmarks (f : Nat → Nat) : Yields w
      (modify fun s => { s with singleLineIfs := f s.singleLineIfs } : Parse Unit) :=
    of_children fun _ _ => rfl
  have henter := hmarks (· + 1)
  have hleave := hmarks (· - 1)
  unfold Production.ifLine
  dsimp only
  infer_instance

instance ifStatement : Yields w (Production.ifStatement statement) := by
  unfold Production.ifStatement Production.atTerminator
  dsimp only
  infer_instance

instance caseBlock : Yields w (Production.caseBlock statement) := by
  unfold Production.caseBlock
  infer_instance

instance caseElseBlock : Yields w (Production.caseElseBlock statement) := by
  unfold Production.caseElseBlock
  infer_instance

instance selectPart : Yields w (Production.selectPart statement) := by
  unfold Production.selectPart
  dsimp only
  infer_instance

instance selectStatement : Yields w (Production.selectStatement statement) := by
  unfold Production.selectStatement
  infer_instance

instance whileStatement : Yields w (Production.whileStatement statement) := by
  unfold Production.whileStatement
  infer_instance

instance doStatement : Yields w (Production.doStatement statement) := by
  unfold Production.doStatement
  infer_instance

instance finishNext : Yields w Production.finishNext := by
  unfold Production.finishNext
  dsimp only
  infer_instance

instance forStatement : Yields w (Production.forStatement statement) := by
  unfold Production.forStatement
  infer_instance

instance forEachStatement : Yields w (Production.forEachStatement statement) := by
  unfold Production.forEachStatement
  infer_instance

instance catchBlock : Yields w (Production.catchBlock statement) := by
  unfold Production.catchBlock
  infer_instance

instance finallyBlock : Yields w (Production.finallyBlock statement) := by
  unfold Production.finallyBlock
  infer_instance

instance tryPart : Yields w (Production.tryPart statement) := by
  refine into fun kind => ?_
  split <;> infer_instance

instance tryStatement : Yields w (Production.tryStatement statement) := by
  unfold Production.tryStatement
  infer_instance

instance withStatement : Yields w (Production.withStatement statement) := by
  unfold Production.withStatement
  infer_instance

instance usingStatement : Yields w (Production.usingStatement statement) := by
  unfold Production.usingStatement
  infer_instance

instance syncLockStatement : Yields w (Production.syncLockStatement statement) := by
  unfold Production.syncLockStatement
  infer_instance

-- ---------------------------------------------------------------------------
-- The choice of the statement
-- ---------------------------------------------------------------------------

/-- A call that a word announces begins with the word. -/
theorem announcedCall {word : Keyword} {env : Env} {s : State} (ht : env.tokens = w.tokens)
    (hword : env.kind s = .keyword word) (hname : (TokenKind.keyword word).isNameLike = false) :
    YieldsAt w Production.callStatement env s :=
  callStatement ht fun n s' =>
    hw.announced env s n s' ht (by rw [hword]; exact nofun) (by rw [hword]; exact hname)

theorem wordStatement {word : Keyword} {env : Env} {s : State} (ht : env.tokens = w.tokens)
    (hword : env.kind s = .keyword word) :
    YieldsAt w (Production.wordStatement statement word) env s := by
  unfold Production.wordStatement
  split
  case h_4 => exact announcedCall ht hword rfl
  case h_5 =>
    refine .looks (Looks.peekAhead 1)
      (.either (.of_checkDepth (.firstFit fun x hx => ?_)) (ifStatement.here ht))
    simp only [List.mem_cons, List.not_mem_nil, or_false] at hx
    rcases hx with rfl | rfl
    · exact announcedCall ht hword rfl
    · exact ifStatement.here ht
  all_goals exact here inferInstance ht

instance statementOf {kind : Parse Node} [Yields w kind] :
    Yields w (Production.statementOf kind) := by
  have hwrapped : Yields w (do Production.wrap .statement (← kind)) := into fun _ => inferInstance
  unfold Production.statementOf
  infer_instance

end

instance statementKindUpTo {room : Nat} : Yields w (Production.statementKindUpTo room) := by
  induction room with
  | zero => exact tooDeep
  | succ room ih =>
    refine of_here fun env s ht => .of_checkDepth (.looks Looks.peek ?_)
    split
    case h_4 word hword => exact wordStatement ht hword
    all_goals exact here inferInstance ht

instance statement : Yields w Production.statement := of_runs fun _ _ => ⟨_, statementOf, rfl⟩

-- ---------------------------------------------------------------------------
-- Members
-- ---------------------------------------------------------------------------

instance routineWithBody {r : Rule} [Unwatched w r] : Yields w (Production.routineWithBody r) := by
  unfold Production.routineWithBody
  infer_instance

instance routine {a : Ambiguity} {r : Rule} [Unwatched w r] :
    Yields w (Production.routine a r) := by
  refine resolve fun x hx => ?_
  simp only [List.mem_cons, List.not_mem_nil, or_false] at hx
  rcases hx with rfl | rfl <;> infer_instance

instance accessor : Yields w Production.accessor := by
  refine behind fun kind => ?_
  dsimp only
  split <;> infer_instance

instance propertyItem : Yields w Production.propertyItem := by
  unfold Production.propertyItem
  infer_instance

instance propertyWithAccessors : Yields w Production.propertyWithAccessors := by
  unfold Production.propertyWithAccessors
  infer_instance

instance propertyDeclaration : Yields w Production.propertyDeclaration := by
  refine resolve fun x hx => ?_
  simp only [List.mem_cons, List.not_mem_nil, or_false] at hx
  rcases hx with rfl | rfl <;> infer_instance

instance eventAccessor {r : Rule} [Unwatched w r] {word : Keyword} :
    Yields w (Production.eventAccessor r word) := by
  unfold Production.eventAccessor
  infer_instance

instance eventItem : Yields w Production.eventItem := by
  refine behind fun kind => ?_
  split <;> infer_instance

instance eventWithAccessors : Yields w Production.eventWithAccessors := by
  unfold Production.eventWithAccessors
  infer_instance

instance eventDeclaration : Yields w Production.eventDeclaration := by
  refine resolve fun x hx => ?_
  simp only [List.mem_cons, List.not_mem_nil, or_false] at hx
  rcases hx with rfl | rfl <;> infer_instance

-- ---------------------------------------------------------------------------
-- Types and files
-- ---------------------------------------------------------------------------

section

variable {typeDeclaration : Parse Node} [htype : Yields w typeDeclaration]

theorem of_memberProduction? {env : Env} {s : State} {p : Parse Node}
    (hp : memberProduction? typeDeclaration env s = some p) : Yields w p := by
  unfold memberProduction? at hp
  dsimp only at hp
  split at hp
  case h_2 =>
    cases hp
    unfold constructorDeclaration methodDeclaration
    infer_instance
  case h_13 =>
    split at hp
    · cases hp
      infer_instance
    · cases hp
  all_goals
    cases hp
    first
    | infer_instance
    | exact routine

instance member : Yields w (Production.member typeDeclaration) := by
  refine behind fun kind => either inferInstance (of_here fun env s ht => ?_)
  cases hp : memberProduction? typeDeclaration env s with
  | none => exact (unexpected.here ht).of_eq (by rw [hp])
  | some p =>
    have hproduction : Yields w p := of_memberProduction? hp
    exact (orRecover.here ht).of_eq (by rw [hp])

instance typeBlock {r : Rule} [Unwatched w r] {word : Keyword} :
    Yields w (Production.typeBlock typeDeclaration r word) := by
  have hrest : Yields w (do
      Production.inheritanceClauses
      Production.endStatement
      Production.repeatWhile Production.typeHeadItem
      Production.body (Production.child (Production.nested (Production.member typeDeclaration)))
      Production.finishBlock word) := inferInstance
  refine nodeOf (behind fun _ => behind fun _ => behind fun _ => behind fun _ => behind fun _ => ?_)
  exact either (behind fun _ => hrest) hrest

instance typeDefinition : Yields w (Production.typeDefinition typeDeclaration) := by
  refine behind fun kind => ?_
  split <;> infer_instance

end

instance typeDeclarationUpTo {room : Nat} : Yields w (Production.typeDeclarationUpTo room) := by
  induction room with
  | zero => exact tooDeep
  | succ room ih => exact behind fun _ => into fun _ => inferInstance

instance typeDeclaration : Yields w Production.typeDeclaration :=
  of_runs fun _ _ => ⟨_, typeDeclarationUpTo, rfl⟩

@[instance]
theorem fileItemOf {namespaceBlock : Parse Node} [Yields w namespaceBlock] :
    Yields w (Production.fileItemOf namespaceBlock) := by
  unfold Production.fileItemOf Production.atFileAttribute
  refine behind fun kind => ?_
  split <;> infer_instance

instance namespaceBlockUpTo {room : Nat} : Yields w (Production.namespaceBlockUpTo room) := by
  induction room with
  | zero => exact tooDeep
  | succ room ih =>
    unfold Production.namespaceBlockUpTo
    infer_instance

instance fileItem : Yields w Production.fileItem := of_runs fun _ _ => ⟨_, fileItemOf, rfl⟩

instance sourceFile : Yields w Production.sourceFile := by
  unfold Production.sourceFile Production.sourceFileItem
  infer_instance

end Yields

end Production

-- ---------------------------------------------------------------------------
-- Trees
-- ---------------------------------------------------------------------------

/-- All calls in the tree of a file are fine. -/
theorem Watch.fine_of_mem_ofTokens {w : Watch} [WatchesCalls w] {source : List Char} {limit : Nat}
    {n : Node} (hn : n ∈ (Tree.ofTokens source w.tokens limit).root.preorder)
    (hcall : n.kind = .rule .callStatement) (hwatched : w.watches .callStatement = true) :
    w.fine n := by
  have hrun := Production.NeverFails.sourceFile.run_eq { source, tokens := w.tokens, limit }
    ({ diagnostics := (w.tokens.errors.map Diagnostic.ofLexicalError).reverse } : State)
  have hclear := (Production.Yields.sourceFile (w := w)).gives _ _ _ _ rfl hrun
  obtain ⟨s, -, hroot, -⟩ := Production.construct_eq_finish hrun
  have htree :
      (Tree.ofTokens source w.tokens limit).root = Node.withSpan ⟨0, Text.byteLength source⟩
      (Production.NeverFails.sourceFile.result { source, tokens := w.tokens, limit }
        ({ diagnostics := (w.tokens.errors.map Diagnostic.ofLexicalError).reverse } :
          State)).1 := rfl
  rw [hroot] at hclear htree
  rw [htree, Node.preorder_eq, List.mem_cons] at hn
  rcases hn with rfl | hn
  · cases hcall
  · exact hclear.clears.of_node.1 n hn ⟨_, hcall, hwatched⟩

end VisualBasic
