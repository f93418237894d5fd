import VisualBasic.Proofs.Speculation
import VisualBasic.Proofs.TokenOrder
import VisualBasic.Tree

/-!
# Progress

The loops that read the items of a file, the members of a type or the statements of a block have no
counter. They end because each of their rounds reads a token or says that it was the last one. That
holds in any state, whatever blocks are open and however little may be nested: what fails before it
has read anything is covered by an error region, and no error region is empty where a token is left.

The loops of the grammar are given a bound, the number of the tokens that are left. `LoopRun` tells
what comes of a loop without one, and the two come to the same.

Main results:

* `Advancing.of_builds` — what always finds something reads at least one token, and no more than
  there are.
* `Consumes.loopRun_iff` — a loop whose rounds read tokens ends, and with what the bounded loop
  gives.
* `OfBody.consumes` — the rounds of the loops of all bodies read tokens.
* `cursor_sourceFile` — every file is read to its end.
-/

namespace VisualBasic

namespace Production

open State

-- ---------------------------------------------------------------------------
-- Productions that read a token
-- ---------------------------------------------------------------------------

/-- Where a token is left the production succeeds, and it reads at least one token and no more than
are left. -/
def Advancing {B N : Type} (p : Production B N) : Prop :=
  ∀ env s, env.kind s ≠ .endOfFile →
    ∃ n s', p env s = .ok n s' ∧ s.cursor < s'.cursor ∧ s'.cursor ≤ env.tokens.tokens.size

theorem Advancing.of_builds {m : Manner} {p : Parse Node} (hnever : NeverFails p)
    (hbuilds : Builds m 1 true p) : Advancing p := by
  intro env s hkind
  have hrun := hbuilds env s (.of_kindAt_ne hkind)
  obtain ⟨n, s', hok⟩ := hnever env s
  rw [hok] at hrun
  obtain ⟨hlt, hbuilt⟩ := hrun
  exact ⟨n, s', hok, hlt rfl, hbuilt.cursor_le⟩

-- ---------------------------------------------------------------------------
-- Loops without a bound
-- ---------------------------------------------------------------------------

/-- What comes of rounds, one after another, until one of them says that it was the last one or
fails. -/
inductive LoopRun (round : Parse Bool) (env : Env) :
    State → EStateM.Result Failure State Unit → Prop
  | stop {s s' : State} (h : round env s = .ok false s') : LoopRun round env s (.ok () s')
  | fails {s s' : State} {f : Failure} (h : round env s = .error f s') :
    LoopRun round env s (.error f s')
  | again {s s₁ : State} {result : EStateM.Result Failure State Unit}
    (h : round env s = .ok true s₁) (rest : LoopRun round env s₁ result) :
    LoopRun round env s result

section

variable {round : Parse Bool} {env : Env} {s : State}
  {result result' : EStateM.Result Failure State Unit}

/-- A loop comes to one result at most. -/
theorem LoopRun.unique (h : LoopRun round env s result) (h' : LoopRun round env s result') :
    result = result' := by
  induction h with
  | stop h =>
    cases h' with
    | stop h₁ | fails h₁ | again h₁ => grind
  | fails h =>
    cases h' with
    | stop h₁ | fails h₁ | again h₁ => grind
  | again h _ ih =>
    cases h' with
    | stop h₁ => grind
    | fails h₁ => grind
    | again h₁ rest =>
      rw [h] at h₁
      cases h₁
      exact ih rest

/-- A round goes forward, and has read a token where it asks for another one. -/
structure Proceeds (round : Parse Bool) : Prop where
  climbs : Climbs round
  lt_cursor : ∀ env s s₁, s.cursor ≤ env.tokens.tokens.size → round env s = .ok true s₁ →
      s.cursor < s₁.cursor

namespace Proceeds

/-- As many rounds as there are tokens left, and one more, are all the rounds of the loop. -/
theorem loopRun_iterateUpTo (h : Proceeds round) (k : Nat) (s : State)
    (hs : s.cursor ≤ env.tokens.tokens.size) (hk : env.tokens.tokens.size - s.cursor < k) :
    LoopRun round env s
      (iterateUpTo (fun _ => do return if ← round then some () else none) k () env s) := by
  induction k generalizing s with
  | zero => exact absurd hk (Nat.not_lt_zero _)
  | succ k ih =>
    rw [iterateUpTo, run_bind]
    cases hrun : round env s with
    | error f s' => exact .fails hrun
    | ok more s₁ =>
      cases more with
      | false => exact .stop hrun
      | true =>
        have hlt := h.lt_cursor env s s₁ hs hrun
        have hle := (h.climbs.ok hs hrun).le_size
        exact .again hrun (ih s₁ hle (by omega))

/-- The loop ends, and what it comes to is what the loop with a bound gives. -/
theorem loopRun_iff (h : Proceeds round) (hs : s.cursor ≤ env.tokens.tokens.size) :
    LoopRun round env s result ↔ repeatWhile round env s = result := by
  have hrun : LoopRun round env s (repeatWhile round env s) := by
    refine h.loopRun_iterateUpTo _ s hs ?_
    unfold TokenStream.size
    omega
  constructor
  · exact fun h' => hrun.unique h'
  · rintro rfl
    exact hrun

end Proceeds

/-- A round of a loop over tokens: it goes forward, it reads a token before it asks for another
round, and at the end of the text it asks for none. -/
structure Consumes (round : Parse Bool) : Prop where
  climbs : Climbs round
  progresses : Progresses (· = true) round
  stops : ∀ env s, env.kind s = .endOfFile → round env s = .ok false s

namespace Consumes

theorem proceeds (h : Consumes round) : Proceeds round := by
  refine ⟨h.climbs, fun env s s₁ _ hrun => ?_⟩
  by_cases hend : env.kind s = .endOfFile
  · rw [h.stops env s hend] at hrun
    cases hrun
  · exact h.progresses env s true s₁ (.of_kindAt_ne hend) hrun rfl

theorem loopRun_iff (h : Consumes round) (hs : s.cursor ≤ env.tokens.tokens.size) :
    LoopRun round env s result ↔ repeatWhile round env s = result :=
  h.proceeds.loopRun_iff hs

end Consumes

end

-- ---------------------------------------------------------------------------
-- The loops of bodies
-- ---------------------------------------------------------------------------

/-- The rounds of the loops that read bodies. Those with items that nest are listed by the levels
that are left for these. -/
inductive OfBody : Parse Bool → Prop
  | sourceFile : OfBody sourceFileItem
  | namespaceBlock (room : Nat) :
    OfBody (bodyItem (child (nested (fileItemOf (namespaceBlockUpTo room)))))
  | typeHead : OfBody typeHeadItem
  | typeBlock (room : Nat) : OfBody (bodyItem (child (nested (member (typeDeclarationUpTo room)))))
  | enumBlock : OfBody (bodyItem enumItem)
  | property : OfBody propertyItem
  | event : OfBody eventItem
  | routine : OfBody (bodyItem (child (nested statement)))
  | statements (room : Nat) : OfBody (bodyItem (child (nested (inBlock room))))
  | selectStatement (room : Nat) : OfBody (selectPart (inBlock room))
  | tryStatement (room : Nat) : OfBody (tryPart (inBlock room))
  | ifStatement (room : Nat) : OfBody (ifPart (inBlock room))

/-- The end of the text ends the items of a body. -/
theorem atBoundary_of_endOfFile {env : Env} {s : State} (h : env.kind s = .endOfFile) :
    env.atBoundary s = true := by
  unfold Env.atBoundary
  rw [h]

theorem run_atBoundary {env : Env} {s : State} {k : Parse Bool} (h : env.kind s = .endOfFile) :
    (Production.atBoundary >>= fun ends => if ends = true then pure false else k) env s =
    .ok false s := by
  unfold Production.atBoundary
  rw [(Looks.test _).run_bind, atBoundary_of_endOfFile h]
  rfl

/-- An item that reads a token makes a round. -/
theorem Consumes.bodyItem {item : Parse Unit} (hclimbs : Climbs item)
    (hmoves : Steps .loud 1 true item) : Consumes (Production.bodyItem item) := by
  refine ⟨?_, ?_, fun env s hend => ?_⟩
  · refine Climbs.bind (Climbs.of_looks (Looks.test _)) fun ends => Climbs.ite (Climbs.pure _) ?_
    exact hclimbs.bind fun _ => Climbs.pure _
  · exact .look (Looks.test _) fun _ => .ite (.pure nofun) (.round hmoves)
  · exact run_atBoundary hend

/-- So does an item that is a node one level deeper. -/
theorem Consumes.items {item : Parse Node} (hitem : Makes 0 false (.plain false) item)
    (hmoves : Builds .loud 1 true item) : Consumes (Production.bodyItem (child (nested item))) :=
  .bodyItem (Passage.childNested hitem).climbs (Steps.child hmoves.nested)

/-- A loop that goes on for as long as it sees certain words. -/
theorem Consumes.parts {round : TokenKind → Parse Bool}
    (hclimbs : Climbs (peek >>= round)) (hprogresses : Progresses (· = true) (peek >>= round))
    (hend : round .endOfFile = pure false) : Consumes (peek >>= round) := by
  refine ⟨hclimbs, hprogresses, fun env s hkind => ?_⟩
  rw [Looks.peek.run_bind, hkind, hend]
  rfl

theorem consumes_sourceFileItem : Consumes sourceFileItem := by
  have hitem : Makes 0 false {} fileItem := Passage.fileItem
  have hmoves : Steps .loud 1 true (child fileItem) :=
    Steps.child (Builds.fileItem fun _ => Nat.one_pos)
  refine ⟨?_, ?_, fun env s hend => ?_⟩
  · refine Climbs.bind (Climbs.of_looks (Looks.test _)) fun ends => Climbs.ite (Climbs.pure _) ?_
    exact (Passage.child hitem).climbs.bind fun _ => Climbs.pure _
  · exact .look (Looks.test _) fun _ => .ite (.pure nofun) (.round hmoves)
  · unfold sourceFileItem atKind
    rw [(Looks.test _).run_bind, hend]
    rfl

theorem consumes_propertyItem : Consumes propertyItem := by
  have hitem : Runs 0 false {} false propertyItem := Passage.propertyItem
  refine ⟨hitem.climbs, Passage.progresses_propertyItem, fun env s hend => ?_⟩
  have hbehind : env.tokens.kindAt (env.tokens.behindPrefix s.cursor) = .endOfFile := by
    rw [behindPrefix_of_endOfFile hend]
    exact hend
  have hblank : ¬TokenKind.endOfFile.isTerminator = true := nofun
  unfold propertyItem
  rw [Looks.peek.run_bind, hend, if_neg hblank, Looks.peekBehindPrefix.run_bind, hbehind]
  exact run_atBoundary hend

theorem consumes_eventItem : Consumes eventItem := by
  have hitem : Runs 0 false {} false eventItem := Passage.eventItem
  refine ⟨hitem.climbs, Passage.progresses_eventItem, fun env s hend => ?_⟩
  unfold eventItem
  rw [Looks.peek.run_bind, hend]
  exact run_atBoundary hend

/-- The rounds of every body read tokens. -/
theorem OfBody.consumes {round : Parse Bool} (h : OfBody round) : Consumes round := by
  have hstatements (room : Nat) : MakesStatements 0 false (Production.inBlock room) :=
    Passage.makesStatements_of (Passage.statementKindUpTo room)
  cases h with
  | sourceFile => exact consumes_sourceFileItem
  | namespaceBlock room =>
    exact .items (Passage.fileItemOf (Passage.namespaceBlockUpTo room))
      (Builds.fileItemOf (BuildsAt.namespaceBlockUpTo room) fun _ => Nat.one_pos)
  | typeHead =>
    have hitem : Runs 0 false {} false typeHeadItem := Passage.typeHeadItem
    exact .parts hitem.climbs Passage.progresses_typeHeadItem rfl
  | typeBlock room =>
    exact .items (Passage.member (Passage.typeDeclarationUpTo room))
      (Passage.builds_member (Builds.typeDeclarationUpTo room))
  | enumBlock =>
    have hitem : Runs 0 false {} false enumItem := Passage.enumItem
    exact .bodyItem hitem.climbs Passage.steps_enumItem
  | property => exact consumes_propertyItem
  | event => exact consumes_eventItem
  | routine =>
    have hstatement : MakesStatements 0 false statement := Passage.makesStatements
    exact .items hstatement.makes hstatement.moves
  | statements room => exact .items (hstatements room).makes (hstatements room).moves
  | selectStatement room =>
    have h := hstatements room
    have hitem : Runs 0 false (.plain false) false (selectPart (inBlock room)) :=
      Passage.selectPart h
    refine ⟨hitem.climbs, Passage.progresses_selectPart h.isStatement h.moves, fun env s hend => ?_⟩
    unfold selectPart atWord atKind
    rw [(Looks.test _).run_bind, hend]
    exact run_atBoundary hend
  | tryStatement room =>
    have h := hstatements room
    have hitem : Runs 0 false {} false (tryPart (inBlock room)) := Passage.tryPart h
    exact .parts hitem.climbs (Passage.progresses_tryPart h.isStatement) rfl
  | ifStatement room =>
    have h := hstatements room
    have hitem : Runs 0 false {} false (ifPart (inBlock room)) := Passage.ifPart h
    exact .parts hitem.climbs (Passage.progresses_ifPart h.isStatement) rfl

-- ---------------------------------------------------------------------------
-- Progress
-- ---------------------------------------------------------------------------

/-- The file of every source is read to its end, whatever the limit of nesting. -/
theorem cursor_sourceFile {source : List Char} {limit : Nat}
    {diagnostics : List Diagnostic} {root : Node}
    {s' : State}
    (hrun : sourceFile { source, tokens := TokenStream.ofText source, limit } { diagnostics } =
      .ok root s') :
    s'.cursor = (TokenStream.ofText source).tokens.size := by
  obtain ⟨cs, ds, s₁, hrun₁, hr, -, hend⟩ := reading_sourceFile
    { source, tokens := TokenStream.ofText source, limit } { diagnostics } (Nat.zero_le _)
  rw [hrun] at hrun₁
  obtain ⟨-, rfl⟩ := EStateM.Result.ok.inj hrun₁
  exact (TokenStream.ordered_ofText source).eq_size hr.stop_le hend

end Production

end VisualBasic
