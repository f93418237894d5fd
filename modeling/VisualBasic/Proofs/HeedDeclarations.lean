import VisualBasic.Proofs.HeedStatements
import VisualBasic.Proofs.LoudDeclarations
import VisualBasic.Proofs.WideDeclarations

/-!
# Declarations heed closing lines

Members, types and files leave the closing lines of the blocks around them alone. Which line closes
a routine is not known before its header is read: the word behind `End` is the first word of the
header. Behind the last item of a file no block is open, so what is said there is said of no word at
all.

Main results:

* `firstWord?_of_routineHeader` — the word that opens a routine, and closes it.
* `closers_spared` — where an error region may take the closing line of a block away.
* `exists_swallowed_closer` — a source in which one does.
-/

namespace VisualBasic

open Production

/-- A part of a node is no word. -/
theorem Node.IsPart.word?_eq_none {n : Node} (h : n.IsPart) : n.word? = none := by
  have hnamed : n.kind.isNamed = true := h.isNamed
  unfold word?
  split
  · rename_i hkind
    rw [hkind] at hnamed
    exact Bool.noConfusion hnamed
  · rfl

/-- A role does not make a word. -/
theorem Node.word?_inField (n : Node) (f : Field) : (n.inField f).word? = n.word? := by
  rw [word?, kind_inField, word?]

namespace State

/-- No word is among the children of the node under construction. -/
def Wordless (s : State) : Prop := ∀ c ∈ s.children, c.word? = none

/-- The first word among the children of the node under construction. -/
def firstWord? (s : State) : Option Keyword := s.children.reverse.findSome? Node.word?

/-- What is attached later comes behind the first word. -/
theorem firstWord?_of_suffix {s s' : State} {word : Keyword} (h : s.firstWord? = some word)
    (hsuffix : s.children <:+ s'.children) : s'.firstWord? = some word := by
  obtain ⟨new, hnew⟩ := hsuffix
  unfold firstWord? at h ⊢
  rw [← hnew, List.reverse_append, List.findSome?_append, h]
  rfl

/-- A part of a statement is no word, whatever its role. -/
theorem Wordless.attach {s : State} {n : Node} (h : s.Wordless) (hn : n.IsPart) (f : Field) :
    State.Wordless { s with children := n.inField f :: s.children } :=
  List.forall_mem_cons.2 ⟨(Node.word?_inField n f).trans hn.word?_eq_none, h⟩

end State

namespace Production

open State Place

-- ---------------------------------------------------------------------------
-- The word that opens a routine
-- ---------------------------------------------------------------------------

/-- A part in a role is no word. -/
theorem wordless_field {f : Field} {p : Parse Node} (hp : Aside Node.IsPart p) {env : Env}
    {s s' : State} {u : Unit} (hs : s.Wordless) (hrun : Production.field f p env s = .ok u s') :
    s'.Wordless := by
  obtain ⟨n, s₁, hfirst, hattach⟩ := bind_eq_ok hrun
  have hs₁ : s₁.Wordless := by
    unfold Wordless
    rw [(hp.ok hfirst).children]
    exact hs
  cases hattach
  exact hs₁.attach (hp.good env s n s₁ hfirst) f

/-- Attributes and modifiers are no words. -/
theorem wordless_declarationPrefix {env : Env} {s s' : State} {u : Unit} (hs : s.Wordless)
    (hrun : Production.declarationPrefix env s = .ok u s') : s'.Wordless := by
  obtain ⟨_, s₁, hattributes, hmodifiers⟩ := bind_eq_ok hrun
  have hs₁ : s₁.Wordless := by
    -- every line of attributes attaches parts in their role
    refine iterateUpTo_invariant Wordless (fun _ s₂ y s₃ hs₂ hstep => ?_) _ hs hattributes
    obtain ⟨more, s₄, hline, hmore⟩ := bind_eq_ok hstep
    cases hmore
    unfold atKind at hline
    rw [(Looks.test _).run_bind] at hline
    split at hline
    · obtain ⟨_, s₅, hblock, hnewline⟩ := bind_eq_ok hline
      have hs₅ : s₅.Wordless :=
        wordless_field (Aside.checkDepth (Aside.node _ _).isPart).nested hs₂ hblock
      rw [(Looks.test _).run_bind] at hnewline
      split at hnewline
      · cases hnewline
        exact hs₅
      · cases hnewline
        exact hs₅
    · cases hline
      exact hs₂
  rw [Looks.peek.run_bind] at hmodifiers
  split at hmodifiers
  · exact wordless_field (Aside.node _ _).isPart hs₁ hmodifiers
  · cases hmodifiers
    exact hs₁

/-- Whatever it does, the production gives this. -/
def Returns {α : Type} (a : α) (p : Parse α) : Prop :=
  ∀ env s b s', p env s = .ok b s' → b = a

/-- What is given in the end counts. -/
theorem Returns.bind {α β : Type} {b : β} {p : Parse α} {k : α → Parse β}
    (hk : ∀ a, Returns b (k a)) : Returns b (p >>= k) := by
  intro env s b s' hrun
  obtain ⟨a, s₁, -, hrest⟩ := bind_eq_ok hrun
  exact hk a env s₁ b s' hrest

theorem Returns.ite {α : Type} {a : α} {c : Prop} [Decidable c] {p q : Parse α} (hp : Returns a p)
    (hq : Returns a q) : Returns a (if c then p else q) := by
  split
  · exact hp
  · exact hq

theorem Returns.pure {α : Type} (a : α) : Returns a (Pure.pure a : Parse α) := by
  intro env s b s' hrun
  cases hrun
  rfl

/-- A word that is taken first of all is the first among the children. -/
theorem firstWord?_of_take {word w : Keyword} {k : Parse Keyword} (hk : Hushed k)
    (hreturns : Returns word k) {env : Env} {s s' : State} (hs : s.Wordless)
    (hkind : env.kind s = .keyword word)
    (hrun : (Production.take >>= fun _ => k) env s = .ok w s') :
    s'.firstWord? = some w := by
  obtain ⟨_, s₁, htake, hrest⟩ := bind_eq_ok hrun
  obtain rfl := hreturns env s₁ w s' hrest
  have hkept := hk env s₁
  rw [hrest] at hkept
  refine firstWord?_of_suffix ?_ hkept.children
  rw [run_take (hkind ▸ nofun)] at htake
  cases htake
  have hnone : s.children.reverse.findSome? Node.word? = none :=
    List.findSome?_eq_none_iff.2 fun c hc => hs c (List.mem_reverse.1 hc)
  unfold State.firstWord?
  show (_ :: s.children).reverse.findSome? Node.word? = _
  rw [List.reverse_cons, List.findSome?_append, hnone, hkind]
  rfl

/-- What stands behind the word that opens a routine. -/
abbrev behindRoutineWord (isConstructor : Bool) (word : Keyword) : Parse Keyword := do
  if isConstructor then Production.expectWord .kwNew
  else Production.field .name Production.identifier
  Production.signature (word == .kwFunction)
  Production.memberClauses
  Production.endStatement
  return word

theorem returns_behindRoutineWord (isConstructor : Bool) (word : Keyword) :
    Returns word (behindRoutineWord isConstructor word) := by
  have hend : Returns word (do
      Production.signature (word == .kwFunction)
      Production.memberClauses
      Production.endStatement
      return word) :=
    .bind fun _ => .bind fun _ => .bind fun _ => .pure word
  exact .ite (.bind fun _ => hend) (.bind fun _ => hend)

/-- The word that a routine's opening line gives is the first among the node's children. -/
theorem firstWord?_of_routineHeader {isConstructor : Bool} {env : Env} {s s' : State}
    {word : Keyword}
    (hs : s.Wordless) (hrun : Production.routineHeader isConstructor env s = .ok word s') :
    s'.firstWord? = some word ∧ word.isClosedByEnd = true := by
  obtain ⟨_, s₁, hdepth, hrest⟩ := bind_eq_ok hrun
  obtain rfl := checkDepth_eq_ok hdepth
  obtain ⟨_, s₂, hprefix, hrest⟩ := bind_eq_ok hrest
  have hs₂ := wordless_declarationPrefix hs hprefix
  have hword {w w' : Keyword} (hkind : env.kind s₂ = .keyword w')
      (hclosed : w'.isClosedByEnd = true) :
      (Production.take >>= fun _ => behindRoutineWord isConstructor w') env s₂ = .ok w s' →
        s'.firstWord? = some w ∧ w.isClosedByEnd = true := by
    have hphrase : Flows 0 false (.plain true) false _ := Phrase.behindRoutineWord isConstructor w'
    have hreturns := returns_behindRoutineWord isConstructor w'
    intro hbehind
    refine ⟨firstWord?_of_take hphrase.hushed hreturns hs₂ hkind hbehind, ?_⟩
    obtain ⟨_, s₃, -, hrest⟩ := bind_eq_ok hbehind
    rw [hreturns env s₃ w s' hrest]
    exact hclosed
  -- one of two words opens a routine
  rw [Looks.peek.run_bind] at hrest
  generalize hkind : env.kind s₂ = kind at hrest hword
  revert hrest
  split
  · exact hword rfl rfl
  · exact hword rfl rfl
  · intro hrest
    cases hrest

namespace Heeds

variable {own : Keyword → Prop} {closing : Bool} {r : Rule} {pre : Place}

theorem ofStatements : OfStatements Production.statement := ⟨statement, Passage.makesStatements⟩

-- ---------------------------------------------------------------------------
-- Routines
-- ---------------------------------------------------------------------------

/-- The block of a routine is opened, filled and closed. Its own closing line is spared while it is
open. -/
theorem routineBody (word : Keyword) (l : Nat) :
    Heeds (· = word) false r pre Whatever (do
      Production.openBlockAt word l
      Production.statements Production.statement
      Production.finishBlock word) :=
  openBlockAt l (seq (statements ofStatements) (finishBlock word))

/-- The word of the closing line is not known before the header has been read; it is the first word
among the children. -/
theorem routineWithBody {rule : Rule} (hrule : rule = .methodDeclaration ∨
    rule = .constructorDeclaration) :
    Heeds NoWord false r Anywhere Fitting (Production.routineWithBody rule) := by
  refine nodeOf ?_ (look Looks.currentLine fun l => bind (part (Steps.routineHeader _))
    fun word => ?_) ?_
  · rcases hrule with rfl | rfl <;> exact nofun
  · exact (routineBody word l).mono (fun _ _ _ h => h) fun _ => False.elim
  · intro env first s s' span isPartial word ht hcloser hs hchildren _ hrun
    rw [Looks.currentLine.run_bind] at hrun
    obtain ⟨w, s₁, hheader, hbody⟩ := bind_eq_ok hrun
    -- the closing line of the node is that of the first word that the header has attached
    have hwordless : s.Wordless := by
      intro c hc
      rw [hchildren] at hc
      exact absurd hc List.not_mem_nil
    obtain ⟨hfirst, hclosed⟩ := firstWord?_of_routineHeader hwordless hheader
    have hpassage : Runs 0 false (.plain false) false (do
        Production.openBlockAt w (env.line s)
        Production.statements Production.statement
        Production.finishBlock w) :=
      .opening w _ _ (Passage.seq (Passage.statements Passage.makesStatements)
        (Passage.finishBlock w))
    have hkept := hpassage.tidy env s₁
    rw [hbody] at hkept
    have hword : word = some w := by
      rw [← hcloser, Node.closer?_routine hrule]
      exact firstWord?_of_suffix hfirst hkept.children
    subst hword
    -- so its own closing line is judged with the block open from there on
    have hminds {s : State} : Minds (· = w) (some w) s := by
      intro w' hw
      obtain rfl := Option.some.inj hw
      exact ⟨hclosed, .inr rfl⟩
    have hhead : Heeds (· = w) false rule Anywhere Whatever
        (Production.routineHeader (rule == .constructorDeclaration)) :=
      part (Steps.routineHeader _)
    obtain ⟨hs₁, -⟩ := hhead env first _ s w s₁ ht hminds hs trivial hheader
    have hbehind : Heeds (· = w) false rule Anywhere Whatever _ := routineBody w (env.line s)
    exact (hbehind env first _ s₁ () s' ht hminds hs₁ trivial hbody).1

/-- Without a body there is nothing that could hold an error region. -/
theorem routine (a : Ambiguity) {rule : Rule}
    (hrule : rule = .methodDeclaration ∨ rule = .constructorDeclaration) :
    Heeds NoWord false r Sheltered Fitting (Production.routine a rule) := by
  have : Holds rule.isPlain := ⟨by rcases hrule with rfl | rfl <;> rfl⟩
  refine resolve _ (List.forall_mem_cons.2 ⟨?_, List.forall_mem_cons.2 ⟨?_, ?_⟩⟩)
  · exact (routineWithBody hrule).mono (fun _ _ _ _ => trivial) fun _ h => h
  · exact quietNode Builds.routineWithoutBody ready_zero
  · exact fun _ hx => absurd hx List.not_mem_nil

-- ---------------------------------------------------------------------------
-- Properties and events
-- ---------------------------------------------------------------------------

/-- A line end is no closing line. -/
theorem blankLine {kind : TokenKind} (h : kind.isTerminator = true) :
    Heeds own false r (fun word t i => pre word t i ∧ t.kindAt i = kind) Whatever
      (Production.child Production.blankLine) := by
  refine child (quietNode Builds.blankLine fun word t i _ hat => .of_kindAt_ne ?_)
  rw [hat.2]
  rintro rfl
  cases h

/-- What is done behind a look over attributes and modifiers knows the word behind them. -/
theorem peekBehindPrefix {α : Type} {post : Yield α} {k : TokenKind → Parse α}
    (hk : ∀ kind, Heeds own closing r
      (fun word t i => pre word t i ∧ t.kindAt (t.behindPrefix i) = kind) post (k kind)) :
    Heeds own closing r pre post (Production.peekBehindPrefix >>= k) := by
  intro env first word s b s' ht hminds hs hat hrun
  rw [Looks.peekBehindPrefix.run_bind] at hrun
  exact hk _ env first word s b s' ht hminds hs ⟨hat, rfl⟩ hrun

/-- An accessor of either kind: its broken header is recovered behind the word. -/
theorem accessorOf (rule : Rule) (word : Keyword) (hr : rule.saysCloser = true)
    (hcloser : rule.closer?.all (· == word) = true) (hkeeps : rule.keepsBrokenHeader = true)
    (hword : word ≠ .kwEnd) :
    Heeds NoWord false r (fun _ t i => t.kindAt (t.behindPrefix i) = .keyword word) Fitting
      (Production.node rule do
        Production.openBlock word
        Production.recovering do
          Production.declarationPrefix
          Production.expectWord word
          if word == .kwSet then Production.optionalParameters
          Production.endStatement
        Production.statements Production.statement
        Production.finishBlock word) := by
  refine block word hr hcloser
    (openBlock (seq (recovering (Treads.accessorHeader hword) fun _ => hkeeps) ?_))
  exact seq (statements ofStatements) (finishBlock word)

/-- The word behind attributes and modifiers tells which of the two it is. -/
theorem accessor :
    Heeds NoWord false r (fun _ t i => TokenStream.isAccessor (t.kindAt (t.behindPrefix i)) = true)
      Fitting Production.accessor := by
  refine peekBehindPrefix fun kind => ?_
  by_cases hget : (kind == .keyword .kwGet) = true
  · rw [if_pos hget]
    refine (accessorOf .getAccessor .kwGet rfl rfl rfl nofun).mono (fun _ _ _ hat => ?_)
      fun _ h => h
    exact hat.2.trans (beq_iff_eq.1 hget)
  · rw [if_neg hget]
    refine (accessorOf .setAccessor .kwSet rfl rfl rfl nofun).mono (fun _ t i hat => ?_)
      fun _ h => h
    obtain ⟨haccessor, rfl⟩ := hat
    unfold TokenStream.isAccessor at haccessor
    split at haccessor
    · exact absurd (beq_iff_eq.2 ‹_›) hget
    · assumption
    · cases haccessor

/-- What is no accessor and closes nothing becomes a region. -/
theorem propertyItem : Heeds NoWord false r Anywhere Whatever Production.propertyItem := by
  refine peek fun kind => ite (fun hend => round (blankLine hend)) fun _ => ?_
  refine peekBehindPrefix fun kind => ite (fun haccessor => round (child (nested ?_))) fun _ => ?_
  · refine accessor.mono (fun _ _ _ hat => ?_) fun _ h => h
    rw [hat.2]
    exact haccessor
  · exact ifBoundary pure
      (round (child ((unexpected _).mono (fun _ _ _ hat => hat.2) fun _ h => h)))

/-- The property is open while its accessors are read. -/
theorem propertyWithAccessors :
    Heeds NoWord false r (fun _ _ _ => True) Fitting Production.propertyWithAccessors := by
  refine block .kwProperty rfl rfl (look Looks.currentLine
    fun l => seq (part Steps.propertyHeader) ?_)
  refine seq (part Steps.memberClauses) (seq (part Steps.endStatement) (openBlockAt l ?_))
  exact seq (repeatWhile propertyItem) (finishBlock .kwProperty)

/-- Without accessors there is nothing that could hold an error region. -/
theorem propertyDeclaration :
    Heeds NoWord false r Sheltered Fitting Production.propertyDeclaration := by
  refine resolve _ (List.forall_mem_cons.2 ⟨?_, List.forall_mem_cons.2 ⟨?_, ?_⟩⟩)
  · exact propertyWithAccessors.mono (fun _ _ _ _ => trivial) fun _ h => h
  · exact quietNode Builds.propertyWithoutAccessors ready_zero
  · exact fun _ hx => absurd hx List.not_mem_nil

/-- The accessor is open behind its word. -/
theorem eventAccessor {rule : Rule} {word : Keyword} (hr : rule.saysCloser = true)
    (hcloser : rule.closer?.all (· == word) = true) (hkeeps : rule.keepsBrokenHeader = true) :
    Heeds NoWord false r (fun _ t i => t.kindAt i = .keyword word) Fitting
      (Production.eventAccessor rule word) := by
  have hword : Treads false (fun _ t i => t.kindAt i = .keyword word) Inner Production.take :=
    Treads.takeAt nofun rfl
  refine block word hr hcloser (openBlock (bind (of_treads hword) fun _ => ?_))
  refine seq (recovering Treads.eventAccessorHeader fun _ => hkeeps) ?_
  exact seq (statements ofStatements) (finishBlock word)

/-- What is no accessor and closes nothing becomes a region. -/
theorem eventItem : Heeds NoWord false r Anywhere Whatever Production.eventItem := by
  have haccessor {rule : Rule} {word : Keyword} (hr : rule.saysCloser = true)
      (hcloser : rule.closer?.all (· == word) = true) (hkeeps : rule.keepsBrokenHeader = true) :
      Heeds NoWord false r (fun w t i => Anywhere w t i ∧ t.kindAt i = .keyword word) Whatever
        (Production.child (Production.eventAccessor rule word).nested) :=
    child (nested ((eventAccessor hr hcloser hkeeps).mono (fun _ _ _ hat => hat.2) fun _ h => h))
  refine peek fun kind => ?_
  split
  case h_1 | h_2 => exact round (blankLine rfl)
  case h_3 | h_4 | h_5 => exact round (haccessor rfl rfl rfl)
  case h_6 =>
    exact ifBoundary pure
      (round (child ((unexpected _).mono (fun _ _ _ hat => hat.2) fun _ h => h)))

/-- The event is open while its accessors are read. -/
theorem eventWithAccessors :
    Heeds NoWord false r (fun _ _ _ => True) Fitting Production.eventWithAccessors := by
  refine block .kwEvent rfl rfl (look Looks.currentLine fun l => seq (part Steps.eventHeader)
    (openBlockAt l ?_))
  exact seq (repeatWhile eventItem) (finishBlock .kwEvent)

/-- Without accessors there is nothing that could hold an error region. -/
theorem eventDeclaration : Heeds NoWord false r Sheltered Fitting Production.eventDeclaration := by
  refine resolve _ (List.forall_mem_cons.2 ⟨?_, List.forall_mem_cons.2 ⟨?_, ?_⟩⟩)
  · exact eventWithAccessors.mono (fun _ _ _ _ => trivial) fun _ h => h
  · exact quietNode (Builds.node Steps.eventHeader) ready_zero
  · exact fun _ hx => absurd hx List.not_mem_nil

-- ---------------------------------------------------------------------------
-- Types and their members
-- ---------------------------------------------------------------------------

/-- A member of an enumeration that fails leaves a region that begins where the member began. -/
theorem enumItem : Heeds NoWord false r Sheltered Whatever Production.enumItem := by
  refine peek fun kind => ite (fun hend => blankLine hend) fun _ => child (nested ?_)
  exact orRecover (quietNode Builds.enumMember ready_zero) fun _ _ _ hat => hat.1

/-- The enumeration is open while its members are read. -/
theorem enumBlock : Heeds NoWord false r (fun _ _ _ => True) Fitting Production.enumBlock := by
  refine block .kwEnum rfl rfl (seq (part Steps.declarationPrefix) (openBlock ?_))
  refine seq (part (Steps.expectWord .kwEnum)) (seq (part (Steps.field .name Builds.identifier)) ?_)
  refine seq (part Steps.optionalAsClause) (seq (part Steps.endStatement) ?_)
  exact seq (body enumItem) (finishBlock .kwEnum)

/-- A line of clauses may be broken; it is recovered where it broke off, in a node that says so. -/
theorem typeHeadItem (hr : r.keepsBrokenHeader = true) :
    Heeds NoWord false r Anywhere Whatever Production.typeHeadItem := by
  have hclauses {word : Keyword} (hword : word ≠ .kwEnd) :
      Heeds NoWord false r (fun w t i => Anywhere w t i ∧ t.kindAt i = .keyword word) Whatever
        (Production.recovering do
          Production.inheritanceClauses
          Production.endStatement) := by
    refine (recovering Treads.inheritanceHeader fun _ => hr).mono (fun _ t i hat hcloses => ?_)
      fun _ h => h
    exact hword (TokenKind.keyword.inj (hat.2.symm.trans hcloses.end))
  refine peek fun kind => ?_
  split
  case h_1 | h_2 => exact round (blankLine rfl)
  case h_3 | h_4 => exact round (hclauses nofun)
  case h_5 => exact pure

section

variable {typeDeclaration : Parse Node}
  (h : ∀ {r}, Heeds NoWord false r Sheltered Fitting typeDeclaration)

include h

/-- The word that announces a member picks the production, and each of them has been judged. -/
theorem memberProduction? {env : Env} {s : State} {production : Parse Node}
    (hsome : Production.memberProduction? typeDeclaration env s = Option.some production) :
    Heeds NoWord false r Sheltered Fitting production := by
  have hfield : Heeds NoWord false r Sheltered Fitting Production.fieldDeclaration :=
    quietNode Builds.fieldDeclaration ready_zero
  simp only [Production.memberProduction?] at hsome
  split at hsome
  case h_1 =>
    cases hsome
    exact quietNode Builds.constDeclaration ready_zero
  case h_2 =>
    cases hsome
    exact ite (fun _ => routine _ (.inr rfl)) fun _ => routine _ (.inl rfl)
  case h_3 => cases hsome; exact routine _ (.inl rfl)
  case h_4 => cases hsome; exact propertyDeclaration
  case h_5 => cases hsome; exact eventDeclaration
  case h_12 => cases hsome; exact hfield
  case h_13 =>
    split at hsome
    · cases hsome; exact hfield
    · cases hsome
  all_goals cases hsome; exact h

/-- A member that fails leaves a region that begins where the member began. -/
theorem member : Heeds NoWord false r Sheltered Fitting (Production.member typeDeclaration) := by
  refine peek fun kind => ite (fun hend => ?_) fun _ => of_runs fun env s => ?_
  · refine quietNode Builds.blankLine fun word t i _ hat => .of_kindAt_ne ?_
    rw [hat.2]
    rintro rfl
    cases hend
  · cases hproduction : Production.memberProduction? typeDeclaration env s with
    | none =>
      exact ⟨_, (unexpected _).mono (fun _ _ _ hat => hat.1) fun _ h => h, rfl⟩
    | some production =>
      have hmember := orRecover (memberProduction? (r := r) h hproduction) fun _ _ _ h => h
      exact ⟨_, hmember.mono (fun _ _ _ hat => hat.1) fun _ h => h, rfl⟩

/-- The type is open while its members are read. -/
theorem typeBlock {rule : Rule} {word : Keyword} (hr : rule.saysCloser = true)
    (hcloser : rule.closer?.all (· == word) = true) (hkeeps : rule.keepsBrokenHeader = true) :
    Heeds NoWord false r (fun _ _ _ => True) Fitting
      (Production.typeBlock typeDeclaration rule word) := by
  have hmembers {pre : Place} : Heeds NoWord true rule pre Whatever (do
      Production.inheritanceClauses
      Production.endStatement
      Production.repeatWhile Production.typeHeadItem
      Production.body (Production.child (Production.nested (Production.member typeDeclaration)))
      Production.finishBlock word) := by
    refine seq (part Steps.inheritanceClauses) (seq (part Steps.endStatement) ?_)
    have hbody : Heeds NoWord false rule Anywhere Whatever _ := body (child (nested (member h)))
    exact seq (repeatWhile (typeHeadItem hkeeps)) (seq hbody (finishBlock word))
  refine block word hr hcloser (seq (part Steps.declarationPrefix) (openBlock ?_))
  refine seq (part (Steps.expectWord word)) (seq (part (Steps.field .name Builds.identifier)) ?_)
  refine look (Looks.test _) fun _ => ite (fun _ => ?_) fun _ => hmembers
  exact seq (part (Steps.child Builds.typeParameters.nested)) hmembers

/-- The word behind attributes and modifiers tells the kind of type. -/
theorem typeDefinition :
    Heeds NoWord false r (fun _ _ _ => True) Fitting
      (Production.typeDefinition typeDeclaration) := by
  refine look Looks.peekBehindPrefix fun kind => ?_
  split
  case h_5 => exact enumBlock
  case h_6 => exact quietNode Builds.delegateDeclaration ready_zero
  case h_7 => exact fail _
  all_goals exact typeBlock h rfl rfl rfl

end

/-- By induction on the levels that are left. -/
theorem typeDeclarationUpTo (room : Nat) :
    Heeds NoWord false r Sheltered Fitting (Production.typeDeclarationUpTo room) := by
  induction room generalizing r with
  | zero => exact tooDeep
  | succ room ih =>
    have htype : Heeds NoWord false r Sheltered Fitting
        (Production.typeDefinition (Production.typeDeclarationUpTo room)) :=
      (typeDefinition ih).mono (fun _ _ _ _ => trivial) fun _ h => h
    exact checkDepth (bind htype fun _ => wrap rfl rfl)

/-- Every type spares the closing lines of the blocks around it. -/
theorem typeDeclaration : Heeds NoWord false r Sheltered Fitting Production.typeDeclaration :=
  of_runs fun env _ => ⟨_, typeDeclarationUpTo env.room, rfl⟩

-- ---------------------------------------------------------------------------
-- Files
-- ---------------------------------------------------------------------------

/-- An item of a file is picked by its first token, which closes nothing. -/
theorem fileItemOf {namespaceBlock : Parse Node}
    (h : ∀ {r}, Heeds NoWord false r (fun _ t i => t.kindAt i = .keyword .kwNamespace) Fitting
      namespaceBlock) :
    Heeds NoWord false r Sheltered Fitting (Production.fileItemOf namespaceBlock) := by
  have hready {kind : TokenKind} (hkind : kind ≠ .endOfFile) (word : Option Keyword)
      (t : TokenStream)
      (i : Nat) (_ : i ≤ t.tokens.size) (hat : Sheltered word t i ∧ t.kindAt i = kind) :
      t.Ready i 1 :=
    .of_kindAt_ne (hat.2 ▸ hkind)
  refine peek fun kind => ?_
  split
  case h_1 | h_2 =>
    exact quietNode Builds.blankLine (hready nofun)
  case h_3 =>
    exact orRecover (quietNode Builds.optionStatements (hready nofun)) fun _ _ _ hat => hat.1
  case h_4 =>
    exact orRecover (quietNode Builds.importsStatement (hready nofun)) fun _ _ _ hat => hat.1
  case h_5 =>
    exact orRecover (h.mono (fun _ _ _ hat => hat.2) fun _ h => h) fun _ _ _ hat => hat.1
  case h_6 =>
    refine test fun _ => ite (fun _ => ?_) fun _ => ?_
    · exact orRecover (quietNode Builds.fileAttribute ready_zero) fun _ _ _ hat => hat.1
    · exact orRecover (typeDeclaration.mono (fun _ _ _ hat => hat.1) fun _ h => h)
        fun _ _ _ hat => hat.1

/-- By induction on the levels that are left. -/
theorem namespaceBlockUpTo (room : Nat) :
    Heeds NoWord false r (fun _ t i => t.kindAt i = .keyword .kwNamespace) Fitting
      (Production.namespaceBlockUpTo room) := by
  induction room generalizing r with
  | zero => exact tooDeep
  | succ room ih =>
    refine checkDepth (block .kwNamespace rfl rfl (openBlock ?_))
    have hword :
        Treads false (fun _ t i => t.kindAt i = .keyword .kwNamespace) Inner Production.take :=
      Treads.takeAt nofun rfl
    refine bind (of_treads hword) fun _ => seq (part (Steps.field .name Builds.dottedName)) ?_
    exact seq (part Steps.endStatement) (seq (body (child (nested (fileItemOf ih))))
      (finishBlock _))

/-- Every item of a file spares the closing lines of the namespaces around it. -/
theorem fileItem : Heeds NoWord false r Sheltered Fitting Production.fileItem :=
  of_runs fun env _ => ⟨_, fileItemOf (namespaceBlockUpTo env.room), rfl⟩

/-- Outside of all blocks. -/
theorem sourceFileItems : Heeds NoWord false r (fun word _ _ => word = none) Whatever
    (Production.repeatWhile Production.sourceFileItem) := by
  refine repeatWhileKnown (look (Looks.test _) fun _ => ite (fun _ => pure)
    fun _ => round (child ?_))
  refine fileItem.mono (fun _ _ _ hnone => ?_) fun _ h => h
  subst hnone
  exact TokenStream.not_closesAt_none

end Heeds

end Production

-- ---------------------------------------------------------------------------
-- Trees
-- ---------------------------------------------------------------------------

/-- In the tree of every source, an error region inside of a block begins with a line that closes
the block only where a header broke off and lost a token in front of the region. -/
theorem closers_spared (source : List Char) (limits : Limits) :
    ClosersSpared (TokenStream.ofText source)
      (Tree.ofTokens source (TokenStream.ofText source) limits.maxNestingDepth).root := by
  have ht := TokenStream.ordered_ofText source
  obtain ⟨root, s, hrun⟩ := NeverFails.sourceFile
    { source, tokens := TokenStream.ofText source, limit := limits.maxNestingDepth }
    ({ diagnostics := ((TokenStream.ofText source).errors.map
        Diagnostic.ofLexicalError).reverse } : State)
  rw [Tree.ofTokens_of_run hrun]
  unfold sourceFile Production.node at hrun
  rw [Parse.construct_eq] at hrun
  split at hrun
  · rename_i s' hitems
    cases hrun
    have hstart (ds : List Diagnostic) :
        State.Heedful (TokenStream.ofText source) .sourceFile 0 none
        { diagnostics := ds } :=
      ⟨Nat.le_refl _, Nat.zero_le _, fun _ hc => absurd hc List.not_mem_nil, trivial⟩
    have hs' := (Heeds.sourceFileItems (r := .sourceFile) _ 0 none _ () s' ht nofun (hstart _) rfl
      hitems).1
    exact (hs'.kept.finish hs'.kept).within
  · cases hrun

/-- A selection whose first case breaks off behind a comma and the end of its line. -/
def caseWithoutArgument : List Char :=
  "Class C\nSub F()\nSelect Case x\nCase g(1, \nEnd Select\nEnd Sub\nEnd Class\n".toList

/-- An error region may begin with the line that closes a block around it. -/
theorem exists_swallowed_closer :
    ∃ n ∈ (Tree.parse caseWithoutArgument).root.preorder, ∃ p ∈ n.preorder, ∃ region ∈ p.children,
      region.kind = .rule .error ∧
        (TokenStream.ofText caseWithoutArgument).ClosesAt n.closer? region.info.firstToken := by
  decide +kernel

end VisualBasic
