import VisualBasic.Proofs.Accessors

/-!
# Where members begin and end

What a run that leaves no diagnostics behind says of the place where it begins and of the place
where it ends. A member of a type begins with attributes and modifiers, so the search for its word
ends within it. And it ends with its line: behind a terminator, or where a statement may end without
one, at the end of the text or in front of an `Else`. Neither is where a closing line begins, so a
closing line that is reached by members follows a terminator.

Main results:

* `Fares.announced_member` — the word of a member stands in front of its end.
* `Fares.rests_member` — a member ends with its line.
* `TokenStream.AtRest.bars` — a closing line behind members is the first of its line.
-/

namespace VisualBasic

-- ---------------------------------------------------------------------------
-- Places
-- ---------------------------------------------------------------------------

namespace TokenStream

/-- A statement may have ended in front of the index, or may end there without a terminator. -/
def AtRest (t : TokenStream) (i : Nat) : Prop :=
  (0 < i ∧ (t.kindAt (i - 1)).isTerminator = true) ∨ (t.kindAt i).endsLine = true ∨
    t.kindAt i = .keyword .kwElse

/-- A closing line begins only behind a terminator. -/
theorem AtRest.bars {t : TokenStream} {i : Nat} (h : t.AtRest i)
    (hend : t.kindAt i = .keyword .kwEnd) :
    t.Bars false i := by
  rcases h with h | h | h
  · exact ⟨h.1, h.2, .inl hend⟩
  · rw [hend] at h
    cases h
  · rw [hend] at h
    cases h

end TokenStream

namespace Production

variable {α β : Type} {post : TokenStream → Nat → Nat → Prop}

/-- A statement ends with its line. -/
theorem atRest_of_endStatement {env : Env} {s s₁ : State} (hrun : endStatement env s = .ok () s₁) :
    env.tokens.AtRest s₁.cursor := by
  obtain ⟨hterminator, rfl⟩ | ⟨rfl, hend⟩ := endStatement_eq_ok hrun
  · exact .inl ⟨Nat.succ_pos _, hterminator⟩
  · exact .inr hend

/-- A closing line that is not there leaves a diagnostic behind. -/
theorem atCloser_of_finishBlock {opener : Keyword} {env : Env} {s s₁ : State} {u : Unit}
    (hrun : finishBlock opener env s = .ok u s₁)
    (hquiet : s₁.diagnostics.length ≤ s.diagnostics.length) :
    env.atCloser s opener = true := by
  refine Decidable.byContradiction fun hmissing => ?_
  obtain ⟨closed, s₂, hclose, hrest⟩ := bind_eq_ok hrun
  rw [closeBlock_eq, (Looks.test _).run_bind, if_neg hmissing] at hclose
  cases hclose
  cases hrest
  exact absurd hquiet (Nat.not_le_of_lt (Nat.lt_succ_self _))

/-- A run that succeeds and leaves no diagnostics behind leads from one place to another as `post`
says. -/
def Fares (post : TokenStream → Nat → Nat → Prop) (p : Parse α) : Prop :=
  ∀ env s a s₁, s.cursor ≤ env.tokens.tokens.size → p env s = .ok a s₁ →
    s₁.diagnostics.length ≤ s.diagnostics.length → post env.tokens s.cursor s₁.cursor

/-- It ends with its line. -/
abbrev Rests (t : TokenStream) (_ j : Nat) : Prop := t.AtRest j

/-- It ends with a line if it begins behind one. -/
abbrev Stays (t : TokenStream) (i j : Nat) : Prop := t.AtRest i → t.AtRest j

/-- The word that is announced where it begins stands in front of its end. -/
abbrev Announced (t : TokenStream) (i j : Nat) : Prop := t.behindPrefix i ≤ j

namespace Fares

-- ---------------------------------------------------------------------------
-- Rules
-- ---------------------------------------------------------------------------

/-- A failure is no run that succeeds. -/
theorem fail (e : Expected) : Fares post (Production.fail e : Parse α) :=
  fun _ _ _ _ _ hrun => by cases hrun

theorem tooDeep : Fares post (Production.tooDeep : Parse α) :=
  fun _ _ _ _ _ hrun => by cases hrun

/-- A look does not move. -/
theorem look {p : Parse α} {seen : Env → State → α} {k : α → Parse β} (hp : Looks p seen)
    (hk : ∀ a, Fares post (k a)) : Fares post (p >>= k) := by
  intro env s b s₁ hs hrun
  rw [hp.run_bind] at hrun
  exact hk _ env s b s₁ hs hrun

/-- In a branch the condition may be used. -/
theorem ite {c : Prop} [Decidable c] {p q : Parse α} (hp : c → Fares post p)
    (hq : ¬c → Fares post q) : Fares post (if c then p else q) := by
  split
  · exact hp ‹_›
  · exact hq ‹_›

/-- What does not move and leaves no diagnostics behind, in front of something. -/
theorem still {p : Parse α} {k : α → Parse β}
    (hp : ∀ env s a s₁, p env s = .ok a s₁ → s₁.cursor = s.cursor ∧ s₁.diagnostics = s.diagnostics)
    (hk : ∀ a, Fares post (k a)) : Fares post (p >>= k) := by
  intro env s b s₂ hs hrun hquiet
  obtain ⟨a, s₁, hfirst, hrest⟩ := bind_eq_ok hrun
  obtain ⟨hcursor, hsame⟩ := hp env s a s₁ hfirst
  rw [← hcursor] at hs ⊢
  rw [← hsame] at hquiet
  exact hk a env s₁ b s₂ hs hrest hquiet

/-- The look at the limit does not move. -/
theorem checked {k : Unit → Parse β} (hk : Fares post (k ())) :
    Fares post (Production.checkDepth >>= k) := by
  refine still (fun env s a s₁ hrun => ?_) fun _ => hk
  obtain rfl := checkDepth_eq_ok hrun
  exact ⟨rfl, rfl⟩

/-- Opening a block does not move either. -/
theorem openBlock (opener : Keyword) {k : Unit → Parse β} (hk : Fares post (k ())) :
    Fares post (Production.openBlock opener >>= k) := by
  refine still (fun env s a s₁ hrun => ?_) fun _ => hk
  cases hrun
  exact ⟨rfl, rfl⟩

theorem openBlockAt (opener : Keyword) (l : Nat) {k : Unit → Parse β} (hk : Fares post (k ())) :
    Fares post (Production.openBlockAt opener l >>= k) := by
  refine still (fun env s a s₁ hrun => ?_) fun _ => hk
  cases hrun
  exact ⟨rfl, rfl⟩

/-- Something, and behind it what does not move. -/
theorem thenStill {p : Parse α} {k : α → Parse β} (hp : Fares post p)
    (hk : ∀ a env s b s₁, k a env s = .ok b s₁ →
      s₁.cursor = s.cursor ∧ s₁.diagnostics = s.diagnostics) : Fares post (p >>= k) := by
  intro env s b s₂ hs hrun hquiet
  obtain ⟨a, s₁, hfirst, hrest⟩ := bind_eq_ok hrun
  obtain ⟨hcursor, hsame⟩ := hk a env s₁ b s₂ hrest
  rw [hcursor]
  rw [hsame] at hquiet
  exact hp env s a s₁ hs hfirst hquiet

/-- Giving something at the end does not move. -/
theorem thenPure {p : Parse α} (hp : Fares post p) (b : α → β) :
    Fares post (p >>= fun a => pure (b a)) :=
  hp.thenStill fun a env s c s₁ hrun => by
    cases hrun
    exact ⟨rfl, rfl⟩

/-- What is built is attached. -/
theorem child {p : Parse Node} (hp : Fares post p) : Fares post p.child :=
  hp.thenStill fun a env s c s₁ hrun => by
    cases hrun
    exact ⟨rfl, rfl⟩

/-- A node ends where its body does. -/
theorem construct {r : Rule} {first : Nat} {body : Parse Unit} (hbody : Fares post body) :
    Fares post (Production.construct r first body) := by
  intro env s n s₁ hs hrun hquiet
  rw [Parse.construct_eq] at hrun
  split at hrun
  · rename_i s₂ hrun₂
    cases hrun
    exact hbody env { s with children := [], isPartial := false } () s₂ hs hrun₂ hquiet
  · cases hrun

theorem node {r : Rule} {body : Parse Unit} (hbody : Fares post body) :
    Fares post (Production.node r body) :=
  fun env s n s₁ hs hrun => construct hbody env s n s₁ hs hrun

/-- The levels of nesting are a matter of the environment. -/
theorem nested {p : Parse α} (hp : Fares post p) : Fares post p.nested :=
  fun env s a s₁ hs hrun => hp { env with depth := env.depth + 1 } s a s₁ hs hrun

/-- An error region leaves a diagnostic behind. -/
theorem orRecover {p : Parse Node} (hp : Fares post p) : Fares post p.orRecover := by
  intro env s n s₁ hs hrun hquiet
  rw [Parse.orRecover_eq] at hrun
  split at hrun
  · rename_i hok
    cases hrun
    exact hp env s n s₁ hs hok hquiet
  · cases hrun
    exact absurd hquiet (Nat.not_le_of_lt (Nat.lt_succ_self _))

/-- An error region is a diagnostic. -/
theorem unexpected (e : Expected) : Fares post (Production.unexpected e) := by
  intro env s n s₁ _ hrun hquiet
  cases hrun
  exact absurd hquiet (Nat.not_le_of_lt (Nat.lt_succ_self _))

/-- Behind a failure there is a diagnostic, so there was none. -/
theorem recovering {p : Parse Unit} (hclimbs : Climbs p) (hp : Fares post p) :
    Fares post p.recovering := by
  intro env s a s₁ hs hrun hquiet
  have hlater := hclimbs env s hs
  unfold Production.recovering at hrun
  cases hfirst : p env s with
  | ok _ s₂ =>
    rw [hfirst] at hrun
    cases hrun
    exact hp env s () s₁ hs hfirst hquiet
  | error f s₂ =>
    rw [hfirst] at hrun hlater
    cases hrun
    exact absurd hquiet (Nat.not_le_of_lt (Nat.lt_succ_of_le hlater.diagnostics.length_le))

/-- What was tried before the rule that fits is undone. -/
theorem firstFit {a : Ambiguity} {alternatives : List Alternative}
    (h : ∀ x ∈ alternatives, Fares post x.production) (best : Option Failure) :
    Fares post (Production.firstFit a best alternatives) := by
  induction alternatives generalizing best with
  | nil => exact fun _ _ _ _ _ hrun => by cases hrun
  | cons x rest ih =>
    have hrest := ih fun y hy => h y (List.mem_cons_of_mem x hy)
    intro env s n s₁ hs hrun hquiet
    rw [Parse.firstFit_cons_eq] at hrun
    split at hrun
    · split at hrun
      · rename_i hok
        cases hrun
        exact h x List.mem_cons_self env s n s₁ hs hok hquiet
      · exact hrest _ env s n s₁ hs hrun hquiet
    · exact hrest _ env s n s₁ hs hrun hquiet

/-- The same of the choice as a whole. -/
theorem resolve {a : Ambiguity} {alternatives : List Alternative}
    (h : ∀ x ∈ alternatives, Fares post x.production) :
    Fares post (Production.resolve a alternatives) :=
  checked (firstFit h none)

/-- A choice between two forms. -/
theorem twoForms {a : Ambiguity} {viable : Env → State → Bool} {p q : Parse Node}
    (hp : Fares post p) (hq : Fares post q) :
    Fares post (Production.resolve a [{ viable, production := p }, { production := q }]) := by
  refine resolve fun x hx => ?_
  rcases List.mem_cons.1 hx with rfl | hx
  · exact hp
  · rw [List.mem_singleton.1 hx]
    exact hq

-- ---------------------------------------------------------------------------
-- Where members begin
-- ---------------------------------------------------------------------------

/-- What is announced is in front of the end of the first part. -/
theorem front {p : Parse α} {k : α → Parse β} (hclimbs : Climbs p) (hk : ∀ a, Climbs (k a))
    (hp : Fares Announced p) : Fares Announced (p >>= k) := by
  intro env s b s₂ hs hrun hquiet
  obtain ⟨a, s₁, hfirst, hrest⟩ := bind_eq_ok hrun
  have hlater := (hk a).ok (hclimbs.ok hs hfirst).le_size hrest
  refine Nat.le_trans (hp env s a s₁ hs hfirst ?_) hlater.cursor
  exact Nat.le_trans hlater.diagnostics.length_le hquiet

/-- Attributes and modifiers are read up to the word behind them. -/
theorem announced_behindPrefix {k : Unit → Parse β} (hk : Climbs (k ())) :
    Fares Announced (declarationPrefix >>= k) := by
  intro env s b s₂ hs hrun _
  obtain ⟨_, s₁, hfirst, hrest⟩ := bind_eq_ok hrun
  have hbefore : Flows 0 false {} false declarationPrefix := Phrase.declarationPrefix
  have hlater := hk.ok (hbefore.climbs.ok hs hfirst).le_size hrest
  have hle : env.tokens.behindPrefix s.cursor ≤ s₁.cursor := by
    rcases behindPrefix_of_declarationPrefix hs hfirst with ⟨-, hlt⟩ | heq
    · exact Nat.le_of_lt hlt
    · exact Nat.le_of_eq heq
  exact Nat.le_trans hle hlater.cursor

/-- A declaration on one line. -/
theorem announced_line {r : Rule} {lands : Bool} {q : Parse Unit}
    (hq : Flows 0 false (.plain false) lands q) :
    Fares Announced (Production.line r (declarationPrefix >>= fun _ => q)) := by
  have hbefore : Flows 0 false {} false declarationPrefix := Phrase.declarationPrefix
  have hend : Flows 0 false {} false Production.endStatement := Phrase.endStatement
  refine node (front (hbefore.climbs.bind fun _ => hq.climbs) (fun _ => hend.climbs) ?_)
  exact announced_behindPrefix hq.climbs

/-- The opening line of a routine reads the word that announces it. -/
theorem announced_routineHeader (isConstructor : Bool) :
    Fares Announced (Production.routineHeader isConstructor) := by
  have hrest : Flows 0 false (.plain false) false _ := Phrase.routineRest isConstructor
  exact checked (announced_behindPrefix hrest.climbs)

/-- It goes forward. -/
theorem climbs_routineHeader (isConstructor : Bool) :
    Climbs (Production.routineHeader isConstructor) := by
  have hheader : Flows 0 false {} false (Production.routineHeader isConstructor) :=
    Phrase.routineHeader isConstructor
  exact hheader.climbs

/-- Behind the opening line a routine goes forward. -/
theorem announced_routineWithBody (r : Rule) : Fares Announced (Production.routineWithBody r) := by
  refine node (look Looks.currentLine fun l => ?_)
  have hrest (word : Keyword) : Runs 0 false {} false (do
      Production.openBlockAt word l
      statements statement
      Production.finishBlock word) :=
    .opening word l l (.seq (Passage.statements Passage.makesStatements) (.finishBlock word))
  exact front (climbs_routineHeader _) (fun word => (hrest word).climbs) (announced_routineHeader _)

theorem announced_routineWithoutBody (r : Rule) :
    Fares Announced (Production.routineWithoutBody r) :=
  node ((announced_routineHeader _).thenPure fun _ => ())

/-- So it does in either form. -/
theorem announced_routine (a : Ambiguity) (r : Rule) : Fares Announced (Production.routine a r) :=
  twoForms (announced_routineWithBody r) (announced_routineWithoutBody r)

theorem announced_propertyHeader : Fares Announced Production.propertyHeader := by
  have hrest : Flows 0 false {} true _ := Phrase.propertyName
  exact checked (announced_behindPrefix hrest.climbs)

/-- The same of properties. -/
theorem announced_propertyDeclaration : Fares Announced Production.propertyDeclaration := by
  have hheader : Flows 0 false {} true Production.propertyHeader := Phrase.propertyHeader
  refine twoForms (node (look Looks.currentLine fun l => ?_)) (node ?_)
  · have hrest : Runs 0 false {} false (do
        Production.memberClauses
        Production.endStatement
        Production.openBlockAt .kwProperty l
        Production.repeatWhile Production.propertyItem
        Production.finishBlock .kwProperty) := by
      refine .after Phrase.memberClauses (.after Phrase.endStatement (.opening _ l l ?_))
      exact .seq (.repeatWhile .propertyItem Passage.progresses_propertyItem) (.finishBlock _)
    exact front hheader.climbs (fun _ => hrest.climbs) announced_propertyHeader
  · have hclauses : Flows 0 false (.plain true) true (do
        Production.optionalValue .initializer
        Production.memberClauses) :=
      .seq (.optionalValue _) .memberClauses
    have hend : Flows 0 false {} false Production.endStatement := Phrase.endStatement
    refine front (hheader.climbs.bind fun _ => hclauses.climbs) (fun _ => hend.climbs) ?_
    exact front hheader.climbs (fun _ => hclauses.climbs) announced_propertyHeader

theorem announced_eventHeader : Fares Announced Production.eventHeader := by
  have hrest : Flows 0 false {} false _ := Phrase.eventName
  exact checked (announced_behindPrefix hrest.climbs)

/-- And of events. -/
theorem announced_eventDeclaration : Fares Announced Production.eventDeclaration := by
  have hheader : Flows 0 false {} false Production.eventHeader := Phrase.eventHeader
  refine twoForms (node (look Looks.currentLine fun l => ?_)) (node announced_eventHeader)
  have hrest : Runs 0 false {} false (do
      Production.openBlockAt .kwEvent l
      Production.repeatWhile Production.eventItem
      Production.finishBlock .kwEvent) :=
    .opening _ l l (.seq (.repeatWhile .eventItem Passage.progresses_eventItem) (.finishBlock _))
  exact front hheader.climbs (fun _ => hrest.climbs) announced_eventHeader

/-- The attributes and modifiers of an accessor stand in the part that recovers from failures. -/
theorem announced_accessor : Fares Announced Production.accessor := by
  have hword (word : Keyword) : Climbs (do
      expectWord word
      if word == .kwSet then optionalParameters
      Production.endStatement) := by
    have hparameters : Flows 0 false {} false (do
        optionalParameters
        Production.endStatement) := .seq .optionalParameters .endStatement
    have hend : Flows 0 false {} false Production.endStatement := Phrase.endStatement
    exact (Climbs.ifTake _).bind fun _ => .ite hparameters.climbs hend.climbs
  have hbefore : Flows 0 false {} false declarationPrefix := Phrase.declarationPrefix
  have hrest (word : Keyword) : Climbs (do
      statements statement
      Production.finishBlock word) := by
    have hstatements : Runs 0 false {} false (statements statement) :=
      Passage.statements Passage.makesStatements
    refine hstatements.climbs.bind fun _ => (Climbs.closeBlock word).bind fun closed => ?_
    have hend : Flows 0 false {} false Production.endStatement := Phrase.endStatement
    exact .ite (.recovering hend.climbs) (.pure ())
  refine look Looks.peekBehindPrefix fun kind => node (openBlock _ ?_)
  refine front (.recovering (hbefore.climbs.bind fun _ => hword _)) (fun _ => hrest _) ?_
  exact recovering (hbefore.climbs.bind fun _ => hword _) (announced_behindPrefix (hword _))

section

variable {typeDeclaration : Parse Node}

/-- The opening line of a type reads the word that announces it. -/
theorem announced_typeBlock (htype : Makes 0 false (.plain false) typeDeclaration)
    (hbuilds : Builds .loud 0 true typeDeclaration) (r : Rule) {word : Keyword}
    (hword : (TokenKind.keyword word).isWord = true) :
    Fares Announced (Production.typeBlock typeDeclaration r word) := by
  have hrest : Runs 0 false {} false _ := Passage.typeRest htype hbuilds hword
  exact node (announced_behindPrefix hrest.climbs)

/-- So does that of an enumeration. -/
theorem announced_enumBlock : Fares Announced Production.enumBlock := by
  have hrest : Runs 0 false {} false (Production.openBlock .kwEnum >>= fun _ => _) :=
    Passage.openBlock .kwEnum Passage.enumRest
  exact node (announced_behindPrefix hrest.climbs)

/-- Every kind of type does. -/
theorem announced_typeDefinition (htype : Makes 0 false (.plain false) typeDeclaration)
    (hbuilds : Builds .loud 0 true typeDeclaration) :
    Fares Announced (Production.typeDefinition typeDeclaration) := by
  refine look Looks.peekBehindPrefix fun kind => ?_
  split
  · exact announced_typeBlock htype hbuilds _ rfl
  · exact announced_typeBlock htype hbuilds _ rfl
  · exact announced_typeBlock htype hbuilds _ rfl
  · exact announced_typeBlock htype hbuilds _ rfl
  · exact announced_enumBlock
  · exact announced_line Phrase.delegateSignature
  · exact fail _

end

/-- A wrapper does not move. -/
theorem wrapped {p : Parse Node} (r : Rule) (hp : Fares post p) :
    Fares post (p >>= Production.wrap r) :=
  hp.thenStill fun a env s b s₁ hrun => by
    cases hrun
    exact ⟨rfl, rfl⟩

/-- By induction on the levels that are left. -/
theorem announced_typeDeclarationUpTo (room : Nat) :
    Fares Announced (Production.typeDeclarationUpTo room) := by
  cases room with
  | zero => exact tooDeep
  | succ room =>
    refine checked (wrapped _ (announced_typeDefinition ?_ (Builds.typeDeclarationUpTo room)))
    exact Passage.typeDeclarationUpTo room

/-- The word of a member stands in front of its end. -/
theorem announced_member {typeDeclaration : Parse Node} (htype : Fares Announced typeDeclaration)
    {what : TokenKind × TokenKind × Bool} {p : Parse Node}
    (h : Passage.announced typeDeclaration what = some p) : Fares Announced p :=
  Passage.announced_cases h (announced_line Phrase.constRow) (announced_routine _ _)
  (announced_routine _ _)
    announced_propertyDeclaration announced_eventDeclaration htype (announced_line Phrase.fieldRow)

-- ---------------------------------------------------------------------------
-- Where members end
-- ---------------------------------------------------------------------------

/-- What is done last ends with its line. -/
theorem tail {p : Parse α} {k : α → Parse β} (hp : Climbs p) (hk : ∀ a, Fares Rests (k a)) :
    Fares Rests (p >>= k) := by
  intro env s b s₂ hs hrun hquiet
  obtain ⟨a, s₁, hfirst, hrest⟩ := bind_eq_ok hrun
  have hlater := hp.ok hs hfirst
  refine hk a env s₁ b s₂ hlater.le_size hrest ?_
  exact Nat.le_trans hquiet hlater.diagnostics.length_le

/-- What stays at the ends of lines, and something of the kind behind it. -/
theorem thenStays {p : Parse α} {k : α → Parse β} (hclimbs : Climbs p)
    (hrest : ∀ a, Climbs (k a)) (hp : Fares Stays p) (hk : ∀ a, Fares Stays (k a)) :
    Fares Stays (p >>= k) := by
  intro env s b s₂ hs hrun hquiet hbegin
  obtain ⟨a, s₁, hfirst, hbehind⟩ := bind_eq_ok hrun
  have hlater := hclimbs.ok hs hfirst
  have hlater₁ := (hrest a).ok hlater.le_size hbehind
  refine hk a env s₁ b s₂ hlater.le_size hbehind ?_ (hp env s a s₁ hs hfirst ?_ hbegin)
  · exact Nat.le_trans hquiet hlater.diagnostics.length_le
  · exact Nat.le_trans hlater₁.diagnostics.length_le hquiet

/-- What ends with its line, and behind it what stays at the ends of lines. -/
theorem restsThen {p : Parse α} {k : α → Parse β} (hclimbs : Climbs p)
    (hrest : ∀ a, Climbs (k a)) (hp : Fares Rests p) (hk : ∀ a, Fares Stays (k a)) :
    Fares Rests (p >>= k) := by
  intro env s b s₂ hs hrun hquiet
  obtain ⟨a, s₁, hfirst, hbehind⟩ := bind_eq_ok hrun
  have hlater := hclimbs.ok hs hfirst
  have hlater₁ := (hrest a).ok hlater.le_size hbehind
  refine hk a env s₁ b s₂ hlater.le_size hbehind ?_ (hp env s a s₁ hs hfirst ?_)
  · exact Nat.le_trans hquiet hlater.diagnostics.length_le
  · exact Nat.le_trans hlater₁.diagnostics.length_le hquiet

/-- What ends with its line in any case does so if it begins behind one. -/
theorem stays {p : Parse α} (hp : Fares Rests p) : Fares Stays p :=
  fun env s a s₁ hs hrun hquiet _ => hp env s a s₁ hs hrun hquiet

/-- Rounds stay at the ends of lines if each of them does. -/
theorem stays_repeatWhile {step : Parse Bool} (hconsumes : Consumes step)
    (hstep : Fares Stays step) :
    Fares Stays (Production.repeatWhile step) := by
  intro env s u s₂ hs hrun hquiet
  have hrounds := (hconsumes.loopRun_iff hs).2 hrun
  clear hrun
  generalize hresult : (EStateM.Result.ok u s₂ : EStateM.Result Failure State Unit) =
    result at hrounds
  induction hrounds with
  | stop h =>
    cases hresult
    exact hstep env _ false _ hs h hquiet
  | fails => cases hresult
  | @again s s₁ _ h rest ih =>
    subst hresult
    have hlater := hconsumes.climbs.ok hs h
    have hlater₁ :=
      (Climbs.iterate (fun _ => hconsumes.climbs.bind fun _ => .pure _) ()).ok hlater.le_size
      ((hconsumes.loopRun_iff hlater.le_size).1 rest)
    intro hbegin
    refine ih hlater.le_size ?_ rfl (hstep env s true s₁ hs h ?_ hbegin)
    · exact Nat.le_trans hquiet hlater.diagnostics.length_le
    · exact Nat.le_trans hlater₁.diagnostics.length_le hquiet

theorem rests_endStatement : Fares Rests Production.endStatement :=
  fun _ _ _ _ _ hrun _ => atRest_of_endStatement hrun

theorem climbs_endStatement : Climbs Production.endStatement := by
  have hend : Flows 0 false {} false Production.endStatement := Phrase.endStatement
  exact hend.climbs

/-- A closing line ends with its line, or is missing, which is a diagnostic. -/
theorem rests_finishBlock (opener : Keyword) : Fares Rests (Production.finishBlock opener) := by
  intro env s _ s₂ hs hrun hquiet
  obtain ⟨closed, s₁, hclose, hrest⟩ := bind_eq_ok hrun
  have hlater := (Climbs.closeBlock opener).ok hs hclose
  rw [(run_closeBlock (atCloser_of_finishBlock hrun hquiet)).2] at hclose
  obtain ⟨rfl, -⟩ := EStateM.Result.ok.inj hclose
  refine recovering climbs_endStatement rests_endStatement env s₁ () s₂ hlater.le_size hrest ?_
  exact Nat.le_trans hquiet hlater.diagnostics.length_le

/-- A declaration on one line ends with it. -/
theorem rests_line {r : Rule} {lands : Bool} {content : Parse Unit}
    (hcontent : Flows 0 false {} lands content) : Fares Rests (Production.line r content) :=
  node (tail hcontent.climbs fun _ => rests_endStatement)

/-- The word of a routine is looked at and handed on. -/
theorem routineWord {k : Keyword → Parse α} (hk : ∀ word, Fares post (k word)) :
    Fares post (do
      let word ← match ← Production.peek with
        | .keyword .kwSub => Pure.pure Keyword.kwSub
        | .keyword .kwFunction => Pure.pure Keyword.kwFunction
        | _ => Production.fail (.oneOf [.keyword .kwSub, .keyword .kwFunction])
      k word) := by
  refine look Looks.peek fun kind => ?_
  split
  · exact hk .kwSub
  · exact hk .kwFunction
  · exact fun _ _ _ _ _ hrun => by cases hrun

/-- The opening line of a routine ends with its line. -/
theorem rests_routineHeader (isConstructor : Bool) :
    Fares Rests (Production.routineHeader isConstructor) := by
  have hbefore : Flows 0 false {} false declarationPrefix := Phrase.declarationPrefix
  have hname : Flows 0 false {} true (field .name identifier) := .field _ .identifier
  have hend (word : Keyword) : Fares Rests (do
      signature (word == .kwFunction)
      memberClauses
      Production.endStatement
      return word) := by
    have hsignature : Flows 0 false (.plain true) true (signature (word == .kwFunction)) :=
      Phrase.signature _
    have hclauses : Flows 0 false {} false memberClauses := Phrase.memberClauses
    refine tail hsignature.climbs fun _ => tail hclauses.climbs fun _ => ?_
    exact rests_endStatement.thenPure fun _ => word
  refine checked (tail hbefore.climbs fun _ => routineWord fun word => tail Climbs.take fun _ => ?_)
  exact ite (fun _ => tail (Climbs.ifTake _) fun _ => hend word) fun _ => tail hname.climbs
    fun _ => hend word

/-- With a body or without, a routine ends with a line. -/
theorem rests_routine (a : Ambiguity) (r : Rule) : Fares Rests (Production.routine a r) := by
  have hstatements : Runs 0 false {} false (statements statement) :=
    Passage.statements Passage.makesStatements
  refine twoForms (node (look Looks.currentLine fun l => ?_)) (node ?_)
  · refine tail (climbs_routineHeader _) fun word => openBlockAt word l ?_
    exact tail hstatements.climbs fun _ => rests_finishBlock word
  · exact (rests_routineHeader _).thenPure fun _ => ()

/-- A property does. -/
theorem rests_propertyDeclaration : Fares Rests Production.propertyDeclaration := by
  have hheader : Flows 0 false {} true Production.propertyHeader := Phrase.propertyHeader
  have hclauses : Flows 0 false {} false memberClauses := Phrase.memberClauses
  have hrows : Runs 0 false {} false (Production.repeatWhile propertyItem) :=
    .repeatWhile .propertyItem Passage.progresses_propertyItem
  have hvalue : Flows 0 false (.plain true) true (optionalValue .initializer) := .optionalValue _
  refine twoForms (node (look Looks.currentLine fun l => ?_)) (node ?_)
  · refine tail hheader.climbs fun _ => tail hclauses.climbs
      fun _ => tail climbs_endStatement fun _ => ?_
    exact openBlockAt _ l (tail hrows.climbs fun _ => rests_finishBlock _)
  · refine tail (hheader.climbs.bind fun _ => ?_) fun _ => rests_endStatement
    exact hvalue.climbs.bind fun _ => hclauses.climbs

/-- The opening line of an event ends with its line. -/
theorem rests_eventHeader : Fares Rests Production.eventHeader := by
  have hbefore : Flows 0 false {} false declarationPrefix := Phrase.declarationPrefix
  have hname : Flows 0 false {} true (field .name identifier) := .field _ .identifier
  have hparameters : Flows 0 false {} true (field .parameters (Production.nested parameters)) :=
    .fieldNested _ .parameters
  have hclause : Flows 0 false {} false optionalAsClause := Phrase.optionalAsClause
  have hclauses : Flows 0 false {} false memberClauses := Phrase.memberClauses
  have hend : Fares Rests (do
      memberClauses
      Production.endStatement) := tail hclauses.climbs fun _ => rests_endStatement
  refine checked (tail hbefore.climbs fun _ => tail (Climbs.ifTake _)
    fun _ => tail hname.climbs fun _ => ?_)
  refine look (Looks.test _) fun _ => ite (fun _ => ?_) fun _ => ?_
  · exact tail hparameters.climbs fun _ => hend
  · exact tail hclause.climbs fun _ => hend

/-- An event ends with a line. -/
theorem rests_eventDeclaration : Fares Rests Production.eventDeclaration := by
  have hheader : Flows 0 false {} false Production.eventHeader := Phrase.eventHeader
  have hrows : Runs 0 false {} false (Production.repeatWhile eventItem) :=
    .repeatWhile .eventItem Passage.progresses_eventItem
  refine twoForms (node (look Looks.currentLine fun l => ?_)) (node rests_eventHeader)
  refine tail hheader.climbs fun _ => openBlockAt _ l (tail hrows.climbs
    fun _ => rests_finishBlock _)

/-- Behind a terminator a line begins. -/
theorem rests_ruleLeaf {r : Rule} {env : Env} {s s₁ : State} {n : Node}
    (hkind : (env.kind s).isTerminator = true) (hrun : ruleLeaf r env s = .ok n s₁) :
    env.tokens.AtRest s₁.cursor := by
  cases hrun
  have hnext : env.next s.cursor = s.cursor + 1 :=
    Env.next_eq_succ (TokenKind.ne_endOfFile_of hkind rfl)
  refine .inl ?_
  show 0 < env.next s.cursor ∧ (env.tokens.kindAt (env.next s.cursor - 1)).isTerminator = true
  rw [hnext]
  exact ⟨Nat.succ_pos _, hkind⟩

/-- Behind a blank line, too. -/
theorem rests_childBlank {env : Env} {s s₁ : State} {u : Unit}
    (hkind : (env.kind s).isTerminator = true)
    (hrun : Production.child Production.blankLine env s = .ok u s₁) :
    env.tokens.AtRest s₁.cursor := by
  obtain ⟨n, s₂, hblank, hattach⟩ := bind_eq_ok hrun
  cases hattach
  have hrests := rests_ruleLeaf hkind hblank
  exact hrests

/-- A blank line, or something else where there is none. -/
theorem blankOr {p : Parse Node} (hp : Fares Rests p) :
    Fares Rests (Production.peek >>= fun kind => if kind.isTerminator
      then Production.blankLine else p) := by
  intro env s n s₁ hs hrun hquiet
  rw [Looks.peek.run_bind] at hrun
  split at hrun
  · exact rests_ruleLeaf ‹_› hrun
  · exact hp env s n s₁ hs hrun hquiet

section

variable {typeDeclaration : Parse Node}

/-- Whichever member is announced, it ends with a line. -/
theorem rests_announced (htype : Fares Rests typeDeclaration)
    {what : TokenKind × TokenKind × Bool} {p : Parse Node}
    (h : Passage.announced typeDeclaration what = some p) : Fares Rests p := by
  have hconst : Flows 0 false {} true (declarationPrefix >>= fun _ => _) :=
    .seqAny .declarationPrefix .constRow
  have hfield : Flows 0 false {} true (declarationPrefix >>= fun _ => _) :=
    .seqAny .declarationPrefix .fieldRow
  exact Passage.announced_cases h (rests_line hconst) (rests_routine _ _) (rests_routine _ _)
    rests_propertyDeclaration rests_eventDeclaration htype (rests_line hfield)

/-- A member ends with its line. -/
theorem rests_member (htype : Fares Rests typeDeclaration) :
    Fares Rests (Production.member typeDeclaration) := by
  rw [Passage.member_eq]
  refine blankOr (look (fun _ _ => rfl) fun what => ?_)
  cases h : Passage.announced typeDeclaration what with
  | none => exact unexpected _
  | some p => exact orRecover (rests_announced htype h)

end

/-- Items that end with their lines stay at the ends of lines. -/
theorem stays_body {item : Parse Unit} (hconsumes : Consumes (bodyItem item))
    (hitem : Fares Rests item) : Fares Stays (Production.body item) := by
  refine stays_repeatWhile hconsumes (look (Looks.test _) fun ends => ite (fun _ => ?_) fun _ => ?_)
  · intro env s b s₁ _ hrun _ hbegin
    cases hrun
    exact hbegin
  · exact stays (hitem.thenPure fun _ => true)

/-- The lines of clauses end with a line if they begin behind one. -/
theorem stays_typeHead : Fares Stays (Production.repeatWhile typeHeadItem) := by
  refine stays_repeatWhile OfBody.typeHead.consumes ?_
  have hclauses : Flows 0 false {} false inheritanceClauses := Phrase.inheritanceClauses
  have hround : Fares Rests (do
      Production.recovering do
        inheritanceClauses
        Production.endStatement
      return true) := by
    refine thenPure (recovering (hclauses.climbs.bind fun _ => climbs_endStatement) ?_)
      fun _ => true
    exact tail hclauses.climbs fun _ => rests_endStatement
  intro env s b s₁ hs hrun hquiet
  have hblank (hkind : (env.kind s).isTerminator = true)
      (hrun : (do
        Production.child Production.blankLine
        return true) env s = .ok b s₁) : env.tokens.AtRest s₁.cursor := by
    obtain ⟨_, s₂, hchild, hend⟩ := bind_eq_ok hrun
    cases hend
    exact rests_childBlank hkind hchild
  unfold typeHeadItem at hrun
  rw [Looks.peek.run_bind] at hrun
  generalize hkind : env.kind s = kind at hrun hblank
  split at hrun
  · exact fun _ => hblank rfl hrun
  · exact fun _ => hblank rfl hrun
  · exact fun _ => hround env s b s₁ hs hrun hquiet
  · exact fun _ => hround env s b s₁ hs hrun hquiet
  · cases hrun
    exact id

end Fares

-- ---------------------------------------------------------------------------
-- Types up to their closing lines
-- ---------------------------------------------------------------------------

/-- The line that opens a type, given what stands behind its prefix. -/
def openingLine (word : Keyword) (q : Parse Unit) : Parse Unit := do
  declarationPrefix
  openBlock word
  q

/-- What stands behind the prefix of a type with members, to the end of its line. -/
def typeName (word : Keyword) : Parse Unit := do
  expectWord word
  field .name identifier
  if ← atKind (.mark .leftParen) then child (nested typeParameters)
  inheritanceClauses
  endStatement

/-- What stands behind the prefix of an enumeration, to the end of its line. -/
def enumName : Parse Unit := do
  expectWord .kwEnum
  field .name identifier
  optionalAsClause
  endStatement

/-- A type up to its closing line. -/
def typeRows (typeDeclaration : Parse Node) (word : Keyword) : Parse Unit := do
  openingLine word (typeName word)
  repeatWhile typeHeadItem
  body (child (nested (member typeDeclaration)))

/-- An enumeration up to its closing line. -/
def enumRows : Parse Unit := do
  openingLine .kwEnum enumName
  body enumItem

/-- A type in two parts: all of its lines but the last one, and the closing line. -/
theorem typeBlock_eq (typeDeclaration : Parse Node) (r : Rule) (word : Keyword) :
    typeBlock typeDeclaration r word =
      node r (typeRows typeDeclaration word >>= fun _ => finishBlock word) := by
  simp only [typeBlock, typeRows, openingLine, typeName, bind_assoc]
  refine congrArg
    _ (congrArg _ (funext fun _ => congrArg _ (funext fun _ => congrArg _ (funext fun _ =>
    congrArg _ (funext fun _ => congrArg _ (funext fun parenthesis => ?_))))))
  cases parenthesis
  · simp only [Bool.false_eq_true, if_false, bind_assoc]
  · simp only [if_true, bind_assoc]

/-- An enumeration in two parts. -/
theorem enumBlock_eq : enumBlock = node .enumBlock (enumRows >>= fun _ => finishBlock .kwEnum) := by
  simp only [enumBlock, enumRows, openingLine, enumName, bind_assoc]

theorem Phrase.typeName {word : Keyword} (hword : (TokenKind.keyword word).isWord = true) :
    Flows 0 false {} false (Production.typeName word) := by
  refine seq (expectWord (.word hword)) (seq (field _ identifier) ?_)
  have hend : Flows 0 false (.plain true) false (do
      Production.inheritanceClauses
      Production.endStatement) := seq inheritanceClauses endStatement
  exact ifAt (seq (childNested typeParameters) hend) hend

theorem Phrase.enumName : Flows 0 false {} false Production.enumName :=
  seq (expectWord (.word rfl)) (seq (field _ identifier) (seq optionalAsClause endStatement))

theorem Climbs.openingLine (word : Keyword) {q : Parse Unit} (hq : Climbs q) :
    Climbs (Production.openingLine word q) := by
  have hbefore : Flows 0 false {} false Production.declarationPrefix := Phrase.declarationPrefix
  refine hbefore.climbs.bind fun _ => bind ?_ fun _ => hq
  exact look Looks.currentLine fun l => openBlockAt word l

namespace Fares

/-- The opening line of a type ends with its line. -/
theorem rests_typeName (word : Keyword) : Fares Rests (typeName word) := by
  have hname : Flows 0 false {} true (field .name identifier) := .field _ .identifier
  have hparameters : Flows 0 false {} true (Production.child (Production.nested typeParameters)) :=
    .childNested .typeParameters
  have hclauses : Flows 0 false {} false inheritanceClauses := Phrase.inheritanceClauses
  have hend : Fares Rests (do
      inheritanceClauses
      Production.endStatement) := tail hclauses.climbs fun _ => rests_endStatement
  refine tail (Climbs.ifTake _) fun _ => tail hname.climbs fun _ => look (Looks.test _) fun _ => ?_
  exact ite (fun _ => tail hparameters.climbs fun _ => hend) fun _ => hend

theorem rests_enumName : Fares Rests enumName := by
  have hname : Flows 0 false {} true (field .name identifier) := .field _ .identifier
  have hclause : Flows 0 false {} false optionalAsClause := Phrase.optionalAsClause
  refine tail (Climbs.ifTake _) fun _ => tail hname.climbs fun _ => tail hclause.climbs fun _ => ?_
  exact rests_endStatement

theorem rests_openingLine (word : Keyword) {q : Parse Unit} (hq : Fares Rests q) :
    Fares Rests (openingLine word q) := by
  have hbefore : Flows 0 false {} false declarationPrefix := Phrase.declarationPrefix
  exact tail hbefore.climbs fun _ => openBlock word hq

section

variable {typeDeclaration : Parse Node}

/-- The members of a type go forward. -/
theorem climbs_members (htype : Makes 0 false (.plain false) typeDeclaration)
    (hbuilds : Builds .loud 0 true typeDeclaration) :
    Climbs (Production.body (Production.child (Production.nested (member typeDeclaration)))) := by
  have hconsumes := Consumes.items (Passage.member htype) (Passage.builds_member hbuilds)
  exact .iterate (fun _ => hconsumes.climbs.bind fun _ => .pure _) ()

/-- The last line in front of the closing line ends with its line. -/
theorem rests_typeRows (htype : Makes 0 false (.plain false) typeDeclaration)
    (hbuilds : Builds .loud 0 true typeDeclaration) (hrests : Fares Rests typeDeclaration)
    {word : Keyword}
    (hword : (TokenKind.keyword word).isWord = true) :
    Fares Rests (typeRows typeDeclaration word) := by
  have hhead : Runs 0 false {} false (Production.repeatWhile typeHeadItem) := Passage.typeHead
  have hmembers := climbs_members htype hbuilds
  have hconsumes := Consumes.items (Passage.member htype) (Passage.builds_member hbuilds)
  refine restsThen (.openingLine word (Phrase.typeName hword).climbs) (fun _ => ?_)
    (rests_openingLine word (rests_typeName word)) fun _ => ?_
  · exact hhead.climbs.bind fun _ => hmembers
  · refine thenStays hhead.climbs (fun _ => hmembers) stays_typeHead fun _ => ?_
    exact stays_body hconsumes (child (nested (rests_member hrests)))

theorem climbs_typeRows (htype : Makes 0 false (.plain false) typeDeclaration)
    (hbuilds : Builds .loud 0 true typeDeclaration) {word : Keyword}
    (hword : (TokenKind.keyword word).isWord = true) : Climbs (typeRows typeDeclaration word) := by
  have hhead : Runs 0 false {} false (Production.repeatWhile typeHeadItem) := Passage.typeHead
  refine (Climbs.openingLine word (Phrase.typeName hword).climbs).bind fun _ => ?_
  exact hhead.climbs.bind fun _ => climbs_members htype hbuilds

/-- A type ends with a line. -/
theorem rests_typeBlock (htype : Makes 0 false (.plain false) typeDeclaration)
    (hbuilds : Builds .loud 0 true typeDeclaration) (r : Rule) {word : Keyword}
    (hword : (TokenKind.keyword word).isWord = true) :
    Fares Rests (Production.typeBlock typeDeclaration r word) := by
  rw [typeBlock_eq]
  exact node (tail (climbs_typeRows htype hbuilds hword) fun _ => rests_finishBlock word)

theorem climbs_enumRows : Climbs enumRows := by
  refine (Climbs.openingLine .kwEnum Phrase.enumName.climbs).bind fun _ => ?_
  exact .iterate (fun _ => OfBody.enumBlock.consumes.climbs.bind fun _ => .pure _) ()

/-- The last member of an enumeration ends with its line. -/
theorem rests_enumRows : Fares Rests enumRows := by
  have hmember : Fares Rests enumMember := by
    have hcontent : Flows 0 false {} true (declarationPrefix >>= fun _ => do
        field .name identifier
        optionalValue .value) :=
      .seqAny .declarationPrefix (.seq (.field _ .identifier) (.optionalValue _))
    exact rests_line hcontent
  have hitem : Fares Rests enumItem := by
    intro env s u s₁ hs hrun hquiet
    unfold enumItem at hrun
    rw [Looks.peek.run_bind] at hrun
    split at hrun
    · exact rests_childBlank ‹_› hrun
    · exact child (nested (orRecover hmember)) env s u s₁ hs hrun hquiet
  refine restsThen (.openingLine .kwEnum Phrase.enumName.climbs) (fun _ => ?_)
    (rests_openingLine .kwEnum rests_enumName) fun _ => stays_body OfBody.enumBlock.consumes hitem
  exact .iterate (fun _ => OfBody.enumBlock.consumes.climbs.bind fun _ => .pure _) ()

/-- Every kind of type ends with a line. -/
theorem rests_typeDefinition (htype : Makes 0 false (.plain false) typeDeclaration)
    (hbuilds : Builds .loud 0 true typeDeclaration) :
    Fares Rests (Production.typeDefinition typeDeclaration) := by
  refine look Looks.peekBehindPrefix fun kind => ?_
  split
  · exact rests_typeBlock htype hbuilds _ rfl
  · exact rests_typeBlock htype hbuilds _ rfl
  · exact rests_typeBlock htype hbuilds _ rfl
  · exact rests_typeBlock htype hbuilds _ rfl
  · rw [enumBlock_eq]
    exact node (tail climbs_enumRows fun _ => rests_finishBlock .kwEnum)
  · have hcontent : Flows 0 false {} true (declarationPrefix >>= fun _ => _) :=
      .seqAny .declarationPrefix .delegateSignature
    exact rests_line hcontent
  · exact fail _

end

/-- By induction on the levels that are left. -/
theorem rests_typeDeclarationUpTo (room : Nat) :
    Fares Rests (Production.typeDeclarationUpTo room) := by
  cases room with
  | zero => exact tooDeep
  | succ room =>
    refine checked (wrapped _ (rests_typeDefinition ?_ (Builds.typeDeclarationUpTo room)))
    exact Passage.typeDeclarationUpTo room

end Fares

end Production

end VisualBasic
