import VisualBasic.Proofs.Prefixes
import VisualBasic.Proofs.Sparing

/-!
# Headers that break off

Where a header breaks off at the beginning of a later line, it broke off within parentheses or
braces, as nothing else lets a header go on behind the end of its line. The part that it was reading
then is dropped, and its first token is lost. A part that could begin with the end of a line would
have none to lose; no part can, since each of them gives up at once where a line ends.

Main results:

* `Refuses.expression` — what gives up at the end of a line.
* `Treads.part` — a part of a header that breaks off at a later line loses its first token.
* `Treads.declarationPrefix` — attributes and modifiers end at the word that the search behind them
  found.
-/

namespace VisualBasic

/-- What is known of a place, given the word of the blocks whose closing lines are looked for. -/
abbrev Place := Option Keyword → TokenStream → Nat → Prop

namespace Place

/-- Nothing is known of the place. -/
abbrev Anywhere : Place := fun _ _ _ => True

/-- No closing line of the word begins here. -/
abbrev Sheltered : Place := fun word t i => ¬t.ClosesAt word i

/-- Inside of a statement. -/
abbrev Inner : Place := fun _ t i => t.Inside i

/-- In front of a token that does not end a statement. -/
abbrev AtWord : Place := fun _ t i => t.kindAt i ≠ .endOfFile ∧ (t.kindAt i).isTerminator = false

/-- Inside of a line no closing line begins. -/
theorem sheltered_of_inner (word : Option Keyword) (t : TokenStream) (i : Nat)
    (h : Inner word t i) :
    Sheltered word t i := h.not_closesAt

end Place

namespace Production

open State Place

variable {α β : Type}

-- ---------------------------------------------------------------------------
-- Giving up at the end of a line
-- ---------------------------------------------------------------------------

/-- The production does not apply where a statement ends, and says so at once. -/
def Refuses (p : Parse α) : Prop :=
  ∀ env s, (env.kind s).isTerminator = true → ∃ f s', p env s = .error f s' ∧ s'.cursor = s.cursor

namespace Refuses

theorem fail (e : Expected) : Refuses (Production.fail e : Parse α) := fun _ s _ => ⟨_, s, rfl, rfl⟩

theorem tooDeep : Refuses (Production.tooDeep : Parse α) := fun _ s _ => ⟨_, s, rfl, rfl⟩

/-- What fails first fails as a whole. -/
theorem bind {p : Parse α} {k : α → Parse β} (hp : Refuses p) : Refuses (p >>= k) := by
  intro env s hend
  obtain ⟨f, s', hrun, hcursor⟩ := hp env s hend
  exact ⟨f, s', by rw [run_bind, hrun], hcursor⟩

/-- A choice by the next token, if it fails at both terminators. -/
theorem peek {k : TokenKind → Parse β} (hnewline : Refuses (k .newline))
    (hcolon : Refuses (k (.mark .colon))) : Refuses (Production.peek >>= k) := by
  intro env s hend
  rw [Looks.peek.run_bind]
  have hkind : env.kind s = .newline ∨ env.kind s = .mark .colon := by
    unfold TokenKind.isTerminator at hend
    split at hend
    · exact .inl ‹_›
    · exact .inr ‹_›
    · cases hend
  rcases hkind with hkind | hkind
  · rw [hkind]
    exact hnewline env s hend
  · rw [hkind]
    exact hcolon env s hend

/-- A token of a kind that is no terminator is expected. -/
theorem ifTake {kind : TokenKind} (hkind : kind.isTerminator = false) (e : Expected) :
    Refuses (atKind kind >>= fun x => if x = true then Production.take else Production.fail e) := by
  intro env s hend
  unfold atKind
  rw [(Looks.test _).run_bind, if_neg]
  · exact fail e env s hend
  · intro hk
    rw [beq_iff_eq.1 hk, hkind] at hend
    cases hend

/-- What follows a token that may be there. -/
theorem accept {kind : TokenKind} {k : Bool → Parse β} (hkind : kind.isTerminator = false)
    (hk : Refuses (k false)) : Refuses (Production.accept kind >>= k) := by
  intro env s hend
  rw [accept_bind]
  unfold atKind
  rw [(Looks.test _).run_bind, if_neg]
  · exact hk env s hend
  · intro hk
    rw [beq_iff_eq.1 hk, hkind] at hend
    cases hend

/-- The look at the limit comes first. -/
theorem checkDepth {p : Parse α} (hp : Refuses p) :
    Refuses (Production.checkDepth >>= fun _ => p) := by
  intro env s hend
  rw [run_bind]
  unfold Production.checkDepth
  by_cases hdepth : env.limit ≤ env.depth
  · rw [if_pos hdepth]
    exact ⟨_, s, rfl, rfl⟩
  · rw [if_neg hdepth]
    exact hp env s hend

theorem nested {p : Parse α} (hp : Refuses p) : Refuses p.nested :=
  fun env s hend => hp { env with depth := env.depth + 1 } s hend

/-- A node fails where its body does. -/
theorem node {r : Rule} {body : Parse Unit} (hbody : Refuses body) :
    Refuses (Production.node r body) := by
  intro env s hend
  obtain ⟨f, s', hrun, hcursor⟩ := hbody env { s with children := [], isPartial := false } hend
  refine ⟨f, { s' with children := s.children, isPartial := s.isPartial }, ?_, hcursor⟩
  unfold Production.node
  rw [Parse.construct_eq]
  rw [hrun]

theorem identifier : Refuses Production.identifier := peek (fail _) (fail _)

theorem dottedName : Refuses Production.dottedName := node (bind (bind identifier))

/-- No type begins with a terminator. -/
theorem typeUpTo (room : Nat) (ranks : Bool) : Refuses (Production.typeUpTo room ranks) := by
  cases room with
  | zero => exact tooDeep
  | succ room => exact checkDepth (node (peek (bind (bind dottedName)) (bind (bind dottedName))))

theorem type (ranks : Bool) : Refuses (Production.type ranks) :=
  fun env s => typeUpTo env.room ranks env s

/-- No operand does. -/
theorem expressionUpTo (room : Nat) (level : Int) :
    Refuses (Production.expressionUpTo room level) := by
  cases room with
  | zero => exact tooDeep
  | succ room =>
    have hprimary (expression : Parse Node) : Refuses (Production.primaryOf expression) :=
      peek (fail _) (fail _)
    exact checkDepth (bind (peek (bind (hprimary _)) (bind (hprimary _))))

/-- So no expression does. -/
theorem expression : Refuses Production.expression :=
  fun env s => expressionUpTo env.room Precedence.lowest env s

/-- Neither does what a case is tested for. -/
theorem caseClause : Refuses Production.caseClause :=
  node (accept rfl (peek (bind (bind expression.nested)) (bind (bind expression.nested))))

theorem attributeBlock : Refuses Production.attributeBlock :=
  checkDepth (node (bind (ifTake rfl _)))

theorem parameters : Refuses Production.parameters := checkDepth (node (bind (ifTake rfl _)))

theorem typeListClause (r : Rule) (word : Keyword) : Refuses (Production.typeListClause r word) :=
  node (bind (ifTake rfl _))

end Refuses

-- ---------------------------------------------------------------------------
-- Headers
-- ---------------------------------------------------------------------------

/-- A part of a header: it begins where `pre` says and ends where `post` says. Where it breaks off
at a line that closes blocks, a token in front of the line is lost, that is, no node that was
attached reaches to it. If not `loses`, it never breaks off there. -/
structure Treads (loses : Bool) (pre post : Place) (p : Parse α) : Prop where
  outcome : ∀ env s word, s.cursor ≤ env.tokens.tokens.size → pre word env.tokens s.cursor →
    Outcome .quiet env.tokens s
      (fun _ s' => Stepped .quiet env.tokens s s' ∧ post word env.tokens s'.cursor) (p env s)
  breaks : ∀ env s word f s', env.tokens.Ordered → s.cursor ≤ env.tokens.tokens.size →
    pre word env.tokens s.cursor → p env s = .error f s' → env.tokens.ClosesAt word s'.cursor →
    loses = true ∧ ∃ k, s.cursor ≤ k ∧ k < s'.cursor ∧ (env.tokens.kindAt k).isTerminator = false ∧
      ∀ c ∈ s'.children, c ∈ s.children ∨ c.span.stop ≤ (env.tokens.get k).span.start

namespace Treads

variable {loses : Bool} {pre mid post : Place}

/-- Less may be known of where it begins, and less need be said of where it ends. -/
theorem weaken {pre' post' : Place} {p : Parse α} (hp : Treads loses pre post p)
    (hpre : ∀ word t i, pre' word t i → pre word t i)
    (hpost : ∀ word t i, post word t i → post' word t i) : Treads loses pre' post' p := by
  refine ⟨fun env s word hs hat => ?_, fun env s word f s' ht hs hat => ?_⟩
  · refine (hp.outcome env s word hs (hpre _ _ _ hat)).mono (Manner.le_refl _) fun _ _ h => ?_
    exact ⟨h.1, hpost _ _ _ h.2⟩
  · exact hp.breaks env s word f s' ht hs (hpre _ _ _ hat)

/-- The place between the parts is known from the first one. -/
theorem bind {p : Parse α} {k : α → Parse β} (hp : Treads loses pre mid p)
    (hk : ∀ a, Treads loses mid post (k a)) : Treads loses pre post (p >>= k) := by
  refine ⟨fun env s word hs hat => ?_, fun env s word f s' ht hs hat hrun hcloses => ?_⟩
  · refine (hp.outcome env s word hs hat).bind fun a s₁ hs₁ => ?_
    refine Outcome.after hs₁.1 ((hk a).outcome env s₁ word hs₁.1.ready.le_size hs₁.2)
      fun b s' hs' => ?_
    exact ⟨hs₁.1.trans hs'.1, hs'.2⟩
  · have houtcome := hp.outcome env s word hs hat
    rw [run_bind] at hrun
    cases hfirst : p env s with
    | error f₁ s₁ =>
      rw [hfirst] at hrun
      cases hrun
      exact hp.breaks env s word f s' ht hs hat hfirst hcloses
    | ok a s₁ =>
      rw [hfirst] at hrun houtcome
      obtain ⟨hstepped, hmid⟩ := houtcome
      have hs₁ := hstepped.ready.le_size
      replace hrun : k a env s₁ = .error f s' := hrun
      have hfailed := (hk a).outcome env s₁ word hs₁ hmid
      rw [hrun] at hfailed
      obtain ⟨hloses, j, hj, hj', hkind, hchildren⟩ :=
        (hk a).breaks env s₁ word f s' ht hs₁ hmid hrun hcloses
      refine ⟨hloses, j, Nat.le_trans hstepped.le_cursor hj, hj', hkind, fun c hc => ?_⟩
      have hsize : j ≤ env.tokens.tokens.size :=
        Nat.le_trans (Nat.le_of_lt hj') (Nat.le_trans hfailed.cursor_le hfailed.index_le)
      obtain ⟨new, hnew, hreading, -⟩ := (hstepped.quiet (Manner.le_refl _)).children
      rcases hchildren c hc with hc | hc
      · rw [hnew] at hc
        rcases List.mem_append.1 hc with hc | hc
        · have hfits : c.Fits env.tokens word j := hreading.fits ht hj hsize c hc
          exact .inr hfits.stop_le
        · exact .inl hc
      · exact .inr hc

/-- The same if nothing is handed on. -/
theorem seq {p : Parse α} {q : Parse β} (hp : Treads loses pre mid p)
    (hq : Treads loses mid post q) : Treads loses pre post (p >>= fun _ => q) :=
  bind hp fun _ => hq

/-- What fails at no line that closes blocks breaks nothing off. -/
theorem of_steps {m : Manner} {n : Nat} {b : Bool} {p : Parse α} (hp : Steps m n b p)
    [hm : AtMost m .quiet] (hready : ∀ word t i, i ≤ t.tokens.size → pre word t i → t.Ready i n)
    (hends : ∀ env s word a s', pre word env.tokens s.cursor → p env s = .ok a s' →
      post word env.tokens s'.cursor)
    (hbreaks : ∀ env s word f s', pre word env.tokens s.cursor → p env s = .error f s' →
      ¬env.tokens.ClosesAt word s'.cursor) : Treads loses pre post p := by
  refine ⟨fun env s word hs hat => ?_, fun env s word f s' _ _ hat hrun hcloses => ?_⟩
  · have houtcome := hp env s (hready _ _ _ hs hat)
    cases hrun : p env s with
    | ok a s' =>
      rw [hrun] at houtcome
      exact ⟨houtcome.2.mono hm.le, hends env s word a s' hat hrun⟩
    | error f s' =>
      rw [hrun] at houtcome
      exact Failed.mono houtcome hm.le
  · exact absurd hcloses (hbreaks env s word f s' hat hrun)

/-- A look does not move. -/
theorem look {p : Parse α} {seen : Env → State → α} {k : α → Parse β} (hp : Looks p seen)
    (hk : ∀ a, Treads loses pre post (k a)) : Treads loses pre post (p >>= k) := by
  refine ⟨fun env s word hs hat => ?_, fun env s word f s' ht hs hat hrun => ?_⟩
  · rw [hp.run_bind]
    exact (hk _).outcome env s word hs hat
  · rw [hp.run_bind] at hrun
    exact (hk _).breaks env s word f s' ht hs hat hrun

/-- A choice by a test that tells something of the place. -/
theorem ifTest {see : Env → State → Bool} (known : Place) {p q : Parse α}
    (hsee : ∀ env s word, see env s = true → known word env.tokens s.cursor)
    (hp : Treads loses (fun word t i => pre word t i ∧ known word t i) post p)
    (hq : Treads loses pre post q) :
    Treads loses pre post (test see >>= fun x => if x = true then p else q) := by
  refine ⟨fun env s word hs hat => ?_, fun env s word f s' ht hs hat hrun => ?_⟩
  · rw [(Looks.test _).run_bind]
    split
    · exact hp.outcome env s word hs ⟨hat, hsee env s word ‹_›⟩
    · exact hq.outcome env s word hs hat
  · rw [(Looks.test _).run_bind] at hrun
    split at hrun
    · exact hp.breaks env s word f s' ht hs ⟨hat, hsee env s word ‹_›⟩ hrun
    · exact hq.breaks env s word f s' ht hs hat hrun

/-- In a branch the kind of the next token is known. -/
theorem ifAt {kind : TokenKind} {p q : Parse α}
    (hp : Treads loses (fun word t i => pre word t i ∧ t.kindAt i = kind) post p)
    (hq : Treads loses pre post q) :
    Treads loses pre post (atKind kind >>= fun x => if x = true then p else q) :=
  ifTest (fun _ t i => t.kindAt i = kind) (fun _ _ _ h => beq_iff_eq.1 h) hp hq

theorem ite {c : Prop} [Decidable c] {p q : Parse α} (hp : c → Treads loses pre post p)
    (hq : ¬c → Treads loses pre post q) : Treads loses pre post (if c then p else q) := by
  split
  · exact hp ‹_›
  · exact hq ‹_›

theorem pure (a : α) : Treads loses pre pre (Pure.pure a : Parse α) :=
  of_steps (Steps.pure a (m := .quiet) (n := 0)) (fun _ _ _ h _ => .zero h)
    (fun _ _ _ _ _ hat hrun => by cases hrun; exact hat) fun _ _ _ _ _ _ hrun => by cases hrun

theorem fail (e : Expected) (hpre : ∀ word t i, pre word t i → ¬t.ClosesAt word i) :
    Treads loses pre post (Production.fail e : Parse α) :=
  of_steps (Steps.fail e (m := .quiet) (n := 0) (b := false)) (fun _ _ _ h _ => .zero h)
    (fun _ _ _ _ _ _ hrun => by cases hrun) fun _ _ _ _ _ hat hrun => by
    cases hrun; exact hpre _ _ _ hat

/-- A token that is there and does not end a statement. -/
theorem take (hpre : ∀ word t i, pre word t i → AtWord word t i) :
    Treads loses pre Inner Production.take := by
  refine of_steps ReadsOne.take.1 (fun word t i _ hat => .of_kindAt_ne (hpre word t i hat).1)
    (fun env s word a s' hat hrun => ?_) fun _ _ _ _ _ _ hrun => by cases hrun
  obtain ⟨hend, hkind⟩ := hpre word env.tokens s.cursor hat
  have hcursor : s'.cursor = s.cursor + 1 :=
    (ReadsOne.take.2 env s a s' hrun).trans (Env.next_eq_succ hend)
  rw [hcursor]
  exact ⟨Nat.succ_pos _, hkind⟩

/-- Behind a token that is no terminator a line is going on. -/
theorem takeAt {kind : TokenKind} (hend : kind ≠ .endOfFile) (hkind : kind.isTerminator = false) :
    Treads loses (fun _ t i => t.kindAt i = kind) Inner Production.take :=
  take fun _ _ _ hat => ⟨hat ▸ hend, hat ▸ hkind⟩

/-- What reads and ends on a line breaks nothing off if it never fails. -/
theorem of_phrase {δ : Nat} {b : Bool} {p : Parse α} (hp : Steps .quiet 0 b p)
    (hphrase : Flows δ false (.plain true) true p) (hnever : NeverFails p) :
    Treads loses Inner Inner p := by
  refine of_steps hp (fun _ _ _ h _ => .zero h) (fun env s word a s' hat hrun => ?_)
    fun env s word f s' _ hrun => ?_
  · exact hphrase.inside (Spot.holds_plain fun _ => hat) hrun rfl
  · obtain ⟨a, s₁, hok⟩ := hnever env s
    rw [hok] at hrun
    cases hrun

theorem accept {kind : TokenKind} (hkind : Readable false true (· == kind)) :
    Treads loses Inner Inner (Production.accept kind) := by
  have : Holds kind.isPlain := ⟨by
    cases kind with
    | endOfFile => exact Bool.noConfusion hkind.isWordClass.endOfFile
    | _ => rfl⟩
  refine of_phrase (δ := 0) (b := false) Steps.accept.mono (Phrase.acceptAny hkind) ?_
  refine (NeverFails.test _).bind fun x => ?_
  split
  · exact NeverFails.bind (fun _ _ => ⟨_, _, rfl⟩) fun _ => .pure _
  · exact .pure _

/-- Each round leads from such a place to such a place. -/
theorem repeatWhile {step : Parse Bool} (hstep : Treads loses pre pre step) :
    Treads loses pre pre (Production.repeatWhile step) := by
  have hround (n : Nat) : Treads loses pre pre
      (iterateUpTo (fun _ => do return if ← step then some () else none) n ()) := by
    induction n with
    | zero => exact pure ()
    | succ n ih =>
      rw [iterateUpTo_succ]
      refine bind (bind hstep fun _ => pure _) fun more => ?_
      cases more with
      | none => exact pure ()
      | some _ => exact ih
  refine ⟨fun env s word hs hat => ?_, fun env s word f s' ht hs hat hrun => ?_⟩
  · exact (hround _).outcome env s word hs hat
  · exact (hround _).breaks env s word f s' ht hs hat hrun

/-- A part of a header that is a node. If it breaks off at a later line, its first token is lost. -/
theorem part (inside : Bool) (place : Node → Node) {b : Bool} {good : Node → Prop} {p : Parse Node}
    (hbuilds : Builds .quiet 0 b p) (hphrase : Gives 0 false (.plain inside) true p)
    (haside : Aside good p) (hrefuses : Refuses p) (hpre : ∀ word t i, pre word t i →
      ¬t.ClosesAt word i)
    (hinside : inside = true → ∀ word t i, pre word t i → t.Inside i)
    (hplace : ∀ x, place x = x ∨ ∃ f, f ≠ .thenBranch ∧ place x = x.inField f) :
    Treads true pre Inner (p >>= fun x => attach (place x)) := by
  refine ⟨fun env s word hs hat => ?_, fun env s word f s' ht hs hat hrun hcloses => ?_⟩
  · have houtcome := hbuilds.attached hplace env s (.zero hs)
    cases hrun : (p >>= fun x => attach (place x)) env s with
    | ok a s' =>
      rw [hrun] at houtcome
      obtain ⟨x, s₁, hfirst, hattach⟩ := bind_eq_ok hrun
      have hlands := hphrase.inside (Spot.holds_plain fun hi => hinside hi word _ _ hat) hfirst rfl
      cases hattach
      exact ⟨houtcome.2, hlands⟩
    | error f s' =>
      rw [hrun] at houtcome
      exact houtcome
  · have hfailed := hbuilds env s (.zero hs)
    have hsame := haside.sameNode env s
    rw [run_bind] at hrun
    cases hfirst : p env s with
    | ok x s₁ =>
      rw [hfirst] at hrun
      cases hrun
    | error f₁ s₁ =>
      rw [hfirst] at hrun hfailed hsame
      cases hrun
      have hlt : s.cursor < s'.cursor := by
        refine Nat.lt_of_le_of_ne hfailed.le_cursor fun heq => hpre word _ _ hat ?_
        rw [heq]
        exact hcloses
      refine ⟨rfl, s.cursor, Nat.le_refl _, hlt, ?_, fun c hc => .inl (hsame.children ▸ hc)⟩
      cases hend : (env.tokens.kindAt s.cursor).isTerminator with
      | false => rfl
      | true =>
        obtain ⟨f₂, s₂, hrun₂, hcursor⟩ := hrefuses env s hend
        rw [hfirst] at hrun₂
        cases hrun₂
        omega

/-- Behind the end of a line nothing is known. -/
theorem endStatement : Treads loses Sheltered Anywhere Production.endStatement := by
  refine of_steps Steps.endStatement (fun _ _ _ h _ => .zero h) (fun _ _ _ _ _ _ _ => trivial)
    fun env s word f s' hat hrun => ?_
  unfold Production.endStatement at hrun
  rw [Looks.peek.run_bind] at hrun
  split at hrun
  · cases hrun
  · unfold Production.atTerminator at hrun
    rw [(Looks.test _).run_bind] at hrun
    split at hrun
    · cases hrun
    · cases hrun
      exact hat

/-- A header that is done inside of its line, and the end of the line. -/
theorem line {p : Parse Unit} (hp : Treads loses pre Inner p) :
    Treads loses pre Anywhere (p >>= fun _ => Production.endStatement) :=
  seq hp (endStatement.weaken sheltered_of_inner fun _ _ _ h => h)

-- ---------------------------------------------------------------------------
-- The headers of the grammar
-- ---------------------------------------------------------------------------

/-- A part that is read on the line on which it begins. -/
theorem child {b : Bool} {good : Node → Prop} {p : Parse Node} (hbuilds : Builds .quiet 0 b p)
    (hphrase : Gives 0 false (.plain true) true p) (haside : Aside good p) (hrefuses : Refuses p) :
    Treads true Inner Inner p.nested.child :=
  part true id hbuilds.nested (.nested hphrase) haside.nested hrefuses.nested sheltered_of_inner
    (fun _ _ _ _ h => h) fun _ => .inl rfl

/-- A part that fails where a line ends fails inside of the line. -/
theorem field (f : Field) [Holds f.isPlain] {b : Bool} {good : Node → Prop} {p : Parse Node}
    (hbuilds : Builds .quiet 0 b p) (hphrase : Gives 0 false (.plain true) true p)
    (haside : Aside good p)
    (hrefuses : Refuses p) : Treads true Inner Inner (p.nested.field f) :=
  part true _ hbuilds.nested (.nested hphrase) haside.nested hrefuses.nested sheltered_of_inner
    (fun _ _ _ _ h => h) fun _ => .inr ⟨f, f.ne_thenBranch, rfl⟩

/-- An expression in a role. -/
theorem value (f : Field) [Holds f.isPlain] :
    Treads true Inner Inner (Production.expression.nested.field f) :=
  field f Builds.expression Phrase.expression Aside.expression Refuses.expression

/-- Behind a comma a line is still going on. -/
theorem commaSeparated {item : Parse Unit} (hitem : Treads loses Inner Inner item) :
    Treads loses Inner Inner (Production.commaSeparated item) :=
  seq hitem (repeatWhile (bind (accept (.word rfl)) fun _ => ite (fun _ => seq hitem (pure true))
    fun _ => pure false))

/-- A word that is no terminator. -/
theorem takeWord : Treads loses AtWord Inner Production.take := take fun _ _ _ hat => hat

/-- A name that is there. -/
theorem name {r : Rule} [Holds r.isPlain] :
    Treads loses (fun _ t i => (t.kindAt i).isNameLike = true) Inner
      (Production.child (ruleLeaf r)) := by
  have hword {t : TokenStream} {i : Nat} (h : (t.kindAt i).isNameLike = true) :
      t.kindAt i ≠ .endOfFile ∧ (t.kindAt i).isTerminator = false := by
    cases hkind : t.kindAt i with
    | identifier | keyword => exact ⟨nofun, rfl⟩
    | _ =>
      rw [hkind] at h
      exact Bool.noConfusion h
  refine of_steps (Steps.child (Builds.ruleLeaf r))
    (fun word t i _ hat => .of_kindAt_ne (hword hat).1)
    (fun env s word a s' hat hrun => ?_) fun _ _ _ _ _ _ hrun => by cases hrun
  cases hrun
  obtain ⟨hend, hkind⟩ := hword hat
  have hnext : env.next s.cursor = s.cursor + 1 :=
    Env.next_eq_succ hend
  show env.tokens.Inside (env.next s.cursor)
  rw [hnext]
  exact ⟨Nat.succ_pos _, hkind⟩

/-- A word and the end of the line. -/
theorem wordHeader : Treads loses AtWord Anywhere (do
    Production.take
    Production.endStatement) :=
  line takeWord

/-- A condition between words. -/
theorem elseIfHeader : Treads true AtWord Anywhere (do
    (do
      Production.take
      let _ ← acceptWord .kwIf
      Production.field .condition Production.expression.nested
      let _ ← acceptWord .kwThen)
    Production.endStatement) :=
  line (seq takeWord (seq (accept (.word rfl))
    (seq (value .condition) (seq (accept (.word rfl)) (pure ())))))

/-- Clauses with commas between them. -/
theorem caseHeader : Treads true AtWord Anywhere (do
    (do
      Production.take
      Production.commaSeparated (Production.child Production.caseClause.nested))
    Production.endStatement) :=
  line (seq takeWord
    (commaSeparated (child Builds.caseClause Phrase.caseClause (Aside.node _ _).isPart
    Refuses.caseClause)))

theorem identifier (f : Field) [Holds f.isPlain] :
    Treads loses Inner Inner (Production.identifier.field f) := by
  have hphrase : Flows 0 false (.plain true) true (Production.identifier.field f) :=
    Phrase.field f Phrase.identifier
  refine of_steps (Steps.field f Builds.identifier) (fun _ _ _ h _ => .zero h)
    (fun env s word a s' hat hrun => ?_) fun env s word g s' hat hrun => ?_
  · exact hphrase.inside (Spot.holds_plain fun _ => hat) hrun rfl
  · unfold Production.field Production.identifier at hrun
    rw [bind_assoc, Looks.peek.run_bind] at hrun
    split at hrun
    · cases hrun
    · cases hrun
      exact hat.not_closesAt

/-- Two words. -/
theorem caseElseHeader : Treads loses (fun _ t i => t.kindAt i = .keyword .kwCase ∧
    t.kindAt (i + 1) = .keyword .kwElse) Anywhere (do
    (do
      Production.take
      Production.take)
    Production.endStatement) := by
  have helse : Treads loses (fun _ t i => t.kindAt i = .keyword .kwElse) Inner Production.take :=
    takeAt nofun rfl
  refine line (seq ?_ helse)
  refine of_steps ReadsOne.take.1 (fun word t i _ hat => .of_kindAt_ne (by rw [hat.1]; exact nofun))
    (fun env s word a s' hat hrun => ?_) fun _ _ _ _ _ _ hrun => by cases hrun
  have hcursor : s'.cursor = s.cursor + 1 := (ReadsOne.take.2 env s a s' hrun).trans
    (Env.next_eq_succ (by rw [hat.1]; exact nofun))
  rw [hcursor]
  exact hat.2

/-- What is caught. -/
theorem catchHeader : Treads true AtWord Anywhere (do
    (do
      Production.take
      Production.catchHeader)
    Production.endStatement) := by
  have hfilter : Treads true Inner Inner (do
      if ← acceptWord .kwWhen then
        Production.field .filter Production.expression.nested) :=
    bind (accept (.word rfl)) fun _ => ite (fun _ => value .filter) fun _ => pure ()
  have haside : Aside Node.IsPart (Production.type true) := by
    refine Aside.of_runs fun env s => ⟨Production.typeUpTo env.room true, ?_, rfl⟩
    cases env.room with
    | zero => exact Aside.tooDeep
    | succ room => exact Aside.checkDepth (Aside.node _ _).isPart
  have htype : Treads true Inner Inner ((Production.type true).nested.field .type) :=
    field .type (Builds.type true) (Phrase.type true) haside (Refuses.type true)
  refine line (seq takeWord (look Looks.peek fun _ => look (Looks.test _) fun _ => ite (fun _ => ?_)
    fun _ => hfilter))
  exact seq (identifier .exception)
    (bind (accept (.word rfl)) fun _ => ite (fun _ => seq htype hfilter)
    fun _ => hfilter)

/-- The condition behind the closing word of a loop. -/
theorem loopCondition : Treads true Inner Anywhere (do
    optionalLoopCondition
    Production.endStatement) := by
  refine line (ifTest AtWord (fun env s word h => ?_) (seq ?_ (value .condition)) (pure ()))
  · have hkind : env.tokens.kindAt s.cursor = .keyword .kwWhile ∨
        env.tokens.kindAt s.cursor = .keyword .kwUntil :=
      (Bool.or_eq_true_iff.1 h).imp beq_iff_eq.1 beq_iff_eq.1
    rcases hkind with hkind | hkind
    · exact ⟨hkind ▸ nofun, hkind ▸ rfl⟩
    · exact ⟨hkind ▸ nofun, hkind ▸ rfl⟩
  · exact takeWord.weaken (fun _ _ _ h => h.2) fun _ _ _ h => h

/-- Parameters, if they are given. -/
theorem optionalParameters : Treads true Inner Inner Production.optionalParameters := by
  have hparameters : Treads true Inner Inner (Production.parameters.nested.field .parameters) :=
    field .parameters Builds.parameters Phrase.parameters (Aside.checkDepth (Aside.node _ _).isPart)
      Refuses.parameters
  exact look (Looks.test _) fun _ => ite (fun _ => hparameters) fun _ => pure ()

/-- The parameters of an accessor. -/
theorem eventAccessorHeader : Treads true Inner Anywhere (do
    Production.optionalParameters
    Production.endStatement) :=
  line optionalParameters

/-- A line of clauses about inheritance. -/
theorem inheritanceHeader : Treads true Sheltered Anywhere (do
    Production.inheritanceClauses
    Production.endStatement) := by
  have hclause (f : Field) (r : Rule) (word : Keyword) [Holds f.isPlain] [Holds r.isPlain]
      [Holds (TokenKind.keyword word).isPlain] (hword : (TokenKind.keyword word).isWord = true) :
      Treads true Sheltered Sheltered (do
        Production.field f (Production.typeListClause r word)
        return true) := by
    have hpart :
        Treads true Sheltered Inner (Production.field f (Production.typeListClause r word)) :=
      part false _ (Builds.typeListClause r word) (Phrase.typeListClause r hword)
        (Aside.node _ _).isPart (Refuses.typeListClause r word) (fun _ _ _ h => h) nofun
        fun _ => .inr ⟨f, f.ne_thenBranch, rfl⟩
    exact seq (hpart.weaken (fun _ _ _ h => h) sheltered_of_inner) (pure true)
  refine seq (repeatWhile (look Looks.peek fun kind => ?_)) endStatement
  split
  · exact hclause .inherits .inheritsClause .kwInherits rfl
  · exact hclause .implements .implementsClause .kwImplements rfl
  · exact pure false

/-- Attributes and modifiers may be on lines of their own. -/
theorem anyPrefix : Treads true Anywhere Anywhere Production.declarationPrefix := by
  have hnewline : Treads true Inner Anywhere (atKind .newline >>= fun x =>
      if x = true then skip >>= fun _ => Pure.pure true else Pure.pure true) := by
    refine of_steps (Steps.skipThen isTerminator_of_newline (Steps.pure true)
      (Steps.pure true) (m := .quiet)
      (n := 0)) (fun _ _ _ h _ => .zero h) (fun _ _ _ _ _ _ _ => trivial)
        fun env s word f s' _ hrun => ?_
    unfold atKind at hrun
    rw [(Looks.test _).run_bind] at hrun
    split at hrun
    · cases hrun
    · cases hrun
  have hblock : Treads true (fun word t i => Anywhere word t i ∧ t.kindAt i = .mark .less) Inner
      (Production.attributeBlock.nested.field .attributes) :=
    part false _ Builds.attributeBlock.nested (.nested (Phrase.attributeBlock (.inr rfl)))
      (Aside.checkDepth (Aside.node _ _).isPart).nested Refuses.attributeBlock.nested
      (fun _ _ _ h hcloses => by cases h.2.symm.trans hcloses.end) nofun
      fun _ => .inr ⟨.attributes, nofun, rfl⟩
  have hmodifiers : NeverFails (Production.modifiers : Parse Node) := by
    refine NeverFails.node
      (NeverFails.repeatWhile (NeverFails.bind (fun _ _ => ⟨_, _, rfl⟩) fun kind => ?_))
    split
    · exact (NeverFails.leaf _).child.bind fun _ => .pure _
    · exact .pure _
  refine seq (repeatWhile (ifAt (seq hblock hnewline)
    ((pure false).weaken (fun _ _ _ h => h) fun _ _ _ h => h)))
    (of_steps Steps.optionalModifiers (fun _ _ _ h _ => .zero h) (fun _ _ _ _ _ _ _ => trivial)
      fun env s word f s' _ hrun => ?_)
  rw [Looks.peek.run_bind] at hrun
  split at hrun
  · obtain ⟨n, s₁, hok⟩ := hmodifiers env s
    rw [Production.field, run_bind, hok] at hrun
    cases hrun
  · cases hrun

/-- Attributes and modifiers end at the word that the search behind them found. -/
theorem declarationPrefix {kind : TokenKind} (hkind : kind ≠ .newline) :
    Treads true (fun _ t i => t.kindAt (t.behindPrefix i) = kind) (fun _ t i => t.kindAt i = kind)
      Production.declarationPrefix := by
  refine ⟨fun env s word hs hat => ?_, fun env s word f s' ht hs _ =>
    anyPrefix.breaks env s word f s' ht hs trivial⟩
  have houtcome := anyPrefix.outcome env s word hs trivial
  cases hrun : Production.declarationPrefix env s with
  | error f s' =>
    rw [hrun] at houtcome
    exact houtcome
  | ok a s' =>
    rw [hrun] at houtcome
    refine ⟨houtcome.1, ?_⟩
    rcases behindPrefix_of_declarationPrefix hs hrun with ⟨hnewline, -⟩ | hend
    · exact absurd (hat.symm.trans hnewline) hkind
    · rw [← hend]
      exact hat

/-- A word that is there. -/
theorem expectWord {word : Keyword} (hword : word ≠ .kwEnd) :
    Treads loses (fun _ t i => t.kindAt i = .keyword word) Inner (Production.expectWord word) := by
  have htake : Treads loses (fun _ t i => t.kindAt i = .keyword word) Inner Production.take :=
    takeAt nofun rfl
  refine ifAt (htake.weaken (fun _ _ _ h => h.2) fun _ _ _ h => h) (fail _ ?_)
  intro closer t i hkind hcloses
  exact hword (TokenKind.keyword.inj (hkind.symm.trans hcloses.end))

/-- The header of an accessor, where the search behind attributes and modifiers found its word. -/
theorem accessorHeader {word : Keyword} (hword : word ≠ .kwEnd) :
    Treads true (fun _ t i => t.kindAt (t.behindPrefix i) = .keyword word) Anywhere (do
      Production.declarationPrefix
      Production.expectWord word
      if word == .kwSet then Production.optionalParameters
      Production.endStatement) := by
  have hend : Treads true Inner Anywhere Production.endStatement :=
    endStatement.weaken sheltered_of_inner fun _ _ _ h => h
  exact seq (declarationPrefix nofun) (seq (expectWord hword)
    (ite (fun _ => seq optionalParameters hend) fun _ => hend))

end Treads

end Production

end VisualBasic
