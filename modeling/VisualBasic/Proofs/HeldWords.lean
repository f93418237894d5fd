import VisualBasic.Proofs.QuietStatements

/-!
# Words that begin no line of a header

The header of a declaration may go on behind the end of its line: within parentheses or braces,
behind attributes, and at a colon that belongs to an attribute or a named argument. The searches
ahead for accessors and for the end of a body take what stands there for the line behind the header.
It does no harm in one direction: the words that begin an accessor, a member or a closing line stand
within a header only behind a few tokens, none of which ends a line, so nothing of a header that
stands behind the end of a line begins with one of them.

Main results:

* `Shuns.bind`, `Shuns.heldThen` — the judgement of what is put together; behind some marks any word
  will do.
* `Shuns.expression`, `Shuns.attributeBlock`, `Shuns.memberClauses` — the parts of headers.
-/

namespace VisualBasic

namespace TokenStream

/-- The words that begin accessors and closing lines. -/
def opensAccessor : TokenKind → Bool
  | .keyword .kwGet | .keyword .kwSet | .keyword .kwAddHandler | .keyword .kwRemoveHandler
  | .keyword .kwRaiseEvent | .keyword .kwEnd => true
  | _ => false

/-- The words that begin a line of a body: an accessor, a closing line, or a member. -/
def opensLine (kind : TokenKind) : Bool :=
  opensAccessor kind || kind.opensMember || (kind.isModifier && !kind.isNameLike)

/-- Behind these tokens a word that begins a line may stand within one: as a name behind a dot, as
the target of an attribute, or as what a type parameter must be. -/
def holds : TokenKind → Bool
  | .mark .dot | .mark .comma | .mark .less | .mark .leftBrace | .keyword .kwAs => true
  | _ => false

/-- The token in front of the index is one of those. -/
def Held (t : TokenStream) (i : Nat) : Prop := holds (t.kindAt (i - 1)) = true

/-- From `i` up to `j` words that begin lines stand only where they may stand within one. -/
def Shunned (t : TokenStream) (i j : Nat) : Prop :=
  ∀ k, i ≤ k → k < j → opensLine (t.kindAt k) = true → t.Held k

variable {t : TokenStream} {i j k : Nat}

/-- Between a place and itself there is nothing. -/
theorem Shunned.refl (t : TokenStream) (i : Nat) : t.Shunned i i := by
  intro k hik hki
  omega

/-- What holds of two stretches holds of both together. -/
theorem Shunned.trans (h : t.Shunned i j) (h' : t.Shunned j k) : t.Shunned i k := by
  intro l hil hlk hl
  rcases Nat.lt_or_ge l j with hlt | hge
  · exact h l hil hlt hl
  · exact h' l hge hlk hl

/-- A token that begins no line. -/
theorem shunned_of_not (h : opensLine (t.kindAt i) = false) (hj : j ≤ i + 1) : t.Shunned i j := by
  intro k hik hkj hk
  obtain rfl : k = i := by omega
  rw [h] at hk
  cases hk

/-- A token behind a mark behind which anything may stand. -/
theorem shunned_of_held (h : t.Held i) (hj : j ≤ i + 1) : t.Shunned i j := by
  intro k hik hkj _
  obtain rfl : k = i := by omega
  exact h

end TokenStream

namespace Production

open TokenStream

variable {α β γ : Type}

/-- Where `pre` holds, a run that succeeds reads words that begin lines only where they may stand
within one. -/
def Shuns (pre : TokenStream → Nat → Prop) (p : Parse α) : Prop :=
  ∀ env s a s', pre env.tokens s.cursor → p env s = .ok a s' → env.tokens.Shunned s.cursor s'.cursor

/-- The token ahead is of the class. -/
abbrev Ahead (c : TokenKind → Bool) : TokenStream → Nat → Prop := fun t i => c (t.kindAt i) = true

/-- The tokens ahead are of the classes. -/
abbrev Row (cs : List (TokenKind → Bool)) : TokenStream → Nat → Prop := fun t i => t.AllAhead i cs

/-- A class without words that begin lines. -/
def Shunning (c : TokenKind → Bool) : Prop := ∀ kind, c kind = true → opensLine kind = false

/-- A single kind that begins no line. -/
theorem shunning_beq {kind : TokenKind} (h : opensLine kind = false) : Shunning (· == kind) := by
  intro kind' hkind
  rw [beq_iff_eq.1 hkind]
  exact h

/-- Words that may be names begin no lines. -/
theorem shunning_isNameLike : Shunning TokenKind.isNameLike := by
  intro kind hkind
  cases kind with
  | keyword word => cases word <;> first | rfl | exact Bool.noConfusion hkind
  | _ => rfl

/-- Modifiers are no accessors. -/
theorem not_opensAccessor_of_isModifier {kind : TokenKind} (h : kind.isModifier = true) :
    opensAccessor kind = false := by
  cases kind with
  | keyword word => cases word <;> first | rfl | exact Bool.noConfusion h
  | _ => rfl

/-- Binary operators begin no line. -/
theorem not_opensLine_of_operator {kind : TokenKind} {precedence : Precedence}
    (h : Precedence.ofKind? kind = some precedence) : opensLine kind = false := by
  have hmem := List.mem_of_find?_eq_some h
  have hcontains := List.find?_some h
  have hall : ∀ p ∈ Precedence.table, ∀ k ∈ p.operators, opensLine k = false := by decide
  exact hall precedence hmem kind (by simpa using hcontains)

namespace Shuns

variable {pre : TokenStream → Nat → Prop} {c : TokenKind → Bool}

-- ---------------------------------------------------------------------------
-- Rules
-- ---------------------------------------------------------------------------

/-- What is said of any place holds of a place of which more is known. -/
theorem anywhere {p : Parse α} (hp : Shuns (fun _ _ => True) p) : Shuns pre p :=
  fun env s a s' _ hrun => hp env s a s' trivial hrun

/-- Nothing is read. -/
theorem pure (a : α) : Shuns pre (Pure.pure a : Parse α) := by
  intro env s b s' _ hrun
  cases hrun
  exact .refl _ _

theorem fail (e : Expected) : Shuns pre (Production.fail e : Parse α) :=
  fun _ _ _ _ _ hrun => by cases hrun

theorem failThen (e : Expected) {k : α → Parse β} :
    Shuns pre ((Production.fail e : Parse α) >>= k) :=
  fun _ _ _ _ _ hrun => by cases hrun

/-- Nothing is read without a level left. -/
theorem tooDeep : Shuns pre (Production.tooDeep : Parse α) := fun _ _ _ _ _ hrun => by cases hrun

theorem attach (n : Node) : Shuns pre (Production.attach n) := by
  intro env s a s' _ hrun
  cases hrun
  exact .refl _ _

/-- Attaching reads nothing. -/
theorem attachThen (n : Node) {p : Parse β} (hp : Shuns pre p) :
    Shuns pre (Production.attach n >>= fun _ => p) :=
  fun env s b s' hpre hrun => hp env { s with children := n :: s.children } b s' hpre hrun

/-- Of the place behind the first part nothing is known. -/
theorem bind {p : Parse α} {k : α → Parse β} (hp : Shuns pre p)
    (hk : ∀ a, Shuns (fun _ _ => True) (k a)) : Shuns pre (p >>= k) := by
  intro env s b s' hpre hrun
  obtain ⟨a, s₁, hfirst, hrest⟩ := bind_eq_ok hrun
  exact (hp env s a s₁ hpre hfirst).trans (hk a env s₁ b s' trivial hrest)

theorem seq {p : Parse γ} {q : Parse β} (hp : Shuns pre p) (hq : Shuns (fun _ _ => True) q) :
    Shuns pre (p >>= fun _ => q) :=
  bind hp fun _ => hq

/-- The look at the limit reads nothing. -/
theorem checked {p : Parse β} (hp : Shuns pre p) :
    Shuns pre (Production.checkDepth >>= fun _ => p) := by
  intro env s b s' hpre hrun
  obtain ⟨_, s₁, hfirst, hrest⟩ := bind_eq_ok hrun
  obtain rfl := checkDepth_eq_ok hfirst
  exact hp env s₁ b s' hpre hrest

/-- Neither does any other look. -/
theorem look {p : Parse α} {seen : Env → State → α} {k : α → Parse β} (hp : Looks p seen)
    (hk : ∀ a, Shuns pre (k a)) : Shuns pre (p >>= k) := by
  intro env s b s' hpre hrun
  rw [hp.run_bind] at hrun
  exact hk _ env s b s' hpre hrun

theorem test {see : Env → State → Bool} {k : Bool → Parse β} (hk : ∀ b, Shuns pre (k b)) :
    Shuns pre (Production.test see >>= k) :=
  look (Looks.test _) hk

/-- Behind a look at the token ahead, the token is known. -/
theorem peek {k : TokenKind → Parse β} (hk : ∀ kind, Shuns (Ahead (· == kind)) (k kind)) :
    Shuns pre (Production.peek >>= k) := by
  intro env s b s' _ hrun
  rw [Looks.peek.run_bind] at hrun
  exact hk _ env s b s' (beq_iff_eq.2 rfl) hrun

/-- In a branch the condition may be used. -/
theorem ite {x : Prop} [Decidable x] {p q : Parse α} (hp : x → Shuns pre p) (hq : Shuns pre q) :
    Shuns pre (if x then p else q) := by
  split
  · exact hp ‹_›
  · exact hq

/-- A leaf is a token, of a class that is known. -/
theorem leaf {kind : NodeKind} (hc : Shunning c) : Shuns (Ahead c) (Production.leaf kind) := by
  intro env s a s' hpre hrun
  cases hrun
  exact shunned_of_not (hc _ hpre) (env.next_le_succ _)

theorem tokenLeaf (hc : Shunning c) : Shuns (Ahead c) Production.tokenLeaf := by
  intro env s a s' hpre hrun
  cases hrun
  exact shunned_of_not (hc _ hpre) (env.next_le_succ _)

theorem skip (hc : Shunning c) : Shuns (Ahead c) Production.skip := by
  intro env s a s' hpre hrun
  cases hrun
  exact shunned_of_not (hc _ hpre) (env.next_le_succ _)

/-- What is built is attached. -/
theorem child {p : Parse Node} (hp : Shuns pre p) : Shuns pre p.child := bind hp fun n => attach n

theorem field (f : Field) {p : Parse Node} (hp : Shuns pre p) : Shuns pre (Production.field f p) :=
  bind hp fun n => attach (n.inField f)

/-- A token of a class that is known. -/
theorem take (hc : Shunning c) : Shuns (Ahead c) Production.take := child (tokenLeaf hc)

theorem nested {p : Parse α} (hp : Shuns pre p) : Shuns pre p.nested :=
  fun env s a s' hpre hrun => hp { env with depth := env.depth + 1 } s a s' hpre hrun

/-- A node reads what its body reads. -/
theorem construct {r : Rule} {first : Nat} {body : Parse Unit} (hbody : Shuns pre body) :
    Shuns pre (Production.construct r first body) := by
  intro env s n s' hpre hrun
  obtain ⟨s₁, hrun₁, hcursor⟩ := construct_eq_ok hrun
  rw [hcursor]
  exact hbody env { s with children := [], isPartial := false } () s₁ hpre hrun₁

theorem node {r : Rule} {body : Parse Unit} (hbody : Shuns pre body) :
    Shuns pre (Production.node r body) :=
  fun env s n s' hpre hrun => construct hbody env s n s' hpre hrun

/-- A wrapper reads nothing. -/
theorem wrap (r : Rule) (n : Node) : Shuns pre (Production.wrap r n) := construct (attach n)

/-- A node that is wrapped once it is made. -/
theorem wrapped {p : Parse Node} (hp : Shuns pre p) (r : Rule) :
    Shuns pre (p >>= fun n => Production.wrap r n) :=
  bind hp fun n => wrap r n

theorem some {p : Parse α} (hp : Shuns pre p) : Shuns pre (Option.some <$> p) :=
  bind hp fun a => pure (Option.some a)

/-- Of the rounds of a loop nothing is known but that each of them shuns such words. -/
theorem iterate {step : α → Parse (Option α)} (hstep : ∀ x, Shuns (fun _ _ => True) (step x))
    (x : α) :
    Shuns pre (Production.iterate step x) := by
  intro env s y s' _ hrun
  refine iterateUpTo_invariant (fun s₁ => env.tokens.Shunned s.cursor s₁.cursor)
    (fun x s₁ y s₂ hs₁ hrun₁ => ?_) _ (.refl _ _) hrun
  exact hs₁.trans (hstep x env s₁ y s₂ trivial hrun₁)

/-- The same of a loop without a value. -/
theorem repeatWhile {step : Parse Bool} (hstep : Shuns (fun _ _ => True) step) :
    Shuns pre (Production.repeatWhile step) :=
  iterate (fun _ => bind hstep fun _ => pure _) ()

/-- A look that tells what is ahead. -/
theorem ifTest {see : Env → State → Bool} {row : List (TokenKind → Bool)} {p q : Parse α}
    (hsee : ∀ env s, see env s = true → env.tokens.AllAhead s.cursor row) (hp : Shuns (Row row) p)
    (hq : Shuns pre q) :
    Shuns pre (Production.test see >>= fun x => if x = true then p else q) := by
  intro env s a s' hpre hrun
  rw [(Looks.test _).run_bind] at hrun
  split at hrun
  · exact hp env s a s' (hsee env s ‹_›) hrun
  · exact hq env s a s' hpre hrun

/-- A look for either of two words. -/
theorem ifEither {a b : Keyword} {p q : Parse α}
    (hp : Shuns (Ahead fun kind => kind == .keyword a || kind == .keyword b) p) (hq : Shuns pre q) :
    Shuns pre (atWord a >>= fun x => atWord b >>= fun y => if (x || y) = true then p else q) := by
  intro env s r s' hpre hrun
  unfold atWord atKind at hrun
  rw [(Looks.test _).run_bind, (Looks.test _).run_bind] at hrun
  split at hrun
  · exact hp env s r s' ‹_› hrun
  · exact hq env s r s' hpre hrun

/-- One of two words that begin no line. -/
theorem shunning_either {a b : Keyword} (ha : opensLine (.keyword a) = false)
    (hb : opensLine (.keyword b) = false) :
    Shunning fun kind => kind == .keyword a || kind == .keyword b := by
  intro kind hkind
  rcases Bool.or_eq_true_iff.1 hkind with h | h
  · rw [beq_iff_eq.1 h]
    exact ha
  · rw [beq_iff_eq.1 h]
    exact hb

/-- A token of a row of which more is known. -/
theorem one {p : Parse α} {k : α → Parse β} {cs : List (TokenKind → Bool)}
    (hp : Shuns (Row (c :: cs)) p) (hone : ReadsNext p) (hc : c .endOfFile = false)
    (hk : ∀ a, Shuns (Row cs) (k a)) : Shuns (Row (c :: cs)) (p >>= k) := by
  intro env s b s' hrow hrun
  obtain ⟨a, s₁, hfirst, hrest⟩ := bind_eq_ok hrun
  have hnext : s₁.cursor = s.cursor + 1 :=
    (hone env s a s₁ hfirst).trans
      (Env.next_eq_succ (TokenKind.ne_endOfFile_of hrow.1 hc))
  refine (hp env s a s₁ hrow hfirst).trans (hk a env s₁ b s' ?_ hrest)
  show env.tokens.AllAhead s₁.cursor cs
  rw [hnext]
  exact hrow.2

/-- What is known of the first token of a row is known of the token ahead. -/
theorem ahead {p : Parse α} {cs : List (TokenKind → Bool)} (hp : Shuns (Ahead c) p) :
    Shuns (Row (c :: cs)) p :=
  fun env s a s' hrow hrun => hp env s a s' hrow.1 hrun

/-- A round that goes on. -/
theorem round {p : Parse Unit} (hp : Shuns pre p) : Shuns pre (p >>= fun _ => Pure.pure true) :=
  bind hp fun _ => pure true

/-- A token that has to be there. -/
theorem ifTake {kind : TokenKind} (hkind : opensLine kind = false) (e : Expected) :
    Shuns pre (atKind kind >>= fun x => if x = true then Production.take
      else Production.fail e) := by
  intro env s a s' _ hrun
  obtain ⟨hk, hcursor⟩ := run_ifTake hrun
  refine shunned_of_not ?_ (hcursor ▸ env.next_le_succ _)
  rw [show env.tokens.kindAt s.cursor = kind from hk]
  exact hkind

/-- No mark begins a line. -/
theorem expectMark (mark : Mark) : Shuns pre (Production.expectMark mark) := ifTake rfl _

theorem expectEnd (mark : Mark) : Shuns pre (Production.expectEnd mark) := ifTake rfl _

/-- A word that begins no line. -/
theorem expectWord {word : Keyword} (hword : opensLine (.keyword word) = false) :
    Shuns pre (Production.expectWord word) :=
  ifTake hword _

/-- What may begin with a token. -/
theorem ifAccept {kind : TokenKind} {k : Bool → Parse β} (hkind : opensLine kind = false)
    (hthen : Shuns (fun _ _ => True) (k true)) (helse : Shuns pre (k false)) :
    Shuns pre (Production.accept kind >>= k) := by
  intro env s b s' hpre hrun
  rw [accept_bind] at hrun
  unfold atKind at hrun
  rw [(Looks.test _).run_bind] at hrun
  split at hrun
  · obtain ⟨_, s₁, htake, hrest⟩ := bind_eq_ok hrun
    have hat : Ahead (· == kind) env.tokens s.cursor := ‹_›
    exact (take (shunning_beq hkind) env s _ s₁ hat htake).trans (hthen env s₁ b s' trivial hrest)
  · exact helse env s b s' hpre hrun

/-- Items with commas between them. -/
theorem commaSeparated {item : Parse Unit} (hitem : Shuns (fun _ _ => True) item) :
    Shuns pre (Production.commaSeparated item) :=
  bind hitem.anywhere fun _ => repeatWhile (ifAccept rfl (round hitem) (pure false))

/-- Where any word may stand, one is read. -/
theorem heldLeaf {kind : NodeKind} : Shuns Held (Production.leaf kind) := by
  intro env s a s' hpre hrun
  cases hrun
  exact shunned_of_held hpre (env.next_le_succ _)

/-- Behind a dot any word will do. -/
theorem memberName : Shuns Held Production.memberName := by
  refine look Looks.peek fun kind => ?_
  split
  · exact heldLeaf
  · exact heldLeaf
  · exact fail _

/-- What follows a token behind which more words may stand. -/
theorem behindHeld {mark : Mark} (hmark : holds (.mark mark) = true) {k : Unit → Parse β}
    (hk : Shuns Held (k ())) {env : Env} {s s₁ s' : State} {b : β} (hat : env.kind s = .mark mark)
    (hcursor : s₁.cursor = env.next s.cursor) (hrest : k () env s₁ = .ok b s') :
    env.tokens.Shunned s.cursor s'.cursor := by
  have hkind : env.tokens.kindAt s.cursor = .mark mark := hat
  have hnext : env.next s.cursor = s.cursor + 1 := by
    refine Env.next_eq_succ ?_
    rw [hkind]
    exact nofun
  rw [hnext] at hcursor
  have hheld : env.tokens.Held s₁.cursor := by
    unfold Held
    rw [hcursor, Nat.add_sub_cancel, hkind]
    exact hmark
  refine Shunned.trans (j := s₁.cursor) (shunned_of_not ?_ (Nat.le_of_eq hcursor))
    (hk env s₁ b s' hheld hrest)
  rw [hkind]
  rfl

/-- A mark that has to be there, and what follows it. -/
theorem heldThen {mark : Mark} (hmark : holds (.mark mark) = true) {k : Unit → Parse β}
    (hk : Shuns Held (k ())) : Shuns pre (Production.expectMark mark >>= k) := by
  intro env s b s' _ hrun
  obtain ⟨_, s₁, hfirst, hrest⟩ := bind_eq_ok hrun
  obtain ⟨hat, hcursor⟩ := run_ifTake hfirst
  exact behindHeld hmark hk hat hcursor hrest

/-- A mark that may be there, and what follows it. -/
theorem ifHeld {mark : Mark} (hmark : holds (.mark mark) = true) {k : Bool → Parse β}
    (hthen : Shuns Held (k true)) (helse : Shuns pre (k false)) :
    Shuns pre (Production.acceptMark mark >>= k) := by
  intro env s b s' hpre hrun
  unfold Production.acceptMark at hrun
  rw [accept_bind] at hrun
  unfold atKind at hrun
  rw [(Looks.test _).run_bind] at hrun
  split at hrun
  · obtain ⟨_, s₁, htake, hrest⟩ := bind_eq_ok hrun
    cases htake
    exact behindHeld hmark (k := fun _ => k true) hthen (beq_iff_eq.1 ‹_›) rfl hrest
  · exact helse env s b s' hpre hrun

/-- Items between commas, the first of which stands behind such a token, too. -/
theorem commaSeparatedHeld {item : Parse Unit} (hitem : Shuns Held item) :
    Shuns Held (Production.commaSeparated item) :=
  bind hitem fun _ => repeatWhile (ifHeld rfl (round hitem) (pure false))

/-- A name may be a word, but none that begins a line. -/
theorem identifier : Shuns pre Production.identifier := by
  refine peek fun kind => ite (fun h => ?_) (fail _)
  refine leaf fun kind' hkind' => shunning_isNameLike _ ?_
  rw [beq_iff_eq.1 hkind']
  exact h

/-- Line ends are no words. -/
theorem skipNewlines : Shuns pre Production.skipNewlines := by
  have hskip : Shuns (fun _ _ => True) (do
      if ← atKind .newline then
        Production.skip
        return true
      return false) := by
    intro env s a s' _ hrun
    unfold atKind at hrun
    rw [(Looks.test _).run_bind] at hrun
    split at hrun
    · exact round (skip (shunning_beq rfl)) env s a s' ‹_› hrun
    · cases hrun
      exact .refl _ _
  exact repeatWhile hskip

-- ---------------------------------------------------------------------------
-- Names and types
-- ---------------------------------------------------------------------------

/-- Behind a dot any word may stand. -/
theorem dottedName : Shuns pre Production.dottedName :=
  node (seq (child identifier) (repeatWhile (ifHeld rfl (round (child memberName)) (pure false))))

theorem arrayRank : Shuns pre Production.arrayRank := by
  have hcomma : Shuns (fun _ _ => True) (Production.acceptMark .comma) := by
    rw [← bind_pure (Production.acceptMark .comma)]
    exact ifAccept rfl (pure _) (pure _)
  exact node (seq (expectMark _) (seq (repeatWhile hcomma) (expectEnd _)))

/-- The types in parentheses. -/
theorem typeArgumentsOf {type : Parse Node} (htype : Shuns (fun _ _ => True) type) :
    Shuns pre (Production.typeArgumentsOf type) :=
  node (seq (expectMark _)
    (seq (expectWord rfl) (seq (commaSeparated (child htype.nested)) (expectEnd _))))

/-- By induction on the levels that are left. -/
theorem typeUpTo (room : Nat) (ranks : Bool) : Shuns pre (Production.typeUpTo room ranks) := by
  induction room generalizing pre ranks with
  | zero => exact tooDeep
  | succ room ih =>
    have hranks : Shuns (fun _ _ => True) (Production.repeatWhile do
        if ranks && (← atRank) then
          Production.child Production.arrayRank
          return true
        return false) :=
      repeatWhile (test fun _ => ite (fun _ => round (child arrayRank)) (pure false))
    have hrest {pre : TokenStream → Nat → Prop} : Shuns pre (do
        if ← atTypeArguments then
          Production.child
            (Production.nested (Production.typeArgumentsOf (Production.typeUpTo room true)))
        Production.repeatWhile do
          if ranks && (← atRank) then
            Production.child Production.arrayRank
            return true
          return false) :=
      test fun _ => ite (fun _ => seq (child (typeArgumentsOf (ih true)).nested) hranks)
        hranks.anywhere
    refine checked (node (peek fun kind => ?_))
    split
    · refine look (Looks.peekAhead 1) fun next => ite (fun h => ?_) (seq (child dottedName) hrest)
      refine seq (child (leaf fun kind' hkind' => shunning_isNameLike _ ?_)) hrest
      rw [beq_iff_eq.1 hkind']
      exact Bool.or_eq_true_iff.2 (.inr (Bool.and_eq_true_iff.1 h).1)
    · exact seq (child dottedName) hrest

theorem type (ranks : Bool) : Shuns pre (Production.type ranks) :=
  fun env s a s' hpre hrun => typeUpTo env.room ranks env s a s' hpre hrun

theorem typeArguments : Shuns pre Production.typeArguments := typeArgumentsOf (type true)

-- ---------------------------------------------------------------------------
-- Expressions
-- ---------------------------------------------------------------------------

/-- A literal is known to be ahead. -/
theorem literal (r : Rule) (hc : Shunning c) : Shuns (Ahead c) (Production.literal r) :=
  wrapped (leaf hc) _

/-- The member stands behind the dot. -/
theorem memberAccess (object : Node) : Shuns pre (Production.memberAccess object) :=
  construct (seq (field _ (wrap _ object)) (heldThen rfl (field _ memberName)))

theorem implicitMemberAccess : Shuns pre Production.implicitMemberAccess :=
  node (heldThen rfl (field _ memberName))

section

variable {expression : Parse Node} (h : Shuns (fun _ _ => True) expression)

include h

/-- An argument, perhaps behind its name. -/
theorem argumentOf : Shuns pre (Production.argumentOf expression) := by
  rw [Phrase.argumentOf_eq]
  have hnamed : Shuns (Row [TokenKind.isNameLike, (· == .mark .colon), (· == .mark .equal)]) (do
      Production.field .name Production.identifier
      Production.take
      Production.take
      Production.child expression) := by
    refine one (field _ identifier) (ReadsOne.identifierField .name).2 rfl fun _ => ?_
    refine one (ahead (take (shunning_beq rfl))) ReadsOne.take.2 rfl fun _ => ?_
    exact one (ahead (take (shunning_beq rfl))) ReadsOne.take.2 rfl fun _ => (child h).anywhere
  refine node (ifTest (fun env s hahead => ?_) hnamed (child h).anywhere)
  rw [Bool.and_eq_true, Bool.and_eq_true] at hahead
  exact ⟨hahead.1.1, hahead.1.2, hahead.2, trivial⟩

/-- Arguments, commas and line ends. -/
theorem argumentsOf : Shuns pre (Production.argumentsOf expression) := by
  have hcomma : Shuns (fun _ _ => True) (do
      if ← Production.acceptMark .comma then
        Production.skipNewlines
        return true
      return false) :=
    ifAccept rfl (round skipNewlines) (pure false)
  refine checked (node (seq (expectMark _) (test fun _ => ite (fun _ => expectEnd _) ?_)))
  refine seq (repeatWhile (test fun _ => test fun _ => ite (fun _ => hcomma) ?_)) (expectEnd _)
  exact seq (child (argumentOf h).nested) hcomma

theorem initializerOf : Shuns pre (Production.initializerOf expression) := by
  refine node (ifHeld rfl ?_ (child h.nested).anywhere)
  exact seq (field _ memberName) (seq (expectMark _) (child h.nested))

theorem initializersOf : Shuns pre (Production.initializersOf expression) := by
  have hend : Shuns (fun _ _ => True) (do
      Production.skipNewlines
      Production.expectEnd .rightBrace) :=
    seq skipNewlines (expectEnd _)
  refine checked
    (node (seq (expectMark _) (seq skipNewlines (test fun _ => ite (fun _ => hend) ?_))))
  exact seq (commaSeparated (child (initializerOf h).nested)) hend

/-- The arguments of an access. -/
theorem elementAccessOf (object : Node) :
    Shuns pre (Production.elementAccessOf expression object) := by
  refine construct (seq (field _ (wrap _ object)) (seq (expectMark _) (test fun _ => ?_)))
  exact ite (fun _ => expectEnd _) (seq (commaSeparated (field _ h.nested)) (expectEnd _))

theorem invocationOf (target : Node) : Shuns pre (Production.invocationOf expression target) := by
  have harguments : Shuns (fun _ _ => True)
      (Production.field .arguments (Production.nested (Production.argumentsOf expression))) :=
    field _ (argumentsOf h).nested
  refine construct (seq (attach _) (test fun _ => ite (fun _ => ?_) harguments))
  exact seq (child typeArguments.nested) (test fun _ => ite (fun _ => harguments) (pure ()))

/-- Whichever of the two it is. -/
theorem callOrIndexOf (target : Node) : Shuns pre (Production.callOrIndexOf expression target) := by
  rw [Parse.callOrIndexOf_eq]
  exact ite (fun _ => invocationOf h target) (elementAccessOf h target)

theorem parenthesizedOf : Shuns pre (Production.parenthesizedOf expression) :=
  node (seq (expectMark _) (seq (child h.nested) (expectMark _)))

/-- The word of the choice is known to be ahead. -/
theorem ternaryOf (hc : Shunning c) : Shuns (Ahead c) (Production.ternaryOf expression) := by
  have hvalue (f : Field) :
      Shuns (fun _ _ => True) (Production.field f (Production.nested expression)) :=
    field f h.nested
  refine node (seq (take hc) (seq (expectMark _) (seq (hvalue _) (seq (expectMark _) ?_))))
  exact seq (hvalue _) (seq (expectMark _) (seq (hvalue _) (expectMark _)))

/-- So is the word in front of what is created. -/
theorem newOf (hc : Shunning c) : Shuns (Ahead c) (Production.newOf expression) := by
  have hbraces : Shuns (fun _ _ => True) (do
      if ← atKind (.mark .leftBrace) then
        Production.child (Production.nested (Production.initializersOf expression))) :=
    test fun _ => ite (fun _ => child (initializersOf h).nested) (pure ())
  have hwith : Shuns (fun _ _ => True) (do
      if ← Production.test fun env s => env.hasAhead s [.keyword .kwWith, .mark .leftBrace]
          || env.hasAhead s [.keyword .kwFrom, .mark .leftBrace] then Production.take
      if ← atKind (.mark .leftBrace) then
        Production.child (Production.nested (Production.initializersOf expression))) := by
    have htake : Shuns (Row [fun kind => kind == .keyword .kwWith || kind == .keyword .kwFrom])
        Production.take :=
      ahead (take (shunning_either rfl rfl))
    refine ifTest (fun env s hahead => ?_) (seq htake hbraces) hbraces
    refine ⟨?_, trivial⟩
    rcases Bool.or_eq_true_iff.1 hahead with h | h
    · exact Bool.or_eq_true_iff.2 (.inl (Bool.and_eq_true_iff.1 h).1)
    · exact Bool.or_eq_true_iff.2 (.inr (Bool.and_eq_true_iff.1 h).1)
  have hcalled : Shuns (fun _ _ => True) (do
      if ← atKind (.mark .leftParen) then
        Production.child (Production.nested (Production.argumentsOf expression))
      if ← Production.test fun env s => env.hasAhead s [.keyword .kwWith, .mark .leftBrace]
          || env.hasAhead s [.keyword .kwFrom, .mark .leftBrace] then Production.take
      if ← atKind (.mark .leftBrace) then
        Production.child (Production.nested (Production.initializersOf expression))) :=
    test fun _ => ite (fun _ => seq (child (argumentsOf h).nested) hwith) hwith
  exact node (seq (take hc)
    (test fun _ => ite (fun _ => hcalled) (seq (field _ (type false).nested) hcalled)))

/-- The kind of the token ahead picks the operand. -/
theorem primaryOf : Shuns pre (Production.primaryOf expression) := by
  refine peek fun kind => ?_
  split
  case h_8 => exact wrapped (tokenLeaf (shunning_beq rfl)) _
  case h_9 => exact newOf h (shunning_beq rfl)
  case h_10 =>
    exact look (Looks.peekAhead 1) fun _ => ite (fun _ => ternaryOf h (shunning_beq rfl)) (fail _)
  case h_11 => exact parenthesizedOf h
  case h_12 => exact initializersOf h
  case h_13 => exact implicitMemberAccess
  case h_14 =>
    refine ite (fun hname => leaf fun kind' hkind' => shunning_isNameLike _ ?_) (fail _)
    rw [beq_iff_eq.1 hkind']
    exact hname
  all_goals exact literal _ (shunning_beq rfl)

/-- Accesses and calls behind an operand. -/
theorem postfixOf : Shuns pre (Production.postfixOf expression) := by
  refine bind (primaryOf h)
    fun primary => wrapped (iterate (fun inner => look Looks.peek fun kind => ?_) _) _
  split
  · exact some (memberAccess inner)
  · exact some (callOrIndexOf h inner)
  · exact pure none

end

section

variable {operand : Int → Parse Node} (h : ∀ level, Shuns (fun _ _ => True) (operand level))

include h

/-- The word of the test is known to be ahead. -/
theorem typeTestOf (hc : Shunning c) : Shuns (Ahead c) (Production.typeTestOf operand) := by
  have hoperand : Shuns (fun _ _ => True)
      (Production.field .operand (Production.nested (operand Precedence.typeOf))) :=
    field _ (h _).nested
  have hrest : Shuns (fun _ _ => True) (do
      unless (← atWord .kwIs) || (← atWord .kwIsNot) do
        Production.fail (.oneOf [.keyword .kwIs, .keyword .kwIsNot])
      Production.field .operator Production.tokenLeaf
      Production.field .type (Production.nested (Production.type true))) :=
    ifEither (seq (field _ (tokenLeaf (shunning_either rfl rfl))) (field _ (type true).nested))
    (failThen _)
  exact wrapped (node (seq (take hc) (seq hoperand hrest))) _

/-- Operators that stand in front begin no line. -/
theorem unaryOf : Shuns pre (Production.unaryOf operand) := by
  have hoperation {kind : TokenKind} (hkind : opensLine kind = false) :
      Shuns (Ahead (· == kind)) (do
      let operation ← Production.node .unaryExpression do
        Production.field .operator Production.tokenLeaf
        Production.field .operand (Production.nested (operand Precedence.unary))
      Production.wrap .expression operation) :=
    wrapped (node (seq (field _ (tokenLeaf (shunning_beq hkind))) (field _ (h _).nested))) _
  refine peek fun kind => ?_
  split
  case h_5 => exact typeTestOf h (shunning_beq rfl)
  case h_6 => exact postfixOf (h _)
  all_goals exact hoperation rfl

/-- Neither do those that stand between operands. -/
theorem extendOf (level : Int) (left : Node) :
    Shuns pre (Production.extendOf operand level left) := by
  refine peek fun kind => ?_
  cases hkind : Precedence.ofKind? kind with
  | none => exact pure none
  | some precedence =>
    have hoperator := shunning_beq (not_opensLine_of_operator hkind)
    refine ite (fun _ => pure none) (bind (construct ?_) fun operation => some (wrap _ operation))
    exact attachThen _ (seq (field _ (tokenLeaf hoperator)) (field _ (h _).nested))

end

/-- By induction on the levels that are left. -/
theorem expressionUpTo (room : Nat) (level : Int) :
    Shuns pre (Production.expressionUpTo room level) := by
  induction room generalizing pre level with
  | zero => exact tooDeep
  | succ room ih =>
    refine checked (bind (unaryOf fun level => ih level) fun left => ?_)
    exact iterate (fun x => extendOf (fun level => ih level) level x) left

/-- Every expression, wherever it begins. -/
theorem expression : Shuns pre Production.expression :=
  fun env s a s' hpre hrun => expressionUpTo env.room Precedence.lowest env s a s' hpre hrun

theorem arguments : Shuns pre Production.arguments := argumentsOf expression

theorem initializers : Shuns pre Production.initializers := initializersOf expression

-- ---------------------------------------------------------------------------
-- The parts of headers
-- ---------------------------------------------------------------------------

/-- The type of a variable. -/
theorem asClause : Shuns pre Production.asClause := by
  have hinitializers : Shuns (fun _ _ => True) (do
      if (← atWord .kwWith) || (← atWord .kwFrom) then
        Production.take
        Production.child (Production.nested Production.initializers)) :=
    ifEither (seq (take (shunning_either rfl rfl)) (child initializers.nested)) (pure ())
  refine checked (node (seq (expectWord rfl) (ifAccept rfl ?_ (field _ (type true).nested))))
  refine seq (field _ (type false).nested) (test fun _ => ?_)
  exact ite (fun _ => seq (child arguments.nested) hinitializers) hinitializers

/-- If there is one. -/
theorem optionalAsClause : Shuns pre Production.optionalAsClause :=
  test fun _ => ite (fun _ => child asClause.nested) (pure ())

theorem optionalValue (f : Field) : Shuns pre (Production.optionalValue f) :=
  ifAccept rfl (field _ expression.nested) (pure ())

/-- The target of an attribute and what follows it, or an attribute without a target. -/
theorem ifTarget {see : Env → State → Bool} {p q : Parse α}
    (hsee : ∀ env s, see env s = true →
      env.kind s ≠ .endOfFile ∧ env.tokens.kindAt (s.cursor + 1) = .mark .colon)
    (hp : Shuns (fun _ _ => True) p) (hq : Shuns (fun _ _ => True) q) :
    Shuns Held (Production.test see >>= fun x => if x = true then
      (do
        Production.field .target (ruleLeaf .identifier)
        Production.take
        p) else q) := by
  intro env s a s' hpre hrun
  rw [(Looks.test _).run_bind] at hrun
  split at hrun
  · obtain ⟨hlast, hcolon⟩ := hsee env s ‹_›
    obtain ⟨_, s₁, htarget, hrest⟩ := bind_eq_ok hrun
    have hnext : s₁.cursor = s.cursor + 1 :=
      ((ReadsOne.ruleField .target .identifier).2 env s _ s₁ htarget).trans
        (Env.next_eq_succ hlast)
    have hat : Ahead (· == .mark .colon) env.tokens s₁.cursor := by
      show (env.tokens.kindAt s₁.cursor == _) = true
      rw [hnext, hcolon]
      rfl
    exact (field .target heldLeaf env s _ s₁ hpre htarget).trans
      (seq (take (shunning_beq rfl)) hp env s₁ a s' hat hrest)
  · exact hq env s a s' trivial hrun

/-- An attribute begins behind a mark, so its target may be such a word. -/
theorem attributeItem : Shuns Held Production.attributeItem := by
  have hname : Shuns (fun _ _ => True) (do
      Production.field .name (do
        if (← peekAhead 1) == .mark .dot then Production.dottedName else Production.identifier)
      if ← atKind (.mark .leftParen) then
        Production.child (Production.nested Production.arguments)) := by
    refine seq (field _ (look (Looks.peekAhead 1) fun _ => ite (fun _ => dottedName) identifier)) ?_
    exact test fun _ => ite (fun _ => child arguments.nested) (pure ())
  refine node (ifTarget (fun env s hahead => ?_) hname hname)
  have hword {kind : TokenKind} (hkind : kind ≠ .endOfFile)
      (h : env.hasAhead s [kind, .mark .colon] = true) :
      env.kind s ≠ .endOfFile ∧ env.tokens.kindAt (s.cursor + 1) = .mark .colon := by
    obtain ⟨hfirst, hrest⟩ := Bool.and_eq_true_iff.1 h
    refine ⟨?_, beq_iff_eq.1 (Bool.and_eq_true_iff.1 hrest).1⟩
    rw [show env.kind s = kind from beq_iff_eq.1 hfirst]
    exact hkind
  exact (Bool.or_eq_true_iff.1 hahead).elim (hword nofun) (hword nofun)

/-- The mark that opens attributes, and the commas between them. -/
theorem attributeBlock : Shuns pre Production.attributeBlock := by
  have hitems : Shuns Held (do
      Production.commaSeparated (Production.child (Production.nested Production.attributeItem))
      Production.expectEnd .greater) :=
    seq (commaSeparatedHeld (child attributeItem.nested)) (expectEnd _)
  exact checked (node (heldThen rfl hitems))

/-- The words for how a parameter is passed. -/
theorem passing {kind : TokenKind} (h : isPassing kind = true) : Shunning (· == kind) := by
  refine shunning_beq ?_
  cases kind with
  | keyword word => cases word <;> first | rfl | exact Bool.noConfusion h
  | _ => exact Bool.noConfusion h

/-- Words, a name, and what may follow it. -/
theorem parameter : Shuns pre Production.parameter := by
  have hpassing : Shuns (fun _ _ => True) (do
      if isPassing (← Production.peek) then
        Production.take
        return true
      return false) := by
    refine peek fun kind => ?_
    by_cases h : isPassing kind = true
    · rw [if_pos h]
      exact round (take (passing h))
    · rw [if_neg h]
      exact pure false
  have hrest : Shuns (fun _ _ => True) (do
      Production.optionalAsClause
      Production.optionalValue .defaultValue) :=
    seq optionalAsClause (optionalValue _)
  have hname : Shuns (fun _ _ => True) (do
      Production.repeatWhile do
        if isPassing (← Production.peek) then
          Production.take
          return true
        return false
      Production.field .name Production.identifier
      if ← atRank then Production.child Production.arrayRank
      Production.optionalAsClause
      Production.optionalValue .defaultValue) := by
    refine seq (repeatWhile hpassing) (seq (field _ identifier) (test fun _ => ?_))
    exact ite (fun _ => seq (child arrayRank) hrest) hrest
  exact node (test fun _ => ite (fun _ => seq (field _ attributeBlock.nested) hname) hname.anywhere)

/-- Parameters with commas between them. -/
theorem parameters : Shuns pre Production.parameters := by
  have hitems : Shuns (fun _ _ => True) (Production.commaSeparated
      (Production.child (Production.nested Production.parameter))) :=
    commaSeparated (child parameter.nested)
  refine checked (node (seq (expectMark _) (test fun _ => ?_)))
  exact ite (fun _ => expectEnd _) (seq hitems (expectEnd _))

theorem optionalParameters : Shuns pre Production.optionalParameters :=
  test fun _ => ite (fun _ => field _ parameters.nested) (pure ())

/-- The words of these clauses begin no line. -/
theorem memberClauses : Shuns pre Production.memberClauses := by
  refine repeatWhile (peek fun kind => ?_)
  split
  · exact round (field _ (node (seq (expectWord rfl) (commaSeparated (child dottedName)))))
  · exact round (field _ (node (seq (expectWord rfl) (commaSeparated (child (type false).nested)))))
  · exact pure false

end Shuns

end Production

end VisualBasic
