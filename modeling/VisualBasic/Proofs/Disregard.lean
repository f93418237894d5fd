import VisualBasic.Proofs.Exchange

/-!
# Productions that disregard a terminator

A quiet production that reads no terminator makes the same of two streams that differ in one. It is
enough that its run in the one stream ends in front of the terminator or with it, or begins behind
it. The few productions that tell a line end from a colon do so behind the last token that they read
for sure, so for them the run has to end in front of the terminator.

The judgement is a class, and for most of the grammar it is found by instances.

* `Disregards` — the same run goes through in the other stream.
* `Enters` — what succeeds has read a token that is no terminator.

Main results:

* `Disregards.peek`, `Disregards.seq` — the judgement of what is put together.
* `Disregards.before` — a production that ends in front of the terminator because a token follows
  it.
-/

namespace VisualBasic

namespace State

/-- The state `s'` is further on than `s`, and all that was attached there still is. -/
structure Gone (t : TokenStream) (s s' : State) : Prop extends Later t s s' where
  children : s.children <:+ s'.children

/-- A run that does nothing. -/
theorem Gone.refl {t : TokenStream} {s : State} (hs : s.cursor ≤ t.tokens.size) : Gone t s s :=
  ⟨.refl hs, List.suffix_refl _⟩

/-- Runs one behind the other. -/
theorem Gone.trans {t : TokenStream} {s s₁ s' : State} (h : Gone t s s₁) (h' : Gone t s₁ s') :
    Gone t s s' :=
  ⟨h.toLater.trans h'.toLater, h.children.trans h'.children⟩

/-- A run from `s` to `s'` is within the tokens on one side of the terminator at `k`; if `through`,
it may end with the terminator. -/
def Beyond (through : Bool) (k : Nat) (s s' : State) : Prop :=
  k < s.cursor ∨ s'.cursor < k ∨ through = true ∧ s'.cursor ≤ k + 1

namespace Beyond

variable {through : Bool} {k : Nat} {t : TokenStream} {s s₁ s' : State}

/-- The first part of a run on one side is on this side. -/
theorem front (h : Beyond through k s s') (h' : Later t s₁ s') : Beyond through k s s₁ := by
  have hle := h'.cursor
  obtain h | h | ⟨hthrough, h⟩ := h
  · exact .inl h
  · exact .inr (.inl (Nat.lt_of_le_of_lt hle h))
  · exact .inr (.inr ⟨hthrough, Nat.le_trans hle h⟩)

/-- So is the last part. -/
theorem back (h : Beyond through k s s') (h' : Later t s s₁) : Beyond through k s₁ s' := by
  obtain h | h := h
  · exact .inl (Nat.lt_of_lt_of_le h h'.cursor)
  · exact .inr h

/-- Ending in front of the terminator is more than ending with it. -/
theorem through_of (h : Beyond through k s s') : Beyond true k s s' := by
  obtain h | h | ⟨-, h⟩ := h
  · exact .inl h
  · exact .inr (.inl h)
  · exact .inr (.inr ⟨rfl, h⟩)

/-- A run that ends in front of the terminator does not begin at it. -/
theorem ne_of_far (h : Beyond false k s s') (h' : Later t s s') : s.cursor ≠ k := by
  have hle := h'.cursor
  obtain h | h | ⟨h, -⟩ := h
  · exact Nat.ne_of_gt h
  · exact Nat.ne_of_lt (Nat.lt_of_le_of_lt hle h)
  · cases h

end Beyond

end State

namespace Production

open State

variable {α β : Type} {through off : Bool}

/-- What the production makes in one stream, it makes in another that differs in the terminator at
`k`, if its run is on one side of it. If `off`, this is said only of runs that do not begin at the
terminator. -/
class Disregards (through off : Bool) (p : Parse α) : Prop where
  gone : ∀ {env : Env} {s : State} {a : α} {s' : State}, s.cursor ≤ env.tokens.tokens.size →
    p env s = .ok a s' → Gone env.tokens s s'
  same : ∀ {k : Nat} {env env' : Env} {s : State} {a : α} {s' : State}, env.Exchanged k env' →
    s.cursor ≤ env.tokens.tokens.size → p env s = .ok a s' → (off = true → s.cursor ≠ k) →
    Beyond through k s s' → p env' s = .ok a s'

/-- A run that succeeds begins at a token that is no terminator, and reads it. -/
def Enters (p : Parse α) : Prop :=
  ∀ (env : Env) (s : State) (a : α) (s' : State), s.cursor ≤ env.tokens.tokens.size →
    p env s = .ok a s' → (env.kind s).isTerminator = false ∧ s.cursor < s'.cursor

namespace Disregards

variable {p q : Parse α} {f : α → Parse β}

/-- A production that disregards the terminator wherever it begins does so where this is not
asked. -/
theorem weaken (h : Disregards true false p) : Disregards through off p :=
  ⟨h.gone, fun henv hs hrun _ hbeyond => h.same henv hs hrun nofun hbeyond.through_of⟩

-- ---------------------------------------------------------------------------
-- Chaining
-- ---------------------------------------------------------------------------

/-- Nothing but what the limits tell is seen, and nothing is done. -/
theorem still (h : ∀ {env s a s'}, p env s = .ok a s' →
    s' = s ∧ ∀ k env', env.Exchanged k env' → p env' s = .ok a s) : Disregards through off p := by
  refine ⟨fun hs hrun => ?_, fun {k env env' s a s'} henv _ hrun _ _ => ?_⟩
  · obtain ⟨rfl, -⟩ := h hrun
    exact .refl hs
  · obtain ⟨rfl, hsame⟩ := h hrun
    exact hsame k env' henv

instance pure {a : α} : Disregards through off (Pure.pure a : Parse α) :=
  still fun hrun => by
    cases hrun
    exact ⟨rfl, fun _ _ _ => rfl⟩

instance fail {e : Expected} : Disregards through off (Production.fail e : Parse α) :=
  still fun hrun => by cases hrun

/-- Nothing is too deep on its own account: the levels are the same. -/
instance tooDeep : Disregards through off (Production.tooDeep : Parse α) :=
  still fun hrun => by cases hrun

instance checkDepth : Disregards through off Production.checkDepth := by
  refine still fun {env s a s'} hrun => ⟨checkDepth_eq_ok hrun, fun k env' henv => ?_⟩
  unfold Production.checkDepth at hrun ⊢
  rw [henv.limit, henv.depth]
  split at hrun
  · cases hrun
  · rename_i hdepth
    rw [if_neg hdepth]

/-- The second part begins behind something that was read, or where the first one began. -/
theorem bind (hp : Disregards through off p) (hf : ∀ a, Disregards through false (f a)) :
    Disregards through off (p >>= f) := by
  refine ⟨fun hs hrun => ?_, fun henv hs hrun hoff hbeyond => ?_⟩
  · obtain ⟨a, s₁, hfirst, hrest⟩ := bind_eq_ok hrun
    have hgone := hp.gone hs hfirst
    exact hgone.trans ((hf a).gone hgone.le_size hrest)
  · obtain ⟨a, s₁, hfirst, hrest⟩ := bind_eq_ok hrun
    have hgone := hp.gone hs hfirst
    have hgone' := (hf a).gone hgone.le_size hrest
    rw [run_bind, hp.same henv hs hfirst hoff (hbeyond.front hgone'.toLater)]
    exact (hf a).same henv hgone.le_size hrest nofun (hbeyond.back hgone.toLater)

/-- The same for instances. -/
instance seq [hp : Disregards through off p] [hf : ∀ a, Disregards through false (f a)] :
    Disregards through off (p >>= f) :=
  hp.bind hf

/-- Nothing is done behind a failure. -/
instance (priority := high) failThen {e : Expected} {f : β → Parse α} :
    Disregards through off (Production.fail e >>= f) := by
  refine still fun hrun => ?_
  obtain ⟨_, _, hfail, -⟩ := bind_eq_ok hrun
  cases hfail

/-- A choice that does not depend on the terminator. -/
theorem either {c : Prop} [Decidable c] (hp : Disregards through off p)
    (hq : Disregards through off q) :
    Disregards through off (if c then p else q) := by
  split
  · exact hp
  · exact hq

instance ite {c : Prop} [Decidable c] [hp : Disregards through off p]
    [hq : Disregards through off q] :
    Disregards through off (if c then p else q) :=
  hp.either hq

instance (priority := high) iteTrue [hp : Disregards through off p] :
    Disregards through off (if true = true then p else q) :=
  hp

instance (priority := high) iteFalse [hq : Disregards through off q] :
    Disregards through off (if false = true then p else q) :=
  hq

instance (priority := high) iteNeither [hq : Disregards through off q] :
    Disregards through off (if (false || false) = true then p else q) :=
  hq

-- ---------------------------------------------------------------------------
-- Looking
-- ---------------------------------------------------------------------------

/-- What is done behind a look that does not tell terminators apart. -/
theorem looks {p : Parse β} {seen : Env → State → β} {f : β → Parse α} (hp : Looks p seen)
    (hseen : Blind seen) (hf : ∀ a, Disregards through off (f a)) :
    Disregards through off (p >>= f) := by
  refine ⟨fun hs hrun => ?_, fun henv hs hrun hoff hbeyond => ?_⟩
  · rw [hp.run_bind] at hrun
    exact (hf _).gone hs hrun
  · rw [hp.run_bind] at hrun
    rw [hp.run_bind, hseen.same henv]
    exact (hf _).same henv hs hrun hoff hbeyond

/-- A test to which a line end and a colon look the same. -/
instance test {seen : Env → State → Bool} [hseen : Blind seen] {f : Bool → Parse α}
    [hf : ∀ b, Disregards through off (f b)] :
    Disregards through off (Production.test seen >>= f) :=
  looks (Looks.test seen) hseen hf

/-- A look is a result, too. -/
instance see {seen : Env → State → Bool} [hseen : Blind seen] :
    Disregards through off (Production.test seen) := by
  rw [← bind_pure (Production.test seen)]
  exact test

/-- Neither of them is a word. -/
instance seeWord {word : Keyword} : Disregards through off (Production.atWord word) :=
  @see _ _ _ .isKind

/-- A row of kinds without either of them. -/
instance ahead {kinds : List TokenKind} [WithinLine kinds] {f : Bool → Parse α}
    [hf : ∀ b, Disregards through off (f b)] :
    Disregards through off (Production.ahead kinds >>= f) :=
  test

/-- Where the token ahead is known not to be a terminator, the run does not begin at one. -/
theorem peek {f : TokenKind → Parse α} (hf : f .newline = f (.mark .colon))
    (hends : Disregards through off (f .newline))
    (hwithin : ∀ kind, kind.isTerminator = false → Disregards through true (f kind)) :
    Disregards through off (Production.peek >>= f) := by
  have hany (kind : TokenKind) : Disregards through true (f kind) := by
    cases hkind : kind.isTerminator with
    | false => exact hwithin kind hkind
    | true =>
      have heq : f kind = f .newline := by
        unfold TokenKind.isTerminator at hkind
        split at hkind
        · rfl
        · exact hf.symm
        · cases hkind
      rw [heq]
      exact ⟨hends.gone, fun henv hs hrun hoff => hends.same henv hs hrun fun _ => hoff rfl⟩
  refine ⟨fun hs hrun => ?_, fun {k env env' s a s'} henv hs hrun hoff hbeyond => ?_⟩
  · rw [Looks.peek.run_bind] at hrun
    exact (hany _).gone hs hrun
  · rw [Looks.peek.run_bind] at hrun ⊢
    have hsame : f (env'.kind s) = f (env.kind s) := henv.tokens.alike f hf s.cursor
    rw [hsame]
    by_cases hk : s.cursor = k
    · have hnewline : f (env.kind s) = f .newline := by
        have hends := henv.tokens.ends
        rw [← hk] at hends
        unfold TokenKind.isTerminator at hends
        split at hends
        · rename_i hkind
          rw [Env.kind, hkind]
        · rename_i hkind
          rw [Env.kind, hkind, hf]
        · cases hends
      rw [hnewline] at hrun ⊢
      exact hends.same henv hs hrun hoff hbeyond
    · exact (hany _).same henv hs hrun (fun _ => hk) hbeyond

/-- A look at a token further on that treats both alike. -/
theorem peekAhead {i : Nat} {f : TokenKind → Parse α} (hf : f .newline = f (.mark .colon))
    (hall : ∀ kind, Disregards through off (f kind)) :
    Disregards through off (Production.peekAhead i >>= f) := by
  refine ⟨fun hs hrun => ?_, fun {k env env' s a s'} henv hs hrun hoff hbeyond => ?_⟩
  · rw [(Looks.peekAhead i).run_bind] at hrun
    exact (hall _).gone hs hrun
  · rw [(Looks.peekAhead i).run_bind] at hrun ⊢
    have hsame : f (env'.kindAhead s i) = f (env.kindAhead s i) := henv.tokens.alike f hf _
    rw [hsame]
    exact (hall _).same henv hs hrun hoff hbeyond

/-- A look for a kind that is neither. -/
instance peekAheadIs {i : Nat} {kind : TokenKind} [hkind : Holds kind.isWithinLine]
    [hp : Disregards through off p] [hq : Disregards through off q] :
    Disregards through off (Production.peekAhead i >>= fun k => if (k == kind) =
      true then p else q) := by
  refine peekAhead ?_ fun _ => inferInstance
  have hne {terminator : TokenKind} (hends : terminator.isTerminator = true) :
      (terminator == kind) = false := by
    refine Bool.eq_false_iff.2 fun heq => ?_
    have hwithin := hkind.eq_true
    rw [← beq_iff_eq.1 heq, TokenKind.isWithinLine_eq, hends] at hwithin
    cases hwithin
  rw [hne rfl, hne rfl]

/-- Where a look shows that the token ahead is no terminator, the run does not begin at one. -/
theorem testThen {seen : Env → State → Bool} [hseen : Blind seen] {f : Bool → Parse α}
    (hwithin : ∀ env s, seen env s = true → (env.kind s).isTerminator = false)
    (htrue : Disregards through true (f true)) (hfalse : Disregards through off (f false)) :
    Disregards through off (Production.test seen >>= f) := by
  refine ⟨fun {env s a s'} hs hrun => ?_, fun {k env env' s a s'} henv hs hrun hoff hbeyond => ?_⟩
  · rw [(Looks.test seen).run_bind] at hrun
    cases hb : seen env s with
    | true => exact htrue.gone hs (hb ▸ hrun)
    | false => exact hfalse.gone hs (hb ▸ hrun)
  · rw [(Looks.test seen).run_bind] at hrun ⊢
    rw [hseen.same henv]
    cases hb : seen env s with
    | true =>
      refine htrue.same henv hs (hb ▸ hrun) (fun _ => ?_) hbeyond
      exact henv.tokens.ne_of_not_terminator (hwithin env s hb)
    | false => exact hfalse.same henv hs (hb ▸ hrun) hoff hbeyond

instance (priority := high) atKind {kind : TokenKind} [hkind : Holds kind.isWithinLine]
    {f : Bool → Parse α} [htrue : Disregards through true (f true)]
    [hfalse : Disregards through off (f false)] :
    Disregards through off (Production.atKind kind >>= f) := by
  refine testThen (fun env s hs => ?_) htrue hfalse
  have hwithin := hkind.eq_true
  rwa [TokenKind.isWithinLine_eq, Bool.not_eq_true', ← show env.kind s =
    kind from beq_iff_eq.1 hs] at hwithin

instance (priority := high) atWord {word : Keyword} {f : Bool → Parse α}
    [Disregards through true (f true)] [Disregards through off (f false)] :
    Disregards through off (Production.atWord word >>= f) :=
  atKind

/-- Both end a statement. -/
instance atTerminator {f : Bool → Parse α} [∀ b, Disregards through off (f b)] :
    Disregards through off (Production.atTerminator >>= f) :=
  test

-- ---------------------------------------------------------------------------
-- Tokens and nodes
-- ---------------------------------------------------------------------------

/-- What only moves on and attaches children. -/
theorem step (give : Env → State → α) (new : List Node) {stop : Env → State → Nat}
    (hrun : ∀ env s, p env s =
      .ok (give env s) { s with cursor := stop env s, children := new ++ s.children })
    (hstop : ∀ env s, s.cursor ≤ env.tokens.tokens.size →
      s.cursor ≤ stop env s ∧ stop env s ≤ env.tokens.tokens.size)
    (hsame : ∀ {k env env' s}, env.Exchanged k env' → (off = true → s.cursor ≠ k) →
      give env' s = give env s ∧ stop env' s = stop env s) : Disregards through off p := by
  refine ⟨fun {env s a s'} hs hres => ?_, fun {k env env' s a s'} henv hs hres hoff _ => ?_⟩
  · rw [hrun] at hres
    cases hres
    obtain ⟨hle, hsize⟩ := hstop env s hs
    exact ⟨⟨hle, hsize, List.suffix_refl _⟩, List.suffix_append _ _⟩
  · obtain ⟨hgive, hend⟩ := hsame henv hoff
    rw [hrun, hgive, hend, ← hrun, hres]

/-- Going past a token does not depend on what it is. -/
instance skip : Disregards through off Production.skip :=
  step (fun _ _ => ()) [] (fun _ _ => rfl) (fun _ _ hs => le_next hs)
    fun henv _ => ⟨rfl, henv.next _⟩

/-- A leaf of a given kind has the span of the token, which is the same. -/
instance leaf {kind : NodeKind} : Disregards through off (Production.leaf kind) :=
  step (fun env s => .leaf kind (env.tokens.get s.cursor).span s.cursor) [] (fun _ _ => rfl)
    (fun _ _ hs => le_next hs) fun {k env env' s} henv _ => ⟨by rw [henv.tokens.span], henv.next _⟩

instance ruleLeaf {r : Rule} : Disregards through off (Production.ruleLeaf r) := leaf

/-- What is attached was built before. -/
instance attach {n : Node} : Disregards through off (Production.attach n) :=
  step (fun _ _ => ()) [n] (fun _ _ => rfl) (fun _ _ hs => ⟨Nat.le_refl _, hs⟩)
    fun _ _ => ⟨rfl, rfl⟩

instance attachIn {role : Field} {n : Node} : Disregards through off (Production.attachIn role n) :=
  attach (n := n.inField role)

/-- Attaching does not move. -/
instance (priority := high) attachThen {n : Node} {f : Unit → Parse α}
    [hf : ∀ a, Disregards through off (f a)] :
    Disregards through off (Production.attach n >>= f) := by
  refine ⟨fun {env s a s'} hs hrun => ?_, fun {k env env' s a s'} henv hs hrun hoff hbeyond => ?_⟩
  · have hgone := (hf ()).gone (s := { s with children := n :: s.children }) hs hrun
    exact ⟨⟨hgone.cursor, hgone.le_size, hgone.diagnostics⟩,
      (List.suffix_cons n s.children).trans hgone.children⟩
  · exact (hf ()).same (s := { s with children := n :: s.children }) henv hs hrun hoff hbeyond

instance (priority := high) attachInThen {role : Field} {n : Node} {f : Unit → Parse α}
    [∀ a, Disregards through off (f a)] :
    Disregards through off (Production.attachIn role n >>= f) :=
  attachThen (n := n.inField role)

/-- A leaf of the token's own kind: the run must not begin at the terminator. -/
instance tokenLeaf : Disregards through true Production.tokenLeaf := by
  refine step (fun env s => .leaf (.token (env.kind s)) (env.tokens.get s.cursor).span s.cursor) []
    (fun _ _ => rfl) (fun _ _ hs => le_next hs) fun {k env env' s} henv hoff => ⟨?_, henv.next _⟩
  rw [henv.kind (hoff rfl), henv.tokens.span]

instance child {p : Parse Node} [Disregards through off p] : Disregards through off p.child := by
  unfold Production.child
  infer_instance

instance field {role : Field} {p : Parse Node} [Disregards through off p] :
    Disregards through off (Production.field role p) := by
  unfold Production.field
  infer_instance

/-- So it is if the leaf is attached. -/
instance take : Disregards through true Production.take := by
  unfold Production.take
  infer_instance

instance nested [hp : Disregards through off p] : Disregards through off p.nested :=
  ⟨fun {env s a s'} hs hrun => @hp.gone { env with depth := env.depth + 1 } s a s' hs hrun,
    fun henv hs hrun hoff hbeyond => hp.same henv.nested hs hrun hoff hbeyond⟩

/-- The levels that are left are the same in both streams. -/
theorem byRoom {p : Nat → Parse α} (hp : ∀ room, Disregards through off (p room)) :
    Disregards through off fun env s => p env.room env s := by
  refine ⟨fun hs hrun => (hp _).gone hs hrun, fun henv hs hrun hoff hbeyond => ?_⟩
  rw [henv.room]
  exact (hp _).same henv hs hrun hoff hbeyond

/-- A node has the span of its tokens, and the span of the terminator is the same. -/
instance construct {r : Rule} {first : Nat} {body : Parse Unit}
    [hbody : Disregards through off body] :
    Disregards through off (Production.construct r first body) := by
  refine ⟨fun {env s n s'} hs hrun => ?_, fun {k env env' s n s'} henv hs hrun hoff hbeyond => ?_⟩
  · obtain ⟨s₁, hbodyRun, -, rfl⟩ := construct_eq_finish hrun
    have hgone := hbody.gone (s := { s with children := [], isPartial := false }) hs hbodyRun
    exact ⟨⟨hgone.cursor, hgone.le_size, hgone.diagnostics⟩, List.suffix_refl _⟩
  · obtain ⟨s₁, hbodyRun, rfl, rfl⟩ := construct_eq_finish hrun
    have hsame :=
      hbody.same (s := { s with children := [], isPartial := false }) henv hs hbodyRun hoff hbeyond
    rw [Parse.construct_eq]
    rw [hsame]
    dsimp only
    rw [henv.span]

instance node {r : Rule} {body : Parse Unit} [hbody : Disregards through off body] :
    Disregards through off (Production.node r body) := by
  have hnode (first : Nat) : Disregards through off (Production.construct r first body) := construct
  exact ⟨fun hs hrun => (hnode _).gone hs hrun,
    fun henv hs hrun hoff hbeyond => (hnode _).same henv hs hrun hoff hbeyond⟩

/-- The same with the judgement of the body as an argument. -/
theorem nodeOf {r : Rule} {body : Parse Unit} (_ : Disregards through off body) :
    Disregards through off (Production.node r body) :=
  node

instance nodeFrom {n : Node} {r : Rule} {body : Parse Unit} [Disregards through off body] :
    Disregards through off (Production.nodeFrom n r body) :=
  construct

instance wrap {n : Node} {r : Rule} : Disregards through off (Production.wrap r n) := nodeFrom

instance map {p : Parse Node} [Disregards through off p] :
    Disregards through off (Option.some <$> p) := by
  rw [map_eq_pure_bind]
  infer_instance

-- ---------------------------------------------------------------------------
-- Repetition
-- ---------------------------------------------------------------------------

/-- By induction on the rounds. From the second one on nothing is known of where they begin. -/
theorem iterateUpTo {step : α → Parse (Option α)} (hstep : ∀ x, Disregards through false (step x))
    (n : Nat) (x : α) : Disregards through off (Production.iterateUpTo step n x) := by
  have hall : Disregards through false (Production.iterateUpTo step n x) := by
    induction n generalizing x with
    | zero => exact pure
    | succ n ih =>
      rw [iterateUpTo_succ]
      refine (hstep x).bind fun y => ?_
      cases y with
      | none => exact pure
      | some y => exact ih y
  exact ⟨hall.gone, fun henv hs hrun _ => hall.same henv hs hrun nofun⟩

instance iterate {step : α → Parse (Option α)} [hstep : ∀ x, Disregards through false (step x)]
    {x : α} :
    Disregards through off (Production.iterate step x) := by
  have hsteps (n : Nat) : Disregards through off (Production.iterateUpTo step n x) :=
    iterateUpTo hstep n x
  refine ⟨fun hs hrun => (hsteps _).gone hs hrun, fun henv hs hrun hoff hbeyond => ?_⟩
  unfold Production.iterate TokenStream.size
  rw [henv.tokens.size]
  exact (hsteps _).same henv hs hrun hoff hbeyond

theorem iterateOf {step : α → Parse (Option α)} (_ : ∀ x, Disregards through false (step x))
    {x : α} :
    Disregards through off (Production.iterate step x) :=
  iterate

instance repeatWhile {step : Parse Bool} [Disregards through false step] :
    Disregards through off (Production.repeatWhile step) := by
  unfold Production.repeatWhile
  infer_instance

/-- A token of a kind that is no terminator. -/
instance expect {kind : TokenKind} [Holds kind.isWithinLine] :
    Disregards through off (Production.expect kind) := by
  unfold Production.expect
  infer_instance

instance expectWord {word : Keyword} : Disregards through off (Production.expectWord word) := expect

instance expectMark {mark : Mark} [Holds (TokenKind.mark mark).isWithinLine] :
    Disregards through off (Production.expectMark mark) :=
  expect

instance expectEnd {mark : Mark} [Holds (TokenKind.mark mark).isWithinLine] :
    Disregards through off (Production.expectEnd mark) := by
  unfold Production.expectEnd
  infer_instance

/-- Behind a token that is accepted anything may follow. -/
instance accept {kind : TokenKind} [Holds kind.isWithinLine] :
    Disregards through off (Production.accept kind) := by
  unfold Production.accept
  infer_instance

instance acceptWord {word : Keyword} : Disregards through off (Production.acceptWord word) := accept

instance acceptMark {mark : Mark} [Holds (TokenKind.mark mark).isWithinLine] :
    Disregards through off (Production.acceptMark mark) :=
  accept

/-- The commas are no terminators, so only the first item may begin at the terminator. -/
instance commaSeparated {item : Parse Unit} [Disregards through off item]
    [Disregards through false item] :
    Disregards through off (Production.commaSeparated item) := by
  unfold Production.commaSeparated
  infer_instance

-- ---------------------------------------------------------------------------
-- Blocks
-- ---------------------------------------------------------------------------

/-- What changes no more than flags and blocks. -/
theorem alter {p : Parse Unit} (f : Env → State → State)
    (hrun : ∀ env s, p env s = .ok () (f env s))
    (hgone : ∀ env s, (f env s).cursor = s.cursor ∧ (f env s).children = s.children ∧
      s.diagnostics <:+ (f env s).diagnostics)
    (hsame : ∀ {k env env' s}, env.Exchanged k env' → f env' s = f env s) :
    Disregards through off p := by
  refine ⟨fun {env s a s'} hs hres => ?_, fun {k env env' s a s'} henv _ hres _ _ => ?_⟩
  · rw [hrun] at hres
    cases hres
    obtain ⟨hcursor, hchildren, hdiagnostics⟩ := hgone env s
    refine ⟨⟨Nat.le_of_eq hcursor.symm, ?_, hdiagnostics⟩, ?_⟩
    · rwa [hcursor]
    · exact ⟨[], hchildren.symm⟩
  · rw [hrun, hsame henv, ← hrun, hres]

/-- A block is noted in the state, not in the stream. -/
instance openBlockAt {opener : Keyword} {line : Nat} :
    Disregards through off (Production.openBlockAt opener line) :=
  alter (fun _ s => { s with blocks := ⟨opener, line⟩ :: s.blocks }) (fun _ _ => rfl)
    (fun _ _ => ⟨rfl, rfl, List.suffix_refl _⟩) fun _ => rfl

instance openBlock {opener : Keyword} : Disregards through off (Production.openBlock opener) :=
  looks (fun _ _ => rfl) Blind.line fun _ => openBlockAt

instance missCloser {opener : Keyword} : Disregards through off (Production.missCloser opener) := by
  refine alter _ (fun _ _ => rfl) (fun _ s => ⟨rfl, rfl, List.suffix_cons _ _⟩)
    fun {k env env' s} henv => ?_
  rw [henv.tokens.span, henv.tokens.point]

instance leaveBlock :
    Disregards through off (modify fun s => { s with blocks := s.blocks.tail } : Parse Unit) :=
  alter (fun _ s => { s with blocks := s.blocks.tail }) (fun _ _ => rfl)
    (fun _ _ => ⟨rfl, rfl, List.suffix_refl _⟩) fun _ => rfl

/-- Words that are known to be ahead are words that are expected. -/
theorem run_takes (words : List Keyword) {env : Env} {s : State}
    (h : ∀ i, (hi : i < words.length) → env.kindAhead s i = .keyword words[i]) :
    (words.forM fun _ => Production.take) env s = (words.forM Production.expectWord) env s := by
  induction words generalizing s with
  | nil => rfl
  | cons word words ih =>
    have hword : env.kind s = .keyword word := h 0 (Nat.succ_pos _)
    have hne : env.kind s ≠ .endOfFile := by
      rw [hword]
      exact nofun
    have htake := run_take hne
    have hexpect : Production.expectWord word env s = Production.take env s := by
      have hlook :
          Looks (Production.atKind (.keyword word)) fun env s => env.kind s == .keyword word :=
        Looks.test _
      unfold Production.expectWord Production.expect
      rw [hlook.run_bind, if_pos (beq_iff_eq.2 hword)]
    show (Production.take >>= fun _ => words.forM fun _ => Production.take) env s =
      (Production.expectWord word >>= fun _ => words.forM Production.expectWord) env s
    rw [run_bind, run_bind, hexpect, htake]
    refine ih fun i hi => ?_
    have hnext := h (i + 1) (Nat.succ_lt_succ hi)
    rw [List.getElem_cons_succ] at hnext
    rw [← hnext]
    exact congrArg env.tokens.kindAt (Nat.succ_add_eq_add_succ _ _)

/-- Words in a row. -/
instance expectWords {words : List Keyword} :
    Disregards through off (words.forM Production.expectWord) := by
  have hall (words : List Keyword) :
      Disregards through false (words.forM Production.expectWord) := by
    induction words with
    | nil => exact pure
    | cons word words ih => exact expectWord.bind fun _ => ih
  cases words with
  | nil => exact pure
  | cons word words => exact expectWord.bind fun _ => hall words

/-- The closing words are known to be there, so they may be expected instead of taken. -/
theorem closeBlock_eq (opener : Keyword) : (Production.closeBlock opener : Parse Bool) = (do
    if ← Production.test fun env s => env.atCloser s opener then
      modify fun s => { s with blocks := s.blocks.tail }
      opener.closer.forM Production.expectWord
      return true
    Production.missCloser opener
    return false) := by
  funext env s
  unfold Production.closeBlock
  rw [(Looks.test _).run_bind, (Looks.test _).run_bind]
  split
  · rename_i hcloser
    have hmodify : (modify fun s => { s with blocks := s.blocks.tail } : Parse Unit) env s =
        .ok () { s with blocks := s.blocks.tail } := rfl
    have htakes := @run_takes opener.closer env { s with blocks := s.blocks.tail } fun i hi => ?_
    · rw [run_bind, run_bind, hmodify]
      dsimp only
      rw [run_bind, run_bind, htakes]
    · have hall := List.all_eq_true.1 hcloser (.keyword opener.closer[i], i)
        (List.mk_mem_zipIdx_iff_getElem?.2 (by simp [hi]))
      exact beq_iff_eq.1 hall
  · rfl

/-- The closing words are no terminators. -/
instance closeBlock {opener : Keyword} : Disregards through off (Production.closeBlock opener) := by
  have hseen : Blind fun env s => env.atCloser s opener := by
    have hwithin : WithinLine (opener.closer.map .keyword) :=
      ⟨fun kind hkind => by
        obtain ⟨word, -, rfl⟩ := List.mem_map.1 hkind
        rfl⟩
    exact .hasAhead
  rw [closeBlock_eq]
  exact looks (Looks.test _) hseen fun _ => inferInstance

-- ---------------------------------------------------------------------------
-- In front of the terminator
-- ---------------------------------------------------------------------------

/-- What ends in front of the terminator does not begin at it. -/
theorem far (hp : Disregards false true p) : Disregards false off p :=
  ⟨hp.gone, fun henv hs hrun _ hbeyond =>
    hp.same henv hs hrun (fun _ => hbeyond.ne_of_far (hp.gone hs hrun).toLater) hbeyond⟩

/-- Behind the terminator, or in front of it, any kind may be looked for. -/
instance atKindFar {kind : TokenKind} {f : Bool → Parse α} [hf : ∀ b, Disregards false true (f b)] :
    Disregards false off (Production.atKind kind >>= f) := by
  have hlook : Looks (Production.atKind kind) fun env s => env.kind s == kind := Looks.test _
  refine far ⟨fun hs hrun => ?_, fun henv hs hrun hoff hbeyond => ?_⟩
  · rw [hlook.run_bind] at hrun
    exact (hf _).gone hs hrun
  · rw [hlook.run_bind] at hrun ⊢
    rw [henv.kind (hoff rfl)]
    exact (hf _).same henv hs hrun hoff hbeyond

/-- And any token may be taken. -/
instance takeFar : Disregards false off Production.take := far inferInstance

/-- A look at the token behind the next one is the same if the run goes past the next one and ends
in front of the terminator. -/
theorem lookBehind {m : Manner} {r : Rule} {seen : Env → State → Bool} {f : Bool → Parse Unit}
    (hseen : ∀ {k : Nat} {env env' : Env}, env.Exchanged k env' → ∀ s, s.cursor + 1 ≠ k →
      seen env' s = seen env s) (hf : ∀ b, Disregards false off (f b))
    (hmoves : Builds m 0 true (Production.node r (Production.test seen >>= f))) :
    Disregards false off (Production.node r (Production.test seen >>= f)) := by
  refine ⟨fun {env s n s'} hs hrun => ?_, fun {k env env' s n s'} henv hs hrun hoff hbeyond => ?_⟩
  · obtain ⟨s₁, hbody, -, rfl⟩ := construct_eq_finish hrun
    rw [(Looks.test seen).run_bind] at hbody
    have hgone := (hf _).gone (s := { s with children := [], isPartial := false }) hs hbody
    exact ⟨⟨hgone.cursor, hgone.le_size, hgone.diagnostics⟩, List.suffix_refl _⟩
  · have houtcome := hmoves env s (.zero hs)
    rw [hrun] at houtcome
    have hlt : s.cursor < s'.cursor := houtcome.1 rfl
    have hne : s.cursor + 1 ≠ k := by
      obtain h | h | ⟨h, -⟩ := hbeyond
      · omega
      · omega
      · cases h
    obtain ⟨s₁, hbody, rfl, rfl⟩ := construct_eq_finish hrun
    have hsame : (Production.test seen >>= f) env' { s with children := [], isPartial := false } =
        .ok () s₁ := by
      rw [(Looks.test seen).run_bind] at hbody ⊢
      rw [hseen henv { s with children := [], isPartial := false } hne]
      exact (hf _).same (s := { s with children := [], isPartial := false }) henv hs
        hbody hoff hbeyond
    unfold Production.node
    rw [Parse.construct_eq]
    rw [hsame]
    dsimp only
    rw [henv.span]

/-- A run that a token follows which is no terminator ends in front of the terminator, or begins
behind it. -/
theorem before {q : Parse β} (hp : Disregards false off p) (hq : Disregards true true q)
    (henters : Enters q) : Disregards through off (p >>= fun _ => q) := by
  refine ⟨fun hs hrun => ?_, fun {k env env' s a s'} henv hs hrun hoff hbeyond => ?_⟩
  · obtain ⟨a, s₁, hfirst, hrest⟩ := bind_eq_ok hrun
    have hgone := hp.gone hs hfirst
    exact hgone.trans (hq.gone hgone.le_size hrest)
  · obtain ⟨a, s₁, hfirst, hrest⟩ := bind_eq_ok hrun
    have hgone := hp.gone hs hfirst
    have hgone' := hq.gone hgone.le_size hrest
    have hne : s₁.cursor ≠ k :=
      henv.tokens.ne_of_not_terminator (henters _ _ _ _ hgone.le_size hrest).1
    have hlt := (henters _ _ _ _ hgone.le_size hrest).2
    have hfront : Beyond false k s s₁ := by
      obtain h | h | ⟨-, h⟩ := hbeyond
      · exact .inl h
      · exact .inr (.inl (Nat.lt_trans hlt h))
      · exact .inr (.inl (by omega))
    rw [run_bind, hp.same henv hs hfirst hoff hfront]
    exact hq.same henv hgone.le_size hrest (fun _ => hne) (hbeyond.back hgone.toLater).through_of

end Disregards

-- ---------------------------------------------------------------------------
-- Tokens that are read for sure
-- ---------------------------------------------------------------------------

namespace Enters

variable {p : Parse α} {f : α → Parse β}

/-- What begins with a token that is there has read it. -/
theorem lt_of_takeThen {f : Unit → Parse α} {env : Env} {s s' : State} {a : α}
    (hend : env.kind s ≠ .endOfFile) (hf : ∀ u, Disregards true true (f u))
    (hrun : (Production.take >>= f) env s = .ok a s') : s.cursor < s'.cursor := by
  rw [run_bind, run_take hend] at hrun
  exact ((hf ()).gone (s := s.withLeaf env.tokens _)
    (TokenStream.lt_size_of_kindAt_ne hend) hrun).cursor

/-- A token has been read first, and what comes behind does not go back. -/
theorem bind (h : Enters p) [hp : Disregards true true p] [hf : ∀ a, Disregards true true (f a)] :
    Enters (p >>= f) := by
  intro env s b s' hs hrun
  obtain ⟨a, s₁, hfirst, hrest⟩ := bind_eq_ok hrun
  obtain ⟨hkind, hlt⟩ := h _ _ _ _ hs hfirst
  exact ⟨hkind, Nat.lt_of_lt_of_le hlt ((hf a).gone (hp.gone hs hfirst).le_size hrest).cursor⟩

/-- What is read is attached. -/
theorem child {p : Parse Node} (h : Enters p) : Enters p.child := by
  intro env s _ s' hs hrun
  obtain ⟨n, s₁, hfirst, hrest⟩ := bind_eq_ok hrun
  cases hrest
  have hreads := h _ _ _ _ hs hfirst
  exact hreads

theorem field {p : Parse Node} (h : Enters p) (role : Field) :
    Enters (Production.field role p) := by
  intro env s _ s' hs hrun
  obtain ⟨n, s₁, hfirst, hrest⟩ := bind_eq_ok hrun
  cases hrest
  have hreads := h _ _ _ _ hs hfirst
  exact hreads

theorem nested (h : Enters p) : Enters p.nested :=
  fun env s a s' hs hrun => h { env with depth := env.depth + 1 } s a s' hs hrun

/-- A node reads what its body reads. -/
theorem node {body : Parse Unit} (h : Enters body) (r : Rule) :
    Enters (Production.node r body) := by
  intro env s n s' hs hrun
  obtain ⟨s₁, hbody, -, rfl⟩ := construct_eq_finish hrun
  have hreads := h _ { s with children := [], isPartial := false } _ _ hs hbody
  exact hreads

/-- The first item reads a token that is no terminator. -/
theorem commaSeparated {item : Parse Unit} (h : Enters item) [Disregards true true item]
    [Disregards true false item] : Enters (Production.commaSeparated item) :=
  h.bind

/-- A leaf that is read behind a look at the token ahead. -/
theorem leaf {test : TokenKind → Bool} (htest : ∀ kind, test kind = true →
    kind.isTerminator = false)
    (hend : test .endOfFile = false) {kind : NodeKind} {e : Expected} :
    Enters (do if test (← Production.peek) then Production.leaf kind else Production.fail e) := by
  intro env s n s' _ hrun
  rw [Looks.peek.run_bind] at hrun
  split at hrun
  case isFalse => cases hrun
  rename_i hkind
  refine ⟨htest _ hkind, ?_⟩
  have hlt : s.cursor < env.tokens.tokens.size := TokenStream.lt_size_of_kindAt_ne fun heq => by
    rw [Env.kind, heq, hend] at hkind
    cases hkind
  cases hrun
  show s.cursor < env.next s.cursor
  unfold Env.next
  omega

/-- A name is no terminator. -/
theorem identifier : Enters Production.identifier :=
  leaf (fun kind hname => by cases kind <;> first | rfl | cases hname) rfl

/-- A token of a kind that is known, and what is done behind it. -/
theorem ifTake {kind : TokenKind} (hkind : kind.isWithinLine = true) (hend : kind ≠ .endOfFile)
    (e : Expected) :
    Enters (atKind kind >>= fun found => if found = true then Production.take
      else Production.fail e) := by
  intro env s a s' _ hrun
  rw [(run_ifTake hrun).1, next_of_ifTake hrun hend, TokenKind.isWithinLine_eq,
    Bool.not_eq_true'] at *
  exact ⟨hkind, Nat.lt_succ_self _⟩

/-- Neither is a word. -/
theorem expectWord (word : Keyword) : Enters (Production.expectWord word) :=
  @ifTake (.keyword word) rfl nofun _

theorem expectEnd (mark : Mark) [h : Holds (TokenKind.mark mark).isWithinLine] :
    Enters (Production.expectEnd mark) :=
  @ifTake (.mark mark) h.eq_true nofun _

/-- What may be left out in front of what is read for sure. -/
theorem behindWord (word : Keyword) {f : Bool → Parse α} [hf : Disregards true true (f true)]
    (hrest : Enters (f false)) : Enters (Production.acceptWord word >>= f) := by
  intro env s a s' hs hrun
  have hlook : Looks (Production.atKind (.keyword word)) fun env s => env.kind s == .keyword word :=
    Looks.test _
  unfold Production.acceptWord at hrun
  rw [accept_bind, hlook.run_bind] at hrun
  split at hrun
  · have hk : env.kind s = .keyword word := beq_iff_eq.1 ‹_›
    refine ⟨?_, lt_of_takeThen ?_ (fun _ => hf) hrun⟩
    · rw [hk]
      rfl
    · rw [hk]
      exact nofun
  · exact hrest env s a s' hs hrun

end Enters

end Production

end VisualBasic
