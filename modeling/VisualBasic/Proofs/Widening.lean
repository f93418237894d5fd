import VisualBasic.Proofs.Aside

/-!
# More room

The limit of nesting is seen in one way only: a production fails at it. So what a production makes
without a complaint, it makes as well where there is more room. A run makes no complaint if it
leaves the diagnostics as they were; it is then told by the place, the open blocks and the count of
single-line `If` statements alone what it has to do, and says so in `Widens`: the same run goes
through from every state that agrees in these.

The recursion of the grammar is on the levels that are left, which differ, too. That is why `Widens`
compares two productions, the second of which has at most `n` levels to go.

Main results:

* `Widens.bind`, `Widens.construct`, `Widens.iterate` — the judgement of what is put together.
* `Widens.firstFit` — of an ambiguity the same rule is taken, if with more room none in front of it
  fits.
* `Widens.byRoom` — how much room is left does not show in what is made.
-/

namespace VisualBasic

/-- The tokens are the same, there is at least as much room in `env'` as in `env`, and there are at
most `n` levels of it. -/
structure Env.Roomier (n : Nat) (env env' : Env) : Prop where
  tokens : env'.tokens = env.tokens
  room : env.limit + env'.depth ≤ env'.limit + env.depth
  bound : env'.limit ≤ env'.depth + n

namespace Env.Roomier

variable {n m : Nat} {env env' : Env}

/-- One level down there is still more room, and one level less. -/
theorem nested (h : env.Roomier n env') :
    Roomier (n - 1) { env with depth := env.depth + 1 } { env' with depth := env'.depth + 1 } := by
  obtain ⟨htokens, hroom, hbound⟩ := h
  refine ⟨htokens, ?_, ?_⟩
  · dsimp only
    omega
  · dsimp only
    omega

/-- A higher bound on the levels holds as well. -/
theorem mono (h : env.Roomier m env') (hmn : m ≤ n) : env.Roomier n env' :=
  ⟨h.tokens, h.room, Nat.le_trans h.bound (Nat.add_le_add_left hmn _)⟩

/-- An environment has as much room as itself. -/
theorem refl (env : Env) : env.Roomier env.room env := by
  refine ⟨rfl, Nat.le_refl _, ?_⟩
  unfold Env.room
  omega

/-- A level up there is more room. -/
theorem above (env : Env) : Roomier env.room { env with depth := env.depth + 1 } env := by
  refine ⟨rfl, ?_, (refl env).bound⟩
  dsimp only
  omega

/-- There are no more levels than there is room. -/
theorem exact (h : env.Roomier n env') : env.Roomier env'.room env' := by
  refine ⟨h.tokens, h.room, ?_⟩
  unfold Env.room
  omega

/-- Where the limit is not reached with less room, it is not with more. -/
theorem lt_limit (h : env.Roomier n env') (hdepth : env.depth < env.limit) :
    env'.depth < env'.limit ∧ 0 < n := by
  obtain ⟨-, hroom, hbound⟩ := h
  omega

/-- Spans are those of the tokens. -/
theorem span (h : env.Roomier n env') (first cursor : Nat) :
    env'.span first cursor = env.span first cursor := by
  rw [Env.span, Env.span, h.tokens]

theorem next (h : env.Roomier n env') (cursor : Nat) : env'.next cursor = env.next cursor := by
  rw [Env.next, Env.next, h.tokens]

end Env.Roomier

namespace State

/-- The states agree in what a production can look at. -/
structure Beside (s t : State) : Prop where
  cursor : t.cursor = s.cursor
  blocks : t.blocks = s.blocks
  singleLineIfs : t.singleLineIfs = s.singleLineIfs

theorem Beside.refl (s : State) : Beside s s := ⟨rfl, rfl, rfl⟩

/-- The state `s'`, with `new` children behind those of `t` and whatever else `t` has gathered. -/
def onto (s' t : State) (new : List Node) : State :=
  { s' with children := new ++ t.children, isPartial := t.isPartial, diagnostics := t.diagnostics }

/-- What a state has gathered does not show in its place. -/
theorem beside_onto (s' t : State) (new : List Node) : Beside s' (s'.onto t new) := ⟨rfl, rfl, rfl⟩

/-- What is made in two steps is made in one. -/
theorem onto_onto (s' s'' t : State) (new new' : List Node) :
    s''.onto (s'.onto t new) new' = s''.onto t (new' ++ new) := by
  rw [onto, onto, onto, List.append_assoc]

/-- A run that made no complaint led from `s` to `s'`, with `new` children. -/
structure Grown (s s' : State) (new : List Node) : Prop where
  children : s'.children = new ++ s.children
  isPartial : s'.isPartial = s.isPartial

/-- Runs without complaint one behind the other. -/
theorem Grown.trans {s s₁ s' : State} {new new' : List Node} (h : Grown s s₁ new)
    (h' : Grown s₁ s' new') : Grown s s' (new' ++ new) :=
  ⟨by rw [h'.children, h.children, List.append_assoc], h'.isPartial.trans h.isPartial⟩

end State

namespace Production

open State

variable {α β : Type}

/-- What the production sees depends on the tokens, the place, the open blocks and the count of
single-line `If` statements. -/
def Sees (seen : Env → State → α) : Prop :=
  ∀ env env' s t, env'.tokens = env.tokens → Beside s t → seen env' t = seen env s

/-- The production takes back no diagnostics. What it makes without a new one in `env`, the other
one makes as well where there is more room. -/
structure Widens (n : Nat) (p p' : Parse α) : Prop where
  grows : ∀ env s, s.diagnostics.length ≤ (lastState (p env s)).diagnostics.length
  same : ∀ env env' s a s', env.Roomier n env' → p env s = .ok a s' →
    s'.diagnostics.length ≤ s.diagnostics.length →
    ∃ new, Grown s s' new ∧ ∀ t, Beside s t → p' env' t = .ok a (s'.onto t new)

/-- The production makes the same where there is more room. -/
@[reducible] def Wide (n : Nat) (p : Parse α) : Prop := Widens n p p

namespace Widens

variable {n m : Nat} {p p' : Parse α} {k k' : α → Parse β}

/-- A run that succeeds takes back no diagnostics. -/
theorem grows_ok (h : Widens n p p') {env : Env} {s s' : State} {a : α}
    (hrun : p env s = .ok a s') :
    s.diagnostics.length ≤ s'.diagnostics.length := by
  have hgrows := h.grows env s
  rwa [hrun] at hgrows

/-- The run in the same state with more room. -/
theorem run (h : Widens n p p') {env env' : Env} {s s' : State} {a : α} (henv : env.Roomier n env')
    (hrun : p env s = .ok a s') (hquiet : s'.diagnostics.length ≤ s.diagnostics.length) {t : State}
    (ht : Beside s t) : ∃ t', p' env' t = .ok a t' ∧ Beside s' t' := by
  obtain ⟨new, -, hsame⟩ := h.same env env' s a s' henv hrun hquiet
  exact ⟨_, hsame t ht, beside_onto s' t new⟩

/-- What holds of more levels holds of fewer. -/
theorem mono (h : Widens n p p') (hmn : m ≤ n) : Widens m p p' :=
  ⟨h.grows, fun env env' s a s' henv => h.same env env' s a s' (henv.mono hmn)⟩

/-- A production that never succeeds without a complaint. -/
theorem of_loud (hgrows : ∀ env s, s.diagnostics.length ≤ (lastState (p env s)).diagnostics.length)
    (hloud : ∀ env s a s', p env s = .ok a s' → s.diagnostics.length < s'.diagnostics.length) :
    Widens n p p' := by
  refine ⟨hgrows, fun env env' s a s' _ hrun hquiet => ?_⟩
  exact absurd hquiet (Nat.not_le_of_lt (hloud env s a s' hrun))

theorem pure (a : α) : Widens n (Pure.pure a : Parse α) (Pure.pure a) := by
  refine ⟨fun _ _ => Nat.le_refl _, fun env env' s b s' _ hrun _ => ?_⟩
  cases hrun
  refine ⟨[], ⟨rfl, rfl⟩, fun t ht => ?_⟩
  obtain ⟨hcursor, hblocks, hifs⟩ := ht
  show EStateM.Result.ok a t = .ok a (s.onto t [])
  rw [onto, List.nil_append, ← hcursor, ← hblocks, ← hifs]

/-- A failure makes nothing, so there is nothing to show. -/
theorem fail (e : Expected) : Widens n (Production.fail e : Parse α) p' :=
  ⟨fun _ _ => Nat.le_refl _, fun _ _ _ _ _ _ hrun => nomatch hrun⟩

/-- Neither does what is too deep; with more room it may make anything. -/
theorem tooDeep : Widens n (Production.tooDeep : Parse α) p' :=
  ⟨fun _ _ => Nat.le_refl _, fun _ _ _ _ _ _ hrun => nomatch hrun⟩

/-- If the whole made no complaint, neither of its parts did. -/
theorem bind (hp : Widens n p p') (hk : ∀ a, Widens n (k a) (k' a)) :
    Widens n (p >>= k) (p' >>= k') := by
  refine ⟨fun env s => ?_, fun env env' s b s' henv hrun hquiet => ?_⟩
  · have hfirst := hp.grows env s
    rw [lastState_bind]
    cases hres : p env s with
    | error f s₁ =>
      rw [hres] at hfirst
      exact hfirst
    | ok a s₁ =>
      rw [hres] at hfirst
      exact Nat.le_trans hfirst ((hk a).grows env s₁)
  · rw [run_bind] at hrun
    cases hres : p env s with
    | error f s₁ =>
      rw [hres] at hrun
      cases hrun
    | ok a s₁ =>
      rw [hres] at hrun
      have hfirst := hp.grows_ok hres
      have hsecond := (hk a).grows_ok hrun
      obtain ⟨new, hnew, hsame⟩ := hp.same env env' s a s₁ henv hres (Nat.le_trans hsecond hquiet)
      obtain ⟨new', hnew', hsame'⟩ :=
        (hk a).same env env' s₁ b s' henv hrun (Nat.le_trans hquiet hfirst)
      refine ⟨new' ++ new, hnew.trans hnew', fun t ht => ?_⟩
      rw [run_bind, hsame t ht]
      dsimp only
      rw [hsame' _ (beside_onto s₁ t new), onto_onto]

/-- The same if nothing is handed on. -/
theorem seq {q q' : Parse β} (hp : Widens n p p') (hq : Widens n q q') :
    Widens n (p >>= fun _ => q) (p' >>= fun _ => q') :=
  bind hp fun _ => hq

/-- A choice that does not depend on the room. -/
theorem ite {c : Prop} [Decidable c] {q q' : Parse α} (hp : Widens n p p')
    (hq : Widens n q q') : Widens n (if c then p else q) (if c then p' else q') := by
  split
  · exact hp
  · exact hq

/-- Something that is done on a condition, and what is done afterwards in either case. -/
theorem when {c : Prop} [Decidable c] {q q' : Parse β} (hp : Widens n p p')
    (hq : Widens n q q') :
    Widens n (if c then p >>= fun _ => q else q) (if c then p' >>= fun _ => q' else q') :=
  ite (seq hp hq) hq

-- ---------------------------------------------------------------------------
-- Looking
-- ---------------------------------------------------------------------------

/-- What is seen does not depend on the room. -/
theorem look {look : Parse α} {seen : Env → State → α} (hlook : Looks look seen)
    (hseen : Sees seen) (hk : ∀ a, Widens n (k a) (k' a)) :
    Widens n (look >>= k) (look >>= k') := by
  refine ⟨fun env s => ?_, fun env env' s b s' henv hrun hquiet => ?_⟩
  · rw [hlook.run_bind]
    exact (hk _).grows env s
  · rw [hlook.run_bind] at hrun
    obtain ⟨new, hnew, hsame⟩ := (hk _).same env env' s b s' henv hrun hquiet
    refine ⟨new, hnew, fun t ht => ?_⟩
    rw [hlook.run_bind, hseen env env' s t henv.tokens ht]
    exact hsame t ht

/-- The kind of the next token is seen from the place. -/
theorem sees_kind : Sees Env.kind := by
  intro env env' s t htokens ht
  rw [Env.kind, Env.kind, htokens, ht.cursor]

theorem sees_isKind (kind : TokenKind) : Sees fun env s => env.kind s == kind :=
  fun env env' s t htokens ht => congrArg (· == kind) (sees_kind env env' s t htokens ht)

theorem sees_kindAhead (i : Nat) : Sees fun env s => env.kindAhead s i := by
  intro env env' s t htokens ht
  dsimp only [Env.kindAhead]
  rw [htokens, ht.cursor]

theorem sees_hasAhead (kinds : List TokenKind) : Sees fun env s => env.hasAhead s kinds := by
  rintro ⟨_, tokens, _, _⟩ ⟨_, _, _, _⟩ ⟨_, _, _, _, _, _⟩ ⟨_, _, _, _, _, _⟩ rfl ⟨rfl, rfl, rfl⟩
  rfl

theorem sees_next : Sees fun env s => env.next s.cursor := by
  intro env env' s t htokens ht
  dsimp only [Env.next]
  rw [htokens, ht.cursor]

/-- A choice by the next token. -/
theorem peek {k k' : TokenKind → Parse β} (hk : ∀ kind, Widens n (k kind) (k' kind)) :
    Widens n (Production.peek >>= k) (Production.peek >>= k') :=
  look Looks.peek sees_kind hk

/-- A choice by a token further on. -/
theorem peekAhead {i : Nat} {k k' : TokenKind → Parse β}
    (hk : ∀ kind, Widens n (k kind) (k' kind)) :
    Widens n (Production.peekAhead i >>= k) (Production.peekAhead i >>= k') :=
  look (Looks.peekAhead i) (sees_kindAhead i) hk

/-- A test that does not see the room. -/
theorem test {see : Env → State → Bool} {k k' : Bool → Parse β} (hsee : Sees see)
    (hk : ∀ b, Widens n (k b) (k' b)) :
    Widens n (Production.test see >>= k) (Production.test see >>= k') :=
  look (Looks.test see) hsee hk

theorem atKind {kind : TokenKind} {k k' : Bool → Parse β} (hk : ∀ b, Widens n (k b) (k' b)) :
    Widens n (Production.atKind kind >>= k) (Production.atKind kind >>= k') :=
  test (sees_isKind kind) hk

-- ---------------------------------------------------------------------------
-- Tokens and nodes
-- ---------------------------------------------------------------------------

/-- What only moves on and attaches children. -/
theorem step {p : Parse α} (give : Env → State → α) (stop : Env → State → Nat)
    (new : Env → State → List Node) (hrun : ∀ env s, p env s =
      .ok (give env s) { s with cursor := stop env s, children := new env s ++ s.children })
    (hgive : Sees give) (hstop : Sees stop) (hnew : Sees new) : Widens n p p := by
  refine ⟨fun env s => ?_, fun env env' s a s' henv hres _ => ?_⟩
  · rw [hrun]
    exact Nat.le_refl _
  · rw [hrun] at hres
    cases hres
    refine ⟨new env s, ⟨rfl, rfl⟩, fun t ht => ?_⟩
    rw [hrun, hgive env env' s t henv.tokens ht, hstop env env' s t henv.tokens ht,
      hnew env env' s t henv.tokens ht, onto, ht.blocks, ht.singleLineIfs]

/-- Going past a token. -/
theorem skip : Widens n Production.skip Production.skip :=
  step (fun _ _ => ()) _ (fun _ _ => []) (fun _ _ => rfl) (fun _ _ _ _ _ _ => rfl) sees_next
    fun _ _ _ _ _ _ => rfl

/-- A child is attached to whatever there is. -/
theorem attach (x : Node) : Widens n (Production.attach x) (Production.attach x) :=
  step (fun _ _ => ()) (fun _ s => s.cursor) (fun _ _ => [x]) (fun _ _ => rfl)
    (fun _ _ _ _ _ _ => rfl) (fun _ _ _ _ _ ht => ht.cursor) fun _ _ _ _ _ _ => rfl

/-- A leaf is made of the next token. -/
theorem leaf (kind : NodeKind) : Widens n (Production.leaf kind) (Production.leaf kind) := by
  refine step (fun env s => .leaf kind (env.tokens.get s.cursor).span s.cursor) _ (fun _ _ => [])
    (fun _ _ => rfl) (fun env env' s t htokens ht => ?_) sees_next fun _ _ _ _ _ _ => rfl
  dsimp only
  rw [htokens, ht.cursor]

theorem ruleLeaf (r : Rule) : Widens n (Production.ruleLeaf r) (Production.ruleLeaf r) := leaf _

theorem tokenLeaf : Widens n Production.tokenLeaf Production.tokenLeaf := peek fun _ => leaf _

/-- A node is made and attached. -/
theorem child {p p' : Parse Node} (hp : Widens n p p') : Widens n p.child p'.child :=
  bind hp attach

theorem field (f : Field) {p p' : Parse Node} (hp : Widens n p p') :
    Widens n (Production.field f p) (Production.field f p') :=
  bind hp fun _ => attach _

theorem take : Widens n Production.take Production.take := child tokenLeaf

/-- A token of one kind. -/
theorem expect (kind : TokenKind) : Widens n (Production.expect kind) (Production.expect kind) :=
  atKind fun _ => ite take (fail _)

theorem expectWord (word : Keyword) :
    Widens n (Production.expectWord word) (Production.expectWord word) :=
  expect _

theorem expectMark (mark : Mark) : Widens n (Production.expectMark mark)
    (Production.expectMark mark) :=
  expect _

theorem expectEnd (mark : Mark) : Widens n (Production.expectEnd mark)
    (Production.expectEnd mark) :=
  atKind fun _ => ite take (fail _)

/-- A token that may be missing. -/
theorem accept (kind : TokenKind) : Widens n (Production.accept kind) (Production.accept kind) :=
  atKind fun _ => ite (seq take (pure _)) (pure _)

theorem acceptWord (word : Keyword) :
    Widens n (Production.acceptWord word) (Production.acceptWord word) :=
  accept _

theorem acceptMark (mark : Mark) : Widens n (Production.acceptMark mark)
    (Production.acceptMark mark) :=
  accept _

theorem identifier : Widens n Production.identifier Production.identifier :=
  peek fun _ => ite (ruleLeaf _) (fail _)

theorem memberName : Widens n Production.memberName Production.memberName := by
  refine peek fun kind => ?_
  split
  · exact ruleLeaf _
  · exact ruleLeaf _
  · exact fail _

/-- A node gathers its own children. -/
theorem construct (r : Rule) (first : Nat) {body body' : Parse Unit} (hbody : Widens n body body') :
    Widens n (Production.construct r first body) (Production.construct r first body') := by
  refine ⟨fun env s => ?_, fun env env' s x s' henv hrun hquiet => ?_⟩
  · have hgrows := hbody.grows env { s with children := [], isPartial := false }
    rw [Parse.construct_eq]
    cases hres : body env { s with children := [], isPartial := false } with
    | error f s₁ =>
      rw [hres] at hgrows
      exact hgrows
    | ok a s₁ =>
      rw [hres] at hgrows
      exact hgrows
  · rw [Parse.construct_eq] at hrun
    cases hres : body env { s with children := [], isPartial := false } with
    | error f s₁ =>
      rw [hres] at hrun
      cases hrun
    | ok a s₁ =>
      rw [hres] at hrun
      cases hrun
      obtain ⟨new, hnew, hsame⟩ := hbody.same env env' _ a s₁ henv hres hquiet
      refine ⟨[], ⟨rfl, rfl⟩, fun t ht => ?_⟩
      have hbeside : Beside { s with children := [], isPartial := false }
          { t with children := [], isPartial := false } :=
        ⟨ht.cursor, ht.blocks, ht.singleLineIfs⟩
      have hchildren : s₁.children = new := hnew.children.trans (List.append_nil new)
      have hpartial : s₁.isPartial = false := hnew.isPartial
      rw [Parse.construct_eq]
      rw [hsame _ hbeside]
      dsimp only [onto]
      rw [henv.span, List.append_nil, hchildren, hpartial]
      rfl

/-- The children of the node are those that its body makes, with nothing in front. -/
theorem node (r : Rule) {body body' : Parse Unit} (hbody : Widens n body body') :
    Widens n (Production.node r body) (Production.node r body') := by
  refine ⟨fun env s => (construct r s.cursor hbody).grows env s,
    fun env env' s x s' henv hrun hquiet => ?_⟩
  obtain ⟨new, hnew, hsame⟩ := (construct r s.cursor hbody).same env env' s x s' henv hrun hquiet
  refine ⟨new, hnew, fun t ht => ?_⟩
  rw [Production.node, ht.cursor]
  exact hsame t ht

/-- The same of a node that begins with one that has been read. -/
theorem nodeFrom (first : Node) (r : Rule) {body body' : Parse Unit}
    (hbody : Widens n body body') :
    Widens n (Production.nodeFrom first r body) (Production.nodeFrom first r body') :=
  construct r _ hbody

theorem wrap (r : Rule) (x : Node) : Widens n (Production.wrap r x) (Production.wrap r x) :=
  nodeFrom x r (attach x)

-- ---------------------------------------------------------------------------
-- Repetition
-- ---------------------------------------------------------------------------

/-- By induction on the rounds, which both have as many of. -/
theorem iterateUpTo {step step' : α → Parse (Option α)} (hstep : ∀ x, Widens n (step x) (step' x))
    (count : Nat) (x : α) :
    Widens n (Production.iterateUpTo step count x) (Production.iterateUpTo step' count x) := by
  induction count generalizing x with
  | zero => exact pure x
  | succ count ih =>
    rw [iterateUpTo_succ, iterateUpTo_succ]
    refine bind (hstep x) fun y => ?_
    cases y with
    | none => exact pure x
    | some y => exact ih y

/-- The bound on the rounds is seen from the place. -/
theorem iterate {step step' : α → Parse (Option α)} (hstep : ∀ x, Widens n (step x) (step' x))
    (x : α) : Widens n (Production.iterate step x) (Production.iterate step' x) := by
  refine ⟨fun env s => (iterateUpTo hstep _ x).grows env s,
    fun env env' s a s' henv hrun hquiet => ?_⟩
  obtain ⟨new, hnew, hsame⟩ := (iterateUpTo hstep _ x).same env env' s a s' henv hrun hquiet
  refine ⟨new, hnew, fun t ht => ?_⟩
  rw [Production.iterate, henv.tokens, ht.cursor]
  exact hsame t ht

/-- A loop without a value. -/
theorem repeatWhile {step step' : Parse Bool} (hstep : Widens n step step') :
    Widens n (Production.repeatWhile step) (Production.repeatWhile step') :=
  iterate (fun _ => bind hstep fun _ => pure _) ()

/-- One more round of a repetition. -/
theorem round {p p' : Parse Unit} (hp : Widens n p p') :
    Widens n (p >>= fun _ => Pure.pure true) (p' >>= fun _ => Pure.pure true) :=
  seq hp (pure _)

/-- Items with commas between them. -/
theorem commaSeparated {item item' : Parse Unit} (hitem : Widens n item item') :
    Widens n (Production.commaSeparated item) (Production.commaSeparated item') :=
  seq hitem (repeatWhile (bind (acceptMark _) fun _ => ite (round hitem) (pure _)))

theorem skipNewlines : Widens n Production.skipNewlines Production.skipNewlines :=
  repeatWhile (atKind fun _ => ite (round skip) (pure _))

-- ---------------------------------------------------------------------------
-- Levels
-- ---------------------------------------------------------------------------

/-- A level down there is a level less to show. -/
theorem nested (hp : Widens (n - 1) p p') : Widens n p.nested p'.nested := by
  refine ⟨fun env s => hp.grows { env with depth := env.depth + 1 } s,
    fun env env' s a s' henv hrun hquiet => ?_⟩
  exact hp.same _ _ s a s' henv.nested hrun hquiet

/-- The limit is not reached with more room either. -/
theorem checkDepth : Widens n Production.checkDepth Production.checkDepth := by
  refine ⟨fun env s => ?_, fun env env' s a s' henv hrun _ => ?_⟩
  · unfold Production.checkDepth
    split <;> exact Nat.le_refl _
  · unfold Production.checkDepth at hrun
    by_cases hdepth : env.limit ≤ env.depth
    · rw [if_pos hdepth] at hrun
      cases hrun
    · rw [if_neg hdepth] at hrun
      obtain ⟨hlt, -⟩ := henv.lt_limit (Nat.lt_of_not_le hdepth)
      obtain ⟨new, hnew, hsame⟩ :=
        (pure (n := n) ()).same env env' s a s' henv hrun (by cases hrun; exact Nat.le_refl _)
      refine ⟨new, hnew, fun t ht => ?_⟩
      rw [Production.checkDepth, if_neg (Nat.not_le_of_lt hlt)]
      exact hsame t ht

/-- Recursion on the levels that are left: with more of them nothing else is made. -/
theorem upTo {ι : Type} {p body : Nat → ι → Parse α} (hzero : ∀ i, p 0 i = Production.tooDeep)
    (hsucc : ∀ room i, p (room + 1) i = Production.checkDepth >>= fun _ => body room i)
    (hbody : ∀ room n, (∀ i, Widens n (p room i) (p n i)) →
      ∀ i, Widens (n + 1) (body room i) (body n i)) (room n : Nat) (i : ι) :
    Widens n (p room i) (p n i) := by
  induction room generalizing n i with
  | zero =>
    rw [hzero]
    exact tooDeep
  | succ room ih =>
    cases n with
    | succ n =>
      rw [hsucc, hsucc]
      exact seq checkDepth (hbody room n (ih n) i)
    | zero =>
      have hlevel := seq (checkDepth (n := 1)) (hbody room 0 (ih 0) i)
      rw [hsucc]
      refine ⟨hlevel.grows, fun env env' s a s' henv hrun _ => ?_⟩
      rw [run_bind, Production.checkDepth] at hrun
      -- Without a level to go nothing is made that asks for one.
      by_cases hdepth : env.limit ≤ env.depth
      · rw [if_pos hdepth] at hrun
        cases hrun
      · exact absurd (henv.lt_limit (Nat.lt_of_not_le hdepth)).2 (Nat.lt_irrefl 0)

/-- How much room is left does not show in what is made. -/
theorem byRoom {p : Nat → Parse α} (hp : ∀ room n, Widens n (p room) (p n)) :
    Widens n (fun env s => p env.room env s) (fun env s => p env.room env s) := by
  refine ⟨fun env s => (hp env.room 0).grows env s, fun env env' s a s' henv hrun hquiet => ?_⟩
  exact (hp env.room env'.room).same env env' s a s' henv.exact hrun hquiet

-- ---------------------------------------------------------------------------
-- Ends of statements and recovery
-- ---------------------------------------------------------------------------

theorem sees_atTerminator : Sees fun env s =>
    (env.kind s).endsLine || (env.kind s == .keyword .kwElse && 0 < s.singleLineIfs) := by
  intro env env' s t htokens ht
  dsimp only
  rw [Env.kind, Env.kind, htokens, ht.cursor, ht.singleLineIfs]

theorem atTerminator {k k' : Bool → Parse β} (hk : ∀ b, Widens n (k b) (k' b)) :
    Widens n (Production.atTerminator >>= k) (Production.atTerminator >>= k') :=
  test sees_atTerminator hk

/-- What ends a statement is seen from the place. -/
theorem endStatement : Widens n Production.endStatement Production.endStatement :=
  peek fun _ => ite skip (atTerminator fun _ => ite (pure _) (fail _))

/-- An error region is a complaint. -/
theorem unexpected (e : Expected) {p' : Parse Node} : Widens n (Production.unexpected e) p' := by
  refine of_loud (fun env s => Nat.le_succ _) fun env s a s' hrun => ?_
  cases hrun
  exact Nat.lt_succ_self _

/-- Behind a failure there is an error region, so there was no failure. -/
theorem orRecover {p p' : Parse Node} (hp : Widens n p p') :
    Widens n p.orRecover p'.orRecover := by
  refine ⟨fun env s => ?_, fun env env' s a s' henv hrun hquiet => ?_⟩
  · have hgrows := hp.grows env s
    rw [Parse.orRecover_eq]
    cases hres : p env s with
    | ok a s₁ =>
      rw [hres] at hgrows
      exact hgrows
    | error f s₁ => exact Nat.le_succ _
  · rw [Parse.orRecover_eq] at hrun
    cases hres : p env s with
    | error f s₁ =>
      rw [hres] at hrun
      cases hrun
      exact absurd hquiet (Nat.not_succ_le_self _)
    | ok x s₁ =>
      rw [hres] at hrun
      cases hrun
      obtain ⟨new, hnew, hsame⟩ := hp.same env env' s a s' henv hres hquiet
      refine ⟨new, hnew, fun t ht => ?_⟩
      rw [Parse.orRecover_eq, hsame t ht]

/-- The same within a node. -/
theorem recovering {p p' : Parse Unit} (hp : Widens n p p') :
    Widens n p.recovering p'.recovering := by
  refine ⟨fun env s => ?_, fun env env' s a s' henv hrun hquiet => ?_⟩
  · have hgrows := hp.grows env s
    unfold Production.recovering
    cases hres : p env s with
    | ok a s₁ =>
      rw [hres] at hgrows
      exact hgrows
    | error f s₁ =>
      rw [hres] at hgrows
      exact Nat.le_trans hgrows (Nat.le_succ _)
  · have hgrows := hp.grows env s
    unfold Production.recovering at hrun
    cases hres : p env s with
    | error f s₁ =>
      rw [hres] at hrun hgrows
      cases hrun
      exact absurd (Nat.le_trans hquiet hgrows) (Nat.not_succ_le_self _)
    | ok x s₁ =>
      rw [hres] at hrun
      cases hrun
      obtain ⟨new, hnew, hsame⟩ := hp.same env env' s _ _ henv hres hquiet
      refine ⟨new, hnew, fun t ht => ?_⟩
      rw [Production.recovering, hsame t ht]

-- ---------------------------------------------------------------------------
-- Blocks
-- ---------------------------------------------------------------------------

/-- Whether a line ends the items is seen from the tokens and the open blocks. -/
theorem sees_atBoundary : Sees Env.atBoundary := by
  rintro ⟨_, tokens, _, _⟩ ⟨_, _, _, _⟩ ⟨_, _, _, _, _, _⟩ ⟨_, _, _, _, _, _⟩ rfl ⟨rfl, rfl, rfl⟩
  rfl

theorem atBoundary {k k' : Bool → Parse β} (hk : ∀ b, Widens n (k b) (k' b)) :
    Widens n (Production.atBoundary >>= k) (Production.atBoundary >>= k') :=
  test sees_atBoundary hk

/-- The line of the next token is seen from the place. -/
theorem currentLine {k k' : Nat → Parse β} (hk : ∀ line, Widens n (k line) (k' line)) :
    Widens n (Production.currentLine >>= k) (Production.currentLine >>= k') := by
  refine look Looks.currentLine (fun env env' s t htokens ht => ?_) hk
  rw [Env.line, Env.line, htokens, ht.cursor]

/-- A block that is opened is noted in both. -/
theorem openBlockAt (opener : Keyword) (line : Nat) :
    Widens n (Production.openBlockAt opener line) (Production.openBlockAt opener line) := by
  refine ⟨fun _ _ => Nat.le_refl _, fun env env' s a s' _ hrun _ => ?_⟩
  cases hrun
  refine ⟨[], ⟨rfl, rfl⟩, fun t ht => ?_⟩
  unfold Production.openBlockAt onto
  rw [ht.blocks, ht.cursor, ht.singleLineIfs]
  rfl

theorem openBlock (opener : Keyword) :
    Widens n (Production.openBlock opener) (Production.openBlock opener) :=
  currentLine fun line => openBlockAt opener line

/-- A change in the open blocks and the count of single-line `If` statements. -/
theorem modifies (blocks : List OpenBlock → List OpenBlock) (ifs : Nat → Nat) :
    Widens n
      (modify fun s => { s with
        blocks := blocks s.blocks, singleLineIfs := ifs s.singleLineIfs })
      (modify fun s => { s with
        blocks := blocks s.blocks, singleLineIfs := ifs s.singleLineIfs }) := by
  refine ⟨fun _ _ => Nat.le_refl _, fun env env' s a s' _ hrun _ => ?_⟩
  cases hrun
  refine ⟨[], ⟨rfl, rfl⟩, fun t ht => ?_⟩
  show EStateM.Result.ok () { t with
    blocks := blocks t.blocks, singleLineIfs := ifs t.singleLineIfs } = _
  rw [onto, ht.blocks, ht.cursor, ht.singleLineIfs]
  rfl

/-- A closing line that is missing is a complaint. -/
theorem closeBlock (opener : Keyword) :
    Widens n (Production.closeBlock opener) (Production.closeBlock opener) := by
  have hmissing : Widens n (missCloser opener >>= fun _ => Pure.pure false)
      (missCloser opener >>= fun _ => Pure.pure false) := by
    refine of_loud (fun env s => Nat.le_succ _) fun env s a s' hrun => ?_
    cases hrun
    exact Nat.lt_succ_self _
  have htakes (words : List Keyword) :
      Widens n (words.forM fun _ => Production.take) (words.forM fun _ => Production.take) := by
    induction words with
    | nil => exact pure ()
    | cons word rest ih => exact seq take ih
  refine test (sees_hasAhead _) fun _ => ite (seq (modifies List.tail id) ?_) hmissing
  exact round (htakes opener.closer)

theorem finishBlock (opener : Keyword) :
    Widens n (Production.finishBlock opener) (Production.finishBlock opener) :=
  bind (closeBlock opener) fun _ => ite (recovering endStatement) (pure _)

/-- The items of a body. -/
theorem body {item item' : Parse Unit} (hitem : Widens n item item') :
    Widens n (Production.body item) (Production.body item') :=
  repeatWhile (atBoundary fun _ => ite (pure _) (round hitem))

-- ---------------------------------------------------------------------------
-- Ambiguities
-- ---------------------------------------------------------------------------

/-- No rule fits. -/
theorem noneFits (a : Ambiguity) (best : Option Failure) {p' : Parse Node} :
    Widens n (Production.firstFit a best []) p' :=
  ⟨fun _ _ => Nat.le_refl _, fun _ _ _ _ _ _ hrun => nomatch hrun⟩

/-- A rule is passed over for a later one with more room, too, if it does not fit there either. -/
theorem firstFit {a : Ambiguity} {best best' : Option Failure} {x x' : Alternative}
    {rest rest' : List Alternative} (hviable : Sees x.viable) (heq : x'.viable = x.viable)
    (hx : Widens n x.production x'.production)
    (hrest : ∀ best best', Widens n (Production.firstFit a best rest)
      (Production.firstFit a best' rest'))
    (hpassed : ∀ env env' s f s₁ best y s', env.Roomier n env' → x.viable env s = true →
      x.production env s = .error f s₁ → Production.firstFit a best rest env s = .ok y s' →
      s'.diagnostics.length ≤ s.diagnostics.length →
      ∀ t, Beside s t → ∃ f' s₁', x'.production env' t = .error f' s₁') :
    Widens n (Production.firstFit a best (x :: rest))
    (Production.firstFit a best' (x' :: rest')) := by
  refine ⟨fun env s => ?_, fun env env' s y s' henv hrun hquiet => ?_⟩
  · rw [Parse.firstFit_cons_eq]
    split
    · have hgrows := hx.grows env s
      cases hres : x.production env s with
      | ok y s₁ =>
        rw [hres] at hgrows
        exact hgrows
      | error f s₁ => exact (hrest _ best').grows env s
    · exact (hrest best best').grows env s
  · have hsees (t : State) (ht : Beside s t) : x'.viable env' t = x.viable env s := by
      rw [heq]
      exact hviable env env' s t henv.tokens ht
    rw [Parse.firstFit_cons_eq] at hrun
    by_cases happlies : x.viable env s = true
    · rw [if_pos happlies] at hrun
      cases hres : x.production env s with
      | ok z s₁ =>
        rw [hres] at hrun
        cases hrun
        obtain ⟨new, hnew, hsame⟩ := hx.same env env' s y s' henv hres hquiet
        refine ⟨new, hnew, fun t ht => ?_⟩
        rw [Parse.firstFit_cons_eq, if_pos ((hsees t ht).trans happlies), hsame t ht]
      | error f s₁ =>
        rw [hres] at hrun
        obtain ⟨new, hnew, -⟩ := (hrest _ best').same env env' s y s' henv hrun hquiet
        refine ⟨new, hnew, fun t ht => ?_⟩
        obtain ⟨f', s₁', hfails⟩ :=
          hpassed env env' s f s₁ _ y s' henv happlies hres hrun hquiet t ht
        obtain ⟨new', hnew', hsame⟩ := (hrest _ _).same env env' s y s' henv hrun hquiet
        obtain rfl := List.append_cancel_right (hnew'.children.symm.trans hnew.children)
        rw [Parse.firstFit_cons_eq, if_pos ((hsees t ht).trans happlies), hfails]
        exact hsame t ht
    · rw [if_neg happlies] at hrun
      obtain ⟨new, hnew, hsame⟩ := (hrest best best').same env env' s y s' henv hrun hquiet
      refine ⟨new, hnew, fun t ht => ?_⟩
      have hnot : ¬x'.viable env' t = true := by
        rw [hsees t ht]
        exact happlies
      rw [Parse.firstFit_cons_eq, if_neg hnot]
      exact hsame t ht

/-- What is tried is taken back, so only what fits shows. -/
theorem resolve (a : Ambiguity) {alternatives alternatives' : List Alternative}
    (h : Widens n (Production.firstFit a none alternatives)
      (Production.firstFit a none alternatives')) :
    Widens n (Production.resolve a alternatives) (Production.resolve a alternatives') :=
  seq checkDepth h

/-- What takes its levels from the room that is left. -/
theorem toRoom {p : Parse α} {q : Nat → Parse α} (h : ∀ n, Widens n p (q n)) :
    Widens n p fun env s => q env.room env s :=
  ⟨(h 0).grows, fun env env' s a s' henv hrun hquiet =>
    (h env'.room).same env env' s a s' henv.exact hrun hquiet⟩

end Widens

end Production

end VisualBasic
