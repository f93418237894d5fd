import VisualBasic.Proofs.DisregardDeclarations
import VisualBasic.Proofs.WatchedLines

/-!
# A colon for a line end

A line end that ends a statement is replaced by a colon. What is read without an error is read
again, for the terminator is read as the end of that statement, and behind it the tokens are the
same. So it has to be known of a run across the terminator that it has read a statement that ends
there; then so has one part of the run, and the parts in front of it end in front of the terminator,
and those behind it begin behind it.

Errors are not looked at: the runs have no diagnostics.

* `Env.Swapped` — a colon stands for a line end.
* `TokenStream.ending`, `TokenStream.loneWord` — the statements that end with the terminator, and
  the calls of a single word, which a colon would make a label.
* `Crossing` — a run without errors that does not cross the terminator, or has read a statement that
  ends with it.
* `Swaps` — such a run goes through again.
* `SwapsTo` — the same, if something is known of the place where the run ends.

Main results:

* `Crossing.bind` — a run across the terminator has one part that crosses it.
* `Swaps.bind`, `Swaps.node` — the judgement of what is put together.
* `Swaps.quiet` — what has no statements.
* `Swaps.finishBlock` — a closing line.
-/

namespace VisualBasic

/-- The streams are the same but for the line end at `k`, for which the other one has a colon. -/
structure Env.Swapped (k : Nat) (env env' : Env) : Prop extends env.Exchanged k env' where
  newline : env.tokens.kindAt k = .newline
  colon : env'.tokens.kindAt k = .mark .colon
  ordered : env.tokens.Ordered

theorem Env.Swapped.nested {k : Nat} {env env' : Env} (h : env.Swapped k env') :
    Env.Swapped k { env with depth := env.depth + 1 } { env' with depth := env'.depth + 1 } :=
  ⟨h.toExchanged.nested, h.newline, h.colon, h.ordered⟩

namespace TokenStream

/-- Statements are watched for not ending with the token at `k`. -/
def ending (t : TokenStream) (k : Nat) : Watch where
  tokens := t
  watches r := r == .statement
  fine n := n.span.stop ≠ (t.get k).span.stop
  inField {n} f h := by
    cases n
    exact h

/-- Calls that end with the token at `k` are watched for not being of a single word. -/
def loneWord (t : TokenStream) (k : Nat) : Watch where
  tokens := t
  watches r := r == .callStatement
  fine n := n.span.stop = (t.get k).span.stop → n.info.firstToken + 1 = k →
    (t.kindAt n.info.firstToken).isNameLike = false
  inField {n} f h := by
    cases n
    exact h

instance (t : TokenStream) (k : Nat) : SparesLines (t.ending k) :=
  ⟨fun r hr => by cases r <;> first | rfl | cases hr⟩

instance (t : TokenStream) (k : Nat) : SparesLines (t.loneWord k) :=
  ⟨fun r hr => by cases r <;> first | rfl | cases hr⟩

instance (t : TokenStream) (k : Nat) : Unwatched (t.ending k) .callStatement := ⟨rfl⟩

end TokenStream

namespace State

/-- No diagnostics are new. -/
def Calm (s s' : State) : Prop := s'.diagnostics.length ≤ s.diagnostics.length

theorem Calm.front {t : TokenStream} {s s₁ s' : State} (h : Calm s s') (h' : Later t s₁ s') :
    Calm s s₁ :=
  Nat.le_trans h'.diagnostics.length_le h

theorem Calm.back {t : TokenStream} {s s₁ s' : State} (h : Calm s s') (h' : Later t s s₁) :
    Calm s₁ s' :=
  Nat.le_trans h h'.diagnostics.length_le

end State

theorem Watch.Clears.of_suffix {w : Watch} {ns ms : List Node} (h : w.Clears ms) (hns : ns <:+ ms) :
    w.Clears ns := by
  obtain ⟨front, rfl⟩ := hns
  induction front with
  | nil => exact h
  | cons n front ih => exact ih (Watch.clears_cons.1 h).2

/-- A run without errors from `s` to `s'`, which gives the nodes `ns`. It does not cross the
terminator at `k`, or has read a statement that ends with it. -/
structure Crossing (k : Nat) (env env' : Env) (s : State) (ns : List Node) (s' : State) : Prop
    extends env.Swapped k env' where
  le_size : s.cursor ≤ env.tokens.tokens.size
  calm : State.Calm s s'
  lone : (env.tokens.loneWord k).Clears (ns ++ s'.children)
  crosses : k < s.cursor ∨ s'.cursor ≤ k + 1 ∨
    (env.tokens.ending k).Clears s.children ∧ ¬(env.tokens.ending k).Clears (ns ++ s'.children)

namespace Crossing

variable {k : Nat} {env env' : Env} {s s' : State} {ns ms : List Node}

theorem nested (h : Crossing k env env' s ns s') :
    Crossing k { env with depth := env.depth + 1 } { env' with depth := env'.depth + 1 } s ns s' :=
  ⟨h.toSwapped.nested, h.le_size, h.calm, h.lone, h.crosses⟩

/-- What the nodes are put in makes no difference. -/
theorem move {t t' : State} (h : Crossing k env env' s ns s') (ht : t.cursor = s.cursor)
    (ht' : t'.cursor = s'.cursor)
    (hcalm : State.Calm t t')
    (hlone : (env.tokens.loneWord k).Clears (ns ++ s'.children) →
      (env.tokens.loneWord k).Clears (ms ++ t'.children))
    (hfront : (env.tokens.ending k).Clears s.children → (env.tokens.ending k).Clears t.children)
    (hback : (env.tokens.ending k).Clears s.children →
      (env.tokens.ending k).Clears (ms ++ t'.children) →
      (env.tokens.ending k).Clears (ns ++ s'.children)) :
    Crossing k env env' t ms t' := by
  refine ⟨h.toSwapped, ht ▸ h.le_size, hcalm, hlone h.lone, ?_⟩
  rw [ht, ht']
  exact h.crosses.imp_right fun h => h.imp_right fun ⟨hclear, hnot⟩ =>
    ⟨hfront hclear, fun h => hnot (hback hclear h)⟩

end Crossing

namespace Production

open State Watch

variable {α β : Type} {off : Bool} {post : TokenStream → TokenStream → Nat → Prop}

/-- A run without errors that crosses the terminator at `k` only with a statement that ends there
goes through again if a colon stands at `k`, if what is behind the run satisfies `post`. If `off`,
this is said only of runs that do not begin at the terminator. -/
class SwapsTo (post : TokenStream → TokenStream → Nat → Prop) (off : Bool) {α : Type} [Bears α]
    (p : Parse α) : Prop where
  gone : ∀ {env : Env} {s : State} {a : α} {s' : State}, s.cursor ≤ env.tokens.tokens.size →
    p env s = .ok a s' → Gone env.tokens s s'
  located : ∀ {k : Nat} {env : Env} {s : State} {a : α} {s' : State}, env.tokens.Ordered →
    k < env.tokens.tokens.size → s.cursor ≤ env.tokens.tokens.size →
    p env s = .ok a s' → Calm s s' →
    s'.cursor ≤ k ∨ k < s.cursor → (env.tokens.ending k).Clears s.children →
    (env.tokens.ending k).Clears (Bears.nodes a ++ s'.children)
  same : ∀ {k : Nat} {env env' : Env} {s : State} {a : α} {s' : State},
    Crossing k env env' s (Bears.nodes a) s' → p env s = .ok a s' → (off = true → s.cursor ≠ k) →
    post env.tokens env'.tokens s'.cursor → p env' s = .ok a s'

/-- Nothing has to be known of what is behind a run. -/
def Always (_ _ : TokenStream) (_ : Nat) : Prop := True

/-- A run without errors that crosses the terminator only with a statement goes through again. -/
abbrev Swaps (off : Bool) {α : Type} [Bears α] (p : Parse α) : Prop := SwapsTo Always off p

/-- If what is behind a run is known, so is what is behind the runs in front of it. -/
structure Foresees (post : TokenStream → TokenStream → Nat → Prop) {α : Type} [Bears α]
    (p : Parse α) :
    Prop where
  front : ∀ {k : Nat} {env env' : Env} {s : State} {a : α} {s' : State},
      Crossing k env env' s (Bears.nodes a) s' →
    p env s = .ok a s' → post env.tokens env'.tokens s'.cursor →
    post env.tokens env'.tokens s.cursor

namespace Swaps

-- ---------------------------------------------------------------------------
-- What has no statements
-- ---------------------------------------------------------------------------

section

variable [Bears α] {p : Parse α} {k : Nat} {env env' : Env} {s s' : State} {a : α}

theorem clears_of_yields [hy : ∀ t k, Yields (TokenStream.ending t k) p] (hrun : p env s = .ok a s')
    (hs : (env.tokens.ending k).Clears s.children) :
    (env.tokens.ending k).Clears (Bears.nodes a ++ s'.children) := by
  have hkeeps := (hy env.tokens k).keeps env s rfl hs
  rw [hrun] at hkeeps
  exact ((hy env.tokens k).gives env s a s' rfl hrun).clears.append hkeeps

/-- What has no statements does not cross the terminator. -/
theorem beside_of_crossing [hy : ∀ t k, Yields (TokenStream.ending t k) p]
    (hrun : p env s = .ok a s')
    (h : Crossing k env env' s (Bears.nodes a) s') : k < s.cursor ∨ s'.cursor ≤ k + 1 :=
  h.crosses.imp_right fun h => h.resolve_right fun ⟨hfront, hback⟩ =>
    hback (clears_of_yields hrun hfront)

instance (priority := low) quiet [hp : Disregards true off p]
    [hy : ∀ t k, Yields (TokenStream.ending t k) p] : SwapsTo post off p := by
  refine ⟨hp.gone, fun _ _ _ hrun _ _ => clears_of_yields hrun,
    fun h hrun hoff _ => hp.same h.toExchanged h.le_size hrun hoff ?_⟩
  exact (beside_of_crossing hrun h).imp_right fun h => .inr ⟨rfl, h⟩

end

-- ---------------------------------------------------------------------------
-- Chaining
-- ---------------------------------------------------------------------------

section

variable {post₁ : TokenStream → TokenStream → Nat → Prop} {behind : Bool} [Bears β] {p : Parse α}
  {f : α → Parse β}

/-- Of a run in two parts, at most one crosses the terminator. -/
theorem crossing_bind {k : Nat} {env env' : Env} {s s₁ s' : State} {a : α} {b : β} {q : Parse β}
    (hp : @SwapsTo post₁ off α bearsNothing p) (hf : SwapsTo post behind q)
    (h : Crossing k env env' s (Bears.nodes b) s') (hfirst : p env s = .ok a s₁)
    (hrest : q env s₁ = .ok b s') :
    Crossing k env env' s [] s₁ ∧ Crossing k env env' s₁ (Bears.nodes b) s' := by
  have hk := h.tokens.lt_size
  have hgone := hp.gone h.le_size hfirst
  have hgone' := hf.gone hgone.le_size hrest
  have hcalm := h.calm.front hgone'.toLater
  have hcalm' := h.calm.back hgone.toLater
  have hlone : (env.tokens.loneWord k).Clears s₁.children :=
    h.lone.of_suffix (hgone'.children.trans (List.suffix_append _ _))
  obtain hcross | hcross | ⟨hfront, hback⟩ := h.crosses
  · exact ⟨⟨h.toSwapped, h.le_size, hcalm, hlone, .inl hcross⟩,
      ⟨h.toSwapped, hgone.le_size, hcalm', h.lone, .inl (Nat.lt_of_lt_of_le hcross hgone.cursor)⟩⟩
  · exact ⟨⟨h.toSwapped, h.le_size, hcalm, hlone, .inr (.inl (Nat.le_trans hgone'.cursor hcross))⟩,
      ⟨h.toSwapped, hgone.le_size, hcalm', h.lone, .inr (.inl hcross)⟩⟩
  · -- The statement that ends there has been read by the one part or by the other.
    by_cases hmiddle : (env.tokens.ending k).Clears s₁.children
    · have hside : ¬(s'.cursor ≤ k ∨ k < s₁.cursor) := fun hside =>
        hback (hf.located h.ordered hk hgone.le_size hrest hcalm' hside hmiddle)
      exact ⟨⟨h.toSwapped, h.le_size, hcalm, hlone, .inr (.inl (by omega))⟩,
        ⟨h.toSwapped, hgone.le_size, hcalm', h.lone, .inr (.inr ⟨hmiddle, hback⟩)⟩⟩
    · have hside : ¬(s₁.cursor ≤ k ∨ k < s.cursor) := fun hside =>
        hmiddle (hp.located h.ordered hk h.le_size hfirst hcalm hside hfront)
      exact ⟨⟨h.toSwapped, h.le_size, hcalm, hlone, .inr (.inr ⟨hfront, hmiddle⟩)⟩,
        ⟨h.toSwapped, hgone.le_size, hcalm', h.lone, .inl (by omega)⟩⟩

/-- A part that gives no nodes, and what is done behind it. If the first part has to know what is
behind it, the second has to foresee it; if the second is off the terminator, the first must not
move. -/
theorem bindTo (hp : @SwapsTo post₁ off α bearsNothing p) (hf : ∀ a, SwapsTo post behind (f a))
    (hstays : behind = true → off = true ∧ ∀ env s a s', p env s = .ok a s' → s'.cursor = s.cursor)
    (hpost : ∀ {k env env' a s₁ b s'}, Crossing k env env' s₁ (Bears.nodes b) s' →
      f a env s₁ = .ok b s' →
      post env.tokens env'.tokens s'.cursor → post₁ env.tokens env'.tokens s₁.cursor) :
    SwapsTo post off (p >>= f) := by
  refine ⟨fun hs hrun => ?_, fun {k env s b s'} ht hk hs hrun hcalm hside hclear => ?_,
    fun {k env env' s b s'} h hrun hoff hbehind => ?_⟩
  all_goals obtain ⟨a, s₁, hfirst, hrest⟩ := bind_eq_ok hrun
  · have hgone := hp.gone hs hfirst
    exact hgone.trans ((hf a).gone hgone.le_size hrest)
  · have hgone := hp.gone hs hfirst
    have hgone' := (hf a).gone hgone.le_size hrest
    have hmiddle : (env.tokens.ending k).Clears s₁.children := by
      refine hp.located ht hk hs hfirst (hcalm.front hgone'.toLater) ?_ hclear
      exact hside.imp_left fun h => Nat.le_trans hgone'.cursor h
    refine (hf a).located ht hk hgone.le_size hrest (hcalm.back hgone.toLater) ?_ hmiddle
    exact hside.imp_right fun h => Nat.lt_of_lt_of_le h hgone.cursor
  · obtain ⟨h₁, h₂⟩ := crossing_bind hp (hf a) h hfirst hrest
    rw [run_bind, hp.same h₁ hfirst hoff (hpost h₂ hrest hbehind)]
    refine (hf a).same h₂ hrest (fun hmoves => ?_) hbehind
    obtain ⟨hoff', hsame⟩ := hstays hmoves
    rw [hsame _ _ _ _ hfirst]
    exact hoff hoff'

theorem bind (hp : @Swaps off α bearsNothing p) (hf : ∀ a, SwapsTo post false (f a)) :
    SwapsTo post off (p >>= f) :=
  bindTo hp hf nofun fun _ _ _ => trivial

instance seq [hp : @Swaps off α bearsNothing p] [hf : ∀ a, SwapsTo post false (f a)] :
    SwapsTo post off (p >>= f) :=
  bind hp hf

/-- Nothing is done behind a failure. -/
instance (priority := high) failThen {e : Expected} :
    SwapsTo post off (Production.fail e >>= f) := by
  have hfails {env : Env} {s : State} {b : β} {s' : State}
      (hrun : (Production.fail e >>= f) env s = .ok b s') : False := by
    obtain ⟨_, _, hfail, -⟩ := bind_eq_ok hrun
    cases hfail
  exact ⟨fun _ hrun => (hfails hrun).elim, fun _ _ _ hrun => (hfails hrun).elim,
    fun _ hrun => (hfails hrun).elim⟩

end

section

variable [Bears α] {p q : Parse α}

theorem either {c : Prop} [Decidable c] (hp : SwapsTo post off p) (hq : SwapsTo post off q) :
    SwapsTo post off (if c then p else q) := by
  split
  · exact hp
  · exact hq

instance ite {c : Prop} [Decidable c] [hp : SwapsTo post off p] [hq : SwapsTo post off q] :
    SwapsTo post off (if c then p else q) :=
  either hp hq

instance (priority := high) iteTrue [hp : SwapsTo post off p] :
    SwapsTo post off (if true = true then p else q) :=
  hp

instance (priority := high) iteFalse [hq : SwapsTo post off q] :
    SwapsTo post off (if false = true then p else q) :=
  hq

theorem weaken (h : SwapsTo post false p) : SwapsTo post off p :=
  ⟨h.gone, h.located, fun hcrossing hrun _ => h.same hcrossing hrun nofun⟩

/-- If nothing has to be known of what is behind a run, it does not matter what is known. -/
theorem anyhow (h : Swaps off p) : SwapsTo post off p :=
  ⟨h.gone, h.located, fun hcrossing hrun hoff _ => h.same hcrossing hrun hoff trivial⟩

/-- The run that there is decides which production it is a run of. -/
theorem of_runs (h : ∀ env s a s', p env s = .ok a s' → ∃ q, Swaps off q ∧ q env s = .ok a s' ∧
      ∀ k env', env.Swapped k env' → q env' s = .ok a s' → p env' s = .ok a s') : Swaps off p := by
  refine ⟨fun hs hrun => ?_, fun ht hk hs hrun hcalm hside hclear => ?_,
    fun hcrossing hrun hoff _ => ?_⟩
  all_goals obtain ⟨q, hq, hqrun, hsame⟩ := h _ _ _ _ hrun
  · exact hq.gone hs hqrun
  · exact hq.located ht hk hs hqrun hcalm hside hclear
  · exact hsame _ _ hcrossing.toSwapped (hq.same hcrossing hqrun hoff trivial)

-- ---------------------------------------------------------------------------
-- Looking
-- ---------------------------------------------------------------------------

/-- What is done behind a look that tells the same of both streams. -/
theorem lookAlike {p : Parse β} {seen : Env → State → β} {f : β → Parse α} (hp : Looks p seen)
    (hf : ∀ env s, SwapsTo post off (f (seen env s)))
    (hseen : ∀ {k env env' s a s'}, Crossing k env env' s (Bears.nodes a) s' →
      f (seen env s) env s = .ok a s' →
      (off = true → s.cursor ≠ k) → post env.tokens env'.tokens s'.cursor →
      seen env' s = seen env s) :
    SwapsTo post off (p >>= f) := by
  refine ⟨fun hs hrun => ?_, fun ht hk hs hrun => ?_, fun h hrun hoff hpost => ?_⟩
  all_goals rw [hp.run_bind] at hrun
  · exact (hf _ _).gone hs hrun
  · exact (hf _ _).located ht hk hs hrun
  · rw [hp.run_bind, hseen h hrun hoff hpost]
    exact (hf _ _).same h hrun hoff hpost

/-- What is done behind a look that does not tell terminators apart. -/
theorem looks {p : Parse β} {seen : Env → State → β} {f : β → Parse α} (hp : Looks p seen)
    (hseen : Blind seen) (hf : ∀ b, SwapsTo post off (f b)) : SwapsTo post off (p >>= f) :=
  lookAlike hp (fun _ _ => hf _) fun h _ _ _ => hseen.same h.toExchanged _

instance test {seen : Env → State → Bool} [hseen : Blind seen] {f : Bool → Parse α}
    [hf : ∀ b, SwapsTo post off (f b)] : SwapsTo post off (Production.test seen >>= f) :=
  looks (Looks.test seen) hseen hf

instance atBoundary {f : Bool → Parse α} [hf : ∀ b, SwapsTo post off (f b)] :
    SwapsTo post off (Production.atBoundary >>= f) :=
  test

instance atTerminator {f : Bool → Parse α} [hf : ∀ b, SwapsTo post off (f b)] :
    SwapsTo post off (Production.atTerminator >>= f) :=
  test

instance currentLine {f : Nat → Parse α} [hf : ∀ b, SwapsTo post off (f b)] :
    SwapsTo post off (Production.currentLine >>= f) :=
  looks (fun _ _ => rfl) Blind.line hf

/-- Where the token ahead is known not to be a terminator, the run does not begin at one. -/
theorem peek {f : TokenKind → Parse α} (hf : f .newline = f (.mark .colon))
    (hends : SwapsTo post off (f .newline))
    (hwithin : ∀ kind, kind.isTerminator = false → SwapsTo post true (f kind)) :
    SwapsTo post off (Production.peek >>= f) := by
  have hany (kind : TokenKind) : SwapsTo post true (f kind) := by
    cases hkind : kind.isTerminator with
    | false => exact hwithin kind hkind
    | true =>
      have heq : f kind = f .newline := by
        unfold TokenKind.isTerminator at hkind
        split at hkind
        · rfl
        · exact hf.symm
        · cases hkind
      rw [heq]
      exact ⟨hends.gone, hends.located, fun h hrun hoff => hends.same h hrun fun _ => hoff rfl⟩
  refine ⟨fun hs hrun => ?_, fun ht hk hs hrun => ?_, fun {k env env' s a s'} h hrun
    hoff hpost => ?_⟩
  · rw [Looks.peek.run_bind] at hrun
    exact (hany _).gone hs hrun
  · rw [Looks.peek.run_bind] at hrun
    exact (hany _).located ht hk hs hrun
  · rw [Looks.peek.run_bind] at hrun ⊢
    have hsame : f (env'.kind s) = f (env.kind s) := h.tokens.alike f hf s.cursor
    rw [hsame]
    by_cases hk : s.cursor = k
    · have hnewline : env.kind s = .newline := by
        rw [Env.kind, hk]
        exact h.newline
      rw [hnewline] at hrun ⊢
      exact hends.same h hrun hoff hpost
    · exact (hany _).same h hrun (fun _ => hk) hpost

theorem peekAhead {i : Nat} {f : TokenKind → Parse α} (hf : f .newline = f (.mark .colon))
    (hall : ∀ kind, SwapsTo post off (f kind)) :
    SwapsTo post off (Production.peekAhead i >>= f) := by
  refine ⟨fun hs hrun => ?_, fun ht hk hs hrun => ?_, fun {k env env' s a s'} h hrun => ?_⟩
  · rw [(Looks.peekAhead i).run_bind] at hrun
    exact (hall _).gone hs hrun
  · rw [(Looks.peekAhead i).run_bind] at hrun
    exact (hall _).located ht hk hs hrun
  · rw [(Looks.peekAhead i).run_bind] at hrun ⊢
    have hsame : f (env'.kindAhead s i) = f (env.kindAhead s i) := h.tokens.alike f hf _
    rw [hsame]
    exact (hall _).same h hrun

instance (priority := high) atKind {kind : TokenKind} [hkind : Holds kind.isWithinLine]
    {f : Bool → Parse α} [htrue : SwapsTo post true (f true)]
    [hfalse : SwapsTo post off (f false)] :
    SwapsTo post off (Production.atKind kind >>= f) := by
  have hlook : Looks (Production.atKind kind) fun env s => env.kind s == kind := Looks.test _
  have hne {k : Nat} {env env' : Env} {s : State} (henv : env.Swapped k env')
      (hb : (env.kind s == kind) = true) : s.cursor ≠ k := by
    have hwithin := hkind.eq_true
    rw [TokenKind.isWithinLine_eq, Bool.not_eq_true', ← show env.kind s =
      kind from beq_iff_eq.1 hb] at hwithin
    exact henv.tokens.ne_of_not_terminator hwithin
  refine ⟨fun {env s a s'} hs hrun => ?_, fun {k env s a s'} ht hk hs hrun => ?_,
    fun {k env env' s a s'} h hrun hoff => ?_⟩
  all_goals
    rw [hlook.run_bind] at hrun
    cases hb : env.kind s == kind
    all_goals rw [hb] at hrun
  · exact hfalse.gone hs hrun
  · exact htrue.gone hs hrun
  · exact hfalse.located ht hk hs hrun
  · exact htrue.located ht hk hs hrun
  all_goals
    have hsame : (env'.kind s == kind) = (env.kind s == kind) := Blind.isKind.same h.toExchanged s
    rw [hlook.run_bind, hsame, hb]
  · exact hfalse.same h hrun hoff
  · exact htrue.same h hrun fun _ => hne h.toSwapped hb

instance (priority := high) atWord {word : Keyword} {f : Bool → Parse α}
    [SwapsTo post true (f true)]
    [SwapsTo post off (f false)] : SwapsTo post off (Production.atWord word >>= f) :=
  atKind

-- ---------------------------------------------------------------------------
-- Nodes
-- ---------------------------------------------------------------------------

instance nested [hp : SwapsTo post off p] : SwapsTo post off p.nested :=
  ⟨fun {env s a s'} hs hrun => @hp.gone { env with depth := env.depth + 1 } s a s' hs hrun,
    fun {k env s a s'} ht hk hs hrun =>
      @hp.located k { env with depth := env.depth + 1 } s a s' ht hk hs hrun,
    fun {k env env' s a s'} h hrun => @hp.same k { env with depth := env.depth + 1 }
      { env' with depth := env'.depth + 1 } s a s' h.nested hrun⟩

end

/-- A node that is attached, perhaps in a role. -/
theorem attaching {p : Parse Node} (hp : SwapsTo post off p) {f : Node → Node}
    (hf : ∀ (w : Watch) n, w.Clears [n] → w.Clears [f n])
    (hlone : ∀ (t : TokenStream) k n, (t.loneWord k).Clears [f n] → (t.loneWord k).Clears [n]) :
    SwapsTo post off (p >>= fun n => Production.attach (f n)) := by
  have hmove (w : Watch) (n : Node) (ns : List Node) (h : w.Clears (n :: ns)) :
      w.Clears (f n :: ns) :=
    clears_cons.2 ((clears_cons.1 h).imp_left (hf w n))
  have hback (t : TokenStream) (k : Nat) (n : Node) (ns : List Node)
      (h : (t.loneWord k).Clears (f n :: ns)) :
      (t.loneWord k).Clears (n :: ns) :=
    clears_cons.2 ((clears_cons.1 h).imp_left (hlone t k n))
  refine ⟨fun hs hrun => ?_, fun {k env s _ s'} ht hk hs hrun hcalm hside hclear => ?_,
    fun {k env env' s _ s'} h hrun hoff hpost => ?_⟩
  all_goals
    obtain ⟨n, s₁, hfirst, hrest⟩ := bind_eq_ok hrun
    cases hrest
  · have hgone := hp.gone hs hfirst
    exact ⟨⟨hgone.cursor, hgone.le_size, hgone.diagnostics⟩,
      hgone.children.trans (List.suffix_cons _ _)⟩
  · exact hmove _ n _ (hp.located ht hk hs hfirst hcalm hside hclear)
  · have h₁ : Crossing k env env' s [n] s₁ :=
      h.move rfl rfl h.calm (hback _ _ n _) (fun hclear => hclear)
        fun _ hclear => hmove _ n _ hclear
    rw [run_bind, hp.same h₁ hfirst hoff hpost]
    rfl

instance child {p : Parse Node} [hp : SwapsTo post off p] : SwapsTo post off p.child :=
  attaching hp (fun _ _ h => h) fun _ _ _ h => h

instance field {role : Field} {p : Parse Node} [hp : SwapsTo post off p] :
    SwapsTo post off (Production.field role p) := by
  refine attaching hp (fun w n h => h.inField role) fun t k n h => ?_
  obtain ⟨hchildren, hfine⟩ := h.of_node
  rw [Node.children_inField] at hchildren
  rw [Node.kind_inField] at hfine
  refine clears_of_children hchildren fun hwatched => ?_
  cases n
  exact hfine hwatched

theorem unwatched_of_isLine (w : Watch) [SparesLines w] {r : Rule} (hr : r.isLine = true)
    {kind : NodeKind}
    (hkind : kind = .rule r) : ¬∃ r, kind = .rule r ∧ w.watches r = true := by
  rintro ⟨r', hkind', hwatched⟩
  cases hkind.symm.trans hkind'
  cases (SparesLines.unwatched r hr).symm.trans hwatched

/-- A node of a rule that is not watched is clear if its children are. -/
theorem clears_finish {w : Watch} [SparesLines w] {r : Rule} (hr : r.isLine = true)
    {span : Span} {first : Nat}
    {isPartial : Bool} {ns : List Node} :
    w.Clears [.finish (.rule r) span first isPartial ns.reverse] ↔ w.Clears ns := by
  refine ⟨fun h => ?_, fun h => ?_⟩
  · have hchildren : w.Clears ns.reverse := h.of_node.1
    rw [← ns.reverse_reverse]
    exact hchildren.reverse
  · exact clears_of_children h.reverse fun hwatched => (unwatched_of_isLine w hr rfl hwatched).elim

/-- The run that gives the children of a node crosses the terminator as the run that gives the node
does. -/
theorem crossing_children {r : Rule} (hr : r.isLine = true) {k : Nat} {env env' : Env}
    {s s₁ : State} {span : Span}
    {first : Nat}
    (h : Crossing k env env' s [.finish (.rule r) span first s₁.isPartial s₁.children.reverse]
      { s₁ with children := s.children, isPartial := s.isPartial }) :
    Crossing k env env' { s with children := [], isPartial := false } [] s₁ :=
  h.move rfl rfl h.calm (fun hlone => (clears_finish hr).1 (clears_cons.1 hlone).1)
    (fun _ => clears_nil) fun hfront hclear => clears_cons.2 ⟨(clears_finish hr).2 hclear, hfront⟩

instance construct {r : Rule} {first : Nat} {body : Parse Unit} [hr : Holds r.isLine]
    [hbody : SwapsTo post off body] : SwapsTo post off (Production.construct r first body) := by
  refine ⟨fun {env s n s'} hs hrun => ?_, fun {k env s n s'} ht hk hs hrun hcalm hside hclear => ?_,
    fun {k env env' s n s'} h hrun hoff hpost => ?_⟩
  all_goals obtain ⟨s₁, hbodyRun, rfl, rfl⟩ := construct_eq_finish hrun
  · have hgone := hbody.gone (s := { s with children := [], isPartial := false }) hs hbodyRun
    exact ⟨⟨hgone.cursor, hgone.le_size, hgone.diagnostics⟩, List.suffix_refl _⟩
  · have hchildren :=
      hbody.located (s := { s with children := [], isPartial := false }) ht hk hs
        hbodyRun hcalm hside
      clears_nil
    exact clears_cons.2 ⟨(clears_finish hr.eq_true).2 hchildren, hclear⟩
  · rw [Parse.construct_eq]
    rw [hbody.same (crossing_children hr.eq_true h) hbodyRun hoff hpost]
    dsimp only
    rw [h.span]

instance node {r : Rule} {body : Parse Unit} [Holds r.isLine] [SwapsTo post off body] :
    SwapsTo post off (Production.node r body) := by
  have hnode (first : Nat) : SwapsTo post off (Production.construct r first body) := construct
  exact ⟨fun hs hrun => (hnode _).gone hs hrun, fun ht hk hs hrun =>
    (hnode _).located ht hk hs hrun,
    fun h hrun => (hnode _).same h hrun⟩

theorem nodeOf {r : Rule} {body : Parse Unit} [Holds r.isLine] (_ : SwapsTo post off body) :
    SwapsTo post off (Production.node r body) :=
  node

/-- Wrapping does no more than to make a node. -/
theorem wrap_eq_ok {r : Rule} {n m : Node} {env : Env} {s s' : State}
    (hrun : Production.wrap r n env s = .ok m s') :
    m = .finish (.rule r) (env.span n.info.firstToken s.cursor) n.info.firstToken false [n] ∧
    s' = s := by
  cases hrun
  exact ⟨rfl, rfl⟩

theorem run_wrap {k : Nat} {env env' : Env} (henv : env.Exchanged k env') (r : Rule)
    (n : Node) (s : State) :
    Production.wrap r n env' s = Production.wrap r n env s := by
  have hspan := henv.span n.info.firstToken s.cursor
  show EStateM.Result.ok (Node.finish (.rule r) (env'.span n.info.firstToken s.cursor) _ _ _) s = _
  rw [hspan]
  rfl

/-- A node around another one. -/
theorem wrapping {p : Parse Node} (hp : SwapsTo post off p) {r : Rule} (hr : r.isLine = true) :
    SwapsTo post off (p >>= fun n => Production.wrap r n) := by
  have hmove {w : Watch} [SparesLines w] {n : Node} {ns : List Node} {span : Span} {first : Nat} :
      w.Clears (.finish (.rule r) span first false [n] :: ns) ↔ w.Clears (n :: ns) := by
    rw [clears_cons, show [n] = [n].reverse from rfl, clears_finish hr, ← clears_cons]
  refine ⟨fun hs hrun => ?_, fun {k env s m s'} ht hk hs hrun hcalm hside hclear => ?_,
    fun {k env env' s m s'} h hrun hoff hpost => ?_⟩
  all_goals
    obtain ⟨n, s₁, hfirst, hrest⟩ := bind_eq_ok hrun
    obtain ⟨rfl, rfl⟩ := wrap_eq_ok hrest
  · exact hp.gone hs hfirst
  · exact hmove.2 (hp.located ht hk hs hfirst hcalm hside hclear)
  · have h₁ : Crossing k env env' s [n] s' :=
      h.move rfl rfl h.calm hmove.1 (fun hclear => hclear) fun _ hclear => hmove.2 hclear
    rw [run_bind, hp.same h₁ hfirst hoff hpost]
    exact (run_wrap h.toExchanged r n s').trans hrest

-- ---------------------------------------------------------------------------
-- Repetition
-- ---------------------------------------------------------------------------

/-- Rounds that have to know what is behind them, and foresee it. -/
theorem iterateUpTo {step : α → Parse (Option α)}
    (hstep : ∀ x, @SwapsTo post false _ bearsNothing (step x))
    (hforesees : ∀ x, @Foresees post _ bearsNothing (step x)) (n : Nat) (x : α) :
    @SwapsTo post false α bearsNothing (Production.iterateUpTo step n x) ∧
      @Foresees post α bearsNothing (Production.iterateUpTo step n x) := by
  have hpure (x : α) : @SwapsTo post false α bearsNothing (Pure.pure x) :=
    @quiet _ _ _ bearsNothing _ Disregards.pure fun _ _ =>
      @Yields.pure _ _ bearsNothing _ ⟨clears_nil⟩
  induction n generalizing x with
  | zero =>
    refine ⟨hpure x, ⟨fun _ hrun hpost => ?_⟩⟩
    cases hrun
    exact hpost
  | succ n ih =>
    obtain ⟨rest, hrounds, hnone, hsome⟩ :
        ∃ rest, Production.iterateUpTo step (n + 1) x = step x >>= rest ∧
        rest none = Pure.pure x ∧ ∀ y, rest (some y) = Production.iterateUpTo step n y :=
      ⟨_, iterateUpTo_succ .., rfl, fun _ => rfl⟩
    have hrest (y : Option α) :
        @SwapsTo post false α bearsNothing (rest y) ∧ @Foresees post α bearsNothing (rest y) := by
      cases y with
      | some y =>
        rw [hsome]
        exact ih y
      | none =>
        rw [hnone]
        refine ⟨hpure x, ⟨fun _ hrun hpost => ?_⟩⟩
        cases hrun
        exact hpost
    rw [hrounds]
    refine ⟨@bindTo _ _ false post post false bearsNothing _ _ (hstep x)
      (fun y => (hrest y).1) nofun
      fun h hrun => (hrest _).2.front h hrun, ⟨fun h hrun hpost => ?_⟩⟩
    obtain ⟨y, s₁, hfirst, hlast⟩ := bind_eq_ok hrun
    obtain ⟨h₁, h₂⟩ :=
      @crossing_bind _ _ false post post false bearsNothing _ _ _ _ _ _ _ _ _ _ (hstep x)
      (hrest y).1 h hfirst hlast
    exact (hforesees x).front h₁ hfirst ((hrest y).2.front h₂ hlast hpost)

/-- A repetition that has to know what is behind it. -/
theorem repeatForeseen {step : Parse Bool} (hstep : SwapsTo post false step)
    (hforesees : Foresees post step) :
    SwapsTo post false (Production.repeatWhile step) ∧
    Foresees post (Production.repeatWhile step) := by
  have hpure (x : Option Unit) :
      @SwapsTo post false _ bearsNothing (Pure.pure x : Parse (Option Unit)) :=
    @quiet _ _ _ bearsNothing _ Disregards.pure fun _ _ =>
      @Yields.pure _ _ bearsNothing _ ⟨clears_nil⟩
  have hround (found : Bool) : @SwapsTo post false _ bearsNothing
      (return if found then some () else none : Parse (Option Unit)) := hpure _
  have hrounds (n : Nat) := @iterateUpTo _ _ (fun _ => do return if ← step then some () else none)
    (fun _ => @bindTo _ _ false post post false bearsNothing _ _ hstep hround nofun
      fun _ hrun hpost => by
      cases hrun
      exact hpost) (fun _ => ⟨fun h hrun hpost => by
      obtain ⟨found, s₁, hfirst, hlast⟩ := bind_eq_ok hrun
      cases hlast
      exact hforesees.front h hfirst hpost⟩) n ()
  refine ⟨⟨fun hs hrun => (hrounds _).1.gone hs hrun, fun ht hk hs hrun =>
    (hrounds _).1.located ht hk hs hrun,
    fun h hrun => ?_⟩, ⟨fun h hrun => (hrounds _).2.front h hrun⟩⟩
  unfold Production.repeatWhile Production.iterate TokenStream.size
  rw [h.tokens.size]
  exact (hrounds _).1.same h hrun

instance repeatWhile {step : Parse Bool} [hstep : Swaps false step] :
    SwapsTo post off (Production.repeatWhile step) :=
  weaken (anyhow (repeatForeseen hstep ⟨fun _ _ _ => trivial⟩).1)

instance body {item : Parse Unit} [Swaps false item] : SwapsTo post off (Production.body item) := by
  unfold Production.body Production.bodyItem
  infer_instance

-- ---------------------------------------------------------------------------
-- Recovery
-- ---------------------------------------------------------------------------

/-- A run without errors has not recovered from any. -/
theorem orRecover_of_calm {p : Parse Node} {env : Env} {s s' : State} {n : Node}
    (hrun : Production.orRecover p env s = .ok n s') (hcalm : Calm s s') : p env s = .ok n s' := by
  rw [Parse.orRecover_eq] at hrun
  split at hrun
  · rename_i hok
    rw [hok, hrun]
  · cases hrun
    exact absurd hcalm (Nat.not_succ_le_self _)

theorem run_orRecover {p : Parse Node} {env : Env} {s s' : State} {n : Node}
    (hrun : p env s = .ok n s') :
    Production.orRecover p env s = .ok n s' := by
  rw [Parse.orRecover_eq, hrun]

theorem gone_recover {f : Failure} {env : Env} {s s' : State} {n : Node}
    (hs : s.cursor ≤ env.tokens.tokens.size)
    (hrun : Production.recover f env s = .ok n s') : Gone env.tokens s s' := by
  refine ⟨(Climbs.recover f).ok hs hrun, ?_⟩
  cases hrun
  exact List.suffix_refl _

instance orRecover {p : Parse Node} [hp : SwapsTo post off p] :
    SwapsTo post off (Production.orRecover p) := by
  refine ⟨fun {env s n s'} hs hrun => ?_, fun ht hk hs hrun hcalm => ?_,
    fun h hrun hoff hpost => ?_⟩
  · rw [Parse.orRecover_eq] at hrun
    split at hrun
    · rename_i hok
      rw [hrun] at hok
      exact hp.gone hs hok
    · exact gone_recover hs hrun
  · exact hp.located ht hk hs (orRecover_of_calm hrun hcalm) hcalm
  · exact run_orRecover (hp.same h (orRecover_of_calm hrun h.calm) hoff hpost)

theorem recovering_cases {p : Parse Unit} {env : Env} {s s' : State} {a : Unit}
    (hrun : Production.recovering p env s = .ok a s') :
    p env s = .ok a s' ∨ ∃ f s₁, p env s = .error f s₁ ∧
      Production.child (Production.recover f) env s₁ = .ok a s' := by
  unfold Production.recovering at hrun
  split at hrun
  · rename_i hok
    exact .inl (hok.trans hrun)
  · exact .inr ⟨_, _, ‹_›, hrun⟩

/-- A run without errors reads the header to its end. -/
theorem recovering_of_calm {p : Parse Unit} (hhushed : Hushed p) {env : Env}
    {s s' : State} {a : Unit}
    (hrun : Production.recovering p env s = .ok a s') (hcalm : Calm s s') : p env s = .ok a s' := by
  refine (recovering_cases hrun).resolve_right ?_
  rintro ⟨f, s₁, herror, hrecover⟩
  have honward := hhushed env s
  rw [herror] at honward
  have hdiagnostics : s₁.diagnostics = s.diagnostics := honward.diagnostics
  cases hrecover
  unfold Calm at hcalm
  dsimp only at hcalm
  rw [hdiagnostics] at hcalm
  exact absurd hcalm (Nat.not_succ_le_self _)

/-- What a header attached stays if the header is not read to its end. -/
theorem recovering {p : Parse Unit} (hp : SwapsTo post off p) (hclimbs : Climbs p)
    (hhushed : Hushed p) :
    SwapsTo post off (Production.recovering p) := by
  refine ⟨fun {env s a s'} hs hrun => ?_, fun ht hk hs hrun hcalm => ?_,
    fun h hrun hoff hpost => ?_⟩
  · rcases recovering_cases hrun with hok | ⟨f, s₁, herror, hrecover⟩
    · exact hp.gone hs hok
    · have hlater := hclimbs env s hs
      have honward := hhushed env s
      rw [herror] at hlater honward
      obtain ⟨n, s₂, hregion, hattach⟩ := bind_eq_ok hrecover
      have hgone := gone_recover hlater.le_size hregion
      cases hattach
      have hlater' := hlater.trans hgone.toLater
      exact ⟨⟨hlater'.cursor, hlater'.le_size, hlater'.diagnostics⟩,
        honward.children.trans (hgone.children.trans (List.suffix_cons _ _))⟩
  · exact hp.located ht hk hs (recovering_of_calm hhushed hrun hcalm) hcalm
  · rw [Production.recovering, hp.same h (recovering_of_calm hhushed hrun h.calm) hoff hpost]

instance recoveringEnd : SwapsTo post off (Production.recovering Production.endStatement) := by
  have hend : Flows 0 false {} false Production.endStatement := Phrase.endStatement
  exact recovering quiet hend.climbs hend.hushed

instance unexpected {e : Expected} : SwapsTo post off (Production.unexpected e) := by
  have hloud {env : Env} {s s' : State} {n : Node} (hrun : Production.unexpected e env s = .ok n s')
      (hcalm : Calm s s') : False := by
    cases hrun
    exact Nat.not_succ_le_self _ hcalm
  exact ⟨fun hs hrun => gone_recover hs hrun, fun _ _ _ hrun hcalm => (hloud hrun hcalm).elim,
    fun h hrun => (hloud hrun h.calm).elim⟩

-- ---------------------------------------------------------------------------
-- Blocks
-- ---------------------------------------------------------------------------

/-- What does not move. -/
theorem still [Bears α] {p : Parse Unit} {f : Unit → Parse α} [hp : Disregards true off p]
    [hy : ∀ t k, Yields (TokenStream.ending t k) p] (hstays : ∀ env s a s', p env s = .ok a s' →
      s'.cursor = s.cursor)
    (hf : ∀ a, SwapsTo post off (f a)) : SwapsTo post off (p >>= f) := by
  have hquiet : Swaps off p := quiet
  cases off with
  | false => exact bind hquiet hf
  | true => exact bindTo hquiet hf (fun _ => ⟨rfl, hstays⟩) fun _ _ _ => trivial

instance (priority := high) checkDepth [Bears α] {f : Unit → Parse α}
    [hf : ∀ a, SwapsTo post off (f a)] :
    SwapsTo post off (Production.checkDepth >>= f) :=
  still (fun _ _ _ _ hrun => congrArg State.cursor (checkDepth_eq_ok hrun)) hf

/-- Opening a block does not move. -/
instance (priority := high) openBlockAt [Bears α] {opener : Keyword} {line : Nat}
    {f : Unit → Parse α}
    [hf : ∀ a, SwapsTo post off (f a)] :
    SwapsTo post off (Production.openBlockAt opener line >>= f) :=
  still (fun _ _ _ _ hrun => by cases hrun; rfl) hf

instance (priority := high) openBlock [Bears α] {opener : Keyword} {f : Unit → Parse α}
    [hf : ∀ a, SwapsTo post off (f a)] : SwapsTo post off (Production.openBlock opener >>= f) :=
  still (fun _ _ _ _ hrun => by cases hrun; rfl) hf

instance finishBlock {opener : Keyword} : SwapsTo post off (Production.finishBlock opener) := by
  unfold Production.finishBlock
  infer_instance

end Swaps

end Production

end VisualBasic
