import VisualBasic.Proofs.PhraseLaws

/-!
# Streams in which names are reworded

Some words are reserved in a few positions only and are names everywhere else. Two streams of tokens
are compared here that are the same but for some names, which are such words in the second stream.
Most of what the grammar looks for treats the word as the name. The exception is a look for such a
word itself; it can go wrong only where the name stands, so what is read in front of that look needs
the token behind it to be the same in both streams. What comes behind makes sure of it: it reads a
mark or an operator, or it reads nothing where a name stands, and then the whole ends there.

* `TokenStream.Reworded` — the streams are the same but for names.
* `Rewords` — what succeeds in the one stream comes to the same in the other.
* `RewordsIf` — the same, if the token behind is the same in both streams.
* `Balks` — what succeeds where a name stands reads nothing.

Main results:

* `TokenStream.reworded_reword` — replacing names by words gives such a stream.
* `RewordsIf.bind` — a run whose second part balks at names.
* `RewordsIf.iterate`, `RewordsIf.iterateBalking` — repetitions.
-/

namespace VisualBasic

-- ---------------------------------------------------------------------------
-- Kinds
-- ---------------------------------------------------------------------------

/-- The kinds are the same, or the first is that of a name and the second a word that is reserved
only in a few positions. -/
def TokenKind.Reworded (kind kind' : TokenKind) : Prop :=
  kind' = kind ∨ kind = .identifier ∧ ∃ word : Keyword, word.isContextual = true ∧
  kind' = .keyword word

/-- What is said of a kind is said of the words that are reserved only in a few positions as it is
of a name. -/
def TokenKind.NamesAlike {α : Type} (f : TokenKind → α) : Prop :=
  ∀ word : Keyword, word.isContextual = true → f (.keyword word) = f .identifier

/-- A word that is one only in its context may be a name. -/
theorem Keyword.isNameLike_of_isContextual (word : Keyword) (h : word.isContextual = true) :
    word.isNameLike = true :=
  Bool.or_eq_true_iff.2 (.inl h)

namespace TokenKind.Reworded

variable {kind kind' : TokenKind}

/-- What does not tell names from words that may be names sees no difference. -/
theorem alike {α : Type} (h : kind.Reworded kind') {f : TokenKind → α} (hf : NamesAlike f) :
    f kind' = f kind := by
  obtain rfl | ⟨rfl, word, hword, rfl⟩ := h
  · rfl
  · exact hf word hword

/-- Only names are reworded. -/
theorem eq_of_ne (h : kind.Reworded kind') (hne : kind ≠ .identifier) : kind' = kind := by
  obtain h | ⟨hname, -⟩ := h
  · exact h
  · exact absurd hname hne

end TokenKind.Reworded

/-- A kind that cannot be a name is looked for. -/
theorem TokenKind.namesAlike_beq {kind : TokenKind} (h : kind.isNameLike = false) :
    NamesAlike (· == kind) := by
  intro word hword
  have hname : (TokenKind.identifier == kind) = false := by
    refine Bool.eq_false_iff.2 fun heq => ?_
    rw [← beq_iff_eq.1 heq] at h
    cases h
  have hne : (TokenKind.keyword word == kind) = false := by
    refine Bool.eq_false_iff.2 fun heq => ?_
    rw [← beq_iff_eq.1 heq, TokenKind.isNameLike, word.isNameLike_of_isContextual hword] at h
    cases h
  dsimp only
  rw [hname, hne]

/-- Whether a token may be a name is the same for both. -/
theorem TokenKind.namesAlike_isNameLike : NamesAlike TokenKind.isNameLike := by
  intro word hword
  exact word.isNameLike_of_isContextual hword

theorem TokenKind.ne_identifier_of {kind : TokenKind} (h : kind.isNameLike = false) :
    kind ≠ .identifier := by
  rintro rfl
  cases h

-- ---------------------------------------------------------------------------
-- Streams
-- ---------------------------------------------------------------------------

namespace TokenStream

/-- The stream in which the tokens for which there is a word are of the kind of that word. -/
def reword (t : TokenStream) (word : Nat → Option Keyword) : TokenStream :=
  { t with
    tokens := t.tokens.mapIdx fun i token =>
      { token with kind := ((word i).map .keyword).getD token.kind } }

/-- The streams are the same but for the kinds of names, which are reserved words in the second. -/
structure Reworded (t t' : TokenStream) : Prop where
  size : t'.tokens.size = t.tokens.size
  span : ∀ i, (t'.get i).span = (t.get i).span
  kindAt : ∀ i, (t.kindAt i).Reworded (t'.kindAt i)

/-- As many tokens as before. -/
theorem size_reword (t : TokenStream) (word : Nat → Option Keyword) :
    (t.reword word).tokens.size = t.tokens.size := Array.size_mapIdx

/-- At an index there is the word, if one is given, and else what was there. -/
theorem kindAt_reword (t : TokenStream) (word : Nat → Option Keyword) {i : Nat}
    (hi : i < t.tokens.size) :
    (t.reword word).kindAt i = ((word i).map .keyword).getD (t.kindAt i) := by
  unfold TokenStream.kindAt TokenStream.reword
  dsimp only
  rw [Array.getElem?_mapIdx, Array.getElem?_eq_getElem hi]
  rfl

theorem kindAt_reword_of_none (t : TokenStream) {word : Nat → Option Keyword} {i : Nat}
    (hi : word i = none) :
    (t.reword word).kindAt i = t.kindAt i := by
  rcases Nat.lt_or_ge i t.tokens.size with hlt | hge
  · rw [kindAt_reword t word hlt, hi]
    rfl
  · rw [kindAt_of_size_le hge, kindAt_of_size_le ((size_reword t word).symm ▸ hge)]

/-- Words that may be names, in the places of names. -/
theorem reworded_reword {t : TokenStream} {word : Nat → Option Keyword}
    (hword : ∀ i w, word i = some w → w.isContextual = true ∧ t.kindAt i = .identifier) :
    t.Reworded (t.reword word) := by
  refine ⟨size_reword t word, fun i => ?_, fun i => ?_⟩
  · unfold TokenStream.get TokenStream.reword
    dsimp only
    rw [Array.getElem?_mapIdx]
    cases t.tokens[i]? <;> rfl
  · cases hw : word i with
    | none => exact .inl (kindAt_reword_of_none t hw)
    | some w =>
      obtain ⟨hcontextual, hname⟩ := hword i w hw
      have hlt : i < t.tokens.size :=
        lt_size_of_kindAt_ne (by rw [hname]; exact TokenKind.noConfusion)
      refine .inr ⟨hname, w, hcontextual, ?_⟩
      rw [kindAt_reword t word hlt, hw]
      rfl

end TokenStream

/-- The tokens are the same but for names, and there is as much room in both. -/
structure Env.Reworded (env env' : Env) : Prop where
  tokens : env.tokens.Reworded env'.tokens
  limit : env'.limit = env.limit
  depth : env'.depth = env.depth

namespace Env.Reworded

variable {env env' : Env}

theorem nested (h : env.Reworded env') :
    Env.Reworded { env with depth := env.depth + 1 } { env' with depth := env'.depth + 1 } :=
  ⟨h.tokens, h.limit, congrArg (· + 1) h.depth⟩

/-- There are as many of them left. -/
theorem room (h : env.Reworded env') : env'.room = env.room := by
  unfold Env.room
  rw [h.limit, h.depth]

theorem next (h : env.Reworded env') (cursor : Nat) : env'.next cursor = env.next cursor := by
  unfold Env.next
  rw [h.tokens.size]

/-- The spans of the tokens are the same. -/
theorem span (h : env.Reworded env') (first cursor : Nat) :
    env'.span first cursor = env.span first cursor := by
  unfold Env.span
  rw [h.tokens.span, h.tokens.span, h.tokens.span]

/-- The next tokens differ at most by a word for a name. -/
theorem kind (h : env.Reworded env') (s : State) : (env.kind s).Reworded (env'.kind s) :=
  h.tokens.kindAt s.cursor

/-- What is no name is the same. -/
theorem kind_eq (h : env.Reworded env') {s : State} (hs : env.kind s ≠ .identifier) :
    env'.kind s = env.kind s :=
  (h.kind s).eq_of_ne hs

/-- A kind that cannot be a name is looked for further on. -/
theorem beq_kindAhead (h : env.Reworded env') {kind : TokenKind}
    (hkind : kind.isNameLike = false) (s : State)
    (i : Nat) : (env'.kindAhead s i == kind) = (env.kindAhead s i == kind) :=
  (h.tokens.kindAt _).alike (TokenKind.namesAlike_beq hkind)

/-- So is a row of such kinds. -/
theorem hasAhead (h : env.Reworded env') {kinds : List TokenKind}
    (hkinds : ∀ kind ∈ kinds, kind.isNameLike = false) (s : State) :
    env'.hasAhead s kinds = env.hasAhead s kinds := by
  refine Bool.eq_iff_iff.2 ?_
  simp only [Env.hasAhead, List.all_eq_true, Prod.forall]
  refine forall_congr' fun kind => forall_congr' fun i => imp_congr_right fun hmem => ?_
  rw [h.beq_kindAhead (hkinds kind (List.fst_mem_of_mem_zipIdx hmem))]

end Env.Reworded

namespace Production

open State

variable {α β : Type} {off : Bool} {heeds : α → Bool}

-- ---------------------------------------------------------------------------
-- Judgements
-- ---------------------------------------------------------------------------

/-- What the production makes of a stream, it makes of one in which names are reworded. If `off`,
this is said only of runs that do not begin at a name. -/
class Rewords (off : Bool) (p : Parse α) : Prop where
  same : ∀ {env env' : Env} {s : State} {a : α} {s' : State}, env.Reworded env' →
    (off = true → env.kind s ≠ .identifier) → p env s = .ok a s' → p env' s = .ok a s'

/-- What the production makes of a stream, it makes of one in which names are reworded, but for
results that heed the token behind: that token has to be the same in both. -/
structure RewordsIf (off : Bool) (heeds : α → Bool) (p : Parse α) : Prop where
  same : ∀ {env env' : Env} {s : State} {a : α} {s' : State}, env.Reworded env' →
    (off = true → env.kind s ≠ .identifier) → p env s = .ok a s' →
    (heeds a = true → env'.kind s' = env.kind s') → p env' s = .ok a s'

/-- Where a name stands the production reads nothing, and if it succeeds, then with a result that
heeds the token behind. -/
structure Balks (heeds : α → Bool) (p : Parse α) : Prop where
  still : ∀ {env : Env} {s : State} {a : α} {s' : State}, env.kind s = .identifier →
      p env s = .ok a s' →
    heeds a = true ∧ s'.cursor = s.cursor

/-- Every result heeds the token behind. -/
@[reducible] def always (_ : α) : Bool := true

/-- No result heeds the token behind. -/
@[reducible] def never (_ : α) : Bool := false

-- ---------------------------------------------------------------------------
-- Nothing is read at a name
-- ---------------------------------------------------------------------------

namespace Balks

variable {p : Parse α} {f : α → Parse β} {heeds' : β → Bool}

/-- What is given without a look has to heed the token behind. -/
theorem pure {a : α} (ha : heeds a = true) : Balks heeds (Pure.pure a : Parse α) := by
  refine ⟨fun {env s b s'} _ hrun => ?_⟩
  cases hrun
  exact ⟨ha, rfl⟩

/-- What fails gives nothing. -/
theorem fail {e : Expected} : Balks heeds (Production.fail e : Parse α) := by
  refine ⟨fun {env s a s'} _ hrun => ?_⟩
  cases hrun

/-- The second part begins where the first did. -/
theorem bind (hp : Balks (always (α := α)) p) (hf : ∀ a, Balks heeds' (f a)) :
    Balks heeds' (p >>= f) := by
  refine ⟨fun {env s b s'} hname hrun => ?_⟩
  obtain ⟨a, s₁, hfirst, hrest⟩ := bind_eq_ok hrun
  obtain ⟨-, hcursor⟩ := hp.still hname hfirst
  have hname₁ : env.kind s₁ = .identifier := by rw [Env.kind, hcursor, ← hname, Env.kind]
  obtain ⟨hheeds, hcursor'⟩ := (hf a).still hname₁ hrest
  exact ⟨hheeds, hcursor'.trans hcursor⟩

/-- The second part is not reached. -/
theorem bindNever (hp : Balks (never (α := α)) p) : Balks heeds' (p >>= f) := by
  refine ⟨fun {env s b s'} hname hrun => ?_⟩
  obtain ⟨a, s₁, hfirst, -⟩ := bind_eq_ok hrun
  obtain ⟨hnever, -⟩ := hp.still hname hfirst
  cases hnever

/-- What is seen at a name is known. -/
theorem looks {p : Parse β} {seen : Env → State → β} {f : β → Parse α} {b : β}
    (hp : Looks p seen) (hseen : ∀ env s, env.kind s = .identifier → seen env s = b)
    (hf : Balks heeds (f b)) :
    Balks heeds (p >>= f) := by
  refine ⟨fun {env s a s'} hname hrun => ?_⟩
  rw [hp.run_bind, hseen env s hname] at hrun
  exact hf.still hname hrun

theorem peek {f : TokenKind → Parse α} (hf : Balks heeds (f .identifier)) :
    Balks heeds (Production.peek >>= f) :=
  looks .peek (fun _ _ hname => hname) hf

/-- At a name no other kind is found. -/
theorem atKind {kind : TokenKind} {f : Bool → Parse α} (hkind : kind ≠ .identifier)
    (hf : Balks heeds (f false)) : Balks heeds (Production.atKind kind >>= f) := by
  refine looks (.test _) (fun env s hname => ?_) hf
  rw [hname]
  exact beq_eq_false_iff_ne.2 hkind.symm

theorem attach {n : Node} : Balks always (Production.attach n) := by
  refine ⟨fun {env s a s'} _ hrun => ?_⟩
  cases hrun
  exact ⟨rfl, rfl⟩

/-- A node reads what its body reads. -/
theorem construct {r : Rule} {first : Nat} {body : Parse Unit} (hbody : Balks always body) :
    Balks always (Production.construct r first body) := by
  refine ⟨fun {env s n s'} hname hrun => ?_⟩
  obtain ⟨s₁, hrunBody, hcursor⟩ := construct_eq_ok hrun
  exact ⟨rfl, hcursor.trans (hbody.still (s := { s with children := [], isPartial := false })
    hname hrunBody).2⟩

theorem wrap {r : Rule} {n : Node} : Balks always (Production.wrap r n) := construct attach

/-- A mark or an operator is expected. -/
theorem expect {kind : TokenKind} (hkind : kind ≠ .identifier) :
    Balks never (Production.expect kind) :=
  atKind hkind fail

/-- A name is no mark. -/
theorem expectMark {mark : Mark} : Balks never (Production.expectMark mark) :=
  expect TokenKind.noConfusion

theorem expectEnd {mark : Mark} : Balks never (Production.expectEnd mark) :=
  atKind TokenKind.noConfusion fail

/-- Nothing is accepted but a mark or an operator. -/
theorem acceptThen {kind : TokenKind} {f : Bool → Parse α} (hkind : kind ≠ .identifier)
    (hf : Balks heeds (f false)) : Balks heeds (Production.accept kind >>= f) := by
  refine ⟨fun {env s a s'} hname hrun => ?_⟩
  obtain ⟨b, s₁, haccept, hrest⟩ := bind_eq_ok hrun
  unfold Production.accept Production.atKind at haccept
  rw [(Looks.test _).run_bind, hname, beq_eq_false_iff_ne.2 hkind.symm] at haccept
  cases haccept
  exact hf.still hname hrest

/-- By induction on the rounds: the first one reads nothing and asks for no other. -/
theorem iterateUpTo {step : α → Parse (Option α)} (hstep : ∀ x, Balks Option.isNone (step x))
    (n : Nat)
    (x : α) : Balks always (Production.iterateUpTo step n x) := by
  cases n with
  | zero => exact pure rfl
  | succ n =>
    refine ⟨fun {env s a s'} hname hrun => ?_⟩
    rw [iterateUpTo_succ] at hrun
    obtain ⟨y, s₁, hfirst, hrest⟩ := bind_eq_ok hrun
    obtain ⟨hnone, hcursor⟩ := (hstep x).still hname hfirst
    rw [Option.isNone_iff_eq_none] at hnone
    subst hnone
    cases hrest
    exact ⟨rfl, hcursor⟩

theorem iterate {step : α → Parse (Option α)} (hstep : ∀ x, Balks Option.isNone (step x)) {x : α} :
    Balks always (Production.iterate step x) :=
  ⟨fun hname hrun => (iterateUpTo hstep _ x).still hname hrun⟩

/-- A loop whose round asks for no other one at a name. -/
theorem repeatWhile {step : Parse Bool} (hstep : Balks (fun more => !more) step) :
    Balks always (Production.repeatWhile step) := by
  refine iterate fun _ => ?_
  refine ⟨fun {env s a s'} hname hrun => ?_⟩
  obtain ⟨more, s₁, hrunStep, hrest⟩ := bind_eq_ok hrun
  obtain ⟨hmore, hcursor⟩ := hstep.still hname hrunStep
  rw [Bool.not_eq_true'] at hmore
  subst hmore
  cases hrest
  exact ⟨rfl, hcursor⟩

theorem skipNewlines : Balks always Production.skipNewlines :=
  repeatWhile (atKind TokenKind.noConfusion (pure rfl))

end Balks

-- ---------------------------------------------------------------------------
-- What does not depend on the token behind
-- ---------------------------------------------------------------------------

namespace Rewords

variable {p q : Parse α} {f : α → Parse β}

/-- What does so in any case does so where the token behind is the same. -/
theorem rewordsIf (h : Rewords off p) : RewordsIf off heeds p :=
  ⟨fun henv hoff hrun _ => h.same henv hoff hrun⟩

/-- If no result heeds the token behind, nothing has to be known of it. -/
theorem of_never (h : RewordsIf off (never (α := α)) p) : Rewords off p :=
  ⟨fun henv hoff hrun => h.same henv hoff hrun fun hheeds => absurd hheeds Bool.false_ne_true⟩

instance pure {a : α} : Rewords off (Pure.pure a : Parse α) := ⟨fun _ _ hrun => hrun⟩

instance fail {e : Expected} : Rewords off (Production.fail e : Parse α) :=
  ⟨fun _ _ hrun => by cases hrun⟩

instance tooDeep : Rewords off (Production.tooDeep : Parse α) := ⟨fun _ _ hrun => by cases hrun⟩

instance checkDepth : Rewords off Production.checkDepth := by
  refine ⟨fun henv _ hrun => ?_⟩
  unfold Production.checkDepth at hrun ⊢
  rw [henv.limit, henv.depth]
  split at hrun
  · cases hrun
  · rename_i hdepth
    rwa [if_neg hdepth]

/-- The second part may begin at a name, so nothing is asked of where it begins. -/
theorem bind (hp : Rewords off p) (hf : ∀ a, Rewords false (f a)) : Rewords off (p >>= f) := by
  refine ⟨fun henv hoff hrun => ?_⟩
  obtain ⟨a, s₁, hfirst, hrest⟩ := bind_eq_ok hrun
  rw [run_bind, hp.same henv hoff hfirst]
  exact (hf a).same henv (absurd · Bool.false_ne_true) hrest

instance seq [hp : Rewords off p] [hf : ∀ a, Rewords false (f a)] :
    Rewords off (p >>= f) := hp.bind hf

/-- Nothing is done behind a failure. -/
instance (priority := high) failThen {e : Expected} {f : α → Parse β} :
    Rewords off (Production.fail e >>= f) := by
  refine ⟨fun _ _ hrun => ?_⟩
  obtain ⟨_, _, hfail, -⟩ := bind_eq_ok hrun
  cases hfail

instance ite {c : Prop} [Decidable c] [hp : Rewords off p] [hq : Rewords off q] :
    Rewords off (if c then p else q) := by
  split
  · exact hp
  · exact hq

instance (priority := high) iteNeither [hq : Rewords off q] :
    Rewords off (if (false || false) = true then p else q) :=
  hq

instance (priority := high) iteTrue [hp : Rewords off p] :
    Rewords off (if true = true then p else q) := hp

instance (priority := high) iteFalse [hq : Rewords off q] :
    Rewords off (if false = true then p else q) := hq

instance {mark : Mark} : Holds (!(TokenKind.mark mark).isNameLike) := ⟨rfl⟩

instance : Holds (!TokenKind.newline.isNameLike) := ⟨rfl⟩

/-- A look that treats the words as names. -/
theorem looks {seen : Env → State → Bool}
    (hseen : ∀ {env env'}, env.Reworded env' → ∀ s, seen env' s = seen env s) :
    Rewords off (Production.test seen) := by
  refine ⟨fun {env env' s a s'} henv _ hrun => ?_⟩
  cases hrun
  unfold Production.test
  rw [hseen henv]

/-- Where a look shows that no name stands ahead, the run does not begin at one. -/
instance (priority := high) atKind {kind : TokenKind} [hkind : Holds (!kind.isNameLike)]
    {f : Bool → Parse α} [htrue : Rewords true (f true)] [hfalse : Rewords off (f false)] :
    Rewords off (Production.atKind kind >>= f) := by
  have hkind : kind.isNameLike = false := by simpa using hkind.eq_true
  refine ⟨fun {env env' s a s'} henv hoff hrun => ?_⟩
  unfold Production.atKind at hrun ⊢
  rw [(Looks.test _).run_bind] at hrun ⊢
  rw [(henv.kind s).alike (TokenKind.namesAlike_beq hkind)]
  cases hb : env.kind s == kind with
  | true =>
    rw [hb] at hrun
    refine htrue.same henv (fun _ => ?_) hrun
    rw [beq_iff_eq.1 hb]
    exact TokenKind.ne_identifier_of hkind
  | false =>
    rw [hb] at hrun
    exact hfalse.same henv hoff hrun

instance atKindOnly {kind : TokenKind} [hkind : Holds (!kind.isNameLike)] :
    Rewords off (Production.atKind kind) :=
  looks fun henv s => (henv.kind s).alike (TokenKind.namesAlike_beq (by simpa using hkind.eq_true))

instance (priority := high) atWord {word : Keyword} [Holds (!(TokenKind.keyword word).isNameLike)]
    {f : Bool → Parse α} [Rewords true (f true)] [Rewords off (f false)] :
    Rewords off (Production.atWord word >>= f) :=
  atKind

/-- What is done at a name is done at the words. -/
theorem peek {f : TokenKind → Parse α} (hf : TokenKind.NamesAlike f)
    (hname : Rewords off (f .identifier))
    (hother : ∀ kind, kind ≠ .identifier → Rewords true (f kind)) :
    Rewords off (Production.peek >>= f) := by
  refine ⟨fun {env env' s a s'} henv hoff hrun => ?_⟩
  rw [Looks.peek.run_bind] at hrun ⊢
  rw [(henv.kind s).alike hf]
  by_cases hkind : env.kind s = .identifier
  · rw [hkind] at hrun ⊢
    exact hname.same henv hoff hrun
  · exact (hother _ hkind).same henv (fun _ => hkind) hrun

/-- A look at a token further on that takes names and words for names alike. -/
theorem peekAhead {i : Nat} {f : TokenKind → Parse α} (hf : TokenKind.NamesAlike f)
    (hall : ∀ kind, Rewords off (f kind)) : Rewords off (Production.peekAhead i >>= f) := by
  refine ⟨fun {env env' s a s'} henv hoff hrun => ?_⟩
  rw [(Looks.peekAhead i).run_bind] at hrun ⊢
  have hsame : f (env'.kindAhead s i) = f (env.kindAhead s i) := (henv.tokens.kindAt _).alike hf
  rw [hsame]
  exact (hall _).same henv hoff hrun

-- ---------------------------------------------------------------------------
-- Tokens and nodes
-- ---------------------------------------------------------------------------

instance skip : Rewords off Production.skip := by
  refine ⟨fun henv _ hrun => ?_⟩
  cases hrun
  unfold Production.skip
  rw [henv.next]

/-- A leaf of a rule does not say of what kind its token is. -/
instance leaf {kind : NodeKind} : Rewords off (Production.leaf kind) := by
  refine ⟨fun henv _ hrun => ?_⟩
  cases hrun
  unfold Production.leaf
  rw [henv.next, henv.tokens.span]

instance ruleLeaf {r : Rule} : Rewords off (Production.ruleLeaf r) := leaf

instance attach {n : Node} : Rewords off (Production.attach n) := ⟨fun _ _ hrun => hrun⟩

instance attachIn {role : Field} {n : Node} : Rewords off (Production.attachIn role n) :=
  attach (n := n.inField role)

/-- Attaching does not move. -/
instance (priority := high) attachThen {n : Node} {f : Unit → Parse α} [hf : Rewords off (f ())] :
    Rewords off (Production.attach n >>= f) :=
  ⟨fun {_ _ s _ _} henv hoff hrun => hf.same (s := { s with children := n :: s.children })
    henv hoff hrun⟩

instance (priority := high) attachInThen {role : Field} {n : Node} {f : Unit → Parse α}
    [hf : Rewords off (f ())] : Rewords off (Production.attachIn role n >>= f) :=
  attachThen (n := n.inField role)

/-- A leaf of the token's own kind: the run must not begin at a name. -/
instance tokenLeaf : Rewords true Production.tokenLeaf := by
  refine ⟨fun {env env' s a s'} henv hoff hrun => ?_⟩
  unfold Production.tokenLeaf at hrun ⊢
  rw [Looks.peek.run_bind] at hrun ⊢
  rw [henv.kind_eq (hoff rfl)]
  exact leaf.same henv hoff hrun

instance child {p : Parse Node} [Rewords off p] : Rewords off p.child := by
  unfold Production.child
  infer_instance

instance field {role : Field} {p : Parse Node} [Rewords off p] :
    Rewords off (Production.field role p) := by
  unfold Production.field
  infer_instance

/-- So it is if the leaf is attached. -/
instance take : Rewords true Production.take := by
  unfold Production.take
  infer_instance

/-- One level down. -/
instance nested [hp : Rewords off p] : Rewords off p.nested :=
  ⟨fun henv hoff hrun => hp.same henv.nested hoff hrun⟩

/-- The node has the span of its tokens, which is the same. -/
instance construct {r : Rule} {first : Nat} {body : Parse Unit} [hbody : Rewords off body] :
    Rewords off (Production.construct r first body) := by
  refine ⟨fun {env env' s n s'} henv hoff hrun => ?_⟩
  obtain ⟨s₁, hbodyRun, rfl, rfl⟩ := construct_eq_finish hrun
  have hsame := hbody.same (s := { s with children := [], isPartial := false }) henv hoff hbodyRun
  rw [Parse.construct_eq]
  rw [hsame]
  dsimp only
  rw [henv.span]

instance node {r : Rule} {body : Parse Unit} [hbody : Rewords off body] :
    Rewords off (Production.node r body) := by
  have hnode (first : Nat) : Rewords off (Production.construct r first body) := construct
  exact ⟨fun henv hoff hrun => (hnode _).same henv hoff hrun⟩

instance nodeFrom {n : Node} {r : Rule} {body : Parse Unit} [Rewords off body] :
    Rewords off (Production.nodeFrom n r body) :=
  construct

instance wrap {n : Node} {r : Rule} : Rewords off (Production.wrap r n) := nodeFrom

instance map {p : Parse Node} [Rewords off p] : Rewords off (Option.some <$> p) := by
  rw [map_eq_pure_bind]
  infer_instance

instance expect {kind : TokenKind} [Holds (!kind.isNameLike)] :
    Rewords off (Production.expect kind) := by
  unfold Production.expect
  infer_instance

instance expectWord {word : Keyword} [Holds (!(TokenKind.keyword word).isNameLike)] :
    Rewords off (Production.expectWord word) :=
  expect

instance expectMark {mark : Mark} : Rewords off (Production.expectMark mark) := expect

instance expectEnd {mark : Mark} : Rewords off (Production.expectEnd mark) := by
  unfold Production.expectEnd
  infer_instance

instance acceptMark {mark : Mark} : Rewords off (Production.acceptMark mark) := by
  unfold Production.acceptMark Production.accept
  infer_instance

end Rewords

-- ---------------------------------------------------------------------------
-- What depends on the token behind
-- ---------------------------------------------------------------------------

namespace RewordsIf

variable {p q : Parse α} {f : α → Parse β} {heeds' : β → Bool} {heeded : Bool}

/-- A result that heeds the token behind is followed by what balks at names. So either no name
stands there, and the token is the same, or nothing is read from there on. -/
theorem bind (hp : RewordsIf off heeds p) (hf : ∀ a, RewordsIf false heeds' (f a))
    (hbalks : ∀ a, heeds a = true → Balks heeds' (f a)) : RewordsIf off heeds' (p >>= f) := by
  refine ⟨fun {env env' s b s'} henv hoff hrun hheeds => ?_⟩
  obtain ⟨a, s₁, hfirst, hrest⟩ := bind_eq_ok hrun
  have hkind (ha : heeds a = true) : env'.kind s₁ = env.kind s₁ := by
    by_cases hname : env.kind s₁ = .identifier
    · obtain ⟨hb, hcursor⟩ := (hbalks a ha).still hname hrest
      have hsame := hheeds hb
      rwa [Env.kind, Env.kind, hcursor] at hsame
    · exact henv.kind_eq hname
  rw [run_bind, hp.same henv hoff hfirst hkind]
  exact (hf a).same henv (absurd · Bool.false_ne_true) hrest hheeds

/-- The first part does not depend on the token behind it. -/
theorem behind (hp : Rewords off p) (hf : ∀ a, RewordsIf false heeds' (f a)) :
    RewordsIf off heeds' (p >>= f) :=
  bind (show RewordsIf off never p from hp.rewordsIf) hf
    fun _ hnever => absurd hnever Bool.false_ne_true

/-- A choice that does not depend on the next token. -/
theorem ite {c : Prop} [Decidable c] (hp : RewordsIf off heeds p) (hq : RewordsIf off heeds q) :
    RewordsIf off heeds (if c then p else q) := by
  split
  · exact hp
  · exact hq

theorem peek {f : TokenKind → Parse α} (hf : TokenKind.NamesAlike f)
    (hname : RewordsIf off heeds (f .identifier))
    (hother : ∀ kind, kind ≠ .identifier → RewordsIf true heeds (f kind)) :
    RewordsIf off heeds (Production.peek >>= f) := by
  refine ⟨fun {env env' s a s'} henv hoff hrun hheeds => ?_⟩
  rw [Looks.peek.run_bind] at hrun ⊢
  rw [(henv.kind s).alike hf]
  by_cases hkind : env.kind s = .identifier
  · rw [hkind] at hrun ⊢
    exact hname.same henv hoff hrun hheeds
  · exact (hother _ hkind).same henv (fun _ => hkind) hrun hheeds

/-- A look that may find one of the words itself, but nothing where a name stands. -/
theorem testThen {seen : Env → State → Bool} {f : Bool → Parse α}
    (hseen : ∀ {env env'}, env.Reworded env' → ∀ s, env'.kind s = env.kind s →
      seen env' s = seen env s)
    (hname : ∀ env s, env.kind s = .identifier → seen env s = false)
    (htrue : RewordsIf true heeds (f true)) (hfalse : RewordsIf off heeds (f false))
    (hbalks : Balks heeds (f false)) : RewordsIf off heeds (Production.test seen >>= f) := by
  refine ⟨fun {env env' s a s'} henv hoff hrun hheeds => ?_⟩
  rw [(Looks.test _).run_bind] at hrun ⊢
  by_cases hkind : env.kind s = .identifier
  · rw [hname env s hkind] at hrun
    obtain ⟨ha, hcursor⟩ := hbalks.still hkind hrun
    have hsame : env'.kind s = env.kind s := by
      have hsame := hheeds ha
      rwa [Env.kind, Env.kind, hcursor] at hsame
    rw [hseen henv s hsame, hname env s hkind]
    exact hfalse.same henv hoff hrun hheeds
  · rw [hseen henv s (henv.kind_eq hkind)]
    cases hb : seen env s with
    | true =>
      rw [hb] at hrun
      exact htrue.same henv (fun _ => hkind) hrun hheeds
    | false =>
      rw [hb] at hrun
      exact hfalse.same henv hoff hrun hheeds

/-- If the kind is found, the run does not begin at a name. -/
theorem atKind {kind : TokenKind} {f : Bool → Parse α} (hkind : kind.isNameLike = false)
    (htrue : RewordsIf true heeds (f true)) (hfalse : RewordsIf off heeds (f false)) :
    RewordsIf off heeds (Production.atKind kind >>= f) := by
  refine ⟨fun {env env' s a s'} henv hoff hrun hheeds => ?_⟩
  unfold Production.atKind at hrun ⊢
  rw [(Looks.test _).run_bind] at hrun ⊢
  rw [(henv.kind s).alike (TokenKind.namesAlike_beq hkind)]
  cases hb : env.kind s == kind with
  | true =>
    rw [hb] at hrun
    refine htrue.same henv (fun _ => ?_) hrun hheeds
    rw [beq_iff_eq.1 hb]
    exact TokenKind.ne_identifier_of hkind
  | false =>
    rw [hb] at hrun
    exact hfalse.same henv hoff hrun hheeds

theorem nested (hp : RewordsIf off heeds p) : RewordsIf off heeds p.nested :=
  ⟨fun henv hoff hrun hheeds => hp.same henv.nested hoff hrun hheeds⟩

theorem construct {r : Rule} {first : Nat} {body : Parse Unit} {b : Bool}
    (hbody : RewordsIf off (fun _ => b) body) :
    RewordsIf off (fun _ => b) (Production.construct r first body) := by
  refine ⟨fun {env env' s n s'} henv hoff hrun hheeds => ?_⟩
  obtain ⟨s₁, hbodyRun, rfl, rfl⟩ := construct_eq_finish hrun
  have hsame :=
    hbody.same (s := { s with children := [], isPartial := false }) henv hoff hbodyRun hheeds
  rw [Parse.construct_eq]
  rw [hsame]
  dsimp only
  rw [henv.span]

/-- A node is built whatever its body heeds. -/
theorem node {r : Rule} {body : Parse Unit} {b : Bool} (hbody : RewordsIf off (fun _ => b) body) :
    RewordsIf off (fun _ => b) (Production.node r body) :=
  ⟨fun henv hoff hrun hheeds => (construct hbody).same henv hoff hrun hheeds⟩

theorem attachThen {n : Node} {f : Unit → Parse α} (hf : RewordsIf off heeds (f ())) :
    RewordsIf off heeds (Production.attach n >>= f) :=
  ⟨fun {_ _ s _ _} henv hoff hrun hheeds =>
    hf.same (s := { s with children := n :: s.children }) henv hoff hrun hheeds⟩

/-- Attaching reads nothing. -/
theorem attached {p : Parse Node} {place : Node → Node} (hp : RewordsIf off always p) :
    RewordsIf off always (p >>= fun n => Production.attach (place n)) :=
  hp.bind (fun _ => Rewords.attach.rewordsIf) fun _ _ => .attach

/-- A node is built and attached. -/
theorem child {p : Parse Node} (hp : RewordsIf off always p) :
    RewordsIf off always p.child := hp.attached

theorem field {role : Field} {p : Parse Node} (hp : RewordsIf off always p) :
    RewordsIf off always (Production.field role p) :=
  hp.attached

-- ---------------------------------------------------------------------------
-- Repetition
-- ---------------------------------------------------------------------------

/-- Only the last step depends on the token behind it. -/
theorem iterate {step : α → Parse (Option α)}
    (hstep : ∀ x, RewordsIf false (fun y => y.isNone && heeded) (step x)) {x : α} :
    RewordsIf off (fun _ => heeded) (Production.iterate step x) := by
  have hsteps (n : Nat) (x : α) : RewordsIf false (fun _ => heeded)
      (Production.iterateUpTo step n x) := by
    induction n generalizing x with
    | zero => exact Rewords.pure.rewordsIf
    | succ n ih =>
      rw [iterateUpTo_succ]
      refine (hstep x).bind (fun y => ?_) fun y hy => ?_
      · cases y with
        | none => exact Rewords.pure.rewordsIf
        | some y => exact ih y
      · cases y with
        | none => exact .pure hy
        | some y => cases hy
  refine ⟨fun {env env' s a s'} henv hoff hrun hheeds => ?_⟩
  unfold Production.iterate TokenStream.size
  rw [henv.tokens.size]
  exact (hsteps _ x).same henv (absurd · Bool.false_ne_true) hrun hheeds

/-- Every step depends on the token behind it, but the next one balks at names. -/
theorem iterateBalking {step : α → Parse (Option α)} (hstep : ∀ x, RewordsIf false always (step x))
    (hbalks : ∀ x, Balks Option.isNone (step x)) {x : α} :
    RewordsIf off always (Production.iterate step x) := by
  have hsteps (n : Nat) (x : α) : RewordsIf false always (Production.iterateUpTo step n x) := by
    induction n generalizing x with
    | zero => exact Rewords.pure.rewordsIf
    | succ n ih =>
      rw [iterateUpTo_succ]
      refine (hstep x).bind (fun y => ?_) fun y _ => ?_
      · cases y with
        | none => exact Rewords.pure.rewordsIf
        | some y => exact ih y
      · cases y with
        | none => exact .pure rfl
        | some y => exact .iterateUpTo hbalks n y
  refine ⟨fun {env env' s a s'} henv hoff hrun hheeds => ?_⟩
  unfold Production.iterate TokenStream.size
  rw [henv.tokens.size]
  exact (hsteps _ x).same henv (absurd · Bool.false_ne_true) hrun hheeds

/-- The last round heeds the token behind; the rounds in front of it go on, so they do not have
to. -/
theorem repeatWhile {step : Parse Bool}
    (hstep : RewordsIf false (fun more => !more && heeded) step) :
    RewordsIf off (fun _ => heeded) (Production.repeatWhile step) := by
  refine iterate fun _ => hstep.bind (fun _ => Rewords.pure.rewordsIf) fun more hmore => ?_
  cases more with
  | false => exact .pure hmore
  | true => cases hmore

/-- A loop whose round reads nothing at a name, and so ends in front of it. -/
theorem repeatWhileBalking {step : Parse Bool} (hstep : RewordsIf false always step)
    (hbalks : Balks (fun more => !more) step) :
    RewordsIf off always (Production.repeatWhile step) := by
  refine iterateBalking (fun _ => hstep.bind (fun _ => Rewords.pure.rewordsIf) fun _ _ => .pure rfl)
    fun _ => ?_
  refine ⟨fun {env s a s'} hname hrun => ?_⟩
  obtain ⟨more, s₁, hrunStep, hrest⟩ := bind_eq_ok hrun
  obtain ⟨hmore, hcursor⟩ := hbalks.still hname hrunStep
  rw [Bool.not_eq_true'] at hmore
  subst hmore
  cases hrest
  exact ⟨rfl, hcursor⟩

/-- Each item ends in front of a comma, which is the same, or of the token behind. -/
theorem commaSeparated {item : Parse Unit} (hitem : RewordsIf false always item)
    (hfirst : RewordsIf off always item) :
    RewordsIf off always (Production.commaSeparated item) := by
  have hstep : Balks (fun more => !more) (do
      if ← Production.acceptMark .comma then
        item
        return true
      return false) := .acceptThen TokenKind.noConfusion (.pure rfl)
  refine hfirst.bind (fun _ => repeatWhileBalking ?_ hstep) fun _ _ => .repeatWhile hstep
  refine RewordsIf.behind Rewords.acceptMark fun more => ?_
  refine ite (hitem.bind (fun _ => Rewords.pure.rewordsIf) fun _ _ => .pure rfl) ?_
  exact Rewords.pure.rewordsIf

/-- A mark has to stand behind. -/
theorem markedThen {mark : Mark} {f : Unit → Parse β} (hp : RewordsIf off always p)
    (hf : ∀ a, Rewords false (f a)) :
    Rewords off (p >>= fun _ => Production.expectMark mark >>= f) :=
  .of_never (hp.bind (fun _ => (Rewords.expectMark.bind hf).rewordsIf)
    fun _ _ => Balks.expectMark.bindNever)

/-- What heeds the token behind is followed by a mark, which is the same. -/
theorem marked {mark : Mark} (hp : RewordsIf off always p) :
    Rewords off (p >>= fun _ => Production.expectMark mark) :=
  .of_never (hp.bind (fun _ => Rewords.expectMark.rewordsIf) fun _ _ => .expectMark)

end RewordsIf

namespace Rewords

instance iterate {step : α → Parse (Option α)} [hstep : ∀ x, Rewords false (step x)] {x : α} :
    Rewords off (Production.iterate step x) :=
  of_never (RewordsIf.iterate fun x => (hstep x).rewordsIf)

instance repeatWhile {step : Parse Bool} [Rewords false step] :
    Rewords off (Production.repeatWhile step) := by
  unfold Production.repeatWhile
  infer_instance

instance skipNewlines : Rewords off Production.skipNewlines := by
  unfold Production.skipNewlines
  infer_instance

end Rewords

end Production

end VisualBasic
