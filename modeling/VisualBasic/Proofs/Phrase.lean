import VisualBasic.Proofs.Alike
import VisualBasic.Proofs.Aside

/-!
# Phrases

The quiet part of the grammar, taken apart. A *phrase* is a pair of productions that are put
together in the same way from the same parts, where the nodes that the one uses may differ from
those that the other uses by where they stand. The ways of putting productions together are the
rules of `Phrase`, so what holds of every quiet production is proved by one induction, and the
grammar is gone through only once.

A phrase knows something of where it begins, its `Spot`, and says of its end whether the last token
that it read ends a statement. That is how the words of closing lines are kept out: a phrase reads
one only where there is no line end in front of it.

Main definitions:

* `TokenStream.Bars`, `TokenStream.Spans` — what a phrase does not go past, and the parentheses on
  its way.
* `Spot` — what is known of the place where a production runs.
* `Climbs`, `Hushed`, `Follows` — what is said of one run, and of two over tokens that agree.
* `Phrase` — the rules.
-/

namespace VisualBasic

-- ---------------------------------------------------------------------------
-- Where a phrase begins
-- ---------------------------------------------------------------------------

namespace TokenStream

/-- There is a token in front of the index, and it does not end a statement. -/
def Inside (t : TokenStream) (i : Nat) : Prop := 0 < i ∧ (t.kindAt (i - 1)).isTerminator = false

/-- The tokens from an index on are of the given classes. -/
def AllAhead (t : TokenStream) : Nat → List (TokenKind → Bool) → Prop
  | _, [] => True
  | i, p :: ps => p (t.kindAt i) = true ∧ AllAhead t (i + 1) ps

/-- The token at an index follows the end of a statement, and is `End` or, if `strict`, the mark
that opens attributes. -/
def Bars (t : TokenStream) (strict : Bool) (e : Nat) : Prop :=
  0 < e ∧ (t.kindAt (e - 1)).isTerminator = true ∧
    (t.kindAt e = .keyword .kwEnd ∨ strict = true ∧ t.kindAt e = .mark .less)

theorem Bars.not_inside {t : TokenStream} {strict : Bool} {e : Nat} (h : t.Bars strict e) :
    ¬t.Inside e := by
  rintro ⟨-, hinside⟩
  rw [h.2.1] at hinside
  exact Bool.noConfusion hinside

/-- A walk over the tokens from `i` up to `j`, all of them on one line, where `n` parentheses are
open at first, `m` at last, and at least one in front of every token. -/
inductive Walk (t : TokenStream) : (n i m j : Nat) → Prop
  | stay {n i : Nat} : Walk t n i n i
  | pass {n i m j : Nat} (hi : t.kindAt i ≠ .mark .leftParen ∧ t.kindAt i ≠ .mark .rightParen ∧
      t.kindAt i ≠ .newline ∧ t.kindAt i ≠ .endOfFile) (h : Walk t (n + 1) (i + 1) m j) :
      Walk t (n + 1) i m j
  | «open» {n i m j : Nat} (hi : t.kindAt i = .mark .leftParen) (h : Walk t (n + 2) (i + 1) m j) :
      Walk t (n + 1) i m j
  | close {n i m j : Nat} (hi : t.kindAt i = .mark .rightParen) (h : Walk t n (i + 1) m j) :
      Walk t (n + 1) i m j

theorem Walk.trans {t : TokenStream} {n i m j l k : Nat} (h : Walk t n i m j)
    (h' : Walk t m j l k) :
    Walk t n i l k := by
  induction h with
  | stay => exact h'
  | pass hi _ ih => exact .pass hi (ih h')
  | «open» hi _ ih => exact .open hi (ih h')
  | close hi _ ih => exact .close hi (ih h')

/-- A walk from `i` gets to `j` with `m` parentheses open, or to the end of a line in front of `j`
with some open. -/
def Spans (t : TokenStream) (n i m j : Nat) : Prop :=
  Walk t n i m j ∨ ∃ k l, k < j ∧ t.kindAt k = .newline ∧ Walk t n i (l + 1) k

theorem Spans.trans {t : TokenStream} {n i m j l k : Nat} (h : Spans t n i m j)
    (h' : Spans t m j l k) (hjk : j ≤ k) : Spans t n i l k := by
  rcases h with h | ⟨k₁, l₁, hk₁, hnewline, h⟩
  · rcases h' with h' | ⟨k₁, l₁, hk₁, hnewline, h'⟩
    · exact .inl (h.trans h')
    · exact .inr ⟨k₁, l₁, hk₁, hnewline, h.trans h'⟩
  · exact .inr ⟨k₁, l₁, Nat.lt_of_lt_of_le hk₁ hjk, hnewline, h⟩

end TokenStream

/-- What is known of the place where a production runs. -/
structure Spot where
  /-- The token in front of it does not end a statement. -/
  inside : Bool := false
  /-- The classes of the tokens ahead, as far as they are known. -/
  ahead : List (TokenKind → Bool) := []

namespace Spot

structure Holds (spot : Spot) (env : Env) (s : State) : Prop where
  inside : spot.inside = true → env.tokens.Inside s.cursor
  ahead : env.tokens.AllAhead s.cursor spot.ahead

/-- A place of which no more is known than whether a statement has begun. -/
@[reducible] def plain (inside : Bool) : Spot := { inside }

/-- A place in front of a token of a class. -/
@[reducible] def before (inside : Bool) (p : TokenKind → Bool) : Spot := { inside, ahead := [p] }

theorem holds_plain {inside : Bool} {env : Env} {s : State}
    (h : inside = true → env.tokens.Inside s.cursor) : (plain inside).Holds env s :=
  ⟨h, trivial⟩

theorem Holds.plain {spot : Spot} {env : Env} {s : State} (h : spot.Holds env s) :
    (Spot.plain spot.inside).Holds env s :=
  holds_plain h.inside

/-- What is known of a place depends on no more than the tokens and the place. -/
theorem Holds.same {spot : Spot} {env env' : Env} {s s' : State} (h : spot.Holds env s)
    (htokens : env'.tokens = env.tokens) (hcursor : s'.cursor = s.cursor) : spot.Holds env' s' := by
  refine ⟨fun hi => ?_, ?_⟩
  · rw [htokens, hcursor]
    exact h.inside hi
  · rw [htokens, hcursor]
    exact h.ahead

theorem Holds.before {spot : Spot} {env : Env} {s : State} (h : spot.Holds env s)
    {p : TokenKind → Bool} (hp : p (env.kind s) = true) : (Spot.before spot.inside p).Holds env s :=
  ⟨h.inside, hp, trivial⟩

end Spot

/-- A class of tokens that a phrase may read one by one: none is a parenthesis, and none is barred
where a statement may begin. -/
structure IsWordClass (strict inside : Bool) (p : TokenKind → Bool) : Prop where
  endOfFile : p .endOfFile = false
  leftParen : p (.mark .leftParen) = false
  rightParen : p (.mark .rightParen) = false
  closer : inside = false → p (.keyword .kwEnd) = false
  less : inside = false → strict = true → p (.mark .less) = false

/-- A class of tokens none of which ends a statement. -/
def IsInnerClass (p : TokenKind → Bool) : Prop :=
  p .newline = false ∧ p (.mark .colon) = false

theorem IsInnerClass.isTerminator {p : TokenKind → Bool} (h : IsInnerClass p) {kind : TokenKind}
    (hp : p kind = true) : kind.isTerminator = false := by
  cases hkind : kind.isTerminator with
  | false => rfl
  | true =>
    unfold TokenKind.isTerminator at hkind
    split at hkind
    · rw [h.1] at hp
      cases hp
    · rw [h.2] at hp
      cases hp
    · cases hkind

namespace Spot.Holds

variable {inside inside₁ strict : Bool} {c : TokenKind → Bool}
  {cs : List (TokenKind → Bool)} {env : Env} {s s' : State}

theorem kind (h : Holds ⟨inside, c :: cs⟩ env s) : c (env.kind s) = true := h.ahead.1

theorem next_eq (h : Holds ⟨inside, c :: cs⟩ env s) (hc : c .endOfFile = false) :
    env.next s.cursor = s.cursor + 1 :=
  Env.next_eq_succ (TokenKind.ne_endOfFile_of h.kind hc)

/-- What is known behind the token that is known. -/
theorem behind (h : Holds ⟨inside, c :: cs⟩ env s) (hc : c .endOfFile = false)
    (hinside : inside₁ = true → IsInnerClass c) (hs' : s'.cursor = env.next s.cursor) :
    Holds ⟨inside₁, cs⟩ env s' := by
  rw [h.next_eq hc] at hs'
  refine ⟨fun hi => ?_, ?_⟩
  · rw [hs']
    exact ⟨Nat.succ_pos _, (hinside hi).isTerminator h.kind⟩
  · rw [hs']
    exact h.ahead.2

theorem inside_behind (h : Holds ⟨inside, c :: cs⟩ env s) (hc : c .endOfFile = false)
    (hinside : IsInnerClass c) {i : Nat} (hi : i = env.next s.cursor) : env.tokens.Inside i := by
  rw [hi, h.next_eq hc]
  exact ⟨Nat.succ_pos _, hinside.isTerminator h.kind⟩

/-- A token that a phrase may read is not barred. -/
theorem lt_of_bars (h : Holds ⟨inside, c :: cs⟩ env s) (hc : IsWordClass strict inside c)
    {e : Nat} (he : env.tokens.Bars strict e) (hle : s.cursor ≤ e) : s.cursor < e := by
  refine Nat.lt_of_le_of_ne hle ?_
  rintro rfl
  cases hinside : inside with
  | true => exact he.not_inside (h.inside hinside)
  | false =>
    have hkind := h.kind
    rcases he.2.2 with hend | ⟨hstrict, hless⟩
    · rw [show env.kind s = _ from hend, hc.closer hinside] at hkind
      cases hkind
    · rw [show env.kind s = _ from hless, hc.less hinside hstrict] at hkind
      cases hkind

theorem next_le_of_bars (h : Holds ⟨inside, c :: cs⟩ env s) (hc : IsWordClass strict inside c)
    {e : Nat} (he : env.tokens.Bars strict e) (hle : s.cursor ≤ e) : env.next s.cursor ≤ e :=
  Nat.le_trans (env.next_le_succ _) (h.lt_of_bars hc he hle)

end Spot.Holds

-- ---------------------------------------------------------------------------
-- What is said of phrases
-- ---------------------------------------------------------------------------

namespace State

/-- The state `s'` is further on than `s`. -/
structure Later (t : TokenStream) (s s' : State) : Prop where
  cursor : s.cursor ≤ s'.cursor
  le_size : s'.cursor ≤ t.tokens.size
  diagnostics : s.diagnostics <:+ s'.diagnostics

theorem Later.refl {t : TokenStream} {s : State} (hs : s.cursor ≤ t.tokens.size) : Later t s s :=
  ⟨Nat.le_refl _, hs, List.suffix_refl _⟩

theorem Later.trans {t : TokenStream} {s s₁ s' : State} (h : Later t s s₁) (h' : Later t s₁ s') :
    Later t s s' :=
  ⟨Nat.le_trans h.cursor h'.cursor, h'.le_size, h.diagnostics.trans h'.diagnostics⟩

/-- The state `s'` differs from `s` by its place and by further children. -/
structure Onward (s s' : State) : Prop where
  children : s.children <:+ s'.children
  isPartial : s'.isPartial = s.isPartial
  diagnostics : s'.diagnostics = s.diagnostics
  blocks : s'.blocks = s.blocks
  singleLineIfs : s'.singleLineIfs = s.singleLineIfs

theorem Onward.refl (s : State) : Onward s s := ⟨List.suffix_refl _, rfl, rfl, rfl, rfl⟩

theorem Onward.trans {s s₁ s' : State} (h : Onward s s₁) (h' : Onward s₁ s') : Onward s s' :=
  ⟨h.children.trans h'.children, h'.isPartial.trans h.isPartial,
    h'.diagnostics.trans h.diagnostics, h'.blocks.trans h.blocks,
    h'.singleLineIfs.trans h.singleLineIfs⟩

end State

/-- A run from `s` to `s₁` stays within the bound and leaves no diagnostics behind. -/
def Sight.Admits (m : Sight) (s s₁ : State) : Prop :=
  m.Reaches s₁.cursor ∧
    match m with
    | .whole _ => True
    | .upTo _ _ => s₁.diagnostics.length ≤ s.diagnostics.length

/-- What was done in front of a run that is admitted is admitted. -/
theorem Sight.Admits.front {m : Sight} {t : TokenStream} {s s₁ s₂ : State} (h : m.Admits s s₂)
    (h' : State.Later t s₁ s₂) : m.Admits s s₁ := by
  refine ⟨h.1.mono h'.cursor, ?_⟩
  cases m with
  | whole => trivial
  | upTo => exact Nat.le_trans h'.diagnostics.length_le h.2

theorem Sight.Admits.back {m : Sight} {t : TokenStream} {s s₁ s₂ : State} (h : m.Admits s s₂)
    (h' : State.Later t s s₁) : m.Admits s₁ s₂ := by
  refine ⟨h.1, ?_⟩
  cases m with
  | whole => trivial
  | upTo => exact Nat.le_trans h.2 h'.diagnostics.length_le

namespace Production

open State

variable {α β γ : Type}

/-- A run goes forward, whether or not it succeeds. -/
def Climbs (p : Parse α) : Prop :=
  ∀ env s, s.cursor ≤ env.tokens.tokens.size → Later env.tokens s (lastState (p env s))

/-- A run that succeeds with something `good`, where there is a token ahead, reads a token. -/
def Progresses (good : α → Prop) (p : Parse α) : Prop :=
  ∀ env s a s', env.tokens.Ready s.cursor 1 → p env s = .ok a s' → good a → s.cursor < s'.cursor

/-- A run that succeeds reads the token ahead and no more. -/
def ReadsNext (p : Parse α) : Prop :=
  ∀ env s a s', p env s = .ok a s' → s'.cursor = env.next s.cursor

/-- A run changes the place and adds children, whether or not it succeeds. -/
def Hushed (p : Parse α) : Prop := ∀ env s, Onward s (lastState (p env s))

/-- What a look tells is the same in two runs. -/
def Steady (δ : Nat) (spot : Spot) (seen : Env → State → α) : Prop :=
  ∀ m env env' s s', Env.Alike δ m env env' → State.Alike δ m env.tokens env'.tokens s s' →
    m.Reaches s.cursor → spot.Holds env s → seen env' s' = seen env s

/-- What came of a run from `s` came of the other run, too. Where only a part of the tokens agrees,
this is said only of runs that succeed within that part. -/
def Follows (δ : Nat) (m : Sight) (r : α → β → Prop) (t t' : TokenStream) (s : State) :
    EStateM.Result Failure State α → EStateM.Result Failure State β → Prop
  | .ok a s₁, result =>
    m.Admits s s₁ → ∃ b s₁', result = .ok b s₁' ∧ r a b ∧ State.Alike δ m t t' s₁ s₁'
  | .error _ s₁, result =>
    ∀ full, m = .whole full → ∃ f s₁', result = .error f s₁' ∧ State.Alike δ m t t' s₁ s₁'

-- ---------------------------------------------------------------------------
-- The rules of phrases
-- ---------------------------------------------------------------------------

/-- Results of a step that may give none. -/
def OptionAlike (r : α → β → Prop) : Option α → Option β → Prop
  | none, none => True
  | some a, some b => r a b
  | _, _ => False

/-- Whatever the one run gives, there is something that the other could give. -/
class Partnered (r : α → β → Prop) : Prop where
  exists_partner : ∀ a, ∃ b, r a b

instance : Partnered (Eq : α → α → Prop) := ⟨fun a => ⟨a, rfl⟩⟩

instance (δ : Nat) : Partnered (Node.Alike δ) := ⟨fun n => ⟨n.bare δ, (n.bare_bare δ).symm⟩⟩

/-- `Phrase δ strict spot closing lands r p p'`: the productions are put together alike from quiet
parts. Where `p` begins is at the spot; if `closing`, it closes a parenthesis more than it opens,
and if `lands`, it ends inside of a statement. What the two give is related by `r`. -/
inductive Phrase (δ : Nat) (strict : Bool) : Spot → Bool → Bool → {α β : Type} → (α → β → Prop) →
    Parse α → Parse β → Prop
  | pure {spot : Spot} {α β : Type} {r : α → β → Prop} {a : α} {b : β} (h : r a b) :
    Phrase δ strict spot false spot.inside r (Pure.pure a) (Pure.pure b)
  | fail {spot : Spot} {closing lands : Bool} {α β : Type} {r : α → β → Prop} (e : Expected) :
    Phrase δ strict spot closing lands r (Production.fail e) (Production.fail e)
  | tooDeep {spot : Spot} {closing lands : Bool} {α β : Type} {r : α → β → Prop} :
    Phrase δ strict spot closing lands r Production.tooDeep Production.tooDeep
  | checkDepth {spot : Spot} :
    Phrase δ strict spot false spot.inside Eq Production.checkDepth Production.checkDepth
  | bind {spot : Spot} {closing lands lands₁ : Bool} {α α' β β' : Type} {r : α → α' → Prop}
    {r' : β → β' → Prop} {p : Parse α} {p' : Parse α'} {k : α → Parse β}
    {k' : α' → Parse β'} [Partnered r] (hp : Phrase δ strict spot false lands₁ r p p')
    (hk : ∀ a a', r a a' → Phrase δ strict (.plain lands₁) closing lands r' (k a) (k' a')) :
    Phrase δ strict spot closing lands r' (p >>= k) (p' >>= k')
  | look {spot : Spot} {closing lands : Bool} {α β β' : Type} {r : β → β' → Prop} {p : Parse α}
    {seen : Env → State → α} {k : α → Parse β} {k' : α → Parse β'} (hp : Looks p seen)
    (hseen : Steady δ spot seen) (next : α → Spot)
    (hnext : ∀ env s, spot.Holds env s → (next (seen env s)).Holds env s)
    (hk : ∀ a, Phrase δ strict (next a) closing lands r (k a) (k' a)) :
    Phrase δ strict spot closing lands r (p >>= k) (p >>= k')
  | leaf {inside lands : Bool} {c : TokenKind → Bool} {cs : List (TokenKind → Bool)}
    (kind : NodeKind) (hc : IsWordClass strict inside c) (hlands : lands = true → IsInnerClass c) :
    Phrase δ strict ⟨inside, c :: cs⟩ false lands (Node.Alike δ) (Production.leaf kind)
      (Production.leaf kind)
  | tokenLeaf {inside lands : Bool} {c : TokenKind → Bool} {cs : List (TokenKind → Bool)}
    (hc : IsWordClass strict inside c) (hlands : lands = true → IsInnerClass c) :
    Phrase δ strict ⟨inside, c :: cs⟩ false lands (Node.Alike δ) Production.tokenLeaf
      Production.tokenLeaf
  | bindOne {inside inside₁ closing lands lands₁ : Bool} {c : TokenKind → Bool}
    {cs : List (TokenKind → Bool)} {α α' β β' : Type} {r : α → α' → Prop} {r' : β → β' → Prop}
    {p : Parse α} {p' : Parse α'} {k : α → Parse β} {k' : α' → Parse β'}
    [Partnered r] (hp : Phrase δ strict ⟨inside, c :: cs⟩ false lands₁ r p p')
    (hone : ReadsNext p) (hc : c .endOfFile = false) (hinside : inside₁ = true → IsInnerClass c)
    (hk : ∀ a a', r a a' → Phrase δ strict ⟨inside₁, cs⟩ closing lands r' (k a) (k' a')) :
    Phrase δ strict ⟨inside, c :: cs⟩ closing lands r' (p >>= k) (p' >>= k')
  | skip {inside : Bool} {c : TokenKind → Bool} {cs : List (TokenKind → Bool)}
    (hc : IsWordClass strict inside c) :
    Phrase δ strict ⟨inside, c :: cs⟩ false false Eq Production.skip Production.skip
  | openParen {spot : Spot} {lands : Bool} {β β' : Type} {r : β → β' → Prop}
    {k : Unit → Parse β} {k' : Unit → Parse β'}
    (hk : Phrase δ strict (.plain true) true lands r (k ()) (k' ())) :
    Phrase δ strict spot false lands r (Production.expectMark .leftParen >>= k)
      (Production.expectMark .leftParen >>= k')
  | closeParen {spot : Spot} (e : Expected) :
    Phrase δ strict spot true true Eq
      (Production.atKind (.mark .rightParen) >>= fun x => if x =
        true then take else Production.fail e)
      (Production.atKind (.mark .rightParen) >>= fun x => if x =
        true then take else Production.fail e)
  | attachThen {spot : Spot} {closing lands : Bool} {β β' : Type} {r : β → β' → Prop}
    {k : Unit → Parse β} {k' : Unit → Parse β'} {n n' : Node} (h : n.Alike δ n')
    (hk : Phrase δ strict spot closing lands r (k ()) (k' ())) :
    Phrase δ strict spot closing lands r (Production.attach n >>= k) (Production.attach n' >>= k')
  | node {spot : Spot} {lands : Bool} (r : Rule) {body body' : Parse Unit}
    (hbody : Phrase δ strict spot false lands Eq body body') :
    Phrase δ strict spot false lands (Node.Alike δ) (Production.node r body)
      (Production.node r body')
  | nodeFrom {spot : Spot} {lands : Bool} {n n' : Node} (h : n.Alike δ n') (r : Rule)
    {body body' : Parse Unit} (hbody : Phrase δ strict spot false lands Eq body body') :
    Phrase δ strict spot false lands (Node.Alike δ) (Production.nodeFrom n r body)
      (Production.nodeFrom n' r body')
  | iterate {spot : Spot} {α β : Type} {r : α → β → Prop} {step : α → Parse (Option α)}
    {step' : β → Parse (Option β)} {x : α} {y : β} [Partnered r]
    (hstep : ∀ x y, r x y → Phrase δ strict (.plain spot.inside) false spot.inside (OptionAlike r)
      (step x) (step' y))
    (hmoves : ∀ x, Progresses (fun y => y.isSome = true) (step x)) (h : r x y) :
    Phrase δ strict spot false spot.inside r (Production.iterate step x)
      (Production.iterate step' y)
  | nested {spot : Spot} {closing lands : Bool} {α β : Type} {r : α → β → Prop} {p : Parse α}
    {p' : Parse β} (hp : Phrase δ strict spot closing lands r p p') :
    Phrase δ strict spot closing lands r p.nested p'.nested
  | byRoom {spot : Spot} {closing lands : Bool} {α β : Type} {r : α → β → Prop}
    {p : Nat → Parse α} {p' : Nat → Parse β}
    (hp : ∀ room, Phrase δ strict spot closing lands r (p room) (p' room)) :
    Phrase δ strict spot closing lands r (fun env s => p env.room env s)
      (fun env s => p' env.room env s)
  | mono {spot spot₁ : Spot} {closing lands lands₁ : Bool} {α β : Type} {r : α → β → Prop}
    {p : Parse α} {p' : Parse β} (hp : Phrase δ strict spot closing lands r p p')
    (hspot : ∀ env s, spot₁.Holds env s → spot.Holds env s)
    (hlands : lands₁ = true → lands = true) :
    Phrase δ strict spot₁ closing lands₁ r p p'

end Production

end VisualBasic
