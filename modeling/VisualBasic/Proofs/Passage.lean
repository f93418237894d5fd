import VisualBasic.Proofs.QuietStatements

/-!
# Passages

The whole grammar, taken apart like its quiet part. A *passage* is a pair of productions that are
put together alike from phrases, from blocks that are opened and closed, and from what recovers
where something does not parse. As for phrases, what holds of every production is proved by one
induction.

A passage says whether it closes a block that was open before it. If `part`, what it looks at is
known from the tokens in front of some place, as `Sight.upTo` has it; the looks that search the rest
of the text for the end of a body are not of this kind.

Main definitions:

* `SteadyIn` — what a look tells is the same in two runs, if a part of the tokens is enough for it.
* `Passage` — the rules.
-/

namespace VisualBasic

/-- All tokens agree, or it is enough if a part of them does. -/
def Sight.Suits (part : Bool) : Sight → Prop
  | whole _ => True
  | upTo _ _ => part = true

namespace Production

variable {α β γ : Type}

/-- What a look tells is the same in two runs, where all tokens agree or, if `part`, a part does. -/
def SteadyIn (δ : Nat) (part : Bool) (spot : Spot) (seen : Env → State → α) : Prop :=
  ∀ m env env' s s', Sight.Suits part m → Env.Alike δ m env env' →
    State.Alike δ m env.tokens env'.tokens s s' → m.Reaches s.cursor → spot.Holds env s →
    seen env' s' = seen env s

theorem Steady.steadyIn {δ : Nat} {spot : Spot} {seen : Env → State → α} (h : Steady δ spot seen)
    (part : Bool) : SteadyIn δ part spot seen :=
  fun m env env' s s' _ => h m env env' s s'

/-- While the production runs, one more `If` on a single line is being read. -/
def inSingleLineIf (p : Parse Unit) : Parse Unit := do
  modify fun s => { s with singleLineIfs := s.singleLineIfs + 1 }
  p
  modify fun s => { s with singleLineIfs := s.singleLineIfs - 1 }

/-- `Passage δ part spot closing r p p'`: the productions are put together alike from parts that are
quiet or loud. Where `p` begins is at the spot; if `closing`, it closes the innermost block. What
the two give is related by `r`. -/
inductive Passage (δ : Nat) (part : Bool) : Spot → Bool → {α β : Type} → (α → β → Prop) →
    Parse α → Parse β → Prop
  | quiet {spot : Spot} {lands : Bool} {α β : Type} {r : α → β → Prop} {p : Parse α}
    {p' : Parse β} (hp : Phrase δ false spot false lands r p p') :
    Passage δ part spot false r p p'
  | bind {spot : Spot} {closing : Bool} {α α' β β' : Type} {r : α → α' → Prop}
    {r' : β → β' → Prop} {p : Parse α} {p' : Parse α'} {k : α → Parse β}
    {k' : α' → Parse β'} [Partnered r] (hp : Passage δ part spot false r p p')
    (hk : ∀ a a', r a a' → Passage δ part (.plain false) closing r' (k a) (k' a')) :
    Passage δ part spot closing r' (p >>= k) (p' >>= k')
  | behind {spot : Spot} {closing lands : Bool} {α α' β β' : Type} {r : α → α' → Prop}
    {r' : β → β' → Prop} {p : Parse α} {p' : Parse α'} {k : α → Parse β}
    {k' : α' → Parse β'} [Partnered r] (hp : Phrase δ false spot false lands r p p')
    (hk : ∀ a a', r a a' → Passage δ part (.plain lands) closing r' (k a) (k' a')) :
    Passage δ part spot closing r' (p >>= k) (p' >>= k')
  | behindOne {inside inside₁ closing lands : Bool} {c : TokenKind → Bool}
    {cs : List (TokenKind → Bool)} {α α' β β' : Type} {r : α → α' → Prop} {r' : β → β' → Prop}
    {p : Parse α} {p' : Parse α'} {k : α → Parse β} {k' : α' → Parse β'}
    [Partnered r] (hp : Phrase δ false ⟨inside, c :: cs⟩ false lands r p p')
    (hone : ReadsNext p) (hc : c .endOfFile = false) (hinside : inside₁ = true → IsInnerClass c)
    (hk : ∀ a a', r a a' → Passage δ part ⟨inside₁, cs⟩ closing r' (k a) (k' a')) :
    Passage δ part ⟨inside, c :: cs⟩ closing r' (p >>= k) (p' >>= k')
  | checked {spot : Spot} {closing : Bool} {β β' : Type} {r : β → β' → Prop}
    {k : Unit → Parse β} {k' : Unit → Parse β'}
    (hk : Passage δ part spot closing r (k ()) (k' ())) :
    Passage δ part spot closing r (checkDepth >>= k) (checkDepth >>= k')
  | look {spot : Spot} {closing : Bool} {α β β' : Type} {r : β → β' → Prop} {p : Parse α}
    {seen : Env → State → α} {k : α → Parse β} {k' : α → Parse β'} (hp : Looks p seen)
    (hseen : SteadyIn δ part spot seen) (next : α → Spot)
    (hnext : ∀ env s, spot.Holds env s → (next (seen env s)).Holds env s)
    (hk : ∀ a, Passage δ part (next a) closing r (k a) (k' a)) :
    Passage δ part spot closing r (p >>= k) (p >>= k')
  | line {spot : Spot} {closing : Bool} {β β' : Type} {r : β → β' → Prop}
    {k : Nat → Parse β} {k' : Nat → Parse β'}
    (hk : ∀ l l', Passage δ part spot closing r (k l) (k' l')) :
    Passage δ part spot closing r (currentLine >>= k) (currentLine >>= k')
  | opening {spot : Spot} {β β' : Type} {r : β → β' → Prop} {k : Unit → Parse β}
    {k' : Unit → Parse β'} (opener : Keyword) (l l' : Nat)
    (hk : Passage δ part spot true r (k ()) (k' ())) :
    Passage δ part spot false r (openBlockAt opener l >>= k) (openBlockAt opener l' >>= k')
  | closing {spot : Spot} {β β' : Type} {r : β → β' → Prop} {k : Bool → Parse β}
    {k' : Bool → Parse β'} (opener : Keyword)
    (hk : ∀ b, Passage δ part (.plain b) false r (k b) (k' b)) :
    Passage δ part spot true r (closeBlock opener >>= k) (closeBlock opener >>= k')
  | node {spot : Spot} (r : Rule) {body body' : Parse Unit}
    (hbody : Passage δ part spot false Eq body body') :
    Passage δ part spot false (Node.Alike δ) (Production.node r body) (Production.node r body')
  | iterate {spot : Spot} {α β : Type} {r : α → β → Prop} {step : α → Parse (Option α)}
    {step' : β → Parse (Option β)} {x : α} {y : β} [Partnered r]
    (hstep : ∀ x y, r x y →
      Passage δ part (.plain false) false (OptionAlike r) (step x) (step' y))
    (hmoves : ∀ x, Progresses (fun y => y.isSome = true) (step x)) (h : r x y) :
    Passage δ part spot false r (Production.iterate step x) (Production.iterate step' y)
  | nested {spot : Spot} {closing : Bool} {α β : Type} {r : α → β → Prop} {p : Parse α}
    {p' : Parse β} (hp : Passage δ part spot closing r p p') :
    Passage δ part spot closing r p.nested p'.nested
  | byRoom {spot : Spot} {closing : Bool} {α β : Type} {r : α → β → Prop}
    {p : Nat → Parse α} {p' : Nat → Parse β}
    (hp : ∀ room, Passage δ part spot closing r (p room) (p' room)) :
    Passage δ part spot closing r (fun env s => p env.room env s) (fun env s => p' env.room env s)
  | mono {spot spot₁ : Spot} {closing : Bool} {α β : Type} {r : α → β → Prop} {p : Parse α}
    {p' : Parse β} (hp : Passage δ part spot closing r p p')
    (hspot : ∀ env s, spot₁.Holds env s → spot.Holds env s) :
    Passage δ part spot₁ closing r p p'
  | orRecover {spot : Spot} {p p' : Parse Node}
    (hp : Passage δ part spot false (Node.Alike δ) p p') :
    Passage δ part spot false (Node.Alike δ) p.orRecover p'.orRecover
  | recovering {spot : Spot} {lands : Bool} {p p' : Parse Unit}
    (hp : Phrase δ false spot false lands Eq p p') :
    Passage δ part spot false Eq p.recovering p'.recovering
  | unexpected {spot : Spot} (e : Expected) :
    Passage δ part spot false (Node.Alike δ) (Production.unexpected e) (Production.unexpected e)
  | inSingleLineIf {spot : Spot} {p p' : Parse Unit} (hp : Passage δ part spot false Eq p p') :
    Passage δ part spot false Eq p.inSingleLineIf p'.inSingleLineIf
  | noneFits {spot : Spot} (a : Ambiguity) (best best' : Option Failure) :
    Passage δ part spot false (Node.Alike δ) (firstFit a best []) (firstFit a best' [])
  | tryNext {spot : Spot} {a : Ambiguity} {best best' : Option Failure} {x : Alternative}
    {rest : List Alternative} (hviable : SteadyIn δ part spot x.viable)
    (hx : Passage δ part spot false (Node.Alike δ) x.production x.production)
    (hquiet : part = true → rest = [] ∨ ∃ lands,
      Phrase 0 false (.plain false) false lands (Node.Alike 0) x.production x.production)
    (hrest : ∀ best best',
      Passage δ part spot false (Node.Alike δ) (firstFit a best rest) (firstFit a best' rest)) :
    Passage δ part spot false (Node.Alike δ) (firstFit a best (x :: rest))
      (firstFit a best' (x :: rest))

end Production

end VisualBasic
