import VisualBasic.Proofs.Aside
import VisualBasic.Proofs.Phrase

/-!
# Two ways to build

The grammar says how nodes are put together and leaves it to a builder how they are kept. So each of
its productions comes twice: with nodes kept in some way, and with nodes as values. The two are put
together alike, and what is said of such a pair is said by one induction over the ways of putting
productions together, which are the rules of `Mirrors`; the grammar is gone through once for all of
it.

Where nodes are values, the same node could be attached twice, or a node that was given up. That
this does not happen is part of what the rules say: a production begins with at most one finished
node that is not attached yet, the one *in hand*, and it tells which one it leaves behind.

Main definitions:

* `State.Agrees` — two states are alike in all but what is built.
* `Mirrors` — the rules.
-/

namespace VisualBasic

/-- The finished node that is not attached yet, by what stands for it and by its value. -/
abbrev Hand (N : Type) : Type := Option (N × Node)

section

variable {B N : Type}

/-- Two states are alike in all but what is built. -/
structure State.Agrees (s : State B) (t : State) : Prop where
  cursor : t.cursor = s.cursor
  isPartial : t.isPartial = s.isPartial
  diagnostics : t.diagnostics = s.diagnostics
  blocks : t.blocks = s.blocks
  singleLineIfs : t.singleLineIfs = s.singleLineIfs

/-- A state with the node under construction left out. -/
def State.bare (s : State B) : State :=
  { cursor := s.cursor, isPartial := s.isPartial, diagnostics := s.diagnostics, blocks := s.blocks
    singleLineIfs := s.singleLineIfs }

theorem State.agrees_bare (s : State B) : s.Agrees s.bare := ⟨rfl, rfl, rfl, rfl, rfl⟩

end

namespace Production

variable {B N : Type} {α β α' β' : Type}

-- ---------------------------------------------------------------------------
-- What two productions give
-- ---------------------------------------------------------------------------

/-- The two give the same, and the node in hand stays there. -/
def Plain (h : Hand N) (a b : α) (k : Hand N) : Prop := b = a ∧ k = h

/-- What the two give is in hand. -/
def Given (i : N) (n : Node) (k : Hand N) : Prop := k = some (i, n)

/-- The two give something that is related, or both give nothing, and what was in hand stays
there. -/
def Perhaps (r : α → β → Hand N → Prop) (h : Hand N) : Option α → Option β → Hand N → Prop
  | none, none, k => k = h
  | some a, some b, k => r a b k
  | _, _, _ => False

-- ---------------------------------------------------------------------------
-- What is asked of the parts
-- ---------------------------------------------------------------------------

/-- A run that succeeds with something `good` reads a token, wherever it begins. -/
def Moves (good : α → Prop) (p : Parse α) : Prop :=
  ∀ env s a s', s.cursor ≤ env.tokens.tokens.size → p env s = .ok a s' → good a →
  s.cursor < s'.cursor

/-- What the production has done when it fails is undone by going back, and the node under
construction is as it was. -/
def Undone (p : Parse α) : Prop :=
  ∀ env s f s', p env s = .error f s' → s'.restore s.checkpoint = s ∧ s'.children = s.children

-- ---------------------------------------------------------------------------
-- The rules
-- ---------------------------------------------------------------------------

variable [Builder B N]

/-- `Mirrors h r p q`: the productions are put together alike. Both begin with the node `h` in hand,
if there is one; what they give is related by `r`, which also tells what they leave in hand. -/
inductive Mirrors : Hand N → {α β : Type} → (α → β → Hand N → Prop) → Production B α →
    Parse β → Prop
  | pure {h : Hand N} {α β : Type} {r : α → β → Hand N → Prop} {a : α} {b : β} (hr : r a b h) :
    Mirrors h r (Pure.pure a) (Pure.pure b)
  | bind {h : Hand N} {α β α' β' : Type} {r : α → β → Hand N → Prop} {r' : α' → β' → Hand N → Prop}
    {p : Production B α} {q : Parse β} {f : α → Production B α'} {g : β → Parse β'}
    (hp : Mirrors h r p q) (hf : ∀ a b k, r a b k → Mirrors k r' (f a) (g b)) :
    Mirrors h r' (p >>= f) (q >>= g)
  /-- What only looks. -/
  | look {h : Hand N} {α : Type} {p : Production B α} {q : Parse α} {seen : Env → State B → α}
    {seen' : Env → State → α} (hp : ∀ env s, p env s = .ok (seen env s) s)
    (hq : ∀ env t, q env t = .ok (seen' env t) t)
    (hseen : ∀ env s t, s.Agrees t → seen' env t = seen env s) : Mirrors h (Plain h) p q
  | isRule {i : N} {n : Node} (rules : List Rule) :
    Mirrors (some (i, n)) (Plain (some (i, n))) (Production.isRule i rules)
    (Production.isRule n rules)
  /-- What changes the state, but nothing of what is built. -/
  | change {h : Hand N} {p : Production B Unit} {q : Parse Unit} {f : Env → State B → State B}
    {g : Env → State → State} (hp : ∀ env s, p env s = .ok () (f env s))
    (hq : ∀ env t, q env t = .ok () (g env t))
    (hagrees : ∀ env s t, s.Agrees t → (f env s).Agrees (g env t))
    (hkept : ∀ env s, (f env s).children = s.children)
    (hkept' : ∀ env t, (g env t).children = t.children)
    (hcursor : ∀ env t, t.cursor ≤ env.tokens.tokens.size →
      t.cursor ≤ (g env t).cursor ∧ (g env t).cursor ≤ env.tokens.tokens.size) :
    Mirrors h (Plain h) p q
  /-- What does not apply. -/
  | refuse {h : Hand N} {α β : Type} {r : α → β → Hand N → Prop} {p : Production B α} {q : Parse β}
    {f : Env → State B → Failure} {g : Env → State → Failure}
    (hp : ∀ env s, p env s = .error (f env s) s)
    (hq : ∀ env t, q env t = .error (g env t) t) (hf : ∀ env s t, s.Agrees t → g env t = f env s) :
    Mirrors h r p q
  | checkDepth {h : Hand N} : Mirrors h (Plain h) Production.checkDepth Production.checkDepth
  | leaf (kind : NodeKind) : Mirrors none Given (Production.leaf kind) (Production.leaf kind)
  | attach {i : N} {n : Node} :
    Mirrors (some (i, n)) (Plain none) (Production.attach i) (Production.attach n)
  | attachIn {i : N} {n : Node} (f : Field) :
    Mirrors (some (i, n)) (Plain none) (Production.attachIn f i) (Production.attachIn f n)
  | node (r : Rule) {body : Production B Unit} {body' : Parse Unit}
    (hbody : Mirrors none (Plain none) body body') :
    Mirrors none Given (Production.node r body) (Production.node r body')
  | nodeFrom {i : N} {n : Node} (r : Rule) {body : Production B Unit} {body' : Parse Unit}
    (hbody : Mirrors (some (i, n)) (Plain none) body body') :
    Mirrors (some (i, n)) Given (Production.nodeFrom i r body) (Production.nodeFrom n r body')
  | iterate {h : Hand N} {α β : Type} {r : α → β → Hand N → Prop}
      {step : α → Production B (Option α)}
    {step' : β → Parse (Option β)} {x : α} {y : β}
    (hstep : ∀ x y k, r x y k → Mirrors k (Perhaps r k) (step x) (step' y))
    (hmoves : ∀ y, Moves (fun z => z.isSome = true) (step' y)) (hr : r x y h) :
    Mirrors h r (Production.iterate step x) (Production.iterate step' y)
  | nested {h : Hand N} {α β : Type} {r : α → β → Hand N → Prop} {p : Production B α} {q : Parse β}
    (hp : Mirrors h r p q) : Mirrors h r p.nested q.nested
  /-- A production that is chosen by the place where it runs. -/
  | choose {h : Hand N} {α β : Type} {r : α → β → Hand N → Prop}
    (p : Env → State B → Production B α) (q : Env → State → Parse β)
    (hp : ∀ env s t, s.Agrees t → Mirrors h r (p env s) (q env t)) :
    Mirrors h r (fun env s => p env s env s) (fun env t => q env t env t)
  | orRecover {p : Production B N} {q : Parse Node} (hp : Mirrors none Given p q) (hq : Undone q) :
    Mirrors none Given p.orRecover q.orRecover
  | recovering {p : Production B Unit} {q : Parse Unit} (hp : Mirrors none (Plain none) p q) :
    Mirrors none (Plain none) p.recovering q.recovering
  | unexpected (e : Expected) :
    Mirrors none Given (Production.unexpected e) (Production.unexpected e)
  | noneFits (a : Ambiguity) (best : Option Failure) :
    Mirrors none Given (firstFit a best []) (firstFit a best [])
  | tryNext {a : Ambiguity} {x : Alternative B N} {y : Alternative} {rest : List (Alternative B N)}
    {rest' : List Alternative} {best : Option Failure}
    (hviable : ∀ env s t, s.Agrees t → y.viable env t = x.viable env s)
    (hx : Mirrors none Given x.production y.production) (hy : Undone y.production)
    (hrest : ∀ best, Mirrors none Given (firstFit a best rest) (firstFit a best rest')) :
    Mirrors none Given (firstFit a best (x :: rest)) (firstFit a best (y :: rest'))

end Production

end VisualBasic
