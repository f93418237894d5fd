import VisualBasic.Proofs.Closing

/-!
# Runs that succeed

What a production makes of tokens that fit it, in every detail: the nodes, the place where it stops
and the state that it leaves. The tokens are given by their kinds, and nothing is said of other
tokens.

* `Reads` — the production attaches the given nodes and stops at the given place, with all else as
  it was.
* `Ends` — the same for a production that leaves the innermost block.
* `Loops` — the same for the rounds of a repetition.

Main results:

* `Reads.bind`, `Ends.bind` — runs are chained.
* `Reads.node` — a run that attaches children is one that gives their node.
* `Loops.more`, `Loops.stop` — what a round adds, and how the rounds end.
* `Ends.closeBlock` — the closing line of the innermost block.
-/

namespace VisualBasic

-- ---------------------------------------------------------------------------
-- Nodes over tokens
-- ---------------------------------------------------------------------------

namespace TokenStream

/-- The leaf of a rule that a token becomes. -/
def ruleLeaf (t : TokenStream) (r : Rule) (i : Nat) : Node := .leaf (.rule r) (t.get i).span i

/-- The anonymous leaf that a token becomes. -/
def tokenLeaf (t : TokenStream) (i : Nat) : Node := .leaf (.token (t.kindAt i)) (t.get i).span i

/-- The node of a rule over the tokens from `i` up to `j`. -/
def node (t : TokenStream) (r : Rule) (i j : Nat) (children : List Node) : Node :=
  .finish (.rule r) (t.spanFrom i j) i false children

/-- The tokens from `i` on have the given kinds. -/
def Spells (t : TokenStream) (i : Nat) : List TokenKind → Prop
  | [] => True
  | kind :: rest => t.kindAt i = kind ∧ Spells t (i + 1) rest

/-- Whether tokens are of the given kinds can be looked up one by one. -/
instance decidableSpells (t : TokenStream) :
    (i : Nat) → (kinds : List TokenKind) → Decidable (t.Spells i kinds)
  | _, [] => .isTrue trivial
  | i, kind :: rest =>
    have := decidableSpells t (i + 1) rest
    inferInstanceAs (Decidable (t.kindAt i = kind ∧ t.Spells (i + 1) rest))

/-- A row is ahead if its first part is and the rest behind it. -/
theorem spells_append {t : TokenStream} {i : Nat} {ks ls : List TokenKind} :
    t.Spells i (ks ++ ls) ↔ t.Spells i ks ∧ t.Spells (i + ks.length) ls := by
  induction ks generalizing i with
  | nil => simp [Spells]
  | cons k ks ih =>
    rw [List.cons_append, Spells, ih, Spells, and_assoc, List.length_cons, Nat.add_assoc,
      Nat.add_comm 1]

end TokenStream

-- ---------------------------------------------------------------------------
-- Where a production runs
-- ---------------------------------------------------------------------------

/-- Where a production runs: what it can look at, and the blocks that are open. -/
structure Scope where
  env : Env
  blocks : List OpenBlock

namespace Scope

/-- The stream that is read. -/
def tokens (c : Scope) : TokenStream := c.env.tokens

/-- One level deeper. -/
def nested (c : Scope) : Scope := { c with env := { c.env with depth := c.env.depth + 1 } }

/-- In a block that is opened at a token. -/
def opening (c : Scope) (opener : Keyword) (i : Nat) : Scope :=
  { c with blocks := ⟨opener, (c.tokens.get i).point.line⟩ :: c.blocks }

/-- Behind the innermost block. -/
def closed (c : Scope) : Scope := { c with blocks := c.blocks.tail }

end Scope

namespace State

/-- The state is in a scope, at a place among the tokens. -/
structure At (s : State) (c : Scope) (i : Nat) : Prop where
  cursor : s.cursor = i
  blocks : s.blocks = c.blocks

/-- The state at a later place, with new children. -/
def reach (s : State) (j : Nat) (cs : List Node) : State :=
  { s with cursor := j, children := cs.reverse ++ s.children }

variable {s : State} {c : Scope} {i j k : Nat}

/-- A place that is reached is a place of the same scope. -/
theorem At.reach (h : s.At c i) (j : Nat) (cs : List Node) : (s.reach j cs).At c j :=
  ⟨rfl, h.blocks⟩

/-- To stay is to reach the same place with nothing attached. -/
theorem At.eq_reach (h : s.At c i) : s = s.reach i [] := by
  obtain ⟨rfl, -⟩ := h
  rfl

/-- Reaching one place after the other attaches one row behind the other. -/
theorem reach_reach (s : State) (cs ds : List Node) :
    (s.reach j cs).reach k ds = s.reach k (cs ++ ds) := by
  unfold State.reach
  rw [List.reverse_append, List.append_assoc]

end State

namespace Production

open State

variable {α β : Type} {c : Scope} {i j k : Nat} {cs ds : List Node} {a : α} {b : β} {x : Node}
  {kind : TokenKind}

/-- Looking for a row of kinds finds it exactly where it is. -/
theorem hasAhead_iff_spells {env : Env} {s : State} {kinds : List TokenKind} :
    env.hasAhead s kinds = true ↔ env.tokens.Spells s.cursor kinds := by
  induction kinds generalizing s with
  | nil => exact iff_of_true (hasAhead_nil env s) trivial
  | cons kind kinds ih => rw [hasAhead_cons, ih, TokenStream.Spells, Env.kind]

-- ---------------------------------------------------------------------------
-- Runs and their chains
-- ---------------------------------------------------------------------------

/-- The production gives `a`, reads the tokens from `i` up to `j` and attaches the nodes `cs`. -/
def Reads (c : Scope) (i j : Nat) (cs : List Node) (a : α) (p : Parse α) : Prop :=
  ∀ s : State, s.At c i → p c.env s = .ok a (s.reach j cs)

/-- The production reads the tokens from `i` up to `j`, attaches the nodes `cs` and leaves the
innermost block. -/
def Ends (c : Scope) (i j : Nat) (cs : List Node) (p : Parse Unit) : Prop :=
  ∀ s : State, s.At c i → p c.env s = .ok () { s.reach j cs with blocks := s.blocks.tail }

/-- What is read first is attached first. -/
theorem Ends.bind {p : Parse α} {f : α → Parse Unit} (hp : Reads c i j cs a p)
    (hf : Ends c j k ds (f a)) : Ends c i k (cs ++ ds) (p >>= f) := by
  intro s hs
  rw [run_bind, hp s hs]
  dsimp only
  rw [hf _ (hs.reach j cs), State.reach_reach]
  rfl

namespace Reads

theorem pure (a : α) : Reads c i i [] a (Pure.pure a) := by
  intro s hs
  rw [← hs.eq_reach]
  rfl

/-- Two readings one behind the other, with what they attach. -/
theorem bind {p : Parse α} {f : α → Parse β} (hp : Reads c i j cs a p)
    (hf : Reads c j k ds b (f a)) : Reads c i k (cs ++ ds) b (p >>= f) := by
  intro s hs
  rw [run_bind, hp s hs]
  dsimp only
  rw [hf _ (hs.reach j cs), State.reach_reach]

theorem map {p : Parse α} (f : α → β) (hp : Reads c i j cs a p) :
    Reads c i j cs (f a) (f <$> p) := by
  intro s hs
  rw [map_eq_pure_bind, run_bind, hp s hs]
  rfl

theorem nested {p : Parse α} (hp : Reads c.nested i j cs a p) :
    Reads c i j cs a p.nested :=
  fun s hs => hp s ⟨hs.cursor, hs.blocks⟩

/-- With a level left the look at the limit succeeds. -/
theorem checkDepth (h : c.env.depth < c.env.limit) : Reads c i i [] () Production.checkDepth := by
  intro s hs
  rw [← hs.eq_reach, Production.checkDepth, if_neg (Nat.not_le_of_lt h)]

/-! ### Looking -/

/-- What is seen at a place is known. -/
theorem look {p : Parse α} {seen : Env → State → α} {f : α → Parse β} (hp : Looks p seen)
    (hseen : ∀ s : State, s.At c i → seen c.env s = a) (hf : Reads c i j cs b (f a)) :
    Reads c i j cs b (p >>= f) := by
  intro s hs
  rw [hp.run_bind, hseen s hs]
  exact hf s hs

theorem kind_eq (h : c.tokens.kindAt i = kind) {s : State} (hs : s.At c i) :
    c.env.kind s = kind := by
  rw [← h, Env.kind, hs.cursor]
  rfl

/-- The kind of the token at a place is known. -/
theorem peek {f : TokenKind → Parse β} (h : c.tokens.kindAt i = kind)
    (hf : Reads c i j cs b (f kind)) : Reads c i j cs b (Production.peek >>= f) :=
  look Looks.peek (fun _ => kind_eq h) hf

theorem kindAhead_eq {n : Nat} (h : c.tokens.kindAt (i + n) = kind) {s : State} (hs : s.At c i) :
    c.env.kindAhead s n = kind := by
  rw [← h, Env.kindAhead, hs.cursor]
  rfl

theorem peekAhead {n : Nat} {f : TokenKind → Parse β} (h : c.tokens.kindAt (i + n) = kind)
    (hf : Reads c i j cs b (f kind)) : Reads c i j cs b (Production.peekAhead n >>= f) :=
  look (Looks.peekAhead n) (fun _ => kindAhead_eq h) hf

theorem atKind {f : Bool → Parse β} (h : c.tokens.kindAt i = kind)
    (hf : Reads c i j cs b (f true)) : Reads c i j cs b (Production.atKind kind >>= f) :=
  look (Looks.test _) (fun _ hs => beq_iff_eq.2 (kind_eq h hs)) hf

/-- Any other kind is not found. -/
theorem notAtKind {f : Bool → Parse β} (h : c.tokens.kindAt i ≠ kind)
    (hf : Reads c i j cs b (f false)) : Reads c i j cs b (Production.atKind kind >>= f) := by
  refine look (Looks.test _) (fun s hs => ?_) hf
  rw [kind_eq rfl hs]
  exact beq_eq_false_iff_ne.2 h

/-- Of two branches the one is read whose condition holds. -/
theorem pos {P : Prop} [Decidable P] {p q : Parse α} (h : P) (hp : Reads c i j cs a p) :
    Reads c i j cs a (if P then p else q) := by
  rwa [if_pos h]

theorem neg {P : Prop} [Decidable P] {p q : Parse α} (h : ¬P) (hq : Reads c i j cs a q) :
    Reads c i j cs a (if P then p else q) := by
  rwa [if_neg h]

/-! ### Tokens -/

/-- A leaf is built of the token, and the place moves on. -/
theorem leaf (nodeKind : NodeKind) (h : c.tokens.kindAt i ≠ .endOfFile) :
    Reads c i (i + 1) [] (.leaf nodeKind (c.tokens.get i).span i) (Production.leaf nodeKind) := by
  intro s hs
  obtain ⟨rfl, -⟩ := hs
  have hnext : c.env.next s.cursor = s.cursor + 1 :=
    Env.next_eq_succ h
  unfold Production.leaf
  rw [hnext]
  rfl

theorem ruleLeaf (r : Rule) (h : c.tokens.kindAt i ≠ .endOfFile) :
    Reads c i (i + 1) [] (c.tokens.ruleLeaf r i) (Production.ruleLeaf r) :=
  leaf (.rule r) h

theorem tokenLeaf (h : c.tokens.kindAt i ≠ .endOfFile) :
    Reads c i (i + 1) [] (c.tokens.tokenLeaf i) Production.tokenLeaf :=
  peek rfl (leaf _ h)

/-- A token that may be a name is read as one. -/
theorem identifier (h : (c.tokens.kindAt i).isNameLike = true) :
    Reads c i (i + 1) [] (c.tokens.ruleLeaf .identifier i) Production.identifier :=
  peek rfl (pos h (ruleLeaf _ (TokenKind.ne_endOfFile_of h rfl)))

/-! ### Children -/

/-- What is attached is added behind the rest. -/
theorem attach (x : Node) : Reads c i i [x] () (Production.attach x) := by
  intro s hs
  obtain ⟨rfl, -⟩ := hs
  rfl

/-- A node is read and attached. -/
theorem child {p : Parse Node} (hp : Reads c i j [] x p) : Reads c i j [x] () p.child :=
  hp.bind (attach x)

/-- The same with a role. -/
theorem field (f : Field) {p : Parse Node} (hp : Reads c i j [] x p) :
    Reads c i j [x.inField f] () (Production.field f p) :=
  hp.bind (attach _)

/-- A token is attached. -/
theorem take (h : c.tokens.kindAt i ≠ .endOfFile) :
    Reads c i (i + 1) [c.tokens.tokenLeaf i] () Production.take :=
  (tokenLeaf h).child

theorem takeWord {word : Keyword} (h : c.tokens.kindAt i = .keyword word) :
    Reads c i (i + 1) [c.tokens.tokenLeaf i] () Production.take :=
  take (h ▸ nofun)

theorem expect (h : c.tokens.kindAt i = kind) (hkind : kind ≠ .endOfFile) :
    Reads c i (i + 1) [c.tokens.tokenLeaf i] () (Production.expect kind) :=
  atKind h (pos rfl (take (h ▸ hkind)))

theorem accept (h : c.tokens.kindAt i = kind) (hkind : kind ≠ .endOfFile) :
    Reads c i (i + 1) [c.tokens.tokenLeaf i] true (Production.accept kind) :=
  atKind h (pos rfl ((take (h ▸ hkind)).bind (pure true)))

/-- A token that is not there is not missed. -/
theorem acceptNone (h : c.tokens.kindAt i ≠ kind) :
    Reads c i i [] false (Production.accept kind) :=
  notAtKind h (neg nofun (pure false))

/-! ### Nodes -/

/-- What the body attaches is the node's. -/
theorem construct {r : Rule} {body : Parse Unit} (h : Reads c i j cs () body) (first : Nat) :
    Reads c i j [] (c.tokens.node r first j cs) (Production.construct r first body) := by
  intro s hs
  rw [Parse.construct_eq]
  rw [h { s with children := [], isPartial := false } ⟨hs.cursor, hs.blocks⟩]
  dsimp only [State.reach]
  rw [List.append_nil, List.reverse_reverse]
  rfl

theorem node {r : Rule} {body : Parse Unit} (h : Reads c i j cs () body)
    (hx : x = c.tokens.node r i j cs) : Reads c i j [] x (Production.node r body) := by
  intro s hs
  have hrun := construct h (r := r) i s hs
  rw [hx, ← hrun, ← hs.cursor]
  rfl

/-- The same of a node that begins with one that has been read. -/
theorem nodeFrom {r : Rule} {first : Node} {body : Parse Unit} (h : Reads c i j cs () body)
    (hx : x = c.tokens.node r first.info.firstToken j cs) :
    Reads c i j [] x (Production.nodeFrom first r body) := by
  rw [hx]
  exact construct h _

/-- A wrapper around what has been read. -/
theorem wrap (r : Rule) (first : Node)
    (hx : x = c.tokens.node r first.info.firstToken i [first]) :
    Reads c i i [] x (Production.wrap r first) :=
  nodeFrom (attach first) hx

/-! ### Ends of statements and recovery -/

/-- The end of a statement is passed. -/
theorem endStatement (h : (c.tokens.kindAt i).isTerminator = true) :
    Reads c i (i + 1) [] () Production.endStatement := by
  refine peek rfl (pos h fun s hs => ?_)
  obtain ⟨rfl, -⟩ := hs
  have hend := TokenKind.ne_endOfFile_of h rfl
  have hnext : c.env.next s.cursor = s.cursor + 1 :=
    Env.next_eq_succ hend
  unfold skip
  rw [hnext]
  rfl

theorem endLine (h : c.tokens.kindAt i = .newline) :
    Reads c i (i + 1) [] () Production.endStatement :=
  endStatement (h ▸ rfl)

/-- What succeeds is not recovered. -/
theorem orRecover {p : Parse Node} (hp : Reads c i j [] x p) :
    Reads c i j [] x p.orRecover := by
  intro s hs
  rw [Parse.orRecover_eq, hp s hs]

theorem recovering {p : Parse Unit} (hp : Reads c i j cs () p) :
    Reads c i j cs () p.recovering := by
  intro s hs
  rw [Production.recovering, hp s hs]

/-! ### Ambiguities -/

/-- A rule that can be ruled out is passed over. -/
theorem firstFitNext {a : Ambiguity} {best : Option Failure} {first : Alternative}
    {rest : List Alternative} (hviable : ∀ s : State, s.At c i → first.viable c.env s = false)
    (h : Reads c i j [] x (Production.firstFit a best rest)) :
    Reads c i j [] x (Production.firstFit a best (first :: rest)) := by
  intro s hs
  rw [Parse.firstFit_cons_eq, hviable s hs]
  exact h s hs

/-- A rule that fits is taken. -/
theorem firstFit {a : Ambiguity} {best : Option Failure} {first : Alternative}
    {rest : List Alternative} (hviable : ∀ s : State, s.At c i → first.viable c.env s = true)
    (h : Reads c i j [] x first.production) :
    Reads c i j [] x (Production.firstFit a best (first :: rest)) :=
  fun s hs => firstFit_cons_of_fits (hviable s hs) (h s hs)

end Reads

-- ---------------------------------------------------------------------------
-- Repetition
-- ---------------------------------------------------------------------------

/-- The rounds of a repetition from `x` to `y`: they stop by themselves, so that it does not matter
how many rounds are allowed, if there may be one for each token. -/
def Loops (c : Scope) (i j : Nat) (cs : List Node) (x y : α) (step : α → Parse (Option α)) :
    Prop :=
  ∀ fuel, c.tokens.size - i ≤ fuel → Reads c i j cs y (iterateUpTo step fuel x)

namespace Loops

variable {step : α → Parse (Option α)} {x y z : α}

/-- The loop ends when a round gives nothing more. -/
theorem stop (h : Reads c i i [] none (step x)) : Loops c i i [] x x step := by
  intro fuel _
  cases fuel with
  | zero => exact Reads.pure x
  | succ fuel =>
    rw [iterateUpTo_succ]
    exact h.bind (Reads.pure x)

/-- One more round, which has to move on. -/
theorem more (h : Reads c i j cs (some y) (step x)) (hij : i < j)
    (hi : c.tokens.kindAt i ≠ .endOfFile) (hrest : Loops c j k ds y z step) :
    Loops c i k (cs ++ ds) x z step := by
  intro fuel hfuel
  have hlt := TokenStream.lt_size_of_kindAt_ne hi
  unfold TokenStream.size at hfuel
  cases fuel with
  | zero => omega
  | succ fuel =>
    have hrounds : c.tokens.size - j ≤ fuel := by
      unfold TokenStream.size
      omega
    rw [iterateUpTo_succ]
    exact h.bind (hrest fuel hrounds)

/-- The bound on the rounds is as large as what is left of the stream, so it is not reached. -/
theorem reads (h : Loops c i j cs x y step) : Reads c i j cs y (iterate step x) := by
  intro s hs
  rw [iterate, hs.cursor]
  exact h _ (Nat.le_refl _) s hs

end Loops

/-- The rounds of a repetition that goes on for as long as its step says so. -/
def Rounds (c : Scope) (i j : Nat) (cs : List Node) (step : Parse Bool) : Prop :=
  Loops c i j cs () () fun _ => do return if ← step then some () else none

namespace Rounds

variable {step : Parse Bool}

/-- The same of a loop without a value. -/
theorem stop (h : Reads c i i [] false step) : Rounds c i i [] step :=
  Loops.stop (h.bind (.pure none))

theorem more (h : Reads c i j cs true step) (hij : i < j) (hi : c.tokens.kindAt i ≠ .endOfFile)
    (hrest : Rounds c j k ds step) : Rounds c i k (cs ++ ds) step := by
  have hround : Reads c i j (cs ++ []) (some ()) (do return if ← step then some () else none) :=
    h.bind (.pure (some ()))
  rw [List.append_nil] at hround
  exact Loops.more hround hij hi hrest

theorem reads (h : Rounds c i j cs step) : Reads c i j cs () (repeatWhile step) := Loops.reads h

end Rounds

/-- Behind a single item there is no comma. -/
theorem Reads.commaSeparated {item : Parse Unit} (hitem : Reads c i j cs () item)
    (h : c.tokens.kindAt j ≠ .mark .comma) :
    Reads c i j cs () (Production.commaSeparated item) := by
  have hnone : Reads c j j [] false (do
      if ← acceptMark .comma then
        item
        return true
      return false) :=
    (Reads.acceptNone h).bind (.neg nofun (.pure false))
  have hitems := hitem.bind (Rounds.stop hnone).reads
  rwa [List.append_nil] at hitems

-- ---------------------------------------------------------------------------
-- Blocks
-- ---------------------------------------------------------------------------

/-- A block that is opened and left is one that is open no more. -/
theorem Reads.openBlock {opener : Keyword} {p : Unit → Parse Unit}
    (h : Ends (c.opening opener i) i j cs (p ())) :
    Reads c i j cs () (Production.openBlock opener >>= p) := by
  intro s hs
  obtain ⟨rfl, hblocks⟩ := hs
  have hopened : State.At { s with blocks := ⟨opener, c.env.line s⟩ :: s.blocks }
      (c.opening opener s.cursor) s.cursor := by
    refine ⟨rfl, ?_⟩
    rw [hblocks]
    rfl
  exact h _ hopened

/-- The innermost block is left by its closing line, and what may follow the words of that. -/
theorem Ends.closeBlock {opener : Keyword} {p : Parse Unit}
    (h : c.tokens.Spells i (opener.closer.map .keyword))
    (hp : Reads c.closed (i + opener.closer.length) k ds () p) :
    Ends c i k (wordLeaves c.tokens opener.closer i ++ ds)
      (Production.closeBlock opener >>= fun x => if x = true then p else Pure.pure ()) := by
  intro s hs
  obtain ⟨rfl, hblocks⟩ := hs
  have hcloser : c.env.atCloser s opener = true := hasAhead_iff_spells.2 h
  obtain ⟨-, hclose⟩ := run_closeBlock hcloser
  have hclosed : State.At { s with
      cursor := s.cursor + opener.closer.length
      children := (wordLeaves c.tokens opener.closer s.cursor).reverse ++ s.children
      blocks := s.blocks.tail } c.closed (s.cursor + opener.closer.length) :=
    ⟨rfl, congrArg List.tail hblocks⟩
  rw [run_bind, hclose]
  refine (hp _ hclosed).trans ?_
  simp only [State.reach, List.reverse_append, List.append_assoc]

/-- The closing line of a block with nothing behind its words. -/
theorem Ends.finishBlock {opener : Keyword} (h : c.tokens.Spells i (opener.closer.map .keyword))
    (hend : (c.tokens.kindAt (i + opener.closer.length)).isTerminator = true) :
    Ends c i (i + opener.closer.length + 1) (wordLeaves c.tokens opener.closer i)
      (Production.finishBlock opener) := by
  have hclose := Ends.closeBlock h (Reads.endStatement (c := c.closed) hend).recovering
  rwa [List.append_nil] at hclose

end Production

end VisualBasic
