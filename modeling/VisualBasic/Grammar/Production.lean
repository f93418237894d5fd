import VisualBasic.Syntax.Diagnostic
import VisualBasic.Syntax.Node

/-!
# Productions

A production reads tokens and builds a node. It works on a state that has everything a parse can
change: the place among the tokens, the children gathered for the node under construction, the
diagnostics so far, and the blocks that are open.

How nodes are kept is left to a `Builder`. Where they are values, trying a production and going back
is keeping the old state; where they are in a store that grows, going back is cutting what has
grown.

A production that fails gives the state it had reached together with the failure. Most callers drop
that state; a header that is covered by an error region keeps what it had read.

Main results:

* `NeverFails.orRecover` and `NeverFails.recovering` — what recovers from failures does not fail.
* `Production.firstFit_cons_of_fits` — an ambiguity takes the first rule that can apply and fits.
-/

namespace VisualBasic

/-- A block that is not closed yet: the word that opens it and the line of its opening. -/
structure OpenBlock where
  opener : Keyword
  line : Nat
  deriving DecidableEq, Repr, Inhabited

/-- What a production can look at but not change. -/
structure Env where
  source : List Char
  tokens : TokenStream
  /-- How deep productions may nest. -/
  limit : Nat
  /-- How deep this production is nested. -/
  depth : Nat := 0

/-- What a parse can change. `B` is what it builds on: the children of the node under construction
and, where nodes are kept apart from each other, all nodes that are finished. -/
structure State (B : Type := List Node) where
  /-- The index of the next token. -/
  cursor : Nat := 0
  /-- What is built on. -/
  children : B := by exact []
  /-- Whether the node under construction is known to lack its closing line. -/
  isPartial : Bool := false
  /-- The diagnostics so far, the latest first. -/
  diagnostics : List Diagnostic := []
  /-- The blocks that are open, the innermost first. -/
  blocks : List OpenBlock := []
  /-- How many single-line `If` statements are being read. -/
  singleLineIfs : Nat := 0

/-! ## Checkpoints -/

/-- What only grows at its end as nodes are built, and can be cut to a length it had before. -/
class Store (B : Type) where
  size : B → Nat
  cut : Nat → B → B
  /-- Notes that a repetition was cut off after as many steps as it may have. -/
  runOut : B → B

/-- What is noted of a state before a production is tried. -/
structure Checkpoint where
  cursor : Nat
  /-- How much has been built. -/
  children : Nat
  diagnostics : Nat
  blocks : Nat
  singleLineIfs : Nat

namespace State

variable {B : Type} [Store B]

def checkpoint (s : State B) : Checkpoint :=
  ⟨s.cursor, Store.size s.children, s.diagnostics.length, s.blocks.length, s.singleLineIfs⟩

/-- Goes back to a checkpoint: of what has grown, the latest is cut off. -/
def restore (s : State B) (c : Checkpoint) : State B :=
  { s with
    cursor := c.cursor
    children := Store.cut c.children s.children
    diagnostics := s.diagnostics.drop (s.diagnostics.length - c.diagnostics)
    blocks := s.blocks.drop (s.blocks.length - c.blocks)
    singleLineIfs := c.singleLineIfs }

end State

/-! ## Builders -/

/-- A way to build nodes on `B`; `N` is what stands for a finished node. -/
class Builder (B : Type) (N : outParam Type) extends Store B where
  /-- A finished leaf made from a single token. -/
  leaf (kind : NodeKind) (span : Span) (token : Nat) (b : B) : N × B
  /-- A finished region that fits no rule. -/
  error (span : Span) (firstToken : Nat) (b : B) : N × B
  /-- A node under construction without children. -/
  start (b : B) : B
  /-- Finishes the node whose children are in `inner`; what goes on is the node around it. -/
  finish (kind : NodeKind) (span : Span) (firstToken : Nat) (isPartial : Bool)
  (inner outer : B) : N × B
  /-- Gives up the node whose children are in `inner`; what is finished stays. -/
  drop (inner outer : B) : B
  /-- Attaches a finished node to the node under construction. -/
  attach (n : N) (b : B) : B
  /-- Attaches a finished node in a role. -/
  attachIn (f : Field) (n : N) (b : B) : B
  /-- The first token of a finished node. -/
  firstToken (b : B) (n : N) : Nat
  /-- The kind of a finished node. -/
  kind (b : B) (n : N) : NodeKind
  /-- The state to go on with when what was tried in the state `before` has failed. -/
  back (now before : State B) : State B

/-- Trees are values: what is built on is the children, the latest first, and a state that is kept
is still there when one goes back to it. -/
instance : Builder (List Node) Node where
  size := List.length
  cut n b := b.drop (b.length - n)
  runOut b := b
  leaf kind span token b := (.leaf kind span token, b)
  error span first b := (.error span first, b)
  start _ := []
  finish kind span first isPartial inner outer :=
    (.finish kind span first isPartial inner.reverse, outer)
  drop _ outer := outer
  attach n b := n :: b
  attachIn f n b := n.inField f :: b
  firstToken _ n := n.info.firstToken
  kind _ n := n.kind
  back _ before := before

abbrev Production (B : Type) : Type → Type := ReaderT Env (EStateM Failure (State B))

/-- A production that builds its trees as values. -/
abbrev Parse : Type → Type := Production (List Node)

namespace Env

/-- How many more levels may be nested. -/
def room (env : Env) : Nat := env.limit - env.depth

/-- The span of the tokens from `first` up to the cursor, or the empty span at the cursor if there
are none. -/
def span (env : Env) (first cursor : Nat) : Span :=
  if first < cursor then
    ⟨(env.tokens.get first).span.start, (env.tokens.get (cursor - 1)).span.stop⟩
  else
    ⟨(env.tokens.get cursor).span.start, (env.tokens.get cursor).span.start⟩

/-- The place behind the token at the cursor; nothing is behind the end of the text. -/
def next (env : Env) (cursor : Nat) : Nat := min (cursor + 1) env.tokens.tokens.size

/-- The kind of the token at the cursor. -/
def kind {B : Type} (env : Env) (s : State B) : TokenKind := env.tokens.kindAt s.cursor

/-- The kind of the token `n` places behind the cursor. -/
def kindAhead {B : Type} (env : Env) (s : State B) (n : Nat) : TokenKind :=
  env.tokens.kindAt (s.cursor + n)

/-- The line of the token at the cursor. -/
def line {B : Type} (env : Env) (s : State B) : Nat := (env.tokens.get s.cursor).point.line

end Env

/-- What a failure at a token of this stream says to the user. -/
def Failure.diagnostic (f : Failure) (env : Env) (region : Span) : Diagnostic :=
  let token := env.tokens.get f.index
  let cause := match f.mismatch with
    | .unexpected expected => .unexpected expected token.kind (token.span.slice env.source)
    | .tooDeep depth limit => .tooDeep depth limit
  ⟨cause, region, token.point⟩

namespace Production

variable {α β B N : Type} [Builder B N]

/-! ## Looking -/

/-- What a test says about this place. -/
def test (p : Env → State B → Bool) : Production B Bool := fun env s => .ok (p env s) s

def peek : Production B TokenKind := fun env s => .ok (env.kind s) s

def peekAhead (n : Nat) : Production B TokenKind := fun env s => .ok (env.kindAhead s n) s

def atKind (kind : TokenKind) : Production B Bool := test fun env s => env.kind s == kind

def atWord (word : Keyword) : Production B Bool := atKind (.keyword word)

def currentLine : Production B Nat := fun env s => .ok (env.line s) s

/-- Whether a finished node stands for one of the rules. -/
def isRule (n : N) (rules : List Rule) : Production B Bool :=
  fun _ s => .ok (rules.any (Builder.kind s.children n == .rule ·)) s

/-- The production does not apply: something else is expected here. -/
def fail (expected : Expected) : Production B α :=
  fun _ s => .error ⟨s.cursor, .unexpected expected⟩ s

/-! ## Nesting -/

/-- The production, one level deeper. -/
def nested (p : Production B α) : Production B α :=
  fun env s => p { env with depth := env.depth + 1 } s

/-- The failure of a production at the limit of nesting. -/
def tooDeep : Production B α :=
  fun env s => .error ⟨s.cursor, .tooDeep env.depth env.limit⟩ s

/-- Fails at the limit of nesting and below it. -/
def checkDepth : Production B Unit :=
  fun env s => if env.limit ≤ env.depth then tooDeep env s else .ok () s

/-! ## Reading tokens and building nodes -/

/-- Moves over the token at the cursor. -/
def skip : Production B Unit := fun env s => .ok () { s with cursor := env.next s.cursor }

/-- The token at the cursor, as a leaf. -/
def leaf (kind : NodeKind) : Production B N := fun env s =>
  let made := Builder.leaf kind (env.tokens.get s.cursor).span s.cursor s.children
  .ok made.1 { s with cursor := env.next s.cursor, children := made.2 }

/-- Attaches a finished node to the node under construction. -/
def attach (n : N) : Production B Unit :=
  fun _ s => .ok () { s with children := Builder.attach n s.children }

/-- Attaches a finished node in a role. -/
def attachIn (f : Field) (n : N) : Production B Unit :=
  fun _ s => .ok () { s with children := Builder.attachIn f n s.children }

def child (p : Production B N) : Production B Unit := do attach (← p)

/-- Attaches a node in a role. -/
def field (f : Field) (p : Production B N) : Production B Unit := do attachIn f (← p)

/-- The token at the cursor, as an anonymous leaf. -/
def tokenLeaf : Production B N := do leaf (.token (← peek))

def ruleLeaf (r : Rule) : Production B N := leaf (.rule r)

/-- Attaches the token at the cursor, whatever it is. -/
def take : Production B Unit := child tokenLeaf

/-- Attaches a token of the given kind; there must be one. -/
def expect (kind : TokenKind) : Production B Unit := do
  if ← atKind kind then take else fail (.oneOf [kind])

def expectWord (word : Keyword) : Production B Unit := expect (.keyword word)

def expectMark (mark : Mark) : Production B Unit := expect (.mark mark)

/-- Attaches the mark that ends a list, where a comma would have continued it. -/
def expectEnd (mark : Mark) : Production B Unit := do
  if ← atKind (.mark mark) then take else fail (.oneOf [.mark .comma, .mark mark])

/-- Attaches a token of the given kind if there is one. -/
def accept (kind : TokenKind) : Production B Bool := do
  if ← atKind kind then
    take
    return true
  return false

def acceptWord (word : Keyword) : Production B Bool := accept (.keyword word)

def acceptMark (mark : Mark) : Production B Bool := accept (.mark mark)

/-- A name. -/
def identifier : Production B N := do
  if (← peek).isNameLike then ruleLeaf .identifier else fail .identifier

/-- A name behind a dot, where any word will do. -/
def memberName : Production B N := do
  match ← peek with
  | .identifier | .keyword _ => ruleLeaf .identifier
  | _ => fail .memberName

/-- A node whose first token is the given one and whose children the body attaches. The node it
stands in gets none of them. -/
def construct (r : Rule) (firstToken : Nat) (body : Production B Unit) :
    Production B N := fun env s =>
  match body env { s with children := Builder.start s.children, isPartial := false } with
  | .ok _ s' =>
    let made := Builder.finish (.rule r) (env.span firstToken s'.cursor) firstToken s'.isPartial
      s'.children s.children
    .ok made.1 { s' with children := made.2, isPartial := s.isPartial }
  | .error f s' =>
    .error f
      { s' with children := Builder.drop s'.children s.children, isPartial := s.isPartial }

/-- A node that begins at the cursor. -/
def node (r : Rule) (body : Production B Unit) : Production B N :=
  fun env s => construct r s.cursor body env s

/-- A node that begins with a finished one; the body says how that one is attached. -/
def nodeFrom (first : N) (r : Rule) (body : Production B Unit) : Production B N :=
  fun env s => construct r (Builder.firstToken s.children first) body env s

/-- A node whose only child is the given one. -/
def wrap (r : Rule) (inner : N) : Production B N := nodeFrom inner r (attach inner)

/-! ## Repetition -/

/-- Applies a step to its own result until it gives none. After `n` steps that have given one it is
cut off, of which a note is taken. -/
def iterateUpTo {α B : Type} [Store B] (step : α → Production B (Option α)) :
    Nat → α → Production B α
  | 0, x, _, s => .ok x { s with children := Store.runOut s.children }
  | n + 1, x, env, s =>
    match step x env s with
    | .ok none s' => .ok x s'
    | .ok (some y) s' => iterateUpTo step n y env s'
    | .error f s' => .error f s'

/-- Applies a step to its own result until it gives none. A step that gives a result reads a token,
so the tokens that are left bound the number of steps. -/
def iterate {α B : Type} [Store B] (step : α → Production B (Option α)) (x : α) : Production B α :=
  fun env s => iterateUpTo step (env.tokens.size - s.cursor) x env s

/-- Runs a step for as long as it says so. -/
def repeatWhile {B : Type} [Store B] (step : Production B Bool) : Production B Unit :=
  iterate (fun _ => do return if ← step then some () else none) ()

/-- One item, and another behind every comma. -/
def commaSeparated (item : Production B Unit) : Production B Unit := do
  item
  repeatWhile do
    if ← acceptMark .comma then
      item
      return true
    return false

/-- Moves over line ends. -/
def skipNewlines : Production B Unit :=
  repeatWhile do
    if ← atKind .newline then
      skip
      return true
    return false

/-! ## Ends of statements -/

/-- Whether a statement may end here: at a terminator, at the end of the text, or at the `Else` of a
single-line `If`. -/
def atTerminator : Production B Bool := test fun env s =>
  (env.kind s).endsLine || (env.kind s == .keyword .kwElse && 0 < s.singleLineIfs)

/-- The end of a statement. A terminator is consumed; the end of the text and the `Else` of a
single-line `If` stay. -/
def endStatement : Production B Unit := do
  if (← peek).isTerminator then skip
  else if ← atTerminator then pure ()
  else fail .endOfStatement

/-! ## Recovery -/

/-- The end of the error region that begins at `start`, seen from `index`: behind the next
terminator, or at the end of the text, or at the `Else` of a single-line `If` if the region is not
empty. -/
def regionEnd (env : Env) (inSingleLineIf : Bool) (start index : Nat) : Nat :=
  match env.tokens.kindAt index with
  | .endOfFile => index
  | .newline | .mark .colon => env.next index
  | .keyword .kwElse =>
    if inSingleLineIf && start < index then index
    else if index < env.tokens.tokens.size then regionEnd env inSingleLineIf start (index + 1)
    else index
  | _ =>
    if index < env.tokens.tokens.size then regionEnd env inSingleLineIf start (index + 1)
    else index
termination_by env.tokens.tokens.size - index

/-- An error region from the cursor to the end of the line, with a diagnostic for the failure. -/
def recover (f : Failure) : Production B N := fun env s =>
  let stop := regionEnd env (0 < s.singleLineIfs) s.cursor s.cursor
  let region := env.span s.cursor stop
  let made := Builder.error region s.cursor s.children
  .ok made.1
    { s with
      cursor := stop, children := made.2, diagnostics := f.diagnostic env region :: s.diagnostics }

/-- The production, or, if it fails, an error region in its place, once it has been undone. -/
def orRecover (p : Production B N) : Production B N := fun env s =>
  match p env s with
  | .ok n s' => .ok n s'
  | .error f s' => recover f env (Builder.back s' s)

/-- The production, or, if it fails, what it had attached followed by an error region. -/
def recovering (p : Production B Unit) : Production B Unit := fun env s =>
  match p env s with
  | .ok _ s' => .ok () s'
  | .error f s' => child (recover f) env s'

/-- An error region that says what was expected. -/
def unexpected (expected : Expected) : Production B N :=
  fun env s => recover ⟨s.cursor, .unexpected expected⟩ env s

/-! ## Ambiguities -/

/-- A rule that may apply, and the look ahead that can rule it out. -/
structure Alternative (B : Type := List Node) (N : Type := Node) where
  viable : Env → State B → Bool := fun _ _ => true
  production : Production B N

/-- The first of the rules that can apply and fits. If none does, the failure that got furthest;
`best` is the best one so far. -/
def firstFit (a : Ambiguity) (best : Option Failure) : List (Alternative B N) → Production B N
  | [], _, s => .error (best.getD ⟨s.cursor, .unexpected (.ruleOf a)⟩) s
  | x :: rest, env, s =>
    if x.viable env s then
      match x.production env s with
      | .ok n s' => .ok n s'
      | .error f s' =>
        firstFit a (some (best.elim f (·.furthest f))) rest env (Builder.back s' s)
    else firstFit a best rest env s

/-- Settles an ambiguity by trying its rules in order. -/
def resolve (a : Ambiguity) (alternatives : List (Alternative B N)) : Production B N := do
  checkDepth
  firstFit a none alternatives

/-! ## Productions that never fail -/

/-- The production applies everywhere. -/
def NeverFails (p : Production B α) : Prop := ∀ env s, ∃ a s', p env s = .ok a s'

theorem run_bind {α β B : Type} (p : Production B α) (f : α → Production B β) (env : Env)
    (s : State B) :
    (p >>= f) env s = match p env s with
      | .ok a s' => f a env s'
      | .error e s' => .error e s' := by
  simp only [Bind.bind, ReaderT.bind, EStateM.bind]
  split <;> simp_all

theorem NeverFails.pure {α B : Type} (a : α) : NeverFails (Pure.pure a : Production B α) :=
  fun _ s => ⟨a, s, rfl⟩

theorem NeverFails.bind {α β B : Type} {p : Production B α} {f : α → Production B β}
    (hp : NeverFails p) (hf : ∀ a, NeverFails (f a)) : NeverFails (p >>= f) := by
  intro env s
  obtain ⟨a, s', h⟩ := hp env s
  rw [run_bind, h]
  exact hf a env s'

theorem NeverFails.recover (f : Failure) : NeverFails (recover f : Production B N) :=
  fun _ _ => ⟨_, _, rfl⟩

theorem NeverFails.orRecover (p : Production B N) : NeverFails p.orRecover := by
  intro env s
  unfold Production.orRecover
  split
  · exact ⟨_, _, rfl⟩
  · exact NeverFails.recover _ env _

theorem NeverFails.child {p : Production B N} (h : NeverFails p) : NeverFails p.child :=
  h.bind fun _ _ _ => ⟨_, _, rfl⟩

theorem NeverFails.recovering (p : Production B Unit) : NeverFails p.recovering := by
  intro env s
  unfold Production.recovering
  split
  · exact ⟨_, _, rfl⟩
  · exact (NeverFails.recover _).child env _

theorem NeverFails.nested {α B : Type} {p : Production B α} (h : NeverFails p) :
    NeverFails p.nested :=
  fun _ s => h _ s

theorem NeverFails.iterateUpTo {α B : Type} [Store B] {step : α → Production B (Option α)}
    (h : ∀ x, NeverFails (step x)) (n : Nat) (x : α) : NeverFails (iterateUpTo step n x) := by
  induction n generalizing x with
  | zero => exact fun _ _ => ⟨_, _, rfl⟩
  | succ n ih =>
    intro env s
    obtain ⟨a, s', hs⟩ := h x env s
    rw [Production.iterateUpTo, hs]
    cases a with
    | none => exact ⟨_, _, rfl⟩
    | some y => exact ih y env s'

theorem NeverFails.repeatWhile {step : Production B Bool} (h : NeverFails step) :
    NeverFails (repeatWhile step) := by
  intro env s
  refine NeverFails.iterateUpTo (fun _ => h.bind fun more => ?_) _ () env s
  exact NeverFails.pure _

theorem NeverFails.node {r : Rule} {body : Production B Unit} (h : NeverFails body) :
    NeverFails (node r body : Production B N) := by
  intro env s
  obtain ⟨_, s', hs⟩ := h env { s with children := Builder.start s.children, isPartial := false }
  exact ⟨_, _, by rw [Production.node, construct, hs]⟩

/-- What a production that never fails gives. -/
def NeverFails.result {α B : Type} {p : Production B α} (h : NeverFails p) (env : Env)
    (s : State B) : α × State B :=
  match run : p env s with
  | .ok a s' => (a, s')
  | .error .. => absurd (h env s) (by simp [run])

theorem NeverFails.run_eq {α B : Type} {p : Production B α} (h : NeverFails p) (env : Env)
    (s : State B) :
    p env s = .ok (h.result env s).1 (h.result env s).2 := by
  unfold NeverFails.result
  split
  · assumption
  · rename_i run
    obtain ⟨_, _, ok⟩ := h env s
    exact absurd ok (by simp [run])

theorem firstFit_cons_of_fits {a : Ambiguity} {best : Option Failure} {x : Alternative}
    {rest : List Alternative} {env : Env} {s s' : State} {n : Node}
    (viable : x.viable env s = true) (fits : x.production env s = .ok n s') :
    firstFit a best (x :: rest) env s = .ok n s' := by
  simp [firstFit, viable, fits]

end Production

/-! ## Trees as values -/

namespace Parse

open Production

@[simp] theorem builder_attach (n : Node) (b : List Node) : Builder.attach n b = n :: b := rfl

@[simp] theorem builder_leaf (kind : NodeKind) (span : Span) (token : Nat) (b : List Node) :
    Builder.leaf kind span token b = (.leaf kind span token, b) := rfl

theorem leaf_eq (kind : NodeKind) (env : Env) (s : State) :
    leaf kind env s = .ok (.leaf kind (env.tokens.get s.cursor).span s.cursor)
      { s with cursor := env.next s.cursor } := rfl

theorem construct_eq (r : Rule) (firstToken : Nat) (body : Parse Unit) (env : Env) (s : State) :
    construct r firstToken body env s =
      match body env { s with children := [], isPartial := false } with
      | .ok _ s' =>
        .ok
          (.finish (.rule r) (env.span firstToken s'.cursor) firstToken s'.isPartial
            s'.children.reverse)
          { s' with children := s.children, isPartial := s.isPartial }
      | .error f s' => .error f { s' with children := s.children, isPartial := s.isPartial } := by
  have hstart : Builder.start s.children = [] := rfl
  rw [construct, hstart]
  cases body env { s with children := [], isPartial := false } <;> rfl

theorem nodeFrom_eq (first : Node) (r : Rule) (body : Parse Unit) :
    nodeFrom first r body = construct r first.info.firstToken body := rfl

theorem recover_eq (f : Failure) (env : Env) (s : State) :
    recover f env s =
      .ok (.error (env.span s.cursor (regionEnd env (0 < s.singleLineIfs) s.cursor s.cursor))
        s.cursor)
        { s with
          cursor := regionEnd env (0 < s.singleLineIfs) s.cursor s.cursor
          diagnostics := f.diagnostic env
            (env.span s.cursor (regionEnd env (0 < s.singleLineIfs) s.cursor s.cursor)) ::
              s.diagnostics } := rfl

theorem orRecover_eq (p : Parse Node) (env : Env) (s : State) :
    orRecover p env s = match p env s with
      | .ok n s' => .ok n s'
      | .error f _ => recover f env s := by
  unfold orRecover
  cases p env s <;> rfl

theorem firstFit_cons_eq (a : Ambiguity) (best : Option Failure) (x : Alternative)
    (rest : List Alternative) (env : Env) (s : State) :
    firstFit a best (x :: rest) env s =
      if x.viable env s then
        match x.production env s with
        | .ok n s' => .ok n s'
        | .error f _ => firstFit a (some (best.elim f (·.furthest f))) rest env s
      else firstFit a best rest env s := by
  rw [firstFit]
  cases x.production env s <;> rfl

end Parse

end VisualBasic
