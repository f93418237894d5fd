import VisualBasic.Proofs.Mirrors
import VisualBasic.Proofs.PhraseRules

/-!
# Deriving mirrors

What the grammar is put together with, each with its rule: looks and choices by what is ahead,
single tokens, nodes that are attached, repetitions and blocks. A repetition needs to know of its
step that it reads a token whenever it asks for another one. At the end of the text it must not ask;
that is shown by what the step looks at first.

Main results:

* `Moves.accept`, `Moves.peek`, `Moves.ifBoundary` — steps that ask for no other one at the end of
  the text.
* `Mirrors.iterateWhile`, `Mirrors.commaSeparated`, `Mirrors.body` — repetitions.
* `Mirrors.finishBlock` — blocks that are closed.
-/

namespace VisualBasic

/-- What depends on nothing that is built is the same of two states that agree. -/
@[elab_as_elim]
theorem State.Agrees.elim {B : Type} {motive : State B → State → Prop} {s : State B} {t : State}
    (hst : s.Agrees t)
    (h : ∀ cursor children children' isPartial diagnostics blocks ifs,
      motive ⟨cursor, children, isPartial, diagnostics, blocks, ifs⟩
        ⟨cursor, children', isPartial, diagnostics, blocks, ifs⟩) : motive s t := by
  obtain ⟨cursor, children, isPartial, diagnostics, blocks, ifs⟩ := s
  obtain ⟨cursor', children', isPartial', diagnostics', blocks', ifs'⟩ := t
  obtain ⟨rfl, rfl, rfl, rfl, rfl⟩ := hst
  exact h _ _ _ _ _ _ _

namespace Production

variable {α β α' β' γ : Type}

-- ---------------------------------------------------------------------------
-- Steps that read tokens
-- ---------------------------------------------------------------------------

namespace Moves

variable {good : α → Prop}

/-- What always reads a token does so whenever it asks for another step. -/
theorem of_steps {m : Manner} {p : Parse α} (h : Steps m 0 true p) : Moves good p := by
  intro env s a s' hs hrun _
  have houtcome := h env s (.zero hs)
  rw [hrun] at houtcome
  exact houtcome.1 rfl

/-- What never asks for another step need not read anything. -/
theorem pure {a : α} (h : ¬good a) : Moves good (Pure.pure a) := by
  intro env s b s' _ hrun hb
  cases hrun
  exact absurd hb h

/-- Looking changes nothing, so what comes behind has to read the token. -/
theorem look {p : Parse γ} {seen : Env → State → γ} {k : γ → Parse α} (hp : Looks p seen)
    (hk : ∀ c, Moves good (k c)) : Moves good (p >>= k) := by
  intro env s a s' hs hrun ha
  rw [hp.run_bind] at hrun
  exact hk _ env s a s' hs hrun ha

theorem ite {c : Prop} [Decidable c] {p q : Parse α} (hp : Moves good p) (hq : Moves good q) :
    Moves good (if c then p else q) := by
  split
  · exact hp
  · exact hq

/-- What goes on only in front of a token reads one there. -/
theorem ifAt {kind : TokenKind} (hkind : kind ≠ .endOfFile) {p q : Parse α} (hp : Progresses good p)
    (hq : Moves good q) : Moves good (atKind kind >>= fun x => if x = true then p else q) := by
  intro env s a s' hs hrun ha
  unfold atKind at hrun
  rw [(Looks.test _).run_bind] at hrun
  split at hrun
  · next hat =>
    have hne : env.kind s ≠ .endOfFile := by
      rw [beq_iff_eq.1 hat]
      exact hkind
    exact hp env s a s' (.of_kindAt_ne hne) hrun ha
  · exact hq env s a s' hs hrun ha

/-- What accepts a token, and does not ask for another step without one. -/
theorem accept {kind : TokenKind} (hkind : kind ≠ .endOfFile) {k : Bool → Parse α}
    (hk : Climbs (k true))
    (hk' : Moves good (k false)) : Moves good (Production.accept kind >>= k) := by
  rw [accept_bind]
  exact ifAt hkind (.first .take Climbs.take fun _ => hk) hk'

/-- What looks at the next token, and does not ask for another step at the end of the text. -/
theorem peek {k : TokenKind → Parse α} (hk : ∀ kind, kind ≠ .endOfFile → Progresses good (k kind))
    (hend : Moves good (k .endOfFile)) : Moves good (Production.peek >>= k) := by
  intro env s a s' hs hrun ha
  rw [Looks.peek.run_bind] at hrun
  by_cases hkind : env.kind s = .endOfFile
  · rw [hkind] at hrun
    exact hend env s a s' hs hrun ha
  · exact hk _ hkind env s a s' (.of_kindAt_ne hkind) hrun ha

/-- What goes on from the next token, and does not ask for another step at the end of the text. -/
theorem ofReady {k : TokenKind → Parse α} (h : Progresses good (Production.peek >>= k))
    (hend : Moves good (k .endOfFile)) : Moves good (Production.peek >>= k) := by
  intro env s a s' hs hrun ha
  by_cases hkind : env.kind s = .endOfFile
  · rw [Looks.peek.run_bind, hkind] at hrun
    exact hend env s a s' hs hrun ha
  · exact h env s a s' (.of_kindAt_ne hkind) hrun ha

/-- What goes on unless a test holds, which holds at the end of the text. -/
theorem untilEnd {seen : Env → State → Bool}
    (hend : ∀ env s, env.kind s = .endOfFile → seen env s = true) {p q : Parse α}
    (hp : Moves good p)
    (hq : Progresses good q) : Moves good (test seen >>= fun x => if x = true then p else q) := by
  intro env s a s' hs hrun ha
  rw [(Looks.test _).run_bind] at hrun
  split at hrun
  · exact hp env s a s' hs hrun ha
  · next hat => exact hq env s a s' (.of_kindAt_ne fun hkind => hat (hend env s hkind)) hrun ha

/-- The end of the text ends the items of a body. -/
theorem ifBoundary {p q : Parse α} (hp : Moves good p) (hq : Progresses good q) :
    Moves good (atBoundary >>= fun x => if x = true then p else q) := by
  refine .untilEnd (fun env s hend => ?_) hp hq
  unfold Env.atBoundary
  rw [hend]

/-- What comes behind a part that may read tokens. -/
theorem behind {p : Parse γ} {k : γ → Parse α} (hp : Climbs p) (hk : ∀ c, Moves good (k c)) :
    Moves good (p >>= k) := by
  intro env s a s' hs hrun ha
  obtain ⟨c, s₁, hfirst, hrest⟩ := bind_eq_ok hrun
  have hlater := hp.ok hs hfirst
  exact Nat.lt_of_le_of_lt hlater.cursor (hk c env s₁ a s' hlater.le_size hrest ha)

/-- What reads a token first. -/
theorem first {p : Parse γ} {k : γ → Parse α} (hp : Moves (fun _ => True) p) (hclimbs : Climbs p)
    (hk : ∀ c, Climbs (k c)) : Moves good (p >>= k) := by
  intro env s a s' hs hrun _
  obtain ⟨c, s₁, hfirst, hrest⟩ := bind_eq_ok hrun
  have hlater := hclimbs.ok hs hfirst
  exact Nat.lt_of_lt_of_le (hp env s c s₁ hs hfirst trivial) ((hk c).ok hlater.le_size hrest).cursor

/-- A round of a repetition asks for another one by `true`. -/
theorem rounds {step : Parse Bool} (hstep : Moves (· = true) step) :
    Moves (fun y => y.isSome = true)
    (step >>= fun more => Pure.pure (if more = true then some () else none)) := by
  intro env s y s' hs hrun hy
  obtain ⟨more, s₁, hfirst, hrest⟩ := bind_eq_ok hrun
  cases hrest
  refine hstep env s more _ hs hfirst ?_
  cases more with
  | true => rfl
  | false => exact hy

end Moves

-- ---------------------------------------------------------------------------
-- Derived rules
-- ---------------------------------------------------------------------------

variable {B N : Type} [Builder B N]

/-- The two do the same and leave the node in hand there, if there is one. -/
@[reducible] def Does (h : Hand N) (p : Production B α) (q : Parse α) : Prop :=
  Mirrors h (Plain h) p q

/-- The two make the same node, which they leave in hand. -/
@[reducible] def Produces (h : Hand N) (p : Production B N) (q : Parse Node) : Prop :=
  Mirrors h Given p q

namespace Mirrors

variable {h : Hand N} {r : α → β → Hand N → Prop} {p p₁ : Production B α} {q q₁ : Parse β}

theorem ite {c : Prop} [Decidable c] (hp : c → Mirrors h r p q) (hq : ¬c → Mirrors h r p₁ q₁) :
    Mirrors h r (if c then p else p₁) (if c then q else q₁) := by
  split
  · exact hp ‹_›
  · exact hq ‹_›

/-- What is done behind something that leaves the hand as it was. -/
theorem andThen {k : Hand N} {p₀ : Production B γ} {q₀ : Parse γ} {f : γ → Production B α}
    {g : γ → Parse β}
    (hp : Mirrors h (Plain k) p₀ q₀) (hf : ∀ c, Mirrors k r (f c) (g c)) :
    Mirrors h r (p₀ >>= f) (q₀ >>= g) :=
  .bind hp fun a b k' hab => by
    obtain ⟨rfl, rfl⟩ := hab
    exact hf b

/-- The first of the two gives nothing that the second one uses, but it may change what is in
hand. -/
theorem seq {k : Hand N} {p₀ : Production B γ} {q₀ : Parse γ} (hp : Mirrors h (Plain k) p₀ q₀)
    (hq : Mirrors k r p q) : Mirrors h r (p₀ >>= fun _ => p) (q₀ >>= fun _ => q) :=
  andThen hp fun _ => hq

theorem result {a : γ} : Does h (Pure.pure a : Production B γ) (Pure.pure a) := .pure ⟨rfl, rfl⟩

/-- A failure where nothing has been read. -/
theorem fail (e : Expected) : Mirrors h r (Production.fail e : Production B α)
    (Production.fail e) :=
  .refuse (fun _ _ => rfl) (fun _ _ => rfl) fun _ _ _ hst => by rw [hst.cursor]

theorem tooDeep : Mirrors h r (Production.tooDeep : Production B α) Production.tooDeep :=
  .refuse (fun _ _ => rfl) (fun _ _ => rfl) fun _ _ _ hst => by rw [hst.cursor]

/-- The levels that are left are a matter of the source and its limits, not of what is built. -/
theorem byRoom {p : Nat → Production B α} {q : Nat → Parse β}
    (hp : ∀ room, Mirrors h r (p room) (q room)) :
    Mirrors h r (fun env s => p env.room env s) (fun env s => q env.room env s) :=
  .choose (fun env _ => p env.room) (fun env _ => q env.room) fun env _ _ _ => hp env.room

/-- What looks at the limit of nesting first. -/
theorem checked (hp : Mirrors h r p q) :
    Mirrors h r (Production.checkDepth >>= fun _ => p) (Production.checkDepth >>= fun _ => q) :=
  seq .checkDepth hp

/-- What gives something perhaps, and does. -/
theorem mapSome {k : Hand N} (hp : Mirrors h r p q) :
    Mirrors h (Perhaps r k) (some <$> p) (some <$> q) := by
  rw [map_eq_pure_bind, map_eq_pure_bind]
  exact .bind hp fun a b k' hr => .pure hr

theorem nothing : Mirrors h (Perhaps r h) (Pure.pure none : Production B (Option α))
    (Pure.pure none) :=
  .pure rfl

-- ---------------------------------------------------------------------------
-- Looks
-- ---------------------------------------------------------------------------

/-- A test of anything but what is built comes out the same. -/
theorem test {seen : Env → State B → Bool} {seen' : Env → State → Bool}
    (hseen : ∀ env s t, s.Agrees t → seen' env t = seen env s) :
    Does h (Production.test seen) (Production.test seen') :=
  .look (fun _ _ => rfl) (fun _ _ => rfl) hseen

/-- A choice by a test. -/
theorem ifTest {seen : Env → State B → Bool} {seen' : Env → State → Bool}
    (hseen : ∀ env s t, s.Agrees t → seen' env t = seen env s) (hp : Mirrors h r p q)
    (hq : Mirrors h r p₁ q₁) :
    Mirrors h r (Production.test seen >>= fun x => if x = true then p else p₁)
      (Production.test seen' >>= fun x => if x = true then q else q₁) :=
  andThen (test hseen) fun _ => ite (fun _ => hp) fun _ => hq

theorem atKind (kind : TokenKind) : Does h (Production.atKind kind : Production B Bool)
    (Production.atKind kind) :=
  test fun _ _ _ hst => hst.elim fun _ _ _ _ _ _ _ => rfl

theorem ifAt {kind : TokenKind} (hp : Mirrors h r p q) (hq : Mirrors h r p₁ q₁) :
    Mirrors h r (Production.atKind kind >>= fun x => if x = true then p else p₁)
      (Production.atKind kind >>= fun x => if x = true then q else q₁) :=
  andThen (atKind kind) fun _ => ite (fun _ => hp) fun _ => hq

theorem atWord (word : Keyword) : Does h (Production.atWord word : Production B Bool)
    (Production.atWord word) :=
  atKind _

theorem ahead (kinds : List TokenKind) :
    Does h (Production.ahead kinds : Production B Bool) (Production.ahead kinds) :=
  test fun _ _ _ hst => hst.elim fun _ _ _ _ _ _ _ => rfl

theorem atBoundary : Does h (Production.atBoundary : Production B Bool) Production.atBoundary :=
  test fun _ _ _ hst => hst.elim fun _ _ _ _ _ _ _ => rfl

theorem atTerminator :
    Does h (Production.atTerminator : Production B Bool) Production.atTerminator :=
  test fun _ _ _ hst => hst.elim fun _ _ _ _ _ _ _ => rfl

theorem currentLine : Does h (Production.currentLine : Production B Nat) Production.currentLine :=
  .look (fun _ _ => rfl) (fun _ _ => rfl) fun _ _ _ hst => hst.elim fun _ _ _ _ _ _ _ => rfl

/-- What is done behind a look at the next token. -/
theorem peek {f : TokenKind → Production B α} {g : TokenKind → Parse β}
    (hf : ∀ kind, Mirrors h r (f kind) (g kind)) :
    Mirrors h r (Production.peek >>= f) (Production.peek >>= g) := by
  have hpeek : Does h (Production.peek : Production B TokenKind) Production.peek :=
    .look (fun _ _ => rfl) (fun _ _ => rfl) fun _ _ _ hst => hst.elim fun _ _ _ _ _ _ _ => rfl
  exact andThen hpeek hf

/-- A choice by the kind of a token further on. -/
theorem peekAhead {n : Nat} {f : TokenKind → Production B α} {g : TokenKind → Parse β}
    (hf : ∀ kind, Mirrors h r (f kind) (g kind)) :
    Mirrors h r (Production.peekAhead n >>= f) (Production.peekAhead n >>= g) := by
  have hpeek : Does h (Production.peekAhead n : Production B TokenKind) (Production.peekAhead n) :=
    .look (fun _ _ => rfl) (fun _ _ => rfl) fun _ _ _ hst => hst.elim fun _ _ _ _ _ _ _ => rfl
  exact andThen hpeek hf

theorem peekBehindPrefix {f : TokenKind → Production B α} {g : TokenKind → Parse β}
    (hf : ∀ kind, Mirrors h r (f kind) (g kind)) :
    Mirrors h r (Production.peekBehindPrefix >>= f) (Production.peekBehindPrefix >>= g) := by
  have hpeek :
      Does h (Production.peekBehindPrefix : Production B TokenKind) Production.peekBehindPrefix :=
    .look (fun _ _ => rfl) (fun _ _ => rfl) fun _ _ _ hst => hst.elim fun _ _ _ _ _ _ _ => rfl
  exact andThen hpeek hf

-- ---------------------------------------------------------------------------
-- Tokens and nodes
-- ---------------------------------------------------------------------------

/-- Going past a token without attaching it. -/
theorem skip : Does h (Production.skip : Production B Unit) Production.skip := by
  refine .change (fun _ _ => rfl) (fun _ _ => rfl) (fun _ _ _ hst => ?_) (fun _ _ => rfl)
    (fun _ _ => rfl)
    fun env t ht => ⟨?_, Nat.min_le_right _ _⟩
  · exact hst.elim fun _ _ _ _ _ _ _ => ⟨rfl, rfl, rfl, rfl, rfl⟩
  · exact Nat.le_min.2 ⟨Nat.le_succ _, ht⟩

/-- What has just been built is attached, so nothing is in hand behind it. -/
theorem child {p : Production B N} {q : Parse Node} (hp : Produces h p q) :
    Mirrors h (Plain none) p.child q.child :=
  .bind hp fun i n k hk => by
    obtain rfl : k = some (i, n) := hk
    exact .attach

/-- The same, with a role for what is attached. -/
theorem field (f : Field) {p : Production B N} {q : Parse Node} (hp : Produces h p q) :
    Mirrors h (Plain none) (p.field f) (q.field f) :=
  .bind hp fun i n k hk => by
    obtain rfl : k = some (i, n) := hk
    exact .attachIn f

theorem childNested {p : Production B N} {q : Parse Node} (hp : Produces h p q) :
    Mirrors h (Plain none) p.nested.child q.nested.child :=
  child (.nested hp)

theorem fieldNested (f : Field) {p : Production B N} {q : Parse Node} (hp : Produces h p q) :
    Mirrors h (Plain none) (p.nested.field f) (q.nested.field f) :=
  field f (.nested hp)

/-- A wrapper takes what is in hand, and is in hand itself. -/
theorem wrap (rule : Rule) {i : N} {n : Node} :
    Produces (some (i, n)) (Production.wrap rule i : Production B N) (Production.wrap rule n) :=
  .nodeFrom rule .attach

theorem wrapped (rule : Rule) {p : Production B N} {q : Parse Node} (hp : Produces h p q) :
    Produces h (p >>= Production.wrap rule) (q >>= Production.wrap rule) :=
  .bind hp fun i n k hk => by
    obtain rfl : k = some (i, n) := hk
    exact wrap rule

theorem tokenLeaf : Produces none (Production.tokenLeaf : Production B N) Production.tokenLeaf :=
  peek fun _ => .leaf _

theorem ruleLeaf (rule : Rule) :
    Produces none (Production.ruleLeaf rule : Production B N) (Production.ruleLeaf rule) :=
  .leaf _

/-- A token is a leaf that is attached. -/
theorem take : Does none (Production.take : Production B Unit) Production.take := child tokenLeaf

/-- A token of one kind is attached; any other one is a failure. -/
theorem expect (kind : TokenKind) :
    Does none (Production.expect kind : Production B Unit) (Production.expect kind) :=
  ifAt take (fail _)

theorem expectWord (word : Keyword) :
    Does none (Production.expectWord word : Production B Unit) (Production.expectWord word) :=
  expect _

theorem expectMark (mark : Mark) :
    Does none (Production.expectMark mark : Production B Unit) (Production.expectMark mark) :=
  expect _

theorem expectEnd (mark : Mark) :
    Does none (Production.expectEnd mark : Production B Unit) (Production.expectEnd mark) :=
  ifAt take (fail _)

theorem accept (kind : TokenKind) :
    Does none (Production.accept kind : Production B Bool) (Production.accept kind) :=
  ifAt (seq take result) result

theorem acceptWord (word : Keyword) :
    Does none (Production.acceptWord word : Production B Bool) (Production.acceptWord word) :=
  accept _

theorem acceptMark (mark : Mark) :
    Does none (Production.acceptMark mark : Production B Bool) (Production.acceptMark mark) :=
  accept _

/-- A choice by whether a token that may be there is. -/
theorem ifAccept {kind : TokenKind} (hp : Mirrors none r p q) (hq : Mirrors none r p₁ q₁) :
    Mirrors none r (Production.accept kind >>= fun x => if x = true then p else p₁)
      (Production.accept kind >>= fun x => if x = true then q else q₁) :=
  andThen (accept kind) fun _ => ite (fun _ => hp) fun _ => hq

/-- A name is a leaf. -/
theorem identifier : Produces none (Production.identifier : Production B N) Production.identifier :=
  peek fun _ => ite (fun _ => ruleLeaf _) fun _ => fail _

theorem memberName : Produces none (Production.memberName : Production B N) Production.memberName :=
  peek fun _ => by
    split
    · exact ruleLeaf _
    · exact ruleLeaf _
    · exact fail _

-- ---------------------------------------------------------------------------
-- Repetitions
-- ---------------------------------------------------------------------------

/-- A step that may give a node in place of the one in hand. -/
theorem iterateNode {i : N} {n : Node} {step : N → Production B (Option N)}
    {step' : Node → Parse (Option Node)}
    (hstep : ∀ i n, Mirrors (some (i, n)) (Perhaps Given (some (i, n))) (step i) (step' n))
    (hmoves : ∀ n, Moves (fun z => z.isSome = true) (step' n)) :
    Produces (some (i, n)) (Production.iterate step i) (Production.iterate step' n) := by
  refine .iterate (fun j m k hk => ?_) hmoves rfl
  obtain rfl : k = some (j, m) := hk
  exact hstep j m

/-- A loop without a value: its rounds have to read tokens as long as they ask for another one. -/
theorem repeatWhile {step : Production B Bool} {step' : Parse Bool} (hstep : Does none step step')
    (hmoves : Moves (· = true) step') :
    Does none (Production.repeatWhile step) (Production.repeatWhile step') := by
  refine .iterate (r := Plain none) (fun x y k hxy => ?_) (fun _ => hmoves.rounds) ⟨rfl, rfl⟩
  obtain ⟨rfl, rfl⟩ := hxy
  refine andThen hstep fun more => .pure ?_
  cases more with
  | true => exact ⟨rfl, rfl⟩
  | false => rfl

/-- Each line end is a token, so skipping them ends. -/
theorem skipNewlines :
    Does none (Production.skipNewlines : Production B Unit) Production.skipNewlines := by
  refine repeatWhile (ifAt (seq skip result) result) ?_
  refine .ifAt (by decide) ?_ (.pure nofun)
  intro env s a s' hready hrun _
  cases hrun
  exact Nat.lt_of_lt_of_le (Nat.lt_succ_self _) (Nat.le_min.2 ⟨Nat.le_refl _, hready.lt_size⟩)

/-- What is repeated behind every mark of a kind. -/
theorem repeatAccept {kind : TokenKind} (hkind : kind ≠ .endOfFile) {p : Production B Unit}
    {q : Parse Unit}
    (hp : Does none p q) (hq : Climbs q) :
    Does none
      (Production.repeatWhile do
        if ← Production.accept kind then
          p
          return true
        return false)
      (Production.repeatWhile do
        if ← Production.accept kind then
          q
          return true
        return false) :=
  repeatWhile (ifAccept (seq hp result) result)
    (.accept hkind (hq.bind fun _ => Climbs.pure _) (.pure nofun))

/-- Each further round reads its comma, so the parts need not read anything. -/
theorem commaSeparated {p : Production B Unit} {q : Parse Unit} (hp : Does none p q)
    (hq : Climbs q) :
    Does none (Production.commaSeparated p) (Production.commaSeparated q) :=
  seq hp (repeatAccept (by decide) hp hq)

/-- Nodes one level down, with commas in between. -/
theorem childrenByComma {p : Production B N} {q : Parse Node} (hp : Produces none p q)
    {m : Manner} {b : Bool}
    (hq : Builds m 0 b q) [AtMost m .quiet] :
    Does none (Production.commaSeparated p.nested.child)
    (Production.commaSeparated q.nested.child) :=
  commaSeparated (childNested hp) (.of_steps (Steps.child hq.nested))

theorem fieldsByComma (f : Field) [Holds f.isPlain] {p : Production B N} {q : Parse Node}
    (hp : Produces none p q) {m : Manner} {b : Bool} (hq : Builds m 0 b q) [AtMost m .quiet] :
    Does none (Production.commaSeparated (p.nested.field f))
    (Production.commaSeparated (q.nested.field f)) :=
  commaSeparated (fieldNested f hp) (.of_steps (Steps.field f hq.nested))

-- ---------------------------------------------------------------------------
-- Statements and blocks
-- ---------------------------------------------------------------------------

theorem endStatement :
    Does h (Production.endStatement : Production B Unit) Production.endStatement :=
  peek fun _ => ite (fun _ => skip) fun _ => andThen atTerminator fun _ =>
    ite (fun _ => result) fun _ => fail _

/-- A block is noted on the stack of open blocks, which both have. -/
theorem openBlockAt (opener : Keyword) (line : Nat) :
    Does h (Production.openBlockAt opener line : Production B Unit)
    (Production.openBlockAt opener line) :=
  .change (fun _ _ => rfl) (fun _ _ => rfl)
    (fun _ _ _ hst => hst.elim fun _ _ _ _ _ _ _ => ⟨rfl, rfl, rfl, rfl, rfl⟩) (fun _ _ => rfl)
    (fun _ _ => rfl) fun _ _ ht => ⟨Nat.le_refl _, ht⟩

theorem openBlock (opener : Keyword) :
    Does h (Production.openBlock opener : Production B Unit) (Production.openBlock opener) :=
  andThen currentLine fun line => openBlockAt opener line

/-- A closing line that is missing is a diagnostic in both. -/
theorem missCloser (opener : Keyword) :
    Does h (Production.missCloser opener : Production B Unit) (Production.missCloser opener) :=
  .change (fun _ _ => rfl) (fun _ _ => rfl)
    (fun _ _ _ hst => hst.elim fun _ _ _ _ _ _ _ => ⟨rfl, rfl, rfl, rfl, rfl⟩) (fun _ _ => rfl)
    (fun _ _ => rfl) fun _ _ ht => ⟨Nat.le_refl _, ht⟩

/-- The words of a closing line. -/
theorem takeAll (words : List Keyword) :
    Does none (words.forM fun _ => (Production.take : Production B Unit))
    (words.forM fun _ => Production.take) := by
  induction words with
  | nil => exact result
  | cons word words ih => exact seq take ih

/-- Whether the closing words are there is seen from the tokens. -/
theorem closeBlock (opener : Keyword) :
    Does none (Production.closeBlock opener : Production B Bool)
    (Production.closeBlock opener) := by
  have hclose : Does none
      (modify fun s => { s with blocks := s.blocks.tail } : Production B Unit)
      (modify fun s => { s with blocks := s.blocks.tail }) :=
    .change (fun _ _ => rfl) (fun _ _ => rfl)
      (fun _ _ _ hst => hst.elim fun _ _ _ _ _ _ _ => ⟨rfl, rfl, rfl, rfl, rfl⟩) (fun _ _ => rfl)
      (fun _ _ => rfl) fun _ _ ht => ⟨Nat.le_refl _, ht⟩
  refine ifTest (fun _ _ _ hst => hst.elim fun _ _ _ _ _ _ _ => rfl) ?_
    (seq (missCloser opener) result)
  exact seq hclose (seq (takeAll opener.closer) result)

/-- A block that is closed, and what may follow its closer. -/
theorem closing (opener : Keyword) {p : Production B Unit} {q : Parse Unit} (hp : Does none p q) :
    Does none (Production.closeBlock opener >>= fun x => if x = true then p else Pure.pure ())
      (Production.closeBlock opener >>= fun x => if x = true then q else Pure.pure ()) :=
  andThen (closeBlock opener) fun _ => ite (fun _ => hp) fun _ => result

theorem finishBlock (opener : Keyword) :
    Does none (Production.finishBlock opener : Production B Unit) (Production.finishBlock opener) :=
  closing opener (.recovering endStatement)

/-- The items of a body: each has to read a token, once there is one that does not end the body. -/
theorem body {p : Production B Unit} {q : Parse Unit} (hp : Does none p q) {m : Manner} {n : Nat}
    (hq : Steps m n true q) [AtMost n 1] : Does none (Production.body p) (Production.body q) := by
  refine repeatWhile (andThen atBoundary fun _ => ite (fun _ => result) fun _ => seq hp result) ?_
  exact .ifBoundary (.pure nofun) (.round hq)

end Mirrors

end Production

end VisualBasic
