import VisualBasic.Proofs.Alongside
import VisualBasic.Proofs.BrokenHeaders

/-!
# Heeding closing lines

The judgement `Heeds` says what holds of the error regions among the nodes that a production
attaches. It speaks of one closing line at a time: a word and, wherever it is used, a block of that
word that is open. Of the word of a block that is not open yet nothing could be said, so a
production that opens a block has to answer for its word, too.

Main results:

* `Heeds.body` — items of a body do not begin with the closing line of an open block.
* `Heeds.recovering` — a region behind a header that broke off begins with one only if tokens of the
  header are lost in front of it.
* `Heeds.block` — what is in a block spares its closing line, too.
-/

namespace VisualBasic

open State Place

/-- What is known of a value and the place where it is given. -/
abbrev Yield (α : Type) := Option Keyword → TokenStream → α → Nat → Prop

/-- Whatever it is and wherever. -/
abbrev Whatever {α : Type} : Yield α := fun _ _ _ _ => True

/-- A node that is fit to be attached. -/
abbrev Fitting : Yield Node := fun word t n i => n.Fits t word i

namespace Production

variable {α β : Type}

/-- Blocks of the word are closed by `End` and the word, and one of them is open or need not be. -/
def Minds (own : Keyword → Prop) (word : Option Keyword) (s : State) : Prop :=
  ∀ w ∈ word, w.isClosedByEnd = true ∧ (s.isOpen w = true ∨ own w)

/-- Where the production runs at a place that is as `pre` says, while a block of the word is open or
the word is among those whose block need not be open, the node of the rule `r` that is under
construction heeds the closing lines of the word. If it succeeds, what it gives is as `post` says.
If `closing`, it closes the innermost block. -/
def Heeds (own : Keyword → Prop) (closing : Bool) (r : Rule) (pre : Place) (post : Yield α)
    (p : Parse α) : Prop :=
  ∀ env first word s a s', env.tokens.Ordered → Minds own word s →
  s.Heedful env.tokens r first word →
    pre word env.tokens s.cursor → p env s = .ok a s' →
      s'.Heedful env.tokens r first word ∧ s'.blocks = s.blocksBehind closing ∧
        post word env.tokens a s'.cursor

/-- No block need be open. -/
abbrev AnyWord : Keyword → Prop := fun _ => True

/-- The block of every word has to be open. -/
abbrev NoWord : Keyword → Prop := fun _ => False

theorem Minds.of_blocks {own : Keyword → Prop} {word : Option Keyword} {s s' : State}
    (h : Minds own word s) (hblocks : s'.blocks = s.blocks) : Minds own word s' := by
  intro w hw
  rw [isOpen, hblocks]
  exact h w hw

theorem Minds.mono {own own' : Keyword → Prop} {word : Option Keyword} {s : State}
    (h : Minds own' word s) (hown : ∀ word, own' word → own word) : Minds own word s :=
  fun w hw => ⟨(h w hw).1, (h w hw).2.imp_right (hown w)⟩

namespace Heeds

variable {own own' : Keyword → Prop} {closing : Bool} {r : Rule} {pre pre' : Place} {post : Yield α}
  {post' : Yield β}

theorem mono {p : Parse α} (hp : Heeds own closing r pre post p)
    (hpre : ∀ word t i, pre' word t i → pre word t i) (hown : ∀ word, own' word → own word) :
    Heeds own' closing r pre' post p :=
  fun env first word s a s' ht hminds hs hat hrun =>
    hp env first word s a s' ht (hminds.mono hown) hs (hpre _ _ _ hat) hrun

/-- A production may choose what to do by where it runs. -/
theorem of_runs {p : Parse α}
    (h : ∀ env s, ∃ q, Heeds own closing r pre post q ∧ p env s = q env s) :
    Heeds own closing r pre post p := by
  intro env first word s a s' ht hminds hs hat hrun
  obtain ⟨q, hq, heq⟩ := h env s
  rw [heq] at hrun
  exact hq env first word s a s' ht hminds hs hat hrun

theorem bind {p : Parse α} {k : α → Parse β} (hp : Heeds own false r pre post p)
    (hk : ∀ a, Heeds own closing r (fun word t i => post word t a i) post' (k a)) :
    Heeds own closing r pre post' (p >>= k) := by
  intro env first word s b s' ht hminds hs hat hrun
  obtain ⟨a, s₁, hfirst, hrest⟩ := bind_eq_ok hrun
  obtain ⟨hs₁, hblocks, hat₁⟩ := hp env first word s a s₁ ht hminds hs hat hfirst
  obtain ⟨hs', hblocks', hpost⟩ :=
    hk a env first word s₁ b s' ht (hminds.of_blocks hblocks) hs₁ hat₁ hrest
  exact ⟨hs', hblocks'.trans (blocksBehind_eq hblocks), hpost⟩

theorem seq {p : Parse α} {q : Parse β} {post : Yield α}
    (hp : Heeds own false r pre post p) (hq : Heeds own closing r Anywhere post' q) :
    Heeds own closing r pre post' (p >>= fun _ => q) :=
  bind hp fun _ => hq.mono (fun _ _ _ _ => trivial) fun _ h => h

/-- What changes nothing. -/
theorem of_looks {p : Parse α} {seen : Env → State → α} (hp : Looks p seen) :
    Heeds own false r pre Whatever p := by
  intro env first word s a s' ht hminds hs hat hrun
  rw [hp env s] at hrun
  cases hrun
  exact ⟨hs, rfl, trivial⟩

theorem pure {a : α} : Heeds own false r pre Whatever (Pure.pure a) := of_looks (Looks.pure a)

theorem look {p : Parse α} {seen : Env → State → α} {k : α → Parse β} (hp : Looks p seen)
    (hk : ∀ a, Heeds own closing r pre post' (k a)) : Heeds own closing r pre post' (p >>= k) := by
  intro env first word s b s' ht hminds hs hat hrun
  rw [hp.run_bind] at hrun
  exact hk _ env first word s b s' ht hminds hs hat hrun

theorem test {see : Env → State → Bool} {k : Bool → Parse β}
    (hk : ∀ x, Heeds own closing r pre post' (k x)) :
    Heeds own closing r pre post' (Production.test see >>= k) :=
  look (Looks.test see) hk

/-- What is done behind a look at the next token knows that token. -/
theorem peek {k : TokenKind → Parse β}
    (hk : ∀ kind, Heeds own closing r (fun word t i => pre word t i ∧ t.kindAt i = kind)
      post' (k kind)) :
    Heeds own closing r pre post' (Production.peek >>= k) := by
  intro env first word s b s' ht hminds hs hat hrun
  rw [Looks.peek.run_bind] at hrun
  exact hk _ env first word s b s' ht hminds hs ⟨hat, rfl⟩ hrun

theorem peekAhead (n : Nat) {k : TokenKind → Parse β}
    (hk : ∀ kind,
      Heeds own closing r (fun word t i => pre word t i ∧ t.kindAt (i + n) = kind) post' (k kind)) :
    Heeds own closing r pre post' (Production.peekAhead n >>= k) := by
  intro env first word s b s' ht hminds hs hat hrun
  rw [(Looks.peekAhead n).run_bind] at hrun
  exact hk _ env first word s b s' ht hminds hs ⟨hat, rfl⟩ hrun

theorem ifAt {kind : TokenKind} {p q : Parse α}
    (hp : Heeds own closing r (fun word t i => pre word t i ∧ t.kindAt i = kind) post p)
    (hq : Heeds own closing r pre post q) :
    Heeds own closing r pre post (atKind kind >>= fun x => if x = true then p else q) := by
  intro env first word s a s' ht hminds hs hat hrun
  unfold atKind at hrun
  rw [(Looks.test _).run_bind] at hrun
  split at hrun
  · exact hp env first word s a s' ht hminds hs ⟨hat, beq_iff_eq.1 ‹_›⟩ hrun
  · exact hq env first word s a s' ht hminds hs hat hrun

theorem ite {c : Prop} [Decidable c] {p q : Parse α} (hp : c → Heeds own closing r pre post p)
    (hq : ¬c → Heeds own closing r pre post q) :
    Heeds own closing r pre post (if c then p else q) := by
  split
  · exact hp ‹_›
  · exact hq ‹_›

theorem fail (e : Expected) : Heeds own closing r pre post (Production.fail e : Parse α) :=
  fun _ _ _ _ _ _ _ _ _ _ hrun => by cases hrun

theorem failThen (e : Expected) {k : α → Parse β} :
    Heeds own closing r pre post' (Production.fail e >>= k) :=
  fun _ _ _ _ _ _ _ _ _ _ hrun => by cases hrun

theorem tooDeep : Heeds own closing r pre post (Production.tooDeep : Parse α) :=
  fun _ _ _ _ _ _ _ _ _ _ hrun => by cases hrun

theorem checkDepth {p : Parse α} (hp : Heeds own closing r pre post p) :
    Heeds own closing r pre post (Production.checkDepth >>= fun _ => p) := by
  intro env first word s b s' ht hminds hs hat hrun
  obtain ⟨_, s₁, hfirst, hrest⟩ := bind_eq_ok hrun
  obtain rfl := checkDepth_eq_ok hfirst
  exact hp env first word _ b s' ht hminds hs hat hrest

theorem nested {p : Parse α} (hp : Heeds own closing r pre post p) :
    Heeds own closing r pre post p.nested :=
  fun env first word s a s' ht hminds hs hat hrun =>
    hp { env with depth := env.depth + 1 } first word s a s' ht hminds hs hat hrun

-- ---------------------------------------------------------------------------
-- Quiet parts
-- ---------------------------------------------------------------------------

/-- A quiet part leaves no error regions. -/
theorem quiet {m : Manner} {n : Nat} {b : Bool} {p : Parse α} (hp : Steps m n b p)
    [hm : AtMost m .quiet] (hready : ∀ word t i, i ≤ t.tokens.size → pre word t i → t.Ready i n) :
    Heeds own false r pre Whatever p := by
  intro env first word s a s' ht hminds hs hat hrun
  have houtcome := hp env s (hready _ _ _ hs.le_size hat)
  rw [hrun] at houtcome
  have ha := houtcome.2.quiet hm.le
  exact ⟨hs.advanced ht ha (Nat.le_refl _) ha.stop_le, ha.blocks, trivial⟩

theorem quietNode {m : Manner} {n : Nat} {b : Bool} {p : Parse Node} (hp : Builds m n b p)
    [hm : AtMost m .quiet] (hready : ∀ word t i, i ≤ t.tokens.size → pre word t i → t.Ready i n) :
    Heeds own false r pre Fitting p := by
  intro env first word s a s' ht hminds hs hat hrun
  have houtcome := hp env s (hready _ _ _ hs.le_size hat)
  rw [hrun] at houtcome
  obtain ⟨-, hbuilt⟩ := houtcome
  obtain ⟨ds, hds, hreading, -⟩ := hbuilt.reading
  obtain rfl := hds hm.le
  refine ⟨hs.move ht hbuilt.same.children hbuilt.le_cursor hbuilt.cursor_le, hbuilt.same.blocks, ?_⟩
  exact hreading.fits ht (Nat.le_refl _) hbuilt.cursor_le a (List.mem_singleton.2 rfl)

/-- A part of a header. -/
theorem of_treads {loses : Bool} {mid : Place} {p : Parse α} (hp : Treads loses pre mid p) :
    Heeds own false r pre (fun word t _ i => mid word t i) p := by
  intro env first word s a s' ht hminds hs hat hrun
  have houtcome := hp.outcome env s word hs.le_size hat
  rw [hrun] at houtcome
  have ha := houtcome.1.quiet (Manner.le_refl _)
  exact ⟨hs.advanced ht ha (Nat.le_refl _) ha.stop_le, ha.blocks, houtcome.2⟩

/-- One of the tokens that are known to be there. -/
theorem one {n : Nat} {p : Parse α} {k : α → Parse β} (hp : ReadsOne p)
    (hk : ∀ a, Heeds own closing r (fun _ t i => t.Ready i n) post' (k a)) :
    Heeds own closing r (fun _ t i => t.Ready i (n + 1)) post' (p >>= k) := by
  refine bind (fun env first word s a s' ht hminds hs hready hrun => ?_) hk
  have houtcome := hp.run hready
  rw [hrun] at houtcome
  obtain ⟨-, hstepped, hready'⟩ := houtcome
  have ha := hstepped.quiet (by decide)
  exact ⟨hs.advanced ht ha (Nat.le_refl _) ha.stop_le, ha.blocks, hready'⟩

theorem ready_zero (word : Option Keyword) (t : TokenStream) (i : Nat) (h : i ≤ t.tokens.size)
    (_ : pre word t i) : t.Ready i 0 := .zero h

-- ---------------------------------------------------------------------------
-- Nodes
-- ---------------------------------------------------------------------------

theorem attach {x : Node} :
    Heeds own false r (fun word t i => x.Fits t word i) Whatever (Production.attach x) := by
  intro env first word s a s' ht hminds hs hat hrun
  cases hrun
  exact ⟨hs.attach hat, rfl, trivial⟩

theorem child {p : Parse Node} (hp : Heeds own false r pre Fitting p) :
    Heeds own false r pre Whatever p.child :=
  bind hp fun _ => attach

theorem field {f : Field} {p : Parse Node} (hp : Heeds own false r pre Fitting p) :
    Heeds own false r pre Whatever (Production.field f p) :=
  bind hp fun _ => attach.mono (fun _ _ _ h => h.inField f) fun _ h => h

/-- A node, if what is in it spares its own closing line, too. -/
theorem nodeOf {r' : Rule} {body : Parse Unit} (hr : r' ≠ .error)
    (hbody : Heeds NoWord false r' pre Whatever body)
    (hown : ∀ env first s s₁ span isPartial word, env.tokens.Ordered →
      (Node.finish (.rule r') span first isPartial s₁.children.reverse).closer? = word →
      s.Heedful env.tokens r' first word → s.children = [] →
      (∃ word, pre word env.tokens s.cursor) → body env s = .ok () s₁ →
        s₁.Heedful env.tokens r' first word) :
    Heeds NoWord false r pre Fitting (Production.node r' body) := by
  intro env first word s n s' ht hminds hs hat hrun
  have hfresh (w : Option Keyword) : State.Heedful env.tokens r' s.cursor w
      { s with children := [], isPartial := false } :=
    ⟨Nat.le_refl _, hs.le_size, fun _ hc => absurd hc List.not_mem_nil, trivial⟩
  unfold Production.node at hrun
  rw [Parse.construct_eq] at hrun
  cases hinner : body env { s with children := [], isPartial := false } with
  | error f s₁ =>
    rw [hinner] at hrun
    cases hrun
  | ok u s₁ =>
    rw [hinner] at hrun
    cases hrun
    obtain ⟨hs₁, hblocks, -⟩ := hbody env s.cursor word
      { s with children := [], isPartial := false } u s₁ ht hminds (hfresh word) hat hinner
    refine ⟨hs.move ht rfl hs₁.first_le hs₁.le_size, hblocks, ?_, ?_, ?_⟩
    · refine hs₁.kept.finish ?_
      exact (hown env s.cursor { s with children := [], isPartial := false } s₁ _ _ _ ht
        rfl (hfresh _)
        rfl ⟨word, hat⟩ hinner).kept
    · exact ht.stop_spanFrom_le (Nat.le_refl _) hs₁.le_size
    · exact fun hkind => absurd (NodeKind.rule.inj hkind) hr

/-- A node of a rule that says what its closing line is. -/
theorem nodeOfRule {spot : TokenStream → Nat → Prop} {r' : Rule} {body : Parse Unit}
    (hr : r'.saysCloser = true) (hown : ∀ w ∈ r'.closer?, own w)
    (hbody : Heeds own false r' (fun _ => spot) Whatever body) :
    Heeds NoWord false r (fun _ => spot) Fitting (Production.node r' body) := by
  refine nodeOf (fun h => ?_) (hbody.mono (fun _ _ _ h => h) fun _ => False.elim) ?_
  · rw [h] at hr
    exact Bool.noConfusion hr
  · intro env first s s₁ span isPartial word ht hcloser hs _ hat hrun
    rw [Node.closer?_of_kind rfl hr] at hcloser
    subst hcloser
    have hminds : Minds own r'.closer? s := fun w hw =>
      ⟨Rule.isClosedByEnd_of_closer? hw, .inr (hown w hw)⟩
    exact (hbody env first _ s () s₁ ht hminds hs (hat.elim fun _ h => h) hrun).1

/-- A block that the word opens. -/
theorem block (opener : Keyword) {spot : TokenStream → Nat → Prop} {r' : Rule} {body : Parse Unit}
    (hr : r'.saysCloser = true) (hcloser : r'.closer?.all (· == opener) = true)
    (hbody : Heeds (· = opener) false r' (fun _ => spot) Whatever body) :
    Heeds NoWord false r (fun _ => spot) Fitting (Production.node r' body) := by
  refine nodeOfRule hr (fun w hw => ?_) hbody
  rw [Option.mem_def.1 hw] at hcloser
  exact beq_iff_eq.1 hcloser

/-- A node that is no block, or none that `End` closes. -/
theorem node {spot : TokenStream → Nat → Prop} {r' : Rule} {body : Parse Unit}
    (hr : r'.saysCloser = true) (hcloser : r'.closer? = none)
    (hbody : Heeds NoWord false r' (fun _ => spot) Whatever body) :
    Heeds NoWord false r (fun _ => spot) Fitting (Production.node r' body) := by
  refine nodeOfRule hr (fun w hw => ?_) hbody
  rw [hcloser] at hw
  cases hw

/-- A node around a finished one. -/
theorem wrap {r' : Rule} {x : Node} (hr : r'.saysCloser = true) (hcloser : r'.closer? = none) :
    Heeds own false r (fun word t i => x.Fits t word i) Fitting (Production.wrap r' x) := by
  intro env first word s n s' ht hminds hs hat hrun
  cases hrun
  refine ⟨hs, rfl, ?_, ?_, fun hkind => ?_⟩
  · have hkept : Kept env.tokens r' x.info.firstToken word [x] :=
      ⟨trivial, hat.heedful, fun hkind hcloses => absurd hcloses (hat.not_closesAt hkind)⟩
    refine hkept.finish ?_
    rw [Node.closer?_of_kind rfl hr, hcloser]
    exact ⟨trivial, hat.heedful.none, fun _ hcloses => absurd hcloses TokenStream.not_closesAt_none⟩
  · exact ht.stop_spanFrom_le (Nat.le_refl _) hs.le_size
  · obtain rfl := NodeKind.rule.inj hkind
    exact Bool.noConfusion hr

-- ---------------------------------------------------------------------------
-- Repetition
-- ---------------------------------------------------------------------------

theorem repeatWhileKnown {known : Option Keyword → Prop} {step : Parse Bool}
    (hstep : Heeds own false r (fun word _ _ => known word) Whatever step) :
    Heeds own false r (fun word _ _ => known word) Whatever (Production.repeatWhile step) := by
  intro env first word s u s' ht hminds hs hknown hrun
  have hkept := iterateUpTo_invariant
    (fun s₁ => s₁.Heedful env.tokens r first word ∧ s₁.blocks = s.blocks)
    (fun _ s₁ y s₂ hs₁ hrun₁ => ?_) _ ⟨hs, rfl⟩ hrun
  · exact ⟨hkept.1, hkept.2, trivial⟩
  · obtain ⟨more, s₃, hfirst, hrest⟩ := bind_eq_ok hrun₁
    cases hrest
    obtain ⟨hs₂, hblocks, -⟩ :=
      hstep env first word s₁ more _ ht (hminds.of_blocks hs₁.2) hs₁.1 hknown hfirst
    exact ⟨hs₂, hblocks.trans hs₁.2⟩

theorem repeatWhile {step : Parse Bool} (hstep : Heeds own false r Anywhere Whatever step) :
    Heeds own false r pre Whatever (Production.repeatWhile step) := by
  have hsteps : Heeds own false r (fun _ _ _ => True) Whatever (Production.repeatWhile step) :=
    repeatWhileKnown hstep
  exact hsteps.mono (fun _ _ _ _ => trivial) fun _ h => h

/-- One more round of a repetition. -/
theorem round {p : Parse Unit} {b : Bool} (hp : Heeds own false r pre Whatever p) :
    Heeds own false r pre Whatever (p >>= fun _ => Pure.pure b) :=
  seq hp pure

-- ---------------------------------------------------------------------------
-- Bodies
-- ---------------------------------------------------------------------------

/-- Where no line that belongs to an open block begins, no closing line of an open block does. -/
theorem not_closesAt_of_atBoundary {env : Env} {s : State} {word : Option Keyword}
    (hat : env.atBoundary s = false) (hminds : Minds NoWord word s) :
    ¬env.tokens.ClosesAt word s.cursor := by
  intro hcloses
  obtain ⟨w, rfl, hw⟩ := Option.map_eq_some_iff.1 hcloses.word
  obtain ⟨hword, hopen⟩ := hminds w rfl
  unfold Env.atBoundary at hat
  rw [show env.kind s = .keyword .kwEnd from hcloses.end,
    show env.kindAhead s 1 = .keyword w from hw.symm] at hat
  simp only [hword, hopen.resolve_right id, Bool.and_true] at hat
  cases hat

theorem ifBoundary {p q : Parse α} (hp : Heeds NoWord closing r pre post p)
    (hq : Heeds NoWord closing r (fun word t i => pre word t i ∧ Sheltered word t i) post q) :
    Heeds NoWord closing r pre post (Production.atBoundary >>= fun x => if x =
      true then p else q) := by
  intro env first word s a s' ht hminds hs hat hrun
  unfold Production.atBoundary at hrun
  rw [(Looks.test _).run_bind] at hrun
  split at hrun
  · exact hp env first word s a s' ht hminds hs hat hrun
  · refine hq env first word s a s' ht hminds hs ⟨hat, ?_⟩ hrun
    exact not_closesAt_of_atBoundary (Bool.eq_false_iff.2 ‹_›) hminds

theorem body {item : Parse Unit} (hitem : Heeds NoWord false r Sheltered Whatever item) :
    Heeds NoWord false r pre Whatever (Production.body item) :=
  repeatWhile (ifBoundary pure (round (hitem.mono (fun _ _ _ h => h.2) fun _ h => h)))

-- ---------------------------------------------------------------------------
-- Open blocks
-- ---------------------------------------------------------------------------

/-- A block is opened, and what follows closes it. -/
theorem openBlockAt {opener : Keyword} (l : Nat) {k : Unit → Parse β}
    (hk : Heeds NoWord true r pre post' (k ())) :
    Heeds (· = opener) false r pre post' (Production.openBlockAt opener l >>= k) := by
  intro env first word s b s' ht hminds hs hat hrun
  have hminds₁ : Minds NoWord word { s with blocks := ⟨opener, l⟩ :: s.blocks } := by
    intro w hw
    obtain ⟨hword, hopen⟩ := hminds w hw
    refine ⟨hword, .inl ?_⟩
    rw [isOpen, List.any_cons, Bool.or_eq_true, beq_iff_eq]
    exact hopen.symm.imp_left Eq.symm
  exact hk env first word _ b s' ht hminds₁ (hs.move ht rfl (Nat.le_refl _) hs.le_size) hat hrun

theorem openBlock {opener : Keyword} {k : Unit → Parse β}
    (hk : Heeds NoWord true r pre post' (k ())) :
    Heeds (· = opener) false r pre post' (Production.openBlock opener >>= k) := by
  refine of_runs fun env s => ⟨_, openBlockAt (env.line s) hk, ?_⟩
  rw [run_bind, run_bind]
  rfl

/-- The innermost block is closed. What follows the words of the closing line is on that line, and
the block is open no more. -/
theorem closeBlock (opener : Keyword) {k : Parse Unit}
    (hk : Heeds AnyWord false r Inner Whatever k) :
    Heeds own true r pre Whatever
      (Production.closeBlock opener >>= fun x => if x = true then k else Pure.pure ()) := by
  intro env first word s u s' ht hminds hs _ hrun
  obtain ⟨x, s₁, hclose, hrest⟩ := bind_eq_ok hrun
  cases x with
  | true =>
    have houtcome := outcome_closeBlock (m := .quiet) opener hs.le_size
    rw [hclose] at houtcome
    have ha := Stepped.quiet (s := { s with blocks := s.blocks.tail }) houtcome (by decide)
    have hleft : State.Heedful env.tokens r first word { s with blocks := s.blocks.tail } :=
      hs.move ht rfl (Nat.le_refl _) hs.le_size
    have hs₁ := hleft.advanced ht ha (Nat.le_refl _) ha.stop_le
    have hminds₁ : Minds AnyWord word s₁ := fun w hw => ⟨(hminds w hw).1, .inr trivial⟩
    obtain ⟨hs', hblocks, -⟩ :=
      hk env first word s₁ u s' ht hminds₁ hs₁ (inside_of_closeBlock hclose) hrest
    exact ⟨hs', hblocks.trans ha.blocks, trivial⟩
  | false =>
    cases hrest
    rw [closeBlock_eq, (Looks.test _).run_bind] at hclose
    split at hclose
    · obtain ⟨_, s₂, -, hrest⟩ := bind_eq_ok hclose
      obtain ⟨_, s₃, -, hrest⟩ := bind_eq_ok hrest
      cases hrest
    · cases hclose
      exact ⟨hs.move ht rfl (Nat.le_refl _) hs.le_size, rfl, trivial⟩

-- ---------------------------------------------------------------------------
-- Recovery
-- ---------------------------------------------------------------------------

theorem recover (f : Failure) : Heeds own false r Sheltered Fitting (Production.recover f) := by
  intro env first word s n s' ht hminds hs hat hrun
  have hbounds := regionEnd_bounds env (0 < s.singleLineIfs) s.cursor s.cursor hs.le_size
  cases hrun
  refine ⟨hs.move ht rfl hbounds.1 hbounds.2, rfl, ?_⟩
  exact Node.fits_error ht (Nat.le_refl _) hbounds.2 hat

/-- A header, or what was read of it and an error region behind that. The region begins with a
closing line only where a token is lost in front of it. -/
theorem recovering {loses : Bool} {mid : Place} {p : Parse Unit} (hp : Treads loses pre mid p)
    (hloses : loses = true → r.keepsBrokenHeader = true) :
    Heeds own false r pre Whatever (Production.recovering p) := by
  intro env first word s u s' ht _ hs hat hrun
  have houtcome := hp.outcome env s word hs.le_size hat
  unfold Production.recovering at hrun
  cases hfirst : p env s with
  | ok u s₁ =>
    rw [hfirst] at hrun houtcome
    cases hrun
    have ha := houtcome.1.quiet (Manner.le_refl _)
    exact ⟨hs.advanced ht ha (Nat.le_refl _) ha.stop_le, ha.blocks, trivial⟩
  | error f s₁ =>
    rw [hfirst] at hrun houtcome
    obtain ⟨stop, hstop, ha, -⟩ := Failed.kept houtcome (Manner.le_refl _)
    have hsize := Nat.le_trans houtcome.cursor_le houtcome.index_le
    have hbounds := regionEnd_bounds env (0 < s₁.singleLineIfs) s₁.cursor s₁.cursor hsize
    have hs₁ := hs.advanced ht ha hstop hsize
    have hs₂ : State.Heedful env.tokens r first word
        { s₁ with cursor := regionEnd env (0 < s₁.singleLineIfs) s₁.cursor s₁.cursor } :=
      hs₁.move ht rfl hbounds.1 hbounds.2
    have hcloses : env.tokens.ClosesAt word s₁.cursor →
        r.keepsBrokenHeader = true ∧ ∃ k, s.cursor ≤ k ∧ k < s₁.cursor ∧
          (env.tokens.kindAt k).isTerminator = false ∧
          ∀ c ∈ s₁.children, c.span.stop ≤ (env.tokens.get k).span.start := by
      intro hcloses
      obtain ⟨hl, k, hk, hlt, hkind, hchildren⟩ :=
        hp.breaks env s word f s₁ ht hs.le_size hat hfirst hcloses
      refine ⟨hloses hl, k, hk, hlt, hkind, fun c hc => (hchildren c hc).elim (fun hc => ?_) id⟩
      exact Nat.le_trans (hs.stop_le c hc)
        (ht.start_le_start hk (Nat.le_trans (Nat.le_of_lt hlt) hsize))
    cases hrun
    refine ⟨⟨hs₂.first_le, hs₂.le_size, List.forall_mem_cons.2 ⟨?_, hs₂.stop_le⟩, hs₂.kept,
      Node.heedful_error _, fun _ hat₁ => ?_⟩, ha.blocks, trivial⟩
    · exact ht.stop_spanFrom_le (Nat.le_refl _) hbounds.2
    · obtain ⟨hkeeps, k, hk, hrest⟩ := hcloses hat₁
      exact ⟨hkeeps, k, Nat.le_trans hs.first_le hk, hrest⟩

/-- The rest of a line. A region behind what is on the line does not begin another. -/
theorem endLine :
    Heeds own false r Inner Whatever (Production.recovering Production.endStatement) :=
  have hline : Treads false Sheltered Anywhere Production.endStatement := Treads.endStatement
  (recovering hline nofun).mono sheltered_of_inner fun _ h => h

theorem finishBlock (opener : Keyword) :
    Heeds own true r pre Whatever (Production.finishBlock opener) :=
  closeBlock opener endLine

theorem unexpected (e : Expected) :
    Heeds own false r Sheltered Fitting (Production.unexpected e) :=
  of_runs fun _ s => ⟨_, recover ⟨s.cursor, .unexpected e⟩, rfl⟩

theorem orRecover {p : Parse Node} (hp : Heeds own false r pre Fitting p)
    (hpre : ∀ word t i, pre word t i → Sheltered word t i) :
    Heeds own false r pre Fitting p.orRecover := by
  intro env first word s n s' ht hminds hs hat hrun
  rw [Parse.orRecover_eq] at hrun
  cases hfirst : p env s with
  | ok x s₁ =>
    rw [hfirst] at hrun
    cases hrun
    exact hp env first word s _ _ ht hminds hs hat hfirst
  | error f s₁ =>
    rw [hfirst] at hrun
    exact recover f env first word s n s' ht hminds hs (hpre _ _ _ hat) hrun

theorem firstFit (a : Ambiguity) {alternatives : List Alternative}
    (hfits : ∀ x ∈ alternatives, Heeds own false r pre Fitting x.production)
    (best : Option Failure) :
    Heeds own false r pre Fitting (Production.firstFit a best alternatives) := by
  induction alternatives generalizing best with
  | nil => exact fun _ _ _ _ _ _ _ _ _ _ hrun => by cases hrun
  | cons x rest ih =>
    obtain ⟨hx, hrest⟩ := List.forall_mem_cons.1 hfits
    intro env first word s n s' ht hminds hs hat hrun
    rw [Parse.firstFit_cons_eq] at hrun
    split at hrun
    · cases hfirst : x.production env s with
      | ok y s₁ =>
        rw [hfirst] at hrun
        cases hrun
        exact hx env first word s _ _ ht hminds hs hat hfirst
      | error f s₁ =>
        rw [hfirst] at hrun
        exact ih hrest _ env first word s n s' ht hminds hs hat hrun
    · exact ih hrest best env first word s n s' ht hminds hs hat hrun

theorem resolve (a : Ambiguity) {alternatives : List Alternative}
    (hfits : ∀ x ∈ alternatives, Heeds own false r pre Fitting x.production) :
    Heeds own false r pre Fitting (Production.resolve a alternatives) :=
  checkDepth (firstFit a hfits _)

end Heeds

end Production

end VisualBasic
