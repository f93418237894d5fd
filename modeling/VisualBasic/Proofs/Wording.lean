import VisualBasic.Proofs.Alongside
import VisualBasic.Proofs.LetterCase
import VisualBasic.Proofs.LoudDeclarations

/-!
# The wording of diagnostics

The grammar reads tokens. The text of the source is looked at in one place only: a diagnostic quotes
the token that was found. So a run without the source does what the run with it does, but for what
its diagnostics quote; this is an equation between runs, and holds of every phrase and every passage
because each rule keeps it. Hence the tree of a stream does not depend on the text from which the
stream was read, and texts that differ in the case of letters have the same tree.

Main results:

* `Phrase.ignoresText`, `Passage.ignoresText` — leaving the source out changes no more than what
  diagnostics quote.
* `Tree.ofTokens_congr` — two sources with the same tokens have the same tree.
* `Tree.caseless` — the case of ASCII letters matters neither to the scanner nor to the tree.
-/

namespace VisualBasic

-- ---------------------------------------------------------------------------
-- Without the source
-- ---------------------------------------------------------------------------

/-- The cause without the text of the token that was found. -/
def Cause.wordless : Cause → Cause
  | .unexpected expected found _ => .unexpected expected found []
  | cause => cause

/-- A diagnostic without what it quotes of the text. -/
def Diagnostic.wordless (d : Diagnostic) : Diagnostic := { d with cause := d.cause.wordless }

/-- The same tokens without the source. -/
def Env.wordless (env : Env) : Env := { env with source := [] }

/-- A state whose diagnostics quote nothing. -/
def State.wordless (s : State) : State :=
  { s with diagnostics := s.diagnostics.map Diagnostic.wordless }

/-- A failure tells the same of both, but for what it quotes. -/
theorem Failure.diagnostic_wordless (f : Failure) (env : Env) (region : Span) :
    f.diagnostic env.wordless region = (f.diagnostic env region).wordless := by
  unfold Failure.diagnostic
  cases f.mismatch <;> rfl

namespace Production

open State

variable {α β : Type} {spot : Spot}

/-- What came of a run, without what diagnostics quote. -/
def outcomeWordless : EStateM.Result Failure State α → EStateM.Result Failure State α
  | .ok a s => .ok a s.wordless
  | .error f s => .error f s.wordless

/-- Without the source a run does the same, but for what diagnostics quote. -/
def IgnoresText (spot : Spot) (p : Parse α) : Prop :=
  ∀ env s, s.cursor ≤ env.tokens.tokens.size → spot.Holds env s →
    p env.wordless s.wordless = outcomeWordless (p env s)

/-- The tokens are the same, and so are their places. -/
theorem env_alike_wordless (env : Env) : Env.Alike 0 (.whole false) env env.wordless :=
  ⟨rfl, rfl, fun _ _ => rfl, fun _ _ => rfl, nofun, nofun⟩

theorem state_alike_wordless {env : Env} {s : State} (hs : s.cursor ≤ env.tokens.tokens.size) :
    State.Alike 0 (.whole false) env.tokens env.wordless.tokens s s.wordless := by
  refine ⟨rfl, hs, rfl, rfl, rfl, rfl, ?_⟩
  rintro ⟨⟩

-- ---------------------------------------------------------------------------
-- The parts of phrases
-- ---------------------------------------------------------------------------

namespace IgnoresText

/-- Two parts that do not read the text. -/
theorem bind {p : Parse α} {k : α → Parse β} (hclimbs : Climbs p)
    (hp : IgnoresText spot p) (next : α → Spot)
    (hnext : ∀ env s a s', spot.Holds env s → p env s = .ok a s' → (next a).Holds env s')
    (hk : ∀ a, IgnoresText (next a) (k a)) : IgnoresText spot (p >>= k) := by
  intro env s hs hspot
  have hfirst := hp env s hs hspot
  rw [run_bind, run_bind, hfirst]
  cases hrun : p env s with
  | error f s₁ => rfl
  | ok a s₁ =>
    have hlater := hclimbs.ok hs hrun
    exact hk a env s₁ hlater.le_size (hnext env s a s₁ hspot hrun)

/-- A look at kinds. -/
theorem look {part : Bool} {p : Parse α} {seen : Env → State → α} {k : α → Parse β}
    (hp : Looks p seen) (hseen : SteadyIn 0 part spot seen) (next : α → Spot)
    (hnext : ∀ env s, spot.Holds env s → (next (seen env s)).Holds env s)
    (hk : ∀ a, IgnoresText (next a) (k a)) : IgnoresText spot (p >>= k) := by
  intro env s hs hspot
  have hsame : seen env.wordless s.wordless = seen env s :=
    hseen (.whole false) env env.wordless s s.wordless trivial (env_alike_wordless env)
      (state_alike_wordless hs) trivial hspot
  rw [hp.run_bind, hp.run_bind, hsame]
  exact hk _ env s hs (hnext env s hspot)

/-- A leaf has a kind and a place. -/
theorem leaf (kind : NodeKind) : IgnoresText spot (Production.leaf kind) :=
  fun _ _ _ _ => rfl

theorem tokenLeaf : IgnoresText spot Production.tokenLeaf :=
  fun _ _ _ _ => rfl

/-- A token is attached as a leaf. -/
theorem take : IgnoresText spot Production.take :=
  fun _ _ _ _ => rfl

theorem ifTake (kind : TokenKind) (e : Expected) : IgnoresText spot
    (atKind kind >>= fun x => if x = true then Production.take else Production.fail e) := by
  intro env s hs hspot
  have hsame : env.wordless.kind s.wordless = env.kind s := rfl
  unfold atKind
  rw [(Looks.test _).run_bind, (Looks.test _).run_bind, hsame]
  split
  · exact take env s hs hspot
  · rfl

theorem checkDepth : IgnoresText spot Production.checkDepth := by
  intro env s _ _
  change (if env.limit ≤ env.depth then _ else _) = _
  unfold Production.checkDepth
  split <;> rfl

/-- A node has a span and children. -/
theorem construct {r : Rule} {first : Nat} {body : Parse Unit} (hbody : IgnoresText spot body) :
    IgnoresText spot (Production.construct r first body) := by
  intro env s hs hspot
  have hinner : body env.wordless { s.wordless with children := [], isPartial := false } =
      outcomeWordless (body env { s with children := [], isPartial := false }) :=
    hbody env { s with children := [], isPartial := false } hs (hspot.same rfl rfl)
  rw [Parse.construct_eq, Parse.construct_eq, hinner]
  cases body env { s with children := [], isPartial := false } <;> rfl

/-- By induction on the rounds. -/
theorem iterateUpTo {step : α → Parse (Option α)} (good : Env → State → Prop)
    (hclimbs : ∀ x, Climbs (step x))
    (hgood : ∀ x env s y s', good env s → step x env s = .ok y s' → good env s')
    (hstep : ∀ x env s, s.cursor ≤ env.tokens.tokens.size → good env s →
      step x env.wordless s.wordless = outcomeWordless (step x env s))
    (n : Nat) (x : α) (env : Env) (s : State) (hs : s.cursor ≤ env.tokens.tokens.size)
    (hgs : good env s) :
    Production.iterateUpTo step n x env.wordless s.wordless =
      outcomeWordless (Production.iterateUpTo step n x env s) := by
  induction n generalizing x s with
  | zero => rfl
  | succ n ih =>
    rw [iterateUpTo_succ, run_bind, run_bind, hstep x env s hs hgs]
    cases hrun : step x env s with
    | error f s₁ => rfl
    | ok y s₁ =>
      cases y with
      | none => rfl
      | some y => exact ih y s₁ ((hclimbs x).ok hs hrun).le_size (hgood x env s _ s₁ hgs hrun)

end IgnoresText

variable {strict closing lands : Bool} {r : α → β → Prop} {p : Parse α} {p' : Parse β}

/-- A phrase does not look at the source. -/
theorem Phrase.ignoresText (h : Phrase 0 strict spot closing lands r p p') :
    IgnoresText spot p := by
  induction h with
  | pure | fail | tooDeep | skip => exact fun _ _ _ _ => rfl
  | checkDepth => exact IgnoresText.checkDepth
  | @bind _ _ _ lands₁ _ _ _ _ _ _ _ _ _ _ _ hp _ ihp ihk =>
    exact IgnoresText.bind hp.climbs ihp (fun _ => .plain lands₁)
      (fun _ _ _ _ hspot hrun => Spot.holds_plain fun hi => hp.inside hspot hrun hi)
      fun a => (Partnered.exists_partner a).elim fun a' ha => ihk a a' ha
  | look hp hseen next hnext _ ih =>
    exact IgnoresText.look hp (hseen.steadyIn false) next hnext ih
  | leaf => exact IgnoresText.leaf _
  | tokenLeaf => exact IgnoresText.tokenLeaf
  | @bindOne _ inside₁ _ _ _ _ cs _ _ _ _ _ _ _ _ _ _ _ hp hone hc hinside _ ihp ihk =>
    exact IgnoresText.bind hp.climbs ihp (fun _ => ⟨inside₁, cs⟩)
      (fun env s a s' hspot hrun => hspot.behind hc hinside (hone env s a s' hrun))
      fun a => (Partnered.exists_partner a).elim fun a' ha => ihk a a' ha
  | openParen _ ih =>
    exact IgnoresText.bind (Climbs.ifTake _) (IgnoresText.ifTake _ _) (fun _ => .plain true)
      (fun _ _ _ _ _ hrun => Spot.holds_plain fun _ => inside_of_ifTake hrun ⟨rfl, rfl⟩ rfl)
      fun _ => ih
  | closeParen e => exact IgnoresText.ifTake _ e
  | @attachThen _ _ _ _ _ _ _ _ n _ _ _ ih =>
    exact fun env s hs hspot => ih env { s with children := n :: s.children } hs
      (hspot.same rfl rfl)
  | node _ _ ih => exact fun env s => IgnoresText.construct ih env s
  | nodeFrom _ _ _ ih => exact IgnoresText.construct ih
  | @iterate spot _ _ _ _ _ _ _ _ hstep _ _ ih =>
    intro env s hs hspot
    refine IgnoresText.iterateUpTo (fun env s => spot.inside = true → env.tokens.Inside s.cursor)
      (fun x => (Partnered.exists_partner x).elim fun y hy => (hstep x y hy).climbs)
      (fun x env s y s' hgood hrun hi => ?_) (fun x env s hs hgood => ?_) _ _ env s hs hspot.inside
    · exact (Partnered.exists_partner x).elim fun x' hx =>
        (hstep x x' hx).inside (Spot.holds_plain hgood) hrun hi
    · exact (Partnered.exists_partner x).elim fun x' hx =>
        ih x x' hx env s hs (Spot.holds_plain hgood)
  | nested _ ih =>
    exact fun env s hs hspot => ih { env with depth := env.depth + 1 } s hs (hspot.same rfl rfl)
  | byRoom _ ih => exact fun env s hs hspot => ih env.room env s hs hspot
  | mono _ hspot' _ ih => exact fun env s hs hspot => ih env s hs (hspot' env s hspot)

-- ---------------------------------------------------------------------------
-- The parts of passages
-- ---------------------------------------------------------------------------

namespace IgnoresText

/-- The text that a region quotes is left out. -/
theorem recover (f : Failure) : IgnoresText spot (Production.recover f) := by
  intro env s _ _
  have hregion : regionEnd env.wordless (0 < s.wordless.singleLineIfs) s.wordless.cursor
      s.wordless.cursor = regionEnd env (0 < s.singleLineIfs) s.cursor s.cursor :=
    (env_alike_wordless env).regionEnd _ _ _
  unfold Production.recover
  dsimp only
  rw [hregion, f.diagnostic_wordless]
  rfl

theorem forM_take {word : Type} (words : List word) (env : Env) (s : State) :
    (words.forM fun _ => Production.take) env.wordless s.wordless =
      outcomeWordless ((words.forM fun _ => Production.take) env s) := by
  induction words generalizing s with
  | nil => rfl
  | cons word rest ih =>
    change (Production.take >>= fun _ => rest.forM fun _ => Production.take)
      env.wordless s.wordless =
      outcomeWordless ((Production.take >>= fun _ => rest.forM fun _ => Production.take) env s)
    rw [run_bind, run_bind]
    exact ih ⟨env.next s.cursor, _ :: s.children, s.isPartial, s.diagnostics, s.blocks,
      s.singleLineIfs⟩

/-- Whether the closing words are there is a matter of kinds. -/
theorem closeBlock (opener : Keyword) : IgnoresText spot (Production.closeBlock opener) := by
  intro env s _ _
  have hsame : env.wordless.atCloser s.wordless opener = env.atCloser s opener := rfl
  rw [closeBlock_eq, (Looks.test _).run_bind, (Looks.test _).run_bind, hsame]
  split
  · rw [run_bind, run_bind]
    change ((opener.closer.forM fun _ => Production.take) >>= fun _ => Pure.pure true) env.wordless
        (State.wordless { s with blocks := s.blocks.tail }) =
      outcomeWordless
        (((opener.closer.forM fun _ => Production.take) >>= fun _ => Pure.pure true) env
        { s with blocks := s.blocks.tail })
    rw [run_bind, run_bind, forM_take]
    cases (opener.closer.forM fun _ => Production.take) env
      { s with blocks := s.blocks.tail } <;> rfl
  · rfl

/-- A failure in the one is the same failure in the other. -/
theorem orRecover {p : Parse Node} (hp : IgnoresText spot p) : IgnoresText spot p.orRecover := by
  intro env s hs hspot
  have hfirst := hp env s hs hspot
  rw [Parse.orRecover_eq, Parse.orRecover_eq, hfirst]
  cases p env s with
  | ok n s₁ => rfl
  | error f s₁ => exact recover f env s hs hspot

theorem recovering {p : Parse Unit} (hclimbs : Climbs p) (hp : IgnoresText spot p) :
    IgnoresText spot p.recovering := by
  intro env s hs hspot
  have hfirst := hp env s hs hspot
  have hlater := hclimbs env s hs
  unfold Production.recovering
  rw [hfirst]
  cases hrun : p env s with
  | ok n s₁ => rfl
  | error f s₁ =>
    rw [hrun] at hlater
    have hspot₁ : (Spot.plain false).Holds env s₁ := Spot.holds_plain nofun
    have hregion : Production.recover f env.wordless s₁.wordless =
        outcomeWordless (Production.recover f env s₁) :=
      recover f env s₁ hlater.le_size hspot₁
    change (Production.recover f >>= Production.attach) env.wordless s₁.wordless =
      outcomeWordless ((Production.recover f >>= Production.attach) env s₁)
    rw [run_bind, run_bind, hregion]
    rfl

/-- Which rule fits is a matter of kinds. -/
theorem firstFit_cons {part : Bool} {a : Ambiguity} {x : Alternative} {rest : List Alternative}
    (hviable : SteadyIn 0 part spot x.viable) (hx : IgnoresText spot x.production)
    (hrest : ∀ best, IgnoresText spot (firstFit a best rest)) (best : Option Failure) :
    IgnoresText spot (firstFit a best (x :: rest)) := by
  intro env s hs hspot
  have hsame : x.viable env.wordless s.wordless = x.viable env s :=
    hviable (.whole false) env env.wordless s s.wordless trivial (env_alike_wordless env)
      (state_alike_wordless hs) trivial hspot
  have hfirst := hx env s hs hspot
  rw [Parse.firstFit_cons_eq, Parse.firstFit_cons_eq, hsame, hfirst]
  split
  · cases x.production env s with
    | ok n s₁ => rfl
    | error f s₁ => exact hrest _ env s hs hspot
  · exact hrest best env s hs hspot

theorem inSingleLineIf {p : Parse Unit} (hp : IgnoresText spot p) :
    IgnoresText spot p.inSingleLineIf := by
  intro env s hs hspot
  have hinner := hp env { s with singleLineIfs := s.singleLineIfs + 1 } hs (hspot.same rfl rfl)
  change (p >>= fun _ => modify fun s => { s with singleLineIfs := s.singleLineIfs - 1 })
    env.wordless
      (State.wordless { s with singleLineIfs := s.singleLineIfs + 1 }) =
    outcomeWordless
      ((p >>= fun _ => modify fun s => { s with singleLineIfs := s.singleLineIfs - 1 }) env
      { s with singleLineIfs := s.singleLineIfs + 1 })
  rw [run_bind, run_bind, hinner]
  cases p env { s with singleLineIfs := s.singleLineIfs + 1 } <;> rfl

end IgnoresText

variable {part : Bool}

/-- A passage looks at the source only for what its diagnostics quote. -/
theorem Passage.ignoresText (h : Passage 0 part spot closing r p p') : IgnoresText spot p := by
  induction h with
  | quiet hp => exact hp.ignoresText
  | bind hp _ ihp ihk =>
    exact IgnoresText.bind hp.climbs ihp (fun _ => .plain false)
      (fun _ _ _ _ _ _ => Spot.holds_plain nofun)
      fun a => (Partnered.exists_partner a).elim fun a' ha => ihk a a' ha
  | @behind _ _ lands _ _ _ _ _ _ _ _ _ _ _ hp _ ihk =>
    exact IgnoresText.bind hp.climbs hp.ignoresText (fun _ => .plain lands)
      (fun _ _ _ _ hspot hrun => Spot.holds_plain fun hi => hp.inside hspot hrun hi)
      fun a => (Partnered.exists_partner a).elim fun a' ha => ihk a a' ha
  | @behindOne _ inside₁ _ _ _ cs _ _ _ _ _ _ _ _ _ _ _ hp hone hc hinside _ ihk =>
    exact IgnoresText.bind hp.climbs hp.ignoresText (fun _ => ⟨inside₁, cs⟩)
      (fun env s a s' hspot hrun => hspot.behind hc hinside (hone env s a s' hrun))
      fun a => (Partnered.exists_partner a).elim fun a' ha => ihk a a' ha
  | @checked spot _ _ _ _ _ _ _ ih =>
    refine IgnoresText.bind Climbs.checkDepth IgnoresText.checkDepth (fun _ => spot) ?_ fun _ => ih
    intro env s _ s' hspot hrun
    rwa [checkDepth_eq_ok hrun]
  | look hp hseen next hnext _ ih => exact IgnoresText.look hp hseen next hnext ih
  | line _ ih => exact fun env s hs hspot => ih (env.line s) (env.line s) env s hs hspot
  | opening opener l _ _ ih =>
    exact fun env s hs hspot => ih env { s with blocks := ⟨opener, l⟩ :: s.blocks } hs
      (hspot.same rfl rfl)
  | closing opener _ ih =>
    refine IgnoresText.bind (Climbs.closeBlock opener) (IgnoresText.closeBlock opener)
      (fun b => .plain b) (fun env s b s' _ hrun => ?_) ih
    exact Spot.holds_plain fun hb => inside_of_closeBlock (hb ▸ hrun)
  | node _ _ ih => exact fun env s => IgnoresText.construct ih env s
  | iterate hstep _ _ ih =>
    intro env s hs _
    refine IgnoresText.iterateUpTo (fun _ _ => True)
      (fun x => (Partnered.exists_partner x).elim fun y hy => (hstep x y hy).climbs)
      (fun _ _ _ _ _ _ _ => trivial) (fun x env s hs _ => ?_) _ _ env s hs trivial
    exact (Partnered.exists_partner x).elim fun x' hx =>
      ih x x' hx env s hs (Spot.holds_plain nofun)
  | nested _ ih =>
    exact fun env s hs hspot => ih { env with depth := env.depth + 1 } s hs (hspot.same rfl rfl)
  | byRoom _ ih => exact fun env s hs hspot => ih env.room env s hs hspot
  | mono _ hspot' ih => exact fun env s hs hspot => ih env s hs (hspot' env s hspot)
  | orRecover _ ih => exact IgnoresText.orRecover ih
  | recovering hp => exact IgnoresText.recovering hp.climbs hp.ignoresText
  | unexpected e => exact fun env s => IgnoresText.recover ⟨s.cursor, .unexpected e⟩ env s
  | inSingleLineIf _ ih => exact IgnoresText.inSingleLineIf ih
  | noneFits => exact fun _ _ _ _ => rfl
  | tryNext hviable _ _ _ ihx ihrest =>
    exact IgnoresText.firstFit_cons hviable ihx (fun best => ihrest best best) _

end Production

-- ---------------------------------------------------------------------------
-- Trees
-- ---------------------------------------------------------------------------

namespace Tree

/-- The trees have the same nodes with the same spans, and the same diagnostics at the same places
but for what these quote. -/
structure Congruent (t t' : Tree) : Prop where
  root : t.root = t'.root
  table : t.table = t'.table
  diagnostics : t.diagnostics.map Diagnostic.wordless = t'.diagnostics.map Diagnostic.wordless

/-- What the grammar makes of a stream without its source. -/
theorem result_wordless (source : List Char) (tokens : TokenStream) (limit : Nat)
    {ds : List Diagnostic} (hds : ds.map Diagnostic.wordless = ds) :
    let result := Production.NeverFails.sourceFile.result { source, tokens, limit }
        ({ diagnostics := ds } : State)
    Production.NeverFails.sourceFile.result { source := [], tokens, limit }
    ({ diagnostics := ds } : State) =
      (result.1, result.2.wordless) := by
  have hpassage : Production.Makes 0 false {} Production.sourceFile := Production.Passage.sourceFile
  have hignores := hpassage.ignoresText { source, tokens, limit } { diagnostics := ds }
      (Nat.zero_le _)
    (Spot.holds_plain nofun)
  have hstate : State.wordless { diagnostics := ds } = { diagnostics := ds } := by
    rw [State.wordless, hds]
  have hwhole := Production.NeverFails.sourceFile.run_eq { source, tokens, limit }
    ({ diagnostics := ds } : State)
  rw [hstate, hwhole] at hignores
  have hrun := Production.NeverFails.sourceFile.run_eq { source := [], tokens, limit }
    ({ diagnostics := ds } : State)
  have hresults := hrun.symm.trans hignores
  injection hresults with hroot hstate
  exact Prod.ext hroot hstate

/-- The tree of a stream does not depend on the text of the source. -/
theorem ofTokens_congr {source source' : List Char} (tokens : TokenStream) (limit : Nat)
    (hlength : Text.byteLength source = Text.byteLength source') :
    (ofTokens source tokens limit).Congruent (ofTokens source' tokens limit) := by
  have hlexical : (tokens.errors.map Diagnostic.ofLexicalError).reverse.map Diagnostic.wordless =
      (tokens.errors.map Diagnostic.ofLexicalError).reverse := by
    rw [List.map_reverse, List.map_map]
    rfl
  have hresults := (result_wordless source tokens limit hlexical).symm.trans
    (result_wordless source' tokens limit hlexical)
  obtain ⟨hroot, hstate⟩ := Prod.mk.inj hresults
  have hdiagnostics := congrArg State.diagnostics hstate
  have hsort (ds : List Diagnostic) :
      (ds.mergeSort fun a b => a.span.start ≤ b.span.start).map Diagnostic.wordless =
        (ds.map Diagnostic.wordless).mergeSort fun a b => a.span.start ≤ b.span.start :=
    List.map_mergeSort fun _ _ _ _ => rfl
  refine ⟨?_, ?_, ?_⟩
  · simp only [ofTokens, make, hroot, hlength]
  · simp only [ofTokens, make, hroot, hlength]
  · simp only [ofTokens, make, hsort, List.map_reverse]
    exact congrArg (fun ds => ds.reverse.mergeSort fun a b => a.span.start ≤ b.span.start)
      hdiagnostics

/-- The case of ASCII letters does not matter: sources that differ in no more than that have the
same tokens, trivia and lexical errors, exceed the same limits, and have the same tree. -/
theorem caseless (s t : List Char) (h : Text.foldCase s = Text.foldCase t) :
    TokenStream.ofText s = TokenStream.ofText t ∧ (parse s).Congruent (parse t) ∧
      ∀ limits, (∀ e, parseWithin limits s = .error e ↔ parseWithin limits t = .error e) ∧
        ∀ u v, parseWithin limits s = .ok u → parseWithin limits t = .ok v → u.Congruent v := by
  have hstream : TokenStream.ofText s = TokenStream.ofText t := by
    rw [← TokenStream.ofText_foldCase s, h, TokenStream.ofText_foldCase]
  have hlength : Text.byteLength s = Text.byteLength t := by
    rw [← Text.byteLength_foldCase s, h, Text.byteLength_foldCase]
  refine ⟨hstream, ?_, fun limits => ?_⟩
  · rw [parse, parse, hstream]
    exact ofTokens_congr _ _ hlength
  · have hcongr := ofTokens_congr (TokenStream.ofText t) limits.maxNestingDepth hlength
    rw [parseWithin_eq, parseWithin_eq, hlength, hstream]
    cases limits.checkInput (Text.byteLength t) with
    | error e => exact ⟨fun _ => Iff.rfl, nofun⟩
    | ok _ =>
      cases limits.checkTokenCount (TokenStream.ofText t).size with
      | error e => exact ⟨fun _ => Iff.rfl, nofun⟩
      | ok _ =>
        refine ⟨fun e => iff_of_false nofun nofun, ?_⟩
        rintro u v ⟨⟩ ⟨⟩
        exact hcongr

/-- Two spellings of a source with a remark, numbers in two bases, a character and a date, and with
a member that is not one. -/
def spellings : List Char × List Char :=
  ("Dim x = &HfFus + 1e3F ' c\n)\nClass A\nSub Run : rem done\ny = #1:00 pm# & \"q\"c\n".toList,
    "DIM X = &hFfUS + 1E3f ' C\n)\ncLASS a\nsub rUN : REM Done\nY = #1:00 PM# & \"Q\"C\n".toList)

theorem caseless_spellings :
    Text.foldCase spellings.1 = Text.foldCase spellings.2 ∧
      TokenStream.ofText spellings.1 = TokenStream.ofText spellings.2 ∧
      (parse spellings.1).Congruent (parse spellings.2) := by
  have hsame : Text.foldCase spellings.1 = Text.foldCase spellings.2 := by decide +kernel
  obtain ⟨hstream, hcongruent, -⟩ := caseless spellings.1 spellings.2 hsame
  exact ⟨hsame, hstream, hcongruent⟩

end Tree

end VisualBasic
