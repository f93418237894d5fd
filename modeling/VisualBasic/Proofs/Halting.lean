import VisualBasic.Proofs.Alongside
import VisualBasic.Proofs.LineEnds
import VisualBasic.Proofs.RoutineHeaders

/-!
# Statements in front of a closing line

The closing line of a routine begins with `End` and the word of the routine. No statement opens a
block with that word, and no phrase goes past an `End` that begins a line. So if no error region is
left behind, statements that begin in front of that line end in front of it, whether or not their
blocks are closed. And they end with their lines, so the next one begins where a line begins.

Main results:

* `Halts.bind`, `Halts.closing`, `Halts.repeatWhile` — the judgement of what is put together.
* `Halts.statement` — a statement does not go past the closing line of a routine.
-/

namespace VisualBasic

-- ---------------------------------------------------------------------------
-- Error regions and closing lines
-- ---------------------------------------------------------------------------

namespace State

/-- Between the two states no error region was left behind. -/
def Unbroken (s s' : State) : Prop :=
  s'.diagnostics.countP (·.kind == .grammatical) ≤ s.diagnostics.countP (·.kind == .grammatical)

variable {t : TokenStream} {s s₁ s₂ : State}

/-- The first part of a run without an error region has none. -/
theorem Unbroken.front (h : Unbroken s s₂) (h' : Later t s₁ s₂) : Unbroken s s₁ :=
  Nat.le_trans h'.diagnostics.sublist.countP_le h

/-- The last part of a run without an error region has none. -/
theorem Unbroken.back (h : Unbroken s s₂) (h' : Later t s s₁) : Unbroken s₁ s₂ :=
  Nat.le_trans h h'.diagnostics.sublist.countP_le

/-- With the diagnostic of an error region, one is left behind. -/
theorem not_unbroken_of_diagnostic {f : Failure} {env : Env} {region : Span} {ds : List Diagnostic}
    (hds : s.diagnostics <:+ ds) (hs₁ : s₁.diagnostics = f.diagnostic env region :: ds) :
    ¬Unbroken s s₁ := by
  unfold Unbroken
  have hle : s.diagnostics.countP (·.kind == .grammatical) ≤ ds.countP (·.kind == .grammatical) :=
    hds.sublist.countP_le
  have hkind : ((f.diagnostic env region).kind == .grammatical) = true :=
    beq_iff_eq.2 (f.kind_diagnostic env region)
  rw [hs₁, List.countP_cons, if_pos hkind]
  omega

end State

namespace TokenStream

/-- A line begins at the index, and it closes blocks of the word. -/
structure ClosingLine (t : TokenStream) (word : Keyword) (e : Nat) : Prop where
  bars : t.Bars false e
  routine : t.kindAt (e + 1) = .keyword word

theorem ClosingLine.end {t : TokenStream} {word : Keyword} {e : Nat} (h : t.ClosingLine word e) :
    t.kindAt e = .keyword .kwEnd :=
  h.bars.2.2.resolve_right fun hless => by cases hless.1

end TokenStream

namespace Production

open State

variable {α β : Type}

/-- Without an error region left behind, there was nothing to recover from. -/
theorem ok_of_recovering {p : Parse Unit} (hp : Climbs p) {env : Env} {s s' : State} {a : Unit}
    (hs : s.cursor ≤ env.tokens.tokens.size) (hrun : p.recovering env s = .ok a s')
    (hwhole : Unbroken s s') :
    p env s = .ok () s' := by
  have hlater := hp env s hs
  unfold Production.recovering at hrun
  cases hfirst : p env s with
  | ok _ s₁ =>
    rw [hfirst] at hrun
    cases hrun
    rfl
  | error f s₁ =>
    rw [hfirst] at hrun hlater
    cases hrun
    exact absurd hwhole (not_unbroken_of_diagnostic hlater.diagnostics rfl)

/-- Where a run ends, as far as it matters for what is done behind it. -/
inductive Ending where
  | anywhere
  /-- It ends with a line if it begins behind one. -/
  | stays
  /-- It ends with its line. -/
  | rests

namespace Ending

/-- What is said of a run from one place to another. -/
def After (t : TokenStream) (i j : Nat) : Ending → Prop
  | anywhere => True
  | stays => t.AtRest i → t.AtRest j
  | rests => t.AtRest j

/-- The ending of two runs, one behind the other. -/
def seq (first : Ending) : Ending → Ending
  | stays => first
  | ending => ending

variable {t : TokenStream} {i j k : Nat} {first second : Ending}

/-- The second run ends as is said of it where the first has ended as is said of it. -/
theorem After.seq (h : first.After t i j) (h' : second.After t j k) :
    (first.seq second).After t i k := by
  cases second with
  | anywhere => trivial
  | rests => exact h'
  | stays =>
    cases first with
    | anywhere => trivial
    | stays => exact fun hi => h' (h hi)
    | rests => exact h' h

end Ending

/-- A run that succeeds and leaves no error region behind does not go past a closing line of the
word, and ends as is said. -/
structure Halts (word : Keyword) (spot : Spot) (ending : Ending) (p : Parse α) : Prop where
  climbs : Climbs p
  halts : ∀ env s a s', s.cursor ≤ env.tokens.tokens.size → spot.Holds env s → p env s = .ok a s' →
    Unbroken s s' → ending.After env.tokens s.cursor s'.cursor ∧
      ∀ e, env.tokens.ClosingLine word e → s.cursor ≤ e → s'.cursor ≤ e

namespace Halts

variable {word : Keyword} {spot : Spot} {inside lands : Bool} {ending first second : Ending}
  {c : TokenKind → Bool} {cs : List (TokenKind → Bool)} {p q : Parse α}

-- ---------------------------------------------------------------------------
-- Rules
-- ---------------------------------------------------------------------------

/-- A phrase goes past no closing line, as it goes past no `End` that begins a line. -/
theorem of_phrase {closing : Bool} {r : α → β → Prop} {p' : Parse β}
    (h : Phrase 0 false spot closing lands r p p') : Halts word spot .anywhere p :=
  ⟨h.climbs, fun _ _ _ _ _ hspot hrun _ => ⟨trivial, fun _ he => h.skirts hspot hrun he.bars⟩⟩

/-- What is quiet and ends with its line. -/
theorem of_rests {closing : Bool} {r : α → β → Prop} {p' : Parse β}
    (h : Phrase 0 false spot closing lands r p p')
    (hrests : ∀ env s a s', p env s = .ok a s' → env.tokens.AtRest s'.cursor) :
    Halts word spot .rests p :=
  ⟨h.climbs, fun env s a s' _ hspot hrun _ =>
    ⟨hrests env s a s' hrun, fun _ he => h.skirts hspot hrun he.bars⟩⟩

/-- What ends with its line ends with one wherever it begins. -/
theorem stays (h : Halts word spot .rests p) : Halts word spot .stays p :=
  ⟨h.climbs, fun env s a s' hs hspot hrun hwhole =>
    (h.halts env s a s' hs hspot hrun hwhole).imp (fun hrests _ => hrests) id⟩

/-- What holds at more places holds at fewer. -/
theorem mono {spot₁ : Spot} (h : Halts word spot ending p)
    (hspot : ∀ env s, spot₁.Holds env s → spot.Holds env s) : Halts word spot₁ ending p :=
  ⟨h.climbs, fun env s a s' hs hspot₁ => h.halts env s a s' hs (hspot env s hspot₁)⟩

/-- What relies on nothing at its place holds at all places. -/
theorem anywhere (h : Halts word (.plain false) ending p) : Halts word spot ending p :=
  h.mono fun _ _ _ => Spot.holds_plain nofun

theorem pure (a : α) : Halts word spot .stays (Pure.pure a : Parse α) := by
  refine ⟨.pure a, fun env s b s' _ _ hrun _ => ?_⟩
  cases hrun
  exact ⟨id, fun _ _ => id⟩

/-- A failure never succeeds. -/
theorem failThen (e : Expected) {k : α → Parse β} :
    Halts word spot ending ((Production.fail e : Parse α) >>= k) :=
  ⟨fun _ _ hs => .refl hs, fun _ _ _ _ _ _ hrun => by cases hrun⟩

theorem tooDeep : Halts word spot ending (Production.tooDeep : Parse α) :=
  ⟨.tooDeep, fun _ _ _ _ _ _ hrun => by cases hrun⟩

/-- Of two parts one behind the other, the second begins at a place of which nothing is known. -/
theorem bind {p : Parse α} {k : α → Parse β} (hp : Halts word spot first p)
    (hk : ∀ a, Halts word (.plain false) second (k a)) :
    Halts word spot (first.seq second) (p >>= k) := by
  refine ⟨hp.climbs.bind fun a => (hk a).climbs, fun env s b s' hs hspot hrun hwhole => ?_⟩
  obtain ⟨a, s₁, hfirst, hrest⟩ := bind_eq_ok hrun
  have hlater := hp.climbs.ok hs hfirst
  have hlater' := (hk a).climbs.ok hlater.le_size hrest
  obtain ⟨hends, hle⟩ := hp.halts env s a s₁ hs hspot hfirst (hwhole.front hlater')
  obtain ⟨hends', hle'⟩ :=
    (hk a).halts env s₁ b s' hlater.le_size (Spot.holds_plain nofun) hrest (hwhole.back hlater)
  exact ⟨hends.seq hends', fun e he hse => hle' e he (hle e he hse)⟩

theorem seq {p : Parse α} {q : Parse β} (hp : Halts word spot first p)
    (hq : Halts word (.plain false) second q) : Halts word spot (first.seq second)
    (p >>= fun _ => q) :=
  bind hp fun _ => hq

/-- Behind a quiet part. -/
theorem after {p : Parse α} {q : Parse β} (hp : Flows 0 false spot lands p)
    (hq : Halts word (.plain false) .rests q) : Halts word spot .rests (p >>= fun _ => q) :=
  seq (of_phrase hp) hq

/-- What does not move and leaves no diagnostics behind, in front of something. -/
theorem still {p : Parse α} {k : α → Parse β}
    (hp : ∀ env s, ∃ a s₁, p env s = .ok a s₁ ∧ s₁.cursor = s.cursor ∧
      s₁.diagnostics = s.diagnostics)
    (hk : ∀ a, Halts word spot ending (k a)) : Halts word spot ending (p >>= k) := by
  constructor
  · intro env s hs
    obtain ⟨a, s₁, hfirst, hcursor, hsame⟩ := hp env s
    have hlater := (hk a).climbs env s₁ (hcursor ▸ hs)
    rw [lastState_bind, hfirst]
    exact ⟨hcursor ▸ hlater.cursor, hlater.le_size, hsame ▸ hlater.diagnostics⟩
  · intro env s b s' hs hspot hrun hwhole
    obtain ⟨a, s₁, hfirst, hcursor, hsame⟩ := hp env s
    rw [run_bind, hfirst] at hrun
    unfold Unbroken at hwhole
    rw [← hsame] at hwhole
    rw [← hcursor] at hs ⊢
    exact (hk a).halts env s₁ b s' hs (hspot.same rfl hcursor) hrun hwhole

/-- Something, and behind it what does not move and leaves no diagnostics behind. -/
theorem thenStill {p : Parse α} {k : α → Parse β} (hp : Halts word spot ending p)
    (hk : ∀ a env s, ∃ b s₁, k a env s = .ok b s₁ ∧ s₁.cursor = s.cursor ∧
      s₁.diagnostics = s.diagnostics) :
    Halts word spot ending (p >>= k) := by
  constructor
  · intro env s hs
    have hlater := hp.climbs env s hs
    rw [lastState_bind]
    cases hfirst : p env s with
    | error f s₁ =>
      rw [hfirst] at hlater
      exact hlater
    | ok a s₁ =>
      rw [hfirst] at hlater
      obtain ⟨b, s₂, hrest, hcursor, hsame⟩ := hk a env s₁
      have hbehind : Later env.tokens s s₂ := by
        refine ⟨?_, ?_, ?_⟩
        · rw [hcursor]
          exact hlater.cursor
        · rw [hcursor]
          exact hlater.le_size
        · rw [hsame]
          exact hlater.diagnostics
      change Later env.tokens s (lastState (k a env s₁))
      rw [hrest]
      exact hbehind
  · intro env s b s' hs hspot hrun hwhole
    obtain ⟨a, s₁, hfirst, hrest⟩ := bind_eq_ok hrun
    obtain ⟨b', s₂, hrest', hcursor, hsame⟩ := hk a env s₁
    rw [hrest'] at hrest
    cases hrest
    unfold Unbroken at hwhole
    rw [hsame] at hwhole
    rw [hcursor]
    exact hp.halts env s a s₁ hs hspot hfirst hwhole

/-- A look ahead leaves no more behind than what is done with what it sees. -/
theorem look {p : Parse α} {seen : Env → State → α} {k : α → Parse β} (hp : Looks p seen)
    (hk : ∀ a, Halts word spot ending (k a)) : Halts word spot ending (p >>= k) :=
  still (fun env s => ⟨_, s, hp env s, rfl, rfl⟩) hk

theorem checked {k : Unit → Parse β} (hk : Halts word spot ending (k ())) :
    Halts word spot ending (Production.checkDepth >>= k) := by
  refine ⟨Climbs.checkDepth.bind fun _ => hk.climbs, fun env s b s' hs hspot hrun hwhole => ?_⟩
  obtain ⟨_, s₁, hfirst, hrest⟩ := bind_eq_ok hrun
  obtain rfl := checkDepth_eq_ok hfirst
  exact hk.halts env s₁ b s' hs hspot hrest hwhole

theorem ite {x : Prop} [Decidable x] (hp : x → Halts word spot ending p)
    (hq : ¬x → Halts word spot ending q) :
    Halts word spot ending (if x then p else q) := by
  split
  · exact hp ‹_›
  · exact hq ‹_›

/-- What is done behind a look at the next token knows that token. -/
theorem peek {k : TokenKind → Parse β}
    (hk : ∀ kind, Halts word (.before spot.inside (· == kind)) ending (k kind)) :
    Halts word spot ending (Production.peek >>= k) := by
  refine ⟨.look Looks.peek fun kind => (hk kind).climbs, fun env s b s' hs hspot hrun hwhole => ?_⟩
  rw [Looks.peek.run_bind] at hrun
  exact (hk _).halts env s b s' hs (hspot.before (beq_self_eq_true _)) hrun hwhole

/-- What is done behind a look at the token behind the next one knows both. -/
theorem peekNext {k : TokenKind → Parse β}
    (hk : ∀ kind, Halts word ⟨inside, [c, (· == kind)]⟩ ending (k kind)) :
    Halts word ⟨inside, [c]⟩ ending (Production.peekAhead 1 >>= k) := by
  refine ⟨.look (Looks.peekAhead 1) fun kind => (hk kind).climbs,
    fun env s b s' hs hspot hrun hwhole => ?_⟩
  rw [(Looks.peekAhead 1).run_bind] at hrun
  refine (hk _).halts env s b s' hs ⟨hspot.inside, hspot.kind, ?_, trivial⟩ hrun hwhole
  exact beq_self_eq_true _

theorem ifAt {kind : TokenKind} (hp : Halts word (.before spot.inside (· == kind)) ending p)
    (hq : Halts word spot ending q) :
    Halts word spot ending (atKind kind >>= fun x => if x = true then p else q) := by
  refine ⟨.look (Looks.test _) fun x => .ite hp.climbs hq.climbs,
    fun env s b s' hs hspot hrun hwhole => ?_⟩
  unfold atKind at hrun
  rw [(Looks.test _).run_bind] at hrun
  split at hrun
  · exact hp.halts env s b s' hs (hspot.before ‹_›) hrun hwhole
  · exact hq.halts env s b s' hs hspot hrun hwhole

/-- A word that may be there, and what is done in either case. -/
theorem ifAccept {kind : TokenKind} (hkind : kind.isWord = true) {k : Bool → Parse α}
    (hthen : Halts word (.plain false) .rests (k true)) (helse : Halts word spot .stays (k false)) :
    Halts word spot .stays (Production.accept kind >>= k) := by
  rw [accept_bind]
  exact ifAt (after (Phrase.take (.word hkind)) hthen).stays helse

theorem child {p : Parse Node} (hp : Halts word spot ending p) : Halts word spot ending p.child :=
  hp.thenStill fun _ _ _ => ⟨_, _, rfl, rfl, rfl⟩

theorem field (f : Field) {p : Parse Node} (hp : Halts word spot ending p) :
    Halts word spot ending (Production.field f p) :=
  hp.thenStill fun _ _ _ => ⟨_, _, rfl, rfl, rfl⟩

theorem wrapped (r : Rule) {p : Parse Node} (hp : Halts word spot ending p) :
    Halts word spot ending (p >>= Production.wrap r) :=
  hp.thenStill fun _ _ _ => ⟨_, _, rfl, rfl, rfl⟩

/-- A round of a repetition. -/
theorem round {p : Parse Unit} (hp : Halts word spot ending p) {b : α} :
    Halts word spot ending (p >>= fun _ => Pure.pure b) :=
  hp.thenStill fun _ _ _ => ⟨_, _, rfl, rfl, rfl⟩

theorem nested (hp : Halts word spot ending p) : Halts word spot ending p.nested :=
  ⟨fun env s hs => hp.climbs { env with depth := env.depth + 1 } s hs,
    fun env s a s' hs hspot => hp.halts { env with depth := env.depth + 1 } s a s' hs
      (hspot.same rfl rfl)⟩

theorem byRoom {p : Nat → Parse α} (hp : ∀ room, Halts word spot ending (p room)) :
    Halts word spot ending (fun env s => p env.room env s) :=
  ⟨fun env s => (hp env.room).climbs env s, fun env s => (hp env.room).halts env s⟩

/-- A node ends where its body does. -/
theorem node {r : Rule} {body : Parse Unit} (hbody : Halts word spot ending body) :
    Halts word spot ending (Production.node r body) := by
  refine ⟨fun env s => Climbs.construct hbody.climbs env s,
    fun env s n s' hs hspot hrun hwhole => ?_⟩
  obtain ⟨s₁, hrun₁, -, hs'⟩ := construct_eq_finish hrun
  rw [hs'] at hwhole ⊢
  exact hbody.halts env { s with children := [], isPartial := false }
    () s₁ hs (hspot.same rfl rfl) hrun₁ hwhole

-- ---------------------------------------------------------------------------
-- Recovery and ambiguities
-- ---------------------------------------------------------------------------

/-- Without an error region, what was tried has succeeded. -/
theorem orRecover {p : Parse Node} (hp : Halts word spot ending p) :
    Halts word spot ending p.orRecover := by
  refine ⟨.orRecover hp.climbs, fun env s n s' hs hspot hrun hwhole => ?_⟩
  rw [Parse.orRecover_eq] at hrun
  split at hrun
  · rename_i hok
    cases hrun
    exact hp.halts env s n s' hs hspot hok hwhole
  · cases hrun
    exact absurd hwhole (not_unbroken_of_diagnostic (List.suffix_refl _) rfl)

/-- Without an error region, the header was read to its end. -/
theorem recovering {p : Parse Unit} (hp : Halts word spot ending p) :
    Halts word spot ending p.recovering :=
  ⟨.recovering hp.climbs, fun env s _ s' hs hspot hrun hwhole =>
    hp.halts env s () s' hs hspot (ok_of_recovering hp.climbs hs hrun hwhole) hwhole⟩

/-- The rule that an ambiguity settles on is one of its alternatives. -/
theorem resolve {a : Ambiguity} {alternatives : List Alternative}
    (h : ∀ x ∈ alternatives, Halts word spot ending x.production) :
    Halts word spot ending (Production.resolve a alternatives) := by
  suffices hfit : ∀ best, Halts word spot ending (Production.firstFit a best alternatives) from
    checked (hfit none)
  intro best
  induction alternatives generalizing best with
  | nil => exact ⟨fun _ _ hs => .refl hs, fun _ _ _ _ _ _ hrun => by cases hrun⟩
  | cons x rest ih =>
    have hx := h x List.mem_cons_self
    have hrest := ih fun y hy => h y (List.mem_cons_of_mem x hy)
    refine ⟨.firstFit_cons hx.climbs fun best => (hrest best).climbs,
      fun env s n s' hs hspot hrun hwhole => ?_⟩
    rw [Parse.firstFit_cons_eq] at hrun
    split at hrun
    · split at hrun
      · rename_i hok
        cases hrun
        exact hx.halts env s n s' hs hspot hok hwhole
      · exact (hrest _).halts env s n s' hs hspot hrun hwhole
    · exact (hrest _).halts env s n s' hs hspot hrun hwhole

/-- Each round ends with a line, if the round before it has. -/
theorem iterate {step : α → Parse (Option α)}
    (hstep : ∀ x, Halts word (.plain false) .stays (step x))
    (x : α) : Halts word spot .stays (Production.iterate step x) := by
  have hclimbs := Climbs.iterate (fun x => (hstep x).climbs) x
  refine ⟨hclimbs, fun env s y s' hs _ hrun hwhole => ?_⟩
  have hinvariant := iterateUpTo_invariant (fun s₁ => Later env.tokens s s₁ ∧ (Unbroken s s₁ →
      Ending.stays.After env.tokens s.cursor s₁.cursor ∧
        ∀ e, env.tokens.ClosingLine word e → s.cursor ≤ e → s₁.cursor ≤ e))
    (fun x s₁ y s₂ hs₁ hrun₁ => ?_) _ ⟨.refl hs, fun _ => ⟨id, fun _ _ => id⟩⟩ hrun
  · exact hinvariant.2 hwhole
  · obtain ⟨hlater, hbefore⟩ := hs₁
    have hlater' := (hstep x).climbs.ok hlater.le_size hrun₁
    refine ⟨hlater.trans hlater', fun hwhole => ?_⟩
    obtain ⟨hends, hle⟩ := hbefore (hwhole.front hlater')
    obtain ⟨hends', hle'⟩ :=
      (hstep x).halts env s₁ y s₂ hlater.le_size (Spot.holds_plain nofun) hrun₁
      (hwhole.back hlater)
    exact ⟨fun hi => hends' (hends hi), fun e he hse => hle' e he (hle e he hse)⟩

/-- Rounds without a value. -/
theorem repeatWhile {step : Parse Bool} (hstep : Halts word (.plain false) .stays step) :
    Halts word spot .stays (Production.repeatWhile step) :=
  iterate (fun _ => hstep.thenStill fun _ _ _ => ⟨_, _, rfl, rfl, rfl⟩) ()

-- ---------------------------------------------------------------------------
-- Blocks
-- ---------------------------------------------------------------------------

theorem openBlock (opener : Keyword) {k : Unit → Parse β} (hk : Halts word spot ending (k ())) :
    Halts word spot ending (Production.openBlock opener >>= k) :=
  still (fun _ _ => ⟨_, _, rfl, rfl, rfl⟩) fun _ => hk

/-- The words of the closing line of another block are in front of the line. -/
theorem closer_le {t : TokenStream} {opener : Keyword} (hopener : opener ≠ word)
    {i e : Nat} (hwords : WordsAt t opener.closer i) (he : t.ClosingLine word e) (hle : i ≤ e) :
    i + opener.closer.length ≤ e := by
  have hend := he.end
  cases hclosed : opener.isClosedByEnd with
  | true =>
    have hcloser : opener.closer = [.kwEnd, opener] := by
      cases opener <;> first | rfl | cases hclosed
    rw [hcloser] at hwords ⊢
    have hfirst : t.kindAt i = .keyword .kwEnd := hwords (.kwEnd, i) (by simp)
    have hsecond : t.kindAt (i + 1) = .keyword opener := hwords (opener, i + 1) (by simp)
    -- Neither of the two words is the `End` of the line.
    have hne : i ≠ e := by
      rintro rfl
      rw [he.routine] at hsecond
      exact hopener (TokenKind.keyword.inj hsecond).symm
    have hne' : i + 1 ≠ e := by
      rintro rfl
      have hbehind := he.bars.2.1
      rw [Nat.add_sub_cancel, hfirst] at hbehind
      cases hbehind
    change i + 2 ≤ e
    omega
  | false =>
    obtain ⟨only, hcloser, honly⟩ : ∃ only, opener.closer = [only] ∧ only ≠ .kwEnd := by
      cases opener <;> first | exact ⟨_, rfl, nofun⟩ | cases hclosed
    rw [hcloser] at hwords ⊢
    have hfirst : t.kindAt i = .keyword only := hwords (only, i) (by simp)
    have hne : i ≠ e := by
      rintro rfl
      rw [hend] at hfirst
      exact honly (TokenKind.keyword.inj hfirst).symm
    change i + 1 ≤ e
    omega

/-- A block that another word opens is closed, or lacks its closing line. -/
theorem closing (opener : Keyword) (hopener : opener ≠ word) {p : Parse Unit}
    (hp : Halts word (.plain false) .rests p) :
    Halts word spot .stays (closeBlock opener >>= fun x => if x =
      true then p else Pure.pure ()) := by
  have hclimbs : Climbs (closeBlock opener >>= fun x => if x = true then p else Pure.pure ()) :=
    (Climbs.closeBlock opener).bind fun _ => .ite hp.climbs (.pure ())
  refine ⟨hclimbs, fun env s b s' hs _ hrun hwhole => ?_⟩
  obtain ⟨closed, s₁, hclose, hrest⟩ := bind_eq_ok hrun
  have hlater := (Climbs.closeBlock opener).ok hs hclose
  by_cases hcloser : env.atCloser s opener = true
  · obtain ⟨hwords, hat⟩ := run_closeBlock hcloser
    rw [hat] at hclose
    cases hclose
    obtain ⟨hends, hle⟩ :=
      hp.halts env _ () s' hlater.le_size (Spot.holds_plain nofun) hrest (hwhole.back hlater)
    exact ⟨fun _ => hends, fun e he hse => hle e he (closer_le hopener hwords he hse)⟩
  · rw [closeBlock_eq, (Looks.test _).run_bind, if_neg hcloser] at hclose
    cases hclose
    cases hrest
    exact ⟨id, fun _ _ => id⟩

/-- What ends a statement ends with its line. -/
theorem endStatement : Halts word spot .rests Production.endStatement := by
  have hend : Flows 0 false spot false Production.endStatement := Phrase.endStatement
  exact of_rests hend fun env s _ s' hrun => atRest_of_endStatement hrun

/-- A quiet line. -/
theorem line {r : Rule} {content : Parse Unit}
    (hline : Gives 0 false spot lands (Production.line r content)) :
    Halts word spot .rests (Production.line r content) := by
  refine of_rests hline fun env s n s' hrun => ?_
  obtain ⟨s₁, hbody, -, hs'⟩ := construct_eq_finish hrun
  obtain ⟨_, s₂, -, hend⟩ := bind_eq_ok hbody
  have hrests := atRest_of_endStatement hend
  rw [hs']
  exact hrests

/-- The closing line of another block is not one of the word. -/
theorem finishBlock (opener : Keyword) (hopener : opener ≠ word) :
    Halts word spot .stays (Production.finishBlock opener) :=
  closing opener hopener (recovering endStatement)

/-- A line that opens a block or a part of one, and what stands behind it. -/
theorem opening {header : Parse Unit} {rest : Parse β} (hheader : Flows 0 false spot lands header)
    (hrest : Halts word (.plain false) .stays rest) : Halts word spot .rests (do
      header
      Production.endStatement
      rest) :=
  after hheader (seq endStatement hrest)

-- ---------------------------------------------------------------------------
-- Blocks of statements
-- ---------------------------------------------------------------------------

section

variable {statement : Parse Node}

/-- The statements of a body each end with their lines. -/
theorem statements (h : Halts word (.plain false) .rests statement) :
    Halts word spot .stays (Production.statements statement) := by
  refine repeatWhile (look (Looks.test _) fun _ => ite (fun _ => pure _) fun _ => ?_)
  exact (child h.nested).round.stays

/-- A header, a body and a closing line of its own. -/
theorem blockStatement (h : Halts word (.plain false) .rests statement) (r : Rule)
    {opener : Keyword}
    {header closing : Parse Unit} (hheader : Flows 0 false spot lands (do
      Production.take
      header)) (hclosing : Halts word (.plain false) .stays closing) :
    Halts word spot .rests (Production.blockStatement statement r opener header closing) := by
  have hrest := opening hheader (seq (statements h) hclosing)
  rw [bind_assoc] at hrest
  exact node (openBlock opener hrest)

/-- A part of a block: a header and a body, and no closing line. -/
theorem blockPart (h : Halts word (.plain false) .rests statement) (r : Rule) {header : Parse Unit}
    (hheader : Flows 0 false spot lands header) :
    Halts word spot .rests (Production.blockPart statement r header) :=
  node (seq (recovering (after hheader endStatement)) (statements h))

-- ---------------------------------------------------------------------------
-- If
-- ---------------------------------------------------------------------------

theorem elseIfClause (h : Halts word (.plain false) .rests statement)
    (hc : Readable false inside c) :
    Halts word ⟨inside, c :: cs⟩ .rests (Production.elseIfClause statement) := by
  have hcondition {spot : Spot} : Flows 0 false spot true (do
      Production.field .condition (Production.nested Production.expression)
      let _ ← acceptWord .kwThen) :=
    Phrase.seq (Phrase.fieldNested _ Phrase.expression)
      (Phrase.seq (Phrase.acceptAny (.word rfl)) (.pure rfl))
  exact blockPart h _ (Phrase.seq (Phrase.take hc)
    (Phrase.seq (Phrase.acceptAny (.word rfl)) hcondition))

theorem elseClause (h : Halts word (.plain false) .rests statement) (hc : Readable false inside c) :
    Halts word ⟨inside, c :: cs⟩ .rests (Production.elseClause statement) :=
  blockPart h _ (Phrase.take hc)

/-- A further branch ends with its line, as its body does. -/
theorem ifPart (h : Halts word (.plain false) .rests statement) :
    Halts word spot .stays (Production.ifPart statement) := by
  refine peek fun kind => ?_
  split
  · exact (child (elseIfClause h (.word rfl))).round.stays
  · refine peekNext fun next => ite (fun _ => ?_) fun _ => ?_
    · exact (child (elseIfClause h (.word rfl))).round.stays
    · exact (field _ (elseClause h (.word rfl))).round.stays
  · exact pure _

/-- An `If` with a block, which `End If` closes. -/
theorem ifBlock (hword : word.OpensRoutine) (h : Halts word (.plain false) .rests statement) :
    Halts word spot .stays (Production.ifBlock statement) :=
  seq (statements h) (seq (repeatWhile (ifPart h)) (finishBlock .kwIf (hword.ne nofun nofun)))

/-- An `If` on one line takes the end of that line. -/
theorem ifLine (h : Halts word (.plain false) .rests statement) :
    Halts word spot .rests (Production.ifLine statement) := by
  have helse : Halts word (.plain false) .stays (do
      if ← acceptWord .kwElse then
        Production.field .elseBranch (Production.nested statement)) :=
    ifAccept rfl (field _ h.nested) (pure ())
  rw [Passage.ifLine_eq]
  refine still (fun _ _ => ⟨_, _, rfl, rfl, rfl⟩) fun _ => ?_
  exact (seq (field _ h.nested.anywhere) helse).thenStill fun _ _ _ => ⟨_, _, rfl, rfl, rfl⟩

/-- Whichever of the two forms it has, an `If` does not go past the line. -/
theorem ifStatement (hword : word.OpensRoutine) (h : Halts word (.plain false) .rests statement) :
    Halts word spot .rests (Production.ifStatement statement) := by
  have hbranches {spot : Spot} : Halts word spot .rests (do
      if (← Production.peek).endsLine then
        Production.openBlock .kwIf
        Production.endStatement
        Production.ifBlock statement
      else Production.ifLine statement) := by
    refine look Looks.peek fun kind => ite (fun _ => openBlock .kwIf ?_) fun _ => ifLine h
    exact seq endStatement (ifBlock hword h)
  refine node (after (Phrase.expectWord (.word rfl))
    (after (Phrase.fieldNested _ Phrase.expression) ?_))
  have haccept : Flows 0 false (.plain false) false (acceptWord .kwThen) :=
    Phrase.acceptAny (.word rfl)
  refine bind (of_phrase haccept) fun _ => ite (fun _ => hbranches) fun _ => ?_
  exact look (Looks.test _) fun _ => ite (fun _ => hbranches) fun _ => failThen _

-- ---------------------------------------------------------------------------
-- Select Case
-- ---------------------------------------------------------------------------

theorem caseBlock (h : Halts word (.plain false) .rests statement) (hc : Readable false inside c) :
    Halts word ⟨inside, c :: cs⟩ .rests (Production.caseBlock statement) := by
  have hclause : Flows 0 false (.plain true) true
      (Production.child (Production.nested Production.caseClause)) :=
    Phrase.childNested Phrase.caseClause
  exact blockPart h _ (Phrase.seq (Phrase.take hc) (Phrase.commaSeparated hclause hclause))

theorem caseElseBlock (h : Halts word (.plain false) .rests statement) :
    Halts word ⟨false, [(· == .keyword .kwCase), (· == .keyword .kwElse)]⟩ .rests
      (Production.caseElseBlock statement) := by
  have hcase : Readable false false (· == .keyword .kwCase) := .word rfl
  have hwords : Flows 0 false ⟨false, [(· == .keyword .kwCase), (· == .keyword .kwElse)]⟩ true (do
      Production.take
      Production.take) := by
    refine .bindOne (Phrase.take hcase) ReadsOne.take.2 rfl
      (fun (_ : true = true) => hcase.isInnerClass) fun _ _ _ => ?_
    exact Phrase.take (.word rfl)
  exact blockPart h _ hwords

theorem selectPart (h : Halts word (.plain false) .rests statement) :
    Halts word (.plain false) .stays (Production.selectPart statement) := by
  refine ifAt (peekNext fun next => ite (fun hnext => ?_) fun _ => ?_) ?_
  · refine (child ((caseElseBlock h).mono fun env s hspot => ?_)).round.stays
    obtain ⟨hcase, helse, -⟩ := hspot.ahead
    exact ⟨nofun, hcase, beq_iff_eq.1 helse ▸ hnext, trivial⟩
  · exact (child (caseBlock h (.word rfl))).round.stays
  · exact look (Looks.test _) fun _ => ite (fun _ => pure _) fun _ => (child h.nested).round.stays

theorem selectStatement (hword : word.OpensRoutine) (h : Halts word (.plain false) .rests statement)
    (hc : Readable false inside c) :
    Halts word ⟨inside, c :: cs⟩ .rests (Production.selectStatement statement) := by
  have hheader : Flows 0 false ⟨inside, c :: cs⟩ true (do
      Production.take
      let _ ← acceptWord .kwCase
      Production.field .selector (Production.nested Production.expression)) :=
    .seq (.take hc) (.seq (.acceptAny (.word rfl)) (.fieldNested _ .expression))
  have hrest : Halts word (.plain false) .stays (do
      Production.repeatWhile (Production.selectPart statement)
      Production.finishBlock .kwSelect) :=
    seq (repeatWhile (selectPart h)) (finishBlock .kwSelect (hword.ne nofun nofun))
  have hparts := opening hheader hrest
  simp only [bind_assoc] at hparts
  exact node (openBlock .kwSelect hparts)

-- ---------------------------------------------------------------------------
-- Loops
-- ---------------------------------------------------------------------------

theorem whileStatement (hword : word.OpensRoutine) (h : Halts word (.plain false) .rests statement)
    (hc : Readable false inside c) :
    Halts word ⟨inside, c :: cs⟩ .rests (Production.whileStatement statement) :=
  blockStatement h _ (Phrase.seq (Phrase.take hc) (Phrase.fieldNested _ Phrase.expression))
    (finishBlock .kwWhile (hword.ne nofun nofun))

theorem doStatement (hword : word.OpensRoutine) (h : Halts word (.plain false) .rests statement)
    (hc : Readable false inside c) :
    Halts word ⟨inside, c :: cs⟩ .rests (Production.doStatement statement) := by
  have hcondition : Flows 0 false (.plain true) true Production.optionalLoopCondition :=
    Phrase.loopCondition
  refine blockStatement h _ (Phrase.seq (Phrase.take hc) hcondition) ?_
  have hcondition {spot : Spot} : Flows 0 false spot spot.inside Production.optionalLoopCondition :=
    Phrase.loopCondition
  exact closing .kwDo (hword.ne nofun nofun) (recovering (after hcondition endStatement))

/-- A loop variable behind `Next` is on the line of `Next`. -/
theorem finishNext (hword : word.OpensRoutine) : Halts word spot .stays Production.finishNext := by
  refine closing .kwFor (hword.ne nofun nofun) (peek fun kind => ite (fun hname => ?_) fun _ => ?_)
  · have hname : Readable false false (· == kind) := .word (TokenKind.isWord_of_isNameLike hname)
    exact after (Phrase.child (Phrase.ruleLeaf _ hname)) (recovering endStatement)
  · exact recovering endStatement

theorem forStatement (hword : word.OpensRoutine) (h : Halts word (.plain false) .rests statement)
    (hc : Readable false inside c) :
    Halts word ⟨inside, c :: cs⟩ .rests (Production.forStatement statement) :=
  blockStatement h _ (Phrase.seq (Phrase.take hc) Phrase.forHeader) (finishNext hword)

theorem forEachStatement (hword : word.OpensRoutine)
    (h : Halts word (.plain false) .rests statement)
    (hc : Readable false inside c) :
    Halts word ⟨inside, [c, (· == .keyword .kwEach)]⟩ .rests
      (Production.forEachStatement statement) := by
  have hheader : Flows 0 false ⟨inside, [c, (· == .keyword .kwEach)]⟩ true (do
      Production.take
      Production.take
      Production.field .«variable» Production.identifier
      Production.optionalAsClause
      Production.expectWord .kwIn
      Production.field .collection (Production.nested Production.expression)) := by
    refine .bindOne (Phrase.take hc) ReadsOne.take.2 hc.isWordClass.endOfFile
      (fun (_ : true = true) => hc.isInnerClass) fun _ _ _ => ?_
    exact Phrase.forEachHeader (.word rfl)
  exact blockStatement h _ hheader (finishNext hword)

-- ---------------------------------------------------------------------------
-- Try
-- ---------------------------------------------------------------------------

theorem catchBlock (h : Halts word (.plain false) .rests statement) (hc : Readable false inside c) :
    Halts word ⟨inside, c :: cs⟩ .rests (Production.catchBlock statement) :=
  blockPart h _ (Phrase.seq (Phrase.take hc) Phrase.catchHeader)

theorem finallyBlock (h : Halts word (.plain false) .rests statement)
    (hc : Readable false inside c) :
    Halts word ⟨inside, c :: cs⟩ .rests (Production.finallyBlock statement) :=
  blockPart h _ (Phrase.take hc)

theorem tryPart (h : Halts word (.plain false) .rests statement) :
    Halts word spot .stays (Production.tryPart statement) := by
  refine peek fun kind => ?_
  split
  · exact (child (catchBlock h (.word rfl))).round.stays
  · exact (child (finallyBlock h (.word rfl))).round.stays
  · exact pure _

theorem tryStatement (hword : word.OpensRoutine) (h : Halts word (.plain false) .rests statement)
    (hc : Readable false inside c) :
    Halts word ⟨inside, c :: cs⟩ .rests (Production.tryStatement statement) := by
  have hheader : Flows 0 false (.plain true) true (Pure.pure () : Parse Unit) := .pure rfl
  refine blockStatement h _ (Phrase.seq (Phrase.take hc) hheader) ?_
  exact seq (repeatWhile (tryPart h)) (finishBlock .kwTry (hword.ne nofun nofun))

-- ---------------------------------------------------------------------------
-- With, Using, SyncLock
-- ---------------------------------------------------------------------------

theorem withStatement (hword : word.OpensRoutine) (h : Halts word (.plain false) .rests statement)
    (hc : Readable false inside c) :
    Halts word ⟨inside, c :: cs⟩ .rests (Production.withStatement statement) :=
  blockStatement h _ (Phrase.seq (Phrase.take hc) (Phrase.fieldNested _ Phrase.expression))
    (finishBlock .kwWith (hword.ne nofun nofun))

theorem usingStatement (hword : word.OpensRoutine) (h : Halts word (.plain false) .rests statement)
    (hc : Readable false inside c) :
    Halts word ⟨inside, c :: cs⟩ .rests (Production.usingStatement statement) :=
  blockStatement h _ (Phrase.seq (Phrase.take hc) Phrase.resources)
  (finishBlock .kwUsing (hword.ne nofun nofun))

theorem syncLockStatement (hword : word.OpensRoutine)
    (h : Halts word (.plain false) .rests statement)
    (hc : Readable false inside c) :
    Halts word ⟨inside, c :: cs⟩ .rests (Production.syncLockStatement statement) :=
  blockStatement h _ (Phrase.seq (Phrase.take hc) (Phrase.fieldNested _ Phrase.expression))
    (finishBlock .kwSyncLock (hword.ne nofun nofun))

-- ---------------------------------------------------------------------------
-- The choice of the statement
-- ---------------------------------------------------------------------------

/-- A label ends behind its colon. -/
theorem labelStatement : Halts word spot .rests Production.labelStatement := by
  refine of_rests Phrase.labelStatement fun env s n s' hrun => ?_
  obtain ⟨s₁, hbody, -, hs'⟩ := construct_eq_finish hrun
  obtain ⟨_, s₂, -, hcolon⟩ := bind_eq_ok hbody
  have hkind : env.tokens.kindAt s₂.cursor = .mark .colon := (run_ifTake hcolon).1
  have hnext := next_of_ifTake hcolon nofun
  rw [hs']
  refine .inl ?_
  change 0 < s₁.cursor ∧ (env.tokens.kindAt (s₁.cursor - 1)).isTerminator = true
  rw [hnext, Nat.add_sub_cancel, hkind]
  exact ⟨Nat.succ_pos _, rfl⟩

/-- A call and an assignment both end with their lines. -/
theorem expressionStatement : Halts word spot .rests Production.expressionStatement := by
  refine resolve fun x hx => ?_
  simp only [List.mem_cons, List.not_mem_nil, or_false] at hx
  rcases hx with rfl | rfl | rfl
  · exact labelStatement
  · exact line Phrase.assignmentStatement
  · exact line Phrase.callStatement

/-- The end of a line or a colon as a statement of its own. -/
theorem emptyStatement {kind : TokenKind} (hkind : kind.isTerminator = true) :
    Halts word ⟨inside, (· == kind) :: cs⟩ .rests (Production.ruleLeaf .emptyStatement) := by
  have hleaf :
      Gives 0 false ⟨inside, (· == kind) :: cs⟩ false (Production.ruleLeaf .emptyStatement) :=
    Phrase.leaf _ (Phrase.isWordClass_of_isTerminator hkind) nofun
  have hle :
      Halts word ⟨inside, (· == kind) :: cs⟩ .anywhere (Production.ruleLeaf .emptyStatement) :=
    of_phrase hleaf
  refine ⟨hle.climbs, fun env s n s' hs hspot hrun hwhole =>
    ⟨?_, (hle.halts env s n s' hs hspot hrun hwhole).2⟩⟩
  have hat : env.kind s = kind := beq_iff_eq.1 hspot.kind
  exact Fares.rests_ruleLeaf (hat ▸ hkind) hrun

/-- Each word that begins a statement has a statement of its own. -/
theorem wordStatement (hword : word.OpensRoutine) (h : Halts word (.plain false) .rests statement)
    (first : Keyword) :
    Halts word ⟨inside, [(· == .keyword first)]⟩ .rests
      (Production.wordStatement statement first) := by
  unfold Production.wordStatement
  split
  case h_5 =>
    refine peekNext fun next => ite (fun _ => resolve fun x hx => ?_) fun _ => ifStatement hword h
    simp only [List.mem_cons, List.not_mem_nil, or_false] at hx
    rcases hx with rfl | rfl
    · exact line Phrase.callStatement
    · exact ifStatement hword h
  case h_9 =>
    have hfor : Readable false inside (· == .keyword .kwFor) := .word rfl
    refine peekNext fun next => ite (fun hnext => ?_) fun _ => forStatement hword h hfor
    refine (forEachStatement hword h hfor).mono fun env s hspot => ?_
    obtain ⟨hfor, heach, -⟩ := hspot.ahead
    exact ⟨hspot.inside, hfor, beq_iff_eq.1 heach ▸ hnext, trivial⟩
  case h_6 => exact selectStatement hword h (.word rfl)
  case h_7 => exact whileStatement hword h (.word rfl)
  case h_8 => exact doStatement hword h (.word rfl)
  case h_10 => exact tryStatement hword h (.word rfl)
  case h_11 => exact withStatement hword h (.word rfl)
  case h_12 => exact usingStatement hword h (.word rfl)
  case h_13 => exact syncLockStatement hword h (.word rfl)
  case h_1 | h_2 => exact line (Phrase.dimStatement (.word rfl))
  case h_3 => exact line Phrase.constDeclaration
  case h_4 => exact line Phrase.callStatement
  case h_14 | h_15 => exact line (Phrase.valueStatement _ (.word rfl))
  case h_16 => exact line (Phrase.exitStatement (.word rfl))
  case h_17 => exact line (Phrase.continueStatement (.word rfl))
  case h_18 => exact line (Phrase.goToStatement (.word rfl))
  case h_19 => exact line (Phrase.reDimStatement (.word rfl))
  case h_20 | h_21 => exact line (Phrase.handlerStatement _ (.word rfl))
  case h_22 => exact line (Phrase.raiseEventStatement (.word rfl))
  case h_23 => exact expressionStatement

end

/-- The induction is on the levels that are left to the blocks inside. -/
theorem statementKindUpTo (hword : word.OpensRoutine) (room : Nat) :
    Halts word spot .rests (Production.statementKindUpTo room) := by
  induction room generalizing spot with
  | zero => exact tooDeep
  | succ room ih =>
    refine checked (peek fun kind => ?_)
    split
    · exact emptyStatement rfl
    · exact emptyStatement rfl
    · exact line (Phrase.directive (.word rfl))
    · exact wordStatement hword (orRecover (wrapped _ ih)) _
    · exact expressionStatement

/-- A statement does not go past the closing line of a routine. -/
theorem statement (hword : word.OpensRoutine) : Halts word spot .rests Production.statement :=
  byRoom fun room => orRecover (wrapped _ (statementKindUpTo hword room))

end Halts

end Production

end VisualBasic
