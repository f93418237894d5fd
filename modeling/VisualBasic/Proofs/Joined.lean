import VisualBasic.Proofs.Alongside
import VisualBasic.Proofs.LineEnds

/-!
# Sources that go on

A stream of tokens that ends with a line, and another one that goes on behind it. A run over the
first that leaves no diagnostics behind is followed by one over the second: it does the same, to the
end of the first stream. The two streams agree in front of that end, and at the end itself they need
not. So a run that ends there has to be cut: up to its last terminator, both runs see tokens that
agree, and a terminator ends a statement whatever stands behind it.

Main results:

* `Env.Joined.landing`, `Env.Joined.endStatement` — a line is the same in both runs.
* `LoopRun.follows` — the rounds of a loop, one by one.
* `Follows.finishing` — what goes on to its closing line.
-/

namespace VisualBasic

open Production State

-- ---------------------------------------------------------------------------
-- Two streams
-- ---------------------------------------------------------------------------

/-- The stream of the second place goes on behind that of the first, which ends with a line. -/
structure Env.Joined (env env' : Env) : Prop where
  depth : env'.depth = env.depth
  limit : env'.limit = env.limit
  kindAt : ∀ i < env.tokens.tokens.size, env'.tokens.kindAt i = env.tokens.kindAt i
  nonempty : 0 < env.tokens.tokens.size
  le_size : env.tokens.tokens.size ≤ env'.tokens.tokens.size
  newline : env.tokens.kindAt (env.tokens.tokens.size - 1) = .newline
  lasting : env.tokens.Lasting
  lasting' : env'.tokens.Lasting

/-- A run is compared with one over a stream that goes on if it ends at the token at `e` or in front
of it. -/
@[reducible] def Env.upTo (env : Env) (e : Nat) : Sight := .upTo e env.tokens.tokens.size

/-- Any run is. -/
@[reducible] def Env.toEnd (env : Env) : Sight := env.upTo env.tokens.tokens.size

section

variable {env env' : Env} {s s' : State} {t t' : TokenStream}

theorem Env.Joined.nested (h : env.Joined env') :
    Env.Joined { env with depth := env.depth + 1 } { env' with depth := env'.depth + 1 } :=
  ⟨congrArg (· + 1) h.depth, h.limit, h.kindAt, h.nonempty, h.le_size, h.newline,
    h.lasting, h.lasting'⟩

/-- In front of a token of the first stream the two agree. -/
theorem Env.Joined.alike (h : env.Joined env') {e : Nat} (he : e < env.tokens.tokens.size) :
    env.Alike 0 (env.upTo e) env' := by
  refine ⟨h.depth, h.limit, fun i hi => h.kindAt i hi, nofun, ?_, ?_⟩
  · rintro _ _ ⟨rfl, rfl⟩
    exact ⟨he, Nat.le_refl _, h.le_size, h.newline⟩
  · rintro _ _ ⟨rfl, rfl⟩ i hi
    exact h.lasting i hi

/-- They agree in front of the last terminator, in particular. -/
theorem Env.Joined.alike_last (h : env.Joined env') :
    env.Alike 0 (env.upTo (env.tokens.tokens.size - 1)) env' :=
  h.alike (Nat.sub_lt h.nonempty Nat.one_pos)

/-- Inside of a statement the stream does not end. -/
theorem Env.Joined.le_last (h : env.Joined env') {i : Nat} (hi : i ≤ env.tokens.tokens.size)
    (hinside : env.tokens.Inside i) : i ≤ env.tokens.tokens.size - 1 := by
  refine Nat.le_sub_one_of_lt (Nat.lt_of_le_of_ne hi ?_)
  rintro rfl
  have hlast := hinside.2
  rw [h.newline] at hlast
  cases hlast

theorem Env.Joined.lt_size_of_ne (h : env.tokens.kindAt s.cursor ≠ .endOfFile) :
    s.cursor ≤ env.tokens.tokens.size - 1 :=
  Nat.le_sub_one_of_lt (TokenStream.lt_size_of_kindAt_ne h)

/-- States are compared alike, however much of the streams is. -/
theorem State.Alike.within {δ b c : Nat} (h : s.Alike δ (.upTo b c) t t' s') (b' c' : Nat) :
    s.Alike δ (.upTo b' c') t t' s' :=
  ⟨h.cursor, h.le_size, h.children, h.isPartial, h.openers, h.singleLineIfs, nofun⟩

end

namespace Production

variable {env env' : Env} {s s' : State} {b c b' c' : Nat} {α β : Type} {r : α → β → Prop}

namespace Follows

variable {t t' : TokenStream} {result : EStateM.Result Failure State α}
  {result' : EStateM.Result Failure State β}

/-- Runs that fail or leave diagnostics behind need not be compared. -/
theorem of_ok (h : ∀ a s₁, result = .ok a s₁ → s₁.cursor ≤ b →
    s₁.diagnostics.length ≤ s.diagnostics.length →
    ∃ a' s₁', result' = .ok a' s₁' ∧ r a a' ∧ State.Alike 0 (.upTo b c) t t' s₁ s₁') :
    Follows 0 (.upTo b c) r t t' s result result' := by
  cases result with
  | error f s₁ => exact nofun
  | ok a s₁ => exact fun hadmits => h a s₁ rfl hadmits.1 hadmits.2

/-- A run that is compared may be compared within other bounds, if it ends within these. -/
theorem within (h : Follows 0 (.upTo b c) r t t' s result result') (b' c' : Nat)
    (hb : ∀ a s₁, result = .ok a s₁ → s₁.cursor ≤ b' →
      s₁.diagnostics.length ≤ s.diagnostics.length → s₁.cursor ≤ b) :
    Follows 0 (.upTo b' c') r t t' s result result' := by
  refine of_ok fun a s₁ hrun hreach hquiet => ?_
  subst hrun
  obtain ⟨a', s₁', hrun', ha, hs₁⟩ := h ⟨hb a s₁ rfl hreach hquiet, hquiet⟩
  exact ⟨a', s₁', hrun', ha, hs₁.within _ _⟩

end Follows

end Production

-- ---------------------------------------------------------------------------
-- Lines
-- ---------------------------------------------------------------------------

namespace Env.Joined

variable {env env' : Env} {s s' : State} {b c : Nat} {α β : Type} {r : α → β → Prop}

theorem leaf (h : env.Joined env') (kind : NodeKind)
    (hs : s.Alike 0 (.upTo b c) env.tokens env'.tokens s') (hkind : env.kind s ≠ .endOfFile) :
    Follows 0 env.toEnd (Node.Alike 0) env.tokens env'.tokens s (Production.leaf kind env s)
      (Production.leaf kind env' s') := by
  refine .of_ok fun n s₁ hrun _ _ => ?_
  cases hrun
  refine ⟨_, _, rfl, ?_, ((hs.within _ _).advance h.alike_last (lt_size_of_ne hkind)).within _ _⟩
  change (Node.leaf _ _ _).Alike 0 (Node.leaf _ _ _)
  rw [Node.Alike, Node.bare_leaf, Node.bare_leaf, hs.cursor]

theorem checkDepth (h : env.Joined env') (hs : s.Alike 0 (.upTo b c) env.tokens env'.tokens s') :
    Follows 0 (.upTo b c) Eq env.tokens env'.tokens s (Production.checkDepth env s)
      (Production.checkDepth env' s') := by
  unfold Production.checkDepth
  rw [h.limit, h.depth]
  split
  · exact nofun
  · exact .pure rfl hs

/-- A terminator ends a statement whatever stands behind it. -/
theorem endStatement (h : env.Joined env') (hs : s.Alike 0 (.upTo b c) env.tokens env'.tokens s')
    (hle : s.cursor ≤ env.tokens.tokens.size - 1) :
    Follows 0 env.toEnd Eq env.tokens env'.tokens s (Production.endStatement env s)
      (Production.endStatement env' s') := by
  have hlast := hs.within (env.tokens.tokens.size - 1) env.tokens.tokens.size
  have hkind := hlast.kind h.alike_last hle
  unfold Production.endStatement atTerminator
  rw [Looks.peek.run_bind, Looks.peek.run_bind, hkind]
  split
  · refine .of_ok fun _ s₁ hrun _ _ => ?_
    cases hrun
    exact ⟨(), _, rfl, rfl, (hlast.advance h.alike_last hle).within _ _⟩
  · rw [(Looks.test _).run_bind, (Looks.test _).run_bind, hkind, hs.singleLineIfs]
    split
    · exact .pure rfl (hs.within _ _)
    · exact .fail _ (hs.within _ _)

/-- What ends inside of a statement ends in front of the last terminator. -/
theorem landing (h : env.Joined env') {spot : Spot} {p : Parse α} {p' : Parse β}
    (hp : Phrase 0 false spot false true r p p')
    (hs : s.Alike 0 (.upTo b c) env.tokens env'.tokens s') (hspot : spot.Holds env s) :
    Follows 0 env.toEnd r env.tokens env'.tokens s (p env s) (p' env' s') := by
  refine .of_ok fun a s₁ hrun hreach hquiet => ?_
  have hlater := hp.climbs.ok hs.le_size hrun
  have hle := h.le_last hlater.le_size (hp.inside hspot hrun rfl)
  have hfollows := hp.follows h.alike_last (hs.within _ _) (Nat.le_trans hlater.cursor hle) hspot
  rw [hrun] at hfollows
  obtain ⟨a', s₁', hrun', ha, hs₁⟩ := hfollows ⟨hle, hquiet⟩
  exact ⟨a', s₁', hrun', ha, hs₁.within _ _⟩

/-- What ends inside of a statement, and the end of the statement. -/
theorem landingThen (h : env.Joined env') {spot : Spot} {p p' : Parse Unit}
    (hp : Phrase 0 false spot false true Eq p p')
    (hs : s.Alike 0 (.upTo b c) env.tokens env'.tokens s') (hspot : spot.Holds env s) :
    Follows 0 env.toEnd Eq env.tokens env'.tokens s ((p >>= fun _ => Production.endStatement) env s)
      ((p' >>= fun _ => Production.endStatement) env' s') := by
  refine .bind hs.le_size hp.climbs (fun _ => Fares.climbs_endStatement) (h.landing hp hs hspot)
    fun _ _ s₁ s₁' _ hrun _ hs₁ => h.endStatement hs₁ ?_
  exact h.le_last hs₁.le_size (hp.inside hspot hrun rfl)

theorem line (h : env.Joined env') {spot : Spot} (rule : Rule) {content : Parse Unit}
    (hcontent : Flows 0 false spot true content)
    (hs : s.Alike 0 (.upTo b c) env.tokens env'.tokens s') (hspot : spot.Holds env s) :
    Follows 0 env.toEnd (Node.Alike 0) env.tokens env'.tokens s (Production.line rule content env s)
      (Production.line rule content env' s') := by
  have hbody := h.landingThen hcontent hs.apart (hspot.same rfl rfl)
  exact .construct hs.cursor (hs.within _ _) hbody

/-- What decides by the tokens ahead alone, in front of a closing line. -/
theorem passage (h : env.Joined env') {e : Nat} (hbars : env.tokens.Bars false e)
    {closing : Bool} {spot : Spot}
    {p : Parse α} {p' : Parse β} (hp : Passage 0 true spot closing r p p')
    (hs : s.Alike 0 (env.upTo e) env.tokens env'.tokens s') (hle : s.cursor ≤ e)
    (hspot : spot.Holds env s) :
    Follows 0 (env.upTo e) r env.tokens env'.tokens s (p env s) (p' env' s') := by
  have hsuits : Sight.Suits true (env.upTo e) := rfl
  have hlt : e < env.tokens.tokens.size := by
    refine TokenStream.lt_size_of_kindAt_ne fun hend => ?_
    rcases hbars.2.2 with hword | ⟨⟨⟩, -⟩
    rw [hend] at hword
    cases hword
  refine hp.follows hsuits ?_ (h.alike hlt) hs hle hspot
  rintro _ _ ⟨rfl, rfl⟩
  exact ⟨rfl, hbars⟩

/-- The closing line of a block. -/
theorem finishBlock (h : env.Joined env') (hs : s.Alike 0 (.upTo b c) env.tokens env'.tokens s')
    (opener : Keyword) (hcloser : env.atCloser s opener = true)
    (hle : s.cursor ≤ env.tokens.tokens.size - 1) :
    Follows 0 env.toEnd Eq env.tokens env'.tokens s (Production.finishBlock opener env s)
      (Production.finishBlock opener env' s') := by
  have hlast := hs.within (env.tokens.tokens.size - 1) env.tokens.tokens.size
  have hrest (closed : Bool) :
      Climbs (if closed = true then Production.recovering Production.endStatement else pure ()) :=
    .ite (.recovering Fares.climbs_endStatement) (.pure ())
  have hclose : Follows 0 env.toEnd Eq env.tokens env'.tokens s (Production.closeBlock opener env s)
      (Production.closeBlock opener env' s') := by
    refine (Follows.closeBlock opener h.alike_last hlast hle).within _ _
      fun closed s₁ hrun _ _ => ?_
    rw [(run_closeBlock hcloser).2] at hrun
    cases hrun
    refine h.le_last ?_ (inside_of_closeBlock (run_closeBlock hcloser).2)
    exact ((Climbs.closeBlock opener).ok hs.le_size (run_closeBlock hcloser).2).le_size
  refine .bind hs.le_size (Climbs.closeBlock opener) hrest hclose
    fun closed _ s₁ s₁' heq hrun _ hs₁ => ?_
  subst heq
  cases closed with
  | false => exact .pure rfl hs₁
  | true =>
    refine .recovering Fares.climbs_endStatement nofun hs₁ (h.endStatement hs₁ ?_)
    exact h.le_last hs₁.le_size (inside_of_closeBlock hrun)

end Env.Joined

-- ---------------------------------------------------------------------------
-- Loops and closing lines
-- ---------------------------------------------------------------------------

namespace Production

variable {env env' : Env} {s s' : State} {b c : Nat}

theorem LoopRun.later {round : Parse Bool} (h : Climbs round)
    {result : EStateM.Result Failure State Unit}
    (hrun : LoopRun round env s result) (hs : s.cursor ≤ env.tokens.tokens.size) :
    State.Later env.tokens s (lastState result) := by
  induction hrun with
  | stop hround => exact h.ok hs hround
  | @fails s s₁ f hround =>
    have hlater := h env s hs
    rw [hround] at hlater
    exact hlater
  | again hround _ ih =>
    have hlater := h.ok hs hround
    exact hlater.trans (ih hlater.le_size)

/-- A loop goes on behind a round that says so. -/
theorem LoopRun.rest {round : Parse Bool} {s₁ : State} {result : EStateM.Result Failure State Unit}
    (hrun : LoopRun round env s result) (hround : round env s = .ok true s₁) :
    LoopRun round env s₁ result := by
  cases hrun with
  | stop hlast =>
    rw [hround] at hlast
    cases hlast
  | fails hfails =>
    rw [hround] at hfails
    cases hfails
  | again hfirst rest =>
    rw [hround] at hfirst
    cases hfirst
    exact rest

/-- The rounds of a loop up to the last one, each of which is followed by a round of the other loop.
What is known in front of a round is that the loop will come to its end from there. -/
theorem LoopRun.follows {round : Parse Bool} {sf : State} (good : State → Prop)
    (hrun : LoopRun round env s (.ok () sf)) (h : Climbs round)
    (hs : s.Alike 0 (.upTo b c) env.tokens env'.tokens s') (hgs : good s)
    (hb : sf.cursor ≤ b) (hquiet : sf.diagnostics.length ≤ s.diagnostics.length)
    (hkeep : ∀ s s₁, good s → round env s = .ok true s₁ → good s₁)
    (hround : ∀ s s' s₁, good s → s.Alike 0 (.upTo b c) env.tokens env'.tokens s' →
      round env s = .ok true s₁ → LoopRun round env s₁ (.ok () sf) →
      sf.diagnostics.length ≤ s.diagnostics.length →
      Follows 0 (.upTo b c) Eq env.tokens env'.tokens s (round env s) (round env' s')) :
    ∃ s₀ s₀', good s₀ ∧ round env s₀ = .ok false sf ∧
    s₀.Alike 0 (.upTo b c) env.tokens env'.tokens s₀' ∧
      sf.diagnostics.length ≤ s₀.diagnostics.length ∧
      ∀ result, LoopRun round env' s₀' result → LoopRun round env' s' result := by
  generalize hresult : (EStateM.Result.ok () sf : EStateM.Result Failure State Unit) =
    result at hrun
  induction hrun generalizing s' with
  | @stop s s₁ hlast =>
    cases hresult
    exact ⟨s, s', hgs, hlast, hs, hquiet, fun _ h => h⟩
  | fails => cases hresult
  | @again s s₁ _ hfirst rest ih =>
    subst hresult
    have hlater := h.ok hs.le_size hfirst
    have hbehind := rest.later h hlater.le_size
    have hfollows := hround s s' s₁ hgs hs hfirst rest hquiet
    rw [hfirst] at hfollows
    obtain ⟨_, s₁', hfirst', rfl, hs₁⟩ := hfollows
      ⟨Nat.le_trans hbehind.cursor hb, Nat.le_trans hbehind.diagnostics.length_le hquiet⟩
    obtain ⟨s₀, s₀', hg₀, hlast, hs₀, hquiet₀, hrest⟩ := ih hs₁ (hkeep s s₁ hgs hfirst)
      (Nat.le_trans hquiet hlater.diagnostics.length_le) rfl
    exact ⟨s₀, s₀', hg₀, hlast, hs₀, hquiet₀, fun result h => .again hfirst' (hrest result h)⟩

/-- A loop is followed by another one if all its rounds are, the last one, too. -/
theorem Follows.repeatWhile {round : Parse Bool} (good : State → Prop) (h : Proceeds round)
    (hs : s.Alike 0 (.upTo b c) env.tokens env'.tokens s')
    (hsize : env.tokens.tokens.size ≤ env'.tokens.tokens.size) (hgs : good s)
    (hkeep : ∀ s s₁, good s → round env s = .ok true s₁ → good s₁)
    (hround : ∀ sf, Production.repeatWhile round env s = .ok () sf → sf.cursor ≤ b →
      ∀ s s', good s → s.Alike 0 (.upTo b c) env.tokens env'.tokens s' →
      LoopRun round env s (.ok () sf) → sf.diagnostics.length ≤ s.diagnostics.length →
      Follows 0 (.upTo b c) Eq env.tokens env'.tokens s (round env s) (round env' s')) :
    Follows 0 (.upTo b c) Eq env.tokens env'.tokens s (Production.repeatWhile round env s)
      (Production.repeatWhile round env' s') := by
  refine .of_ok fun _ sf hrun hb hquiet => ?_
  have hrounds := (h.loopRun_iff hs.le_size).2 hrun
  obtain ⟨s₀, s₀', hg₀, hlast, hs₀, hquiet₀, hrest⟩ :=
    hrounds.follows good h.climbs hs hgs hb hquiet hkeep
    fun s s' s₁ hgs hs hfirst rest => hround sf hrun hb s s' hgs hs (.again hfirst rest)
  have hfollows := hround sf hrun hb s₀ s₀' hg₀ hs₀ (.stop hlast) hquiet₀
  rw [hlast] at hfollows
  obtain ⟨_, sf', hlast', rfl, hsf⟩ := hfollows ⟨hb, hquiet₀⟩
  have hs' : s'.cursor ≤ env'.tokens.tokens.size := by
    rw [hs.cursor]
    exact Nat.le_trans hs.le_size hsize
  exact ⟨(), sf', (h.loopRun_iff hs').1 (hrest _ (.stop hlast')), rfl, hsf⟩

theorem Follows.child {δ : Nat} {m : Sight} {p p' : Parse Node}
    (hs : s.Alike δ m env.tokens env'.tokens s') (hclimbs : Climbs p)
    (hp : Follows δ m (Node.Alike δ) env.tokens env'.tokens s (p env s) (p' env' s')) :
    Follows δ m Eq env.tokens env'.tokens s (p.child env s) (p'.child env' s') :=
  .bind hs.le_size hclimbs Climbs.attach hp fun _ _ _ _ hn _ _ hs₁ => .attach hn hs₁

/-- What is closed at its end. That its closing line is there is known where it begins: otherwise
there would be a diagnostic. -/
theorem Follows.finishing (opener : Keyword) {front : Parse Unit} (hclimbs : Climbs front)
    (hs : s.Alike 0 (.upTo b c) env.tokens env'.tokens s')
    (hfront : ∀ s₁, front env s = .ok () s₁ → env.atCloser s₁ opener = true → s₁.cursor ≤ b →
      s₁.diagnostics.length ≤ s.diagnostics.length →
      Follows 0 (.upTo b c) Eq env.tokens env'.tokens s (front env s) (front env' s'))
    (hrear : ∀ s₁ s₁', env.atCloser s₁ opener = true → s₁.cursor ≤ b →
      s₁.Alike 0 (.upTo b c) env.tokens env'.tokens s₁' →
      Follows 0 (.upTo b c) Eq env.tokens env'.tokens s₁ (finishBlock opener env s₁)
        (finishBlock opener env' s₁')) :
    Follows 0 (.upTo b c) Eq env.tokens env'.tokens s
      ((front >>= fun _ => finishBlock opener) env s)
      ((front >>= fun _ => finishBlock opener) env' s') := by
  refine .of_ok fun _ s₂ hrun hb hquiet => ?_
  obtain ⟨_, s₁, hfirst, hrest⟩ := bind_eq_ok hrun
  have hfinish : Runs 0 false {} true (finishBlock opener) := Passage.finishBlock opener
  have hlater := hclimbs.ok hs.le_size hfirst
  have hlater₁ := hfinish.climbs.ok hlater.le_size hrest
  have hquiet₁ := Nat.le_trans hlater₁.diagnostics.length_le hquiet
  have hb₁ := Nat.le_trans hlater₁.cursor hb
  have hcloser := atCloser_of_finishBlock hrest
    (Nat.le_trans hquiet hlater.diagnostics.length_le)
  have hfollows := hfront s₁ hfirst hcloser hb₁ hquiet₁
  rw [hfirst] at hfollows
  obtain ⟨_, s₁', hfirst', -, hs₁⟩ := hfollows ⟨hb₁, hquiet₁⟩
  have hbehind := hrear s₁ s₁' hcloser hb₁ hs₁
  rw [hrest] at hbehind
  obtain ⟨_, s₂', hrest', -, hs₂⟩ := hbehind
    ⟨hb, Nat.le_trans hquiet hlater.diagnostics.length_le⟩
  exact ⟨(), s₂', by rw [run_bind, hfirst']; exact hrest', rfl, hs₂⟩

end Production

end VisualBasic
