import VisualBasic.Proofs.Joined

/-!
# Members in sources that go on

Whether a member of a type has a body or accessors is told by the lines behind it, and these looks
go far. Within a type that is closed they do not go past its closing line: the search for the body
of a routine ends there, and behind a property there is another member, whose word stands in front
of its end, or that line.

Main results:

* `LoopRun.guarded` — behind each round of a loop that ends with a closing line, the next word is in
  front of that line.
* `carries_routine`, `carries_property`, `carries_event` — members whose form the lines behind them
  decide.
* `carries_member` — a member of a type that is closed.
-/

namespace VisualBasic

open Production State

namespace TokenStream

/-- The word of what begins behind the terminators at an index is in front of the token at `e`, or
is that token. -/
def Guarded (t : TokenStream) (e j : Nat) : Prop :=
  t.behindPrefix (t.firstFrom (!·.isTerminator) j) ≤ e

/-- The search for a line that is not blank goes over the terminators. -/
theorem firstFrom_of_isTerminator {t : TokenStream} {i : Nat}
    (h : (t.kindAt i).isTerminator = true) :
    t.firstFrom (!·.isTerminator) i = t.firstFrom (!·.isTerminator) (i + 1) := by
  have hskip : ¬(!(t.kindAt i).isTerminator) = true := by
    rw [h]
    exact nofun
  have hlt : i < t.tokens.size := lt_size_of_kindAt_ne (TokenKind.ne_endOfFile_of h rfl)
  rw [firstFrom, if_neg hskip, if_pos hlt]

theorem nextLine_of_isTerminator {t : TokenStream} {i : Nat}
    (h : (t.kindAt i).isTerminator = true) :
    t.nextLine i = t.firstFrom (!·.isTerminator) (i + 1) := by
  have hline : t.lineEnd i = i := by
    refine firstFrom_of_true ?_
    rw [TokenKind.endsLine_eq, h]
    rfl
  unfold nextLine
  rw [hline, firstFrom_of_isTerminator h]

end TokenStream

/-- Two runs in a type that is closed, over streams that go on. -/
structure Within (env env' : Env) (e : Nat) (s s' : State) : Prop where
  joined : env.Joined env'
  closes : env.tokens.ClosesTypeAt e
  alike : s.Alike 0 (env.upTo e) env.tokens env'.tokens s'
  le : s.cursor ≤ e

namespace Within

variable {env env' : Env} {e : Nat} {s s' : State} {α β : Type} {r : α → β → Prop}

theorem lt_size (h : Within env env' e s s') : e + 1 < env.tokens.tokens.size := by
  refine TokenStream.lt_size_of_kindAt_ne fun hend => ?_
  have hword := h.closes.word
  rw [hend] at hword
  cases hword

theorem agree (h : Within env env' e s s') : env.Alike 0 (env.upTo e) env' :=
  h.joined.alike (Nat.lt_of_succ_lt h.lt_size)

theorem bars (h : Within env env' e s s') : env.tokens.Bars false e :=
  ⟨h.closes.behindLine.1, h.closes.behindLine.2, .inl h.closes.closer⟩

theorem nested (h : Within env env' e s s') :
    Within { env with depth := env.depth + 1 } { env' with depth := env'.depth + 1 } e s s' :=
  ⟨h.joined.nested, h.closes, h.alike, h.le⟩

/-- Another pair of states in the type. -/
theorem move (h : Within env env' e s s') {s₁ s₁' : State}
    (hs₁ : s₁.Alike 0 (env.upTo e) env.tokens env'.tokens s₁') (hle : s₁.cursor ≤ e) :
    Within env env' e s₁ s₁' :=
  ⟨h.joined, h.closes, hs₁, hle⟩

/-- What decides by the tokens ahead alone. -/
theorem follows (h : Within env env' e s s') {closing : Bool} {spot : Spot} {p : Parse α}
    {p' : Parse β} (hp : Passage 0 true spot closing r p p') (hspot : spot.Holds env s) :
    Follows 0 (env.upTo e) r env.tokens env'.tokens s (p env s) (p' env' s') :=
  h.joined.passage h.bars hp h.alike h.le hspot

-- ---------------------------------------------------------------------------
-- Looks at other lines
-- ---------------------------------------------------------------------------

theorem behindPrefix (h : Within env env' e s s') {i : Nat} (hi : env.tokens.behindPrefix i ≤ e) :
    env'.tokens.behindPrefix i = env.tokens.behindPrefix i :=
  h.agree.behindPrefix (Nat.lt_of_le_of_lt hi (Nat.lt_of_succ_lt h.lt_size))

theorem kindAt (h : Within env env' e s s') {i : Nat} (hi : i ≤ e + 1) :
    env'.tokens.kindAt i = env.tokens.kindAt i :=
  h.joined.kindAt i (Nat.lt_of_le_of_lt hi h.lt_size)

/-- A line that begins in front of the closing line ends in front of it. -/
theorem lineEnd_lt (h : Within env env' e s s') {i : Nat} (hi : i < e) :
    env.tokens.lineEnd i < e := by
  have hbound : env.tokens.lineEnd i ≤ e - 1 := by
    refine TokenStream.firstFrom_le (Nat.le_sub_one_of_lt hi) ?_
    rw [TokenKind.endsLine_eq, h.closes.behindLine.2]
    rfl
  omega

/-- The next line that is not blank begins no further than the closing line. -/
theorem nextLine_le (h : Within env env' e s s') {i : Nat} (hi : i < e) :
    env.tokens.nextLine i ≤ e := by
  refine TokenStream.firstFrom_le (Nat.le_of_lt (h.lineEnd_lt hi)) ?_
  rw [h.closes.closer]
  rfl

/-- The search for the body of a routine. -/
theorem routineHasBody (h : Within env env' e s s') (hword : env.tokens.behindPrefix s.cursor ≤ e) :
    env'.routineHasBody s' = env.routineHasBody s := by
  have hsees : env.tokens.behindPrefix s.cursor < env.tokens.tokens.size :=
    Nat.lt_of_le_of_lt hword (Nat.lt_of_succ_lt h.lt_size)
  have hbody (routine : Keyword) (hne : routine ≠ .kwEnd)
      (hkind : env.tokens.kindAt (env.tokens.behindPrefix s.cursor) = .keyword routine) :
      env'.tokens.bodyFollows routine false
        (env'.tokens.lineEnd (env.tokens.behindPrefix s.cursor)) =
        env.tokens.bodyFollows routine false
          (env.tokens.lineEnd (env.tokens.behindPrefix s.cursor)) := by
    have hlt : env.tokens.behindPrefix s.cursor < e := by
      refine Nat.lt_of_le_of_ne hword fun heq => hne ?_
      rw [heq, h.closes.closer] at hkind
      exact (TokenKind.keyword.inj hkind).symm
    have hline : env'.tokens.lineEnd (env.tokens.behindPrefix s.cursor + 0) = _ :=
      h.agree.lineEnd hsees
    rw [Nat.add_zero, Nat.add_zero] at hline
    rw [hline]
    refine h.agree.bodyFollows routine false ?_
    rintro _ _ ⟨rfl, rfl⟩
    exact ⟨e, h.lineEnd_lt hlt, h.lt_size, h.closes⟩
  have hsome := h.agree.someIn (· == .keyword .kwMustOverride) s.cursor hsees
  rw [Nat.add_zero, Nat.add_zero] at hsome
  unfold Env.routineHasBody
  dsimp only
  rw [h.alike.innermost, h.alike.cursor, Nat.add_zero, h.behindPrefix hword, hsome,
    h.kindAt (Nat.le_succ_of_le hword)]
  split
  · rw [hbody .kwSub nofun ‹_›]
  · rw [hbody .kwFunction nofun ‹_›]
  · rfl

end Within

namespace Production

variable {env env' : Env} {e : Nat} {s s' : State} {α : Type}

-- ---------------------------------------------------------------------------
-- What follows a member
-- ---------------------------------------------------------------------------

/-- In front of a closing line, the next word is that line. -/
theorem guarded_of_end {t : TokenStream} {i : Nat} (h : t.kindAt i = .keyword .kwEnd) :
    t.Guarded i i := by
  have hfirst : t.firstFrom (!·.isTerminator) i = i := by
    refine TokenStream.firstFrom_of_true ?_
    rw [h]
    rfl
  unfold TokenStream.Guarded
  rw [hfirst]
  refine Nat.le_of_eq (Accessored.behindPrefix_of_plain ?_ ?_)
  · rw [h]
    exact nofun
  · rw [h]
    rfl

/-- A loop that comes to a closing line: at the beginning of each round, the next word is in front
of that line. The items are lines that are blank or begin with their word. -/
theorem LoopRun.guarded {round : Parse Bool} {sf : State} (hrun : LoopRun round env s (.ok () sf))
    (h : Consumes round) (hs : s.cursor ≤ env.tokens.tokens.size)
    (hend : env.kind sf = .keyword .kwEnd)
    (hquiet : sf.diagnostics.length ≤ s.diagnostics.length)
    (hstop : ∀ s s₁, round env s = .ok false s₁ → s₁.cursor = s.cursor)
    (hblank : ∀ s s₁, (env.kind s).isTerminator = true → round env s = .ok true s₁ →
      s₁.cursor = s.cursor + 1)
    (hitem : ∀ s s₁, (env.kind s).isTerminator = false → s.cursor ≤ env.tokens.tokens.size →
      round env s = .ok true s₁ → s₁.diagnostics.length ≤ s.diagnostics.length →
      env.tokens.behindPrefix s.cursor ≤ s₁.cursor) :
    env.tokens.Guarded sf.cursor s.cursor := by
  generalize hresult : (EStateM.Result.ok () sf : EStateM.Result Failure State Unit) =
    result at hrun
  induction hrun with
  | @stop s s₁ hlast =>
    cases hresult
    rw [← hstop s sf hlast]
    exact guarded_of_end hend
  | fails => cases hresult
  | @again s s₁ _ hfirst rest ih =>
    subst hresult
    have hlater := h.climbs.ok hs hfirst
    have hbehind := rest.later h.climbs hlater.le_size
    cases hkind : (env.kind s).isTerminator with
    | true =>
      have hguarded := ih hlater.le_size (Nat.le_trans hquiet hlater.diagnostics.length_le) rfl
      unfold TokenStream.Guarded at hguarded ⊢
      rw [hblank s s₁ hkind hfirst] at hguarded
      rw [TokenStream.firstFrom_of_isTerminator hkind]
      exact hguarded
    | false =>
      have hhere : env.tokens.firstFrom (!·.isTerminator) s.cursor = s.cursor := by
        refine TokenStream.firstFrom_of_true ?_
        rw [show (env.tokens.kindAt s.cursor).isTerminator = false from hkind]
        rfl
      unfold TokenStream.Guarded
      rw [hhere]
      refine Nat.le_trans (hitem s s₁ hkind hs hfirst ?_) hbehind.cursor
      exact Nat.le_trans hbehind.diagnostics.length_le hquiet

/-- A member does the same in a type that is closed, over a stream that goes on, if the next word is
in front of the closing line of the type. -/
def Carries (p : Parse Node) : Prop :=
  ∀ env env' e s s', Within env env' e s s' → s.singleLineIfs = 0 →
    (∀ n s₁, p env s = .ok n s₁ → s₁.diagnostics.length ≤ s.diagnostics.length →
      env.tokens.Guarded e s₁.cursor) →
    Follows 0 (env.upTo e) (Node.Alike 0) env.tokens env'.tokens s (p env s) (p env' s')

theorem Carries.of_passage {p : Parse Node} (hp : Makes 0 true (.plain false) p) : Carries p :=
  fun _ _ _ _ _ h _ _ => h.follows hp (Spot.holds_plain nofun)

-- ---------------------------------------------------------------------------
-- Declarations with two forms
-- ---------------------------------------------------------------------------

/-- What fits where its header does: the line that it begins on and what is done behind the header
cannot fail. -/
theorem fits_iff {r : Rule} {header : Parse α} {rest : Nat → α → Parse Unit}
    (hrest : ∀ l a, NeverFails (rest l a)) (env : Env) (s : State) :
    (∃ n s₁, node r (currentLine >>= fun l => header >>= rest l) env s = .ok n s₁) ↔
      ∃ n s₁, node r (header >>= fun _ => pure ()) env s = .ok n s₁ := by
  have hfits {body : Parse Unit} : (∃ n s₁, node r body env s = .ok n s₁) ↔
      ∃ s₁, body env { s with children := [], isPartial := false } = .ok () s₁ := by
    unfold node
    rw [Parse.construct_eq]
    constructor
    · rintro ⟨n, s₁, hrun⟩
      split at hrun
      · exact ⟨_, ‹_›⟩
      · cases hrun
    · rintro ⟨s₁, hrun⟩
      rw [hrun]
      exact ⟨_, _, rfl⟩
  rw [hfits, hfits, Looks.currentLine.run_bind, run_bind, run_bind]
  cases header env { s with children := [], isPartial := false } with
  | error f s₁ =>
    constructor
    · rintro ⟨_, ⟨⟩⟩
    · rintro ⟨_, ⟨⟩⟩
  | ok a s₁ =>
    obtain ⟨_, s₂, hrun⟩ := hrest (env.line s) a env s₁
    exact ⟨fun _ => ⟨s₁, rfl⟩, fun _ => ⟨s₂, hrun⟩⟩

theorem firstFit_last_eq_ok {a : Ambiguity} {best : Option Failure} {q : Parse Node} {n : Node}
    {s₁ : State} : firstFit a best [{ production := q }] env s = .ok n s₁ ↔ q env s = .ok n s₁ := by
  rw [Parse.firstFit_cons_eq, if_pos rfl]
  dsimp only
  cases q env s with
  | ok n₁ s₂ => exact Iff.rfl
  | error f s₂ =>
    constructor
    · rintro ⟨⟩
    · rintro ⟨⟩

/-- The first form is taken if it is told to and fits. -/
theorem firstFit_twoForms_eq_ok {a : Ambiguity} {viable : Env → State → Bool} {p q : Parse Node}
    {n : Node} {s₁ : State} :
    firstFit a none [{ viable, production := p }, { production := q }] env s = .ok n s₁ ↔
      viable env s = true ∧ p env s = .ok n s₁ ∨
        (viable env s = false ∨ ∃ f s₂, p env s = .error f s₂) ∧ q env s = .ok n s₁ := by
  rw [Parse.firstFit_cons_eq]
  dsimp only
  by_cases hviable : viable env s = true
  · rw [if_pos hviable]
    cases p env s with
    | ok n₁ s₂ =>
      constructor
      · exact fun hp => .inl ⟨hviable, hp⟩
      · rintro (⟨-, hp⟩ | ⟨hno | ⟨_, _, ⟨⟩⟩, -⟩)
        · exact hp
        · rw [hviable] at hno
          cases hno
    | error f s₂ =>
      refine firstFit_last_eq_ok.trans ⟨fun hq => .inr ⟨.inr ⟨f, s₂, rfl⟩, hq⟩, ?_⟩
      rintro (⟨-, ⟨⟩⟩ | ⟨-, hq⟩)
      exact hq
  · rw [if_neg hviable, firstFit_last_eq_ok]
    constructor
    · exact fun hq => .inr ⟨.inl (Bool.eq_false_iff.2 hviable), hq⟩
    · rintro (⟨hyes, -⟩ | ⟨-, hq⟩)
      · exact absurd hyes hviable
      · exact hq

end Production

namespace Within

variable {env env' : Env} {e : Nat} {s s' : State}

/-- A declaration that has another form if the lines ahead do not say otherwise. If the first form
does not fit, it does not matter what the lines ahead say. -/
theorem twoForms (h : Within env env' e s s') {a : Ambiguity} {viable : Env → State → Bool}
    {p q : Parse Node}
    (hp : Follows 0 (env.upTo e) (Node.Alike 0) env.tokens env'.tokens s (p env s) (p env' s'))
    (hq : Follows 0 (env.upTo e) (Node.Alike 0) env.tokens env'.tokens s (q env s) (q env' s'))
    (herror : ∀ f s₁, p env s = .error f s₁ → ∃ f' s₁', p env' s' = .error f' s₁')
    (hviable : ∀ n s₁ n₂ s₂, p env s = .ok n s₁ → s₂.cursor ≤ e →
      s₂.diagnostics.length ≤ s.diagnostics.length →
      (viable env s = true ∧ n₂ = n ∧ s₂ = s₁ ∨ viable env s = false ∧ q env s = .ok n₂ s₂) →
      viable env' s' = viable env s) :
    Follows 0 (env.upTo e) (Node.Alike 0) env.tokens env'.tokens s
      (resolve a [{ viable, production := p }, { production := q }] env s)
      (resolve a [{ viable, production := p }, { production := q }] env' s') := by
  refine .of_ok fun n₂ s₂ hrun hb hquiet => ?_
  obtain ⟨_, s₀, hdepth, hfits⟩ := bind_eq_ok hrun
  have hchecked := Follows.checkDepth h.agree h.alike
  rw [hdepth] at hchecked
  obtain rfl := checkDepth_eq_ok hdepth
  obtain ⟨_, s₀', hdepth', -, -⟩ := hchecked ⟨h.le, Nat.le_refl _⟩
  obtain rfl := checkDepth_eq_ok hdepth'
  have hresolve {n : Node} {s₁ : State} (hfits : firstFit a none
      [{ viable, production := p }, { production := q }] env' s₀' = .ok n s₁) :
      resolve a [{ viable, production := p }, { production := q }] env' s₀' = .ok n s₁ := by
    unfold resolve
    rw [run_bind, hdepth']
    exact hfits
  rcases firstFit_twoForms_eq_ok.1 hfits with ⟨hyes, hrun₁⟩ | ⟨hno, hrun₁⟩
  · have hsame := hviable n₂ s₂ n₂ s₂ hrun₁ hb hquiet (.inl ⟨hyes, rfl, rfl⟩)
    rw [hrun₁] at hp
    obtain ⟨n', s₁', hrun', hn, hs₁⟩ := hp ⟨hb, hquiet⟩
    exact ⟨n', s₁', hresolve (firstFit_twoForms_eq_ok.2 (.inl ⟨hsame.trans hyes, hrun'⟩)), hn, hs₁⟩
  · rw [hrun₁] at hq
    obtain ⟨n', s₁', hrun', hn, hs₁⟩ := hq ⟨hb, hquiet⟩
    refine ⟨n', s₁', hresolve (firstFit_twoForms_eq_ok.2 (.inr ⟨?_, hrun'⟩)), hn, hs₁⟩
    cases hfirst : p env s₀ with
    | error f s₁ => exact .inr (herror f s₁ hfirst)
    | ok n s₁ =>
      rcases hno with hno | ⟨f, s₃, herr⟩
      · exact .inl ((hviable n s₁ n₂ s₂ hfirst hb hquiet (.inr ⟨hno, hrun₁⟩)).trans hno)
      · rw [hfirst] at herr
        cases herr

/-- A form that does not fit in the one run does not fit in the other, if only its header can
fail. -/
theorem error_of_error (h : Within env env' e s s') {p header : Parse Node} {lands : Bool}
    (hheader : Gives 0 false (.plain false) lands header)
    (hfits : ∀ env s, (∃ n s₁, p env s = .ok n s₁) ↔ ∃ n s₁, header env s = .ok n s₁) {f : Failure}
    {s₁ : State} (hrun : p env s = .error f s₁) : ∃ f' s₁', p env' s' = .error f' s₁' := by
  cases hbare : header env s with
  | ok n s₂ =>
    obtain ⟨n', s₂', hrun'⟩ := (hfits env s).2 ⟨n, s₂, hbare⟩
    rw [hrun] at hrun'
    cases hrun'
  | error f₂ s₂ =>
    obtain ⟨f₂', s₂', hbare'⟩ := hheader.error_of_error h.agree h.alike h.le h.bars hbare
    cases hrun' : p env' s' with
    | error f' s₁' => exact ⟨f', s₁', rfl⟩
    | ok n s₁' =>
      obtain ⟨n', s₃, hbare₃⟩ := (hfits env' s').1 ⟨n, s₁', hrun'⟩
      rw [hbare'] at hbare₃
      cases hbare₃

theorem lt_of_builds (h : Within env env' e s s') {m : Manner} {p : Parse Node}
    (hp : Builds m 0 true p) {n : Node} {s₁ : State} (hrun : p env s = .ok n s₁)
    (hb : s₁.cursor ≤ e) :
    s.cursor < e := by
  have houtcome := hp env s (TokenStream.Ready.zero h.alike.le_size)
  rw [hrun] at houtcome
  exact Nat.lt_of_lt_of_le (houtcome.1 rfl) hb

theorem eventHasAccessors (h : Within env env' e s s') (hlt : s.cursor < e) :
    env'.eventHasAccessors s' = env.eventHasAccessors s := by
  have hle := h.nextLine_le hlt
  have hnext : env'.tokens.nextLine s'.cursor = env.tokens.nextLine s.cursor := by
    rw [h.alike.cursor]
    exact h.agree.nextLine (Nat.lt_of_le_of_lt hle (Nat.lt_of_succ_lt h.lt_size))
  unfold Env.eventHasAccessors
  dsimp only
  rw [hnext, h.kindAt (Nat.le_succ_of_le hle), h.kindAt (Nat.succ_le_succ hle)]

end Within

namespace Production

variable {env env' : Env} {e : Nat} {s s' : State}

theorem flows_propertyLine : Flows 0 false {} false propertyLine :=
  Phrase.seq Phrase.propertyHeader (Phrase.seq Phrase.memberClauses Phrase.endStatement)

/-- Outside of an `If` on a single line a statement ends with a terminator, or the text ends. -/
theorem terminator_of_endStatement {u : Unit} {s₁ : State} (hrun : endStatement env s = .ok u s₁)
    (hsingle : s.singleLineIfs = 0) (hend : env.kind s ≠ .endOfFile) :
    (env.kind s).isTerminator = true ∧ s₁.cursor = s.cursor + 1 := by
  unfold endStatement atTerminator at hrun
  rw [Looks.peek.run_bind] at hrun
  by_cases hterminator : (env.kind s).isTerminator = true
  · rw [if_pos hterminator] at hrun
    cases hrun
    exact ⟨hterminator, Env.next_eq_succ hend⟩
  · have hopen : ((env.kind s).endsLine ||
        (env.kind s == .keyword .kwElse && decide (0 < s.singleLineIfs))) = false := by
      rw [TokenKind.endsLine_eq, Bool.eq_false_iff.2 hterminator,
        beq_eq_false_iff_ne.2 hend, hsingle]
      exact Bool.and_false _
    rw [if_neg hterminator, (Looks.test _).run_bind, hopen] at hrun
    cases hrun

/-- The header of a property ends with a terminator. -/
theorem stop_of_propertyLine {s₁ : State} (hrun : propertyLine env s = .ok () s₁)
    (hs : s.singleLineIfs = 0)
    (hlasting : env.tokens.Lasting) (hsize : s.cursor ≤ env.tokens.tokens.size)
    (hlt : s₁.cursor < env.tokens.tokens.size) :
    ∃ stop, s₁.cursor = stop + 1 ∧ (env.tokens.kindAt stop).isTerminator = true := by
  have hname : Flows 0 false {} true (propertyHeader >>= fun _ => memberClauses) :=
    Phrase.seq Phrase.propertyHeader Phrase.memberClauses
  have hend : Flows 0 false {} false endStatement := Phrase.endStatement
  rw [show propertyLine = (propertyHeader >>= fun _ => memberClauses) >>= fun _ => endStatement from
    (bind_assoc _ _ _).symm] at hrun
  obtain ⟨_, s₂, hfirst, hrest⟩ := bind_eq_ok hrun
  have hlater := hname.climbs.ok hsize hfirst
  have hbehind := (hend.climbs.ok hlater.le_size hrest).cursor
  have honward := hname.hushed env s
  rw [hfirst] at honward
  obtain ⟨hterminator, hcursor⟩ := terminator_of_endStatement hrest (honward.singleLineIfs.trans hs)
    (hlasting _ (Nat.lt_of_le_of_lt hbehind hlt))
  exact ⟨s₂.cursor, hcursor, hterminator⟩

theorem propertyWithAccessors_eq : propertyWithAccessors = node .propertyDeclaration
    (currentLine >>= fun line => propertyLine >>= fun _ =>
      Accessored.property.behindHeader line) := by
  simp only [propertyWithAccessors, propertyLine, bind_assoc]
  rfl

theorem neverFails_openBlockAt (opener : Keyword) (l : Nat) :
    NeverFails (openBlockAt opener l : Parse Unit) :=
  fun _ _ => ⟨_, _, rfl⟩

theorem carries_routine (a : Ambiguity) (r : Rule) : Carries (routine a r) := by
  intro env env' e s s' h _ _
  have hspot : (Spot.plain false).Holds env s := Spot.holds_plain nofun
  refine h.twoForms (h.follows (Passage.routineWithBody r) hspot)
    (h.follows (.quiet (Passage.routineWithoutBody r)) hspot) (fun f s₁ hrun => ?_)
    fun n s₁ n₂ s₂ hrun hb hquiet hchoice => h.routineHasBody ?_
  · refine h.error_of_error (Passage.routineWithoutBody r) (fun env s => ?_) hrun
    exact fits_iff (fun l word => (neverFails_openBlockAt word l).bind fun _ => .blockRest _) env s
  · rcases hchoice with ⟨-, rfl, rfl⟩ | ⟨-, hrun₂⟩
    · exact Nat.le_trans (Fares.announced_routineWithBody r env s _ _ h.alike.le_size
        hrun hquiet) hb
    · exact Nat.le_trans (Fares.announced_routineWithoutBody r env s _ _ h.alike.le_size
        hrun₂ hquiet) hb

theorem carries_event : Carries eventDeclaration := by
  intro env env' e s s' h _ _
  have hspot : (Spot.plain false).Holds env s := Spot.holds_plain nofun
  have hheader : Gives 0 false (.plain false) false eventWithoutAccessors :=
    .node _ Phrase.eventHeader
  refine h.twoForms (h.follows Passage.eventWithAccessors hspot) (h.follows (.quiet hheader) hspot)
    (fun f s₁ hrun => ?_) fun n s₁ n₂ s₂ hrun hb _ hchoice => h.eventHasAccessors ?_
  · refine h.error_of_error hheader (fun env s => ?_) hrun
    have hrest (l : Nat) : NeverFails (openBlockAt .kwEvent l >>= fun _ => do
        repeatWhile eventItem
        finishBlock .kwEvent) :=
      (neverFails_openBlockAt _ l).bind fun _ =>
        (NeverFails.repeatWhile .eventItem).bind fun _ => NeverFails.finishBlock .kwEvent
    have hfits : (∃ n s₁, eventWithAccessors env s = .ok n s₁) ↔ _ :=
      fits_iff (fun l _ => hrest l) env s
    rw [bind_pure_unit] at hfits
    exact hfits
  · rcases hchoice with ⟨-, rfl, rfl⟩ | ⟨-, hrun₂⟩
    · exact h.lt_of_builds Builds.eventWithAccessors hrun hb
    · have hbare : Builds .quiet 0 true eventWithoutAccessors := Builds.node Steps.eventHeader
      exact h.lt_of_builds hbare hrun₂ hb

-- ---------------------------------------------------------------------------
-- Properties
-- ---------------------------------------------------------------------------

/-- Behind the header of a property that has accessors, and behind each of its lines, the next word
is in front of the closing line. -/
theorem guarded_of_accessors {sf : State} (hrun : LoopRun propertyItem env s (.ok () sf))
    (hs : s.cursor ≤ env.tokens.tokens.size) (hcloser : env.atCloser sf .kwProperty = true)
    (hquiet : sf.diagnostics.length ≤ s.diagnostics.length) :
    env.tokens.Guarded sf.cursor s.cursor := by
  refine hrun.guarded consumes_propertyItem hs (hasAhead_cons.1 hcloser).1 hquiet (fun s s₁ h => ?_)
    (fun s s₁ hkind h => ?_) fun s s₁ hkind hs h hquiet => ?_
  · rcases Accessored.round_propertyItem env s with ⟨h', -⟩ | ⟨_, _, h', -⟩
    · rw [h] at h'
      cases h'
      rfl
    · rw [h] at h'
      cases h'
  · obtain ⟨s₂, hblank, hcursor⟩ := Accessored.cursor_of_blank hkind
    unfold propertyItem at h
    rw [Looks.peek.run_bind, if_pos hkind, hblank] at h
    cases h
    exact hcursor
  · unfold propertyItem atBoundary at h
    rw [Looks.peek.run_bind, if_neg (by rw [hkind]; exact nofun),
      Looks.peekBehindPrefix.run_bind] at h
    split at h
    · obtain ⟨_, s₂, hchild, hret⟩ := bind_eq_ok h
      cases hret
      exact Fares.child (.nested .announced_accessor) env s () s₁ hs hchild hquiet
    · rw [(Looks.test _).run_bind] at h
      split at h
      · cases h
      · obtain ⟨_, s₂, hchild, hret⟩ := bind_eq_ok h
        cases hret
        have hregion :
            Fares Announced (unexpected (.oneOf [.keyword .kwGet, .keyword .kwSet])).child :=
          .child (.unexpected _)
        exact hregion env s () s₁ hs hchild hquiet

/-- The same, where the accessors and the closing line have been read. -/
theorem guarded_of_rows {s₁ : State} (hs : s.cursor ≤ env.tokens.tokens.size)
    (hrun : (repeatWhile propertyItem >>= fun _ => finishBlock .kwProperty) env s = .ok () s₁)
    (hquiet : s₁.diagnostics.length ≤ s.diagnostics.length) :
    s.cursor ≤ s₁.cursor ∧ env.tokens.Guarded s₁.cursor s.cursor := by
  obtain ⟨_, sf, hrounds, hfinish⟩ := bind_eq_ok hrun
  have hloop : Runs 0 false {} false (repeatWhile propertyItem) :=
    .repeatWhile .propertyItem Passage.progresses_propertyItem
  have hclosing : Runs 0 false {} true (finishBlock .kwProperty) := .finishBlock _
  have hlater := hloop.climbs.ok hs hrounds
  have hbehind := hclosing.climbs.ok hlater.le_size hfinish
  have hcloser := atCloser_of_finishBlock hfinish (Nat.le_trans hquiet hlater.diagnostics.length_le)
  refine ⟨Nat.le_trans hlater.cursor hbehind.cursor, Nat.le_trans ?_ hbehind.cursor⟩
  exact guarded_of_accessors ((consumes_propertyItem.loopRun_iff hs).2 hrounds) hs hcloser
    (Nat.le_trans hbehind.diagnostics.length_le hquiet)

end Production

namespace Within

variable {env env' : Env} {e : Nat} {s s' : State}

theorem kind (h : Within env env' e s s') : env'.kind s' = env.kind s := h.alike.kind h.agree h.le

theorem kindBehindPrefix (h : Within env env' e s s')
    (hword : env.tokens.behindPrefix s.cursor ≤ e) :
    env'.tokens.kindAt (env'.tokens.behindPrefix s'.cursor) =
      env.tokens.kindAt (env.tokens.behindPrefix s.cursor) := by
  rw [h.alike.cursor, Nat.add_zero, h.behindPrefix hword, h.kindAt (Nat.le_succ_of_le hword)]

theorem announcement (h : Within env env' e s s') (hword : env.tokens.behindPrefix s.cursor ≤ e) :
    Passage.announcement env' s' = Passage.announcement env s := by
  unfold Passage.announcement
  dsimp only
  rw [h.alike.cursor, Nat.add_zero, h.behindPrefix hword, h.kindAt (Nat.le_succ_of_le hword),
    h.kindAt (Nat.succ_le_succ hword)]

theorem accessor (h : Within env env' e s s') (hword : env.tokens.behindPrefix s.cursor ≤ e) :
    Follows 0 (env.upTo e) (Node.Alike 0) env.tokens env'.tokens s (Production.accessor env s)
      (Production.accessor env' s') := by
  unfold Production.accessor
  rw [Looks.peekBehindPrefix.run_bind, Looks.peekBehindPrefix.run_bind, h.kindBehindPrefix hword]
  have hspot : (Spot.plain false).Holds env s := Spot.holds_plain nofun
  by_cases hget : (env.tokens.kindAt (env.tokens.behindPrefix s.cursor) == .keyword .kwGet) = true
  · rw [if_pos hget]
    exact h.follows (Passage.accessorOf _ rfl) hspot
  · rw [if_neg hget]
    exact h.follows (Passage.accessorOf _ rfl) hspot

theorem propertyItem (h : Within env env' e s s') (hguard : env.tokens.Guarded e s.cursor) :
    Follows 0 (env.upTo e) Eq env.tokens env'.tokens s (Production.propertyItem env s)
      (Production.propertyItem env' s') := by
  have hspot : (Spot.plain false).Holds env s := Spot.holds_plain nofun
  unfold Production.propertyItem
  rw [Looks.peek.run_bind, Looks.peek.run_bind, h.kind]
  by_cases hkind : (env.kind s).isTerminator = true
  · rw [if_pos hkind]
    have hblank : Runs 0 true ⟨false, [(· == env.kind s)]⟩ false
        (child blankLine >>= fun _ => Pure.pure true) := .round (.child (.terminatorLeaf hkind))
    exact h.follows hblank ⟨nofun, beq_self_eq_true _, trivial⟩
  · rw [if_neg hkind, Looks.peekBehindPrefix.run_bind, Looks.peekBehindPrefix.run_bind]
    have hhere : env.tokens.firstFrom (!·.isTerminator) s.cursor = s.cursor := by
      refine TokenStream.firstFrom_of_true ?_
      rw [show (env.tokens.kindAt s.cursor).isTerminator = false from Bool.eq_false_iff.2 hkind]
      rfl
    have hword : env.tokens.behindPrefix s.cursor ≤ e := by
      unfold TokenStream.Guarded at hguard
      rwa [hhere] at hguard
    rw [h.kindBehindPrefix hword]
    split
    · have hitem : Makes 0 false (.plain false) Production.accessor.nested := .nested .accessor
      exact .bind h.alike.le_size (hitem.climbs.bind Climbs.attach) (fun _ => Climbs.pure true)
        (.child h.alike hitem.climbs (h.nested.accessor hword))
        fun _ _ _ _ _ _ _ hs₁ => .pure rfl hs₁
    · exact h.follows (.ifBoundary .result (.round (.child (.unexpected _)))) hspot

/-- The accessors and the closing line of a property. -/
theorem behindHeader (h : Within env env' e s s') (l l' : Nat) :
    Follows 0 (env.upTo e) Eq env.tokens env'.tokens s (Accessored.property.behindHeader l env s)
      (Accessored.property.behindHeader l' env' s') := by
  have hopen := h.move (h.alike.openBlock .kwProperty l l') h.le
  have hrounds : Runs 0 false {} false (repeatWhile Production.propertyItem) :=
    .repeatWhile .propertyItem Passage.progresses_propertyItem
  refine Follows.finishing .kwProperty hrounds.climbs hopen.alike
    (fun sf hrun hcloser hsf hquiet => ?_) fun s₁ s₁' _ hb hs₁ => ?_
  · refine .repeatWhile (fun _ => True) consumes_propertyItem.proceeds hopen.alike
      h.joined.le_size trivial
      (fun _ _ _ _ => trivial) fun sf' hrun' _ s s' _ hs hrounds hquiet => ?_
    rw [hrun] at hrun'
    cases hrun'
    have hbehind := hrounds.later consumes_propertyItem.climbs hs.le_size
    refine (h.move hs (Nat.le_trans hbehind.cursor hsf)).propertyItem (Nat.le_trans ?_ hsf)
    exact guarded_of_accessors hrounds hs.le_size hcloser hquiet
  · have hclosing : Runs 0 true {} true (finishBlock .kwProperty) := .finishBlock _
    exact (h.move hs₁ hb).follows hclosing (Spot.holds_plain nofun)

theorem propertyWithAccessors (h : Within env env' e s s') :
    Follows 0 (env.upTo e) (Node.Alike 0) env.tokens env'.tokens s
      (Production.propertyWithAccessors env s)
      (Production.propertyWithAccessors env' s') := by
  have hrest (l : Nat) : Runs 0 false {} false (Accessored.property.behindHeader l) :=
    .opening _ l l (.seq (.repeatWhile .propertyItem Passage.progresses_propertyItem)
      (.finishBlock _))
  rw [propertyWithAccessors_eq]
  refine .construct h.alike.cursor h.alike ?_
  rw [Looks.currentLine.run_bind, Looks.currentLine.run_bind]
  refine .bind h.alike.apart.le_size flows_propertyLine.climbs (fun _ => (hrest _).climbs)
    (flows_propertyLine.follows h.agree h.alike.apart h.le (Spot.holds_plain nofun)) ?_
  exact fun _ _ s₁ s₁' _ _ hreach hs₁ => (h.move hs₁ hreach).behindHeader _ _

theorem goesOn_property (h : Within env env' e s s') {i : Nat}
    (hi : env.tokens.behindPrefix i ≤ e) :
    Accessored.property.GoesOn env'.tokens i ↔ Accessored.property.GoesOn env.tokens i := by
  have hle : i ≤ e := Nat.le_trans (env.tokens.le_prefixEnd none i) hi
  have haccessor : env'.tokens.propertyAccessor? i = env.tokens.propertyAccessor? i := by
    unfold TokenStream.propertyAccessor?
    rw [h.behindPrefix hi, h.kindAt (Nat.le_succ_of_le hi)]
  change (env'.tokens.propertyAccessor? i).isSome = true ∨ _ ↔
    (env.tokens.propertyAccessor? i).isSome = true ∨ _
  rw [haccessor, h.kindAt (Nat.le_succ_of_le hle), h.kindAt (Nat.succ_le_succ hle)]

/-- Whether a property has accessors, if what follows its header is in front of the closing line. -/
theorem propertyHasAccessors (h : Within env env' e s s')
    (hsingle : s.singleLineIfs = 0) {s₁ : State}
    (hrun : propertyLine env { s with children := [], isPartial := false } = .ok () s₁)
    (hle : s₁.cursor ≤ e)
    (hguard : env.tokens.Guarded e s₁.cursor) :
    env'.propertyHasAccessors s' = env.propertyHasAccessors s := by
  have hquiet : s₁.diagnostics = s.diagnostics := by
    have honward := flows_propertyLine.hushed env { s with children := [], isPartial := false }
    rw [hrun] at honward
    exact honward.diagnostics
  have hfollows := flows_propertyLine.follows h.agree h.alike.apart h.le (Spot.holds_plain nofun)
  rw [hrun] at hfollows
  obtain ⟨_, s₁', hrun', -, hs₁⟩ := hfollows ⟨hle, hquiet ▸ Nat.le_refl _⟩
  obtain ⟨stop, hstop, hterminator⟩ : ∃ stop, s₁.cursor = stop + 1 ∧
      (env.tokens.kindAt stop).isTerminator = true :=
    stop_of_propertyLine hrun hsingle h.joined.lasting h.alike.le_size
      (Nat.lt_of_le_of_lt hle (Nat.lt_of_succ_lt h.lt_size))
  have hopens : Accessored.property.Opens env s s₁ stop := ⟨hrun, hstop, hterminator⟩
  have hopens' : Accessored.property.Opens env' s' s₁' stop := by
    refine ⟨hrun', hs₁.cursor.trans hstop, ?_⟩
    rw [h.kindAt (by omega)]
    exact hterminator
  have hnext : env.tokens.nextLine stop = env.tokens.firstFrom (!·.isTerminator) s₁.cursor := by
    rw [hstop]
    exact TokenStream.nextLine_of_isTerminator hterminator
  have hword : env.tokens.behindPrefix (env.tokens.nextLine stop) ≤ e := by
    rw [hnext]
    exact hguard
  have hline : env'.tokens.lineEnd s'.cursor = env.tokens.lineEnd s.cursor := by
    rw [h.alike.cursor]
    exact h.agree.lineEnd (Nat.lt_of_le_of_lt h.le (Nat.lt_of_succ_lt h.lt_size))
  have hnext' : env'.tokens.nextLine stop = env.tokens.nextLine stop := by
    have hle := Nat.le_trans (env.tokens.le_prefixEnd none (env.tokens.nextLine stop)) hword
    exact h.agree.nextLine (Nat.lt_of_le_of_lt hle (Nat.lt_of_succ_lt h.lt_size))
  rw [Bool.eq_iff_iff, Accessored.propertyHasAccessors_iff, Accessored.propertyHasAccessors_iff,
    hopens.goesOn_iff Accessored.lawful_property h.joined.lasting,
    hopens'.goesOn_iff Accessored.lawful_property h.joined.lasting', hline, hnext',
    h.goesOn_property hword]

end Within

namespace Production

/-- A property with accessors begins with its header. -/
theorem exists_propertyLine {n : Node} {s₁ : State} (hrun : propertyWithAccessors env s = .ok n s₁)
    (hs : s.cursor ≤ env.tokens.tokens.size) : ∃ s₂,
      propertyLine env { s with children := [], isPartial := false } = .ok () s₂ ∧
      (s₁.diagnostics.length ≤ s.diagnostics.length →
        s₂.cursor ≤ s₁.cursor ∧ env.tokens.Guarded s₁.cursor s₂.cursor) := by
  rw [propertyWithAccessors_eq] at hrun
  unfold node at hrun
  rw [Parse.construct_eq] at hrun
  split at hrun
  · rename_i s₃ hbody
    cases hrun
    rw [Looks.currentLine.run_bind] at hbody
    obtain ⟨_, s₂, hline, hrest⟩ := bind_eq_ok hbody
    have hlater :=
      flows_propertyLine.climbs.ok (s := { s with children := [], isPartial := false }) hs hline
    have hrows :=
      guarded_of_rows (s := { s₂ with blocks := ⟨.kwProperty, env.line s⟩ :: s₂.blocks })
      hlater.le_size hrest
    exact ⟨s₂, hline, fun hquiet => hrows (Nat.le_trans hquiet hlater.diagnostics.length_le)⟩
  · cases hrun

/-- A property whose lines say that it has no accessors ends with its header. -/
theorem cursor_of_propertyLine {n : Node} {s₁ s₂ : State}
    (hline : propertyLine env { s with children := [], isPartial := false } = .ok () s₂)
    (hviable : env.propertyHasAccessors s = false) (hrun : propertyDeclaration env s = .ok n s₁) :
    s₁.cursor = s₂.cursor := by
  have hgoes : ¬Accessored.property.GoesOn env.tokens (env.tokens.nextLine s.cursor) := by
    rw [← Accessored.propertyHasAccessors_iff, hviable]
    exact nofun
  obtain ⟨n', s', hrun', hnode⟩ := Accessored.lawful_property.leaves env s s₂ hline hgoes
  have heq : propertyDeclaration env s = .ok n' s' := hrun'
  rw [hrun] at heq
  cases heq
  exact hnode.cursor

theorem carries_property : Carries propertyDeclaration := by
  intro env env' e s s' h hsingle hguard
  have hspot : (Spot.plain false).Holds env s := Spot.holds_plain nofun
  have hheader : Gives 0 false (.plain false) false (node .propertyDeclaration propertyLine) :=
    .node _ flows_propertyLine
  refine h.twoForms h.propertyWithAccessors
    (h.follows (.quiet Passage.propertyWithoutAccessors) hspot)
    (fun f s₁ hrun => ?_) fun n s₁ n₂ s₂ hrun hb hquiet hchoice => ?_
  · refine h.error_of_error hheader (fun env s => ?_) hrun
    have hrest (l : Nat) : NeverFails (Accessored.property.behindHeader l) :=
      (neverFails_openBlockAt _ l).bind fun _ =>
        (NeverFails.repeatWhile .propertyItem).bind fun _ => NeverFails.finishBlock .kwProperty
    have hfits :
        _ ↔ ∃ n s₁, node .propertyDeclaration (propertyLine >>= fun _ => pure ()) env s =
            .ok n s₁ :=
      fits_iff (fun l _ => hrest l) env s
    rw [bind_pure_unit, ← propertyWithAccessors_eq] at hfits
    exact hfits
  · obtain ⟨s₃, hline, hrows⟩ := exists_propertyLine hrun h.alike.le_size
    rcases hchoice with ⟨-, rfl, rfl⟩ | ⟨hviable, hrun₂⟩
    · obtain ⟨hle, hguarded⟩ := hrows hquiet
      exact h.propertyHasAccessors hsingle hline (Nat.le_trans hle hb) (Nat.le_trans hguarded hb)
    · have hdeclaration : propertyDeclaration env s = .ok n₂ s₂ :=
        (run_resolve (propertyLine_eq ▸ hline) _ _ s).trans
          (firstFit_twoForms_eq_ok.2 (.inr ⟨.inl hviable, hrun₂⟩))
      have hcursor := cursor_of_propertyLine hline hviable hdeclaration
      have hguarded := hguard n₂ s₂ hdeclaration hquiet
      rw [hcursor] at hguarded hb
      exact h.propertyHasAccessors hsingle hline hb hguarded

-- ---------------------------------------------------------------------------
-- Members
-- ---------------------------------------------------------------------------

section

variable {typeDeclaration : Parse Node}

theorem carries_announced (htype : Carries typeDeclaration) {what : TokenKind × TokenKind × Bool}
    {p : Parse Node} (h : Passage.announced typeDeclaration what = some p) : Carries p :=
  Passage.announced_cases h (.of_passage (.quiet Phrase.constDeclaration)) (carries_routine _ _)
    (carries_routine _ _) carries_property carries_event htype
    (.of_passage (.quiet Phrase.fieldDeclaration))

theorem announced_memberOr (hannounced : Fares Announced typeDeclaration)
    (what : TokenKind × TokenKind × Bool) : Fares Announced
      (Passage.memberOr (Passage.announced typeDeclaration what)) := by
  cases hwhat : Passage.announced typeDeclaration what with
  | none => exact .unexpected _
  | some p => exact .orRecover (.announced_member hannounced hwhat)

theorem member_of_isTerminator (hkind : (env.kind s).isTerminator = true) :
    member typeDeclaration env s = blankLine env s := by
  rw [Passage.member_eq, Looks.peek.run_bind, if_pos hkind]

theorem member_of_not_isTerminator (hkind : ¬(env.kind s).isTerminator = true) :
    member typeDeclaration env s = Passage.memberOr
      (Passage.announced typeDeclaration (Passage.announcement env s)) env s := by
  rw [Passage.member_eq, Looks.peek.run_bind, if_neg hkind]
  rfl

/-- The word of a member stands in front of its end, so what it announces is the same. -/
theorem carries_member (htype : Carries typeDeclaration)
    (hannounced : Fares Announced typeDeclaration) :
    Carries (member typeDeclaration) := by
  intro env env' e s s' h hsingle hguard
  by_cases hkind : (env.kind s).isTerminator = true
  · have hblank : Makes 0 true ⟨false, [(· == env.kind s)]⟩ blankLine := .terminatorLeaf hkind
    rw [member_of_isTerminator hkind, member_of_isTerminator (h.kind ▸ hkind)]
    exact h.follows hblank ⟨nofun, beq_self_eq_true _, trivial⟩
  · rw [member_of_not_isTerminator hkind] at hguard ⊢
    rw [member_of_not_isTerminator (h.kind ▸ hkind)]
    by_cases hword : env.tokens.behindPrefix s.cursor ≤ e
    · rw [h.announcement hword]
      cases hwhat : Passage.announced typeDeclaration (Passage.announcement env s) with
      | none =>
        have hregion : Makes 0 true (.plain false) (unexpected .memberDeclaration) := .unexpected _
        exact h.follows hregion (Spot.holds_plain nofun)
      | some p =>
        rw [hwhat] at hguard
        have hcarries := carries_announced htype hwhat
        refine Follows.orRecover nofun h.alike (hcarries env env' e s s' h hsingle fun n s₁ hrun =>
          hguard n s₁ ?_)
        change p.orRecover env s = .ok n s₁
        rw [Parse.orRecover_eq]
        rw [hrun]
    · refine .of_ok fun n s₁ hrun hb hquiet => absurd ?_ hword
      exact Nat.le_trans (announced_memberOr hannounced _ env s n s₁ h.alike.le_size hrun hquiet) hb

end

end Production

end VisualBasic
