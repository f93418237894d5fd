import VisualBasic.Proofs.SwappedStatements

/-!
# The word that a declaration begins with

What a declaration is, is told by the word behind its attributes and modifiers, and to find that
word line ends are told from colons. If a declaration is read without an error, its attributes and
modifiers are read, too, and the word behind them. So the terminator at which a statement ends is
not among them, and the search for the word finds the same with a colon.

* `State.Fronts` — a run has read the attributes and modifiers at an index, and the word behind
  them.
* `Headed` — all runs have read those they begin with.

Main results:

* `State.Fronts.behindPrefix` — the search finds the same word.
* `Headed.declarationPrefix` — what begins with attributes and modifiers.
-/

namespace VisualBasic

namespace State

/-- The run from `s` to `s'` has read the attributes and modifiers at `j` and a token behind them,
and no statement in it ends in front of that token. -/
def Fronts (t : TokenStream) (j : Nat) (s : State) (ns : List Node) (s' : State) : Prop :=
  ∃ e, t.behindPrefix j ≤ e ∧ (t.kindAt e).isTerminator = false ∧ e < s'.cursor ∧
    ∀ k, k < t.tokens.size → k < e → (t.ending k).Clears s.children →
    (t.ending k).Clears (ns ++ s'.children)

namespace Fronts

variable {t : TokenStream} {j k : Nat} {env env' : Env} {s s₁ s' : State} {ns : List Node}

/-- The terminator is behind the attributes and modifiers, or in front of the run. -/
theorem lt_or_lt (h : Fronts env.tokens j s ns s') (hcrossing : Crossing k env env' s ns s') :
    env.tokens.behindPrefix j < k ∨ k < s.cursor := by
  obtain ⟨e, hbehind, hwithin, hlt, hclears⟩ := h
  have hne : e ≠ k := hcrossing.tokens.ne_of_not_terminator hwithin
  -- A run that crosses the terminator has read a statement that ends with it, and no statement of
  -- this run ends in front of the word.
  obtain hfront | hends | ⟨hfront, hback⟩ := hcrossing.crosses
  · exact .inr hfront
  · exact .inl (by omega)
  · refine .inl (Nat.lt_of_le_of_lt hbehind
      (Nat.lt_of_le_of_ne (Nat.le_of_not_lt fun hbetween => ?_) hne))
    exact hback (hclears k hcrossing.tokens.lt_size hbetween hfront)

/-- The search for the word finds the same if a colon stands at `k`. -/
theorem behindPrefix (h : Fronts env.tokens j s ns s') (hcrossing : Crossing k env env' s ns s')
    (hj : s.cursor ≤ j) : env'.tokens.behindPrefix j = env.tokens.behindPrefix j := by
  refine hcrossing.tokens.behindPrefix ?_
  exact (h.lt_or_lt hcrossing).imp_right fun hk => Nat.lt_of_lt_of_le hk hj

theorem kind (h : Fronts env.tokens j s ns s') (hcrossing : Crossing k env env' s ns s')
    (hj : s.cursor ≤ j) :
    env'.tokens.kindAt (env'.tokens.behindPrefix j) = env.tokens.kindAt
      (env.tokens.behindPrefix j) := by
  rw [h.behindPrefix hcrossing hj]
  refine hcrossing.tokens.kindAt _ ?_
  have hle := env.tokens.le_prefixEnd none j
  obtain hlt | hlt := h.lt_or_lt hcrossing
  · exact Nat.ne_of_lt hlt
  · exact Nat.ne_of_gt (Nat.lt_of_lt_of_le hlt (Nat.le_trans hj hle))

/-- What is done in front of the run. -/
theorem behind (h : Fronts t j s₁ ns s')
    (hfirst : ∀ k, k < t.tokens.size → (t.ending k).Clears s.children →
      (t.ending k).Clears s₁.children) :
    Fronts t j s ns s' := by
  obtain ⟨e, hbehind, hwithin, hlt, hclears⟩ := h
  exact ⟨e, hbehind, hwithin, hlt, fun k hk hke hs => hclears k hk hke (hfirst k hk hs)⟩

end Fronts

end State

namespace Production

open State Watch

variable {α β : Type} {off : Bool}

/-- What succeeds without an error has read the attributes and modifiers that it begins with. -/
structure Headed [Bears α] (p : Parse α) : Prop where
  fronts : ∀ {env : Env} {s : State} {a : α} {s' : State}, env.tokens.Ordered →
    s.cursor ≤ env.tokens.tokens.size → p env s = .ok a s' → Calm s s' →
    Fronts env.tokens s.cursor s (Bears.nodes a) s'

/-- What neither moves nor attaches anything may stand in front. -/
theorem Enters.behind {p : Parse α} {f : α → Parse β} (hf : ∀ a, Enters (f a))
    (hstill : ∀ env s a s', p env s = .ok a s' → s'.cursor = s.cursor) : Enters (p >>= f) := by
  intro env s b s' hs hrun
  obtain ⟨a, s₁, hfirst, hrest⟩ := bind_eq_ok hrun
  have hcursor := hstill _ _ _ _ hfirst
  have henters := hf a env s₁ b s' (hcursor ▸ hs) hrest
  rw [Env.kind, hcursor] at henters
  exact henters

namespace Headed

/-- Attributes and modifiers, and what is read for sure behind them. -/
theorem declarationPrefix [Bears β] {q : Parse β} (hq : Swaps true q) (henters : Enters q) :
    Headed (Production.declarationPrefix >>= fun _ => q) := by
  refine ⟨fun {env s b s'} ht hs hrun hcalm => ?_⟩
  obtain ⟨_, s₁, hread, hrest⟩ := bind_eq_ok hrun
  have hdisregards : Disregards false false Production.declarationPrefix := inferInstance
  have hgone := hdisregards.gone hs hread
  obtain ⟨hkind, hlt⟩ := henters env s₁ b s' hgone.le_size hrest
  -- The word is the token at which the attributes and modifiers end.
  refine ⟨s₁.cursor, ?_, hkind, hlt, fun k hk hke hclear => ?_⟩
  · rcases behindPrefix_of_declarationPrefix hs hread with ⟨-, hless⟩ | heq
    · exact Nat.le_of_lt hless
    · exact Nat.le_of_eq heq
  · have hyields : Yields (env.tokens.ending k) Production.declarationPrefix := inferInstance
    have hkeeps := hyields.keeps env s rfl hclear
    rw [hread] at hkeeps
    exact hq.located ht hk hgone.le_size hrest (hcalm.back hgone.toLater) (.inr hke) hkeeps

/-- What is read behind it. -/
theorem bind [Bears β] {p : Parse α} {f : α → Parse β} (h : @Headed α bearsNothing p)
    (hp : @Swaps true α bearsNothing p) (hf : ∀ a, Swaps false (f a)) : Headed (p >>= f) := by
  refine ⟨fun {env s b s'} ht hs hrun hcalm => ?_⟩
  obtain ⟨a, s₁, hfirst, hrest⟩ := bind_eq_ok hrun
  have hgone := hp.gone hs hfirst
  have hgone' := (hf a).gone hgone.le_size hrest
  obtain ⟨e, hbehind, hwithin, hlt, hclears⟩ := h.fronts ht hs hfirst (hcalm.front hgone'.toLater)
  -- The word is that of the first part, and no statement of the second one ends in front of it.
  refine ⟨e, hbehind, hwithin, Nat.lt_of_lt_of_le hlt hgone'.cursor, fun k hk hke hclear => ?_⟩
  refine (hf a).located ht hk hgone.le_size hrest (hcalm.back hgone.toLater)
    (.inr (Nat.lt_trans hke hlt)) ?_
  exact hclears k hk hke hclear

/-- What neither moves nor attaches anything may stand in front. -/
theorem behind [Bears β] {p : Parse α} {f : α → Parse β} (hf : ∀ a, Headed (f a))
    (hstill : ∀ env s a s', p env s = .ok a s' →
      s'.cursor = s.cursor ∧ s'.children = s.children ∧ s'.diagnostics = s.diagnostics) : Headed
        (p >>= f) := by
  refine ⟨fun {env s b s'} ht hs hrun hcalm => ?_⟩
  obtain ⟨a, s₁, hfirst, hrest⟩ := bind_eq_ok hrun
  obtain ⟨hcursor, hchildren, hdiagnostics⟩ := hstill _ _ _ _ hfirst
  have hcalm' : Calm s₁ s' := by
    unfold Calm at hcalm ⊢
    rwa [hdiagnostics]
  have hfronts := (hf a).fronts ht (hcursor ▸ hs) hrest hcalm'
  rw [hcursor] at hfronts
  exact hfronts.behind fun k _ h => by rwa [hchildren]

variable [Bears α] {p q : Parse α}

/-- What is done behind a look. -/
theorem look {look : Parse β} {seen : Env → State → β} {f : β → Parse α} (hlook : Looks look seen)
    (hf : ∀ b, Headed (f b)) : Headed (look >>= f) := by
  refine ⟨fun {env s b s'} ht hs hrun hcalm => ?_⟩
  rw [hlook.run_bind] at hrun
  exact (hf _).fronts ht hs hrun hcalm

theorem fail {e : Expected} : Headed (Production.fail e : Parse α) := by
  refine ⟨fun _ _ hrun _ => ?_⟩
  cases hrun

theorem checkDepth {f : Unit → Parse α} (hf : ∀ a, Headed (f a)) :
    Headed (Production.checkDepth >>= f) :=
  behind hf fun _ _ _ _ hrun => by
    obtain rfl := checkDepth_eq_ok hrun
    exact ⟨rfl, rfl, rfl⟩

theorem openBlock {opener : Keyword} {f : Unit → Parse α} (hf : ∀ a, Headed (f a)) :
    Headed (Production.openBlock opener >>= f) :=
  behind hf fun _ _ _ _ hrun => by
    cases hrun
    exact ⟨rfl, rfl, rfl⟩

theorem nested (h : Headed p) : Headed p.nested :=
  ⟨fun {env s a s'} ht hs hrun hcalm =>
    @Headed.fronts _ _ _ h { env with depth := env.depth + 1 } s a s' ht hs hrun hcalm⟩

theorem child {p : Parse Node} (h : Headed p) : Headed p.child := by
  refine ⟨fun {env s _ s'} ht hs hrun hcalm => ?_⟩
  obtain ⟨n, s₁, hfirst, hrest⟩ := bind_eq_ok hrun
  cases hrest
  exact h.fronts ht hs hfirst hcalm

theorem node {r : Rule} [hr : Holds r.isLine] {body : Parse Unit} (h : Headed body) :
    Headed (Production.node r body) := by
  refine ⟨fun {env s n s'} ht hs hrun hcalm => ?_⟩
  obtain ⟨s₁, hbody, rfl, rfl⟩ := construct_eq_finish hrun
  obtain ⟨e, hbehind, hwithin, hlt, hclears⟩ :=
    h.fronts (s := { s with children := [], isPartial := false }) ht hs hbody hcalm
  -- The node itself is none of those that are watched, so only its children count.
  refine ⟨e, hbehind, hwithin, hlt, fun k hk hke hclear => clears_cons.2 ⟨?_, hclear⟩⟩
  exact (Swaps.clears_finish hr.eq_true).2 (hclears k hk hke clears_nil)

/-- A node around another one. -/
theorem wrap {p : Parse Node} (h : Headed p) {r : Rule} (hr : r.isLine = true) :
    Headed (p >>= fun n => Production.wrap r n) := by
  refine ⟨fun {env s n s'} ht hs hrun hcalm => ?_⟩
  obtain ⟨m, s₁, hfirst, hrest⟩ := bind_eq_ok hrun
  obtain ⟨rfl, rfl⟩ := Swaps.wrap_eq_ok hrest
  obtain ⟨e, hbehind, hwithin, hlt, hclears⟩ := h.fronts ht hs hfirst hcalm
  refine ⟨e, hbehind, hwithin, hlt, fun k hk hke hclear => ?_⟩
  obtain ⟨hm, hrest⟩ := clears_cons.1 (hclears k hk hke hclear)
  exact clears_cons.2 ⟨(@Swaps.clears_finish _ _ _ hr _ _ _ [m]).2 hm, hrest⟩

theorem orRecover {p : Parse Node} (h : Headed p) : Headed (Production.orRecover p) :=
  ⟨fun ht hs hrun hcalm => h.fronts ht hs (Swaps.orRecover_of_calm hrun hcalm) hcalm⟩

/-- A header that is read to its end. -/
theorem recovering {p : Parse Unit} (h : Headed p) (hhushed : Hushed p) :
    Headed (Production.recovering p) :=
  ⟨fun ht hs hrun hcalm => h.fronts ht hs (Swaps.recovering_of_calm hhushed hrun hcalm) hcalm⟩

/-- One of two forms. -/
theorem twoForms {a : Ambiguity} {viable : Env → State → Bool} {p q : Parse Node} (hp : Headed p)
    (hq : Headed q) :
    Headed (Production.resolve a [{ viable, production := p }, { production := q }]) := by
  refine checkDepth fun _ => ?_
  refine ⟨fun {env s n s'} ht hs hrun hcalm => ?_⟩
  rcases firstFit_twoForms_eq_ok.1 hrun with ⟨-, hrun⟩ | ⟨-, hrun⟩
  · exact hp.fronts ht hs hrun hcalm
  · exact hq.fronts ht hs hrun hcalm

end Headed

end Production

end VisualBasic
