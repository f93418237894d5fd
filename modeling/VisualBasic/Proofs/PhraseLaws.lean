import VisualBasic.Proofs.Phrase

/-!
# What holds of phrases

The inductions over the rules of phrases, each with one lemma for every rule that needs an argument.

Main results:

* `Phrase.climbs` — a phrase goes forward.
* `Phrase.hushed` — a phrase changes the place and the node under construction, and nothing else.
* `Phrase.inside` — a phrase that says so ends inside of a statement.
* `Phrase.skirts` — a phrase does not go past a closing line.
* `Phrase.balanced` — a phrase closes the parentheses that it opens.
-/

namespace VisualBasic.Production

open State

variable {α β γ : Type}

-- ---------------------------------------------------------------------------
-- Going forward
-- ---------------------------------------------------------------------------

namespace Climbs

/-- A run that goes forward and succeeds. -/
theorem ok {p : Parse α} (hp : Climbs p) {env : Env} {s s' : State} {a : α}
    (hs : s.cursor ≤ env.tokens.tokens.size) (hrun : p env s = .ok a s') :
    Later env.tokens s s' := by
  have hlater := hp env s hs
  rwa [hrun] at hlater

theorem of_looks {p : Parse α} {seen : Env → State → α} (hp : Looks p seen) : Climbs p := by
  intro env s hs
  rw [hp env s]
  exact .refl hs

theorem pure (a : α) : Climbs (Pure.pure a : Parse α) := of_looks (Looks.pure a)

theorem bind {p : Parse α} {k : α → Parse β} (hp : Climbs p) (hk : ∀ a, Climbs (k a)) :
    Climbs (p >>= k) := by
  intro env s hs
  have hfirst := hp env s hs
  rw [lastState_bind]
  cases hrun : p env s with
  | error f s₁ =>
    rw [hrun] at hfirst
    exact hfirst
  | ok a s₁ =>
    rw [hrun] at hfirst
    exact hfirst.trans (hk a env s₁ hfirst.le_size)

theorem look {p : Parse α} {seen : Env → State → α} {k : α → Parse β} (hp : Looks p seen)
    (hk : ∀ a, Climbs (k a)) : Climbs (p >>= k) :=
  bind (of_looks hp) hk

/-- Either branch does. -/
theorem ite {c : Prop} [Decidable c] {p q : Parse α} (hp : Climbs p) (hq : Climbs q) :
    Climbs (if c then p else q) := by
  split
  · exact hp
  · exact hq

theorem fail (e : Expected) : Climbs (Production.fail e : Parse α) :=
  fun _ _ hs => .refl hs

theorem tooDeep : Climbs (Production.tooDeep : Parse α) :=
  fun _ _ hs => .refl hs

theorem checkDepth : Climbs Production.checkDepth := by
  intro env s hs
  unfold Production.checkDepth
  split
  · exact .refl hs
  · exact .refl hs

theorem leaf (kind : NodeKind) : Climbs (Production.leaf kind) :=
  fun _ _ hs => ⟨(le_next hs).1, (le_next hs).2, List.suffix_refl _⟩

theorem tokenLeaf : Climbs Production.tokenLeaf := look Looks.peek fun _ => leaf _

theorem skip : Climbs Production.skip :=
  fun _ _ hs => ⟨(le_next hs).1, (le_next hs).2, List.suffix_refl _⟩

theorem attach (n : Node) : Climbs (Production.attach n) :=
  fun _ _ hs => ⟨Nat.le_refl _, hs, List.suffix_refl _⟩

theorem take : Climbs Production.take := bind tokenLeaf attach

theorem construct {r : Rule} {first : Nat} {body : Parse Unit} (hbody : Climbs body) :
    Climbs (Production.construct r first body) := by
  intro env s hs
  have hlater := hbody env { s with children := [], isPartial := false } hs
  rw [Parse.construct_eq]
  cases hrun : body env { s with children := [], isPartial := false } with
  | ok a s' =>
    rw [hrun] at hlater
    exact ⟨hlater.cursor, hlater.le_size, hlater.diagnostics⟩
  | error f s' =>
    rw [hrun] at hlater
    exact ⟨hlater.cursor, hlater.le_size, hlater.diagnostics⟩

theorem field (f : Field) {p : Parse Node} (hp : Climbs p) : Climbs (Production.field f p) :=
  bind hp fun _ => attach _

/-- A wrapper does not move. -/
theorem wrap (r : Rule) (n : Node) : Climbs (Production.wrap r n) := construct (attach n)

theorem some {p : Parse α} (hp : Climbs p) : Climbs (Option.some <$> p) := by
  rw [map_eq_pure_bind]
  exact bind hp fun _ => pure _

theorem iterateUpTo {step : α → Parse (Option α)} (hstep : ∀ x, Climbs (step x)) (n : Nat)
    (x : α) : Climbs (Production.iterateUpTo step n x) := by
  induction n generalizing x with
  | zero => exact pure x
  | succ n ih =>
    rw [iterateUpTo_succ]
    refine bind (hstep x) fun y => ?_
    cases y with
    | none => exact pure x
    | some y => exact ih y

/-- Whatever the bound is. -/
theorem iterate {step : α → Parse (Option α)} (hstep : ∀ x, Climbs (step x)) (x : α) :
    Climbs (Production.iterate step x) :=
  fun env s => iterateUpTo hstep _ x env s

end Climbs

/-- What `expect` and the ends of lists have in common. -/
theorem Climbs.ifTake {kind : TokenKind} (e : Expected) :
    Climbs (atKind kind >>= fun x => if x = true then Production.take else Production.fail e) := by
  refine look (Looks.test _) fun x => ?_
  split
  · exact take
  · exact fail e

variable {δ : Nat} {strict : Bool} {spot : Spot} {closing lands : Bool} {r : α → β → Prop}
  {p : Parse α} {p' : Parse β}

/-- A phrase goes forward. -/
theorem Phrase.climbs (h : Phrase δ strict spot closing lands r p p') : Climbs p := by
  induction h with
  | pure => exact Climbs.pure _
  | fail => exact Climbs.fail _
  | tooDeep => exact Climbs.tooDeep
  | checkDepth => exact Climbs.checkDepth
  | bind _ _ ihp ihk | bindOne _ _ _ _ _ ihp ihk =>
    exact Climbs.bind ihp fun a => (Partnered.exists_partner a).elim fun a' ha => ihk a a' ha
  | look hp _ _ _ _ ih => exact Climbs.look hp ih
  | leaf => exact Climbs.leaf _
  | tokenLeaf => exact Climbs.tokenLeaf
  | skip => exact Climbs.skip
  | openParen _ ih => exact Climbs.bind (Climbs.ifTake _) fun _ => ih
  | closeParen => exact Climbs.ifTake _
  | attachThen _ _ ih => exact Climbs.bind (Climbs.attach _) fun _ => ih
  | node _ _ ih => exact fun env s => Climbs.construct ih env s
  | nodeFrom _ _ _ ih => exact Climbs.construct ih
  | iterate _ _ _ ih =>
    exact Climbs.iterate (fun x => (Partnered.exists_partner x).elim fun y hy => ih x y hy) _
  | nested _ ih => exact fun env s => ih { env with depth := env.depth + 1 } s
  | byRoom _ ih => exact fun env s => ih env.room env s
  | mono _ _ _ ih => exact ih

-- ---------------------------------------------------------------------------
-- Nothing but the place and the children
-- ---------------------------------------------------------------------------

namespace Hushed

theorem of_looks {p : Parse α} {seen : Env → State → α} (hp : Looks p seen) : Hushed p := by
  intro env s
  rw [hp env s]
  exact .refl s

theorem bind {p : Parse α} {k : α → Parse β} (hp : Hushed p) (hk : ∀ a, Hushed (k a)) :
    Hushed (p >>= k) := by
  intro env s
  have hfirst := hp env s
  rw [lastState_bind]
  cases hrun : p env s with
  | error f s₁ =>
    rw [hrun] at hfirst
    exact hfirst
  | ok a s₁ =>
    rw [hrun] at hfirst
    exact hfirst.trans (hk a env s₁)

/-- What comes behind a look is hushed. -/
theorem look {p : Parse α} {seen : Env → State → α} {k : α → Parse β} (hp : Looks p seen)
    (hk : ∀ a, Hushed (k a)) : Hushed (p >>= k) :=
  bind (of_looks hp) hk

theorem fail (e : Expected) : Hushed (Production.fail e : Parse α) := fun _ s => .refl s

/-- The look at the limit changes nothing. -/
theorem checkDepth : Hushed Production.checkDepth := by
  intro env s
  unfold Production.checkDepth
  split
  · exact .refl s
  · exact .refl s

/-- A leaf moves the place. -/
theorem leaf (kind : NodeKind) : Hushed (Production.leaf kind) :=
  fun _ _ => ⟨List.suffix_refl _, rfl, rfl, rfl, rfl⟩

theorem tokenLeaf : Hushed Production.tokenLeaf := look Looks.peek fun _ => leaf _

theorem attach (n : Node) : Hushed (Production.attach n) :=
  fun _ s => ⟨List.suffix_cons n s.children, rfl, rfl, rfl, rfl⟩

theorem take : Hushed Production.take := bind tokenLeaf attach

/-- A token is attached if it is of the kind. -/
theorem ifTake {kind : TokenKind} (e : Expected) :
    Hushed (atKind kind >>= fun x => if x = true then Production.take else Production.fail e) := by
  refine look (Looks.test _) fun x => ?_
  split
  · exact take
  · exact fail e

/-- The children of a node are gathered apart from those of the node around. -/
theorem construct {r : Rule} {first : Nat} {body : Parse Unit} (hbody : Hushed body) :
    Hushed (Production.construct r first body) := by
  intro env s
  have hinner := hbody env { s with children := [], isPartial := false }
  rw [Parse.construct_eq]
  cases hrun : body env { s with children := [], isPartial := false } with
  | ok a s' =>
    rw [hrun] at hinner
    exact ⟨List.suffix_refl _, rfl, hinner.diagnostics, hinner.blocks, hinner.singleLineIfs⟩
  | error f s' =>
    rw [hrun] at hinner
    exact ⟨List.suffix_refl _, rfl, hinner.diagnostics, hinner.blocks, hinner.singleLineIfs⟩

/-- By induction on the rounds. -/
theorem iterateUpTo {step : α → Parse (Option α)} (hstep : ∀ x, Hushed (step x)) (n : Nat)
    (x : α) : Hushed (Production.iterateUpTo step n x) := by
  induction n generalizing x with
  | zero => exact of_looks (Looks.pure x)
  | succ n ih =>
    rw [iterateUpTo_succ]
    refine bind (hstep x) fun y => ?_
    cases y with
    | none => exact of_looks (Looks.pure x)
    | some y => exact ih y

end Hushed

/-- A phrase changes the place and adds children, and nothing else. -/
theorem Phrase.hushed (h : Phrase δ strict spot closing lands r p p') : Hushed p := by
  induction h with
  | pure => exact Hushed.of_looks (Looks.pure _)
  | fail => exact Hushed.fail _
  | tooDeep => exact fun _ s => .refl s
  | checkDepth => exact Hushed.checkDepth
  | bind _ _ ihp ihk | bindOne _ _ _ _ _ ihp ihk =>
    exact Hushed.bind ihp fun a => (Partnered.exists_partner a).elim fun a' ha => ihk a a' ha
  | look hp _ _ _ _ ih => exact Hushed.look hp ih
  | leaf => exact Hushed.leaf _
  | tokenLeaf => exact Hushed.tokenLeaf
  | skip => exact fun _ _ => ⟨List.suffix_refl _, rfl, rfl, rfl, rfl⟩
  | openParen _ ih => exact Hushed.bind (Hushed.ifTake _) fun _ => ih
  | closeParen => exact Hushed.ifTake _
  | attachThen _ _ ih => exact Hushed.bind (Hushed.attach _) fun _ => ih
  | node _ _ ih => exact fun env s => Hushed.construct ih env s
  | nodeFrom _ _ _ ih => exact Hushed.construct ih
  | iterate _ _ _ ih =>
    exact fun env s => Hushed.iterateUpTo
      (fun x => (Partnered.exists_partner x).elim fun y hy => ih x y hy) _ _ env s
  | nested _ ih => exact fun env s => ih { env with depth := env.depth + 1 } s
  | byRoom _ ih => exact fun env s => ih env.room env s
  | mono _ _ _ ih => exact ih

-- ---------------------------------------------------------------------------
-- Where phrases end
-- ---------------------------------------------------------------------------

/-- A token of a kind that has to be there. -/
theorem run_ifTake {kind : TokenKind} {e : Expected} {env : Env} {s : State} {a : Unit} {s' : State}
    (hrun : (atKind kind >>= fun x => if x = true then Production.take
      else Production.fail e) env s =
      .ok a s') : env.kind s = kind ∧ s'.cursor = env.next s.cursor := by
  unfold atKind at hrun
  rw [(Looks.test _).run_bind] at hrun
  split at hrun
  · cases hrun
    exact ⟨beq_iff_eq.1 ‹_›, rfl⟩
  · cases hrun

/-- Behind a token that is no terminator a statement is going on. -/
theorem inside_of_ifTake {kind : TokenKind} {e : Expected} {env : Env} {s : State} {a : Unit}
    {s' : State}
    (hrun : (atKind kind >>= fun x => if x = true then Production.take
      else Production.fail e) env s =
      .ok a s') (hkind : IsInnerClass (· == kind)) (hend : (TokenKind.endOfFile == kind) = false) :
    env.tokens.Inside s'.cursor := by
  obtain ⟨hk, hcursor⟩ := run_ifTake hrun
  have hspot : (Spot.before false (· == kind)).Holds env s :=
    ⟨Bool.noConfusion, beq_iff_eq.2 hk, trivial⟩
  have hbehind : Spot.Holds ⟨true, []⟩ env s' := hspot.behind hend (fun _ => hkind) hcursor
  exact hbehind.inside rfl

/-- What every step keeps holds behind any number of steps. -/
theorem iterateUpTo_invariant {step : α → Parse (Option α)} {env : Env} (good : State → Prop)
    (hstep : ∀ x s y s', good s → step x env s = .ok y s' → good s') (n : Nat) {x y : α}
    {s s' : State} (hs : good s) (hrun : iterateUpTo step n x env s = .ok y s') : good s' := by
  induction n generalizing x s with
  | zero =>
    cases hrun
    exact hs
  | succ n ih =>
    rw [iterateUpTo_succ, run_bind] at hrun
    cases hfirst : step x env s with
    | error f s₁ =>
      rw [hfirst] at hrun
      cases hrun
    | ok z s₁ =>
      rw [hfirst] at hrun
      have hs₁ := hstep x s z s₁ hs hfirst
      cases z with
      | none =>
        cases hrun
        exact hs₁
      | some z => exact ih hs₁ hrun

/-- Where a run behind another one comes from. -/
theorem bind_eq_ok {p : Parse α} {k : α → Parse β} {env : Env} {s s' : State} {b : β}
    (hrun : (p >>= k) env s = .ok b s') :
    ∃ a s₁, p env s = .ok a s₁ ∧ k a env s₁ = .ok b s' := by
  rw [run_bind] at hrun
  cases hfirst : p env s with
  | error f s₁ =>
    rw [hfirst] at hrun
    cases hrun
  | ok a s₁ =>
    rw [hfirst] at hrun
    exact ⟨a, s₁, rfl, hrun⟩

/-- Where a finished node comes from: it is made of what its body attaches. -/
theorem construct_eq_finish {rule : Rule} {first : Nat} {body : Parse Unit} {env : Env}
    {s s' : State} {n : Node} (hrun : construct rule first body env s = .ok n s') :
    ∃ s₁, body env { s with children := [], isPartial := false } = .ok () s₁ ∧
      n = .finish (.rule rule) (env.span first s₁.cursor) first s₁.isPartial s₁.children.reverse ∧
      s' = { s₁ with children := s.children, isPartial := s.isPartial } := by
  rw [Parse.construct_eq] at hrun
  split at hrun
  · rename_i s₁ hbody
    cases hrun
    exact ⟨s₁, hbody, rfl, rfl⟩
  · cases hrun

/-- A node that is built has a body that ran in it. -/
theorem construct_eq_ok {rule : Rule} {first : Nat} {body : Parse Unit} {env : Env}
    {s s' : State} {n : Node} (hrun : construct rule first body env s = .ok n s') :
    ∃ s₁, body env { s with children := [], isPartial := false } = .ok () s₁ ∧
      s'.cursor = s₁.cursor := by
  obtain ⟨s₁, hbody, -, rfl⟩ := construct_eq_finish hrun
  exact ⟨s₁, hbody, rfl⟩

/-- Past the limit the state is what it was. -/
theorem checkDepth_eq_ok {env : Env} {s s' : State} {a : Unit}
    (hrun : Production.checkDepth env s = .ok a s') : s' = s := by
  unfold Production.checkDepth at hrun
  split at hrun
  · cases hrun
  · cases hrun
    rfl

/-- A phrase that says so ends inside of a statement. -/
theorem Phrase.inside (h : Phrase δ strict spot closing lands r p p') {env : Env} {s s' : State}
    {a : α} (hspot : spot.Holds env s) (hrun : p env s = .ok a s') (hlands : lands = true) :
    env.tokens.Inside s'.cursor := by
  induction h generalizing env s s' with
  | pure =>
    cases hrun
    exact hspot.inside hlands
  | fail | tooDeep => cases hrun
  | checkDepth =>
    obtain rfl := checkDepth_eq_ok hrun
    exact hspot.inside hlands
  | bind _ _ ihp ihk =>
    obtain ⟨a, s₁, hfirst, hrest⟩ := bind_eq_ok hrun
    have hspot₁ := Spot.holds_plain fun hi => ihp hspot hfirst hi
    exact (Partnered.exists_partner a).elim fun a' ha => ihk a a' ha hspot₁ hrest hlands
  | look hp _ next hnext _ ih =>
    rw [hp.run_bind] at hrun
    exact ih _ (hnext env s hspot) hrun hlands
  | leaf _ hc hl =>
    cases hrun
    exact hspot.inside_behind hc.endOfFile (hl hlands) rfl
  | tokenLeaf hc hl =>
    cases hrun
    exact hspot.inside_behind hc.endOfFile (hl hlands) rfl
  | bindOne _ hone hc hinside _ _ ihk =>
    obtain ⟨a, s₁, hfirst, hrest⟩ := bind_eq_ok hrun
    have hspot₁ := hspot.behind hc hinside (hone env s a s₁ hfirst)
    exact (Partnered.exists_partner a).elim fun a' ha => ihk a a' ha hspot₁ hrest hlands
  | skip => exact Bool.noConfusion hlands
  | openParen _ ih =>
    obtain ⟨_, s₁, hfirst, hrest⟩ := bind_eq_ok hrun
    have hinside := inside_of_ifTake hfirst ⟨rfl, rfl⟩ rfl
    exact ih (Spot.holds_plain fun _ => hinside) hrest hlands
  | closeParen => exact inside_of_ifTake hrun ⟨rfl, rfl⟩ rfl
  | attachThen _ _ ih =>
    refine ih ?_ hrun hlands
    exact hspot.same rfl rfl
  | node _ _ ih | nodeFrom _ _ _ ih =>
    obtain ⟨s₁, hbody, hcursor⟩ := construct_eq_ok hrun
    rw [hcursor]
    refine ih ?_ hbody hlands
    exact hspot.same rfl rfl
  | iterate hstep _ _ ih =>
    refine iterateUpTo_invariant (fun s => env.tokens.Inside s.cursor)
      (fun x s y s₁ hs hfirst => ?_)
      _ (hspot.inside hlands) hrun
    exact (Partnered.exists_partner x).elim fun x' hx =>
      ih x x' hx (Spot.holds_plain fun _ => hs) hfirst hlands
  | @nested spot _ _ _ _ _ p _ _ ih =>
    have hspot' : spot.Holds { env with depth := env.depth + 1 } s := hspot.same rfl rfl
    have hinside := ih hspot' hrun hlands
    exact hinside
  | byRoom _ ih => exact ih env.room hspot hrun hlands
  | mono _ hs hl ih => exact ih (hs env s hspot) hrun (hl hlands)

/-- What every step of a repetition keeps, where it may be, holds behind the repetition. -/
theorem iterate_invariant {rel : α → β → Prop} [Partnered rel] {spot : Spot}
    {step : α → Parse (Option α)} {step' : β → Parse (Option β)} {env : Env}
    (hphrase : ∀ x y, rel x y → Phrase δ strict (.plain spot.inside) false spot.inside
      (OptionAlike rel) (step x) (step' y)) (good : State → Prop)
    (hstep : ∀ x x' s y s', rel x x' → (Spot.plain spot.inside).Holds env s → good s →
      step x env s = .ok y s' → good s')
    {x y : α} {s s' : State} (hspot : spot.Holds env s) (hs : good s)
    (hrun : iterate step x env s = .ok y s') : good s' := by
  refine (iterateUpTo_invariant
    (fun s => (spot.inside = true → env.tokens.Inside s.cursor) ∧ good s)
    (fun x s y s₁ hs hfirst => ?_) _ ⟨hspot.inside, hs⟩ hrun).2
  have hspot₁ := Spot.holds_plain hs.1
  obtain ⟨x', hx⟩ : ∃ x', rel x x' := Partnered.exists_partner x
  exact ⟨(hphrase x x' hx).inside hspot₁ hfirst, hstep x x' s y s₁ hx hspot₁ hs.2 hfirst⟩

-- ---------------------------------------------------------------------------
-- Barred tokens
-- ---------------------------------------------------------------------------

/-- A token that has to be there, and is none of those that are barred, is not barred. -/
theorem le_of_ifTake {kind : TokenKind} {expected : Expected} {env : Env} {s s' : State} {a : Unit}
    (hrun : (atKind kind >>= fun x =>
      if x = true then Production.take else Production.fail expected) env s = .ok a s')
    (hkind : kind ≠ .keyword .kwEnd ∧ kind ≠ .mark .less) {e : Nat}
    (he : env.tokens.Bars strict e) (hle : s.cursor ≤ e) : s'.cursor ≤ e := by
  obtain ⟨hk, hcursor⟩ := run_ifTake hrun
  have hlt : s.cursor < e := by
    refine Nat.lt_of_le_of_ne hle ?_
    rintro rfl
    rcases he.2.2 with hend | ⟨-, hless⟩
    · exact hkind.1 (hk ▸ hend)
    · exact hkind.2 (hk ▸ hless)
  have hnext := env.next_le_succ s.cursor
  omega

/-- A phrase does not go past a barred token. -/
theorem Phrase.skirts (h : Phrase δ strict spot closing lands r p p') {env : Env} {s s' : State}
    {a : α} (hspot : spot.Holds env s) (hrun : p env s = .ok a s') {e : Nat}
    (he : env.tokens.Bars strict e) (hle : s.cursor ≤ e) : s'.cursor ≤ e := by
  induction h generalizing env s s' with
  | pure =>
    cases hrun
    exact hle
  | attachThen _ _ ih =>
    refine ih ?_ hrun he hle
    exact hspot.same rfl rfl
  | fail | tooDeep => cases hrun
  | checkDepth =>
    obtain rfl := checkDepth_eq_ok hrun
    exact hle
  | bind hp _ ihp ihk =>
    obtain ⟨a, s₁, hfirst, hrest⟩ := bind_eq_ok hrun
    have hspot₁ := Spot.holds_plain fun hi => hp.inside hspot hfirst hi
    have hle₁ := ihp hspot hfirst he hle
    exact (Partnered.exists_partner a).elim fun a' ha => ihk a a' ha hspot₁ hrest he hle₁
  | look hp _ next hnext _ ih =>
    rw [hp.run_bind] at hrun
    exact ih _ (hnext env s hspot) hrun he hle
  | leaf _ hc _ | tokenLeaf hc _ | skip hc =>
    cases hrun
    exact hspot.next_le_of_bars hc he hle
  | bindOne _ hone hc hinside _ ihp ihk =>
    obtain ⟨a, s₁, hfirst, hrest⟩ := bind_eq_ok hrun
    have hspot₁ := hspot.behind hc hinside (hone env s a s₁ hfirst)
    have hle₁ := ihp hspot hfirst he hle
    exact (Partnered.exists_partner a).elim fun a' ha => ihk a a' ha hspot₁ hrest he hle₁
  | openParen _ ih =>
    obtain ⟨_, s₁, hfirst, hrest⟩ := bind_eq_ok hrun
    have hinside := inside_of_ifTake hfirst ⟨rfl, rfl⟩ rfl
    have hle₁ := le_of_ifTake hfirst (by decide) he hle
    exact ih (Spot.holds_plain fun _ => hinside) hrest he hle₁
  | closeParen => exact le_of_ifTake hrun (by decide) he hle
  | node _ _ ih | nodeFrom _ _ _ ih =>
    obtain ⟨s₁, hbody, hcursor⟩ := construct_eq_ok hrun
    rw [hcursor]
    refine ih ?_ hbody he hle
    exact hspot.same rfl rfl
  | iterate hstep _ _ ih =>
    refine iterate_invariant hstep (fun s => s.cursor ≤ e)
      (fun x x' s₁ y s₂ hx hspot₁ hs₁ hfirst => ?_)
      hspot hle hrun
    exact ih x x' hx hspot₁ hfirst he hs₁
  | @nested spot _ _ _ _ _ p _ _ ih =>
    have hspot' : spot.Holds { env with depth := env.depth + 1 } s := hspot.same rfl rfl
    have hskirts := ih hspot' hrun he hle
    exact hskirts
  | byRoom _ ih => exact ih env.room hspot hrun he hle
  | mono _ hs _ ih => exact ih (hs env s hspot) hrun he hle

-- ---------------------------------------------------------------------------
-- Parentheses
-- ---------------------------------------------------------------------------

/-- A word does not change how many parentheses are open. -/
theorem spans_word {inside : Bool} {c : TokenKind → Bool} {cs : List (TokenKind → Bool)}
    {env : Env} {s : State} (h : Spot.Holds ⟨inside, c :: cs⟩ env s)
    (hc : IsWordClass strict inside c) (n : Nat) {i : Nat} (hi : i = env.next s.cursor) :
    env.tokens.Spans (n + 1) s.cursor (n + 1) i := by
  have hkind : c (env.tokens.kindAt s.cursor) = true := h.kind
  rw [hi, h.next_eq hc.endOfFile]
  by_cases hnewline : env.tokens.kindAt s.cursor = .newline
  · exact .inr ⟨s.cursor, n, Nat.lt_succ_self _, hnewline, .stay⟩
  · refine .inl (.pass ⟨?_, ?_, hnewline, TokenKind.ne_endOfFile_of hkind hc.endOfFile⟩ .stay)
    · intro hparen
      rw [hparen, hc.leftParen] at hkind
      cases hkind
    · intro hparen
      rw [hparen, hc.rightParen] at hkind
      cases hkind

/-- Where a token was taken, it was of the kind, and it is behind. -/
theorem next_of_ifTake {kind : TokenKind} {expected : Expected} {env : Env}
    {s s' : State} {a : Unit}
    (hrun : (atKind kind >>= fun x =>
      if x = true then Production.take else Production.fail expected) env s = .ok a s')
    (hkind : kind ≠ .endOfFile) : s'.cursor = s.cursor + 1 := by
  obtain ⟨hk, hcursor⟩ := run_ifTake hrun
  rw [hcursor]
  refine Env.next_eq_succ ?_
  rw [show env.tokens.kindAt s.cursor = kind from hk]
  exact hkind

/-- A phrase closes the parentheses that it opens. -/
theorem Phrase.balanced (h : Phrase δ strict spot closing lands r p p') {env : Env} {s s' : State}
    {a : α} (hs : s.cursor ≤ env.tokens.tokens.size) (hspot : spot.Holds env s)
    (hrun : p env s = .ok a s') (n : Nat) :
    env.tokens.Spans (n + 1) s.cursor (if closing = true then n else n + 1) s'.cursor := by
  induction h generalizing env s s' n with
  | pure =>
    cases hrun
    exact .inl .stay
  | attachThen _ _ ih =>
    refine ih ?_ ?_ hrun n
    · exact hs
    · exact hspot.same rfl rfl
  | fail | tooDeep => cases hrun
  | checkDepth =>
    obtain rfl := checkDepth_eq_ok hrun
    exact .inl .stay
  | bind hp hk ihp ihk =>
    obtain ⟨a, s₁, hfirst, hrest⟩ := bind_eq_ok hrun
    have hspot₁ := Spot.holds_plain fun hi => hp.inside hspot hfirst hi
    have hs₁ := (hp.climbs.ok hs hfirst).le_size
    have hle (a' : _) (ha : _) := ((hk a a' ha).climbs.ok hs₁ hrest).cursor
    have hfront := ihp hs hspot hfirst n
    exact (Partnered.exists_partner a).elim fun a' ha =>
      hfront.trans (ihk a a' ha hs₁ hspot₁ hrest n) (hle a' ha)
  | look hp _ next hnext _ ih =>
    rw [hp.run_bind] at hrun
    exact ih _ hs (hnext env s hspot) hrun n
  | leaf _ hc _ | tokenLeaf hc _ | skip hc =>
    cases hrun
    exact spans_word hspot hc n rfl
  | bindOne hp hone hc hinside hk ihp ihk =>
    obtain ⟨a, s₁, hfirst, hrest⟩ := bind_eq_ok hrun
    have hspot₁ := hspot.behind hc hinside (hone env s a s₁ hfirst)
    have hs₁ := (hp.climbs.ok hs hfirst).le_size
    have hle (a' : _) (ha : _) := ((hk a a' ha).climbs.ok hs₁ hrest).cursor
    have hfront := ihp hs hspot hfirst n
    exact (Partnered.exists_partner a).elim fun a' ha =>
      hfront.trans (ihk a a' ha hs₁ hspot₁ hrest n) (hle a' ha)
  | openParen hk ih =>
    obtain ⟨_, s₁, hfirst, hrest⟩ := bind_eq_ok hrun
    have hinside := inside_of_ifTake hfirst ⟨rfl, rfl⟩ rfl
    have hs₁ := ((Climbs.ifTake _).ok hs hfirst).le_size
    have hrest' := ih hs₁ (Spot.holds_plain fun _ => hinside) hrest (n + 1)
    have hle := (hk.climbs.ok hs₁ hrest).cursor
    rw [next_of_ifTake hfirst nofun] at hrest' hle
    exact TokenStream.Spans.trans (.inl (.open (run_ifTake hfirst).1 .stay)) hrest' hle
  | closeParen =>
    rw [next_of_ifTake hrun nofun]
    exact .inl (.close (run_ifTake hrun).1 .stay)
  | node _ _ ih | nodeFrom _ _ _ ih =>
    obtain ⟨s₁, hbody, hcursor⟩ := construct_eq_ok hrun
    rw [hcursor]
    refine ih ?_ ?_ hbody n
    · exact hs
    · exact hspot.same rfl rfl
  | iterate hstep _ _ ih =>
    refine (iterate_invariant hstep (fun s₁ => s₁.cursor ≤ env.tokens.tokens.size ∧
        env.tokens.Spans (n + 1) s.cursor (n + 1) s₁.cursor)
      (fun x x' s₁ y s₂ hx hspot₁ hs₁ hfirst => ?_) hspot ⟨hs, .inl .stay⟩ hrun).2
    obtain ⟨hsize, hspans⟩ := hs₁
    have hlater := (hstep x x' hx).climbs.ok hsize hfirst
    exact ⟨hlater.le_size, hspans.trans (ih x x' hx hsize hspot₁ hfirst n) hlater.cursor⟩
  | @nested spot _ _ _ _ _ p _ _ ih =>
    have hs' : s.cursor ≤ ({ env with depth := env.depth + 1 } : Env).tokens.tokens.size := hs
    have hspot' : spot.Holds { env with depth := env.depth + 1 } s := hspot.same rfl rfl
    have hspans := ih hs' hspot' hrun n
    exact hspans
  | byRoom _ ih => exact ih env.room hs hspot hrun n
  | mono _ hs' _ ih => exact ih hs (hs' env s hspot) hrun n

end VisualBasic.Production
