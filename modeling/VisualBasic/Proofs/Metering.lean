import VisualBasic.Proofs.Mirrors

/-!
# No bound is felt

A repetition of the grammar is given a bound on its rounds, the number of the tokens that are left.
Were a repetition to go on without reading anything, the bound would cut it off, and nobody would
notice. So the grammar is run with a meter: what is built are values as before, and beside them it
is noted whether any repetition was cut off. The note is passed on by everything, by going back
behind a failure, too.

A repetition that is not cut off is the loop without a bound, which `StepsRun` describes.

Main results:

* `StepsRun.of_iterate` — a repetition that has not been cut off is the loop without a bound.
* `Production.Mirrors.meters` — nothing that is put together by the rules is ever cut off, and with
  the meter it does what it does without.
-/

namespace VisualBasic

-- ---------------------------------------------------------------------------
-- The meter
-- ---------------------------------------------------------------------------

/-- The children of a node under construction, the latest first, and whether a repetition was cut
off. -/
structure Metered where
  children : List Node := []
  ranOut : Bool := false

instance : Store Metered where
  size b := b.children.length
  cut n b := { b with children := b.children.drop (b.children.length - n) }
  runOut b := { b with ranOut := true }

instance : Builder Metered Node where
  leaf kind span token b := (.leaf kind span token, b)
  error span first b := (.error span first, b)
  start b := { b with children := [] }
  finish kind span first isPartial inner outer :=
    (.finish kind span first isPartial inner.children.reverse,
      { inner with children := outer.children })
  drop inner outer := { inner with children := outer.children }
  attach n b := { b with children := n :: b.children }
  attachIn f n b := { b with children := n.inField f :: b.children }
  firstToken _ n := n.info.firstToken
  kind _ n := n.kind
  back now before :=
    { before with children := { before.children with ranOut := now.children.ranOut } }

namespace State

/-- A state with a meter beside it. -/
def metered (ranOut : Bool) (t : State) : State Metered :=
  { cursor := t.cursor, children := ⟨t.children, ranOut⟩, isPartial := t.isPartial
    diagnostics := t.diagnostics, blocks := t.blocks, singleLineIfs := t.singleLineIfs }

theorem agrees_metered (ranOut : Bool) (t : State) : (t.metered ranOut).Agrees t :=
  ⟨rfl, rfl, rfl, rfl, rfl⟩

/-- A state without the meter. -/
def unmetered (s : State Metered) : State := { s.bare with children := s.children.children }

theorem metered_unmetered (s : State Metered) : s.unmetered.metered s.children.ranOut = s := rfl

theorem Agrees.eq_metered {s : State Metered} {t : State} {ranOut : Bool} (h : s.Agrees t)
    (hchildren : s.children = ⟨t.children, ranOut⟩) : s = t.metered ranOut := by
  obtain ⟨cursor, children, isPartial, diagnostics, blocks, ifs⟩ := s
  obtain ⟨cursor', children', isPartial', diagnostics', blocks', ifs'⟩ := t
  obtain ⟨rfl, rfl, rfl, rfl, rfl⟩ := h
  obtain rfl := hchildren
  rfl

end State

namespace Production

variable {α β α' β' : Type}

-- ---------------------------------------------------------------------------
-- Loops without a bound
-- ---------------------------------------------------------------------------

/-- What comes of a step that is applied to its own result, until it gives none or fails. -/
inductive StepsRun {B : Type} (step : α → Production B (Option α)) (env : Env) :
    α → State B → EStateM.Result Failure (State B) α → Prop
  | stop {x : α} {s s' : State B} (h : step x env s = .ok none s') :
      StepsRun step env x s (.ok x s')
  | fails {x : α} {s s' : State B} {f : Failure} (h : step x env s = .error f s') :
    StepsRun step env x s (.error f s')
  | again {x y : α} {s s₁ : State B} {result : EStateM.Result Failure (State B) α}
    (h : step x env s = .ok (some y) s₁) (rest : StepsRun step env y s₁ result) :
    StepsRun step env x s result

/-- A loop comes to one result at most. -/
theorem StepsRun.unique {B : Type} {step : α → Production B (Option α)} {env : Env}
    {x : α} {s : State B}
    {result result' : EStateM.Result Failure (State B) α} (h : StepsRun step env x s result)
    (h' : StepsRun step env x s result') : result = result' := by
  induction h with
  | stop h =>
    cases h' with
    | stop h₁ | fails h₁ | again h₁ => grind
  | fails h =>
    cases h' with
    | stop h₁ | fails h₁ | again h₁ => grind
  | again h _ ih =>
    cases h' with
    | stop h₁ => grind
    | fails h₁ => grind
    | again h₁ rest =>
      rw [h] at h₁
      cases h₁
      exact ih rest

theorem StepsRun.of_iterateUpTo {step : α → Production Metered (Option α)} {env : Env}
    (n : Nat) {x : α}
    {s : State Metered} (h : (lastState (iterateUpTo step n x env s)).children.ranOut = false) :
    StepsRun step env x s (iterateUpTo step n x env s) := by
  induction n generalizing x s with
  | zero => cases h
  | succ n ih =>
    rw [iterateUpTo] at h ⊢
    cases hrun : step x env s with
    | error f s₁ => exact .fails hrun
    | ok y s₁ =>
      rw [hrun] at h
      cases y with
      | none => exact .stop hrun
      | some y => exact .again hrun (ih h)

/-- What a repetition comes to, if it has not been cut off, is what the loop without a bound comes
to. -/
theorem StepsRun.of_iterate {step : α → Production Metered (Option α)} {env : Env} {x : α}
    {s : State Metered} (h : (lastState (iterate step x env s)).children.ranOut = false) :
    StepsRun step env x s (iterate step x env s) :=
  of_iterateUpTo _ h

-- ---------------------------------------------------------------------------
-- Running with a meter
-- ---------------------------------------------------------------------------

/-- With the meter, the node in hand is the same value. -/
def Twin (h : Hand Node) : Prop := ∀ i n, h = some (i, n) → i = n

theorem Twin.none : Twin none := nofun

theorem Twin.some {n : Node} : Twin (Option.some (n, n)) := by
  intro i m h
  cases h
  rfl

/-- What the meter shows behind a run from `t` to `t'`, if it showed `ranOut` before. What was noted
stays noted. Where the run is `within` the text, it goes forward, and nothing is noted by it. -/
structure Passes (within : Prop) (tokens : TokenStream) (t t' : State) (ranOut ranOut' : Bool) :
    Prop where
  noted : ranOut = true → ranOut' = true
  unfelt : within → ranOut' = ranOut
  cursor : within → t.cursor ≤ t'.cursor
  le_size : within → t'.cursor ≤ tokens.tokens.size

/-- Two runs, with the meter and without, come to what is related, in states that differ by the
meter only. -/
def Metes (within : Prop) (r : α → β → Hand Node → Prop) (ranOut : Bool)
    (tokens : TokenStream) (t : State) :
    EStateM.Result Failure (State Metered) α → EStateM.Result Failure State β → Prop
  | .ok a s', .ok b t' =>
    (∃ k, r a b k ∧ Twin k) ∧ ∃ ranOut', s' = t'.metered ranOut' ∧
    Passes within tokens t t' ranOut ranOut'
  | .error f s', .error g t' =>
    g = f ∧ ∃ ranOut', s' = t'.metered ranOut' ∧ Passes within tokens t t' ranOut ranOut'
  | _, _ => False

/-- The production is the same with the meter, wherever it runs. -/
def Meters (h : Hand Node) (r : α → β → Hand Node → Prop) (p : Production Metered α)
    (q : Parse β) : Prop :=
  Twin h → ∀ within env ranOut t, (within → t.cursor ≤ env.tokens.tokens.size) →
    Metes within r ranOut env.tokens t (p env (t.metered ranOut)) (q env t)

variable {within : Prop} {h k : Hand Node} {r : α → β → Hand Node → Prop}
  {r' : α' → β' → Hand Node → Prop}
  {env : Env} {tokens : TokenStream} {ranOut ranOut₁ ranOut' : Bool} {t t₁ t' : State}

theorem Passes.stay (hcursor : t'.cursor = t.cursor) (ht : within → t.cursor ≤ tokens.tokens.size) :
    Passes within tokens t t' ranOut ranOut :=
  ⟨id, fun _ => rfl, fun _ => Nat.le_of_eq hcursor.symm, fun hwithin => hcursor ▸ ht hwithin⟩

theorem Passes.trans (hp : Passes within tokens t t₁ ranOut ranOut₁)
    (hp' : Passes within tokens t₁ t' ranOut₁ ranOut') :
    Passes within tokens t t' ranOut ranOut' where
  noted hnoted := hp'.noted (hp.noted hnoted)
  unfelt hwithin := (hp'.unfelt hwithin).trans (hp.unfelt hwithin)
  cursor hwithin := Nat.le_trans (hp.cursor hwithin) (hp'.cursor hwithin)
  le_size := hp'.le_size

/-- Both have succeeded, or both have failed. -/
theorem Metes.ok_or_error {x : EStateM.Result Failure (State Metered) α}
    {y : EStateM.Result Failure State β}
    (hxy : Metes within r ranOut tokens t x y) :
    (∃ a b t' ranOut' k, x = .ok a (t'.metered ranOut') ∧ y = .ok b t' ∧ r a b k ∧ Twin k ∧
      Passes within tokens t t' ranOut ranOut') ∨
    ∃ f t' ranOut', x = .error f (t'.metered ranOut') ∧ y = .error f t' ∧
      Passes within tokens t t' ranOut ranOut' := by
  cases x with
  | ok a s' =>
    cases y with
    | ok b t' =>
      obtain ⟨⟨k, hr, hk⟩, ranOut', rfl, hpasses⟩ := hxy
      exact .inl ⟨a, b, t', ranOut', k, rfl, rfl, hr, hk, hpasses⟩
    | error g t' => exact hxy.elim
  | error f s' =>
    cases y with
    | ok b t' => exact hxy.elim
    | error g t' =>
      obtain ⟨rfl, ranOut', rfl, hpasses⟩ := hxy
      exact .inr ⟨g, t', ranOut', rfl, rfl, hpasses⟩

theorem Metes.passes {x : EStateM.Result Failure (State Metered) α}
    {y : EStateM.Result Failure State β}
    (hxy : Metes within r ranOut tokens t x y) :
    Passes within tokens t (lastState y) ranOut (lastState x).children.ranOut := by
  obtain ⟨a, b, t', ranOut', k, rfl, rfl, -, -, hpasses⟩ | ⟨f, t', ranOut', rfl, rfl, hpasses⟩ :=
    hxy.ok_or_error
  · exact hpasses
  · exact hpasses

theorem Metes.behind (hpasses : Passes within tokens t t₁ ranOut ranOut₁)
    {x : EStateM.Result Failure (State Metered) α} {y : EStateM.Result Failure State β}
    (hxy : Metes within r ranOut₁ tokens t₁ x y) : Metes within r ranOut tokens t x y := by
  obtain ⟨a, b, t', ranOut', k, rfl, rfl, hr, hk, hpasses'⟩ | ⟨f, t', ranOut', rfl,
      rfl, hpasses'⟩ :=
    hxy.ok_or_error
  · exact ⟨⟨k, hr, hk⟩, ranOut', rfl, hpasses.trans hpasses'⟩
  · exact ⟨rfl, ranOut', rfl, hpasses.trans hpasses'⟩

namespace Meters

theorem bind {p : Production Metered α} {q : Parse β} {f : α → Production Metered α'}
    {g : β → Parse β'}
    (hp : Meters h r p q) (hf : ∀ a b k, r a b k → Meters k r' (f a) (g b)) :
    Meters h r' (p >>= f) (q >>= g) := by
  intro hh within env ranOut t ht
  rw [run_bind, run_bind]
  obtain ⟨a, b, t', ranOut', k, hrun, hrun', hr, hk, hpasses⟩ | ⟨e, t', ranOut', hrun,
      hrun', hpasses⟩ :=
    (hp hh within env ranOut t ht).ok_or_error
  · rw [hrun, hrun']
    exact .behind hpasses (hf a b k hr hk within env ranOut' t' hpasses.le_size)
  · rw [hrun, hrun']
    exact ⟨rfl, ranOut', rfl, hpasses⟩

/-- What only reads or changes what is not built. -/
theorem change {p : Production Metered α} {q : Parse α} {seen : Env → State Metered → α}
    {seen' : Env → State → α} {f : Env → State Metered → State Metered} {g : Env → State → State}
    (hp : ∀ env s, p env s = .ok (seen env s) (f env s))
    (hq : ∀ env t, q env t = .ok (seen' env t) (g env t))
    (hseen : ∀ env s t, s.Agrees t → seen' env t = seen env s)
    (hagrees : ∀ env s t, s.Agrees t → (f env s).Agrees (g env t))
    (hkept : ∀ env s, (f env s).children = s.children)
    (hkept' : ∀ env t, (g env t).children = t.children)
    (hcursor : ∀ env t, t.cursor ≤ env.tokens.tokens.size →
      t.cursor ≤ (g env t).cursor ∧ (g env t).cursor ≤ env.tokens.tokens.size) :
    Meters h (Plain h) p q := by
  intro hh within env ranOut t ht
  have hchildren : (f env (t.metered ranOut)).children = ⟨(g env t).children, ranOut⟩ := by
    rw [hkept, hkept']
    rfl
  have hsame := (hagrees env _ t (t.agrees_metered ranOut)).eq_metered hchildren
  rw [hp, hq]
  exact ⟨⟨h, ⟨hseen env _ t (t.agrees_metered ranOut), rfl⟩, hh⟩, ranOut, hsame, id, fun _ => rfl,
    fun hwithin => (hcursor env t (ht hwithin)).1, fun hwithin => (hcursor env t (ht hwithin)).2⟩

theorem refuse {p : Production Metered α} {q : Parse β} {f : Env → State Metered → Failure}
    {g : Env → State → Failure} (hp : ∀ env s, p env s = .error (f env s) s)
    (hq : ∀ env t, q env t = .error (g env t) t) (hf : ∀ env s t, s.Agrees t → g env t = f env s) :
    Meters h r p q := by
  intro _ within env ranOut t ht
  rw [hp, hq]
  exact ⟨hf env _ t (t.agrees_metered ranOut), ranOut, rfl, .stay rfl ht⟩

theorem checkDepth : Meters h (Plain h) Production.checkDepth Production.checkDepth := by
  intro hh within env ranOut t ht
  unfold Production.checkDepth
  split
  · exact ⟨rfl, ranOut, rfl, .stay rfl ht⟩
  · exact ⟨⟨_, ⟨rfl, rfl⟩, hh⟩, ranOut, rfl, .stay rfl ht⟩

theorem leaf (kind : NodeKind) : Meters none Given (Production.leaf kind) (Production.leaf kind) :=
  fun _ _ _ ranOut _ ht => ⟨⟨_, rfl, .some⟩, ranOut, rfl, id, fun _ => rfl,
    fun hwithin => Nat.le_min.2 ⟨Nat.le_succ _, ht hwithin⟩, fun _ => Nat.min_le_right _ _⟩

theorem construct {rule : Rule} {first : Nat} {body : Production Metered Unit} {body' : Parse Unit}
    (hbody : Meters h (Plain none) body body') (hh : Twin h)
    (ht : within → t.cursor ≤ env.tokens.tokens.size) :
    Metes within Given ranOut env.tokens t (Production.construct rule first body env
      (t.metered ranOut))
      (Production.construct rule first body' env t) := by
  have hstart : Builder.start (t.metered ranOut).children = ⟨[], ranOut⟩ := rfl
  rw [Parse.construct_eq, Production.construct, hstart]
  obtain ⟨_, _, t', ranOut', k, hrun, hrun', -, -, hpasses⟩ | ⟨f, t', ranOut', hrun,
      hrun', hpasses⟩ :=
    (hbody hh within env ranOut { t with children := [], isPartial := false } ht).ok_or_error
  · rw [State.metered] at hrun
    dsimp only [State.metered] at hrun ⊢
    rw [hrun, hrun']
    exact ⟨⟨_, rfl, .some⟩, ranOut', rfl, hpasses.noted, hpasses.unfelt, hpasses.cursor,
      hpasses.le_size⟩
  · dsimp only [State.metered] at hrun ⊢
    rw [hrun, hrun']
    exact ⟨rfl, ranOut', rfl, hpasses.noted, hpasses.unfelt, hpasses.cursor, hpasses.le_size⟩

theorem nodeFrom {i n : Node} (rule : Rule) {body : Production Metered Unit} {body' : Parse Unit}
    (hbody : Meters (some (i, n)) (Plain none) body body') :
    Meters (some (i, n)) Given (Production.nodeFrom i rule body)
    (Production.nodeFrom n rule body') := by
  intro hh within env ranOut t ht
  obtain rfl := hh i n rfl
  exact construct hbody hh ht

/-- Each step but the last reads a token, so there are more steps left than tokens. -/
theorem iterateUpTo {step : α → Production Metered (Option α)} {step' : β → Parse (Option β)}
    (hstep : ∀ x y k, r x y k → Meters k (Perhaps r k) (step x) (step' y))
    (hmoves : ∀ y, Moves (fun z => z.isSome = true) (step' y)) (n : Nat) {x : α} {y : β}
    (hr : r x y h)
    (hh : Twin h) (ht : within → t.cursor ≤ env.tokens.tokens.size)
    (hn : within → env.tokens.tokens.size - t.cursor < n) :
    Metes within r ranOut env.tokens t (Production.iterateUpTo step n x env (t.metered ranOut))
      (Production.iterateUpTo step' n y env t) := by
  induction n generalizing h x y t ranOut with
  | zero =>
    have hbehind {p : Prop} (hwithin : within) : p := absurd (hn hwithin) (Nat.not_lt_zero _)
    exact ⟨⟨h, hr, hh⟩, true, rfl, fun _ => rfl, hbehind, hbehind, hbehind⟩
  | succ n ih =>
    rw [Production.iterateUpTo, Production.iterateUpTo]
    obtain ⟨z, z', t₁, ranOut₁, k, hrun, hrun', hz, hk, hpasses⟩ | ⟨f, t₁, ranOut₁, hrun,
        hrun', hpasses⟩ :=
      (hstep x y h hr hh within env ranOut t ht).ok_or_error
    · rw [hrun, hrun']
      cases z with
      | none =>
        cases z' with
        | none => exact ⟨⟨h, hr, hh⟩, ranOut₁, rfl, hpasses⟩
        | some y₁ => exact hz.elim
      | some x₁ =>
        cases z' with
        | none => exact hz.elim
        | some y₁ =>
          refine .behind hpasses (ih hz hk hpasses.le_size fun hwithin => ?_)
          have hlt := hmoves y env t (some y₁) t₁ (ht hwithin) hrun' rfl
          have hle := hpasses.le_size hwithin
          have hleft := hn hwithin
          omega
    · rw [hrun, hrun']
      exact ⟨rfl, ranOut₁, rfl, hpasses⟩

theorem recover (f : Failure) (ht : within → t.cursor ≤ env.tokens.tokens.size) :
    Metes within Given ranOut env.tokens t (Production.recover f env (t.metered ranOut))
      (Production.recover f env t) := by
  have hbounds (hwithin : within) :=
    regionEnd_bounds env (0 < t.singleLineIfs) t.cursor t.cursor (ht hwithin)
  exact ⟨⟨_, rfl, .some⟩, ranOut, rfl, id, fun _ => rfl, fun hwithin => (hbounds hwithin).1,
    fun hwithin => (hbounds hwithin).2⟩

theorem orRecover {p : Production Metered Node} {q : Parse Node} (hp : Meters none Given p q) :
    Meters none Given p.orRecover q.orRecover := by
  intro hh within env ranOut t ht
  rw [Parse.orRecover_eq, Production.orRecover]
  obtain ⟨i, n, t', ranOut', k, hrun, hrun', hk, htwin, hpasses⟩ | ⟨f, t', ranOut', hrun,
      hrun', hpasses⟩ :=
    (hp hh within env ranOut t ht).ok_or_error
  · rw [hrun, hrun']
    exact ⟨⟨k, hk, htwin⟩, ranOut', rfl, hpasses⟩
  · have hback : Passes within env.tokens t t ranOut ranOut' :=
      ⟨hpasses.noted, hpasses.unfelt, fun _ => Nat.le_refl _, ht⟩
    rw [hrun, hrun']
    exact .behind hback (recover f ht)

theorem recovering {p : Production Metered Unit} {q : Parse Unit}
    (hp : Meters none (Plain none) p q) :
    Meters none (Plain none) p.recovering q.recovering := by
  intro hh within env ranOut t ht
  unfold Production.recovering
  obtain ⟨_, _, t', ranOut', k, hrun, hrun', hk, htwin, hpasses⟩ | ⟨f, t', ranOut', hrun,
      hrun', hpasses⟩ :=
    (hp hh within env ranOut t ht).ok_or_error
  · rw [hrun, hrun']
    exact ⟨⟨k, ⟨rfl, hk.2⟩, htwin⟩, ranOut', rfl, hpasses⟩
  · have hregion : Metes within (Plain none) ranOut' env.tokens t'
        ((Production.recover f).child env (t'.metered ranOut'))
        ((Production.recover f).child env t') := by
      have hrecover : Metes within Given ranOut' env.tokens t' _ _ := recover f hpasses.le_size
      obtain ⟨-, _, -, hpasses'⟩ := hrecover
      exact ⟨⟨none, ⟨rfl, rfl⟩, .none⟩, ranOut', rfl, id, fun _ => rfl, hpasses'.cursor,
        hpasses'.le_size⟩
    rw [hrun, hrun']
    exact .behind hpasses hregion

theorem tryNext {a : Ambiguity} {x : Alternative Metered Node} {y : Alternative}
    {rest : List (Alternative Metered Node)} {rest' : List Alternative} {best : Option Failure}
    (hviable : ∀ env s t, s.Agrees t → y.viable env t = x.viable env s)
    (hx : Meters none Given x.production y.production)
    (hrest : ∀ best, Meters none Given (firstFit a best rest) (firstFit a best rest')) :
    Meters none Given (firstFit a best (x :: rest)) (firstFit a best (y :: rest')) := by
  intro hh within env ranOut t ht
  rw [Parse.firstFit_cons_eq, firstFit, hviable env _ t (t.agrees_metered ranOut)]
  split
  · obtain ⟨i, n, t', ranOut', k, hrun, hrun', hk, htwin, hpasses⟩ |
        ⟨f, t', ranOut', hrun, hrun', hpasses⟩ :=
      (hx hh within env ranOut t ht).ok_or_error
    · rw [hrun, hrun']
      exact ⟨⟨k, hk, htwin⟩, ranOut', rfl, hpasses⟩
    · have hback : Passes within env.tokens t t ranOut ranOut' :=
        ⟨hpasses.noted, hpasses.unfelt, fun _ => Nat.le_refl _, ht⟩
      rw [hrun, hrun']
      exact .behind hback (hrest _ hh within env ranOut' t ht)
  · exact hrest best hh within env ranOut t ht

end Meters

/-- What is put together by the rules is the same with the meter: what was noted stays noted, and
within the text no repetition is cut off. -/
theorem Mirrors.meters {p : Production Metered α} {q : Parse β} (hpq : Mirrors h r p q) :
    Meters h r p q := by
  induction hpq with
  | pure hr => exact fun hh within env ranOut t ht => ⟨⟨_, hr, hh⟩, ranOut, rfl, .stay rfl ht⟩
  | bind _ _ ihp ihf => exact ihp.bind ihf
  | look hp hq hseen =>
    exact .change hp hq hseen (fun _ _ _ hst => hst) (fun _ _ => rfl) (fun _ _ => rfl)
      fun _ _ ht => ⟨Nat.le_refl _, ht⟩
  | @isRule i n rules =>
    intro hh within env ranOut t ht
    obtain rfl := hh i n rfl
    exact ⟨⟨_, ⟨rfl, rfl⟩, hh⟩, ranOut, rfl, .stay rfl ht⟩
  | change hp hq hagrees hkept hkept' hcursor =>
    exact .change hp hq (fun _ _ _ _ => rfl) hagrees hkept hkept' hcursor
  | refuse hp hq hf => exact .refuse hp hq hf
  | checkDepth => exact .checkDepth
  | leaf kind => exact .leaf kind
  | @attach i n | @attachIn i n =>
    intro hh within env ranOut t ht
    obtain rfl := hh i n rfl
    exact ⟨⟨none, ⟨rfl, rfl⟩, .none⟩, ranOut, rfl, .stay rfl ht⟩
  | node rule _ ih => exact fun hh within env ranOut t ht => Meters.construct ih hh ht
  | nodeFrom rule _ ih => exact .nodeFrom rule ih
  | iterate _ hmoves hr ih =>
    intro hh within env ranOut t ht
    unfold Production.iterate
    refine Meters.iterateUpTo ih hmoves _ hr hh ht fun hwithin => ?_
    exact Nat.sub_lt_sub_right (ht hwithin) (Nat.lt_succ_self _)
  | nested _ ih => exact fun hh within env => ih hh within { env with depth := env.depth + 1 }
  | choose p q _ ih =>
    exact fun hh within env ranOut t => ih env _ t (t.agrees_metered ranOut) hh within env ranOut t
  | orRecover _ _ ih => exact ih.orRecover
  | recovering _ ih => exact ih.recovering
  | unexpected e => exact fun _ within env ranOut t ht => Meters.recover _ ht
  | noneFits a best => exact fun _ within env ranOut t ht => ⟨rfl, ranOut, rfl, .stay rfl ht⟩
  | tryNext hviable _ _ _ ihx ihrest => exact .tryNext hviable ihx ihrest

end Production

end VisualBasic
