import VisualBasic.Proofs.PhraseLaws

/-!
# Phrases side by side

Two runs of a phrase over tokens that agree. What the one run does the other does too: where all
tokens agree, whatever the run comes to; where only those in front of some token do, if the run
succeeds in front of it.

Main results:

* `Follows.bind` — what is done one behind the other follows if its parts do.
* `Phrase.follows` — two runs of a phrase over tokens that agree make the same.
-/

namespace VisualBasic

open Production State

section

variable {δ : Nat} {m : Sight} {env env' : Env} {s s' : State}

/-- Moving over the token ahead. -/
theorem State.Alike.advance (hs : s.Alike δ m env.tokens env'.tokens s') (henv : env.Alike δ m env')
    (hi : m.Reaches s.cursor) : State.Alike δ m env.tokens env'.tokens
      { s with cursor := env.next s.cursor } { s' with cursor := env'.next s'.cursor } := by
  refine ⟨?_, Nat.min_le_right _ _, hs.children, hs.isPartial, hs.openers, hs.singleLineIfs,
    hs.diagnostics⟩
  change env'.next s'.cursor = env.next s.cursor + δ
  rw [hs.cursor, henv.next hi]

theorem State.Alike.attach (hs : s.Alike δ m env.tokens env'.tokens s') {n n' : Node}
    (hn : n.Alike δ n') : State.Alike δ m env.tokens env'.tokens
      { s with children := n :: s.children } { s' with children := n' :: s'.children } := by
  refine ⟨hs.cursor, hs.le_size, ?_, hs.isPartial, hs.openers, hs.singleLineIfs, hs.diagnostics⟩
  rw [List.map_cons, List.map_cons, hs.children, hn]

/-- What is gathered for another node. -/
theorem State.Alike.apart (hs : s.Alike δ m env.tokens env'.tokens s') :
    State.Alike δ m env.tokens env'.tokens { s with children := [], isPartial := false }
      { s' with children := [], isPartial := false } :=
  ⟨hs.cursor, hs.le_size, rfl, rfl, hs.openers, hs.singleLineIfs, hs.diagnostics⟩

/-- Back at the node around. -/
theorem State.Alike.rejoin {s₁ s₁' : State} (hs : s.Alike δ m env.tokens env'.tokens s')
    (hs₁ : s₁.Alike δ m env.tokens env'.tokens s₁') : State.Alike δ m env.tokens env'.tokens
      { s₁ with children := s.children, isPartial := s.isPartial }
      { s₁' with children := s'.children, isPartial := s'.isPartial } :=
  ⟨hs₁.cursor, hs₁.le_size, hs.children, hs.isPartial, hs₁.openers, hs₁.singleLineIfs,
    hs₁.diagnostics⟩

/-- From a place on, two runs have as many rounds as each other, or both have more than it takes to
get behind what agrees. -/
def Sight.GivesRounds (i n n' : Nat) : Sight → Prop
  | whole _ => n' = n
  | upTo bound _ => bound < i + n ∧ bound < i + n'

namespace Sight.GivesRounds

variable {i j n n' : Nat}

theorem zero_iff (h : m.GivesRounds i n n') (hi : m.Reaches i) : n = 0 ↔ n' = 0 := by
  cases m with
  | whole full =>
    obtain rfl : n' = n := h
    rfl
  | upTo bound stop =>
    have hle : i ≤ bound := hi
    have hmore : bound < i + n ∧ bound < i + n' := h
    omega

/-- A round that goes forward is one less of those that are left. -/
theorem next (h : m.GivesRounds i (n + 1) (n' + 1))
    (hij : ∀ bound stop, m = .upTo bound stop → i < j) : m.GivesRounds j n n' := by
  cases m with
  | whole full => exact Nat.succ.inj h
  | upTo bound stop =>
    have hmore : bound < i + (n + 1) ∧ bound < i + (n' + 1) := h
    have hlt := hij bound stop rfl
    show bound < j + n ∧ bound < j + n'
    omega

/-- There are as many rounds as tokens are left. -/
theorem of_alike (henv : env.Alike δ m env') (hs : s.Alike δ m env.tokens env'.tokens s') :
    m.GivesRounds s.cursor (env.tokens.size - s.cursor) (env'.tokens.size - s'.cursor) := by
  have hcursor := hs.cursor
  have hle := hs.le_size
  unfold TokenStream.size
  cases m with
  | whole full =>
    have hsize := henv.size full rfl
    show _ = _
    omega
  | upTo bound stop =>
    obtain ⟨hbound, hsize, hsize', -⟩ := henv.part bound stop rfl
    show _ ∧ _
    omega

end Sight.GivesRounds

/-- What goes on reads a token, if not all tokens agree: there is one as far as they do. -/
theorem Env.Alike.lt_of_progresses {α : Type} {p : Parse α} {good : α → Prop} {a : α}
    {s₁ : State} (henv : env.Alike δ m env') (hreach : m.Reaches s.cursor) (hp : Progresses good p)
    (hrun : p env s = .ok a s₁) (ha : good a) {bound stop : Nat} (hm : m = .upTo bound stop) :
    s.cursor < s₁.cursor := by
  subst hm
  exact hp env s a s₁ (.of_kindAt_ne (henv.lasting bound stop rfl _ (henv.sees hreach))) hrun ha

end

namespace Production

variable {δ : Nat} {m : Sight} {env env' : Env} {s s' : State} {α α' β β' : Type}
  {r : α → β → Prop} {r' : α' → β' → Prop}

namespace Follows

theorem pure {a : α} {b : β} (h : r a b) (hs : s.Alike δ m env.tokens env'.tokens s') :
    Follows δ m r env.tokens env'.tokens s ((Pure.pure a : Parse α) env s)
      ((Pure.pure b : Parse β) env' s') :=
  fun _ => ⟨b, s', rfl, h, hs⟩

theorem fail (e : Expected) (hs : s.Alike δ m env.tokens env'.tokens s') :
    Follows δ m r env.tokens env'.tokens s ((Production.fail e : Parse α) env s)
      ((Production.fail e : Parse β) env' s') :=
  fun _ _ => ⟨_, s', rfl, hs⟩

/-- What is done one behind the other. -/
theorem bind {p : Parse α} {p' : Parse β} {k : α → Parse α'} {k' : β → Parse β'}
    (hs : s.cursor ≤ env.tokens.tokens.size) (hp : Climbs p) (hk : ∀ a, Climbs (k a))
    (hfirst : Follows δ m r env.tokens env'.tokens s (p env s) (p' env' s'))
    (hrest : ∀ a b s₁ s₁', r a b → p env s = .ok a s₁ → m.Reaches s₁.cursor →
      State.Alike δ m env.tokens env'.tokens s₁ s₁' →
      Follows δ m r' env.tokens env'.tokens s₁ (k a env s₁) (k' b env' s₁')) :
    Follows δ m r' env.tokens env'.tokens s ((p >>= k) env s) ((p' >>= k') env' s') := by
  rw [run_bind, run_bind]
  cases hrun : p env s with
  | error f s₁ =>
    rw [hrun] at hfirst
    intro full hm
    obtain ⟨f', s₁', hrun', hs₁⟩ := hfirst full hm
    exact ⟨f', s₁', by rw [hrun'], hs₁⟩
  | ok a s₁ =>
    rw [hrun] at hfirst
    have hlater := hp.ok hs hrun
    change Follows δ m r' env.tokens env'.tokens s (k a env s₁) _
    cases hrun₁ : k a env s₁ with
    | error f s₂ =>
      intro full hm
      subst hm
      obtain ⟨b, s₁', hrun', hab, hs₁⟩ := hfirst ⟨trivial, trivial⟩
      -- A failure is compared only where all tokens agree, so the first part may be compared, too.
      have hfollows := hrest a b s₁ s₁' hab hrun trivial hs₁
      rw [hrun₁] at hfollows
      obtain ⟨f', s₂', hrun₁', hs₂⟩ := hfollows full rfl
      exact ⟨f', s₂', by rw [hrun']; exact hrun₁', hs₂⟩
    | ok a' s₂ =>
      intro hadmits
      -- What is behind goes forward only, so the first part succeeds in front of the bound as the
      -- whole.
      have hfront := hadmits.front ((hk a).ok hlater.le_size hrun₁)
      obtain ⟨b, s₁', hrun', hab, hs₁⟩ := hfirst hfront
      have hfollows := hrest a b s₁ s₁' hab hrun hfront.1 hs₁
      rw [hrun₁] at hfollows
      obtain ⟨b', s₂', hrun₁', hab', hs₂⟩ := hfollows (hadmits.back hlater)
      exact ⟨b', s₂', by rw [hrun']; exact hrun₁', hab', hs₂⟩

theorem leaf (kind : NodeKind) (henv : env.Alike δ m env')
    (hs : s.Alike δ m env.tokens env'.tokens s') (hreach : m.Reaches s.cursor) :
    Follows δ m (Node.Alike δ) env.tokens env'.tokens s (Production.leaf kind env s)
      (Production.leaf kind env' s') := by
  rw [Parse.leaf_eq, Parse.leaf_eq]
  refine fun _ => ⟨_, _, rfl, ?_, hs.advance henv hreach⟩
  rw [Node.Alike, Node.bare_leaf, Node.bare_leaf, hs.cursor]
  rfl

theorem tokenLeaf (henv : env.Alike δ m env') (hs : s.Alike δ m env.tokens env'.tokens s')
    (hreach : m.Reaches s.cursor) :
    Follows δ m (Node.Alike δ) env.tokens env'.tokens s (Production.tokenLeaf env s)
      (Production.tokenLeaf env' s') := by
  have hrun' : Production.tokenLeaf env' s' = Production.leaf (.token (env.kind s)) env' s' := by
    rw [← hs.kind henv hreach]
    rfl
  rw [hrun']
  exact leaf (.token (env.kind s)) henv hs hreach

theorem attach {n n' : Node} (hn : n.Alike δ n') (hs : s.Alike δ m env.tokens env'.tokens s') :
    Follows δ m Eq env.tokens env'.tokens s (Production.attach n env s)
      (Production.attach n' env' s') :=
  fun _ => ⟨(), _, rfl, rfl, hs.attach hn⟩

theorem skip (henv : env.Alike δ m env') (hs : s.Alike δ m env.tokens env'.tokens s')
    (hreach : m.Reaches s.cursor) :
    Follows δ m Eq env.tokens env'.tokens s (Production.skip env s) (Production.skip env' s') :=
  fun _ => ⟨(), _, rfl, rfl, hs.advance henv hreach⟩

theorem take (henv : env.Alike δ m env') (hs : s.Alike δ m env.tokens env'.tokens s')
    (hreach : m.Reaches s.cursor) :
    Follows δ m Eq env.tokens env'.tokens s (Production.take env s) (Production.take env' s') :=
  bind hs.le_size Climbs.tokenLeaf Climbs.attach (tokenLeaf henv hs hreach)
    fun _ _ _ _ hab _ _ hs₁ => attach hab hs₁

/-- A token that has to be there. -/
theorem ifTake (kind : TokenKind) (e : Expected) (henv : env.Alike δ m env')
    (hs : s.Alike δ m env.tokens env'.tokens s') (hreach : m.Reaches s.cursor) :
    Follows δ m Eq env.tokens env'.tokens s
      ((atKind kind >>= fun x => if x = true then Production.take else Production.fail e) env s)
      ((atKind kind >>= fun x => if x = true then Production.take else Production.fail e)
        env' s') := by
  unfold atKind
  rw [(Looks.test _).run_bind, (Looks.test _).run_bind, hs.kind henv hreach]
  split
  · exact take henv hs hreach
  · exact fail e hs

theorem checkDepth (henv : env.Alike δ m env') (hs : s.Alike δ m env.tokens env'.tokens s') :
    Follows δ m Eq env.tokens env'.tokens s (Production.checkDepth env s)
      (Production.checkDepth env' s') := by
  unfold Production.checkDepth
  rw [henv.limit, henv.depth]
  split
  · exact fun _ _ => ⟨_, s', rfl, hs⟩
  · exact fun _ => ⟨(), s', rfl, rfl, hs⟩

/-- A node whose first token is as far behind as the others. -/
theorem construct {rule : Rule} {first first' : Nat} {body body' : Parse Unit}
    (hfirst : first' = first + δ) (hs : s.Alike δ m env.tokens env'.tokens s')
    (hbody : Follows δ m Eq env.tokens env'.tokens { s with children := [], isPartial := false }
      (body env { s with children := [], isPartial := false })
      (body' env' { s' with children := [], isPartial := false })) :
    Follows δ m (Node.Alike δ) env.tokens env'.tokens s (Production.construct rule first body env s)
      (Production.construct rule first' body' env' s') := by
  rw [Parse.construct_eq, Parse.construct_eq]
  cases hrun : body env { s with children := [], isPartial := false } with
  | error f s₁ =>
    rw [hrun] at hbody
    intro full hm
    obtain ⟨f', s₁', hrun', hs₁⟩ := hbody full hm
    rw [hrun']
    exact ⟨f', _, rfl, hs.rejoin hs₁⟩
  | ok _ s₁ =>
    rw [hrun] at hbody
    intro hadmits
    have hadmits₁ : m.Admits { s with children := [], isPartial := false } s₁ := hadmits
    obtain ⟨_, s₁', hrun', -, hs₁⟩ := hbody hadmits₁
    rw [hrun']
    refine ⟨_, _, rfl, ?_, hs.rejoin hs₁⟩
    rw [Node.Alike, Node.bare_finish, Node.bare_finish, hfirst, hs₁.isPartial, List.map_reverse,
      List.map_reverse, hs₁.children]
    rfl

section

variable {step : α → Parse (Option α)} {step' : β → Parse (Option β)} (good : State → Prop)
  (hclimbs : ∀ x, Climbs (step x)) (hmoves : ∀ x, Progresses (fun y => y.isSome = true) (step x))
  (hgood : ∀ x y s s₁, good s → step x env s = .ok y s₁ → good s₁)
  (hstep : ∀ x y s s', r x y → good s → m.Reaches s.cursor →
    State.Alike δ m env.tokens env'.tokens s s' →
    Follows δ m (OptionAlike r) env.tokens env'.tokens s (step x env s) (step' y env' s'))
  (henv : env.Alike δ m env')

include hclimbs hmoves hgood hstep henv

/-- Rounds at places that are `good`. The induction is on the rounds that are left. -/
theorem iterateUpTo {n n' : Nat} {x : α} {y : β} (hrounds : m.GivesRounds s.cursor n n')
    (hxy : r x y)
    (hs : s.Alike δ m env.tokens env'.tokens s') (hgs : good s) (hreach : m.Reaches s.cursor) :
    Follows δ m r env.tokens env'.tokens s (Production.iterateUpTo step n x env s)
      (Production.iterateUpTo step' n' y env' s') := by
  induction n generalizing n' x y s s' with
  | zero =>
    obtain rfl := (hrounds.zero_iff hreach).1 rfl
    exact pure hxy hs
  | succ n ih =>
    obtain ⟨n', rfl⟩ := Nat.exists_eq_succ_of_ne_zero
      (mt (hrounds.zero_iff hreach).2 (Nat.succ_ne_zero n))
    rw [iterateUpTo_succ, iterateUpTo_succ]
    refine bind hs.le_size (hclimbs x) (fun z => ?_) (hstep x y s s' hxy hgs hreach hs)
      fun z z' s₁ s₁' hz hrun hreach₁ hs₁ => ?_
    · cases z with
      | none => exact Climbs.pure x
      | some z => exact Climbs.iterateUpTo hclimbs n z
    · match z, z', hz with
      | none, none, _ => exact pure hxy hs₁
      | some z, some z', hz =>
        -- Where the numbers of rounds differ, a round goes forward, so both stay out of reach.
        have hrounds₁ : m.GivesRounds s₁.cursor n n' :=
          hrounds.next fun _ _ hm => henv.lt_of_progresses hreach (hmoves x) hrun rfl hm
        exact ih hrounds₁ hz hs₁ (hgood x _ s s₁ hgs hrun) hreach₁

theorem iterate {x : α} {y : β} (hxy : r x y) (hs : s.Alike δ m env.tokens env'.tokens s')
    (hgs : good s) (hreach : m.Reaches s.cursor) :
    Follows δ m r env.tokens env'.tokens s (Production.iterate step x env s)
      (Production.iterate step' y env' s') :=
  iterateUpTo good hclimbs hmoves hgood hstep henv (.of_alike henv hs) hxy hs hgs hreach

end

end Follows

/-- Two runs of a phrase over tokens that agree make the same. -/
theorem Phrase.follows {strict closing lands : Bool} {spot : Spot} {p : Parse α}
    {p' : Parse β} (h : Phrase δ strict spot closing lands r p p') (henv : env.Alike δ m env')
    (hs : s.Alike δ m env.tokens env'.tokens s') (hreach : m.Reaches s.cursor)
    (hspot : spot.Holds env s) :
    Follows δ m r env.tokens env'.tokens s (p env s) (p' env' s') := by
  -- The induction is on how the phrase is put together; each law is one of `Follows`.
  induction h generalizing env env' s s' with
  | pure hab => exact .pure hab hs
  | fail e => exact .fail e hs
  | tooDeep => exact fun _ _ => ⟨_, s', rfl, hs⟩
  | checkDepth => exact .checkDepth henv hs
  | bind hp hk ihp ihk =>
    refine .bind hs.le_size hp.climbs
      (fun a => (Partnered.exists_partner a).elim fun a' ha => (hk a a' ha).climbs)
      (ihp henv hs hreach hspot) fun a a' s₁ s₁' ha hrun hreach₁ hs₁ => ?_
    exact ihk a a' ha henv hs₁ hreach₁ (Spot.holds_plain fun hi => hp.inside hspot hrun hi)
  | look hp hseen next hnext _ ih =>
    rw [hp.run_bind, hp.run_bind, hseen m env env' s s' henv hs hreach hspot]
    exact ih _ henv hs hreach (hnext env s hspot)
  | leaf kind => exact .leaf kind henv hs hreach
  | tokenLeaf => exact .tokenLeaf henv hs hreach
  | bindOne hp hone hc hinside hk ihp ihk =>
    refine .bind hs.le_size hp.climbs
      (fun a => (Partnered.exists_partner a).elim fun a' ha => (hk a a' ha).climbs)
      (ihp henv hs hreach hspot) fun a a' s₁ s₁' ha hrun hreach₁ hs₁ => ?_
    exact ihk a a' ha henv hs₁ hreach₁ (hspot.behind hc hinside (hone env s a s₁ hrun))
  | skip => exact .skip henv hs hreach
  | openParen hk ih =>
    refine .bind hs.le_size (Climbs.ifTake _) (fun _ => hk.climbs) (.ifTake _ _ henv hs hreach)
      fun _ _ s₁ s₁' _ hrun hreach₁ hs₁ => ?_
    have hinside := inside_of_ifTake hrun ⟨rfl, rfl⟩ rfl
    exact ih henv hs₁ hreach₁ (Spot.holds_plain fun _ => hinside)
  | closeParen e => exact .ifTake _ e henv hs hreach
  | attachThen hn _ ih => exact ih henv (hs.attach hn) hreach (hspot.same rfl rfl)
  | node _ _ ih => exact .construct hs.cursor hs (ih henv hs.apart hreach (hspot.same rfl rfl))
  | nodeFrom hn _ _ ih =>
    exact .construct hn.firstToken hs (ih henv hs.apart hreach (hspot.same rfl rfl))
  | @iterate spot _ _ _ _ _ _ _ _ hstep hmoves hxy ih =>
    -- What a round may rely on is that the place is inside a statement, if the phrase is.
    exact .iterate (fun s => spot.inside = true → env.tokens.Inside s.cursor)
      (fun x => (Partnered.exists_partner x).elim fun y hy => (hstep x y hy).climbs) hmoves
      (fun x y s s₁ hgood hrun hi => (Partnered.exists_partner x).elim fun x' hx =>
        (hstep x x' hx).inside (Spot.holds_plain hgood) hrun hi)
      (fun x y s s' hxy hgood hreach hs => ih x y hxy henv hs hreach (Spot.holds_plain hgood))
      henv hxy hs hspot.inside hreach
  | nested _ ih => exact ih henv.nested hs hreach (hspot.same rfl rfl)
  | @byRoom _ _ _ _ _ r p p' _ ih =>
    change Follows δ m r env.tokens env'.tokens s (p env.room env s) (p' env'.room env' s')
    rw [henv.room]
    exact ih env.room henv hs hreach hspot
  | mono _ hspot' _ ih => exact ih henv hs hreach (hspot' env s hspot)

end Production

end VisualBasic
