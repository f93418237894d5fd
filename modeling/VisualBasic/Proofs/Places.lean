import VisualBasic.Proofs.PhraseLaws
import VisualBasic.Proofs.Widening

/-!
# From place to place

What a production does to the place among the tokens, without regard to what it builds. Two states
are at one place if they agree in what a production can look at. A run goes from the place of one
state to that of another (`Goes`); a production leads from one place to another if all of its runs
do (`Leads`). What makes the same where there is more room leads to wherever one of its runs goes.

Main results:

* `Goes.bind`, `Leads.bind` — runs are chained.
* `Widens.leads` — a run with little room shows where a production leads with more of it.
* `Leads.beside` — a production that leads somewhere goes nowhere else.
-/

namespace VisualBasic

namespace State.Beside

variable {s t u : State}

/-- Which of the two states comes first does not matter. -/
theorem symm (h : Beside s t) : Beside t s := ⟨h.cursor.symm, h.blocks.symm, h.singleLineIfs.symm⟩

theorem trans (h : Beside s t) (h' : Beside t u) : Beside s u :=
  ⟨h'.cursor.trans h.cursor, h'.blocks.trans h.blocks, h'.singleLineIfs.trans h.singleLineIfs⟩

end State.Beside

namespace Production

open State

variable {α β : Type} {env env' : Env} {s s₁ s₂ s' t : State} {a b' : α} {b : β} {p p' : Parse α}
  {k : α → Parse β}

/-- A run goes from the place of `s` to that of `s'` and gives `a`. -/
def Goes (env : Env) (p : Parse α) (s : State) (a : α) (s' : State) : Prop :=
  ∃ t t', Beside s t ∧ p env t = .ok a t' ∧ Beside t' s'

/-- All runs from the place of `s` go to that of `s'`. -/
def Leads (env : Env) (p : Parse α) (s s' : State) : Prop :=
  ∀ t, Beside s t → ∃ a t', p env t = .ok a t' ∧ Beside s' t'

/-- All runs from the place of `s` go to that of `s'` and give `a`. -/
def LeadsTo (env : Env) (p : Parse α) (s : State) (a : α) (s' : State) : Prop :=
  ∀ t, Beside s t → ∃ t', p env t = .ok a t' ∧ Beside s' t'

/-- What is given may be forgotten. -/
theorem LeadsTo.leads (h : LeadsTo env p s a s') : Leads env p s s' :=
  fun t ht => ⟨a, h t ht⟩

/-- A production that leads to one place goes to no other. -/
theorem Leads.beside (h : Leads env p s s') (h' : Goes env p s a s₁) : Beside s' s₁ := by
  obtain ⟨t, t₁, ht, hrun, ht₁⟩ := h'
  obtain ⟨a', t', hrun', ht'⟩ := h t ht
  obtain ⟨rfl, rfl⟩ : a' = a ∧ t' = t₁ := by
    rw [hrun] at hrun'
    cases hrun'
    exact ⟨rfl, rfl⟩
  exact ht'.trans ht₁

/-- Where all runs go, one does. -/
theorem Leads.goes (h : Leads env p s s') : ∃ a, Goes env p s a s' := by
  obtain ⟨a, t, hrun, ht⟩ := h s (.refl s)
  exact ⟨a, s, t, .refl s, hrun, ht.symm⟩

theorem Goes.of_run (h : p env s = .ok a s') : Goes env p s a s' := ⟨s, s', .refl s, h, .refl s'⟩

/-- A run may be said to begin in any state at its place. -/
theorem Goes.from (h : Goes env p s a s') (ht : Beside t s) : Goes env p t a s' := by
  obtain ⟨u, u', hu, hrun, hu'⟩ := h
  exact ⟨u, u', ht.trans hu, hrun, hu'⟩

/-- It may be said to end in any state at the place where it ends. -/
theorem Goes.to (h : Goes env p s a s') (ht : Beside s' s₁) : Goes env p s a s₁ := by
  obtain ⟨u, u', hu, hrun, hu'⟩ := h
  exact ⟨u, u', hu, hrun, hu'.trans ht⟩

/-- The same of all runs from a place. -/
theorem Leads.from (h : Leads env p s s') (ht : Beside s t) : Leads env p t s' :=
  fun u hu => h u (ht.trans hu)

/-- They may be said to end in any state at the place where they end. -/
theorem Leads.to (h : Leads env p s s') (ht : Beside s' s₁) : Leads env p s s₁ := by
  intro t hst
  obtain ⟨a, t', hrun, ht'⟩ := h t hst
  exact ⟨a, t', hrun, ht.symm.trans ht'⟩

/-- A run with little room shows where a production leads with more of it. -/
theorem Widens.leadsTo {n : Nat} (h : Widens n p p') (hp : Hushed p) (henv : env.Roomier n env')
    (hgoes : Goes env p s a s') : LeadsTo env' p' s a s' := by
  obtain ⟨t, t', ht, hrun, ht'⟩ := hgoes
  intro u hu
  have hquiet : t'.diagnostics.length ≤ t.diagnostics.length := by
    have honward := hp env t
    rw [hrun] at honward
    exact Nat.le_of_eq (congrArg List.length honward.diagnostics)
  obtain ⟨u', hrun', hu'⟩ := h.run henv hrun hquiet (ht.symm.trans hu)
  exact ⟨u', hrun', ht'.symm.trans hu'⟩

/-- The same without what is given. -/
theorem Widens.leads {n : Nat} (h : Widens n p p') (hp : Hushed p) (henv : env.Roomier n env')
    (hgoes : Goes env p s a s') : Leads env' p' s s' :=
  (h.leadsTo hp henv hgoes).leads

-- ---------------------------------------------------------------------------
-- Where runs come from
-- ---------------------------------------------------------------------------

namespace Goes

/-- A run through two parts passes a place between them. -/
theorem bind (h : Goes env (p >>= k) s b s') : ∃ a s₁, Goes env p s a s₁ ∧
    Goes env (k a) s₁ b s' := by
  obtain ⟨t, t', ht, hrun, ht'⟩ := h
  obtain ⟨a, t₁, hfirst, hsecond⟩ := bind_eq_ok hrun
  exact ⟨a, t₁, ⟨t, t₁, ht, hfirst, .refl _⟩, ⟨t₁, t', .refl _, hsecond, ht'⟩⟩

/-- What is seen depends on the place alone, so it is seen in the run. -/
theorem look {look : Parse α} {seen : Env → State → α} (hlook : Looks look seen)
    (hseen : Sees seen) (h : Goes env (look >>= k) s b s') : Goes env (k (seen env s)) s b s' := by
  obtain ⟨t, t', ht, hrun, ht'⟩ := h
  rw [hlook.run_bind, hseen env env s t rfl ht] at hrun
  exact ⟨t, t', ht, hrun, ht'⟩

theorem peek {k : TokenKind → Parse β} (h : Goes env (Production.peek >>= k) s b s') :
    Goes env (k (env.kind s)) s b s' :=
  look Looks.peek Widens.sees_kind h

theorem peekAhead {i : Nat} {k : TokenKind → Parse β}
    (h : Goes env (Production.peekAhead i >>= k) s b s') :
    Goes env (k (env.kindAhead s i)) s b s' :=
  look (Looks.peekAhead i) (Widens.sees_kindAhead i) h

theorem test {see : Env → State → Bool} {k : Bool → Parse β} (hsee : Sees see)
    (h : Goes env (Production.test see >>= k) s b s') : Goes env (k (see env s)) s b s' :=
  look (Looks.test see) hsee h

theorem atKind {kind : TokenKind} {k : Bool → Parse β}
    (h : Goes env (Production.atKind kind >>= k) s b s') :
    Goes env (k (env.kind s == kind)) s b s' :=
  test (Widens.sees_isKind kind) h

/-- What only gives something stays where it is. -/
theorem pure (h : Goes env (Pure.pure a : Parse α) s b' s') : b' = a ∧ Beside s s' := by
  obtain ⟨t, t', ht, hrun, ht'⟩ := h
  cases hrun
  exact ⟨rfl, ht.trans ht'⟩

/-- No run goes through a failure. -/
theorem fail {e : Expected} (h : Goes env (Production.fail e : Parse α) s b' s') : False := by
  obtain ⟨t, t', -, hrun, -⟩ := h
  cases hrun

/-- The levels of nesting are those of the place where the part is used. -/
theorem nested (h : Goes env p.nested s a s') :
    Goes { env with depth := env.depth + 1 } p s a s' := h

/-- A run that has passed the limit has a level left. -/
theorem checkDepth {a : Unit} (h : Goes env Production.checkDepth s a s') :
    env.depth < env.limit ∧ Beside s s' := by
  obtain ⟨t, t', ht, hrun, ht'⟩ := h
  unfold Production.checkDepth at hrun
  split at hrun
  · cases hrun
  · cases hrun
    exact ⟨Nat.lt_of_not_le ‹_›, ht.trans ht'⟩

/-- The place behind the token at which one is. -/
theorem take {a : Unit} (h : Goes env Production.take s a s') :
    Beside { s with cursor := env.next s.cursor } s' := by
  obtain ⟨t, t', ht, hrun, ht'⟩ := h
  cases hrun
  exact ⟨ht'.cursor.trans (congrArg env.next ht.cursor), ht'.blocks.trans ht.blocks,
    ht'.singleLineIfs.trans ht.singleLineIfs⟩

/-- A token has been read, whichever it is. -/
theorem tokenLeaf {x : Node} (h : Goes env Production.tokenLeaf s x s') :
    Beside { s with cursor := env.next s.cursor } s' := by
  obtain ⟨t, t', ht, hrun, ht'⟩ := h
  cases hrun
  exact ⟨ht'.cursor.trans (congrArg env.next ht.cursor), ht'.blocks.trans ht.blocks,
    ht'.singleLineIfs.trans ht.singleLineIfs⟩

/-- A token of a kind that has to be there. -/
theorem ifTake {kind : TokenKind} {e : Expected} {a : Unit}
    (h : Goes env (Production.atKind kind >>=
      fun x => if x = true then Production.take else Production.fail e) s a s') :
    env.kind s = kind ∧ Beside { s with cursor := env.next s.cursor } s' := by
  have htest := h.atKind
  split at htest
  · exact ⟨beq_iff_eq.1 ‹_›, take htest⟩
  · exact htest.fail.elim

/-- The token was of the kind, and it has been read. -/
theorem expect {kind : TokenKind} {a : Unit} (h : Goes env (Production.expect kind) s a s') :
    env.kind s = kind ∧ Beside { s with cursor := env.next s.cursor } s' :=
  ifTake h

theorem expectEnd {mark : Mark} {a : Unit} (h : Goes env (Production.expectEnd mark) s a s') :
    env.kind s = .mark mark ∧ Beside { s with cursor := env.next s.cursor } s' :=
  ifTake h

/-- The place does not tell what has been attached. -/
theorem attach {x : Node} {a : Unit} (h : Goes env (Production.attach x) s a s') : Beside s s' := by
  obtain ⟨t, t', ht, hrun, ht'⟩ := h
  cases hrun
  exact ⟨ht'.cursor.trans ht.cursor, ht'.blocks.trans ht.blocks,
    ht'.singleLineIfs.trans ht.singleLineIfs⟩

/-- What has a role was built in a run of its own. -/
theorem field {f : Field} {q : Parse Node} {a : Unit}
    (h : Goes env (Production.field f q) s a s') : ∃ x, Goes env q s x s' := by
  obtain ⟨x, s₁, hq, hattach⟩ := h.bind
  exact ⟨x, hq.to hattach.attach⟩

theorem child {q : Parse Node} {a : Unit} (h : Goes env q.child s a s') :
    ∃ x, Goes env q s x s' := by
  obtain ⟨x, s₁, hq, hattach⟩ := h.bind
  exact ⟨x, hq.to hattach.attach⟩

/-- A node is put around a run of its body. -/
theorem construct {r : Rule} {first : Nat} {body : Parse Unit} {x : Node}
    (h : Goes env (Production.construct r first body) s x s') : Goes env body s () s' := by
  obtain ⟨t, t', ht, hrun, ht'⟩ := h
  rw [Parse.construct_eq] at hrun
  split at hrun
  · rename_i hbody
    cases hrun
    exact ⟨{ t with children := [], isPartial := false }, _,
      ⟨ht.cursor, ht.blocks, ht.singleLineIfs⟩, hbody, ⟨ht'.cursor, ht'.blocks, ht'.singleLineIfs⟩⟩
  · cases hrun

theorem node {r : Rule} {body : Parse Unit} {x : Node}
    (h : Goes env (Production.node r body) s x s') : Goes env body s () s' := by
  obtain ⟨t, t', ht, hrun, ht'⟩ := h
  exact construct ⟨t, t', ht, hrun, ht'⟩

theorem nodeFrom {first : Node} {r : Rule} {body : Parse Unit} {x : Node}
    (h : Goes env (Production.nodeFrom first r body) s x s') : Goes env body s () s' :=
  construct h

/-- A wrapper is put around a node without moving on. -/
theorem wrap {r : Rule} {x y : Node} (h : Goes env (Production.wrap r x) s y s') : Beside s s' :=
  h.nodeFrom.attach

theorem some {y : Option α} (h : Goes env (Option.some <$> p) s y s') :
    ∃ a, y = Option.some a ∧ Goes env p s a s' := by
  rw [map_eq_pure_bind] at h
  obtain ⟨a, s₁, hp, hpure⟩ := h.bind
  obtain ⟨rfl, hs₁⟩ := hpure.pure
  exact ⟨a, rfl, hp.to hs₁⟩

/-- The rounds of a repetition, of which there may be one for each token that is left. -/
theorem iterate {step : α → Parse (Option α)} {x : α}
    (h : Goes env (Production.iterate step x) s a s') :
    Goes env (iterateUpTo step (env.tokens.size - s.cursor) x) s a s' := by
  obtain ⟨t, t', ht, hrun, ht'⟩ := h
  rw [Production.iterate, ht.cursor] at hrun
  exact ⟨t, t', ht, hrun, ht'⟩

/-- A repetition may stop at once, or go on behind its first round. -/
theorem round {step : α → Parse (Option α)} {count : Nat} {x : α}
    (h : Goes env (iterateUpTo step (count + 1) x) s a s') :
    (Goes env (step x) s none s' ∧ a = x) ∨
      ∃ y s₁, Goes env (step x) s (Option.some y) s₁ ∧
      Goes env (iterateUpTo step count y) s₁ a s' := by
  rw [iterateUpTo_succ] at h
  obtain ⟨y, s₁, hstep, hrest⟩ := h.bind
  cases y with
  | none =>
    obtain ⟨rfl, hs₁⟩ := hrest.pure
    exact .inl ⟨hstep.to hs₁, rfl⟩
  | some y => exact .inr ⟨y, s₁, hstep, hrest⟩

end Goes

-- ---------------------------------------------------------------------------
-- Where productions lead
-- ---------------------------------------------------------------------------

namespace Leads

/-- If the first part leads to a place, it is enough that the second one leads on from there. -/
theorem bind (hp : Leads env p s s₁) (hk : ∀ a, Leads env (k a) s₁ s') :
    Leads env (p >>= k) s s' := by
  intro t ht
  obtain ⟨a, t₁, hrun, ht₁⟩ := hp t ht
  obtain ⟨b, t', hrun', ht'⟩ := hk a t₁ ht₁
  refine ⟨b, t', ?_, ht'⟩
  rw [run_bind, hrun]
  exact hrun'

theorem seq {q : Parse β} (hp : Leads env p s s₁) (hq : Leads env q s₁ s') :
    Leads env (p >>= fun _ => q) s s' :=
  bind hp fun _ => hq

/-- What is seen is the same from all states at the place. -/
theorem look {look : Parse α} {seen : Env → State → α} (hlook : Looks look seen)
    (hseen : Sees seen) (h : Leads env (k (seen env s)) s s') : Leads env (look >>= k) s s' := by
  intro t ht
  rw [hlook.run_bind, hseen env env s t rfl ht]
  exact h t ht

theorem peek {k : TokenKind → Parse β} (h : Leads env (k (env.kind s)) s s') :
    Leads env (Production.peek >>= k) s s' :=
  look Looks.peek Widens.sees_kind h

theorem test {see : Env → State → Bool} {k : Bool → Parse β} (hsee : Sees see)
    (h : Leads env (k (see env s)) s s') : Leads env (Production.test see >>= k) s s' :=
  look (Looks.test see) hsee h

theorem atKind {kind : TokenKind} {k : Bool → Parse β}
    (h : Leads env (k (env.kind s == kind)) s s') : Leads env (Production.atKind kind >>= k) s s' :=
  test (Widens.sees_isKind kind) h

theorem nested (h : Leads { env with depth := env.depth + 1 } p s s') : Leads env p.nested s s' := h

/-- With a level left the limit is passed. -/
theorem checkDepth (h : env.depth < env.limit) : Leads env Production.checkDepth s s := by
  intro t ht
  refine ⟨(), t, ?_, ht⟩
  rw [Production.checkDepth, if_neg (Nat.not_le_of_lt h)]

theorem pure (a : α) : Leads env (Pure.pure a : Parse α) s s := fun t ht => ⟨a, t, rfl, ht⟩

theorem attach (x : Node) : Leads env (Production.attach x) s s :=
  fun _ ht => ⟨(), _, rfl, ⟨ht.cursor, ht.blocks, ht.singleLineIfs⟩⟩

theorem take : Leads env Production.take s { s with cursor := env.next s.cursor } :=
  fun _ ht => ⟨(), _, rfl, ⟨congrArg env.next ht.cursor, ht.blocks, ht.singleLineIfs⟩⟩

theorem leaf (kind : NodeKind) :
    Leads env (Production.leaf kind) s { s with cursor := env.next s.cursor } :=
  fun _ ht => ⟨_, _, rfl, ⟨congrArg env.next ht.cursor, ht.blocks, ht.singleLineIfs⟩⟩

theorem tokenLeaf : Leads env Production.tokenLeaf s { s with cursor := env.next s.cursor } :=
  peek (leaf _)

theorem ifTake {kind : TokenKind} (e : Expected) (h : env.kind s = kind) :
    Leads env (Production.atKind kind >>= fun x => if x = true then Production.take else
      Production.fail e) s { s with cursor := env.next s.cursor } := by
  refine atKind ?_
  rw [if_pos (beq_iff_eq.2 h)]
  exact take

/-- A token that is there is read. -/
theorem expect {kind : TokenKind} (h : env.kind s = kind) :
    Leads env (Production.expect kind) s { s with cursor := env.next s.cursor } :=
  ifTake _ h

theorem expectEnd {mark : Mark} (h : env.kind s = .mark mark) :
    Leads env (Production.expectEnd mark) s { s with cursor := env.next s.cursor } :=
  ifTake _ h

theorem field {f : Field} {q : Parse Node} (h : Leads env q s s') :
    Leads env (Production.field f q) s s' :=
  bind h fun _ => attach _

/-- A body that leads to a place does so in a node. -/
theorem construct {r : Rule} {first : Nat} {body : Parse Unit} (h : Leads env body s s') :
    Leads env (Production.construct r first body) s s' := by
  intro t ht
  obtain ⟨a, t', hrun, ht'⟩ := h { t with children := [], isPartial := false }
    ⟨ht.cursor, ht.blocks, ht.singleLineIfs⟩
  rw [Parse.construct_eq]
  rw [hrun]
  exact ⟨_, _, rfl, ⟨ht'.cursor, ht'.blocks, ht'.singleLineIfs⟩⟩

theorem node {r : Rule} {body : Parse Unit} (h : Leads env body s s') :
    Leads env (Production.node r body) s s' :=
  fun t ht => construct h t ht

theorem nodeFrom {first : Node} {r : Rule} {body : Parse Unit} (h : Leads env body s s') :
    Leads env (Production.nodeFrom first r body) s s' :=
  construct h

theorem wrap (r : Rule) (x : Node) : Leads env (Production.wrap r x) s s := nodeFrom (attach x)

theorem iterate {step : α → Parse (Option α)} {x : α}
    (h : Leads env (iterateUpTo step (env.tokens.size - s.cursor) x) s s') :
    Leads env (Production.iterate step x) s s' := by
  intro t ht
  rw [Production.iterate, ht.cursor]
  exact h t ht

theorem some (h : Leads env p s s') : Leads env (Option.some <$> p) s s' := by
  rw [map_eq_pure_bind]
  exact bind h fun _ => pure _

/-- A repetition whose step gives nothing ends behind that. -/
theorem last {step : α → Parse (Option α)} {x : α} (h : LeadsTo env (step x) s none s')
    (count : Nat) : Leads env (iterateUpTo step (count + 1) x) s s' := by
  intro t ht
  obtain ⟨t', hrun, ht'⟩ := h t ht
  refine ⟨x, t', ?_, ht'⟩
  rw [iterateUpTo_succ, run_bind, hrun]
  rfl

/-- A repetition without a round. -/
theorem stop {step : α → Parse (Option α)} {x : α} (h : LeadsTo env (step x) s none s)
    (count : Nat) : Leads env (iterateUpTo step count x) s s := by
  cases count with
  | zero => exact pure x
  | succ count => exact last h count

/-- A repetition goes on behind its first round. -/
theorem more {step : α → Parse (Option α)} {count : Nat} {x y : α}
    (h : LeadsTo env (step x) s (Option.some y) s₁)
    (hrest : Leads env (iterateUpTo step count y) s₁ s') :
    Leads env (iterateUpTo step (count + 1) x) s s' := by
  intro t ht
  obtain ⟨t₁, hrun, ht₁⟩ := h t ht
  obtain ⟨a, t', hrun', ht'⟩ := hrest t₁ ht₁
  refine ⟨a, t', ?_, ht'⟩
  rw [iterateUpTo_succ, run_bind, hrun]
  exact hrun'

/-- What is made at a place does not depend on what else the state has gathered. -/
theorem leadsTo {n : Nat} (h : Leads env p s s') (hwide : Wide n p) (hp : Hushed p)
    (henv : env.Roomier n env) : ∃ a, LeadsTo env p s a s' := by
  obtain ⟨a, hgoes⟩ := h.goes
  exact ⟨a, hwide.leadsTo hp henv hgoes⟩

/-- Where nothing is given, all runs give the same. -/
theorem unit {p : Parse Unit} (h : Leads env p s s') : LeadsTo env p s () s' :=
  fun t ht => by
    obtain ⟨_, hrun⟩ := h t ht
    exact hrun

end Leads

/-- A repetition whose step gives nothing stops where it is. -/
theorem Goes.stop {step : α → Parse (Option α)} {x : α} {count : Nat}
    (h : Goes env (iterateUpTo step count x) s a s') (hstep : LeadsTo env (step x) s none s) :
    Beside s s' :=
  (Leads.stop hstep count).beside h

namespace LeadsTo

/-- The second part goes on from what the first one gives. -/
theorem bind (hp : LeadsTo env p s a s₁) (hk : LeadsTo env (k a) s₁ b s') :
    LeadsTo env (p >>= k) s b s' := by
  intro t ht
  obtain ⟨t₁, hrun, ht₁⟩ := hp t ht
  obtain ⟨t', hrun', ht'⟩ := hk t₁ ht₁
  refine ⟨t', ?_, ht'⟩
  rw [run_bind, hrun]
  exact hrun'

theorem look {look : Parse α} {seen : Env → State → α} (hlook : Looks look seen)
    (hseen : Sees seen) (h : LeadsTo env (k (seen env s)) s b s') :
    LeadsTo env (look >>= k) s b s' := by
  intro t ht
  rw [hlook.run_bind, hseen env env s t rfl ht]
  exact h t ht

theorem peek {k : TokenKind → Parse β} (h : LeadsTo env (k (env.kind s)) s b s') :
    LeadsTo env (Production.peek >>= k) s b s' :=
  look Looks.peek Widens.sees_kind h

theorem test {see : Env → State → Bool} {k : Bool → Parse β} (hsee : Sees see)
    (h : LeadsTo env (k (see env s)) s b s') : LeadsTo env (Production.test see >>= k) s b s' :=
  look (Looks.test see) hsee h

theorem atKind {kind : TokenKind} {k : Bool → Parse β}
    (h : LeadsTo env (k (env.kind s == kind)) s b s') :
    LeadsTo env (Production.atKind kind >>= k) s b s' :=
  test (Widens.sees_isKind kind) h

theorem pure (a : α) : LeadsTo env (Pure.pure a : Parse α) s a s :=
  fun t ht => ⟨t, rfl, ht⟩

theorem take : LeadsTo env Production.take s () { s with cursor := env.next s.cursor } :=
  Leads.take.unit

theorem goes (h : LeadsTo env p s a s') : Goes env p s a s' := by
  obtain ⟨t, hrun, ht⟩ := h s (.refl s)
  exact ⟨s, t, .refl s, hrun, ht.symm⟩

/-- A run gives what the production leads to. -/
theorem unique (h : LeadsTo env p s a s') (h' : Goes env p s b' s₁) : a = b' ∧ Beside s' s₁ := by
  obtain ⟨t, t₁, ht, hrun, ht₁⟩ := h'
  obtain ⟨t', hrun', ht'⟩ := h t ht
  rw [hrun] at hrun'
  cases hrun'
  exact ⟨rfl, ht'.trans ht₁⟩

end LeadsTo

-- ---------------------------------------------------------------------------
-- What is attached
-- ---------------------------------------------------------------------------

/-- What is built aside is attached in front of all else. -/
theorem child_eq_ok {good : Node → Prop} {q : Parse Node} (hq : Aside good q)
    (hrun : child q env s = .ok () s') : ∃ x s₁, q env s = .ok x s₁ ∧ good x ∧ Beside s₁ s' ∧
      s'.children = x :: s.children := by
  obtain ⟨x, s₁, hfirst, hattach⟩ := bind_eq_ok hrun
  cases hattach
  exact ⟨x, s₁, hfirst, hq.good _ _ _ _ hfirst, ⟨rfl, rfl, rfl⟩,
    congrArg (x :: ·) (hq.ok hfirst).children⟩

theorem field_eq_ok {good : Node → Prop} {f : Field} {q : Parse Node} (hq : Aside good q)
    (hrun : field f q env s = .ok () s') : ∃ x s₁, q env s = .ok x s₁ ∧ good x ∧ Beside s₁ s' ∧
      s'.children = x.inField f :: s.children := by
  obtain ⟨x, s₁, hfirst, hattach⟩ := bind_eq_ok hrun
  cases hattach
  exact ⟨x, s₁, hfirst, hq.good _ _ _ _ hfirst, ⟨rfl, rfl, rfl⟩,
    congrArg (x.inField f :: ·) (hq.ok hfirst).children⟩

end Production

end VisualBasic
