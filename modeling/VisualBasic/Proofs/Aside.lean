import VisualBasic.Proofs.Production

/-!
# Productions that build aside

A production that gives a node gathers the children of that node apart: whether or not it succeeds,
it leaves the node under construction as it was. This holds wherever it runs, so it needs no more of
a production than its text.

Main results:

* `Aside.bind`, `Aside.iterate` — what is put together from such productions is one.
* `Aside.construct` — every node is built aside, with the rule that its production says.
-/

namespace VisualBasic

/-- The node under construction is the same in two states. -/
structure State.SameNode (s s' : State) : Prop where
  children : s'.children = s.children
  isPartial : s'.isPartial = s.isPartial

theorem State.SameNode.refl (s : State) : SameNode s s := ⟨rfl, rfl⟩

theorem State.SameNode.trans {s s₁ s' : State} (h : SameNode s s₁) (h' : SameNode s₁ s') :
    SameNode s s' :=
  ⟨h'.children.trans h.children, h'.isPartial.trans h.isPartial⟩

/-- A named node without a role, such as a production gives. -/
structure Node.IsPart (n : Node) : Prop where
  isNamed : n.isNamed = true
  field : n.field = none

/-- A node of a rule without a role. -/
structure Node.IsPartOf (r : Rule) (n : Node) : Prop where
  kind : n.kind = .rule r
  field : n.field = none

/-- What a production of a single rule gives is a part. -/
theorem Node.IsPartOf.isPart {r : Rule} {n : Node} (h : n.IsPartOf r) : n.IsPart := by
  refine ⟨?_, h.field⟩
  rw [isNamed, h.kind]
  rfl

namespace Production

open State

variable {α β : Type}

/-- The state in which a run ends, whether or not it succeeds. -/
def lastState {B : Type} : EStateM.Result Failure (State B) α → State B
  | .ok _ s | .error _ s => s

/-- The last state of two parts is that of the second one, unless the first one fails. -/
theorem lastState_bind (p : Parse α) (k : α → Parse β) (env : Env) (s : State) :
    lastState ((p >>= k) env s) = match p env s with
      | .ok a s' => lastState (k a env s')
      | .error _ s' => s' := by
  rw [run_bind]
  cases p env s <;> rfl

/-- The run succeeds, and what it comes to passes the test. -/
def succeedsWith (test : α → State → Bool) : EStateM.Result Failure State α → Bool
  | .ok a s => test a s
  | .error .. => false

/-- A run that passes a test succeeds. -/
theorem exists_of_succeedsWith {test : α → State → Bool} {result : EStateM.Result Failure State α}
    (h : succeedsWith test result = true) : ∃ a s, result = .ok a s ∧ test a s = true := by
  cases result with
  | ok a s => exact ⟨a, s, rfl, h⟩
  | error => cases h

/-- A repetition is its first step and the others behind it. -/
theorem iterateUpTo_succ (step : α → Parse (Option α)) (n : Nat) (x : α) :
    iterateUpTo step (n + 1) x = step x >>= fun y => match y with
      | none => pure x
      | some y => iterateUpTo step n y := by
  funext env s
  rw [iterateUpTo, run_bind]
  cases step x env s with
  | error f s₁ => rfl
  | ok y s₁ => cases y <;> rfl

-- ---------------------------------------------------------------------------
-- Building aside
-- ---------------------------------------------------------------------------

/-- The production leaves the node under construction as it was; if it succeeds, it gives something
`good`. -/
structure Aside (good : α → Prop) (p : Parse α) : Prop where
  sameNode : ∀ env s, SameNode s (lastState (p env s))
  good : ∀ env s a s', p env s = .ok a s' → good a

namespace Aside

variable {good : α → Prop} {good' : β → Prop}

/-- A run that succeeds leaves the node under construction as it was. -/
theorem ok {p : Parse α} (hp : Aside good p) {env : Env} {s s' : State} {a : α}
    (hrun : p env s = .ok a s') : SameNode s s' := by
  have h := hp.sameNode env s
  rwa [hrun] at h

theorem mono {good₁ : α → Prop} {p : Parse α} (hp : Aside good₁ p)
    (h : ∀ a, good₁ a → good a) : Aside good p :=
  ⟨hp.sameNode, fun env s a s' hrun => h a (hp.good env s a s' hrun)⟩

/-- What a run comes to, and what it gives. -/
theorem outcome {m : Manner} {t : TokenStream} {post : α → State → Prop} {p : Parse α}
    (hp : Aside good p) {env : Env} {s : State} (h : Outcome m t s post (p env s)) :
    Outcome m t s (fun a s' => post a s' ∧ good a) (p env s) := by
  cases hrun : p env s with
  | error f s' =>
    rw [hrun] at h
    exact h
  | ok a s' =>
    rw [hrun] at h
    exact ⟨h, hp.good env s a s' hrun⟩

/-- A node of one rule, whichever it is. -/
theorem isPart {r : Rule} {p : Parse Node} (hp : Aside (Node.IsPartOf r) p) :
    Aside Node.IsPart p :=
  hp.mono fun _ => Node.IsPartOf.isPart

/-- A production may choose what to do by where it runs. -/
theorem of_runs {p : Parse α} (h : ∀ env s, ∃ q, Aside good q ∧ p env s = q env s) :
    Aside good p := by
  refine ⟨fun env s => ?_, fun env s a s' hrun => ?_⟩
  · obtain ⟨q, hq, heq⟩ := h env s
    rw [heq]
    exact hq.sameNode env s
  · obtain ⟨q, hq, heq⟩ := h env s
    rw [heq] at hrun
    exact hq.good env s a s' hrun

/-- Nothing is attached by either part, and the second one may use what is known of the first. -/
theorem bind {p : Parse α} {k : α → Parse β} (hp : Aside good p)
    (hk : ∀ a, good a → Aside good' (k a)) : Aside good' (p >>= k) := by
  refine ⟨fun env s => ?_, fun env s b s' hrun => ?_⟩
  · have hsame := hp.sameNode env s
    rw [lastState_bind]
    cases hrun : p env s with
    | error f s₁ =>
      rw [hrun] at hsame
      exact hsame
    | ok a s₁ => exact (hp.ok hrun).trans ((hk a (hp.good env s a s₁ hrun)).sameNode env s₁)
  · rw [run_bind] at hrun
    cases hfirst : p env s with
    | error f s₁ =>
      rw [hfirst] at hrun
      cases hrun
    | ok a s₁ =>
      rw [hfirst] at hrun
      exact (hk a (hp.good env s a s₁ hfirst)).good env s₁ b s' hrun

/-- A look attaches nothing. -/
theorem look {p : Parse α} {seen : Env → State → α} {k : α → Parse β} (hp : Looks p seen)
    (hk : ∀ a, Aside good' (k a)) : Aside good' (p >>= k) := by
  refine ⟨fun env s => ?_, fun env s b s' hrun => ?_⟩
  · rw [hp.run_bind]
    exact (hk _).sameNode env s
  · rw [hp.run_bind] at hrun
    exact (hk _).good env s b s' hrun

theorem pure {a : α} (ha : good a) : Aside good (Pure.pure a) :=
  ⟨fun _ s => .refl s, fun _ _ _ _ hrun => by cases hrun; exact ha⟩

theorem fail (e : Expected) : Aside good (Production.fail e) :=
  ⟨fun _ s => .refl s, fun _ _ _ _ hrun => by cases hrun⟩

/-- Neither does what is too deep. -/
theorem tooDeep : Aside good Production.tooDeep :=
  ⟨fun _ s => .refl s, fun _ _ _ _ hrun => by cases hrun⟩

/-- Neither does the look at the limit. -/
theorem checkDepth {p : Parse α} (hp : Aside good p) :
    Aside good (Production.checkDepth >>= fun _ => p) := by
  have hcheck : Aside (fun _ => True) Production.checkDepth := by
    refine ⟨fun env s => ?_, fun _ _ _ _ _ => trivial⟩
    unfold Production.checkDepth
    split
    · exact .refl s
    · exact .refl s
  exact bind hcheck fun _ _ => hp

theorem nested {p : Parse α} (hp : Aside good p) : Aside good p.nested :=
  ⟨fun env s => hp.sameNode { env with depth := env.depth + 1 } s,
    fun env s => hp.good { env with depth := env.depth + 1 } s⟩

/-- A choice of two that attach nothing. -/
theorem ite {c : Prop} [Decidable c] {p q : Parse α} (hp : Aside good p) (hq : Aside good q) :
    Aside good (if c then p else q) := by
  split
  · exact hp
  · exact hq

/-- A node that is given perhaps, and is. -/
theorem some {p : Parse α} (hp : Aside good p) :
    Aside (fun y => ∀ x ∈ y, good x) (Option.some <$> p) := by
  rw [map_eq_pure_bind]
  refine bind hp fun a ha => pure fun x hx => ?_
  obtain rfl := Option.some.inj hx
  exact ha

/-- A node that is given perhaps, and is not. -/
theorem none : Aside (fun y => ∀ x ∈ y, good x) (Pure.pure Option.none) := pure nofun

/-- A leaf has its kind and no role yet. -/
theorem leaf (kind : NodeKind) :
    Aside (fun x => x.kind = kind ∧ x.field = Option.none) (Production.leaf kind) :=
  ⟨fun _ _ => ⟨rfl, rfl⟩, fun _ _ _ _ hrun => by cases hrun; exact ⟨rfl, rfl⟩⟩

/-- A leaf of a rule. -/
theorem ruleLeaf (r : Rule) : Aside (Node.IsPartOf r) (Production.ruleLeaf r) :=
  (leaf (.rule r)).mono fun _ h => ⟨h.1, h.2⟩

theorem identifier : Aside Node.IsPart Production.identifier :=
  look Looks.peek fun _ => ite (ruleLeaf _).isPart (fail _)

theorem tokenLeaf : Aside (fun _ => True) Production.tokenLeaf :=
  look Looks.peek fun _ => (leaf _).mono fun _ _ => trivial

/-- A node gathers its own children. -/
theorem construct (r : Rule) (first : Nat) (body : Parse Unit) :
    Aside (Node.IsPartOf r) (Production.construct r first body) := by
  refine ⟨fun env s => ?_, fun env s x s' hrun => ?_⟩
  · rw [Parse.construct_eq]
    split
    · exact ⟨rfl, rfl⟩
    · exact ⟨rfl, rfl⟩
  · rw [Parse.construct_eq] at hrun
    split at hrun
    · cases hrun
      exact ⟨rfl, rfl⟩
    · cases hrun

/-- What is attached in a node is attached to it, and not to the node around it. -/
theorem node (r : Rule) (body : Parse Unit) : Aside (Node.IsPartOf r) (Production.node r body) :=
  of_runs fun _ s => ⟨_, construct r s.cursor body, rfl⟩

theorem nodeFrom (x : Node) (r : Rule) (body : Parse Unit) :
    Aside (Node.IsPartOf r) (Production.nodeFrom x r body) :=
  construct r _ body

/-- A wrapped node is the only child. -/
theorem wrap (r : Rule) (x : Node) :
    Aside (fun y => y.IsPartOf r ∧ y.children = [x]) (Production.wrap r x) := by
  refine ⟨(nodeFrom x r _).sameNode, fun env s y s' hrun =>
    ⟨(nodeFrom x r _).good env s y s' hrun, ?_⟩⟩
  cases hrun
  rfl

/-- A loop that hands on good nodes ends with one, by induction on its rounds. -/
theorem iterateUpTo {step : α → Parse (Option α)}
    (hstep : ∀ x, good x → Aside (fun y => ∀ z ∈ y, good z) (step x)) (n : Nat) {x : α}
    (hx : good x) : Aside good (Production.iterateUpTo step n x) := by
  induction n generalizing x with
  | zero => exact pure hx
  | succ n ih =>
    rw [iterateUpTo_succ]
    refine bind (hstep x hx) fun y hy => ?_
    cases y with
    | none => exact pure hx
    | some y => exact ih (hy y rfl)

theorem iterate {step : α → Parse (Option α)} {x : α} (hx : good x)
    (hstep : ∀ x, good x → Aside (fun y => ∀ z ∈ y, good z) (step x)) :
    Aside good (Production.iterate step x) :=
  of_runs fun _ _ => ⟨_, iterateUpTo hstep _ hx, rfl⟩

theorem skip : Aside (fun _ => True) Production.skip :=
  ⟨fun _ _ => ⟨rfl, rfl⟩, fun _ _ _ _ _ => trivial⟩

/-- The end of a statement is not attached. -/
theorem endStatement : Aside (fun _ => True) Production.endStatement := by
  refine look Looks.peek fun _ => ?_
  split
  · exact skip
  · refine look (Looks.test _) fun _ => ?_
    split
    · exact pure trivial
    · exact fail _

/-- An error region is a part; it is given and not yet attached. -/
theorem recover (f : Failure) : Aside Node.IsPart (Production.recover f) :=
  ⟨fun _ _ => ⟨rfl, rfl⟩, fun _ _ _ _ hrun => by cases hrun; exact ⟨rfl, rfl⟩⟩

theorem unexpected (e : Expected) : Aside Node.IsPart (Production.unexpected e) :=
  ⟨fun _ _ => ⟨rfl, rfl⟩, fun _ _ _ _ hrun => by cases hrun; exact ⟨rfl, rfl⟩⟩

/-- What failed is taken back, and a region is given for it. -/
theorem orRecover {p : Parse Node} (hp : Aside Node.IsPart p) :
    Aside Node.IsPart p.orRecover := by
  refine ⟨fun env s => ?_, fun env s x s' hrun => ?_⟩
  · rw [Parse.orRecover_eq]
    cases hfirst : p env s with
    | ok x s' => exact hp.ok hfirst
    | error f s' => exact (recover f).sameNode env s
  · rw [Parse.orRecover_eq] at hrun
    cases hfirst : p env s with
    | ok y s₁ =>
      rw [hfirst] at hrun
      cases hrun
      exact hp.good env s _ _ hfirst
    | error f s₁ =>
      rw [hfirst] at hrun
      exact (recover f).good env s x s' hrun

/-- Whichever rule fits, it was judged. -/
theorem firstFit (a : Ambiguity) {alternatives : List Alternative}
    (h : ∀ x ∈ alternatives, Aside Node.IsPart x.production) (best : Option Failure) :
    Aside Node.IsPart (Production.firstFit a best alternatives) := by
  induction alternatives generalizing best with
  | nil => exact ⟨fun _ s => .refl s, fun _ _ _ _ hrun => by cases hrun⟩
  | cons x rest ih =>
    obtain ⟨hx, hrest⟩ := List.forall_mem_cons.1 h
    refine ⟨fun env s => ?_, fun env s y s' hrun => ?_⟩
    · rw [Parse.firstFit_cons_eq]
      split
      · cases hfirst : x.production env s with
        | ok y s' => exact hx.ok hfirst
        | error f s' => exact (ih hrest _).sameNode env s
      · exact (ih hrest best).sameNode env s
    · rw [Parse.firstFit_cons_eq] at hrun
      split at hrun
      · cases hfirst : x.production env s with
        | ok z s₁ =>
          rw [hfirst] at hrun
          cases hrun
          exact hx.good env s _ _ hfirst
        | error f s₁ =>
          rw [hfirst] at hrun
          exact (ih hrest _).good env s y s' hrun
      · exact (ih hrest best).good env s y s' hrun

/-- So is the choice. -/
theorem resolve (a : Ambiguity) {alternatives : List Alternative}
    (h : ∀ x ∈ alternatives, Aside Node.IsPart x.production) :
    Aside Node.IsPart (Production.resolve a alternatives) :=
  checkDepth (firstFit a h _)

end Aside

end Production

end VisualBasic
