import VisualBasic.Proofs.Aside

/-!
# Heights

How high a tree is, and how much of that is owed to chains. A chain grows where a node takes what
has been read as its first child: a binary operation its left operand, an access the object that it
goes to, a call its target. Nothing counts how long a chain is. If each link is taken for nothing,
though, the height that is left comes from the nesting of productions, and that is limited.

The judgement `Stacks` says how high the children may be that a production attaches. It is told how
many levels are left, since a level costs a bounded number of nodes.

Main results:

* `Node.height_le_folded` — what a tree is high beyond its folded height, its chains are long.
* `Stacks.construct`, `Stacks.link` — a node is one higher than what it holds, or as high as the
  chain that it continues.
* `Stacks.checkDepth` — what looks at the limit does not run without a level to go.
-/

namespace VisualBasic

-- ---------------------------------------------------------------------------
-- Chains
-- ---------------------------------------------------------------------------

/-- How many nodes a chain grows by when a node of the rule takes what has been read as a child in
the role: itself and the `expression` node that is put around it or around the child. A call puts
none. -/
def Rule.linkOf : Rule → Field → Nat
  | .binaryExpression, .left => 2
  | .memberAccess, .object => 2
  | .elementAccess, .object => 2
  | .invocation, .target => 1
  | _, _ => 0

namespace Node

/-- How many nodes of a chain the node stands for as the child of a node of a kind. -/
def linkIn (kind : NodeKind) (n : Node) : Nat :=
  match kind, n.field with
  | .rule r, some f => r.linkOf f
  | _, _ => 0

mutual

/-- How many nodes there are on the longest way down from the node, itself among them. -/
def height : Node → Nat
  | mk _ children => 1 + heights children

/-- The height of the highest node of a row. -/
def heights : List Node → Nat
  | [] => 0
  | n :: rest => max n.height (heights rest)

end

mutual

/-- The most nodes that chains have on a way down from the node. -/
def chained : Node → Nat
  | mk info children => chainedIn info.kind children

/-- The same of the children of a node of a kind, each with the links that it stands for itself. -/
def chainedIn (kind : NodeKind) : List Node → Nat
  | [] => 0
  | n :: rest => max (n.linkIn kind + n.chained) (chainedIn kind rest)

end

mutual

/-- The height of the node if links of chains do not count. -/
def folded : Node → Nat
  | mk info children => 1 + foldedIn info.kind children

/-- The same of the children of a node of a kind, each without its links. -/
def foldedIn (kind : NodeKind) : List Node → Nat
  | [] => 0
  | n :: rest => max (n.folded - n.linkIn kind) (foldedIn kind rest)

end

mutual

theorem height_le_folded (n : Node) : n.height ≤ n.folded + n.chained :=
  match n with
  | mk info children => by
    have hchildren := heights_le_folded info.kind children
    rw [height, folded, chained]
    omega

theorem heights_le_folded (kind : NodeKind) (ns : List Node) :
    heights ns ≤ foldedIn kind ns + chainedIn kind ns :=
  match ns with
  | [] => Nat.le_refl 0
  | n :: rest => by
    have hfirst := height_le_folded n
    have hrest := heights_le_folded kind rest
    rw [heights, foldedIn, chainedIn]
    omega

end

/-- Children are low together if each of them is. -/
theorem foldedIn_le {kind : NodeKind} {b : Nat} {ns : List Node}
    (h : ∀ n ∈ ns, n.folded ≤ b + n.linkIn kind) : foldedIn kind ns ≤ b := by
  induction ns with
  | nil => exact Nat.zero_le b
  | cons n rest ih =>
    obtain ⟨hfirst, hrest⟩ := List.forall_mem_cons.1 h
    rw [foldedIn]
    exact Nat.max_le.2 ⟨Nat.sub_le_of_le_add hfirst, ih hrest⟩

/-- A role is told by the node above, so it does not change the height below. -/
@[simp] theorem folded_inField (f : Field) (n : Node) : (n.inField f).folded = n.folded := by
  cases n
  rfl

/-- Which links a child stands for is told by its role. -/
@[simp] theorem linkIn_inField (r : Rule) (f : Field) (n : Node) :
    (n.inField f).linkIn (.rule r) = r.linkOf f := by
  cases n
  rfl

@[simp] theorem folded_withSpan (span : Span) (n : Node) : (n.withSpan span).folded = n.folded := by
  cases n
  rfl

end Node

namespace Production

open State

variable {α β : Type}

-- ---------------------------------------------------------------------------
-- The judgement
-- ---------------------------------------------------------------------------

/-- No more than `h` high, links of chains not counted. -/
abbrev Low (h : Nat) (x : Node) : Prop := x.folded ≤ h

/-- Nothing is asked of what is given. -/
abbrev Anything : α → Prop := fun _ => True

/-- Where `n` levels are left, all that the production attaches to a node of the rule `r` is at most
`b + 1` high there, even if the production fails; what it gives is `good`. There is always room for
a leaf. -/
structure Stacks (n : Nat) (r : Rule) (b : Nat) (good : α → Prop) (p : Parse α) : Prop where
  children : ∀ env s, env.room = n → (∀ c ∈ s.children, c.folded ≤ b + 1 + c.linkIn (.rule r)) →
    ∀ c ∈ (lastState (p env s)).children, c.folded ≤ b + 1 + c.linkIn (.rule r)
  good : ∀ env s a s', env.room = n → p env s = .ok a s' → good a

namespace Stacks

variable {n : Nat} {r : Rule} {b h : Nat} {good : α → Prop} {good' : β → Prop}

/-- What is attached behind a run that succeeds. -/
theorem ok {p : Parse α} (hp : Stacks n r b good p) {env : Env} {s s' : State} {a : α}
    (hroom : env.room = n) (hs : ∀ c ∈ s.children, c.folded ≤ b + 1 + c.linkIn (.rule r))
    (hrun : p env s = .ok a s') : ∀ c ∈ s'.children, c.folded ≤ b + 1 + c.linkIn (.rule r) := by
  have h := hp.children env s hroom hs
  rwa [hrun] at h

theorem mono {good₁ : α → Prop} {p : Parse α} (hp : Stacks n r b good₁ p)
    (h : ∀ a, good₁ a → good a) : Stacks n r b good p :=
  ⟨hp.children, fun env s a s' hroom hrun => h a (hp.good env s a s' hroom hrun)⟩

/-- A higher bound is as good. -/
theorem low {h' : Nat} {p : Parse Node} (hp : Stacks n r b (Low h) p)
    (hle : h ≤ h') : Stacks n r b (Low h') p :=
  hp.mono fun _ hx => Nat.le_trans hx hle

/-- What builds aside attaches nothing. -/
theorem of_aside {p : Parse α} (hp : Aside good p) : Stacks n r b good p := by
  refine ⟨fun env s _ hs => ?_, fun env s a s' _ => hp.good env s a s'⟩
  rw [(hp.sameNode env s).children]
  exact hs

/-- A production may choose what to do by where it runs. -/
theorem of_runs {p : Parse α} (h : ∀ env s, ∃ q, Stacks n r b good q ∧ p env s = q env s) :
    Stacks n r b good p := by
  refine ⟨fun env s hroom hs => ?_, fun env s a s' hroom hrun => ?_⟩
  · obtain ⟨q, hq, heq⟩ := h env s
    rw [heq]
    exact hq.children env s hroom hs
  · obtain ⟨q, hq, heq⟩ := h env s
    rw [heq] at hrun
    exact hq.good env s a s' hroom hrun

/-- Nodes are attached by both parts, and the second part may use what is known of the first. -/
theorem bind {p : Parse α} {k : α → Parse β} (hp : Stacks n r b good p)
    (hk : ∀ a, good a → Stacks n r b good' (k a)) : Stacks n r b good' (p >>= k) := by
  refine ⟨fun env s hroom hs => ?_, fun env s a s' hroom hrun => ?_⟩
  · have hfirst := hp.children env s hroom hs
    rw [lastState_bind]
    cases hrun : p env s with
    | error f s₁ =>
      rw [hrun] at hfirst
      exact hfirst
    | ok a s₁ =>
      exact (hk a (hp.good env s a s₁ hroom hrun)).children env s₁ hroom (hp.ok hroom hs hrun)
  · rw [run_bind] at hrun
    cases hfirst : p env s with
    | error f s₁ =>
      rw [hfirst] at hrun
      cases hrun
    | ok x s₁ =>
      rw [hfirst] at hrun
      exact (hk x (hp.good env s x s₁ hroom hfirst)).good env s₁ a s' hroom hrun

/-- The same if nothing is known of the first part. -/
theorem seq {p : Parse α} {q : Parse β} (hp : Stacks n r b good p)
    (hq : Stacks n r b good' q) : Stacks n r b good' (p >>= fun _ => q) :=
  bind hp fun _ _ => hq

theorem pure {a : α} (ha : good a) : Stacks n r b good (Pure.pure a) := of_aside (.pure ha)

theorem done {a : α} : Stacks n r b Anything (Pure.pure a) := pure trivial

theorem fail (e : Expected) : Stacks n r b good (Production.fail e) := of_aside (.fail e)

/-- What comes behind a failure does not run. -/
theorem failThen (e : Expected) {k : α → Parse β} :
    Stacks n r b good' (Production.fail e >>= k) := by
  have hfail : Stacks n r b (fun _ : α => False) (Production.fail e) := fail e
  exact bind hfail fun _ h => h.elim

/-- Without a level left nothing is attached. -/
theorem tooDeep : Stacks n r b good Production.tooDeep := of_aside .tooDeep

/-- A look attaches nothing. -/
theorem look {p : Parse α} {seen : Env → State → α} {k : α → Parse β} (hp : Looks p seen)
    (hk : ∀ a, Stacks n r b good' (k a)) : Stacks n r b good' (p >>= k) := by
  refine ⟨fun env s => ?_, fun env s => ?_⟩
  · rw [hp.run_bind]
    exact (hk _).children env s
  · rw [hp.run_bind]
    exact (hk _).good env s

theorem of_looks {p : Parse α} {seen : Env → State → α} (hp : Looks p seen) :
    Stacks n r b Anything p :=
  of_runs fun env s => ⟨_, done (a := seen env s), hp env s⟩

theorem peek {k : TokenKind → Parse β} (hk : ∀ kind, Stacks n r b good' (k kind)) :
    Stacks n r b good' (Production.peek >>= k) :=
  look Looks.peek hk

theorem peekAhead {i : Nat} {k : TokenKind → Parse β} (hk : ∀ kind, Stacks n r b good' (k kind)) :
    Stacks n r b good' (Production.peekAhead i >>= k) :=
  look (Looks.peekAhead i) hk

theorem test {see : Env → State → Bool} {k : Bool → Parse β}
    (hk : ∀ c, Stacks n r b good' (k c)) : Stacks n r b good' (Production.test see >>= k) :=
  look (Looks.test see) hk

/-- A choice attaches what one of the branches does. -/
theorem ite {c : Prop} [Decidable c] {p q : Parse α} (hp : Stacks n r b good p)
    (hq : Stacks n r b good q) : Stacks n r b good (if c then p else q) := by
  split
  · exact hp
  · exact hq

/-- Something that is done on a condition, and what is done afterwards in either case. -/
theorem when {c : Prop} [Decidable c] {p : Parse α} {q : Parse β}
    (hp : Stacks n r b good p) (hq : Stacks n r b good' q) :
    Stacks n r b good' (if c then p >>= fun _ => q else q) :=
  ite (seq hp hq) hq

/-- A node that is given perhaps, and is. -/
theorem some {p : Parse α} (hp : Stacks n r b good p) :
    Stacks n r b (fun y => ∀ x ∈ y, good x) (Option.some <$> p) := by
  rw [map_eq_pure_bind]
  refine bind hp fun a ha => pure fun x hx => ?_
  obtain rfl := Option.some.inj hx
  exact ha

/-- A node that is given perhaps, and is not. -/
theorem none : Stacks n r b (fun y => ∀ x ∈ y, good x) (Pure.pure Option.none) := of_aside .none

-- ---------------------------------------------------------------------------
-- Levels
-- ---------------------------------------------------------------------------

/-- One level down there is one level less. -/
theorem nested {p : Parse α} (hp : Stacks (n - 1) r b good p) : Stacks n r b good p.nested := by
  have hroom {env : Env} (h : env.room = n) :
      Env.room { env with depth := env.depth + 1 } = n - 1 := by
    rw [← h, Env.room, Env.room, Nat.sub_sub]
  exact ⟨fun env s h => hp.children _ s (hroom h), fun env s a s' h => hp.good _ s a s' (hroom h)⟩

/-- What looks at the limit does not run without a level to go. -/
theorem checkDepth {p : Parse α} (hp : ∀ m, n = m + 1 → Stacks n r b good p) :
    Stacks n r b good (Production.checkDepth >>= fun _ => p) := by
  cases n with
  | succ m =>
    have hcheck : Aside Anything Production.checkDepth := by
      refine ⟨fun env s => ?_, fun _ _ _ _ _ => trivial⟩
      unfold Production.checkDepth
      split
      · exact .refl s
      · exact .refl s
    exact seq (of_aside hcheck) (hp m rfl)
  | zero =>
    have hstops {env : Env} (hroom : env.room = 0) (s : State) :
        (Production.checkDepth >>= fun _ => p) env s
          = .error ⟨s.cursor, .tooDeep env.depth env.limit⟩ s := by
      rw [run_bind, Production.checkDepth, if_pos (Nat.le_of_sub_eq_zero hroom)]
      rfl
    refine ⟨fun env s hroom hs => ?_, fun env s a s' hroom hrun => ?_⟩
    · rw [hstops hroom]
      exact hs
    · rw [hstops hroom] at hrun
      cases hrun

/-- Eight nodes for every level that is left. -/
theorem limited {p : Parse Node} (hp : ∀ m, Stacks (m + 1) r b (Low (8 * m + 8)) p) :
    Stacks n r b (Low (8 * n)) (Production.checkDepth >>= fun _ => p) :=
  checkDepth fun m hm => hm ▸ hp m

-- ---------------------------------------------------------------------------
-- Tokens and nodes
-- ---------------------------------------------------------------------------

/-- A child that is no link has to be lower than its node. -/
theorem attach {x : Node} (hx : Low (b + 1) x) : Stacks n r b Anything (Production.attach x) :=
  ⟨fun _ _ _ hs => List.forall_mem_cons.2 ⟨Nat.le_trans hx (Nat.le_add_right _ _), hs⟩,
    fun _ _ _ _ _ _ => trivial⟩

/-- A link of a chain may be as much higher as the chain grows. -/
theorem attachLink {f : Field} {x : Node} (hx : Low (b + 1 + r.linkOf f) x) :
    Stacks n r b Anything (Production.attach (x.inField f)) := by
  refine ⟨fun env s _ hs => List.forall_mem_cons.2 ⟨?_, hs⟩, fun _ _ _ _ _ _ => trivial⟩
  rw [Node.folded_inField, Node.linkIn_inField]
  exact hx

/-- A node is built and attached. -/
theorem child {p : Parse Node} (hp : Stacks n r b (Low (b + 1)) p) :
    Stacks n r b Anything p.child :=
  bind hp fun _ hx => attach hx

/-- In the role of a link a child may be higher. -/
theorem link {f : Field} {p : Parse Node} (hp : Stacks n r b (Low (b + 1 + r.linkOf f)) p) :
    Stacks n r b Anything (Production.field f p) :=
  bind hp fun _ hx => attachLink hx

/-- In other roles it may not. -/
theorem field {f : Field} {p : Parse Node} (hp : Stacks n r b (Low (b + 1)) p) :
    Stacks n r b Anything (Production.field f p) :=
  link (hp.low (Nat.le_add_right _ _))

/-- A child that is read a level down. -/
theorem childBelow {p : Parse Node} (hp : Stacks (n - 1) r b (Low h) p) (hle : h ≤ b + 1) :
    Stacks n r b Anything p.nested.child :=
  child (nested (hp.low hle))

/-- A child in a role that is read a level down. -/
theorem fieldBelow {f : Field} {p : Parse Node} (hp : Stacks (n - 1) r b (Low h) p)
    (hle : h ≤ b + 1) : Stacks n r b Anything (Production.field f p.nested) :=
  field (nested (hp.low hle))

/-- A leaf is as low as can be. -/
theorem leaf (kind : NodeKind) : Stacks n r b (Low (h + 1)) (Production.leaf kind) :=
  of_aside ⟨(Aside.leaf kind).sameNode,
    fun _ _ _ _ hrun => by cases hrun; exact Nat.le_add_left 1 h⟩

theorem ruleLeaf (r' : Rule) : Stacks n r b (Low (h + 1)) (Production.ruleLeaf r') := leaf _

theorem tokenLeaf : Stacks n r b (Low (h + 1)) Production.tokenLeaf := peek fun _ => leaf _

theorem skip : Stacks n r b Anything Production.skip := of_aside .skip

theorem take : Stacks n r b Anything Production.take := child tokenLeaf

/-- A token of one kind is a leaf. -/
theorem expect (kind : TokenKind) : Stacks n r b Anything (Production.expect kind) :=
  test fun _ => ite take (fail _)

theorem expectWord (word : Keyword) : Stacks n r b Anything (Production.expectWord word) := expect _

theorem expectMark (mark : Mark) : Stacks n r b Anything (Production.expectMark mark) := expect _

theorem expectEnd (mark : Mark) : Stacks n r b Anything (Production.expectEnd mark) :=
  test fun _ => ite take (fail _)

/-- So it is if it need not be there. -/
theorem accept (kind : TokenKind) : Stacks n r b Anything (Production.accept kind) :=
  test fun _ => ite (seq take done) done

theorem acceptWord (word : Keyword) : Stacks n r b Anything (Production.acceptWord word) := accept _

theorem acceptMark (mark : Mark) : Stacks n r b Anything (Production.acceptMark mark) := accept _

theorem identifier : Stacks n r b (Low (h + 1)) Production.identifier :=
  peek fun _ => ite (ruleLeaf _) (fail _)

theorem memberName : Stacks n r b (Low (h + 1)) Production.memberName := by
  refine peek fun _ => ?_
  split
  · exact ruleLeaf _
  · exact ruleLeaf _
  · exact fail _

/-- A node is one higher than what it holds. -/
theorem construct {r' : Rule} {first : Nat} {body : Parse Unit}
    (hbody : Stacks n r' h Anything body) :
    Stacks n r b (Low (h + 2)) (Production.construct r' first body) := by
  refine ⟨fun env s _ hs => ?_, fun env s x s' hroom hrun => ?_⟩
  · rw [((Aside.construct r' first body).sameNode env s).children]
    exact hs
  · rw [Parse.construct_eq] at hrun
    cases hinner : body env { s with children := [], isPartial := false } with
    | error f s₁ =>
      rw [hinner] at hrun
      cases hrun
    | ok u s₁ =>
      have hchildren := hbody.ok hroom (fun _ hc => absurd hc List.not_mem_nil) hinner
      rw [hinner] at hrun
      cases hrun
      rw [Low, Node.finish, Node.folded, Nat.add_comm 1]
      refine Nat.succ_le_succ (Node.foldedIn_le fun c hc => ?_)
      exact hchildren c (List.mem_reverse.1 hc)

/-- The node is one above what its body attaches. -/
theorem node {r' : Rule} {body : Parse Unit} (hbody : Stacks n r' h Anything body) :
    Stacks n r b (Low (h + 2)) (Production.node r' body) :=
  of_runs fun _ _ => ⟨_, construct hbody, rfl⟩

/-- The same of a node that begins with one that has been read. -/
theorem nodeFrom {x : Node} {r' : Rule} {body : Parse Unit}
    (hbody : Stacks n r' h Anything body) :
    Stacks n r b (Low (h + 2)) (Production.nodeFrom x r' body) :=
  construct hbody

/-- A wrapper is one above what is in it. -/
theorem wrap {r' : Rule} {x : Node} (hx : Low h x) :
    Stacks n r b (Low (h + 1)) (Production.wrap r' x) := by
  cases h with
  | zero =>
    cases x
    rw [Low, Node.folded] at hx
    omega
  | succ h => exact nodeFrom (attach hx)

-- ---------------------------------------------------------------------------
-- Repetition
-- ---------------------------------------------------------------------------

/-- A loop that hands on low nodes ends with one, by induction on its rounds. -/
theorem iterateUpTo {step : α → Parse (Option α)}
    (hstep : ∀ x, good x → Stacks n r b (fun y => ∀ z ∈ y, good z) (step x)) (count : Nat) {x : α}
    (hx : good x) : Stacks n r b good (Production.iterateUpTo step count x) := by
  induction count generalizing x with
  | zero => exact pure hx
  | succ count ih =>
    rw [iterateUpTo_succ]
    refine bind (hstep x hx) fun y hy => ?_
    cases y with
    | none => exact pure hx
    | some y => exact ih (hy y rfl)

/-- The bound on the rounds does not matter. -/
theorem iterate {step : α → Parse (Option α)} {x : α} (hx : good x)
    (hstep : ∀ x, good x → Stacks n r b (fun y => ∀ z ∈ y, good z) (step x)) :
    Stacks n r b good (Production.iterate step x) :=
  of_runs fun _ _ => ⟨_, iterateUpTo hstep _ hx, rfl⟩

/-- A loop without a value attaches what its rounds do. -/
theorem repeatWhile {step : Parse Bool} (hstep : Stacks n r b Anything step) :
    Stacks n r b Anything (Production.repeatWhile step) :=
  iterate trivial fun _ _ => bind hstep fun _ _ => pure fun _ _ => trivial

/-- One more round of a repetition. -/
theorem round {p : Parse Unit} (hp : Stacks n r b Anything p) :
    Stacks n r b Anything (p >>= fun _ => Pure.pure true) :=
  seq hp done

/-- The commas between the items are leaves. -/
theorem commaSeparated {item : Parse Unit} (hitem : Stacks n r b Anything item) :
    Stacks n r b Anything (Production.commaSeparated item) :=
  seq hitem (repeatWhile (bind (acceptMark _) fun _ _ => ite (round hitem) done))

/-- Line ends are not attached. -/
theorem skipNewlines : Stacks n r b Anything Production.skipNewlines :=
  repeatWhile (test fun _ => ite (round skip) done)

-- ---------------------------------------------------------------------------
-- Recovery and ambiguities
-- ---------------------------------------------------------------------------

/-- Neither is the end of a statement. -/
theorem endStatement : Stacks n r b Anything Production.endStatement := of_aside .endStatement

/-- An error region has no children. -/
theorem recover (f : Failure) : Stacks n r b (Low (h + 1)) (Production.recover f) :=
  of_aside ⟨(Aside.recover f).sameNode,
    fun _ _ _ _ hrun => by cases hrun; exact Nat.le_add_left 1 h⟩

/-- The same of a region where nothing was tried. -/
theorem unexpected (e : Expected) : Stacks n r b (Low (h + 1)) (Production.unexpected e) :=
  of_runs fun _ s => ⟨_, recover ⟨s.cursor, .unexpected e⟩, rfl⟩

/-- What failed is given up, and the region is a leaf. -/
theorem orRecover {p : Parse Node} (hp : Stacks n r b (Low (h + 1)) p) :
    Stacks n r b (Low (h + 1)) p.orRecover := by
  refine ⟨fun env s hroom hs => ?_, fun env s x s' hroom hrun => ?_⟩
  · rw [Parse.orRecover_eq]
    cases hfirst : p env s with
    | ok x s' => exact hp.ok hroom hs hfirst
    | error f s' => exact hs
  · rw [Parse.orRecover_eq] at hrun
    cases hfirst : p env s with
    | ok y s₁ =>
      rw [hfirst] at hrun
      cases hrun
      exact hp.good env s _ _ hroom hfirst
    | error f s₁ =>
      rw [hfirst] at hrun
      exact (recover (r := r) (b := b) f).good env s x s' hroom hrun

/-- What was attached before the failure stays, and a leaf comes behind it. -/
theorem recovering {p : Parse Unit} (hp : Stacks n r b Anything p) :
    Stacks n r b Anything p.recovering := by
  refine ⟨fun env s hroom hs => ?_, fun _ _ _ _ _ _ => trivial⟩
  have hfirst := hp.children env s hroom hs
  unfold Production.recovering
  cases hrun : p env s with
  | ok u s' =>
    rw [hrun] at hfirst
    exact hfirst
  | error f s' =>
    rw [hrun] at hfirst
    exact (child (recover f)).children env s' hroom hfirst

/-- Whichever rule fits, it was judged; what was tried before is given up. -/
theorem firstFit (a : Ambiguity) {alternatives : List Alternative}
    (hfits : ∀ x ∈ alternatives, Stacks n r b (Low h) x.production) (best : Option Failure) :
    Stacks n r b (Low h) (Production.firstFit a best alternatives) := by
  induction alternatives generalizing best with
  | nil => exact ⟨fun _ _ _ hs => hs, fun _ _ _ _ _ hrun => by cases hrun⟩
  | cons x rest ih =>
    obtain ⟨hx, hrest⟩ := List.forall_mem_cons.1 hfits
    refine ⟨fun env s hroom hs => ?_, fun env s y s' hroom hrun => ?_⟩
    · rw [Parse.firstFit_cons_eq]
      split
      · cases hfirst : x.production env s with
        | ok y s' => exact hx.ok hroom hs hfirst
        | error f s' => exact (ih hrest _).children env s hroom hs
      · exact (ih hrest best).children env s hroom hs
    · rw [Parse.firstFit_cons_eq] at hrun
      split at hrun
      · cases hfirst : x.production env s with
        | ok z s₁ =>
          rw [hfirst] at hrun
          cases hrun
          exact hx.good env s _ _ hroom hfirst
        | error f s₁ =>
          rw [hfirst] at hrun
          exact (ih hrest _).good env s y s' hroom hrun
      · exact (ih hrest best).good env s y s' hroom hrun

theorem resolve (a : Ambiguity) {alternatives : List Alternative}
    (hfits : ∀ x ∈ alternatives, Stacks n r b (Low h) x.production) :
    Stacks n r b (Low h) (Production.resolve a alternatives) :=
  checkDepth fun _ _ => firstFit a hfits _

-- ---------------------------------------------------------------------------
-- Blocks
-- ---------------------------------------------------------------------------

/-- A block that is noted is not attached. -/
theorem openBlockAt (opener : Keyword) (line : Nat) :
    Stacks n r b Anything (Production.openBlockAt opener line) :=
  of_aside ⟨fun _ _ => ⟨rfl, rfl⟩, fun _ _ _ _ _ => trivial⟩

theorem openBlock (opener : Keyword) : Stacks n r b Anything (Production.openBlock opener) :=
  look Looks.currentLine fun _ => openBlockAt opener _

/-- The words of a closing line are leaves. -/
theorem closeBlock (opener : Keyword) : Stacks n r b Anything (Production.closeBlock opener) := by
  have hmissing : Stacks n r b Anything (missCloser opener) :=
    ⟨fun _ _ _ hs => hs, fun _ _ _ _ _ _ => trivial⟩
  have hleave : Stacks n r b Anything (modify fun s => { s with blocks := s.blocks.tail } :
      Parse Unit) :=
    ⟨fun _ _ _ hs => hs, fun _ _ _ _ _ _ => trivial⟩
  have htakes (words : List Keyword) :
      Stacks n r b Anything (words.forM fun _ => Production.take) := by
    induction words with
    | nil => exact done
    | cons word rest ih => exact seq take ih
  exact test fun _ => ite (seq hleave (round (htakes opener.closer))) (seq hmissing done)

theorem finishBlock (opener : Keyword) : Stacks n r b Anything (Production.finishBlock opener) :=
  bind (closeBlock opener) fun _ _ => ite (recovering endStatement) done

/-- The items of a body are attached one by one. -/
theorem body {item : Parse Unit} (hitem : Stacks n r b Anything item) :
    Stacks n r b Anything (Production.body item) :=
  repeatWhile (test fun _ => ite done (round hitem))

end Stacks

end Production

end VisualBasic
