import VisualBasic.Proofs.Forest
import VisualBasic.Proofs.Places

/-!
# Watching nodes

Something is to hold of all nodes of a few rules, wherever they are in a tree. It has to be proved
where such a node is built; all other productions merely pass on what they are given. Which nodes a
production passes on is read off its text, so the judgement `Yields` is a class, and for a
production without nodes of the rules it is found by instances.

* `Watch` — the rules whose nodes are watched, and what is to hold of them.
* `Clear` — it holds of all watched nodes in a value.
* `Yields` — it holds of all watched nodes that the production attaches or gives.

Main results:

* `Yields.bind`, `Yields.into` — productions are chained; the second has to know of the nodes it
  gets.
* `Yields.node` — a node that is not watched is clear if its children are.
* `Yields.expression` — what an expression is made of is not watched.
-/

namespace VisualBasic

/-- What is to hold of the nodes of a few rules in trees over the tokens. A role does not matter to
it. -/
structure Watch where
  tokens : TokenStream
  watches : Rule → Bool
  fine : Node → Prop
  inField : ∀ {n : Node} (f : Field), fine n → fine (n.inField f)

namespace Watch

variable {w : Watch} {n : Node} {ns ms : List Node}

/-- All watched nodes among the given ones and below them are fine. -/
def Clears (w : Watch) (ns : List Node) : Prop :=
  ∀ n ∈ Node.preorders ns, (∃ r, n.kind = .rule r ∧ w.watches r = true) → w.fine n

theorem clears_nil : w.Clears [] := by
  intro n hn
  cases hn

theorem clears_cons : w.Clears (n :: ns) ↔ w.Clears [n] ∧ w.Clears ns := by
  simp only [Clears, Node.preorders, List.append_nil, List.mem_append, or_imp, forall_and]

theorem Clears.append (h : w.Clears ns) (h' : w.Clears ms) : w.Clears (ns ++ ms) := by
  induction ns with
  | nil => exact h'
  | cons n ns ih =>
    obtain ⟨hn, hns⟩ := clears_cons.1 h
    exact clears_cons.2 ⟨hn, ih hns⟩

theorem Clears.reverse (h : w.Clears ns) : w.Clears ns.reverse :=
  fun n hn => h n (Node.mem_preorders_reverse.1 hn)

/-- A node is clear if it is fine and its children are clear. -/
theorem clears_of_children (h : w.Clears n.children)
    (hn : (∃ r, n.kind = .rule r ∧ w.watches r = true) → w.fine n) : w.Clears [n] := by
  intro m hm
  rw [Node.preorders, Node.preorder_eq, Node.preorders, List.append_nil, List.mem_cons] at hm
  rcases hm with rfl | hm
  · exact hn
  · exact h m hm

theorem Clears.of_node (h : w.Clears [n]) :
    w.Clears n.children ∧ ((∃ r, n.kind = .rule r ∧ w.watches r = true) → w.fine n) := by
  refine ⟨fun m hm => h m ?_, h n ?_⟩
  all_goals rw [Node.preorders, Node.preorder_eq, Node.preorders, List.append_nil, List.mem_cons]
  · exact .inr hm
  · exact .inl rfl

theorem Clears.inField (h : w.Clears [n]) (f : Field) : w.Clears [n.inField f] := by
  refine clears_of_children ?_ fun hwatched => ?_
  · rw [Node.children_inField]
    exact h.of_node.1
  · rw [Node.kind_inField] at hwatched
    exact w.inField f (h.of_node.2 hwatched)

end Watch

/-- The nodes that a value brings along. -/
class Bears (α : Type) where
  nodes : α → List Node

instance : Bears Node := ⟨fun n => [n]⟩

instance : Bears (Option Node) := ⟨Option.toList⟩

instance (priority := low) bearsNothing {α : Type} : Bears α := ⟨fun _ => []⟩

/-- All watched nodes of the value are fine. -/
class Clear (w : Watch) {α : Type} [Bears α] (a : α) : Prop where
  clears : w.Clears (Bears.nodes a)

/-- The nodes of the rule are not watched. -/
class Unwatched (w : Watch) (r : Rule) : Prop where
  eq_false : w.watches r = false

/-- The rules of the parts of statements and of the lines that open declarations. -/
@[reducible] def Rule.isPart : Rule → Bool
  | .namespaceName | .attributeBlock | .«attribute» | .inheritsClause | .implementsClause
  | .handlesClause | .typeParameters | .typeParameter | .typeConstraint | .modifiers | .modifier
  | .parameterList | .parameter | .type | .primitiveType | .typeArgumentList | .arrayRankSpecifier
  | .asClause | .leftHandSide | .caseClause | .relationalOperator | .«variable» | .reDimClause
  | .expression | .parenthesizedExpression | .invocation | .argumentList | .argument
  | .memberAccess | .elementAccess | .newExpression | .objectInitializers | .objectInitializer
  | .unaryExpression | .binaryExpression | .ternaryExpression | .typeOfExpression | .literal
  | .booleanLiteral | .integerLiteral | .floatingPointLiteral | .stringLiteral
  | .characterLiteral | .dateLiteral | .identifier | .error => true
  | _ => false

/-- No such part is watched. -/
class SparesParts (w : Watch) : Prop where
  unwatched : ∀ r : Rule, r.isPart = true → w.watches r = false

namespace Production

open Watch

/-- All watched nodes that the production attaches or gives are fine. -/
class Yields (w : Watch) {α : Type} [Bears α] (p : Parse α) : Prop where
  keeps : ∀ env s, env.tokens = w.tokens → w.Clears s.children →
    w.Clears (lastState (p env s)).children
  gives : ∀ env s a s', env.tokens = w.tokens → p env s = .ok a s' → Clear w a

variable {w : Watch} {α β : Type} [Bears α] [Bears β]

/-- The same of one run. -/
structure YieldsAt (w : Watch) {α : Type} [Bears α] (p : Parse α) (env : Env) (s : State) :
    Prop where
  keeps : w.Clears s.children → w.Clears (lastState (p env s)).children
  gives : ∀ a s', p env s = .ok a s' → Clear w a

namespace YieldsAt

variable {env : Env} {s : State}

theorem of_eq {p q : Parse α} (h : YieldsAt w q env s) (heq : p env s = q env s) :
    YieldsAt w p env s where
  keeps := by
    rw [heq]
    exact h.keeps
  gives := by
    rw [heq]
    exact h.gives

theorem either {c : Prop} [Decidable c] {p q : Parse α} (hp : YieldsAt w p env s)
    (hq : YieldsAt w q env s) : YieldsAt w (if c then p else q) env s := by
  split
  · exact hp
  · exact hq

/-- What is seen ahead is known to the rest. -/
theorem looks {γ : Type} {p : Parse γ} {seen : Env → State → γ} {k : γ → Parse β}
    (hp : Looks p seen) (hk : YieldsAt w (k (seen env s)) env s) : YieldsAt w (p >>= k) env s :=
  hk.of_eq (by rw [run_bind, hp env s])

/-- Whatever an ambiguity is settled by was tried where it began. -/
theorem firstFit {a : Ambiguity} {best : Option Failure} {alternatives : List Alternative}
    (h : ∀ x ∈ alternatives, YieldsAt w x.production env s) :
    YieldsAt w (Production.firstFit a best alternatives) env s := by
  induction alternatives generalizing best with
  | nil => exact ⟨fun hs => hs, fun _ _ hrun => by cases hrun⟩
  | cons x rest ih =>
    have hx := h x List.mem_cons_self
    have hrest (best : Option Failure) : YieldsAt w (Production.firstFit a best rest) env s :=
      ih fun y hy => h y (List.mem_cons_of_mem _ hy)
    by_cases hviable : x.viable env s = true
    · cases hrun : x.production env s with
      | ok n s' => exact hx.of_eq (by rw [Parse.firstFit_cons_eq, if_pos hviable, hrun])
      | error f s' => exact (hrest _).of_eq (by rw [Parse.firstFit_cons_eq, if_pos hviable, hrun])
    · exact (hrest _).of_eq (by rw [Parse.firstFit_cons_eq, if_neg hviable])

theorem of_checkDepth {p : Parse α} (h : YieldsAt w p env s) :
    YieldsAt w (do checkDepth; p) env s := by
  by_cases hdepth : env.limit ≤ env.depth
  · have hfails :
        (do Production.checkDepth; p) env s =
        .error ⟨s.cursor, .tooDeep env.depth env.limit⟩ s := by
      rw [run_bind, Production.checkDepth, if_pos hdepth]
      rfl
    constructor
    all_goals rw [hfails]
    · exact fun hs => hs
    · exact fun _ _ h => by cases h
  · exact h.of_eq (by rw [run_bind, Production.checkDepth, if_neg hdepth])

end YieldsAt

namespace Yields

theorem here {p : Parse α} (h : Yields w p) {env : Env} {s : State} (ht : env.tokens = w.tokens) :
    YieldsAt w p env s :=
  ⟨h.keeps env s ht, fun a s' => h.gives env s a s' ht⟩

theorem of_here {p : Parse α} (h : ∀ env s, env.tokens = w.tokens → YieldsAt w p env s) :
    Yields w p :=
  ⟨fun env s ht => (h env s ht).keeps, fun env s a s' ht => (h env s ht).gives a s'⟩

-- ---------------------------------------------------------------------------
-- Values
-- ---------------------------------------------------------------------------

instance unwatchedPart {r : Rule} [h : SparesParts w] [hr : Holds r.isPart] : Unwatched w r :=
  ⟨h.unwatched r hr.eq_true⟩

instance (priority := low) clearNothing {γ : Type} {a : γ} :
    @Clear w γ bearsNothing a := ⟨clears_nil⟩

instance clearNone : Clear w (none : Option Node) := ⟨clears_nil⟩

instance clearSome {n : Node} [h : Clear w n] : Clear w (some n) := ⟨h.clears⟩

instance clearInField {n : Node} {f : Field} [h : Clear w n] : Clear w (n.inField f) :=
  ⟨h.clears.inField f⟩

-- ---------------------------------------------------------------------------
-- Chaining
-- ---------------------------------------------------------------------------

theorem of_runs {p : Parse α} (h : ∀ env s, ∃ q, Yields w q ∧ p env s = q env s) :
    Yields w p where
  keeps env s ht hs := by
    obtain ⟨q, hq, heq⟩ := h env s
    rw [heq]
    exact hq.keeps env s ht hs
  gives env s a s' ht hrun := by
    obtain ⟨q, hq, heq⟩ := h env s
    rw [heq] at hrun
    exact hq.gives env s a s' ht hrun

theorem bind {p : Parse α} {k : α → Parse β} (hp : Yields w p)
    (hk : ∀ a, Clear w a → Yields w (k a)) : Yields w (p >>= k) where
  keeps env s ht hs := by
    have hfirst := hp.keeps env s ht hs
    rw [lastState_bind]
    cases hrun : p env s with
    | error f s₁ =>
      rw [hrun] at hfirst
      exact hfirst
    | ok a s₁ =>
      rw [hrun] at hfirst
      exact (hk a (hp.gives env s a s₁ ht hrun)).keeps env s₁ ht hfirst
  gives env s b s' ht hrun := by
    obtain ⟨a, s₁, hfirst, hrest⟩ := bind_eq_ok hrun
    exact (hk a (hp.gives env s a s₁ ht hfirst)).gives env s₁ b s' ht hrest

/-- What the second production does may rest on what the first one gives. -/
theorem into {p : Parse α} {k : α → Parse β} [hp : Yields w p]
    (hk : ∀ a, [Clear w a] → Yields w (k a)) : Yields w (p >>= k) :=
  bind hp fun a _ => hk a

instance seq {p : Parse α} {k : α → Parse β} [hp : Yields w p] [hk : ∀ a, Yields w (k a)] :
    Yields w (p >>= k) :=
  bind hp fun a _ => hk a

theorem behind {p : Parse α} {k : α → Parse β} [Yields w p] (_ : ∀ a, Yields w (k a)) :
    Yields w (p >>= k) :=
  seq

instance pure {a : α} [h : Clear w a] : Yields w (Pure.pure a : Parse α) where
  keeps _ _ _ hs := hs
  gives _ _ _ _ _ hrun := by
    cases hrun
    exact h

theorem either {c : Prop} [Decidable c] {p q : Parse α} (hp : Yields w p) (hq : Yields w q) :
    Yields w (if c then p else q) := by
  split
  · exact hp
  · exact hq

instance ite {c : Prop} [Decidable c] {p q : Parse α} [hp : Yields w p] [hq : Yields w q] :
    Yields w (if c then p else q) :=
  either hp hq

theorem of_looks {p : Parse α} {seen : Env → State → α} (hp : Looks p seen)
    (hclear : ∀ a : α, Clear w a) : Yields w p where
  keeps env s _ hs := by
    rw [hp env s]
    exact hs
  gives _ _ a _ _ _ := hclear a

instance look {p : Env → State → Bool} : Yields w (Production.test p) :=
  of_looks (Looks.test p) fun _ => inferInstance

instance peek : Yields w Production.peek := of_looks Looks.peek fun _ => ⟨clears_nil⟩

instance peekAhead {i : Nat} : Yields w (Production.peekAhead i) :=
  of_looks (Looks.peekAhead i) fun _ => ⟨clears_nil⟩

instance fail {e : Expected} : Yields w (Production.fail e : Parse α) where
  keeps _ _ _ hs := hs
  gives _ _ _ _ _ hrun := by cases hrun

instance tooDeep : Yields w (Production.tooDeep : Parse α) where
  keeps _ _ _ hs := hs
  gives _ _ _ _ _ hrun := by cases hrun

instance nested {p : Parse α} [hp : Yields w p] : Yields w p.nested where
  keeps env s ht hs := hp.keeps { env with depth := env.depth + 1 } s ht hs
  gives env s a s' ht hrun := hp.gives { env with depth := env.depth + 1 } s a s' ht hrun

instance checkDepth : Yields w Production.checkDepth where
  keeps env s _ hs := by
    unfold Production.checkDepth
    split <;> exact hs
  gives _ _ _ _ _ _ := inferInstance

-- ---------------------------------------------------------------------------
-- Tokens and nodes
-- ---------------------------------------------------------------------------

instance skip : Yields w Production.skip where
  keeps _ _ _ hs := hs
  gives _ _ _ _ _ _ := inferInstance

instance attach {n : Node} [hn : Clear w n] : Yields w (Production.attach n) where
  keeps _ _ _ hs := clears_cons.2 ⟨hn.clears, hs⟩
  gives _ _ _ _ _ _ := inferInstance

instance attachIn {f : Field} {n : Node} [Clear w n] : Yields w (Production.attachIn f n) :=
  attach (n := n.inField f)

instance tokenLeaf : Yields w Production.tokenLeaf where
  keeps _ _ _ hs := hs
  gives env s n s' _ hrun := by
    cases hrun
    exact ⟨clears_of_children clears_nil fun ⟨r, hr, _⟩ => by cases hr⟩

instance ruleLeaf {r : Rule} [hr : Unwatched w r] : Yields w (Production.ruleLeaf r) where
  keeps _ _ _ hs := hs
  gives env s n s' _ hrun := by
    cases hrun
    refine ⟨clears_of_children clears_nil fun ⟨r', hkind, hwatched⟩ => ?_⟩
    cases hkind
    cases hr.eq_false.symm.trans hwatched

instance child {p : Parse Node} [hp : Yields w p] : Yields w p.child :=
  into fun _ => inferInstance

instance field {f : Field} {p : Parse Node} [hp : Yields w p] : Yields w (Production.field f p) :=
  into fun _ => inferInstance

instance take : Yields w Production.take := by
  unfold Production.take
  infer_instance

/-- The children of a node are clear, whether or not the node is watched. -/
theorem clears_children {r : Rule} {first : Nat} {body : Parse Unit} (hbody : Yields w body)
    {env : Env} {s s' : State} {n : Node} (ht : env.tokens = w.tokens)
    (hrun : construct r first body env s = .ok n s') : w.Clears n.children := by
  obtain ⟨s₁, hs₁, rfl, -⟩ := construct_eq_finish hrun
  have hchildren := hbody.keeps env { s with children := [], isPartial := false } ht clears_nil
  rw [hs₁] at hchildren
  exact hchildren.reverse

theorem construct {r : Rule} {first : Nat} {body : Parse Unit} (hbody : Yields w body)
    (hfine : ∀ env s n s', env.tokens = w.tokens →
      Production.construct r first body env s = .ok n s' →
      w.watches r = true → w.fine n) : Yields w (Production.construct r first body) where
  keeps env s _ hs := by
    rw [((Aside.construct r first body).sameNode env s).children]
    exact hs
  gives env s n s' ht hrun := by
    refine ⟨clears_of_children (clears_children hbody ht hrun) fun ⟨r', hkind, hwatched⟩ => ?_⟩
    refine hfine env s n s' ht hrun ?_
    rw [((Aside.construct r first body).good _ _ _ _ hrun).kind] at hkind
    cases hkind
    exact hwatched

instance constructUnwatched {r : Rule} {first : Nat} {body : Parse Unit} [hr : Unwatched w r]
    [hbody : Yields w body] : Yields w (Production.construct r first body) :=
  construct hbody fun _ _ _ _ _ _ hwatched => by cases hr.eq_false.symm.trans hwatched

instance node {r : Rule} {body : Parse Unit} [Unwatched w r] [Yields w body] :
    Yields w (Production.node r body) :=
  of_runs fun _ s => ⟨Production.construct r s.cursor body, inferInstance, rfl⟩

theorem nodeOf {r : Rule} {body : Parse Unit} [Unwatched w r] (_ : Yields w body) :
    Yields w (Production.node r body) :=
  node

instance nodeFrom {n : Node} {r : Rule} {body : Parse Unit} [Unwatched w r] [Yields w body] :
    Yields w (Production.nodeFrom n r body) := by
  rw [Parse.nodeFrom_eq]
  infer_instance

instance wrap {n : Node} {r : Rule} [Clear w n] [Unwatched w r] :
    Yields w (Production.wrap r n) := by
  unfold Production.wrap
  infer_instance

-- ---------------------------------------------------------------------------
-- Repetition
-- ---------------------------------------------------------------------------

theorem iterateUpTo {step : α → Parse (Option α)} [Bears (Option α)]
    (hstep : ∀ a, Clear w a → Yields w (step a)) (hsome : ∀ a : α, Clear w (some a) → Clear w a)
    (n : Nat) {a : α} (ha : Clear w a) : Yields w (Production.iterateUpTo step n a) := by
  induction n generalizing a with
  | zero => exact pure
  | succ n ih =>
    rw [iterateUpTo_succ]
    refine bind (hstep a ha) fun y hy => ?_
    cases y with
    | none => exact pure
    | some b => exact ih (hsome b hy)

/-- A repetition that goes on from node to node. -/
theorem iterate {step : Node → Parse (Option Node)} {n : Node}
    (hstep : ∀ n, [Clear w n] → Yields w (step n)) [hn : Clear w n] :
    Yields w (Production.iterate step n) :=
  of_runs fun env s => ⟨Production.iterateUpTo step (env.tokens.size - s.cursor) n,
    iterateUpTo (fun n _ => hstep n) (fun _ h => ⟨h.clears⟩) _ hn, rfl⟩

instance repeatWhile {step : Parse Bool} [hstep : Yields w step] :
    Yields w (Production.repeatWhile step) := by
  have hround (b : Bool) : Clear w (if b = true then some () else none) := ⟨clears_nil⟩
  exact of_runs fun env s => ⟨Production.iterateUpTo _ (env.tokens.size - s.cursor) (),
    iterateUpTo (fun _ _ => bind hstep fun _ _ => pure)
    (fun _ _ => inferInstance) _ inferInstance, rfl⟩

theorem repeatWhileOf {step : Parse Bool} (_ : Yields w step) :
    Yields w (Production.repeatWhile step) :=
  repeatWhile

-- ---------------------------------------------------------------------------
-- Tokens of a kind
-- ---------------------------------------------------------------------------

instance atKind {kind : TokenKind} : Yields w (Production.atKind kind) := look

instance atWord {word : Keyword} : Yields w (Production.atWord word) := look

instance expect {kind : TokenKind} : Yields w (Production.expect kind) := by
  unfold Production.expect
  infer_instance

instance expectWord {word : Keyword} : Yields w (Production.expectWord word) := expect

instance expectMark {mark : Mark} : Yields w (Production.expectMark mark) := expect

instance expectEnd {mark : Mark} : Yields w (Production.expectEnd mark) := by
  unfold Production.expectEnd
  infer_instance

instance accept {kind : TokenKind} : Yields w (Production.accept kind) := by
  unfold Production.accept
  infer_instance

instance acceptWord {word : Keyword} : Yields w (Production.acceptWord word) := accept

instance acceptMark {mark : Mark} : Yields w (Production.acceptMark mark) := accept

instance commaSeparated {item : Parse Unit} [Yields w item] :
    Yields w (Production.commaSeparated item) := by
  unfold Production.commaSeparated
  infer_instance

instance skipNewlines : Yields w Production.skipNewlines := by
  unfold Production.skipNewlines
  infer_instance

instance endStatement : Yields w Production.endStatement := by
  unfold Production.endStatement Production.atTerminator
  infer_instance

-- ---------------------------------------------------------------------------
-- Recovery and ambiguities
-- ---------------------------------------------------------------------------

section

variable [SparesParts w]

instance recover {f : Failure} : Yields w (Production.recover f) where
  keeps _ _ _ hs := hs
  gives env s n s' _ hrun := by
    cases hrun
    refine ⟨clears_of_children clears_nil fun ⟨r, hkind, hwatched⟩ => ?_⟩
    cases hkind
    cases (SparesParts.unwatched .error rfl).symm.trans hwatched

instance unexpected {e : Expected} : Yields w (Production.unexpected e) :=
  of_runs fun _ s => ⟨Production.recover ⟨s.cursor, .unexpected e⟩, inferInstance, rfl⟩

instance orRecover {p : Parse Node} [hp : Yields w p] : Yields w (Production.orRecover p) := by
  refine of_runs fun env s => ?_
  cases hrun : p env s with
  | ok n s' => exact ⟨p, hp, by rw [Parse.orRecover_eq, hrun]⟩
  | error f s' => exact ⟨Production.recover f, inferInstance, by rw [Parse.orRecover_eq, hrun]⟩

instance recovering {p : Parse Unit} [hp : Yields w p] : Yields w (Production.recovering p) where
  keeps env s ht hs := by
    have hlast := hp.keeps env s ht hs
    unfold Production.recovering
    cases hrun : p env s with
    | ok a s' =>
      rw [hrun] at hlast
      exact hlast
    | error f s' =>
      rw [hrun] at hlast
      exact keeps (p := Production.child (Production.recover f)) env s' ht hlast
  gives _ _ _ _ _ _ := inferInstance

end

theorem resolve {a : Ambiguity} {alternatives : List Alternative}
    (h : ∀ x ∈ alternatives, Yields w x.production) :
    Yields w (Production.resolve a alternatives) :=
  of_here fun _ _ ht => .of_checkDepth (.firstFit fun x hx => (h x hx).here ht)

-- ---------------------------------------------------------------------------
-- Blocks
-- ---------------------------------------------------------------------------

/-- What changes neither the children nor the place. -/
theorem of_children {p : Parse Unit}
    (h : ∀ env s, (lastState (p env s)).children = s.children) : Yields w p where
  keeps env s _ hs := by
    rw [h env s]
    exact hs
  gives _ _ _ _ _ _ := inferInstance

instance atBoundary : Yields w Production.atBoundary := look

instance ahead {kinds : List TokenKind} : Yields w (Production.ahead kinds) := look

instance currentLine : Yields w Production.currentLine :=
  of_looks (fun _ _ => rfl) fun _ => ⟨clears_nil⟩

instance openBlockAt {opener : Keyword} {line : Nat} :
    Yields w (Production.openBlockAt opener line) :=
  of_children fun _ _ => rfl

instance openBlock {opener : Keyword} : Yields w (Production.openBlock opener) := by
  unfold Production.openBlock
  infer_instance

instance missCloser {opener : Keyword} : Yields w (Production.missCloser opener) :=
  of_children fun _ _ => rfl

instance closeBlock {opener : Keyword} : Yields w (Production.closeBlock opener) := by
  have htakes (words : List Keyword) : Yields w (words.forM fun _ => Production.take) := by
    induction words with
    | nil => exact pure
    | cons word words ih =>
      exact seq
  have hleave : Yields w (modify fun s => { s with blocks := s.blocks.tail } : Parse Unit) :=
    of_children fun _ _ => rfl
  unfold Production.closeBlock
  infer_instance

instance finishBlock {opener : Keyword} [SparesParts w] :
    Yields w (Production.finishBlock opener) := by
  unfold Production.finishBlock
  infer_instance

instance body {item : Parse Unit} [Yields w item] : Yields w (Production.body item) := by
  unfold Production.body Production.bodyItem
  infer_instance

-- ---------------------------------------------------------------------------
-- Names and types
-- ---------------------------------------------------------------------------

-- The instance that is found for a production is as large as its text.
set_option synthInstance.maxSize 4000

section

variable [SparesParts w]

instance identifier : Yields w Production.identifier := by
  unfold Production.identifier
  infer_instance

instance memberName : Yields w Production.memberName := by
  refine into fun kind => ?_
  split <;> infer_instance

instance dottedName : Yields w Production.dottedName := by
  unfold Production.dottedName
  infer_instance

instance atRank : Yields w Production.atRank := look

instance arrayRank : Yields w Production.arrayRank := by
  unfold Production.arrayRank
  infer_instance

instance atTypeArguments : Yields w Production.atTypeArguments := ahead

instance typeArgumentsOf {type : Parse Node} [Yields w type] :
    Yields w (Production.typeArgumentsOf type) := by
  unfold Production.typeArgumentsOf
  infer_instance

instance typeUpTo {room : Nat} {ranks : Bool} : Yields w (Production.typeUpTo room ranks) := by
  induction room generalizing ranks with
  | zero => exact tooDeep
  | succ room ih =>
    have hall : Yields w (Production.typeUpTo room true) := ih
    unfold Production.typeUpTo
    refine into fun _ => nodeOf ?_
    dsimp only
    refine into fun kind => ?_
    split <;> infer_instance

instance type {ranks : Bool} : Yields w (Production.type ranks) :=
  of_runs fun _ _ => ⟨_, typeUpTo, rfl⟩

instance typeArguments : Yields w Production.typeArguments := by
  unfold Production.typeArguments
  infer_instance

-- ---------------------------------------------------------------------------
-- Parts of expressions
-- ---------------------------------------------------------------------------

instance literal {r : Rule} [Unwatched w r] : Yields w (Production.literal r) :=
  into fun _ => inferInstance

instance memberAccess {n : Node} [Clear w n] : Yields w (Production.memberAccess n) := by
  unfold Production.memberAccess
  infer_instance

instance implicitMemberAccess : Yields w Production.implicitMemberAccess := by
  unfold Production.implicitMemberAccess
  infer_instance

section

variable {expression : Parse Node} [Yields w expression]

instance argumentOf : Yields w (Production.argumentOf expression) := by
  unfold Production.argumentOf
  dsimp only
  infer_instance

instance argumentsOf : Yields w (Production.argumentsOf expression) := by
  unfold Production.argumentsOf
  dsimp only
  infer_instance

instance initializerOf : Yields w (Production.initializerOf expression) := by
  unfold Production.initializerOf
  dsimp only
  infer_instance

instance initializersOf : Yields w (Production.initializersOf expression) := by
  unfold Production.initializersOf
  dsimp only
  infer_instance

instance elementAccessOf {n : Node} [Clear w n] :
    Yields w (Production.elementAccessOf expression n) := by
  unfold Production.elementAccessOf
  dsimp only
  infer_instance

instance invocationOf {n : Node} [Clear w n] : Yields w (Production.invocationOf expression n) := by
  unfold Production.invocationOf
  infer_instance

instance callOrIndexOf {n : Node} [Clear w n] :
    Yields w (Production.callOrIndexOf expression n) := by
  rw [Parse.callOrIndexOf_eq]
  infer_instance

instance parenthesizedOf : Yields w (Production.parenthesizedOf expression) := by
  unfold Production.parenthesizedOf
  infer_instance

instance ternaryOf : Yields w (Production.ternaryOf expression) := by
  unfold Production.ternaryOf
  infer_instance

instance newOf : Yields w (Production.newOf expression) := by
  have hrest : Yields w (do
      if ← Production.test fun env s => env.hasAhead s [.keyword .kwWith, .mark .leftBrace]
          || env.hasAhead s [.keyword .kwFrom, .mark .leftBrace] then Production.take
      if ← Production.atKind (.mark .leftBrace) then
        Production.child (Production.nested (Production.initializersOf expression))) := by
    dsimp only
    infer_instance
  have harguments : Yields w (do
      if ← Production.atKind (.mark .leftParen) then
        Production.child (Production.nested (Production.argumentsOf expression))
      if ← Production.test fun env s => env.hasAhead s [.keyword .kwWith, .mark .leftBrace]
          || env.hasAhead s [.keyword .kwFrom, .mark .leftBrace] then Production.take
      if ← Production.atKind (.mark .leftBrace) then
        Production.child (Production.nested (Production.initializersOf expression))) :=
    behind fun _ => either (behind fun _ => hrest) hrest
  exact nodeOf (behind fun _ => behind fun _ =>
    either harguments (behind fun _ => harguments))

instance primaryOf : Yields w (Production.primaryOf expression) := by
  refine into fun kind => ?_
  split
  case h_8 => exact into fun _ => inferInstance
  all_goals infer_instance

instance map {p : Parse Node} [Yields w p] : Yields w (Option.some <$> p) := by
  rw [map_eq_pure_bind]
  exact into fun _ => inferInstance

instance postfixOf : Yields w (Production.postfixOf expression) := by
  refine into fun primary => bind (iterate fun inner => ?_) fun inner _ => inferInstance
  refine into fun kind => ?_
  split <;> infer_instance

end

section

variable {operand : Int → Parse Node} [hoperand : ∀ level, Yields w (operand level)]

instance typeTestOf : Yields w (Production.typeTestOf operand) := by
  unfold Production.typeTestOf
  dsimp only
  exact into fun _ => inferInstance

instance unaryOf : Yields w (Production.unaryOf operand) := by
  refine into fun kind => ?_
  split
  case h_5 => infer_instance
  case h_6 => infer_instance
  all_goals exact into fun _ => inferInstance

instance extendOf {level : Int} {left : Node} [Clear w left] :
    Yields w (Production.extendOf operand level left) := by
  refine into fun kind => ?_
  split
  · infer_instance
  · split
    · infer_instance
    · exact into fun _ => inferInstance

end

instance expressionUpTo {room : Nat} {level : Int} :
    Yields w (Production.expressionUpTo room level) := by
  induction room generalizing level with
  | zero => exact tooDeep
  | succ room ih =>
    refine into fun _ => into fun left => iterate fun left => ?_
    infer_instance

instance expression : Yields w Production.expression := of_runs fun _ _ => ⟨_, expressionUpTo, rfl⟩

instance arguments : Yields w Production.arguments := by
  unfold Production.arguments
  infer_instance

instance initializers : Yields w Production.initializers := by
  unfold Production.initializers
  infer_instance

instance leftHandSide : Yields w Production.leftHandSide := by
  refine behind fun _ => nodeOf (behind fun kind => ?_)
  have hrest (first : Node) [Clear w first] : Yields w (do
      let target ← Production.iterate (fun inner => do
        match ← Production.peek with
        | .mark .dot => Option.some <$> Production.memberAccess inner
        | .mark .leftParen =>
          if ← Production.test fun env s => env.tokens.assignmentFollowsParens 0 s.cursor then
            Option.some <$> Production.elementAccessOf Production.expression inner
          else Option.some <$> Production.callOrIndexOf Production.expression inner
        | _ => return none) first
      unless target.isRule [.identifier, .memberAccess, .elementAccess] do
        Production.fail .assignmentTarget
      Production.attach target) := by
    refine @into _ _ _ _ _ _ _ (iterate fun inner => into fun kind => ?_) fun target => ?_
    · split <;> infer_instance
    · dsimp only
      infer_instance
  dsimp only
  split
  · exact bind inferInstance fun first _ => hrest first
  · refine either (bind inferInstance fun first _ => hrest first) ?_
    exact bind inferInstance fun first _ => hrest first

-- ---------------------------------------------------------------------------
-- Clauses
-- ---------------------------------------------------------------------------

instance arrayBounds : Yields w Production.arrayBounds := by
  unfold Production.arrayBounds
  infer_instance

instance arraySuffix : Yields w Production.arraySuffix := by
  unfold Production.arraySuffix
  infer_instance

instance asClause : Yields w Production.asClause := by
  unfold Production.asClause
  dsimp only
  infer_instance

instance optionalAsClause : Yields w Production.optionalAsClause := by
  unfold Production.optionalAsClause
  infer_instance

instance optionalValue {f : Field} : Yields w (Production.optionalValue f) := by
  unfold Production.optionalValue
  infer_instance

instance declarator : Yields w Production.declarator := by
  unfold Production.declarator
  dsimp only
  infer_instance

instance typeConstraint : Yields w Production.typeConstraint := by
  refine nodeOf (into fun kind => ?_)
  split <;> infer_instance

instance typeParameter : Yields w Production.typeParameter := by
  unfold Production.typeParameter
  infer_instance

instance typeParameters : Yields w Production.typeParameters := by
  unfold Production.typeParameters
  infer_instance

instance attributeItem : Yields w Production.attributeItem := by
  unfold Production.attributeItem
  dsimp only
  infer_instance

instance attributeBlock : Yields w Production.attributeBlock := by
  unfold Production.attributeBlock
  infer_instance

instance modifiers : Yields w Production.modifiers := by
  unfold Production.modifiers
  infer_instance

instance declarationPrefix : Yields w Production.declarationPrefix := by
  unfold Production.declarationPrefix
  dsimp only
  infer_instance

instance parameter : Yields w Production.parameter := by
  unfold Production.parameter
  dsimp only
  infer_instance

instance parameters : Yields w Production.parameters := by
  unfold Production.parameters
  dsimp only
  infer_instance

instance optionalParameters : Yields w Production.optionalParameters := by
  unfold Production.optionalParameters
  infer_instance

instance typeListClause {r : Rule} [Unwatched w r] {word : Keyword} :
    Yields w (Production.typeListClause r word) := by
  unfold Production.typeListClause
  infer_instance

instance inheritsClause : Yields w Production.inheritsClause := typeListClause

instance implementsClause : Yields w Production.implementsClause := typeListClause

instance handlesClause : Yields w Production.handlesClause := by
  unfold Production.handlesClause
  infer_instance

instance inheritanceClauses : Yields w Production.inheritanceClauses := by
  refine repeatWhileOf (into fun kind => ?_)
  split <;> infer_instance

instance memberClauses : Yields w Production.memberClauses := by
  refine repeatWhileOf (into fun kind => ?_)
  split <;> infer_instance

end

end Yields

end Production

end VisualBasic
