import VisualBasic.Proofs.Judgement

/-!
# Judgements about combinators

One lemma for every way in which the grammar puts productions together: choices, leaves, nodes,
repetition, recovery, ambiguities and blocks.

Main results:

* `Builds.node`, `Builds.block`, `Continues.nodeFrom` — a judgement of the body is one of the node.
* `Builds.orRecover`, `Steps.recovering`, `Steps.recoveringInPlace` — recovery from failures.
* `Builds.resolve` — an ambiguity is judged by its rules.
* `Fills.closeBlock`, `Fills.finishBlock` — a block is closed, or its node is partial.
-/

namespace VisualBasic.Production

open State

variable {α β : Type} {t : TokenStream} {m m₁ : Manner} {n n₁ : Nat} {b b₁ opened : Bool}

-- ---------------------------------------------------------------------------
-- Choices
-- ---------------------------------------------------------------------------

/-- Either branch may rely on how the test came out. -/
theorem Steps.ite {c : Prop} [Decidable c] {p q : Parse α} (hp : c → Steps m n b p)
    (hq : ¬c → Steps m n b q) : Steps m n b (if c then p else q) := by
  split
  · exact hp ‹_›
  · exact hq ‹_›

/-- Either branch may rely on how the test came out. -/
theorem Builds.ite {c : Prop} [Decidable c] {p q : Parse Node} (hp : c → Builds m n b p)
    (hq : ¬c → Builds m n b q) : Builds m n b (if c then p else q) := by
  split
  · exact hp ‹_›
  · exact hq ‹_›

/-- Something that is done on a condition, and what is done afterwards in either case. -/
theorem Steps.when {c : Prop} [Decidable c] {p : Parse α} {q : Parse β}
    (hp : Steps m₁ n₁ b₁ p) (hq : Steps m 0 b q) [AtMost m₁ m] [AtMost n₁ n] :
    Steps m n b (if c then p >>= fun _ => q else q) := by
  refine Steps.ite (fun _ => Steps.bind hp fun _ => ?_) fun _ => hq.mono
  cases b₁ with
  | false => exact hq.mono
  | true => exact hq.mono

/-- What may be read in front of the end of a node. -/
theorem Fills.when {c : Prop} [Decidable c] {p : Parse α} {q : Parse β}
    (hp : Steps m₁ n₁ b₁ p) (hq : Fills m opened 0 false q) [AtMost m₁ m] [AtMost n₁ 0] :
    Fills m opened 0 false (if c then p >>= fun _ => q else q) := by
  split
  · exact Fills.bind hp fun _ => hq
  · exact hq

/-- A choice by the kind at the cursor knows that there is a token where there is one. -/
theorem Steps.ifAt (kind : TokenKind) {p q : Parse α} (hp : Steps m 1 b p)
    (hq : Steps m n b q) [Holds kind.isPlain] :
    Steps m n b (atKind kind >>= fun x => if x = true then p else q) := by
  intro env s ready
  show Outcome _ _ _ _ ((atKind kind >>= _) env s)
  unfold atKind
  rw [(Looks.test _).run_bind]
  split
  · rename_i h
    refine hp env s (.of_kindAt_ne fun hend => kind.ne_endOfFile ?_)
    rw [← beq_iff_eq.1 h]
    exact hend
  · exact hq env s ready

/-- A choice by two kinds. -/
theorem Steps.ifEither {j k : TokenKind} {p q : Bool → Parse α} (hp : ∀ x, Steps m 1 b (p x))
    (hq : ∀ x, Steps m n b (q x)) [Holds j.isPlain] [Holds k.isPlain] :
    Steps m n b
      (atKind j >>= fun x => atKind k >>= fun y => if (x || y) = true then p x else q x) := by
  intro env s ready
  unfold atKind
  rw [(Looks.test _).run_bind, (Looks.test _).run_bind]
  split
  · rename_i h
    refine hp _ env s (.of_kindAt_ne fun hend => ?_)
    rcases Bool.or_eq_true_iff.1 h with h | h
    · exact j.ne_endOfFile (by rw [← beq_iff_eq.1 h]; exact hend)
    · exact k.ne_endOfFile (by rw [← beq_iff_eq.1 h]; exact hend)
  · exact hq _ env s ready

/-- Where tokens of given kinds are ahead, there are tokens ahead. -/
theorem ready_of_hasAhead {env : Env} {s : State} {kinds : List TokenKind}
    (hs : s.cursor ≤ env.tokens.tokens.size) (h : env.hasAhead s kinds = true)
    (hkinds : .endOfFile ∉ kinds) : env.tokens.Ready s.cursor kinds.length := by
  refine ⟨hs, fun k hk hend => hkinds ?_⟩
  have hmem : (kinds[k], k) ∈ kinds.zipIdx := by
    rw [List.mk_mem_zipIdx_iff_getElem?]
    exact List.getElem?_eq_getElem hk
  have hkind := List.all_eq_true.1 h _ hmem
  have heq : env.kindAhead s k = kinds[k] := beq_iff_eq.1 hkind
  rw [← hend, show env.tokens.kindAt (s.cursor + k) = kinds[k] from heq]
  exact List.getElem_mem hk

/-- Where the token behind the next one is known, there are two. -/
theorem ready_of_kindAhead {env : Env} {s : State} {kind : TokenKind}
    (hs : env.tokens.Ready s.cursor 1) (h : (env.kindAhead s 1 == kind) = true)
    [Holds kind.isPlain] : env.tokens.Ready s.cursor 2 := by
  refine .succ hs.kindAt_ne (.of_kindAt_ne ?_)
  rw [show env.tokens.kindAt (s.cursor + 1) = kind from beq_iff_eq.1 h]
  exact kind.ne_endOfFile

/-- A branch on the token behind the next one, of which the first has both ahead. -/
theorem Steps.ifNext {kind : TokenKind} {p q : Parse α} (hp : Steps m 2 b p)
    (hq : Steps m 1 b q) [Holds kind.isPlain] :
    Steps m 1 b (peekAhead 1 >>= fun x => if (x == kind) = true then p else q) := by
  intro env s ready
  rw [(Looks.peekAhead 1).run_bind]
  split
  · exact hp env s (ready_of_kindAhead ready ‹_›)
  · exact hq env s ready

/-- A choice by two rows of tokens ahead. -/
theorem Steps.ifAhead {k : Nat} {p q : Parse α} {ks ks' : List TokenKind} (hp : Steps m k b p)
    (hq : Steps m n b q) (hks : k ≤ ks.length ∧ .endOfFile ∉ ks)
    (hks' : k ≤ ks'.length ∧ .endOfFile ∉ ks') :
    Steps m n b (test (fun env s => env.hasAhead s ks || env.hasAhead s ks') >>= fun x =>
      if x = true then p else q) := by
  intro env s ready
  rw [(Looks.test _).run_bind]
  split
  · rename_i h
    refine hp env s ?_
    rcases Bool.or_eq_true_iff.1 h with h | h
    · exact (ready_of_hasAhead ready.le_size h hks.2).mono hks.1
    · exact (ready_of_hasAhead ready.le_size h hks'.2).mono hks'.1
  · exact hq env s ready

/-- What is done behind a look at the next token knows whether there is one. -/
theorem Steps.peek {k : TokenKind → Parse α} (hk : ∀ kind, Steps m kind.ahead b (k kind)) :
    Steps m n b (Production.peek >>= k) := by
  intro env s ready
  rw [Looks.peek.run_bind]
  exact hk _ env s (.ahead_kindAt ready.le_size)

/-- What is built behind a look at the next token has that token ahead. -/
theorem Builds.peek {k : TokenKind → Parse Node}
    (hk : ∀ kind, Builds m (max n kind.ahead) b (k kind)) :
    Builds m n b (Production.peek >>= k) := by
  intro env s ready
  rw [Looks.peek.run_bind]
  refine hk _ env s ?_
  rcases Nat.le_total n (env.kind s).ahead with h | h
  · rw [Nat.max_eq_right h]
    exact .ahead_kindAt ready.le_size
  · rw [Nat.max_eq_left h]
    exact ready

-- ---------------------------------------------------------------------------
-- Leaves
-- ---------------------------------------------------------------------------

/-- Reading the token at the cursor gives a leaf, wherever the leaf then goes. -/
theorem reading_leaf {env : Env} {s : State} (kind : NodeKind) (ready : env.tokens.Ready s.cursor 1)
    (hkind : kind.isLeaf = true) :
    env.next s.cursor = s.cursor + 1 ∧
      Reading env.tokens false s.cursor (env.next s.cursor)
        [.leaf kind (env.tokens.get s.cursor).span s.cursor] [] := by
  have hnext : env.next s.cursor = s.cursor + 1 := Nat.min_eq_left ready.lt_size
  rw [hnext]
  exact ⟨rfl, .leaf (.start ready.le_size) ready.kindAt_ne hkind⟩

/-- The token at the cursor becomes a leaf. -/
theorem run_take {env : Env} {s : State} (h : env.kind s ≠ .endOfFile) :
    take env s = .ok () (s.withLeaf env.tokens (.token (env.kind s))) := by
  have hnext : env.next s.cursor = s.cursor + 1 :=
    Env.next_eq_succ h
  unfold State.withLeaf
  rw [← hnext]
  rfl

/-- A leaf that has the rule for its kind. -/
theorem Builds.ruleLeaf (r : Rule) [Holds r.isPlain] :
    Builds .inPlace 1 true (Production.ruleLeaf r) := by
  intro env s ready
  obtain ⟨hnext, hr⟩ := reading_leaf (.rule r) ready Holds.eq_true
  exact ⟨fun _ => hnext ▸ Nat.lt_succ_self _, rfl, rfl, rfl, ⟨[], fun _ => rfl, hr, rfl⟩,
    ⟨rfl, rfl, rfl, rfl⟩⟩

/-- The production reads a single token. -/
def ReadsOne (p : Parse α) : Prop :=
  Steps .inPlace 1 true p ∧ ∀ env s a s', p env s = .ok a s' → s'.cursor = env.next s.cursor

/-- A token that is attached. -/
theorem ReadsOne.take : ReadsOne Production.take := by
  refine ⟨fun env s ready => ?_, fun env s a s' hrun => ?_⟩
  · obtain ⟨hnext, hr⟩ := reading_leaf (.token (env.kind s)) ready rfl
    refine ⟨fun _ => hnext ▸ Nat.lt_succ_self _, [], fun _ => rfl,
      ⟨⟨_, rfl, hr.of_gaps_false _, fun c hc => ?_⟩, rfl, rfl, rfl, rfl⟩⟩
    obtain rfl := List.mem_singleton.1 hc
    exact nofun
  · cases hrun
    rfl

/-- A token in a role. -/
theorem ReadsOne.tokenField (f : Field) [Holds f.isPlain] :
    ReadsOne (Production.field f tokenLeaf) := by
  refine ⟨fun env s ready => ?_, fun env s a s' hrun => ?_⟩
  · obtain ⟨hnext, hr⟩ := reading_leaf (.token (env.kind s)) ready rfl
    refine ⟨fun _ => hnext ▸ Nat.lt_succ_self _, [], fun _ => rfl,
      ⟨⟨_, rfl, (hr.inField f).of_gaps_false _, fun c hc => ?_⟩, rfl, rfl, rfl, rfl⟩⟩
    obtain rfl := List.mem_singleton.1 hc
    exact fun h => f.ne_thenBranch (Option.some.inj h)
  · cases hrun
    rfl

/-- Reading a single token leaves one token less ahead. -/
theorem ReadsOne.run {p : Parse α} (hp : ReadsOne p) {env : Env} {s : State}
    (ready : env.tokens.Ready s.cursor (n + 1)) :
    Outcome .inPlace env.tokens s
      (fun _ s' => s.cursor < s'.cursor ∧ Stepped .inPlace env.tokens s s' ∧
        env.tokens.Ready s'.cursor n) (p env s) := by
  have hrun := hp.1 env s (ready.mono (Nat.succ_le_succ (Nat.zero_le n)))
  cases hres : p env s with
  | error f s' =>
    rw [hres] at hrun
    exact hrun
  | ok a s' =>
    rw [hres] at hrun
    refine ⟨hrun.1 rfl, hrun.2, ?_⟩
    have hnext : s'.cursor = s.cursor + 1 := by
      rw [hp.2 env s a s' hres]
      exact Nat.min_eq_left ready.lt_size
    rw [hnext]
    exact ready.next

/-- Behind a token that is read, one less need be ahead. -/
theorem Steps.one {p : Parse α} {k : α → Parse β} (hp : ReadsOne p)
    (hk : ∀ a, Steps m n false (k a)) : Steps m (n + 1) b (p >>= k) := by
  intro env s ready
  refine ((hp.run ready).mono (Manner.inPlace_le m) fun _ _ h => h).bind ?_
  rintro a s₁ ⟨hlt, hs₁, ready₁⟩
  replace hs₁ := hs₁.mono (Manner.inPlace_le m)
  refine Outcome.after hs₁ (hk a env s₁ ready₁) ?_
  rintro _ s' ⟨-, hs'⟩
  exact ⟨fun _ => Nat.lt_of_lt_of_le hlt hs'.le_cursor, hs₁.trans hs'⟩

/-- Behind a token that is read, one less need be ahead to complete the node. -/
theorem Fills.one {p : Parse α} {k : α → Parse β} (hp : ReadsOne p)
    (hk : ∀ a, Fills m opened n false (k a)) : Fills m opened (n + 1) b (p >>= k) := by
  intro env s ready hpartial
  refine (hp.run ready).loud.bind ?_
  rintro a s₁ ⟨hlt, hs₁, ready₁⟩
  replace hs₁ := hs₁.mono (Manner.inPlace_le m)
  have hpartial₁ : s₁.isPartial = false := by
    obtain ⟨_, _, ha⟩ := hs₁
    rw [ha.isPartial, hpartial]
  refine (hk a env s₁ ready₁ hpartial₁).behind hs₁.le_cursor ?_
  rintro _ s' ⟨-, hs', hfield⟩
  exact ⟨fun _ => Nat.lt_of_lt_of_le hlt hs'.le_cursor, hs₁.completed hs',
    hs₁.noThenBranch.trans hfield⟩

/-- Attaching what a production gives, in whatever role. -/
theorem Builds.attached {p : Parse Node} {place : Node → Node} (hp : Builds m n b p)
    (hplace : ∀ x, place x = x ∨ ∃ f, f ≠ .thenBranch ∧ place x = x.inField f) :
    Steps m n b (p >>= fun x => attach (place x)) := by
  intro env s ready
  refine (hp env s ready).bind ?_
  rintro x s' ⟨hmoves, hx⟩
  exact ⟨hmoves, hx.attached (hplace x)⟩

/-- A node that is attached. -/
theorem Steps.child {p : Parse Node} (hp : Builds m n b p) : Steps m n b p.child :=
  hp.attached fun _ => .inl rfl

/-- A node that is attached in a role. -/
theorem Steps.field (f : Field) {p : Parse Node} (hp : Builds m n b p) [Holds f.isPlain] :
    Steps m n b (Production.field f p) :=
  hp.attached fun _ => .inr ⟨f, f.ne_thenBranch, rfl⟩

/-- Productions do not care how deep they are nested, so far as readings go. -/
theorem Builds.nested {p : Parse Node} (hp : Builds m n b p) : Builds m n b p.nested :=
  fun env s ready => hp { env with depth := env.depth + 1 } s ready

/-- What is done below the limit of nesting may fail at the limit. -/
theorem Outcome.checkDepth {p : Parse α} {env : Env} {s : State} {good : α → State → Prop}
    (hs : s.cursor ≤ env.tokens.tokens.size) (hp : Outcome m env.tokens s good (p env s)) :
    Outcome m env.tokens s good ((Production.checkDepth >>= fun _ => p) env s) := by
  rw [run_bind]
  unfold Production.checkDepth
  split
  · rename_i h
    split at h
    · cases h
    · cases h
      exact hp
  · rename_i h
    split at h
    · cases h
      exact Failed.here (Nat.le_refl _) hs
    · cases h

/-- A node behind a check of the depth. -/
theorem Builds.checkDepth {p : Parse Node} (hp : Builds m n b p) :
    Builds m n b (Production.checkDepth >>= fun _ => p) :=
  fun env s ready => Outcome.checkDepth ready.le_size (hp env s ready)

/-! ### Tokens that have to be there -/

/-- A token of the kind is read, or the production fails in front of it. -/
theorem Steps.expect {kind : TokenKind} [Holds kind.isPlain] :
    Steps .inPlace 0 true (Production.expect kind) :=
  Steps.ifAt _ ReadsOne.take.1 (Steps.fail _)

/-- A word that has to be there. -/
theorem Steps.expectWord (word : Keyword) : Steps .inPlace 0 true (Production.expectWord word) :=
  Steps.expect

/-- A mark that has to be there. -/
theorem Steps.expectMark (mark : Mark) : Steps .inPlace 0 true (Production.expectMark mark) :=
  Steps.expect

/-- A closing mark that has to be there. -/
theorem Steps.expectEnd (mark : Mark) : Steps .inPlace 0 true (Production.expectEnd mark) :=
  Steps.ifAt _ ReadsOne.take.1 (Steps.fail _)

/-- A token of the kind is read if it is there. -/
theorem Steps.accept {kind : TokenKind} [Holds kind.isPlain] :
    Steps .inPlace 0 false (Production.accept kind) := by
  refine Steps.ifAt _ ?_ (Steps.pure _)
  exact Steps.bind ReadsOne.take.1 fun _ => Steps.pure _

/-- A word that may be there. -/
theorem Steps.acceptWord (word : Keyword) : Steps .inPlace 0 false (Production.acceptWord word) :=
  Steps.accept

/-- A mark that may be there. -/
theorem Steps.acceptMark (mark : Mark) : Steps .inPlace 0 false (Production.acceptMark mark) :=
  Steps.accept

/-- A name is one token. -/
theorem Builds.identifier : Builds .inPlace 0 true Production.identifier := by
  refine Builds.peek fun kind => ?_
  split
  · rename_i h
    rw [TokenKind.ahead_of h rfl]
    exact Builds.ruleLeaf .identifier
  · exact Builds.fail _

/-- The name of a member is one token. -/
theorem Builds.memberName : Builds .inPlace 0 true Production.memberName := by
  refine Builds.peek fun kind => ?_
  split
  · exact Builds.ruleLeaf .identifier
  · exact Builds.ruleLeaf .identifier
  · exact Builds.fail _

/-- A token that becomes the leaf of a rule. -/
theorem ReadsOne.ruleChild (r : Rule) [Holds r.isPlain] :
    ReadsOne (Production.child (ruleLeaf r)) :=
  ⟨Steps.child (Builds.ruleLeaf r), fun _ _ _ _ hrun => by cases hrun; rfl⟩

/-- A token that becomes the leaf of a rule, in a role. -/
theorem ReadsOne.ruleField (f : Field) (r : Rule) [Holds f.isPlain] [Holds r.isPlain] :
    ReadsOne (Production.field f (ruleLeaf r)) :=
  ⟨Steps.field f (Builds.ruleLeaf r), fun _ _ _ _ hrun => by cases hrun; rfl⟩

/-- A name in a role. -/
theorem ReadsOne.identifierField (f : Field) [Holds f.isPlain] :
    ReadsOne (Production.field f Production.identifier) := by
  refine ⟨(Steps.field f Builds.identifier).mono, fun env s a s' hrun => ?_⟩
  unfold Production.field Production.identifier at hrun
  rw [run_bind, Looks.peek.run_bind] at hrun
  split at hrun
  · rename_i h
    split at h
    · cases h
      cases hrun
      rfl
    · cases h
  · cases hrun

/-! ### Terminators -/

/-- A terminator may be passed without a trace. -/
theorem outcome_skip {env : Env} {s : State} (hs : (env.kind s).isTerminator = true) :
    Outcome m env.tokens s
      (fun _ s' => s.cursor < s'.cursor ∧ Stepped m env.tokens s s') (skip env s) := by
  have ready : env.tokens.Ready s.cursor 1 := .of_kindAt_ne fun hend => by
    have hs' : (env.tokens.kindAt s.cursor).isTerminator = true := hs
    rw [hend] at hs'
    exact Bool.noConfusion hs'
  have hnext : env.next s.cursor = s.cursor + 1 := Nat.min_eq_left ready.lt_size
  refine ⟨?_, [], fun _ => rfl, ⟨⟨[], rfl, ?_, fun _ hc => absurd hc List.not_mem_nil⟩, rfl, rfl,
    rfl, rfl⟩⟩
  · show s.cursor < env.next s.cursor
    omega
  · show Reading env.tokens m.gaps s.cursor (env.next s.cursor) [] []
    rw [hnext]
    exact .terminator (.start ready.le_size) hs

/-- A terminator is skipped where a look finds one. -/
theorem Steps.skipThen {look : Env → State → Bool} {p q : Parse α}
    (hlook : ∀ env s, look env s = true → (env.kind s).isTerminator = true)
    (hp : Steps m 0 false p) (hq : Steps m n false q) :
    Steps m n false (test look >>= fun x => if x = true then skip >>= fun _ => p else q) := by
  intro env s ready
  rw [(Looks.test look).run_bind]
  split
  · refine (outcome_skip (hlook env s ‹_›)).bind ?_
    rintro _ s₁ ⟨-, hs₁⟩
    refine Outcome.after hs₁ (hp env s₁ hs₁.ready) ?_
    rintro _ s' ⟨-, hs'⟩
    exact ⟨fun h => Bool.noConfusion h, hs₁.trans hs'⟩
  · exact hq env s ready

/-- A line end is a terminator. -/
theorem isTerminator_of_newline (env : Env) (s : State)
    (h : (env.kind s == .newline) = true) : (env.kind s).isTerminator = true := by
  rw [beq_iff_eq.1 h]
  rfl

/-- The end of a statement is skipped or only looked at. -/
theorem Steps.endStatement : Steps .inPlace 0 false Production.endStatement := by
  intro env s ready
  unfold Production.endStatement
  rw [Looks.peek.run_bind]
  split
  · refine (outcome_skip ‹_›).mono (Manner.le_refl _) ?_
    rintro _ s' ⟨-, hs'⟩
    exact ⟨fun h => Bool.noConfusion h, hs'⟩
  · unfold Production.atTerminator
    rw [(Looks.test _).run_bind]
    split
    · exact Steps.pure () env s ready
    · exact Steps.fail _ env s ready

-- ---------------------------------------------------------------------------
-- Nodes
-- ---------------------------------------------------------------------------

/-- A failure inside a node drops the node. -/
theorem failed_construct {s s' : State} {f : Failure}
    (h : Failed m t { s with children := [], isPartial := false } f s')
    (hm : m = .inPlace → False) :
    Failed m t s f { s' with children := s.children, isPartial := s.isPartial } := by
  refine ⟨h.le_cursor, h.cursor_le, h.index_le, fun hq => ?_⟩
  obtain ⟨stop, hstop, ha, -⟩ := h.kept hq
  refine ⟨s.cursor, h.le_cursor, ⟨⟨[], rfl, ?_, fun _ hc => absurd hc List.not_mem_nil⟩,
    ha.diagnostics, rfl, ha.blocks, ha.singleLineIfs⟩, fun hin => (hm hin).elim⟩
  exact .start (Nat.le_trans h.le_cursor (Nat.le_trans h.cursor_le h.index_le))

/-- The node over what its body has read, where the body closes no block. -/
theorem built_of_stepped {s s' : State} {r : Rule}
    (h : Stepped m t { s with children := [], isPartial := false } s') (hm : m ≤ .loud)
    (hrule : r ≠ .error)
    (shape : Shape t r s.cursor s'.cursor s'.isPartial s'.children.reverse) :
    Built m t s
      (.finish (.rule r) (t.spanFrom s.cursor s'.cursor) s.cursor s'.isPartial s'.children.reverse)
      { s' with children := s.children, isPartial := s.isPartial } := by
  obtain ⟨ds, hds, ha⟩ := h
  obtain ⟨new, hnew, hr, -⟩ := ha.children
  rw [Manner.gaps_eq_false_of_le hm] at hr
  have hclosing : Closing t s'.cursor s'.isPartial [] := by
    rw [ha.isPartial]
    exact .closed
  rw [List.append_nil] at hnew
  rw [hnew] at shape ⊢
  have hnode := hr.ofBody hclosing hrule (fun h => Bool.noConfusion h) shape
  exact ⟨rfl, rfl, rfl, ⟨ds, hds, hnode, ha.diagnostics⟩, ⟨rfl, rfl, ha.blocks, ha.singleLineIfs⟩⟩

/-- The node over what its body has filled in. -/
theorem built_of_completed {s s' : State} {r : Rule}
    (h : Completed m false t { s with children := [], isPartial := false } s')
    (hrule : r ≠ .error) (hinner : m.gaps = true → r.keepsBrokenHeader = true)
    (shape : Shape t r s.cursor s'.cursor s'.isPartial s'.children.reverse) :
    Built .loud t s
      (.finish (.rule r) (t.spanFrom s.cursor s'.cursor) s.cursor s'.isPartial s'.children.reverse)
      { s' with children := s.children, isPartial := s.isPartial } := by
  obtain ⟨new, ds, fs, hnew, hr, hclosing, hd⟩ := h.reading
  rw [List.append_nil] at hnew
  rw [hnew] at shape ⊢
  have hnode := hr.ofBody hclosing hrule hinner shape
  exact ⟨rfl, rfl, rfl, ⟨fs ++ ds, fun hq => absurd hq (by decide), hnode, hd⟩,
    ⟨rfl, rfl, h.blocks, h.singleLineIfs⟩⟩

/-- What comes of a node whose body is quiet and moves on. -/
theorem outcome_quietNode {env : Env} {s : State} {r : Rule} {body : Parse Unit}
    (hbody : Outcome .quiet env.tokens { s with children := [], isPartial := false }
      (fun _ s' => s.cursor < s'.cursor ∧
        Stepped .quiet env.tokens { s with children := [], isPartial := false } s')
      (body env { s with children := [], isPartial := false }))
    [Holds r.isPlain] :
    Outcome .quiet env.tokens s
      (fun x s' => s.cursor < s'.cursor ∧ Built .quiet env.tokens s x s')
      (Production.node r body env s) := by
  unfold Production.node
  rw [Parse.construct_eq]
  cases hres : body env { s with children := [], isPartial := false } with
  | ok a s' =>
    rw [hres] at hbody
    obtain ⟨hmoves, hs'⟩ := hbody
    exact ⟨hmoves, built_of_stepped hs' (by decide) r.ne_error (.plain (.inl hmoves))⟩
  | error f s' =>
    rw [hres] at hbody
    exact failed_construct hbody nofun

/-- A plain rule around what is quiet. -/
theorem Builds.node {r : Rule} {body : Parse Unit} (hbody : Steps .quiet n true body)
    [Holds r.isPlain] : Builds .quiet n true (Production.node r body) := by
  intro env s ready
  have hrun := hbody env { s with children := [], isPartial := false } ready
  refine (outcome_quietNode (hrun.mono (Manner.le_refl _) ?_)).mono (Manner.le_refl _) ?_
  · exact fun _ _ h => ⟨h.1 rfl, h.2⟩
  · exact fun _ _ h => ⟨fun _ => h.1, h.2⟩

/-- What comes of a node whose body may leave diagnostics. -/
theorem outcome_node {env : Env} {s : State} {r : Rule} {body : Parse Unit}
    (hbody : Outcome .loud env.tokens { s with children := [], isPartial := false }
      (fun _ s' => s.cursor < s'.cursor ∧
        Completed m false env.tokens { s with children := [], isPartial := false } s' ∧
        Shape env.tokens r s.cursor s'.cursor s'.isPartial s'.children.reverse)
      (body env { s with children := [], isPartial := false }))
    (hrule : r ≠ .error) (hinner : m.gaps = true → r.keepsBrokenHeader = true) :
    Outcome .loud env.tokens s
      (fun x s' => (b = true → s.cursor < s'.cursor) ∧ Built .loud env.tokens s x s')
      (Production.node r body env s) := by
  unfold Production.node
  rw [Parse.construct_eq]
  cases hres : body env { s with children := [], isPartial := false } with
  | ok a s' =>
    rw [hres] at hbody
    obtain ⟨hmoves, hs', shape⟩ := hbody
    exact ⟨fun _ => hmoves, built_of_completed hs' hrule hinner shape⟩
  | error f s' =>
    rw [hres] at hbody
    exact failed_construct hbody nofun

/-- A plain rule around what completes the node. -/
theorem Builds.block {r : Rule} (m : Manner) {body : Parse Unit}
    (hbody : Fills m false n true body) [Holds r.isPlain] [Holds (m.suits r)] :
    Builds .loud n true (Production.node r body) := by
  intro env s ready
  have hrun := hbody env { s with children := [], isPartial := false } ready rfl
  refine outcome_node (hrun.mono (Manner.le_refl _) ?_) r.ne_error (m.keepsBrokenHeader_of_gaps r)
  rintro _ s' ⟨hmoves, hs', -⟩
  exact ⟨hmoves rfl, hs', .plain (.inl (hmoves rfl))⟩

/-! ### Nodes that begin with a finished one -/

section

variable {x : Node}

/-- What comes of a node whose body begins with a node that is built: the body runs as if the node
under construction had begun where the first one did. -/
theorem outcome_nodeFrom {env : Env} {s₀ s : State} {r : Rule} {body : Parse Unit}
    (good : List Node → Nat → Prop) (hx : Built m env.tokens s₀ x s)
    (hbody : Outcome m env.tokens { s₀ with children := [], isPartial := false }
      (fun _ s' => Stepped m env.tokens { s₀ with children := [], isPartial := false } s' ∧
        Shape env.tokens r s₀.cursor s'.cursor s'.isPartial s'.children.reverse ∧
        good s'.children.reverse s'.cursor)
      (body env { s with children := [], isPartial := false }))
    (hrule : r ≠ .error) [hm : AtMost m .loud] [hin : AtMost .quiet m] :
    Outcome m env.tokens s₀
      (fun y s' => Built m env.tokens s₀ y s' ∧ good y.children s'.cursor)
      (Production.nodeFrom x r body env s) := by
  rw [Parse.nodeFrom_eq, Parse.construct_eq, hx.firstToken]
  cases hres : body env { s with children := [], isPartial := false } with
  | ok a s' =>
    rw [hres] at hbody
    obtain ⟨hs', shape, hgood⟩ := hbody
    simp only [hx.same.children, hx.same.isPartial]
    exact ⟨built_of_stepped hs' hm.le hrule shape, hgood⟩
  | error f s' =>
    rw [hres] at hbody
    simp only [hx.same.children, hx.same.isPartial]
    exact failed_construct hbody fun h => Manner.ne_inPlace_of_le hin.le h

/-- A plain rule that begins with the node at hand. -/
theorem Continues.nodeFrom {r : Rule} {body : Parse Unit} (hbody : Attaches m n x body)
    [AtMost m .loud] [AtMost .quiet m] [Holds r.isPlain] :
    Continues m n x (Production.nodeFrom x r body) := by
  intro env s₀ s hx ready
  have hnode := outcome_nodeFrom (r := r) (fun _ i => s.cursor ≤ i) hx
    ((hbody env _ _ hx.begins ready).mono (Manner.le_refl m) ?_) r.ne_error
  · exact hnode.mono (Manner.le_refl m) fun _ _ h => ⟨h.2, h.1⟩
  · rintro _ s' ⟨hle, hs'⟩
    exact ⟨hs', .plain (hx.passes.mono hle), hle⟩

/-- The node at hand is attached. -/
theorem Attaches.attach : Attaches m n x (Production.attach x) :=
  fun _ _ _ hx _ => ⟨Nat.le_refl _, hx.attached (.inl rfl)⟩

/-- A plain rule around the node at hand alone. -/
theorem Continues.wrap (r : Rule) [AtMost m .loud] [AtMost .quiet m] [Holds r.isPlain] :
    Continues m n x (Production.wrap r x) :=
  Continues.nodeFrom Attaches.attach

/-- What is done behind a node that is attached. -/
theorem attaches_of_stepped {k : Parse α} {env : Env} {s₀ s s₁ : State}
    (hle : s.cursor ≤ s₁.cursor) (hs₁ : Stepped m env.tokens s₀ s₁) (hk : Steps m n b k)
    (ready : env.tokens.Ready s₁.cursor n) :
    Outcome m env.tokens s₀
      (fun _ s' => s.cursor ≤ s'.cursor ∧ Stepped m env.tokens s₀ s') (k env s₁) := by
  refine Outcome.after hs₁ (hk env s₁ ready) ?_
  rintro _ s' ⟨-, hs'⟩
  exact ⟨Nat.le_trans hle hs'.le_cursor, hs₁.trans hs'⟩

/-- The node at hand in a role, and what is read behind it. -/
theorem Attaches.attachInField (f : Field) {k : Parse α} (hk : Steps m n b k)
    [Holds f.isPlain] :
    Attaches m n x (Production.attach (x.inField f) >>= fun _ => k) := by
  intro env s₀ s hx ready
  rw [run_bind]
  exact attaches_of_stepped (Nat.le_refl _) (hx.attached (.inr ⟨f, f.ne_thenBranch, rfl⟩)) hk ready

/-- A plain rule around the node at hand, in a role, and what is read behind it. -/
theorem Attaches.fieldWrap (f : Field) (r : Rule) {k : Parse α} (hk : Steps m 0 b k)
    [AtMost m .loud] [AtMost .quiet m] [Holds f.isPlain] [Holds r.isPlain] :
    Attaches m 0 x (Production.field f (Production.wrap r x) >>= fun _ => k) := by
  intro env s₀ s hx ready
  have hwrapped : Outcome m env.tokens s₀
      (fun _ s₁ => s.cursor ≤ s₁.cursor ∧ Stepped m env.tokens s₀ s₁)
      (Production.field f (Production.wrap r x) env s) := by
    refine (Continues.wrap r env s₀ s hx ready).bind ?_
    rintro y s₁ ⟨hle, hy⟩
    exact ⟨hle, hy.attached (.inr ⟨f, f.ne_thenBranch, rfl⟩)⟩
  refine hwrapped.bind ?_
  rintro _ s₁ ⟨hle, hs₁⟩
  exact attaches_of_stepped hle hs₁ hk hs₁.ready

/-- A failure drops the node at hand. -/
theorem Attaches.fail (e : Expected) [hin : AtMost .quiet m] :
    Attaches m n x (Production.fail e : Parse α) :=
  fun _ _ _ hx _ =>
    hx.failed (fun h => absurd h (Manner.ne_inPlace_of_le hin.le)) (Nat.le_refl _) hx.cursor_le

/-- A failure drops the node at hand, whatever stands behind it. -/
theorem Attaches.failThen (e : Expected) {k : α → Parse β} [AtMost .quiet m] :
    Attaches m n x (Production.fail e >>= k) := by
  intro env s₀ s hx ready
  rw [run_bind]
  exact Attaches.fail e env s₀ s hx ready

/-! ### From one judgement to the next -/

/-- A node, and then what attaches it. -/
theorem Builds.attaching {p : Parse Node} {k : Node → Parse α} (hp : Builds m₁ n b p)
    (hk : ∀ x, Attaches m 0 x (k x)) [hm : AtMost m₁ m] : Steps m n b (p >>= k) := by
  intro env s ready
  refine ((hp env s ready).mono hm.le fun _ _ h => h).bind ?_
  rintro x s₁ ⟨hmoves, hx⟩
  refine (hk x env s s₁ (hx.mono hm.le) hx.ready).mono (Manner.le_refl m) ?_
  rintro _ s' ⟨hle, hs'⟩
  exact ⟨fun h => Nat.lt_of_lt_of_le (hmoves h) hle, hs'⟩

/-- A node, and then what builds a larger one from it. -/
theorem Builds.continuing {p : Parse Node} {k : Node → Parse Node}
    (hp : Builds m₁ n b p) (hk : ∀ x, Continues m 0 x (k x)) [hm : AtMost m₁ m] :
    Builds m n b (p >>= k) := by
  intro env s ready
  refine ((hp env s ready).mono hm.le fun _ _ h => h).bind ?_
  rintro x s₁ ⟨hmoves, hx⟩
  refine (hk x env s s₁ (hx.mono hm.le) hx.ready).mono (Manner.le_refl m) ?_
  rintro _ s' ⟨hle, hs'⟩
  exact ⟨fun h => Nat.lt_of_lt_of_le (hmoves h) hle, hs'⟩

/-- A larger node, and then what attaches that one. -/
theorem Continues.attaching {p : Parse Node} {k : Node → Parse α}
    (hp : Continues m n x p) (hk : ∀ y, Attaches m 0 y (k y)) : Attaches m n x (p >>= k) := by
  intro env s₀ s hx ready
  refine (hp env s₀ s hx ready).bind ?_
  rintro y s₁ ⟨hle, hy⟩
  refine (hk y env s₀ s₁ hy hy.ready).mono (Manner.le_refl m) ?_
  rintro _ s' ⟨hle', hs'⟩
  exact ⟨Nat.le_trans hle hle', hs'⟩

/-- A larger node, and then what builds one that is larger still. -/
theorem Continues.continuing {p : Parse Node} {k : Node → Parse Node}
    (hp : Continues m n x p) (hk : ∀ y, Continues m 0 y (k y)) : Continues m n x (p >>= k) := by
  intro env s₀ s hx ready
  refine (hp env s₀ s hx ready).bind ?_
  rintro y s₁ ⟨hle, hy⟩
  refine (hk y env s₀ s₁ hy hy.ready).mono (Manner.le_refl m) ?_
  rintro _ s' ⟨hle', hs'⟩
  exact ⟨Nat.le_trans hle hle', hs'⟩

/-- What builds a larger node perhaps builds one. -/
theorem Continues.extending {p : Parse Node} (hp : Continues m n x p) :
    Extends m n x (some <$> p) := by
  intro env s₀ s hx ready
  rw [map_eq_pure_bind]
  exact (hp env s₀ s hx ready).bind fun y s' h => h

/-- No larger node. -/
theorem Extends.none : Extends m n x (Pure.pure none) := fun _ _ _ _ _ => rfl

/-- What is done behind a look at the next token has that token ahead. -/
theorem Extends.peek {k : TokenKind → Parse (Option Node)}
    (hk : ∀ kind, Extends m kind.ahead x (k kind)) : Extends m n x (Production.peek >>= k) := by
  intro env s₀ s hx _
  rw [Looks.peek.run_bind]
  exact hk _ env s₀ s hx (.ahead_kindAt hx.cursor_le)

/-- A look does not touch the node at hand. -/
theorem Extends.look {p : Parse α} {seen : Env → State → α}
    {k : α → Parse (Option Node)} (hp : Looks p seen) (hk : ∀ a, Extends m n x (k a)) :
    Extends m n x (p >>= k) := by
  intro env s₀ s hx ready
  rw [hp.run_bind]
  exact hk _ env s₀ s hx ready

end

-- ---------------------------------------------------------------------------
-- Repetition
-- ---------------------------------------------------------------------------

/-- Rounds that each may build a larger node. -/
theorem Continues.iterateUpTo {step : Node → Parse (Option Node)}
    (hstep : ∀ x, Extends m 0 x (step x)) (k : Nat) (x : Node) :
    Continues m 0 x (Production.iterateUpTo step k x) := by
  -- The node that is built grows from round to round.
  induction k generalizing x with
  | zero => exact fun _ _ _ hx _ => ⟨Nat.le_refl _, hx⟩
  | succ k ih =>
    intro env s₀ s hx _
    have hrun := hstep x env s₀ s hx hx.ready
    rw [Production.iterateUpTo]
    cases hres : step x env s with
    | error f s₁ =>
      rw [hres] at hrun
      exact hrun
    | ok y s₁ =>
      rw [hres] at hrun
      cases y with
      | none =>
        obtain rfl : s₁ = s := hrun
        exact ⟨Nat.le_refl _, hx⟩
      | some y =>
        obtain ⟨hle, hy⟩ := hrun
        refine (ih y env s₀ s₁ hy hy.ready).mono (Manner.le_refl m) ?_
        rintro z s' ⟨hle', hz⟩
        exact ⟨Nat.le_trans hle hle', hz⟩

/-- A node that grows as long as something extends it. -/
theorem Continues.iterate {step : Node → Parse (Option Node)}
    (hstep : ∀ x, Extends m 0 x (step x)) (x : Node) :
    Continues m 0 x (Production.iterate step x) :=
  fun env s₀ s hx ready => Continues.iterateUpTo hstep _ x env s₀ s hx ready

/-- Rounds that each go on with the reading. -/
theorem Steps.iterateUpTo {step : α → Parse (Option α)} (hstep : ∀ x, Steps m 0 false (step x))
    (k : Nat) (x : α) : Steps m 0 false (Production.iterateUpTo step k x) := by
  induction k generalizing x with
  | zero => exact Steps.pure x
  | succ k ih =>
    intro env s ready
    have hrun := hstep x env s ready
    rw [Production.iterateUpTo]
    cases hres : step x env s with
    | error f s₁ =>
      rw [hres] at hrun
      exact hrun
    | ok y s₁ =>
      rw [hres] at hrun
      obtain ⟨-, hs₁⟩ := hrun
      cases y with
      | none => exact ⟨fun h => Bool.noConfusion h, hs₁⟩
      | some y =>
        refine Outcome.after hs₁ (ih y env s₁ hs₁.ready) ?_
        rintro _ s' ⟨-, hs'⟩
        exact ⟨fun h => Bool.noConfusion h, hs₁.trans hs'⟩

/-- Rounds without a value. -/
theorem Steps.repeatWhile {step : Parse Bool} (hstep : Steps m 0 false step) :
    Steps m 0 false (Production.repeatWhile step) := by
  intro env s ready
  refine Steps.iterateUpTo (fun _ => ?_) _ () env s ready
  exact Steps.bind hstep fun _ => Steps.pure _

/-- A repetition does its first round, which decides on whether it moves. -/
theorem outcome_repeatWhile (step : Parse Bool) {env : Env} {s : State}
    (hs : s.cursor ≤ env.tokens.tokens.size)
    (hfirst : Outcome m env.tokens s
      (fun _ s' => s.cursor < s'.cursor ∧ Stepped m env.tokens s s') (step env s))
    (hstep : Steps m 0 false step) :
    Outcome m env.tokens s
      (fun _ s' => s.cursor < s'.cursor ∧ Stepped m env.tokens s s')
      (Production.repeatWhile step env s) := by
  obtain ⟨rounds, hrounds⟩ : ∃ k, env.tokens.size - s.cursor = k + 1 :=
    Nat.exists_eq_succ_of_ne_zero (by
      unfold TokenStream.size
      omega)
  let round (_ : Unit) : Parse (Option Unit) := do return if ← step then some () else none
  have hround (x : Unit) : Steps m 0 false (round x) :=
    Steps.bind hstep fun _ => Steps.pure _
  have hrun : Outcome m env.tokens s
      (fun _ s' => s.cursor < s'.cursor ∧ Stepped m env.tokens s s') (round () env s) :=
    hfirst.bind fun _ _ h => h
  show Outcome _ _ _ _ (Production.iterateUpTo round (env.tokens.size - s.cursor) () env s)
  rw [hrounds, Production.iterateUpTo]
  cases hres : round () env s with
  | error f s₁ =>
    rw [hres] at hrun
    exact hrun
  | ok y s₁ =>
    rw [hres] at hrun
    obtain ⟨hmoves, hs₁⟩ := hrun
    cases y with
    | none => exact ⟨hmoves, hs₁⟩
    | some y =>
      refine Outcome.after hs₁ (Steps.iterateUpTo hround rounds y env s₁ hs₁.ready) ?_
      rintro _ s' ⟨-, hs'⟩
      exact ⟨Nat.lt_of_lt_of_le hmoves hs'.le_cursor, hs₁.trans hs'⟩

/-- Where the first round reads a token, so do all of them together. -/
theorem Steps.repeatWhileMoving {step : Parse Bool} (hstep : Steps m 0 true step) :
    Steps m 0 true (Production.repeatWhile step) := by
  intro env s ready
  have hrun := outcome_repeatWhile (m := m) step ready.le_size ?_ hstep.still
  · exact hrun.mono (Manner.le_refl m) fun _ _ h => ⟨fun _ => h.1, h.2⟩
  · exact (hstep env s ready).mono (Manner.le_refl m) fun _ _ h => ⟨h.1 rfl, h.2⟩

/-- Items and the commas between them. -/
theorem Steps.commaSeparated {item : Parse Unit} (hitem : Steps m 0 b item) :
    Steps m 0 b (Production.commaSeparated item) := by
  refine Steps.bind hitem fun _ => ?_
  have hrest : Steps m 0 false (Production.repeatWhile do
      if ← Production.acceptMark .comma then
        item
        return true
      return false) := by
    refine Steps.repeatWhile (Steps.bind (Steps.acceptMark .comma) fun _ => ?_)
    refine Steps.ite (fun _ => ?_) fun _ => Steps.pure _
    exact Steps.bind hitem fun _ => Steps.pure _
  cases b with
  | false => exact hrest
  | true => exact hrest

/-- Line ends are skipped. -/
theorem Steps.skipNewlines : Steps .inPlace 0 false Production.skipNewlines :=
  Steps.repeatWhile (Steps.skipThen isTerminator_of_newline (Steps.pure _) (Steps.pure _))

-- ---------------------------------------------------------------------------
-- Recovery
-- ---------------------------------------------------------------------------

/-- The cursor moves on within the text. -/
theorem le_next {env : Env} {i : Nat} (hi : i ≤ env.tokens.tokens.size) :
    i ≤ env.next i ∧ env.next i ≤ env.tokens.tokens.size :=
  ⟨Nat.le_min.2 ⟨Nat.le_succ i, hi⟩, Nat.min_le_right _ _⟩

/-- An error region goes forward and stays within the tokens. -/
theorem regionEnd_bounds (env : Env) (inLine : Bool) (start index : Nat)
    (hi : index ≤ env.tokens.tokens.size) :
    index ≤ regionEnd env inLine start index ∧
      regionEnd env inLine start index ≤ env.tokens.tokens.size := by
  fun_induction regionEnd env inLine start index with
  | case1 index => exact ⟨Nat.le_refl _, hi⟩
  | case2 index | case3 index => exact le_next hi
  | case4 index => exact ⟨Nat.le_refl _, hi⟩
  | case5 index _ _ hlt ih | case7 index hlt _ _ _ _ ih =>
    obtain ⟨hle, hsize⟩ := ih hlt
    exact ⟨Nat.le_of_succ_le hle, hsize⟩
  | case6 index | case8 index => exact ⟨Nat.le_refl _, hi⟩

/-- An error region has a token in it where there is one. -/
theorem lt_regionEnd (env : Env) (inLine : Bool) (start : Nat)
    (ready : env.tokens.Ready start 1) : start < regionEnd env inLine start start := by
  have hlt := ready.lt_size
  have hnext : env.next start = start + 1 := Nat.min_eq_left hlt
  rw [regionEnd]
  split
  · exact absurd ‹_› ready.kindAt_ne
  · omega
  · omega
  · rw [if_neg (by simp), if_pos hlt]
    exact (regionEnd_bounds env inLine start (start + 1) hlt).1
  · rw [if_pos hlt]
    exact (regionEnd_bounds env inLine start (start + 1) hlt).1

/-- Only at the end of the text is an error region empty. -/
theorem passes_regionEnd (env : Env) (inLine : Bool) {start : Nat}
    (hs : start ≤ env.tokens.tokens.size) :
    env.tokens.Passes start (regionEnd env inLine start start) := by
  by_cases hend : env.tokens.kindAt start = .endOfFile
  · have hle := (regionEnd_bounds env inLine start start hs).1
    exact (Nat.lt_or_eq_of_le hle).imp_right fun h => ⟨h, hend⟩
  · exact .inl (lt_regionEnd env inLine start (.of_kindAt_ne hend))

/-- The diagnostic of an error region. -/
theorem reports_diagnostic {env : Env} {f : Failure} {first : Nat} {region : Span}
    (hfirst : first ≤ f.index) (hindex : f.index ≤ env.tokens.tokens.size) :
    (f.diagnostic env region).Reports env.tokens first region := by
  refine ⟨?_, rfl, f.index, hfirst, hindex, rfl⟩
  unfold Failure.diagnostic Diagnostic.kind
  cases f.mismatch <;> rfl

/-- Recovery from a failure that was noticed at or behind the cursor. -/
theorem outcome_recover {env : Env} {s : State} {f : Failure} (ready : env.tokens.Ready s.cursor n)
    (hf : s.cursor ≤ f.index) (hindex : f.index ≤ env.tokens.tokens.size) :
    Outcome .loud env.tokens s
      (fun x s' => (0 < n → s.cursor < s'.cursor) ∧ Built .loud env.tokens s x s')
      (recover f env s) := by
  have hsize := (regionEnd_bounds env (0 < s.singleLineIfs) s.cursor s.cursor ready.le_size).2
  have hpasses := passes_regionEnd env (0 < s.singleLineIfs) ready.le_size
  refine ⟨fun hn => hpasses.lt (ready.ahead 0 hn), rfl, rfl, rfl,
    ⟨[_], fun hq => absurd hq (by decide), ?_, rfl⟩, ⟨rfl, rfl, rfl, rfl⟩⟩
  exact .region (.start ready.le_size) hpasses hsize (reports_diagnostic hf hindex)

/-- An error region in place of a node. -/
theorem Builds.unexpected (e : Expected) (hb : b = true → 0 < n) :
    Builds .loud n b (Production.unexpected e) := by
  intro env s ready
  refine (outcome_recover ready (Nat.le_refl _) ready.le_size).mono (Manner.le_refl _) ?_
  rintro x s' ⟨hmoves, hx⟩
  exact ⟨fun h => hmoves (hb h), hx⟩

/-- A production that is undone and covered by an error region if it fails. -/
theorem outcome_orRecover {p : Parse Node} {env : Env} {s : State}
    (ready : env.tokens.Ready s.cursor n)
    (hp : Outcome m env.tokens s
      (fun x s' => (b = true → s.cursor < s'.cursor) ∧ Built m env.tokens s x s') (p env s))
    (hb : b = true → 0 < n) [hm : AtMost m .loud] :
    Outcome .loud env.tokens s
      (fun x s' => (b = true → s.cursor < s'.cursor) ∧ Built .loud env.tokens s x s')
      (p.orRecover env s) := by
  rw [Parse.orRecover_eq]
  cases hres : p env s with
  | ok x s' =>
    rw [hres] at hp
    exact ⟨hp.1, hp.2.mono hm.le⟩
  | error f s' =>
    rw [hres] at hp
    have hf : s.cursor ≤ f.index := Nat.le_trans hp.le_cursor hp.cursor_le
    refine (outcome_recover ready hf hp.index_le).mono (Manner.le_refl _) ?_
    rintro x s₁ ⟨hmoves, hx⟩
    exact ⟨fun h => hmoves (hb h), hx⟩

/-- A node, or an error region in its place. -/
theorem Builds.orRecover {p : Parse Node} (hp : Builds m n b p) [AtMost m .loud]
    (hb : b = true → 0 < n) : Builds .loud n b p.orRecover :=
  fun env s ready => outcome_orRecover ready (hp env s ready) hb

/-- A header that is kept and followed by an error region if it fails: what was dropped of its last
part is lost. -/
theorem Steps.recovering {p : Parse Unit} (hp : Steps .quiet n b p) (hb : b = true → 0 < n) :
    Steps .broken n b p.recovering := by
  intro env s ready
  have hrun := hp env s ready
  unfold Production.recovering
  cases hres : p env s with
  | ok x s' =>
    rw [hres] at hrun
    exact ⟨hrun.1, hrun.2.mono (by decide)⟩
  | error f s' =>
    rw [hres] at hrun
    obtain ⟨stop, hstop, ha, -⟩ := hrun.kept (by decide)
    obtain ⟨new, hnew, hr, hfield⟩ := ha.children
    have hsize : s'.cursor ≤ env.tokens.tokens.size :=
      Nat.le_trans hrun.cursor_le hrun.index_le
    have hend := (regionEnd_bounds env (0 < s'.singleLineIfs) s'.cursor s'.cursor hsize).2
    have hregion := Reading.brokenHeader hr.withGaps hstop
      (passes_regionEnd env (0 < s'.singleLineIfs) hsize) hend
      (reports_diagnostic hrun.cursor_le hrun.index_le)
    refine ⟨fun h => (ready.mono (hb h)).lt_of_passes hrun.le_cursor
      (passes_regionEnd _ _ hsize), _,
      fun hq => absurd hq (by decide),
      ⟨⟨_, ?_, hregion, fun c hc => ?_⟩, ?_, ha.isPartial, ha.blocks, ha.singleLineIfs⟩⟩
    · show _ :: s'.children = _
      rw [hnew]
      rfl
    · rcases List.mem_cons.1 hc with rfl | hc
      · exact nofun
      · exact hfield c hc
    · show _ :: s'.diagnostics = _
      rw [ha.diagnostics]
      rfl

/-- If the header fails in place, nothing is lost. -/
theorem Steps.recoveringInPlace {p : Parse Unit} (hp : Steps .inPlace n b p)
    (hb : b = true → 0 < n) : Steps .loud n b p.recovering := by
  intro env s ready
  have hrun := hp env s ready
  unfold Production.recovering
  cases hres : p env s with
  | ok x s' =>
    rw [hres] at hrun
    exact ⟨hrun.1, hrun.2.mono (by decide)⟩
  | error f s' =>
    rw [hres] at hrun
    obtain ⟨stop, -, ha, hstop⟩ := hrun.kept (by decide)
    rw [hstop rfl] at ha
    have hs' : Stepped .loud env.tokens s s' := ⟨[], fun _ => rfl, ha⟩
    have hregion : Outcome .loud env.tokens s'
        (fun _ s₁ => (b = true → s.cursor < s₁.cursor) ∧ Stepped .loud env.tokens s' s₁)
        (Production.child (recover f) env s') := by
      refine (outcome_recover hs'.ready hrun.cursor_le hrun.index_le).bind ?_
      rintro y s₁ ⟨-, hy⟩
      exact ⟨fun h => (ready.mono (hb h)).lt_of_passes hrun.le_cursor hy.passes,
        hy.attached (.inl rfl)⟩
    refine Outcome.after hs' hregion fun _ s₁ hs₁ => ?_
    exact ⟨hs₁.1, hs'.trans hs₁.2⟩

-- ---------------------------------------------------------------------------
-- Ambiguities
-- ---------------------------------------------------------------------------

/-- The first rule that fits begins where all of them do. -/
theorem Builds.firstFit (a : Ambiguity) {alternatives : List Alternative} {best : Option Failure}
    (h : ∀ x ∈ alternatives, Builds m n b x.production) {env : Env} {s : State}
    (ready : env.tokens.Ready s.cursor n)
    (hbest : ∀ f ∈ best, s.cursor ≤ f.index ∧ f.index ≤ env.tokens.tokens.size) :
    Outcome m env.tokens s
      (fun x s' => (b = true → s.cursor < s'.cursor) ∧ Built m env.tokens s x s')
      (Production.firstFit a best alternatives env s) := by
  induction alternatives generalizing best with
  | nil =>
    -- No rule is left; the failure that got furthest is the answer.
    cases best with
    | none => exact Failed.here (Nat.le_refl _) ready.le_size
    | some f => exact Failed.here (hbest f rfl).1 (hbest f rfl).2
  | cons x rest ih =>
    have hrest := fun y hy => h y (List.mem_cons_of_mem x hy)
    rw [Parse.firstFit_cons_eq]
    split
    · have hrun := h x List.mem_cons_self env s ready
      cases hres : x.production env s with
      | ok y s' =>
        rw [hres] at hrun
        exact hrun
      | error f s' =>
        rw [hres] at hrun
        have hf : s.cursor ≤ f.index := Nat.le_trans hrun.le_cursor hrun.cursor_le
        refine ih hrest fun g hg => ?_
        obtain rfl := Option.some.inj hg
        cases best with
        | none => exact ⟨hf, hrun.index_le⟩
        | some e =>
          obtain ⟨he, hesize⟩ := hbest e rfl
          have hindex := Failure.furthest_index e f
          have hle := hrun.index_le
          show s.cursor ≤ (e.furthest f).index ∧ (e.furthest f).index ≤ _
          omega
    · exact ih hrest hbest

/-- An ambiguity gives what one of its alternatives gives. -/
theorem Builds.resolve (a : Ambiguity) {alternatives : List Alternative}
    (h : ∀ x ∈ alternatives, Builds m n b x.production) :
    Builds m n b (Production.resolve a alternatives) :=
  Builds.checkDepth fun _ _ ready => Builds.firstFit a h ready nofun

-- ---------------------------------------------------------------------------
-- Blocks
-- ---------------------------------------------------------------------------

/-- The node whose block is opened has to close it. -/
theorem Fills.openBlockAt {k : Parse α} (opener : Keyword) (line : Nat)
    (hk : Fills m true n b k) :
    Fills m false n b (Production.openBlockAt opener line >>= fun _ => k) := by
  intro env s ready hpartial
  have hrun := hk env { s with blocks := ⟨opener, line⟩ :: s.blocks } ready hpartial
  show Outcome _ _ _ _ (k env { s with blocks := ⟨opener, line⟩ :: s.blocks })
  refine hrun.behind (Nat.le_refl _) ?_
  rintro _ s' ⟨hmoves, hs', hfield⟩
  exact ⟨hmoves, ⟨hs'.reading, hs'.blocks, hs'.singleLineIfs⟩, hfield⟩

/-- A block is open from here on, and has to be left. -/
theorem Fills.openBlock {k : Parse α} (opener : Keyword) (hk : Fills m true n b k) :
    Fills m false n b (Production.openBlock opener >>= fun _ => k) := by
  intro env s ready hpartial
  have hrun := Fills.openBlockAt opener (env.line s) hk env s ready hpartial
  rw [run_bind] at hrun ⊢
  exact hrun

/-- As many tokens are read as there are words. -/
theorem Steps.forM_take {word : Type} (l : List word) :
    Steps .inPlace l.length false (l.forM fun _ => Production.take) := by
  induction l with
  | nil => exact Steps.pure _
  | cons x rest ih => exact Steps.one ReadsOne.take fun _ => ih

/-- A node whose closing line is missing is partial. -/
theorem completed_missCloser {env : Env} {s : State} (opener : Keyword)
    (hs : s.cursor ≤ env.tokens.tokens.size) :
    ∃ s', missCloser opener env s = .ok () s' ∧ Completed m true env.tokens s s' ∧
      NoThenBranch s s' := by
  have hspan : env.tokens.spanFrom s.cursor s.cursor =
      ⟨(env.tokens.get s.cursor).span.start, (env.tokens.get s.cursor).span.start⟩ :=
    if_neg (Nat.lt_irrefl _)
  refine ⟨_, rfl, ⟨⟨[], [], [_], rfl, .start hs, .missing ⟨rfl, ?_, rfl⟩, rfl⟩, rfl, rfl⟩, ?_⟩
  · exact hspan.symm
  · exact fun c hc => .inl hc

/-- A block is closed by the words of its closing line, or the node lacks it. -/
theorem outcome_closeBlock {env : Env} {s : State} (opener : Keyword)
    (hs : s.cursor ≤ env.tokens.tokens.size) :
    Outcome .loud env.tokens s
      (fun x s' => if x = true then Stepped .inPlace env.tokens
        { s with blocks := s.blocks.tail } s'
        else Completed m true env.tokens s s' ∧ NoThenBranch s s')
      (Production.closeBlock opener env s) := by
  unfold Production.closeBlock
  rw [(Looks.test _).run_bind]
  by_cases hcloser : env.atCloser s opener = true
  · rw [if_pos hcloser]
    have hready := ready_of_hasAhead hs hcloser (by simp)
    rw [List.length_map] at hready
    have hwords := Steps.forM_take opener.closer env { s with blocks := s.blocks.tail } hready
    have hrun : Outcome .loud env.tokens s
        (fun _ s' => Stepped .inPlace env.tokens { s with blocks := s.blocks.tail } s')
        (opener.closer.forM (fun _ => take) env { s with blocks := s.blocks.tail }) :=
      hwords.loud.behind (Nat.le_refl _) fun _ _ h => h.2
    rw [run_bind]
    exact hrun.bind fun _ _ h => h
  · rw [if_neg hcloser]
    obtain ⟨s', hres, hs'⟩ := completed_missCloser opener hs
    rw [run_bind, hres]
    exact hs'

/-- A closing line, and what may follow its words. -/
theorem Fills.closeBlock {k : Parse Unit} (opener : Keyword) (hk : Steps m₁ 0 b₁ k)
    [hm : AtMost m₁ m] :
    Fills m true n false
      (Production.closeBlock opener >>= fun x => if x = true then k else Pure.pure ()) := by
  intro env s ready hpartial
  refine (outcome_closeBlock (m := m) opener ready.le_size).bind ?_
  intro x s₁ hs₁
  cases x with
  | false => exact ⟨fun h => Bool.noConfusion h, hs₁⟩
  | true =>
    replace hs₁ : Stepped .inPlace env.tokens { s with blocks := s.blocks.tail } s₁ := hs₁
    refine (hk env s₁ hs₁.ready).loud.behind hs₁.le_cursor ?_
    rintro _ s' ⟨-, hs'⟩
    replace hs' := (hs₁.mono (Manner.inPlace_le m)).trans (hs'.mono hm.le)
    have hclosed := hs'.completes hpartial
    exact ⟨fun h => Bool.noConfusion h,
      ⟨hclosed.reading, hclosed.blocks, hclosed.singleLineIfs⟩, hs'.noThenBranch⟩

/-- The closing line ends the node, or it is known to be missing. -/
theorem Fills.finishBlock (opener : Keyword) [AtMost .loud m] :
    Fills m true n false (Production.finishBlock opener) :=
  Fills.closeBlock opener (Steps.recoveringInPlace Steps.endStatement nofun)

/-- Items up to a line that ends them. -/
theorem Steps.body {item : Parse Unit} (hitem : Steps m 0 b item) :
    Steps m 0 false (Production.body item) := by
  refine Steps.repeatWhile (Steps.look (Looks.test _) fun _ => ?_)
  refine Steps.ite (fun _ => Steps.pure _) fun _ => ?_
  exact Steps.bind hitem fun _ => Steps.pure _

end VisualBasic.Production
