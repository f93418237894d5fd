import VisualBasic.Proofs.Aside

/-!
# Judgements about closing lines

How a block comes by its closing line. Up to there no word of a closing line is among its children,
whatever is read; the closing line itself is made from tokens in a row.

* `Keeps` — the production attaches nothing that looks like a closing line.
* `Closes` — the production brings the node under construction to its end, closed or partial.
* `Trails` — the production attaches what may follow the words of a closing line.

They speak of every run. Where a word is taken without a look, a row of kinds says what is known to
be ahead.

Main results:

* `Closes.bind`, `Closes.finishBlock` — a block is closed at its end, behind what keeps it open.
* `BuildsAt.block` — the judgement of a block from those of its body.
-/

namespace VisualBasic

-- ---------------------------------------------------------------------------
-- The node under construction
-- ---------------------------------------------------------------------------

namespace State

/-- The node under construction has no closing line yet, nor is one known to be missing. -/
structure Unclosed (s : State) : Prop where
  isPartial : s.isPartial = false
  isInner : ∀ c ∈ s.children, c.IsInner

variable {s s' : State}

/-- What leaves the node alone does not close it. -/
theorem Unclosed.of_sameNode (h : s.Unclosed) (hs : SameNode s s') : s'.Unclosed := by
  refine ⟨hs.isPartial.trans h.isPartial, ?_⟩
  rw [hs.children]
  exact h.isInner

/-- A node that is no word of a closing line closes nothing. -/
theorem Unclosed.attach {n : Node} {stop : Nat} (h : s.Unclosed) (hn : n.IsInner) :
    Unclosed { s with children := n :: s.children, cursor := stop } :=
  ⟨h.isPartial, List.forall_mem_cons.2 ⟨hn, h.isInner⟩⟩

end State

namespace Node

variable {n : Node}

/-- A part is no word of a closing line. -/
theorem IsPart.isInner (h : n.IsPart) : n.IsInner :=
  ⟨by simp [h.field], fun _ _ => kind_ne_token h.isNamed _⟩

/-- Nor is it one in a role, unless it is the branch behind `Then`. -/
theorem IsPart.isInner_inField (h : n.IsPart) {f : Field} (hf : f ≠ .thenBranch) :
    (n.inField f).IsInner := by
  refine ⟨?_, fun word _ => ?_⟩
  · rw [field_inField]
    exact fun he => hf (Option.some.inj he)
  · rw [IsWord, kind_inField]
    exact kind_ne_token h.isNamed _

/-- A token that is no word of a closing line, in whatever role but one. -/
theorem isInner_leaf {kind : TokenKind} (hkind : ∀ word, kind = .keyword word →
    word.endsBody = false)
    (span : Span) (i : Nat) : (leaf (.token kind) span i).IsInner := by
  refine ⟨nofun, fun word hword h => ?_⟩
  rw [hkind word (NodeKind.token.inj h)] at hword
  exact Bool.noConfusion hword

end Node

/-- A kind of token that begins no closing line. -/
@[reducible] def TokenKind.isInner : TokenKind → Bool
  | .keyword .kwEnd | .keyword .kwLoop | .keyword .kwNext | .keyword .kwElse => false
  | _ => true

/-- A token that begins no closing line is no word that ends a body. -/
theorem TokenKind.endsBody_eq_false {kind : TokenKind} (h : kind.isInner = true) (word : Keyword)
    (hword : kind = .keyword word) : word.endsBody = false := by
  subst hword
  cases word <;> first | rfl | exact Bool.noConfusion h

/-- A block rule that has a closing line in any case. -/
structure Rule.Opens (r : Rule) (opener : Keyword) : Prop where
  opener?_eq : r.opener? = some opener
  ne_ifStatement : r ≠ .ifStatement

/-- What is said of a block whose body closes it. -/
theorem Shape.block {t : TokenStream} {r : Rule} {opener : Keyword}
    (hr : r.Opens opener) {i j : Nat}
    {isPartial : Bool} {cs : List Node} (hij : t.Passes i j)
    (hend : BlockEnd t opener isPartial cs) :
    Shape t r i j isPartial cs := by
  refine ⟨hij, fun h => absurd h hr.ne_ifStatement, fun opener' hopener _ => ?_, ?_⟩
  · rw [hr.opener?_eq] at hopener
    obtain rfl := Option.some.inj hopener
    exact hend
  · rintro rfl
    exact absurd hr.opener?_eq nofun

namespace Production

open State

variable {α β : Type}

-- ---------------------------------------------------------------------------
-- Keeping a block open
-- ---------------------------------------------------------------------------

/-- Where nothing need be ahead, all that need be is. -/
theorem hasAhead_nil (env : Env) (s : State) : env.hasAhead s [] = true := rfl

/-- What is ahead begins with the token at the cursor. -/
theorem hasAhead_cons {env : Env} {s : State} {kind : TokenKind} {kinds : List TokenKind} :
    env.hasAhead s (kind :: kinds) = true ↔
      env.kind s = kind ∧ env.hasAhead { s with cursor := s.cursor + 1 } kinds = true := by
  unfold Env.hasAhead Env.kindAhead
  rw [List.zipIdx_cons, List.all_cons, Bool.and_eq_true, beq_iff_eq, List.zipIdx_succ, List.all_map]
  simp only [Function.comp_def, Nat.add_zero, Nat.add_assoc, Nat.add_comm 1]
  rfl

/-- Where tokens of the given kinds are ahead, the production attaches nothing that looks like a
closing line, whether or not it succeeds. -/
def Keeps (kinds : List TokenKind) (p : Parse α) : Prop :=
  ∀ env s, env.hasAhead s kinds = true → s.Unclosed → (lastState (p env s)).Unclosed

namespace Keeps

variable {kinds : List TokenKind} {kind : TokenKind}

/-- Of the second part nothing is known to be ahead. -/
theorem bind {p : Parse α} {k : α → Parse β} (hp : Keeps kinds p)
    (hk : ∀ a, Keeps [] (k a)) : Keeps kinds (p >>= k) := by
  intro env s hahead hs
  have hfirst := hp env s hahead hs
  rw [lastState_bind]
  cases hrun : p env s with
  | error f s₁ =>
    rw [hrun] at hfirst
    exact hfirst
  | ok a s₁ =>
    rw [hrun] at hfirst
    exact hk a env s₁ rfl hfirst

/-- A look leaves the node as it is, and all that is ahead. -/
theorem look {p : Parse α} {seen : Env → State → α} {k : α → Parse β} (hp : Looks p seen)
    (hk : ∀ a, Keeps kinds (k a)) : Keeps kinds (p >>= k) := by
  intro env s hahead hs
  rw [hp.run_bind]
  exact hk _ env s hahead hs

theorem pure (a : α) : Keeps kinds (Pure.pure a) := fun _ _ _ hs => hs

theorem fail (e : Expected) : Keeps kinds (Production.fail e : Parse α) := fun _ _ _ hs => hs

theorem ite {c : Prop} [Decidable c] {p q : Parse α} (hp : Keeps kinds p) (hq : Keeps kinds q) :
    Keeps kinds (if c then p else q) := by
  split
  · exact hp
  · exact hq

/-- Something that is done on a condition, and what is done afterwards in either case. -/
theorem when {c : Prop} [Decidable c] {p : Parse α} {q : Parse β} (hp : Keeps [] p)
    (hq : Keeps [] q) : Keeps [] (if c then p >>= fun _ => q else q) :=
  ite (bind hp fun _ => hq) hq

/-- A token of a known kind is taken. -/
theorem takeThen {k : Unit → Parse β} (hk : Keeps kinds (k ())) [hkind : Holds kind.isInner]
    [Holds kind.isPlain] : Keeps (kind :: kinds) (take >>= k) := by
  intro env s hahead hs
  obtain ⟨hfirst, hrest⟩ := hasAhead_cons.1 hahead
  rw [run_bind, run_take (by rw [hfirst]; exact kind.ne_endOfFile)]
  refine hk env (s.withLeaf env.tokens _) hrest (hs.attach (Node.isInner_leaf ?_ _ _))
  rw [hfirst]
  exact TokenKind.endsBody_eq_false hkind.eq_true

/-- What is built aside is a part. -/
theorem child {p : Parse Node} (hp : Aside Node.IsPart p) : Keeps kinds p.child := by
  intro env s _ hs
  have hsame := hp.sameNode env s
  unfold Production.child
  rw [lastState_bind]
  cases hrun : p env s with
  | error f s₁ =>
    rw [hrun] at hsame
    exact hs.of_sameNode hsame
  | ok x s₁ =>
    rw [hrun] at hsame
    exact (hs.of_sameNode hsame).attach (hp.good env s x s₁ hrun).isInner

/-- A part in any role but that of the branch behind `Then`. -/
theorem field (f : Field) {p : Parse Node} (hp : Aside Node.IsPart p) [Holds f.isPlain] :
    Keeps kinds (Production.field f p) := by
  intro env s _ hs
  have hsame := hp.sameNode env s
  unfold Production.field
  rw [lastState_bind]
  cases hrun : p env s with
  | error f s₁ =>
    rw [hrun] at hsame
    exact hs.of_sameNode hsame
  | ok x s₁ =>
    rw [hrun] at hsame
    exact (hs.of_sameNode hsame).attach ((hp.good env s x s₁ hrun).isInner_inField f.ne_thenBranch)

/-- A token that is skipped is not attached. -/
theorem skip : Keeps kinds Production.skip := fun _ _ _ hs => ⟨hs.isPartial, hs.isInner⟩

/-- A token of one of some kinds is taken where a look has shown it. -/
theorem ifTake {look : Env → State → Bool} {p q : Parse α}
    (hlook : ∀ env s, look env s = true → (env.kind s).isInner = true) (hp : Keeps [] p)
    (hq : Keeps [] q) :
    Keeps [] (test look >>= fun x => if x = true then take >>= fun _ => p else q) := by
  intro env s _ hs
  rw [(Looks.test look).run_bind]
  split
  · rename_i h
    have htaken : (lastState (take env s)).Unclosed := by
      refine ⟨hs.isPartial, List.forall_mem_cons.2 ⟨Node.isInner_leaf ?_ _ _, hs.isInner⟩⟩
      exact TokenKind.endsBody_eq_false (hlook env s h)
    exact hp env _ rfl htaken
  · exact hq env s rfl hs

/-- The token ahead is of the kind that was looked for. -/
theorem isInner_of_kind {env : Env} {s : State} [hkind : Holds kind.isInner]
    (h : (env.kind s == kind) = true) : (env.kind s).isInner = true := by
  rw [beq_iff_eq.1 h]
  exact hkind.eq_true

/-- A token of a kind that begins no closing line. -/
theorem expect [Holds kind.isInner] : Keeps [] (Production.expect kind) :=
  ifTake (p := Pure.pure ()) (fun _ _ => isInner_of_kind) (pure ()) (fail _)

/-- A token of a kind that begins no closing line, if it is there. -/
theorem accept [Holds kind.isInner] : Keeps [] (Production.accept kind) :=
  ifTake (fun _ _ => isInner_of_kind) (pure _) (pure _)

/-- The end of a statement is not attached. -/
theorem endStatement : Keeps kinds Production.endStatement := by
  refine look Looks.peek fun _ => ite skip (look (Looks.test _) fun _ => ite (pure _) (fail _))

/-- If each round keeps the node open, all of them do. -/
theorem iterateUpTo {step : α → Parse (Option α)} (hstep : ∀ x, Keeps [] (step x)) (n : Nat)
    (x : α) : Keeps [] (Production.iterateUpTo step n x) := by
  induction n generalizing x with
  | zero => exact pure x
  | succ n ih =>
    rw [iterateUpTo_succ]
    refine bind (hstep x) fun y => ?_
    cases y with
    | none => exact pure x
    | some y => exact ih y

theorem repeatWhile {step : Parse Bool} (hstep : Keeps [] step) :
    Keeps [] (Production.repeatWhile step) :=
  fun env s => iterateUpTo (fun _ => bind hstep fun _ => pure _) _ () env s

/-- Items and the commas between them. -/
theorem commaSeparated {item : Parse Unit} (hitem : Keeps [] item) :
    Keeps [] (Production.commaSeparated item) := by
  refine bind hitem fun _ => repeatWhile (bind accept fun _ => ?_)
  exact ite (bind hitem fun _ => pure _) (pure _)

/-- Items up to a closing line, which is not read. -/
theorem body {item : Parse Unit} (hitem : Keeps [] item) :
    Keeps [] (Production.body item) := by
  refine repeatWhile (look (Looks.test _) fun _ => ite (pure _) ?_)
  exact bind hitem fun _ => pure _

/-- What was attached before a failure is kept, with an error region behind. -/
theorem recovering {p : Parse Unit} (hp : Keeps kinds p) : Keeps kinds p.recovering := by
  intro env s hahead hs
  have hrun := hp env s hahead hs
  have hregion (f : Failure) : Keeps [] (Production.child (recover f)) := child (Aside.recover f)
  unfold Production.recovering
  cases hres : p env s with
  | ok a s' =>
    rw [hres] at hrun
    exact hrun
  | error f s' =>
    rw [hres] at hrun
    exact hregion f env s' rfl hrun

end Keeps

-- ---------------------------------------------------------------------------
-- Closing a block
-- ---------------------------------------------------------------------------

/-- Where tokens of the given kinds are ahead, the production brings a node to its end. -/
def Closes (opener : Keyword) (kinds : List TokenKind) (p : Parse α) : Prop :=
  ∀ env s a s', env.hasAhead s kinds = true → s.Unclosed → p env s = .ok a s' →
    BlockEnd env.tokens opener s'.isPartial s'.children.reverse

/-- The production attaches what may follow the words of a closing line. -/
def Trails (opener : Keyword) (p : Parse Unit) : Prop :=
  ∀ env s s', p env s = .ok () s' → s'.isPartial = s.isPartial ∧
    ∃ trailing region, s'.children = region ++ trailing.reverse ++ s.children ∧
      Trailing opener trailing ∧ IsRegion region

/-- Behind what was attached before a failure there is an error region. -/
theorem children_recovering {p : Parse Unit} {env : Env} {s s' : State}
    (hrun : p.recovering env s = .ok () s') : s'.isPartial = (lastState (p env s)).isPartial ∧
      ∃ region, s'.children = region ++ (lastState (p env s)).children ∧ IsRegion region := by
  unfold recovering at hrun
  cases hres : p env s with
  | ok a s₁ =>
    rw [hres] at hrun
    cases hrun
    exact ⟨rfl, [], rfl, .inl rfl⟩
  | error f s₁ =>
    rw [hres] at hrun
    cases hrun
    exact ⟨rfl, [_], rfl, .inr ⟨_, rfl, rfl⟩⟩

namespace Trails

/-- Behind a closing line there is the end of its line, or an error region. -/
theorem endStatement {opener : Keyword} : Trails opener (recovering Production.endStatement) := by
  intro env s s' hrun
  have hsame := Aside.endStatement.sameNode env s
  obtain ⟨hpartial, region, hchildren, hregion⟩ := children_recovering hrun
  rw [hsame.isPartial] at hpartial
  rw [hsame.children] at hchildren
  exact ⟨hpartial, [], region, by simp [hchildren], .nothing, hregion⟩

/-- A node that may trail is followed by the end of the line. -/
theorem child {opener : Keyword} {good : Node → Prop} {p : Parse Node} (hp : Aside good p)
    (hgood : ∀ x, good x → Trailing opener [x]) :
    Trails opener (p.child >>= fun _ => recovering Production.endStatement) := by
  intro env s s' hrun
  unfold Production.child at hrun
  rw [run_bind, run_bind] at hrun
  cases hres : p env s with
  | error f s₁ =>
    rw [hres] at hrun
    cases hrun
  | ok x s₁ =>
    rw [hres] at hrun
    change recovering Production.endStatement env { s₁ with children := x :: s₁.children } =
      _ at hrun
    have hfirst := hp.ok hres
    have hsame := Aside.endStatement.sameNode env { s₁ with children := x :: s₁.children }
    obtain ⟨hpartial, region, hchildren, hregion⟩ := children_recovering hrun
    refine ⟨?_, [x], region, ?_, hgood x (hp.good env s x s₁ hres), hregion⟩
    · rw [hpartial, hsame.isPartial]
      exact hfirst.isPartial
    · rw [hchildren, hsame.children, hfirst.children, List.reverse_singleton, List.append_assoc]
      rfl

end Trails

/-- Words that are ahead are taken one by one. -/
theorem run_takeWords {env : Env} (words : List Keyword) (s : State)
    (h : env.hasAhead s (words.map .keyword) = true) :
    WordsAt env.tokens words s.cursor ∧
      words.forM (fun _ => take) env s = .ok () { s with
        cursor := s.cursor + words.length
        children := (wordLeaves env.tokens words s.cursor).reverse ++ s.children } := by
  induction words generalizing s with
  | nil => exact ⟨nofun, rfl⟩
  | cons word rest ih =>
    obtain ⟨hfirst, hrest⟩ := hasAhead_cons.1 h
    have hend : env.kind s ≠ .endOfFile := by
      rw [hfirst]
      exact nofun
    have htake := run_take hend
    obtain ⟨hkinds, hrun⟩ := ih (s.withLeaf env.tokens (.token (env.kind s))) hrest
    refine ⟨?_, ?_⟩
    · rw [WordsAt, List.zipIdx_cons]
      exact List.forall_mem_cons.2 ⟨hfirst, hkinds⟩
    · show (take >>= fun _ => rest.forM fun _ => take) env s = _
      rw [run_bind, htake]
      dsimp only
      rw [hrun, hfirst, wordLeaves, wordLeaves, List.zipIdx_cons, List.map_cons, List.reverse_cons,
        List.append_assoc, List.length_cons, Nat.add_comm rest.length, ← Nat.add_assoc]
      rfl

/-- The innermost block is closed by the words of its closing line. -/
theorem run_closeBlock {env : Env} {s : State} {opener : Keyword}
    (h : env.atCloser s opener = true) : WordsAt env.tokens opener.closer s.cursor ∧
      closeBlock opener env s = .ok true { s with
        cursor := s.cursor + opener.closer.length
        children := (wordLeaves env.tokens opener.closer s.cursor).reverse ++ s.children
        blocks := s.blocks.tail } := by
  obtain ⟨hwords, hrun⟩ := run_takeWords opener.closer { s with blocks := s.blocks.tail } h
  refine ⟨hwords, ?_⟩
  unfold closeBlock
  rw [(Looks.test _).run_bind, if_pos h, run_bind]
  show ((opener.closer.forM fun _ => take) >>= fun _ => Pure.pure true) env
    { s with blocks := s.blocks.tail } = _
  rw [run_bind, hrun]
  rfl

namespace Closes

variable {opener : Keyword} {kinds : List TokenKind} {kind : TokenKind}

theorem bind {p : Parse α} {k : α → Parse β} (hp : Keeps kinds p)
    (hk : ∀ a, Closes opener [] (k a)) : Closes opener kinds (p >>= k) := by
  intro env s b s' hahead hs hrun
  have hfirst := hp env s hahead hs
  rw [run_bind] at hrun
  cases hres : p env s with
  | error f s₁ =>
    rw [hres] at hrun
    cases hrun
  | ok a s₁ =>
    rw [hres] at hrun hfirst
    exact hk a env s₁ b s' rfl hfirst hrun

theorem look {p : Parse α} {seen : Env → State → α} {k : α → Parse β} (hp : Looks p seen)
    (hk : ∀ a, Closes opener kinds (k a)) : Closes opener kinds (p >>= k) := by
  intro env s b s' hahead hs hrun
  rw [hp.run_bind] at hrun
  exact hk _ env s b s' hahead hs hrun

/-- What may stand in front of the end of a block. -/
theorem when {c : Prop} [Decidable c] {p : Parse α} {q : Parse β} (hp : Keeps [] p)
    (hq : Closes opener [] q) : Closes opener [] (if c then p >>= fun _ => q else q) := by
  split
  · exact bind hp fun _ => hq
  · exact hq

/-- To open a block changes no node. -/
theorem openBlockAt {k : Unit → Parse β} (word : Keyword) (line : Nat)
    (hk : Closes opener kinds (k ())) :
    Closes opener kinds (Production.openBlockAt word line >>= k) :=
  fun env s b s' hahead hs hrun =>
    hk env { s with blocks := ⟨word, line⟩ :: s.blocks } b s' hahead ⟨hs.isPartial, hs.isInner⟩ hrun

/-- To open a block changes no node. -/
theorem openBlock {k : Unit → Parse β} (word : Keyword) (hk : Closes opener kinds (k ())) :
    Closes opener kinds (Production.openBlock word >>= k) := by
  intro env s b s' hahead hs hrun
  refine openBlockAt word (env.line s) hk env s b s' hahead hs ?_
  rw [run_bind] at hrun ⊢
  exact hrun

/-- A token that is known to be ahead and begins no closing line. -/
theorem takeThen {k : Unit → Parse β} (hk : Closes opener kinds (k ()))
    [hkind : Holds kind.isInner] [Holds kind.isPlain] :
    Closes opener (kind :: kinds) (take >>= k) := by
  intro env s b s' hahead hs hrun
  obtain ⟨hfirst, hrest⟩ := hasAhead_cons.1 hahead
  rw [run_bind, run_take (by rw [hfirst]; exact kind.ne_endOfFile)] at hrun
  refine hk env (s.withLeaf env.tokens _) b s' hrest (hs.attach (Node.isInner_leaf ?_ _ _)) hrun
  rw [hfirst]
  exact TokenKind.endsBody_eq_false hkind.eq_true

/-- The words of the closing line are there, with what follows them, or the node is partial. -/
theorem closeBlock {k : Parse Unit} (hk : Trails opener k) :
    Closes opener kinds
      (Production.closeBlock opener >>= fun x => if x = true then k else Pure.pure ()) := by
  intro env s b s' _ hs hrun
  rw [run_bind] at hrun
  by_cases hcloser : env.atCloser s opener = true
  · obtain ⟨hwords, hclose⟩ := run_closeBlock hcloser
    rw [hclose] at hrun
    obtain ⟨hpartial, trailing, region, hchildren, htrailing, hregion⟩ := hk env _ _ hrun
    have hreverse : region.reverse = region := by
      rcases hregion with rfl | ⟨e, rfl, -⟩ <;> rfl
    rw [hpartial, hchildren, hs.isPartial, List.reverse_append, List.reverse_append,
      List.reverse_append, List.reverse_reverse, List.reverse_reverse, hreverse,
      ← List.append_assoc]
    exact .closed (fun c hc => hs.isInner c (List.mem_reverse.1 hc)) hwords htrailing hregion
  · have hmiss : Production.closeBlock opener env s =
        (missCloser opener >>= fun _ => Pure.pure false) env s := by
      unfold Production.closeBlock
      rw [(Looks.test _).run_bind, if_neg hcloser]
    rw [hmiss] at hrun
    cases hrun
    exact .missing fun c hc => hs.isInner c (List.mem_reverse.1 hc)

/-- The closing line is there, or it is known to be missing. -/
theorem finishBlock : Closes opener kinds (Production.finishBlock opener) :=
  closeBlock Trails.endStatement

end Closes

-- ---------------------------------------------------------------------------
-- Blocks
-- ---------------------------------------------------------------------------

variable {m : Manner} {n n₁ : Nat} {b b₁ : Bool}

/-- A judgement that needs nothing ahead. -/
theorem Steps.at {kinds : List TokenKind} {p : Parse α} (hp : Steps m n b p) :
    StepsAt kinds m n b p :=
  fun env s ready _ => hp env s ready

/-- A judgement of a node that needs nothing ahead. -/
theorem Builds.at {kinds : List TokenKind} {p : Parse Node} (hp : Builds m n b p) :
    BuildsAt kinds m n b p :=
  fun env s ready _ => hp env s ready

/-- Where nothing need be ahead, the judgement holds everywhere. -/
theorem BuildsAt.builds {p : Parse Node} (hp : BuildsAt [] m n b p) : Builds m n b p :=
  fun env s ready => hp env s ready (hasAhead_nil env s)

/-- What is done behind a look at the next token knows of what kind it is. -/
theorem Steps.peekAt {k : TokenKind → Parse α}
    (hk : ∀ kind, StepsAt [kind] m kind.ahead b (k kind)) :
    Steps m n b (Production.peek >>= k) := by
  intro env s ready
  rw [Looks.peek.run_bind]
  exact hk _ env s (.ahead_kindAt ready.le_size) (hasAhead_cons.2 ⟨rfl, hasAhead_nil _ _⟩)

/-- What is done behind a look at the next token has that token ahead. -/
theorem Builds.peekAt {k : TokenKind → Parse Node}
    (hk : ∀ kind, BuildsAt [kind] m (max n kind.ahead) b (k kind)) :
    Builds m n b (Production.peek >>= k) := by
  intro env s ready
  rw [Looks.peek.run_bind]
  refine hk _ env s ?_ (hasAhead_cons.2 ⟨rfl, hasAhead_nil _ _⟩)
  rcases Nat.le_total n (env.kind s).ahead with h | h
  · rw [Nat.max_eq_right h]
    exact .ahead_kindAt ready.le_size
  · rw [Nat.max_eq_left h]
    exact ready

/-- A choice by the token behind a known one. -/
theorem BuildsAt.ifNext {first next : TokenKind} {p q : Parse Node}
    (hp : BuildsAt [first, next] m 2 b p) (hq : BuildsAt [first] m 1 b q) [Holds next.isPlain] :
    BuildsAt [first] m 1 b (peekAhead 1 >>= fun x => if (x == next) = true then p else q) := by
  intro env s ready hahead
  rw [(Looks.peekAhead 1).run_bind]
  split
  · rename_i h
    refine hp env s (ready_of_kindAhead ready h) (hasAhead_cons.2 ⟨(hasAhead_cons.1 hahead).1, ?_⟩)
    exact hasAhead_cons.2 ⟨beq_iff_eq.1 h, hasAhead_nil _ _⟩
  · exact hq env s ready hahead

/-- A production reads no less than is asked for. -/
theorem BuildsAt.mono {kinds : List TokenKind} {p : Parse Node} (hp : BuildsAt kinds m n₁ b₁ p)
    [hn : AtMost n₁ n] [hb : AtMost b b₁] : BuildsAt kinds m n b p := by
  intro env s ready hahead
  refine (hp env s (ready.mono hn.le) hahead).mono (Manner.le_refl m) ?_
  exact fun _ _ h => ⟨fun hmoves => h.1 (hb.le hmoves), h.2⟩

/-- A level further down the same is built. -/
theorem BuildsAt.nested {kinds : List TokenKind} {p : Parse Node} (hp : BuildsAt kinds m n b p) :
    BuildsAt kinds m n b p.nested :=
  fun env s ready hahead => hp { env with depth := env.depth + 1 } s ready hahead

/-- A child where it is known to be, and nothing else. -/
theorem StepsAt.childThen {kinds : List TokenKind} {p : Parse Node} {a : α}
    (hp : BuildsAt kinds m n b p) : StepsAt kinds m n b (p.child >>= fun _ => Pure.pure a) := by
  intro env s ready hahead
  have hchild : Outcome m env.tokens s
      (fun _ s' => (b = true → s.cursor < s'.cursor) ∧ Stepped m env.tokens s s') (p.child env s) :=
    (hp env s ready hahead).bind fun _ _ h => ⟨h.1, h.2.attached (.inl rfl)⟩
  exact hchild.bind fun _ _ h => h

/-- A check of the depth fails or changes nothing. -/
theorem BuildsAt.checkDepth {kinds : List TokenKind} {p : Parse Node}
    (hp : BuildsAt kinds m n b p) :
    BuildsAt kinds m n b (Production.checkDepth >>= fun _ => p) :=
  fun env s ready hahead => Outcome.checkDepth ready.le_size (hp env s ready hahead)

/-- A production that is undone and covered by an error region if it fails. -/
theorem BuildsAt.orRecover {kinds : List TokenKind} {p : Parse Node}
    (hp : BuildsAt kinds .loud n b p) (hb : b = true → 0 < n) :
    BuildsAt kinds .loud n b p.orRecover :=
  fun env s ready hahead => outcome_orRecover ready (hp env s ready hahead) hb

/-- A block whose body is closed in any run is a block as it should be. -/
theorem BuildsAt.block (m : Manner) {r : Rule} {opener : Keyword} {kinds : List TokenKind}
    {body : Parse Unit} (hr : r.Opens opener) (hbody : Fills m false n true body)
    (hcloses : Closes opener kinds body) [Holds (m.suits r)] :
    BuildsAt kinds .loud n true (Production.node r body) := by
  intro env s ready hahead
  have hrun := hbody env { s with children := [], isPartial := false } ready rfl
  have hclosed := hcloses env { s with children := [], isPartial := false }
  have hrule : r ≠ .error := by
    rintro rfl
    exact absurd hr.opener?_eq nofun
  refine outcome_node ?_ hrule (m.keepsBrokenHeader_of_gaps r)
  cases hres : body env { s with children := [], isPartial := false } with
  | error f s' =>
    rw [hres] at hrun
    exact hrun
  | ok a s' =>
    rw [hres] at hrun
    obtain ⟨hmoves, hs', -⟩ := hrun
    refine ⟨hmoves rfl, hs', .block hr (.inl (hmoves rfl)) ?_⟩
    exact hclosed a s' hahead ⟨rfl, nofun⟩ hres

end Production

end VisualBasic
