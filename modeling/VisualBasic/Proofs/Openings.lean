import VisualBasic.Proofs.Alongside
import VisualBasic.Proofs.Sparing

/-!
# Where blocks open

A block that lacks its closing line has a diagnostic that says on which line the block was opened.
That line is noted while the opening line is read, and not always at the same moment: with the word
that opens the block, with the first token of the declaration, or behind the whole opening line.

The judgement `Records` says of a production that every partial node it attaches has a diagnostic
with the line that was noted for it, and that there are no other diagnostics of that kind. A node is
judged by the two parts of its body: what is read up to the opening of the block, `State.Entered`,
and the rest, up to the closing line or the lack of it, `State.Left`.

Main results:

* `Records.quiet` — what is quiet attaches no partial node.
* `Records.closeBlock` — a block without its closing line is answered with the line noted for it.
* `Records.block` — a node whose block is opened and left in its body.
-/

namespace VisualBasic

-- ---------------------------------------------------------------------------
-- The line that is noted
-- ---------------------------------------------------------------------------

/-- The token whose line is noted for a block. -/
inductive OpeningMark where
  /-- The word that opens the block. -/
  | word
  /-- The first token of the node, which may belong to an attribute. -/
  | front
  /-- The token behind the opening line. -/
  | behind

/-- Which token's line is noted for the blocks of a rule. -/
def Rule.openingMark : Rule → OpeningMark
  | .methodDeclaration | .constructorDeclaration | .propertyDeclaration | .eventDeclaration
  | .getAccessor | .setAccessor => .front
  | .ifStatement => .behind
  | _ => .word

/-- The index behind `Then`, if that is the next word, or else the same index. -/
def TokenStream.behindThen (t : TokenStream) (i : Nat) : Nat :=
  if t.kindAt i = .keyword .kwThen then i + 1 else i

namespace Node

/-- The word that opens the block that the node is. -/
def opener? (n : Node) : Option Keyword :=
  match n.kind with
  | .rule .methodDeclaration | .rule .constructorDeclaration => n.children.findSome? word?
  | .rule .propertyDeclaration => some .kwProperty
  | .rule .eventDeclaration => some .kwEvent
  | .rule r => r.opener?
  | .token _ => none

/-- The index of the first child that is the given word. -/
def wordIndex? (word : Keyword) (n : Node) : Option Nat :=
  (n.children.find? (·.kind == .token (.keyword word))).bind (·.info.token)

/-- The token whose line is noted for the block that the node is. -/
inductive OpensAt (t : TokenStream) (n : Node) (word : Keyword) : Nat → Prop
  | word {r : Rule} {i : Nat} (hn : n.kind = .rule r) (hr : r.openingMark = .word)
      (hi : n.wordIndex? word = some i) : OpensAt t n word i
  | front {r : Rule} (hn : n.kind = .rule r) (hr : r.openingMark = .front) :
      OpensAt t n word n.info.firstToken
  | behind {c : Node} {i : Nat} (hn : n.kind = .rule .ifStatement) (hc : c ∈ n.children)
      (hfield : c.field = some .condition) (hi : c.Covers t i) : OpensAt t n word (t.behindThen i)

end Node

/-- The diagnostic says that the node lacks its closing line and that the word opened it on the
line. -/
structure Diagnostic.Unclosed (t : TokenStream) (d : Diagnostic) (n : Node) (word : Keyword)
    (line : Nat) : Prop where
  cause : d.cause = .unclosed word line
  covers : ∃ stop, n.Covers t stop ∧ d.ReportsUnclosed t stop

/-- The diagnostic is that of the node, with the line that was noted for its block. -/
def Diagnostic.Traces (t : TokenStream) (d : Diagnostic) (n : Node) : Prop :=
  ∃ word i, n.opener? = some word ∧ n.OpensAt t word i ∧ d.Unclosed t n word (t.get i).point.line

/-- The diagnostics of blocks without a closing line are those of the partial nodes. -/
def TokenStream.Answers (t : TokenStream) (ds : List Diagnostic) (ns : List Node) : Prop :=
  Multiset.Rel (fun d n => d.Traces t n) (ds.filter (·.kind == .structural) : Multiset Diagnostic)
    ((Node.preorders ns).filter (·.flags.isPartial) : Multiset Node)

section

variable {t : TokenStream} {d : Diagnostic} {n : Node} {f : Field}

theorem Node.OpensAt.inField {word : Keyword} {i : Nat} (h : n.OpensAt t word i) :
    (n.inField f).OpensAt t word i := by
  cases h with
  | word hn hr hi =>
    refine .word (by rw [kind_inField]; exact hn) hr ?_
    rw [wordIndex?, children_inField]
    exact hi
  | front hn hr =>
    rw [← firstToken_inField n f]
    exact .front (by rw [kind_inField]; exact hn) hr
  | behind hn hc hfield hi =>
    exact .behind (by rw [kind_inField]; exact hn) (by rw [children_inField]; exact hc) hfield hi

theorem Diagnostic.Traces.inField (h : d.Traces t n) : d.Traces t (n.inField f) := by
  obtain ⟨word, i, hword, hi, hcause, stop, hcovers, hd⟩ := h
  refine ⟨word, i, ?_, hi.inField, hcause, stop, hcovers.inField f, hd⟩
  rw [Node.opener?, Node.kind_inField, Node.children_inField]
  exact hword

/-- Where the word is what counts, it is that of the rule. -/
theorem Node.opener?_of_word {r : Rule} (hn : n.kind = .rule r) (hr : r.openingMark = .word) :
    n.opener? = r.opener? := by
  rw [opener?, hn]
  cases r
  all_goals first
    | rfl
    | cases hr

end

namespace TokenStream.Answers

variable {t : TokenStream} {d : Diagnostic} {ds es : List Diagnostic} {ns ms : List Node}

theorem nil : t.Answers [] [] := .zero

theorem append (h : t.Answers ds ns) (h' : t.Answers es ms) : t.Answers (es ++ ds) (ms ++ ns) := by
  unfold Answers
  rw [Node.preorders_eq_flatMap, List.flatMap_append, ← Node.preorders_eq_flatMap,
    ← Node.preorders_eq_flatMap, List.filter_append, List.filter_append, ← Multiset.coe_add,
    ← Multiset.coe_add]
  exact Multiset.Rel.add h' h

/-- What is read without a diagnostic has no partial node in it. -/
theorem of_reading {gaps : Bool} {i j : Nat} (h : Reading t gaps i j ns []) : t.Answers [] ns := by
  have hnone := Multiset.rel_zero_left.1 h.rel_partials
  unfold Answers
  rw [hnone]
  exact .zero

theorem region (hd : d.kind = .grammatical) (span : Span) (i : Nat) :
    t.Answers [d] [.error span i] := by
  unfold Answers
  rw [List.filter_cons_of_neg (by rw [hd]; exact nofun)]
  exact .zero

theorem inField {n : Node} (h : t.Answers ds (n :: ns)) (f : Field) :
    t.Answers ds (n.inField f :: ns) := by
  have hlist (x : Node) : Node.preorders (x :: ns) =
      x :: (Node.preorders x.children ++ Node.preorders ns) := by
    rw [Node.preorders, Node.preorder_eq, List.cons_append]
  have hflags : (n.inField f).flags.isPartial = n.flags.isPartial := by rw [Node.flags_inField]
  unfold Answers at h ⊢
  rw [hlist, List.filter_cons] at h ⊢
  rw [Node.children_inField, hflags]
  split at h
  · rw [← Multiset.cons_coe, Multiset.rel_cons_right] at h
    obtain ⟨d, rest, hd, hrest, hds⟩ := h
    rw [if_pos ‹_›, ← Multiset.cons_coe, hds]
    exact .cons hd.inField hrest
  · rw [if_neg ‹_›]
    exact h

section

variable {kind : NodeKind} {span : Span} {first : Nat} {cs : List Node}

theorem preorders_finish {isPartial : Bool} :
    Node.preorders (.finish kind span first isPartial cs.reverse :: ns) =
      .finish kind span first isPartial cs.reverse ::
        (Node.preorders cs.reverse ++ Node.preorders ns) :=
  rfl

theorem reverse_append (h : t.Answers ds (cs ++ ns)) : t.Answers ds (cs.reverse ++ ns) := by
  have hperm : (Node.preorders (cs.reverse ++ ns)).Perm (Node.preorders (cs ++ ns)) := by
    rw [Node.preorders_eq_flatMap, Node.preorders_eq_flatMap]
    exact ((List.reverse_perm cs).append_right ns).flatMap_right Node.preorder
  unfold Answers
  rw [Multiset.coe_eq_coe.2 (hperm.filter _)]
  exact h

/-- A node that has its closing line or needs none. -/
theorem finish (h : t.Answers ds (cs ++ ns)) :
    t.Answers ds (.finish kind span first false cs.reverse :: ns) := by
  have hrest := h.reverse_append
  unfold Answers at hrest ⊢
  rw [Node.preorders_eq_flatMap, List.flatMap_append, ← Node.preorders_eq_flatMap,
    ← Node.preorders_eq_flatMap] at hrest
  rw [preorders_finish, List.filter_cons_of_neg Bool.false_ne_true]
  exact hrest

/-- A node that lacks its closing line. -/
theorem finishPartial (h : t.Answers ds cs) (hd : d.kind = .structural)
    (htraces : d.Traces t (.finish kind span first true cs.reverse)) :
    t.Answers (d :: ds) [.finish kind span first true cs.reverse] := by
  have hrest : t.Answers ds (cs.reverse ++ []) := reverse_append (by rwa [List.append_nil])
  rw [List.append_nil] at hrest
  unfold Answers at hrest ⊢
  rw [preorders_finish, List.filter_cons_of_pos (by rw [hd]; rfl), List.filter_cons_of_pos rfl,
    Node.preorders, List.append_nil]
  exact .cons htraces hrest

end

end TokenStream.Answers

-- ---------------------------------------------------------------------------
-- What happens to a state
-- ---------------------------------------------------------------------------

namespace State

/-- Behind `s` some nodes were attached and some, the `spare` ones, not yet; the new diagnostics are
theirs. -/
structure Answered (t : TokenStream) (s : State) (spare : List Node) (s' : State) : Prop where
  le_cursor : s.cursor ≤ s'.cursor
  le_size : s'.cursor ≤ t.tokens.size
  blocks : s'.blocks = s.blocks
  isPartial : s'.isPartial = s.isPartial
  added : ∃ ns ds, s'.children = ns ++ s.children ∧ s'.diagnostics = ds ++ s.diagnostics ∧
    t.Answers ds (spare ++ ns)

/-- Behind `s`, where the block of the word was the innermost one, opened on the line, that block
was closed or found not to be. -/
structure Left (t : TokenStream) (word : Keyword) (line : Nat) (s s' : State) : Prop where
  le_cursor : s.cursor ≤ s'.cursor
  le_size : s'.cursor ≤ t.tokens.size
  blocks : s'.blocks = s.blocks.tail
  added : ∃ ns ds fs, s'.children = ns ++ s.children ∧ s'.diagnostics = fs ++ ds ++ s.diagnostics ∧
    t.Answers ds ns ∧ (s'.isPartial = false ∧ fs = [] ∨ s'.isPartial = true ∧
      ∃ d, fs = [d] ∧ d.cause = .unclosed word line ∧ d.ReportsUnclosed t s'.cursor)

/-- Whatever is attached to a node of the rule behind these children, it opens at the token. -/
def Shows (t : TokenStream) (r : Rule) (word : Keyword) (i first : Nat)
    (children : List Node) : Prop :=
  ∀ n : Node, n.kind = .rule r → n.info.firstToken = first →
    (∃ ns, n.children = (ns ++ children).reverse) → n.opener? = some word ∧ n.OpensAt t word i

/-- The node of the rule that was begun at `s` has opened its block. -/
structure Entered (t : TokenStream) (r : Rule) (word : Keyword) (i : Nat) (s s' : State) :
    Prop where
  le_cursor : s.cursor ≤ s'.cursor
  le_size : s'.cursor ≤ t.tokens.size
  blocks : s'.blocks = ⟨word, (t.get i).point.line⟩ :: s.blocks
  isPartial : s'.isPartial = false
  diagnostics : s'.diagnostics = s.diagnostics
  children : t.Answers [] s'.children
  shows : Shows t r word i s.cursor s'.children

section

variable {t : TokenStream} {word : Keyword} {line i : Nat} {r : Rule} {spare : List Node}
  {s s₁ s' : State}

theorem Answered.refl (hs : s.cursor ≤ t.tokens.size) : Answered t s [] s :=
  ⟨Nat.le_refl _, hs, rfl, rfl, [], [], rfl, rfl, .nil⟩

theorem Answered.trans (h : Answered t s [] s₁) (h' : Answered t s₁ spare s') :
    Answered t s spare s' := by
  obtain ⟨ns, ds, hns, hds, hanswers⟩ := h.added
  obtain ⟨ms, es, hms, hes, hanswers'⟩ := h'.added
  refine ⟨Nat.le_trans h.le_cursor h'.le_cursor, h'.le_size, h'.blocks.trans h.blocks,
    h'.isPartial.trans h.isPartial, ms ++ ns, es ++ ds, ?_, ?_, ?_⟩
  · rw [hms, hns, List.append_assoc]
  · rw [hes, hds, List.append_assoc]
  · rw [← List.append_assoc]
    exact TokenStream.Answers.append hanswers hanswers'

theorem Answered.left (h : Answered t s [] s₁) (h' : Left t word line s₁ s') :
    Left t word line s s' := by
  obtain ⟨ns, ds, hns, hds, hanswers⟩ := h.added
  obtain ⟨ms, es, fs, hms, hes, hanswers', hfs⟩ := h'.added
  refine ⟨Nat.le_trans h.le_cursor h'.le_cursor, h'.le_size, by rw [h'.blocks, h.blocks], ms ++ ns,
    es ++ ds, fs, ?_, ?_, TokenStream.Answers.append hanswers hanswers', hfs⟩
  · rw [hms, hns, List.append_assoc]
  · rw [hes, hds]
    simp only [List.append_assoc]

/-- A step forward without diagnostics. -/
theorem Advanced.answered {gaps : Bool} {stop : Nat} (h : Advanced t gaps s stop [] s')
    (hstop : stop ≤ s'.cursor) (hs' : s'.cursor ≤ t.tokens.size) : Answered t s [] s' := by
  obtain ⟨new, hnew, hr, -⟩ := h.children
  exact ⟨Nat.le_trans h.le_stop hstop, hs', h.blocks, h.isPartial, new, [], hnew, h.diagnostics,
    .of_reading hr⟩

/-- A node in which the word is the first one opens with it. -/
theorem shows_word {span : Span} {first : Nat} {before : List Node} (hr : r.openingMark = .word)
    (hopener : r.opener? = some word) (hbefore : ∀ c ∈ before, c.word? = none) :
    Shows t r word i first (.leaf (.token (.keyword word)) span i :: before) := by
  rintro n hn - ⟨ns, hchildren⟩
  refine ⟨?_, .word hn hr ?_⟩
  · rw [Node.opener?_of_word hn hr, hopener]
  · have hnone : before.reverse.find? (·.kind == .token (.keyword word)) = none := by
      refine List.find?_eq_none.2 fun c hc hkind => ?_
      have hword := hbefore c (List.mem_reverse.1 hc)
      rw [Node.word?, beq_iff_eq.1 hkind] at hword
      cases hword
    rw [Node.wordIndex?, hchildren, List.reverse_append, List.reverse_cons, List.append_assoc,
      List.find?_append, hnone, Option.none_or, List.singleton_append, List.find?_cons_of_pos]
    · rfl
    · exact beq_self_eq_true (NodeKind.token (.keyword word))

/-- A node whose first token is what counts. -/
theorem shows_front {first : Nat} {children : List Node} (hr : r.openingMark = .front)
    (hopener : ∀ n : Node, n.kind = .rule r → (∃ ns, n.children = (ns ++ children).reverse) →
      n.opener? = some word) : Shows t r word first first children := by
  intro n hn hfirst hchildren
  refine ⟨hopener n hn hchildren, ?_⟩
  rw [← hfirst]
  exact .front hn hr

end

end State

namespace Production

open State

variable {α β : Type}

/-- What is known of a place among the tokens. -/
abbrev Standing := TokenStream → Nat → Prop

/-- Nothing is known of it. -/
abbrev Wherever : Standing := fun _ _ => True

/-- The production gives no node. -/
abbrev nothing : α → List Node := fun _ => []

/-- The production gives a node that is yet to be attached. -/
abbrev itself : Node → List Node := fun n => [n]

/-- Where the place is as `pre` says, the partial nodes that the production attaches and those that
it gives are answered with the lines that were noted for them. -/
def Records (pre : Standing) (given : α → List Node) (p : Parse α) : Prop :=
  ∀ env s a s', s.cursor ≤ env.tokens.tokens.size → pre env.tokens s.cursor → p env s = .ok a s' →
    Answered env.tokens s (given a) s'

/-- The same of a production behind which the innermost block, one of the word, is open no more. -/
def RecordsLeaving (word : Keyword) (pre : Standing) (p : Parse Unit) : Prop :=
  ∀ env s s' block, s.cursor ≤ env.tokens.tokens.size → pre env.tokens s.cursor →
    s.isPartial = false → s.blocks.head? = some block → p env s = .ok () s' →
      Left env.tokens word block.line s s'

namespace Records

variable {pre pre' : Standing} {given : α → List Node} {given' : β → List Node} {p : Parse α}

theorem mono (hp : Records pre given p) (h : ∀ t i, pre' t i → pre t i) : Records pre' given p :=
  fun env s a s' hs hpre hrun => hp env s a s' hs (h _ _ hpre) hrun

theorem of_runs (h : ∀ env s, ∃ q, Records pre given q ∧ p env s = q env s) :
    Records pre given p := by
  intro env s a s' hs hpre hrun
  obtain ⟨q, hq, heq⟩ := h env s
  rw [heq] at hrun
  exact hq env s a s' hs hpre hrun

theorem of_looks {seen : Env → State → α} (hp : Looks p seen) : Records pre nothing p := by
  intro env s a s' hs _ hrun
  rw [hp env s] at hrun
  cases hrun
  exact .refl hs

theorem pure {a : α} : Records pre nothing (Pure.pure a : Parse α) := of_looks (Looks.pure a)

theorem seq {k : α → Parse β} (hp : Records pre nothing p)
    (hk : ∀ a, Records Wherever given' (k a)) : Records pre given' (p >>= k) := by
  intro env s b s' hs hpre hrun
  obtain ⟨a, s₁, hfirst, hrest⟩ := bind_eq_ok hrun
  have hs₁ := hp env s a s₁ hs hpre hfirst
  exact hs₁.trans (hk a env s₁ b s' hs₁.le_size trivial hrest)

theorem look {seen : Env → State → α} {k : α → Parse β} (hp : Looks p seen)
    (hk : ∀ a, Records pre given' (k a)) : Records pre given' (p >>= k) := by
  intro env s b s' hs hpre hrun
  rw [hp.run_bind] at hrun
  exact hk _ env s b s' hs hpre hrun

/-- What is done behind a look at the next token knows that token. -/
theorem peek {k : TokenKind → Parse β}
    (hk : ∀ kind, Records (fun t i => pre t i ∧ t.kindAt i = kind) given' (k kind)) :
    Records pre given' (Production.peek >>= k) := by
  intro env s b s' hs hpre hrun
  rw [Looks.peek.run_bind] at hrun
  exact hk _ env s b s' hs ⟨hpre, rfl⟩ hrun

theorem peekAhead (n : Nat) {k : TokenKind → Parse β}
    (hk : ∀ kind, Records (fun t i => pre t i ∧ t.kindAt (i + n) = kind) given' (k kind)) :
    Records pre given' (Production.peekAhead n >>= k) := by
  intro env s b s' hs hpre hrun
  rw [(Looks.peekAhead n).run_bind] at hrun
  exact hk _ env s b s' hs ⟨hpre, rfl⟩ hrun

theorem ite {c : Prop} [Decidable c] {q : Parse α} (hp : c → Records pre given p)
    (hq : ¬c → Records pre given q) : Records pre given (if c then p else q) := by
  split
  · exact hp ‹_›
  · exact hq ‹_›

theorem ifAt {kind : TokenKind} {q : Parse α}
    (hp : Records (fun t i => pre t i ∧ t.kindAt i = kind) given p) (hq : Records pre given q) :
    Records pre given (atKind kind >>= fun x => if x = true then p else q) := by
  intro env s a s' hs hpre hrun
  unfold atKind at hrun
  rw [(Looks.test _).run_bind] at hrun
  split at hrun
  · exact hp env s a s' hs ⟨hpre, beq_iff_eq.1 ‹_›⟩ hrun
  · exact hq env s a s' hs hpre hrun

theorem fail (e : Expected) : Records pre given (Production.fail e) :=
  fun _ _ _ _ _ _ hrun => by cases hrun

theorem tooDeep : Records pre given (Production.tooDeep : Parse α) :=
  fun _ _ _ _ _ _ hrun => by cases hrun

theorem checkDepth (hp : Records pre given p) :
    Records pre given (Production.checkDepth >>= fun _ => p) := by
  intro env s b s' hs hpre hrun
  obtain ⟨_, s₁, hfirst, hrest⟩ := bind_eq_ok hrun
  obtain rfl := checkDepth_eq_ok hfirst
  exact hp env _ b s' hs hpre hrest

theorem nested (hp : Records pre given p) : Records pre given p.nested :=
  fun env s a s' hs hpre hrun => hp { env with depth := env.depth + 1 } s a s' hs hpre hrun

/-- What counts the levels of `If` on a single line changes nothing here. -/
theorem count (f : Nat → Nat) : Records pre nothing
    (modify fun s => { s with singleLineIfs := f s.singleLineIfs } : Parse Unit) := by
  intro env s a s' hs _ hrun
  cases hrun
  exact ⟨Nat.le_refl _, hs, rfl, rfl, [], [], rfl, rfl, .nil⟩

-- ---------------------------------------------------------------------------
-- Quiet parts
-- ---------------------------------------------------------------------------

/-- A quiet part attaches no partial node. -/
theorem quiet {m : Manner} {n : Nat} {b : Bool} (hp : Steps m n b p) [hm : AtMost m .quiet] :
    Records (fun t i => t.Ready i n) nothing p := by
  intro env s a s' _ hready hrun
  have houtcome := hp env s hready
  rw [hrun] at houtcome
  exact (houtcome.2.quiet hm.le).answered (Nat.le_refl _) houtcome.2.ready.le_size

theorem quietNode {m : Manner} {n : Nat} {b : Bool} {p : Parse Node} (hp : Builds m n b p)
    [hm : AtMost m .quiet] : Records (fun t i => t.Ready i n) itself p := by
  intro env s a s' _ hready hrun
  have houtcome := hp env s hready
  rw [hrun] at houtcome
  have hbuilt := houtcome.2
  obtain ⟨ds, hds, hr, hd⟩ := hbuilt.reading
  obtain rfl := hds hm.le
  exact ⟨hbuilt.le_cursor, hbuilt.cursor_le, hbuilt.same.blocks, hbuilt.same.isPartial, [], [],
    hbuilt.same.children, hd, .of_reading hr⟩

/-- A quiet part that needs no token ahead. -/
theorem part {m : Manner} {b : Bool} (hp : Steps m 0 b p) [AtMost m .quiet] :
    Records pre nothing p :=
  fun env s a s' hs _ hrun => quiet hp env s a s' hs (.zero hs) hrun

theorem line {m : Manner} {b : Bool} {p : Parse Node} (hp : Builds m 0 b p) [AtMost m .quiet] :
    Records pre itself p :=
  fun env s a s' hs _ hrun => quietNode hp env s a s' hs (.zero hs) hrun

-- ---------------------------------------------------------------------------
-- Nodes
-- ---------------------------------------------------------------------------

theorem child {p : Parse Node} (hp : Records pre itself p) : Records pre nothing p.child := by
  intro env s a s' hs hpre hrun
  obtain ⟨n, s₁, hfirst, hattach⟩ := bind_eq_ok hrun
  cases hattach
  obtain ⟨hfrom, hle, hblocks, hpartial, ns, ds, hns, hds, hanswers⟩ := hp env s n s₁ hs hpre hfirst
  refine ⟨hfrom, hle, hblocks, hpartial, n :: ns, ds, ?_, hds, hanswers⟩
  show n :: s₁.children = _
  rw [hns, List.cons_append]

theorem field {f : Field} {p : Parse Node} (hp : Records pre itself p) :
    Records pre nothing (Production.field f p) := by
  intro env s a s' hs hpre hrun
  obtain ⟨n, s₁, hfirst, hattach⟩ := bind_eq_ok hrun
  cases hattach
  obtain ⟨hfrom, hle, hblocks, hpartial, ns, ds, hns, hds, hanswers⟩ := hp env s n s₁ hs hpre hfirst
  refine ⟨hfrom, hle, hblocks, hpartial, n.inField f :: ns, ds, ?_, hds, hanswers.inField f⟩
  show n.inField f :: s₁.children = _
  rw [hns, List.cons_append]

/-- A node whose body opens a block and leaves it, or opens none. -/
theorem nodeOf {r : Rule} {body : Parse Unit}
    (hbody : ∀ env s s', s.cursor ≤ env.tokens.tokens.size → pre env.tokens s.cursor →
      s.children = [] → s.isPartial = false → body env s = .ok () s' →
        Answered env.tokens s [] s' ∨ ∃ word i s₁, Entered env.tokens r word i s s₁ ∧
          Left env.tokens word (env.tokens.get i).point.line s₁ s') :
    Records pre itself (Production.node r body) := by
  intro env s n s' hs hpre hrun
  obtain ⟨s₂, hinner, rfl, rfl⟩ := construct_eq_finish hrun
  rcases hbody env { s with children := [], isPartial := false } s₂ hs hpre rfl rfl hinner with
    hanswered | ⟨word, i, s₁, hentered, hleft⟩
  · obtain ⟨hfrom, hle, hblocks, hpartial, ns, ds, hns, hds, hanswers⟩ := hanswered
    rw [List.append_nil] at hns
    refine ⟨hfrom, hle, hblocks, rfl, [], ds, rfl, hds, ?_⟩
    show env.tokens.Answers ds [.finish (.rule r) _ s.cursor s₂.isPartial s₂.children.reverse]
    rw [hpartial, hns]
    exact .finish (by rwa [List.append_nil])
  · obtain ⟨ns, ds, fs, hns, hds, hanswers, hfs⟩ := hleft.added
    have hfrom : s.cursor ≤ s₂.cursor := Nat.le_trans hentered.le_cursor hleft.le_cursor
    have hblocks : s₂.blocks = s.blocks := by
      rw [hleft.blocks, hentered.blocks]
      rfl
    have hchildren : env.tokens.Answers ds s₂.children := by
      rw [hns, ← List.append_nil ds]
      exact .append hentered.children hanswers
    rw [hentered.diagnostics] at hds
    rcases hfs with ⟨hpartial, rfl⟩ | ⟨hpartial, d, rfl, hcause, hd⟩
    · refine ⟨hfrom, hleft.le_size, hblocks, rfl, [], ds, rfl, hds, ?_⟩
      show env.tokens.Answers ds [.finish (.rule r) _ s.cursor s₂.isPartial s₂.children.reverse]
      rw [hpartial]
      exact .finish (by rwa [List.append_nil])
    · refine ⟨hfrom, hleft.le_size, hblocks, rfl, [], d :: ds, rfl, hds, ?_⟩
      show env.tokens.Answers (d :: ds)
          [.finish (.rule r) _ s.cursor s₂.isPartial s₂.children.reverse]
      rw [hpartial]
      refine hchildren.finishPartial hd.kind ⟨word, i, ?_⟩
      obtain ⟨hopener, hopens⟩ := hentered.shows
        (.finish (.rule r) (env.span s.cursor s₂.cursor) s.cursor true s₂.children.reverse) rfl rfl
        ⟨ns, by rw [← hns]; rfl⟩
      exact ⟨hopener, hopens, hcause, s₂.cursor, ⟨hfrom, hleft.le_size, rfl⟩, hd⟩

/-- A node that is no block. -/
theorem node {r : Rule} {body : Parse Unit} (hbody : Records pre nothing body) :
    Records pre itself (Production.node r body) :=
  nodeOf fun env s s' hs hpre _ _ hrun => .inl (hbody env s () s' hs hpre hrun)

/-- A node whose block is opened and left in its body. -/
theorem block {r : Rule} {body : Parse Unit}
    (hbody : ∀ env s s', s.cursor ≤ env.tokens.tokens.size → pre env.tokens s.cursor →
      s.children = [] → s.isPartial = false → body env s = .ok () s' →
        ∃ word i s₁, Entered env.tokens r word i s s₁ ∧
          Left env.tokens word (env.tokens.get i).point.line s₁ s') :
    Records pre itself (Production.node r body) :=
  nodeOf fun env s s' hs hpre hchildren hpartial hrun =>
    .inr (hbody env s s' hs hpre hchildren hpartial hrun)

/-- A node around a finished one. -/
theorem wrapped {r : Rule} {p : Parse Node} (hp : Records pre itself p) :
    Records pre itself (p >>= Production.wrap r) := by
  intro env s a s' hs hpre hrun
  obtain ⟨n, s₁, hfirst, hwrap⟩ := bind_eq_ok hrun
  cases hwrap
  obtain ⟨hfrom, hle, hblocks, hpartial, ns, ds, hns, hds, hanswers⟩ := hp env s n s₁ hs hpre hfirst
  exact ⟨hfrom, hle, hblocks, hpartial, ns, ds, hns, hds, .finish hanswers⟩

-- ---------------------------------------------------------------------------
-- Repetition
-- ---------------------------------------------------------------------------

theorem repeatWhile {step : Parse Bool} (hstep : Records Wherever nothing step) :
    Records pre nothing (Production.repeatWhile step) := by
  intro env s u s' hs _ hrun
  refine iterateUpTo_invariant (fun s₁ => Answered env.tokens s [] s₁)
    (fun _ s₁ y s₂ hs₁ hrun₁ => ?_) _
    (.refl hs) hrun
  obtain ⟨more, s₃, hfirst, hrest⟩ := bind_eq_ok hrun₁
  cases hrest
  exact hs₁.trans (hstep env s₁ more _ hs₁.le_size trivial hfirst)

/-- One more round of a repetition. -/
theorem round {p : Parse Unit} {b : Bool} (hp : Records pre nothing p) :
    Records pre nothing (p >>= fun _ => Pure.pure b) :=
  seq hp fun _ => pure

theorem body {item : Parse Unit} (hitem : Records Wherever nothing item) :
    Records pre nothing (Production.body item) :=
  repeatWhile (look (Looks.test _) fun _ => ite (fun _ => pure) fun _ => round hitem)

-- ---------------------------------------------------------------------------
-- Recovery
-- ---------------------------------------------------------------------------

theorem recover (f : Failure) : Records pre itself (Production.recover f) := by
  intro env s n s' hs _ hrun
  have hbounds := regionEnd_bounds env (0 < s.singleLineIfs) s.cursor s.cursor hs
  cases hrun
  exact ⟨hbounds.1, hbounds.2, rfl, rfl, [], [_], rfl, rfl, .region (f.kind_diagnostic _ _) _ _⟩

theorem unexpected (e : Expected) : Records pre itself (Production.unexpected e) :=
  of_runs fun _ s => ⟨_, recover ⟨s.cursor, .unexpected e⟩, rfl⟩

theorem orRecover {p : Parse Node} (hp : Records pre itself p) :
    Records pre itself p.orRecover := by
  intro env s n s' hs hpre hrun
  rw [Parse.orRecover_eq] at hrun
  cases hfirst : p env s with
  | ok x s₁ =>
    rw [hfirst] at hrun
    cases hrun
    exact hp env s _ _ hs hpre hfirst
  | error f s₁ =>
    rw [hfirst] at hrun
    exact recover f env s n s' hs hpre hrun

/-- What was read of a header that breaks off is quiet, too. -/
theorem recovering {m : Manner} {n : Nat} {b : Bool} {p : Parse Unit} (hp : Steps m n b p)
    [hm : AtMost m .quiet] : Records (fun t i => t.Ready i n) nothing p.recovering := by
  intro env s u s' hs hready hrun
  have houtcome := hp env s hready
  unfold Production.recovering at hrun
  cases hfirst : p env s with
  | ok u s₁ =>
    rw [hfirst] at hrun
    cases hrun
    exact quiet hp env s _ _ hs hready hfirst
  | error f s₁ =>
    rw [hfirst] at hrun houtcome
    obtain ⟨stop, hstop, ha, -⟩ := Failed.kept houtcome hm.le
    have hs₁ := ha.answered hstop (Nat.le_trans houtcome.cursor_le houtcome.index_le)
    have hregion : Records Wherever nothing (Production.recover f).child := child (recover f)
    exact hs₁.trans (hregion env s₁ u s' hs₁.le_size trivial hrun)

theorem partRecovering {m : Manner} {b : Bool} {p : Parse Unit} (hp : Steps m 0 b p)
    [AtMost m .quiet] : Records pre nothing p.recovering :=
  fun env s u s' hs _ hrun => recovering hp env s u s' hs (.zero hs) hrun

theorem firstFit (a : Ambiguity) {alternatives : List Alternative}
    (hfits : ∀ x ∈ alternatives, Records pre itself x.production) (best : Option Failure) :
    Records pre itself (Production.firstFit a best alternatives) := by
  induction alternatives generalizing best with
  | nil => exact fun _ _ _ _ _ _ hrun => by cases hrun
  | cons x rest ih =>
    obtain ⟨hx, hrest⟩ := List.forall_mem_cons.1 hfits
    intro env s n s' hs hpre hrun
    rw [Parse.firstFit_cons_eq] at hrun
    split at hrun
    · cases hfirst : x.production env s with
      | ok y s₁ =>
        rw [hfirst] at hrun
        cases hrun
        exact hx env s _ _ hs hpre hfirst
      | error f s₁ =>
        rw [hfirst] at hrun
        exact ih hrest _ env s n s' hs hpre hrun
    · exact ih hrest best env s n s' hs hpre hrun

theorem resolve (a : Ambiguity) {alternatives : List Alternative}
    (hfits : ∀ x ∈ alternatives, Records pre itself x.production) :
    Records pre itself (Production.resolve a alternatives) :=
  checkDepth (firstFit a hfits _)

-- ---------------------------------------------------------------------------
-- Blocks
-- ---------------------------------------------------------------------------

variable {word : Keyword}

/-- What is done in front of the closing line. -/
theorem leaving {k : α → Parse Unit} (hp : Records pre nothing p)
    (hk : ∀ a, RecordsLeaving word Wherever (k a)) : RecordsLeaving word pre (p >>= k) := by
  intro env s s' block hs hpre hpartial hblock hrun
  obtain ⟨a, s₁, hfirst, hrest⟩ := bind_eq_ok hrun
  have hs₁ := hp env s a s₁ hs hpre hfirst
  refine hs₁.left (hk a env s₁ s' block hs₁.le_size trivial (hs₁.isPartial.trans hpartial) ?_ hrest)
  rw [hs₁.blocks]
  exact hblock

/-- The innermost block is closed, or its lack of a closing line is noted with the line on which it
was opened. -/
theorem closeBlock (word : Keyword) {k : Parse Unit} (hk : Records Wherever nothing k) :
    RecordsLeaving word pre
      (Production.closeBlock word >>= fun x => if x = true then k else Pure.pure ()) := by
  intro env s s' block hs _ hpartial hblock hrun
  obtain ⟨x, s₁, hclose, hrest⟩ := bind_eq_ok hrun
  have houtcome := outcome_closeBlock (m := .quiet) word hs
  rw [hclose] at houtcome
  cases x with
  | true =>
    have ha := Stepped.quiet (s := { s with blocks := s.blocks.tail }) houtcome (by decide)
    have hs₁ := ha.answered (Nat.le_refl _) ha.stop_le
    have hs' := hs₁.trans (hk env s₁ () s' hs₁.le_size trivial hrest)
    obtain ⟨ns, ds, hns, hds, hanswers⟩ := hs'.added
    exact ⟨hs'.le_cursor, hs'.le_size, hs'.blocks, ns, ds, [], hns, hds, hanswers,
      .inl ⟨hs'.isPartial.trans hpartial, rfl⟩⟩
  | false =>
    cases hrest
    rw [closeBlock_eq, (Looks.test _).run_bind] at hclose
    split at hclose
    · obtain ⟨_, s₂, -, hwords⟩ := bind_eq_ok hclose
      obtain ⟨_, s₃, -, hgive⟩ := bind_eq_ok hwords
      cases hgive
    · cases hclose
      refine ⟨Nat.le_refl _, hs, rfl, [], [], [_], rfl, rfl, .nil,
        .inr ⟨rfl, _, rfl, ?_, rfl, ?_, rfl⟩⟩
      · show Cause.unclosed word ((s.blocks.head?.map OpenBlock.line).getD 0) = _
        rw [hblock]
        rfl
      · exact (if_neg (Nat.lt_irrefl _)).symm

theorem finishBlock (word : Keyword) : RecordsLeaving word pre (Production.finishBlock word) :=
  closeBlock word (partRecovering Steps.endStatement)

/-- A node that opens its block at the token behind a quiet part. -/
theorem entered {r : Rule} {i : Nat} {env : Env} {s₀ s : State}
    (hfresh : s₀.children = [] ∧ s₀.isPartial = false)
    (hfront : Advanced env.tokens false s₀ s.cursor [] s)
    (hshows : Shows env.tokens r word i s₀.cursor s.children) :
    Entered env.tokens r word i s₀
      { s with blocks := ⟨word, (env.tokens.get i).point.line⟩ :: s.blocks } := by
  obtain ⟨new, hnew, hr, -⟩ := hfront.children
  rw [hfresh.1, List.append_nil] at hnew
  refine ⟨hfront.le_stop, hfront.stop_le, ?_, hfront.isPartial.trans hfresh.2,
    hfront.diagnostics, ?_,
    hshows⟩
  · show _ :: s.blocks = _
    rw [hfront.blocks]
  · show env.tokens.Answers [] s.children
    rw [hnew]
    exact .of_reading hr

/-- A block is opened with its word, in front of which there are no other words. -/
theorem entered_word {r : Rule} {env : Env} {s₀ s : State} (hr : r.openingMark = .word)
    (hopener : r.opener? = some word) (hfresh : s₀.children = [] ∧ s₀.isPartial = false)
    (hfront : Advanced env.tokens false s₀ s.cursor [] s)
    (hwordless : ∀ c ∈ s.children, c.word? = none)
    (hkind : env.kind s = .keyword word) :
    Entered env.tokens r word s.cursor s₀
      (State.withLeaf { s with blocks := ⟨word, env.line s⟩ :: s.blocks } env.tokens
        (.token (env.kind s))) := by
  have hend : env.tokens.kindAt s.cursor ≠ .endOfFile := by
    rw [show env.tokens.kindAt s.cursor = _ from hkind]
    exact nofun
  obtain ⟨new, hnew, hread, hfield⟩ := hfront.children
  have htaken : Advanced env.tokens false s₀ (s.cursor + 1) []
      (s.withLeaf env.tokens (.token (env.kind s))) := by
    refine ⟨⟨.leaf (.token (env.kind s)) (env.tokens.get s.cursor).span s.cursor :: new, ?_,
      .leaf hread hend rfl, List.forall_mem_cons.2 ⟨nofun, hfield⟩⟩, hfront.diagnostics,
      hfront.isPartial, hfront.blocks, hfront.singleLineIfs⟩
    show _ :: s.children = _
    rw [hnew, List.cons_append]
  refine entered (s := s.withLeaf env.tokens (.token (env.kind s))) hfresh htaken ?_
  rw [hkind]
  exact shows_word hr hopener hwordless

/-- A block whose first token is the word that opens it. -/
theorem blockOfWord {r : Rule} {n : Nat} {k : Unit → Parse Unit} (hr : r.openingMark = .word)
    (hopener : r.opener? = some word) (hk : RecordsLeaving word (fun t i => t.Ready i n) (k ())) :
    Records (fun t i => t.kindAt i = .keyword word ∧ t.Ready i (n + 1)) itself
      (Production.node r (Production.openBlock word >>= fun _ => Production.take >>= k)) := by
  refine block fun env s s' hs hat hchildren hpartial hrun => ?_
  obtain ⟨_, s₁, hopen, hrest⟩ := bind_eq_ok hrun
  cases hopen
  obtain ⟨_, s₂, htake, hrest⟩ := bind_eq_ok hrest
  have hend : env.kind s ≠ .endOfFile := by
    rw [show env.kind s = _ from hat.1]
    exact nofun
  rw [run_take (s := { s with blocks := ⟨word, env.line s⟩ :: s.blocks }) hend] at htake
  cases htake
  have hentered := entered_word hr hopener ⟨hchildren, hpartial⟩ (.refl hs)
    (fun c hc => by rw [hchildren] at hc; exact absurd hc List.not_mem_nil) hat.1
  refine ⟨word, s.cursor, _, hentered, ?_⟩
  exact hk env _ s' ⟨word, env.line s⟩ hentered.le_size hat.2.next hentered.isPartial rfl hrest

end Records

end Production

end VisualBasic
