import VisualBasic.Grammar.Precedence
import VisualBasic.Syntax.Diagnostic
import VisualBasic.Syntax.Node

/-!
# Readings

How the nodes of a tree come out of the tokens of its source. A reading goes over a stretch of
tokens from left to right. Each token it passes becomes a leaf, is covered by an error region, or is
a terminator that leaves no trace; children are gathered into nodes, and a region or an unclosed
block leaves a diagnostic.

There is one way to lose tokens. When the header of one of a few blocks breaks off, what was read
of its last part is dropped and the error region begins behind it: `Reading.brokenHeader`. A reading
may do so only if its `gaps` flag is set, and only the children of the rules in
`Rule.keepsBrokenHeader` are read that way.

Lists of nodes and of diagnostics have the latest first, as the state of a parse has them.

Main results:

* `Reading.le_stop`, `Reading.stop_le` — a reading goes forward and stays within the tokens.
* `Reading.append` — a reading can be continued by another one.
* `Reading.withGaps` — a reading that loses nothing is one that may lose tokens.
-/

namespace VisualBasic

-- ---------------------------------------------------------------------------
-- Tokens ahead
-- ---------------------------------------------------------------------------

/-- How many tokens are ahead where there is one of this kind. -/
@[reducible] def TokenKind.ahead : TokenKind → Nat
  | .endOfFile => 0
  | _ => 1

theorem TokenKind.ne_endOfFile_of {p : TokenKind → Bool} {kind : TokenKind} (h : p kind = true)
    (hend : p .endOfFile = false) : kind ≠ .endOfFile := by
  rintro rfl
  rw [hend] at h
  exact Bool.noConfusion h

theorem TokenKind.ahead_of {p : TokenKind → Bool} {kind : TokenKind} (h : p kind = true)
    (hend : p .endOfFile = false) : kind.ahead = 1 := by
  unfold TokenKind.ahead
  split
  · exact absurd rfl (ne_endOfFile_of h hend)
  · rfl

namespace TokenStream

/-- The span of the tokens from `first` up to `stop`, or the empty one at `stop` if there are
none. -/
def spanFrom (t : TokenStream) (first stop : Nat) : Span :=
  if first < stop then ⟨(t.get first).span.start, (t.get (stop - 1)).span.stop⟩
  else ⟨(t.get stop).span.start, (t.get stop).span.start⟩

/-- An index within the stream with at least `n` tokens before the end of the text. -/
structure Ready (t : TokenStream) (i n : Nat) : Prop where
  le_size : i ≤ t.tokens.size
  ahead : ∀ k, k < n → t.kindAt (i + k) ≠ .endOfFile

theorem lt_size_of_kindAt_ne {t : TokenStream} {i : Nat} (h : t.kindAt i ≠ .endOfFile) :
    i < t.tokens.size :=
  Nat.lt_of_not_le fun hi => h (kindAt_of_size_le hi)

theorem Ready.zero {t : TokenStream} {i : Nat} (h : i ≤ t.tokens.size) : t.Ready i 0 :=
  ⟨h, fun _ hk => absurd hk (Nat.not_lt_zero _)⟩

theorem Ready.mono {t : TokenStream} {i m n : Nat} (h : t.Ready i n) (hm : m ≤ n) : t.Ready i m :=
  ⟨h.le_size, fun k hk => h.ahead k (Nat.lt_of_lt_of_le hk hm)⟩

theorem Ready.kindAt_ne {t : TokenStream} {i n : Nat} (h : t.Ready i (n + 1)) :
    t.kindAt i ≠ .endOfFile :=
  h.ahead 0 (Nat.succ_pos n)

theorem Ready.lt_size {t : TokenStream} {i n : Nat} (h : t.Ready i (n + 1)) : i < t.tokens.size :=
  lt_size_of_kindAt_ne h.kindAt_ne

theorem Ready.next {t : TokenStream} {i n : Nat} (h : t.Ready i (n + 1)) : t.Ready (i + 1) n :=
  ⟨h.lt_size, fun k hk => by
    have := h.ahead (k + 1) (Nat.succ_lt_succ hk)
    rwa [← Nat.add_assoc, Nat.add_right_comm] at this⟩

/-- A token ahead of others. -/
theorem Ready.succ {t : TokenStream} {i n : Nat} (hi : t.kindAt i ≠ .endOfFile)
    (h : t.Ready (i + 1) n) : t.Ready i (n + 1) := by
  refine ⟨Nat.le_of_succ_le h.le_size, fun k hk => ?_⟩
  cases k with
  | zero => exact hi
  | succ k =>
    rw [← Nat.add_assoc, Nat.add_right_comm]
    exact h.ahead k (Nat.lt_of_succ_lt_succ hk)

theorem Ready.of_kindAt_ne {t : TokenStream} {i : Nat} (h : t.kindAt i ≠ .endOfFile) :
    t.Ready i 1 :=
  ⟨Nat.le_of_lt (lt_size_of_kindAt_ne h), fun k hk => by
    obtain rfl := Nat.lt_one_iff.1 hk
    exact h⟩

theorem Ready.ahead_kindAt {t : TokenStream} {i : Nat} (h : i ≤ t.tokens.size) :
    t.Ready i (t.kindAt i).ahead := by
  by_cases hend : t.kindAt i = .endOfFile
  · rw [hend]
    exact .zero h
  · have hone : (t.kindAt i).ahead = 1 := by
      unfold TokenKind.ahead
      split
      · exact absurd ‹_› hend
      · rfl
    rw [hone]
    exact .of_kindAt_ne hend

theorem spanFrom_succ (t : TokenStream) (i : Nat) : t.spanFrom i (i + 1) = (t.get i).span := by
  simp [spanFrom]

/-- There is a token from `i` up to `j`, or none is left at `i`. -/
def Passes (t : TokenStream) (i j : Nat) : Prop :=
  i < j ∨ i = j ∧ t.kindAt i = .endOfFile

theorem Passes.le {t : TokenStream} {i j : Nat} (h : t.Passes i j) : i ≤ j := by
  rcases h with h | ⟨h, -⟩ <;> omega

theorem Passes.lt {t : TokenStream} {i j : Nat} (h : t.Passes i j) (hi : t.kindAt i ≠ .endOfFile) :
    i < j :=
  h.resolve_right fun hend => hi hend.2

theorem Passes.trans {t : TokenStream} {i j k : Nat} (h : i ≤ j) (h' : t.Passes j k) :
    t.Passes i k := by
  rcases h' with hlt | ⟨rfl, hend⟩
  · exact .inl (Nat.lt_of_le_of_lt h hlt)
  · rcases Nat.lt_or_eq_of_le h with hlt | rfl
    · exact .inl hlt
    · exact .inr ⟨rfl, hend⟩

theorem Passes.mono {t : TokenStream} {i j k : Nat} (h : t.Passes i j) (hjk : j ≤ k) :
    t.Passes i k := by
  rcases h with hlt | ⟨rfl, hend⟩
  · exact .inl (Nat.lt_of_lt_of_le hlt hjk)
  · exact .trans (Nat.le_refl _) ((Nat.lt_or_eq_of_le hjk).imp_right fun h => ⟨h, hend⟩)

/-- What passes a token moves on from where there is one. -/
theorem Ready.lt_of_passes {t : TokenStream} {i j k : Nat} (h : t.Ready i 1) (hij : i ≤ j)
    (hjk : t.Passes j k) : i < k :=
  (Passes.trans hij hjk).lt h.kindAt_ne

end TokenStream

-- ---------------------------------------------------------------------------
-- Nodes in a role
-- ---------------------------------------------------------------------------

namespace Node

@[simp]
theorem kind_inField (n : Node) (f : Field) : (n.inField f).kind = n.kind := by
  cases n; rfl

@[simp]
theorem span_inField (n : Node) (f : Field) : (n.inField f).span = n.span := by
  cases n; rfl

@[simp]
theorem flags_inField (n : Node) (f : Field) : (n.inField f).flags = n.flags := by
  cases n; rfl

@[simp]
theorem field_inField (n : Node) (f : Field) : (n.inField f).field = some f := by
  cases n; rfl

@[simp]
theorem children_inField (n : Node) (f : Field) : (n.inField f).children = n.children := by
  cases n; rfl

@[simp]
theorem firstToken_inField (n : Node) (f : Field) :
    (n.inField f).info.firstToken = n.info.firstToken := by
  cases n; rfl

@[simp]
theorem token_inField (n : Node) (f : Field) : (n.inField f).info.token = n.info.token := by
  cases n; rfl

/-- A named node is not a mere token. -/
theorem kind_ne_token {n : Node} (h : n.isNamed = true) (k : TokenKind) : n.kind ≠ .token k := by
  intro hkind
  unfold isNamed at h
  rw [hkind] at h
  exact Bool.noConfusion h

end Node

-- ---------------------------------------------------------------------------
-- What is said of a node
-- ---------------------------------------------------------------------------

/-- The rules whose header may break off behind a part that was read, so that it is dropped. -/
@[reducible] def Rule.keepsBrokenHeader : Rule → Bool
  | .elseIfClause | .caseBlock | .catchBlock | .doStatement | .getAccessor | .setAccessor
  | .addHandlerBlock | .removeHandlerBlock | .raiseEventBlock | .classBlock | .moduleBlock
  | .structureBlock | .interfaceBlock => true
  | _ => false

/-- The diagnostic of an error region that begins at a token: it has the region's span, and points
at one of the tokens from there on. -/
structure Diagnostic.Reports (d : Diagnostic) (t : TokenStream) (first : Nat) (region : Span) :
    Prop where
  kind : d.kind = .grammatical
  span : d.span = region
  point : ∃ j, first ≤ j ∧ j ≤ t.tokens.size ∧ d.point = (t.get j).point

/-- The diagnostic of a block that lacks its closing line: it points at the token before which the
block ends. -/
structure Diagnostic.ReportsUnclosed (d : Diagnostic) (t : TokenStream) (stop : Nat) : Prop where
  kind : d.kind = .structural
  span : d.span = t.spanFrom stop stop
  point : d.point = (t.get stop).point

/-- Whether a node that ends before a token is partial, and the diagnostics that say so. -/
inductive Closing (t : TokenStream) (stop : Nat) : Bool → List Diagnostic → Prop
  | closed : Closing t stop false []
  | missing {d : Diagnostic} (h : d.ReportsUnclosed t stop) : Closing t stop true [d]

/-- The shape of an `If` on a single line, given its children: its first branch ends somewhere, and
the `If` has an `Else` exactly if there is one at this very place. -/
def HasElseBehindBranch (t : TokenStream) (children : List Node) : Prop :=
  ∀ b ∈ children, b.field = some .thenBranch →
    ∃ stop, b.info.firstToken ≤ stop ∧ stop ≤ t.tokens.size ∧
      b.span = t.spanFrom b.info.firstToken stop ∧
      (∀ c ∈ children, c.kind = .token (.keyword .kwElse) → c.info.token = some stop) ∧
      ((∃ c ∈ children, c.kind = .token (.keyword .kwElse)) ↔
        t.kindAt stop = .keyword .kwElse)

/-- Of the children of a node, only which there are matters for the `Else`. -/
theorem HasElseBehindBranch.reverse {t : TokenStream} {cs : List Node}
    (h : HasElseBehindBranch t cs) : HasElseBehindBranch t cs.reverse := by
  simpa only [HasElseBehindBranch, List.mem_reverse] using h

/-! ### Closing lines -/

/-- Whether the node is the given reserved word. -/
def Node.IsWord (word : Keyword) (n : Node) : Prop := n.kind = .token (.keyword word)

/-- The word that opens the block a rule stands for. -/
@[reducible] def Rule.opener? : Rule → Option Keyword
  | .namespaceBlock => some .kwNamespace
  | .classBlock => some .kwClass
  | .moduleBlock => some .kwModule
  | .structureBlock => some .kwStructure
  | .interfaceBlock => some .kwInterface
  | .enumBlock => some .kwEnum
  | .getAccessor => some .kwGet
  | .setAccessor => some .kwSet
  | .addHandlerBlock => some .kwAddHandler
  | .removeHandlerBlock => some .kwRemoveHandler
  | .raiseEventBlock => some .kwRaiseEvent
  | .ifStatement => some .kwIf
  | .selectCaseStatement => some .kwSelect
  | .whileStatement => some .kwWhile
  | .doStatement => some .kwDo
  | .forStatement | .forEachStatement => some .kwFor
  | .tryStatement => some .kwTry
  | .withStatement => some .kwWith
  | .usingStatement => some .kwUsing
  | .syncLockStatement => some .kwSyncLock
  | _ => none

/-- A rule whose nodes are read from what is in them, and of whose children no more is said. -/
@[reducible] def Rule.isPlain (r : Rule) : Bool :=
  match r.opener?, r with
  | some _, _ | none, .error | none, .binaryExpression => false
  | none, _ => true

/-- The kinds of leaves: the tokens, and the rules of whose children nothing is said. -/
@[reducible] def NodeKind.isLeaf : NodeKind → Bool
  | .token _ => true
  | .rule r => r.isPlain

theorem NodeKind.ne_error {kind : NodeKind} (h : kind.isLeaf = true) : kind ≠ .rule .error := by
  rintro rfl
  exact Bool.noConfusion h

/-- Words that begin a closing line or the last branch of an `If`. -/
def Keyword.endsBody : Keyword → Bool
  | .kwEnd | .kwLoop | .kwNext | .kwElse => true
  | _ => false

/-- A child that a block may have in front of its closing line, or an `If` in front of its
branches. -/
structure Node.IsInner (n : Node) : Prop where
  field_ne : n.field ≠ some .thenBranch
  not_word : ∀ word, word.endsBody = true → ¬n.IsWord word

/-- The leaves of words that are the tokens from `k` on. -/
def wordLeaves (t : TokenStream) (words : List Keyword) (k : Nat) : List Node :=
  (words.zipIdx k).map fun (word, i) => .leaf (.token (.keyword word)) (t.get i).span i

/-- The tokens from `k` on are the given words. -/
def WordsAt (t : TokenStream) (words : List Keyword) (k : Nat) : Prop :=
  ∀ x ∈ words.zipIdx k, t.kindAt x.2 = .keyword x.1

/-- At most one error region. -/
def IsRegion (ns : List Node) : Prop := ns = [] ∨ ∃ e, ns = [e] ∧ e.kind = .rule .error

/-- What may follow the words of a closing line: the variable of a `For` loop, the condition of a
`Do` loop, of which there may be but the first word, and nothing otherwise. -/
inductive Trailing : Keyword → List Node → Prop
  | nothing {opener : Keyword} : Trailing opener []
  | «variable» {v : Node} (hv : v.kind = .rule .«variable») : Trailing .kwFor [v]
  | loopWord {w : Node} (hw : w.IsWord .kwWhile ∨ w.IsWord .kwUntil) : Trailing .kwDo [w]
  | condition {w c : Node} (hw : w.IsWord .kwWhile ∨ w.IsWord .kwUntil)
      (hc : c.field = some .condition) : Trailing .kwDo [w, c]

/-- How a block ends, given whether it is partial and its children: it lacks its closing line, or
has it behind all else, with an error region if the line goes on where it should end. -/
inductive BlockEnd (t : TokenStream) (opener : Keyword) : Bool → List Node → Prop
  | missing {cs : List Node} (hcs : ∀ c ∈ cs, c.IsInner) : BlockEnd t opener true cs
  | closed {before trailing region : List Node} {k : Nat} (hbefore : ∀ c ∈ before, c.IsInner)
      (hk : WordsAt t opener.closer k)
      (htrailing : Trailing opener trailing)
      (hregion : IsRegion region) :
      BlockEnd t opener false (before ++ wordLeaves t opener.closer k ++ trailing ++ region)

/-! ### Operators -/

/-- The level of the operator of a binary expression. -/
def Node.operatorLevel? (n : Node) : Option Int :=
  n.children.findSome? fun c => match c.kind with
    | .token kind => (Precedence.ofKind? kind).map Precedence.level
    | .rule _ => none

/-- An operand that is no binary expression of an operator below the given level. -/
def Node.BindsFrom (level : Int) (operand : Node) : Prop :=
  ∀ n ∈ operand.children, n.kind = .rule .binaryExpression → ∃ l ∈ n.operatorLevel?, level ≤ l

/-- The children of a binary expression: an operator between operands that bind more tightly, or as
tightly on the left. -/
structure Joins (p : Precedence) (left operator right : Node) : Prop where
  left_field : left.field = some .left
  operator_field : operator.field = some .operator
  right_field : right.field = some .right
  left_isNamed : left.isNamed = true
  operator_kind : ∃ kind, operator.kind = .token kind ∧ Precedence.ofKind? kind = some p
  left_binds : left.BindsFrom p.level
  right_binds : right.BindsFrom (p.level + 1)

/-! ### Shapes -/

/-- What is said of a node with the given rule and children that was read from `i` up to `j`. -/
structure Shape (t : TokenStream) (rule : Rule) (i j : Nat) (isPartial : Bool)
    (children : List Node) : Prop where
  /-- Only at the end of the text is it empty. -/
  passes : t.Passes i j
  elseBehind : rule = .ifStatement → HasElseBehindBranch t children
  /-- If it is a block, and not an `If` on a single line, it is closed or partial. -/
  blockEnd : ∀ opener ∈ rule.opener?,
    (rule = .ifStatement → ∀ c ∈ children, c.field ≠ some .thenBranch) →
      BlockEnd t opener isPartial children
  joins : rule = .binaryExpression →
    ∃ p left operator right, children = [left, operator, right] ∧ Joins p left operator right

-- ---------------------------------------------------------------------------
-- Readings
-- ---------------------------------------------------------------------------

/-- `Reading t gaps i j ns ds`: the tokens from `i` up to `j` were read as the nodes `ns`, with the
diagnostics `ds`. -/
inductive Reading (t : TokenStream) :
    (gaps : Bool) → (start stop : Nat) → List Node → List Diagnostic → Prop
  | start {gaps : Bool} {i : Nat} (hi : i ≤ t.tokens.size) : Reading t gaps i i [] []
  | terminator {gaps : Bool} {i j : Nat} {ns : List Node} {ds : List Diagnostic}
      (before : Reading t gaps i j ns ds) (hj : (t.kindAt j).isTerminator = true) :
      Reading t gaps i (j + 1) ns ds
  | leaf {gaps : Bool} {i j : Nat} {ns : List Node} {ds : List Diagnostic} {kind : NodeKind}
      (before : Reading t gaps i j ns ds) (hj : t.kindAt j ≠ .endOfFile)
      (hkind : kind.isLeaf = true) :
      Reading t gaps i (j + 1) (.leaf kind (t.get j).span j :: ns) ds
  | node {gaps inner : Bool} {i j k : Nat} {ns cs : List Node} {ds es fs : List Diagnostic}
      {rule : Rule} {isPartial : Bool}
      (before : Reading t gaps i j ns ds) (body : Reading t inner j k cs es)
      (closing : Closing t k isPartial fs) (hrule : rule ≠ .error)
      (hinner : inner = true → rule.keepsBrokenHeader = true)
      (shape : Shape t rule j k isPartial cs.reverse) :
      Reading t gaps i k
        (.finish (.rule rule) (t.spanFrom j k) j isPartial cs.reverse :: ns) (fs ++ es ++ ds)
  | region {gaps : Bool} {i j k : Nat} {ns : List Node} {ds : List Diagnostic} {d : Diagnostic}
      (before : Reading t gaps i j ns ds) (hjk : t.Passes j k) (hk : k ≤ t.tokens.size)
      (hd : d.Reports t j (t.spanFrom j k)) :
      Reading t gaps i k (.error (t.spanFrom j k) j :: ns) (d :: ds)
  | brokenHeader {i j j' k : Nat} {ns : List Node} {ds : List Diagnostic} {d : Diagnostic}
      (before : Reading t true i j ns ds) (hj : j ≤ j') (hjk : t.Passes j' k)
      (hk : k ≤ t.tokens.size)
      (hd : d.Reports t j' (t.spanFrom j' k)) :
      Reading t true i k (.error (t.spanFrom j' k) j' :: ns) (d :: ds)
  | inField {gaps : Bool} {i j : Nat} {n : Node} {ns : List Node} {ds : List Diagnostic}
      (before : Reading t gaps i j (n :: ns) ds) (f : Field) :
      Reading t gaps i j (n.inField f :: ns) ds

namespace Reading

variable {t : TokenStream} {gaps : Bool} {i j k : Nat} {ns ms : List Node} {ds es : List Diagnostic}

theorem le_stop (h : Reading t gaps i j ns ds) : i ≤ j := by
  induction h with
  | start => exact Nat.le_refl _
  | terminator _ _ ih | leaf _ _ _ ih => omega
  | node _ _ _ _ _ _ ih ihBody => exact Nat.le_trans ih ihBody
  | region _ hjk _ _ ih => exact Nat.le_trans ih hjk.le
  | brokenHeader _ hj hjk _ _ ih => exact Nat.le_trans ih (Nat.le_trans hj hjk.le)
  | inField _ _ ih => exact ih

theorem stop_le (h : Reading t gaps i j ns ds) : j ≤ t.tokens.size := by
  induction h with
  | start hi => exact hi
  | terminator _ hj _ =>
    -- A terminator is not the end of the text.
    refine TokenStream.lt_size_of_kindAt_ne fun hend => ?_
    rw [hend] at hj
    exact Bool.noConfusion hj
  | leaf _ hj _ _ => exact TokenStream.lt_size_of_kindAt_ne hj
  | node _ _ _ _ _ _ _ ihBody => exact ihBody
  | region _ _ hk _ _ => exact hk
  | brokenHeader _ _ _ hk _ _ => exact hk
  | inField _ _ ih => exact ih

theorem start_le (h : Reading t gaps i j ns ds) : i ≤ t.tokens.size :=
  Nat.le_trans h.le_stop h.stop_le

/-- What has nodes has a token, or stands at the end of the text. -/
theorem passes (h : Reading t gaps i j ns ds) (hns : ns ≠ []) : t.Passes i j := by
  induction h with
  | start => exact absurd rfl hns
  | terminator before _ _ | leaf before _ _ _ => exact .inl (Nat.lt_succ_of_le before.le_stop)
  | node before _ _ _ _ shape _ _ => exact .trans before.le_stop shape.passes
  | region before hjk _ _ _ => exact .trans before.le_stop hjk
  | brokenHeader before hj hjk _ _ _ => exact .trans (Nat.le_trans before.le_stop hj) hjk
  | inField _ _ ih => exact ih (List.cons_ne_nil _ _)

/-- The node over a reading, read from where that began. -/
theorem ofBody {rule : Rule} {isPartial : Bool} {fs : List Diagnostic}
    (body : Reading t gaps i j ns ds) (closing : Closing t j isPartial fs) (hrule : rule ≠ .error)
    (hgaps : gaps = true → rule.keepsBrokenHeader = true)
    (shape : Shape t rule i j isPartial ns.reverse) :
    Reading t false i j [.finish (.rule rule) (t.spanFrom i j) i isPartial ns.reverse]
      (fs ++ ds) := by
  have hnode : Reading t false i j _ (fs ++ ds ++ []) :=
    .node (.start body.start_le) body closing hrule hgaps shape
  rwa [List.append_nil] at hnode

/-- A reading can be continued from where it stopped. -/
theorem append (h : Reading t gaps i j ns ds) (h' : Reading t gaps j k ms es) :
    Reading t gaps i k (ms ++ ns) (es ++ ds) := by
  -- The second reading is taken apart, step by step from its end.
  induction h' with
  | start => exact h
  | terminator _ hj ih => exact .terminator (ih h) hj
  | leaf _ hj hkind ih => exact .leaf (ih h) hj hkind
  | node _ body closing hrule hinner shape ih _ =>
    rw [List.cons_append, List.append_assoc]
    exact .node (ih h) body closing hrule hinner shape
  | region _ hjk hk hd ih => exact .region (ih h) hjk hk hd
  | brokenHeader _ hj hjk hk hd ih => exact .brokenHeader (ih h) hj hjk hk hd
  | inField _ f ih => exact .inField (ih h) f

/-- A reading that loses nothing is one that may lose tokens. -/
theorem withGaps (h : Reading t gaps i j ns ds) : Reading t true i j ns ds := by
  induction h with
  | start hi => exact .start hi
  | terminator _ hj ih => exact .terminator ih hj
  | leaf _ hj hkind ih => exact .leaf ih hj hkind
  | node _ body closing hrule hinner shape ih _ => exact .node ih body closing hrule hinner shape
  | region _ hjk hk hd ih => exact .region ih hjk hk hd
  | brokenHeader _ hj hjk hk hd ih => exact .brokenHeader ih hj hjk hk hd
  | inField _ f ih => exact .inField ih f

theorem of_gaps_false (h : Reading t false i j ns ds) (gaps : Bool) : Reading t gaps i j ns ds := by
  cases gaps
  · exact h
  · exact h.withGaps

end Reading

end VisualBasic
