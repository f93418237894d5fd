import VisualBasic.Proofs.SwappedTypes
import VisualBasic.Proofs.WatchedCalls
import VisualBasic.Proofs.WideDeclarations

/-!
# Files with a colon for a line end

Attributes of the assembly or the module are told from those of a type by the colon behind their
target, so a colon for the line end behind `<Assembly` would make a difference; but a declaration
that has been read has no line end there. Nothing else in a file depends on what ends its lines, up
to the ends of statements: a colon for the line end behind a statement gives the same tree.

* `TokenStream.withKindAt` — a token of another kind.
* `Tree.EndsStatement`, `Tree.EndsLoneWord` — a statement ends with a token, and a call that is a
  single word does.

Main results:

* `Swaps.sourceFile` — a file.
* `Tree.ofTokens_withColon` — the tree is the same with a colon for a line end at which a statement
  ends.
-/

namespace VisualBasic

namespace TokenStream

/-- The stream with a token of another kind at an index. -/
def withKindAt (t : TokenStream) (k : Nat) (kind : TokenKind) : TokenStream :=
  { t with tokens := t.tokens.setIfInBounds k { t.get k with kind } }

theorem size_withKindAt (t : TokenStream) (k : Nat) (kind : TokenKind) :
    (t.withKindAt k kind).tokens.size = t.tokens.size :=
  Array.size_setIfInBounds

theorem kindAt_withKindAt_self (t : TokenStream) {k : Nat} (kind : TokenKind)
    (hk : k < t.tokens.size) :
    (t.withKindAt k kind).kindAt k = kind := by
  unfold TokenStream.kindAt TokenStream.withKindAt
  dsimp only
  rw [Array.getElem?_setIfInBounds_self_of_lt hk]

theorem getElem?_withKindAt_of_ne (t : TokenStream) {k i : Nat} (kind : TokenKind) (hi : i ≠ k) :
    (t.withKindAt k kind).tokens[i]? = t.tokens[i]? :=
  Array.getElem?_setIfInBounds_ne hi.symm

/-- A terminator that is made another one. -/
theorem exchanged_withKindAt {t : TokenStream} {k : Nat} {kind : TokenKind}
    (hends : (t.kindAt k).isTerminator = true)
    (hkind : kind.isTerminator = true) : t.Exchanged k (t.withKindAt k kind) := by
  have hk : k < t.tokens.size := lt_size_of_kindAt_ne (TokenKind.ne_endOfFile_of hends rfl)
  have hget (i : Nat) : (t.withKindAt k kind).get i = t.get i ∨
      i = k ∧ (t.withKindAt k kind).get i = { t.get k with kind } := by
    by_cases hi : i = k
    · refine .inr ⟨hi, ?_⟩
      unfold TokenStream.get TokenStream.withKindAt
      rw [hi, Array.getElem?_setIfInBounds_self_of_lt hk]
      rfl
    · left
      unfold TokenStream.get
      rw [getElem?_withKindAt_of_ne t kind hi]
      rfl
  refine ⟨size_withKindAt t k kind, fun i => ?_, fun i => ?_, fun i hi => ?_, hends, ?_⟩
  · rcases hget i with h | ⟨rfl, h⟩ <;> rw [h]
  · rcases hget i with h | ⟨rfl, h⟩ <;> rw [h]
  · unfold TokenStream.kindAt
    rw [getElem?_withKindAt_of_ne t kind hi]
  · rw [kindAt_withKindAt_self t kind hk]
    exact hkind

end TokenStream

namespace Production

open State Watch TokenStream

variable {off : Bool}

-- The instance that is found for a production is as large as its text.
set_option synthInstance.maxSize 4000

-- ---------------------------------------------------------------------------
-- Items of a file
-- ---------------------------------------------------------------------------

/-- What stands behind `<` and a name, if that is the end of a line, is no declaration. -/
theorem behindPrefix_of_less {t : TokenStream} {i : Nat} {kind : TokenKind}
    (hless : t.kindAt i = .mark .less)
    (hname : t.kindAt (i + 1) = kind) (hkind : kind = .identifier ∨ kind = .keyword .kwModule)
    (hnewline : t.kindAt (i + 2) = .newline) : t.behindPrefix i = i + 2 := by
  have hplain : ∀ other, other ≠ .identifier ∧ other ≠ .keyword .kwModule →
      t.kindAt (i + 1) ≠ other := by
    rintro other ⟨hidentifier, hmodule⟩ rfl
    rcases hkind with hk | hk
    · exact hidentifier (hname.trans hk)
    · exact hmodule (hname.trans hk)
  unfold TokenStream.behindPrefix
  rw [prefixEnd_of_less hless, prefixEnd_of_other (hplain _ ⟨nofun, nofun⟩)
    (hplain _ ⟨nofun, nofun⟩)
    (fun h => absurd h (hplain _ ⟨nofun, nofun⟩)) (hplain _ ⟨nofun, nofun⟩)
    (hplain _ ⟨nofun, nofun⟩),
    prefixEnd_of_newline (.inl hnewline)]

theorem hasAhead_target {env : Env} {s : State} {kind : TokenKind} :
    env.hasAhead s [.mark .less, kind, .mark .colon] = true ↔
    env.tokens.kindAt s.cursor = .mark .less ∧
      env.tokens.kindAt (s.cursor + 1) = kind ∧ env.tokens.kindAt (s.cursor + 2) =
        .mark .colon := by
  rw [hasAhead_cons, hasAhead_cons, hasAhead_cons, hasAhead_nil, and_iff_left rfl]
  rfl

/-- The target of an attribute is told the same, unless the terminator is the colon behind it. -/
theorem hasAhead_target_alike {k : Nat} {env env' : Env} {s : State} {kind : TokenKind}
    (henv : env.Swapped k env')
    (hkind : kind.isWithinLine = true) (hne : s.cursor + 2 ≠ k) :
    env'.hasAhead s [.mark .less, kind, .mark .colon] =
      env.hasAhead s [.mark .less, kind, .mark .colon] := by
  rw [Bool.eq_iff_iff, hasAhead_target, hasAhead_target, henv.tokens.kindAt_eq_iff rfl,
    henv.tokens.kindAt_eq_iff hkind, henv.tokens.kindAt _ hne]

/-- A line end is not the colon behind the target of an attribute. -/
theorem hasAhead_target_newline {env : Env} {s : State} {kind : TokenKind}
    (hnewline : env.tokens.kindAt (s.cursor + 2) = .newline) :
    env.hasAhead s [.mark .less, kind, .mark .colon] = false := by
  refine Bool.eq_false_iff.2 fun hahead => ?_
  cases hnewline.symm.trans (hasAhead_target.1 hahead).2.2

namespace Swaps

theorem fileItemOf {namespaceBlock : Parse Node} [Swaps true namespaceBlock] :
    Swaps off (Production.fileItemOf namespaceBlock) := by
  have hblank : Swaps off Production.blankLine := quiet
  refine peek rfl hblank fun kind hkind => ?_
  split
  · cases hkind
  · cases hkind
  · infer_instance
  · infer_instance
  · infer_instance
  · refine lookAlike (Looks.test _) (fun _ _ => either inferInstance inferInstance) ?_
    intro k env env' s n s' h hrun _ _
    by_cases hk : s.cursor + 2 = k
    · have hnewline : env.tokens.kindAt (s.cursor + 2) = .newline := by
        rw [hk]
        exact h.newline
      rw [hasAhead_target_newline hnewline, hasAhead_target_newline hnewline] at hrun ⊢
      -- The name behind `<` would be all that the declaration has in front of its word.
      refine Bool.eq_false_iff.2 fun hahead => ?_
      have hfronts := Headed.typeDeclaration.orRecover.fronts h.ordered h.le_size hrun h.calm
      have htarget {kind : TokenKind} (hkind : kind = .identifier ∨ kind = .keyword .kwModule)
          (hahead : env'.hasAhead s [.mark .less, kind, .mark .colon] = true) : False := by
        obtain ⟨hless, hname, -⟩ := hasAhead_target.1 hahead
        have hwithin : kind.isWithinLine = true := by rcases hkind with rfl | rfl <;> rfl
        have hbehind := behindPrefix_of_less ((h.tokens.kindAt_eq_iff rfl _).1 hless)
          ((h.tokens.kindAt_eq_iff hwithin _).1 hname) hkind hnewline
        have hside := hfronts.lt_or_lt h
        omega
      exact (Bool.or_eq_true_iff.1 hahead).elim (htarget (.inl rfl)) (htarget (.inr rfl))
    · rw [hasAhead_target_alike h.toSwapped rfl hk, hasAhead_target_alike h.toSwapped rfl hk]

instance namespaceBlockUpTo {room : Nat} : Swaps true (Production.namespaceBlockUpTo room) := by
  induction room with
  | zero =>
    have hdeep : Swaps true (Production.tooDeep : Parse Node) := quiet
    exact hdeep
  | succ room ih =>
    have hitem : Swaps false (Production.fileItemOf (Production.namespaceBlockUpTo room)) :=
      fileItemOf
    unfold Production.namespaceBlockUpTo
    infer_instance

instance fileItem : Swaps off Production.fileItem := by
  have hroom (room : Nat) :
      Swaps off (Production.fileItemOf (Production.namespaceBlockUpTo room)) := fileItemOf
  refine of_runs fun env s n s' hrun => ⟨_, hroom env.room, hrun, fun k env' henv hrun' => ?_⟩
  unfold Production.fileItem
  rw [henv.room]
  exact hrun'

instance sourceFile : Swaps off Production.sourceFile := by
  unfold Production.sourceFile Production.sourceFileItem
  infer_instance

end Swaps

end Production

-- ---------------------------------------------------------------------------
-- Trees
-- ---------------------------------------------------------------------------

/-- The nodes of other kinds are the same in a tree whose root has another span. -/
theorem Node.mem_preorder_withSpan {n m : Node} {span : Span} (h : m.kind ≠ n.kind) :
    m ∈ (n.withSpan span).preorder ↔ m ∈ n.preorder := by
  have hroot : m ≠ n := fun heq => h (congrArg Node.kind heq)
  have hroot' : m ≠ n.withSpan span :=
    fun heq => h ((congrArg Node.kind heq).trans (by cases n; rfl))
  rw [Node.preorder_eq, Node.preorder_eq n, List.mem_cons, List.mem_cons, or_iff_right hroot,
    or_iff_right hroot']
  cases n
  rfl

namespace Tree

/-- A statement in the tree ends with the token at `k`. -/
def EndsStatement (tree : Tree) (t : TokenStream) (k : Nat) : Prop :=
  ∃ n ∈ tree.root.preorder, n.kind = .rule .statement ∧ n.span.stop = (t.get k).span.stop

instance (tree : Tree) (t : TokenStream) (k : Nat) : Decidable (tree.EndsStatement t k) :=
  inferInstanceAs (Decidable (∃ n ∈ tree.root.preorder,
    n.kind = .rule .statement ∧ n.span.stop = (t.get k).span.stop))

/-- A call in the tree is a single word and the token at `k`. -/
def EndsLoneWord (tree : Tree) (t : TokenStream) (k : Nat) : Prop :=
  ∃ n ∈ tree.root.preorder, n.kind = .rule .callStatement ∧ n.span.stop = (t.get k).span.stop ∧
    n.info.firstToken + 1 = k ∧ (t.kindAt n.info.firstToken).isNameLike = true

instance (tree : Tree) (t : TokenStream) (k : Nat) : Decidable (tree.EndsLoneWord t k) :=
  inferInstanceAs (Decidable (∃ n ∈ tree.root.preorder, n.kind = .rule .callStatement ∧
    n.span.stop = (t.get k).span.stop ∧ n.info.firstToken + 1 = k ∧
    (t.kindAt n.info.firstToken).isNameLike = true))

/-- The tree is the same with a colon for the line end, if a statement ends there that is not a
single word. -/
theorem ofTokens_eq_of_exchanged {t t' : TokenStream} {k : Nat} (source : List Char) (limit : Nat)
    (ht : t.Ordered)
    (htokens : t.Exchanged k t') (hnewline : t.kindAt k = .newline)
    (hcolon : t'.kindAt k = .mark .colon)
    (herrors : t'.errors = t.errors) (hquiet : (ofTokens source t limit).diagnostics = [])
    (hends : (ofTokens source t limit).EndsStatement t k)
    (hlone : ¬(ofTokens source t limit).EndsLoneWord t k) :
    ofTokens source t' limit = ofTokens source t limit := by
  obtain ⟨root, s, hrun⟩ := Production.NeverFails.sourceFile { source, tokens := t, limit }
    ({ diagnostics := (t.errors.map Diagnostic.ofLexicalError).reverse } : State)
  have hquiet := diagnostics_eq_nil_of_run hrun hquiet
  obtain ⟨_, -, hroot, hs⟩ := Production.construct_eq_finish hrun
  have hkind : root.kind = .rule .sourceFile := congrArg Node.kind hroot
  have hchildren : s.children = [] := congrArg State.children hs
  -- The root has another span in the tree, but it is none of the nodes that are looked for.
  have hmem {n : Node} {r : Rule} (hn : n.kind = .rule r) (hr : r ≠ .sourceFile) :
      n ∈ (ofTokens source t limit).root.preorder ↔ n ∈ Node.preorders [root] := by
    rw [ofTokens_of_run hrun, Node.preorders, Node.preorders, List.append_nil]
    refine Node.mem_preorder_withSpan ?_
    rw [hn, hkind]
    exact fun h => hr (NodeKind.rule.inj h)
  have hcrossing : Crossing k { source, tokens := t, limit } { source, tokens := t', limit }
      { diagnostics := (t.errors.map Diagnostic.ofLexicalError).reverse } [root] s := by
    refine ⟨⟨⟨htokens, rfl, rfl⟩, hnewline, hcolon, ht⟩, Nat.zero_le _, ?_, ?_,
      .inr (.inr ⟨Watch.clears_nil, ?_⟩)⟩
    · unfold State.Calm
      rw [hquiet]
      exact Nat.zero_le _
    · rw [hchildren, List.append_nil]
      rintro n hn ⟨r, hn', hwatched⟩ hstop hfirst
      obtain rfl : r = .callStatement := beq_iff_eq.1 hwatched
      exact Bool.eq_false_iff.2 fun hname => hlone ⟨n, (hmem hn' nofun).2 hn, hn', hstop,
        hfirst, hname⟩
    · rw [hchildren, List.append_nil]
      obtain ⟨n, hn, hn', hstop⟩ := hends
      have hn := (hmem hn' nofun).1 hn
      exact fun hclear => hclear n hn ⟨_, hn', rfl⟩ hstop
  have hswaps : Production.Swaps false Production.sourceFile := inferInstance
  have hsame := hswaps.same hcrossing hrun nofun trivial
  rw [← herrors] at hsame
  rw [ofTokens_of_run hrun, ofTokens_of_run hsame]

/-- Tokens without errors give the same tree, and no diagnostics, if a colon stands for a line end
with which a statement ends, unless the colon would make a label of a single word in front of it.
The tokens follow one another, as those of a text do (`ordered_ofText`), so the end of a node tells
its last token. -/
theorem ofTokens_withColon {t : TokenStream} {k : Nat} (source : List Char) (limit : Nat)
    (ht : t.Ordered)
    (hquiet : (ofTokens source t limit).diagnostics = []) (hnewline : t.kindAt k = .newline)
    (hends : (ofTokens source t limit).EndsStatement t k)
    (hlone : ¬(ofTokens source t limit).EndsLoneWord t k) :
    (ofTokens source (t.withKindAt k (.mark .colon)) limit).root.sexp =
    (ofTokens source t limit).root.sexp ∧
      (ofTokens source (t.withKindAt k (.mark .colon)) limit).diagnostics = [] := by
  have hends' : (t.kindAt k).isTerminator = true := by
    rw [hnewline]
    rfl
  have hk : k < t.tokens.size :=
    TokenStream.lt_size_of_kindAt_ne (TokenKind.ne_endOfFile_of hends' rfl)
  have hsame :=
    ofTokens_eq_of_exchanged source limit ht (TokenStream.exchanged_withKindAt hends' rfl) hnewline
    (TokenStream.kindAt_withKindAt_self t _ hk) rfl hquiet hends hlone
  rw [hsame]
  exact ⟨rfl, hquiet⟩

/-- An `If` on a line of a routine. -/
def branchOnLine : List Char :=
  "Module M\nSub S\nIf a Then b = 1\nCall c\nEnd Sub\nEnd Module\n".toList

/-- The assignment and the `If` around it end with the line. -/
theorem ofTokens_withColon_branchOnLine :
    let t := TokenStream.ofText branchOnLine
    (t.Ordered ∧ (ofTokens branchOnLine t 20).diagnostics = [] ∧ t.kindAt 12 = .newline ∧
      (ofTokens branchOnLine t 20).EndsStatement t 12 ∧
      ¬(ofTokens branchOnLine t 20).EndsLoneWord t 12) ∧
    (ofTokens branchOnLine (t.withKindAt 12 (.mark .colon)) 20).root.sexp =
    (ofTokens branchOnLine t 20).root.sexp ∧
      (ofTokens branchOnLine (t.withKindAt 12 (.mark .colon)) 20).diagnostics = [] := by
  intro t
  have ht : t.Ordered := TokenStream.ordered_ofText branchOnLine
  have hall : (ofTokens branchOnLine t 20).diagnostics.isEmpty = true ∧ t.kindAt 12 = .newline ∧
      (ofTokens branchOnLine t 20).EndsStatement t 12 ∧
      ¬(ofTokens branchOnLine t 20).EndsLoneWord t 12 := by
    decide +kernel
  obtain ⟨hquiet, hnewline, hends, hlone⟩ := hall
  have hquiet := List.isEmpty_iff.1 hquiet
  exact ⟨⟨ht, hquiet, hnewline, hends, hlone⟩, ofTokens_withColon branchOnLine 20 ht hquiet
    hnewline hends hlone⟩

end Tree

end VisualBasic
