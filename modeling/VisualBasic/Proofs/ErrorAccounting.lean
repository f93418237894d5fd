import Mathlib.Data.Multiset.Filter
import VisualBasic.Proofs.Forest

/-!
# Error accounting

The diagnostics of a tree and what is wrong in it correspond one to one. An error region has a
diagnostic of its span, a partial block has one that points behind the block, and the other
diagnostics are the lexical errors.

Main results:

* `Reading.concerned` — the diagnostics of a reading are those of its faulty nodes.
* `errors_accounted` — the diagnostics of a tree are those of its faulty nodes and invalid tokens.
-/

namespace VisualBasic

-- ---------------------------------------------------------------------------
-- Faults and their diagnostics
-- ---------------------------------------------------------------------------

/-- Whether the node is an error region or a partial block. -/
def Node.isFaulty (n : Node) : Bool := n.kind == .rule .error || n.flags.isPartial

/-- The diagnostic is that of the node. -/
inductive Diagnostic.Concerns (t : TokenStream) (d : Diagnostic) (n : Node) : Prop
  | region (hkind : n.kind = .rule .error) (hpartial : n.flags.isPartial = false)
      (h : d.Reports t n.info.firstToken n.span)
  | unclosed {stop : Nat} (hkind : n.kind ≠ .rule .error) (hpartial : n.flags.isPartial = true)
      (hcovers : n.Covers t stop) (h : d.ReportsUnclosed t stop)

section

variable {t : TokenStream} {d : Diagnostic} {n : Node}

namespace Diagnostic.Concerns

theorem inField (h : d.Concerns t n) (f : Field) : d.Concerns t (n.inField f) := by
  cases h with
  | region hkind hpartial h =>
    refine .region ?_ ?_ ?_
    · rw [Node.kind_inField]
      exact hkind
    · rw [Node.flags_inField]
      exact hpartial
    · rw [Node.firstToken_inField, Node.span_inField]
      exact h
  | unclosed hkind hpartial hcovers h =>
    refine .unclosed ?_ ?_ (hcovers.inField f) h
    · rw [Node.kind_inField]
      exact hkind
    · rw [Node.flags_inField]
      exact hpartial

theorem grammatical_iff (h : d.Concerns t n) : d.kind = .grammatical ↔ n.kind = .rule .error := by
  cases h with
  | region hkind _ h => exact iff_of_true h.kind hkind
  | unclosed hkind _ _ h =>
    refine iff_of_false (fun hd => ?_) hkind
    rw [h.kind] at hd
    exact DiagnosticKind.noConfusion hd

theorem structural_iff (h : d.Concerns t n) : d.kind = .structural ↔ n.flags.isPartial = true := by
  cases h with
  | region _ hpartial h =>
    refine iff_of_false (fun hd => ?_) (by rw [hpartial]; exact Bool.noConfusion)
    rw [h.kind] at hd
    exact DiagnosticKind.noConfusion hd
  | unclosed _ hpartial _ h => exact iff_of_true h.kind hpartial

theorem kind_ne_lexical (h : d.Concerns t n) : d.kind ≠ .lexical := by
  cases h with
  | region _ _ h => rw [h.kind]; exact nofun
  | unclosed _ _ _ h => rw [h.kind]; exact nofun

end Diagnostic.Concerns

namespace Node

theorem isFaulty_inField (n : Node) (f : Field) : (n.inField f).isFaulty = n.isFaulty := by
  simp only [isFaulty, kind_inField, flags_inField]

theorem isFaulty_leaf {kind : NodeKind} (h : kind ≠ .rule .error) (span : Span) (i : Nat) :
    (leaf kind span i).isFaulty = false := by
  have hkind : (kind == .rule .error) = false := beq_eq_false_iff_ne.2 h
  show (kind == .rule .error || false) = false
  rw [hkind]
  rfl

theorem isFaulty_finish {r : Rule} (h : r ≠ .error) (span : Span) (first : Nat) (isPartial : Bool)
    (children : List Node) :
    (finish (.rule r) span first isPartial children).isFaulty = isPartial := by
  have hkind : (NodeKind.rule r == .rule .error) = false :=
    beq_eq_false_iff_ne.2 fun hr => h (NodeKind.rule.inj hr)
  show (NodeKind.rule r == .rule .error || isPartial) = isPartial
  rw [hkind, Bool.false_or]

end Node

end

-- ---------------------------------------------------------------------------
-- Readings
-- ---------------------------------------------------------------------------

namespace Reading

variable {t : TokenStream} {gaps : Bool} {i j : Nat} {ns : List Node} {ds : List Diagnostic}

/-- What closes a node has a diagnostic exactly if the node is partial. -/
theorem concerned_finish {isPartial : Bool} {fs : List Diagnostic} {rule : Rule}
    (hrule : rule ≠ .error) (hij : i ≤ j) (hj : j ≤ t.tokens.size)
    (hclosing : Closing t j isPartial fs) (children : List Node) :
    Multiset.Rel (fun d n => d.Concerns t n) (fs : Multiset Diagnostic)
      ([Node.finish (.rule rule) (t.spanFrom i j) i isPartial children].filter Node.isFaulty :
        Multiset Node) := by
  have hfaulty := Node.isFaulty_finish hrule (t.spanFrom i j) i isPartial children
  cases hclosing with
  | closed =>
    rw [List.filter_cons_of_neg (by simp [hfaulty])]
    exact .zero
  | missing hd =>
    rw [List.filter_cons_of_pos hfaulty]
    refine .cons (.unclosed (fun hk => hrule (NodeKind.rule.inj hk)) rfl ?_ hd) .zero
    exact ⟨hij, hj, rfl⟩

/-- The role of a node makes no difference to its diagnostic. -/
theorem concerned_inField {n : Node}
    (h : Multiset.Rel (fun d n => d.Concerns t n) (ds : Multiset Diagnostic)
      ((n :: ns).filter Node.isFaulty : Multiset Node)) (f : Field) :
    Multiset.Rel (fun d n => d.Concerns t n) (ds : Multiset Diagnostic)
      ((n.inField f :: ns).filter Node.isFaulty : Multiset Node) := by
  by_cases hn : n.isFaulty = true
  · rw [List.filter_cons_of_pos hn, ← Multiset.cons_coe, Multiset.rel_cons_right] at h
    obtain ⟨d, rest, hd, hrest, hds⟩ := h
    rw [List.filter_cons_of_pos (by rw [Node.isFaulty_inField, hn]), ← Multiset.cons_coe, hds]
    exact .cons (hd.inField f) hrest
  · rw [List.filter_cons_of_neg hn] at h
    rw [List.filter_cons_of_neg (by rw [Node.isFaulty_inField]; exact hn)]
    exact h

/-- The diagnostics of a reading are those of its faulty nodes. -/
theorem concerned (h : Reading t gaps i j ns ds) :
    Multiset.Rel (fun d n => d.Concerns t n) (ds : Multiset Diagnostic)
      ((Node.preorders ns).filter Node.isFaulty : Multiset Node) := by
  induction h with
  | start => exact .zero
  | terminator _ _ ih => exact ih
  | @leaf _ i j ns ds kind _ _ hkind ih =>
    have hlist : Node.preorders (Node.leaf kind (t.get j).span j :: ns) =
        Node.leaf kind (t.get j).span j :: Node.preorders ns := rfl
    rw [hlist, List.filter_cons_of_neg (by simp [Node.isFaulty_leaf (NodeKind.ne_error hkind)])]
    exact ih
  | @node _ _ i j k ns cs ds es fs rule isPartial _ body closing hrule _ _ ih ihBody =>
    have hself := concerned_finish hrule body.le_stop body.stop_le closing cs.reverse
    have hbelow : ((Node.preorders cs.reverse).filter Node.isFaulty : Multiset Node) =
        ((Node.preorders cs).filter Node.isFaulty : Multiset Node) :=
      Multiset.coe_eq_coe.2 ((Node.preorders_reverse_perm cs).filter _)
    have hlist :
        Node.preorders (Node.finish (.rule rule) (t.spanFrom j k) j isPartial cs.reverse :: ns)
        = [Node.finish (.rule rule) (t.spanFrom j k) j isPartial cs.reverse] ++
          Node.preorders cs.reverse ++ Node.preorders ns := rfl
    rw [hlist, List.filter_append, List.filter_append, ← Multiset.coe_add, ← Multiset.coe_add,
      ← Multiset.coe_add, ← Multiset.coe_add, hbelow]
    exact (hself.add ihBody).add ih
  | region _ _ _ hd ih => exact .cons (.region rfl rfl hd) ih
  | brokenHeader _ _ _ _ hd ih => exact .cons (.region rfl rfl hd) ih
  | @inField _ i j n ns ds _ f ih =>
    have hlist (x : Node) (hx : x.preorder = x :: Node.preorders n.children) :
        Node.preorders (x :: ns) = x :: (Node.preorders n.children ++ Node.preorders ns) := by
      rw [Node.preorders, hx, List.cons_append]
    rw [hlist n n.preorder_eq] at ih
    rw [hlist (n.inField f) (n.preorder_inField f)]
    exact concerned_inField ih f

/-- Error regions are flagged as what they are, and nothing else is. -/
theorem isError_iff (h : Reading t gaps i j ns ds) :
    ∀ n ∈ Node.preorders ns, n.flags.isError = true ↔ n.kind = .rule .error := by
  induction h with
  | start => exact nofun
  | terminator _ _ ih => exact ih
  | leaf _ _ hkind ih =>
    exact List.forall_mem_cons.2 ⟨iff_of_false Bool.noConfusion (NodeKind.ne_error hkind), ih⟩
  | node _ _ _ hrule _ _ ih ihBody =>
    refine List.forall_mem_append.2 ⟨List.forall_mem_cons.2 ⟨?_, fun n hn => ?_⟩, ih⟩
    · exact iff_of_false Bool.noConfusion fun hk => hrule (NodeKind.rule.inj hk)
    · exact ihBody n (Node.mem_preorders_reverse.1 hn)
  | region _ _ _ _ ih => exact List.forall_mem_cons.2 ⟨iff_of_true rfl rfl, ih⟩
  | brokenHeader _ _ _ _ _ ih => exact List.forall_mem_cons.2 ⟨iff_of_true rfl rfl, ih⟩
  | inField _ f ih =>
    refine Node.forall_mem_preorders_inField (fun hn => ?_) ih
    rw [Node.flags_inField, Node.kind_inField]
    exact hn

/-- Where a node reports trouble, there is a faulty node. -/
theorem exists_isFaulty (h : Reading t gaps i j ns ds) :
    ∀ n ∈ ns, n.troubled = true → ∃ m ∈ n.preorder, m.isFaulty = true := by
  induction h with
  | start => exact nofun
  | terminator _ _ ih => exact ih
  | leaf _ _ _ ih => exact List.forall_mem_cons.2 ⟨Bool.noConfusion, ih⟩
  | @node _ _ i j k ns cs ds es fs rule isPartial _ _ _ hrule _ _ ih ihBody =>
    refine List.forall_mem_cons.2 ⟨fun htroubled => ?_, ih⟩
    -- The node itself is partial, or something below it is in trouble.
    rcases Bool.or_eq_true_iff.1 htroubled with hpartial | hbelow
    · refine ⟨_, Node.mem_preorder_self _, ?_⟩
      rw [Node.isFaulty_finish hrule]
      exact hpartial
    · obtain ⟨c, hc, htroubled⟩ := Node.troubled_iff_of_finish.1 hbelow
      obtain ⟨m, hm, hfaulty⟩ := ihBody c (List.mem_reverse.1 hc) htroubled
      refine ⟨m, ?_, hfaulty⟩
      rw [Node.preorder_eq]
      exact List.mem_cons_of_mem _ (Node.mem_preorders.2 ⟨c, hc, hm⟩)
  | region _ _ _ _ ih =>
    exact List.forall_mem_cons.2 ⟨fun _ => ⟨_, Node.mem_preorder_self _, rfl⟩, ih⟩
  | brokenHeader _ _ _ _ _ ih =>
    exact List.forall_mem_cons.2 ⟨fun _ => ⟨_, Node.mem_preorder_self _, rfl⟩, ih⟩
  | @inField _ i j n ns ds _ f ih =>
    obtain ⟨hn, hns⟩ := List.forall_mem_cons.1 ih
    refine List.forall_mem_cons.2 ⟨fun htroubled => ?_, hns⟩
    rw [Node.troubled, Node.flags_inField] at htroubled
    obtain ⟨m, hm, hfaulty⟩ := hn htroubled
    rw [Node.preorder_eq, List.mem_cons] at hm
    rw [Node.preorder_inField]
    rcases hm with rfl | hm
    · exact ⟨_, List.mem_cons_self, by rw [Node.isFaulty_inField, hfaulty]⟩
    · exact ⟨m, List.mem_cons_of_mem _ hm, hfaulty⟩

end Reading

-- ---------------------------------------------------------------------------
-- Trees
-- ---------------------------------------------------------------------------

/-- Related things correspond also when only some of either side are kept. -/
theorem rel_filter {α β : Type} {r : α → β → Prop} {p : α → Bool} {q : β → Bool} {as : List α}
    {bs : List β} (h : Multiset.Rel r (as : Multiset α) (bs : Multiset β))
    (hpq : ∀ a b, r a b → (p a = true ↔ q b = true)) :
    Multiset.Rel r (as.filter p : Multiset α) (bs.filter q : Multiset β) := by
  have hkept {s : Multiset α} {u : Multiset β} (h : Multiset.Rel r s u) :
      Multiset.Rel r (s.filter fun a => p a = true) (u.filter fun b => q b = true) := by
    induction h with
    | zero => exact .zero
    | @cons a b s u hab _ ih =>
      by_cases hp : p a = true
      · rw [Multiset.filter_cons_of_pos s hp, Multiset.filter_cons_of_pos u ((hpq a b hab).1 hp)]
        exact .cons hab ih
      · rw [Multiset.filter_cons_of_neg s hp,
          Multiset.filter_cons_of_neg u fun hq => hp ((hpq a b hab).2 hq)]
        exact ih
  simpa only [Multiset.filter_coe, Bool.decide_eq_true] using hkept h

/-- Sorting keeps the order of what is in order already. -/
theorem filter_mergeSort {α : Type} {le : α → α → Bool} {p : α → Bool} {l m : List α}
    (htrans : ∀ a b c, le a b = true → le b c = true → le a c = true)
    (htotal : ∀ a b, (le a b || le b a) = true) (hsorted : l.Pairwise fun a b => le a b = true)
    (hl : ∀ a ∈ l, p a = true) (hm : ∀ a ∈ m, p a = false) :
    ((l ++ m).mergeSort le).filter p = l := by
  have hkept : (l ++ m).filter p = l := by
    rw [List.filter_append, List.filter_eq_self.2 hl, List.filter_eq_nil_iff.2, List.append_nil]
    intro a ha
    rw [hm a ha]
    exact Bool.noConfusion
  have hsub : (l.filter p).Sublist (((l ++ m).mergeSort le).filter p) :=
    (List.sublist_mergeSort htrans htotal hsorted (List.sublist_append_left l m)).filter p
  rw [List.filter_eq_self.2 hl] at hsub
  refine (hsub.eq_of_length ?_).symm
  rw [((List.mergeSort_perm (l ++ m) le).filter p).length_eq, hkept]

/-- What is wrong in a tree and its diagnostics correspond one to one. -/
structure ErrorsAccounted (t : TokenStream) (tree : Tree) : Prop where
  /-- An error region has a diagnostic of its span that points at a token in it or behind. -/
  regions : Multiset.Rel (fun d n => d.Reports t n.info.firstToken n.span)
    (tree.diagnostics.filter (·.kind == .grammatical) : Multiset Diagnostic)
    (tree.root.preorder.filter (·.kind == .rule .error) : Multiset Node)
  /-- A partial block has a diagnostic that points at the token behind its last one. -/
  partials : Multiset.Rel (fun d n => ∃ stop, n.Covers t stop ∧ d.ReportsUnclosed t stop)
    (tree.diagnostics.filter (·.kind == .structural) : Multiset Diagnostic)
    (tree.root.preorder.filter (·.flags.isPartial) : Multiset Node)
  /-- The lexical errors are the invalid tokens, in order. -/
  lexical : (tree.diagnostics.filter (·.kind == .lexical)).map (fun d => (d.span, d.point)) =
    (t.toList.filter (·.kind == .invalid)).map fun token => (token.span, token.point)
  isError_iff : ∀ n ∈ tree.root.preorder, n.flags.isError = true ↔ n.kind = .rule .error
  hasError_iff : tree.hasError = true ↔ tree.diagnostics ≠ []

/-- The listing of a whole tree is that of what was read, but for the root. -/
theorem perm_filter_preorder {p : Node → Bool} {span : Span} {cs : List Node}
    (hp : p (.finish (.rule .sourceFile) span 0 false cs.reverse) = false) :
    ((Node.finish (.rule .sourceFile) span 0 false cs.reverse).preorder.filter p).Perm
      ((Node.preorders cs).filter p) := by
  rw [Node.preorder_eq, List.filter_cons_of_neg (by simp [hp])]
  exact (Node.preorders_reverse_perm cs).filter p

section

variable {t : TokenStream} {gaps : Bool} {i j : Nat} {ns : List Node} {ds : List Diagnostic}

theorem Reading.rel_regions (h : Reading t gaps i j ns ds) :
    Multiset.Rel (fun d n => d.Reports t n.info.firstToken n.span)
      (ds.filter (·.kind == .grammatical) : Multiset Diagnostic)
      ((Node.preorders ns).filter (·.kind == .rule .error) : Multiset Node) := by
  have hrel :=
    rel_filter (p := (·.kind == .grammatical)) (q := (·.kind == .rule .error)) h.concerned
    fun d n hd => by
      simp only [beq_iff_eq]
      exact hd.grammatical_iff
  have hregions : ((Node.preorders ns).filter Node.isFaulty).filter (·.kind == .rule .error) =
      (Node.preorders ns).filter (·.kind == .rule .error) := by
    rw [List.filter_filter]
    refine List.filter_congr fun n _ => ?_
    cases hkind : n.kind == .rule .error
    · rfl
    · simp [Node.isFaulty, hkind]
  rw [hregions] at hrel
  refine hrel.mono fun d _ n hn hd => ?_
  have hkind := beq_iff_eq.1 (List.mem_filter.1 (Multiset.mem_coe.1 hn)).2
  cases hd with
  | region _ _ hd => exact hd
  | unclosed hne _ _ _ => exact absurd hkind hne

theorem Reading.rel_partials (h : Reading t gaps i j ns ds) :
    Multiset.Rel (fun d n => ∃ stop, n.Covers t stop ∧ d.ReportsUnclosed t stop)
      (ds.filter (·.kind == .structural) : Multiset Diagnostic)
      ((Node.preorders ns).filter (·.flags.isPartial) : Multiset Node) := by
  have hrel := rel_filter (p := (·.kind == .structural)) (q := (·.flags.isPartial)) h.concerned
    fun d n hd => by
      simp only [beq_iff_eq]
      exact hd.structural_iff
  have hpartials : ((Node.preorders ns).filter Node.isFaulty).filter (·.flags.isPartial) =
      (Node.preorders ns).filter (·.flags.isPartial) := by
    rw [List.filter_filter]
    refine List.filter_congr fun n _ => ?_
    cases hpartial : n.flags.isPartial
    · rfl
    · simp [Node.isFaulty, hpartial]
  rw [hpartials] at hrel
  refine hrel.mono fun d _ n hn hd => ?_
  have hpartial : n.flags.isPartial = true := (List.mem_filter.1 (Multiset.mem_coe.1 hn)).2
  cases hd with
  | region _ hp _ => exact absurd hpartial (by rw [hp]; exact Bool.noConfusion)
  | unclosed _ _ hcovers hd => exact ⟨_, hcovers, hd⟩

/-- Where a reading has a node in trouble, it has a diagnostic. -/
theorem Reading.ne_nil_of_troubled (h : Reading t gaps i j ns ds) {n : Node} (hn : n ∈ ns)
    (htroubled : n.troubled = true) : ds ≠ [] := by
  rintro rfl
  obtain ⟨m, hm, hfaulty⟩ := h.exists_isFaulty n hn htroubled
  have hmem : m ∈ (Node.preorders ns).filter Node.isFaulty :=
    List.mem_filter.2 ⟨Node.mem_preorders.2 ⟨n, hn, hm⟩, hfaulty⟩
  have hnil := Multiset.rel_zero_left.1 h.concerned
  rw [Multiset.coe_eq_zero] at hnil
  rw [hnil] at hmem
  exact absurd hmem List.not_mem_nil

/-- No diagnostic of a reading is a lexical one. -/
theorem Reading.kind_ne_lexical (h : Reading t gaps i j ns ds) : ∀ d ∈ ds, d.kind ≠ .lexical := by
  intro d hd
  obtain ⟨n, -, hconcerns⟩ := Multiset.exists_mem_of_rel_of_mem h.concerned (Multiset.mem_coe.2 hd)
  exact hconcerns.kind_ne_lexical

end

section

variable {errors : List LexicalError} {ds : List Diagnostic}

theorem kind_of_mem_lexical : ∀ d ∈ errors.map Diagnostic.ofLexicalError, d.kind = .lexical := by
  intro d hd
  obtain ⟨e, -, rfl⟩ := List.mem_map.1 hd
  rfl

/-- Sorted in among lexical errors, the other diagnostics are still there. -/
theorem mergeSort_ne_nil {le : Diagnostic → Diagnostic → Bool} (h : ds ≠ []) :
    (errors.map Diagnostic.ofLexicalError ++ ds.reverse).mergeSort le ≠ [] := by
  intro hnil
  have hperm := List.mergeSort_perm (errors.map Diagnostic.ofLexicalError ++ ds.reverse) le
  rw [hnil] at hperm
  exact h (List.reverse_eq_nil_iff.1 (List.append_eq_nil_iff.1 hperm.symm.eq_nil).2)

/-- Those of another kind are the same ones as before. -/
theorem perm_filter_mergeSort {le : Diagnostic → Diagnostic → Bool} (kind : DiagnosticKind)
    (hkind : kind ≠ .lexical) :
    (((errors.map Diagnostic.ofLexicalError ++ ds.reverse).mergeSort le).filter
      (·.kind == kind)).Perm
      (ds.filter (·.kind == kind)) := by
  refine ((List.mergeSort_perm _ le).filter _).trans ?_
  rw [List.filter_append, List.filter_eq_nil_iff.2, List.nil_append]
  · exact (List.reverse_perm ds).filter _
  · intro d hd hk
    exact hkind ((beq_iff_eq.1 hk).symm.trans (kind_of_mem_lexical d hd))

/-- The lexical errors stay in their order when the other diagnostics are sorted in. -/
theorem filter_lexical_mergeSort (hsorted : errors.Pairwise fun a b => a.span.start ≤ b.span.start)
    (hds : ∀ d ∈ ds, d.kind ≠ .lexical) :
    ((errors.map Diagnostic.ofLexicalError ++ ds.reverse).mergeSort
      fun a b => a.span.start ≤ b.span.start).filter (·.kind == .lexical) =
        errors.map Diagnostic.ofLexicalError := by
  refine filter_mergeSort (fun a b c => ?_) (fun a b => ?_) ?_ ?_ ?_
  · simp only [decide_eq_true_eq]
    exact Nat.le_trans
  · simp only [Bool.or_eq_true, decide_eq_true_eq]
    exact Nat.le_total _ _
  · simp only [List.pairwise_map, decide_eq_true_eq]
    exact hsorted
  · exact fun d hd => beq_iff_eq.2 (kind_of_mem_lexical d hd)
  · exact fun d hd => beq_eq_false_iff_ne.2 (hds d (List.mem_reverse.1 hd))

end

/-- In the tree of every source, what is wrong and the diagnostics correspond one to one. -/
theorem errors_accounted (source : List Char) (limits : Limits) :
    ErrorsAccounted (TokenStream.ofText source)
      (Tree.ofTokens source (TokenStream.ofText source) limits.maxNestingDepth) := by
  obtain ⟨cs, ds, stop, hroot, hr, -, hdiagnostics⟩ :=
    Tree.reading_ofTokens source (TokenStream.ofText source) limits.maxNestingDepth
  refine ⟨?_, ?_, ?_, ?_, ?_⟩
  · rw [hroot, hdiagnostics, Multiset.coe_eq_coe.2 (perm_filter_mergeSort .grammatical nofun),
      Multiset.coe_eq_coe.2 (perm_filter_preorder rfl)]
    exact hr.rel_regions
  · rw [hroot, hdiagnostics, Multiset.coe_eq_coe.2 (perm_filter_mergeSort .structural nofun),
      Multiset.coe_eq_coe.2 (perm_filter_preorder rfl)]
    exact hr.rel_partials
  · rw [hdiagnostics, filter_lexical_mergeSort (TokenStream.pairwise_errors_ofText source)
      hr.kind_ne_lexical, ← TokenStream.token_errors_ofText, List.map_map, List.map_map]
    rfl
  · rw [hroot, Node.preorder_eq]
    refine List.forall_mem_cons.2 ⟨iff_of_false Bool.noConfusion nofun, fun n hn => ?_⟩
    exact hr.isError_iff n (Node.mem_preorders_reverse.1 hn)
  · rw [Tree.hasError, Bool.or_eq_true, Bool.not_eq_true', List.isEmpty_eq_false_iff]
    refine or_iff_right_of_imp fun htroubled => ?_
    rw [hroot] at htroubled
    obtain ⟨c, hc, htroubled⟩ := Node.troubled_iff_of_finish.1 htroubled
    rw [hdiagnostics]
    exact mergeSort_ne_nil (hr.ne_nil_of_troubled (List.mem_reverse.1 hc) htroubled)

end VisualBasic
