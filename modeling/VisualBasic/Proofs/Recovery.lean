import VisualBasic.Proofs.Forest

/-!
# What recovery keeps

A failure is covered by an error region. Most productions are undone before the region is built, so
that the region covers what they had read. A header that breaks off is kept instead, and the region
begins where it broke off; but of its last part, which was not finished, nothing is attached. The
tokens of that part are lost: they are in no leaf and in no region. Nothing else is lost.

Main results:

* `Reading.explained` — a reading shows its tokens, or they are lost in front of an error region.
* `Reading.unseen` — what is lost is not shown anywhere.
* `recovery_accounted` — which tokens of a source its tree does not account for.
* `exists_lost_token` — a source whose tree loses a token.
-/

namespace VisualBasic

variable {t : TokenStream}

-- ---------------------------------------------------------------------------
-- Tokens that are shown and tokens that are lost
-- ---------------------------------------------------------------------------

/-- The node is the token at `k`, or an error region over it. -/
def Node.Shows (t : TokenStream) (n : Node) (k : Nat) : Prop :=
  n.info.token = some k ∨ n.kind = .rule .error ∧ n.span.contains (t.get k).span = true

/-- Among children whose parent begins at `first`, the token at `k` stands before an error region
and behind all that is in front of the region. -/
def LostBetween (t : TokenStream) (first : Nat) (children : List Node) (k : Nat) : Prop :=
  ∃ before region after, children = before ++ region :: after ∧ region.kind = .rule .error ∧
    first ≤ k ∧ k < region.info.firstToken ∧ ∀ c ∈ before, c.span.stop ≤ (t.get k).span.start

/-- The header of the node broke off and lost the token at `k`. -/
def Node.Loses (t : TokenStream) (n : Node) (k : Nat) : Prop :=
  ∃ r, n.kind = .rule r ∧ r.keepsBrokenHeader = true ∧ LostBetween t n.info.firstToken n.children k

/-- The token at `k` ends a statement, or a node of the tree shows it. -/
def Accounted (t : TokenStream) (root : Node) (k : Nat) : Prop :=
  (t.kindAt k).isTerminator = true ∨ ∃ n ∈ root.preorder, n.Shows t k

instance (n : Node) (k : Nat) : Decidable (n.Shows t k) :=
  inferInstanceAs (Decidable (_ ∨ _ ∧ _))

instance (root : Node) (k : Nat) : Decidable (Accounted t root k) :=
  inferInstanceAs (Decidable (_ ∨ ∃ n ∈ root.preorder, n.Shows t k))

/-- The token at `k` is no terminator, and was lost with a part of a header. -/
def LostInHeader (t : TokenStream) (root : Node) (k : Nat) : Prop :=
  (t.kindAt k).isTerminator = false ∧ ∃ n ∈ root.preorder, n.Loses t k

section

variable {first k : Nat} {n : Node} {cs : List Node} {f : Field}

theorem not_lostBetween_nil : ¬LostBetween t first [] k := by
  rintro ⟨before, region, after, hsplit, -⟩
  exact List.append_ne_nil_of_right_ne_nil before (List.cons_ne_nil region after) hsplit.symm

/-- Another child can only add what is lost directly in front of it. -/
theorem lostBetween_concat : LostBetween t first (cs ++ [n]) k ↔ LostBetween t first cs k ∨
    n.kind = .rule .error ∧ first ≤ k ∧ k < n.info.firstToken ∧
      ∀ c ∈ cs, c.span.stop ≤ (t.get k).span.start := by
  constructor
  · rintro ⟨before, region, after, hsplit, hkind, hlost⟩
    rcases List.eq_nil_or_concat after with rfl | ⟨after, last, rfl⟩
    · obtain ⟨rfl, hlast⟩ := List.append_inj' hsplit rfl
      obtain rfl := (List.cons.inj hlast).1
      exact .inr ⟨hkind, hlost⟩
    · rw [List.concat_eq_append, ← List.cons_append, ← List.append_assoc] at hsplit
      exact .inl ⟨before, region, after, (List.append_inj' hsplit rfl).1, hkind, hlost⟩
  · rintro (⟨before, region, after, rfl, hkind, hlost⟩ | ⟨hkind, hlost⟩)
    · exact ⟨before, region, after ++ [n], by simp, hkind, hlost⟩
    · exact ⟨cs, n, [], rfl, hkind, hlost⟩

theorem lostBetween_inField :
    LostBetween t first (cs ++ [n.inField f]) k ↔ LostBetween t first (cs ++ [n]) k := by
  rw [lostBetween_concat, lostBetween_concat, Node.kind_inField, Node.firstToken_inField]

theorem Node.shows_inField : (n.inField f).Shows t k ↔ n.Shows t k := by
  rw [Shows, Shows, token_inField, kind_inField, span_inField]

theorem Node.loses_inField : (n.inField f).Loses t k ↔ n.Loses t k := by
  rw [Loses, Loses, kind_inField, firstToken_inField, children_inField]

/-- A node without children loses nothing. -/
theorem Node.not_loses (h : n.children = []) : ¬n.Loses t k := by
  rintro ⟨_, -, -, hlost⟩
  rw [h] at hlost
  exact not_lostBetween_nil hlost

theorem Node.not_shows_finish {r : Rule} (hr : r ≠ .error) (span : Span) (isPartial : Bool) :
    ¬(Node.finish (.rule r) span first isPartial cs).Shows t k := by
  rintro (htoken | ⟨hkind, -⟩)
  · cases htoken
  · exact hr (NodeKind.rule.inj hkind)

end

-- ---------------------------------------------------------------------------
-- Readings
-- ---------------------------------------------------------------------------

namespace Reading

variable {gaps : Bool} {i j k : Nat} {ns : List Node} {ds : List Diagnostic}

/-- A node shows only tokens that it covers. -/
theorem shows_bounds (ht : t.Ordered) (h : Reading t gaps i j ns ds) {m : Node}
    (hm : m ∈ Node.preorders ns) (hk : k < t.tokens.size) {i' j' : Nat} (hw : m.Within t i' j')
    (hshows : m.Shows t k) : i' ≤ k ∧ k < j' := by
  obtain ⟨hfirst, stop, hstop, hcovers⟩ := hw
  have hcontains : m.span.contains (t.get k).span = true := by
    rcases hshows with htoken | ⟨-, hcontains⟩
    · rw [(h.isTokenAt m hm k htoken).span]
      simp [Span.contains]
    · exact hcontains
  rw [hcovers.span, ht.contains_spanFrom_iff hcovers.le_stop hcovers.stop_le hk] at hcontains
  omega

/-- What ends before a token does not show it. -/
theorem not_shows_of_stop_le (ht : t.Ordered) (h : Reading t gaps i j ns ds)
    (hk : k < t.tokens.size) (hbefore : ∀ c ∈ ns.reverse, c.span.stop ≤ (t.get k).span.start) :
    ∀ m ∈ Node.preorders ns, ¬m.Shows t k := by
  intro m hm hshows
  obtain ⟨c, hc, hmc⟩ := Node.mem_preorders.1 hm
  obtain ⟨-, stop, -, hcovers, hbelow⟩ := h.nested c hc
  have hle := hbefore c (List.mem_reverse.2 hc)
  rw [hcovers.span, ht.stop_spanFrom_le_iff hcovers.stop_le hk] at hle
  have := h.shows_bounds ht hm hk (hbelow m hmc) hshows
  omega

/-- What ends at or before a place ends before the tokens from there on. -/
theorem stop_le_start (ht : t.Ordered) (h : Reading t gaps i j ns ds) (hjk : j ≤ k)
    (hk : k < t.tokens.size) : ∀ c ∈ ns.reverse, c.span.stop ≤ (t.get k).span.start := by
  intro c hc
  obtain ⟨-, stop, hstop, hcovers, -⟩ := h.nested c (List.mem_reverse.1 hc)
  rw [hcovers.span, ht.stop_spanFrom_le_iff hcovers.stop_le hk]
  exact Nat.le_trans hstop hjk

/-- The token at `k` is shown, or lost in front of an error region: one at hand, if tokens may be
lost here, or one further below. -/
def Explained (t : TokenStream) (gaps : Bool) (i : Nat) (ns : List Node) (k : Nat) : Prop :=
  (∃ n ∈ Node.preorders ns, n.Shows t k) ∨ (gaps = true ∧ LostBetween t i ns.reverse k) ∨
    ∃ n ∈ Node.preorders ns, n.Loses t k

theorem Explained.cons (h : Explained t gaps i ns k) (x : Node) :
    Explained t gaps i (x :: ns) k := by
  rcases h with ⟨n, hn, hshows⟩ | ⟨hgaps, hlost⟩ | ⟨n, hn, hloses⟩
  · exact .inl ⟨n, List.mem_append_right _ hn, hshows⟩
  · refine .inr (.inl ⟨hgaps, ?_⟩)
    rw [List.reverse_cons]
    exact lostBetween_concat.2 (.inl hlost)
  · exact .inr (.inr ⟨n, List.mem_append_right _ hn, hloses⟩)

theorem Explained.inField {n : Node} (h : Explained t gaps i (n :: ns) k) (f : Field) :
    Explained t gaps i (n.inField f :: ns) k := by
  unfold Explained at h ⊢
  rw [List.reverse_cons] at h ⊢
  rwa [Node.exists_mem_preorders_inField Node.shows_inField,
    Node.exists_mem_preorders_inField Node.loses_inField, lostBetween_inField]

/-- An error region shows the tokens that it covers. -/
theorem explained_error (ht : t.Ordered) {first stop : Nat} (hk : first ≤ k) (hkstop : k < stop)
    (hstop : stop ≤ t.tokens.size) :
    Explained t gaps i (.error (t.spanFrom first stop) first :: ns) k := by
  refine .inl ⟨_, List.mem_cons_self, .inr ⟨rfl, ?_⟩⟩
  exact (ht.contains_spanFrom_iff (by omega) hstop (by omega)).2 ⟨hk, hkstop⟩

/-- Every token of a reading is explained, unless it is a terminator. -/
theorem explained (ht : t.Ordered) (h : Reading t gaps i j ns ds) (hik : i ≤ k) (hkj : k < j)
    (hk : (t.kindAt k).isTerminator = false) : Explained t gaps i ns k := by
  induction h with
  | start => omega
  | terminator _ hj ih =>
    rcases Nat.lt_or_eq_of_le (Nat.le_of_lt_succ hkj) with hkj | rfl
    · exact ih hik hkj
    · rw [hj] at hk
      exact Bool.noConfusion hk
  | leaf _ _ _ ih =>
    rcases Nat.lt_or_eq_of_le (Nat.le_of_lt_succ hkj) with hkj | rfl
    · exact (ih hik hkj).cons _
    · exact .inl ⟨_, List.mem_cons_self, .inl rfl⟩
  | @node gaps inner i j stop ns cs ds es fs rule isPartial _ _ _ _ hinner _ ih ihBody =>
    rcases Nat.lt_or_ge k j with hlt | hge
    · exact (ih hik hlt).cons _
    have hbelow {m : Node} (hm : m ∈ Node.preorders cs) : m ∈ Node.preorders
        (Node.finish (.rule rule) (t.spanFrom j stop) j isPartial cs.reverse :: ns) :=
      List.mem_append_left _ (List.mem_cons_of_mem _ (Node.mem_preorders_reverse.2 hm))
    rcases ihBody hge hkj with ⟨m, hm, hshows⟩ | ⟨hgaps, hlost⟩ | ⟨m, hm, hloses⟩
    · exact .inl ⟨m, hbelow hm, hshows⟩
    · -- What the body has lost at hand, the node loses.
      exact .inr (.inr ⟨_, List.mem_cons_self, rule, rfl, hinner hgaps, hlost⟩)
    · exact .inr (.inr ⟨m, hbelow hm, hloses⟩)
  | region _ _ hstop _ ih =>
    rcases Nat.lt_or_ge k _ with hlt | hge
    · exact (ih hik hlt).cons _
    · exact explained_error ht hge hkj hstop
  | @brokenHeader i j j' stop ns ds d before _ _ hstop _ ih =>
    rcases Nat.lt_or_ge k j with hlt | hge
    · exact (ih hik hlt).cons _
    rcases Nat.lt_or_ge k j' with hlt | hge'
    · refine .inr (.inl ⟨rfl, ?_⟩)
      rw [List.reverse_cons]
      exact lostBetween_concat.2 (.inr ⟨rfl, hik, hlt, before.stop_le_start ht hge (by omega)⟩)
    · exact explained_error ht hge' hkj hstop
  | inField _ f ih => exact (ih hik hkj).inField f

/-- The token at `k` is one of the reading, and nothing shows it. -/
def Unseen (t : TokenStream) (i j : Nat) (ns : List Node) (k : Nat) : Prop :=
  i ≤ k ∧ k < j ∧ ∀ n ∈ Node.preorders ns, ¬n.Shows t k

/-- The token at `k` is lost in front of an error region at hand or further below. -/
def Lost (t : TokenStream) (i : Nat) (ns : List Node) (k : Nat) : Prop :=
  LostBetween t i ns.reverse k ∨ ∃ n ∈ Node.preorders ns, n.Loses t k

/-- What is lost with another node is lost without it, or in it, or directly in front of it. -/
theorem Lost.cases {x : Node} (h : Lost t i (x :: ns) k) :
    Lost t i ns k ∨ x.Loses t k ∨ (∃ n ∈ Node.preorders x.children, n.Loses t k) ∨
      x.kind = .rule .error ∧ i ≤ k ∧ k < x.info.firstToken ∧
        ∀ c ∈ ns.reverse, c.span.stop ≤ (t.get k).span.start := by
  rcases h with hlost | ⟨n, hn, hloses⟩
  · rw [List.reverse_cons, lostBetween_concat] at hlost
    rcases hlost with hlost | hlast
    · exact .inl (.inl hlost)
    · exact .inr (.inr (.inr hlast))
  · rw [Node.preorders, Node.preorder_eq, List.cons_append, List.mem_cons, List.mem_append] at hn
    rcases hn with rfl | hn | hn
    · exact .inr (.inl hloses)
    · exact .inr (.inr (.inl ⟨n, hn, hloses⟩))
    · exact .inl (.inr ⟨n, hn, hloses⟩)

/-- An error region hides nothing that is lost in front of it. -/
theorem unseen_error (ht : t.Ordered) (h : Reading t gaps i j ns ds) {first stop : Nat}
    (hjfirst : j ≤ first) (hfirst : first ≤ stop) (hstop : stop ≤ t.tokens.size)
    (ih : Lost t i ns k → Unseen t i j ns k)
    (hlost : Lost t i (.error (t.spanFrom first stop) first :: ns) k) :
    Unseen t i stop (.error (t.spanFrom first stop) first :: ns) k := by
  have hregion (hk : k < first) : ¬(Node.error (t.spanFrom first stop) first).Shows t k := by
    rintro (htoken | ⟨-, hcontains⟩)
    · cases htoken
    · have := (ht.contains_spanFrom_iff hfirst hstop (by omega)).1 hcontains
      omega
  rcases hlost.cases with hlost | hloses | ⟨n, hn, -⟩ | ⟨-, hik, hk, hbefore⟩
  · obtain ⟨hik, hkj, hunseen⟩ := ih hlost
    have hk : k < first := by omega
    exact ⟨hik, by omega, List.forall_mem_cons.2 ⟨hregion hk, hunseen⟩⟩
  · exact absurd hloses (Node.not_loses rfl)
  · exact absurd hn List.not_mem_nil
  · replace hk : k < first := hk
    refine ⟨hik, by omega, List.forall_mem_cons.2 ⟨hregion hk, ?_⟩⟩
    exact h.not_shows_of_stop_le ht (by omega) hbefore

/-- A node hides nothing that is lost in it or in front of it: what its body loses, the nodes in
front do not show, as they cover other tokens. -/
theorem unseen_node (ht : t.Ordered) (h : Reading t gaps i j ns ds) {inner isPartial : Bool}
    {stop : Nat} {cs : List Node} {es : List Diagnostic} {rule : Rule} (hrule : rule ≠ .error)
    (hbody : Reading t inner j stop cs es) (ih : Lost t i ns k → Unseen t i j ns k)
    (ihBody : Lost t j cs k → Unseen t j stop cs k)
    (hlost : Lost t i (.finish (.rule rule) (t.spanFrom j stop) j isPartial cs.reverse :: ns) k) :
    Unseen t i stop (.finish (.rule rule) (t.spanFrom j stop) j isPartial cs.reverse :: ns) k := by
  have hnode : ¬(Node.finish (.rule rule) (t.spanFrom j stop) j isPartial cs.reverse).Shows t k :=
    Node.not_shows_finish hrule _ _
  have hij := h.le_stop
  have hjstop := hbody.le_stop
  have hstop := hbody.stop_le
  have hinside (hlost : Lost t j cs k) : Unseen t i stop
      (.finish (.rule rule) (t.spanFrom j stop) j isPartial cs.reverse :: ns) k := by
    obtain ⟨hjk, hkstop, hunseen⟩ := ihBody hlost
    refine ⟨by omega, hkstop, ?_⟩
    refine List.forall_mem_append.2
      ⟨List.forall_mem_cons.2 ⟨hnode, fun n hn => ?_⟩, fun n hn hs => ?_⟩
    · exact hunseen n (Node.mem_preorders_reverse.1 hn)
    · have := h.shows_bounds ht hn (by omega) (h.within n hn) hs
      omega
  rcases hlost.cases with hlost | ⟨_, -, -, hlost⟩ | ⟨n, hn, hloses⟩ | ⟨hk, -⟩
  · obtain ⟨hik, hkj, hunseen⟩ := ih hlost
    refine ⟨hik, by omega, ?_⟩
    refine List.forall_mem_append.2 ⟨List.forall_mem_cons.2 ⟨hnode, fun n hn hs => ?_⟩, hunseen⟩
    have hn' := Node.mem_preorders_reverse.1 hn
    have := hbody.shows_bounds ht hn' (by omega) (hbody.within n hn') hs
    omega
  · exact hinside (.inl hlost)
  · exact hinside (.inr ⟨n, Node.mem_preorders_reverse.1 hn, hloses⟩)
  · exact absurd (NodeKind.rule.inj hk) hrule

/-- Nothing in a reading shows what is lost. -/
theorem unseen (ht : t.Ordered) (h : Reading t gaps i j ns ds) (hlost : Lost t i ns k) :
    Unseen t i j ns k := by
  induction h with
  | start =>
    rcases hlost with hlost | ⟨n, hn, -⟩
    · exact absurd hlost not_lostBetween_nil
    · exact absurd hn List.not_mem_nil
  | terminator _ _ ih =>
    obtain ⟨hik, hkj, hunseen⟩ := ih hlost
    exact ⟨hik, Nat.lt_succ_of_lt hkj, hunseen⟩
  | leaf _ _ hkind ih =>
    rcases hlost.cases with hlost | hloses | ⟨n, hn, -⟩ | ⟨hk, -⟩
    · obtain ⟨hik, hkj, hunseen⟩ := ih hlost
      refine ⟨hik, Nat.lt_succ_of_lt hkj, List.forall_mem_cons.2 ⟨?_, hunseen⟩⟩
      rintro (htoken | ⟨hk, -⟩)
      · exact absurd (Option.some.inj htoken) (Nat.ne_of_gt hkj)
      · exact NodeKind.ne_error hkind hk
    · exact absurd hloses (Node.not_loses rfl)
    · exact absurd hn List.not_mem_nil
    · exact absurd hk (NodeKind.ne_error hkind)
  | node before body _ hrule _ _ ih ihBody =>
    exact before.unseen_node ht hrule body ih ihBody hlost
  | region before hjk hstop _ ih =>
    exact before.unseen_error ht (Nat.le_refl _) hjk.le hstop ih hlost
  | brokenHeader before hj hjk hstop _ ih =>
    exact before.unseen_error ht hj hjk.le hstop ih hlost
  | @inField gaps i j n ns ds _ f ih =>
    unfold Lost at ih hlost
    unfold Unseen at ih ⊢
    rw [List.reverse_cons] at hlost ih
    rw [lostBetween_inField, Node.exists_mem_preorders_inField Node.loses_inField] at hlost
    obtain ⟨hik, hkj, hunseen⟩ := ih hlost
    exact ⟨hik, hkj, Node.forall_mem_preorders_inField (mt Node.shows_inField.1) hunseen⟩

end Reading

-- ---------------------------------------------------------------------------
-- Trees
-- ---------------------------------------------------------------------------

/-- Which tokens the tree accounts for, and in particular which ones in front of its error
regions. -/
structure RecoveryAccounted (t : TokenStream) (root : Node) : Prop where
  accounted_iff : ∀ k < t.tokens.size, Accounted t root k ↔ ¬LostInHeader t root k
  before_region_iff : ∀ n ∈ root.preorder, n.kind = .rule .error → 0 < n.info.firstToken →
    (Accounted t root (n.info.firstToken - 1) ↔ ¬LostInHeader t root (n.info.firstToken - 1))

/-- What is not the root of a tree is in the listing of what was read. -/
theorem exists_mem_preorder_root {p : Node → Prop} {span : Span} {cs : List Node}
    (hp : ¬p (.finish (.rule .sourceFile) span 0 false cs.reverse)) :
    (∃ n ∈ (Node.finish (.rule .sourceFile) span 0 false cs.reverse).preorder, p n) ↔
      ∃ n ∈ Node.preorders cs, p n := by
  rw [Node.preorder_eq]
  constructor
  · rintro ⟨n, hn, hpn⟩
    rcases List.mem_cons.1 hn with rfl | hn
    · exact absurd hpn hp
    · exact ⟨n, Node.mem_preorders_reverse.1 hn, hpn⟩
  · rintro ⟨n, hn, hpn⟩
    exact ⟨n, List.mem_cons_of_mem _ (Node.mem_preorders_reverse.2 hn), hpn⟩

/-- The root of a tree over all tokens accounts for a token exactly if it was not lost. -/
theorem Reading.accounted_iff (ht : t.Ordered) {cs : List Node} {ds : List Diagnostic} {span : Span}
    (h : Reading t false 0 t.tokens.size cs ds) {k : Nat} (hk : k < t.tokens.size) :
    Accounted t (.finish (.rule .sourceFile) span 0 false cs.reverse) k ↔
      ¬LostInHeader t (.finish (.rule .sourceFile) span 0 false cs.reverse) k := by
  have hloses : ¬(Node.finish (.rule .sourceFile) span 0 false cs.reverse).Loses t k := by
    rintro ⟨r, hr, hkeeps, -⟩
    obtain rfl := NodeKind.rule.inj hr
    exact Bool.noConfusion hkeeps
  have hshows : ¬(Node.finish (.rule .sourceFile) span 0 false cs.reverse).Shows t k :=
    Node.not_shows_finish (by decide) span false
  rw [Accounted, LostInHeader, exists_mem_preorder_root hshows, exists_mem_preorder_root hloses]
  constructor
  · rintro (hterminator | ⟨n, hn, hshows⟩) ⟨hlasting, hlost⟩
    · rw [hterminator] at hlasting
      exact Bool.noConfusion hlasting
    · exact (h.unseen ht (.inr hlost)).2.2 n hn hshows
  · intro hkept
    cases hterminator : (t.kindAt k).isTerminator with
    | true => exact .inl rfl
    | false =>
      rcases h.explained ht (Nat.zero_le k) hk hterminator with hshown | ⟨hgaps, -⟩ | hlost
      · exact .inr hshown
      · exact Bool.noConfusion hgaps
      · exact absurd ⟨hterminator, hlost⟩ hkept

/-- The tree of a source accounts for a token exactly if it was not lost in a header. -/
theorem recovery_accounted (source : List Char) (limits : Limits) :
    RecoveryAccounted (TokenStream.ofText source)
      (Tree.ofTokens source (TokenStream.ofText source) limits.maxNestingDepth).root := by
  obtain ⟨cs, ds, stop, hroot, hr, hend, -⟩ :=
    Tree.reading_ofTokens source (TokenStream.ofText source) limits.maxNestingDepth
  have ht := TokenStream.ordered_ofText source
  obtain rfl := ht.eq_size hr.stop_le hend
  rw [hroot]
  refine ⟨fun k hk => hr.accounted_iff ht hk, fun n hn hkind hpos => hr.accounted_iff ht ?_⟩
  rw [Node.preorder_eq, List.mem_cons] at hn
  rcases hn with rfl | hn
  · cases hkind
  · obtain ⟨-, stop, hstop, hcovers⟩ := hr.within n (Node.mem_preorders_reverse.1 hn)
    have hfirst := hcovers.le_stop
    omega

/-- A class whose second line breaks off behind a word, which is then nowhere in the tree. -/
def classWithBareInherits : List Char := "Class C\nInherits\nEnd Class\n".toList

/-- The token in front of an error region may be lost. -/
theorem exists_lost_token : ∃ n ∈ (Tree.parse classWithBareInherits).root.preorder,
    n.kind = .rule .error ∧ 0 < n.info.firstToken ∧
      ¬Accounted (TokenStream.ofText classWithBareInherits) (Tree.parse classWithBareInherits).root
        (n.info.firstToken - 1) := by
  decide +kernel

end VisualBasic
