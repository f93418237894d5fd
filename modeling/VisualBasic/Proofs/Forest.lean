import VisualBasic.Proofs.Declaration
import VisualBasic.Proofs.TokenOrder
import VisualBasic.Tree

/-!
# What a tree covers

Nodes and the tokens they cover. The nodes of a reading lie where the reading goes, and each of them
covers tokens in a row: from its first token up to a place behind it. Offsets in the source and
places among the tokens say the same, as the tokens follow one another.

Main results:

* `TokenStream.Ordered.contains_spanFrom_iff` — a span over tokens contains those and no others.
* `Reading.shape` — what is said of the nodes of a reading.
* `Reading.within` — what a reading makes of a stretch of tokens lies within that stretch.
* `Tree.reading_ofTokens` — the tree of a source is a reading of its tokens, all of them.
-/

namespace VisualBasic

-- ---------------------------------------------------------------------------
-- Listings
-- ---------------------------------------------------------------------------

namespace Node

theorem preorder_eq (n : Node) : n.preorder = n :: preorders n.children := by
  cases n
  rfl

theorem preorders_eq_flatMap (ns : List Node) : preorders ns = ns.flatMap preorder := by
  induction ns with
  | nil => rfl
  | cons n rest ih => rw [preorders, List.flatMap_cons, ih]

theorem mem_preorders {m : Node} {ns : List Node} :
    m ∈ preorders ns ↔ ∃ n ∈ ns, m ∈ n.preorder := by
  rw [preorders_eq_flatMap, List.mem_flatMap]

theorem mem_preorder_self (n : Node) : n ∈ n.preorder := by
  rw [preorder_eq]
  exact List.mem_cons_self

theorem mem_preorders_reverse {m : Node} {ns : List Node} :
    m ∈ preorders ns.reverse ↔ m ∈ preorders ns := by
  simp only [mem_preorders, List.mem_reverse]

theorem preorders_reverse_perm (ns : List Node) : (preorders ns.reverse).Perm (preorders ns) := by
  rw [preorders_eq_flatMap, preorders_eq_flatMap]
  exact (List.reverse_perm ns).flatMap_right preorder

theorem preorder_inField (n : Node) (f : Field) :
    (n.inField f).preorder = n.inField f :: preorders n.children := by
  rw [preorder_eq, children_inField]

/-- What holds of a node in whatever role, and of all below it, holds with the node in a role. -/
theorem forall_mem_preorder_inField {p : Node → Prop} {n : Node} {f : Field}
    (hp : p n → p (n.inField f)) (h : ∀ m ∈ n.preorder, p m) :
    ∀ m ∈ (n.inField f).preorder, p m := by
  rw [preorder_eq, List.forall_mem_cons] at h
  rw [preorder_inField, List.forall_mem_cons]
  exact ⟨hp h.1, h.2⟩

theorem forall_mem_preorders_inField {p : Node → Prop} {n : Node} {ns : List Node} {f : Field}
    (hp : p n → p (n.inField f)) (h : ∀ m ∈ preorders (n :: ns), p m) :
    ∀ m ∈ preorders (n.inField f :: ns), p m := by
  rw [preorders, List.forall_mem_append] at h ⊢
  exact ⟨forall_mem_preorder_inField hp h.1, h.2⟩

/-- There is a node of some kind in a listing exactly if there is one in it with the first node
in a role. -/
theorem exists_mem_preorders_inField {p : Node → Prop} {n : Node} {ns : List Node} {f : Field}
    (hp : p (n.inField f) ↔ p n) :
    (∃ m ∈ preorders (n.inField f :: ns), p m) ↔ ∃ m ∈ preorders (n :: ns), p m := by
  rw [preorders, preorders, preorder_inField, preorder_eq n]
  simp only [List.cons_append, List.mem_cons, exists_eq_or_imp, hp]

/-- The node covers the tokens from its first one up to `stop`. -/
structure Covers (t : TokenStream) (n : Node) (stop : Nat) : Prop where
  le_stop : n.info.firstToken ≤ stop
  stop_le : stop ≤ t.tokens.size
  span : n.span = t.spanFrom n.info.firstToken stop

theorem Covers.inField {t : TokenStream} {n : Node} {stop : Nat} (h : n.Covers t stop) (f : Field) :
    (n.inField f).Covers t stop := by
  refine ⟨?_, h.stop_le, ?_⟩
  · rw [firstToken_inField]
    exact h.le_stop
  · rw [span_inField, firstToken_inField]
    exact h.span

end Node

-- ---------------------------------------------------------------------------
-- Offsets and places among the tokens
-- ---------------------------------------------------------------------------

namespace TokenStream

/-- How many tokens end at or before an offset. -/
def tokensBefore (t : TokenStream) (offset : Nat) : Nat :=
  t.tokens.toList.countP fun token => token.span.stop ≤ offset

namespace Ordered

variable {t : TokenStream} {i j k : Nat}

theorem stop_le_stop (h : t.Ordered) (hij : i ≤ j) (hj : j < t.tokens.size) :
    (t.get i).span.stop ≤ (t.get j).span.stop := by
  rcases Nat.lt_or_eq_of_le hij with hij | rfl
  · have := h.stop_le_start i j hij (Nat.le_of_lt hj)
    have := h.start_lt_stop j hj
    omega
  · exact Nat.le_refl _

/-- A token ends before another one begins exactly if it stands before it. -/
theorem stop_le_start_iff (h : t.Ordered) (hi : i < t.tokens.size) (hk : k ≤ t.tokens.size) :
    (t.get i).span.stop ≤ (t.get k).span.start ↔ i < k := by
  refine ⟨fun hle => Nat.lt_of_not_le fun hki => ?_, fun hik => h.stop_le_start i k hik hk⟩
  have hlt := h.start_lt_stop i hi
  rcases Nat.lt_or_eq_of_le hki with hki | rfl
  · have hki := h.stop_le_start k i hki (Nat.le_of_lt hi)
    have := h.start_lt_stop k (by omega)
    omega
  · omega

theorem start_le_start (h : t.Ordered) (hij : i ≤ j) (hj : j ≤ t.tokens.size) :
    (t.get i).span.start ≤ (t.get j).span.start := by
  rcases Nat.lt_or_eq_of_le hij with hij | rfl
  · have := h.stop_le_start i j hij hj
    have := h.start_lt_stop i (by omega)
    omega
  · exact Nat.le_refl _

theorem start_le_start_iff (h : t.Ordered) (hi : i ≤ t.tokens.size) (hk : k < t.tokens.size) :
    (t.get i).span.start ≤ (t.get k).span.start ↔ i ≤ k := by
  refine ⟨fun hle => Nat.le_of_not_lt fun hki => ?_, fun hik => ?_⟩
  · have := h.stop_le_start k i hki hi
    have := h.start_lt_stop k hk
    omega
  · exact h.start_le_start hik (Nat.le_of_lt hk)

/-- The tokens from `i` up to `j` end before a token begins exactly if they stand before it. -/
theorem stop_spanFrom_le_iff (h : t.Ordered) (hj : j ≤ t.tokens.size)
    (hk : k < t.tokens.size) : (t.spanFrom i j).stop ≤ (t.get k).span.start ↔ j ≤ k := by
  unfold spanFrom
  split
  · have := h.stop_le_start_iff (i := j - 1) (by omega) (Nat.le_of_lt hk)
    rw [this]
    omega
  · exact h.start_le_start_iff hj hk

theorem start_spanFrom (t : TokenStream) (hij : i ≤ j) :
    (t.spanFrom i j).start = (t.get i).span.start := by
  unfold spanFrom
  split
  · rfl
  · obtain rfl : i = j := by omega
    rfl

/-- A token ends where the tokens from `i` up to `j` do or earlier exactly if it stands before
`j`. -/
theorem stop_le_stop_spanFrom_iff (h : t.Ordered) (hj : j ≤ t.tokens.size)
    (hk : k < t.tokens.size) : (t.get k).span.stop ≤ (t.spanFrom i j).stop ↔ k < j := by
  unfold spanFrom
  split
  · refine ⟨fun hle => Nat.lt_of_not_le fun hjk => ?_, fun hkj => ?_⟩
    · have hle : (t.get k).span.stop ≤ (t.get (j - 1)).span.stop := hle
      have := h.stop_le_start (j - 1) k (by omega) (Nat.le_of_lt hk)
      have := h.start_lt_stop k hk
      omega
    · exact h.stop_le_stop (Nat.le_sub_one_of_lt hkj) (by omega)
  · exact h.stop_le_start_iff hk hj

/-- A span over tokens contains those tokens and no others. -/
theorem contains_spanFrom_iff (h : t.Ordered) (hij : i ≤ j) (hj : j ≤ t.tokens.size)
    (hk : k < t.tokens.size) :
    (t.spanFrom i j).contains (t.get k).span = true ↔ i ≤ k ∧ k < j := by
  unfold Span.contains
  rw [Bool.and_eq_true, decide_eq_true_eq, decide_eq_true_eq, start_spanFrom t hij,
    h.start_le_start_iff (Nat.le_trans hij hj) hk, h.stop_le_stop_spanFrom_iff hj hk]

/-- The place of an offset among the tokens. -/
theorem tokensBefore_stop_spanFrom (h : t.Ordered) (hj : j ≤ t.tokens.size) :
    t.tokensBefore (t.spanFrom i j).stop = j := by
  -- The tokens that end at or before the offset are the first `j` ones.
  have hlist : t.tokens.toList = t.tokens.toList.take j ++ t.tokens.toList.drop j :=
    (List.take_append_drop j _).symm
  unfold tokensBefore
  rw [hlist, List.countP_append, List.countP_eq_length.2, List.countP_eq_zero.2]
  · simp [Nat.min_eq_left hj]
  · intro token htoken
    obtain ⟨k, hk, rfl⟩ := List.mem_drop_iff_getElem.1 htoken
    have hk' : j + k < t.tokens.size := by
      rw [Array.length_toList] at hk
      omega
    have := h.stop_le_stop_spanFrom_iff (i := i) hj hk'
    rw [get_eq_getElem hk'] at this
    simp only [Array.getElem_toList, decide_eq_true_eq, this]
    omega
  · intro token htoken
    obtain ⟨k, hk, rfl⟩ := List.mem_take_iff_getElem.1 htoken
    have hk' : k < t.tokens.size := by
      have : k < min j t.tokens.toList.length := hk
      rw [Array.length_toList] at this
      omega
    have := h.stop_le_stop_spanFrom_iff (i := i) hj hk'
    rw [get_eq_getElem hk'] at this
    simp only [Array.getElem_toList, decide_eq_true_eq, this]
    omega

end Ordered

end TokenStream

-- ---------------------------------------------------------------------------
-- Where the nodes of a reading lie
-- ---------------------------------------------------------------------------

/-- The node is a leaf made from the token at `i`. -/
structure Node.IsTokenAt (t : TokenStream) (n : Node) (i : Nat) : Prop where
  lt_size : i < t.tokens.size
  firstToken : n.info.firstToken = i
  span : n.span = (t.get i).span
  children : n.children = []

theorem Node.IsTokenAt.inField {t : TokenStream} {n : Node} {i : Nat} (h : n.IsTokenAt t i)
    (f : Field) : (n.inField f).IsTokenAt t i := by
  refine ⟨h.lt_size, ?_, ?_, ?_⟩
  · rw [firstToken_inField]
    exact h.firstToken
  · rw [span_inField]
    exact h.span
  · rw [children_inField]
    exact h.children

/-- The node covers none but tokens from `i` up to `j`. -/
def Node.Within (t : TokenStream) (i j : Nat) (n : Node) : Prop :=
  i ≤ n.info.firstToken ∧ ∃ stop, stop ≤ j ∧ n.Covers t stop

/-- The node lies between two places, and all below it lie where it lies. -/
def Node.Nested (t : TokenStream) (i j : Nat) (n : Node) : Prop :=
  i ≤ n.info.firstToken ∧
    ∃ stop, stop ≤ j ∧ n.Covers t stop ∧ ∀ m ∈ n.preorder, m.Within t n.info.firstToken stop

section

variable {t : TokenStream} {gaps : Bool} {i i' j j' : Nat} {n : Node} {ns : List Node}
  {ds : List Diagnostic}

theorem Node.Within.mono (h : n.Within t i j) (hi : i' ≤ i) (hj : j ≤ j') : n.Within t i' j' := by
  obtain ⟨hfirst, stop, hstop, hcovers⟩ := h
  exact ⟨Nat.le_trans hi hfirst, stop, Nat.le_trans hstop hj, hcovers⟩

theorem Node.Nested.mono (h : n.Nested t i j) (hj : j ≤ j') : n.Nested t i j' := by
  obtain ⟨hfirst, stop, hstop, hn⟩ := h
  exact ⟨hfirst, stop, Nat.le_trans hstop hj, hn⟩

/-- A node without children lies where it is. -/
theorem Node.Nested.of_children_nil {stop : Nat} (hchildren : n.children = [])
    (hi : i ≤ n.info.firstToken)
    (hstop : stop ≤ j) (hcovers : n.Covers t stop) : n.Nested t i j := by
  refine ⟨hi, stop, hstop, hcovers, fun m hm => ?_⟩
  rw [Node.preorder_eq, hchildren, Node.preorders, List.mem_singleton] at hm
  subst hm
  exact ⟨Nat.le_refl _, stop, Nat.le_refl _, hcovers⟩

theorem Node.Nested.inField (h : n.Nested t i j) (f : Field) : (n.inField f).Nested t i j := by
  obtain ⟨hfirst, stop, hstop, hcovers, hbelow⟩ := h
  rw [Nested, firstToken_inField]
  refine ⟨hfirst, stop, hstop, hcovers.inField f, forall_mem_preorder_inField (fun hn => ?_) hbelow⟩
  obtain ⟨hle, stop', hstop', hn⟩ := hn
  rw [Within, firstToken_inField]
  exact ⟨hle, stop', hstop', hn.inField f⟩

/-- If the nodes of a list are nested, all in their listing lie where the list does. -/
theorem Node.within_of_nested (h : ∀ n ∈ ns, n.Nested t i j) :
    ∀ m ∈ preorders ns, m.Within t i j := by
  intro m hm
  obtain ⟨n, hn, hm⟩ := mem_preorders.1 hm
  obtain ⟨hfirst, stop, hstop, -, hbelow⟩ := h n hn
  exact (hbelow m hm).mono hfirst hstop

namespace Reading

/-- The nodes of a reading, and all below them, lie where they belong. -/
theorem nested (h : Reading t gaps i j ns ds) : ∀ n ∈ ns, n.Nested t i j := by
  induction h with
  | start => exact nofun
  | terminator _ _ ih => exact fun n hn => (ih n hn).mono (Nat.le_succ _)
  | @leaf _ i j ns ds kind before hj _ ih =>
    refine List.forall_mem_cons.2 ⟨?_, fun n hn => (ih n hn).mono (Nat.le_succ j)⟩
    refine .of_children_nil rfl before.le_stop (Nat.le_refl (j + 1)) ⟨Nat.le_succ j, ?_, ?_⟩
    · exact TokenStream.lt_size_of_kindAt_ne hj
    · exact (t.spanFrom_succ j).symm
  | @node _ _ i j k ns cs ds es fs rule isPartial before body _ _ _ _ ih ihBody =>
    refine List.forall_mem_cons.2 ⟨⟨before.le_stop, k, Nat.le_refl k, ?_, fun m hm => ?_⟩,
      fun n hn => (ih n hn).mono body.le_stop⟩
    · exact ⟨body.le_stop, body.stop_le, rfl⟩
    · rw [Node.preorder_eq, List.mem_cons] at hm
      rcases hm with rfl | hm
      · exact ⟨Nat.le_refl _, k, Nat.le_refl k, body.le_stop, body.stop_le, rfl⟩
      · exact Node.within_of_nested ihBody m (Node.mem_preorders_reverse.1 hm)
  | @region _ i j k ns ds d before hjk hk _ ih =>
    refine List.forall_mem_cons.2 ⟨?_, fun n hn => (ih n hn).mono hjk.le⟩
    exact .of_children_nil rfl before.le_stop (Nat.le_refl k) ⟨hjk.le, hk, rfl⟩
  | @brokenHeader i j j' k ns ds d before hj hjk hk _ ih =>
    refine List.forall_mem_cons.2 ⟨?_, fun n hn => (ih n hn).mono (Nat.le_trans hj hjk.le)⟩
    exact .of_children_nil rfl (Nat.le_trans before.le_stop hj) (Nat.le_refl k) ⟨hjk.le, hk, rfl⟩
  | inField _ f ih =>
    obtain ⟨hn, hns⟩ := List.forall_mem_cons.1 ih
    exact List.forall_mem_cons.2 ⟨hn.inField f, hns⟩

/-- A node that is said to be a token is a leaf made from that token. -/
theorem isTokenAt (h : Reading t gaps i j ns ds) :
    ∀ n ∈ Node.preorders ns, ∀ k ∈ n.info.token, n.IsTokenAt t k := by
  induction h with
  | start => exact nofun
  | terminator _ _ ih => exact ih
  | leaf _ hj _ ih =>
    refine List.forall_mem_cons.2 ⟨fun k hk => ?_, ih⟩
    obtain rfl := Option.some.inj hk
    exact ⟨TokenStream.lt_size_of_kindAt_ne hj, rfl, rfl, rfl⟩
  | node _ _ _ _ _ _ ih ihBody =>
    refine List.forall_mem_append.2 ⟨List.forall_mem_cons.2 ⟨nofun, fun n hn => ?_⟩, ih⟩
    exact ihBody n (Node.mem_preorders_reverse.1 hn)
  | region _ _ _ _ ih => exact List.forall_mem_cons.2 ⟨nofun, ih⟩
  | brokenHeader _ _ _ _ _ ih => exact List.forall_mem_cons.2 ⟨nofun, ih⟩
  | inField _ f ih =>
    refine Node.forall_mem_preorders_inField (fun hn k hk => ?_) ih
    rw [Node.token_inField] at hk
    exact (hn k hk).inField f

/-- What is said of the nodes of a reading whose rules are not plain. -/
theorem shape (h : Reading t gaps i j ns ds) :
    ∀ n ∈ Node.preorders ns, ∀ r, n.kind = .rule r → r.isPlain = false → r ≠ .error →
      ∃ k, Shape t r n.info.firstToken k n.flags.isPartial n.children := by
  induction h with
  | start => exact nofun
  | terminator _ _ ih => exact ih
  | leaf _ _ hkind ih =>
    refine List.forall_mem_cons.2 ⟨?_, ih⟩
    rintro r rfl hr
    exact absurd (hr.symm.trans hkind) Bool.false_ne_true
  | node _ _ _ _ _ shape ih ihBody =>
    refine List.forall_mem_append.2 ⟨List.forall_mem_cons.2 ⟨?_, fun n hn => ?_⟩, ih⟩
    · rintro r hr - -
      obtain rfl := NodeKind.rule.inj hr
      exact ⟨_, shape⟩
    · exact ihBody n (Node.mem_preorders_reverse.1 hn)
  | region _ _ _ _ ih =>
    exact List.forall_mem_cons.2 ⟨fun r hr _ hne => absurd (NodeKind.rule.inj hr).symm hne, ih⟩
  | brokenHeader _ _ _ _ _ ih =>
    exact List.forall_mem_cons.2 ⟨fun r hr _ hne => absurd (NodeKind.rule.inj hr).symm hne, ih⟩
  | inField _ f ih =>
    refine Node.forall_mem_preorders_inField (fun hn => ?_) ih
    rw [Node.kind_inField, Node.firstToken_inField, Node.flags_inField, Node.children_inField]
    exact hn

/-- What a reading makes of a stretch of tokens lies within that stretch. -/
theorem within (h : Reading t gaps i j ns ds) : ∀ m ∈ Node.preorders ns, m.Within t i j :=
  Node.within_of_nested h.nested

end Reading

end

-- ---------------------------------------------------------------------------
-- The tree of a source
-- ---------------------------------------------------------------------------

/-- The tree of a source is a reading of its tokens up to the end of the text. -/
theorem Tree.reading_ofTokens (source : List Char) (tokens : TokenStream) (limit : Nat) :
    ∃ cs ds stop, (ofTokens source tokens limit).root =
        .finish (.rule .sourceFile) ⟨0, Text.byteLength source⟩ 0 false cs.reverse ∧
      Reading tokens false 0 stop cs ds ∧ tokens.kindAt stop = .endOfFile ∧
      (ofTokens source tokens limit).diagnostics =
        (tokens.errors.map Diagnostic.ofLexicalError ++ ds.reverse).mergeSort
          fun a b => a.span.start ≤ b.span.start := by
  have hrun := Production.NeverFails.sourceFile.run_eq { source, tokens, limit }
    ({ diagnostics := (tokens.errors.map Diagnostic.ofLexicalError).reverse } : State)
  obtain ⟨cs, ds, s', hres, hr, hd, hend⟩ := Production.reading_sourceFile { source, tokens, limit }
    { diagnostics := (tokens.errors.map Diagnostic.ofLexicalError).reverse } (Nat.zero_le _)
  rw [hres] at hrun
  obtain ⟨hroot, hstate⟩ := EStateM.Result.ok.inj hrun
  refine ⟨cs, ds, s'.cursor, ?_, hr, hend, ?_⟩
  · show Node.withSpan _ (Production.NeverFails.sourceFile.result _ _).1 = _
    rw [← hroot]
    rfl
  · show (Production.NeverFails.sourceFile.result _ _).2.diagnostics.reverse.mergeSort _ = _
    rw [← hstate, hd, List.reverse_append, List.reverse_reverse]

end VisualBasic
