import VisualBasic.Proofs.ErrorAccounting
import VisualBasic.Proofs.Nesting
import VisualBasic.Proofs.PassageLaws

/-!
# What error regions spare

An error region reaches to the end of its line. Where it begins with the line that closes a block
around it, that block loses its closing line. Between the items of a body this does not happen: a
line that closes an open block ends the body, so no item begins there. A header that breaks off is
another matter. The region begins where it broke off, and that may be on a later line, if it broke
off within parentheses or braces.

Here is what it means for a tree, for a node and for the node under construction that closing lines
are spared. They speak of one closing line at a time, by the word behind its `End`.

Main results:

* `Kept.finish` — what is in a block spares its closing line if all its children do.
* `Reading.fits` — what was read without diagnostics takes no closing line away.
-/

namespace VisualBasic

-- ---------------------------------------------------------------------------
-- Closing lines and error regions
-- ---------------------------------------------------------------------------

/-- A line begins at the index, and it closes blocks of the word; without a word, no line does. -/
structure TokenStream.ClosesAt (t : TokenStream) (word : Option Keyword) (i : Nat) : Prop where
  pos : 0 < i
  newline : t.kindAt (i - 1) = .newline
  «end» : t.kindAt i = .keyword .kwEnd
  word : word.map TokenKind.keyword = some (t.kindAt (i + 1))

instance (t : TokenStream) (word : Option Keyword) (i : Nat) : Decidable (t.ClosesAt word i) :=
  decidable_of_iff (0 < i ∧ t.kindAt (i - 1) = .newline ∧ t.kindAt i = .keyword .kwEnd ∧
      word.map TokenKind.keyword = some (t.kindAt (i + 1)))
    ⟨fun ⟨hpos, hnewline, hend, hword⟩ => ⟨hpos, hnewline, hend, hword⟩,
      fun h => ⟨h.pos, h.newline, h.end, h.word⟩⟩

/-- The word behind `End` in the closing line of nodes of a rule, if it is the same for all of
them. -/
def Rule.closer? : Rule → Option Keyword
  | .propertyDeclaration => some .kwProperty
  | .eventDeclaration => some .kwEvent
  | r => r.opener?.filter Keyword.isClosedByEnd

/-- Whether the closing line of a node is a matter of its rule, as it is but for routines and for
`If`. -/
def Rule.saysCloser : Rule → Bool
  | .methodDeclaration | .constructorDeclaration | .ifStatement | .error => false
  | _ => true

namespace Node

def word? (n : Node) : Option Keyword :=
  match n.kind with
  | .token (.keyword word) => some word
  | _ => none

/-- The word behind `End` in the closing line of a block. That of a routine is the word that opens
it; an `If` on a single line has no closing line. -/
def closer? (n : Node) : Option Keyword :=
  match n.kind with
  | .rule .methodDeclaration | .rule .constructorDeclaration => n.children.findSome? word?
  | .rule .ifStatement => if n.children.any (·.field == some .thenBranch) then none else some .kwIf
  | .rule r => r.closer?
  | .token _ => none

end Node

/-- Behind the children `before` of a node that begins at `first` and in front of the region, a
token is lost that is no terminator. -/
def LostBefore (t : TokenStream) (first : Nat) (before : List Node) (region : Node) : Prop :=
  ∃ k, first ≤ k ∧ k < region.info.firstToken ∧ (t.kindAt k).isTerminator = false ∧
    ∀ c ∈ before, c.span.stop ≤ (t.get k).span.start

/-- No error region among the children of the node begins with a line that closes blocks of the
word, unless the header of the node broke off and has lost tokens in front of the region. -/
def Node.Spares (t : TokenStream) (word : Option Keyword) (n : Node) : Prop :=
  ∀ before region after, n.children = before ++ region :: after → region.kind = .rule .error →
    t.ClosesAt word region.info.firstToken →
      (∃ r, n.kind = .rule r ∧ r.keepsBrokenHeader = true) ∧
        LostBefore t n.info.firstToken before region

/-- Everything in a block spares the closing line of the block. -/
def ClosersSpared (t : TokenStream) (root : Node) : Prop :=
  ∀ n ∈ root.preorder, ∀ p ∈ n.preorder, p.Spares t n.closer?

namespace Node

mutual

theorem preorder_subset (n : Node) : ∀ p ∈ n.preorder, p.preorder ⊆ n.preorder :=
  match n with
  | mk info children => by
    intro p hp
    rw [preorder, List.mem_cons] at hp
    rcases hp with rfl | hp
    · exact List.Subset.refl _
    · exact List.Subset.trans (preorders_subset children p hp) (List.subset_cons_self _ _)

theorem preorders_subset (ns : List Node) : ∀ p ∈ preorders ns, p.preorder ⊆ preorders ns :=
  match ns with
  | [] => fun _ hp => absurd hp List.not_mem_nil
  | n :: rest => by
    intro p hp
    rw [preorders, List.mem_append] at hp
    rcases hp with hp | hp
    · exact List.Subset.trans (preorder_subset n p hp) (List.subset_append_left _ _)
    · exact List.Subset.trans (preorders_subset rest p hp) (List.subset_append_right _ _)

end

end Node

section

variable {t : TokenStream} {word : Option Keyword} {r : Rule} {first i : Nat} {n : Node}
  {ns cs : List Node} {f : Field}

theorem TokenStream.Inside.not_closesAt (h : t.Inside i) : ¬t.ClosesAt word i := by
  intro hcloses
  have hinside := h.2
  rw [hcloses.newline] at hinside
  exact Bool.noConfusion hinside

theorem Node.closer?_inField (n : Node) (f : Field) : (n.inField f).closer? = n.closer? := by
  rw [closer?, kind_inField, children_inField, closer?]

theorem Node.spares_inField : (n.inField f).Spares t word ↔ n.Spares t word := by
  rw [Spares, Spares, children_inField, kind_inField, firstToken_inField]

theorem Node.closer?_of_kind (hn : n.kind = .rule r) (hr : r.saysCloser = true) :
    n.closer? = r.closer? := by
  unfold closer?
  rw [hn]
  split
  case h_1 heq | h_2 heq | h_3 heq =>
    obtain rfl := NodeKind.rule.inj heq
    exact Bool.noConfusion hr
  case h_4 heq => rw [NodeKind.rule.inj heq]
  case h_5 heq => cases heq

theorem Node.closer?_ifStatement {span : Span} {isPartial : Bool} :
    (Node.finish (.rule .ifStatement) span first isPartial cs).closer? =
      if cs.any (·.field == some .thenBranch) then none else some .kwIf := rfl

theorem Node.closer?_routine {span : Span} {isPartial : Bool}
    (hr : r = .methodDeclaration ∨ r = .constructorDeclaration) :
    (Node.finish (.rule r) span first isPartial cs).closer? = cs.findSome? word? := by
  rcases hr with rfl | rfl <;> rfl

theorem Rule.isClosedByEnd_of_closer? {w : Keyword} (h : w ∈ r.closer?) :
    w.isClosedByEnd = true := by
  unfold closer? at h
  split at h
  · obtain rfl := Option.some.inj h
    rfl
  · obtain rfl := Option.some.inj h
    rfl
  · exact (Option.filter_eq_some_iff.1 h).2

/-- What is said of a node wherever a block of the word is open: neither the node nor anything in it
takes a closing line away. -/
structure Node.Heedful (t : TokenStream) (word : Option Keyword) (n : Node) : Prop where
  within : ClosersSpared t n
  outer : ∀ p ∈ n.preorder, p.Spares t word

theorem Node.Heedful.inField (h : n.Heedful t word) (f : Field) : (n.inField f).Heedful t word := by
  refine ⟨fun m hm => ?_, forall_mem_preorder_inField spares_inField.2 h.outer⟩
  rw [preorder_inField, List.mem_cons] at hm
  rcases hm with rfl | hm
  · rw [closer?_inField]
    exact forall_mem_preorder_inField spares_inField.2 (h.within n (mem_preorder_self n))
  · refine h.within m ?_
    rw [preorder_eq]
    exact List.mem_cons_of_mem _ hm

theorem TokenStream.not_closesAt_none : ¬t.ClosesAt none i := fun h => by cases h.word

theorem Node.Heedful.none (h : n.Heedful t word) : n.Heedful t none :=
  ⟨h.within, fun _ _ _ _ _ _ _ hcloses => absurd hcloses TokenStream.not_closesAt_none⟩

/-- Without error regions there is nothing to heed. -/
theorem Node.Heedful.of_ne_error (h : ∀ m ∈ n.preorder, m.kind ≠ .rule .error) :
    n.Heedful t word := by
  have hspares (w : Option Keyword) : ∀ p ∈ n.preorder, p.Spares t w := by
    intro p hp before region after hsplit hregion _
    refine absurd hregion (h region (preorder_subset n p hp ?_))
    rw [preorder_eq, hsplit]
    refine List.mem_cons_of_mem _ (mem_preorders.2 ⟨region, ?_, mem_preorder_self region⟩)
    exact List.mem_append_right _ List.mem_cons_self
  exact ⟨fun m hm p hp => hspares _ p (preorder_subset n m hm hp), hspares word⟩

end

-- ---------------------------------------------------------------------------
-- The node under construction
-- ---------------------------------------------------------------------------

/-- What is known of the children, the latest first, of a node of the rule `r` that begins at
`first`. -/
def Kept (t : TokenStream) (r : Rule) (first : Nat) (word : Option Keyword) : List Node → Prop
  | [] => True
  | c :: cs => Kept t r first word cs ∧ c.Heedful t word ∧
      (c.kind = .rule .error → t.ClosesAt word c.info.firstToken →
        r.keepsBrokenHeader = true ∧ LostBefore t first cs c)

/-- A node that is fit to be attached where it ends at or before the index. -/
structure Node.Fits (t : TokenStream) (word : Option Keyword) (i : Nat) (n : Node) : Prop where
  heedful : n.Heedful t word
  stop_le : n.span.stop ≤ (t.get i).span.start
  not_closesAt : n.kind = .rule .error → ¬t.ClosesAt word n.info.firstToken

/-- The node under construction, of the rule `r` and since the token `first`, has heeded the closing
lines of the word so far. -/
structure State.Heedful (t : TokenStream) (r : Rule) (first : Nat) (word : Option Keyword)
    (s : State) : Prop where
  first_le : first ≤ s.cursor
  le_size : s.cursor ≤ t.tokens.size
  stop_le : ∀ c ∈ s.children, c.span.stop ≤ (t.get s.cursor).span.start
  kept : Kept t r first word s.children

section

variable {t : TokenStream} {word : Option Keyword} {r : Rule} {first i j k : Nat} {n : Node}
  {ns cs : List Node} {gaps : Bool} {ds : List Diagnostic} {s s' : State}

theorem Node.Fits.inField (h : n.Fits t word i) (f : Field) : (n.inField f).Fits t word i := by
  refine ⟨h.heedful.inField f, ?_, ?_⟩
  · rw [span_inField]
    exact h.stop_le
  · rw [kind_inField, firstToken_inField]
    exact h.not_closesAt

theorem Kept.heedful (h : Kept t r first word cs) : ∀ c ∈ cs, c.Heedful t word := by
  induction cs with
  | nil => exact fun _ hc => absurd hc List.not_mem_nil
  | cons c cs ih => exact List.forall_mem_cons.2 ⟨h.2.1, ih h.1⟩

/-- An error region among the children and what is in front of it. -/
theorem Kept.region (h : Kept t r first word cs) {region : Node} {before after : List Node}
    (hsplit : cs = after ++ region :: before) (hregion : region.kind = .rule .error)
    (hcloses : t.ClosesAt word region.info.firstToken) :
    r.keepsBrokenHeader = true ∧ LostBefore t first before region := by
  induction after generalizing cs with
  | nil =>
    subst hsplit
    exact h.2.2 hregion hcloses
  | cons x after ih =>
    subst hsplit
    exact ih h.1 rfl

/-- A node over children that heed the closing lines of the word, and its own. -/
theorem Kept.finish (h : Kept t r first word cs) {span : Span} {isPartial : Bool}
    (hown : Kept t r first (Node.finish (.rule r) span first isPartial cs.reverse).closer? cs) :
    (Node.finish (.rule r) span first isPartial cs.reverse).Heedful t word := by
  have hspares {w : Option Keyword} (h : Kept t r first w cs) :
      ∀ p ∈ (Node.finish (.rule r) span first isPartial cs.reverse).preorder, p.Spares t w := by
    intro p hp
    rw [Node.preorder_eq, List.mem_cons] at hp
    rcases hp with rfl | hp
    · intro before region after hsplit hregion hcloses
      have hsplit' : cs = after.reverse ++ region :: before.reverse := by
        rw [← cs.reverse_reverse, show cs.reverse = _ from hsplit]
        simp
      obtain ⟨hkeeps, k, hfirst, hk, hkind, hbefore⟩ := h.region hsplit' hregion hcloses
      refine ⟨⟨r, rfl, hkeeps⟩, k, hfirst, hk, hkind, fun c hc => ?_⟩
      exact hbefore c (List.mem_reverse.2 hc)
    · obtain ⟨c, hc, hpc⟩ := Node.mem_preorders.1 (Node.mem_preorders_reverse.1 hp)
      exact (h.heedful c hc).outer p hpc
  refine ⟨fun m hm => ?_, hspares h⟩
  rw [Node.preorder_eq, List.mem_cons] at hm
  rcases hm with rfl | hm
  · exact hspares hown
  · obtain ⟨c, hc, hmc⟩ := Node.mem_preorders.1 (Node.mem_preorders_reverse.1 hm)
    exact (h.heedful c hc).within m hmc

/-- A reading without diagnostics has no error regions. -/
theorem Reading.ne_error (h : Reading t gaps i j ns []) :
    ∀ m ∈ Node.preorders ns, m.kind ≠ .rule .error := by
  intro m hm hkind
  have hnone := (Multiset.coe_eq_zero _).1 (Multiset.rel_zero_left.1 h.concerned)
  exact List.filter_eq_nil_iff.1 hnone m hm (by simp [Node.isFaulty, hkind])

/-- What was read without diagnostics is fit to be attached. -/
theorem Reading.fits (ht : t.Ordered) (h : Reading t gaps i j ns []) (hjk : j ≤ k)
    (hk : k ≤ t.tokens.size) : ∀ n ∈ ns, n.Fits t word k := by
  intro n hn
  have hne : ∀ m ∈ n.preorder, m.kind ≠ .rule .error := fun m hm =>
    h.ne_error m (Node.mem_preorders.2 ⟨n, hn, hm⟩)
  obtain ⟨-, stop, hstop, hcovers, -⟩ := h.nested n hn
  refine ⟨.of_ne_error hne, ?_, fun hkind => absurd hkind (hne n (Node.mem_preorder_self n))⟩
  rw [hcovers.span]
  exact ht.stop_spanFrom_le (Nat.le_trans hstop hjk) hk

theorem Node.heedful_error (span : Span) : (Node.error span k).Heedful t word := by
  have hspares (w : Option Keyword) (p : Node) (hp : p ∈ (Node.error span k).preorder) :
      p.Spares t w := by
    obtain rfl := List.mem_singleton.1 hp
    intro before region after hsplit
    exact absurd hsplit.symm (List.append_ne_nil_of_right_ne_nil before
      (List.cons_ne_nil region after))
  refine ⟨fun m hm p hp => ?_, hspares word⟩
  obtain rfl := List.mem_singleton.1 hm
  exact hspares _ p hp

/-- An error region that does not begin with a closing line. -/
theorem Node.fits_error (ht : t.Ordered) (hij : i ≤ j) (hj : j ≤ t.tokens.size)
    (h : ¬t.ClosesAt word k) : (Node.error (t.spanFrom k i) k).Fits t word j :=
  ⟨heedful_error _, ht.stop_spanFrom_le hij hj, fun _ => h⟩

namespace State

/-- Going forward without attaching anything. -/
theorem Heedful.move (ht : t.Ordered) (h : s.Heedful t r first word)
    (hchildren : s'.children = s.children)
    (hle : s.cursor ≤ s'.cursor) (hsize : s'.cursor ≤ t.tokens.size) :
    s'.Heedful t r first word := by
  refine ⟨Nat.le_trans h.first_le hle, hsize, fun c hc => ?_, hchildren ▸ h.kept⟩
  exact Nat.le_trans (h.stop_le c (hchildren ▸ hc)) (ht.start_le_start hle hsize)

theorem Heedful.attach (h : s.Heedful t r first word) (hn : n.Fits t word s.cursor) :
    State.Heedful t r first word { s with children := n :: s.children } :=
  ⟨h.first_le, h.le_size, List.forall_mem_cons.2 ⟨hn.stop_le, h.stop_le⟩,
    h.kept, hn.heedful, fun hkind hcloses => absurd hcloses (hn.not_closesAt hkind)⟩

/-- Any number of nodes attached. -/
theorem Heedful.append (ht : t.Ordered) (h : s.Heedful t r first word)
    (hchildren : s'.children = ns ++ s.children) (hns : ∀ n ∈ ns, n.Fits t word s'.cursor)
    (hle : s.cursor ≤ s'.cursor) (hsize : s'.cursor ≤ t.tokens.size) :
    s'.Heedful t r first word := by
  have hall (ns : List Node) (hns : ∀ n ∈ ns, n.Fits t word s'.cursor) :
      State.Heedful t r first word { s' with children := ns ++ s.children } := by
    induction ns with
    | nil => exact h.move ht rfl hle hsize
    | cons n ns ih =>
      obtain ⟨hn, hns⟩ := List.forall_mem_cons.1 hns
      exact (ih hns).attach hn
  have h' := hall ns hns
  rw [← hchildren] at h'
  exact h'

/-- What was read without diagnostics was attached. -/
theorem Heedful.advanced (ht : t.Ordered) (h : s.Heedful t r first word) {stop : Nat}
    (ha : State.Advanced t gaps s stop [] s') (hstop : stop ≤ s'.cursor)
    (hsize : s'.cursor ≤ t.tokens.size) : s'.Heedful t r first word := by
  obtain ⟨new, hnew, hreading, -⟩ := ha.children
  exact h.append ht hnew (hreading.fits ht hstop hsize) (Nat.le_trans ha.le_stop hstop) hsize

end State

end

end VisualBasic
