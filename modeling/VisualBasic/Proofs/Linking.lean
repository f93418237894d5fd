import VisualBasic.Proofs.Refinement
import VisualBasic.Tree.Linked

/-!
# Linking

What the loops over a vector of nodes come to where a tree stands in it. The loop that notes the
parents of the nodes below a stack goes through the trees from right to left. Each of them changes
only cells of its own, which are in a range apart from the cells of the others; so what was noted
before stays.

Main definitions:

* `Arena.Reaches` — a node is, or is below, another one.
* `Arena.Linked` — what noting the parents below some nodes does to the vector.

Main results:

* `Arena.Row.apart` — no node is below two trees of a row.
* `Arena.Row.linked` — linking ends, and it notes every parent.
* `Arena.Row.listed` — listing ends, and it gives each node once, in the order of the recursion.
-/

namespace VisualBasic

namespace Arena

/-- The index is that of the node itself, or of one below it. -/
inductive Reaches (nodes : Cells) (top : NodeId) : NodeId → Prop
  | self : Reaches nodes top top
  | child {id c : NodeId} {cell : Cell} (h : Reaches nodes top id) (hcell : nodes[id]? = some cell)
    (hc : c ∈ cell.children) : Reaches nodes top c

variable {nodes nodes' nodes₁ : Cells} {lo hi id top i c p : Nat}
  {ids : List NodeId} {cell : Cell}
  {n : Node} {ns : List Node}

-- ---------------------------------------------------------------------------
-- What is below a node
-- ---------------------------------------------------------------------------

theorem Reaches.head (hcell : nodes[top]? = some cell) (hc : c ∈ cell.children)
    (h : Reaches nodes c i) :
    Reaches nodes top i := by
  induction h with
  | self => exact .child .self hcell hc
  | child _ hcell' hc' ih => exact ih.child hcell' hc'

/-- What is below a node is below one of its children. -/
theorem Reaches.cases_head (h : Reaches nodes top i) :
    i = top ∨ ∃ cell, nodes[top]? = some cell ∧ ∃ c ∈ cell.children, Reaches nodes c i := by
  induction h with
  | self => exact .inl rfl
  | child _ hcell hc ih =>
    obtain rfl | ⟨cell, htop, c', hc', hreach⟩ := ih
    · exact .inr ⟨_, hcell, _, hc, .self⟩
    · exact .inr ⟨cell, htop, c', hc', hreach.child hcell hc⟩

/-- In a row there is a tree at each index. -/
theorem Row.stands (h : Row nodes lo ids hi ns) (hc : c ∈ ids) :
    c < hi ∧ ∃ n, Stands nodes lo c n := by
  induction ns generalizing lo ids with
  | nil =>
    rw [Row] at h
    rw [h.1] at hc
    cases hc
  | cons n rest ih =>
    rw [Row] at h
    obtain ⟨id, ids', rfl, hn, hrest⟩ := h
    rcases List.mem_cons.1 hc with rfl | hc
    · exact ⟨Row.le rest hrest, n, hn⟩
    · obtain ⟨hlt, m, hm⟩ := ih hrest hc
      exact ⟨hlt, m, hm.of_le _ (Nat.le_succ_of_le (Stands.le n hn))⟩

/-- The trees of the children, from the cell of their parent. -/
theorem Stands.children_row (h : Stands nodes lo id n) (hcell : nodes[id]? = some cell) :
    ∃ ns, Row nodes lo cell.children id ns := by
  obtain ⟨info, children⟩ := n
  rw [Stands] at h
  obtain ⟨cell', hcell', -, -, hrow⟩ := h
  obtain rfl : cell' = cell := Option.some.inj (hcell'.symm.trans hcell)
  exact ⟨children, hrow⟩

/-- Below a tree there are trees, all of them in its range. -/
theorem Stands.reaches (h : Stands nodes lo top n) (hreach : Reaches nodes top i) :
    i ≤ top ∧ ∃ m, Stands nodes lo i m := by
  induction hreach with
  | self => exact ⟨Nat.le_refl _, n, h⟩
  | child _ hcell hc ih =>
    obtain ⟨hle, m, hm⟩ := ih
    obtain ⟨ns, hrow⟩ := hm.children_row hcell
    obtain ⟨hlt, hstands⟩ := hrow.stands hc
    exact ⟨Nat.le_trans (Nat.le_of_lt hlt) hle, hstands⟩

/-- Below the trees of a row there are only cells of its range. -/
theorem Row.reaches (h : Row nodes lo ids hi ns) (hc : c ∈ ids) (hreach : Reaches nodes c i) :
    lo ≤ i ∧ i < hi := by
  obtain ⟨hlt, m, hm⟩ := h.stands hc
  obtain ⟨hle, m', hm'⟩ := hm.reaches hreach
  exact ⟨Stands.le m' hm', Nat.lt_of_le_of_lt hle hlt⟩

/-- No node is below two trees of a row. -/
theorem Row.apart (h : Row nodes lo ids hi ns) {c c' : Nat} (hc : c ∈ ids) (hc' : c' ∈ ids)
    (hreach : Reaches nodes c i) (hreach' : Reaches nodes c' i) : c = c' := by
  induction ns generalizing lo ids with
  | nil =>
    rw [Row] at h
    rw [h.1] at hc
    cases hc
  | cons n rest ih =>
    rw [Row] at h
    obtain ⟨id, ids', rfl, hn, hrest⟩ := h
    have hfirst {b b' : Nat} (hb : b = id) (hb' : b' ∈ ids') (hreach : Reaches nodes b i)
        (hreach' : Reaches nodes b' i) : False := by
      subst hb
      have hle := (hn.reaches hreach).1
      have hlt := (hrest.reaches hb' hreach').1
      omega
    rcases List.mem_cons.1 hc with heq | hc
    · rcases List.mem_cons.1 hc' with heq' | hc'
      · exact heq.trans heq'.symm
      · exact (hfirst heq hc' hreach hreach').elim
    · rcases List.mem_cons.1 hc' with heq' | hc'
      · exact (hfirst heq' hc hreach' hreach).elim
      · exact ih hrest hc hc'

/-- The indices of a row increase. -/
theorem Row.pairwise_lt (h : Row nodes lo ids hi ns) : ids.Pairwise (· < ·) := by
  induction ns generalizing lo ids with
  | nil =>
    rw [Row] at h
    rw [h.1]
    exact .nil
  | cons n rest ih =>
    rw [Row] at h
    obtain ⟨id, ids', rfl, -, hrest⟩ := h
    exact .cons (fun c hc => (hrest.ids_lt c hc).1) (ih hrest)

-- ---------------------------------------------------------------------------
-- Vectors that differ by parents
-- ---------------------------------------------------------------------------

/-- The cells of two vectors agree in all but their parents. -/
def SameBut (nodes nodes' : Cells) : Prop :=
  ∀ i : Nat, nodes'[i]?.map Cell.unlinked = nodes[i]?.map Cell.unlinked

namespace SameBut

theorem refl : SameBut nodes nodes := fun _ => rfl

theorem symm (h : SameBut nodes nodes') : SameBut nodes' nodes := fun i => (h i).symm

theorem trans (h : SameBut nodes nodes₁) (h' : SameBut nodes₁ nodes') : SameBut nodes nodes' :=
  fun i => (h' i).trans (h i)

theorem agreeBelow (h : SameBut nodes nodes') : AgreeBelow hi nodes nodes' := fun i _ => h i

theorem exists_cell (h : SameBut nodes nodes') (hcell : nodes[i]? = some cell) :
    ∃ cell', nodes'[i]? = some cell' ∧ cell'.children = cell.children := by
  obtain ⟨cell', hcell', hsame⟩ := h.agreeBelow.exists_cell (Nat.lt_succ_self i) hcell
  have hchildren : cell'.unlinked.children = cell.unlinked.children := by rw [hsame]
  exact ⟨cell', hcell', hchildren⟩

/-- Parents aside, the same is below a node. -/
theorem reaches (h : SameBut nodes nodes') (hreach : Reaches nodes top i) :
    Reaches nodes' top i := by
  induction hreach with
  | self => exact .self
  | child _ hcell hc ih =>
    obtain ⟨cell', hcell', hchildren⟩ := h.exists_cell hcell
    exact ih.child hcell' (hchildren ▸ hc)

theorem reaches_iff (h : SameBut nodes nodes') : Reaches nodes' top i ↔ Reaches nodes top i :=
  ⟨h.symm.reaches, h.reaches⟩

end SameBut

-- ---------------------------------------------------------------------------
-- Linking
-- ---------------------------------------------------------------------------

/-- Children that exist are told their parent. -/
theorem exists_adopt (hids : ∀ c ∈ ids, c < nodes.size) (parent : NodeId) :
    ∃ nodes', nodes.adopt parent ids = some nodes' ∧ SameBut nodes nodes' ∧
      (∀ i : Nat, i ∉ ids → nodes'[i]? = nodes[i]?) ∧
      ∀ i : Nat, i ∈ ids → nodes'[i]?.bind Cell.parent = some parent := by
  induction ids generalizing nodes with
  | nil => exact ⟨nodes, rfl, .refl, fun _ _ => rfl, fun _ h => absurd h List.not_mem_nil⟩
  | cons id rest ih =>
    obtain ⟨hid, hrest⟩ := List.forall_mem_cons.1 hids
    let one := nodes.modify id fun cell => { cell with parent := some parent }
    have hsize : ∀ c ∈ rest, c < one.size := fun c hc => (Array.size_modify ..).symm ▸ hrest c hc
    have hone (i : Nat) (hi : i ≠ id) : one[i]? = nodes[i]? := by
      rw [Array.getElem?_modify, if_neg (Ne.symm hi)]
    have hone' : one[id]? = nodes[id]?.map fun cell => { cell with parent := some parent } := by
      rw [Array.getElem?_modify, if_pos rfl]
    have hsame : SameBut nodes one := by
      intro i
      by_cases hi : i = id
      · rw [hi, hone', Option.map_map]
        rfl
      · rw [hone i hi]
    obtain ⟨nodes', hrun, hsame', hkept, hset⟩ := ih hsize
    refine ⟨nodes', ?_, hsame.trans hsame', fun i hi => ?_, fun i hi => ?_⟩
    · rw [Cells.adopt, if_pos hid]
      exact hrun
    · obtain ⟨hne, hi⟩ := not_or.1 (List.mem_cons.not.1 hi)
      rw [hkept i hi, hone i hne]
    · by_cases hmem : i ∈ rest
      · exact hset i hmem
      · obtain rfl : i = id := (List.mem_cons.1 hi).resolve_right hmem
        rw [hkept i hmem, hone', Array.getElem?_eq_getElem hid]
        rfl

/-- What noting the parents of all that is below some nodes does to the vector. -/
structure Linked (tops : List NodeId) (nodes nodes' : Cells) : Prop where
  same : SameBut nodes nodes'
  /-- Only cells below those nodes are changed. -/
  kept : ∀ i, (∀ top ∈ tops, Reaches nodes top i → i = top) → nodes'[i]? = nodes[i]?
  /-- Every child that is below them knows its parent. -/
  parents : ∀ top ∈ tops, ∀ p cell c, Reaches nodes top p → nodes[p]? = some cell →
      c ∈ cell.children →
    nodes'[c]?.bind Cell.parent = some p

mutual

/-- Linking from a tree on goes through this tree, and through nothing else. -/
theorem Stands.linked (n : Node) {lo id : Nat} {nodes : Cells} (h : Stands nodes lo id n)
    (stack : List NodeId) :
    ∃ nodes', nodes.link (id :: stack) = nodes'.link stack ∧ Linked [id] nodes nodes' :=
  match n with
  | .mk _ children => by
    rw [Stands] at h
    obtain ⟨cell, hcell, -, -, hrow⟩ := h
    have hchild : ∀ c ∈ cell.children, c < nodes.size := fun c hc =>
      Nat.lt_trans (hrow.ids_lt c hc).2 (Array.getElem?_eq_some_iff.1 hcell).1
    obtain ⟨nodes₁, hadopt, hsame, hkept, hset⟩ := exists_adopt hchild id
    obtain ⟨nodes', hrun, hlinked⟩ :=
      Row.linked children (hrow.congr children hsame.agreeBelow) stack
    have hlt {c i : Nat} (hc : c ∈ cell.children) (hreach : Reaches nodes c i) : i < id :=
      (hrow.reaches hc hreach).2
    refine ⟨nodes', ?_, hsame.trans hlinked.same, fun i hi => ?_, ?_⟩
    · rw [Cells.link, hcell]
      show ((nodes.adopt id cell.children).bind fun nodes =>
        nodes.link (cell.children.reverse ++ stack)) = _
      rw [hadopt]
      exact hrun
    · have hid {c : Nat} (hc : c ∈ cell.children) (hreach : Reaches nodes c i) : False := by
        have heq := hi id List.mem_cons_self (hreach.head hcell hc)
        exact Nat.ne_of_lt (hlt hc hreach) heq
      rw [hlinked.kept i fun c hc hreach => (hid hc (hsame.reaches_iff.1 hreach)).elim]
      exact hkept i fun hc => hid hc .self
    · intro top htop p cell' c hreach hcell' hc
      obtain rfl := List.mem_singleton.1 htop
      obtain rfl | ⟨cell₁, hcell₁, c₁, hc₁, hreach₁⟩ := hreach.cases_head
      · -- A child of the tree itself: nothing below its children changes it again.
        obtain rfl : cell' = cell := Option.some.inj (hcell'.symm.trans hcell)
        rw [hlinked.kept c fun c' hc' hreach' => ?_]
        · exact hset c hc
        · exact hrow.apart hc hc' .self (hsame.reaches_iff.1 hreach')
      · obtain rfl : cell₁ = cell := Option.some.inj (hcell₁.symm.trans hcell)
        obtain ⟨cell₂, hcell₂, hchildren⟩ := hsame.exists_cell hcell'
        exact hlinked.parents c₁ hc₁ p cell₂ c (hsame.reaches hreach₁) hcell₂ (hchildren ▸ hc)

/-- Linking from a row of trees on goes through these trees from right to left. -/
theorem Row.linked (ns : List Node) {lo hi : Nat} {ids : List NodeId} {nodes : Cells}
    (h : Row nodes lo ids hi ns) (stack : List NodeId) :
    ∃ nodes', nodes.link (ids.reverse ++ stack) = nodes'.link stack ∧ Linked ids nodes nodes' :=
  match ns with
  | [] => by
    rw [Row] at h
    obtain ⟨rfl, -⟩ := h
    exact ⟨nodes, rfl, .refl, fun _ _ => rfl, nofun⟩
  | n :: rest => by
    rw [Row] at h
    obtain ⟨id, ids', rfl, hn, hrest⟩ := h
    obtain ⟨nodes₁, hrun₁, hlinked₁⟩ := Row.linked rest hrest (id :: stack)
    obtain ⟨nodes', hrun, hlinked⟩ := Stands.linked n (hn.congr n hlinked₁.same.agreeBelow) stack
    have hsame := hlinked₁.same
    refine ⟨nodes', ?_, hsame.trans hlinked.same, fun i hi => ?_, ?_⟩
    · rw [List.reverse_cons, List.append_assoc, List.singleton_append, hrun₁, hrun]
    · obtain ⟨hid, hids⟩ := List.forall_mem_cons.1 hi
      rw [hlinked.kept i fun top htop hreach => ?_, hlinked₁.kept i hids]
      obtain rfl := List.mem_singleton.1 htop
      exact hid (hsame.reaches_iff.1 hreach)
    · intro top htop p cell c hreach hcell hc
      rcases List.mem_cons.1 htop with rfl | htop
      · obtain ⟨cell', hcell', hchildren⟩ := hsame.exists_cell hcell
        exact hlinked.parents top List.mem_cons_self p cell' c (hsame.reaches hreach) hcell'
          (hchildren ▸ hc)
      · -- What was noted further right is outside of this tree.
        have hright := (hrest.reaches htop (hreach.child hcell hc)).1
        rw [hlinked.kept c fun top' htop' hreach' => ?_]
        · exact hlinked₁.parents top htop p cell c hreach hcell hc
        · obtain rfl := List.mem_singleton.1 htop'
          have hleft := (hn.reaches (hsame.reaches_iff.1 hreach')).1
          omega

end

-- ---------------------------------------------------------------------------
-- Listing
-- ---------------------------------------------------------------------------

/-- What listing some nodes and all that is below them gives. -/
structure Listed (nodes : Cells) (tops all : List NodeId) : Prop where
  loop : ∀ out stack, nodes.listing out (tops ++ stack) = nodes.listing (out ++ all.toArray) stack
  mem_iff : ∀ i : Nat, i ∈ all ↔ ∃ top ∈ tops, Reaches nodes top i
  nodup : all.Nodup

mutual

/-- The loop lists a tree as the recursion does. -/
theorem Stands.listed (n : Node) {lo id : Nat} (h : Stands nodes lo id n) :
    ∃ all, nodes.preorder id = some all ∧ Listed nodes [id] all :=
  match n with
  | .mk _ children => by
    rw [Stands] at h
    obtain ⟨cell, hcell, -, -, hrow⟩ := h
    obtain ⟨below, hbelow, hlisted⟩ := Row.listed children hrow
    refine ⟨id :: below.flatten, ?_, fun out stack => ?_, fun i => ?_,
      List.nodup_cons.2 ⟨fun hid => ?_, hlisted.nodup⟩⟩
    · rw [Cells.preorder, hcell]
      show ((cell.children.mapM nodes.preorder).bind fun below => some (id :: below.flatten)) = _
      rw [hbelow]
      rfl
    · rw [List.singleton_append, Cells.listing, hcell]
      show nodes.listing (out.push id) (cell.children ++ stack) = _
      rw [hlisted.loop]
      simp
    · rw [List.mem_cons, hlisted.mem_iff]
      constructor
      · rintro (rfl | ⟨c, hc, hreach⟩)
        · exact ⟨i, List.mem_cons_self, .self⟩
        · exact ⟨id, List.mem_cons_self, hreach.head hcell hc⟩
      · rintro ⟨top, htop, hreach⟩
        obtain rfl := List.mem_singleton.1 htop
        obtain rfl | ⟨cell₁, hcell₁, c, hc, hreach⟩ := hreach.cases_head
        · exact .inl rfl
        · obtain rfl : cell₁ = cell := Option.some.inj (hcell₁.symm.trans hcell)
          exact .inr ⟨c, hc, hreach⟩
    · obtain ⟨c, hc, hreach⟩ := (hlisted.mem_iff id).1 hid
      exact absurd (hrow.reaches hc hreach).2 (Nat.lt_irrefl id)

/-- It lists the trees of a row one behind the other. -/
theorem Row.listed (ns : List Node) {lo hi : Nat} {ids : List NodeId} (h : Row nodes lo ids hi ns) :
    ∃ below, ids.mapM nodes.preorder = some below ∧ Listed nodes ids below.flatten :=
  match ns with
  | [] => by
    rw [Row] at h
    obtain ⟨rfl, -⟩ := h
    exact ⟨[], rfl, fun _ _ => by simp, by simp, .nil⟩
  | n :: rest => by
    rw [Row] at h
    obtain ⟨id, ids', rfl, hn, hrest⟩ := h
    obtain ⟨first, hfirst, hlisted⟩ := Stands.listed n hn
    obtain ⟨below, hbelow, hlisted'⟩ := Row.listed rest hrest
    refine ⟨first :: below, ?_, fun out stack => ?_, fun i => ?_, ?_⟩
    · rw [List.mapM_cons, hfirst, hbelow]
      rfl
    · have hloop := hlisted.loop out (ids' ++ stack)
      rw [List.singleton_append] at hloop
      rw [List.cons_append, hloop, hlisted'.loop]
      simp
    · rw [List.flatten_cons, List.mem_append, hlisted.mem_iff, hlisted'.mem_iff]
      simp
    · rw [List.flatten_cons]
      refine List.nodup_append.2 ⟨hlisted.nodup, hlisted'.nodup, fun a ha b hb hab => ?_⟩
      obtain ⟨top, htop, hreach⟩ := (hlisted.mem_iff a).1 ha
      obtain ⟨top', htop', hreach'⟩ := (hlisted'.mem_iff b).1 hb
      obtain rfl := List.mem_singleton.1 htop
      subst hab
      have hle := (hn.reaches hreach).1
      have hlt := (hrest.reaches htop' hreach').1
      omega

end

end Arena

end VisualBasic
