import Mathlib.Data.List.Nodup
import VisualBasic.Proofs.Forest

/-!
# The table of a tree

The table of a tree gives every node a number, and a node knows its children and its parent by their
numbers. That such a table is that of a tree, with no node in two places and none out of reach, does
not show in its type; it is a fact about how the entries are made. Here the entries of a node are
found in the table at a place that is determined by its number and its size (`Node.Stored`), and all
else follows from that.

Two loops go over the table with a stack of numbers: one lists what is below a node, the other marks
the parents of all nodes. They are given as relations between what a loop begins with and what it
ends with, so a statement about them says that they end.

Main results:

* `Tree.Complete.exists_stored` — every number is that of a node whose entries end there.
* `Node.Stored.visits`, `Node.Stored.marks` — both loops end, and with what the tree says.
* `Tree.Complete.wellLinked` — a complete table is that of a tree.
-/

namespace VisualBasic

-- ---------------------------------------------------------------------------
-- Entries in a table
-- ---------------------------------------------------------------------------

/-- Entries stand in a table one group behind the other. -/
theorem append_prefix_drop_iff {α : Type} {xs ys table : List α} {base : Nat} :
    xs ++ ys <+: table.drop base ↔
      xs <+: table.drop base ∧ ys <+: table.drop (base + xs.length) := by
  constructor
  · rintro ⟨rest, h⟩
    refine ⟨⟨ys ++ rest, by rw [← h, List.append_assoc]⟩, ⟨rest, ?_⟩⟩
    rw [← List.drop_drop, ← h, List.append_assoc, List.drop_left]
  · rintro ⟨⟨rest, h⟩, ⟨rest', h'⟩⟩
    refine ⟨rest', ?_⟩
    rw [← List.drop_drop, ← h, List.drop_left] at h'
    rw [List.append_assoc, h', h]

/-- A single entry stands in a table at its number. -/
theorem singleton_prefix_drop_iff {α : Type} {x : α} {table : List α} {base : Nat} :
    [x] <+: table.drop base ↔ table[base]? = some x := by
  constructor
  · rintro ⟨rest, h⟩
    rw [← List.head?_drop, ← h]
    rfl
  · intro h
    obtain ⟨hlt, rfl⟩ := List.getElem?_eq_some_iff.1 h
    exact ⟨table.drop (base + 1), (List.drop_eq_getElem_cons hlt).symm⟩

namespace Node

/-- The entries of a tree stand in the table from the number `base` on. -/
def Stored (t : Tree) (base : Nat) (parent : Option Nat) (n : Node) : Prop :=
  n.entries base parent <+: t.table.toList.drop base

/-- The entries of trees that stand side by side, as children of the node numbered `parent`. -/
def StoredAll (t : Tree) (base parent : Nat) (ns : List Node) : Prop :=
  entriesOf base parent ns <+: t.table.toList.drop base

/-- The number of a node whose entries begin at `base`. -/
def numberFrom (base : Nat) (n : Node) : Nat := base + sizes n.children

/-- A node has one entry more than what is below it. -/
theorem size_eq (n : Node) : n.size = sizes n.children + 1 := by
  cases n
  rw [size, children, Nat.add_comm]

/-- A node has the last of the numbers of its tree. -/
theorem numberFrom_eq (base : Nat) (n : Node) : n.numberFrom base = base + n.size - 1 := by
  rw [numberFrom, size_eq]
  rfl

/-- Every node has an entry. -/
theorem size_pos (n : Node) : 0 < n.size := by
  rw [size_eq]
  exact Nat.succ_pos _

/-- The numbers of the next tree begin behind those of the first one. -/
theorem rootNumbers_cons (base : Nat) (n : Node) (ns : List Node) :
    rootNumbers base (n :: ns) = n.numberFrom base :: rootNumbers (base + n.size) ns := by
  rw [rootNumbers, numberFrom_eq]

/-- A node is listed in front of what is below it. -/
theorem preorderNumbers_eq (base : Nat) (n : Node) :
    n.preorderNumbers base = n.numberFrom base :: preorderNumbersOf base n.children := by
  cases n
  rfl

section

variable {t : Tree} {base parent k : Nat} {above : Option Nat} {n : Node} {ns : List Node}

/-- What the table says of a node whose entries it holds. -/
theorem Stored.entry (h : n.Stored t base above) :
    t.table[n.numberFrom base]? = some ⟨n, above, rootNumbers base n.children⟩ := by
  cases n
  rw [Stored, entries, append_prefix_drop_iff, length_entriesOf, singleton_prefix_drop_iff,
    Array.getElem?_toList] at h
  exact h.2

/-- The entries of the children are in front of that of the node. -/
theorem Stored.below (h : n.Stored t base above) :
    StoredAll t base (n.numberFrom base) n.children := by
  cases n
  rw [Stored, entries, append_prefix_drop_iff] at h
  exact h.1

/-- Trees that stand side by side have their entries side by side. -/
theorem storedAll_cons :
    StoredAll t base parent (n :: ns) ↔
      n.Stored t base (some parent) ∧ StoredAll t (base + n.size) parent ns := by
  rw [StoredAll, entriesOf, append_prefix_drop_iff, length_entries]
  rfl

/-- The table of a tree holds the entries of its root. -/
theorem stored_make (source : List Char) (root : Node) (diagnostics : List Diagnostic) :
    root.Stored (Tree.make source root diagnostics) 0 none := by
  simp [Stored, Tree.make]

/-- The number of a node gives that node. -/
theorem Stored.node?_eq (h : n.Stored t base above) : t.node? (n.numberFrom base) = some n := by
  simp [Tree.node?, h.entry]

/-- The number of a node gives the numbers of its children. -/
theorem Stored.children_eq (h : n.Stored t base above) :
    t.children (n.numberFrom base) = rootNumbers base n.children := by
  simp [Tree.children, h.entry]

/-- The number of a node gives that of its parent. -/
theorem Stored.parent?_eq (h : n.Stored t base above) : t.parent? (n.numberFrom base) = above := by
  simp [Tree.parent?, h.entry]

/-- The number of a node gives the listing of what is below it. -/
theorem Stored.descendants_eq (h : n.Stored t base above) :
    t.descendants (n.numberFrom base) = n.preorderNumbers base := by
  have hbase : n.numberFrom base + 1 - n.size = base := by
    rw [numberFrom, size_eq]
    omega
  rw [Tree.descendants, h.node?_eq]
  show n.preorderNumbers (n.numberFrom base + 1 - n.size) = _
  rw [hbase]

-- ---------------------------------------------------------------------------
-- Children
-- ---------------------------------------------------------------------------

/-- The roots of trees side by side are numbered upwards, within the numbers of the trees. -/
theorem rootNumbers_bounds (base : Nat) (ns : List Node) :
    ∀ c ∈ rootNumbers base ns, base ≤ c ∧ c < base + sizes ns := by
  induction ns generalizing base with
  | nil => exact nofun
  | cons n ns ih =>
    intro c hc
    have hsize := n.size_eq
    rw [rootNumbers_cons, List.mem_cons] at hc
    rw [sizes]
    rcases hc with rfl | hc
    · rw [numberFrom]
      omega
    · have := ih (base + n.size) c hc
      omega

/-- Trees that stand side by side have rising numbers. -/
theorem pairwise_rootNumbers (base : Nat) (ns : List Node) :
    (rootNumbers base ns).Pairwise (· < ·) := by
  induction ns generalizing base with
  | nil => exact .nil
  | cons n ns ih =>
    rw [rootNumbers_cons]
    refine .cons (fun c hc => ?_) (ih (base + n.size))
    have := (rootNumbers_bounds (base + n.size) ns c hc).1
    have := n.size_eq
    rw [numberFrom]
    omega

/-- The parent of the roots of trees side by side is the node that they stand below. -/
theorem StoredAll.parent?_eq (h : StoredAll t base parent ns) :
    ∀ c ∈ rootNumbers base ns, t.parent? c = some parent := by
  induction ns generalizing base with
  | nil => exact nofun
  | cons n ns ih =>
    intro c hc
    rw [storedAll_cons] at h
    rw [rootNumbers_cons, List.mem_cons] at hc
    rcases hc with rfl | hc
    · exact h.1.parent?_eq
    · exact ih h.2 c hc

-- ---------------------------------------------------------------------------
-- Every number is that of a node
-- ---------------------------------------------------------------------------

mutual

/-- A number among those of a tree is that of a node in it, and the entries of that node are
held. -/
theorem Stored.exists_at (n : Node) {base k : Nat} {above : Option Nat} (h : n.Stored t base above)
    (hle : base ≤ k) (hlt : k < base + n.size) :
    ∃ (m : Node) (b : Nat) (q : Option Nat), m.Stored t b q ∧ m.numberFrom b = k ∧
      (k = n.numberFrom base ∧ q = above ∨ ∃ p, q = some p ∧ k ∈ t.children p) :=
  match n with
  | mk info children => by
    by_cases hroot : k = base + sizes children
    · exact ⟨mk info children, base, above, h, hroot.symm, .inl ⟨hroot, rfl⟩⟩
    · rw [size] at hlt
      obtain ⟨m, b, q, hm, hk, hq⟩ := StoredAll.exists_at children h.below hle (by omega)
      refine ⟨m, b, q, hm, hk, .inr ?_⟩
      rcases hq with ⟨hmem, rfl⟩ | hq
      · exact ⟨_, rfl, h.children_eq ▸ hmem⟩
      · exact hq

/-- Every number of the entries is that of a node of the trees. -/
theorem StoredAll.exists_at (ns : List Node) {base parent k : Nat} (h : StoredAll t base parent ns)
    (hle : base ≤ k) (hlt : k < base + sizes ns) :
    ∃ (m : Node) (b : Nat) (q : Option Nat), m.Stored t b q ∧ m.numberFrom b = k ∧
      (k ∈ rootNumbers base ns ∧ q = some parent ∨ ∃ p, q = some p ∧ k ∈ t.children p) :=
  match ns with
  | [] => absurd (Nat.lt_of_le_of_lt hle hlt) (Nat.lt_irrefl base)
  | n :: ns => by
    rw [storedAll_cons] at h
    rw [sizes] at hlt
    rw [rootNumbers_cons]
    by_cases hfirst : k < base + n.size
    · obtain ⟨m, b, q, hm, hk, hq⟩ := Stored.exists_at n h.1 hle hfirst
      refine ⟨m, b, q, hm, hk, hq.imp_left fun hq => ⟨?_, hq.2⟩⟩
      rw [hq.1]
      exact List.mem_cons_self
    · have hbehind : base + n.size ≤ k := Nat.le_of_not_lt hfirst
      obtain ⟨m, b, q, hm, hk, hq⟩ := StoredAll.exists_at ns h.2 hbehind (by omega)
      exact ⟨m, b, q, hm, hk, hq.imp_left fun hq => ⟨List.mem_cons_of_mem _ hq.1, hq.2⟩⟩

end

-- ---------------------------------------------------------------------------
-- Listings
-- ---------------------------------------------------------------------------

mutual

/-- A listing has each number of its tree once. -/
theorem preorderNumbers_perm (base : Nat) :
    (n : Node) → (n.preorderNumbers base).Perm (List.range' base n.size)
  | mk info children => by
    rw [preorderNumbers, size, Nat.add_comm 1, List.range'_1_concat]
    exact ((preorderNumbersOf_perm base children).cons _).trans
      (List.perm_append_singleton _ _).symm

/-- Each number of the entries is listed once. -/
theorem preorderNumbersOf_perm (base : Nat) :
    (ns : List Node) → (preorderNumbersOf base ns).Perm (List.range' base (sizes ns))
  | [] => .nil
  | n :: ns => by
    rw [preorderNumbersOf, sizes, ← List.range'_append_1]
    exact (preorderNumbers_perm base n).append (preorderNumbersOf_perm (base + n.size) ns)

end

/-- The listing of trees side by side is that of one root after the other. -/
theorem StoredAll.flatMap_descendants (h : StoredAll t base parent ns) :
    (rootNumbers base ns).flatMap t.descendants = preorderNumbersOf base ns := by
  induction ns generalizing base with
  | nil => rfl
  | cons n ns ih =>
    rw [storedAll_cons] at h
    rw [rootNumbers_cons, List.flatMap_cons, h.1.descendants_eq, ih h.2, preorderNumbersOf]

mutual

/-- The nodes of a listing by numbers. -/
theorem Stored.map_node? (n : Node) {base : Nat} {above : Option Nat} (h : n.Stored t base above) :
    (n.preorderNumbers base).map t.node? = n.preorder.map some :=
  match n with
  | mk info children => by
    have hroot : t.node? (base + sizes children) = some (mk info children) := h.node?_eq
    rw [preorderNumbers, preorder, List.map_cons, List.map_cons, hroot,
      StoredAll.map_node? children h.below]

/-- The listing gives the nodes in document order. -/
theorem StoredAll.map_node? (ns : List Node) {base parent : Nat} (h : StoredAll t base parent ns) :
    (preorderNumbersOf base ns).map t.node? = (preorders ns).map some :=
  match ns with
  | [] => rfl
  | n :: ns => by
    rw [storedAll_cons] at h
    rw [preorderNumbersOf, preorders, List.map_append, List.map_append, Stored.map_node? n h.1,
      StoredAll.map_node? ns h.2]

end

end

end Node

-- ---------------------------------------------------------------------------
-- Ways through the table
-- ---------------------------------------------------------------------------

namespace Tree

/-- The node that is found along the numbers of children, at most `bound` levels deep; a number that
the table does not have is refused. -/
def rebuild? (t : Tree) : (bound n : Nat) → Option Node
  | 0, _ => none
  | bound + 1, n => do
    let entry ← t.table[n]?
    return .mk entry.node.info (← entry.children.mapM (t.rebuild? bound))

/-- A loop that lists nodes: it takes a number from the stack, lists it, and puts the numbers of its
children on the stack, the first on top. `Visits t stack listed` says that the loop ends if it
begins with that stack, and what it lists. -/
inductive Visits (t : Tree) : List Nat → List Nat → Prop
  | done : Visits t [] []
  | visit {n : Nat} {stack listed : List Nat} (h : Visits t (t.children n ++ stack) listed) :
    Visits t (n :: stack) (n :: listed)

/-- The loop that lists has one result. -/
theorem Visits.unique {t : Tree} {stack listed listed' : List Nat} (h : Visits t stack listed)
    (h' : Visits t stack listed') : listed = listed' := by
  induction h generalizing listed' with
  | done =>
    cases h'
    rfl
  | visit _ ih =>
    cases h' with
    | visit h' => rw [ih h']

/-- A loop that marks parents: it takes a number from the stack, marks the node as the parent of its
children, and puts their numbers on the stack, the last on top. `Marks t stack parents marked` says
that the loop ends if it begins with that stack and those marks, and which marks it ends with. -/
inductive Marks (t : Tree) : List Nat → (Nat → Option Nat) → (Nat → Option Nat) → Prop
  | done {parents : Nat → Option Nat} : Marks t [] parents parents
  | mark {n : Nat} {stack : List Nat} {parents marked : Nat → Option Nat}
    (h : Marks t ((t.children n).reverse ++ stack)
      (fun c => if c ∈ t.children n then some n else parents c) marked) :
    Marks t (n :: stack) parents marked

/-- The loop that marks parents has one result. -/
theorem Marks.unique {t : Tree} {stack : List Nat} {parents marked marked' : Nat → Option Nat}
    (h : Marks t stack parents marked) (h' : Marks t stack parents marked') : marked = marked' := by
  induction h with
  | done =>
    cases h'
    rfl
  | mark _ ih =>
    cases h' with
    | mark h' => exact ih h'

/-- The marks with those of the numbers from `base` up to `stop` as the table has them. -/
def markFrom (t : Tree) (base stop : Nat) (parents : Nat → Option Nat) (c : Nat) : Option Nat :=
  if base ≤ c ∧ c < stop then t.parent? c else parents c

end Tree

namespace Node

variable {t : Tree}

/-- All children are found if each of them is. -/
theorem StoredAll.mapM_rebuild? {ns : List Node} {base parent bound : Nat}
    (h : StoredAll t base parent ns)
    (hbelow : ∀ c ∈ rootNumbers base ns, t.rebuild? bound c = t.node? c) :
    (rootNumbers base ns).mapM (t.rebuild? bound) = some ns := by
  induction ns generalizing base with
  | nil => rfl
  | cons n ns ih =>
    rw [storedAll_cons] at h
    rw [rootNumbers_cons, List.forall_mem_cons] at hbelow
    rw [rootNumbers_cons, List.mapM_cons, hbelow.1, h.1.node?_eq, ih h.2 hbelow.2]
    rfl

mutual

/-- The loop that lists nodes lists a tree whose root is on top of the stack. -/
theorem Stored.visits (n : Node) {base : Nat} {above : Option Nat} (h : n.Stored t base above)
    {stack listed : List Nat} (hrest : t.Visits stack listed) :
    t.Visits (n.numberFrom base :: stack) (n.preorderNumbers base ++ listed) :=
  match n with
  | mk info children => by
    have hchildren : t.children _ = rootNumbers base children := h.children_eq
    refine .visit ?_
    rw [hchildren]
    exact StoredAll.visits children h.below hrest

/-- The loop lists what is below the roots on top of the stack, one root after the other. -/
theorem StoredAll.visits (ns : List Node) {base parent : Nat} (h : StoredAll t base parent ns)
    {stack listed : List Nat} (hrest : t.Visits stack listed) :
    t.Visits (rootNumbers base ns ++ stack) (preorderNumbersOf base ns ++ listed) :=
  match ns with
  | [] => hrest
  | n :: ns => by
    rw [storedAll_cons] at h
    rw [rootNumbers_cons, preorderNumbersOf, List.append_assoc]
    exact Stored.visits n h.1 (StoredAll.visits ns h.2 hrest)

end

/-- The marks of a root's children, and then of all that is below them, are those of all below
it. -/
theorem Stored.markFrom_eq {n : Node} {base : Nat} {above : Option Nat} (h : n.Stored t base above)
    {parents : Nat → Option Nat} (hroot : parents (n.numberFrom base) = above) :
    (t.markFrom base (n.numberFrom base) fun c =>
        if c ∈ t.children (n.numberFrom base) then some (n.numberFrom base) else parents c) =
      t.markFrom base (base + n.size) parents := by
  funext c
  have hsize := n.size_eq
  have hbounds := rootNumbers_bounds base n.children c
  rw [Tree.markFrom, Tree.markFrom, h.children_eq]
  by_cases hin : base ≤ c ∧ c < n.numberFrom base
  · have hlt : c < base + n.size := by
      rw [numberFrom] at hin
      omega
    rw [if_pos hin, if_pos ⟨hin.1, hlt⟩]
  · have hnot : c ∉ rootNumbers base n.children := fun hc => hin (hbounds hc)
    rw [if_neg hin, if_neg hnot]
    by_cases hself : c = n.numberFrom base
    · rw [hself, hroot, h.parent?_eq]
      exact (ite_self _).symm
    · have hout : ¬(base ≤ c ∧ c < base + n.size) := by
        rw [numberFrom] at hin hself
        omega
      rw [if_neg hout]

/-- Marks of two ranges, side by side, are those of one range. -/
theorem markFrom_markFrom {base middle stop : Nat} {parents : Nat → Option Nat} (h : base ≤ middle)
    (h' : middle ≤ stop) :
    t.markFrom base middle (t.markFrom middle stop parents) = t.markFrom base stop parents := by
  funext c
  simp only [Tree.markFrom]
  split
  · rw [if_pos (by omega)]
  · by_cases hin : middle ≤ c ∧ c < stop
    · rw [if_pos hin, if_pos (by omega)]
    · rw [if_neg hin, if_neg (by omega)]

mutual

/-- The loop that marks parents marks all below a root that is on top of the stack, if the root has
its mark. -/
theorem Stored.marks (n : Node) {base : Nat} {above : Option Nat} (h : n.Stored t base above)
    {stack : List Nat} {parents marked : Nat → Option Nat}
    (hroot : parents (n.numberFrom base) = above)
    (hrest : t.Marks stack (t.markFrom base (base + n.size) parents) marked) :
    t.Marks (n.numberFrom base :: stack) parents marked :=
  match n with
  | mk info children => by
    have hchildren : t.children _ = rootNumbers base children := h.children_eq
    refine .mark ?_
    rw [← h.markFrom_eq hroot] at hrest
    rw [hchildren]
    refine StoredAll.marks children h.below (fun c hc => ?_) (hchildren ▸ hrest)
    rw [if_pos hc]

/-- The loop marks all below the roots on top of the stack, the last root first. -/
theorem StoredAll.marks (ns : List Node) {base parent : Nat} (h : StoredAll t base parent ns)
    {stack : List Nat} {parents marked : Nat → Option Nat}
    (hroots : ∀ c ∈ rootNumbers base ns, parents c = some parent)
    (hrest : t.Marks stack (t.markFrom base (base + sizes ns) parents) marked) :
    t.Marks ((rootNumbers base ns).reverse ++ stack) parents marked :=
  match ns with
  | [] => by
    have hnone : t.markFrom base (base + sizes []) parents = parents := by
      funext c
      rw [Tree.markFrom, sizes, if_neg (by omega)]
    rwa [hnone] at hrest
  | n :: ns => by
    rw [storedAll_cons] at h
    rw [rootNumbers_cons] at hroots ⊢
    rw [List.forall_mem_cons] at hroots
    rw [sizes, ← Nat.add_assoc, ← markFrom_markFrom (Nat.le_add_right _ _) (Nat.le_add_right _ _)]
      at hrest
    rw [List.reverse_cons, List.append_assoc]
    -- The last child is on top of the stack, so the first one comes behind all others.
    refine StoredAll.marks ns h.2 hroots.2 (Stored.marks n h.1 ?_ hrest)
    have hlt : n.numberFrom base < base + n.size := by
      rw [numberFrom, size_eq]
      omega
    rw [Tree.markFrom, if_neg (by omega), hroots.1]

end

end Node

-- ---------------------------------------------------------------------------
-- The table of a tree
-- ---------------------------------------------------------------------------

namespace Tree

/-- The table is that of a tree. -/
structure WellLinked (t : Tree) : Prop where
  /-- The root has a number, and no parent. -/
  root : t.node? t.rootNumber = some t.root ∧ t.parent? t.rootNumber = none
  /-- Every number is reached from the root, and once. -/
  reached : (t.descendants t.rootNumber).Perm (List.range t.table.size)
  /-- Children are nodes of the table with smaller numbers, and stand in their order. -/
  children_lt : ∀ n, ∀ c ∈ t.children n, c < n ∧ n < t.table.size
  children_increasing : ∀ n, (t.children n).Pairwise (· < ·)
  /-- A node that is not the root is a child of one node, once, and that node is its parent. -/
  existsUnique_parent : ∀ c < t.table.size, c ≠ t.rootNumber →
    ∃! n, n < t.table.size ∧ t.parent? c = some n ∧ (t.children n).count c = 1
  parent_iff : ∀ c n, t.parent? c = some n ↔ c ∈ t.children n
  /-- The nodes in a role are children, in their order, and play no other role, nor one
  elsewhere. -/
  fields_sublist : ∀ n f, (t.childrenInField n f).Sublist (t.children n)
  fields_unique : ∀ n f c, c ∈ t.childrenInField n f →
    ∀ n' f', c ∈ t.childrenInField n' f' → n' = n ∧ f' = f
  /-- A listing is that of the node and then of each child, and has no node twice. -/
  descendants_eq : ∀ n < t.table.size,
    t.descendants n = n :: (t.children n).flatMap t.descendants ∧ (t.descendants n).Nodup
  /-- The way down by the numbers of children does not leave the table, and leads to the node. -/
  rebuild_eq : ∀ n < t.table.size, ∀ bound, n < bound → t.rebuild? bound n = t.node? n
  /-- The loop that lists what is below a node ends with the listing. -/
  visits_iff : ∀ n < t.table.size, ∀ listed, t.Visits [n] listed ↔ listed = t.descendants n
  /-- The loop that marks parents, from the root on and with no marks at first, ends with the
  parents. -/
  marks_iff : ∀ marked, t.Marks [t.rootNumber] (fun _ => none) marked ↔ marked = t.parent?

/-- The table holds the entries of the root and no others. -/
structure Complete (t : Tree) : Prop where
  root : t.root.Stored t 0 none
  size : t.table.size = t.root.size

/-- The table that is made from a root is complete. -/
theorem complete_make (source : List Char) (root : Node) (diagnostics : List Diagnostic) :
    (make source root diagnostics).Complete :=
  ⟨Node.stored_make source root diagnostics, size_table_make source root diagnostics⟩

section

variable {t : Tree} {n c : Nat} {f : Field}

/-- Only a number of the table has children. -/
theorem lt_size_of_mem_children (h : c ∈ t.children n) : n < t.table.size := by
  refine Nat.lt_of_not_le fun hout => ?_
  rw [children, Array.getElem?_eq_none hout] at h
  exact List.not_mem_nil h

/-- Only a number of the table has a parent. -/
theorem parent?_of_size_le (h : t.table.size ≤ c) : t.parent? c = none := by
  rw [parent?, Array.getElem?_eq_none h]
  rfl

/-- A child in a role is a child, and has that role. -/
theorem mem_childrenInField (h : c ∈ t.childrenInField n f) :
    c ∈ t.children n ∧ t.fieldOf c = some f := by
  rw [childrenInField, List.mem_filter, beq_iff_eq] at h
  exact h

/-- The root has the last of all numbers. -/
theorem numberFrom_root (t : Tree) : t.root.numberFrom 0 = t.rootNumber := by
  rw [Node.numberFrom_eq, Nat.zero_add]
  rfl

namespace Complete

/-- The root is in the table. -/
theorem rootNumber_lt (h : t.Complete) : t.rootNumber < t.table.size := by
  have hpos := t.root.size_pos
  rw [h.size, rootNumber]
  omega

/-- Every number of the table is that of a node whose entries are held, and the parent of that node
has it as a child, unless it is the root. -/
theorem exists_stored (h : t.Complete) (hn : n < t.table.size) :
    ∃ (m : Node) (b : Nat) (q : Option Nat), m.Stored t b q ∧ m.numberFrom b = n ∧
      (n = t.rootNumber ∧ q = none ∨ ∃ p, q = some p ∧ n ∈ t.children p) := by
  have hlt : n < 0 + t.root.size := by
    rw [Nat.zero_add, ← h.size]
    exact hn
  obtain ⟨m, b, q, hm, hnumber, hq⟩ := Node.Stored.exists_at t.root h.root (Nat.zero_le n) hlt
  rw [t.numberFrom_root] at hq
  exact ⟨m, b, q, hm, hnumber, hq⟩

/-- A child has a smaller number than its parent, which the table names as its parent. -/
theorem of_mem_children (h : t.Complete) (hc : c ∈ t.children n) :
    c < n ∧ t.parent? c = some n := by
  obtain ⟨m, b, q, hm, rfl, -⟩ := h.exists_stored (lt_size_of_mem_children hc)
  rw [hm.children_eq] at hc
  exact ⟨(Node.rootNumbers_bounds b m.children c hc).2, hm.below.parent?_eq c hc⟩

/-- A node is a child of its parent. -/
theorem mem_children_of_parent? (h : t.Complete) (hc : t.parent? c = some n) :
    c ∈ t.children n := by
  have hlt : c < t.table.size := by
    refine Nat.lt_of_not_le fun hout => ?_
    rw [parent?_of_size_le hout] at hc
    cases hc
  obtain ⟨m, b, q, hm, rfl, hq⟩ := h.exists_stored hlt
  rw [hm.parent?_eq] at hc
  subst hc
  rcases hq with ⟨-, hnone⟩ | ⟨p, hsome, hmem⟩
  · cases hnone
  · cases hsome
    exact hmem

/-- Children have rising numbers. -/
theorem pairwise_children (h : t.Complete) (n : Nat) : (t.children n).Pairwise (· < ·) := by
  by_cases hn : n < t.table.size
  · obtain ⟨m, b, q, hm, rfl, -⟩ := h.exists_stored hn
    rw [hm.children_eq]
    exact Node.pairwise_rootNumbers b m.children
  · rw [children, Array.getElem?_eq_none (Nat.le_of_not_lt hn)]
    exact .nil

/-- Every node but the root is a child of one node, once. -/
theorem existsUnique_parent (h : t.Complete) (hc : c < t.table.size) (hroot : c ≠ t.rootNumber) :
    ∃! n, n < t.table.size ∧ t.parent? c = some n ∧ (t.children n).count c = 1 := by
  obtain ⟨m, b, q, hm, rfl, hq⟩ := h.exists_stored hc
  rcases hq with ⟨hq, -⟩ | ⟨p, rfl, hmem⟩
  · exact absurd hq hroot
  · have hnodup : (t.children p).Nodup := (h.pairwise_children p).imp Nat.ne_of_lt
    have hcount := List.count_eq_one_of_mem hnodup hmem
    refine ⟨p, ⟨lt_size_of_mem_children hmem, hm.parent?_eq, hcount⟩, ?_⟩
    rintro p' ⟨-, hp', -⟩
    rw [hm.parent?_eq] at hp'
    exact (Option.some.inj hp').symm

/-- A node plays one role, in one node. -/
theorem fields_unique (h : t.Complete) {n' : Nat} {f' : Field} (hc : c ∈ t.childrenInField n f)
    (hc' : c ∈ t.childrenInField n' f') : n' = n ∧ f' = f := by
  obtain ⟨hn, hf⟩ := mem_childrenInField hc
  obtain ⟨hn', hf'⟩ := mem_childrenInField hc'
  have hparent := (h.of_mem_children hn').2.symm.trans (h.of_mem_children hn).2
  exact ⟨Option.some.inj hparent, Option.some.inj (hf'.symm.trans hf)⟩

/-- The listing below the root has each number once. -/
theorem perm_descendants (h : t.Complete) :
    (t.descendants t.rootNumber).Perm (List.range t.table.size) := by
  rw [← t.numberFrom_root, h.root.descendants_eq, h.size, List.range_eq_range']
  exact Node.preorderNumbers_perm 0 t.root

/-- A listing is that of the node and then of each child. -/
theorem descendants_eq (h : t.Complete) (hn : n < t.table.size) :
    t.descendants n = n :: (t.children n).flatMap t.descendants := by
  obtain ⟨m, b, q, hm, rfl, -⟩ := h.exists_stored hn
  rw [hm.descendants_eq, hm.children_eq, hm.below.flatMap_descendants, Node.preorderNumbers_eq]

/-- No listing has a number twice. -/
theorem nodup_descendants (h : t.Complete) (hn : n < t.table.size) : (t.descendants n).Nodup := by
  obtain ⟨m, b, q, hm, rfl, -⟩ := h.exists_stored hn
  rw [hm.descendants_eq, (Node.preorderNumbers_perm b m).nodup_iff]
  exact List.nodup_range'

/-- The nodes of a listing, by number and by value. -/
theorem map_node?_descendants (h : t.Complete) :
    (t.descendants t.rootNumber).map t.node? = t.root.preorder.map some := by
  rw [← t.numberFrom_root, h.root.descendants_eq, h.root.map_node?]

/-- The way down by the numbers of children leads to the node. -/
theorem rebuild_eq (h : t.Complete) {bound : Nat} (hn : n < t.table.size) (hbound : n < bound) :
    t.rebuild? bound n = t.node? n := by
  induction bound generalizing n with
  | zero => exact absurd hbound (Nat.not_lt_zero n)
  | succ bound ih =>
    obtain ⟨m, b, q, hm, rfl, -⟩ := h.exists_stored hn
    have hbelow : ∀ c ∈ Node.rootNumbers b m.children, t.rebuild? bound c = t.node? c := by
      intro c hc
      have hlt := (Node.rootNumbers_bounds b m.children c hc).2
      rw [← Node.numberFrom] at hlt
      exact ih (Nat.lt_trans hlt hn) (by omega)
    rw [rebuild?, hm.entry, hm.node?_eq]
    simp only [Option.bind_eq_bind, Option.bind_some, hm.below.mapM_rebuild? hbelow]
    cases m
    rfl

/-- The loop that lists ends with the listing. -/
theorem visits_iff (h : t.Complete) (hn : n < t.table.size) (listed : List Nat) :
    t.Visits [n] listed ↔ listed = t.descendants n := by
  obtain ⟨m, b, q, hm, rfl, -⟩ := h.exists_stored hn
  have hvisits : t.Visits [m.numberFrom b] (t.descendants (m.numberFrom b)) := by
    rw [hm.descendants_eq, ← List.append_nil (m.preorderNumbers b)]
    exact hm.visits m .done
  constructor
  · intro hlisted
    exact hlisted.unique hvisits
  · rintro rfl
    exact hvisits

/-- The loop that marks parents ends with the parents of the table. -/
theorem marks_iff (h : t.Complete) (marked : Nat → Option Nat) :
    t.Marks [t.rootNumber] (fun _ => none) marked ↔ marked = t.parent? := by
  have hall : t.markFrom 0 (0 + t.root.size) (fun _ => none) = t.parent? := by
    funext c
    rw [markFrom, Nat.zero_add, ← h.size]
    by_cases hc : c < t.table.size
    · rw [if_pos ⟨Nat.zero_le c, hc⟩]
    · rw [if_neg fun hin => hc hin.2, parent?_of_size_le (Nat.le_of_not_lt hc)]
  have hmarks : t.Marks [t.rootNumber] (fun _ => none) t.parent? := by
    rw [← t.numberFrom_root]
    exact h.root.marks t.root rfl (hall ▸ .done)
  constructor
  · intro hmarked
    exact hmarked.unique hmarks
  · rintro rfl
    exact hmarks

/-- A table that holds the entries of its root, and no others, is that of a tree. -/
theorem wellLinked (h : t.Complete) : t.WellLinked where
  root := by
    rw [← t.numberFrom_root]
    exact ⟨h.root.node?_eq, h.root.parent?_eq⟩
  reached := h.perm_descendants
  children_lt _ _ hc := ⟨(h.of_mem_children hc).1, lt_size_of_mem_children hc⟩
  children_increasing := h.pairwise_children
  existsUnique_parent _ hc hroot := h.existsUnique_parent hc hroot
  parent_iff _ _ := ⟨h.mem_children_of_parent?, fun hc => (h.of_mem_children hc).2⟩
  fields_sublist _ _ := List.filter_sublist
  fields_unique _ _ _ hc _ _ hc' := h.fields_unique hc hc'
  descendants_eq _ hn := ⟨h.descendants_eq hn, h.nodup_descendants hn⟩
  rebuild_eq _ hn _ hbound := h.rebuild_eq hn hbound
  visits_iff _ hn := h.visits_iff hn
  marks_iff := h.marks_iff

end Complete

end

end Tree

end VisualBasic
