import VisualBasic.Grammar.Arena

/-!
# Trees in a vector

When a vector of nodes holds a tree at an index. The cells of the tree stand in a range of indices
in which children come before their parents and nodes further left before those further right, so no
two nodes of a tree share a cell, and no cell is below itself. Other cells may stand in between:
what was tried and given up, or attached to nodes that were given up.

Main results:

* `Arena.Row.append` — two rows of trees, the one behind the other, are a row.
* `Arena.Stands.congr` — a tree depends on no more than the cells up to its own, and on no parents.
* `Arena.Stands.finish` — a cell behind a row of trees, with their indices as its children, holds
  the tree over them.
-/

namespace VisualBasic

/-- What the cell says of its node is what is known of the node, but for the role that it plays. -/
structure Cell.Shows (cell : Cell) (info : NodeInfo) : Prop where
  kind : cell.kind = info.kind
  span : cell.span = info.span
  firstToken : cell.firstToken = info.firstToken
  token : cell.token = info.token
  flags : cell.flags = info.flags

/-- The cell as it was before its parent was known. -/
def Cell.unlinked (cell : Cell) : Cell := { cell with parent := none }

theorem Cell.shows_unlinked {cell : Cell} {info : NodeInfo} :
    cell.unlinked.Shows info ↔ cell.Shows info :=
  ⟨fun h => ⟨h.kind, h.span, h.firstToken, h.token, h.flags⟩,
    fun h => ⟨h.kind, h.span, h.firstToken, h.token, h.flags⟩⟩

namespace Arena

/-- The indices of those nodes that play a role, each behind its role. -/
def rolesOf (ids : List NodeId) (ns : List Node) : List (Field × NodeId) :=
  (ids.zip ns).filterMap fun (id, n) => n.field.map (·, id)

mutual

/-- The tree stands at an index, with all its cells from the index `lo` on. -/
def Stands (nodes : Cells) (lo id : Nat) : Node → Prop
  | .mk info children =>
    ∃ cell, nodes[id]? = some cell ∧ cell.Shows info ∧
      cell.fields = rolesOf cell.children children ∧ Row nodes lo cell.children id children

/-- The trees stand at the indices, one behind the other, with all their cells from `lo` on and in
front of `hi`. -/
def Row (nodes : Cells) (lo : Nat) (ids : List NodeId) (hi : Nat) : List Node → Prop
  | [] => ids = [] ∧ lo ≤ hi
  | n :: rest =>
    ∃ (id : Nat) (ids' : List NodeId), ids = id :: ids' ∧ Stands nodes lo id n ∧
    Row nodes (id + 1) ids' hi rest

end

variable {nodes nodes' : Cells} {lo lo' mid hi hi' id : Nat}
  {ids ids' : List NodeId} {n : Node}
  {ns ns' : List Node}

-- ---------------------------------------------------------------------------
-- Where the cells stand
-- ---------------------------------------------------------------------------

theorem Stands.lt_size (h : Stands nodes lo id n) : id < nodes.size := by
  obtain ⟨info, children⟩ := n
  rw [Stands] at h
  obtain ⟨cell, hcell, -⟩ := h
  exact (Array.getElem?_eq_some_iff.1 hcell).1

mutual

theorem Stands.le (n : Node) {lo id : Nat} (h : Stands nodes lo id n) : lo ≤ id :=
  match n with
  | .mk _ children => by
    rw [Stands] at h
    obtain ⟨cell, -, -, -, hrow⟩ := h
    exact Row.le children hrow

theorem Row.le (ns : List Node) {lo hi : Nat} {ids : List NodeId} (h : Row nodes lo ids hi ns) :
    lo ≤ hi :=
  match ns with
  | [] => by
    rw [Row] at h
    exact h.2
  | n :: rest => by
    rw [Row] at h
    obtain ⟨id, ids', -, hn, hrest⟩ := h
    have hlo := Stands.le n hn
    have hhi := Row.le rest hrest
    omega

end

theorem Row.nil (h : lo ≤ hi) : Row nodes lo [] hi [] := by
  rw [Row]
  exact ⟨rfl, h⟩

theorem Row.cons (hn : Stands nodes lo id n) (hrest : Row nodes (id + 1) ids hi ns) :
    Row nodes lo (id :: ids) hi (n :: ns) := by
  rw [Row]
  exact ⟨id, ids, rfl, hn, hrest⟩

theorem Row.of_le (h : Row nodes lo ids hi ns) (hhi : hi ≤ hi') : Row nodes lo ids hi' ns := by
  induction ns generalizing lo ids with
  | nil =>
    rw [Row] at h ⊢
    exact ⟨h.1, Nat.le_trans h.2 hhi⟩
  | cons n rest ih =>
    rw [Row] at h
    obtain ⟨id, ids', rfl, hn, hrest⟩ := h
    exact .cons hn (ih hrest)

mutual

theorem Stands.of_le (n : Node) {lo lo' id : Nat} (h : Stands nodes lo id n) (hlo : lo' ≤ lo) :
    Stands nodes lo' id n :=
  match n with
  | .mk _ children => by
    rw [Stands] at h ⊢
    obtain ⟨cell, hcell, hshows, hfields, hrow⟩ := h
    exact ⟨cell, hcell, hshows, hfields, Row.of_lo_le children hrow hlo⟩

theorem Row.of_lo_le (ns : List Node) {lo lo' hi : Nat} {ids : List NodeId}
    (h : Row nodes lo ids hi ns) (hlo : lo' ≤ lo) : Row nodes lo' ids hi ns :=
  match ns with
  | [] => by
    rw [Row] at h ⊢
    exact ⟨h.1, Nat.le_trans hlo h.2⟩
  | n :: rest => by
    rw [Row] at h
    obtain ⟨id, ids', rfl, hn, hrest⟩ := h
    exact .cons (Stands.of_le n hn hlo) hrest

end

theorem Row.append (h : Row nodes lo ids mid ns) (h' : Row nodes mid ids' hi ns') :
    Row nodes lo (ids ++ ids') hi (ns ++ ns') := by
  induction ns generalizing lo ids with
  | nil =>
    rw [Row] at h
    obtain ⟨rfl, hlo⟩ := h
    exact h'.of_lo_le _ hlo
  | cons n rest ih =>
    rw [Row] at h
    obtain ⟨id, ids₁, rfl, hn, hrest⟩ := h
    exact .cons hn (ih hrest)

theorem Row.length_eq (h : Row nodes lo ids hi ns) : ids.length = ns.length := by
  induction ns generalizing lo ids with
  | nil =>
    rw [Row] at h
    rw [h.1]
    rfl
  | cons n rest ih =>
    rw [Row] at h
    obtain ⟨id, ids', rfl, -, hrest⟩ := h
    rw [List.length_cons, List.length_cons, ih hrest]

theorem rolesOf_append (h : ids.length = ns.length) :
    rolesOf (ids ++ ids') (ns ++ ns') = rolesOf ids ns ++ rolesOf ids' ns' := by
  rw [rolesOf, List.zip_append h, List.filterMap_append]
  rfl

-- ---------------------------------------------------------------------------
-- What a tree depends on
-- ---------------------------------------------------------------------------

/-- In front of an index, the cells of two vectors agree in all but their parents. -/
def AgreeBelow (hi : Nat) (nodes nodes' : Cells) : Prop :=
  ∀ i < hi, nodes'[i]?.map Cell.unlinked = nodes[i]?.map Cell.unlinked

theorem AgreeBelow.of_le (h : AgreeBelow hi' nodes nodes') (hhi : hi ≤ hi') :
    AgreeBelow hi nodes nodes' :=
  fun i hi => h i (Nat.lt_of_lt_of_le hi hhi)

theorem AgreeBelow.refl : AgreeBelow hi nodes nodes := fun _ _ => rfl

theorem AgreeBelow.trans {nodes₁ : Cells} (h : AgreeBelow hi nodes nodes₁)
    (h' : AgreeBelow hi nodes₁ nodes') : AgreeBelow hi nodes nodes' :=
  fun i hi => (h' i hi).trans (h i hi)

theorem AgreeBelow.append (more : Cells) : AgreeBelow nodes.size nodes (nodes ++ more) :=
  fun _ hi => by rw [Array.getElem?_append_left hi]

/-- Of a cell in the one vector there is one in the other that differs at most by its parent. -/
theorem AgreeBelow.exists_cell (h : AgreeBelow hi nodes nodes') (hid : id < hi) {cell : Cell}
    (hcell : nodes[id]? = some cell) : ∃ cell', nodes'[id]? = some cell' ∧
    cell'.unlinked = cell.unlinked := by
  have heq := h id hid
  rw [hcell, Option.map_some, Option.map_eq_some_iff] at heq
  exact heq

mutual

theorem Stands.congr (n : Node) {lo id : Nat} (h : Stands nodes lo id n)
    (heq : AgreeBelow (id + 1) nodes nodes') : Stands nodes' lo id n :=
  match n with
  | .mk _ children => by
    rw [Stands] at h ⊢
    obtain ⟨cell, hcell, hshows, hfields, hrow⟩ := h
    obtain ⟨cell', hcell', hsame⟩ := heq.exists_cell (Nat.lt_succ_self id) hcell
    have hchildren : cell'.unlinked.children = cell.unlinked.children := by rw [hsame]
    have hroles : cell'.unlinked.fields = cell.unlinked.fields := by rw [hsame]
    rw [← Cell.shows_unlinked, ← hsame, Cell.shows_unlinked] at hshows
    change cell'.children = cell.children at hchildren
    refine ⟨cell', hcell', hshows, ?_, ?_⟩
    · rw [hchildren, ← hfields]
      exact hroles
    · rw [hchildren]
      exact Row.congr children hrow (heq.of_le (Nat.le_succ id))

theorem Row.congr (ns : List Node) {lo hi : Nat} {ids : List NodeId} (h : Row nodes lo ids hi ns)
    (heq : AgreeBelow hi nodes nodes') : Row nodes' lo ids hi ns :=
  match ns with
  | [] => by
    rw [Row] at h ⊢
    exact h
  | n :: rest => by
    rw [Row] at h
    obtain ⟨id, ids', rfl, hn, hrest⟩ := h
    exact .cons (Stands.congr n hn (heq.of_le (Row.le rest hrest))) (Row.congr rest hrest heq)

end

theorem Stands.append (h : Stands nodes lo id n) (more : Cells) :
    Stands (nodes ++ more) lo id n :=
  h.congr _ ((AgreeBelow.append more).of_le h.lt_size)

theorem Row.ids_lt (h : Row nodes lo ids hi ns) : ∀ i : Nat, i ∈ ids → lo ≤ i ∧ i < hi := by
  induction ns generalizing lo ids with
  | nil =>
    rw [Row] at h
    rw [h.1]
    exact fun _ hid => absurd hid List.not_mem_nil
  | cons n rest ih =>
    rw [Row] at h
    obtain ⟨id, ids', rfl, hn, hrest⟩ := h
    have hlo := Stands.le n hn
    have hhi := Row.le rest hrest
    refine List.forall_mem_cons.2 ⟨⟨hlo, by omega⟩, fun i hmem => ?_⟩
    obtain ⟨hlo', hhi'⟩ := ih hrest i hmem
    exact ⟨by omega, hhi'⟩

theorem Row.append_nodes (h : Row nodes lo ids hi ns) (hhi : hi ≤ nodes.size) (more : Cells) :
    Row (nodes ++ more) lo ids hi ns :=
  h.congr _ ((AgreeBelow.append more).of_le hhi)

-- ---------------------------------------------------------------------------
-- Finishing a node
-- ---------------------------------------------------------------------------

/-- Children that are in trouble show it in the vector. -/
theorem Row.any_troubled {b : Arena} (h : Row b.nodes lo ids hi ns) :
    ids.any b.troubled = ns.any Node.troubled := by
  induction ns generalizing lo ids with
  | nil =>
    rw [Row] at h
    rw [h.1]
    rfl
  | cons n rest ih =>
    rw [Row] at h
    obtain ⟨id, ids', rfl, hn, hrest⟩ := h
    obtain ⟨info, children⟩ := n
    rw [Stands] at hn
    obtain ⟨cell, hcell, hshows, -, -⟩ := hn
    have htroubled : b.troubled id = (Node.mk info children).troubled := by
      rw [troubled, getElem!_def, hcell]
      exact congrArg Flags.troubled hshows.flags
    rw [List.any_cons, List.any_cons, htroubled, ih hrest]

/-- The children and the roles that were gathered, the latest first, stand for a row of trees. -/
structure Gathers (nodes : Cells) (lo hi : Nat) (ids : List NodeId)
    (roles : List (Field × NodeId))
    (ns : List Node) : Prop where
  row : Row nodes lo ids.reverse hi ns.reverse
  roles_eq : roles.reverse = rolesOf ids.reverse ns.reverse

namespace Gathers

variable {roles roles' : List (Field × NodeId)}

theorem nil (h : lo ≤ hi) : Gathers nodes lo hi [] [] [] := ⟨.nil h, rfl⟩

/-- What is gathered later is put in front. -/
theorem append (h : Gathers nodes lo mid ids roles ns) (h' : Gathers nodes mid hi ids' roles' ns') :
    Gathers nodes lo hi (ids' ++ ids) (roles' ++ roles) (ns' ++ ns) := by
  refine ⟨?_, ?_⟩
  · rw [List.reverse_append, List.reverse_append]
    exact h.row.append h'.row
  · rw [List.reverse_append, List.reverse_append, List.reverse_append,
      rolesOf_append h.row.length_eq,
      h.roles_eq, h'.roles_eq]

theorem append_nodes (h : Gathers nodes lo hi ids roles ns) (hhi : hi ≤ nodes.size)
    (more : Cells) :
    Gathers (nodes ++ more) lo hi ids roles ns :=
  ⟨h.row.append_nodes hhi more, h.roles_eq⟩

/-- A single tree. -/
theorem single (h : Stands nodes lo id n) :
    Gathers nodes lo (id + 1) [id] ((n.field.map (·, id)).toList) [n] := by
  refine ⟨.cons h (.nil (Nat.le_refl _)), ?_⟩
  cases hfield : n.field <;> simp [rolesOf, hfield]

/-- A cell behind a row of trees holds the tree over them. -/
theorem finish {b : Arena} (h : Gathers b.nodes lo hi b.ids b.roles ns) (hhi : hi ≤ b.nodes.size)
    (kind : NodeKind) (span : Span) (first : Nat) (isPartial : Bool) :
    Stands
      (b.nodes.push
        { kind, span, firstToken := first, children := b.ids.reverse, fields := b.roles.reverse
          flags := { isPartial, hasError := b.ids.any b.troubled } })
      lo b.nodes.size (.finish kind span first isPartial ns.reverse) := by
  have htroubled : b.ids.any b.troubled = ns.reverse.any Node.troubled := by
    rw [← h.row.any_troubled, List.any_reverse]
  rw [Node.finish, Stands]
  refine ⟨_, Array.getElem?_push_size, ⟨rfl, rfl, rfl, rfl, ?_⟩, h.roles_eq, ?_⟩
  · rw [htroubled]
  · rw [← Array.append_singleton]
    exact (h.row.append_nodes hhi _).of_le hhi

end Gathers

/-- A cell without children holds a tree without children. -/
theorem stands_push {cell : Cell} {info : NodeInfo} (h : cell.Shows info)
    (hchildren : cell.children = [])
    (hfields : cell.fields = []) :
    Stands (nodes.push cell) nodes.size nodes.size (.mk info []) := by
  rw [Stands]
  refine ⟨cell, Array.getElem?_push_size, h, ?_, ?_⟩
  · rw [hfields, hchildren]
    rfl
  · rw [hchildren]
    exact .nil (Nat.le_refl _)

/-- The role of a node does not show in its own cell. -/
theorem Stands.inField (h : Stands nodes lo id n) (f : Field) :
    Stands nodes lo id (n.inField f) := by
  obtain ⟨info, children⟩ := n
  rw [Stands] at h
  obtain ⟨cell, hcell, hshows, hfields, hrow⟩ := h
  rw [Node.inField, Stands]
  exact ⟨cell, hcell, ⟨hshows.kind, hshows.span, hshows.firstToken, hshows.token,
    hshows.flags⟩, hfields,
    hrow⟩

-- ---------------------------------------------------------------------------
-- What was given up
-- ---------------------------------------------------------------------------

/-- At every index a tree stands, be it part of another one or given up, and no parent is known
yet. -/
def Sound (nodes : Cells) : Prop :=
  ∀ i cell, nodes[i]? = some cell → cell.parent = none ∧ ∃ n, Stands nodes 0 i n

theorem Sound.empty : Sound #[] := by
  intro i cell hcell
  cases hcell

theorem Sound.push {cell : Cell} (h : Sound nodes) (hparent : cell.parent = none)
    (hn : Stands (nodes.push cell) lo nodes.size n) : Sound (nodes.push cell) := by
  intro i cell' hcell
  by_cases hi : i = nodes.size
  · subst hi
    obtain rfl : cell = cell' := Option.some.inj (Array.getElem?_push_size.symm.trans hcell)
    exact ⟨hparent, n, hn.of_le _ (Nat.zero_le _)⟩
  · rw [Array.getElem?_push, if_neg hi] at hcell
    obtain ⟨hparent', m, hm⟩ := h i cell' hcell
    rw [← Array.append_singleton]
    exact ⟨hparent', m, hm.append _⟩

end Arena

end VisualBasic
