import Mathlib.Data.List.Nodup
import VisualBasic.Proofs.Linking
import VisualBasic.Proofs.MirrorDeclarations

/-!
# The vector holds a tree

Behind a parse the vector holds the tree of the source, and next to it whatever was finished and
given up. At every index there stands some tree, so that the loops over the vector end wherever they
begin. Linking reaches the nodes below the root and no others, and what it notes in a node is its
only parent.

Main results:

* `Arena.Sound.holdsTree` — where a tree stands at every index, linking gives a tree.
* `LinkedTree.ofTokens_holdsTree` — every source has a linked tree, and it holds the tree of the
  source.
-/

namespace VisualBasic

namespace Arena

variable {nodes : Cells} {lo hi id root i : Nat} {ids : List NodeId} {n : Node}
  {ns : List Node}

theorem rolesOf_cons :
    rolesOf (id :: ids) (n :: ns) = (n.field.map (·, id)).toList ++ rolesOf ids ns := by
  cases hfield : n.field <;> simp [rolesOf, hfield]

/-- What plays a role is a child, and roles come in the order of the children. -/
theorem rolesOf_sublist (ids : List NodeId) (ns : List Node) :
    ((rolesOf ids ns).map Prod.snd).Sublist ids := by
  induction ids generalizing ns with
  | nil => exact .refl _
  | cons id ids ih =>
    cases ns with
    | nil => exact List.nil_sublist _
    | cons n ns =>
      rw [rolesOf_cons]
      cases n.field with
      | none => exact (ih ns).cons id
      | some f => exact (ih ns).cons_cons id

/-- The cell of the last node may be given another span. -/
theorem Sound.setSpan (h : Sound nodes) (hsize : nodes.size = root + 1)
    (hroot : Stands nodes 0 root n)
    (span : Span) :
    Sound (nodes.modify root fun cell => { cell with span }) ∧
      Stands (nodes.modify root fun cell => { cell with span }) 0 root (n.withSpan span) := by
  have hkept (i : Nat) (hi : i ≠ root) :
      (nodes.modify root fun cell => { cell with span })[i]? = nodes[i]? := by
    rw [Array.getElem?_modify, if_neg (Ne.symm hi)]
  have hbelow {hi : Nat} (hhi : hi ≤ root) :
      AgreeBelow hi nodes (nodes.modify root fun cell => { cell with span }) := by
    intro i hi
    rw [hkept i (Nat.ne_of_lt (Nat.lt_of_lt_of_le hi hhi))]
  have hstands :
      Stands (nodes.modify root fun cell => { cell with span }) 0 root (n.withSpan span) := by
    obtain ⟨info, children⟩ := n
    rw [Stands] at hroot
    obtain ⟨cell, hcell, hshows, hfields, hrow⟩ := hroot
    rw [Node.withSpan, Stands]
    refine ⟨{ cell with span }, ?_, ⟨hshows.kind, rfl, hshows.firstToken, hshows.token,
      hshows.flags⟩,
      hfields, hrow.congr _ (hbelow (Nat.le_refl _))⟩
    rw [Array.getElem?_modify, if_pos rfl, hcell]
    rfl
  refine ⟨fun i cell hcell => ?_, hstands⟩
  by_cases hi : i = root
  · subst hi
    rw [Array.getElem?_modify, if_pos rfl, Option.map_eq_some_iff] at hcell
    obtain ⟨cell', hcell', rfl⟩ := hcell
    exact ⟨(h i cell' hcell').1, _, hstands⟩
  · rw [hkept i hi] at hcell
    have hlt := (Array.getElem?_eq_some_iff.1 hcell).1
    obtain ⟨hparent, m, hm⟩ := h i cell hcell
    exact ⟨hparent, m, hm.congr _ (hbelow (by omega))⟩

end Arena

-- ---------------------------------------------------------------------------
-- Holding a tree
-- ---------------------------------------------------------------------------

namespace LinkedTree

/-- The node is one of the tree. -/
def Reached (t : LinkedTree) (id : NodeId) : Prop := Arena.Reaches t.nodes t.root id

/-- The vector holds a tree, and its links are those of the tree. -/
structure HoldsTree (t : LinkedTree) : Prop where
  reached_lt : ∀ id, t.Reached id → id < t.nodes.size
  /-- Children stand in front of their parents. -/
  child_lt : ∀ id : Nat, ∀ c : Nat, c ∈ t.children id → c < id
  /-- No child is listed twice. -/
  nodup_children : ∀ id, (t.children id).Nodup
  /-- What plays a role is a child, none plays two, and roles come in the order of the children. -/
  fields_sublist : ∀ id, ((t.fields id).map Prod.snd).Sublist (t.children id)
  parent_root : t.parent? t.root = none
  /-- Every other node is a child once, of the one node that its link names. -/
  parent : ∀ c, t.Reached c → c ≠ t.root → ∃ p, t.Reached p ∧ t.parent? c = some p ∧
    (t.children p).count c = 1 ∧ ∀ p', t.Reached p' → c ∈ t.children p' → p' = p
  /-- What was given up has no parent. -/
  detached : ∀ c, ¬t.Reached c → t.parent? c = none
  /-- The loop that lists what is below a node ends, wherever it begins, with each node listed once
  in the order of the recursion. -/
  descendants : ∀ id < t.nodes.size, ∃ all, t.descendants id = some all ∧
    t.nodes.preorder id = some all ∧ all.Nodup ∧ ∀ i, i ∈ all ↔ Arena.Reaches t.nodes id i

/-- The tree in the vector is one whose nodes are values. -/
structure StandsFor (t : LinkedTree) (tree : Tree) : Prop where
  source_eq : t.source = tree.source
  root : Arena.Stands t.nodes 0 t.root tree.root
  diagnostics_eq : t.diagnostics = tree.diagnostics
  lines_eq : t.lines = tree.lines

end LinkedTree

namespace Arena

variable {nodes : Cells} {root : Nat} {n : Node}

theorem mem_children {t : LinkedTree} {id : Nat} {c : NodeId} :
    c ∈ t.children id ↔ ∃ cell, t.nodes[id]? = some cell ∧ c ∈ cell.children := by
  unfold LinkedTree.children
  cases t.nodes[id]? <;> simp

theorem parent?_eq_none {t : LinkedTree} {id : Nat}
    (h : ∀ cell, t.nodes[id]? = some cell → cell.parent = none) : t.parent? id = none := by
  unfold LinkedTree.parent?
  cases hcell : t.nodes[id]? with
  | none => rfl
  | some cell => exact h cell hcell

/-- Where a tree stands at every index, children are listed in order and in front of their
parents. -/
theorem childrenOf_stands {t : LinkedTree} {id : Nat}
    (h : ∀ cell, t.nodes[id]? = some cell → ∃ m, Stands t.nodes 0 id m) :
    (∀ c : Nat, c ∈ t.children id → c < id) ∧ (t.children id).Nodup ∧
      ((t.fields id).map Prod.snd).Sublist (t.children id) := by
  unfold LinkedTree.children LinkedTree.fields
  cases hcell : t.nodes[id]? with
  | none => exact ⟨nofun, .nil, .refl _⟩
  | some cell =>
    obtain ⟨⟨info, children⟩, hm⟩ := h cell hcell
    rw [Stands] at hm
    obtain ⟨cell', hcell', -, hfields, hrow⟩ := hm
    obtain rfl : cell' = cell := Option.some.inj (hcell'.symm.trans hcell)
    refine ⟨fun c hc => (hrow.ids_lt c hc).2, hrow.pairwise_lt.imp Nat.ne_of_lt, ?_⟩
    show (cell'.fields.map Prod.snd).Sublist cell'.children
    rw [hfields]
    exact rolesOf_sublist _ _

/-- Where a tree stands at every index and no parent is known, linking gives a tree. -/
theorem Sound.holdsTree (h : Sound nodes) (hroot : Stands nodes 0 root n) {t : LinkedTree}
    (ht : t.root = root) (hlinked : Linked [root] nodes t.nodes) : t.HoldsTree := by
  subst ht
  have hsame := hlinked.same
  have hparent (i : Nat) (cell : Cell) (hcell : nodes[i]? = some cell) : cell.parent = none :=
    (h i cell hcell).1
  -- At every index a tree still stands, now that the parents are noted.
  have hstands (i : Nat) (cell : Cell) (hcell : t.nodes[i]? = some cell) :
      ∃ m, Stands t.nodes 0 i m := by
    obtain ⟨cell', hcell', -⟩ := hsame.symm.exists_cell hcell
    obtain ⟨-, m, hm⟩ := h i cell' hcell'
    exact ⟨m, hm.congr m hsame.agreeBelow⟩
  have hlink {p c : NodeId} (hp : t.Reached p) (hc : c ∈ t.children p) : t.parent? c = some p := by
    obtain ⟨cell, hcell, hc⟩ := mem_children.1 hc
    obtain ⟨cell', hcell', hchildren⟩ := hsame.symm.exists_cell hcell
    exact hlinked.parents t.root List.mem_cons_self p cell' c (hsame.reaches_iff.1 hp) hcell'
      (hchildren ▸ hc)
  constructor
  case reached_lt =>
    intro id hid
    obtain ⟨-, m, hm⟩ := (hroot.congr n hsame.agreeBelow).reaches hid
    exact hm.lt_size
  case child_lt => exact fun id => (childrenOf_stands (hstands id)).1
  case nodup_children => exact fun id => (childrenOf_stands (hstands id)).2.1
  case fields_sublist => exact fun id => (childrenOf_stands (hstands id)).2.2
  case parent_root =>
    refine parent?_eq_none fun cell hcell => hparent t.root cell ?_
    rw [← hcell]
    exact (hlinked.kept t.root fun top htop _ => (List.mem_singleton.1 htop).symm).symm
  case parent =>
    intro c hc hne
    cases hc with
    | self => exact absurd rfl hne
    | @child p c cell hp hcell hc =>
      have hmem : c ∈ t.children p := mem_children.2 ⟨cell, hcell, hc⟩
      have hnodup := (childrenOf_stands (hstands p)).2.1
      refine ⟨p, hp, hlink hp hmem, List.count_eq_one_of_mem hnodup hmem, fun p' hp' hc' => ?_⟩
      exact Option.some.inj ((hlink hp' hc').symm.trans (hlink hp hmem))
  case detached =>
    intro c hc
    refine parent?_eq_none fun cell hcell => hparent c cell ?_
    rw [← hcell]
    refine (hlinked.kept c fun top htop hreach => ?_).symm
    obtain rfl := List.mem_singleton.1 htop
    exact absurd (hsame.reaches hreach) hc
  case descendants =>
    intro id hid
    obtain ⟨m, hm⟩ := hstands id _ (Array.getElem?_eq_getElem hid)
    obtain ⟨all, hall, hlisted⟩ := Stands.listed m hm
    refine ⟨all, ?_, hall, hlisted.nodup, fun i => ?_⟩
    · have hloop := hlisted.loop #[] []
      rw [List.append_nil, Cells.listing.eq_1] at hloop
      rw [LinkedTree.descendants, hloop]
      simp
    · rw [hlisted.mem_iff]
      simp

end Arena

-- ---------------------------------------------------------------------------
-- The trees of sources
-- ---------------------------------------------------------------------------

namespace Production

/-- A node that was finished is the last one in the vector. -/
theorem size_of_construct {rule : Rule} {first i : Nat} {body : Production Arena Unit} {env : Env}
    {s s' : State Arena} (hrun : construct rule first body env s = .ok i s') :
    s'.children.nodes.size = i + 1 := by
  unfold construct at hrun
  split at hrun
  · cases hrun
    exact Array.size_push _
  · cases hrun

end Production

namespace LinkedTree

theorem link_eq_some {source : List Char} {nodes nodes' : Cells} {root : NodeId}
    {diagnostics : List Diagnostic} (h : nodes.link [root] = some nodes') :
    link source nodes root diagnostics =
      some { source, nodes := nodes', root, diagnostics, lines := LineTable.ofText source } := by
  unfold link
  rw [h]
  rfl

/-- Every source has a linked tree, and it is that of the source. -/
theorem ofTokens_holdsTree (source : List Char) (tokens : TokenStream) (limit : Nat) :
    ∃ t, ofTokens source tokens limit = some t ∧ t.HoldsTree ∧
      t.StandsFor (Tree.ofTokens source tokens limit) := by
  let env : Env := { source, tokens, limit }
  let lexical := (tokens.errors.map Diagnostic.ofLexicalError).reverse
  let start : State Arena := { children := {}, diagnostics := lexical }
  let start' : State := { diagnostics := lexical }
  have hrun := Production.NeverFails.sourceFile.run_eq env start
  have hrun' := Production.NeverFails.sourceFile.run_eq env start'
  have hrefined := Production.Mirrors.sourceFile.refines (h := none) env start start' 0
    ⟨rfl, rfl, rfl, rfl, rfl⟩ (Nat.zero_le _) trivial
  rw [hrun, hrun'] at hrefined
  obtain ⟨k, mid, rfl, hgrown, hin⟩ := hrefined
  have hsize := Production.size_of_construct hrun
  have hsound := hgrown.sound Arena.Sound.empty
  obtain ⟨hsound', hroot⟩ :=
    hsound.setSpan hsize (hin.1.of_le _ (Nat.zero_le _)) ⟨0, Text.byteLength source⟩
  obtain ⟨nodes, hlink, hlinked⟩ := Arena.Stands.linked _ hroot []
  rw [Cells.link.eq_1] at hlink
  let root := (Production.NeverFails.sourceFile.result env start).1
  let diagnostics :=
    (Production.NeverFails.sourceFile.result env start).2.diagnostics.reverse.mergeSort
    fun a b => a.span.start ≤ b.span.start
  refine ⟨{ source, nodes, root, diagnostics, lines := LineTable.ofText source }, ?_,
    hsound'.holdsTree hroot rfl hlinked, rfl, hroot.congr _ hlinked.same.agreeBelow, ?_, rfl⟩
  · exact link_eq_some hlink
  · show diagnostics =
      (Production.NeverFails.sourceFile.result env start').2.diagnostics.reverse.mergeSort
        fun a b => a.span.start ≤ b.span.start
    rw [hgrown.agrees.diagnostics]

/-- The word of a clause that breaks off is finished and given up: it stays in the vector. -/
example : let source := "Class C\nInherits".toList
    let tokens := TokenStream.ofText source
    let start : State Arena := { children := {} }
    (Production.NeverFails.sourceFile.result { source, tokens, limit := 8 }
      start).2.children.nodes.size = (Tree.ofTokens source tokens 8).root.size + 1 := by
  decide +kernel

end LinkedTree

end VisualBasic
