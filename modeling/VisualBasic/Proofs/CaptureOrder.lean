import Mathlib.Data.List.Infix
import VisualBasic.Proofs.QueryMatches

/-!
# The order of captures

A query reads a tree from the top: its matches come in the order of the listing of the tree, and the
captures of one match do, too, since child patterns are placed from left to right and their captures
stand behind those of their parent. Put together, the captures of all matches are in that order as
long as matches lie side by side. Where a match lies within another one, its captures all come
behind those of the match around it, also behind those of nodes that stand further to the right.

Main results:

* `Pattern.Embeds.along` — the captures of one match go along the listing of its node.
* `Tree.Complete.rank_lt_of_apart` — matches that are not nested keep their captures apart.
* `captureTexts_inOrder_iff` — captures are in order exactly if no match overtakes one within it.
* `exists_overtaken` — a source in which one does.
-/

namespace VisualBasic

-- ---------------------------------------------------------------------------
-- Going along a list
-- ---------------------------------------------------------------------------

/-- The one list goes along the other: it has some of its elements in their order, each any number
of times. -/
inductive Along {α : Type} : List α → List α → Prop
  | done : Along [] []
  | skip {xs ys : List α} {y : α} (h : Along xs ys) : Along xs (y :: ys)
  | stay {xs ys : List α} {y : α} (h : Along xs (y :: ys)) : Along (y :: xs) (y :: ys)

namespace Along

variable {α : Type} {xs xs' ys ys' : List α}

theorem nil (ys : List α) : Along [] ys := by
  induction ys with
  | nil => exact .done
  | cons y ys ih => exact .skip ih

theorem replicate (n : Nat) {y : α} (h : Along xs ys) :
    Along (List.replicate n y ++ xs) (y :: ys) := by
  induction n with
  | zero => exact .skip h
  | succ n ih =>
    rw [List.replicate_succ, List.cons_append]
    exact .stay ih

theorem append (h : Along xs ys) (h' : Along xs' ys') : Along (xs ++ xs') (ys ++ ys') := by
  induction h with
  | done => exact h'
  | skip _ ih => exact .skip ih
  | stay _ ih => exact .stay ih

theorem sublist_right (h : Along xs ys) (hsub : ys.Sublist ys') : Along xs ys' := by
  induction hsub generalizing xs with
  | slnil => exact h
  | cons _ _ ih => exact .skip (ih h)
  | cons_cons y _ ih =>
    generalize hys : y :: _ = zs at h
    induction h with
    | done => cases hys
    | skip h =>
      cases hys
      exact .skip (ih h)
    | stay _ ih' =>
      cases hys
      exact .stay (ih' rfl)

theorem sublist_left (h : Along xs ys) (hsub : xs'.Sublist xs) : Along xs' ys := by
  induction h generalizing xs' with
  | done =>
    rw [List.sublist_nil.1 hsub]
    exact .done
  | skip _ ih => exact .skip (ih hsub)
  | stay _ ih =>
    cases hsub with
    | cons _ hsub => exact ih hsub
    | cons_cons _ hsub => exact .stay (ih hsub)

theorem mem (h : Along xs ys) : ∀ x ∈ xs, x ∈ ys := by
  induction h with
  | done => simp
  | skip _ ih =>
    intro x hx
    exact List.mem_cons_of_mem _ (ih x hx)
  | stay _ ih =>
    intro x hx
    rcases List.mem_cons.1 hx with rfl | hx
    · exact List.mem_cons_self
    · exact ih x hx

/-- Along a list without repetitions the places do not decrease. -/
theorem pairwise [BEq α] [LawfulBEq α] (h : Along xs ys) (hnodup : ys.Nodup) :
    xs.Pairwise fun a b => ys.idxOf a ≤ ys.idxOf b := by
  induction h with
  | done => exact .nil
  | @skip xs ys y h ih =>
    obtain ⟨hy, hys⟩ := List.nodup_cons.1 hnodup
    have hne (x : α) (hx : x ∈ xs) : y ≠ x := by
      rintro rfl
      exact hy (h.mem y hx)
    refine (ih hys).imp_of_mem fun {a b} ha hb hle => ?_
    rw [List.idxOf_cons_ne _ (hne a ha), List.idxOf_cons_ne _ (hne b hb)]
    omega
  | stay _ ih =>
    refine .cons (fun b _ => ?_) (ih hnodup)
    rw [List.idxOf_cons_self]
    exact Nat.zero_le _

end Along

-- ---------------------------------------------------------------------------
-- Places in the listing
-- ---------------------------------------------------------------------------

namespace Tree

/-- The place of a node in the listing of the tree, in which parents come before their children. -/
def rank (t : Tree) (n : Nat) : Nat := (t.descendants t.rootNumber).idxOf n

/-- The nodes come in the order of the listing. A node may come several times. -/
def InOrder (t : Tree) (nodes : List Nat) : Prop := nodes.Pairwise fun a b => t.rank a ≤ t.rank b

instance (t : Tree) (nodes : List Nat) : Decidable (t.InOrder nodes) :=
  inferInstanceAs (Decidable (List.Pairwise _ _))

namespace Complete

variable {t : Tree} {n n' a b : Nat}

theorem lt_size_of_mem (h : t.Complete) (hn : n ∈ t.descendants t.rootNumber) : n < t.table.size :=
  List.mem_range.1 (h.perm_descendants.mem_iff.1 hn)

/-- The nodes below a node stand side by side in the listing. -/
theorem infix_descendants (h : t.Complete) (hn : n < t.table.size) :
    t.descendants n <:+: t.descendants t.rootNumber := by
  -- Parents have greater numbers, so the induction goes up to the root.
  induction hroom : t.table.size - n using Nat.strongRecOn generalizing n with
  | _ room ih =>
    obtain ⟨-, -, -, -, -, ⟨rfl, -⟩ | ⟨p, -, hchild⟩⟩ := h.exists_stored hn
    · exact List.infix_rfl
    · have hlt := (h.of_mem_children hchild).1
      have hp := lt_size_of_mem_children hchild
      have hbelow : t.descendants n <:+: t.descendants p := by
        rw [h.descendants_eq hp]
        exact (List.infix_flatMap_of_mem hchild _).trans (List.suffix_cons _ _).isInfix
      exact hbelow.trans (ih (t.table.size - p) (by omega) hp rfl)

/-- The places of the nodes below a node begin with its own and have no gaps. -/
theorem rank_of_mem_descendants (h : t.Complete) (hn : n < t.table.size)
    (ha : a ∈ t.descendants t.rootNumber) : a ∈ t.descendants n ↔
      t.rank n ≤ t.rank a ∧ t.rank a < t.rank n + (t.descendants n).length := by
  obtain ⟨front, back, hlisting⟩ := h.infix_descendants hn
  have hnodup := h.nodup_descendants h.rootNumber_lt
  have hself : n ∈ t.descendants n := by
    rw [h.descendants_eq hn]
    exact List.mem_cons_self
  have hfirst : (t.descendants n).idxOf n = 0 := by
    rw [h.descendants_eq hn]
    exact List.idxOf_cons_self
  unfold rank
  rw [← hlisting] at ha hnodup ⊢
  rw [List.append_assoc] at ha hnodup ⊢
  have hfront (x : Nat) (hx : x ∈ t.descendants n ++ back) : x ∉ front := fun hx' =>
    (List.nodup_append.1 hnodup).2.2 x hx' x hx rfl
  rw [List.idxOf_append_of_notMem (hfront n (List.mem_append_left _ hself)),
    List.idxOf_append_of_mem hself, hfirst]
  by_cases hin : a ∈ t.descendants n
  · have hlt := List.idxOf_lt_length_of_mem hin
    rw [List.idxOf_append_of_notMem (hfront a (List.mem_append_left _ hin)),
      List.idxOf_append_of_mem hin]
    simp only [hin, true_iff]
    omega
  · simp only [hin, false_iff]
    rcases List.mem_append.1 ha with ha | ha
    · have hlt := List.idxOf_lt_length_of_mem ha
      rw [List.idxOf_append_of_mem ha]
      omega
    · rw [List.idxOf_append_of_notMem (hfront a ha), List.idxOf_append_of_notMem hin]
      omega

theorem mem_listing (h : t.Complete) (hn : n < t.table.size) (ha : a ∈ t.descendants n) :
    a ∈ t.descendants t.rootNumber :=
  (h.infix_descendants hn).subset ha

/-- What is below a node comes before what is below a node that comes later and is not below it. -/
theorem rank_lt_of_apart (h : t.Complete) (hn : n < t.table.size) (hn' : n' < t.table.size)
    (hle : t.rank n ≤ t.rank n') (hapart : n' ∉ t.descendants n) (ha : a ∈ t.descendants n)
    (hb : b ∈ t.descendants n') : t.rank a < t.rank b := by
  have hin' : n' ∈ t.descendants t.rootNumber :=
    h.perm_descendants.mem_iff.2 (List.mem_range.2 hn')
  have hbehind := (h.rank_of_mem_descendants hn hin').not.1 hapart
  have hwithin := (h.rank_of_mem_descendants hn (h.mem_listing hn ha)).1 ha
  have hbelow := (h.rank_of_mem_descendants hn' (h.mem_listing hn' hb)).1 hb
  omega

/-- What goes along the listing of a node is in order. -/
theorem inOrder_of_along (h : t.Complete) (hn : n < t.table.size) {nodes : List Nat}
    (halong : Along nodes (t.descendants n)) : t.InOrder nodes :=
  (halong.sublist_right (h.infix_descendants hn).sublist).pairwise
    (h.nodup_descendants h.rootNumber_lt)

end Complete

end Tree

-- ---------------------------------------------------------------------------
-- The captures of a match
-- ---------------------------------------------------------------------------

namespace Pattern

variable {t : Tree}

theorem Embeds.lt_size {p : Pattern} {node : Nat} {e : Placement} (h : p.Embeds t node e) :
    node < t.table.size := by
  cases p
  rw [Embeds] at h
  obtain ⟨⟨n, hn, -⟩, -⟩ := h
  rw [Tree.node?, Option.map_eq_some_iff] at hn
  obtain ⟨entry, hentry, -⟩ := hn
  exact (Array.getElem?_eq_some_iff.1 hentry).1

mutual

/-- The captures of an embedding go along the listing of its node. -/
theorem Embeds.along (ht : t.Complete) : (p : Pattern) → {node : Nat} → {e : Placement} →
    p.Embeds t node e → Along ((p.capturesAt t node e).map Capture.node) (t.descendants node)
  | mk field kind captures children, node, e, h => by
    have hnode := h.lt_size
    rw [Embeds] at h
    have hbelow := EmbedsFrom.along ht children h.2
    rw [List.drop_zero] at hbelow
    rw [capturesAt, ht.descendants_eq hnode, List.map_append, List.map_map]
    have hself : captures.map (Capture.node ∘ (⟨·, node⟩)) = List.replicate captures.length node :=
      List.map_const' ..
    rw [hself]
    exact hbelow.replicate captures.length

/-- Child patterns are placed from left to right, and so are their captures. -/
theorem EmbedsFrom.along (ht : t.Complete) : (ps : List Pattern) → {nodes : List Nat} →
    {start : Nat} → {positions : List Nat} → {lower : List Placement} →
    EmbedsFrom t nodes ps start positions lower →
      Along ((capturesOf t nodes ps positions lower).map Capture.node)
        ((nodes.drop start).flatMap t.descendants)
  | [], nodes, start, positions, lower, h => by
    rw [EmbedsFrom] at h
    rw [h.1, h.2]
    exact .nil _
  | p :: ps, nodes, start, positions, lower, h => by
    rw [EmbedsFrom] at h
    obtain ⟨i, is, e, es, node, rfl, rfl, hle, hnode, -, he, hes⟩ := h
    have hfirst := Embeds.along ht p he
    have hothers := EmbedsFrom.along ht ps hes
    obtain ⟨hlt, rfl⟩ := List.getElem?_eq_some_iff.1 hnode
    have hbehind : nodes.drop i <:+ nodes.drop start := List.drop_suffix_drop_left nodes hle
    have hall := hfirst.append hothers
    rw [← List.flatMap_cons, ← List.drop_eq_getElem_cons hlt] at hall
    rw [capturesOf, hnode, List.map_append]
    exact hall.sublist_right (hbehind.flatMap t.descendants).sublist

end

end Pattern

-- ---------------------------------------------------------------------------
-- The captures of a query
-- ---------------------------------------------------------------------------

namespace Query

/-- The nodes that a query finds for a capture, in the order in which it finds them. -/
def nodesIn (q : Query) (t : Tree) (number : Nat) : List Nat :=
  ((q.capturesIn t).filter (·.number == number)).map Capture.node

variable {q : Query} {t : Tree}

theorem nodesIn_eq (q : Query) (t : Tree) (number : Nat) :
    q.nodesIn t number = (q.matchesIn t).flatMap (·.nodes number) := by
  unfold nodesIn capturesIn Match.nodes
  rw [List.filter_flatMap, List.map_flatMap]

/-- The captures of a match go along the listing of its node. -/
theorem along_of_mem_matchesIn (ht : t.Complete) {m : Match} (hm : m ∈ q.matchesIn t)
    (number : Nat) :
    Along (m.nodes number) (t.descendants m.node) := by
  obtain ⟨-, p, -, hfound⟩ := mem_matchesIn.1 hm
  obtain ⟨e, he, hcaptures⟩ := Pattern.matchAt?_eq_some_iff.1 hfound
  have halong := Pattern.Embeds.along ht p he.1
  rw [← hcaptures] at halong
  exact halong.sublist_left (List.filter_sublist.map Capture.node)

/-- Matches come in the order of their nodes. -/
theorem inOrder_matchesIn (ht : t.Complete) : t.InOrder ((q.matchesIn t).map Match.node) := by
  have halong (nodes : List Nat) :
      Along ((nodes.flatMap (q.matchesAt t)).map Match.node) nodes := by
    induction nodes with
    | nil => exact .done
    | cons n nodes ih =>
      have hself :
          (q.matchesAt t n).map Match.node = List.replicate (q.matchesAt t n).length n := by
        refine List.eq_replicate_iff.2 ⟨List.length_map _, fun x hx => ?_⟩
        obtain ⟨m, hm, rfl⟩ := List.mem_map.1 hx
        obtain ⟨p, -, hp⟩ := List.mem_filterMap.1 hm
        obtain ⟨found, -, rfl⟩ := Option.map_eq_some_iff.1 hp
        rfl
      rw [List.flatMap_cons, List.map_append, hself]
      exact ih.replicate _
  exact ht.inOrder_of_along ht.rootNumber_lt (halong _)

end Query

/-- The one match has a node for the capture that comes later than one of a match that lies within
it. -/
def Match.Overtakes (t : Tree) (number : Nat) (m m' : Match) : Prop :=
  m'.node ∈ t.descendants m.node ∧ ∃ a ∈ m.nodes number, ∃ b ∈ m'.nodes number, t.rank b < t.rank a

/-- What a query finds for a capture is in order exactly if none of its matches overtakes a later
one. -/
theorem Query.inOrder_nodesIn_iff {q : Query} {t : Tree} (ht : t.Complete) (number : Nat) :
    t.InOrder (q.nodesIn t number) ↔
      (q.matchesIn t).Pairwise fun m m' => ¬m.Overtakes t number m' := by
  have hsize {m : Match} (hm : m ∈ q.matchesIn t) : m.node < t.table.size :=
    ht.lt_size_of_mem (mem_matchesIn.1 hm).1
  have hsingle : ∀ m ∈ q.matchesIn t, t.InOrder (m.nodes number) := by
    intro m hm
    exact ht.inOrder_of_along (hsize hm) (along_of_mem_matchesIn ht hm number)
  have hmatches := List.pairwise_map.1 (inOrder_matchesIn (q := q) ht)
  rw [nodesIn_eq, Tree.InOrder, List.pairwise_flatMap]
  constructor
  · rintro ⟨-, h⟩
    refine h.imp fun {m m'} hle => ?_
    rintro ⟨-, a, ha, b, hb, hlt⟩
    exact Nat.not_lt_of_le (hle a ha b hb) hlt
  · intro h
    refine ⟨hsingle, (hmatches.and h).imp_of_mem fun {m m'} hm hm' hboth a ha b hb => ?_⟩
    have ha' := (along_of_mem_matchesIn ht hm number).mem a ha
    have hb' := (along_of_mem_matchesIn ht hm' number).mem b hb
    by_cases hin : m'.node ∈ t.descendants m.node
    · refine Nat.le_of_not_lt fun hlt => hboth.2 ⟨hin, a, ha, b, hb, hlt⟩
    · exact Nat.le_of_lt (ht.rank_lt_of_apart (hsize hm) (hsize hm') hboth.1 hin ha' hb')

/-- The texts of a capture are those of its nodes, which are nodes of the tree, and they are in the
order of the tree exactly if no match overtakes one that comes later and lies within it. -/
theorem captureTexts_inOrder_iff (source : List Char) (root : Node) (diagnostics : List Diagnostic)
    {query : List Char} {name : String} {q : Query} {number : Nat} (hq : Query.ofText query = .ok q)
    (hnumber : q.captureNumber? name = some number) :
    let t := Tree.make source root diagnostics
    t.captureTexts query name =
        .ok ((q.nodesIn t number).map fun n => ((t.node? n).map t.text).getD []) ∧
      (∀ n ∈ q.nodesIn t number, n ∈ t.descendants t.rootNumber) ∧
      (t.InOrder (q.nodesIn t number) ↔
        (q.matchesIn t).Pairwise fun m m' => ¬m.Overtakes t number m') := by
  intro t
  have ht : t.Complete := Tree.complete_make source root diagnostics
  refine ⟨?_, ?_, Query.inOrder_nodesIn_iff ht number⟩
  · show (Query.ofText query >>= fun q => _) = _
    rw [hq]
    simp only [bind, Except.bind, hnumber, Query.nodesIn, List.map_map]
    rfl
  · intro n hn
    rw [Query.nodesIn_eq, List.mem_flatMap] at hn
    obtain ⟨m, hm, hn⟩ := hn
    have hlisted := (Query.mem_matchesIn.1 hm).1
    have hbelow := (Query.along_of_mem_matchesIn ht hm number).mem n hn
    exact ht.mem_listing (ht.lt_size_of_mem hlisted) hbelow

/-- A sum of three, in which one sum is the left operand of the other. -/
def sumOfThree : List Char := "Class C\nConst k = a + b + c\nEnd Class\n".toList

/-- The right operands of operations. -/
def rightOperands : List Char := "(binary_expression right: (expression) @r)".toList

theorem captureTexts_inOrder_sumOfThree :
    ∃ q, Query.ofText rightOperands = .ok q ∧ q.captureNumber? "r" = some 0 ∧
      let t := Tree.parse sumOfThree
      t.captureTexts rightOperands "r" =
          .ok ((q.nodesIn t 0).map fun n => ((t.node? n).map t.text).getD []) ∧
        (∀ n ∈ q.nodesIn t 0, n ∈ t.descendants t.rootNumber) ∧
        (t.InOrder (q.nodesIn t 0) ↔ (q.matchesIn t).Pairwise fun m m' => ¬m.Overtakes t 0 m') :=
  ⟨⟨[.mk none (.rule .binaryExpression) [] [.mk (some .right) (.rule .expression) [0] []]], ["r"]⟩,
    rfl, rfl, captureTexts_inOrder_iff sumOfThree _ _ rfl rfl⟩

/-- The outer sum gives its right operand before the inner sum, which is to the left of it, gives
its. -/
theorem exists_overtaken : ∃ q, Query.ofText rightOperands = .ok q ∧ q.captureNumber? "r" = some 0 ∧
    (Tree.parse sumOfThree).captureTexts rightOperands "r" = .ok [['c'], ['b']] ∧
    ¬(Tree.parse sumOfThree).InOrder (q.nodesIn (Tree.parse sumOfThree) 0) := by
  refine ⟨⟨[.mk none (.rule .binaryExpression) [] [.mk (some .right) (.rule .expression) [0] []]],
    ["r"]⟩, rfl, rfl, ?_, ?_⟩ <;> decide +kernel

end VisualBasic
