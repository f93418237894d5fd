import VisualBasic.Proofs.Standing
import VisualBasic.Proofs.Mirrors

/-!
# Nodes in a vector stand for values

A production that builds in a vector does what it does with nodes as values. From two states that
agree, the two runs both succeed or both fail, in states that agree; the vector has only grown, and
what was attached to the node under construction holds the trees that were attached as values. The
vector may hold anything before, and what was given up may be left in it anywhere: that is why the
trees are said to stand in a range of the vector rather than to fill it.

Main results:

* `Arena.Grown.trans` — one run behind another.
* `Production.Mirrors.refines` — the refinement, for whatever is put together alike.
-/

namespace VisualBasic

namespace Arena

/-- The node in hand stands in the vector, from `lo` on, and has no role yet. -/
def InHand (nodes : Cells) (lo : Nat) : Hand NodeId → Prop
  | none => True
  | some (i, n) => Stands nodes lo i n ∧ n.field = none

/-- What two runs have done that began in `s` and `t` and have come to `s'` and `t'`: the vector has
grown, and what was attached since stands in it from `lo` on and in front of `mid`. -/
structure Grown (lo mid : Nat) (s : State Arena) (t : State) (s' : State Arena) (t' : State) :
    Prop where
  agrees : s'.Agrees t'
  nodes : ∃ more, s'.children.nodes = s.children.nodes ++ more
  built : ∃ ids roles ns, s'.children.ids = ids ++ s.children.ids ∧
    s'.children.roles = roles ++ s.children.roles ∧ t'.children = ns ++ t.children ∧
    Gathers s'.children.nodes lo mid ids roles ns
  mid_le : mid ≤ s'.children.nodes.size
  sound : Sound s.children.nodes → Sound s'.children.nodes

variable {lo mid hi : Nat} {s s₁ s' : State Arena} {t t₁ t' : State} {h : Hand NodeId}

namespace Grown

theorem size_le (hg : Grown lo mid s t s' t') : s.children.nodes.size ≤ s'.children.nodes.size := by
  obtain ⟨more, hmore⟩ := hg.nodes
  rw [hmore, Array.size_append]
  exact Nat.le_add_right _ _

theorem le (hg : Grown lo mid s t s' t') : lo ≤ mid := by
  obtain ⟨ids, roles, ns, -, -, -, hgathers⟩ := hg.built
  exact hgathers.row.le

/-- Nothing was attached, and nothing was finished. -/
theorem same (hagrees : s'.Agrees t') (hs : s'.children = s.children)
    (ht : t'.children = t.children)
    (hlo : lo ≤ s.children.nodes.size) : Grown lo lo s t s' t' := by
  refine ⟨hagrees, ⟨#[], ?_⟩, ⟨[], [], [], ?_, ?_, ht, .nil (Nat.le_refl _)⟩, ?_, ?_⟩
  · rw [hs, Array.append_empty]
  · rw [hs, List.nil_append]
  · rw [hs, List.nil_append]
  · rwa [hs]
  · rw [hs]
    exact id

theorem trans (hg : Grown lo mid s t s₁ t₁) (hg' : Grown mid hi s₁ t₁ s' t') :
    Grown lo hi s t s' t' := by
  obtain ⟨more, hmore⟩ := hg.nodes
  obtain ⟨more', hmore'⟩ := hg'.nodes
  obtain ⟨ids, roles, ns, hids, hroles, hns, hgathers⟩ := hg.built
  obtain ⟨ids', roles', ns', hids', hroles', hns', hgathers'⟩ := hg'.built
  refine ⟨hg'.agrees, ⟨more ++ more', ?_⟩, ⟨ids' ++ ids, roles' ++ roles, ns' ++ ns,
    ?_, ?_, ?_, ?_⟩,
    hg'.mid_le, fun hsound => hg'.sound (hg.sound hsound)⟩
  · rw [hmore', hmore, Array.append_assoc]
  · rw [hids', hids, List.append_assoc]
  · rw [hroles', hroles, List.append_assoc]
  · rw [hns', hns, List.append_assoc]
  · rw [hmore'] at hgathers' ⊢
    exact (hgathers.append_nodes hg.mid_le more').append hgathers'

/-- Of a node under construction that is given up nothing is left but what was finished. -/
theorem dropped {s₀ : State Arena} {t₀ : State} (hg : Grown lo mid s₀ t₀ s₁ t₁)
    (hs₀ : s₀.children.nodes = s.children.nodes) (hlo : lo ≤ s.children.nodes.size)
    (hst : s'.Agrees t') (hs' : s'.children = { s.children with nodes := s₁.children.nodes })
    (ht' : t'.children = t.children) : Grown lo lo s t s' t' := by
  have hnodes := hg.nodes
  have hsize := hg.size_le
  have hsound := hg.sound
  rw [hs₀] at hnodes hsize hsound
  refine ⟨hst, ?_, ⟨[], [], [], ?_, ?_, ht', .nil (Nat.le_refl _)⟩, ?_, ?_⟩
  · rwa [hs']
  · rw [hs', List.nil_append]
  · rw [hs', List.nil_append]
  · rw [hs']
    exact Nat.le_trans hlo hsize
  · rwa [hs']

end Grown

end Arena

namespace Production

open Arena

variable {α β α' β' : Type}

/-- What two runs have come to: both succeed with what is related, or both fail for the same
reason. -/
def Refined (r : α → β → Hand NodeId → Prop) (lo : Nat) (s : State Arena) (t : State) :
    EStateM.Result Failure (State Arena) α → EStateM.Result Failure State β → Prop
  | .ok a s', .ok b t' =>
    ∃ k mid, r a b k ∧ Grown lo mid s t s' t' ∧ InHand s'.children.nodes mid k
  | .error f s', .error g t' => g = f ∧ ∃ mid, Grown lo mid s t s' t'
  | _, _ => False

/-- Wherever the two begin in states that agree, with the node in hand standing in the vector, they
come to the same. -/
def Refines (h : Hand NodeId) (r : α → β → Hand NodeId → Prop) (p : Production Arena α)
    (q : Parse β) :
    Prop :=
  ∀ env s t lo, s.Agrees t → lo ≤ s.children.nodes.size → InHand s.children.nodes lo h →
    Refined r lo s t (p env s) (q env t)

variable {lo mid : Nat} {s s₁ s' : State Arena} {t t₁ t' : State} {h k : Hand NodeId}
  {r : α → β → Hand NodeId → Prop} {r' : α' → β' → Hand NodeId → Prop}

/-- Both have succeeded, or both have failed. -/
theorem Refined.ok_or_error {x : EStateM.Result Failure (State Arena) α}
    {y : EStateM.Result Failure State β} (hxy : Refined r lo s t x y) :
    (∃ a s₁ b t₁ k mid, x = .ok a s₁ ∧ y = .ok b t₁ ∧ r a b k ∧ Grown lo mid s t s₁ t₁ ∧
      InHand s₁.children.nodes mid k) ∨
    ∃ f s₁ t₁ mid, x = .error f s₁ ∧ y = .error f t₁ ∧ Grown lo mid s t s₁ t₁ := by
  cases x with
  | ok a s₁ =>
    cases y with
    | ok b t₁ =>
      obtain ⟨k, mid, hr, hg, hk⟩ := hxy
      exact .inl ⟨a, s₁, b, t₁, k, mid, rfl, rfl, hr, hg, hk⟩
    | error g t₁ => exact hxy.elim
  | error f s₁ =>
    cases y with
    | ok b t₁ => exact hxy.elim
    | error g t₁ =>
      obtain ⟨rfl, mid, hg⟩ := hxy
      exact .inr ⟨g, s₁, t₁, mid, rfl, rfl, hg⟩

/-- What comes of two runs behind two others. -/
theorem Refined.behind (hg : Grown lo mid s t s₁ t₁)
    {x : EStateM.Result Failure (State Arena) α} {y : EStateM.Result Failure State β}
    (hxy : Refined r mid s₁ t₁ x y) : Refined r lo s t x y := by
  obtain ⟨a, s', b, t', k, hi, rfl, rfl, hr, hg', hk⟩ | ⟨f, s', t', hi, rfl, rfl, hg'⟩ :=
    hxy.ok_or_error
  · exact ⟨k, hi, hr, hg.trans hg', hk⟩
  · exact ⟨rfl, hi, hg.trans hg'⟩

namespace Refines

theorem bind {p : Production Arena α} {q : Parse β} {f : α → Production Arena α'} {g : β → Parse β'}
    (hp : Refines h r p q) (hf : ∀ a b k, r a b k → Refines k r' (f a) (g b)) :
    Refines h r' (p >>= f) (q >>= g) := by
  intro env s t lo hst hlo hh
  rw [run_bind, run_bind]
  obtain ⟨a, s₁, b, t₁, k, mid, hrun, hrun', hr, hg, hk⟩ | ⟨e, s₁, t₁, mid, hrun, hrun', hg⟩ :=
    (hp env s t lo hst hlo hh).ok_or_error
  · rw [hrun, hrun']
    exact .behind hg (hf a b k hr env s₁ t₁ mid hg.agrees hg.mid_le hk)
  · rw [hrun, hrun']
    exact ⟨rfl, mid, hg⟩

/-- What only reads or changes what is not built. -/
theorem change {p : Production Arena α} {q : Parse α} {seen : Env → State Arena → α}
    {seen' : Env → State → α} {f : Env → State Arena → State Arena} {g : Env → State → State}
    (hp : ∀ env s, p env s = .ok (seen env s) (f env s))
    (hq : ∀ env t, q env t = .ok (seen' env t) (g env t))
    (hseen : ∀ env s t, s.Agrees t → seen' env t = seen env s)
    (hagrees : ∀ env s t, s.Agrees t → (f env s).Agrees (g env t))
    (hkept : ∀ env s, (f env s).children = s.children)
    (hkept' : ∀ env t, (g env t).children = t.children) :
    Refines h (Plain h) p q := by
  intro env s t lo hst hlo hh
  rw [hp, hq]
  refine ⟨h, lo, ⟨hseen env s t hst, rfl⟩, ?_, ?_⟩
  · exact .same (hagrees env s t hst) (hkept env s) (hkept' env t) hlo
  · rw [hkept]
    exact hh

/-- What does not apply leaves the states as they are. -/
theorem refuse {p : Production Arena α} {q : Parse β} {f : Env → State Arena → Failure}
    {g : Env → State → Failure} (hp : ∀ env s, p env s = .error (f env s) s)
    (hq : ∀ env t, q env t = .error (g env t) t) (hf : ∀ env s t, s.Agrees t → g env t = f env s) :
    Refines h r p q := by
  intro env s t lo hst hlo _
  rw [hp, hq]
  exact ⟨hf env s t hst, lo, .same hst rfl rfl hlo⟩

/-- What stands for a node in hand tells of it what the node does. -/
theorem info_of_stands {nodes : Cells} {i : Nat} {n : Node} (hi : Stands nodes lo i n) :
    nodes[i]!.kind = n.kind ∧ nodes[i]!.firstToken = n.info.firstToken := by
  obtain ⟨info, children⟩ := n
  rw [Stands] at hi
  obtain ⟨cell, hcell, hshows, -, -⟩ := hi
  rw [getElem!_def, hcell]
  exact ⟨hshows.kind, hshows.firstToken⟩

theorem isRule {i : Nat} {n : Node} (rules : List Rule) :
    Refines (some (i, n)) (Plain (some (i, n))) (Production.isRule i rules)
    (Production.isRule n rules) := by
  intro env s t lo hst hlo hh
  have hkind := (info_of_stands hh.1).1
  refine ⟨some (i, n), lo, ⟨?_, rfl⟩, .same hst rfl rfl hlo, hh⟩
  show (rules.any fun rule => n.kind == .rule rule) =
    rules.any fun rule => s.children.nodes[i]!.kind == .rule rule
  rw [hkind]

theorem checkDepth : Refines h (Plain h) Production.checkDepth Production.checkDepth := by
  intro env s t lo hst hlo hh
  unfold Production.checkDepth
  split
  · refine ⟨?_, lo, .same hst rfl rfl hlo⟩
    rw [hst.cursor]
  · exact ⟨h, lo, ⟨rfl, rfl⟩, .same hst rfl rfl hlo, hh⟩

/-- A cell behind all others, for a node that is given. -/
theorem given {nodes : Cells} {cell : Cell} {n : Node} (hst : s'.Agrees t')
    (hnodes : ∃ more, nodes = s.children.nodes ++ more)
    (hsound : Sound s.children.nodes → Sound nodes)
    (hparent : cell.parent = none) (hs : s'.children = { s.children with nodes := nodes.push cell })
    (ht : t'.children = t.children) (hn : Stands (nodes.push cell) lo nodes.size n)
    (hfield : n.field = none) (hlo : lo ≤ s.children.nodes.size) :
    Refined Given lo s t (.ok nodes.size s') (.ok n t') := by
  obtain ⟨more, rfl⟩ := hnodes
  have hmore : s'.children.nodes = s.children.nodes ++ more.push cell := by
    rw [hs, Array.append_push]
  have hsize : lo ≤ s'.children.nodes.size := by
    rw [hmore, Array.size_append]
    exact Nat.le_add_right_of_le hlo
  have hids : s'.children.ids = s.children.ids := by rw [hs]
  have hroles : s'.children.roles = s.children.roles := by rw [hs]
  refine ⟨_, lo, rfl,
    ⟨hst, ⟨_, hmore⟩, ⟨[], [], [], hids, hroles, ht, .nil (Nat.le_refl _)⟩, hsize, ?_⟩,
    ?_⟩
  · rw [hs]
    exact fun h => (hsound h).push hparent hn
  · rw [hs]
    exact ⟨hn, hfield⟩

theorem leaf (kind : NodeKind) :
    Refines none Given (Production.leaf kind) (Production.leaf kind) := by
  intro env s t lo hst hlo _
  have hcell : Stands (s.children.nodes.push
      { kind, span := (env.tokens.get s.cursor).span, firstToken := s.cursor,
        token := some s.cursor })
      lo s.children.nodes.size (.leaf kind (env.tokens.get t.cursor).span t.cursor) := by
    rw [hst.cursor]
    exact (stands_push ⟨rfl, rfl, rfl, rfl, rfl⟩ rfl rfl).of_le _ hlo
  refine given ⟨?_, hst.isPartial, hst.diagnostics, hst.blocks, hst.singleLineIfs⟩
    ⟨#[], Array.append_empty.symm⟩ id rfl rfl rfl hcell rfl hlo
  show env.next t.cursor = env.next s.cursor
  rw [hst.cursor]

/-- The node in hand is attached. -/
theorem attached {i : Nat} {n : Node} {roles : List (Field × NodeId)}
    (hn : Stands s.children.nodes lo i n) (hroles : roles = (n.field.map (·, i)).toList)
    (hst : s.Agrees t) :
    Grown lo (i + 1) s t
      { s with children :=
        { s.children with ids := i :: s.children.ids, roles := roles ++ s.children.roles } }
      { t with children := n :: t.children } := by
  refine ⟨⟨hst.cursor, hst.isPartial, hst.diagnostics, hst.blocks, hst.singleLineIfs⟩, ⟨#[], ?_⟩,
    ⟨[i], roles, [n], rfl, rfl, rfl, ?_⟩, hn.lt_size, id⟩
  · exact Array.append_empty.symm
  · rw [hroles]
    exact .single hn

theorem attach {i : Nat} {n : Node} :
    Refines (some (i, n)) (Plain none) (Production.attach i) (Production.attach n) := by
  intro env s t lo hst _ hh
  have hroles : [] = (n.field.map (·, i)).toList := by
    rw [hh.2]
    rfl
  exact ⟨none, i + 1, ⟨rfl, rfl⟩, attached hh.1 hroles hst, trivial⟩

theorem attachIn {i : Nat} {n : Node} (f : Field) :
    Refines (some (i, n)) (Plain none) (Production.attachIn f i) (Production.attachIn f n) := by
  intro env s t lo hst _ hh
  have hroles : [(f, i)] = ((n.inField f).field.map (·, i)).toList := by
    cases n
    rfl
  exact ⟨none, i + 1, ⟨rfl, rfl⟩, attached (hh.1.inField f) hroles hst, trivial⟩

/-- A node is finished, or given up. -/
theorem construct {r : Rule} {first : Nat} {body : Production Arena Unit} {body' : Parse Unit}
    (hbody : Refines h (Plain none) body body') (hst : s.Agrees t)
    (hlo : lo ≤ s.children.nodes.size)
    (hh : InHand s.children.nodes lo h) (env : Env) :
    Refined Given lo s t (Production.construct r first body env s)
      (Production.construct r first body' env t) := by
  have hbegin : State.Agrees { s with children := Builder.start s.children, isPartial := false }
      { t with children := [], isPartial := false } :=
    ⟨hst.cursor, rfl, hst.diagnostics, hst.blocks, hst.singleLineIfs⟩
  rw [Parse.construct_eq, Production.construct]
  obtain ⟨_, s₁, _, t₁, k, mid, hrun, hrun', -, hg, -⟩ | ⟨f, s₁, t₁, mid, hrun, hrun', hg⟩ :=
    (hbody env _ _ lo hbegin hlo hh).ok_or_error
  · obtain ⟨ids, roles, ns, hids, hroles, hns, hgathers⟩ := hg.built
    have hids₁ : s₁.children.ids = ids := hids.trans (List.append_nil ids)
    have hroles₁ : s₁.children.roles = roles := hroles.trans (List.append_nil roles)
    have hns₁ : t₁.children = ns := hns.trans (List.append_nil ns)
    rw [← hids₁, ← hroles₁, ← hns₁] at hgathers
    rw [hrun, hrun']
    dsimp only
    rw [hg.agrees.cursor, hg.agrees.isPartial]
    exact given ⟨rfl, hst.isPartial, hg.agrees.diagnostics, hg.agrees.blocks,
      hg.agrees.singleLineIfs⟩ hg.nodes hg.sound rfl rfl rfl
        (hgathers.finish hg.mid_le _ _ _ _) rfl hlo
  · have hafter : State.Agrees
        { s₁ with children := Builder.drop s₁.children s.children, isPartial := s.isPartial }
        { t₁ with children := t.children, isPartial := t.isPartial } :=
      ⟨hg.agrees.cursor, hst.isPartial, hg.agrees.diagnostics, hg.agrees.blocks,
        hg.agrees.singleLineIfs⟩
    rw [hrun, hrun']
    exact ⟨rfl, lo, hg.dropped rfl hlo hafter rfl rfl⟩

theorem node (r : Rule) {body : Production Arena Unit} {body' : Parse Unit}
    (hbody : Refines none (Plain none) body body') :
    Refines none Given (Production.node r body) (Production.node r body') := by
  intro env s t lo hst hlo hh
  unfold Production.node
  rw [hst.cursor]
  exact construct hbody hst hlo hh env

theorem nodeFrom {i : Nat} {n : Node} (r : Rule) {body : Production Arena Unit} {body' : Parse Unit}
    (hbody : Refines (some (i, n)) (Plain none) body body') :
    Refines (some (i, n)) Given (Production.nodeFrom i r body) (Production.nodeFrom n r body') := by
  intro env s t lo hst hlo hh
  have hfirst : Builder.firstToken s.children i = n.info.firstToken := (info_of_stands hh.1).2
  rw [Parse.nodeFrom_eq]
  unfold Production.nodeFrom
  rw [hfirst]
  exact construct hbody hst hlo hh env

theorem iterateUpTo {step : α → Production Arena (Option α)} {step' : β → Parse (Option β)}
    (hstep : ∀ x y k, r x y k → Refines k (Perhaps r k) (step x) (step' y)) (n : Nat)
    {x : α} {y : β}
    (hr : r x y h) : Refines h r (Production.iterateUpTo step n x)
    (Production.iterateUpTo step' n y) := by
  induction n generalizing h x y with
  | zero =>
    intro env s t lo hst hlo hh
    exact ⟨h, lo, hr, .same hst rfl rfl hlo, hh⟩
  | succ n ih =>
    intro env s t lo hst hlo hh
    rw [Production.iterateUpTo, Production.iterateUpTo]
    obtain ⟨z, s₁, z', t₁, k, mid, hrun, hrun', hz, hg, hk⟩ | ⟨f, s₁, t₁, mid, hrun, hrun', hg⟩ :=
      (hstep x y h hr env s t lo hst hlo hh).ok_or_error
    · rw [hrun, hrun']
      cases z with
      | none =>
        cases z' with
        | none =>
          obtain rfl : k = h := hz
          exact ⟨k, mid, hr, hg, hk⟩
        | some y₁ => exact hz.elim
      | some x₁ =>
        cases z' with
        | none => exact hz.elim
        | some y₁ => exact .behind hg (ih hz env s₁ t₁ mid hg.agrees hg.mid_le hk)
    · rw [hrun, hrun']
      exact ⟨rfl, mid, hg⟩

theorem iterate {step : α → Production Arena (Option α)} {step' : β → Parse (Option β)}
    (hstep : ∀ x y k, r x y k → Refines k (Perhaps r k) (step x) (step' y)) {x : α} {y : β}
    (hr : r x y h) :
    Refines h r (Production.iterate step x) (Production.iterate step' y) := by
  intro env s t lo hst hlo hh
  unfold Production.iterate
  rw [hst.cursor]
  exact iterateUpTo hstep _ hr env s t lo hst hlo hh

/-- An error region is given in states that agree. -/
theorem recover (f : Failure) : Refines none Given (Production.recover f)
    (Production.recover f) := by
  intro env s t lo hst hlo _
  rw [Parse.recover_eq, hst.cursor, hst.singleLineIfs, hst.diagnostics]
  have hcell (span : Span) : Stands (s.children.nodes.push
      { kind := .rule .error, span, firstToken := s.cursor, flags := { isError := true } })
      lo s.children.nodes.size (.error span s.cursor) :=
    (stands_push ⟨rfl, rfl, rfl, rfl, rfl⟩ rfl rfl).of_le _ hlo
  exact given ⟨rfl, hst.isPartial, rfl, hst.blocks, rfl⟩ ⟨#[], Array.append_empty.symm⟩
    id rfl rfl rfl
    (hcell _) rfl hlo

/-- What was tried and has failed is undone by going back: of what has grown, the latest is cut
off. -/
theorem restore_eq {q : Parse β} (hq : Undone q) {env : Env} {f : Failure}
    (hrun : q env t = .error f t₁)
    (hst : s.Agrees t) (hg : Grown lo mid s t s₁ t₁) : s₁.restore s.checkpoint = s := by
  obtain ⟨hundone, hchildren⟩ := hq env t f t₁ hrun
  obtain ⟨more, hmore⟩ := hg.nodes
  obtain ⟨ids, roles, ns, hids, hroles, hns, hgathers⟩ := hg.built
  -- No tree was attached as a value, so no index was gathered either.
  obtain rfl : ns = [] := List.append_left_eq_self.1 (hns.symm.trans hchildren)
  have hrow := hgathers.row
  have hgathered := hgathers.roles_eq
  rw [List.reverse_nil, Arena.Row] at hrow
  rw [hrow.1, List.reverse_eq_iff] at hgathered
  obtain rfl : ids = [] := List.reverse_eq_nil_iff.1 hrow.1
  obtain rfl : roles = [] := hgathered
  have htake : (s.children.nodes ++ more).take s.children.nodes.size = s.children.nodes := by simp
  have hcut : Store.cut (Store.size s.children) s₁.children = s.children := by
    show Arena.mk (s₁.children.nodes.take s.children.nodes.size) s₁.children.ids s₁.children.roles =
      s.children
    rw [hids, hroles, hmore, htake]
    rfl
  have hdiagnostics := congrArg State.diagnostics hundone
  have hblocks := congrArg State.blocks hundone
  have hpartial := congrArg State.isPartial hundone
  dsimp only [State.restore, State.checkpoint] at hdiagnostics hblocks hpartial
  rw [hg.agrees.diagnostics, hst.diagnostics] at hdiagnostics
  rw [hg.agrees.blocks, hst.blocks] at hblocks
  rw [hg.agrees.isPartial, hst.isPartial] at hpartial
  unfold State.restore State.checkpoint
  dsimp only
  rw [hcut, hdiagnostics, hblocks, hpartial]

theorem orRecover {p : Production Arena NodeId} {q : Parse Node} (hp : Refines none Given p q)
    (hq : Undone q) : Refines none Given p.orRecover q.orRecover := by
  intro env s t lo hst hlo hh
  rw [Parse.orRecover_eq, Production.orRecover]
  obtain ⟨i, s₁, n, t₁, k, mid, hrun, hrun', hk, hg, hin⟩ | ⟨f, s₁, t₁, mid, hrun, hrun', hg⟩ :=
    (hp env s t lo hst hlo hh).ok_or_error
  · rw [hrun, hrun']
    exact ⟨k, mid, hk, hg, hin⟩
  · have hback : Builder.back s₁ s = s := restore_eq hq hrun' hst hg
    rw [hrun, hrun']
    dsimp only
    rw [hback]
    exact recover f env s t lo hst hlo hh

theorem recovering {p : Production Arena Unit} {q : Parse Unit}
    (hp : Refines none (Plain none) p q) :
    Refines none (Plain none) p.recovering q.recovering := by
  intro env s t lo hst hlo hh
  unfold Production.recovering
  obtain ⟨_, s₁, _, t₁, k, mid, hrun, hrun', hk, hg, hin⟩ | ⟨f, s₁, t₁, mid, hrun, hrun', hg⟩ :=
    (hp env s t lo hst hlo hh).ok_or_error
  · rw [hrun, hrun']
    exact ⟨k, mid, ⟨rfl, hk.2⟩, hg, hin⟩
  · have hchild :
        Refines none (Plain none) (Production.recover f).child (Production.recover f).child := by
      refine bind (recover f) fun i n k hk => ?_
      obtain rfl : k = some (i, n) := hk
      exact attach
    rw [hrun, hrun']
    exact .behind hg (hchild env s₁ t₁ mid hg.agrees hg.mid_le trivial)

theorem unexpected (e : Expected) :
    Refines none Given (Production.unexpected e) (Production.unexpected e) := by
  intro env s t lo hst hlo hh
  unfold Production.unexpected
  rw [hst.cursor]
  exact recover _ env s t lo hst hlo hh

theorem noneFits (a : Ambiguity) (best : Option Failure) :
    Refines none Given (firstFit a best []) (firstFit a best []) := by
  intro env s t lo hst hlo _
  refine ⟨?_, lo, .same hst rfl rfl hlo⟩
  rw [hst.cursor]

theorem tryNext {a : Ambiguity} {x : Alternative Arena NodeId} {y : Alternative}
    {rest : List (Alternative Arena NodeId)} {rest' : List Alternative} {best : Option Failure}
    (hviable : ∀ env s t, s.Agrees t → y.viable env t = x.viable env s)
    (hx : Refines none Given x.production y.production) (hy : Undone y.production)
    (hrest : ∀ best, Refines none Given (firstFit a best rest) (firstFit a best rest')) :
    Refines none Given (firstFit a best (x :: rest)) (firstFit a best (y :: rest')) := by
  intro env s t lo hst hlo hh
  rw [Parse.firstFit_cons_eq, firstFit, hviable env s t hst]
  split
  · obtain ⟨i, s₁, n, t₁, k, mid, hrun, hrun', hk, hg, hin⟩ | ⟨f, s₁, t₁, mid, hrun, hrun', hg⟩ :=
      (hx env s t lo hst hlo hh).ok_or_error
    · rw [hrun, hrun']
      exact ⟨k, mid, hk, hg, hin⟩
    · have hback : Builder.back s₁ s = s := restore_eq hy hrun' hst hg
      rw [hrun, hrun']
      dsimp only
      rw [hback]
      exact hrest _ env s t lo hst hlo hh
  · exact hrest best env s t lo hst hlo hh

end Refines

/-- What is put together alike comes to the same. -/
theorem Mirrors.refines {p : Production Arena α} {q : Parse β} (hpq : Mirrors h r p q) :
    Refines h r p q := by
  induction hpq with
  | pure hr => exact fun env s t lo hst hlo hh => ⟨_, lo, hr, .same hst rfl rfl hlo, hh⟩
  | bind _ _ ihp ihf => exact ihp.bind ihf
  | look hp hq hseen =>
    exact .change hp hq hseen (fun _ _ _ hst => hst) (fun _ _ => rfl) fun _ _ => rfl
  | isRule rules => exact .isRule rules
  | change hp hq hagrees hkept hkept' _ =>
    exact .change hp hq (fun _ _ _ _ => rfl) hagrees hkept hkept'
  | refuse hp hq hf => exact .refuse hp hq hf
  | checkDepth => exact .checkDepth
  | leaf kind => exact .leaf kind
  | attach => exact .attach
  | attachIn f => exact .attachIn f
  | node rule _ ih => exact .node rule ih
  | nodeFrom rule _ ih => exact .nodeFrom rule ih
  | iterate _ _ hr ih => exact .iterate ih hr
  | nested _ ih => exact fun env => ih { env with depth := env.depth + 1 }
  | choose p q _ ih => exact fun env s t lo hst => ih env s t hst env s t lo hst
  | orRecover _ hq ih => exact ih.orRecover hq
  | recovering _ ih => exact ih.recovering
  | unexpected e => exact .unexpected e
  | noneFits a best => exact .noneFits a best
  | tryNext hviable _ hy _ ihx ihrest => exact .tryNext hviable ihx hy ihrest

end Production

end VisualBasic
