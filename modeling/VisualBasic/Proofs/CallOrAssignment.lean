import VisualBasic.Proofs.Indices

/-!
# Calls that are assignments

A line such as `a.b(c) = d` is an assignment, and it would be a call of what `=` gives, too. The
assignment is tried first, and the call only if the assignment fails; so it matters that the
assignment does not need more room. It does not: the target of the assignment is read like the first
operand of the call, and the value behind the equals sign is less deep than the right operand.

Main results:

* `leads_target_of_operand` — a target of assignments needs no more room than an operand.
* `leads_operators_join` — the operators behind a right operand may be read with its own.
* `leads_assignment_of_target` — a call is an assignment if its first operand is a target.
* `leads_assignment_of_call` — nor does an assignment need more than a call.
-/

namespace VisualBasic.Production

open State

variable {env env' : Env} {s s₁ s₂ s' t : State} {room n : Nat} {level : Int} {x y : Node}

-- ---------------------------------------------------------------------------
-- Targets
-- ---------------------------------------------------------------------------

/-- What a parenthesis makes a call of. -/
def callable (x : Node) : Bool := x.isRule [.identifier, .memberAccess]

theorem Goes.kind_eq_of_construct {r : Rule} {first : Nat} {body : Parse Unit}
    (h : Goes env (Production.construct r first body) s x s') : x.kind = .rule r := by
  obtain ⟨t, t', ht, hrun, ht'⟩ := h
  rw [Parse.construct_eq] at hrun
  split at hrun
  · cases hrun
    rfl
  · cases hrun

theorem Goes.callable_memberAccess (h : Goes env (Production.memberAccess y) s x s') :
    callable x = true := by
  rw [callable, Node.isRule, Goes.kind_eq_of_construct h]
  rfl

theorem Goes.callable_elementAccessOf {expression : Parse Node}
    (h : Goes env (Production.elementAccessOf expression y) s x s') : callable x = false := by
  rw [callable, Node.isRule, Goes.kind_eq_of_construct h]
  rfl

theorem Goes.callable_callOrIndexOf {expression : Parse Node}
    (h : Goes env (Production.callOrIndexOf expression y) s x s') : callable x = false := by
  rw [Parse.callOrIndexOf_eq] at h
  split at h
  · rw [callable, Node.isRule, Goes.kind_eq_of_construct h]
    rfl
  · exact h.callable_elementAccessOf

/-- The indices of an element and the parenthesis behind them. -/
@[reducible] def indices (expression : Parse Node) : Parse Unit := do
  expectMark .leftParen
  unless ← atKind (.mark .rightParen) do
    commaSeparated (field .index (nested expression))
  expectEnd .rightParen

/-- What follows the target of a call. -/
@[reducible] def callArguments (expression : Parse Node) : Parse Unit := do
  if ← atTypeArguments then
    child (nested typeArguments)
    unless ← atKind (.mark .leftParen) do return
  field .arguments (nested (argumentsOf expression))

theorem hushed_indices (room : Nat) (level : Int) :
    Hushed (indices (expressionUpTo room level)) := by
  have hindex : Flows 0 false (.plain true) true
      (commaSeparated (field .index (nested (expressionUpTo room level)))) :=
    .commaSeparated (.fieldNested _ (.expressionUpTo _ _)) (.fieldNested _ (.expressionUpTo _ _))
  have hlist : Flows 0 false {} true (indices (expressionUpTo room level)) :=
    .openParen (.ifAt (.closeParen _) (.seq hindex (.closeParen _)))
  exact hlist.hushed

theorem hushed_callArguments (room : Nat) (level : Int) :
    Hushed (callArguments (expressionUpTo room level)) := by
  have harguments {spot : Spot} : Flows 0 false spot true
      (field .arguments (nested (argumentsOf (expressionUpTo room level)))) :=
    .fieldNested _ (.argumentsOf (.expressionUpTo _ _) (Builds.expressionUpTo _ _))
  have hcall : Flows 0 false (.plain true) true (callArguments (expressionUpTo room level)) :=
    .ifLook (Nearsighted.hasAhead (by decide)).steady
      (.seq (.childNested .typeArguments) (.ifAt harguments (.pure rfl))) harguments
  exact hcall.hushed

/-- Where a member is read does not depend on what it is a member of. -/
theorem leads_memberAccess (h : Goes env (memberAccess y) s x s') (object : Node) :
    Leads env (memberAccess object) s s' := by
  obtain ⟨_, s₁, hobject, hrest⟩ := h.nodeFrom.bind
  obtain ⟨_, hobject⟩ := hobject.field
  have hmember : Flows 0 false {} true (do
      expectMark .dot
      field .member memberName) :=
    .seq (.expectMark (.word rfl)) (.field _ (.memberName rfl))
  refine .nodeFrom (.seq (.field (.wrap _ _)) ?_)
  exact Widens.leads (.seq (.expectMark _) (.field _ .memberName)) hmember.hushed (.refl env)
    (hrest.from hobject.wrap)

theorem callOrIndexOf_eq (expression : Parse Node) (x : Node) : callOrIndexOf expression x =
    if callable x then invocationOf expression x else elementAccessOf expression x := rfl

theorem leads_callOrIndexOf {inner inner' : Node}
    (h : Goes env (callOrIndexOf (expressionUpTo room Precedence.lowest) inner) s x s')
    (hcallable : callable inner' = callable inner) :
    Leads env (callOrIndexOf expression inner') s s' := by
  rw [callOrIndexOf_eq] at h ⊢
  rw [hcallable]
  split at h
  · rw [if_pos ‹_›]
    obtain ⟨_, s₁, hattach, hrest⟩ := h.nodeFrom.bind
    refine .nodeFrom (.seq (.attach _) ?_)
    exact Widens.leads (.callArguments widens_toExpression) (hushed_callArguments _ _) (.refl env)
      (hrest.from hattach.attach)
  · rw [if_neg ‹_›]
    obtain ⟨_, s₁, hobject, hrest⟩ := h.nodeFrom.bind
    obtain ⟨_, hobject⟩ := hobject.field
    refine .nodeFrom (.seq (.field (.wrap _ _)) ?_)
    exact Widens.leads (.indices widens_toExpression) (hushed_indices _ _) (.refl env)
      (hrest.from hobject.wrap)

theorem Hushed.some {α : Type} {p : Parse α} (h : Hushed p) : Hushed (Option.some <$> p) := by
  rw [map_eq_pure_bind]
  exact .bind h fun _ => .of_looks (Looks.pure _)

theorem hushed_targetStep (inner : Node) : Hushed (targetStep inner) := by
  have hbare : inner.Alike 0 (inner.bare 0) := (inner.bare_bare 0).symm
  have hmember : Phrase 0 false (.plain true) false true (Node.Alike 0) (memberAccess inner) _ :=
    .memberAccess hbare rfl
  have helement : Phrase 0 false {} false true (Node.Alike 0)
      (elementAccessOf expression inner) _ :=
    .elementAccessOf .expression hbare
  have hcall : Phrase 0 false {} false true (Node.Alike 0) (callOrIndexOf expression inner) _ :=
    .callOrIndexOf .expression Builds.expression hbare
  refine .look Looks.peek fun kind => ?_
  split
  · exact hmember.hushed.some
  · refine .look (Looks.test _) fun assigned => ?_
    split
    · exact helement.hushed.some
    · exact hcall.hushed.some
  · exact .of_looks (Looks.pure _)

/-- Behind a dot a target goes on with a member. -/
theorem Goes.targetStep_member {inner : Node} {y : Option Node}
    (h : Goes env (targetStep inner) s y s')
    (hdot : env.kind s = .mark .dot) : ∃ x, y = Option.some x ∧
    Goes env (memberAccess inner) s x s' := by
  have hpeek := h.peek
  rw [hdot] at hpeek
  exact hpeek.some

/-- In parentheses a target has indices if an assignment follows, and else what an operand has. -/
theorem Goes.targetStep_parens {inner : Node} {y : Option Node}
    (h : Goes env (targetStep inner) s y s')
    (hparen : env.kind s = .mark .leftParen) : ∃ x, y = Option.some x ∧
      Goes env (if env.tokens.assignmentFollowsParens 0 s.cursor = true then
        Production.elementAccessOf expression inner else callOrIndexOf expression inner) s
          x s' := by
  have hpeek := h.peek
  rw [hparen] at hpeek
  have htest := hpeek.test Widens.sees_assignmentFollowsParens
  split at htest
  · rw [if_pos ‹_›]
    exact htest.some
  · rw [if_neg ‹_›]
    exact htest.some

theorem Leads.targetStep_member {inner : Node} (hdot : env.kind s = .mark .dot)
    (h : Leads env (memberAccess inner) s s') : Leads env (targetStep inner) s s' := by
  refine .peek ?_
  rw [hdot]
  exact .some h

theorem Leads.targetStep_parens {inner : Node} (hparen : env.kind s = .mark .leftParen)
    (h : Leads env (if env.tokens.assignmentFollowsParens 0 s.cursor = true then
      elementAccessOf expression inner else callOrIndexOf expression inner) s s') :
    Leads env (targetStep inner) s s' := by
  refine .peek ?_
  rw [hparen]
  refine .test Widens.sees_assignmentFollowsParens ?_
  split at h
  · rw [if_pos ‹_›]
    exact .some h
  · rw [if_neg ‹_›]
    exact .some h

section

variable (henv : env.Roomier n env') {inner inner' : Node}

include henv

/-- Indices of a target are read where an operand has arguments or indices. -/
theorem leads_elementAccess_of_parens (hcallable : callable inner' = callable inner)
    (hoperand : Goes env (callOrIndexOf (expressionUpTo room Precedence.lowest) inner) s x s')
    (htarget : Goes env' (elementAccessOf expression inner') s y t) :
    Leads env (elementAccessOf expression inner') s s' := by
  by_cases hinner : callable inner = true
  · rw [callOrIndexOf_eq, if_pos hinner] at hoperand
    exact leads_elementAccess_of_invocation henv hoperand htarget
  · have hindices := leads_callOrIndexOf hoperand hcallable
    rwa [callOrIndexOf_eq, if_neg (hcallable ▸ hinner)] at hindices

/-- The next part of a target is where the next part of the operand is. -/
theorem leads_targetStep_of_postfixStep {y z : Option Node}
    (hcallable : callable inner' = callable inner)
    (hpart : Goes env (postfixStep (expressionUpTo room Precedence.lowest) inner) s y s')
    (htarget : Goes env' (targetStep inner') s z t) :
    LeadsTo env (targetStep inner') s z s' ∧ z.map callable = y.map callable := by
  have hkind : env'.kind s = env.kind s := Widens.sees_kind env env' s s henv.tokens (.refl s)
  -- the target goes as far as the operand; so with more room it gives the same
  have hsame (h : Leads env (targetStep inner') s s') : LeadsTo env (targetStep inner') s z s' := by
    obtain ⟨w, hw⟩ := h.leadsTo (.targetStep inner') (hushed_targetStep inner') (.refl env)
    have hwide : LeadsTo env' (targetStep inner') s w s' :=
      Widens.leadsTo (.targetStep inner') (hushed_targetStep inner') henv hw.goes
    rwa [← (hwide.unique htarget).1]
  cases hpart.operandPart with
  | member hdot hx =>
    obtain ⟨w, rfl, hw⟩ := htarget.targetStep_member (hkind.trans hdot)
    exact ⟨hsame (.targetStep_member hdot (leads_memberAccess hx inner')),
      congrArg Option.some (hw.callable_memberAccess.trans hx.callable_memberAccess.symm)⟩
  | parens hparen hx =>
    obtain ⟨w, rfl, hw⟩ := htarget.targetStep_parens (hkind.trans hparen)
    rw [henv.tokens] at hw
    suffices h : Leads env (if env.tokens.assignmentFollowsParens 0 s.cursor = true then
          elementAccessOf expression inner' else callOrIndexOf expression inner') s s' ∧
        callable w = false from
      ⟨hsame (.targetStep_parens hparen h.1),
        congrArg Option.some (h.2.trans hx.callable_callOrIndexOf.symm)⟩
    split at hw
    · rw [if_pos ‹_›]
      exact ⟨leads_elementAccess_of_parens henv hcallable hx hw, hw.callable_elementAccessOf⟩
    · rw [if_neg ‹_›]
      exact ⟨leads_callOrIndexOf hx hcallable, hw.callable_callOrIndexOf⟩
  | none hdot hparen hs' =>
    have hnone := leadsTo_targetStep_none hdot hparen inner'
    have hstop := hsame (hnone.leads.to hs')
    exact ⟨hstop, congrArg _ (hnone.unique hstop.goes).1.symm⟩

/-- A target of assignments ends where the operand does. -/
theorem leads_target_of_operand {count : Nat} {target : Node}
    (hcallable : callable inner' = callable inner)
    (hoperand : Goes env
      (iterateUpTo (postfixStep (expressionUpTo room Precedence.lowest)) count inner)
      s y s')
    (htarget : Goes env' (iterateUpTo targetStep count inner') s target t) :
    Leads env (iterateUpTo targetStep count inner') s s' := by
  induction count generalizing s inner inner' with
  | zero =>
    exact (Leads.pure inner').to hoperand.pure.2
  | succ count ih =>
    rcases htarget.round with ⟨hstep, -⟩ | ⟨w, t₁, hstep, hrest⟩
    · rcases hoperand.round with ⟨hstep', -⟩ | ⟨v, s₁, hstep', -⟩
      · exact .last (leads_targetStep_of_postfixStep henv hcallable hstep' hstep).1 count
      · cases (leads_targetStep_of_postfixStep henv hcallable hstep' hstep).2
    · rcases hoperand.round with ⟨hstep', -⟩ | ⟨v, s₁, hstep', hrest'⟩
      · cases (leads_targetStep_of_postfixStep henv hcallable hstep' hstep).2
      · obtain ⟨hleads, hcallable'⟩ := leads_targetStep_of_postfixStep henv hcallable hstep' hstep
        have hwide : LeadsTo env' (targetStep inner') s (some w) s₁ :=
          Widens.leadsTo (.targetStep inner') (hushed_targetStep inner') henv hleads.goes
        have hplace := (hwide.unique hstep).2
        exact .more hleads (ih (Option.some.inj hcallable') hrest' (hrest.from hplace))

end

-- ---------------------------------------------------------------------------
-- Operators
-- ---------------------------------------------------------------------------

/-- No operator is next, or there is one and its right operand. -/
theorem Goes.extendOf {operand : Int → Parse Node} {y : Option Node}
    (h : Goes env (Production.extendOf operand level x) s y s') :
    (y = none ∧ Beside s s' ∧ ∀ p, Precedence.ofKind? (env.kind s) = Option.some p →
      p.level < level) ∨
      ∃ p r, Precedence.ofKind? (env.kind s) = Option.some p ∧ y.isSome = true ∧
        Goes (deeper env) (operand p.right) (behind env s) r s' := by
  have hpeek := h.peek
  split at hpeek
  · rename_i hkind
    obtain ⟨rfl, hs'⟩ := hpeek.pure
    exact .inl ⟨rfl, hs', fun p hp => by rw [hkind] at hp; cases hp⟩
  · rename_i p hkind
    split at hpeek
    · rename_i hlevel
      obtain ⟨rfl, hs'⟩ := hpeek.pure
      refine .inl ⟨rfl, hs', fun q hq => ?_⟩
      rw [hkind] at hq
      cases hq
      exact hlevel
    · obtain ⟨z, s₁, hnode, hrest⟩ := hpeek.bind
      obtain ⟨w, rfl, hwrap⟩ := hrest.some
      obtain ⟨_, s₂, hattach, hbody⟩ := hnode.nodeFrom.bind
      obtain ⟨_, s₃, hoperator, hright⟩ := hbody.bind
      obtain ⟨r, hright⟩ := hright.field
      obtain ⟨_, hoperator⟩ := hoperator.field
      have hplace := (beside_behind rfl hattach.attach).trans hoperator.tokenLeaf
      exact .inr ⟨p, r, hkind, rfl, (hright.nested.from hplace).to hwrap.wrap⟩

theorem hushed_extendOf (room : Nat) (level : Int) (left : Node) :
    Hushed (extendOf (expressionUpTo room) level left) := by
  have hbare : left.Alike 0 (left.bare 0) := (left.bare_bare 0).symm
  have hextend : Phrase 0 false (.plain true) false true (OptionAlike (Node.Alike 0))
      (extendOf (expressionUpTo room) level left) _ :=
    .extendOf (fun level => .expressionUpTo room level) level hbare
  exact hextend.hushed

/-- What is extended does not matter to how far that leads. -/
theorem leads_extendOf {p : Precedence} (hroom : env.Roomier (room + 1) env)
    (hkind : Precedence.ofKind? (env.kind s) = some p)
    (hlevel : level ≤ p.level)
    (h : Leads (deeper env) (expressionUpTo room p.right) (behind env s) s') (left : Node) :
    ∃ y, LeadsTo env (extendOf (expressionUpTo room) level left) s (some y) s' := by
  have hleads : Leads env (extendOf (expressionUpTo room) level left) s s' := by
    refine .peek ?_
    rw [hkind]
    dsimp only
    rw [if_neg (Int.not_lt.2 hlevel)]
    refine .bind (.nodeFrom (.seq (.attach _) (.seq (.field .tokenLeaf) (.field h)))) fun _ => ?_
    exact .some (.wrap _ _)
  have hoperand (level : Int) : Widens (room + 1 - 1) (expressionUpTo room level)
      (expressionUpTo room level) := .expressionUpTo room room level
  have hwide : Wide (room + 1) (extendOf (expressionUpTo room) level left) :=
    .extendOf hoperand level left
  obtain ⟨y, hy⟩ := hleads.leadsTo hwide (hushed_extendOf _ _ _) hroom
  rcases hy.goes.extendOf with ⟨-, -, hnone⟩ | ⟨p, r, -, hsome, -⟩
  · exact absurd (hnone p hkind) (Int.not_lt.2 hlevel)
  · obtain ⟨z, rfl⟩ := Option.isSome_iff_exists.1 hsome
    exact ⟨z, hy⟩

/-- At most `count` binary operators behind an operand, with their right operands. -/
@[reducible] def operators (room : Nat) (level : Int) (count : Nat) (left : Node) : Parse Node :=
  iterateUpTo (extendOf (expressionUpTo room) level) count left

section

variable {m : Nat} {count count' : Nat} {p : Precedence} {x₁ x₂ y₁ y₂ : Node}

theorem leads_operators_none (hkind : Precedence.ofKind? (env.kind s) = none) :
    Leads env (operators room level count x) s s := by
  refine .stop (leadsTo_extendOf_none (fun p hp => ?_) x) count
  rw [hkind] at hp
  cases hp

theorem Goes.operators_none (h : Goes env (operators room level count x) s y s')
    (hkind : Precedence.ofKind? (env.kind s) = none) : Beside s s' :=
  (leads_operators_none hkind).beside h

/-- A row of operators that is read to its end begins with the operator that is next. -/
theorem leads_operator (hroom : env.Roomier (m + 1) env)
    (h : Goes env (operators m Precedence.lowest count x) s y s')
    (hend : Precedence.ofKind? (env.kind s') = none)
    (hkind : Precedence.ofKind? (env.kind s) = some p) :
    ∃ s₁, Leads (deeper env) (expressionUpTo m p.right) (behind env s) s₁ ∧
      ∃ fewer z, Goes env (operators m Precedence.lowest fewer z) s₁ y s' := by
  have hlowest := (Precedence.lowest_le_level hkind).1
  cases count with
  | zero =>
    rw [Widens.sees_kind env env s s' rfl h.pure.2, hkind] at hend
    cases hend
  | succ fewer =>
    rcases h.round with ⟨hstep, -⟩ | ⟨z, s₁, hstep, hrest⟩
    · rcases hstep.extendOf with ⟨-, -, hnone⟩ | ⟨_, _, -, hsome, -⟩
      · exact absurd (hnone p hkind) (Int.not_lt.2 hlowest)
      · cases hsome
    · rcases hstep.extendOf with ⟨hnone, -⟩ | ⟨q, r, hq, -, hright⟩
      · cases hnone
      · obtain rfl : q = p := Option.some.inj (hq.symm.trans hkind)
        refine ⟨s₁, ?_, fewer, z, hrest⟩
        exact Widens.leads (.expressionUpTo m m _) (hushed_expressionUpTo _ _) hroom.nested hright

/-- The same holds of the operators of a right operand and those that follow it. -/
theorem leads_operator_of_rows (hroom : env.Roomier (m + 1) env)
    (hfirst : Goes (deeper env) (operators room level count x₁) s y₁ s₁)
    (hsecond : Goes env (operators m Precedence.lowest count' x₂) s₁ y₂ s')
    (hend : Precedence.ofKind? (env.kind s') = none)
    (hkind : Precedence.ofKind? (env.kind s) = some p) :
    ∃ s₂, Leads (deeper env) (expressionUpTo m p.right) (behind env s) s₂ ∧
      ∃ fewer fewer' z₁ z₂ s₃, Goes (deeper env) (operators room level fewer z₁) s₂ y₁ s₃ ∧
        Goes env (operators m Precedence.lowest fewer' z₂) s₃ y₂ s' := by
  -- no operator was read in the first row
  have hskipped (hs₁ : Beside s s₁) : ∃ s₂, Leads (deeper env) (expressionUpTo m p.right)
      (behind env s) s₂ ∧
      ∃ fewer fewer' z₁ z₂ s₃, Goes (deeper env) (operators room level fewer z₁) s₂ y₁ s₃ ∧
        Goes env (operators m Precedence.lowest fewer' z₂) s₃ y₂ s' := by
    obtain ⟨s₂, hleads, fewer, z, hrest⟩ := leads_operator hroom (hsecond.from hs₁) hend hkind
    exact ⟨s₂, hleads, 0, fewer, y₁, z, s₂, .of_run rfl, hrest⟩
  cases count with
  | zero => exact hskipped hfirst.pure.2
  | succ fewer =>
    rcases hfirst.round with ⟨hstep, -⟩ | ⟨z, s₂, hstep, hrest⟩
    · rcases hstep.extendOf with ⟨-, hs₁, -⟩ | ⟨_, _, -, hsome, -⟩
      · exact hskipped hs₁
      · cases hsome
    · rcases hstep.extendOf with ⟨hnone, -⟩ | ⟨q, r, hq, -, hright⟩
      · cases hnone
      · obtain rfl : q = p := Option.some.inj (hq.symm.trans hkind)
        refine ⟨s₂, ?_, fewer, count', z, x₂, s₁, hrest, hsecond⟩
        have habove : Env.Roomier m (deeper (deeper env)) (deeper env) :=
          ⟨rfl, (Env.Roomier.above (deeper env)).room, hroom.nested.bound⟩
        exact Widens.leads (.expressionUpTo room m _) (hushed_expressionUpTo _ _) habove hright

/-- An operator is not the end of the text. -/
theorem next_of_operator (hkind : Precedence.ofKind? (env.kind s) = some p) :
    env.next s.cursor = s.cursor + 1 := by
  refine Env.next_eq_succ fun hend => ?_
  rw [show env.kind s = .endOfFile from hend] at hkind
  cases hkind

/-- A run of what goes forward goes forward. -/
theorem Goes.advances {α : Type} {q : Parse α} {a : α} (h : Goes env q s a s') (hq : Climbs q)
    (hs : s.cursor ≤ env.tokens.tokens.size) :
    s.cursor ≤ s'.cursor ∧ s'.cursor ≤ env.tokens.tokens.size := by
  obtain ⟨t, t', ht, hrun, ht'⟩ := h
  have hlater := hq.ok (by rwa [ht.cursor]) hrun
  rw [← ht.cursor, ht'.cursor]
  exact ⟨hlater.cursor, hlater.le_size⟩

theorem climbs_extendOf (room : Nat) (level : Int) (left : Node) :
    Climbs (extendOf (expressionUpTo room) level left) := by
  have hbare : left.Alike 0 (left.bare 0) := (left.bare_bare 0).symm
  have hextend : Phrase 0 false (.plain true) false true (OptionAlike (Node.Alike 0))
      (extendOf (expressionUpTo room) level left) _ :=
    .extendOf (fun level => .expressionUpTo room level) level hbare
  exact hextend.climbs

theorem climbs_operators (room : Nat) (level : Int) (count : Nat) (left : Node) :
    Climbs (operators room level count left) :=
  .iterateUpTo (climbs_extendOf room level) count left

theorem climbs_expressionUpTo (room : Nat) (level : Int) : Climbs (expressionUpTo room level) := by
  have hphrase : Gives 0 false {} true (expressionUpTo room level) :=
    Phrase.expressionUpTo room level
  exact hphrase.climbs

/-- The operators of a right operand and those that follow it make a row of their own. Every round
of it passes a token, so a round for each token is enough. -/
theorem leads_operators_join {c : Nat} (hroom : env.Roomier (m + 1) env)
    (hs : s.cursor ≤ env.tokens.tokens.size)
    (hfirst : Goes (deeper env) (operators room level count x₁) s y₁ s₁)
    (hsecond : Goes env (operators m Precedence.lowest count' x₂) s₁ y₂ s')
    (hend : Precedence.ofKind? (env.kind s') = none) (hc : s'.cursor ≤ s.cursor + c) :
    Leads env (operators m Precedence.lowest c x) s s' := by
  induction c generalizing s s₁ count count' x x₁ x₂ with
  | zero =>
    have hplace : s.cursor = s'.cursor := by
      obtain ⟨hle₁, hsize₁⟩ := hfirst.advances (climbs_operators _ _ _ _) hs
      obtain ⟨hle', -⟩ := hsecond.advances (climbs_operators _ _ _ _) hsize₁
      omega
    have hkind : Precedence.ofKind? (env.kind s) = none := by
      rw [← hend, Env.kind, Env.kind, hplace]
    have hs₁ : Beside s s₁ := hfirst.operators_none hkind
    exact (Leads.pure x).to ((hsecond.from hs₁).operators_none hkind)
  | succ c ih =>
    cases hkind : Precedence.ofKind? (env.kind s) with
    | none =>
      have hs₁ : Beside s s₁ := hfirst.operators_none hkind
      have hs' : Beside s s' := (hsecond.from hs₁).operators_none hkind
      exact (leads_operators_none hkind).to hs'
    | some p =>
      have hlowest := (Precedence.lowest_le_level hkind).1
      obtain ⟨s₂, hright, fewer, fewer', z₁, z₂, s₃, hfirst', hsecond'⟩ :=
        leads_operator_of_rows hroom hfirst hsecond hend hkind
      obtain ⟨y, hy⟩ := leads_extendOf hroom hkind hlowest hright x
      have hnext := next_of_operator hkind
      obtain ⟨r, hr⟩ := hright.goes
      obtain ⟨hle, hsize⟩ := hr.advances (climbs_expressionUpTo _ _) (Nat.min_le_right _ _)
      dsimp only at hle
      rw [hnext] at hle
      exact .more hy (ih hsize hfirst' hsecond' (by omega))

end

-- ---------------------------------------------------------------------------
-- Values
-- ---------------------------------------------------------------------------

theorem hushed_unaryOf (room : Nat) : Hushed (unaryOf (expressionUpTo room)) := by
  have hunary : Gives 0 false {} true (unaryOf (expressionUpTo room)) :=
    .unaryOf (fun level => .expressionUpTo room level) (Builds.expressionUpTo room _)
  exact hunary.hushed

theorem climbs_unaryOf (room : Nat) : Climbs (unaryOf (expressionUpTo room)) := by
  have hunary : Gives 0 false {} true (unaryOf (expressionUpTo room)) :=
    .unaryOf (fun level => .expressionUpTo room level) (Builds.expressionUpTo room _)
  exact hunary.climbs

theorem Leads.expression {m : Nat} (hroom : env.room = m + 1) {left : Node}
    (hleft : LeadsTo env (unaryOf (expressionUpTo m)) s left s₁)
    (hrest : Leads env (operators m Precedence.lowest (env.tokens.size - s₁.cursor) left) s₁ s') :
    Leads env Production.expression s s' := by
  have hlimit : env.depth < env.limit := by
    unfold Env.room at hroom
    omega
  have hall : Leads env (expressionUpTo (m + 1) Precedence.lowest) s s' := by
    refine .seq (.checkDepth hlimit) fun t ht => ?_
    obtain ⟨t₁, hrun, ht₁⟩ := hleft t ht
    obtain ⟨x, t', hrun', ht'⟩ := hrest.iterate t₁ ht₁
    refine ⟨x, t', ?_, ht'⟩
    rw [run_bind, hrun]
    exact hrun'
  intro t ht
  rw [Production.expression, hroom]
  exact hall t ht

/-- What is behind an operator in an expression is an expression of its own. -/
theorem leads_value_of_operator {m count : Nat} {p : Precedence} (hroom : env.room = m + 1)
    (h : Goes env (operators m Precedence.lowest count x) s y s')
    (hend : Precedence.ofKind? (env.kind s') = none)
    (hkind : Precedence.ofKind? (env.kind s) = some p) :
    Leads env expression (behind env s) s' := by
  have hself : env.Roomier (m + 1) env := hroom ▸ .refl env
  obtain ⟨s₁, hright, fewer, z, hrest⟩ := leads_operator hself h hend hkind
  obtain ⟨r, hright⟩ := hright.goes
  obtain ⟨m₁, -, -, left, s₂, hleft, hfirst⟩ := hright.expressionUpTo
  -- the first operand
  have hoperand (level : Int) : Widens (m + 1 - 1) (expressionUpTo m₁ level)
      (expressionUpTo m level) := .expressionUpTo m₁ m level
  have habove : Env.Roomier (m + 1) (deeper env) env := hroom ▸ .above env
  have hoperand₁ : LeadsTo env (unaryOf (expressionUpTo m)) (behind env s) left s₂ :=
    Widens.leadsTo (.unaryOf hoperand) (hushed_unaryOf _) habove hleft
  -- the operators behind it
  obtain ⟨-, hsize₂⟩ := hleft.advances (climbs_unaryOf _) (Nat.min_le_right _ _)
  obtain ⟨-, hsize₁⟩ := hfirst.iterate.advances (climbs_operators _ _ _ _) hsize₂
  obtain ⟨-, hsize⟩ := hrest.advances (climbs_operators _ _ _ _) hsize₁
  refine .expression hroom hoperand₁ (leads_operators_join hself hsize₂ hfirst.iterate
    hrest hend ?_)
  rw [TokenStream.size]
  omega

-- ---------------------------------------------------------------------------
-- Assignments
-- ---------------------------------------------------------------------------

/-- What a target of assignments begins with. -/
def targetHead : Parse Node := do
  match ← peek with
  | .mark .dot => implicitMemberAccess
  | kind => if kind.isNameLike then ruleLeaf .identifier else fail .assignmentTarget

theorem hushed_targetHead : Hushed targetHead := by
  have hmember : Gives 0 false {} true implicitMemberAccess := .implicitMemberAccess
  refine .look Looks.peek fun kind => ?_
  split
  · exact hmember.hushed
  · split
    · exact .leaf _
    · exact .fail _

theorem widens_targetHead : Wide n targetHead := by
  refine .peek fun kind => ?_
  split
  · exact .implicitMemberAccess
  · exact .ite (.ruleLeaf _) (.fail _)

/-- A target is a first part and those behind it. -/
theorem leftHandSide_eq : leftHandSide = (do
    checkDepth
    node .leftHandSide do
      let first ← targetHead
      let target ← iterate targetStep first
      unless target.isRule [.identifier, .memberAccess, .elementAccess] do fail .assignmentTarget
      attach target) := by
  unfold leftHandSide targetHead
  simp only [bind_assoc]
  congr 1
  funext _
  congr 2
  funext kind
  have hname (p q : Parse Node) (k : Node → Parse Unit) :
      (if kind.isNameLike = true then p >>= k else q >>= k) =
        (if kind.isNameLike = true then p else q) >>= k := by
    by_cases h : kind.isNameLike = true
    · rw [if_pos h, if_pos h]
    · rw [if_neg h, if_neg h]
  cases kind with
  | mark m =>
    cases m with
    | dot => rfl
    | _ => exact hname _ _ _
  | _ => exact hname _ _ _

/-- An operand that may be assigned to begins like a target. -/
theorem leadsTo_targetHead (h : Goes env (primaryOf (expressionUpTo room level)) s x s')
    (hkind : env.kind s = .mark .dot ∨ (env.kind s).isNameLike = true) :
    LeadsTo env targetHead s x s' := by
  have hmember : Gives 0 false {} true implicitMemberAccess := .implicitMemberAccess
  refine .peek ?_
  have hpeek := h.peek
  generalize env.kind s = kind at hkind hpeek
  split at hpeek
  case h_13 => exact Widens.leadsTo .implicitMemberAccess hmember.hushed (.refl env) hpeek
  case h_14 =>
    split
    · exact absurd rfl ‹_›
    · split at hpeek
      · rw [if_pos ‹_›]
        exact Widens.leadsTo (.ruleLeaf _) (.leaf _) (.refl env) hpeek
      · exact hpeek.fail.elim
  all_goals
    rcases hkind with hkind | hkind
    · cases hkind
    · exact absurd hkind (by decide)

theorem Goes.endStatement (h : Goes env Production.endStatement s () s') :
    (env.kind s).isAssignment = false ∧ Precedence.ofKind? (env.kind s) = none := by
  have hends : (env.kind s).isTerminator = true ∨ (env.kind s).endsLine = true ∨
      env.kind s = .keyword .kwElse := by
    have hpeek := h.peek
    split at hpeek
    · exact .inl ‹_›
    · have htest := hpeek.test Widens.sees_atTerminator
      split at htest
      · rename_i hends
        rw [Bool.or_eq_true, Bool.and_eq_true, beq_iff_eq] at hends
        exact .inr (hends.imp_right And.left)
      · exact htest.fail.elim
  generalize env.kind s = kind at hends
  have hkind : kind = .newline ∨ kind = .mark .colon ∨ kind = .endOfFile ∨
      kind = .keyword .kwElse := by
    rcases hends with hends | hends | rfl
    · unfold TokenKind.isTerminator at hends
      split at hends <;> simp_all
    · unfold TokenKind.endsLine at hends
      split at hends <;> simp_all
    · simp
  rcases hkind with rfl | rfl | rfl | rfl <;> decide

theorem Goes.leftHandSide (h : Goes env Production.leftHandSide s x s') :
    env.depth < env.limit ∧ ∃ first s₁ target, Goes env targetHead s first s₁ ∧
      Goes env (Production.iterate targetStep first) s₁ target s' ∧
      target.isRule [.identifier, .memberAccess, .elementAccess] = true := by
  rw [leftHandSide_eq] at h
  obtain ⟨_, s₀, hcheck, hnode⟩ := h.bind
  obtain ⟨hlimit, hs₀⟩ := hcheck.checkDepth
  obtain ⟨first, s₁, hfirst, hrest⟩ := hnode.node.bind
  obtain ⟨target, s₂, htarget, hrest⟩ := hrest.bind
  refine ⟨hlimit, first, s₁, target, hfirst.from hs₀, ?_⟩
  split at hrest
  · exact ⟨htarget.to hrest.attach, ‹_›⟩
  · obtain ⟨_, _, hfail, -⟩ := hrest.bind
    exact hfail.fail.elim

theorem Leads.leftHandSide {first target : Node} (hlimit : env.depth < env.limit)
    (hfirst : LeadsTo env targetHead s first s₁)
    (htarget : LeadsTo env (Production.iterate targetStep first) s₁ target s')
    (hrule : target.isRule [.identifier, .memberAccess, .elementAccess] = true) :
    Leads env Production.leftHandSide s s' := by
  rw [leftHandSide_eq]
  have hattach : Leads env (do
      unless target.isRule [.identifier, .memberAccess, .elementAccess] do fail .assignmentTarget
      Production.attach target) s' s' := by
    rw [if_pos hrule]
    exact .attach target
  exact .seq (.checkDepth hlimit) (.node (hfirst.bind (htarget.bind hattach.unit)).leads)

theorem Goes.targetHead (h : Goes env Production.targetHead s x s') :
    env.kind s = .mark .dot ∨ (env.kind s).isNameLike = true := by
  have hpeek := h.peek
  split at hpeek
  · exact .inl ‹_›
  · split at hpeek
    · exact .inr ‹_›
    · exact hpeek.fail.elim

theorem hushed_targetParts (first : Node) : Hushed (iterate targetStep first) :=
  fun env s => Hushed.iterateUpTo hushed_targetStep _ _ env s

/-- A target of assignments ends where the operand that it might be does. -/
theorem leads_leftHandSide_of_operand (henv : env.Roomier n env') (hlimit : env.depth < env.limit)
    (hoperand : Goes env (postfixOf (expressionUpTo room Precedence.lowest)) s x s')
    (htarget : Goes env' leftHandSide s y t) : Leads env leftHandSide s s' := by
  obtain ⟨-, first', t₁, target', hhead', hparts', hrule⟩ := htarget.leftHandSide
  have hkind : env.kind s = .mark .dot ∨ (env.kind s).isNameLike = true := by
    rw [← Widens.sees_kind env env' s s henv.tokens (.refl s)]
    exact hhead'.targetHead
  -- the first part
  obtain ⟨first, s₁, hprimary, hrest⟩ := hoperand.bind
  have hhead := leadsTo_targetHead hprimary hkind
  have hhead'' : LeadsTo env' targetHead s first s₁ :=
    Widens.leadsTo widens_targetHead hushed_targetHead henv hhead.goes
  obtain ⟨rfl, hplace⟩ := hhead''.unique hhead'
  -- the other parts
  obtain ⟨inner, s₂, hparts, hwrap⟩ := hrest.bind
  have hparts'' := (hparts'.from hplace).iterate
  rw [henv.tokens] at hparts''
  have hleads := (leads_target_of_operand henv rfl hparts.iterate hparts'').iterate
  obtain ⟨target, htarget⟩ := hleads.leadsTo (.iterate Widens.targetStep first)
    (hushed_targetParts first) (.refl env)
  have htarget' : LeadsTo env' (iterate targetStep first) s₁ target s₂ :=
    Widens.leadsTo (.iterate Widens.targetStep first) (hushed_targetParts first) henv htarget.goes
  obtain ⟨rfl, -⟩ := htarget'.unique (hparts'.from hplace)
  exact (Leads.leftHandSide hlimit hhead htarget hrule).to hwrap.wrap

theorem hushed_leftHandSide : Hushed leftHandSide := by
  have htarget : Gives 0 false {} true leftHandSide := .leftHandSide
  exact htarget.hushed

/-- A call that no word announces begins with an operand. -/
theorem Goes.callStatement (h : Goes env Production.callStatement s x s')
    (hkind : env.kind s = .mark .dot ∨ (env.kind s).isNameLike = true) :
    ∃ m left s₁ call s₃, x.children = [call] ∧ (deeper env).room = m + 1 ∧
    env.depth + 1 < env.limit ∧
      Goes (deeper env) (postfixOf (Production.expressionUpTo m Precedence.lowest)) s left s₁ ∧
      Goes (deeper env) (Production.iterate
        (Production.extendOf (Production.expressionUpTo m) Precedence.lowest) left) s₁ call s₃ ∧
      Goes env Production.endStatement s₃ () s' := by
  obtain ⟨t, t', ht, hrun, ht'⟩ := h
  obtain ⟨t₂, hbody, rfl, rfl⟩ := construct_eq_finish hrun
  obtain ⟨_, t₁, hcontent, hend⟩ := bind_eq_ok hbody
  have hnot : env.kind ({ t with children := [], isPartial := false } : State) ≠
      .keyword .kwCall := by
    show env.tokens.kindAt t.cursor ≠ _
    rw [ht.cursor]
    intro hcall
    replace hcall : env.kind s = .keyword .kwCall := hcall
    rw [hcall] at hkind
    rcases hkind with hkind | hkind
    · cases hkind
    · exact absurd hkind (by decide)
  obtain ⟨found, t₀, hword, hcontent⟩ := bind_eq_ok hcontent
  unfold acceptWord Production.accept Production.atKind at hword
  rw [(Looks.test _).run_bind, if_neg (mt beq_iff_eq.1 hnot)] at hword
  cases hword
  obtain ⟨call, t₃, hexpression, -, ht₃, hchildren⟩ := child_eq_ok Aside.expression.nested hcontent
  obtain ⟨m, hroom, hlimit, left, s₁, hunary, hoperators⟩ :=
    Goes.expressionUpTo (.from (.of_run hexpression) ⟨ht.cursor, ht.blocks, ht.singleLineIfs⟩)
  refine ⟨m, left, s₁, call, t₃, ?_, hroom, hlimit, hunary.unaryOf (not_announcesOperand hkind),
    hoperators, ?_⟩
  · show t₂.children.reverse = _
    rw [(Aside.endStatement.ok hend).children, hchildren]
    rfl
  · exact ⟨t₁, t₂, ht₃, hend, ⟨ht'.cursor, ht'.blocks, ht'.singleLineIfs⟩⟩

/-- Where the first operand of a call is a target with an assignment behind it, the call is an
assignment: what is behind the first operator is the value. -/
theorem leads_assignment_of_target {m : Nat} {left call : Node} {s₃ : State}
    (hroom : (deeper env).room = m + 1) (hleft : Leads (deeper env) leftHandSide s s₁)
    (hoperator : (env.kind s₁).isAssignment = true)
    (hoperators : Goes (deeper env)
      (iterate (extendOf (expressionUpTo m) Precedence.lowest) left) s₁ call s₃)
    (hend : Goes env endStatement s₃ () s') : Leads env assignmentStatement s s' := by
  obtain ⟨p, hp⟩ : ∃ p, Precedence.ofKind? (env.kind s₁) = some p := by
    refine Option.ne_none_iff_exists'.1 fun hnone => ?_
    have hs₃ := hoperators.iterate.operators_none hnone
    rw [← Widens.sees_kind env env s₁ s₃ rfl hs₃, hend.endStatement.1] at hoperator
    cases hoperator
  have hvalue : Leads (deeper env) expression (behind env s₁) s₃ :=
    leads_value_of_operator hroom hoperators.iterate hend.endStatement.2 hp
  have hassign : Leads env (do
      unless (← peek).isAssignment do fail .assignmentOperator
      field .operator tokenLeaf
      field .right (nested expression)) s₁ s₃ := by
    refine .peek ?_
    rw [if_pos hoperator]
    exact .seq (.field .tokenLeaf) (.field (.nested hvalue))
  have hhushed : Flows 0 false {} false endStatement := .endStatement
  have hend' : Leads env endStatement s₃ s' :=
    Widens.leads .endStatement hhushed.hushed (.refl env) hend
  exact .node (.seq (.seq (.field (.nested hleft)) hassign) hend')

/-- An assignment that would be a call, too, needs no more room than the call. -/
theorem leads_assignment_of_call (henv : env.Roomier n env') (hcall : Goes env callStatement s x s')
    (hassignment : Goes env' assignmentStatement s y t) : Leads env assignmentStatement s s' := by
  have hsees {v w : State} (h : Beside v w) : env'.kind w = env.kind v :=
    Widens.sees_kind env env' v w henv.tokens h
  -- the assignment
  obtain ⟨_, t₃, hassign, -⟩ := hassignment.node.bind
  obtain ⟨_, t₁, hleft, hassign⟩ := hassign.bind
  obtain ⟨target, htarget⟩ := hleft.field
  have hoperator : (env'.kind t₁).isAssignment = true := by
    have hpeek := hassign.peek
    split at hpeek
    · assumption
    · obtain ⟨_, _, hfail, -⟩ := hpeek.bind
      exact hfail.fail.elim
  have hkind : env.kind s = .mark .dot ∨ (env.kind s).isNameLike = true := by
    obtain ⟨-, _, _, _, hhead, -⟩ := htarget.nested.leftHandSide
    rw [← hsees (.refl s)]
    exact hhead.targetHead
  -- the call
  obtain ⟨m, left, s₁, call, s₃, -, hroom, hlimit, hoperand, hoperators, hend⟩ :=
    hcall.callStatement hkind
  have hleads := leads_leftHandSide_of_operand henv.nested hlimit hoperand htarget.nested
  have hplace : Beside s₁ t₁ := by
    obtain ⟨_, hgoes⟩ := hleads.goes
    exact (Widens.leads .leftHandSide hushed_leftHandSide henv.nested hgoes).beside htarget.nested
  exact leads_assignment_of_target hroom hleads (by rwa [← hsees hplace]) hoperators hend

end VisualBasic.Production
