import VisualBasic.Proofs.Elements
import VisualBasic.Proofs.WatchedCalls

/-!
# Comparisons in calls

In an expression `=` compares, and at the start of a statement it assigns. A statement that no word
announces is read as a call only where it could not be read as an assignment, and then an operand
with `=` behind it can have been no target. So if the first operator of a call compares by `=`, what
stands on its left is a call that cannot be read as an element.

* `innermostOperation?` — the first operation of an expression.
* `ComparesCall` — what stands on the left of an operation, if it compares by `=`.

Main results:

* `target_of_operand` — the operand in front of an assignment is a target, or a call that is no
  element.
* `comparesCall_of_not_assignment` — what a call compares where there is no assignment.
* `calls_compare` — so it is in the tree of every source.
-/

namespace VisualBasic

namespace Node

mutual

/-- The operation that one comes to last on the way down from an expression by left operands, if it
is an operation at all. -/
def innermostOperation? : Node → Option Node
  | mk info children => match info.kind with
    | .rule .expression => leadingOperation? children
    | .rule .binaryExpression => (leadingOperation? children).or (some (mk info children))
    | _ => none

/-- The same for the first of the nodes. -/
def leadingOperation? : List Node → Option Node
  | [] => none
  | first :: _ => innermostOperation? first

end

/-- If the operation compares by `=`, what is on its left is a call that is no element. -/
def ComparesCall (t : TokenStream) (operation : Node) : Prop :=
  ∃ left operator right, operation.children = [left, operator, right] ∧ left.field = some .left ∧
    operator.field = some .operator ∧
    (operator.kind = .token (.mark .equal) → ∃ call stop, left.children = [call] ∧
      call.kind = .rule .invocation ∧ operator.info.token = some stop ∧ call.IsNoElement t stop)

end Node

namespace Production

open State TokenStream

variable {env env' : Env} {s s₁ s₂ s' t : State} {room n : Nat} {level : Int} {x y : Node}

-- ---------------------------------------------------------------------------
-- Targets
-- ---------------------------------------------------------------------------

/-- What can be assigned to. -/
def assignable (x : Node) : Bool := x.isRule [.identifier, .memberAccess, .elementAccess]

theorem callable_congr (h : y.kind = x.kind) : callable y = callable x := by
  unfold callable Node.isRule
  rw [h]

/-- A parenthesis of a target leads where indices do, or else where a call does. -/
theorem leadsTo_targetStep (inner : Node) (hparen : env.kind s = .mark .leftParen)
    (h : Leads env (if env.tokens.assignmentFollowsParens 0 s.cursor = true then
      elementAccessOf expression inner else callOrIndexOf expression inner) s s') :
    ∃ w, LeadsTo env (targetStep inner) s (some w) s' ∧
      ((env.tokens.assignmentFollowsParens 0 s.cursor = true ∨ callable inner = false) ∧
          w.kind = .rule .elementAccess ∨
        env.tokens.assignmentFollowsParens 0 s.cursor = false ∧ callable inner = true ∧
          w.kind = .rule .invocation) := by
  obtain ⟨z, hz⟩ := (Leads.targetStep_parens hparen h).leadsTo (.targetStep inner)
    (hushed_targetStep inner) (.refl env)
  obtain ⟨w, rfl, hw⟩ := hz.goes.targetStep_parens hparen
  refine ⟨w, hz, ?_⟩
  split at hw
  · exact .inl ⟨.inl ‹_›, Goes.kind_eq_of_construct hw⟩
  · rename_i hfollows
    rw [callOrIndexOf_eq] at hw
    split at hw
    · exact .inr ⟨Bool.eq_false_iff.2 hfollows, ‹_›, Goes.kind_eq_of_construct hw⟩
    · exact .inl ⟨.inr (Bool.eq_false_iff.2 ‹_›), Goes.kind_eq_of_construct hw⟩

theorem kind_beside (h : Beside s t) : env.kind t = env.kind s := Widens.sees_kind env env s t rfl h

theorem assignable_of_kind (h : x.kind = .rule .elementAccess) : assignable x = true := by
  unfold assignable Node.isRule
  rw [h]
  rfl

/-- What is read as an element is one, and can be assigned to. -/
theorem exists_element {inner : Node} (hparen : env.kind s = .mark .leftParen)
    (h : Leads env (elementAccessOf expression inner) s s')
    (hindices : env.tokens.assignmentFollowsParens 0 s.cursor = true ∨ callable inner = false) :
    ∃ w, LeadsTo env (targetStep inner) s (some w) s' ∧ assignable w = true := by
  have hsteps : Leads env (if env.tokens.assignmentFollowsParens 0 s.cursor = true then
      elementAccessOf expression inner else callOrIndexOf expression inner) s s' := by
    split
    · exact h
    · rw [callOrIndexOf_eq, if_neg (Bool.eq_false_iff.1 (hindices.resolve_left ‹_›))]
      exact h
  obtain ⟨w, hw, ⟨-, hrule⟩ | ⟨hfollows, hcall, -⟩⟩ := leadsTo_targetStep inner hparen hsteps
  · exact ⟨w, hw, assignable_of_kind hrule⟩
  · rcases hindices with hindices | hindices
    · cases hindices.symm.trans hfollows
    · cases hindices.symm.trans hcall

/-- Arguments with an assignment behind them are indices, if none of them has a name, none is left
out, and no line ends among them. -/
theorem indices_of_arguments {list : Node}
    (hrun : argumentsOf (expressionUpTo room Precedence.lowest) (deeper env) s = .ok list s')
    (hassign : (env.kind s').isAssignment = true) (hnames : ¬list.NamesArgument)
    (homits : ¬list.OmitsArgument)
    (hline : ∀ k, s.cursor < k → k < s'.cursor → env.tokens.kindAt k ≠ .newline) (object : Node) :
    env.tokens.assignmentFollowsParens 0 s.cursor = true ∧
      Leads env (elementAccessOf expression object) s s' := by
  have hencloses : (deeper env).tokens.Encloses s.cursor s'.cursor :=
    encloses_arguments (.of_run hrun)
  exact ⟨hencloses.assignment hassign hline,
    .nodeFrom (.seq (.field (.wrap _ _)) (leads_indices_of_list hrun hnames homits hline))⟩

/-- The last part of an operand is that of a target, or a call that is no element. -/
theorem last_part {inner inner' : Node} (hkind : inner'.kind = inner.kind)
    (hparen : env.kind s = .mark .leftParen)
    (h : Goes env (callOrIndexOf (expressionUpTo room Precedence.lowest) inner) s x s')
    (hassign : (env.kind s').isAssignment = true) :
    (x.kind = .rule .invocation ∧ x.IsNoElement env.tokens s'.cursor) ∨
      ∃ w, LeadsTo env (targetStep inner') s (some w) s' ∧ assignable w = true := by
  have hcallable := callable_congr hkind
  by_cases hinner : callable inner = true
  · rw [callOrIndexOf_eq, if_pos hinner] at h
    obtain ⟨hx, hparts⟩ := h.callParts
    cases hparts with
    | @types types t mem kind _ _ => exact .inl ⟨hx, types, mem, .inl kind⟩
    | @list list u t mem kind firstToken run start stop =>
      by_cases hplain : list.NamesArgument ∨ list.OmitsArgument ∨
          ∃ k, s.cursor < k ∧ k < s'.cursor ∧ env.tokens.kindAt k = .newline
      · refine .inl ⟨hx, list.inField .arguments, mem, .inr ⟨?_, ?_⟩⟩
        · rwa [Node.kind_inField]
        · unfold Node.NamesArgument Node.OmitsArgument
          rwa [Node.children_inField, Node.firstToken_inField, firstToken]
      · rw [not_or, not_or] at hplain
        obtain ⟨hnames, homits, hline⟩ := hplain
        have honeLine (k : Nat) (hk : u.cursor < k) (hk' : k < t.cursor) :
            env.tokens.kindAt k ≠ .newline := fun hnewline =>
          hline ⟨k, by rwa [← start.cursor], by rwa [stop.cursor], hnewline⟩
        have hassign' : (env.kind t).isAssignment = true := by rwa [kind_beside stop.symm]
        obtain ⟨hfollows, hindices⟩ :=
          indices_of_arguments run hassign' hnames homits honeLine inner'
        rw [start.cursor] at hfollows
        exact .inr (exists_element hparen ((hindices.from start.symm).to stop) (.inl hfollows))
  · have hinner' : callable inner' = false := by
      rw [hcallable]
      exact Bool.eq_false_iff.2 hinner
    have hindices := leads_callOrIndexOf h hcallable
    rw [callOrIndexOf_eq, if_neg (Bool.eq_false_iff.1 hinner')] at hindices
    exact .inr (exists_element hparen hindices (.inr hinner'))

theorem LeadsTo.to {α : Type} {p : Parse α} {a : α} (h : LeadsTo env p s a s₁)
    (hplace : Beside s₁ s') : LeadsTo env p s a s' := by
  intro t ht
  obtain ⟨t', hrun, ht'⟩ := h t ht
  exact ⟨t', hrun, hplace.symm.trans ht'⟩

section

variable {step : Node → Parse (Option Node)}

/-- A repetition goes on behind its first round. -/
theorem LeadsTo.more {count : Nat} {z : Node} (h : LeadsTo env (step x) s (.some y) s₁)
    (hrest : LeadsTo env (iterateUpTo step count y) s₁ z s') :
    LeadsTo env (iterateUpTo step (count + 1) x) s z s' := by
  rw [iterateUpTo_succ]
  exact .bind h hrest

/-- A repetition without a round gives what it began with. -/
theorem LeadsTo.stop (h : LeadsTo env (step x) s none s) (count : Nat) :
    LeadsTo env (iterateUpTo step count x) s x s := by
  cases count with
  | zero => exact .pure x
  | succ count =>
    rw [iterateUpTo_succ]
    exact .bind h (.pure x)

end

/-- What is read from `s` to `s'` as the parts of a target behind `inner` can be assigned to. -/
def LeadsTarget (env : Env) (count : Nat) (inner : Node) (s s' : State) : Prop :=
  ∃ target, LeadsTo env (iterateUpTo targetStep count inner) s target s' ∧ assignable target = true

theorem LeadsTarget.more {count : Nat} {inner w : Node}
    (hw : LeadsTo env (targetStep inner) s (some w) s₁)
    (h : LeadsTarget env count w s₁ s') : LeadsTarget env (count + 1) inner s s' := by
  obtain ⟨target, htarget, hrule⟩ := h
  exact ⟨target, .more hw htarget, hrule⟩

/-- A target ends where neither a member nor a parenthesis follows. -/
theorem LeadsTarget.stop {inner : Node} (hdot : env.kind s ≠ .mark .dot)
    (hparen : env.kind s ≠ .mark .leftParen) (hplace : Beside s s') (h : assignable inner = true)
    (count : Nat) : LeadsTarget env count inner s s' :=
  ⟨inner, (LeadsTo.stop (leadsTo_targetStep_none hdot hparen inner) count).to hplace, h⟩

/-- A member of an operand is a member of a target, too. -/
theorem member_part {inner : Node} (inner' : Node) (hdot : env.kind s = .mark .dot)
    (h : Goes env (memberAccess inner) s y s₁) :
    ∃ w, LeadsTo env (targetStep inner') s (some w) s₁ ∧ w.kind = y.kind ∧ assignable w = true := by
  have hleads : Leads env (targetStep inner') s s₁ :=
    .targetStep_member hdot (leads_memberAccess h inner')
  obtain ⟨z, hz⟩ := hleads.leadsTo (.targetStep inner') (hushed_targetStep inner') (.refl env)
  obtain ⟨w, rfl, hw⟩ := hz.goes.targetStep_member hdot
  have hkind : w.kind = .rule .memberAccess := Goes.kind_eq_of_construct hw
  refine ⟨w, hz, hkind.trans (Goes.kind_eq_of_construct h).symm, ?_⟩
  unfold assignable Node.isRule
  rw [hkind]
  rfl

/-- Parentheses with more of the operand behind them have no assignment behind them, so a target
reads them as the operand does. -/
theorem inner_part {inner inner' : Node} (hkind : inner'.kind = inner.kind)
    (hparen : env.kind s = .mark .leftParen)
    (h : Goes env (callOrIndexOf (expressionUpTo room Precedence.lowest) inner) s y s₁)
    (hmore : env.kind s₁ = .mark .dot ∨ env.kind s₁ = .mark .leftParen) :
    ∃ w, LeadsTo env (targetStep inner') s (some w) s₁ ∧ w.kind = y.kind := by
  have hnot : (env.kind s₁).isAssignment = false := by
    rcases hmore with hkind | hkind
    all_goals
      rw [hkind]
      rfl
  have hfollows := not_assignmentFollowsParens h hnot
  have hcallable := callable_congr hkind
  have hsteps : Leads env (if env.tokens.assignmentFollowsParens 0 s.cursor = true then
      elementAccessOf expression inner' else callOrIndexOf expression inner') s s₁ := by
    rw [hfollows]
    exact leads_callOrIndexOf h hcallable
  obtain ⟨w, hw, hrule⟩ := leadsTo_targetStep inner' hparen hsteps
  refine ⟨w, hw, ?_⟩
  rw [callOrIndexOf_eq, ← hcallable] at h
  rcases hrule with ⟨hindices, hrule⟩ | ⟨-, hinner, hrule⟩
  · rcases hindices with hindices | hindices
    · cases hindices.symm.trans hfollows
    · rw [hindices] at h
      exact hrule.trans (Goes.kind_eq_of_construct h).symm
  · rw [hinner] at h
    exact hrule.trans (Goes.kind_eq_of_construct h).symm

/-- An operand with an assignment behind it is a target, or a call that is no element. The induction
is on the parts of the operand; what is behind a part tells whether it is the last one. -/
theorem target_of_operand {count : Nat} {inner inner' : Node} (hkind : inner'.kind = inner.kind)
    (h : Goes env (iterateUpTo (postfixStep (expressionUpTo room Precedence.lowest)) count
      inner) s x s')
    (hassign : (env.kind s').isAssignment = true)
    (hfirst : env.kind s ≠ .mark .dot → env.kind s ≠ .mark .leftParen → assignable inner' = true) :
    (x.kind = .rule .invocation ∧ x.IsNoElement env.tokens s'.cursor) ∨
      LeadsTarget env count inner' s s' := by
  induction count generalizing s inner inner' with
  | zero =>
    have hplace := h.pure.2
    rw [kind_beside hplace] at hassign
    have hends : env.kind s ≠ .mark .dot ∧ env.kind s ≠ .mark .leftParen := by
      constructor
      all_goals
        intro hkind
        rw [hkind] at hassign
        cases hassign
    exact .inr (.stop hends.1 hends.2 hplace (hfirst hends.1 hends.2) 0)
  | succ count ih =>
    rcases h.round with ⟨hstep, rfl⟩ | ⟨y, s₁, hstep, hrest⟩
    · cases hstep.operandPart with
      | none hdot hparen hplace =>
        exact .inr (.stop hdot hparen hplace (hfirst hdot hparen) (count + 1))
    · cases hstep.operandPart with
      | member hdot hmember =>
        obtain ⟨w, hw, hkinds, hrule⟩ := member_part inner' hdot hmember
        exact (ih hkinds hrest fun _ _ => hrule).imp_right (.more hw)
      | parens hparen hcall =>
        by_cases hmore : env.kind s₁ = .mark .dot ∨ env.kind s₁ = .mark .leftParen
        · obtain ⟨w, hw, hkinds⟩ := inner_part hkind hparen hcall hmore
          refine (ih hkinds hrest fun hdot hparen => ?_).imp_right (.more hw)
          exact (hmore.elim hdot hparen).elim
        · rw [not_or] at hmore
          obtain ⟨rfl, hplace⟩ :=
            (LeadsTo.stop (leadsTo_postfixStep_none hmore.1 hmore.2 y) count).unique hrest
          rw [kind_beside hplace] at hassign
          rw [hplace.cursor]
          refine (last_part hkind hparen hcall hassign).imp_right ?_
          rintro ⟨w, hw, hrule⟩
          exact .more hw (.stop hmore.1 hmore.2 hplace hrule count)

-- ---------------------------------------------------------------------------
-- Operators
-- ---------------------------------------------------------------------------

theorem innermostOperation?_of_expression (h : x.kind = .rule .expression) :
    x.innermostOperation? = Node.leadingOperation? x.children := by
  obtain ⟨info, children⟩ := x
  change info.kind = _ at h
  rw [Node.innermostOperation?, h]
  rfl

theorem innermostOperation?_of_operation (h : x.kind = .rule .binaryExpression) :
    x.innermostOperation? = (Node.leadingOperation? x.children).or (some x) := by
  obtain ⟨info, children⟩ := x
  change info.kind = _ at h
  rw [Node.innermostOperation?, h]
  rfl

/-- An operation at a token, of two operands of which the left one is given. -/
structure OperatesAt (env : Env) (s : State) (left operation : Node) : Prop where
  kind : operation.kind = .rule .binaryExpression
  children : ∃ operator right : Node, operation.children = [left.inField .left, operator, right] ∧
    operator.kind = .token (env.kind s) ∧ operator.info.token = some s.cursor ∧
      operator.field = some .operator

/-- An operator makes an operation of what is on its left. -/
theorem extendOf_eq_ok (hrun : extendOf (expressionUpTo room) level x env s = .ok (some y) s') :
    y.kind = .rule .expression ∧
      ∃ operation, y.children = [operation] ∧ OperatesAt env s x operation := by
  unfold extendOf at hrun
  rw [Looks.peek.run_bind] at hrun
  cases hlevel : Precedence.ofKind? (env.kind s) with
  | none =>
    rw [hlevel] at hrun
    cases hrun
  | some precedence =>
    rw [hlevel] at hrun
    dsimp only at hrun
    split at hrun
    · cases hrun
    · obtain ⟨operation, s₁, hoperation, hwrap⟩ := bind_eq_ok hrun
      rw [map_eq_pure_bind] at hwrap
      obtain ⟨_, s₂, hwrap, hpure⟩ := bind_eq_ok hwrap
      cases hpure
      unfold wrap nodeFrom at hwrap
      obtain ⟨_, hattach, rfl, -⟩ := construct_eq_finish hwrap
      cases hattach
      refine ⟨rfl, operation, rfl, ?_⟩
      rw [Parse.nodeFrom_eq] at hoperation
      obtain ⟨s₃, hbody, rfl, -⟩ := construct_eq_finish hoperation
      obtain ⟨_, s₄, hattach, hbody⟩ := bind_eq_ok hbody
      cases hattach
      obtain ⟨_, s₅, hoperator, hright⟩ := bind_eq_ok hbody
      cases hoperator
      obtain ⟨right, _, -, -, -, hchildren⟩ := field_eq_ok (Aside.expressionUpTo _ _).nested hright
      refine ⟨rfl, (Node.leaf (.token (env.kind s)) (env.tokens.get s.cursor).span s.cursor).inField
        .operator, right.inField .right, ?_, ?_, ?_, ?_⟩
      · show s₃.children.reverse = _
        rw [hchildren]
        rfl
      · rw [Node.kind_inField]
        rfl
      · rw [Node.token_inField]
        rfl
      · rw [Node.field_inField]

theorem innermostOperation?_inField (f : Field) (hx : x.kind = .rule .expression) :
    (x.inField f).innermostOperation? = x.innermostOperation? := by
  rw [innermostOperation?_of_expression hx, innermostOperation?_of_expression
    (by rwa [Node.kind_inField]),
    Node.children_inField]

/-- The operators of a row leave the first operation in its place. -/
theorem innermost_of_operators {count : Nat} (hx : x.kind = .rule .expression)
    (hrun : operators room level count x env s = .ok y s') :
    y.kind = .rule .expression ∧ ∀ b, y.innermostOperation? = some b →
      x.innermostOperation? = some b ∨ x.innermostOperation? = none ∧ OperatesAt env s x b := by
  induction count generalizing s x with
  | zero =>
    cases hrun
    exact ⟨hx, fun _ => .inl⟩
  | succ count ih =>
    unfold operators at hrun
    rw [iterateUpTo_succ] at hrun
    obtain ⟨z, s₁, hstep, hrest⟩ := bind_eq_ok hrun
    cases z with
    | none =>
      cases hrest
      exact ⟨hx, fun _ => .inl⟩
    | some z =>
      obtain ⟨hz, operation, hchildren, hoperates⟩ := extendOf_eq_ok hstep
      obtain ⟨operator, right, hoperands, -⟩ := hoperates.children
      have hinner : z.innermostOperation? = x.innermostOperation?.or (some operation) := by
        rw [innermostOperation?_of_expression hz, hchildren, Node.leadingOperation?,
          innermostOperation?_of_operation hoperates.kind, hoperands, Node.leadingOperation?,
          innermostOperation?_inField _ hx]
      obtain ⟨hy, hfirst⟩ := ih hz hrest
      refine ⟨hy, fun b hb => ?_⟩
      cases hnone : x.innermostOperation? with
      | none =>
        rw [hnone] at hinner
        rcases hfirst b hb with hsame | ⟨hno, -⟩
        · cases hinner.symm.trans hsame
          exact .inr ⟨rfl, hoperates⟩
        · cases hinner.symm.trans hno
      | some c =>
        rw [hnone] at hinner
        rcases hfirst b hb with hsame | ⟨hno, -⟩
        · exact .inl (hinner.symm.trans hsame)
        · cases hinner.symm.trans hno

-- ---------------------------------------------------------------------------
-- Comparisons
-- ---------------------------------------------------------------------------

theorem Goes.of_wrap {r : Rule} (h : Goes env (Production.wrap r x) s y s') :
    y.kind = .rule r ∧ y.children = [x] := by
  obtain ⟨t, t', -, hrun, -⟩ := h
  unfold Production.wrap Production.nodeFrom at hrun
  obtain ⟨_, hattach, rfl, -⟩ := construct_eq_finish hrun
  cases hattach
  exact ⟨rfl, rfl⟩

theorem innermost_of_operand (hx : x.kind = .rule .expression) (h : x.children = [y])
    (hy : y.innermostOperation? = none) : x.innermostOperation? = none := by
  rw [innermostOperation?_of_expression hx, h, Node.leadingOperation?, hy]

/-- What an operand may be that begins like a target. -/
def operandLike (x : Node) : Bool :=
  x.isRule [.identifier, .memberAccess, .elementAccess, .invocation]

theorem innermostOperation?_of_operandLike (h : operandLike x = true) :
    x.innermostOperation? = none := by
  obtain ⟨info, children⟩ := x
  obtain ⟨r, hr, hkind⟩ := List.any_eq_true.1 h
  rw [beq_iff_eq] at hkind
  change info.kind = _ at hkind
  rw [Node.innermostOperation?, hkind]
  simp only [List.mem_cons, List.not_mem_nil, or_false] at hr
  rcases hr with rfl | rfl | rfl | rfl <;> rfl

theorem operandLike_of_construct {r : Rule} {first : Nat} {body : Parse Unit}
    (h : Goes env (construct r first body) s x s')
    (hr : [Rule.identifier, .memberAccess, .elementAccess, .invocation].contains r = true) :
    operandLike x = true := by
  refine List.any_eq_true.2 ⟨r, List.contains_iff_mem.1 hr, beq_iff_eq.2 ?_⟩
  exact Goes.kind_eq_of_construct h

theorem Goes.operandLike_parts {count : Nat} {expression : Parse Node} (hx : operandLike x = true)
    (h : Goes env (iterateUpTo (postfixStep expression) count x) s y s') :
    operandLike y = true := by
  induction count generalizing s x with
  | zero =>
    rw [h.pure.1]
    exact hx
  | succ count ih =>
    rcases h.round with ⟨-, rfl⟩ | ⟨z, s₁, hstep, hrest⟩
    · exact hx
    · refine ih ?_ hrest
      cases hstep.operandPart with
      | member _ hmember => exact operandLike_of_construct hmember rfl
      | parens _ hcall =>
        rw [callOrIndexOf_eq] at hcall
        split at hcall
        · exact operandLike_of_construct hcall rfl
        · exact operandLike_of_construct hcall rfl

theorem Goes.assignable_targetHead (h : Goes env Production.targetHead s x s') :
    assignable x = true ∧ operandLike x = true := by
  have hrule : x.kind = .rule .identifier ∨ x.kind = .rule .memberAccess := by
    have hpeek := h.peek
    split at hpeek
    · obtain ⟨t, t', -, hrun, -⟩ := hpeek
      exact .inr (node_eq_ok hrun).1
    · split at hpeek
      · obtain ⟨t, t', -, hrun, -⟩ := hpeek
        cases hrun
        exact .inl rfl
      · exact hpeek.fail.elim
  unfold assignable operandLike Node.isRule
  rcases hrule with hrule | hrule <;> rw [hrule] <;> exact ⟨rfl, rfl⟩

theorem LeadsTo.iterate {step : Node → Parse (Option Node)}
    (h : LeadsTo env (iterateUpTo step (env.tokens.size - s.cursor) x) s y s') :
    LeadsTo env (Production.iterate step x) s y s' := by
  intro t ht
  rw [Production.iterate, ht.cursor]
  exact h t ht

/-- A call that no word announces and that is no assignment compares only what is no element. -/
theorem comparesCall_of_not_assignment (hkind : env.kind s = .mark .dot ∨
    (env.kind s).isNameLike = true)
    (hcall : callStatement env s = .ok x s')
    (hfail : ∀ y t, assignmentStatement env s ≠ .ok y t) :
    ∃ e, x.children = [e] ∧ e.kind = .rule .expression ∧ ∀ b, e.innermostOperation? = some b →
      b.ComparesCall env.tokens := by
  obtain ⟨m, left, s₁, call, s₃, hchildren, hroom, hlimit, hoperand, hoperators, hend⟩ :=
    (Goes.of_run hcall).callStatement hkind
  obtain ⟨first, s₂, hprimary, hrest⟩ := hoperand.bind
  obtain ⟨inner, s₄, hparts, hwrap⟩ := hrest.bind
  have hhead := leadsTo_targetHead hprimary hkind
  obtain ⟨hfirst, hfirst'⟩ := hhead.goes.assignable_targetHead
  obtain ⟨hleft, hleftChildren⟩ := hwrap.of_wrap
  have hinner : left.innermostOperation? = none :=
    innermost_of_operand hleft hleftChildren
      (innermostOperation?_of_operandLike (hparts.iterate.operandLike_parts hfirst'))
  obtain ⟨t, t', ht, hrun, -⟩ := hoperators.iterate
  obtain ⟨hkindCall, hoperation⟩ := innermost_of_operators hleft hrun
  refine ⟨call, hchildren, hkindCall, fun b hb => ?_⟩
  rcases hoperation b hb with hsome | ⟨-, hoperates⟩
  · cases hinner.symm.trans hsome
  obtain ⟨operator, right, hoperands, hoperator, htoken, hfield⟩ := hoperates.children
  refine ⟨_, operator, right, hoperands, Node.field_inField _ _, hfield, fun hequal => ?_⟩
  have hequal' : env.kind s₁ = .mark .equal := by
    rw [← NodeKind.token.inj (hoperator.symm.trans hequal)]
    exact (Widens.sees_kind env (deeper env) s₁ t rfl ht).symm
  have hplace : Beside s₄ s₁ := hwrap.wrap
  have hassign : ((deeper env).kind s₄).isAssignment = true := by
    rw [← Widens.sees_kind (deeper env) (deeper env) s₄ s₁ rfl hplace]
    exact (congrArg TokenKind.isAssignment hequal').trans rfl
  rcases target_of_operand rfl hparts.iterate hassign fun _ _ => hfirst with
    ⟨hrule, hno⟩ | ⟨target, htarget, hrule⟩
  · refine ⟨inner, t.cursor, by rw [Node.children_inField, hleftChildren], hrule, htoken, ?_⟩
    rw [ht.cursor, hplace.cursor]
    exact hno
  · have hleads : Leads (deeper env) leftHandSide s s₄ :=
      .leftHandSide hlimit hhead htarget.iterate hrule
    have hassignment := leads_assignment_of_target hroom (hleads.to hplace)
      (by rw [hequal']; rfl) hoperators hend
    obtain ⟨y, t, hrun, -⟩ := hassignment s (.refl s)
    exact absurd hrun (hfail y t)

end Production

-- ---------------------------------------------------------------------------
-- Every tree
-- ---------------------------------------------------------------------------

/-- What a call compares at the start of its expression cannot be read as an element. -/
def ComparesNoElement (t : TokenStream) (n : Node) : Prop :=
  ∃ e, n.children = [e] ∧ e.kind = .rule .expression ∧
    ∀ b, e.innermostOperation? = some b → b.ComparesCall t

/-- Calls that begin with a name or with a dot are watched for what they compare. -/
def comparisons (t : TokenStream) : Watch where
  tokens := t
  watches r := r == .callStatement
  fine n :=
  t.kindAt n.info.firstToken = .mark .dot ∨ (t.kindAt n.info.firstToken).isNameLike = true →
    ComparesNoElement t n
  inField {n} f h := by
    unfold ComparesNoElement
    rw [Node.firstToken_inField, Node.children_inField]
    exact h

instance watchesCalls_comparisons (t : TokenStream) : WatchesCalls (comparisons t) where
  unwatched r hr := by
    cases r
    case callStatement => cases hr
    all_goals rfl
  announced env s n s' ht hdot hname hrun := by
    obtain rfl : env.tokens = t := ht
    obtain ⟨-, hfirst⟩ := Production.node_eq_ok hrun
    rintro (hkind | hkind)
    all_goals rw [hfirst] at hkind
    · exact absurd hkind hdot
    · cases hname.symm.trans hkind
  unannounced env s n s' ht hfail hrun := by
    obtain rfl : env.tokens = t := ht
    obtain ⟨-, hfirst⟩ := Production.node_eq_ok hrun
    intro hkind
    rw [hfirst] at hkind
    exact Production.comparesCall_of_not_assignment hkind hrun hfail

/-- If a call that begins with a name or with a dot compares by `=` first of all, then what is
compared is a call that cannot be read as an element: it has type arguments, an argument has a name
or is left out, or a line ends in its parentheses. -/
def CallsCompare (t : TokenStream) (root : Node) : Prop :=
  ∀ n ∈ root.preorder, n.kind = .rule .callStatement →
    t.kindAt n.info.firstToken = .mark .dot ∨ (t.kindAt n.info.firstToken).isNameLike = true →
    ComparesNoElement t n

/-- In the tree of every source, no call compares by `=` what could be assigned to. -/
theorem calls_compare (source : List Char) (tokens : TokenStream) (limit : Nat) :
    CallsCompare tokens (Tree.ofTokens source tokens limit).root :=
  fun _ hn hkind => Watch.fine_of_mem_ofTokens (w := comparisons tokens) hn hkind rfl

/-- An assignment to an element, with a line that may end in the index. -/
def elementAssigned (text : String) : List Char :=
  ("Class C\nSub F()\nf(g(1," ++ text ++ "2)) = 3\nEnd Sub\nEnd Class\n").toList

-- The statement is decided as a whole, and the instance for it is large.
set_option synthInstance.maxSize 1000 in
/-- A line that ends in the index makes a comparison of an assignment. -/
theorem exists_comparingCall :
    (∃ n ∈ (Tree.parse (elementAssigned " ")).root.preorder, n.kind = .rule .assignmentStatement) ∧
    ∃ n ∈ (Tree.parse (elementAssigned " \n")).root.preorder, n.kind = .rule .callStatement ∧
      (∀ c ∈ n.children, c.kind ≠ .token (.keyword .kwCall)) ∧
      ((TokenStream.ofText (elementAssigned " \n")).kindAt n.info.firstToken).isNameLike = true ∧
      ∃ e ∈ n.children, ∃ b ∈ e.innermostOperation?.toList, ∃ left ∈ b.children,
      left.field = some .left ∧
        ∃ operator ∈ b.children, operator.kind = .token (.mark .equal) ∧
        ∃ call ∈ left.children, call.kind = .rule .invocation ∧
        ∃ stop ∈ operator.info.token.toList,
          (TokenStream.ofText (elementAssigned " \n")).kindAt (stop - 1) = .mark .rightParen := by
  decide +kernel

end VisualBasic
