import VisualBasic.Proofs.Places
import VisualBasic.Proofs.QuietStatements
import VisualBasic.Proofs.WideGrammar

/-!
# Indices that might be arguments

A parenthesis behind a name holds indices or arguments. Both are expressions with commas between
them, but an argument is a level deeper than an index, may be left out, and may have a name. Where
the tokens can be read as indices if there is enough room for them, they can be read as such within
the room in which they are read as arguments.

Main results:

* `Goes.expressionUpTo`, `Goes.argumentOf`, `Goes.argumentLoop` — the places that an expression and
  a list of arguments go through.
* `leads_indices_of_arguments` — indices need no more room than arguments.
* `leads_elementAccess_of_invocation` — nor does an element need more than a call.
-/

namespace VisualBasic.Production

open State

variable {env env' : Env} {s s₁ s₂ s' t : State} {room n : Nat} {level : Int} {x y : Node}

-- ---------------------------------------------------------------------------
-- Expressions from place to place
-- ---------------------------------------------------------------------------

theorem hushed_expressionUpTo (room : Nat) (level : Int) : Hushed (expressionUpTo room level) := by
  have hphrase : Gives 0 false {} true (expressionUpTo room level) :=
    Phrase.expressionUpTo room level
  exact hphrase.hushed

theorem hushed_expression : Hushed expression := fun env s => hushed_expressionUpTo _ _ env s

/-- An expression with levels of its own is one with the levels that are left. -/
theorem widens_toExpression : Widens n (expressionUpTo room Precedence.lowest) expression :=
  .toRoom fun n => .expressionUpTo room n _

/-- The levels that the tokens behind an operator are looked through for. -/
@[reducible] def deeper (env : Env) : Env := { env with depth := env.depth + 1 }

/-- What an expression begins with goes on to its operators. -/
theorem Goes.expressionUpTo (h : Goes env (expressionUpTo room level) s x s') :
    ∃ m, room = m + 1 ∧ env.depth < env.limit ∧ ∃ left s₁,
      Goes env (unaryOf (Production.expressionUpTo m)) s left s₁ ∧
      Goes env (Production.iterate (extendOf (Production.expressionUpTo m) level) left) s₁
        x s' := by
  cases room with
  | zero =>
    obtain ⟨t, t', -, hrun, -⟩ := h
    cases hrun
  | succ m =>
    obtain ⟨_, s₀, hcheck, hrest⟩ := h.bind
    obtain ⟨hdepth, hs₀⟩ := hcheck.checkDepth
    obtain ⟨left, s₁, hleft, hoperators⟩ := hrest.bind
    exact ⟨m, rfl, hdepth, left, s₁, hleft.from hs₀, hoperators⟩

/-- A token that announces an operand of its own kind. -/
def announcesOperand : TokenKind → Bool
  | .keyword .kwNot | .keyword .kwAddressOf | .mark .minus | .mark .plus
  | .keyword .kwTypeOf => true
  | _ => false

/-- Where nothing is announced there is a primary. -/
theorem Goes.unaryOf {operand : Int → Parse Node}
    (h : Goes env (Production.unaryOf operand) s x s')
    (hkind : announcesOperand (env.kind s) = false) :
    Goes env (postfixOf (operand Precedence.lowest)) s x s' := by
  have hpeek := h.peek
  generalize env.kind s = kind at hkind hpeek
  split at hpeek
  case h_6 => exact hpeek
  all_goals cases hkind

/-- What an assignment begins with announces nothing. -/
theorem not_announcesOperand {kind : TokenKind} (h : kind = .mark .dot ∨ kind.isNameLike = true) :
    announcesOperand kind = false := by
  unfold announcesOperand
  split
  case h_6 => rfl
  all_goals
    rcases h with h | h
    · cases h
    · exact absurd h (by decide)

/-- A token with which no expression begins. -/
def endsList : TokenKind → Bool
  | .mark .comma | .mark .rightParen | .newline | .endOfFile | .keyword .kwOf => true
  | _ => false

theorem Goes.not_endsList (h : Goes env (Production.expressionUpTo room level) s x s') :
    endsList (env.kind s) = false := by
  obtain ⟨m, -, -, left, s₁, hleft, -⟩ := h.expressionUpTo
  have hpeek := hleft.peek
  generalize hkind : env.kind s = kind at hpeek
  cases hends : endsList kind with
  | false => rfl
  | true =>
    have hpostfix :
        Goes env (postfixOf (Production.expressionUpTo m Precedence.lowest)) s left s₁ := by
      unfold endsList at hends
      split at hends <;> first | exact hpeek | cases hends
    obtain ⟨primary, s₂, hprimary, -⟩ := hpostfix.bind
    have hfails := hprimary.peek
    rw [hkind] at hfails
    unfold endsList at hends
    split at hends <;> first | exact hfails.fail.elim | cases hends

-- ---------------------------------------------------------------------------
-- What follows an operand
-- ---------------------------------------------------------------------------

/-- The next part of an operand: a member, a call or indices. -/
def postfixStep (expression : Parse Node) (inner : Node) : Parse (Option Node) := do
  match ← peek with
  | .mark .dot => some <$> memberAccess inner
  | .mark .leftParen => some <$> callOrIndexOf expression inner
  | _ => return none

/-- The next part of a target of assignments. -/
def targetStep (inner : Node) : Parse (Option Node) := do
  match ← peek with
  | .mark .dot => some <$> memberAccess inner
  | .mark .leftParen =>
    if ← test fun env s => env.tokens.assignmentFollowsParens 0 s.cursor then
      some <$> elementAccessOf expression inner
    else some <$> callOrIndexOf expression inner
  | _ => return none

/-- How an operand goes on: with a member, with parentheses, or not at all. -/
inductive OperandPart (env : Env) (expression : Parse Node) (inner : Node) (s : State) :
    Option Node → State → Prop
  | member {x : Node} {s' : State} (hdot : env.kind s = .mark .dot)
      (h : Goes env (memberAccess inner) s x s') : OperandPart env expression inner s (some x) s'
  | parens {x : Node} {s' : State} (hparen : env.kind s = .mark .leftParen)
      (h : Goes env (callOrIndexOf expression inner) s x s') :
      OperandPart env expression inner s (some x) s'
  | none {s' : State} (hdot : env.kind s ≠ .mark .dot) (hparen : env.kind s ≠ .mark .leftParen)
      (hplace : Beside s s') : OperandPart env expression inner s none s'

section

variable {expression : Parse Node} {kind : TokenKind}

theorem Goes.operandPart {inner : Node} {y : Option Node}
    (h : Goes env (postfixStep expression inner) s y s') :
    OperandPart env expression inner s y s' := by
  have hpeek := h.peek
  split at hpeek
  · obtain ⟨x, rfl, hx⟩ := hpeek.some
    exact .member ‹_› hx
  · obtain ⟨x, rfl, hx⟩ := hpeek.some
    exact .parens ‹_› hx
  · obtain ⟨rfl, hplace⟩ := hpeek.pure
    exact .none ‹_› ‹_› hplace

theorem leadsTo_postfixStep_none (hdot : env.kind s ≠ .mark .dot)
    (hparen : env.kind s ≠ .mark .leftParen) (inner : Node) :
    LeadsTo env (postfixStep expression inner) s none s := by
  refine .peek ?_
  split
  · exact absurd ‹_› hdot
  · exact absurd ‹_› hparen
  · exact .pure _

theorem leadsTo_targetStep_none (hdot : env.kind s ≠ .mark .dot)
    (hparen : env.kind s ≠ .mark .leftParen) (inner : Node) :
    LeadsTo env (targetStep inner) s none s := by
  refine .peek ?_
  split
  · exact absurd ‹_› hdot
  · exact absurd ‹_› hparen
  · exact .pure _

theorem leadsTo_extendOf_none {operand : Int → Parse Node}
    (h : ∀ p, Precedence.ofKind? (env.kind s) = some p → p.level < level) (left : Node) :
    LeadsTo env (extendOf operand level left) s none s := by
  refine .peek ?_
  split
  · exact .pure _
  · rw [if_pos (h _ ‹_›)]
    exact .pure _

end

/-- The place behind the token at which one is. -/
@[reducible] def behind (env : Env) (s : State) : State := { s with cursor := env.next s.cursor }

theorem beside_behind (htokens : env'.tokens = env.tokens) (h : Beside s t) :
    Beside (behind env s) (behind env' t) := by
  refine ⟨?_, h.blocks, h.singleLineIfs⟩
  show env'.next t.cursor = env.next s.cursor
  rw [h.cursor, Env.next, Env.next, htokens]

theorem kind_behind (h : env.kind s ≠ .endOfFile) :
    env.kind (behind env s) = env.kindAhead s 1 := by
  have hlt : s.cursor < env.tokens.tokens.size := TokenStream.lt_size_of_kindAt_ne h
  show env.tokens.kindAt (env.next s.cursor) = env.tokens.kindAt (s.cursor + 1)
  rw [Env.next, Nat.min_eq_left hlt]

/-- A name with a colon behind it is an expression by itself. -/
theorem Goes.beside_of_colon (h : Goes env (Production.expressionUpTo room level) s x s')
    (hname : (env.kind s).isNameLike = true) (hcolon : env.kindAhead s 1 = .mark .colon) :
    env.kind s' = .mark .colon := by
  obtain ⟨m, -, -, left, s₁, hleft, hoperators⟩ := h.expressionUpTo
  obtain ⟨primary, s₂, hprimary, hrest⟩ := (hleft.unaryOf (not_announcesOperand (.inr hname))).bind
  obtain ⟨inner, s₃, hparts, hwrap⟩ := hrest.bind
  have hat : env.kind (behind env s) = .mark .colon := by
    rw [← hcolon]
    refine kind_behind fun hend => ?_
    rw [hend] at hname
    cases hname
  -- the name is read, and neither a part of it nor an operator follows
  have hfirst : Beside (behind env s) s₂ := by
    have hleaf : Goes env (ruleLeaf .identifier) s primary s₂ := by
      have hpeek := hprimary.peek
      generalize env.kind s = kind at hname hpeek
      split at hpeek
      case h_14 =>
        rw [if_pos hname] at hpeek
        exact hpeek
      all_goals exact absurd hname (by decide)
    obtain ⟨t, t', ht, hrun, ht'⟩ := hleaf
    cases hrun
    exact ⟨ht'.cursor.trans (congrArg env.next ht.cursor), ht'.blocks.trans ht.blocks,
      ht'.singleLineIfs.trans ht.singleLineIfs⟩
  have hkind {t : State} (ht : Beside (behind env s) t) : env.kind t = .mark .colon := by
    rw [← hat]
    exact Widens.sees_kind env env _ t rfl ht
  have hsecond : Beside s₂ s₃ := by
    refine hparts.iterate.stop (leadsTo_postfixStep_none ?_ ?_ primary)
    · rw [hkind hfirst]
      exact nofun
    · rw [hkind hfirst]
      exact nofun
  have hthird := (hfirst.trans hsecond).trans hwrap.wrap
  have hfourth : Beside s₁ s' := by
    refine hoperators.iterate.stop (leadsTo_extendOf_none (fun p hp => ?_) left)
    rw [hkind hthird] at hp
    cases hp
  exact hkind (hthird.trans hfourth)

-- ---------------------------------------------------------------------------
-- Indices and arguments
-- ---------------------------------------------------------------------------

/-- The rounds of a repetition that goes on for as long as its step says so. -/
def whileStep (step : Parse Bool) (_ : Unit) : Parse (Option Unit) := do
  return if ← step then some () else none

/-- A further item behind a comma. -/
def commaStep (item : Parse Unit) : Parse Bool := do
  if ← acceptMark .comma then
    item
    return true
  return false

/-- An argument, or none, and the comma behind it. -/
def argumentStep (expression : Parse Node) : Parse Bool := do
  unless (← atKind (.mark .comma)) || (← atKind (.mark .rightParen)) do
    child (nested (argumentOf expression))
  if ← acceptMark .comma then
    skipNewlines
    return true
  return false

/-- An index of an element. -/
@[reducible] def index : Parse Unit := field .index (nested expression)

theorem Goes.whileStep {step : Parse Bool} {y : Option Unit}
    (h : Goes env (Production.whileStep step ()) s y s') :
    ∃ b, Goes env step s b s' ∧ y = if b then Option.some () else none := by
  obtain ⟨b, s₁, hstep, hpure⟩ := h.bind
  obtain ⟨rfl, hs₁⟩ := hpure.pure
  exact ⟨b, hstep.to hs₁, rfl⟩

theorem Goes.accept {kind : TokenKind} {b : Bool} (h : Goes env (Production.accept kind) s b s') :
    (b = true ∧ env.kind s = kind ∧ Beside (behind env s) s') ∨
      (b = false ∧ env.kind s ≠ kind ∧ Beside s s') := by
  have htest := h.atKind
  split at htest
  · obtain ⟨_, s₁, htake, hpure⟩ := htest.bind
    obtain ⟨rfl, hs₁⟩ := hpure.pure
    exact .inl ⟨rfl, beq_iff_eq.1 ‹_›, htake.take.trans hs₁⟩
  · obtain ⟨rfl, hs₁⟩ := htest.pure
    exact .inr ⟨rfl, mt beq_iff_eq.2 ‹_›, hs₁⟩

theorem Goes.commaStep {item : Parse Unit} {b : Bool}
    (h : Goes env (Production.commaStep item) s b s') :
    (b = true ∧ env.kind s = .mark .comma ∧ Goes env item (behind env s) () s') ∨
      (b = false ∧ env.kind s ≠ .mark .comma ∧ Beside s s') := by
  obtain ⟨found, s₁, haccept, hrest⟩ := h.bind
  rcases haccept.accept with ⟨rfl, hkind, hs₁⟩ | ⟨rfl, hkind, hs₁⟩
  · obtain ⟨_, s₂, hitem, hpure⟩ := hrest.bind
    obtain ⟨rfl, hs₂⟩ := hpure.pure
    exact .inl ⟨rfl, hkind, (hitem.from hs₁).to hs₂⟩
  · obtain ⟨rfl, hs₂⟩ := hrest.pure
    exact .inr ⟨rfl, hkind, hs₁.trans hs₂⟩

theorem Goes.skipNewlines (h : Goes env Production.skipNewlines s () s')
    (hkind : env.kind s ≠ .newline) : Beside s s' := by
  refine h.iterate.stop fun t ht => ⟨t, ?_, ht⟩
  have hlook := Widens.sees_isKind .newline env env s t rfl ht
  dsimp only at hlook
  rw [run_bind]
  unfold Production.atKind
  rw [(Looks.test _).run_bind, hlook, if_neg (mt beq_iff_eq.1 hkind)]
  rfl

/-- Where an argument begins, and what follows it. -/
theorem Goes.argumentStep {expression : Parse Node} {b : Bool}
    (h : Goes env (Production.argumentStep expression) s b s')
    (hkind : endsList (env.kind s) = false) :
    ∃ x s₁, Goes (deeper env) (argumentOf expression) s x s₁ ∧
      ((b = true ∧ env.kind s₁ = .mark .comma ∧
        Goes env Production.skipNewlines (behind env s₁) () s') ∨
        (b = false ∧ env.kind s₁ ≠ .mark .comma ∧ Beside s₁ s')) := by
  have htest := (Goes.atKind h).atKind
  have hcomma : (env.kind s == .mark .comma) = false :=
    beq_eq_false_iff_ne.2 fun he => by rw [he] at hkind; cases hkind
  have hparen : (env.kind s == .mark .rightParen) = false :=
    beq_eq_false_iff_ne.2 fun he => by rw [he] at hkind; cases hkind
  rw [hcomma, hparen] at htest
  obtain ⟨_, s₁, hargument, hrest⟩ := Goes.bind htest
  obtain ⟨x, hargument⟩ := hargument.child
  refine ⟨x, s₁, hargument, ?_⟩
  obtain ⟨found, s₂, haccept, hrest⟩ := hrest.bind
  rcases haccept.accept with ⟨rfl, hkind, hs₂⟩ | ⟨rfl, hkind, hs₂⟩
  · obtain ⟨_, s₃, hskip, hpure⟩ := hrest.bind
    obtain ⟨rfl, hs₃⟩ := hpure.pure
    exact .inl ⟨rfl, hkind, (hskip.from hs₂).to hs₃⟩
  · obtain ⟨rfl, hs₃⟩ := hrest.pure
    exact .inr ⟨rfl, hkind, hs₂.trans hs₃⟩

/-- Where an argument without a name begins, its value does. -/
theorem Goes.argumentOf {expression : Parse Node}
    (h : Goes env (Production.argumentOf expression) s x s') :
    ((env.kind s).isNameLike = true ∧ env.kindAhead s 1 = .mark .colon) ∨
      ∃ y, Goes env expression s y s' := by
  have hbody := h.node.peek.peekAhead.peekAhead
  split at hbody
  · rename_i hnamed
    rw [Bool.and_eq_true, Bool.and_eq_true] at hnamed
    exact .inl ⟨hnamed.1.1, beq_iff_eq.1 hnamed.1.2⟩
  · exact .inr hbody.child

/-- A loop over items behind commas stops, or reads a comma and an item. -/
theorem Goes.commaLoop {item : Parse Unit} {count : Nat}
    (h : Goes env (iterateUpTo (Production.whileStep (Production.commaStep item)) count ())
      s () s') :
    Beside s s' ∨ ∃ fewer s₁, count = fewer + 1 ∧ env.kind s = .mark .comma ∧
      Goes env item (behind env s) () s₁ ∧
      Goes env (iterateUpTo (Production.whileStep (Production.commaStep item)) fewer ())
        s₁ () s' := by
  cases count with
  | zero => exact .inl h.pure.2
  | succ fewer =>
    rcases h.round with ⟨hstep, -⟩ | ⟨_, s₁, hstep, hrest⟩
    · obtain ⟨b, hstep, hb⟩ := hstep.whileStep
      rcases hstep.commaStep with ⟨rfl, -, -⟩ | ⟨-, -, hs'⟩
      · cases hb
      · exact .inl hs'
    · obtain ⟨b, hstep, hb⟩ := hstep.whileStep
      rcases hstep.commaStep with ⟨-, hkind, hitem⟩ | ⟨rfl, -, -⟩
      · exact .inr ⟨fewer, s₁, rfl, hkind, hitem, hrest⟩
      · cases hb

/-- A loop over arguments reads an argument, and goes on if a comma is behind it. -/
theorem Goes.argumentLoop {expression : Parse Node} {count : Nat}
    (h : Goes env
      (iterateUpTo (Production.whileStep (Production.argumentStep expression)) count ()) s
      () s')
    (hbegins : endsList (env.kind s) = false) (hends : env.kind s' = .mark .rightParen) :
    ∃ x s₁, Goes (deeper env) (Production.argumentOf expression) s x s₁ ∧
      ((env.kind s₁ ≠ .mark .comma ∧ Beside s₁ s') ∨
        ∃ fewer s₂, env.kind s₁ = .mark .comma ∧
        Goes env Production.skipNewlines (behind env s₁) () s₂ ∧
          Goes env (iterateUpTo (Production.whileStep (Production.argumentStep expression))
            fewer ()) s₂
            () s') := by
  cases count with
  | zero =>
    rw [Widens.sees_kind env env s' s rfl h.pure.2.symm, hends] at hbegins
    cases hbegins
  | succ fewer =>
    rcases h.round with ⟨hstep, -⟩ | ⟨_, s₂, hstep, hrest⟩
    · obtain ⟨b, hstep, hb⟩ := hstep.whileStep
      obtain ⟨x, s₁, hargument, ⟨rfl, -, -⟩ | ⟨-, hkind, hs'⟩⟩ := hstep.argumentStep hbegins
      · cases hb
      · exact ⟨x, s₁, hargument, .inl ⟨hkind, hs'⟩⟩
    · obtain ⟨b, hstep, hb⟩ := hstep.whileStep
      obtain ⟨x, s₁, hargument, ⟨-, hkind, hskip⟩ | ⟨rfl, -, -⟩⟩ := hstep.argumentStep hbegins
      · exact ⟨x, s₁, hargument, .inr ⟨fewer, s₂, hkind, hskip, hrest⟩⟩
      · cases hb

/-- What follows the question whether there is a token of a kind. -/
theorem LeadsTo.accept {kind : TokenKind} {β : Type} {k : Bool → Parse β} {b : β} {f : Bool}
    (h : LeadsTo env (k f) (if f then behind env s else s) b s')
    (hkind : (env.kind s == kind) = f) :
    LeadsTo env (Production.accept kind >>= k) s b s' := by
  rw [Production.accept, bind_assoc]
  refine .atKind ?_
  subst hkind
  split
  · rename_i hkind
    rw [hkind] at h
    rw [bind_assoc]
    refine .bind .take ?_
    exact .bind (.pure true) h
  · rename_i hkind
    rw [Bool.not_eq_true] at hkind
    rw [hkind] at h
    exact .bind (.pure false) h

theorem leadsTo_commaStep_none {item : Parse Unit} (hkind : env.kind s ≠ .mark .comma) :
    LeadsTo env (whileStep (commaStep item) ()) s none s :=
  .bind (LeadsTo.accept (.pure false) (beq_eq_false_iff_ne.2 hkind)) (.pure _)

/-- A loop over items behind commas goes on behind a comma. -/
theorem leads_commaLoop {item : Parse Unit} {count : Nat} (hkind : env.kind s = .mark .comma)
    (hitem : Leads env item (behind env s) s₁)
    (hrest : Leads env (iterateUpTo (whileStep (commaStep item)) count ()) s₁ s') :
    Leads env (iterateUpTo (whileStep (commaStep item)) (count + 1) ()) s s' := by
  refine .more (y := ()) (.bind (a := true) (.accept ?_ (beq_iff_eq.2 hkind)) (.pure _)) hrest
  exact .bind hitem.unit (.pure true)

section

variable (henv : env.Roomier n env')

include henv

/-- An index that might be an argument needs no more room. -/
theorem leads_index_of_argument
    (hargument : Goes (deeper (deeper env))
      (argumentOf (expressionUpTo room Precedence.lowest)) s x s₁)
    (hindex : Goes env' index s () t) (hcolon : env'.kind t ≠ .mark .colon) :
    Leads env index s s₁ ∧ Beside s₁ t := by
  obtain ⟨y, hindex'⟩ := hindex.field
  rcases hargument.argumentOf with ⟨hname, hahead⟩ | ⟨y, hvalue⟩
  · refine absurd (hindex'.nested.beside_of_colon ?_ ?_) hcolon
    · rw [← hname]
      exact congrArg _ (Widens.sees_kind _ _ s s henv.tokens (.refl s))
    · rw [← hahead]
      exact Widens.sees_kindAhead 1 _ _ s s henv.tokens (.refl s)
  · have hwide : Leads env index s s₁ :=
      .field (widens_toExpression.leads (hushed_expressionUpTo _ _) (.above (deeper env)) hvalue)
    refine ⟨hwide, ?_⟩
    obtain ⟨z, s₂, hrun, hs₂⟩ := hwide s (.refl s)
    have hindices : Leads env' index s s₂ := by
      refine Widens.leads (.field _ (.nested Widens.expression)) ?_ henv (.of_run hrun)
      exact .bind (fun env s => hushed_expression _ _) fun _ => .attach _
    exact hs₂.trans (hindices.beside hindex)

/-- So do all indices that might be arguments. The induction is on the rounds of the loop over
indices. -/
theorem leads_indices_of_arguments {count c : Nat} {u : State}
    (harguments : Goes (deeper env) (iterateUpTo (whileStep (argumentStep
      (expressionUpTo room Precedence.lowest))) count ()) s () s₂)
    (hclose : env.kind s₂ = .mark .rightParen) (hindex : Goes env' index s () t)
    (hmore : Goes env' (iterateUpTo (whileStep (commaStep index)) c ()) t () u)
    (hclose' : env'.kind u = .mark .rightParen) :
    Leads env index s t ∧ Leads env (iterateUpTo (whileStep (commaStep index)) c ()) t s₂ := by
  have hkind {v w : State} (h : Beside v w) : env'.kind w = env.kind v :=
    Widens.sees_kind env env' v w henv.tokens h
  induction c using Nat.strongRecOn generalizing s t count with
  | ind c ih =>
    have hbegins : endsList (env.kind s) = false := by
      obtain ⟨y, hvalue⟩ := hindex.field
      rw [← hkind (.refl s)]
      exact hvalue.nested.not_endsList
    obtain ⟨x, s₁, hargument, hbehind⟩ := harguments.argumentLoop hbegins hclose
    rcases hmore.commaLoop with hstop | ⟨fewer, t', rfl, hcomma, hindex', hmore'⟩
    · -- the last index is the last argument
      have hparen : env'.kind t = .mark .rightParen :=
        (Widens.sees_kind env' env' u t rfl hstop.symm).trans hclose'
      obtain ⟨hleads, hplace⟩ := leads_index_of_argument henv hargument hindex
        (by rw [hparen]; exact nofun)
      refine ⟨hleads.to hplace, ?_⟩
      rw [hkind hplace] at hparen
      rcases hbehind with ⟨-, hs₂⟩ | ⟨fewer, s', hcomma, -, -⟩
      · refine (Leads.stop (leadsTo_commaStep_none ?_) c).to (hplace.symm.trans hs₂)
        rw [← Widens.sees_kind env env t s₁ rfl hplace.symm, hparen]
        exact nofun
      · cases hparen.symm.trans hcomma
    · obtain ⟨hleads, hplace⟩ := leads_index_of_argument henv hargument hindex
        (by rw [hcomma]; exact nofun)
      refine ⟨hleads.to hplace, ?_⟩
      have hcomma' : env.kind t = .mark .comma := by rw [← hkind (.refl t), hcomma]
      have hbehind' : Beside (behind env s₁) (behind env t) :=
        ⟨congrArg env.next hplace.cursor, hplace.blocks, hplace.singleLineIfs⟩
      rcases hbehind with ⟨hnot, -⟩ | ⟨fewer', s', -, hskip, hrest⟩
      · exact absurd ((hkind hplace).symm.trans hcomma) hnot
      · -- no line ends between the comma and the index behind it
        have hindex'' : Goes env' index (behind env t) () t' := by
          refine hindex'.from ⟨?_, rfl, rfl⟩
          exact henv.next t.cursor
        have hline : env.kind (behind env s₁) ≠ .newline := fun hline => by
          obtain ⟨y, hvalue⟩ := hindex''.field
          have hends := hvalue.nested.not_endsList
          rw [show endsList ((deeper env').kind (behind env t)) = true from
            congrArg endsList ((hkind hbehind').trans hline)] at hends
          cases hends
        have hs' := hbehind'.symm.trans (hskip.skipNewlines hline)
        obtain ⟨hnext, hloop⟩ := ih fewer (Nat.lt_succ_self _) (hrest.from hs') hindex'' hmore'
        exact leads_commaLoop hcomma' hnext hloop

end

-- ---------------------------------------------------------------------------
-- In parentheses
-- ---------------------------------------------------------------------------

/-- What is behind an opening parenthesis: the closing one, perhaps with something in front of
it. -/
@[reducible] def bracketed (inner : Parse Unit) : Parse Unit := do
  unless ← atKind (.mark .rightParen) do inner
  expectEnd .rightParen

/-- How what is in parentheses goes on. -/
inductive Bracketed (env : Env) (inner : Parse Unit) (s s' : State) : Prop
  | empty (hclose : env.kind s = .mark .rightParen) (hplace : Beside (behind env s) s')
  | full {t : State} (hsome : env.kind s ≠ .mark .rightParen) (h : Goes env inner s () t)
      (hclose : env.kind t = .mark .rightParen) (hplace : Beside (behind env t) s')

section

variable {inner : Parse Unit} {expression : Parse Node}

theorem Goes.bracketed (h : Goes env (Production.bracketed inner) s () s') :
    Bracketed env inner s s' := by
  have hlist := h.atKind
  split at hlist
  · exact .empty (beq_iff_eq.1 ‹_›) hlist.expectEnd.2
  · obtain ⟨_, t, hinner, hclose⟩ := hlist.bind
    exact .full (mt beq_iff_eq.2 ‹_›) hinner hclose.expectEnd.1 hclose.expectEnd.2

theorem Leads.bracketed_empty (hclose : env.kind s = .mark .rightParen) :
    Leads env (bracketed inner) s (behind env s) := by
  refine .atKind ?_
  rw [if_pos (beq_iff_eq.2 hclose)]
  exact .expectEnd hclose

theorem Leads.bracketed_full (hsome : env.kind s ≠ .mark .rightParen) (h : Leads env inner s t)
    (hclose : env.kind t = .mark .rightParen) : Leads env (bracketed inner) s (behind env t) := by
  refine .atKind ?_
  rw [if_neg (mt beq_iff_eq.1 hsome)]
  exact .seq h (.expectEnd hclose)

theorem Goes.elementAccessOf {object : Node}
    (h : Goes env (Production.elementAccessOf expression object) s x s') :
    env.kind s = .mark .leftParen ∧
      Bracketed env (commaSeparated (Production.field .index expression.nested))
      (behind env s) s' := by
  obtain ⟨_, s₁, hobject, hrest⟩ := h.nodeFrom.bind
  obtain ⟨_, hobject⟩ := hobject.field
  obtain ⟨_, s₂, hopen, hindices⟩ := (hrest.from hobject.wrap).bind
  obtain ⟨hopens, hplace⟩ := hopen.expect
  exact ⟨hopens, Goes.bracketed (hindices.from hplace)⟩

theorem Goes.argumentsOf (h : Goes env (Production.argumentsOf expression) s x s') :
    env.kind s = .mark .leftParen ∧
      Bracketed env (repeatWhile (Production.argumentStep expression)) (behind env s) s' := by
  obtain ⟨_, s₁, hcheck, hnode⟩ := h.bind
  obtain ⟨_, s₂, hopen, harguments⟩ := (hnode.node.from hcheck.checkDepth.2).bind
  obtain ⟨hopens, hplace⟩ := hopen.expect
  exact ⟨hopens, Goes.bracketed (harguments.from hplace)⟩

/-- A call has type arguments in its parentheses, or arguments. -/
theorem Goes.invocationOf {target : Node}
    (h : Goes env (Production.invocationOf expression target) s x s') :
    env.kind (behind env s) = .keyword .kwOf ∨
      ∃ y, Goes (deeper env) (Production.argumentsOf expression) s y s' := by
  obtain ⟨_, s₁, hattach, hrest⟩ := h.nodeFrom.bind
  have harguments := (hrest.from hattach.attach).test (Widens.sees_hasAhead _)
  split at harguments
  · rename_i hahead
    simp only [Env.hasAhead, List.zipIdx_cons, List.zipIdx_nil, List.all_cons, List.all_nil,
      Bool.and_true, Bool.and_eq_true, beq_iff_eq] at hahead
    refine .inl ((kind_behind ?_).trans hahead.2)
    rw [show env.kind s = .mark .leftParen from hahead.1]
    exact nofun
  · obtain ⟨y, harguments⟩ := harguments.field
    exact .inr ⟨y, harguments.nested⟩

end

/-- Indices in the parentheses of a call need no more room than its arguments. -/
theorem leads_elementAccess_of_invocation (henv : env.Roomier n env') {target target' : Node}
    (hcall : Goes env (invocationOf (expressionUpTo room Precedence.lowest) target) s x s')
    (haccess : Goes env' (elementAccessOf expression target') s y t) :
    Leads env (elementAccessOf expression target') s s' := by
  have hkind {v w : State} (h : Beside v w) : env'.kind w = env.kind v :=
    Widens.sees_kind env env' v w henv.tokens h
  have hplace : Beside (behind env s) (behind env' s) := beside_behind henv.tokens (.refl s)
  obtain ⟨hparen, hindices⟩ := haccess.elementAccessOf
  have hopens : env.kind s = .mark .leftParen := (hkind (.refl s)).symm.trans hparen
  rcases hcall.invocationOf with hof | ⟨z, harguments⟩
  · -- no index begins with `Of`
    replace hof : env'.kind (behind env' s) = .keyword .kwOf := (hkind hplace).trans hof
    cases hindices with
    | empty hclose => cases hof.symm.trans hclose
    | full _ hitems =>
      obtain ⟨_, t₁, hindex, -⟩ := hitems.bind
      obtain ⟨w, hvalue⟩ := hindex.field
      have hends := hvalue.nested.not_endsList
      rw [show endsList ((deeper env').kind (behind env' s)) =
        true from congrArg endsList hof] at hends
      cases hends
  · refine .nodeFrom (.seq (.field (.wrap _ _)) (.seq (.expect hopens) ?_))
    cases harguments.argumentsOf.2 with
    | empty hclose hs' =>
      replace hclose : env.kind (behind env s) = .mark .rightParen := hclose
      exact (Leads.bracketed_empty hclose).to hs'
    | @full u hsome hloop hclose hs' =>
      replace hsome : env.kind (behind env s) ≠ .mark .rightParen := hsome
      replace hclose : env.kind u = .mark .rightParen := hclose
      cases hindices with
      | empty hclose' => exact absurd ((hkind hplace).symm.trans hclose') hsome
      | full _ hitems hclose' =>
        obtain ⟨_, t₁, hindex, hmore⟩ := hitems.bind
        obtain ⟨hitem, hrest⟩ := leads_indices_of_arguments henv hloop.iterate hclose
          (hindex.from hplace) hmore.iterate hclose'
        rw [henv.tokens] at hrest
        exact (Leads.bracketed_full hsome (.seq hitem (.iterate hrest)) hclose).to hs'

end VisualBasic.Production
