import VisualBasic.Proofs.CallOrAssignment
import VisualBasic.Proofs.Accessors
import VisualBasic.Proofs.Prefixes

/-!
# Elements and calls

A name with parentheses behind it is an element or a call, and in front of an assignment it has to
be an element. Where arguments stand in the parentheses, they can be read as indices if none of them
has a name and none is left out; and the search for the assignment behind the parentheses gets there
if no line ends in them. So only a few calls are no elements: those, and the calls with type
arguments.

* `Encloses` — where a parenthesis is closed.
* `IsNoElement` — what keeps a call from being read as an element.
* `CallParts` — what there is in a call.

Main results:

* `leads_indices_of_list` — plain arguments can be read as indices.
* `Encloses.assignment` — an assignment behind the parentheses is found if no line ends in them.
* `not_assignmentFollowsParens` — and none is found where the operand goes on.
-/

namespace VisualBasic

namespace TokenStream

variable {t : TokenStream} {n i m j k l : Nat}

theorem Walk.le (h : t.Walk n i m j) : i ≤ j := by
  induction h with
  | stay => exact Nat.le_refl _
  | pass _ _ ih | «open» _ _ ih | close _ _ ih => exact Nat.le_of_succ_le ih

/-- A walk ends where no parenthesis is open. -/
theorem Walk.eq_of_zero (h : t.Walk 0 i m j) : m = 0 ∧ j = i := by
  cases h
  exact ⟨rfl, rfl⟩

/-- A walk on one line finds the token behind the parenthesis that closes the first. -/
theorem Walk.assignmentFollowsParens (h : t.Walk (n + 1) i 0 j) :
    t.assignmentFollowsParens (n + 1) i = (t.kindAt j).isAssignment := by
  generalize hn : n + 1 = open_ at h
  generalize hm : (0 : Nat) = m at h
  induction h generalizing n with
  | stay => exact absurd (hn.trans hm.symm) (Nat.succ_ne_zero n)
  | pass hi _ ih =>
    obtain ⟨hleft, hright, hnewline, hend⟩ := hi
    rw [Production.Phrase.assignmentFollowsParens_eq, ← ih rfl hm]
    split
    · exact absurd ‹_› hleft
    · exact absurd ‹_› hright
    · exact absurd ‹_› hnewline
    · exact absurd ‹_› hend
    · rfl
  | «open» hi _ ih =>
    rw [Production.Phrase.assignmentFollowsParens_eq, hi]
    exact ih rfl hm
  | @close depth _ _ _ hi h ih =>
    rw [Production.Phrase.assignmentFollowsParens_eq, hi]
    cases depth with
    | zero =>
      obtain ⟨-, rfl⟩ := h.eq_of_zero
      rfl
    | succ depth => exact ih rfl hm

/-- A walk to the end of a line finds nothing. -/
theorem Walk.assignmentFollowsParens_of_newline (h : t.Walk n i (l + 1) k)
    (hk : t.kindAt k = .newline) : t.assignmentFollowsParens n i = false := by
  generalize hl : l + 1 = m at h
  induction h with
  | stay => rw [Production.Phrase.assignmentFollowsParens_eq, hk]
  | pass hi _ ih =>
    obtain ⟨hleft, hright, hnewline, hend⟩ := hi
    rw [Production.Phrase.assignmentFollowsParens_eq, ← ih hk hl]
    split
    · exact absurd ‹_› hleft
    · exact absurd ‹_› hright
    · exact absurd ‹_› hnewline
    · exact absurd ‹_› hend
    · rfl
  | «open» hi _ ih =>
    rw [Production.Phrase.assignmentFollowsParens_eq, hi]
    exact ih hk hl
  | @close depth _ _ _ hi h ih =>
    rw [Production.Phrase.assignmentFollowsParens_eq, hi]
    cases depth with
    | zero =>
      obtain ⟨rfl, -⟩ := h.eq_of_zero
      cases hl
    | succ depth => exact ih hk hl

/-- A parenthesis opens at `i`, and the one that closes it is in front of `j`, unless a line ends
before. -/
structure Encloses (t : TokenStream) (i j : Nat) : Prop where
  opens : t.kindAt i = .mark .leftParen
  spans : t.Spans 1 (i + 1) 0 j

theorem Encloses.not_assignment (h : t.Encloses i j) (hj : (t.kindAt j).isAssignment = false) :
    t.assignmentFollowsParens 0 i = false := by
  rw [Production.Phrase.assignmentFollowsParens_eq, h.opens]
  rcases h.spans with hwalk | ⟨k, l, -, hk, hwalk⟩
  · exact hwalk.assignmentFollowsParens.trans hj
  · exact hwalk.assignmentFollowsParens_of_newline hk

theorem Encloses.assignment (h : t.Encloses i j) (hj : (t.kindAt j).isAssignment = true)
    (hline : ∀ k, i < k → k < j → t.kindAt k ≠ .newline) :
    t.assignmentFollowsParens 0 i = true := by
  rw [Production.Phrase.assignmentFollowsParens_eq, h.opens]
  rcases h.spans with hwalk | ⟨k, l, hkj, hk, hwalk⟩
  · exact hwalk.assignmentFollowsParens.trans hj
  · exact absurd hk (hline k hwalk.le hkj)

end TokenStream

namespace Node

/-- How many of the nodes are arguments. -/
def argumentCount (ns : List Node) : Nat := ns.countP (·.kind == .rule .argument)

/-- How many of the nodes are commas. -/
def commaCount (ns : List Node) : Nat := ns.countP (·.kind == .token (.mark .comma))

/-- One of the arguments has a name. -/
def NamesArgument (list : Node) : Prop :=
  ∃ a ∈ list.children, a.kind = .rule .argument ∧ ∃ x ∈ a.children, x.field = some .name

/-- One of the arguments between the commas is left out. -/
def OmitsArgument (list : Node) : Prop :=
  0 < commaCount list.children ∧ argumentCount list.children ≤ commaCount list.children

/-- What keeps the call that `=` at `stop` follows from being an element: there are type arguments,
an argument has a name or is left out, or a line ends in its parentheses. -/
def IsNoElement (t : TokenStream) (stop : Nat) (call : Node) : Prop :=
  ∃ c ∈ call.children, c.kind = .rule .typeArgumentList ∨
    c.kind = .rule .argumentList ∧
      (c.NamesArgument ∨ c.OmitsArgument ∨
        ∃ k, c.info.firstToken < k ∧ k < stop ∧ t.kindAt k = .newline)

end Node

namespace Production

open State TokenStream

variable {env env' : Env} {s s₁ s₂ s' t : State} {room n : Nat} {level : Int} {x y : Node}

/-- An argument without a name is a value. -/
theorem value_of_argument
    (hrun : argumentOf (expressionUpTo room level) env s = .ok x s') :
    (∃ y ∈ x.children, y.field = some .name) ∨
      ∃ y, Goes env (expressionUpTo room level) s y s' := by
  obtain ⟨s₁, hbody, rfl, rfl⟩ := construct_eq_finish hrun
  rw [Looks.peek.run_bind, (Looks.peekAhead 1).run_bind, (Looks.peekAhead 2).run_bind] at hbody
  split at hbody
  · obtain ⟨_, s₂, hname, hbody⟩ := bind_eq_ok hbody
    obtain ⟨name, _, -, -, -, hchildren⟩ := field_eq_ok Aside.identifier hname
    obtain ⟨_, s₃, hcolon, hbody⟩ := bind_eq_ok hbody
    obtain ⟨_, s₄, hequal, hvalue⟩ := bind_eq_ok hbody
    cases hcolon
    cases hequal
    obtain ⟨_, _, -, -, -, hvalue⟩ := child_eq_ok (Aside.expressionUpTo _ _) hvalue
    refine .inl ⟨name.inField .name, ?_, Node.field_inField _ _⟩
    show _ ∈ s₁.children.reverse
    rw [hvalue, List.mem_reverse]
    dsimp only
    rw [hchildren]
    simp
  · obtain ⟨y, t, hvalue, -, ht, -⟩ := child_eq_ok (Aside.expressionUpTo _ _) hbody
    exact .inr ⟨y, { s with children := [], isPartial := false }, t, ⟨rfl, rfl, rfl⟩, hvalue,
      ⟨ht.cursor, ht.blocks, ht.singleLineIfs⟩⟩

/-- A round over arguments: an argument, unless it is left out, and perhaps a comma. -/
theorem argumentStep_eq_ok {b : Bool}
    (hrun : argumentStep (expressionUpTo room level) env s = .ok b s') :
    ∃ s₁ : State,
      ((s₁ = s ∧ endsList (env.kind s) = true) ∨
        ∃ a t, argumentOf (expressionUpTo room level) (deeper env) s = .ok a t ∧
          a.kind = .rule .argument ∧ Beside t s₁ ∧ s₁.children = a :: s.children) ∧
      ((b = false ∧ s' = s₁) ∨
        ∃ comma : Node, b = true ∧ env.kind s₁ = .mark .comma ∧ comma.kind = .token (.mark .comma) ∧
          skipNewlines env { behind env s₁ with children := comma :: s₁.children } =
            .ok () s') := by
  have hcomma {t : State} (hrest : (do
      if ← acceptMark .comma then
        skipNewlines
        return true
      return false) env t = .ok b s') :
      (b = false ∧ s' = t) ∨
        ∃ comma : Node, b = true ∧ env.kind t = .mark .comma ∧ comma.kind = .token (.mark .comma) ∧
          skipNewlines env { behind env t with children := comma :: t.children } = .ok () s' := by
    obtain ⟨found, t₁, hfound, hrest⟩ := bind_eq_ok hrest
    rw [acceptMark, accept, atKind, (Looks.test _).run_bind] at hfound
    split at hfound
    · rename_i hkind
      rw [beq_iff_eq] at hkind
      obtain ⟨_, t₂, htake, hfound⟩ := bind_eq_ok hfound
      cases htake
      cases hfound
      obtain ⟨_, t₃, hskip, hrest⟩ := bind_eq_ok hrest
      cases hrest
      exact .inr ⟨.leaf (.token (env.kind t)) (env.tokens.get t.cursor).span t.cursor, rfl, hkind,
        congrArg NodeKind.token hkind, hskip⟩
    · cases hfound
      cases hrest
      exact .inl ⟨rfl, rfl⟩
  unfold argumentStep atKind at hrun
  rw [(Looks.test _).run_bind, (Looks.test _).run_bind] at hrun
  split at hrun
  · rename_i hends
    refine ⟨s, .inl ⟨rfl, ?_⟩, hcomma hrun⟩
    rw [Bool.or_eq_true, beq_iff_eq, beq_iff_eq] at hends
    rcases hends with hkind | hkind
    · rw [hkind]
      rfl
    · rw [hkind]
      rfl
  · obtain ⟨_, s₁, hchild, hrest⟩ := bind_eq_ok hrun
    obtain ⟨a, t, hargument, ha, ht, hchildren⟩ :=
      child_eq_ok (Aside.node .argument _).nested hchild
    exact ⟨s₁, .inr ⟨a, t, hargument, ha.kind, ht, hchildren⟩, hcomma hrest⟩

/-- Where no line ends there is none to be skipped. -/
theorem run_skipNewlines (hkind : env.kind s ≠ .newline) : skipNewlines env s = .ok () s := by
  refine repeatWhile_of_false ?_
  unfold atKind
  rw [(Looks.test _).run_bind, if_neg (mt beq_iff_eq.1 hkind)]
  rfl

/-- No argument among the nodes has a name. -/
def Nameless (ns : List Node) : Prop :=
  ∀ a ∈ ns, a.kind = .rule .argument → ∀ x ∈ a.children, x.field ≠ some .name

/-- A row of indices leads from one place to another. -/
def LeadsIndices (env : Env) (s s' : State) : Prop :=
  ∃ t, Leads env index s t ∧ s.cursor ≤ t.cursor ∧ ∀ c, s'.cursor ≤ t.cursor + c →
    Leads env (iterateUpTo (whileStep (commaStep index)) c ()) t s'

theorem climbs_argumentOf (room : Nat) (level : Int) :
    Climbs (argumentOf (expressionUpTo room level)) := by
  have hargument : Gives 0 false {} true (argumentOf (expressionUpTo room level)) :=
    Phrase.argumentOf (Phrase.expressionUpTo room level)
  exact hargument.climbs

theorem lt_size_of_mark {mark : Mark} (h : env.kind s = .mark mark) :
    s.cursor < env.tokens.tokens.size :=
  TokenStream.lt_size_of_kindAt_ne (by
    rw [show env.tokens.kindAt s.cursor = .mark mark from h]
    exact nofun)

/-- What a round over arguments has attached on the way from `s` to `s₁`, in front of the comma: an
argument, which is an index if it has no name, or nothing. -/
structure FirstInRow (env : Env) (s s₁ : State) (first : List Node) : Prop where
  le : s.cursor ≤ s₁.cursor
  le_size : s₁.cursor ≤ env.tokens.tokens.size
  children : s₁.children = first ++ s.children
  commas : Node.commaCount first = 0
  arguments : Node.argumentCount first ≤ 1
  cursor_eq : Node.argumentCount first = 0 → s₁.cursor = s.cursor
  leads : Node.argumentCount first = 1 → Nameless first → Leads env index s s₁

theorem FirstInRow.omitted (hs : s.cursor ≤ env.tokens.tokens.size) : FirstInRow env s s [] where
  le := Nat.le_refl _
  le_size := hs
  children := rfl
  commas := rfl
  arguments := Nat.zero_le _
  cursor_eq _ := rfl
  leads h := by cases h

theorem FirstInRow.argument {a : Node} (hs : s.cursor ≤ env.tokens.tokens.size)
    (hrun : argumentOf (expressionUpTo room Precedence.lowest) (deeper (deeper env)) s = .ok a t)
    (ha : a.kind = .rule .argument) (ht : Beside t s₁) (hchildren : s₁.children = a :: s.children) :
    FirstInRow env s s₁ [a] := by
  have hlater : Later (deeper (deeper env)).tokens s t := (climbs_argumentOf _ _).ok hs hrun
  have hcommas : Node.commaCount [a] = 0 := by simp [Node.commaCount, ha]
  have harguments : Node.argumentCount [a] = 1 := by simp [Node.argumentCount, ha]
  refine ⟨?_, ?_, hchildren, hcommas, Nat.le_of_eq harguments, fun hnone => ?_, fun _ hnames => ?_⟩
  · rw [ht.cursor]
    exact hlater.cursor
  · rw [ht.cursor]
    exact hlater.le_size
  · cases harguments.symm.trans hnone
  · rcases value_of_argument hrun with ⟨y, hy, hname⟩ | ⟨y, hvalue⟩
    · exact absurd hname (hnames a (List.mem_singleton_self a) ha y hy)
    · exact .to (.field (widens_toExpression.leads (hushed_expressionUpTo _ _) (.above (deeper env))
        hvalue)) ht

/-- What the rounds over arguments attach on the way from `s` to `s'`: hardly more arguments than
commas. If none of them has a name, and none is left out, they are indices. -/
structure ArgumentRow (env : Env) (s s' : State) (row : List Node) : Prop where
  le : s.cursor ≤ s'.cursor
  children : s'.children = row ++ s.children
  arguments : Node.argumentCount row ≤ Node.commaCount row + 1
  cursor_eq : Node.argumentCount row = 0 → Node.commaCount row = 0 → s'.cursor = s.cursor
  leads : Nameless row → Node.argumentCount row = Node.commaCount row + 1 → LeadsIndices env s s'

namespace ArgumentRow

theorem nil : ArgumentRow env s s [] where
  le := Nat.le_refl _
  children := rfl
  arguments := Nat.zero_le _
  cursor_eq _ _ := rfl
  leads _ h := by cases h

/-- The row ends behind its first argument. -/
theorem last {first : List Node} (h : FirstInRow env s s' first)
    (hclose : env.kind s' = .mark .rightParen) : ArgumentRow env s s' first := by
  refine ⟨h.le, h.children, Nat.le_add_left_of_le h.arguments, fun hnone _ => h.cursor_eq hnone,
    fun hnames hfull => ?_⟩
  rw [h.commas] at hfull
  refine ⟨s', h.leads hfull hnames, h.le, fun c _ => .stop (leadsTo_commaStep_none ?_) c⟩
  rw [hclose]
  exact nofun

/-- The row goes on behind a comma. -/
theorem cons {first row : List Node} {comma : Node} (h : FirstInRow env s s₁ first)
    (hcomma : env.kind s₁ = .mark .comma) (hkind : comma.kind = .token (.mark .comma))
    (hrow : ArgumentRow env { behind env s₁ with children := comma :: s₁.children } s' row) :
    ArgumentRow env s s' (row ++ comma :: first) := by
  have hnext : (behind env s₁).cursor = s₁.cursor + 1 := Nat.min_eq_left (lt_size_of_mark hcomma)
  have hle : s₁.cursor + 1 ≤ s'.cursor := by
    rw [← hnext]
    exact hrow.le
  have hcounts : Node.argumentCount (row ++ comma :: first) =
        Node.argumentCount row + Node.argumentCount first ∧
      Node.commaCount (row ++ comma :: first) = Node.commaCount row + 1 := by
    have hcommas := h.commas
    simp [Node.argumentCount, Node.commaCount, hkind] at hcommas ⊢
    exact hcommas
  obtain ⟨harguments, hcommas⟩ := hcounts
  have hfirst := h.arguments
  have hmore := hrow.arguments
  refine ⟨Nat.le_trans h.le (Nat.le_of_succ_le hle), ?_, by omega, fun _ hnone => by omega,
    fun hnames hfull => ?_⟩
  · rw [hrow.children, h.children]
    simp
  · obtain ⟨u, hindex, hu, hloop⟩ := hrow.leads
      (fun a ha => hnames a (List.mem_append_left _ ha)) (by omega)
    have hleads : Leads env index s s₁ := h.leads (by omega) fun a ha =>
      hnames a (List.mem_append_right _ (List.mem_cons_of_mem _ ha))
    refine ⟨s₁, hleads, h.le, fun c hc => ?_⟩
    replace hu : s₁.cursor + 1 ≤ u.cursor := by
      rw [← hnext]
      exact hu
    obtain ⟨c, rfl⟩ : ∃ fewer, c = fewer + 1 := ⟨c - 1, by omega⟩
    have hbeside : Beside { behind env s₁ with children := comma :: s₁.children } (behind env s₁) :=
      ⟨rfl, rfl, rfl⟩
    exact leads_commaLoop hcomma (hindex.from hbeside) (hloop c (by omega))

end ArgumentRow

/-- Behind a comma no line end is skipped if none stands there. -/
theorem eq_of_skipNewlines (hrun : skipNewlines env s = .ok () s') (hkind : env.kind s ≠ .newline) :
    s' = s := by
  cases (run_skipNewlines hkind).symm.trans hrun
  rfl

/-- The rounds over arguments attach a row of them, if no line ends there. -/
theorem exists_argumentRow {count : Nat} (hs : s.cursor ≤ env.tokens.tokens.size)
    (hrun : iterateUpTo (whileStep (argumentStep (expressionUpTo room Precedence.lowest))) count ()
      (deeper env) s = .ok () s')
    (hclose : env.kind s' = .mark .rightParen)
    (hline : ∀ k, s.cursor ≤ k → k < s'.cursor → env.tokens.kindAt k ≠ .newline) :
    ∃ row, ArgumentRow env s s' row := by
  induction count generalizing s with
  | zero =>
    cases hrun
    exact ⟨[], .nil⟩
  | succ count ih =>
    rw [iterateUpTo_succ] at hrun
    obtain ⟨y, s₂, hstep, hrest⟩ := bind_eq_ok hrun
    obtain ⟨b, s₃, hstep, hpure⟩ := bind_eq_ok hstep
    cases hpure
    obtain ⟨s₁, hfirst, hbehind⟩ := argumentStep_eq_ok hstep
    obtain ⟨first, hfirst⟩ : ∃ first, FirstInRow env s s₁ first := by
      rcases hfirst with ⟨rfl, -⟩ | ⟨a, t, hargument, ha, ht, hchildren⟩
      · exact ⟨[], .omitted hs⟩
      · exact ⟨[a], .argument hs hargument ha ht hchildren⟩
    rcases hbehind with ⟨rfl, rfl⟩ | ⟨comma, rfl, hcomma, hkind, hskip⟩
    · cases hrest
      exact ⟨first, .last hfirst hclose⟩
    · have hnext : (behind (deeper env) s₁).cursor = s₁.cursor + 1 :=
        Nat.min_eq_left (lt_size_of_mark hcomma)
      have hskipped : Later (deeper env).tokens _ s₂ :=
        (Climbs.of_steps Steps.skipNewlines).ok (Nat.min_le_right _ _) hskip
      have hlt : s₁.cursor < s₂.cursor := by
        have hle := hskipped.cursor
        rwa [hnext] at hle
      obtain ⟨row, hrow⟩ := ih hskipped.le_size hrest fun k hk =>
        hline k (Nat.le_trans hfirst.le (Nat.le_of_lt (Nat.lt_of_lt_of_le hlt hk)))
      -- the token behind the comma is in the row, or closes it
      have hnewline : env.tokens.kindAt (s₁.cursor + 1) ≠ .newline := by
        rcases Nat.lt_or_eq_of_le (Nat.le_trans hlt hrow.le) with hin | heq
        · exact hline _ (Nat.le_succ_of_le hfirst.le) hin
        · rw [show s₁.cursor + 1 = s'.cursor from heq]
          exact fun hend => by cases hend.symm.trans hclose
      obtain rfl := eq_of_skipNewlines hskip (by rwa [← hnext] at hnewline)
      exact ⟨_, .cons hfirst hcomma hkind hrow⟩

/-- A token of a kind that is there becomes a leaf. -/
theorem take_eq_ok (hrun : take env s = .ok () s') :
    Beside (behind env s) s' ∧ ∃ leaf : Node, leaf.kind = .token (env.kind s) ∧
      leaf.info.token = some s.cursor ∧ s'.children = leaf :: s.children := by
  cases hrun
  exact ⟨⟨rfl, rfl, rfl⟩, .leaf (.token (env.kind s)) (env.tokens.get s.cursor).span s.cursor,
    rfl, rfl,
    rfl⟩

theorem ifTake_eq_ok {kind : TokenKind} {expected : Expected} (hrun : (do
    if ← atKind kind then take else fail expected) env s = .ok () s') :
    env.kind s = kind ∧ Beside (behind env s) s' ∧ ∃ leaf : Node, leaf.kind = .token kind ∧
      s'.children = leaf :: s.children := by
  unfold atKind at hrun
  rw [(Looks.test _).run_bind] at hrun
  split at hrun
  · rename_i hkind
    rw [beq_iff_eq] at hkind
    obtain ⟨hplace, leaf, hleaf, -, hchildren⟩ := take_eq_ok hrun
    exact ⟨hkind, hplace, leaf, hkind ▸ hleaf, hchildren⟩
  · cases hrun

/-- The parentheses around a row are neither arguments nor commas. -/
theorem counts_inParens {first last : Node} (row : List Node)
    (hfirst : first.kind = .token (.mark .leftParen))
    (hlast : last.kind = .token (.mark .rightParen)) :
    Node.argumentCount (last :: (row ++ [first])).reverse = Node.argumentCount row ∧
      Node.commaCount (last :: (row ++ [first])).reverse = Node.commaCount row := by
  simp [Node.argumentCount, Node.commaCount, hfirst, hlast]

/-- Where not all of a row is left out, and no argument of it, there is one more argument than
commas. -/
theorem ArgumentRow.full {row : List Node} (h : ArgumentRow env s s' row)
    (hclose : env.kind s' = .mark .rightParen) (hsome : env.kind s ≠ .mark .rightParen)
    (homits : ¬(0 < Node.commaCount row ∧ Node.argumentCount row ≤ Node.commaCount row)) :
    Node.argumentCount row = Node.commaCount row + 1 := by
  have harguments := h.arguments
  have hne : ¬(Node.argumentCount row = 0 ∧ Node.commaCount row = 0) := by
    rintro ⟨hargs, hcommas⟩
    have hplace := h.cursor_eq hargs hcommas
    refine hsome ?_
    show env.tokens.kindAt s.cursor = _
    rw [← hplace]
    exact hclose
  omega

theorem LeadsIndices.commaSeparated (h : LeadsIndices env s s')
    (hs' : s'.cursor < env.tokens.tokens.size) :
    Leads env (commaSeparated index) s s' := by
  obtain ⟨t, hindex, hle, hmore⟩ := h
  refine .seq hindex (.iterate (hmore _ ?_))
  rw [TokenStream.size]
  omega

/-- Arguments in parentheses are indices if none of them has a name, none is left out, and no line
ends among them. -/
theorem leads_indices_of_list {list : Node}
    (hrun : argumentsOf (expressionUpTo room Precedence.lowest) (deeper env) s = .ok list s')
    (hnames : ¬list.NamesArgument) (homits : ¬list.OmitsArgument)
    (hline : ∀ k, s.cursor < k → k < s'.cursor → env.tokens.kindAt k ≠ .newline) :
    Leads env (indices expression) s s' := by
  obtain ⟨_, s₀, hdepth, hnode⟩ := bind_eq_ok hrun
  obtain rfl := checkDepth_eq_ok hdepth
  obtain ⟨s₁, hbody, rfl, rfl⟩ := construct_eq_finish hnode
  obtain ⟨_, s₂, hopen, hrest⟩ := bind_eq_ok hbody
  obtain ⟨hopens, hs₂, «open», hopenKind, hopenChildren⟩ := ifTake_eq_ok hopen
  replace hopens : env.kind s₀ = .mark .leftParen := hopens
  replace hs₂ : Beside (behind env s₀) s₂ := ⟨hs₂.cursor, hs₂.blocks, hs₂.singleLineIfs⟩
  have hlt : s₀.cursor < env.tokens.tokens.size := lt_size_of_mark hopens
  have hnext : s₂.cursor = s₀.cursor + 1 := hs₂.cursor.trans (Nat.min_eq_left hlt)
  unfold atKind at hrest
  rw [(Looks.test _).run_bind] at hrest
  refine .seq (.expect hopens) (.from ?_ hs₂.symm)
  split at hrest
  · -- nothing stands in the parentheses
    obtain ⟨hclose, hs₁, -⟩ := ifTake_eq_ok hrest
    replace hclose : env.kind s₂ = .mark .rightParen := hclose
    exact (Leads.bracketed_empty hclose).to ⟨hs₁.cursor, hs₁.blocks, hs₁.singleLineIfs⟩
  · rename_i hempty
    replace hempty : env.kind s₂ ≠ .mark .rightParen := mt beq_iff_eq.2 hempty
    obtain ⟨_, s₃, hloop, hclose⟩ := bind_eq_ok hrest
    obtain ⟨hparen, hs₁, close, hcloseKind, hchildren⟩ := ifTake_eq_ok hclose
    replace hparen : env.kind s₃ = .mark .rightParen := hparen
    replace hs₁ : Beside (behind env s₃) s₁ := ⟨hs₁.cursor, hs₁.blocks, hs₁.singleLineIfs⟩
    have hlt' : s₃.cursor < env.tokens.tokens.size := lt_size_of_mark hparen
    have hlast : s₁.cursor = s₃.cursor + 1 := hs₁.cursor.trans (Nat.min_eq_left hlt')
    have hstart : s₂.cursor ≤ env.tokens.tokens.size := by
      rw [hnext]
      exact hlt
    obtain ⟨row, hrow⟩ := exists_argumentRow hstart hloop hparen
      fun k hk hk' => hline k (by omega) (by show k < s₁.cursor; omega)
    have hall : s₁.children = close :: (row ++ [«open»]) := by
      rw [hchildren, hrow.children, hopenChildren]
    obtain ⟨harguments, hcommas⟩ := counts_inParens row hopenKind hcloseKind
    have hrowNames : Nameless row := fun a ha hkind x hx hname =>
      hnames ⟨a, List.mem_reverse.2 (by rw [hall]; simp [ha]), hkind, x, hx, hname⟩
    have hrowFull : Node.argumentCount row = Node.commaCount row + 1 := by
      refine hrow.full hparen hempty ?_
      rw [← harguments, ← hcommas, ← hall]
      exact homits
    have hitems := (hrow.leads hrowNames hrowFull).commaSeparated hlt'
    exact (Leads.bracketed_full hempty hitems hparen).to
      ⟨hs₁.cursor, hs₁.blocks, hs₁.singleLineIfs⟩

-- ---------------------------------------------------------------------------
-- Parentheses
-- ---------------------------------------------------------------------------

/-- A phrase behind a parenthesis closes it. -/
theorem encloses_of_row {row : Parse Unit}
    (hrow : Phrase 0 false (.plain true) true true Eq row row)
    (hgoes : Goes env (expectMark .leftParen >>= fun _ => row) s () s') :
    env.tokens.Encloses s.cursor s'.cursor := by
  obtain ⟨t, t', ht, hrun, ht'⟩ := hgoes
  rw [← ht.cursor, ht'.cursor]
  obtain ⟨_, t₁, hopen, hrest⟩ := bind_eq_ok hrun
  have hparen : env.kind t = .mark .leftParen := (run_ifTake hopen).1
  have hlt : t.cursor < env.tokens.tokens.size := lt_size_of_mark hparen
  have hinside := inside_of_ifTake hopen ⟨rfl, rfl⟩ rfl
  have hopened : State.Later env.tokens t t₁ := (Climbs.ifTake _).ok (Nat.le_of_lt hlt) hopen
  have hspans := hrow.balanced hopened.le_size (Spot.holds_plain fun _ => hinside) hrest 0
  rw [next_of_ifTake hopen nofun] at hspans
  exact ⟨hparen, hspans⟩

theorem encloses_arguments
    (h : Goes env (argumentsOf (expressionUpTo room level)) s x s') :
    env.tokens.Encloses s.cursor s'.cursor := by
  obtain ⟨_, s₁, hcheck, hnode⟩ := h.bind
  rw [← hcheck.checkDepth.2.cursor]
  exact encloses_of_row (Phrase.argumentRow (Phrase.expressionUpTo room level)
    (Builds.expressionUpTo room level)) hnode.node

theorem encloses_typeArguments (h : Goes env typeArguments s x s') :
    env.tokens.Encloses s.cursor s'.cursor :=
  encloses_of_row (.seq (.expectWord (.word rfl)) (.seq
    (.commaSeparated (.childNested (.type true)) (.childNested (.type true)))
    (.closeParen _))) h.node

theorem encloses_elementAccess
    (h : Goes env (elementAccessOf (expressionUpTo room level) x) s y s') :
    env.tokens.Encloses s.cursor s'.cursor := by
  have hindices : Flows 0 false (.plain true) true
      (commaSeparated (field .index (nested (expressionUpTo room level)))) :=
    .commaSeparated (.fieldNested _ (.expressionUpTo _ _)) (.fieldNested _ (.expressionUpTo _ _))
  obtain ⟨_, s₁, hobject, hrest⟩ := h.nodeFrom.bind
  obtain ⟨_, hobject⟩ := hobject.field
  exact encloses_of_row (.ifAt (.closeParen _) (.seq hindices (.closeParen _)))
    (hrest.from hobject.wrap)

-- ---------------------------------------------------------------------------
-- Calls
-- ---------------------------------------------------------------------------

/-- What is in a call that reaches from `s` to `s'`: type arguments, perhaps with arguments behind
them, or arguments alone. -/
inductive CallParts (env : Env) (room : Nat) (level : Int) (s s' : State) (call : Node) : Prop
  | types {types : Node} {t : State} (mem : types ∈ call.children)
      (kind : types.kind = .rule .typeArgumentList)
      (goes : Goes (deeper env) typeArguments s types t)
      (behind : env.kind t = .mark .leftParen ∨ Beside t s')
  | list {list : Node} {u t : State} (mem : list.inField .arguments ∈ call.children)
      (kind : list.kind = .rule .argumentList) (firstToken : list.info.firstToken = s.cursor)
      (run : argumentsOf (expressionUpTo room level) (deeper env) u = .ok list t)
      (start : Beside s u) (stop : Beside t s')

theorem invocationOf_eq_ok {target : Node}
    (hrun : invocationOf (expressionUpTo room level) target env s = .ok x s') :
    x.kind = .rule .invocation ∧ CallParts env room level s s' x := by
  obtain ⟨s₁, hbody, rfl, rfl⟩ := construct_eq_finish hrun
  refine ⟨rfl, ?_⟩
  obtain ⟨_, s₂, hattach, hrest⟩ := bind_eq_ok hbody
  have hs₂ : Beside s s₂ := by
    cases hattach
    exact ⟨rfl, rfl, rfl⟩
  have harguments {u : State} (hlist : field .arguments (nested (argumentsOf
      (expressionUpTo room level))) env u = .ok () s₁) : ∃ list t,
      argumentsOf (expressionUpTo room level) (deeper env) u = .ok list t ∧ Beside t s₁ ∧
        list.kind = .rule .argumentList ∧ list.info.firstToken = u.cursor ∧
        s₁.children = list.inField .arguments :: u.children := by
    obtain ⟨list, t, hlist, -, ht, hchildren⟩ :=
      field_eq_ok (Aside.checkDepth (Aside.node _ _)).nested hlist
    obtain ⟨_, u₁, hdepth, hnode⟩ := bind_eq_ok hlist
    obtain rfl := checkDepth_eq_ok hdepth
    obtain ⟨hkind, hfirst⟩ := node_eq_ok hnode
    exact ⟨list, t, hlist, ht, hkind, hfirst, hchildren⟩
  unfold atTypeArguments ahead at hrest
  rw [(Looks.test _).run_bind] at hrest
  split at hrest
  · obtain ⟨_, s₃, htypes, hrest⟩ := bind_eq_ok hrest
    obtain ⟨types, t, htypes, hpart, ht, hchildren⟩ :=
      child_eq_ok (Aside.node .typeArgumentList _).nested htypes
    unfold atKind at hrest
    rw [(Looks.test _).run_bind] at hrest
    have hmem : types ∈ s₁.children.reverse ∧ (env.kind s₃ = .mark .leftParen ∨ Beside s₃ s₁) := by
      split at hrest
      · rename_i hparen
        obtain ⟨list, _, -, -, -, -, hall⟩ := harguments hrest
        refine ⟨?_, .inl (beq_iff_eq.1 hparen)⟩
        rw [hall, hchildren]
        simp
      · cases hrest
        refine ⟨?_, .inr (.refl _)⟩
        rw [hchildren]
        simp
    exact .types hmem.1 hpart.kind ⟨s₂, t, hs₂, htypes, ht⟩
      (hmem.2.imp_right fun hs => ⟨hs.cursor, hs.blocks, hs.singleLineIfs⟩)
  · obtain ⟨list, t, hlist, ht, hkind, hfirst, hchildren⟩ := harguments hrest
    refine .list ?_ hkind (hfirst.trans hs₂.cursor) hlist hs₂
      ⟨ht.cursor, ht.blocks, ht.singleLineIfs⟩
    show _ ∈ s₁.children.reverse
    rw [hchildren]
    simp

theorem Goes.callParts {target : Node}
    (h : Goes env (Production.invocationOf (Production.expressionUpTo room level) target) s x s') :
    x.kind = .rule .invocation ∧ CallParts env room level s s' x := by
  obtain ⟨t, t', ht, hrun, ht'⟩ := h
  obtain ⟨hkind, hparts⟩ := invocationOf_eq_ok hrun
  refine ⟨hkind, ?_⟩
  cases hparts with
  | types mem kind goes behind =>
    exact .types mem kind (goes.from ht) (behind.imp_right fun hu => hu.trans ht')
  | list mem kind firstToken run start stop =>
    exact .list mem kind (firstToken.trans ht.cursor) run (ht.trans start) (stop.trans ht')

/-- Behind a parenthesis that more of the operand follows there is no assignment. -/
theorem not_assignmentFollowsParens {inner : Node}
    (h : Goes env (callOrIndexOf (expressionUpTo room level) inner) s x s')
    (hend : (env.kind s').isAssignment = false) :
    env.tokens.assignmentFollowsParens 0 s.cursor = false := by
  rw [callOrIndexOf_eq] at h
  split at h
  · cases h.callParts.2 with
    | @types types t _ _ goes behind =>
      refine (encloses_typeArguments goes).not_assignment ?_
      rcases behind with hparen | ht
      · rw [show (deeper env).tokens.kindAt t.cursor = .mark .leftParen from hparen]
        rfl
      · rw [← ht.cursor]
        exact hend
    | @list list u t _ _ _ run start stop =>
      have hencloses : (deeper env).tokens.Encloses u.cursor t.cursor :=
        encloses_arguments (.of_run run)
      rw [← start.cursor]
      refine hencloses.not_assignment ?_
      rw [← stop.cursor]
      exact hend
  · exact (encloses_elementAccess h).not_assignment hend

end Production

end VisualBasic
