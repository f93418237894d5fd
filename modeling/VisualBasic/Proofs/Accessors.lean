import VisualBasic.Proofs.HeaderLines
import VisualBasic.Proofs.WideDeclarations
import VisualBasic.Tree.Sexp

/-!
# Properties and events with accessors

Whether a property or an event has accessors is told by the line behind its header. The search for
that line begins at the declaration and goes to the first token that may end a line. If no line ends
within the header, this is the end of the header, and what is seen behind it is right. If one does,
as where attributes stand on a line of their own, the search takes the rest of the header for the
next line. That is idle, so the declaration ends with its header, whatever stands behind it.

Main results:

* `Accessored.Opens.goesOn_iff` — what the search sees if the header parses.
* `Accessored.Lawful.rows` — the loop over accessors makes a child of each line, up to the first one
  that ends them.
* `accessors_decided` — what becomes of every property and every event whose header parses.
* `exists_accessorsMissed` — attributes on a line of their own hide the accessors of a property.
-/

namespace VisualBasic

-- ---------------------------------------------------------------------------
-- Runs
-- ---------------------------------------------------------------------------

namespace Production

variable {env : Env} {s s₁ : State}

/-- A loop whose first round says that it was the last one. -/
theorem repeatWhile_of_false {round : Parse Bool} (h : round env s = .ok false s) :
    repeatWhile round env s = .ok () s := by
  unfold repeatWhile iterate
  cases env.tokens.size - s.cursor with
  | zero => rfl
  | succ room =>
    rw [iterateUpTo, run_bind, h]
    rfl

theorem node_eq_ok {r : Rule} {body : Parse Unit} {n : Node} {s' : State}
    (hrun : node r body env s = .ok n s') : n.kind = .rule r ∧ n.info.firstToken = s.cursor := by
  obtain ⟨s₁, -, rfl, -⟩ := construct_eq_finish hrun
  exact ⟨rfl, rfl⟩

/-- Where a header parses, there is room for the declaration. -/
theorem run_checkDepth {α : Type} {k : Unit → Parse α} {a : α}
    (h : (checkDepth >>= k) env s = .ok a s₁) (t : State) : checkDepth env t = .ok () t := by
  obtain ⟨_, s₂, hdepth, -⟩ := bind_eq_ok h
  unfold checkDepth at hdepth ⊢
  split at hdepth
  · cases hdepth
  · rename_i hroom
    rw [if_neg hroom]

/-- A declaration whose header parses goes on with its rules. -/
theorem run_resolve {α : Type} {k : Unit → Parse α} {x : α}
    (h : (checkDepth >>= k) env s = .ok x s₁) (a : Ambiguity)
    (alternatives : List Alternative) (t : State) :
    resolve a alternatives env t = firstFit a none alternatives env t := by
  unfold resolve
  rw [run_bind, run_checkDepth h]

end Production

-- ---------------------------------------------------------------------------
-- What properties and events have in common
-- ---------------------------------------------------------------------------

namespace TokenStream

/-- The accessor of a property that a word announces. -/
def propertyAccessorOf? : TokenKind → Option Rule
  | .keyword .kwGet => some .getAccessor
  | .keyword .kwSet => some .setAccessor
  | _ => none

/-- The accessor of an event that a word announces. -/
def eventAccessorOf? : TokenKind → Option Rule
  | .keyword .kwAddHandler => some .addHandlerBlock
  | .keyword .kwRemoveHandler => some .removeHandlerBlock
  | .keyword .kwRaiseEvent => some .raiseEventBlock
  | _ => none

/-- The accessor of a property that begins at an index. -/
def propertyAccessor? (t : TokenStream) (i : Nat) : Option Rule :=
  propertyAccessorOf? (t.kindAt (t.behindPrefix i))

/-- The accessor of an event that begins at an index. -/
def eventAccessor? (t : TokenStream) (i : Nat) : Option Rule := eventAccessorOf? (t.kindAt i)

theorem isSome_propertyAccessorOf? (kind : TokenKind) :
    (propertyAccessorOf? kind).isSome = isAccessor kind := by
  cases kind with
  | keyword word => cases word <;> rfl
  | _ => rfl

theorem isSome_eventAccessorOf? (kind : TokenKind) :
    (eventAccessorOf? kind).isSome = isEventAccessor kind := by
  cases kind with
  | keyword word => cases word <;> rfl
  | _ => rfl

theorem opensAccessor_of_isAccessor {kind : TokenKind} (h : isAccessor kind = true) :
    opensAccessor kind = true := by
  unfold isAccessor at h
  split at h
  · rfl
  · rfl
  · cases h

theorem opensAccessor_of_isEventAccessor {kind : TokenKind} (h : isEventAccessor kind = true) :
    opensAccessor kind = true := by
  unfold isEventAccessor at h
  split at h
  · rfl
  · rfl
  · rfl
  · cases h

end TokenStream

/-- A declaration that may have accessors. -/
structure Accessored where
  /-- The word of the header and of the closing line. -/
  word : Keyword
  declaration : Parse Node
  /-- The header, with the end of its line. -/
  header : Parse Unit
  /-- One more accessor, unless the line ends them. -/
  item : Parse Bool
  /-- The accessor that begins at an index. -/
  accessor? : TokenStream → Nat → Option Rule

namespace Accessored

open Production

def property : Accessored where
  word := .kwProperty
  declaration := propertyDeclaration
  header := propertyLine
  item := propertyItem
  accessor? := TokenStream.propertyAccessor?

def event : Accessored where
  word := .kwEvent
  declaration := eventDeclaration
  header := eventHeader
  item := eventItem
  accessor? := TokenStream.eventAccessor?

variable (x : Accessored) (env : Env)

/-- An accessor or the closing line of the declaration begins at the index. -/
def GoesOn (t : TokenStream) (i : Nat) : Prop :=
  (x.accessor? t i).isSome = true ∨ t.kindAt i = .keyword .kwEnd ∧
  t.kindAt (i + 1) = .keyword x.word

/-- The header of the declaration at `s` parses, up to `s₁`, and ends with the terminator `stop`. -/
structure Opens (s s₁ : State) (stop : Nat) : Prop where
  run : x.header env { s with children := [], isPartial := false } = .ok () s₁
  cursor : s₁.cursor = stop + 1
  isTerminator : (env.tokens.kindAt stop).isTerminator = true

/-- The child that the line at an index becomes: it begins there, and it is the accessor that begins
there, if one does. -/
structure IsRow (t : TokenStream) (i : Nat) (c : Node) : Prop where
  firstToken : c.info.firstToken = i
  kind : ∀ r, x.accessor? t i = some r → c.kind = .rule r

/-- The lines behind the header, from a state on, and the children that they become, up to the line
that ends them: the end of the text, or one that goes on with a block that is open and is no
accessor. -/
inductive Rows : State → List Node → State → Prop
  | stop {s : State} (run : x.item env s = .ok false s) (ends : env.atBoundary s = true)
    (none : x.accessor? env.tokens s.cursor = none) : Rows s [] s
  | row {s s₁ s' : State} {c : Node} {cs : List Node} (run : x.item env s = .ok true s₁)
    (children : s₁.children = c :: s.children) (isRow : x.IsRow env.tokens s.cursor c)
    (rest : Rows s₁ cs s') : Rows s (c :: cs) s'

/-- The node that is finished in a state: its children are those collected up to there, and it ends
there. -/
structure NodeUpTo (s₁ : State) (n : Node) (s' : State) : Prop where
  children : n.children = s₁.children.reverse
  cursor : s'.cursor = s₁.cursor

/-- The declaration at `s`, whose header ends in `s₁`, has the accessors behind it as children. -/
structure HasAccessors (s s₁ : State) (first : Nat) (n : Node) (s' : State) : Prop where
  /-- Its children are those of the header, the lines up to the end of the accessors, and the
  closing line. -/
  rows : ∃ cs s₂ s₃, x.Rows env { s₁ with blocks := ⟨x.word, env.line s⟩ :: s₁.blocks } cs s₂ ∧
    s₂.children = cs.reverse ++ s₁.children ∧ finishBlock x.word env s₂ = .ok () s₃ ∧
    NodeUpTo s₃ n s'
  /-- The first accessor is one of them. -/
  first : ∀ r, x.accessor? env.tokens first = some r →
    ∃ c ∈ n.children, c.info.firstToken = first ∧ c.kind = .rule r

/-- Every declaration whose header parses and ends with a terminator succeeds. It has accessors
exactly if that terminator is the first one behind the beginning of the declaration and, behind it
and all the terminators that follow it, an accessor begins or the closing line of the declaration.
Otherwise it is its header. -/
def Decided : Prop :=
  ∀ s s₁ stop, x.Opens env s s₁ stop → ∃ n s', x.declaration env s = .ok n s' ∧
    ((env.tokens.lineEnd s.cursor = stop ∧ x.GoesOn env.tokens (env.tokens.nextLine stop) ∧
        x.HasAccessors env s s₁ (env.tokens.nextLine stop) n s') ∨
      ¬(env.tokens.lineEnd s.cursor = stop ∧ x.GoesOn env.tokens (env.tokens.nextLine stop)) ∧
        NodeUpTo s₁ n s')

/-- The accessors and the closing line behind a header. -/
def behindHeader (line : Nat) : Parse Unit := do
  openBlockAt x.word line
  repeatWhile x.item
  finishBlock x.word

/-- What a round of the loop over accessors comes to at `s`: the end, with nothing done, or a
row. -/
def Round (s : State) (result : EStateM.Result Failure State Bool) : Prop :=
  (result = .ok false s ∧ env.atBoundary s = true ∧ x.accessor? env.tokens s.cursor = none) ∨
    ∃ c s₁, result = .ok true s₁ ∧ s₁.children = c :: s.children ∧ x.IsRow env.tokens s.cursor c

/-- What the declaration is made of. -/
structure Lawful : Prop where
  header : ∃ q, IsHeaderRest x.word q ∧ x.header = headerOf q
  idle : ∀ t i, t.Idle i → ¬x.GoesOn t i
  consumes : Consumes x.item
  item : ∀ env s, x.Round env s (x.item env s)
  blank : ∀ env s, (env.kind s).isTerminator = true →
    ∃ s₁, x.item env s = .ok true s₁ ∧ s₁.cursor = s.cursor + 1
  takes : ∀ env s s₁ s₃, x.header env { s with children := [], isPartial := false } = .ok () s₁ →
    x.GoesOn env.tokens (env.tokens.nextLine s.cursor) →
    x.behindHeader (env.line s) env s₁ = .ok () s₃ →
    ∃ n s', x.declaration env s = .ok n s' ∧ NodeUpTo s₃ n s'
  leaves : ∀ env s s₁, x.header env { s with children := [], isPartial := false } = .ok () s₁ →
    ¬x.GoesOn env.tokens (env.tokens.nextLine s.cursor) →
    ∃ n s', x.declaration env s = .ok n s' ∧ NodeUpTo s₁ n s'

-- ---------------------------------------------------------------------------
-- What the search sees
-- ---------------------------------------------------------------------------

variable {x env} {s s₁ : State} {stop : Nat}

/-- A header that parses begins within the text. -/
theorem le_size_of_header (hx : x.Lawful) (hrun : x.header env s = .ok () s₁) :
    s.cursor ≤ env.tokens.tokens.size := by
  obtain ⟨q, hq, heq⟩ := hx.header
  rw [heq] at hrun
  obtain ⟨_, s₀, hdepth, hbehind⟩ := bind_eq_ok hrun
  obtain rfl := checkDepth_eq_ok hdepth
  obtain ⟨_, s₂, hprefix, hbehind⟩ := bind_eq_ok hbehind
  obtain ⟨_, s₃, hrest, -⟩ := bind_eq_ok hbehind
  refine Nat.le_of_not_lt fun hlt => ?_
  have hend : env.tokens.kindAt s₀.cursor = .endOfFile :=
    TokenStream.kindAt_of_size_le (Nat.le_of_lt hlt)
  have hrounds : repeatWhile attributeLine env s₀ = .ok () s₀ :=
    repeatWhile_of_false (consumes_attributeLine.stops env s₀ hend)
  have hnone : declarationPrefix env s₀ = .ok () s₀ := by
    unfold declarationPrefix
    rw [run_bind, hrounds]
    change (Production.peek >>= fun _ => _) env s₀ = _
    rw [Looks.peek.run_bind, if_neg]
    · rfl
    · rw [show env.kind s₀ = .endOfFile from hend]
      exact Bool.noConfusion
  rw [hnone] at hprefix
  cases hprefix
  have hword : env.tokens.kindAt s₀.cursor = .keyword x.word := hq.begins env s₀ s₃ hrest
  rw [hend] at hword
  cases hword

/-- The end of a header that ends with a terminator is where the header stops. -/
theorem Opens.exists_rest (h : x.Opens env s s₁ stop) (hx : x.Lawful) :
    ∃ q s₂, IsHeaderRest x.word q ∧ (declarationPrefix >>= fun _ => q) env
      { s with children := [], isPartial := false } = .ok () s₂ ∧ s₂.cursor = stop := by
  obtain ⟨q, hq, heq⟩ := hx.header
  have hrun := h.run
  rw [heq] at hrun
  obtain ⟨_, s₀, hdepth, hbehind⟩ := bind_eq_ok hrun
  rw [checkDepth_eq_ok hdepth] at hbehind
  obtain ⟨_, s₂, hprefix, hbehind⟩ := bind_eq_ok hbehind
  obtain ⟨_, s₃, hrest, hend⟩ := bind_eq_ok hbehind
  refine ⟨q, s₃, hq, by rw [run_bind, hprefix]; exact hrest, ?_⟩
  have hcursor := h.cursor
  obtain ⟨-, hnext⟩ | ⟨hsame, -⟩ := endStatement_eq_ok hend
  · rw [hnext] at hcursor
    exact Nat.succ.inj hcursor
  · -- The header ends within the statement, so the token in front of its end is no terminator.
    have hspot : (Spot.plain false).Holds env s₂ := Spot.holds_plain nofun
    have hinside := (hq.phrase.inside hspot hrest rfl).2
    rw [← hsame, hcursor, Nat.add_sub_cancel, h.isTerminator] at hinside
    cases hinside

/-- The search sees what is behind the header, unless a line ends within the header; then it sees
nothing. -/
theorem Opens.goesOn_iff (h : x.Opens env s s₁ stop) (hx : x.Lawful) (ht : env.tokens.Lasting) :
    x.GoesOn env.tokens (env.tokens.nextLine s.cursor) ↔
      env.tokens.lineEnd s.cursor = stop ∧ x.GoesOn env.tokens (env.tokens.nextLine stop) := by
  obtain ⟨q, s₂, hq, hrun, rfl⟩ := h.exists_rest hx
  have hs := le_size_of_header hx h.run
  have hbefore : Flows 0 false {} false declarationPrefix := Phrase.declarationPrefix
  have hlater := (hbefore.climbs.bind fun _ => hq.phrase.climbs).ok hs hrun
  have hends : (env.tokens.kindAt s₂.cursor).endsLine = true := by
    rw [TokenKind.endsLine_eq, h.isTerminator]
    rfl
  rcases Nat.eq_or_lt_of_le (TokenStream.firstFrom_le hlater.cursor hends) with heq | hlt
  · have hstop : env.tokens.lineEnd s.cursor = s₂.cursor := heq
    have hself : env.tokens.lineEnd s₂.cursor = s₂.cursor := TokenStream.firstFrom_of_true hends
    have hnext : env.tokens.nextLine s.cursor = env.tokens.nextLine s₂.cursor := by
      unfold TokenStream.nextLine
      rw [hstop, hself]
    rw [hnext]
    exact (and_iff_right hstop).symm
  · have hidle := idle_of_header ht hq hs hrun h.isTerminator hlt
    constructor
    · exact fun hgoes => absurd hgoes (hx.idle _ _ hidle)
    · rintro ⟨heq, -⟩
      exact absurd heq (Nat.ne_of_lt hlt)

-- ---------------------------------------------------------------------------
-- The accessors
-- ---------------------------------------------------------------------------

/-- The loop over accessors makes a child of each line. -/
theorem Lawful.rows (hx : x.Lawful) {s' : State} (hrun : repeatWhile x.item env s = .ok () s')
    (hs : s.cursor ≤ env.tokens.tokens.size) :
    ∃ cs, x.Rows env s cs s' ∧ s'.children = cs.reverse ++ s.children := by
  replace hrun := (hx.consumes.loopRun_iff hs).2 hrun
  generalize hresult : (EStateM.Result.ok () s' : EStateM.Result Failure State Unit) =
    result at hrun
  induction hrun with
  | @stop s s₂ h =>
    cases hresult
    obtain ⟨hstop, hends, hnone⟩ | ⟨c, s₃, hrow, -⟩ := hx.item env s
    · rw [hstop] at h
      cases h
      exact ⟨[], .stop hstop hends hnone, rfl⟩
    · rw [hrow] at h
      cases h
  | fails => cases hresult
  | @again s s₂ _ h rest ih =>
    obtain ⟨hstop, -⟩ | ⟨c, s₃, hrow, hchildren, hisRow⟩ := hx.item env s
    · rw [hstop] at h
      cases h
    · rw [hrow] at h
      cases h
      obtain ⟨cs, hrows, happend⟩ := ih (hx.consumes.climbs.ok hs hrow).le_size hresult
      refine ⟨c :: cs, .row hrow hchildren hisRow hrows, ?_⟩
      rw [happend, hchildren, List.reverse_cons, List.append_assoc]
      rfl

/-- The first accessor is a row of its own, behind the rows of the terminators in front of it. -/
theorem Rows.exists_accessor (hx : x.Lawful) {cs : List Node} {s' : State} (h : x.Rows env s cs s')
    {first : Nat} {r : Rule} (hfirst : x.accessor? env.tokens first = some r)
    (hle : s.cursor ≤ first)
    (hblank : ∀ i, s.cursor ≤ i → i < first → (env.tokens.kindAt i).isTerminator = true) :
    ∃ c ∈ cs, c.info.firstToken = first ∧ c.kind = .rule r := by
  induction h with
  | @stop s run _ none =>
    rcases Nat.eq_or_lt_of_le hle with heq | hlt
    · rw [heq, hfirst] at none
      cases none
    · obtain ⟨s₂, hrow, -⟩ := hx.blank env s (hblank _ (Nat.le_refl _) hlt)
      rw [run] at hrow
      cases hrow
  | @row s s₂ _ c cs run _ isRow _ ih =>
    rcases Nat.eq_or_lt_of_le hle with heq | hlt
    · refine ⟨c, List.mem_cons_self, isRow.firstToken.trans heq, isRow.kind r ?_⟩
      rw [heq]
      exact hfirst
    · obtain ⟨s₃, hrow, hcursor⟩ := hx.blank env s (hblank _ (Nat.le_refl _) hlt)
      rw [run] at hrow
      cases hrow
      obtain ⟨c, hc, hisRow⟩ := ih (by omega) fun i hi => hblank i (by omega)
      exact ⟨c, List.mem_cons_of_mem _ hc, hisRow⟩

/-- Where a header that ends with a terminator has accessors behind it, the first of them is one of
the rows. -/
theorem Opens.exists_accessor (h : x.Opens env s s₁ stop) (hx : x.Lawful) {blocks : List OpenBlock}
    {cs : List Node} {s₂ : State} (hrows : x.Rows env { s₁ with blocks } cs s₂) {r : Rule}
    (hfirst : x.accessor? env.tokens (env.tokens.nextLine stop) = some r) :
    ∃ c ∈ cs, c.info.firstToken = env.tokens.nextLine stop ∧ c.kind = .rule r := by
  have hends : (env.tokens.kindAt stop).endsLine = true := by
    rw [TokenKind.endsLine_eq, h.isTerminator]
    rfl
  have hline : env.tokens.lineEnd stop = stop := TokenStream.firstFrom_of_true hends
  unfold TokenStream.nextLine at hfirst ⊢
  rw [hline] at hfirst ⊢
  have hterminator {i : Nat} (hi : stop ≤ i)
      (hlt : i < env.tokens.firstFrom (!·.isTerminator) stop) :
      (env.tokens.kindAt i).isTerminator = true := by
    simpa using TokenStream.not_of_lt_firstFrom hi hlt
  have hcursor : (State.mk s₁.cursor s₁.children s₁.isPartial s₁.diagnostics blocks
      s₁.singleLineIfs).cursor = stop + 1 := h.cursor
  refine hrows.exists_accessor hx hfirst ?_ fun i hi => hterminator (by omega)
  rw [hcursor]
  refine Nat.lt_of_le_of_ne (env.tokens.le_firstFrom _ stop) fun heq => ?_
  rcases env.tokens.firstFrom_spec (!·.isTerminator) stop with hspec | hsize
  · rw [← heq, h.isTerminator] at hspec
    cases hspec
  · rw [← heq] at hsize
    have hstop := h.isTerminator
    rw [TokenStream.kindAt_of_size_le hsize] at hstop
    cases hstop

/-- Properties and events whose headers parse have the accessors behind them, as far as the search
sees these. -/
theorem Lawful.decided (hx : x.Lawful) (hnever : NeverFails x.item) (ht : env.tokens.Lasting) :
    x.Decided env := by
  intro s s₁ stop h
  by_cases hgoes : x.GoesOn env.tokens (env.tokens.nextLine s.cursor)
  · obtain ⟨hstop, hbehind⟩ := (h.goesOn_iff hx ht).1 hgoes
    have hsize : s₁.cursor ≤ env.tokens.tokens.size := by
      rw [h.cursor]
      exact TokenStream.lt_size_of_kindAt_ne (TokenKind.ne_endOfFile_of h.isTerminator rfl)
    obtain ⟨_, s₂, hrows⟩ :=
      hnever.repeatWhile env { s₁ with blocks := ⟨x.word, env.line s⟩ :: s₁.blocks }
    obtain ⟨_, s₃, hclosing⟩ := NeverFails.finishBlock x.word env s₂
    have hrest : x.behindHeader (env.line s) env s₁ = .ok () s₃ := by
      change (repeatWhile x.item >>= fun _ => finishBlock x.word) env
        { s₁ with blocks := ⟨x.word, env.line s⟩ :: s₁.blocks } = _
      rw [run_bind, hrows]
      exact hclosing
    obtain ⟨n, s', hrun, hnode⟩ := hx.takes env s s₁ s₃ h.run hgoes hrest
    obtain ⟨cs, hcs, happend⟩ := hx.rows hrows hsize
    refine ⟨n, s', hrun, .inl ⟨hstop, hbehind, ⟨cs, s₂, s₃, hcs, happend, hclosing, hnode⟩, ?_⟩⟩
    intro r hfirst
    obtain ⟨c, hc, hisRow⟩ := h.exists_accessor hx hcs hfirst
    refine ⟨c, ?_, hisRow⟩
    have hfinish : Runs 0 false {} true (finishBlock x.word) := Passage.finishBlock x.word
    have hsettled := hfinish.tidy env s₂
    rw [hclosing] at hsettled
    rw [hnode.children, List.mem_reverse]
    refine hsettled.children.mem ?_
    rw [happend]
    exact List.mem_append_left _ (List.mem_reverse.2 hc)
  · obtain ⟨n, s', hrun, hheader⟩ := hx.leaves env s s₁ h.run hgoes
    exact ⟨n, s', hrun, .inr ⟨fun hboth => hgoes ((h.goesOn_iff hx ht).2 hboth), hheader⟩⟩

-- ---------------------------------------------------------------------------
-- Rounds
-- ---------------------------------------------------------------------------

/-- A round that adds a child. -/
theorem Round.child {p : Parse Node} (hnever : NeverFails p) (haside : Aside Node.IsPart p)
    (hrow : ∀ c s₁, p env s = .ok c s₁ → x.IsRow env.tokens s.cursor c) :
    x.Round env s ((do
      Production.child p
      return true) env s) := by
  obtain ⟨c, s₁, hrun⟩ := hnever env s
  refine .inr ⟨c, { s₁ with children := c :: s₁.children }, ?_, ?_, hrow c s₁ hrun⟩
  · unfold Production.child
    rw [run_bind, run_bind, hrun]
    rfl
  · exact congrArg (c :: ·) (haside.ok hrun).children

/-- A round for a terminator. -/
theorem Round.blank (hnone : x.accessor? env.tokens s.cursor = none) :
    x.Round env s ((do
      Production.child blankLine
      return true) env s) := by
  refine .child (.leaf _) (Aside.ruleLeaf _).isPart fun c s₁ hrun => ?_
  cases hrun
  exact ⟨rfl, fun r hr => absurd (hnone.symm.trans hr) nofun⟩

/-- A round where no accessor begins. -/
theorem Round.unlessAtBoundary (e : Expected) (hnone : x.accessor? env.tokens s.cursor = none) :
    x.Round env s ((do
      if ← Production.atBoundary then return false
      Production.child (unexpected e)
      return true) env s) := by
  unfold Production.atBoundary
  rw [(Looks.test _).run_bind]
  split
  · exact .inl ⟨rfl, ‹_›, hnone⟩
  · refine .child (fun _ _ => ⟨_, _, rfl⟩) (.unexpected e) fun c s₁ hrun => ?_
    cases hrun
    exact ⟨rfl, fun r hr => absurd (hnone.symm.trans hr) nofun⟩

/-- A terminator is passed over. -/
theorem cursor_of_blank (h : (env.kind s).isTerminator = true) :
    ∃ s₁, (do
      Production.child blankLine
      return true) env s = .ok true s₁ ∧ s₁.cursor = s.cursor + 1 :=
  ⟨_, rfl, Env.next_eq_succ (TokenKind.ne_endOfFile_of h rfl)⟩

-- ---------------------------------------------------------------------------
-- Properties
-- ---------------------------------------------------------------------------

theorem behindPrefix_of_plain {t : TokenStream} {i : Nat} (hless : t.kindAt i ≠ .mark .less)
    (hmodifier : (t.kindAt i).isModifier = false) : t.behindPrefix i = i := by
  unfold TokenStream.behindPrefix
  rw [TokenStream.prefixEnd_of_ne_less hless]
  exact firstFrom_of_not hmodifier

theorem propertyAccessor?_eq_none {t : TokenStream} {i : Nat}
    (h : TokenStream.isAccessor (t.kindAt (t.behindPrefix i)) = false) :
    t.propertyAccessor? i = none := by
  unfold TokenStream.propertyAccessor?
  rw [← Option.isNone_iff_eq_none, ← Option.not_isSome, TokenStream.isSome_propertyAccessorOf?, h]
  rfl

theorem propertyAccessor?_of_isTerminator {t : TokenStream} {i : Nat}
    (h : (t.kindAt i).isTerminator = true) : t.propertyAccessor? i = none := by
  refine propertyAccessor?_eq_none ?_
  rw [behindPrefix_of_plain]
  · generalize t.kindAt i = kind at h
    cases kind <;> first | rfl | cases h
  · intro hless
    rw [hless] at h
    cases h
  · refine Bool.eq_false_iff.2 fun hmodifier => ?_
    rw [TokenStream.isTerminator_of_isModifier hmodifier] at h
    cases h

theorem aside_accessor : Aside Node.IsPart accessor :=
  .look Looks.peekBehindPrefix fun _ => (Aside.node _ _).isPart

theorem isRow_of_accessor {c : Node} {s₁ : State} (hrun : accessor.nested env s = .ok c s₁) :
    property.IsRow env.tokens s.cursor c := by
  unfold nested accessor at hrun
  rw [Looks.peekBehindPrefix.run_bind] at hrun
  obtain ⟨hkind, hfirst⟩ := node_eq_ok hrun
  refine ⟨hfirst, fun r hr => ?_⟩
  rw [hkind]
  change TokenStream.propertyAccessorOf? _ = _ at hr
  unfold TokenStream.propertyAccessorOf? at hr
  split at hr
  · rename_i hget
    rw [hget]
    cases hr
    rfl
  · rename_i hset
    rw [hset]
    cases hr
    rfl
  · cases hr

theorem round_propertyItem (env : Env) (s : State) : property.Round env s (propertyItem env s) := by
  unfold propertyItem
  rw [Looks.peek.run_bind]
  split
  · exact .blank (propertyAccessor?_of_isTerminator ‹_›)
  · rw [Looks.peekBehindPrefix.run_bind]
    split
    · exact .child (.nested .accessor) aside_accessor.nested fun c s₁ hrun => isRow_of_accessor hrun
    · exact .unlessAtBoundary _ (propertyAccessor?_eq_none (Bool.eq_false_iff.2 ‹_›))

theorem propertyHasAccessors_iff (env : Env) (s : State) :
    env.propertyHasAccessors s = true ↔
    property.GoesOn env.tokens (env.tokens.nextLine s.cursor) := by
  unfold Env.propertyHasAccessors GoesOn
  generalize env.tokens.nextLine s.cursor = i
  change _ ↔ (TokenStream.propertyAccessorOf? _).isSome = true ∨ _
  rw [TokenStream.isSome_propertyAccessorOf?]
  by_cases hend : env.tokens.kindAt i = .keyword .kwEnd
  · have hplain : env.tokens.behindPrefix i = i :=
      behindPrefix_of_plain (by rw [hend]; exact nofun) (by rw [hend]; rfl)
    simp [hplain, hend, TokenStream.isAccessor, property]
  · simp [hend]

theorem run_node {r : Rule} {body : Parse Unit}
    (h : body env { s with children := [], isPartial := false } = .ok () s₁) :
    ∃ n s', node r body env s = .ok n s' ∧ NodeUpTo s₁ n s' := by
  unfold node
  rw [Parse.construct_eq]
  rw [h]
  exact ⟨_, _, rfl, rfl, rfl⟩

/-- With a value, the header of a property is not at the end of its line. -/
theorem run_optionalValue {f : Field}
    (h : (memberClauses >>= fun _ => endStatement) env s = .ok () s₁) :
    optionalValue f env s = .ok () s := by
  have hkind : (env.kind s == .mark .equal) = false := by
    refine Bool.eq_false_iff.2 fun hequal => ?_
    have hequal : env.kind s = .mark .equal := beq_iff_eq.1 hequal
    have hclauses : memberClauses env s = .ok () s := by
      refine repeatWhile_of_false ?_
      rw [Looks.peek.run_bind, hequal]
      rfl
    rw [run_bind, hclauses] at h
    obtain ⟨hend, -⟩ | ⟨-, hend | hend⟩ := endStatement_eq_ok h
    all_goals
      rw [hequal] at hend
      cases hend
  unfold optionalValue acceptMark accept atKind
  rw [run_bind, (Looks.test _).run_bind, hkind]
  rfl

theorem lawful_property : property.Lawful where
  header := ⟨propertyRest, isHeaderRest_property, propertyLine_eq⟩
  idle t i hidle hgoes := by
    rcases hgoes with hsome | ⟨hend, -⟩
    · change (TokenStream.propertyAccessorOf? _).isSome = true at hsome
      rw [TokenStream.isSome_propertyAccessorOf?] at hsome
      have hbehind := hidle.2
      rw [TokenStream.opensAccessor_of_isAccessor hsome] at hbehind
      cases hbehind
    · have hplain := hidle.1
      rw [hend] at hplain
      cases hplain
  consumes := consumes_propertyItem
  item := round_propertyItem
  blank env s h := by
    obtain ⟨s₁, hrun, hcursor⟩ := cursor_of_blank h
    refine ⟨s₁, ?_, hcursor⟩
    change propertyItem env s = _
    unfold propertyItem
    rw [Looks.peek.run_bind, if_pos h]
    exact hrun
  takes env s s₁ s₃ hheader hgoes hrest := by
    have hline : propertyLine env { s with children := [], isPartial := false } =
        .ok () s₁ := hheader
    have hbody :
        (currentLine >>= fun line => propertyLine >>= fun _ => property.behindHeader line) env
        { s with children := [], isPartial := false } = .ok () s₃ := by
      rw [Looks.currentLine.run_bind, run_bind, hline]
      exact hrest
    simp only [propertyLine, bind_assoc] at hbody
    obtain ⟨n, s', hrun, hnode⟩ := run_node (r := .propertyDeclaration) hbody
    refine ⟨n, s', (run_resolve (propertyLine_eq ▸ hline) _ _ s).trans ?_, hnode⟩
    exact firstFit_cons_of_fits ((propertyHasAccessors_iff env s).2 hgoes) hrun
  leaves env s s₁ hheader hgoes := by
    have hline : propertyLine env { s with children := [], isPartial := false } =
        .ok () s₁ := hheader
    obtain ⟨_, s₂, hname, hrest⟩ := bind_eq_ok hline
    have hbody : ((do
        propertyHeader
        optionalValue .initializer
        memberClauses) >>= fun _ => endStatement)
          env { s with children := [], isPartial := false } = .ok () s₁ := by
      rw [bind_assoc, run_bind, hname]
      simp only [bind_assoc]
      rw [run_bind, run_optionalValue hrest]
      exact hrest
    obtain ⟨n, s', hrun, hnode⟩ := run_node (r := .propertyDeclaration) hbody
    refine ⟨n, s', (run_resolve (propertyLine_eq ▸ hline) _ _ s).trans ?_, hnode⟩
    rw [Parse.firstFit_cons_eq]
    rw [if_neg fun hviable => hgoes ((propertyHasAccessors_iff env s).1 hviable)]
    exact firstFit_cons_of_fits rfl hrun

-- ---------------------------------------------------------------------------
-- Events
-- ---------------------------------------------------------------------------

theorem isRow_of_eventAccessor {r : Rule} {word : Keyword} {c : Node} {s₁ : State}
    (hrow : env.tokens.eventAccessor? s.cursor = some r)
    (hrun : (eventAccessor r word).nested env s = .ok c s₁) :
    event.IsRow env.tokens s.cursor c := by
  obtain ⟨hkind, hfirst⟩ := node_eq_ok hrun
  refine ⟨hfirst, fun r' hr' => ?_⟩
  rw [hkind, Option.some.inj (hrow.symm.trans hr')]

theorem round_eventAccessor {r : Rule} {word : Keyword}
    (hrow : env.tokens.eventAccessor? s.cursor = some r) :
    event.Round env s ((do
      Production.child (eventAccessor r word).nested
      return true) env s) :=
  .child (.nested (.eventAccessor r word)) (Aside.node r _).isPart.nested
    fun _ _ hrun => isRow_of_eventAccessor hrow hrun

theorem round_eventItem (env : Env) (s : State) : event.Round env s (eventItem env s) := by
  have hrow : env.tokens.eventAccessor? s.cursor = TokenStream.eventAccessorOf? (env.kind s) := rfl
  unfold eventItem
  rw [Looks.peek.run_bind]
  generalize env.kind s = kind at hrow
  split
  · exact .blank hrow
  · exact .blank hrow
  · exact round_eventAccessor hrow
  · exact round_eventAccessor hrow
  · exact round_eventAccessor hrow
  · refine .unlessAtBoundary _ (Eq.trans hrow ?_)
    unfold TokenStream.eventAccessorOf?
    split
    all_goals first | contradiction | rfl

theorem eventHasAccessors_iff (env : Env) (s : State) :
    env.eventHasAccessors s = true ↔ event.GoesOn env.tokens (env.tokens.nextLine s.cursor) := by
  unfold Env.eventHasAccessors GoesOn
  generalize env.tokens.nextLine s.cursor = i
  change _ ↔ (TokenStream.eventAccessorOf? _).isSome = true ∨ _
  rw [TokenStream.isSome_eventAccessorOf?]
  by_cases hend : env.tokens.kindAt i = .keyword .kwEnd
  · simp [hend, TokenStream.isEventAccessor, event]
  · simp [hend]

theorem lawful_event : event.Lawful where
  header := ⟨eventRest, isHeaderRest_event, eventHeader_eq⟩
  idle t i hidle hgoes := by
    have hplain := hidle.1
    rcases hgoes with hsome | ⟨hend, -⟩
    · change (TokenStream.eventAccessorOf? _).isSome = true at hsome
      rw [TokenStream.isSome_eventAccessorOf?] at hsome
      rw [TokenStream.opensAccessor_of_isEventAccessor hsome] at hplain
      cases hplain
    · rw [hend] at hplain
      cases hplain
  consumes := consumes_eventItem
  item := round_eventItem
  blank env s h := by
    obtain ⟨s₁, hrun, hcursor⟩ := cursor_of_blank h
    refine ⟨s₁, ?_, hcursor⟩
    change eventItem env s = _
    unfold eventItem
    rw [Looks.peek.run_bind]
    generalize env.kind s = kind at h
    cases kind with
    | newline => exact hrun
    | mark mark =>
      cases mark with
      | colon => exact hrun
      | _ => cases h
    | _ => cases h
  takes env s s₁ s₃ hheader hgoes hrest := by
    have hline : eventHeader env { s with children := [], isPartial := false } =
        .ok () s₁ := hheader
    have hbody : (currentLine >>= fun line => eventHeader >>= fun _ => event.behindHeader line) env
        { s with children := [], isPartial := false } = .ok () s₃ := by
      rw [Looks.currentLine.run_bind, run_bind, hline]
      exact hrest
    obtain ⟨n, s', hrun, hnode⟩ := run_node (r := .eventDeclaration) hbody
    refine ⟨n, s', (run_resolve (eventHeader_eq ▸ hline) _ _ s).trans ?_, hnode⟩
    exact firstFit_cons_of_fits ((eventHasAccessors_iff env s).2 hgoes) hrun
  leaves env s s₁ hheader hgoes := by
    have hline : eventHeader env { s with children := [], isPartial := false } =
        .ok () s₁ := hheader
    obtain ⟨n, s', hrun, hnode⟩ := run_node (r := .eventDeclaration) hline
    refine ⟨n, s', (run_resolve (eventHeader_eq ▸ hline) _ _ s).trans ?_, hnode⟩
    rw [Parse.firstFit_cons_eq]
    rw [if_neg fun hviable => hgoes ((eventHasAccessors_iff env s).1 hviable)]
    exact firstFit_cons_of_fits rfl hrun

end Accessored

/-- Every property and every event of every source, wherever it stands and however little may be
nested, has accessors exactly if no line ends within its header and they begin behind it. -/
theorem accessors_decided (source : List Char) (limit depth : Nat) :
    Accessored.property.Decided ⟨source, TokenStream.ofText source, limit, depth⟩ ∧
      Accessored.event.Decided ⟨source, TokenStream.ofText source, limit, depth⟩ := by
  have hlasting : (TokenStream.ofText source).Lasting :=
    (TokenStream.ordered_ofText source).kindAt_ne
  exact ⟨Accessored.lawful_property.decided .propertyItem hlasting,
    Accessored.lawful_event.decided .eventItem hlasting⟩

/-- A property with an accessor, and with attributes that end with the given text. -/
def attributed (text : String) : List Char :=
  ("Class C\n<A>" ++ text ++
    "Property P As Integer\nGet\nReturn 1\nEnd Get\nEnd Property\nEnd Class\n").toList

/-- Attributes on a line of their own hide the accessors of a property. -/
theorem exists_accessorsMissed :
    (∃ n ∈ (Tree.parse (attributed " ")).root.preorder, n.kind = .rule .propertyDeclaration ∧
      ∃ c ∈ n.children, c.kind = .rule .getAccessor) ∧
    (¬∃ n ∈ (Tree.parse (attributed "\n")).root.preorder, n.kind = .rule .propertyDeclaration ∧
      ∃ c ∈ n.children, c.kind = .rule .getAccessor) ∧
    (Tree.parse (attributed "\n")).sexp ≠ (Tree.parse (attributed " ")).sexp := by
  decide +kernel

end VisualBasic
