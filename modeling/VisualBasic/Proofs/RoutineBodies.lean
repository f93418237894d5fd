import VisualBasic.Proofs.ErrorAccounting
import VisualBasic.Proofs.Halting

/-!
# The bodies of routines

The search for the body of a routine goes over lines, and the body is then read by statements, which
go over lines, open blocks and may leave them open. Where the search meets the closing line of the
routine before the next member and before the closing line of a type, both come to the same: the
routine has a body, and if there is no error region in it, it is closed by just this line. In front
of that line no statement goes past it, and the statements do not end at a line that they could not
go past: what ends them belongs to the routine, to a type around it or to the next member.

Main results:

* `eq_of_atBoundary` — statements in a routine end at its closing line.
* `bodies_foreseen` — the search for the body of a routine agrees with what is read.
-/

namespace VisualBasic

-- ---------------------------------------------------------------------------
-- What is foreseen
-- ---------------------------------------------------------------------------

/-- Types and namespaces are open, and the innermost is a type in which routines have bodies. -/
structure State.InType (s : State) : Prop where
  innermost : ∃ word, s.innermost? = some word ∧ word.holdsMembers = true ∧ word ≠ .kwInterface
  around : ∀ block ∈ s.blocks, TokenStream.closesType (.keyword block.opener) = true

/-- The rule of the routine that the word at the index announces, if it announces one. -/
def TokenStream.routineRule? (t : TokenStream) (i : Nat) : Option Rule :=
  match t.kindAt i with
  | .keyword .kwSub =>
    some (if t.kindAt (i + 1) == .keyword .kwNew then .constructorDeclaration
      else .methodDeclaration)
  | .keyword .kwFunction => some .methodDeclaration
  | _ => none

namespace Production

/-- A method or a constructor whose header parses, that is not to be overridden, and whose closing
line begins at `e` and is met first behind the header. -/
structure ClosesFirst (env : Env) (s : State) (r : Rule) (word : Keyword) (e : Nat) : Prop where
  le_size : s.cursor ≤ env.tokens.tokens.size
  inType : s.InType
  announced : env.tokens.routineRule? (env.tokens.behindPrefix s.cursor) = some r
  bodied : env.tokens.someIn (· == .keyword .kwMustOverride) s.cursor
    (env.tokens.behindPrefix s.cursor) = false
  closes : ∃ s₁ : State,
    routineHeader (r == .constructorDeclaration) env { s with children := [], isPartial := false } =
      .ok word s₁ ∧ env.tokens.MeetsCloser word s₁.cursor e

/-- Every such routine is read with its body, and without an error region in it, it is closed by the
line at `e`. -/
def BodiesForeseen (env : Env) : Prop :=
  ∀ typeDeclaration (s : State) r word e, ClosesFirst env s r word e →
    env.routineHasBody s = true ∧ ∃ n s', routineWithBody r env s = .ok n s' ∧
      member typeDeclaration env s = .ok n s' ∧
      ((∀ m ∈ n.preorder, m.kind ≠ .rule .error) → n.flags.isPartial = false ∧
        ∃ before, n.children = before ++ wordLeaves env.tokens [.kwEnd, word] e)

-- ---------------------------------------------------------------------------
-- Where the statements end
-- ---------------------------------------------------------------------------

variable {env : Env} {s s₁ s' : State}

/-- A terminator or the end of the text begins no member. -/
theorem startsMember_of_endsLine {t : TokenStream} {i : Nat} (h : (t.kindAt i).endsLine = true) :
    t.startsMember i = false := by
  have hplain : TokenStream.isMemberModifier (t.kindAt i) = false ∧ t.kindAt i ≠ .mark .less ∧
      (t.kindAt i).opensMember = false := by
    generalize t.kindAt i = kind at h
    unfold TokenKind.endsLine at h
    split at h
    · exact ⟨rfl, nofun, rfl⟩
    · exact ⟨rfl, nofun, rfl⟩
    · exact ⟨rfl, nofun, rfl⟩
    · cases h
  have hword : t.firstFrom (!TokenStream.isMemberModifier ·) i = i := by
    rw [TokenStream.firstFrom, hplain.1]
    rfl
  unfold TokenStream.startsMember
  rw [hword]
  simp [TokenStream.someIn, hplain]

/-- Where a routine and the types around it are open, no block of another word is. -/
theorem isOpen_eq_false {word opener : Keyword}
    (hblocks : ∀ block ∈ s.blocks, block.opener = word ∨
      TokenStream.closesType (.keyword block.opener) = true)
    (hother : opener ≠ word) (htype : TokenStream.closesType (.keyword opener) = false) :
    s.isOpen opener = false := by
  refine Bool.eq_false_iff.2 fun hat => ?_
  obtain ⟨block, hmem, hblock⟩ := List.any_eq_true.1 hat
  obtain rfl := beq_iff_eq.1 hblock
  rcases hblocks block hmem with heq | htype'
  · exact hother heq
  · rw [htype] at htype'
    cases htype'

/-- Statements in a routine whose closing line is met first, and that end with their lines in front
of it, end at this line. -/
theorem eq_of_atBoundary (ht : env.tokens.Lasting) {word : Keyword} (hword : word.OpensRoutine)
    (hblocks : ∀ block ∈ s.blocks, block.opener = word ∨
      TokenStream.closesType (.keyword block.opener) = true)
    {i e : Nat} (h : env.tokens.MeetsCloser word i e) (his : i ≤ s.cursor) (hse : s.cursor ≤ e)
    (hrest : env.tokens.AtRest s.cursor) (hat : env.atBoundary s = true) : s.cursor = e := by
  refine Decidable.byContradiction fun hne => ?_
  have hlt : s.cursor < e := Nat.lt_of_le_of_ne hse hne
  have hline (hbegins : env.tokens.BeginsLine s.cursor) := h.inner s.cursor his hlt hbegins
  have hnone (opener : Keyword) (hsub : opener ≠ .kwSub) (hfunction : opener ≠ .kwFunction)
      (htype : TokenStream.closesType (.keyword opener) = false) : s.isOpen opener = false :=
    isOpen_eq_false hblocks (hword.ne hsub hfunction) htype
  unfold Env.atBoundary at hat
  split at hat
  case h_1 hkind => exact ht s.cursor (Nat.lt_trans hlt h.lt_size) hkind
  case h_2 hkind =>
    have hbars := hrest.bars hkind
    obtain ⟨hother, htype⟩ := (hline ⟨hbars.1, hbars.2.1⟩).closes hkind
    split at hat
    · rename_i opener hopener
      have hopener : env.tokens.kindAt (s.cursor + 1) = .keyword opener := hopener
      rw [hopener] at hother htype
      have hclosed :=
        isOpen_eq_false hblocks (fun heq => hother (congrArg TokenKind.keyword heq)) htype
      rw [hclosed, Bool.and_false] at hat
      cases hat
    · cases hat
  case h_3 =>
    rw [hnone .kwDo (by decide) (by decide) rfl] at hat
    cases hat
  case h_4 =>
    rw [hnone .kwFor (by decide) (by decide) rfl] at hat
    cases hat
  case h_5 | h_6 =>
    rw [hnone .kwIf (by decide) (by decide) rfl] at hat
    cases hat
  case h_7 =>
    rw [hnone .kwSelect (by decide) (by decide) rfl] at hat
    cases hat
  case h_8 | h_9 =>
    rw [hnone .kwTry (by decide) (by decide) rfl] at hat
    cases hat
  case h_10 | h_11 =>
    rw [hnone .kwProperty (by decide) (by decide) rfl] at hat
    cases hat
  case h_12 | h_13 | h_14 =>
    rw [hnone .kwEvent (by decide) (by decide) rfl] at hat
    cases hat
  case h_15 =>
    have hstart := (Bool.and_eq_true_iff.1 hat).2
    rcases hrest with hbegins | hends | helse
    · rw [(hline ⟨hbegins.1, hbegins.2⟩).startsMember] at hstart
      cases hstart
    · rw [startsMember_of_endsLine hends] at hstart
      cases hstart
    · contradiction

-- ---------------------------------------------------------------------------
-- The body that is read
-- ---------------------------------------------------------------------------

/-- A body that is read ends at a line that ends it. -/
theorem atBoundary_of_body {item : Parse Unit} (hconsumes : Consumes (bodyItem item))
    (hs : s.cursor ≤ env.tokens.tokens.size) (hrun : body item env s = .ok () s') :
    env.atBoundary s' = true := by
  have hrounds := (hconsumes.loopRun_iff hs).2 hrun
  clear hrun hs
  generalize hresult : (EStateM.Result.ok () s' : EStateM.Result Failure State Unit) =
    result at hrounds
  induction hrounds with
  | @stop s s₁ h =>
    cases hresult
    unfold bodyItem Production.atBoundary at h
    rw [(Looks.test _).run_bind] at h
    split at h
    · cases h
      assumption
    · obtain ⟨_, s₂, -, hmore⟩ := bind_eq_ok h
      cases hmore
  | fails => cases hresult
  | again _ _ ih => exact ih hresult

/-- A routine whose header parses is read with its body, whatever stands in it. -/
theorem run_routineWithBody {r : Rule} {word : Keyword}
    (hheader : routineHeader (r == .constructorDeclaration) env
      { s with children := [], isPartial := false } = .ok word s₁) :
    ∃ s₂ s₃ n, Production.statements statement env
        { s₁ with blocks := ⟨word, env.line s⟩ :: s₁.blocks } = .ok () s₂ ∧
      Production.finishBlock word env s₂ = .ok () s₃ ∧
      routineWithBody r env s = .ok n { s₃ with children := s.children, isPartial := s.isPartial } ∧
      n.children = s₃.children.reverse ∧ n.flags.isPartial = s₃.isPartial := by
  obtain ⟨_, s₂, hbody⟩ := NeverFails.statements .statement env
    { s₁ with blocks := ⟨word, env.line s⟩ :: s₁.blocks }
  obtain ⟨_, s₃, hfinish⟩ := NeverFails.finishBlock word env s₂
  have hrun : (do
      let line ← currentLine
      let word ← routineHeader (r == Rule.constructorDeclaration)
      openBlockAt word line
      Production.statements statement
      Production.finishBlock word) env { s with children := [], isPartial := false } =
        .ok () s₃ := by
    rw [Looks.currentLine.run_bind, run_bind, hheader]
    change (Production.statements statement >>= fun _ => Production.finishBlock word) env
      { s₁ with blocks := ⟨word, env.line s⟩ :: s₁.blocks } = _
    rw [run_bind, hbody]
    exact hfinish
  have hnode : ∃ n, routineWithBody r env s =
      .ok n { s₃ with children := s.children, isPartial := s.isPartial } ∧
      n.children = s₃.children.reverse ∧ n.flags.isPartial = s₃.isPartial := by
    unfold routineWithBody node
    rw [Parse.construct_eq, hrun]
    exact ⟨_, rfl, rfl, rfl⟩
  obtain ⟨n, hnode⟩ := hnode
  exact ⟨s₂, s₃, n, hbody, hfinish, hnode⟩

/-- Without an error region in it, a routine leaves none behind. -/
theorem unbroken_of_routineWithBody {r : Rule} [Holds r.isPlain] {n : Node}
    (hs : s.cursor ≤ env.tokens.tokens.size) (hrun : routineWithBody r env s = .ok n s')
    (hn : ∀ m ∈ n.preorder, m.kind ≠ .rule .error) : s.Unbroken s' := by
  have hbuilt := Builds.routineWithBody (r := r) env s (.zero hs)
  rw [hrun] at hbuilt
  obtain ⟨ds, -, hreading, hds⟩ := hbuilt.2.reading
  have hnone : (Node.preorders [n]).filter (·.kind == .rule .error) = [] := by
    refine List.filter_eq_nil_iff.2 fun m hm => ?_
    obtain ⟨_, hmem, hbelow⟩ := Node.mem_preorders.1 hm
    obtain rfl := List.mem_singleton.1 hmem
    simpa using hn m hbelow
  have hrel := hreading.rel_regions
  rw [hnone] at hrel
  have hregions := (Multiset.coe_eq_zero _).1 (Multiset.rel_zero_right.1 hrel)
  unfold State.Unbroken
  rw [hds, List.countP_append, List.countP_eq_length_filter, hregions]
  simp

/-- What stands behind the header of a routine: without an error region, the statements end at its
closing line, and the line is read. -/
theorem closes_of_unbroken (ht : env.tokens.Lasting) {word : Keyword} (hword : word.OpensRoutine)
    {e : Nat} {s₂ s₃ : State} (hs : s.cursor ≤ env.tokens.tokens.size)
    (hblocks : ∀ block ∈ s.blocks, block.opener = word ∨
      TokenStream.closesType (.keyword block.opener) = true)
    (hrest : env.tokens.AtRest s.cursor) (h : env.tokens.MeetsCloser word s.cursor e)
    (hbody : Production.statements statement env s = .ok () s₂)
    (hfinish : Production.finishBlock word env s₂ = .ok () s₃) (hwhole : s.Unbroken s₃) :
    s₃.isPartial = s.isPartial ∧
      s₃.children = (wordLeaves env.tokens [.kwEnd, word] e).reverse ++ s₂.children := by
  have hsteps : Steps .loud 0 false (Production.statements statement) := .statements .statement
  have hadvanced := hsteps env s (.zero hs)
  rw [hbody] at hadvanced
  obtain ⟨-, ds, -, hadvanced⟩ := hadvanced
  have hcloser : word.closer = [.kwEnd, word] := by
    rcases hword with rfl | rfl
    · rfl
    · rfl
  have hhalts : Halts word {} .stays (Production.statements statement) :=
    .statements (.statement hword)
  have hend : Halts word {} .rests Production.endStatement := .endStatement
  have hlater := hhalts.climbs.ok hs hbody
  -- The statements end at the closing line.
  have hlater' : State.Later env.tokens s₂ s₃ :=
    ((Climbs.closeBlock word).bind fun _ => .ite (.recovering hend.climbs) (.pure ())).ok
    hlater.le_size hfinish
  obtain ⟨hends, hle⟩ :=
    hhalts.halts env s () s₂ hs (Spot.holds_plain nofun) hbody (hwhole.front hlater')
  have hclosing : env.tokens.ClosingLine word e :=
    ⟨⟨h.begins.pos, h.begins.behind, .inl h.end⟩, h.routine⟩
  have hat : env.atBoundary s₂ = true := atBoundary_of_body OfBody.routine.consumes hs hbody
  rw [← hadvanced.blocks] at hblocks
  obtain rfl := eq_of_atBoundary ht hword hblocks h hlater.cursor (hle e hclosing h.le)
      (hends hrest) hat
  -- And the closing line is read.
  have hcloses : env.atCloser s₂ word = true := by
    unfold Env.atCloser Env.hasAhead
    rw [hcloser]
    simp [Env.kindAhead, h.end, h.routine]
  have hclose := (run_closeBlock hcloses).2
  have hpassed := (Climbs.closeBlock word).ok hlater.le_size hclose
  unfold Production.finishBlock at hfinish
  rw [run_bind, hclose] at hfinish
  rw [hcloser] at hfinish hpassed
  have hstop :=
    ok_of_recovering hend.climbs hpassed.le_size hfinish ((hwhole.back hlater).back hpassed)
  rcases endStatement_eq_ok hstop with ⟨-, rfl⟩ | ⟨rfl, -⟩
  · exact ⟨hadvanced.isPartial, rfl⟩
  · exact ⟨hadvanced.isPartial, rfl⟩

-- ---------------------------------------------------------------------------
-- The member that is read
-- ---------------------------------------------------------------------------

/-- A word that announces a routine is none of the tokens that end a line. -/
theorem isTerminator_of_routineRule? {t : TokenStream} {i : Nat} {r : Rule}
    (h : t.routineRule? i = some r) :
    (t.kindAt i).isTerminator = false := by
  unfold TokenStream.routineRule? at h
  split at h
  · rw [‹t.kindAt i = _›]
    rfl
  · rw [‹t.kindAt i = _›]
    rfl
  · cases h

theorem isPlain_of_routineRule? {t : TokenStream} {i : Nat} {r : Rule}
    (h : t.routineRule? i = some r) :
    r.isPlain = true := by
  unfold TokenStream.routineRule? at h
  split at h
  · split at h
    · cases h
      rfl
    · cases h
      rfl
  · cases h
    rfl
  · cases h

/-- The member that a word announces is the routine. -/
theorem memberProduction?_of_routineRule? (typeDeclaration : Parse Node) {r : Rule}
    (h : env.tokens.routineRule? (env.tokens.behindPrefix s.cursor) = some r) :
    ∃ a, memberProduction? typeDeclaration env s = some (routine a r) := by
  unfold TokenStream.routineRule? at h
  unfold memberProduction?
  dsimp only
  split at h
  · rename_i hkind
    rw [hkind]
    dsimp only
    split at h
    · cases h
      rw [if_pos ‹_›]
      exact ⟨_, rfl⟩
    · cases h
      rw [if_neg ‹_›]
      exact ⟨_, rfl⟩
  · rename_i hkind
    cases h
    rw [hkind]
    exact ⟨_, rfl⟩
  · cases h

/-- A member that has a body is read with it. -/
theorem run_member {typeDeclaration : Parse Node} {r : Rule} {word : Keyword} {n : Node}
    (hannounced : env.tokens.routineRule? (env.tokens.behindPrefix s.cursor) = some r)
    (hheader : routineHeader (r == .constructorDeclaration) env
      { s with children := [], isPartial := false } = .ok word s₁)
    (hhas : env.routineHasBody s = true) (hrun : routineWithBody r env s = .ok n s') :
    member typeDeclaration env s = .ok n s' := by
  have hkind : (env.kind s).isTerminator = false := by
    refine Bool.eq_false_iff.2 fun hterminator => ?_
    have hplain : env.tokens.behindPrefix s.cursor = s.cursor := by
      change (env.tokens.kindAt s.cursor).isTerminator = true at hterminator
      generalize hat : env.tokens.kindAt s.cursor = kind at hterminator
      unfold TokenKind.isTerminator at hterminator
      split at hterminator
      · exact Accessored.behindPrefix_of_plain (by rw [hat]; decide) (by rw [hat]; rfl)
      · exact Accessored.behindPrefix_of_plain (by rw [hat]; decide) (by rw [hat]; rfl)
      · cases hterminator
    have hother := isTerminator_of_routineRule? hannounced
    rw [hplain] at hother
    exact absurd hterminator (Bool.eq_false_iff.1 hother)
  obtain ⟨a, hmember⟩ := memberProduction?_of_routineRule? typeDeclaration hannounced
  have hroutine : routine a r env s = .ok n s' :=
    (run_resolve hheader _ _ s).trans (firstFit_cons_of_fits hhas hrun)
  unfold member
  rw [Looks.peek.run_bind]
  simp [hkind, hmember, Parse.orRecover_eq, hroutine]

/-- The search finds the body of such a routine. -/
theorem ClosesFirst.routineHasBody (ht : env.tokens.Lasting) {r : Rule} {word : Keyword} {e : Nat}
    (h : ClosesFirst env s r word e) : env.routineHasBody s = true := by
  obtain ⟨s₁, hheader, hmeets⟩ := h.closes
  refine routineHasBody_of_header ht h.le_size hheader rfl (fun hinterface => ?_) h.bodied
    (fun hnewline => ?_)
    hmeets
  · obtain ⟨opener, hopener, -, hne⟩ := h.inType.innermost
    rw [hopener] at hinterface
    exact hne (Option.some.inj hinterface)
  · have hother := isTerminator_of_routineRule? h.announced
    rw [hnewline] at hother
    cases hother

/-- For every source text, the search for the bodies of routines agrees with what is read. -/
theorem bodies_foreseen (source : List Char) (limit depth : Nat) :
    BodiesForeseen ⟨source, TokenStream.ofText source, limit, depth⟩ := by
  intro typeDeclaration s r word e h
  have ht : (TokenStream.ofText source).Lasting :=
    fun i => (TokenStream.ordered_ofText source).kindAt_ne i
  generalize henv : (⟨source, TokenStream.ofText source, limit, depth⟩ : Env) = env at h ⊢
  replace ht : env.tokens.Lasting := henv ▸ ht
  have hhas := h.routineHasBody ht
  obtain ⟨s₁, hheader, hmeets⟩ := h.closes
  obtain ⟨s₂, s₃, n, hbody, hfinish, hrun, hchildren, hpartial⟩ := run_routineWithBody hheader
  refine ⟨hhas, n, _, hrun, run_member h.announced hheader hhas hrun, fun hn => ?_⟩
  have : Holds r.isPlain := ⟨isPlain_of_routineRule? h.announced⟩
  have hsteps := Steps.routineHeader (r == .constructorDeclaration) env
    { s with children := [], isPartial := false } (.zero h.le_size)
  rw [hheader] at hsteps
  obtain ⟨-, ds, hds, hadvanced⟩ := hsteps
  obtain ⟨hword, _, s₄, -, -, hend⟩ := run_routineHeader hheader
  have hrest : env.tokens.AtRest s₁.cursor := atRest_of_endStatement hend
  have hblocks : ∀ block ∈ (⟨word, env.line s⟩ : OpenBlock) :: s₁.blocks,
      block.opener = word ∨ TokenStream.closesType (.keyword block.opener) = true := by
    rw [hadvanced.blocks]
    exact List.forall_mem_cons.2 ⟨.inl rfl, fun block hblock => .inr (h.inType.around block hblock)⟩
  have hwhole : s₁.Unbroken s₃ := by
    have hnode := unbroken_of_routineWithBody h.le_size hrun hn
    unfold State.Unbroken at hnode ⊢
    rw [hadvanced.diagnostics, hds (Manner.le_refl _)]
    exact hnode
  obtain ⟨hclosed, hleaves⟩ :=
    closes_of_unbroken (s := { s₁ with blocks := ⟨word, env.line s⟩ :: s₁.blocks })
    ht hword hadvanced.stop_le hblocks hrest hmeets hbody hfinish hwhole
  rw [hpartial, hchildren, hclosed, hleaves, List.reverse_append, List.reverse_reverse]
  exact ⟨hadvanced.isPartial, _, rfl⟩

theorem run'_of_run {α : Type} {p : Parse α} {a : α} (h : p env s = .ok a s') :
    (p env).run' s = some a := by
  show EStateM.run' (fun _ => p env s) s = some a
  rw [h]
  rfl

theorem exists_run_of_run' {α : Type} {p : Parse α} {a : α} (h : (p env).run' s = some a) :
    ∃ s', p env s = .ok a s' := by
  cases hrun : p env s with
  | ok b s₁ =>
    rw [run'_of_run hrun] at h
    cases h
    exact ⟨s₁, rfl⟩
  | error f s₁ =>
    have hnone : EStateM.run' (fun _ => p env s) s = some a := h
    rw [hrun] at hnone
    cases hnone

/-- A class with a method in which a loop is left open. -/
def loopLeftOpen : List Char := "Class C\nSub F()\nWhile x\nEnd Sub\nEnd Class\n".toList

/-- In front of the method, in the class. -/
def inClass : State := { cursor := 3, blocks := [⟨.kwClass, 0⟩] }

/-- The method in which a loop is left open is closed by its own line. -/
theorem bodies_foreseen_loopLeftOpen :
    let env : Env := ⟨loopLeftOpen, TokenStream.ofText loopLeftOpen, 64, 0⟩
    ClosesFirst env inClass .methodDeclaration .kwSub 11 ∧ env.routineHasBody inClass = true ∧
      ∃ n s', routineWithBody .methodDeclaration env inClass = .ok n s' ∧
        (∀ m ∈ n.preorder, m.kind ≠ .rule .error) ∧ n.flags.isPartial = false ∧
        ∃ before, n.children = before ++ wordLeaves env.tokens [.kwEnd, .kwSub] 11 := by
  intro env
  -- One evaluation of the text for all that is asked of it.
  obtain ⟨⟨hsize, hannounced, hbodied⟩, ⟨hinner₈, hinner₉, hbegins, hend, hroutine⟩,
      ⟨hstart, hother⟩, ⟨hword, hcursor⟩, hwhole⟩ :
      (3 ≤ env.tokens.tokens.size ∧
        env.tokens.routineRule? (env.tokens.behindPrefix 3) = some .methodDeclaration ∧
        env.tokens.someIn (· == .keyword .kwMustOverride) 3 (env.tokens.behindPrefix 3) = false) ∧
      ((env.tokens.kindAt 8).isTerminator = false ∧ (env.tokens.kindAt 9).isTerminator = false ∧
        (env.tokens.kindAt 10).isTerminator = true ∧ env.tokens.kindAt 11 = .keyword .kwEnd ∧
        env.tokens.kindAt 12 = .keyword .kwSub) ∧
      (env.tokens.startsMember 8 = false ∧ env.tokens.kindAt 8 ≠ .keyword .kwEnd) ∧
      ((routineHeader false env).run' inClass = some .kwSub ∧
        (lastState (routineHeader false env inClass)).cursor = 8) ∧
      ((routineWithBody .methodDeclaration env).run' inClass).all
        (·.preorder.all (·.kind != .rule .error)) = true := by
    decide +kernel
  have hcloses : ClosesFirst env inClass .methodDeclaration .kwSub 11 := by
    refine ⟨hsize, ⟨⟨.kwClass, rfl, rfl, by decide⟩, by decide⟩, hannounced, hbodied, ?_⟩
    obtain ⟨s₁, hrun⟩ := exists_run_of_run' hword
    rw [hrun] at hcursor
    refine ⟨s₁, hrun, ?_⟩
    rw [show s₁.cursor = 8 from hcursor]
    refine ⟨by decide, ⟨by decide, hbegins⟩, hend, hroutine, fun k hle hlt hline => ?_⟩
    have hbehind := hline.behind
    obtain rfl | rfl | rfl : k = 8 ∨ k = 9 ∨ k = 10 := by omega
    · exact ⟨hstart, fun hat => absurd hat hother⟩
    · exact absurd hbehind (Bool.eq_false_iff.1 hinner₈)
    · exact absurd hbehind (Bool.eq_false_iff.1 hinner₉)
  obtain ⟨hhas, n, s', hrun, -, hclosed⟩ :=
    bodies_foreseen loopLeftOpen 64 0 typeDeclaration inClass .methodDeclaration .kwSub 11 hcloses
  have hn : ∀ m ∈ n.preorder, m.kind ≠ .rule .error := by
    rw [run'_of_run hrun] at hwhole
    simpa using hwhole
  exact ⟨hcloses, hhas, n, s', hrun, hn, hclosed hn⟩

end Production

end VisualBasic
