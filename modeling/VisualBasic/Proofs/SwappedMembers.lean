import VisualBasic.Proofs.Fronting

/-!
# Members with a colon for a line end

Routines, events and the accessors of properties. A routine and an event have two forms, and the
lines ahead tell which one there is. They treat the terminators alike, but for the search for the
word behind attributes and modifiers, which the member itself has read in either form.

Main results:

* `Swaps.twoForms` — a declaration of two forms, told apart by the lines ahead.
* `Swaps.routine`, `Swaps.eventDeclaration` — with or without a body.
* `Swaps.accessor`, `Swaps.headed_accessor` — an accessor, and the word that it has read.
-/

namespace VisualBasic.Production

open State Watch

variable {off : Bool}

-- The instance that is found for a production is as large as its text.
set_option synthInstance.maxSize 4000

-- ---------------------------------------------------------------------------
-- Where members begin
-- ---------------------------------------------------------------------------

namespace Headed

/-- The lines that are read behind attributes and modifiers, and have no statements. -/
theorem quiet {α : Type} [Bears α] {q : Parse α} [Disregards true true q]
    [∀ t k, Yields (TokenStream.ending t k) q] (henters : Enters q) :
    Headed (Production.declarationPrefix >>= fun _ => q) :=
  declarationPrefix Swaps.quiet henters

/-- The opening line of a routine reads its word behind attributes and modifiers. -/
theorem routineHeader {isConstructor : Bool} : Headed (Production.routineHeader isConstructor) := by
  have hbehind (word : Keyword) : Disregards true true (do
      if isConstructor then Production.expectWord .kwNew
      else Production.field .name Production.identifier
      Production.signature (word == .kwFunction)
      Production.memberClauses
      Production.endStatement
      return word) := inferInstance
  refine checkDepth fun _ => @declarationPrefix _ _ _ ?_ (.routineWord hbehind)
  refine Swaps.peek rfl Swaps.failThen fun kind _ => ?_
  dsimp only
  split
  · rw [pure_bind]
    infer_instance
  · rw [pure_bind]
    infer_instance
  · exact Swaps.failThen

/-- So does that of a property. -/
theorem propertyHeader : Headed Production.propertyHeader := by
  refine checkDepth fun _ => quiet ?_
  exact (Enters.expectWord _).bind

theorem eventHeader : Headed Production.eventHeader := by
  refine checkDepth fun _ => quiet ?_
  exact (Enters.expectWord _).bind

/-- A routine begins with its opening line. -/
theorem routineWithBody {r : Rule} [Holds r.isLine] : Headed (Production.routineWithBody r) := by
  refine node (look Looks.currentLine fun line => bind routineHeader Swaps.quiet fun word => ?_)
  infer_instance

theorem routineWithoutBody {r : Rule} [Holds r.isLine] : Headed (Production.routineWithoutBody r) :=
  node (bind routineHeader Swaps.quiet fun _ => inferInstance)

/-- It does so in either form. -/
theorem routine {a : Ambiguity} {r : Rule} [Holds r.isLine] : Headed (Production.routine a r) :=
  twoForms routineWithBody routineWithoutBody

end Headed

namespace Swaps

-- ---------------------------------------------------------------------------
-- Routines
-- ---------------------------------------------------------------------------

/-- The statements of a routine and its closing line may end with the terminator. -/
instance routineWithBody {r : Rule} [Holds r.isLine] :
    Swaps off (Production.routineWithBody r) := by
  unfold Production.routineWithBody
  infer_instance

/-- A routine without a body is one line. -/
instance routineWithoutBody {r : Rule} [Holds r.isLine] :
    Swaps off (Production.routineWithoutBody r) := by
  unfold Production.routineWithoutBody
  infer_instance

/-- A declaration that has another form if the lines ahead do not say otherwise. The first form fits
where the second does, so what counts is what the lines ahead say. -/
theorem twoForms {a : Ambiguity} {viable : Env → State → Bool} {p q : Parse Node} (hp : Swaps off p)
    (hq : Swaps off q) (hfits : ∀ env s n s', q env s = .ok n s' → ∃ m t, p env s = .ok m t)
    (hviable : ∀ {k env env' s n s'}, Crossing k env env' s [n] s' → p env s = .ok n s' ∨
      q env s = .ok n s' →
      viable env' s = viable env s) :
    Swaps off (Production.resolve a [{ viable, production := p }, { production := q }]) := by
  have hkeeps : Keeps Always off { viable, production := p } := fun h _ _ hx =>
    (hviable h (.inl hx.run)).trans hx.viable
  have hway : GivesWay Always off { viable, production := p } { production := q } := by
    intro k env env' s n s' h _ _ hrun _ hfails m t hfirst
    obtain ⟨m', t', hfirst'⟩ := hfits env s n s' hrun
    have hsame := hviable h (.inr hrun)
    exact hfails m' t' ⟨hsame.symm.trans hfirst.viable, hfirst'⟩
  refine resolve ?_ ?_ ?_
  · simp only [List.forall_mem_cons]
    exact ⟨hp, hq, List.forall_mem_nil _⟩
  · simp only [List.forall_mem_cons]
    exact ⟨hkeeps, fun _ _ _ _ => rfl, List.forall_mem_nil _⟩
  · simp only [List.pairwise_cons, List.forall_mem_cons]
    exact ⟨⟨hway, List.forall_mem_nil _⟩, List.forall_mem_nil _, .nil⟩

/-- Whether a routine has a body is told the same, if its word is in front of the terminator. -/
theorem routineHasBody_eq {k : Nat} {env env' : Env} {s : State} (henv : env.Swapped k env')
    (hbehind : env'.tokens.behindPrefix s.cursor = env.tokens.behindPrefix s.cursor)
    (hkind : env'.tokens.kindAt (env'.tokens.behindPrefix s.cursor) =
      env.tokens.kindAt (env.tokens.behindPrefix s.cursor)) : env'.routineHasBody s =
        env.routineHasBody s := by
  unfold Env.routineHasBody
  dsimp only
  rw [hkind, hbehind, henv.tokens.someIn rfl, henv.tokens.lineEnd, henv.tokens.bodyFollows,
    henv.tokens.bodyFollows]

/-- Whether a body follows is seen from the lines behind the routine, in which only one terminator
differs. -/
instance routine {a : Ambiguity} {r : Rule} [Holds r.isLine] :
    Swaps off (Production.routine a r) := by
  refine twoForms routineWithBody routineWithoutBody (fun env s n s' hrun => ?_)
    fun {k env env' s n s'} h hchoice => ?_
  · exact (fits_iff (fun l word => (neverFails_openBlockAt word l).bind
      fun _ => .blockRest _) env s).2
      ⟨n, s', hrun⟩
  · have hfronts : Fronts env.tokens s.cursor s [n] s' := by
      rcases hchoice with hrun | hrun
      · exact Headed.routineWithBody.fronts h.ordered h.le_size hrun h.calm
      · exact Headed.routineWithoutBody.fronts h.ordered h.le_size hrun h.calm
    exact routineHasBody_eq h.toSwapped (hfronts.behindPrefix h (Nat.le_refl _))
      (hfronts.kind h (Nat.le_refl _))

-- ---------------------------------------------------------------------------
-- Events
-- ---------------------------------------------------------------------------

/-- The statements of an accessor and its closing line may end with the terminator. -/
instance eventAccessor {r : Rule} [Holds r.isLine] {word : Keyword} :
    Swaps true (Production.eventAccessor r word) := by
  have hheader : Flows 0 false (.plain false) false (do
      Production.optionalParameters
      Production.endStatement) :=
    Phrase.seq Phrase.optionalParameters Phrase.endStatement
  have hline : Swaps false (Production.recovering do
      Production.optionalParameters
      Production.endStatement) :=
    recovering quiet hheader.climbs hheader.hushed
  unfold Production.eventAccessor
  infer_instance

/-- An accessor is told by its word, which is no terminator. -/
instance eventItem : Swaps off Production.eventItem := by
  have hblank : Swaps off (do
      Production.child Production.blankLine
      return true : Parse Bool) := by
    unfold Production.blankLine
    infer_instance
  refine peek rfl hblank fun kind hkind => ?_
  split
  · cases hkind
  · cases hkind
  all_goals infer_instance

/-- Whether accessors follow is seen from the next line. -/
instance eventDeclaration : Swaps off Production.eventDeclaration := by
  have hwith : Swaps off Production.eventWithAccessors := by
    unfold Production.eventWithAccessors
    infer_instance
  have hwithout : Swaps off Production.eventWithoutAccessors := quiet
  refine twoForms hwith hwithout (fun env s n s' hrun => ?_) fun h _ => ?_
  · have hrest (l : Nat) : NeverFails (Production.openBlockAt .kwEvent l >>= fun _ => do
        Production.repeatWhile Production.eventItem
        Production.finishBlock .kwEvent) :=
      (neverFails_openBlockAt _ l).bind fun _ =>
        (NeverFails.repeatWhile .eventItem).bind fun _ => NeverFails.finishBlock .kwEvent
    have hfits : (∃ n s₁, Production.eventWithAccessors env s = .ok n s₁) ↔ _ :=
      fits_iff (fun l _ => hrest l) env s
    rw [bind_pure_unit] at hfits
    exact hfits.2 ⟨n, s', hrun⟩
  · unfold Env.eventHasAccessors
    dsimp only
    rw [h.tokens.nextLine, h.tokens.beq_kindAt rfl, h.tokens.beq_kindAt rfl,
      h.tokens.alike TokenStream.isEventAccessor rfl]

-- ---------------------------------------------------------------------------
-- Accessors of properties
-- ---------------------------------------------------------------------------

/-- Either accessor is read again, and has its attributes and modifiers in front of its word. -/
theorem accessorOf (rule : Rule) [Holds rule.isLine] (word : Keyword)
    (hword : (TokenKind.keyword word).isWord = true)
    {accessor : Parse Node} (haccessor : accessor = Production.node rule do
      Production.openBlock word
      Production.recovering do
        Production.declarationPrefix
        Production.expectWord word
        if word == .kwSet then Production.optionalParameters
        Production.endStatement
      Production.statements Production.statement
      Production.finishBlock word) : (∀ off, Swaps off accessor) ∧ Headed accessor := by
  subst haccessor
  have hrest (off : Bool) : Disregards true off (do
      Production.expectWord word
      if word == .kwSet then Production.optionalParameters
      Production.endStatement) := inferInstance
  have henters : Enters (do
      Production.expectWord word
      if word == .kwSet then Production.optionalParameters
      Production.endStatement) := (Enters.expectWord _).bind
  have hline (off : Bool) : Disregards true off (do
      Production.declarationPrefix
      Production.expectWord word
      if word == .kwSet then Production.optionalParameters
      Production.endStatement) := .before .declarationPrefix (hrest true) henters
  have hheader : Flows 0 false {} false (do
      Production.declarationPrefix
      Production.expectWord word
      if word == .kwSet then Production.optionalParameters
      Production.endStatement) := by
    refine Phrase.seqAny Phrase.declarationPrefix (Phrase.seq (Phrase.expectWord (.word hword)) ?_)
    exact Phrase.ite (fun _ => Phrase.seq Phrase.optionalParameters Phrase.endStatement)
      fun _ => Phrase.endStatement
  have hrecovering (off : Bool) : Swaps off (Production.recovering do
      Production.declarationPrefix
      Production.expectWord word
      if word == .kwSet then Production.optionalParameters
      Production.endStatement) := recovering quiet hheader.climbs hheader.hushed
  refine ⟨fun off => node, .node (.openBlock fun _ => .bind (.recovering ?_ hheader.hushed)
    (hrecovering true) ?_)⟩
  · exact .quiet henters
  · infer_instance

/-- An accessor reads its word behind attributes and modifiers. -/
theorem headed_accessor : Headed Production.accessor := by
  refine .look Looks.peekBehindPrefix fun kind => ?_
  by_cases h : (kind == .keyword .kwGet) = true
  · rw [if_pos h]
    exact (accessorOf .getAccessor .kwGet rfl rfl).2
  · rw [if_neg h]
    exact (accessorOf .setAccessor .kwSet rfl rfl).2

/-- So the word is the same in both streams. -/
instance accessor : Swaps off Production.accessor := by
  refine lookAlike Looks.peekBehindPrefix (fun env s => ?_) fun {k env env' s n s'} h hrun _ _ => ?_
  · by_cases hget : (env.tokens.kindAt (env.tokens.behindPrefix s.cursor) == .keyword .kwGet) = true
    · rw [if_pos hget]
      exact (accessorOf .getAccessor .kwGet rfl rfl).1 off
    · rw [if_neg hget]
      exact (accessorOf .setAccessor .kwSet rfl rfl).1 off
  · have hrun : Production.accessor env s = .ok n s' := by
      unfold Production.accessor
      rw [Looks.peekBehindPrefix.run_bind]
      exact hrun
    exact (headed_accessor.fronts h.ordered h.le_size hrun h.calm).kind h (Nat.le_refl _)

end Swaps

end VisualBasic.Production
