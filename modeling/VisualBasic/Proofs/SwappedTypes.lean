import VisualBasic.Proofs.SwappedProperties

/-!
# Types with a colon for a line end

What a line of a type declares is told by the word behind its attributes and modifiers, which every
member has read. What follows that word matters, too, but not which terminator it is. The members of
a type know of each other what a property has to know of the line behind it: whether it holds an
accessor.

Main results:

* `Swaps.member` — a member of a type, if it is known what is behind it.
* `foresees_member` — what is known of the line behind a member is known of its own line.
* `swaps_headed_typeDeclarationUpTo` — types in types, by induction on the levels that are left.
-/

namespace VisualBasic.Production

open State Watch TokenStream

variable {off : Bool}

-- The instance that is found for a production is as large as its text.
set_option synthInstance.maxSize 4000

-- ---------------------------------------------------------------------------
-- Declarations without members
-- ---------------------------------------------------------------------------

namespace Headed

/-- A declaration on one line. -/
theorem line {r : Rule} [Holds r.isLine] {q : Parse Unit} [hq : Disregards true true q]
    [∀ t k, Yields (TokenStream.ending t k) q] (henters : Enters q) :
    Headed (Production.line r (Production.declarationPrefix >>= fun _ => q)) := by
  have hcontent : Disregards true true (Production.declarationPrefix >>= fun _ => q) :=
    .before .declarationPrefix hq henters
  exact node (bind (quiet henters) Swaps.quiet fun _ => inferInstance)

/-- A field reads its name behind attributes and modifiers. -/
theorem fieldDeclaration : Headed Production.fieldDeclaration := by
  refine line (.behindWord _ ?_)
  exact (((Enters.identifier.field _).bind.node _).nested.child).commaSeparated

/-- A constant reads its word there. -/
theorem constDeclaration : Headed Production.constDeclaration := line (Enters.expectWord _).bind

/-- So does a delegate. -/
theorem delegateDeclaration : Headed Production.delegateDeclaration := by
  unfold Production.delegateDeclaration
  dsimp only
  exact line (Enters.expectWord _).bind

/-- An event does so in either form. -/
theorem eventDeclaration : Headed Production.eventDeclaration := by
  have hwith : Headed Production.eventWithAccessors := by
    refine node (look Looks.currentLine fun _ => bind eventHeader Swaps.quiet fun _ => ?_)
    infer_instance
  exact twoForms hwith (node eventHeader)

/-- The line that opens a type. -/
theorem openingLine {word : Keyword} {q : Parse Unit} [Disregards true true q]
    [Disregards true false q]
    [∀ t k, Yields (TokenStream.ending t k) q] (henters : Enters q) :
    Headed (Production.openingLine word q) := by
  refine quiet (.behind (fun _ => henters) fun _ _ _ _ hrun => ?_)
  cases hrun
  rfl

end Headed

-- ---------------------------------------------------------------------------
-- Members
-- ---------------------------------------------------------------------------

section

variable {typeDeclaration : Parse Node}

/-- Whichever member is announced, it goes through again. -/
theorem swaps_of_announced [∀ off, Swaps off typeDeclaration] {what : TokenKind × TokenKind × Bool}
    {p : Parse Node} (h : Passage.announced typeDeclaration what = some p) :
    SwapsTo Resumes off p :=
  Passage.announced_cases h Swaps.quiet (Swaps.anyhow Swaps.routine) (Swaps.anyhow Swaps.routine)
    Swaps.propertyDeclaration (Swaps.anyhow Swaps.eventDeclaration)
    (Swaps.anyhow inferInstance) Swaps.quiet

/-- Whichever member is announced, it reads its attributes and modifiers. -/
theorem headed_of_announced (htype : Headed typeDeclaration) {what : TokenKind × TokenKind × Bool}
    {p : Parse Node} (h : Passage.announced typeDeclaration what = some p) : Headed p :=
  Passage.announced_cases h .constDeclaration .routine .routine .propertyDeclaration
    .eventDeclaration htype
    .fieldDeclaration

/-- It does not matter which terminator is behind the word. -/
theorem announced_newline (kind : TokenKind) (hasPrefix : Bool) :
    Passage.announced typeDeclaration (kind, .newline, hasPrefix) =
      Passage.announced typeDeclaration (kind, .mark .colon, hasPrefix) := by
  cases kind with
  | keyword word => cases word <;> rfl
  | _ => rfl

/-- What announces the member has been read, so the terminator is not in it. -/
theorem announced_announcement {k : Nat} {env env' : Env} {s s' : State} {ns : List Node}
    (h : Crossing k env env' s ns s') (hfronts : Fronts env.tokens s.cursor s ns s') :
    Passage.announced typeDeclaration (Passage.announcement env' s) =
      Passage.announced typeDeclaration (Passage.announcement env s) := by
  unfold Passage.announcement
  dsimp only
  rw [hfronts.kind h (Nat.le_refl _), hfronts.behindPrefix h (Nat.le_refl _)]
  exact h.tokens.alike (fun following => Passage.announced typeDeclaration (_, following, _))
    (announced_newline _ _) _

/-- Where nothing is announced there is an error. -/
theorem headed_memberOr (htype : Headed typeDeclaration) (what : TokenKind × TokenKind × Bool) :
    Headed (Passage.memberOr (Passage.announced typeDeclaration what)) := by
  cases hwhat : Passage.announced typeDeclaration what with
  | some p => exact (headed_of_announced htype hwhat).orRecover
  | none =>
    refine ⟨fun _ _ hrun hcalm => ?_⟩
    cases hrun
    exact absurd hcalm (Nat.not_succ_le_self _)

/-- A member of a type, or a blank line. -/
theorem Swaps.member [∀ off, Swaps off typeDeclaration] (htype : Headed typeDeclaration) :
    SwapsTo Resumes off (Production.member typeDeclaration) := by
  have heq : Production.member typeDeclaration = (do
      if (← Production.peek).isTerminator then Production.blankLine
      else do
        let p ← fun env s => .ok (Passage.announced typeDeclaration (Passage.announcement env s)) s
        Passage.memberOr p) := by
    rw [Passage.member_eq]
    rfl
  have hblank : SwapsTo Resumes off Production.blankLine := quiet
  rw [heq]
  refine peek rfl hblank fun kind _ => either quiet (lookAlike (fun _ _ => rfl)
    (fun env s => ?_) ?_)
  · cases hwhat : Passage.announced typeDeclaration (Passage.announcement env s) with
    | none => exact unexpected
    | some p =>
      have hp : SwapsTo Resumes true p := swaps_of_announced hwhat
      exact orRecover
  · intro k env env' s n s' h hrun _ _
    exact announced_announcement h ((headed_memberOr htype _).fronts h.ordered
      h.le_size hrun h.calm)

/-- What a line tells to the line in front of it is in the part that announces the member. -/
theorem foresees_member (htype : Headed typeDeclaration) :
    Foresees Resumes (Production.member typeDeclaration) := by
  refine ⟨fun {k env env' s n s'} h hrun hpost => ?_⟩
  by_cases hkind : (env.kind s).isTerminator = true
  · rw [member_of_isTerminator hkind] at hrun
    exact hpost.of_blankLine hkind hrun
  · rw [member_of_not_isTerminator hkind] at hrun
    have hfronts := (headed_memberOr htype _).fronts h.ordered h.le_size hrun h.calm
    -- Where nothing is announced there is an error.
    have hplain {kind : TokenKind} (hk : env.tokens.kindAt s.cursor = kind)
        (hless : kind ≠ .mark .less)
        (hmodifier : kind.isModifier = false)
        (hnone : ∀ following, Passage.announced typeDeclaration (kind, following, false) = none) :
        False := by
      have hbehind := Accessored.behindPrefix_of_plain (hk ▸ hless) (hk ▸ hmodifier)
      have hwhat : Passage.announced typeDeclaration (Passage.announcement env s) = none := by
        unfold Passage.announcement
        dsimp only
        rw [hbehind, hk, decide_eq_false (Nat.lt_irrefl _)]
        exact hnone _
      rw [hwhat] at hrun
      cases hrun
      exact absurd h.calm (Nat.not_succ_le_self _)
    exact .of_fronts h hfronts (Bool.eq_false_iff.2 hkind)
      (fun hend => hplain hend nofun rfl fun _ => rfl)
      fun helse => hplain helse nofun rfl fun _ => rfl

end

-- ---------------------------------------------------------------------------
-- Types
-- ---------------------------------------------------------------------------

/-- The word and the name that open a type. -/
instance Disregards.typeName {word : Keyword} : Disregards true off (Production.typeName word) := by
  unfold Production.typeName
  infer_instance

instance Disregards.enumName : Disregards true off Production.enumName := by
  unfold Production.enumName
  infer_instance

instance Yields.typeName {w : Watch} [SparesLines w] {word : Keyword} :
    Yields w (Production.typeName word) := by
  unfold Production.typeName
  infer_instance

instance Yields.enumName {w : Watch} [SparesLines w] : Yields w Production.enumName := by
  unfold Production.enumName
  infer_instance

/-- The levels of nesting do not matter. -/
theorem Foresees.nested {α : Type} [Bears α] {post : TokenStream → TokenStream → Nat → Prop}
    {p : Parse α}
    (hp : Foresees post p) : Foresees post p.nested :=
  ⟨fun {_ env env' s a s'} h hrun hpost => @Foresees.front _ _ _ _ hp
    _ { env with depth := env.depth + 1 }
    { env' with depth := env'.depth + 1 } s a s' h.nested hrun hpost⟩

/-- Neither does it matter whether what is given is attached. -/
theorem Foresees.child {post : TokenStream → TokenStream → Nat → Prop} {p : Parse Node}
    (hp : Foresees post p) :
    Foresees post p.child := by
  refine ⟨fun {k env env' s _ s'} h hrun hpost => ?_⟩
  obtain ⟨n, s₁, hfirst, hrest⟩ := bind_eq_ok hrun
  cases hrest
  have h₁ : Crossing k env env' s [n] s₁ :=
    h.move rfl rfl h.calm (fun h => h) (fun h => h) fun _ h => h
  exact hp.front h₁ hfirst hpost

/-- A closing line ends the items, and it tells what it is. -/
theorem Foresees.bodyItem {post : TokenStream → TokenStream → Nat → Prop} {item : Parse Unit}
    (hitem : Foresees post item) : Foresees post (Production.bodyItem item) := by
  refine ⟨fun h hrun hpost => ?_⟩
  unfold Production.bodyItem Production.atBoundary at hrun
  rw [(Looks.test _).run_bind] at hrun
  split at hrun
  · cases hrun
    exact hpost
  · obtain ⟨_, s₁, hfirst, hrest⟩ := bind_eq_ok hrun
    cases hrest
    exact hitem.front h hfirst hpost

namespace Swaps

/-- One more item, if it has to know what is behind it. -/
theorem bodyItem {post : TokenStream → TokenStream → Nat → Prop} {item : Parse Unit}
    (hitem : SwapsTo post off item) : SwapsTo post off (Production.bodyItem item) := by
  have hdone : SwapsTo post off (do
      item
      return true : Parse Bool) := by
    have hmore : SwapsTo post false (Pure.pure true : Parse Bool) := inferInstance
    refine bindTo hitem (fun _ => hmore) nofun fun _ hrun hpost => ?_
    cases hrun
    exact hpost
  unfold Production.bodyItem
  exact @atBoundary _ _ _ _ _ fun _ => either inferInstance hdone

/-- A member of an enumeration may end with the terminator. -/
instance enumItem : Swaps off Production.enumItem := by
  have hblank : Swaps off (Production.child Production.blankLine) := quiet
  exact peek rfl hblank fun _ _ => inferInstance

/-- The line that opens a type. -/
theorem openingLine {word : Keyword} {q : Parse Unit} [hq : ∀ off, Disregards true off q]
    [∀ t k, Yields (TokenStream.ending t k) q] (henters : Enters q) :
    Swaps off (Production.openingLine word q) := by
  have hrest : Disregards true true (Production.openBlock word >>= fun _ => q) := inferInstance
  have hline : Disregards true off (Production.openingLine word q) := by
    refine .before .declarationPrefix hrest (.behind (fun _ => henters) fun _ _ _ _ hrun => ?_)
    cases hrun
    rfl
  have hyields (t : TokenStream) (k : Nat) :
      Yields (t.ending k) (Production.openingLine word q) := by
    unfold Production.openingLine
    infer_instance
  exact quiet

/-- An enumeration goes through again, since each of its parts does. -/
instance enumBlock : Swaps off Production.enumBlock := by
  have hline : Swaps off (Production.openingLine .kwEnum Production.enumName) :=
    openingLine (Enters.expectWord _).bind
  rw [enumBlock_eq]
  refine nodeOf ?_
  unfold Production.enumRows
  rw [bind_assoc]
  exact hline.bind inferInstance

/-- A line of clauses may end with the terminator. -/
instance typeHeadItem : Swaps off Production.typeHeadItem := by
  have hclauses : Flows 0 false {} false (do
      Production.inheritanceClauses
      Production.endStatement) :=
    Phrase.seq Phrase.inheritanceClauses Phrase.endStatement
  have hblank : Swaps off (do
      Production.child Production.blankLine
      return true : Parse Bool) := quiet
  have hline : Swaps true (do
      Production.recovering do
        Production.inheritanceClauses
        Production.endStatement
      return true : Parse Bool) :=
    bind (recovering quiet hclauses.climbs hclauses.hushed) inferInstance
  refine peek rfl hblank fun kind hkind => ?_
  split
  · cases hkind
  · cases hkind
  · exact hline
  · exact hline
  · exact quiet

section

variable {typeDeclaration : Parse Node} [∀ off, Swaps off typeDeclaration]

/-- The members of a type and its closing line. -/
theorem typeMembers (htype : Headed typeDeclaration) {word : Keyword}
    (hword : word.isClosedByEnd = true) :
    Swaps off (do
      Production.body (Production.child (Production.nested (Production.member typeDeclaration)))
      Production.finishBlock word) := by
  have hmember : SwapsTo Resumes false (Production.member typeDeclaration) := member htype
  exact loop (bodyItem child) (foresees_member htype).nested.child.bodyItem hword

/-- The members of a type are read one by one, and each knows what is behind it. -/
theorem typeBlock (htype : Headed typeDeclaration) {r : Rule} [Holds r.isLine] {word : Keyword}
    (hword : word.isClosedByEnd = true) :
    Swaps off (Production.typeBlock typeDeclaration r word) := by
  have hline : Swaps off (Production.openingLine word (Production.typeName word)) :=
    openingLine (Enters.expectWord _).bind
  rw [typeBlock_eq]
  refine nodeOf ?_
  unfold Production.typeRows
  simp only [bind_assoc]
  exact hline.bind fun _ => bind inferInstance fun _ => typeMembers htype hword

end

end Swaps

namespace Headed

theorem enumBlock : Headed Production.enumBlock := by
  have henters : Enters Production.enumName := (Enters.expectWord _).bind
  rw [enumBlock_eq]
  refine node ?_
  unfold Production.enumRows
  rw [bind_assoc]
  exact (openingLine henters).bind (.openingLine henters) inferInstance

variable {typeDeclaration : Parse Node} [∀ off, Swaps off typeDeclaration]

/-- A type reads its word behind attributes and modifiers. -/
theorem typeBlock (htype : Headed typeDeclaration) {r : Rule} [Holds r.isLine] {word : Keyword}
    (hword : word.isClosedByEnd = true) : Headed (Production.typeBlock typeDeclaration r word) := by
  have henters : Enters (Production.typeName word) := (Enters.expectWord _).bind
  rw [typeBlock_eq]
  refine node ?_
  unfold Production.typeRows
  simp only [bind_assoc]
  exact (openingLine henters).bind (.openingLine henters) fun _ => .bind inferInstance fun _ =>
    Swaps.typeMembers htype hword

/-- Each kind of type does. -/
theorem typeDefinition (htype : Headed typeDeclaration) :
    Headed (Production.typeDefinition typeDeclaration) := by
  refine look Looks.peekBehindPrefix fun kind => ?_
  split
  case h_5 => exact enumBlock
  case h_6 => exact delegateDeclaration
  case h_7 => exact fail
  all_goals exact typeBlock htype rfl

end Headed

/-- The kind of type is told by a word that has been read. -/
theorem Swaps.typeDefinition {typeDeclaration : Parse Node} [∀ off, Swaps off typeDeclaration]
    (htype : Headed typeDeclaration) : Swaps off (Production.typeDefinition typeDeclaration) := by
  refine lookAlike Looks.peekBehindPrefix (fun env s => ?_) fun {k env env' s n s'} h hrun _ _ => ?_
  · split
    case h_5 => exact enumBlock
    case h_6 => exact quiet
    case h_7 => exact quiet
    all_goals exact typeBlock htype rfl
  · have hrun : Production.typeDefinition typeDeclaration env s = .ok n s' := by
      unfold Production.typeDefinition
      rw [Looks.peekBehindPrefix.run_bind]
      exact hrun
    exact ((Headed.typeDefinition htype).fronts h.ordered h.le_size hrun h.calm).kind h
      (Nat.le_refl _)

-- ---------------------------------------------------------------------------
-- Types in types
-- ---------------------------------------------------------------------------

/-- By induction on the levels that are left. Both have to be known of the types in a type. -/
theorem swaps_headed_typeDeclarationUpTo (room : Nat) :
    (∀ off, Swaps off (Production.typeDeclarationUpTo room)) ∧
    Headed (Production.typeDeclarationUpTo room) := by
  induction room with
  | zero =>
    have htooDeep : Headed (Production.tooDeep : Parse Node) := by
      refine ⟨fun _ _ hrun _ => ?_⟩
      cases hrun
    have hdeep (off : Bool) : Swaps off (Production.tooDeep : Parse Node) := Swaps.quiet
    exact ⟨hdeep, htooDeep⟩
  | succ room ih =>
    obtain ⟨hswaps, hheaded⟩ := ih
    refine ⟨fun off => ?_, .checkDepth fun _ => (Headed.typeDefinition hheaded).wrap rfl⟩
    exact Swaps.bind Swaps.quiet fun _ => Swaps.wrapping (Swaps.typeDefinition hheaded) rfl

/-- Every type goes through again. -/
instance Swaps.typeDeclaration : Swaps off Production.typeDeclaration := by
  refine of_runs fun env s n s' hrun => ⟨_, (swaps_headed_typeDeclarationUpTo env.room).1 off,
    hrun, ?_⟩
  intro k env' henv hrun'
  unfold Production.typeDeclaration
  rw [henv.room]
  exact hrun'

theorem Headed.typeDeclaration : Headed Production.typeDeclaration :=
  ⟨fun ht hs hrun hcalm => (swaps_headed_typeDeclarationUpTo _).2.fronts ht hs hrun hcalm⟩

end VisualBasic.Production
