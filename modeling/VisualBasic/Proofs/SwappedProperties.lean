import VisualBasic.Proofs.SwappedMembers

/-!
# Properties with a colon for a line end

Whether a property has accessors is told by the first line behind its header that is not blank, and
the word of that line is looked for behind attributes and modifiers that the property has not read
if it has no accessors. So what is behind a property has to be known. In a type another member or
the closing line is behind it, and each of the lines tells the one in front of it what it has to
know.

* `TokenStream.Resumes` — what a line tells of itself to the line in front of it.

Main results:

* `Swaps.loop` — lines up to a closing line, where each has to know of the next.
* `Swaps.propertyItem`, `foresees_propertyItem` — the lines of a property.
* `propertyHasAccessors_eq` — the lines ahead tell the same, if the header is the same and lines go
  on behind it.
* `Swaps.propertyDeclaration` — a property, if it is known what is behind it.
-/

namespace VisualBasic

namespace TokenStream

/-- At the index a line begins that holds an item or closes a block. Whether the first line from
there on that is not blank holds an accessor is told the same in both streams. -/
structure Resumes (t t' : TokenStream) (i : Nat) : Prop where
  ne_end : t.kindAt i ≠ .endOfFile
  ne_else : t.kindAt i ≠ .keyword .kwElse
  accessor : t'.propertyAccessor? (t.firstFrom (!·.isTerminator) i) =
    t.propertyAccessor? (t.firstFrom (!·.isTerminator) i)

namespace Resumes

variable {k i : Nat} {t t' : TokenStream}

theorem firstFrom_of_not {i : Nat} (h : (t.kindAt i).isTerminator = false) :
    t.firstFrom (!·.isTerminator) i = i := by
  refine firstFrom_of_true ?_
  rw [h]
  rfl

/-- A blank line. -/
theorem blank (hi : (t.kindAt i).isTerminator = true) (h : Resumes t t' (i + 1)) :
    Resumes t t' i := by
  refine ⟨TokenKind.ne_endOfFile_of hi rfl, fun helse => ?_, ?_⟩
  · rw [helse] at hi
    cases hi
  · rw [firstFrom_of_isTerminator hi]
    exact h.accessor

theorem of_blankLine {env : Env} {s s' : State} {n : Node}
    (hkind : (env.kind s).isTerminator = true)
    (hrun : Production.blankLine env s = .ok n s') (h : Resumes env.tokens t' s'.cursor) :
    Resumes env.tokens t' s.cursor := by
  have hnext : s'.cursor = s.cursor + 1 := by
    cases hrun
    exact Env.next_eq_succ (TokenKind.ne_endOfFile_of hkind rfl)
  rw [hnext] at h
  exact h.blank hkind

/-- A closing line. -/
theorem closer (h : Exchanged k t t') (hi : t.kindAt i = .keyword .kwEnd) : Resumes t t' i := by
  have hplain {t : TokenStream} (hi : t.kindAt i = .keyword .kwEnd) :
      t.propertyAccessor? i = none := by
    refine Accessored.propertyAccessor?_eq_none ?_
    rw [Accessored.behindPrefix_of_plain, hi]
    · rfl
    · rw [hi]
      exact nofun
    · rw [hi]
      rfl
  have hi' : t'.kindAt i = .keyword .kwEnd := by
    refine (h.kindAt i (h.ne_of_not_terminator ?_)).trans hi
    rw [hi]
    rfl
  refine ⟨?_, ?_, ?_⟩
  · rw [hi]
    exact nofun
  · rw [hi]
    exact nofun
  · rw [firstFrom_of_not, hplain hi, hplain hi']
    rw [hi]
    rfl

/-- A line whose attributes and modifiers have been read. -/
theorem of_fronts {env env' : Env} {s s' : State} {ns : List Node} (h : Crossing k env env' s ns s')
    (hfronts : State.Fronts env.tokens s.cursor s ns s') (hkind : (env.kind s).isTerminator = false)
    (hend : env.kind s ≠ .endOfFile) (helse : env.kind s ≠ .keyword .kwElse) :
    Resumes env.tokens env'.tokens s.cursor := by
  refine ⟨hend, helse, ?_⟩
  rw [firstFrom_of_not hkind]
  unfold propertyAccessor?
  rw [hfronts.kind h (Nat.le_refl _)]

end Resumes

end TokenStream

namespace Production

open State Watch TokenStream

variable {off : Bool}

-- The instance that is found for a production is as large as its text.
set_option synthInstance.maxSize 4000

-- ---------------------------------------------------------------------------
-- Loops up to a closing line
-- ---------------------------------------------------------------------------

/-- A block that is closed ends in front of its closing line. -/
theorem resumes_of_finishBlock {k : Nat} {env env' : Env} {s s' : State}
    {opener : Keyword} {u : Unit}
    (henv : env.Swapped k env') (hopener : opener.isClosedByEnd = true)
    (hrun : Production.finishBlock opener env s = .ok u s') (hcalm : Calm s s') :
    Resumes env.tokens env'.tokens s.cursor := by
  have hcloser := atCloser_of_finishBlock hrun hcalm
  have hend : opener.closer = [.kwEnd, opener] := by
    cases opener <;> first | rfl | cases hopener
  unfold Env.atCloser at hcloser
  rw [hend] at hcloser
  exact .closer henv.tokens (beq_iff_eq.1 (Bool.and_eq_true_iff.1 hcloser).1)

section

variable {round : Parse Bool} {opener : Keyword}

/-- Lines up to a closing line, where each has to know of the next. -/
theorem Swaps.loop (hround : SwapsTo Resumes false round) (hforesees : Foresees Resumes round)
    (hopener : opener.isClosedByEnd = true) : Swaps off (do
      Production.repeatWhile round
      Production.finishBlock opener) := by
  have hfinish : Swaps false (Production.finishBlock opener) := inferInstance
  exact bindTo (weaken (repeatForeseen hround hforesees).1) (fun _ => hfinish) nofun fun h hrun _ =>
    resumes_of_finishBlock h.toSwapped hopener hrun h.calm

/-- What comes in front of such lines may know of the first. -/
theorem resumes_of_loop (hround : SwapsTo Resumes false round) (hforesees : Foresees Resumes round)
    (hopener : opener.isClosedByEnd = true) {k : Nat} {env env' : Env} {s s' : State} {u : Unit}
    (h : Crossing k env env' s [] s') (hrun : (do
      Production.repeatWhile round
      Production.finishBlock opener) env s = .ok u s') : Resumes env.tokens env'.tokens
        s.cursor := by
  obtain ⟨hswaps, hloop⟩ := Swaps.repeatForeseen hround hforesees
  have hfinish : Swaps false (Production.finishBlock opener) := inferInstance
  obtain ⟨_, s₁, hfirst, hrest⟩ := bind_eq_ok hrun
  obtain ⟨h₁, h₂⟩ := Swaps.crossing_bind hswaps hfinish h hfirst hrest
  exact hloop.front h₁ hfirst (resumes_of_finishBlock h.toSwapped hopener hrest h₂.calm)

end

-- ---------------------------------------------------------------------------
-- The accessors of a property
-- ---------------------------------------------------------------------------

/-- A line of a property that is read without an error is blank, or an accessor, or the one that
ends them. -/
inductive ItemRun (env : Env) (s : State) : Bool → State → Prop
  | blank {s' : State} (kind : (env.kind s).isTerminator = true)
    (run : Production.child Production.blankLine env s = .ok () s') : ItemRun env s true s'
  | accessor {s' : State} (kind : (env.kind s).isTerminator = false)
    (word : isAccessor (env.tokens.kindAt (env.tokens.behindPrefix s.cursor)) = true)
    (run : Production.child (Production.nested Production.accessor) env s = .ok () s') :
    ItemRun env s true s'
  | stop (kind : (env.kind s).isTerminator = false)
    (word : isAccessor (env.tokens.kindAt (env.tokens.behindPrefix s.cursor)) = false)
    (boundary : env.atBoundary s = true) : ItemRun env s false s

theorem itemRun_of_calm {env : Env} {s s' : State} {more : Bool}
    (hrun : Production.propertyItem env s = .ok more s') (hcalm : Calm s s') :
    ItemRun env s more s' := by
  unfold Production.propertyItem at hrun
  rw [Looks.peek.run_bind] at hrun
  split at hrun
  case isTrue hkind =>
    obtain ⟨_, s₁, hchild, hret⟩ := bind_eq_ok hrun
    cases hret
    exact .blank hkind hchild
  case isFalse hkind =>
    have hkind := Bool.eq_false_iff.2 hkind
    rw [Looks.peekBehindPrefix.run_bind] at hrun
    split at hrun
    case isTrue hword =>
      obtain ⟨_, s₁, hchild, hret⟩ := bind_eq_ok hrun
      cases hret
      exact .accessor hkind hword hchild
    case isFalse hword =>
      have hword := Bool.eq_false_iff.2 hword
      unfold Production.atBoundary at hrun
      rw [(Looks.test _).run_bind] at hrun
      split at hrun
      case isTrue hboundary =>
        cases hrun
        exact .stop hkind hword hboundary
      case isFalse =>
        obtain ⟨_, s₁, hchild, hret⟩ := bind_eq_ok hrun
        cases hret
        obtain ⟨n, s₂, hregion, hattach⟩ := bind_eq_ok hchild
        cases hregion
        cases hattach
        exact absurd hcalm (Nat.not_succ_le_self _)

theorem ItemRun.run {env : Env} {s s' : State} {more : Bool} (h : ItemRun env s more s') :
    Production.propertyItem env s = .ok more s' := by
  unfold Production.propertyItem
  rw [Looks.peek.run_bind]
  cases h with
  | blank kind run => rw [if_pos kind, run_bind, run]; rfl
  | accessor kind word run =>
    rw [if_neg (Bool.eq_false_iff.1 kind), Looks.peekBehindPrefix.run_bind, if_pos word,
      run_bind, run]
    rfl
  | stop kind word boundary =>
    unfold Production.atBoundary
    rw [if_neg (Bool.eq_false_iff.1 kind), Looks.peekBehindPrefix.run_bind,
      if_neg (Bool.eq_false_iff.1 word),
      (Looks.test _).run_bind, if_pos boundary]
    rfl

/-- Whether a line is an accessor is told the same, if it is one or the lines resume there. -/
theorem isAccessor_eq_of_resumes {t t' : TokenStream} {i : Nat} (h : Resumes t t' i)
    (hkind : (t.kindAt i).isTerminator = false) :
    isAccessor (t'.kindAt (t'.behindPrefix i)) = isAccessor (t.kindAt (t.behindPrefix i)) := by
  have haccessor := h.accessor
  rw [Resumes.firstFrom_of_not hkind] at haccessor
  rw [← isSome_propertyAccessorOf?, ← isSome_propertyAccessorOf?]
  exact congrArg Option.isSome haccessor

namespace ItemRun

variable {k : Nat} {env env' : Env} {s s' : State} {more : Bool}

/-- The line is the same with a colon for the line end. -/
theorem same (h : ItemRun env s more s') (hcrossing : Crossing k env env' s [] s')
    (hpost : Resumes env.tokens env'.tokens s'.cursor) : ItemRun env' s more s' := by
  have hkind' : (env'.kind s).isTerminator = (env.kind s).isTerminator :=
    hcrossing.tokens.alike TokenKind.isTerminator rfl s.cursor
  have hblank : Swaps false (Production.child Production.blankLine) := Swaps.quiet
  have haccessor : Swaps false (Production.child (Production.nested Production.accessor)) :=
    inferInstance
  cases h with
  | blank kind run => exact .blank (hkind'.trans kind) (hblank.same hcrossing run nofun trivial)
  | accessor kind word run =>
    have hfronts :=
      Swaps.headed_accessor.nested.child.fronts hcrossing.ordered hcrossing.le_size run
        hcrossing.calm
    refine .accessor (hkind'.trans kind) ?_ (haccessor.same hcrossing run nofun trivial)
    rw [hfronts.kind hcrossing (Nat.le_refl _)]
    exact word
  | stop kind word boundary =>
    refine .stop (hkind'.trans kind) ((isAccessor_eq_of_resumes hpost kind).trans word) ?_
    exact (Blind.atBoundary.same hcrossing.toExchanged s).trans boundary

/-- What resumes behind the line resumes at it. -/
theorem resumes (h : ItemRun env s more s') (hcrossing : Crossing k env env' s [] s')
    (hpost : Resumes env.tokens env'.tokens s'.cursor) :
    Resumes env.tokens env'.tokens s.cursor := by
  cases h with
  | blank kind run =>
    obtain ⟨n, s₁, hline, hattach⟩ := bind_eq_ok run
    cases hattach
    exact hpost.of_blankLine kind hline
  | accessor kind word run =>
    have hfronts :=
      Swaps.headed_accessor.nested.child.fronts hcrossing.ordered hcrossing.le_size run
        hcrossing.calm
    have hplain {kind : TokenKind} (hkind : env.tokens.kindAt s.cursor = kind)
        (hless : kind ≠ .mark .less)
        (hmodifier : kind.isModifier = false) : isAccessor kind = true := by
      rw [Accessored.behindPrefix_of_plain (hkind ▸ hless) (hkind ▸ hmodifier), hkind] at word
      exact word
    refine .of_fronts hcrossing hfronts kind (fun hend => ?_) fun helse => ?_
    · cases hplain hend nofun rfl
    · cases hplain helse nofun rfl
  | stop => exact hpost

end ItemRun

instance Swaps.propertyItem : SwapsTo Resumes off Production.propertyItem := by
  have hblank : SwapsTo (fun _ _ _ => False) off (do
      Production.child Production.blankLine
      return true : Parse Bool) := quiet
  have hbounds : SwapsTo (fun _ _ _ => False) off Production.propertyItem := by
    refine peek rfl hblank fun kind _ => either quiet ?_
    exact lookAlike Looks.peekBehindPrefix (fun _ _ => inferInstance) fun _ _ _ h => h.elim
  exact ⟨hbounds.gone, hbounds.located, fun h hrun _ hpost =>
    ((itemRun_of_calm hrun h.calm).same h hpost).run⟩

theorem foresees_propertyItem : Foresees Resumes Production.propertyItem :=
  ⟨fun h hrun hpost => (itemRun_of_calm hrun h.calm).resumes h hpost⟩

-- ---------------------------------------------------------------------------
-- Whether a property has accessors
-- ---------------------------------------------------------------------------

/-- A statement in front of another line ends with a terminator. -/
theorem terminator_of_resumes {env : Env} {t' : TokenStream} {s s₁ : State}
    (hrun : Production.endStatement env s = .ok () s₁) (h : Resumes env.tokens t' s₁.cursor) :
    (env.kind s).isTerminator = true ∧ s₁.cursor = s.cursor + 1 := by
  have hskips {t : State} (hkind : (env.kind s).isTerminator = true)
      (hrun : Production.endStatement env s = .ok () t) : t.cursor = s.cursor + 1 := by
    unfold Production.endStatement at hrun
    rw [Looks.peek.run_bind, if_pos hkind] at hrun
    cases hrun
    exact Env.next_eq_succ (TokenKind.ne_endOfFile_of hkind rfl)
  obtain ⟨hkind, -⟩ | ⟨rfl, hend⟩ := endStatement_eq_ok hrun
  · exact ⟨hkind, hskips hkind hrun⟩
  · rcases hend with hend | helse
    · rw [TokenKind.endsLine_eq, Bool.or_eq_true_iff, beq_iff_eq] at hend
      exact ⟨hend.resolve_right h.ne_end, hskips (hend.resolve_right h.ne_end) hrun⟩
    · exact absurd helse h.ne_else

theorem lasting_of_swapped {k : Nat} {env env' : Env} (h : env.Swapped k env') :
    env'.tokens.Lasting := by
  intro i hi
  rw [h.tokens.size] at hi
  have hends : (env'.tokens.kindAt i == .endOfFile) = (env.tokens.kindAt i == .endOfFile) :=
    h.tokens.beq_kindAt rfl i
  rw [← beq_eq_false_iff_ne, hends, beq_eq_false_iff_ne]
  exact h.ordered.kindAt_ne i hi

/-- The lines ahead tell the same of a property, if the header is the same in both streams and lines
go on behind it. -/
theorem propertyHasAccessors_eq {k : Nat} {env env' : Env} {s s₁ : State}
    (henv : env.Swapped k env')
    (hline : propertyLine env { s with children := [], isPartial := false } = .ok () s₁)
    (hline' : propertyLine env' { s with children := [], isPartial := false } = .ok () s₁)
    (hresumes : Resumes env.tokens env'.tokens s₁.cursor) :
    env'.propertyHasAccessors s = env.propertyHasAccessors s := by
  obtain ⟨stop, hstop, hterminator⟩ : ∃ stop, s₁.cursor = stop + 1 ∧
      (env.tokens.kindAt stop).isTerminator = true := by
    obtain ⟨_, s₂, -, hrest⟩ := bind_eq_ok hline
    obtain ⟨_, s₃, -, hend⟩ := bind_eq_ok hrest
    obtain ⟨hkind, hcursor⟩ := terminator_of_resumes hend hresumes
    exact ⟨s₃.cursor, hcursor, hkind⟩
  have hopens : Accessored.property.Opens env s s₁ stop := ⟨hline, hstop, hterminator⟩
  have hopens' : Accessored.property.Opens env' s s₁ stop := by
    refine ⟨hline', hstop, ?_⟩
    rw [henv.tokens.alike TokenKind.isTerminator rfl]
    exact hterminator
  have hnext : env.tokens.nextLine stop = env.tokens.firstFrom (!·.isTerminator) s₁.cursor := by
    rw [hstop]
    exact nextLine_of_isTerminator hterminator
  have hgoes : Accessored.property.GoesOn env'.tokens (env.tokens.nextLine stop) ↔
      Accessored.property.GoesOn env.tokens (env.tokens.nextLine stop) := by
    have haccessor := hresumes.accessor
    rw [← hnext] at haccessor
    change (env'.tokens.propertyAccessor? _).isSome = true ∨ _ ↔
      (env.tokens.propertyAccessor? _).isSome = true ∨ _
    rw [haccessor, henv.tokens.kindAt_eq_iff rfl, henv.tokens.kindAt_eq_iff rfl]
  rw [Bool.eq_iff_iff, Accessored.propertyHasAccessors_iff, Accessored.propertyHasAccessors_iff,
    hopens.goesOn_iff Accessored.lawful_property henv.ordered.kindAt_ne,
    hopens'.goesOn_iff Accessored.lawful_property (lasting_of_swapped henv), henv.tokens.lineEnd,
    henv.tokens.nextLine, hgoes]

-- ---------------------------------------------------------------------------
-- Properties
-- ---------------------------------------------------------------------------

instance Disregards.propertyLine {through off : Bool} :
    Disregards through off Production.propertyLine := by
  unfold Production.propertyLine
  infer_instance

instance (t : TokenStream) (k : Nat) : Yields (t.ending k) Production.propertyLine := by
  unfold Production.propertyLine
  infer_instance

theorem Headed.propertyLine : Headed Production.propertyLine :=
  bind propertyHeader Swaps.quiet fun _ => inferInstance

/-- The accessors and the closing line of a property. -/
instance Swaps.behindPropertyHeader {line : Nat} :
    Swaps off (Accessored.property.behindHeader line) := by
  have hrows : Swaps off (do
      Production.repeatWhile Production.propertyItem
      Production.finishBlock .kwProperty) := loop Swaps.propertyItem foresees_propertyItem rfl
  exact @openBlockAt _ _ _ _ _ _ _ fun _ => hrows

instance Swaps.propertyWithAccessors : Swaps off Production.propertyWithAccessors := by
  rw [propertyWithAccessors_eq]
  infer_instance

theorem Headed.propertyWithAccessors : Headed Production.propertyWithAccessors := by
  rw [propertyWithAccessors_eq]
  exact node (look Looks.currentLine fun _ => propertyLine.bind Swaps.quiet fun _ => inferInstance)

theorem Headed.propertyWithoutAccessors : Headed Production.propertyWithoutAccessors := by
  refine node (bind (bind propertyHeader Swaps.quiet fun _ => ?_) Swaps.quiet
    fun _ => inferInstance)
  infer_instance

/-- A property with accessors begins with its header, and behind it lines go on. -/
theorem exists_propertyLine_of_crossing {k : Nat} {env env' : Env} {s s' : State} {n : Node}
    (h : Crossing k env env' s [n] s') (hrun : Production.propertyWithAccessors env s = .ok n s') :
    ∃ s₁, propertyLine env { s with children := [], isPartial := false } = .ok () s₁ ∧
      propertyLine env' { s with children := [], isPartial := false } = .ok () s₁ ∧
      Resumes env.tokens env'.tokens s₁.cursor := by
  rw [propertyWithAccessors_eq] at hrun
  obtain ⟨s₂, hbody, rfl, rfl⟩ := construct_eq_finish hrun
  rw [Looks.currentLine.run_bind] at hbody
  obtain ⟨_, s₁, hline, hrest⟩ := bind_eq_ok hbody
  have hheader : Swaps false Production.propertyLine := Swaps.quiet
  have hrows : Swaps false (Accessored.property.behindHeader
      (env.line ({ s with children := [], isPartial := false } : State))) :=
    inferInstance
  obtain ⟨h₁, h₂⟩ := Swaps.crossing_bind hheader hrows (Swaps.crossing_children rfl h) hline hrest
  refine ⟨s₁, hline, hheader.same h₁ hline nofun trivial, ?_⟩
  obtain ⟨_, s₃, hopen, hloop⟩ := bind_eq_ok hrest
  cases hopen
  have hopened : ∃ t, t.cursor = s₁.cursor ∧ Crossing k env env' t [] s₂ ∧ (do
      Production.repeatWhile Production.propertyItem
      Production.finishBlock .kwProperty) env t = .ok () s₂ := by
    refine ⟨_, ?_, ?_, hloop⟩
    · rfl
    · exact h₂.move rfl rfl h₂.calm (fun h => h) (fun h => h) fun _ h => h
  obtain ⟨t, hcursor, ht, hloop⟩ := hopened
  rw [← hcursor]
  exact resumes_of_loop Swaps.propertyItem foresees_propertyItem rfl ht hloop

/-- A property whose header parses without a value ends with its header if it has no accessors. -/
theorem cursor_of_propertyWithoutAccessors {env : Env} {s s' s₁ : State} {n : Node}
    (hline : propertyLine env { s with children := [], isPartial := false } = .ok () s₁)
    (hrun : Production.propertyWithoutAccessors env s = .ok n s') : s'.cursor = s₁.cursor := by
  obtain ⟨_, s₂, hname, hrest⟩ := bind_eq_ok hline
  have hbody : ((do
      Production.propertyHeader
      Production.optionalValue .initializer
      Production.memberClauses) >>= fun _ => Production.endStatement) env
        { s with children := [], isPartial := false } = .ok () s₁ := by
    rw [bind_assoc, run_bind, hname]
    simp only [bind_assoc]
    rw [run_bind, Accessored.run_optionalValue hrest]
    exact hrest
  obtain ⟨m, t, hrun', hupTo⟩ := Accessored.run_node (r := .propertyDeclaration) hbody
  cases hrun.symm.trans hrun'
  exact hupTo.cursor

/-- The form with accessors fits where the header does. -/
theorem exists_propertyWithAccessors_of_line {env : Env} {s s₁ : State}
    (hline : propertyLine env { s with children := [], isPartial := false } = .ok () s₁) :
    ∃ n s', Production.propertyWithAccessors env s = .ok n s' := by
  have hrest (l : Nat) : NeverFails (Accessored.property.behindHeader l) :=
    (neverFails_openBlockAt _ l).bind fun _ =>
      (NeverFails.repeatWhile .propertyItem).bind fun _ => NeverFails.finishBlock .kwProperty
  have hfits :
      _ ↔ ∃ n s₁, node .propertyDeclaration (propertyLine >>= fun _ => pure ()) env s = .ok n s₁ :=
    fits_iff (fun l _ => hrest l) env s
  rw [bind_pure_unit, ← propertyWithAccessors_eq] at hfits
  obtain ⟨m, t, hnode, -⟩ := Accessored.run_node (r := .propertyDeclaration) hline
  exact hfits.2 ⟨m, t, hnode⟩

theorem Headed.propertyDeclaration : Headed Production.propertyDeclaration :=
  twoForms propertyWithAccessors propertyWithoutAccessors

/-- What is behind a property tells whether it has accessors, if it has none. -/
instance Swaps.propertyDeclaration : SwapsTo Resumes off Production.propertyDeclaration := by
  have hwith : Swaps off Production.propertyWithAccessors := inferInstance
  have hwithout : Swaps off Production.propertyWithoutAccessors := quiet
  have hkeeps : Keeps Resumes off ⟨Env.propertyHasAccessors, Production.propertyWithAccessors⟩ := by
    intro k env env' s n s' h _ _ hfits
    obtain ⟨s₁, hline, hline', hresumes⟩ := exists_propertyLine_of_crossing h hfits.run
    exact (propertyHasAccessors_eq h.toSwapped hline hline' hresumes).trans hfits.viable
  have hway : GivesWay Resumes off ⟨Env.propertyHasAccessors, Production.propertyWithAccessors⟩
      { production := Production.propertyWithoutAccessors } := by
    intro k env env' s n s' h _ hresumes hrun hrun' hfails m t hfits
    rw [propertyWithAccessors_eq] at hfits
    obtain ⟨s₂, hbody, -, -⟩ := construct_eq_finish hfits.run
    rw [Looks.currentLine.run_bind] at hbody
    obtain ⟨_, s₁, hline', -⟩ := bind_eq_ok hbody
    have hcursor := cursor_of_propertyWithoutAccessors hline' hrun'
    have hs : s.cursor ≤ env'.tokens.tokens.size := h.tokens.size.symm ▸ h.le_size
    have hheader : Disregards true false Production.propertyLine := inferInstance
    have hline :=
      hheader.same h.toExchanged.symm (s := { s with children := [], isPartial := false })
        hs hline' nofun
      (by
        have hbeside := beside_of_crossing hrun h
        rw [hcursor] at hbeside
        exact hbeside.imp_right fun h => .inr ⟨rfl, h⟩)
    obtain ⟨m', t', hrun₁⟩ := exists_propertyWithAccessors_of_line hline
    rw [hcursor] at hresumes
    have hviable := propertyHasAccessors_eq h.toSwapped hline hline' hresumes
    exact hfails m' t' ⟨hviable.symm.trans hfits.viable, hrun₁⟩
  refine resolve ?_ ?_ ?_
  · simp only [List.forall_mem_cons]
    exact ⟨anyhow hwith, anyhow hwithout, List.forall_mem_nil _⟩
  · simp only [List.forall_mem_cons]
    exact ⟨hkeeps, fun _ _ _ _ => rfl, List.forall_mem_nil _⟩
  · simp only [List.pairwise_cons, List.forall_mem_cons]
    exact ⟨⟨hway, List.forall_mem_nil _⟩, List.forall_mem_nil _, .nil⟩

end Production

end VisualBasic
