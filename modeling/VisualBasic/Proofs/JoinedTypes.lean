import VisualBasic.Proofs.JoinedMembers

/-!
# Types in sources that go on

A type that leaves no diagnostics behind is closed, and up to its closing line the streams agree. So
its members do the same in both runs, and so does its closing line, which a terminator ends or the
end of the first stream.

Main results:

* `Follows.block` — what is closed does the same if what stands in front of its closing line does.
* `joins_typeDeclarationUpTo` — types do, by induction on the levels that are left.
-/

namespace VisualBasic.Production

open State

variable {env env' : Env} {e : Nat} {s s' : State}

/-- Outside of an `If` on a single line, a production does the same over a stream that goes on. -/
def Joins (p : Parse Node) : Prop :=
  ∀ env env' s s', env.Joined env' → s.Alike 0 env.toEnd env.tokens env'.tokens s' →
  s.singleLineIfs = 0 →
    Follows 0 env.toEnd (Node.Alike 0) env.tokens env'.tokens s (p env s) (p env' s')

theorem Joins.carries {p : Parse Node} (hp : Joins p) : Carries p := by
  intro env env' e s s' h hsingle _
  refine (hp env env' s s' h.joined (h.alike.within _ _) hsingle).within _ _ fun a s₁ _ hb _ => ?_
  exact Nat.le_trans hb (Nat.le_of_lt (Nat.lt_of_succ_lt h.lt_size))

/-- What is closed: up to its closing line the streams agree. -/
theorem Follows.block (h : env.Joined env') (hs : s.Alike 0 env.toEnd env.tokens env'.tokens s')
    {r : Rule}
    {word : Keyword} {rows : Parse Unit} (hclimbs : Climbs rows)
    (hcloser : word.closer = [.kwEnd, word])
    (hrows : ∀ s₀ s₀' sf, s₀.cursor = s.cursor → s₀.singleLineIfs = s.singleLineIfs →
      s₀.Alike 0 (env.upTo sf.cursor) env.tokens env'.tokens s₀' → rows env s₀ = .ok () sf →
      env.tokens.kindAt sf.cursor = .keyword .kwEnd → env.tokens.kindAt (sf.cursor + 1) =
        .keyword word →
      sf.diagnostics.length ≤ s₀.diagnostics.length →
      Follows 0 (env.upTo sf.cursor) Eq env.tokens env'.tokens s₀ (rows env s₀) (rows env' s₀')) :
    Follows 0 env.toEnd (Node.Alike 0) env.tokens env'.tokens s
      (node r (rows >>= fun _ => finishBlock word) env s)
      (node r (rows >>= fun _ => finishBlock word) env' s') := by
  have hwords {s : State} (hat : env.atCloser s word = true) :
      env.tokens.kindAt s.cursor = .keyword .kwEnd ∧
      env.tokens.kindAt (s.cursor + 1) = .keyword word := by
    unfold Env.atCloser at hat
    rw [hcloser] at hat
    exact ⟨(hasAhead_cons.1 hat).1, (hasAhead_cons.1 (hasAhead_cons.1 hat).2).1⟩
  refine .construct hs.cursor hs (.finishing _ hclimbs hs.apart (fun sf hrun hat hb hquiet => ?_)
    fun s₁ s₁' hat _ hs₁ => ?_)
  · obtain ⟨hend, hword⟩ := hwords hat
    have hfollows := hrows { s with children := [], isPartial := false } _ sf rfl rfl
      (hs.apart.within _ _) hrun hend hword hquiet
    refine hfollows.within _ _ fun _ s₂ hrun₂ _ _ => ?_
    obtain ⟨-, rfl⟩ := EStateM.Result.ok.inj (hrun.symm.trans hrun₂)
    exact Nat.le_refl _
  · refine h.finishBlock hs₁ word hat (Env.Joined.lt_size_of_ne ?_)
    rw [(hwords hat).1]
    exact nofun

-- ---------------------------------------------------------------------------
-- Opening lines
-- ---------------------------------------------------------------------------

theorem Follows.openingLine {m : Sight} (henv : env.Alike 0 m env')
    (hs : s.Alike 0 m env.tokens env'.tokens s') (hreach : m.Reaches s.cursor) (word : Keyword)
    {q : Parse Unit} (hq : Flows 0 false {} false q) :
    Follows 0 m Eq env.tokens env'.tokens s (Production.openingLine word q env s)
      (Production.openingLine word q env' s') := by
  have hbefore : Flows 0 false {} false declarationPrefix := Phrase.declarationPrefix
  have hrest : Climbs (openBlock word >>= fun _ => q) :=
    .bind (.look Looks.currentLine fun l => .openBlockAt word l) fun _ => hq.climbs
  refine .bind hs.le_size hbefore.climbs (fun _ => hrest)
    (hbefore.follows henv hs hreach (Spot.holds_plain nofun)) fun _ _ s₁ s₁' _ _ hreach₁ hs₁ => ?_
  exact hq.follows henv (hs₁.openBlock word _ _) hreach₁ (Spot.holds_plain nofun)

theorem singleLineIfs_openingLine {word : Keyword} {q : Parse Unit} (hq : Flows 0 false {} false q)
    {u : Unit} {s₁ : State} (hrun : openingLine word q env s = .ok u s₁) :
    s₁.singleLineIfs = s.singleLineIfs := by
  have hbefore : Flows 0 false {} false declarationPrefix := Phrase.declarationPrefix
  obtain ⟨_, s₂, hfirst, hrest⟩ := bind_eq_ok hrun
  obtain ⟨_, s₃, hopen, hname⟩ := bind_eq_ok hrest
  have honward := hbefore.hushed env s
  have honward₁ := hq.hushed env s₃
  rw [hfirst] at honward
  rw [hname] at honward₁
  cases hopen
  exact honward₁.singleLineIfs.trans honward.singleLineIfs

-- ---------------------------------------------------------------------------
-- Items of bodies
-- ---------------------------------------------------------------------------

theorem bodyItem_of_atBoundary {item : Parse Unit} (h : env.atBoundary s = true) :
    bodyItem item env s = .ok false s := by
  unfold bodyItem atBoundary
  rw [(Looks.test _).run_bind, h]
  rfl

theorem bodyItem_of_not_atBoundary {item : Parse Unit} (h : ¬env.atBoundary s = true) :
    bodyItem item env s = (item >>= fun _ => pure true) env s := by
  unfold bodyItem atBoundary
  rw [(Looks.test _).run_bind, if_neg h]

theorem Follows.bodyRound {m : Sight} {item item' : Parse Unit} (henv : env.Alike 0 m env')
    (hs : s.Alike 0 m env.tokens env'.tokens s') (hreach : m.Reaches s.cursor)
    (hclimbs : Climbs item)
    (hitem : ¬env.atBoundary s = true →
      Follows 0 m Eq env.tokens env'.tokens s (item env s) (item' env' s')) :
    Follows 0 m Eq env.tokens env'.tokens s (Production.bodyItem item env s)
      (Production.bodyItem item' env' s') := by
  have hlook : Steady 0 {} Env.atBoundary := steady_atBoundary
  have hboundary : env'.atBoundary s' = env.atBoundary s :=
    hlook m env env' s s' henv hs hreach (Spot.holds_plain nofun)
  by_cases hat : env.atBoundary s = true
  · rw [bodyItem_of_atBoundary hat, bodyItem_of_atBoundary (hboundary.trans hat)]
    exact .pure rfl hs
  · rw [bodyItem_of_not_atBoundary hat, bodyItem_of_not_atBoundary (hboundary ▸ hat)]
    exact .bind hs.le_size hclimbs (fun _ => .pure true) (hitem hat) fun _ _ _ _ _ _ _ hs₁ =>
      .pure rfl hs₁

-- ---------------------------------------------------------------------------
-- The members of a type
-- ---------------------------------------------------------------------------

section

variable {typeDeclaration : Parse Node}

/-- Behind each member of a type that is closed the next word is in front of the closing line. -/
theorem guarded_of_members (htype : Makes 0 false (.plain false) typeDeclaration)
    (hbuilds : Builds .loud 0 true typeDeclaration) (hannounced : Fares Announced typeDeclaration)
    {sf : State}
    (hrun : LoopRun (bodyItem (child (nested (member typeDeclaration)))) env s (.ok () sf))
    (hs : s.cursor ≤ env.tokens.tokens.size) (hend : env.kind sf = .keyword .kwEnd)
    (hquiet : sf.diagnostics.length ≤ s.diagnostics.length) :
    env.tokens.Guarded sf.cursor s.cursor := by
  have hconsumes := Consumes.items (Passage.member htype) (Passage.builds_member hbuilds)
  refine hrun.guarded hconsumes hs hend hquiet (fun s s₁ h => ?_) (fun s s₁ hkind h => ?_)
    fun s s₁ hkind hs h hquiet => ?_
  all_goals
    unfold bodyItem atBoundary at h
    rw [(Looks.test _).run_bind] at h
    split at h
  · cases h
    rfl
  · obtain ⟨_, s₂, -, hret⟩ := bind_eq_ok h
    cases hret
  · cases h
  · obtain ⟨_, s₂, hchild, hret⟩ := bind_eq_ok h
    cases hret
    obtain ⟨n, s₃, hmember, hattach⟩ := bind_eq_ok hchild
    cases hattach
    have hblank := hmember.symm.trans (member_of_isTerminator hkind)
    cases hblank
    exact Env.next_eq_succ (TokenKind.ne_endOfFile_of hkind rfl)
  · cases h
  · obtain ⟨_, s₂, hchild, hret⟩ := bind_eq_ok h
    cases hret
    obtain ⟨n, s₃, hmember, hattach⟩ := bind_eq_ok hchild
    cases hattach
    have hrow : member typeDeclaration { env with depth := env.depth + 1 } s = .ok n s₃ := hmember
    have hplain : ¬(Env.kind { env with depth := env.depth + 1 } s).isTerminator = true :=
      Bool.eq_false_iff.1 hkind
    rw [member_of_not_isTerminator hplain] at hrow
    have hfares :=
      announced_memberOr hannounced _ { env with depth := env.depth + 1 } s n s₃ hs hrow
    exact hfares hquiet

/-- The members of a type that is closed. -/
theorem follows_members (h : Within env env' e s s') (hsingle : s.singleLineIfs = 0)
    (htype : Makes 0 false (.plain false) typeDeclaration)
    (hbuilds : Builds .loud 0 true typeDeclaration)
    (hcarries : Carries typeDeclaration) (hannounced : Fares Announced typeDeclaration) {sf : State}
    (hrun : body (child (nested (member typeDeclaration))) env s = .ok () sf)
    (hsf : sf.cursor = e) :
    Follows 0 (env.upTo e) Eq env.tokens env'.tokens s
      (body (child (nested (member typeDeclaration))) env s)
      (body (child (nested (member typeDeclaration))) env' s') := by
  have hconsumes := Consumes.items (Passage.member htype) (Passage.builds_member hbuilds)
  have hend : env.kind sf = .keyword .kwEnd := by
    rw [Env.kind, hsf]
    exact h.closes.closer
  refine .repeatWhile (fun s => s.singleLineIfs = 0) hconsumes.proceeds h.alike
    h.joined.le_size hsingle
    (fun s s₁ hs hround => ?_) fun sf' hrun' hb s s' hsingle hs hrounds hquiet => ?_
  · have hitem : Runs 0 false {} false (bodyItem (child (nested (member typeDeclaration)))) :=
      .ifBoundary .result (.round (.childNested (.member htype)))
    have hsettled := hitem.tidy env s
    rw [hround] at hsettled
    exact hsettled.singleLineIfs.trans hs
  · obtain ⟨-, rfl⟩ := EStateM.Result.ok.inj (hrun.symm.trans hrun')
    have hbehind := hrounds.later hconsumes.climbs hs.le_size
    have hin := h.move hs (hsf ▸ hbehind.cursor)
    have hitem : Makes 0 false (.plain false) (nested (member typeDeclaration)) :=
      .nested (.member htype)
    refine .bodyRound hin.agree hs hin.le (hitem.climbs.bind Climbs.attach) fun hat =>
      .child hs hitem.climbs ?_
    refine carries_member hcarries hannounced _ _ e s s' hin.nested hsingle
      fun n s₂ hrun₂ hquiet₂ => ?_
    -- The loop goes on behind this member, up to the closing line.
    have hround : bodyItem (child (nested (member typeDeclaration))) env s =
        .ok true { s₂ with children := n :: s₂.children } := by
      rw [bodyItem_of_not_atBoundary hat, run_bind, child, run_bind,
        show nested (member typeDeclaration) env s = .ok n s₂ from hrun₂]
      rfl
    have hlater := hconsumes.climbs.ok hs.le_size hround
    have hguarded :=
      guarded_of_members htype hbuilds hannounced (hrounds.rest hround) hlater.le_size hend
      (Nat.le_trans hquiet hlater.diagnostics.length_le)
    rw [hsf] at hguarded
    exact hguarded

-- ---------------------------------------------------------------------------
-- Types
-- ---------------------------------------------------------------------------

theorem joins_typeBlock (htype : Makes 0 false (.plain false) typeDeclaration)
    (hbuilds : Builds .loud 0 true typeDeclaration) (hrests : Fares Rests typeDeclaration)
    (hcarries : Carries typeDeclaration) (hannounced : Fares Announced typeDeclaration) (r : Rule)
    {word : Keyword} (hword : (TokenKind.keyword word).isWord = true)
    (hcloser : word.closer = [.kwEnd, word])
    (hcloses : TokenStream.closesType (.keyword word) = true) :
    Joins (typeBlock typeDeclaration r word) := by
  have hclimbs := Fares.climbs_typeRows htype hbuilds hword
  have hname := Phrase.typeName hword
  have hhead : Runs 0 true {} false (repeatWhile typeHeadItem) := Passage.typeHead
  have hmembers := Fares.climbs_members htype hbuilds
  rw [typeBlock_eq]
  intro env env' s s' h hs hsingle
  refine .block h hs hclimbs hcloser fun s₀ s₀' sf _ hsame hs₀ hrun hend hafter hquiet => ?_
  have hbars :=
    (Fares.rests_typeRows htype hbuilds hrests hword env s₀ () sf hs₀.le_size hrun hquiet).bars hend
  have hin : Within env env' sf.cursor s₀ s₀' := by
    refine ⟨h, ⟨⟨hbars.1, hbars.2.1⟩, hend, ?_⟩, hs₀, (hclimbs.ok hs₀.le_size hrun).cursor⟩
    rw [hafter]
    exact hcloses
  obtain ⟨_, s₁, hopening, hrest⟩ := bind_eq_ok hrun
  obtain ⟨_, s₂, hclauses, hbody⟩ := bind_eq_ok hrest
  refine .bind hs₀.le_size (.openingLine word hname.climbs)
    (fun _ => hhead.climbs.bind fun _ => hmembers)
    (.openingLine hin.agree hs₀ hin.le word hname) fun _ _ t₁ t₁' _ hrun₁ hreach₁ hs₁ => ?_
  obtain ⟨-, rfl⟩ := EStateM.Result.ok.inj (hopening.symm.trans hrun₁)
  refine .bind hs₁.le_size hhead.climbs (fun _ => hmembers)
    ((hin.move hs₁ hreach₁).follows hhead (Spot.holds_plain nofun))
    fun _ _ t₂ t₂' _ hrun₂ hreach₂ hs₂ => ?_
  obtain ⟨-, rfl⟩ := EStateM.Result.ok.inj (hclauses.symm.trans hrun₂)
  have hsettled := hhead.tidy env s₁
  rw [hclauses] at hsettled
  refine follows_members (hin.move hs₂ hreach₂) ?_ htype hbuilds hcarries hannounced hbody rfl
  exact (hsettled.singleLineIfs.trans (singleLineIfs_openingLine hname hopening)).trans
    (hsame.trans hsingle)

theorem joins_enumBlock : Joins enumBlock := by
  have hitems : Runs 0 true {} false (body enumItem) := .body .enumItem Passage.steps_enumItem
  rw [enumBlock_eq]
  intro env env' s s' h hs _
  refine .block h hs Fares.climbs_enumRows rfl fun s₀ s₀' sf _ _ hs₀ hrun hend _ hquiet => ?_
  have hbars := (Fares.rests_enumRows env s₀ () sf hs₀.le_size hrun hquiet).bars hend
  have hlater := Fares.climbs_enumRows.ok hs₀.le_size hrun
  have hlt : sf.cursor < env.tokens.tokens.size :=
    TokenStream.lt_size_of_kindAt_ne (by rw [hend]; exact nofun)
  refine .bind hs₀.le_size (.openingLine .kwEnum Phrase.enumName.climbs) (fun _ => hitems.climbs)
    (.openingLine (h.alike hlt) hs₀ hlater.cursor .kwEnum Phrase.enumName)
    fun _ _ s₁ s₁' _ _ hreach₁ hs₁ => ?_
  exact h.passage hbars hitems hs₁ hreach₁ (Spot.holds_plain nofun)

theorem joins_delegate : Joins delegateDeclaration := by
  have hcontent : Flows 0 false {} true (declarationPrefix >>= fun _ => _) :=
    .seqAny .declarationPrefix .delegateSignature
  exact fun env env' s s' h hs _ => h.line _ hcontent hs (Spot.holds_plain nofun)

/-- The word that announces a type is not behind the end of the stream. -/
theorem joins_typeDefinition (htype : Makes 0 false (.plain false) typeDeclaration)
    (hbuilds : Builds .loud 0 true typeDeclaration) (hrests : Fares Rests typeDeclaration)
    (hcarries : Carries typeDeclaration) (hannounced : Fares Announced typeDeclaration) :
    Joins (typeDefinition typeDeclaration) := by
  intro env env' s s' h hs hsingle
  have hblock (r : Rule) {word : Keyword} (hword : (TokenKind.keyword word).isWord = true)
      (hcloser : word.closer = [.kwEnd, word])
      (hcloses : TokenStream.closesType (.keyword word) = true) :=
    joins_typeBlock htype hbuilds hrests hcarries hannounced r hword hcloser hcloses env env' s
      s' h hs hsingle
  unfold typeDefinition
  rw [Looks.peekBehindPrefix.run_bind, Looks.peekBehindPrefix.run_bind]
  by_cases hend : env.tokens.kindAt (env.tokens.behindPrefix s.cursor) = .endOfFile
  · rw [hend]
    exact .of_ok fun _ _ hrun _ _ => by cases hrun
  · have hsees : env.tokens.behindPrefix s.cursor < env.tokens.tokens.size :=
      TokenStream.lt_size_of_kindAt_ne hend
    have hword : env'.tokens.behindPrefix s'.cursor = env.tokens.behindPrefix s.cursor := by
      rw [hs.cursor]
      exact h.alike_last.behindPrefix hsees
    rw [hword, h.kindAt _ hsees]
    generalize env.tokens.kindAt (env.tokens.behindPrefix s.cursor) = kind
    split
    · exact hblock _ rfl rfl rfl
    · exact hblock _ rfl rfl rfl
    · exact hblock _ rfl rfl rfl
    · exact hblock _ rfl rfl rfl
    · exact joins_enumBlock env env' s s' h hs hsingle
    · exact joins_delegate env env' s s' h hs hsingle
    · exact .fail _ hs

end

/-- Types in types, by the levels that are left. -/
theorem joins_typeDeclarationUpTo (room : Nat) : Joins (typeDeclarationUpTo room) := by
  induction room with
  | zero => exact fun env env' s s' _ _ _ => .of_ok fun _ _ hrun _ _ => by cases hrun
  | succ room ih =>
    intro env env' s s' h hs hsingle
    have htype : Makes 0 false (.plain false) (typeDeclarationUpTo room) :=
      Passage.typeDeclarationUpTo room
    have hbuilds := Builds.typeDeclarationUpTo room
    have hdefinition :=
      joins_typeDefinition htype hbuilds (Fares.rests_typeDeclarationUpTo room) ih.carries
      (Fares.announced_typeDeclarationUpTo room)
    have hmakes : Makes 0 false (.plain false) (typeDefinition (typeDeclarationUpTo room)) :=
      Passage.typeDefinition htype hbuilds
    have hwrap := Climbs.wrap .typeDeclaration
    refine .bind hs.le_size Climbs.checkDepth (fun _ => hmakes.climbs.bind hwrap)
      (h.checkDepth hs) fun _ _ s₁ s₁' _ hdepth _ hs₁ => ?_
    obtain rfl := checkDepth_eq_ok hdepth
    refine .bind hs₁.le_size hmakes.climbs hwrap (hdefinition env env' _ _ h hs₁ hsingle)
      fun n n' s₂ s₂' hn _ _ hs₂ => ?_
    exact .construct hn.firstToken hs₂ (.attach hn hs₂.apart)

theorem joins_typeDeclaration : Joins typeDeclaration := by
  intro env env' s s' h hs hsingle
  have hroom : env'.room = env.room := by
    rw [Env.room, Env.room, h.depth, h.limit]
  change Follows _ _ _ _ _ _ (typeDeclarationUpTo env.room env s)
    (typeDeclarationUpTo env'.room env' s')
  rw [hroom]
  exact joins_typeDeclarationUpTo env.room env env' s s' h hs hsingle

end VisualBasic.Production
