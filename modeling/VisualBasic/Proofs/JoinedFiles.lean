import VisualBasic.Proofs.JoinedTypes

/-!
# Files that go on

The items of a file do the same over a stream that goes on. There is one exception: lines of
settings are one item for as long as they follow each other, so such an item that ends with the
first stream may go on in the second one.

Main results:

* `follows_fileItemOf` — an item does the same, if it may not go on.
* `follows_namespaceBlockUpTo` — namespaces do, by induction on the levels that are left.
-/

namespace VisualBasic.Production

open State

variable {env env' : Env} {s s' : State}

-- ---------------------------------------------------------------------------
-- Settings
-- ---------------------------------------------------------------------------

/-- A line of settings; tells whether there is another one behind it. -/
def optionLine : Parse Bool := do
  expectWord .kwOption
  optionSetting
  endStatement
  atWord .kwOption

theorem optionStatements_eq :
    optionStatements = node .optionStatements (repeatWhile optionLine) := rfl

theorem optionLine_eq : optionLine = ((expectWord .kwOption >>= fun _ => optionSetting) >>= fun _ =>
    endStatement) >>= fun _ => atWord .kwOption := by
  simp only [optionLine, bind_assoc]

theorem flows_optionLine : Flows 0 false {} false optionLine := by
  refine .seq (.expectWord (.word rfl)) (.seq .optionSetting ?_)
  exact .seqAny .endStatement (.see (Nearsighted.kind (· == .keyword .kwOption)).steady)

theorem proceeds_optionLine : Proceeds optionLine := by
  refine ⟨flows_optionLine.climbs, fun env s s₁ hs hrun => ?_⟩
  have hrest : Flows 0 false (.plain true) false (do
      optionSetting
      endStatement
      atWord .kwOption) :=
    .seq .optionSetting
      (.seqAny .endStatement (.see (Nearsighted.kind (· == .keyword .kwOption)).steady))
  obtain ⟨_, s₂, hword, hbehind⟩ := bind_eq_ok hrun
  obtain ⟨hkind, hcursor⟩ := run_ifTake hword
  have hne : env.kind s ≠ .endOfFile := by
    rw [hkind]
    exact nofun
  have hlt : s.cursor < env.tokens.tokens.size := TokenStream.lt_size_of_kindAt_ne hne
  have hnext : env.next s.cursor = s.cursor + 1 := Nat.min_eq_left hlt
  have hlater := hrest.climbs.ok (by rw [hcursor, hnext]; exact hlt) hbehind
  have hle := hlater.cursor
  omega

/-- Settings do the same if the second stream does not go on with one where the first stream
ends. -/
theorem follows_optionStatements (h : env.Joined env')
    (hs : s.Alike 0 env.toEnd env.tokens env'.tokens s')
    (hoption : ∀ n s₁, optionStatements env s = .ok n s₁ → s₁.cursor = env.tokens.tokens.size →
      env'.tokens.kindAt env.tokens.tokens.size ≠ .keyword .kwOption) :
    Follows 0 env.toEnd (Node.Alike 0) env.tokens env'.tokens s (optionStatements env s)
      (optionStatements env' s') := by
  have hfront : Flows 0 false {} true (expectWord .kwOption >>= fun _ => optionSetting) :=
    .seq (.expectWord (.word rfl)) .optionSetting
  have hword : Climbs (atWord .kwOption) := Climbs.of_looks (Looks.test _)
  refine .construct hs.cursor hs (.repeatWhile (fun _ => True) proceeds_optionLine hs.apart
    h.le_size trivial
    (fun _ _ _ _ => trivial) fun sf hrun hb s₁ s₁' _ hs₁ hrounds _ => ?_)
  have hsf : sf.cursor = env.tokens.tokens.size →
      env'.tokens.kindAt env.tokens.tokens.size ≠ .keyword .kwOption := by
    obtain ⟨n, s₂, hnode, hupTo⟩ := Accessored.run_node (r := .optionStatements) hrun
    rw [← hupTo.cursor]
    exact hoption n s₂ hnode
  change Follows _ _ _ _ _ _ (optionLine env s₁) (optionLine env' s₁')
  rw [optionLine_eq]
  refine .bind hs₁.le_size (hfront.climbs.bind fun _ => Fares.climbs_endStatement) (fun _ => hword)
    (h.landingThen hfront hs₁ (Spot.holds_plain nofun)) fun _ _ s₂ s₂' _ hrun₂ _ hs₂ => ?_
  have hround : optionLine env s₁ = .ok (env.kind s₂ == .keyword .kwOption) s₂ := by
    rw [optionLine_eq, run_bind, hrun₂]
    rfl
  have hkind : (env'.kind s₂' == .keyword .kwOption) = (env.kind s₂ == .keyword .kwOption) := by
    rcases Nat.lt_or_eq_of_le hs₂.le_size with hlt | hend
    · rw [Env.kind, hs₂.cursor, Env.kind]
      exact congrArg (· == _) (h.kindAt _ hlt)
    · -- Behind the last terminator there is no other line in the first stream, so this is the end.
      have hnone : env.kind s₂ = .endOfFile :=
        TokenStream.kindAt_of_size_le (Nat.le_of_eq hend.symm)
      rw [hnone] at hround
      have hlast : EStateM.Result.ok () sf = .ok () s₂ := hrounds.unique (.stop hround)
      cases hlast
      rw [hnone, Env.kind, hs₂.cursor, hend]
      exact beq_false_of_ne (hsf hend)
  refine fun _ => ⟨_, s₂', rfl, ?_, hs₂⟩
  exact hkind.symm

-- ---------------------------------------------------------------------------
-- Other lines of a file
-- ---------------------------------------------------------------------------

theorem follows_importsStatement (h : env.Joined env')
    (hs : s.Alike 0 env.toEnd env.tokens env'.tokens s')
    (hkind : env.kind s = .keyword .kwImports) :
    Follows 0 env.toEnd (Node.Alike 0) env.tokens env'.tokens s (importsStatement env s)
      (importsStatement env' s') := by
  have hrow : Flows 0 false ⟨false, [(· == .keyword .kwImports)]⟩ true _ :=
    Phrase.importsRow (.word rfl)
  rw [Phrase.importsStatement_eq]
  exact h.line _ hrow hs ⟨nofun, beq_iff_eq.2 hkind, trivial⟩

theorem joins_fileAttribute : Joins fileAttribute := by
  intro env env' s s' h hs _
  have hblock : Gives 0 false {} true (nested attributeBlock) :=
    .nested (.attributeBlock (.inr rfl))
  have hrest (n : Node) : Climbs (endStatement >>= fun _ => pure n) :=
    Fares.climbs_endStatement.bind fun _ => .pure n
  refine .bind hs.le_size hblock.climbs hrest (h.landing hblock hs (Spot.holds_plain nofun))
    fun n n' s₁ s₁' hn hrun _ hs₁ => ?_
  have hle := h.le_last hs₁.le_size (hblock.inside (Spot.holds_plain nofun) hrun rfl)
  exact .bind hs₁.le_size Fares.climbs_endStatement (fun _ => .pure n) (h.endStatement hs₁ hle)
    fun _ _ _ _ _ _ _ hs₂ => .pure hn hs₂

-- ---------------------------------------------------------------------------
-- Items
-- ---------------------------------------------------------------------------

section

variable {namespaceBlock : Parse Node}

/-- An item does the same, if it is not a line of settings that goes on. -/
theorem follows_fileItemOf
    (h : env.Joined env') (hs : s.Alike 0 env.toEnd env.tokens env'.tokens s')
    (hsingle : s.singleLineIfs = 0)
    (hlt : s.cursor < env.tokens.tokens.size)
    (hnamespace : env.kind s = .keyword .kwNamespace →
      Follows 0 env.toEnd (Node.Alike 0) env.tokens env'.tokens s
      (namespaceBlock env s) (namespaceBlock env' s'))
    (hoption : ∀ n s₁, fileItemOf namespaceBlock env s = .ok n s₁ →
      n.kind = .rule .optionStatements →
      s₁.cursor = env.tokens.tokens.size → env'.tokens.kindAt env.tokens.tokens.size ≠
        .keyword .kwOption) :
    Follows 0 env.toEnd (Node.Alike 0) env.tokens env'.tokens s (fileItemOf namespaceBlock env s)
      (fileItemOf namespaceBlock env' s') := by
  have hlast := hs.within (env.tokens.tokens.size - 1) env.tokens.tokens.size
  have hle : s.cursor ≤ env.tokens.tokens.size - 1 := Nat.le_sub_one_of_lt hlt
  have hne : env.kind s ≠ .endOfFile := h.lasting _ hlt
  have hlook : Steady 0 {} _ := Passage.steady_atFileAttribute
  have hattribute := hlook _ env env' s s' h.alike_last hlast hle (Spot.holds_plain nofun)
  dsimp only at hattribute
  unfold fileItemOf at hoption ⊢
  rw [Looks.peek.run_bind] at hoption ⊢
  rw [Looks.peek.run_bind, hlast.kind h.alike_last hle]
  generalize hkind : env.kind s = kind at hoption ⊢
  split
  · exact h.leaf _ hs hne
  · exact h.leaf _ hs hne
  · refine .orRecover nofun hs (follows_optionStatements h hs fun n s₁ hrun => hoption n s₁ ?_ ?_)
    · change orRecover optionStatements env s = .ok n s₁
      rw [Parse.orRecover_eq]
      rw [hrun]
    · exact (node_eq_ok hrun).1
  · exact .orRecover nofun hs (follows_importsStatement h hs hkind)
  · exact .orRecover nofun hs (hnamespace hkind)
  · unfold atFileAttribute
    rw [(Looks.test _).run_bind, (Looks.test _).run_bind, hattribute]
    split
    · exact .orRecover nofun hs (joins_fileAttribute env env' s s' h hs hsingle)
    · exact .orRecover nofun hs (joins_typeDeclaration env env' s s' h hs hsingle)

end

-- ---------------------------------------------------------------------------
-- Namespaces
-- ---------------------------------------------------------------------------

/-- The line that opens a namespace. -/
def namespaceName : Parse Unit := do
  take
  field .name dottedName
  endStatement

/-- A namespace up to its closing line. -/
def namespaceRows (room : Nat) : Parse Unit := do
  openBlock .kwNamespace
  namespaceName
  body (child (nested (fileItemOf (namespaceBlockUpTo room))))

theorem namespaceBlockUpTo_succ (room : Nat) :
    namespaceBlockUpTo (room + 1) = checkDepth >>= fun _ =>
    node .namespaceBlock (namespaceRows room >>= fun _ => finishBlock .kwNamespace) := by
  simp only [namespaceBlockUpTo, namespaceRows, namespaceName, bind_assoc]

theorem climbs_items (room : Nat) :
    Climbs (body (child (nested (fileItemOf (namespaceBlockUpTo room))))) :=
  .iterate (fun _ => (OfBody.namespaceBlock room).consumes.climbs.bind fun _ => .pure _) ()

/-- The items in front of the closing line of a namespace do the same if those of namespaces in it
do. -/
theorem follows_items (room : Nat) {e : Nat} (h : env.Joined env') (he : e < env.tokens.tokens.size)
    (hs : s.Alike 0 (env.upTo e) env.tokens env'.tokens s') (hsingle : s.singleLineIfs = 0)
    (hnamespace : ∀ s s', s.Alike 0 env.toEnd env.tokens env'.tokens s' → s.singleLineIfs = 0 →
      env.kind s = .keyword .kwNamespace →
      Follows 0 env.toEnd (Node.Alike 0) env.tokens env'.tokens s
        (namespaceBlockUpTo room { env with depth := env.depth + 1 } s)
        (namespaceBlockUpTo room { env' with depth := env'.depth + 1 } s')) :
    Follows 0 (env.upTo e) Eq env.tokens env'.tokens s
      (body (child (nested (fileItemOf (namespaceBlockUpTo room)))) env s)
      (body (child (nested (fileItemOf (namespaceBlockUpTo room)))) env' s') := by
  have hconsumes := (OfBody.namespaceBlock room).consumes
  have hitem : Makes 0 false (.plain false) (nested (fileItemOf (namespaceBlockUpTo room))) :=
    .nested (.fileItemOf (Passage.namespaceBlockUpTo room))
  refine .repeatWhile (fun s => s.singleLineIfs = 0) hconsumes.proceeds hs h.le_size hsingle
    (fun s s₁ hgs hround => ?_) fun sf hrun hb s s' hgs hs hrounds _ => ?_
  · have hitems :
        Runs 0 false {} false (bodyItem (child (nested (fileItemOf (namespaceBlockUpTo room))))) :=
      .ifBoundary .result (.round (.child hitem))
    have hsettled := hitems.tidy env s
    rw [hround] at hsettled
    exact hsettled.singleLineIfs.trans hgs
  · have hbehind := hrounds.later hconsumes.climbs hs.le_size
    have hle := Nat.le_trans hbehind.cursor hb
    refine .bodyRound (h.alike he) hs hle (hitem.climbs.bind Climbs.attach) fun _ =>
      .child hs hitem.climbs (.of_ok fun n s₁ hrun₁ hb₁ hquiet₁ => ?_)
    have hs' := hs.within env.tokens.tokens.size env.tokens.tokens.size
    have hfollows := follows_fileItemOf h.nested hs' hgs (Nat.lt_of_le_of_lt hle he)
        (hnamespace s s' hs' hgs)
      fun n' s₂ hrun₂ _ hend => ?_
    · rw [show fileItemOf (namespaceBlockUpTo room) { env with depth := env.depth + 1 } s =
        .ok n s₁ from hrun₁]
        at hfollows
      obtain ⟨n', s₁', hrun', hn, hs₁⟩ := hfollows ⟨Nat.le_trans hb₁ (Nat.le_of_lt he), hquiet₁⟩
      exact ⟨n', s₁', hrun', hn, hs₁.within _ _⟩
    · -- An item that ends with the stream would be behind the closing line.
      have heq : EStateM.Result.ok n s₁ = .ok n' s₂ := hrun₁.symm.trans hrun₂
      cases heq
      exact absurd hend (Nat.ne_of_lt (Nat.lt_of_le_of_lt hb₁ he))

/-- Namespaces in namespaces, by the levels that are left. No item in a namespace ends with the
stream, since the closing line is behind it. -/
theorem follows_namespaceBlockUpTo (room : Nat) (h : env.Joined env')
    (hs : s.Alike 0 env.toEnd env.tokens env'.tokens s') (hsingle : s.singleLineIfs = 0)
    (hkind : env.kind s = .keyword .kwNamespace) :
    Follows 0 env.toEnd (Node.Alike 0) env.tokens env'.tokens s (namespaceBlockUpTo room env s)
      (namespaceBlockUpTo room env' s') := by
  induction room generalizing env env' s s' with
  | zero => exact .of_ok fun _ _ hrun _ _ => by cases hrun
  | succ room ih =>
    have hname : Flows 0 false (.before false (· == .keyword .kwNamespace)) false namespaceName :=
      .seq (.take (.word rfl)) (.seq (.field _ .dottedName) .endStatement)
    have hitems := climbs_items room
    have hrows : Climbs (namespaceRows room) := by
      refine .bind (.look Looks.currentLine fun l => .openBlockAt _ l) fun _ => ?_
      exact hname.climbs.bind fun _ => hitems
    have hclosing : Runs 0 false {} true (finishBlock .kwNamespace) := .finishBlock _
    have hblock :
        Climbs (node .namespaceBlock (namespaceRows room >>= fun _ => finishBlock .kwNamespace)) :=
      fun env s hsize => Climbs.construct (hrows.bind fun _ => hclosing.climbs) env s hsize
    rw [namespaceBlockUpTo_succ]
    refine .bind hs.le_size Climbs.checkDepth (fun _ => hblock) (h.checkDepth hs)
      fun _ _ s₁ s₁' _ hdepth _ hs₁ => ?_
    obtain rfl := checkDepth_eq_ok hdepth
    refine .block h hs₁ hrows rfl fun s₀ s₀' sf hcursor hsame hs₀ hrun hend _ hquiet => ?_
    have hlt : sf.cursor < env.tokens.tokens.size :=
      TokenStream.lt_size_of_kindAt_ne fun heq => by rw [hend] at heq; cases heq
    have hle := (hrows.ok hs₀.le_size hrun).cursor
    obtain ⟨_, s₃, hopening, hrest⟩ := bind_eq_ok hrun
    obtain ⟨_, s₂, hnaming, hbody⟩ := bind_eq_ok hrest
    cases hopening
    have hspot : (Spot.before false (· == .keyword .kwNamespace)).Holds env s₀ := by
      refine ⟨nofun, ?_, trivial⟩
      rw [hcursor]
      exact beq_iff_eq.2 hkind
    have honward := hname.hushed env { s₀ with blocks := ⟨.kwNamespace, env.line s₀⟩ :: s₀.blocks }
    rw [show _ = EStateM.Result.ok () s₂ from hnaming] at honward
    have hopen := hs₀.openBlock .kwNamespace (env.line s₀) (env'.line s₀')
    change Follows _ _ _ _ _ _ ((namespaceName >>= fun _ => body _) env _)
      ((namespaceName >>= fun _ => body _) env' _)
    refine .bind hopen.le_size hname.climbs (fun _ => hitems)
      (hname.follows (h.alike hlt) hopen hle (hspot.same rfl rfl))
      fun _ _ t₁ t₁' _ hrun₁ _ ht₁ => ?_
    obtain ⟨-, rfl⟩ := EStateM.Result.ok.inj (hnaming.symm.trans hrun₁)
    exact follows_items room h hlt ht₁ (honward.singleLineIfs.trans (hsame.trans hsingle))
      fun s s' =>
      ih h.nested

end VisualBasic.Production
