import VisualBasic.Proofs.Prefixes
import VisualBasic.Proofs.HeldWords

/-!
# Lines that end within headers

A line may end within the header of a member: behind attributes, between arguments, or at a colon.
The word that follows is then the word of an attribute, of the rest of the header, or of an
argument. Words that begin accessors, members or closing lines do not stand there, except where
something in front of them holds them: a dot, say, or a modifier of a parameter. What holds them
ends no line, so what follows looks like no accessor.

Main results:

* `TokenStream.idle_of_lineEnd` — the first token of a line, in a stretch where such words stand
  only where they are held.
* `idle_of_attributeBlock`, `idle_of_declarationPrefix`, `idle_of_headerRest` — the parts of a
  header.
* `idle_of_header` — what follows the end of a line within a header looks like no accessor.
* `isHeaderRest_property`, `isHeaderRest_event` — the headers that this holds of.
-/

namespace VisualBasic

-- ---------------------------------------------------------------------------
-- Searches
-- ---------------------------------------------------------------------------

namespace TokenStream

variable {t : TokenStream} {i j k b : Nat} {p : TokenKind → Bool}

/-- A search ends at once at a token of the class. -/
theorem firstFrom_of_true (h : p (t.kindAt i) = true) : t.firstFrom p i = i := by
  rw [firstFrom, if_pos h]

/-- A search passes over nothing that it looks for. -/
theorem not_of_lt_firstFrom (hij : i ≤ j) (hj : j < t.firstFrom p i) : p (t.kindAt j) = false := by
  fun_induction firstFrom t p i with
  | case1 i hi => omega
  | case2 i hi hlt ih =>
    rcases Nat.eq_or_lt_of_le hij with rfl | hlt'
    · exact Bool.eq_false_iff.2 hi
    · exact ih hlt' hj
  | case3 i hi hlt => omega

/-- A search that is further on but not yet at its end finds the same. -/
theorem firstFrom_eq_of_le (hij : i ≤ j) (hj : j ≤ t.firstFrom p i) :
    t.firstFrom p j = t.firstFrom p i := by
  fun_induction firstFrom t p i with
  | case1 i hi =>
    obtain rfl : j = i := by omega
    rw [firstFrom, if_pos hi]
  | case2 i hi hlt ih =>
    rcases Nat.eq_or_lt_of_le hij with rfl | hlt'
    · rw [firstFrom, if_neg hi, if_pos hlt]
    · exact ih hlt' hj
  | case3 i hi hlt =>
    obtain rfl : j = i := by omega
    rw [firstFrom, if_neg hi, if_neg hlt]

theorem isTerminator_of_isModifier {kind : TokenKind} (h : kind.isModifier = true) :
    kind.isTerminator = false := by
  cases kind with
  | keyword => rfl
  | _ => cases h

theorem Lasting.isTerminator_lineEnd (h : t.Lasting) (hlt : t.lineEnd i < t.tokens.size) :
    (t.kindAt (t.lineEnd i)).isTerminator = true := by
  have hends : (t.kindAt (t.lineEnd i)).endsLine = true :=
    (t.firstFrom_spec _ i).resolve_right (Nat.not_le_of_lt hlt)
  rw [TokenKind.endsLine_eq, Bool.or_eq_true] at hends
  exact hends.resolve_right fun hkind => h _ hlt (beq_iff_eq.1 hkind)

/-- Neither the token at an index nor the word behind attributes and modifiers there begins an
accessor or a closing line. -/
def Idle (t : TokenStream) (i : Nat) : Prop :=
  opensAccessor (t.kindAt i) = false ∧ opensAccessor (t.kindAt (t.behindPrefix i)) = false

theorem opensLine_of_opensAccessor {kind : TokenKind} (h : opensAccessor kind = true) :
    opensLine kind = true := by
  unfold opensLine
  rw [h]
  rfl

/-- Behind the end of a line no word of another line may stand. -/
theorem not_held_of_isTerminator (h : (t.kindAt (i - 1)).isTerminator = true) : ¬t.Held i := by
  unfold Held
  cases hkind : t.kindAt (i - 1) with
  | mark mark =>
    rw [hkind] at h
    cases mark <;> first | exact Bool.noConfusion h | exact nofun
  | newline => exact nofun
  | _ =>
    rw [hkind] at h
    exact Bool.noConfusion h

/-- Nor may one behind a modifier. -/
theorem not_held_of_isModifier (h : (t.kindAt (i - 1)).isModifier = true) : ¬t.Held i := by
  unfold Held
  cases hkind : t.kindAt (i - 1) with
  | keyword word =>
    rw [hkind] at h
    cases word <;> first | exact Bool.noConfusion h | exact nofun
  | _ =>
    rw [hkind] at h
    exact Bool.noConfusion h

/-- The first token behind the end of a line is idle, in a stretch in which words that begin lines
stand only where they may stand within one. -/
theorem idle_of_shunned (h : t.Shunned k b) (hki : k ≤ i) (hib : i ≤ b)
    (hline : (t.kindAt (i - 1)).isTerminator = true) (hless : t.kindAt i ≠ .mark .less)
    (hb : opensAccessor (t.kindAt b) = false ∧ (t.kindAt b).isModifier = false) : t.Idle i := by
  have hidle {l : Nat} (hil : i ≤ l) (hlb : l ≤ b) (hheld : ¬t.Held l) :
      opensAccessor (t.kindAt l) = false := by
    rcases Nat.eq_or_lt_of_le hlb with rfl | hlt
    · exact hb.1
    · refine Bool.eq_false_iff.2 fun hl => hheld ?_
      exact h l (Nat.le_trans hki hil) hlt (opensLine_of_opensAccessor hl)
  have hfirst := not_held_of_isTerminator hline
  refine ⟨hidle (Nat.le_refl i) hib hfirst, ?_⟩
  have hword : t.behindPrefix i = t.firstFrom (!·.isModifier) i := prefixEnd_of_ne_less hless
  have hbound : t.firstFrom (!·.isModifier) i ≤ b := by
    refine firstFrom_le hib ?_
    rw [hb.2]
    rfl
  rw [hword]
  refine hidle (t.le_firstFrom _ i) hbound ?_
  rcases Nat.eq_or_lt_of_le (t.le_firstFrom (!·.isModifier) i) with heq | hlt
  · rwa [← heq]
  · have hmodifier : (!(t.kindAt (t.firstFrom (!·.isModifier) i - 1)).isModifier) = false :=
      not_of_lt_firstFrom (p := (!·.isModifier)) (i := i) (by omega) (by omega)
    exact not_held_of_isModifier (by simpa using hmodifier)

/-- The first token of a line in the stretch, where no attributes begin at the start of a line. -/
theorem idle_of_lineEnd (h : t.Shunned k b) (hskirts : ∀ e, k ≤ e → e < b → ¬t.Bars true e)
    (hki : k ≤ i) (hib : i < b) (hend : (t.kindAt i).isTerminator = true)
    (hlast : (t.kindAt (b - 1)).isTerminator = false)
    (hb : opensAccessor (t.kindAt b) = false ∧ (t.kindAt b).isModifier = false) :
    t.Idle (t.firstFrom (!·.isTerminator) i) := by
  have hne : i ≠ b - 1 := by
    rintro rfl
    rw [hend] at hlast
    cases hlast
  have hle : t.firstFrom (!·.isTerminator) i ≤ b - 1 := by
    refine firstFrom_le (by omega) ?_
    rw [hlast]
    rfl
  have hlt : i < t.firstFrom (!·.isTerminator) i := by
    refine Nat.lt_of_le_of_ne (t.le_firstFrom _ i) fun heq => ?_
    rcases t.firstFrom_spec (!·.isTerminator) i with hspec | hsize
    · rw [← heq, hend] at hspec
      cases hspec
    · rw [← heq] at hsize
      rw [kindAt_of_size_le hsize] at hend
      cases hend
  have hline : (t.kindAt (t.firstFrom (!·.isTerminator) i - 1)).isTerminator = true := by
    have hbefore : (!(t.kindAt (t.firstFrom (!·.isTerminator) i - 1)).isTerminator) = false :=
      not_of_lt_firstFrom (p := (!·.isTerminator)) (i := i) (by omega) (by omega)
    simpa using hbefore
  refine idle_of_shunned h (by omega) (by omega) hline (fun hless => ?_) hb
  exact hskirts _ (by omega) (by omega) ⟨by omega, hline, .inr ⟨rfl, hless⟩⟩

end TokenStream

namespace Production

open TokenStream

variable {env : Env} {s s' : State}

/-- A statement ends with a terminator, or where it must end without one. -/
theorem endStatement_eq_ok (h : endStatement env s = .ok () s') :
    (env.kind s).isTerminator = true ∧ s' = { s with cursor := s.cursor + 1 } ∨
      s' = s ∧ ((env.kind s).endsLine = true ∨ env.kind s = .keyword .kwElse) := by
  unfold endStatement atTerminator at h
  rw [Looks.peek.run_bind] at h
  split at h
  · rename_i hterminator
    cases h
    have hnext : env.next s.cursor = s.cursor + 1 :=
      Env.next_eq_succ (TokenKind.ne_endOfFile_of hterminator rfl)
    exact .inl ⟨hterminator, by rw [hnext]⟩
  · rw [(Looks.test _).run_bind] at h
    split at h
    · rename_i hend
      cases h
      refine .inr ⟨rfl, (Bool.or_eq_true_iff.1 hend).imp_right fun helse => ?_⟩
      exact beq_iff_eq.1 (Bool.and_eq_true_iff.1 helse).1
    · cases h

-- ---------------------------------------------------------------------------
-- Lines that end within a header
-- ---------------------------------------------------------------------------

/-- The attributes in angle brackets, one by one. -/
abbrev attributeItems : Parse Unit := commaSeparated (child (nested attributeItem))

theorem run_attributeBlock {n : Node} (hrun : attributeBlock env s = .ok n s') :
    env.kind s = .mark .less ∧ ∃ s₁ s₂ : State, s₁.cursor = s.cursor + 1 ∧
      attributeItems env s₁ = .ok () s₂ ∧ env.kind s₂ = .mark .greater ∧
      s'.cursor = s₂.cursor + 1 := by
  obtain ⟨_, s₀, hdepth, hnode⟩ := bind_eq_ok hrun
  obtain rfl := checkDepth_eq_ok hdepth
  obtain ⟨s₃, hbody, hcursor⟩ := construct_eq_ok hnode
  obtain ⟨_, s₁, hopen, hrest⟩ := bind_eq_ok hbody
  obtain ⟨_, s₂, hitems, hclose⟩ := bind_eq_ok hrest
  have hless : env.kind s₀ = .mark .less :=
    (run_ifTake (s := { s₀ with children := [], isPartial := false }) hopen).1
  have hfirst : s₁.cursor = s₀.cursor + 1 :=
    next_of_ifTake (s := { s₀ with children := [], isPartial := false }) hopen nofun
  refine ⟨hless, s₁, s₂, hfirst, hitems, (run_ifTake hclose).1, ?_⟩
  rw [hcursor, next_of_ifTake hclose nofun]

/-- A line that ends within attributes goes on with a token that is idle. -/
theorem idle_of_attributeBlock {n : Node} (hrun : attributeBlock env s = .ok n s')
    (ht : env.tokens.Lasting) (hend : env.tokens.lineEnd s.cursor < s'.cursor) :
    env.tokens.Idle (env.tokens.nextLine s.cursor) := by
  obtain ⟨hless, s₁, s₂, hfirst, hitems, hgreater, hcursor⟩ := run_attributeBlock hrun
  have hphrase : Flows 0 true (.plain true) true attributeItems :=
    Phrase.commaSeparated (Phrase.childNested Phrase.attributeItem)
    (Phrase.childNested Phrase.attributeItem)
  have hshuns : Shuns Held attributeItems :=
    Shuns.commaSeparatedHeld (Shuns.child Shuns.attributeItem.nested)
  have hfirstKind : env.tokens.kindAt s.cursor = .mark .less := hless
  have hlastKind : env.tokens.kindAt s₂.cursor = .mark .greater := hgreater
  have hspot : (Spot.plain true).Holds env s₁ := by
    refine Spot.holds_plain fun _ => ?_
    rw [hfirst]
    refine ⟨Nat.succ_pos _, ?_⟩
    rw [Nat.add_sub_cancel, hfirstKind]
    rfl
  have hsize : s₂.cursor < env.tokens.tokens.size :=
    lt_size_of_kindAt_ne (by rw [hlastKind]; exact nofun)
  have hterminator := ht.isTerminator_lineEnd (i := s.cursor) (by omega)
  have hne₁ : env.tokens.lineEnd s.cursor ≠ s.cursor := by
    intro heq
    rw [heq, hfirstKind] at hterminator
    cases hterminator
  have hne₂ : env.tokens.lineEnd s.cursor ≠ s₂.cursor := by
    intro heq
    rw [heq, hlastKind] at hterminator
    cases hterminator
  have hle := env.tokens.le_lineEnd s.cursor
  have hheld : env.tokens.Held s₁.cursor := by
    unfold Held
    rw [hfirst, Nat.add_sub_cancel, hfirstKind]
    rfl
  refine idle_of_lineEnd (k := s₁.cursor) (b := s₂.cursor) (hshuns env s₁ () s₂ hheld hitems)
    (fun e hke heb hbars => ?_) (by omega) (by omega) hterminator
    (hphrase.inside hspot hitems rfl).2 ?_
  · have hskirts := hphrase.skirts hspot hitems hbars hke
    omega
  · rw [hlastKind]
    exact ⟨rfl, rfl⟩

/-- What stands behind the attributes and modifiers of a header: a word, and what ends inside of the
statement. -/
structure IsHeaderRest (word : Keyword) (q : Parse Unit) : Prop where
  shuns : ∀ env s s', q env s = .ok () s' → env.tokens.Shunned (s.cursor + 1) s'.cursor
  phrase : Flows 0 true (.plain false) true q
  begins : ∀ env s s', q env s = .ok () s' → env.kind s = .keyword word
  plain : opensAccessor (.keyword word) = false ∧ (TokenKind.keyword word).isModifier = false

/-- A line that ends behind the word of the header goes on with a token that is idle. -/
theorem idle_of_headerRest (ht : env.tokens.Lasting) {word : Keyword} {q : Parse Unit}
    (hq : IsHeaderRest word q) (hrun : q env s = .ok () s')
    (hstop : (env.tokens.kindAt s'.cursor).isTerminator = true) {i : Nat}
    (hi : s.cursor ≤ env.tokens.lineEnd i)
    (hend : env.tokens.lineEnd i < s'.cursor) : env.tokens.Idle (env.tokens.nextLine i) := by
  have hspot : (Spot.plain false).Holds env s := Spot.holds_plain nofun
  have hsize : s'.cursor < env.tokens.tokens.size :=
    lt_size_of_kindAt_ne fun h => by rw [h] at hstop; cases hstop
  have hterminator := ht.isTerminator_lineEnd (i := i) (by omega)
  have hne : env.tokens.lineEnd i ≠ s.cursor := by
    intro heq
    rw [heq, show env.tokens.kindAt s.cursor = .keyword word from hq.begins env s s'
      hrun] at hterminator
    cases hterminator
  refine idle_of_lineEnd (k := s.cursor + 1) (b := s'.cursor) (hq.shuns env s s' hrun)
    (fun e hke heb hbars => ?_) (by omega) hend hterminator
    (hq.phrase.inside hspot hrun rfl).2 ?_
  · have hskirts := hq.phrase.skirts hspot hrun hbars (by omega)
    omega
  · unfold TokenKind.isTerminator at hstop
    split at hstop
    · rename_i hkind
      rw [hkind]
      exact ⟨rfl, rfl⟩
    · rename_i hkind
      rw [hkind]
      exact ⟨rfl, rfl⟩
    · cases hstop

/-- Attributes and modifiers begin with the mark that opens attributes or with a modifier, if there
are any. -/
theorem kind_of_declarationPrefix (hs : s.cursor ≤ env.tokens.tokens.size)
    (hrun : declarationPrefix env s = .ok () s') :
    env.tokens.kindAt s.cursor = .mark .less ∨ (env.tokens.kindAt s.cursor).isModifier = true ∨
      s'.cursor = s.cursor := by
  obtain ⟨_, s₀, hlines, hmodifiers⟩ := bind_eq_ok hrun
  replace hlines := (consumes_attributeLine.loopRun_iff hs).2 hlines
  cases hlines with
  | stop h =>
    obtain ⟨-, rfl, -⟩ | ⟨hmore, -⟩ := run_attributeLine h
    · cases hmodifier : (env.tokens.kindAt s₀.cursor).isModifier with
      | true => exact .inr (.inl rfl)
      | false =>
        rw [← firstFrom_of_optionalModifiers hs hmodifiers, firstFrom_of_not hmodifier]
        exact .inr (.inr rfl)
    · cases hmore
  | again h _ =>
    obtain ⟨hmore, -⟩ | ⟨-, n, s₂, hblock, -⟩ := run_attributeLine h
    · cases hmore
    · exact .inl (run_attributeBlock hblock).1

/-- Where a header goes on behind attributes on a line of their own, it goes on with a token that is
idle. -/
theorem idle_behind_attributes (hs : s.cursor ≤ env.tokens.tokens.size)
    (hrun : declarationPrefix env s = .ok () s') {word : Keyword}
    (hword : env.tokens.kindAt s'.cursor = .keyword word)
    (hplain : opensAccessor (.keyword word) = false) :
    (env.tokens.kindAt s.cursor).isTerminator = false ∧ env.tokens.Idle s.cursor := by
  have hbehind : opensAccessor (env.tokens.kindAt (env.tokens.behindPrefix s.cursor)) = false := by
    rcases behindPrefix_of_declarationPrefix hs hrun with ⟨hnewline, -⟩ | hend
    · rw [hnewline]
      rfl
    · rw [hend, hword]
      exact hplain
  rcases kind_of_declarationPrefix hs hrun with hless | hmodifier | hcursor
  · refine ⟨?_, ?_, hbehind⟩
    · rw [hless]
      rfl
    · rw [hless]
      rfl
  · exact ⟨isTerminator_of_isModifier hmodifier, not_opensAccessor_of_isModifier hmodifier, hbehind⟩
  · rw [hcursor] at hword
    refine ⟨?_, ?_, hbehind⟩
    · rw [hword]
      rfl
    · rw [hword]
      exact hplain

/-- Attributes on a line of their own: the next line is that of what they are attributes of. -/
theorem idle_of_attributeLine {s₁ s₂ : State} {n : Node} (hs : s.cursor ≤ env.tokens.tokens.size)
    (hblock : attributeBlock.nested env s = .ok n s₂)
    (houter : s₂.cursor ≤ env.tokens.lineEnd s.cursor)
    (hnewline : env.tokens.kindAt s₂.cursor = .newline) (hnext : s₁.cursor = s₂.cursor + 1)
    (hs₁ : s₁.cursor ≤ env.tokens.tokens.size) (hrest : declarationPrefix env s₁ = .ok () s')
    {word : Keyword} (hword : env.tokens.kindAt s'.cursor = .keyword word)
    (hplain : opensAccessor (.keyword word) = false) :
    env.tokens.Idle (env.tokens.nextLine s.cursor) := by
  have hphrase : Gives 0 false {} true attributeBlock := Phrase.attributeBlock (.inr rfl)
  have hclimbs : Climbs attributeBlock.nested := hphrase.nested.climbs
  have hline : env.tokens.lineEnd s.cursor = s₂.cursor := by
    refine Nat.le_antisymm (firstFrom_le (hclimbs.ok hs hblock).cursor ?_) houter
    rw [hnewline]
    rfl
  obtain ⟨hword₁, hidle⟩ := idle_behind_attributes hs₁ hrest hword hplain
  have hfirst : env.tokens.nextLine s.cursor = s₁.cursor := by
    unfold nextLine
    rw [hline, firstFrom, hnewline, if_neg (by decide), if_pos (by omega), ← hnext,
      firstFrom, if_pos]
    rw [hword₁]
    rfl
  rw [hfirst]
  exact hidle

/-- Modifiers end no line. -/
theorem cursor_le_lineEnd_of_modifiers (ht : env.tokens.Lasting)
    (hs : s.cursor ≤ env.tokens.tokens.size)
    (hmodifiers : optionalModifiers env s = .ok () s')
    (hsize : s'.cursor < env.tokens.tokens.size) :
    s'.cursor ≤ env.tokens.lineEnd s.cursor := by
  refine Nat.le_of_not_lt fun hend => ?_
  have hmodifier : (!(env.tokens.kindAt (env.tokens.lineEnd s.cursor)).isModifier) = false := by
    refine not_of_lt_firstFrom (p := (!·.isModifier)) (i := s.cursor) (env.tokens.le_lineEnd _) ?_
    rw [firstFrom_of_optionalModifiers hs hmodifiers]
    exact hend
  have hterminator := ht.isTerminator_lineEnd (i := s.cursor) (by omega)
  rw [isTerminator_of_isModifier (by simpa using hmodifier)] at hterminator
  cases hterminator

/-- A line that ends among the attributes of a header goes on with a token that is idle. -/
theorem idle_of_declarationPrefix (ht : env.tokens.Lasting) (hs : s.cursor ≤ env.tokens.tokens.size)
    (hrun : declarationPrefix env s = .ok () s') {word : Keyword}
    (hword : env.kind s' = .keyword word)
    (hplain : opensAccessor (.keyword word) = false)
    (hend : env.tokens.lineEnd s.cursor < s'.cursor) :
    env.tokens.Idle (env.tokens.nextLine s.cursor) := by
  have hwordKind : env.tokens.kindAt s'.cursor = .keyword word := hword
  have hsize : s'.cursor < env.tokens.tokens.size :=
    lt_size_of_kindAt_ne (by rw [hwordKind]; exact nofun)
  obtain ⟨_, s₀, hlines, hmodifiers⟩ := bind_eq_ok hrun
  replace hlines := (consumes_attributeLine.loopRun_iff hs).2 hlines
  generalize hresult : (EStateM.Result.ok () s₀ : EStateM.Result Failure State Unit) =
    result at hlines
  clear hrun
  induction hlines with
  | @stop s s₁ h =>
    cases hresult
    obtain ⟨-, rfl, -⟩ | ⟨hmore, -⟩ := run_attributeLine h
    · exact absurd (cursor_le_lineEnd_of_modifiers ht hs hmodifiers hsize) (Nat.not_le_of_lt hend)
    · cases hmore
  | fails => cases hresult
  | @again s s₁ _ h rest ih =>
    have hlater := consumes_attributeLine.climbs.ok hs h
    obtain ⟨hmore, -⟩ | ⟨-, n, s₂, hblock, hnext⟩ := run_attributeLine h
    · cases hmore
    · rcases Nat.lt_or_ge (env.tokens.lineEnd s.cursor) s₂.cursor with hinner | houter
      · have hidle := idle_of_attributeBlock hblock ht hinner
        exact hidle
      split at hnext
      · rename_i hnewline
        have hrest : declarationPrefix env s₁ = .ok () s' := by
          unfold declarationPrefix
          rw [run_bind, (consumes_attributeLine.loopRun_iff hlater.le_size).1 (hresult ▸ rest)]
          exact hmodifiers
        exact idle_of_attributeLine hs hblock houter hnewline hnext hlater.le_size hrest
          hwordKind hplain
      · rw [← hnext] at houter
        have hline : env.tokens.lineEnd s₁.cursor = env.tokens.lineEnd s.cursor :=
          firstFrom_eq_of_le hlater.cursor houter
        have hidle := ih hlater.le_size (by omega) hresult
        unfold nextLine at hidle ⊢
        rw [hline] at hidle
        exact hidle

/-- A line that ends within a header goes on with a token that is idle. -/
theorem idle_of_header (ht : env.tokens.Lasting) {word : Keyword} {q : Parse Unit}
    (hq : IsHeaderRest word q) (hs : s.cursor ≤ env.tokens.tokens.size)
    (hrun : (declarationPrefix >>= fun _ => q) env s = .ok () s')
    (hstop : (env.tokens.kindAt s'.cursor).isTerminator = true)
    (hend : env.tokens.lineEnd s.cursor < s'.cursor) :
    env.tokens.Idle (env.tokens.nextLine s.cursor) := by
  obtain ⟨_, s₁, hprefix, hrest⟩ := bind_eq_ok hrun
  have hword := hq.begins env s₁ s' hrest
  rcases Nat.lt_or_ge (env.tokens.lineEnd s.cursor) s₁.cursor with hinner | houter
  · exact idle_of_declarationPrefix ht hs hprefix hword hq.plain.1 hinner
  · exact idle_of_headerRest ht hq hrest hstop houter hend

-- ---------------------------------------------------------------------------
-- The headers of properties and events
-- ---------------------------------------------------------------------------

/-- The header of a property with accessors, up to the end of its line. -/
def propertyLine : Parse Unit := do
  propertyHeader
  memberClauses
  endStatement

/-- What stands behind the prefix of a property. -/
def propertyRest : Parse Unit := do
  expectWord .kwProperty
  field .name identifier
  optionalParameters
  optionalAsClause
  memberClauses

/-- What stands behind the prefix of an event. -/
def eventRest : Parse Unit := do
  expectWord .kwEvent
  field .name identifier
  if ← atKind (.mark .leftParen) then field .parameters (nested parameters)
  else optionalAsClause
  memberClauses

/-- A header behind its prefix, up to the end of its line. -/
def headerOf (q : Parse Unit) : Parse Unit := do
  checkDepth
  declarationPrefix
  q
  endStatement

theorem propertyLine_eq : propertyLine = headerOf propertyRest := by
  simp only [propertyLine, propertyHeader, headerOf, propertyRest, bind_assoc]

theorem eventHeader_eq : eventHeader = headerOf eventRest := by
  simp only [eventHeader, headerOf, eventRest, bind_assoc]
  refine congrArg _ (funext fun _ => congrArg _ (funext fun _ => congrArg _ (funext fun _ => ?_)))
  refine congrArg _ (funext fun _ => congrArg _ (funext fun parenthesis => ?_))
  cases parenthesis
  · exact (bind_assoc optionalAsClause _ _).symm
  · exact (bind_assoc (field .parameters parameters.nested) _ _).symm

/-- What stands behind the word of a header. -/
theorem shunned_behindWord {word : Keyword} {p : Parse Unit} (hp : Shuns (fun _ _ => True) p)
    (hrun : (expectWord word >>= fun _ => p) env s = .ok () s') :
    env.tokens.Shunned (s.cursor + 1) s'.cursor := by
  obtain ⟨_, s₁, hword, hrest⟩ := bind_eq_ok hrun
  rw [← next_of_ifTake hword nofun]
  exact hp env s₁ () s' trivial hrest

theorem isHeaderRest_property : IsHeaderRest .kwProperty propertyRest where
  shuns _ _ _ := shunned_behindWord (.seq (.field _ .identifier) (.seq .optionalParameters
    (.seq .optionalAsClause .memberClauses)))
  phrase := .seq (.expectWord (.word rfl)) (.seq (.field _ .identifier) (.seq .optionalParameters
    (.seq .optionalAsClause .memberClauses)))
  begins env s s' hrun := by
    obtain ⟨_, s₁, hword, -⟩ := bind_eq_ok hrun
    exact (run_ifTake hword).1
  plain := ⟨rfl, rfl⟩

theorem isHeaderRest_event : IsHeaderRest .kwEvent eventRest where
  shuns _ _ _ := by
    refine shunned_behindWord (.seq (.field _ .identifier) (.test fun _ => .ite (fun _ => ?_) ?_))
    · exact .seq (.field _ Shuns.parameters.nested) .memberClauses
    · exact .seq .optionalAsClause .memberClauses
  phrase := by
    refine .seq (.expectWord (.word rfl)) (.seq (.field _ .identifier) (.ifAt ?_ ?_))
    · exact .seq (.fieldNested _ .parameters) .memberClauses
    · exact .seq .optionalAsClause .memberClauses
  begins env s s' hrun := by
    obtain ⟨_, s₁, hword, -⟩ := bind_eq_ok hrun
    exact (run_ifTake hword).1
  plain := ⟨rfl, rfl⟩

end Production

end VisualBasic
