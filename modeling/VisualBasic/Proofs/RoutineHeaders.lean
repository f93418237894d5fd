import VisualBasic.Proofs.HeaderLines

/-!
# The search for the body of a routine

Whether a routine has a body is told by the lines ahead: the search goes from line to line until it
meets the closing line of the routine, the next member, or the closing line of a type around. It
begins behind the word of the routine, so it also looks at lines that begin within the header. None
of these begins a member or closes anything, so the search meets first what it would meet behind the
header.

Main results:

* `TokenStream.bodyFollows_of_inner` — a search that meets the closing line of the routine first
  finds a body.
* `TokenStream.innerLine_of_shunned` — a line that begins where words that begin lines are shunned.
* `innerLine_of_header` — a line that begins within the header of a routine.
* `routineHasBody_of_header` — a routine whose closing line is met first behind its header has a
  body.
-/

namespace VisualBasic

-- ---------------------------------------------------------------------------
-- Lines
-- ---------------------------------------------------------------------------

/-- The words of routines. -/
def Keyword.OpensRoutine (word : Keyword) : Prop := word = .kwSub ∨ word = .kwFunction

theorem Keyword.OpensRoutine.ne {word opener : Keyword} (h : word.OpensRoutine)
    (hsub : opener ≠ .kwSub)
    (hfunction : opener ≠ .kwFunction) : opener ≠ word := by
  rintro rfl
  rcases h with h | h
  · exact hsub h
  · exact hfunction h

namespace TokenStream

/-- The token at the index is right behind the end of a line or a colon. -/
structure BeginsLine (t : TokenStream) (i : Nat) : Prop where
  pos : 0 < i
  behind : (t.kindAt (i - 1)).isTerminator = true

/-- A line that neither begins a member nor closes the routine or a type. -/
structure InnerLine (t : TokenStream) (word : Keyword) (i : Nat) : Prop where
  startsMember : t.startsMember i = false
  closes : t.kindAt i = .keyword .kwEnd →
    t.kindAt (i + 1) ≠ .keyword word ∧ closesType (t.kindAt (i + 1)) = false

/-- Behind a header that ends at `i`, the line that begins at `e` is the first that closes the
routine, and none in front of it begins a member or closes a type. -/
structure MeetsCloser (t : TokenStream) (word : Keyword) (i e : Nat) : Prop where
  le : i ≤ e
  begins : t.BeginsLine e
  «end» : t.kindAt e = .keyword .kwEnd
  routine : t.kindAt (e + 1) = .keyword word
  inner : ∀ k, i ≤ k → k < e → t.BeginsLine k → t.InnerLine word k

variable {t : TokenStream} {word : Keyword} {i j k b e : Nat}

theorem MeetsCloser.lt_size (h : t.MeetsCloser word i e) : e < t.tokens.size := by
  refine lt_size_of_kindAt_ne ?_
  rw [h.end]
  exact nofun

/-- The line in front of a place where a line begins ends there. -/
theorem lineEnd_lt_of_beginsLine (h : t.BeginsLine e) (hlt : i < e) : t.lineEnd i < e := by
  have hpos := h.pos
  have hends : (t.kindAt (e - 1)).endsLine = true := by
    rw [TokenKind.endsLine_eq, h.behind]
    rfl
  have hle : t.lineEnd i ≤ e - 1 := firstFrom_le (by omega) hends
  omega

/-- A search that meets the closing line of the routine first finds a body. -/
theorem bodyFollows_of_inner (ht : t.Lasting) (hbegins : t.BeginsLine e)
    (hend : t.kindAt e = .keyword .kwEnd)
    (hword : t.kindAt (e + 1) = .keyword word) (seen : Bool) (hlt : i < e)
    (hi : (t.kindAt i).isTerminator = true)
    (hinner : ∀ k, i < k → k < e → t.BeginsLine k → t.InnerLine word k) :
    t.bodyFollows word seen i = true := by
  have hsize : e < t.tokens.size := lt_size_of_kindAt_ne (by rw [hend]; exact nofun)
  induction hroom : e - i using Nat.strongRecOn generalizing i seen with
  | _ room ih =>
    rw [bodyFollows, if_pos (Nat.lt_trans hlt hsize)]
    rcases Nat.eq_or_lt_of_le (Nat.succ_le_of_lt hlt) with rfl | hlater
    · -- The closing line is the next one.
      have hcloser :
          (t.kindAt (i + 1) == .keyword .kwEnd && t.kindAt (i + 2) == .keyword word) = true := by
        rw [hend, show t.kindAt (i + 2) = .keyword word from hword]
        simp
      rw [if_pos hcloser]
    · have hline := hinner (i + 1) (Nat.lt_succ_self i) hlater ⟨Nat.succ_pos i, hi⟩
      have hnext : t.bodyFollows word (seen || !(t.kindAt (i + 1)).endsLine)
          (t.lineEnd (i + 1)) = true := by
        have hbefore := lineEnd_lt_of_beginsLine hbegins hlater
        have hbehind := t.le_lineEnd (i + 1)
        refine ih (e - t.lineEnd (i + 1)) (by omega) _ hbefore
          (ht.isTerminator_lineEnd (Nat.lt_trans hbefore hsize))
          (fun k hk => hinner k (by omega)) rfl
      have hstart := hline.startsMember
      by_cases hkind : t.kindAt (i + 1) = .keyword .kwEnd
      · obtain ⟨hother, htype⟩ := hline.closes hkind
        have hother : t.kindAt (i + 2) ≠ .keyword word := hother
        have htype : closesType (t.kindAt (i + 2)) = false := htype
        simpa [hkind, hother, htype] using hnext
      · simpa [hkind, hstart] using hnext

theorem isModifier_of_isMemberModifier {kind : TokenKind} (h : isMemberModifier kind = true) :
    kind.isModifier = true := by
  unfold isMemberModifier at h
  split at h
  · cases h
  · exact h

/-- Up to the word behind its modifiers, a line has no word that begins lines where these are
shunned: in front of each token there is the end of a line or a modifier. -/
theorem not_opensLine_of_shunned (h : t.Shunned k b) (hki : k ≤ i) (hline : t.BeginsLine i)
    (hbound : t.firstFrom (!isMemberModifier ·) i ≤ b) (hb : opensLine (t.kindAt b) = false)
    (hij : i ≤ j)
    (hj : j ≤ t.firstFrom (!isMemberModifier ·) i) : opensLine (t.kindAt j) = false := by
  have hheld : ¬t.Held j := by
    rcases Nat.eq_or_lt_of_le hij with rfl | hlt
    · exact not_held_of_isTerminator hline.behind
    · have hbefore : (!isMemberModifier (t.kindAt (j - 1))) = false :=
        not_of_lt_firstFrom (p := (!isMemberModifier ·)) (i := i) (by omega) (by omega)
      exact not_held_of_isModifier (isModifier_of_isMemberModifier (by simpa using hbefore))
  rcases Nat.eq_or_lt_of_le (Nat.le_trans hj hbound) with rfl | hlt
  · exact hb
  · exact Bool.eq_false_iff.2 fun hopens => hheld (h j (Nat.le_trans hki hij) hlt hopens)

/-- Modifiers and a word none of which begins a line begin no member. -/
theorem startsMember_of_not_opensLine (hless : t.kindAt i ≠ .mark .less)
    (h : ∀ j, i ≤ j → j ≤ t.firstFrom (!isMemberModifier ·) i → opensLine (t.kindAt j) = false) :
    t.startsMember i = false := by
  have hnames : t.someIn (!·.isNameLike) i (t.firstFrom (!isMemberModifier ·) i) = false := by
    rw [Bool.eq_false_iff]
    intro hsome
    unfold someIn at hsome
    obtain ⟨j, hj, hname⟩ := List.any_eq_true.1 hsome
    have hbounds := List.mem_range'_1.1 hj
    have hplain := h j hbounds.1 (by omega)
    have hmodifier : (!isMemberModifier (t.kindAt j)) = false :=
      not_of_lt_firstFrom (p := (!isMemberModifier ·)) (i := i) hbounds.1 (by omega)
    replace hmodifier := isModifier_of_isMemberModifier (by simpa using hmodifier)
    replace hname : (t.kindAt j).isNameLike = false := by simpa using hname
    unfold opensLine at hplain
    rw [hmodifier, hname] at hplain
    simp at hplain
  have hopens : (t.kindAt (t.firstFrom (!isMemberModifier ·) i)).opensMember = false := by
    have hword := h _ (t.le_firstFrom (!isMemberModifier ·) i) (Nat.le_refl _)
    unfold opensLine at hword
    rw [Bool.or_eq_false_iff, Bool.or_eq_false_iff] at hword
    exact hword.1.2
  unfold startsMember
  simp [hless, hnames, hopens]

/-- A line that begins where words that begin lines are shunned, and no attributes begin. -/
theorem innerLine_of_shunned (h : t.Shunned k b) (hki : k ≤ i) (hib : i ≤ b)
    (hline : t.BeginsLine i)
    (hless : t.kindAt i ≠ .mark .less)
    (hb : opensLine (t.kindAt b) = false ∧ (t.kindAt b).isModifier = false) :
    t.InnerLine word i := by
  have hbound : t.firstFrom (!isMemberModifier ·) i ≤ b := by
    refine firstFrom_le hib ?_
    rw [Bool.not_eq_true', Bool.eq_false_iff]
    intro hkind
    rw [isModifier_of_isMemberModifier hkind] at hb
    cases hb.2
  have hplain (j : Nat) := not_opensLine_of_shunned (j := j) h hki hline hbound hb.1
  refine ⟨startsMember_of_not_opensLine hless hplain, fun hend => ?_⟩
  have hfirst := hplain i (Nat.le_refl i) (t.le_firstFrom (!isMemberModifier ·) i)
  rw [hend] at hfirst
  cases hfirst

end TokenStream

namespace Production

open TokenStream

-- ---------------------------------------------------------------------------
-- The headers of routines
-- ---------------------------------------------------------------------------

namespace Shuns

variable {pre : TokenStream → Nat → Prop}

/-- A class or a structure as a constraint stands behind `As`, a brace or a comma. -/
theorem typeConstraint : Shuns Held Production.typeConstraint := by
  refine node (look Looks.peek fun kind => ?_)
  have htake : Shuns Held Production.take := by
    intro env s a s' hpre hrun
    cases hrun
    exact shunned_of_held hpre (env.next_le_succ _)
  split
  · exact htake
  · exact htake
  · exact htake
  · exact (child (type true).nested).anywhere

/-- What follows a word behind which more words may stand. -/
theorem ifAs {k : Bool → Parse Unit} (hthen : Shuns Held (k true)) (helse : Shuns pre (k false)) :
    Shuns pre (Production.acceptWord .kwAs >>= k) := by
  intro env s b s' hpre hrun
  unfold Production.acceptWord at hrun
  rw [accept_bind] at hrun
  unfold atKind at hrun
  rw [(Looks.test _).run_bind] at hrun
  split at hrun
  · rename_i hat
    obtain ⟨_, s₁, htake, hrest⟩ := bind_eq_ok hrun
    have hkind : env.tokens.kindAt s.cursor = .keyword .kwAs := beq_iff_eq.1 hat
    cases htake
    have hnext : env.next s.cursor = s.cursor + 1 :=
      Env.next_eq_succ (by rw [hkind]; exact nofun)
    have hheld : env.tokens.Held (env.next s.cursor) := by
      unfold Held
      rw [hnext, Nat.add_sub_cancel, hkind]
      rfl
    refine Shunned.trans (shunned_of_not ?_ (Nat.le_of_eq hnext)) (hthen env _ b s' hheld hrest)
    rw [hkind]
    rfl
  · exact helse env s b s' hpre hrun

theorem typeParameter : Shuns pre Production.typeParameter := by
  have hconstraint :
      Shuns Held (Production.field .constraint (Production.nested Production.typeConstraint)) :=
    field _ typeConstraint.nested
  have hconstraints : Shuns Held (do
      Production.commaSeparated
        (Production.field .constraint (Production.nested Production.typeConstraint))
      Production.expectEnd .rightBrace) :=
    seq (commaSeparatedHeld hconstraint) (expectEnd _)
  exact node (seq (field _ identifier) (ifAs (ifHeld rfl hconstraints hconstraint) (pure ())))

theorem typeParameters : Shuns pre Production.typeParameters := by
  refine checked (node (seq (expectMark _) (seq (expectWord rfl) (seq ?_ (expectEnd _)))))
  exact commaSeparated (child typeParameter.nested)

theorem signature (isFunction : Bool) : Shuns pre (Production.signature isFunction) := by
  have hattributes : Shuns (fun _ _ => True) (do
      if ← atKind (.mark .less) then
        Production.child (Production.nested Production.attributeBlock)
        return true
      return false) :=
    test fun _ => ite (fun _ => round (child attributeBlock.nested)) (pure false)
  have hresult : Shuns (fun _ _ => True) (do
      if isFunction then
        if ← Production.acceptWord .kwAs then
          Production.repeatWhile do
            if ← atKind (.mark .less) then
              Production.child (Production.nested Production.attributeBlock)
              return true
            return false
          Production.field .returnType (Production.nested (Production.type true))) := by
    refine ite (fun _ => ifAs ?_ (pure ())) (pure ())
    exact (seq (repeatWhile hattributes) (field _ (type true).nested)).anywhere
  have hparameters : Shuns (fun _ _ => True) (do
      Production.optionalParameters
      if isFunction then
        if ← Production.acceptWord .kwAs then
          Production.repeatWhile do
            if ← atKind (.mark .less) then
              Production.child (Production.nested Production.attributeBlock)
              return true
            return false
          Production.field .returnType (Production.nested (Production.type true))) :=
    seq optionalParameters hresult
  exact test fun _ => ite (fun _ => seq (child typeParameters.nested) hparameters)
    hparameters.anywhere

end Shuns

/-- What stands behind the prefix of a routine. -/
def routineRest (isConstructor : Bool) (word : Keyword) : Parse Unit := do
  expectWord word
  if isConstructor then expectWord .kwNew else field .name identifier
  signature (word == .kwFunction)
  memberClauses

theorem isHeaderRest_routine (isConstructor : Bool) {word : Keyword} (hword : word.OpensRoutine) :
    IsHeaderRest word (routineRest isConstructor word) where
  shuns env s s' hrun := by
    have hrest : Shuns (fun _ _ => True) (do
        signature (word == .kwFunction)
        memberClauses) := .seq (.signature _) .memberClauses
    refine shunned_behindWord ?_ hrun
    exact .ite (fun _ => .seq (.expectWord rfl) hrest) (.seq (.field _ .identifier) hrest)
  phrase := by
    have hrest : Flows 0 true (.plain true) true (do
        signature (word == .kwFunction)
        memberClauses) := .seq (.signature _) .memberClauses
    refine .seq (.expectWord (.word ?_)) ?_
    · rcases hword with rfl | rfl <;> rfl
    · exact .ite (fun _ => .seq (.expectWord (.word rfl)) hrest)
        fun _ => .seq (.field _ .identifier) hrest
  begins env s s' hrun := by
    obtain ⟨_, s₁, hword, -⟩ := bind_eq_ok hrun
    exact (run_ifTake hword).1
  plain := by
    rcases hword with rfl | rfl <;> exact ⟨rfl, rfl⟩

/-- A token that ends a statement begins no line of its own. -/
theorem plain_of_endStatement {env : Env} {s s' : State} (hrun : endStatement env s = .ok () s') :
    s'.cursor ≤ s.cursor + 1 ∧ env.kind s ≠ .mark .less ∧ opensLine (env.kind s) = false ∧
      (env.kind s).isModifier = false := by
  have hkind : (env.kind s).endsLine = true ∨ env.kind s = .keyword .kwElse := by
    obtain ⟨hterminator, -⟩ | ⟨-, hend⟩ := endStatement_eq_ok hrun
    · rw [TokenKind.endsLine_eq, hterminator]
      exact .inl rfl
    · exact hend
  refine ⟨?_, ?_⟩
  · obtain ⟨-, rfl⟩ | ⟨rfl, -⟩ := endStatement_eq_ok hrun
    · exact Nat.le_refl _
    · exact Nat.le_succ _
  · generalize env.kind s = kind at hkind
    rcases hkind with hends | rfl
    · unfold TokenKind.endsLine at hends
      split at hends
      · exact ⟨nofun, rfl, rfl⟩
      · exact ⟨nofun, rfl, rfl⟩
      · exact ⟨nofun, rfl, rfl⟩
      · cases hends
    · exact ⟨nofun, rfl, rfl⟩

/-- A line that begins within the header of a routine, behind its word. -/
theorem innerLine_of_header {env : Env} {s s₁ s' : State} {isConstructor : Bool} {word : Keyword}
    (hword : word.OpensRoutine) (hrest : routineRest isConstructor word env s = .ok () s₁)
    (hend : endStatement env s₁ = .ok () s') {i : Nat} (hsi : s.cursor < i) (his : i < s'.cursor)
    (hline : env.tokens.BeginsLine i) : env.tokens.InnerLine word i := by
  have hheader := isHeaderRest_routine isConstructor hword
  obtain ⟨hnext, hless, hplain⟩ := plain_of_endStatement hend
  refine innerLine_of_shunned (hheader.shuns env s s₁ hrest) hsi (by omega) hline
    (fun hkind => ?_) hplain
  have hbars : env.tokens.Bars true i := ⟨hline.pos, hline.behind, .inr ⟨rfl, hkind⟩⟩
  have hskirts := hheader.phrase.skirts (Spot.holds_plain nofun) hrest hbars (by omega)
  obtain rfl : i = s₁.cursor := by omega
  exact hless hkind

/-- The line that opens a routine is what stands in front of its word, what stands behind it and the
end of the line. -/
theorem run_routineHeader {env : Env} {s s' : State} {isConstructor : Bool} {word : Keyword}
    (hrun : routineHeader isConstructor env s = .ok word s') : word.OpensRoutine ∧ ∃ s₀ s₁ : State,
      declarationPrefix env s = .ok () s₀ ∧ routineRest isConstructor word env s₀ = .ok () s₁ ∧
        endStatement env s₁ = .ok () s' := by
  obtain ⟨_, s₂, hdepth, hlater⟩ := bind_eq_ok hrun
  obtain rfl := checkDepth_eq_ok hdepth
  clear hrun
  obtain ⟨_, s₀, hbefore, hrun⟩ := bind_eq_ok hlater
  rw [Looks.peek.run_bind] at hrun
  have hrest {w : Keyword} (hkind : env.kind s₀ = .keyword w) (hrun : (do
      take
      if isConstructor then expectWord .kwNew else field .name identifier
      signature (w == Keyword.kwFunction)
      memberClauses
      endStatement
      return w) env s₀ = .ok word s') : word = w ∧ ∃ s₁ : State,
        routineRest isConstructor w env s₀ = .ok () s₁ ∧ endStatement env s₁ = .ok () s' := by
    have hparts : (do
        routineRest isConstructor w
        endStatement
        return w) env s₀ = .ok word s' := by
      have htake : expectWord w env s₀ = take env s₀ := by
        unfold expectWord expect atKind
        rw [(Looks.test _).run_bind, hkind, if_pos (beq_self_eq_true _)]
      unfold routineRest
      simp only [bind_assoc]
      rw [run_bind, htake, ← run_bind]
      cases isConstructor
      · simpa using hrun
      · simpa using hrun
    obtain ⟨_, s₁, hparts, hend⟩ := bind_eq_ok hparts
    obtain ⟨_, s₂, hend, hresult⟩ := bind_eq_ok hend
    cases hresult
    exact ⟨rfl, s₁, hparts, hend⟩
  generalize hkind : env.kind s₀ = kind at hrun
  split at hrun
  · rw [pure_bind] at hrun
    obtain ⟨rfl, h⟩ := hrest hkind hrun
    exact ⟨.inl rfl, s₀, h.imp fun _ h => ⟨hbefore, h⟩⟩
  · rw [pure_bind] at hrun
    obtain ⟨rfl, h⟩ := hrest hkind hrun
    exact ⟨.inr rfl, s₀, h.imp fun _ h => ⟨hbefore, h⟩⟩
  · cases hrun

/-- Where the closing line of a routine is met first behind its header, the search finds its
body. -/
theorem bodyFollows_of_header {env : Env} (ht : env.tokens.Lasting) {s s₁ s' : State}
    {isConstructor : Bool}
    {word : Keyword} (hword : word.OpensRoutine)
    (hrest : routineRest isConstructor word env s = .ok () s₁)
    (hend : endStatement env s₁ = .ok () s') {e : Nat}
    (h : env.tokens.MeetsCloser word s'.cursor e) :
    env.tokens.bodyFollows word false (env.tokens.lineEnd s.cursor) = true := by
  have hkind : env.tokens.kindAt s.cursor = .keyword word :=
    (isHeaderRest_routine isConstructor hword).begins env s s₁ hrest
  have hbehind := env.tokens.le_lineEnd s.cursor
  have hle : s.cursor ≤ s'.cursor := by
    have hclimbs : Climbs (routineRest isConstructor word) :=
      (isHeaderRest_routine isConstructor hword).phrase.climbs
    have hstop : Flows 0 false {} false endStatement := Phrase.endStatement
    have hsize : s.cursor < env.tokens.tokens.size :=
      lt_size_of_kindAt_ne (by rw [hkind]; exact nofun)
    have hlater := hclimbs.ok (Nat.le_of_lt hsize) hrest
    exact Nat.le_trans hlater.cursor (hstop.climbs.ok hlater.le_size hend).cursor
  have hne : s.cursor ≠ e := by
    rintro rfl
    rw [h.end] at hkind
    cases hkind
    rcases hword with hword | hword <;> cases hword
  have hbefore := lineEnd_lt_of_beginsLine h.begins (i := s.cursor) (by have := h.le; omega)
  have hterminator := ht.isTerminator_lineEnd (Nat.lt_trans hbefore h.lt_size)
  refine bodyFollows_of_inner ht h.begins h.end h.routine false hbefore hterminator
    fun i hi hie hline => ?_
  rcases Nat.lt_or_ge i s'.cursor with hinner | houter
  · exact innerLine_of_header hword hrest hend (by omega) hinner hline
  · exact h.inner i houter hie hline

/-- A routine outside of interfaces, and not to be overridden, whose closing line is met first
behind its header, has a body. -/
theorem routineHasBody_of_header {env : Env} (ht : env.tokens.Lasting) {s s₁ s' : State}
    {isConstructor : Bool} {word : Keyword} (hs : s.cursor ≤ env.tokens.tokens.size)
    (hheader : routineHeader isConstructor env s₁ = .ok word s') (hcursor : s₁.cursor = s.cursor)
    (hinner : s.innermost? ≠ some .kwInterface)
    (hmust : env.tokens.someIn (· == .keyword .kwMustOverride) s.cursor
      (env.tokens.behindPrefix s.cursor) = false)
    (hkind : env.tokens.kindAt (env.tokens.behindPrefix s.cursor) ≠ .newline) {e : Nat}
    (h : env.tokens.MeetsCloser word s'.cursor e) : env.routineHasBody s = true := by
  obtain ⟨hword, s₂, s₃, hbefore, hrest, hend⟩ := run_routineHeader hheader
  have hbody := bodyFollows_of_header ht hword hrest hend h
  have hat : env.tokens.kindAt s₂.cursor = .keyword word :=
    (isHeaderRest_routine isConstructor hword).begins env s₂ s₃ hrest
  have hbehind : env.tokens.behindPrefix s.cursor = s₂.cursor := by
    rw [← hcursor] at hs hkind ⊢
    exact (behindPrefix_of_declarationPrefix hs hbefore).resolve_left
      fun hnewline => hkind hnewline.1
  rw [hbehind] at hmust
  unfold Env.routineHasBody
  dsimp only
  rw [hbehind, hat]
  rcases hword with rfl | rfl
  · simp [hinner, hmust, hbody]
  · simp [hinner, hmust, hbody]

end Production

end VisualBasic
