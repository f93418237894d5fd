import VisualBasic.Proofs.Progress
import VisualBasic.Proofs.QuietGrammar
import VisualBasic.Proofs.Searches

/-!
# Prefixes of declarations

Attributes and modifiers are read twice: a search runs over them to find the word of the
declaration, and then they are parsed. The search counts parentheses and knows nothing else of what
attributes are made of. Still, where the attributes and modifiers parse, the two end at the same
token, unless the search ended before that at the end of a line within parentheses, where arguments
may go on.

Main results:

* `Strolls.arguments` — the search gets over arguments as it leaves no more parentheses open than it
  found.
* `behindPrefix_of_declarationPrefix` — where the search ends if the attributes and modifiers parse.
-/

namespace VisualBasic

-- ---------------------------------------------------------------------------
-- The search within attributes
-- ---------------------------------------------------------------------------

namespace TokenStream

/-- A line ends at `k`, within a parenthesis that opens at `i` or behind it. -/
def EndsInParens (t : TokenStream) (i k : Nat) : Prop :=
  t.kindAt k = .newline ∧
    ∃ a l, i ≤ a ∧ t.kindAt a = .mark .leftParen ∧ t.Walk 1 (a + 1) (l + 1) k

/-- Within attributes and outside of parentheses, the search that is at `i` gets to `j`, or it ends
in front of `j` where a line ends within parentheses. -/
def Overlooks (t : TokenStream) (i j : Nat) : Prop :=
  t.prefixEnd (some 0) i = t.prefixEnd (some 0) j ∨
    ∃ k, k < j ∧ t.EndsInParens i k ∧ t.prefixEnd (some 0) i = k

variable {t : TokenStream} {n i m j k : Nat}

theorem EndsInParens.mono (h : t.EndsInParens j k) (hij : i ≤ j) : t.EndsInParens i k := by
  obtain ⟨hnewline, a, l, hja, hparen, hwalk⟩ := h
  exact ⟨hnewline, a, l, Nat.le_trans hij hja, hparen, hwalk⟩

theorem Overlooks.refl (t : TokenStream) (i : Nat) : t.Overlooks i i := .inl rfl

theorem Overlooks.trans (h : t.Overlooks i j) (h' : t.Overlooks j k) (hij : i ≤ j) (hjk : j ≤ k) :
    t.Overlooks i k := by
  rcases h with h | ⟨e, he, hends, h⟩
  · rcases h' with h' | ⟨e, he, hends, h'⟩
    · exact .inl (h.trans h')
    · exact .inr ⟨e, he, hends.mono hij, h.trans h'⟩
  · exact .inr ⟨e, Nat.lt_of_lt_of_le he hjk, hends, h⟩

/-- A token that may stand in attributes outside of parentheses. -/
def isAttributeWord : TokenKind → Bool
  | .identifier | .keyword _ | .mark .dot | .mark .colon | .mark .comma => true
  | _ => false

theorem isAttributeWord_of_isNameLike {kind : TokenKind} (h : kind.isNameLike = true) :
    isAttributeWord kind = true := by
  cases kind <;> first | rfl | exact Bool.noConfusion h

theorem overlooks_word (h : isAttributeWord (t.kindAt i) = true) : t.Overlooks i (i + 1) := by
  refine .inl (prefixEnd_of_other ?_ ?_ (fun hgreater => ?_) ?_ ?_)
  all_goals first
    | intro hkind
      rw [hkind] at h
      cases h
    | rw [hgreater] at h
      cases h

/-- A walk within parentheses does not stop the search. -/
theorem Walk.prefixEnd_eq (h : t.Walk n i m j) :
    t.prefixEnd (some n) i = t.prefixEnd (some m) j := by
  induction h with
  | stay => rfl
  | pass hi _ ih =>
    obtain ⟨hleft, hright, hnewline, hend⟩ := hi
    rw [prefixEnd_of_other hleft hright (fun _ => Nat.succ_ne_zero _) hnewline hend, ih]
  | «open» hi _ ih => rw [prefixEnd_of_leftParen hi, ih]
  | close hi _ ih =>
    rw [prefixEnd_of_rightParen hi]
    exact ih

/-- The search gets over parentheses that are closed, or ends within them. -/
theorem Spans.overlooks (hparen : t.kindAt i = .mark .leftParen) (h : t.Spans 1 (i + 1) 0 j) :
    t.Overlooks i j := by
  have hfirst := prefixEnd_of_leftParen (n := 0) hparen
  rcases h with h | ⟨k, l, hk, hnewline, h⟩
  · exact .inl (hfirst.trans h.prefixEnd_eq)
  · refine .inr ⟨k, hk, ⟨hnewline, i, l, Nat.le_refl i, hparen, h⟩,
      hfirst.trans (h.prefixEnd_eq.trans ?_)⟩
    exact prefixEnd_of_newline (.inl hnewline)

end TokenStream

-- ---------------------------------------------------------------------------
-- Attributes
-- ---------------------------------------------------------------------------

namespace Production

open TokenStream

variable {α β : Type}

/-- The production goes forward, and the search gets over what it reads. -/
structure Strolls (p : Parse α) : Prop where
  climbs : Climbs p
  overlooks : ∀ env s a s', s.cursor ≤ env.tokens.tokens.size → p env s = .ok a s' →
    env.tokens.Overlooks s.cursor s'.cursor

namespace Strolls

theorem pure (a : α) : Strolls (Pure.pure a : Parse α) := by
  refine ⟨.pure a, fun env s b s' _ hrun => ?_⟩
  cases hrun
  exact .refl _ _

theorem bind {p : Parse α} {k : α → Parse β} (hp : Strolls p) (hk : ∀ a, Strolls (k a)) :
    Strolls (p >>= k) := by
  refine ⟨hp.climbs.bind fun a => (hk a).climbs, fun env s b s' hs hrun => ?_⟩
  obtain ⟨a, s₁, hfirst, hrest⟩ := bind_eq_ok hrun
  have hlater := hp.climbs.ok hs hfirst
  refine (hp.overlooks env s a s₁ hs hfirst).trans
    ((hk a).overlooks env s₁ b s' hlater.le_size hrest) hlater.cursor ?_
  exact ((hk a).climbs.ok hlater.le_size hrest).cursor

theorem look {p : Parse α} {seen : Env → State → α} {k : α → Parse β} (hp : Looks p seen)
    (hk : ∀ a, Strolls (k a)) : Strolls (p >>= k) := by
  refine ⟨.look hp fun a => (hk a).climbs, fun env s b s' hs hrun => ?_⟩
  rw [hp.run_bind] at hrun
  exact (hk _).overlooks env s b s' hs hrun

theorem ite {c : Prop} [Decidable c] {p q : Parse α} (hp : Strolls p) (hq : Strolls q) :
    Strolls (if c then p else q) := by
  split
  · exact hp
  · exact hq

/-- What reads a single word. -/
theorem word {p : Parse α} (hclimbs : Climbs p)
    (hp : ∀ env s a s', p env s = .ok a s' →
      isAttributeWord (env.kind s) = true ∧ s'.cursor = env.next s.cursor) : Strolls p := by
  refine ⟨hclimbs, fun env s a s' _ hrun => ?_⟩
  obtain ⟨hword, hnext⟩ := hp env s a s' hrun
  have hsucc : env.next s.cursor = s.cursor + 1 :=
    Env.next_eq_succ (TokenKind.ne_endOfFile_of hword rfl)
  rw [hnext, hsucc]
  exact overlooks_word hword

theorem child {p : Parse Node} (hp : Strolls p) : Strolls p.child := by
  refine ⟨hp.climbs.bind fun _ => .attach _, fun env s a s' hs hrun => ?_⟩
  obtain ⟨x, s₁, hfirst, hrest⟩ := bind_eq_ok hrun
  cases hrest
  exact hp.overlooks env s x s₁ hs hfirst

theorem field (f : Field) {p : Parse Node} (hp : Strolls p) : Strolls (Production.field f p) := by
  refine ⟨.field f hp.climbs, fun env s a s' hs hrun => ?_⟩
  obtain ⟨x, s₁, hfirst, hrest⟩ := bind_eq_ok hrun
  cases hrest
  exact hp.overlooks env s x s₁ hs hfirst

theorem nested {p : Parse α} (hp : Strolls p) : Strolls p.nested :=
  ⟨fun env s hs => hp.climbs { env with depth := env.depth + 1 } s hs,
    fun env s a s' hs hrun => hp.overlooks { env with depth := env.depth + 1 } s a s' hs hrun⟩

theorem node {r : Rule} {body : Parse Unit} (hbody : Strolls body) :
    Strolls (Production.node r body) := by
  refine ⟨fun env s hs => hbody.climbs.construct env s hs, fun env s n s' hs hrun => ?_⟩
  obtain ⟨s₁, hrun₁, hcursor⟩ := construct_eq_ok hrun
  rw [hcursor]
  exact hbody.overlooks env { s with children := [], isPartial := false } () s₁ hs hrun₁

theorem repeatWhile {step : Parse Bool} (hstep : Strolls step) :
    Strolls (Production.repeatWhile step) := by
  have hround := hstep.bind fun more => pure (if more = true then some () else none)
  refine ⟨.iterate (fun _ => hround.climbs) (), fun env s u s' hs hrun => ?_⟩
  have hkept := iterateUpTo_invariant
    (fun s₁ => s₁.cursor ≤ env.tokens.tokens.size ∧ s.cursor ≤ s₁.cursor ∧
      env.tokens.Overlooks s.cursor s₁.cursor)
    (fun _ s₁ y s₂ hs₁ hrun₁ => ?_) _ ⟨hs, Nat.le_refl _, .refl _ _⟩ hrun
  · exact hkept.2.2
  · obtain ⟨hsize, hle, hoverlooks⟩ := hs₁
    have hlater := hround.climbs.ok hsize hrun₁
    refine ⟨hlater.le_size, Nat.le_trans hle hlater.cursor, ?_⟩
    exact hoverlooks.trans (hround.overlooks env s₁ y s₂ hsize hrun₁) hle hlater.cursor

theorem accept {kind : TokenKind} (hkind : isAttributeWord kind = true) :
    Strolls (Production.accept kind) := by
  have htake : Climbs (Production.take >>= fun _ => Pure.pure true) :=
    Climbs.take.bind fun _ => .pure true
  refine ⟨.look (Looks.test _) fun _ => .ite htake (.pure false), fun env s a s' hs hrun => ?_⟩
  unfold Production.accept atKind at hrun
  rw [(Looks.test _).run_bind] at hrun
  split at hrun
  · have hword : isAttributeWord (env.tokens.kindAt s.cursor) = true := by
      rw [show env.tokens.kindAt s.cursor = kind from beq_iff_eq.1 ‹_›]
      exact hkind
    have hsucc : env.next s.cursor = s.cursor + 1 :=
      Env.next_eq_succ (TokenKind.ne_endOfFile_of hword rfl)
    cases hrun
    show env.tokens.Overlooks s.cursor (env.next s.cursor)
    rw [hsucc]
    exact overlooks_word hword
  · cases hrun
    exact .refl _ _

/-- Rounds that begin with a word that may be there. -/
theorem repeatAccept {kind : TokenKind} {item : Parse Unit} (hkind : isAttributeWord kind = true)
    (hitem : Strolls item) :
    Strolls (Production.repeatWhile do
      if ← Production.accept kind then
        item
        return true
      return false) :=
  repeatWhile (bind (accept hkind) fun _ => ite (bind hitem fun _ => pure true) (pure false))

theorem identifier : Strolls Production.identifier := by
  refine word (.look Looks.peek fun _ => .ite (.leaf _) (.fail _)) fun env s a s' hrun => ?_
  unfold Production.identifier at hrun
  rw [Looks.peek.run_bind] at hrun
  split at hrun
  · cases hrun
    exact ⟨isAttributeWord_of_isNameLike ‹_›, rfl⟩
  · cases hrun

theorem memberName : Strolls Production.memberName := by
  refine word ?_ fun env s a s' hrun => ?_
  · refine .look Looks.peek fun kind => ?_
    split
    · exact .leaf _
    · exact .leaf _
    · exact .fail _
  · unfold Production.memberName at hrun
    rw [Looks.peek.run_bind] at hrun
    generalize env.kind s = kind at hrun ⊢
    split at hrun
    · cases hrun
      exact ⟨rfl, rfl⟩
    · cases hrun
      exact ⟨rfl, rfl⟩
    · cases hrun

theorem dottedName : Strolls Production.dottedName :=
  node (bind (child identifier) fun _ => repeatAccept rfl (child memberName))

/-- The search gets over arguments: it leaves no more parentheses open than it found. -/
theorem arguments : Strolls Production.arguments := by
  have hphrase : Gives 0 false (.plain false) true Production.arguments := Phrase.arguments
  refine ⟨hphrase.climbs, fun env s a s' hs hrun => ?_⟩
  obtain ⟨_, s₁, hdepth, hnode⟩ := bind_eq_ok hrun
  obtain rfl := checkDepth_eq_ok hdepth
  obtain ⟨s₂, hbody, hcursor⟩ := construct_eq_ok hnode
  obtain ⟨_, s₃, hopen, hrest⟩ := bind_eq_ok hbody
  have hrow : Phrase 0 false (.plain true) true true Eq _ _ :=
    Phrase.argumentRow Phrase.expression Builds.expression
  have hinside := inside_of_ifTake hopen ⟨rfl, rfl⟩ rfl
  have hopened : State.Later env.tokens { s₁ with children := [], isPartial := false } s₃ :=
    (Climbs.ifTake _).ok hs hopen
  have hspans := hrow.balanced hopened.le_size (Spot.holds_plain fun _ => hinside) hrest 0
  rw [next_of_ifTake hopen nofun, ← hcursor] at hspans
  exact TokenStream.Spans.overlooks (run_ifTake hopen).1 hspans

/-- The two words that say what an attribute is for. -/
theorem words_of_target {env : Env} {s : State}
    (h : (env.hasAhead s [.identifier, .mark .colon] ||
      env.hasAhead s [.keyword .kwModule, .mark .colon]) = true) :
    isAttributeWord (env.tokens.kindAt s.cursor) = true ∧
      isAttributeWord (env.tokens.kindAt (s.cursor + 1)) = true := by
  have hahead {k : TokenKind} (hk : isAttributeWord k = true)
      (h : env.hasAhead s [k, .mark .colon] = true) :
      isAttributeWord (env.tokens.kindAt s.cursor) = true ∧
        isAttributeWord (env.tokens.kindAt (s.cursor + 1)) = true := by
    obtain ⟨hfirst, h⟩ := Bool.and_eq_true_iff.1 h
    have hsecond := (Bool.and_eq_true_iff.1 h).1
    refine ⟨?_, ?_⟩
    · rw [show env.tokens.kindAt s.cursor = k from beq_iff_eq.1 hfirst]
      exact hk
    · rw [show env.tokens.kindAt (s.cursor + 1) = .mark .colon from beq_iff_eq.1 hsecond]
      rfl
  rcases Bool.or_eq_true_iff.1 h with h | h
  · exact hahead rfl h
  · exact hahead rfl h

/-- What may stand in front of the name of an attribute. -/
theorem attributeTarget {p : Parse Unit} (hp : Strolls p) :
    Strolls (do
      if ← test fun env s => env.hasAhead s [.identifier, .mark .colon]
          || env.hasAhead s [.keyword .kwModule, .mark .colon] then
        Production.field .target (ruleLeaf .identifier)
        Production.take
        p
      else p) := by
  refine ⟨.look (Looks.test _) fun _ => .ite ?_ hp.climbs, fun env s a s' hs hrun => ?_⟩
  · exact (Climbs.field _ (.leaf _)).bind fun _ => Climbs.take.bind fun _ => hp.climbs
  · rw [(Looks.test _).run_bind] at hrun
    split at hrun
    · rename_i hahead
      obtain ⟨hfirst, hsecond⟩ := words_of_target hahead
      have hlt : s.cursor < env.tokens.tokens.size :=
        lt_size_of_kindAt_ne (TokenKind.ne_endOfFile_of hfirst rfl)
      have hlt' : s.cursor + 1 < env.tokens.tokens.size :=
        lt_size_of_kindAt_ne (TokenKind.ne_endOfFile_of hsecond rfl)
      obtain ⟨_, s₁, hname, hrest⟩ := bind_eq_ok hrun
      obtain ⟨_, s₂, hcolon, hrest⟩ := bind_eq_ok hrest
      cases hname
      cases hcolon
      have hnext : env.next (env.next s.cursor) = s.cursor + 1 + 1 := by
        unfold Env.next
        omega
      have hsize : env.next (env.next s.cursor) ≤ env.tokens.tokens.size := by
        rw [hnext]
        exact hlt'
      have hstrolls := hp.overlooks env _ a s' hsize hrest
      have hlater := (hp.climbs.ok hsize hrest).cursor
      dsimp only at hstrolls hlater
      rw [hnext] at hstrolls hlater
      have hwords := (overlooks_word hfirst).trans (overlooks_word hsecond) (Nat.le_succ _)
          (Nat.le_succ _)
      exact hwords.trans hstrolls (Nat.le_add_right _ 2) hlater
    · exact hp.overlooks env s a s' hs hrun

theorem attributeItem : Strolls Production.attributeItem := by
  have hname : Strolls (do
      if (← peekAhead 1) == .mark .dot then Production.dottedName else Production.identifier) :=
    look (Looks.peekAhead 1) fun _ => ite dottedName identifier
  refine node (attributeTarget (bind (field _ hname) fun _ => look (Looks.test _) fun _ => ?_))
  exact ite (child (nested arguments)) (pure ())

theorem attributeRow :
    Strolls (Production.commaSeparated
      (Production.child (Production.nested Production.attributeItem))) := by
  have hitem := child (nested attributeItem)
  exact bind hitem fun _ => repeatAccept rfl hitem

end Strolls

-- ---------------------------------------------------------------------------
-- Rows of attributes and modifiers
-- ---------------------------------------------------------------------------

variable {env : Env} {s s' : State}

/-- The search gets over an attribute block and the line end behind it. -/
theorem prefixEnd_of_attributeBlock {n : Node} (hrun : Production.attributeBlock env s = .ok n s')
    (hs : s.cursor ≤ env.tokens.tokens.size) :
    (∃ k, k < s'.cursor ∧ env.tokens.EndsInParens s.cursor k ∧
        env.tokens.prefixEnd none s.cursor = k) ∨
      env.tokens.prefixEnd none s.cursor = env.tokens.prefixEnd none
        (if env.tokens.kindAt s'.cursor = .newline then s'.cursor + 1 else s'.cursor) := by
  obtain ⟨_, s₀, hdepth, hnode⟩ := bind_eq_ok hrun
  obtain rfl := checkDepth_eq_ok hdepth
  obtain ⟨s₄, hbody, hcursor⟩ := construct_eq_ok hnode
  obtain ⟨_, s₂, hopen, hrest⟩ := bind_eq_ok hbody
  obtain ⟨_, s₃, hitems, hclose⟩ := bind_eq_ok hrest
  obtain ⟨hless, hopened⟩ : env.tokens.kindAt s₀.cursor = .mark .less ∧ s₂.cursor = s₀.cursor + 1 :=
    ⟨(run_ifTake (s := { s₀ with children := [], isPartial := false }) hopen).1,
      next_of_ifTake (s := { s₀ with children := [], isPartial := false }) hopen nofun⟩
  have hsize : s₂.cursor ≤ env.tokens.tokens.size := by
    rw [hopened]
    refine lt_size_of_kindAt_ne ?_
    rw [hless]
    exact nofun
  have hitems := Strolls.attributeRow.overlooks env s₂ () s₃ hsize hitems
  have hgreater : env.tokens.kindAt s₃.cursor = .mark .greater := (run_ifTake hclose).1
  have hfirst : env.tokens.prefixEnd none s₀.cursor = env.tokens.prefixEnd (some 0) s₂.cursor := by
    rw [hopened]
    exact prefixEnd_of_less hless
  rw [hcursor, next_of_ifTake hclose nofun, hfirst]
  rcases hitems with h | ⟨k, hk, hends, h⟩
  · exact .inr (h.trans (prefixEnd_of_greater hgreater))
  · exact .inl ⟨k, Nat.lt_succ_of_lt hk, hends.mono (hopened ▸ Nat.le_succ _), h⟩

/-- One round of reading attributes. -/
abbrev attributeLine : Parse Bool := do
  if ← atKind (.mark .less) then
    field .attributes (nested attributeBlock)
    if ← atKind .newline then skip
    return true
  return false

theorem consumes_attributeLine : Consumes attributeLine := by
  refine ⟨Phrase.attributeLine.climbs (δ := 0), Phrase.progresses_attributeLine,
    fun env s hend => ?_⟩
  unfold attributeLine atKind
  rw [(Looks.test _).run_bind, hend]
  rfl

theorem Consumes.later_of_loopRun {round : Parse Bool} (h : Consumes round)
    (hs : s.cursor ≤ env.tokens.tokens.size) (hrun : LoopRun round env s (.ok () s')) :
    State.Later env.tokens s s' :=
  (Climbs.iterate (fun _ => h.climbs.bind fun _ => .pure _) ()).ok hs ((h.loopRun_iff hs).1 hrun)

/-- A round that reads attributes: the block, and the line end that may follow it. -/
theorem run_attributeLine {more : Bool} (hrun : attributeLine env s = .ok more s') :
    (more = false ∧ s' = s ∧ env.tokens.kindAt s.cursor ≠ .mark .less) ∨
      more = true ∧ ∃ (n : Node) (s₁ : State),
        attributeBlock { env with depth := env.depth + 1 } s = .ok n s₁ ∧
          s'.cursor = if env.tokens.kindAt s₁.cursor = .newline then s₁.cursor +
            1 else s₁.cursor := by
  unfold attributeLine atKind at hrun
  rw [(Looks.test _).run_bind] at hrun
  split at hrun
  · obtain ⟨_, s₁, hfield, hnewline⟩ := bind_eq_ok hrun
    obtain ⟨n, s₂, hblock, hattach⟩ := bind_eq_ok hfield
    have hcursor : s₁.cursor = s₂.cursor := by
      cases hattach
      rfl
    rw [(Looks.test _).run_bind] at hnewline
    split at hnewline
    · rename_i hkind
      have hnewlineKind : env.tokens.kindAt s₁.cursor = .newline := beq_iff_eq.1 hkind
      cases hnewline
      refine .inr ⟨rfl, n, s₂, hblock, ?_⟩
      rw [← hcursor, if_pos hnewlineKind]
      exact Env.next_eq_succ (by rw [hnewlineKind]; exact nofun)
    · rename_i hkind
      have hother : env.tokens.kindAt s₁.cursor ≠ .newline := fun h => hkind (beq_iff_eq.2 h)
      cases hnewline
      refine .inr ⟨rfl, n, s₂, hblock, ?_⟩
      rw [← hcursor, if_neg hother]
  · cases hrun
    exact .inl ⟨rfl, rfl, fun h => ‹¬_› (beq_iff_eq.2 h)⟩

/-- The search gets over a row of attribute blocks, or ends within one of them. -/
theorem prefixEnd_of_attributeLines (hs : s.cursor ≤ env.tokens.tokens.size)
    (hrun : Production.repeatWhile attributeLine env s = .ok () s') :
    (∃ k, k < s'.cursor ∧ env.tokens.EndsInParens s.cursor k ∧
        env.tokens.prefixEnd none s.cursor = k) ∨
      env.tokens.prefixEnd none s.cursor = env.tokens.prefixEnd none s'.cursor ∧
        env.tokens.kindAt s'.cursor ≠ .mark .less := by
  replace hrun := (consumes_attributeLine.loopRun_iff hs).2 hrun
  generalize hresult : (EStateM.Result.ok () s' : EStateM.Result Failure State Unit) =
    result at hrun
  induction hrun with
  | @stop s s₁ h =>
    cases hresult
    obtain ⟨-, rfl, hless⟩ | ⟨hmore, -⟩ := run_attributeLine h
    · exact .inr ⟨rfl, hless⟩
    · cases hmore
  | fails => cases hresult
  | @again s s₁ _ h rest ih =>
    have hlater := consumes_attributeLine.climbs.ok hs h
    obtain ⟨hmore, -⟩ | ⟨-, n, s₂, hblock, hnext⟩ := run_attributeLine h
    · cases hmore
    · rcases prefixEnd_of_attributeBlock hblock hs with ⟨k, hk, hend⟩ | hend
      · have hrest :=
          (consumes_attributeLine.later_of_loopRun hlater.le_size (hresult ▸ rest)).cursor
        refine .inl ⟨k, ?_, hend⟩
        split at hnext
        · omega
        · omega
      · rw [hend, ← hnext]
        refine (ih hlater.le_size hresult).imp_left fun ⟨k, hk, hends, h⟩ => ?_
        exact ⟨k, hk, hends.mono hlater.cursor, h⟩

theorem firstFrom_of_not {t : TokenStream} {i : Nat} (h : (t.kindAt i).isModifier = false) :
    t.firstFrom (!·.isModifier) i = i := by
  rw [firstFrom, if_pos]
  rw [h]
  rfl

/-- One round of reading modifiers. -/
abbrev modifierRound : Parse Bool := do
  if (← peek).isModifier then
    child (ruleLeaf .modifier)
    return true
  return false

theorem consumes_modifierRound : Consumes modifierRound := by
  refine ⟨?_, ?_, fun env s hend => ?_⟩
  · have hmodifier : Climbs (child (ruleLeaf .modifier)) := (Climbs.leaf _).bind fun _ => .attach _
    exact .look Looks.peek fun _ => .ite (hmodifier.bind fun _ => .pure _) (.pure _)
  · exact .look Looks.peek fun _ => .ite (.round (Steps.child (Builds.ruleLeaf _))) (.pure nofun)
  · unfold modifierRound
    rw [Looks.peek.run_bind, hend]
    rfl

/-- The modifiers that are parsed are those that the search finds. -/
theorem firstFrom_of_modifiers {n : Node} (hs : s.cursor ≤ env.tokens.tokens.size)
    (hrun : modifiers env s = .ok n s') :
    env.tokens.firstFrom (!·.isModifier) s.cursor = s'.cursor := by
  obtain ⟨s₁, hrounds, hcursor⟩ := construct_eq_ok hrun
  rw [hcursor]
  replace hrounds := (consumes_modifierRound.loopRun_iff
    (s := { s with children := [], isPartial := false }) hs).2 hrounds
  generalize hresult : (EStateM.Result.ok () s₁ : EStateM.Result Failure State Unit) =
    result at hrounds
  generalize hstart : ({ s with children := [], isPartial := false } : State) = s₀ at hrounds
  rw [show s.cursor = s₀.cursor from hstart ▸ rfl] at hs ⊢
  clear hstart
  induction hrounds with
  | @stop s s₂ h =>
    cases hresult
    unfold modifierRound at h
    rw [Looks.peek.run_bind] at h
    split at h
    · obtain ⟨_, s₃, -, hrest⟩ := bind_eq_ok h
      cases hrest
    · cases h
      exact firstFrom_of_not (Bool.eq_false_iff.2 ‹_›)
  | fails => cases hresult
  | @again s s₂ _ h rest ih =>
    have hlater := consumes_modifierRound.climbs.ok hs h
    unfold modifierRound at h
    rw [Looks.peek.run_bind] at h
    split at h
    · rename_i hmodifier
      have hlt : s.cursor < env.tokens.tokens.size :=
        lt_size_of_kindAt_ne (TokenKind.ne_endOfFile_of hmodifier rfl)
      have hnext : s₂.cursor = s.cursor + 1 := by
        cases h
        exact Nat.min_eq_left hlt
      rw [← ih hresult hlater.le_size, hnext, firstFrom, if_neg, if_pos hlt]
      rw [show env.tokens.kindAt s.cursor = env.kind s from rfl, hmodifier]
      exact Bool.noConfusion
    · cases h

/-- The modifiers of a declaration, if it has any. -/
abbrev optionalModifiers : Parse Unit := do
  if (← peek).isModifier then field .modifiers modifiers

theorem firstFrom_of_optionalModifiers (hs : s.cursor ≤ env.tokens.tokens.size)
    (hrun : optionalModifiers env s = .ok () s') :
    env.tokens.firstFrom (!·.isModifier) s.cursor = s'.cursor := by
  unfold optionalModifiers at hrun
  rw [Looks.peek.run_bind] at hrun
  split at hrun
  · obtain ⟨n, s₂, hrow, hattach⟩ := bind_eq_ok hrun
    cases hattach
    have hend := firstFrom_of_modifiers hs hrow
    exact hend
  · cases hrun
    exact firstFrom_of_not (Bool.eq_false_iff.2 ‹_›)

/-- Where the attributes and modifiers of a declaration parse, the search for its word ends behind
them, unless a line ended within parentheses among them. -/
theorem endsInParens_or_behindPrefix_eq (hs : s.cursor ≤ env.tokens.tokens.size)
    (hrun : declarationPrefix env s = .ok () s') :
    (env.tokens.EndsInParens s.cursor (env.tokens.behindPrefix s.cursor) ∧
        env.tokens.behindPrefix s.cursor < s'.cursor) ∨
      env.tokens.behindPrefix s.cursor = s'.cursor := by
  obtain ⟨_, s₁, hlines, hmodifiers⟩ := bind_eq_ok hrun
  have hs₁ :=
    (Climbs.iterate (fun _ => consumes_attributeLine.climbs.bind fun _ => .pure _) ()).ok hs
    hlines |>.le_size
  have hend := firstFrom_of_optionalModifiers hs₁ hmodifiers
  have hle := env.tokens.le_firstFrom (!·.isModifier) s₁.cursor
  rcases prefixEnd_of_attributeLines hs hlines with ⟨k, hk, hends, h⟩ | ⟨h, hless⟩
  · refine .inl ?_
    rw [TokenStream.behindPrefix, h]
    exact ⟨hends, by omega⟩
  · refine .inr ?_
    rw [TokenStream.behindPrefix, h, prefixEnd_of_ne_less hless]
    exact hend

/-- Where the attributes and modifiers of a declaration parse, the search for its word ends behind
them, unless a line ended within the attributes. -/
theorem behindPrefix_of_declarationPrefix (hs : s.cursor ≤ env.tokens.tokens.size)
    (hrun : declarationPrefix env s = .ok () s') :
    (env.tokens.kindAt (env.tokens.behindPrefix s.cursor) = .newline ∧
        env.tokens.behindPrefix s.cursor < s'.cursor) ∨
      env.tokens.behindPrefix s.cursor = s'.cursor :=
  (endsInParens_or_behindPrefix_eq hs hrun).imp_left fun h => ⟨h.1.1, h.2⟩

end Production

end VisualBasic
