import VisualBasic.Proofs.Searches

/-!
# Looking ahead ends

Where a rule is chosen by what lies ahead, tokens are searched one by one. The searches are cut off
at the end of the text. `SearchRun` tells what a search finds that is not: it goes on until one of
its steps gives an answer. At the end of the text every step gives one, so the two find the same.

Main results:

* `SearchRun.iff_of_unfold` — a search whose steps go forward finds one thing, and that is what it
  finds.
* `TokenStream.Lasting.searchesEnd` — the searches among the tokens of a text end.
-/

namespace VisualBasic

variable {σ ρ : Type}

/-- What is found by a step that is taken again and again until it gives an answer. -/
inductive SearchRun (step : σ → ρ ⊕ σ) : σ → ρ → Prop
  | found {x : σ} {r : ρ} (h : step x = .inl r) : SearchRun step x r
  | again {x y : σ} {r : ρ} (h : step x = .inr y) (rest : SearchRun step y r) : SearchRun step x r

namespace SearchRun

variable {step : σ → ρ ⊕ σ} {x : σ} {r r' : ρ}

/-- A search finds one thing at most. -/
theorem unique (h : SearchRun step x r) (h' : SearchRun step x r') : r = r' := by
  induction h with
  | found h =>
    cases h' with
    | found h₁ | again h₁ => grind
  | again h _ ih =>
    cases h' with
    | found h₁ => grind
    | again h₁ rest =>
      rw [h] at h₁
      cases h₁
      exact ih rest

/-- What is left to be searched becomes less with every step, so some step gives the answer. -/
theorem of_unfold (find : σ → ρ) (left : σ → Nat)
    (h : ∀ x, match step x with
      | .inl r => find x = r
      | .inr y => find x = find y ∧ left y < left x) (x : σ) : SearchRun step x (find x) := by
  induction hleft : left x using Nat.strongRecOn generalizing x with
  | ind n ih =>
    have hx := h x
    cases hstep : step x with
    | inl r =>
      rw [hstep] at hx
      exact hx ▸ .found hstep
    | inr y =>
      rw [hstep] at hx
      exact hx.1 ▸ .again hstep (ih _ (hleft ▸ hx.2) y rfl)

theorem iff_of_unfold (find : σ → ρ) (left : σ → Nat)
    (h : ∀ x, match step x with
      | .inl r => find x = r
      | .inr y => find x = find y ∧ left y < left x) : SearchRun step x r ↔ find x = r := by
  have hrun := of_unfold find left h x
  constructor
  · exact hrun.unique
  · rintro rfl
    exact hrun

end SearchRun

namespace TokenStream

-- ---------------------------------------------------------------------------
-- The steps
-- ---------------------------------------------------------------------------

/-- A step of the search for a token of a class. -/
def classStep (s : TokenStream) (p : TokenKind → Bool) (i : Nat) : Nat ⊕ Nat :=
  if p (s.kindAt i) then .inl i else .inr (i + 1)

/-- A step of the search for what is behind attributes and modifiers. -/
def prefixStep (s : TokenStream) : Option Nat × Nat → Nat ⊕ (Option Nat × Nat)
  | (none, i) =>
    if s.kindAt i = .mark .less then .inr (some 0, i + 1) else .inl (s.firstFrom (!·.isModifier) i)
  | (some n, i) =>
    if s.kindAt i = .mark .leftParen then .inr (some (n + 1), i + 1)
    else if s.kindAt i = .mark .rightParen then .inr (some (n - 1), i + 1)
    else if s.kindAt i = .mark .greater ∧ n = 0 then
      .inr (none, if s.kindAt (i + 1) = .newline then i + 2 else i + 1)
    else if s.kindAt i = .newline ∨ s.kindAt i = .endOfFile then .inl i
    else .inr (some n, i + 1)

/-- A step of the search for an assignment behind parentheses. -/
def parensStep (s : TokenStream) : Nat × Nat → Bool ⊕ (Nat × Nat)
  | (nesting, i) =>
    match s.kindAt i with
    | .mark .leftParen => .inr (nesting + 1, i + 1)
    | .mark .rightParen =>
      if nesting ≤ 1 then .inl (s.kindAt (i + 1)).isAssignment else .inr (nesting - 1, i + 1)
    | .newline | .endOfFile => .inl false
    | _ => .inr (nesting, i + 1)

/-- A line of the search for the body of a routine. -/
def bodyStep (s : TokenStream) (routine : Keyword) : Bool × Nat → Bool ⊕ (Bool × Nat)
  | (seen, i) =>
    if s.kindAt i = .endOfFile then .inl true
    else
      let atEnd := s.kindAt (i + 1) == .keyword .kwEnd
      if atEnd && s.kindAt (i + 2) == .keyword routine then .inl true
      else if atEnd && closesType (s.kindAt (i + 2)) then .inl seen
      else if !atEnd && s.startsMember (i + 1) then .inl seen
      else .inr (seen || !(s.kindAt (i + 1)).endsLine, s.lineEnd (i + 1))

/-- A step of the search for the end of an error region. -/
def regionStep (s : TokenStream) (inSingleLineIf : Bool) (start i : Nat) : Nat ⊕ Nat :=
  match s.kindAt i with
  | .endOfFile => .inl i
  | .newline | .mark .colon => .inl (min (i + 1) s.tokens.size)
  | .keyword .kwElse => if inSingleLineIf && start < i then .inl i else .inr (i + 1)
  | _ => .inr (i + 1)

-- ---------------------------------------------------------------------------
-- The searches
-- ---------------------------------------------------------------------------

section

variable {s : TokenStream} {i : Nat}

theorem left_lt_of_kindAt_ne {j : Nat} (h : s.kindAt i ≠ .endOfFile) (hij : i < j) :
    s.tokens.size - j < s.tokens.size - i := by
  have hlt := lt_size_of_kindAt_ne h
  omega

/-- A search for a class of tokens to which the end of the text belongs. -/
theorem searchRun_firstFrom {p : TokenKind → Bool} (hp : p .endOfFile = true) {r : Nat} :
    SearchRun (s.classStep p) i r ↔ s.firstFrom p i = r := by
  refine SearchRun.iff_of_unfold (s.firstFrom p) (s.tokens.size - ·) fun i => ?_
  rw [classStep, firstFrom.eq_def]
  by_cases hi : p (s.kindAt i) = true
  · rw [if_pos hi, if_pos hi]
  · have hne : s.kindAt i ≠ .endOfFile := fun hend => hi (hend ▸ hp)
    rw [if_neg hi, if_neg hi, if_pos (lt_size_of_kindAt_ne hne)]
    exact ⟨rfl, left_lt_of_kindAt_ne hne (Nat.lt_succ_self i)⟩

theorem searchRun_prefixEnd {parens : Option Nat} {r : Nat} :
    SearchRun s.prefixStep (parens, i) r ↔ s.prefixEnd parens i = r := by
  refine SearchRun.iff_of_unfold (fun x : Option Nat × Nat => s.prefixEnd x.1 x.2)
    (fun x => s.tokens.size - x.2) ?_
  rintro ⟨parens, i⟩
  have hforward {kind : TokenKind} {j : Nat} (h : s.kindAt i = kind) (hkind : kind ≠ .endOfFile)
      (hij : i < j) : s.tokens.size - j < s.tokens.size - i :=
    left_lt_of_kindAt_ne (h ▸ hkind) hij
  cases parens with
  | none =>
    rw [prefixStep]
    by_cases hless : s.kindAt i = .mark .less
    · rw [if_pos hless]
      exact ⟨prefixEnd_of_less hless, hforward hless nofun (Nat.lt_succ_self i)⟩
    · rw [if_neg hless]
      exact prefixEnd_of_ne_less hless
  | some n =>
    rw [prefixStep]
    by_cases hleft : s.kindAt i = .mark .leftParen
    · rw [if_pos hleft]
      exact ⟨prefixEnd_of_leftParen hleft, hforward hleft nofun (Nat.lt_succ_self i)⟩
    rw [if_neg hleft]
    by_cases hright : s.kindAt i = .mark .rightParen
    · rw [if_pos hright]
      exact ⟨prefixEnd_of_rightParen hright, hforward hright nofun (Nat.lt_succ_self i)⟩
    rw [if_neg hright]
    by_cases hgreater : s.kindAt i = .mark .greater ∧ n = 0
    · obtain ⟨hgreater, rfl⟩ := hgreater
      rw [if_pos ⟨hgreater, rfl⟩]
      refine ⟨prefixEnd_of_greater hgreater, hforward hgreater nofun ?_⟩
      dsimp only
      split
      · omega
      · omega
    rw [if_neg hgreater]
    by_cases hends : s.kindAt i = .newline ∨ s.kindAt i = .endOfFile
    · rw [if_pos hends]
      exact prefixEnd_of_newline hends
    · rw [if_neg hends]
      obtain ⟨hnewline, hend⟩ := not_or.1 hends
      have hn : s.kindAt i = .mark .greater → n ≠ 0 := fun h hn => hgreater ⟨h, hn⟩
      exact ⟨prefixEnd_of_other hleft hright hn hnewline hend,
        left_lt_of_kindAt_ne hend (Nat.lt_succ_self i)⟩

theorem searchRun_assignmentFollowsParens {nesting : Nat} {r : Bool} :
    SearchRun s.parensStep (nesting, i) r ↔ s.assignmentFollowsParens nesting i = r := by
  refine SearchRun.iff_of_unfold (fun x : Nat × Nat => s.assignmentFollowsParens x.1 x.2)
    (fun x => s.tokens.size - x.2) ?_
  rintro ⟨nesting, i⟩
  dsimp only
  rw [parensStep, assignmentFollowsParens.eq_def]
  by_cases hend : s.kindAt i = .endOfFile
  · rw [hend]
    exact ite_self _
  · have hforward := left_lt_of_kindAt_ne hend (Nat.lt_succ_self i)
    rw [if_pos (lt_size_of_kindAt_ne hend)]
    generalize s.kindAt i = kind at hend
    cases kind with
    | mark m =>
      cases m with
      | rightParen =>
        by_cases hlast : nesting ≤ 1
        · simp only [if_pos hlast]
        · simp only [if_neg hlast]
          exact ⟨trivial, hforward⟩
      | _ => exact ⟨rfl, hforward⟩
    | newline => rfl
    | endOfFile => exact absurd rfl hend
    | _ => exact ⟨rfl, hforward⟩

theorem searchRun_bodyFollows (hs : s.Lasting) {routine : Keyword} {seen : Bool} {r : Bool} :
    SearchRun (s.bodyStep routine) (seen, i) r ↔ s.bodyFollows routine seen i = r := by
  refine SearchRun.iff_of_unfold (fun x : Bool × Nat => s.bodyFollows routine x.1 x.2)
    (fun x => s.tokens.size - x.2) ?_
  rintro ⟨seen, i⟩
  dsimp only
  rw [bodyStep, bodyFollows.eq_def]
  by_cases hlt : i < s.tokens.size
  · have hline := s.le_lineEnd (i + 1)
    rw [if_pos hlt, if_neg (hs i hlt)]
    dsimp only
    split_ifs
    · rfl
    · rfl
    · rfl
    · exact ⟨rfl, by omega⟩
  · rw [if_neg hlt, if_pos (kindAt_of_size_le (Nat.le_of_not_lt hlt))]

theorem searchRun_regionEnd {env : Env} {inSingleLineIf : Bool} {start r : Nat} :
    SearchRun (env.tokens.regionStep inSingleLineIf start) i r ↔
      Production.regionEnd env inSingleLineIf start i = r := by
  refine SearchRun.iff_of_unfold (Production.regionEnd env inSingleLineIf start)
    (env.tokens.tokens.size - ·) fun i => ?_
  rw [regionStep, Production.regionEnd.eq_def]
  by_cases hend : env.tokens.kindAt i = .endOfFile
  · rw [hend]
  · have hlt := lt_size_of_kindAt_ne hend
    have hforward := left_lt_of_kindAt_ne hend (Nat.lt_succ_self i)
    generalize env.tokens.kindAt i = kind at hend
    rw [if_pos hlt]
    cases kind with
    | mark m =>
      cases m with
      | colon => rfl
      | _ => exact ⟨rfl, hforward⟩
    | keyword word =>
      cases word with
      | kwElse =>
        dsimp only
        split_ifs
        · rfl
        · exact ⟨rfl, hforward⟩
      | _ => exact ⟨rfl, hforward⟩
    | newline => rfl
    | endOfFile => exact absurd rfl hend
    | _ => exact ⟨rfl, hforward⟩

end

-- ---------------------------------------------------------------------------
-- All searches
-- ---------------------------------------------------------------------------

/-- The searches among the tokens end, and they find what is found without a bound. -/
structure SearchesEnd (s : TokenStream) : Prop where
  /-- The end of a line, of blank lines and of modifiers. -/
  firstFrom : ∀ p ∈ [TokenKind.endsLine, (!·.isTerminator), (!·.isModifier), (!isMemberModifier ·)],
    ∀ i r, SearchRun (s.classStep p) i r ↔ s.firstFrom p i = r
  prefixEnd : ∀ parens i r, SearchRun s.prefixStep (parens, i) r ↔ s.prefixEnd parens i = r
  assignmentFollowsParens : ∀ nesting i r,
    SearchRun s.parensStep (nesting, i) r ↔ s.assignmentFollowsParens nesting i = r
  bodyFollows : ∀ routine seen i r,
    SearchRun (s.bodyStep routine) (seen, i) r ↔ s.bodyFollows routine seen i = r
  regionEnd : ∀ env : Env, env.tokens = s → ∀ inSingleLineIf start i r,
    SearchRun (s.regionStep inSingleLineIf start) i r ↔
      Production.regionEnd env inSingleLineIf start i = r

theorem Lasting.searchesEnd {s : TokenStream} (hs : s.Lasting) : s.SearchesEnd where
  firstFrom p hp i r := by
    refine searchRun_firstFrom ?_
    simp only [List.mem_cons, List.not_mem_nil, or_false] at hp
    obtain rfl | rfl | rfl | rfl := hp
    all_goals rfl
  prefixEnd _ _ _ := searchRun_prefixEnd
  assignmentFollowsParens _ _ _ := searchRun_assignmentFollowsParens
  bodyFollows _ _ _ _ := searchRun_bodyFollows hs
  regionEnd _ henv _ _ _ _ := henv ▸ searchRun_regionEnd

end TokenStream

end VisualBasic
