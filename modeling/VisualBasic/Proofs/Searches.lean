import VisualBasic.Grammar.Declaration
import VisualBasic.Proofs.Phrase

/-!
# Searches in streams that agree

What the grammar looks for further ahead: the end of a line, the word behind attributes and
modifiers, the body of a routine. A search that ends at a token of those that agree finds the same
in both streams. Where only a part of the tokens agrees, the part ends with a line, so a search
within a line never leaves it; the search for the body of a routine ends at the closing line of the
type around.

Main results:

* `Env.Alike.firstFrom`, `Env.Alike.behindPrefix` — searches that end at a token that agrees.
* `Env.Alike.startsMember` — a search within a line.
* `Env.Alike.bodyFollows` — a search that a closing line ends.
-/

namespace VisualBasic

namespace Sight

theorem Sees.mono {m : Sight} {i j : Nat} (h : m.Sees j) (hij : i ≤ j) : m.Sees i := by
  cases m with
  | whole => trivial
  | upTo bound stop => exact Nat.lt_of_le_of_lt hij h

end Sight

namespace TokenStream

/-- A search ends at the latest at a token of the class. -/
theorem firstFrom_le {t : TokenStream} {p : TokenKind → Bool} {i j : Nat} (hij : i ≤ j)
    (hj : p (t.kindAt j) = true) : t.firstFrom p i ≤ j := by
  fun_induction firstFrom t p i with
  | case1 i => exact hij
  | case2 i hi hlt ih =>
    refine ih (Nat.lt_of_le_of_ne hij ?_)
    -- At `j` itself the search would have ended.
    rintro rfl
    exact hi hj
  | case3 i => exact hij

/-- A search ends at a token of the class or at the end of the text. -/
theorem firstFrom_spec (t : TokenStream) (p : TokenKind → Bool) (i : Nat) :
    p (t.kindAt (t.firstFrom p i)) = true ∨ t.tokens.size ≤ t.firstFrom p i := by
  fun_induction firstFrom t p i with
  | case1 i hi => exact .inl hi
  | case2 i hi hlt ih => exact ih
  | case3 i hi hlt => exact .inr (Nat.le_of_not_lt hlt)

section

variable {t : TokenStream} {i n : Nat}

theorem prefixEnd_of_less (h : t.kindAt i = .mark .less) :
    t.prefixEnd none i = t.prefixEnd (some 0) (i + 1) := by
  have hlt : i < t.tokens.size := lt_size_of_kindAt_ne (by rw [h]; exact nofun)
  rw [prefixEnd.eq_def, if_pos hlt, h]

/-- Behind the attributes come the modifiers. -/
theorem prefixEnd_of_ne_less (h : t.kindAt i ≠ .mark .less) :
    t.prefixEnd none i = t.firstFrom (!·.isModifier) i := by
  rw [prefixEnd.eq_def]
  by_cases hlt : i < t.tokens.size
  · rw [if_pos hlt]
    split
    · exact absurd ‹_› h
    all_goals first | rfl | cases ‹_ = some _›
  · rw [if_neg hlt, firstFrom, if_pos]
    rw [kindAt_of_size_le (Nat.le_of_not_lt hlt)]
    rfl

theorem prefixEnd_of_leftParen (h : t.kindAt i = .mark .leftParen) :
    t.prefixEnd (some n) i = t.prefixEnd (some (n + 1)) (i + 1) := by
  have hlt : i < t.tokens.size := lt_size_of_kindAt_ne (by rw [h]; exact nofun)
  rw [prefixEnd.eq_def, if_pos hlt, h]

theorem prefixEnd_of_rightParen (h : t.kindAt i = .mark .rightParen) :
    t.prefixEnd (some n) i = t.prefixEnd (some (n - 1)) (i + 1) := by
  have hlt : i < t.tokens.size := lt_size_of_kindAt_ne (by rw [h]; exact nofun)
  rw [prefixEnd.eq_def, if_pos hlt, h]

/-- The end of attributes, and a line end behind it. -/
theorem prefixEnd_of_greater (h : t.kindAt i = .mark .greater) :
    t.prefixEnd (some 0) i =
      t.prefixEnd none (if t.kindAt (i + 1) = .newline then i + 2 else i + 1) := by
  have hlt : i < t.tokens.size := lt_size_of_kindAt_ne (by rw [h]; exact nofun)
  rw [prefixEnd.eq_def, if_pos hlt, h]
  simp only [beq_iff_eq]
  split
  · rfl
  · rfl

/-- A line that ends within attributes ends the search. -/
theorem prefixEnd_of_newline (h : t.kindAt i = .newline ∨ t.kindAt i = .endOfFile) :
    t.prefixEnd (some n) i = i := by
  rw [prefixEnd.eq_def]
  split
  · rcases h with h | h
    · rw [h]
    · rw [h]
  · rfl

theorem prefixEnd_of_other (hleft : t.kindAt i ≠ .mark .leftParen)
    (hright : t.kindAt i ≠ .mark .rightParen) (hgreater : t.kindAt i = .mark .greater → n ≠ 0)
    (hnewline : t.kindAt i ≠ .newline) (hend : t.kindAt i ≠ .endOfFile) :
    t.prefixEnd (some n) i = t.prefixEnd (some n) (i + 1) := by
  rw [prefixEnd.eq_def, if_pos (lt_size_of_kindAt_ne hend)]
  split
  all_goals try cases ‹some _ = none›
  all_goals first
    | rfl
    | exact absurd ‹_› hleft
    | exact absurd ‹_› hright
    | exact absurd ‹_› hnewline
    | exact absurd ‹_› hend
    | cases ‹some _ = some _›
  all_goals first
    | rfl
    | exact absurd rfl (hgreater ‹_›)

end

theorem le_prefixEnd (t : TokenStream) (parens : Option Nat) (i : Nat) :
    i ≤ t.prefixEnd parens i := by
  fun_induction prefixEnd t parens i with
  | case2 => exact t.le_firstFrom _ _
  | case7 | case8 => exact Nat.le_refl _
  | case5 i _ _ _ ih => exact Nat.le_of_add_right_le ih
  | _ => omega

/-- There is no mark of the end of the text among the tokens. -/
def Lasting (t : TokenStream) : Prop := ∀ i, i < t.tokens.size → t.kindAt i ≠ .endOfFile

/-- The closing line of a type begins at an index. -/
structure ClosesTypeAt (t : TokenStream) (e : Nat) : Prop where
  behindLine : 0 < e ∧ (t.kindAt (e - 1)).isTerminator = true
  closer : t.kindAt e = .keyword .kwEnd
  word : closesType (t.kindAt (e + 1)) = true

/-- A line in front of a closing line ends in front of it. -/
theorem ClosesTypeAt.lineEnd_lt {t : TokenStream} {i e : Nat} (h : t.ClosesTypeAt e) (hie : i < e) :
    t.lineEnd i < e := by
  have hle : t.lineEnd i ≤ e - 1 := by
    refine firstFrom_le (by omega) ?_
    rw [TokenKind.endsLine_eq, h.behindLine.2]
    rfl
  omega

end TokenStream

namespace Env.Alike

variable {δ : Nat} {m : Sight} {env env' : Env}

/-- A token that agrees is one of both streams. -/
theorem lt_size_iff (h : env.Alike δ m env') {i : Nat} (hi : m.Sees i) :
    i + δ < env'.tokens.tokens.size ↔ i < env.tokens.tokens.size := by
  cases m with
  | whole full =>
    rw [h.size full rfl]
    exact Nat.add_lt_add_iff_right
  | upTo bound stop =>
    obtain ⟨-, hsize, hsize', -⟩ := h.part bound stop rfl
    have hlt : i < stop := hi
    omega

/-- A search that ends at a token that agrees ends at the same one. -/
theorem firstFrom (h : env.Alike δ m env') (p : TokenKind → Bool) {i : Nat}
    (hsees : m.Sees (env.tokens.firstFrom p i)) :
    env'.tokens.firstFrom p (i + δ) = env.tokens.firstFrom p i + δ := by
  have hle := env.tokens.le_firstFrom p i
  fun_induction TokenStream.firstFrom env.tokens p i with
  | case1 i hi =>
    rw [TokenStream.firstFrom, h.kindAt i hsees, if_pos hi]
  | case2 i hi hlt ih =>
    have hsees_i : m.Sees i := hsees.mono (Nat.le_of_succ_le (env.tokens.le_firstFrom p (i + 1)))
    rw [TokenStream.firstFrom, h.kindAt i hsees_i, if_neg hi,
      if_pos ((h.lt_size_iff hsees_i).2 hlt),
      Nat.add_right_comm]
    exact ih hsees (env.tokens.le_firstFrom p (i + 1))
  | case3 i hi hlt =>
    rw [TokenStream.firstFrom, h.kindAt i hsees, if_neg hi, if_neg (mt (h.lt_size_iff hsees).1 hlt)]

/-- Where only a part of the tokens agrees, a line that begins in it ends in it. -/
theorem sees_firstFrom (h : env.Alike δ m env') {p : TokenKind → Bool}
    (hp : p .newline = true) {i : Nat}
    (hi : m.Sees i) : m.Sees (env.tokens.firstFrom p i) := by
  cases m with
  | whole => trivial
  | upTo bound stop =>
    obtain ⟨hbound, hsize, hsize', hnewline⟩ := h.part bound stop rfl
    have hlt : i < stop := hi
    -- The last token that agrees is a line end, and a line end ends the search.
    have hle : env.tokens.firstFrom p i ≤ stop - 1 := by
      refine TokenStream.firstFrom_le (by omega) ?_
      rw [hnewline]
      exact hp
    show env.tokens.firstFrom p i < stop
    omega

theorem lineEnd (h : env.Alike δ m env') {i : Nat} (hi : m.Sees i) :
    env'.tokens.lineEnd (i + δ) = env.tokens.lineEnd i + δ :=
  h.firstFrom _ (h.sees_firstFrom rfl hi)

theorem someIn (h : env.Alike δ m env') (p : TokenKind → Bool) (i : Nat) {j : Nat} (hj : m.Sees j) :
    env'.tokens.someIn p (i + δ) (j + δ) = env.tokens.someIn p i j := by
  unfold TokenStream.someIn
  rw [Nat.add_sub_add_right, Nat.add_comm i δ, ← List.map_add_range', List.any_map, Bool.eq_iff_iff,
    List.any_eq_true, List.any_eq_true]
  refine exists_congr fun k => and_congr_right fun hk => ?_
  have hlt : k < j := by
    have hrange := List.mem_range'_1.1 hk
    omega
  rw [Function.comp_apply, Nat.add_comm δ k, h.kindAt k (hj.mono (Nat.le_of_lt hlt))]

theorem startsMember (h : env.Alike δ m env') {i : Nat} (hi : m.Sees i) :
    env'.tokens.startsMember (i + δ) = env.tokens.startsMember i := by
  have hword : m.Sees (env.tokens.firstFrom (!TokenStream.isMemberModifier ·) i) :=
    h.sees_firstFrom rfl hi
  unfold TokenStream.startsMember
  dsimp only
  rw [h.firstFrom _ hword, h.someIn _ i hword, h.kindAt i hi, h.kindAt _ hword]

/-- A search for the word behind attributes and modifiers that ends at a token that agrees. -/
theorem prefixEnd (h : env.Alike δ m env') (parens : Option Nat) {i : Nat}
    (hsees : m.Sees (env.tokens.prefixEnd parens i)) :
    env'.tokens.prefixEnd parens (i + δ) = env.tokens.prefixEnd parens i + δ := by
  have hle := env.tokens.le_prefixEnd parens i
  -- All tokens that the search comes past are in front of its end, so they agree.
  have hkind {i j : Nat} (hj : m.Sees j) (hij : i ≤ j) :
      env'.tokens.kindAt (i + δ) = env.tokens.kindAt i := h.kindAt i (hj.mono hij)
  fun_induction TokenStream.prefixEnd env.tokens parens i with
  | case1 i hlt hi ih =>
    have hnext := env.tokens.le_prefixEnd (some 0) (i + 1)
    rw [TokenStream.prefixEnd_of_less ((hkind hsees hle).trans hi), Nat.add_right_comm,
      ih hsees hnext]
  | case2 i hlt hi =>
    rw [TokenStream.prefixEnd_of_ne_less ((hkind hsees hle).trans_ne hi), h.firstFrom _ hsees]
  | case3 i hlt n hi ih =>
    have hnext := env.tokens.le_prefixEnd (some (n + 1)) (i + 1)
    rw [TokenStream.prefixEnd_of_leftParen ((hkind hsees hle).trans hi), Nat.add_right_comm,
      ih hsees hnext]
  | case4 i hlt n hi ih =>
    have hnext := env.tokens.le_prefixEnd (some (n - 1)) (i + 1)
    rw [TokenStream.prefixEnd_of_rightParen ((hkind hsees hle).trans hi), Nat.add_right_comm,
      ih hsees hnext]
  | case5 i hlt hi hnewline ih =>
    have hnext := env.tokens.le_prefixEnd none (i + 2)
    have hbehind : env'.tokens.kindAt (i + δ + 1) = .newline := by
      rw [Nat.add_right_comm, hkind hsees (Nat.le_of_succ_le hnext)]
      exact beq_iff_eq.1 hnewline
    rw [TokenStream.prefixEnd_of_greater ((hkind hsees hle).trans hi), if_pos hbehind,
      Nat.add_right_comm, ih hsees hnext]
  | case6 i hlt hi hnewline ih =>
    have hnext := env.tokens.le_prefixEnd none (i + 1)
    have hbehind : env'.tokens.kindAt (i + δ + 1) ≠ .newline := by
      rw [Nat.add_right_comm, hkind hsees hnext]
      exact fun h => hnewline (beq_iff_eq.2 h)
    rw [TokenStream.prefixEnd_of_greater ((hkind hsees hle).trans hi), if_neg hbehind,
      Nat.add_right_comm, ih hsees hnext]
  | case7 i hlt n hi => rw [TokenStream.prefixEnd_of_newline (.inl ((hkind hsees hle).trans hi))]
  | case8 i hlt n hi => rw [TokenStream.prefixEnd_of_newline (.inr ((hkind hsees hle).trans hi))]
  | case9 i hlt n hleft hright hgreater hnewline hend ih =>
    have hnext := env.tokens.le_prefixEnd (some n) (i + 1)
    have hi := hkind hsees hle
    rw [TokenStream.prefixEnd_of_other (hi.trans_ne hleft) (hi.trans_ne hright)
      (fun h => hgreater (hi.symm.trans h)) (hi.trans_ne hnewline) (hi.trans_ne hend),
      Nat.add_right_comm, ih hsees hnext]
  | case10 parens i hlt =>
    rw [TokenStream.prefixEnd.eq_def, if_neg (mt (h.lt_size_iff hsees).1 hlt)]

theorem behindPrefix (h : env.Alike δ m env') {i : Nat}
    (hsees : m.Sees (env.tokens.behindPrefix i)) :
    env'.tokens.behindPrefix (i + δ) = env.tokens.behindPrefix i + δ :=
  h.prefixEnd none hsees

/-- The search for the next line that is not blank. -/
theorem nextLine (h : env.Alike δ m env') {i : Nat} (hsees : m.Sees (env.tokens.nextLine i)) :
    env'.tokens.nextLine (i + δ) = env.tokens.nextLine i + δ := by
  have hline : m.Sees (env.tokens.lineEnd i) := hsees.mono (env.tokens.le_firstFrom _ _)
  unfold TokenStream.nextLine
  rw [show env'.tokens.lineEnd (i + δ) = env.tokens.lineEnd i + δ from h.firstFrom _ hline]
  exact h.firstFrom _ hsees

/-- The search for the body of a routine. Where only a part of the tokens agrees, the closing line
of a type ends it. -/
theorem bodyFollows (h : env.Alike δ m env') (routine : Keyword) (seen : Bool) {i : Nat}
    (hend : ∀ bound stop, m = .upTo bound stop →
      ∃ e, i < e ∧ e + 1 < stop ∧ env.tokens.ClosesTypeAt e) :
    env'.tokens.bodyFollows routine seen (i + δ) = env.tokens.bodyFollows routine seen i := by
  -- The induction is on the tokens that are left: a round of the search goes on to the end of the
  -- next line.
  induction hleft : env.tokens.tokens.size - i using Nat.strongRecOn generalizing seen i with
  | _ left ih =>
  have hsees : m.Sees (i + 2) := by
    cases m with
    | whole => trivial
    | upTo bound stop =>
      obtain ⟨e, hie, hes, -⟩ := hend bound stop rfl
      exact Nat.lt_of_le_of_lt (Nat.succ_le_succ hie) hes
  have hsees₁ : m.Sees (i + 1) := hsees.mono (Nat.le_succ _)
  have hlt := h.lt_size_iff (hsees₁.mono (Nat.le_succ i))
  have hsecond : env'.tokens.kindAt (i + δ + 2) = env.tokens.kindAt (i + 2) := by
    rw [Nat.add_right_comm]
    exact h.kindAt _ hsees
  rw [TokenStream.bodyFollows.eq_def, TokenStream.bodyFollows.eq_def env.tokens]
  dsimp only
  rw [Nat.add_right_comm i δ 1, h.kindAt _ hsees₁, hsecond, h.startsMember hsees₁, h.lineEnd hsees₁,
    if_congr hlt rfl rfl]
  split
  · rename_i hi
    split
    · rfl
    · split
      · rfl
      · rename_i hcloses
        split
        · rfl
        · have hle := env.tokens.le_lineEnd (i + 1)
          refine ih _ (by omega) _ (fun bound stop hm => ?_) rfl
          obtain ⟨e, hie, hes, hcloser⟩ := hend bound stop hm
          -- The line behind is not the closing line of a type, or the search would have ended
          -- there.
          have hne : i + 1 ≠ e := by
            rintro rfl
            exact hcloses (Bool.and_eq_true_iff.2 ⟨beq_iff_eq.2 hcloser.closer, hcloser.word⟩)
          exact ⟨e, hcloser.lineEnd_lt (Nat.lt_of_le_of_ne hie hne), hes, hcloser⟩
  · rfl

end Env.Alike

end VisualBasic
