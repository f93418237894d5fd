import VisualBasic.Proofs.Elements

/-!
# The word behind attributes and modifiers

Which declaration begins at a place is told by the word behind its attributes and modifiers, and a
search finds this word before any of them is parsed. The search counts parentheses and gives up at
the end of a line within attributes; arguments may go on there, behind a comma or in braces. That is
the only way in which the search and the parser come apart: the search does not get over a line end
within parentheses, and nothing else keeps it from the place where the parser gets to.

Main results:

* `TokenStream.prefixEnd_le_of_endsInParens` — a line end within parentheses ends the search.
* `Production.behindPrefix_decided` — where the search ends if the attributes and modifiers parse.
* `Production.exists_wordMissed` — attributes over two lines hide the declaration behind them.
-/

namespace VisualBasic

-- ---------------------------------------------------------------------------
-- Line ends within parentheses
-- ---------------------------------------------------------------------------

namespace TokenStream

variable {t : TokenStream} {n i m j k l : Nat}

/-- A walk with more parentheses open around it. -/
theorem Walk.within (h : t.Walk n i m j) (d : Nat) : t.Walk (n + d) i (m + d) j := by
  induction h with
  | stay => exact .stay
  | @pass n i m j hi _ ih =>
    rw [Nat.add_right_comm] at ih ⊢
    exact .pass hi ih
  | @«open» n i m j hi _ ih =>
    rw [Nat.add_right_comm] at ih ⊢
    exact .open hi ih
  | @close n i m j hi _ ih =>
    rw [Nat.add_right_comm]
    exact .close hi ih

theorem EndsInParens.le (h : t.EndsInParens i k) : i ≤ k := by
  obtain ⟨-, a, l, hia, -, hwalk⟩ := h
  exact Nat.le_trans hia (Nat.le_of_succ_le hwalk.le)

/-- Where no parenthesis opens, the parenthesis around the line end opens later. -/
theorem EndsInParens.succ (h : t.EndsInParens i k) (hi : t.kindAt i ≠ .mark .leftParen) :
    t.EndsInParens (i + 1) k := by
  obtain ⟨hnewline, a, l, hia, hparen, hwalk⟩ := h
  have hne : a ≠ i := by
    rintro rfl
    exact hi hparen
  exact ⟨hnewline, a, l, by omega, hparen, hwalk⟩

/-- A line that ends within parentheses ends the search, or it ends before. -/
theorem prefixEnd_le_of_endsInParens {parens : Option Nat} (h : t.EndsInParens i k) :
    t.prefixEnd parens i ≤ k := by
  fun_induction TokenStream.prefixEnd t parens i with
  | case1 i hlt hi ih => exact ih (h.succ (ne_of_eq_of_ne hi (by decide)))
  | case2 i hlt hi =>
    -- The parenthesis is no modifier.
    obtain ⟨-, a, l, hia, hparen, hwalk⟩ := h
    have hle : t.firstFrom (!·.isModifier) i ≤ a := firstFrom_le hia (by rw [hparen]; rfl)
    exact Nat.le_trans hle (Nat.le_of_succ_le hwalk.le)
  | case3 i hlt n hi ih =>
    obtain ⟨hnewline, a, l, hia, hparen, hwalk⟩ := h
    rcases Nat.lt_or_eq_of_le hia with hia | rfl
    · exact ih ⟨hnewline, a, l, hia, hparen, hwalk⟩
    · have hwithin := hwalk.within n
      rw [Nat.add_comm 1 n] at hwithin
      exact Nat.le_of_eq (hwithin.prefixEnd_eq.trans (prefixEnd_of_newline (.inl hnewline)))
  | case4 i hlt n hi ih => exact ih (h.succ (ne_of_eq_of_ne hi (by decide)))
  | case5 i hlt hi hnewline ih =>
    have hbehind : t.kindAt (i + 1) = .newline := beq_iff_eq.1 hnewline
    exact ih ((h.succ (ne_of_eq_of_ne hi (by decide))).succ (ne_of_eq_of_ne hbehind (by decide)))
  | case6 i hlt hi hnewline ih => exact ih (h.succ (ne_of_eq_of_ne hi (by decide)))
  | case7 | case8 | case10 => exact h.le
  | case9 i hlt n hleft hright hgreater hnewline hend ih => exact ih (h.succ hleft)

end TokenStream

-- ---------------------------------------------------------------------------
-- The search and the parser
-- ---------------------------------------------------------------------------

namespace Production

variable {env : Env} {s s' : State}

/-- Behind the end of the text there is nothing to read. -/
theorem declarationPrefix_of_size_lt (hs : env.tokens.tokens.size < s.cursor) :
    declarationPrefix env s = .ok () s := by
  have hend : env.tokens.kindAt s.cursor = .endOfFile :=
    TokenStream.kindAt_of_size_le (Nat.le_of_lt hs)
  have hround : attributeLine env s = .ok false s := by
    unfold attributeLine atKind
    rw [(Looks.test _).run_bind, if_neg]
    · rfl
    · rw [Env.kind, hend]
      exact Bool.noConfusion
  unfold declarationPrefix
  rw [run_bind, repeatWhile_of_false hround]
  dsimp only
  rw [Looks.peek.run_bind, Env.kind, hend]
  rfl

/-- Where the attributes and modifiers parse, the search for the word behind them ends where the
parser does exactly if no line ends within parentheses among them; what is seen ahead is then the
token that the parser gets to. Otherwise the search ends at such a line end. -/
theorem behindPrefix_decided (hrun : declarationPrefix env s = .ok () s') :
    (env.tokens.behindPrefix s.cursor = s'.cursor ↔
        ¬∃ k < s'.cursor, env.tokens.EndsInParens s.cursor k) ∧
      ((¬∃ k < s'.cursor, env.tokens.EndsInParens s.cursor k) →
        peekBehindPrefix env s = .ok (env.kind s') s) ∧
      ((∃ k < s'.cursor, env.tokens.EndsInParens s.cursor k) →
        env.tokens.behindPrefix s.cursor < s'.cursor ∧
          env.tokens.EndsInParens s.cursor (env.tokens.behindPrefix s.cursor)) := by
  have hstops : ∀ k, env.tokens.EndsInParens s.cursor k → env.tokens.behindPrefix s.cursor ≤ k :=
    fun k hk => TokenStream.prefixEnd_le_of_endsInParens hk
  have hcases : (env.tokens.EndsInParens s.cursor (env.tokens.behindPrefix s.cursor) ∧
      env.tokens.behindPrefix s.cursor < s'.cursor) ∨ env.tokens.behindPrefix s.cursor =
        s'.cursor := by
    rcases Nat.lt_or_ge env.tokens.tokens.size s.cursor with hs | hs
    · rw [declarationPrefix_of_size_lt hs] at hrun
      cases hrun
      refine .inr ?_
      rw [TokenStream.behindPrefix, TokenStream.prefixEnd.eq_def, if_neg (by omega)]
    · exact endsInParens_or_behindPrefix_eq hs hrun
  rcases hcases with ⟨hends, hlt⟩ | heq
  · have hexists : ∃ k < s'.cursor, env.tokens.EndsInParens s.cursor k := ⟨_, hlt, hends⟩
    refine ⟨iff_of_false (Nat.ne_of_lt hlt) fun hnone => hnone hexists,
      fun hnone => ?_, fun _ => ?_⟩
    · exact absurd hexists hnone
    · exact ⟨hlt, hends⟩
  · have hnone : ¬∃ k < s'.cursor, env.tokens.EndsInParens s.cursor k := by
      rintro ⟨k, hk, hends⟩
      have := hstops k hends
      omega
    refine ⟨iff_of_true heq hnone, fun _ => ?_, fun hexists => absurd hexists hnone⟩
    rw [peekBehindPrefix, heq]
    rfl

/-- A text as the surroundings of a production. -/
def surroundings (text : String) : Env :=
  { source := text.toList, tokens := .ofText text.toList, limit := 16 }

/-- Attributes with a comparison in parentheses, and with braces in an argument, each on a line of
its own. -/
def attributeLines : Env :=
  surroundings "<A((1 > 2))>\n<B(x:=New T With \x7b.P = f(1)\x7d), C>\nPublic Shared Sub F()"

/-- Nothing of this keeps the search from the word `Sub`. -/
theorem behindPrefix_decided_attributeLines : ∃ s',
    declarationPrefix attributeLines ({} : State) = .ok () s' ∧
    attributeLines.kind s' = .keyword .kwSub ∧
      (attributeLines.tokens.behindPrefix 0 = s'.cursor ↔
        ¬∃ k < s'.cursor, attributeLines.tokens.EndsInParens 0 k) := by
  have hword : succeedsWith (fun _ s' => attributeLines.kind s' == .keyword .kwSub)
      (declarationPrefix attributeLines ({} : State)) = true := by
    decide +kernel
  obtain ⟨_, s', hrun, hword⟩ := exists_of_succeedsWith hword
  exact ⟨s', hrun, beq_iff_eq.1 hword, (behindPrefix_decided hrun).1⟩

/-- A method in a class, with attributes whose second argument stands behind the given text. -/
def attributedMethod (text : String) : String :=
  "Class C\n<A(1," ++ text ++ "2)>\nSub F()\nEnd Sub\nEnd Class\n"

/-- Attributes over two lines parse, but the search ends within them, and the method behind them is
not found. -/
theorem exists_wordMissed :
    (∃ s',
      declarationPrefix (surroundings (attributedMethod " \n"))
      ({ cursor := 3 } : State) = .ok () s' ∧
      (surroundings (attributedMethod " \n")).tokens.behindPrefix 3 ≠ s'.cursor) ∧
    (Tree.parse (attributedMethod " \n").toList).hasError = true ∧
    (Tree.parse (attributedMethod " ").toList).hasError = false := by
  refine ⟨?_, by decide +kernel, by decide +kernel⟩
  have hmissed : succeedsWith
      (fun _ s' => (surroundings (attributedMethod " \n")).tokens.behindPrefix 3 != s'.cursor)
      (declarationPrefix (surroundings (attributedMethod " \n")) ({ cursor := 3 } : State)) =
      true := by
    decide +kernel
  obtain ⟨_, s', hrun, hmissed⟩ := exists_of_succeedsWith hmissed
  exact ⟨s', hrun, bne_iff_ne.1 hmissed⟩

end Production

end VisualBasic
