import VisualBasic.Proofs.DisregardGrammar

/-!
# Targets disregard terminators

Behind a name with a parenthesis it matters for a target whether an assignment follows the
parenthesis that closes it, and the search for it ends with the line, but not at a colon. The
closing parenthesis is read together with the part that it ends, so the search does not come to a
terminator with which the target ends.

Main results:

* `TokenStream.Encloses.of_spans` — a parenthesis is closed where a production closes it.
* `TokenStream.Exchanged.assignmentFollowsParens` — the search ends in front of the terminator.
* `Disregards.leftHandSide` — targets.
-/

namespace VisualBasic

namespace TokenStream

variable {t t' : TokenStream} {n i m j k : Nat}

-- ---------------------------------------------------------------------------
-- Where a parenthesis is closed
-- ---------------------------------------------------------------------------

/-- A walk on which `d` parentheses stay open, or that comes to where no more than those are
open. -/
theorem Walk.down (h : t.Walk n i m j) {d : Nat} (hd : d < n) :
    (∃ e, e ≤ j ∧ t.Walk (n - d) i 0 e) ∨ d < m ∧ t.Walk (n - d) i (m - d) j := by
  induction h with
  | stay => exact .inr ⟨hd, .stay⟩
  | @pass n i m j hi _ ih =>
    rw [Nat.succ_sub (Nat.le_of_lt_succ hd)] at ih ⊢
    rcases ih hd with ⟨e, he, h⟩ | ⟨hm, h⟩
    · exact .inl ⟨e, he, .pass hi h⟩
    · exact .inr ⟨hm, .pass hi h⟩
  | @«open» n i m j hi _ ih =>
    rw [Nat.succ_sub (Nat.le_of_lt_succ hd)]
    have ih' := ih (Nat.lt_succ_of_lt hd)
    rw [show n + 2 - d = n - d + 2 by omega] at ih'
    rcases ih' with ⟨e, he, h⟩ | ⟨hm, h⟩
    · exact .inl ⟨e, he, .open hi h⟩
    · exact .inr ⟨hm, .open hi h⟩
  | @close n i m j hi h ih =>
    rw [Nat.succ_sub (Nat.le_of_lt_succ hd)]
    by_cases hn : d < n
    · rcases ih hn with ⟨e, he, h⟩ | ⟨hm, h⟩
      · exact .inl ⟨e, he, .close hi h⟩
      · exact .inr ⟨hm, .close hi h⟩
    · rw [show n - d = 0 by omega]
      exact .inl ⟨i + 1, h.le, .close hi .stay⟩

/-- Where a production closes the parentheses that it opens, the first of them is closed. -/
theorem Encloses.of_spans (hi : t.kindAt i = .mark .leftParen) (h : t.Spans 1 i 1 j) (hij : i < j) :
    ∃ e, e ≤ j ∧ t.Encloses i e := by
  have hopen {m l : Nat} (hwalk : t.Walk 1 i m l) (hne : i ≠ l) : t.Walk 2 (i + 1) m l := by
    cases hwalk with
    | stay => exact absurd rfl hne
    | pass hkinds _ => exact absurd hi hkinds.1
    | «open» _ hwalk => exact hwalk
    | close hkind _ => cases hi.symm.trans hkind
  rcases h with hwalk | ⟨k, l, hkj, hk, hwalk⟩
  · rcases (hopen hwalk (Nat.ne_of_lt hij)).down (Nat.lt_succ_self 1) with ⟨e, he, h⟩ | ⟨h, -⟩
    · exact ⟨e, he, hi, .inl h⟩
    · exact absurd h (Nat.lt_irrefl 1)
  · have hne : i ≠ k := by
      rintro rfl
      cases hi.symm.trans hk
    rcases (hopen hwalk hne).down (Nat.lt_succ_self 1) with ⟨e, he, h⟩ | ⟨hl, h⟩
    · exact ⟨e, Nat.le_trans he (Nat.le_of_lt hkj), hi, .inl h⟩
    · rw [show l + 1 - 1 = l - 1 + 1 by omega] at h
      exact ⟨j, Nat.le_refl j, hi, .inr ⟨k, l - 1, hkj, hk, h⟩⟩

-- ---------------------------------------------------------------------------
-- The search behind parentheses
-- ---------------------------------------------------------------------------

namespace Exchanged

theorem walk (h : t.Exchanged k t') (hwalk : t.Walk n i m j) (hj : j ≤ k) : t'.Walk n i m j := by
  have hkind {i : Nat} (hi : i + 1 ≤ j) : t'.kindAt i = t.kindAt i :=
    h.kindAt i (Nat.ne_of_lt (Nat.lt_of_lt_of_le hi hj))
  induction hwalk with
  | stay => exact .stay
  | pass hi hwalk ih =>
    refine .pass ?_ (ih hj hkind)
    rwa [hkind hwalk.le]
  | «open» hi hwalk ih => exact .open ((hkind hwalk.le).trans hi) (ih hj hkind)
  | close hi hwalk ih => exact .close ((hkind hwalk.le).trans hi) (ih hj hkind)

/-- A search for an assignment behind a parenthesis that is closed in front of the terminator. -/
theorem assignmentFollowsParens (h : t.Exchanged k t') (hi : t.Encloses i j) (hj : j ≤ k) :
    t'.assignmentFollowsParens 0 i = t.assignmentFollowsParens 0 i := by
  have hparen (t : TokenStream) (hkind : t.kindAt i = .mark .leftParen) :
      t.assignmentFollowsParens 0 i = t.assignmentFollowsParens 1 (i + 1) := by
    rw [Production.Phrase.assignmentFollowsParens_eq, hkind]
  have hle : i < k := by
    rcases hi.spans with hwalk | ⟨l, _, hl, -, hwalk⟩
    · exact Nat.lt_of_lt_of_le hwalk.le hj
    · exact Nat.lt_of_lt_of_le hwalk.le (Nat.le_trans (Nat.le_of_lt hl) hj)
  rw [hparen t hi.opens, hparen t' ((h.kindAt i (Nat.ne_of_lt hle)).trans hi.opens)]
  rcases hi.spans with hwalk | ⟨l, _, hl, hnewline, hwalk⟩
  · rw [hwalk.assignmentFollowsParens, (h.walk hwalk hj).assignmentFollowsParens]
    exact h.alike TokenKind.isAssignment rfl j
  · have hlk : l < k := Nat.lt_of_lt_of_le hl hj
    rw [hwalk.assignmentFollowsParens_of_newline hnewline,
      (h.walk hwalk (Nat.le_of_lt hlk)).assignmentFollowsParens_of_newline
        ((h.kindAt l (Nat.ne_of_lt hlk)).trans hnewline)]

/-- The search does not go back. -/
theorem assignmentFollowsParens_of_lt (h : t.Exchanged k t') (nesting : Nat) (hi : k < i) :
    t'.assignmentFollowsParens nesting i = t.assignmentFollowsParens nesting i := by
  have hkind := h.kindAt i (Nat.ne_of_gt hi)
  fun_induction TokenStream.assignmentFollowsParens t nesting i with
  | case1 nesting i hlt hparen ih =>
    rw [Production.Phrase.assignmentFollowsParens_eq, hkind, hparen]
    exact ih (Nat.lt_succ_of_lt hi) (h.kindAt _ (by omega))
  | case2 nesting i hlt hparen hle =>
    rw [Production.Phrase.assignmentFollowsParens_eq, hkind, hparen, h.kindAt _ (by omega)]
    exact if_pos hle
  | case3 nesting i hlt hparen hle ih =>
    rw [Production.Phrase.assignmentFollowsParens_eq, hkind, hparen]
    exact (if_neg hle).trans (ih (Nat.lt_succ_of_lt hi) (h.kindAt _ (by omega)))
  | case4 nesting i hlt hend =>
    rw [Production.Phrase.assignmentFollowsParens_eq, hkind, hend]
  | case5 nesting i hlt hend =>
    rw [Production.Phrase.assignmentFollowsParens_eq, hkind, hend]
  | case6 nesting i hlt hleft hright hnewline hend ih =>
    rw [Production.Phrase.assignmentFollowsParens_eq, hkind,
      ← ih (Nat.lt_succ_of_lt hi) (h.kindAt _ (by omega))]
    split
    · exact absurd ‹_› hleft
    · exact absurd ‹_› hright
    · exact absurd ‹_› hnewline
    · exact absurd ‹_› hend
    · rfl
  | case7 nesting i hlt =>
    rw [TokenStream.assignmentFollowsParens, h.size, if_neg hlt]

end Exchanged

end TokenStream

namespace Production

open State

variable {through off : Bool}

-- ---------------------------------------------------------------------------
-- Targets
-- ---------------------------------------------------------------------------

/-- The next part of a target, if it is settled what a parenthesis opens. -/
def settledStep (indexed : Bool) (inner : Node) : Parse (Option Node) := do
  match ← peek with
  | .mark .dot => some <$> memberAccess inner
  | .mark .leftParen =>
    if indexed then some <$> elementAccessOf expression inner
        else some <$> callOrIndexOf expression inner
  | _ => return none

theorem settledStep_of_leftParen {env : Env} {s : State} (h : env.kind s = .mark .leftParen)
    (indexed : Bool)
    (inner : Node) : settledStep indexed inner env s =
      (if indexed then some <$> elementAccessOf expression inner
        else some <$> callOrIndexOf expression inner) env s := by
  unfold settledStep
  rw [Looks.peek.run_bind, h]

/-- It matters only at a parenthesis. -/
theorem settledStep_congr {env : Env} {s : State} (h : env.kind s ≠ .mark .leftParen) (b b' : Bool)
    (inner : Node) : settledStep b inner env s = settledStep b' inner env s := by
  unfold settledStep
  rw [Looks.peek.run_bind, Looks.peek.run_bind]
  generalize env.kind s = kind at h
  cases kind with
  | mark mark => cases mark <;> first | rfl | exact absurd rfl h
  | _ => rfl

theorem targetStep_eq_settled (inner : Node) (env : Env) (s : State) : targetStep inner env s =
    settledStep (env.tokens.assignmentFollowsParens 0 s.cursor) inner env s := by
  unfold targetStep settledStep
  rw [Looks.peek.run_bind, Looks.peek.run_bind]
  generalize env.kind s = kind
  cases kind with
  | mark mark => cases mark <;> rfl
  | _ => rfl

/-- A parenthesis that opens a part of a target is closed in that part. -/
theorem encloses_of_settledStep {env : Env} {s s' : State} {b : Bool} {inner : Node}
    {z : Option Node}
    (hs : s.cursor ≤ env.tokens.tokens.size) (hparen : env.kind s = .mark .leftParen)
    (hrun : settledStep b inner env s = .ok z s') :
    env.tokens.Inside s'.cursor ∧ ∃ e, e ≤ s'.cursor ∧ env.tokens.Encloses s.cursor e := by
  have hbare : inner.Alike 0 (inner.bare 0) := (inner.bare_bare 0).symm
  have hpart {p p' : Parse Node} (hp : Phrase 0 false {} false true (Node.Alike 0) p p')
      (hprogress : Progresses (fun _ => True) p) (hrun : (some <$> p) env s = .ok z s') :
      env.tokens.Inside s'.cursor ∧ ∃ e, e ≤ s'.cursor ∧ env.tokens.Encloses s.cursor e := by
    rw [map_eq_pure_bind] at hrun
    obtain ⟨x, s₁, hrun, hpure⟩ := bind_eq_ok hrun
    cases hpure
    have hready : env.tokens.Ready s.cursor 1 := .of_kindAt_ne fun hend => by
      cases hend.symm.trans hparen
    have hholds : Spot.Holds {} env s := ⟨nofun, trivial⟩
    exact ⟨hp.inside hholds hrun rfl, TokenStream.Encloses.of_spans hparen
      (hp.balanced hs hholds hrun 0)
      (hprogress env s x s' hready hrun trivial)⟩
  rw [settledStep_of_leftParen hparen] at hrun
  split at hrun
  · exact hpart (.elementAccessOf .expression hbare)
      (Phrase.progresses_elementAccessOf Builds.expression inner) hrun
  · exact hpart (.callOrIndexOf .expression Builds.expression hbare)
      (Phrase.progresses_callOrIndexOf Builds.expression inner) hrun

namespace Disregards

instance settledStep {b : Bool} {inner : Node} :
    Disregards through off (Production.settledStep b inner) := by
  have hcall : Disregards through true (Production.callOrIndexOf Production.expression inner) :=
    callOrIndexOf Builds.expression inner
  refine peek rfl pure fun kind _ => ?_
  split <;> infer_instance

instance targetStep {inner : Node} : Disregards through off (Production.targetStep inner) := by
  refine ⟨fun {env s z s'} hs hrun => ?_, fun {k env env' s z s'} henv hs hrun hoff hbeyond => ?_⟩
  · rw [targetStep_eq_settled] at hrun
    have hstep (b : Bool) : Disregards through off (Production.settledStep b inner) := settledStep
    exact (hstep _).gone hs hrun
  · rw [targetStep_eq_settled] at hrun ⊢
    have hsame := settledStep.same henv hs hrun hoff hbeyond
    by_cases hparen : env'.kind s = .mark .leftParen
    · have hkind : env.kind s = .mark .leftParen :=
        beq_iff_eq.1 (((henv.symm.tokens.beq_kindAt rfl s.cursor)).trans (beq_iff_eq.2 hparen))
      obtain ⟨hinside, e, he, hencloses⟩ := encloses_of_settledStep hs hkind hrun
      have hfollows : env'.tokens.assignmentFollowsParens 0 s.cursor =
          env.tokens.assignmentFollowsParens 0 s.cursor := by
        have hfront (hle : s'.cursor ≤ k) :=
          henv.tokens.assignmentFollowsParens hencloses (Nat.le_trans he hle)
        obtain h | h | ⟨-, h⟩ := hbeyond
        · exact henv.tokens.assignmentFollowsParens_of_lt 0 h
        · exact hfront (Nat.le_of_lt h)
        · -- What closes the parenthesis is no terminator.
          have hne : s'.cursor ≠ k + 1 := by
            intro heq
            have hlast := hinside.2
            rw [heq, Nat.add_sub_cancel, henv.tokens.ends] at hlast
            cases hlast
          exact hfront (by omega)
      rw [hfollows]
      exact hsame
    · rw [settledStep_congr hparen]
      exact hsame

instance leftHandSide : Disregards through off Production.leftHandSide := by
  have hhead : Disregards through false Production.targetHead := by
    refine peek rfl fail fun kind _ => ?_
    split <;> infer_instance
  rw [leftHandSide_eq]
  exact checkDepth.bind fun _ => inferInstance

end Disregards

end Production

end VisualBasic
