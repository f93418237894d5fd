import VisualBasic.Proofs.Prefixes

/-!
# Streams that differ in a terminator

Two streams of tokens that are the same but for one token, which is a line end in the one and a
colon in the other, or a terminator of any kind in either. What the grammar looks for treats the two
terminators alike, with few exceptions: a line end is skipped behind a comma and behind attributes,
and a colon is looked for behind a label, behind the name of an argument and behind the target of an
attribute.

* `TokenStream.Exchanged` — the two streams are the same but for a terminator.

Main results:

* `TokenStream.Exchanged.firstFrom`, `TokenStream.Exchanged.bodyFollows` — searches that treat the
  terminators alike.
* `TokenStream.Exchanged.behindPrefix` — the word behind attributes and modifiers, if it is in front
  of the terminator or behind it.
-/

namespace VisualBasic

-- ---------------------------------------------------------------------------
-- Streams
-- ---------------------------------------------------------------------------

/-- A kind of token that does not end a statement. -/
@[reducible] def TokenKind.isWithinLine : TokenKind → Bool
  | .newline | .mark .colon => false
  | _ => true

/-- What stands within a line is what is no terminator. -/
theorem TokenKind.isWithinLine_eq (kind : TokenKind) : kind.isWithinLine = !kind.isTerminator := by
  cases kind with
  | mark mark => cases mark <;> rfl
  | _ => rfl

namespace TokenStream

/-- The streams are the same but for the kind of the token at `k`, which is a terminator in both. -/
structure Exchanged (k : Nat) (t t' : TokenStream) : Prop where
  size : t'.tokens.size = t.tokens.size
  span : ∀ i, (t'.get i).span = (t.get i).span
  point : ∀ i, (t'.get i).point = (t.get i).point
  kindAt : ∀ i, i ≠ k → t'.kindAt i = t.kindAt i
  ends : (t.kindAt k).isTerminator = true
  ends' : (t'.kindAt k).isTerminator = true

namespace Exchanged

variable {k : Nat} {t t' : TokenStream}

theorem symm (h : Exchanged k t t') : Exchanged k t' t :=
  ⟨h.size.symm, fun i => (h.span i).symm, fun i => (h.point i).symm,
    fun i hi => (h.kindAt i hi).symm,
    h.ends', h.ends⟩

/-- The terminator is one of the tokens. -/
theorem lt_size (h : Exchanged k t t') : k < t.tokens.size :=
  lt_size_of_kindAt_ne (TokenKind.ne_endOfFile_of h.ends rfl)

/-- A token that is no terminator is another one. -/
theorem ne_of_not_terminator (h : Exchanged k t t') {i : Nat}
    (hi : (t.kindAt i).isTerminator = false) :
    i ≠ k := by
  rintro rfl
  rw [h.ends] at hi
  cases hi

/-- What does not tell the two terminators apart is the same of all tokens. -/
theorem alike {α : Type} (h : Exchanged k t t') (f : TokenKind → α)
    (hf : f .newline = f (.mark .colon)) (i : Nat) : f (t'.kindAt i) = f (t.kindAt i) := by
  by_cases hi : i = k
  · have heq {kind : TokenKind} (hkind : kind.isTerminator = true) : f kind = f .newline := by
      unfold TokenKind.isTerminator at hkind
      split at hkind
      · rfl
      · exact hf.symm
      · cases hkind
    rw [hi, heq h.ends, heq h.ends']
  · rw [h.kindAt i hi]

/-- Whether a token is of a kind that does not end a statement. -/
theorem beq_kindAt (h : Exchanged k t t') {kind : TokenKind}
    (hkind : kind.isWithinLine = true) (i : Nat) :
    (t'.kindAt i == kind) = (t.kindAt i == kind) := by
  refine h.alike (· == kind) ?_ i
  have hne {terminator : TokenKind} (hends : terminator.isTerminator = true) :
      (terminator == kind) = false := by
    refine Bool.eq_false_iff.2 fun heq => ?_
    rw [← beq_iff_eq.1 heq, TokenKind.isWithinLine_eq, hends] at hkind
    cases hkind
  rw [hne rfl, hne rfl]

/-- A kind that stands within lines is at the same places. -/
theorem kindAt_eq_iff (h : Exchanged k t t') {kind : TokenKind}
    (hkind : kind.isWithinLine = true) (i : Nat) :
    t'.kindAt i = kind ↔ t.kindAt i = kind := by
  have hsame : (t'.kindAt i == kind) = (t.kindAt i == kind) := h.beq_kindAt hkind i
  rw [← beq_iff_eq, hsame, beq_iff_eq]

-- ---------------------------------------------------------------------------
-- Searches
-- ---------------------------------------------------------------------------

variable {p : TokenKind → Bool}

/-- A search for what is no terminator, or for either of them, ends at the same place. -/
theorem firstFrom (h : Exchanged k t t') (hp : p .newline = p (.mark .colon)) (i : Nat) :
    t'.firstFrom p i = t.firstFrom p i := by
  fun_induction TokenStream.firstFrom t p i with
  | case1 i hi => rw [TokenStream.firstFrom, h.alike p hp, if_pos hi]
  | case2 i hi hlt ih => rw [TokenStream.firstFrom, h.alike p hp, if_neg hi, h.size, if_pos hlt, ih]
  | case3 i hi hlt => rw [TokenStream.firstFrom, h.alike p hp, if_neg hi, h.size, if_neg hlt]

/-- So does a search between two places. -/
theorem someIn (h : Exchanged k t t') (hp : p .newline = p (.mark .colon)) (i j : Nat) :
    t'.someIn p i j = t.someIn p i j := by
  unfold TokenStream.someIn
  rw [funext fun l => h.alike p hp l]

/-- Lines end at colons as well as at line ends. -/
theorem lineEnd (h : Exchanged k t t') (i : Nat) : t'.lineEnd i = t.lineEnd i := h.firstFrom rfl i

theorem nextLine (h : Exchanged k t t') (i : Nat) : t'.nextLine i = t.nextLine i := by
  unfold TokenStream.nextLine
  rw [h.lineEnd, h.firstFrom rfl]

/-- A line begins a member in both or in neither. -/
theorem startsMember (h : Exchanged k t t') (i : Nat) : t'.startsMember i = t.startsMember i := by
  unfold TokenStream.startsMember
  dsimp only
  rw [h.firstFrom rfl, h.beq_kindAt rfl, h.someIn rfl, h.alike TokenKind.opensMember rfl]

/-- The lines ahead tell the same of a body. -/
theorem bodyFollows (h : Exchanged k t t') (routine : Keyword) (seen : Bool) (i : Nat) :
    t'.bodyFollows routine seen i = t.bodyFollows routine seen i := by
  have hstep (seen : Bool) (i : Nat) : t'.bodyFollows routine seen i =
      if i < t.tokens.size then
        let atEnd := t.kindAt (i + 1) == .keyword .kwEnd
        if atEnd && t.kindAt (i + 2) == .keyword routine then true
        else if atEnd && closesType (t.kindAt (i + 2)) then seen
        else if !atEnd && t.startsMember (i + 1) then seen
        else t'.bodyFollows routine (seen || !(t.kindAt (i + 1)).endsLine) (t.lineEnd (i + 1))
      else true := by
    rw [TokenStream.bodyFollows, h.size, h.beq_kindAt rfl, h.beq_kindAt rfl,
      h.startsMember, h.lineEnd,
      h.alike closesType rfl, h.alike TokenKind.endsLine rfl]
  fun_induction TokenStream.bodyFollows t routine seen i with
  | case1 seen i hlt atEnd h₁ => rw [hstep, if_pos hlt, if_pos h₁]
  | case2 seen i hlt atEnd h₁ h₂ => rw [hstep, if_pos hlt, if_neg h₁, if_pos h₂]
  | case3 seen i hlt atEnd h₁ h₂ h₃ => rw [hstep, if_pos hlt, if_neg h₁, if_neg h₂, if_pos h₃]
  | case4 seen i hlt atEnd h₁ h₂ h₃ ih =>
    rw [hstep, if_pos hlt, if_neg h₁, if_neg h₂, if_neg h₃, ih]
  | case5 seen i hlt => rw [hstep, if_neg hlt]

/-- A search that does not get to the terminator does not depend on it. -/
theorem prefixEnd (h : Exchanged k t t') (parens : Option Nat) (i : Nat)
    (hk : ∀ j, i ≤ j → j ≤ t.prefixEnd parens i → j ≠ k) :
    t'.prefixEnd parens i = t.prefixEnd parens i := by
  have hle := t.le_prefixEnd parens i
  have hkind {i e j : Nat} (hk : ∀ j, i ≤ j → j ≤ e → j ≠ k) (hij : i ≤ j) (hje : j ≤ e) :
      t'.kindAt j = t.kindAt j := h.kindAt j (hk j hij hje)
  fun_induction TokenStream.prefixEnd t parens i with
  | case1 i hlt hi ih =>
    have hnext := t.le_prefixEnd (some 0) (i + 1)
    rw [prefixEnd_of_less ((hkind hk (Nat.le_refl i) hle).trans hi),
      ih (fun j hij => hk j (Nat.le_of_succ_le hij)) hnext]
  | case2 i hlt hi =>
    rw [prefixEnd_of_ne_less ((hkind hk (Nat.le_refl i) hle).trans_ne hi), h.firstFrom rfl]
  | case3 i hlt n hi ih =>
    have hnext := t.le_prefixEnd (some (n + 1)) (i + 1)
    rw [prefixEnd_of_leftParen ((hkind hk (Nat.le_refl i) hle).trans hi),
      ih (fun j hij => hk j (Nat.le_of_succ_le hij)) hnext]
  | case4 i hlt n hi ih =>
    have hnext := t.le_prefixEnd (some (n - 1)) (i + 1)
    rw [prefixEnd_of_rightParen ((hkind hk (Nat.le_refl i) hle).trans hi),
      ih (fun j hij => hk j (Nat.le_of_succ_le hij)) hnext]
  | case5 i hlt hi hnewline ih =>
    have hnext := t.le_prefixEnd none (i + 2)
    have hbehind : t'.kindAt (i + 1) = .newline :=
      (hkind hk (Nat.le_succ i) (Nat.le_of_succ_le hnext)).trans (beq_iff_eq.1 hnewline)
    rw [prefixEnd_of_greater ((hkind hk (Nat.le_refl i) hle).trans hi), if_pos hbehind,
      ih (fun j hij => hk j (Nat.le_trans (Nat.le_add_right i 2) hij)) hnext]
  | case6 i hlt hi hnewline ih =>
    have hnext := t.le_prefixEnd none (i + 1)
    have hbehind : t'.kindAt (i + 1) ≠ .newline :=
      (hkind hk (Nat.le_succ i) hnext).trans_ne fun h => hnewline (beq_iff_eq.2 h)
    rw [prefixEnd_of_greater ((hkind hk (Nat.le_refl i) hle).trans hi), if_neg hbehind,
      ih (fun j hij => hk j (Nat.le_of_succ_le hij)) hnext]
  | case7 i hlt n hi => rw [prefixEnd_of_newline (.inl ((hkind hk (Nat.le_refl i) hle).trans hi))]
  | case8 i hlt n hi => rw [prefixEnd_of_newline (.inr ((hkind hk (Nat.le_refl i) hle).trans hi))]
  | case9 i hlt n hleft hright hgreater hnewline hend ih =>
    have hnext := t.le_prefixEnd (some n) (i + 1)
    have hi := hkind hk (Nat.le_refl i) hle
    rw [prefixEnd_of_other (hi.trans_ne hleft) (hi.trans_ne hright)
      (fun h => hgreater (hi.symm.trans h)) (hi.trans_ne hnewline) (hi.trans_ne hend),
      ih (fun j hij => hk j (Nat.le_of_succ_le hij)) hnext]
  | case10 parens i hlt => rw [TokenStream.prefixEnd.eq_def, h.size, if_neg hlt]

/-- The word behind attributes and modifiers that end in front of the terminator, or begin behind
it. -/
theorem behindPrefix (h : Exchanged k t t') {i : Nat} (hk : t.behindPrefix i < k ∨ k < i) :
    t'.behindPrefix i = t.behindPrefix i := by
  refine h.prefixEnd none i fun j hij hj => ?_
  rcases hk with hk | hk
  · exact Nat.ne_of_lt (Nat.lt_of_le_of_lt hj hk)
  · exact Nat.ne_of_gt (Nat.lt_of_lt_of_le hk hij)

end Exchanged

end TokenStream

-- ---------------------------------------------------------------------------
-- What a production sees
-- ---------------------------------------------------------------------------

/-- The tokens are the same but for the terminator at `k`, and there is as much room in both. -/
structure Env.Exchanged (k : Nat) (env env' : Env) : Prop where
  tokens : env.tokens.Exchanged k env'.tokens
  limit : env'.limit = env.limit
  depth : env'.depth = env.depth

namespace Env.Exchanged

variable {k : Nat} {env env' : Env}

theorem symm (h : env.Exchanged k env') : env'.Exchanged k env :=
  ⟨h.tokens.symm, h.limit.symm, h.depth.symm⟩

/-- The levels of nesting do not matter. -/
theorem nested (h : env.Exchanged k env') :
    Env.Exchanged k { env with depth := env.depth + 1 } { env' with depth := env'.depth + 1 } :=
  ⟨h.tokens, h.limit, congrArg (· + 1) h.depth⟩

theorem room (h : env.Exchanged k env') : env'.room = env.room := by
  unfold Env.room
  rw [h.limit, h.depth]

theorem next (h : env.Exchanged k env') (cursor : Nat) : env'.next cursor = env.next cursor := by
  unfold Env.next
  rw [h.tokens.size]

/-- The spans of the tokens are the same. -/
theorem span (h : env.Exchanged k env') (first cursor : Nat) :
    env'.span first cursor = env.span first cursor := by
  unfold Env.span
  rw [h.tokens.span, h.tokens.span, h.tokens.span]

/-- Away from the terminator the next token is the same. -/
theorem kind (h : env.Exchanged k env') {s : State} (hs : s.cursor ≠ k) :
    env'.kind s = env.kind s :=
  h.tokens.kindAt _ hs

end Env.Exchanged

namespace Production

open State

variable {α β γ : Type}

/-- None of the kinds ends a statement. -/
class WithinLine (kinds : List TokenKind) : Prop where
  forall_mem : ∀ kind ∈ kinds, kind.isWithinLine = true

instance : WithinLine [] := ⟨nofun⟩

instance {kind : TokenKind} {kinds : List TokenKind} [hkind : Holds kind.isWithinLine]
    [hkinds : WithinLine kinds] : WithinLine (kind :: kinds) :=
  ⟨List.forall_mem_cons.2 ⟨hkind.eq_true, hkinds.forall_mem⟩⟩

/-- What the production sees does not depend on which terminator ends a statement. -/
class Blind (seen : Env → State → α) : Prop where
  same : ∀ {k : Nat} {env env' : Env}, env.Exchanged k env' → ∀ s, seen env' s = seen env s

namespace Blind

/-- A look for a kind that stands within lines. -/
instance isKind {kind : TokenKind} [hkind : Holds kind.isWithinLine] :
    Blind fun env s => env.kind s == kind :=
  ⟨fun h s => h.tokens.beq_kindAt hkind.eq_true s.cursor⟩

/-- A look for a row of such kinds. -/
instance hasAhead {kinds : List TokenKind} [hkinds : WithinLine kinds] :
    Blind fun env s => env.hasAhead s kinds := by
  refine ⟨fun h s => ?_⟩
  have hall := hkinds.forall_mem
  refine Bool.eq_iff_iff.2 ?_
  simp only [Env.hasAhead, List.all_eq_true, Prod.forall]
  refine forall_congr' fun kind => forall_congr' fun i => imp_congr_right fun hmem => ?_
  rw [Env.kindAhead, Env.kindAhead, h.tokens.beq_kindAt
    (hall kind (List.fst_mem_of_mem_zipIdx hmem))]

instance or {f g : Env → State → Bool} [hf : Blind f] [hg : Blind g] :
    Blind fun env s => f env s || g env s :=
  ⟨fun h s => by rw [hf.same h s, hg.same h s]⟩

instance line : Blind Env.line := ⟨fun h s => congrArg Point.line (h.tokens.point s.cursor)⟩

/-- Whether a statement may end. -/
instance atTerminator : Blind fun env s =>
    (env.kind s).endsLine || (env.kind s == .keyword .kwElse && 0 < s.singleLineIfs) := by
  refine ⟨fun h s => ?_⟩
  unfold Env.kind
  rw [h.tokens.alike TokenKind.endsLine rfl, h.tokens.beq_kindAt rfl]

/-- Whether a line ends the items is told by words. -/
instance atBoundary : Blind Env.atBoundary := by
  refine ⟨fun {k env env'} h s => ?_⟩
  have hahead : (env'.kindAhead s 1 == .mark .leftParen || (env'.kindAhead s 1).isTerminator) =
      (env.kindAhead s 1 == .mark .leftParen || (env.kindAhead s 1).isTerminator) := by
    unfold Env.kindAhead
    rw [h.tokens.beq_kindAt rfl, h.tokens.alike TokenKind.isTerminator rfl]
  have hmember : (s.inMemberBody && env'.tokens.startsMember s.cursor) =
      (s.inMemberBody && env.tokens.startsMember s.cursor) := by
    rw [h.tokens.startsMember]
  by_cases hs : s.cursor = k
  · have hends {env : Env} (hk : (env.tokens.kindAt k).isTerminator = true) :
        env.atBoundary s = (s.inMemberBody && env.tokens.startsMember s.cursor) := by
      rw [← hs] at hk
      unfold Env.atBoundary
      generalize hkind : env.kind s = kind
      rw [show env.tokens.kindAt s.cursor = kind from hkind] at hk
      cases kind with
      | mark | newline => rfl
      | _ => cases hk
    rw [hends h.tokens.ends, hends h.tokens.ends', hmember]
  · unfold Env.atBoundary
    rw [h.kind hs]
    split
    case h_2 =>
      exact h.tokens.alike (fun kind => match kind with
        | .keyword opener => opener.isClosedByEnd && s.isOpen opener
        | _ => false) rfl (s.cursor + 1)
    case h_12 | h_13 | h_14 => rw [hahead]
    case h_15 => exact hmember
    all_goals rfl

end Blind

end Production

end VisualBasic
