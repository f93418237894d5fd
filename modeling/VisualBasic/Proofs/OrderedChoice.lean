import VisualBasic.Proofs.Speculation

/-!
# Ordered choice

How an ambiguity is settled. Its rules are tried in order, in one state that goes back to the
checkpoint in front of them whenever a rule has failed; whether the next rule can apply is asked of
the state that is then there. As every production of the grammar can be undone, this comes to the
same as if each rule ran for itself in the state that was there first: the first one that can apply
and succeeds is chosen, and if there is none, the failure is reported that got furthest.

Main results:

* `firstFitInPlace_eq` — going back makes the rules independent of one another.
* `Settles.iff_firstFit` — the choice that is made is the one that the rules by themselves
  determine.
* `resolve_ordered` — so an ambiguity is settled by ordered choice with the furthest failure.
-/

namespace VisualBasic

namespace Production

open State

-- ---------------------------------------------------------------------------
-- Rules that are tried in one state
-- ---------------------------------------------------------------------------

/-- The first of the rules that can apply and fits, all of them tried in one state, which goes back
to a checkpoint behind each failure. -/
def firstFitInPlace (a : Ambiguity) (c : Checkpoint) (best : Option Failure) :
    List Alternative → Parse Node
  | [], _, s => .error (best.getD ⟨s.cursor, .unexpected (.ruleOf a)⟩) s
  | x :: rest, env, s =>
    if x.viable env s then
      match x.production env s with
      | .ok n s' => .ok n s'
      | .error f s' =>
        firstFitInPlace a c (some (best.elim f (·.furthest f))) rest env (s'.restore c)
    else firstFitInPlace a c best rest env s

/-- Settles an ambiguity with a checkpoint in front of its rules. -/
def resolveInPlace (a : Ambiguity) (alternatives : List Alternative) : Parse Node := do
  checkDepth
  fun env s => firstFitInPlace a s.checkpoint none alternatives env s

/-- The rules do not depend on what was tried before them. -/
theorem firstFitInPlace_eq (a : Ambiguity) {alternatives : List Alternative}
    (h : ∀ x ∈ alternatives, OfGrammar x.production) (best : Option Failure)
    (env : Env) (s : State) :
    firstFitInPlace a s.checkpoint best alternatives env s =
      firstFit a best alternatives env s := by
  induction alternatives generalizing best with
  | nil => rfl
  | cons x rest ih =>
    obtain ⟨hx, hrest⟩ := List.forall_mem_cons.1 h
    rw [firstFitInPlace, Parse.firstFit_cons_eq]
    split
    · cases hrun : x.production env s with
      | ok n s' => rfl
      | error f s' =>
        dsimp only
        rw [hx.rewinds.undone hrun, ih hrest]
    · exact ih hrest best

theorem resolveInPlace_eq (a : Ambiguity) {alternatives : List Alternative}
    (h : ∀ x ∈ alternatives, OfGrammar x.production) :
    resolveInPlace a alternatives = resolve a alternatives := by
  unfold resolveInPlace resolve
  congr 1
  funext _ env s
  exact firstFitInPlace_eq a h none env s

-- ---------------------------------------------------------------------------
-- The choice that the rules determine
-- ---------------------------------------------------------------------------

/-- Run from the state, the rule can apply and succeeds. -/
structure Succeeds (x : Alternative) (env : Env) (s : State) (n : Node) (s' : State) : Prop where
  viable : x.viable env s = true
  run : x.production env s = .ok n s'

/-- Run from the state, the rule can apply and fails. -/
structure FailsWith (x : Alternative) (env : Env) (s : State) (f : Failure) : Prop where
  viable : x.viable env s = true
  run : ∃ s', x.production env s = .error f s'

/-- What becomes of an ambiguity in a state, told by what each of its rules comes to when it runs
from that very state. -/
inductive Settles (a : Ambiguity) (alternatives : List Alternative) (env : Env) (s : State) :
    EStateM.Result Failure State Node → Prop
  /-- The first rule that succeeds is chosen. -/
  | chosen {before after : List Alternative} {x : Alternative} {n : Node} {s' : State}
      (hsplit : alternatives = before ++ x :: after)
      (hbefore : ∀ y ∈ before, ∀ m t, ¬Succeeds y env s m t) (hx : Succeeds x env s n s') :
      Settles a alternatives env s (.ok n s')
  /-- No rule succeeds; of the failures that got furthest, the first is kept. -/
  | furthest {before after : List Alternative} {x : Alternative} {f : Failure}
      (hnone : ∀ y ∈ alternatives, ∀ m t, ¬Succeeds y env s m t)
      (hsplit : alternatives = before ++ x :: after) (hx : FailsWith x env s f)
      (hbefore : ∀ y ∈ before, ∀ g, FailsWith y env s g → g.index < f.index)
      (hafter : ∀ y ∈ after, ∀ g, FailsWith y env s g → g.index ≤ f.index) :
      Settles a alternatives env s (.error f s)
  /-- No rule can apply. -/
  | inapplicable (hnone : ∀ y ∈ alternatives, y.viable env s = false) :
      Settles a alternatives env s (.error ⟨s.cursor, .unexpected (.ruleOf a)⟩ s)

section

variable {a : Ambiguity} {x : Alternative} {xs rest : List Alternative} {env : Env} {s s' : State}
  {n : Node} {f : Failure} {best : Option Failure}

/-- A rule that can apply either succeeds or fails. -/
theorem succeeds_or_failsWith (h : x.viable env s = true) :
    (∃ n s', Succeeds x env s n s') ∨ ∃ f, FailsWith x env s f := by
  cases hrun : x.production env s with
  | ok n s' => exact .inl ⟨n, s', h, hrun⟩
  | error f s' => exact .inr ⟨f, h, s', hrun⟩

theorem FailsWith.unique {g : Failure} (hg : FailsWith x env s g) (hf : FailsWith x env s f) :
    g = f := by
  obtain ⟨t, hrun⟩ := hf.run
  obtain ⟨t', hrun'⟩ := hg.run
  rw [hrun] at hrun'
  cases hrun'
  rfl

/-- The best failure when a rule has been tried in vain. -/
def bestBehind (env : Env) (s : State) (best : Option Failure) (x : Alternative) : Option Failure :=
  if x.viable env s then
    match x.production env s with
    | .ok _ _ => best
    | .error f _ => some (best.elim f (·.furthest f))
  else best

theorem bestBehind_of_failsWith (h : FailsWith x env s f) :
    bestBehind env s best x = some (best.elim f (·.furthest f)) := by
  obtain ⟨s', hrun⟩ := h.run
  rw [bestBehind, if_pos h.viable, hrun]

theorem bestBehind_of_not_viable (h : ¬x.viable env s = true) : bestBehind env s best x = best := by
  rw [bestBehind, if_neg h]

/-- Rules that do not succeed leave their best failure to those behind them. -/
theorem firstFit_append (h : ∀ y ∈ xs, ∀ m t, ¬Succeeds y env s m t) (best : Option Failure) :
    firstFit a best (xs ++ rest) env s =
      firstFit a (xs.foldl (bestBehind env s) best) rest env s := by
  induction xs generalizing best with
  | nil => rfl
  | cons y ys ih =>
    obtain ⟨hy, hys⟩ := List.forall_mem_cons.1 h
    rw [List.cons_append, Parse.firstFit_cons_eq, List.foldl_cons, ← ih hys]
    by_cases hviable : y.viable env s = true
    · obtain ⟨m, t, hok⟩ | ⟨f, hf⟩ := succeeds_or_failsWith hviable
      · exact absurd hok (hy m t)
      · obtain ⟨t, hrun⟩ := hf.run
        rw [if_pos hviable, hrun, bestBehind_of_failsWith hf]
    · rw [if_neg hviable, bestBehind_of_not_viable hviable]

/-- What holds of all failures so far holds of the best one. -/
theorem forall_mem_foldl_bestBehind {p : Failure → Prop} (hbest : ∀ g ∈ best, p g)
    (h : ∀ y ∈ xs, ∀ g, FailsWith y env s g → p g) :
    ∀ g ∈ xs.foldl (bestBehind env s) best, p g := by
  induction xs generalizing best with
  | nil => exact hbest
  | cons y ys ih =>
    obtain ⟨hy, hys⟩ := List.forall_mem_cons.1 h
    refine ih (fun g hg => ?_) hys
    unfold bestBehind at hg
    split at hg
    case isFalse => exact hbest g hg
    case isTrue hviable =>
      split at hg
      · exact hbest g hg
      · next f t hrun =>
        -- The better one is the failure of this rule, or it was the best one before.
        have hf : p f := hy f ⟨hviable, t, hrun⟩
        obtain rfl := Option.some.inj hg
        cases best with
        | none => exact hf
        | some b =>
          show p (b.furthest f)
          unfold Failure.furthest
          split
          · exact hf
          · exact hbest b rfl

/-- A failure is kept against those that get no further. -/
theorem foldl_bestBehind_some (h : ∀ y ∈ xs, ∀ g, FailsWith y env s g → g.index ≤ f.index) :
    xs.foldl (bestBehind env s) (some f) = some f := by
  induction xs with
  | nil => rfl
  | cons y ys ih =>
    obtain ⟨hy, hys⟩ := List.forall_mem_cons.1 h
    have hkept : bestBehind env s (some f) y = some f := by
      unfold bestBehind
      split
      · next hviable =>
        split
        · rfl
        · next g t hrun =>
          have hle : ¬f.index < g.index := Nat.not_lt.2 (hy g ⟨hviable, t, hrun⟩)
          show some (f.furthest g) = some f
          rw [Failure.furthest, if_neg hle]
      · rfl
    rw [List.foldl_cons, hkept, ih hys]

/-- The failure that is kept against all others. -/
theorem foldl_bestBehind_of_furthest {ys : List Alternative} (hx : FailsWith x env s f)
    (hbefore : ∀ y ∈ xs, ∀ g, FailsWith y env s g → g.index < f.index)
    (hafter : ∀ y ∈ ys, ∀ g, FailsWith y env s g → g.index ≤ f.index) :
    (xs ++ x :: ys).foldl (bestBehind env s) none = some f := by
  have hless : ∀ g ∈ xs.foldl (bestBehind env s) none, g.index < f.index :=
    forall_mem_foldl_bestBehind (fun g hg => absurd hg (Option.not_mem_none g)) hbefore
  have hx' : bestBehind env s (xs.foldl (bestBehind env s) none) x = some f := by
    rw [bestBehind_of_failsWith hx]
    cases hbest : xs.foldl (bestBehind env s) none with
    | none => rfl
    | some g =>
      show some (g.furthest f) = some f
      rw [Failure.furthest, if_pos (hless g hbest)]
  rw [List.foldl_append, List.foldl_cons, hx', foldl_bestBehind_some hafter]

theorem foldl_bestBehind_of_not_viable (h : ∀ y ∈ xs, y.viable env s = false) :
    xs.foldl (bestBehind env s) none = none := by
  induction xs with
  | nil => rfl
  | cons y ys ih =>
    obtain ⟨hy, hys⟩ := List.forall_mem_cons.1 h
    rw [List.foldl_cons, bestBehind_of_not_viable (Bool.eq_false_iff.1 hy), ih hys]

-- ---------------------------------------------------------------------------
-- There is one choice, and it is made
-- ---------------------------------------------------------------------------

/-- Some rule is the first to succeed, or none succeeds. -/
theorem exists_first_or_none (xs : List Alternative) (env : Env) (s : State) :
    (∃ before x after n s', xs = before ++ x :: after ∧
      (∀ y ∈ before, ∀ m t, ¬Succeeds y env s m t) ∧ Succeeds x env s n s') ∨
      ∀ y ∈ xs, ∀ m t, ¬Succeeds y env s m t := by
  induction xs with
  | nil => exact .inr fun y hy => absurd hy List.not_mem_nil
  | cons x rest ih =>
    by_cases hx : ∃ n s', Succeeds x env s n s'
    · obtain ⟨n, s', hx⟩ := hx
      exact .inl ⟨[], x, rest, n, s', rfl, fun y hy => absurd hy List.not_mem_nil, hx⟩
    · have hx : ∀ m t, ¬Succeeds x env s m t := fun m t h => hx ⟨m, t, h⟩
      rcases ih with ⟨before, y, after, n, s', rfl, hbefore, hy⟩ | hrest
      · exact .inl ⟨x :: before, y, after, n, s', rfl, List.forall_mem_cons.2 ⟨hx, hbefore⟩, hy⟩
      · exact .inr (List.forall_mem_cons.2 ⟨hx, hrest⟩)

/-- Where no rule succeeds, some failure is the first of those that got furthest, or no rule can
apply. -/
theorem exists_furthest_or_inapplicable (h : ∀ y ∈ xs, ∀ m t, ¬Succeeds y env s m t) :
    (∃ before x after f, xs = before ++ x :: after ∧ FailsWith x env s f ∧
      (∀ y ∈ before, ∀ g, FailsWith y env s g → g.index < f.index) ∧
      ∀ y ∈ after, ∀ g, FailsWith y env s g → g.index ≤ f.index) ∨
      ∀ y ∈ xs, y.viable env s = false := by
  induction xs with
  | nil => exact .inr fun y hy => absurd hy List.not_mem_nil
  | cons x rest ih =>
    obtain ⟨hx, hrest⟩ := List.forall_mem_cons.1 h
    by_cases hviable : x.viable env s = true
    · obtain ⟨n, s', hok⟩ | ⟨f, hf⟩ := succeeds_or_failsWith hviable
      · exact absurd hok (hx n s')
      rcases ih hrest with ⟨before, y, after, g, rfl, hg, hbefore, hafter⟩ | hnone
      · by_cases hless : f.index < g.index
        · refine .inl ⟨x :: before, y, after, g, rfl, hg,
            List.forall_mem_cons.2 ⟨?_, hbefore⟩, hafter⟩
          intro e he
          rwa [he.unique hf]
        · refine .inl ⟨[], x, _, f, rfl, hf, fun y hy => absurd hy List.not_mem_nil, ?_⟩
          -- The others got no further than `g`, and `g` no further than `f`.
          have hle : g.index ≤ f.index := Nat.not_lt.1 hless
          refine List.forall_mem_append.2 ⟨fun z hz e he => ?_, List.forall_mem_cons.2 ⟨?_, ?_⟩⟩
          · exact Nat.le_trans (Nat.le_of_lt (hbefore z hz e he)) hle
          · intro e he
            rwa [he.unique hg]
          · exact fun z hz e he => Nat.le_trans (hafter z hz e he) hle
      · refine .inl ⟨[], x, rest, f, rfl, hf, fun y hy => absurd hy List.not_mem_nil, ?_⟩
        exact fun z hz e he => absurd he.viable (Bool.eq_false_iff.1 (hnone z hz))
    · rcases ih hrest with ⟨before, y, after, g, rfl, hg, hbefore, hafter⟩ | hnone
      · refine .inl ⟨x :: before, y, after, g, rfl, hg,
          List.forall_mem_cons.2 ⟨?_, hbefore⟩, hafter⟩
        exact fun e he => absurd he.viable hviable
      · exact .inr (List.forall_mem_cons.2 ⟨Bool.eq_false_iff.2 hviable, hnone⟩)

namespace Settles

variable {alternatives : List Alternative} {result : EStateM.Result Failure State Node}

/-- The rules determine what is chosen. -/
theorem firstFit_eq (h : Settles a alternatives env s result) :
    firstFit a none alternatives env s = result := by
  cases h with
  | chosen hsplit hbefore hx =>
    rw [hsplit, firstFit_append hbefore, firstFit_cons_of_fits hx.viable hx.run]
  | furthest hnone hsplit hx hbefore hafter =>
    rw [← List.append_nil alternatives, firstFit_append hnone, hsplit,
      foldl_bestBehind_of_furthest hx hbefore hafter]
    rfl
  | inapplicable hnone =>
    have hfails : ∀ y ∈ alternatives, ∀ m t, ¬Succeeds y env s m t :=
      fun y hy m t hok => absurd hok.viable (Bool.eq_false_iff.1 (hnone y hy))
    rw [← List.append_nil alternatives, firstFit_append hfails,
      foldl_bestBehind_of_not_viable hnone]
    rfl

/-- The rules determine some choice. -/
theorem exists_result (a : Ambiguity) (alternatives : List Alternative) (env : Env) (s : State) :
    ∃ result, Settles a alternatives env s result := by
  rcases exists_first_or_none alternatives env s with ⟨before, x, after, n, s', hsplit,
    hbefore, hx⟩ | hnone
  · exact ⟨_, .chosen hsplit hbefore hx⟩
  · rcases exists_furthest_or_inapplicable hnone with
      ⟨before, x, after, f, hsplit, hx, hbefore, hafter⟩ | hinapplicable
    · exact ⟨_, .furthest hnone hsplit hx hbefore hafter⟩
    · exact ⟨_, .inapplicable hinapplicable⟩

/-- The choice that is made is the one that the rules determine. -/
theorem iff_firstFit :
    Settles a alternatives env s result ↔ firstFit a none alternatives env s = result := by
  refine ⟨firstFit_eq, ?_⟩
  rintro rfl
  obtain ⟨result, h⟩ := exists_result a alternatives env s
  rwa [h.firstFit_eq]

end Settles

theorem resolve_of_lt (alternatives : List Alternative) (h : env.depth < env.limit) :
    resolve a alternatives env s = firstFit a none alternatives env s := by
  unfold resolve
  rw [run_bind, checkDepth, if_neg (Nat.not_le.2 h)]

end

-- ---------------------------------------------------------------------------
-- Ambiguities
-- ---------------------------------------------------------------------------

/-- An ambiguity among productions of the grammar is settled by ordered choice: with a checkpoint in
front of the rules or without, the outcome is the one that the rules determine by themselves. -/
theorem resolve_ordered (a : Ambiguity) (alternatives : List Alternative)
    (h : ∀ x ∈ alternatives, OfGrammar x.production) (env : Env) (s : State)
    (hdepth : env.depth < env.limit) (result : EStateM.Result Failure State Node) :
    (resolveInPlace a alternatives env s = result ↔ Settles a alternatives env s result) ∧
      (resolve a alternatives env s = result ↔ Settles a alternatives env s result) := by
  rw [resolveInPlace_eq a h, resolve_of_lt alternatives hdepth, Settles.iff_firstFit]
  exact ⟨Iff.rfl, Iff.rfl⟩

/-- The rules of a statement that no word announces. -/
def statementRules : List Alternative :=
  [{ viable := fun env s => (env.kind s).isNameLike && env.kindAhead s 1 == .mark .colon,
     production := labelStatement },
   { production := assignmentStatement },
   { production := callStatement }]

/-- A line with a call on it. -/
def callLine : Env := { source := "f(1)".toList, tokens := .ofText "f(1)".toList, limit := 8 }

/-- A call is no label, and fails as an assignment before it is read as what it is. -/
theorem resolve_ordered_callLine : ∃ n s',
    (∀ x ∈ statementRules, OfGrammar x.production) ∧ callLine.depth < callLine.limit ∧
      resolveInPlace .labelOrExpression statementRules callLine {} = .ok n s' ∧
      n.kind = .rule .callStatement ∧
      Settles .labelOrExpression statementRules callLine {} (.ok n s') := by
  have hgrammar : ∀ x ∈ statementRules, OfGrammar x.production := by
    refine List.forall_mem_cons.2 ⟨⟨none, .statements .labelStatement⟩, ?_⟩
    refine List.forall_mem_cons.2 ⟨⟨none, .statements .assignmentStatement⟩, ?_⟩
    exact List.forall_mem_cons.2
      ⟨⟨none, .statements .callStatement⟩, fun x hx => absurd hx List.not_mem_nil⟩
  have hkind : (match resolveInPlace .labelOrExpression statementRules callLine {} with
      | .ok n _ => n.kind == .rule .callStatement
      | .error _ _ => false) = true := by
    decide +kernel
  cases hrun : resolveInPlace .labelOrExpression statementRules callLine {} with
  | error f s' =>
    rw [hrun] at hkind
    exact Bool.noConfusion hkind
  | ok n s' =>
    rw [hrun] at hkind
    have hsettled :=
      (resolve_ordered .labelOrExpression statementRules hgrammar callLine {} (by decide)
        (.ok n s')).1.1
    exact ⟨n, s', hgrammar, by decide, rfl, beq_iff_eq.1 hkind, hsettled hrun⟩

end Production

end VisualBasic
