import VisualBasic.Proofs.Passage

/-!
# What holds of passages

The inductions over the rules of passages that speak of one run, with one lemma for every rule that
is not one of phrases.

Main results:

* `Passage.climbs` — a passage goes forward.
* `Passage.tidy` — a passage takes away nothing that was there before it; one that succeeds leaves
  the blocks open that were, but for the innermost if it closes that.
-/

namespace VisualBasic

namespace State

/-- The blocks that are open behind a part that closes the innermost one or does not. -/
def blocksBehind (closing : Bool) (s : State) : List OpenBlock :=
  if closing = true then s.blocks.tail else s.blocks

/-- A part that succeeds has added to what was there, and has left no block open and no `If` on a
single line unfinished. -/
structure Settled (closing : Bool) (s s' : State) : Prop where
  children : s.children <:+ s'.children
  diagnostics : s.diagnostics <:+ s'.diagnostics
  blocks : s'.blocks = s.blocksBehind closing
  singleLineIfs : s'.singleLineIfs = s.singleLineIfs

/-- A part that fails has added to what was there; the blocks that it had opened may be open. -/
structure Strayed (closing : Bool) (s s' : State) : Prop where
  children : s.children <:+ s'.children
  diagnostics : s.diagnostics <:+ s'.diagnostics
  blocks : s.blocksBehind closing <:+ s'.blocks

section

variable {closing : Bool} {s s₁ s' : State}

/-- What does nothing leaves all as it was. -/
theorem Settled.refl (s : State) : Settled false s s :=
  ⟨List.suffix_refl _, List.suffix_refl _, rfl, rfl⟩

/-- What only moves and attaches leaves the blocks as they were. -/
theorem Onward.settled (h : Onward s s') : Settled false s s' :=
  ⟨h.children, h.diagnostics ▸ List.suffix_refl _, h.blocks, h.singleLineIfs⟩

/-- A run that succeeds may be taken for one that has failed. -/
theorem Settled.strayed (h : Settled closing s s') : Strayed closing s s' :=
  ⟨h.children, h.diagnostics, h.blocks ▸ List.suffix_refl _⟩

/-- Closing takes at most one block away. -/
theorem blocksBehind_suffix (closing : Bool) (s : State) : s.blocksBehind closing <:+ s.blocks := by
  unfold blocksBehind
  split
  · exact List.tail_suffix _
  · exact List.suffix_refl _

/-- A part that fails within one that would have closed a block. -/
theorem Strayed.within (h : Strayed false s s') : Strayed closing s s' :=
  ⟨h.children, h.diagnostics, (blocksBehind_suffix closing s).trans h.blocks⟩

/-- Which one, depends on the open blocks alone. -/
theorem blocksBehind_eq (h : s₁.blocks = s.blocks) :
    s₁.blocksBehind closing = s.blocksBehind closing := by
  rw [blocksBehind, blocksBehind, h]

/-- Runs one behind the other; only the last one may close a block. -/
theorem Settled.trans (h : Settled false s s₁) (h' : Settled closing s₁ s') :
    Settled closing s s' :=
  ⟨h.children.trans h'.children, h.diagnostics.trans h'.diagnostics,
    h'.blocks.trans (blocksBehind_eq h.blocks), h'.singleLineIfs.trans h.singleLineIfs⟩

/-- The same where the last one fails. -/
theorem Settled.thenStrayed (h : Settled false s s₁) (h' : Strayed closing s₁ s') :
    Strayed closing s s' := by
  have hbehind : s₁.blocksBehind closing = s.blocksBehind closing := blocksBehind_eq h.blocks
  exact ⟨h.children.trans h'.children, h.diagnostics.trans h'.diagnostics, hbehind ▸ h'.blocks⟩

/-- A part that closes the innermost block, and what is done behind it. -/
theorem Settled.behindClosing (h : Settled true s s₁) (h' : Settled false s₁ s') :
    Settled true s s' :=
  ⟨h.children.trans h'.children, h.diagnostics.trans h'.diagnostics, h'.blocks.trans h.blocks,
    h'.singleLineIfs.trans h.singleLineIfs⟩

/-- And where the block was closed before it failed. -/
theorem Settled.behindClosingStrayed (h : Settled true s s₁) (h' : Strayed false s₁ s') :
    Strayed true s s' :=
  ⟨h.children.trans h'.children, h.diagnostics.trans h'.diagnostics, h.blocks ▸ h'.blocks⟩

end

end State

namespace Production

open State

variable {α β γ : Type}

/-- What a run comes to: what was there before it is there after it. -/
def Ended (closing : Bool) (s : State) : EStateM.Result Failure State α → Prop
  | .ok _ s' => Settled closing s s'
  | .error _ s' => Strayed closing s s'

/-- A run takes away nothing that was there before it. -/
def Tidy (closing : Bool) (p : Parse α) : Prop := ∀ env s, Ended closing s (p env s)

-- ---------------------------------------------------------------------------
-- Closing lines
-- ---------------------------------------------------------------------------

/-- The innermost block is no longer open. -/
def leaveBlock : Parse Unit := modify fun s => { s with blocks := s.blocks.tail }

/-- Closing is a look and what follows from it. -/
theorem closeBlock_eq (opener : Keyword) : closeBlock opener =
    test (fun env s => env.atCloser s opener) >>= fun x =>
      if x = true then
        leaveBlock >>= fun _ => (opener.closer.forM fun _ => take) >>= fun _ => pure true
      else missCloser opener >>= fun _ => pure false := rfl

namespace Climbs

theorem forM_take {word : Type} (words : List word) :
    Climbs (words.forM fun _ => Production.take) := by
  induction words with
  | nil => exact pure ()
  | cons word rest ih => exact bind take fun _ => ih

theorem leaveBlock : Climbs Production.leaveBlock :=
  fun _ _ hs => ⟨Nat.le_refl _, hs, List.suffix_refl _⟩

/-- Noting what is missing does not move either. -/
theorem missCloser (opener : Keyword) : Climbs (Production.missCloser opener) :=
  fun _ _ hs => ⟨Nat.le_refl _, hs, List.suffix_cons _ _⟩

theorem closeBlock (opener : Keyword) : Climbs (Production.closeBlock opener) := by
  rw [closeBlock_eq]
  refine look (Looks.test _) fun x => ite ?_ (bind (missCloser opener) fun _ => pure false)
  exact bind leaveBlock fun _ => bind (forM_take _) fun _ => pure true

theorem openBlockAt (opener : Keyword) (l : Nat) : Climbs (Production.openBlockAt opener l) :=
  fun _ _ hs => ⟨Nat.le_refl _, hs, List.suffix_refl _⟩

theorem recover (f : Failure) : Climbs (Production.recover f) := by
  intro env s hs
  obtain ⟨hle, hsize⟩ := regionEnd_bounds env (0 < s.singleLineIfs) s.cursor s.cursor hs
  exact ⟨hle, hsize, List.suffix_cons _ _⟩

theorem unexpected (e : Expected) : Climbs (Production.unexpected e) :=
  fun env s => recover ⟨s.cursor, .unexpected e⟩ env s

theorem orRecover {p : Parse Node} (hp : Climbs p) : Climbs p.orRecover := by
  intro env s hs
  have hlater := hp env s hs
  rw [Parse.orRecover_eq]
  cases hrun : p env s with
  | ok n s' =>
    rw [hrun] at hlater
    exact hlater
  | error f s' => exact recover f env s hs

theorem recovering {p : Parse Unit} (hp : Climbs p) : Climbs p.recovering := by
  intro env s hs
  have hlater := hp env s hs
  unfold Production.recovering
  cases hrun : p env s with
  | ok a s' =>
    rw [hrun] at hlater
    exact hlater
  | error f s' =>
    rw [hrun] at hlater
    exact hlater.trans (bind (recover f) attach env s' hlater.le_size)

theorem firstFit_cons {a : Ambiguity} {best : Option Failure} {x : Alternative}
    {rest : List Alternative} (hx : Climbs x.production)
    (hrest : ∀ best, Climbs (Production.firstFit a best rest)) :
    Climbs (Production.firstFit a best (x :: rest)) := by
  intro env s hs
  have hlater := hx env s hs
  rw [Parse.firstFit_cons_eq]
  split
  · cases hrun : x.production env s with
    | ok n s' =>
      rw [hrun] at hlater
      exact hlater
    | error f s' => exact hrest _ env s hs
  · exact hrest best env s hs

theorem inSingleLineIf {p : Parse Unit} (hp : Climbs p) : Climbs p.inSingleLineIf := by
  have hcount (f : Nat → Nat) : Climbs (modify fun s : State =>
      { s with singleLineIfs := f s.singleLineIfs } : Parse Unit) :=
    fun _ _ hs => ⟨Nat.le_refl _, hs, List.suffix_refl _⟩
  exact bind (hcount (· + 1)) fun _ => bind hp fun _ => hcount (· - 1)

end Climbs

variable {δ : Nat} {part : Bool} {spot : Spot} {closing : Bool} {r : α → β → Prop}
  {p : Parse α} {p' : Parse β}

/-- A passage goes forward. -/
theorem Passage.climbs (h : Passage δ part spot closing r p p') : Climbs p := by
  induction h with
  | quiet hp => exact hp.climbs
  | bind _ _ ihp ihk =>
    exact Climbs.bind ihp fun a => (Partnered.exists_partner a).elim fun a' ha => ihk a a' ha
  | behind hp _ ihk | behindOne hp _ _ _ _ ihk =>
    exact Climbs.bind hp.climbs fun a => (Partnered.exists_partner a).elim fun a' ha => ihk a a' ha
  | checked _ ih => exact Climbs.bind Climbs.checkDepth fun _ => ih
  | look hp _ _ _ _ ih => exact Climbs.look hp ih
  | line _ ih => exact Climbs.look Looks.currentLine fun l => ih l l
  | opening opener l _ _ ih => exact Climbs.bind (Climbs.openBlockAt opener l) fun _ => ih
  | closing opener _ ih => exact Climbs.bind (Climbs.closeBlock opener) ih
  | node _ _ ih => exact fun env s => Climbs.construct ih env s
  | iterate _ _ _ ih =>
    exact Climbs.iterate (fun x => (Partnered.exists_partner x).elim fun y hy => ih x y hy) _
  | nested _ ih => exact fun env s => ih { env with depth := env.depth + 1 } s
  | byRoom _ ih => exact fun env s => ih env.room env s
  | mono _ _ ih => exact ih
  | orRecover _ ih => exact Climbs.orRecover ih
  | recovering hp => exact Climbs.recovering hp.climbs
  | unexpected e => exact Climbs.unexpected e
  | inSingleLineIf _ ih => exact Climbs.inSingleLineIf ih
  | noneFits => exact fun _ _ hs => .refl hs
  | tryNext _ _ _ _ ihx ihrest => exact Climbs.firstFit_cons ihx fun best => ihrest best best

-- ---------------------------------------------------------------------------
-- What was there before
-- ---------------------------------------------------------------------------

namespace Tidy

/-- What leaves no diagnostics leaves the blocks as they were. -/
theorem of_hushed {p : Parse α} (hp : Hushed p) : Tidy false p := by
  intro env s
  have honward := hp env s
  cases hrun : p env s with
  | ok a s' =>
    rw [hrun] at honward
    exact honward.settled
  | error f s' =>
    rw [hrun] at honward
    exact honward.settled.strayed

/-- Only the second part may close a block. -/
theorem bind {p : Parse α} {k : α → Parse β} (hp : Tidy false p)
    (hk : ∀ a, Tidy closing (k a)) : Tidy closing (p >>= k) := by
  intro env s
  have hfirst := hp env s
  rw [run_bind]
  cases hrun : p env s with
  | error f s₁ =>
    rw [hrun] at hfirst
    exact hfirst.within
  | ok a s₁ =>
    rw [hrun] at hfirst
    have hrest := hk a env s₁
    change Ended closing s (k a env s₁)
    cases hrun₁ : k a env s₁ with
    | error f s₂ =>
      rw [hrun₁] at hrest
      exact hfirst.thenStrayed hrest
    | ok b s₂ =>
      rw [hrun₁] at hrest
      exact hfirst.trans hrest

theorem look {p : Parse α} {seen : Env → State → α} {k : α → Parse β} (hp : Looks p seen)
    (hk : ∀ a, Tidy closing (k a)) : Tidy closing (p >>= k) :=
  bind (of_hushed (Hushed.of_looks hp)) hk

/-- The block that is opened is the innermost one for what is done behind it. -/
theorem openBlockAt (opener : Keyword) (l : Nat) {k : Unit → Parse β} (hk : Tidy true (k ())) :
    Tidy false (Production.openBlockAt opener l >>= k) := by
  intro env s
  have hrest := hk env { s with blocks := ⟨opener, l⟩ :: s.blocks }
  change Ended false s (k () env { s with blocks := ⟨opener, l⟩ :: s.blocks })
  cases hrun : k () env { s with blocks := ⟨opener, l⟩ :: s.blocks } with
  | error f s' =>
    rw [hrun] at hrest
    exact ⟨hrest.children, hrest.diagnostics, hrest.blocks⟩
  | ok b s' =>
    rw [hrun] at hrest
    exact ⟨hrest.children, hrest.diagnostics, hrest.blocks, hrest.singleLineIfs⟩

theorem forM_take {word : Type} (words : List word) :
    Hushed (words.forM fun _ => Production.take) := by
  induction words with
  | nil => exact Hushed.of_looks (Looks.pure ())
  | cons word rest ih => exact Hushed.bind Hushed.take fun _ => ih

/-- Whether or not the closing line is there, the innermost block is no longer open. -/
theorem closeBlock (opener : Keyword) : Tidy true (Production.closeBlock opener) := by
  intro env s
  rw [closeBlock_eq, (Looks.test _).run_bind]
  split
  · have hwords := (of_hushed ((forM_take opener.closer).bind fun _ =>
      Hushed.of_looks (Looks.pure true))) env { s with blocks := s.blocks.tail }
    rw [run_bind]
    change Ended true s (((opener.closer.forM fun _ => take) >>= fun _ => pure true) env
      { s with blocks := s.blocks.tail })
    cases hrun : ((opener.closer.forM fun _ => take) >>= fun _ => pure true) env
        { s with blocks := s.blocks.tail } with
    | error f s' =>
      rw [hrun] at hwords
      exact ⟨hwords.children, hwords.diagnostics, hwords.blocks⟩
    | ok b s' =>
      rw [hrun] at hwords
      exact ⟨hwords.children, hwords.diagnostics, hwords.blocks, hwords.singleLineIfs⟩
  · exact ⟨List.suffix_refl _, List.suffix_cons _ _, rfl, rfl⟩

/-- What is done behind the part that closes the innermost block. -/
theorem behindClosing {p : Parse α} {k : α → Parse β} (hp : Tidy true p)
    (hk : ∀ a, Tidy false (k a)) : Tidy true (p >>= k) := by
  intro env s
  have hfirst := hp env s
  rw [run_bind]
  cases hrun : p env s with
  | error f s₁ =>
    rw [hrun] at hfirst
    exact hfirst
  | ok a s₁ =>
    rw [hrun] at hfirst
    have hrest := hk a env s₁
    change Ended true s (k a env s₁)
    cases hrun₁ : k a env s₁ with
    | error f s₂ =>
      rw [hrun₁] at hrest
      exact hfirst.behindClosingStrayed hrest
    | ok b s₂ =>
      rw [hrun₁] at hrest
      exact hfirst.behindClosing hrest

theorem construct {r : Rule} {first : Nat} {body : Parse Unit} (hbody : Tidy false body) :
    Tidy false (Production.construct r first body) := by
  intro env s
  have hended := hbody env { s with children := [], isPartial := false }
  rw [Parse.construct_eq]
  cases hrun : body env { s with children := [], isPartial := false } with
  | ok a s' =>
    rw [hrun] at hended
    exact ⟨List.suffix_refl _, hended.diagnostics, hended.blocks, hended.singleLineIfs⟩
  | error f s' =>
    rw [hrun] at hended
    exact ⟨List.suffix_refl _, hended.diagnostics, hended.blocks⟩

theorem iterateUpTo {step : α → Parse (Option α)} (hstep : ∀ x, Tidy false (step x)) (n : Nat)
    (x : α) : Tidy false (Production.iterateUpTo step n x) := by
  induction n generalizing x with
  | zero => exact of_hushed (Hushed.of_looks (Looks.pure x))
  | succ n ih =>
    rw [iterateUpTo_succ]
    refine bind (hstep x) fun y => ?_
    cases y with
    | none => exact of_hushed (Hushed.of_looks (Looks.pure x))
    | some y => exact ih y

theorem recover (f : Failure) : Tidy false (Production.recover f) :=
  fun _ _ => ⟨List.suffix_refl _, List.suffix_cons _ _, rfl, rfl⟩

theorem orRecover {p : Parse Node} (hp : Tidy false p) : Tidy false p.orRecover := by
  intro env s
  have hended := hp env s
  rw [Parse.orRecover_eq]
  cases hrun : p env s with
  | ok n s' =>
    rw [hrun] at hended
    exact hended
  | error f s' => exact recover f env s

/-- A part that has failed keeps what it had attached, which is covered as far as it goes. -/
theorem recovering {p : Parse Unit} (hp : Hushed p) : Tidy false p.recovering := by
  intro env s
  have honward := hp env s
  unfold Production.recovering
  cases hrun : p env s with
  | ok a s' =>
    rw [hrun] at honward
    exact honward.settled
  | error f s' =>
    rw [hrun] at honward
    have hregion : Settled false s' _ :=
      ((recover f).bind fun n => of_hushed (Hushed.attach n)) env s'
    exact honward.settled.trans hregion

theorem firstFit_cons {a : Ambiguity} {best : Option Failure} {x : Alternative}
    {rest : List Alternative} (hx : Tidy false x.production)
    (hrest : ∀ best, Tidy false (Production.firstFit a best rest)) :
    Tidy false (Production.firstFit a best (x :: rest)) := by
  intro env s
  have hended := hx env s
  rw [Parse.firstFit_cons_eq]
  split
  · cases hrun : x.production env s with
    | ok n s' =>
      rw [hrun] at hended
      exact hended
    | error f s' => exact hrest _ env s
  · exact hrest best env s

theorem inSingleLineIf {p : Parse Unit} (hp : Tidy false p) : Tidy false p.inSingleLineIf := by
  intro env s
  have hended := hp env { s with singleLineIfs := s.singleLineIfs + 1 }
  rw [Production.inSingleLineIf, run_bind]
  change Ended false s ((p >>= fun _ => modify fun s =>
    { s with singleLineIfs := s.singleLineIfs - 1 }) env
      { s with singleLineIfs := s.singleLineIfs + 1 })
  rw [run_bind]
  cases hrun : p env { s with singleLineIfs := s.singleLineIfs + 1 } with
  | error f s' =>
    rw [hrun] at hended
    exact ⟨hended.children, hended.diagnostics, hended.blocks⟩
  | ok a s' =>
    rw [hrun] at hended
    refine ⟨hended.children, hended.diagnostics, hended.blocks, ?_⟩
    change s'.singleLineIfs - 1 = s.singleLineIfs
    rw [hended.singleLineIfs]
    exact Nat.add_sub_cancel _ 1

end Tidy

/-- A passage takes away nothing that was there before it; one that succeeds leaves the blocks open
that were, but for the innermost if it closes that. -/
theorem Passage.tidy (h : Passage δ part spot closing r p p') : Tidy closing p := by
  induction h with
  | quiet hp => exact Tidy.of_hushed hp.hushed
  | bind _ _ ihp ihk =>
    exact Tidy.bind ihp fun a => (Partnered.exists_partner a).elim fun a' ha => ihk a a' ha
  | behind hp _ ihk | behindOne hp _ _ _ _ ihk =>
    exact Tidy.bind (Tidy.of_hushed hp.hushed) fun a =>
      (Partnered.exists_partner a).elim fun a' ha => ihk a a' ha
  | checked _ ih => exact Tidy.bind (Tidy.of_hushed Hushed.checkDepth) fun _ => ih
  | look hp _ _ _ _ ih => exact Tidy.look hp ih
  | line _ ih => exact Tidy.look Looks.currentLine fun l => ih l l
  | opening opener l _ _ ih => exact Tidy.openBlockAt opener l ih
  | closing opener _ ih => exact Tidy.behindClosing (Tidy.closeBlock opener) ih
  | node _ _ ih => exact fun env s => Tidy.construct ih env s
  | iterate _ _ _ ih =>
    exact fun env s => Tidy.iterateUpTo
      (fun x => (Partnered.exists_partner x).elim fun y hy => ih x y hy) _ _ env s
  | nested _ ih => exact fun env s => ih { env with depth := env.depth + 1 } s
  | byRoom _ ih => exact fun env s => ih env.room env s
  | mono _ _ ih => exact ih
  | orRecover _ ih => exact Tidy.orRecover ih
  | recovering hp => exact Tidy.recovering hp.hushed
  | unexpected e => exact fun env s => Tidy.recover ⟨s.cursor, .unexpected e⟩ env s
  | inSingleLineIf _ ih => exact Tidy.inSingleLineIf ih
  | noneFits => exact fun _ s => (Settled.refl s).strayed
  | tryNext _ _ _ _ ihx ihrest => exact Tidy.firstFit_cons ihx fun best => ihrest best best

end Production

end VisualBasic
