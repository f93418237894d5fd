import VisualBasic.Proofs.Passage
import VisualBasic.Proofs.Searches

/-!
# Deriving passages

What the loud productions of the grammar are put together with, each with its rule: what is done
behind a quiet part, blocks that are opened and closed, the items of a body, and choices by what is
ahead.

Main results:

* `Passage.ifTest`, `Passage.peek` — choices by the tokens ahead.
* `Passage.openBlock`, `Passage.finishBlock` — blocks that are opened and closed.
* `Passage.body` — the items of a block.
-/

namespace VisualBasic

-- ---------------------------------------------------------------------------
-- Where a body ends
-- ---------------------------------------------------------------------------

namespace State.Alike

variable {δ : Nat} {m : Sight} {t t' : TokenStream} {s s' : State}

theorem isOpen (h : s.Alike δ m t t' s') (opener : Keyword) :
    s'.isOpen opener = s.isOpen opener := by
  have hopen (s : State) : s.isOpen opener = (s.blocks.map OpenBlock.opener).any (· == opener) := by
    rw [List.any_map]
    rfl
  rw [hopen, hopen, h.openers]

theorem innermost (h : s.Alike δ m t t' s') : s'.innermost? = s.innermost? := by
  have hhead (s : State) : s.innermost? = (s.blocks.map OpenBlock.opener).head? :=
    List.head?_map.symm
  rw [hhead, hhead, h.openers]

theorem inMemberBody (h : s.Alike δ m t t' s') : s'.inMemberBody = s.inMemberBody := by
  have hholds (s : State) : (s.blocks.any fun block => block.opener.holdsMembers) =
      (s.blocks.map OpenBlock.opener).any Keyword.holdsMembers := by
    rw [List.any_map]
    rfl
  unfold State.inMemberBody
  rw [h.innermost, hholds, hholds, h.openers]

end State.Alike

namespace Production

open State

variable {δ : Nat} {part : Bool} {spot : Spot} {closing lands : Bool} {α α' β β' γ : Type}

theorem steady_atBoundary : Steady δ spot Env.atBoundary := by
  intro m env env' s s' henv hs hreach _
  have hkind := hs.kind henv hreach
  have hmember : env'.tokens.startsMember s'.cursor = env.tokens.startsMember s.cursor := by
    rw [hs.cursor]
    exact henv.startsMember (henv.sees hreach)
  have hsecond (hnewline : env.kind s ≠ .newline) : env'.kindAhead s' 1 = env.kindAhead s 1 := by
    refine hs.kindAhead henv hreach fun j hj => ?_
    obtain rfl := Nat.lt_one_iff.1 hj
    exact hnewline
  unfold Env.atBoundary
  rw [hkind]
  split
  · rfl
  · rw [hsecond (by rw [‹env.kind s = _›]; exact nofun)]
    split
    · rw [hs.isOpen]
    · rfl
  all_goals first
    | rw [hs.isOpen, hsecond (by rw [‹env.kind s = _›]; exact nofun)]
    | rw [hs.isOpen]
    | rw [hs.inMemberBody, hmember]

-- ---------------------------------------------------------------------------
-- Derived rules
-- ---------------------------------------------------------------------------

/-- What the production does is the same in two runs. -/
@[reducible] def Runs (δ : Nat) (part : Bool) (spot : Spot) (closing : Bool) (p : Parse α) : Prop :=
  Passage δ part spot closing Eq p p

/-- The node that the production gives is the same in two runs. -/
@[reducible] def Makes (δ : Nat) (part : Bool) (spot : Spot) (p : Parse Node) : Prop :=
  Passage δ part spot false (Node.Alike δ) p p

namespace Passage

variable {inside : Bool} {c : TokenKind → Bool} {cs : List (TokenKind → Bool)} {r : α → β → Prop}
  {p q : Parse α} {p' q' : Parse β}

theorem anywhere (hp : Passage δ part (.plain false) closing r p p') :
    Passage δ part spot closing r p p' :=
  .mono hp fun _ _ _ => Spot.holds_plain nofun

theorem ite {x : Prop} [Decidable x] (hp : x → Passage δ part spot closing r p p')
    (hq : ¬x → Passage δ part spot closing r q q') :
    Passage δ part spot closing r (if x then p else q) (if x then p' else q') := by
  split
  · exact hp ‹_›
  · exact hq ‹_›

theorem seq {p p' : Parse γ} {q : Parse α} {q' : Parse β}
    (hp : Passage δ part spot false Eq p p') (hq : Passage δ part (.plain false) closing r q q') :
    Passage δ part spot closing r (p >>= fun _ => q) (p' >>= fun _ => q') :=
  .bind hp fun _ _ _ => hq

/-- What is done behind a quiet part. -/
theorem after {p p' : Parse γ} {q : Parse α} {q' : Parse β}
    (hp : Phrase δ false spot false lands Eq p p')
    (hq : Passage δ part (.plain lands) closing r q q') :
    Passage δ part spot closing r (p >>= fun _ => q) (p' >>= fun _ => q') :=
  .behind hp fun _ _ _ => hq

/-- What never succeeds stands anywhere. -/
theorem tooDeep : Passage δ part spot false r Production.tooDeep Production.tooDeep := by
  have hp : Phrase δ false spot false true r Production.tooDeep Production.tooDeep := .tooDeep
  exact .quiet hp

theorem failThen (e : Expected) {k : γ → Parse α} {k' : γ → Parse β} :
    Passage δ part spot false r (Production.fail e >>= k) (Production.fail e >>= k') := by
  have hp : Phrase δ false spot false true r (Production.fail e >>= k) (Production.fail e >>= k') :=
    Phrase.failThen e
  exact .quiet hp

theorem fail (e : Expected) : Passage δ part spot false r (Production.fail e)
    (Production.fail e) := by
  have hp : Phrase δ false spot false true r (Production.fail e) (Production.fail e) := .fail e
  exact .quiet hp

theorem child {p p' : Parse Node} (hp : Passage δ part spot false (Node.Alike δ) p p') :
    Passage δ part spot false Eq p.child p'.child :=
  .bind hp fun _ _ h => .quiet (Phrase.attach h)

theorem field (f : Field) {p p' : Parse Node}
    (hp : Passage δ part spot false (Node.Alike δ) p p') :
    Passage δ part spot false Eq (p.field f) (p'.field f) :=
  .bind hp fun _ _ h => .quiet (Phrase.attach (h.inField f))

/-- A part one level down. -/
theorem childNested {p p' : Parse Node} (hp : Passage δ part spot false (Node.Alike δ) p p') :
    Passage δ part spot false Eq p.nested.child p'.nested.child :=
  child (.nested hp)

theorem fieldNested (f : Field) {p p' : Parse Node}
    (hp : Passage δ part spot false (Node.Alike δ) p p') :
    Passage δ part spot false Eq (p.nested.field f) (p'.nested.field f) :=
  field f (.nested hp)

theorem wrapped (rule : Rule) {p p' : Parse Node}
    (hp : Passage δ part spot false (Node.Alike δ) p p') :
    Passage δ part spot false (Node.Alike δ) (p >>= Production.wrap rule)
      (p' >>= Production.wrap rule) :=
  .bind hp fun _ _ h => .quiet (Phrase.wrap rule h)

/-- A round of a repetition. -/
theorem round {p p' : Parse Unit} {b : γ} (hp : Passage δ part spot false Eq p p') :
    Passage δ part spot false Eq (p >>= fun _ => Pure.pure b) (p' >>= fun _ => Pure.pure b) :=
  seq hp (.quiet (Phrase.pure rfl))

theorem result {b : γ} : Passage δ part spot false Eq (Pure.pure b) (Pure.pure b) :=
  .quiet (Phrase.pure rfl)

-- ---------------------------------------------------------------------------
-- Choices ahead
-- ---------------------------------------------------------------------------

/-- What is done behind a look at the next token knows that token. -/
theorem peek {k : TokenKind → Parse α} {k' : TokenKind → Parse β}
    (hk : ∀ kind, Passage δ part (.before spot.inside (· == kind)) closing r (k kind) (k' kind)) :
    Passage δ part spot closing r (Production.peek >>= k) (Production.peek >>= k') := by
  refine .look Looks.peek ((Nearsighted.kind id).steady.steadyIn part)
    (fun kind => .before spot.inside (· == kind)) (fun env s h => ?_) hk
  exact h.before (beq_self_eq_true _)

/-- What is done behind a look at the token behind the next one, which does not end the line, knows
both. -/
theorem peekNext {k : TokenKind → Parse α} {k' : TokenKind → Parse β}
    (hc : c .newline = false)
    (hk : ∀ kind, Passage δ part ⟨inside, [c, (· == kind)]⟩ closing r (k kind) (k' kind)) :
    Passage δ part ⟨inside, [c]⟩ closing r (Production.peekAhead 1 >>= k)
      (Production.peekAhead 1 >>= k') := by
  refine .look (Looks.peekAhead 1) ((Steady.peekAhead hc id).steadyIn part)
    (fun kind => ⟨inside, [c, (· == kind)]⟩) (fun env s h => ?_) hk
  exact ⟨h.inside, h.kind, beq_self_eq_true _, trivial⟩

/-- A choice by a test that tells something of the tokens ahead. -/
theorem ifTest {seen : Env → State → Bool} (cs : List (TokenKind → Bool))
    (hseen : SteadyIn δ part spot seen)
    (hcs : ∀ env s, spot.Holds env s → seen env s = true → env.tokens.AllAhead s.cursor cs)
    (hp : Passage δ part ⟨spot.inside, cs⟩ closing r p p')
    (hq : Passage δ part spot closing r q q') :
    Passage δ part spot closing r (test seen >>= fun x => if x = true then p else q)
      (test seen >>= fun x => if x = true then p' else q') := by
  refine .look (Looks.test _) hseen (fun x => if x = true then ⟨spot.inside, cs⟩ else spot)
    (fun env s h => ?_) fun x => ?_
  · split
    · exact ⟨h.inside, hcs env s h ‹_›⟩
    · exact h
  · cases x with
    | true => exact hp
    | false => exact hq

/-- A choice by a test that tells nothing. -/
theorem ifLook {seen : Env → State → Bool} (hseen : SteadyIn δ part spot seen)
    (hp : Passage δ part (.plain spot.inside) closing r p p')
    (hq : Passage δ part spot closing r q q') :
    Passage δ part spot closing r (test seen >>= fun x => if x = true then p else q)
      (test seen >>= fun x => if x = true then p' else q') :=
  ifTest [] hseen (fun _ _ _ _ => trivial) hp hq

theorem ifAt {kind : TokenKind}
    (hp : Passage δ part (.before spot.inside (· == kind)) closing r p p')
    (hq : Passage δ part spot closing r q q') :
    Passage δ part spot closing r (atKind kind >>= fun x => if x = true then p else q)
      (atKind kind >>= fun x => if x = true then p' else q') :=
  ifTest [_] ((Nearsighted.kind (· == kind)).steady.steadyIn part)
  (fun _ _ _ h => ⟨h, trivial⟩) hp hq

/-- A choice by whether a token that may be there is. -/
theorem ifAccept {kind : TokenKind} {k : Bool → Parse α} {k' : Bool → Parse β}
    (hkind : Readable false spot.inside (· == kind))
    (hk : Passage δ part (.plain true) closing r (k true) (k' true))
    (hk' : Passage δ part spot closing r (k false) (k' false)) :
    Passage δ part spot closing r (accept kind >>= k) (accept kind >>= k') := by
  rw [accept_bind, accept_bind]
  exact ifAt (after (Phrase.take hkind) hk) hk'

theorem ifBoundary (hp : Passage δ part (.plain spot.inside) closing r p p')
    (hq : Passage δ part spot closing r q q') :
    Passage δ part spot closing r (atBoundary >>= fun x => if x = true then p else q)
      (atBoundary >>= fun x => if x = true then p' else q') :=
  ifLook (steady_atBoundary.steadyIn part) hp hq

-- ---------------------------------------------------------------------------
-- Repetitions and blocks
-- ---------------------------------------------------------------------------

theorem repeatWhile {step step' : Parse Bool}
    (hstep : Passage δ part (.plain false) false Eq step step')
    (hmoves : Progresses (· = true) step) :
    Passage δ part spot false Eq (Production.repeatWhile step) (Production.repeatWhile step') := by
  refine .iterate (fun _ _ _ => .bind hstep fun b b' hb => ?_) (fun _ => ?_) rfl
  · subst hb
    cases b with
    | true => exact .quiet (Phrase.pure rfl)
    | false => exact .quiet (Phrase.pure trivial)
  · intro env s a s' hready hrun ha
    obtain ⟨b, s₁, hfirst, hrest⟩ := bind_eq_ok hrun
    cases b with
    | true =>
      cases hrest
      exact hmoves env s true _ hready hfirst rfl
    | false =>
      cases hrest
      cases ha

theorem body {item item' : Parse Unit} (hitem : Passage δ part (.plain false) false Eq item item')
    {m : Manner} {n : Nat} (hmoves : Steps m n true item) [AtMost n 1] :
    Passage δ part spot false Eq (Production.body item) (Production.body item') := by
  refine repeatWhile ?_ ?_
  · exact ifBoundary result (round hitem)
  · exact .look (Looks.test _) fun _ => .ite (.pure nofun) (.round hmoves)

theorem openBlock {k : Unit → Parse α} {k' : Unit → Parse β} (opener : Keyword)
    (hk : Passage δ part spot true r (k ()) (k' ())) :
    Passage δ part spot false r (Production.openBlock opener >>= k)
    (Production.openBlock opener >>= k') := by
  unfold Production.openBlock
  rw [bind_assoc, bind_assoc]
  exact .line fun l l' => .opening opener l l' hk

/-- The words of a closing line, and what may follow them. -/
theorem closeBlock {p p' : Parse Unit} (opener : Keyword)
    (hp : Passage δ part (.plain true) false Eq p p') :
    Passage δ part spot true Eq
      (Production.closeBlock opener >>= fun x => if x = true then p else Pure.pure ())
      (Production.closeBlock opener >>= fun x => if x = true then p' else Pure.pure ()) := by
  refine .closing opener fun b => ?_
  cases b with
  | true => exact hp
  | false => exact result

theorem finishBlock (opener : Keyword) : Runs δ part spot true (Production.finishBlock opener) :=
  closeBlock opener (.recovering Phrase.endStatement)

end Passage

end Production

end VisualBasic
