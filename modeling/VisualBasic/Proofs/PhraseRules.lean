import VisualBasic.Proofs.Follows
import VisualBasic.Proofs.Clause

/-!
# Deriving phrases

What the productions of the grammar are put together with, each with its rule: names, words and
marks that have to be there or may be there, children and roles, choices by what is ahead, and
repetitions.

Main results:

* `Phrase.ifAt`, `Phrase.ifAccept`, `Phrase.peek` — choices by the token ahead.
* `Phrase.repeatWhile`, `Phrase.commaSeparated` — repetitions.
-/

namespace VisualBasic

-- ---------------------------------------------------------------------------
-- Words
-- ---------------------------------------------------------------------------

namespace TokenKind

/-- No parenthesis, no end of a statement, and not the end of the text. -/
def isMidway : TokenKind → Bool
  | endOfFile | newline | mark .colon | mark .leftParen | mark .rightParen => false
  | _ => true

/-- An inner token that may stand where a statement begins, whatever is barred there. -/
def isWord : TokenKind → Bool
  | mark .less | keyword .kwEnd => false
  | kind => kind.isMidway

theorem isMidway_of_isWord {kind : TokenKind} (h : kind.isWord = true) : kind.isMidway = true := by
  unfold isWord at h
  split at h
  · cases h
  · cases h
  · exact h

/-- What a name may be is a word. -/
theorem isWord_of_isNameLike {kind : TokenKind} (h : kind.isNameLike = true) :
    kind.isWord = true := by
  cases kind with
  | keyword word => cases word <;> first | rfl | cases h
  | identifier => rfl
  | _ => cases h

/-- Modifiers are words. -/
theorem isWord_of_isModifier {kind : TokenKind} (h : kind.isModifier = true) :
    kind.isWord = true := by
  cases kind with
  | keyword word => cases word <;> first | rfl | cases h
  | _ => cases h

/-- The names of built-in types are words. -/
theorem isWord_of_isPrimitiveType {word : Keyword} (h : word.isPrimitiveType = true) :
    (keyword word).isWord = true := by
  cases word <;> first | rfl | cases h

/-- A relational operator stands within a statement; `<` begins none. -/
theorem isMidway_of_isRelational {kind : TokenKind} (h : kind.isRelational = true) :
    kind.isMidway = true := by
  cases kind with
  | mark m => cases m <;> first | rfl | cases h
  | _ => cases h

/-- The marks of assignments are barred nowhere. -/
theorem isWord_of_isAssignment {kind : TokenKind} (h : kind.isAssignment = true) :
    kind.isWord = true := by
  cases kind with
  | mark m => cases m <;> first | rfl | cases h
  | _ => cases h

end TokenKind

/-- None of what stands within a statement ends one. -/
theorem isInnerClass_of_isMidway {p : TokenKind → Bool}
    (h : ∀ kind, p kind = true → kind.isMidway = true) :
    IsInnerClass p := by
  have hfalse (kind : TokenKind) (hkind : kind.isMidway = false) : p kind = false := by
    cases hp : p kind with
    | false => rfl
    | true =>
      rw [h kind hp] at hkind
      cases hkind
  exact ⟨hfalse _ rfl, hfalse _ rfl⟩

/-- What a phrase may read: an inner token inside of a statement, a word anywhere, and, where it is
not barred, the mark that opens attributes. -/
structure Readable (strict inside : Bool) (p : TokenKind → Bool) : Prop where
  isMidway : ∀ kind, p kind = true → kind.isMidway = true
  closer : inside = false → p (.keyword .kwEnd) = false
  less : inside = false → strict = true → p (.mark .less) = false

namespace Readable

variable {strict inside : Bool} {p : TokenKind → Bool} {kind : TokenKind}

/-- What may be read is no parenthesis and no end of a statement. -/
theorem isWordClass (h : Readable strict inside p) : IsWordClass strict inside p := by
  have hfalse (kind : TokenKind) (hkind : kind.isMidway = false) : p kind = false := by
    cases hp : p kind with
    | false => rfl
    | true =>
      rw [h.isMidway kind hp] at hkind
      cases hkind
  exact ⟨hfalse _ rfl, hfalse _ rfl, hfalse _ rfl, h.closer, h.less⟩

theorem isInnerClass (h : Readable strict inside p) : IsInnerClass p :=
  isInnerClass_of_isMidway h.isMidway

/-- A class of words may be read wherever a phrase is. -/
theorem of_isWord (h : ∀ kind, p kind = true → kind.isWord = true) : Readable strict inside p := by
  have hfalse (kind : TokenKind) (hkind : kind.isWord = false) : p kind = false := by
    cases hp : p kind with
    | false => rfl
    | true =>
      rw [h kind hp] at hkind
      cases hkind
  exact ⟨fun kind hkind => TokenKind.isMidway_of_isWord (h kind hkind), fun _ => hfalse _ rfl,
    fun _ _ => hfalse _ rfl⟩

/-- A word may be read wherever a phrase is. -/
theorem word (h : kind.isWord = true) : Readable strict inside (· == kind) :=
  of_isWord fun _ hkind => beq_iff_eq.1 hkind ▸ h

/-- One of two words. -/
theorem either {k k' : TokenKind} (h : k.isWord = true) (h' : k'.isWord = true) :
    Readable strict inside (fun kind => kind == k || kind == k') := by
  refine of_isWord fun kind hkind => ?_
  rcases Bool.or_eq_true_iff.1 hkind with hkind | hkind
  · exact beq_iff_eq.1 hkind ▸ h
  · exact beq_iff_eq.1 hkind ▸ h'

/-- The mark that opens attributes, where it is not barred. -/
theorem opening (h : inside = true ∨ strict = false) :
    Readable strict inside (· == .mark .less) := by
  refine ⟨fun _ hkind => beq_iff_eq.1 hkind ▸ rfl, fun _ => rfl, fun hinside hstrict => ?_⟩
  rcases h with h | h
  · rw [h] at hinside
    cases hinside
  · rw [h] at hstrict
    cases hstrict

/-- Inside a statement any inner token may be read. -/
theorem midway (h : kind.isMidway = true) : Readable strict true (· == kind) :=
  ⟨fun _ hkind => beq_iff_eq.1 hkind ▸ h, Bool.noConfusion, Bool.noConfusion⟩

end Readable

-- ---------------------------------------------------------------------------
-- Looks that are the same in two runs
-- ---------------------------------------------------------------------------

namespace Production

open State

variable {δ : Nat} {strict : Bool} {spot : Spot} {closing lands : Bool} {α α' β β' γ : Type}

/-- What a look tells depends on the tokens up to the end of the line, and on whether an `If` on a
single line is being read. -/
def Nearsighted (seen : Env → State → α) : Prop :=
  ∀ env env' s s', (∀ k, (∀ j < k, env.kindAhead s j ≠ .newline) →
    env'.kindAhead s' k = env.kindAhead s k) → s'.singleLineIfs = s.singleLineIfs →
    seen env' s' = seen env s

namespace Nearsighted

/-- A look at the next token. -/
theorem kind (f : TokenKind → α) : Nearsighted fun env s => f (env.kind s) := by
  intro env env' s s' hkinds _
  have hkind : env'.kind s' = env.kind s := hkinds 0 fun _ hj => absurd hj (Nat.not_lt_zero _)
  exact congrArg f hkind

/-- A look for tokens of given kinds ends with the first that is of another kind. -/
theorem hasAhead {kinds : List TokenKind} (h : .newline ∉ kinds.dropLast) :
    Nearsighted fun env s => env.hasAhead s kinds := by
  intro env env' s s' hkinds _
  have hfrom (n : Nat) (hn : ∀ j < n, env.kindAhead s j ≠ .newline) :
      ((kinds.zipIdx n).all fun pair => env'.kindAhead s' pair.2 == pair.1) =
        (kinds.zipIdx n).all fun pair => env.kindAhead s pair.2 == pair.1 := by
    induction kinds generalizing n with
    | nil => rfl
    | cons kind rest ih =>
      rw [List.zipIdx_cons, List.all_cons, List.all_cons]
      change (env'.kindAhead s' n == kind && _) = (env.kindAhead s n == kind && _)
      rw [hkinds n hn]
      by_cases hkind : env.kindAhead s n = kind
      · cases rest with
        | nil => rfl
        | cons next rest =>
          rw [List.dropLast_cons_cons, List.mem_cons, not_or] at h
          refine congrArg _ (ih h.2 (n + 1) fun j hj => ?_)
          rcases Nat.lt_succ_iff_lt_or_eq.1 hj with hj | rfl
          · exact hn j hj
          · exact hkind ▸ Ne.symm h.1
      · rw [show (env.kindAhead s n == kind) = false from beq_eq_false_iff_ne.2 hkind]
        rfl
  exact hfrom 0 fun _ hj => absurd hj (Nat.not_lt_zero _)

/-- A look behind a token that does not end the line. -/
theorem behind {p : TokenKind → Bool} {q : Env → State → Bool} (hp : p .newline = false)
    (hq : ∀ env env' s s', env.kindAhead s 0 ≠ .newline →
      (∀ k, (∀ j < k, env.kindAhead s j ≠ .newline) → env'.kindAhead s' k = env.kindAhead s k) →
      q env' s' = q env s) :
    Nearsighted fun env s => p (env.kind s) && q env s := by
  intro env env' s s' hkinds _
  have hfirst : env'.kind s' = env.kind s := hkinds 0 fun _ hj => absurd hj (Nat.not_lt_zero _)
  change (p (env'.kind s') && q env' s') = (p (env.kind s) && q env s)
  rw [hfirst]
  cases hkind : p (env.kind s) with
  | false => rfl
  | true =>
    refine congrArg _ (hq env env' s s' (fun h => ?_) hkinds)
    rw [show env.kind s = _ from h, hp] at hkind
    cases hkind

/-- A look at two tokens. -/
theorem pair {p q : TokenKind → Bool} (hp : p .newline = false) :
    Nearsighted fun env s => p (env.kind s) && q (env.kindAhead s 1) := by
  refine behind hp fun env env' s s' hfirst hkinds => congrArg q (hkinds 1 fun j hj => ?_)
  obtain rfl := Nat.lt_one_iff.1 hj
  exact hfirst

/-- Of two looks. -/
theorem map₂ {γ : Type} {f : Env → State → α} {g : Env → State → β} (op : α → β → γ)
    (hf : Nearsighted f) (hg : Nearsighted g) : Nearsighted fun env s => op (f env s)
    (g env s) := by
  intro env env' s s' hkinds hifs
  exact congrArg₂ op (hf env env' s s' hkinds hifs) (hg env env' s s' hkinds hifs)

/-- What depends on no more than the line ahead is the same in both runs. -/
theorem steady {seen : Env → State → α} (h : Nearsighted seen) : Steady δ spot seen := by
  intro m env env' s s' henv hs hreach _
  exact h env env' s s' (fun k hk => hs.kindAhead henv hreach hk) hs.singleLineIfs

end Nearsighted

/-- The token behind one that is known not to end the line. -/
theorem Steady.peekAhead {inside : Bool} {c : TokenKind → Bool} {cs : List (TokenKind → Bool)}
    (hc : c .newline = false) (f : TokenKind → α) :
    Steady δ ⟨inside, c :: cs⟩ fun env s => f (env.kindAhead s 1) := by
  intro m env env' s s' henv hs hreach hspot
  have hnewline : env.kindAhead s 0 ≠ .newline := fun h => by
    have hkind := hspot.kind
    rw [show env.kind s = _ from h, hc] at hkind
    cases hkind
  have hsecond : env'.kindAhead s' 1 = env.kindAhead s 1 := by
    refine hs.kindAhead henv hreach fun j hj => ?_
    obtain rfl := Nat.lt_one_iff.1 hj
    exact hnewline
  exact congrArg f hsecond

-- ---------------------------------------------------------------------------
-- Rounds that read a token
-- ---------------------------------------------------------------------------

/-- A token that may be there is a look at it and a branch. -/
theorem accept_bind (kind : TokenKind) (k : Bool → Parse α) :
    (accept kind >>= k) = atKind kind >>= fun x =>
      if x = true then Production.take >>= fun _ => k true else k false := by
  unfold accept
  rw [bind_assoc]
  refine congrArg _ (funext fun x => ?_)
  split
  · rw [bind_assoc]
    rfl
  · rfl

/-- What goes forward goes on. -/
theorem Climbs.of_steps {p : Parse α} {m : Manner} {b : Bool} (h : Steps m 0 b p)
    [hm : AtMost m .quiet] : Climbs p := by
  intro env s hs
  have houtcome := h env s (.zero hs)
  cases hrun : p env s with
  | ok a s' =>
    rw [hrun] at houtcome
    obtain ⟨ds, -, hadvanced⟩ := houtcome.2
    exact ⟨hadvanced.le_stop, hadvanced.stop_le, hadvanced.diagnostics ▸ List.suffix_append _ _⟩
  | error f s' =>
    rw [hrun] at houtcome
    obtain ⟨stop, -, hadvanced, -⟩ := houtcome.kept hm.le
    refine ⟨houtcome.le_cursor, Nat.le_trans houtcome.cursor_le houtcome.index_le, ?_⟩
    exact hadvanced.diagnostics ▸ List.suffix_refl _

namespace Progresses

variable {good : α → Prop} {m : Manner} {n : Nat}

/-- What reads a token at least goes forward. -/
theorem of_steps {p : Parse α} (h : Steps m n true p) [hn : AtMost n 1] :
    Progresses good p := by
  intro env s a s' hready hrun _
  have houtcome := h env s (hready.mono hn.le)
  rw [hrun] at houtcome
  exact houtcome.1 rfl

theorem pure {a : α} (h : ¬good a) : Progresses good (Pure.pure a) := by
  intro env s b s' _ hrun hb
  cases hrun
  exact absurd hb h

theorem look {p : Parse β} {seen : Env → State → β} {k : β → Parse α} (hp : Looks p seen)
    (hk : ∀ b, Progresses good (k b)) : Progresses good (p >>= k) := by
  intro env s a s' hready hrun ha
  rw [hp.run_bind] at hrun
  exact hk _ env s a s' hready hrun ha

theorem ite {c : Prop} [Decidable c] {p q : Parse α} (hp : Progresses good p)
    (hq : Progresses good q) : Progresses good (if c then p else q) := by
  split
  · exact hp
  · exact hq

theorem child {p : Parse Node} (hp : Progresses (fun _ => True) p) {good : Unit → Prop} :
    Progresses good p.child := by
  intro env s a s' hready hrun _
  obtain ⟨n, s₁, hfirst, hrest⟩ := bind_eq_ok hrun
  cases hrest
  exact hp env s n s₁ hready hfirst trivial

theorem some {p : Parse α} (hp : Progresses (fun _ => True) p) {good : Option α → Prop} :
    Progresses good (Option.some <$> p) := by
  rw [map_eq_pure_bind]
  intro env s a s' hready hrun _
  obtain ⟨b, s₁, hfirst, hrest⟩ := bind_eq_ok hrun
  cases hrest
  exact hp env s b _ hready hfirst trivial

theorem nodeFrom {n : Node} {rule : Rule} {body : Parse Unit}
    (hbody : Progresses (fun _ => True) body) {good : Node → Prop} :
    Progresses good (Production.nodeFrom n rule body) := by
  intro env s a s' hready hrun _
  obtain ⟨s₁, hrun₁, hcursor⟩ := construct_eq_ok hrun
  rw [hcursor]
  exact hbody env { s with children := [], isPartial := false } () s₁ hready hrun₁ trivial

/-- What reads a token behind a part that reads none. -/
theorem behind {p : Parse β} {k : β → Parse α}
    (hp : ∀ env s b s', p env s = .ok b s' → s'.cursor = s.cursor)
    (hk : ∀ b, Progresses good (k b)) : Progresses good (p >>= k) := by
  intro env s a s' hready hrun ha
  obtain ⟨b, s₁, hfirst, hrest⟩ := bind_eq_ok hrun
  have hcursor := hp env s b s₁ hfirst
  rw [← hcursor] at hready ⊢
  exact hk b env s₁ a s' hready hrest ha

/-- What reads a token first. -/
theorem first {p : Parse β} {k : β → Parse α} (hp : Progresses (fun _ => True) p)
    (hclimbs : Climbs p) (hk : ∀ b, Climbs (k b)) : Progresses good (p >>= k) := by
  intro env s a s' hready hrun _
  obtain ⟨b, s₁, hfirst, hrest⟩ := bind_eq_ok hrun
  have hlater := hclimbs.ok hready.le_size hfirst
  have hlater₁ := (hk b).ok hlater.le_size hrest
  exact Nat.lt_of_lt_of_le (hp env s b s₁ hready hfirst trivial) hlater₁.cursor

/-- A round that attaches something. -/
theorem round {p : Parse β} {a : α} (h : Steps m n true p) [hn : AtMost n 1] :
    Progresses good (p >>= fun _ => Pure.pure a) := by
  intro env s b s' hready hrun _
  obtain ⟨c, s₁, hfirst, hrest⟩ := bind_eq_ok hrun
  cases hrest
  have hprogresses : Progresses (fun _ => True) p := of_steps h
  exact hprogresses env s c _ hready hfirst trivial

theorem take {good : Unit → Prop} : Progresses good Production.take := of_steps ReadsOne.take.1

/-- What goes on only behind a token. -/
theorem accept {kind : TokenKind} {k : Bool → Parse α} (hk : Climbs (k true))
    (hk' : Progresses good (k false)) : Progresses good (Production.accept kind >>= k) := by
  rw [accept_bind]
  exact look (Looks.test _) fun _ => ite (first take Climbs.take fun _ => hk) hk'

end Progresses

-- ---------------------------------------------------------------------------
-- Derived rules
-- ---------------------------------------------------------------------------

/-- What the production does is the same in two runs. -/
@[reducible] def Flows (δ : Nat) (strict : Bool) (spot : Spot) (lands : Bool) (p : Parse α) :
    Prop :=
  Phrase δ strict spot false lands Eq p p

/-- The node that the production gives is the same in two runs. -/
@[reducible] def Gives (δ : Nat) (strict : Bool) (spot : Spot) (lands : Bool) (p : Parse Node) :
    Prop :=
  Phrase δ strict spot false lands (Node.Alike δ) p p

namespace Phrase

variable {inside lands₁ : Bool} {c : TokenKind → Bool} {cs : List (TokenKind → Bool)}
  {r : α → β → Prop} {r' : α' → β' → Prop} {p q : Parse α} {p' q' : Parse β}

/-- A phrase that needs no more than to be inside of a statement, or not even that. -/
theorem «at» (hp : Phrase δ strict (.plain spot.inside) closing lands r p p') :
    Phrase δ strict spot closing lands r p p' :=
  .mono hp (fun _ _ h => h.plain) id

/-- What relies on nothing at its place is a phrase at all places. -/
theorem anywhere (hp : Phrase δ strict (.plain false) closing lands r p p') :
    Phrase δ strict spot closing lands r p p' :=
  .mono hp (fun _ _ _ => Spot.holds_plain nofun) id

/-- A phrase that ends inside of a statement. -/
theorem still (hp : Phrase δ strict spot closing true r p p') :
    Phrase δ strict spot closing lands r p p' :=
  .mono hp (fun _ _ h => h) fun _ => rfl

/-- Inside of a statement a phrase may begin that may begin anywhere else. -/
theorem onward (hp : Phrase δ strict (.plain inside) closing lands r p p') :
    Phrase δ strict (.plain true) closing lands r p p' :=
  .mono hp (fun _ _ h => Spot.holds_plain fun _ => h.inside rfl) id

theorem ite {x : Prop} [Decidable x] (hp : x → Phrase δ strict spot closing lands r p p')
    (hq : ¬x → Phrase δ strict spot closing lands r q q') :
    Phrase δ strict spot closing lands r (if x then p else q) (if x then p' else q') := by
  split
  · exact hp ‹_›
  · exact hq ‹_›

/-- The second of two parts begins where the first one lands. -/
theorem seq {p p' : Parse γ} {q : Parse α} {q' : Parse β}
    (hp : Phrase δ strict spot false lands₁ Eq p p')
    (hq : Phrase δ strict (.plain lands₁) closing lands r q q') :
    Phrase δ strict spot closing lands r (p >>= fun _ => q) (p' >>= fun _ => q') :=
  .bind hp fun _ _ _ => hq

/-- What is done behind something that may end wherever it likes. -/
theorem seqAny {p p' : Parse γ} {q : Parse α} {q' : Parse β}
    (hp : Phrase δ strict spot false false Eq p p')
    (hq : Phrase δ strict (.plain false) closing lands r q q') :
    Phrase δ strict spot closing lands r (p >>= fun _ => q) (p' >>= fun _ => q') :=
  seq hp hq

/-- Below the limit of nesting. -/
theorem checked (hp : Phrase δ strict (.plain spot.inside) closing lands r p p') :
    Phrase δ strict spot closing lands r (Production.checkDepth >>= fun _ => p)
      (Production.checkDepth >>= fun _ => p') :=
  seq .checkDepth hp

theorem some [Partnered r] (hp : Phrase δ strict spot false lands r p p') :
    Phrase δ strict spot false lands (OptionAlike r) (Option.some <$> p) (Option.some <$> p') := by
  rw [map_eq_pure_bind, map_eq_pure_bind]
  exact .bind hp fun _ _ h => .pure h

theorem none : Phrase δ strict spot false spot.inside (OptionAlike r) (Pure.pure Option.none)
    (Pure.pure Option.none) :=
  .pure trivial

theorem attach {n n' : Node} (h : n.Alike δ n') :
    Phrase δ strict spot false spot.inside Eq (Production.attach n) (Production.attach n') := by
  rw [← bind_pure (Production.attach n), ← bind_pure (Production.attach n')]
  exact .attachThen h (.pure rfl)

/-- A failure is the same in both runs. -/
theorem failThen (e : Expected) {k : α' → Parse α} {k' : α' → Parse β} :
    Phrase δ strict spot closing lands r (Production.fail e >>= k) (Production.fail e >>= k') :=
  .fail e

-- ---------------------------------------------------------------------------
-- Choices
-- ---------------------------------------------------------------------------

/-- What is done behind a look at the next token knows that token. -/
theorem peek {k : TokenKind → Parse α} {k' : TokenKind → Parse β}
    (hk : ∀ kind, Phrase δ strict (.before spot.inside (· == kind)) closing lands r (k kind)
      (k' kind)) :
    Phrase δ strict spot closing lands r (Production.peek >>= k) (Production.peek >>= k') := by
  refine .look Looks.peek (Nearsighted.kind id).steady (fun kind => .before spot.inside (· == kind))
    (fun env s h => ?_) hk
  exact h.before (beq_self_eq_true _)

/-- What is done behind a look at the token behind the next one, which does not end the line. -/
theorem peekNext {k : TokenKind → Parse α} {k' : TokenKind → Parse β}
    (hc : c .newline = false)
    (hk : ∀ kind, Phrase δ strict ⟨inside, c :: cs⟩ closing lands r (k kind) (k' kind)) :
    Phrase δ strict ⟨inside, c :: cs⟩ closing lands r (Production.peekAhead 1 >>= k)
      (Production.peekAhead 1 >>= k') :=
  .look (Looks.peekAhead 1) (Steady.peekAhead hc id) (fun _ => ⟨inside, c :: cs⟩)
    (fun _ _ h => h) hk

/-- A choice by a test that tells something of the tokens ahead. -/
theorem ifTest {seen : Env → State → Bool} (cs : List (TokenKind → Bool))
    (hseen : Steady δ spot seen)
    (hcs : ∀ env s, spot.Holds env s → seen env s = true → env.tokens.AllAhead s.cursor cs)
    (hp : Phrase δ strict ⟨spot.inside, cs⟩ closing lands r p p')
    (hq : Phrase δ strict (.plain spot.inside) closing lands r q q') :
    Phrase δ strict spot closing lands r (test seen >>= fun x => if x = true then p else q)
      (test seen >>= fun x => if x = true then p' else q') := by
  refine .look (Looks.test _) hseen
    (fun x => if x = true then ⟨spot.inside, cs⟩ else .plain spot.inside)
    (fun env s h => ?_) fun x => ?_
  · split
    · exact ⟨h.inside, hcs env s h ‹_›⟩
    · exact h.plain
  · cases x with
    | true => exact hp
    | false => exact hq

/-- A choice by two rows of tokens ahead, which say what the next token is. -/
theorem ifRows {k₁ k₂ k₁' k₂' : TokenKind} (hk : k₁ ≠ .newline) (hk' : k₁' ≠ .newline)
    (hp : Phrase δ strict ⟨spot.inside,
      [fun kind => kind == k₁ || kind == k₁', fun kind => kind == k₂ || kind == k₂']⟩ closing lands
      r p p')
    (hq : Phrase δ strict (.plain spot.inside) closing lands r q q') :
    Phrase δ strict spot closing lands r
      (test (fun env s => env.hasAhead s [k₁, k₂] || env.hasAhead s [k₁', k₂']) >>= fun x =>
        if x = true then p else q)
      (test (fun env s => env.hasAhead s [k₁, k₂] || env.hasAhead s [k₁', k₂']) >>= fun x =>
        if x = true then p' else q') := by
  have hrow {k k' : TokenKind} (hk : k ≠ .newline) : .newline ∉ [k, k'].dropLast := by
    simpa using Ne.symm hk
  refine ifTest [_, _] (Nearsighted.map₂ or (.hasAhead (hrow hk)) (.hasAhead (hrow hk'))).steady
    (fun env s _ h => ?_) hp hq
  rcases Bool.or_eq_true_iff.1 h with h | h
  · obtain ⟨hfirst, h⟩ := Bool.and_eq_true_iff.1 h
    exact ⟨Bool.or_eq_true_iff.2 (.inl hfirst),
      Bool.or_eq_true_iff.2 (.inl (Bool.and_eq_true_iff.1 h).1), trivial⟩
  · obtain ⟨hfirst, h⟩ := Bool.and_eq_true_iff.1 h
    exact ⟨Bool.or_eq_true_iff.2 (.inr hfirst),
      Bool.or_eq_true_iff.2 (.inr (Bool.and_eq_true_iff.1 h).1), trivial⟩

/-- A choice by a test that tells nothing. -/
theorem ifLook {seen : Env → State → Bool} (hseen : Steady δ spot seen)
    (hp : Phrase δ strict (.plain spot.inside) closing lands r p p')
    (hq : Phrase δ strict (.plain spot.inside) closing lands r q q') :
    Phrase δ strict spot closing lands r (test seen >>= fun x => if x = true then p else q)
      (test seen >>= fun x => if x = true then p' else q') :=
  ifTest [] hseen (fun _ _ _ _ => trivial) hp hq

/-- A branch on the token ahead, which the first of the two then knows. -/
theorem ifAt {kind : TokenKind}
    (hp : Phrase δ strict (.before spot.inside (· == kind)) closing lands r p p')
    (hq : Phrase δ strict (.plain spot.inside) closing lands r q q') :
    Phrase δ strict spot closing lands r (atKind kind >>= fun x => if x = true then p else q)
      (atKind kind >>= fun x => if x = true then p' else q') :=
  ifTest [_] (Nearsighted.kind (· == kind)).steady (fun _ _ _ h => ⟨h, trivial⟩) hp hq

/-- Something that is done at a token of a kind, and what is done afterwards in either case. -/
theorem whenAt {kind : TokenKind} {p p' : Parse γ} {q : Parse α} {q' : Parse β}
    (hp : Phrase δ strict (.before spot.inside (· == kind)) false true Eq p p')
    (hq : Phrase δ strict (.plain spot.inside) closing lands r q q') :
    Phrase δ strict spot closing lands r
      (atKind kind >>= fun x => if x = true then p >>= fun _ => q else q)
      (atKind kind >>= fun x => if x = true then p' >>= fun _ => q' else q') :=
  ifAt (seq hp hq.onward) hq

/-- A choice by two kinds. -/
theorem ifEither {k₁ k₂ : TokenKind}
    (hp : Phrase δ strict (.before spot.inside fun kind => kind == k₁ || kind == k₂) closing lands r
      p p')
    (hq : Phrase δ strict (.plain spot.inside) closing lands r q q') :
    Phrase δ strict spot closing lands r
      (atKind k₁ >>= fun x => atKind k₂ >>= fun y => if (x || y) = true then p else q)
      (atKind k₁ >>= fun x => atKind k₂ >>= fun y => if (x || y) = true then p' else q') :=
  have hseen : Steady δ spot fun env s => env.kind s == k₁ || env.kind s == k₂ :=
    (Nearsighted.kind fun kind => kind == k₁ || kind == k₂).steady
  ifTest [_] hseen (fun _ _ _ h => ⟨h, trivial⟩) hp hq

/-- A choice by two kinds that remembers which of them it was. -/
theorem ifEitherOf {k₁ k₂ : TokenKind} {p q : Bool → Parse α} {p' q' : Bool → Parse β}
    (hp : ∀ x, Phrase δ strict (.before spot.inside fun kind => kind == k₁ || kind == k₂)
      closing lands
      r (p x) (p' x))
    (hq : ∀ x, Phrase δ strict (.plain spot.inside) closing lands r (q x) (q' x)) :
    Phrase δ strict spot closing lands r
      (atKind k₁ >>= fun x => atKind k₂ >>= fun y => if (x || y) = true then p x else q x)
      (atKind k₁ >>= fun x => atKind k₂ >>= fun y => if (x || y) = true then p' x else q' x) := by
  have hfirst : Steady δ spot fun env s => env.kind s == k₁ := (Nearsighted.kind (· == k₁)).steady
  refine .look (Looks.test _) hfirst (fun x => if x = true then .before spot.inside (· == k₁)
    else .plain spot.inside) (fun env s h => ?_) fun x => ?_
  · split
    · exact h.before ‹_›
    · exact h.plain
  · cases x with
    | false =>
      refine ifTest [_] (Nearsighted.kind (· == k₂)).steady (fun _ _ _ h => ?_)
        (hp false) (hq false)
      exact ⟨Bool.or_eq_true_iff.2 (.inr h), trivial⟩
    | true =>
      refine .look (Looks.test _) (Nearsighted.kind (· == k₂)).steady
        (fun _ => .before spot.inside (· == k₁)) (fun _ _ h => h) fun _ => ?_
      exact .mono (hp true) (fun _ _ h => h.before (Bool.or_eq_true_iff.2 (.inl h.kind))) id

/-- A look that is all there is. -/
theorem see {seen : Env → State → Bool} (hseen : Steady δ spot seen) :
    Phrase δ strict spot false spot.inside Eq (test seen) (test seen) := by
  rw [← bind_pure (test seen)]
  exact .look (Looks.test _) hseen (fun _ => .plain spot.inside) (fun _ _ h => h.plain)
    fun _ => .pure rfl

-- ---------------------------------------------------------------------------
-- Tokens
-- ---------------------------------------------------------------------------

theorem child {p p' : Parse Node} (hp : Phrase δ strict spot false lands (Node.Alike δ) p p') :
    Phrase δ strict spot false lands Eq p.child p'.child :=
  .bind hp fun _ _ h => .attach h

theorem field (f : Field) {p p' : Parse Node}
    (hp : Phrase δ strict spot false lands (Node.Alike δ) p p') :
    Phrase δ strict spot false lands Eq (p.field f) (p'.field f) :=
  .bind hp fun _ _ h => .attach (h.inField f)

/-- A part one level down. -/
theorem childNested {p p' : Parse Node}
    (hp : Phrase δ strict spot false lands (Node.Alike δ) p p') :
    Phrase δ strict spot false lands Eq p.nested.child p'.nested.child :=
  child (.nested hp)

theorem fieldNested (f : Field) {p p' : Parse Node}
    (hp : Phrase δ strict spot false lands (Node.Alike δ) p p') :
    Phrase δ strict spot false lands Eq (p.nested.field f) (p'.nested.field f) :=
  field f (.nested hp)

theorem wrap (rule : Rule) {n n' : Node} (h : n.Alike δ n') :
    Phrase δ strict spot false spot.inside (Node.Alike δ) (Production.wrap rule n)
      (Production.wrap rule n') :=
  .nodeFrom h rule (.attach h)

theorem wrapped (rule : Rule) {p p' : Parse Node}
    (hp : Phrase δ strict spot false lands (Node.Alike δ) p p') :
    Phrase δ strict spot false lands (Node.Alike δ) (p >>= Production.wrap rule)
      (p' >>= Production.wrap rule) :=
  .bind hp fun _ _ h => wrap rule h

/-- A token of a class that may be read, as a node of its own. -/
theorem ruleLeaf (rule : Rule) (hc : Readable strict inside c) :
    Gives δ strict ⟨inside, c :: cs⟩ true (Production.ruleLeaf rule) :=
  .leaf _ hc.isWordClass fun _ => hc.isInnerClass

/-- A token of a class that may be read, as a leaf. -/
theorem token (hc : Readable strict inside c) :
    Gives δ strict ⟨inside, c :: cs⟩ true Production.tokenLeaf :=
  .tokenLeaf hc.isWordClass fun _ => hc.isInnerClass

theorem take (hc : Readable strict inside c) :
    Flows δ strict ⟨inside, c :: cs⟩ true Production.take :=
  child (token hc)

/-- The end of a statement in the middle of a list, and what is done behind it. -/
theorem takeColonThen {p : Parse α} {p' : Parse β} (hc : IsWordClass strict inside c)
    (hp : Phrase δ strict ⟨false, cs⟩ closing lands r p p') :
    Phrase δ strict ⟨inside, c :: cs⟩ closing lands r (Production.take >>= fun _ => p)
      (Production.take >>= fun _ => p') :=
  bindOne (child (tokenLeaf hc fun (h : false = true) => Bool.noConfusion h)) ReadsOne.take.2
    hc.endOfFile (fun (h : false = true) => Bool.noConfusion h) fun _ _ _ => hp

/-- A line end that may be there. -/
theorem skipNewline {b : γ} : Phrase δ strict spot false false Eq
    (atKind .newline >>= fun x =>
      if x = true then Production.skip >>= fun _ => Pure.pure b else Pure.pure b)
    (atKind .newline >>= fun x =>
      if x = true then Production.skip >>= fun _ => Pure.pure b else Pure.pure b) :=
  ifAt (seqAny (.skip ⟨rfl, rfl, rfl, fun _ => rfl, fun _ _ => rfl⟩) (.pure rfl))
    (.mono (.pure rfl) (fun _ _ h => h) Bool.noConfusion)

/-- A token of a kind that has to be there. -/
theorem ifTake {kind : TokenKind} (h : Readable strict spot.inside (· == kind)) (e : Expected) :
    Phrase δ strict spot false true Eq
      (atKind kind >>= fun x => if x = true then Production.take else Production.fail e)
      (atKind kind >>= fun x => if x = true then Production.take else Production.fail e) :=
  ifAt (take h) (.fail e)

theorem expectWord {word : Keyword} (h : Readable strict spot.inside (· == .keyword word)) :
    Flows δ strict spot true (Production.expectWord word) :=
  ifTake h _

theorem expectMark {mark : Mark} (h : Readable strict spot.inside (· == .mark mark)) :
    Flows δ strict spot true (Production.expectMark mark) :=
  ifTake h _

theorem expectEnd {mark : Mark} (h : Readable strict spot.inside (· == .mark mark)) :
    Flows δ strict spot true (Production.expectEnd mark) :=
  ifTake h _

/-- A choice by whether a token that may be there is. -/
theorem ifAccept {kind : TokenKind} {k : Bool → Parse α} {k' : Bool → Parse β}
    (hkind : Readable strict spot.inside (· == kind))
    (hk : Phrase δ strict (.plain true) closing lands r (k true) (k' true))
    (hk' : Phrase δ strict (.plain spot.inside) closing lands r (k false) (k' false)) :
    Phrase δ strict spot closing lands r (accept kind >>= k) (accept kind >>= k') := by
  rw [accept_bind, accept_bind]
  exact ifAt (seq (take hkind) hk) hk'

theorem acceptAny {kind : TokenKind} (hkind : Readable strict spot.inside (· == kind)) :
    Phrase δ strict spot false spot.inside Eq (accept kind) (accept kind) :=
  ifAt (seq (take hkind) (.mono (.pure rfl) (fun _ _ h => h) fun _ => rfl)) (.pure rfl)

theorem identifier : Gives δ strict spot true Production.identifier := by
  refine peek fun kind => ite (fun h => ?_) fun _ => .fail _
  exact ruleLeaf _ (.word (TokenKind.isWord_of_isNameLike h))

theorem memberName (hinside : spot.inside = true) :
    Gives δ strict spot true Production.memberName := by
  refine peek fun kind => ?_
  rw [hinside]
  split
  · exact ruleLeaf _ (.midway rfl)
  · exact ruleLeaf _ (.midway rfl)
  · exact .fail _

-- ---------------------------------------------------------------------------
-- Repetitions
-- ---------------------------------------------------------------------------

/-- Rounds of which each is the same in both runs and goes forward. -/
theorem repeatWhile {step step' : Parse Bool}
    (hstep : Phrase δ strict (.plain spot.inside) false spot.inside Eq step step')
    (hmoves : Progresses (· = true) step) :
    Phrase δ strict spot false spot.inside Eq (Production.repeatWhile step)
      (Production.repeatWhile step') := by
  refine .iterate (fun _ _ _ => .bind hstep fun b b' hb => ?_) (fun _ => ?_) rfl
  · subst hb
    cases b with
    | true => exact .pure rfl
    | false => exact .pure trivial
  · intro env s a s' hready hrun ha
    obtain ⟨b, s₁, hfirst, hrest⟩ := bind_eq_ok hrun
    cases b with
    | true =>
      cases hrest
      exact hmoves env s true _ hready hfirst rfl
    | false =>
      cases hrest
      cases ha

/-- Rounds that begin with a token that may be there. -/
theorem repeatAccept {kind : TokenKind} {item item' : Parse Unit}
    (hkind : Readable strict spot.inside (· == kind))
    (hitem : Phrase δ strict (.plain true) false true Eq item item') :
    Phrase δ strict spot false spot.inside Eq
      (Production.repeatWhile do
        if ← accept kind then
          item
          return true
        return false)
      (Production.repeatWhile do
        if ← accept kind then
          item'
          return true
        return false) := by
  have hround :
      Phrase δ strict (.plain true) false spot.inside Eq (item >>= fun _ => Pure.pure true)
      (item' >>= fun _ => Pure.pure true) :=
    seq hitem (.mono (.pure rfl) (fun _ _ h => h) fun _ => rfl)
  refine repeatWhile (ifAccept hkind hround (.pure rfl)) ?_
  exact .accept (hitem.climbs.bind fun _ => Climbs.pure true) (.pure nofun)

/-- Items and the commas between them; behind a comma the place is inside a statement. -/
theorem commaSeparated {item item' : Parse Unit}
    (hitem : Phrase δ strict spot false true Eq item item')
    (hitem' : Phrase δ strict (.plain true) false true Eq item item') :
    Phrase δ strict spot false true Eq (Production.commaSeparated item)
      (Production.commaSeparated item') :=
  seq hitem (repeatAccept (.word rfl) hitem')

end Phrase

end Production

end VisualBasic
