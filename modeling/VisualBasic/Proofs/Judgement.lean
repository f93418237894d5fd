import VisualBasic.Grammar.Block
import VisualBasic.Proofs.Reading

/-!
# Judgements about productions

What a production does to the reading of the node under construction. The grammar is judged line by
line, with one lemma for every way of putting productions together.

* `Steps` — the production attaches nodes that continue the reading of the node under construction.
* `Fills` — the same for a whole node, whose last step may find the closing line missing.
* `Builds` — the production gives one node, read from where the production began.
* `Attaches`, `Continues`, `Extends` — the production goes on from a node that is built but not yet
  attached, and attaches it, gives a node that has it as its first part, or perhaps gives one.
* `StepsAt`, `BuildsAt` — the same as `Steps` and `Builds` where a row of kinds is known to be
  ahead.

Each comes with a `Manner`, which says what may be left behind by the production, with the number of
tokens that have to be ahead of it, and with whether it moves on when it succeeds. The side
conditions about manners, numbers and constants of the grammar are classes, so that no step has to
prove them: `AtMost` and `Holds`.

Main results:

* `Steps.bind`, `Fills.bind` — judgements are chained.
* `Outcome.after` — what comes of a run behind a step forward.
-/

namespace VisualBasic

/-- Behind a token that is not the end of the text there is a place of its own. -/
theorem Env.next_eq_succ {env : Env} {i : Nat} (h : env.tokens.kindAt i ≠ .endOfFile) :
    env.next i = i + 1 :=
  Nat.min_eq_left (TokenStream.lt_size_of_kindAt_ne h)

/-- The cursor goes on by one token at most. -/
theorem Env.next_le_succ (env : Env) (i : Nat) : env.next i ≤ i + 1 := Nat.min_le_left _ _

-- ---------------------------------------------------------------------------
-- Manners
-- ---------------------------------------------------------------------------

/-- What a production may leave behind, from the least to the most. -/
inductive Manner where
  /-- It has no diagnostics, and if it fails, all that it passed is attached. -/
  | inPlace
  /-- It has no diagnostics; if it fails, the last part of what it passed may be dropped. -/
  | quiet
  /-- It may have diagnostics. -/
  | loud
  /-- It may have diagnostics, and lose tokens of a header. -/
  | broken

namespace Manner

/-- The place of a manner in the order of what may be left behind. -/
def rank : Manner → Nat
  | inPlace => 0
  | quiet => 1
  | loud => 2
  | broken => 3

instance : LE Manner := ⟨fun a b => a.rank ≤ b.rank⟩

instance (a b : Manner) : Decidable (a ≤ b) := inferInstanceAs (Decidable (a.rank ≤ b.rank))

/-- Whether tokens of a header may be lost. -/
def gaps : Manner → Bool
  | broken => true
  | _ => false

theorem le_refl (a : Manner) : a ≤ a := Nat.le_refl a.rank

theorem le_trans {a b c : Manner} (h : a ≤ b) (h' : b ≤ c) : a ≤ c :=
  Nat.le_trans (m := b.rank) h h'

theorem inPlace_le (a : Manner) : inPlace ≤ a := Nat.zero_le a.rank

theorem eq_inPlace_of_le {a : Manner} (h : a ≤ inPlace) : a = inPlace := by
  cases a with
  | inPlace => rfl
  | quiet | loud | broken => exact absurd h (by decide)

theorem ne_inPlace_of_le {a : Manner} (h : quiet ≤ a) : a ≠ inPlace := by
  rintro rfl
  exact absurd h (by decide)

/-- What a manner may lose, one that is above it may lose. -/
theorem gaps_of_le {a b : Manner} (h : a ≤ b) (ha : a.gaps = true) : b.gaps = true := by
  cases a with
  | inPlace | quiet | loud => exact Bool.noConfusion ha
  | broken =>
    cases b with
    | broken => rfl
    | inPlace | quiet | loud => exact absurd h (by decide)

/-- Only the last of the manners may lose tokens. -/
theorem gaps_eq_false_of_le {a : Manner} (h : a ≤ loud) : a.gaps = false := by
  cases a with
  | inPlace | quiet | loud => rfl
  | broken => exact absurd h (by decide)

end Manner

-- ---------------------------------------------------------------------------
-- Side conditions
-- ---------------------------------------------------------------------------

/-- `a ≤ b`, as far as the search for instances can tell. -/
class AtMost {α : Type} [LE α] (a b : α) : Prop where
  le : a ≤ b

/-- A check of constants of the grammar that evaluates to `true`. -/
class Holds (b : Bool) : Prop where
  eq_true : b = true

instance : Holds true := ⟨rfl⟩

instance (a : Manner) : AtMost a a := ⟨a.le_refl⟩

instance (a : Manner) : AtMost .inPlace a := ⟨a.inPlace_le⟩

instance : AtMost Manner.quiet .loud := ⟨by decide⟩

instance : AtMost Manner.quiet .broken := ⟨by decide⟩

instance : AtMost Manner.loud .broken := ⟨by decide⟩

instance (n : Nat) : AtMost n n := ⟨Nat.le_refl n⟩

instance (n : Nat) : AtMost 0 n := ⟨Nat.zero_le n⟩

instance (m n : Nat) : AtMost n (max m n) := ⟨Nat.le_max_right m n⟩

instance (b : Bool) : AtMost b b := ⟨id⟩

instance (b : Bool) : AtMost false b := ⟨fun h => Bool.noConfusion h⟩

instance (b : Bool) : AtMost b true := ⟨fun _ => rfl⟩

instance (b c : Bool) : AtMost (b && !true) c :=
  ⟨fun h => Bool.noConfusion (Bool.and_eq_true_iff.1 h).2⟩

instance (b c : Bool) [h : AtMost b c] : AtMost (b && !false) c :=
  ⟨fun hb => h.le (Bool.and_eq_true_iff.1 hb).1⟩

/-- A field that is not the branch of an `If` on a single line. -/
@[reducible] def Field.isPlain : Field → Bool
  | .thenBranch => false
  | _ => true

/-- A kind of token that stands for some text. -/
@[reducible] def TokenKind.isPlain : TokenKind → Bool
  | .endOfFile => false
  | _ => true

/-- Whether what a manner loses may be lost among the children of a rule. -/
@[reducible] def Manner.suits : Manner → Rule → Bool
  | .broken, r => r.keepsBrokenHeader
  | _, _ => true

/-- A plain rule is not that of an error region. -/
theorem Rule.ne_error (r : Rule) [h : Holds r.isPlain] : r ≠ .error := by
  rintro rfl
  exact Bool.noConfusion h.eq_true

/-- A plain rule opens no block. -/
theorem Rule.opener?_eq_none (r : Rule) [h : Holds r.isPlain] : r.opener? = none := by
  have hplain := h.eq_true
  unfold Rule.isPlain at hplain
  split at hplain
  · cases hplain
  · cases hplain
  · cases hplain
  · assumption

/-- All that is said of the children of a plain rule is that there is a token among them. -/
theorem Shape.plain {t : TokenStream} {r : Rule} {i j : Nat} {isPartial : Bool} {cs : List Node}
    [h : Holds r.isPlain] (hij : t.Passes i j) : Shape t r i j isPartial cs := by
  refine ⟨hij, ?_, fun opener hopener => ?_, ?_⟩
  · rintro rfl
    exact Bool.noConfusion h.eq_true
  · rw [r.opener?_eq_none] at hopener
    cases hopener
  · rintro rfl
    exact Bool.noConfusion h.eq_true

/-- A plain field is not the branch behind `Then`. -/
theorem Field.ne_thenBranch (f : Field) [h : Holds f.isPlain] : f ≠ .thenBranch := by
  rintro rfl
  exact Bool.noConfusion h.eq_true

/-- A plain kind is not that of the end of the text. -/
theorem TokenKind.ne_endOfFile (kind : TokenKind) [h : Holds kind.isPlain] :
    kind ≠ .endOfFile := by
  rintro rfl
  exact Bool.noConfusion h.eq_true

/-- A rule whose children may lose tokens is one that keeps broken headers. -/
theorem Manner.keepsBrokenHeader_of_gaps (m : Manner) (r : Rule) [h : Holds (m.suits r)]
    (hm : m.gaps = true) : r.keepsBrokenHeader = true := by
  cases m with
  | broken => exact h.eq_true
  | inPlace | quiet | loud => exact Bool.noConfusion hm

/-- A reading in one manner is one in each above it. -/
theorem Reading.mono {t : TokenStream} {m m' : Manner} {i j : Nat} {ns : List Node}
    {ds : List Diagnostic} (h : Reading t m.gaps i j ns ds) (hm : m ≤ m') :
    Reading t m'.gaps i j ns ds := by
  cases hg : m.gaps
  · rw [hg] at h
    exact h.of_gaps_false _
  · rw [Manner.gaps_of_le hm hg]
    exact h.withGaps

-- ---------------------------------------------------------------------------
-- What happens to a state
-- ---------------------------------------------------------------------------

namespace State

/-- The state behind the token at the cursor, which has become a leaf of the given kind. -/
def withLeaf (s : State) (t : TokenStream) (kind : NodeKind) : State :=
  { s with
    cursor := s.cursor + 1
    children := .leaf kind (t.get s.cursor).span s.cursor :: s.children }

/-- The state `s'` has got from `s` to the token `stop` with some new children and diagnostics; the
blocks that are open are those of before. -/
structure Advanced (t : TokenStream) (gaps : Bool) (s : State) (stop : Nat) (ds : List Diagnostic)
    (s' : State) : Prop where
  children : ∃ new, s'.children = new ++ s.children ∧ Reading t gaps s.cursor stop new ds ∧
    ∀ c ∈ new, c.field ≠ some .thenBranch
  diagnostics : s'.diagnostics = ds ++ s.diagnostics
  isPartial : s'.isPartial = s.isPartial
  blocks : s'.blocks = s.blocks
  singleLineIfs : s'.singleLineIfs = s.singleLineIfs

/-- A production has succeeded in going on from `s`. -/
def Stepped (m : Manner) (t : TokenStream) (s s' : State) : Prop :=
  ∃ ds, (m ≤ .quiet → ds = []) ∧ Advanced t m.gaps s s'.cursor ds s'

/-- A production that began in `s` has failed in `s'`. The failure is noticed no earlier than where
the production gave up; how much of what it had read is attached is a matter of its manner. -/
structure Failed (m : Manner) (t : TokenStream) (s : State) (f : Failure) (s' : State) : Prop where
  le_cursor : s.cursor ≤ s'.cursor
  cursor_le : s'.cursor ≤ f.index
  index_le : f.index ≤ t.tokens.size
  kept : m ≤ .quiet → ∃ stop, stop ≤ s'.cursor ∧ Advanced t false s stop [] s' ∧
    (m = .inPlace → stop = s'.cursor)

/-- The children, the flags and the blocks of two states are the same. -/
structure SameContext (s s' : State) : Prop where
  children : s'.children = s.children
  isPartial : s'.isPartial = s.isPartial
  blocks : s'.blocks = s.blocks
  singleLineIfs : s'.singleLineIfs = s.singleLineIfs

/-- A node that a production has built between `s` and `s'`, and that is not attached yet. -/
structure Built (m : Manner) (t : TokenStream) (s : State) (n : Node) (s' : State) : Prop where
  firstToken : n.info.firstToken = s.cursor
  field : n.field = none
  isNamed : n.isNamed = true
  reading : ∃ ds, (m ≤ .quiet → ds = []) ∧ Reading t false s.cursor s'.cursor [n] ds ∧
    s'.diagnostics = ds ++ s.diagnostics
  same : SameContext s s'

/-- A production has gone on from `s` to the end of the node under construction, whose closing line
may be missing; `opened` tells whether it has left the innermost block. -/
structure Completed (m : Manner) (opened : Bool) (t : TokenStream) (s s' : State) : Prop where
  reading : ∃ new ds fs, s'.children = new ++ s.children ∧
    Reading t m.gaps s.cursor s'.cursor new ds ∧ Closing t s'.cursor s'.isPartial fs ∧
    s'.diagnostics = fs ++ ds ++ s.diagnostics
  blocks : s'.blocks = if opened then s.blocks.tail else s.blocks
  singleLineIfs : s'.singleLineIfs = s.singleLineIfs

/-- No child that is new since `s` is the first branch of an `If` on a single line. -/
def NoThenBranch (s s' : State) : Prop :=
  ∀ c ∈ s'.children, c ∈ s.children ∨ c.field ≠ some .thenBranch

section

variable {t : TokenStream} {m m' : Manner} {gaps : Bool} {s s₁ s' : State} {i : Nat}
  {ds es : List Diagnostic} {f : Failure}

/-- What has been read is in front of the place where reading stopped. -/
theorem Advanced.le_stop (h : Advanced t gaps s i ds s') : s.cursor ≤ i := by
  obtain ⟨_, _, hr, _⟩ := h.children
  exact hr.le_stop

/-- Reading stops within the text. -/
theorem Advanced.stop_le (h : Advanced t gaps s i ds s') : i ≤ t.tokens.size := by
  obtain ⟨_, _, hr, _⟩ := h.children
  exact hr.stop_le

/-- Nothing has happened. -/
theorem Advanced.refl (hs : s.cursor ≤ t.tokens.size) : Advanced t gaps s s.cursor [] s :=
  ⟨⟨[], rfl, .start hs, fun _ hc => absurd hc List.not_mem_nil⟩, rfl, rfl, rfl, rfl⟩

/-- One part is read behind the other. -/
theorem Advanced.trans (h : Advanced t gaps s s₁.cursor ds s₁) (h' : Advanced t gaps s₁ i es s') :
    Advanced t gaps s i (es ++ ds) s' := by
  obtain ⟨new, hnew, hr, hfield⟩ := h.children
  obtain ⟨new', hnew', hr', hfield'⟩ := h'.children
  refine ⟨⟨new' ++ new, ?_, hr.append hr', fun c hc => ?_⟩, ?_, ?_, ?_, ?_⟩
  · rw [hnew', hnew, List.append_assoc]
  · rcases List.mem_append.1 hc with hc | hc
    · exact hfield' c hc
    · exact hfield c hc
  · rw [h'.diagnostics, h.diagnostics, List.append_assoc]
  · rw [h'.isPartial, h.isPartial]
  · rw [h'.blocks, h.blocks]
  · rw [h'.singleLineIfs, h.singleLineIfs]

/-- What was read in one manner was read in each above it. -/
theorem Advanced.mono (h : Advanced t m.gaps s i ds s') (hm : m ≤ m') :
    Advanced t m'.gaps s i ds s' := by
  obtain ⟨new, hnew, hr, hfield⟩ := h.children
  exact ⟨⟨new, hnew, hr.mono hm, hfield⟩, h.diagnostics, h.isPartial, h.blocks, h.singleLineIfs⟩

/-- Nothing has been read. -/
theorem Stepped.refl (hs : s.cursor ≤ t.tokens.size) : Stepped m t s s :=
  ⟨[], fun _ => rfl, Advanced.refl hs⟩

/-- The cursor does not go back. -/
theorem Stepped.le_cursor (h : Stepped m t s s') : s.cursor ≤ s'.cursor := by
  obtain ⟨_, _, ha⟩ := h
  exact ha.le_stop

/-- The place that is reached is one of the text. -/
theorem Stepped.ready (h : Stepped m t s s') : t.Ready s'.cursor 0 := by
  obtain ⟨_, _, ha⟩ := h
  exact .zero ha.stop_le

/-- What succeeds in one manner succeeds in each above it. -/
theorem Stepped.mono (h : Stepped m t s s') (hm : m ≤ m') : Stepped m' t s s' := by
  obtain ⟨ds, hds, ha⟩ := h
  exact ⟨ds, fun hq => hds (Manner.le_trans hm hq), ha.mono hm⟩

/-- One step behind the other. -/
theorem Stepped.trans (h : Stepped m t s s₁) (h' : Stepped m t s₁ s') : Stepped m t s s' := by
  obtain ⟨ds, hds, ha⟩ := h
  obtain ⟨es, hes, ha'⟩ := h'
  refine ⟨es ++ ds, fun hq => ?_, ha.trans ha'⟩
  rw [hds hq, hes hq, List.append_nil]

/-- A quiet step forward has no diagnostics and loses nothing. -/
theorem Stepped.quiet (h : Stepped m t s s') (hm : m ≤ .quiet) :
    Advanced t false s s'.cursor [] s' := by
  obtain ⟨ds, hds, ha⟩ := h
  rw [hds hm, Manner.gaps_eq_false_of_le (Manner.le_trans hm (by decide))] at ha
  exact ha

/-- What fails in one manner fails in each above it. -/
theorem Failed.mono (h : Failed m t s f s') (hm : m ≤ m') : Failed m' t s f s' := by
  refine ⟨h.le_cursor, h.cursor_le, h.index_le, fun hq => ?_⟩
  obtain ⟨stop, hstop, ha, hin⟩ := h.kept (Manner.le_trans hm hq)
  refine ⟨stop, hstop, ha, fun hm' => hin (Manner.eq_inPlace_of_le ?_)⟩
  rw [← hm']
  exact hm

/-- A failure behind a step forward is a failure of the two together. -/
theorem Stepped.failed (h : Stepped m t s s₁) (h' : Failed m t s₁ f s') : Failed m t s f s' := by
  refine ⟨Nat.le_trans h.le_cursor h'.le_cursor, h'.cursor_le, h'.index_le, fun hq => ?_⟩
  obtain ⟨stop, hstop, ha, hin⟩ := h'.kept hq
  exact ⟨stop, hstop, (h.quiet hq).trans ha, hin⟩

/-- A failure that says nothing of what is attached. -/
theorem Failed.loud (h : Failed m t s f s') : Failed .loud t s f s' :=
  ⟨h.le_cursor, h.cursor_le, h.index_le, fun hq => absurd hq (by decide)⟩

/-- A failure right at the beginning. -/
theorem Failed.here (hs : s.cursor ≤ f.index) (hf : f.index ≤ t.tokens.size) : Failed m t s f s :=
  ⟨Nat.le_refl _, hs, hf, fun _ =>
    ⟨s.cursor, Nat.le_refl _, Advanced.refl (Nat.le_trans hs hf), fun _ => rfl⟩⟩

/-- No child that was read is the branch behind `Then`. -/
theorem Advanced.noThenBranch (h : Advanced t gaps s i ds s') : NoThenBranch s s' := by
  obtain ⟨new, hnew, -, hfield⟩ := h.children
  intro c hc
  rw [hnew] at hc
  rcases List.mem_append.1 hc with hc | hc
  · exact .inr (hfield c hc)
  · exact .inl hc

/-- No child of a step is the branch behind `Then`. -/
theorem Stepped.noThenBranch (h : Stepped m t s s') : NoThenBranch s s' := by
  obtain ⟨_, _, ha⟩ := h
  exact ha.noThenBranch

/-- Nor is one of two steps. -/
theorem NoThenBranch.trans (h : NoThenBranch s s₁) (h' : NoThenBranch s₁ s') :
    NoThenBranch s s' := by
  intro c hc
  rcases h' c hc with hc | hc
  · exact h c hc
  · exact .inr hc

/-- The cursor does not go back. -/
theorem Completed.le_cursor {opened : Bool} (h : Completed m opened t s s') :
    s.cursor ≤ s'.cursor := by
  obtain ⟨_, _, _, _, hr, _⟩ := h.reading
  exact hr.le_stop

/-- What completes a node behind a step forward completes it from the beginning of the step. -/
theorem Stepped.completed {opened : Bool} (h : Stepped m t s s₁)
    (h' : Completed m opened t s₁ s') : Completed m opened t s s' := by
  obtain ⟨ds, _, ha⟩ := h
  obtain ⟨new, hnew, hr, -⟩ := ha.children
  obtain ⟨new', es, fs, hnew', hr', hclosing, hd⟩ := h'.reading
  refine ⟨⟨new' ++ new, es ++ ds, fs, ?_, hr.append hr', hclosing, ?_⟩, ?_, ?_⟩
  · rw [hnew', hnew, List.append_assoc]
  · rw [hd, ha.diagnostics]
    simp only [List.append_assoc]
  · rw [h'.blocks, ha.blocks]
  · rw [h'.singleLineIfs, ha.singleLineIfs]

/-- A step forward completes a node, if no block is left to close. -/
theorem Stepped.completes (h : Stepped m t s s') (hpartial : s.isPartial = false) :
    Completed m false t s s' := by
  obtain ⟨ds, _, ha⟩ := h
  obtain ⟨new, hnew, hr, -⟩ := ha.children
  refine ⟨⟨new, ds, [], hnew, hr, ?_, ha.diagnostics⟩, ha.blocks, ha.singleLineIfs⟩
  rw [ha.isPartial, hpartial]
  exact .closed

/-- A node ends no earlier than it begins. -/
theorem Built.le_cursor {n : Node} (h : Built m t s n s') : s.cursor ≤ s'.cursor := by
  obtain ⟨_, _, hr, _⟩ := h.reading
  exact hr.le_stop

/-- A node ends within the text. -/
theorem Built.cursor_le {n : Node} (h : Built m t s n s') : s'.cursor ≤ t.tokens.size := by
  obtain ⟨_, _, hr, _⟩ := h.reading
  exact hr.stop_le

/-- A node has a token, unless it is at the end of the text. -/
theorem Built.passes {n : Node} (h : Built m t s n s') : t.Passes s.cursor s'.cursor := by
  obtain ⟨_, _, hr, _⟩ := h.reading
  exact hr.passes (List.cons_ne_nil _ _)

/-- The place behind a node is one of the text. -/
theorem Built.ready {n : Node} (h : Built m t s n s') : t.Ready s'.cursor 0 := .zero h.cursor_le

/-- A node that is built in one manner is built in each above it. -/
theorem Built.mono {n : Node} (h : Built m t s n s') (hm : m ≤ m') : Built m' t s n s' := by
  obtain ⟨ds, hds, hr, hd⟩ := h.reading
  exact ⟨h.firstToken, h.field, h.isNamed,
    ⟨ds, fun hq => hds (Manner.le_trans hm hq), hr, hd⟩, h.same⟩

/-- A node that is built stands at the beginning of another one. -/
theorem Built.begins {x : Node} (hx : Built m t s x s') :
    Built m t { s with children := [], isPartial := false } x
      { s' with children := [], isPartial := false } :=
  ⟨hx.firstToken, hx.field, hx.isNamed, hx.reading,
    ⟨rfl, rfl, hx.same.blocks, hx.same.singleLineIfs⟩⟩

/-- Attaching a node that is built is a step forward. -/
theorem Built.attached {n n' : Node} (h : Built m t s n s')
    (hn : n' = n ∨ ∃ f, f ≠ .thenBranch ∧ n' = n.inField f) :
    Stepped m t s { s' with children := n' :: s'.children } := by
  obtain ⟨ds, hds, hr, hd⟩ := h.reading
  refine ⟨ds, hds, ⟨⟨[n'], ?_, ?_, fun c hc => ?_⟩, hd, h.same.isPartial, h.same.blocks,
    h.same.singleLineIfs⟩⟩
  · rw [h.same.children]
    rfl
  · refine Reading.of_gaps_false ?_ _
    rcases hn with rfl | ⟨f, _, rfl⟩
    · exact hr
    · exact .inField hr f
  · obtain rfl := List.mem_singleton.1 hc
    rcases hn with rfl | ⟨f, hf, rfl⟩
    · simp [h.field]
    · rw [Node.field_inField]
      exact fun he => hf (Option.some.inj he)

/-- A failure in a state where a node is built but not attached drops the node. -/
theorem Built.failed {n : Node} (h : Built m t s n s₁) (hm : m = .inPlace → s₁.cursor = s.cursor)
    (hf : s₁.cursor ≤ f.index) (hle : f.index ≤ t.tokens.size) : Failed m t s f s₁ := by
  obtain ⟨ds, hds, hr, hd⟩ := h.reading
  refine ⟨h.le_cursor, hf, hle, fun hq => ⟨s.cursor, h.le_cursor, ⟨⟨[], h.same.children, ?_,
    fun _ hc => absurd hc List.not_mem_nil⟩, ?_, h.same.isPartial, h.same.blocks,
    h.same.singleLineIfs⟩, fun hin => (hm hin).symm⟩⟩
  · exact .start (Nat.le_trans h.le_cursor h.cursor_le)
  · rw [hd, hds hq]

end

end State

-- ---------------------------------------------------------------------------
-- Judgements
-- ---------------------------------------------------------------------------

namespace Production

open State

variable {α β : Type}

/-- What a run from `s` comes to: a success with the given property, or a failure in its manner. -/
def Outcome (m : Manner) (t : TokenStream) (s : State) (good : α → State → Prop) :
    EStateM.Result Failure State α → Prop
  | .ok a s' => good a s'
  | .error f s' => Failed m t s f s'

/-- The production attaches nodes that continue a reading. It needs `n` tokens ahead; if `moves`, it
reads at least one. -/
def Steps (m : Manner) (n : Nat) (moves : Bool) (p : Parse α) : Prop :=
  ∀ env s, env.tokens.Ready s.cursor n →
    Outcome m env.tokens s
      (fun _ s' => (moves = true → s.cursor < s'.cursor) ∧ Stepped m env.tokens s s') (p env s)

/-- The production gives a node. -/
def Builds (m : Manner) (n : Nat) (moves : Bool) (p : Parse Node) : Prop :=
  ∀ env s, env.tokens.Ready s.cursor n →
    Outcome m env.tokens s
      (fun x s' => (moves = true → s.cursor < s'.cursor) ∧ Built m env.tokens s x s') (p env s)

/-- The production attaches nodes that continue a reading where tokens of the given kinds are
ahead. -/
def StepsAt (kinds : List TokenKind) (m : Manner) (n : Nat) (moves : Bool) (p : Parse α) : Prop :=
  ∀ env s, env.tokens.Ready s.cursor n → env.hasAhead s kinds = true →
    Outcome m env.tokens s
      (fun _ s' => (moves = true → s.cursor < s'.cursor) ∧ Stepped m env.tokens s s') (p env s)

/-- The production gives a node where tokens of the given kinds are ahead. -/
def BuildsAt (kinds : List TokenKind) (m : Manner) (n : Nat) (moves : Bool) (p : Parse Node) :
    Prop :=
  ∀ env s, env.tokens.Ready s.cursor n → env.hasAhead s kinds = true →
    Outcome m env.tokens s
      (fun x s' => (moves = true → s.cursor < s'.cursor) ∧ Built m env.tokens s x s') (p env s)

/-- The production completes the node under construction, and closes the innermost block if it is
`opened` for that node. Its failures drop the node. -/
def Fills (m : Manner) (opened : Bool) (n : Nat) (moves : Bool) (p : Parse α) : Prop :=
  ∀ env s, env.tokens.Ready s.cursor n → s.isPartial = false →
    Outcome .loud env.tokens s
      (fun _ s' => (moves = true → s.cursor < s'.cursor) ∧ Completed m opened env.tokens s s' ∧
        NoThenBranch s s') (p env s)

/-- The production attaches the given node, and perhaps others behind it. -/
def Attaches (m : Manner) (n : Nat) (x : Node) (p : Parse α) : Prop :=
  ∀ env s₀ s, Built m env.tokens s₀ x s → env.tokens.Ready s.cursor n →
    Outcome m env.tokens s₀
      (fun _ s' => s.cursor ≤ s'.cursor ∧ Stepped m env.tokens s₀ s') (p env s)

/-- The production gives a node that has the given one in it. -/
def Continues (m : Manner) (n : Nat) (x : Node) (p : Parse Node) : Prop :=
  ∀ env s₀ s, Built m env.tokens s₀ x s → env.tokens.Ready s.cursor n →
    Outcome m env.tokens s₀
      (fun y s' => s.cursor ≤ s'.cursor ∧ Built m env.tokens s₀ y s') (p env s)

/-- A node has been extended by a part behind it, or nothing has happened. -/
def Extended (m : Manner) (t : TokenStream) (s₀ s : State) : Option Node → State → Prop
  | none, s' => s' = s
  | some y, s' => s.cursor ≤ s'.cursor ∧ Built m t s₀ y s'

/-- The production perhaps gives a node that has the given one in it. -/
def Extends (m : Manner) (n : Nat) (x : Node) (p : Parse (Option Node)) : Prop :=
  ∀ env s₀ s, Built m env.tokens s₀ x s → env.tokens.Ready s.cursor n →
    Outcome m env.tokens s₀ (Extended m env.tokens s₀ s) (p env s)

/-- The production looks, and changes nothing. -/
def Looks (p : Parse α) (look : Env → State → α) : Prop :=
  ∀ env s, p env s = .ok (look env s) s

variable {t : TokenStream} {m m₁ : Manner} {n n₁ : Nat} {b b₁ opened : Bool}

-- ---------------------------------------------------------------------------
-- Outcomes
-- ---------------------------------------------------------------------------

namespace Outcome

variable {s s₁ : State} {good good' : α → State → Prop} {r : EStateM.Result Failure State α}

/-- An outcome in one manner, with a property, is one in each above it with what follows. -/
theorem mono (h : Outcome m₁ t s good r) (hm : m₁ ≤ m)
    (hgood : ∀ a s', good a s' → good' a s') : Outcome m t s good' r := by
  cases r with
  | ok a s' => exact hgood a s' h
  | error f s' => exact Failed.mono h hm

/-- The outcome of two parts is that of the second one, or the failure of the first one. -/
theorem bind {p : Parse α} {k : α → Parse β} {env : Env} {s₀ : State}
    {last : β → State → Prop} (hp : Outcome m t s₀ good (p env s))
    (hk : ∀ a s', good a s' → Outcome m t s₀ last (k a env s')) :
    Outcome m t s₀ last ((p >>= k) env s) := by
  rw [run_bind]
  cases hrun : p env s with
  | ok a s' =>
    rw [hrun] at hp
    exact hk a s' hp
  | error f s' =>
    rw [hrun] at hp
    exact hp

/-- What comes of a run behind a step forward. -/
theorem after (h : Stepped m t s s₁) (hr : Outcome m t s₁ good r)
    (hgood : ∀ a s', good a s' → good' a s') : Outcome m t s good' r := by
  cases r with
  | ok a s' => exact hgood a s' hr
  | error f s' => exact h.failed hr

/-- A run whose failures say nothing of what is attached. -/
theorem loud (hr : Outcome m t s good r) : Outcome .loud t s good r := by
  cases r with
  | ok a s' => exact hr
  | error f s' => exact Failed.loud hr

/-- What comes of such a run behind another one. -/
theorem behind (hr : Outcome .loud t s₁ good r) (hle : s.cursor ≤ s₁.cursor)
    (hgood : ∀ a s', good a s' → good' a s') : Outcome .loud t s good' r := by
  cases r with
  | ok a s' => exact hgood a s' hr
  | error f s' =>
    exact ⟨Nat.le_trans hle hr.le_cursor, hr.cursor_le, hr.index_le,
      fun hq => absurd hq (by decide)⟩

end Outcome

-- ---------------------------------------------------------------------------
-- Looking
-- ---------------------------------------------------------------------------

namespace Looks

variable {p : Parse α} {look : Env → State → α} {k : α → Parse β}

/-- What is done behind a look is done with what it sees, in the state of before. -/
theorem run_bind (hp : Looks p look) (env : Env) (s : State) :
    (p >>= k) env s = k (look env s) env s := by
  rw [Production.run_bind, hp env s]

theorem test (look : Env → State → Bool) : Looks (Production.test look) look := fun _ _ => rfl

theorem peek : Looks Production.peek Env.kind := fun _ _ => rfl

theorem peekAhead (n : Nat) : Looks (Production.peekAhead n) (fun env s => env.kindAhead s n) :=
  fun _ _ => rfl

theorem currentLine : Looks Production.currentLine Env.line := fun _ _ => rfl

theorem pure (a : α) : Looks (Pure.pure a) (fun _ _ => a) := fun _ _ => rfl

end Looks

section

variable {p : Parse α} {seen : Env → State → α}

/-- What is done behind a look is judged whatever the look shows. -/
theorem Steps.look {k : α → Parse β} (hp : Looks p seen) (hk : ∀ a, Steps m n b (k a)) :
    Steps m n b (p >>= k) := by
  intro env s ready
  rw [hp.run_bind]
  exact hk _ env s ready

/-- A node that is built behind a look. -/
theorem Builds.look {k : α → Parse Node} (hp : Looks p seen) (hk : ∀ a, Builds m n b (k a)) :
    Builds m n b (p >>= k) := by
  intro env s ready
  rw [hp.run_bind]
  exact hk _ env s ready

/-- A node that is completed behind a look. -/
theorem Fills.look {k : α → Parse β} (hp : Looks p seen)
    (hk : ∀ a, Fills m opened n b (k a)) : Fills m opened n b (p >>= k) := by
  intro env s ready hpartial
  rw [hp.run_bind]
  exact hk _ env s ready hpartial

end

-- ---------------------------------------------------------------------------
-- Chains
-- ---------------------------------------------------------------------------

/-- A judgement holds with more tokens ahead, in a looser manner, and without the claim to move. -/
theorem Steps.mono {p : Parse α} (hp : Steps m₁ n₁ b₁ p) [hm : AtMost m₁ m]
    [hn : AtMost n₁ n]
    [hb : AtMost b b₁] : Steps m n b p := by
  intro env s ready
  refine (hp env s (ready.mono hn.le)).mono hm.le ?_
  rintro _ s' ⟨hmoves, hs⟩
  exact ⟨fun h => hmoves (hb.le h), hs.mono hm.le⟩

/-- A judgement of a node may be weakened in all that it says. -/
theorem Builds.mono {p : Parse Node} (hp : Builds m₁ n₁ b₁ p) [hm : AtMost m₁ m]
    [hn : AtMost n₁ n]
    [hb : AtMost b b₁] : Builds m n b p := by
  intro env s ready
  refine (hp env s (ready.mono hn.le)).mono hm.le ?_
  rintro _ s' ⟨hmoves, hs⟩
  exact ⟨fun h => hmoves (hb.le h), hs.mono hm.le⟩

/-- A judgement of a node around another may be weakened in all that it says. -/
theorem Continues.mono {x : Node} {p : Parse Node} (hp : Continues m n₁ x p)
    [hn : AtMost n₁ n] :
    Continues m n x p :=
  fun env s₀ s hx ready => hp env s₀ s hx (ready.mono hn.le)

/-- What reads nothing. -/
theorem Steps.pure (a : α) : Steps m n false (Pure.pure a : Parse α) :=
  fun _ _ ready => ⟨fun h => Bool.noConfusion h, Stepped.refl ready.le_size⟩

/-- A failure that has read nothing. -/
theorem Outcome.fail {env : Env} {s : State} {good : α → State → Prop} (e : Expected)
    (hs : s.cursor ≤ env.tokens.tokens.size) :
    Outcome m env.tokens s good (Production.fail e env s) :=
  Failed.here (Nat.le_refl _) hs

/-- What fails at once never succeeds, so it may be said to read a token. -/
theorem Steps.fail (e : Expected) : Steps m n b (Production.fail e : Parse α) :=
  fun _ _ ready => Outcome.fail e ready.le_size

/-- What fails at once gives no node. -/
theorem Builds.fail (e : Expected) : Builds m n b (Production.fail e) :=
  fun _ _ ready => Outcome.fail e ready.le_size

/-- The failure of a level too many. -/
theorem Builds.tooDeep : Builds m n b Production.tooDeep :=
  fun _ _ ready => Failed.here (Nat.le_refl _) ready.le_size

/-- A check of the depth reads nothing. -/
theorem Steps.checkDepth : Steps .inPlace 0 false Production.checkDepth := by
  intro env s ready
  unfold Production.checkDepth
  split
  · exact Failed.here (Nat.le_refl _) ready.le_size
  · exact ⟨fun h => Bool.noConfusion h, Stepped.refl ready.le_size⟩

/-- What follows a step forward need not move if the step does. -/
theorem Steps.bind {p : Parse α} {k : α → Parse β} (hp : Steps m₁ n₁ b₁ p)
    (hk : ∀ a, Steps m 0 (b && !b₁) (k a)) [hm : AtMost m₁ m]
    [hn : AtMost n₁ n] :
    Steps m n b (p >>= k) := by
  intro env s ready
  refine ((hp env s (ready.mono hn.le)).mono hm.le fun _ _ h => h).bind ?_
  rintro a s₁ ⟨hmoves₁, hs₁⟩
  replace hs₁ := hs₁.mono hm.le
  refine Outcome.after hs₁ (hk a env s₁ hs₁.ready) ?_
  rintro _ s' ⟨hmoves, hs'⟩
  refine ⟨fun hb => ?_, hs₁.trans hs'⟩
  have hle₁ := hs₁.le_cursor
  have hle := hs'.le_cursor
  cases b₁ with
  | true =>
    have := hmoves₁ rfl
    omega
  | false =>
    have := hmoves (by simp [hb])
    omega

/-- A look reads nothing. -/
theorem Steps.of_looks {p : Parse α} {seen : Env → State → α} (hp : Looks p seen) :
    Steps m n false p := by
  intro env s ready
  rw [hp env s]
  exact ⟨fun h => Bool.noConfusion h, Stepped.refl ready.le_size⟩

/-- Nothing is done behind a failure. -/
theorem Steps.failThen (e : Expected) {k : α → Parse β} :
    Steps m n b (Production.fail e >>= k) := by
  intro env s ready
  rw [run_bind]
  exact Outcome.fail e ready.le_size

/-- A step that moves is a step. -/
theorem Steps.still {p : Parse α} (hp : Steps m n b p) : Steps m n false p :=
  hp.mono

/-- A step that moves, and what is done behind it in any case. -/
theorem Steps.followed {p : Parse α} {q : Parse β} (hp : Steps m₁ n₁ true p)
    (hq : Steps m 0 false q) [hm : AtMost m₁ m] : Steps m n₁ true (p >>= fun _ => q) :=
  Steps.bind hp fun _ => hq

/-- What completes a node, behind a part that is read first. -/
theorem Fills.bind {p : Parse α} {k : α → Parse β} (hp : Steps m₁ n₁ b₁ p)
    (hk : ∀ a, Fills m opened 0 (b && !b₁) (k a)) [hm : AtMost m₁ m]
    [hn : AtMost n₁ n] :
    Fills m opened n b (p >>= k) := by
  intro env s ready hpartial
  refine (hp env s (ready.mono hn.le)).loud.bind ?_
  rintro a s₁ ⟨hmoves₁, hs₁⟩
  replace hs₁ := hs₁.mono hm.le
  have hpartial₁ : s₁.isPartial = false := by
    obtain ⟨_, _, ha⟩ := hs₁
    rw [ha.isPartial, hpartial]
  refine (hk a env s₁ hs₁.ready hpartial₁).behind hs₁.le_cursor ?_
  rintro _ s' ⟨hmoves, hs', hfield⟩
  refine ⟨fun hb => ?_, hs₁.completed hs', hs₁.noThenBranch.trans hfield⟩
  have hle₁ := hs₁.le_cursor
  have hle := hs'.le_cursor
  cases b₁ with
  | true =>
    have := hmoves₁ rfl
    omega
  | false =>
    have := hmoves (by simp [hb])
    omega

/-- Steps that go on to the end of a node fill it, if no block is left to close. -/
theorem Fills.of_steps {p : Parse α} (hp : Steps m n b p) : Fills m false n b p := by
  intro env s ready hpartial
  refine (hp env s ready).loud.mono (Manner.le_refl _) ?_
  rintro _ s' ⟨hmoves, hs'⟩
  exact ⟨hmoves, hs'.completes hpartial, hs'.noThenBranch⟩

end Production

end VisualBasic
