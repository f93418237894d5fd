import VisualBasic.Proofs.Discipline
import VisualBasic.Proofs.Lookahead
import VisualBasic.Proofs.Metering
import VisualBasic.Proofs.Progress

/-!
# Parsing ends

Statements, members and the items of files read tokens, so the loops over them end. So do all loops
within them, down to the names, the ranks and the commas of a list: run with a meter, the grammar
never has a repetition cut off by its bound. What the meter shows stays, whatever comes behind a
repetition or goes back behind it, so it is enough to look at it at the end.

Main results:

* `boundless` — no repetition of the grammar is cut off by its bound.
* `parsing_goes_forward` — parsing reads tokens, and it ends with every source read to its end.
-/

namespace VisualBasic

namespace Production

open State

-- ---------------------------------------------------------------------------
-- Reading tokens, however nodes are kept
-- ---------------------------------------------------------------------------

/-- What reads a token with trees as values reads it with nodes in a vector. -/
theorem Advancing.inArena {p : Production Arena NodeId} {q : Parse Node} (hpq : Produces none p q)
    (hq : Advancing q) : Advancing p := by
  intro env s hkind
  obtain ⟨n, t', hrun', hlt, hle⟩ := hq env s.bare hkind
  have hrefined := hpq.refines env s s.bare 0 s.agrees_bare (Nat.zero_le _) trivial
  rw [hrun'] at hrefined
  cases hrun : p env s with
  | error f s' =>
    rw [hrun] at hrefined
    exact hrefined.elim
  | ok i s' =>
    rw [hrun] at hrefined
    obtain ⟨k, mid, -, hgrown, -⟩ := hrefined
    rw [hgrown.agrees.cursor] at hlt hle
    exact ⟨i, s', rfl, hlt, hle⟩

/-- And it reads it with a meter. -/
theorem Advancing.withMeter {p : Production Metered Node} {q : Parse Node} (hpq : Produces none p q)
    (hq : Advancing q) : Advancing p := by
  intro env s hkind
  obtain ⟨n, t', hrun', hlt, hle⟩ := hq env s.unmetered hkind
  have hmetes := hpq.meters .none False env s.children.ranOut s.unmetered nofun
  rw [hrun', s.metered_unmetered] at hmetes
  cases hrun : p env s with
  | error f s' =>
    rw [hrun] at hmetes
    exact hmetes.elim
  | ok m s' =>
    rw [hrun] at hmetes
    obtain ⟨-, ranOut', rfl, -⟩ := hmetes
    exact ⟨m, _, rfl, hlt, hle⟩

/-- Statements, members and the items of files read a token where one is left. -/
structure GoesForward (B : Type) {N : Type} [Builder B N] : Prop where
  statement : Advancing (Production.statement : Production B N)
  inBlock : ∀ room, Advancing (Production.inBlock room : Production B N)
  member : ∀ room, Advancing (Production.member (typeDeclarationUpTo room) : Production B N)
  fileItem : Advancing (Production.fileItem : Production B N)

theorem goesForward_values : GoesForward (List Node) where
  statement := by
    have hstatement : MakesStatements 0 false statement := Passage.makesStatements
    exact .of_builds NeverFails.statement hstatement.moves
  inBlock room := by
    have hstatement : MakesStatements 0 false (inBlock room) :=
      Passage.makesStatements_of (Passage.statementKindUpTo room)
    exact .of_builds (NeverFails.orRecover _) hstatement.moves
  member room :=
    .of_builds (NeverFails.member _) (Passage.builds_member (Builds.typeDeclarationUpTo room))
  fileItem := .of_builds NeverFails.fileItem (Builds.fileItem fun _ => Nat.one_pos)

/-- What advances with trees as values does so however nodes are kept, if that can be said of each
production by itself. -/
theorem GoesForward.of_values {B N : Type} [Builder B N]
    (h : ∀ {p : Production B N} {q : Parse Node}, Produces none p q → Advancing q → Advancing p) :
    GoesForward B where
  statement := h Mirrors.statement goesForward_values.statement
  inBlock room := h (Mirrors.ofStatement_inBlock room).mirrors (goesForward_values.inBlock room)
  member room :=
    h (Mirrors.member (Mirrors.typeDeclarationUpTo room) (.of_tried (.typeDeclarationUpTo room)))
      (goesForward_values.member room)
  fileItem := h Mirrors.fileItem goesForward_values.fileItem

-- ---------------------------------------------------------------------------
-- No bound is felt
-- ---------------------------------------------------------------------------

/-- What the meter shows behind a production of the grammar. -/
theorem InGrammar.passes {α : Type} {p : Production Metered α} {first : Option Node}
    (hp : InGrammar p first) {within : Prop} {env : Env} {s : State Metered}
    (hs : within → s.cursor ≤ env.tokens.tokens.size) :
    ∃ t', Passes within env.tokens s.unmetered t' s.children.ranOut
      (lastState (p env s)).children.ranOut := by
  have hhand : (first.map fun n => (n, n)).map Prod.fst = first := by cases first <;> rfl
  have htwin : Twin (first.map fun n => (n, n)) := by
    cases first with
    | none => exact .none
    | some n => exact .some
  obtain ⟨_, q, r, -, hpq⟩ := hp.hasTwin _ hhand
  exact ⟨_, (hpq.meters htwin within env s.children.ranOut s.unmetered hs).passes⟩

/-- The bounds of repetitions are never felt. -/
structure Boundless : Prop where
  /-- A repetition that has not been cut off is the loop without a bound. -/
  loop : ∀ {α : Type} (step : α → Production Metered (Option α)) x env s,
    (lastState (iterate step x env s)).children.ranOut = false →
      ∀ result, StepsRun step env x s result ↔ iterate step x env s = result
  /-- That a repetition has been cut off stays noted, whatever comes behind it. -/
  noted : ∀ {α : Type} (p : Production Metered α) first, InGrammar p first → ∀ env s,
    s.children.ranOut = true → (lastState (p env s)).children.ranOut = true
  /-- No repetition is cut off. -/
  unfelt : ∀ {α : Type} (p : Production Metered α) first, InGrammar p first → ∀ env s,
    s.cursor ≤ env.tokens.tokens.size →
      (lastState (p env s)).children.ranOut = s.children.ranOut

theorem boundless : Boundless where
  loop step x env s hfree result := by
    have hrun := StepsRun.of_iterate hfree
    constructor
    · exact hrun.unique
    · rintro rfl
      exact hrun
  noted p first hp env s hnoted := by
    have hs : False → s.cursor ≤ env.tokens.tokens.size := nofun
    obtain ⟨t', hpasses⟩ := hp.passes hs
    exact hpasses.noted hnoted
  unfelt p first hp env s hs := by
    have hs' : True → s.cursor ≤ env.tokens.tokens.size := fun _ => hs
    obtain ⟨t', hpasses⟩ := hp.passes hs'
    exact hpasses.unfelt trivial

-- ---------------------------------------------------------------------------
-- Progress and termination
-- ---------------------------------------------------------------------------

/-- Parsing goes forward, and it ends. -/
structure Progress : Prop where
  /-- Statements, members and the items of files read a token where one is left, however nodes are
  kept. -/
  advances : GoesForward (List Node) ∧ GoesForward Arena ∧ GoesForward Metered
  /-- The loop of every body ends, and its bound is never felt. -/
  ends : ∀ round, OfBody round → ∀ env s, s.cursor ≤ env.tokens.tokens.size →
    ∀ result, LoopRun round env s result ↔ repeatWhile round env s = result
  /-- Neither is the bound of any repetition within these. -/
  boundless : Boundless
  /-- The searches that look ahead end at the end of the text at the latest, and not by a bound. -/
  searches : ∀ source, (TokenStream.ofText source).SearchesEnd
  /-- Every source has a tree, and behind it no token is left. With the meter it is the same tree,
  and no repetition has been cut off. -/
  parses : ∀ source limit, ∃ root s',
    let env : Env := { source, tokens := TokenStream.ofText source, limit }
    let start : State :=
      { diagnostics := ((TokenStream.ofText source).errors.map Diagnostic.ofLexicalError).reverse }
    sourceFile env start = .ok root s' ∧
    (Tree.ofTokens source (TokenStream.ofText source) limit).root =
      root.withSpan ⟨0, Text.byteLength source⟩ ∧
    s'.cursor = (TokenStream.ofText source).tokens.size ∧
    sourceFile env (start.metered false) = .ok root (s'.metered false)

/-- Whatever blocks are open and however little may be nested, parsing goes forward and ends. -/
theorem parsing_goes_forward : Progress := by
  refine ⟨⟨goesForward_values, .of_values .inArena, .of_values .withMeter⟩, ?_, boundless, ?_, ?_⟩
  · intro round h env s hs result
    exact h.consumes.loopRun_iff hs
  · intro source
    have hlasting : (TokenStream.ofText source).Lasting :=
      (TokenStream.ordered_ofText source).kindAt_ne
    exact hlasting.searchesEnd
  · intro source limit
    let env : Env := { source, tokens := TokenStream.ofText source, limit }
    let start : State :=
      { diagnostics := ((TokenStream.ofText source).errors.map Diagnostic.ofLexicalError).reverse }
    have hrun := NeverFails.sourceFile.run_eq env start
    have hmetes := Mirrors.sourceFile.meters (h := none) .none True env false start
        fun _ => Nat.zero_le _
    refine ⟨_, _, hrun, rfl, cursor_sourceFile hrun, ?_⟩
    rw [hrun] at hmetes
    cases hrun' : (sourceFile : Production Metered Node) env (start.metered false) with
    | error f s' =>
      rw [hrun'] at hmetes
      exact hmetes.elim
    | ok m s' =>
      rw [hrun'] at hmetes
      obtain ⟨⟨k, rfl, htwin⟩, ranOut', rfl, hpasses⟩ := hmetes
      rw [hpasses.unfelt trivial, htwin m _ rfl]

end Production

end VisualBasic
