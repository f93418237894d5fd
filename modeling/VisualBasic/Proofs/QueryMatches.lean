import Mathlib.Data.List.ProdSigma
import VisualBasic.Proofs.Embedding
import VisualBasic.Proofs.Table

/-!
# What a query finds

A query lists the pairs of a node and a pattern that match there, and for each the captures of the
first embedding. Nodes come in the order of the listing of the tree, and the patterns at each node
in the order of the query; as the listing has no node twice, no pair comes twice either.

Captures are numbers, which stand for the names that were read with the patterns. A reader of
patterns only ever adds names, and gives no number that is not that of a name by then.

Main results:

* `Query.pairs_sublist`, `Query.mem_pairs_iff` — which pairs are listed, and in which order.
* `Query.areNumbered_of_ofText` — the captures of a query have names.
* `matches_exact` — what patterns and queries find in a tree.
-/

namespace VisualBasic

-- ---------------------------------------------------------------------------
-- The numbers of captures
-- ---------------------------------------------------------------------------

namespace Pattern

mutual

/-- The captures of the pattern and of all below it have numbers less than the bound. -/
def IsNumbered (bound : Nat) : Pattern → Prop
  | mk _ _ captures children => (∀ number ∈ captures, number < bound) ∧ AreNumbered bound children

def AreNumbered (bound : Nat) : List Pattern → Prop
  | [] => True
  | p :: ps => p.IsNumbered bound ∧ AreNumbered bound ps

end

section

variable {bound bound' : Nat}

mutual

theorem IsNumbered.mono (hle : bound ≤ bound') :
    (p : Pattern) → p.IsNumbered bound → p.IsNumbered bound'
  | mk _ _ captures children, h => by
    rw [IsNumbered] at h ⊢
    exact ⟨fun number hnumber => Nat.lt_of_lt_of_le (h.1 number hnumber) hle,
      AreNumbered.mono hle children h.2⟩

theorem AreNumbered.mono (hle : bound ≤ bound') :
    (ps : List Pattern) → AreNumbered bound ps → AreNumbered bound' ps
  | [], h => h
  | p :: ps, h => by
    rw [AreNumbered] at h ⊢
    exact ⟨IsNumbered.mono hle p h.1, AreNumbered.mono hle ps h.2⟩

end

theorem IsNumbered.inField {p : Pattern} (h : p.IsNumbered bound) (f : Field) :
    (p.inField f).IsNumbered bound := by
  cases p
  exact h

theorem AreNumbered.of_mem {ps : List Pattern} (h : AreNumbered bound ps) :
    ∀ p ∈ ps, p.IsNumbered bound := by
  induction ps with
  | nil => exact nofun
  | cons p ps ih =>
    rw [AreNumbered] at h
    exact List.forall_mem_cons.2 ⟨h.1, ih h.2⟩

mutual

/-- What is captured for a pattern has the numbers of its captures and of those below. -/
theorem IsNumbered.capturesAt (t : Tree) : (p : Pattern) → (node : Nat) → (e : Placement) →
    p.IsNumbered bound → ∀ c ∈ p.capturesAt t node e, c.number < bound
  | mk _ _ captures children, node, e, h => by
    rw [IsNumbered] at h
    intro c hc
    rw [Pattern.capturesAt, List.mem_append, List.mem_map] at hc
    rcases hc with ⟨number, hnumber, rfl⟩ | hc
    · exact h.1 number hnumber
    · exact AreNumbered.capturesOf t (t.children node) children _ _ h.2 c hc

theorem AreNumbered.capturesOf (t : Tree) (nodes : List Nat) : (ps : List Pattern) →
    (is : List Nat) → (es : List Placement) →
    AreNumbered bound ps → ∀ c ∈ Pattern.capturesOf t nodes ps is es, c.number < bound
  | [], _, _, _ => nofun
  | _ :: _, [], _, _ => nofun
  | _ :: _, _ :: _, [], _ => nofun
  | p :: ps, i :: is, e :: es, h => by
    rw [AreNumbered] at h
    intro c hc
    rw [Pattern.capturesOf, List.mem_append] at hc
    rcases hc with hc | hc
    · cases hnode : nodes[i]? with
      | none =>
        rw [hnode] at hc
        exact absurd hc List.not_mem_nil
      | some node =>
        rw [hnode] at hc
        exact IsNumbered.capturesAt t p node e h.1 c hc
    · exact AreNumbered.capturesOf t nodes ps is es h.2 c hc

end

end

end Pattern

namespace Query.Reader

variable {α β : Type}

/-- The reader takes away no names, and what it gives is as `given` says, with so many names as
there are then. -/
def Numbers (given : Nat → α → Prop) (r : Reader α) : Prop :=
  ∀ p a p', r p = .ok (a, p') → p.names.length ≤ p'.names.length ∧ given p'.names.length a

theorem Numbers.bind {given : Nat → α → Prop} {given' : Nat → β → Prop} {r : Reader α}
    {f : α → Reader β} (hr : r.Numbers given)
    (hf : ∀ a, (f a).Numbers fun n b => ∀ m ≤ n, given m a → given' n b) :
    (r >>= f).Numbers given' := by
  intro p b p' hrun
  cases hfirst : r p with
  | error e =>
    simp [Bind.bind, StateT.bind, Except.bind, hfirst] at hrun
  | ok result =>
    obtain ⟨a, p₁⟩ := result
    simp only [Bind.bind, StateT.bind, Except.bind, hfirst] at hrun
    obtain ⟨hle, ha⟩ := hr p a p₁ hfirst
    obtain ⟨hle', hb⟩ := hf a p₁ b p' hrun
    exact ⟨Nat.le_trans hle hle', hb _ hle' ha⟩

/-- A reader that takes away no names, whatever it gives. -/
def KeepsNames (r : Reader α) : Prop := r.Numbers fun _ _ => True

theorem Numbers.mono {given given' : Nat → α → Prop} {r : Reader α} (h : r.Numbers given)
    (hgiven : ∀ n a, given n a → given' n a) : r.Numbers given' := by
  intro p a p' hrun
  exact (h p a p' hrun).imp_right (hgiven _ a)

theorem KeepsNames.bind {given : Nat → β → Prop} {r : Reader α} {f : α → Reader β}
    (hr : r.KeepsNames) (hf : ∀ a, (f a).Numbers given) : (r >>= f).Numbers given :=
  Numbers.bind hr fun a => (hf a).mono fun _ _ hb _ _ _ => hb

theorem Numbers.pure {given : Nat → α → Prop} {a : α} (h : ∀ n, given n a) :
    (Pure.pure a : Reader α).Numbers given := by
  intro p b p' hrun
  cases hrun
  exact ⟨Nat.le_refl _, h _⟩

theorem Numbers.throw {given : Nat → α → Prop} (e : QueryError) :
    (throw e : Reader α).Numbers given := by
  intro p a p' hrun
  cases hrun

theorem Numbers.fail {given : Nat → α → Prop} (problem : QueryProblem) :
    (fail problem : Reader α).Numbers given := by
  intro p a p' hrun
  cases hrun

theorem keepsNames_get : (get : Reader Place).KeepsNames := by
  intro p a p' hrun
  cases hrun
  exact ⟨Nat.le_refl _, trivial⟩

theorem keepsNames_drop (f : List Char → List Char) : (drop f).KeepsNames := by
  intro p a p' hrun
  cases hrun
  exact ⟨Nat.le_refl _, trivial⟩

theorem keepsNames_peek : peek.KeepsNames := keepsNames_get.bind fun _ => .pure fun _ => trivial

theorem keepsNames_name : name.KeepsNames :=
  keepsNames_get.bind fun _ => (keepsNames_drop _).bind fun _ => .pure fun _ => trivial

theorem keepsNames_kind : kind.KeepsNames := by
  refine keepsNames_get.bind fun _ => keepsNames_name.bind fun name => ?_
  split
  · exact .fail _
  · exact .pure fun _ => trivial
  · split
    · exact .pure fun _ => trivial
    · exact .throw _

theorem keepsNames_role : role.KeepsNames := by
  refine keepsNames_get.bind fun _ => keepsNames_name.bind fun name => ?_
  split
  · exact .throw _
  · refine (keepsNames_drop _).bind fun _ => keepsNames_peek.bind fun next => ?_
    split
    · exact (keepsNames_drop _).bind fun _ => (keepsNames_drop _).bind fun _ => .pure
        fun _ => trivial
    · exact .fail _

/-- A name that is known has the number of its place, and a new one is put behind the others. -/
theorem run_captureNumber (name : String) (p : Place) :
    captureNumber name p = .ok (match p.names.idxOf? name with
      | some number => (number, p)
      | none => (p.names.length, { p with names := p.names ++ [name] })) := by
  show (match p.names.idxOf? name with
    | some number => Pure.pure number
    | none => do
      modify fun q => { q with names := p.names ++ [name] }
      return p.names.length : Reader Nat) p = _
  cases p.names.idxOf? name with
  | some number => rfl
  | none => rfl

theorem numbers_captureNumber (name : String) :
    (captureNumber name).Numbers fun n number => number < n := by
  intro p number p' hrun
  rw [run_captureNumber] at hrun
  cases hindex : p.names.idxOf? name with
  | some i =>
    rw [hindex] at hrun
    cases hrun
    obtain ⟨hlt, -⟩ := List.idxOf?_eq_some_iff.1 hindex
    exact ⟨Nat.le_refl _, hlt⟩
  | none =>
    rw [hindex] at hrun
    cases hrun
    simp

theorem numbers_captures (bound : Nat) :
    (captures bound).Numbers fun n numbers => ∀ number ∈ numbers, number < n := by
  induction bound with
  | zero => exact .pure fun _ => nofun
  | succ bound ih =>
    rw [captures]
    refine (keepsNames_drop _).bind fun _ => keepsNames_peek.bind fun next => ?_
    split
    · refine (keepsNames_drop _).bind fun _ => keepsNames_name.bind fun name => ?_
      split
      · exact .fail _
      · refine (numbers_captureNumber name).bind fun number => ?_
        refine ih.bind fun numbers => .pure fun n m hm hnumbers k hk hnumber => ?_
        refine List.forall_mem_cons.2 ⟨?_, fun x hx => ?_⟩
        · omega
        · exact Nat.lt_of_lt_of_le (hnumbers x hx) hm
    · exact .pure fun _ => nofun

/-- Patterns and the patterns of children have captures with names. -/
theorem numbers_pattern_children (bound : Nat) :
    (pattern bound).Numbers (fun n p => p.IsNumbered n) ∧
      (children bound).Numbers fun n ps => Pattern.AreNumbered n ps := by
  induction bound with
  | zero => exact ⟨.fail _, .fail _⟩
  | succ bound ih =>
    obtain ⟨ihPattern, ihChildren⟩ := ih
    constructor
    · rw [pattern]
      refine keepsNames_peek.bind fun next => ?_
      split
      · refine (keepsNames_drop _).bind fun _ => (keepsNames_drop _).bind fun _ =>
          keepsNames_kind.bind fun kind => ihChildren.bind fun children => ?_
        refine (numbers_captures bound).bind fun captures => .pure
          fun n m hm hcaptures k hk hps => ?_
        rw [Pattern.IsNumbered]
        exact ⟨fun x hx => Nat.lt_of_lt_of_le (hcaptures x hx) hm, hps.mono hk⟩
      · refine (keepsNames_drop _).bind fun _ => ?_
        refine (numbers_captures bound).bind fun captures => .pure fun n m hm hcaptures => ?_
        rw [Pattern.IsNumbered]
        exact ⟨fun x hx => Nat.lt_of_lt_of_le (hcaptures x hx) hm, trivial⟩
      · exact .fail _
    · rw [children]
      refine (keepsNames_drop _).bind fun _ => keepsNames_peek.bind fun next => ?_
      split
      · exact .fail _
      · exact (keepsNames_drop _).bind fun _ => .pure fun _ => trivial
      · split
        · refine ihPattern.bind fun child => ihChildren.bind fun others => ?_
          refine .pure fun n m hm hothers k hk hchild => ?_
          rw [Pattern.AreNumbered]
          exact ⟨hchild.mono hk, hothers.mono hm⟩
        · split
          · refine keepsNames_role.bind fun field => ?_
            refine ihPattern.bind fun child => ihChildren.bind fun others => ?_
            refine .pure fun n m hm hothers k hk hchild => ?_
            rw [Pattern.AreNumbered]
            exact ⟨(hchild.inField field).mono hk, hothers.mono hm⟩
          · exact .fail _

theorem numbers_patterns (bound : Nat) :
    (patterns bound).Numbers fun n ps => Pattern.AreNumbered n ps := by
  induction bound with
  | zero => exact .pure fun _ => trivial
  | succ bound ih =>
    rw [patterns]
    refine (keepsNames_drop _).bind fun _ => keepsNames_peek.bind fun next => ?_
    split
    · exact .pure fun _ => trivial
    · refine (numbers_pattern_children (bound + 1)).1.bind fun p => ih.bind fun ps => ?_
      refine .pure fun n m hm hps k hk hp => ?_
      rw [Pattern.AreNumbered]
      exact ⟨hp.mono hk, hps.mono hm⟩

end Query.Reader

-- ---------------------------------------------------------------------------
-- The pairs that are listed
-- ---------------------------------------------------------------------------

namespace Query

/-- The captures of a query that was read have names. -/
theorem areNumbered_of_ofText {text : List Char} {q : Query} (h : ofText text = .ok q) :
    Pattern.AreNumbered q.captureNames.length q.patterns := by
  unfold ofText at h
  cases hrun : (Reader.patterns (text.length + 1)).run (Place.ofText text) with
  | error e => simp [hrun, bind, Except.bind] at h
  | ok result =>
    obtain ⟨patterns, place⟩ := result
    simp only [hrun, bind, Except.bind] at h
    split at h
    · cases h
    · cases h
      exact (Reader.numbers_patterns _ _ _ _ hrun).2

/-- The nodes and the numbers of the patterns that match there, as they are listed. -/
def pairs (q : Query) (t : Tree) : List (Nat × Nat) :=
  (q.matchesIn t).map fun m => (m.node, m.pattern)

section

variable {q : Query} {t : Tree}

theorem mem_matchesIn {m : Match} : m ∈ q.matchesIn t ↔
    m.node ∈ t.descendants t.rootNumber ∧
      ∃ p, q.patterns[m.pattern]? = some p ∧ p.matchAt? t m.node = some m.captures := by
  simp only [matchesIn, matchesAt, List.mem_flatMap, List.mem_filterMap, Prod.exists,
    List.mk_mem_zipIdx_iff_getElem?, Option.map_eq_some_iff]
  constructor
  · rintro ⟨node, hnode, p, i, hp, found, hfound, rfl⟩
    exact ⟨hnode, p, hp, hfound⟩
  · rintro ⟨hnode, p, hp, hfound⟩
    exact ⟨m.node, hnode, p, m.pattern, hp, m.captures, hfound, rfl⟩

/-- At a node, the patterns that match are listed in the order of their numbers. -/
theorem pairs_matchesAt_sublist (ps : List Pattern) (first node : Nat) :
    (((ps.zipIdx first).filterMap fun (p, i) => (p.matchAt? t node).map (⟨i, node, ·⟩)).map
      fun m : Match => (m.node, m.pattern)).Sublist
        ((List.range' first ps.length).map (node, ·)) := by
  induction ps generalizing first with
  | nil => exact .slnil
  | cons p ps ih =>
    rw [List.zipIdx_cons, List.length_cons, List.range'_succ, List.map_cons, List.filterMap_cons]
    dsimp only
    cases p.matchAt? t node with
    | none => exact (ih (first + 1)).cons _
    | some found => exact (ih (first + 1)).cons_cons _

/-- Pairs are listed in the order of the nodes and, at each node, of the patterns. -/
theorem pairs_sublist : (q.pairs t).Sublist
    ((t.descendants t.rootNumber).product (List.range q.patterns.length)) := by
  rw [pairs, matchesIn, List.range_eq_range']
  induction t.descendants t.rootNumber with
  | nil => exact .slnil
  | cons node nodes ih =>
    rw [List.flatMap_cons, List.map_append]
    exact (pairs_matchesAt_sublist q.patterns 0 node).append ih

theorem mem_pairs_iff {node i : Nat} : (node, i) ∈ q.pairs t ↔
    node ∈ t.descendants t.rootNumber ∧
      ∃ p, q.patterns[i]? = some p ∧ ∃ e, p.Embeds t node e := by
  rw [pairs, List.mem_map]
  constructor
  · rintro ⟨m, hm, hpair⟩
    cases hpair
    obtain ⟨hnode, p, hp, hfound⟩ := mem_matchesIn.1 hm
    refine ⟨hnode, p, hp, Pattern.isSome_matchAt?_iff.1 ?_⟩
    rw [hfound]
    rfl
  · rintro ⟨hnode, p, hp, he⟩
    obtain ⟨found, hfound⟩ := Option.isSome_iff_exists.1 (Pattern.isSome_matchAt?_iff.2 he)
    exact ⟨⟨i, node, found⟩, mem_matchesIn.2 ⟨hnode, p, hp, hfound⟩, rfl⟩

end

end Query

-- ---------------------------------------------------------------------------
-- Exactness
-- ---------------------------------------------------------------------------

/-- A pattern matches at a node exactly if it is embedded there, with the captures of the first
embedding, and a search with a shared list says so, too, and leaves no more there than these
captures. -/
structure Pattern.MatchesExactly (p : Pattern) (t : Tree) : Prop where
  isSome_iff : ∀ node, (p.matchAt? t node).isSome = true ↔ ∃ e, p.Embeds t node e
  eq_some_iff : ∀ node found, p.matchAt? t node = some found ↔
    ∃ e, p.EmbedsFirst t node e ∧ found = p.capturesAt t node e
  search_succeeds : ∀ node before e, p.EmbedsFirst t node e →
    p.searchAt t node before = (true, before ++ p.capturesAt t node e)
  search_fails : ∀ node before, (∀ e, ¬p.Embeds t node e) →
    p.searchAt t node before = (false, before)

/-- A query lists the pairs of nodes and patterns that match, in their order and each once, and what
it captures has names. -/
structure Query.MatchesExactly (q : Query) (t : Tree) : Prop where
  /-- Nodes in the order of the listing, and at each node patterns in the order of the query. -/
  sublist : (q.pairs t).Sublist
    ((t.descendants t.rootNumber).product (List.range q.patterns.length))
  nodup : (q.pairs t).Nodup
  mem_iff : ∀ node i, (node, i) ∈ q.pairs t ↔ node ∈ t.descendants t.rootNumber ∧
    ∃ p, q.patterns[i]? = some p ∧ ∃ e, p.Embeds t node e
  captures : ∀ m ∈ q.matchesIn t, ∃ p e, q.patterns[m.pattern]? = some p ∧
    p.EmbedsFirst t m.node e ∧ m.captures = p.capturesAt t m.node e
  named : ∀ text, Query.ofText text = .ok q →
    ∀ m ∈ q.matchesIn t, ∀ c ∈ m.captures, c.number < q.captureNames.length

theorem Pattern.matchesExactly (p : Pattern) (t : Tree) : p.MatchesExactly t where
  isSome_iff _ := isSome_matchAt?_iff
  eq_some_iff _ _ := matchAt?_eq_some_iff
  search_succeeds node before e he := by
    rw [searchAt_eq, matchAt?_eq_some_iff.2 ⟨e, he, rfl⟩, sharedAfter]
  search_fails node before hnone := by
    have hmatch : p.matchAt? t node = none := by
      rw [← Option.not_isSome_iff_eq_none, isSome_matchAt?_iff]
      rintro ⟨e, he⟩
      exact hnone e he
    rw [searchAt_eq, hmatch, sharedAfter]

/-- In every tree, patterns and queries find what is there and nothing else. -/
theorem matches_exact (source : List Char) (root : Node) (diagnostics : List Diagnostic) :
    (∀ p : Pattern, p.MatchesExactly (.make source root diagnostics)) ∧
      ∀ q : Query, q.MatchesExactly (.make source root diagnostics) := by
  refine ⟨fun p => p.matchesExactly _, fun q => ⟨Query.pairs_sublist, ?_, ?_, ?_, ?_⟩⟩
  · have hcomplete := Tree.complete_make source root diagnostics
    have hnodes := hcomplete.nodup_descendants hcomplete.rootNumber_lt
    exact (hnodes.product List.nodup_range).sublist Query.pairs_sublist
  · intro node i
    exact Query.mem_pairs_iff
  · intro m hm
    obtain ⟨-, p, hp, hfound⟩ := Query.mem_matchesIn.1 hm
    obtain ⟨e, he, hcaptures⟩ := Pattern.matchAt?_eq_some_iff.1 hfound
    exact ⟨p, e, hp, he, hcaptures⟩
  · intro text htext m hm c hc
    obtain ⟨-, p, hp, hfound⟩ := Query.mem_matchesIn.1 hm
    obtain ⟨e, he, hcaptures⟩ := Pattern.matchAt?_eq_some_iff.1 hfound
    have hp := (Query.areNumbered_of_ofText htext).of_mem p (List.mem_of_getElem? hp)
    rw [hcaptures] at hc
    exact hp.capturesAt _ p m.node e c hc

end VisualBasic
