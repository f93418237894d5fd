import VisualBasic.Query.Match

/-!
# Embeddings of patterns

What it means that a pattern matches at a node, without a word about how a match is found. The child
patterns are placed at children of the node, each behind the one before, and their own child
patterns are placed below those, and so on. A `Placement` tells all these places, as positions among
the children, and a pattern matches if there is a placement that embeds it. Of several placements
the one counts whose positions come first when they are read off from the top.

A match is found by going back: where child patterns cannot all be placed, the last one that has
another place is tried there. The search shares one list of captures among all that it tries, and
what it puts there for a try that comes to nothing it has to take away again (`Pattern.searchAt`).

Main results:

* `Pattern.settles_matchAt?` — a match is found exactly if there is an embedding, and then the first
  one.
* `Pattern.searchAt_eq` — the shared list has what it had before and, if there is a match, its
  captures.
-/

namespace VisualBasic

-- ---------------------------------------------------------------------------
-- Placements
-- ---------------------------------------------------------------------------

/-- Where the child patterns of a pattern are placed among the children of a node, and how their own
child patterns are placed below. -/
inductive Placement where
  | mk (positions : List Nat) (lower : List Placement)

namespace Placement

def positions : Placement → List Nat
  | mk positions _ => positions

def lower : Placement → List Placement
  | mk _ lower => lower

mutual

/-- All positions, those of a pattern's children in front of those further down. Of two placements
of a pattern, the one comes first whose trace does (`ComesFirst`). -/
def trace : Placement → List Nat
  | mk positions lower => positions ++ traces lower

def traces : List Placement → List Nat
  | [] => []
  | e :: es => e.trace ++ traces es

end

theorem trace_eq (e : Placement) : e.trace = e.positions ++ traces e.lower := by
  cases e
  rfl

end Placement

/-- The order of words: where two words differ first, the one with the less number comes first, and
a word comes before those that go on behind it. -/
def ComesFirst : List Nat → List Nat → Prop
  | [], _ => True
  | _ :: _, [] => False
  | x :: xs, y :: ys => x < y ∨ x = y ∧ ComesFirst xs ys

theorem ComesFirst.antisymm {a b : List Nat} (h : ComesFirst a b) (h' : ComesFirst b a) :
    a = b := by
  induction a generalizing b with
  | nil =>
    cases b with
    | nil => rfl
    | cons y ys => exact h'.elim
  | cons x xs ih =>
    cases b with
    | nil => exact h.elim
    | cons y ys =>
      rcases h with hlt | ⟨rfl, h⟩
      · rcases h' with hlt' | ⟨heq, -⟩
        · omega
        · omega
      · rcases h' with hlt' | ⟨-, h'⟩
        · omega
        · rw [ih h h']

/-- Of words of the same length, the first that differs decides. -/
theorem comesFirst_append_iff {a a' b b' : List Nat} (h : a.length = a'.length) :
    ComesFirst (a ++ b) (a' ++ b') ↔ ComesFirst a a' ∧ (a = a' → ComesFirst b b') := by
  induction a generalizing a' with
  | nil =>
    rw [List.eq_nil_of_length_eq_zero h.symm]
    simp [ComesFirst]
  | cons x xs ih =>
    cases a' with
    | nil => simp at h
    | cons y ys =>
      rw [List.length_cons, List.length_cons, Nat.succ_inj] at h
      rw [List.cons_append, List.cons_append, ComesFirst, ComesFirst, ih h, List.cons.injEq]
      constructor
      · rintro (hlt | ⟨rfl, hfirst, hrest⟩)
        · exact ⟨.inl hlt, fun heq => absurd heq.1 (Nat.ne_of_lt hlt)⟩
        · exact ⟨.inr ⟨rfl, hfirst⟩, fun heq => hrest heq.2⟩
      · rintro ⟨hlt | ⟨rfl, hfirst⟩, hrest⟩
        · exact .inl hlt
        · exact .inr ⟨rfl, hfirst, fun heq => hrest ⟨rfl, heq⟩⟩

/-- A word in the middle that comes first lets the whole come first if the rest does. -/
theorem ComesFirst.insert {a a' b b' c c' : List Nat} (ha : a.length = a'.length)
    (hb : b.length = b'.length) (h : ComesFirst (a ++ c) (a' ++ c')) (hmiddle : ComesFirst b b') :
    ComesFirst (a ++ (b ++ c)) (a' ++ (b' ++ c')) := by
  rw [comesFirst_append_iff ha] at h ⊢
  refine ⟨h.1, fun heq => ?_⟩
  rw [comesFirst_append_iff hb]
  exact ⟨hmiddle, fun _ => h.2 heq⟩

namespace Pattern

-- ---------------------------------------------------------------------------
-- Embeddings
-- ---------------------------------------------------------------------------

mutual

/-- The placement embeds the pattern at the node. -/
def Embeds (t : Tree) : Pattern → Nat → Placement → Prop
  | mk _ kind _ children, node, place =>
    (∃ n, t.node? node = some n ∧ kind.accepts n.kind = true) ∧
      EmbedsFrom t (t.children node) children 0 place.positions place.lower

/-- The positions, from `start` on and each behind the one before, are those of nodes at which the
patterns look and at which they are embedded. -/
def EmbedsFrom (t : Tree) (nodes : List Nat) :
    List Pattern → (start : Nat) → List Nat → List Placement → Prop
  | [], _, positions, lower => positions = [] ∧ lower = []
  | p :: ps, start, positions, lower =>
    ∃ i is e es node, positions = i :: is ∧ lower = e :: es ∧ start ≤ i ∧
      nodes[i]? = some node ∧ p.looksAt t node = true ∧ p.Embeds t node e ∧
      EmbedsFrom t nodes ps (i + 1) is es

end

mutual

/-- The captures of a pattern that is embedded at a node, parents in front of their children. -/
def capturesAt (t : Tree) : Pattern → Nat → Placement → List Capture
  | mk _ _ captures children, node, place =>
    captures.map (⟨·, node⟩) ++ capturesOf t (t.children node) children place.positions place.lower

def capturesOf (t : Tree) (nodes : List Nat) :
    List Pattern → List Nat → List Placement → List Capture
  | p :: ps, i :: is, e :: es =>
    nodes[i]?.elim [] (fun node => p.capturesAt t node e) ++ capturesOf t nodes ps is es
  | _, _, _ => []

end

mutual

/-- The number of patterns below a pattern. -/
def sizeBelow : Pattern → Nat
  | mk _ _ _ children => sizes children

def sizes : List Pattern → Nat
  | [] => 0
  | p :: ps => p.sizeBelow + 1 + sizes ps

end

/-- The placement embeds the pattern, and no other one that does comes before it. -/
def EmbedsFirst (t : Tree) (p : Pattern) (node : Nat) (e : Placement) : Prop :=
  p.Embeds t node e ∧ ∀ e', p.Embeds t node e' → ComesFirst e.trace e'.trace

/-- The answer to a search for a placement: the captures of the first that there is, or none. -/
def Settles (placed : Placement → Prop) (captures : Placement → List Capture) :
    Option (List Capture) → Prop
  | none => ∀ e, ¬placed e
  | some found =>
    ∃ e, placed e ∧ (∀ e', placed e' → ComesFirst e.trace e'.trace) ∧ found = captures e

section

variable {t : Tree} {nodes : List Nat} {p : Pattern} {ps : List Pattern} {start : Nat}

theorem EmbedsFrom.length_positions {positions : List Nat} {lower : List Placement}
    (h : EmbedsFrom t nodes ps start positions lower) : positions.length = ps.length := by
  induction ps generalizing start positions lower with
  | nil =>
    rw [EmbedsFrom] at h
    rw [h.1]
    rfl
  | cons p ps ih =>
    rw [EmbedsFrom] at h
    obtain ⟨i, is, e, es, node, rfl, rfl, -, -, -, -, h⟩ := h
    rw [List.length_cons, List.length_cons, ih h]

mutual

/-- The trace of an embedding has a position for each pattern below. -/
theorem Embeds.length_trace (t : Tree) : (p : Pattern) → {node : Nat} → {e : Placement} →
    p.Embeds t node e → e.trace.length = p.sizeBelow
  | mk _ _ _ children, _, e, h => by
    rw [Embeds] at h
    rw [e.trace_eq, List.length_append, sizeBelow]
    exact EmbedsFrom.length_trace t children h.2

theorem EmbedsFrom.length_trace (t : Tree) : (ps : List Pattern) → {nodes : List Nat} →
    {start : Nat} → {positions : List Nat} → {lower : List Placement} →
    EmbedsFrom t nodes ps start positions lower →
      positions.length + (Placement.traces lower).length = sizes ps
  | [], _, _, _, _, h => by
    rw [EmbedsFrom] at h
    rw [h.1, h.2]
    rfl
  | p :: ps, _, _, _, _, h => by
    rw [EmbedsFrom] at h
    obtain ⟨i, is, e, es, node, rfl, rfl, -, -, -, hp, hps⟩ := h
    have hfirst := Embeds.length_trace t p hp
    have hrest := EmbedsFrom.length_trace t ps hps
    rw [Placement.traces, List.length_cons, List.length_append, sizes]
    omega

end

/-- Of two searches the second is asked if the first finds nothing; what the first finds comes
first. -/
theorem Settles.or {placed placed₁ placed₂ : Placement → Prop} {captures : Placement → List Capture}
    {answer₁ answer₂ : Option (List Capture)} (h₁ : Settles placed₁ captures answer₁)
    (h₂ : Settles placed₂ captures answer₂) (hplaced : ∀ e, placed e ↔ placed₁ e ∨ placed₂ e)
    (hbefore : ∀ e₁ e₂, placed₁ e₁ → placed₂ e₂ → ComesFirst e₁.trace e₂.trace) :
    Settles placed captures (answer₁.or answer₂) := by
  cases answer₁ with
  | some found =>
    obtain ⟨e, he, hfirst, hfound⟩ := h₁
    refine ⟨e, (hplaced e).2 (.inl he), fun e' he' => ?_, hfound⟩
    rcases (hplaced e').1 he' with he' | he'
    · exact hfirst e' he'
    · exact hbefore e e' he he'
  | none =>
    have hnone : ∀ e, ¬placed₁ e := h₁
    cases answer₂ with
    | none =>
      intro e he
      exact ((hplaced e).1 he).elim (hnone e) (h₂ e)
    | some found =>
      obtain ⟨e, he, hfirst, hfound⟩ := h₂
      refine ⟨e, (hplaced e).2 (.inr he), fun e' he' => ?_, hfound⟩
      exact hfirst e' (((hplaced e').1 he').resolve_left (hnone e'))

/-- The first pattern is embedded at the node in the position `i`, and the others behind it. -/
def PlacedAt (t : Tree) (nodes : List Nat) (p : Pattern) (ps : List Pattern) (i : Nat)
    (place : Placement) : Prop :=
  ∃ is e es node, place = .mk (i :: is) (e :: es) ∧ nodes[i]? = some node ∧
    p.looksAt t node = true ∧ p.Embeds t node e ∧ EmbedsFrom t nodes ps (i + 1) is es

/-- The first pattern is in the position where the search begins, or further on. -/
theorem embedsFrom_cons_iff (place : Placement) :
    EmbedsFrom t nodes (p :: ps) start place.positions place.lower ↔
      PlacedAt t nodes p ps start place ∨
        EmbedsFrom t nodes (p :: ps) (start + 1) place.positions place.lower := by
  obtain ⟨positions, lower⟩ := place
  simp only [EmbedsFrom, PlacedAt, Placement.positions, Placement.lower, Placement.mk.injEq]
  constructor
  · rintro ⟨i, is, e, es, node, rfl, rfl, hle, h⟩
    rcases Nat.lt_or_eq_of_le hle with hlt | rfl
    · exact .inr ⟨i, is, e, es, node, rfl, rfl, hlt, h⟩
    · exact .inl ⟨is, e, es, node, ⟨rfl, rfl⟩, h⟩
  · rintro (⟨is, e, es, node, ⟨rfl, rfl⟩, h⟩ | ⟨i, is, e, es, node, rfl, rfl, hle, h⟩)
    · exact ⟨start, is, e, es, node, rfl, rfl, Nat.le_refl _, h⟩
    · exact ⟨i, is, e, es, node, rfl, rfl, Nat.le_of_succ_le hle, h⟩

/-- A placement comes before those whose first position is further on. -/
theorem PlacedAt.comesFirst {place place' : Placement} (h : PlacedAt t nodes p ps start place)
    (h' : EmbedsFrom t nodes (p :: ps) (start + 1) place'.positions place'.lower) :
    ComesFirst place.trace place'.trace := by
  obtain ⟨is, e, es, node, rfl, -⟩ := h
  rw [EmbedsFrom] at h'
  obtain ⟨i, is', e', es', node', hpositions, -, hlt, -⟩ := h'
  rw [place'.trace_eq, hpositions, Placement.trace, List.cons_append, List.cons_append]
  exact .inl hlt

/-- Where the first pattern is in a given position, its placement below that and the placement of
the others are independent of each other. -/
theorem settles_placedAt {node : Nat} (hnode : nodes[start]? = some node)
    {answer rest : Option (List Capture)}
    (hp : Settles (p.Embeds t node) (p.capturesAt t node) answer)
    (hps : Settles (fun e => EmbedsFrom t nodes ps (start + 1) e.positions e.lower)
      (fun e => capturesOf t nodes ps e.positions e.lower) rest) :
    Settles (PlacedAt t nodes p ps start)
      (fun e => capturesOf t nodes (p :: ps) e.positions e.lower)
      (if p.looksAt t node then do
        let captures ← answer
        return captures ++ (← rest)
      else none) := by
  have hinv {place : Placement} (h : PlacedAt t nodes p ps start place) :
      ∃ is e es, place = .mk (start :: is) (e :: es) ∧ p.looksAt t node = true ∧
        p.Embeds t node e ∧ EmbedsFrom t nodes ps (start + 1) is es := by
    obtain ⟨is, e, es, node', hplace, hnode', h⟩ := h
    cases hnode.symm.trans hnode'
    exact ⟨is, e, es, hplace, h⟩
  by_cases hlooks : p.looksAt t node = true
  · rw [if_pos hlooks]
    cases answer with
    | none =>
      intro place hplace
      obtain ⟨is, e, es, -, -, he, -⟩ := hinv hplace
      exact hp e he
    | some found =>
      cases rest with
      | none =>
        intro place hplace
        obtain ⟨is, e, es, -, -, -, hes⟩ := hinv hplace
        exact hps (.mk is es) hes
      | some found' =>
        obtain ⟨e, he, hfirst, rfl⟩ := hp
        obtain ⟨⟨is, es⟩, hes, hfirst', rfl⟩ := hps
        refine ⟨.mk (start :: is) (e :: es), ⟨is, e, es, node, rfl, hnode, hlooks, he, hes⟩,
          fun place' hplace' => ?_, ?_⟩
        · obtain ⟨is', e', es', rfl, -, he', hes'⟩ := hinv hplace'
          have hlength : (start :: is).length = (start :: is').length := by
            rw [List.length_cons, List.length_cons]
            exact congrArg (· + 1)
              ((EmbedsFrom.length_positions hes).trans (EmbedsFrom.length_positions hes').symm)
          have htrace : e.trace.length = e'.trace.length :=
            (he.length_trace t p).trans (he'.length_trace t p).symm
          refine ComesFirst.insert hlength htrace ?_ (hfirst e' he')
          exact .inr ⟨rfl, hfirst' (.mk is' es') hes'⟩
        · show _ = nodes[start]?.elim [] (fun node => p.capturesAt t node e) ++ _
          rw [hnode]
          rfl
  · rw [if_neg hlooks]
    intro place hplace
    obtain ⟨is, e, es, -, h, -⟩ := hinv hplace
    exact hlooks h

/-- The search for a place of the first pattern goes from each position to the one behind it. -/
theorem settles_matchChildren?_cons
    (hp : ∀ node, Settles (p.Embeds t node) (p.capturesAt t node) (p.matchAt? t node))
    (hps : ∀ start, Settles (fun e => EmbedsFrom t nodes ps start e.positions e.lower)
      (fun e => capturesOf t nodes ps e.positions e.lower)
      (matchChildren? t ps (nodes.drop start))) (start : Nat) :
    Settles (fun e => EmbedsFrom t nodes (p :: ps) start e.positions e.lower)
      (fun e => capturesOf t nodes (p :: ps) e.positions e.lower)
      (matchChildren? t (p :: ps) (nodes.drop start)) := by
  induction hrest : nodes.drop start generalizing start with
  | nil =>
    intro e he
    rw [EmbedsFrom] at he
    obtain ⟨i, -, -, -, node, -, -, hle, hnode, -⟩ := he
    have hlt := (List.getElem?_eq_some_iff.1 hnode).1
    have hlength := List.drop_eq_nil_iff.1 hrest
    omega
  | cons node rest ih =>
    have hnode : nodes[start]? = some node := by
      rw [← List.head?_drop, hrest]
      rfl
    have hbehind : nodes.drop (start + 1) = rest := by
      rw [← List.drop_drop, hrest]
      rfl
    have hfirst := settles_placedAt hnode (hp node) (hps (start + 1))
    rw [hbehind] at hfirst
    have hmatch : matchChildren? t (p :: ps) (node :: rest) =
        (if p.looksAt t node then do
          let captures ← p.matchAt? t node
          return captures ++ (← matchChildren? t ps rest)
        else none).or (matchChildren? t (p :: ps) rest) := by
      simp only [matchChildren?, firstChoice?]
    rw [hmatch]
    exact hfirst.or (ih (start + 1) hbehind) embedsFrom_cons_iff
      fun e e' he he' => he.comesFirst he'

mutual

/-- The search for a match finds the first embedding, if there is one. -/
theorem settles_matchAt? (t : Tree) : (p : Pattern) → (node : Nat) →
    Settles (p.Embeds t node) (p.capturesAt t node) (p.matchAt? t node)
  | mk field kind captures children, node => by
    have hbelow := settles_matchChildren? t children (t.children node) 0
    rw [List.drop_zero] at hbelow
    have hkind : (t.node? node).any (kind.accepts ·.kind) = true ↔
        ∃ n, t.node? node = some n ∧ kind.accepts n.kind = true := Option.any_eq_true _ _
    rw [matchAt?]
    by_cases h : (t.node? node).any (kind.accepts ·.kind) = true
    · rw [if_pos h]
      cases hmatch : matchChildren? t children (t.children node) with
      | none =>
        rw [hmatch] at hbelow
        intro e he
        rw [Embeds] at he
        exact hbelow e he.2
      | some found =>
        rw [hmatch] at hbelow
        obtain ⟨e, he, hfirst, rfl⟩ := hbelow
        refine ⟨e, ?_, fun e' he' => ?_, ?_⟩
        · rw [Embeds]
          exact ⟨hkind.1 h, he⟩
        · rw [Embeds] at he'
          exact hfirst e' he'.2
        · rw [capturesAt]
    · rw [if_neg h]
      intro e he
      rw [Embeds] at he
      exact h (hkind.2 he.1)

theorem settles_matchChildren? (t : Tree) : (ps : List Pattern) → (nodes : List Nat) →
    (start : Nat) → Settles (fun e => EmbedsFrom t nodes ps start e.positions e.lower)
      (fun e => capturesOf t nodes ps e.positions e.lower) (matchChildren? t ps (nodes.drop start))
  | [], nodes, start => by
    refine ⟨.mk [] [], ⟨rfl, rfl⟩, fun e he => ?_, rfl⟩
    exact trivial
  | p :: ps, nodes, start =>
    settles_matchChildren?_cons (settles_matchAt? t p) (settles_matchChildren? t ps nodes) start

end

/-- A pattern matches exactly if there is an embedding. -/
theorem isSome_matchAt?_iff {node : Nat} :
    (p.matchAt? t node).isSome = true ↔ ∃ e, p.Embeds t node e := by
  have hsettles := settles_matchAt? t p node
  cases hmatch : p.matchAt? t node with
  | none =>
    rw [hmatch] at hsettles
    constructor
    · intro h
      cases h
    · rintro ⟨e, he⟩
      exact absurd he (hsettles e)
  | some found =>
    rw [hmatch] at hsettles
    obtain ⟨e, he, -⟩ := hsettles
    exact iff_of_true rfl ⟨e, he⟩

-- ---------------------------------------------------------------------------
-- There is only one first embedding
-- ---------------------------------------------------------------------------

mutual

/-- An embedding is known by its trace. -/
theorem Embeds.eq_of_trace (t : Tree) : (p : Pattern) → {node : Nat} → {e e' : Placement} →
    p.Embeds t node e → p.Embeds t node e' → e.trace = e'.trace → e = e'
  | mk _ _ _ children, node, .mk is es, .mk is' es', h, h', htrace => by
    rw [Embeds] at h h'
    have hlength := (EmbedsFrom.length_positions h.2).trans (EmbedsFrom.length_positions h'.2).symm
    obtain ⟨his, hes⟩ := List.append_inj htrace hlength
    have hpositions : is = is' := his
    subst hpositions
    exact congrArg _ (EmbedsFrom.eq_of_traces t children h.2 h'.2 hes)

theorem EmbedsFrom.eq_of_traces (t : Tree) : (ps : List Pattern) → {nodes : List Nat} →
    {start : Nat} → {positions : List Nat} → {lower lower' : List Placement} →
    EmbedsFrom t nodes ps start positions lower → EmbedsFrom t nodes ps start positions lower' →
      Placement.traces lower = Placement.traces lower' → lower = lower'
  | [], _, _, _, _, _, h, h', _ => by
    rw [EmbedsFrom] at h h'
    rw [h.2, h'.2]
  | p :: ps, _, _, _, _, _, h, h', htraces => by
    rw [EmbedsFrom] at h h'
    obtain ⟨i, is, e, es, node, rfl, rfl, -, hnode, -, he, hes⟩ := h
    obtain ⟨i', is', e', es', node', hpositions, rfl, -, hnode', -, he', hes'⟩ := h'
    cases hpositions
    cases hnode.symm.trans hnode'
    have hlength := (he.length_trace t p).trans (he'.length_trace t p).symm
    obtain ⟨htrace, hrest⟩ := List.append_inj htraces hlength
    rw [Embeds.eq_of_trace t p he he' htrace, EmbedsFrom.eq_of_traces t ps hes hes' hrest]

end

theorem EmbedsFirst.unique {node : Nat} {e e' : Placement} (h : p.EmbedsFirst t node e)
    (h' : p.EmbedsFirst t node e') : e = e' :=
  h.1.eq_of_trace t p h'.1 ((h.2 e' h'.1).antisymm (h'.2 e h.1))

/-- The captures of a match are those of the first embedding. -/
theorem matchAt?_eq_some_iff {node : Nat} {found : List Capture} :
    p.matchAt? t node = some found ↔
      ∃ e, p.EmbedsFirst t node e ∧ found = p.capturesAt t node e := by
  have hsettles := settles_matchAt? t p node
  cases hmatch : p.matchAt? t node with
  | none =>
    rw [hmatch] at hsettles
    refine iff_of_false nofun ?_
    rintro ⟨e, he, -⟩
    exact hsettles e he.1
  | some found' =>
    rw [hmatch] at hsettles
    obtain ⟨e, he, hfirst, rfl⟩ := hsettles
    rw [Option.some.injEq]
    constructor
    · rintro rfl
      exact ⟨e, ⟨he, hfirst⟩, rfl⟩
    · rintro ⟨e', he', rfl⟩
      rw [he'.unique ⟨he, hfirst⟩]

end

-- ---------------------------------------------------------------------------
-- Searching with a shared list
-- ---------------------------------------------------------------------------

/-- Asks one element of a list after the other, each together with those behind it, until one says
yes. What the others have put into the shared list is taken away again. -/
def firstSuccess (ask : Nat → List Nat → List Capture → Bool × List Capture) :
    List Nat → List Capture → Bool × List Capture
  | [], shared => (false, shared)
  | x :: rest, shared =>
    match ask x rest shared with
    | (true, shared') => (true, shared')
    | (false, shared') => firstSuccess ask rest (shared'.take shared.length)

mutual

/-- Whether a pattern matches at a node, with its captures put behind those in the shared list. -/
def searchAt (t : Tree) : Pattern → Nat → List Capture → Bool × List Capture
  | mk _ kind captures children, node, shared =>
    if (t.node? node).any (kind.accepts ·.kind) then
      match searchChildren t children (t.children node) (shared ++ captures.map (⟨·, node⟩)) with
      | (true, shared') => (true, shared')
      | (false, shared') => (false, shared'.take shared.length)
    else (false, shared)

/-- Whether patterns match at some of the nodes, in the same order. -/
def searchChildren (t : Tree) : List Pattern → List Nat → List Capture → Bool × List Capture
  | [], _, shared => (true, shared)
  | p :: ps, nodes, shared => firstSuccess (fun node rest shared =>
      if p.looksAt t node then
        match p.searchAt t node shared with
        | (true, shared') => searchChildren t ps rest shared'
        | (false, shared') => (false, shared')
      else (false, shared)) nodes shared

end

/-- What a search leaves in the shared list: what was there, with the answer behind it. -/
def sharedAfter (before : List Capture) : Option (List Capture) → Bool × List Capture
  | none => (false, before)
  | some found => (true, before ++ found)

/-- A search that takes away what comes to nothing gives the first answer that there is. -/
theorem firstSuccess_eq {ask : Nat → List Nat → List Capture → Bool × List Capture}
    {answer : Nat → List Nat → Option (List Capture)} {before : List Capture}
    (hsome : ∀ x rest found, answer x rest = some found →
      ask x rest before = (true, before ++ found))
    (hnone : ∀ x rest, answer x rest = none → ∃ more, ask x rest before = (false, before ++ more))
    (nodes : List Nat) :
    firstSuccess ask nodes before = sharedAfter before (firstChoice? answer nodes) := by
  induction nodes with
  | nil => rfl
  | cons x rest ih =>
    rw [firstSuccess, firstChoice?]
    cases h : answer x rest with
    | some found => rw [hsome x rest found h, Option.some_or, sharedAfter]
    | none =>
      obtain ⟨more, hmore⟩ := hnone x rest h
      rw [hmore, Option.none_or]
      dsimp only
      rw [List.take_left, ih]

mutual

/-- The search with a shared list finds what the search without one finds, and leaves nothing behind
if it finds nothing. -/
theorem searchAt_eq (t : Tree) : (p : Pattern) → (node : Nat) → (before : List Capture) →
    p.searchAt t node before = sharedAfter before (p.matchAt? t node)
  | mk _ kind captures children, node, before => by
    rw [searchAt, matchAt?, searchChildren_eq t children]
    split
    · cases matchChildren? t children (t.children node) with
      | none =>
        dsimp only [sharedAfter, Option.map_none]
        rw [List.take_left]
      | some found =>
        dsimp only [sharedAfter, Option.map_some]
        rw [List.append_assoc]
    · rfl

theorem searchChildren_eq (t : Tree) : (ps : List Pattern) → (nodes : List Nat) →
    (before : List Capture) →
    searchChildren t ps nodes before = sharedAfter before (matchChildren? t ps nodes)
  | [], _, before => by
    rw [searchChildren, matchChildren?, sharedAfter, List.append_nil]
  | p :: ps, nodes, before => by
    rw [searchChildren, matchChildren?]
    refine firstSuccess_eq (fun node rest found h => ?_) (fun node rest h => ?_) nodes
    · by_cases hlooks : p.looksAt t node = true
      · rw [if_pos hlooks] at h ⊢
        obtain ⟨first, hfirst, h⟩ := Option.bind_eq_some_iff.1 h
        obtain ⟨others, hothers, h⟩ := Option.bind_eq_some_iff.1 h
        cases h
        rw [searchAt_eq t p, hfirst]
        dsimp only [sharedAfter]
        rw [searchChildren_eq t ps, hothers, sharedAfter, List.append_assoc]
      · rw [if_neg hlooks] at h
        cases h
    · by_cases hlooks : p.looksAt t node = true
      · rw [if_pos hlooks] at h ⊢
        rw [searchAt_eq t p]
        cases hfirst : p.matchAt? t node with
        | none => exact ⟨[], by rw [List.append_nil]; rfl⟩
        | some first =>
          rw [hfirst] at h
          have hothers : matchChildren? t ps rest = none := by
            cases hothers : matchChildren? t ps rest with
            | none => rfl
            | some others =>
              rw [hothers] at h
              cases h
          refine ⟨first, ?_⟩
          dsimp only [sharedAfter]
          rw [searchChildren_eq t ps, hothers, sharedAfter]
      · rw [if_neg hlooks]
        exact ⟨[], by rw [List.append_nil]⟩

end

end Pattern

end VisualBasic
