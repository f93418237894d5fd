import Mathlib.Data.List.Forall2
import VisualBasic.Proofs.Forest
import VisualBasic.Tree.Sexp

/-!
# Runs side by side

Two runs over streams of tokens whose kinds agree, where the one stream may have some tokens in
front of those of the other. What the runs make is compared without spans, and with the numbers of
the tokens shifted by as many as are in front. How much of the streams agrees is a `Sight`: all of
it, or what is in front of some token, behind which nothing is known.

Main results:

* `Node.sexp_bare` — nodes that are alike have the same s-expression.
* `Env.Alike.next` — behind tokens that agree there are places that do.
-/

namespace VisualBasic

-- ---------------------------------------------------------------------------
-- Nodes without their spans
-- ---------------------------------------------------------------------------

/-- What is known of a node but its span, with `δ` tokens in front of its own. -/
def NodeInfo.bare (δ : Nat) (info : NodeInfo) : NodeInfo :=
  { info with
    span := ⟨0, 0⟩
    firstToken := info.firstToken + δ
    token := info.token.map (· + δ) }

namespace Node

mutual

/-- The node without the spans in it, with `δ` tokens in front of its own. -/
def bare (δ : Nat) : Node → Node
  | mk info children => mk (info.bare δ) (bares δ children)

def bares (δ : Nat) : List Node → List Node
  | [] => []
  | n :: rest => n.bare δ :: bares δ rest

end

/-- The nodes are the same but for their spans, if `δ` tokens come in front of those of the
first. -/
def Alike (δ : Nat) (n n' : Node) : Prop := n.bare δ = n'.bare 0

theorem bares_eq_map (δ : Nat) (ns : List Node) : bares δ ns = ns.map (bare δ) := by
  induction ns with
  | nil => rfl
  | cons n rest ih => rw [bares, ih, List.map_cons]

@[simp]
theorem kind_bare (δ : Nat) (n : Node) : (n.bare δ).kind = n.kind := by
  cases n; rfl

@[simp]
theorem field_bare (δ : Nat) (n : Node) : (n.bare δ).field = n.field := by
  cases n; rfl

@[simp]
theorem flags_bare (δ : Nat) (n : Node) : (n.bare δ).flags = n.flags := by
  cases n; rfl

@[simp]
theorem children_bare (δ : Nat) (n : Node) : (n.bare δ).children = n.children.map (bare δ) := by
  cases n; exact bares_eq_map δ _

@[simp]
theorem token_bare (δ : Nat) (n : Node) : (n.bare δ).info.token = n.info.token.map (· + δ) := by
  cases n; rfl

@[simp]
theorem firstToken_bare (δ : Nat) (n : Node) :
    (n.bare δ).info.firstToken = n.info.firstToken + δ := by
  cases n; rfl

theorem troubled_bare (δ : Nat) (n : Node) : (n.bare δ).troubled = n.troubled := by
  rw [troubled, flags_bare, troubled]

@[simp]
theorem bare_inField (δ : Nat) (n : Node) (f : Field) :
    (n.inField f).bare δ = (n.bare δ).inField f := by
  cases n; rfl

mutual

theorem bare_bare (δ : Nat) : (n : Node) → (n.bare δ).bare 0 = n.bare δ
  | mk info children => by
    have hinfo : (info.bare δ).bare 0 = info.bare δ := by
      simp [NodeInfo.bare, Function.comp_def]
    rw [bare, bare, bares_bares δ children, hinfo]

theorem bares_bares (δ : Nat) : (ns : List Node) → bares 0 (bares δ ns) = bares δ ns
  | [] => rfl
  | n :: rest => by
    rw [bares, bares, bare_bare δ n, bares_bares δ rest]

end

theorem bare_leaf (δ : Nat) (kind : NodeKind) (span : Span) (i : Nat) :
    (leaf kind span i).bare δ = leaf kind ⟨0, 0⟩ (i + δ) := rfl

theorem bare_error (δ : Nat) (span : Span) (i : Nat) :
    (error span i).bare δ = error ⟨0, 0⟩ (i + δ) := rfl

theorem bare_finish (δ : Nat) (kind : NodeKind) (span : Span) (first : Nat) (isPartial : Bool)
    (children : List Node) : (finish kind span first isPartial children).bare δ =
      finish kind ⟨0, 0⟩ (first + δ) isPartial (children.map (bare δ)) := by
  have htroubled : (children.map (bare δ)).any troubled = children.any troubled := by
    rw [List.any_map]
    exact congrArg children.any (funext (troubled_bare δ))
  rw [finish, finish, htroubled, bare, bares_eq_map]
  rfl

mutual

/-- An s-expression shows no spans and no numbers of tokens. -/
theorem sexp_bare (δ : Nat) : (n : Node) → (n.bare δ).sexp = n.sexp
  | mk info children => by
    rw [bare, sexp, sexp, sexpsNamed_bares δ children]
    rfl

theorem sexpsNamed_bares (δ : Nat) : (ns : List Node) → sexpsNamed (bares δ ns) = sexpsNamed ns
  | [] => rfl
  | n :: rest => by
    rw [bares, sexpsNamed, sexpsNamed, sexpsNamed_bares δ rest, sexp_bare δ n, isNamed, isNamed,
      kind_bare, sexpLead, sexpLead, field_bare]

end

mutual

theorem preorder_bare (δ : Nat) : (n : Node) → (n.bare δ).preorder = n.preorder.map (bare δ)
  | mk info children => by
    rw [bare, preorder, preorder, List.map_cons, preorders_bares δ children, bare]

theorem preorders_bares (δ : Nat) :
    (ns : List Node) → preorders (bares δ ns) = (preorders ns).map (bare δ)
  | [] => rfl
  | n :: rest => by
    rw [bares, preorders, preorders, List.map_append, preorder_bare δ n, preorders_bares δ rest]

end

section

variable {δ : Nat} {n n' : Node}

theorem Alike.kind (h : n.Alike δ n') : n.kind = n'.kind := by
  have hkind := congrArg Node.kind h
  rwa [kind_bare, kind_bare] at hkind

theorem Alike.isRule (h : n.Alike δ n') (rules : List Rule) : n.isRule rules = n'.isRule rules := by
  rw [Node.isRule, Node.isRule, h.kind]

theorem Alike.firstToken (h : n.Alike δ n') : n'.info.firstToken = n.info.firstToken + δ := by
  have hfirst := congrArg (fun m => m.info.firstToken) h
  simpa using hfirst.symm

theorem Alike.inField (h : n.Alike δ n') (f : Field) : (n.inField f).Alike δ (n'.inField f) := by
  unfold Alike
  rw [bare_inField, bare_inField, h]

theorem Alike.sexp (h : n.Alike δ n') : n.sexp = n'.sexp := by
  rw [← sexp_bare δ n, h, sexp_bare]

end

end Node

-- ---------------------------------------------------------------------------
-- Tokens that agree
-- ---------------------------------------------------------------------------

/-- How much of two streams agrees. -/
inductive Sight where
  /-- All tokens do. If `full`, the diagnostics are compared, too. -/
  | whole (full : Bool)
  /-- The tokens in front of `stop` do, and what is compared stays within `bound`. -/
  | upTo (bound stop : Nat)

namespace Sight

/-- The token at an index is among those that agree. -/
def Sees : Sight → Nat → Prop
  | whole _, _ => True
  | upTo _ stop, i => i < stop

/-- A place is within the bound. -/
def Reaches : Sight → Nat → Prop
  | whole _, _ => True
  | upTo bound _, i => i ≤ bound

theorem Reaches.mono {m : Sight} {i j : Nat} (h : m.Reaches j) (hij : i ≤ j) : m.Reaches i := by
  cases m with
  | whole => trivial
  | upTo bound stop => exact Nat.le_trans hij h

end Sight

/-- The kinds of the tokens of two places agree, with `δ` more tokens in front in the second. Where
only a part of them does, this part ends with a line. -/
structure Env.Alike (δ : Nat) (m : Sight) (env env' : Env) : Prop where
  depth : env'.depth = env.depth
  limit : env'.limit = env.limit
  kindAt : ∀ i, m.Sees i → env'.tokens.kindAt (i + δ) = env.tokens.kindAt i
  size : ∀ full, m = .whole full → env'.tokens.tokens.size = env.tokens.tokens.size + δ
  part : ∀ bound stop, m = .upTo bound stop → bound < stop ∧ stop ≤ env.tokens.tokens.size ∧
    stop + δ ≤ env'.tokens.tokens.size ∧ env.tokens.kindAt (stop - 1) = .newline
  lasting : ∀ bound stop, m = .upTo bound stop → ∀ i < stop, env.tokens.kindAt i ≠ .endOfFile

/-- The diagnostics are of one kind and begin at the same token. -/
def Diagnostic.Matches (δ : Nat) (t t' : TokenStream) (d d' : Diagnostic) : Prop :=
  d.kind = d'.kind ∧ ∃ i, i ≤ t.tokens.size ∧ d.span.start = (t.get i).span.start ∧
    d'.span.start = (t'.get (i + δ)).span.start

/-- The states of two runs are the same, but for spans and lines. -/
structure State.Alike (δ : Nat) (m : Sight) (t t' : TokenStream) (s s' : State) : Prop where
  cursor : s'.cursor = s.cursor + δ
  le_size : s.cursor ≤ t.tokens.size
  children : s.children.map (Node.bare δ) = s'.children.map (Node.bare 0)
  isPartial : s'.isPartial = s.isPartial
  openers : s'.blocks.map OpenBlock.opener = s.blocks.map OpenBlock.opener
  singleLineIfs : s'.singleLineIfs = s.singleLineIfs
  diagnostics : m = .whole true →
    List.Forall₂ (Diagnostic.Matches δ t t') s.diagnostics s'.diagnostics

section

variable {δ : Nat} {m : Sight} {env env' : Env} {s s' : State}

/-- The nodes of states that are alike have the same s-expressions. -/
theorem State.Alike.sexps {t t' : TokenStream} (h : s.Alike δ m t t' s') :
    s'.children.map Node.sexp = s.children.map Node.sexp := by
  have hsame := congrArg (List.map Node.sexp) h.children
  simpa only [List.map_map, Function.comp_def, Node.sexp_bare] using hsame.symm

theorem Env.Alike.room (h : env.Alike δ m env') : env'.room = env.room := by
  rw [Env.room, Env.room, h.depth, h.limit]

theorem Env.Alike.nested (h : env.Alike δ m env') :
    Env.Alike δ m { env with depth := env.depth + 1 } { env' with depth := env'.depth + 1 } :=
  ⟨congrArg (· + 1) h.depth, h.limit, h.kindAt, h.size, h.part, h.lasting⟩

/-- Within the bound there is a token, and the one behind it is no further than the end. -/
theorem Env.Alike.lt_size (h : env.Alike δ m env') {bound stop i : Nat} (hm : m = .upTo bound stop)
    (hi : m.Reaches i) : i < env.tokens.tokens.size ∧ i + δ < env'.tokens.tokens.size := by
  obtain ⟨hbound, hsize, hsize', -⟩ := h.part bound stop hm
  subst hm
  have hle : i ≤ bound := hi
  omega

/-- Within the bound the token ahead is the same. -/
theorem Env.Alike.sees (h : env.Alike δ m env') {i : Nat} (hi : m.Reaches i) : m.Sees i := by
  cases m with
  | whole => trivial
  | upTo bound stop =>
    obtain ⟨hbound, -⟩ := h.part bound stop rfl
    exact Nat.lt_of_le_of_lt hi hbound

theorem Env.Alike.next (h : env.Alike δ m env') {i : Nat} (hi : m.Reaches i) :
    env'.next (i + δ) = env.next i + δ := by
  unfold Env.next
  cases m with
  | whole full =>
    rw [h.size full rfl]
    omega
  | upTo bound stop =>
    obtain ⟨hlt, hlt'⟩ := h.lt_size rfl hi
    omega

theorem State.Alike.kind (hs : s.Alike δ m env.tokens env'.tokens s') (henv : env.Alike δ m env')
    (hi : m.Reaches s.cursor) : env'.kind s' = env.kind s := by
  rw [Env.kind, hs.cursor]
  exact henv.kindAt _ (henv.sees hi)

/-- Tokens further ahead are the same, if there is no line end in between. -/
theorem State.Alike.kindAhead (hs : s.Alike δ m env.tokens env'.tokens s')
    (henv : env.Alike δ m env') (hi : m.Reaches s.cursor) {k : Nat}
    (hline : ∀ j < k, env.kindAhead s j ≠ .newline) : env'.kindAhead s' k = env.kindAhead s k := by
  rw [Env.kindAhead, hs.cursor, Nat.add_right_comm]
  refine henv.kindAt _ ?_
  cases m with
  | whole => trivial
  | upTo bound stop =>
    obtain ⟨hbound, -, -, hnewline⟩ := henv.part bound stop rfl
    have hle : s.cursor ≤ bound := hi
    refine Nat.lt_of_not_le fun hfar => ?_
    refine hline (stop - 1 - s.cursor) (by omega) ?_
    rw [Env.kindAhead, show s.cursor + (stop - 1 - s.cursor) = stop - 1 by omega]
    exact hnewline

end

end VisualBasic
