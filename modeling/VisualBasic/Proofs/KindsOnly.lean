import VisualBasic.Proofs.Alongside
import VisualBasic.Proofs.LoudDeclarations
import VisualBasic.Proofs.TokenOrder

/-!
# Kinds of tokens decide

No decision of the grammar depends on more than the kinds of the tokens: not on the spelling of
names, not on what stands in literals and comments, and not on where in the text a token is. So two
texts whose tokens are of the same kinds, one by one, have trees of the same shape and diagnostics
of the same kinds.

The file is a passage, so two runs of it over the two streams make the same but for spans.
Diagnostics are put in order by where they begin; each begins at a token, and the tokens of both
streams are in the same order, so sorting the one list moves its diagnostics as sorting the other
does.

Main results:

* `map_kind_mergeSort` — sorting keeps the kinds of diagnostics that begin at the same tokens in
  step.
* `sameShape_of_kinds` — the shape of a tree depends on the kinds of tokens alone.
-/

namespace VisualBasic

-- ---------------------------------------------------------------------------
-- Trees of the same shape
-- ---------------------------------------------------------------------------

/-- The nodes differ at most in the text that they cover, and have as many children. -/
structure Node.SameShape (n n' : Node) : Prop where
  kind : n.kind = n'.kind
  field : n.field = n'.field
  firstToken : n.info.firstToken = n'.info.firstToken
  token : n.info.token = n'.info.token
  flags : n.flags = n'.flags
  arity : n.children.length = n'.children.length

/-- The trees have nodes of the same shape in the same places, and diagnostics of the same kinds. -/
structure Tree.SameShape (t t' : Tree) : Prop where
  nodes : List.Forall₂ Node.SameShape t.root.preorder t'.root.preorder
  sexp : t.root.sexp = t'.root.sexp
  diagnostics : t.diagnostics.map Diagnostic.kind = t'.diagnostics.map Diagnostic.kind

namespace Node

variable {n n' : Node}

theorem bare_withSpan (δ : Nat) (n : Node) (span : Span) : (n.withSpan span).bare δ = n.bare δ := by
  cases n; rfl

theorem Alike.withSpan {δ : Nat} (h : n.Alike δ n') (span span' : Span) :
    (n.withSpan span).Alike δ (n'.withSpan span') := by
  unfold Alike
  rw [bare_withSpan, bare_withSpan, h]

theorem Alike.sameShape (h : n.Alike 0 n') : n.SameShape n' := by
  have htoken := congrArg (fun m => m.info.token) h
  have hflags := congrArg Node.flags h
  have hfield := congrArg Node.field h
  have harity := congrArg (fun m => m.children.length) h
  simp only [token_bare, flags_bare, field_bare, children_bare, List.length_map, Nat.add_zero,
    Option.map_id'] at htoken hflags hfield harity
  exact ⟨h.kind, hfield, h.firstToken.symm, htoken, hflags, harity⟩

theorem Alike.preorder (h : n.Alike 0 n') : List.Forall₂ SameShape n.preorder n'.preorder := by
  have hbare : n.preorder.map (bare 0) = n'.preorder.map (bare 0) := by
    rw [← preorder_bare, ← preorder_bare, h]
  have hsame : List.Forall₂ (fun a b => a = b) (n.preorder.map (bare 0))
      (n'.preorder.map (bare 0)) := by
    rw [hbare]
    exact List.forall₂_refl _
  rw [List.forall₂_map_left_iff, List.forall₂_map_right_iff] at hsame
  exact hsame.imp fun _ _ => Alike.sameShape

end Node

-- ---------------------------------------------------------------------------
-- Streams of the same kinds
-- ---------------------------------------------------------------------------

namespace TokenStream

/-- The kinds of all tokens, from the first to the last. -/
def kinds (t : TokenStream) : List TokenKind := t.toList.map Token.kind

variable {t t' : TokenStream}

theorem kindAt_eq_getD (t : TokenStream) (i : Nat) :
    t.kindAt i = ((t.tokens.toList.map Token.kind)[i]?).getD .endOfFile := by
  unfold kindAt
  rw [List.getElem?_map, Array.getElem?_toList]
  cases t.tokens[i]? with
  | some token => rfl
  | none => rfl

/-- All tokens but the last have the same kinds. -/
theorem map_kind_of_kinds (h : t.kinds = t'.kinds) :
    t.tokens.toList.map Token.kind = t'.tokens.toList.map Token.kind := by
  unfold kinds toList at h
  rw [List.map_append, List.map_append] at h
  exact (List.append_inj' h rfl).1

theorem size_of_kinds (h : t.kinds = t'.kinds) : t.tokens.size = t'.tokens.size := by
  have hlength := congrArg List.length (map_kind_of_kinds h)
  rwa [List.length_map, List.length_map, Array.length_toList, Array.length_toList] at hlength

theorem kindAt_of_kinds (h : t.kinds = t'.kinds) (i : Nat) : t.kindAt i = t'.kindAt i := by
  rw [kindAt_eq_getD, kindAt_eq_getD, map_kind_of_kinds h]

/-- The tokens of a row begin in their order. -/
theorem Ordered.start_le_iff (h : t.Ordered) {i j : Nat} (hi : i ≤ t.tokens.size)
    (hj : j ≤ t.tokens.size) : (t.get i).span.start ≤ (t.get j).span.start ↔ i ≤ j := by
  have hlt {i j : Nat} (hij : i < j) (hj : j ≤ t.tokens.size) :
      (t.get i).span.start < (t.get j).span.start :=
    Nat.lt_of_lt_of_le (h.start_lt_stop i (Nat.lt_of_lt_of_le hij hj)) (h.stop_le_start i j hij hj)
  constructor
  · intro hle
    refine Nat.le_of_not_lt fun hji => ?_
    exact absurd hle (Nat.not_le_of_lt (hlt hji hi))
  · intro hle
    rcases Nat.lt_or_eq_of_le hle with hij | rfl
    · exact Nat.le_of_lt (hlt hij hj)
    · exact Nat.le_refl _

theorem env_alike_of_kinds (h : t.kinds = t'.kinds) (source source' : List Char) (limit : Nat) :
    Env.Alike 0 (.whole true) { source, tokens := t, limit }
    { source := source', tokens := t', limit } :=
  ⟨rfl, rfl, fun i _ => (kindAt_of_kinds h i).symm, fun _ _ => (size_of_kinds h).symm, nofun, nofun⟩

theorem getElem?_toList {i : Nat} (h : i ≤ t.tokens.size) : t.toList[i]? = some (t.get i) := by
  unfold toList TokenStream.get
  rw [List.getElem?_append, Array.length_toList]
  split
  · rename_i hlt
    rw [Array.getElem?_toList, Array.getElem?_eq_getElem hlt]
    rfl
  · rename_i hlt
    obtain rfl : i = t.tokens.size := by omega
    rw [Nat.sub_self, Array.getElem?_eq_none (Nat.le_refl _)]
    rfl

/-- Tokens at the same place. -/
theorem forall₂_toList (h : t.kinds = t'.kinds) :
    List.Forall₂ (fun a b => a.kind = b.kind ∧ ∃ i ≤ t.tokens.size, a = t.get i ∧ b = t'.get i)
      t.toList t'.toList := by
  have hlength (t : TokenStream) : t.toList.length = t.tokens.size + 1 := by
    rw [toList, List.length_append, Array.length_toList]
    rfl
  have hget (t : TokenStream) (i : Nat) (hi : i < t.toList.length) :
      t.toList.get ⟨i, hi⟩ = t.get i := by
    have hle : i ≤ t.tokens.size := Nat.le_of_lt_succ (Nat.lt_of_lt_of_eq hi (hlength t))
    exact Option.some.inj ((List.getElem?_eq_getElem hi).symm.trans (getElem?_toList hle))
  refine List.forall₂_iff_get.2 ⟨?_, fun i hi hi' => ?_⟩
  · have hkinds := congrArg List.length h
    rwa [kinds, kinds, List.length_map, List.length_map] at hkinds
  · refine ⟨?_, i, Nat.le_of_lt_succ (Nat.lt_of_lt_of_eq hi (hlength t)), hget t i hi,
      hget t' i hi'⟩
    have hkinds : t.kinds[i]? = t'.kinds[i]? := by rw [h]
    rw [kinds, kinds, List.getElem?_map, List.getElem?_map, List.getElem?_eq_getElem hi,
      List.getElem?_eq_getElem hi'] at hkinds
    exact Option.some.inj hkinds

end TokenStream

-- ---------------------------------------------------------------------------
-- Diagnostics
-- ---------------------------------------------------------------------------

/-- The lexical errors stand at the same tokens. -/
theorem forall₂_lexical {text text' : List Char}
    (h : (TokenStream.ofText text).kinds = (TokenStream.ofText text').kinds) :
    List.Forall₂ (Diagnostic.Matches 0 (TokenStream.ofText text) (TokenStream.ofText text'))
      ((TokenStream.ofText text).errors.map Diagnostic.ofLexicalError)
      ((TokenStream.ofText text').errors.map Diagnostic.ofLexicalError) := by
  have htokens := TokenStream.forall₂_toList h
  have hinvalid := List.rel_filter (p := (·.kind == .invalid)) (q := (·.kind == .invalid))
    (fun a b hab =>
      iff_of_eq (congrArg (fun kind => (kind == TokenKind.invalid) = true) hab.1)) htokens
  rw [← TokenStream.token_errors_ofText, ← TokenStream.token_errors_ofText,
    List.forall₂_map_left_iff, List.forall₂_map_right_iff] at hinvalid
  rw [List.forall₂_map_left_iff, List.forall₂_map_right_iff]
  refine hinvalid.imp fun e e' hee' => ?_
  obtain ⟨-, i, hi, he, he'⟩ := hee'
  refine ⟨rfl, i, hi, ?_, ?_⟩
  · rw [← he]
    rfl
  · rw [Nat.add_zero, ← he']
    rfl

/-- Sorting keeps diagnostics in step that begin at the same tokens. -/
theorem map_kind_mergeSort {t t' : TokenStream} (ht : t.Ordered) (ht' : t'.Ordered)
    (hsize : t.tokens.size = t'.tokens.size) {ds ds' : List Diagnostic}
    (h : List.Forall₂ (Diagnostic.Matches 0 t t') ds ds') :
    (ds.mergeSort fun a b => a.span.start ≤ b.span.start).map Diagnostic.kind =
      (ds'.mergeSort fun a b => a.span.start ≤ b.span.start).map Diagnostic.kind := by
  have hpair : ∀ d ∈ ds.zip ds', Diagnostic.Matches 0 t t' d.1 d.2 :=
    fun d hd => List.forall₂_zip h hd
  have hfst : (ds.zip ds').map Prod.fst = ds := List.map_fst_zip (Nat.le_of_eq h.length_eq)
  have hsnd : (ds.zip ds').map Prod.snd = ds' := List.map_snd_zip (Nat.le_of_eq h.length_eq.symm)
  have hstart : ∀ a ∈ ds.zip ds', ∀ b ∈ ds.zip ds',
      decide (a.1.span.start ≤ b.1.span.start) = decide (a.2.span.start ≤ b.2.span.start) := by
    intro a ha b hb
    obtain ⟨-, i, hi, hstart, hstart'⟩ := hpair a ha
    obtain ⟨-, j, hj, hstop, hstop'⟩ := hpair b hb
    rw [decide_eq_decide, hstart, hstart', hstop, hstop', ht.start_le_iff hi hj,
      ht'.start_le_iff (hsize ▸ hi) (hsize ▸ hj)]
    rfl
  have hsort := List.map_mergeSort (r := fun a b => decide (a.1.span.start ≤ b.1.span.start))
    (s := fun a b => decide (a.span.start ≤ b.span.start)) (f := Prod.fst) (l := ds.zip ds')
    (fun _ _ _ _ => rfl)
  have hsort' := List.map_mergeSort (r := fun a b => decide (a.1.span.start ≤ b.1.span.start))
    (s := fun a b => decide (a.span.start ≤ b.span.start)) (f := Prod.snd) (l := ds.zip ds') hstart
  rw [hfst] at hsort
  rw [hsnd] at hsort'
  rw [← hsort, ← hsort', List.map_map, List.map_map]
  refine List.map_congr_left fun d hd => ?_
  exact (hpair d (List.mem_mergeSort.1 hd)).1

-- ---------------------------------------------------------------------------
-- The shape of the tree
-- ---------------------------------------------------------------------------

/-- Two runs of the grammar over tokens of the same kinds come to trees of the same shape. -/
theorem Tree.sameShape_ofTokens {t t' : TokenStream} (ht : t.Ordered) (ht' : t'.Ordered)
    (hkinds : t.kinds = t'.kinds)
    (hlexical : List.Forall₂ (Diagnostic.Matches 0 t t') (t.errors.map Diagnostic.ofLexicalError)
      (t'.errors.map Diagnostic.ofLexicalError))
    (source source' : List Char) (limit : Nat) :
    (Tree.ofTokens source t limit).SameShape (Tree.ofTokens source' t' limit) := by
  have henv := TokenStream.env_alike_of_kinds hkinds source source' limit
  have hs : State.Alike 0 (.whole true) t t'
      { diagnostics := (t.errors.map Diagnostic.ofLexicalError).reverse }
      { diagnostics := (t'.errors.map Diagnostic.ofLexicalError).reverse } :=
    ⟨rfl, Nat.zero_le _, rfl, rfl, rfl, rfl, fun _ => List.rel_reverse hlexical⟩
  have hpassage : Production.Makes 0 false {} Production.sourceFile := Production.Passage.sourceFile
  have hsuits : Sight.Suits false (.whole true) := trivial
  have hfollows :=
    hpassage.follows hsuits (fun _ _ h => nomatch h) henv hs trivial (Spot.holds_plain nofun)
  have hrun := Production.NeverFails.sourceFile.run_eq { source, tokens := t, limit }
    ({ diagnostics := (t.errors.map Diagnostic.ofLexicalError).reverse } : State)
  have hrun' := Production.NeverFails.sourceFile.run_eq { source := source', tokens := t', limit }
    ({ diagnostics := (t'.errors.map Diagnostic.ofLexicalError).reverse } : State)
  rw [hrun] at hfollows
  obtain ⟨root', s₁', hresult, hroot, hs₁⟩ := hfollows ⟨trivial, trivial⟩
  rw [hrun'] at hresult
  cases hresult
  have hwhole := hroot.withSpan ⟨0, Text.byteLength source⟩ ⟨0, Text.byteLength source'⟩
  refine ⟨hwhole.preorder, hwhole.sexp, ?_⟩
  exact map_kind_mergeSort ht ht' (TokenStream.size_of_kinds hkinds)
    (List.rel_reverse (hs₁.diagnostics rfl))

/-- Texts whose tokens are of the same kinds, under limits of the same depth, have trees of the same
shape. -/
theorem sameShape_of_kinds (text text' : List Char) (limits limits' : Limits)
    (hkinds : (TokenStream.ofText text).kinds = (TokenStream.ofText text').kinds)
    (hlimits : limits.maxNestingDepth = limits'.maxNestingDepth) :
    (Tree.ofTokens text (TokenStream.ofText text) limits.maxNestingDepth).SameShape
      (Tree.ofTokens text' (TokenStream.ofText text') limits'.maxNestingDepth) := by
  rw [← hlimits]
  exact Tree.sameShape_ofTokens (TokenStream.ordered_ofText text) (TokenStream.ordered_ofText text')
    hkinds (forall₂_lexical hkinds) text text' limits.maxNestingDepth

/-- Other names, other literals, another layout, and the same mistakes: an unclosed block, a
character that begins no token, and a line that is no member. -/
def sloppyModules : List Char × List Char :=
  ("Module M\nConst a = 1 ?\n)\nSub S\nx = \"a\"".toList,
    "MODULE Alpha 'first\n  const  beta=23 ~\n  )\n  SUB _\n run\n y  =  \"\"".toList)

theorem sameShape_sloppyModules :
    (Tree.ofTokens sloppyModules.1 (TokenStream.ofText sloppyModules.1) 64).SameShape
      (Tree.ofTokens sloppyModules.2 (TokenStream.ofText sloppyModules.2) 64) := by
  have hkinds : (TokenStream.ofText sloppyModules.1).kinds =
      (TokenStream.ofText sloppyModules.2).kinds := by
    decide +kernel
  exact sameShape_of_kinds sloppyModules.1 sloppyModules.2 { maxNestingDepth := 64 }
    { maxNestingDepth := 64 } hkinds rfl

end VisualBasic
