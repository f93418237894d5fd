import VisualBasic.Proofs.JoinedFiles
import VisualBasic.Proofs.LineScan

/-!
# Files one behind the other

A file without errors that ends with a line, and another file behind it. The items of the first are
those of the first alone, and the items of the second are those of the second alone: no look at the
lines ahead, and no closing line, comes from the other file.

Main results:

* `Apart` — an item does not depend on the items in front of it.
* `TokenStream.endsLine_of_back` — a text whose last token is a line break ends with a line feed.
* `Tree.items_append` — the items of both files are those of the one and then those of the other.
-/

namespace VisualBasic

namespace Production

open State

variable {α β : Type}

-- ---------------------------------------------------------------------------
-- Items by themselves
-- ---------------------------------------------------------------------------

/-- Another state in the place of that in which a run ends. -/
def onState (f : State → State) : EStateM.Result Failure State α → EStateM.Result Failure State α
  | .ok a s => .ok a (f s)
  | .error e s => .error e (f s)

/-- What the production does does not depend on the node under construction, and leaves it as it
is. -/
def Apart (p : Parse α) : Prop :=
  ∀ env s children isPartial, p env { s with children, isPartial } =
    onState (fun s => { s with children, isPartial }) (p env s)

namespace Apart

theorem pure (a : α) : Apart (Pure.pure a : Parse α) := fun _ _ _ _ => rfl

theorem fail (e : Expected) : Apart (Production.fail e : Parse α) := fun _ _ _ _ => rfl

theorem tooDeep : Apart (Production.tooDeep : Parse α) := fun _ _ _ _ => rfl

theorem skip : Apart Production.skip := fun _ _ _ _ => rfl

theorem leaf (kind : NodeKind) : Apart (Production.leaf kind) := fun _ _ _ _ => rfl

theorem look {p : Parse α} {seen : Env → State → α} {k : α → Parse β} (hp : Looks p seen)
    (hseen : ∀ env s children isPartial, seen env { s with children, isPartial } = seen env s)
    (hk : ∀ a, Apart (k a)) : Apart (p >>= k) := by
  intro env s children isPartial
  rw [hp.run_bind, hp.run_bind, hseen]
  exact hk _ env s children isPartial

theorem bind {p : Parse α} {k : α → Parse β} (hp : Apart p) (hk : ∀ a, Apart (k a)) :
    Apart (p >>= k) := by
  intro env s children isPartial
  rw [run_bind, run_bind, hp env s children isPartial]
  cases p env s with
  | error f s₁ => rfl
  | ok a s₁ => exact hk a env s₁ children isPartial

theorem checkDepth : Apart Production.checkDepth := by
  intro env s children isPartial
  unfold Production.checkDepth
  split <;> rfl

theorem construct (r : Rule) (first : Nat) (body : Parse Unit) :
    Apart (Production.construct r first body) := by
  intro env s children isPartial
  rw [Parse.construct_eq, Parse.construct_eq]
  dsimp only
  cases body env { s with children := [], isPartial := false } <;> rfl

theorem node (r : Rule) (body : Parse Unit) : Apart (Production.node r body) :=
  fun env s => construct r s.cursor body env s

theorem wrap (r : Rule) (n : Node) : Apart (Production.wrap r n) :=
  construct r n.info.firstToken (attach n)

theorem nested {p : Parse α} (hp : Apart p) : Apart p.nested :=
  fun env => hp { env with depth := env.depth + 1 }

theorem orRecover {p : Parse Node} (hp : Apart p) : Apart p.orRecover := by
  intro env s children isPartial
  rw [Parse.orRecover_eq, Parse.orRecover_eq, hp env s children isPartial]
  cases p env s <;> rfl

theorem endStatement : Apart Production.endStatement := by
  refine look Looks.peek (fun _ _ _ _ => rfl) fun kind => ?_
  split
  · exact skip
  · refine look (Looks.test _) (fun _ _ _ _ => rfl) fun ends => ?_
    split
    · exact pure ()
    · exact fail _

theorem typeDefinition (typeDeclaration : Parse Node) :
    Apart (Production.typeDefinition typeDeclaration) := by
  refine look Looks.peekBehindPrefix (fun _ _ _ _ => rfl) fun kind => ?_
  split
  case h_7 => exact fail _
  all_goals exact node _ _

theorem typeDeclarationUpTo (room : Nat) : Apart (Production.typeDeclarationUpTo room) := by
  cases room with
  | zero => exact tooDeep
  | succ room => exact bind checkDepth fun _ => bind (typeDefinition _) fun n => wrap _ n

theorem fileAttribute : Apart Production.fileAttribute := by
  have hblock : Apart attributeBlock := bind checkDepth fun _ => node _ _
  exact bind (nested hblock) fun n => bind endStatement fun _ => pure n

theorem namespaceBlockUpTo (room : Nat) : Apart (Production.namespaceBlockUpTo room) := by
  cases room with
  | zero => exact tooDeep
  | succ room => exact bind checkDepth fun _ => node _ _

theorem fileItem : Apart Production.fileItem := by
  intro env
  refine look Looks.peek (fun _ _ _ _ => rfl) (fun kind => ?_) env
  split
  · exact leaf _
  · exact leaf _
  · exact orRecover (node _ _)
  · exact orRecover (node _ _)
  · exact orRecover (namespaceBlockUpTo _)
  · refine look (Looks.test _) (fun _ _ _ _ => rfl) fun isAttribute => ?_
    split
    · exact orRecover fileAttribute
    · exact orRecover fun env => typeDeclarationUpTo env.room env

end Apart

-- ---------------------------------------------------------------------------
-- Loops over items
-- ---------------------------------------------------------------------------

section

variable {env env' : Env} {s s' s₁ sf : State}

/-- A round reads an item, or the text has ended. -/
theorem sourceFileItem_eq_ok {more : Bool} (hrun : sourceFileItem env s = .ok more s₁) :
    more = false ∧ env.kind s = .endOfFile ∧ s₁ = s ∨
      more = true ∧ env.kind s ≠ .endOfFile ∧ ∃ n s₂, fileItem env s = .ok n s₂ ∧
        s₁ = { s₂ with children := n :: s₂.children } := by
  unfold sourceFileItem atKind at hrun
  rw [(Looks.test _).run_bind] at hrun
  by_cases hend : env.kind s = .endOfFile
  · rw [if_pos (beq_iff_eq.2 hend)] at hrun
    cases hrun
    exact .inl ⟨rfl, hend, rfl⟩
  · rw [if_neg (mt beq_iff_eq.1 hend)] at hrun
    obtain ⟨_, s₃, hchild, hret⟩ := bind_eq_ok hrun
    cases hret
    obtain ⟨n, s₂, hitem, hattach⟩ := bind_eq_ok hchild
    cases hattach
    exact .inr ⟨rfl, hend, n, s₂, hitem, rfl⟩

theorem sourceFileItem_of_item {n : Node} {s₂ : State} (hend : env.kind s ≠ .endOfFile)
    (hitem : fileItem env s = .ok n s₂) :
    sourceFileItem env s = .ok true { s₂ with children := n :: s₂.children } := by
  unfold sourceFileItem atKind
  rw [(Looks.test _).run_bind, if_neg (mt beq_iff_eq.1 hend), run_bind, child, run_bind, hitem]
  rfl

theorem sourceFileItem_of_end (hend : env.kind s = .endOfFile) :
    sourceFileItem env s = .ok false s :=
  consumes_sourceFileItem.stops env s hend

/-- Items behind others are the items that they would be without these. -/
theorem LoopRun.behind (hrun : LoopRun sourceFileItem env s (.ok () sf)) (children : List Node)
    (isPartial : Bool) :
    LoopRun sourceFileItem env { s with children := s.children ++ children, isPartial }
      (.ok () { sf with children := sf.children ++ children, isPartial }) := by
  generalize hresult : (EStateM.Result.ok () sf : EStateM.Result Failure State Unit) =
    result at hrun
  induction hrun with
  | @stop s s₁ hround =>
    cases hresult
    rcases sourceFileItem_eq_ok hround with ⟨-, hend, rfl⟩ | ⟨⟨⟩, -⟩
    exact .stop (sourceFileItem_of_end hend)
  | fails => cases hresult
  | @again s s₁ _ hround _ ih =>
    rcases sourceFileItem_eq_ok hround with ⟨⟨⟩, -⟩ | ⟨-, hend, n, s₂, hitem, rfl⟩
    have hsame := Apart.fileItem env s s.children s.isPartial
    have hmoved := Apart.fileItem env s (s.children ++ children) isPartial
    rw [hitem] at hsame hmoved
    have hchildren := congrArg State.children (EStateM.Result.ok.inj hsame).2
    change s₂.children = s.children at hchildren
    have hround' := sourceFileItem_of_item
      (s := { s with children := s.children ++ children, isPartial }) hend hmoved
    have hrest := ih hresult
    dsimp only at hrest
    rw [hchildren] at hrest
    exact .again hround' hrest

/-- A round over an item of the first stream. -/
theorem follows_sourceFileItem (h : env.Joined env')
    (hs : s.Alike 0 env.toEnd env.tokens env'.tokens s')
    (hsingle : s.singleLineIfs = 0) (hend : env.kind s ≠ .endOfFile)
    (hoption : ∀ n s₁, fileItem env s = .ok n s₁ → n.kind = .rule .optionStatements →
      s₁.cursor = env.tokens.tokens.size → env'.tokens.kindAt env.tokens.tokens.size ≠
        .keyword .kwOption) :
    Follows 0 env.toEnd Eq env.tokens env'.tokens s (sourceFileItem env s)
    (sourceFileItem env' s') := by
  have hlt : s.cursor < env.tokens.tokens.size := TokenStream.lt_size_of_kindAt_ne hend
  have hend' : env'.kind s' ≠ .endOfFile := by
    rw [Env.kind, hs.cursor, Nat.add_zero, h.kindAt _ hlt]
    exact hend
  have hroom : env'.room = env.room := by
    rw [Env.room, Env.room, h.depth, h.limit]
  have hitem : Makes 0 false (.plain false) fileItem := Passage.fileItem
  have hfollows : Follows 0 env.toEnd (Node.Alike 0) env.tokens env'.tokens s (fileItem env s)
      (fileItem env' s') := by
    change Follows _ _ _ _ _ _ _ (fileItemOf (namespaceBlockUpTo env'.room) env' s')
    rw [hroom]
    exact follows_fileItemOf h hs hsingle hlt (follows_namespaceBlockUpTo env.room h hs
      hsingle) hoption
  unfold sourceFileItem atKind
  rw [(Looks.test _).run_bind, (Looks.test _).run_bind, if_neg (mt beq_iff_eq.1 hend),
    if_neg (mt beq_iff_eq.1 hend')]
  exact .bind hs.le_size (hitem.climbs.bind Climbs.attach) (fun _ => .pure true)
    (.child hs hitem.climbs hfollows) fun _ _ _ _ _ _ _ hs₁ => .pure rfl hs₁

/-- The rounds over the items of the first stream are followed by rounds over the same items of the
one that goes on, up to where the first one ends. -/
theorem LoopRun.joins (hrun : LoopRun sourceFileItem env s (.ok () sf)) (h : env.Joined env')
    (hs : s.Alike 0 env.toEnd env.tokens env'.tokens s') (hsingle : s.singleLineIfs = 0)
    (hquiet : sf.diagnostics.length ≤ s.diagnostics.length)
    (hoption : ∀ n rest, sf.children = n :: rest → n.kind = .rule .optionStatements →
      env'.tokens.kindAt env.tokens.tokens.size ≠ .keyword .kwOption) :
    ∃ sf', sf.Alike 0 env.toEnd env.tokens env'.tokens sf' ∧ sf.cursor = env.tokens.tokens.size ∧
      ∀ result, LoopRun sourceFileItem env' sf' result → LoopRun sourceFileItem env' s' result := by
  have hitem : Makes 0 false (.plain false) fileItem := Passage.fileItem
  have hround : Runs 0 false {} false sourceFileItem := .ifAt .result (.round (.child hitem))
  have hlater := hrun.later hround.climbs hs.le_size
  have hkeep (s s₁ : State) (hgs : s.singleLineIfs = 0)
      (hrun : sourceFileItem env s = .ok true s₁) :
      s₁.singleLineIfs = 0 := by
    have hsettled := hround.tidy env s
    rw [hrun] at hsettled
    exact hsettled.singleLineIfs.trans hgs
  have hitems (s s' s₁ : State) (hgs : s.singleLineIfs = 0)
      (hs : s.Alike 0 env.toEnd env.tokens env'.tokens s')
      (hround : sourceFileItem env s = .ok true s₁)
      (rest : LoopRun sourceFileItem env s₁ (.ok () sf))
      (_ : sf.diagnostics.length ≤ s.diagnostics.length) :
      Follows 0 env.toEnd Eq env.tokens env'.tokens s (sourceFileItem env s)
      (sourceFileItem env' s') := by
    rcases sourceFileItem_eq_ok hround with ⟨⟨⟩, -⟩ | ⟨-, hend, n, s₂, hread, rfl⟩
    refine follows_sourceFileItem h hs hgs hend fun n' s₃ hread' hkind hcursor => ?_
    rw [hread] at hread'
    cases hread'
    -- This item ends with the first stream, so it is the last one.
    have hlast : EStateM.Result.ok () sf = .ok () { s₂ with children := n :: s₂.children } :=
      rest.unique (.stop
        (sourceFileItem_of_end (TokenStream.kindAt_of_size_le (Nat.le_of_eq hcursor.symm))))
    cases hlast
    exact hoption n s₂.children rfl hkind
  obtain ⟨s₀, s₀', -, hlast, hs₀, -, hrest⟩ :=
    hrun.follows (fun s => s.singleLineIfs = 0) hround.climbs hs
    hsingle hlater.le_size hquiet hkeep hitems
  rcases sourceFileItem_eq_ok hlast with ⟨-, hend, rfl⟩ | ⟨⟨⟩, -⟩
  refine ⟨s₀', hs₀, ?_, hrest⟩
  refine Nat.le_antisymm hs₀.le_size (Nat.le_of_not_lt fun hlt => ?_)
  exact h.lasting _ hlt hend

end

end Production

-- ---------------------------------------------------------------------------
-- Texts that end with a line break
-- ---------------------------------------------------------------------------

open Text

/-- A line break ends with a line feed. -/
theorem Text.take_lineBreak {text : List Char} (h : lineBreak text ≠ 0) :
    ∃ front, text.take (lineBreak text) = front ++ ['\n'] := by
  fun_cases lineBreak text with
  | case1 => exact ⟨[], rfl⟩
  | case2 => exact ⟨['\r'], rfl⟩
  | case3 _ hfeed hreturn => exact absurd (lineBreak.eq_3 _ hfeed hreturn) h

namespace Scanner

variable {s s' stop : Scanner} {p : Piece} {ps : List Piece} {token : Token}

/-- A token that is a line break ends with a line feed. -/
theorem take_of_newline (h : s.step? = some (p, s')) (htoken : p.token? = some token)
    (hkind : token.kind = .newline) : ∃ n front, s' = s.advance n ∧
    s.rest.take n = front ++ ['\n'] := by
  unfold step? at h
  split at h
  · cases h
  · rename_i c rest hrest
    split at h
    · cases h
      cases htoken
    · obtain ⟨rfl, rfl⟩ := Prod.mk.inj (Option.some.inj h)
      have hnewline : (Lexeme.ofText (c :: rest)).kind = .newline := by
        split at htoken
        · cases htoken
          cases hkind
        · cases htoken
          exact hkind
      rcases Lexeme.isInLine_ofText c rest with hline | ⟨hbreak, hlexeme⟩
      · rw [hnewline] at hline
        cases hline
      · obtain ⟨front, htake⟩ := Text.take_lineBreak hbreak
        refine ⟨_, front, rfl, ?_⟩
        rw [hlexeme, hrest]
        exact htake

/-- If the last token of a scan is a line break, a line feed ends the text. -/
theorem Scans.exists_lineFeed (h : s.Scans ps stop) (hmem : token ∈ ps.filterMap Piece.token?)
    (hkind : token.kind = .newline) (hstop : token.span.stop = stop.position.offset) :
    ∃ front, s.rest = front ++ ['\n'] := by
  induction h with
  | done => cases hmem
  | @step s s' stop p ps hstep rest ih =>
    obtain ⟨piece, hpiece, htoken⟩ := List.mem_filterMap.1 hmem
    rcases List.mem_cons.1 hpiece with rfl | hpiece
    · obtain ⟨n, front, rfl, htake⟩ := take_of_newline hstep htoken hkind
      -- Behind a token that ends with the text there is none of it left.
      have hspan := (cut_of_step hstep).span token htoken
      have hrest : (s.advance n).rest = [] := by
        refine Classical.byContradiction fun hne => ?_
        have hpos := byteLength_pos hne
        have hlength := rest.offset_stop
        rw [← hstop, hspan] at hlength
        dsimp only at hlength
        omega
      refine ⟨front, ?_⟩
      rw [← List.take_append_drop n s.rest, htake]
      exact (congrArg _ hrest).trans (List.append_nil _)
    · obtain ⟨n, -, -, rfl, -⟩ := step_eq_some hstep
      obtain ⟨front, hrest⟩ := ih (List.mem_filterMap.2 ⟨piece, hpiece, htoken⟩) hstop
      refine ⟨s.rest.take n ++ front, ?_⟩
      rw [List.append_assoc, ← hrest]
      exact (List.take_append_drop n s.rest).symm

end Scanner

namespace TokenStream

/-- A text whose last token is a line break that ends with it ends with a line feed. -/
theorem endsLine_of_back {text : List Char} {token : Token}
    (hlast : (ofText text).tokens.back? = some token)
    (hkind : token.kind = .newline) (hstop : token.span.stop = byteLength text) :
    EndsLine text := by
  obtain ⟨ps, stop, hscans, htokens, -⟩ := ofText_eq text
  have hmem : token ∈ ps.filterMap Piece.token? := by
    rw [← List.mem_toArray, ← htokens]
    exact Array.mem_of_back? hlast
  have hlength := hscans.offset_stop
  obtain ⟨front, hfront⟩ := hscans.exists_lineFeed hmem hkind (by
    rw [hstop, hlength]
    exact (Nat.zero_add _).symm)
  have htext : text = front ++ ['\n'] := hfront
  rw [htext]
  exact .lineFeed front

-- ---------------------------------------------------------------------------
-- Streams one behind the other
-- ---------------------------------------------------------------------------

variable {t t' : TokenStream}

@[simp]
theorem size_append (t t' : TokenStream) :
    (t.append t').tokens.size = t.tokens.size + t'.tokens.size :=
  Array.size_append

@[simp]
theorem size_shift (bytes lines : Nat) (t : TokenStream) :
    (t.shift bytes lines).tokens.size = t.tokens.size :=
  Array.size_map

@[simp]
theorem kindAt_shift (bytes lines : Nat) (t : TokenStream) (i : Nat) :
    (t.shift bytes lines).kindAt i = t.kindAt i := by
  unfold kindAt shift
  rw [Array.getElem?_map]
  cases t.tokens[i]? <;> rfl

theorem kindAt_append_of_lt {i : Nat} (h : i < t.tokens.size) :
    (t.append t').kindAt i = t.kindAt i := by
  unfold kindAt append
  rw [Array.getElem?_append_left h]

theorem kindAt_append_add (i : Nat) : (t.append t').kindAt (i + t.tokens.size) = t'.kindAt i := by
  unfold kindAt append
  rw [Array.getElem?_append_right (Nat.le_add_left _ _), Nat.add_sub_cancel]

end TokenStream

-- ---------------------------------------------------------------------------
-- Files
-- ---------------------------------------------------------------------------

namespace Production

open State

variable {δ : Nat} {spot : Spot} {env env' : Env} {s s' sf : State}

/-- The loop over the items of a file. -/
theorem Passage.sourceFileItems : Runs δ false spot false (Production.repeatWhile sourceFileItem) :=
  .repeatWhile (.ifAt .result (.round (.child .fileItem))) consumes_sourceFileItem.progresses

/-- Behind the items of a file no more blocks are open than in front of them. -/
theorem LoopRun.settled (hrun : LoopRun sourceFileItem env s (.ok () sf))
    (hs : s.cursor ≤ env.tokens.tokens.size) : Settled false s sf := by
  have hitems : Runs 0 false {} false (repeatWhile sourceFileItem) := Passage.sourceFileItems
  have hsettled := hitems.tidy env s
  rw [(consumes_sourceFileItem.loopRun_iff hs).1 hrun] at hsettled
  exact hsettled

/-- Items that stand behind other tokens are the same items. -/
theorem LoopRun.shifted (hrun : LoopRun sourceFileItem env s (.ok () sf))
    (henv : env.Alike δ (.whole false) env')
    (hs : s.Alike δ (.whole false) env.tokens env'.tokens s') :
    ∃ sf', LoopRun sourceFileItem env' s' (.ok () sf') ∧
      sf.Alike δ (.whole false) env.tokens env'.tokens sf' := by
  have hitems : Runs δ false {} false (repeatWhile sourceFileItem) := Passage.sourceFileItems
  have hfollows :=
    hitems.follows (m := .whole false) trivial nofun henv hs trivial (Spot.holds_plain nofun)
  rw [(consumes_sourceFileItem.loopRun_iff hs.le_size).1 hrun] at hfollows
  obtain ⟨_, sf', hrun', -, hsf⟩ := hfollows ⟨trivial, trivial⟩
  refine ⟨sf', (consumes_sourceFileItem.loopRun_iff ?_).2 hrun', hsf⟩
  rw [hs.cursor, henv.size false rfl]
  exact Nat.add_le_add_right hs.le_size δ

end Production

section

variable {front : List Char}

/-- A text that ends with a line, and the same text with another one behind it. -/
theorem Env.Joined.ofText_append (hline : EndsLine front)
    (hsize : 0 < (TokenStream.ofText front).tokens.size)
    (hnewline : (TokenStream.ofText front).kindAt ((TokenStream.ofText front).tokens.size - 1) =
      .newline)
    (back : List Char) (limit : Nat) :
    Env.Joined { source := front, tokens := .ofText front, limit }
      { source := front ++ back, tokens := .ofText (front ++ back), limit } := by
  have happend := TokenStream.ofText_append hline back
  refine ⟨rfl, rfl, fun i hi => ?_, hsize, ?_, hnewline, (TokenStream.ordered_ofText _).kindAt_ne,
    (TokenStream.ordered_ofText _).kindAt_ne⟩
  · rw [happend]
    exact TokenStream.kindAt_append_of_lt hi
  · rw [happend, TokenStream.size_append]
    exact Nat.le_add_right _ _

/-- A text by itself, and the same text behind one that ends with a line. -/
theorem Env.Alike.ofText_append (hline : EndsLine front) (back : List Char) (limit : Nat) :
    Env.Alike (TokenStream.ofText front).tokens.size (.whole false)
      { source := back, tokens := .ofText back, limit }
      { source := front ++ back, tokens := .ofText (front ++ back), limit } := by
  have happend := TokenStream.ofText_append hline back
  refine ⟨rfl, rfl, fun i _ => ?_, fun _ _ => ?_, nofun, nofun⟩
  · rw [happend, TokenStream.kindAt_append_add, TokenStream.kindAt_shift]
  · rw [happend, TokenStream.size_append, TokenStream.size_shift, Nat.add_comm]

end

namespace Tree

open Production

/-- The children of the root are what rounds over the items of the file leave behind. -/
theorem exists_loopRun (source : List Char) (tokens : TokenStream) (limit : Nat) :
    ∃ sf, LoopRun sourceFileItem { source, tokens, limit }
        { diagnostics := (tokens.errors.map Diagnostic.ofLexicalError).reverse } (.ok () sf) ∧
      (ofTokens source tokens limit).root.children = sf.children.reverse ∧
      (ofTokens source tokens limit).diagnostics =
        sf.diagnostics.reverse.mergeSort fun a b => a.span.start ≤ b.span.start := by
  obtain ⟨sf, hitems, hroot, hstate⟩ := construct_eq_finish (NeverFails.sourceFile.run_eq
    { source, tokens, limit }
    { diagnostics := (tokens.errors.map Diagnostic.ofLexicalError).reverse })
  refine ⟨sf, (consumes_sourceFileItem.loopRun_iff (Nat.zero_le _)).2 hitems, ?_, ?_⟩
  · show (Node.withSpan _ (NeverFails.sourceFile.result _ _).1).children = _
    rw [hroot]
    rfl
  · show (NeverFails.sourceFile.result _ _).2.diagnostics.reverse.mergeSort _ = _
    rw [hstate]

/-- Where nothing is wrong, no diagnostics are left behind. -/
theorem eq_nil_of_hasError {t : Tree} {ds : List Diagnostic} (hquiet : t.hasError = false)
    (hds : t.diagnostics = ds.reverse.mergeSort fun a b => a.span.start ≤ b.span.start) :
    ds = [] := by
  have hempty : t.diagnostics = [] := by
    have hnone := (Bool.or_eq_false_iff.1 hquiet).2
    rwa [Bool.not_eq_false', List.isEmpty_iff] at hnone
  have hlength := congrArg List.length (hds.symm.trans hempty)
  rw [List.length_mergeSort, List.length_reverse] at hlength
  exact List.length_eq_zero_iff.1 hlength

/-- Of a text without errors that ends with a line, and any text behind it, the items are those of
the one and then those of the other, whatever the limit of nesting. Only an `Option` line at the
beginning of the other goes with the `Option` lines at the end of the one. -/
theorem items_append (limit : Nat) {front back : List Char} {token : Token}
    (hquiet : (ofTokens front (.ofText front) limit).hasError = false)
    (hlast : (TokenStream.ofText front).tokens.back? = some token) (hkind : token.kind = .newline)
    (hstop : token.span.stop = byteLength front)
    (hoption : (ofTokens front (.ofText front) limit).root.children.getLast?.map Node.kind =
      some (.rule .optionStatements) → (TokenStream.ofText back).kindAt 0 ≠ .keyword .kwOption) :
    let items source := (ofTokens source (.ofText source) limit).root.children.map Node.sexp
    items (front ++ back) = items front ++ items back := by
  dsimp only
  have hline := TokenStream.endsLine_of_back hlast hkind hstop
  have hnewline : (TokenStream.ofText front).kindAt ((TokenStream.ofText front).tokens.size - 1) =
      .newline := by
    rw [Array.back?_eq_getElem?] at hlast
    simp only [TokenStream.kindAt, hlast, hkind]
  have hjoined :=
    Env.Joined.ofText_append hline (Array.size_pos_of_mem (Array.mem_of_back? hlast))
      hnewline back limit
  obtain ⟨sf, hfront, hitemsFront, hdiagnostics⟩ := exists_loopRun front (.ofText front) limit
  obtain ⟨sb, hback, hitemsBack, -⟩ := exists_loopRun back (.ofText back) limit
  obtain ⟨sw, hwhole, hitemsWhole, -⟩ :=
    exists_loopRun (front ++ back) (.ofText (front ++ back)) limit
  -- The items of the first text are read again.
  have hempty := eq_nil_of_hasError hquiet hdiagnostics
  have hahead := (Env.Alike.ofText_append hline back limit).kindAt 0 trivial
  rw [Nat.zero_add] at hahead
  have hstart : State.Alike 0 (Env.toEnd { source := front, tokens := .ofText front, limit })
      (.ofText front)
      (.ofText (front ++ back))
      { diagnostics := ((TokenStream.ofText front).errors.map Diagnostic.ofLexicalError).reverse }
      { diagnostics := ((TokenStream.ofText (front ++ back)).errors.map
        Diagnostic.ofLexicalError).reverse } :=
    ⟨rfl, Nat.zero_le _, rfl, rfl, rfl, rfl, fun hwhole => absurd hwhole (by simp)⟩
  obtain ⟨sf', hsf, hcursor, hrest⟩ :=
    hfront.joins hjoined hstart rfl (by rw [hempty]; exact Nat.zero_le _)
    fun n rest hn hoptions => by
      rw [hahead]
      refine hoption ?_
      rw [hitemsFront, hn, List.getLast?_reverse, List.head?_cons, Option.map_some, hoptions]
  -- Those of the second are read behind them, where no block is open.
  have hsettled := hfront.settled (Nat.zero_le _)
  have hbehind : State.Alike (TokenStream.ofText front).tokens.size (.whole false) (.ofText back)
      (.ofText (front ++ back))
      { diagnostics := ((TokenStream.ofText back).errors.map Diagnostic.ofLexicalError).reverse }
      { sf' with children := [], isPartial := false } :=
    ⟨hsf.cursor.trans (hcursor.trans (Nat.zero_add _).symm), Nat.zero_le _, rfl, rfl,
      hsf.openers.trans (congrArg _ hsettled.blocks), hsf.singleLineIfs.trans
        hsettled.singleLineIfs,
      fun hwhole => absurd hwhole (by simp)⟩
  obtain ⟨sb', hback', hsb⟩ := hback.shifted (Env.Alike.ofText_append hline back limit) hbehind
  have hresult := (hrest _ (hback'.behind sf'.children sf'.isPartial)).unique hwhole
  have hchildren : sb'.children ++ sf'.children = sw.children :=
    congrArg State.children (EStateM.Result.ok.inj hresult).2
  rw [hitemsFront, hitemsBack, hitemsWhole, ← hchildren, List.map_reverse,
    List.map_append, hsf.sexps,
    hsb.sexps, List.reverse_append, List.map_reverse, List.map_reverse]

/-- An import and a class, and behind them lines that close nothing. -/
theorem items_append_strayLines :
    let front := "Imports A\nClass C\nEnd Class\n".toList
    let back := "End Class\nSub S\n".toList
    (ofTokens front (.ofText front) 64).hasError = false ∧
      (ofTokens (front ++ back) (.ofText (front ++ back)) 64).root.children.map Node.sexp =
        (ofTokens front (.ofText front) 64).root.children.map Node.sexp ++
          (ofTokens back (.ofText back) 64).root.children.map Node.sexp := by
  have hquiet : (ofTokens "Imports A\nClass C\nEnd Class\n".toList
    (.ofText "Imports A\nClass C\nEnd Class\n".toList) 64).hasError = false := by decide +kernel
  have hlast : (TokenStream.ofText "Imports A\nClass C\nEnd Class\n".toList).tokens.back? =
    some ⟨.newline, ⟨27, 28⟩, ⟨3, 10⟩⟩ := by decide +kernel
  exact ⟨hquiet, items_append 64 hquiet hlast rfl (by decide +kernel) (by decide +kernel)⟩

end Tree

end VisualBasic
