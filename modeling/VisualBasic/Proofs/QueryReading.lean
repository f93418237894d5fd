import VisualBasic.Proofs.QueryGrammar
import VisualBasic.Proofs.Tiling

/-!
# Queries are read by their grammar

The readers of a query against its grammar. What a reader gives stands in the text as the grammar
says, and where it gives nothing, the offset of its error is that of a place in the text
(`Reader.Gives`). In turn, what stands in the text as the grammar says is given, with its captures
numbered by all the names in front of it: the readers skip blanks behind a pattern to see whether a
capture follows, and none does if that is where the grammar goes on with something else.

Main results:

* `Reader.gives_pattern_children`, `Reader.gives_patterns` — what is read is in the grammar.
* `read_pattern_children`, `ArePatterns.read` — what is in the grammar is read.
* `ofText_decided` — a text is accepted exactly if it is in the grammar, as the query that it
  denotes.
-/

namespace VisualBasic

/-- The offset at which an error of a query is found in the text of the query. -/
def QueryError.offset? : QueryError → Option Nat
  | malformed offset _ | unknownRule offset _ | unknownField offset _ => some offset
  | unknownCapture _ => none

/-- The error is found at a place of the text. -/
def QueryError.In (e : QueryError) (text : List Char) : Prop :=
  ∃ offset, e.offset? = some offset ∧ Text.IsBoundary text offset

namespace Query

/-- The place is one of the text. -/
structure Place.In (p : Place) (whole : List Char) : Prop where
  size : p.size = Text.byteLength whole
  suffix : p.rest <:+ whole

theorem Place.In.isBoundary {p : Place} {whole : List Char} (h : p.In whole) :
    Text.IsBoundary whole p.offset := by
  obtain ⟨hsize, front, hfront⟩ := h
  refine ⟨front, p.rest, hfront.symm, ?_⟩
  rw [offset, hsize, ← hfront, Text.byteLength_append]
  omega

namespace Reader

-- ---------------------------------------------------------------------------
-- What readers give
-- ---------------------------------------------------------------------------

section

variable {α β : Type} {whole text : List Char}

/-- From a place of the whole text with this text behind it, the reader gives what `given` says,
with that text behind it, or an error that is found in the text. -/
def Gives (whole text : List Char) (given : α → List Char → Prop) (r : Reader α) : Prop :=
  ∀ p : Place, p.In whole → p.rest = text → match r p with
    | .ok (a, p') => p'.In whole ∧ given a p'.rest
    | .error e => e.In whole

variable {given given' : α → List Char → Prop}

theorem Gives.bind {final : β → List Char → Prop} {r : Reader α} {f : α → Reader β}
    (hr : r.Gives whole text given)
    (hf : ∀ a middle, given a middle → (f a).Gives whole middle final) :
    (r >>= f).Gives whole text final := by
  intro p hp htext
  have hfirst := hr p hp htext
  show match (r p >>= fun result => f result.1 result.2) with
    | .ok (b, p') => p'.In whole ∧ final b p'.rest
    | .error e => e.In whole
  cases hrun : r p with
  | error e =>
    rw [hrun] at hfirst
    exact hfirst
  | ok result =>
    rw [hrun] at hfirst
    exact hf result.1 result.2.rest hfirst.2 result.2 hfirst.1 rfl

theorem Gives.pure {a : α} (h : given a text) :
    (Pure.pure a : Reader α).Gives whole text given := by
  rintro p hp rfl
  exact ⟨hp, h⟩

theorem Gives.get_bind {f : Place → Reader α}
    (h : ∀ p : Place, p.In whole → p.rest = text → (f p).Gives whole text given) :
    ((get : Reader Place) >>= f).Gives whole text given :=
  fun p hp htext => h p hp htext p hp htext

theorem Gives.throw {e : QueryError} (h : e.In whole) :
    (throw e : Reader α).Gives whole text given :=
  fun _ _ _ => h

theorem gives_fail (problem : QueryProblem) : (fail problem : Reader α).Gives whole text given :=
  .get_bind fun _ hp _ => .throw ⟨_, rfl, hp.isBoundary⟩

theorem gives_drop {f : List Char → List Char} {given : Unit → List Char → Prop}
    (hsuffix : f text <:+ text) (h : given () (f text)) : (drop f).Gives whole text given := by
  rintro p hp rfl
  exact ⟨⟨hp.size, hsuffix.trans hp.suffix⟩, h⟩

theorem gives_skip : skip.Gives whole text fun _ rest => rest = text.tail :=
  gives_drop (List.tail_suffix text) rfl

theorem gives_skipBlanks : skipBlanks.Gives whole text fun _ rest => Gap text rest :=
  gives_drop (gap_dropBlanks text).suffix (gap_dropBlanks text)

theorem gives_peek : peek.Gives whole text fun next rest => next = text.head? ∧ rest = text := by
  refine .get_bind fun p _ htext => .pure ⟨?_, rfl⟩
  rw [htext]

theorem gives_name : name.Gives whole text fun name rest => IsWord text name rest := by
  refine .get_bind fun p _ htext => ?_
  rw [htext]
  refine Gives.bind (gives_drop (List.dropWhile_suffix isNameChar) (rfl : _ = _))
    fun _ rest (hrest : rest = text.dropWhile isNameChar) => .pure ?_
  exact isWord_iff.2 ⟨rfl, hrest.symm⟩

theorem gives_kind : kind.Gives whole text fun kind rest => IsKind text kind rest := by
  refine .get_bind fun p hp _ => gives_name.bind fun name rest hword => ?_
  split
  · exact gives_fail _
  · exact .pure (.any hword)
  · split
    · rename_i hrule
      exact .pure (.rule hword hrule)
    · exact .throw ⟨_, rfl, hp.isBoundary⟩

theorem gives_role : role.Gives whole text fun f rest => IsRole text f rest := by
  refine .get_bind fun p hp _ => gives_name.bind fun name behind hword => ?_
  split
  · exact .throw ⟨_, rfl, hp.isBoundary⟩
  · rename_i f hfield
    refine gives_skipBlanks.bind fun _ colon hgap => gives_peek.bind ?_
    rintro next _ ⟨hnext, rfl⟩
    split
    · rename_i hcolon
      rw [hnext, beq_iff_eq] at hcolon
      obtain ⟨more, rfl⟩ := List.head?_eq_some_iff.1 hcolon
      refine gives_skip.bind ?_
      rintro _ _ rfl
      exact gives_skipBlanks.bind fun _ rest hbehind => .pure (.mk hword hfield hgap hbehind)
    · exact gives_fail _

theorem gives_captureNumber (name : String) :
    (captureNumber name).Gives whole text fun _ rest => rest = text := by
  rintro p hp rfl
  rw [run_captureNumber]
  split
  · rename_i hresult
    split at hresult
    · cases hresult
      exact ⟨hp, rfl⟩
    · cases hresult
      exact ⟨⟨hp.size, hp.suffix⟩, rfl⟩
  · rename_i hresult
    cases hresult

/-- Behind a pattern captures are read, and then blanks. -/
theorem gives_captures (bound : Nat) (text : List Char) : (captures bound).Gives whole text
    fun _ rest => ∃ names middle, AreCaptures text names middle ∧ Gap middle rest := by
  induction bound generalizing text with
  | zero => exact .pure ⟨[], text, .done, .done⟩
  | succ bound ih =>
    rw [captures]
    refine gives_skipBlanks.bind fun _ behind hgap => gives_peek.bind ?_
    rintro next _ ⟨hnext, rfl⟩
    split
    · rename_i hat
      rw [hnext, beq_iff_eq] at hat
      obtain ⟨more, rfl⟩ := List.head?_eq_some_iff.1 hat
      refine gives_skip.bind ?_
      rintro _ _ rfl
      refine gives_name.bind fun name after hword => ?_
      split
      · exact gives_fail _
      · rename_i hne
        refine (gives_captureNumber name).bind ?_
        rintro number _ rfl
        refine (ih _).bind ?_
        rintro numbers rest ⟨names, middle, hcaptures, hrest⟩
        refine .pure ⟨name :: names, middle, .next hgap hword ?_ hcaptures, hrest⟩
        rintro rfl
        exact hne rfl
    · exact .pure ⟨[], text, .done, hgap⟩

/-- A pattern with the blanks behind it. -/
def PatternThenGap (text rest : List Char) : Prop := ∃ s middle, IsPattern text s middle ∧
    Gap middle rest

/-- A pattern is read with the blanks behind it, if those of its children are read. -/
theorem gives_pattern {bound : Nat} (text : List Char)
    (hchildren : ∀ text, (children bound).Gives whole text fun _ rest => ∃ ss,
      AreChildren text ss rest) :
    (pattern (bound + 1)).Gives whole text fun _ rest => PatternThenGap text rest := by
  rw [pattern]
  refine gives_peek.bind ?_
  rintro next _ ⟨hnext, rfl⟩
  split
  · obtain ⟨more, rfl⟩ := List.head?_eq_some_iff.1 hnext.symm
    refine gives_skip.bind ?_
    rintro _ _ rfl
    refine gives_skipBlanks.bind fun _ behind hgap => gives_kind.bind fun kind after hkind => ?_
    refine (hchildren after).bind ?_
    rintro ps closed ⟨ss, hchildren⟩
    refine (gives_captures bound closed).bind ?_
    rintro numbers rest ⟨names, middle, hcaptures, hrest⟩
    exact .pure ⟨_, middle, .node hgap hkind hchildren hcaptures, hrest⟩
  · obtain ⟨more, rfl⟩ := List.head?_eq_some_iff.1 hnext.symm
    refine gives_skip.bind ?_
    rintro _ _ rfl
    refine (gives_captures bound _).bind ?_
    rintro numbers rest ⟨names, middle, hcaptures, hrest⟩
    exact .pure ⟨_, middle, .any hcaptures, hrest⟩
  · exact gives_fail _

/-- Patterns of children are read with the closing parenthesis, if each of them is read. -/
theorem gives_children {bound : Nat} (text : List Char)
    (hpattern : ∀ text, (pattern bound).Gives whole text fun _ rest => PatternThenGap text rest)
    (hmore : ∀ text, (children bound).Gives whole text fun _ rest => ∃ ss,
      AreChildren text ss rest) :
    (children (bound + 1)).Gives whole text fun _ rest => ∃ ss, AreChildren text ss rest := by
  rw [children]
  refine gives_skipBlanks.bind fun _ behind hgap => gives_peek.bind ?_
  rintro next _ ⟨hnext, rfl⟩
  split
  · exact gives_fail _
  · obtain ⟨more, rfl⟩ := List.head?_eq_some_iff.1 hnext.symm
    refine gives_skip.bind ?_
    rintro _ _ rfl
    exact .pure ⟨[], .closed hgap⟩
  · rename_i c _
    obtain ⟨more, rfl⟩ := List.head?_eq_some_iff.1 hnext.symm
    split
    · refine (hpattern _).bind ?_
      rintro child after ⟨s, middle, hpattern, hafter⟩
      refine (hmore after).bind ?_
      rintro others rest ⟨ss, hmore⟩
      exact .pure ⟨s :: ss, .child hgap hpattern (hmore.behind_gap hafter)⟩
    · split
      · rename_i hletter
        refine gives_role.bind fun f begin hrole => (hpattern begin).bind ?_
        rintro child after ⟨s, middle, hpattern, hafter⟩
        refine (hmore after).bind ?_
        rintro others rest ⟨ss, hmore⟩
        exact .pure ⟨s.inField f :: ss, .inRole hgap hletter hrole hpattern
          (hmore.behind_gap hafter)⟩
      · exact gives_fail _

theorem gives_pattern_children (bound : Nat) (text : List Char) :
    ((pattern bound).Gives whole text fun _ rest => PatternThenGap text rest) ∧
      (children bound).Gives whole text fun _ rest => ∃ ss, AreChildren text ss rest := by
  induction bound generalizing text with
  | zero => exact ⟨gives_fail _, gives_fail _⟩
  | succ bound ih =>
    exact ⟨gives_pattern text fun text => (ih text).2,
      gives_children text (fun text => (ih text).1) fun text => (ih text).2⟩

/-- With a bound beyond the length of the text, patterns are read to its end. -/
theorem gives_patterns (bound : Nat) (text : List Char) (hbound : text.length < bound) :
    (patterns bound).Gives whole text
      fun ps _ => ∃ ss, ArePatterns text ss ∧ ss.length = ps.length := by
  induction bound generalizing text with
  | zero => omega
  | succ bound ih =>
    rw [patterns]
    refine gives_skipBlanks.bind fun _ behind hgap => gives_peek.bind ?_
    rintro next _ ⟨hnext, rfl⟩
    split
    · rename_i hnone
      rw [hnext, Option.isNone_iff_eq_none, List.head?_eq_none_iff] at hnone
      subst hnone
      exact .pure ⟨[], .done hgap, rfl⟩
    · refine (gives_pattern_children (bound + 1) _).1.bind ?_
      rintro p after ⟨s, middle, hpattern, hafter⟩
      have hlt : after.length < bound := by
        obtain ⟨c, more, rfl, hmore⟩ := hpattern.suffix
        have hmiddle := (hafter.suffix.trans hmore).length_le
        have hbehind := hgap.suffix.length_le
        rw [List.length_cons] at hbehind
        omega
      refine (ih after hlt).bind ?_
      rintro ps _ ⟨ss, hmore, hlength⟩
      refine .pure ⟨s :: ss, .next hgap hpattern (hmore.behind_gap hafter), ?_⟩
      rw [List.length_cons, List.length_cons, hlength]

end

end Reader

-- ---------------------------------------------------------------------------
-- What is in the grammar
-- ---------------------------------------------------------------------------

/-- The place in a text of this size with `rest` behind it and these names in front of it. -/
def Place.reached (size : Nat) (rest : List Char) (names : List String) : Place :=
  { size, rest, names := names.eraseDups }

namespace Reader

open Place (reached)

section

variable {α β : Type} {size : Nat} {text rest : List Char} {before all : List String}

theorem run_bind {r : Reader α} {a : α} {p p' : Place} (h : r p = .ok (a, p')) (f : α → Reader β) :
    (r >>= f) p = f a p' := by
  show (r p >>= fun result => f result.1 result.2) = f a p'
  rw [h]
  rfl

theorem run_get_bind (f : Place → Reader α) (p : Place) : ((get : Reader Place) >>= f) p = f p p :=
  rfl

theorem run_skip_bind (c : Char) (f : Unit → Reader α) :
    (skip >>= f) (reached size (c :: text) before) = f () (reached size text before) :=
  rfl

theorem run_skipBlanks_bind (f : Unit → Reader α) :
    (skipBlanks >>= f) (reached size text before) = f () (reached size (dropBlanks text) before) :=
  rfl

theorem run_peek_bind (f : Option Char → Reader α) :
    (peek >>= f) (reached size text before) = f text.head? (reached size text before) :=
  rfl

/-- A parenthesis or an underscore begins a child. -/
theorem run_children_child {c : Char} (bound : Nat) (hc : c = '(' ∨ c = '_')
    (htext : dropBlanks text = c :: rest) : children (bound + 1) (reached size text before) =
      (do
        let child ← pattern bound
        return child :: (← children bound) : Reader (List Pattern))
            (reached size (c :: rest) before) := by
  rw [children, run_skipBlanks_bind, run_peek_bind, htext]
  rcases hc with rfl | rfl
  all_goals rfl

/-- A letter begins the role of a child. -/
theorem run_children_inRole {c : Char} (bound : Nat) (hc : Text.isAlphabetic c = true)
    (htext : dropBlanks text = c :: rest) : children (bound + 1) (reached size text before) =
      (do
        let field ← role
        let child ← pattern bound
        return child.inField field :: (← children bound) : Reader (List Pattern))
          (reached size (c :: rest) before) := by
  have hother {d : Char} (hd : Text.isAlphabetic d = false) : c ≠ d := by
    rintro rfl
    rw [hc] at hd
    cases hd
  have hpattern : (c == '(' || c == '_') = false := by
    rw [beq_false_of_ne (hother (by decide)), beq_false_of_ne (hother (by decide))]
    rfl
  rw [children, run_skipBlanks_bind, run_peek_bind, htext]
  generalize hnext : (c :: rest).head? = next
  split
  · cases hnext
  · exact absurd (Option.some.inj hnext) (hother (by decide))
  · obtain rfl := Option.some.inj hnext
    rw [hpattern, if_neg Bool.false_ne_true, if_pos hc]

/-- A capture has the place of its name among all names, as soon as it is there. -/
theorem run_captureNumber_reached {name : String} (hall : before ++ [name] <+: all) :
    captureNumber name (reached size text before) =
      .ok (all.eraseDups.idxOf name, reached size text (before ++ [name])) := by
  obtain ⟨more, rfl⟩ := hall
  rw [idxOf_eraseDups_append (by simp), run_captureNumber, reached, reached, eraseDups_concat]
  dsimp only
  cases hindex : before.eraseDups.idxOf? name with
  | none =>
    have hnew : name ∉ before.eraseDups := List.idxOf?_eq_none_iff.1 hindex
    rw [List.mem_eraseDups] at hnew
    rw [if_neg hnew, List.idxOf_append_of_notMem (by rwa [List.mem_eraseDups])]
    simp
  | some number =>
    have hknown : name ∈ before := by
      by_contra hnew
      rw [← List.mem_eraseDups, ← List.idxOf?_eq_none_iff, hindex] at hnew
      cases hnew
    rw [if_pos hknown, List.idxOf_eq_getD_idxOf?, hindex]
    rfl

end

end Reader

section

variable {size : Nat} {text rest : List Char} {before all : List String}

open Reader
open Place (reached)

theorem IsWord.read {name : String} (h : IsWord text name rest) :
    Reader.name (reached size text before) = .ok (name, reached size rest before) := by
  obtain ⟨hname, hrest⟩ := isWord_iff.1 h
  rw [← hname, ← hrest]
  rfl

theorem IsKind.read {kind : KindTest} (h : IsKind text kind rest) :
    Reader.kind (reached size text before) = .ok (kind, reached size rest before) := by
  rw [Reader.kind, run_get_bind]
  cases h with
  | any word =>
    rw [run_bind word.read]
    rfl
  | rule word h =>
    rw [run_bind word.read]
    split
    · exact absurd rfl (name_ne_of_ofText? h).1
    · exact absurd rfl (name_ne_of_ofText? h).2
    · rw [h]
      rfl

theorem IsRole.read {f : Field} (h : IsRole text f rest) (hrest : dropBlanks rest = rest) :
    Reader.role (reached size text before) = .ok (f, reached size rest before) := by
  obtain ⟨word, h, gap, behind⟩ := h
  rw [Reader.role, run_get_bind, run_bind word.read, h]
  dsimp only
  rw [run_skipBlanks_bind, gap.dropBlanks_cons (by decide), run_peek_bind, if_pos (by rfl),
    run_skip_bind, run_skipBlanks_bind, behind.dropBlanks_eq, hrest]
  rfl

/-- Captures are read up to where no capture follows, and the blanks there are skipped. -/
theorem AreCaptures.read {names : List String} (h : AreCaptures text names rest)
    (hrest : (dropBlanks rest).head? ≠ some '@') {bound : Nat} (hbound : text.length < bound)
    (hall : before ++ names <+: all) : Reader.captures bound (reached size text before) =
      .ok (names.map (all.eraseDups.idxOf ·), reached size (dropBlanks rest)
        (before ++ names)) := by
  induction h generalizing bound before with
  | @done text =>
    obtain ⟨bound, rfl⟩ := Nat.exists_eq_add_of_lt hbound
    rw [Reader.captures, run_skipBlanks_bind, run_peek_bind,
      if_neg fun hat => hrest (beq_iff_eq.1 hat),
      List.append_nil]
    rfl
  | @next text text₁ text₂ rest name names gap word hne more ih =>
    obtain ⟨bound, rfl⟩ := Nat.exists_eq_add_of_lt hbound
    have hlength := gap.suffix.length_le
    have hlength' := word.suffix.length_le
    rw [List.length_cons] at hlength
    have hall' : before ++ [name] ++ names <+: all := by rwa [List.append_assoc]
    rw [Reader.captures, run_skipBlanks_bind, gap.dropBlanks_cons (by decide), run_peek_bind,
      if_pos (by rfl), run_skip_bind, run_bind word.read, if_neg (by simpa using hne),
      run_bind (run_captureNumber_reached ((List.prefix_append _ _).trans hall')),
      run_bind (ih hrest (by omega) hall'), List.append_assoc]
    rfl

/-- With this bound, patterns are read with the blanks behind them, if no more captures follow. -/
def PatternsRead (size : Nat) (all : List String) (bound : Nat) : Prop :=
  ∀ {text rest : List Char} {s : Sketch} {before : List String}, IsPattern text s rest →
    (dropBlanks rest).head? ≠ some '@' → text.length < bound → before ++ s.names <+: all →
      Reader.pattern bound (reached size text before) =
        .ok (s.numbered all.eraseDups, reached size (dropBlanks rest) (before ++ s.names))

/-- With this bound, patterns of children are read with the closing parenthesis. -/
def ChildrenRead (size : Nat) (all : List String) (bound : Nat) : Prop :=
  ∀ {text rest : List Char} {ss : List Sketch} {before : List String}, AreChildren text ss rest →
    text.length + 1 < bound → before ++ Sketch.namesOf ss <+: all →
      Reader.children bound (reached size text before) =
        .ok (Sketch.numberedOf all.eraseDups ss, reached size rest (before ++ Sketch.namesOf ss))

theorem PatternsRead.succ {bound : Nat} (hchildren : ChildrenRead size all bound) :
    PatternsRead size all (bound + 1) := by
  intro text rest s before hpattern hrest hbound hall
  rw [Reader.pattern, run_peek_bind]
  cases hpattern with
  | @node text text₁ text₂ text₃ rest kind ss names gap hkind children captures =>
    have hclosed := children.suffix.length_le
    have hbehind := hkind.length_lt
    have hgap := gap.suffix.length_le
    rw [List.length_cons] at hbound
    rw [Sketch.names, ← List.append_assoc] at hall ⊢
    have hchildrenRead := hchildren children (by omega) ((List.prefix_append _ _).trans hall)
    show (skip >>= _) _ = _
    rw [run_skip_bind, run_skipBlanks_bind, gap.dropBlanks_eq, hkind.dropBlanks_eq,
      run_bind hkind.read, run_bind hchildrenRead, run_bind (captures.read hrest (by omega) hall)]
    rfl
  | @any text rest names captures =>
    rw [List.length_cons] at hbound
    rw [Sketch.names, Sketch.namesOf, List.nil_append] at hall ⊢
    show (skip >>= _) _ = _
    rw [run_skip_bind, run_bind (captures.read hrest (by omega) hall)]
    rfl

theorem ChildrenRead.succ {bound : Nat} (hpatterns : PatternsRead size all bound)
    (hchildren : ChildrenRead size all bound) : ChildrenRead size all (bound + 1) := by
  -- behind the blanks in front of it there is one child, and the others behind the blanks that
  -- follow
  have hchild {text text' rest : List Char} {s : Sketch} {ss : List Sketch} {before : List String}
      (pattern : IsPattern text s text') (more : AreChildren text' ss rest)
      (hbound : text.length < bound) (hall : before ++ s.names ++ Sketch.namesOf ss <+: all) :
      Reader.pattern bound (reached size text before) =
          .ok (s.numbered all.eraseDups, reached size (dropBlanks text') (before ++ s.names)) ∧
        Reader.children bound (reached size (dropBlanks text') (before ++ s.names)) =
          .ok (Sketch.numberedOf all.eraseDups ss,
            reached size rest (before ++ s.names ++ Sketch.namesOf ss)) := by
    have hpattern := pattern.length_lt
    have hskipped := (gap_dropBlanks text').suffix.length_le
    exact ⟨hpatterns pattern more.dropBlanks.2 hbound ((List.prefix_append _ _).trans hall),
      hchildren more.dropBlanks.1 (by omega) hall⟩
  intro text rest ss before hread hbound hall
  cases hread with
  | closed gap =>
    rw [Reader.children, run_skipBlanks_bind, run_peek_bind, gap.dropBlanks_cons (by decide),
      Sketch.namesOf, List.append_nil]
    rfl
  | @child text text₁ text₂ rest s ss gap pattern more =>
    have hgap := gap.suffix.length_le
    rw [Sketch.namesOf, ← List.append_assoc] at hall ⊢
    obtain ⟨hfirst, hothers⟩ := hchild pattern more (by omega) hall
    obtain ⟨c, behind, rfl, hc⟩ := pattern.head
    rw [run_children_child bound hc (gap.dropBlanks_eq.trans pattern.dropBlanks_eq),
      run_bind hfirst, run_bind hothers]
    rfl
  | @inRole c text text₁ text₂ text₃ rest f s ss gap hc role pattern more =>
    have hrole := role.suffix.length_le
    have hgap := gap.suffix.length_le
    rw [Sketch.namesOf, Sketch.names_inField, ← List.append_assoc] at hall ⊢
    obtain ⟨hfirst, hothers⟩ := hchild pattern more (by omega) hall
    rw [run_children_inRole bound hc (gap.dropBlanks_cons (isInk_of_isAlphabetic hc)),
      run_bind (role.read pattern.dropBlanks_eq), run_bind hfirst, run_bind hothers,
      Sketch.numberedOf, Sketch.numbered_inField]
    rfl

theorem read_pattern_children (size : Nat) (all : List String) (bound : Nat) :
    PatternsRead size all bound ∧ ChildrenRead size all bound := by
  induction bound with
  | zero => exact ⟨fun _ _ hbound => absurd hbound (Nat.not_lt_zero _),
      fun _ hbound => absurd hbound (Nat.not_lt_zero _)⟩
  | succ bound ih => exact ⟨PatternsRead.succ ih.2, ChildrenRead.succ ih.1 ih.2⟩

/-- Patterns are read to the end of the text. -/
theorem ArePatterns.read {ss : List Sketch} (h : ArePatterns text ss) {bound : Nat}
    (hbound : text.length < bound) (hall : before ++ Sketch.namesOf ss <+: all) :
    Reader.patterns bound (reached size text before) =
      .ok (Sketch.numberedOf all.eraseDups ss, reached size [] (before ++ Sketch.namesOf ss)) := by
  induction bound generalizing text ss before with
  | zero => omega
  | succ bound ih =>
    rw [Reader.patterns, run_skipBlanks_bind, run_peek_bind]
    cases h with
    | done gap =>
      rw [gap.dropBlanks_eq, Sketch.namesOf, List.append_nil]
      rfl
    | @next text text₁ text₂ s ss gap pattern more =>
      have hpattern := pattern.length_lt
      have hgap := gap.suffix.length_le
      have hskipped := (gap_dropBlanks text₂).suffix.length_le
      rw [Sketch.namesOf, ← List.append_assoc] at hall ⊢
      have hfirst := (read_pattern_children size all (bound + 1)).1 pattern more.dropBlanks.2
        (by omega) ((List.prefix_append _ _).trans hall)
      rw [gap.dropBlanks_eq, pattern.dropBlanks_eq, if_neg ?_, run_bind hfirst,
        run_bind (ih more.dropBlanks.1 (by omega) hall)]
      · rfl
      · obtain ⟨c, behind, rfl, -⟩ := pattern.head
        exact Bool.false_ne_true

end

theorem ofText_of_isWritten {text : List Char} {ss : List Sketch} (h : IsWritten text ss) :
    ofText text = .ok (ofSketches ss) := by
  obtain ⟨hpatterns, hne⟩ := h
  have hread : Reader.patterns (text.length + 1) (Place.ofText text) =
      .ok (Sketch.numberedOf (Sketch.namesOf ss).eraseDups ss,
        .reached (Text.byteLength text) [] (Sketch.namesOf ss)) :=
    @ArePatterns.read _ text [] _ ss hpatterns _ (Nat.lt_succ_self _) List.prefix_rfl
  have hsome : (Sketch.numberedOf (Sketch.namesOf ss).eraseDups ss).isEmpty = false := by
    rw [List.isEmpty_eq_false_iff, ← List.length_pos_iff, Sketch.length_numberedOf]
    exact List.length_pos_of_ne_nil hne
  unfold ofText
  rw [StateT.run, hread]
  dsimp only [bind, Except.bind]
  rw [hsome]
  rfl

/-- What is read is in the grammar, and an error is found in the text. -/
theorem isWritten_or_in (text : List Char) : match ofText text with
    | .ok _ => ∃ ss, IsWritten text ss
    | .error e => e.In text := by
  have hplace : (Place.ofText text).In text := ⟨rfl, List.suffix_rfl⟩
  have hgives := Reader.gives_patterns _ text (Nat.lt_succ_self _) (Place.ofText text) hplace rfl
  unfold ofText
  rw [StateT.run]
  cases hread : Reader.patterns (text.length + 1) (Place.ofText text) with
  | error e =>
    rw [hread] at hgives
    exact hgives
  | ok result =>
    obtain ⟨ps, place⟩ := result
    rw [hread] at hgives
    obtain ⟨-, ss, hpatterns, hlength⟩ := hgives
    cases ps with
    | nil => exact ⟨0, rfl, [], text, rfl, rfl⟩
    | cons p ps => exact ⟨ss, hpatterns, List.ne_nil_of_length_eq_add_one hlength⟩

/-- A text is accepted as a query exactly if it is in the grammar. What it is read as is then what
the text denotes: the patterns that are written, with all names of captures once, in the order in
which they first occur, and the place of its name as number for each capture. Any other text is an
error, whose offset is that of a character of the text or the end of it. -/
theorem ofText_decided (text : List Char) :
    (∀ q, ofText text = .ok q ↔ ∃ ss, IsWritten text ss ∧ q.Denotes ss) ∧
      ((∃ q, ofText text = .ok q) ↔ ∃ ss, IsWritten text ss) ∧
      ∀ e, ofText text = .error e → e.In text := by
  have hgives := isWritten_or_in text
  have hwritten {q : Query} (h : ofText text = .ok q) : ∃ ss, IsWritten text ss := by
    rwa [h] at hgives
  have hiff (q : Query) : ofText text = .ok q ↔ ∃ ss, IsWritten text ss ∧ q.Denotes ss := by
    constructor
    · intro h
      obtain ⟨ss, hss⟩ := hwritten h
      have hread := ofText_of_isWritten hss
      rw [h] at hread
      exact ⟨ss, hss, denotes_iff.2 (Except.ok.inj hread)⟩
    · rintro ⟨ss, hss, hq⟩
      rw [denotes_iff.1 hq]
      exact ofText_of_isWritten hss
  refine ⟨hiff, ?_, fun e h => by rwa [h] at hgives⟩
  constructor
  · rintro ⟨q, h⟩
    exact hwritten h
  · rintro ⟨ss, hss⟩
    exact ⟨_, ofText_of_isWritten hss⟩

/-- The captures of a child are written in front of those of its parent. -/
example : (ofText "(_ (_) @a _ @b) @c @a".toList).toOption.map captureNames =
    some ["a", "b", "c"] := by
  decide +kernel

end Query

end VisualBasic
