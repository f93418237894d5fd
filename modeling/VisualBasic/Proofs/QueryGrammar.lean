import Mathlib.Data.List.Infix
import Mathlib.Data.List.TakeWhile
import VisualBasic.Proofs.QueryMatches

/-!
# The grammar of queries

What a query is, apart from how it is read. Each notion tells how much of a text it takes: it
relates the text from where it begins to the text behind it. What is written is a `Sketch`, in which
captures still have names; a query denotes it if it has the names in the order in which they first
occur, and each capture has the place of its name as number.

A pattern begins with a parenthesis or an underscore, a role with a letter, a capture with an at
sign, and none of these is a blank. So one character tells what follows, once the blanks in front of
it are skipped, and a text cannot be read in two ways.

Main results:

* `Query.denotes_iff` — there is one query that denotes what is written.
* `Query.Gap.dropBlanks_eq` — all that may stand between two pieces is skipped in front of what is
  no blank.
-/

namespace VisualBasic

-- ---------------------------------------------------------------------------
-- What is written
-- ---------------------------------------------------------------------------

/-- A pattern as it is written, with the names of its captures. -/
inductive Sketch where
  | mk (field : Option Field) (kind : KindTest) (captures : List String) (children : List Sketch)

namespace Sketch

/-- The same pattern, in the role `f` of its parent. -/
def inField (f : Field) : Sketch → Sketch
  | mk _ kind captures children => mk (some f) kind captures children

mutual

/-- The names of all captures, each as often as it is written and in that order: the captures of a
pattern are written behind all that belongs to its children. -/
def names : Sketch → List String
  | mk _ _ captures children => namesOf children ++ captures

def namesOf : List Sketch → List String
  | [] => []
  | s :: rest => s.names ++ namesOf rest

end

mutual

/-- The pattern whose captures have the places of their names in the list as numbers. -/
def numbered (known : List String) : Sketch → Pattern
  | mk field kind captures children =>
    .mk field kind (captures.map (known.idxOf ·)) (numberedOf known children)

def numberedOf (known : List String) : List Sketch → List Pattern
  | [] => []
  | s :: rest => s.numbered known :: numberedOf known rest

end

theorem names_inField (f : Field) (s : Sketch) : (s.inField f).names = s.names := by
  cases s
  rw [inField, names, names]

theorem numbered_inField (f : Field) (known : List String) (s : Sketch) :
    (s.inField f).numbered known = (s.numbered known).inField f := by
  cases s
  rw [inField, numbered, numbered, Pattern.inField]

theorem length_numberedOf (known : List String) (ss : List Sketch) :
    (numberedOf known ss).length = ss.length := by
  induction ss with
  | nil => rfl
  | cons s ss ih => rw [numberedOf, List.length_cons, List.length_cons, ih]

end Sketch

namespace Query

/-- The query has the patterns that are written. Its names are those of the captures, each once and
in the order of their first occurrences, and are referred to by their places. -/
structure Denotes (q : Query) (ss : List Sketch) : Prop where
  patterns : q.patterns = Sketch.numberedOf q.captureNames ss
  nodup : q.captureNames.Nodup
  mem : ∀ name, name ∈ q.captureNames ↔ name ∈ Sketch.namesOf ss
  order : q.captureNames.Pairwise fun a b =>
    (Sketch.namesOf ss).idxOf a < (Sketch.namesOf ss).idxOf b

-- ---------------------------------------------------------------------------
-- Names in order
-- ---------------------------------------------------------------------------

/-- The query of what is written. -/
def ofSketches (ss : List Sketch) : Query where
  captureNames := (Sketch.namesOf ss).eraseDups
  patterns := Sketch.numberedOf (Sketch.namesOf ss).eraseDups ss

/-- One more name is known already, or it is put behind the others. -/
theorem eraseDups_concat (names : List String) (name : String) : (names ++ [name]).eraseDups =
    if name ∈ names then names.eraseDups else names.eraseDups ++ [name] := by
  rw [List.eraseDups_append]
  split
  · rename_i hmem
    rw [List.removeAll, List.filter_cons_of_neg (by simpa using hmem), List.filter_nil,
      List.eraseDups_nil, List.append_nil]
  · rename_i hmem
    rw [List.removeAll, List.filter_cons_of_pos (by simpa using hmem), List.filter_nil]
    rfl

/-- Known names keep their places. -/
theorem idxOf_eraseDups_append {names : List String} {name : String} (h : name ∈ names)
    (more : List String) : (names ++ more).eraseDups.idxOf name = names.eraseDups.idxOf name := by
  rw [List.eraseDups_append]
  exact List.idxOf_append_of_mem (List.mem_eraseDups.2 h)

theorem pairwise_eraseDups (names : List String) : names.eraseDups.Nodup ∧
    names.eraseDups.Pairwise fun a b => names.idxOf a < names.idxOf b := by
  induction names using List.reverseRecOn with
  | nil => exact ⟨List.nodup_nil, .nil⟩
  | append_singleton names name ih =>
    have hkept : ∀ a ∈ names.eraseDups, (names ++ [name]).idxOf a = names.idxOf a :=
      fun a ha => List.idxOf_append_of_mem (List.mem_eraseDups.1 ha)
    have horder : names.eraseDups.Pairwise fun a b =>
        (names ++ [name]).idxOf a < (names ++ [name]).idxOf b := by
      refine ih.2.imp_of_mem fun ha hb hlt => ?_
      rwa [hkept _ ha, hkept _ hb]
    rw [eraseDups_concat]
    split
    · exact ⟨ih.1, horder⟩
    · rename_i hmem
      refine ⟨List.nodup_append.2 ⟨ih.1, List.nodup_singleton name, ?_⟩, ?_⟩
      · intro a ha b hb heq
        obtain rfl := List.mem_singleton.1 hb
        exact hmem (heq ▸ List.mem_eraseDups.1 ha)
      · refine List.pairwise_append.2 ⟨horder, List.pairwise_singleton _ _, fun a ha b hb => ?_⟩
        obtain rfl := List.mem_singleton.1 hb
        rw [hkept a ha, List.idxOf_append_of_notMem hmem]
        exact Nat.lt_of_lt_of_le (List.idxOf_lt_length_of_mem (List.mem_eraseDups.1 ha))
          (Nat.le_add_right _ _)

/-- There is one query that denotes what is written. -/
theorem denotes_iff {q : Query} {ss : List Sketch} : q.Denotes ss ↔ q = ofSketches ss := by
  obtain ⟨hnodup, horder⟩ := pairwise_eraseDups (Sketch.namesOf ss)
  constructor
  · rintro ⟨hpatterns, hnodup', hmem, horder'⟩
    have hperm : q.captureNames.Perm (Sketch.namesOf ss).eraseDups := by
      refine (List.perm_ext_iff_of_nodup hnodup' hnodup).2 fun name => ?_
      rw [hmem, List.mem_eraseDups]
    have hnames := hperm.eq_of_pairwise (fun a b _ _ hab hba => by omega) horder' horder
    obtain ⟨patterns, captureNames⟩ := q
    rw [ofSketches, ← hnames, ← hpatterns]
  · rintro rfl
    exact ⟨rfl, hnodup, fun name => List.mem_eraseDups, horder⟩

-- ---------------------------------------------------------------------------
-- The grammar
-- ---------------------------------------------------------------------------

/-- White space and comments. A comment is ended by the end of its line or of the text. -/
inductive Gap : List Char → List Char → Prop
  | done {text : List Char} : Gap text text
  | space {c : Char} {text rest : List Char} (h : Text.isWhiteSpace c = true)
      (gap : Gap text rest) :
      Gap (c :: text) rest
  | comment {line text rest : List Char} (hline : '\n' ∉ line) (hend : ∀ c ∈ text.head?, c = '\n')
      (gap : Gap text rest) : Gap (';' :: (line ++ text)) rest

/-- A name goes on as long as there are characters of names. -/
structure IsWord (text : List Char) (name : String) (rest : List Char) : Prop where
  eq : text = name.toList ++ rest
  within : ∀ c ∈ name.toList, isNameChar c = true
  behind : ∀ c ∈ rest.head?, isNameChar c = false

/-- What a pattern asks of the kind of its node. -/
inductive IsKind : List Char → KindTest → List Char → Prop
  | any {text rest : List Char} (word : IsWord text "_" rest) : IsKind text .any rest
  | rule {text rest : List Char} {name : String} {rule : Rule} (word : IsWord text name rest)
      (h : Rule.ofText? name = some rule) : IsKind text (.rule rule) rest

/-- The role of a child, up to where the child begins. -/
inductive IsRole : List Char → Field → List Char → Prop
  | mk {text text₁ text₂ rest : List Char} {name : String} {f : Field}
      (word : IsWord text name text₁)
      (h : Field.ofText? name = some f) (gap : Gap text₁ (':' :: text₂)) (behind : Gap text₂ rest) :
      IsRole text f rest

/-- The captures behind a pattern. -/
inductive AreCaptures : List Char → List String → List Char → Prop
  | done {text : List Char} : AreCaptures text [] text
  | next {text text₁ text₂ rest : List Char} {name : String} {names : List String}
      (gap : Gap text ('@' :: text₁)) (word : IsWord text₁ name text₂) (hne : name ≠ "")
      (more : AreCaptures text₂ names rest) : AreCaptures text (name :: names) rest

mutual

inductive IsPattern : List Char → Sketch → List Char → Prop
  | node {text text₁ text₂ text₃ rest : List Char} {kind : KindTest} {ss : List Sketch}
      {names : List String} (gap : Gap text text₁) (hkind : IsKind text₁ kind text₂)
      (children : AreChildren text₂ ss text₃) (captures : AreCaptures text₃ names rest) :
      IsPattern ('(' :: text) (.mk none kind names ss) rest
  | any {text rest : List Char} {names : List String} (captures : AreCaptures text names rest) :
      IsPattern ('_' :: text) (.mk none .any names []) rest

/-- The patterns of children and the closing parenthesis. -/
inductive AreChildren : List Char → List Sketch → List Char → Prop
  | closed {text rest : List Char} (gap : Gap text (')' :: rest)) : AreChildren text [] rest
  | child {text text₁ text₂ rest : List Char} {s : Sketch} {ss : List Sketch} (gap : Gap text text₁)
      (pattern : IsPattern text₁ s text₂) (more : AreChildren text₂ ss rest) :
      AreChildren text (s :: ss) rest
  | inRole {c : Char} {text text₁ text₂ text₃ rest : List Char} {f : Field} {s : Sketch}
      {ss : List Sketch} (gap : Gap text (c :: text₁)) (hc : Text.isAlphabetic c = true)
      (role : IsRole (c :: text₁) f text₂) (pattern : IsPattern text₂ s text₃)
      (more : AreChildren text₃ ss rest) : AreChildren text (s.inField f :: ss) rest

end

/-- Patterns, up to the end of the text. -/
inductive ArePatterns : List Char → List Sketch → Prop
  | done {text : List Char} (gap : Gap text []) : ArePatterns text []
  | next {text text₁ text₂ : List Char} {s : Sketch} {ss : List Sketch} (gap : Gap text text₁)
      (pattern : IsPattern text₁ s text₂) (more : ArePatterns text₂ ss) : ArePatterns text (s :: ss)

/-- The text of a query is that of at least one pattern. -/
def IsWritten (text : List Char) (ss : List Sketch) : Prop := ArePatterns text ss ∧ ss ≠ []

-- ---------------------------------------------------------------------------
-- Blanks
-- ---------------------------------------------------------------------------

/-- A comment is skipped, and the blanks behind it. -/
theorem dropComment_append {line text : List Char} (hline : '\n' ∉ line)
    (hend : ∀ c ∈ text.head?, c = '\n') : dropComment (line ++ text) = dropBlanks text := by
  induction line with
  | nil =>
    cases text with
    | nil => rw [List.nil_append, dropComment, dropBlanks]
    | cons c text =>
      obtain rfl := hend c rfl
      rw [List.nil_append, dropComment, dropBlanks, if_pos (by decide), if_pos (by decide)]
  | cons c line ih =>
    rw [List.mem_cons, not_or] at hline
    have hc : (c == '\n') = false := beq_false_of_ne fun heq => hline.1 heq.symm
    rw [List.cons_append, dropComment, hc]
    exact ih hline.2

mutual

theorem gap_dropBlanks : (text : List Char) → Gap text (dropBlanks text)
  | [] => by
    rw [dropBlanks]
    exact .done
  | c :: rest => by
    rw [dropBlanks]
    split
    · rename_i hspace
      exact .space hspace (gap_dropBlanks rest)
    · split
      · rename_i hsemicolon
        obtain rfl := beq_iff_eq.1 hsemicolon
        obtain ⟨line, text, rfl, hline, hend, hgap⟩ := gap_dropComment rest
        exact .comment hline hend hgap
      · exact .done

/-- From within a comment, its line and then blanks are skipped. -/
theorem gap_dropComment : (text : List Char) → ∃ line behind, text = line ++ behind ∧ '\n' ∉ line ∧
    (∀ c ∈ behind.head?, c = '\n') ∧ Gap behind (dropComment text)
  | [] => by
    rw [dropComment]
    exact ⟨[], [], rfl, List.not_mem_nil, nofun, .done⟩
  | c :: rest => by
    rw [dropComment]
    split
    · rename_i hfeed
      obtain rfl := beq_iff_eq.1 hfeed
      refine ⟨[], '\n' :: rest, rfl, List.not_mem_nil, fun c hc => (Option.some.inj hc).symm, ?_⟩
      exact .space (by decide) (gap_dropBlanks rest)
    · rename_i hfeed
      obtain ⟨line, behind, rfl, hline, hend, hgap⟩ := gap_dropComment rest
      refine ⟨c :: line, behind, rfl, ?_, hend, hgap⟩
      rw [List.mem_cons, not_or]
      exact ⟨fun heq => hfeed (beq_iff_eq.2 heq.symm), hline⟩

end

namespace Gap

variable {text middle rest : List Char}

theorem trans (h : Gap text middle) (h' : Gap middle rest) : Gap text rest := by
  induction h with
  | done => exact h'
  | space hspace _ ih => exact .space hspace (ih h')
  | comment hline hend _ ih => exact .comment hline hend (ih h')

theorem suffix (h : Gap text rest) : rest <:+ text := by
  induction h with
  | done => exact List.suffix_rfl
  | space _ _ ih => exact ih.trans (List.suffix_cons _ _)
  | comment _ _ _ ih => exact (ih.trans (List.suffix_append _ _)).trans (List.suffix_cons _ _)

theorem dropBlanks_eq (h : Gap text rest) : dropBlanks text = dropBlanks rest := by
  induction h with
  | done => rfl
  | space hspace _ ih => rw [dropBlanks, if_pos hspace, ih]
  | comment hline hend _ ih =>
    rw [dropBlanks, if_neg (by decide), if_pos (by decide), dropComment_append hline hend, ih]

end Gap

/-- Whether a character can be the first behind blanks. -/
def isInk (c : Char) : Bool := !Text.isWhiteSpace c && c != ';'

theorem dropBlanks_of_isInk {c : Char} (h : isInk c = true) (rest : List Char) :
    dropBlanks (c :: rest) = c :: rest := by
  rw [isInk, Bool.and_eq_true, Bool.not_eq_true', bne_iff_ne] at h
  rw [dropBlanks, h.1, if_neg Bool.false_ne_true, if_neg fun heq => h.2 (beq_iff_eq.1 heq)]

theorem Gap.dropBlanks_cons {text rest : List Char} {c : Char} (h : Gap text (c :: rest))
    (hc : isInk c = true) : dropBlanks text = c :: rest := by
  rw [h.dropBlanks_eq, dropBlanks_of_isInk hc]

/-- No character of a name is white space or begins a comment. -/
theorem isInk_of_isNameChar {c : Char} (h : isNameChar c = true) : isInk c = true := by
  by_contra hblank
  have hmem : c.toNat ∈ Text.whiteSpaceRanges.flatMap fun range =>
      List.range' range.1 (range.2 + 1 - range.1) := by
    rw [isInk, Bool.and_eq_true, not_and_or, Bool.not_eq_true', Bool.not_eq_false, bne_iff_ne,
      not_not] at hblank
    rcases hblank with hspace | rfl
    · obtain ⟨range, hrange, hwithin⟩ := List.any_eq_true.1 hspace
      rw [Bool.and_eq_true, decide_eq_true_eq, decide_eq_true_eq] at hwithin
      refine List.mem_flatMap.2 ⟨range, hrange, List.mem_range'_1.2 ⟨hwithin.1, ?_⟩⟩
      omega
    · exact absurd h (by decide)
  have hnone : ∀ n ∈ Text.whiteSpaceRanges.flatMap fun range =>
      List.range' range.1 (range.2 + 1 - range.1), isNameChar (Char.ofNat n) = false := by
    decide +kernel
  have hc := hnone _ hmem
  rw [Char.ofNat_toNat, h] at hc
  cases hc

theorem isInk_of_isAlphabetic {c : Char} (h : Text.isAlphabetic c = true) : isInk c = true :=
  isInk_of_isNameChar (by simp [isNameChar, Text.isAlphanumeric, h])

-- ---------------------------------------------------------------------------
-- Pieces of the grammar
-- ---------------------------------------------------------------------------

section

variable {text middle rest rest' : List Char}

/-- The longest name with which a text begins is the only one. -/
theorem isWord_iff {name : String} : IsWord text name rest ↔
    String.ofList (text.takeWhile isNameChar) = name ∧ text.dropWhile isNameChar = rest := by
  constructor
  · rintro ⟨rfl, hwithin, hbehind⟩
    have hend : rest.takeWhile isNameChar = [] ∧ rest.dropWhile isNameChar = rest := by
      cases rest with
      | nil => exact ⟨rfl, rfl⟩
      | cons c rest =>
        have hc := hbehind c rfl
        rw [List.takeWhile_cons, List.dropWhile_cons, hc]
        exact ⟨rfl, rfl⟩
    rw [List.takeWhile_append_of_pos hwithin, List.dropWhile_append_of_pos hwithin, hend.1, hend.2,
      List.append_nil, String.ofList_toList]
    exact ⟨rfl, rfl⟩
  · rintro ⟨rfl, rfl⟩
    refine ⟨?_, ?_, ?_⟩
    · rw [String.toList_ofList, List.takeWhile_append_dropWhile]
    · rw [String.toList_ofList]
      exact fun c hc => List.mem_takeWhile_imp hc
    · intro c hc
      have hnot := List.head?_dropWhile_not isNameChar text
      rw [Option.mem_def.1 hc] at hnot
      exact hnot

/-- A name that is not empty takes a part of the text. -/
theorem IsWord.length_lt {name : String} (h : IsWord text name rest) (hne : name ≠ "") :
    rest.length < text.length := by
  have hlength : 0 < name.toList.length :=
    List.length_pos_of_ne_nil fun hnil => hne (String.toList_eq_nil_iff.1 hnil)
  rw [h.eq, List.length_append]
  omega

/-- No rule is called by nothing, or by the sign for any kind. -/
theorem name_ne_of_ofText? {name : String} {rule : Rule} (h : Rule.ofText? name = some rule) :
    name ≠ "" ∧ name ≠ "_" := by
  constructor
  · rintro rfl
    rw [show Rule.ofText? "" = none by decide] at h
    cases h
  · rintro rfl
    rw [show Rule.ofText? "_" = none by decide] at h
    cases h

/-- Nothing is skipped in front of a name. -/
theorem IsWord.dropBlanks_eq {name : String} (h : IsWord text name rest) (hne : name ≠ "") :
    dropBlanks text = text := by
  obtain ⟨c, more, hname⟩ : ∃ c more, name.toList = c :: more :=
    List.exists_cons_of_ne_nil fun hnil => hne (String.toList_eq_nil_iff.1 hnil)
  rw [h.eq, hname]
  exact dropBlanks_of_isInk (isInk_of_isNameChar (h.within c (by simp [hname]))) _

theorem IsWord.suffix {name : String} (h : IsWord text name rest) : rest <:+ text := by
  rw [h.eq]
  exact List.suffix_append _ _

theorem IsKind.dropBlanks_eq {kind : KindTest} (h : IsKind text kind rest) :
    dropBlanks text = text := by
  cases h with
  | any word => exact word.dropBlanks_eq (by decide)
  | rule word h => exact word.dropBlanks_eq (name_ne_of_ofText? h).1

theorem IsKind.suffix {kind : KindTest} (h : IsKind text kind rest) : rest <:+ text := by
  cases h with
  | any word | rule word => exact word.suffix

/-- The kind of a node takes a part of the text. -/
theorem IsKind.length_lt {kind : KindTest} (h : IsKind text kind rest) :
    rest.length < text.length := by
  cases h with
  | any word => exact word.length_lt (by decide)
  | rule word h => exact word.length_lt (name_ne_of_ofText? h).1

theorem IsRole.suffix {f : Field} (h : IsRole text f rest) : rest <:+ text := by
  obtain ⟨word, -, gap, behind⟩ := h
  exact ((behind.suffix.trans (List.suffix_cons _ _)).trans gap.suffix).trans word.suffix

theorem AreCaptures.suffix {names : List String} (h : AreCaptures text names rest) :
    rest <:+ text := by
  induction h with
  | done => exact List.suffix_rfl
  | next gap word _ _ ih =>
    exact ((ih.trans word.suffix).trans (List.suffix_cons _ _)).trans gap.suffix

mutual

/-- A pattern takes a part of the text. -/
theorem IsPattern.suffix {s : Sketch} : {text rest : List Char} → IsPattern text s rest →
    ∃ c more, text = c :: more ∧ rest <:+ more
  | _, _, .node gap hkind children captures =>
    ⟨_, _, rfl, ((captures.suffix.trans children.suffix).trans hkind.suffix).trans gap.suffix⟩
  | _, _, .any captures => ⟨_, _, rfl, captures.suffix⟩

theorem AreChildren.suffix {ss : List Sketch} : {text rest : List Char} → AreChildren text ss rest →
    rest <:+ text
  | _, _, .closed gap => (List.suffix_cons _ _).trans gap.suffix
  | _, _, .child gap pattern more => by
    obtain ⟨c, behind, rfl, hpattern⟩ := pattern.suffix
    exact ((more.suffix.trans hpattern).trans (List.suffix_cons _ _)).trans gap.suffix
  | _, _, .inRole gap _ role pattern more => by
    obtain ⟨c, behind, rfl, hpattern⟩ := pattern.suffix
    exact (((more.suffix.trans hpattern).trans (List.suffix_cons _ _)).trans role.suffix).trans
      gap.suffix

end

theorem IsPattern.length_lt {s : Sketch} (h : IsPattern text s rest) :
    rest.length < text.length := by
  obtain ⟨c, more, rfl, hrest⟩ := h.suffix
  exact Nat.lt_succ_of_le hrest.length_le

/-- Blanks may be put in front of children. -/
theorem AreChildren.behind_gap {ss : List Sketch} (h : Gap text middle)
    (children : AreChildren middle ss rest) :
    AreChildren text ss rest := by
  cases children with
  | closed gap => exact .closed (h.trans gap)
  | child gap pattern more => exact .child (h.trans gap) pattern more
  | inRole gap hc role pattern more => exact .inRole (h.trans gap) hc role pattern more

theorem ArePatterns.behind_gap {ss : List Sketch} (h : Gap text middle)
    (patterns : ArePatterns middle ss) :
    ArePatterns text ss := by
  cases patterns with
  | done gap => exact .done (h.trans gap)
  | next gap pattern more => exact .next (h.trans gap) pattern more

/-- What a pattern begins with. -/
theorem IsPattern.head {s : Sketch} (h : IsPattern text s rest) :
    ∃ c more, text = c :: more ∧ (c = '(' ∨ c = '_') := by
  cases h with
  | node => exact ⟨_, _, rfl, .inl rfl⟩
  | any => exact ⟨_, _, rfl, .inr rfl⟩

theorem IsPattern.head_ne {s : Sketch} (h : IsPattern text s rest) : text.head? ≠ some '@' := by
  obtain ⟨c, more, rfl, rfl | rfl⟩ := h.head
  all_goals exact nofun

theorem IsPattern.dropBlanks_eq {s : Sketch} (h : IsPattern text s rest) :
    dropBlanks text = text := by
  obtain ⟨c, more, rfl, rfl | rfl⟩ := h.head
  all_goals exact dropBlanks_of_isInk (by decide) _

/-- The blanks in front of children may be skipped, and what is behind them is no capture. -/
theorem AreChildren.dropBlanks {ss : List Sketch} (h : AreChildren text ss rest) :
    AreChildren (Query.dropBlanks text) ss rest ∧ (Query.dropBlanks text).head? ≠ some '@' := by
  cases h with
  | closed gap =>
    rw [gap.dropBlanks_cons (by decide)]
    exact ⟨.closed .done, nofun⟩
  | child gap pattern more =>
    rw [gap.dropBlanks_eq, pattern.dropBlanks_eq]
    exact ⟨.child .done pattern more, pattern.head_ne⟩
  | inRole gap hc role pattern more =>
    rw [gap.dropBlanks_cons (isInk_of_isAlphabetic hc)]
    refine ⟨.inRole .done hc role pattern more, fun hat => ?_⟩
    obtain rfl := Option.some.inj hat
    exact absurd hc (by decide)

theorem ArePatterns.dropBlanks {ss : List Sketch} (h : ArePatterns text ss) :
    ArePatterns (Query.dropBlanks text) ss ∧ (Query.dropBlanks text).head? ≠ some '@' := by
  cases h with
  | done gap =>
    rw [gap.dropBlanks_eq]
    exact ⟨.done .done, nofun⟩
  | next gap pattern more =>
    rw [gap.dropBlanks_eq, pattern.dropBlanks_eq]
    exact ⟨.next .done pattern more, pattern.head_ne⟩

end

end Query

end VisualBasic
