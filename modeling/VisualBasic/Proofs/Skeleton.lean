import VisualBasic.Proofs.Forest
import VisualBasic.Tree.Sexp

/-!
# The skeleton of a tree

The named structure of a tree: of each named node its kind and its named children in order, each
with the role that it plays. An s-expression is a skeleton written down, and no two skeletons are
written down alike. The names of rules and roles are words; a word ends where the first other
character stands, and what stands there tells what comes next. A blank leads to a child and a
parenthesis closes the node; behind the blank a parenthesis opens the child, and a word is the role
that the child plays.

Main results:

* `Node.sexp_eq_text` — the s-expression of a node is its skeleton written down.
* `Skeleton.text_unambiguous` — what is written of a skeleton in front of a text tells the skeleton
  and where the text begins.
* `sexp_eq_iff_skeleton_eq` — two trees have one s-expression exactly if they have one skeleton.
-/

namespace VisualBasic

/-- The kind of a node, and the skeletons of its named children with the roles that they play. -/
inductive Skeleton where
  | mk (kind : NodeKind) (parts : List (Option Field × Skeleton))

namespace Node

mutual

/-- The named structure of a node. -/
def skeleton : Node → Skeleton
  | mk info children => .mk info.kind (skeletonParts children)

/-- The named ones among the nodes, with their roles. -/
def skeletonParts : List Node → List (Option Field × Skeleton)
  | [] => []
  | n :: rest =>
    if n.isNamed then (n.field, n.skeleton) :: skeletonParts rest else skeletonParts rest

end

theorem skeletonParts_eq (ns : List Node) :
    skeletonParts ns = (ns.filter isNamed).map fun n => (n.field, n.skeleton) := by
  induction ns with
  | nil => rfl
  | cons n rest ih =>
    rw [skeletonParts, ih]
    by_cases hn : n.isNamed = true
    · rw [if_pos hn, List.filter_cons_of_pos hn, List.map_cons]
    · rw [if_neg hn, List.filter_cons_of_neg hn]

/-- The kind, and of the named children in order the role and the skeleton. -/
theorem skeleton_eq (n : Node) :
    n.skeleton = .mk n.kind (n.namedChildren.map fun c => (c.field, c.skeleton)) := by
  cases n with
  | mk info children =>
    rw [skeleton, skeletonParts_eq, namedChildren, kind, Node.info, Node.children]

end Node

-- ---------------------------------------------------------------------------
-- Skeletons written down
-- ---------------------------------------------------------------------------

namespace Skeleton

/-- What stands in front of a part that plays the role, or none. -/
def lead : Option Field → String
  | some f => s!" {f.toText}: "
  | none => " "

mutual

def text : Skeleton → String
  | mk kind parts => "(" ++ kind.name ++ texts parts ++ ")"

/-- The parts one behind the other, each with its lead. -/
def texts : List (Option Field × Skeleton) → String
  | [] => ""
  | (role, part) :: rest => lead role ++ part.text ++ texts rest

end

end Skeleton

namespace Node

mutual

/-- The s-expression of a node is its skeleton written down. -/
theorem sexp_eq_text (n : Node) : n.sexp = n.skeleton.text :=
  match n with
  | mk _ children => by rw [sexp, skeleton, Skeleton.text, sexpsNamed_eq_texts children]

theorem sexpsNamed_eq_texts (ns : List Node) : sexpsNamed ns = Skeleton.texts (skeletonParts ns) :=
  match ns with
  | [] => rfl
  | n :: rest => by
    rw [sexpsNamed, skeletonParts, sexpsNamed_eq_texts rest, sexp_eq_text n]
    split
    · rw [Skeleton.texts]
      rfl
    · rfl

end

end Node

-- ---------------------------------------------------------------------------
-- Words
-- ---------------------------------------------------------------------------

theorem Rule.continuesWord_of_mem_toText (r : Rule) :
    ∀ c ∈ r.toText.toList, Text.continuesWord c = true :=
  List.all_eq_true.1 <|
    (by decide +kernel : ∀ r ∈ all, r.toText.toList.all Text.continuesWord = true) r (mem_all r)

theorem Field.continuesWord_of_mem_toText (f : Field) :
    ∀ c ∈ f.toText.toList, Text.continuesWord c = true :=
  List.all_eq_true.1 <|
    (by decide +kernel : ∀ f ∈ all, f.toText.toList.all Text.continuesWord = true) f (mem_all f)

/-- A word and what ends it are known from the text that they begin. -/
theorem Text.word_append_inj {a b r s : List Char} {c d : Char}
    (ha : ∀ x ∈ a, continuesWord x = true) (hb : ∀ x ∈ b, continuesWord x = true)
    (hc : continuesWord c = false) (hd : continuesWord d = false) (h : a ++ c :: r = b ++ d :: s) :
    a = b ∧ c = d ∧ r = s := by
  have hword {u t : List Char} {e : Char} (hu : ∀ x ∈ u, continuesWord x = true)
      (he : continuesWord e = false) : (u ++ e :: t).takeWhile continuesWord = u := by
    rw [List.takeWhile_append_of_pos hu, List.takeWhile_cons_of_neg (Bool.eq_false_iff.1 he),
      List.append_nil]
  obtain rfl : a = b := by rw [← hword (t := r) ha hc, h, hword hb hd]
  exact ⟨rfl, List.cons.inj (List.append_cancel_left h)⟩

-- ---------------------------------------------------------------------------
-- Reading skeletons back
-- ---------------------------------------------------------------------------

namespace Skeleton

mutual

/-- All kinds in a skeleton are those of named nodes. -/
def IsNamed : Skeleton → Prop
  | mk kind parts => kind.isNamed = true ∧ AreNamed parts

def AreNamed : List (Option Field × Skeleton) → Prop
  | [] => True
  | (_, part) :: rest => part.IsNamed ∧ AreNamed rest

end

variable {r s : List Char}

theorem toList_text (kind : NodeKind) (parts : List (Option Field × Skeleton)) (r : List Char) :
    (text (mk kind parts)).toList ++ r =
      '(' :: (kind.name.toList ++ ((texts parts).toList ++ ')' :: r)) := by
  simp [text]

theorem toList_texts_cons (role : Option Field) (part : Skeleton)
    (rest : List (Option Field × Skeleton)) (r : List Char) :
    (texts ((role, part) :: rest)).toList ++ r =
      (lead role).toList ++ (part.text.toList ++ ((texts rest).toList ++ r)) := by
  simp [texts]

theorem toList_lead (f : Field) (r : List Char) :
    (lead (some f)).toList ++ r = ' ' :: (f.toText.toList ++ ':' :: ' ' :: r) := by
  simp [lead, toString]

/-- What follows the name of a rule is no part of it. -/
theorem exists_texts_eq_cons (parts : List (Option Field × Skeleton)) (r : List Char) :
    ∃ c t, Text.continuesWord c = false ∧ (texts parts).toList ++ ')' :: r = c :: t := by
  match parts with
  | [] => exact ⟨')', r, rfl, rfl⟩
  | (none, part) :: rest => exact ⟨' ', _, rfl, toList_texts_cons _ _ _ _⟩
  | (some f, part) :: rest =>
    rw [toList_texts_cons, toList_lead]
    exact ⟨' ', _, rfl, rfl⟩

/-- The name of a rule in front of what follows it tells the rule. -/
theorem rule_unambiguous {x y : Rule} {parts parts' : List (Option Field × Skeleton)}
    (h : x.toText.toList ++ ((texts parts).toList ++ ')' :: r) =
      y.toText.toList ++ ((texts parts').toList ++ ')' :: s)) :
    x = y ∧ (texts parts).toList ++ ')' :: r = (texts parts').toList ++ ')' :: s := by
  obtain ⟨c, t, hc, hparts⟩ := exists_texts_eq_cons parts r
  obtain ⟨d, u, hd, hparts'⟩ := exists_texts_eq_cons parts' s
  rw [hparts, hparts'] at h ⊢
  obtain ⟨hname, rfl, rfl⟩ := Text.word_append_inj x.continuesWord_of_mem_toText
    y.continuesWord_of_mem_toText hc hd h
  exact ⟨Rule.toText_injective (String.toList_inj.1 hname), rfl⟩

/-- A lead in front of a parenthesis tells the role. -/
theorem lead_unambiguous {role role' : Option Field}
    (h : (lead role).toList ++ '(' :: r = (lead role').toList ++ '(' :: s) :
    role = role' ∧ r = s := by
  match role, role' with
  | none, none => exact ⟨rfl, (List.cons.inj (List.append_cancel_left h)).2⟩
  | some f, some g =>
    rw [toList_lead, toList_lead] at h
    obtain ⟨hname, -, hrest⟩ := Text.word_append_inj f.continuesWord_of_mem_toText
      g.continuesWord_of_mem_toText rfl rfl (List.cons.inj h).2
    rw [Field.toText_injective (String.toList_inj.1 hname)]
    exact ⟨rfl, (List.cons.inj (List.cons.inj hrest).2).2⟩
  -- The name of a role would have to begin with a parenthesis.
  | none, some g =>
    rw [toList_lead] at h
    obtain ⟨-, hcolon, -⟩ :=
      Text.word_append_inj (a := []) nofun g.continuesWord_of_mem_toText rfl rfl
      (List.cons.inj h).2
    cases hcolon
  | some f, none =>
    rw [toList_lead] at h
    obtain ⟨-, hcolon, -⟩ :=
      Text.word_append_inj (b := []) f.continuesWord_of_mem_toText nofun rfl rfl
      (List.cons.inj h).2
    cases hcolon

/-- A part in front of a text tells its role. -/
theorem part_unambiguous {role role' : Option Field} {k l : Skeleton}
    (h : (lead role).toList ++ (k.text.toList ++ r) = (lead role').toList ++ (l.text.toList ++ s)) :
    role = role' ∧ k.text.toList ++ r = l.text.toList ++ s := by
  cases k
  cases l
  rw [toList_text, toList_text] at h ⊢
  obtain ⟨hrole, hrest⟩ := lead_unambiguous h
  exact ⟨hrole, congrArg _ hrest⟩

/-- Another part begins otherwise than the end of the node. -/
theorem texts_cons_ne (role : Option Field) (part : Skeleton)
    (rest : List (Option Field × Skeleton)) :
    (texts ((role, part) :: rest)).toList ++ r ≠ ')' :: s := by
  rw [toList_texts_cons]
  cases role with
  | none => exact fun h => absurd (List.cons.inj h).1 (by decide)
  | some f =>
    rw [toList_lead]
    exact fun h => absurd (List.cons.inj h).1 (by decide)

mutual

/-- What is written of a skeleton in front of a text tells the skeleton and where the text
begins. -/
theorem text_unambiguous (k l : Skeleton) {r s : List Char} (hk : k.IsNamed) (hl : l.IsNamed)
    (h : k.text.toList ++ r = l.text.toList ++ s) : k = l ∧ r = s :=
  match k, l with
  | mk (.rule x) parts, mk (.rule y) parts' => by
    rw [toList_text, toList_text] at h
    obtain ⟨rfl, hparts⟩ := rule_unambiguous (List.cons.inj h).2
    obtain ⟨rfl, hrest⟩ := texts_unambiguous parts parts' hk.2 hl.2 hparts
    exact ⟨rfl, hrest⟩

theorem texts_unambiguous (ks ls : List (Option Field × Skeleton)) {r s : List Char}
    (hks : AreNamed ks)
    (hls : AreNamed ls) (h : (texts ks).toList ++ ')' :: r = (texts ls).toList ++ ')' :: s) :
    ks = ls ∧ r = s :=
  match ks, ls with
  | [], [] => ⟨rfl, (List.cons.inj h).2⟩
  | [], _ :: _ => absurd h.symm (texts_cons_ne _ _ _)
  | _ :: _, [] => absurd h (texts_cons_ne _ _ _)
  | (role, part) :: rest, (role', part') :: rest' => by
    rw [toList_texts_cons, toList_texts_cons] at h
    obtain ⟨rfl, hpart⟩ := part_unambiguous h
    obtain ⟨rfl, hrest⟩ := text_unambiguous part part' hks.1 hls.1 hpart
    obtain ⟨rfl, hbehind⟩ := texts_unambiguous rest rest' hks.2 hls.2 hrest
    exact ⟨rfl, hbehind⟩

end

end Skeleton

-- ---------------------------------------------------------------------------
-- Trees
-- ---------------------------------------------------------------------------

namespace Node

mutual

theorem isNamed_skeleton (n : Node) (h : n.isNamed = true) : n.skeleton.IsNamed :=
  match n with
  | mk _ children => ⟨h, areNamed_skeletonParts children⟩

theorem areNamed_skeletonParts (ns : List Node) : Skeleton.AreNamed (skeletonParts ns) :=
  match ns with
  | [] => trivial
  | n :: rest => by
    rw [skeletonParts]
    split
    · exact ⟨isNamed_skeleton n ‹_›, areNamed_skeletonParts rest⟩
    · exact areNamed_skeletonParts rest

end

theorem sexp_eq_iff {n m : Node} (hn : n.isNamed = true) (hm : m.isNamed = true) :
    n.sexp = m.sexp ↔ n.skeleton = m.skeleton := by
  rw [sexp_eq_text, sexp_eq_text]
  refine ⟨fun h => ?_, congrArg Skeleton.text⟩
  have happend : n.skeleton.text.toList ++ [] = m.skeleton.text.toList ++ [] := by rw [h]
  exact (Skeleton.text_unambiguous _ _ (n.isNamed_skeleton hn) (m.isNamed_skeleton hm) happend).1

end Node

/-- The s-expressions of two sources are equal exactly if their trees have the same skeleton. -/
theorem sexp_eq_iff_skeleton_eq (source source' : List Char) (limits limits' : Limits) :
    (Tree.ofTokens source (TokenStream.ofText source) limits.maxNestingDepth).sexp =
        (Tree.ofTokens source' (TokenStream.ofText source') limits'.maxNestingDepth).sexp ↔
      (Tree.ofTokens source (TokenStream.ofText source) limits.maxNestingDepth).root.skeleton =
        (Tree.ofTokens source' (TokenStream.ofText source')
          limits'.maxNestingDepth).root.skeleton := by
  obtain ⟨_, _, _, hroot, -⟩ :=
    Tree.reading_ofTokens source (TokenStream.ofText source) limits.maxNestingDepth
  obtain ⟨_, _, _, hroot', -⟩ :=
    Tree.reading_ofTokens source' (TokenStream.ofText source') limits'.maxNestingDepth
  refine Node.sexp_eq_iff ?_ ?_
  · rw [hroot]
    rfl
  · rw [hroot']
    rfl

end VisualBasic
