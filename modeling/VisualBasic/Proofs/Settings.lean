import Mathlib.Data.List.Nodup
import Mathlib.Data.List.TakeWhile
import Mathlib.Tactic.IntervalCases
import VisualBasic.Limits.Configuration

/-!
# Settings

A document of TOML in which sections give numbers to names, one on a line, and the limits that such
a document configures.

Main results:

* `Toml.scalar?_toDigits` — the decimal digits of a number are the number.
* `Toml.document?_sectionLines` — a document of settings is read as the sections it is written from.
* `Limits.ofToml_settings` — any reasonable values can be given to any of the limits, and the others
  keep their defaults.
-/

namespace VisualBasic

namespace Toml

-- ---------------------------------------------------------------------------
-- Numbers
-- ---------------------------------------------------------------------------

theorem digit?_isDigit {c : Char} (h : c.isDigit = true) :
    digit? 10 c = some (c.toNat - '0'.toNat) := by
  have hle : c.toNat ≤ '9'.toNat := by
    simp only [Char.isDigit, Bool.and_eq_true, decide_eq_true_eq, UInt32.le_iff_toNat_le] at h
    exact h.2
  have hlt : c.toNat - '0'.toNat < 10 := by
    simp only [Char.reduceToNat] at hle ⊢
    omega
  simp only [digit?, h, if_true, hlt]

section

variable {run : List Char} (h : ∀ c ∈ run, c.isDigit = true)

include h

theorem ne_of_mem_digits {c d : Char} (hd : d.isDigit = false) (hc : c ∈ run) : c ≠ d := by
  rintro rfl
  rw [h c hc] at hd
  cases hd

theorem ne_cons_of_digits {d : Char} (hd : d.isDigit = false) (rest : List Char) :
    run ≠ d :: rest := by
  rintro rfl
  exact ne_of_mem_digits h hd List.mem_cons_self rfl

theorem mapM_digit?_digits :
    run.mapM (digit? 10) = some (run.map fun c => c.toNat - '0'.toNat) := by
  induction run with
  | nil => rfl
  | cons c rest ih =>
    rw [List.forall_mem_cons] at h
    rw [List.mapM_cons, digit?_isDigit h.1, ih h.2]
    rfl

theorem grouped?_digits (hne : run ≠ []) :
    grouped? 10 run = some (run.map fun c => c.toNat - '0'.toNat) := by
  have hone : run.splitOn '_' = [run] :=
    List.splitOn_eq_singleton_of_beq_eq_false fun c hc =>
      beq_false_of_ne (ne_of_mem_digits h rfl hc)
  rw [grouped?_eq, hone, if_neg (by simpa using hne), List.flatten_singleton,
    mapM_digit?_digits h]

/-- What is behind a number of fixed length in a run of digits is no other character. -/
theorem behind?_digits {n m : Nat} {rest : List Char} {d : Char} (hd : d.isDigit = false)
    (hfixed : fixed? n run = some (m, rest)) : behind? d rest = none := by
  obtain ⟨digits, -, hrest⟩ := Option.bind_eq_some_iff.1 hfixed
  split at hrest
  · obtain rfl : run.drop n = rest := (Prod.mk.inj (Option.some.inj hrest)).2
    cases hdrop : run.drop n with
    | nil => rfl
    | cons c rest =>
      have hc : c ∈ run := List.mem_of_mem_drop (hdrop ▸ List.mem_cons_self)
      rw [behind?, if_neg]
      exact fun heq => ne_of_mem_digits h hd hc (beq_iff_eq.1 heq).symm
  · cases hrest

/-- A date has a hyphen behind its year. -/
theorem date?_digits : date? run = none := by
  rw [date?]
  cases hfixed : fixed? 4 run with
  | none => rfl
  | some found =>
    obtain ⟨m, rest⟩ := found
    simp [behind?_digits h (d := '-') rfl hfixed]

/-- A time of day has a colon behind its hour. -/
theorem isTime_digits : isTime run = false := by
  have hclock : clock? run = none := by
    rw [clock?, minute?]
    cases hfixed : fixed? 2 run with
    | none => rfl
    | some found =>
      obtain ⟨m, rest⟩ := found
      simp [behind?_digits h (d := ':') rfl hfixed]
  rw [isTime, date?_digits h, hclock]
  rfl

theorem splitSign_digits : splitSign run = (false, run) := by
  unfold splitSign
  split
  · exact absurd rfl (ne_cons_of_digits h (by decide) _)
  · exact absurd rfl (ne_cons_of_digits h (by decide) _)
  · rfl

/-- Without a fraction and an exponent there is no floating-point number. -/
theorem isFloat_digits : isFloat run = false := by
  have hpart : ∀ c ∈ run, (c.isDigit || c == '_') = true := fun c hc => by rw [h c hc]; rfl
  have hdecimal : decimal? run = none := by
    rw [decimal?]
    simp only [List.dropWhile_eq_nil_iff.2 hpart]
    cases whole? _ <;> rfl
  have hinf : (run == ['i', 'n', 'f']) = false :=
    beq_false_of_ne (ne_cons_of_digits h (by decide) _)
  have hnan : (run == ['n', 'a', 'n']) = false :=
    beq_false_of_ne (ne_cons_of_digits h (by decide) _)
  rw [isFloat, splitSign_digits h]
  simp only [hinf, hnan, hdecimal]
  rfl

end

theorem isDigit_of_mem_toDigits {n : Nat} : ∀ c ∈ Nat.toDigits 10 n, c.isDigit = true :=
  fun _ hc => Nat.isDigit_of_mem_toDigits (by decide) (by decide) hc

theorem exists_toDigits_eq_cons (n : Nat) : ∃ c more, Nat.toDigits 10 n = c :: more :=
  List.exists_cons_of_ne_nil Nat.toDigits_ne_nil

theorem ofDigits_toDigits (n : Nat) :
    ofDigits 10 ((Nat.toDigits 10 n).map fun c => c.toNat - '0'.toNat) = n := by
  conv_rhs => rw [← Nat.ofDigitChars_ten_toDigits (n := n)]
  rw [ofDigits, List.foldl_map, Nat.ofDigitChars_eq_foldl]
  simp only [Nat.mul_comm]

/-- Only zero is written with a zero in front. -/
theorem toDigits_ne_zero_cons {n : Nat} (hn : 0 < n) (rest : List Char) :
    Nat.toDigits 10 n ≠ '0' :: rest := by
  induction n using Nat.strongRecOn generalizing rest with
  | ind n ih =>
    rw [Nat.toDigits_eq_if (by decide)]
    split
    · rename_i hlt
      intro heq
      have hzero := (List.cons.inj heq).1
      interval_cases n <;> cases hzero
    · rename_i hge
      intro heq
      obtain ⟨c, more, hc⟩ := exists_toDigits_eq_cons (n / 10)
      rw [hc, List.cons_append] at heq
      exact ih (n / 10) (by omega) (by omega) more (by rw [hc, (List.cons.inj heq).1])

theorem whole?_toDigits (n : Nat) : whole? (Nat.toDigits 10 n) = some n := by
  rcases Nat.eq_zero_or_pos n with rfl | hn
  · rfl
  · unfold whole?
    split
    · next heq => exact absurd heq (toDigits_ne_zero_cons hn _)
    · next heq => exact absurd heq (toDigits_ne_zero_cons hn _)
    · rw [grouped?_digits isDigit_of_mem_toDigits Nat.toDigits_ne_nil, Option.map_some,
        ofDigits_toDigits]

/-- The decimal digits of a number are the number, if it fits into sixty-four bits. -/
theorem scalar?_toDigits {n : Nat} (hn : n < 0x8000000000000000) :
    scalar? (Nat.toDigits 10 n) = some (.integer n) := by
  have hdigits : ∀ c ∈ Nat.toDigits 10 n, c.isDigit = true := isDigit_of_mem_toDigits
  have hinteger : integer? (Nat.toDigits 10 n) = some n := by
    unfold integer?
    split
    · next heq => exact absurd rfl (ne_of_mem_digits hdigits (d := 'x') (by decide) (by simp [heq]))
    · next heq => exact absurd rfl (ne_of_mem_digits hdigits (d := 'o') (by decide) (by simp [heq]))
    · next heq => exact absurd rfl (ne_of_mem_digits hdigits (d := 'b') (by decide) (by simp [heq]))
    · simp only [splitSign_digits hdigits, whole?_toDigits]
      refine Option.filter_eq_some_iff.2 ⟨rfl, ?_⟩
      simp only [Bool.and_eq_true, decide_eq_true_eq]
      omega
  have htrue : (Nat.toDigits 10 n == ['t', 'r', 'u', 'e']) = false :=
    beq_false_of_ne (ne_cons_of_digits hdigits (by decide) _)
  have hfalse : (Nat.toDigits 10 n == ['f', 'a', 'l', 's', 'e']) = false :=
    beq_false_of_ne (ne_cons_of_digits hdigits (by decide) _)
  simp only [scalar?, htrue, hfalse, isTime_digits hdigits, isFloat_digits hdigits, hinteger]
  rfl

-- ---------------------------------------------------------------------------
-- Lines
-- ---------------------------------------------------------------------------

/-- A name that may stand as a key without quotes. -/
structure IsBareKey (name : String) : Prop where
  ne_nil : name.toList ≠ []
  chars : ∀ c ∈ name.toList, isKeyChar c = true

theorem IsBareKey.exists_cons {name : String} (h : IsBareKey name) :
    ∃ c more, name.toList = c :: more ∧ isKeyChar c = true := by
  obtain ⟨c, more, hname⟩ := List.exists_cons_of_ne_nil h.ne_nil
  exact ⟨c, more, hname, h.chars c (by simp [hname])⟩

/-- The line that gives a number to a name. -/
def settingLine (setting : String × Nat) : List Char :=
  setting.1.toList ++ ' ' :: '=' :: ' ' :: (Nat.toDigits 10 setting.2 ++ ['\n'])

theorem settingLine_append (setting : String × Nat) (rest : List Char) :
    settingLine setting ++ rest = setting.1.toList ++
      ' ' :: ('=' :: ' ' :: (Nat.toDigits 10 setting.2 ++ '\n' :: rest)) := by
  simp [settingLine]

/-- A header and the lines below it. -/
def sectionLines (part : String × List (String × Nat)) : List Char :=
  '[' :: (part.1.toList ++ ']' :: '\n' :: part.2.flatMap settingLine)

/-- The pair that a setting is read as. -/
def settingPair (setting : String × Nat) : Pair := (⟨[], setting.1⟩, .integer setting.2)

/-- The section that a header and its lines are read as. -/
def settingSection (part : String × List (String × Nat)) : Section :=
  ⟨⟨[], part.1⟩, false, part.2.map settingPair⟩

/-- A text that begins with a header or holds nothing. -/
inductive OpensSections : List Char → Prop
  | done : OpensSections []
  | header (rest : List Char) : OpensSections ('[' :: rest)

theorem opensSections_sectionLines (parts : List (String × List (String × Nat))) :
    OpensSections (parts.flatMap sectionLines) := by
  cases parts with
  | nil => exact .done
  | cons part parts => exact .header _

namespace Reader

variable {text rest : List Char}

theorem run_bind {α β : Type} {r : Reader α} {f : α → Reader β} {a : α}
    (h : r.run text = some (a, rest)) : (r >>= f).run text = (f a).run rest := by
  rw [StateT.run_bind, h]
  rfl

theorem run_get : (get : Reader (List Char)).run text = some (text, text) := rfl

theorem run_modify {f : List Char → List Char} :
    (modify f : Reader Unit).run text = some ((), f text) := rfl

theorem run_set : (set text : Reader Unit).run rest = some ((), text) := rfl

theorem run_peek : peek.run text = some (text.head?, text) := rfl

theorem run_skipBlanks : skipBlanks.run text = some ((), text.dropWhile isBlank) := rfl

theorem run_accept {sign : String} {c : Char} (hsign : sign.toList = [c]) :
    (accept sign).run (c :: rest) = some (true, rest) := by
  simp [accept, hsign, List.isPrefixOf?]

theorem run_accept_of_ne {sign : String} {c : Char} (hsign : sign.toList = [c])
    (h : text.head? ≠ some c) : (accept sign).run text = some (false, text) := by
  cases text with
  | nil => simp [accept, hsign, List.isPrefixOf?]
  | cons d rest =>
    have hne : (c == d) = false := beq_false_of_ne fun hd => h (by rw [hd]; rfl)
    simp [accept, hsign, List.isPrefixOf?, hne]

theorem run_expect {sign : String} {c : Char} (hsign : sign.toList = [c]) :
    (expect sign).run (c :: rest) = some ((), rest) := by
  rw [expect, run_bind (run_accept hsign)]
  rfl

theorem run_lineEnd : lineEnd.run ('\n' :: rest) = some ((), rest) := by
  rw [lineEnd, run_bind run_skipBlanks]
  change ((accept "#" >>= fun _ => _ : Reader Unit).run ('\n' :: rest)) = _
  rw [run_bind (run_accept_of_ne (c := '#') rfl (by simp))]
  change ((peek >>= fun _ => _ : Reader Unit).run ('\n' :: rest)) = _
  rw [run_bind run_peek, run_bind (run_accept (c := '\n') rfl)]
  rfl

theorem isKeyChar_ne {c d : Char} (hc : isKeyChar c = true) (hd : isKeyChar d = false) : c ≠ d := by
  rintro rfl
  rw [hc] at hd
  cases hd

theorem dropWhile_isBlank_bare {name : String} (h : IsBareKey name) (rest : List Char) :
    (name.toList ++ rest).dropWhile isBlank = name.toList ++ rest := by
  obtain ⟨c, more, hname, hc⟩ := h.exists_cons
  have hblank : isBlank c = false := by
    simp [isBlank, isKeyChar_ne hc (d := ' ') rfl, isKeyChar_ne hc (d := '\t') rfl]
  rw [hname, List.cons_append, List.dropWhile_cons_of_neg (by simp [hblank])]

theorem run_keyPart {name : String} {d : Char} (h : IsBareKey name) (hd : isKeyChar d = false) :
    keyPart.run (name.toList ++ d :: rest) = some (name, d :: rest) := by
  obtain ⟨c, more, hname, hc⟩ := h.exists_cons
  have htake : (name.toList ++ d :: rest).takeWhile isKeyChar = name.toList := by
    rw [List.takeWhile_append_of_pos h.chars, List.takeWhile_cons_of_neg (by simp [hd]),
      List.append_nil]
  have hempty : name.toList.isEmpty = false := by rw [hname]; rfl
  rw [keyPart, run_bind run_peek]
  have hhead : (name.toList ++ d :: rest).head? = some c := by rw [hname]; rfl
  rw [hhead]
  split
  · next heq => exact absurd (Option.some.inj heq) (isKeyChar_ne hc rfl)
  · next heq => exact absurd (Option.some.inj heq) (isKeyChar_ne hc rfl)
  · rw [run_bind run_get]
    simp only [htake, hempty]
    rw [if_neg (by decide), run_bind run_modify, List.drop_left, String.ofList_toList]
    rfl

/-- A key of one part ends at the first character that is no part of it, but for the blanks. -/
theorem run_key {name : String} {d e : Char} {text : List Char} (h : IsBareKey name)
    (hd : isKeyChar d = false) (hrest : (d :: rest).dropWhile isBlank = e :: text) (he : e ≠ '.') :
    key.run (name.toList ++ d :: rest) = some (⟨[], name⟩, e :: text) := by
  have hparts : (keyParts maxKeyParts).run (name.toList ++ d :: rest) =
      some ([name], e :: text) := by
    rw [maxKeyParts, keyParts, run_bind run_skipBlanks, dropWhile_isBlank_bare h,
      run_bind (run_keyPart h hd), run_bind run_skipBlanks, hrest,
      run_bind (run_accept_of_ne (c := '.') rfl (by simpa using he))]
    rfl
  rw [key, run_bind hparts]
  rfl

theorem isScalarChar_of_isDigit {c : Char} (h : c.isDigit = true) : isScalarChar c = true := by
  simp [isScalarChar, Char.isAlphanum, h]

theorem run_scalar {n : Nat} (hn : n < 0x8000000000000000) :
    scalar.run (Nat.toDigits 10 n ++ '\n' :: rest) = some (.integer n, '\n' :: rest) := by
  have hrun : ∀ c ∈ Nat.toDigits 10 n, isScalarChar c = true := fun c hc =>
    isScalarChar_of_isDigit (isDigit_of_mem_toDigits c hc)
  have htake : (Nat.toDigits 10 n ++ '\n' :: rest).takeWhile isScalarChar = Nat.toDigits 10 n := by
    rw [List.takeWhile_append_of_pos hrun, List.takeWhile_cons_of_neg (by decide), List.append_nil]
  have hdrop : (Nat.toDigits 10 n ++ '\n' :: rest).dropWhile isScalarChar = '\n' :: rest := by
    rw [List.dropWhile_append_of_pos hrun, List.dropWhile_cons_of_neg (by decide)]
  rw [scalar, run_bind run_get]
  simp only [htake, hdrop, date?_digits isDigit_of_mem_toDigits]
  rw [run_bind run_set, scalar?_toDigits hn]
  rfl

/-- Digits begin no array, no table and no string. -/
theorem run_value {n : Nat} (hn : n < 0x8000000000000000) (depth : Nat) :
    (value depth).run (Nat.toDigits 10 n ++ '\n' :: rest) = some (.integer n, '\n' :: rest) := by
  obtain ⟨c, more, hc⟩ := exists_toDigits_eq_cons n
  have hother {d : Char} (hd : d.isDigit = false) :
      (Nat.toDigits 10 n ++ '\n' :: rest).head? ≠ some d := by
    rw [hc]
    intro heq
    exact ne_of_mem_digits isDigit_of_mem_toDigits hd (hc ▸ List.mem_cons_self)
      (Option.some.inj heq)
  have hsimple : simpleValue.run (Nat.toDigits 10 n ++ '\n' :: rest) =
      some (.integer n, '\n' :: rest) := by
    rw [simpleValue, run_bind run_peek]
    split
    · next heq => exact absurd heq (hother (by decide))
    · next heq => exact absurd heq (hother (by decide))
    · exact run_scalar hn
  cases depth with
  | zero => exact hsimple
  | succ depth =>
    rw [value, run_bind (run_accept_of_ne (c := '[') rfl (hother (by decide))), if_neg (by decide),
      run_bind (run_accept_of_ne (c := '\x7b') rfl (hother (by decide))), if_neg (by decide)]
    exact hsimple

theorem run_pair {setting : String × Nat} (h : IsBareKey setting.1)
    (hn : setting.2 < 0x8000000000000000) (depth : Nat) :
    (pair (value depth)).run (settingLine setting ++ rest) =
      some (settingPair setting, '\n' :: rest) := by
  have hdigits : (Nat.toDigits 10 setting.2 ++ '\n' :: rest).dropWhile isBlank =
      Nat.toDigits 10 setting.2 ++ '\n' :: rest := by
    obtain ⟨c, more, hc⟩ := exists_toDigits_eq_cons setting.2
    have hother {d : Char} (hd : d.isDigit = false) : c ≠ d :=
      ne_of_mem_digits isDigit_of_mem_toDigits hd (hc ▸ List.mem_cons_self)
    have hblank : isBlank c = false := by
      simp [isBlank, hother (d := ' ') rfl, hother (d := '\t') rfl]
    rw [hc, List.cons_append, List.dropWhile_cons_of_neg (by simp [hblank])]
  rw [settingLine_append, pair, run_bind (run_key h rfl rfl (by decide)), run_bind (run_expect rfl),
    run_bind run_skipBlanks]
  rw [List.dropWhile_cons_of_pos rfl, hdigits, run_bind (run_value hn depth)]
  rfl

theorem run_skipLines (h : dropLines text = some rest) : skipLines.run text = some ((), rest) := by
  rw [skipLines, run_bind run_get, h]
  rfl

theorem dropLines_bare {name : String} (h : IsBareKey name) (rest : List Char) :
    dropLines (name.toList ++ rest) = some (name.toList ++ rest) := by
  obtain ⟨c, more, hname, hc⟩ := h.exists_cons
  rw [hname, List.cons_append]
  unfold dropLines
  split
  · next heq => cases heq
  · next heq => exact absurd (List.cons.inj heq).1 (isKeyChar_ne hc rfl)
  · next heq =>
    obtain ⟨rfl, rfl⟩ := List.cons.inj heq
    simp [isBlank, isKeyChar_ne hc (d := ' ') rfl, isKeyChar_ne hc (d := '\t') rfl,
      isKeyChar_ne hc (d := '\n') rfl, isKeyChar_ne hc (d := '#') rfl]

theorem run_pairs {settings : List (String × Nat)} {bound : Nat}
    (h : ∀ s ∈ settings, IsBareKey s.1 ∧ s.2 < 0x8000000000000000)
    (hbound : settings.length < bound) (hrest : OpensSections rest) :
    (pairs bound).run (settings.flatMap settingLine ++ rest) =
      some (settings.map settingPair, rest) := by
  induction settings generalizing bound with
  | nil =>
    obtain ⟨bound, rfl⟩ := Nat.exists_eq_add_of_lt hbound
    cases hrest with
    | done => rfl
    | header rest =>
      rw [pairs, List.flatMap_nil, List.nil_append, run_bind (run_skipLines (by rfl)),
        run_bind run_peek]
      rfl
  | cons setting settings ih =>
    obtain ⟨bound, rfl⟩ := Nat.exists_eq_add_of_lt (Nat.zero_lt_of_lt hbound)
    rw [List.forall_mem_cons] at h
    rw [Nat.zero_add, List.length_cons, Nat.add_lt_add_iff_right] at hbound
    have hlines (rest : List Char) : dropLines (settingLine setting ++ rest) =
        some (settingLine setting ++ rest) := by
      rw [settingLine_append]
      exact dropLines_bare h.1.1 _
    obtain ⟨c, more, hname, hc⟩ := h.1.1.exists_cons
    have hhead (rest : List Char) : (settingLine setting ++ rest).head? = some c := by
      rw [settingLine_append, hname]
      rfl
    rw [Nat.zero_add, pairs, List.flatMap_cons, List.append_assoc,
      run_bind (run_skipLines (hlines _)), run_bind run_peek, hhead]
    split
    · next heq => cases heq
    · next heq => exact absurd (Option.some.inj heq) (isKeyChar_ne hc rfl)
    · rw [run_bind (run_pair h.1.1 h.1.2 _), run_bind run_lineEnd, run_bind (ih h.2 hbound)]
      rfl

theorem length_le_flatMap_settingLine (settings : List (String × Nat)) :
    settings.length ≤ (settings.flatMap settingLine).length := by
  induction settings with
  | nil => exact Nat.le_refl 0
  | cons setting settings ih =>
    simp only [List.flatMap_cons, List.length_append, List.length_cons, settingLine]
    omega

/-- The bound is on the number of characters, of which every header and every line has some. -/
theorem run_sections {parts : List (String × List (String × Nat))} {bound : Nat}
    (h : ∀ part ∈ parts, IsBareKey part.1 ∧
      ∀ s ∈ part.2, IsBareKey s.1 ∧ s.2 < 0x8000000000000000)
    (hbound : (parts.flatMap sectionLines).length < bound) :
    (sections bound).run (parts.flatMap sectionLines) = some (parts.map settingSection, []) := by
  induction parts generalizing bound with
  | nil =>
    obtain ⟨bound, rfl⟩ := Nat.exists_eq_add_of_lt hbound
    rfl
  | cons part parts ih =>
    obtain ⟨bound, rfl⟩ := Nat.exists_eq_add_of_lt (Nat.zero_lt_of_lt hbound)
    obtain ⟨⟨htitle, hsettings⟩, hparts⟩ := List.forall_mem_cons.1 h
    have hcount := length_le_flatMap_settingLine part.2
    have hlength : (part.2.flatMap settingLine).length + (parts.flatMap sectionLines).length <
        bound := by
      simp only [List.flatMap_cons, List.length_append, sectionLines, List.length_cons] at hbound
      omega
    have htext : (part :: parts).flatMap sectionLines = '[' :: (part.1.toList ++
        ']' :: ('\n' :: (part.2.flatMap settingLine ++ parts.flatMap sectionLines))) := by
      simp [sectionLines]
    obtain ⟨c, more, hname, hc⟩ := htitle.exists_cons
    have helement (rest : List Char) : (part.1.toList ++ rest).head? ≠ some '[' := by
      rw [hname]
      exact fun heq => isKeyChar_ne hc rfl (Option.some.inj heq)
    rw [Nat.zero_add, htext, sections, run_bind run_peek, if_neg (by simp),
      run_bind (run_expect rfl), run_bind (run_accept_of_ne (c := '[') rfl (helement _)),
      run_bind (run_key htitle rfl rfl (by decide)), run_bind (run_expect rfl),
      run_bind run_lineEnd,
      run_bind (run_pairs hsettings (by omega) (opensSections_sectionLines parts)),
      run_bind (ih hparts (by omega))]
    rfl

end Reader

/-- Without pairs in front of the first header, and so without a byte order mark, a document is its
sections. -/
theorem document?_eq {text : List Char} {sections : List Section} (h : OpensSections text)
    (hsections : (Reader.sections (text.length + 1)).run text = some (sections, [])) :
    document? text = Table.ofSections? [] sections := by
  have hpairs : (Reader.pairs (text.length + 1)).run text = some ([], text) := by
    change (Reader.pairs _).run ([].flatMap settingLine ++ text) = some ([].map settingPair, text)
    exact Reader.run_pairs (List.forall_mem_nil _) (Nat.succ_pos _) h
  have htext : document? text = ((do return (← Reader.pairs (text.length + 1),
      ← Reader.sections (text.length + 1)) : Reader (List Pair × List Section)).run text).bind
        fun read => Table.ofSections? read.1.1 read.1.2 := by
    cases h <;> rfl
  rw [htext, Reader.run_bind hpairs, Reader.run_bind hsections]
  rfl

/-- A document of settings is read as the sections that it is written from. -/
theorem document?_sectionLines {parts : List (String × List (String × Nat))}
    (h : ∀ part ∈ parts, IsBareKey part.1 ∧
      ∀ s ∈ part.2, IsBareKey s.1 ∧ s.2 < 0x8000000000000000) :
    document? (parts.flatMap sectionLines) = Table.ofSections? [] (parts.map settingSection) :=
  document?_eq (opensSections_sectionLines parts) (Reader.run_sections h (Nat.lt_succ_self _))

/-- Settings of different names make a table with an entry for each. -/
theorem foldlM_settingPair {settings : List (String × Nat)} {t : Table}
    (hdistinct : (settings.map Prod.fst).Nodup) (hfresh : ∀ s ∈ settings, t.lookup s.1 = none) :
    (settings.map settingPair).foldlM Table.addPair t =
      some (t ++ settings.map fun s => (s.1, .integer s.2)) := by
  induction settings generalizing t with
  | nil => simp
  | cons setting settings ih =>
    rw [List.map_cons, List.nodup_cons] at hdistinct
    rw [List.forall_mem_cons] at hfresh
    have hadd : Table.addPair t (settingPair setting) =
        some (t ++ [(setting.1, .integer setting.2)]) := by
      simp [Table.addPair, settingPair, Table.alter, Table.insertNew, hfresh.1]
    have hrest : ∀ s ∈ settings,
        (t ++ [(setting.1, Value.integer setting.2)]).lookup s.1 = none := by
      intro s hs
      have hne : s.1 ≠ setting.1 := fun heq => hdistinct.1 (heq ▸ List.mem_map_of_mem hs)
      rw [List.lookup_append, hfresh.2 s hs, List.lookup_cons, beq_false_of_ne hne]
      rfl
    rw [List.map_cons, List.foldlM_cons, hadd]
    refine (ih hdistinct.2 hrest).trans ?_
    simp

theorem ofSections?_settingSection {title : String} {settings : List (String × Nat)}
    (hdistinct : (settings.map Prod.fst).Nodup) :
    Table.ofSections? [] [settingSection (title, settings)] =
      some [(title, .table .header (settings.map fun s => (s.1, .integer s.2)))] := by
  have hpairs := foldlM_settingPair (t := []) hdistinct fun _ _ => List.lookup_nil
  rw [List.nil_append] at hpairs
  simp [Table.ofSections?, Table.addSection, settingSection, Table.alter, hpairs, Table.put]

end Toml

-- ---------------------------------------------------------------------------
-- Limits
-- ---------------------------------------------------------------------------

theorem LimitName.toText_injective {x y : LimitName} (h : x.toText = y.toText) : x = y :=
  Option.some.inj (by rw [← ofText?_toText x, h, ofText?_toText y])

theorem LimitName.isBareKey_toText (name : LimitName) : Toml.IsBareKey name.toText := by
  cases name <;> exact ⟨by decide, List.all_eq_true.1 (by decide)⟩

theorem isBareKey_limits : Toml.IsBareKey "limits" :=
  ⟨by decide, List.all_eq_true.1 (by decide)⟩

theorem LimitName.bound_lt (name : LimitName) : name.bound < 0x8000000000000000 := by
  cases name <;> decide

namespace Limits

theorem get_set_of_ne (l : Limits) (value : Nat) {name other : LimitName} (h : other ≠ name) :
    (l.set value name).get other = l.get other := by
  cases name <;> cases other <;> first | rfl | exact absurd rfl h

theorem setByName_integer (l : Limits) (name : LimitName) (n : Nat) :
    l.setByName name.toText (.integer n) = some (l.set n name) := by
  rw [setByName, LimitName.ofText?_toText]
  rfl

/-- Limits that are given in a row are each what is given for them, and the others stay. -/
theorem exists_foldlM_setByName (names : List LimitName) (values : LimitName → Nat) (l : Limits) :
    ∃ l', (names.map fun name => (name.toText, Toml.Value.integer (values name))).foldlM
        (fun l (name, value) => l.setByName name value) l = some l' ∧
      ∀ name, l'.get name = if name ∈ names then values name else l.get name := by
  induction names generalizing l with
  | nil => exact ⟨l, rfl, fun name => by simp⟩
  | cons first names ih =>
    obtain ⟨l', hl', hget⟩ := ih (l.set (values first) first)
    refine ⟨l', ?_, fun name => ?_⟩
    · rw [List.map_cons, List.foldlM_cons]
      simp only [setByName_integer]
      exact hl'
    · rw [hget name]
      by_cases hmem : name ∈ names
      · simp [hmem]
      · by_cases hname : name = first
        · subst hname
          simp [hmem, get_set]
        · simp [hmem, hname, get_set_of_ne l _ hname]

/-- A configuration that gives reasonable values to some of the limits, each once, gives the limits
these values, and the other limits have their defaults. -/
theorem ofToml_settings {names : List LimitName} (hdistinct : names.Nodup)
    {values : LimitName → Nat} (h : ∀ name ∈ names, 0 < values name ∧ values name ≤ name.bound) :
    ∃ l, ofToml (Toml.sectionLines ("limits",
        names.map fun name => (name.toText, values name))) = .ok l ∧
      ∀ name, l.get name = if name ∈ names then values name else ({} : Limits).get name := by
  obtain ⟨l, hl, hget⟩ := exists_foldlM_setByName names values {}
  refine ⟨l, ?_, hget⟩
  have hnames : ((names.map fun name => (name.toText, values name)).map Prod.fst).Nodup := by
    rw [List.map_map]
    exact List.Nodup.map (fun _ _ => LimitName.toText_injective) hdistinct
  have hbare : ∀ part ∈ [("limits", names.map fun name => (name.toText, values name))],
      Toml.IsBareKey part.1 ∧ ∀ s ∈ part.2, Toml.IsBareKey s.1 ∧ s.2 < 0x8000000000000000 := by
    refine List.forall_mem_singleton.2 ⟨isBareKey_limits, List.forall_mem_map.2 ?_⟩
    exact fun name hmem => ⟨name.isBareKey_toText, Nat.lt_of_le_of_lt (h name hmem).2 name.bound_lt⟩
  have hread : Toml.document? (Toml.sectionLines ("limits",
      names.map fun name => (name.toText, values name))) =
        some [("limits", .table .header
          (names.map fun name => (name.toText, .integer (values name))))] := by
    have hread := Toml.document?_sectionLines hbare
    rw [List.flatMap_singleton] at hread
    rw [hread, List.map_singleton, Toml.ofSections?_settingSection hnames, List.map_map]
    rfl
  have hreasonable : l.validate = .ok () := by
    refine validate_eq_ok_iff.2 fun name => ?_
    rw [isReasonable, hget name]
    split
    · next hmem => simpa using h name hmem
    · cases name <;> decide
  have hvalue : ofDocument? [("limits", .table .header
      (names.map fun name => (name.toText, .integer (values name))))] = some l := hl
  simp only [ofToml, hread, Option.bind_some, hvalue, hreasonable]

end Limits

end VisualBasic
