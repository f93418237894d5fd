import VisualBasic.Proofs.PassageLaws

/-!
# Passages side by side

Two runs of a passage over tokens that agree. Where all tokens agree, an error region of the one run
is one of the other, too, and both leave the same diagnostics behind. Where only those in front of
some token do, only runs without new diagnostics are compared. A quiet rule of an ambiguity that
does not fit in the one run does not fit in the other: if it did, it would not have gone past a
closing line, and so would have seen no more than tokens that agree.

Main results:

* `Passage.follows` — two runs of a passage over tokens that agree make the same.
-/

namespace VisualBasic

open Production State

theorem Failure.kind_diagnostic (f : Failure) (env : Env) (region : Span) :
    (f.diagnostic env region).kind = .grammatical := by
  unfold Failure.diagnostic Diagnostic.kind
  cases f.mismatch <;> rfl

section

variable {δ : Nat} {m : Sight} {env env' : Env} {s s' : State}

/-- An error region ends at the same token, where all tokens agree. -/
theorem Env.Alike.regionEnd {full : Bool} (h : env.Alike δ (.whole full) env') (inLine : Bool)
    (start i : Nat) : Production.regionEnd env' inLine (start + δ) (i + δ) =
      Production.regionEnd env inLine start i + δ := by
  have hkind (i : Nat) : env'.tokens.kindAt (i + δ) = env.tokens.kindAt i := h.kindAt i trivial
  have hnext (i : Nat) : env'.next (i + δ) = env.next i + δ := h.next trivial
  have hlt (i : Nat) : i + δ < env'.tokens.tokens.size ↔ i < env.tokens.tokens.size := by
    rw [h.size full rfl]
    exact Nat.add_lt_add_iff_right
  have hsucc (i : Nat) : i + δ + 1 = i + 1 + δ := Nat.add_right_comm i δ 1
  have hinside (i : Nat) :
      (inLine && decide (start + δ < i + δ)) = (inLine && decide (start < i)) := by
    rw [decide_eq_decide.2 Nat.add_lt_add_iff_right]
  -- Both runs take the same case in each round, as the token ahead is of the same kind.
  fun_induction Production.regionEnd env inLine start i with
  | case1 i hi => rw [Production.regionEnd, hkind, hi]
  | case2 i hi | case3 i hi => rw [Production.regionEnd, hkind, hi, ← hnext]
  | case4 i hi hin => rw [Production.regionEnd, hkind, hi, hinside, if_pos hin]
  | case5 i hi hin hi' ih =>
    rw [Production.regionEnd, hkind, hi, hinside, if_neg hin, if_pos ((hlt i).2 hi'), hsucc, ih]
  | case6 i hi hin hi' =>
    rw [Production.regionEnd, hkind, hi, hinside, if_neg hin, if_neg (mt (hlt i).1 hi')]
  | case7 i hi' h₁ h₂ h₃ h₄ ih =>
    rw [Production.regionEnd, hkind]
    split
    · exact absurd ‹_› h₁
    · exact absurd ‹_› h₂
    · exact absurd ‹_› h₃
    · exact absurd ‹_› h₄
    · rw [if_pos ((hlt i).2 hi'), hsucc, ih]
  | case8 i hi' h₁ h₂ h₃ h₄ =>
    rw [Production.regionEnd, hkind]
    split
    · exact absurd ‹_› h₁
    · exact absurd ‹_› h₂
    · exact absurd ‹_› h₃
    · exact absurd ‹_› h₄
    · rw [if_neg (mt (hlt i).1 hi')]

/-- A span begins where its first token does, or would do. -/
theorem Env.start_span (env : Env) {first cursor : Nat} (h : first ≤ cursor) :
    (env.span first cursor).start = (env.tokens.get first).span.start := by
  unfold Env.span
  split
  · rfl
  · obtain rfl : first = cursor := by omega
    rfl

theorem State.Alike.openBlock (hs : s.Alike δ m env.tokens env'.tokens s') (opener : Keyword)
    (l l' : Nat) : State.Alike δ m env.tokens env'.tokens
      { s with blocks := ⟨opener, l⟩ :: s.blocks }
      { s' with blocks := ⟨opener, l'⟩ :: s'.blocks } := by
  refine ⟨hs.cursor, hs.le_size, hs.children, hs.isPartial, ?_, hs.singleLineIfs, hs.diagnostics⟩
  rw [List.map_cons, List.map_cons, hs.openers]

theorem State.Alike.leaveBlock (hs : s.Alike δ m env.tokens env'.tokens s') :
    State.Alike δ m env.tokens env'.tokens { s with blocks := s.blocks.tail }
      { s' with blocks := s'.blocks.tail } := by
  refine ⟨hs.cursor, hs.le_size, hs.children, hs.isPartial, ?_, hs.singleLineIfs, hs.diagnostics⟩
  rw [List.map_tail, List.map_tail, hs.openers]

theorem State.Alike.count (hs : s.Alike δ m env.tokens env'.tokens s') (f : Nat → Nat) :
    State.Alike δ m env.tokens env'.tokens { s with singleLineIfs := f s.singleLineIfs }
      { s' with singleLineIfs := f s'.singleLineIfs } :=
  ⟨hs.cursor, hs.le_size, hs.children, hs.isPartial, hs.openers, congrArg f hs.singleLineIfs,
    hs.diagnostics⟩

/-- The same tokens agree if the runs change sides. -/
theorem Env.Alike.symm {bound stop : Nat} (h : env.Alike 0 (.upTo bound stop) env') :
    env'.Alike 0 (.upTo bound stop) env := by
  obtain ⟨hbound, hsize, hsize', hnewline⟩ := h.part bound stop rfl
  refine ⟨h.depth.symm, h.limit.symm, fun i hi => (h.kindAt i hi).symm, nofun, ?_, ?_⟩
  · rintro _ _ ⟨rfl, rfl⟩
    have hstop : stop - 1 < stop := by omega
    exact ⟨hbound, hsize', hsize, (h.kindAt _ hstop).trans hnewline⟩
  · rintro _ _ ⟨rfl, rfl⟩ i hi
    have hkind : env'.tokens.kindAt i = env.tokens.kindAt i := h.kindAt i hi
    rw [hkind]
    exact h.lasting bound stop rfl i hi

theorem State.Alike.symm {bound stop : Nat} {t t' : TokenStream}
    (h : s.Alike 0 (.upTo bound stop) t t' s') (hsize : s.cursor ≤ t'.tokens.size) :
    s'.Alike 0 (.upTo bound stop) t' t s := by
  refine ⟨h.cursor.symm, ?_, h.children.symm, h.isPartial.symm, h.openers.symm,
    h.singleLineIfs.symm,
    nofun⟩
  rw [h.cursor]
  exact hsize

end

namespace Production

variable {δ : Nat} {m : Sight} {env env' : Env} {s s' : State} {α β : Type} {r : α → β → Prop}

namespace Follows

/-- What leaves diagnostics behind is compared only where all tokens agree. -/
theorem loud {t t' : TokenStream} {result : EStateM.Result Failure State α}
    {result' : EStateM.Result Failure State β}
    (hloud : ∀ a s₁, result = .ok a s₁ → s.diagnostics.length < s₁.diagnostics.length)
    (hwhole : ∀ full, m = .whole full → Follows δ m r t t' s result result') :
    Follows δ m r t t' s result result' := by
  cases m with
  | whole full => exact hwhole full rfl
  | upTo bound stop =>
    cases result with
    | ok a s₁ => exact fun hadmits => absurd hadmits.2 (Nat.not_le_of_lt (hloud a s₁ rfl))
    | error f s₁ => exact nofun

theorem recover (f f' : Failure) (henv : env.Alike δ m env')
    (hs : s.Alike δ m env.tokens env'.tokens s') :
    Follows δ m (Node.Alike δ) env.tokens env'.tokens s (Production.recover f env s)
      (Production.recover f' env' s') := by
  refine loud (fun a s₁ hrun => ?_) fun full hm => ?_
  · cases hrun
    exact Nat.lt_succ_self _
  · subst hm
    have hend : regionEnd env' (0 < s'.singleLineIfs) s'.cursor s'.cursor =
        regionEnd env (0 < s.singleLineIfs) s.cursor s.cursor + δ := by
      rw [hs.cursor, hs.singleLineIfs, henv.regionEnd]
    -- The spans of the two regions begin at tokens `δ` apart, which is all that is said of them.
    have hbounds := regionEnd_bounds env (0 < s.singleLineIfs) s.cursor s.cursor hs.le_size
    refine fun _ => ⟨_, _, rfl, ?_, ?_⟩
    · change (Node.error _ _).Alike δ (Node.error _ _)
      rw [Node.Alike, Node.bare_error, Node.bare_error, hs.cursor]
      rfl
    · refine ⟨hend, hbounds.2, hs.children, hs.isPartial, hs.openers, hs.singleLineIfs,
        fun hm => .cons ?_ (hs.diagnostics hm)⟩
      refine ⟨(f.kind_diagnostic ..).trans (f'.kind_diagnostic ..).symm, s.cursor, hs.le_size,
        env.start_span hbounds.1, ?_⟩
      rw [← hs.cursor]
      refine env'.start_span ?_
      rw [hend, hs.cursor]
      exact Nat.add_le_add_right hbounds.1 δ

theorem missCloser (opener : Keyword) (hs : s.Alike δ m env.tokens env'.tokens s') :
    Follows δ m Eq env.tokens env'.tokens s (Production.missCloser opener env s)
      (Production.missCloser opener env' s') := by
  refine loud (fun a s₁ hrun => ?_) fun full hm => fun _ => ⟨(), _, rfl, rfl, ?_⟩
  · cases hrun
    exact Nat.lt_succ_self _
  · have hleft := hs.leaveBlock
    refine ⟨hs.cursor, hs.le_size, hs.children, rfl, hleft.openers, hs.singleLineIfs,
      fun hm => .cons ⟨rfl, s.cursor, hs.le_size, rfl, ?_⟩ (hs.diagnostics hm)⟩
    rw [hs.cursor]

theorem forM_take {word : Type} (words : List word) (henv : env.Alike δ m env')
    (hs : s.Alike δ m env.tokens env'.tokens s') (hreach : m.Reaches s.cursor) :
    Follows δ m Eq env.tokens env'.tokens s ((words.forM fun _ => Production.take) env s)
      ((words.forM fun _ => Production.take) env' s') := by
  induction words generalizing s s' with
  | nil => exact pure rfl hs
  | cons word rest ih =>
    exact bind hs.le_size Climbs.take (fun _ => Climbs.forM_take rest) (take henv hs hreach)
      fun _ _ _ _ _ _ hreach₁ hs₁ => ih hs₁ hreach₁

/-- Whether the closing line is there is the same in both runs. -/
theorem closeBlock (opener : Keyword) (henv : env.Alike δ m env')
    (hs : s.Alike δ m env.tokens env'.tokens s') (hreach : m.Reaches s.cursor) :
    Follows δ m Eq env.tokens env'.tokens s (Production.closeBlock opener env s)
      (Production.closeBlock opener env' s') := by
  -- Whether the closing words are ahead is told from the kinds of tokens in front of any line end.
  have hlook : Steady δ {} fun env s => env.atCloser s opener := by
    refine (Nearsighted.hasAhead fun hmem => ?_).steady
    obtain ⟨word, -, hword⟩ := List.mem_map.1 (List.dropLast_subset _ hmem)
    cases hword
  have hcloser : env'.atCloser s' opener = env.atCloser s opener :=
    hlook m env env' s s' henv hs hreach (Spot.holds_plain nofun)
  rw [closeBlock_eq, (Looks.test _).run_bind, (Looks.test _).run_bind, hcloser]
  split
  · have hwords :
        Climbs ((opener.closer.forM fun _ => Production.take) >>= fun _ => Pure.pure true) :=
      (Climbs.forM_take _).bind fun _ => Climbs.pure true
    refine bind hs.le_size Climbs.leaveBlock (fun _ => hwords)
      (fun _ => ⟨(), _, rfl, rfl, hs.leaveBlock⟩)
      fun _ _ s₁ s₁' _ _ hreach₁ hs₁ => ?_
    exact bind hs₁.le_size (Climbs.forM_take _) (fun _ => Climbs.pure true)
      (forM_take opener.closer henv hs₁ hreach₁) fun _ _ _ _ _ _ _ hs₂ => pure rfl hs₂
  · exact bind hs.le_size (Climbs.missCloser opener) (fun _ => Climbs.pure false)
      (missCloser opener hs)
      fun _ _ _ _ _ _ _ hs₁ => pure rfl hs₁

theorem orRecover {p p' : Parse Node} (henv : ∀ full, m = .whole full → env.Alike δ m env')
    (hs : s.Alike δ m env.tokens env'.tokens s')
    (hp : Follows δ m (Node.Alike δ) env.tokens env'.tokens s (p env s) (p' env' s')) :
    Follows δ m (Node.Alike δ) env.tokens env'.tokens s (p.orRecover env s)
    (p'.orRecover env' s') := by
  rw [Parse.orRecover_eq, Parse.orRecover_eq]
  cases hrun : p env s with
  | ok n s₁ =>
    rw [hrun] at hp
    intro hadmits
    obtain ⟨n', s₁', hrun', hn, hs₁⟩ := hp hadmits
    rw [hrun']
    exact ⟨n', s₁', rfl, hn, hs₁⟩
  | error f s₁ =>
    rw [hrun] at hp
    refine loud (fun a s₂ hrun₂ => ?_) fun full hm => ?_
    · cases hrun₂
      exact Nat.lt_succ_self _
    · obtain ⟨f', s₁', hrun', -⟩ := hp full hm
      rw [hrun']
      exact recover f f' (henv full hm) hs

/-- What was attached in front of an error region is the same, too. -/
theorem recovering {p p' : Parse Unit} (hclimbs : Climbs p)
    (henv : ∀ full, m = .whole full → env.Alike δ m env')
    (hs : s.Alike δ m env.tokens env'.tokens s')
    (hp : Follows δ m Eq env.tokens env'.tokens s (p env s) (p' env' s')) :
    Follows δ m Eq env.tokens env'.tokens s (p.recovering env s) (p'.recovering env' s') := by
  have hlater := hclimbs env s hs.le_size
  unfold Production.recovering
  cases hrun : p env s with
  | ok a s₁ =>
    rw [hrun] at hp
    intro hadmits
    obtain ⟨_, s₁', hrun', -, hs₁⟩ := hp hadmits
    rw [hrun']
    exact ⟨(), s₁', rfl, rfl, hs₁⟩
  | error f s₁ =>
    rw [hrun] at hp hlater
    -- Only where all tokens agree are two failures compared; elsewhere the region is a new
    -- diagnostic.
    refine loud (fun a s₂ hrun₂ => ?_) fun full hm => ?_
    · cases hrun₂
      exact Nat.lt_succ_of_le hlater.diagnostics.length_le
    · subst hm
      obtain ⟨f', s₁', hrun', hs₁⟩ := hp full rfl
      rw [hrun']
      exact bind hs₁.le_size (Climbs.recover f) Climbs.attach (recover f f' (henv full rfl) hs₁)
        fun _ _ _ _ hn _ _ hs₂ => attach hn hs₂

theorem inSingleLineIf {p p' : Parse Unit} (hclimbs : Climbs p)
    (hs : s.Alike δ m env.tokens env'.tokens s')
    (hp : ∀ s₁ s₁', s₁.cursor = s.cursor → State.Alike δ m env.tokens env'.tokens s₁ s₁' →
      Follows δ m Eq env.tokens env'.tokens s₁ (p env s₁) (p' env' s₁')) :
    Follows δ m Eq env.tokens env'.tokens s (p.inSingleLineIf env s)
    (p'.inSingleLineIf env' s') := by
  have hcount (f : Nat → Nat) : Climbs (modify fun s : State =>
      { s with singleLineIfs := f s.singleLineIfs } : Parse Unit) :=
    fun _ _ hs => ⟨Nat.le_refl _, hs, List.suffix_refl _⟩
  refine bind hs.le_size (hcount (· + 1)) (fun _ => hclimbs.bind fun _ => hcount (· - 1))
    (fun _ => ⟨(), _, rfl, rfl, hs.count (· + 1)⟩) fun _ _ s₁ s₁' _ hrun _ hs₁ => ?_
  cases hrun
  refine bind hs₁.le_size hclimbs (fun _ => hcount (· - 1)) (hp _ _ rfl hs₁)
    fun _ _ s₂ s₂' _ _ _ hs₂ => ?_
  exact fun _ => ⟨(), _, rfl, rfl, hs₂.count (· - 1)⟩

end Follows

/-- Behind the words of a closing line no statement has ended. -/
theorem inside_of_closeBlock {opener : Keyword} {env : Env} {s s' : State}
    (hrun : Production.closeBlock opener env s = .ok true s') : env.tokens.Inside s'.cursor := by
  by_cases hcloser : env.atCloser s opener = true
  · obtain ⟨hwords, hclose⟩ := run_closeBlock hcloser
    rw [hclose] at hrun
    cases hrun
    have hlength : 0 < opener.closer.length := by
      unfold Keyword.closer
      split
      all_goals exact Nat.succ_pos _
    -- The last of the words is the one in front of the cursor.
    have hlast :=
      hwords (opener.closer[opener.closer.length - 1], s.cursor + (opener.closer.length - 1))
      (List.mk_add_mem_zipIdx_iff_getElem?.2 (List.getElem?_eq_getElem _))
    refine ⟨Nat.add_pos_right _ hlength, ?_⟩
    rw [Nat.add_sub_assoc hlength, hlast]
    rfl
  · rw [closeBlock_eq, (Looks.test _).run_bind, if_neg hcloser] at hrun
    cases hrun

/-- A quiet part that does not fit in the one run does not fit in the other: if it did, it would not
have gone past the closing line that bounds what agrees. -/
theorem Phrase.error_of_error {lands : Bool} {p : Parse Node}
    (h : Phrase 0 false (.plain false) false lands (Node.Alike 0) p p) {bound stop : Nat}
    (henv : env.Alike 0 (.upTo bound stop) env')
    (hs : s.Alike 0 (.upTo bound stop) env.tokens env'.tokens s')
    (hreach : Sight.Reaches (.upTo bound stop) s.cursor) (hbars : env.tokens.Bars false bound)
    {f : Failure} {s₁ : State} (hrun : p env s = .error f s₁) :
    ∃ f' s₁', p env' s' = .error f' s₁' := by
  cases hrun' : p env' s' with
  | error f' s₁' => exact ⟨f', s₁', rfl⟩
  | ok n s₁' =>
    have hspot {env : Env} {s : State} : (Spot.plain false).Holds env s := Spot.holds_plain nofun
    obtain ⟨hstop, -, hstop', -⟩ := henv.part bound stop rfl
    have hsize : s.cursor ≤ env'.tokens.tokens.size :=
      Nat.le_trans hreach (Nat.le_trans (Nat.le_of_lt hstop) hstop')
    have hkind (i : Nat) (hi : i ≤ bound) : env'.tokens.kindAt i = env.tokens.kindAt i :=
      henv.kindAt i (Nat.lt_of_le_of_lt hi hstop)
    have hbars' : env'.tokens.Bars false bound := by
      refine ⟨hbars.1, ?_, ?_⟩
      · rw [hkind _ (Nat.sub_le bound 1)]
        exact hbars.2.1
      · rw [hkind bound (Nat.le_refl _)]
        exact hbars.2.2
    have hreach' : Sight.Reaches (.upTo bound stop) s'.cursor := by
      rw [hs.cursor]
      exact hreach
    have hskirts := h.skirts hspot hrun' hbars' hreach'
    have hquiet : s₁'.diagnostics = s'.diagnostics := by
      have honward := h.hushed env' s'
      rw [hrun'] at honward
      exact honward.diagnostics
    have hfollows := h.follows henv.symm (hs.symm hsize) hreach' hspot
    rw [hrun'] at hfollows
    obtain ⟨n', s₂, hrun₂, -⟩ := hfollows ⟨hskirts, hquiet ▸ Nat.le_refl _⟩
    rw [hrun] at hrun₂
    cases hrun₂

/-- One rule of an ambiguity, and the others behind it. -/
theorem Follows.firstFit_cons {a : Ambiguity} {best best' : Option Failure} {x : Alternative}
    {rest : List Alternative} (hviable : x.viable env' s' = x.viable env s)
    (hx : Follows δ m (Node.Alike δ) env.tokens env'.tokens s (x.production env s)
      (x.production env' s'))
    (herror : ∀ bound stop, m = .upTo bound stop → rest = [] ∨
      ∀ f s₁, x.production env s = .error f s₁ → ∃ f' s₁', x.production env' s' = .error f' s₁')
    (hrest : ∀ best best', Follows δ m (Node.Alike δ) env.tokens env'.tokens s
      (firstFit a best rest env s) (firstFit a best' rest env' s')) :
    Follows δ m (Node.Alike δ) env.tokens env'.tokens s (firstFit a best (x :: rest) env s)
      (firstFit a best' (x :: rest) env' s') := by
  rw [Parse.firstFit_cons_eq, Parse.firstFit_cons_eq, hviable]
  split
  · cases hrun : x.production env s with
    | ok n s₁ =>
      rw [hrun] at hx
      intro hadmits
      obtain ⟨n', s₁', hrun', hn, hs₁⟩ := hx hadmits
      rw [hrun']
      exact ⟨n', s₁', rfl, hn, hs₁⟩
    | error f s₁ =>
      rw [hrun] at hx
      cases m with
      | whole full =>
        obtain ⟨f', s₁', hrun', -⟩ := hx full rfl
        rw [hrun']
        exact hrest _ _
      | upTo bound stop =>
        rcases herror bound stop rfl with rfl | herror
        · intro full hfull
          cases hfull
        · obtain ⟨f', s₁', hrun'⟩ := herror f s₁ hrun
          rw [hrun']
          exact hrest _ _
  · exact hrest _ _

/-- Two runs of a passage over tokens that agree make the same. Where only a part of the tokens
agrees, the part ends at a closing line. -/
theorem Passage.follows {part closing : Bool} {spot : Spot} {p : Parse α} {p' : Parse β}
    (h : Passage δ part spot closing r p p') (hm : m.Suits part)
    (hbars : ∀ bound stop, m = .upTo bound stop → δ = 0 ∧ env.tokens.Bars false bound)
    (henv : env.Alike δ m env') (hs : s.Alike δ m env.tokens env'.tokens s')
    (hreach : m.Reaches s.cursor) (hspot : spot.Holds env s) :
    Follows δ m r env.tokens env'.tokens s (p env s) (p' env' s') := by
  induction h generalizing env env' s s' with
  | quiet hp => exact hp.follows henv hs hreach hspot
  | bind hp hk ihp ihk =>
    refine .bind hs.le_size hp.climbs
      (fun a => (Partnered.exists_partner a).elim fun a' ha => (hk a a' ha).climbs)
      (ihp hbars henv hs hreach hspot) fun a a' s₁ s₁' ha hrun hreach₁ hs₁ => ?_
    exact ihk a a' ha hbars henv hs₁ hreach₁ (Spot.holds_plain nofun)
  | behind hp hk ihk =>
    refine .bind hs.le_size hp.climbs
      (fun a => (Partnered.exists_partner a).elim fun a' ha => (hk a a' ha).climbs)
      (hp.follows henv hs hreach hspot) fun a a' s₁ s₁' ha hrun hreach₁ hs₁ => ?_
    exact ihk a a' ha hbars henv hs₁ hreach₁ (Spot.holds_plain fun hi => hp.inside hspot hrun hi)
  | behindOne hp hone hc hinside hk ihk =>
    refine .bind hs.le_size hp.climbs
      (fun a => (Partnered.exists_partner a).elim fun a' ha => (hk a a' ha).climbs)
      (hp.follows henv hs hreach hspot) fun a a' s₁ s₁' ha hrun hreach₁ hs₁ => ?_
    exact ihk a a' ha hbars henv hs₁ hreach₁ (hspot.behind hc hinside (hone env s a s₁ hrun))
  | checked hk ih =>
    refine .bind hs.le_size Climbs.checkDepth (fun _ => hk.climbs) (.checkDepth henv hs)
      fun _ _ s₁ s₁' _ hrun hreach₁ hs₁ => ?_
    obtain rfl := checkDepth_eq_ok hrun
    exact ih hbars henv hs₁ hreach₁ hspot
  | look hp hseen next hnext _ ih =>
    rw [hp.run_bind, hp.run_bind, hseen m env env' s s' hm henv hs hreach hspot]
    exact ih _ hbars henv hs hreach (hnext env s hspot)
  | line _ ih =>
    rw [Looks.currentLine.run_bind, Looks.currentLine.run_bind]
    exact ih _ _ hbars henv hs hreach hspot
  | opening opener l l' _ ih =>
    exact ih hbars henv (hs.openBlock opener l l') hreach (hspot.same rfl rfl)
  | closing opener hk ih =>
    refine .bind hs.le_size (Climbs.closeBlock opener) (fun b => (hk b).climbs)
      (.closeBlock opener henv hs hreach) fun b b' s₁ s₁' hb hrun hreach₁ hs₁ => ?_
    subst hb
    exact ih b hbars henv hs₁ hreach₁ (Spot.holds_plain fun hb => inside_of_closeBlock (hb ▸ hrun))
  | node _ _ ih =>
    exact .construct hs.cursor hs (ih hbars henv hs.apart hreach (hspot.same rfl rfl))
  | iterate hstep hmoves hxy ih =>
    exact .iterate (fun _ => True)
      (fun x => (Partnered.exists_partner x).elim fun y hy => (hstep x y hy).climbs) hmoves
      (fun _ _ _ _ _ _ => trivial)
      (fun x y s s' hxy _ hreach hs => ih x y hxy hbars henv hs hreach (Spot.holds_plain nofun))
      henv hxy hs trivial hreach
  | nested _ ih => exact ih hbars henv.nested hs hreach (hspot.same rfl rfl)
  | @byRoom _ _ _ _ r p p' _ ih =>
    change Follows δ m r env.tokens env'.tokens s (p env.room env s) (p' env'.room env' s')
    rw [henv.room]
    exact ih env.room hbars henv hs hreach hspot
  | mono _ hspot' ih => exact ih hbars henv hs hreach (hspot' env s hspot)
  | orRecover _ ih => exact .orRecover (fun _ _ => henv) hs (ih hbars henv hs hreach hspot)
  | recovering hp =>
    exact .recovering hp.climbs (fun _ _ => henv) hs (hp.follows henv hs hreach hspot)
  | unexpected e => exact .recover _ _ henv hs
  | inSingleLineIf hp ih =>
    refine .inSingleLineIf hp.climbs hs fun s₁ s₁' hcursor hs₁ => ?_
    exact ih hbars henv hs₁ (hcursor ▸ hreach) (hspot.same rfl hcursor)
  | noneFits => exact fun _ _ => ⟨_, s', rfl, hs⟩
  | tryNext hviable _ hquiet _ ihx ihrest =>
    refine .firstFit_cons (hviable m env env' s s' hm henv hs hreach hspot)
      (ihx hbars henv hs hreach hspot) (fun bound stop hpart => ?_)
      fun best best' => ihrest best best' hbars henv hs hreach hspot
    subst hpart
    obtain ⟨rfl, hend⟩ := hbars bound stop rfl
    refine (hquiet hm).imp_right fun hquiet f s₁ hrun => ?_
    obtain ⟨lands, hp⟩ := hquiet
    exact hp.error_of_error henv hs hreach hend hrun

end Production

end VisualBasic
