import EmailTemplate.Proofs.PlainText.Stripping

/-! The normal form of white space. Each pass that rewrites runs is a right fold which puts one
character in front of what is already rewritten, so what a pass has established is kept by the
ones behind it. -/

namespace EmailTemplate.PlainText

open Text

/-! ### The passes -/

def singleSpaces (s : List Char) : List Char := replaceWith [' '] spaces? s

def bareLineEnds (s : List Char) : List Char := replaceWith ['\n'] paddedLineEnd? s

def fewBlankLines (s : List Char) : List Char := replaceWith ['\n', '\n'] blankLines? s

/-- White space as it is rewritten before the ends are trimmed. -/
def rewritten (s : List Char) : List Char :=
  fewBlankLines (bareLineEnds (singleSpaces (s.map fun c => if c = noBreakSpace then ' ' else c)))

theorem tidy_eq_trim (s : List Char) : tidy s = trim (rewritten s) := rfl

section Folds

variable {c : Char} {s : List Char}

theorem dropWhile_isSpace_of_head (h : ∀ d ∈ s.head?, isSpace d = false) :
    s.dropWhile isSpace = s := by
  cases s with
  | nil => rfl
  | cons d s => exact List.dropWhile_cons_of_neg (by simp [h d rfl])

theorem singleSpaces_cons (h : isSpace c = false) (s : List Char) :
    singleSpaces (c :: s) = c :: singleSpaces s := by
  refine replaceWith_cons _ ?_
  simp [spaces?, h]

theorem singleSpaces_space_dropWhile (h : isSpace c = true) (s : List Char) :
    singleSpaces (c :: s) = ' ' :: singleSpaces (s.dropWhile isSpace) := by
  refine replaceWith_cons_suffix _ ?_ (List.dropWhile_suffix _)
  simp [spaces?, h, List.dropWhile_cons_of_pos]

/-- A space in front of a space adds nothing. -/
theorem singleSpaces_space (h : isSpace c = true) (s : List Char) : singleSpaces (c :: s) =
    if (singleSpaces s).head? = some ' ' then singleSpaces s else ' ' :: singleSpaces s := by
  rw [singleSpaces_space_dropWhile h]
  cases s with
  | nil => rfl
  | cons d s =>
    cases hd : isSpace d with
    | true =>
      rw [List.dropWhile_cons_of_pos hd, singleSpaces_space_dropWhile hd]
      rfl
    | false =>
      have hne : d ≠ ' ' := by
        rintro rfl
        exact absurd hd (by decide)
      rw [List.dropWhile_cons_of_neg (by simp [hd]), singleSpaces_cons hd]
      simp [hne]

theorem paddedLineEnd?_space (h : isSpace c = true) (s : List Char) :
    paddedLineEnd? (c :: s) = paddedLineEnd? s := by
  rw [paddedLineEnd?, List.dropWhile_cons_of_pos h, ← paddedLineEnd?]

theorem paddedLineEnd?_lineEnd (s : List Char) :
    paddedLineEnd? ('\n' :: s) = some (s.dropWhile isSpace) := rfl

theorem paddedLineEnd?_other (h : isSpace c = false) (hc : c ≠ '\n') (s : List Char) :
    paddedLineEnd? (c :: s) = none := by
  simp [paddedLineEnd?, h, after?, Ne.symm hc]

theorem suffix_of_paddedLineEnd? {rest : List Char} (h : paddedLineEnd? (c :: s) = some rest) :
    rest <:+ s := by
  obtain ⟨t, ht, rfl⟩ := Option.map_eq_some_iff.mp h
  have hsuffix : '\n' :: t <:+ c :: s := by
    have hdrop := List.dropWhile_suffix (l := c :: s) isSpace
    rwa [after?_eq_some_iff.mp ht] at hdrop
  refine (List.dropWhile_suffix _).trans ?_
  rcases List.suffix_cons_iff.mp hsuffix with h | h
  · rw [(List.cons.inj h).2]
  · exact (List.suffix_cons _ _).trans h

theorem bareLineEnds_of_paddedLineEnd? {rest : List Char} (h : paddedLineEnd? s = some rest) :
    bareLineEnds s = '\n' :: bareLineEnds rest := by
  cases s with
  | nil => cases h
  | cons c s => exact replaceWith_cons_suffix _ h (suffix_of_paddedLineEnd? h)

theorem bareLineEnds_cons (h : isSpace c = false) (hc : c ≠ '\n') (s : List Char) :
    bareLineEnds (c :: s) = c :: bareLineEnds s :=
  replaceWith_cons _ (paddedLineEnd?_other h hc s)

theorem head?_bareLineEnds_of_none (h : paddedLineEnd? s = none) :
    (bareLineEnds s).head? = s.head? := by
  cases s with
  | nil => rfl
  | cons c s => rw [bareLineEnds, replaceWith_cons _ h, List.head?_cons, List.head?_cons]

/-- A space in front of a line end adds nothing. -/
theorem bareLineEnds_space (h : isSpace c = true) (s : List Char) : bareLineEnds (c :: s) =
    if (bareLineEnds s).head? = some '\n' then bareLineEnds s else c :: bareLineEnds s := by
  cases hread : paddedLineEnd? s with
  | some rest =>
    have hpadded := bareLineEnds_of_paddedLineEnd? ((paddedLineEnd?_space h s).trans hread)
    rw [hpadded, bareLineEnds_of_paddedLineEnd? hread]
    rfl
  | none =>
    have hhead : s.head? ≠ some '\n' := by
      intro hs
      obtain ⟨t, rfl⟩ := List.head?_eq_some_iff.mp hs
      cases hread
    rw [head?_bareLineEnds_of_none hread, if_neg hhead]
    exact replaceWith_cons _ ((paddedLineEnd?_space h s).trans hread)

theorem bareLineEnds_dropWhile (s : List Char) :
    bareLineEnds (s.dropWhile isSpace) = (bareLineEnds s).dropWhile isSpace := by
  induction s with
  | nil => rfl
  | cons c s ih =>
    cases hc : isSpace c with
    | true =>
      rw [List.dropWhile_cons_of_pos hc, ih, bareLineEnds_space hc]
      split
      · rfl
      · rw [List.dropWhile_cons_of_pos hc]
    | false =>
      have hkeep : ∀ t, (bareLineEnds (c :: s)) = c :: t →
          (bareLineEnds (c :: s)).dropWhile isSpace = bareLineEnds (c :: s) := by
        intro t ht
        rw [ht, List.dropWhile_cons_of_neg (by simp [hc])]
      rw [List.dropWhile_cons_of_neg (by simp [hc])]
      by_cases hline : c = '\n'
      · subst hline
        exact (hkeep _ (bareLineEnds_of_paddedLineEnd? (paddedLineEnd?_lineEnd s))).symm
      · exact (hkeep _ (bareLineEnds_cons hc hline s)).symm

/-- A line end takes the spaces behind it. -/
theorem bareLineEnds_lineEnd (s : List Char) :
    bareLineEnds ('\n' :: s) = '\n' :: (bareLineEnds s).dropWhile isSpace := by
  rw [bareLineEnds_of_paddedLineEnd? (paddedLineEnd?_lineEnd s), bareLineEnds_dropWhile]

theorem fewBlankLines_cons (h : ¬ ['\n', '\n', '\n'] <+: c :: s) :
    fewBlankLines (c :: s) = c :: fewBlankLines s := by
  refine replaceWith_cons _ ?_
  rw [blankLines?, after?_eq_none_iff.mpr h, Option.map_none]

theorem fewBlankLines_other (h : c ≠ '\n') (s : List Char) :
    fewBlankLines (c :: s) = c :: fewBlankLines s :=
  fewBlankLines_cons fun hp => h (List.cons_prefix_cons.mp hp).1.symm

theorem fewBlankLines_three (s : List Char) : fewBlankLines ('\n' :: '\n' :: '\n' :: s) =
    '\n' :: '\n' :: fewBlankLines (s.dropWhile (· == '\n')) :=
  replaceWith_cons_suffix _ rfl
    (((List.dropWhile_suffix _).trans (List.suffix_cons _ _)).trans (List.suffix_cons _ _))

theorem head?_fewBlankLines (s : List Char) : (fewBlankLines s).head? = s.head? := by
  cases s with
  | nil => rfl
  | cons c s =>
    by_cases hp : ['\n', '\n', '\n'] <+: c :: s
    · obtain ⟨t, ht⟩ := hp
      have hthree := congrArg List.head? (fewBlankLines_three t)
      rw [← ht]
      exact hthree
    · rw [fewBlankLines_cons hp, List.head?_cons, List.head?_cons]

theorem fewBlankLines_lineEnd_of_head (h : s.head? ≠ some '\n') :
    fewBlankLines ('\n' :: s) = '\n' :: fewBlankLines s := by
  refine fewBlankLines_cons fun hp => h ?_
  obtain ⟨t, ht⟩ := (List.cons_prefix_cons.mp hp).2
  rw [← ht, List.cons_append, List.head?_cons]

/-- Of a run of line ends two are left. -/
theorem fewBlankLines_replicate (n : Nat) (h : s.head? ≠ some '\n') :
    fewBlankLines (List.replicate n '\n' ++ s) =
      List.replicate (min n 2) '\n' ++ fewBlankLines s := by
  match n with
  | 0 => rfl
  | 1 => exact fewBlankLines_lineEnd_of_head h
  | 2 =>
    have hone := fewBlankLines_lineEnd_of_head h
    have htwo : ¬ ['\n', '\n', '\n'] <+: '\n' :: '\n' :: s := by
      intro hp
      obtain ⟨t, ht⟩ := (List.cons_prefix_cons.mp (List.cons_prefix_cons.mp hp).2).2
      exact h (by rw [← ht, List.cons_append, List.head?_cons])
    exact (fewBlankLines_cons htwo).trans (congrArg ('\n' :: ·) hone)
  | n + 3 =>
    have hrun : (List.replicate n '\n' ++ s).dropWhile (· == '\n') = s := by
      rw [List.dropWhile_append_of_pos (by simp +contextual)]
      cases s with
      | nil => rfl
      | cons c s => exact List.dropWhile_cons_of_neg (by simpa using h)
    have hthree := fewBlankLines_three (List.replicate n '\n' ++ s)
    rw [hrun] at hthree
    rw [Nat.min_eq_right (by omega)]
    exact hthree

/-- Every text begins with a run of line ends. -/
theorem exists_replicate_lineEnd (s : List Char) :
    ∃ n t, s = List.replicate n '\n' ++ t ∧ t.head? ≠ some '\n' := by
  refine ⟨(s.takeWhile (· == '\n')).length, s.dropWhile (· == '\n'), ?_, ?_⟩
  · have hrun : List.replicate (s.takeWhile (· == '\n')).length '\n' =
        s.takeWhile (· == '\n') := by
      refine (List.eq_replicate_of_mem fun c hc => ?_).symm
      simpa using List.mem_takeWhile_imp hc
    rw [hrun, List.takeWhile_append_dropWhile]
  · have hfirst := List.head?_dropWhile_not (· == '\n') s
    intro h
    rw [h] at hfirst
    exact absurd hfirst (by decide)

/-- A line end in front of a blank line adds nothing. -/
theorem fewBlankLines_lineEnd (s : List Char) : fewBlankLines ('\n' :: s) =
    if ['\n', '\n'] <+: fewBlankLines s then fewBlankLines s else '\n' :: fewBlankLines s := by
  obtain ⟨n, t, rfl, ht⟩ := exists_replicate_lineEnd s
  have hnext := fewBlankLines_replicate (n + 1) ht
  rw [List.replicate_succ, List.cons_append] at hnext
  have hhead : (fewBlankLines t).head? ≠ some '\n' := by rwa [head?_fewBlankLines]
  rw [hnext, fewBlankLines_replicate n ht]
  match n with
  | 0 =>
    rw [if_neg]
    · rfl
    · rintro ⟨u, hu⟩
      have hrest : '\n' :: '\n' :: u = fewBlankLines t := hu
      exact hhead (by rw [← hrest, List.head?_cons])
  | 1 =>
    rw [if_neg]
    · rfl
    · intro hp
      obtain ⟨u, hu⟩ := (List.cons_prefix_cons.mp hp).2
      have hrest : '\n' :: u = fewBlankLines t := hu
      exact hhead (by rw [← hrest, List.head?_cons])
  | n + 2 =>
    rw [Nat.min_eq_right (by omega), Nat.min_eq_right (by omega), if_pos]
    exact List.prefix_append _ _

end Folds

/-! ### What the passes establish -/

/-- What no plain text has in it. -/
def flaws : List (List Char) :=
  [['\t'], [noBreakSpace], [' ', ' '], [' ', '\n'], ['\n', ' '], ['\n', '\n', '\n']]

/-- White space in normal form. -/
structure Normal (s : List Char) : Prop where
  flawless : ∀ w ∈ flaws, ¬ w <:+: s
  starts : ∀ c ∈ s.head?, isBlank c = false
  ends : ∀ c ∈ s.getLast?, isBlank c = false

theorem pair_infix_cons {a b c : Char} {s : List Char} :
    [a, b] <:+: c :: s ↔ (a = c ∧ s.head? = some b) ∨ [a, b] <:+: s := by
  have hhead : [b] <+: s ↔ s.head? = some b := by
    cases s with
    | nil => simp
    | cons d s => simp [List.cons_prefix_cons, eq_comm]
  rw [List.infix_cons_iff, List.cons_prefix_cons, hhead]

theorem eq_space_of_isSpace {c : Char} (h : isSpace c = true) (htab : '\t' ≠ c) : c = ' ' := by
  simp only [isSpace, Bool.or_eq_true, beq_iff_eq] at h
  exact h.resolve_right htab.symm

theorem singleSpaces_tight (s : List Char) :
    '\t' ∉ singleSpaces s ∧ ¬ [' ', ' '] <:+: singleSpaces s := by
  induction s with
  | nil => exact ⟨List.not_mem_nil, by decide⟩
  | cons c s ih =>
    cases hc : isSpace c with
    | true =>
      rw [singleSpaces_space hc]
      split
      · exact ih
      · next hhead =>
        rw [List.mem_cons, not_or, pair_infix_cons, not_or]
        exact ⟨⟨by decide, ih.1⟩, fun h => hhead h.2, ih.2⟩
    | false =>
      have htab : c ≠ '\t' := by
        rintro rfl
        exact absurd hc (by decide)
      have hspace : c ≠ ' ' := by
        rintro rfl
        exact absurd hc (by decide)
      rw [singleSpaces_cons hc, List.mem_cons, not_or, pair_infix_cons, not_or]
      exact ⟨⟨htab.symm, ih.1⟩, fun h => hspace h.1.symm, ih.2⟩

theorem head?_bareLineEnds (s : List Char) :
    (bareLineEnds s).head? = s.head? ∨ (bareLineEnds s).head? = some '\n' := by
  cases hread : paddedLineEnd? s with
  | none => exact .inl (head?_bareLineEnds_of_none hread)
  | some rest => exact .inr (by rw [bareLineEnds_of_paddedLineEnd? hread, List.head?_cons])

theorem head?_dropWhile_isSpace (s : List Char) : (s.dropWhile isSpace).head? ≠ some ' ' := by
  intro h
  have hfirst := List.head?_dropWhile_not isSpace s
  rw [h] at hfirst
  exact absurd hfirst (by decide)

/-- No space is left around a line end, and no second one beside a space. -/
theorem bareLineEnds_tight {s : List Char} (htab : '\t' ∉ s) (hspaces : ¬ [' ', ' '] <:+: s) :
    '\t' ∉ bareLineEnds s ∧ ¬ [' ', ' '] <:+: bareLineEnds s ∧
      ¬ [' ', '\n'] <:+: bareLineEnds s ∧ ¬ ['\n', ' '] <:+: bareLineEnds s := by
  induction s with
  | nil => exact ⟨List.not_mem_nil, by decide, by decide, by decide⟩
  | cons c s ih =>
    rw [List.mem_cons, not_or] at htab
    rw [pair_infix_cons, not_or] at hspaces
    obtain ⟨itab, ispaces, ibefore, ibehind⟩ := ih htab.2 hspaces.2
    by_cases hline : c = '\n'
    · subst hline
      have hsub := List.dropWhile_suffix (l := bareLineEnds s) isSpace
      rw [bareLineEnds_lineEnd, List.mem_cons, not_or]
      simp only [pair_infix_cons, not_or]
      exact ⟨⟨by decide, fun h => itab (hsub.subset h)⟩,
        ⟨fun h => absurd h.1 (by decide), fun h => ispaces (h.trans hsub.isInfix)⟩,
        ⟨fun h => absurd h.1 (by decide), fun h => ibefore (h.trans hsub.isInfix)⟩,
        fun h => head?_dropWhile_isSpace _ h.2, fun h => ibehind (h.trans hsub.isInfix)⟩
    · cases hc : isSpace c with
      | true =>
        obtain rfl := eq_space_of_isSpace hc htab.1
        rw [bareLineEnds_space hc]
        split
        · exact ⟨itab, ispaces, ibefore, ibehind⟩
        · next hhead =>
          have hspace : (bareLineEnds s).head? ≠ some ' ' := by
            rcases head?_bareLineEnds s with h | h
            · rw [h]
              exact fun h => hspaces.1 ⟨rfl, h⟩
            · rw [h]
              decide
          rw [List.mem_cons, not_or]
          simp only [pair_infix_cons, not_or]
          exact ⟨⟨by decide, itab⟩, ⟨fun h => hspace h.2, ispaces⟩, ⟨fun h => hhead h.2, ibefore⟩,
            fun h => absurd h.1 (by decide), ibehind⟩
      | false =>
        have hspace : ' ' ≠ c := by
          rintro rfl
          exact absurd hc (by decide)
        rw [bareLineEnds_cons hc hline, List.mem_cons, not_or]
        simp only [pair_infix_cons, not_or]
        exact ⟨⟨htab.1, itab⟩, ⟨fun h => hspace h.1, ispaces⟩, ⟨fun h => hspace h.1, ibefore⟩,
          fun h => hline h.1.symm, ibehind⟩

theorem fewBlankLines_keeps {a b : Char} {s : List Char} (h : ¬ [a, b] <:+: s) :
    ¬ [a, b] <:+: fewBlankLines s := by
  induction s with
  | nil => exact h
  | cons c s ih =>
    rw [pair_infix_cons, not_or] at h
    have hnew : ¬ [a, b] <:+: c :: fewBlankLines s := by
      rw [pair_infix_cons, not_or, head?_fewBlankLines]
      exact ⟨h.1, ih h.2⟩
    by_cases hline : c = '\n'
    · subst hline
      rw [fewBlankLines_lineEnd]
      split
      · exact ih h.2
      · exact hnew
    · rwa [fewBlankLines_other hline]

theorem fewBlankLines_few (s : List Char) : ¬ ['\n', '\n', '\n'] <:+: fewBlankLines s := by
  induction s with
  | nil => decide
  | cons c s ih =>
    by_cases hline : c = '\n'
    · subst hline
      rw [fewBlankLines_lineEnd]
      split
      · exact ih
      · next htwo =>
        rw [List.infix_cons_iff, not_or]
        exact ⟨fun h => htwo (List.cons_prefix_cons.mp h).2, ih⟩
    · rw [fewBlankLines_other hline, List.infix_cons_iff, not_or]
      exact ⟨fun h => hline (List.cons_prefix_cons.mp h).1.symm, ih⟩

theorem flawless_rewritten (s : List Char) : ∀ w ∈ flaws, ¬ w <:+: rewritten s := by
  obtain ⟨htab, hspaces⟩ := singleSpaces_tight (s.map fun c => if c = noBreakSpace then ' ' else c)
  obtain ⟨htab, hspaces, hbefore, hbehind⟩ := bareLineEnds_tight htab hspaces
  have htab : '\t' ∉ rewritten s :=
    fun h => (mem_replaceWith h).elim (fun h => absurd h (by decide)) htab
  have hnbsp : noBreakSpace ∉ rewritten s := by
    intro h
    have h := (mem_replaceWith h).resolve_left (by decide)
    have h := (mem_replaceWith h).resolve_left (by decide)
    have h := (mem_replaceWith h).resolve_left (by decide)
    obtain ⟨c, -, hc⟩ := List.mem_map.mp h
    split at hc
    · exact absurd hc (by decide)
    · next hne => exact hne hc
  simp only [flaws, List.forall_mem_cons, List.singleton_infix_iff, List.not_mem_nil,
    false_implies, implies_true, and_true]
  exact ⟨htab, hnbsp, fewBlankLines_keeps hspaces, fewBlankLines_keeps hbefore,
    fewBlankLines_keeps hbehind, fewBlankLines_few _⟩

theorem normal_tidy (s : List Char) : Normal (tidy s) where
  flawless w hw h := flawless_rewritten s w hw (h.trans (trim_isInfix _))
  starts _ := not_blank_of_head?_trim
  ends _ := not_blank_of_getLast?_trim

/-! ### What the passes keep -/

section Kept

variable {s : List Char}

theorem singleSpaces_of_tight (htab : '\t' ∉ s) (hspaces : ¬ [' ', ' '] <:+: s) :
    singleSpaces s = s := by
  induction s with
  | nil => rfl
  | cons c s ih =>
    rw [List.mem_cons, not_or] at htab
    rw [pair_infix_cons, not_or] at hspaces
    cases hc : isSpace c with
    | false => rw [singleSpaces_cons hc, ih htab.2 hspaces.2]
    | true =>
      obtain rfl := eq_space_of_isSpace hc htab.1
      rw [singleSpaces_space hc, ih htab.2 hspaces.2, if_neg fun h => hspaces.1 ⟨rfl, h⟩]

theorem bareLineEnds_of_tight (htab : '\t' ∉ s) (hbefore : ¬ [' ', '\n'] <:+: s)
    (hbehind : ¬ ['\n', ' '] <:+: s) : bareLineEnds s = s := by
  induction s with
  | nil => rfl
  | cons c s ih =>
    rw [List.mem_cons, not_or] at htab
    rw [pair_infix_cons, not_or] at hbefore hbehind
    have hrest := ih htab.2 hbefore.2 hbehind.2
    by_cases hline : c = '\n'
    · subst hline
      have hhead : ∀ d ∈ s.head?, isSpace d = false := by
        intro d hd
        have hspace : d ≠ ' ' := by
          rintro rfl
          exact hbehind.1 ⟨rfl, hd⟩
        have htab : d ≠ '\t' := by
          rintro rfl
          exact htab.2 (List.mem_of_mem_head? hd)
        simp [isSpace, hspace, htab]
      rw [bareLineEnds_lineEnd, hrest, dropWhile_isSpace_of_head hhead]
    · cases hc : isSpace c with
      | false => rw [bareLineEnds_cons hc hline, hrest]
      | true =>
        obtain rfl := eq_space_of_isSpace hc htab.1
        rw [bareLineEnds_space hc, hrest, if_neg fun h => hbefore.1 ⟨rfl, h⟩]

theorem fewBlankLines_of_few (h : ¬ ['\n', '\n', '\n'] <:+: s) : fewBlankLines s = s := by
  induction s with
  | nil => rfl
  | cons c s ih =>
    rw [List.infix_cons_iff, not_or] at h
    rw [fewBlankLines_cons h.1, ih h.2]

theorem Normal.tidy (h : Normal s) : tidy s = s := by
  have hflaws := h.flawless
  simp only [flaws, List.forall_mem_cons, List.singleton_infix_iff, List.not_mem_nil,
    false_implies, implies_true, and_true] at hflaws
  obtain ⟨htab, hnbsp, hspaces, hbefore, hbehind, hblank⟩ := hflaws
  have hmap : s.map (fun c => if c = noBreakSpace then ' ' else c) = s := by
    refine (List.map_congr_left fun c hc => ?_).trans (List.map_id s)
    rw [if_neg, id]
    rintro rfl
    exact hnbsp hc
  rw [tidy_eq_trim, rewritten, hmap, singleSpaces_of_tight htab hspaces,
    bareLineEnds_of_tight htab hbefore hbehind, fewBlankLines_of_few hblank]
  exact trim_of_ends h.starts h.ends

end Kept

/-! ### Plain text -/

/-- The text with its line ends in one form and its white space in order. -/
def normalForm (s : List Char) : List Char := tidy (unixLines s)

/-- A text without markup goes through the passes up to its white space. -/
theorem ofMarkup_of_plain {s : List Char} (hlt : '<' ∉ s) (hampersand : '&' ∉ s) :
    ofMarkup s = normalForm s := by
  have hlt := not_mem_unixLines (by decide) hlt
  have hampersand := not_mem_unixLines (by decide) hampersand
  rw [ofMarkup_eq, (turns_wordedLines_run hlt).eq rfl, (turns_toCoded_run hlt).eq rfl,
    (turns_decodeReferences_run hampersand).eq rfl, normalForm]

/-- Every plain text is in normal form, and what is in it and has no markup stays as it is. -/
theorem ofMarkup_normal (s : List Char) : Normal (ofMarkup s) ∧
    ('<' ∉ s → '&' ∉ s → '\r' ∉ s → (ofMarkup s = s ↔ Normal s)) := by
  have hnormal : Normal (ofMarkup s) := normal_tidy _
  refine ⟨hnormal, fun hlt hampersand hcr => ⟨fun h => h ▸ hnormal, fun h => ?_⟩⟩
  rw [ofMarkup_of_plain hlt hampersand, normalForm, (turns_unixLines hcr).eq rfl, h.tidy]

/-- Two paragraphs with a blank line between them. -/
theorem ofMarkup_normal_paragraphs :
    ('<' ∉ ['a', ' ', 'b', '\n', '\n', 'c'] ∧ '&' ∉ ['a', ' ', 'b', '\n', '\n', 'c'] ∧
      '\r' ∉ ['a', ' ', 'b', '\n', '\n', 'c']) ∧ Normal ['a', ' ', 'b', '\n', '\n', 'c'] ∧
      ofMarkup ['a', ' ', 'b', '\n', '\n', 'c'] = ['a', ' ', 'b', '\n', '\n', 'c'] := by
  have hplain : '<' ∉ ['a', ' ', 'b', '\n', '\n', 'c'] ∧ '&' ∉ ['a', ' ', 'b', '\n', '\n', 'c'] ∧
      '\r' ∉ ['a', ' ', 'b', '\n', '\n', 'c'] := by decide
  have hnormal : Normal ['a', ' ', 'b', '\n', '\n', 'c'] :=
    ⟨by decide, by simp; decide, by simp; decide⟩
  exact ⟨hplain, hnormal,
    ((ofMarkup_normal _).2 hplain.1 hplain.2.1 hplain.2.2).mpr hnormal⟩

end EmailTemplate.PlainText
