import EmailTemplate.Proofs.PlainText.WhiteSpace

/-! The runs that the white-space passes rewrite. Every other character keeps apart what stands
before it and what stands behind it, so a text is rewritten run by run, and of a run only the
number of its line ends matters, up to two. -/

namespace EmailTemplate.PlainText

open Text

variable {c : Char} {s t : List Char}

/-- A character that the passes rewrite. -/
def isGap (c : Char) : Bool := isSpace c || c == '\n' || c == noBreakSpace

theorem isBlank_of_isGap (h : isGap c = true) : isBlank c = true := by
  simp only [isGap, isSpace, Bool.or_eq_true, beq_iff_eq] at h
  rcases h with ((rfl | rfl) | rfl) | rfl <;> decide

theorem not_isGap_of_not_blank (h : isBlank c = false) : isGap c = false := by
  cases hgap : isGap c with
  | false => rfl
  | true =>
    rw [isBlank_of_isGap hgap] at h
    cases h

theorem ne_of_not_isGap (h : isGap c = false) :
    isSpace c = false ∧ c ≠ '\n' ∧ c ≠ noBreakSpace := by
  simp only [isGap, Bool.or_eq_false_iff, beq_eq_false_iff_ne] at h
  exact ⟨h.1.1, h.1.2, h.2⟩

/-! ### Around other characters -/

theorem head?_append_cons_iff {b : Char} (h : c ≠ b) {u v : List Char} :
    (u ++ c :: v).head? = some b ↔ u.head? = some b := by
  cases u with
  | nil => simp [h]
  | cons d u => rfl

theorem singleSpaces_append_cons (hc : isSpace c = false) (u v : List Char) :
    singleSpaces (u ++ c :: v) = singleSpaces u ++ c :: singleSpaces v := by
  have hspace : c ≠ ' ' := by
    rintro rfl
    exact absurd hc (by decide)
  induction u with
  | nil => exact singleSpaces_cons hc v
  | cons d u ih =>
    cases hd : isSpace d with
    | false => rw [List.cons_append, singleSpaces_cons hd, ih, singleSpaces_cons hd,
        List.cons_append]
    | true =>
      rw [List.cons_append, singleSpaces_space hd, singleSpaces_space hd, ih]
      simp only [head?_append_cons_iff hspace]
      split <;> rfl

theorem bareLineEnds_append_cons (hc : isSpace c = false) (hline : c ≠ '\n') (u v : List Char) :
    bareLineEnds (u ++ c :: v) = bareLineEnds u ++ c :: bareLineEnds v := by
  induction u with
  | nil => exact bareLineEnds_cons hc hline v
  | cons d u ih =>
    by_cases hd : d = '\n'
    · subst hd
      rw [List.cons_append, bareLineEnds_lineEnd, bareLineEnds_lineEnd, ih, List.dropWhile_append]
      split
      · next hempty =>
        rw [List.isEmpty_iff.mp hempty, List.dropWhile_cons_of_neg (by simp [hc])]
        rfl
      · rfl
    · cases hspace : isSpace d with
      | false => rw [List.cons_append, bareLineEnds_cons hspace hd, ih,
          bareLineEnds_cons hspace hd, List.cons_append]
      | true =>
        rw [List.cons_append, bareLineEnds_space hspace, bareLineEnds_space hspace, ih]
        simp only [head?_append_cons_iff hline]
        split <;> rfl

theorem fewBlankLines_append_cons (hline : c ≠ '\n') (u v : List Char) :
    fewBlankLines (u ++ c :: v) = fewBlankLines u ++ c :: fewBlankLines v := by
  induction u with
  | nil => exact fewBlankLines_other hline v
  | cons d u ih =>
    by_cases hd : d = '\n'
    · subst hd
      have hnot : c ∉ ['\n', '\n'] := by simp [hline]
      rw [List.cons_append, fewBlankLines_lineEnd, fewBlankLines_lineEnd, ih]
      simp only [prefix_append_cons_iff hnot]
      split <;> rfl
    · rw [List.cons_append, fewBlankLines_other hd, fewBlankLines_other hd, ih, List.cons_append]

theorem rewritten_append_cons (hc : isGap c = false) (u v : List Char) :
    rewritten (u ++ c :: v) = rewritten u ++ c :: rewritten v := by
  obtain ⟨hspace, hline, hnbsp⟩ := ne_of_not_isGap hc
  rw [rewritten, List.map_append, List.map_cons, if_neg hnbsp, singleSpaces_append_cons hspace,
    bareLineEnds_append_cons hspace hline, fewBlankLines_append_cons hline]
  rfl

theorem blank_of_mem_rewritten (h : ∀ c ∈ s, isBlank c = true) (hc : c ∈ rewritten s) :
    isBlank c = true := by
  have hput : ∀ d ∈ [' ', '\n'], isBlank d = true := by decide
  rcases mem_replaceWith hc with hc | hc
  · exact hput c (List.mem_cons_of_mem _ (by simpa using hc))
  rcases mem_replaceWith hc with hc | hc
  · exact hput c (List.mem_cons_of_mem _ hc)
  rcases mem_replaceWith hc with hc | hc
  · exact hput c (by simpa using Or.inl hc)
  obtain ⟨d, hd, rfl⟩ := List.mem_map.mp hc
  split
  · exact hput ' ' List.mem_cons_self
  · exact h d hd

/-! ### Blanks at the ends -/

theorem tidy_append_cons (hc : isBlank c = false) (u v : List Char) :
    tidy (u ++ c :: v) = trimLeft (rewritten u) ++ c :: trimRight (rewritten v) := by
  rw [tidy_eq_trim, rewritten_append_cons (not_isGap_of_not_blank hc), trim,
    trimLeft_append_cons hc, trimRight_append_cons hc]

theorem tidy_of_blank (h : ∀ c ∈ s, isBlank c = true) : tidy s = [] :=
  trim_eq_nil_iff.mpr fun _ => blank_of_mem_rewritten h

theorem tidy_blank_append (hs : ∀ c ∈ s, isBlank c = true) (t : List Char) :
    tidy (s ++ t) = tidy t := by
  rcases all_or_exists_first isBlank t with ht | ⟨u, c, v, rfl, hc, hu⟩
  · have hall : ∀ c ∈ s ++ t, isBlank c = true := List.forall_mem_append.mpr ⟨hs, ht⟩
    rw [tidy_of_blank hall, tidy_of_blank ht]
  · have hall : ∀ c ∈ s ++ u, isBlank c = true := List.forall_mem_append.mpr ⟨hs, hu⟩
    rw [← List.append_assoc, tidy_append_cons hc, tidy_append_cons hc,
      trimLeft_of_blank fun _ => blank_of_mem_rewritten hall,
      trimLeft_of_blank fun _ => blank_of_mem_rewritten hu]

theorem tidy_append_blank (s : List Char) (ht : ∀ c ∈ t, isBlank c = true) :
    tidy (s ++ t) = tidy s := by
  rcases all_or_exists_last isBlank s with hs | ⟨u, c, v, rfl, hc, hv⟩
  · have hall : ∀ c ∈ s ++ t, isBlank c = true := List.forall_mem_append.mpr ⟨hs, ht⟩
    rw [tidy_of_blank hall, tidy_of_blank hs]
  · have hall : ∀ c ∈ v ++ t, isBlank c = true := List.forall_mem_append.mpr ⟨hv, ht⟩
    rw [List.append_assoc, List.cons_append, tidy_append_cons hc, tidy_append_cons hc,
      trimRight_of_blank fun _ => blank_of_mem_rewritten hall,
      trimRight_of_blank fun _ => blank_of_mem_rewritten hv]

/-! ### One run -/

/-- What is put for a run: its line ends up to two, or a space if it has none. -/
def gap (g : List Char) : List Char :=
  if g.count '\n' = 0 then if g.isEmpty then [] else [' ']
  else List.replicate (min (g.count '\n') 2) '\n'

theorem head?_singleSpaces_space (h : isSpace c = true) (s : List Char) :
    (singleSpaces (c :: s)).head? = some ' ' := by
  rw [singleSpaces_space_dropWhile h, List.head?_cons]

theorem bareLineEnds_singleSpaces {g : List Char} (hg : ∀ c ∈ g, c = '\n' ∨ isSpace c = true) :
    bareLineEnds (singleSpaces g) =
      if g.count '\n' = 0 then if g.isEmpty then [] else [' ']
      else List.replicate (g.count '\n') '\n' := by
  induction g with
  | nil => rfl
  | cons c g ih =>
    rw [List.forall_mem_cons] at hg
    have hrest := ih hg.2
    rcases hg.1 with rfl | hspace
    · rw [singleSpaces_cons (by decide), bareLineEnds_lineEnd, hrest, List.count_cons_self,
        if_neg (Nat.succ_ne_zero _), List.replicate_succ]
      split
      · next hcount =>
        rw [hcount]
        split <;> rfl
      · next hcount =>
        rw [dropWhile_isSpace_of_head]
        intro d hd
        rw [List.head?_replicate, if_neg hcount] at hd
        obtain rfl := Option.some.inj hd
        decide
    · have hne : c ≠ '\n' := by
        rintro rfl
        exact absurd hspace (by decide)
      rw [List.count_cons_of_ne hne, singleSpaces_space hspace]
      by_cases hcount : g.count '\n' = 0
      · cases g with
        | nil => rfl
        | cons d g =>
          have hd : isSpace d = true := (hg.2 d List.mem_cons_self).resolve_left fun hd => by
            rw [hd, List.count_cons_self] at hcount
            exact Nat.succ_ne_zero _ hcount
          rw [if_pos (head?_singleSpaces_space hd g), hrest]
          rfl
      · rw [if_neg hcount] at hrest ⊢
        have hhead : (bareLineEnds (singleSpaces g)).head? = some '\n' := by
          rw [hrest, List.head?_replicate, if_neg hcount]
        rw [← hrest]
        split
        · rfl
        · rw [bareLineEnds_space (by decide), if_pos hhead]

theorem rewritten_of_gap {g : List Char} (hg : ∀ c ∈ g, isGap c = true) :
    rewritten g = gap g := by
  have hrun : ∀ c ∈ g.map (fun c => if c = noBreakSpace then ' ' else c),
      c = '\n' ∨ isSpace c = true := by
    intro c hc
    obtain ⟨d, hd, rfl⟩ := List.mem_map.mp hc
    have hgap := hg d hd
    split
    · exact .inr (by decide)
    · next hne =>
      simp only [isGap, Bool.or_eq_true, beq_iff_eq, hne, or_false] at hgap
      exact hgap.symm
  have hcount : (g.map fun c => if c = noBreakSpace then ' ' else c).count '\n' =
      g.count '\n' := by
    rw [List.count_eq_countP, List.count_eq_countP, List.countP_map]
    refine List.countP_congr fun c _ => ?_
    by_cases hc : c = noBreakSpace
    · subst hc
      decide
    · simp [hc]
  rw [rewritten, bareLineEnds_singleSpaces hrun, hcount, gap, List.isEmpty_map]
  split
  · split
    · rfl
    · exact fewBlankLines_other (by decide) []
  · have hall := fewBlankLines_replicate (s := []) (g.count '\n') (by decide)
    have hnil : fewBlankLines [] = [] := rfl
    rwa [hnil, List.append_nil, List.append_nil] at hall

/-! ### The run between two texts -/

/-- The run that a text ends with. -/
def endGap (s : List Char) : List Char := (s.reverse.takeWhile isGap).reverse

/-- The run that a text begins with. -/
def startGap (s : List Char) : List Char := s.takeWhile isGap

/-- The line ends of the run between two texts. -/
def lineEndsBetween (s t : List Char) : Nat := (endGap s ++ startGap t).count '\n'

theorem takeWhile_append_cons_of_neg {p : Char → Bool} (hc : p c = false) (u v : List Char) :
    (u ++ c :: v).takeWhile p = u.takeWhile p := by
  induction u with
  | nil => exact List.takeWhile_cons_of_neg (by simp [hc])
  | cons d u ih => rw [List.cons_append, List.takeWhile_cons, List.takeWhile_cons, ih]

theorem startGap_append_cons (hc : isGap c = false) (u v : List Char) :
    startGap (u ++ c :: v) = startGap u := takeWhile_append_cons_of_neg hc u v

theorem endGap_append_cons (hc : isGap c = false) (u v : List Char) :
    endGap (u ++ c :: v) = endGap v := by
  have hreverse : (u ++ c :: v).reverse = v.reverse ++ c :: u.reverse := by simp
  rw [endGap, hreverse, takeWhile_append_cons_of_neg hc, endGap]

theorem startGap_of_gap (h : ∀ c ∈ s, isGap c = true) : startGap s = s :=
  List.takeWhile_eq_self_iff.mpr h

theorem endGap_of_gap (h : ∀ c ∈ s, isGap c = true) : endGap s = s := by
  rw [endGap, List.takeWhile_eq_self_iff.mpr fun c hc => h c (List.mem_reverse.mp hc),
    List.reverse_reverse]

theorem isGap_of_mem_endGap (h : c ∈ endGap s) : isGap c = true :=
  List.mem_takeWhile_imp (List.mem_reverse.mp h)

/-- Before the run that a text ends with, what follows does not matter. -/
theorem exists_rewritten_endGap (s : List Char) :
    ∃ a, ∀ t, rewritten (s ++ t) = a ++ rewritten (endGap s ++ t) := by
  rcases all_or_exists_last isGap s with hs | ⟨u, c, v, rfl, hc, hv⟩
  · exact ⟨[], fun t => by rw [endGap_of_gap hs, List.nil_append]⟩
  · refine ⟨rewritten u ++ [c], fun t => ?_⟩
    rw [endGap_append_cons hc, endGap_of_gap hv, List.append_assoc, List.cons_append,
      rewritten_append_cons hc, List.append_assoc, List.singleton_append]

theorem exists_rewritten_startGap (t : List Char) :
    ∃ b, ∀ s, rewritten (s ++ t) = rewritten (s ++ startGap t) ++ b := by
  rcases all_or_exists_first isGap t with ht | ⟨u, c, v, rfl, hc, hu⟩
  · exact ⟨[], fun s => by rw [startGap_of_gap ht, List.append_nil]⟩
  · refine ⟨c :: rewritten v, fun s => ?_⟩
    rw [startGap_append_cons hc, startGap_of_gap hu, ← List.append_assoc, rewritten_append_cons hc]

theorem gap_lineEnd_iff (g h : List Char) :
    gap (g ++ '\n' :: h) = gap (g ++ h) ↔ 2 ≤ (g ++ h).count '\n' := by
  have hcount : (g ++ '\n' :: h).count '\n' = (g ++ h).count '\n' + 1 := by
    rw [List.count_append, List.count_append, List.count_cons_self, Nat.add_assoc]
  rw [gap, gap, hcount, if_neg (Nat.succ_ne_zero _)]
  generalize (g ++ h).count '\n' = n
  match n with
  | 0 =>
    simp only [if_true]
    split <;> simp
  | 1 => simp
  | n + 2 => simp

/-- One line end more between two texts makes no difference where there are two already. -/
theorem rewritten_lineEnd_iff (s t : List Char) :
    rewritten (s ++ '\n' :: t) = rewritten (s ++ t) ↔ 2 ≤ lineEndsBetween s t := by
  obtain ⟨a, ha⟩ := exists_rewritten_endGap s
  obtain ⟨b, hb⟩ := exists_rewritten_startGap t
  have hrun : ∀ g, (∀ c ∈ g, isGap c = true) →
      rewritten (s ++ (g ++ t)) = a ++ (gap (endGap s ++ (g ++ startGap t)) ++ b) := by
    intro g hg
    have hall : ∀ c ∈ endGap s ++ (g ++ startGap t), isGap c = true := by
      simp only [List.forall_mem_append]
      exact ⟨fun _ => isGap_of_mem_endGap, hg, fun _ hc => List.mem_takeWhile_imp hc⟩
    rw [ha, ← List.append_assoc, hb, List.append_assoc, rewritten_of_gap hall]
  have hnone := hrun [] (by simp)
  have hone := hrun ['\n'] (List.forall_mem_singleton.mpr (by decide))
  simp only [List.nil_append, List.singleton_append] at hnone hone
  rw [hnone, hone, List.append_cancel_left_eq, List.append_cancel_right_eq, gap_lineEnd_iff,
    lineEndsBetween]

/-- The same for plain text, where blanks at the ends do not count. -/
theorem tidy_lineEnd_iff (s t : List Char) : tidy (s ++ '\n' :: t) = tidy (s ++ t) ↔
    (∀ c ∈ s, isBlank c = true) ∨ (∀ c ∈ t, isBlank c = true) ∨ 2 ≤ lineEndsBetween s t := by
  rcases all_or_exists_last isBlank s with hs | ⟨u, c, v, rfl, hc, -⟩
  · have hline : ∀ c ∈ s ++ ['\n'], isBlank c = true :=
      List.forall_mem_append.mpr ⟨hs, List.forall_mem_singleton.mpr (by decide)⟩
    have hmore := tidy_blank_append hline t
    rw [List.append_assoc, List.singleton_append] at hmore
    exact iff_of_true (hmore.trans (tidy_blank_append hs t).symm) (.inl hs)
  rcases all_or_exists_first isBlank t with ht | ⟨v', d, w, rfl, hd, -⟩
  · have hline : ∀ c ∈ '\n' :: t, isBlank c = true := List.forall_mem_cons.mpr ⟨by decide, ht⟩
    exact iff_of_true ((tidy_append_blank _ hline).trans (tidy_append_blank _ ht).symm)
      (.inr (.inl ht))
  have hs : ¬ ∀ a ∈ u ++ c :: v, isBlank a = true := by
    intro h
    rw [h c (by simp)] at hc
    cases hc
  have ht : ¬ ∀ a ∈ v' ++ d :: w, isBlank a = true := by
    intro h
    rw [h d (by simp)] at hd
    cases hd
  have hcgap := not_isGap_of_not_blank hc
  have hdgap := not_isGap_of_not_blank hd
  have htidy : ∀ g, tidy ((u ++ c :: v) ++ (g ++ (v' ++ d :: w))) = trimLeft (rewritten u) ++
      c :: (rewritten (v ++ (g ++ v')) ++ d :: trimRight (rewritten w)) := by
    intro g
    have hshape : (u ++ c :: v) ++ (g ++ (v' ++ d :: w)) =
        u ++ c :: ((v ++ (g ++ v')) ++ d :: w) := by simp
    rw [hshape, tidy_append_cons hc, rewritten_append_cons hdgap, trimRight_append_cons hd]
  have hnone := htidy []
  have hone := htidy ['\n']
  simp only [List.nil_append, List.singleton_append] at hnone hone
  have hbetween : lineEndsBetween (u ++ c :: v) (v' ++ d :: w) = lineEndsBetween v v' := by
    rw [lineEndsBetween, endGap_append_cons hcgap, startGap_append_cons hdgap, lineEndsBetween]
  rw [hnone, hone, List.append_cancel_left_eq, List.cons.injEq, List.append_cancel_right_eq,
    rewritten_lineEnd_iff, hbetween]
  simp only [true_and, hs, ht, false_or]

end EmailTemplate.PlainText
