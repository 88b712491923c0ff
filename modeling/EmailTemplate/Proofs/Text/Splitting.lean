import EmailTemplate.Text.Blank

/-! The pieces of a text between separators. What is joined with a separator has the pieces of both
sides. -/

namespace EmailTemplate.Text

variable {separates : Char → Bool}

theorem splitBy_ne_nil (s : List Char) : splitBy separates s ≠ [] := by
  induction s with
  | nil => simp [splitBy]
  | cons c s ih =>
    obtain ⟨piece, pieces, h⟩ := List.exists_cons_of_ne_nil ih
    rw [splitBy, h]
    by_cases hc : separates c = true
    · simp [hc]
    · simp [hc]

theorem splitBy_separator {c : Char} (hc : separates c = true) (s : List Char) :
    splitBy separates (c :: s) = [] :: splitBy separates s := by
  obtain ⟨piece, pieces, h⟩ := List.exists_cons_of_ne_nil (splitBy_ne_nil s : splitBy separates s ≠ [])
  simp only [splitBy, h, hc, if_true]

theorem splitBy_append {c : Char} (hc : separates c = true) (u v : List Char) :
    splitBy separates (u ++ c :: v) = splitBy separates u ++ splitBy separates v := by
  induction u with
  | nil => exact splitBy_separator hc v
  | cons d u ih =>
    obtain ⟨piece, pieces, h⟩ := List.exists_cons_of_ne_nil (splitBy_ne_nil u : splitBy separates u ≠ [])
    rw [h, List.cons_append] at ih
    simp only [List.cons_append, splitBy, ih, h]
    by_cases hd : separates d = true
    · simp [hd]
    · simp [hd]

theorem splitBy_of_forall {u : List Char} (h : ∀ c ∈ u, separates c = false) :
    splitBy separates u = [u] := by
  induction u with
  | nil => rfl
  | cons c u ih =>
    have hc := h c List.mem_cons_self
    simp [splitBy, ih fun d hd => h d (List.mem_cons_of_mem c hd), hc]

/-- A separator is in no piece, and no piece has a character that the text does not have. -/
theorem mem_of_mem_splitBy {s piece : List Char} (h : piece ∈ splitBy separates s) {c : Char}
    (hc : c ∈ piece) : c ∈ s ∧ separates c = false := by
  induction s generalizing piece with
  | nil =>
    obtain rfl : piece = [] := by simpa [splitBy] using h
    exact absurd hc List.not_mem_nil
  | cons d s ih =>
    obtain ⟨first, pieces, hs⟩ := List.exists_cons_of_ne_nil (splitBy_ne_nil s : splitBy separates s ≠ [])
    rw [hs] at ih
    simp only [splitBy, hs] at h
    by_cases hd : separates d = true
    · rw [if_pos hd] at h
      rcases List.mem_cons.mp h with rfl | h
      · exact absurd hc List.not_mem_nil
      · exact (ih h hc).imp_left (List.mem_cons_of_mem d)
    · rw [if_neg hd] at h
      rcases List.mem_cons.mp h with rfl | h
      · rcases List.mem_cons.mp hc with rfl | hc
        · exact ⟨List.mem_cons_self, by simpa using hd⟩
        · exact (ih List.mem_cons_self hc).imp_left (List.mem_cons_of_mem d)
      · exact (ih (List.mem_cons_of_mem first h) hc).imp_left (List.mem_cons_of_mem d)

/-- Every piece stands in the text; the first stands at its start. -/
theorem infix_of_mem_splitBy (s : List Char) :
    (∀ piece ∈ (splitBy separates s).head?, piece <+: s) ∧
      ∀ piece ∈ splitBy separates s, piece <:+: s := by
  induction s with
  | nil => simp [splitBy]
  | cons c s ih =>
    obtain ⟨first, pieces, hs⟩ := List.exists_cons_of_ne_nil (splitBy_ne_nil s : splitBy separates s ≠ [])
    rw [hs] at ih
    obtain ⟨hfirst, hall⟩ := ih
    simp only [splitBy, hs]
    by_cases hc : separates c = true
    · rw [if_pos hc]
      refine ⟨by simp, List.forall_mem_cons.mpr ⟨List.nil_infix, fun piece h => ?_⟩⟩
      exact (hall piece h).trans (List.infix_cons (List.infix_refl s))
    · rw [if_neg hc]
      have hprefix : c :: first <+: c :: s := List.cons_prefix_cons.mpr ⟨rfl, hfirst first rfl⟩
      refine ⟨by simpa using hprefix, List.forall_mem_cons.mpr ⟨?_, fun piece h => ?_⟩⟩
      · exact hprefix.isInfix
      · exact List.infix_cons (hall piece (List.mem_cons_of_mem first h))

theorem infix_of_mem_words {s word : List Char} (h : word ∈ words s) : word <:+: s :=
  (infix_of_mem_splitBy s).2 word (List.mem_filter.mp h).1

end EmailTemplate.Text
