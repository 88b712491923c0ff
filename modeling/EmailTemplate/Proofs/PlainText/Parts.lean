import EmailTemplate.Proofs.PlainText.Gap

/-! Two texts that are alike but for the white space inside some of their parts. If the parts have no
blanks at their ends, the texts are rewritten alike exactly if all the parts are. -/

namespace EmailTemplate.PlainText

open Text

variable {s t a b : List Char}

/-! ### Characters that stay -/

/-- The characters that the white-space passes leave as they are. -/
def solid (s : List Char) : List Char := s.filter fun c => !isGap c

@[simp]
theorem solid_append (s t : List Char) : solid (s ++ t) = solid s ++ solid t :=
  List.filter_append s t

theorem solid_eq_nil_iff : solid s = [] ↔ ∀ c ∈ s, isGap c = true := by
  simp [solid]

theorem solid_cons {c : Char} (hc : isGap c = false) (s : List Char) :
    solid (c :: s) = c :: solid s := List.filter_cons_of_pos (by simp [hc])

theorem isGap_of_mem_gap {g : List Char} {c : Char} (h : c ∈ gap g) : isGap c = true := by
  rw [gap] at h
  split at h
  · split at h
    · cases h
    · obtain rfl := List.mem_singleton.mp h
      decide
  · obtain rfl := List.eq_of_mem_replicate h
    decide

theorem solid_rewritten (s : List Char) : solid (rewritten s) = solid s := by
  induction hn : s.length using Nat.strongRecOn generalizing s with
  | ind n ih =>
    rcases all_or_exists_first isGap s with hs | ⟨u, c, v, rfl, hc, hu⟩
    · rw [rewritten_of_gap hs, solid_eq_nil_iff.mpr hs]
      exact solid_eq_nil_iff.mpr fun _ => isGap_of_mem_gap
    · have hv : solid (rewritten v) = solid v := by
        refine ih v.length ?_ v rfl
        rw [← hn, List.length_append, List.length_cons]
        omega
      have hgap : solid (gap u) = [] := solid_eq_nil_iff.mpr fun _ => isGap_of_mem_gap
      rw [rewritten_append_cons hc, rewritten_of_gap hu, solid_append, solid_append, hgap,
        solid_eq_nil_iff.mpr hu, solid_cons hc, solid_cons hc, hv]

theorem filter_dropWhile {p q : Char → Bool} (h : ∀ c, p c = false → q c = true)
    (s : List Char) : (s.dropWhile q).filter p = (s.filter p).dropWhile q := by
  induction s with
  | nil => rfl
  | cons c s ih =>
    cases hq : q c with
    | true =>
      rw [List.dropWhile_cons_of_pos hq, ih]
      cases hp : p c with
      | true => rw [List.filter_cons_of_pos hp, List.dropWhile_cons_of_pos hq]
      | false => rw [List.filter_cons_of_neg (by simp [hp])]
    | false =>
      have hp : p c = true := by
        by_contra hp
        rw [h c (by simpa using hp)] at hq
        cases hq
      rw [List.dropWhile_cons_of_neg (by simp [hq]), List.filter_cons_of_pos hp,
        List.dropWhile_cons_of_neg (by simp [hq])]

theorem solid_trim (s : List Char) : solid (trim s) = trim (solid s) := by
  have hkept : ∀ c, (!isGap c) = false → isBlank c = true := fun c hc =>
    isBlank_of_isGap (by simpa using hc)
  rw [solid, trim, trimRight, List.filter_reverse, filter_dropWhile hkept, List.filter_reverse,
    trimLeft, filter_dropWhile hkept]
  rfl

/-! ### Parts without blanks at their ends -/

/-- A text that has other characters than blanks at both ends. -/
structure Framed (s : List Char) : Prop where
  starts : ∃ c v, s = c :: v ∧ isBlank c = false
  ends : ∃ u d, s = u ++ [d] ∧ isBlank d = false

theorem framed_trim (h : trim s ≠ []) : Framed (trim s) where
  starts := by
    obtain ⟨c, v, hs⟩ := List.exists_cons_of_ne_nil h
    exact ⟨c, v, hs, not_blank_of_head?_trim (by rw [hs]; rfl)⟩
  ends := by
    refine ⟨(trim s).dropLast, (trim s).getLast h, (List.dropLast_append_getLast h).symm, ?_⟩
    exact not_blank_of_getLast?_trim (List.getLast?_eq_some_getLast h)

namespace Framed

theorem solid_ne_nil (h : Framed s) : solid s ≠ [] := by
  obtain ⟨c, v, rfl, hc⟩ := h.starts
  rw [solid_cons (not_isGap_of_not_blank hc)]
  exact List.cons_ne_nil _ _

theorem rewritten_append (h : Framed s) (t : List Char) :
    rewritten (s ++ t) = rewritten s ++ rewritten t := by
  obtain ⟨u, d, rfl, hd⟩ := h.ends
  have hgap := not_isGap_of_not_blank hd
  have hnil : rewritten [] = [] := rfl
  rw [List.append_assoc, List.singleton_append, rewritten_append_cons hgap,
    rewritten_append_cons hgap, hnil, List.append_assoc, List.singleton_append]

theorem append_rewritten (h : Framed s) (u t : List Char) :
    rewritten (u ++ (s ++ t)) = rewritten u ++ (rewritten s ++ rewritten t) := by
  rw [← h.rewritten_append]
  obtain ⟨c, v, rfl, hc⟩ := h.starts
  have hgap := not_isGap_of_not_blank hc
  have hfirst := rewritten_append_cons hgap [] (v ++ t)
  rw [List.cons_append, rewritten_append_cons hgap]
  exact congrArg (rewritten u ++ ·) hfirst.symm

protected theorem rewritten (h : Framed s) : Framed (rewritten s) where
  starts := by
    obtain ⟨c, v, rfl, hc⟩ := h.starts
    exact ⟨c, _, rewritten_append_cons (not_isGap_of_not_blank hc) [] v, hc⟩
  ends := by
    obtain ⟨u, d, rfl, hd⟩ := h.ends
    exact ⟨_, d, rewritten_append_cons (not_isGap_of_not_blank hd) u [], hd⟩

theorem trim_around (h : Framed s) (u t : List Char) :
    trim (u ++ (s ++ t)) = trimLeft u ++ (s ++ trimRight t) := by
  have hleft : trimLeft (u ++ (s ++ t)) = trimLeft u ++ (s ++ t) := by
    obtain ⟨c, v, rfl, hc⟩ := h.starts
    exact trimLeft_append_cons hc u (v ++ t)
  obtain ⟨v, d, rfl, hd⟩ := h.ends
  have hright := trimRight_append_cons hd (trimLeft u ++ v) t
  rw [trim, hleft]
  simpa only [List.append_assoc, List.singleton_append] using hright

theorem tidy_around (h : Framed s) (u t : List Char) :
    tidy (u ++ (s ++ t)) = trimLeft (rewritten u) ++ (rewritten s ++ trimRight (rewritten t)) := by
  rw [tidy_eq_trim, h.append_rewritten, h.rewritten.trim_around]

theorem tidy_eq (h : Framed s) : tidy s = rewritten s := by
  have haround := h.tidy_around [] []
  have hnil : rewritten [] = [] := rfl
  rwa [List.nil_append, List.append_nil, hnil, trimLeft_of_blank (by simp),
    trimRight_of_blank (by simp), List.nil_append, List.append_nil] at haround

theorem eq_nil_of_solid (h : Framed (a ++ b)) (hs : solid (a ++ b) = solid a) : b = [] := by
  rw [solid_append, List.append_right_eq_self, solid_eq_nil_iff] at hs
  obtain ⟨u, d, hends, hd⟩ := h.ends
  rcases List.eq_nil_or_concat b with rfl | ⟨v, c, rfl⟩
  · rfl
  · rw [List.concat_eq_append, ← List.append_assoc] at hends
    obtain ⟨-, hlast⟩ := List.append_inj' hends rfl
    obtain rfl := List.singleton_inj.mp hlast
    rw [isBlank_of_isGap (hs c (by simp))] at hd
    cases hd

/-- Where a part ends can be told by the characters that stay. -/
theorem append_inj (ha : Framed a) (hb : Framed b) (hs : solid a = solid b)
    (h : a ++ s = b ++ t) : a = b ∧ s = t := by
  rcases List.append_eq_append_iff.mp h with ⟨z, rfl, rfl⟩ | ⟨z, rfl, rfl⟩
  · obtain rfl := hb.eq_nil_of_solid hs.symm
    exact ⟨(List.append_nil a).symm, rfl⟩
  · obtain rfl := ha.eq_nil_of_solid hs
    exact ⟨List.append_nil b, rfl⟩

end Framed

/-! ### Texts that differ in parts -/

theorem tidy_trim (s : List Char) : tidy (trim s) = tidy s := by
  obtain ⟨u, v, hu, hv, hs⟩ := exists_blanks_around_trim s
  rw [congrArg tidy hs, tidy_blank_append hu, tidy_append_blank _ hv]

/-- Whatever stands before them, the two texts come out alike exactly on a condition. -/
def AlikeIff (condition : Prop) (s t : List Char) : Prop :=
  ∀ u, tidy (u ++ s) = tidy (u ++ t) ↔ condition

namespace AlikeIff

variable {condition : Prop}

theorem refl (s : List Char) : AlikeIff True s s := fun _ => iff_of_true rfl trivial

theorem append (h : AlikeIff condition s t) (v : List Char) :
    AlikeIff condition (v ++ s) (v ++ t) := by
  intro u
  rw [← List.append_assoc, ← List.append_assoc]
  exact h (u ++ v)

theorem trimRight_iff (h : AlikeIff condition s t) :
    trimRight (rewritten s) = trimRight (rewritten t) ↔ condition := by
  have hbefore := h ['x']
  have hx : isBlank 'x' = false := by decide
  have htidy : ∀ s, tidy (['x'] ++ s) = 'x' :: trimRight (rewritten s) := tidy_append_cons hx []
  rwa [htidy, htidy, List.cons.injEq, and_iff_right rfl] at hbefore

theorem framed (h : AlikeIff condition s t) (ha : Framed a) (hb : Framed b)
    (hs : solid a = solid b) : AlikeIff (tidy a = tidy b ∧ condition) (a ++ s) (b ++ t) := by
  intro u
  have hkept : solid (rewritten a) = solid (rewritten b) := by
    rw [solid_rewritten, solid_rewritten, hs]
  rw [ha.tidy_around, hb.tidy_around, List.append_cancel_left_eq, ha.tidy_eq, hb.tidy_eq,
    ← h.trimRight_iff]
  constructor
  · exact ha.rewritten.append_inj hb.rewritten hkept
  · rintro ⟨hpart, hrest⟩
    rw [hpart, hrest]

/-- Of parts that are trimmed nothing counts but what each of them comes out as by itself. -/
theorem trim (h : AlikeIff condition s t) (hs : solid a = solid b) :
    AlikeIff (tidy a = tidy b ∧ condition) (Text.trim a ++ s) (Text.trim b ++ t) := by
  have htrim : solid (Text.trim a) = solid (Text.trim b) := by rw [solid_trim, solid_trim, hs]
  rw [← tidy_trim a, ← tidy_trim b]
  by_cases ha : Text.trim a = []
  · have hb : Text.trim b = [] := by
      by_contra hb
      rw [ha] at htrim
      exact (framed_trim hb).solid_ne_nil htrim.symm
    rw [ha, hb, eq_self, true_and]
    exact h.append []
  · have hb : Text.trim b ≠ [] := by
      intro hb
      rw [hb] at htrim
      exact (framed_trim ha).solid_ne_nil htrim
    exact h.framed (framed_trim ha) (framed_trim hb) htrim

end AlikeIff

end EmailTemplate.PlainText
