import EmailTemplate.Proofs.Text.Region

/-! Cutting a text at a literal: the pieces between the occurrences that replacement replaces. Where
several literals are replaced one after the other, each cuts the pieces that the others left. -/

namespace EmailTemplate.Text

/-- The pieces of a text between the occurrences of a literal, past `skip` characters. -/
def cutFrom (find : List Char) : Nat → List Char → List (List Char)
  | _, [] => [[]]
  | skip + 1, _ :: s => cutFrom find skip s
  | 0, c :: s =>
    if begins find (c :: s) then [] :: cutFrom find (find.length - 1) s
    else (cutFrom find 0 s).modifyHead (c :: ·)

/-- The pieces of a text between the occurrences of `find`, which is not empty. -/
def cut (find s : List Char) : List (List Char) := cutFrom find 0 s

variable {find m s : List Char}

theorem cutFrom_eq_drop (find : List Char) (n : Nat) (s : List Char) :
    cutFrom find n s = cut find (s.drop n) := by
  induction n generalizing s with
  | zero => rfl
  | succ n ih =>
    cases s with
    | nil => rfl
    | cons c s => exact ih s

theorem cut_literal (hf : find ≠ []) (s : List Char) : cut find (find ++ s) = [] :: cut find s := by
  obtain ⟨c, cs, rfl⟩ := List.exists_cons_of_ne_nil hf
  have hbegins : begins (c :: cs) (c :: (cs ++ s)) = true := by
    rw [begins, ← List.cons_append, after?_append, Option.isSome_some]
  rw [List.cons_append, cut, cutFrom, if_pos hbegins, cutFrom_eq_drop]
  simp

theorem cut_cons {c : Char} (h : ¬ find <+: c :: s) :
    cut find (c :: s) = (cut find s).modifyHead (c :: ·) := by
  have hbegins : ¬ begins find (c :: s) = true := by
    rw [begins, after?_eq_none_iff.mpr h]
    exact Bool.false_ne_true
  rw [cut, cutFrom, if_neg hbegins, cut]

theorem cut_of_absent (h : ¬ find <:+: s) : cut find s = [s] := by
  induction s with
  | nil => rfl
  | cons c s ih =>
    rw [List.infix_cons_iff, not_or] at h
    rw [cut_cons h.1, ih h.2, List.modifyHead_cons]

theorem cut_passes (hf : find ≠ []) {u : List Char} (h : Passes find u (find ++ s)) :
    cut find (u ++ (find ++ s)) = u :: cut find s := by
  induction u with
  | nil => exact cut_literal hf s
  | cons c u ih =>
    obtain ⟨hc, hrest⟩ := h.of_cons
    rw [List.cons_append, cut_cons hc, ih hrest, List.modifyHead_cons]

/-- A text is read from one occurrence of a literal to the next. -/
theorem occurrence_induction (hf : find ≠ []) {p : List Char → Prop}
    (absent : ∀ s, ¬ find <:+: s → p s)
    (split : ∀ u s, Passes find u (find ++ s) → p s → p (u ++ (find ++ s))) (s : List Char) :
    p s := by
  induction hn : s.length using Nat.strongRecOn generalizing s with
  | ind n ih =>
    by_cases hs : find <:+: s
    · obtain ⟨u, rest, hfirst⟩ := FirstSplit.exists_of_infix hs
      have hpos := List.length_pos_iff.mpr hf
      have hlength := congrArg List.length hfirst.split
      simp only [List.length_append] at hlength
      rw [hfirst.split]
      exact split u rest hfirst.passes (ih rest.length (by omega) rest rfl)
    · exact absent s hs

theorem cut_ne_nil (hf : find ≠ []) (s : List Char) : cut find s ≠ [] := by
  induction s using occurrence_induction hf with
  | absent s hs => simp [cut_of_absent hs]
  | split u s hu _ => simp [cut_passes hf hu]

/-- What is put for a literal stands between the pieces. -/
theorem replaceAll_eq_intercalate (hf : find ≠ []) (put s : List Char) :
    replaceAll find put s = put.intercalate (cut find s) := by
  induction s using occurrence_induction hf with
  | absent s hs => rw [replaceAll_of_absent hs, cut_of_absent hs, List.intercalate_singleton]
  | split u s hu ih =>
    rw [replaceAll_passes hu, replaceAll_literal hf, cut_passes hf hu,
      List.intercalate_cons_of_ne_nil (cut_ne_nil hf s), ih, List.append_assoc]

theorem not_infix_of_mem_cut (hf : find ≠ []) {w : List Char} (h : w ∈ cut find s) :
    ¬ find <:+: w := by
  induction s using occurrence_induction hf with
  | absent s hs =>
    rw [cut_of_absent hs, List.mem_singleton] at h
    rwa [h]
  | split u s hu ih =>
    rw [cut_passes hf hu] at h
    rcases List.mem_cons.mp h with rfl | h
    · rintro ⟨x, y, rfl⟩
      refine hu x (find ++ y) (List.append_assoc x find y) (by simp [hf]) ?_
      rw [List.append_assoc]
      exact List.prefix_append find _
    · exact ih h

theorem infix_of_mem_cut (hf : find ≠ []) {w : List Char} (h : w ∈ cut find s) : w <:+: s := by
  induction s using occurrence_induction hf with
  | absent s hs =>
    rw [cut_of_absent hs, List.mem_singleton] at h
    rw [h]
  | split u s hu ih =>
    rw [cut_passes hf hu] at h
    rcases List.mem_cons.mp h with rfl | h
    · exact (List.prefix_append w _).isInfix
    · exact (ih h).trans ((List.suffix_append find s).trans (List.suffix_append u _)).isInfix

/-! ### Several literals -/

/-- The pieces that are left of a text when it has been cut at one literal after the other. -/
def cutAll : List (List Char) → List Char → List (List Char)
  | [], s => [s]
  | find :: finds, s => (cut find s).flatMap (cutAll finds)

variable {finds : List (List Char)}

theorem infix_of_mem_cutAll (hfinds : ∀ find ∈ finds, find ≠ []) {w : List Char}
    (h : w ∈ cutAll finds s) : w <:+: s := by
  induction finds generalizing s with
  | nil =>
    obtain rfl := List.mem_singleton.mp h
    exact List.infix_rfl
  | cons find finds ih =>
    obtain ⟨hf, hrest⟩ := List.forall_mem_cons.mp hfinds
    obtain ⟨piece, hpiece, hw⟩ := List.mem_flatMap.mp h
    exact (ih hrest hw).trans (infix_of_mem_cut hf hpiece)

/-- None of the literals is left. -/
theorem not_infix_of_mem_cutAll (hfinds : ∀ find ∈ finds, find ≠ []) {w : List Char}
    (h : w ∈ cutAll finds s) (hfind : find ∈ finds) : ¬ find <:+: w := by
  induction finds generalizing s with
  | nil => exact absurd hfind List.not_mem_nil
  | cons first finds ih =>
    obtain ⟨hf, hrest⟩ := List.forall_mem_cons.mp hfinds
    obtain ⟨piece, hpiece, hw⟩ := List.mem_flatMap.mp h
    rcases List.mem_cons.mp hfind with rfl | hfind
    · exact fun hin => not_infix_of_mem_cut hf hpiece (hin.trans (infix_of_mem_cutAll hrest hw))
    · exact ih hrest hw hfind

/-! ### Parts that are not cut -/

/-- Every occurrence of a literal ends before a part of a text, or begins after it. -/
def Clear (find before m after : List Char) : Prop :=
  ∀ u v, before ++ (m ++ after) = u ++ (find ++ v) →
    u.length + find.length ≤ before.length ∨ before.length + m.length ≤ u.length

theorem Clear.shorten {x y before after : List Char} (h : Clear find (x ++ before) m (after ++ y)) :
    Clear find before m after := by
  intro u v huv
  have hfar : x ++ before ++ (m ++ (after ++ y)) = x ++ u ++ (find ++ (v ++ y)) := by
    have hmore := congrArg (x ++ · ++ y) huv
    simpa only [List.append_assoc] using hmore
  have hclear := h (x ++ u) (v ++ y) hfar
  simp only [List.length_append] at hclear
  omega

/-- A part that no occurrence reaches into is in one piece. -/
theorem exists_mem_cut_of_clear (hf : find ≠ []) {before after : List Char}
    (h : Clear find before m after) : ∃ before' after' x y, before = x ++ before' ∧
      after = after' ++ y ∧ before' ++ (m ++ after') ∈ cut find (before ++ (m ++ after)) := by
  generalize hs : before ++ (m ++ after) = s
  induction s using occurrence_induction hf generalizing before with
  | absent s hno =>
    refine ⟨before, after, [], [], rfl, (List.append_nil after).symm, ?_⟩
    rw [cut_of_absent hno, hs]
    exact List.mem_singleton_self s
  | split u s hu ih =>
    rcases h u s hs with hle | hle
    · have hfound : u ++ find <+: before ++ (m ++ after) := by
        rw [hs, ← List.append_assoc]
        exact List.prefix_append _ s
      obtain ⟨rest, rfl⟩ : u ++ find <+: before :=
        List.prefix_of_prefix_length_le hfound (List.prefix_append _ _)
          (by rwa [List.length_append])
      have hrest : rest ++ (m ++ after) = s := by
        simpa only [List.append_assoc, List.append_cancel_left_eq] using hs
      have hclear : Clear find rest m after :=
        Clear.shorten (x := u ++ find) (y := []) (by rwa [List.append_nil])
      obtain ⟨before', after', x, y, hx, hy, hmem⟩ := ih hclear hrest
      refine ⟨before', after', u ++ find ++ x, y, by rw [hx, ← List.append_assoc], hy, ?_⟩
      rw [cut_passes hf hu]
      exact List.mem_cons_of_mem u hmem
    · have hpart : before ++ m <+: u ++ (find ++ s) := by
        rw [← hs, ← List.append_assoc]
        exact List.prefix_append _ after
      obtain ⟨after', rfl⟩ : before ++ m <+: u :=
        List.prefix_of_prefix_length_le hpart (List.prefix_append _ _) (by rwa [List.length_append])
      have hafter : after = after' ++ (find ++ s) := by
        simpa only [List.append_assoc, List.append_cancel_left_eq] using hs
      refine ⟨before, after', [], find ++ s, rfl, hafter, ?_⟩
      rw [cut_passes hf hu, List.append_assoc]
      exact List.mem_cons_self

theorem exists_mem_cutAll_of_clear {before after : List Char} (hfinds : ∀ find ∈ finds, find ≠ [])
    (h : ∀ find ∈ finds, Clear find before m after) :
    ∃ w ∈ cutAll finds (before ++ (m ++ after)), m <:+: w := by
  induction finds generalizing before after with
  | nil =>
    exact ⟨_, List.mem_singleton_self _, before, after, List.append_assoc before m after⟩
  | cons find finds ih =>
    obtain ⟨hf, hrest⟩ := List.forall_mem_cons.mp hfinds
    obtain ⟨hclear, hclears⟩ := List.forall_mem_cons.mp h
    obtain ⟨before', after', x, y, rfl, rfl, hmem⟩ := exists_mem_cut_of_clear hf hclear
    obtain ⟨w, hw, hin⟩ := ih hrest fun other hother => (hclears other hother).shorten
    exact ⟨w, List.mem_flatMap.mpr ⟨_, hmem, hw⟩, hin⟩

end EmailTemplate.Text
