import EmailTemplate.Proofs.Template.Token

/-! Tokens in text that is put together. Where no part leaves a brace open, a token stands in one of
the parts; and replacing a literal without braces touches a token only from inside. -/

namespace EmailTemplate.Template

open Text

/-- No end of the text has more opening than closing braces. -/
def Closed : List Char → Prop
  | [] => True
  | c :: s => (c :: s).count '{' ≤ (c :: s).count '}' ∧ Closed s

theorem Closed.count_le {s : List Char} (h : Closed s) : s.count '{' ≤ s.count '}' := by
  cases s with
  | nil => simp
  | cons c s => exact h.1

theorem Closed.of_append {u v : List Char} (h : Closed (u ++ v)) : Closed v := by
  induction u with
  | nil => exact h
  | cons c u ih => exact ih h.2

theorem Closed.append {u v : List Char} (hu : Closed u) (hv : Closed v) : Closed (u ++ v) := by
  induction u with
  | nil => exact hv
  | cons c u ih =>
    refine ⟨?_, ih hu.2⟩
    have hcount := Nat.add_le_add hu.1 hv.count_le
    rwa [← List.count_append, ← List.count_append] at hcount

theorem BraceFree.count {s : List Char} (h : BraceFree s) : s.count '{' = 0 ∧ s.count '}' = 0 :=
  ⟨List.count_eq_zero.mpr h.open_not_mem, List.count_eq_zero.mpr h.close_not_mem⟩

theorem BraceFree.closed {s : List Char} (h : BraceFree s) : Closed s := by
  induction s with
  | nil => trivial
  | cons c s ih =>
    refine ⟨?_, ih (braceFree_cons.mp h).2⟩
    rw [h.count.1]
    exact Nat.zero_le _

theorem count_token {v : List Char} (hv : BraceFree v) :
    (token v).count '{' = 2 ∧ (token v).count '}' = 2 := by
  simp [token, openBraces, closeBraces, hv.count]

theorem closed_token {v : List Char} (hv : BraceFree v) : Closed (token v) := by
  have htail : Closed (v ++ closeBraces) := hv.closed.append ⟨by decide, by decide, trivial⟩
  have hcount : (v ++ closeBraces).count '{' = 0 ∧ (v ++ closeBraces).count '}' = 2 := by
    simp [closeBraces, hv.count]
  have htoken : token v = '{' :: '{' :: (v ++ closeBraces) := by simp [token, openBraces]
  rw [htoken]
  exact ⟨by simp [hcount], by simp [hcount], htail⟩

/-! ### Where a token stands -/

theorem not_token_infix_of_braceFree {s : List Char} (h : BraceFree s) (v : List Char) :
    ¬ token v <:+: s := by
  intro hv
  have hopen : '{' ∈ token v := by simp [token, openBraces]
  exact h.open_not_mem (hv.subset hopen)

/-- A token that is cut has more opening than closing braces before the cut. -/
theorem count_of_cut_token {v u w : List Char} (hv : BraceFree v) (h : token v = u ++ w)
    (hu : u ≠ []) (hw : w ≠ []) : u.count '}' < u.count '{' := by
  have hclose : u.count '}' + w.count '}' = 2 := by
    rw [← List.count_append, ← h, (count_token hv).2]
  have hlast : '}' ∈ w := by
    have hend : (u ++ w).getLast (by simp [hw]) = '}' := by simp [← h, token, closeBraces]
    rw [List.getLast_append_right hw] at hend
    exact hend ▸ List.getLast_mem hw
  have hpos := List.count_pos_iff.mpr hlast
  rw [← List.append_nil (token v), token_append] at h
  obtain ⟨c, u, rfl⟩ := List.exists_cons_of_ne_nil hu
  obtain rfl : '{' = c := (List.cons.inj h).1
  -- What is before the cut begins with one opening brace, or with two.
  cases u with
  | nil => decide
  | cons d u =>
    obtain rfl : '{' = d := (List.cons.inj (List.cons.inj h).2).1
    simp at hclose ⊢
    omega

theorem token_infix_append_iff {v u w : List Char} (hv : BraceFree v) (hu : Closed u) :
    token v <:+: u ++ w ↔ token v <:+: u ∨ token v <:+: w := by
  rw [List.infix_append_iff_ne_nil]
  refine ⟨?_, fun h => h.elim .inl fun h => .inr (.inl h)⟩
  rintro (h | h | ⟨a, b, ha, hb, hab, ⟨t, rfl⟩, -⟩)
  · exact .inl h
  · exact .inr h
  · have hcut := count_of_cut_token hv hab ha hb
    have hclosed := hu.of_append.count_le
    omega

theorem token_infix_token_iff {v w : List Char} (hv : BraceFree v) (hw : BraceFree w) :
    token v <:+: token w ↔ v = w := by
  refine ⟨fun h => ?_, fun h => h ▸ List.infix_rfl⟩
  have htoken : token v = openBraces ++ (v ++ closeBraces) := by simp [token]
  by_contra hne
  refine Passes.absent (token_ne_nil v) (htoken ▸ passes_token hw fun hp => hne ?_) h
  rw [← htoken] at hp
  exact eq_of_prefix_token hv.close_not_mem hw.close_not_mem hp

/-- A token that begins before another one ends before it. -/
theorem prefix_of_prefix_append_token {w u s : List Char} (hw : BraceFree w) (hu : u ≠ [])
    (h : token w <+: u ++ (token w ++ s)) : token w <+: u := by
  obtain ⟨rest, hrest⟩ := h
  rcases List.append_eq_append_iff.mp hrest with ⟨z, hz, -⟩ | ⟨z, hcut, hover⟩
  · exact ⟨z, hz.symm⟩
  · by_cases hz : z = []
    · exact ⟨[], by rw [hcut, hz, List.append_nil, List.append_nil]⟩
    -- What reaches into the other token is both an end and a beginning of the token.
    have hclosed : Closed z := (hcut ▸ closed_token hw).of_append
    have hlength := congrArg List.length hcut
    have hpos := List.length_pos_iff.mpr hu
    rw [List.length_append] at hlength
    have hbegins : z <+: token w :=
      List.prefix_of_prefix_length_le ⟨rest, hover.symm⟩ (List.prefix_append _ s) (by omega)
    obtain ⟨y, hy⟩ := hbegins
    have hy' : y ≠ [] := by
      rintro rfl
      rw [List.append_nil] at hy
      rw [hy] at hlength
      omega
    have hcount := count_of_cut_token hw hy.symm hz hy'
    have hle := hclosed.count_le
    omega

/-- The text before a token and the text behind it are read apart. -/
theorem replaceAll_around_token {w : List Char} (hw : BraceFree w) (put u s : List Char) :
    replaceAll (token w) put (u ++ (token w ++ s)) =
      replaceAll (token w) put u ++ (put ++ replaceAll (token w) put s) := by
  have hne := token_ne_nil w
  induction u using literal_induction hne with
  | nil => exact replaceAll_literal hne put s
  | found u ih =>
    rw [List.append_assoc, replaceAll_literal hne, replaceAll_literal hne, ih, List.append_assoc]
  | passed c u hp ih =>
    have hpass : ¬ token w <+: c :: (u ++ (token w ++ s)) :=
      fun h => hp (prefix_of_prefix_append_token hw (List.cons_ne_nil c u) h)
    rw [List.cons_append, replaceAll_cons hpass, replaceAll_cons hp, ih, List.cons_append]

theorem countAll_around_token {w : List Char} (hw : BraceFree w) (u s : List Char) :
    countAll (token w) (u ++ (token w ++ s)) = countAll (token w) u + (countAll (token w) s + 1) := by
  have hne := token_ne_nil w
  induction u using literal_induction hne with
  | nil => rw [List.nil_append, countAll_append hne, countAll_nil, Nat.zero_add]
  | found u ih =>
    rw [List.append_assoc, countAll_append hne, countAll_append hne, ih]
    omega
  | passed c u hp ih =>
    have hpass : ¬ token w <+: c :: (u ++ (token w ++ s)) :=
      fun h => hp (prefix_of_prefix_append_token hw (List.cons_ne_nil c u) h)
    rw [List.cons_append, countAll_cons hpass, countAll_cons hp, ih]

/-! ### Replacing inside and around tokens -/

variable {find v q : List Char} 

theorem prefix_of_prefix_replaceAll (hf : find ≠ []) {x s : List Char} (hx : '{' ∉ x) 
    (h : x <+: replaceAll find (token q) s) : x <+: s ∧ ¬ find <:+: x := by
  induction s using literal_induction hf generalizing x with
  | nil =>
    obtain rfl := List.prefix_nil.mp h
    exact ⟨List.nil_prefix, by simp [hf]⟩
  | found s _ =>
    rw [replaceAll_literal hf, token_append] at h
    cases x with
    | nil => exact ⟨List.nil_prefix, by simp [hf]⟩
    | cons c x => exact absurd (by simp [(List.cons_prefix_cons.mp h).1]) hx
  | passed c s hp ih =>
    rw [replaceAll_cons hp] at h
    cases x with
    | nil => exact ⟨List.nil_prefix, by simp [hf]⟩
    | cons d x =>
      obtain ⟨rfl, hrest⟩ := List.cons_prefix_cons.mp h
      obtain ⟨hs, hfind⟩ := ih (fun hm => hx (List.mem_cons_of_mem _ hm)) hrest
      have hcons : d :: x <+: d :: s := List.cons_prefix_cons.mpr ⟨rfl, hs⟩
      refine ⟨hcons, fun hi => ?_⟩
      rcases List.infix_cons_iff.mp hi with hi | hi
      · exact hp (hi.trans hcons)
      · exact hfind hi

theorem prefix_of_cons_prefix_replaceAll (hf : find ≠ []) {x s : List Char} (hx : '{' ∉ x)
    (hne : x ≠ []) (h : '{' :: x <+: replaceAll find (token q) s) :
    '{' :: x <+: s ∧ ¬ find <:+: x := by
  induction s using literal_induction hf with
  | nil => simp at h
  | found s _ =>
    rw [replaceAll_literal hf, token_append, List.cons_prefix_cons] at h
    obtain ⟨c, x, rfl⟩ := List.exists_cons_of_ne_nil hne
    exact absurd (by simp [(List.cons_prefix_cons.mp h.2).1]) hx
  | passed c s hp _ =>
    rw [replaceAll_cons hp, List.cons_prefix_cons] at h
    obtain ⟨hs, hfind⟩ := prefix_of_prefix_replaceAll hf hx h.2
    exact ⟨List.cons_prefix_cons.mpr ⟨h.1, hs⟩, hfind⟩

/-- Replacement puts in no token but its own, and leaves none that has the literal in it. -/
theorem of_token_infix_replaceAll (hf : find ≠ []) (hv : BraceFree v) (hq : BraceFree q)
    {s : List Char} (h : token v <:+: replaceAll find (token q) s) :
    v = q ∨ (token v <:+: s ∧ ¬ find <:+: v) := by
  induction s using literal_induction hf with
  | nil => simp [token_ne_nil] at h
  | found s ih =>
    rw [replaceAll_literal hf, token_infix_append_iff hv (closed_token hq),
      token_infix_token_iff hv hq] at h
    rcases h with h | h
    · exact .inl h
    · exact (ih h).imp_right fun h => ⟨h.1.trans (List.suffix_append find s).isInfix, h.2⟩
  | passed c s hp ih =>
    rw [replaceAll_cons hp, List.infix_cons_iff] at h
    rcases h with h | h
    · rw [← List.append_nil (token v), token_append, List.cons_prefix_cons] at h
      have hx : '{' ∉ v ++ ['}', '}'] := by simp [hv.open_not_mem]
      obtain ⟨hs, hfind⟩ := prefix_of_cons_prefix_replaceAll hf hx (by simp) h.2
      refine .inr ⟨List.infix_cons_iff.mpr (.inl ?_), fun hi => hfind ?_⟩
      · rw [← List.append_nil (token v), token_append]
        exact List.cons_prefix_cons.mpr ⟨h.1, hs⟩
      · exact hi.trans (List.prefix_append v _).isInfix
    · exact (ih h).imp_right fun h => ⟨h.1.trans (List.suffix_cons c s).isInfix, h.2⟩

/-- A literal without braces is replaced before, inside and behind a token. -/
theorem replaceAll_token (hf : find ≠ []) (hfind : BraceFree find) (put u v s : List Char) :
    replaceAll find put (u ++ (token v ++ s)) =
      replaceAll find put u ++ (token (replaceAll find put v) ++ replaceAll find put s) := by
  have hopen := hfind.open_not_mem
  have hclose := hfind.close_not_mem
  have hsecond := replaceAll_append_cons hf hopen put [] (v ++ '}' :: '}' :: s)
  have hlast := replaceAll_append_cons hf hclose put [] s
  simp only [List.nil_append] at hsecond hlast
  rw [token_append, token_append, replaceAll_append_cons hf hopen, hsecond,
    replaceAll_append_cons hf hclose, hlast]
  rfl

/-- A token stays if the literal is not inside it. -/
theorem token_infix_replaceAll (hf : find ≠ []) (hfind : BraceFree find) (hno : ¬ find <:+: v)
    (put : List Char) {s : List Char} (h : token v <:+: s) :
    token v <:+: replaceAll find put s := by
  obtain ⟨a, b, rfl⟩ := h
  refine ⟨replaceAll find put a, replaceAll find put b, ?_⟩
  rw [List.append_assoc, List.append_assoc, replaceAll_token hf hfind, replaceAll_of_absent hno]

theorem count_replaceAll (hf : find ≠ []) (hfind : BraceFree find) (hq : BraceFree q)
    (s : List Char) : (replaceAll find (token q) s).count '{' + s.count '}' =
      (replaceAll find (token q) s).count '}' + s.count '{' := by
  induction s using literal_induction hf with
  | nil => rfl
  | found s ih =>
    simp only [replaceAll_literal hf, List.count_append, hfind.count, count_token hq]
    omega
  | passed c s hp ih =>
    simp only [replaceAll_cons hp, List.count_cons]
    omega

theorem Closed.replaceAll (hf : find ≠ []) (hfind : BraceFree find) (hq : BraceFree q)
    {s : List Char} (h : Closed s) : Closed (replaceAll find (token q) s) := by
  induction s using literal_induction hf with
  | nil => trivial
  | found s ih =>
    rw [replaceAll_literal hf]
    exact (closed_token hq).append (ih h.of_append)
  | passed c s hp ih =>
    have hcount := count_replaceAll hf hfind hq (c :: s)
    have hle := h.1
    rw [replaceAll_cons hp] at hcount ⊢
    exact ⟨by omega, ih h.2⟩

/-! ### Tokens between pieces -/

section Between

variable (hf : find ≠ []) (hfind : BraceFree find) (hno : ¬ find <:+: q)
include hf hfind hno

/-- What has no braces and is not inside a token stands before it or behind it. -/
theorem infix_around_token_iff {u s : List Char} :
    find <:+: u ++ (token q ++ s) ↔ find <:+: u ∨ find <:+: s := by
  have hopen := hfind.open_not_mem
  have hclose := hfind.close_not_mem
  have hsecond := infix_append_cons_iff (u := []) (s := q ++ '}' :: '}' :: s) hopen
  have hlast := infix_append_cons_iff (u := []) (s := s) hclose
  have hnil : ¬ find <:+: [] := fun h => hf (List.infix_nil.mp h)
  simp only [List.nil_append, hnil, false_or] at hsecond hlast
  rw [token_append, infix_append_cons_iff hopen, hsecond, infix_append_cons_iff hclose, hlast,
    or_iff_right hno]

theorem infix_intercalate_token_iff {pieces : List (List Char)} :
    find <:+: (token q).intercalate pieces ↔ ∃ w ∈ pieces, find <:+: w := by
  induction pieces with
  | nil => simp [hf]
  | cons piece pieces ih =>
    cases pieces with
    | nil => simp
    | cons next pieces =>
      rw [List.intercalate_cons_cons, List.append_assoc, infix_around_token_iff hf hfind hno, ih]
      simp

theorem replaceAll_intercalate_token (put : List Char) (pieces : List (List Char)) :
    replaceAll find put ((token q).intercalate pieces) =
      (token q).intercalate (pieces.map (replaceAll find put)) := by
  induction pieces with
  | nil => rfl
  | cons piece pieces ih =>
    cases pieces with
    | nil => simp
    | cons next pieces =>
      rw [List.intercalate_cons_cons, List.append_assoc, replaceAll_token hf hfind,
        replaceAll_of_absent hno, ih, List.map_cons (l := next :: pieces),
        List.intercalate_cons_of_ne_nil (by simp), List.append_assoc]

end Between

end EmailTemplate.Template
