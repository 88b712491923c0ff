import EmailTemplate.Proofs.Text.Search

/-! Replacement from left to right, one match or one character at a time. -/

namespace EmailTemplate.Text

variable {step : List Char → Option (List Char × Nat)}

theorem replaceMatchesFrom_eq_drop (step : List Char → Option (List Char × Nat)) (n : Nat)
    (s : List Char) : replaceMatchesFrom step n s = replaceMatches step (s.drop n) := by
  induction n generalizing s with
  | zero => rfl
  | succ n ih =>
    cases s with
    | nil => simp [replaceMatchesFrom, replaceMatches]
    | cons c s => simpa only [replaceMatchesFrom, List.drop_succ_cons] using ih s

@[simp]
theorem replaceMatches_nil (step : List Char → Option (List Char × Nat)) :
    replaceMatches step [] = [] := rfl

theorem replaceMatches_cons {c : Char} {s : List Char} (h : step (c :: s) = none) :
    replaceMatches step (c :: s) = c :: replaceMatches step s := by
  simp only [replaceMatches, replaceMatchesFrom, h]

theorem replaceMatches_match {u s put : List Char} (hu : u ≠ [])
    (h : step (u ++ s) = some (put, u.length)) :
    replaceMatches step (u ++ s) = put ++ replaceMatches step s := by
  obtain ⟨c, u, rfl⟩ := List.exists_cons_of_ne_nil hu
  simp only [List.cons_append] at h ⊢
  simp only [replaceMatches, replaceMatchesFrom, h]
  rw [replaceMatchesFrom_eq_drop]
  simp [replaceMatches]

theorem replaceMatchesFrom_congr {step' : List Char → Option (List Char × Nat)} {s : List Char}
    (h : ∀ t, t <:+ s → step t = step' t) (n : Nat) :
    replaceMatchesFrom step n s = replaceMatchesFrom step' n s := by
  induction s generalizing n with
  | nil => cases n <;> rfl
  | cons c s ih =>
    have hrest := ih fun t ht => h t (ht.trans (List.suffix_cons c s))
    cases n with
    | zero =>
      simp only [replaceMatchesFrom, h (c :: s) (List.suffix_refl _), hrest]
    | succ n => simpa only [replaceMatchesFrom] using hrest n

/-- A replacement depends on what is recognised at the ends of the text alone. -/
theorem replaceMatches_congr {step' : List Char → Option (List Char × Nat)} {s : List Char}
    (h : ∀ t, t <:+ s → step t = step' t) : replaceMatches step s = replaceMatches step' s :=
  replaceMatchesFrom_congr h 0

section Idle

variable {α : Type} {read : List Char → Option α}

/-- Nothing is recognised inside `u`, whatever it may reach into `s`. -/
def Idle (read : List Char → Option α) (u s : List Char) : Prop :=
  ∀ v w, u = v ++ w → w ≠ [] → read (w ++ s) = none

theorem Idle.of_cons {u s : List Char} {c : Char} (h : Idle read (c :: u) s) :
    read (c :: (u ++ s)) = none ∧ Idle read u s := by
  refine ⟨h [] (c :: u) rfl (by simp), ?_⟩
  rintro v w rfl hw
  exact h (c :: v) w rfl hw

theorem Idle.cons {u s : List Char} {c : Char} (hc : read (c :: (u ++ s)) = none)
    (h : Idle read u s) : Idle read (c :: u) s := by
  intro v w hvw hw
  rcases List.cons_eq_append_iff.mp hvw with ⟨rfl, rfl⟩ | ⟨v', rfl, hu⟩
  · exact hc
  · exact h v' w hu hw

theorem Idle.append {u v s : List Char} (hu : Idle read u (v ++ s)) (hv : Idle read v s) :
    Idle read (u ++ v) s := by
  induction u with
  | nil => exact hv
  | cons c u ih =>
    obtain ⟨hat, hrest⟩ := hu.of_cons
    refine Idle.cons ?_ (ih hrest)
    simpa using hat

end Idle

theorem replaceMatches_idle {u s : List Char} (h : Idle step u s) :
    replaceMatches step (u ++ s) = u ++ replaceMatches step s := by
  induction u with
  | nil => rfl
  | cons c u ih =>
    rw [List.cons_append, replaceMatches_cons h.of_cons.1, ih h.of_cons.2, List.cons_append]

theorem literal_eq_none_iff {find put s : List Char} : literal find put s = none ↔ ¬ find <+: s := by
  rw [literal, Option.map_eq_none_iff, after?_eq_none_iff]

theorem idle_literal_iff {find put u s : List Char} :
    Idle (literal find put) u s ↔ Passes find u s := by
  simp only [Idle, Passes, literal_eq_none_iff]

theorem replaceAll_passes {find put u s : List Char} (h : Passes find u s) :
    replaceAll find put (u ++ s) = u ++ replaceAll find put s :=
  replaceMatches_idle (idle_literal_iff.mpr h)

theorem replaceAll_literal {find : List Char} (hf : find ≠ []) (put s : List Char) :
    replaceAll find put (find ++ s) = put ++ replaceAll find put s :=
  replaceMatches_match hf (by simp [literal])

@[simp]
theorem replaceAll_nil (find put : List Char) : replaceAll find put [] = [] := rfl

theorem replaceAll_cons {find s : List Char} {c : Char} (h : ¬ find <+: c :: s) (put : List Char) :
    replaceAll find put (c :: s) = c :: replaceAll find put s :=
  replaceMatches_cons (literal_eq_none_iff.mpr h)

/-- A text is read as replacement reads it: past an occurrence, or past a character. -/
theorem literal_induction {find : List Char} (hf : find ≠ []) {p : List Char → Prop} (nil : p [])
    (found : ∀ s, p s → p (find ++ s))
    (passed : ∀ c s, ¬ find <+: c :: s → p s → p (c :: s)) (s : List Char) : p s := by
  induction hn : s.length using Nat.strongRecOn generalizing s with
  | ind n ih =>
    cases s with
    | nil => exact nil
    | cons c s =>
      by_cases hp : find <+: c :: s
      · obtain ⟨rest, hrest⟩ := hp
        have hlength := congrArg List.length hrest
        have hpos := List.length_pos_iff.mpr hf
        rw [List.length_append, hn] at hlength
        rw [← hrest]
        exact found rest (ih rest.length (by omega) rest rfl)
      · exact passed c s hp (ih s.length (by simp [← hn]) s rfl)

/-- A literal does not reach over a character that it does not have. -/
theorem replaceAll_append_cons {find : List Char} (hf : find ≠ []) {c : Char} (hc : c ∉ find)
    (put u s : List Char) : replaceAll find put (u ++ c :: s) =
      replaceAll find put u ++ c :: replaceAll find put s := by
  have hno : ∀ t, ¬ find <+: c :: t := by
    intro t hp
    exact hf (List.prefix_nil.mp ((prefix_append_cons_iff hc).mp hp : find <+: []))
  induction u using literal_induction hf with
  | nil => exact replaceAll_cons (hno s) put
  | found u ih => rw [List.append_assoc, replaceAll_literal hf, replaceAll_literal hf, ih,
      List.append_assoc]
  | passed d u hp ih =>
    have hd : ¬ find <+: d :: (u ++ c :: s) := fun h => hp ((prefix_append_cons_iff hc).mp h)
    rw [List.cons_append, replaceAll_cons hd, replaceAll_cons hp, ih, List.cons_append]

theorem replaceAll_of_absent {find s : List Char} (h : ¬ find <:+: s) (put : List Char) :
    replaceAll find put s = s := by
  induction s with
  | nil => rfl
  | cons c s ih =>
    rw [List.infix_cons_iff, not_or] at h
    rw [replaceAll_cons h.1, ih h.2]

/-! ### Counting -/

theorem collectFrom_eq_drop {α : Type} (step : List Char → Option (α × Nat)) (n : Nat)
    (s : List Char) : collectFrom step n s = collect step (s.drop n) := by
  induction n generalizing s with
  | zero => rfl
  | succ n ih =>
    cases s with
    | nil => simp [collectFrom, collect]
    | cons c s => simpa only [collectFrom, List.drop_succ_cons] using ih s

section Collect

variable {α : Type} {step : List Char → Option (α × Nat)}

theorem collect_idle {u s : List Char} (h : Idle step u s) : collect step (u ++ s) = collect step s := by
  induction u with
  | nil => rfl
  | cons c u ih =>
    obtain ⟨hc, hrest⟩ := h.of_cons
    rw [← ih hrest]
    simp only [collect, List.cons_append, collectFrom, hc]

theorem collect_match {u s : List Char} {found : α} (hu : u ≠ [])
    (h : step (u ++ s) = some (found, u.length)) :
    collect step (u ++ s) = found :: collect step s := by
  obtain ⟨c, u, rfl⟩ := List.exists_cons_of_ne_nil hu
  simp only [List.cons_append] at h ⊢
  simp only [collect, collectFrom, h]
  rw [collectFrom_eq_drop]
  simp [collect]

theorem exists_of_mem_collectFrom {s : List Char} {n : Nat} {found : α}
    (h : found ∈ collectFrom step n s) : ∃ t length, t <:+ s ∧ step t = some (found, length) := by
  induction s generalizing n with
  | nil => cases n <;> exact absurd h List.not_mem_nil
  | cons c s ih =>
    have hrest : ∀ n, found ∈ collectFrom step n s →
        ∃ t length, t <:+ c :: s ∧ step t = some (found, length) := by
      intro n hn
      obtain ⟨t, length, ht, hat⟩ := ih hn
      exact ⟨t, length, ht.trans (List.suffix_cons c s), hat⟩
    cases n with
    | succ n => exact hrest n h
    | zero =>
      rw [collectFrom] at h
      cases hat : step (c :: s) with
      | none =>
        rw [hat] at h
        exact hrest 0 h
      | some first =>
        obtain ⟨first, length⟩ := first
        rw [hat] at h
        rcases List.mem_cons.mp h with rfl | h
        · exact ⟨c :: s, length, List.suffix_refl _, hat⟩
        · exact hrest _ h

end Collect

@[simp]
theorem countAll_nil (find : List Char) : countAll find [] = 0 := rfl

theorem countAll_cons {find s : List Char} {c : Char} (h : ¬ find <+: c :: s) :
    countAll find (c :: s) = countAll find s := by
  simp only [countAll, collect, collectFrom, after?_eq_none_iff.mpr h, Option.map_none]

theorem countAll_append {find : List Char} (hf : find ≠ []) (s : List Char) :
    countAll find (find ++ s) = countAll find s + 1 := by
  have hat : (after? find (find ++ s)).map (fun _ => ((), find.length)) = some ((), find.length) := by
    rw [after?_append, Option.map_some]
  rw [countAll, collect_match hf hat, List.length_cons, countAll]

theorem length_replaceAll {find : List Char} (hf : find ≠ []) (put s : List Char) :
    (replaceAll find put s).length + countAll find s * find.length =
      s.length + countAll find s * put.length := by
  induction s using literal_induction hf with
  | nil => simp
  | found s ih =>
    rw [replaceAll_literal hf, countAll_append hf, Nat.add_mul, Nat.add_mul, List.length_append,
      List.length_append]
    omega
  | passed c s hp ih =>
    rw [replaceAll_cons hp, countAll_cons hp, List.length_cons, List.length_cons]
    omega

theorem replaceAll_eq_self_iff {find put s : List Char} (hf : find ≠ []) :
    replaceAll find put s = s ↔ put = find ∨ countAll find s = 0 := by
  induction s using literal_induction hf with
  | nil => simp
  | found s ih =>
    rw [replaceAll_literal hf, countAll_append hf]
    constructor
    · intro he
      have hlength := length_replaceAll hf put (find ++ s)
      rw [replaceAll_literal hf, he, countAll_append hf, Nat.add_left_cancel_iff] at hlength
      have hsame := Nat.eq_of_mul_eq_mul_left (Nat.succ_pos _) hlength
      exact .inl (List.append_inj_left he hsame.symm)
    · rintro (rfl | h)
      · rw [ih.mpr (.inl rfl)]
      · exact absurd h (Nat.succ_ne_zero _)
  | passed c s hp ih =>
    rw [replaceAll_cons hp, countAll_cons hp, List.cons.injEq, ← ih]
    exact and_iff_right rfl

/-- Where an occurrence is counted, one is replaced. -/
theorem infix_replaceAll_of_countAll {find : List Char} (hf : find ≠ []) (put : List Char)
    {s : List Char} (h : countAll find s ≠ 0) : put <:+: replaceAll find put s := by
  induction s using literal_induction hf with
  | nil => simp at h
  | found s _ =>
    rw [replaceAll_literal hf]
    exact (List.prefix_append put _).isInfix
  | passed c s hp ih =>
    rw [countAll_cons hp] at h
    rw [replaceAll_cons hp]
    exact (ih h).trans (List.suffix_cons c _).isInfix

end EmailTemplate.Text
