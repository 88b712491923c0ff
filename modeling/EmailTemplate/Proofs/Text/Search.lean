import EmailTemplate.Text.Find
import Mathlib.Data.List.Infix

/-! What a search finds: the literal as a prefix, as the first infix, or not at all. -/

namespace EmailTemplate.Text

theorem after?_eq_some_iff {head s rest : List Char} :
    after? head s = some rest ↔ s = head ++ rest := by
  induction head generalizing s with
  | nil => simp [after?, eq_comm]
  | cons x xs ih =>
    cases s with
    | nil => simp [after?]
    | cons c cs =>
      by_cases hx : x = c
      · simp [after?, hx, ih]
      · simp [after?, hx, Ne.symm hx]

@[simp]
theorem after?_append (head rest : List Char) : after? head (head ++ rest) = some rest :=
  after?_eq_some_iff.mpr rfl

theorem after?_eq_none_iff {head s : List Char} : after? head s = none ↔ ¬ head <+: s := by
  rw [Option.eq_none_iff_forall_ne_some]
  constructor
  · rintro h ⟨rest, rfl⟩
    exact h rest (after?_append head rest)
  · intro h rest hr
    exact h ⟨rest, (after?_eq_some_iff.mp hr).symm⟩

theorem splitFirst?_cons_of_not {find s : List Char} {c : Char} (h : ¬ find <+: c :: s) :
    splitFirst? find (c :: s) = (splitFirst? find s).map fun p => (c :: p.1, p.2) := by
  rw [splitFirst?, after?_eq_none_iff.mpr h]

theorem splitFirst?_append {find : List Char} (hf : find ≠ []) (rest : List Char) :
    splitFirst? find (find ++ rest) = some ([], rest) := by
  obtain ⟨c, cs, rfl⟩ := List.exists_cons_of_ne_nil hf
  have h : after? (c :: cs) (c :: (cs ++ rest)) = some rest := after?_append (c :: cs) rest
  rw [List.cons_append, splitFirst?, h]

/-- A literal does not reach over a character that it does not have. -/
theorem prefix_append_cons_iff {find u s : List Char} {c : Char} (hc : c ∉ find) :
    find <+: u ++ c :: s ↔ find <+: u := by
  refine ⟨fun h => ?_, fun h => h.trans (List.prefix_append _ _)⟩
  induction u generalizing find with
  | nil =>
    cases find with
    | nil => exact List.prefix_rfl
    | cons f fs =>
      have hf : f = c := (List.cons_prefix_cons.mp h).1
      exact absurd (by simp [hf]) hc
  | cons d u ih =>
    cases find with
    | nil => exact List.nil_prefix
    | cons f fs =>
      rw [List.cons_append, List.cons_prefix_cons] at h
      exact List.cons_prefix_cons.mpr ⟨h.1, ih (fun hm => hc (by simp [hm])) h.2⟩

theorem infix_append_cons_iff {find u s : List Char} {c : Char} (hc : c ∉ find) :
    find <:+: u ++ c :: s ↔ find <:+: u ∨ find <:+: s := by
  constructor
  · intro h
    induction u with
    | nil =>
      refine (List.infix_cons_iff.mp h).imp (fun hp => ?_) id
      rw [List.prefix_nil.mp ((prefix_append_cons_iff hc).mp hp : find <+: [])]
    | cons d u ih =>
      rcases List.infix_cons_iff.mp h with hp | h
      · exact .inl ((prefix_append_cons_iff (u := d :: u) hc).mp hp).isInfix
      · exact (ih h).imp_left fun h => h.trans (List.suffix_cons d u).isInfix
  · rintro (h | h)
    · exact h.trans (List.prefix_append u _).isInfix
    · exact h.trans ((List.suffix_cons c s).trans (List.suffix_append u _)).isInfix

/-- Around the only mark the parts of an infix come apart. -/
theorem infix_mark_iff {A B u w : List Char} {m : Char} (hA : m ∉ A) (hB : m ∉ B) :
    u ++ m :: w <:+: A ++ m :: B ↔ u <:+ A ∧ w <+: B := by
  constructor
  · rintro ⟨x, y, h⟩
    have hparts : A ++ m :: B = (x ++ u) ++ m :: (w ++ y) := by
      rw [← h]
      simp
    obtain ⟨rfl, -, rfl⟩ := (List.append_cons_inj_of_notMem hA hB).mp hparts
    exact ⟨List.suffix_append x u, List.prefix_append w y⟩
  · rintro ⟨⟨x, rfl⟩, ⟨y, rfl⟩⟩
    exact ⟨x, y, by simp⟩

theorem takeWhile_append_stop {p : Char → Bool} {u s : List Char} {c : Char}
    (hu : ∀ x ∈ u, p x = true) (hc : p c = false) : (u ++ c :: s).takeWhile p = u := by
  rw [List.takeWhile_append_of_pos hu, List.takeWhile_cons_of_neg (by simp [hc]), List.append_nil]

theorem dropWhile_append_stop {p : Char → Bool} {u s : List Char} {c : Char}
    (hu : ∀ x ∈ u, p x = true) (hc : p c = false) : (u ++ c :: s).dropWhile p = c :: s := by
  rw [List.dropWhile_append_of_pos hu, List.dropWhile_cons_of_neg (by simp [hc])]

theorem bne_of_not_mem {u : List Char} {c : Char} (h : c ∉ u) : ∀ x ∈ u, (x != c) = true := by
  intro x hx
  rw [bne_iff_ne]
  rintro rfl
  exact h hx

/-- A literal with a mark at its end ends at the first mark of a text, or stands behind it. -/
theorem infix_marked_iff {A B u : List Char} {m : Char} (hA : m ∉ A) (hu : m ∉ u) :
    u ++ [m] <:+: A ++ m :: B ↔ u <:+ A ∨ u ++ [m] <:+: B := by
  constructor
  · rintro ⟨x, y, h⟩
    have hparts : x ++ (u ++ m :: y) = A ++ m :: B := by simpa using h
    rcases List.append_eq_append_iff.mp hparts with ⟨z, rfl, hz⟩ | ⟨z, rfl, hz⟩
    · have hzm : m ∉ z := fun hm => hA (List.mem_append_right x hm)
      have hstop := congrArg (List.takeWhile (· != m)) hz
      rw [takeWhile_append_stop (bne_of_not_mem hu) (by simp),
        takeWhile_append_stop (bne_of_not_mem hzm) (by simp)] at hstop
      exact .inl ⟨x, by rw [hstop]⟩
    · rcases List.cons_eq_append_iff.mp hz with ⟨rfl, hnil⟩ | ⟨z, rfl, rfl⟩
      · rcases List.append_eq_cons_iff.mp hnil with ⟨rfl, -⟩ | ⟨v, rfl, -⟩
        · exact .inl List.nil_suffix
        · exact absurd List.mem_cons_self hu
      · exact .inr ⟨z, y, by simp⟩
  · rintro (⟨x, rfl⟩ | h)
    · exact ⟨x, B, by simp⟩
    · exact h.trans ((List.suffix_cons m B).trans (List.suffix_append A _)).isInfix

/-- No match of the literal begins inside `u`, whatever it may reach into `s`. -/
def Passes (find u s : List Char) : Prop := ∀ v w, u = v ++ w → w ≠ [] → ¬ find <+: w ++ s

theorem Passes.nil (find s : List Char) : Passes find [] s := by
  intro v w h hw
  exact absurd (List.append_eq_nil_iff.mp h.symm).2 hw

theorem Passes.cons {find u s : List Char} {c : Char} (hc : ¬ find <+: c :: (u ++ s))
    (h : Passes find u s) : Passes find (c :: u) s := by
  intro v w hvw hw
  rcases List.cons_eq_append_iff.mp hvw with ⟨rfl, rfl⟩ | ⟨v', rfl, hu⟩
  · exact hc
  · exact h v' w hu hw

theorem Passes.of_cons {find u s : List Char} {c : Char} (h : Passes find (c :: u) s) :
    ¬ find <+: c :: (u ++ s) ∧ Passes find u s := by
  refine ⟨h [] (c :: u) rfl (by simp), ?_⟩
  rintro v w rfl hw
  exact h (c :: v) w rfl hw

theorem Passes.append {find u v s : List Char} (hu : Passes find u (v ++ s))
    (hv : Passes find v s) : Passes find (u ++ v) s := by
  induction u with
  | nil => exact hv
  | cons c u ih =>
    have hc := hu.of_cons
    refine Passes.cons ?_ (ih hc.2)
    rw [List.append_eq, List.append_assoc]
    exact hc.1

/-- A text without the first character of the literal is passed. -/
theorem Passes.of_not_mem {f : Char} {fs u : List Char} (h : f ∉ u) (s : List Char) :
    Passes (f :: fs) u s := by
  rintro v w rfl hw hp
  obtain ⟨c, w, rfl⟩ := List.exists_cons_of_ne_nil hw
  have hc : f = c := (List.cons_prefix_cons.mp hp).1
  exact h (by simp [hc])

theorem Passes.extend {find u s : List Char} (h : Passes find u s) (m : List Char) :
    Passes (find ++ m) u s :=
  fun v w hvw hw hp => h v w hvw hw ((List.prefix_append find m).trans hp)

theorem Passes.absent {find u : List Char} (hf : find ≠ []) (h : Passes find u []) :
    ¬ find <:+: u := by
  rintro ⟨v, w, rfl⟩
  refine h v (find ++ w) (by rw [List.append_assoc]) (by simp [hf]) ?_
  rw [List.append_nil]
  exact List.prefix_append find w

theorem splitFirst?_of_passes {find u s : List Char} (h : Passes find u s) :
    splitFirst? find (u ++ s) = (splitFirst? find s).map fun p => (u ++ p.1, p.2) := by
  induction u with
  | nil => simp
  | cons c u ih =>
    rw [List.cons_append, splitFirst?_cons_of_not h.of_cons.1, ih h.of_cons.2, Option.map_map]
    rfl

theorem splitFirst?_eq_some {find s before rest : List Char}
    (h : splitFirst? find s = some (before, rest)) : s = before ++ find ++ rest := by
  induction s generalizing before rest with
  | nil =>
    cases find with
    | nil => simp_all [splitFirst?]
    | cons x xs => simp [splitFirst?] at h
  | cons c s ih =>
    by_cases hp : find <+: c :: s
    · obtain ⟨t, ht⟩ := hp
      have ha : after? find (c :: s) = some t := after?_eq_some_iff.mpr ht.symm
      simp only [splitFirst?, ha, Option.some.injEq, Prod.mk.injEq] at h
      obtain ⟨rfl, rfl⟩ := h
      exact ht.symm
    · rw [splitFirst?_cons_of_not hp, Option.map_eq_some_iff] at h
      obtain ⟨⟨u, t⟩, hu, heq⟩ := h
      obtain ⟨rfl, rfl⟩ := Prod.mk.inj heq
      simp [ih hu]

theorem splitFirst?_eq_none_iff {find s : List Char} :
    splitFirst? find s = none ↔ ¬ find <:+: s := by
  induction s with
  | nil =>
    cases find with
    | nil => simp [splitFirst?]
    | cons x xs => simp [splitFirst?]
  | cons c s ih =>
    rw [List.infix_cons_iff, not_or, ← ih]
    by_cases hp : find <+: c :: s
    · obtain ⟨t, ht⟩ := hp
      have ha : after? find (c :: s) = some t := after?_eq_some_iff.mpr ht.symm
      simp [splitFirst?, ← ht]
    · simp [splitFirst?_cons_of_not hp, hp]

theorem occurs_iff {find s : List Char} : occurs find s = true ↔ find <:+: s := by
  rw [occurs, ← not_iff_not, Bool.not_eq_true, Option.isSome_eq_false_iff,
    Option.isNone_iff_eq_none]
  exact splitFirst?_eq_none_iff

theorem begins_iff {head s : List Char} : begins head s = true ↔ head <+: s := by
  rw [begins, ← not_iff_not, Bool.not_eq_true, Option.isSome_eq_false_iff, Option.isNone_iff_eq_none]
  exact after?_eq_none_iff

end EmailTemplate.Text
