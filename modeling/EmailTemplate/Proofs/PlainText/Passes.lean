import EmailTemplate.PlainText.Markup
import EmailTemplate.Proofs.Text.Replace

/-! What a pass over a text makes of its parts, one by one. -/

namespace EmailTemplate.PlainText

open Text

/-! ### Parts of a text -/

/-- The pass makes `v` of `u` at the head of a text, whatever follows. -/
def Turns (pass : List Char → List Char) (u v : List Char) : Prop :=
  ∀ s, pass (u ++ s) = v ++ pass s

section Turns

variable {pass next : List Char → List Char} {u u' v v' w : List Char}

theorem Turns.nil (pass : List Char → List Char) : Turns pass [] [] := fun _ => rfl

theorem Turns.append (h : Turns pass u v) (h' : Turns pass u' v') :
    Turns pass (u ++ u') (v ++ v') := by
  intro s
  rw [List.append_assoc, h, h', List.append_assoc]

theorem Turns.andThen (h : Turns pass u v) (h' : Turns next v w) :
    Turns (fun s => next (pass s)) u w := by
  intro s
  simp only [h s, h' (pass s)]

theorem Turns.eq (h : Turns pass u v) (hnil : pass [] = []) : pass u = v := by
  simpa [hnil] using h []

end Turns

/-! ### Recognisers -/

section Ignores

variable {α : Type} {read : List Char → Option α} {u v : List Char}

/-- Nothing is recognised inside `u`, whatever follows. -/
def Ignores (read : List Char → Option α) (u : List Char) : Prop := ∀ s, Idle read u s

theorem Ignores.nil (read : List Char → Option α) : Ignores read [] := by
  intro s v w h hw
  exact absurd (List.append_eq_nil_iff.mp h.symm).2 hw

theorem Ignores.append (hu : Ignores read u) (hv : Ignores read v) : Ignores read (u ++ v) :=
  fun s => (hu (v ++ s)).append (hv s)

theorem Ignores.of_imp {β : Type} {read' : List Char → Option β} (h : Ignores read u)
    (himp : ∀ s, read s = none → read' s = none) : Ignores read' u :=
  fun s v w hu hw => himp (w ++ s) (h s v w hu hw)

/-- The recogniser looks for tags. -/
def AtTag (read : List Char → Option α) : Prop := ∀ c s, c ≠ '<' → read (c :: s) = none

theorem AtTag.ignores (h : AtTag read) (hu : '<' ∉ u) : Ignores read u := by
  rintro s v w rfl hw
  obtain ⟨c, w, rfl⟩ := List.exists_cons_of_ne_nil hw
  refine h c (w ++ s) ?_
  rintro rfl
  exact hu (by simp)

/-- A tag is looked at where it begins. -/
theorem AtTag.ignores_tag (h : AtTag read) (hu : '<' ∉ u)
    (hread : ∀ s, read ('<' :: (u ++ s)) = none) : Ignores read ('<' :: u) :=
  fun s => Idle.cons (hread s) (h.ignores hu s)

theorem AtTag.bind {β : Type} (h : AtTag read) (f : α → Option β) :
    AtTag fun s => (read s).bind f := by
  intro c s hc
  simp only [h c s hc, Option.bind_none]

theorem AtTag.map {β : Type} (h : AtTag read) (f : List Char → α → β) :
    AtTag fun s => (read s).map (f s) := by
  intro c s hc
  simp only [h c s hc, Option.map_none]

end Ignores

theorem turns_replaceMatches_ignored {step : List Char → Option (List Char × Nat)} {u : List Char}
    (h : Ignores step u) : Turns (replaceMatches step) u u := fun s => replaceMatches_idle (h s)

theorem replaceMatches_of_idle {step : List Char → Option (List Char × Nat)} {s : List Char}
    (h : Idle step s []) : replaceMatches step s = s := by
  have hall := replaceMatches_idle h
  rwa [List.append_nil, replaceMatches_nil, List.append_nil] at hall

section Replace

variable {read : List Char → Option (List Char)} {u : List Char}

@[simp]
theorem taken_append (u s : List Char) : taken (u ++ s) s = u.length := by
  rw [taken, List.length_append, Nat.add_sub_cancel_right]

@[simp]
theorem replaceWith_nil (put : List Char) (read : List Char → Option (List Char)) :
    replaceWith put read [] = [] := rfl

theorem replaceWith_idle {s : List Char} (put : List Char) (h : Idle read u s) :
    replaceWith put read (u ++ s) = u ++ replaceWith put read s := by
  refine replaceMatches_idle ?_
  intro v w hu hw
  simp only [h v w hu hw, Option.map_none]

theorem replaceWith_of_idle {s : List Char} (put : List Char) (h : Idle read s []) :
    replaceWith put read s = s := by
  have hall := replaceWith_idle put h
  rwa [List.append_nil, replaceWith_nil, List.append_nil] at hall

theorem turns_replaceWith_ignored (put : List Char) (h : Ignores read u) :
    Turns (replaceWith put read) u u := fun s => replaceWith_idle put (h s)

theorem replaceWith_cons {c : Char} {s : List Char} (put : List Char) (h : read (c :: s) = none) :
    replaceWith put read (c :: s) = c :: replaceWith put read s := by
  refine replaceMatches_cons ?_
  simp only [h, Option.map_none]

theorem replaceWith_append (put : List Char) (hu : u ≠ []) {s : List Char}
    (h : read (u ++ s) = some s) :
    replaceWith put read (u ++ s) = put ++ replaceWith put read s := by
  refine replaceMatches_match hu ?_
  simp only [h, Option.map_some, taken_append]

theorem replaceWith_cons_suffix {c : Char} {s rest : List Char} (put : List Char)
    (h : read (c :: s) = some rest) (hrest : rest <:+ s) :
    replaceWith put read (c :: s) = put ++ replaceWith put read rest := by
  obtain ⟨u, rfl⟩ := hrest
  exact replaceWith_append put (List.cons_ne_nil c u) h

theorem turns_replaceWith (put : List Char) (hu : u ≠ []) (h : ∀ s, read (u ++ s) = some s) :
    Turns (replaceWith put read) u put := fun s => replaceWith_append put hu (h s)

/-- A pass brings in no characters but those that it puts. -/
theorem mem_replaceWith {put s : List Char} {c : Char} (h : c ∈ replaceWith put read s) :
    c ∈ put ∨ c ∈ s := by
  unfold replaceWith replaceMatches at h
  generalize 0 = skip at h
  induction s generalizing skip with
  | nil => cases skip <;> exact absurd h List.not_mem_nil
  | cons d s ih =>
    have hrest : ∀ skip, c ∈ replaceMatchesFrom
        (fun t => (read t).map fun rest => (put, taken t rest)) skip s → c ∈ put ∨ c ∈ d :: s :=
      fun skip hc => (ih skip hc).imp_right (List.mem_cons_of_mem d)
    cases skip with
    | succ skip => exact hrest skip h
    | zero =>
      cases hread : read (d :: s) with
      | none =>
        simp only [replaceMatchesFrom, hread, Option.map_none] at h
        rcases List.mem_cons.mp h with rfl | h
        · exact .inr List.mem_cons_self
        · exact hrest 0 h
      | some rest =>
        simp only [replaceMatchesFrom, hread, Option.map_some] at h
        exact (List.mem_append.mp h).elim .inl (hrest _)

end Replace

end EmailTemplate.PlainText
