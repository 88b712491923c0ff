import EmailTemplate.Proofs.Text.Replace
import EmailTemplate.Template.Values
import Mathlib.Data.List.TakeWhile

/-! Tokens as they are recognised: exactly the written tokens of an admitted interior. Text without
braces is never part of one. -/

namespace EmailTemplate.Template

open Text

/-! ### Text without braces -/

def BraceFree (s : List Char) : Prop := ∀ c ∈ s, isBrace c = false

instance (s : List Char) : Decidable (BraceFree s) := List.decidableBAll _ s

theorem BraceFree.nil : BraceFree [] := by simp [BraceFree]

@[simp]
theorem braceFree_cons {c : Char} {s : List Char} :
    BraceFree (c :: s) ↔ isBrace c = false ∧ BraceFree s := List.forall_mem_cons

@[simp]
theorem braceFree_append {s t : List Char} : BraceFree (s ++ t) ↔ BraceFree s ∧ BraceFree t :=
  List.forall_mem_append

theorem braceFree_both (u v : List Char) (hu : BraceFree u) (hv : BraceFree v) :
    BraceFree (u ++ v) := braceFree_append.mpr ⟨hu, hv⟩

theorem BraceFree.open_not_mem {s : List Char} (h : BraceFree s) : '{' ∉ s :=
  fun hm => by simpa [isBrace] using h _ hm

theorem BraceFree.close_not_mem {s : List Char} (h : BraceFree s) : '}' ∉ s :=
  fun hm => by simpa [isBrace] using h _ hm

theorem braceFree_iff {s : List Char} : BraceFree s ↔ '{' ∉ s ∧ '}' ∉ s := by
  refine ⟨fun h => ⟨h.open_not_mem, h.close_not_mem⟩, fun h c hc => ?_⟩
  have hopen : c ≠ '{' := fun he => h.1 (he ▸ hc)
  have hclose : c ≠ '}' := fun he => h.2 (he ▸ hc)
  simp [isBrace, hopen, hclose]

/-! ### Written tokens -/

@[simp]
theorem length_token (inner : List Char) : (token inner).length = inner.length + 4 := by
  simp only [token, openBraces, closeBraces, List.length_append, List.length_cons, List.length_nil]
  omega

theorem token_ne_nil (inner : List Char) : token inner ≠ [] := by
  simp [token, openBraces]

theorem token_append (inner s : List Char) :
    token inner ++ s = '{' :: '{' :: (inner ++ '}' :: '}' :: s) := by
  simp [token, openBraces, closeBraces]

/-- What a token begins with, beyond its opening braces, its interior begins with. -/
theorem openBraces_append_prefix_token_iff {m w s : List Char} (hm : '}' ∉ m) :
    openBraces ++ m <+: token w ++ s ↔ m <+: w := by
  rw [token_append, openBraces, List.cons_append, List.cons_append, List.nil_append,
    List.cons_prefix_cons, List.cons_prefix_cons, prefix_append_cons_iff hm]
  simp

/-- After its first brace a token has no two opening braces. -/
theorem passes_token_tail {w : List Char} (hw : BraceFree w) (m s : List Char) :
    Passes (openBraces ++ m) ('{' :: (w ++ closeBraces)) s := by
  have hrest : '{' ∉ w ++ closeBraces := by simp [closeBraces, hw.open_not_mem]
  refine Passes.cons ?_ (Passes.of_not_mem hrest s)
  intro hp
  have hsecond : '{' :: m <+: (w ++ closeBraces) ++ s := (List.cons_prefix_cons.mp hp).2
  cases w with
  | nil => simp [closeBraces] at hsecond
  | cons c w =>
    have hc : '{' = c := (List.cons_prefix_cons.mp hsecond).1
    exact hw.open_not_mem (hc ▸ List.mem_cons_self)

/-- A literal that begins with two opening braces begins in a token only where the token does. -/
theorem passes_token {m w s : List Char} (hw : BraceFree w)
    (h : ¬ openBraces ++ m <+: token w ++ s) : Passes (openBraces ++ m) (token w) s := by
  have htoken : token w = '{' :: '{' :: (w ++ closeBraces) := by simp [token, openBraces]
  rw [htoken] at h ⊢
  exact Passes.cons h (passes_token_tail hw m s)

/-- Two texts that are equal up to their first closing braces. -/
theorem append_closing_inj {u v s t : List Char} (hu : '}' ∉ u) (hv : '}' ∉ v)
    (h : u ++ '}' :: s = v ++ '}' :: t) : u = v ∧ s = t := by
  have huv : u = v := by
    have ht := congrArg (List.takeWhile (· != '}')) h
    rwa [takeWhile_append_stop (bne_of_not_mem hu) (by decide),
      takeWhile_append_stop (bne_of_not_mem hv) (by decide)] at ht
  subst huv
  simpa using h

/-- A token begins with no other token. -/
theorem eq_of_prefix_token {u w s : List Char} (hu : '}' ∉ u) (hw : '}' ∉ w)
    (h : token u <+: token w ++ s) : u = w := by
  obtain ⟨t, ht⟩ := h
  rw [token_append, token_append, List.cons.injEq, List.cons.injEq] at ht
  exact (append_closing_inj hu hw ht.2.2).1

section Recognition

variable {inside : Char → Bool}

theorem tokenAt?_token {inner : List Char} (hstop : inside '}' = false)
    (hin : ∀ c ∈ inner, inside c = true) (s : List Char) :
    tokenAt? inside (token inner ++ s) = some (inner, (token inner).length) := by
  have hs : token inner ++ s = openBraces ++ (inner ++ '}' :: ('}' :: s)) := by
    simp [token, closeBraces]
  have hc : '}' :: '}' :: s = closeBraces ++ s := rfl
  rw [hs, tokenAt?, after?_append, Option.bind_some, takeWhile_append_stop hin hstop,
    dropWhile_append_stop hin hstop, hc, after?_append, Option.map_some, length_token]

theorem tokenAt?_eq_some {s inner : List Char} {n : Nat}
    (h : tokenAt? inside s = some (inner, n)) :
    ∃ rest, s = token inner ++ rest ∧ (∀ c ∈ inner, inside c = true) ∧ n = (token inner).length := by
  simp only [tokenAt?, Option.bind_eq_some_iff, Option.map_eq_some_iff, Prod.mk.injEq] at h
  obtain ⟨t, ht, rest, hrest, rfl, rfl⟩ := h
  refine ⟨rest, ?_, fun c hc => (List.mem_takeWhile_imp hc), (length_token _).symm⟩
  have hd := after?_eq_some_iff.mp hrest
  rw [after?_eq_some_iff.mp ht, token]
  conv_lhs => rw [← List.takeWhile_append_dropWhile (p := inside) (l := t), hd]
  simp only [List.append_assoc]

theorem tokenAt?_eq_none_iff {s : List Char} (hstop : inside '}' = false) :
    tokenAt? inside s = none ↔
      ∀ inner rest, (∀ c ∈ inner, inside c = true) → s ≠ token inner ++ rest := by
  constructor
  · rintro h inner rest hin rfl
    simp [tokenAt?_token hstop hin] at h
  · intro h
    rw [Option.eq_none_iff_forall_ne_some]
    rintro ⟨inner, n⟩ hs
    obtain ⟨rest, rfl, hin, -⟩ := tokenAt?_eq_some hs
    exact h inner rest hin rfl

theorem tokenAt?_eq_none {s : List Char} (h : ¬ openBraces <+: s) : tokenAt? inside s = none := by
  rw [tokenAt?, after?_eq_none_iff.mpr h, Option.bind_none]

/-- A token begins with an opening brace. -/
theorem tokenAt?_cons_of_ne {c : Char} (hc : c ≠ '{') (s : List Char) :
    tokenAt? inside (c :: s) = none := by
  simp [tokenAt?, openBraces, after?, Ne.symm hc]

end Recognition

end EmailTemplate.Template
