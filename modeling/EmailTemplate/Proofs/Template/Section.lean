import EmailTemplate.Proofs.Template.Token
import EmailTemplate.Template.Section

/-! How sections are recognised and resolved: the opener at the head of a text, and one step of
the resolution. -/

namespace EmailTemplate.Template

open Text

def IsName (name : List Char) : Prop := name ≠ [] ∧ ∀ c ∈ name, isNameChar c = true

instance (name : List Char) : Decidable (IsName name) :=
  have : Decidable (∀ c ∈ name, isNameChar c = true) := List.decidableBAll _ name
  inferInstanceAs (Decidable (name ≠ [] ∧ ∀ c ∈ name, isNameChar c = true))

theorem isNameChar_brace : isNameChar '{' = false ∧ isNameChar '}' = false := by decide

theorem IsName.braceFree {name : List Char} (h : IsName name) : BraceFree name := by
  rw [braceFree_iff]
  constructor
  · intro hm
    simpa [isNameChar_brace.1] using h.2 _ hm
  · intro hm
    simpa [isNameChar_brace.2] using h.2 _ hm

/-- The words of an opener and of a closer are tokens like others. -/
def openerWord (name : List Char) : List Char := ['#', 'b', 'l', 'o', 'c', 'k', ':'] ++ name

def closerWord (name : List Char) : List Char := ['/', 'b', 'l', 'o', 'c', 'k', ':'] ++ name

theorem sectionOpener_eq (name : List Char) : sectionOpener name = token (openerWord name) := by
  simp [sectionOpener, sectionMark, openerWord, token]

theorem sectionCloser_eq (name : List Char) : sectionCloser name = token (closerWord name) := by
  simp [sectionCloser, sectionEndMark, closerWord, token]

theorem IsName.openerWord_braceFree {name : List Char} (h : IsName name) :
    BraceFree (openerWord name) := by
  rw [openerWord, braceFree_append]
  exact ⟨by decide, h.braceFree⟩

theorem IsName.closerWord_braceFree {name : List Char} (h : IsName name) :
    BraceFree (closerWord name) := by
  rw [closerWord, braceFree_append]
  exact ⟨by decide, h.braceFree⟩

theorem sectionAt?_opener {name : List Char} (h : IsName name) (s : List Char) :
    sectionAt? (sectionOpener name ++ s) = some (name, s) := by
  have hs : sectionOpener name ++ s = sectionMark ++ (name ++ '}' :: ('}' :: s)) := by
    simp [sectionOpener, closeBraces]
  have hc : '}' :: '}' :: s = closeBraces ++ s := rfl
  have hempty : name.isEmpty = false := by simp [h.1]
  simp only [hs, sectionAt?, after?_append, Option.bind_some,
    takeWhile_append_stop h.2 isNameChar_brace.2, dropWhile_append_stop h.2 isNameChar_brace.2, hempty]
  rw [hc, after?_append]
  rfl

theorem sectionAt?_eq_some {s name rest : List Char} (h : sectionAt? s = some (name, rest)) :
    IsName name ∧ s = sectionOpener name ++ rest := by
  simp only [sectionAt?, Option.bind_eq_some_iff] at h
  obtain ⟨t, ht, h⟩ := h
  split at h
  · simp at h
  · next hempty =>
    simp only [Option.map_eq_some_iff, Prod.mk.injEq] at h
    obtain ⟨u, hu, rfl, rfl⟩ := h
    have hname : IsName (t.takeWhile isNameChar) :=
      ⟨by simpa using hempty, fun c hc => List.mem_takeWhile_imp hc⟩
    have hsplit := List.takeWhile_append_dropWhile (p := isNameChar) (l := t)
    rw [after?_eq_some_iff.mp hu] at hsplit
    refine ⟨hname, ?_⟩
    rw [after?_eq_some_iff.mp ht, sectionOpener, List.append_assoc, List.append_assoc, hsplit]

theorem sectionAt?_eq_none {s : List Char} (h : ¬ sectionMark <+: s) :
    sectionAt? s = none := by
  rw [sectionAt?, after?_eq_none_iff.mpr h, Option.bind_none]

variable {visible : List Char → Bool}

@[simp]
theorem resolveSections_nil : resolveSections visible [] = [] := by
  rw [resolveSections]

theorem resolveSections_skip {c : Char} {s : List Char} (h : sectionAt? (c :: s) = none) :
    resolveSections visible (c :: s) = c :: resolveSections visible s := by
  rw [resolveSections]
  split
  · rfl
  · simp_all

theorem resolveSections_cons {c : Char} {s : List Char} (h : ¬ sectionMark <+: c :: s) :
    resolveSections visible (c :: s) = c :: resolveSections visible s :=
  resolveSections_skip (sectionAt?_eq_none h)

/-- An opener without a closer stays. -/
theorem resolveSections_lone {name s : List Char} (hn : IsName name)
    (hs : splitFirst? (sectionCloser name) s = none) :
    resolveSections visible (sectionOpener name ++ s) =
      sectionOpener name ++ resolveSections visible s := by
  obtain ⟨r, hr⟩ : ∃ r, sectionOpener name ++ s = '{' :: r := ⟨_, rfl⟩
  have hat := sectionAt?_opener hn s
  rw [hr] at hat ⊢
  rw [resolveSections]
  split
  · simp_all
  · next name' rest hsome =>
    rw [hat, Option.some.injEq, Prod.mk.injEq] at hsome
    obtain ⟨rfl, rfl⟩ := hsome
    split
    · rfl
    · simp_all

/-- A section with a closer gives way to its body, which is looked at again with what follows. -/
theorem resolveSections_section {name s body tail : List Char} (hn : IsName name)
    (hs : splitFirst? (sectionCloser name) s = some (body, tail)) :
    resolveSections visible (sectionOpener name ++ s) =
      resolveSections visible ((if visible name then body else []) ++ tail) := by
  obtain ⟨r, hr⟩ : ∃ r, sectionOpener name ++ s = '{' :: r := ⟨_, rfl⟩
  have hat := sectionAt?_opener hn s
  rw [hr] at hat ⊢
  rw [resolveSections]
  split
  · simp_all
  · next name' rest hsome =>
    rw [hat, Option.some.injEq, Prod.mk.injEq] at hsome
    obtain ⟨rfl, rfl⟩ := hsome
    split
    · simp_all
    · next body' tail' hbody =>
      rw [hs, Option.some.injEq, Prod.mk.injEq] at hbody
      obtain ⟨rfl, rfl⟩ := hbody
      rfl

end EmailTemplate.Template
