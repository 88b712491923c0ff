import EmailTemplate.Proofs.Html.Entity
import EmailTemplate.Proofs.PlainText.Fragment
import EmailTemplate.Proofs.PlainText.Passes
import EmailTemplate.Proofs.Text.Blank

/-! Text in which some characters are written by name, and what it decodes to. -/

namespace EmailTemplate.PlainText

open Text
open Html (namedChars markNames markNames_subset entity?_of_mem_namedChars)

/-- `e` is `d` with at least its ampersands written by name. -/
inductive Coded : List Char → List Char → Prop
  | nil : Coded [] []
  | plain {c : Char} {e d : List Char} (hc : c ≠ '&') (h : Coded e d) : Coded (c :: e) (c :: d)
  | named {c : Char} {name e d : List Char} (hc : (c, name) ∈ markNames) (h : Coded e d) :
    Coded ('&' :: (name ++ ';' :: e)) (c :: d)

theorem Coded.append {e e' d d' : List Char} (h : Coded e d) (h' : Coded e' d') :
    Coded (e ++ e') (d ++ d') := by
  induction h with
  | nil => exact h'
  | plain hc _ ih => exact .plain hc ih
  | named hc _ ih =>
    rw [List.cons_append, List.append_assoc]
    exact .named hc ih

theorem Coded.additive : Additive Coded := ⟨.nil, fun h h' => h.append h'⟩

theorem Coded.of_no_ampersand {s : List Char} (h : '&' ∉ s) : Coded s s := by
  induction s with
  | nil => exact .nil
  | cons c s ih =>
    rw [List.mem_cons, not_or] at h
    exact .plain (Ne.symm h.1) (ih h.2)

/-! ### Decoding -/

theorem lower_of_mem_namedChars {c : Char} {name : List Char} (h : (c, name) ∈ namedChars) :
    ∀ d ∈ name, isAsciiLower d = true := by
  have hall : (namedChars.all fun m => m.2.all isAsciiLower) = true := by decide
  exact List.all_eq_true.mp (List.all_eq_true.mp hall (c, name) h)

theorem reference?_of_mem_namedChars {c : Char} {name : List Char} (h : (c, name) ∈ namedChars) :
    reference? name = some c := by
  have hentity := entity?_of_mem_namedChars h
  have hhead : name.head? ≠ some '#' := by
    intro he
    obtain ⟨s, rfl⟩ := List.head?_eq_some_iff.mp he
    have hlower := lower_of_mem_namedChars h '#' List.mem_cons_self
    exact absurd hlower (by decide)
  unfold reference?
  split
  · exact absurd rfl hhead
  · exact absurd rfl hhead
  · exact absurd rfl hhead
  · rw [hentity]
    rfl

theorem referenceAt?_named {c : Char} {name : List Char} (h : (c, name) ∈ namedChars)
    (s : List Char) : referenceAt? ('&' :: (name ++ ';' :: s)) = some ([c], name.length + 2) := by
  have hrun : (name ++ ';' :: s).takeWhile (fun c => c != ';' && c != '&') = name := by
    refine takeWhile_append_stop ?_ (by decide)
    intro d hd
    have hlower := lower_of_mem_namedChars h d hd
    have hsemicolon : d ≠ ';' := by
      rintro rfl
      exact absurd hlower (by decide)
    have hampersand : d ≠ '&' := by
      rintro rfl
      exact absurd hlower (by decide)
    simp [hsemicolon, hampersand]
  simp only [referenceAt?, after?, if_true, Option.bind_some, hrun, List.drop_left,
    reference?_of_mem_namedChars h, Option.map_some]

theorem turns_decodeReferences_named {c : Char} {name : List Char} (h : (c, name) ∈ namedChars) :
    Turns decodeReferences ('&' :: name ++ [';']) [c] := by
  intro s
  have hmatch := referenceAt?_named h s
  have hshape : '&' :: (name ++ ';' :: s) = ('&' :: name ++ [';']) ++ s := by simp
  have hlength : name.length + 2 = ('&' :: name ++ [';']).length := by simp
  rw [hshape, hlength] at hmatch
  exact replaceMatches_match (by simp) hmatch

theorem turns_decodeReferences_run {u : List Char} (h : '&' ∉ u) : Turns decodeReferences u u := by
  refine turns_replaceMatches_ignored ?_
  rintro s v w rfl hw
  obtain ⟨c, w, rfl⟩ := List.exists_cons_of_ne_nil hw
  have hc : '&' ≠ c := by
    rintro rfl
    exact h (by simp)
  simp only [List.cons_append, referenceAt?, after?, if_neg hc, Option.bind_none]

theorem Coded.turns_decodeReferences {e d : List Char} (h : Coded e d) :
    Turns decodeReferences e d := by
  induction h with
  | nil => exact .nil decodeReferences
  | plain hc _ ih =>
    have hrun := List.mem_singleton.not.mpr (Ne.symm hc)
    exact (turns_decodeReferences_run hrun).append ih
  | @named c name e d hc _ ih =>
    have hshape : '&' :: (name ++ ';' :: e) = ('&' :: name ++ [';']) ++ e := by simp
    rw [hshape]
    exact (turns_decodeReferences_named (markNames_subset hc)).append ih

theorem Coded.decode {e d : List Char} (h : Coded e d) : decodeReferences e = d :=
  h.turns_decodeReferences.eq rfl

/-! ### Trimming -/

theorem Coded.eq_nil_iff {e d : List Char} (h : Coded e d) : e = [] ↔ d = [] := by
  cases h <;> simp

theorem not_blank_of_mem_markNames {c : Char} {name : List Char} (h : (c, name) ∈ markNames) :
    isBlank c = false := by
  have hall : ∀ m ∈ markNames, isBlank m.1 = false := by decide
  exact hall (c, name) h

theorem Coded.trimLeft {e d : List Char} (h : Coded e d) : Coded (trimLeft e) (trimLeft d) := by
  induction h with
  | nil => exact .nil
  | @plain c e d hc h ih =>
    cases hblank : isBlank c with
    | true => simpa only [Text.trimLeft, List.dropWhile_cons_of_pos hblank] using ih
    | false =>
      have hneg : ¬ isBlank c = true := by simp [hblank]
      simpa only [Text.trimLeft, List.dropWhile_cons_of_neg hneg] using Coded.plain hc h
  | @named c name e d hc h ih =>
    have hneg : ¬ isBlank c = true := by simp [not_blank_of_mem_markNames hc]
    have hampersand : ¬ isBlank '&' = true := by decide
    simpa only [Text.trimLeft, List.dropWhile_cons_of_neg hneg,
      List.dropWhile_cons_of_neg hampersand] using Coded.named hc h

theorem Coded.trimRight {e d : List Char} (h : Coded e d) :
    Coded (trimRight e) (trimRight d) := by
  induction h with
  | nil => exact .nil
  | @plain c e d hc h ih =>
    cases hblank : isBlank c with
    | true =>
      rw [trimRight_cons_blank hblank, trimRight_cons_blank hblank]
      by_cases hd : Text.trimRight d = []
      · rw [if_pos (ih.eq_nil_iff.mpr hd), if_pos hd]
        exact .nil
      · rw [if_neg (mt ih.eq_nil_iff.mp hd), if_neg hd]
        exact .plain hc ih
    | false =>
      rw [trimRight_cons hblank, trimRight_cons hblank]
      exact .plain hc ih
  | @named c name e d hc h ih =>
    rw [← List.cons_append, trimRight_append_cons (by decide),
      trimRight_cons (not_blank_of_mem_markNames hc)]
    exact .named hc ih

theorem Coded.trim {e d : List Char} (h : Coded e d) : Coded (trim e) (trim d) :=
  h.trimLeft.trimRight

theorem Coded.described : ∀ {e d : Option (List Char)}, Option.Rel Coded e d →
    Coded (described e) (described d)
  | none, none, _ => .nil
  | some e, some d, .some h => by
    have htrim := h.trim
    simp only [PlainText.described, List.isEmpty_iff, htrim.eq_nil_iff]
    split
    · exact .nil
    · exact (Coded.plain (by decide) htrim).append (.plain (by decide) .nil)

theorem Coded.addressed {u v : List Char} (huv : Coded u v) :
    ∀ {e d : Option (List Char)}, Option.Rel Coded e d → Coded (addressed u e) (addressed v d)
  | none, none, _ => huv
  | some e, some d, .some h => by
    simp only [PlainText.addressed, List.isEmpty_iff, h.eq_nil_iff]
    split
    · exact huv
    · have hopen : Coded [' ', '('] [' ', '('] := .of_no_ampersand (by decide)
      have hclose : Coded [')'] [')'] := .of_no_ampersand (by decide)
      exact ((huv.append hopen).append h).append hclose

/-! ### Escaping -/

theorem lookup_mem {marks : List (Char × List Char)} {c : Char} {name : List Char}
    (h : marks.lookup c = some name) : (c, name) ∈ marks := by
  obtain ⟨before, after, rfl, -⟩ := List.lookup_eq_some_iff.mp h
  simp

/-- The characters of an escaped text. -/
theorem mem_escape {marks : List (Char × List Char)} (hmarks : marks ⊆ markNames)
    {s : List Char} {d : Char} (h : d ∈ escape marks s) :
    (d ∈ s ∧ marks.lookup d = none) ∨ d = '&' ∨ d = ';' ∨ isAsciiLower d = true := by
  obtain ⟨c, hc, hd⟩ := List.mem_flatMap.mp h
  rw [escapeChar] at hd
  split at hd
  · next name hname =>
    have hlower := lower_of_mem_namedChars (markNames_subset (hmarks (lookup_mem hname))) d
    simp only [List.cons_append, List.mem_cons, List.mem_append, List.not_mem_nil, or_false] at hd
    rcases hd with hd | hd | hd
    · exact .inr (.inl hd)
    · exact .inr (.inr (.inr (hlower hd)))
    · exact .inr (.inr (.inl hd))
  · next hnone =>
    obtain rfl := List.mem_singleton.mp hd
    exact .inl ⟨hc, hnone⟩

theorem not_mem_escape {marks : List (Char × List Char)} (hmarks : marks ⊆ markNames)
    {s : List Char} {d : Char} (hs : d ∉ s ∨ marks.lookup d ≠ none)
    (hd : d ≠ '&' ∧ d ≠ ';' ∧ isAsciiLower d = false) : d ∉ escape marks s := by
  intro h
  rcases mem_escape hmarks h with ⟨hmem, hnone⟩ | hc | hc | hc
  · exact hs.elim (· hmem) (· hnone)
  · exact hd.1 hc
  · exact hd.2.1 hc
  · rw [hd.2.2] at hc
    cases hc

theorem Coded.escape {marks : List (Char × List Char)} (hmarks : marks ⊆ markNames)
    (hampersand : marks.lookup '&' ≠ none) (s : List Char) : Coded (escape marks s) s := by
  induction s with
  | nil => exact .nil
  | cons c s ih =>
    have hchar : Coded (escapeChar marks c) [c] := by
      rw [escapeChar]
      split
      · next name hname => exact .named (hmarks (lookup_mem hname)) .nil
      · next hnone =>
        refine .plain ?_ .nil
        rintro rfl
        exact hampersand hnone
    exact hchar.append ih

end EmailTemplate.PlainText
