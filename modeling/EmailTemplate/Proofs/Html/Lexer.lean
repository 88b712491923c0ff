import EmailTemplate.Html.Lexer
import Mathlib.Data.List.Infix

/-! What a reading leaves over is an end of the text, and a shorter one whenever markup or text
was read. -/

namespace EmailTemplate.Html

open Text

/-! ### Words and document types -/

theorem skipGap_suffix (s : List Char) : skipGap s <:+ s := List.dropWhile_suffix _

theorem pastTagEnd_suffix (s : List Char) : pastTagEnd s <:+ s :=
  (List.drop_suffix _ _).trans (List.dropWhile_suffix _)

theorem after?_suffix {head s rest : List Char} (h : after? head s = some rest) : rest <:+ s := by
  induction head generalizing s with
  | nil =>
    obtain rfl : s = rest := Option.some.inj h
    exact List.suffix_refl s
  | cons x head ih =>
    cases s with
    | nil => simp [after?] at h
    | cons c s =>
      rw [after?] at h
      split at h
      · exact (ih h).trans (List.suffix_cons c s)
      · cases h

theorem afterNoCase?_suffix {head s rest : List Char} (h : afterNoCase? head s = some rest) :
    rest <:+ s := by
  induction head generalizing s with
  | nil =>
    obtain rfl : s = rest := Option.some.inj h
    exact List.suffix_refl s
  | cons x head ih =>
    cases s with
    | nil => simp [afterNoCase?] at h
    | cons c s =>
      rw [afterNoCase?] at h
      split at h
      · exact (ih h).trans (List.suffix_cons c s)
      · cases h

theorem splitFirst?_suffix {find s inside rest : List Char}
    (h : splitFirst? find s = some (inside, rest)) : rest <:+ s := by
  induction s generalizing inside with
  | nil =>
    rw [splitFirst?] at h
    split at h
    · obtain ⟨-, rfl⟩ := Prod.mk.inj (Option.some.inj h)
      exact List.suffix_refl _
    · cases h
  | cons c s ih =>
    rw [splitFirst?] at h
    split at h
    · next hafter =>
      obtain ⟨-, rfl⟩ := Prod.mk.inj (Option.some.inj h)
      exact after?_suffix hafter
    · obtain ⟨⟨before, found⟩, hrest, heq⟩ := Option.map_eq_some_iff.mp h
      obtain ⟨-, rfl⟩ := Prod.mk.inj heq
      exact (ih hrest).trans (List.suffix_cons c s)

theorem quotedId_suffix (mark : Char) (s : List Char) : (quotedId mark s).2.1 <:+ s := by
  have hdrop := List.drop_suffix (s.takeWhile fun c => c != mark && c != '>').length s
  rw [quotedId]
  split
  · next c rest heq =>
    rw [heq] at hdrop
    split
    · exact (List.suffix_cons c rest).trans hdrop
    · exact hdrop
  · exact List.nil_suffix

theorem closeDoctype_suffix (strict : Bool) (d : Doctype) (s : List Char) :
    (closeDoctype strict d s).2 <:+ s := by
  have hgap := skipGap_suffix s
  rw [closeDoctype]
  split
  · next rest heq =>
    rw [heq] at hgap
    exact (List.suffix_cons _ rest).trans hgap
  · exact List.nil_suffix
  · exact (pastTagEnd_suffix _).trans hgap

theorem quotedId_skipGap_suffix {s t : List Char} {c : Char} (h : skipGap s = c :: t) (mark : Char) :
    (quotedId mark t).2.1 <:+ s := by
  have hgap := skipGap_suffix s
  rw [h] at hgap
  exact (quotedId_suffix mark t).trans ((List.suffix_cons c t).trans hgap)

theorem readSystemId_suffix (needed : Bool) (d : Doctype) (s : List Char) :
    (readSystemId needed d s).2 <:+ s := by
  have hgap := skipGap_suffix s
  rw [readSystemId]
  split
  · next t heq =>
    have hquoted := quotedId_skipGap_suffix heq '"'
    dsimp only
    split
    · exact (closeDoctype_suffix _ _ _).trans hquoted
    · exact (pastTagEnd_suffix _).trans hquoted
  · next t heq =>
    have hquoted := quotedId_skipGap_suffix heq '\''
    dsimp only
    split
    · exact (closeDoctype_suffix _ _ _).trans hquoted
    · exact (pastTagEnd_suffix _).trans hquoted
  · next t heq =>
    rw [heq] at hgap
    exact (List.suffix_cons _ t).trans hgap
  · exact (pastTagEnd_suffix _).trans hgap

theorem readPublicId_suffix (d : Doctype) (s : List Char) : (readPublicId d s).2 <:+ s := by
  rw [readPublicId]
  split
  · next t heq =>
    have hquoted := quotedId_skipGap_suffix heq '"'
    dsimp only
    split
    · exact (readSystemId_suffix _ _ _).trans hquoted
    · exact (pastTagEnd_suffix _).trans hquoted
  · next t heq =>
    have hquoted := quotedId_skipGap_suffix heq '\''
    dsimp only
    split
    · exact (readSystemId_suffix _ _ _).trans hquoted
    · exact (pastTagEnd_suffix _).trans hquoted
  · exact (pastTagEnd_suffix _).trans (skipGap_suffix s)

theorem readDoctype_suffix (s : List Char) : (readDoctype s).2 <:+ s := by
  have hword : ∀ n, skipGap ((skipGap s).drop n) <:+ s := fun n =>
    (skipGap_suffix _).trans ((List.drop_suffix n _).trans (skipGap_suffix s))
  rw [readDoctype]
  split
  · exact (pastTagEnd_suffix _).trans (hword _)
  · split
    · next hpublic => exact (readPublicId_suffix _ _).trans ((afterNoCase?_suffix hpublic).trans (hword _))
    · split
      · next hsystem =>
        exact (readSystemId_suffix _ _ _).trans ((afterNoCase?_suffix hsystem).trans (hword _))
      · exact (closeDoctype_suffix _ _ _).trans (hword _)

/-! ### Tags and comments -/

theorem readAttributes_suffix {spot : TagSpot} {d : TagDraft} {s rest : List Char}
    {attributes : List (String × String)} {selfClosing : Bool}
    (h : readAttributes spot d s = some (attributes, selfClosing, rest)) : rest <:+ s := by
  induction s generalizing spot d with
  | nil => simp [readAttributes] at h
  | cons c s ih =>
    rw [readAttributes] at h
    split at h
    · simp only [Option.some.injEq, Prod.mk.injEq] at h
      rw [← h.2.2]
      exact List.suffix_cons c s
    · exact (ih h).trans (List.suffix_cons c s)

theorem readTag_suffix {s rest : List Char} {tag : StartTag} (h : readTag s = some (tag, rest)) :
    rest <:+ s := by
  obtain ⟨⟨attributes, selfClosing, found⟩, hread, heq⟩ := Option.map_eq_some_iff.mp h
  obtain ⟨-, rfl⟩ := Prod.mk.inj heq
  exact (readAttributes_suffix hread).trans (List.drop_suffix _ _)

theorem commentEnd?_suffix {s inside rest : List Char} (h : commentEnd? s = some (inside, rest)) :
    rest <:+ s := by
  fun_induction commentEnd? s generalizing inside with
  | case1 => cases h
  | case2 found =>
    obtain ⟨-, rfl⟩ := Prod.mk.inj (Option.some.inj h)
    exact ⟨['-', '-', '>'], rfl⟩
  | case3 found =>
    obtain ⟨-, rfl⟩ := Prod.mk.inj (Option.some.inj h)
    exact ⟨['-', '-', '!', '>'], rfl⟩
  | case4 c s _ _ ih =>
    obtain ⟨⟨before, found⟩, hrest, heq⟩ := Option.map_eq_some_iff.mp h
    obtain ⟨-, rfl⟩ := Prod.mk.inj heq
    exact (ih hrest).trans (List.suffix_cons c s)

theorem readComment_suffix (s : List Char) : (readComment s).2 <:+ s := by
  unfold readComment
  split
  · exact List.suffix_cons _ _
  · next rest => exact ⟨['-', '>'], rfl⟩
  · split
    · next hend => exact commentEnd?_suffix hend
    · exact List.nil_suffix

theorem readBogusComment_suffix (s : List Char) : (readBogusComment s).2 <:+ s := pastTagEnd_suffix s

theorem readCdata_suffix (s : List Char) : (readCdata s).2 <:+ s := by
  rw [readCdata]
  split
  · next hfound => exact splitFirst?_suffix hfound
  · exact List.nil_suffix

theorem readDeclaration_suffix (foreign : Bool) (s : List Char) :
    (readDeclaration foreign s).2 <:+ s := by
  unfold readDeclaration
  dsimp only
  split
  · next hcomment => exact (readComment_suffix _).trans (after?_suffix hcomment)
  · split
    · next hdoctype => exact (readDoctype_suffix _).trans (afterNoCase?_suffix hdoctype)
    · split
      · next rest hcdata =>
        have hrest : rest <:+ s := by
          cases foreign with
          | true => exact after?_suffix hcdata
          | false => cases hcdata
        exact (readCdata_suffix rest).trans hrest
      · exact readBogusComment_suffix s

theorem readMarkup_suffix (foreign : Bool) (s : List Char) : (readMarkup foreign s).2 <:+ s := by
  unfold readMarkup
  split
  · next t => exact (readDeclaration_suffix foreign t).trans (List.suffix_cons _ t)
  · exact List.nil_suffix
  · next t => exact ⟨['/', '>'], rfl⟩
  · next c t =>
    split
    · split
      · next htag => exact (readTag_suffix htag).trans (List.suffix_cons _ _)
      · exact List.nil_suffix
    · exact (readBogusComment_suffix _).trans (List.suffix_cons _ _)
  · next t => exact readBogusComment_suffix _
  · next c t _ _ _ _ _ =>
    split
    · split
      · next htag => exact readTag_suffix htag
      · exact List.nil_suffix
    · exact List.suffix_refl _
  · exact List.nil_suffix

/-! ### Progress -/

theorem readData_length {s : List Char} (hs : s ≠ []) (foreign : Bool) :
    (readData foreign s).2.length < s.length := by
  cases s with
  | nil => exact absurd rfl hs
  | cons c t =>
    by_cases hc : c = '<'
    · subst hc
      have hle := (readMarkup_suffix foreign t).length_le
      exact Nat.lt_succ_of_le hle
    · have htext : (c :: t).takeWhile (· != '<') = c :: t.takeWhile (· != '<') := by simp [hc]
      rw [readData]
      · rw [htext]
        simp only [List.length_cons, List.drop_succ_cons, List.length_drop]
        omega
      · intro u heq
        exact hc (List.cons.inj heq).1

theorem textBefore_append (name s : List Char) : (textBefore name s).1 ++ (textBefore name s).2 = s := by
  induction s with
  | nil => rfl
  | cons c s ih =>
    rw [textBefore]
    split
    · rfl
    · exact congrArg (c :: ·) ih

theorem scriptText_append (depth : ScriptDepth) (dashes : Nat) (s : List Char) :
    (scriptText depth dashes s).1 ++ (scriptText depth dashes s).2 = s := by
  induction s generalizing depth dashes with
  | nil => rfl
  | cons c s ih =>
    rw [scriptText]
    split
    · rfl
    · exact congrArg (c :: ·) (ih _ _)

/-- Text in a mode of its own is read to the end, or up to a tag; if nothing is before the tag, then
nothing is read. -/
theorem readText_progress (mode : TextMode) (name : String) (s : List Char) :
    (readText mode name s).2.length < s.length ∨ readText mode name s = ([], s) := by
  have hsplit : ∀ {text rest : List Char}, text ++ rest = s →
      rest.length < s.length ∨ (text = [] ∧ rest = s) := by
    rintro text rest rfl
    cases text with
    | nil => exact .inr ⟨rfl, rfl⟩
    | cons c text =>
      left
      simp only [List.cons_append, List.length_cons, List.length_append]
      omega
  cases mode with
  | data => exact .inr rfl
  | title =>
    refine (hsplit (textBefore_append name.toList s)).imp_right fun ⟨htext, hrest⟩ => ?_
    simp only [readText, htext, hrest, List.map_nil]
    rfl
  | raw =>
    refine (hsplit (textBefore_append name.toList s)).imp_right fun ⟨htext, hrest⟩ => ?_
    simp [readText, htext, hrest]
  | script =>
    refine (hsplit (scriptText_append .outside 0 s)).imp_right fun ⟨htext, hrest⟩ => ?_
    simp [readText, htext, hrest]
  | plain =>
    cases s with
    | nil => exact .inr rfl
    | cons c s => exact .inl (Nat.succ_pos _)

end EmailTemplate.Html
